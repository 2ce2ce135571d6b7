import AnnotationScene.Annotation.Unify
import AnnotationScene.Config
import AnnotationScene.Scene

/-!
# Collecting definitions

A collector finds every annotation definition that a scene refers to and merges those of one name.
The definitions that a field type mentions come before the definition that has the field; with
`includeMeta` those of meta-annotations do too. With `verify` every value of the scene is then
checked against the merged definition. `Collector.ordered` lists the definitions so that each
stands after those it depends on, as far as there is no cycle.
-/

namespace AnnotationScene

inductive DefinitionError
  | conflict (known found : Definition)
  | unknownField (merged : Definition) (field : String)
  | valueMismatch (merged : Definition) (field : String) (value : Value) (expected : FieldType)

def DefinitionError.message : DefinitionError → String
  | .conflict known found =>
    s!"conflicting definitions of annotation type {found.name}: " ++
      s!"{known.render} (from {known.source}) vs {found.render} (from {found.source})"
  | .unknownField merged field =>
    s!"annotation @{merged.name} has no element `{field}` (definition from {merged.source})"
  | .valueMismatch merged field value expected =>
    s!"value {value.render} of @{merged.name}.{field} does not fit merged type " ++
      s!"{expected.render} (definition from {merged.source})"

abbrev DefinitionTable := OrderedMap String Definition

structure Progress where
  table : DefinitionTable := .empty
  events : List Event := []

structure Failure where
  error : DefinitionError
  events : List Event

namespace Progress

/-- A definition that adds nothing to the table is not looked into again. -/
def knows (p : Progress) (d : Definition) : Bool :=
  match p.table.get? d.name with
  | some known => known.isSame d
  | none => false

/-- A merged definition keeps the place of the first one found. -/
def add (p : Progress) (d : Definition) : Except Failure Progress :=
  match p.table.get? d.name with
  | none => .ok { p with table := p.table.insert d.name d }
  | some known =>
    match known.unify? d with
    | none => .error ⟨.conflict known d, p.events⟩
    | some merged =>
      .ok { table := p.table.insert d.name merged
            events := p.events ++ [.unifiedDefinitions d.name] }

end Progress

mutual
def Definition.collect (config : CollectorConfig) : Definition → Progress → Except Failure Progress
  | ⟨name, metas, none, source⟩, p =>
    if p.knows ⟨name, metas, none, source⟩ then .ok p
    else do
      let p ← if config.includeMeta then AnnotationSet.collectAll config metas p else .ok p
      p.add ⟨name, metas, none, source⟩
  | ⟨name, metas, some fields, source⟩, p =>
    if p.knows ⟨name, metas, some fields, source⟩ then .ok p
    else do
      let p ← FieldType.collectTable config fields p
      let p ← if config.includeMeta then AnnotationSet.collectAll config metas p else .ok p
      p.add ⟨name, metas, some fields, source⟩
def FieldType.collectTable (config : CollectorConfig) :
    List (String × FieldType) → Progress → Except Failure Progress
  | [], p => .ok p
  | (_, type) :: rest, p => do
    let p ← type.collect config p
    FieldType.collectTable config rest p
def FieldType.collect (config : CollectorConfig) : FieldType → Progress → Except Failure Progress
  | .nested definition, p => definition.collect config p
  | .array component, p => component.collect config p
  | _, p => .ok p
def Annotation.collect (config : CollectorConfig) : Annotation → Progress → Except Failure Progress
  | ⟨definition, values⟩, p => do
    let p ← definition.collect config p
    Value.collectTable config values p
def AnnotationSet.collectAll (config : CollectorConfig) :
    List Annotation → Progress → Except Failure Progress
  | [], p => .ok p
  | a :: rest, p => do
    let p ← a.collect config p
    AnnotationSet.collectAll config rest p
def Value.collect (config : CollectorConfig) : Value → Progress → Except Failure Progress
  | .nested inner, p => inner.collect config p
  | .array elements, p => Value.collectList config elements p
  | _, p => .ok p
def Value.collectTable (config : CollectorConfig) :
    List (String × Value) → Progress → Except Failure Progress
  | [], p => .ok p
  | (_, value) :: rest, p => do
    let p ← value.collect config p
    Value.collectTable config rest p
def Value.collectList (config : CollectorConfig) :
    List Value → Progress → Except Failure Progress
  | [], p => .ok p
  | value :: rest, p => do
    let p ← value.collect config p
    Value.collectList config rest p
end

namespace DefinitionTable

def checkValue (merged : Definition) (entry : String × Value) : Except DefinitionError Unit :=
  match merged.fieldType? entry.1 with
  | none => .error (.unknownField merged entry.1)
  | some type =>
    if type.accepts entry.2 then .ok ()
    else .error (.valueMismatch merged entry.1 entry.2 type)

/-- The values of the annotation itself; a definition without fields admits any. -/
def checkOwn (table : DefinitionTable) (a : Annotation) : Except DefinitionError Unit :=
  match table.get? a.name with
  | none => .ok ()
  | some merged => if merged.hasFields then a.values.forM (checkValue merged) else .ok ()

/-- Also the annotations in the values, at any depth. -/
def check (table : DefinitionTable) (a : Annotation) : Except DefinitionError Unit :=
  (a :: a.nestedAnnotations).forM (checkOwn table)

end DefinitionTable

structure Collector where
  config : CollectorConfig
  table : DefinitionTable

namespace Collector

def verification (config : CollectorConfig) (s : Scene) (p : Progress) : Except Failure Unit :=
  if config.verify then
    (s.gather.forM (DefinitionTable.check p.table)).mapError fun error => ⟨error, p.events⟩
  else .ok ()

def ofScene (config : CollectorConfig) (s : Scene) : Except Failure (Collector × List Event) := do
  let p ← AnnotationSet.collectAll config s.gather {}
  verification config s p
  return (⟨config, p.table⟩,
    p.events ++ [.collectedDefinitions p.table.size s.classes.size])

def size (c : Collector) : Nat := c.table.size

def get? (c : Collector) (name : String) : Option Definition := c.table.get? name

/-- The names that a definition depends on, in the order in which they are visited. -/
def edges (c : Collector) (d : Definition) : List String :=
  d.dependencies.map (·.name) ++ if c.config.includeMeta then d.metas.map (·.name) else []

structure Visit where
  met : List String := []
  reported : List Definition := []

/-- Reports a definition after its dependencies. A name is followed only when first met. -/
def visit (c : Collector) : Nat → String → Visit → Visit
  | 0, _, v => v
  | fuel + 1, name, v =>
    if v.met.contains name then v
    else
      let v := { v with met := name :: v.met }
      match c.table.get? name with
      | none => v
      | some d =>
        let v := (c.edges d).foldl (fun v dep => c.visit fuel dep v) v
        { v with reported := v.reported ++ [d] }

/-- A chain of names that are followed is no longer than the table. -/
def ordered (c : Collector) : List Definition :=
  (c.table.keys.foldl (fun v name => c.visit (c.table.size + 1) name v) {}).reported

def visitEvents (c : Collector) : List Event :=
  c.ordered.map fun d => .visitingDefinition d.name

end Collector

end AnnotationScene
