import AnnotationScene.Annotation.Basic
import AnnotationScene.Element.Kind
import AnnotationScene.OrderedMap

/-!
# Elements

An element has a header of its own data and the parts that its kind lays out for it. Headers
carry a description, which names the element in texts, its annotations, and what only its kind
has. `Parts.slot?` and `Parts.setSlot` are the view of the parts by slot.
-/

namespace AnnotationScene

inductive ClassKind
  | enum
  | interface
  | annotationType
  | record
deriving DecidableEq, Repr

structure ClassMarks where
  enums : List String := []
  interfaces : List String := []
  annotationTypes : List String := []
  records : List String := []
deriving DecidableEq, Repr

structure FieldDetail where
  name : String
  /-- The type as written in source code, once it is known. -/
  typeText : Option String := none
deriving DecidableEq, Repr

structure MethodDetail where
  signature : String
  returnText : Option String := none
  typeParameters : Option (List String) := none
deriving DecidableEq, Repr

structure ClassDetail where
  name : String
  enumConstants : Option (List String) := none
  marks : ClassMarks := {}
deriving DecidableEq, Repr

structure CastDetail where
  target : Option String := none
deriving DecidableEq, Repr

structure ExpressionDetail where
  id : String
deriving DecidableEq, Repr

abbrev Detail : Kind → Type
  | .plain => Unit
  | .type => Unit
  | .cast => CastDetail
  | .declaration => Unit
  | .expression => ExpressionDetail
  | .block => ExpressionDetail
  | .field => FieldDetail
  | .method => MethodDetail
  | .classType => ClassDetail

structure Header (k : Kind) where
  description : String
  annotations : AnnotationSet
  detail : Detail k

mutual
inductive Element : Kind → Type
  | mk {k : Kind} (header : Header k) (parts : Parts k.layout) : Element k
inductive Parts : List Slot → Type
  | nil : Parts []
  | fixed {f : FixedChild} {rest : List Slot} (child : Element f.kind) (more : Parts rest) :
      Parts (.fixed f :: rest)
  | absent {o : OptionalChild} {rest : List Slot} (more : Parts rest) :
      Parts (.optional o :: rest)
  | present {o : OptionalChild} {rest : List Slot} (child : Element o.kind) (more : Parts rest) :
      Parts (.optional o :: rest)
  | keyed {m : ChildMap} {rest : List Slot} (entries : Entries m) (more : Parts rest) :
      Parts (.keyed m :: rest)
  | contracts {rest : List Slot} (set : AnnotationSet) (more : Parts rest) :
      Parts (.contracts :: rest)
inductive Entries : ChildMap → Type
  | nil {m : ChildMap} : Entries m
  | cons {m : ChildMap} (key : m.Key) (child : Element m.kind) (more : Entries m) : Entries m
end

abbrev SomeElement := (k : Kind) × Element k

namespace Entries

variable {m : ChildMap}

def toList : Entries m → List (m.Key × Element m.kind)
  | .nil => []
  | .cons key child more => (key, child) :: more.toList

def ofList : List (m.Key × Element m.kind) → Entries m
  | [] => .nil
  | (key, child) :: more => .cons key child (ofList more)

@[simp]
theorem toList_ofList (l : List (m.Key × Element m.kind)) : (ofList l).toList = l := by
  induction l with
  | nil => rfl
  | cons e rest ih => simp [ofList, toList, ih]

@[simp]
theorem ofList_toList : (e : Entries m) → ofList e.toList = e
  | .nil => rfl
  | .cons key child more => by simp [ofList, toList, ofList_toList more]

theorem toList_injective {e f : Entries m} (h : e.toList = f.toList) : e = f := by
  rw [← ofList_toList e, h, ofList_toList]

/-- Induction on the entries alone, not on the elements below them. -/
@[elab_as_elim]
theorem induct {motive : Entries m → Prop} (nil : motive .nil)
    (cons : ∀ key child more, motive more → motive (.cons key child more)) :
    (e : Entries m) → motive e
  | .nil => nil
  | .cons key child more => cons key child more (more.induct nil cons)

def toMap (e : Entries m) : OrderedMap m.Key (Element m.kind) := ⟨e.toList⟩

def ofMap (map : OrderedMap m.Key (Element m.kind)) : Entries m := ofList map.entries

def size (e : Entries m) : Nat := e.toMap.size

def keys (e : Entries m) : List m.Key := e.toMap.keys

def values (e : Entries m) : List (Element m.kind) := e.toMap.values

def get? (e : Entries m) (key : m.Key) : Option (Element m.kind) := e.toMap.get? key

/-- A present key keeps its place. -/
def insert (e : Entries m) (key : m.Key) (child : Element m.kind) : Entries m :=
  ofMap (e.toMap.insert key child)

def erase (e : Entries m) (key : m.Key) : Entries m := ofMap (e.toMap.erase key)

end Entries

abbrev Slot.Content : Slot → Type
  | .fixed f => Element f.kind
  | .optional o => Option (Element o.kind)
  | .keyed m => Entries m
  | .contracts => AnnotationSet

namespace Parts

def ofOption {o : OptionalChild} {rest : List Slot} (child : Option (Element o.kind))
    (more : Parts rest) : Parts (.optional o :: rest) :=
  match child with
  | some child => .present child more
  | none => .absent more

def slot? {layout : List Slot} : Parts layout → (s : Slot) → Option s.Content
  | .nil, _ => none
  | .fixed (f := f) child more, s => if h : .fixed f = s then some (h ▸ child) else more.slot? s
  | .absent (o := o) more, s => if h : .optional o = s then some (h ▸ none) else more.slot? s
  | .present (o := o) child more, s =>
    if h : .optional o = s then some (h ▸ some child) else more.slot? s
  | .keyed (m := m) entries more, s =>
    if h : .keyed m = s then some (h ▸ entries) else more.slot? s
  | .contracts set more, s => if h : .contracts = s then some (h ▸ set) else more.slot? s

/-- The parts with another content of a slot; unchanged if the layout lacks the slot. -/
def setSlot {layout : List Slot} : Parts layout → (s : Slot) → s.Content → Parts layout
  | .nil, _, _ => .nil
  | .fixed (f := f) child more, s, content =>
    if h : s = .fixed f then .fixed (show Slot.Content (.fixed f) from h ▸ content) more
    else .fixed child (more.setSlot s content)
  | .absent (o := o) more, s, content =>
    if h : s = .optional o then .ofOption (show Slot.Content (.optional o) from h ▸ content) more
    else .absent (more.setSlot s content)
  | .present (o := o) child more, s, content =>
    if h : s = .optional o then .ofOption (show Slot.Content (.optional o) from h ▸ content) more
    else .present child (more.setSlot s content)
  | .keyed (m := m) entries more, s, content =>
    if h : s = .keyed m then .keyed (show Slot.Content (.keyed m) from h ▸ content) more
    else .keyed entries (more.setSlot s content)
  | .contracts set more, s, content =>
    if h : s = .contracts then .contracts (show Slot.Content .contracts from h ▸ content) more
    else .contracts set (more.setSlot s content)

theorem slot?_setSlot_self {layout : List Slot} (p : Parts layout) (s : Slot)
    (content : s.Content) : (p.setSlot s content).slot? s = (p.slot? s).map fun _ => content := by
  match p with
  | .nil => rfl
  | .fixed (f := f) child more =>
    by_cases h : s = .fixed f
    · subst h
      simp [slot?, setSlot]
    · simp [slot?, setSlot, h, Ne.symm h, slot?_setSlot_self more s content]
  | .absent (o := o) more =>
    by_cases h : s = .optional o
    · subst h
      cases content <;> simp [slot?, setSlot, ofOption]
    · simp [slot?, setSlot, h, Ne.symm h, slot?_setSlot_self more s content]
  | .present (o := o) child more =>
    by_cases h : s = .optional o
    · subst h
      cases content <;> simp [slot?, setSlot, ofOption]
    · simp [slot?, setSlot, h, Ne.symm h, slot?_setSlot_self more s content]
  | .keyed (m := m) entries more =>
    by_cases h : s = .keyed m
    · subst h
      simp [slot?, setSlot]
    · simp [slot?, setSlot, h, Ne.symm h, slot?_setSlot_self more s content]
  | .contracts set more =>
    by_cases h : s = .contracts
    · subst h
      simp [slot?, setSlot]
    · simp [slot?, setSlot, h, Ne.symm h, slot?_setSlot_self more s content]

theorem slot?_setSlot_of_ne {layout : List Slot} (p : Parts layout) {s t : Slot} (hst : t ≠ s)
    (content : s.Content) : (p.setSlot s content).slot? t = p.slot? t := by
  match p with
  | .nil => rfl
  | .fixed (f := f) child more =>
    by_cases h : s = .fixed f
    · subst h
      simp [slot?, setSlot, hst.symm]
    · simp [slot?, setSlot, h, slot?_setSlot_of_ne more hst content]
  | .absent (o := o) more =>
    by_cases h : s = .optional o
    · subst h
      cases content <;> simp [slot?, setSlot, ofOption, hst.symm]
    · simp [slot?, setSlot, h, slot?_setSlot_of_ne more hst content]
  | .present (o := o) child more =>
    by_cases h : s = .optional o
    · subst h
      cases content <;> simp [slot?, setSlot, ofOption, hst.symm]
    · simp [slot?, setSlot, h, slot?_setSlot_of_ne more hst content]
  | .keyed (m := m) entries more =>
    by_cases h : s = .keyed m
    · subst h
      simp [slot?, setSlot, hst.symm]
    · simp [slot?, setSlot, h, slot?_setSlot_of_ne more hst content]
  | .contracts set more =>
    by_cases h : s = .contracts
    · subst h
      simp [slot?, setSlot, hst.symm]
    · simp [slot?, setSlot, h, slot?_setSlot_of_ne more hst content]

/-- The contract annotations, of which only a method has any. -/
def contractSet {layout : List Slot} (p : Parts layout) : AnnotationSet :=
  (p.slot? .contracts).getD []

end Parts

namespace Element

variable {k : Kind}

def header : Element k → Header k
  | .mk header _ => header

def parts : Element k → Parts k.layout
  | .mk _ parts => parts

def description (e : Element k) : String := e.header.description

def annotations (e : Element k) : AnnotationSet := e.header.annotations

def contracts (e : Element k) : AnnotationSet := e.parts.contractSet

def detail (e : Element k) : Detail k := e.header.detail

/-- All annotations at the element itself: its own, then its contracts. -/
def attached (e : Element k) : List Annotation := e.annotations ++ e.contracts

def withHeader (e : Element k) (header : Header k) : Element k := .mk header e.parts

def withParts (e : Element k) (parts : Parts k.layout) : Element k := .mk e.header parts

def withDetail (e : Element k) (detail : Detail k) : Element k :=
  e.withHeader { e.header with detail }

@[simp] theorem detail_withDetail (e : Element k) (d : Detail k) : (e.withDetail d).detail = d :=
  rfl

@[simp] theorem withDetail_detail : (e : Element k) → e.withDetail e.detail = e
  | .mk _ _ => rfl

@[simp] theorem withDetail_withDetail (e : Element k) (d d' : Detail k) :
    (e.withDetail d).withDetail d' = e.withDetail d' := rfl

end Element

end AnnotationScene
