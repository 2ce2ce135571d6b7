import AnnotationScene.Proofs.CollectingPruned
import AnnotationScene.Proofs.Locating

/-!
# The lines of a dump

A dump stops at a vacuous element and says nothing of what is below it. Nothing is lost by that:
below a vacuous element all is vacuous. So the dump has one line for each element of the walk that
is not vacuous, set in by the length of its address, and every annotation stands in the line of its
element. What pruning takes out has no line, and what it leaves keeps its own.
-/

namespace AnnotationScene

-- ---------------------------------------------------------------------------
-- Vacuous elements have no lines
-- ---------------------------------------------------------------------------

theorem Element.dump_eq_nil_iff {k : Kind} {depth : Nat} {e : Element k} :
    e.dump depth = [] ↔ e.isVacuous = true := by
  obtain ⟨header, parts⟩ := e
  simp [Element.dump, Element.isVacuous]

theorem Entries.dump_eq_nil_iff {m : ChildMap} {depth : Nat} {e : Entries m} :
    e.dump depth = [] ↔ e.isVacuous = true := by
  induction e using Entries.induct with
  | nil => simp [Entries.dump, Entries.isVacuous]
  | cons key c more ih => simp [Entries.dump, Entries.isVacuous, Element.dump_eq_nil_iff, ih]

theorem Parts.dumps_of_isVacuous {depth : Nat} : {layout : List Slot} → (p : Parts layout) →
    p.isVacuous = true → (p.dumps depth).flatten = []
  | _, .keyed entries more, hv => by
    simp only [Parts.isVacuous, Bool.and_eq_true] at hv
    simp [Parts.dumps, Entries.dump_eq_nil_iff.mpr hv.1, more.dumps_of_isVacuous hv.2]
  | _, .fixed c more, hv | _, .present c more, hv => by
    simp only [Parts.isVacuous, Bool.and_eq_true] at hv
    simp [Parts.dumps, Element.dump_eq_nil_iff.mpr hv.1, more.dumps_of_isVacuous hv.2]
  | _, .absent more, hv => by simpa [Parts.dumps] using more.dumps_of_isVacuous hv
  | _, .contracts set more, hv => by
    simp only [Parts.isVacuous, Bool.and_eq_true] at hv
    simpa [Parts.dumps] using more.dumps_of_isVacuous hv.2
  | _, .nil, _ => rfl

-- ---------------------------------------------------------------------------
-- The dump of a pruned scene
-- ---------------------------------------------------------------------------

mutual
theorem Element.dump_prune {k : Kind} (depth : Nat) : (e : Element k) →
    e.prune.dump depth = e.dump depth
  | .mk header parts => by
    unfold Element.prune
    split
    next => rfl
    next =>
      simp only [Element.dump, parts.isVacuous_prune, parts.contractSet_prune,
        parts.dumps_prune (depth + 1)]
theorem Parts.dumps_prune {layout : List Slot} (depth : Nat) : (p : Parts layout) →
    p.prune.dumps depth = p.dumps depth
  | .nil => rfl
  | .fixed c more | .present (o := .type) c more => by
    simp only [Parts.prune, Parts.dumps, c.dump_prune depth, more.dumps_prune depth]
  | .absent more => by simp only [Parts.prune, Parts.dumps, more.dumps_prune depth]
  | .present (o := .init) c more => by
    simp only [Parts.prune, c.isVacuous_prune]
    split
    next hv => simp only [Parts.dumps, more.dumps_prune depth, Element.dump_eq_nil_iff.mpr hv]
    next => simp only [Parts.dumps, c.dump_prune depth, more.dumps_prune depth]
  | .keyed entries more => by
    simp only [Parts.prune, Parts.dumps, entries.dump_prune depth, more.dumps_prune depth]
  | .contracts set more => by simp only [Parts.prune, Parts.dumps, more.dumps_prune depth]
theorem Entries.dump_prune {m : ChildMap} (depth : Nat) : (e : Entries m) →
    e.prune.dump depth = e.dump depth
  | .nil => rfl
  | .cons key c more => by
    simp only [Entries.prune, c.isVacuous_prune]
    split
    next hv => simp [Entries.dump, Element.dump_eq_nil_iff.mpr hv, more.dump_prune depth]
    next => simp only [Entries.dump, c.dump_prune depth, more.dump_prune depth]
end

theorem Scene.render_prune (s : Scene) : s.prune.render = s.render := by
  simp only [Scene.render, Scene.prune, Entries.dump_prune]

-- ---------------------------------------------------------------------------
-- Lines along the walk
-- ---------------------------------------------------------------------------

/-- Two blanks for each level, the description, and what is attached to the element. -/
def SomeElement.line (depth : Nat) (x : SomeElement) : String :=
  String.join (List.replicate depth "  ") ++ x.2.description ++ ":" ++
    String.join (x.2.attached.map fun a => " " ++ a.render) ++ "\n"

theorem SomeElement.line_eq_dumpLine (depth : Nat) (x : SomeElement) :
    x.line depth = dumpLine depth x.2.description x.2.attached := by
  have hblanks : String.join (List.replicate depth "  ") =
      String.ofList (List.replicate (2 * depth) ' ') := by
    induction depth with
    | zero => rfl
    | succ depth ih =>
      simp only [List.replicate_succ, String.join_cons, ih, Nat.mul_succ]
      change String.ofList [' ', ' '] ++ _ = _
      exact String.ofList_append.symm
  rw [SomeElement.line, hblanks, dumpLine]

namespace Located

/-- The line of an element that is not vacuous, where elements one step away are at the given
depth. -/
def lines (depth : Nat) (y : Located) : List String :=
  if y.2.2.isVacuous then [] else [y.2.line (depth + y.1.length - 1)]

theorem lines_below (depth : Nat) (s : Step) (l : List Located) :
    (l.map (below s)).flatMap (lines depth) = l.flatMap (lines (depth + 1)) := by
  have hshift (y : Located) : lines depth (below s y) = lines (depth + 1) y := by
    have hdepth : depth + (y.1.length + 1) - 1 = depth + 1 + y.1.length - 1 := by omega
    simp only [lines, below, List.length_cons, hdepth]
  simp only [List.flatMap_map, hshift]

theorem flatMap_lines (l : List Located) : l.flatMap (lines 0) =
    (l.filter fun y => !y.2.2.isVacuous).map fun y => y.2.line (y.1.length - 1) := by
  induction l with
  | nil => rfl
  | cons y rest ih => cases hv : y.2.2.isVacuous <;> simp [lines, hv, ih]

end Located

mutual
theorem Element.dump_eq_located {k : Kind} (depth : Nat) : (e : Element k) →
    e.dump depth = e.located.flatMap (Located.lines (depth + 1))
  | .mk header parts => by
    have hbelow : (k.visitOrder parts.located).flatten.flatMap (Located.lines (depth + 1)) =
        (k.visitOrder (parts.dumps (depth + 1))).flatten := by
      rw [k.flatMap_flatten_visitOrder, parts.dumps_eq_located (depth + 1)]
    rw [Element.located, List.flatMap_cons, hbelow]
    cases hv : (Element.mk header parts).isVacuous with
    | true =>
      -- the dump is cut off here, and the parts had no lines of their own to lose
      have hparts : (parts.dumps (depth + 1)).flatten = [] :=
        parts.dumps_of_isVacuous (Bool.and_eq_true_iff.mp hv).2
      have hnone : (k.visitOrder (parts.dumps (depth + 1))).flatten = [] :=
        List.Perm.eq_nil (hparts ▸ (k.visitOrder_perm _).flatten)
      simp [Element.dump_eq_nil_iff.mpr hv, hnone, Located.lines, hv]
    | false =>
      have hkept : ¬ (header.isVacuous && parts.isVacuous) = true := by
        rw [Element.isVacuous] at hv
        simp [hv]
      simp only [Located.lines, hv, SomeElement.line_eq_dumpLine, Element.dump, if_neg hkept]
      rfl
theorem Parts.dumps_eq_located {layout : List Slot} (depth : Nat) : (p : Parts layout) →
    p.dumps depth = p.located.map fun l => l.flatMap (Located.lines depth)
  | .nil => rfl
  | .fixed c more | .present c more => by
    simp only [Parts.dumps, Parts.located, List.map_cons, Located.lines_below,
      c.dump_eq_located depth, more.dumps_eq_located depth]
  | .absent more | .contracts _ more => by
    simp only [Parts.dumps, Parts.located, List.map_cons, List.flatMap_nil,
      more.dumps_eq_located depth]
  | .keyed entries more => by
    simp only [Parts.dumps, Parts.located, List.map_cons, entries.dump_eq_located depth,
      more.dumps_eq_located depth]
theorem Entries.dump_eq_located {m : ChildMap} (depth : Nat) : (e : Entries m) →
    e.dump depth = e.located.flatMap (Located.lines depth)
  | .nil => rfl
  | .cons _ c more => by
    simp only [Entries.dump, Entries.located, List.flatMap_append, Located.lines_below,
      c.dump_eq_located depth, more.dump_eq_located depth]
end

-- ---------------------------------------------------------------------------
-- Scenes
-- ---------------------------------------------------------------------------

theorem Element.isVacuous_of_mem_attached {k : Kind} {e : Element k} {a : Annotation}
    (h : a ∈ e.attached) : e.isVacuous = false := by
  cases hv : e.isVacuous with
  | false => rfl
  | true =>
    have hgather : a ∈ e.gather := Element.mem_gather_iff.mpr (.inl h)
    simp [e.gather_of_isVacuous hv] at hgather

theorem SomeElement.line_of_mem_attached (depth : Nat) {x : SomeElement} {a : Annotation}
    (h : a ∈ x.2.attached) : ∃ before after, x.line depth = before ++ " " ++ a.render ++ after := by
  obtain ⟨front, back, hsplit⟩ := List.append_of_mem h
  refine ⟨String.join (List.replicate depth "  ") ++ x.2.description ++ ":" ++
    String.join (front.map fun a => " " ++ a.render),
    String.join (back.map fun a => " " ++ a.render) ++ "\n", ?_⟩
  simp [SomeElement.line, hsplit, String.append_assoc]

namespace Scene

/-- The lines of the elements that are not vacuous, in the order of the walk. The scene's own
elements are a step away and not set in. -/
def lines (s : Scene) : List String :=
  (s.located.filter fun y => !y.2.2.isVacuous).map fun y => y.2.line (y.1.length - 1)

theorem dump_eq_lines (s : Scene) : s.packages.dump 0 ++ s.classes.dump 0 = s.lines := by
  simp only [lines, located, ← Located.flatMap_lines, List.flatMap_append,
    Entries.dump_eq_located]

theorem lines_eq_nil_iff {s : Scene} : s.lines = [] ↔ s.isEmpty = true := by
  simp [← dump_eq_lines, Entries.dump_eq_nil_iff, isEmpty]

/-- No line is an empty text, so the lines have no text only if there are none. -/
theorem join_lines_eq_empty_iff {s : Scene} : String.join s.lines = "" ↔ s.isEmpty = true := by
  rw [← lines_eq_nil_iff]
  constructor
  · intro h
    cases hl : s.lines with
    | nil => rfl
    | cons first rest =>
      have hmem : first ∈ s.lines := hl ▸ List.mem_cons_self
      obtain ⟨y, -, rfl⟩ := List.mem_map.mp hmem
      simp [hl, SomeElement.line, String.append_eq_empty_iff] at h
  · intro h
    simp [h]

/-- After the imports, the text of a scene has one line for each element of the walk that is not
vacuous. Every annotation at an address is written in the line of its element, and there are no
lines just if the scene is empty. -/
theorem render_lists_walk (s : Scene) :
    s.render = String.join (s.imports.entries.map importLine) ++ String.join s.lines ∧
    s.located.map Prod.snd = s.walk ∧
    (∀ address x, s.find? address = some x → ∀ a ∈ x.2.attached,
      x.line (address.length - 1) ∈ s.lines ∧
      ∃ before after, x.line (address.length - 1) = before ++ " " ++ a.render ++ after) ∧
    (s.lines = [] ↔ s.isEmpty = true) ∧
    (s.render = String.join (s.imports.entries.map importLine) ↔ s.isEmpty = true) := by
  have hrender : s.render =
      String.join (s.imports.entries.map importLine) ++ String.join s.lines := by
    simp only [render, dump_eq_lines]
  refine ⟨hrender, s.walk_eq_located.symm, ?_, lines_eq_nil_iff, ?_⟩
  · intro address x hx a ha
    refine ⟨List.mem_map.mpr ⟨(address, x), ?_, rfl⟩, x.line_of_mem_attached _ ha⟩
    simp [mem_located_of_find? hx, Element.isVacuous_of_mem_attached ha]
  · rw [hrender, ← join_lines_eq_empty_iff, ← String.toList_inj, String.toList_append,
      List.append_right_eq_self, ← String.toList_inj]
    rfl

theorem render_lists_walk_parameter :
    let mark : Annotation := .marker (.ofName "org.example.NonNull" "test")
    let parameter := (Element.parameter 0).withAnnotations [mark]
    let method := (Element.method "bar(I)V").withParts
      ((Element.method "bar(I)V").parts.setSlot (.keyed .parameters) (.cons 0 parameter .nil))
    let owner := (Element.classType "Foo").withParts
      (((Element.classType "Foo").parts.setSlot (.keyed .fields)
        (.cons "unused" (.field "unused") .nil)).setSlot (.keyed .methods)
          (.cons "bar(I)V" method .nil))
    let s : Scene :=
      { classes := .cons "Foo" owner .nil
        imports := ⟨[("org.example.NonNull", ["org.example"])]⟩ }
    let address : Address :=
      [.keyed .classes "Foo", .keyed .methods "bar(I)V", .keyed .parameters 0]
    s.find? address = some ⟨.field, parameter⟩ ∧ s.walk.length = 10 ∧
      s.lines =
        ["class Foo:\n", "  method bar(I)V:\n", "    parameter 0: @org.example.NonNull\n"] ∧
      SomeElement.line 2 ⟨.field, parameter⟩ ∈ s.lines ∧
      s.render = "import org.example.NonNull from org.example\n" ++ String.join s.lines := by
  intro mark parameter method owner s address
  have hfound : s.find? address = some ⟨.field, parameter⟩ := rfl
  obtain ⟨hrender, -, hwritten, -⟩ := render_lists_walk s
  obtain ⟨hline, -⟩ := hwritten address ⟨.field, parameter⟩ hfound mark List.mem_cons_self
  exact ⟨hfound, by decide +kernel, by decide +kernel, hline, hrender⟩

end Scene

end AnnotationScene
