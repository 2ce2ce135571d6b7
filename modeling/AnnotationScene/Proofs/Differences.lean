import AnnotationScene.Proofs.Copies
import AnnotationScene.Proofs.Pruning
import AnnotationScene.Proofs.Slots

/-!
# Where a copy differs

The agenda of a scene lists what a check of its copies looks at, and in what order, without any
copy at hand: the keys of each map, the components of each element, the imports. The check of a
copy follows the agenda. It fails at the first point where the two scenes do not agree, and its
path spells out the address of that point, which leads to something in both of them.
-/

namespace AnnotationScene

-- ---------------------------------------------------------------------------
-- Points of comparison
-- ---------------------------------------------------------------------------

/-- What may differ between two elements of a kind, their children apart. -/
inductive Component : Kind → Type
  | annotations {k : Kind} : Component k
  | contracts {k : Kind} : Component k
  | child {k : Kind} (o : OptionalChild) : Component k
  | target : Component .cast
  | fieldName : Component .field
  | typeText : Component .field
  | signature : Component .method
  | returnText : Component .method
  | typeParameters : Component .method
  | className : Component .classType
  | enumConstants : Component .classType
  | marks : Component .classType

namespace Component

def aspect {k : Kind} : Component k → Aspect
  | .annotations => .annotationSets
  | .contracts => .annotationSets
  | .child o => o.aspect
  | .target => .targets
  | .fieldName => .fieldNames
  | .typeText => .typeTexts
  | .signature => .signatures
  | .returnText => .returnTexts
  | .typeParameters => .typeParameters
  | .className => .classNames
  | .enumConstants => .enumConstants
  | .marks => .classKinds

def agrees {k : Kind} : Component k → Element k → Element k → Bool
  | .annotations, x, y => AnnotationSet.same x.annotations y.annotations
  | .contracts, x, y => AnnotationSet.same x.contracts y.contracts
  | .child o, x, y =>
    (x.parts.child? (.optional o)).isSome == (y.parts.child? (.optional o)).isSome
  | .target, x, y => x.detail.target == y.detail.target
  | .fieldName, x, y => x.detail.name == y.detail.name
  | .typeText, x, y => x.detail.typeText == y.detail.typeText
  | .signature, x, y => x.detail.signature == y.detail.signature
  | .returnText, x, y => x.detail.returnText == y.detail.returnText
  | .typeParameters, x, y => x.detail.typeParameters == y.detail.typeParameters
  | .className, x, y => x.detail.name == y.detail.name
  | .enumConstants, x, y => x.detail.enumConstants == y.detail.enumConstants
  | .marks, x, y => x.detail.marks == y.detail.marks

def own : (k : Kind) → List (Component k)
  | .plain | .type | .declaration | .expression | .block => [.annotations]
  | .cast => [.target, .annotations]
  | .field => [.fieldName, .typeText, .annotations]
  | .method => [.signature, .returnText, .typeParameters, .annotations]
  | .classType => [.className, .enumConstants, .marks, .annotations]

end Component

inductive Point
  | keys (address : Address) (m : ChildMap)
  | component (address : Address) {k : Kind} (c : Component k)
  | imports

def Step.segments : Step → List String
  | .fixed f => [f.label]
  | .optional o => [o.label]
  | .keyed m key => [m.label, m.renderKey key]

def Address.segments (a : Address) : List String := a.flatMap Step.segments

/-- Both scenes have an element at the address, and the two are of one kind. -/
structure Scene.Meets (s t : Scene) (a : Address) {k : Kind} (x y : Element k) : Prop where
  left : s.find? a = some ⟨k, x⟩
  right : t.find? a = some ⟨k, y⟩

namespace Point

def segments : Point → List String
  | .keys address m => address.segments ++ [m.label]
  | .component address _ => address.segments
  | .imports => []

def aspect : Point → Aspect
  | .keys _ _ => .mapKeys
  | .component _ c => c.aspect
  | .imports => .importTables

/-- The point is found in both scenes, and they agree there or not, as is said. -/
def Resolves (s t : Scene) (agree : Bool) : Point → Prop
  | .keys address m => ∃ e f, s.map? m address = some e ∧ t.map? m address = some f ∧
      (agree = true ↔ ∀ key, key ∈ e.keys ↔ key ∈ f.keys)
  | .component (k := k) address c =>
    ∃ x y : Element k, s.Meets t address x y ∧ c.agrees x y = agree
  | .imports => agree = true ↔ ∀ name, s.imports.get? name = t.imports.get? name

end Point

mutual
/-- What is compared at an element that stands at an address, and below it. -/
def Element.agenda {k : Kind} (a : Address) : Element k → List Point
  | .mk _ parts => (Component.own k).map (.component a) ++ parts.agenda k a
def Parts.agenda {layout : List Slot} (k : Kind) (a : Address) : Parts layout → List Point
  | .nil => []
  | .fixed (f := f) child more => child.agenda (a ++ [.fixed f]) ++ more.agenda k a
  | .absent (o := o) more => .component a (.child (k := k) o) :: more.agenda k a
  | .present (o := o) child more =>
    .component a (.child (k := k) o) :: child.agenda (a ++ [.optional o]) ++ more.agenda k a
  | .keyed (m := m) entries more => .keys a m :: entries.agenda a ++ more.agenda k a
  | .contracts _ more => .component a (.contracts (k := k)) :: more.agenda k a
def Entries.agenda {m : ChildMap} (a : Address) : Entries m → List Point
  | .nil => []
  | .cons key child more => child.agenda (a ++ [.keyed m key]) ++ more.agenda a
end

def Scene.agenda (s : Scene) : List Point :=
  .keys [] .packages :: s.packages.agenda [] ++ .keys [] .classes :: s.classes.agenda [] ++
    [.imports]

-- ---------------------------------------------------------------------------
-- Following an agenda
-- ---------------------------------------------------------------------------

/-- The comparison is the one for the point, and it is right about it. -/
structure Point.Judged (s t : Scene) (p : Point) (c : Comparison) : Prop where
  path : c.path = p.segments
  aspect : c.aspect = p.aspect
  resolves : p.Resolves s t c.agrees

/-- Comparisons follow points as long as they agree. After the first that fails there is nothing to
say, since the scenes need no longer have the same shape. -/
def Follows (s t : Scene) : List Point → List Comparison → Prop
  | [], [] => True
  | p :: ps, c :: cs => p.Judged s t c ∧ (c.agrees = true → Follows s t ps cs)
  | _, _ => False

open Comparison (AllAgree allAgree_nil allAgree_cons)

namespace Follows

variable {s t : Scene} {ps ps' : List Point} {cs cs' : List Comparison}

theorem append (h : Follows s t ps cs) (h' : AllAgree cs → Follows s t ps' cs') :
    Follows s t (ps ++ ps') (cs ++ cs') := by
  induction ps generalizing cs with
  | nil =>
    cases cs with
    | nil => exact h' allAgree_nil
    | cons c cs => exact h.elim
  | cons p ps ih =>
    cases cs with
    | nil => exact h.elim
    | cons c cs =>
      obtain ⟨hjudged, hrest⟩ := h
      refine ⟨hjudged, fun hc => ih (hrest hc) fun hall => ?_⟩
      exact h' (allAgree_cons.mpr ⟨hc, hall⟩)

/-- The first comparison that fails belongs to a point at which the scenes differ, and they agree at
every point before it. -/
theorem exists_of_firstFault (h : Follows s t ps cs) {e : CopyError}
    (he : Comparison.firstFault cs = .error e) :
    ∃ before point after, ps = before ++ point :: after ∧
      (∀ p ∈ before, p.Resolves s t true) ∧ point.Resolves s t false ∧
      e.path = point.segments ∧ e.fault = .differ point.aspect := by
  induction ps generalizing cs with
  | nil =>
    cases cs with
    | nil => cases he
    | cons _ _ => exact h.elim
  | cons p ps ih =>
    cases cs with
    | nil => cases he
    | cons c cs =>
      obtain ⟨⟨hpath, haspect, hresolves⟩, hrest⟩ := h
      rw [Comparison.firstFault] at he
      cases hc : c.agrees with
      | false =>
        rw [hc] at he hresolves
        obtain rfl : ⟨c.path, .differ c.aspect⟩ = e := by simpa using he
        exact ⟨[], p, ps, rfl, by simp, hresolves, hpath, by rw [haspect]⟩
      | true =>
        rw [hc] at he hresolves
        obtain ⟨before, point, after, rfl, hbefore, hpoint⟩ := ih (hrest hc) (by simpa using he)
        exact ⟨p :: before, point, after, rfl, by simpa using ⟨hresolves, hbefore⟩, hpoint⟩

end Follows

-- ---------------------------------------------------------------------------
-- Addresses in both scenes
-- ---------------------------------------------------------------------------

@[simp]
theorem Address.segments_concat (a : Address) (step : Step) :
    Address.segments (a ++ [step]) = a.segments ++ step.segments := by
  simp [Address.segments]

namespace Scene

variable {s t : Scene} {a : Address} {k : Kind} {x y : Element k}

theorem find?_concat (h : s.find? a = some ⟨k, x⟩) {step : Step} {c : Element step.kind}
    (hc : x.parts.child? step = some c) : s.find? (a ++ [step]) = some ⟨step.kind, c⟩ := by
  cases a with
  | nil => cases h
  | cons first rest =>
    obtain ⟨child, hchild, h⟩ := find?_cons.mp h
    refine find?_cons.mpr ⟨child, hchild, (child.find?_append rest).trans ?_⟩
    rw [h]
    exact Element.find?_cons.mpr ⟨c, hc, rfl⟩

theorem map?_of_find? (h : s.find? a = some ⟨k, x⟩) (m : ChildMap) :
    s.map? m a = x.parts.slot? (.keyed m) := by
  cases a with
  | nil => cases h
  | cons first rest =>
    rw [map?, h]
    · rfl
    · simp

/-- A map at an address is one of the scene itself or one of an element there. -/
theorem map?_cases {m : ChildMap} {e : Entries m} (h : s.map? m a = some e) :
    a = [] ∧ s.parts.slot? (.keyed m) = some e ∨
      ∃ k, ∃ x : Element k, s.find? a = some ⟨k, x⟩ ∧ x.parts.slot? (.keyed m) = some e := by
  cases a with
  | nil => exact .inl ⟨rfl, h⟩
  | cons first rest =>
    obtain ⟨⟨k, x⟩, hx, hslot⟩ := Option.bind_eq_some_iff.mp h
    exact .inr ⟨k, x, hx, hslot⟩

theorem find?_of_map? {m : ChildMap} {e : Entries m} (h : s.map? m a = some e) {key : m.Key}
    {c : Element m.kind} (hc : e.get? key = some c) :
    s.find? (a ++ [.keyed m key]) = some ⟨m.kind, c⟩ := by
  rcases map?_cases h with ⟨rfl, hslot⟩ | ⟨k, x, hx, hslot⟩
  · have hchild := (Parts.child?_of_slot? (s := .keyed m key) hslot).trans hc
    exact find?_cons.mpr ⟨c, Parts.owns_of_child? _ hchild, rfl⟩
  · exact find?_concat hx ((Parts.child?_of_slot? (s := .keyed m key) hslot).trans hc)

theorem WellFormed.map? (hw : s.WellFormed) {m : ChildMap} {e : Entries m}
    (h : s.map? m a = some e) : e.WellFormed := by
  rcases map?_cases h with ⟨rfl, hslot⟩ | ⟨k, x, hx, hslot⟩
  · exact hw.parts.slot? layout_nodup hslot
  · cases a with
    | nil => cases hx
    | cons first rest =>
      obtain ⟨child, hchild, hx⟩ := find?_cons.mp hx
      exact ((hchild.wellFormed hw.parts).find? hx).parts.slot? k.layout_nodup hslot

theorem Meets.child (h : s.Meets t a x y) {step : Step} {c d : Element step.kind}
    (hc : x.parts.child? step = some c) (hd : y.parts.child? step = some d) :
    s.Meets t (a ++ [step]) c d :=
  ⟨find?_concat h.left hc, find?_concat h.right hd⟩

end Scene

/-- The parts that are left of an element when some of them have been dealt with. -/
structure Parts.RestOf {layout whole : List Slot} (p : Parts layout) (q : Parts whole) : Prop where
  nodup : layout.Nodup
  slot? : ∀ slot ∈ layout, q.slot? slot = p.slot? slot

namespace Parts.RestOf

variable {rest whole : List Slot} {slot : Slot} {p : Parts (slot :: rest)} {q : Parts whole}

theorem refl {q : Parts whole} (hl : whole.Nodup) : q.RestOf q := ⟨hl, fun _ _ => rfl⟩

theorem head (h : p.RestOf q) : q.slot? slot = some p.head := by
  rw [h.slot? slot (.head _), slot?_head]

theorem tail (h : p.RestOf q) : p.tail.RestOf q := by
  obtain ⟨hslot, hrest⟩ := List.nodup_cons.mp h.nodup
  refine ⟨hrest, fun other hother => ?_⟩
  have hne : slot ≠ other := fun heq => hslot (heq ▸ hother)
  rw [h.slot? other (.tail _ hother), slot?_tail hne]

end Parts.RestOf

-- ---------------------------------------------------------------------------
-- The check follows the agenda
-- ---------------------------------------------------------------------------

theorem Entries.sameKeys_iff {m : ChildMap} {e f : Entries m} (he : e.WellFormed)
    (hf : f.WellFormed) :
    e.toMap.sameKeys f.toMap = true ↔ ∀ key, key ∈ e.keys ↔ key ∈ f.keys := by
  have hn := Entries.keys_nodup he
  have hn' := Entries.keys_nodup hf
  rw [OrderedMap.sameKeys_iff, ← OrderedMap.length_keys, ← OrderedMap.length_keys]
  constructor
  · rintro ⟨hsize, hsubset⟩
    have hperm := (List.subperm_of_subset hn hsubset).perm_of_length_le (Nat.le_of_eq hsize.symm)
    exact fun key => hperm.mem_iff
  · intro h
    have hperm := (List.perm_ext_iff_of_nodup hn hn').mpr h
    exact ⟨hperm.length_eq, hperm.subset⟩

theorem Component.agrees_child {k : Kind} {x y : Element k} {o : OptionalChild} {rest : List Slot}
    {p q : Parts (.optional o :: rest)} (hp : p.RestOf x.parts) (hq : q.RestOf y.parts) :
    (Component.child o).agrees x y = (Option.isSome p.head == Option.isSome q.head) := by
  rw [agrees, Parts.child?_of_slot? (s := .optional o) hp.head,
    Parts.child?_of_slot? (s := .optional o) hq.head]
  rfl

theorem Component.agrees_contracts {k : Kind} {x y : Element k} {rest : List Slot}
    {p q : Parts (.contracts :: rest)} (hp : p.RestOf x.parts) (hq : q.RestOf y.parts) :
    (Component.contracts).agrees x y = AnnotationSet.same p.head q.head := by
  rw [agrees, Element.contracts, Element.contracts, Parts.contractSet_of_slot? hp.head,
    Parts.contractSet_of_slot? hq.head]

namespace Follows

variable {s t : Scene} {a : Address} {k : Kind} {x y : Element k} {ps : List Point}
  {cs : List Comparison}

theorem component (h : s.Meets t a x y) (c : Component k) {agree : Bool}
    (hc : c.agrees x y = agree) (hrest : agree = true → Follows s t ps cs) :
    Follows s t (.component a c :: ps) (⟨a.segments, c.aspect, agree⟩ :: cs) :=
  ⟨⟨rfl, rfl, x, y, h, hc⟩, hrest⟩

theorem components (h : s.Meets t a x y) (l : List (Component k)) :
    Follows s t (l.map (.component a)) (l.map fun c => ⟨a.segments, c.aspect, c.agrees x y⟩) := by
  induction l with
  | nil => trivial
  | cons c rest ih => exact component h c rfl fun _ => ih

theorem header (h : s.Meets t a x y) : Follows s t ((Component.own k).map (.component a))
    (x.header.comparisons a.segments y.header) := by
  have hown : x.header.comparisons a.segments y.header =
      (Component.own k).map fun c => ⟨a.segments, c.aspect, c.agrees x y⟩ := by
    cases k <;> rfl
  rw [hown]
  exact components h (Component.own k)

theorem keyed (hs : s.WellFormed) (ht : t.WellFormed) {m : ChildMap} {e f : Entries m}
    (he : s.map? m a = some e) (hf : t.map? m a = some f)
    (hrest : e.keys ⊆ f.keys → Follows s t ps cs) : Follows s t (.keys a m :: ps)
      (⟨a.segments ++ [m.label], .mapKeys, e.toMap.sameKeys f.toMap⟩ :: cs) := by
  have hkeys := Entries.sameKeys_iff (hs.map? he) (ht.map? hf)
  refine ⟨⟨rfl, rfl, e, f, he, hf, hkeys⟩, fun hagree => hrest fun key => ?_⟩
  exact (hkeys.mp hagree key).mp

end Follows

mutual
theorem Element.follows {s t : Scene} (hs : s.WellFormed) (ht : t.WellFormed) {k : Kind}
    {a : Address} : (e : Element k) → {f : Element k} → {path : List String} →
    s.Meets t a e f → path = a.segments → Follows s t (e.agenda a) (e.comparisons path f)
  | .mk header parts, .mk header' parts', _, h, rfl => by
    rw [Element.agenda, Element.comparisons]
    refine (Follows.header h).append fun _ => ?_
    exact parts.follows hs ht h (.refl k.layout_nodup) (.refl k.layout_nodup)
termination_by structural e => e
theorem Parts.follows {s t : Scene} (hs : s.WellFormed) (ht : t.WellFormed) {k : Kind}
    {a : Address} {x y : Element k} (h : s.Meets t a x y) : {layout : List Slot} →
    (p : Parts layout) → {q : Parts layout} → p.RestOf x.parts → q.RestOf y.parts →
    Follows s t (p.agenda k a) (p.comparisons a.segments q)
  | _, .nil, .nil, _, _ => trivial
  | _, .fixed (f := f) c more, .fixed c' more', hp, hq => by
    have hchild : s.Meets t (a ++ [.fixed f]) c c' :=
      h.child (Parts.child?_of_slot? hp.head) (Parts.child?_of_slot? hq.head)
    rw [Parts.agenda, Parts.comparisons]
    refine (c.follows hs ht hchild (by simp [Step.segments])).append fun _ => ?_
    exact more.follows hs ht h hp.tail hq.tail
  | _, .absent (o := o) more, .absent more', hp, hq => by
    rw [Parts.agenda, Parts.comparisons]
    refine Follows.component h (.child o) (Component.agrees_child hp hq) fun _ => ?_
    exact more.follows hs ht h hp.tail hq.tail
  -- the rest of the agenda is about a child that only one of the two has
  | _, .absent (o := o) more, .present c' more', hp, hq => by
    rw [Parts.agenda, Parts.comparisons]
    exact Follows.component h (.child o) (Component.agrees_child hp hq) (by simp)
  | _, .present (o := o) c more, .absent more', hp, hq => by
    rw [Parts.agenda, Parts.comparisons]
    exact Follows.component h (.child o) (Component.agrees_child hp hq) (by simp)
  | _, .present (o := o) c more, .present c' more', hp, hq => by
    have hchild : s.Meets t (a ++ [.optional o]) c c' :=
      h.child (Parts.child?_of_slot? hp.head) (Parts.child?_of_slot? hq.head)
    rw [Parts.agenda, Parts.comparisons]
    refine Follows.component h (.child o) (Component.agrees_child hp hq) fun _ => ?_
    refine (c.follows hs ht hchild (by simp [Step.segments])).append fun _ => ?_
    exact more.follows hs ht h hp.tail hq.tail
  | _, .keyed (m := m) e more, .keyed e' more', hp, hq => by
    have he : s.map? m a = some e := (Scene.map?_of_find? h.left m).trans hp.head
    have he' : t.map? m a = some e' := (Scene.map?_of_find? h.right m).trans hq.head
    rw [Parts.agenda, Parts.comparisons]
    refine (Follows.keyed hs ht he he' fun hkeys => ?_).append fun _ =>
      more.follows hs ht h hp.tail hq.tail
    exact e.follows hs ht (hs.map? he) hkeys (fun _ _ => Scene.find?_of_map? he)
      fun _ _ => Scene.find?_of_map? he'
  | _, .contracts set more, .contracts set' more', hp, hq => by
    rw [Parts.agenda, Parts.comparisons]
    refine Follows.component h .contracts (Component.agrees_contracts hp hq) fun _ => ?_
    exact more.follows hs ht h hp.tail hq.tail
termination_by structural _ p => p
theorem Entries.follows {s t : Scene} (hs : s.WellFormed) (ht : t.WellFormed) {m : ChildMap}
    {a : Address} : (e : Entries m) → {f : Entries m} → e.WellFormed → e.keys ⊆ f.keys →
    (∀ key c, e.get? key = some c → s.find? (a ++ [.keyed m key]) = some ⟨m.kind, c⟩) →
    (∀ key d, f.get? key = some d → t.find? (a ++ [.keyed m key]) = some ⟨m.kind, d⟩) →
    Follows s t (e.agenda a) (e.comparisons (a.segments ++ [m.label]) f)
  | .nil, _, _, _, _, _ => trivial
  | .cons key c more, f, hw, hkeys, he, hf => by
    obtain ⟨d, hd⟩ := Entries.mem_keys_iff.mp (hkeys (.head _))
    have hchild : s.Meets t (a ++ [.keyed m key]) c d :=
      ⟨he key c (by rw [Entries.get?_cons, if_pos rfl]), hf key d hd⟩
    rw [Entries.agenda, Entries.comparisons, hd]
    refine (c.follows hs ht hchild (by simp [Step.segments])).append fun _ => ?_
    refine more.follows hs ht hw.2.2 (fun _ hk => hkeys (.tail _ hk)) (fun other c' hc' => ?_) hf
    have hne : key ≠ other := fun heq => hw.1 (heq ▸ Entries.mem_keys_of_get? hc')
    exact he other c' (by rw [Entries.get?_cons, if_neg hne, hc'])
termination_by structural e => e
end

namespace Scene

variable {s t : Scene}

theorem follows_map (hs : s.WellFormed) (ht : t.WellFormed) {m : ChildMap} {e f : Entries m}
    (he : s.map? m [] = some e) (hf : t.map? m [] = some f) :
    Follows s t (.keys [] m :: e.agenda []) (⟨[m.label], .mapKeys, e.toMap.sameKeys f.toMap⟩ ::
      e.comparisons [m.label] f) :=
  Follows.keyed hs ht he hf fun hkeys => e.follows hs ht (hs.map? he) hkeys
    (fun _ _ => find?_of_map? he) fun _ _ => find?_of_map? hf

theorem follows_agenda (hs : s.Proper) (ht : t.Proper) :
    Follows s t s.agenda (s.comparisons t) := by
  have hlist : s.comparisons t =
      (⟨["packages"], .mapKeys, s.packages.toMap.sameKeys t.packages.toMap⟩ ::
        s.packages.comparisons ["packages"] t.packages) ++
      (⟨["classes"], .mapKeys, s.classes.toMap.sameKeys t.classes.toMap⟩ ::
        s.classes.comparisons ["classes"] t.classes) ++
      [⟨[], .importTables, s.sameImports t⟩] := by
    simp [comparisons, parts, Parts.comparisons, ChildMap.label]
  rw [hlist, agenda]
  have hpackages := follows_map hs.wellFormed ht.wellFormed (m := .packages) rfl rfl
  have hclasses := follows_map hs.wellFormed ht.wellFormed (m := .classes) rfl rfl
  refine (hpackages.append fun _ => hclasses).append fun _ => ?_
  have himports : s.sameImports t = true ↔ ∀ name, s.imports.get? name = t.imports.get? name :=
    OrderedMap.same_beq_iff hs.imports ht.imports
  exact ⟨⟨rfl, rfl, himports⟩, fun _ => trivial⟩

end Scene

theorem Point.segments_eq_nil_iff {s t : Scene} {agree : Bool} {p : Point}
    (h : p.Resolves s t agree) : p.segments = [] ↔ p = .imports := by
  cases p with
  | keys a m => simp [segments]
  | imports => simp [segments]
  | component a c =>
    obtain ⟨x, y, hmeets, -⟩ := h
    -- a scene is no element, so the address has a first step, which has a segment
    cases a with
    | nil => cases hmeets.left
    | cons first rest => cases first <;> simp [segments, Address.segments, Step.segments]

namespace Workspace

variable {w : Workspace} {name copy : String}

/-- Where the check of a copy fails, the two scenes really differ: the path of the error spells the
address of a point that both have, and the fault names what differs there. It is never that
something is shared or of another kind. The scenes agree at every point that the agenda has before
it. Only the imports have no segments, and the stack of the checker is empty again. -/
theorem checkCopy_error_locates (hne : name ≠ copy) (hs : (w.get name).Proper)
    (ht : (w.get copy).Proper) {e : CopyError} (h : w.checkCopy name copy = .error e) :
    (∃ before point after, (w.get name).agenda = before ++ point :: after ∧
      (∀ p ∈ before, p.Resolves (w.get name) (w.get copy) true) ∧
      point.Resolves (w.get name) (w.get copy) false ∧
      e.fault = .differ point.aspect ∧ e.path = point.segments ∧
      e.place = "/".intercalate point.segments ∧ (e.path = [] ↔ point = .imports)) ∧
    (∀ what, e.fault ≠ .shared what) ∧ (∀ left right, e.fault ≠ .kindMismatch left right) ∧
    (w.get name).copyCheck (.stored name) (.stored copy) (w.get copy) [] = (.error e, []) := by
  have howner : Owner.stored name ≠ .stored copy := by simpa using hne
  have hreport := Scene.copyCheck_reports howner (w.get name) (w.get copy)
  rw [checkCopy, Scene.checkCopy_eq howner] at h
  cases hfault : Comparison.firstFault ((w.get name).comparisons (w.get copy)) with
  | ok u =>
    rw [hfault] at h
    cases h
  | error e' =>
    rw [hfault] at h
    obtain rfl : e' = e := Except.error.inj h
    obtain ⟨before, point, after, hagenda, hbefore, hpoint, hpath, haspect⟩ :=
      (Scene.follows_agenda hs ht).exists_of_firstFault hfault
    refine ⟨⟨before, point, after, hagenda, hbefore, hpoint, haspect, hpath, ?_, ?_⟩, ?_, ?_, ?_⟩
    · rw [CopyError.place, hpath]
    · rw [hpath]
      exact Point.segments_eq_nil_iff hpoint
    · simp [haspect]
    · simp [haspect]
    · rw [hreport, hfault]

/-- Two scenes that differ in the type of a field, after a class with fields of its own. -/
theorem checkCopy_error_locates_later_class :
    let owner (name : String) (fields : Entries .fields) := (Element.classType name).withParts
      ((Element.classType name).parts.setSlot (.keyed .fields) fields)
    let typed (text : String) :=
      (Element.field "g").withDetail { name := "g", typeText := some text }
    let scene (text : String) : Scene :=
      { classes := .cons "C" (owner "C" (.cons "f" (.field "f") .nil))
          (.cons "D" (owner "D" (.cons "g" (typed text) .nil)) .nil) }
    let w : Workspace := ⟨⟨[("s", scene "int"), ("t", scene "long")]⟩⟩
    let e : CopyError := ⟨["classes", "D", "field", "g"], .differ .typeTexts⟩
    (w.get "s").Proper ∧ (w.get "t").Proper ∧ w.checkCopy "s" "t" = .error e ∧
      ∃ before point after, (w.get "s").agenda = before ++ point :: after ∧
        (∀ p ∈ before, p.Resolves (w.get "s") (w.get "t") true) ∧
        point.Resolves (w.get "s") (w.get "t") false ∧ point.aspect = .typeTexts ∧
        "classes/D/field/g" = "/".intercalate point.segments := by
  intro owner typed scene w e
  have hs : (w.get "s").Proper := ⟨by decide, by decide⟩
  have ht : (w.get "t").Proper := ⟨by decide, by decide⟩
  have he : w.checkCopy "s" "t" = .error e := by rfl
  obtain ⟨⟨before, point, after, hagenda, hbefore, hpoint, hfault, -, hplace, -⟩, -⟩ :=
    @checkCopy_error_locates w "s" "t" (by decide) hs ht e he
  have haspect : point.aspect = .typeTexts := (CopyFault.differ.inj hfault).symm
  exact ⟨hs, ht, he, before, point, after, hagenda, hbefore, hpoint, haspect,
    (show e.place = _ by decide +kernel).symm.trans hplace⟩

end Workspace

end AnnotationScene
