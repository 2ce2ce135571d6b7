import AnnotationScene.Proofs.Checking
import AnnotationScene.Proofs.SameScenes

/-!
# What a checked copy agrees in

Sameness leaves out what is learned late: the texts of types, the type parameters of methods, the
constants and kinds of classes. The check of a copy goes over both scenes once more and looks at
all of it. It passes exactly if the scenes are the same, every name is imported alike, and what
was learned agrees at every address.
-/

namespace AnnotationScene

-- ---------------------------------------------------------------------------
-- What was learned
-- ---------------------------------------------------------------------------

/-- Agreement in what sameness leaves out of the detail, the id of an expression apart. -/
def Detail.LearnedSame : (k : Kind) → Detail k → Detail k → Prop
  | .field, d, e => d.typeText = e.typeText
  | .method, d, e => d.returnText = e.returnText ∧ d.typeParameters = e.typeParameters
  | .classType, d, e => d.enumConstants = e.enumConstants ∧ d.marks = e.marks
  | .plain, _, _ | .type, _, _ | .cast, _, _ | .declaration, _, _ | .expression, _, _
  | .block, _, _ => True

theorem Detail.LearnedSame.refl (k : Kind) (d : Detail k) : Detail.LearnedSame k d d := by
  cases k <;> simp [Detail.LearnedSame]

theorem Detail.LearnedSame.symm (k : Kind) {d e : Detail k} (h : Detail.LearnedSame k d e) :
    Detail.LearnedSame k e d := by
  cases k <;> simp_all [Detail.LearnedSame]

/-- Elements at one address have learned the same, as far as both have an element there. -/
def Element.LearnedSame {k : Kind} (e f : Element k) : Prop :=
  ∀ address kind (x y : Element kind), e.find? address = some ⟨kind, x⟩ →
    f.find? address = some ⟨kind, y⟩ → Detail.LearnedSame kind x.detail y.detail

def Parts.LearnedSame {layout : List Slot} (p q : Parts layout) : Prop :=
  ∀ (s : Step) (c c' : Element s.kind), p.Owns s c → q.Owns s c' → c.LearnedSame c'

def Entries.LearnedSame {m : ChildMap} (e f : Entries m) : Prop :=
  ∀ key c c', e.get? key = some c → f.get? key = some c' → c.LearnedSame c'

def Scene.LearnedSame (s t : Scene) : Prop :=
  ∀ address kind (x y : Element kind), s.find? address = some ⟨kind, x⟩ →
    t.find? address = some ⟨kind, y⟩ → Detail.LearnedSame kind x.detail y.detail

theorem Element.learnedSame_iff {k : Kind} {e f : Element k} :
    e.LearnedSame f ↔ Detail.LearnedSame k e.detail f.detail ∧ e.parts.LearnedSame f.parts := by
  constructor
  · intro h
    refine ⟨h [] k e f rfl rfl, fun s c c' hc hc' address kind x y hx hy => ?_⟩
    exact h (s :: address) kind x y
      (Element.find?_cons.mpr ⟨c, Parts.child?_of_owns k.layout_nodup hc, hx⟩)
      (Element.find?_cons.mpr ⟨c', Parts.child?_of_owns k.layout_nodup hc', hy⟩)
  · rintro ⟨hdetail, hparts⟩ (_ | ⟨s, address⟩) kind x y hx hy
    · obtain ⟨rfl, hx⟩ := Sigma.mk.inj (Option.some.inj hx)
      obtain ⟨-, hy⟩ := Sigma.mk.inj (Option.some.inj hy)
      obtain rfl := eq_of_heq hx
      obtain rfl := eq_of_heq hy
      exact hdetail
    · obtain ⟨c, hc, hx⟩ := Element.find?_cons.mp hx
      obtain ⟨c', hc', hy⟩ := Element.find?_cons.mp hy
      exact hparts s c c' (e.parts.owns_of_child? hc) (f.parts.owns_of_child? hc') address kind
        x y hx hy

theorem Scene.learnedSame_iff {s t : Scene} :
    s.LearnedSame t ↔ s.parts.LearnedSame t.parts := by
  constructor
  · intro h first c c' hc hc' rest kind x y hx hy
    exact h (first :: rest) kind x y (Scene.find?_cons.mpr ⟨c, hc, hx⟩)
      (Scene.find?_cons.mpr ⟨c', hc', hy⟩)
  · rintro h (_ | ⟨first, rest⟩) kind x y hx hy
    · nomatch hx
    obtain ⟨c, hc, hx⟩ := Scene.find?_cons.mp hx
    obtain ⟨c', hc', hy⟩ := Scene.find?_cons.mp hy
    exact h first c c' hc hc' rest kind x y hx hy

theorem Scene.LearnedSame.refl (s : Scene) : s.LearnedSame s := by
  intro address kind x y hx hy
  obtain ⟨-, h⟩ := Sigma.mk.inj (Option.some.inj (hx.symm.trans hy))
  obtain rfl := eq_of_heq h
  exact Detail.LearnedSame.refl kind x.detail

theorem Scene.LearnedSame.symm {s t : Scene} (h : s.LearnedSame t) : t.LearnedSame s := by
  intro address kind x y hx hy
  exact Detail.LearnedSame.symm kind (h address kind y x hy hx)

theorem Entries.learnedSame_nil {m : ChildMap} (f : Entries m) : Entries.nil.LearnedSame f :=
  fun _ _ _ h => nomatch h

theorem Entries.learnedSame_cons {m : ChildMap} {key : m.Key} {c : Element m.kind}
    {more f : Entries m} (hkey : key ∉ more.keys) : (Entries.cons key c more).LearnedSame f ↔
      (∀ c', f.get? key = some c' → c.LearnedSame c') ∧ more.LearnedSame f := by
  simp only [Entries.LearnedSame, Entries.get?_cons]
  constructor
  · intro h
    refine ⟨fun c' hc' => h key c c' (if_pos rfl) hc', fun k d d' hd hd' => h k d d' ?_ hd'⟩
    have hne : key ≠ k := fun he => hkey (he ▸ Entries.mem_keys_of_get? hd)
    rw [if_neg hne]
    exact hd
  · rintro ⟨hc, hmore⟩ k d d' hd hd'
    split at hd
    next he =>
      obtain rfl := Option.some.inj hd
      exact hc d' (he ▸ hd')
    next => exact hmore k d d' hd hd'

-- A slot stands once in a layout: two children at one step are both at the head or both behind it.
namespace Parts

variable {rest : List Slot} {more more' : Parts rest}

theorem learnedSame_fixed {f : FixedChild} (hf : .fixed f ∉ rest) {c c' : Element f.kind} :
    LearnedSame (.fixed c more) (.fixed c' more') ↔
      c.LearnedSame c' ∧ more.LearnedSame more' := by
  constructor
  · intro h
    exact ⟨h (.fixed f) c c' (.fixed c more) (.fixed c' more'),
      fun s d d' hd hd' => h s d d' (.afterFixed c hd) (.afterFixed c' hd')⟩
  · rintro ⟨hc, hmore⟩ s d d' hd hd'
    cases hd with
    | fixed =>
      cases hd' with
      | fixed => exact hc
      | afterFixed _ hd' => exact absurd hd'.slot_mem hf
    | afterFixed _ hd =>
      cases hd' with
      | fixed => exact absurd hd.slot_mem hf
      | afterFixed _ hd' => exact hmore s d d' hd hd'

theorem learnedSame_present {o : OptionalChild} (ho : .optional o ∉ rest)
    {c c' : Element o.kind} : LearnedSame (.present c more) (.present c' more') ↔
      c.LearnedSame c' ∧ more.LearnedSame more' := by
  constructor
  · intro h
    exact ⟨h (.optional o) c c' (.present c more) (.present c' more'),
      fun s d d' hd hd' => h s d d' (.afterPresent c hd) (.afterPresent c' hd')⟩
  · rintro ⟨hc, hmore⟩ s d d' hd hd'
    cases hd with
    | present =>
      cases hd' with
      | present => exact hc
      | afterPresent _ hd' => exact absurd hd'.slot_mem ho
    | afterPresent _ hd =>
      cases hd' with
      | present => exact absurd hd.slot_mem ho
      | afterPresent _ hd' => exact hmore s d d' hd hd'

theorem learnedSame_keyed {m : ChildMap} (hm : .keyed m ∉ rest) {e e' : Entries m} :
    LearnedSame (.keyed e more) (.keyed e' more') ↔
      e.LearnedSame e' ∧ more.LearnedSame more' := by
  constructor
  · intro h
    exact ⟨fun key c c' hc hc' => h (.keyed m key) c c' (.keyed more hc) (.keyed more' hc'),
      fun s d d' hd hd' => h s d d' (.afterKeyed e hd) (.afterKeyed e' hd')⟩
  · rintro ⟨he, hmore⟩ s d d' hd hd'
    cases hd with
    | keyed _ hc =>
      cases hd' with
      | keyed _ hc' => exact he _ _ _ hc hc'
      | afterKeyed _ hd' => exact absurd hd'.slot_mem hm
    | afterKeyed _ hd =>
      cases hd' with
      | keyed => exact absurd hd.slot_mem hm
      | afterKeyed _ hd' => exact hmore s d d' hd hd'

theorem learnedSame_absent {o : OptionalChild} :
    LearnedSame (.absent (o := o) more) (.absent more') ↔ more.LearnedSame more' := by
  constructor
  · intro h s d d' hd hd'
    exact h s d d' (.afterAbsent hd) (.afterAbsent hd')
  · intro h s d d' hd hd'
    cases hd with
    | afterAbsent hd =>
      cases hd' with
      | afterAbsent hd' => exact h s d d' hd hd'

theorem learnedSame_contracts {set set' : AnnotationSet} :
    LearnedSame (.contracts set more) (.contracts set' more') ↔ more.LearnedSame more' := by
  constructor
  · intro h s d d' hd hd'
    exact h s d d' (.afterContracts set hd) (.afterContracts set' hd')
  · intro h s d d' hd hd'
    cases hd with
    | afterContracts _ hd =>
      cases hd' with
      | afterContracts _ hd' => exact h s d d' hd hd'

end Parts

-- ---------------------------------------------------------------------------
-- What is compared
-- ---------------------------------------------------------------------------

namespace Comparison

def AllAgree (l : List Comparison) : Prop := ∀ c ∈ l, c.agrees = true

@[simp]
theorem allAgree_nil : AllAgree [] := fun _ hc => nomatch hc

@[simp]
theorem allAgree_cons {c : Comparison} {l : List Comparison} :
    AllAgree (c :: l) ↔ c.agrees = true ∧ AllAgree l :=
  List.forall_mem_cons

@[simp]
theorem allAgree_append {l l' : List Comparison} :
    AllAgree (l ++ l') ↔ AllAgree l ∧ AllAgree l' :=
  List.forall_mem_append

theorem firstFault_eq_ok_iff {l : List Comparison} : firstFault l = .ok () ↔ AllAgree l := by
  induction l with
  | nil => simp [firstFault]
  | cons c rest ih => cases h : c.agrees <;> simp [firstFault, h, ih]

end Comparison

open Comparison (AllAgree allAgree_nil allAgree_cons allAgree_append)

theorem Header.allAgree_comparisons_iff {k : Kind} {path : List String} {g h : Header k} :
    AllAgree (g.comparisons path h) ↔
      g.same h = true ∧ Detail.LearnedSame k g.detail h.detail := by
  cases k <;> simp [Header.comparisons, Detail.comparisons, Header.same, Detail.same,
    Detail.LearnedSame, and_comm, and_left_comm, and_assoc]

mutual
theorem Element.allAgree_comparisons_iff {k : Kind} {path : List String} : (e : Element k) →
    e.WellFormed → {f : Element k} →
    (AllAgree (e.comparisons path f) ↔ e.same f = true ∧ e.LearnedSame f)
  | .mk header parts, hw, .mk header' parts' => by
    rw [Element.comparisons, allAgree_append, Header.allAgree_comparisons_iff,
      parts.allAgree_comparisons_iff k.layout_nodup hw.2, Element.same, Bool.and_eq_true,
      Element.learnedSame_iff, and_and_and_comm]
    rfl
theorem Parts.allAgree_comparisons_iff {path : List String} : {layout : List Slot} →
    (p : Parts layout) → layout.Nodup → p.WellFormed → {q : Parts layout} →
    (AllAgree (p.comparisons path q) ↔ p.same q = true ∧ p.LearnedSame q)
  | _, .nil, _, _, .nil => by
    simp only [Parts.comparisons, allAgree_nil, Parts.same, true_and, true_iff]
    exact fun _ _ _ h => nomatch h
  | _, .fixed c more, hl, hw, .fixed c' more' => by
    obtain ⟨hnot, hl⟩ := List.nodup_cons.mp hl
    rw [Parts.comparisons, allAgree_append, c.allAgree_comparisons_iff hw.1,
      more.allAgree_comparisons_iff hl hw.2, Parts.same, Bool.and_eq_true,
      Parts.learnedSame_fixed hnot, and_and_and_comm]
  | _, .absent more, hl, hw, .absent more' => by
    obtain ⟨-, hl⟩ := List.nodup_cons.mp hl
    rw [Parts.comparisons, allAgree_cons, more.allAgree_comparisons_iff hl hw, Parts.same,
      Parts.learnedSame_absent]
    simp only [true_and]
  | _, .absent _, _, _, .present _ _ | _, .present _ _, _, _, .absent _ => by
    simp [Parts.comparisons, Parts.same]
  | _, .present c more, hl, hw, .present c' more' => by
    obtain ⟨hnot, hl⟩ := List.nodup_cons.mp hl
    rw [Parts.comparisons, List.cons_append, allAgree_cons, allAgree_append,
      c.allAgree_comparisons_iff hw.1, more.allAgree_comparisons_iff hl hw.2, Parts.same,
      Bool.and_eq_true, Parts.learnedSame_present hnot, and_and_and_comm]
    simp only [true_and]
  | _, .keyed entries more, hl, hw, .keyed entries' more' => by
    obtain ⟨hnot, hl⟩ := List.nodup_cons.mp hl
    have hentries {path} : entries.toMap.sameKeys entries'.toMap = true ∧
          AllAgree (entries.comparisons path entries') ↔
        (entries.size = entries'.size ∧ entries.within entries' = true) ∧
          entries.LearnedSame entries' := by
      rw [OrderedMap.sameKeys_iff, and_assoc, and_assoc]
      exact and_congr_right fun _ => entries.allAgree_comparisons_iff hw.1
    rw [Parts.comparisons, List.cons_append, allAgree_cons, allAgree_append, ← and_assoc,
      hentries, more.allAgree_comparisons_iff hl hw.2, Parts.same, Bool.and_eq_true,
      Bool.and_eq_true, beq_iff_eq, Parts.learnedSame_keyed hnot, and_and_and_comm]
  | _, .contracts set more, hl, hw, .contracts set' more' => by
    obtain ⟨-, hl⟩ := List.nodup_cons.mp hl
    rw [Parts.comparisons, allAgree_cons, more.allAgree_comparisons_iff hl hw.2, Parts.same,
      Bool.and_eq_true, Parts.learnedSame_contracts, and_assoc]
-- An entry whose key the other map lacks is not compared at all; the keys have to be looked at too.
theorem Entries.allAgree_comparisons_iff {m : ChildMap} {path : List String} : (e : Entries m) →
    e.WellFormed → {f : Entries m} →
    (e.keys ⊆ f.keys ∧ AllAgree (e.comparisons path f) ↔ e.within f = true ∧ e.LearnedSame f)
  | .nil, _, f => by
    have hkeys : (Entries.nil : Entries m).keys = [] := rfl
    simp [hkeys, Entries.comparisons, Entries.within, Entries.learnedSame_nil]
  | .cons key c more, hw, f => by
    have hkeys : (Entries.cons key c more).keys = key :: more.keys := rfl
    rw [Entries.comparisons, Entries.within, allAgree_append, Bool.and_eq_true,
      Entries.learnedSame_cons hw.1, and_and_and_comm,
      ← @Entries.allAgree_comparisons_iff m path more hw.2.2, hkeys, List.cons_subset,
      Entries.mem_keys_iff, and_and_and_comm]
    refine and_congr_left fun _ => ?_
    cases f.get? key with
    | none => simp
    | some c' => simpa using c.allAgree_comparisons_iff hw.2.1
end

-- ---------------------------------------------------------------------------
-- Scenes
-- ---------------------------------------------------------------------------

namespace Scene

variable {s t : Scene}

/-- Nothing in the scene is listed twice, not even an import. -/
structure Proper (s : Scene) : Prop where
  wellFormed : s.WellFormed
  imports : s.imports.keys.Nodup

/-- All that a scene has in common with a copy of it: only descriptions, the names of expressions
and the order of things may differ. -/
structure Agrees (s t : Scene) : Prop where
  same : s.same t = true
  imports : ∀ name, s.imports.get? name = t.imports.get? name
  learned : s.LearnedSame t

theorem Agrees.refl (hw : s.WellFormed) : s.Agrees s := ⟨same_refl hw, fun _ => rfl, .refl s⟩

theorem Agrees.symm (hw : s.WellFormed) (h : s.Agrees t) : t.Agrees s :=
  ⟨same_symm hw h.same, fun name => (h.imports name).symm, h.learned.symm⟩

theorem allAgree_comparisons_iff (hs : s.Proper) (ht : t.Proper) :
    AllAgree (s.comparisons t) ↔ s.Agrees t := by
  rw [comparisons, allAgree_append,
    s.parts.allAgree_comparisons_iff layout_nodup hs.wellFormed.parts, ← same_eq_parts,
    ← learnedSame_iff, allAgree_cons]
  simp only [allAgree_nil, and_true, sameImports, OrderedMap.same_beq_iff hs.imports ht.imports]
  constructor
  · rintro ⟨⟨hsame, hlearned⟩, himports⟩
    exact ⟨hsame, himports, hlearned⟩
  · rintro ⟨hsame, himports, hlearned⟩
    exact ⟨⟨hsame, hlearned⟩, himports⟩

theorem checkCopy_ok_iff_agrees {left right : Owner} (hne : left ≠ right) (hs : s.Proper)
    (ht : t.Proper) : (∃ events, s.checkCopy left right t = .ok events) ↔ s.Agrees t := by
  rw [← allAgree_comparisons_iff hs ht, ← Comparison.firstFault_eq_ok_iff, checkCopy_eq hne]
  cases Comparison.firstFault (s.comparisons t) with
  | ok u => exact iff_of_true ⟨_, rfl⟩ rfl
  | error e => exact iff_of_false (fun ⟨_, h⟩ => nomatch h) fun h => nomatch h

end Scene

namespace Workspace

variable {w : Workspace} {name : String}

theorem get_set_self (w : Workspace) (name : String) (s : Scene) : (w.set name s).get name = s := by
  rw [get, set, OrderedMap.get?_insert_self, Option.getD_some]

theorem get_copy_self (w : Workspace) (name target : String) :
    (w.copy name target).get target = w.get name :=
  w.get_set_self target (w.get name)

/-- Of two scenes that are not one and the same, the check tells exactly whether they agree, so it
passes both ways or neither. A copy made on the spot always passes, and what is then found under
its name agrees with the scene. -/
theorem checkCopy_passes_iff (hs : (w.get name).Proper) :
    (∀ copy, name ≠ copy → (w.get copy).Proper →
      ((∃ events, w.checkCopy name copy = .ok events) ↔ (w.get name).Agrees (w.get copy)) ∧
      ((∃ events, w.checkCopy name copy = .ok events) ↔
        ∃ events, w.checkCopy copy name = .ok events)) ∧
    ∀ target, (∃ events, w.copyChecked name target = .ok (events, w.copy name target)) ∧
      (w.get name).Agrees ((w.copy name target).get target) := by
  refine ⟨fun copy hne ht => ?_, fun target => ?_⟩
  · have howner : Owner.stored name ≠ .stored copy := by simpa using hne
    have hthere : (∃ events, w.checkCopy name copy = .ok events) ↔
        (w.get name).Agrees (w.get copy) := Scene.checkCopy_ok_iff_agrees howner hs ht
    have hback : (∃ events, w.checkCopy copy name = .ok events) ↔
        (w.get copy).Agrees (w.get name) := Scene.checkCopy_ok_iff_agrees howner.symm ht hs
    refine ⟨hthere, ?_⟩
    rw [hthere, hback]
    exact ⟨.symm hs.wellFormed, .symm ht.wellFormed⟩
  · have hagrees : (w.get name).Agrees ((w.copy name target).get target) := by
      rw [get_copy_self]
      exact .refl hs.wellFormed
    have ht : ((w.copy name target).get target).Proper := (w.get_copy_self name target).symm ▸ hs
    have howner : Owner.stored name ≠ .unstored := by simp
    obtain ⟨events, hevents⟩ := (Scene.checkCopy_ok_iff_agrees howner hs ht).mpr hagrees
    refine ⟨⟨events, ?_⟩, hagrees⟩
    rw [copyChecked, hevents]
    rfl

theorem checkCopy_passes_iff_reordered :
    let field := (Element.field "f").withDetail { name := "f", typeText := some "int" }
    let owner := (Element.classType "C").withParts
      ((Element.classType "C").parts.setSlot (.keyed .fields) (.cons "f" field .nil))
    let s : Scene :=
      { classes := .cons "C" owner (.cons "D" (.classType "D") .nil)
        imports := ⟨[("A", ["p"]), ("B", ["q"])]⟩ }
    let t : Scene :=
      { classes := .cons "D" (.classType "D") (.cons "C" owner .nil)
        imports := ⟨[("B", ["q"]), ("A", ["p"])]⟩ }
    let w : Workspace := ⟨⟨[("s", s), ("t", t)]⟩⟩
    (w.get "s").Proper ∧ (w.get "t").Proper ∧ (w.get "s").Agrees (w.get "t") ∧
      (∃ events, w.checkCopy "t" "s" = .ok events) ∧
      (∃ events, w.copyChecked "s" "u" = .ok (events, w.copy "s" "u")) ∧
      (w.get "s").Agrees ((w.copy "s" "u").get "u") := by
  intro field owner s t w
  have hs : (w.get "s").Proper := ⟨by decide, by decide⟩
  have ht : (w.get "t").Proper := ⟨by decide, by decide⟩
  obtain ⟨hother, hcopy⟩ := @checkCopy_passes_iff w "s" hs
  obtain ⟨hagrees, hback⟩ := hother "t" (by decide) ht
  have hpasses : w.checkCopy "s" "t" = .ok [.copyVerified 2 0] := by rfl
  exact ⟨hs, ht, hagrees.mp ⟨_, hpasses⟩, hback.mp ⟨_, hpasses⟩, hcopy "u"⟩

end Workspace

end AnnotationScene
