import AnnotationScene.Location.Key

/-!
# The orders of keys

Keys are compared field by field in the order of declaration, lists from the front, and absent
fields come first. Whatever the kind of key, this is a total order in which only equal keys tie.
The fields that say where a place in code is come before the one for the type at it, so that in
sorted lists the entries for one site stand together.
-/

namespace AnnotationScene

open Std

-- ---------------------------------------------------------------------------
-- Lawful comparisons
-- ---------------------------------------------------------------------------

/-- A comparison that ties equal values only, reverses when they are swapped and is transitive. -/
structure IsTotalOrder {α : Type} (cmp : α → α → Ordering) : Prop where
  eq_iff (a b : α) : cmp a b = .eq ↔ a = b
  swap (a b : α) : cmp b a = (cmp a b).swap
  trans (a b c : α) : (cmp a b).isLE → (cmp b c).isLE → (cmp a c).isLE

section

variable {α β γ δ : Type} {a b : α} {f : α → β} {g : α → γ} {h : α → δ}

theorem isTotalOrder_of_lawful [Ord α] [TransOrd α] [LawfulEqOrd α] :
    IsTotalOrder (compare : α → α → Ordering) where
  eq_iff _ _ := LawfulEqOrd.compare_eq_iff_eq
  swap _ _ := OrientedOrd.eq_swap
  trans _ _ _ := TransOrd.isLE_trans

variable [Ord β] [LawfulEqOrd β] [Ord γ] [LawfulEqOrd γ] [Ord δ] [LawfulEqOrd δ]

theorem compareOn_eq_eq_iff : compareOn f a b = .eq ↔ f a = f b :=
  LawfulEqOrd.compare_eq_iff_eq

/-- A comparison by one field after the other ties equal values only, if the fields are all there
is to a value. -/
theorem lawfulEqCmp_of_fields (hfields : ∀ a b, f a = f b → g a = g b → h a = h b → a = b) :
    LawfulEqCmp (compareLex (compareOn f) (compareLex (compareOn g) (compareOn h))) where
  compare_self := by simp [compareLex, compareOn]
  eq_of_compare {a b} htie := by
    simp only [compareLex_eq_eq, compareOn_eq_eq_iff] at htie
    obtain ⟨hf, hg, hh⟩ := htie
    exact hfields a b hf hg hh

end

-- ---------------------------------------------------------------------------
-- The kinds of keys
-- ---------------------------------------------------------------------------

theorem TypeStep.rank_inj {a b : TypeStep} (h : a.rank = b.rank) : a = b := by
  cases a <;> cases b <;> grind [rank, UInt8.toNat_inj]

instance : TransOrd TypeStep := inferInstanceAs (TransCmp (compareOn TypeStep.rank))

instance : LawfulEqOrd TypeStep where
  eq_of_compare h := TypeStep.rank_inj (compareOn_eq_eq_iff.mp h)

instance : TransOrd BoundLocation :=
  inferInstanceAs (TransCmp (compareLex (compareOn BoundLocation.parameter)
    (compareOn BoundLocation.bound)))

instance : LawfulEqOrd BoundLocation where
  eq_of_compare {a b} h := by
    obtain ⟨hparameter, hbound⟩ := compareLex_eq_eq.mp h
    cases a
    cases b
    simp_all [compareOn_eq_eq_iff]

instance : TransOrd RelativeLocation :=
  inferInstanceAs (TransCmp (compareLex (compareOn RelativeLocation.offset)
    (compareLex (compareOn RelativeLocation.index) (compareOn RelativeLocation.typeIndex))))

instance : LawfulEqOrd RelativeLocation :=
  lawfulEqCmp_of_fields (by rintro ⟨⟩ ⟨⟩; simp_all)

instance : TransOrd TypeIndexLocation :=
  inferInstanceAs (TransCmp (compareOn TypeIndexLocation.typeIndex))

instance : LawfulEqOrd TypeIndexLocation where
  eq_of_compare {a b} h := by
    cases a
    cases b
    simpa using compareOn_eq_eq_iff.mp h

instance : TransOrd LocalRange :=
  inferInstanceAs (TransCmp (compareLex (compareOn LocalRange.start)
    (compareLex (compareOn LocalRange.length) (compareOn LocalRange.index))))

instance : LawfulEqOrd LocalRange :=
  lawfulEqCmp_of_fields (by rintro ⟨⟩ ⟨⟩; simp_all)

instance : TransOrd LocalLocation :=
  inferInstanceAs (TransCmp (compareLex (compareOn LocalLocation.ranges)
    (compareLex (compareOn LocalLocation.variableName)
      (compareOn LocalLocation.variableIndex))))

instance : LawfulEqOrd LocalLocation :=
  lawfulEqCmp_of_fields (by rintro ⟨⟩ ⟨⟩; simp_all)

instance : TransOrd AstEntry :=
  inferInstanceAs (TransCmp (compareLex (compareOn AstEntry.treeKind)
    (compareLex (compareOn AstEntry.childSelector) (compareOn AstEntry.argument))))

instance : LawfulEqOrd AstEntry :=
  lawfulEqCmp_of_fields (by rintro ⟨⟩ ⟨⟩; simp_all)

instance : TransOrd AstPath := inferInstanceAs (TransCmp (compareOn AstPath.entries))

instance : LawfulEqOrd AstPath where
  eq_of_compare {a b} h := by
    cases a
    cases b
    simpa using compareOn_eq_eq_iff.mp h

theorem KeyKind.isTotalOrder_compare (κ : KeyKind) :
    IsTotalOrder (compare : κ.Key → κ.Key → Ordering) := by
  cases κ <;> exact isTotalOrder_of_lawful

-- ---------------------------------------------------------------------------
-- Sorted keys
-- ---------------------------------------------------------------------------

section

variable {α : Type} [Ord α] {keys : List α}

def sortedKey? (keys : List α) (i : Nat) : Option α :=
  (sortedPositions keys)[i]?.bind (keys[·]?)

theorem sortedPositions_perm (keys : List α) :
    (sortedPositions keys).Perm (List.range keys.length) := by
  have hsorted := (List.mergeSort_perm keys.zipIdx fun a b => (compare a.1 b.1).isLE).map (·.2)
  simpa [sortedPositions, List.range_eq_range'] using hsorted

theorem sortedKey?_eq (keys : List α) (i : Nat) : sortedKey? keys i =
    ((keys.zipIdx.mergeSort fun a b => (compare a.1 b.1).isLE)[i]?).map (·.1) := by
  unfold sortedKey? sortedPositions
  rw [List.getElem?_map]
  cases hentry : (keys.zipIdx.mergeSort fun a b => (compare a.1 b.1).isLE)[i]? with
  | none => rfl
  | some entry =>
    have hmem : entry ∈ keys.zipIdx := List.mem_mergeSort.mp (List.mem_of_getElem? hentry)
    exact List.mk_mem_zipIdx_iff_getElem?.mp hmem

theorem sortedKey?_mono [TransOrd α] {i j : Nat} {a b : α} (hij : i ≤ j)
    (ha : sortedKey? keys i = some a) (hb : sortedKey? keys j = some b) :
    (compare a b).isLE := by
  rw [sortedKey?_eq, Option.map_eq_some_iff] at ha hb
  obtain ⟨x, hx, rfl⟩ := ha
  obtain ⟨y, hy, rfl⟩ := hb
  have htotal : ∀ a b : α, ((compare a b).isLE || (compare b a).isLE) = true := by
    intro a b
    rw [OrientedOrd.eq_swap (a := b) (b := a)]
    cases compare a b <;> rfl
  have hsorted : (keys.zipIdx.mergeSort fun a b => (compare a.1 b.1).isLE).Pairwise
      fun a b => (compare a.1 b.1).isLE := by
    apply List.pairwise_mergeSort
    · exact fun _ _ _ => TransOrd.isLE_trans
    · exact fun x y => htotal x.1 y.1
  rcases Nat.eq_or_lt_of_le hij with rfl | hlt
  · obtain rfl : x = y := Option.some.inj (hx.symm.trans hy)
    exact ReflOrd.isLE_rfl
  · obtain ⟨hi, rfl⟩ := List.getElem?_eq_some_iff.mp hx
    obtain ⟨hj, rfl⟩ := List.getElem?_eq_some_iff.mp hy
    exact List.pairwise_iff_getElem.mp hsorted i j hi hj hlt

end

namespace RelativeLocation

theorem site_mono {a b : RelativeLocation} (h : (compare a b).isLE) :
    (compare a.site b.site).isLE := by
  have hplace : compare a.site b.site =
      (compare a.offset b.offset).then ((compare a.index b.index).then (compare (-1) (-1))) := rfl
  have hall : compare a b = (compare a.offset b.offset).then
      ((compare a.index b.index).then (compare a.typeIndex b.typeIndex)) := rfl
  rw [hall] at h
  rw [hplace]
  cases hoffset : compare a.offset b.offset <;> cases hindex : compare a.index b.index <;>
    simp_all

theorem site_eq_of_between {a b c : RelativeLocation} (hab : (compare a b).isLE)
    (hbc : (compare b c).isLE) (hsite : a.site = c.site) : b.site = a.site := by
  have hba : (compare b.site a.site).isLE := hsite ▸ site_mono hbc
  have htie : compare b.site a.site = .eq := OrientedCmp.isLE_antisymm hba (site_mono hab)
  exact LawfulEqOrd.eq_of_compare htie

end RelativeLocation

/-- Keys of every kind are totally ordered, in agreement with equality. In a sorted list of places
in code, which has each of them where it belongs, the entries for one site follow each other. -/
theorem compare_orders_keys :
    (∀ κ : KeyKind, IsTotalOrder (compare : κ.Key → κ.Key → Ordering)) ∧
    (∀ a b c : RelativeLocation, (compare a b).isLE → (compare b c).isLE → a.site = c.site →
      b.site = a.site) ∧
    ∀ keys : List RelativeLocation, (sortedPositions keys).Perm (List.range keys.length) ∧
      ∀ i j k a b c, i ≤ j → j ≤ k → sortedKey? keys i = some a → sortedKey? keys j = some b →
        sortedKey? keys k = some c → a.site = c.site → b.site = a.site := by
  refine ⟨KeyKind.isTotalOrder_compare, fun a b c => RelativeLocation.site_eq_of_between,
    fun keys => ⟨sortedPositions_perm keys, ?_⟩⟩
  intro i j k a b c hij hjk ha hb hc hsite
  exact RelativeLocation.site_eq_of_between (sortedKey?_mono hij ha hb) (sortedKey?_mono hjk hb hc)
    hsite

theorem compare_orders_keys_three_types :
    let keys : List RelativeLocation :=
      [.ofOffset 3 1, .ofOffset 7 0, .ofOffset 3 (-1), .ofOffset 3 0]
    sortedKey? keys 0 = some (.ofOffset 3 (-1)) ∧ sortedKey? keys 1 = some (.ofOffset 3 0) ∧
    sortedKey? keys 2 = some (.ofOffset 3 1) ∧
    (RelativeLocation.ofOffset 3 0).site = (RelativeLocation.ofOffset 3 (-1)).site := by
  intro keys
  obtain ⟨-, -, hsorted⟩ := compare_orders_keys
  have hpositions : sortedPositions keys = [2, 3, 0, 1] := by
    simp +decide [keys, sortedPositions, List.mergeSort, List.MergeSort.Internal.splitInTwo]
  have h₀ : sortedKey? keys 0 = some (.ofOffset 3 (-1)) := by
    rw [sortedKey?, hpositions]
    rfl
  have h₁ : sortedKey? keys 1 = some (.ofOffset 3 0) := by
    rw [sortedKey?, hpositions]
    rfl
  have h₂ : sortedKey? keys 2 = some (.ofOffset 3 1) := by
    rw [sortedKey?, hpositions]
    rfl
  exact ⟨h₀, h₁, h₂, (hsorted keys).2 0 1 2 _ _ _ (by decide) (by decide) h₀ h₁ h₂ rfl⟩

end AnnotationScene
