import AnnotationScene.OrderedMap
import Mathlib.Data.List.Perm.Subperm

/-!
# Keys of ordered maps

No operation lists a key twice, and in a map that lists none twice a key finds each of its
entries. Two such maps are the same exactly if every key finds the same in both.
-/

namespace AnnotationScene.OrderedMap

variable {K V : Type} [DecidableEq K]

theorem get?_eq_none_iff {m : OrderedMap K V} {key : K} : m.get? key = none ↔ key ∉ m.keys := by
  simp only [get?, Option.map_eq_none_iff, List.find?_eq_none, keys, List.mem_map, not_exists,
    not_and, decide_eq_true_eq]

theorem mem_keys_of_get? {m : OrderedMap K V} {key : K} {value : V}
    (h : m.get? key = some value) : key ∈ m.keys := by
  refine Classical.byContradiction fun hn => ?_
  rw [get?_eq_none_iff.mpr hn] at h
  cases h

theorem contains_eq_true_iff {m : OrderedMap K V} {key : K} :
    m.contains key = true ↔ key ∈ m.keys := by
  rw [contains, ← Decidable.not_not (p := key ∈ m.keys), ← get?_eq_none_iff,
    Option.isSome_iff_ne_none]

theorem mem_keys_iff {m : OrderedMap K V} {key : K} :
    key ∈ m.keys ↔ ∃ value, m.get? key = some value := by
  rw [← contains_eq_true_iff, contains, Option.isSome_iff_exists]

theorem mem_entries_of_get? {m : OrderedMap K V} {key : K} {value : V}
    (h : m.get? key = some value) : (key, value) ∈ m.entries := by
  obtain ⟨e, he, rfl⟩ := Option.map_eq_some_iff.mp h
  obtain rfl : e.1 = key := by simpa using List.find?_some he
  exact List.mem_of_find?_eq_some he

theorem get?_of_mem_entries {m : OrderedMap K V} (hm : m.keys.Nodup) {key : K} {value : V}
    (h : (key, value) ∈ m.entries) : m.get? key = some value := by
  obtain ⟨entries⟩ := m
  induction entries with
  | nil => cases h
  | cons e rest ih =>
    obtain ⟨hnot, hrest⟩ := List.nodup_cons.mp hm
    rcases List.mem_cons.mp h with rfl | h
    · simp [get?]
    · have hne : e.1 ≠ key := by
        rintro rfl
        exact hnot (List.mem_map.mpr ⟨_, h, rfl⟩)
      simpa [get?, hne] using ih hrest h

theorem keys_update (m : OrderedMap K V) (key : K) (f : V → V) :
    (m.update key f).keys = m.keys := by
  simp only [keys, update, List.map_map]
  refine List.map_congr_left fun e _ => ?_
  by_cases h : e.1 = key <;> simp [h]

theorem keys_insert_of_mem {m : OrderedMap K V} {key : K} (h : key ∈ m.keys) (value : V) :
    (m.insert key value).keys = m.keys := by
  rw [insert, if_pos (contains_eq_true_iff.mpr h), keys_update]

theorem keys_insert_of_not_mem {m : OrderedMap K V} {key : K} (h : key ∉ m.keys) (value : V) :
    (m.insert key value).keys = m.keys ++ [key] := by
  rw [insert, if_neg (mt contains_eq_true_iff.mp h)]
  simp [keys]

theorem keys_nodup_insert {m : OrderedMap K V} (h : m.keys.Nodup) (key : K) (value : V) :
    (m.insert key value).keys.Nodup := by
  by_cases hkey : key ∈ m.keys
  · rwa [keys_insert_of_mem hkey]
  · rw [keys_insert_of_not_mem hkey, List.nodup_append]
    refine ⟨h, by simp, ?_⟩
    rintro k hk k' hk' rfl
    obtain rfl := List.mem_singleton.mp hk'
    exact hkey hk

theorem mem_entries_insert {m : OrderedMap K V} {key : K} {value : V} {x : K × V}
    (h : x ∈ (m.insert key value).entries) : x.2 = value ∨ x ∈ m.entries := by
  unfold insert at h
  split at h
  next =>
    simp only [update, List.mem_map] at h
    obtain ⟨e, he, rfl⟩ := h
    by_cases hk : e.1 = key
    · simp [hk]
    · simp [hk, he]
  next =>
    simp only [List.mem_append, List.mem_singleton] at h
    rcases h with h | rfl
    · exact .inr h
    · exact .inl rfl

-- ---------------------------------------------------------------------------
-- Comparing maps
-- ---------------------------------------------------------------------------

omit [DecidableEq K] in
theorem length_keys (m : OrderedMap K V) : m.keys.length = m.size := by
  rw [keys, size, List.length_map]

theorem sameKeys_iff {m n : OrderedMap K V} :
    m.sameKeys n = true ↔ m.size = n.size ∧ m.keys ⊆ n.keys := by
  simp only [sameKeys, Bool.and_eq_true, beq_iff_eq, List.all_eq_true, contains_eq_true_iff]
  rfl

theorem same_iff_found {sameValue : V → V → Bool} {m n : OrderedMap K V} (hm : m.keys.Nodup) :
    same sameValue m n = true ↔ m.size = n.size ∧
      ∀ key v, m.get? key = some v → ∃ w, n.get? key = some w ∧ sameValue v w = true := by
  rw [same, Bool.and_eq_true, beq_iff_eq, List.all_eq_true]
  refine and_congr_right fun _ => ⟨fun h key v hv => ?_, fun h e he => ?_⟩
  · have he := h _ (mem_entries_of_get? hv)
    split at he
    next w hw => exact ⟨w, hw, he⟩
    next => cases he
  · obtain ⟨w, hw, hsame⟩ := h e.1 e.2 (get?_of_mem_entries hm he)
    rw [hw]
    exact hsame

/-- Both maps lack a key, or both have it with values that are the same. -/
theorem same_iff {sameValue : V → V → Bool} {m n : OrderedMap K V} (hm : m.keys.Nodup)
    (hn : n.keys.Nodup) : same sameValue m n = true ↔ ∀ key,
      (m.get? key = none ↔ n.get? key = none) ∧
      ∀ v w, m.get? key = some v → n.get? key = some w → sameValue v w = true := by
  rw [same_iff_found hm]
  simp only [get?_eq_none_iff, not_iff_not]
  constructor
  · rintro ⟨hsize, hfound⟩ key
    have hsub : m.keys ⊆ n.keys := by
      intro k hk
      obtain ⟨v, hv⟩ := mem_keys_iff.mp hk
      obtain ⟨w, hw, -⟩ := hfound k v hv
      exact mem_keys_of_get? hw
    -- there are as many keys on both sides, so none is found on the right alone
    have hlen : n.keys.length ≤ m.keys.length := by rw [length_keys, length_keys]; omega
    refine ⟨((hm.subperm hsub).perm_of_length_le hlen).mem_iff, fun v w hv hw => ?_⟩
    obtain ⟨w', hw', hsame⟩ := hfound key v hv
    exact Option.some.inj (hw'.symm.trans hw) ▸ hsame
  · intro h
    have hperm : m.keys.Perm n.keys := (List.perm_ext_iff_of_nodup hm hn).mpr fun key => (h key).1
    refine ⟨by rw [← length_keys, ← length_keys, hperm.length_eq], fun key v hv => ?_⟩
    obtain ⟨w, hw⟩ := mem_keys_iff.mp ((h key).1.mp (mem_keys_of_get? hv))
    exact ⟨w, hw, (h key).2 v w hv hw⟩

theorem same_beq_iff [BEq V] [LawfulBEq V] {m n : OrderedMap K V} (hm : m.keys.Nodup)
    (hn : n.keys.Nodup) : same (· == ·) m n = true ↔ ∀ key, m.get? key = n.get? key := by
  rw [same_iff hm hn]
  refine forall_congr' fun key => ?_
  cases m.get? key <;> cases n.get? key <;> simp

end AnnotationScene.OrderedMap
