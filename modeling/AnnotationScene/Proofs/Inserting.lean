import AnnotationScene.Proofs.Sameness

/-!
# Inserting into sets of annotations

Members are looked for by digest first. That misses none, since annotations that are the same have
one digest. So a set is known by what it contains up to sameness, and inserting adds one thing to
that, whatever the order and whichever of the same annotations comes first.
-/

namespace AnnotationScene

-- ---------------------------------------------------------------------------
-- Digests
-- ---------------------------------------------------------------------------

theorem Value.length_eq_of_sameTable {t u : List (String × Value)}
    (h : Value.sameTable t u = true) : t.length = u.length := by
  induction t generalizing u with
  | nil => cases u <;> simp_all [Value.sameTable]
  | cons x rest ih =>
    cases u <;> simp only [Value.sameTable, Bool.false_eq_true] at h
    simp only [Bool.and_eq_true] at h
    simp [ih h.2]

theorem Value.length_eq_of_sameList {l m : List Value} (h : Value.sameList l m = true) :
    l.length = m.length := by
  induction l generalizing m with
  | nil => cases m <;> simp_all [Value.sameList]
  | cons v rest ih =>
    cases m <;> simp only [Value.sameList, Bool.false_eq_true] at h
    simp only [Bool.and_eq_true] at h
    simp [ih h.2]

mutual
theorem Annotation.digest_eq_of_same : (a : Annotation) → {b : Annotation} → a.same b = true →
    a.digest = b.digest
  | ⟨definition, values⟩, ⟨definition', values'⟩, h => by
    have hn : definition.name = definition'.name := Annotation.name_eq_of_same h
    obtain ⟨-, hv⟩ := Annotation.same_iff.mp h
    simp only [hn, Annotation.digest, Definition.digest, Value.length_eq_of_sameTable hv,
      Value.digestTable_eq_of_same values hv]
theorem Value.digest_eq_of_same : (v : Value) → {w : Value} → v.same w = true →
    v.digest = w.digest
  | .nested a, w, h => by
    cases w <;> simp only [Value.same, Bool.false_eq_true] at h
    simp only [Value.digest, a.digest_eq_of_same h]
  | .array vs, w, h => by
    cases w <;> simp only [Value.same, Bool.false_eq_true] at h
    simp only [Value.digest, Value.length_eq_of_sameList h, Value.digestList_eq_of_same vs h]
  | .byte _, _, h | .short _, _, h | .char _, _, h | .int _, _, h | .long _, _, h
  | .float _, _, h | .double _, _, h | .boolean _, _, h | .string _, _, h
  | .classToken _, _, h | .enum _ _, _, h => Value.eq_of_same h nofun nofun ▸ rfl
theorem Value.digestTable_eq_of_same : (t : List (String × Value)) →
    {u : List (String × Value)} → Value.sameTable t u = true →
    Value.digestTable t = Value.digestTable u
  | [], u, h => by
    cases u <;> simp only [Value.sameTable, Bool.false_eq_true] at h
    rfl
  | (n, v) :: rest, u, h => by
    cases u <;> simp only [Value.sameTable, Bool.false_eq_true] at h
    simp only [Bool.and_eq_true, beq_iff_eq] at h
    simp only [Value.digestTable, h.1.1, v.digest_eq_of_same h.1.2,
      Value.digestTable_eq_of_same rest h.2]
theorem Value.digestList_eq_of_same : (l : List Value) → {m : List Value} →
    Value.sameList l m = true → Value.digestList l = Value.digestList m
  | [], m, h => by
    cases m <;> simp only [Value.sameList, Bool.false_eq_true] at h
    rfl
  | v :: rest, m, h => by
    cases m <;> simp only [Value.sameList, Bool.false_eq_true] at h
    simp only [Bool.and_eq_true] at h
    simp only [Value.digestList, v.digest_eq_of_same h.1, Value.digestList_eq_of_same rest h.2]
end

-- ---------------------------------------------------------------------------
-- What a set contains
-- ---------------------------------------------------------------------------

namespace AnnotationSet

variable {s t : AnnotationSet} {a b x : Annotation}

theorem contains_iff : contains s a = true ↔ ∃ b ∈ s, a.same b = true := by
  simp only [contains, List.any_eq_true, Bool.and_eq_true, beq_iff_eq, Annotation.isSame_eq]
  constructor
  · rintro ⟨b, hb, -, hab⟩
    exact ⟨b, hb, hab⟩
  · rintro ⟨b, hb, hab⟩
    exact ⟨b, hb, (a.digest_eq_of_same hab).symm, hab⟩

theorem length_le_of_contains (hs : AnnotationSet.WellFormed s)
    (h : ∀ x, contains s x = true → contains t x = true) : s.length ≤ t.length := by
  have hapart := apart_of_mem hs (AnnotationSet.forall_mem_symm s hs)
  refine length_le_of_matched hapart fun a ha => ?_
  exact contains_iff.mp (h a (contains_iff.mpr ⟨a, ha, a.same_refl⟩))

/-- Sets are the same when they contain the same, up to sameness. -/
theorem same_iff_contains (hs : AnnotationSet.WellFormed s) (ht : AnnotationSet.WellFormed t) :
    same s t = true ↔ ∀ x, contains s x = true ↔ contains t x = true := by
  have hforward : ∀ {s t}, same s t = true → ∀ x, contains s x = true → contains t x = true := by
    intro s t h x hx
    obtain ⟨a, ha, hxa⟩ := contains_iff.mp hx
    obtain ⟨b, hb, hab⟩ := (same_iff.mp h).2 a ha
    exact contains_iff.mpr ⟨b, hb, x.same_trans hxa hab⟩
  constructor
  · intro h x
    exact ⟨hforward h x, hforward (same_symm hs h) x⟩
  · intro h
    refine same_iff.mpr ⟨?_, fun a ha => ?_⟩
    · exact Nat.le_antisymm (length_le_of_contains hs fun x => (h x).mp)
        (length_le_of_contains ht fun x => (h x).mpr)
    · exact contains_iff.mp ((h a).mp (contains_iff.mpr ⟨a, ha, a.same_refl⟩))

-- ---------------------------------------------------------------------------
-- Inserting
-- ---------------------------------------------------------------------------

theorem contains_insert :
    contains (insert s a).2 x = true ↔ contains s x = true ∨ x.same a = true := by
  by_cases h : contains s a = true
  · rw [insert, if_pos h]
    constructor
    · exact .inl
    · rintro (hx | hx)
      · exact hx
      · obtain ⟨b, hb, hab⟩ := contains_iff.mp h
        exact contains_iff.mpr ⟨b, hb, x.same_trans hx hab⟩
  · rw [insert, if_neg h]
    simp [contains_iff, or_and_right, exists_or]

theorem wellFormedSet_insert (hs : AnnotationSet.WellFormed s) (ha : a.WellFormed) :
    AnnotationSet.WellFormed (insert s a).2 := by
  by_cases h : contains s a = true
  · rw [insert, if_pos h]
    exact hs
  · rw [insert, if_neg h]
    obtain ⟨hall, hp⟩ := AnnotationSet.wellFormed_iff.mp hs
    refine AnnotationSet.wellFormed_iff.mpr ⟨?_, ?_⟩
    · simpa [or_imp, forall_and] using ⟨hall, ha⟩
    · refine List.pairwise_append.mpr ⟨hp, by simp, fun b hb c hc => ?_⟩
      obtain rfl := List.mem_singleton.mp hc
      refine Bool.eq_false_iff.mpr fun hbc => h ?_
      exact contains_iff.mpr ⟨b, hb, b.same_symm (hall b hb) hbc⟩

theorem insert_same (hs : AnnotationSet.WellFormed s) (ht : AnnotationSet.WellFormed t)
    (ha : a.WellFormed) (h : same s t = true) : same (insert s a).2 (insert t a).2 = true := by
  rw [same_iff_contains (wellFormedSet_insert hs ha) (wellFormedSet_insert ht ha)]
  intro x
  rw [contains_insert, contains_insert, (same_iff_contains hs ht).mp h x]

theorem insert_comm (hs : AnnotationSet.WellFormed s) (ha : a.WellFormed) (hb : b.WellFormed) :
    same (insert (insert s a).2 b).2 (insert (insert s b).2 a).2 = true := by
  rw [same_iff_contains (wellFormedSet_insert (wellFormedSet_insert hs ha) hb)
    (wellFormedSet_insert (wellFormedSet_insert hs hb) ha)]
  intro x
  simp only [contains_insert]
  exact or_right_comm

end AnnotationSet

end AnnotationScene
