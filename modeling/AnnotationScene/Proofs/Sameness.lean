import AnnotationScene.Proofs.WellFormed

/-!
# Sameness is an equivalence

Sets are compared by size and by finding each member of the left in the right. That this is
transitive is plain; that it is symmetric rests on the left set listing no two members that are
the same, so that no two of them can be found in one place.
-/

namespace AnnotationScene

/-- Where `a` is matched, it takes a place that no other needs: the rest is matched without it. -/
theorem exists_rest_of_matched {α β : Type} {r : α → β → Prop} {a : α} {rest : List α}
    {s : List β} (hapart : (a :: rest).Pairwise fun a a' => ∀ b, r a b → ¬ r a' b)
    (hl : ∀ a' ∈ a :: rest, ∃ b ∈ s, r a' b) :
    ∃ front b back, s = front ++ b :: back ∧ r a b ∧
      ∀ a' ∈ rest, ∃ b' ∈ front ++ back, r a' b' := by
  obtain ⟨b, hb, hab⟩ := hl a List.mem_cons_self
  obtain ⟨front, back, rfl⟩ := List.append_of_mem hb
  refine ⟨front, b, back, rfl, hab, fun a' ha' => ?_⟩
  obtain ⟨b', hb', hr⟩ := hl a' (List.mem_cons_of_mem a ha')
  have hne : b' ≠ b := fun he => (List.pairwise_cons.mp hapart).1 a' ha' b hab (he ▸ hr)
  exact ⟨b', by simpa [hne] using hb', hr⟩

/-- If every member of `l` is matched in `s`, no two in one place, then `l` is no longer. -/
theorem length_le_of_matched {α β : Type} {r : α → β → Prop} {l : List α} {s : List β}
    (hapart : l.Pairwise fun a a' => ∀ b, r a b → ¬ r a' b)
    (hl : ∀ a ∈ l, ∃ b ∈ s, r a b) : l.length ≤ s.length := by
  induction l generalizing s with
  | nil => simp
  | cons a rest ih =>
    obtain ⟨front, b, back, rfl, -, hothers⟩ := exists_rest_of_matched hapart hl
    have hlen := ih (List.pairwise_cons.mp hapart).2 hothers
    simp only [List.length_append, List.length_cons] at hlen ⊢
    omega

/-- If `s` is also as long as `l`, then every member of `s` is matched too. -/
theorem covered_of_matched {α β : Type} {r : α → β → Prop} {l : List α} {s : List β}
    (hlen : l.length = s.length) (hapart : l.Pairwise fun a a' => ∀ b, r a b → ¬ r a' b)
    (hl : ∀ a ∈ l, ∃ b ∈ s, r a b) : ∀ b ∈ s, ∃ a ∈ l, r a b := by
  induction l generalizing s with
  | nil =>
    intro b hb
    cases s with
    | nil => cases hb
    | cons _ _ => simp at hlen
  | cons a rest ih =>
    obtain ⟨front, b, back, rfl, hab, hothers⟩ := exists_rest_of_matched hapart hl
    have hlen' : rest.length = (front ++ back).length := by simp at hlen ⊢; omega
    intro b' hb'
    by_cases he : b' = b
    · exact ⟨a, List.mem_cons_self, he ▸ hab⟩
    · obtain ⟨a', ha', hr⟩ :=
        ih hlen' (List.pairwise_cons.mp hapart).2 hothers b' (by simpa [he] using hb')
      exact ⟨a', List.mem_cons_of_mem a ha', hr⟩

theorem AnnotationSet.allIn_iff {l s : List Annotation} :
    AnnotationSet.allIn l s = true ↔ ∀ a ∈ l, ∃ b ∈ s, a.same b = true := by
  induction l with
  | nil => simp [AnnotationSet.allIn]
  | cons a rest ih => simp [AnnotationSet.allIn, ih]

theorem AnnotationSet.same_iff {s t : AnnotationSet} :
    AnnotationSet.same s t = true ↔ s.length = t.length ∧ ∀ a ∈ s, ∃ b ∈ t, a.same b = true := by
  simp [AnnotationSet.same_eq, AnnotationSet.allIn_iff]

theorem FieldType.sameTable_nil_left (t : List (String × FieldType)) :
    FieldType.sameTable [] t = t.isEmpty := by
  cases t <;> rfl

/-- Sameness of definitions in one case, whether or not a field table is there. -/
theorem Definition.same_iff {d e : Definition} :
    d.same e = true ↔ d.name = e.name ∧ AnnotationSet.same d.metas e.metas = true ∧
      FieldType.sameTable d.fieldTable e.fieldTable = true := by
  obtain ⟨name, metas, fields, source⟩ := d
  cases fields with
  | none =>
    have htable : Definition.fieldTable ⟨name, metas, none, source⟩ = [] := rfl
    simp [Definition.same, AnnotationSet.same_eq, htable, FieldType.sameTable_nil_left, and_assoc]
  | some fields =>
    have htable : Definition.fieldTable ⟨name, metas, some fields, source⟩ = fields := rfl
    simp [Definition.same, AnnotationSet.same_eq, htable, and_assoc]

theorem Annotation.same_iff {a b : Annotation} :
    a.same b = true ↔ a.definition.same b.definition = true ∧
      Value.sameTable a.values b.values = true := by
  obtain ⟨definition, values⟩ := a
  unfold Annotation.same
  exact Bool.and_eq_true_iff

theorem Annotation.name_eq_of_same {a b : Annotation} (h : a.same b = true) : a.name = b.name := by
  obtain ⟨hdefinition, -⟩ := Annotation.same_iff.mp h
  exact (Definition.same_iff.mp hdefinition).1

theorem FieldType.eq_of_same {t u : FieldType} (h : t.same u = true)
    (hnested : ∀ d, t ≠ .nested d) (harray : ∀ c, t ≠ .array c) : u = t := by
  unfold FieldType.same at h
  split at h <;> simp_all

/-- Only annotations and arrays may be the same and yet differ. -/
theorem Value.same_cases {v w : Value} (h : v.same w = true) :
    (∃ a b, v = .nested a ∧ w = .nested b ∧ a.same b = true) ∨
      (∃ vs ws, v = .array vs ∧ w = .array ws ∧ Value.sameList vs ws = true) ∨ w = v := by
  unfold Value.same at h
  split at h
  case h_12 a b => exact .inl ⟨a, b, rfl, rfl, h⟩
  case h_13 vs ws => exact .inr (.inl ⟨vs, ws, rfl, rfl, h⟩)
  all_goals simp_all

theorem Value.eq_of_same {v w : Value} (h : v.same w = true)
    (hnested : ∀ a, v ≠ .nested a) (harray : ∀ vs, v ≠ .array vs) : w = v := by
  rcases Value.same_cases h with ⟨a, _, ha, _⟩ | ⟨vs, _, hvs, _⟩ | heq
  · exact absurd ha (hnested a)
  · exact absurd hvs (harray vs)
  · exact heq

-- ---------------------------------------------------------------------------
-- Transitivity
-- ---------------------------------------------------------------------------

mutual
theorem FieldType.same_trans : (t : FieldType) → {u v : FieldType} → t.same u = true →
    u.same v = true → t.same v = true
  | .nested d, u, v, h, h' => by
    cases u <;> simp only [FieldType.same, Bool.false_eq_true] at h
    cases v <;> simp only [FieldType.same, Bool.false_eq_true] at h'
    exact d.same_trans h h'
  | .array c, u, v, h, h' => by
    cases u <;> simp only [FieldType.same, Bool.false_eq_true] at h
    cases v <;> simp only [FieldType.same, Bool.false_eq_true] at h'
    exact c.same_trans h h'
  | .basic _, _, _, h, h' | .classToken, _, _, h, h' | .enum _, _, _, h, h'
  | .unknownArray, _, _, h, h' => FieldType.eq_of_same h nofun nofun ▸ h'
theorem Definition.same_trans : (d : Definition) → {e f : Definition} → d.same e = true →
    e.same f = true → d.same f = true
  | ⟨name, metas, none, source⟩, e, f, h, h' => by
    rw [Definition.same_iff] at h h' ⊢
    obtain ⟨hn, hm, ht⟩ := h
    obtain ⟨hn', hm', ht'⟩ := h'
    refine ⟨hn.trans hn', ?_, ?_⟩
    · rw [AnnotationSet.same_iff] at hm hm' ⊢
      exact ⟨hm.1.trans hm'.1, AnnotationSet.matched_trans metas hm.2 hm'.2⟩
    · simp only [Definition.fieldTable, Option.getD_none, FieldType.sameTable_nil_left,
        List.isEmpty_iff] at ht ht' ⊢
      simpa [ht, FieldType.sameTable_nil_left] using ht'
  | ⟨name, metas, some fields, source⟩, e, f, h, h' => by
    rw [Definition.same_iff] at h h' ⊢
    obtain ⟨hn, hm, ht⟩ := h
    obtain ⟨hn', hm', ht'⟩ := h'
    refine ⟨hn.trans hn', ?_, FieldType.sameTable_trans fields ht ht'⟩
    rw [AnnotationSet.same_iff] at hm hm' ⊢
    exact ⟨hm.1.trans hm'.1, AnnotationSet.matched_trans metas hm.2 hm'.2⟩
theorem Annotation.same_trans : (a : Annotation) → {b c : Annotation} → a.same b = true →
    b.same c = true → a.same c = true
  | ⟨definition, values⟩, b, c, h, h' => by
    obtain ⟨hd, hv⟩ := Annotation.same_iff.mp h
    obtain ⟨hd', hv'⟩ := Annotation.same_iff.mp h'
    have hvalues := Value.sameTable_trans values hv hv'
    exact Annotation.same_iff.mpr ⟨definition.same_trans hd hd', hvalues⟩
theorem Value.same_trans : (v : Value) → {w x : Value} → v.same w = true → w.same x = true →
    v.same x = true
  | .nested a, w, x, h, h' => by
    cases w <;> simp only [Value.same, Bool.false_eq_true] at h
    cases x <;> simp only [Value.same, Bool.false_eq_true] at h'
    exact a.same_trans h h'
  | .array vs, w, x, h, h' => by
    cases w <;> simp only [Value.same, Bool.false_eq_true] at h
    cases x <;> simp only [Value.same, Bool.false_eq_true] at h'
    exact Value.sameList_trans vs h h'
  | .byte _, _, _, h, h' | .short _, _, _, h, h' | .char _, _, _, h, h' | .int _, _, _, h, h'
  | .long _, _, _, h, h' | .float _, _, _, h, h' | .double _, _, _, h, h'
  | .boolean _, _, _, h, h' | .string _, _, _, h, h' | .classToken _, _, _, h, h'
  | .enum _ _, _, _, h, h' => Value.eq_of_same h nofun nofun ▸ h'
theorem AnnotationSet.matched_trans : (l : List Annotation) → {s t : List Annotation} →
    (∀ a ∈ l, ∃ b ∈ s, a.same b = true) → (∀ b ∈ s, ∃ c ∈ t, b.same c = true) →
    ∀ a ∈ l, ∃ c ∈ t, a.same c = true
  | [], _, _, _, _ => fun _ ha => nomatch ha
  | a :: rest, s, t, h, h' => by
    obtain ⟨ha, hrest⟩ := List.forall_mem_cons.mp h
    refine List.forall_mem_cons.mpr ⟨?_, AnnotationSet.matched_trans rest hrest h'⟩
    obtain ⟨b, hb, hab⟩ := ha
    obtain ⟨c, hc, hbc⟩ := h' b hb
    exact ⟨c, hc, a.same_trans hab hbc⟩
theorem FieldType.sameTable_trans : (t : List (String × FieldType)) →
    {u v : List (String × FieldType)} → FieldType.sameTable t u = true →
    FieldType.sameTable u v = true → FieldType.sameTable t v = true
  | [], u, v, h, h' => by
    cases u <;> cases v <;> simp_all [FieldType.sameTable]
  | (n, t) :: rest, u, v, h, h' => by
    cases u <;> simp only [FieldType.sameTable, Bool.false_eq_true] at h
    cases v <;> simp only [FieldType.sameTable, Bool.false_eq_true] at h'
    simp only [Bool.and_eq_true, beq_iff_eq] at h h'
    simp [FieldType.sameTable, h.1.1.trans h'.1.1, t.same_trans h.1.2 h'.1.2,
      FieldType.sameTable_trans rest h.2 h'.2]
theorem Value.sameTable_trans : (t : List (String × Value)) → {u v : List (String × Value)} →
    Value.sameTable t u = true → Value.sameTable u v = true → Value.sameTable t v = true
  | [], u, v, h, h' => by
    cases u <;> cases v <;> simp_all [Value.sameTable]
  | (n, t) :: rest, u, v, h, h' => by
    cases u <;> simp only [Value.sameTable, Bool.false_eq_true] at h
    cases v <;> simp only [Value.sameTable, Bool.false_eq_true] at h'
    simp only [Bool.and_eq_true, beq_iff_eq] at h h'
    simp [Value.sameTable, h.1.1.trans h'.1.1, t.same_trans h.1.2 h'.1.2,
      Value.sameTable_trans rest h.2 h'.2]
theorem Value.sameList_trans : (l : List Value) → {m n : List Value} →
    Value.sameList l m = true → Value.sameList m n = true → Value.sameList l n = true
  | [], m, n, h, h' => by
    cases m <;> cases n <;> simp_all [Value.sameList]
  | v :: rest, m, n, h, h' => by
    cases m <;> simp only [Value.sameList, Bool.false_eq_true] at h
    cases n <;> simp only [Value.sameList, Bool.false_eq_true] at h'
    simp only [Bool.and_eq_true] at h h'
    simp [Value.sameList, v.same_trans h.1 h'.1, Value.sameList_trans rest h.2 h'.2]
end

-- ---------------------------------------------------------------------------
-- Symmetry
-- ---------------------------------------------------------------------------

/-- Nothing is the same as two members of a set, where sameness of the members is symmetric. -/
theorem AnnotationSet.apart_of_mem {s : AnnotationSet} (hw : AnnotationSet.WellFormed s)
    (hsymm : ∀ a ∈ s, ∀ b, a.same b = true → b.same a = true) :
    s.Pairwise fun a a' => ∀ b, a.same b = true → ¬ a'.same b = true := by
  refine (AnnotationSet.wellFormed_iff.mp hw).2.imp_of_mem ?_
  intro a a' _ ha' hne b hab hab'
  have haa' : a.same a' = true := a.same_trans hab (hsymm a' ha' b hab')
  simp [haa'] at hne

theorem AnnotationSet.same_symm_of_mem {s t : AnnotationSet} (hw : AnnotationSet.WellFormed s)
    (hsymm : ∀ a ∈ s, ∀ b, a.same b = true → b.same a = true)
    (h : AnnotationSet.same s t = true) : AnnotationSet.same t s = true := by
  rw [AnnotationSet.same_iff] at h ⊢
  obtain ⟨hlen, hl⟩ := h
  refine ⟨hlen.symm, fun b hb => ?_⟩
  obtain ⟨a, ha, hab⟩ := covered_of_matched hlen (AnnotationSet.apart_of_mem hw hsymm) hl b hb
  exact ⟨a, ha, hsymm a ha b hab⟩

mutual
theorem FieldType.same_symm : (t : FieldType) → t.WellFormed → {u : FieldType} →
    t.same u = true → u.same t = true
  | .nested d, hw, u, h => by
    cases u <;> simp only [FieldType.same, Bool.false_eq_true] at h
    exact d.same_symm hw h
  | .array c, hw, u, h => by
    cases u <;> simp only [FieldType.same, Bool.false_eq_true] at h
    exact c.same_symm hw h
  | .basic _, _, _, h | .classToken, _, _, h | .enum _, _, _, h | .unknownArray, _, _, h =>
    FieldType.eq_of_same h nofun nofun ▸ FieldType.same_refl _
theorem Definition.same_symm : (d : Definition) → d.WellFormed → {e : Definition} →
    d.same e = true → e.same d = true
  | ⟨name, metas, none, source⟩, hw, e, h => by
    rw [Definition.same_iff] at h ⊢
    obtain ⟨hn, hm, ht⟩ := h
    have hm' := AnnotationSet.same_symm_of_mem hw (AnnotationSet.forall_mem_symm metas hw) hm
    refine ⟨hn.symm, hm', ?_⟩
    simp only [Definition.fieldTable, Option.getD_none, FieldType.sameTable_nil_left,
      List.isEmpty_iff] at ht ⊢
    simp [ht, FieldType.sameTable]
  | ⟨name, metas, some fields, source⟩, hw, e, h => by
    rw [Definition.same_iff] at h ⊢
    obtain ⟨hn, hm, ht⟩ := h
    exact ⟨hn.symm,
      AnnotationSet.same_symm_of_mem hw.1 (AnnotationSet.forall_mem_symm metas hw.1) hm,
      FieldType.sameTable_symm fields hw.2 ht⟩
theorem Annotation.same_symm : (a : Annotation) → a.WellFormed → {b : Annotation} →
    a.same b = true → b.same a = true
  | ⟨definition, values⟩, hw, b, h => by
    obtain ⟨hd, hv⟩ := Annotation.same_iff.mp h
    have hvalues := Value.sameTable_symm values hw.2 hv
    exact Annotation.same_iff.mpr ⟨definition.same_symm hw.1 hd, hvalues⟩
theorem Value.same_symm : (v : Value) → v.WellFormed → {w : Value} → v.same w = true →
    w.same v = true
  | .nested a, hw, w, h => by
    cases w <;> simp only [Value.same, Bool.false_eq_true] at h
    exact a.same_symm hw h
  | .array vs, hw, w, h => by
    cases w <;> simp only [Value.same, Bool.false_eq_true] at h
    exact Value.sameList_symm vs hw h
  | .byte _, _, _, h | .short _, _, _, h | .char _, _, _, h | .int _, _, _, h | .long _, _, _, h
  | .float _, _, _, h | .double _, _, _, h | .boolean _, _, _, h | .string _, _, _, h
  | .classToken _, _, _, h | .enum _ _, _, _, h =>
    Value.eq_of_same h nofun nofun ▸ Value.same_refl _
theorem AnnotationSet.forall_mem_symm : (l : List Annotation) → AnnotationSet.WellFormed l →
    ∀ a ∈ l, ∀ b, a.same b = true → b.same a = true
  | [], _ => fun _ ha => nomatch ha
  | a :: rest, hw => by
    refine List.forall_mem_cons.mpr ⟨fun b h => a.same_symm hw.1 h, ?_⟩
    exact AnnotationSet.forall_mem_symm rest hw.2.2
theorem FieldType.sameTable_symm : (t : List (String × FieldType)) →
    FieldType.WellFormedTable t → {u : List (String × FieldType)} →
    FieldType.sameTable t u = true → FieldType.sameTable u t = true
  | [], _, u, h => by
    cases u <;> simp_all [FieldType.sameTable]
  | (n, t) :: rest, hw, u, h => by
    cases u <;> simp only [FieldType.sameTable, Bool.false_eq_true] at h
    simp only [Bool.and_eq_true, beq_iff_eq] at h
    simp [FieldType.sameTable, h.1.1, t.same_symm hw.1 h.1.2,
      FieldType.sameTable_symm rest hw.2 h.2]
theorem Value.sameTable_symm : (t : List (String × Value)) → Value.WellFormedTable t →
    {u : List (String × Value)} → Value.sameTable t u = true → Value.sameTable u t = true
  | [], _, u, h => by
    cases u <;> simp_all [Value.sameTable]
  | (n, v) :: rest, hw, u, h => by
    cases u <;> simp only [Value.sameTable, Bool.false_eq_true] at h
    simp only [Bool.and_eq_true, beq_iff_eq] at h
    simp [Value.sameTable, h.1.1, v.same_symm hw.1 h.1.2, Value.sameTable_symm rest hw.2 h.2]
theorem Value.sameList_symm : (l : List Value) → Value.WellFormedList l → {m : List Value} →
    Value.sameList l m = true → Value.sameList m l = true
  | [], _, m, h => by
    cases m <;> simp_all [Value.sameList]
  | v :: rest, hw, m, h => by
    cases m <;> simp only [Value.sameList, Bool.false_eq_true] at h
    simp only [Bool.and_eq_true] at h
    simp [Value.sameList, v.same_symm hw.1 h.1, Value.sameList_symm rest hw.2 h.2]
end

theorem AnnotationSet.same_refl (s : AnnotationSet) : AnnotationSet.same s s = true :=
  AnnotationSet.same_iff.mpr ⟨rfl, fun a ha => ⟨a, ha, a.same_refl⟩⟩

theorem AnnotationSet.same_symm {s t : AnnotationSet} (hw : AnnotationSet.WellFormed s)
    (h : AnnotationSet.same s t = true) : AnnotationSet.same t s = true :=
  AnnotationSet.same_symm_of_mem hw (AnnotationSet.forall_mem_symm s hw) h

theorem AnnotationSet.same_trans {s t u : AnnotationSet} (h : AnnotationSet.same s t = true)
    (h' : AnnotationSet.same t u = true) : AnnotationSet.same s u = true := by
  rw [AnnotationSet.same_iff] at h h' ⊢
  exact ⟨h.1.trans h'.1, AnnotationSet.matched_trans s h.2 h'.2⟩

theorem AnnotationSet.WellFormed.apart {s : List Annotation} (hw : AnnotationSet.WellFormed s) :
    s.Pairwise fun a b => a.same b = false ∧ b.same a = false := by
  obtain ⟨hall, hapart⟩ := AnnotationSet.wellFormed_iff.mp hw
  refine hapart.imp_of_mem fun {a b} _ hb hab => ⟨hab, ?_⟩
  cases hba : b.same a with
  | false => rfl
  | true => exact (b.same_symm (hall b hb) hba).symm.trans hab

end AnnotationScene
