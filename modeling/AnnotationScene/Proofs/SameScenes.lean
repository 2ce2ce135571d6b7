import AnnotationScene.Proofs.Gathering
import AnnotationScene.Proofs.Sameness

/-!
# Sameness of scenes

Maps of children are compared as sets of annotations are, by size and by finding each entry of the
left in the right. Keys that are listed once make this symmetric. Scenes that are the same gather
the same annotations, each from the other.
-/

namespace AnnotationScene

theorem Detail.same_symm (k : Kind) {d e : Detail k} (h : Detail.same k d e = true) :
    Detail.same k e d = true := by
  cases k <;> simp_all [Detail.same]

theorem Header.same_symm {k : Kind} {g h : Header k} (hw : g.WellFormed) (hs : g.same h = true) :
    h.same g = true := by
  simp only [Header.same, Bool.and_eq_true] at hs ⊢
  exact ⟨Detail.same_symm k hs.1, AnnotationSet.same_symm hw hs.2⟩

namespace Entries

variable {m : ChildMap}

theorem keys_nodup : {e : Entries m} → e.WellFormed → e.keys.Nodup
  | .nil, _ => List.nodup_nil
  | .cons _ _ _, hw => List.nodup_cons.mpr ⟨hw.1, keys_nodup hw.2.2⟩

theorem within_iff : (e f : Entries m) → (e.within f = true ↔
    ∀ x ∈ e.toList, ∃ child, f.get? x.1 = some child ∧ x.2.same child = true)
  | .nil, _ => by simp [within, toList]
  | .cons key child more, f => by
    rw [within, toList, Bool.and_eq_true, List.forall_mem_cons, within_iff more f]
    refine and_congr_left fun _ => ?_
    cases f.get? key with
    | none =>
      constructor
      · intro h
        cases h
      · rintro ⟨_, h, _⟩
        cases h
    | some c =>
      constructor
      · intro h
        exact ⟨c, rfl, h⟩
      · rintro ⟨c', hc, h⟩
        exact Option.some.inj hc ▸ h

/-- Entries that are found in a map no larger are all that it has. -/
theorem within_symm_of_mem {e f : Entries m} (hw : e.WellFormed) (hsize : e.size = f.size)
    (hsymm : ∀ x ∈ e.toList, ∀ child, x.2.same child = true → child.same x.2 = true)
    (h : e.within f = true) : f.within e = true := by
  rw [within_iff] at h ⊢
  let r : m.Key × Element m.kind → m.Key × Element m.kind → Prop :=
    fun x y => x.1 = y.1 ∧ x.2.same y.2 = true
  have hkeys : e.toList.Pairwise fun x y => x.1 ≠ y.1 := List.pairwise_map.mp (keys_nodup hw)
  have hapart : e.toList.Pairwise fun x x' => ∀ y, r x y → ¬ r x' y :=
    hkeys.imp fun hne y hy hy' => hne (hy.1.trans hy'.1.symm)
  have hmatched : ∀ x ∈ e.toList, ∃ y ∈ f.toList, r x y := by
    intro x hx
    obtain ⟨child, hget, hsame⟩ := h x hx
    exact ⟨(x.1, child), OrderedMap.mem_entries_of_get? hget, rfl, hsame⟩
  intro y hy
  obtain ⟨x, hx, hkey, hsame⟩ := covered_of_matched hsize hapart hmatched y hy
  have hget : e.get? x.1 = some x.2 := OrderedMap.get?_of_mem_entries (keys_nodup hw) hx
  exact ⟨x.2, hkey ▸ hget, hsymm x hx y.2 hsame⟩

end Entries

-- ---------------------------------------------------------------------------
-- Reflexivity
-- ---------------------------------------------------------------------------

theorem Detail.same_refl (k : Kind) (d : Detail k) : Detail.same k d d = true := by
  cases k <;> simp [Detail.same]

theorem Header.same_refl {k : Kind} (h : Header k) : h.same h = true := by
  simp [Header.same, Detail.same_refl, AnnotationSet.same_refl]

mutual
theorem Element.same_refl {k : Kind} : (e : Element k) → e.WellFormed → e.same e = true
  | .mk header parts, hw => by
    simp only [Element.same, Bool.and_eq_true]
    exact ⟨header.same_refl, parts.same_refl hw.2⟩
theorem Parts.same_refl {layout : List Slot} : (p : Parts layout) → p.WellFormed →
    p.same p = true
  | .nil, _ => rfl
  | .fixed c more, hw | .present c more, hw => by
    simp only [Parts.same, Bool.and_eq_true]
    exact ⟨c.same_refl hw.1, more.same_refl hw.2⟩
  | .absent more, hw => by
    simp only [Parts.same]
    exact more.same_refl hw
  | .keyed entries more, hw => by
    simp only [Parts.same, Bool.and_eq_true, beq_self_eq_true, true_and]
    refine ⟨(Entries.within_iff entries entries).mpr fun x hx => ?_, more.same_refl hw.2⟩
    exact ⟨x.2, OrderedMap.get?_of_mem_entries (Entries.keys_nodup hw.1) hx,
      entries.same_refl_of_mem hw.1 x hx⟩
  | .contracts set more, hw => by
    simp only [Parts.same, Bool.and_eq_true]
    exact ⟨AnnotationSet.same_refl set, more.same_refl hw.2⟩
theorem Entries.same_refl_of_mem {m : ChildMap} : (e : Entries m) → e.WellFormed →
    ∀ x ∈ e.toList, x.2.same x.2 = true
  | .nil, _ => fun _ hx => nomatch hx
  | .cons _ c more, hw =>
    List.forall_mem_cons.mpr ⟨c.same_refl hw.2.1, more.same_refl_of_mem hw.2.2⟩
end

theorem Scene.same_eq_parts (s t : Scene) : s.same t = s.parts.same t.parts := by
  simp only [Scene.same, Entries.same, Scene.parts, Parts.same, Bool.and_true]

theorem Scene.same_refl {s : Scene} (hw : s.WellFormed) : s.same s = true := by
  rw [Scene.same_eq_parts]
  exact s.parts.same_refl hw.parts

-- ---------------------------------------------------------------------------
-- Symmetry
-- ---------------------------------------------------------------------------

mutual
theorem Element.same_symm {k : Kind} : (e : Element k) → e.WellFormed → {f : Element k} →
    e.same f = true → f.same e = true
  | .mk header parts, hw, .mk header' parts', h => by
    simp only [Element.same, Bool.and_eq_true] at h ⊢
    exact ⟨Header.same_symm hw.1 h.1, parts.same_symm hw.2 h.2⟩
theorem Parts.same_symm {layout : List Slot} : (p : Parts layout) → p.WellFormed →
    {q : Parts layout} → p.same q = true → q.same p = true
  | .nil, _, .nil, _ => rfl
  | .fixed c more, hw, .fixed c' more', h => by
    simp only [Parts.same, Bool.and_eq_true] at h ⊢
    exact ⟨c.same_symm hw.1 h.1, more.same_symm hw.2 h.2⟩
  | .absent more, hw, .absent more', h => by
    simp only [Parts.same] at h ⊢
    exact more.same_symm hw h
  | .present c more, hw, .present c' more', h => by
    simp only [Parts.same, Bool.and_eq_true] at h ⊢
    exact ⟨c.same_symm hw.1 h.1, more.same_symm hw.2 h.2⟩
  | .keyed entries more, hw, .keyed entries' more', h => by
    simp only [Parts.same, Bool.and_eq_true, beq_iff_eq] at h ⊢
    obtain ⟨⟨hsize, hwithin⟩, hmore⟩ := h
    refine ⟨⟨hsize.symm, ?_⟩, more.same_symm hw.2 hmore⟩
    exact Entries.within_symm_of_mem hw.1 hsize (entries.same_symm_of_mem hw.1) hwithin
  | .contracts set more, hw, .contracts set' more', h => by
    simp only [Parts.same, Bool.and_eq_true] at h ⊢
    exact ⟨AnnotationSet.same_symm hw.1 h.1, more.same_symm hw.2 h.2⟩
theorem Entries.same_symm_of_mem {m : ChildMap} : (e : Entries m) → e.WellFormed →
    ∀ x ∈ e.toList, ∀ child, x.2.same child = true → child.same x.2 = true
  | .nil, _ => fun _ hx => nomatch hx
  | .cons _ c more, hw =>
    List.forall_mem_cons.mpr ⟨fun _ h => c.same_symm hw.2.1 h, more.same_symm_of_mem hw.2.2⟩
end

theorem Entries.same_symm {m : ChildMap} {e f : Entries m} (hw : e.WellFormed)
    (h : e.same f = true) : f.same e = true := by
  simp only [Entries.same, Bool.and_eq_true, beq_iff_eq] at h ⊢
  exact ⟨h.1.symm, Entries.within_symm_of_mem hw h.1 (e.same_symm_of_mem hw) h.2⟩

theorem Scene.same_symm {s t : Scene} (hw : s.WellFormed) (h : s.same t = true) :
    t.same s = true := by
  simp only [Scene.same, Bool.and_eq_true] at h ⊢
  exact ⟨Entries.same_symm hw.1 h.1, Entries.same_symm hw.2 h.2⟩

-- ---------------------------------------------------------------------------
-- Transitivity
-- ---------------------------------------------------------------------------

theorem Detail.same_trans (k : Kind) {d e f : Detail k} (h : Detail.same k d e = true)
    (h' : Detail.same k e f = true) : Detail.same k d f = true := by
  cases k <;> simp_all [Detail.same]

theorem Header.same_trans {k : Kind} {g h i : Header k} (hgh : g.same h = true)
    (hhi : h.same i = true) : g.same i = true := by
  simp only [Header.same, Bool.and_eq_true] at hgh hhi ⊢
  exact ⟨Detail.same_trans k hgh.1 hhi.1, AnnotationSet.same_trans hgh.2 hhi.2⟩

theorem Entries.within_trans_of_mem {m : ChildMap} {e f g : Entries m}
    (htrans : ∀ x ∈ e.toList, ∀ c d, x.2.same c = true → c.same d = true → x.2.same d = true)
    (h : e.within f = true) (h' : f.within g = true) : e.within g = true := by
  rw [Entries.within_iff] at h h' ⊢
  intro x hx
  obtain ⟨c, hc, hxc⟩ := h x hx
  obtain ⟨d, hd, hcd⟩ := h' (x.1, c) (OrderedMap.mem_entries_of_get? hc)
  exact ⟨d, hd, htrans x hx c d hxc hcd⟩

mutual
theorem Element.same_trans {k : Kind} : (e : Element k) → {f g : Element k} →
    e.same f = true → f.same g = true → e.same g = true
  | .mk header parts, .mk header' parts', .mk header'' parts'', h, h' => by
    simp only [Element.same, Bool.and_eq_true] at h h' ⊢
    exact ⟨Header.same_trans h.1 h'.1, parts.same_trans h.2 h'.2⟩
theorem Parts.same_trans {layout : List Slot} : (p : Parts layout) → {q r : Parts layout} →
    p.same q = true → q.same r = true → p.same r = true
  | .nil, .nil, .nil, _, _ => rfl
  | .fixed c more, .fixed _ _, .fixed _ _, h, h' => by
    simp only [Parts.same, Bool.and_eq_true] at h h' ⊢
    exact ⟨c.same_trans h.1 h'.1, more.same_trans h.2 h'.2⟩
  | .absent more, .absent _, .absent _, h, h' => by
    simp only [Parts.same] at h h' ⊢
    exact more.same_trans h h'
  | .present c more, .present _ _, .present _ _, h, h' => by
    simp only [Parts.same, Bool.and_eq_true] at h h' ⊢
    exact ⟨c.same_trans h.1 h'.1, more.same_trans h.2 h'.2⟩
  | .keyed entries more, .keyed _ _, .keyed _ _, h, h' => by
    simp only [Parts.same, Bool.and_eq_true, beq_iff_eq] at h h' ⊢
    exact ⟨⟨h.1.1.trans h'.1.1,
      Entries.within_trans_of_mem entries.same_trans_of_mem h.1.2 h'.1.2⟩,
      more.same_trans h.2 h'.2⟩
  | .contracts set more, .contracts _ _, .contracts _ _, h, h' => by
    simp only [Parts.same, Bool.and_eq_true] at h h' ⊢
    exact ⟨AnnotationSet.same_trans h.1 h'.1, more.same_trans h.2 h'.2⟩
theorem Entries.same_trans_of_mem {m : ChildMap} : (e : Entries m) → ∀ x ∈ e.toList, ∀ c d,
    x.2.same c = true → c.same d = true → x.2.same d = true
  | .nil => fun _ hx => nomatch hx
  | .cons _ c more =>
    List.forall_mem_cons.mpr ⟨fun _ _ h h' => c.same_trans h h', more.same_trans_of_mem⟩
end

theorem Scene.same_trans {s t u : Scene} (h : s.same t = true) (h' : t.same u = true) :
    s.same u = true := by
  rw [Scene.same_eq_parts] at h h' ⊢
  exact s.parts.same_trans h h'

-- ---------------------------------------------------------------------------
-- What same scenes gather
-- ---------------------------------------------------------------------------

def AnnotationSet.Matched (l s : List Annotation) : Prop := ∀ a ∈ l, ∃ b ∈ s, a.same b = true

theorem AnnotationSet.Matched.append {l l' s s' : List Annotation} (h : AnnotationSet.Matched l s)
    (h' : AnnotationSet.Matched l' s') : AnnotationSet.Matched (l ++ l') (s ++ s') := by
  intro a ha
  rcases List.mem_append.mp ha with ha | ha
  · obtain ⟨b, hb, hab⟩ := h a ha
    exact ⟨b, List.mem_append_left _ hb, hab⟩
  · obtain ⟨b, hb, hab⟩ := h' a ha
    exact ⟨b, List.mem_append_right _ hb, hab⟩

theorem Parts.contractSet_matched {layout : List Slot} : (p : Parts layout) →
    {q : Parts layout} → p.same q = true → AnnotationSet.Matched p.contractSet q.contractSet
  | .nil, .nil, _ => fun _ ha => nomatch ha
  | .fixed _ more, .fixed _ _, h => more.contractSet_matched (Bool.and_eq_true_iff.mp h).2
  | .absent more, .absent _, h => more.contractSet_matched h
  | .present _ more, .present _ _, h => more.contractSet_matched (Bool.and_eq_true_iff.mp h).2
  | .keyed _ more, .keyed _ _, h => more.contractSet_matched (Bool.and_eq_true_iff.mp h).2
  | .contracts _ _, .contracts _ _, h =>
    (AnnotationSet.same_iff.mp (Bool.and_eq_true_iff.mp h).1).2

theorem Element.attached_matched {k : Kind} {e f : Element k} (h : e.same f = true) :
    AnnotationSet.Matched e.attached f.attached := by
  obtain ⟨header, parts⟩ := e
  obtain ⟨header', parts'⟩ := f
  simp only [Element.same, Header.same, Bool.and_eq_true] at h
  obtain ⟨⟨-, hset⟩, hparts⟩ := h
  exact .append (AnnotationSet.same_iff.mp hset).2 (parts.contractSet_matched hparts)

mutual
theorem Element.gather_matched {k : Kind} : (e : Element k) → {f : Element k} →
    e.same f = true → AnnotationSet.Matched e.gather f.gather
  | .mk header parts, .mk header' parts', h => by
    have hattached := Element.attached_matched h
    simp only [Element.same, Bool.and_eq_true] at h
    intro a ha
    rcases Element.mem_gather_iff.mp ha with ha | ha
    · obtain ⟨b, hb, hab⟩ := hattached a ha
      exact ⟨b, Element.mem_gather_iff.mpr (.inl hb), hab⟩
    · obtain ⟨b, hb, hab⟩ := parts.gathers_matched h.2 a ha
      exact ⟨b, Element.mem_gather_iff.mpr (.inr hb), hab⟩
theorem Parts.gathers_matched {layout : List Slot} : (p : Parts layout) → {q : Parts layout} →
    p.same q = true → AnnotationSet.Matched p.gathers.flatten q.gathers.flatten
  | .nil, .nil, _ => fun _ ha => nomatch ha
  | .fixed c more, .fixed c' more', h => by
    simp only [Parts.same, Bool.and_eq_true] at h
    exact .append (c.gather_matched h.1) (more.gathers_matched h.2)
  | .absent more, .absent more', h => by
    simp only [Parts.same] at h
    exact more.gathers_matched h
  | .present c more, .present c' more', h => by
    simp only [Parts.same, Bool.and_eq_true] at h
    exact .append (c.gather_matched h.1) (more.gathers_matched h.2)
  | .keyed entries more, .keyed entries' more', h => by
    simp only [Parts.same, Bool.and_eq_true] at h
    exact .append (entries.gather_matched h.1.2) (more.gathers_matched h.2)
  | .contracts set more, .contracts set' more', h => by
    simp only [Parts.same, Bool.and_eq_true] at h
    exact more.gathers_matched h.2
theorem Entries.gather_matched {m : ChildMap} : (e : Entries m) → {f : Entries m} →
    e.within f = true → AnnotationSet.Matched e.gather f.gather
  | .nil, _, _ => fun _ ha => nomatch ha
  | .cons key c more, f, h => by
    rw [Entries.within, Bool.and_eq_true] at h
    obtain ⟨hc, hmore⟩ := h
    cases hget : f.get? key with
    | none => simp [hget] at hc
    | some c' =>
      simp only [hget] at hc
      intro a ha
      rcases List.mem_append.mp ha with ha | ha
      · obtain ⟨b, hb, hab⟩ := c.gather_matched hc a ha
        exact ⟨b, f.gather_subset_of_get? hget hb, hab⟩
      · exact more.gather_matched hmore a ha
end

/-- What sits on an element of one scene has its like in any scene that is the same. -/
theorem Scene.Attaches.of_same {s t : Scene.Valid} (h : s.same t = true) {a : Annotation}
    (ha : s.Attaches a) : ∃ b, t.Attaches b ∧ a.same b = true := by
  simp only [Scene.same, Entries.same, Bool.and_eq_true] at h
  have hmatched : AnnotationSet.Matched s.gather t.gather :=
    .append (s.packages.gather_matched h.1.2) (s.classes.gather_matched h.2.2)
  obtain ⟨b, hb, hab⟩ := hmatched a (Scene.mem_gather_iff.mpr ha)
  exact ⟨b, Scene.mem_gather_iff.mp hb, hab⟩

end AnnotationScene
