import AnnotationScene.Element.Edit
import AnnotationScene.Proofs.Pruning
import AnnotationScene.Proofs.Reordering

/-!
# Sameness is a congruence

Same elements are vacuous together: the sets that are compared have the same sizes, and every entry
of a map has its like in the other. So pruning drops the same keys from both, and what it keeps is
the same again.
-/

namespace AnnotationScene

-- ---------------------------------------------------------------------------
-- Vacuity
-- ---------------------------------------------------------------------------

theorem AnnotationSet.isEmpty_of_same {s t : AnnotationSet} (h : AnnotationSet.same s t = true)
    (ht : t.isEmpty = true) : s.isEmpty = true := by
  rw [List.isEmpty_iff] at ht ⊢
  subst ht
  exact List.length_eq_zero_iff.mp (AnnotationSet.same_iff.mp h).1

theorem Header.isVacuous_of_same {k : Kind} {g h : Header k} (hs : g.same h = true)
    (hv : h.isVacuous = true) : g.isVacuous = true := by
  rw [Header.same, Bool.and_eq_true] at hs
  rw [Header.isVacuous, Bool.and_eq_true] at hv ⊢
  exact ⟨hv.1, AnnotationSet.isEmpty_of_same hs.2 hv.2⟩

mutual
theorem Element.isVacuous_of_same {k : Kind} : (e : Element k) → {f : Element k} →
    e.same f = true → f.isVacuous = true → e.isVacuous = true
  | .mk header parts, .mk header' parts', h, hv => by
    simp only [Element.same, Element.isVacuous, Bool.and_eq_true] at h hv ⊢
    exact ⟨Header.isVacuous_of_same h.1 hv.1, parts.isVacuous_of_same h.2 hv.2⟩
theorem Parts.isVacuous_of_same {layout : List Slot} : (p : Parts layout) →
    {q : Parts layout} → p.same q = true → q.isVacuous = true → p.isVacuous = true
  | .nil, .nil, _, _ => rfl
  | .fixed c more, .fixed c' more', h, hv | .present c more, .present c' more', h, hv => by
    simp only [Parts.same, Parts.isVacuous, Bool.and_eq_true] at h hv ⊢
    exact ⟨c.isVacuous_of_same h.1 hv.1, more.isVacuous_of_same h.2 hv.2⟩
  | .absent more, .absent more', h, hv => more.isVacuous_of_same h hv
  | .keyed entries more, .keyed entries' more', h, hv => by
    simp only [Parts.same, Parts.isVacuous, Bool.and_eq_true] at h hv ⊢
    exact ⟨entries.isVacuous_of_within h.1.2 hv.1, more.isVacuous_of_same h.2 hv.2⟩
  | .contracts set more, .contracts set' more', h, hv => by
    simp only [Parts.same, Parts.isVacuous, Bool.and_eq_true] at h hv ⊢
    exact ⟨AnnotationSet.isEmpty_of_same h.1 hv.1, more.isVacuous_of_same h.2 hv.2⟩
theorem Entries.isVacuous_of_within {m : ChildMap} : (e : Entries m) → {f : Entries m} →
    e.within f = true → f.isVacuous = true → e.isVacuous = true
  | .nil, _, _, _ => rfl
  | .cons key c more, f, h, hv => by
    rw [Entries.within, Bool.and_eq_true] at h
    obtain ⟨hc, hmore⟩ := h
    cases hget : f.get? key with
    | none => simp [hget] at hc
    | some c' =>
      simp only [hget] at hc
      rw [Entries.isVacuous, Bool.and_eq_true]
      exact ⟨c.isVacuous_of_same hc (f.isVacuous_of_get? hv hget),
        more.isVacuous_of_within hmore hv⟩
end

theorem Element.isVacuous_eq_of_same {k : Kind} {e f : Element k} (hw : e.WellFormed)
    (h : e.same f = true) : e.isVacuous = f.isVacuous := by
  rw [Bool.eq_iff_iff]
  exact ⟨f.isVacuous_of_same (e.same_symm hw h), e.isVacuous_of_same h⟩

-- ---------------------------------------------------------------------------
-- Pruning
-- ---------------------------------------------------------------------------

mutual
theorem Element.wellFormed_prune {k : Kind} : (e : Element k) → e.WellFormed →
    e.prune.WellFormed
  | .mk header parts, hw => by
    rw [Element.prune]
    split
    next => exact hw
    next => exact ⟨hw.1, parts.wellFormed_prune hw.2⟩
theorem Parts.wellFormed_prune {layout : List Slot} : (p : Parts layout) → p.WellFormed →
    p.prune.WellFormed
  | .nil, _ => trivial
  | .fixed c more, hw | .present (o := .type) c more, hw =>
    ⟨c.wellFormed_prune hw.1, more.wellFormed_prune hw.2⟩
  | .absent more, hw => more.wellFormed_prune hw
  | .present (o := .init) c more, hw => by
    rw [Parts.prune]
    split
    next => exact more.wellFormed_prune hw.2
    next => exact ⟨c.wellFormed_prune hw.1, more.wellFormed_prune hw.2⟩
  | .keyed entries more, hw => ⟨entries.wellFormed_prune hw.1, more.wellFormed_prune hw.2⟩
  | .contracts _ more, hw => ⟨hw.1, more.wellFormed_prune hw.2⟩
theorem Entries.wellFormed_prune {m : ChildMap} : (e : Entries m) → e.WellFormed →
    e.prune.WellFormed
  | .nil, _ => trivial
  | .cons key c more, hw => by
    rw [Entries.prune]
    split
    next => exact more.wellFormed_prune hw.2.2
    next =>
      refine ⟨fun hkey => ?_, c.wellFormed_prune hw.2.1, more.wellFormed_prune hw.2.2⟩
      obtain ⟨d, hd⟩ := Entries.mem_keys_iff.mp hkey
      rw [Entries.get?_prune hw.2.2] at hd
      obtain ⟨c', hc', -⟩ := Option.bind_eq_some_iff.mp hd
      exact hw.1 (Entries.mem_keys_of_get? hc')
end

/-- An entry is dropped from both maps or from neither. -/
theorem Entries.prune_same_of_mem {m : ChildMap} {e f : Entries m} (he : e.WellFormed)
    (hf : f.WellFormed) (h : e.same f = true)
    (hmem : ∀ x ∈ e.toList, ∀ d, d.WellFormed → x.2.same d = true →
      x.2.prune.same d.prune = true) : e.prune.same f.prune = true := by
  rw [Entries.same_iff_get? (e.wellFormed_prune he) (f.wellFormed_prune hf)]
  intro key
  have hkey := (Entries.same_iff_get? he hf).mp h key
  rw [Entries.get?_prune he, Entries.get?_prune hf]
  cases hc : e.get? key with
  | none =>
    cases hd : f.get? key with
    | none => exact .none
    | some d =>
      rw [hc, hd] at hkey
      cases hkey
  | some c =>
    cases hd : f.get? key with
    | none =>
      rw [hc, hd] at hkey
      cases hkey
    | some d =>
      rw [hc, hd, Option.rel_some_some] at hkey
      simp only [Option.bind_some, Element.isVacuous_eq_of_same (he.get? hc) hkey]
      split
      next => exact .none
      next =>
        exact .some (hmem (key, c) (OrderedMap.mem_entries_of_get? hc) d (hf.get? hd) hkey)

mutual
theorem Element.prune_same {k : Kind} : (e : Element k) → e.WellFormed → {f : Element k} →
    f.WellFormed → e.same f = true → e.prune.same f.prune = true
  | .mk header parts, hw, .mk header' parts', hw', h => by
    rw [Element.prune, Element.prune]
    split
    next => exact h
    next =>
      rw [Element.same, Bool.and_eq_true] at h ⊢
      exact ⟨h.1, parts.prune_same hw.2 hw'.2 h.2⟩
theorem Parts.prune_same {layout : List Slot} : (p : Parts layout) → p.WellFormed →
    {q : Parts layout} → q.WellFormed → p.same q = true → p.prune.same q.prune = true
  | .nil, _, .nil, _, _ => rfl
  | .fixed c more, hw, .fixed c' more', hw', h => by
    rw [Parts.same, Bool.and_eq_true] at h
    rw [Parts.prune, Parts.prune, Parts.same, Bool.and_eq_true]
    exact ⟨c.prune_same hw.1 hw'.1 h.1, more.prune_same hw.2 hw'.2 h.2⟩
  | .absent more, hw, .absent more', hw', h => more.prune_same hw hw' h
  | .present (o := .type) c more, hw, .present c' more', hw', h => by
    rw [Parts.same, Bool.and_eq_true] at h
    rw [Parts.prune, Parts.prune, Parts.same, Bool.and_eq_true]
    exact ⟨c.prune_same hw.1 hw'.1 h.1, more.prune_same hw.2 hw'.2 h.2⟩
  | .present (o := .init) c more, hw, .present c' more', hw', h => by
    rw [Parts.same, Bool.and_eq_true] at h
    simp only [Parts.prune, Element.isVacuous_prune, Element.isVacuous_eq_of_same hw.1 h.1]
    split
    next => exact more.prune_same hw.2 hw'.2 h.2
    next =>
      rw [Parts.same, Bool.and_eq_true]
      exact ⟨c.prune_same hw.1 hw'.1 h.1, more.prune_same hw.2 hw'.2 h.2⟩
  | .keyed entries more, hw, .keyed entries' more', hw', h => by
    obtain ⟨hsame, hmore⟩ := (Parts.same_cons _ _).mp h
    refine (Parts.same_cons _ _).mpr ⟨?_, more.prune_same hw.2 hw'.2 hmore⟩
    exact Entries.prune_same_of_mem hw.1 hw'.1 hsame (entries.prune_same_mem hw.1)
  | .contracts set more, hw, .contracts set' more', hw', h => by
    rw [Parts.same, Bool.and_eq_true] at h
    rw [Parts.prune, Parts.prune, Parts.same, Bool.and_eq_true]
    exact ⟨h.1, more.prune_same hw.2 hw'.2 h.2⟩
theorem Entries.prune_same_mem {m : ChildMap} : (e : Entries m) → e.WellFormed →
    ∀ x ∈ e.toList, ∀ d, d.WellFormed → x.2.same d = true → x.2.prune.same d.prune = true
  | .nil, _ => fun _ hx => nomatch hx
  | .cons _ c more, hw =>
    List.forall_mem_cons.mpr
      ⟨fun _ hd h => c.prune_same hw.2.1 hd h, more.prune_same_mem hw.2.2⟩
end

-- ---------------------------------------------------------------------------
-- Scenes
-- ---------------------------------------------------------------------------

namespace Scene

variable {s t : Scene}

theorem isEmpty_eq_parts (s : Scene) : s.isEmpty = s.parts.isVacuous := by
  simp only [isEmpty, parts, Parts.isVacuous, Bool.and_true]

theorem isEmpty_of_same (h : s.same t = true) (ht : t.isEmpty = true) : s.isEmpty = true := by
  rw [isEmpty_eq_parts] at ht ⊢
  rw [same_eq_parts] at h
  exact s.parts.isVacuous_of_same h ht

theorem prune_same {s t : Valid} (h : s.same t = true) : s.prune.same t.prune = true := by
  rw [same_eq_parts] at h ⊢
  exact s.parts.prune_same s.wellFormed.parts t.wellFormed.parts h

def Valid.pruned (s : Valid) : Valid where
  toScene := s.prune
  wellFormed :=
    ⟨s.packages.wellFormed_prune s.wellFormed.1, s.classes.wellFormed_prune s.wellFormed.2⟩

/-- Sameness of well-formed scenes is an equivalence that no order of entries or members matters
to, on either side; being empty and being pruned respect it. -/
theorem same_isCongruence :
    Equivalence (fun s t : Valid => s.same t = true) ∧
    (∀ (s t : Valid) (s' t' : Scene), s.Reordered s' → t.Reordered t' →
      s'.WellFormed ∧ t'.WellFormed ∧ s'.same t' = s.same t) ∧
    (∀ s t : Valid, s.same t = true →
      s.isEmpty = t.isEmpty ∧ s.prune.WellFormed ∧ t.prune.WellFormed ∧
        s.prune.same t.prune = true) := by
  refine ⟨⟨?_, ?_, ?_⟩, ?_, ?_⟩
  · intro s
    exact same_refl s.wellFormed
  · intro s t h
    exact same_symm s.wellFormed h
  · intro s t u h h'
    exact same_trans h h'
  · intro s t s' t' hss' htt'
    obtain ⟨hsame, hs'⟩ := hss'.keeps s.wellFormed
    obtain ⟨hsame', ht'⟩ := htt'.keeps t.wellFormed
    exact ⟨hs', ht', (same_congr hsame hsame').symm⟩
  · intro s t h
    refine ⟨Bool.eq_iff_iff.mpr ⟨?_, isEmpty_of_same h⟩, s.pruned.wellFormed, t.pruned.wellFormed,
      prune_same h⟩
    exact isEmpty_of_same (same_symm s.wellFormed h)

theorem same_isCongruence_reordered :
    let mark (name : String) : Annotation := .marker (.ofName name "p")
    let owned (marks : List Annotation) : Annotation := .marker ⟨"A", marks, none, "p"⟩
    let owner (set : AnnotationSet) := (Element.classType "C").withAnnotations set
    let c := owner [owned [mark "M", mark "N"], mark "B"]
    let c' := owner [mark "B", owned [mark "N", mark "M"]]
    let d := Element.classType "D"
    let s : Scene := { classes := .cons "C" c (.cons "D" d .nil) }
    let s' : Scene := { classes := .cons "D" d (.cons "C" c' .nil) }
    s.WellFormed ∧ s.Reordered s' ∧ s'.same s = true ∧ s'.isEmpty = s.isEmpty ∧
      s'.prune.same s.prune = true := by
  intro mark owned owner c c' d s s'
  have hw : s.WellFormed := by decide
  have hset : AnnotationSet.Reordered [owned [mark "M", mark "N"], mark "B"]
      [mark "B", owned [mark "N", mark "M"]] :=
    .cons (.mk (.ofName (.of_perm (List.Perm.swap _ _ _))) .nil) (.of_perm (List.Perm.refl _))
      (List.Perm.swap _ _ _)
  have howner : c.Reordered c' := .mk ⟨rfl, hset, rfl⟩ (.refl _)
  have hreordered : s.Reordered s' :=
    ⟨.nil, .cons howner (.of_perm (List.Perm.refl _)) (List.Perm.swap _ _ _), List.Perm.refl _⟩
  obtain ⟨hequiv, hreorder, hcongr⟩ := same_isCongruence
  obtain ⟨hw', -, hsame⟩ := hreorder ⟨s, hw⟩ ⟨s, hw⟩ s' s hreordered (.refl s)
  have hs : s'.same s = true := hsame.trans (hequiv.refl ⟨s, hw⟩)
  obtain ⟨hempty, -, -, hprune⟩ := hcongr ⟨s', hw'⟩ ⟨s, hw⟩ hs
  exact ⟨hw, hreordered, hs, hempty, hprune⟩

end Scene

end AnnotationScene
