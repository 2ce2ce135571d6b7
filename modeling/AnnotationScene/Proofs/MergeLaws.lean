import AnnotationScene.Proofs.Merging

/-!
# The laws of merging

Merging gives the least view that has both as parts, and fails where there is none. Everything
else follows from that alone: two ways to merge the same views have the same upper bounds, so they
fail together or give views that are the same.
-/

namespace AnnotationScene

-- ---------------------------------------------------------------------------
-- Partial joins
-- ---------------------------------------------------------------------------

/-- `join` finds the least upper bound of two valid values under the preorder `le`, and fails
exactly where they have no upper bound at all. -/
structure IsPartialJoin {α : Type} (Valid : α → Prop) (le : α → α → Prop)
    (join : α → α → Option α) : Prop where
  refl : ∀ a, le a a
  trans : ∀ {a b c}, le a b → le b c → le a c
  valid : ∀ {a b m}, Valid a → Valid b → join a b = some m → Valid m
  upper : ∀ {a b m}, Valid a → join a b = some m → le a m ∧ le b m
  least : ∀ {a b c}, Valid b → le a c → le b c → ∃ m, join a b = some m ∧ le m c

/-- Each way, what one result is, the other is below. -/
theorem agree_of_below {α : Type} {le : α → α → Prop} {x y : Option α}
    (hxy : ∀ m, x = some m → ∃ n, y = some n ∧ le n m)
    (hyx : ∀ n, y = some n → ∃ m, x = some m ∧ le m n) :
    Option.Rel (fun m n => le m n ∧ le n m) x y := by
  cases x with
  | none =>
    cases y with
    | none => exact .none
    | some n =>
      obtain ⟨m, hm, -⟩ := hyx n rfl
      cases hm
  | some m =>
    obtain ⟨n, rfl, hnm⟩ := hxy m rfl
    obtain ⟨m', hm', hmn⟩ := hyx n rfl
    cases hm'
    exact .some ⟨hmn, hnm⟩

namespace IsPartialJoin

variable {α : Type} {Valid : α → Prop} {le : α → α → Prop} {join : α → α → Option α}

/-- Whatever is above the one join is above the other if the values are. -/
theorem exists_below (h : IsPartialJoin Valid le join) {a b a' b' m : α} (ha : Valid a)
    (hb' : Valid b') (hm : join a b = some m) (hle : ∀ {c}, le a c → le b c → le a' c ∧ le b' c) :
    ∃ n, join a' b' = some n ∧ le n m := by
  obtain ⟨ham, hbm⟩ := h.upper ha hm
  obtain ⟨ham', hbm'⟩ := hle ham hbm
  exact h.least hb' ham' hbm'

theorem comm (h : IsPartialJoin Valid le join) {a b : α} (ha : Valid a) (hb : Valid b) :
    Option.Rel (fun m n => le m n ∧ le n m) (join a b) (join b a) := by
  apply agree_of_below
  · intro m hm
    exact h.exists_below ha ha hm fun hac hbc => ⟨hbc, hac⟩
  · intro n hn
    exact h.exists_below hb hb hn fun hbc hac => ⟨hac, hbc⟩

theorem assoc (h : IsPartialJoin Valid le join) {a b c : α} (ha : Valid a) (hb : Valid b)
    (hc : Valid c) : Option.Rel (fun m n => le m n ∧ le n m)
      ((join a b).bind (join · c)) ((join b c).bind (join a)) := by
  apply agree_of_below
  · intro m hm
    obtain ⟨x, hx, hm⟩ := Option.bind_eq_some_iff.mp hm
    obtain ⟨hax, hbx⟩ := h.upper ha hx
    obtain ⟨hxm, hcm⟩ := h.upper (h.valid ha hb hx) hm
    obtain ⟨y, hy, hym⟩ := h.least hc (h.trans hbx hxm) hcm
    obtain ⟨n, hn, hnm⟩ := h.least (h.valid hb hc hy) (h.trans hax hxm) hym
    exact ⟨n, Option.bind_eq_some_iff.mpr ⟨y, hy, hn⟩, hnm⟩
  · intro n hn
    obtain ⟨y, hy, hn⟩ := Option.bind_eq_some_iff.mp hn
    obtain ⟨hby, hcy⟩ := h.upper hb hy
    obtain ⟨han, hyn⟩ := h.upper ha hn
    obtain ⟨x, hx, hxn⟩ := h.least hb han (h.trans hby hyn)
    obtain ⟨m, hm, hmn⟩ := h.least hc hxn (h.trans hcy hyn)
    exact ⟨m, Option.bind_eq_some_iff.mpr ⟨x, hx, hm⟩, hmn⟩

theorem idem (h : IsPartialJoin Valid le join) {a : α} (ha : Valid a) :
    ∃ m, join a a = some m ∧ le m a ∧ le a m := by
  obtain ⟨m, hm, hma⟩ := h.least ha (h.refl a) (h.refl a)
  exact ⟨m, hm, hma, (h.upper ha hm).1⟩

theorem congr (h : IsPartialJoin Valid le join) {a a' b b' : α} (ha : Valid a) (ha' : Valid a')
    (hb : Valid b) (hb' : Valid b') (haa : le a a' ∧ le a' a) (hbb : le b b' ∧ le b' b) :
    Option.Rel (fun m n => le m n ∧ le n m) (join a b) (join a' b') := by
  apply agree_of_below
  · intro m hm
    exact h.exists_below ha hb' hm fun hac hbc => ⟨h.trans haa.2 hac, h.trans hbb.2 hbc⟩
  · intro n hn
    exact h.exists_below ha' hb hn fun hac hbc => ⟨h.trans haa.1 hac, h.trans hbb.1 hbc⟩

end IsPartialJoin

-- ---------------------------------------------------------------------------
-- The laws up to sameness
-- ---------------------------------------------------------------------------

/-- A merge that may fail. Two ways to merge agree when both fail or both give a result, and the
results are the same. -/
structure IsPartialMerge {α : Type} (Valid : α → Prop) (same : α → α → Bool)
    (merge : α → α → Option α) : Prop where
  comm : ∀ a b, Valid a → Valid b →
    Option.Rel (fun m n => same m n = true) (merge a b) (merge b a)
  assoc : ∀ a b c, Valid a → Valid b → Valid c →
    Option.Rel (fun m n => same m n = true)
      ((merge a b).bind fun m => merge m c) ((merge b c).bind fun m => merge a m)
  idem : ∀ a, Valid a → ∃ m, merge a a = some m ∧ same m a = true
  congr : ∀ a a' b b', Valid a → Valid a' → Valid b → Valid b' → same a a' = true →
    same b b' = true → Option.Rel (fun m n => same m n = true) (merge a b) (merge a' b')

/-- A partial join is a partial merge wherever the same is what is below each other. -/
theorem IsPartialJoin.isPartialMerge {α : Type} {Valid : α → Prop} {le : α → α → Prop}
    {join : α → α → Option α} {same : α → α → Bool} (h : IsPartialJoin Valid le join)
    (hsame : ∀ {a b}, Valid a → same a b = true → le a b ∧ le b a)
    (hantisymm : ∀ {a b}, le a b → le b a → same a b = true) :
    IsPartialMerge Valid same join := by
  have hrel : ∀ {x y : Option α}, Option.Rel (fun m n => le m n ∧ le n m) x y →
      Option.Rel (fun m n => same m n = true) x y := by
    intro x y hxy
    cases hxy with
    | none => exact .none
    | some hmn => exact .some (hantisymm hmn.1 hmn.2)
  refine ⟨?_, ?_, ?_, ?_⟩
  · intro a b ha hb
    exact hrel (h.comm ha hb)
  · intro a b c ha hb hc
    exact hrel (h.assoc ha hb hc)
  · intro a ha
    obtain ⟨m, hm, hma, ham⟩ := h.idem ha
    exact ⟨m, hm, hantisymm hma ham⟩
  · intro a a' b b' ha ha' hb hb' haa hbb
    exact hrel (h.congr ha ha' hb hb' (hsame ha haa) (hsame hb hbb))

theorem FieldType.unify?_isPartialJoin :
    IsPartialJoin FieldType.WellFormed FieldType.PartOf FieldType.unify? where
  refl := FieldType.PartOf.refl
  trans := FieldType.PartOf.trans
  valid ha hb h := FieldType.wellFormed_unify? _ ha hb h
  upper ha h := FieldType.partOf_unify? _ ha h
  least hb ha' hb' := FieldType.unify?_least _ hb ha' hb'

theorem Definition.unify?_isPartialJoin :
    IsPartialJoin Definition.WellFormed Definition.PartOf Definition.unify? where
  refl := Definition.PartOf.refl
  trans := Definition.PartOf.trans
  valid := Definition.wellFormed_unify?
  upper := Definition.partOf_unify?
  least := Definition.unify?_least

/-- Field types and definitions merge in any order and grouping, a view merges with itself to
itself, and only what a view says matters, not how it is written down. -/
theorem unify?_isPartialMerge :
    IsPartialMerge FieldType.WellFormed FieldType.same FieldType.unify? ∧
      IsPartialMerge Definition.WellFormed Definition.same Definition.unify? := by
  refine ⟨?_, ?_⟩
  · refine FieldType.unify?_isPartialJoin.isPartialMerge ?_ FieldType.PartOf.antisymm
    intro t u ht htu
    exact ⟨t.partOf_of_same htu, u.partOf_of_same (t.same_symm ht htu)⟩
  · refine Definition.unify?_isPartialJoin.isPartialMerge ?_ Definition.PartOf.antisymm
    intro d e hd hde
    exact ⟨d.partOf_of_same hde, e.partOf_of_same (d.same_symm hd hde)⟩

/-- What one view leaves open another fills in, whichever two are merged first. -/
theorem unify?_isPartialMerge_three_views :
    let a : Definition := ⟨"A", [], some [("x", .unknownArray)], "p"⟩
    let b : Definition := .ofName "A" "q"
    let c : Definition :=
      ⟨"A", [.marker (.ofName "M" "r")], some [("x", .array (.basic .int))], "r"⟩
    (a.WellFormed ∧ b.WellFormed ∧ c.WellFormed) ∧
      ((a.unify? b).bind fun m => m.unify? c).isSome ∧
      Option.Rel (fun m n => m.same n = true)
        ((a.unify? b).bind fun m => m.unify? c) ((b.unify? c).bind fun m => a.unify? m) := by
  intro a b c
  have ha : a.WellFormed := by decide
  have hb : b.WellFormed := by decide
  have hc : c.WellFormed := by decide
  exact ⟨⟨ha, hb, hc⟩, by decide, unify?_isPartialMerge.2.assoc a b c ha hb hc⟩

end AnnotationScene
