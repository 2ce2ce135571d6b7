import AnnotationScene.Proofs.Fitting
import AnnotationScene.Proofs.Merging

/-!
# Merging refuses nothing that was accepted

Every step of merging two types is one that accepts more: a definition for another of its name, an
array of some elements for the empty one, and arrays of what accepts more. So a merged type accepts
what either of the two did, and a merged definition has the fields of both views. Nothing is
assumed of the views, not even that their sets list no two members that are the same.
-/

namespace AnnotationScene

def FieldType.Within (t u : FieldType) : Prop := ∀ v, t.accepts v = true → u.accepts v = true

/-- The fields of the one table are fields of the other, where they accept at least as much. -/
def FieldType.TableWithin (t u : List (String × FieldType)) : Prop :=
  ∀ name type, Table.get? t name = some type →
    ∃ wider, Table.get? u name = some wider ∧ type.Within wider

namespace FieldType

-- ---------------------------------------------------------------------------
-- One step
-- ---------------------------------------------------------------------------

theorem Within.refl (t : FieldType) : t.Within t := fun _ h => h

theorem within_nested {d e : Definition} (h : d.name = e.name) :
    Within (.nested d) (.nested e) := by
  intro v hv
  cases v <;> simp only [accepts, Bool.false_eq_true] at hv ⊢
  rw [← h]
  exact hv

theorem Within.array {c d : FieldType} (h : c.Within d) : Within (.array c) (.array d) := by
  intro v hv
  cases v <;> simp only [accepts, Bool.false_eq_true, List.all_eq_true] at hv ⊢
  exact fun w hw => h w (hv w hw)

/-- Only the empty array was accepted, and an array of any type may be empty. -/
theorem within_unknownArray (c : FieldType) : Within .unknownArray (.array c) := by
  intro v hv
  cases v <;> simp only [accepts, Bool.false_eq_true, List.isEmpty_iff] at hv ⊢
  rw [hv, List.all_nil]

-- ---------------------------------------------------------------------------
-- Types, tables and definitions
-- ---------------------------------------------------------------------------

theorem within_unify? (t : FieldType) {u m : FieldType} (h : t.unify? u = some m) :
    t.Within m ∧ u.Within m := by
  match t with
  | .nested d =>
    cases merges_of_unify? h with
    | nested hm =>
      obtain ⟨hd, he⟩ := Definition.name_unify? hm
      exact ⟨within_nested hd.symm, within_nested he.symm⟩
  | .array b =>
    cases merges_of_unify? h with
    | array hm =>
      obtain ⟨hb, hc⟩ := b.within_unify? hm
      exact ⟨hb.array, hc.array⟩
    | known => exact ⟨.refl _, within_unknownArray b⟩
  | .unknownArray =>
    cases merges_of_unify? h with
    | learned c => exact ⟨within_unknownArray c, .refl _⟩
    | unknownArray => exact ⟨.refl _, .refl _⟩
  | .basic _ | .classToken | .enum _ =>
    cases merges_of_unify? h
    exact ⟨.refl _, .refl _⟩

theorem TableWithin.refl (t : List (String × FieldType)) : TableWithin t t :=
  fun _ type h => ⟨type, h, .refl type⟩

theorem tableWithin_nil (u : List (String × FieldType)) : TableWithin [] u :=
  fun _ _ h => nomatch h

theorem TableWithin.cons {name : String} {type wider : FieldType}
    {rest others : List (String × FieldType)} (h : type.Within wider)
    (hrest : TableWithin rest others) :
    TableWithin ((name, type) :: rest) ((name, wider) :: others) := by
  intro n t ht
  rw [Table.get?_cons] at ht ⊢
  split at ht
  next hn => exact ⟨wider, if_pos hn, Option.some.inj ht ▸ h⟩
  next hn => simpa only [if_neg hn] using hrest n t ht

theorem tableWithin_of_same {t u : List (String × FieldType)} (h : sameTable t u = true) :
    TableWithin u t := by
  intro name type hu
  obtain ⟨wider, ht, hsame⟩ := get?_of_sameTable h hu
  exact ⟨wider, ht, fun v hv => (wider.accepts_of_same hsame v).trans hv⟩

theorem tableWithin_unifyTable? {t u m : List (String × FieldType)}
    (h : unifyTable? t u = some m) : TableWithin t m ∧ TableWithin u m := by
  induction t generalizing u m with
  | nil =>
    obtain ⟨rfl, rfl⟩ := unifyTable?_nil h
    exact ⟨.refl [], .refl []⟩
  | cons x rest ih =>
    cases u with
    | nil => simp [unifyTable?] at h
    | cons y others =>
      obtain ⟨hname, type, table, htype, htable, rfl⟩ := unifyTable?_cons_eq_some.mp h
      obtain ⟨hx, hy⟩ := x.2.within_unify? htype
      obtain ⟨hrest, hothers⟩ := ih htable
      exact ⟨hrest.cons hx, hname ▸ hothers.cons hy⟩

end FieldType

theorem Definition.tableWithin_unify? {d e m : Definition} (h : d.unify? e = some m) :
    FieldType.TableWithin d.fieldTable m.fieldTable ∧
      FieldType.TableWithin e.fieldTable m.fieldTable := by
  unfold Definition.unify? at h
  split at h
  next hsame =>
    obtain rfl := Option.some.inj h
    rw [Definition.isSame_eq] at hsame
    exact ⟨.refl _, FieldType.tableWithin_of_same (Definition.same_iff.mp hsame).2.2⟩
  next =>
    obtain ⟨-, -, -, hfields⟩ := Definition.merge?_cases h
    rcases hfields with ⟨hd, hm⟩ | ⟨he, hm⟩ | hm
    · rw [hd, hm]
      exact ⟨FieldType.tableWithin_nil _, .refl _⟩
    · rw [he, hm]
      exact ⟨.refl _, FieldType.tableWithin_nil _⟩
    · exact FieldType.tableWithin_unifyTable? hm

theorem Definition.mem_fieldNames_iff {d : Definition} {name : String} :
    name ∈ d.fieldNames ↔ ∃ type, d.fieldType? name = some type := by
  rw [Definition.fieldNames, Definition.fieldType?]
  induction d.fieldTable with
  | nil => simp [Table.get?]
  | cons x rest ih =>
    rw [Table.get?_cons, List.map_cons, List.mem_cons, ih]
    by_cases hx : x.1 = name
    · simp [hx]
    · simp [hx, Ne.symm hx]

/-- A merged type accepts what either type accepted. A merged definition has the fields of both
views, and each accepts at least what it accepted before. -/
theorem unify?_widens :
    (∀ (s t u : FieldType) (v : Value), s.unify? t = some u →
      s.accepts v = true ∨ t.accepts v = true → u.accepts v = true) ∧
    ∀ a b c : Definition, a.unify? b = some c → ∀ d ∈ [a, b], ∀ name ∈ d.fieldNames,
      name ∈ c.fieldNames ∧ ∃ type wider, d.fieldType? name = some type ∧
        c.fieldType? name = some wider ∧ ∀ v, type.accepts v = true → wider.accepts v = true := by
  refine ⟨fun s t u v h hv => ?_, fun a b c h d hd name hname => ?_⟩
  · obtain ⟨hs, ht⟩ := s.within_unify? h
    exact hv.elim (hs v) (ht v)
  · obtain ⟨ha, hb⟩ := Definition.tableWithin_unify? h
    have hwithin : FieldType.TableWithin d.fieldTable c.fieldTable := by
      rcases List.mem_pair.mp hd with rfl | rfl
      · exact ha
      · exact hb
    obtain ⟨type, htype⟩ := Definition.mem_fieldNames_iff.mp hname
    obtain ⟨wider, hwider, haccepts⟩ := hwithin name type htype
    exact ⟨Definition.mem_fieldNames_iff.mpr ⟨wider, hwider⟩, type, wider, htype, hwider, haccepts⟩

/-- Each view knows the elements of one field, and the other only that of empty arrays. -/
theorem unify?_widens_crosswise :
    let rows := FieldType.array (.array (.basic .int))
    let emptyRows := FieldType.array .unknownArray
    let left : Definition := ⟨"A", [], some [("x", emptyRows), ("y", rows)], "p"⟩
    let right : Definition := ⟨"A", [], some [("x", rows), ("y", .unknownArray)], "q"⟩
    let noRow : Value := .array []
    let twoRows : Value := .array [.array [], .array []]
    (emptyRows.accepts twoRows = true ∧ emptyRows.unify? rows = some rows ∧
        rows.accepts twoRows = true) ∧
      ∃ c, left.unify? right = some c ∧ ("x" ∈ left.fieldNames ∧ "x" ∈ c.fieldNames) ∧
        ("y" ∈ right.fieldNames ∧ "y" ∈ c.fieldNames) ∧
        ∃ wider, c.fieldType? "y" = some wider ∧ wider.accepts noRow = true := by
  intro rows emptyRows left right noRow twoRows
  obtain ⟨htypes, hdefinitions⟩ := unify?_widens
  have hrows : emptyRows.unify? rows = some rows := by rfl
  have hempty : emptyRows.accepts twoRows = true := by rfl
  obtain ⟨c, hc⟩ : ∃ c, left.unify? right = some c := ⟨_, by rfl⟩
  have hx : "x" ∈ left.fieldNames := by decide
  have hy : "y" ∈ right.fieldNames := by decide
  obtain ⟨hxc, -⟩ := hdefinitions left right c hc left (by simp) "x" hx
  obtain ⟨hyc, type, wider, htype, hwider, haccepts⟩ :=
    hdefinitions left right c hc right (by simp) "y" hy
  obtain rfl : FieldType.unknownArray = type := Option.some.inj htype
  exact ⟨⟨hempty, hrows, htypes _ _ _ twoRows hrows (.inl hempty)⟩, c, hc, ⟨hx, hxc⟩, ⟨hy, hyc⟩,
    wider, hwider, haccepts noRow (by rfl)⟩

end AnnotationScene
