import AnnotationScene.Proofs.Gathering
import AnnotationScene.Proofs.Outcomes
import AnnotationScene.Proofs.Sameness

/-!
# Values that fit the merged definitions

Verification succeeds exactly if every annotation of the scene, nested ones included, fits the
merged definition of its name. Annotations that are the same fit the same definitions.
-/

namespace AnnotationScene

/-- A definition without fields admits any values. -/
def Definition.Admits (d : Definition) (a : Annotation) : Prop :=
  d.hasFields = true → ∀ x ∈ a.values, ∃ type, d.fieldType? x.1 = some type ∧
    type.accepts x.2 = true

def DefinitionTable.Fits (t : DefinitionTable) (a : Annotation) : Prop :=
  ∀ d, t.get? a.name = some d → d.Admits a

namespace DefinitionTable

theorem checkValue_eq_ok_iff {d : Definition} {x : String × Value} :
    checkValue d x = .ok () ↔
      ∃ type, d.fieldType? x.1 = some type ∧ type.accepts x.2 = true := by
  unfold checkValue
  split
  next h => simp [h]
  next type h => simp [h]

theorem checkOwn_eq_ok_iff {t : DefinitionTable} {a : Annotation} :
    checkOwn t a = .ok () ↔ Fits t a := by
  unfold checkOwn
  split
  next h => simp [Fits, h]
  next d h => simp [Fits, h, Definition.Admits, forM_eq_ok_iff, checkValue_eq_ok_iff]

theorem check_eq_ok_iff {t : DefinitionTable} {a : Annotation} :
    check t a = .ok () ↔ ∀ b, a.Mentions b → Fits t b := by
  simp only [check, List.forM_eq_forM, forM_eq_ok_iff, checkOwn_eq_ok_iff,
    Annotation.mem_cons_nestedAnnotations_iff]

end DefinitionTable

open DefinitionTable (Fits)

theorem Collector.verification_eq_ok_iff {config : CollectorConfig} {s : Scene.Valid}
    {p : Progress} : Collector.verification config s p = .ok () ↔
      (config.verify = true → ∀ a b, s.Attaches a → a.Mentions b → Fits p.table b) := by
  have hcheck : (s.gather.forM (DefinitionTable.check p.table)) = .ok () ↔
      ∀ a b, s.Attaches a → a.Mentions b → Fits p.table b := by
    simp only [List.forM_eq_forM, forM_eq_ok_iff, DefinitionTable.check_eq_ok_iff,
      Scene.mem_gather_iff]
    exact ⟨fun h a b ha => h a ha b, fun h a ha b => h a b ha⟩
  rw [← hcheck, Collector.verification]
  split
  next hv => simp [mapError_eq_ok_iff, hv]
  next hv => simp [hv]

-- ---------------------------------------------------------------------------
-- Fitting up to sameness
-- ---------------------------------------------------------------------------

theorem Value.all_of_sameList {f : Value → Bool} (hf : ∀ v w, v.same w = true → f v = f w)
    {l m : List Value} (h : Value.sameList l m = true) : l.all f = m.all f := by
  induction l generalizing m with
  | nil => cases m <;> simp_all [Value.sameList]
  | cons v rest ih =>
    cases m <;> simp only [Value.sameList, Bool.false_eq_true, Bool.and_eq_true] at h
    rw [List.all_cons, List.all_cons, hf _ _ h.1, ih h.2]

theorem FieldType.accepts_of_same_value (t : FieldType) {v w : Value} (h : v.same w = true) :
    t.accepts v = t.accepts w := by
  rcases Value.same_cases h with ⟨a, b, rfl, rfl, hab⟩ | ⟨vs, ws, rfl, rfl, hall⟩ | rfl
  · have hname : a.definition.name = b.definition.name := Annotation.name_eq_of_same hab
    cases t <;> simp [FieldType.accepts, Value.basicType?, hname]
  · match t with
    | .array c => exact Value.all_of_sameList (fun v w => c.accepts_of_same_value) hall
    | .unknownArray => cases vs <;> cases ws <;> simp_all [FieldType.accepts, Value.sameList]
    | .basic _ | .classToken | .enum _ | .nested _ => rfl
  · rfl

theorem FieldType.accepts_of_same (t : FieldType) {u : FieldType} (h : t.same u = true)
    (v : Value) : t.accepts v = u.accepts v := by
  match t with
  | .nested d =>
    cases u <;> simp only [FieldType.same, Bool.false_eq_true] at h
    cases v <;> simp [FieldType.accepts, (Definition.same_iff.mp h).1]
  | .array c =>
    cases u <;> simp only [FieldType.same, Bool.false_eq_true] at h
    cases v <;> simp [FieldType.accepts, c.accepts_of_same h]
  | .basic _ | .classToken | .enum _ | .unknownArray =>
    rw [FieldType.eq_of_same h (by simp) (by simp)]

theorem Table.get?_cons {α : Type} (e : String × α) (rest : List (String × α)) (name : String) :
    Table.get? (e :: rest) name = if e.1 = name then some e.2 else Table.get? rest name := by
  by_cases h : e.1 = name <;> simp [Table.get?, h]

theorem FieldType.get?_of_sameTable {t u : List (String × FieldType)} {name : String}
    {type : FieldType} (h : FieldType.sameTable t u = true)
    (hu : Table.get? u name = some type) :
    ∃ type', Table.get? t name = some type' ∧ type'.same type = true := by
  induction t generalizing u with
  | nil => cases u <;> simp_all [FieldType.sameTable, Table.get?]
  | cons x rest ih =>
    cases u with
    | nil => nomatch hu
    | cons y others =>
      simp only [FieldType.sameTable, Bool.and_eq_true, beq_iff_eq] at h
      obtain ⟨⟨hname, htype⟩, hrest⟩ := h
      rw [Table.get?_cons] at hu ⊢
      rw [hname]
      split at hu
      next hy => exact ⟨x.2, if_pos hy, Option.some.inj hu ▸ htype⟩
      next hy => simpa only [if_neg hy] using ih hrest hu

theorem Definition.hasFields_of_same {d e : Definition} (h : d.same e = true)
    (hd : d.hasFields = true) : e.hasFields = true := by
  have htable := (Definition.same_iff.mp h).2.2
  unfold Definition.hasFields at hd ⊢
  cases hd' : d.fieldTable <;> cases he : e.fieldTable <;>
    simp_all [FieldType.sameTable]

theorem Definition.Admits.of_same {d e : Definition} {a b : Annotation} (h : e.Admits b)
    (hd : d.same e = true) (ha : a.same b = true) : d.Admits a := by
  intro hfields x hx
  obtain ⟨-, hvalues⟩ := Annotation.same_iff.mp ha
  obtain ⟨y, hy, hname, hvalue⟩ := Value.sameTable_mem hvalues x hx
  obtain ⟨type, htype, haccepts⟩ := h (Definition.hasFields_of_same hd hfields) y hy
  obtain ⟨type', htype', hsame⟩ :=
    FieldType.get?_of_sameTable (Definition.same_iff.mp hd).2.2 htype
  refine ⟨type', hname ▸ htype', ?_⟩
  rw [type'.accepts_of_same hsame, type.accepts_of_same_value hvalue]
  exact haccepts

end AnnotationScene
