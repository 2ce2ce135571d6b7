import AnnotationScene.Proofs.Conflicts
import AnnotationScene.Proofs.Fitting

/-!
# What verification reports

Verification looks at the annotations once more when all definitions are merged. It adds one cause
of failure and changes nothing else: a value that the merged definition refuses. The one reported
is the first in the order of the walk, and every name that is looked up on the way is found.
-/

namespace AnnotationScene

open DefinitionTable (Fits)

-- ---------------------------------------------------------------------------
-- Settings that a collection looks at
-- ---------------------------------------------------------------------------

section

variable {config config' : CollectorConfig}

mutual
theorem Definition.collect_congr (h : config.includeMeta = config'.includeMeta) :
    (d : Definition) → (p : Progress) → d.collect config p = d.collect config' p
  | ⟨name, metas, none, source⟩, p => by
    simp only [Definition.collect, h, AnnotationSet.collectAll_congr h metas]
  | ⟨name, metas, some fields, source⟩, p => by
    simp only [Definition.collect, h, FieldType.collectTable_congr h fields,
      AnnotationSet.collectAll_congr h metas]
theorem FieldType.collectTable_congr (h : config.includeMeta = config'.includeMeta) :
    (fields : List (String × FieldType)) → (p : Progress) →
    FieldType.collectTable config fields p = FieldType.collectTable config' fields p
  | [], _ => rfl
  | (_, type) :: rest, p => by
    simp only [FieldType.collectTable, type.collect_congr h, FieldType.collectTable_congr h rest]
theorem FieldType.collect_congr (h : config.includeMeta = config'.includeMeta) :
    (t : FieldType) → (p : Progress) → t.collect config p = t.collect config' p
  | .nested d, p => d.collect_congr h p
  | .array c, p => c.collect_congr h p
  | .basic _, _ | .classToken, _ | .enum _, _ | .unknownArray, _ => rfl
theorem Annotation.collect_congr (h : config.includeMeta = config'.includeMeta) :
    (a : Annotation) → (p : Progress) → a.collect config p = a.collect config' p
  | ⟨definition, values⟩, p => by
    simp only [definition.collect_congr h, Annotation.collect, Value.collectTable_congr h values]
theorem AnnotationSet.collectAll_congr (h : config.includeMeta = config'.includeMeta) :
    (l : List Annotation) → (p : Progress) →
    AnnotationSet.collectAll config l p = AnnotationSet.collectAll config' l p
  | [], _ => rfl
  | a :: rest, p => by
    simp only [AnnotationSet.collectAll, a.collect_congr h, AnnotationSet.collectAll_congr h rest]
theorem Value.collect_congr (h : config.includeMeta = config'.includeMeta) :
    (v : Value) → (p : Progress) → v.collect config p = v.collect config' p
  | .nested a, p => a.collect_congr h p
  | .array vs, p => Value.collectList_congr h vs p
  | .byte _, _ | .short _, _ | .char _, _ | .int _, _ | .long _, _ | .float _, _
  | .double _, _ | .boolean _, _ | .string _, _ | .classToken _, _ | .enum _ _, _ => rfl
theorem Value.collectTable_congr (h : config.includeMeta = config'.includeMeta) :
    (t : List (String × Value)) → (p : Progress) →
    Value.collectTable config t p = Value.collectTable config' t p
  | [], _ => rfl
  | (_, v) :: rest, p => by
    simp only [Value.collectTable, v.collect_congr h, Value.collectTable_congr h rest]
theorem Value.collectList_congr (h : config.includeMeta = config'.includeMeta) :
    (l : List Value) → (p : Progress) →
    Value.collectList config l p = Value.collectList config' l p
  | [], _ => rfl
  | v :: rest, p => by
    simp only [Value.collectList, v.collect_congr h, Value.collectList_congr h rest]
end

end

namespace Collector

variable {config : CollectorConfig} {s : Scene}

theorem gather_unverified : AnnotationSet.collectAll { config with verify := false } s.gather {} =
    AnnotationSet.collectAll config s.gather {} := by
  apply AnnotationSet.collectAll_congr
  rfl

theorem ofScene_unverified {p : Progress}
    (h : AnnotationSet.collectAll config s.gather {} = .ok p) :
    ofScene { config with verify := false } s = .ok (⟨{ config with verify := false }, p.table⟩,
      p.events ++ [.collectedDefinitions p.table.size s.classes.size]) := by
  rw [ofScene_of_gather_ok (gather_unverified.trans h)]
  rfl

theorem gather_ok_of_unverified {c : Collector} {events : List Event}
    (h : ofScene { config with verify := false } s = .ok (c, events)) :
    ∃ p, AnnotationSet.collectAll config s.gather {} = .ok p ∧ c.table = p.table := by
  obtain ⟨p, hp, rfl, -⟩ := gather_ok_of_ofScene h
  exact ⟨p, gather_unverified.symm.trans hp, rfl⟩

end Collector

-- ---------------------------------------------------------------------------
-- The first annotation that does not fit
-- ---------------------------------------------------------------------------

/-- The definition has no place for the value, and the error says why. -/
inductive Definition.Refuses (d : Definition) : String × Value → DefinitionError → Prop
  | unknownField {field : String} {value : Value} : d.fieldType? field = none →
      d.Refuses (field, value) (.unknownField d field)
  | valueMismatch {field : String} {value : Value} {type : FieldType} :
      d.fieldType? field = some type → type.accepts value = false →
      d.Refuses (field, value) (.valueMismatch d field value type)

/-- The error is about the first annotation of the list that does not fit the definition of its
name in the table, and about the first of its values that is refused. -/
inductive DefinitionTable.FirstMisfit (t : DefinitionTable) :
    List Annotation → DefinitionError → Prop
  | intro {front rest : List Annotation} {a : Annotation} {d : Definition}
      {before after : List (String × Value)} {x : String × Value} {error : DefinitionError} :
      (∀ b ∈ front, Fits t b) → t.get? a.name = some d → d.hasFields = true →
      a.values = before ++ x :: after → (∀ y ∈ before, ∀ e, ¬ d.Refuses y e) →
      d.Refuses x error → FirstMisfit t (front ++ a :: rest) error

namespace DefinitionTable

theorem refuses_of_checkValue {d : Definition} {x : String × Value} {e : DefinitionError}
    (h : checkValue d x = .error e) : d.Refuses x e := by
  unfold checkValue at h
  split at h
  next hnone =>
    obtain rfl := Except.error.inj h
    exact .unknownField hnone
  next type htype =>
    split at h
    next => cases h
    next hrefused =>
      obtain rfl := Except.error.inj h
      exact .valueMismatch htype (by simpa using hrefused)

theorem not_refuses_of_checkValue {d : Definition} {x : String × Value}
    (h : checkValue d x = .ok ()) (e : DefinitionError) : ¬ d.Refuses x e := by
  obtain ⟨type, htype, haccepts⟩ := checkValue_eq_ok_iff.mp h
  intro hrefuses
  cases hrefuses with
  | unknownField hnone => nomatch htype.symm.trans hnone
  | valueMismatch htype' hrefused =>
    obtain rfl := Option.some.inj (htype.symm.trans htype')
    nomatch haccepts.symm.trans hrefused

theorem firstMisfit_of_forM {t : DefinitionTable} {l : List Annotation} {e : DefinitionError}
    (h : forM l (checkOwn t) = .error e) : FirstMisfit t l e := by
  obtain ⟨front, a, rest, rfl, hfront, ha⟩ := exists_of_forM_eq_error h
  unfold checkOwn at ha
  split at ha
  next => nomatch ha
  next d hd =>
    split at ha
    next hfields =>
      obtain ⟨before, x, after, hvalues, hbefore, hx⟩ := exists_of_forM_eq_error ha
      exact .intro (fun b hb => checkOwn_eq_ok_iff.mp (hfront b hb)) hd hfields hvalues
        (fun y hy => not_refuses_of_checkValue (hbefore y hy)) (refuses_of_checkValue hx)
    next => nomatch ha

end DefinitionTable

namespace Collector

variable {config : CollectorConfig} {s : Scene.Valid}

theorem firstMisfit_of_verification {p : Progress} {failure : Failure}
    (h : verification config s p = .error failure) :
    p.table.FirstMisfit s.mentioned failure.error := by
  have hcheck : s.gather.forM (DefinitionTable.check p.table) =
      forM s.mentioned (DefinitionTable.checkOwn p.table) := by
    rw [Scene.mentioned_eq_gather, forM_flatMap]
    rfl
  rw [verification, hcheck] at h
  split at h
  next =>
    obtain ⟨error, herror, rfl⟩ := exists_of_mapError_eq_error h
    exact DefinitionTable.firstMisfit_of_forM herror
  next => cases h

theorem exists_entry {p : Progress}
    (hp : AnnotationSet.collectAll config s.gather {} = .ok p) {a b : Annotation}
    (ha : s.Attaches a) (hb : a.Mentions b) :
    ∃ d, p.table.get? b.name = some d ∧ b.definition.PartOf d :=
  (Scene.gather_complete hp).2 b.definition (.attached ha hb)

/-- Every annotation of the scene, nested ones included, fits the definition of its name. -/
def AllFit (c : Collector) (s : Scene) : Prop :=
  ∀ a b, s.Attaches a → a.Mentions b → ∃ d, c.get? b.name = some d ∧ d.Admits b

theorem allFit_iff_verification {p : Progress} (hv : config.verify = true)
    (hp : AnnotationSet.collectAll config s.gather {} = .ok p) {c : Collector}
    (htable : c.table = p.table) : c.AllFit s ↔ verification config s p = .ok () := by
  rw [verification_eq_ok_iff]
  constructor
  · intro h _ a b ha hb d hd
    obtain ⟨d', hd', hadmits⟩ := h a b ha hb
    rw [get?, htable, hd] at hd'
    exact Option.some.inj hd' ▸ hadmits
  · intro h a b ha hb
    obtain ⟨d, hd, -⟩ := exists_entry hp ha hb
    exact ⟨d, by rw [get?, htable, hd], h hv a b ha hb d hd⟩

/-- Verifying succeeds exactly if collecting does and all values fit what was collected. Otherwise
the first annotation that does not fit is told, with the definition found under its name. -/
theorem ofScene_verified_iff_fits (s : Scene.Valid) (hv : config.verify = true) :
    ((∃ c events, ofScene config s = .ok (c, events)) ↔
      ∃ c events, ofScene { config with verify := false } s = .ok (c, events) ∧ c.AllFit s) ∧
    ∀ c events, ofScene { config with verify := false } s = .ok (c, events) →
      (∀ a b, s.Attaches a → a.Mentions b → ∃ d, c.get? b.name = some d ∧ d.name = b.name) ∧
      (¬ c.AllFit s → ∃ failure, ofScene config s = .error failure ∧
        c.table.FirstMisfit s.mentioned failure.error) := by
  refine ⟨⟨?_, ?_⟩, fun c events h => ?_⟩
  · rintro ⟨c, events, h⟩
    obtain ⟨p, hp, rfl, hok⟩ := gather_ok_of_ofScene h
    exact ⟨_, _, ofScene_unverified hp, (allFit_iff_verification hv hp rfl).mpr hok⟩
  · rintro ⟨c, events, h, hfit⟩
    obtain ⟨p, hp, htable⟩ := gather_ok_of_unverified h
    rw [ofScene_of_gather_ok hp, (allFit_iff_verification hv hp htable).mp hfit]
    exact ⟨_, _, rfl⟩
  · obtain ⟨p, hp, htable⟩ := gather_ok_of_unverified h
    refine ⟨fun a b ha hb => ?_, fun hnot => ?_⟩
    · obtain ⟨d, hd, hpart⟩ := exists_entry hp ha hb
      exact ⟨d, by rw [get?, htable, hd], hpart.name.symm⟩
    · rw [ofScene_of_gather_ok hp, htable]
      cases hverify : verification config s p with
      | error failure => exact ⟨failure, rfl, firstMisfit_of_verification hverify⟩
      | ok u => exact absurd ((allFit_iff_verification hv hp htable).mpr hverify) hnot

theorem ofScene_verified_iff_fits_nested :
    let full : Annotation := ⟨⟨"A", [], some [("x", .basic .int)], "p"⟩, [("x", .int 3)]⟩
    let bare : Annotation := ⟨.ofName "A" "q", [("x", .string "three")]⟩
    let user : Annotation := ⟨.ofName "B" "q", [("y", .array [.nested bare])]⟩
    let s := Scene.ofPackage "p" [user, full]
    s.WellFormed ∧ ∃ c events failure,
      ofScene { verify := false } s = .ok (c, events) ∧ ofScene {} s = .error failure ∧
        c.table.FirstMisfit s.mentioned failure.error := by
  intro full bare user s
  have hw : s.WellFormed := by decide
  obtain ⟨hiff, hreport⟩ := @ofScene_verified_iff_fits {} ⟨s, hw⟩ rfl
  have hplain := @ofScene_unverified {} s _ rfl
  have hnot : ¬ Collector.AllFit _ s := fun hfit => by
    obtain ⟨c, events, hok⟩ := hiff.mpr ⟨_, _, hplain, hfit⟩
    nomatch hok
  obtain ⟨failure, herror, hfirst⟩ := (hreport _ _ hplain).2 hnot
  exact ⟨hw, _, _, failure, hplain, herror, hfirst⟩

end Collector

end AnnotationScene
