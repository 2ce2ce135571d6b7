import AnnotationScene.TypePath

/-!
# The integers of a type path

Each step of a path is written as two integers, its kind and its argument. Reading accepts just
what writing puts out: `Misfit` lists the pairs that no step is written as, and a list is refused
when one of its pairs is a misfit or when its last integer stands alone.
-/

namespace AnnotationScene

-- ---------------------------------------------------------------------------
-- One step
-- ---------------------------------------------------------------------------

namespace TypeStep

/-- The pairs that stand for no step. -/
inductive Misfit (kind argument : Int32) : Prop
  | unknownKind : kind.toInt < 0 ∨ 3 < kind.toInt → Misfit kind argument
  /-- Only type arguments are numbered. -/
  | strayArgument : 0 ≤ kind.toInt → kind.toInt < 3 → argument.toInt ≠ 0 → Misfit kind argument
  | indexOutOfRange : kind.toInt = 3 → argument.toInt < 0 ∨ 255 < argument.toInt →
      Misfit kind argument

variable {kind argument : Int32} {step : TypeStep}

theorem toInt_argument (index : UInt8) : (Int32.ofNat index.toNat).toInt = index.toNat := by
  have hlt := index.toNat_lt
  apply Int32.toInt_ofNat_of_lt
  omega

theorem ofPair?_toPair (step : TypeStep) : ofPair? step.toPair.1 step.toPair.2 = some step := by
  cases step with
  | argument index =>
    have hlt := index.toNat_lt
    have hrange : (0 : Int) ≤ index.toNat ∧ (index.toNat : Int) < 256 := by omega
    simp only [toPair, ofPair?, toInt_argument, if_pos hrange, ↓reduceIte, Int.toNat_natCast,
      UInt8.ofNat_toNat]
  | _ => rfl

theorem toPair_of_ofPair? (h : ofPair? kind argument = some step) :
    step.toPair = (kind, argument) := by
  unfold ofPair? at h
  split at h
  next hkind =>
    split at h
    next hrange =>
      obtain rfl := Option.some.inj h
      have hindex : (UInt8.ofNat argument.toInt.toNat).toNat = argument.toInt.toNat := by
        apply UInt8.toNat_ofNat_of_lt'
        simp only [UInt8.size]
        omega
      have harg : Int32.ofNat (UInt8.ofNat argument.toInt.toNat).toNat = argument := by
        apply Int32.toInt_inj.mp
        rw [toInt_argument, hindex]
        omega
      simp only [toPair, harg, hkind]
    next => cases h
  next =>
    repeat' split at h
    all_goals simp_all [toPair]
    all_goals subst h; rfl

theorem ofPair?_eq_none_iff : ofPair? kind argument = none ↔ Misfit kind argument := by
  simp only [ofPair?, ← Int32.toInt_inj, Int32.reduceToInt]
  constructor
  · intro h
    by_cases hknown : 0 ≤ kind.toInt ∧ kind.toInt < 3
    · refine .strayArgument hknown.1 hknown.2 fun hzero => ?_
      obtain hkind | hkind | hkind : kind.toInt = 0 ∨ kind.toInt = 1 ∨ kind.toInt = 2 := by omega
      all_goals simp [hkind, hzero] at h
    · by_cases hkind : kind.toInt = 3
      · refine .indexOutOfRange hkind ?_
        simp [hkind] at h
        omega
      · exact .unknownKind (by omega)
  · rintro (hkind | ⟨hlow, hhigh, harg⟩ | ⟨hkind, hrange⟩)
    · have h3 : kind.toInt ≠ 3 := by omega
      have h0 : kind.toInt ≠ 0 ∧ kind.toInt ≠ 1 ∧ kind.toInt ≠ 2 := by omega
      simp [h3, h0]
    · have h3 : kind.toInt ≠ 3 := by omega
      simp [h3, harg]
    · simp [hkind]
      omega

end TypeStep

-- ---------------------------------------------------------------------------
-- Whole paths
-- ---------------------------------------------------------------------------

namespace TypePath

variable {encoding : List Int32} {path : TypePath}

def HasMisfit (encoding : List Int32) : Prop :=
  ∃ i kind argument, encoding[2 * i]? = some kind ∧ encoding[2 * i + 1]? = some argument ∧
    TypeStep.Misfit kind argument

theorem encode_cons (step : TypeStep) (path : TypePath) :
    encode (step :: path) = step.toPair.1 :: step.toPair.2 :: encode path := rfl

theorem length_encode (path : TypePath) : (encode path).length = 2 * path.length := by
  induction path with
  | nil => rfl
  | cons step path ih => simp [encode_cons, ih]; omega

theorem steps?_encode (path : TypePath) : steps? (encode path) = some path := by
  induction path with
  | nil => rfl
  | cons step path ih => simp [encode_cons, steps?, TypeStep.ofPair?_toPair, ih]

/-- Where no integer stands alone, only the written form of a path reads as it. -/
theorem encode_of_steps? (heven : encoding.length % 2 = 0) (h : steps? encoding = some path) :
    encode path = encoding := by
  induction encoding using steps?.induct generalizing path with
  | case1 kind argument rest step more hrest hstep ih =>
    simp only [steps?, hstep, hrest, Option.some.injEq] at h
    subst h
    have hpair := TypeStep.toPair_of_ofPair? hstep
    have hlen : rest.length % 2 = 0 := by simp at heven; omega
    simp [encode_cons, hpair, ih hlen hrest]
  | case2 kind argument rest hnone ih =>
    unfold steps? at h
    split at h
    next step more hstep hrest => exact (hnone step more hstep hrest).elim
    next => cases h
  | case3 encoding hshort =>
    match encoding with
    | [] =>
      simp only [steps?, Option.some.injEq] at h
      subst h
      rfl
    | [_] => simp at heven
    | kind :: argument :: rest => exact (hshort kind argument rest rfl).elim

theorem hasMisfit_cons {kind argument : Int32} {rest : List Int32} :
    HasMisfit (kind :: argument :: rest) ↔ TypeStep.Misfit kind argument ∨ HasMisfit rest := by
  constructor
  · rintro ⟨_ | i, k, a, hk, ha, hmisfit⟩
    · simp at hk ha
      subst hk ha
      exact .inl hmisfit
    · refine .inr ⟨i, k, a, ?_, ?_, hmisfit⟩
      · simpa [Nat.mul_add] using hk
      · simpa [Nat.mul_add] using ha
  · rintro (hmisfit | ⟨i, k, a, hk, ha, hmisfit⟩)
    · exact ⟨0, kind, argument, rfl, rfl, hmisfit⟩
    · refine ⟨i + 1, k, a, ?_, ?_, hmisfit⟩
      · simpa [Nat.mul_add] using hk
      · simpa [Nat.mul_add] using ha

theorem steps?_cons_eq_none_iff {kind argument : Int32} {rest : List Int32} :
    steps? (kind :: argument :: rest) = none ↔
      TypeStep.ofPair? kind argument = none ∨ steps? rest = none := by
  cases hstep : TypeStep.ofPair? kind argument <;> cases hrest : steps? rest <;>
    simp [steps?, hstep, hrest]

theorem steps?_eq_none_iff : (encoding : List Int32) →
    (steps? encoding = none ↔ HasMisfit encoding)
  | [] => by simp [steps?, HasMisfit]
  | [_] => by simp [steps?, HasMisfit]
  | kind :: argument :: rest => by
    rw [steps?_cons_eq_none_iff, hasMisfit_cons, TypeStep.ofPair?_eq_none_iff,
      steps?_eq_none_iff rest]

theorem decode_eq_ok_iff : decode encoding = .ok path ↔ encode path = encoding := by
  unfold decode
  constructor
  · intro h
    split at h
    next => cases h
    next heven =>
      split at h
      next read hread =>
        obtain rfl := Except.ok.inj h
        exact encode_of_steps? (by omega) hread
      next => cases h
  · rintro rfl
    have heven : ¬ (encode path).length % 2 = 1 := by rw [length_encode]; omega
    simp only [if_neg heven, steps?_encode]

/-- What is wrong with a list that is refused; a lone integer is noticed first. -/
def fault (encoding : List Int32) : TypePathFault :=
  if encoding.length % 2 = 1 then .oddLength else .invalidStep

theorem decode_cases (encoding : List Int32) : (∃ path, decode encoding = .ok path) ∨
    decode encoding = .error (.malformedTypePath encoding (fault encoding)) := by
  unfold decode fault
  split
  next => exact .inr rfl
  next =>
    split
    next path _ => exact .inl ⟨path, rfl⟩
    next => exact .inr rfl

theorem decode_eq_error_iff :
    decode encoding = .error (.malformedTypePath encoding (fault encoding)) ↔
      encoding.length % 2 = 1 ∨ HasMisfit encoding := by
  unfold decode fault
  split
  next hodd => simp [hodd]
  next heven =>
    rw [← steps?_eq_none_iff]
    cases steps? encoding <;> simp [heven]

/-- Reading is the inverse of writing. A list is refused exactly if no path is written as it, which
its length or one of its pairs shows, and the error carries the whole list. -/
theorem decode_inverts_encode (encoding : List Int32) :
    (∀ path, decode encoding = .ok path ↔ encode path = encoding) ∧
    ((∀ path, encode path ≠ encoding) ↔ encoding.length % 2 = 1 ∨ HasMisfit encoding) ∧
    ((∀ path, encode path ≠ encoding) ↔
      decode encoding = .error (.malformedTypePath encoding (fault encoding))) := by
  have hrefused : (∀ path, encode path ≠ encoding) ↔
      decode encoding = .error (.malformedTypePath encoding (fault encoding)) := by
    constructor
    · intro hunwritten
      rcases decode_cases encoding with ⟨path, hread⟩ | hrefused
      · exact (hunwritten path (decode_eq_ok_iff.mp hread)).elim
      · exact hrefused
    · intro hrefused path hwritten
      have hread := decode_eq_ok_iff.mpr hwritten
      rw [hrefused] at hread
      cases hread
  exact ⟨fun path => decode_eq_ok_iff, hrefused.trans decode_eq_error_iff, hrefused⟩

end TypePath

end AnnotationScene
