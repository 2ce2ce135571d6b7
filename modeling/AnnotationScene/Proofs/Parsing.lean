import AnnotationScene.Proofs.Outcomes
import AnnotationScene.TypePath
import Mathlib.Data.List.TakeWhile

/-!
# The text of a type path

The grammar of type paths in comma separated form, said without the reader: what the word for a
step is, how blanks may stand around it, and how words are joined. Reading a text finds the path
that the grammar gives it, and refuses a text outside the grammar for its first ill-formed step.
Since what is printed lies in the grammar, a printed path reads back as itself.
-/

namespace AnnotationScene

-- ---------------------------------------------------------------------------
-- Blanks around a text
-- ---------------------------------------------------------------------------

namespace Text

variable {s core : List Char}

def Blank (s : List Char) : Prop := ∀ c ∈ s, isBlank c = true

/-- The text `s` is `core` with blanks on either side. -/
def Padded (core s : List Char) : Prop :=
  ∃ before after, Blank before ∧ Blank after ∧ s = before ++ core ++ after

def Trimmed (s : List Char) : Prop :=
  (∀ c, s.head? = some c → isBlank c = false) ∧ ∀ c, s.getLast? = some c → isBlank c = false

theorem blank_nil : Blank [] := by simp [Blank]

theorem blank_append {t : List Char} : Blank (s ++ t) ↔ Blank s ∧ Blank t := by
  simp [Blank, or_imp, forall_and]

theorem padded_self (s : List Char) : Padded s s := ⟨[], [], blank_nil, blank_nil, by simp⟩

theorem blank_reverse : Blank s.reverse ↔ Blank s := by simp [Blank]

theorem dropWhile_blank_append {before : List Char} (hbefore : Blank before)
    (hcore : ∀ c, core.head? = some c → isBlank c = false) :
    (before ++ core).dropWhile isBlank = core := by
  rw [List.dropWhile_append_of_pos hbefore]
  cases core with
  | nil => rfl
  | cons c rest => exact List.dropWhile_cons_of_neg (by simp [hcore c rfl])

theorem head?_dropWhile_blank {c : Char} (h : (s.dropWhile isBlank).head? = some c) :
    isBlank c = false := by
  have hstop := List.head?_dropWhile_not isBlank s
  simpa [h] using hstop

theorem trim_of_padded (hpadded : Padded core s) (hcore : Trimmed core) : trim s = core := by
  obtain ⟨before, after, hbefore, hafter, rfl⟩ := hpadded
  obtain ⟨hfirst, hlast⟩ := hcore
  cases core with
  | nil =>
    have hall : Blank (before ++ after) := blank_append.mpr ⟨hbefore, hafter⟩
    simp [trim, List.dropWhile_eq_nil_iff.mpr hall]
  | cons c rest =>
    have hfront : (before ++ (c :: rest ++ after)).dropWhile isBlank = c :: rest ++ after :=
      dropWhile_blank_append hbefore hfirst
    have hback : (after.reverse ++ (c :: rest).reverse).dropWhile isBlank = (c :: rest).reverse :=
      dropWhile_blank_append (blank_reverse.mpr hafter) (by simpa only [List.head?_reverse])
    simp only [trim, List.append_assoc, hfront, List.reverse_append, hback, List.reverse_reverse]

theorem dropWhile_eq_trim_append (s : List Char) :
    ∃ after, Blank after ∧ s.dropWhile isBlank = trim s ++ after := by
  refine ⟨((s.dropWhile isBlank).reverse.takeWhile isBlank).reverse, ?_, ?_⟩
  · exact blank_reverse.mpr fun c hc => List.mem_takeWhile_imp hc
  · rw [trim, ← List.reverse_append, List.takeWhile_append_dropWhile, List.reverse_reverse]

theorem padded_trim (s : List Char) : Padded (trim s) s := by
  obtain ⟨after, hafter, hfront⟩ := dropWhile_eq_trim_append s
  refine ⟨s.takeWhile isBlank, after, fun c hc => List.mem_takeWhile_imp hc, hafter, ?_⟩
  rw [List.append_assoc, ← hfront, List.takeWhile_append_dropWhile]

theorem trimmed_trim (s : List Char) : Trimmed (trim s) := by
  refine ⟨fun c hc => ?_, fun c hc => ?_⟩
  · obtain ⟨after, -, hfront⟩ := dropWhile_eq_trim_append s
    refine head?_dropWhile_blank (s := s) ?_
    rw [hfront, List.head?_append, hc, Option.some_or]
  · rw [trim, List.getLast?_reverse] at hc
    exact head?_dropWhile_blank hc

theorem trim_eq_nil_iff : trim s = [] ↔ Blank s := by
  constructor
  · intro h
    obtain ⟨before, after, hbefore, hafter, hs⟩ := padded_trim s
    rw [hs, h, List.append_nil]
    exact blank_append.mpr ⟨hbefore, hafter⟩
  · intro h
    exact trim_of_padded ⟨s, [], h, blank_nil, by simp⟩ (by simp [Trimmed])

theorem trim_blank_append {before : List Char} (h : Blank before) (s : List Char) :
    trim (before ++ s) = trim s := by
  obtain ⟨b, a, hb, ha, hs⟩ := padded_trim s
  refine trim_of_padded ⟨before ++ b, a, blank_append.mpr ⟨h, hb⟩, ha, ?_⟩ (trimmed_trim s)
  nth_rewrite 1 [hs]
  simp only [List.append_assoc]

theorem trim_append_blank {after : List Char} (h : Blank after) (s : List Char) :
    trim (s ++ after) = trim s := by
  obtain ⟨b, a, hb, ha, hs⟩ := padded_trim s
  refine trim_of_padded ⟨b, a ++ after, hb, blank_append.mpr ⟨ha, h⟩, ?_⟩ (trimmed_trim s)
  nth_rewrite 1 [hs]
  simp only [List.append_assoc]

theorem Blank.not_mem {c : Char} (h : Blank s) (hc : isBlank c = false) : c ∉ s := fun hmem => by
  simp [h c hmem] at hc

theorem Padded.not_mem {c : Char} (h : Padded core s) (hc : isBlank c = false) (hcore : c ∉ core) :
    c ∉ s := by
  obtain ⟨before, after, hbefore, hafter, rfl⟩ := h
  simp [hbefore.not_mem hc, hafter.not_mem hc, hcore]

-- ---------------------------------------------------------------------------
-- Numbers
-- ---------------------------------------------------------------------------

/-- One or more decimal digits of the given value; zeros may lead. -/
structure Digits (n : Nat) (s : List Char) : Prop where
  nonempty : s ≠ []
  isDigit : ∀ c ∈ s, c.isDigit = true
  value : Nat.ofDigitChars 10 s 0 = n

/-- Digits of a value that fits in a byte, after a plus sign or none. -/
inductive ByteNumeral (n : UInt8) : List Char → Prop
  | plain {s : List Char} : Digits n.toNat s → ByteNumeral n s
  | signed {s : List Char} : Digits n.toNat s → ByteNumeral n ('+' :: s)

theorem nat?_eq_some_iff {n : Nat} : nat? s = some n ↔ Digits n s := by
  have hvalue : digitsValue s = Nat.ofDigitChars 10 s 0 := Nat.ofDigitChars_eq_foldl.symm
  unfold nat?
  rw [hvalue]
  constructor
  · intro h
    split at h
    next hs =>
      simp only [Bool.and_eq_true, Bool.not_eq_true', List.isEmpty_eq_false_iff,
        List.all_eq_true] at hs
      exact ⟨hs.1, hs.2, Option.some.inj h⟩
    next => cases h
  · rintro ⟨hne, hdigits, rfl⟩
    simp [hne]
    exact hdigits

theorem digits_toDigits (n : Nat) : Digits n (Nat.toDigits 10 n) where
  nonempty := Nat.toDigits_ne_nil
  isDigit _ hc := Nat.isDigit_of_mem_toDigits (by decide) (by decide) hc
  value := Nat.ofDigitChars_ten_toDigits

def byte? (n : Nat) : Option UInt8 := if n < 256 then some (UInt8.ofNat n) else none

theorem byte?_eq_some_iff {m : Nat} {n : UInt8} : byte? m = some n ↔ m = n.toNat := by
  unfold byte?
  constructor
  · intro h
    split at h
    next hlt =>
      obtain rfl := Option.some.inj h
      exact (UInt8.toNat_ofNat_of_lt' hlt).symm
    next => cases h
  · rintro rfl
    have hlt : n.toNat < 256 := n.toNat_lt
    simp [hlt]

theorem uint8?_signed (s : List Char) : uint8? ('+' :: s) = (nat? s).bind byte? := by
  unfold uint8?
  cases hs : nat? s <;> simp [hs, byte?]

theorem uint8?_plain (h : ∀ rest, s ≠ '+' :: rest) : uint8? s = (nat? s).bind byte? := by
  unfold uint8?
  split
  next rest => exact (h rest rfl).elim
  next => cases hs : nat? s <;> simp [hs, byte?]

theorem bind_byte?_eq_some_iff {n : UInt8} :
    (nat? s).bind byte? = some n ↔ Digits n.toNat s := by
  simp [Option.bind_eq_some_iff, nat?_eq_some_iff, byte?_eq_some_iff]

theorem Digits.not_signed {n : Nat} (h : Digits n s) (rest : List Char) : s ≠ '+' :: rest := by
  rintro rfl
  exact absurd (h.isDigit '+' (by simp)) (by decide)

theorem uint8?_eq_some_iff {n : UInt8} : uint8? s = some n ↔ ByteNumeral n s := by
  constructor
  · intro h
    by_cases hsign : ∃ rest, s = '+' :: rest
    · obtain ⟨rest, rfl⟩ := hsign
      exact .signed (bind_byte?_eq_some_iff.mp (uint8?_signed rest ▸ h))
    · have hplain := uint8?_plain (s := s) fun rest hs => hsign ⟨rest, hs⟩
      exact .plain (bind_byte?_eq_some_iff.mp (hplain ▸ h))
  · rintro (h | h)
    · rw [uint8?_plain h.not_signed, bind_byte?_eq_some_iff]
      exact h
    · rw [uint8?_signed, bind_byte?_eq_some_iff]
      exact h

theorem isBlank_of_isDigit {c : Char} (h : c.isDigit = true) : isBlank c = false := by
  have hrange : 48 ≤ c.toNat ∧ c.toNat ≤ 57 := by
    simpa [Char.isDigit, UInt32.le_iff_toNat_le] using h
  simp [isBlank]
  omega

theorem trimmed_of_any (h : s.any isBlank = false) : Trimmed s := by
  have hall : ∀ c ∈ s, isBlank c = false := by simpa using h
  exact ⟨fun c hc => hall c (List.mem_of_mem_head? hc),
    fun c hc => hall c (List.mem_of_getLast? hc)⟩

theorem ByteNumeral.trimmed {n : UInt8} (h : ByteNumeral n s) : Trimmed s := by
  refine trimmed_of_any (List.any_eq_false.mpr fun c hc => ?_)
  rw [Bool.not_eq_true]
  rcases h with h | h
  · exact isBlank_of_isDigit (h.isDigit c hc)
  · rcases List.mem_cons.mp hc with rfl | hc
    · decide
    · exact isBlank_of_isDigit (h.isDigit c hc)

theorem Digits.no_comma {n : Nat} (h : Digits n s) : ',' ∉ s := fun hmem => by
  simpa using h.isDigit ',' hmem

theorem ByteNumeral.no_comma {n : UInt8} (h : ByteNumeral n s) : ',' ∉ s := by
  rcases h with h | h
  · exact h.no_comma
  · simp [h.no_comma]

end Text

-- ---------------------------------------------------------------------------
-- One step
-- ---------------------------------------------------------------------------

namespace TypeStep

variable {s : List Char} {step : TypeStep}

/-- The word for a step. Blanks may stand between the parentheses of a type argument. -/
inductive Spelled : TypeStep → List Char → Prop
  | array : Spelled .array "ARRAY".toList
  | inner : Spelled .inner "INNER_TYPE".toList
  | wildcard : Spelled .wildcard "WILDCARD".toList
  | argument {index : UInt8} {number inside : List Char} :
      Text.ByteNumeral index number → Text.Padded number inside →
        Spelled (.argument index) (argumentOpening ++ inside ++ [')'])

/-- The word for the step with blanks around it. -/
def Written (step : TypeStep) (s : List Char) : Prop :=
  ∃ word, Spelled step word ∧ Text.Padded word s

theorem argumentOpening_eq : argumentOpening =
    ['T', 'Y', 'P', 'E', '_', 'A', 'R', 'G', 'U', 'M', 'E', 'N', 'T', '('] := by
  decide

theorem argumentIndex?_eq_some_iff {index : UInt8} : argumentIndex? s = some index ↔
    ∃ number inside, s = argumentOpening ++ inside ++ [')'] ∧
      Text.Padded number inside ∧ Text.ByteNumeral index number := by
  unfold argumentIndex?
  constructor
  · intro h
    split at h
    next hopening =>
      obtain ⟨rest, rfl⟩ := List.isPrefixOf_iff_prefix.mp hopening
      simp only [List.drop_left] at h
      split at h
      next hclosing =>
        obtain ⟨inside, rfl⟩ := List.getLast?_eq_some_iff.mp hclosing
        rw [List.dropLast_concat, Text.uint8?_eq_some_iff] at h
        exact ⟨_, inside, (List.append_assoc ..).symm, Text.padded_trim inside, h⟩
      next => cases h
    next => cases h
  · rintro ⟨number, inside, rfl, hpadded, hnumber⟩
    rw [List.append_assoc, if_pos (List.isPrefixOf_iff_prefix.mpr (List.prefix_append ..))]
    simp only [List.drop_left, List.getLast?_concat, List.dropLast_concat, ↓reduceIte,
      Text.trim_of_padded hpadded hnumber.trimmed]
    exact Text.uint8?_eq_some_iff.mpr hnumber

theorem ofTrimmed?_eq_some_iff : ofTrimmed? s = some step ↔ Spelled step s := by
  unfold ofTrimmed?
  constructor
  · intro h
    split at h
    next hs =>
      obtain rfl := Option.some.inj h
      exact hs ▸ .array
    next =>
      split at h
      next hs =>
        obtain rfl := Option.some.inj h
        exact hs ▸ .inner
      next =>
        split at h
        next hs =>
          obtain rfl := Option.some.inj h
          exact hs ▸ .wildcard
        next =>
          obtain ⟨index, hindex, rfl⟩ := Option.map_eq_some_iff.mp h
          obtain ⟨number, inside, rfl, hpadded, hnumber⟩ := argumentIndex?_eq_some_iff.mp hindex
          exact .argument hnumber hpadded
  · intro h
    cases h with
    | array => rfl
    | inner => rfl
    | wildcard => rfl
    | argument hnumber hpadded =>
      have hindex := argumentIndex?_eq_some_iff.mpr ⟨_, _, rfl, hpadded, hnumber⟩
      simp only [hindex]
      simp [argumentOpening_eq]

theorem Spelled.trimmed (h : Spelled step s) : Text.Trimmed s := by
  cases h with
  | argument hnumber hpadded =>
    refine ⟨fun c hc => ?_, fun c hc => ?_⟩
    · obtain rfl : 'T' = c := by simpa [argumentOpening_eq] using hc
      decide
    · rw [List.getLast?_concat] at hc
      obtain rfl := Option.some.inj hc
      decide
  | _ => exact Text.trimmed_of_any (by decide)

theorem Spelled.ne_nil (h : Spelled step s) : s ≠ [] := by
  cases h <;> simp [argumentOpening_eq]

theorem Written.iff_trim : Written step s ↔ Spelled step (Text.trim s) := by
  constructor
  · rintro ⟨word, hword, hpadded⟩
    rwa [Text.trim_of_padded hpadded hword.trimmed]
  · exact fun h => ⟨_, h, Text.padded_trim s⟩

theorem Written.not_blank (h : Written step s) : ¬ Text.Blank s := fun hblank =>
  (Written.iff_trim.mp h).ne_nil (Text.trim_eq_nil_iff.mpr hblank)

theorem parse_eq_ok_iff : parse s = .ok step ↔ Written step s := by
  rw [Written.iff_trim, ← ofTrimmed?_eq_some_iff]
  unfold parse
  cases hread : ofTrimmed? (Text.trim s) <;> simp [hread]

theorem parse_eq_error_iff {e : SceneError} : parse s = .error e ↔
    (∀ step, ¬ Written step s) ∧ e = .invalidTypeStep (String.ofList (Text.trim s)) := by
  simp only [Written.iff_trim, ← ofTrimmed?_eq_some_iff]
  unfold parse
  cases hread : ofTrimmed? (Text.trim s) <;> simp [hread, eq_comm]

theorem parse_trim (s : List Char) : parse (Text.trim s) = parse s := by
  have htrim : Text.trim (Text.trim s) = Text.trim s :=
    Text.trim_of_padded (Text.padded_self _) (Text.trimmed_trim s)
  simp only [parse, htrim]

theorem Spelled.no_comma (h : Spelled step s) : ',' ∉ s := by
  cases h with
  | argument hnumber hpadded =>
    have hinside := hpadded.not_mem (by decide) hnumber.no_comma
    simp [argumentOpening_eq, hinside]
  | _ => decide

theorem Written.no_comma (h : Written step s) : ',' ∉ s := by
  obtain ⟨word, hword, hpadded⟩ := h
  exact hpadded.not_mem (by decide) hword.no_comma

end TypeStep

-- ---------------------------------------------------------------------------
-- Whole paths
-- ---------------------------------------------------------------------------

namespace TypePath

variable {s : List Char} {path : TypePath}

/-- The text of a path is that of its steps, joined by commas. A blank text is the empty path. -/
inductive Written : TypePath → List Char → Prop
  | blank {s : List Char} : Text.Blank s → Written [] s
  | steps {path : TypePath} {pieces : List (List Char)} : path ≠ [] →
      List.Forall₂ TypeStep.Written path pieces → Written path ([','].intercalate pieces)

/-- Of the pieces between the commas, the first that is no step has the text `word` in it. -/
inductive FirstFault : List Char → List Char → Prop
  | intro {good rest : List (List Char)} {bad word : List Char} :
      (∀ piece ∈ good ++ bad :: rest, ',' ∉ piece) →
      (∀ piece ∈ good, ∃ step, TypeStep.Written step piece) →
      (∀ step, ¬ TypeStep.Written step bad) →
      Text.Padded word bad → Text.Trimmed word →
        FirstFault ([','].intercalate (good ++ bad :: rest)) word

theorem splitOn_blank_append {before : List Char} (h : Text.Blank before) (s : List Char) :
    (before ++ s).splitOn ',' = (s.splitOn ',').modifyHead (before ++ ·) := by
  induction before with
  | nil => cases hs : s.splitOn ',' <;> simp [hs]
  | cons c before ih =>
    obtain ⟨hc, hbefore⟩ := List.forall_mem_cons.mp h
    have hcomma : c ≠ ',' := by
      rintro rfl
      exact absurd hc (by decide)
    simp [List.splitOn_cons_eq_if_modifyHead, hcomma, ih hbefore, List.modifyHead_modifyHead,
      Function.comp_def]

theorem map_trim_modifyHead {before : List Char} (h : Text.Blank before)
    (pieces : List (List Char)) :
    (pieces.modifyHead (before ++ ·)).map Text.trim = pieces.map Text.trim := by
  cases pieces with
  | nil => rfl
  | cons first rest => simp [Text.trim_blank_append h]

theorem map_trim_splitOn_append {after : List Char} (h : Text.Blank after) (s piece : List Char) :
    (((s ++ after).splitOn ',').modifyHead (piece ++ ·)).map Text.trim =
      ((s.splitOn ',').modifyHead (piece ++ ·)).map Text.trim := by
  induction s generalizing piece with
  | nil =>
    have hone : after.splitOn ',' = [after] := List.splitOn_eq_singleton (h.not_mem (by decide))
    simp [hone, Text.trim_append_blank h]
  | cons c s ih =>
    by_cases hc : c = ','
    · have hrest := ih []
      rw [map_trim_modifyHead Text.blank_nil, map_trim_modifyHead Text.blank_nil] at hrest
      simp [List.splitOn_cons_eq_if_modifyHead, hc, hrest]
    · have hrest := ih (piece ++ [c])
      simpa [List.splitOn_cons_eq_if_modifyHead, hc, List.modifyHead_modifyHead,
        Function.comp_def] using hrest

theorem map_trim_splitOn_trim (s : List Char) :
    ((Text.trim s).splitOn ',').map Text.trim = (s.splitOn ',').map Text.trim := by
  obtain ⟨before, after, hbefore, hafter, hs⟩ := Text.padded_trim s
  have hright := map_trim_splitOn_append hafter (Text.trim s) before
  rw [← splitOn_blank_append hbefore, ← splitOn_blank_append hbefore, ← List.append_assoc,
    ← hs] at hright
  rw [hright, splitOn_blank_append hbefore, map_trim_modifyHead hbefore]

theorem mapM_parse_map_trim (pieces : List (List Char)) :
    (pieces.map Text.trim).mapM TypeStep.parse = pieces.mapM TypeStep.parse := by
  rw [List.mapM_map]
  exact congrArg (List.mapM · pieces) (funext TypeStep.parse_trim)

theorem parse_of_blank {text : String} (h : Text.Blank text.toList) : parse text = .ok [] := by
  simp [parse, Text.trim_eq_nil_iff.mpr h]

theorem parse_of_not_blank {text : String} (h : ¬ Text.Blank text.toList) :
    parse text = (text.toList.splitOn ',').mapM TypeStep.parse := by
  have hne : Text.trim text.toList ≠ [] := fun hnil => h (Text.trim_eq_nil_iff.mp hnil)
  have hread : ((Text.trim text.toList).splitOn ',').mapM TypeStep.parse =
      (text.toList.splitOn ',').mapM TypeStep.parse := by
    rw [← mapM_parse_map_trim, map_trim_splitOn_trim, mapM_parse_map_trim]
  simp [parse, hne, hread]

theorem written_of_mem {pieces : List (List Char)} {piece : List Char}
    (h : List.Forall₂ TypeStep.Written path pieces) (hpiece : piece ∈ pieces) :
    ∃ step, TypeStep.Written step piece := by
  induction h with
  | nil => cases hpiece
  | cons hstep _ ih =>
    rcases List.mem_cons.mp hpiece with rfl | hpiece
    · exact ⟨_, hstep⟩
    · exact ih hpiece

theorem splitOn_of_written {pieces : List (List Char)} (hne : path ≠ [])
    (h : List.Forall₂ TypeStep.Written path pieces) :
    ([','].intercalate pieces).splitOn ',' = pieces := by
  refine List.splitOn_intercalate ',' (fun piece hpiece => ?_) ?_
  · obtain ⟨step, hstep⟩ := written_of_mem h hpiece
    exact hstep.no_comma
  · rintro rfl
    exact hne (List.forall₂_nil_right_iff.mp h)

theorem blank_of_intercalate {piece : List Char} {rest : List (List Char)}
    (h : Text.Blank ([','].intercalate (piece :: rest))) : Text.Blank piece := by
  intro c hc
  apply h
  cases rest with
  | nil => simpa using hc
  | cons next rest => simp [List.intercalate_cons_cons, hc]

theorem Written.eq_nil_of_blank (h : Written path s) (hblank : Text.Blank s) : path = [] := by
  cases h with
  | blank => rfl
  | steps hne hpieces =>
    cases hpieces with
    | nil => rfl
    | cons hfirst _ => exact (hfirst.not_blank (blank_of_intercalate hblank)).elim

theorem parse_eq_ok_iff {text : String} : parse text = .ok path ↔ Written path text.toList := by
  by_cases hblank : Text.Blank text.toList
  · rw [parse_of_blank hblank]
    constructor
    · intro h
      obtain rfl := Except.ok.inj h
      exact .blank hblank
    · intro h
      rw [h.eq_nil_of_blank hblank]
  · rw [parse_of_not_blank hblank, mapM_eq_ok_iff]
    simp only [TypeStep.parse_eq_ok_iff]
    constructor
    · intro h
      have hne : path ≠ [] := by
        rintro rfl
        exact List.splitOn_ne_nil _ _ (List.forall₂_nil_left_iff.mp h)
      have hjoin : [','].intercalate (text.toList.splitOn ',') = text.toList :=
        List.intercalate_splitOn ','
      exact hjoin ▸ .steps hne h
    · intro h
      generalize text.toList = s at h hblank
      cases h with
      | blank h => exact (hblank h).elim
      | steps hne h =>
        rw [splitOn_of_written hne h]
        exact h

theorem not_mem_of_mem_splitOn {piece : List Char} (h : piece ∈ s.splitOn ',') : ',' ∉ piece := by
  induction s generalizing piece with
  | nil =>
    obtain rfl : piece = [] := by simpa using h
    simp
  | cons c s ih =>
    rw [List.splitOn_cons_eq_if_modifyHead] at h
    split at h
    next =>
      rcases List.mem_cons.mp h with rfl | h
      · simp
      · exact ih h
    next hc =>
      obtain ⟨first, rest, hs⟩ := List.exists_cons_of_ne_nil (List.splitOn_ne_nil ',' s)
      rw [hs, List.modifyHead_cons] at h
      rcases List.mem_cons.mp h with rfl | h
      · have hfirst : ',' ∉ first := ih (by simp [hs])
        intro hmem
        rcases List.mem_cons.mp hmem with rfl | hmem
        · simp at hc
        · exact hfirst hmem
      · exact ih (by simp [hs, h])

theorem firstFault_iff {word : List Char} : FirstFault s word ↔
    ∃ good bad rest, s.splitOn ',' = good ++ bad :: rest ∧
      (∀ piece ∈ good, ∃ step, TypeStep.Written step piece) ∧
      (∀ step, ¬ TypeStep.Written step bad) ∧ Text.trim bad = word := by
  constructor
  · rintro ⟨hcomma, hgood, hbad, hpadded, htrimmed⟩
    exact ⟨_, _, _, List.splitOn_intercalate ',' hcomma (by simp), hgood, hbad,
      Text.trim_of_padded hpadded htrimmed⟩
  · rintro ⟨good, bad, rest, hs, hgood, hbad, rfl⟩
    have hjoin : [','].intercalate (s.splitOn ',') = s := List.intercalate_splitOn ','
    rw [← hjoin, hs]
    refine .intro (fun piece hpiece => ?_) hgood hbad (Text.padded_trim bad) (Text.trimmed_trim bad)
    exact not_mem_of_mem_splitOn (hs ▸ hpiece)

theorem parse_eq_error_iff {text : String} {e : SceneError} : parse text = .error e ↔
    ¬ Text.Blank text.toList ∧
      ∃ word, FirstFault text.toList word ∧ e = .invalidTypeStep (String.ofList word) := by
  by_cases hblank : Text.Blank text.toList
  · simp [parse_of_blank hblank, hblank]
  · simp only [parse_of_not_blank hblank, mapM_eq_error_iff, TypeStep.parse_eq_ok_iff,
      TypeStep.parse_eq_error_iff, firstFault_iff, hblank, not_false_eq_true, true_and]
    constructor
    · rintro ⟨good, bad, rest, hs, hgood, hbad, rfl⟩
      exact ⟨_, ⟨good, bad, rest, hs, hgood, hbad, rfl⟩, rfl⟩
    · rintro ⟨_, ⟨good, bad, rest, hs, hgood, hbad, rfl⟩, rfl⟩
      exact ⟨good, bad, rest, hs, hgood, hbad, rfl⟩

end TypePath

-- ---------------------------------------------------------------------------
-- Printed paths
-- ---------------------------------------------------------------------------

theorem TypeStep.spelled_render (step : TypeStep) : Spelled step step.render.toList := by
  cases step with
  | array => exact .array
  | inner => exact .inner
  | wildcard => exact .wildcard
  | argument index =>
    have htext : (render (.argument index)).toList =
        argumentOpening ++ Nat.toDigits 10 index.toNat ++ [')'] := by
      change ("TYPE_ARGUMENT(" ++ toString index.toNat ++ ")").toList = _
      simp [argumentOpening_eq]
    rw [htext]
    exact .argument (.plain (Text.digits_toDigits _)) (Text.padded_self _)

namespace TypePath

/-- A blank after each comma belongs to the step that follows. -/
theorem intercalate_comma_blank (piece : List Char) (rest : List (List Char)) :
    [',', ' '].intercalate (piece :: rest) =
      [','].intercalate (piece :: rest.map (' ' :: ·)) := by
  induction rest generalizing piece with
  | nil => simp
  | cons next rest ih =>
    rw [List.intercalate_cons_cons, ih, List.map_cons, List.intercalate_cons_cons,
      List.intercalate_cons_cons_left]
    simp

theorem written_commas (path : TypePath) :
    Written path (Text.commas (path.map TypeStep.render)).toList := by
  cases path with
  | nil => exact .blank Text.blank_nil
  | cons step path =>
    have htext : (Text.commas ((step :: path).map TypeStep.render)).toList =
        [','].intercalate (step.render.toList :: path.map fun s => ' ' :: s.render.toList) := by
      simp only [Text.commas, String.toList_intercalate, List.map_cons, List.map_map]
      exact (intercalate_comma_blank _ _).trans (by simp [Function.comp_def])
    rw [htext]
    refine .steps (by simp) (.cons ⟨_, step.spelled_render, Text.padded_self _⟩ ?_)
    rw [List.forall₂_map_right_iff, List.forall₂_same]
    intro s _
    have hblank : Text.Blank [' '] := by simp [Text.Blank, Text.isBlank]
    exact ⟨_, s.spelled_render, [' '], [], hblank, Text.blank_nil, by simp⟩

theorem parse_commas (path : TypePath) :
    parse (Text.commas (path.map TypeStep.render)) = .ok path :=
  parse_eq_ok_iff.mpr (written_commas path)

theorem render_injective : Function.Injective render := by
  intro p q h
  have hinside : Text.commas (p.map TypeStep.render) = Text.commas (q.map TypeStep.render) := by
    simpa [render, Text.inspectList] using h
  have hread := (parse_commas p).symm.trans (hinside ▸ parse_commas q)
  exact Except.ok.inj hread

/-- Reading accepts exactly the grammar. A text outside of it is refused for its first ill-formed
step, without the blanks around that. What is printed, less its brackets, reads back. -/
theorem parse_follows_grammar :
    (∀ text path, parse text = .ok path ↔ Written path text.toList) ∧
    (∀ text e, parse text = .error e ↔ ¬ Text.Blank text.toList ∧
      ∃ word, FirstFault text.toList word ∧ e = .invalidTypeStep (String.ofList word)) ∧
    (∀ path, ∃ inside, render path = "[" ++ inside ++ "]" ∧ parse inside = .ok path) ∧
    Function.Injective render :=
  ⟨fun _ _ => parse_eq_ok_iff, fun _ _ => parse_eq_error_iff,
    fun path => ⟨_, rfl, parse_commas path⟩, render_injective⟩

example : parse "\tTYPE_ARGUMENT( +007 ) ,WILDCARD" = .ok [.argument 7, .wildcard] := by
  decide +kernel

example : parse "ARRAY,TYPE_ARGUMENT(256) ,," =
    .error (.invalidTypeStep "TYPE_ARGUMENT(256)") := by
  decide +kernel

end TypePath

end AnnotationScene
