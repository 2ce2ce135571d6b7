import AnnotationScene.Annotation.Unify
import AnnotationScene.Element.Edit
import AnnotationScene.Proofs.Parsing

/-!
# Slots that are set once

The return type and the type parameters of a method, the type of a field, the constants of an enum
and the field types of a definition are slots that are set late and once. The calls that set them
come in any order; they may give nothing, give the same again or contradict what is held. Whatever
they were, a slot holds what it held at first, or else what it was first given. A call is refused
exactly if it contradicts what is held, and then changes nothing. The name of a field may be
changed again and again, but only until it is no number.
-/

namespace AnnotationScene

-- ---------------------------------------------------------------------------
-- Names that are numbers
-- ---------------------------------------------------------------------------

namespace Text

variable {s : List Char}

/-- Digits after at most one sign, of a value that fits in 64 bits. -/
inductive LongNumeral : Int → List Char → Prop
  | plain {n : Nat} {s : List Char} :
      Digits n s → n ≤ 9223372036854775807 → LongNumeral n s
  | positive {n : Nat} {s : List Char} :
      Digits n s → n ≤ 9223372036854775807 → LongNumeral n ('+' :: s)
  | negative {n : Nat} {s : List Char} :
      Digits n s → n ≤ 9223372036854775808 → LongNumeral (-n) ('-' :: s)

def long? (n : Int) : Option Int64 :=
  if Int64.minValue.toInt ≤ n && n ≤ Int64.maxValue.toInt then some (Int64.ofInt n) else none

theorem isSome_long?_iff {n : Int} :
    (long? n).isSome = true ↔ -9223372036854775808 ≤ n ∧ n ≤ 9223372036854775807 := by
  have hmin : Int64.minValue.toInt = -9223372036854775808 := by decide
  have hmax : Int64.maxValue.toInt = 9223372036854775807 := by decide
  simp [long?, hmin, hmax]

theorem int64?_negative (s : List Char) :
    int64? ('-' :: s) = (nat? s).bind fun n => long? (-n) := by
  unfold int64?
  cases hs : nat? s <;> simp [hs, long?]

theorem int64?_positive (s : List Char) : int64? ('+' :: s) = (nat? s).bind fun n => long? n := by
  unfold int64?
  cases hs : nat? s <;> simp [hs, long?]

theorem int64?_plain (hplus : ∀ rest, s ≠ '+' :: rest) (hminus : ∀ rest, s ≠ '-' :: rest) :
    int64? s = (nat? s).bind fun n => long? n := by
  unfold int64?
  split
  next rest => exact (hminus rest rfl).elim
  next rest => exact (hplus rest rfl).elim
  next => cases nat? s <;> simp [long?]

theorem isSome_bind_long?_iff {f : Nat → Int} :
    ((nat? s).bind fun n => long? (f n)).isSome = true ↔
      ∃ n, Digits n s ∧ -9223372036854775808 ≤ f n ∧ f n ≤ 9223372036854775807 := by
  simp only [Option.isSome_bind, Option.any_eq_true, nat?_eq_some_iff, isSome_long?_iff]

theorem Digits.not_negative {n : Nat} (h : Digits n s) (rest : List Char) : s ≠ '-' :: rest := by
  rintro rfl
  exact absurd (h.isDigit '-' (by simp)) (by decide)

theorem isSome_int64?_iff : (int64? s).isSome = true ↔ ∃ n, LongNumeral n s := by
  constructor
  · intro h
    by_cases hminus : ∃ rest, s = '-' :: rest
    · obtain ⟨rest, rfl⟩ := hminus
      rw [int64?_negative, isSome_bind_long?_iff] at h
      obtain ⟨n, hn, hfits, -⟩ := h
      exact ⟨_, .negative hn (by omega)⟩
    by_cases hplus : ∃ rest, s = '+' :: rest
    · obtain ⟨rest, rfl⟩ := hplus
      rw [int64?_positive, isSome_bind_long?_iff] at h
      obtain ⟨n, hn, -, hfits⟩ := h
      exact ⟨_, .positive hn (by omega)⟩
    · rw [int64?_plain (fun rest hs => hplus ⟨rest, hs⟩) (fun rest hs => hminus ⟨rest, hs⟩),
        isSome_bind_long?_iff] at h
      obtain ⟨n, hn, -, hfits⟩ := h
      exact ⟨_, .plain hn (by omega)⟩
  · rintro ⟨n, hnumeral⟩
    cases hnumeral with
    | plain hn hfits =>
      rw [int64?_plain hn.not_signed hn.not_negative, isSome_bind_long?_iff]
      exact ⟨_, hn, by omega, by omega⟩
    | positive hn hfits =>
      rw [int64?_positive, isSome_bind_long?_iff]
      exact ⟨_, hn, by omega, by omega⟩
    | negative hn hfits =>
      rw [int64?_negative, isSome_bind_long?_iff]
      exact ⟨_, hn, by omega, by omega⟩

end Text

/-- Numbers stand in for names that are not known yet. -/
def IsNumber (name : String) : Prop := ∃ n, Text.LongNumeral n name.toList

instance (name : String) : Decidable (IsNumber name) := decidable_of_iff _ Text.isSome_int64?_iff

/-- Of names in the order in which they came, the first that is no number, or else the last. -/
def settledName (name : String) (later : List String) : String :=
  ((name :: later).find? fun n => ¬ IsNumber n).getD (later.getLast?.getD name)

theorem settledName_nil (name : String) : settledName name [] = name := by
  by_cases h : IsNumber name <;> simp [settledName, h]

theorem settledName_cons (name next : String) (later : List String) :
    settledName name (next :: later) =
      if IsNumber name then settledName next later else name := by
  split
  next h => simp [settledName, h, List.getLast?_cons]
  next h => simp [settledName, h]

theorem settledName_of_not_isNumber {name : String} (h : ¬ IsNumber name) (later : List String) :
    settledName name later = name := by
  simp [settledName, h]

namespace Element

theorem hasPlaceholderName_iff (e : Element .field) :
    e.hasPlaceholderName = true ↔ IsNumber e.fieldName :=
  Text.isSome_int64?_iff

/-- A name is taken or refused. The name that the field has is taken in any case. -/
theorem tryFieldName_cases (e : Element .field) (name : String) :
    (e.tryFieldName name = ⟨.ok (), e.withDetail { e.detail with name }⟩ ∧
      (name = e.fieldName ∨ IsNumber e.fieldName)) ∨
    (e.tryFieldName name = ⟨.error (.rename e.fieldName name), e⟩ ∧
      name ≠ e.fieldName ∧ ¬ IsNumber e.fieldName) := by
  unfold tryFieldName
  split
  next h =>
    subst h
    have hkept : e.withDetail { e.detail with name := e.fieldName } = e := e.withDetail_detail
    rw [hkept]
    exact .inl ⟨rfl, .inl rfl⟩
  next hne =>
    split
    next h => exact .inl ⟨rfl, .inr (e.hasPlaceholderName_iff.mp h)⟩
    next h => exact .inr ⟨rfl, hne, mt e.hasPlaceholderName_iff.mpr h⟩

theorem fieldName_tryFieldName (e : Element .field) (name : String) :
    (e.tryFieldName name).after.fieldName =
      if IsNumber e.fieldName then name else e.fieldName := by
  rcases e.tryFieldName_cases name with ⟨h, htaken⟩ | ⟨h, -, hsettled⟩
  · have hafter : (e.tryFieldName name).after.fieldName = name := by rw [h]; rfl
    rw [hafter]
    split
    next => rfl
    next hsettled => exact htaken.resolve_right hsettled
  · rw [h, if_neg hsettled]

end Element

-- ---------------------------------------------------------------------------
-- Slots and calls
-- ---------------------------------------------------------------------------

inductive OnceSlot
  | returnText
  | typeParameters
  | typeText
  | enumConstants
  | fieldTypes
deriving DecidableEq

namespace OnceSlot

variable {slot : OnceSlot}

abbrev Value : OnceSlot → Type
  | .returnText => String
  | .typeParameters => List String
  | .typeText => String
  | .enumConstants => List String
  | .fieldTypes => List (String × FieldType)

/-- Field types may be given in other words, with definitions that are the same. -/
def Same : (slot : OnceSlot) → slot.Value → slot.Value → Prop
  | .returnText, v, w => v = w
  | .typeParameters, v, w => v = w
  | .typeText, v, w => v = w
  | .enumConstants, v, w => v = w
  | .fieldTypes, v, w => FieldType.sameTable v w = true

def same : (slot : OnceSlot) → slot.Value → slot.Value → Bool
  | .returnText, v, w => v == w
  | .typeParameters, v, w => v == w
  | .typeText, v, w => v == w
  | .enumConstants, v, w => v == w
  | .fieldTypes, v, w => FieldType.isSameTable v w

theorem same_eq_false_iff {v w : slot.Value} : slot.same v w = false ↔ ¬ slot.Same v w := by
  cases slot <;> simp [same, Same]

def label : OnceSlot → String
  | .returnText => "return type mirror"
  | .typeParameters => "type parameters"
  | .typeText => "field type mirror"
  | .enumConstants => "enum constants"
  | .fieldTypes => "annotation field types"

def inspect : (slot : OnceSlot) → slot.Value → String
  | .returnText, text => Text.quote text
  | .typeParameters, names => Text.inspectTexts names
  | .typeText, text => Text.quote text
  | .enumConstants, names => Text.inspectTexts names
  | .fieldTypes, table => Text.inspectTable (FieldType.inspectTable table)

end OnceSlot

inductive SetterCall
  | returnText (text : Option String)
  | typeParameters (parameters : Option (List String))
  | typeText (text : Option String)
  | fieldName (name : String)
  | enumConstants (constants : List String)
  | fieldTypes (types : List (String × FieldType))

namespace SetterCall

/-- The slot that a call sets, if it does not rename a field. -/
def slot? : SetterCall → Option OnceSlot
  | .returnText _ => some .returnText
  | .typeParameters _ => some .typeParameters
  | .typeText _ => some .typeText
  | .fieldName _ => none
  | .enumConstants _ => some .enumConstants
  | .fieldTypes _ => some .fieldTypes

def given? : SetterCall → (slot : OnceSlot) → Option slot.Value
  | .returnText text, .returnText => text
  | .typeParameters parameters, .typeParameters => parameters
  | .typeText text, .typeText => text
  | .enumConstants constants, .enumConstants => some constants
  | .fieldTypes types, .fieldTypes => some types
  | _, _ => none

theorem given?_eq_none {c : SetterCall} {slot : OnceSlot} (h : c.slot? ≠ some slot) :
    c.given? slot = none := by
  cases c <;> cases slot <;> simp_all [slot?, given?]

theorem exists_name {c : SetterCall} (h : c.slot? = none) : ∃ name, c = .fieldName name := by
  cases c <;> simp_all [slot?]

def name? : SetterCall → Option String
  | .fieldName name => some name
  | _ => none

end SetterCall

/-- One element of each sort that has such setters. -/
structure SetterTargets where
  method : Element .method
  field : Element .field
  classType : Element .classType
  definition : Definition

namespace SetterTargets

variable {s : SetterTargets} {c : SetterCall} {slot : OnceSlot} {error : SceneError}

def held? (s : SetterTargets) : (slot : OnceSlot) → Option slot.Value
  | .returnText => s.method.detail.returnText
  | .typeParameters => s.method.detail.typeParameters
  | .typeText => s.field.detail.typeText
  | .enumConstants => s.classType.detail.enumConstants
  | .fieldTypes => s.definition.fields

def call (s : SetterTargets) : SetterCall → Attempt SetterTargets
  | .returnText text => (s.method.tryReturnText text).map fun method => { s with method }
  | .typeParameters parameters =>
    (s.method.tryTypeParameters parameters).map fun method => { s with method }
  | .typeText text => (s.field.tryTypeText text).map fun field => { s with field }
  | .fieldName name => (s.field.tryFieldName name).map fun field => { s with field }
  | .enumConstants constants =>
    (s.classType.tryEnumConstants constants).map fun classType => { s with classType }
  | .fieldTypes types => (s.definition.tryFields types).map fun definition => { s with definition }

/-- The targets after all calls, the refused ones included. -/
def callAll (s : SetterTargets) (calls : List SetterCall) : SetterTargets :=
  calls.foldl (fun s c => (s.call c).after) s

inductive Refuses (s : SetterTargets) : SetterCall → SceneError → Prop
  /-- It contradicts what is held. -/
  | conflict {c : SetterCall} {slot : OnceSlot} {held given : slot.Value} :
      s.held? slot = some held → c.given? slot = some given → ¬ slot.Same held given →
      s.Refuses c (.conflictingValue slot.label (slot.inspect held) (slot.inspect given))
  /-- It renames a field that has a name of its own. -/
  | rename {name : String} :
      name ≠ s.field.fieldName → ¬ IsNumber s.field.fieldName →
      s.Refuses (.fieldName name) (.rename s.field.fieldName name)

/-- The targets without all that calls can set. -/
def cleared (s : SetterTargets) : SetterTargets where
  method := s.method.withDetail { signature := s.method.signature }
  field := s.field.withDetail { name := "" }
  classType := s.classType.withDetail { name := s.classType.className }
  definition := { s.definition with fields := none }

-- ---------------------------------------------------------------------------
-- One call
-- ---------------------------------------------------------------------------

def setSlot (s : SetterTargets) : (slot : OnceSlot) → Option slot.Value → SetterTargets
  | .returnText, returnText =>
    { s with method := s.method.withDetail { s.method.detail with returnText } }
  | .typeParameters, typeParameters =>
    { s with method := s.method.withDetail { s.method.detail with typeParameters } }
  | .typeText, typeText => { s with field := s.field.withDetail { s.field.detail with typeText } }
  | .enumConstants, enumConstants =>
    { s with classType := s.classType.withDetail { s.classType.detail with enumConstants } }
  | .fieldTypes, fields => { s with definition := { s.definition with fields } }

/-- What is done besides once a value was accepted: a class that has constants is an enum. -/
def followUp : OnceSlot → SetterTargets → SetterTargets
  | .enumConstants => fun s =>
    { s with classType := s.classType.markAs .enum s.classType.className }
  | _ => id

/-- All slots are set alike. -/
theorem call_eq (s : SetterTargets) (h : c.slot? = some slot) :
    s.call c = ((tryOnce slot.same slot.inspect slot.label (s.held? slot)
      (c.given? slot)).map (s.setSlot slot)).andThen (followUp slot) := by
  cases c with
  | fieldName name => cases h
  | enumConstants constants =>
    cases h
    -- the class is marked before it takes its place again, or afterwards
    exact Attempt.map_andThen (fun e => e.markAs .enum e.className) (followUp .enumConstants)
      (fun classType => { s with classType }) fun _ => rfl
  | _ =>
    cases h
    exact (Attempt.andThen_id _).symm

/-- Besides the slot itself only the follow-up can show. -/
theorem apply_after_call {β : Type} (view : SetterTargets → β) (hslot : c.slot? = some slot)
    (hview : ∀ t, view (followUp slot t) = view t) :
    view (s.call c).after = view (s.setSlot slot ((s.held? slot).or (c.given? slot))) := by
  rw [call_eq s hslot, Attempt.apply_after_andThen view hview, Attempt.after_map, after_tryOnce]

theorem setSlot_held? (s : SetterTargets) (slot : OnceSlot) :
    s.setSlot slot (s.held? slot) = s := by
  obtain ⟨method, field, classType, definition⟩ := s
  cases slot with
  | returnText => exact congrArg (mk · field classType definition) method.withDetail_detail
  | typeParameters => exact congrArg (mk · field classType definition) method.withDetail_detail
  | typeText => exact congrArg (mk method · classType definition) field.withDetail_detail
  | enumConstants => exact congrArg (mk method field · definition) classType.withDetail_detail
  | fieldTypes =>
    cases definition
    rfl

theorem held?_setSlot (s : SetterTargets) (slot : OnceSlot) (value : Option slot.Value) :
    (s.setSlot slot value).held? slot = value := by
  cases slot <;> rfl

theorem held?_setSlot_of_ne (s : SetterTargets) {slot other : OnceSlot} (h : other ≠ slot)
    (value : Option slot.Value) : (s.setSlot slot value).held? other = s.held? other := by
  cases slot <;> cases other <;> simp_all [setSlot, held?]

theorem held?_followUp (s : SetterTargets) (slot other : OnceSlot) :
    (followUp slot s).held? other = s.held? other := by
  cases slot <;> cases other <;> rfl

theorem held?_call (s : SetterTargets) (c : SetterCall) (slot : OnceSlot) :
    (s.call c).after.held? slot = (s.held? slot).or (c.given? slot) := by
  cases hslot : c.slot? with
  | none =>
    obtain ⟨name, rfl⟩ := SetterCall.exists_name hslot
    rw [SetterCall.given?_eq_none (by simp [hslot]), Option.or_none]
    rcases s.field.tryFieldName_cases name with ⟨h, -⟩ | ⟨h, -⟩ <;>
      cases slot <;> simp [call, held?, h]
  | some about =>
    rw [apply_after_call (held? · slot) hslot fun t => t.held?_followUp about slot]
    by_cases h : slot = about
    · subst h
      exact s.held?_setSlot slot _
    · rw [held?_setSlot_of_ne s h, c.given?_eq_none (by simp [hslot, Ne.symm h]), Option.or_none]

theorem refuses_of_error (h : (s.call c).answer = .error error) :
    s.Refuses c error ∧ (s.call c).after = s := by
  cases hslot : c.slot? with
  | none =>
    obtain ⟨name, rfl⟩ := SetterCall.exists_name hslot
    rcases s.field.tryFieldName_cases name with ⟨hname, -⟩ | ⟨hname, hne, hsettled⟩
    · simp [call, hname] at h
    · obtain rfl : .rename s.field.fieldName name = error := by simpa [call, hname] using h
      exact ⟨.rename hne hsettled, by simp [call, hname]⟩
  | some slot =>
    rw [call_eq s hslot, Attempt.answer_andThen] at h
    refine ⟨?_, ?_⟩
    · obtain ⟨held, given, hheld, hgiven, hne, rfl⟩ := answer_tryOnce_eq_error_iff.mp h
      exact .conflict hheld hgiven (OnceSlot.same_eq_false_iff.mp hne)
    · rw [call_eq s hslot, Attempt.after_andThen_of_error _ h, Attempt.after_map,
        after_tryOnce_of_error h, setSlot_held?]

theorem answer_call_of_refuses (h : s.Refuses c error) : (s.call c).answer = .error error := by
  cases h with
  | @rename name hne hsettled =>
    rcases s.field.tryFieldName_cases name with ⟨-, hsame | hnumber⟩ | ⟨hname, -⟩
    · exact absurd hsame hne
    · exact absurd hnumber hsettled
    · simp [call, hname]
  | @conflict c slot held given hheld hgiven hne =>
    have hslot : c.slot? = some slot := by
      by_contra hother
      rw [c.given?_eq_none hother] at hgiven
      cases hgiven
    rw [call_eq s hslot, Attempt.answer_andThen, Attempt.answer_map, answer_tryOnce_eq_error_iff]
    exact ⟨held, given, hheld, hgiven, OnceSlot.same_eq_false_iff.mpr hne, rfl⟩

theorem answer_call_eq_error_iff : (s.call c).answer = .error error ↔ s.Refuses c error :=
  ⟨fun h => (refuses_of_error h).1, answer_call_of_refuses⟩

theorem answer_call_fieldName_eq_ok_iff {name : String} :
    (s.call (.fieldName name)).answer = .ok () ↔
      name = s.field.fieldName ∨ IsNumber s.field.fieldName := by
  rcases s.field.tryFieldName_cases name with ⟨hname, htaken⟩ | ⟨hname, hne, hsettled⟩
  · simp [call, hname, htaken]
  · simp [call, hname, hne, hsettled]

theorem cleared_call (s : SetterTargets) (c : SetterCall) :
    (s.call c).after.cleared = s.cleared := by
  cases hslot : c.slot? with
  | none =>
    obtain ⟨name, rfl⟩ := SetterCall.exists_name hslot
    rcases s.field.tryFieldName_cases name with ⟨h, -⟩ | ⟨h, -⟩ <;> simp [call, cleared, h]
  | some slot =>
    rw [apply_after_call cleared hslot fun t => by cases slot <;> rfl]
    cases slot <;> rfl

/-- A name gives way to the next as long as it is a number. -/
theorem fieldName_call (s : SetterTargets) (c : SetterCall) :
    (s.call c).after.field.fieldName = settledName s.field.fieldName c.name?.toList := by
  cases hslot : c.slot? with
  | none =>
    obtain ⟨name, rfl⟩ := SetterCall.exists_name hslot
    rw [SetterCall.name?, Option.toList_some, settledName_cons, settledName_nil]
    exact s.field.fieldName_tryFieldName name
  | some slot =>
    have hname : c.name? = none := by cases c <;> simp_all [SetterCall.slot?, SetterCall.name?]
    rw [apply_after_call (·.field.fieldName) hslot fun t => by cases slot <;> rfl, hname,
      Option.toList_none, settledName_nil]
    cases slot <;> rfl

-- ---------------------------------------------------------------------------
-- All calls
-- ---------------------------------------------------------------------------

theorem held?_callAll (s : SetterTargets) (calls : List SetterCall) (slot : OnceSlot) :
    (s.callAll calls).held? slot =
      (s.held? slot).or (calls.findSome? fun c => c.given? slot) := by
  induction calls generalizing s with
  | nil => simp [callAll]
  | cons c rest ih =>
    -- the rest starts from what the first call left, refused or not
    have hrest := ih (s.call c).after
    rw [held?_call, Option.or_assoc] at hrest
    rw [callAll, List.foldl_cons, ← callAll, hrest, List.findSome?_cons]
    cases c.given? slot <;> rfl

theorem cleared_callAll (s : SetterTargets) (calls : List SetterCall) :
    (s.callAll calls).cleared = s.cleared := by
  induction calls generalizing s with
  | nil => rfl
  | cons c rest ih => exact (ih _).trans (s.cleared_call c)

theorem fieldName_callAll (s : SetterTargets) (calls : List SetterCall) :
    (s.callAll calls).field.fieldName =
      settledName s.field.fieldName (calls.filterMap SetterCall.name?) := by
  induction calls generalizing s with
  | nil => exact (settledName_nil _).symm
  | cons c rest ih =>
    have hrest := ih (s.call c).after
    rw [fieldName_call] at hrest
    rw [callAll, List.foldl_cons, ← callAll, hrest]
    cases hname : c.name? with
    | none => rw [Option.toList_none, settledName_nil, List.filterMap_cons_none hname]
    | some name =>
      rw [Option.toList_some, List.filterMap_cons_some hname, settledName_cons, settledName_cons,
        settledName_nil]
      split
      next => rfl
      next h => exact settledName_of_not_isNumber h _

/-- After any calls, accepted or refused, every slot holds what it held at first or else what it
was first given, and the field has the first name that is no number, or else the latest. One more
call is refused exactly if it contradicts what is held or renames a field whose name is no number.
Then nothing at all is changed, and otherwise no other slot. From the moment a name is no number it
stays. -/
theorem callAll_keeps_first_value (s : SetterTargets) (calls : List SetterCall)
    (next : SetterCall) :
    let now := s.callAll calls
    let attempt := now.call next
    (∀ slot, now.held? slot = (s.held? slot).or (calls.findSome? fun c => c.given? slot)) ∧
    now.field.fieldName = settledName s.field.fieldName (calls.filterMap SetterCall.name?) ∧
    now.cleared = s.cleared ∧
    (∀ error, attempt.answer = .error error ↔ now.Refuses next error) ∧
    (∀ error, attempt.answer = .error error → attempt.after = now) ∧
    (∀ slot, next.given? slot = none → attempt.after.held? slot = now.held? slot) ∧
    (∀ name, (now.call (.fieldName name)).answer = .ok () ↔
      name = now.field.fieldName ∨ IsNumber now.field.fieldName) ∧
    (¬ IsNumber now.field.fieldName → ∀ later name,
      (now.callAll later).field.fieldName = now.field.fieldName ∧
      ((now.callAll later).call (.fieldName name)).answer =
        if name = now.field.fieldName then .ok ()
        else .error (.rename now.field.fieldName name)) := by
  intro now attempt
  refine ⟨s.held?_callAll calls, s.fieldName_callAll calls, s.cleared_callAll calls,
    fun error => answer_call_eq_error_iff, fun error h => (refuses_of_error h).2, ?_,
    fun name => answer_call_fieldName_eq_ok_iff, ?_⟩
  · intro slot h
    rw [held?_call, h, Option.or_none]
  · intro hsettled later name
    have hkept : (now.callAll later).field.fieldName = now.field.fieldName := by
      rw [fieldName_callAll, settledName_of_not_isNumber hsettled]
    refine ⟨hkept, ?_⟩
    split
    next hsame => exact answer_call_fieldName_eq_ok_iff.mpr (.inl (hsame.trans hkept.symm))
    next hne =>
      rw [← hkept] at hne hsettled ⊢
      exact answer_call_of_refuses (.rename hne hsettled)

theorem callAll_keeps_first_value_contradicted :
    let s : SetterTargets := ⟨.method "m()I", .field "0", .classType "p.Color", .ofName "A" "p"⟩
    let nested (source : String) := [("x", FieldType.nested (.ofName "B" source))]
    let calls := [.fieldName "+7", .returnText none, .enumConstants ["RED"],
      .returnText (some "int"), .fieldTypes (nested "q"), .returnText (some "long"),
      .fieldName "count", .fieldTypes (nested "r")]
    let now := s.callAll calls
    let attempt := now.call (.enumConstants ["BLUE"])
    now.held? .returnText = some "int" ∧ now.held? .fieldTypes = some (nested "q") ∧
    attempt.answer = .error (.conflictingValue "enum constants" (Text.inspectTexts ["RED"])
      (Text.inspectTexts ["BLUE"])) ∧
    attempt.after = now ∧ now.field.fieldName = "count" ∧ ¬ IsNumber "count" ∧
    (now.call (.fieldName "8")).answer = .error (.rename "count" "8") := by
  intro s nested calls now attempt
  obtain ⟨hslots, hname, -, hrefused, hkept, -, -, hsettled⟩ :=
    callAll_keeps_first_value s calls (.enumConstants ["BLUE"])
  have hcount : now.field.fieldName = "count" := hname.trans (by decide +kernel)
  have hno : ¬ IsNumber "count" := by decide +kernel
  have hheld : now.held? .enumConstants = some ["RED"] := hslots .enumConstants
  have hrefuses := (hrefused _).mpr
    (@Refuses.conflict now (.enumConstants ["BLUE"]) .enumConstants ["RED"] ["BLUE"] hheld rfl
      (by simp [OnceSlot.Same]))
  obtain ⟨-, hrename⟩ := hsettled (hcount ▸ hno) [] "8"
  refine ⟨hslots .returnText, hslots .fieldTypes, hrefuses, hkept _ hrefuses, hcount, hno,
    hrename.trans ?_⟩
  rw [hcount]
  exact if_neg (by decide)

end SetterTargets

end AnnotationScene
