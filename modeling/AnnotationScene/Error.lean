import AnnotationScene.Text.Inspect

/-!
# Errors of scene operations

Each constructor is a cause; `SceneError.message` has the wording. An `Attempt` also tells what is
there after a failure. `tryOnce` is the rule for data that may be learned late but never changes
afterwards.
-/

namespace AnnotationScene

inductive TypePathFault
  | oddLength
  | invalidStep
deriving DecidableEq, Repr

def TypePathFault.message : TypePathFault → String
  | .oddLength => "odd number of integers"
  | .invalidStep => "invalid step"

inductive SceneError
  | conflictingValue (what old new : String)
  | rename (old new : String)
  | malformedTypePath (encoding : List Int32) (fault : TypePathFault)
  | invalidTypeStep (text : String)
  | unknownField (owner field : String)
  | valueMismatch (owner field expected : String)
deriving DecidableEq

def SceneError.message : SceneError → String
  | .conflictingValue what old new => s!"{what} already set to {old}, cannot change it to {new}"
  | .rename old new => s!"cannot rename {old} to {new}: only placeholder names may change"
  | .malformedTypePath encoding fault =>
    "malformed type path " ++ Text.inspectList (encoding.map fun n => toString n.toInt) ++ ": " ++
      fault.message
  | .invalidTypeStep text => s!"invalid type path step `{text}`"
  | .unknownField owner field => s!"annotation @{owner} has no field `{field}`"
  | .valueMismatch owner field expected =>
    s!"value for @{owner}.{field} does not match declared type {expected}"

/-- What comes of trying to change something: whether the change was accepted, and what is there
afterwards in either case. -/
structure Attempt (σ : Type) where
  answer : Except SceneError Unit
  after : σ

namespace Attempt

variable {σ τ : Type} {a : Attempt σ} {error : SceneError}

/-- The attempt seen from a whole of which only a part was tried. -/
def map (f : σ → τ) (a : Attempt σ) : Attempt τ := ⟨a.answer, f a.after⟩

def andThen (a : Attempt σ) (f : σ → σ) : Attempt σ :=
  match a.answer with
  | .ok () => ⟨.ok (), f a.after⟩
  | .error e => ⟨.error e, a.after⟩

@[simp] theorem answer_map (f : σ → τ) : (a.map f).answer = a.answer := rfl

@[simp] theorem after_map (f : σ → τ) : (a.map f).after = f a.after := rfl

@[simp]
theorem andThen_id (a : Attempt σ) : a.andThen id = a := by
  obtain ⟨answer, after⟩ := a
  cases answer <;> rfl

@[simp]
theorem answer_andThen (f : σ → σ) : (a.andThen f).answer = a.answer := by
  obtain ⟨answer, after⟩ := a
  cases answer <;> rfl

theorem after_andThen_of_error (f : σ → σ) (h : a.answer = .error error) :
    (a.andThen f).after = a.after := by
  simp [andThen, h]

theorem after_andThen_of_ok (f : σ → σ) (h : a.answer = .ok ()) :
    (a.andThen f).after = f a.after := by
  simp [andThen, h]

theorem map_andThen (f : σ → σ) (f' : τ → τ) (g : σ → τ) (h : ∀ s, g (f s) = f' (g s)) :
    (a.andThen f).map g = (a.map g).andThen f' := by
  obtain ⟨answer, after⟩ := a
  cases answer with
  | ok => exact congrArg (Attempt.mk _) (h after)
  | error => rfl

/-- What does not follow can be told without knowing the answer. -/
theorem apply_after_andThen {β : Type} (view : σ → β) {f : σ → σ} (h : ∀ s, view (f s) = view s) :
    view (a.andThen f).after = view a.after := by
  obtain ⟨answer, after⟩ := a
  cases answer with
  | ok => exact h after
  | error => rfl

end Attempt

/-- Offers a value to a slot. No value leaves the slot alone, an empty slot takes the value, and a
filled one only accepts what it holds. -/
def tryOnce {α : Type} (same : α → α → Bool) (inspect : α → String) (what : String)
    (slot value : Option α) : Attempt (Option α) :=
  match slot, value with
  | slot, none => ⟨.ok (), slot⟩
  | none, some new => ⟨.ok (), some new⟩
  | some old, some new =>
    if same old new then ⟨.ok (), some old⟩
    else ⟨.error (.conflictingValue what (inspect old) (inspect new)), some old⟩

section TryOnce

variable {α : Type} {same : α → α → Bool} {inspect : α → String} {what : String}
  {slot value : Option α} {error : SceneError}

theorem after_tryOnce : (tryOnce same inspect what slot value).after = slot.or value := by
  unfold tryOnce
  split
  next => simp
  next => rfl
  next => split <;> rfl

theorem answer_tryOnce_eq_error_iff : (tryOnce same inspect what slot value).answer = .error error ↔
    ∃ old new, slot = some old ∧ value = some new ∧ same old new = false ∧
      error = .conflictingValue what (inspect old) (inspect new) := by
  unfold tryOnce
  split
  next => simp
  next => simp
  next old new =>
    split
    next h => simp [h]
    next h =>
      simp only [Except.error.injEq, Option.some.injEq, exists_and_left, exists_eq_left', h,
        true_and]
      exact eq_comm

theorem after_tryOnce_of_error (h : (tryOnce same inspect what slot value).answer = .error error) :
    (tryOnce same inspect what slot value).after = slot := by
  obtain ⟨old, new, rfl, rfl, -⟩ := answer_tryOnce_eq_error_iff.mp h
  rw [after_tryOnce, Option.some_or]

end TryOnce

end AnnotationScene
