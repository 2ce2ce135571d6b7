import AnnotationScene.Proofs.SettingOnce
import Mathlib.Data.List.DropRight

/-!
# Kinds of classes

A class keeps, for each kind, the simple names of the classes that were called so; outer classes
may be known by name only. To be given enum constants makes it an enum itself, unless they are
refused. After any calls a name is of a kind exactly if one of them said so of a class with the
same simple name.
-/

namespace AnnotationScene

-- ---------------------------------------------------------------------------
-- Simple names
-- ---------------------------------------------------------------------------

/-- What stands between packages and classes, and between a class and those nested in it. -/
def IsSeparator (c : Char) : Prop := c = '.' ∨ c = '$'

instance (c : Char) : Decidable (IsSeparator c) := inferInstanceAs (Decidable (_ ∨ _))

/-- The longest end of a text that is free of separators. -/
structure IsSimpleEnd (text simple : List Char) : Prop where
  suffix : simple <:+ text
  free : ∀ c ∈ simple, ¬ IsSeparator c
  longest : ∀ s, s <:+ text → (∀ c ∈ s, ¬ IsSeparator c) → s.length ≤ simple.length

theorem IsSimpleEnd.unique {text simple other : List Char} (h : IsSimpleEnd text simple)
    (hother : IsSimpleEnd text other) : simple = other := by
  have hle := hother.longest simple h.suffix h.free
  have hge := h.longest other hother.suffix hother.free
  exact (List.suffix_of_suffix_length_le h.suffix hother.suffix hle).eq_of_length
    (Nat.le_antisymm hle hge)

theorem toList_simpleName (text : String) :
    (simpleName text).toList = text.toList.rtakeWhile fun c => ¬ IsSeparator c := by
  have hfree : (fun c => c != '.' && c != '$') = fun c => decide (¬ IsSeparator c) := by
    funext c
    rw [Bool.eq_iff_iff]
    simp [IsSeparator]
  simp only [simpleName, hfree, String.toList_ofList, List.rtakeWhile]

theorem isSimpleEnd_simpleName (text : String) :
    IsSimpleEnd text.toList (simpleName text).toList := by
  rw [toList_simpleName]
  refine ⟨List.rtakeWhile_suffix _ _, fun c hc => by simpa using List.mem_rtakeWhile_imp hc, ?_⟩
  rintro s ⟨start, hs⟩ hfree
  -- an end without separators is taken as a whole, and maybe more before it
  have hwhole : text.toList.rtakeWhile (fun c => ¬ IsSeparator c) =
      start.rtakeWhile (fun c => ¬ IsSeparator c) ++ s := by
    rw [← hs, List.rtakeWhile, List.reverse_append,
      List.takeWhile_append_of_pos (by simpa using hfree), List.reverse_append,
      List.reverse_reverse, ← List.rtakeWhile]
  rw [hwhole, List.length_append]
  exact Nat.le_add_left _ _

theorem simpleName_eq_iff {text simple : String} :
    simpleName text = simple ↔ IsSimpleEnd text.toList simple.toList := by
  constructor
  · rintro rfl
    exact isSimpleEnd_simpleName text
  · intro h
    exact String.toList_inj.mp ((isSimpleEnd_simpleName text).unique h)

theorem simpleName_simpleName (text : String) : simpleName (simpleName text) = simpleName text := by
  refine String.toList_inj.mp ?_
  rw [toList_simpleName (simpleName text), toList_simpleName, List.rtakeWhile_idempotent]

theorem simpleName_push_append (start text : String) {c : Char} (hc : IsSeparator c) :
    simpleName (start.push c ++ text) = simpleName text := by
  refine String.toList_inj.mp ?_
  rw [toList_simpleName, toList_simpleName, String.toList_append, String.toList_push]
  -- names are read from the end, so the separator comes up after all of the text
  induction text.toList using List.reverseRecOn with
  | nil => simp [hc]
  | append_singleton text last ih =>
    rw [← List.append_assoc, List.rtakeWhile_concat, List.rtakeWhile_concat, ih]

-- ---------------------------------------------------------------------------
-- Marks
-- ---------------------------------------------------------------------------

namespace Element

variable {e : Element .classType} {kind : ClassKind} {className : String}

theorem isKind_iff : e.isKind kind className = true ↔
    simpleName className ∈ e.detail.marks.names kind := by
  simp [isKind]

theorem isKind_markAs (e : Element .classType) (k : ClassKind) (m : String) :
    (e.markAs k m).isKind kind className = true ↔
      e.isKind kind className = true ∨ (kind = k ∧ simpleName m = simpleName className) := by
  have hmarks : (e.markAs k m).detail.marks = e.detail.marks.mark k m := rfl
  rw [isKind_iff, isKind_iff, hmarks, ClassMarks.names_mark]
  split
  next h => simp [NameSet.mem_insert, h, eq_comm, or_comm]
  next h => simp [h]

theorem isKind_tryEnumConstants (e : Element .classType) (constants : List String) :
    (e.tryEnumConstants constants).after.isKind kind className = true ↔
      e.isKind kind className = true ∨ ((e.tryEnumConstants constants).answer = .ok () ∧
        kind = .enum ∧ simpleName e.className = simpleName className) := by
  unfold tryEnumConstants
  set offered := (tryOnce (· == ·) Text.inspectTexts "enum constants" e.detail.enumConstants
    (some constants)).map fun enumConstants => e.withDetail { e.detail with enumConstants }
  have hkept : offered.after.isKind kind className = e.isKind kind className := rfl
  have hname : offered.after.className = e.className := rfl
  cases hanswer : offered.answer with
  | ok =>
    rw [Attempt.after_andThen_of_ok _ hanswer, isKind_markAs, hkept, hname]
    simp [hanswer]
  | error error =>
    rw [Attempt.after_andThen_of_error _ hanswer, hkept]
    simp [hanswer]

end Element

-- ---------------------------------------------------------------------------
-- Calls
-- ---------------------------------------------------------------------------

inductive MarkCall
  | markAs (kind : ClassKind) (className : String)
  | enumConstants (constants : List String)

/-- What the call means for a name, if it is made to the class `own`. -/
def MarkCall.Marks (own : String) (kind : ClassKind) (className : String) : MarkCall → Prop
  | .markAs k m => kind = k ∧ simpleName m = simpleName className
  | .enumConstants _ => kind = .enum ∧ simpleName own = simpleName className

namespace Element

variable {e : Element .classType} {kind : ClassKind} {className : String}

def call (e : Element .classType) : MarkCall → Attempt (Element .classType)
  | .markAs kind className => ⟨.ok (), e.markAs kind className⟩
  | .enumConstants constants => e.tryEnumConstants constants

def callAll (e : Element .classType) (calls : List MarkCall) : Element .classType :=
  calls.foldl (fun e c => (e.call c).after) e

/-- The call was made among the others, and accepted when it was made. -/
def Accepts (e : Element .classType) (calls : List MarkCall) (c : MarkCall) : Prop :=
  ∃ before after, calls = before ++ c :: after ∧ ((e.callAll before).call c).answer = .ok ()

theorem className_call (e : Element .classType) (c : MarkCall) :
    (e.call c).after.className = e.className := by
  cases c with
  | markAs k m => rfl
  | enumConstants constants =>
    exact Attempt.apply_after_andThen Element.className fun _ => rfl

theorem isKind_call (e : Element .classType) (c : MarkCall) :
    (e.call c).after.isKind kind className = true ↔
      e.isKind kind className = true ∨
        ((e.call c).answer = .ok () ∧ c.Marks e.className kind className) := by
  cases c with
  | markAs k m => simp [call, MarkCall.Marks, isKind_markAs]
  | enumConstants constants => exact e.isKind_tryEnumConstants constants

theorem accepts_cons {first c : MarkCall} {rest : List MarkCall} :
    e.Accepts (first :: rest) c ↔
      (c = first ∧ (e.call first).answer = .ok ()) ∨ (e.call first).after.Accepts rest c := by
  constructor
  · rintro ⟨before, after, hsplit, hok⟩
    cases before with
    | nil =>
      obtain ⟨rfl, rfl⟩ := List.cons.inj hsplit
      exact .inl ⟨rfl, hok⟩
    | cons head before =>
      obtain ⟨rfl, rfl⟩ := List.cons.inj hsplit
      exact .inr ⟨before, after, rfl, hok⟩
  · rintro (⟨rfl, hok⟩ | ⟨before, after, rfl, hok⟩)
    · exact ⟨[], rest, rfl, hok⟩
    · exact ⟨first :: before, after, rfl, hok⟩

theorem accepts_markAs {calls : List MarkCall} {k : ClassKind} {m : String} :
    e.Accepts calls (.markAs k m) ↔ .markAs k m ∈ calls := by
  simp only [Accepts, call, and_true, List.mem_iff_append]

theorem isKind_callAll (e : Element .classType) (calls : List MarkCall) :
    (e.callAll calls).isKind kind className = true ↔
      e.isKind kind className = true ∨
        ∃ c, e.Accepts calls c ∧ c.Marks e.className kind className := by
  induction calls generalizing e with
  | nil => simp [callAll, Accepts]
  | cons first rest ih =>
    have hrest := ih (e.call first).after
    rw [className_call, isKind_call] at hrest
    rw [callAll, List.foldl_cons, ← callAll, hrest, or_assoc]
    simp [accepts_cons, or_and_right, exists_or, and_assoc]

theorem isKind_classType (own : String) : (classType own).isKind kind className = false := by
  cases kind <;> rfl

theorem exists_accepts_marks_iff {calls : List MarkCall} {own : String} :
    (∃ c, e.Accepts calls c ∧ c.Marks own kind className) ↔
      (∃ m, .markAs kind m ∈ calls ∧ simpleName m = simpleName className) ∨
      (kind = .enum ∧ (∃ constants, e.Accepts calls (.enumConstants constants)) ∧
        simpleName className = simpleName own) := by
  constructor
  · rintro ⟨c, haccepts, hmarks⟩
    cases c with
    | markAs k m =>
      obtain ⟨rfl, hsame⟩ := hmarks
      exact .inl ⟨m, accepts_markAs.mp haccepts, hsame⟩
    | enumConstants constants =>
      obtain ⟨rfl, hsame⟩ := hmarks
      exact .inr ⟨rfl, ⟨constants, haccepts⟩, hsame.symm⟩
  · rintro (⟨m, hmem, hsame⟩ | ⟨rfl, ⟨constants, haccepts⟩, hsame⟩)
    · exact ⟨.markAs kind m, accepts_markAs.mpr hmem, rfl, hsame⟩
    · exact ⟨.enumConstants constants, haccepts, rfl, hsame.symm⟩

/-- A fresh class, after any calls, takes a name to be of a kind exactly if it was told so of a
class with the same simple name, or if it accepted enum constants and the name is its own but for
what precedes the simple name. A simple name is the longest end without separators. It is its own
simple name, and what ends in a separator can be put before a name without changing it. -/
theorem isKind_after_calls (own : String) (calls : List MarkCall) (kind : ClassKind)
    (className : String) :
    (((classType own).callAll calls).isKind kind className = true ↔
      (∃ m, .markAs kind m ∈ calls ∧ simpleName m = simpleName className) ∨
      (kind = .enum ∧ (∃ constants, (classType own).Accepts calls (.enumConstants constants)) ∧
        simpleName className = simpleName own)) ∧
    (∀ text simple, simpleName text = simple ↔ IsSimpleEnd text.toList simple.toList) ∧
    (∀ text, simpleName (simpleName text) = simpleName text) ∧
    (∀ (start text : String) (c : Char), IsSeparator c →
      simpleName (start.push c ++ text) = simpleName text) := by
  refine ⟨?_, fun text simple => simpleName_eq_iff, simpleName_simpleName,
    fun start text c hc => simpleName_push_append start text hc⟩
  have hown : (classType own).className = own := rfl
  rw [isKind_callAll, isKind_classType, hown, exists_accepts_marks_iff]
  simp

theorem isKind_after_calls_nested :
    let own := "a.Outer$Inner"
    let calls := [.markAs .interface "a.Outer", .enumConstants ["X"], .enumConstants ["Y"],
      .markAs .record "a.b."]
    let e := (classType own).callAll calls
    e.isKind .interface "b.Outer" = true ∧ e.isKind .enum "Inner" = true ∧
    e.isKind .enum "Outer" = false ∧ e.isKind .record "" = true ∧
    IsSeparator '$' ∧ simpleName ("a.Outer".push '$' ++ "Inner") = simpleName "Inner" := by
  intro own calls e
  have houter : e.isKind .interface "b.Outer" = true :=
    (isKind_after_calls own calls .interface "b.Outer").1.mpr
      (.inl ⟨"a.Outer", by simp [calls], by decide +kernel⟩)
  have hinner : e.isKind .enum "Inner" = true :=
    (isKind_after_calls own calls .enum "Inner").1.mpr
      (.inr ⟨rfl, ⟨["X"], calls.take 1, calls.drop 2, rfl, rfl⟩, by decide +kernel⟩)
  have hempty : e.isKind .record "" = true :=
    (isKind_after_calls own calls .record "").1.mpr
      (.inl ⟨"a.b.", by simp [calls], by decide +kernel⟩)
  obtain ⟨honly, -, -, hput⟩ := isKind_after_calls own calls .enum "Outer"
  refine ⟨houter, hinner, ?_, hempty, .inr rfl, hput "a.Outer" "Inner" '$' (.inr rfl)⟩
  rw [Bool.eq_false_iff, ne_eq, honly]
  rintro (⟨m, hmem, -⟩ | ⟨-, -, hsame⟩)
  · simp [calls] at hmem
  · exact absurd hsame (by decide +kernel)

end Element

end AnnotationScene
