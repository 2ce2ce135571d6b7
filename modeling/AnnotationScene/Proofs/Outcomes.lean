import Mathlib.Data.List.Forall2

/-!
# Outcomes

What it takes for a computation over a list to succeed, and what a failure says: it is that of the
first member that fails. Nothing here is about scenes.
-/

namespace AnnotationScene

variable {ε ε' α β : Type}

section

variable {l : List α} {f : α → Except ε Unit}

theorem forM_eq_ok_iff : forM l f = .ok () ↔ ∀ x ∈ l, f x = .ok () := by
  induction l with
  | nil => simp [pure, Except.pure]
  | cons x rest ih =>
    rw [List.forM_cons, List.forall_mem_cons, ← ih]
    cases f x <;> simp [bind, Except.bind]

theorem exists_of_forM_eq_error {e : ε} (h : forM l f = .error e) :
    ∃ front x rest, l = front ++ x :: rest ∧ (∀ y ∈ front, f y = .ok ()) ∧ f x = .error e := by
  induction l with
  | nil => nomatch h
  | cons x rest ih =>
    rw [List.forM_cons] at h
    cases hx : f x with
    | error e' =>
      rw [hx] at h
      obtain rfl := Except.error.inj h
      exact ⟨[], x, rest, rfl, by simp, hx⟩
    | ok u =>
      rw [hx] at h
      obtain ⟨front, y, rest', rfl, hfront, hy⟩ := ih h
      exact ⟨x :: front, y, rest', rfl, List.forall_mem_cons.mpr ⟨hx, hfront⟩, hy⟩

theorem forM_flatMap {l : List β} {g : β → List α} :
    forM (l.flatMap g) f = forM l fun x => forM (g x) f := by
  induction l with
  | nil => rfl
  | cons x rest ih => rw [List.flatMap_cons, List.forM_append, List.forM_cons, ih]

end

section

variable {l : List α} {f : α → Except ε β}

theorem mapM_eq_ok_iff {read : List β} :
    l.mapM f = .ok read ↔ List.Forall₂ (fun b a => f a = .ok b) read l := by
  induction l generalizing read with
  | nil => simp [pure, Except.pure, eq_comm]
  | cons a l ih =>
    cases ha : f a with
    | error e => simp [ha, bind, Except.bind, List.forall₂_cons_right_iff]
    | ok b =>
      cases hl : l.mapM f with
      | error e =>
        have hnone : ∀ rest, ¬ List.Forall₂ (fun b a => f a = .ok b) rest l := by
          intro rest hrest
          cases hl.symm.trans (ih.mpr hrest)
        simp [ha, hl, bind, Except.bind, List.forall₂_cons_right_iff, hnone]
      | ok bs =>
        simp [ha, hl, bind, Except.bind, pure, Except.pure, List.forall₂_cons_right_iff, ← ih,
          eq_comm]

theorem mapM_eq_error_iff {e : ε} : l.mapM f = .error e ↔
    ∃ good bad rest, l = good ++ bad :: rest ∧ (∀ a ∈ good, ∃ b, f a = .ok b) ∧
      f bad = .error e := by
  induction l with
  | nil => simp [pure, Except.pure]
  | cons a l ih =>
    constructor
    · intro h
      cases ha : f a with
      | error e' =>
        obtain rfl : e' = e := by simpa [ha, bind, Except.bind] using h
        exact ⟨[], a, l, rfl, by simp, ha⟩
      | ok b =>
        have hl : l.mapM f = .error e := by
          cases hl : l.mapM f with
          | error e' => simpa [ha, hl, bind, Except.bind] using h
          | ok bs => simp [ha, hl, bind, Except.bind, pure, Except.pure] at h
        obtain ⟨good, bad, rest, rfl, hgood, hbad⟩ := ih.mp hl
        exact ⟨a :: good, bad, rest, rfl, by simpa using ⟨⟨b, ha⟩, hgood⟩, hbad⟩
    · rintro ⟨_ | ⟨first, good⟩, bad, rest, hl, hgood, hbad⟩
      · obtain ⟨rfl, rfl⟩ := List.cons.inj hl
        simp [hbad, bind, Except.bind]
      · obtain ⟨rfl, rfl⟩ := List.cons.inj hl
        obtain ⟨⟨b, ha⟩, hgood⟩ := List.forall_mem_cons.mp hgood
        have hrest := ih.mpr ⟨good, bad, rest, rfl, hgood, hbad⟩
        simp only [List.append_eq] at hrest ⊢
        simp [ha, hrest, bind, Except.bind]

end

theorem mapError_eq_ok_iff {x : Except ε α} {f : ε → ε'} {a : α} :
    x.mapError f = .ok a ↔ x = .ok a := by
  cases x with
  | error e => constructor <;> intro h <;> nomatch h
  | ok b =>
    change Except.ok b = .ok a ↔ _
    rw [Except.ok.injEq, Except.ok.injEq]

theorem exists_of_mapError_eq_error {x : Except ε α} {f : ε → ε'} {e : ε'}
    (h : x.mapError f = .error e) : ∃ e', x = .error e' ∧ e = f e' := by
  cases x with
  | error e' => exact ⟨e', rfl, (Except.error.inj h).symm⟩
  | ok b => nomatch h

end AnnotationScene
