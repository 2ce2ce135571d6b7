import AnnotationScene.Proofs.Slots
import AnnotationScene.TypeTree
import Mathlib.Data.List.Nodup

/-!
# The course of a traversal

The parts of a type tree, each with its path, form a list that is known without any visitor:
outermost first, an array before its component and a type before its arguments, as far as these can
be numbered. A traversal goes through the layers of an array in a loop and takes the steps of the
loop off its path at the end. It does the same as a recursion that takes back each step by itself.
So it hands the visitor exactly these parts, in this order, each with the element at its path, and
its own path is what it was when it is done. A part with too many arguments is logged once, when
the last argument with a number is done.
-/

namespace AnnotationScene

namespace Element

/-- The element for a path as a visitor gets it; a missing one is new. -/
def atPath (root : Element .type) (path : TypePath) : Element .type :=
  (root.atPath? path).getD (ChildMap.fresh .innerTypes path)

def putAt (root : Element .type) (path : TypePath) (e : Element .type) : Element .type :=
  match root with
  | .mk header (.keyed entries .nil) =>
    if path.isEmpty then e else .mk header (.keyed (entries.insert path e) .nil)

theorem alterAtPath_eq {α : Type} (f : Element .type → α × Element .type) (path : TypePath)
    (root : Element .type) : root.alterAtPath f path =
      ((f (root.atPath path)).1, root.putAt path (f (root.atPath path)).2) := by
  match root, path with
  | .mk _ (.keyed _ .nil), [] => rfl
  | .mk _ (.keyed _ .nil), _ :: _ => rfl

theorem atPath?_putAt_self (root : Element .type) (path : TypePath) (e : Element .type) :
    (root.putAt path e).atPath? path = some e := by
  match root, path with
  | .mk _ (.keyed _ .nil), [] => rfl
  | .mk _ (.keyed entries .nil), step :: rest =>
    exact entries.get?_insert_self (step :: rest) e

theorem atPath?_putAt_of_ne (root : Element .type) {path other : TypePath} (hpath : path ≠ [])
    (hother : other ≠ []) (hne : other ≠ path) (e : Element .type) :
    (root.putAt path e).atPath? other = root.atPath? other := by
  match root, path, other with
  | .mk _ (.keyed entries .nil), step :: rest, step' :: rest' =>
    exact entries.get?_insert_of_ne hne e

end Element

namespace TypeTree

def arguments : TypeTree → List TypeTree
  | .named _ arguments => arguments
  | .array _ => []

mutual
/-- The parts of a tree that stands at a path, with the paths at which they stand. -/
def positions (path : TypePath) : TypeTree → List (TypeTree × TypePath)
  | .named name arguments =>
    (.named name arguments, path) :: ((positionsFrom path 0 arguments).take 256).flatten
  | .array component => (.array component, path) :: component.positions (path ++ [.array])
/-- Those of each argument; the first has the given number. -/
def positionsFrom (path : TypePath) : Nat → List TypeTree → List (List (TypeTree × TypePath))
  | _, [] => []
  | index, t :: rest =>
    t.positions (path ++ [.argument (UInt8.ofNat index)]) :: positionsFrom path (index + 1) rest
end

def overflow (count : Nat) : List TraceEntry :=
  if 256 < count then [.logged (.argumentOutOfRange 256)] else []

mutual
/-- What happens in the traversal of a tree that stands at a path. -/
def course (path : TypePath) : TypeTree → List TraceEntry
  | .named name arguments =>
    .mapCall (.named name arguments) path ::
      (((coursesFrom path 0 arguments).take 256).flatten ++ overflow arguments.length)
  | .array component => .mapCall (.array component) path :: component.course (path ++ [.array])
def coursesFrom (path : TypePath) : Nat → List TypeTree → List (List TraceEntry)
  | _, [] => []
  | index, t :: rest =>
    t.course (path ++ [.argument (UInt8.ofNat index)]) :: coursesFrom path (index + 1) rest
end

end TypeTree

def TraceEntry.position? : TraceEntry → Option (TypeTree × TypePath)
  | .mapCall part path => some (part, path)
  | .logged _ => none

-- ---------------------------------------------------------------------------
-- The loop over layers is a recursion
-- ---------------------------------------------------------------------------

namespace Cursor

variable {σ : Type} (c : Cursor σ)

@[simp]
theorem truncate_zero : c.truncate 0 = c := by simp [truncate]

@[simp]
theorem truncate_truncate (m n : Nat) : (c.truncate m).truncate n = c.truncate (m + n) := by
  have hlength : (c.path.take (c.path.length - m)).length = c.path.length - m := by simp
  have hcut : min (c.path.length - m - n) (c.path.length - m) = c.path.length - (m + n) := by omega
  simp only [truncate, hlength, List.take_take, hcut]

theorem truncate_one : c.truncate 1 = c.pop := by
  rw [truncate, pop, List.dropLast_eq_take]

end Cursor

namespace TypeTree

variable {σ : Type} (visit : TypeTree → σ → Element .type → σ × Element .type)

/-- Entered at a depth, the loop does what it does from the outermost layer and takes that many
steps more off the path. -/
theorem descend_eq_truncate : (depth : Nat) → (t : TypeTree) → (c : Cursor σ) →
    t.descend visit depth c = (t.descend visit 0 c).truncate depth
  | depth, .named _ arguments, c => by simp [descend]
  | depth, .array component, c => by
    rw [descend, descend, component.descend_eq_truncate (depth + 1),
      component.descend_eq_truncate (0 + 1), Cursor.truncate_truncate, Nat.zero_add,
      Nat.add_comm depth 1]

theorem traverse_named (name : String) (arguments : List TypeTree) (c : Cursor σ) :
    (named name arguments).traverse visit c =
      traverseArguments visit 0 arguments (c.callMap visit (.named name arguments)) := by
  rw [traverse, descend, Cursor.truncate_zero]

theorem traverse_array (component : TypeTree) (c : Cursor σ) :
    (array component).traverse visit c =
      (component.traverse visit ((c.callMap visit (.array component)).push .array)).pop := by
  rw [traverse, descend, descend_eq_truncate, Cursor.truncate_one, traverse]

theorem traverseArguments_cons (index : Nat) (t : TypeTree) (rest : List TypeTree)
    (c : Cursor σ) : traverseArguments visit index (t :: rest) c =
      if index < 256 then
        traverseArguments visit (index + 1) rest
          (t.traverse visit (c.push (.argument (UInt8.ofNat index)))).pop
      else c.log (.argumentOutOfRange index) := by
  rw [traverseArguments]
  rfl

end TypeTree

-- ---------------------------------------------------------------------------
-- The traversal follows the course
-- ---------------------------------------------------------------------------

namespace Cursor

variable {σ : Type} (visit : TypeTree → σ → Element .type → σ × Element .type)

/-- Lets one thing happen; the path of the cursor does not matter to it. -/
def perform (c : Cursor σ) : TraceEntry → Cursor σ
  | .mapCall part path => { ({ c with path }).callMap visit part with path := c.path }
  | .logged event => c.log event

theorem foldl_perform_path (l : List TraceEntry) (c : Cursor σ) :
    (l.foldl (perform visit) c).path = c.path := by
  induction l generalizing c with
  | nil => rfl
  | cons entry rest ih =>
    rw [List.foldl_cons, ih]
    cases entry <;> rfl

theorem foldl_perform_trace (l : List TraceEntry) (c : Cursor σ) :
    (l.foldl (perform visit) c).trace = c.trace ++ l := by
  induction l generalizing c with
  | nil => simp
  | cons entry rest ih =>
    have hstep : (c.perform visit entry).trace = c.trace ++ [entry] := by
      cases entry <;> rfl
    rw [List.foldl_cons, ih, hstep, List.append_assoc]
    rfl

theorem foldl_perform_withPath (l : List TraceEntry) (c : Cursor σ) (path : TypePath) :
    l.foldl (perform visit) { c with path } = { l.foldl (perform visit) c with path } := by
  induction l generalizing c with
  | nil => rfl
  | cons entry rest ih =>
    have hstep : ({ c with path } : Cursor σ).perform visit entry =
        { c.perform visit entry with path } := by
      cases entry <;> rfl
    rw [List.foldl_cons, List.foldl_cons, hstep, ih]

/-- Going down a step and up again changes nothing that happens in between. -/
theorem pop_foldl_push (l : List TraceEntry) (c : Cursor σ) (step : TypeStep) :
    (l.foldl (perform visit) (c.push step)).pop = l.foldl (perform visit) c := by
  rw [push, foldl_perform_withPath, pop]
  have hpath := foldl_perform_path visit l c
  generalize l.foldl (perform visit) c = d at hpath ⊢
  obtain ⟨root, path, state, trace⟩ := d
  simp only [List.dropLast_concat] at hpath ⊢
  rw [hpath]

end Cursor

namespace TypeTree

variable {σ : Type} (visit : TypeTree → σ → Element .type → σ × Element .type)

mutual
theorem traverse_eq_course : (t : TypeTree) → (c : Cursor σ) →
    t.traverse visit c = (t.course c.path).foldl (Cursor.perform visit) c
  | .named name arguments, c => by
    rw [traverse_named, traverseArguments_eq_courses 0 arguments _ (by omega), course,
      List.foldl_cons, Nat.zero_add]
    rfl
  | .array component, c => by
    rw [traverse_array, component.traverse_eq_course, Cursor.pop_foldl_push, course,
      List.foldl_cons]
    rfl
/-- From any number on; of what is left, only the arguments below 256 have their course. -/
theorem traverseArguments_eq_courses : (index : Nat) → (arguments : List TypeTree) →
    (c : Cursor σ) → index ≤ 256 → traverseArguments visit index arguments c =
      (((coursesFrom c.path index arguments).take (256 - index)).flatten ++
        overflow (index + arguments.length)).foldl (Cursor.perform visit) c
  | index, [], c, h => by
    rw [traverseArguments, coursesFrom, List.take_nil, overflow, List.length_nil,
      if_neg (by omega)]
    rfl
  | index, t :: rest, c, h => by
    rw [traverseArguments_cons, coursesFrom]
    split
    next hlt =>
      rw [t.traverse_eq_course, Cursor.pop_foldl_push,
        traverseArguments_eq_courses (index + 1) rest _ hlt, Cursor.foldl_perform_path,
        ← List.foldl_append, show 256 - index = (256 - (index + 1)) + 1 by omega,
        List.take_succ_cons, List.flatten_cons, List.append_assoc, List.length_cons,
        show index + (rest.length + 1) = index + 1 + rest.length by omega]
      rfl
    next hge =>
      obtain rfl : index = 256 := by omega
      rw [overflow, if_pos (by simp)]
      rfl
end

-- ---------------------------------------------------------------------------
-- The parts and the events of a course
-- ---------------------------------------------------------------------------

mutual
theorem positions_eq_course (path : TypePath) : (t : TypeTree) →
    (t.course path).filterMap TraceEntry.position? = t.positions path
  | .named name arguments => by
    have hlogged : (overflow arguments.length).filterMap TraceEntry.position? = [] := by
      rw [overflow]
      split <;> rfl
    rw [course, positions, List.filterMap_cons, List.filterMap_append, hlogged,
      List.append_nil, positionsFrom_eq_courses path 256 0 arguments]
    rfl
  | .array component => by
    rw [course, positions, List.filterMap_cons, component.positions_eq_course]
    rfl
theorem positionsFrom_eq_courses (path : TypePath) (count : Nat) : (index : Nat) →
    (arguments : List TypeTree) →
    ((coursesFrom path index arguments).take count).flatten.filterMap TraceEntry.position? =
      ((positionsFrom path index arguments).take count).flatten
  | _, [] => by simp [coursesFrom, positionsFrom]
  | index, t :: rest => by
    cases count with
    | zero => rfl
    | succ count =>
      rw [coursesFrom, positionsFrom, List.take_succ_cons, List.take_succ_cons,
        List.flatten_cons, List.flatten_cons, List.filterMap_append, t.positions_eq_course,
        positionsFrom_eq_courses path count (index + 1) rest]
end

/-- Whether a part has more arguments than there are numbers. -/
def IsOverfull (t : TypeTree) : Prop := 256 < t.arguments.length

instance (t : TypeTree) : Decidable t.IsOverfull := inferInstanceAs (Decidable (256 < _))

mutual
theorem events_course (path : TypePath) : (t : TypeTree) →
    (t.course path).filterMap TraceEntry.event? =
      List.replicate ((t.positions path).countP (·.1.IsOverfull)) (.argumentOutOfRange 256)
  | .named name arguments => by
    have hlogged : (overflow arguments.length).filterMap TraceEntry.event? =
        List.replicate (if 256 < arguments.length then 1 else 0) (.argumentOutOfRange 256) := by
      rw [overflow]
      split <;> rfl
    have hself : (TypeTree.named name arguments).IsOverfull ↔ 256 < arguments.length := Iff.rfl
    rw [course, positions, List.filterMap_cons, List.filterMap_append, hlogged,
      events_courses path 256 0 arguments, List.countP_cons, ← List.replicate_add]
    simp only [decide_eq_true_eq, hself]
    rfl
  | .array component => by
    have hself : ¬ (TypeTree.array component).IsOverfull := Nat.not_lt_zero 256
    rw [course, positions, List.filterMap_cons, List.countP_cons_of_neg (by simpa using hself),
      ← component.events_course]
    rfl
theorem events_courses (path : TypePath) (count : Nat) : (index : Nat) →
    (arguments : List TypeTree) →
    ((coursesFrom path index arguments).take count).flatten.filterMap TraceEntry.event? =
      List.replicate (((positionsFrom path index arguments).take count).flatten.countP
        (·.1.IsOverfull)) (.argumentOutOfRange 256)
  | _, [] => by simp [coursesFrom, positionsFrom]
  | index, t :: rest => by
    cases count with
    | zero => rfl
    | succ count =>
      rw [coursesFrom, positionsFrom, List.take_succ_cons, List.take_succ_cons,
        List.flatten_cons, List.flatten_cons, List.filterMap_append, List.countP_append,
        List.replicate_add, t.events_course, events_courses path count (index + 1) rest]
end

mutual
theorem course_contains (path : TypePath) : (t : TypeTree) → {part : TypeTree × TypePath} →
    part ∈ t.positions path → part.1.course part.2 <:+: t.course path
  | .named name arguments, part, h => by
    rw [positions, List.mem_cons] at h
    rcases h with rfl | h
    · exact List.infix_refl _
    · have hinfix := courses_contain path 256 0 arguments h
      rw [course]
      exact hinfix.trans ((List.prefix_append _ _).isInfix.trans (List.suffix_cons _ _).isInfix)
  | .array component, part, h => by
    rw [positions, List.mem_cons] at h
    rcases h with rfl | h
    · exact List.infix_refl _
    · rw [course]
      exact (course_contains _ component h).trans (List.suffix_cons _ _).isInfix
theorem courses_contain (path : TypePath) (count : Nat) : (index : Nat) →
    (arguments : List TypeTree) → {part : TypeTree × TypePath} →
    part ∈ ((positionsFrom path index arguments).take count).flatten →
    part.1.course part.2 <:+: ((coursesFrom path index arguments).take count).flatten
  | _, [], part, h => by simp [positionsFrom] at h
  | index, t :: rest, part, h => by
    cases count with
    | zero => simp at h
    | succ count =>
      rw [positionsFrom, List.take_succ_cons, List.flatten_cons, List.mem_append] at h
      rw [coursesFrom, List.take_succ_cons, List.flatten_cons]
      rcases h with h | h
      · exact (course_contains _ t h).trans (List.prefix_append _ _).isInfix
      · exact (courses_contain path count (index + 1) rest h).trans
          (List.suffix_append _ _).isInfix
end

theorem getElem?_coursesFrom (path : TypePath) (index i : Nat) (arguments : List TypeTree) :
    (coursesFrom path index arguments)[i]? =
      arguments[i]?.map fun t => t.course (path ++ [.argument (UInt8.ofNat (index + i))]) := by
  induction arguments generalizing index i with
  | nil => rfl
  | cons t rest ih =>
    cases i with
    | zero => rfl
    | succ i =>
      rw [coursesFrom, List.getElem?_cons_succ, List.getElem?_cons_succ, ih,
        show index + 1 + i = index + (i + 1) by omega]

/-- The last thing that happens to a part with too many arguments, and what happens just before
it. -/
theorem course_of_overfull {t : TypeTree} (h : t.IsOverfull) (path : TypePath) :
    ∃ front last, t.arguments[255]? = some last ∧ t.course path =
      front ++ last.course (path ++ [.argument 255]) ++ [.logged (.argumentOutOfRange 256)] := by
  match t with
  | .array component => exact absurd h (Nat.not_lt_zero 256)
  | .named name arguments =>
    have hlength : 256 < arguments.length := h
    refine ⟨.mapCall (.named name arguments) path ::
      ((coursesFrom path 0 arguments).take 255).flatten, arguments[255],
      List.getElem?_eq_getElem _, ?_⟩
    rw [course, overflow, if_pos hlength, List.take_add_one, getElem?_coursesFrom,
      List.getElem?_eq_getElem (by omega), List.flatten_append]
    simp

-- ---------------------------------------------------------------------------
-- Distinct paths
-- ---------------------------------------------------------------------------

mutual
theorem path_below (path : TypePath) : (t : TypeTree) → {part : TypeTree × TypePath} →
    part ∈ t.positions path → path <+: part.2
  | .named name arguments, part, h => by
    rw [positions, List.mem_cons] at h
    rcases h with rfl | h
    · exact List.prefix_refl path
    · obtain ⟨i, -, -, hi⟩ := argument_path_below path 256 0 arguments h
      exact (List.prefix_append path _).trans hi
  | .array component, part, h => by
    rw [positions, List.mem_cons] at h
    rcases h with rfl | h
    · exact List.prefix_refl path
    · exact (List.prefix_append path _).trans (component.path_below _ h)
theorem argument_path_below (path : TypePath) (count : Nat) : (index : Nat) →
    (arguments : List TypeTree) → {part : TypeTree × TypePath} →
    part ∈ ((positionsFrom path index arguments).take count).flatten →
    ∃ i, index ≤ i ∧ i < index + count ∧ path ++ [.argument (UInt8.ofNat i)] <+: part.2
  | _, [], part, h => by simp [positionsFrom] at h
  | index, t :: rest, part, h => by
    cases count with
    | zero => simp at h
    | succ count =>
      rw [positionsFrom, List.take_succ_cons, List.flatten_cons, List.mem_append] at h
      rcases h with h | h
      · exact ⟨index, Nat.le_refl index, by omega, t.path_below _ h⟩
      · obtain ⟨i, hle, hlt, hi⟩ := argument_path_below path count (index + 1) rest h
        exact ⟨i, by omega, by omega, hi⟩
end

theorem argument_eq_of_below {path q : TypePath} {i j : Nat} (hi : i < 256) (hj : j < 256)
    (h : path ++ [.argument (UInt8.ofNat i)] <+: q)
    (h' : path ++ [.argument (UInt8.ofNat j)] <+: q) : i = j := by
  have heq := (List.prefix_of_prefix_length_le h h' (by simp)).eq_of_length (by simp)
  have hstep : UInt8.ofNat i = UInt8.ofNat j := by simpa using heq
  have hnat := congrArg UInt8.toNat hstep
  rwa [UInt8.toNat_ofNat_of_lt' hi, UInt8.toNat_ofNat_of_lt' hj] at hnat

theorem not_prefix_self (path : TypePath) (step : TypeStep) : ¬ path ++ [step] <+: path := by
  intro h
  have hlength := h.length_le
  rw [List.length_append] at hlength
  exact Nat.not_succ_le_self _ hlength

mutual
theorem nodup_paths (path : TypePath) : (t : TypeTree) →
    ((t.positions path).map Prod.snd).Nodup
  | .named name arguments => by
    rw [positions, List.map_cons, List.nodup_cons]
    refine ⟨fun hmem => ?_, nodup_argument_paths path 256 0 arguments (Nat.le_refl 256)⟩
    obtain ⟨part, hpart, hpath⟩ := List.mem_map.mp hmem
    obtain ⟨i, -, -, hi⟩ := argument_path_below path 256 0 arguments hpart
    exact not_prefix_self path _ (hpath ▸ hi)
  | .array component => by
    rw [positions, List.map_cons, List.nodup_cons]
    refine ⟨fun hmem => ?_, component.nodup_paths _⟩
    obtain ⟨part, hpart, hpath⟩ := List.mem_map.mp hmem
    exact not_prefix_self path _ (hpath ▸ component.path_below _ hpart)
theorem nodup_argument_paths (path : TypePath) (count : Nat) : (index : Nat) →
    (arguments : List TypeTree) → index + count ≤ 256 →
    (((positionsFrom path index arguments).take count).flatten.map Prod.snd).Nodup
  | _, [], _ => by simp [positionsFrom]
  | index, t :: rest, hcount => by
    cases count with
    | zero => exact List.nodup_nil
    | succ count =>
      rw [positionsFrom, List.take_succ_cons, List.flatten_cons, List.map_append]
      -- a path below this argument cannot be below a later one: numbers do not wrap up to 256
      refine (t.nodup_paths _).append
        (nodup_argument_paths path count (index + 1) rest (by omega)) fun q hq hq' => ?_
      obtain ⟨part, hpart, rfl⟩ := List.mem_map.mp hq
      obtain ⟨part', hpart', hpath⟩ := List.mem_map.mp hq'
      obtain ⟨i, hle, hlt, hi⟩ := argument_path_below path count (index + 1) rest hpart'
      have := argument_eq_of_below (by omega) (by omega) (hpath ▸ hi) (t.path_below _ hpart)
      omega
end

-- ---------------------------------------------------------------------------
-- The visits
-- ---------------------------------------------------------------------------

/-- One visit: the visitor gets the element for the path of the part and gives it back changed. -/
def visitAt (x : σ × Element .type) (part : TypeTree × TypePath) : σ × Element .type :=
  let (state, e) := visit part.1 x.1 (x.2.atPath part.2)
  (state, x.2.putAt part.2 e)

end TypeTree

theorem Cursor.foldl_perform_visits {σ : Type}
    (visit : TypeTree → σ → Element .type → σ × Element .type) (l : List TraceEntry)
    (c : Cursor σ) :
    ((l.foldl (perform visit) c).state, (l.foldl (perform visit) c).root) =
      (l.filterMap TraceEntry.position?).foldl (TypeTree.visitAt visit) (c.state, c.root) := by
  induction l generalizing c with
  | nil => rfl
  | cons entry rest ih =>
    rw [List.foldl_cons, ih]
    cases entry with
    | logged event => rfl
    | mapCall part path =>
      rw [List.filterMap_cons]
      simp only [TraceEntry.position?, List.foldl_cons, perform, callMap, Element.alterAtPath_eq]
      rfl

/-- A traversal visits the parts of a tree at their positions, outermost first and no path twice,
and its own path ends where it began. Each part with more arguments than there are numbers is
logged once, right after its last argument with a number is done. -/
theorem TypeTree.traverse_visits_positions {σ : Type}
    (visit : TypeTree → σ → Element .type → σ × Element .type) (t : TypeTree) (c : Cursor σ) :
    ((t.traverse visit c).state, (t.traverse visit c).root) =
      (t.positions c.path).foldl (visitAt visit) (c.state, c.root) ∧
    (∀ x part path, (visitAt visit x (part, path)).2.atPath? path =
        some (visit part x.1 (x.2.atPath path)).2 ∧
      ∀ other, path ≠ [] → other ≠ [] → other ≠ path →
        (visitAt visit x (part, path)).2.atPath? other = x.2.atPath? other) ∧
    (t.traverse visit c).trace = c.trace ++ t.course c.path ∧
    (t.course c.path).filterMap TraceEntry.position? = t.positions c.path ∧
    ((t.positions c.path).map Prod.snd).Nodup ∧
    (t.traverse visit c).path = c.path ∧
    (t.traverse visit c).events = c.events ++
      List.replicate ((t.positions c.path).countP (·.1.IsOverfull)) (.argumentOutOfRange 256) ∧
    (Event.argumentOutOfRange 256).render =
      "DEBUG type argument index does not fit a type path index=256" ∧
    ∀ part path, (part, path) ∈ t.positions c.path → part.IsOverfull →
      ∃ front last back, part.arguments[255]? = some last ∧
        t.course c.path = front ++ last.course (path ++ [.argument 255]) ++
          .logged (.argumentOutOfRange 256) :: back := by
  rw [t.traverse_eq_course]
  refine ⟨?_, fun x part path => ⟨x.2.atPath?_putAt_self path _, fun other hpath hother hne =>
    x.2.atPath?_putAt_of_ne hpath hother hne _⟩, Cursor.foldl_perform_trace visit _ c,
    t.positions_eq_course c.path, t.nodup_paths c.path, Cursor.foldl_perform_path visit _ c, ?_,
    by decide +kernel, ?_⟩
  · rw [Cursor.foldl_perform_visits, t.positions_eq_course]
  · rw [Cursor.events, Cursor.foldl_perform_trace, List.filterMap_append, t.events_course]
    rfl
  · intro part path hpart hfull
    obtain ⟨front, last, hlast, hcourse⟩ := course_of_overfull hfull path
    obtain ⟨before, after, hwhole⟩ := t.course_contains c.path hpart
    refine ⟨before ++ front, last, after, hlast, ?_⟩
    rw [← hwhole, hcourse]
    simp

/-- An array of a type with one argument too many, and a visitor that counts. -/
theorem TypeTree.traverse_visits_positions_overfull :
    let visit (_ : TypeTree) (n : Nat) (e : Element .type) := (n + 1, e)
    let part : TypeTree := .named "T" (List.replicate 257 (.named "A" []))
    let after := (TypeTree.array part).traverse visit (start 0 (.type "root"))
    part.IsOverfull ∧ after.state = 258 ∧ after.path = [] ∧
      after.events = [.argumentOutOfRange 256] ∧
      ∃ front back, after.trace = front ++ .mapCall (.named "A" []) [.array, .argument 255] ::
        .logged (.argumentOutOfRange 256) :: back := by
  intro visit part after
  have hfull : part.IsOverfull := by decide +kernel
  obtain ⟨-, -, htrace, -, -, hpath, hevents, -, hplace⟩ :=
    traverse_visits_positions visit (.array part) (start 0 (.type "root"))
  obtain ⟨front, last, back, hlast, hcourse⟩ :=
    hplace part [.array] (.tail _ (.head _)) hfull
  obtain rfl : TypeTree.named "A" [] = last := Option.some.inj hlast
  refine ⟨hfull, by decide +kernel, hpath, hevents.trans (by decide +kernel), front, back, ?_⟩
  rw [htrace, hcourse, List.append_assoc]
  rfl

end AnnotationScene
