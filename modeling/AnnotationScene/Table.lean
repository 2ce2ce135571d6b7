/-!
# Tables sorted by name

Association lists and name lists in ascending order of the names, each name at most once. The
order is that of code points.
-/

namespace AnnotationScene

namespace Table

variable {α : Type}

def get? (t : List (String × α)) (name : String) : Option α :=
  (t.find? fun e => e.1 = name).map (·.2)

/-- A value already there under the name is replaced. -/
def insert (name : String) (value : α) : List (String × α) → List (String × α)
  | [] => [(name, value)]
  | e :: rest =>
    if name < e.1 then (name, value) :: e :: rest
    else if name = e.1 then (name, value) :: rest
    else e :: insert name value rest

/-- Of two values with one name the later one stays. -/
def ofList (entries : List (String × α)) : List (String × α) :=
  entries.foldl (fun t e => insert e.1 e.2 t) []

end Table

namespace NameSet

def insert (name : String) : List String → List String
  | [] => [name]
  | n :: rest =>
    if name < n then name :: n :: rest
    else if name = n then n :: rest
    else n :: insert name rest

theorem mem_insert {name n : String} {names : List String} :
    n ∈ insert name names ↔ n = name ∨ n ∈ names := by
  induction names with
  | nil => simp [insert]
  | cons first rest ih =>
    unfold insert
    split
    next => simp
    next =>
      split
      next h => simp [h]
      next => simp [ih, or_left_comm]

end NameSet

end AnnotationScene
