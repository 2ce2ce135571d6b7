import AnnotationScene.Event

/-!
# Maps in order of first insertion

Lookup is by key; iteration follows the order in which the keys were first put in. Writing to a
present key keeps its place, and removing a key keeps the order of the rest. Two maps are the same
when they agree on every key, whatever their order.
-/

namespace AnnotationScene

/-- A value that may hold no information, and that can drop the parts of itself that hold none. -/
class Prunable (V : Type) where
  isVacuous : V → Bool
  prune : V → V
  pruneEvents : V → List Event

structure OrderedMap (K V : Type) where
  entries : List (K × V)

namespace OrderedMap

variable {K V : Type} [DecidableEq K]

def empty : OrderedMap K V := ⟨[]⟩

def keys (m : OrderedMap K V) : List K := m.entries.map (·.1)

def values (m : OrderedMap K V) : List V := m.entries.map (·.2)

def size (m : OrderedMap K V) : Nat := m.entries.length

def get? (m : OrderedMap K V) (key : K) : Option V :=
  (m.entries.find? fun e => e.1 = key).map (·.2)

def contains (m : OrderedMap K V) (key : K) : Bool := (m.get? key).isSome

def update (m : OrderedMap K V) (key : K) (f : V → V) : OrderedMap K V :=
  ⟨m.entries.map fun e => if e.1 = key then (e.1, f e.2) else e⟩

def insert (m : OrderedMap K V) (key : K) (value : V) : OrderedMap K V :=
  if m.contains key then m.update key fun _ => value else ⟨m.entries ++ [(key, value)]⟩

def vivify (m : OrderedMap K V) (fresh : K → V) (key : K) : OrderedMap K V :=
  if m.contains key then m else ⟨m.entries ++ [(key, fresh key)]⟩

def erase (m : OrderedMap K V) (key : K) : OrderedMap K V :=
  ⟨m.entries.filter fun e => e.1 ≠ key⟩

theorem get?_update_self (m : OrderedMap K V) (key : K) (f : V → V) :
    (m.update key f).get? key = (m.get? key).map f := by
  obtain ⟨entries⟩ := m
  induction entries with
  | nil => rfl
  | cons e rest ih => by_cases h : e.1 = key <;> simp_all [get?, update]

theorem get?_update_of_ne (m : OrderedMap K V) {key other : K} (h : other ≠ key) (f : V → V) :
    (m.update key f).get? other = m.get? other := by
  obtain ⟨entries⟩ := m
  induction entries with
  | nil => rfl
  | cons e rest ih =>
    by_cases hk : e.1 = key <;> by_cases ho : e.1 = other <;> simp_all [get?, update]

theorem get?_append (m : OrderedMap K V) (entries : List (K × V)) (key : K) :
    get? ⟨m.entries ++ entries⟩ key = (m.get? key).or (get? ⟨entries⟩ key) := by
  simp [get?, Option.map_or]

theorem get?_insert_self (m : OrderedMap K V) (key : K) (value : V) :
    (m.insert key value).get? key = some value := by
  by_cases h : m.contains key
  · obtain ⟨old, hold⟩ := Option.isSome_iff_exists.1 h
    simp [insert, h, get?_update_self, hold]
  · have hnone : m.get? key = none := by simpa [contains] using h
    simp [insert, h, get?_append, hnone]
    simp [get?]

theorem get?_insert_of_ne (m : OrderedMap K V) {key other : K} (h : other ≠ key) (value : V) :
    (m.insert key value).get? other = m.get? other := by
  by_cases hk : m.contains key
  · simp [insert, hk, get?_update_of_ne m h]
  · simp [insert, hk, get?_append]
    simp [get?, h.symm]

theorem get?_erase_self (m : OrderedMap K V) (key : K) : (m.erase key).get? key = none := by
  simp [erase, get?]

theorem get?_erase_of_ne (m : OrderedMap K V) {key other : K} (h : other ≠ key) :
    (m.erase key).get? other = m.get? other := by
  obtain ⟨entries⟩ := m
  induction entries with
  | nil => rfl
  | cons e rest ih =>
    by_cases hk : e.1 = key <;> by_cases ho : e.1 = other <;> simp_all [get?, erase]

def mapEntries (m : OrderedMap K V) (f : K → V → V) : OrderedMap K V :=
  ⟨m.entries.map fun e => (e.1, f e.1 e.2)⟩

def mapValues (m : OrderedMap K V) (f : V → V) : OrderedMap K V := m.mapEntries fun _ => f

def sameKeys (m n : OrderedMap K V) : Bool :=
  m.size == n.size && m.keys.all n.contains

def same (sameValue : V → V → Bool) (m n : OrderedMap K V) : Bool :=
  m.size == n.size && m.entries.all fun e =>
    match n.get? e.1 with
    | some value => sameValue e.2 value
    | none => false

/-- A map reports the entries it dropped, and nothing if it kept them all. -/
def tally (before after : Nat) : List Event :=
  if after < before then [.prunedMap (before - after) after] else []

variable [Prunable V]

/-- No value of the map holds information; the map may still have entries. -/
def isVacuous (m : OrderedMap K V) : Bool := m.values.all Prunable.isVacuous

def prune (m : OrderedMap K V) : OrderedMap K V :=
  ⟨m.entries.filterMap fun e =>
    let value := Prunable.prune e.2
    if Prunable.isVacuous value then none else some (e.1, value)⟩

/-- Events of the values come before the event of the map itself. -/
def pruneEvents (m : OrderedMap K V) : List Event :=
  m.values.flatMap Prunable.pruneEvents ++ tally m.size m.prune.size

end OrderedMap

end AnnotationScene
