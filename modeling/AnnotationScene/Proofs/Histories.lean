import AnnotationScene.Proofs.Maps
import Mathlib.Data.List.Induction
import Mathlib.Logic.Function.Basic

/-!
# Maps through their histories

A map is edited many times, and copies of it are edited on their own. What a key finds can be told
from the edits alone, as if each acted on a function from keys to values. The order of the keys can
be told from when each of them was last absent: every edit keeps the order of the keys that stay,
and a key that comes in goes to the end. So maps with quite different histories are the same if
only their keys find the same.
-/

namespace AnnotationScene

variable {K V : Type} [DecidableEq K]

-- ---------------------------------------------------------------------------
-- Keys and values after an operation
-- ---------------------------------------------------------------------------

namespace OrderedMap

variable {m : OrderedMap K V} {fresh : K → V} {key : K}

theorem get?_cons (e : K × V) (rest : List (K × V)) (k : K) :
    get? ⟨e :: rest⟩ k = if e.1 = k then some e.2 else get? ⟨rest⟩ k := by
  by_cases h : e.1 = k <;> simp [get?, h]

theorem get?_insert (value : V) (k : K) :
    (m.insert key value).get? k = if k = key then some value else m.get? k := by
  split
  next hk => rw [hk, get?_insert_self]
  next hk => rw [get?_insert_of_ne m hk]

theorem get?_update (f : V → V) (k : K) :
    (m.update key f).get? k = if k = key then (m.get? k).map f else m.get? k := by
  split
  next hk => rw [hk, get?_update_self]
  next hk => rw [get?_update_of_ne m hk]

theorem get?_erase (k : K) : (m.erase key).get? k = if k = key then none else m.get? k := by
  split
  next hk => rw [hk, get?_erase_self]
  next hk => rw [get?_erase_of_ne m hk]

/-- To ask for a key is to put its fresh value there, if it has none. -/
theorem vivify_eq_insert (m : OrderedMap K V) (fresh : K → V) (key : K) :
    m.vivify fresh key = if key ∈ m.keys then m else m.insert key (fresh key) := by
  unfold vivify insert
  simp only [contains_eq_true_iff]
  split <;> rfl

theorem get?_vivify (k : K) : (m.vivify fresh key).get? k =
    if k = key then some ((m.get? k).getD (fresh k)) else m.get? k := by
  rw [vivify_eq_insert]
  split
  next h =>
    obtain ⟨v, hv⟩ := mem_keys_iff.mp h
    split
    next hk => simp [hk, hv]
    next => rfl
  next h =>
    rw [get?_insert]
    split
    next hk => simp [hk, get?_eq_none_iff.mpr h]
    next => rfl

omit [DecidableEq K] in
theorem keys_mapEntries (f : K → V → V) : (m.mapEntries f).keys = m.keys := by
  simp [keys, mapEntries]

theorem get?_mapEntries (f : K → V → V) (k : K) :
    (m.mapEntries f).get? k = (m.get? k).map (f k) := by
  obtain ⟨entries⟩ := m
  induction entries with
  | nil => rfl
  | cons e rest ih =>
    change get? ⟨(e.1, f e.1 e.2) :: (mapEntries ⟨rest⟩ f).entries⟩ k = _
    by_cases h : e.1 = k <;> simp [get?_cons, h, ih]

theorem keys_erase (m : OrderedMap K V) (key : K) :
    (m.erase key).keys = m.keys.filter fun k => k ≠ key := by
  simp [keys, erase, List.filter_map]
  rfl

end OrderedMap

def Prunable.keep? [Prunable V] (value : V) : Option V :=
  if isVacuous (prune value) then none else some (prune value)

namespace OrderedMap

variable [Prunable V]

variable {e : K × V} {rest : List (K × V)}

omit [DecidableEq K] in
theorem prune_cons_of_none (h : Prunable.keep? e.2 = none) : prune ⟨e :: rest⟩ = prune ⟨rest⟩ := by
  have hv : Prunable.isVacuous (Prunable.prune e.2) = true := by simpa [Prunable.keep?] using h
  simp [prune, hv]

omit [DecidableEq K] in
theorem prune_cons_of_some {value : V} (h : Prunable.keep? e.2 = some value) :
    prune ⟨e :: rest⟩ = ⟨(e.1, value) :: (prune ⟨rest⟩).entries⟩ := by
  obtain ⟨hv, rfl⟩ : Prunable.isVacuous (Prunable.prune e.2) = false ∧
      Prunable.prune e.2 = value := by
    simpa [Prunable.keep?] using h
  simp [prune, hv]

omit [DecidableEq K] in
theorem keys_prune_sublist (m : OrderedMap K V) : m.prune.keys.Sublist m.keys := by
  obtain ⟨entries⟩ := m
  induction entries with
  | nil => exact .slnil
  | cons e rest ih =>
    cases hkeep : Prunable.keep? e.2 with
    | none =>
      rw [prune_cons_of_none hkeep]
      exact ih.cons e.1
    | some value =>
      rw [prune_cons_of_some hkeep]
      exact ih.cons_cons e.1

theorem get?_prune {m : OrderedMap K V} (hm : m.keys.Nodup) (k : K) :
    m.prune.get? k = (m.get? k).bind Prunable.keep? := by
  obtain ⟨entries⟩ := m
  induction entries with
  | nil => rfl
  | cons e rest ih =>
    obtain ⟨hnot, hrest⟩ := List.nodup_cons.mp hm
    have hread := ih hrest
    cases hkeep : Prunable.keep? e.2 with
    | none =>
      rw [prune_cons_of_none hkeep, hread, get?_cons]
      split
      next hk =>
        -- a key that was dropped does not come back further on
        have habsent : get? ⟨rest⟩ k = none := get?_eq_none_iff.mpr (hk ▸ hnot)
        simp [habsent, hkeep]
      next => rfl
    | some value =>
      rw [prune_cons_of_some hkeep, get?_cons, get?_cons]
      split
      next => simp [hkeep]
      next => exact hread

end OrderedMap

-- ---------------------------------------------------------------------------
-- One edit
-- ---------------------------------------------------------------------------

/-- What is done to one map. Values are changed in place. -/
inductive MapEdit (K V : Type)
  /-- Asks for a key, which is created if it is missing, and changes its value. -/
  | vivify (key : K) (f : V → V)
  | change (key : K) (f : V → V)
  | put (key : K) (value : V)
  | remove (key : K)
  /-- Each value may be changed in a way of its own. -/
  | changeAll (f : K → V → V)
  | prune

variable [Prunable V]

def OrderedMap.perform (fresh : K → V) (m : OrderedMap K V) : MapEdit K V → OrderedMap K V
  | .vivify key f => (m.vivify fresh key).update key f
  | .change key f => m.update key f
  | .put key value => m.insert key value
  | .remove key => m.erase key
  | .changeAll f => m.mapEntries f
  | .prune => m.prune

/-- What an edit does to the values that keys find, whatever holds them. -/
def MapEdit.effect (fresh : K → V) (find : K → Option V) : MapEdit K V → K → Option V
  | .vivify key f, k => if k = key then some (f ((find k).getD (fresh k))) else find k
  | .change key f, k => if k = key then (find k).map f else find k
  | .put key value, k => if k = key then some value else find k
  | .remove key, k => if k = key then none else find k
  | .changeAll f, k => (find k).map (f k)
  | .prune, k => (find k).bind Prunable.keep?

namespace OrderedMap

variable {m : OrderedMap K V} {fresh : K → V}

theorem get?_perform (hm : m.keys.Nodup) (edit : MapEdit K V) (k : K) :
    (m.perform fresh edit).get? k = edit.effect fresh m.get? k := by
  cases edit with
  | vivify key f =>
    simp only [perform, MapEdit.effect, get?_update, get?_vivify]
    split <;> rfl
  | change key f => exact get?_update f k
  | put key value => exact get?_insert value k
  | remove key => exact get?_erase k
  | changeAll f => exact get?_mapEntries f k
  | prune => exact get?_prune hm k

/-- An edit keeps the order of the keys that stay, and puts a key that comes in at the end. -/
theorem keys_perform (m : OrderedMap K V) (fresh : K → V) (edit : MapEdit K V) :
    (m.perform fresh edit).keys.Sublist m.keys ∨
      ∃ key, key ∉ m.keys ∧ (m.perform fresh edit).keys = m.keys ++ [key] := by
  cases edit with
  | vivify key f =>
    simp only [perform, keys_update, vivify_eq_insert]
    split
    next => exact .inl (.refl _)
    next h => exact .inr ⟨key, h, keys_insert_of_not_mem h _⟩
  | change key f => exact .inl (by simp [perform, keys_update])
  | put key value =>
    by_cases h : key ∈ m.keys
    · exact .inl (by simp [perform, keys_insert_of_mem h])
    · exact .inr ⟨key, h, keys_insert_of_not_mem h value⟩
  | remove key =>
    refine .inl ?_
    simp only [perform, keys_erase]
    exact List.filter_sublist
  | changeAll f => exact .inl (by simp [perform, keys_mapEntries])
  | prune => exact .inl m.keys_prune_sublist

theorem keys_nodup_perform (hm : m.keys.Nodup) (edit : MapEdit K V) :
    (m.perform fresh edit).keys.Nodup := by
  rcases m.keys_perform fresh edit with hsub | ⟨key, hnew, hkeys⟩
  · exact hm.sublist hsub
  · rw [hkeys, (List.perm_append_singleton key m.keys).nodup_iff]
    exact List.nodup_cons.mpr ⟨hnew, hm⟩

end OrderedMap

-- ---------------------------------------------------------------------------
-- Whole histories
-- ---------------------------------------------------------------------------

/-- What has been done to a map since it was empty. -/
structure History (K V : Type) where
  fresh : K → V
  edits : List (MapEdit K V) := []

namespace History

def replay (h : History K V) : OrderedMap K V := h.edits.foldl (OrderedMap.perform h.fresh) .empty

/-- What a key finds after all edits, told from their effects alone. -/
def find (h : History K V) : K → Option V :=
  h.edits.foldl (MapEdit.effect h.fresh) fun _ => none

def take (h : History K V) (n : Nat) : History K V := { h with edits := h.edits.take n }

def add (h : History K V) (edit : MapEdit K V) : History K V :=
  { h with edits := h.edits ++ [edit] }

/-- The key came in with the edit of this number and was never absent again. -/
structure PresentSince (h : History K V) (key : K) (n : Nat) : Prop where
  lt_length : n < h.edits.length
  absent : (h.take n).find key = none
  present : ∀ i, n < i → i ≤ h.edits.length → (h.take i).find key ≠ none

variable {h : History K V} {edit : MapEdit K V} {key : K} {n : Nat}

omit [DecidableEq K] [Prunable V] in
@[elab_as_elim]
theorem induct {motive : History K V → Prop} (start : ∀ fresh, motive ⟨fresh, []⟩)
    (add : ∀ h edit, motive h → motive (h.add edit)) (h : History K V) : motive h := by
  obtain ⟨fresh, edits⟩ := h
  induction edits using List.reverseRecOn with
  | nil => exact start fresh
  | append_singleton edits edit ih => exact add ⟨fresh, edits⟩ edit ih

theorem replay_add (h : History K V) (edit : MapEdit K V) :
    (h.add edit).replay = h.replay.perform h.fresh edit := by
  simp [replay, add]

theorem find_add (h : History K V) (edit : MapEdit K V) :
    (h.add edit).find = edit.effect h.fresh h.find := by
  simp [find, add]

omit [DecidableEq K] [Prunable V] in
theorem length_add : (h.add edit).edits.length = h.edits.length + 1 := by simp [add]

omit [DecidableEq K] [Prunable V] in
theorem take_add (hn : n ≤ h.edits.length) : (h.add edit).take n = h.take n := by
  simp [take, add, List.take_append_of_le_length hn]

omit [DecidableEq K] [Prunable V] in
theorem take_length (h : History K V) : h.take h.edits.length = h := by simp [take]

-- ---------------------------------------------------------------------------
-- Arrivals
-- ---------------------------------------------------------------------------

theorem PresentSince.add (hkey : h.PresentSince key n) (hstays : (h.add edit).find key ≠ none) :
    (h.add edit).PresentSince key n := by
  have hn := hkey.lt_length
  refine ⟨by rw [length_add]; omega, ?_, fun i hi hle => ?_⟩
  · rw [take_add (by omega)]
    exact hkey.absent
  · by_cases hlast : i = (h.add edit).edits.length
    · rw [hlast, take_length]
      exact hstays
    · rw [length_add] at hle hlast
      rw [take_add (by omega)]
      exact hkey.present i hi (by omega)

theorem presentSince_of_arrival (habsent : h.find key = none)
    (harrives : (h.add edit).find key ≠ none) :
    (h.add edit).PresentSince key h.edits.length := by
  refine ⟨by rw [length_add]; omega, ?_, fun i hi hle => ?_⟩
  · rw [take_add (by omega), take_length]
    exact habsent
  · have hlast : i = (h.add edit).edits.length := by rw [length_add] at hle ⊢; omega
    rw [hlast, take_length]
    exact harrives

/-- The map lists each key once, its keys find what the history says, and they stand in the order
in which they came in. -/
structure Tells (h : History K V) (m : OrderedMap K V) : Prop where
  keys_nodup : m.keys.Nodup
  get?_eq : ∀ key, m.get? key = h.find key
  arrived : ∀ key ∈ m.keys, ∃ n, h.PresentSince key n
  in_order : m.keys.Pairwise fun a b => ∃ i j, h.PresentSince a i ∧ h.PresentSince b j ∧ i < j

namespace Tells

variable {m : OrderedMap K V}

theorem start (fresh : K → V) : Tells ⟨fresh, []⟩ .empty :=
  ⟨.nil, fun _ => rfl, nofun, .nil⟩

theorem perform (ht : h.Tells m) (edit : MapEdit K V) :
    (h.add edit).Tells (m.perform h.fresh edit) := by
  have hget : ∀ key, (m.perform h.fresh edit).get? key = (h.add edit).find key := by
    intro key
    rw [OrderedMap.get?_perform ht.keys_nodup, find_add, funext ht.get?_eq]
  have hstays : ∀ {key}, key ∈ (m.perform h.fresh edit).keys → (h.add edit).find key ≠ none := by
    intro key hkey hnone
    rw [← hget] at hnone
    exact OrderedMap.get?_eq_none_iff.mp hnone hkey
  have harrives : ∀ {key}, key ∈ (m.perform h.fresh edit).keys → key ∉ m.keys →
      (h.add edit).PresentSince key h.edits.length := by
    intro key hkey hnew
    refine presentSince_of_arrival ?_ (hstays hkey)
    rw [← ht.get?_eq]
    exact OrderedMap.get?_eq_none_iff.mpr hnew
  have hordered : ∀ {a b}, a ∈ (m.perform h.fresh edit).keys → b ∈ (m.perform h.fresh edit).keys →
      (∃ i j, h.PresentSince a i ∧ h.PresentSince b j ∧ i < j) →
      ∃ i j, (h.add edit).PresentSince a i ∧ (h.add edit).PresentSince b j ∧ i < j := by
    rintro a b ha hb ⟨i, j, hi, hj, hlt⟩
    exact ⟨i, j, hi.add (hstays ha), hj.add (hstays hb), hlt⟩
  refine ⟨OrderedMap.keys_nodup_perform ht.keys_nodup edit, hget, ?_, ?_⟩
  · intro key hkey
    by_cases hold : key ∈ m.keys
    · obtain ⟨n, hn⟩ := ht.arrived key hold
      exact ⟨n, hn.add (hstays hkey)⟩
    · exact ⟨_, harrives hkey hold⟩
  · rcases m.keys_perform h.fresh edit with hsub | ⟨key, hnew, hkeys⟩
    · exact (ht.in_order.sublist hsub).imp_of_mem hordered
    · have hmem : ∀ {k}, k ∈ (m.perform h.fresh edit).keys ↔ k ∈ m.keys ∨ k = key := by
        simp [hkeys]
      rw [hkeys, List.pairwise_append]
      refine ⟨ht.in_order.imp_of_mem ?_, List.pairwise_singleton _ key, ?_⟩
      · intro a b ha hb
        exact hordered (hmem.mpr (.inl ha)) (hmem.mpr (.inl hb))
      · intro a ha b hb
        obtain rfl := List.mem_singleton.mp hb
        obtain ⟨i, hi⟩ := ht.arrived a ha
        exact ⟨i, _, hi.add (hstays (hmem.mpr (.inl ha))), harrives (hmem.mpr (.inr rfl)) hnew,
          hi.lt_length⟩

end Tells

theorem tells_replay (h : History K V) : h.Tells h.replay := by
  induction h using induct with
  | start fresh => exact .start fresh
  | add h edit ih =>
    rw [replay_add]
    exact ih.perform edit

end History

-- ---------------------------------------------------------------------------
-- Many maps
-- ---------------------------------------------------------------------------

/-- A map with what it puts under a key that it is asked for and lacks. -/
structure MapObject (K V : Type) where
  fresh : K → V
  map : OrderedMap K V := .empty

def History.object (h : History K V) : MapObject K V := ⟨h.fresh, h.replay⟩

/-- Maps stand under names. A copy takes the place of what its name stood for. -/
inductive MapCommand (Name K V : Type)
  | perform (name : Name) (edit : MapEdit K V)
  | copy (source target : Name)

namespace MapCommand

variable {Name : Type} [DecidableEq Name]

def run (maps : Name → MapObject K V) : MapCommand Name K V → Name → MapObject K V
  | .perform name edit =>
    let object := maps name
    Function.update maps name { object with map := object.map.perform object.fresh edit }
  | .copy source target => Function.update maps target (maps source)

def record (histories : Name → History K V) : MapCommand Name K V → Name → History K V
  | .perform name edit => Function.update histories name ((histories name).add edit)
  | .copy source target => Function.update histories target (histories source)

theorem run_object (histories : Name → History K V) (command : MapCommand Name K V) :
    command.run (fun name => (histories name).object) =
      fun name => (command.record histories name).object := by
  funext name
  cases command with
  | perform edited edit =>
    by_cases hname : name = edited
    · subst hname
      simp only [run, record, Function.update_self, History.object, History.replay_add]
      rfl
    · simp [run, record, hname]
  | copy source target =>
    by_cases hname : name = target
    · subst hname
      simp [run, record]
    · simp [run, record, hname]

/-- The maps after all commands, from empty ones with their own fresh values. -/
def runAll (fresh : Name → K → V) (commands : List (MapCommand Name K V)) :
    Name → MapObject K V :=
  commands.foldl run fun name => { fresh := fresh name }

def recordAll (fresh : Name → K → V) (commands : List (MapCommand Name K V)) :
    Name → History K V :=
  commands.foldl record fun name => { fresh := fresh name }

theorem foldl_run_object (commands : List (MapCommand Name K V)) (histories : Name → History K V) :
    commands.foldl run (fun name => (histories name).object) =
      fun name => (commands.foldl record histories name).object := by
  induction commands generalizing histories with
  | nil => rfl
  | cons command rest ih =>
    rw [List.foldl_cons, List.foldl_cons, run_object]
    exact ih _

theorem tells_runAll (fresh : Name → K → V) (commands : List (MapCommand Name K V)) (name : Name) :
    (recordAll fresh commands name).Tells (runAll fresh commands name).map := by
  have hrun := congrFun (foldl_run_object commands fun name => { fresh := fresh name }) name
  have hmap : (runAll fresh commands name).map = (recordAll fresh commands name).replay :=
    congrArg MapObject.map hrun
  rw [hmap]
  exact History.tells_replay _

/-- However maps are edited and copied, each is what its history tells. A put keeps the place of a
key that is there, and the keys that stay keep their order. Two maps are the same exactly if every
key finds the same by both histories, or nothing by either. -/
theorem runAll_follows_histories (sameValue : V → V → Bool) (fresh fresh' : Name → K → V)
    (commands commands' : List (MapCommand Name K V)) (name name' : Name) :
    let m := (runAll fresh commands name).map
    let n := (runAll fresh' commands' name').map
    (recordAll fresh commands name).Tells m ∧
    (∀ key ∈ m.keys, ∀ value, (m.insert key value).keys = m.keys) ∧
    (∀ key, (m.erase key).keys = m.keys.filter fun k => k ≠ key) ∧
    m.prune.keys.Sublist m.keys ∧
    (OrderedMap.same sameValue m n = true ↔
      ∀ key, Option.Rel (fun v w => sameValue v w = true)
        ((recordAll fresh commands name).find key)
        ((recordAll fresh' commands' name').find key)) := by
  intro m n
  have ht : (recordAll fresh commands name).Tells m := tells_runAll fresh commands name
  have ht' : (recordAll fresh' commands' name').Tells n := tells_runAll fresh' commands' name'
  refine ⟨ht, fun key h value => OrderedMap.keys_insert_of_mem h value, m.keys_erase,
    m.keys_prune_sublist, ?_⟩
  rw [OrderedMap.same_iff ht.keys_nodup ht'.keys_nodup]
  refine forall_congr' fun key => ?_
  rw [ht.get?_eq, ht'.get?_eq]
  cases (recordAll fresh commands name).find key <;>
    cases (recordAll fresh' commands' name').find key <;> simp

end MapCommand

end AnnotationScene
