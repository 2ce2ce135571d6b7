import AnnotationScene.Location.Json
import Mathlib.Data.List.Forall2

/-!
# Locations in other words

A record may be written in JSON in many ways: with its members in any order and others among them,
or as the list of its values. All of them read the same, at every depth, so that what is read
depends on the location alone; and every location is read back from the form it is written in.
-/

namespace AnnotationScene

-- ---------------------------------------------------------------------------
-- Records
-- ---------------------------------------------------------------------------

namespace Json

variable {names : List String} {inside : String → Json → Json → Prop} {j k : Json}
  {fields fields' : List (Option String × Json)} {name : String} {value : Json}

/-- Two ways to write a record with the given field names. What may be put in other words within
the value of a field is said by `inside`. -/
inductive Reworded (names : List String) (inside : String → Json → Json → Prop) :
    Json → Json → Prop
  | refl (j : Json) : Reworded names inside j j
  | symm {j k : Json} : Reworded names inside j k → Reworded names inside k j
  | trans {i j k : Json} :
      Reworded names inside i j → Reworded names inside j k → Reworded names inside i k
  | reordered {fields fields' : List (Option String × Json)} : fields.Perm fields' →
      Reworded names inside (.object fields) (.object fields')
  | extended {fields : List (Option String × Json)} {name : String} (value : Json) :
      name ∉ names → Reworded names inside (.object fields) (.object ((some name, value) :: fields))
  | listed {values : List Json} : values.length = names.length →
      Reworded names inside (.ofFields (names.zip values)) (.list values)
  | field {fields : List (Option String × Json)} {name : String} {j k : Json} : inside name j k →
      Reworded names inside (.object ((some name, j) :: fields))
        (.object ((some name, k) :: fields))

inductive ItemsReworded (item : Json → Json → Prop) : Json → Json → Prop
  | list {items items' : List Json} : List.Forall₂ item items items' →
      ItemsReworded item (.list items) (.list items')

theorem field?_cons (f : Option String × Json) (fields : List (Option String × Json))
    (name : String) :
    field? (f :: fields) name = if f.1 = some name then some f.2 else field? fields name := by
  by_cases h : f.1 = some name <;> simp [field?, h]

theorem occurrences_cons (f : Option String × Json) (fields : List (Option String × Json))
    (name : String) : occurrences (f :: fields) name =
      occurrences fields name + if f.1 = some name then 1 else 0 := by
  simp [occurrences, List.countP_cons]

theorem occurrences_eq_zero (h : occurrences fields name = 0) (value : Json) :
    (some name, value) ∉ fields := by
  intro hmem
  have hno := List.countP_eq_zero.mp h _ hmem
  simp at hno

/-- Where a name occurs at most once, it does not matter where. -/
theorem field?_eq_some_iff (h : occurrences fields name ≤ 1) :
    field? fields name = some value ↔ (some name, value) ∈ fields := by
  induction fields with
  | nil => simp [field?]
  | cons f fields ih =>
    obtain ⟨key, content⟩ := f
    rw [occurrences_cons] at h
    rw [field?_cons]
    split
    next hkey =>
      obtain rfl : key = some name := hkey
      have hzero : occurrences fields name = 0 := by simp at h; omega
      have hnone := occurrences_eq_zero hzero value
      simp [hnone, eq_comm]
    next hkey =>
      have hrest : occurrences fields name ≤ 1 := by omega
      have hne : (some name, value) ≠ (key, content) := fun heq =>
        hkey (congrArg Prod.fst heq).symm
      simp [ih hrest, hne]

/-- Every key is a text, and no field is given twice. -/
structure Keyed (names : List String) (fields : List (Option String × Json)) : Prop where
  isText : ∀ f ∈ fields, f.1.isSome = true
  once : ∀ name ∈ names, occurrences fields name ≤ 1

theorem record?_eq_some_iff {values : List (Option Json)} :
    (object fields).record? names = some values ↔
      Keyed names fields ∧ names.map (field? fields) = values := by
  have hkeyed : (fields.all (fun f => f.1.isSome) &&
      names.all fun n => occurrences fields n ≤ 1) = true ↔ Keyed names fields := by
    simp only [Bool.and_eq_true, List.all_eq_true, decide_eq_true_eq]
    exact ⟨fun h => ⟨h.1, h.2⟩, fun h => ⟨h.isText, h.once⟩⟩
  simp [record?, hkeyed]

theorem record?_of_keyed (h : Keyed names fields) :
    (object fields).record? names = some (names.map (field? fields)) :=
  record?_eq_some_iff.mpr ⟨h, rfl⟩

theorem record?_of_not_keyed (h : ¬Keyed names fields) : (object fields).record? names = none :=
  Option.eq_none_iff_forall_ne_some.mpr fun _ hread => h (record?_eq_some_iff.mp hread).1

theorem Keyed.set_value (h : Keyed names ((some name, j) :: fields)) (k : Json) :
    Keyed names ((some name, k) :: fields) where
  isText := by simpa using h.isText
  once := by simpa [occurrences_cons] using h.once

theorem record?_congr (hkeyed : Keyed names fields ↔ Keyed names fields')
    (hvalue : Keyed names fields → ∀ name ∈ names, field? fields name = field? fields' name) :
    (object fields).record? names = (object fields').record? names := by
  apply Option.ext
  intro values
  rw [record?_eq_some_iff, record?_eq_some_iff, ← hkeyed]
  refine and_congr_right fun h => ?_
  rw [List.map_congr_left (hvalue h)]

theorem record?_perm (h : fields.Perm fields') :
    (object fields).record? names = (object fields').record? names := by
  have hcount : ∀ name, occurrences fields name = occurrences fields' name :=
    fun name => h.countP_eq _
  refine record?_congr ⟨fun hk => ⟨?_, ?_⟩, fun hk => ⟨?_, ?_⟩⟩ fun hk name hname => ?_
  · exact fun f hf => hk.isText f (h.mem_iff.mpr hf)
  · exact fun name hname => hcount name ▸ hk.once name hname
  · exact fun f hf => hk.isText f (h.mem_iff.mp hf)
  · exact fun name hname => hcount name ▸ hk.once name hname
  · have hone := hk.once name hname
    apply Option.ext
    intro value
    rw [field?_eq_some_iff hone, field?_eq_some_iff (hcount name ▸ hone), h.mem_iff]

theorem record?_extended (h : name ∉ names) :
    (object fields).record? names = (object ((some name, value) :: fields)).record? names := by
  have hother : ∀ n ∈ names, name ≠ n := fun n hn heq => h (heq ▸ hn)
  have hcount : ∀ n ∈ names, occurrences ((some name, value) :: fields) n = occurrences fields n :=
    fun n hn => by simp [occurrences_cons, hother n hn]
  refine record?_congr ⟨fun hk => ⟨?_, ?_⟩, fun hk => ⟨?_, ?_⟩⟩ fun hk n hn => ?_
  · simpa using hk.isText
  · exact fun n hn => hcount n hn ▸ hk.once n hn
  · simpa using hk.isText
  · exact fun n hn => hcount n hn ▸ hk.once n hn
  · simp [field?_cons, hother n hn]

/-- A record reads as its members, each under its own name. -/
theorem record?_ofFields {members : List (String × Json)} (h : (members.map (·.1)).Nodup) :
    (ofFields members).record? (members.map (·.1)) = some (members.map fun m => some m.2) := by
  have hcount : ∀ name, occurrences (members.map fun m => (some m.1, m.2)) name ≤ 1 := by
    intro name
    have hone := List.nodup_iff_count.mp h name
    simpa [occurrences, List.countP_map, List.count, Function.comp_def, beq_eq_decide] using hone
  have htext : ∀ f ∈ members.map fun m => (some m.1, m.2), f.1.isSome = true := by
    rw [List.forall_mem_map]
    exact fun _ _ => rfl
  refine record?_eq_some_iff.mpr ⟨⟨htext, fun name _ => hcount name⟩, ?_⟩
  rw [List.map_map]
  refine List.map_congr_left fun m hm => ?_
  exact (field?_eq_some_iff (hcount m.1)).mpr (List.mem_map_of_mem hm)

theorem record?_listed {values : List Json} (hnames : names.Nodup)
    (h : values.length = names.length) :
    (ofFields (names.zip values)).record? names = (list values).record? names := by
  have hfst : (names.zip values).map (·.1) = names := List.map_fst_zip (by omega)
  have hsnd : (names.zip values).map (·.2) = values := List.map_snd_zip (by omega)
  have hread : (ofFields (names.zip values)).record? ((names.zip values).map (·.1)) = _ :=
    record?_ofFields (hfst.symm ▸ hnames)
  have hvalues : (names.zip values).map (fun m => some m.2) = values.map some := by
    nth_rewrite 2 [← hsnd]
    simp
  rw [hfst, hvalues] at hread
  rw [hread]
  simp [record?, h]

theorem Reworded.decode_eq {α : Type} {decode : Json → Option α} (hnames : names.Nodup)
    (hrecord : ∀ {j k : Json}, j.record? names = k.record? names → decode j = decode k)
    (hinside : ∀ {name j k fields}, inside name j k →
      decode (.object ((some name, j) :: fields)) = decode (.object ((some name, k) :: fields)))
    (h : Reworded names inside j k) : decode j = decode k := by
  induction h with
  | refl => rfl
  | symm _ ih => exact ih.symm
  | trans _ _ ih₁ ih₂ => exact ih₁.trans ih₂
  | reordered hperm => exact hrecord (record?_perm hperm)
  | extended _ hname => exact hrecord (record?_extended hname)
  | listed hlength => exact hrecord (record?_listed hnames hlength)
  | field hin => exact hinside hin

-- ---------------------------------------------------------------------------
-- Numbers, lists and optional values
-- ---------------------------------------------------------------------------

@[simp] theorem int32?_ofInt32 (n : Int32) : (ofInt32 n).int32? = some n := by
  have hrange : Int32.minValue.toInt ≤ n.toInt ∧ n.toInt ≤ Int32.maxValue.toInt :=
    ⟨n.minValue_le_toInt, n.toInt_le⟩
  rw [ofInt32, int32?, int?, Option.bind_some, if_pos hrange, Int32.ofInt_toInt]

@[simp] theorem uint32?_toNat (n : UInt32) : (int n.toNat).uint32? = some n := by
  have hrange : (0 : Int) ≤ n.toNat ∧ (n.toNat : Int) < UInt32.size :=
    ⟨Int.natCast_nonneg _, Int.ofNat_lt.mpr n.toNat_lt_size⟩
  rw [uint32?, int?, Option.bind_some, if_pos hrange, Int.toNat_natCast, UInt32.ofNat_toNat]

@[simp] theorem uint8?_toNat (n : UInt8) : (int n.toNat).uint8? = some n := by
  have hrange : (0 : Int) ≤ n.toNat ∧ (n.toNat : Int) < UInt8.size :=
    ⟨Int.natCast_nonneg _, Int.ofNat_lt.mpr n.toNat_lt_size⟩
  rw [uint8?, int?, Option.bind_some, if_pos hrange, Int.toNat_natCast, UInt8.ofNat_toNat]

@[simp] theorem string?_ofText (s : String) : (ofText s).string? = some s := rfl

section

variable {α : Type} {encode : α → Json} {decode : Json → Option α}

theorem list?_map (h : ∀ v, decode (encode v) = some v) (values : List α) :
    (list (values.map encode)).list? decode = some values := by
  change (values.map encode).mapM decode = some values
  induction values with
  | nil => rfl
  | cons v values ih => simp [h, ih]

theorem list?_of_itemsReworded {item : Json → Json → Prop}
    (h : ∀ {j k}, item j k → decode j = decode k) (hitems : ItemsReworded item j k) :
    j.list? decode = k.list? decode := by
  obtain ⟨hitems⟩ := hitems
  change List.mapM decode _ = List.mapM decode _
  induction hitems with
  | nil => rfl
  | cons hfirst _ ih => simp [h hfirst, ih]

theorem option?_of_ne_null (h : j ≠ .null) : j.option? decode = (decode j).map some := by
  cases j with
  | null => exact absurd rfl h
  | _ => rfl

theorem option?_ofOption (h : ∀ v, decode (encode v) = some v) (hnull : ∀ v, encode v ≠ .null)
    (value : Option α) : (ofOption encode value).option? decode = some value := by
  cases value with
  | none => rfl
  | some v =>
    change (encode v).option? decode = some (some v)
    rw [option?_of_ne_null (hnull v), h v, Option.map_some]

end

end Json

/-- Every value is read back from the form it is written in, and what a form reads as depends
neither on its wording nor on whether it was read and written before. -/
structure ReadsBack {α : Type} (encode : α → Json) (decode : Json → Option α)
    (Reworded : Json → Json → Prop) : Prop where
  decode_encode : ∀ v, decode (encode v) = some v
  decode_reworded : ∀ {j k}, Reworded j k → decode j = decode k
  decode_again : ∀ {j v}, decode j = some v → decode (encode v) = decode j

section

variable {α : Type} {encode : α → Json} {decode : Json → Option α}

theorem ReadsBack.of_decode_encode {Reworded : Json → Json → Prop}
    (hencode : ∀ v, decode (encode v) = some v)
    (hreworded : ∀ {j k}, Reworded j k → decode j = decode k) :
    ReadsBack encode decode Reworded where
  decode_encode := hencode
  decode_reworded := hreworded
  decode_again := by
    intro j v h
    rw [hencode v, h]

theorem ReadsBack.of_record {names : List String} (hnames : names.Nodup)
    (hencode : ∀ v, decode (encode v) = some v)
    (hrecord : ∀ {j k : Json}, j.record? names = k.record? names → decode j = decode k) :
    ReadsBack encode decode (Json.Reworded names fun _ _ _ => False) :=
  .of_decode_encode hencode fun h => h.decode_eq hnames hrecord False.elim

end

-- ---------------------------------------------------------------------------
-- Locations
-- ---------------------------------------------------------------------------

namespace BoundLocation

def Reworded : Json → Json → Prop := Json.Reworded ["param_index", "bound_index"] fun _ _ _ => False

theorem ofJson?_toJson (loc : BoundLocation) : ofJson? loc.toJson = some loc := by
  have hread : loc.toJson.record? ["param_index", "bound_index"] = _ :=
    Json.record?_ofFields (by simp)
  simp [ofJson?, hread, requiredInt32?]

theorem readsBack : ReadsBack toJson ofJson? Reworded :=
  .of_record (by decide) ofJson?_toJson fun hrecord => by rw [ofJson?, ofJson?, hrecord]

end BoundLocation

namespace RelativeLocation

def Reworded : Json → Json → Prop :=
  Json.Reworded ["offset", "index", "type_index"] fun _ _ _ => False

theorem ofJson?_toJson (loc : RelativeLocation) : ofJson? loc.toJson = some loc := by
  have hread : loc.toJson.record? ["offset", "index", "type_index"] = _ :=
    Json.record?_ofFields (by simp)
  simp [ofJson?, hread, requiredInt32?]

theorem readsBack : ReadsBack toJson ofJson? Reworded :=
  .of_record (by decide) ofJson?_toJson fun hrecord => by rw [ofJson?, ofJson?, hrecord]

end RelativeLocation

namespace TypeIndexLocation

def Reworded : Json → Json → Prop := Json.Reworded ["type_index"] fun _ _ _ => False

theorem ofJson?_toJson (loc : TypeIndexLocation) : ofJson? loc.toJson = some loc := by
  have hread : loc.toJson.record? ["type_index"] = _ := Json.record?_ofFields (by simp)
  simp [ofJson?, hread, requiredInt32?]

theorem readsBack : ReadsBack toJson ofJson? Reworded :=
  .of_record (by decide) ofJson?_toJson fun hrecord => by rw [ofJson?, ofJson?, hrecord]

end TypeIndexLocation

namespace LocalRange

def Reworded : Json → Json → Prop := Json.Reworded ["start", "length", "index"] fun _ _ _ => False

theorem ofJson?_toJson (range : LocalRange) : ofJson? range.toJson = some range := by
  have hread : range.toJson.record? ["start", "length", "index"] = _ :=
    Json.record?_ofFields (by simp)
  simp [ofJson?, hread, requiredInt32?]

theorem readsBack : ReadsBack toJson ofJson? Reworded :=
  .of_record (by decide) ofJson?_toJson fun hrecord => by rw [ofJson?, ofJson?, hrecord]

end LocalRange

namespace LocalLocation

def Reworded : Json → Json → Prop :=
  Json.Reworded ["ranges", "var_name", "var_index"] fun name j k =>
    name = "ranges" ∧ Json.ItemsReworded LocalRange.Reworded j k

theorem ofJson?_toJson (loc : LocalLocation) : ofJson? loc.toJson = some loc := by
  have hread : loc.toJson.record? ["ranges", "var_name", "var_index"] = _ :=
    Json.record?_ofFields (by simp)
  have hname : (Json.ofOption .ofText loc.variableName).option? Json.string? = _ :=
    Json.option?_ofOption Json.string?_ofText (by simp [Json.ofText]) _
  simp [ofJson?, hread, requiredInt32?, optional?, Json.list?_map LocalRange.ofJson?_toJson, hname]

theorem ofJson?_ranges {j k : Json} {fields : List (Option String × Json)}
    (h : Json.ItemsReworded LocalRange.Reworded j k) :
    ofJson? (.object ((some "ranges", j) :: fields)) =
      ofJson? (.object ((some "ranges", k) :: fields)) := by
  have hranges : j.list? LocalRange.ofJson? = k.list? LocalRange.ofJson? :=
    Json.list?_of_itemsReworded LocalRange.readsBack.decode_reworded h
  by_cases hkeyed : Json.Keyed ["ranges", "var_name", "var_index"] ((some "ranges", j) :: fields)
  · rw [ofJson?, ofJson?, Json.record?_of_keyed hkeyed, Json.record?_of_keyed (hkeyed.set_value k)]
    simp [Json.field?_cons, hranges]
  · have hkeyed' : ¬Json.Keyed ["ranges", "var_name", "var_index"] ((some "ranges", k) :: fields) :=
      fun h => hkeyed (h.set_value j)
    rw [ofJson?, ofJson?, Json.record?_of_not_keyed hkeyed, Json.record?_of_not_keyed hkeyed']

theorem readsBack : ReadsBack toJson ofJson? Reworded := by
  refine .of_decode_encode ofJson?_toJson fun h => h.decode_eq (by decide) ?_ ?_
  · intro j k hrecord
    rw [ofJson?, ofJson?, hrecord]
  · rintro _ j k fields ⟨rfl, hitems⟩
    exact ofJson?_ranges hitems

end LocalLocation

namespace AstEntry

def Reworded : Json → Json → Prop :=
  Json.Reworded ["tree_kind", "child_selector", "argument"] fun _ _ _ => False

theorem ofJson?_toJson (entry : AstEntry) : ofJson? entry.toJson = some entry := by
  have hread : entry.toJson.record? ["tree_kind", "child_selector", "argument"] = _ :=
    Json.record?_ofFields (by simp)
  have hargument :
      (Json.ofOption (fun n => .int n.toNat) entry.argument).option? Json.uint32? = _ :=
    Json.option?_ofOption Json.uint32?_toNat (by simp) _
  simp [ofJson?, hread, optional?, hargument]

theorem readsBack : ReadsBack toJson ofJson? Reworded :=
  .of_record (by decide) ofJson?_toJson fun hrecord => by rw [ofJson?, ofJson?, hrecord]

end AstEntry

namespace AstPath

def Reworded : Json → Json → Prop := Json.ItemsReworded AstEntry.Reworded

theorem ofJson?_toJson (path : AstPath) : ofJson? path.toJson = some path := by
  rw [ofJson?, toJson, Json.list?_map AstEntry.ofJson?_toJson, Option.map_some]

theorem readsBack : ReadsBack toJson ofJson? Reworded := by
  refine .of_decode_encode ofJson?_toJson fun {j k} h => ?_
  have hentries : j.list? AstEntry.ofJson? = k.list? AstEntry.ofJson? :=
    Json.list?_of_itemsReworded AstEntry.readsBack.decode_reworded h
  rw [ofJson?, ofJson?, hentries]

end AstPath

namespace TypeStep

/-- A step is no record: beside its name, an object that says it may say nothing else. -/
inductive Reworded : Json → Json → Prop
  | refl (j : Json) : Reworded j j
  | symm {j k : Json} : Reworded j k → Reworded k j
  | trans {i j k : Json} : Reworded i j → Reworded j k → Reworded i k
  | named (name : String) : Reworded (.ofText name) (.ofFields [(name, .null)])
  | reordered {fields fields' : List (Option String × Json)} : fields.Perm fields' →
      Reworded (.object fields) (.object fields')

theorem ofJson?_toJson (step : TypeStep) : ofJson? step.toJson = some step := by
  cases step with
  | argument index => simp [toJson, Json.ofFields, ofJson?]
  | array => decide
  | inner => decide
  | wildcard => decide

/-- An object is a step only if it has a single member. -/
theorem ofJson?_of_length_ne_one {fields : List (Option String × Json)} (h : fields.length ≠ 1) :
    ofJson? (.object fields) = none := by
  match fields with
  | [] => rfl
  | [_] => exact absurd rfl h
  | _ :: _ :: _ => simp [ofJson?]

theorem ofJson?_perm {fields fields' : List (Option String × Json)} (h : fields.Perm fields') :
    ofJson? (.object fields) = ofJson? (.object fields') := by
  by_cases hlength : fields.length = 1
  · obtain ⟨f, rfl⟩ := List.length_eq_one_iff.mp hlength
    rw [List.perm_singleton.mp h.symm]
  · rw [ofJson?_of_length_ne_one hlength, ofJson?_of_length_ne_one (h.length_eq ▸ hlength)]

theorem readsBack : ReadsBack toJson ofJson? Reworded := by
  refine .of_decode_encode ofJson?_toJson fun h => ?_
  induction h with
  | refl => rfl
  | symm _ ih => exact ih.symm
  | trans _ _ ih₁ ih₂ => exact ih₁.trans ih₂
  | named => rfl
  | reordered hperm => exact ofJson?_perm hperm

end TypeStep

namespace TypePath

def Reworded : Json → Json → Prop := Json.ItemsReworded TypeStep.Reworded

theorem readsBack : ReadsBack toJson ofJson? Reworded :=
  .of_decode_encode (Json.list?_map TypeStep.ofJson?_toJson)
    (Json.list?_of_itemsReworded TypeStep.readsBack.decode_reworded)

end TypePath

/-- Every kind of location, and what it is made of, is read back from the form it is written in,
and from any other wording of it. Only records have members to pass over: a step with another
member beside its name is refused. -/
theorem locations_read_back :
    ReadsBack BoundLocation.toJson BoundLocation.ofJson? BoundLocation.Reworded ∧
    ReadsBack RelativeLocation.toJson RelativeLocation.ofJson? RelativeLocation.Reworded ∧
    ReadsBack TypeIndexLocation.toJson TypeIndexLocation.ofJson? TypeIndexLocation.Reworded ∧
    ReadsBack LocalRange.toJson LocalRange.ofJson? LocalRange.Reworded ∧
    ReadsBack LocalLocation.toJson LocalLocation.ofJson? LocalLocation.Reworded ∧
    ReadsBack AstEntry.toJson AstEntry.ofJson? AstEntry.Reworded ∧
    ReadsBack AstPath.toJson AstPath.ofJson? AstPath.Reworded ∧
    ReadsBack TypeStep.toJson TypeStep.ofJson? TypeStep.Reworded ∧
    ReadsBack TypePath.toJson TypePath.ofJson? TypePath.Reworded ∧
    ∀ named extra others, TypeStep.ofJson? (.object (named :: extra :: others)) = none :=
  ⟨BoundLocation.readsBack, RelativeLocation.readsBack, TypeIndexLocation.readsBack,
    LocalRange.readsBack, LocalLocation.readsBack, AstEntry.readsBack, AstPath.readsBack,
    TypeStep.readsBack, TypePath.readsBack,
    fun _ _ _ => TypeStep.ofJson?_of_length_ne_one (by simp)⟩

/-- The range is a list, the members are in another order, and one of them is unknown. -/
theorem locations_read_back_nested :
    LocalLocation.ofJson? (.ofFields [("note", .bool true), ("var_index", .int (-1)),
      ("ranges", .list [.list [.int 0, .int 5, .int 1]]), ("var_name", .ofText "x")]) =
      some ⟨[⟨0, 5, 1⟩], some "x", -1⟩ := by
  obtain ⟨-, -, -, -, hlocal, -⟩ := locations_read_back
  have hrange : LocalRange.Reworded
      (.ofFields (["start", "length", "index"].zip [.int 0, .int 5, .int 1]))
      (.list [.int 0, .int 5, .int 1]) := .listed rfl
  have hranges := Json.ItemsReworded.list (.cons hrange .nil)
  have hnote : "note" ∉ ["ranges", "var_name", "var_index"] := by decide
  rw [← hlocal.decode_encode]
  refine (hlocal.decode_reworded (.trans (.field ⟨rfl, hranges⟩)
    (.trans (.extended (.bool true) hnote) (.reordered ?_)))).symm
  exact .cons _ (.symm (.trans (.swap _ _ _) (.cons _ (.swap _ _ _))))

end AnnotationScene
