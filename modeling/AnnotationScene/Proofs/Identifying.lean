import AnnotationScene.Location
import AnnotationScene.Proofs.Parsing
import Mathlib.Logic.Function.Basic

/-!
# Texts that identify locations

No two locations have the same text. Every text is made of decimal integers with other characters
between them, so that an integer ends where the first character follows that cannot prolong it;
what it is and what comes after it can both be told. Names of variables may hold any characters,
but the integer after a name is behind the last asterisk.
-/

namespace AnnotationScene

-- ---------------------------------------------------------------------------
-- Integers inside a text
-- ---------------------------------------------------------------------------

def isNumeric (c : Char) : Bool := c.isDigit || c == '-'

/-- What follows an integer does not prolong it. -/
def EndsInteger (s : List Char) : Prop := ∀ c, s.head? = some c → isNumeric c = false

variable {s t : List Char}

theorem endsInteger_nil : EndsInteger [] := by simp [EndsInteger]

theorem endsInteger_cons {c : Char} (h : isNumeric c = false) : EndsInteger (c :: s) := by
  simpa [EndsInteger] using h

theorem isDigit_of_mem_toDigits {n : Nat} {c : Char} (h : c ∈ Nat.toDigits 10 n) :
    c.isDigit = true :=
  (Text.digits_toDigits n).isDigit c h

theorem toDigits_injective : Function.Injective (Nat.toDigits 10) := fun m n h => by
  have hvalue := (Text.digits_toDigits m).value
  rwa [h, (Text.digits_toDigits n).value, eq_comm] at hvalue

theorem toList_showInt32 (n : Int32) : (showInt32 n).toList =
    if 0 ≤ n.toInt then Nat.toDigits 10 n.toInt.toNat
    else '-' :: Nat.toDigits 10 (-n.toInt).toNat := by
  rw [showInt32, Int.toString_eq_repr, Int.repr_eq_if]
  split <;> simp

theorem toList_showInt32_inj {m n : Int32} :
    (showInt32 m).toList = (showInt32 n).toList ↔ m = n := by
  -- a minus sign is no digit, so the first character tells the sign
  have hsign : ∀ k l : Nat, Nat.toDigits 10 k ≠ '-' :: Nat.toDigits 10 l := fun k l h =>
    absurd (isDigit_of_mem_toDigits (h ▸ List.mem_cons_self)) (by decide)
  refine ⟨fun h => Int32.toInt_inj.mp ?_, fun h => h ▸ rfl⟩
  rw [toList_showInt32, toList_showInt32] at h
  split at h <;> split at h
  · have := toDigits_injective h
    omega
  · exact (hsign _ _ h).elim
  · exact (hsign _ _ h.symm).elim
  · have := toDigits_injective (List.cons.inj h).2
    omega

theorem isNumeric_of_mem_showInt32 {n : Int32} {c : Char} (h : c ∈ (showInt32 n).toList) :
    isNumeric c = true := by
  rw [toList_showInt32] at h
  split at h
  next => simp [isNumeric, isDigit_of_mem_toDigits h]
  next =>
    rcases List.mem_cons.mp h with rfl | h
    · decide
    · simp [isNumeric, isDigit_of_mem_toDigits h]

theorem not_mem_showInt32 {n : Int32} {c : Char} (h : isNumeric c = false) :
    c ∉ (showInt32 n).toList := fun hmem => by
  simp [isNumeric_of_mem_showInt32 hmem] at h

theorem takeWhile_showInt32_append (n : Int32) (h : EndsInteger s) :
    ((showInt32 n).toList ++ s).takeWhile isNumeric = (showInt32 n).toList := by
  rw [List.takeWhile_append_of_pos fun c hc => isNumeric_of_mem_showInt32 hc]
  cases s with
  | nil => simp
  | cons c rest => simp [h c rfl]

/-- An integer can be told from a text that begins with it, and so can what comes after it. -/
theorem showInt32_append_inj {m n : Int32} (hs : EndsInteger s) (ht : EndsInteger t) :
    (showInt32 m).toList ++ s = (showInt32 n).toList ++ t ↔ m = n ∧ s = t := by
  constructor
  · intro h
    have hnumber : (showInt32 m).toList = (showInt32 n).toList := by
      rw [← takeWhile_showInt32_append m hs, h, takeWhile_showInt32_append n ht]
    rw [hnumber] at h
    exact ⟨toList_showInt32_inj.mp hnumber, List.append_cancel_left h⟩
  · rintro ⟨rfl, rfl⟩
    rfl

theorem showInt32_append_cons_inj {m n : Int32} {c : Char} (hc : isNumeric c = false) :
    (showInt32 m).toList ++ c :: s = (showInt32 n).toList ++ c :: t ↔ m = n ∧ s = t := by
  simp [showInt32_append_inj (endsInteger_cons hc) (endsInteger_cons hc)]

-- ---------------------------------------------------------------------------
-- Bounds, supertypes and places in code
-- ---------------------------------------------------------------------------

theorem BoundLocation.toList_render (loc : BoundLocation) : loc.render.toList =
    "bound ".toList ++ ((showInt32 loc.parameter).toList ++ ' ' :: '&' ::
      (showInt32 loc.bound).toList) := by
  change ("bound " ++ showInt32 loc.parameter ++ " &" ++ showInt32 loc.bound).toList = _
  simp

theorem BoundLocation.render_injective : Function.Injective BoundLocation.render := by
  intro a b h
  have htext := congrArg String.toList h
  simp (disch := decide) only [toList_render, List.append_right_inj, showInt32_append_cons_inj,
    List.cons.injEq, true_and, toList_showInt32_inj] at htext
  cases a
  cases b
  simp_all

theorem TypeIndexLocation.render_injective : Function.Injective TypeIndexLocation.render := by
  intro a b h
  have htext : ("typeindex " ++ showInt32 a.typeIndex).toList =
      ("typeindex " ++ showInt32 b.typeIndex).toList := congrArg String.toList h
  have hindex : a.typeIndex = b.typeIndex := by simpa [toList_showInt32_inj] using htext
  cases a
  cases b
  simp_all

namespace RelativeLocation

/-- By offset or by index, whichever is not negative; the other one is `-1`. So is the type index
of a place without types. -/
structure Proper (loc : RelativeLocation) : Prop where
  place : 0 ≤ loc.offset.toInt ∧ loc.index = -1 ∨ loc.offset = -1 ∧ 0 ≤ loc.index.toInt
  typeIndex : -1 ≤ loc.typeIndex.toInt

def typeSuffix (loc : RelativeLocation) : List Char :=
  if 0 ≤ loc.typeIndex.toInt then ',' :: (showInt32 loc.typeIndex).toList else []

theorem endsInteger_typeSuffix (loc : RelativeLocation) : EndsInteger loc.typeSuffix := by
  unfold typeSuffix
  split
  next => exact endsInteger_cons (by decide)
  next => exact endsInteger_nil

theorem toList_render (loc : RelativeLocation) : loc.render.toList =
    (if loc.isBytecode then '#' :: (showInt32 loc.offset).toList
      else '*' :: (showInt32 loc.index).toList) ++ loc.typeSuffix := by
  unfold render typeSuffix
  by_cases hcode : loc.isBytecode <;> by_cases htype : 0 ≤ loc.typeIndex.toInt <;>
    simp [hcode, htype, toString]

theorem Proper.text_cases {loc : RelativeLocation} (h : loc.Proper) :
    loc.index = -1 ∧
      loc.render.toList = '#' :: ((showInt32 loc.offset).toList ++ loc.typeSuffix) ∨
    loc.offset = -1 ∧
      loc.render.toList = '*' :: ((showInt32 loc.index).toList ++ loc.typeSuffix) := by
  rw [toList_render]
  obtain ⟨hoffset, hindex⟩ | ⟨hoffset, hindex⟩ := h.place
  · have hcode : loc.isBytecode = true := by
      simp [isBytecode]
      omega
    exact .inl ⟨hindex, by simp [hcode]⟩
  · have hcode : loc.isBytecode = false := by simp [isBytecode, hoffset]
    exact .inr ⟨hoffset, by simp [hcode]⟩

theorem typeSuffix_inj {a b : RelativeLocation} (ha : a.Proper) (hb : b.Proper)
    (h : a.typeSuffix = b.typeSuffix) : a.typeIndex = b.typeIndex := by
  have hfloor : ∀ loc : RelativeLocation, loc.Proper → ¬ 0 ≤ loc.typeIndex.toInt →
      loc.typeIndex = -1 := by
    intro loc hloc hneg
    have := hloc.typeIndex
    exact Int32.toInt_inj.mp (by simp; omega)
  unfold typeSuffix at h
  split at h <;> split at h
  · exact toList_showInt32_inj.mp (List.cons.inj h).2
  · cases h
  · cases h
  next hna hnb => rw [hfloor a ha hna, hfloor b hb hnb]

theorem eq_of_fields {a b : RelativeLocation} (hoffset : a.offset = b.offset)
    (hindex : a.index = b.index) (htype : a.typeIndex = b.typeIndex) : a = b := by
  cases a
  cases b
  simp_all

theorem render_inj {a b : RelativeLocation} (ha : a.Proper) (hb : b.Proper) :
    a.render = b.render ↔ a = b := by
  refine ⟨fun h => ?_, fun h => h ▸ rfl⟩
  have htext := congrArg String.toList h
  have hnumber {m n : Int32} := @showInt32_append_inj _ _ m n a.endsInteger_typeSuffix
    b.endsInteger_typeSuffix
  rcases ha.text_cases with ⟨ha', hatext⟩ | ⟨ha', hatext⟩
  · rcases hb.text_cases with ⟨hb', hbtext⟩ | ⟨hb', hbtext⟩
    · obtain ⟨hoffset, hsuffix⟩ : a.offset = b.offset ∧ a.typeSuffix = b.typeSuffix := by
        simpa [hatext, hbtext, hnumber] using htext
      exact eq_of_fields hoffset (ha'.trans hb'.symm) (typeSuffix_inj ha hb hsuffix)
    · simp [hatext, hbtext] at htext
  · rcases hb.text_cases with ⟨hb', hbtext⟩ | ⟨hb', hbtext⟩
    · simp [hatext, hbtext] at htext
    · obtain ⟨hindex, hsuffix⟩ : a.index = b.index ∧ a.typeSuffix = b.typeSuffix := by
        simpa [hatext, hbtext, hnumber] using htext
      exact eq_of_fields (ha'.trans hb'.symm) hindex (typeSuffix_inj ha hb hsuffix)

end RelativeLocation

-- ---------------------------------------------------------------------------
-- Local variables
-- ---------------------------------------------------------------------------

namespace LocalRange

theorem toList_render (range : LocalRange) : range.render.toList =
    '#' :: ((showInt32 range.index).toList ++ ' ' :: '#' ::
      ((showInt32 range.start).toList ++ '+' :: (showInt32 range.length).toList)) := by
  change ("#" ++ showInt32 range.index ++ " #" ++ showInt32 range.start ++ "+" ++
    showInt32 range.length).toList = _
  simp

theorem render_append_inj {a b : LocalRange} (hs : EndsInteger s) (ht : EndsInteger t) :
    a.render.toList ++ s = b.render.toList ++ t ↔ a = b ∧ s = t := by
  refine ⟨fun h => ?_, fun h => by rw [h.1, h.2]⟩
  simp (disch := decide) only [toList_render, List.cons_append, List.append_assoc,
    List.cons.injEq, true_and, showInt32_append_cons_inj, showInt32_append_inj hs ht] at h
  cases a
  cases b
  simp_all

end LocalRange

namespace LocalLocation

/-- The ways to build the location of a local variable. -/
inductive Built : LocalLocation → Prop
  | slot (index start length : Int32) : Built (ofSlot index start length)
  | ranges (ranges : List LocalRange) : Built (ofRanges ranges)
  | source (name : String) (index : Int32) : Built (ofSource name index)

/-- The text of ranges with a blank before each of them. -/
def rangesTail (ranges : List LocalRange) : List Char :=
  ranges.flatMap fun range => ' ' :: range.render.toList

theorem endsInteger_rangesTail (ranges : List LocalRange) : EndsInteger (rangesTail ranges) := by
  cases ranges with
  | nil => exact endsInteger_nil
  | cons range rest => exact endsInteger_cons (by decide)

theorem rangesTail_injective : Function.Injective rangesTail := by
  intro a b h
  induction a generalizing b with
  | nil =>
    cases b with
    | nil => rfl
    | cons _ _ => simp [rangesTail] at h
  | cons range rest ih =>
    cases b with
    | nil => simp [rangesTail] at h
    | cons range' rest' =>
      have htext : range.render.toList ++ rangesTail rest =
          range'.render.toList ++ rangesTail rest' := by
        simpa [rangesTail] using h
      obtain ⟨rfl, hrest⟩ := (LocalRange.render_append_inj (endsInteger_rangesTail rest)
        (endsInteger_rangesTail rest')).mp htext
      rw [ih hrest]

theorem toList_render_ofRanges (range : LocalRange) (rest : List LocalRange) :
    (ofRanges (range :: rest)).render.toList = range.render.toList ++ rangesTail rest := by
  induction rest generalizing range with
  | nil => simp [render, ofRanges, rangesTail]
  | cons next rest ih =>
    have hnext := ih next
    simp only [render, ofRanges, String.toList_intercalate, List.map_cons] at hnext ⊢
    rw [List.intercalate_cons_cons, hnext]
    simp [rangesTail]

theorem toList_render_ofSource (name : String) (index : Int32) :
    (ofSource name index).render.toList = name.toList ++ '*' :: (showInt32 index).toList := by
  change (name ++ "*" ++ showInt32 index).toList = _
  simp

theorem ofRanges_render_injective : Function.Injective fun ranges => (ofRanges ranges).render := by
  intro a b h
  have htext : (ofRanges a).render.toList = (ofRanges b).render.toList := congrArg String.toList h
  cases a with
  | nil =>
    cases b with
    | nil => rfl
    | cons range rest =>
      rw [toList_render_ofRanges, LocalRange.toList_render] at htext
      simp [ofRanges, render] at htext
  | cons range rest =>
    cases b with
    | nil =>
      rw [toList_render_ofRanges, LocalRange.toList_render] at htext
      simp [ofRanges, render] at htext
    | cons range' rest' =>
      rw [toList_render_ofRanges, toList_render_ofRanges] at htext
      obtain ⟨rfl, hrest⟩ := (LocalRange.render_append_inj (endsInteger_rangesTail rest)
        (endsInteger_rangesTail rest')).mp htext
      rw [rangesTail_injective hrest]

theorem asterisk_not_mem_rangesTail (ranges : List LocalRange) : '*' ∉ rangesTail ranges := by
  simp (disch := decide) [rangesTail, LocalRange.toList_render, not_mem_showInt32]

theorem asterisk_not_mem_ofRanges (ranges : List LocalRange) :
    '*' ∉ (ofRanges ranges).render.toList := by
  cases ranges with
  | nil => simp [ofRanges, render]
  | cons range rest =>
    have hall := asterisk_not_mem_rangesTail (range :: rest)
    rw [toList_render_ofRanges]
    simpa [rangesTail] using hall

theorem ofRanges_render_ne (ranges : List LocalRange) (name : String) (index : Int32) :
    (ofRanges ranges).render ≠ (ofSource name index).render := by
  intro h
  refine asterisk_not_mem_ofRanges ranges ?_
  simp [h, toList_render_ofSource]

theorem append_asterisk_inj {x y : List Char} (hx : '*' ∉ x) (hy : '*' ∉ y)
    (h : s ++ '*' :: x = t ++ '*' :: y) : s = t ∧ x = y := by
  -- a longer front on one side would have an asterisk behind the other's
  rcases List.append_eq_append_iff.mp h with
    ⟨_ | ⟨c, more⟩, rfl, hrest⟩ | ⟨_ | ⟨c, more⟩, rfl, hrest⟩
  · simpa using hrest
  · exact (hx (by simp [(List.cons.inj hrest).2])).elim
  · simpa [eq_comm] using hrest
  · exact (hy (by simp [(List.cons.inj hrest).2])).elim

theorem ofSource_render_inj {name name' : String} {index index' : Int32}
    (h : (ofSource name index).render = (ofSource name' index').render) :
    ofSource name index = ofSource name' index' := by
  have htext := congrArg String.toList h
  rw [toList_render_ofSource, toList_render_ofSource] at htext
  obtain ⟨hname, hindex⟩ := append_asterisk_inj (not_mem_showInt32 (by decide))
    (not_mem_showInt32 (by decide)) htext
  rw [String.toList_injective hname, toList_showInt32_inj.mp hindex]

theorem Built.cases {loc : LocalLocation} (h : loc.Built) :
    (∃ ranges, loc = ofRanges ranges) ∨ ∃ name index, loc = ofSource name index := by
  cases h with
  | slot index start length => exact .inl ⟨_, rfl⟩
  | ranges ranges => exact .inl ⟨ranges, rfl⟩
  | source name index => exact .inr ⟨name, index, rfl⟩

theorem render_inj {a b : LocalLocation} (ha : a.Built) (hb : b.Built) :
    a.render = b.render ↔ a = b := by
  refine ⟨fun h => ?_, fun h => h ▸ rfl⟩
  rcases ha.cases with ⟨ranges, rfl⟩ | ⟨name, index, rfl⟩
  · rcases hb.cases with ⟨ranges', rfl⟩ | ⟨name', index', rfl⟩
    · rw [ofRanges_render_injective h]
    · exact (ofRanges_render_ne _ _ _ h).elim
  · rcases hb.cases with ⟨ranges', rfl⟩ | ⟨name', index', rfl⟩
    · exact (ofRanges_render_ne _ _ _ h.symm).elim
    · exact ofSource_render_inj h

end LocalLocation

/-- The text of a location tells which one it is. Of places in code that holds where one of offset
and index is in use, and of local variables in every form that they can be built in. -/
theorem render_identifies_location :
    (∀ a b : BoundLocation, a.render = b.render ↔ a = b) ∧
    (∀ a b : TypeIndexLocation, a.render = b.render ↔ a = b) ∧
    (∀ a b : RelativeLocation, a.Proper → b.Proper → (a.render = b.render ↔ a = b)) ∧
    ∀ a b : LocalLocation, a.Built → b.Built → (a.render = b.render ↔ a = b) :=
  ⟨fun _ _ => BoundLocation.render_injective.eq_iff,
    fun _ _ => TypeIndexLocation.render_injective.eq_iff,
    fun _ _ ha hb => RelativeLocation.render_inj ha hb,
    fun _ _ ha hb => LocalLocation.render_inj ha hb⟩

theorem render_identifies_location_asterisk :
    (LocalLocation.ofSource "x*1" 2).Built ∧ (LocalLocation.ofSource "x" 12).Built ∧
    (RelativeLocation.ofOffset 0 (-1)).Proper ∧ (RelativeLocation.ofIndex 0 (-1)).Proper ∧
    (LocalLocation.ofSource "x*1" 2).render ≠ (LocalLocation.ofSource "x" 12).render ∧
    (RelativeLocation.ofOffset 0 (-1)).render ≠ (RelativeLocation.ofIndex 0 (-1)).render := by
  obtain ⟨-, -, hrelative, hlocal⟩ := render_identifies_location
  have hoffset : (RelativeLocation.ofOffset 0 (-1)).Proper := ⟨by decide, by decide⟩
  have hindex : (RelativeLocation.ofIndex 0 (-1)).Proper := ⟨by decide, by decide⟩
  refine ⟨.source .., .source .., hoffset, hindex, fun h => ?_, fun h => ?_⟩
  · exact absurd ((hlocal _ _ (.source ..) (.source ..)).mp h) (by decide)
  · exact absurd ((hrelative _ _ hoffset hindex).mp h) (by decide)

end AnnotationScene
