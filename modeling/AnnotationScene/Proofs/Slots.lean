import AnnotationScene.Proofs.SameScenes

/-!
# Parts slot by slot

In a layout that lists no slot twice, parts are known by what each slot holds. Being equal, being
well formed and being the same are read off slot by slot here, so that a change to one slot is
looked at in that slot alone; sameness is then carried on to the children.
-/

namespace AnnotationScene

namespace Parts

variable {layout rest : List Slot} {t : Slot}

def head : {t : Slot} → Parts (t :: rest) → t.Content
  | _, .fixed child _ => child
  | _, .absent _ => none
  | _, .present child _ => some child
  | _, .keyed entries _ => entries
  | _, .contracts set _ => set

def tail : {t : Slot} → Parts (t :: rest) → Parts rest
  | _, .fixed _ more => more
  | _, .absent more => more
  | _, .present _ more => more
  | _, .keyed _ more => more
  | _, .contracts _ more => more

theorem eq_of_head_tail {p q : Parts (t :: rest)} (hhead : p.head = q.head)
    (htail : p.tail = q.tail) : p = q := by
  cases p <;> cases q <;> simp_all [head, tail]

theorem slot?_head (p : Parts (t :: rest)) : p.slot? t = some p.head := by
  cases p <;> simp [slot?, head]

theorem slot?_tail {s : Slot} (h : t ≠ s) (p : Parts (t :: rest)) :
    p.slot? s = p.tail.slot? s := by
  cases p <;> simp [slot?, tail, h]

/-- Which slots there are is a matter of the layout. -/
theorem isSome_slot? {s : Slot} (p : Parts layout) : (p.slot? s).isSome ↔ s ∈ layout := by
  induction layout with
  | nil =>
    cases p
    simp [slot?]
  | cons t rest ih =>
    by_cases h : t = s
    · subst h
      simp [slot?_head]
    · rw [slot?_tail h, ih, List.mem_cons]
      simp [Ne.symm h]

theorem slot?_eq_none {s : Slot} (hs : s ∉ layout) (p : Parts layout) : p.slot? s = none := by
  rw [← Option.not_isSome_iff_eq_none, p.isSome_slot?]
  exact hs

theorem exists_slot? {s : Slot} (hs : s ∈ layout) (p : Parts layout) :
    ∃ content, p.slot? s = some content :=
  Option.isSome_iff_exists.mp (p.isSome_slot?.mpr hs)

theorem ext_slots (hl : layout.Nodup) {p q : Parts layout} (h : ∀ s, p.slot? s = q.slot? s) :
    p = q := by
  induction layout with
  | nil =>
    cases p
    cases q
    rfl
  | cons t rest ih =>
    obtain ⟨ht, hl⟩ := List.nodup_cons.mp hl
    have hhead : p.head = q.head := by
      have := h t
      rw [slot?_head, slot?_head] at this
      exact Option.some.inj this
    have htail : p.tail = q.tail := by
      refine ih hl fun s => ?_
      by_cases hs : t = s
      · subst hs
        rw [slot?_eq_none ht, slot?_eq_none ht]
      · rw [← slot?_tail hs, ← slot?_tail hs]
        exact h s
    exact eq_of_head_tail hhead htail

end Parts

-- ---------------------------------------------------------------------------
-- Well-formedness
-- ---------------------------------------------------------------------------

def Slot.WellFormed : (s : Slot) → s.Content → Prop
  | .fixed _, child => Element.WellFormed child
  | .optional _, child => ∀ c ∈ child, c.WellFormed
  | .keyed _, entries => Entries.WellFormed entries
  | .contracts, set => AnnotationSet.WellFormed set

theorem Parts.wellFormed_cons {t : Slot} {rest : List Slot} (p : Parts (t :: rest)) :
    p.WellFormed ↔ t.WellFormed p.head ∧ p.tail.WellFormed := by
  cases p <;> simp [Parts.WellFormed, Slot.WellFormed, Parts.head, Parts.tail]

theorem Parts.wellFormed_iff_slots {layout : List Slot} (hl : layout.Nodup) {p : Parts layout} :
    p.WellFormed ↔ ∀ s content, p.slot? s = some content → s.WellFormed content := by
  induction layout with
  | nil =>
    cases p
    simp [Parts.WellFormed, Parts.slot?]
  | cons t rest ih =>
    obtain ⟨ht, hl⟩ := List.nodup_cons.mp hl
    rw [p.wellFormed_cons, ih hl]
    constructor
    · rintro ⟨hhead, htail⟩ s content hs
      by_cases hts : t = s
      · subst hts
        rw [slot?_head] at hs
        exact Option.some.inj hs ▸ hhead
      · rw [slot?_tail hts] at hs
        exact htail s content hs
    · intro h
      refine ⟨h t p.head p.slot?_head, fun s content hs => ?_⟩
      have hts : t ≠ s := by
        rintro rfl
        rw [slot?_eq_none ht] at hs
        cases hs
      exact h s content (by rw [slot?_tail hts]; exact hs)

theorem Parts.WellFormed.slot? {layout : List Slot} (hl : layout.Nodup) {p : Parts layout}
    (hw : p.WellFormed) {s : Slot} {content : s.Content} (h : p.slot? s = some content) :
    s.WellFormed content :=
  (Parts.wellFormed_iff_slots hl).mp hw s content h

theorem Parts.WellFormed.setSlot {layout : List Slot} (hl : layout.Nodup) {p : Parts layout}
    (hw : p.WellFormed) {s : Slot} {content : s.Content} (hc : s.WellFormed content) :
    (p.setSlot s content).WellFormed := by
  rw [Parts.wellFormed_iff_slots hl] at hw ⊢
  intro u other hu
  by_cases hus : u = s
  · subst hus
    rw [slot?_setSlot_self, Option.map_eq_some_iff] at hu
    obtain ⟨_, -, rfl⟩ := hu
    exact hc
  · rw [slot?_setSlot_of_ne p hus] at hu
    exact hw u other hu

theorem Entries.wellFormed_ofMap {m : ChildMap} {map : OrderedMap m.Key (Element m.kind)}
    (hkeys : map.keys.Nodup) (hall : ∀ x ∈ map.entries, x.2.WellFormed) :
    (Entries.ofMap map).WellFormed := by
  obtain ⟨entries⟩ := map
  induction entries with
  | nil => trivial
  | cons x rest ih =>
    obtain ⟨hkey, hrest⟩ := List.nodup_cons.mp hkeys
    obtain ⟨hx, hall⟩ := List.forall_mem_cons.mp hall
    refine ⟨?_, hx, ih hrest hall⟩
    rw [Entries.keys, Entries.toMap, Entries.toList_ofList]
    exact hkey

theorem Entries.get?_insert_self {m : ChildMap} (e : Entries m) (key : m.Key)
    (child : Element m.kind) : (e.insert key child).get? key = some child := by
  simp only [Entries.insert, Entries.ofMap, Entries.get?, Entries.toMap, Entries.toList_ofList]
  exact OrderedMap.get?_insert_self _ key child

theorem Entries.get?_insert_of_ne {m : ChildMap} (e : Entries m) {key other : m.Key}
    (h : other ≠ key) (child : Element m.kind) :
    (e.insert key child).get? other = e.get? other := by
  simp only [Entries.insert, Entries.ofMap, Entries.get?, Entries.toMap, Entries.toList_ofList]
  exact OrderedMap.get?_insert_of_ne _ h child

theorem Entries.WellFormed.insert {m : ChildMap} {e : Entries m} (hw : e.WellFormed)
    (key : m.Key) {child : Element m.kind} (hc : child.WellFormed) :
    (e.insert key child).WellFormed := by
  have hnodup := Entries.keys_nodup hw
  apply Entries.wellFormed_ofMap (OrderedMap.keys_nodup_insert hnodup key child)
  intro x hx
  rcases OrderedMap.mem_entries_insert hx with h | h
  · exact h ▸ hc
  · exact hw.get? (OrderedMap.get?_of_mem_entries hnodup h)

-- ---------------------------------------------------------------------------
-- Sameness
-- ---------------------------------------------------------------------------

def Slot.Same : (s : Slot) → s.Content → s.Content → Prop
  | .fixed _, c, d => Element.same c d = true
  | .optional _, c, d => Option.Rel (fun x y => Element.same x y = true) c d
  | .keyed _, e, f => Entries.same e f = true
  | .contracts, s, t => AnnotationSet.same s t = true

theorem Parts.same_cons {t : Slot} {rest : List Slot} (p q : Parts (t :: rest)) :
    p.same q = true ↔ t.Same p.head q.head ∧ p.tail.same q.tail = true := by
  cases p <;> cases q <;> simp [Parts.same, Slot.Same, Parts.head, Parts.tail, Entries.same]

theorem Parts.same_iff_slots {layout : List Slot} (hl : layout.Nodup) {p q : Parts layout} :
    p.same q = true ↔ ∀ s, Option.Rel s.Same (p.slot? s) (q.slot? s) := by
  induction layout with
  | nil =>
    cases p
    cases q
    simp [Parts.same, Parts.slot?]
  | cons t rest ih =>
    obtain ⟨ht, hl⟩ := List.nodup_cons.mp hl
    rw [Parts.same_cons, ih hl]
    constructor
    · rintro ⟨hhead, htail⟩ s
      by_cases hts : t = s
      · subst hts
        rw [slot?_head, slot?_head]
        exact .some hhead
      · rw [slot?_tail hts, slot?_tail hts]
        exact htail s
    · intro h
      refine ⟨?_, fun s => ?_⟩
      · have hhead := h t
        rw [slot?_head, slot?_head, Option.rel_some_some] at hhead
        exact hhead
      · by_cases hts : t = s
        · subst hts
          rw [slot?_eq_none ht, slot?_eq_none ht]
          exact .none
        · rw [← slot?_tail hts, ← slot?_tail hts]
          exact h s

theorem Entries.same_iff_get? {m : ChildMap} {e f : Entries m} (he : e.WellFormed)
    (hf : f.WellFormed) : e.same f = true ↔
      ∀ key, Option.Rel (fun c d => c.same d = true) (e.get? key) (f.get? key) := by
  have hmaps : e.same f = true ↔ OrderedMap.same Element.same e.toMap f.toMap = true := by
    rw [Entries.same, Bool.and_eq_true, beq_iff_eq, Entries.within_iff,
      OrderedMap.same_iff_found (Entries.keys_nodup he)]
    refine and_congr_right fun _ => ⟨fun h key c hc => ?_, fun h x hx => ?_⟩
    · exact h (key, c) (OrderedMap.mem_entries_of_get? hc)
    · exact h x.1 x.2 (OrderedMap.get?_of_mem_entries (Entries.keys_nodup he) hx)
  rw [hmaps, OrderedMap.same_iff (Entries.keys_nodup he) (Entries.keys_nodup hf)]
  refine forall_congr' fun key => ?_
  change (e.get? key = none ↔ f.get? key = none) ∧
    (∀ c d, e.get? key = some c → f.get? key = some d → c.same d = true) ↔ _
  cases e.get? key <;> cases f.get? key <;> simp

theorem Step.rel_pick? {s : Step} {content other : s.slot.Content}
    (hc : s.slot.WellFormed content) (ho : s.slot.WellFormed other)
    (h : s.slot.Same content other) :
    Option.Rel (fun c d => c.same d = true) (s.pick? content) (s.pick? other) := by
  cases s with
  | fixed f => exact .some h
  | optional o => exact h
  | keyed m key => exact (Entries.same_iff_get? hc ho).mp h key

theorem Parts.child?_of_slot? {layout : List Slot} {p : Parts layout} {s : Step}
    {content : s.slot.Content} (h : p.slot? s.slot = some content) :
    p.child? s = s.pick? content := by
  rw [child?, h]
  rfl

theorem Parts.child?_eq_none {layout : List Slot} {s : Step} (hs : s.slot ∉ layout)
    (p : Parts layout) : p.child? s = none := by
  rw [child?, slot?_eq_none hs]
  rfl

theorem Parts.contractSet_of_slot? {layout : List Slot} {p : Parts layout} {set : AnnotationSet}
    (h : p.slot? .contracts = some set) : p.contractSet = set := by
  rw [contractSet, h]
  rfl

theorem Parts.contractSet_eq_nil {layout : List Slot} (hs : .contracts ∉ layout)
    (p : Parts layout) : p.contractSet = [] := by
  rw [contractSet, slot?_eq_none hs]
  rfl

/-- Parts are the same when their contracts are and each step leads to the same from both, or
nowhere from either. -/
theorem Parts.same_iff_children {layout : List Slot} (hl : layout.Nodup) {p q : Parts layout}
    (hp : p.WellFormed) (hq : q.WellFormed) :
    p.same q = true ↔ AnnotationSet.same p.contractSet q.contractSet = true ∧
      ∀ s : Step, Option.Rel (fun c d => c.same d = true) (p.child? s) (q.child? s) := by
  rw [Parts.same_iff_slots hl]
  constructor
  · intro h
    -- both have the slot, or neither has
    have hslot : ∀ {s content other}, p.slot? s = some content → q.slot? s = some other →
        s.Same content other := by
      intro s content other hc ho
      have hs := h s
      rw [hc, ho] at hs
      exact Option.rel_some_some.mp hs
    constructor
    · by_cases hs : .contracts ∈ layout
      · obtain ⟨set, hset⟩ := p.exists_slot? hs
        obtain ⟨other, hother⟩ := q.exists_slot? hs
        rw [contractSet_of_slot? hset, contractSet_of_slot? hother]
        exact hslot hset hother
      · rw [contractSet_eq_nil hs, contractSet_eq_nil hs]
        rfl
    · intro s
      by_cases hs : s.slot ∈ layout
      · obtain ⟨content, hc⟩ := p.exists_slot? hs
        obtain ⟨other, ho⟩ := q.exists_slot? hs
        rw [child?_of_slot? hc, child?_of_slot? ho]
        exact Step.rel_pick? (hp.slot? hl hc) (hq.slot? hl ho) (hslot hc ho)
      · rw [child?_eq_none hs, child?_eq_none hs]
        exact .none
  · rintro ⟨hcontracts, hchildren⟩ s
    by_cases hs : s ∈ layout
    · obtain ⟨content, hc⟩ := p.exists_slot? hs
      obtain ⟨other, ho⟩ := q.exists_slot? hs
      have hpick : ∀ step : Step, ∀ h : step.slot = s,
          Option.Rel (fun c d => c.same d = true) (step.pick? (h ▸ content))
            (step.pick? (h ▸ other)) := by
        rintro step rfl
        have hchild := hchildren step
        rwa [child?_of_slot? hc, child?_of_slot? ho] at hchild
      rw [hc, ho]
      refine .some ?_
      cases s with
      | fixed f => exact Option.rel_some_some.mp (hpick (.fixed f) rfl)
      | optional o => exact hpick (.optional o) rfl
      | keyed m =>
        exact (Entries.same_iff_get? (hp.slot? hl hc) (hq.slot? hl ho)).mpr
          fun key => hpick (.keyed m key) rfl
      | contracts =>
        rwa [contractSet_of_slot? hc, contractSet_of_slot? ho] at hcontracts
    · rw [slot?_eq_none hs, slot?_eq_none hs]
      exact .none

end AnnotationScene
