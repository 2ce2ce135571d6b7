import AnnotationScene.Proofs.Growing
import AnnotationScene.Proofs.Locating
import AnnotationScene.Proofs.Pruning

/-!
# Navigating leaves no trace

Every element that a navigation creates is vacuous, and stands where pruning drops what is
vacuous: under a key of a map, or as an initializer. The one place where nothing is dropped is the
type of a declaration, which a field has from the beginning. So a scene that was only looked into
is pruned to what it would have been pruned to before.
-/

namespace AnnotationScene

/-- Follows an address, creates what is missing on the way, and changes nothing at its end. -/
def Scene.navigate (s : Scene) (address : Address) : Scene :=
  (s.alter .vivify (fun _ e => ((), e)) address).2

/-- The type of a declaration is entered from a field only; no other element offers its own. -/
def Address.EntersFieldTypes (address : Address) : Prop :=
  address.IsChain fun s t => t = .optional .type → s.kind = .field

-- ---------------------------------------------------------------------------
-- Fields with their types
-- ---------------------------------------------------------------------------

def Element.isTyped : {k : Kind} → Element k → Bool
  | .field, e => e.declaredType?.isSome
  | _, _ => true

def Element.FieldsTyped {k : Kind} (e : Element k) : Prop :=
  ∀ address x, e.find? address = some x → x.2.isTyped = true

def Scene.FieldsTyped (s : Scene) : Prop :=
  ∀ address x, s.find? address = some x → x.2.isTyped = true

namespace Element

variable {k : Kind} {e : Element k}

theorem isTyped_iff : e.isTyped = true ↔
    (k = .field → (e.parts.child? (.optional .type)).isSome = true) := by
  cases k with
  | field =>
    simp only [isTyped, declaredType?, Parts.child?, Step.slot, forall_const]
    cases e.parts.slot? (.optional .type) <;> rfl
  | _ => simp [isTyped]

theorem fieldsTyped_iff : e.FieldsTyped ↔
    e.isTyped = true ∧ ∀ s child, e.parts.child? s = some child → child.FieldsTyped := by
  constructor
  · intro h
    refine ⟨h [] ⟨k, e⟩ rfl, fun s child hc address x hx => ?_⟩
    exact h (s :: address) x (find?_cons.mpr ⟨child, hc, hx⟩)
  · rintro ⟨hown, hchildren⟩ (_ | ⟨s, address⟩) x hx
    · obtain rfl := Option.some.inj hx
      exact hown
    · obtain ⟨child, hc, hx⟩ := find?_cons.mp hx
      exact hchildren s child hc address x hx

end Element

theorem Scene.fieldsTyped_iff {s : Scene} : s.FieldsTyped ↔
    ∀ first child, s.parts.child? first = some child → child.FieldsTyped := by
  constructor
  · intro h first child hc address x hx
    refine h (first :: address) x ?_
    rw [Scene.find?_eq_parts]
    exact Parts.find?_cons.mpr ⟨child, hc, hx⟩
  · rintro h (_ | ⟨first, address⟩) x hx
    · cases hx
    · rw [Scene.find?_eq_parts] at hx
      obtain ⟨child, hc, hx⟩ := Parts.find?_cons.mp hx
      exact h first child hc address x hx

-- ---------------------------------------------------------------------------
-- Typed fields, read off the walk
-- ---------------------------------------------------------------------------

theorem Element.fieldsTyped_of_walk {k : Kind} {e : Element k}
    (h : (e.walk.all fun x => x.2.isTyped) = true) : e.FieldsTyped := by
  intro address x hx
  rw [Element.walk_eq_located, List.all_map] at h
  exact List.all_eq_true.mp h (address, x) (Element.mem_located_of_find? hx)

theorem Scene.fieldsTyped_of_walk {s : Scene}
    (h : (s.walk.all fun x => x.2.isTyped) = true) : s.FieldsTyped := by
  intro address x hx
  rw [Scene.walk_eq_located, List.all_map] at h
  exact List.all_eq_true.mp h (address, x) (Scene.mem_located_of_find? hx)

-- ---------------------------------------------------------------------------
-- What is created
-- ---------------------------------------------------------------------------

theorem ChildMap.isVacuous_fresh {m : ChildMap} (hm : m.kind ≠ .cast) (key : m.Key) :
    (m.fresh key).isVacuous = true := by
  cases m with
  | insertTypecasts => exact absurd rfl hm
  | _ => rfl

theorem ChildMap.fieldsTyped_fresh (m : ChildMap) (key : m.Key) : (m.fresh key).FieldsTyped := by
  apply Element.fieldsTyped_of_walk
  cases m <;> rfl

theorem FixedChild.fieldsTyped_fresh (f : FixedChild) (name : String) :
    (f.fresh name).FieldsTyped := by
  apply Element.fieldsTyped_of_walk
  cases f <;> rfl

theorem Header.isVacuous_fresh {k : Kind} (h : Header k) : {s : Step} → s.kind ≠ .cast →
    (h.fresh s).isVacuous = true
  | .fixed f, _ => by cases f <;> rfl
  | .optional .type, _ => rfl
  | .optional .init, _ => rfl
  | .keyed _ key, hm => ChildMap.isVacuous_fresh hm key

theorem Header.fieldsTyped_fresh {k : Kind} (h : Header k) : (s : Step) → (h.fresh s).FieldsTyped
  | .fixed f => f.fieldsTyped_fresh h.name
  | .optional .type => Element.fieldsTyped_of_walk rfl
  | .optional .init => Element.fieldsTyped_of_walk rfl
  | .keyed m key => m.fieldsTyped_fresh key

theorem Scene.fieldsTyped_fresh : (s : Step) → (Scene.fresh s).FieldsTyped
  | .fixed f => f.fieldsTyped_fresh ""
  | .optional .type => Element.fieldsTyped_of_walk rfl
  | .optional .init => Element.fieldsTyped_of_walk rfl
  | .keyed m key => m.fieldsTyped_fresh key

-- ---------------------------------------------------------------------------
-- Fields keep their types
-- ---------------------------------------------------------------------------

namespace Parts

variable {layout : List Slot} {fresh : (s : Step) → Element s.kind} {p : Parts layout}

theorem isSome_child?_grow {s t : Step} (f : Element s.kind → Element s.kind)
    (h : (p.child? t).isSome = true) : ((p.grow fresh s f).child? t).isSome = true := by
  by_cases hts : t = s
  · subst hts
    have ht : t.slot ∈ layout := by
      refine Classical.byContradiction fun ht => ?_
      simp [child?_eq_none ht] at h
    simp [child?_grow_self ht]
  · rw [child?_grow_of_ne hts]
    exact h

/-- The children after a step has grown: the one it leads to, and those that were there. -/
theorem forall_child?_grow {P : (k : Kind) → Element k → Prop} {s : Step}
    {f : Element s.kind → Element s.kind} (hnew : P _ (f ((p.child? s).getD (fresh s))))
    (hold : ∀ t child, p.child? t = some child → P _ child) :
    ∀ t child, (p.grow fresh s f).child? t = some child → P _ child := by
  intro t child hc
  by_cases hs : s.slot ∈ layout
  · by_cases hts : t = s
    · subst hts
      rw [child?_grow_self hs] at hc
      exact Option.some.inj hc ▸ hnew
    · rw [child?_grow_of_ne hts] at hc
      exact hold t child hc
  · rw [grow_of_not_mem hs] at hc
    exact hold t child hc

theorem fieldsTyped_child? {s : Step} (hfresh : (fresh s).FieldsTyped)
    (h : ∀ child, p.child? s = some child → child.FieldsTyped) :
    ((p.child? s).getD (fresh s)).FieldsTyped := by
  cases hc : p.child? s with
  | none => exact hfresh
  | some child => exact h child hc

end Parts

theorem Element.FieldsTyped.grow {address : Address} {k : Kind} {e : Element k}
    (h : e.FieldsTyped) : (e.grow (fun _ e => e) address).FieldsTyped := by
  induction address generalizing k with
  | nil => exact h
  | cons s rest ih =>
    obtain ⟨hown, hchildren⟩ := Element.fieldsTyped_iff.mp h
    refine Element.fieldsTyped_iff.mpr ⟨?_, ?_⟩
    · rw [Element.isTyped_iff] at hown ⊢
      intro hk
      rw [Element.parts_grow_cons]
      exact Parts.isSome_child?_grow _ (hown hk)
    · rw [Element.parts_grow_cons]
      refine Parts.forall_child?_grow (P := fun _ c => c.FieldsTyped) ?_ hchildren
      exact ih (Parts.fieldsTyped_child? (e.header.fieldsTyped_fresh s) (hchildren s))

theorem Scene.FieldsTyped.grow {address : Address} {s : Scene} (h : s.FieldsTyped) :
    (s.grow (fun _ e => e) address).FieldsTyped := by
  cases address with
  | nil => exact h
  | cons first rest =>
    rw [Scene.fieldsTyped_iff] at h ⊢
    rw [Scene.parts_grow_cons]
    refine Parts.forall_child?_grow (P := fun _ c => c.FieldsTyped) ?_ h
    exact (Parts.fieldsTyped_child? (Scene.fieldsTyped_fresh first) (h first)).grow

-- ---------------------------------------------------------------------------
-- Pruning after a step
-- ---------------------------------------------------------------------------

theorem Element.prune_eq_of_parts {k : Kind} (hk : k ≠ .cast) {e f : Element k}
    (hheader : e.header = f.header) (hparts : e.parts.prune = f.parts.prune) :
    e.prune = f.prune := by
  obtain ⟨header, parts⟩ := e
  obtain ⟨header', parts'⟩ := f
  obtain rfl : header = header' := hheader
  rw [Element.prune, Element.prune, if_neg hk, if_neg hk]
  exact congrArg _ hparts

theorem Element.isVacuous_eq_of_prune_eq {k : Kind} {e f : Element k} (h : e.prune = f.prune) :
    e.isVacuous = f.isVacuous := by
  rw [← e.isVacuous_prune, h, f.isVacuous_prune]

namespace Entries

variable {m : ChildMap} {e : Entries m} {key : m.Key} {child : Element m.kind}

theorem toList_insert_of_found {c : Element m.kind} (h : e.get? key = some c) :
    (e.insert key child).toList = e.toList.map fun x => if x.1 = key then (x.1, child) else x := by
  have hkey : e.toMap.contains key = true := Option.isSome_iff_exists.mpr ⟨c, h⟩
  rw [insert, ofMap, toList_ofList, OrderedMap.insert, if_pos hkey]
  rfl

theorem toList_insert_of_new (h : e.get? key = none) :
    (e.insert key child).toList = e.toList ++ [(key, child)] := by
  have hkey : ¬ e.toMap.contains key = true := by
    rw [OrderedMap.contains, Option.not_isSome_iff_eq_none]
    exact h
  rw [insert, ofMap, toList_ofList, OrderedMap.insert, if_neg hkey]
  rfl

theorem filter_map_prune_congr {l : List (m.Key × Element m.kind)}
    {g : m.Key × Element m.kind → m.Key × Element m.kind}
    (hg : ∀ x ∈ l, (g x).1 = x.1 ∧ (g x).2.prune = x.2.prune) :
    (((l.map g).filter fun x => !x.2.isVacuous).map fun x => (x.1, x.2.prune)) =
      (l.filter fun x => !x.2.isVacuous).map fun x => (x.1, x.2.prune) := by
  induction l with
  | nil => rfl
  | cons x rest ih =>
    obtain ⟨⟨hkey, hprune⟩, hrest⟩ := List.forall_mem_cons.mp hg
    have hv := Element.isVacuous_eq_of_prune_eq hprune
    cases h : x.2.isVacuous <;> simp [hv, h, hkey, hprune, ih hrest]

/-- Pruning does not see an entry that prunes to what was there, nor a new one that is vacuous. -/
theorem prune_insert (hw : e.WellFormed) (hfound : ∀ c, e.get? key = some c → child.prune = c.prune)
    (hnew : e.get? key = none → child.isVacuous = true) : (e.insert key child).prune = e.prune := by
  apply toList_injective
  rw [toList_prune, toList_prune]
  cases hget : e.get? key with
  | none =>
    rw [toList_insert_of_new hget]
    simp [hnew hget]
  | some c =>
    rw [toList_insert_of_found hget]
    refine filter_map_prune_congr fun x hx => ?_
    by_cases hk : x.1 = key
    · have hx2 : e.get? key = some x.2 :=
        hk ▸ OrderedMap.get?_of_mem_entries (keys_nodup hw) hx
      simp [hk, hfound x.2 hx2]
    · simp [hk]

end Entries

/-- Pruning does not see a child that prunes to what was there, nor one that it drops. -/
theorem Step.prune_put : (s : Step) → {child : Element s.kind} → {content : s.slot.Content} →
    s.slot.WellFormed content → (∀ c, s.pick? content = some c → child.prune = c.prune) →
    (s.pick? content = none → s.isDroppable = true ∧ child.isVacuous = true) →
    s.slot.prune (s.put child content) = s.slot.prune content
  | .fixed _, _, content, _, hfound, _ => hfound content rfl
  | .optional .type, child, none, _, _, hnew => nomatch (hnew rfl).1
  | .optional .type, child, some c, _, hfound, _ => congrArg some (hfound c rfl)
  | .optional .init, child, none, _, _, hnew => if_pos (hnew rfl).2
  | .optional .init, child, some c, _, hfound, _ => by
    have hprune : child.prune = c.prune := hfound c rfl
    have hv := Element.isVacuous_eq_of_prune_eq hprune
    change (if child.isVacuous then none else some child.prune) =
      if c.isVacuous then none else some c.prune
    rw [hv, hprune]
    rfl
  | .keyed _ _, _, _, hw, hfound, hnew =>
    Entries.prune_insert hw hfound fun h => (hnew h).2

theorem Parts.prune_grow {layout : List Slot} (hl : layout.Nodup)
    {fresh : (s : Step) → Element s.kind} {p : Parts layout} (hw : p.WellFormed) {s : Step}
    {f : Element s.kind → Element s.kind}
    (hfound : ∀ c, p.child? s = some c → (f c).prune = c.prune)
    (hnew : s.slot ∈ layout → p.child? s = none →
      s.isDroppable = true ∧ (f (fresh s)).isVacuous = true) :
    (p.grow fresh s f).prune = p.prune := by
  by_cases hs : s.slot ∈ layout
  · obtain ⟨content, hc⟩ := p.exists_slot? hs
    have hchild := child?_of_slot? hc
    rw [grow_of_slot? hc]
    refine ext_slots hl fun t => ?_
    rw [slot?_prune, slot?_prune]
    by_cases ht : t = s.slot
    · subst ht
      rw [slot?_setSlot_self, hc]
      refine congrArg some (s.prune_put (hw.slot? hl hc) ?_ ?_)
      · intro c hpick
        rw [hchild, hpick]
        exact hfound c (hchild.trans hpick)
      · intro hpick
        rw [hchild, hpick]
        exact hnew hs (hchild.trans hpick)
    · rw [slot?_setSlot_of_ne p ht]
  · rw [grow_of_not_mem hs]

-- ---------------------------------------------------------------------------
-- Pruning after navigating
-- ---------------------------------------------------------------------------

/-- Where a step from an element finds nothing, it leads to what pruning may drop. -/
theorem Element.isDroppable_of_child?_none {k : Kind} {e : Element k} {s : Step}
    (htyped : e.isTyped = true) (hs : s.slot ∈ k.layout) (htype : s = .optional .type → k = .field)
    (h : e.parts.child? s = none) : s.isDroppable = true := by
  obtain ⟨content, hc⟩ := e.parts.exists_slot? hs
  match s with
  | .fixed f =>
    rw [Parts.child?_of_slot? hc] at h
    cases h
  | .optional .type =>
    have hsome := Element.isTyped_iff.mp htyped (htype rfl)
    rw [h] at hsome
    cases hsome
  | .optional .init => rfl
  | .keyed m key => rfl

theorem Element.prune_grow {rest : Address} {prev : Step} {e : Element prev.kind}
    (hw : e.WellFormed) (htyped : e.FieldsTyped) (hprev : prev.kind ≠ .cast)
    (havoid : Address.AvoidsCasts rest) (henters : Address.EntersFieldTypes (prev :: rest)) :
    (e.grow (fun _ e => e) rest).prune = e.prune := by
  induction rest generalizing prev with
  | nil => rfl
  | cons s rest ih =>
    obtain ⟨hs, havoid⟩ := havoid.cons
    obtain ⟨htype, henters⟩ := List.isChain_cons_cons.mp henters
    obtain ⟨hown, hchildren⟩ := Element.fieldsTyped_iff.mp htyped
    have hchild {c : Element s.kind} (hwc : c.WellFormed) (hc : c.FieldsTyped) :
        (c.grow (fun _ e => e) rest).prune = c.prune := ih hwc hc hs havoid henters
    apply Element.prune_eq_of_parts hprev (e.header_grow_cons _ s rest)
    rw [Element.parts_grow_cons]
    apply Parts.prune_grow prev.kind.layout_nodup hw.parts
    · intro c hc
      exact hchild ((e.parts.owns_of_child? hc).wellFormed hw.parts) (hchildren s c hc)
    · intro hslot hnone
      refine ⟨Element.isDroppable_of_child?_none hown hslot htype hnone, ?_⟩
      have hfresh := hchild (e.header.wellFormed_fresh s) (e.header.fieldsTyped_fresh s)
      rw [Element.isVacuous_eq_of_prune_eq hfresh]
      exact e.header.isVacuous_fresh hs

namespace Scene

variable {s : Scene}

theorem prune_eq_of_parts {t : Scene} (himports : s.imports = t.imports)
    (hparts : s.parts.prune = t.parts.prune) : s.prune = t.prune := by
  obtain ⟨packages, classes, imports⟩ := s
  obtain ⟨packages', classes', imports'⟩ := t
  obtain rfl : imports = imports' := himports
  simp only [Scene.parts, Parts.prune, Parts.keyed.injEq] at hparts
  simp [Scene.prune, hparts]

theorem prune_grow (s : Valid) (htyped : s.FieldsTyped) {address : Address}
    (havoid : address.AvoidsCasts) (henters : address.EntersFieldTypes) :
    (s.grow (fun _ e => e) address).prune = s.prune := by
  cases address with
  | nil => rfl
  | cons first rest =>
    obtain ⟨hfirst, havoid⟩ := havoid.cons
    have hchild {c : Element first.kind} (hwc : c.WellFormed) (hc : c.FieldsTyped) :
        (c.grow (fun _ e => e) rest).prune = c.prune :=
      Element.prune_grow hwc hc hfirst havoid henters
    refine prune_eq_of_parts (imports_grow _ _ s) ?_
    rw [parts_grow_cons]
    apply Parts.prune_grow layout_nodup s.wellFormed.parts
    · intro c hc
      exact hchild ((s.parts.owns_of_child? hc).wellFormed s.wellFormed.parts)
        (fieldsTyped_iff.mp htyped first c hc)
    · intro hslot _
      -- the scene has nothing but maps
      obtain ⟨m, key, rfl⟩ : ∃ m key, first = .keyed m key := by
        cases first <;> simp [Step.slot] at hslot ⊢
      refine ⟨rfl, ?_⟩
      rw [Element.isVacuous_eq_of_prune_eq (hchild (wellFormed_fresh _) (fieldsTyped_fresh _))]
      exact ChildMap.isVacuous_fresh hfirst key

/-- However often a scene is looked into, it is pruned to the same scene. -/
theorem prune_navigate (s : Valid) (htyped : s.FieldsTyped) {addresses : List Address}
    (h : ∀ a ∈ addresses, a.AvoidsCasts ∧ a.EntersFieldTypes) :
    (addresses.foldl navigate s).prune = s.prune := by
  induction addresses generalizing s with
  | nil => rfl
  | cons address rest ih =>
    obtain ⟨⟨havoid, henters⟩, hrest⟩ := List.forall_mem_cons.mp h
    have hgrow : s.navigate address = s.grow (fun _ e => e) address := alter_vivify _ _ s
    rw [List.foldl_cons, hgrow, ih ⟨_, s.wellFormed.grow id⟩ htyped.grow hrest]
    exact prune_grow s htyped havoid henters

theorem prune_navigate_fields :
    let field := (Element.field "f").withAnnotations [.marker (.ofName "A" "p")]
    let owner := (Element.classType "C").withParts
      ((Element.classType "C").parts.setSlot (.keyed .fields) (.cons "f" field .nil))
    let s : Scene := { classes := .cons "C" owner .nil }
    let toField (name : String) : Address := [.keyed .classes "C", .keyed .fields name]
    let addresses : List Address :=
      [toField "g" ++ [.optional .type, .keyed .innerTypes []],
        toField "f" ++ [.optional .init, .keyed .typecasts ⟨3, -1, 0⟩],
        [.keyed .classes "D", .keyed .methods "m()V", .fixed .receiver, .optional .type]]
    let looked := addresses.foldl navigate s
    s.WellFormed ∧ s.FieldsTyped ∧ (∀ a ∈ addresses, (s.find? a).isNone ∧ (looked.find? a).isSome) ∧
      looked.prune = s.prune := by
  intro field owner s toField addresses looked
  have hw : s.WellFormed := by decide
  have htyped : s.FieldsTyped := fieldsTyped_of_walk rfl
  refine ⟨hw, htyped, ?_, prune_navigate ⟨s, hw⟩ htyped ?_⟩
  · decide
  · simp [addresses, toField, Address.AvoidsCasts, Address.EntersFieldTypes, Step.kind,
      ChildMap.kind, FixedChild.kind]

end Scene

end AnnotationScene
