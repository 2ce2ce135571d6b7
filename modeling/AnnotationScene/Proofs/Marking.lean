import AnnotationScene.Proofs.Attaching
import AnnotationScene.Proofs.Navigating
import AnnotationScene.Proofs.Traversing

/-!
# What a traversal leaves behind

A visitor that annotates some of the parts of a type tree leaves an entry for every part but the
outermost. The entries that were there keep their places, and the new ones follow as the parts are
met. The annotation is where it is wanted, and nothing else about an element changes. So a second
traversal has nothing left to do, and trees may be traversed in any order.
-/

namespace AnnotationScene

namespace Element

/-- The element with an annotation more, if that is wanted. -/
def annotateIf {k : Kind} (wanted : Bool) (a : Annotation) (e : Element k) : Element k :=
  if wanted then (e.annotate a).2 else e

def innerTypes (root : Element .type) : Entries .innerTypes :=
  Parts.head (t := .keyed .innerTypes) root.parts

end Element

/-- Where the element for a path into a type is found from that type. -/
def TypePath.address (path : TypePath) : Address :=
  if path = [] then [] else [.keyed .innerTypes path]

namespace TypeTree

def marking (wanted : TypeTree → Bool) (a : Annotation) (part : TypeTree) (_ : Unit)
    (e : Element .type) : Unit × Element .type :=
  ((), e.annotateIf (wanted part) a)

/-- A type after the traversal of a tree by that visitor. -/
def mark (wanted : TypeTree → Bool) (a : Annotation) (root : Element .type) (t : TypeTree) :
    Element .type :=
  (t.traverse (marking wanted a) (start () root)).root

def markAt (wanted : TypeTree → Bool) (a : Annotation) (root : Element .type)
    (part : TypeTree × TypePath) : Element .type :=
  root.putAt part.2 ((root.atPath part.2).annotateIf (wanted part.1) a)

end TypeTree

-- ---------------------------------------------------------------------------
-- Annotating
-- ---------------------------------------------------------------------------

namespace AnnotationSet

theorem addIf_addIf_self (wanted : Bool) (a : Annotation) (s : AnnotationSet) :
    addIf wanted a (addIf wanted a s) = addIf wanted a s := by
  cases wanted with
  | false => rfl
  | true =>
    have hfound : contains (insert s a).2 a = true := contains_insert.mpr (.inr a.same_refl)
    simp only [addIf, if_true]
    rw [insert, if_pos hfound]

end AnnotationSet

namespace Element

variable {k : Kind} (wanted : Bool) (a : Annotation) (e : Element k)

@[simp]
theorem header_annotateIf : (e.annotateIf wanted a).header =
    { e.header with annotations := AnnotationSet.addIf wanted a e.annotations } := by
  cases wanted <;> rfl

@[simp]
theorem parts_annotateIf : (e.annotateIf wanted a).parts = e.parts := by
  cases wanted <;> rfl

theorem eq_of_header_parts {e f : Element k} (hheader : e.header = f.header)
    (hparts : e.parts = f.parts) : e = f := by
  cases e
  cases f
  exact congr (congrArg mk hheader) hparts

theorem annotateIf_eq_self {e f : Element k} (h : e.header = (f.annotateIf wanted a).header) :
    e.annotateIf wanted a = e := by
  apply eq_of_header_parts
  · simp [h, annotations, AnnotationSet.addIf_addIf_self]
  · simp

theorem isDeposit_annotateIf : IsDeposit a fun _ e => e.annotateIf wanted a := by
  intro k
  cases wanted with
  | false => exact ⟨false, false, .refl⟩
  | true => exact ⟨true, false, deposited_annotate⟩

end Element

-- ---------------------------------------------------------------------------
-- Entries for paths
-- ---------------------------------------------------------------------------

namespace Entries

variable {m : ChildMap} {e : Entries m} {key : m.Key} {child : Element m.kind}

theorem keys_insert (e : Entries m) (key : m.Key) (child : Element m.kind) :
    (e.insert key child).keys = (e.toMap.insert key child).keys := by
  rw [keys, toMap, insert, ofMap, toList_ofList]

theorem keys_insert_of_mem (h : key ∈ e.keys) : (e.insert key child).keys = e.keys := by
  rw [keys_insert]
  exact OrderedMap.keys_insert_of_mem h child

theorem keys_insert_of_not_mem (h : key ∉ e.keys) :
    (e.insert key child).keys = e.keys ++ [key] := by
  rw [keys_insert]
  exact OrderedMap.keys_insert_of_not_mem h child

theorem insert_of_get? (hw : e.WellFormed) (h : e.get? key = some child) :
    e.insert key child = e := by
  apply toList_injective
  rw [toList_insert_of_found h]
  have hsame : ∀ x ∈ e.toList, (if x.1 = key then (x.1, child) else x) = x := by
    intro x hx
    split
    next hk =>
      have hget : e.get? key = some x.2 := hk ▸ OrderedMap.get?_of_mem_entries (keys_nodup hw) hx
      obtain rfl : child = x.2 := Option.some.inj (h.symm.trans hget)
      rfl
    next => rfl
  simpa using List.map_congr_left hsame

end Entries

namespace Element

variable {root e f : Element .type} {path : TypePath}

theorem eq_mk_innerTypes (root : Element .type) :
    root = .mk root.header (.keyed root.innerTypes .nil) := by
  match root with
  | .mk _ (.keyed _ .nil) => rfl

theorem eq_of_header_innerTypes (hheader : e.header = f.header)
    (hinner : e.innerTypes = f.innerTypes) : e = f := by
  rw [e.eq_mk_innerTypes, hheader, hinner, ← f.eq_mk_innerTypes]

theorem WellFormed.innerTypes (hw : root.WellFormed) : root.innerTypes.WellFormed := by
  rw [root.eq_mk_innerTypes] at hw
  exact hw.parts.1

@[simp]
theorem innerTypes_annotateIf (wanted : Bool) (a : Annotation) :
    (e.annotateIf wanted a).innerTypes = e.innerTypes := by
  simp [innerTypes]

@[simp]
theorem putAt_nil : root.putAt [] e = e := by
  rw [root.eq_mk_innerTypes]
  rfl

@[simp]
theorem atPath_nil : root.atPath [] = root := rfl

theorem putAt_of_ne_nil (h : path ≠ []) :
    root.putAt path e = .mk root.header (.keyed (root.innerTypes.insert path e) .nil) := by
  cases path with
  | nil => exact absurd rfl h
  | cons step rest =>
    rw [root.eq_mk_innerTypes]
    rfl

theorem header_putAt (h : path ≠ []) : (root.putAt path e).header = root.header := by
  simp [putAt_of_ne_nil h, header]

theorem innerTypes_putAt (h : path ≠ []) :
    (root.putAt path e).innerTypes = root.innerTypes.insert path e := by
  simp [putAt_of_ne_nil h, innerTypes, parts, Parts.head]

theorem atPath?_eq_get? (h : path ≠ []) : root.atPath? path = root.innerTypes.get? path := by
  rw [root.eq_mk_innerTypes]
  simp [atPath?, h]
  rfl

theorem atPath_eq (h : path ≠ []) : root.atPath path =
    (root.innerTypes.get? path).getD (ChildMap.fresh .innerTypes path) := by
  rw [atPath, atPath?_eq_get? h]
  rfl

theorem atPath_of_atPath? (h : root.atPath? path = some e) : root.atPath path = e := by
  rw [atPath, h]
  rfl

theorem putAt_of_atPath? (hw : root.WellFormed) (h : root.atPath? path = some e) :
    root.putAt path e = root := by
  by_cases hpath : path = []
  · subst hpath
    obtain rfl : root = e := Option.some.inj h
    exact putAt_nil
  · apply eq_of_header_innerTypes (header_putAt hpath)
    rw [innerTypes_putAt hpath]
    exact Entries.insert_of_get? hw.innerTypes (atPath?_eq_get? hpath ▸ h)

/-- To change the element for a path is to grow the type there. -/
theorem putAt_eq_grow (g : (k : Kind) → Element k → Element k) :
    root.putAt path (g .type (root.atPath path)) = root.grow g path.address := by
  cases path with
  | nil =>
    simp only [putAt_nil, atPath_nil]
    rfl
  | cons step rest =>
    rw [root.eq_mk_innerTypes]
    rfl

end Element

-- ---------------------------------------------------------------------------
-- One visit
-- ---------------------------------------------------------------------------

namespace TypeTree

variable {wanted : TypeTree → Bool} {a : Annotation} {root : Element .type}
  {part : TypeTree × TypePath} {ps : List (TypeTree × TypePath)}

theorem header_markAt (h : part.2 ≠ []) : (markAt wanted a root part).header = root.header :=
  Element.header_putAt h

theorem keys_markAt_of_old (h : part.2 = [] ∨ part.2 ∈ root.innerTypes.keys) :
    (markAt wanted a root part).innerTypes.keys = root.innerTypes.keys := by
  by_cases hpath : part.2 = []
  · simp [markAt, hpath]
  · rw [markAt, Element.innerTypes_putAt hpath]
    exact Entries.keys_insert_of_mem (h.resolve_left hpath)

theorem keys_markAt_of_new (hpath : part.2 ≠ []) (h : part.2 ∉ root.innerTypes.keys) :
    (markAt wanted a root part).innerTypes.keys = root.innerTypes.keys ++ [part.2] := by
  rw [markAt, Element.innerTypes_putAt hpath]
  exact Entries.keys_insert_of_not_mem h

theorem get?_markAt_self (h : part.2 ≠ []) : (markAt wanted a root part).innerTypes.get? part.2 =
    some ((root.atPath part.2).annotateIf (wanted part.1) a) := by
  rw [markAt, Element.innerTypes_putAt h]
  exact Entries.get?_insert_self _ _ _

theorem get?_markAt_of_ne {key : TypePath} (h : key ≠ part.2 ∨ key = []) :
    (markAt wanted a root part).innerTypes.get? key = root.innerTypes.get? key := by
  by_cases hpath : part.2 = []
  · simp [markAt, hpath]
  · have hne : key ≠ part.2 := by
      rcases h with h | rfl
      · exact h
      · exact Ne.symm hpath
    rw [markAt, Element.innerTypes_putAt hpath]
    exact Entries.get?_insert_of_ne _ hne _

theorem markAt_eq_grow : markAt wanted a root part =
    root.grow (fun _ e => e.annotateIf (wanted part.1) a) part.2.address :=
  Element.putAt_eq_grow fun _ e => e.annotateIf (wanted part.1) a

-- ---------------------------------------------------------------------------
-- A list of visits
-- ---------------------------------------------------------------------------

theorem header_foldl_markAt (h : ∀ part ∈ ps, part.2 ≠ []) :
    (ps.foldl (markAt wanted a) root).header = root.header := by
  induction ps generalizing root with
  | nil => rfl
  | cons part rest ih =>
    obtain ⟨hpart, hrest⟩ := List.forall_mem_cons.mp h
    rw [List.foldl_cons, ih hrest, header_markAt hpart]

theorem keys_foldl_markAt (h : (ps.map Prod.snd).Nodup) :
    (ps.foldl (markAt wanted a) root).innerTypes.keys = root.innerTypes.keys ++
      (ps.map Prod.snd).filter fun path => path ≠ [] ∧ path ∉ root.innerTypes.keys := by
  induction ps generalizing root with
  | nil => simp
  | cons part rest ih =>
    obtain ⟨hpart, hrest⟩ := List.nodup_cons.mp h
    rw [List.foldl_cons, ih hrest, List.map_cons]
    by_cases hold : part.2 = [] ∨ part.2 ∈ root.innerTypes.keys
    · have hskip : ¬ (part.2 ≠ [] ∧ part.2 ∉ root.innerTypes.keys) := by
        simpa [or_iff_not_imp_left] using hold
      rw [keys_markAt_of_old hold, List.filter_cons_of_neg (by simpa using hskip)]
    · obtain ⟨hpath, hkey⟩ := not_or.mp hold
      rw [keys_markAt_of_new hpath hkey, List.filter_cons_of_pos (by simp [hpath, hkey]),
        List.append_assoc]
      -- a later path is not this one, so it is as new as before
      have hlater : ∀ path ∈ rest.map Prod.snd,
          decide (path ≠ [] ∧ path ∉ root.innerTypes.keys ++ [part.2]) =
            decide (path ≠ [] ∧ path ∉ root.innerTypes.keys) := by
        intro path hmem
        have hne : path ≠ part.2 := fun heq => hpart (heq ▸ hmem)
        simp [hne]
      rw [List.filter_congr hlater]
      rfl

theorem get?_foldl_markAt_of_not_mem {key : TypePath} (h : key = [] ∨ key ∉ ps.map Prod.snd) :
    (ps.foldl (markAt wanted a) root).innerTypes.get? key = root.innerTypes.get? key := by
  induction ps generalizing root with
  | nil => rfl
  | cons part rest ih =>
    simp only [List.map_cons, List.mem_cons, not_or] at h
    rw [List.foldl_cons, ih (h.imp_right And.right), get?_markAt_of_ne (h.symm.imp_left And.left)]

theorem get?_foldl_markAt_of_mem (h : (ps.map Prod.snd).Nodup) (hpart : part ∈ ps)
    (hpath : part.2 ≠ []) : (ps.foldl (markAt wanted a) root).innerTypes.get? part.2 =
      some ((root.atPath part.2).annotateIf (wanted part.1) a) := by
  induction ps generalizing root with
  | nil => cases hpart
  | cons first rest ih =>
    obtain ⟨hfirst, hrest⟩ := List.nodup_cons.mp h
    rcases List.mem_cons.mp hpart with rfl | hpart
    · rw [List.foldl_cons, get?_foldl_markAt_of_not_mem (.inr hfirst), get?_markAt_self hpath]
    · have hne : part.2 ≠ first.2 := fun heq => hfirst (heq ▸ List.mem_map_of_mem hpart)
      rw [List.foldl_cons, ih hrest hpart, Element.atPath_eq hpath, Element.atPath_eq hpath,
        get?_markAt_of_ne (.inl hne)]

theorem wellFormed_foldl_markAt (ha : a.WellFormed) (hw : root.WellFormed) :
    (ps.foldl (markAt wanted a) root).WellFormed := by
  induction ps generalizing root with
  | nil => exact hw
  | cons part rest ih =>
    apply ih
    rw [markAt_eq_grow]
    exact (Element.isDeposit_annotateIf _ a).wellFormed_grow ha hw

/-- Where every visit finds its annotation there already, the visits change nothing. -/
theorem foldl_markAt_eq_self (h : ∀ part ∈ ps, ∃ e, root.atPath? part.2 = some e ∧
      e.annotateIf (wanted part.1) a = e) (hw : root.WellFormed) :
    ps.foldl (markAt wanted a) root = root := by
  induction ps with
  | nil => rfl
  | cons part rest ih =>
    obtain ⟨⟨e, he, hmarked⟩, hrest⟩ := List.forall_mem_cons.mp h
    have hstep : markAt wanted a root part = root := by
      rw [markAt, Element.atPath_of_atPath? he, hmarked]
      exact Element.putAt_of_atPath? hw he
    rw [List.foldl_cons, hstep, ih hrest]

-- ---------------------------------------------------------------------------
-- The order of visits
-- ---------------------------------------------------------------------------

theorem foldl_markAt_same (ha : a.WellFormed) {root' : Element .type} (hw : root.WellFormed)
    (hw' : root'.WellFormed) (h : root.same root' = true) :
    (ps.foldl (markAt wanted a) root).same (ps.foldl (markAt wanted a) root') = true := by
  induction ps generalizing root root' with
  | nil => exact h
  | cons part rest ih =>
    have hdeposit := Element.isDeposit_annotateIf (wanted part.1) a
    simp only [List.foldl_cons, markAt_eq_grow]
    exact ih (hdeposit.wellFormed_grow ha hw) (hdeposit.wellFormed_grow ha hw')
      (hdeposit.same_grow ha hw hw' h)

theorem foldl_markAt_perm (ha : a.WellFormed) (hw : root.WellFormed)
    {ps' : List (TypeTree × TypePath)} (h : ps.Perm ps') :
    (ps.foldl (markAt wanted a) root).same (ps'.foldl (markAt wanted a) root) = true := by
  have hdeposit (part : TypeTree × TypePath) :=
    Element.isDeposit_annotateIf (wanted part.1) a
  induction h generalizing root with
  | nil => exact root.same_refl hw
  | cons part _ ih =>
    simp only [List.foldl_cons, markAt_eq_grow]
    exact ih ((hdeposit part).wellFormed_grow ha hw)
  | swap first second rest =>
    simp only [List.foldl_cons, markAt_eq_grow]
    apply foldl_markAt_same ha
    · exact (hdeposit first).wellFormed_grow ha ((hdeposit second).wellFormed_grow ha hw)
    · exact (hdeposit second).wellFormed_grow ha ((hdeposit first).wellFormed_grow ha hw)
    · exact (hdeposit second).grow_comm (hdeposit first) ha ha hw
  | trans _ _ ih ih' => exact Element.same_trans _ (ih hw) (ih' hw)

-- ---------------------------------------------------------------------------
-- Whole traversals
-- ---------------------------------------------------------------------------

theorem traverse_eq_foldl {σ : Type} (visit : TypeTree → σ → Element .type → σ × Element .type)
    (t : TypeTree) (state : σ) (root : Element .type) :
    (t.traverse visit (start state root)).root =
      ((t.positions []).foldl (visitAt visit) (state, root)).2 := by
  rw [t.traverse_eq_course, ← t.positions_eq_course]
  exact congrArg Prod.snd (Cursor.foldl_perform_visits visit _ (start state root))

theorem foldl_visitAt_marking (x : Unit × Element .type) :
    (ps.foldl (visitAt (marking wanted a)) x).2 = ps.foldl (markAt wanted a) x.2 := by
  induction ps generalizing x with
  | nil => rfl
  | cons part rest ih => exact ih (visitAt (marking wanted a) x part)

theorem mark_eq_foldl (wanted : TypeTree → Bool) (a : Annotation) (root : Element .type)
    (t : TypeTree) : t.mark wanted a root = (t.positions []).foldl (markAt wanted a) root := by
  rw [mark, traverse_eq_foldl, foldl_visitAt_marking]

theorem foldl_mark_eq_foldl (ts : List TypeTree) : ts.foldl (mark wanted a) root =
    (ts.flatMap (positions [])).foldl (markAt wanted a) root := by
  induction ts generalizing root with
  | nil => rfl
  | cons t rest ih => rw [List.foldl_cons, ih, mark_eq_foldl, List.flatMap_cons, List.foldl_append]

theorem positions_eq_cons (path : TypePath) (t : TypeTree) :
    ∃ rest, t.positions path = (t, path) :: rest ∧ ∀ part ∈ rest, part.2 ≠ path := by
  have hcons : ∃ rest, t.positions path = (t, path) :: rest := by
    cases t <;> exact ⟨_, by rw [positions]⟩
  obtain ⟨rest, hrest⟩ := hcons
  have hnodup := t.nodup_paths path
  rw [hrest, List.map_cons, List.nodup_cons] at hnodup
  exact ⟨rest, hrest, fun part hpart heq => hnodup.1 (List.mem_map.mpr ⟨part, hpart, heq⟩)⟩

theorem header_mark (t : TypeTree) :
    (t.mark wanted a root).header = (root.annotateIf (wanted t) a).header := by
  obtain ⟨rest, hpositions, hrest⟩ := t.positions_eq_cons []
  rw [mark_eq_foldl, hpositions, List.foldl_cons, header_foldl_markAt hrest]
  simp [markAt]

/-- What is found at the place of a part once its tree has been traversed. -/
theorem atPath?_mark {t part : TypeTree} {path : TypePath} (h : (part, path) ∈ t.positions []) :
    ∃ e, (t.mark wanted a root).atPath? path = some e ∧
      e.header = ((root.atPath path).annotateIf (wanted part) a).header ∧
      (path ≠ [] → e.parts = (root.atPath path).parts) := by
  by_cases hpath : path = []
  · subst hpath
    obtain ⟨rest, hpositions, hrest⟩ := t.positions_eq_cons []
    rw [hpositions, List.mem_cons] at h
    obtain rfl : part = t := by
      rcases h with h | h
      · exact congrArg Prod.fst h
      · exact absurd rfl (hrest _ h)
    exact ⟨_, rfl, header_mark part, fun hne => absurd rfl hne⟩
  · refine ⟨_, ?_, rfl, fun _ => Element.parts_annotateIf _ _ _⟩
    rw [Element.atPath?_eq_get? hpath, mark_eq_foldl]
    exact get?_foldl_markAt_of_mem (t.nodup_paths []) h hpath

theorem mark_mark (ha : a.WellFormed) (hw : root.WellFormed) (t : TypeTree) :
    t.mark wanted a (t.mark wanted a root) = t.mark wanted a root := by
  rw [mark_eq_foldl wanted a (t.mark wanted a root)]
  apply foldl_markAt_eq_self
  · rintro ⟨part, path⟩ hpart
    obtain ⟨e, he, hheader, -⟩ := atPath?_mark hpart
    exact ⟨e, he, Element.annotateIf_eq_self _ _ hheader⟩
  · rw [mark_eq_foldl]
    exact wellFormed_foldl_markAt ha hw

theorem foldl_mark_perm (ha : a.WellFormed) (hw : root.WellFormed) {ts ts' : List TypeTree}
    (h : ts.Perm ts') :
    (ts.foldl (mark wanted a) root).same (ts'.foldl (mark wanted a) root) = true := by
  rw [foldl_mark_eq_foldl, foldl_mark_eq_foldl]
  exact foldl_markAt_perm ha hw (h.flatMap_right _)

-- ---------------------------------------------------------------------------
-- Visitors that only look
-- ---------------------------------------------------------------------------

theorem isVacuous_grow_address (hw : root.WellFormed) (path : TypePath) :
    (root.grow (fun _ e => e) path.address).isVacuous = root.isVacuous := by
  cases path with
  | nil => rfl
  | cons step rest =>
    apply Element.isVacuous_eq_of_prune_eq
    apply Element.prune_eq_of_parts (by decide) (Element.header_grow_cons _ _ _ root)
    apply (congrArg Parts.prune (Element.parts_grow_cons _ _ _ root)).trans
    apply Parts.prune_grow Kind.type.layout_nodup hw.parts
    · exact fun _ _ => rfl
    · exact fun _ _ => ⟨rfl, ChildMap.isVacuous_fresh (m := .innerTypes) (by decide) (step :: rest)⟩

theorem isVacuous_foldl_visitAt {σ : Type}
    {visit : TypeTree → σ → Element .type → σ × Element .type}
    (hvisit : ∀ part ∈ ps, ∀ state e, (visit part.1 state e).2 = e) {x : σ × Element .type}
    (hw : x.2.WellFormed) : (ps.foldl (visitAt visit) x).2.isVacuous = x.2.isVacuous := by
  induction ps generalizing x with
  | nil => rfl
  | cons part rest ih =>
    obtain ⟨hpart, hrest⟩ := List.forall_mem_cons.mp hvisit
    have hstep : (visitAt visit x part).2 = x.2.grow (fun _ e => e) part.2.address := by
      change x.2.putAt part.2 (visit part.1 x.1 (x.2.atPath part.2)).2 = _
      rw [hpart]
      exact Element.putAt_eq_grow fun _ e => e
    have hwell : (visitAt visit x part).2.WellFormed := hstep ▸ hw.grow id
    rw [List.foldl_cons, ih hrest hwell, hstep, isVacuous_grow_address hw]

/-- The keys that were there come first and the paths of the parts follow, each once and never the
empty one. Each part has the annotation if it is wanted there, and is otherwise as it was; so is
every entry that belongs to no part. Hence the traversal need not be repeated, the order of several
does not matter, and one that only looks adds no information. -/
theorem mark_annotates_positions (wanted : TypeTree → Bool) (a : Annotation.Valid)
    (root : Element.Valid .type) (t : TypeTree) :
    let after := t.mark wanted a.1 root.1
    let paths := (t.positions []).map Prod.snd
    after.innerTypes.keys = root.1.innerTypes.keys ++
      paths.filter (fun path => path ≠ [] ∧ path ∉ root.1.innerTypes.keys) ∧
    (∀ part path, (part, path) ∈ t.positions [] → ∃ e, after.atPath? path = some e ∧
      e.header = { (root.1.atPath path).header with
        annotations := AnnotationSet.addIf (wanted part) a.1 (root.1.atPath path).annotations } ∧
      (path ≠ [] → e.parts = (root.1.atPath path).parts)) ∧
    (∀ key, key = [] ∨ key ∉ paths →
      after.innerTypes.get? key = root.1.innerTypes.get? key) ∧
    t.mark wanted a.1 after = after ∧
    (∀ ts ts' : List TypeTree, ts.Perm ts' →
      (ts.foldl (mark wanted a.1) root.1).same (ts'.foldl (mark wanted a.1) root.1) = true) ∧
    ∀ (σ : Type) (visit : TypeTree → σ → Element .type → σ × Element .type) (state : σ),
      (∀ part ∈ t.positions [], ∀ state e, (visit part.1 state e).2 = e) →
      (t.traverse visit (start state root.1)).root.isVacuous = root.1.isVacuous := by
  intro after paths
  refine ⟨?_, ?_, ?_, mark_mark a.2 root.2 t, fun ts ts' => foldl_mark_perm a.2 root.2, ?_⟩
  · rw [show after = _ from mark_eq_foldl wanted a.1 root.1 t]
    exact keys_foldl_markAt (t.nodup_paths [])
  · intro part path hpart
    obtain ⟨e, he, hheader, hparts⟩ := atPath?_mark hpart
    exact ⟨e, he, hheader.trans (Element.header_annotateIf _ _ _), hparts⟩
  · intro key hkey
    rw [show after = _ from mark_eq_foldl wanted a.1 root.1 t]
    exact get?_foldl_markAt_of_not_mem hkey
  · intro σ visit state hvisit
    rw [traverse_eq_foldl]
    exact isVacuous_foldl_visitAt hvisit root.2

/-- A map of names to arrays: the entry of the array was there, next to one that is no part. -/
theorem mark_annotates_positions_map :
    let marker (name : String) : Annotation := .marker (.ofName name "test")
    let old := ((Element.type "array").annotate (marker "Old")).2
    let root := ((Element.type "root").putAt [.wildcard] (.type "wildcard")).putAt [.argument 1] old
    let text : TypeTree := .named "String" []
    let t : TypeTree := .named "Map" [text, .array text]
    let isArray (part : TypeTree) := match part with
      | .array _ => true
      | .named _ _ => false
    let after := t.mark isArray (marker "New") root
    after.innerTypes.keys = [[.wildcard], [.argument 1], [.argument 0], [.argument 1, .array]] ∧
    (∃ e, after.atPath? [.argument 1] = some e ∧ e.description = "array" ∧
      e.annotations.map (·.definition.name) = ["Old", "New"]) ∧
    after.innerTypes.get? [.wildcard] = some (.type "wildcard") ∧
    t.mark isArray (marker "New") after = after := by
  intro marker old root text t isArray after
  have hpart : (TypeTree.array text, [.argument 1]) ∈ t.positions [] := .tail _ (.tail _ (.head _))
  obtain ⟨hkeys, hparts, hother, hagain, -⟩ := mark_annotates_positions isArray
    ⟨marker "New", by decide⟩ ⟨root, by decide +kernel⟩ t
  obtain ⟨e, he, hheader, -⟩ := hparts (.array text) [.argument 1] hpart
  refine ⟨hkeys.trans (by decide +kernel), ⟨e, he, ?_, ?_⟩, ?_, hagain⟩
  · rw [Element.description, hheader]
    rfl
  · rw [Element.annotations, hheader]
    decide +kernel
  · exact (hother [.wildcard] (.inr (by decide +kernel))).trans rfl

end TypeTree

end AnnotationScene
