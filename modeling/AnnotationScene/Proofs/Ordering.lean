import AnnotationScene.Proofs.Conflicts
import Mathlib.Logic.Relation

/-!
# Dependencies come first

Visiting goes depth first and marks a name when it is entered, not when it is left. Names that are
entered and not yet left form a chain along which each leads to the next. So when a definition is
reported, each name it depends on was reported before, or leads back to it.
-/

namespace AnnotationScene

/-- The name is mentioned by a field type or, if meta-annotations count, by one of these. -/
def Definition.Needs (config : CollectorConfig) (d : Definition) (name : String) : Prop :=
  (∃ e ∈ d.dependencies, e.name = name) ∨
    config.includeMeta = true ∧ ∃ a ∈ d.metas, a.name = name

namespace Collector

variable {c : Collector}

theorem mem_edges_iff {d : Definition} {n : String} : n ∈ c.edges d ↔ d.Needs c.config n := by
  rw [edges, Definition.Needs, List.mem_append, List.mem_map]
  cases c.config.includeMeta <;> simp

/-- The definition of the first name depends on the second. -/
def Follows (c : Collector) (n m : String) : Prop :=
  ∃ d, c.get? n = some d ∧ d.Needs c.config m

def Leads (c : Collector) : String → String → Prop := Relation.ReflTransGen c.Follows

/-- Each definition stands under its own name, and what it depends on is there. -/
structure Coherent (c : Collector) : Prop where
  distinct : c.table.keys.Nodup
  named : ∀ {n d}, c.get? n = some d → d.name = n
  closed : ∀ {n m}, c.Follows n m → ∃ d, c.get? m = some d

-- ---------------------------------------------------------------------------
-- Names still to be met
-- ---------------------------------------------------------------------------

def unmet (c : Collector) (met : List String) : List String :=
  c.table.keys.filter fun n => !met.contains n

theorem length_unmet_cons {name : String} {met : List String} (hkey : name ∈ c.table.keys)
    (h : name ∉ met) : (c.unmet (name :: met)).length < (c.unmet met).length := by
  have hfilter : c.unmet (name :: met) = (c.unmet met).filter (· ≠ name) := by
    simp only [unmet, List.filter_filter]
    refine List.filter_congr fun n _ => ?_
    by_cases hn : n = name <;> simp [hn]
  rw [hfilter, List.length_filter_lt_length_iff_exists]
  exact ⟨name, by simp [unmet, hkey, h], by simp⟩

theorem length_unmet_le {met met' : List String} (h : met ⊆ met') :
    (c.unmet met').length ≤ (c.unmet met).length := by
  simp only [unmet, ← List.countP_eq_length_filter]
  refine List.countP_mono_left fun n _ hn => ?_
  simp only [List.contains_eq_mem, Bool.not_eq_true', decide_eq_false_iff_not] at hn ⊢
  exact fun hmem => hn (h hmem)

-- ---------------------------------------------------------------------------
-- What a visit keeps true
-- ---------------------------------------------------------------------------

/-- The `active` names are entered and not yet left. -/
structure Visit.Sound (c : Collector) (active : List String) (v : Visit) : Prop where
  met_iff : ∀ n, n ∈ v.met ↔ n ∈ active ∨ n ∈ v.reported.map (·.name)
  distinct : (active ++ v.reported.map (·.name)).Nodup
  entry : ∀ d ∈ v.reported, c.get? d.name = some d
  ordered : ∀ u ∈ v.reported, ∀ n ∈ c.edges u,
    ∃ w, c.get? n = some w ∧ ([w, u].Sublist v.reported ∨ c.Leads n u.name)

theorem Visit.sound_empty : ({} : Visit).Sound c [] where
  met_iff n := by simp
  distinct := List.nodup_nil
  entry d hd := nomatch hd
  ordered u hu := nomatch hu

theorem Visit.Sound.enter {active : List String} {v : Visit} {name : String}
    (h : v.Sound c active) (hn : name ∉ v.met) :
    ({ v with met := name :: v.met } : Visit).Sound c (name :: active) where
  met_iff n := by simp [h.met_iff n, or_assoc]
  distinct := by
    refine List.nodup_cons.mpr ⟨fun hmem => hn ((h.met_iff name).mpr ?_), h.distinct⟩
    exact List.mem_append.mp hmem
  entry := h.entry
  ordered := h.ordered

theorem Visit.Sound.leave {active : List String} {v : Visit} {d : Definition} (hc : c.Coherent)
    (h : v.Sound c (d.name :: active)) (hd : c.get? d.name = some d)
    (hedges : ∀ n ∈ c.edges d, n ∈ v.met) (hactive : ∀ a ∈ active, c.Leads a d.name) :
    ({ v with reported := v.reported ++ [d] } : Visit).Sound c active where
  met_iff n := by
    simp only [h.met_iff n, List.mem_cons, List.map_append, List.map_cons, List.map_nil,
      List.mem_append, List.not_mem_nil, or_false]
    constructor
    · rintro ((hn | hn) | hn)
      · exact .inr (.inr hn)
      · exact .inl hn
      · exact .inr (.inl hn)
    · rintro (hn | hn | hn)
      · exact .inl (.inr hn)
      · exact .inr hn
      · exact .inl (.inl hn)
  distinct := by
    rw [List.map_append, ← List.append_assoc]
    exact (List.perm_append_singleton d.name _).nodup_iff.mpr h.distinct
  entry u hu := by
    rcases List.mem_append.mp hu with hu | hu
    · exact h.entry u hu
    · exact List.mem_singleton.mp hu ▸ hd
  ordered u hu n hn := by
    rcases List.mem_append.mp hu with hu | hu
    · obtain ⟨w, hw, hbefore | hleads⟩ := h.ordered u hu n hn
      · exact ⟨w, hw, .inl (hbefore.trans (List.sublist_append_left _ _))⟩
      · exact ⟨w, hw, .inr hleads⟩
    · obtain rfl := List.mem_singleton.mp hu
      rcases (h.met_iff n).mp (hedges n hn) with hmem | hmem
      · -- an active name leads to the one that is left
        obtain ⟨w, hw⟩ := hc.closed ⟨u, hd, mem_edges_iff.mp hn⟩
        refine ⟨w, hw, .inr ?_⟩
        rcases List.mem_cons.mp hmem with rfl | hmem
        · exact .refl
        · exact hactive n hmem
      · obtain ⟨w, hw, rfl⟩ := List.mem_map.mp hmem
        refine ⟨w, h.entry w hw, .inl ?_⟩
        exact (List.singleton_sublist.mpr hw).append (List.Sublist.refl [u])

/-- How visiting `names` may end: nothing is unlearned, and all of them are met. -/
structure Visits (c : Collector) (active names : List String) (v v' : Visit) : Prop where
  sound : v'.Sound c active
  grows : v.met ⊆ v'.met
  meets : ∀ n ∈ names, n ∈ v'.met

theorem visits_foldl {active names : List String} {f : Visit → String → Visit} {bound : Nat}
    (hf : ∀ n ∈ names, ∀ {v}, (c.unmet v.met).length < bound → v.Sound c active →
      Visits c active [n] v (f v n))
    {v : Visit} (hbound : (c.unmet v.met).length < bound) (hv : v.Sound c active) :
    Visits c active names v (names.foldl f v) := by
  induction names generalizing v with
  | nil => exact ⟨hv, List.Subset.refl _, fun n hn => nomatch hn⟩
  | cons n rest ih =>
    obtain ⟨hn, hrest⟩ := List.forall_mem_cons.mp hf
    obtain ⟨hsound, hgrows, hmeets⟩ := hn hbound hv
    have hbound' := Nat.lt_of_le_of_lt (length_unmet_le hgrows) hbound
    obtain ⟨hsound', hgrows', hmeets'⟩ := ih hrest hbound' hsound
    refine ⟨hsound', fun _ hm => hgrows' (hgrows hm), List.forall_mem_cons.mpr ⟨?_, hmeets'⟩⟩
    exact hgrows' (hmeets n List.mem_cons_self)

theorem visit_visits (hc : c.Coherent) (fuel : Nat) {active : List String} {name : String}
    (hname : ∃ d, c.get? name = some d) (hactive : ∀ a ∈ active, c.Leads a name) {v : Visit}
    (hfuel : (c.unmet v.met).length < fuel) (hv : v.Sound c active) :
    Visits c active [name] v (c.visit fuel name v) := by
  induction fuel generalizing active name v with
  | zero => exact absurd hfuel (Nat.not_lt_zero _)
  | succ fuel ih =>
    rw [visit]
    split
    next hmet => exact ⟨hv, List.Subset.refl _, by simpa using hmet⟩
    next hmet =>
      have hnew : name ∉ v.met := by simpa using hmet
      obtain ⟨d, hd⟩ := hname
      obtain rfl := hc.named hd
      have hdep : ∀ n ∈ c.edges d, c.Leads d.name n := fun n hn =>
        .single ⟨d, hd, mem_edges_iff.mp hn⟩
      have hall : ∀ n ∈ c.edges d, ∀ a ∈ d.name :: active, c.Leads a n := fun n hn =>
        List.forall_mem_cons.mpr ⟨hdep n hn, fun a ha => (hactive a ha).trans (hdep n hn)⟩
      -- entering takes one unit of fuel and one name that was not met
      have hless := length_unmet_cons (OrderedMap.mem_keys_of_get? hd) hnew
      obtain ⟨hsound, hgrows, hmeets⟩ :=
        visits_foldl (fun n hn _ => ih (hc.closed ⟨d, hd, mem_edges_iff.mp hn⟩) (hall n hn))
          (Nat.lt_of_lt_of_le hless (Nat.le_of_lt_succ hfuel)) (hv.enter hnew)
      rw [show c.table.get? d.name = some d from hd]
      refine ⟨hsound.leave hc hd hmeets hactive, fun _ hm => ?_, ?_⟩
      · exact hgrows (List.mem_cons_of_mem _ hm)
      · exact List.forall_mem_cons.mpr ⟨hgrows List.mem_cons_self, fun _ h => nomatch h⟩

theorem ordered_visits (hc : c.Coherent) :
    ∃ v : Visit, v.reported = c.ordered ∧ Visits c [] c.table.keys {} v := by
  have hstep : ∀ n ∈ c.table.keys, ∀ {v : Visit},
      (c.unmet v.met).length < c.table.size + 1 → v.Sound c [] →
      Visits c [] [n] v (c.visit (c.table.size + 1) n v) := by
    intro n hn v hbound hv
    have hentry := Option.isSome_iff_exists.mp (OrderedMap.contains_eq_true_iff.mpr hn)
    exact visit_visits hc _ hentry (fun _ ha => absurd ha List.not_mem_nil) hbound hv
  have hbound : (c.unmet []).length < c.table.size + 1 := by
    have hkeys : c.table.keys.length = c.table.size := List.length_map _
    exact Nat.lt_succ_of_le (hkeys ▸ List.length_filter_le _ _)
  exact ⟨_, rfl, visits_foldl hstep hbound Visit.sound_empty⟩

theorem mem_values_iff (hc : c.Coherent) {d : Definition} :
    d ∈ c.table.values ↔ c.get? d.name = some d := by
  constructor
  · intro h
    obtain ⟨⟨n, e⟩, he, rfl⟩ := List.mem_map.mp h
    have hget := OrderedMap.get?_of_mem_entries hc.distinct he
    exact hc.named hget ▸ hget
  · intro h
    exact List.mem_map.mpr ⟨_, OrderedMap.mem_entries_of_get? h, rfl⟩

theorem mem_ordered_iff (hc : c.Coherent) {d : Definition} :
    d ∈ c.ordered ↔ c.get? d.name = some d := by
  obtain ⟨v, hreported, hrun⟩ := ordered_visits hc
  rw [← hreported]
  constructor
  · exact hrun.sound.entry d
  · intro h
    have hmet := hrun.meets d.name (OrderedMap.mem_keys_of_get? h)
    rcases (hrun.sound.met_iff d.name).mp hmet with hnone | hmem
    · nomatch hnone
    · obtain ⟨e, he, hname⟩ := List.mem_map.mp hmem
      have hget := hname ▸ hrun.sound.entry e he
      exact Option.some.inj (hget.symm.trans h) ▸ he

theorem nodup_names_ordered (hc : c.Coherent) : (c.ordered.map (·.name)).Nodup := by
  obtain ⟨v, hreported, hrun⟩ := ordered_visits hc
  exact hreported ▸ hrun.sound.distinct

theorem ordered_perm_values (hc : c.Coherent) : c.ordered.Perm c.table.values := by
  have hkeys : c.table.values.map (·.name) = c.table.keys := by
    rw [OrderedMap.values, OrderedMap.keys, List.map_map]
    refine List.map_congr_left fun e he => hc.named ?_
    exact OrderedMap.get?_of_mem_entries hc.distinct he
  have hvalues : (c.table.values.map (·.name)).Nodup := hkeys ▸ hc.distinct
  have hnodup : ∀ {l : List Definition}, (l.map (·.name)).Nodup → l.Nodup :=
    List.Pairwise.of_map _ fun _ _ hne he => hne (he ▸ rfl)
  rw [List.perm_ext_iff_of_nodup (hnodup (nodup_names_ordered hc)) (hnodup hvalues)]
  intro d
  rw [mem_ordered_iff hc, mem_values_iff hc]

/-- Unless a name leads back to the definition that depends on it, it comes first. -/
theorem before_or_leads (hc : c.Coherent) {u : Definition} (hu : u ∈ c.ordered) {n : String}
    (hn : u.Needs c.config n) :
    ∃ v, c.get? n = some v ∧ ([v, u].Sublist c.ordered ∨ c.Leads n u.name) := by
  obtain ⟨v, hreported, hrun⟩ := ordered_visits hc
  rw [← hreported] at hu ⊢
  exact hrun.sound.ordered u hu n (mem_edges_iff.mpr hn)

theorem before_of_acyclic (hc : c.Coherent) (hacyclic : ∀ n, ¬ Relation.TransGen c.Follows n n)
    {u : Definition} (hu : u ∈ c.ordered) {n : String} (hn : u.Needs c.config n) :
    ∃ v, c.get? n = some v ∧ [v, u].Sublist c.ordered := by
  obtain ⟨v, hv, hbefore | hleads⟩ := before_or_leads hc hu hn
  · exact ⟨v, hv, hbefore⟩
  · exact absurd (.head' ⟨u, (mem_ordered_iff hc).mp hu, hn⟩ hleads) (hacyclic u.name)

-- ---------------------------------------------------------------------------
-- Collectors of scenes
-- ---------------------------------------------------------------------------

variable {config : CollectorConfig} {s : Scene.Valid} {events : List Event}

theorem config_of_ofScene (h : ofScene config s = .ok (c, events)) : c.config = config := by
  obtain ⟨p, -, rfl, -⟩ := gather_ok_of_ofScene h
  rfl

theorem coherent_of_ofScene (h : ofScene config s = .ok (c, events)) : c.Coherent := by
  obtain ⟨p, hp, rfl, -⟩ := gather_ok_of_ofScene h
  obtain ⟨hsound, -⟩ := Scene.gather_complete hp
  refine ⟨hsound.distinct, fun hd => (hsound.wellFormed Scene.useClosed hd).2, ?_⟩
  rintro n m ⟨d, hd, hneeds⟩
  have huses : ∃ x, d.Uses config x ∧ x.name = m := by
    rcases hneeds with ⟨e, he, hname⟩ | ⟨hmeta, a, ha, hname⟩
    · exact ⟨e, .dependency he, hname⟩
    · exact ⟨a.definition, .viaMeta hmeta ha (.inl rfl), hname⟩
  obtain ⟨x, hx, rfl⟩ := huses
  obtain ⟨e, he, -⟩ := hsound.closed hd hx
  exact ⟨e, he⟩

/-- The order has every collected definition once. A definition stands after what it depends on,
except where that leads back to it, which without cycles is nowhere. -/
theorem ordered_dependencies_first (s : Scene.Valid)
    (h : ofScene config s = .ok (c, events)) :
    c.ordered.Perm c.table.values ∧ (c.ordered.map (·.name)).Nodup ∧
      (∀ u ∈ c.ordered, ∀ n, u.Needs config n →
        ∃ v, c.get? n = some v ∧ ([v, u].Sublist c.ordered ∨ c.Leads n u.name)) ∧
      ((∀ n, ¬ Relation.TransGen c.Follows n n) → ∀ u ∈ c.ordered, ∀ n, u.Needs config n →
        ∃ v, c.get? n = some v ∧ [v, u].Sublist c.ordered) := by
  have hc := coherent_of_ofScene h
  obtain rfl := config_of_ofScene h
  refine ⟨ordered_perm_values hc, nodup_names_ordered hc, ?_, ?_⟩
  · intro u hu n hn
    exact before_or_leads hc hu hn
  · intro hacyclic u hu n hn
    exact before_of_acyclic hc hacyclic hu hn

theorem ordered_dependencies_first_cycle :
    let first : Definition := ⟨"B", [], some [("y", .array (.nested (.ofName "A" "p")))], "p"⟩
    let second : Definition := ⟨"A", [], some [("x", .nested (.ofName "B" "p"))], "p"⟩
    let s := Scene.ofPackage "p" [.marker first, .marker second]
    s.WellFormed ∧ ∃ c events, ofScene {} s = .ok (c, events) ∧
      c.ordered.map (·.name) = ["B", "A"] ∧ c.ordered.Perm c.table.values ∧
      ∀ u ∈ c.ordered, ∀ n, u.Needs {} n →
        ∃ v, c.get? n = some v ∧ ([v, u].Sublist c.ordered ∨ c.Leads n u.name) := by
  intro first second s
  have hw : s.WellFormed := by decide
  obtain ⟨hperm, -, hfirst, -⟩ := @ordered_dependencies_first _ {} _ ⟨s, hw⟩ rfl
  exact ⟨hw, _, _, rfl, rfl, hperm, hfirst⟩

end Collector

end AnnotationScene
