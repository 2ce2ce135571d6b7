import AnnotationScene.Proofs.Conflicts
import AnnotationScene.Proofs.Fitting
import AnnotationScene.Proofs.Listing
import AnnotationScene.Proofs.SameScenes

/-!
# Collecting does not depend on order

The entry of a name is the least definition that has every reachable definition of the name as a
part. Scenes that are the same reach the same definitions, up to what they know, and so have the
same entries, whatever the order in which their annotations are met.
-/

namespace AnnotationScene

open DefinitionTable (Covers Extends Fits)

namespace Scene

variable {config : CollectorConfig} {s t : Valid}

/-- The list has the reachable definitions of the name, in some order. -/
def Lists (config : CollectorConfig) (s : Scene) (name : String) (l : List Definition) : Prop :=
  ∀ d, d ∈ l ↔ s.Reaches config d ∧ d.name = name

theorem lists_filter_reachable (s : Valid) (name : String) :
    s.Lists config name ((s.reachable config).filter (·.name == name)) := by
  intro d
  rw [List.mem_filter, mem_reachable_iff, beq_iff_eq]

theorem Reaches.of_same (h : s.same t = true) {d : Definition} (hd : s.Reaches config d) :
    ∃ e, t.Reaches config e ∧ d.PartOf e := by
  induction hd with
  | attached ha hb =>
    obtain ⟨a', ha', hsame⟩ := ha.of_same h
    obtain ⟨b', hb', hsame'⟩ := hb.of_same hsame
    obtain ⟨hdefinition, -⟩ := Annotation.same_iff.mp hsame'
    exact ⟨b'.definition, .attached ha' hb', Definition.partOf_of_same _ hdefinition⟩
  | uses _ hu ih =>
    obtain ⟨e, he, hpart⟩ := ih
    obtain ⟨g, hg, hpart'⟩ := hu.of_partOf hpart
    exact ⟨g, .uses he hg, hpart'⟩

end Scene

/-- The definition is the least that has all definitions of the name with `R` as parts. -/
structure Definition.Joins (R : Definition → Prop) (name : String) (m : Definition) : Prop where
  inhabited : ∃ d, R d ∧ d.name = name
  upper : ∀ {d}, R d → d.name = name → d.PartOf m
  least : ∀ {f}, (∀ d, R d → d.name = name → d.PartOf f) → m.PartOf f

namespace Definition

variable {R R' : Definition → Prop} {name : String}

/-- Two such definitions are the same, also if the definitions with `R` and `R'` are not, as long
as each is part of one of the others. -/
theorem Joins.same {m m' : Definition} (h : m.Joins R name) (h' : m'.Joins R' name)
    (hR : ∀ d, R d → ∃ e, R' e ∧ d.PartOf e) (hR' : ∀ d, R' d → ∃ e, R e ∧ d.PartOf e) :
    m.same m' = true := by
  have hmm' : m.PartOf m' := h.least fun d hd hname => by
    obtain ⟨e, he, hpart⟩ := hR d hd
    exact hpart.trans (h'.upper he (hpart.name ▸ hname))
  have hm'm : m'.PartOf m := h'.least fun d hd hname => by
    obtain ⟨e, he, hpart⟩ := hR' d hd
    exact hpart.trans (h.upper he (hpart.name ▸ hname))
  exact hmm'.antisymm hm'm

/-- Whatever the order of a list of them, merging gives such a definition again. -/
theorem Joins.mergeAll? {m : Definition} (h : m.Joins R name) {l : List Definition}
    (hw : ∀ d, R d → d.WellFormed) (hl : ∀ d, d ∈ l ↔ R d ∧ d.name = name) :
    ∃ m', Definition.mergeAll? l = some m' ∧ m'.Joins R name := by
  have hlw : ∀ d ∈ l, d.WellFormed := fun d hd => hw d ((hl d).mp hd).1
  have hne : l ≠ [] := by
    obtain ⟨d, hd⟩ := h.inhabited
    exact List.ne_nil_of_mem ((hl d).mpr hd)
  have hleast : ∀ f, (∀ d, R d → d.name = name → d.PartOf f) →
      ∃ m', Definition.mergeAll? l = some m' ∧ m'.PartOf f := fun f hf =>
    mergeAll?_least hne hlw fun d hd => hf d ((hl d).mp hd).1 ((hl d).mp hd).2
  obtain ⟨m', hm', -⟩ := hleast m fun d hd hname => h.upper hd hname
  have hupper := (mergeAll?_spec hlw hm').2
  refine ⟨m', hm', h.inhabited, fun hd hname => hupper _ ((hl _).mpr ⟨hd, hname⟩), ?_⟩
  intro f hf
  obtain ⟨x, hx, hpart⟩ := hleast f hf
  exact Option.some.inj (hx.symm.trans hm') ▸ hpart

end Definition

-- ---------------------------------------------------------------------------
-- Entries of the table
-- ---------------------------------------------------------------------------

namespace Scene

variable {config : CollectorConfig} {s t : Valid} {p q : Progress}

theorem entry_joins (hp : AnnotationSet.collectAll config s.gather {} = .ok p) {name : String}
    {m : Definition} (hm : p.table.get? name = some m) : m.Joins (s.Reaches config) name := by
  obtain ⟨hsound, hcovers⟩ := gather_complete hp
  obtain ⟨l, hl, hmerge⟩ := hsound.merged hm
  have hlw : ∀ d ∈ l, d.WellFormed := fun d hd => s.wellFormed_of_reaches (hl d hd).1
  have hne : l ≠ [] := by
    rintro rfl
    nomatch hmerge
  refine ⟨?_, fun hd hname => ?_, fun hf => ?_⟩
  · obtain ⟨d, hd⟩ := List.exists_mem_of_ne_nil l hne
    exact ⟨d, hl d hd⟩
  · obtain ⟨m', hm', hpart⟩ := hcovers _ hd
    exact Option.some.inj (hm'.symm.trans (hname ▸ hm)) ▸ hpart
  · obtain ⟨x, hx, hpart⟩ :=
      Definition.mergeAll?_least hne hlw fun d hd => hf d (hl d hd).1 (hl d hd).2
    exact Option.some.inj (hx.symm.trans hmerge) ▸ hpart

theorem entry_of_same (h : s.same t = true)
    (hp : AnnotationSet.collectAll config s.gather {} = .ok p)
    (hq : AnnotationSet.collectAll config t.gather {} = .ok q) {name : String} {m : Definition}
    (hm : p.table.get? name = some m) :
    ∃ m', q.table.get? name = some m' ∧ m.same m' = true := by
  have hjoin := entry_joins hp hm
  obtain ⟨d, hd, hname⟩ := hjoin.inhabited
  obtain ⟨e, he, hpart⟩ := hd.of_same h
  obtain ⟨m', hm', -⟩ := (gather_complete hq).2 e he
  rw [← hpart.name, hname] at hm'
  have hback := same_symm s.wellFormed h
  exact ⟨m', hm', hjoin.same (entry_joins hq hm') (fun _ hd => hd.of_same h)
    fun _ hd => hd.of_same hback⟩

theorem Lists.mergeAll?_same (h : s.same t = true) {name : String} {m m' : Definition}
    (hm : m.Joins (s.Reaches config) name) (hm' : m'.Joins (t.Reaches config) name)
    {l : List Definition} (hl : s.Lists config name l) :
    ∃ x, Definition.mergeAll? l = some x ∧ x.same m = true ∧ x.same m' = true := by
  obtain ⟨x, hx, hjoin⟩ := hm.mergeAll? (fun _ => s.wellFormed_of_reaches) hl
  have hself : ∀ d, s.Reaches config d → ∃ e, s.Reaches config e ∧ d.PartOf e :=
    fun d hd => ⟨d, hd, .refl d⟩
  have hback := same_symm s.wellFormed h
  exact ⟨x, hx, hjoin.same hm hself hself,
    hjoin.same hm' (fun _ hd => hd.of_same h) fun _ hd => hd.of_same hback⟩

/-- What two tables say of a name: nothing, and no definition of it is reachable; or the same,
which is also what merging the reachable definitions gives, in any order. -/
def AgreeOn (config : CollectorConfig) (s t : Scene) (name : String) :
    Option Definition → Option Definition → Prop
  | none, none => ∀ d, s.Reaches config d ∨ t.Reaches config d → d.name ≠ name
  | some m, some m' => m.same m' = true ∧ (∃ l, s.Lists config name l) ∧
      ∀ l, s.Lists config name l ∨ t.Lists config name l →
        ∃ x, Definition.mergeAll? l = some x ∧ x.same m = true ∧ x.same m' = true
  | _, _ => False

theorem entries_agree (h : s.same t = true)
    (hp : AnnotationSet.collectAll config s.gather {} = .ok p)
    (hq : AnnotationSet.collectAll config t.gather {} = .ok q) (name : String) :
    AgreeOn config s t name (p.table.get? name) (q.table.get? name) := by
  have hback := same_symm s.wellFormed h
  cases hm : p.table.get? name with
  | none =>
    cases hm' : q.table.get? name with
    | none =>
      rintro d (hd | hd) rfl
      · obtain ⟨m, hm, -⟩ := (gather_complete hp).2 d hd
        simp_all
      · obtain ⟨m, hm', -⟩ := (gather_complete hq).2 d hd
        simp_all
    | some m' =>
      obtain ⟨m, hm, -⟩ := entry_of_same hback hq hp hm'
      simp_all
  | some m =>
    obtain ⟨m', hm', hsame⟩ := entry_of_same h hp hq hm
    rw [hm']
    have hjoin := entry_joins hp hm
    have hjoin' := entry_joins hq hm'
    refine ⟨hsame, ⟨_, lists_filter_reachable s name⟩, ?_⟩
    rintro l (hl | hl)
    · exact hl.mergeAll?_same h hjoin hjoin'
    · obtain ⟨x, hx, hxm', hxm⟩ := hl.mergeAll?_same hback hjoin' hjoin
      exact ⟨x, hx, hxm, hxm'⟩

theorem gather_ok_of_same (h : s.same t = true)
    (hq : AnnotationSet.collectAll config t.gather {} = .ok q) :
    ∃ p, AnnotationSet.collectAll config s.gather {} = .ok p := by
  cases hp : AnnotationSet.collectAll config s.gather {} with
  | ok p => exact ⟨p, rfl⟩
  | error failure =>
    -- two definitions that contradict each other are both part of what the other scene collects
    obtain ⟨known, found, -, d, e, hd, he, hdn, hen, hnone⟩ := clashes_of_gather_error hp
    obtain ⟨d', hd', hdd'⟩ := hd.of_same h
    obtain ⟨e', he', hee'⟩ := he.of_same h
    obtain ⟨m, hm, hdm⟩ := ((gather_complete hq).2 d' hd').of_partOf hdd'
    obtain ⟨m', hm', hem⟩ := ((gather_complete hq).2 e' he').of_partOf hee'
    rw [hdn] at hm
    rw [hen] at hm'
    obtain rfl : m = m' := Option.some.inj (hm.symm.trans hm')
    obtain ⟨x, hx, -⟩ := Definition.unify?_least (s.wellFormed_of_reaches he) hdm hem
    nomatch hnone.symm.trans hx

end Scene

namespace Collector

variable {config : CollectorConfig} {s t : Scene.Valid}

theorem verification_of_same {p q : Progress} (h : s.same t = true)
    (hp : AnnotationSet.collectAll config s.gather {} = .ok p)
    (hq : AnnotationSet.collectAll config t.gather {} = .ok q)
    (hv : verification config t q = .ok ()) : verification config s p = .ok () := by
  rw [verification_eq_ok_iff] at hv ⊢
  intro hverify a b ha hb d hd
  obtain ⟨a', ha', haa'⟩ := ha.of_same h
  obtain ⟨b', hb', hbb'⟩ := hb.of_same haa'
  obtain ⟨e, he, hde⟩ := Scene.entry_of_same h hp hq hd
  have hname := Annotation.name_eq_of_same hbb'
  exact (hv hverify a' b' ha' hb' e (hname ▸ he)).of_same hde hbb'

theorem ofScene_ok_of_same (h : s.same t = true) {c : Collector} {events : List Event}
    (hok : ofScene config t = .ok (c, events)) :
    ∃ c' events', ofScene config s = .ok (c', events') := by
  obtain ⟨q, hq, -, hv⟩ := gather_ok_of_ofScene hok
  obtain ⟨p, hp⟩ := Scene.gather_ok_of_same h hq
  rw [ofScene_of_gather_ok hp, verification_of_same h hp hq hv]
  exact ⟨_, _, rfl⟩

/-- Scenes that are the same have collectors that agree on every name, or neither has one. -/
theorem ofScene_order_free (s t : Scene.Valid) (h : s.same t = true) :
    ((∃ failure, ofScene config s = .error failure) ∧
      ∃ failure, ofScene config t = .error failure) ∨
    ∃ c events c' events', ofScene config s = .ok (c, events) ∧
      ofScene config t = .ok (c', events') ∧
      ∀ name, Scene.AgreeOn config s t name (c.get? name) (c'.get? name) := by
  cases hsok : ofScene config s with
  | error failure =>
    cases htok : ofScene config t with
    | error failure' => exact .inl ⟨⟨failure, rfl⟩, failure', rfl⟩
    | ok r =>
      obtain ⟨c, events, hok⟩ := ofScene_ok_of_same h htok
      nomatch hsok.symm.trans hok
  | ok r =>
    obtain ⟨c, events⟩ := r
    obtain ⟨c', events', htok⟩ := ofScene_ok_of_same (Scene.same_symm s.wellFormed h) hsok
    obtain ⟨p, hp, rfl, -⟩ := gather_ok_of_ofScene hsok
    obtain ⟨q, hq, rfl, -⟩ := gather_ok_of_ofScene htok
    exact .inr ⟨_, events, _, events', rfl, htok, Scene.entries_agree h hp hq⟩

theorem ofScene_order_free_two_views :
    let bare : Annotation := .marker (.ofName "A" "p")
    let full : Annotation := ⟨⟨"A", [], some [("x", .basic .int)], "q"⟩, [("x", .int 3)]⟩
    let s := Scene.ofPackage "p" [bare, full]
    let t := Scene.ofPackage "p" [full, bare]
    s.WellFormed ∧ t.WellFormed ∧ s.same t = true ∧
      ∃ c events c' events', ofScene {} s = .ok (c, events) ∧ ofScene {} t = .ok (c', events') ∧
        Scene.AgreeOn {} s t "A" (c.get? "A") (c'.get? "A") := by
  intro bare full s t
  have hs : s.WellFormed := by decide
  have ht : t.WellFormed := by decide
  have h : s.same t = true := by decide
  refine ⟨hs, ht, h, ?_⟩
  rcases @ofScene_order_free {} ⟨s, hs⟩ ⟨t, ht⟩ h with
    ⟨⟨_, hfail⟩, -⟩ | ⟨c, events, c', events', hc, hc', hall⟩
  · nomatch hfail
  · exact ⟨c, events, c', events', hc, hc', hall "A"⟩

end Collector

end AnnotationScene
