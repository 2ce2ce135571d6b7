import AnnotationScene.Proofs.Maps
import AnnotationScene.Proofs.MergeAll
import AnnotationScene.Proofs.Reach

/-!
# What a collection keeps true

While definitions are collected, each entry of the table is merged from definitions of its name
that were asked for, and whatever an entry uses is in the table already. The second is why a
definition that is the same as its entry need not be looked into again: all that it leads to is
part of what the table has. A collection stops only at two definitions that contradict each other.
-/

namespace AnnotationScene

namespace DefinitionTable

def Covers (t : DefinitionTable) (d : Definition) : Prop :=
  ∃ m, t.get? d.name = some m ∧ d.PartOf m

theorem Covers.of_partOf {t : DefinitionTable} {d e : Definition} (h : Covers t e)
    (hpart : d.PartOf e) : Covers t d := by
  obtain ⟨m, hm, hem⟩ := h
  exact ⟨m, hpart.name ▸ hm, hpart.trans hem⟩

theorem Covers.of_unify? {t : DefinitionTable} {d e x : Definition} (hd : Covers t d)
    (he : Covers t e) (hw : e.WellFormed) (h : d.unify? e = some x) : Covers t x := by
  obtain ⟨hxd, hxe⟩ := Definition.name_unify? h
  obtain ⟨m, hm, hdm⟩ := hd
  obtain ⟨m', hm', hem⟩ := he
  obtain rfl : m = m' := by
    rw [← hxd] at hm
    rw [← hxe] at hm'
    exact Option.some.inj (hm.symm.trans hm')
  obtain ⟨y, hy, hym⟩ := Definition.unify?_least hw hdm hem
  obtain rfl : y = x := Option.some.inj (hy.symm.trans h)
  exact ⟨m, hxd ▸ hm, hym⟩

/-- Every entry is still there, and may have learned more. -/
def Extends (t u : DefinitionTable) : Prop :=
  ∀ n m, t.get? n = some m → ∃ m', u.get? n = some m' ∧ m.PartOf m'

theorem Extends.refl (t : DefinitionTable) : Extends t t := fun _ m hm => ⟨m, hm, .refl m⟩

theorem Extends.trans {t u v : DefinitionTable} (h : Extends t u) (h' : Extends u v) :
    Extends t v := by
  intro n m hm
  obtain ⟨m', hm', hpart⟩ := h n m hm
  obtain ⟨m'', hm'', hpart'⟩ := h' n m' hm'
  exact ⟨m'', hm'', hpart.trans hpart'⟩

theorem Covers.extend {t u : DefinitionTable} {d : Definition} (h : Covers t d)
    (he : Extends t u) : Covers u d := by
  obtain ⟨m, hm, hd⟩ := h
  obtain ⟨m', hm', hpart⟩ := he _ m hm
  exact ⟨m', hm', hd.trans hpart⟩

theorem extends_insert {t : DefinitionTable} {n : String} {d : Definition}
    (h : ∀ m, t.get? n = some m → m.PartOf d) : Extends t (t.insert n d) := by
  intro n' m hm
  by_cases hn : n' = n
  · subst hn
    exact ⟨d, t.get?_insert_self n' d, h m hm⟩
  · exact ⟨m, (t.get?_insert_of_ne hn d).trans hm, .refl m⟩

end DefinitionTable

open DefinitionTable (Covers Extends)

/-- Definitions that may be collected together: well formed, with all that they use. -/
structure UseClosed (config : CollectorConfig) (R : Definition → Prop) : Prop where
  wellFormed : ∀ {d}, R d → d.WellFormed
  uses : ∀ {d e}, R d → d.Uses config e → R e

structure Progress.Sound (config : CollectorConfig) (R : Definition → Prop) (p : Progress) :
    Prop where
  distinct : p.table.keys.Nodup
  merged : ∀ {n m}, p.table.get? n = some m →
    ∃ l, (∀ d ∈ l, R d ∧ d.name = n) ∧ Definition.mergeAll? l = some m
  closed : ∀ {n m x}, p.table.get? n = some m → m.Uses config x → Covers p.table x

/-- How collecting may end: with more in the table, the definitions `X` among it, or with a
definition that contradicts another. -/
def Collects (config : CollectorConfig) (R : Definition → Prop) (p : Progress)
    (X : Definition → Prop) : Except Failure Progress → Prop
  | .ok q => q.Sound config R ∧ Extends p.table q.table ∧ ∀ x, X x → Covers q.table x
  | .error failure => ∃ known found d, failure.error = .conflict known found ∧
      R d ∧ R found ∧ d.name = found.name ∧ d.unify? found = none

section

variable {config : CollectorConfig} {R X Y : Definition → Prop} {p : Progress}

theorem Collects.here (hp : p.Sound config R) (hX : ∀ x, X x → Covers p.table x) :
    Collects config R p X (.ok p) :=
  ⟨hp, .refl p.table, hX⟩

theorem Collects.mono {r : Except Failure Progress} (h : Collects config R p X r)
    (hXY : ∀ x, Y x → X x) : Collects config R p Y r := by
  cases r with
  | ok q => exact ⟨h.1, h.2.1, fun x hx => h.2.2 x (hXY x hx)⟩
  | error failure => exact h

theorem Collects.bind {r : Except Failure Progress} {k : Progress → Except Failure Progress}
    (h : Collects config R p X r)
    (hk : ∀ q, q.Sound config R → Extends p.table q.table → (∀ x, X x → Covers q.table x) →
      Collects config R q Y (k q)) :
    Collects config R p (fun x => X x ∨ Y x) (r >>= k) := by
  cases r with
  | error failure => exact h
  | ok q =>
    obtain ⟨hq, hpq, hX⟩ := h
    have hkq := hk q hq hpq hX
    change Collects config R p _ (k q)
    generalize k q = r at hkq ⊢
    cases r with
    | error failure => exact hkq
    | ok q' =>
      obtain ⟨hq', hqq', hY⟩ := hkq
      refine ⟨hq', hpq.trans hqq', fun x hx => ?_⟩
      rcases hx with hx | hx
      · exact (hX x hx).extend hqq'
      · exact hY x hx

end

-- ---------------------------------------------------------------------------
-- Adding one definition
-- ---------------------------------------------------------------------------

theorem Progress.Sound.wellFormed {config : CollectorConfig} {R : Definition → Prop}
    {p : Progress} (hp : p.Sound config R) (hR : UseClosed config R) {n : String}
    {m : Definition} (hm : p.table.get? n = some m) :
    m.WellFormed ∧ m.name = n := by
  obtain ⟨l, hl, hmerge⟩ := hp.merged hm
  exact ⟨(Definition.mergeAll?_spec (fun d hd => hR.wellFormed (hl d hd).1) hmerge).1,
    Definition.name_mergeAll? hmerge fun d hd => (hl d hd).2⟩

/-- What a view uses is there if the view is: the entry of its name uses at least as much. -/
theorem Progress.Sound.covers_uses {config : CollectorConfig} {R : Definition → Prop}
    {p : Progress} (hp : p.Sound config R) {d e : Definition} (hd : Covers p.table d)
    (he : d.Uses config e) : Covers p.table e := by
  obtain ⟨m, hm, hpart⟩ := hd
  obtain ⟨x, hx, hex⟩ := he.of_partOf hpart
  exact (hp.closed hm hx).of_partOf hex

theorem Progress.Sound.insert {config : CollectorConfig} {R : Definition → Prop}
    {p q : Progress} (hp : p.Sound config R) {d : Definition} {l : List Definition}
    (hq : q.table = p.table.insert d.name d)
    (hold : ∀ m, p.table.get? d.name = some m → m.PartOf d)
    (hl : ∀ e ∈ l, R e ∧ e.name = d.name) (hmerge : Definition.mergeAll? l = some d)
    (huses : ∀ x, d.Uses config x → Covers p.table x) :
    q.Sound config R ∧ Extends p.table q.table := by
  have hext : Extends p.table q.table := hq ▸ DefinitionTable.extends_insert hold
  refine ⟨⟨hq ▸ OrderedMap.keys_nodup_insert hp.distinct _ _, ?_, ?_⟩, hext⟩
  · intro n m hm
    by_cases hn : n = d.name
    · subst hn
      rw [hq, OrderedMap.get?_insert_self] at hm
      obtain rfl := Option.some.inj hm
      exact ⟨l, hl, hmerge⟩
    · rw [hq, OrderedMap.get?_insert_of_ne _ hn] at hm
      exact hp.merged hm
  · intro n m x hm hx
    by_cases hn : n = d.name
    · subst hn
      rw [hq, OrderedMap.get?_insert_self] at hm
      obtain rfl := Option.some.inj hm
      exact (huses x hx).extend hext
    · rw [hq, OrderedMap.get?_insert_of_ne _ hn] at hm
      exact (hp.closed hm hx).extend hext

theorem Progress.add_collects {config : CollectorConfig} {R : Definition → Prop} {p : Progress}
    {d : Definition} (hR : UseClosed config R) (hp : p.Sound config R) (hd : R d)
    (huses : ∀ x, d.Uses config x → Covers p.table x) :
    Collects config R p (· = d) (p.add d) := by
  unfold Progress.add
  split
  next hnone =>
    obtain ⟨hq, hext⟩ := hp.insert (q := { p with table := p.table.insert d.name d }) rfl
      (by simp [hnone]) (l := [d]) (by simp [hd]) rfl huses
    refine ⟨hq, hext, ?_⟩
    rintro x rfl
    exact ⟨x, p.table.get?_insert_self x.name x, .refl x⟩
  next known hknown =>
    obtain ⟨hwf, hname⟩ := hp.wellFormed hR hknown
    obtain ⟨l, hl, hmerge⟩ := hp.merged hknown
    split
    next hnone =>
      obtain ⟨e, he, hconflict⟩ := Definition.exists_unify?_eq_none hmerge hnone
      exact ⟨known, d, e, rfl, (hl e he).1, hd, (hl e he).2, hconflict⟩
    next merged hmerged =>
      obtain ⟨hkm, hdm⟩ := Definition.partOf_unify? hwf hmerged
      have hn : merged.name = d.name := (Definition.name_unify? hmerged).2
      have hl' : ∀ e ∈ l ++ [d], R e ∧ e.name = merged.name := by
        intro e he
        rcases List.mem_append.mp he with he | he
        · exact hn ▸ hl e he
        · obtain rfl := List.mem_singleton.mp he
          exact ⟨hd, hn.symm⟩
      have huses' : ∀ x, merged.Uses config x → Covers p.table x := by
        intro x hx
        rcases hx.of_unify? hmerged with hx | hx | ⟨e, e', he, he', hx⟩
        · exact hp.closed hknown hx
        · exact huses x hx
        · exact (hp.closed hknown he).of_unify? (huses e' he')
            (he'.wellFormed (hR.wellFormed hd)) hx
      obtain ⟨hq, hext⟩ := hp.insert (d := merged) (l := l ++ [d])
        (q := { table := p.table.insert d.name merged
                events := p.events ++ [.unifiedDefinitions d.name] })
        (by rw [hn]) (by rw [hn, hknown]; rintro m ⟨⟩; exact hkm)
        hl' ((Definition.mergeAll?_concat hmerge).trans hmerged) huses'
      refine ⟨hq, hext, ?_⟩
      rintro x rfl
      exact ⟨merged, p.table.get?_insert_self x.name merged, hdm⟩

theorem Progress.covers_of_knows {config : CollectorConfig} {R : Definition → Prop}
    {p : Progress} {d : Definition} (hR : UseClosed config R) (hp : p.Sound config R)
    (h : p.knows d = true) : Covers p.table d := by
  unfold Progress.knows at h
  split at h
  next known hknown =>
    rw [Definition.isSame_eq] at h
    exact ⟨known, hknown, d.partOf_of_same (known.same_symm (hp.wellFormed hR hknown).1 h)⟩
  next => cases h

-- ---------------------------------------------------------------------------
-- Collecting all that something mentions
-- ---------------------------------------------------------------------------

/-- Of the definitions that `d` uses, the fields lead to some and the meta-annotations to the
others. -/
theorem Definition.uses_iff {config : CollectorConfig} {d x : Definition} :
    d.Uses config x ↔ (∃ f ∈ d.fieldTable, f.2.definition? = some x) ∨
      config.includeMeta = true ∧ ∃ m ∈ d.metas, ∃ b, m.Mentions b ∧ x = b.definition := by
  constructor
  · intro h
    cases h with
    | dependency hmem => exact .inl (Definition.mem_dependencies.mp hmem)
    | viaMeta hc hm hb => exact .inr ⟨hc, _, hm, _, hb, rfl⟩
  · rintro (hmem | ⟨hc, m, hm, b, hb, rfl⟩)
    · exact .dependency (Definition.mem_dependencies.mpr hmem)
    · exact .viaMeta hc hm hb

section

variable {config : CollectorConfig} {R : Definition → Prop}

/-- The three stages of collecting a definition, whether or not it has a field table. -/
theorem Definition.collect_eq (d : Definition) (p : Progress) :
    d.collect config p =
      if p.knows d then .ok p
      else
        FieldType.collectTable config d.fieldTable p >>= fun p =>
          (if config.includeMeta then AnnotationSet.collectAll config d.metas p else .ok p) >>=
            fun p => p.add d := by
  obtain ⟨name, metas, fields, source⟩ := d
  cases fields <;> by_cases hc : config.includeMeta = true <;>
    simp [Definition.collect, Definition.fieldTable, FieldType.collectTable, hc, bind, Except.bind]

theorem Definition.collects_of_stages {d : Definition} {p : Progress} (hR : UseClosed config R)
    (hd : R d) (hp : p.Sound config R)
    (hfields : Collects config R p (fun x => ∃ f ∈ d.fieldTable, f.2.definition? = some x)
      (FieldType.collectTable config d.fieldTable p))
    (hmetas : config.includeMeta = true → ∀ q : Progress, q.Sound config R →
      Collects config R q (fun x => ∃ m ∈ d.metas, ∃ b, m.Mentions b ∧ x = b.definition)
        (AnnotationSet.collectAll config d.metas q)) :
    Collects config R p (· = d) (d.collect config p) := by
  rw [Definition.collect_eq]
  split
  next hknows =>
    refine .here hp ?_
    rintro x rfl
    exact p.covers_of_knows hR hp hknows
  next =>
    refine (hfields.bind fun q hq _ hdeps => ?_).mono fun x => .inr
    have hall : Collects config R q
        (fun x => config.includeMeta = true ∧ ∃ m ∈ d.metas, ∃ b, m.Mentions b ∧ x = b.definition)
        (if config.includeMeta then AnnotationSet.collectAll config d.metas q else .ok q) := by
      split
      next hc => exact (hmetas hc q hq).mono fun x hx => hx.2
      next hc => exact .here hq fun x hx => absurd hx.1 hc
    refine (hall.bind fun q' hq' hext hcover => ?_).mono fun x => .inr
    refine Progress.add_collects hR hq' hd fun x hx => ?_
    rcases Definition.uses_iff.mp hx with hx | hx
    · exact (hdeps x hx).extend hext
    · exact hcover x hx

mutual
theorem Definition.collect_collects (hR : UseClosed config R) : (d : Definition) → R d →
    {p : Progress} → p.Sound config R → Collects config R p (· = d) (d.collect config p)
  | ⟨name, metas, none, source⟩, hd, p, hp =>
    Definition.collects_of_stages hR hd hp
      (.here hp fun x hx => by simp [Definition.fieldTable] at hx)
      fun hc q hq => AnnotationSet.collectAll_collects hR metas
        (fun m hm b hb => hR.uses hd (.viaMeta hc hm hb)) hq
  | ⟨name, metas, some fields, source⟩, hd, p, hp =>
    Definition.collects_of_stages hR hd hp
      (FieldType.collectTable_collects hR fields
        (fun f hf e he => hR.uses hd (Definition.uses_iff.mpr (.inl ⟨f, hf, he⟩))) hp)
      fun hc q hq => AnnotationSet.collectAll_collects hR metas
        (fun m hm b hb => hR.uses hd (.viaMeta hc hm hb)) hq
theorem FieldType.collectTable_collects (hR : UseClosed config R) :
    (fields : List (String × FieldType)) →
    (∀ f ∈ fields, ∀ e, f.2.definition? = some e → R e) → {p : Progress} → p.Sound config R →
    Collects config R p (fun x => ∃ f ∈ fields, f.2.definition? = some x)
      (FieldType.collectTable config fields p)
  | [], _, p, hp => .here hp fun x hx => by simp at hx
  | (n, type) :: rest, h, p, hp => by
    obtain ⟨htype, hrest⟩ := List.forall_mem_cons.mp h
    rw [FieldType.collectTable]
    refine (Collects.bind (type.collect_collects hR htype hp) fun q hq _ _ =>
      FieldType.collectTable_collects hR rest hrest hq).mono fun x hx => ?_
    simpa using hx
theorem FieldType.collect_collects (hR : UseClosed config R) : (t : FieldType) →
    (∀ e, t.definition? = some e → R e) → {p : Progress} → p.Sound config R →
    Collects config R p (fun x => t.definition? = some x) (t.collect config p)
  | .nested d, h, _, hp =>
    (d.collect_collects hR (h d rfl) hp).mono fun _ hx => (Option.some.inj hx).symm
  | .array c, h, _, hp => c.collect_collects hR h hp
  | .basic _, _, _, hp | .classToken, _, _, hp | .enum _, _, _, hp | .unknownArray, _, _, hp =>
    .here hp fun _ hx => nomatch hx
theorem Annotation.collect_collects (hR : UseClosed config R) : (a : Annotation) →
    (∀ b, a.Mentions b → R b.definition) → {p : Progress} → p.Sound config R →
    Collects config R p (fun x => ∃ b, a.Mentions b ∧ x = b.definition) (a.collect config p)
  | ⟨definition, values⟩, h, p, hp => by
    unfold Annotation.collect
    refine (Collects.bind (definition.collect_collects hR (h _ (.inl rfl)) hp) fun q hq _ _ =>
      Value.collectTable_collects hR values (fun x hx b hb => h b (.inr ⟨x, hx, hb⟩)) hq).mono ?_
    rintro x ⟨b, rfl | ⟨y, hy, hb⟩, rfl⟩
    · exact .inl rfl
    · exact .inr ⟨y, hy, b, hb, rfl⟩
theorem AnnotationSet.collectAll_collects (hR : UseClosed config R) : (l : List Annotation) →
    (∀ a ∈ l, ∀ b, a.Mentions b → R b.definition) → {p : Progress} → p.Sound config R →
    Collects config R p (fun x => ∃ a ∈ l, ∃ b, a.Mentions b ∧ x = b.definition)
      (AnnotationSet.collectAll config l p)
  | [], _, p, hp => .here hp fun x hx => by simp at hx
  | a :: rest, h, p, hp => by
    obtain ⟨ha, hrest⟩ := List.forall_mem_cons.mp h
    rw [AnnotationSet.collectAll]
    refine (Collects.bind (a.collect_collects hR ha hp) fun q hq _ _ =>
      AnnotationSet.collectAll_collects hR rest hrest hq).mono fun x hx => ?_
    simpa using hx
theorem Value.collect_collects (hR : UseClosed config R) : (v : Value) →
    (∀ b, v.Holds b → R b.definition) → {p : Progress} → p.Sound config R →
    Collects config R p (fun x => ∃ b, v.Holds b ∧ x = b.definition) (v.collect config p)
  | .nested a, h, p, hp => by
    simp only [Value.holds_nested_iff] at h ⊢
    exact a.collect_collects hR h hp
  | .array vs, h, p, hp => by
    refine (Value.collectList_collects hR vs (fun v hv b hb => h b (.element hv hb)) hp).mono ?_
    rintro x ⟨b, hb, rfl⟩
    obtain ⟨v, hv, hb⟩ := Value.holds_array_iff.mp hb
    exact ⟨v, hv, b, hb, rfl⟩
  | .byte _, _, _, hp | .short _, _, _, hp | .char _, _, _, hp | .int _, _, _, hp
  | .long _, _, _, hp | .float _, _, _, hp | .double _, _, _, hp | .boolean _, _, _, hp
  | .string _, _, _, hp | .classToken _, _, _, hp | .enum _ _, _, _, hp =>
    .here hp fun _ hx => nomatch hx.choose_spec.1
theorem Value.collectTable_collects (hR : UseClosed config R) :
    (t : List (String × Value)) → (∀ x ∈ t, ∀ b, x.2.Holds b → R b.definition) →
    {p : Progress} → p.Sound config R →
    Collects config R p (fun d => ∃ x ∈ t, ∃ b, x.2.Holds b ∧ d = b.definition)
      (Value.collectTable config t p)
  | [], _, p, hp => .here hp fun x hx => by simp at hx
  | (n, v) :: rest, h, p, hp => by
    obtain ⟨hv, hrest⟩ := List.forall_mem_cons.mp h
    rw [Value.collectTable]
    refine (Collects.bind (v.collect_collects hR hv hp) fun q hq _ _ =>
      Value.collectTable_collects hR rest hrest hq).mono fun x hx => ?_
    simpa using hx
theorem Value.collectList_collects (hR : UseClosed config R) : (l : List Value) →
    (∀ v ∈ l, ∀ b, v.Holds b → R b.definition) → {p : Progress} → p.Sound config R →
    Collects config R p (fun d => ∃ v ∈ l, ∃ b, v.Holds b ∧ d = b.definition)
      (Value.collectList config l p)
  | [], _, p, hp => .here hp fun x hx => by simp at hx
  | v :: rest, h, p, hp => by
    obtain ⟨hv, hrest⟩ := List.forall_mem_cons.mp h
    rw [Value.collectList]
    refine (Collects.bind (v.collect_collects hR hv hp) fun q hq _ _ =>
      Value.collectList_collects hR rest hrest hq).mono fun x hx => ?_
    simpa using hx
end

end

end AnnotationScene
