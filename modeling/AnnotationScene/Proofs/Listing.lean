import AnnotationScene.Proofs.Gathering

/-!
# Listing the reachable definitions

What a definition uses is smaller than itself, so that all that it leads to can be listed. With
it goes a list of the definitions that a scene reaches.
-/

namespace AnnotationScene

namespace Definition

variable {config : CollectorConfig}

def uses (config : CollectorConfig) (d : Definition) : List Definition :=
  d.dependencies ++ if config.includeMeta then
    d.metas.flatMap fun m => (m :: m.nestedAnnotations).map (·.definition)
  else []

theorem mem_uses_iff {d e : Definition} : e ∈ d.uses config ↔ d.Uses config e := by
  rw [uses, List.mem_append]
  constructor
  · rintro (h | h)
    · exact .dependency h
    · split at h
      next hc =>
        obtain ⟨m, hm, h⟩ := List.mem_flatMap.mp h
        obtain ⟨b, hb, rfl⟩ := List.mem_map.mp h
        exact .viaMeta hc hm <| Annotation.mem_cons_nestedAnnotations_iff.mp hb
      next => nomatch h
  · intro h
    cases h with
    | dependency h => exact .inl h
    | viaMeta hc hm hb =>
      rw [if_pos hc]
      refine .inr (List.mem_flatMap.mpr ⟨_, hm, List.mem_map.mpr ⟨_, ?_, rfl⟩⟩)
      exact Annotation.mem_cons_nestedAnnotations_iff.mpr hb

end Definition

-- ---------------------------------------------------------------------------
-- Sizes
-- ---------------------------------------------------------------------------

theorem Value.Holds.sizeOf_lt {v : Value} {b : Annotation} (h : v.Holds b) :
    sizeOf b < sizeOf v := by
  induction h with
  | here a => simp
  | @deeper a b x hx _ ih =>
    obtain ⟨definition, values⟩ := a
    obtain ⟨n, v⟩ := x
    have hlt := List.sizeOf_lt_of_mem hx
    simp at hlt ih ⊢
    omega
  | element hv _ ih =>
    have hlt := List.sizeOf_lt_of_mem hv
    simp
    omega

theorem Annotation.Mentions.sizeOf_lt {a b : Annotation} (h : a.Mentions b) :
    sizeOf b.definition < sizeOf a := by
  have hb := (Value.holds_nested_iff.mpr h).sizeOf_lt
  obtain ⟨definition, values⟩ := b
  simp at hb ⊢
  omega

theorem FieldType.sizeOf_definition? (t : FieldType) {d : Definition}
    (h : t.definition? = some d) : sizeOf d < sizeOf t := by
  match t with
  | .nested e =>
    obtain rfl := Option.some.inj h
    simp
  | .array c =>
    have hc := c.sizeOf_definition? h
    simp
    omega

theorem Definition.Uses.sizeOf_lt {config : CollectorConfig} {d e : Definition}
    (h : d.Uses config e) : sizeOf e < sizeOf d := by
  obtain ⟨name, metas, fields, source⟩ := d
  cases h with
  | dependency hmem =>
    obtain ⟨⟨n, t⟩, hx, he⟩ := Definition.mem_dependencies.mp hmem
    have ht := t.sizeOf_definition? he
    cases fields with
    | none => nomatch hx
    | some table =>
      have hlt := List.sizeOf_lt_of_mem (show (n, t) ∈ table from hx)
      simp at hlt ⊢
      omega
  | viaMeta _ hm hb =>
    have hlt := List.sizeOf_lt_of_mem hm
    have hb := hb.sizeOf_lt
    simp at hlt ⊢
    omega

-- ---------------------------------------------------------------------------
-- The lists
-- ---------------------------------------------------------------------------

namespace Definition

variable {config : CollectorConfig}

def reached (config : CollectorConfig) (d : Definition) : List Definition :=
  d :: (d.uses config).attach.flatMap fun e => e.1.reached config
termination_by sizeOf d
decreasing_by exact (mem_uses_iff.mp e.2).sizeOf_lt

theorem mem_reached_iff {d e : Definition} :
    e ∈ d.reached config ↔ e = d ∨ ∃ f, d.Uses config f ∧ e ∈ f.reached config := by
  rw [reached, List.mem_cons, List.mem_flatMap]
  constructor
  · rintro (h | ⟨⟨f, hf⟩, -, he⟩)
    · exact .inl h
    · exact .inr ⟨f, mem_uses_iff.mp hf, he⟩
  · rintro (h | ⟨f, hf, he⟩)
    · exact .inl h
    · exact .inr ⟨⟨f, mem_uses_iff.mpr hf⟩, List.mem_attach _ _, he⟩

theorem mem_reached_of_uses {d e f : Definition} (he : e ∈ d.reached config)
    (hu : e.Uses config f) : f ∈ d.reached config := by
  rcases mem_reached_iff.mp he with rfl | ⟨g, hg, he⟩
  · exact mem_reached_iff.mpr (.inr ⟨f, hu, mem_reached_iff.mpr (.inl rfl)⟩)
  · exact mem_reached_iff.mpr (.inr ⟨g, hg, mem_reached_of_uses he hu⟩)
termination_by sizeOf d
decreasing_by exact hg.sizeOf_lt

/-- What a property passes on to the definitions used, it passes on to all that is reached. -/
theorem of_mem_reached {R : Definition → Prop} (hR : ∀ {d e}, R d → d.Uses config e → R e)
    {d e : Definition} (hd : R d) (he : e ∈ d.reached config) : R e := by
  rcases mem_reached_iff.mp he with rfl | ⟨g, hg, he⟩
  · exact hd
  · exact of_mem_reached hR (hR hd hg) he
termination_by sizeOf d
decreasing_by exact hg.sizeOf_lt

end Definition

namespace Scene

variable {config : CollectorConfig} {s : Valid}

def reachable (config : CollectorConfig) (s : Scene) : List Definition :=
  (s.gather.flatMap fun a => a :: a.nestedAnnotations).flatMap fun b => b.definition.reached config

theorem mem_reachable {d : Definition} : d ∈ s.reachable config ↔
    ∃ a b, s.Attaches a ∧ a.Mentions b ∧ d ∈ b.definition.reached config := by
  simp only [reachable, List.mem_flatMap, mem_gather_iff,
    Annotation.mem_cons_nestedAnnotations_iff]
  constructor
  · rintro ⟨b, ⟨a, ha, hb⟩, hd⟩
    exact ⟨a, b, ha, hb, hd⟩
  · rintro ⟨a, b, ha, hb, hd⟩
    exact ⟨b, ⟨a, ha, hb⟩, hd⟩

theorem mem_reachable_iff {d : Definition} : d ∈ s.reachable config ↔ s.Reaches config d := by
  rw [mem_reachable]
  constructor
  · rintro ⟨a, b, ha, hb, hd⟩
    exact Definition.of_mem_reached .uses (.attached ha hb) hd
  · intro h
    induction h with
    | attached ha hb => exact ⟨_, _, ha, hb, Definition.mem_reached_iff.mpr (.inl rfl)⟩
    | uses _ hu ih =>
      obtain ⟨a, b, ha, hb, hd⟩ := ih
      exact ⟨a, b, ha, hb, Definition.mem_reached_of_uses hd hu⟩

end Scene

end AnnotationScene
