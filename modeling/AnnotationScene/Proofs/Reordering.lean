import AnnotationScene.Proofs.Slots

/-!
# Orders do not count

`s.Reordered t` says that `t` is `s` with the entries of its maps and the members of its annotation
sets listed in other orders, at any depth: also the meta-annotations of the definitions that its
annotations carry. Tables of fields and values are sorted, so they have one order only. Everything
else is as it was. What is reordered is well formed again, and the same.
-/

namespace AnnotationScene

-- ---------------------------------------------------------------------------
-- Annotations in another order
-- ---------------------------------------------------------------------------

mutual
inductive FieldType.Reordered : FieldType → FieldType → Prop
  | refl (t : FieldType) : t.Reordered t
  | nested {d e : Definition} : d.Reordered e → FieldType.Reordered (.nested d) (.nested e)
  | array {c d : FieldType} : c.Reordered d → FieldType.Reordered (.array c) (.array d)
inductive Definition.Reordered : Definition → Definition → Prop
  | refl (d : Definition) : d.Reordered d
  | ofName {name source : String} {metas others : List Annotation} :
      AnnotationSet.Reordered metas others →
      Definition.Reordered ⟨name, metas, none, source⟩ ⟨name, others, none, source⟩
  | ofFields {name source : String} {metas others : List Annotation}
      {fields types : List (String × FieldType)} : AnnotationSet.Reordered metas others →
      FieldType.ReorderedTable fields types →
      Definition.Reordered ⟨name, metas, some fields, source⟩ ⟨name, others, some types, source⟩
inductive Annotation.Reordered : Annotation → Annotation → Prop
  | refl (a : Annotation) : a.Reordered a
  | mk {d e : Definition} {values others : List (String × Value)} : d.Reordered e →
      Value.ReorderedTable values others → Annotation.Reordered ⟨d, values⟩ ⟨e, others⟩
inductive Value.Reordered : Value → Value → Prop
  | refl (v : Value) : v.Reordered v
  | nested {a b : Annotation} : a.Reordered b → Value.Reordered (.nested a) (.nested b)
  | array {vs ws : List Value} : Value.ReorderedList vs ws →
      Value.Reordered (.array vs) (.array ws)
/-- The members one by one, and then in any order. -/
inductive AnnotationSet.Reordered : List Annotation → List Annotation → Prop
  | nil : AnnotationSet.Reordered [] []
  | cons {a b : Annotation} {rest others t : List Annotation} : a.Reordered b →
      AnnotationSet.Reordered rest others → (b :: others).Perm t →
      AnnotationSet.Reordered (a :: rest) t
inductive FieldType.ReorderedTable :
    List (String × FieldType) → List (String × FieldType) → Prop
  | nil : FieldType.ReorderedTable [] []
  | cons {n : String} {t u : FieldType} {rest others : List (String × FieldType)} :
      t.Reordered u → FieldType.ReorderedTable rest others →
      FieldType.ReorderedTable ((n, t) :: rest) ((n, u) :: others)
inductive Value.ReorderedTable : List (String × Value) → List (String × Value) → Prop
  | nil : Value.ReorderedTable [] []
  | cons {n : String} {v w : Value} {rest others : List (String × Value)} :
      v.Reordered w → Value.ReorderedTable rest others →
      Value.ReorderedTable ((n, v) :: rest) ((n, w) :: others)
inductive Value.ReorderedList : List Value → List Value → Prop
  | nil : Value.ReorderedList [] []
  | cons {v w : Value} {rest others : List Value} : v.Reordered w →
      Value.ReorderedList rest others → Value.ReorderedList (v :: rest) (w :: others)
end

theorem AnnotationSet.Reordered.of_perm {s t : List Annotation} (h : s.Perm t) :
    AnnotationSet.Reordered s t := by
  induction s generalizing t with
  | nil =>
    obtain rfl := h.symm.eq_nil
    exact .nil
  | cons a rest ih => exact .cons (.refl a) (ih (List.Perm.refl rest)) h

theorem AnnotationSet.WellFormed.perm {s t : List Annotation} (hw : AnnotationSet.WellFormed s)
    (h : s.Perm t) : AnnotationSet.WellFormed t := by
  refine AnnotationSet.wellFormed_iff.mpr ⟨fun a ha => ?_, ?_⟩
  · exact (AnnotationSet.wellFormed_iff.mp hw).1 a (h.mem_iff.mpr ha)
  -- apart both ways, so that the order of the two does not matter
  · exact (h.pairwise hw.apart fun hab => hab.symm).imp fun hab => hab.1

/-- A member may be replaced by one that is the same, and the others by a set that is. -/
theorem AnnotationSet.WellFormed.cons_of_same {a b : Annotation} {rest others : List Annotation}
    (hw : AnnotationSet.WellFormed (a :: rest)) (hb : b.WellFormed)
    (ho : AnnotationSet.WellFormed others) (hab : a.same b = true)
    (h : AnnotationSet.same rest others = true) : AnnotationSet.WellFormed (b :: others) := by
  refine ⟨hb, fun c hc => ?_, ho⟩
  cases hbc : b.same c with
  | false => rfl
  | true =>
    have hback := AnnotationSet.same_symm hw.2.2 h
    obtain ⟨a', ha', hca'⟩ := (AnnotationSet.same_iff.mp hback).2 c hc
    have haa' : a.same a' = true := a.same_trans hab (b.same_trans hbc hca')
    exact haa'.symm.trans (hw.2.1 a' ha')

mutual
theorem FieldType.Reordered.keeps {t u : FieldType} : t.Reordered u → t.WellFormed →
    t.same u = true ∧ u.WellFormed
  | .refl _, hw => ⟨t.same_refl, hw⟩
  | .nested h, hw => h.keeps hw
  | .array h, hw => h.keeps hw
theorem Definition.Reordered.keeps {d e : Definition} : d.Reordered e → d.WellFormed →
    d.same e = true ∧ e.WellFormed
  | .refl _, hw => ⟨d.same_refl, hw⟩
  | .ofName hm, hw => by
    obtain ⟨hsame, hwell⟩ := hm.keeps hw
    exact ⟨Definition.same_iff.mpr ⟨rfl, hsame, rfl⟩, hwell⟩
  | .ofFields hm ht, hw => by
    obtain ⟨hsame, hwell⟩ := hm.keeps hw.1
    obtain ⟨htable, hwell'⟩ := ht.keeps hw.2
    exact ⟨Definition.same_iff.mpr ⟨rfl, hsame, htable⟩, hwell, hwell'⟩
theorem Annotation.Reordered.keeps {a b : Annotation} : a.Reordered b → a.WellFormed →
    a.same b = true ∧ b.WellFormed
  | .refl _, hw => ⟨a.same_refl, hw⟩
  | .mk hd hv, hw => by
    obtain ⟨hsame, hwell⟩ := hd.keeps hw.1
    obtain ⟨htable, hwell'⟩ := hv.keeps hw.2
    refine ⟨?_, hwell, hwell'⟩
    exact Annotation.same_iff.mpr ⟨hsame, htable⟩
theorem Value.Reordered.keeps {v w : Value} : v.Reordered w → v.WellFormed →
    v.same w = true ∧ w.WellFormed
  | .refl _, hw => ⟨v.same_refl, hw⟩
  | .nested h, hw => h.keeps hw
  | .array h, hw => h.keeps hw
theorem AnnotationSet.Reordered.keeps {s t : List Annotation} : AnnotationSet.Reordered s t →
    AnnotationSet.WellFormed s → AnnotationSet.same s t = true ∧ AnnotationSet.WellFormed t
  | .nil, _ => ⟨rfl, trivial⟩
  | .cons (b := b) h hrest hperm, hw => by
    obtain ⟨hab, hb⟩ := h.keeps hw.1
    obtain ⟨hsame, ho⟩ := hrest.keeps hw.2.2
    refine ⟨?_, (hw.cons_of_same hb ho hab hsame).perm hperm⟩
    obtain ⟨hlen, hfound⟩ := AnnotationSet.same_iff.mp hsame
    rw [AnnotationSet.same_iff, ← hperm.length_eq]
    refine ⟨congrArg (· + 1) hlen, List.forall_mem_cons.mpr ⟨?_, fun c hc => ?_⟩⟩
    · exact ⟨b, hperm.mem_iff.mp List.mem_cons_self, hab⟩
    · obtain ⟨d, hd, hcd⟩ := hfound c hc
      exact ⟨d, hperm.mem_iff.mp (List.mem_cons_of_mem b hd), hcd⟩
theorem FieldType.ReorderedTable.keeps {t u : List (String × FieldType)} :
    FieldType.ReorderedTable t u → FieldType.WellFormedTable t →
    FieldType.sameTable t u = true ∧ FieldType.WellFormedTable u
  | .nil, _ => ⟨rfl, trivial⟩
  | .cons h hrest, hw => by
    obtain ⟨hsame, hwell⟩ := h.keeps hw.1
    obtain ⟨htable, hwell'⟩ := hrest.keeps hw.2
    exact ⟨by simp [FieldType.sameTable, hsame, htable], hwell, hwell'⟩
theorem Value.ReorderedTable.keeps {t u : List (String × Value)} : Value.ReorderedTable t u →
    Value.WellFormedTable t → Value.sameTable t u = true ∧ Value.WellFormedTable u
  | .nil, _ => ⟨rfl, trivial⟩
  | .cons h hrest, hw => by
    obtain ⟨hsame, hwell⟩ := h.keeps hw.1
    obtain ⟨htable, hwell'⟩ := hrest.keeps hw.2
    exact ⟨by simp [Value.sameTable, hsame, htable], hwell, hwell'⟩
theorem Value.ReorderedList.keeps {l m : List Value} : Value.ReorderedList l m →
    Value.WellFormedList l → Value.sameList l m = true ∧ Value.WellFormedList m
  | .nil, _ => ⟨rfl, trivial⟩
  | .cons h hrest, hw => by
    obtain ⟨hsame, hwell⟩ := h.keeps hw.1
    obtain ⟨hlist, hwell'⟩ := hrest.keeps hw.2
    exact ⟨by simp [Value.sameList, hsame, hlist], hwell, hwell'⟩
end

-- ---------------------------------------------------------------------------
-- Elements in another order
-- ---------------------------------------------------------------------------

structure Header.Reordered {k : Kind} (g h : Header k) : Prop where
  description : h.description = g.description
  annotations : AnnotationSet.Reordered g.annotations h.annotations
  detail : h.detail = g.detail

mutual
inductive Element.Reordered : {k : Kind} → Element k → Element k → Prop
  | refl {k : Kind} (e : Element k) : e.Reordered e
  | mk {k : Kind} {header header' : Header k} {parts parts' : Parts k.layout} :
      header.Reordered header' → parts.Reordered parts' →
      Element.Reordered (.mk header parts) (.mk header' parts')
inductive Parts.Reordered : {layout : List Slot} → Parts layout → Parts layout → Prop
  | refl {layout : List Slot} (p : Parts layout) : p.Reordered p
  | fixed {f : FixedChild} {rest : List Slot} {c d : Element f.kind} {more others : Parts rest} :
      c.Reordered d → more.Reordered others →
      Parts.Reordered (.fixed c more) (.fixed d others)
  | absent {o : OptionalChild} {rest : List Slot} {more others : Parts rest} :
      more.Reordered others → Parts.Reordered (.absent (o := o) more) (.absent others)
  | present {o : OptionalChild} {rest : List Slot} {c d : Element o.kind}
      {more others : Parts rest} : c.Reordered d → more.Reordered others →
      Parts.Reordered (.present c more) (.present d others)
  | keyed {m : ChildMap} {rest : List Slot} {e f : Entries m} {more others : Parts rest} :
      e.Reordered f → more.Reordered others → Parts.Reordered (.keyed e more) (.keyed f others)
  | contracts {rest : List Slot} {s t : AnnotationSet} {more others : Parts rest} :
      AnnotationSet.Reordered s t → more.Reordered others →
      Parts.Reordered (.contracts s more) (.contracts t others)
/-- The entries one by one, and then in any order. -/
inductive Entries.Reordered : {m : ChildMap} → Entries m → Entries m → Prop
  | nil {m : ChildMap} : Entries.Reordered (m := m) .nil .nil
  | cons {m : ChildMap} {key : m.Key} {c d : Element m.kind} {more others f : Entries m} :
      c.Reordered d → more.Reordered others → ((key, d) :: others.toList).Perm f.toList →
      Entries.Reordered (.cons key c more) f
end

/-- The imports are a map as well, although they do not count. -/
structure Scene.Reordered (s t : Scene) : Prop where
  packages : s.packages.Reordered t.packages
  classes : s.classes.Reordered t.classes
  imports : s.imports.entries.Perm t.imports.entries

namespace Entries

variable {m : ChildMap}

theorem Reordered.of_perm {e f : Entries m} (h : e.toList.Perm f.toList) : e.Reordered f := by
  induction e using Entries.induct generalizing f with
  | nil =>
    obtain rfl : f = .nil := toList_injective h.symm.eq_nil
    exact .nil
  | cons key c more ih => exact .cons (.refl c) (ih (List.Perm.refl more.toList)) h

theorem Reordered.keys_perm {e f : Entries m} : e.Reordered f → e.keys.Perm f.keys
  | .nil => List.Perm.refl _
  | .cons _ hmore hperm => (hmore.keys_perm.cons _).trans (hperm.map Prod.fst)

theorem wellFormed_iff {e : Entries m} : e.WellFormed ↔
    e.keys.Nodup ∧ ∀ x ∈ e.toList, x.2.WellFormed := by
  induction e using Entries.induct with
  | nil => simp [WellFormed, keys, toMap, toList, OrderedMap.keys]
  | cons key c more ih =>
    rw [WellFormed, ih, toList, List.forall_mem_cons,
      show (cons key c more).keys = key :: more.keys from rfl, List.nodup_cons]
    constructor
    · rintro ⟨hkey, hc, hkeys, hmore⟩
      exact ⟨⟨hkey, hkeys⟩, hc, hmore⟩
    · rintro ⟨⟨hkey, hkeys⟩, hc, hmore⟩
      exact ⟨hkey, hc, hkeys, hmore⟩

theorem same_of_mem {e f : Entries m} (hf : f.keys.Nodup) (hkeys : e.keys.Perm f.keys)
    (h : ∀ x ∈ e.toList, ∃ d, (x.1, d) ∈ f.toList ∧ x.2.same d = true) : e.same f = true := by
  rw [same, Bool.and_eq_true, beq_iff_eq, within_iff]
  constructor
  · rw [size, size, ← OrderedMap.length_keys, ← OrderedMap.length_keys]
    exact hkeys.length_eq
  · intro x hx
    obtain ⟨d, hd, hsame⟩ := h x hx
    exact ⟨d, OrderedMap.get?_of_mem_entries hf hd, hsame⟩

theorem mem_of_same {e f : Entries m} (h : e.same f = true) {x : m.Key × Element m.kind}
    (hx : x ∈ e.toList) : ∃ d, (x.1, d) ∈ f.toList ∧ x.2.same d = true := by
  rw [same, Bool.and_eq_true, within_iff] at h
  obtain ⟨d, hget, hsame⟩ := h.2 x hx
  exact ⟨d, OrderedMap.mem_entries_of_get? hget, hsame⟩

end Entries

mutual
theorem Element.Reordered.keeps {k : Kind} {e f : Element k} : e.Reordered f → e.WellFormed →
    e.same f = true ∧ f.WellFormed
  | .refl _, hw => ⟨e.same_refl hw, hw⟩
  | .mk hheader hparts, hw => by
    obtain ⟨hset, hwell⟩ := hheader.annotations.keeps hw.1
    obtain ⟨hsame, hwell'⟩ := hparts.keeps hw.2
    refine ⟨?_, hwell, hwell'⟩
    rw [Element.same, Header.same, hheader.detail, Detail.same_refl, hset, hsame]
    rfl
theorem Parts.Reordered.keeps {layout : List Slot} {p q : Parts layout} : p.Reordered q →
    p.WellFormed → p.same q = true ∧ q.WellFormed
  | .refl _, hw => ⟨p.same_refl hw, hw⟩
  | .fixed hc hmore, hw | .present hc hmore, hw => by
    obtain ⟨hsame, hwell⟩ := hc.keeps hw.1
    obtain ⟨hrest, hwell'⟩ := hmore.keeps hw.2
    exact ⟨by simp [Parts.same, hsame, hrest], hwell, hwell'⟩
  | .absent hmore, hw => by
    obtain ⟨hrest, hwell⟩ := hmore.keeps hw
    exact ⟨by simp [Parts.same, hrest], hwell⟩
  | .keyed he hmore, hw => by
    obtain ⟨hsame, hwell⟩ := he.keeps hw.1
    obtain ⟨hrest, hwell'⟩ := hmore.keeps hw.2
    exact ⟨(Parts.same_cons _ _).mpr ⟨hsame, hrest⟩, hwell, hwell'⟩
  | .contracts hs hmore, hw => by
    obtain ⟨hsame, hwell⟩ := hs.keeps hw.1
    obtain ⟨hrest, hwell'⟩ := hmore.keeps hw.2
    exact ⟨by simp [Parts.same, hsame, hrest], hwell, hwell'⟩
theorem Entries.Reordered.keeps {m : ChildMap} {e f : Entries m} : e.Reordered f →
    e.WellFormed → e.same f = true ∧ f.WellFormed
  | .nil, _ => ⟨rfl, trivial⟩
  | .cons (d := d) (f := f) hc hmore hperm, hw => by
    obtain ⟨hcd, hd⟩ := hc.keeps hw.2.1
    obtain ⟨hsame, ho⟩ := hmore.keeps hw.2.2
    have hkeys := (Entries.Reordered.cons hc hmore hperm).keys_perm
    have hnodup : f.keys.Nodup := hkeys.nodup_iff.mp (Entries.keys_nodup hw)
    refine ⟨Entries.same_of_mem hnodup hkeys (List.forall_mem_cons.mpr ⟨?_, fun x hx => ?_⟩),
      Entries.wellFormed_iff.mpr ⟨hnodup, fun x hx => ?_⟩⟩
    · exact ⟨d, hperm.mem_iff.mp List.mem_cons_self, hcd⟩
    · obtain ⟨d', hd', hxd⟩ := Entries.mem_of_same hsame hx
      exact ⟨d', hperm.mem_iff.mp (List.mem_cons_of_mem _ hd'), hxd⟩
    · rcases List.mem_cons.mp (hperm.mem_iff.mpr hx) with rfl | hx
      · exact hd
      · exact (Entries.wellFormed_iff.mp ho).2 x hx
end

namespace Scene

variable {s s' t t' : Scene}

theorem Reordered.refl (s : Scene) : s.Reordered s :=
  ⟨.of_perm (List.Perm.refl _), .of_perm (List.Perm.refl _), List.Perm.refl _⟩

theorem Reordered.keeps (h : s.Reordered s') (hw : s.WellFormed) :
    s.same s' = true ∧ s'.WellFormed := by
  obtain ⟨hpackages, hwell⟩ := h.packages.keeps hw.1
  obtain ⟨hclasses, hwell'⟩ := h.classes.keeps hw.2
  exact ⟨Bool.and_eq_true_iff.mpr ⟨hpackages, hclasses⟩, hwell, hwell'⟩

theorem same_congr {s t : Valid} (h : s.same s' = true) (h' : t.same t' = true) :
    s.same t = s'.same t' := by
  rw [Bool.eq_iff_iff]
  constructor
  · intro hst
    exact same_trans (same_symm s.wellFormed h) (same_trans hst h')
  · intro hst
    exact same_trans h (same_trans hst (same_symm t.wellFormed h'))

end Scene

end AnnotationScene
