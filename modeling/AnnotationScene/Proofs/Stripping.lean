import AnnotationScene.Proofs.Fitting
import AnnotationScene.Proofs.Reordering

/-!
# What sameness ignores

Three things about annotations do not count: where a definition was found, in which order a set
lists its members, and whether a definition has an empty field table or none. Stripping takes away
the first and the third, at every depth. Data are the same exactly if, stripped, they differ in the
order of their sets only. So sameness is an equivalence, and whether a type accepts a value is a
question that same types answer alike, and same values too.
-/

namespace AnnotationScene

-- ---------------------------------------------------------------------------
-- Stripped data
-- ---------------------------------------------------------------------------

mutual
def FieldType.stripped : FieldType → FieldType
  | .basic type => .basic type
  | .classToken => .classToken
  | .enum typeName => .enum typeName
  | .nested d => .nested d.stripped
  | .array c => .array c.stripped
  | .unknownArray => .unknownArray
/-- No source, and always a field table. -/
def Definition.stripped : Definition → Definition
  | ⟨name, metas, none, _⟩ => ⟨name, AnnotationSet.stripped metas, some [], ""⟩
  | ⟨name, metas, some fields, _⟩ =>
    ⟨name, AnnotationSet.stripped metas, some (FieldType.stripTable fields), ""⟩
def Annotation.stripped : Annotation → Annotation
  | ⟨definition, values⟩ => ⟨definition.stripped, Value.stripTable values⟩
def Value.stripped : Value → Value
  | .nested a => .nested a.stripped
  | .array vs => .array (Value.stripList vs)
  | .byte v => .byte v
  | .short v => .short v
  | .char v => .char v
  | .int v => .int v
  | .long v => .long v
  | .float bits => .float bits
  | .double bits => .double bits
  | .boolean v => .boolean v
  | .string v => .string v
  | .classToken name => .classToken name
  | .enum typeName constant => .enum typeName constant
def AnnotationSet.stripped : List Annotation → List Annotation
  | [] => []
  | a :: rest => a.stripped :: AnnotationSet.stripped rest
def FieldType.stripTable : List (String × FieldType) → List (String × FieldType)
  | [] => []
  | (n, t) :: rest => (n, t.stripped) :: FieldType.stripTable rest
def Value.stripTable : List (String × Value) → List (String × Value)
  | [] => []
  | (n, v) :: rest => (n, v.stripped) :: Value.stripTable rest
def Value.stripList : List Value → List Value
  | [] => []
  | v :: rest => v.stripped :: Value.stripList rest
end

theorem AnnotationSet.stripped_eq_map (s : List Annotation) :
    AnnotationSet.stripped s = s.map Annotation.stripped := by
  induction s with
  | nil => rfl
  | cons a rest ih => rw [AnnotationSet.stripped, ih, List.map_cons]

theorem Definition.stripped_eq (d : Definition) :
    d.stripped = ⟨d.name, AnnotationSet.stripped d.metas,
      some (FieldType.stripTable d.fieldTable), ""⟩ := by
  obtain ⟨name, metas, _ | fields, source⟩ := d <;> rfl

mutual
theorem FieldType.stripped_keeps : (t : FieldType) → t.WellFormed →
    t.same t.stripped = true ∧ t.stripped.WellFormed
  | .nested d, hw => d.stripped_keeps hw
  | .array c, hw => c.stripped_keeps hw
  | .basic _, hw | .classToken, hw | .enum _, hw | .unknownArray, hw =>
    ⟨FieldType.same_refl _, hw⟩
theorem Definition.stripped_keeps : (d : Definition) → d.WellFormed →
    d.same d.stripped = true ∧ d.stripped.WellFormed
  | ⟨name, metas, none, source⟩, hw => by
    obtain ⟨hsame, hwell⟩ := AnnotationSet.stripped_keeps metas hw
    exact ⟨Definition.same_iff.mpr ⟨rfl, hsame, rfl⟩, hwell, trivial⟩
  | ⟨name, metas, some fields, source⟩, hw => by
    obtain ⟨hsame, hwell⟩ := AnnotationSet.stripped_keeps metas hw.1
    obtain ⟨htable, hwell'⟩ := FieldType.stripTable_keeps fields hw.2
    exact ⟨Definition.same_iff.mpr ⟨rfl, hsame, htable⟩, hwell, hwell'⟩
theorem Annotation.stripped_keeps : (a : Annotation) → a.WellFormed →
    a.same a.stripped = true ∧ a.stripped.WellFormed
  | ⟨definition, values⟩, hw => by
    obtain ⟨hsame, hwell⟩ := definition.stripped_keeps hw.1
    obtain ⟨htable, hwell'⟩ := Value.stripTable_keeps values hw.2
    refine ⟨?_, hwell, hwell'⟩
    exact Annotation.same_iff.mpr ⟨hsame, htable⟩
theorem Value.stripped_keeps : (v : Value) → v.WellFormed →
    v.same v.stripped = true ∧ v.stripped.WellFormed
  | .nested a, hw => a.stripped_keeps hw
  | .array vs, hw => Value.stripList_keeps vs hw
  | .byte _, hw | .short _, hw | .char _, hw | .int _, hw | .long _, hw | .float _, hw
  | .double _, hw | .boolean _, hw | .string _, hw | .classToken _, hw | .enum _ _, hw =>
    ⟨Value.same_refl _, hw⟩
theorem AnnotationSet.stripped_keeps : (s : List Annotation) → AnnotationSet.WellFormed s →
    AnnotationSet.same s (AnnotationSet.stripped s) = true ∧
      AnnotationSet.WellFormed (AnnotationSet.stripped s)
  | [], _ => ⟨rfl, trivial⟩
  | a :: rest, hw => by
    obtain ⟨ha, hwell⟩ := a.stripped_keeps hw.1
    obtain ⟨hrest, hwell'⟩ := AnnotationSet.stripped_keeps rest hw.2.2
    refine ⟨?_, hw.cons_of_same hwell hwell' ha hrest⟩
    rw [AnnotationSet.same_iff, AnnotationSet.stripped_eq_map, List.length_map]
    refine ⟨rfl, List.forall_mem_cons.mpr ⟨⟨_, List.mem_cons_self, ha⟩, fun b hb => ?_⟩⟩
    obtain ⟨c, hc, hbc⟩ := (AnnotationSet.same_iff.mp hrest).2 b hb
    exact ⟨c, List.mem_cons_of_mem _ (AnnotationSet.stripped_eq_map rest ▸ hc), hbc⟩
theorem FieldType.stripTable_keeps : (t : List (String × FieldType)) →
    FieldType.WellFormedTable t →
    FieldType.sameTable t (FieldType.stripTable t) = true ∧
      FieldType.WellFormedTable (FieldType.stripTable t)
  | [], _ => ⟨rfl, trivial⟩
  | (n, t) :: rest, hw => by
    obtain ⟨ht, hwell⟩ := t.stripped_keeps hw.1
    obtain ⟨hrest, hwell'⟩ := FieldType.stripTable_keeps rest hw.2
    exact ⟨by simp [FieldType.stripTable, FieldType.sameTable, ht, hrest], hwell, hwell'⟩
theorem Value.stripTable_keeps : (t : List (String × Value)) → Value.WellFormedTable t →
    Value.sameTable t (Value.stripTable t) = true ∧ Value.WellFormedTable (Value.stripTable t)
  | [], _ => ⟨rfl, trivial⟩
  | (n, v) :: rest, hw => by
    obtain ⟨hv, hwell⟩ := v.stripped_keeps hw.1
    obtain ⟨hrest, hwell'⟩ := Value.stripTable_keeps rest hw.2
    exact ⟨by simp [Value.stripTable, Value.sameTable, hv, hrest], hwell, hwell'⟩
theorem Value.stripList_keeps : (l : List Value) → Value.WellFormedList l →
    Value.sameList l (Value.stripList l) = true ∧ Value.WellFormedList (Value.stripList l)
  | [], _ => ⟨rfl, trivial⟩
  | v :: rest, hw => by
    obtain ⟨hv, hwell⟩ := v.stripped_keeps hw.1
    obtain ⟨hrest, hwell'⟩ := Value.stripList_keeps rest hw.2
    exact ⟨by simp [Value.stripList, Value.sameList, hv, hrest], hwell, hwell'⟩
end

-- ---------------------------------------------------------------------------
-- The same up to order
-- ---------------------------------------------------------------------------

mutual
theorem FieldType.reordered_of_same : (t : FieldType) → t.WellFormed → {u : FieldType} →
    t.same u = true → t.stripped.Reordered u.stripped
  | .nested d, hw, u, h => by
    cases u <;> simp only [FieldType.same, Bool.false_eq_true] at h
    exact .nested (d.reordered_of_same hw h)
  | .array c, hw, u, h => by
    cases u <;> simp only [FieldType.same, Bool.false_eq_true] at h
    exact .array (c.reordered_of_same hw h)
  | .basic _, _, _, h | .classToken, _, _, h | .enum _, _, _, h | .unknownArray, _, _, h =>
    FieldType.eq_of_same h (by simp) (by simp) ▸ .refl _
theorem Definition.reordered_of_same : (d : Definition) → d.WellFormed → {e : Definition} →
    d.same e = true → d.stripped.Reordered e.stripped
  | ⟨name, metas, none, source⟩, hw, e, h => by
    obtain ⟨rfl, hmetas, htable⟩ := Definition.same_iff.mp h
    have hempty : e.fieldTable = [] := by
      simpa [Definition.fieldTable, FieldType.sameTable_nil_left] using htable
    rw [e.stripped_eq, hempty]
    exact .ofFields (AnnotationSet.reordered_of_same metas hw hmetas) .nil
  | ⟨name, metas, some fields, source⟩, hw, e, h => by
    obtain ⟨rfl, hmetas, htable⟩ := Definition.same_iff.mp h
    rw [e.stripped_eq]
    exact .ofFields (AnnotationSet.reordered_of_same metas hw.1 hmetas)
      (FieldType.reorderedTable_of_same fields hw.2 htable)
theorem Annotation.reordered_of_same : (a : Annotation) → a.WellFormed → {b : Annotation} →
    a.same b = true → a.stripped.Reordered b.stripped
  | ⟨definition, values⟩, hw, ⟨definition', values'⟩, h => by
    obtain ⟨hd, hv⟩ := Annotation.same_iff.mp h
    exact .mk (definition.reordered_of_same hw.1 hd) (Value.reorderedTable_of_same values hw.2 hv)
theorem Value.reordered_of_same : (v : Value) → v.WellFormed → {w : Value} →
    v.same w = true → v.stripped.Reordered w.stripped
  | .nested a, hw, w, h => by
    cases w <;> simp only [Value.same, Bool.false_eq_true] at h
    exact .nested (a.reordered_of_same hw h)
  | .array vs, hw, w, h => by
    cases w <;> simp only [Value.same, Bool.false_eq_true] at h
    exact .array (Value.reorderedList_of_same vs hw h)
  | .byte _, _, _, h | .short _, _, _, h | .char _, _, _, h | .int _, _, _, h | .long _, _, _, h
  | .float _, _, _, h | .double _, _, _, h | .boolean _, _, _, h | .string _, _, _, h
  | .classToken _, _, _, h | .enum _ _, _, _, h =>
    Value.eq_of_same h (by simp) (by simp) ▸ .refl _
theorem AnnotationSet.reordered_of_same : (s : List Annotation) → AnnotationSet.WellFormed s →
    {t : List Annotation} → AnnotationSet.same s t = true →
    AnnotationSet.Reordered (AnnotationSet.stripped s) (AnnotationSet.stripped t)
  | [], _, t, h => by
    obtain rfl := List.length_eq_zero_iff.mp (AnnotationSet.same_iff.mp h).1.symm
    exact .nil
  | a :: rest, hw, t, h => by
    obtain ⟨hlen, hfound⟩ := AnnotationSet.same_iff.mp h
    have hapart := AnnotationSet.apart_of_mem hw (AnnotationSet.forall_mem_symm _ hw)
    -- `a` takes the place of `b`, and the others are found around it
    obtain ⟨front, b, back, rfl, hab, hothers⟩ := exists_rest_of_matched hapart hfound
    have hrest : AnnotationSet.same rest (front ++ back) = true := by
      refine AnnotationSet.same_iff.mpr ⟨?_, hothers⟩
      simp only [List.length_append, List.length_cons] at hlen ⊢
      omega
    refine .cons (a.reordered_of_same hw.1 hab)
      (AnnotationSet.reordered_of_same rest hw.2.2 hrest) ?_
    simp only [AnnotationSet.stripped_eq_map, List.map_append, List.map_cons]
    exact List.perm_middle.symm
theorem FieldType.reorderedTable_of_same : (t : List (String × FieldType)) →
    FieldType.WellFormedTable t → {u : List (String × FieldType)} →
    FieldType.sameTable t u = true →
    FieldType.ReorderedTable (FieldType.stripTable t) (FieldType.stripTable u)
  | [], _, u, h => by
    cases u <;> simp only [FieldType.sameTable, Bool.false_eq_true] at h
    exact .nil
  | (n, t) :: rest, hw, u, h => by
    cases u <;> simp only [FieldType.sameTable, Bool.false_eq_true] at h
    simp only [Bool.and_eq_true, beq_iff_eq] at h
    obtain ⟨⟨rfl, ht⟩, hrest⟩ := h
    exact .cons (t.reordered_of_same hw.1 ht) (FieldType.reorderedTable_of_same rest hw.2 hrest)
theorem Value.reorderedTable_of_same : (t : List (String × Value)) → Value.WellFormedTable t →
    {u : List (String × Value)} → Value.sameTable t u = true →
    Value.ReorderedTable (Value.stripTable t) (Value.stripTable u)
  | [], _, u, h => by
    cases u <;> simp only [Value.sameTable, Bool.false_eq_true] at h
    exact .nil
  | (n, v) :: rest, hw, u, h => by
    cases u <;> simp only [Value.sameTable, Bool.false_eq_true] at h
    simp only [Bool.and_eq_true, beq_iff_eq] at h
    obtain ⟨⟨rfl, hv⟩, hrest⟩ := h
    exact .cons (v.reordered_of_same hw.1 hv) (Value.reorderedTable_of_same rest hw.2 hrest)
theorem Value.reorderedList_of_same : (l : List Value) → Value.WellFormedList l →
    {m : List Value} → Value.sameList l m = true →
    Value.ReorderedList (Value.stripList l) (Value.stripList m)
  | [], _, m, h => by
    cases m <;> simp only [Value.sameList, Bool.false_eq_true] at h
    exact .nil
  | v :: rest, hw, m, h => by
    cases m <;> simp only [Value.sameList, Bool.false_eq_true] at h
    simp only [Bool.and_eq_true] at h
    exact .cons (v.reordered_of_same hw.1 h.1) (Value.reorderedList_of_same rest hw.2 h.2)
end

/-- `same` decides an equivalence of valid values: stripped, they differ in order only. -/
structure IsSameness {α : Type} (Valid : α → Prop) (same : α → α → Bool)
    (Reordered : α → α → Prop) (strip : α → α) : Prop where
  equivalence : Equivalence fun a b : { a : α // Valid a } => same a.1 b.1 = true
  iff_reordered : ∀ a b, Valid a → Valid b →
    (same a b = true ↔ Reordered (strip a) (strip b))

/-- What stripping and reordering keep is all that there is to be shown. -/
theorem IsSameness.of_keeps {α : Type} {Valid : α → Prop} {same : α → α → Bool}
    {Reordered : α → α → Prop} {strip : α → α} (hrefl : ∀ a, same a a = true)
    (hsymm : ∀ a, Valid a → ∀ {b}, same a b = true → same b a = true)
    (htrans : ∀ a, ∀ {b c}, same a b = true → same b c = true → same a c = true)
    (hstrip : ∀ a, Valid a → same a (strip a) = true ∧ Valid (strip a))
    (hkeeps : ∀ {a b}, Reordered a b → Valid a → same a b = true ∧ Valid b)
    (hreordered : ∀ a, Valid a → ∀ {b}, same a b = true → Reordered (strip a) (strip b)) :
    IsSameness Valid same Reordered strip where
  equivalence := ⟨fun a => hrefl a.1, fun {a _} h => hsymm a.1 a.2 h, fun h h' => htrans _ h h'⟩
  iff_reordered a b ha hb := by
    refine ⟨hreordered a ha, fun h => ?_⟩
    obtain ⟨haa, hwell⟩ := hstrip a ha
    obtain ⟨hab, -⟩ := hkeeps h hwell
    have hbb : same (strip b) b = true := hsymm b hb (hstrip b hb).1
    exact htrans a haa (htrans (strip a) hab hbb)

/-- Sameness is an equivalence of each kind of data. It ignores sources, orders of sets and empty
field tables at every depth and nothing else, so floating point values have to have the same bits.
Same types accept the same values, and same values are accepted by the same types. -/
theorem same_isSameness :
    IsSameness Value.WellFormed Value.same Value.Reordered Value.stripped ∧
      IsSameness Annotation.WellFormed Annotation.same Annotation.Reordered Annotation.stripped ∧
      IsSameness FieldType.WellFormed FieldType.same FieldType.Reordered FieldType.stripped ∧
      IsSameness Definition.WellFormed Definition.same Definition.Reordered Definition.stripped ∧
      IsSameness AnnotationSet.WellFormed AnnotationSet.same AnnotationSet.Reordered
        AnnotationSet.stripped ∧
      (∀ b c, Value.same (.float b) (.float c) = true ↔ b = c) ∧
      (∀ b c, Value.same (.double b) (.double c) = true ↔ b = c) ∧
      (∀ t u v, FieldType.same t u = true → t.accepts v = u.accepts v) ∧
      ∀ t v w, Value.same v w = true → FieldType.accepts t v = t.accepts w := by
  refine ⟨?_, ?_, ?_, ?_, ?_, ?_, ?_, ?_, ?_⟩
  · exact .of_keeps Value.same_refl Value.same_symm Value.same_trans
      Value.stripped_keeps Value.Reordered.keeps Value.reordered_of_same
  · exact .of_keeps Annotation.same_refl Annotation.same_symm Annotation.same_trans
      Annotation.stripped_keeps Annotation.Reordered.keeps Annotation.reordered_of_same
  · exact .of_keeps FieldType.same_refl FieldType.same_symm FieldType.same_trans
      FieldType.stripped_keeps FieldType.Reordered.keeps FieldType.reordered_of_same
  · exact .of_keeps Definition.same_refl Definition.same_symm Definition.same_trans
      Definition.stripped_keeps Definition.Reordered.keeps Definition.reordered_of_same
  · exact .of_keeps AnnotationSet.same_refl (fun _ hs => AnnotationSet.same_symm hs)
      (fun _ => AnnotationSet.same_trans) AnnotationSet.stripped_keeps
      AnnotationSet.Reordered.keeps AnnotationSet.reordered_of_same
  · intro b c
    rw [Value.same, beq_iff_eq]
  · intro b c
    rw [Value.same, beq_iff_eq]
  · intro t u v h
    exact t.accepts_of_same h v
  · intro t v w h
    exact t.accepts_of_same_value h

/-- Two ways to write one definition down. A bit pattern that stands for no number is the same as
itself, and the two patterns of zero are not the same as each other. -/
theorem same_isSameness_two_ways :
    let mark (source : String) (bits : UInt64) : Annotation :=
      ⟨.ofName "M" source, [("x", .double bits)]⟩
    let zero : UInt64 := 0
    let negativeZero : UInt64 := 0x8000000000000000
    let nan : UInt64 := 0x7ff8000000000000
    let d : Definition := ⟨"A", [mark "p" nan, mark "p" zero], none, "p"⟩
    let e : Definition := ⟨"A", [mark "q" zero, mark "q" nan], some [], "q"⟩
    d.WellFormed ∧ e.WellFormed ∧ d.same e = true ∧ e.same d = true ∧
      d.stripped.Reordered e.stripped ∧ (mark "p" zero).same (mark "p" negativeZero) = false ∧
      ∀ v, FieldType.accepts (.array (.nested d)) v = FieldType.accepts (.array (.nested e)) v := by
  intro mark zero negativeZero nan d e
  have hd : d.WellFormed := by decide +kernel
  have he : e.WellFormed := by decide +kernel
  have hsame : d.same e = true := by decide +kernel
  obtain ⟨-, -, -, hdefinition, -, -, -, haccepts, -⟩ := same_isSameness
  have hback : e.same d = true := hdefinition.equivalence.symm (x := ⟨d, hd⟩) (y := ⟨e, he⟩) hsame
  refine ⟨hd, he, hsame, hback, (hdefinition.iff_reordered d e hd he).mp hsame, ?_, fun v => ?_⟩
  · decide +kernel
  · exact haccepts _ _ v hsame

end AnnotationScene
