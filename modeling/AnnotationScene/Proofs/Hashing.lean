import AnnotationScene.Proofs.Inserting

/-!
# Hashing agrees with sameness

Data that are the same write the same to a hasher. So it does not matter which hash of these writes
a set looks its members up by: it finds a member that is the same wherever there is one. Inserting
then refuses exactly what is there already, and no run of insertions and removals ever leaves two
members in a set that are the same.
-/

namespace AnnotationScene

theorem Definition.digest_eq_of_same {d e : Definition} (h : d.same e = true) :
    d.digest = e.digest := by
  rw [Definition.digest, Definition.digest, (Definition.same_iff.mp h).1]

theorem FieldType.digest_eq_of_same (t : FieldType) {u : FieldType} (h : t.same u = true) :
    t.digest = u.digest := by
  match t with
  | .nested d =>
    cases u <;> simp only [FieldType.same, Bool.false_eq_true] at h
    rw [FieldType.digest, FieldType.digest, Definition.digest_eq_of_same h]
  | .array c =>
    cases u <;> simp only [FieldType.same, Bool.false_eq_true] at h
    rw [FieldType.digest, FieldType.digest, c.digest_eq_of_same h]
  | .basic _ | .classToken | .enum _ | .unknownArray =>
    rw [FieldType.eq_of_same h (by simp) (by simp)]

namespace AnnotationSet

variable {s : AnnotationSet}

/-- Candidates are found by what a hasher makes of the digest, and then compared. -/
def containsBy (hash : Digest → UInt64) (s : AnnotationSet) (a : Annotation) : Bool :=
  s.any fun b => hash b.digest == hash a.digest && a.isSame b

theorem containsBy_eq (hash : Digest → UInt64) (s : AnnotationSet) (a : Annotation) :
    containsBy hash s a = contains s a := by
  rw [Bool.eq_iff_iff, contains_iff]
  simp only [containsBy, List.any_eq_true, Bool.and_eq_true, beq_iff_eq, Annotation.isSame_eq]
  constructor
  · rintro ⟨b, hb, -, hab⟩
    exact ⟨b, hb, hab⟩
  · rintro ⟨b, hb, hab⟩
    exact ⟨b, hb, congrArg hash (a.digest_eq_of_same hab).symm, hab⟩

theorem insert_fst (s : AnnotationSet) (a : Annotation) : (insert s a).1 = !contains s a := by
  cases h : contains s a <;> simp [insert, h]

-- ---------------------------------------------------------------------------
-- Runs of insertions and removals
-- ---------------------------------------------------------------------------

inductive Edit
  | insert (a : Annotation)
  | erase (a : Annotation)

/-- Only what is inserted has to be well formed: it may stay. -/
def Edit.WellFormed : Edit → Prop
  | .insert a => a.WellFormed
  | .erase _ => True

def perform (s : AnnotationSet) : Edit → AnnotationSet
  | .insert a => (insert s a).2
  | .erase a => (erase s a).2

theorem wellFormedSet_erase (hs : AnnotationSet.WellFormed s) (a : Annotation) :
    AnnotationSet.WellFormed (erase s a).2 := by
  obtain ⟨hall, hapart⟩ := AnnotationSet.wellFormed_iff.mp hs
  have hsub : (erase s a).2.Sublist s := List.eraseP_sublist
  exact AnnotationSet.wellFormed_iff.mpr ⟨fun b hb => hall b (hsub.subset hb), hapart.sublist hsub⟩

theorem wellFormedSet_perform (hs : AnnotationSet.WellFormed s) {e : Edit} (he : e.WellFormed) :
    AnnotationSet.WellFormed (perform s e) := by
  cases e with
  | insert a => exact wellFormedSet_insert hs he
  | erase a => exact wellFormedSet_erase hs a

theorem wellFormedSet_foldl (hs : AnnotationSet.WellFormed s) {edits : List Edit}
    (h : ∀ e ∈ edits, e.WellFormed) : AnnotationSet.WellFormed (edits.foldl perform s) := by
  induction edits generalizing s with
  | nil => exact hs
  | cons e rest ih =>
    obtain ⟨he, hrest⟩ := List.forall_mem_cons.mp h
    exact ih (wellFormedSet_perform hs he) hrest

theorem perform_insert_of_apart {a : Annotation} (h : ∀ b ∈ s, a.same b = false) :
    perform s (.insert a) = s ++ [a] := by
  have hnew : ¬ contains s a = true := fun hc => by
    obtain ⟨b, hb, hab⟩ := contains_iff.mp hc
    nomatch hab.symm.trans (h b hb)
  rw [perform, insert, if_neg hnew]

theorem foldl_insert_self {front l : AnnotationSet} (hw : AnnotationSet.WellFormed (front ++ l)) :
    (l.map Edit.insert).foldl perform front = front ++ l := by
  induction l generalizing front with
  | nil => simp
  | cons a rest ih =>
    -- the set has it that no `b` is the same as `a`, and inserting asks it of `a` and `b`
    have hnew : ∀ b ∈ front, a.same b = false := fun b hb =>
      ((List.pairwise_append.mp hw.apart).2.2 b hb a List.mem_cons_self).2
    rw [List.append_cons] at hw ⊢
    rw [List.map_cons, List.foldl_cons, perform_insert_of_apart hnew, ih hw]

theorem wellFormedSet_iff_edits : AnnotationSet.WellFormed s ↔
    ∃ edits : List Edit, (∀ e ∈ edits, e.WellFormed) ∧ edits.foldl perform [] = s := by
  constructor
  · intro hw
    refine ⟨s.map Edit.insert, ?_, foldl_insert_self (List.nil_append s ▸ hw)⟩
    exact List.forall_mem_map.mpr (AnnotationSet.wellFormed_iff.mp hw).1
  · rintro ⟨edits, hedits, rfl⟩
    exact wellFormedSet_foldl (s := []) trivial hedits

end AnnotationSet

open AnnotationSet (containsBy insert perform Edit)

/-- Same data write the same to a hasher. Looking up by any hash of the writes finds what is the
same, inserting is refused exactly then, and the sets that insertions and removals make are those
that do not hold two members that are the same. -/
theorem digest_respects_same :
    (∀ d e : Definition, d.same e = true → d.digest = e.digest) ∧
      (∀ t u : FieldType, t.same u = true → t.digest = u.digest) ∧
      (∀ a b : Annotation, a.same b = true → a.digest = b.digest) ∧
      (∀ v w : Value, v.same w = true → v.digest = w.digest) ∧
      (∀ (hash : Digest → UInt64) (s : AnnotationSet) (a : Annotation),
        containsBy hash s a = true ↔ ∃ b ∈ s, a.same b = true) ∧
      (∀ (s : AnnotationSet) (a : Annotation),
        (insert s a).1 = false ↔ ∃ b ∈ s, a.same b = true) ∧
      (∀ edits : List Edit, (∀ e ∈ edits, e.WellFormed) →
        (edits.foldl perform []).Pairwise fun a b => a.same b = false ∧ b.same a = false) ∧
      ∀ s : AnnotationSet, AnnotationSet.WellFormed s ↔
        ∃ edits : List Edit, (∀ e ∈ edits, e.WellFormed) ∧ edits.foldl perform [] = s := by
  refine ⟨?_, ?_, ?_, ?_, ?_, ?_, ?_, ?_⟩
  · intro d e h
    exact Definition.digest_eq_of_same h
  · intro t u h
    exact t.digest_eq_of_same h
  · intro a b h
    exact a.digest_eq_of_same h
  · intro v w h
    exact v.digest_eq_of_same h
  · intro hash s a
    rw [AnnotationSet.containsBy_eq, AnnotationSet.contains_iff]
  · intro s a
    rw [AnnotationSet.insert_fst, Bool.not_eq_false', AnnotationSet.contains_iff]
  · intro edits hedits
    exact (AnnotationSet.wellFormedSet_foldl (s := []) trivial hedits).apart
  · intro s
    exact AnnotationSet.wellFormedSet_iff_edits

/-- A value that is no number is found by its bits, and the source does not count. -/
theorem digest_respects_same_nan :
    let mark (source : String) (bits : UInt64) : Annotation :=
      ⟨.ofName "M" source, [("x", .array [.double bits])]⟩
    let nan : UInt64 := 0x7ff8000000000000
    let edits : List Edit :=
      [.insert (mark "p" nan), .insert (mark "p" 0), .erase (mark "q" 0), .insert (mark "q" nan)]
    (∀ e ∈ edits, e.WellFormed) ∧ (mark "p" nan).digest = (mark "q" nan).digest ∧
      (insert (edits.foldl perform []) (mark "r" nan)).1 = false ∧
      (edits.foldl perform []).map (fun a => a.definition.source) = ["p"] ∧
      (edits.foldl perform []).Pairwise fun a b => a.same b = false ∧ b.same a = false := by
  intro mark nan edits
  have hedits : ∀ e ∈ edits, e.WellFormed := by
    simp [edits, mark, Edit.WellFormed, Annotation.WellFormed, Definition.ofName,
      Definition.WellFormed, AnnotationSet.WellFormed, Value.WellFormedTable, Value.WellFormed,
      Value.WellFormedList]
  have hrun : edits.foldl perform [] = [mark "p" nan] := by rfl
  obtain ⟨-, -, hdigest, -, -, hinsert, hapart, -⟩ := digest_respects_same
  refine ⟨hedits, hdigest _ _ (by decide +kernel), ?_, by rw [hrun]; rfl, hapart edits hedits⟩
  rw [hrun]
  exact (hinsert _ _).mpr ⟨mark "p" nan, List.mem_singleton.mpr rfl, by decide +kernel⟩

end AnnotationScene
