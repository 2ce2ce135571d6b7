import AnnotationScene.Scene.Copy

/-!
# What a check of a copy reports

The comparisons of two scenes are listed with the path at which each is made, without a checker
and its stack. A check of two scenes that are not one object reports the first comparison in this
list that fails, and leaves its stack as it found it. So no segment of a part that was left stays
on the path, however the parts are nested, and neither sharing nor a mismatch of kinds is reported.
-/

namespace AnnotationScene

-- ---------------------------------------------------------------------------
-- The comparisons of two scenes
-- ---------------------------------------------------------------------------

structure Comparison where
  path : List String
  aspect : Aspect
  agrees : Bool
deriving DecidableEq, Repr

def Detail.comparisons (path : List String) : (k : Kind) → Detail k → Detail k → List Comparison
  | .plain, _, _ => []
  | .type, _, _ => []
  | .cast, d, e => [⟨path, .targets, d.target == e.target⟩]
  | .declaration, _, _ => []
  | .expression, _, _ => []
  | .block, _, _ => []
  | .field, d, e =>
    [⟨path, .fieldNames, d.name == e.name⟩, ⟨path, .typeTexts, d.typeText == e.typeText⟩]
  | .method, d, e =>
    [⟨path, .signatures, d.signature == e.signature⟩,
      ⟨path, .returnTexts, d.returnText == e.returnText⟩,
      ⟨path, .typeParameters, d.typeParameters == e.typeParameters⟩]
  | .classType, d, e =>
    [⟨path, .classNames, d.name == e.name⟩,
      ⟨path, .enumConstants, d.enumConstants == e.enumConstants⟩,
      ⟨path, .classKinds, d.marks == e.marks⟩]

def Header.comparisons {k : Kind} (path : List String) (g h : Header k) : List Comparison :=
  Detail.comparisons path k g.detail h.detail ++
    [⟨path, .annotationSets, AnnotationSet.same g.annotations h.annotations⟩]

mutual
def Element.comparisons {k : Kind} (path : List String) : Element k → Element k → List Comparison
  | .mk header parts, .mk header' parts' =>
    header.comparisons path header' ++ parts.comparisons path parts'
termination_by structural e => e
def Parts.comparisons {layout : List Slot} (path : List String) :
    Parts layout → Parts layout → List Comparison
  | .nil, .nil => []
  | .fixed (f := f) child more, .fixed child' more' =>
    child.comparisons (path ++ [f.label]) child' ++ more.comparisons path more'
  | .absent (o := o) more, .absent more' =>
    ⟨path, o.aspect, true⟩ :: more.comparisons path more'
  | .absent (o := o) more, .present _ more' =>
    ⟨path, o.aspect, false⟩ :: more.comparisons path more'
  | .present (o := o) _ more, .absent more' =>
    ⟨path, o.aspect, false⟩ :: more.comparisons path more'
  | .present (o := o) child more, .present child' more' =>
    ⟨path, o.aspect, true⟩ :: child.comparisons (path ++ [o.label]) child' ++
      more.comparisons path more'
  | .keyed (m := m) entries more, .keyed entries' more' =>
    ⟨path ++ [m.label], .mapKeys, entries.toMap.sameKeys entries'.toMap⟩ ::
      entries.comparisons (path ++ [m.label]) entries' ++ more.comparisons path more'
  | .contracts set more, .contracts set' more' =>
    ⟨path, .annotationSets, AnnotationSet.same set set'⟩ :: more.comparisons path more'
termination_by structural p => p
def Entries.comparisons {m : ChildMap} (path : List String) :
    Entries m → Entries m → List Comparison
  | .nil, _ => []
  | .cons key child more, other =>
    (match other.get? key with
      | some child' => child.comparisons (path ++ [m.renderKey key]) child'
      | none => [⟨path, .mapKeys, false⟩]) ++ more.comparisons path other
termination_by structural e => e
end

def Scene.comparisons (s t : Scene) : List Comparison :=
  s.parts.comparisons [] t.parts ++ [⟨[], .importTables, s.sameImports t⟩]

-- ---------------------------------------------------------------------------
-- Reports
-- ---------------------------------------------------------------------------

namespace Comparison

/-- The answer of a checker that makes these comparisons one after the other. -/
def firstFault : List Comparison → Except CopyError Unit
  | [] => .ok ()
  | c :: rest => if c.agrees then firstFault rest else .error ⟨c.path, .differ c.aspect⟩

theorem firstFault_append_of_ok {l l' : List Comparison} (h : firstFault l = .ok ()) :
    firstFault (l ++ l') = firstFault l' := by
  induction l with
  | nil => rfl
  | cons c rest ih =>
    rw [firstFault] at h
    rw [List.cons_append, firstFault]
    split at h
    next hc => rw [if_pos hc, ih h]
    next => cases h

theorem firstFault_append_of_error {l l' : List Comparison} {e : CopyError}
    (h : firstFault l = .error e) : firstFault (l ++ l') = .error e := by
  induction l with
  | nil => cases h
  | cons c rest ih =>
    rw [firstFault] at h
    rw [List.cons_append, firstFault]
    split at h
    next hc => rw [if_pos hc, ih h]
    next hc => rw [if_neg hc, h]

end Comparison

/-- Of two scenes with different owners, no part of the one is a part of the other. -/
def ObjectId.Apart (x y : ObjectId) : Prop := x.owner ≠ y.owner

theorem ObjectId.Apart.ne {x y : ObjectId} (h : x.Apart y) : x ≠ y :=
  fun heq => h (congrArg ObjectId.owner heq)

theorem ObjectId.Apart.child {x y : ObjectId} (h : x.Apart y) (s : Step) :
    (x.child s).Apart (y.child s) := h

namespace Check

variable {c c' : Check} {cs : List Check} {path : List String} {l l' : List Comparison}

/-- From a path, the check gives the answer of the comparisons and leaves that path again. -/
def Reports (c : Check) (path : List String) (l : List Comparison) : Prop :=
  c path = (Comparison.firstFault l, path)

namespace Reports

theorem pass : Check.pass.Reports path [] := rfl

theorem andThen (h : c.Reports path l) (h' : c'.Reports path l') :
    (c.andThen c').Reports path (l ++ l') := by
  rw [Reports, Check.andThen, h]
  cases hl : Comparison.firstFault l with
  | ok u =>
    rw [Comparison.firstFault_append_of_ok hl]
    exact h'
  | error e => rw [Comparison.firstFault_append_of_error hl]

theorem nil : (Check.all []).Reports path [] := pass

theorem cons (h : c.Reports path l) (h' : (Check.all cs).Reports path l') :
    (Check.all (c :: cs)).Reports path (l ++ l') :=
  h.andThen h'

theorem single (h : c.Reports path l) : (Check.all [c]).Reports path l := by
  simpa using h.cons nil

/-- What is pushed is popped, and the comparisons are those of the longer path. -/
theorem under {segment : String} (h : c.Reports (path ++ [segment]) l) :
    (Check.under segment c).Reports path l := by
  rw [Reports, Check.under, h]
  simp

theorem distinct {x y : ObjectId} (hne : x.Apart y) (what : String) :
    (Check.distinct what x y).Reports path [] := by
  rw [Check.distinct, if_neg hne.ne]
  exact pass

theorem allDistinct {x y : ObjectId} (hne : x.Apart y) (whats : List String) :
    (Check.all (whats.map fun what => .distinct what x y)).Reports path [] := by
  induction whats with
  | nil => exact nil
  | cons what rest ih => exact (distinct hne what).cons ih

theorem same (aspect : Aspect) (agree : Bool) :
    (Check.same aspect agree).Reports path [⟨path, aspect, agree⟩] := by
  cases agree <;> rfl

theorem fail (aspect : Aspect) :
    (Check.fail (.differ aspect)).Reports path (⟨path, aspect, false⟩ :: l) := rfl

theorem agree (h : c.Reports path l) {aspect : Aspect} :
    c.Reports path (⟨path, aspect, true⟩ :: l) := h

end Reports

end Check

-- ---------------------------------------------------------------------------
-- Elements
-- ---------------------------------------------------------------------------

open Check (Reports)

theorem AnnotationSet.check_reports {x y : ObjectId} (hne : x.Apart y)
    (s t : AnnotationSet) {path : List String} : (AnnotationSet.check x y s t).Reports path
      [⟨path, .annotationSets, AnnotationSet.same s t⟩] :=
  (Reports.distinct hne _).cons (.single (.same _ _))

theorem Detail.check_reports (k : Kind) (d e : Detail k) {path : List String} :
    (Detail.check k d e).Reports path (Detail.comparisons path k d e) := by
  cases k with
  | plain | type | declaration | expression | block => exact .pass
  | cast => exact .same _ _
  | field => exact (Reports.same _ _).cons (.single (.same _ _))
  | method | classType =>
    exact (Reports.same _ _).cons ((Reports.same _ _).cons (.single (.same _ _)))

theorem Header.check_reports {k : Kind} {x y : ObjectId} (hne : x.Apart y)
    (g h : Header k) {path : List String} :
    (g.check x y h).Reports path (g.comparisons path h) :=
  (Reports.allDistinct hne _).cons ((Detail.check_reports k _ _).cons
    ((Reports.allDistinct hne _).cons (.single (AnnotationSet.check_reports hne _ _))))

mutual
theorem Element.check_reports {k : Kind} : (e : Element k) → {x y : ObjectId} →
    x.Apart y → (f : Element k) → {path : List String} →
    (e.check x y (.element ⟨k, f⟩)).Reports path (e.comparisons path f)
  | .mk header parts, x, y, hne, .mk header' parts', path => by
    rw [Element.check, dif_pos rfl, Element.comparisons]
    exact (header.check_reports hne header').andThen (parts.check_reports hne parts')
termination_by structural e => e
theorem Parts.check_reports : {layout : List Slot} → (p : Parts layout) → {x y : ObjectId} →
    x.Apart y → (q : Parts layout) → {path : List String} →
    (p.check x y q).Reports path (p.comparisons path q)
  | _, .nil, _, _, _, .nil, _ => .pass
  | _, .fixed child more, x, y, hne, .fixed child' more', path => by
    rw [Parts.check, Parts.comparisons]
    exact (child.check_reports (hne.child _) child').under.andThen (more.check_reports hne more')
  | _, .absent more, x, y, hne, .absent more', path => by
    rw [Parts.check, Parts.comparisons]
    exact (more.check_reports hne more').agree
  | _, .absent _, _, _, _, .present _ _, _ => by
    rw [Parts.check, Parts.comparisons]
    exact .fail _
  | _, .present _ _, _, _, _, .absent _, _ => by
    rw [Parts.check, Parts.comparisons]
    exact .fail _
  | _, .present child more, x, y, hne, .present child' more', path => by
    rw [Parts.check, Parts.comparisons]
    refine Reports.agree (.andThen (.under ?_) (more.check_reports hne more'))
    exact child.check_reports (hne.child _) child'
  | _, .keyed entries more, x, y, hne, .keyed entries' more', path => by
    rw [Parts.check, Parts.comparisons]
    refine Reports.andThen (.under ?_) (more.check_reports hne more')
    exact (Reports.distinct hne _).cons ((Reports.same _ _).cons
      (.single (entries.check_reports hne entries')))
  | _, .contracts set more, x, y, hne, .contracts set' more', path => by
    rw [Parts.check, Parts.comparisons]
    exact (AnnotationSet.check_reports hne set set').andThen (more.check_reports hne more')
termination_by structural _ p => p
theorem Entries.check_reports {m : ChildMap} : (e : Entries m) → {x y : ObjectId} →
    x.Apart y → (f : Entries m) → {path : List String} →
    (e.check x y f).Reports path (e.comparisons path f)
  | .nil, _, _, _, _, _ => .pass
  | .cons key child more, x, y, hne, f, path => by
    rw [Entries.check, Entries.comparisons]
    refine Reports.andThen ?_ (more.check_reports hne f)
    cases f.get? key with
    | none => exact .fail _
    | some child' => exact (child.check_reports (hne.child _) child').under
termination_by structural e => e
end

-- ---------------------------------------------------------------------------
-- Scenes
-- ---------------------------------------------------------------------------

namespace Scene

theorem copyCheck_reports {left right : Owner} (hne : left ≠ right) (s t : Scene) :
    (s.copyCheck left right t).Reports [] (s.comparisons t) := by
  have hapart : ObjectId.Apart ⟨left, []⟩ ⟨right, []⟩ := hne
  exact (Reports.distinct hapart _).cons ((s.parts.check_reports hapart t.parts).cons
    ((Reports.distinct hapart _).cons (.single (.same _ _))))

theorem checkCopy_eq {left right : Owner} (hne : left ≠ right) (s t : Scene) :
    s.checkCopy left right t = (Comparison.firstFault (s.comparisons t)).map fun _ =>
      [.copyVerified s.classes.size s.packages.size] := by
  rw [checkCopy, copyCheck_reports hne]

end Scene

end AnnotationScene
