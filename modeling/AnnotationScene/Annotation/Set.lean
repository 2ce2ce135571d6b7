import AnnotationScene.Annotation.Sharing

/-!
# Sets of annotations

A set lists its members in order of insertion, no two of them the same. Members are found by
digest, which is what a hash of the annotation is computed from: same annotations have the same
digest.
-/

namespace AnnotationScene

inductive DigestWord
  | tag (index : Nat)
  | count (n : Nat)
  | number (n : Int)
  | text (s : String)
deriving DecidableEq

abbrev Digest := List DigestWord

def BasicType.index : BasicType → Nat
  | .byte => 0
  | .short => 1
  | .char => 2
  | .int => 3
  | .long => 4
  | .float => 5
  | .double => 6
  | .boolean => 7
  | .string => 8

/-- A definition is known by its name alone. -/
def Definition.digest (d : Definition) : Digest := [.text d.name]

def FieldType.digest : FieldType → Digest
  | .basic t => [.tag 0, .tag t.index]
  | .classToken => [.tag 1]
  | .enum n => [.tag 2, .text n]
  | .nested d => .tag 3 :: d.digest
  | .array c => .tag 4 :: .tag 1 :: c.digest
  | .unknownArray => [.tag 4, .tag 0]

mutual
def Value.digest : Value → Digest
  | .byte v => [.tag 0, .number v.toInt]
  | .short v => [.tag 1, .number v.toInt]
  | .char v => [.tag 2, .number v.toNat]
  | .int v => [.tag 3, .number v.toInt]
  | .long v => [.tag 4, .number v.toInt]
  | .float v => [.tag 5, .number v.toNat]
  | .double v => [.tag 6, .number v.toNat]
  | .boolean v => [.tag 7, .number v.toNat]
  | .string v => [.tag 8, .text v]
  | .classToken v => [.tag 9, .text v]
  | .enum t c => [.tag 10, .text t, .text c]
  | .nested a => .tag 11 :: a.digest
  | .array vs => .tag 12 :: .count vs.length :: Value.digestList vs
def Annotation.digest : Annotation → Digest
  | ⟨definition, values⟩ =>
    definition.digest ++ .count values.length :: Value.digestTable values
def Value.digestTable : List (String × Value) → Digest
  | [] => []
  | (n, v) :: rest => .text n :: v.digest ++ Value.digestTable rest
def Value.digestList : List Value → Digest
  | [] => []
  | v :: rest => v.digest ++ Value.digestList rest
end

namespace AnnotationSet

/-- Same members, in any order. -/
def same (s t : AnnotationSet) : Bool :=
  s.length == t.length && (AnnotationSet.compareAllIn s t).val

theorem same_eq (s t : AnnotationSet) :
    same s t = (s.length == t.length && AnnotationSet.allIn s t) := by
  rw [same, (AnnotationSet.compareAllIn s t).property]

/-- Candidates are found by digest, and then compared. -/
def contains (s : AnnotationSet) (a : Annotation) : Bool :=
  s.any fun b => b.digest == a.digest && a.isSame b

/-- Whether the annotation was new, and the set with it. -/
def insert (s : AnnotationSet) (a : Annotation) : Bool × AnnotationSet :=
  if contains s a then (false, s) else (true, s ++ [a])

def insertAll (s : AnnotationSet) : List Annotation → List Bool × AnnotationSet
  | [] => ([], s)
  | a :: rest =>
    let (added, s) := insert s a
    let (answers, s) := insertAll s rest
    (added :: answers, s)

def erase (s : AnnotationSet) (a : Annotation) : Bool × AnnotationSet :=
  (contains s a, s.eraseP fun b => b.digest == a.digest && a.isSame b)

end AnnotationSet

def Definition.withMeta (d : Definition) (m : Annotation) : Definition :=
  { d with metas := (AnnotationSet.insert d.metas m).2 }

end AnnotationScene
