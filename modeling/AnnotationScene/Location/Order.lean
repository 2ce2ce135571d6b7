import AnnotationScene.Location

/-!
# The order of locations
-/

namespace AnnotationScene

instance : Ord TypeStep := ⟨compareOn TypeStep.rank⟩

instance : Ord BoundLocation :=
  ⟨compareLex (compareOn BoundLocation.parameter) (compareOn BoundLocation.bound)⟩

instance : Ord RelativeLocation :=
  ⟨compareLex (compareOn RelativeLocation.offset)
    (compareLex (compareOn RelativeLocation.index) (compareOn RelativeLocation.typeIndex))⟩

instance : Ord TypeIndexLocation := ⟨compareOn TypeIndexLocation.typeIndex⟩

instance : Ord LocalRange :=
  ⟨compareLex (compareOn LocalRange.start)
    (compareLex (compareOn LocalRange.length) (compareOn LocalRange.index))⟩

instance : Ord LocalLocation :=
  ⟨compareLex (compareOn LocalLocation.ranges)
    (compareLex (compareOn LocalLocation.variableName)
      (compareOn LocalLocation.variableIndex))⟩

instance : Ord AstEntry :=
  ⟨compareLex (compareOn AstEntry.treeKind)
    (compareLex (compareOn AstEntry.childSelector) (compareOn AstEntry.argument))⟩

instance : Ord AstPath := ⟨compareOn AstPath.entries⟩

def sortedPositions {α : Type} [Ord α] (keys : List α) : List Nat :=
  (keys.zipIdx.mergeSort fun a b => (compare a.1 b.1).isLE).map (·.2)

end AnnotationScene
