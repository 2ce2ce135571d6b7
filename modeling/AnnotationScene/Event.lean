/-!
# Events

What an operation reports about its work, in the order in which it happened.
-/

namespace AnnotationScene

inductive Event
  /-- Entries of one map were dropped. -/
  | prunedMap (dropped kept : Nat)
  | prunedScene (classesBefore classesAfter : Nat)
  | unifiedDefinitions (name : String)
  | collectedDefinitions (definitions classes : Nat)
  | visitingDefinition (name : String)
  | copyVerified (classes packages : Nat)
  | argumentOutOfRange (index : Nat)
deriving DecidableEq, Repr

def Event.render : Event → String
  | .prunedMap dropped kept => s!"TRACE pruned vivifying map dropped={dropped} kept={kept}"
  | .prunedScene before after =>
    s!"DEBUG pruned scene classes_before={before} classes_after={after}"
  | .unifiedDefinitions name => s!"DEBUG unified annotation definitions name={name}"
  | .collectedDefinitions definitions classes =>
    s!"DEBUG collected annotation definitions defs={definitions} classes={classes}"
  | .visitingDefinition name => s!"TRACE visiting annotation definition name={name}"
  | .copyVerified classes packages =>
    s!"DEBUG clone check passed classes={classes} packages={packages}"
  | .argumentOutOfRange index =>
    s!"DEBUG type argument index does not fit a type path index={index}"

end AnnotationScene
