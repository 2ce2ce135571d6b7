import AnnotationScene.Annotation.Basic
import AnnotationScene.Annotation.Same
import AnnotationScene.Annotation.Set
import AnnotationScene.Annotation.Sharing
import AnnotationScene.Annotation.Text
import AnnotationScene.Annotation.Unify
import AnnotationScene.Collector
import AnnotationScene.Config
import AnnotationScene.Config.Toml
import AnnotationScene.Element.Address
import AnnotationScene.Element.Basic
import AnnotationScene.Element.Edit
import AnnotationScene.Element.Facet
import AnnotationScene.Element.Fresh
import AnnotationScene.Element.Inspect
import AnnotationScene.Element.Kind
import AnnotationScene.Element.Prune
import AnnotationScene.Element.Reference
import AnnotationScene.Element.Same
import AnnotationScene.Element.Walk
import AnnotationScene.Error
import AnnotationScene.Event
import AnnotationScene.Json
import AnnotationScene.Json.Parser
import AnnotationScene.Location
import AnnotationScene.Location.Json
import AnnotationScene.Location.Key
import AnnotationScene.Location.Order
import AnnotationScene.OrderedMap
import AnnotationScene.Proofs.Annotating
import AnnotationScene.Proofs.Attaching
import AnnotationScene.Proofs.Building
import AnnotationScene.Proofs.Checking
import AnnotationScene.Proofs.Classifying
import AnnotationScene.Proofs.Closure
import AnnotationScene.Proofs.Collecting
import AnnotationScene.Proofs.CollectingPruned
import AnnotationScene.Proofs.Comparing
import AnnotationScene.Proofs.Conflicts
import AnnotationScene.Proofs.Congruence
import AnnotationScene.Proofs.Copies
import AnnotationScene.Proofs.Differences
import AnnotationScene.Proofs.Dumping
import AnnotationScene.Proofs.Encoding
import AnnotationScene.Proofs.Fitting
import AnnotationScene.Proofs.Gathering
import AnnotationScene.Proofs.Growing
import AnnotationScene.Proofs.Hashing
import AnnotationScene.Proofs.Histories
import AnnotationScene.Proofs.Identifying
import AnnotationScene.Proofs.Inserting
import AnnotationScene.Proofs.Listing
import AnnotationScene.Proofs.Locating
import AnnotationScene.Proofs.Maps
import AnnotationScene.Proofs.Marking
import AnnotationScene.Proofs.MergeAll
import AnnotationScene.Proofs.MergeLaws
import AnnotationScene.Proofs.Merging
import AnnotationScene.Proofs.Navigating
import AnnotationScene.Proofs.OrderFree
import AnnotationScene.Proofs.Ordering
import AnnotationScene.Proofs.Outcomes
import AnnotationScene.Proofs.Ownership
import AnnotationScene.Proofs.Parsing
import AnnotationScene.Proofs.PartOf
import AnnotationScene.Proofs.Pruning
import AnnotationScene.Proofs.Reach
import AnnotationScene.Proofs.Reaching
import AnnotationScene.Proofs.Reporting
import AnnotationScene.Proofs.Rewording
import AnnotationScene.Proofs.SameScenes
import AnnotationScene.Proofs.Sameness
import AnnotationScene.Proofs.SettingOnce
import AnnotationScene.Proofs.Slots
import AnnotationScene.Proofs.Stripping
import AnnotationScene.Proofs.Traversing
import AnnotationScene.Proofs.Unchecked
import AnnotationScene.Proofs.Verifying
import AnnotationScene.Proofs.WellFormed
import AnnotationScene.Scene
import AnnotationScene.Scene.Copy
import AnnotationScene.Scene.Place
import AnnotationScene.Table
import AnnotationScene.Text.Blank
import AnnotationScene.Text.Extending
import AnnotationScene.Text.Inspect
import AnnotationScene.Text.Integer
import AnnotationScene.Text.Quoted
import AnnotationScene.Text.Shortest
import AnnotationScene.Text.Unprintable
import AnnotationScene.TypePath
import AnnotationScene.TypeTree
