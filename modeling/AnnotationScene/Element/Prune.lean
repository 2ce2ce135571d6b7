import AnnotationScene.Element.Basic

/-!
# Vacuous elements and pruning

An element is vacuous when neither it nor anything below it carries an annotation. The target of
an inserted cast is information of its own, so a cast is never vacuous, and pruning leaves it as
it is. Pruning drops the vacuous entries of every map, innermost first, and a vacuous initializer;
`pruneEvents` says which maps lost entries. `pruneReport` gives both and prunes each part once.
-/

namespace AnnotationScene

def Header.isVacuous {k : Kind} (h : Header k) : Bool :=
  k != .cast && h.annotations.isEmpty

mutual
def Element.isVacuous {k : Kind} : Element k → Bool
  | .mk header parts => header.isVacuous && parts.isVacuous
def Parts.isVacuous {layout : List Slot} : Parts layout → Bool
  | .nil => true
  | .fixed child more => child.isVacuous && more.isVacuous
  | .absent more => more.isVacuous
  | .present child more => child.isVacuous && more.isVacuous
  | .keyed entries more => entries.isVacuous && more.isVacuous
  | .contracts set more => set.isEmpty && more.isVacuous
def Entries.isVacuous {m : ChildMap} : Entries m → Bool
  | .nil => true
  | .cons _ child more => child.isVacuous && more.isVacuous
end

mutual
def Element.prune {k : Kind} : Element k → Element k
  | .mk header parts => if k = .cast then .mk header parts else .mk header parts.prune
def Parts.prune {layout : List Slot} : Parts layout → Parts layout
  | .nil => .nil
  | .fixed child more => .fixed child.prune more.prune
  | .absent more => .absent more.prune
  | .present (o := .type) child more => .present (o := .type) child.prune more.prune
  | .present (o := .init) child more =>
    let child := child.prune
    if child.isVacuous then .absent more.prune else .present (o := .init) child more.prune
  | .keyed entries more => .keyed entries.prune more.prune
  | .contracts set more => .contracts set more.prune
def Entries.prune {m : ChildMap} : Entries m → Entries m
  | .nil => .nil
  | .cons key child more =>
    let child := child.prune
    if child.isVacuous then more.prune else .cons key child more.prune
end

mutual
def Element.pruneEvents {k : Kind} : Element k → List Event
  | .mk _ parts => if k = .cast then [] else parts.pruneEvents
def Parts.pruneEvents {layout : List Slot} : Parts layout → List Event
  | .nil => []
  | .fixed child more => child.pruneEvents ++ more.pruneEvents
  | .absent more => more.pruneEvents
  | .present child more => child.pruneEvents ++ more.pruneEvents
  | .keyed entries more =>
    entries.childEvents ++ OrderedMap.tally entries.size entries.prune.size ++ more.pruneEvents
  | .contracts _ more => more.pruneEvents
/-- The events of the children, without that of the map itself. -/
def Entries.childEvents {m : ChildMap} : Entries m → List Event
  | .nil => []
  | .cons _ child more => child.pruneEvents ++ more.childEvents
end

def Entries.pruneEvents {m : ChildMap} (e : Entries m) : List Event :=
  e.childEvents ++ OrderedMap.tally e.size e.prune.size

mutual
def Element.pruneReport {k : Kind} :
    (e : Element k) → { r : Element k × List Event // r = (e.prune, e.pruneEvents) }
  | .mk header parts =>
    if h : k = .cast then
      ⟨(.mk header parts, []), by rw [Element.prune, Element.pruneEvents, if_pos h, if_pos h]⟩
    else
      let ⟨(pruned, events), hr⟩ := parts.pruneReport
      ⟨(.mk header pruned, events), by
        obtain ⟨rfl, rfl⟩ := Prod.mk.inj hr
        rw [Element.prune, Element.pruneEvents, if_neg h, if_neg h]⟩
def Parts.pruneReport {layout : List Slot} :
    (p : Parts layout) → { r : Parts layout × List Event // r = (p.prune, p.pruneEvents) }
  | .nil => ⟨(.nil, []), rfl⟩
  | .fixed child more =>
    let ⟨(child, events), hc⟩ := child.pruneReport
    let ⟨(more, rest), hm⟩ := more.pruneReport
    ⟨(.fixed child more, events ++ rest), by
      obtain ⟨rfl, rfl⟩ := Prod.mk.inj hc
      obtain ⟨rfl, rfl⟩ := Prod.mk.inj hm
      rfl⟩
  | .absent more =>
    let ⟨(more, rest), hm⟩ := more.pruneReport
    ⟨(.absent more, rest), by
      obtain ⟨rfl, rfl⟩ := Prod.mk.inj hm
      rfl⟩
  | .present (o := .type) child more =>
    let ⟨(child, events), hc⟩ := child.pruneReport
    let ⟨(more, rest), hm⟩ := more.pruneReport
    ⟨(.present (o := .type) child more, events ++ rest), by
      obtain ⟨rfl, rfl⟩ := Prod.mk.inj hc
      obtain ⟨rfl, rfl⟩ := Prod.mk.inj hm
      rfl⟩
  | .present (o := .init) child more =>
    let ⟨(child, events), hc⟩ := child.pruneReport
    let ⟨(more, rest), hm⟩ := more.pruneReport
    ⟨(if child.isVacuous then .absent more else .present (o := .init) child more,
        events ++ rest), by
      obtain ⟨rfl, rfl⟩ := Prod.mk.inj hc
      obtain ⟨rfl, rfl⟩ := Prod.mk.inj hm
      rfl⟩
  | .keyed entries more =>
    let ⟨(kept, events), hk⟩ := entries.pruneChildren
    let ⟨(more, rest), hm⟩ := more.pruneReport
    ⟨(.keyed kept more, events ++ OrderedMap.tally entries.size kept.size ++ rest), by
      obtain ⟨rfl, rfl⟩ := Prod.mk.inj hk
      obtain ⟨rfl, rfl⟩ := Prod.mk.inj hm
      rfl⟩
  | .contracts set more =>
    let ⟨(more, rest), hm⟩ := more.pruneReport
    ⟨(.contracts set more, rest), by
      obtain ⟨rfl, rfl⟩ := Prod.mk.inj hm
      rfl⟩
def Entries.pruneChildren {m : ChildMap} :
    (e : Entries m) → { r : Entries m × List Event // r = (e.prune, e.childEvents) }
  | .nil => ⟨(.nil, []), rfl⟩
  | .cons key child more =>
    let ⟨(child, events), hc⟩ := child.pruneReport
    let ⟨(more, rest), hm⟩ := more.pruneChildren
    ⟨(if child.isVacuous then more else .cons key child more, events ++ rest), by
      obtain ⟨rfl, rfl⟩ := Prod.mk.inj hc
      obtain ⟨rfl, rfl⟩ := Prod.mk.inj hm
      rfl⟩
end

def Entries.pruneReport {m : ChildMap} (e : Entries m) :
    { r : Entries m × List Event // r = (e.prune, e.pruneEvents) } :=
  let ⟨(kept, events), h⟩ := e.pruneChildren
  ⟨(kept, events ++ OrderedMap.tally e.size kept.size), by
    obtain ⟨rfl, rfl⟩ := Prod.mk.inj h
    rfl⟩

instance {k : Kind} : Prunable (Element k) where
  isVacuous := Element.isVacuous
  prune := Element.prune
  pruneEvents := Element.pruneEvents

end AnnotationScene
