import EntityQuery.Store.Record
import Std.Data.ExtTreeMap

/-! # Nodes and edges

A node is an entity together with the kind of thing that it is. An edge has a label and leads from
one node to another. What is kept of an edge are its versions: a version says that the edge was
there at a time, or that it was deleted then. Edges are ordered by their source, then by their
label, then by their target. -/

namespace EntityQuery

/-- The time of a version of an edge; later versions have greater times. -/
abbrev Timestamp := UInt64

/-- A node of the graph. -/
structure Node where
  id : EntityId
  kind : String
  deriving DecidableEq

namespace Node

/-- The node as it is printed: the kind, then the id. -/
def text (n : Node) : String := s!"{n.kind}:{n.id}"

instance : Ord Node := ⟨compareLex (compareOn (·.id)) (compareOn (·.kind))⟩

instance : Std.TransOrd Node :=
  inferInstanceAs <| Std.TransCmp <|
    compareLex (compareOn fun n : Node => n.id) (compareOn fun n : Node => n.kind)

instance : Std.LawfulEqOrd Node where
  eq_of_compare {a b} h := by
    have h : (compare a.id b.id).then (compare a.kind b.kind) = .eq := h
    simp only [Ordering.then_eq_eq] at h
    have hid : a.id = b.id := Std.LawfulEqOrd.eq_of_compare h.1
    have hkind : a.kind = b.kind := Std.LawfulEqOrd.eq_of_compare h.2
    cases a
    cases b
    simp_all

end Node

/-- The side of a node on which its edges are looked at. -/
inductive Side where
  /-- The edges that leave the node. -/
  | outgoing
  /-- The edges that arrive at the node. -/
  | incoming
  deriving DecidableEq

/-- Whether the edges arrive. -/
def Side.isIncoming : Side → Bool
  | outgoing => false
  | incoming => true

theorem Side.isIncoming_inj {a b : Side} : a.isIncoming = b.isIncoming ↔ a = b := by
  cases a <;> cases b <;> decide

/-- An edge from one node to another. -/
structure Edge where
  source : Node
  label : String
  target : Node
  deriving DecidableEq

namespace Edge

/-- The end of an edge from which a side of it is seen. -/
def near (e : Edge) : Side → Node
  | .outgoing => e.source
  | .incoming => e.target

/-- The other end of an edge. -/
def far (e : Edge) : Side → Node
  | .outgoing => e.target
  | .incoming => e.source

instance : Ord Edge :=
  ⟨compareLex (compareOn (·.source)) <| compareLex (compareOn (·.label)) (compareOn (·.target))⟩

instance : Std.TransOrd Edge :=
  inferInstanceAs <| Std.TransCmp <|
    compareLex (compareOn fun e : Edge => e.source) <|
      compareLex (compareOn fun e : Edge => e.label) (compareOn fun e : Edge => e.target)

instance : Std.LawfulEqOrd Edge where
  eq_of_compare {a b} h := by
    have h : (compare a.source b.source).then
        ((compare a.label b.label).then (compare a.target b.target)) = .eq := h
    simp only [Ordering.then_eq_eq] at h
    have hsource : a.source = b.source := Std.LawfulEqOrd.eq_of_compare h.1
    have hlabel : a.label = b.label := Std.LawfulEqOrd.eq_of_compare h.2.1
    have htarget : a.target = b.target := Std.LawfulEqOrd.eq_of_compare h.2.2
    cases a
    cases b
    simp_all

end Edge

/-- A version of an edge. -/
structure EdgeVersion where
  edge : Edge
  timestamp : Timestamp
  /-- Whether the edge was deleted at that time. -/
  deleted : Bool
  deriving DecidableEq

/-- The version as it is printed: an arrow from the source to the target, marked with the label,
the time and, of a deletion, a word for it. -/
def EdgeVersion.text (v : EdgeVersion) : String :=
  let mark := if v.deleted then " deleted" else ""
  s!"{v.edge.source.text} -[{v.edge.label}@{v.timestamp}{mark}]-> {v.edge.target.text}"

end EntityQuery
