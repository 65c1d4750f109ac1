import EntityQuery.Graph.Edge

/-! # The registry of edges

The registry knows, for each side of a node, the labels of the edges that were seen there, and for
each label the kinds of node that were seen at the other end. It knows when each of them was seen
last, and forgets an entry only if it was not seen after a given time. The registry counts the
changes that were made to it. -/

namespace EntityQuery

/-- What an entry of the registry is about: the edges with a label on one side of a node. -/
structure RegistryKey where
  application : String
  node : Node
  side : Side
  label : String
  deriving DecidableEq

namespace RegistryKey

instance : Ord RegistryKey :=
  ⟨compareLex (compareOn (·.application)) <| compareLex (compareOn (·.node)) <|
    compareLex (compareOn (·.side.isIncoming)) (compareOn (·.label))⟩

instance : Std.TransOrd RegistryKey :=
  inferInstanceAs <| Std.TransCmp <|
    compareLex (compareOn fun k : RegistryKey => k.application) <|
      compareLex (compareOn fun k : RegistryKey => k.node) <|
        compareLex (compareOn fun k : RegistryKey => k.side.isIncoming)
          (compareOn fun k : RegistryKey => k.label)

instance : Std.LawfulEqOrd RegistryKey where
  eq_of_compare {a b} h := by
    have h : (compare a.application b.application).then
        ((compare a.node b.node).then ((compare a.side.isIncoming b.side.isIncoming).then
          (compare a.label b.label))) = .eq := h
    simp only [Ordering.then_eq_eq] at h
    have happlication : a.application = b.application := Std.LawfulEqOrd.eq_of_compare h.1
    have hnode : a.node = b.node := Std.LawfulEqOrd.eq_of_compare h.2.1
    have hside : a.side = b.side :=
      Side.isIncoming_inj.1 (Std.LawfulEqOrd.eq_of_compare h.2.2.1)
    have hlabel : a.label = b.label := Std.LawfulEqOrd.eq_of_compare h.2.2.2
    cases a
    cases b
    simp_all

end RegistryKey

/-- What is registered of the edges with a label. -/
structure RegistryEntry where
  /-- When an edge was seen last. -/
  timestamp : Timestamp
  /-- When an edge to a node of a kind was seen last. -/
  kinds : Std.ExtTreeMap String Timestamp
  /-- No kind was seen after the label. -/
  kinds_le : ∀ (kind : String) (time : Timestamp), kinds[kind]? = some time → time ≤ timestamp

/-- The later of two times. -/
def Timestamp.later (a b : Timestamp) : Timestamp := if a ≤ b then b else a

theorem Timestamp.le_later_left (a b : Timestamp) : a ≤ Timestamp.later a b := by
  unfold Timestamp.later
  split
  · assumption
  · exact UInt64.le_refl a

theorem Timestamp.le_later_right (a b : Timestamp) : b ≤ Timestamp.later a b := by
  unfold Timestamp.later
  split
  · exact UInt64.le_refl b
  · next h => exact (UInt64.le_total a b).resolve_left h

theorem Timestamp.later_le {a b c : Timestamp} (ha : a ≤ c) (hb : b ≤ c) :
    Timestamp.later a b ≤ c := by
  unfold Timestamp.later
  split <;> assumption

namespace RegistryEntry

/-- What is registered once the first edge has been seen. -/
def first (kind : String) (time : Timestamp) : RegistryEntry where
  timestamp := time
  kinds := (∅ : Std.ExtTreeMap String Timestamp).insert kind time
  kinds_le k t h := by
    rw [Std.ExtTreeMap.getElem?_insert] at h
    split at h
    · exact Option.some.inj h ▸ UInt64.le_refl time
    · simp at h

/-- When a kind was seen last, once an edge to a node of that kind has been seen again. -/
def lastSeen (e : RegistryEntry) (kind : String) (time : Timestamp) : Timestamp :=
  (e.kinds[kind]?.map (Timestamp.later · time)).getD time

theorem lastSeen_le (e : RegistryEntry) (kind : String) (time : Timestamp) :
    e.lastSeen kind time ≤ Timestamp.later e.timestamp time := by
  unfold lastSeen
  cases h : e.kinds[kind]? with
  | none => exact Timestamp.le_later_right e.timestamp time
  | some t =>
    exact Timestamp.later_le
      (UInt64.le_trans (e.kinds_le kind t h) (Timestamp.le_later_left e.timestamp time))
      (Timestamp.le_later_right e.timestamp time)

/-- What is registered once another edge has been seen. -/
def see (e : RegistryEntry) (kind : String) (time : Timestamp) : RegistryEntry where
  timestamp := Timestamp.later e.timestamp time
  kinds := e.kinds.insert kind (e.lastSeen kind time)
  kinds_le k t h := by
    rw [Std.ExtTreeMap.getElem?_insert] at h
    split at h
    · exact Option.some.inj h ▸ e.lastSeen_le kind time
    · exact UInt64.le_trans (e.kinds_le k t h) (Timestamp.le_later_left e.timestamp time)

/-- What is registered once a kind has been forgotten. -/
def forget (e : RegistryEntry) (kind : String) : RegistryEntry where
  timestamp := e.timestamp
  kinds := e.kinds.erase kind
  kinds_le k t h := by
    rw [Std.ExtTreeMap.getElem?_erase] at h
    split at h
    · cases h
    · exact e.kinds_le k t h

end RegistryEntry

/-- A registry of edges. -/
structure EdgeRegistry where
  entries : Std.ExtTreeMap RegistryKey RegistryEntry
  /-- How many changes have been made. -/
  mutations : Nat

namespace EdgeRegistry

/-- A registry without entries. -/
def empty : EdgeRegistry := ⟨∅, 0⟩

/-- Puts an entry in the place of whatever is registered. -/
def put (r : EdgeRegistry) (key : RegistryKey) (entry : RegistryEntry) : EdgeRegistry :=
  { entries := r.entries.insert key entry, mutations := r.mutations + 1 }

/-- Registers that an edge to a node of a kind was seen. -/
def see (r : EdgeRegistry) (key : RegistryKey) (kind : String) (time : Timestamp) :
    EdgeRegistry :=
  r.put key <| match r.entries[key]? with
    | some entry => entry.see kind time
    | none => .first kind time

/-- Registers a version of an edge on one side of the node that is near on that side. -/
def seeSide (r : EdgeRegistry) (application : String) (v : EdgeVersion) (side : Side) :
    EdgeRegistry :=
  r.see ⟨application, v.edge.near side, side, v.edge.label⟩ (v.edge.far side).kind v.timestamp

/-- Registers a version of an edge at both of its ends. -/
def write (r : EdgeRegistry) (application : String) (v : EdgeVersion) : EdgeRegistry :=
  (r.seeSide application v .outgoing).seeSide application v .incoming

/-- The labels that are registered for a side of a node, in their order. -/
def labels (r : EdgeRegistry) (application : String) (node : Node) (side : Side) : List String :=
  let keys := r.entries.keys.filter fun key =>
    key.application = application ∧ key.node = node ∧ key.side = side
  keys.map (·.label)

/-- The kinds that are registered for a label, in their order. -/
def kinds (r : EdgeRegistry) (key : RegistryKey) : List String :=
  (r.entries[key]?.map (·.kinds.keys)).getD []

/-- Forgets a kind, unless it was seen after a time. -/
def forgetKind (r : EdgeRegistry) (key : RegistryKey) (kind : String) (upTo : Timestamp) :
    EdgeRegistry :=
  match r.entries[key]? with
  | some entry =>
    if entry.kinds[kind]?.any (· ≤ upTo) then r.put key (entry.forget kind) else r
  | none => r

/-- Forgets a label with all its kinds, unless it was seen after a time. -/
def forgetLabel (r : EdgeRegistry) (key : RegistryKey) (upTo : Timestamp) : EdgeRegistry :=
  if r.entries[key]?.any (·.timestamp ≤ upTo) then
    { entries := r.entries.erase key, mutations := r.mutations + 1 }
  else r

end EdgeRegistry

end EntityQuery
