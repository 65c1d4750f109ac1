import EntityQuery.Stream.Basic

/-! # Scripted sources

Sources whose every pull is laid down beforehand: the ids that they bring, in any order, and the
pulls that fail. A pull that fails leaves the ids as they are. -/

namespace EntityQuery

/-- A source that brings listed ids and fails at chosen pulls. -/
structure Script where
  /-- The ids still to come. -/
  ids : List UInt64
  /-- The error of a pull, by its number; most pulls have none. -/
  failure? : Nat → Option RequestError
  /-- How often the source has been pulled. -/
  pulls : Nat := 0

namespace Script

/-- Pulls a scripted source. -/
def pull (s : Script) : Outcome × Script :=
  match s.failure? s.pulls, s.ids with
  | some e, ids => (.error e, ⟨ids, s.failure?, s.pulls + 1⟩)
  | none, [] => (.ok none, ⟨[], s.failure?, s.pulls + 1⟩)
  | none, id :: rest => (.ok (some id), ⟨rest, s.failure?, s.pulls + 1⟩)

instance : Source Script where
  pull := pull
  remaining s := s.ids.length
  remaining_pull s := by
    unfold pull
    split <;> simp_all [Outcome.count]

end Script

end EntityQuery
