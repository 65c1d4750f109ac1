import EntityQuery.Store.Record

/-! # The clock of versions

Versions are readings of a clock, in microseconds. Where the clock stalls or steps back, versions
are counted on from the last one, so that they always increase. -/

namespace EntityQuery

/-- The source of versions. -/
structure VersionClock where
  /-- The last version that was given out, or zero. -/
  last : Version
  deriving DecidableEq

namespace VersionClock

/-- A clock that has given out no version. -/
def start : VersionClock := ⟨0⟩

/-- The next version at a reading of the clock, and the clock after it. -/
def next (c : VersionClock) (reading : Version) : Version × VersionClock :=
  let version := max reading (c.last + 1)
  (version, ⟨version⟩)

end VersionClock

end EntityQuery
