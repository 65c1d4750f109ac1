import EntityQuery.Slice.Basic

/-! # Groups of slices

Slices that must all hold, at most one for each property. Adding a slice over a property that the
group already has narrows the slice in place, so the group keeps the order in which properties
came. An entity can have many words in one text, so two slices over words are not one narrower
slice, and a group does not take in a slice over words that it already has. -/

namespace EntityQuery

/-- Slices that must all hold. -/
structure SliceGroup where
  slices : List Slice
  deriving DecidableEq

namespace SliceGroup

/-- The group without slices. -/
def empty : SliceGroup := ⟨[]⟩

/-- The group of one slice. -/
def single (slice : Slice) : SliceGroup := ⟨[slice]⟩

/-- The scan of all ids. -/
def fullScan : SliceGroup := single ⟨idProperty, none, none, false⟩

/-- The slice over a property. -/
def get? (g : SliceGroup) (property : String) : Option Slice :=
  g.slices.find? (·.property = property)

/-- Whether the slices of another group may be folded into this one. -/
def canAbsorb (g other : SliceGroup) : Bool :=
  other.slices.all fun s => !s.isKeywords || (g.get? s.property).isNone

/-- Changes the first slice over the property of `slice` by `change`, or appends `slice`. -/
def upsert (change : Slice → Slice) (slice : Slice) : List Slice → List Slice
  | [] => [slice]
  | s :: rest =>
    if s.property = slice.property then change s :: rest else s :: upsert change slice rest

/-- Adds a slice that was declared later: it narrows the slice over its property, or comes last. -/
def push (g : SliceGroup) (later : Slice) : SliceGroup :=
  ⟨upsert (fun s => s.narrow later) later g.slices⟩

/-- Adds a slice that was declared earlier: the slice over its property narrows it and stays in
place, or it comes last. -/
def pushEarlier (g : SliceGroup) (earlier : Slice) : SliceGroup :=
  ⟨upsert (fun s => earlier.narrow s) earlier g.slices⟩

/-- Folds in the slices of a group that was declared later. -/
def absorb (g later : SliceGroup) : SliceGroup := later.slices.foldl push g

/-- Folds in the slices of a group that was declared earlier. -/
def absorbEarlier (g earlier : SliceGroup) : SliceGroup := earlier.slices.foldl pushEarlier g

/-- Whether the group is the scan of all ids. -/
def isFullScan (g : SliceGroup) : Bool :=
  match g.slices with
  | [s] => s.property = idProperty && s.isUnbounded
  | _ => false

/-- Sets the direction in which the slices are scanned. -/
def setReversed (g : SliceGroup) (reversed : Bool) : SliceGroup :=
  ⟨g.slices.map fun s => { s with reversed }⟩

/-- The slices with signs of conjunction between them. -/
def text (g : SliceGroup) : String :=
  " & ".intercalate (g.slices.map Slice.text)

end SliceGroup

end EntityQuery
