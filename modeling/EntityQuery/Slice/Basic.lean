import EntityQuery.Scalar

/-! # Slices

A slice is one contiguous range over one indexed property. A value is in the slice when it compares
with both bounds and lies between them. Two slices over one property are narrowed to their common
part; where bounds do not compare, the later one stands. -/

namespace EntityQuery

/-- One end of a range. -/
structure Bound where
  /-- The value at the edge. -/
  value : Scalar
  /-- Whether the edge itself is in range. -/
  inclusive : Bool
  deriving DecidableEq

/-- A range over one indexed property; a missing bound leaves its side open. -/
structure Slice where
  property : String
  start : Option Bound := none
  finish : Option Bound := none
  /-- Whether ids are scanned from the greatest down. -/
  reversed : Bool := false
  deriving DecidableEq

/-- The property under which the id of an entity is indexed. -/
def idProperty : String := "uuid"

/-- The end of the names of properties that hold the words of a text. -/
def keywordsSuffix : String := ".keywords"

/-- The name of a property without the ending that marks it as one that holds words. -/
def keywordsBase? (property : String) : Option String :=
  let name := property.toList
  let base := name.take (name.length - keywordsSuffix.length)
  if base ++ keywordsSuffix.toList = name then some (String.ofList base) else none

namespace Bound

/-- The tighter of two lower bounds, of which the first was declared earlier. Of equal values the
exclusive one is tighter, and of values that do not compare the later one stands. -/
def tighterStart : Option Bound → Option Bound → Option Bound
  | none, b => b
  | b, none => b
  | some earlier, some later =>
    match earlier.value.compare later.value with
    | some .eq => some ⟨later.value, earlier.inclusive && later.inclusive⟩
    | some .gt => some earlier
    | _ => some later

/-- The tighter of two upper bounds, of which the first was declared earlier. -/
def tighterFinish : Option Bound → Option Bound → Option Bound
  | none, b => b
  | b, none => b
  | some earlier, some later =>
    match earlier.value.compare later.value with
    | some .eq => some ⟨later.value, earlier.inclusive && later.inclusive⟩
    | some .lt => some earlier
    | _ => some later

/-- Whether a value is above a lower bound. -/
def admitsAbove (start : Bound) (value : Scalar) : Bool :=
  match value.compare start.value with
  | some .gt => true
  | some .eq => start.inclusive
  | _ => false

/-- Whether a value is below an upper bound. -/
def admitsBelow (finish : Bound) (value : Scalar) : Bool :=
  match value.compare finish.value with
  | some .lt => true
  | some .eq => finish.inclusive
  | _ => false

end Bound

namespace Slice

/-- The slice that holds one value. -/
def exact (property : String) (value : Scalar) : Slice where
  property
  start := some ⟨value, true⟩
  finish := some ⟨value, true⟩

/-- Whether the slice is over the words of a text, of which an entity can have many. -/
def isKeywords (s : Slice) : Bool := (keywordsBase? s.property).isSome

/-- Whether both sides are open. -/
def isUnbounded (s : Slice) : Bool := s.start.isNone && s.finish.isNone

/-- Whether a value is in range. -/
def contains (s : Slice) (value : Scalar) : Bool :=
  s.start.all (·.admitsAbove value) && s.finish.all (·.admitsBelow value)

/-- Whether the bounds cross, so that no value is in range. -/
def isEmptyRange (s : Slice) : Bool :=
  match s.start, s.finish with
  | some start, some finish =>
    match start.value.compare finish.value with
    | some .lt => false
    | some .eq => !(start.inclusive && finish.inclusive)
    | _ => true
  | _, _ => false

/-- The common part of a slice and of one declared later over the same property. -/
def narrow (earlier later : Slice) : Slice where
  property := earlier.property
  start := Bound.tighterStart earlier.start later.start
  finish := Bound.tighterFinish earlier.finish later.finish
  reversed := earlier.reversed || later.reversed

/-- The lower bound as interval notation writes it. -/
def startText : Option Bound → String
  | none => "(-inf"
  | some b => (if b.inclusive then "[" else "(") ++ b.value.text

/-- The upper bound as interval notation writes it. -/
def finishText : Option Bound → String
  | none => "+inf)"
  | some b => b.value.text ++ (if b.inclusive then "]" else ")")

/-- The property and its interval. -/
def text (s : Slice) : String :=
  s.property ++ " " ++ startText s.start ++ ", " ++ finishText s.finish ++
    (if s.reversed then " desc" else "")

end Slice

end EntityQuery
