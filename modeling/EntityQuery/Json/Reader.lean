import EntityQuery.Json.Raw
import EntityQuery.Json.Basic
import EntityQuery.Number.Word

/-! # Reading JSON

A number without fraction and exponent is an integer if it fits 64 bits. Any other number is a
double: as many leading digits as fit 64 bits are taken as an integer, which is rounded and then
multiplied or divided by a power of ten, each step rounding once. For numbers of few digits the
result is the nearest double. A number that is too large is refused, and so are values nested
deeper than `Json.maxDepth`. -/

namespace EntityQuery.Json

open Text

/-- Values may be nested this deep. -/
def maxDepth : Nat := 127

/-- Appends digits to a significand as long as it fits 64 bits, and gives the digits left over. -/
def fillSignificand (n : Nat) : List Char → Nat × List Char
  | [] => (n, [])
  | d :: ds =>
    if 10 * n + digitValue d < UInt64.size then fillSignificand (10 * n + digitValue d) ds
    else (n, d :: ds)

/-- The double nearest to `10 ^ n`. -/
def powerOfTen? (n : Nat) : Option Binary64 := Binary64.ofRatio? false (Nat.pow 10 n) 1

/-- `x * 10 ^ e`, by one product or one quotient after as many quotients by `10 ^ 308` as it takes
to bring the exponent into the range of the powers of ten. -/
def scale? (x : Binary64) (e : Int) : Option Binary64 :=
  if 0 ≤ e then
    if e ≤ 308 then do x.mul? (← powerOfTen? e.toNat)
    else if x.rank = 0 then some x else none
  else if -308 ≤ e then do x.div? (← powerOfTen? (-e).toNat)
  else if x.rank = 0 then some x
  else do scale? (← x.div? (← powerOfTen? 308)) (e + 308)
termination_by (-e).toNat

namespace Numeral

/-- The power of ten by which the number is multiplied. -/
def exponentValue (n : Numeral) : Int :=
  match n.exponent with
  | none => 0
  | some (negative, ds) => if negative then -digitsValue ds else digitsValue ds

/-- The number as a double. -/
def real? (n : Numeral) : Option Binary64 := do
  let fraction := n.fraction.getD []
  let (whole, dropped) := fillSignificand 0 n.whole
  let (significand, unread) := fillSignificand whole fraction
  let exponent := n.exponentValue + dropped.length - (fraction.length - unread.length : Nat)
  let size ← scale? (Binary64.ofUInt64 (.ofNat significand)) exponent
  return if n.negative then size.neg else size

/-- The integer that is written without fraction and exponent. -/
def integer? (n : Numeral) : Option Int :=
  if n.fraction.isNone ∧ n.exponent.isNone then
    some (if n.negative then -digitsValue n.whole else digitsValue n.whole)
  else none

/-- The natural number of 64 bits that is written as an integer. -/
def natural? (n : Numeral) : Option UInt64 := do
  let i ← n.integer?
  if n.negative then none else word? i.toNat

/-- The negative integer of 64 bits that is written as an integer. -/
def negative? (n : Numeral) : Option Int64 := do
  let i ← n.integer?
  if i < 0 then signedWord? i else none

/-- The number that is written. -/
def number? (n : Numeral) : Option Number :=
  match n.natural?, n.negative? with
  | some i, _ => some (.natural i)
  | none, some i => some (.negative i)
  | none, none => n.real?.map .real

end Numeral

mutual

/-- The value that is written; numbers must be in range and strings must have a text. -/
def ofRaw? : Raw → Option Json
  | .null => some null
  | .bool b => some (bool b)
  | .number n => n.number?.map number
  | .string s => s.map string
  | .array items => (itemsOfRaw? items).map array
  | .object members => (membersOfRaw? members).map ofMembers

/-- The values of the items of an array. -/
def itemsOfRaw? : List Raw → Option (List Json)
  | [] => some []
  | item :: rest => do return (← ofRaw? item) :: (← itemsOfRaw? rest)

/-- The values of the members of an object. -/
def membersOfRaw? : List (Option String × Raw) → Option (List (String × Json))
  | [] => some []
  | (key, value) :: rest => do return (← key, ← ofRaw? value) :: (← membersOfRaw? rest)

end

/-- The value that a text writes. -/
def ofText? (text : String) : Option Json := do
  let raw ← Raw.ofSpelling? (text.toList.map some)
  if raw.depth ≤ maxDepth then ofRaw? raw else none

end EntityQuery.Json
