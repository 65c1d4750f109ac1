import EntityQuery.Number.Binary64

/-! # Decimal forms of a double

The shortest decimals that read back as a given number, the numbers nearest to given decimals, and
the ways to lay a decimal out as text.

A decimal reads back as a number when it lies between the midpoints to the two neighbours of that
number, ends included when the rank is even. For one digit, two digits and so on the decimals next
to the number are tried; the first count of digits that has one which reads back wins, and of two
the nearer. -/

namespace EntityQuery

/-- The non-negative decimal number `coefficient * 10 ^ exponent`. -/
structure Decimal where
  coefficient : Nat
  exponent : Int
  deriving DecidableEq

namespace Decimal

/-- How many decimal digits `n` has; zero has none. -/
def digitCount (n : Nat) : Nat := if n = 0 then 0 else (Nat.toDigits 10 n).length

/-- Without the zeros at the end of the coefficient. -/
def trim (d : Decimal) : Decimal :=
  if d.coefficient = 0 then ⟨0, 0⟩
  else if d.coefficient % 10 = 0 then trim ⟨d.coefficient / 10, d.exponent + 1⟩
  else d
termination_by d.coefficient
decreasing_by omega

/-- The exponent of the leading digit of `num / den`, which is positive. -/
def leadingExponent (num den : Nat) : Int :=
  if den ≤ num then digitCount (num / den) - 1 else -digitCount ((den - 1) / num)

/-- How a decimal in the middle between two candidates is rounded. -/
inductive Tie where
  | up
  | toEven

/-- The decimal on the grid of step `10 ^ exponent` that is nearest to the number of rank `r` and
reads back as it, if there is one. -/
def onGrid? (tie : Tie) (r : Nat) (exponent : Int) : Option Decimal :=
  let times := Nat.pow 10 (-exponent).toNat
  let step := Nat.pow 10 exponent.toNat <<< 1075
  let value := 2 * Binary64.unitsOfRank r * times
  let least := (Binary64.unitsOfRank (r - 1) + Binary64.unitsOfRank r) * times
  let greatest := (Binary64.unitsOfRank r + Binary64.unitsOfRank (r + 1)) * times
  let below := value / step
  let readsBack (c : Nat) : Bool :=
    if r % 2 = 0 then least ≤ c * step && c * step ≤ greatest
    else least < c * step && c * step < greatest
  let fromBelow := value - below * step
  let fromAbove := (below + 1) * step - value
  let tieBelow : Bool := match tie with
    | .up => false
    | .toEven => below % 2 == 0
  let chooseBelow : Bool := fromBelow < fromAbove || (fromBelow == fromAbove && tieBelow)
  let nearer := if chooseBelow then below else below + 1
  let farther := if chooseBelow then below + 1 else below
  if readsBack nearer then some ⟨nearer, exponent⟩
  else if readsBack farther then some ⟨farther, exponent⟩
  else none

/-- The first hit for `digits`, `digits + 1`, … digits, at most `count` tries. -/
def shortestFrom (tie : Tie) (r : Nat) (leading : Int) (digits : Nat) : Nat → Decimal
  | 0 => ⟨0, 0⟩
  | count + 1 =>
    match onGrid? tie r (leading + 1 - digits) with
    | some d => d
    | none => shortestFrom tie r leading (digits + 1) count

/-- The shortest decimal that reads back as the size of `x`. -/
def shortest (tie : Tie) (x : Binary64) : Decimal :=
  if x.rank = 0 then ⟨0, 0⟩
  else (shortestFrom tie x.rank (leadingExponent x.units (1 <<< 1074)) 1 17).trim

/-- The number nearest to a decimal. Far beyond the largest number and far below the smallest one
the powers of ten are not worked out. -/
def nearest? (negative : Bool) (d : Decimal) : Option Binary64 :=
  let top := d.exponent + digitCount d.coefficient
  if d.coefficient = 0 ∨ top < -330 then Binary64.ofRank? negative 0
  else if 310 < top then none
  else Binary64.ofRatio? negative (d.coefficient * Nat.pow 10 d.exponent.toNat)
    (Nat.pow 10 (-d.exponent).toNat)

/-- How a number is written. -/
structure Layout where
  /-- How a tie between two shortest decimals is broken. -/
  tie : Tie
  /-- Whether a number whose leading digit has this exponent is written out in full. -/
  positional : Int → Bool
  /-- What follows a whole number that is written out in full. -/
  whole : String
  /-- What stands before a positive exponent. -/
  mark : String

/-- The decimal written out in full, with a point and without exponent. -/
def positionalText (whole : String) (d : Decimal) : String :=
  let digits := Nat.toDigits 10 d.coefficient
  if 0 ≤ d.exponent then
    String.ofList (digits ++ List.replicate d.exponent.toNat '0') ++ whole
  else
    let places := (-d.exponent).toNat
    let padded := List.replicate (places + 1 - digits.length) '0' ++ digits
    let split := padded.length - places
    String.ofList (padded.take split ++ '.' :: padded.drop split)

/-- The exponent of the leading digit. -/
def leading (d : Decimal) : Int := d.exponent + (Nat.toDigits 10 d.coefficient).length - 1

/-- The decimal with one digit before the point and a power of ten. -/
def scientificText (mark : String) (d : Decimal) : String :=
  let point := match Nat.toDigits 10 d.coefficient with
    | [] => []
    | [c] => [c]
    | c :: rest => c :: '.' :: rest
  let e := d.leading
  String.ofList point ++ (if 0 ≤ e then mark ++ toString e.toNat else "e-" ++ toString (-e).toNat)

/-- The text of a number in a layout. -/
def text (layout : Layout) (x : Binary64) : String :=
  let d := shortest layout.tie x
  (if x.negative then "-" else "") ++
    if x.rank = 0 ∨ layout.positional d.leading then positionalText layout.whole d
    else scientificText layout.mark d

/-- The text of a number rounded to a fixed count of decimal places, a tie going to the even
neighbour. -/
def fixedText (places : Nat) (x : Binary64) : String :=
  let scaled := Binary64.roundQuotient (x.units * Nat.pow 10 places) (1 <<< 1074)
  (if x.negative then "-" else "") ++ positionalText "" ⟨scaled, -places⟩

end Decimal

end EntityQuery
