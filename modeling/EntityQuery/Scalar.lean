import EntityQuery.Json.Basic
import EntityQuery.Number.Decimal
import EntityQuery.Number.Double
import EntityQuery.Number.Word
import EntityQuery.Text.Quoted

/-! # Scalars

The values that literals of queries denote and that indexed properties hold. Numbers compare by
size, integers with doubles after rounding to a double; truth values and texts compare only with
their own kind. -/

namespace EntityQuery

/-- A value that a range can be compared with. -/
inductive Scalar where
  | bool (b : Bool)
  | int (n : Int64)
  | float (x : Binary64)
  | string (s : String)
  deriving DecidableEq

namespace Scalar

/-- The order of two scalars, if they compare: `false` is before `true`, and texts are ordered by
code points. -/
def compare : Scalar → Scalar → Option Ordering
  | bool a, bool b => some (Ord.compare a b)
  | int a, int b => some (Ord.compare a b)
  | int a, float b => some (Ord.compare (Binary64.ofInt64 a) b)
  | float a, int b => some (Ord.compare a (Binary64.ofInt64 b))
  | float a, float b => some (Ord.compare a b)
  | string a, string b => some (Ord.compare a b)
  | _, _ => none

/-- The scalar for a natural number: an integer if it fits, else the nearest double. -/
def ofUInt64 (n : UInt64) : Scalar :=
  match signedOfWord? n with
  | some i => int i
  | none => float (.ofUInt64 n)

/-- The scalar held by a JSON value; arrays, objects and null hold none. -/
def ofJson? : Json → Option Scalar
  | .bool b => some (bool b)
  | .number (.natural n) => some (ofUInt64 n)
  | .number (.negative n) => some (int n)
  | .number (.real x) => some (float x)
  | .string s => some (string s)
  | _ => none

/-- A double in a scalar's text: the shortest decimal, written out in full for leading exponents
from -4 to 15, with a zero after the point of a whole number. -/
def floatLayout : Decimal.Layout where
  tie := .up
  positional e := -4 ≤ e && e < 16
  whole := ".0"
  mark := "e"

/-- The text of a scalar; texts are quoted. -/
def text : Scalar → String
  | bool b => if b then "true" else "false"
  | int n => toString n.toInt
  | float x => Decimal.text floatLayout x
  | string s => Text.quoted s

instance : ToString Scalar := ⟨text⟩

/-- A finite measure in a query's text: the shortest decimal, always written out in full. -/
def measureLayout : Decimal.Layout where
  tie := .up
  positional _ := true
  whole := ""
  mark := "e"

/-- The text of a distance or of a coordinate. -/
def measureText : Double → String
  | .finite x => Decimal.text measureLayout x
  | .infinite negative => if negative then "-inf" else "inf"
  | .nan => "NaN"

end Scalar

end EntityQuery
