import EntityQuery.Encoding.XXHash
import EntityQuery.Plan.Explain

/-! # Digests of plans

The digest of a plan ties the cursors that a query hands out to that query. It is the hash of a
stream of bytes that spells the plan out: the operators of the selector with their parameters and
the count of their inputs, then the terms to sort by, then the fields to show. -/

namespace EntityQuery

/-- The bytes of a text. -/
def textBytes (s : String) : List UInt8 := s.toUTF8.toList

/-- The bytes of a count. -/
def countBytes (n : Nat) : List UInt8 := XXHash.bytesOf (.ofNat n)

namespace Selector

/-- How many inputs the operator at the root has. -/
def inputCount : Selector → Nat
  | and .. | or .. => 2
  | not .. => 1
  | slices _ | within _ => 0

/-- The bytes that spell a selector out. -/
def digestBytes (s : Selector) : List UInt8 :=
  textBytes s.operator ++ s.parameters.flatMap (fun p => textBytes p.name ++ textBytes p.value) ++
    countBytes s.inputCount ++
    match s with
    | and left right | or left right => left.digestBytes ++ right.digestBytes
    | not subtract _ => subtract.digestBytes
    | slices _ | within _ => []

end Selector

/-- The bytes of a term to sort by. -/
def SortTerm.digestBytes (term : SortTerm) : List UInt8 :=
  textBytes term.property ++ [if term.direction.isDescending then 1 else 0]

/-- The bytes of a selection. -/
def Selection.digestBytes : Selection → List UInt8
  | all => [0]
  | fields paths => 1 :: countBytes paths.length ++ paths.flatMap fun p => textBytes p ++ [0xFF]

namespace Plan

/-- The bytes that spell a plan out. -/
def digestBytes (plan : Plan) : List UInt8 :=
  plan.selector.digestBytes ++ countBytes plan.sort.length ++
    plan.sort.flatMap SortTerm.digestBytes ++ plan.selection.digestBytes

/-- The digest of a plan. -/
def digest (plan : Plan) : UInt64 := XXHash.hash plan.digestBytes

end Plan

end EntityQuery
