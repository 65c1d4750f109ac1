import EntityQuery.Plan.Compile
import EntityQuery.Json.Basic

/-! # Explaining plans

A plan is shown as a tree of operators, one on a line and its inputs below it, two spaces further
in. After an operator come its parameters. Parameters that hold literals of the query can be hidden
behind a question mark. -/

namespace EntityQuery

/-- A parameter of an operator. -/
structure Parameter where
  name : String
  value : String
  /-- Whether the value holds literals of the query. -/
  isLiteral : Bool
  deriving DecidableEq

/-- The parameter as `name=value`, with a literal hidden if `redact` says so. -/
def Parameter.text (redact : Bool) (p : Parameter) : String :=
  p.name ++ "=" ++ (if redact && p.isLiteral then "?" else p.value)

/-- An operator with its parameters on a line of its own. -/
def operatorLine (redact : Bool) (depth : Nat) (operator : String) (parameters : List Parameter) :
    String :=
  String.ofList (List.replicate (2 * depth) ' ') ++ operator ++
    String.join (parameters.map fun p => " " ++ p.text redact) ++ "\n"

/-- An operator as JSON; of two parameters of one name the later is shown. -/
def operatorJson (operator : String) (parameters : List Parameter) (inputs : List Json) : Json :=
  .ofMembers [
    ("op", .string operator),
    ("props", .ofMembers (parameters.map fun p => (p.name, .string p.value))),
    ("inputs", .array inputs)]

namespace Selector

/-- The operator at the root of a selector. -/
def operator : Selector → String
  | and .. => "And"
  | or .. => "Or"
  | not .. => "Not"
  | slices _ => "Slice"
  | within _ => "Within"

/-- The parameters of the operator at the root of a selector. -/
def parameters : Selector → List Parameter
  | and .. | or .. => []
  | not _ keep => [⟨"keep", keep.text, true⟩]
  | slices group => group.slices.map fun s => ⟨s.property, s.text, true⟩
  | within area =>
    let center := s!"{Scalar.measureText area.latitude}, {Scalar.measureText area.longitude}"
    [⟨"property", area.property, false⟩, ⟨"distance", Scalar.measureText area.distance, true⟩,
      ⟨"center", center, true⟩]

/-- The lines of a selector that stands at the given depth. -/
def explain (redact : Bool) (depth : Nat) (s : Selector) : String :=
  operatorLine redact depth s.operator s.parameters ++
    match s with
    | and left right | or left right =>
      left.explain redact (depth + 1) ++ right.explain redact (depth + 1)
    | not subtract _ => subtract.explain redact (depth + 1)
    | slices _ | within _ => ""

/-- A selector as JSON. -/
def explainJson (s : Selector) : Json :=
  operatorJson s.operator s.parameters <| match s with
    | and left right | or left right => [left.explainJson, right.explainJson]
    | not subtract _ => [subtract.explainJson]
    | slices _ | within _ => []

end Selector

namespace Plan

/-- The parameters of the operator that sorts. -/
def sortParameters (plan : Plan) : List Parameter :=
  plan.sort.map fun term => ⟨"by", term.text, false⟩

/-- The lines of a plan; an operator that sorts stands above the selector. -/
def explain (redact : Bool) (plan : Plan) : String :=
  if plan.sort.isEmpty then plan.selector.explain redact 0
  else operatorLine redact 0 "Sort" plan.sortParameters ++ plan.selector.explain redact 1

/-- A plan as JSON. -/
def explainJson (plan : Plan) : Json :=
  if plan.sort.isEmpty then plan.selector.explainJson
  else operatorJson "Sort" plan.sortParameters [plan.selector.explainJson]

end Plan

end EntityQuery
