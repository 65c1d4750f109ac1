import EntityQuery.Error
import EntityQuery.Query.Parser

/-! # Plans of query texts

A query text is parsed and compiled; either may fail. -/

namespace EntityQuery

/-- The plan of a query. -/
def Plan.ofText (catalog : Catalog) (text : String) : Except RequestError Plan := do
  let query ← (Query.parse text).mapError .parse
  (Plan.ofQuery catalog query).mapError .compile

/-- The selector of a filter that stands alone. -/
def Selector.ofText (catalog : Catalog) (text : String) : Except RequestError Selector := do
  let filter ← (Query.parseFilter text).mapError .parse
  (Selector.ofFilter catalog filter).mapError .compile

end EntityQuery
