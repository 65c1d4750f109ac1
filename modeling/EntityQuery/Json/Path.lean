import EntityQuery.Json.Basic
import EntityQuery.Text.Split

/-! # Paths into documents

A path is a text of keys with points between them. It leads from object to object; a value that is
no object has nothing below it. A projection keeps of a document what lies at the end of the given
paths, inside the objects that lead there. -/

namespace EntityQuery.Json

/-- The keys of a path. -/
def pathKeys (path : String) : List String :=
  (Text.splitWhere (· = '.') path.toList).map String.ofList

/-- The value below a document that the keys lead to. -/
def descend? (doc : Json) : List String → Option Json
  | [] => some doc
  | key :: keys => doc.member? key |>.bind (descend? · keys)

/-- The value at the end of a path. -/
def fieldAt? (doc : Json) (path : String) : Option Json := doc.descend? (pathKeys path)

/-- The members with a value put in under the keys, inside objects that are made where there is
nothing. Below a value that is no object nothing is put in. -/
def insertBelow (value : Json) : List String → List (String × Json) → List (String × Json)
  | [], members => members
  | [key], members => insert key value members
  | key :: keys, members =>
    match lookup key members with
    | none => insert key (object (insertBelow value keys [])) members
    | some (object inner) => insert key (object (insertBelow value keys inner)) members
    | some _ => members

/-- What a document holds at the ends of the given paths. -/
def project (doc : Json) (paths : List String) : Json :=
  object <| paths.foldl (fun members path =>
    match doc.fieldAt? path with
    | none => members
    | some value => insertBelow value (pathKeys path) members) []

end EntityQuery.Json
