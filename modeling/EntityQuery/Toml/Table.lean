/-! # Tables

A TOML document is a table of values under keys. It is filled step by step: a header declares a
table, and a member is set under a path of keys. A table that was declared cannot be declared again,
and a key that holds a value cannot be set again. Tables on the way to a path come into being as
they are needed; what may be done with them later depends on where they came from.

No setting is a text, a truth value, a number with a fraction or a time, so of these only the kind
is kept. -/

namespace EntityQuery.Toml

/-- A value of a document. -/
inductive Value where
  | text
  | truth
  | integer (n : Int)
  | real
  | moment
  | array (items : List Value)
  | table (members : List (String × Value))

/-- Where a table came from. -/
inductive Origin where
  /-- It has a header of its own. -/
  | declared
  /-- It is on the way to a table that has a header. -/
  | implied
  /-- It is on the way to a member. -/
  | dotted
  deriving DecidableEq

/-- What stands under a key while a document is read. -/
inductive Item where
  | value (v : Value)
  | table (origin : Origin) (members : List (String × Item))
  /-- The tables of an array, the latest first. -/
  | tables (last : List (String × Item)) (earlier : List (List (String × Item)))

/-- The members of a table. -/
abbrev Members := List (String × Item)

/-- A path of keys: those that lead to a table, and the key in that table. -/
structure KeyPath where
  parents : List String
  key : String

/-- All keys of a path. -/
def KeyPath.keys (path : KeyPath) : List String := path.parents ++ [path.key]

namespace Members

/-- Puts an item under a key, in the place of what stands there. -/
def put (ms : Members) (key : String) (item : Item) : Members :=
  match ms with
  | [] => [(key, item)]
  | (k, i) :: rest => if k = key then (key, item) :: rest else (k, i) :: put rest key item

/-- Changes the table to which keys lead. Of an array of tables the last one is meant. On the way to
a member, tables that were declared may not be entered. -/
def descend (toMember : Bool) (change : Origin → Members → Option Members) :
    List String → Origin → Members → Option Members
  | [], origin, ms => change origin ms
  | key :: keys, _, ms =>
    match ms.lookup key with
    | none => do
      let origin := if toMember then .dotted else .implied
      return put ms key (.table origin (← descend toMember change keys origin []))
    | some (.value _) => none
    | some (.tables last earlier) => do
      return put ms key (.tables (← descend toMember change keys .declared last) earlier)
    | some (.table origin inner) =>
      if toMember && origin = .declared then none
      else do return put ms key (.table origin (← descend toMember change keys origin inner))

/-- Declares a table. -/
def declare (ms : Members) (path : KeyPath) : Option Members :=
  let change (_ : Origin) (parent : Members) : Option Members :=
    match parent.lookup path.key with
    | none => some (put parent path.key (.table .declared []))
    | some (.table .implied inner) => some (put parent path.key (.table .declared inner))
    | some _ => none
  descend false change path.parents .declared ms

/-- Adds a table to an array of tables. -/
def declareElement (ms : Members) (path : KeyPath) : Option Members :=
  let change (_ : Origin) (parent : Members) : Option Members :=
    match parent.lookup path.key with
    | none => some (put parent path.key (.tables [] []))
    | some (.tables last earlier) => some (put parent path.key (.tables [] (last :: earlier)))
    | some _ => none
  descend false change path.parents .declared ms

/-- Sets a member. A path of more than one key leads to a table that came into being on the way to a
member. -/
def assign (ms : Members) (path : KeyPath) (v : Value) : Option Members :=
  let change (origin : Origin) (parent : Members) : Option Members :=
    if (origin = .dotted) = path.parents.isEmpty then none
    else if (parent.lookup path.key).isSome then none
    else some (put parent path.key (.value v))
  descend true change path.parents .declared ms

/-- Sets a member of the table to which keys lead. -/
def assignIn (ms : Members) (opened : List String) (path : KeyPath) (v : Value) :
    Option Members :=
  descend false (fun _ inner => assign inner path v) opened .declared ms

end Members

mutual

/-- The value of an item. -/
def Item.toValue : Item → Value
  | .value v => v
  | .table _ members => .table (membersToValues members)
  | .tables last earlier =>
    .array ((.table (membersToValues last) :: tablesToValues earlier).reverse)

/-- The values of members. -/
def membersToValues : List (String × Item) → List (String × Value)
  | [] => []
  | (key, item) :: rest => (key, item.toValue) :: membersToValues rest

/-- The values of tables. -/
def tablesToValues : List (List (String × Item)) → List Value
  | [] => []
  | members :: rest => .table (membersToValues members) :: tablesToValues rest

end

end EntityQuery.Toml
