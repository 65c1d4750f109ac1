import EntityQuery.Settings.Basic
import EntityQuery.Toml.Document

/-! # Settings as text

Settings are spelled out as a TOML document with a table for each section. What a document leaves
out has its default, and what it says beyond is passed over. A section may also be an array of its
numbers in their order; a time in the place of a section says nothing about its numbers. -/

namespace EntityQuery

namespace Toml

/-- A number that is not negative. -/
def Value.natural? : Value → Option Nat
  | .integer n => if 0 ≤ n then some n.toNat else none
  | _ => none

/-- The number of a section that has the given name and stands at the given place. -/
def Value.field? (v : Value) (index : Nat) (name : String) (default : Nat) : Option Nat :=
  match v with
  | .table members => (members.lookup name).elim (some default) natural?
  | .array items => items[index]?.elim (some default) natural?
  | .moment => some default
  | _ => none

end Toml

open Toml

/-- The limits of queries that a section spells out. -/
def QueryLimits.ofValue? (v : Value) : Option QueryLimits := do
  let usual : QueryLimits := {}
  return ⟨← v.field? 0 "default_limit" usual.defaultLimit,
    ← v.field? 1 "max_limit" usual.maxLimit, ← v.field? 2 "scan_page_size" usual.scanPageSize⟩

/-- The limits of searches that a section spells out. -/
def ReconcileLimits.ofValue? (v : Value) : Option ReconcileLimits := do
  let usual : ReconcileLimits := {}
  return ⟨← v.field? 0 "max_candidate_pages" usual.maxCandidatePages⟩

/-- The limits of repairs that a section spells out. -/
def RepairLimits.ofValue? (v : Value) : Option RepairLimits := do
  let usual : RepairLimits := {}
  return ⟨← v.field? 0 "batch_size" usual.batchSize⟩

namespace Settings

/-- The settings that a document spells out, which may still be refused by `check`. -/
def ofDocument? (members : List (String × Value)) : Option Settings := do
  let part {α : Type} (name : String) (read : Value → Option α) (usual : α) : Option α :=
    (members.lookup name).elim (some usual) read
  return ⟨← part "query" QueryLimits.ofValue? {}, ← part "reconcile" ReconcileLimits.ofValue? {},
    ← part "repair" RepairLimits.ofValue? {}⟩

/-- The settings that the text of a file spells out. -/
def ofFile (path text : String) : Except SettingsError Settings := do
  let some members := Toml.ofText? text | .error (.parse path)
  let some s := ofDocument? members | .error (.parse path)
  s.check
  return s

/-- The settings that a text spells out. -/
def ofText (text : String) : Except SettingsError Settings := ofFile "<inline>" text

/-- The settings as a document. Numbers must fit 64 bits with a sign. -/
def toText (s : Settings) : Except SettingsError String :=
  if s.fields.all fun (_, n) => (signedWord? n).isSome then
    let shown (part : SettingsSection) : String :=
      "[" ++ part.name ++ "]\n" ++ String.join (part.fields.map fun (name, n) => s!"{name} = {n}\n")
    .ok ("\n".intercalate (s.sections.map shown))
  else .error .tooLarge

end Settings

end EntityQuery
