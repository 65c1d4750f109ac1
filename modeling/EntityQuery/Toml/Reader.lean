/-! # Readers

A reader takes what it reads off the front of a text, or refuses the text. Where one reader refuses,
another can be tried on the same text. -/

namespace EntityQuery.Toml

/-- Reads a value off the front of a text. -/
abbrev Reader (α : Type) := StateT (List Char) Option α

namespace Reader

variable {α : Type}

/-- A character that passes a test. -/
def one (test : Char → Bool) : Reader Char
  | [] => none
  | c :: rest => if test c then some (c, rest) else none

/-- A given character. -/
def char (c : Char) : Reader Char := one (· = c)

/-- The longest run of characters that pass a test. -/
def run (test : Char → Bool) : Reader (List Char) := fun cs =>
  some (cs.takeWhile test, cs.dropWhile test)

/-- A given text. -/
def exactly (word : String) : Reader Unit := fun cs =>
  if word.toList.isPrefixOf cs then some ((), cs.drop word.length) else none

/-- The end of the text. -/
def atEnd : Reader Unit
  | [] => some ((), [])
  | _ :: _ => none

/-- Items one after another, as long as there is a further one. An item that takes nothing off the
text is none. -/
def many (item : Reader α) (cs : List Char) : Option (List α × List Char) :=
  match item cs with
  | none => some ([], cs)
  | some (a, rest) =>
    if rest.length < cs.length then
      (many item rest).map fun (items, rest) => (a :: items, rest)
    else some ([], cs)
termination_by cs.length

/-- A number of items one after another. -/
def times (item : Reader α) : Nat → Reader (List α)
  | 0 => return []
  | n + 1 => do
    let a ← item
    let items ← times item n
    return a :: items

/-- At least one item, with a separator between any two. -/
def separated (separator : Reader Char) (item : Reader α) : Reader (List α) := do
  let a ← item
  let items ← many (do let _ ← separator; item)
  return a :: items

/-- What passes a test. -/
def check (test : α → Bool) (a : α) : Reader α := if test a then return a else failure

end Reader

end EntityQuery.Toml
