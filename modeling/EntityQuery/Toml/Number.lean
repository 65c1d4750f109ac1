import EntityQuery.Number.Decimal
import EntityQuery.Number.Word
import EntityQuery.Toml.Table
import EntityQuery.Toml.Text

/-! # Numbers and times in a document

A whole number is decimal, or written in another base behind a mark for it; it fits 64 bits. Single
underscores may stand between digits. A number with a fraction or an exponent must not be too large.
Dates and times exist in the calendar; a minute may have a second more than sixty. -/

namespace EntityQuery.Toml

open Text Reader

/-- Digits in a base, with single underscores between them. -/
def digits (base : Nat) : Reader (List Char) := do
  let first ← one (isDigitIn base)
  let rest ← many do
    let _ ← optional (char '_')
    one (isDigitIn base)
  return first :: rest

/-- Whether a minus stands in front. -/
def sign : Reader Bool :=
  (do let _ ← char '-'; return true) <|> (do let _ ← char '+'; return false) <|> return false

/-- A whole number that fits 64 bits. -/
def fitting (n : Int) : Reader Value :=
  if (signedWord? n).isSome then return .integer n else failure

/-- A whole number behind a mark for its base. -/
def marked (mark : String) (base : Nat) : Reader Value := do
  exactly mark
  fitting (valueIn base (← digits base))

/-- The digits of a whole number, which has no zeros in front. -/
def wholeDigits : Reader (List Char) :=
  (do return [← char '0']) <|> digits 10

/-- An exponent of ten. -/
def exponent : Reader Int := do
  let _ ← one fun c => c = 'e' || c = 'E'
  let negative ← sign
  let n := digitsValue (← digits 10)
  return if negative then -n else n

/-- A decimal number. -/
def decimal : Reader Value := do
  let negative ← sign
  let whole ← wholeDigits
  let fraction ← optional do
    let _ ← char '.'
    digits 10
  let power ← optional exponent
  if fraction.isNone && power.isNone then
    let n : Int := digitsValue whole
    fitting (if negative then -n else n)
  else
    let places := fraction.getD []
    let size : Decimal := ⟨digitsValue (whole ++ places), power.getD 0 - places.length⟩
    if negative || (size.nearest? false).isSome then return .real else failure

/-- A number that is none or is beyond all others. -/
def special : Reader Value := do
  let _ ← sign
  exactly "inf" <|> exactly "nan"
  return .real

/-- A number. -/
def number : Reader Value :=
  marked "0x" 16 <|> marked "0o" 8 <|> marked "0b" 2 <|> decimal <|> special

/-- A number of so many digits within bounds. -/
def fieldIn (count least most : Nat) : Reader Nat := do
  let n := digitsValue (← times (one Char.isDigit) count)
  check (fun n => least ≤ n && n ≤ most) n

/-- How many days a month has. -/
def daysIn (year month : Nat) : Nat :=
  if month = 2 then if year % 4 = 0 ∧ (year % 100 ≠ 0 ∨ year % 400 = 0) then 29 else 28
  else if month = 4 ∨ month = 6 ∨ month = 9 ∨ month = 11 then 30
  else 31

/-- A day of the calendar. -/
def date : Reader Unit := do
  let year ← fieldIn 4 0 9999
  let _ ← char '-'
  let month ← fieldIn 2 1 12
  let _ ← char '-'
  let _ ← fieldIn 2 1 (daysIn year month)

/-- A time of day. -/
def time : Reader Unit := do
  let _ ← fieldIn 2 0 23
  let _ ← char ':'
  let _ ← fieldIn 2 0 59
  let _ ← char ':'
  let _ ← fieldIn 2 0 60
  let _ ← optional do
    let _ ← char '.'
    let _ ← one Char.isDigit
    run Char.isDigit

/-- The distance of a time of day from that of the prime meridian. -/
def offset : Reader Unit :=
  (do let _ ← one fun c => c = 'Z' || c = 'z') <|> do
    let _ ← one fun c => c = '+' || c = '-'
    let _ ← fieldIn 2 0 23
    let _ ← char ':'
    let _ ← fieldIn 2 0 59

/-- A day, a time of day, or both. -/
def moment : Reader Value := do
  let timed : Reader Unit := do
    let _ ← one fun c => c = 'T' || c = 't' || c = ' '
    time
    let _ ← optional offset
  (do date; let _ ← optional timed) <|> time
  return .moment

end EntityQuery.Toml
