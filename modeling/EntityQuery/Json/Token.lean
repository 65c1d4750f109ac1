import EntityQuery.Text.Digits
import EntityQuery.Text.Spelling

/-! # The words of a JSON text

A JSON text is cut into brackets, commas, colons, strings, numbers and the three literal names,
with blanks between them. Strings are unescaped here; numbers keep their digits, since what they
mean depends on where they stand. A string may be well formed and yet hold something that is no
character: a byte that belongs to none, or half of a surrogate pair. Such a string has no text. -/

namespace EntityQuery.Json

open Text

/-- A number as written. -/
structure Numeral where
  /-- Whether a minus stands in front. -/
  negative : Bool
  /-- The digits before the point. -/
  whole : List Char
  /-- The digits after the point, if there is one. -/
  fraction : Option (List Char)
  /-- The sign (`true` for a minus) and the digits of the exponent, if there is one. -/
  exponent : Option (Bool × List Char)
  deriving DecidableEq

/-- A word of a JSON text. -/
inductive Token where
  | openArray
  | closeArray
  | openObject
  | closeObject
  | comma
  | colon
  | null
  | bool (b : Bool)
  | number (n : Numeral)
  /-- A string, with its text if it has one. -/
  | string (s : Option String)
  deriving DecidableEq

/-- The blanks that may stand between words. -/
def isSpace (c : Char) : Bool :=
  c = ' ' || c = '\n' || c = '\t' || c = '\r'

/-- The value of four hexadecimal digits. -/
def hexQuad? (a b c d : Option Char) : Option Nat := do
  return (((← a.bind hexValue?) * 16 + (← b.bind hexValue?)) * 16 + (← c.bind hexValue?)) * 16 +
    (← d.bind hexValue?)

/-- The character written by a backslash and one character. -/
def unescape? (c : Char) : Option Char :=
  if c = '"' ∨ c = '\\' ∨ c = '/' then some c
  else if c = 'b' then some '\x08'
  else if c = 'f' then some '\x0c'
  else if c = 'n' then some '\n'
  else if c = 'r' then some '\r'
  else if c = 't' then some '\t'
  else none

/-- The character written after a backslash, and what follows it. A character beyond the basic
plane is written as two surrogates; a surrogate alone is no character. -/
def escaped? : Spelling → Option (Option Char × Spelling)
  | some 'u' :: a :: b :: c :: d :: rest => do
    let high ← hexQuad? a b c d
    if high < 0xD800 ∨ 0xDFFF < high then return (some (Char.ofNat high), rest)
    else if 0xDC00 ≤ high then return (none, rest)
    else match rest with
      | some '\\' :: some 'u' :: a :: b :: c :: d :: after => do
        let low ← hexQuad? a b c d
        if low < 0xDC00 ∨ 0xDFFF < low then return (none, rest)
        else return (some (Char.ofNat (0x10000 + (high - 0xD800) * 0x400 + (low - 0xDC00))), after)
      | _ => return (none, rest)
  | some c :: rest => (unescape? c).map fun plain => (some plain, rest)
  | _ => none

theorem length_escaped? {cs rest : Spelling} {c : Option Char} (h : escaped? cs = some (c, rest)) :
    rest.length < cs.length := by
  unfold escaped? at h
  split at h
  · simp only [Option.bind_eq_bind, Option.bind_eq_some_iff] at h
    obtain ⟨high, -, h⟩ := h
    split at h
    · simp_all only [Option.pure_def, Option.some.injEq, Prod.mk.injEq, List.length_cons]
      omega
    · split at h
      · simp_all only [Option.pure_def, Option.some.injEq, Prod.mk.injEq, List.length_cons]
        omega
      · split at h
        · simp only [Option.bind_eq_some_iff] at h
          obtain ⟨low, -, h⟩ := h
          split at h <;>
          · simp only [Option.pure_def, Option.some.injEq, Prod.mk.injEq] at h
            simp only [← h.2, List.length_cons]
            omega
        · simp_all only [Option.pure_def, Option.some.injEq, Prod.mk.injEq, List.length_cons]
          omega
  · simp only [Option.map_eq_some_iff, Prod.mk.injEq] at h
    obtain ⟨plain, -, -, rfl⟩ := h
    simp
  · simp at h

/-- The rest of a string after its opening quote, unescaped, and what follows the closing quote.
Control characters below the space are refused. -/
def stringBody? (cs : Spelling) : Option (Spelling × Spelling) :=
  match cs with
  | [] => none
  | c :: rest =>
    if c = some '"' then some ([], rest)
    else if c = some '\\' then
      match h : escaped? rest with
      | none => none
      | some (plain, rest) =>
        have := length_escaped? h
        (stringBody? rest).map fun (text, rest) => (plain :: text, rest)
    else if c.any (·.toNat < 0x20) then none
    else (stringBody? rest).map fun (text, rest) => (c :: text, rest)
termination_by cs.length

/-- At least one digit, and what follows the digits. -/
def digits? (cs : List Char) : Option (List Char × List Char) :=
  match cs.takeWhile Char.isDigit with
  | [] => none
  | ds => some (ds, cs.dropWhile Char.isDigit)

/-- The digits before the point: a single zero, or digits that do not start with one. -/
def wholePart? : List Char → Option (List Char × List Char)
  | '0' :: rest => some (['0'], rest)
  | cs => digits? cs

/-- The digits after a point. -/
def fractionPart? : List Char → Option (Option (List Char) × List Char)
  | '.' :: rest => (digits? rest).map fun (ds, rest) => (some ds, rest)
  | cs => some (none, cs)

/-- The sign and the digits after the mark of an exponent. -/
def exponentPart? : List Char → Option (Option (Bool × List Char) × List Char)
  | c :: rest =>
    if c = 'e' ∨ c = 'E' then
      let (negative, rest) := match rest with
        | '-' :: rest => (true, rest)
        | '+' :: rest => (false, rest)
        | _ => (false, rest)
      (digits? rest).map fun (ds, rest) => (some (negative, ds), rest)
    else some (none, c :: rest)
  | [] => some (none, [])

/-- The number that characters write. -/
def Numeral.ofText? (cs : List Char) : Option Numeral := do
  let (negative, cs) := match cs with
    | '-' :: cs => (true, cs)
    | cs => (false, cs)
  let (whole, cs) ← wholePart? cs
  let (fraction, cs) ← fractionPart? cs
  let (exponent, cs) ← exponentPart? cs
  if cs.isEmpty then return ⟨negative, whole, fraction, exponent⟩ else none

/-- The characters that numbers are written with. -/
def inNumeral (c : Char) : Bool :=
  c.isDigit || c = '-' || c = '+' || c = '.' || c = 'e' || c = 'E'

/-- The first word of a text that does not start with a blank, and what follows it. A number goes
as far as the characters that numbers are written with. -/
def Token.scan? : Spelling → Option (Token × Spelling)
  | some '[' :: rest => some (openArray, rest)
  | some ']' :: rest => some (closeArray, rest)
  | some '\x7b' :: rest => some (openObject, rest)
  | some '\x7d' :: rest => some (closeObject, rest)
  | some ',' :: rest => some (comma, rest)
  | some ':' :: rest => some (colon, rest)
  | some '"' :: rest => (stringBody? rest).map fun (text, rest) => (string (textOf? text), rest)
  | some 'n' :: some 'u' :: some 'l' :: some 'l' :: rest => some (null, rest)
  | some 't' :: some 'r' :: some 'u' :: some 'e' :: rest => some (bool true, rest)
  | some 'f' :: some 'a' :: some 'l' :: some 's' :: some 'e' :: rest => some (bool false, rest)
  | cs => (Numeral.ofText? ((cs.takeWhile (·.any inNumeral)).filterMap id)).map fun n =>
    (number n, cs.dropWhile (·.any inNumeral))

theorem length_stringBody? {cs text rest : Spelling} (h : stringBody? cs = some (text, rest)) :
    rest.length < cs.length := by
  fun_induction stringBody? cs generalizing text <;>
    grind [length_escaped?, Option.map_eq_some_iff]

theorem length_dropNumeral {cs : Spelling} {n : Numeral}
    (h : Numeral.ofText? ((cs.takeWhile (·.any inNumeral)).filterMap id) = some n) :
    (cs.dropWhile (·.any inNumeral)).length < cs.length := by
  have hcs := congrArg List.length
    (List.takeWhile_append_dropWhile (p := fun c : Option Char => c.any inNumeral) (l := cs))
  cases ht : cs.takeWhile (·.any inNumeral) with
  | nil => simp [ht, Numeral.ofText?, wholePart?, digits?] at h
  | cons c run =>
    simp only [ht, List.length_append, List.length_cons] at hcs
    omega

theorem length_scan? {t : Token} {cs rest : Spelling} (h : Token.scan? cs = some (t, rest)) :
    rest.length < cs.length := by
  unfold Token.scan? at h
  split at h
  case h_7 =>
    simp only [Option.map_eq_some_iff, Prod.mk.injEq, Prod.exists] at h
    obtain ⟨text, r, hs, -, rfl⟩ := h
    exact Nat.lt_succ_of_lt (length_stringBody? hs)
  case h_11 =>
    simp only [Option.map_eq_some_iff, Prod.mk.injEq] at h
    obtain ⟨n, hn, -, rfl⟩ := h
    exact length_dropNumeral hn
  all_goals
    simp only [Option.some.injEq, Prod.mk.injEq] at h
    rw [← h.2]
    simp only [List.length_cons]
    omega

/-- The words of a text. -/
def tokens? (cs : Spelling) : Option (List Token) :=
  match cs with
  | [] => some []
  | c :: rest =>
    if c.any isSpace then tokens? rest
    else match h : Token.scan? (c :: rest) with
      | none => none
      | some (t, rest) =>
        have := length_scan? h
        (tokens? rest).map (t :: ·)
termination_by cs.length
decreasing_by
  · exact Nat.lt_succ_self _
  · assumption

end EntityQuery.Json
