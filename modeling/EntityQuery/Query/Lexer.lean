import EntityQuery.Query.ParseError
import EntityQuery.Text.Alphabetic
import EntityQuery.Text.Blank
import EntityQuery.Text.Digits
import EntityQuery.Text.Numeral

/-! # Cutting a query into words

Blanks separate words and are skipped. A word is taken from the start of the text that is left: a
quoted text up to its closing quote, the longest run of characters that can belong to a number or
to a name, or a sign. Every word takes at least one character, so the cutting ends. -/

namespace EntityQuery.Query

/-- The length in bytes of a list of characters. -/
def byteLength (cs : List Char) : Nat := cs.foldr (fun c n => c.utf8Size + n) 0

/-- A character that can start a name. -/
def startsName (c : Char) : Bool := Text.isAlphabetic c || c = '_'

/-- A character that can stand inside a name. -/
def continuesName (c : Char) : Bool :=
  Text.isAlphabetic c || Text.isNumeral c || c = '_' || c = '-' || c = '.'

/-- A character that starts an exponent. -/
def marksExponent (c : Char) : Bool := c = 'e' || c = 'E'

/-- The characters that go on a number, and what follows them: digits, a point unless there has
been a point or an exponent, the mark of an exponent, and a sign right after it. -/
def numberTail (hasPoint afterMark : Bool) : List Char → List Char × List Char
  | [] => ([], [])
  | c :: rest =>
    if c.isDigit || (c = '.' && !hasPoint) || marksExponent c ||
        (afterMark && (c = '+' || c = '-')) then
      let (text, rest) := numberTail (hasPoint || c = '.' || marksExponent c) (marksExponent c) rest
      (c :: text, rest)
    else ([], c :: rest)

/-- The exponent that is written after its mark: digits with an optional sign, nothing else. -/
def exponentValue? : List Char → Option Int
  | '-' :: ds => if ds ≠ [] ∧ ds.all Char.isDigit then some (-Text.digitsValue ds) else none
  | '+' :: ds => if ds ≠ [] ∧ ds.all Char.isDigit then some (Text.digitsValue ds) else none
  | ds => if ds ≠ [] ∧ ds.all Char.isDigit then some (Text.digitsValue ds) else none

/-- The double nearest to a number that is written with a point or an exponent. There must be a
digit before the exponent, and at most one exponent. -/
def float? (negative : Bool) (text : List Char) : Option Binary64 := do
  let mantissa := text.takeWhile (!marksExponent ·)
  let exponent ← match text.dropWhile (!marksExponent ·) with
    | [] => some 0
    | _ :: rest => exponentValue? rest
  let whole := mantissa.takeWhile Char.isDigit
  let fraction := (mantissa.dropWhile Char.isDigit).drop 1
  if whole.isEmpty ∧ fraction.isEmpty then none
  else Decimal.nearest? negative ⟨Text.digitsValue (whole ++ fraction), exponent - fraction.length⟩

/-- The integer that digits denote, if it fits 64 bits. -/
def int? (negative : Bool) (ds : List Char) : Option Int64 :=
  let n : Int := if negative then -Text.digitsValue ds else Text.digitsValue ds
  if ds = [] then none else signedWord? n

/-- The number that a text denotes: a double if it has a point or an exponent, else an integer. -/
def number? (text : List Char) : Option Token :=
  let (negative, size) := match text with
    | '-' :: size => (true, size)
    | size => (false, size)
  if size.all Char.isDigit then (int? negative size).map .int
  else (float? negative size).map .float

/-- The number that starts with the character `c`. -/
def scanNumber (offset : Nat) (c : Char) (rest : List Char) :
    Except ParseError (Token × List Char) :=
  let (text, rest) := numberTail (c = '.') false rest
  match number? (c :: text) with
  | some t => .ok (t, rest)
  | none => .error (.invalidNumber offset (String.ofList (c :: text)))

/-- The rest of a quoted text and what follows its closing quote. A backslash protects a quote of
either kind and a backslash. The text starts at `start`, and `cs` at `offset`. -/
def scanQuoted (start : Nat) (quote : Char) (offset : Nat) :
    List Char → Except ParseError (List Char × List Char)
  | [] => .error (.unterminatedString start)
  | c :: rest =>
    if c = quote then .ok ([], rest)
    else if c = '\\' then
      match rest with
      | [] => .error (.unterminatedString start)
      | e :: rest =>
        if e = '\'' ∨ e = '"' ∨ e = '\\' then
          (scanQuoted start quote (offset + 2) rest).map fun (text, rest) => (e :: text, rest)
        else .error (.invalidEscape offset e)
    else
      (scanQuoted start quote (offset + c.utf8Size) rest).map fun (text, rest) => (c :: text, rest)

/-- A sign that may be followed by an equals sign. -/
def scanOrder (plain orEqual : Sign) : List Char → Token × List Char
  | '=' :: rest => (.sign orEqual, rest)
  | rest => (.sign plain, rest)

/-- A sign that starts with the character `c`. -/
def scanSign (offset : Nat) (c : Char) (rest : List Char) :
    Except ParseError (Token × List Char) :=
  match c, rest with
  | '=', _ => .ok (.sign .equal, rest)
  | '(', _ => .ok (.sign .openParen, rest)
  | ')', _ => .ok (.sign .closeParen, rest)
  | ',', _ => .ok (.sign .comma, rest)
  | '*', _ => .ok (.sign .star, rest)
  | '<', _ => .ok (scanOrder .less .lessEqual rest)
  | '>', _ => .ok (scanOrder .greater .greaterEqual rest)
  | '&', '&' :: rest => .ok (.sign .both, rest)
  | '|', '|' :: rest => .ok (.sign .either, rest)
  | _, _ => .error (.unexpectedChar offset c)

/-- Whether a number starts with the character `c`: with a digit, with a point before a digit, or
with a minus before one of these. -/
def startsNumber (c : Char) (rest : List Char) : Bool :=
  c.isDigit || match rest with
    | d :: _ => (c = '.' && d.isDigit) || (c = '-' && (d.isDigit || d = '.'))
    | [] => false

/-- The first word of a text that starts at `offset` with the character `c`. -/
def scanToken (offset : Nat) (c : Char) (rest : List Char) :
    Except ParseError (Token × List Char) :=
  if c = '\'' ∨ c = '"' then
    (scanQuoted offset c (offset + 1) rest).map fun (text, rest) =>
      (.quoted (String.ofList text), rest)
  else if startsNumber c rest then scanNumber offset c rest
  else if startsName c then
    .ok (.name (String.ofList (c :: rest.takeWhile continuesName)), rest.dropWhile continuesName)
  else scanSign offset c rest

theorem length_numberTail (hasPoint afterMark : Bool) (cs : List Char) :
    (numberTail hasPoint afterMark cs).2.length ≤ cs.length := by
  fun_induction numberTail hasPoint afterMark cs <;> grind

/-- A result that comes through `Except.map` comes from a result. -/
theorem map_eq_ok_iff {ε α β : Type} {f : α → β} {x : Except ε α} {b : β} :
    x.map f = .ok b ↔ ∃ a, x = .ok a ∧ f a = b := by
  cases x <;> simp [Except.map]

theorem length_scanQuoted {start offset : Nat} {quote : Char} {cs text rest : List Char}
    (h : scanQuoted start quote offset cs = .ok (text, rest)) : rest.length < cs.length := by
  fun_induction scanQuoted start quote offset cs generalizing text <;>
    grind [map_eq_ok_iff]

theorem length_scanSign {offset : Nat} {c : Char} {cs rest : List Char} {t : Token}
    (h : scanSign offset c cs = .ok (t, rest)) : rest.length ≤ cs.length := by
  unfold scanSign scanOrder at h
  split at h <;> grind

/-- A word takes at least the character that it starts with. -/
theorem length_scanToken {offset : Nat} {c : Char} {cs rest : List Char} {t : Token}
    (h : scanToken offset c cs = .ok (t, rest)) : rest.length ≤ cs.length := by
  unfold scanToken at h
  split at h
  · obtain ⟨⟨text, left⟩, hq, ht⟩ := map_eq_ok_iff.1 h
    have := length_scanQuoted hq
    grind
  · split at h
    · have := length_numberTail (c = '.') false cs
      unfold scanNumber at h
      grind
    · split at h
      · have hname := List.takeWhile_append_dropWhile (p := continuesName) (l := cs)
        have := congrArg List.length hname
        grind
      · exact length_scanSign h

/-- The words of a text that starts at `offset`. -/
def scanFrom (offset : Nat) (cs : List Char) : Except ParseError (List Located) :=
  match cs with
  | [] => .ok []
  | c :: rest =>
    if Text.isBlank c then scanFrom (offset + c.utf8Size) rest
    else match h : scanToken offset c rest with
      | .error e => .error e
      | .ok (t, left) =>
        have := length_scanToken h
        (scanFrom (offset + (byteLength (c :: rest) - byteLength left)) left).map (⟨t, offset⟩ :: ·)
termination_by cs.length

/-- The words of a query. -/
def tokenize (text : String) : Except ParseError (List Located) := scanFrom 0 text.toList

end EntityQuery.Query
