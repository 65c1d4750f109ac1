import EntityQuery.Text.Digits
import EntityQuery.Toml.Reader

/-! # Texts in a document

A text stands between double quotes, where a backslash starts an escape, or between single quotes,
where it does not. Between three quotes of a kind a text may run over lines. -/

namespace EntityQuery.Toml

open Text Reader

/-- The characters that may stand in a line. -/
def isPrintable (c : Char) : Bool := c = '\t' || (' ' ≤ c && c ≠ '\x7f')

/-- The blanks within a line. -/
def isBlank (c : Char) : Bool := c = ' ' || c = '\t'

/-- Blanks within a line. -/
def blanks : Reader Unit := do
  let _ ← run isBlank

/-- The end of a line that another line follows. -/
def newline : Reader Unit := exactly "\n" <|> exactly "\r\n"

/-- The character with a number that is written in so many hexadecimal digits. -/
def codePoint (digits : Nat) : Reader Char := do
  let n := valueIn 16 (← times (one (isDigitIn 16)) digits)
  if n.isValidChar then return .ofNat n else failure

/-- The character that a backslash and what follows it stand for. -/
def escape : Reader Char := do
  let _ ← char '\\'
  match ← one fun _ => true with
  | 'b' => return '\x08'
  | 't' => return '\t'
  | 'n' => return '\n'
  | 'f' => return '\x0c'
  | 'r' => return '\r'
  | '"' => return '"'
  | '\\' => return '\\'
  | 'u' => codePoint 4
  | 'U' => codePoint 8
  | _ => failure

/-- A text in one line between double quotes. -/
def basicText : Reader String := do
  let _ ← char '"'
  let plain := one fun c => isPrintable c && c ≠ '"' && c ≠ '\\'
  let cs ← many (plain <|> escape)
  let _ ← char '"'
  return .ofList cs

/-- A text in one line between single quotes. -/
def literalText : Reader String := do
  let _ ← char '\''
  let cs ← run fun c => isPrintable c && c ≠ '\''
  let _ ← char '\''
  return .ofList cs

/-- Quotes in a row, of which there are so many. -/
def quotes (quote : Char) (least most : Nat) : Reader Unit := do
  let _ ← check (fun cs => least ≤ cs.length && cs.length ≤ most) (← run (· = quote))

/-- A backslash at the end of a line, and the blanks and lines that it takes away. -/
def lineJoin : Reader Unit := do
  let _ ← char '\\'
  blanks
  newline
  let _ ← many (newline <|> do let _ ← one isBlank)

/-- A text between three quotes of a kind, which may run over lines; what else may stand in it is
given. One or two quotes may stand in it anywhere, also before those that end it. -/
def longText (quote : Char) (other : Reader Unit) : Reader Unit := do
  let _ ← times (char quote) 3
  let _ ← many (newline <|> other <|> quotes quote 1 2)
  quotes quote 3 5

/-- A text between three double quotes. -/
def longBasicText : Reader Unit :=
  longText '"' <|
    (do let _ ← one fun c => isPrintable c && c ≠ '"' && c ≠ '\\') <|> lineJoin <|>
      do let _ ← escape

/-- A text between three single quotes. -/
def longLiteralText : Reader Unit :=
  longText '\'' do let _ ← one fun c => isPrintable c && c ≠ '\''

/-- A text. -/
def text : Reader Unit :=
  longBasicText <|> longLiteralText <|> (do let _ ← basicText) <|> do let _ ← literalText

end EntityQuery.Toml
