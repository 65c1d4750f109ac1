/-! # Bytes as letters

Base 64 with the alphabet for addresses and file names, without padding. Three bytes are four
letters; one or two bytes at the end are two or three letters, whose spare bits are zero. A text
with spare bits that are not zero is refused, so every list of bytes has one written form. -/

namespace EntityQuery.Base64Url

/-- The letter for a number below 64. -/
def letter (n : Nat) : Char :=
  if n < 26 then Char.ofNat ('A'.toNat + n)
  else if n < 52 then Char.ofNat ('a'.toNat + (n - 26))
  else if n < 62 then Char.ofNat ('0'.toNat + (n - 52))
  else if n = 62 then '-'
  else '_'

/-- The number of a letter. -/
def value? (c : Char) : Option Nat :=
  if 'A' ≤ c ∧ c ≤ 'Z' then some (c.toNat - 'A'.toNat)
  else if 'a' ≤ c ∧ c ≤ 'z' then some (c.toNat - 'a'.toNat + 26)
  else if '0' ≤ c ∧ c ≤ '9' then some (c.toNat - '0'.toNat + 52)
  else if c = '-' then some 62
  else if c = '_' then some 63
  else none

/-- The letters for a list of bytes. -/
def encode : List UInt8 → List Char
  | [] => []
  | [a] =>
    let n := a.toNat * 16
    [letter (n / 64), letter (n % 64)]
  | [a, b] =>
    let n := (a.toNat * 256 + b.toNat) * 4
    [letter (n / 4096), letter (n / 64 % 64), letter (n % 64)]
  | a :: b :: c :: rest =>
    let n := (a.toNat * 256 + b.toNat) * 256 + c.toNat
    letter (n / 262144) :: letter (n / 4096 % 64) :: letter (n / 64 % 64) :: letter (n % 64) ::
      encode rest

/-- The bytes that letters stand for. -/
def decode? : List Char → Option (List UInt8)
  | [] => some []
  | [_] => none
  | [x, y] => do
    let n := (← value? x) * 64 + (← value? y)
    if n % 16 = 0 then some [UInt8.ofNat (n / 16)] else none
  | [x, y, z] => do
    let n := ((← value? x) * 64 + (← value? y)) * 64 + (← value? z)
    if n % 4 = 0 then some [UInt8.ofNat (n / 1024), UInt8.ofNat (n / 4 % 256)] else none
  | x :: y :: z :: w :: rest => do
    let n := (((← value? x) * 64 + (← value? y)) * 64 + (← value? z)) * 64 + (← value? w)
    let bytes ← decode? rest
    return UInt8.ofNat (n / 65536) :: UInt8.ofNat (n / 256 % 256) :: UInt8.ofNat (n % 256) :: bytes

end EntityQuery.Base64Url
