/-! # A 64-bit hash of bytes

The XXH64 function with seed zero. Stripes of 32 bytes feed four lanes, which are folded into one
word; the bytes that are left over follow in words of eight, of four and singly, and a last mixing
spreads every bit over the result. -/

namespace EntityQuery.XXHash

def prime1 : UInt64 := 0x9E3779B185EBCA87
def prime2 : UInt64 := 0xC2B2AE3D27D4EB4F
def prime3 : UInt64 := 0x165667B19E3779F9
def prime4 : UInt64 := 0x85EBCA77C2B2AE63
def prime5 : UInt64 := 0x27D4EB2F165667C5

/-- The bits of `x` turned to the left by `n` places. -/
def rotate (x : UInt64) (n : UInt64) : UInt64 := (x <<< n) ||| (x >>> (64 - n))

/-- The word whose bytes are given, the lowest first. -/
def littleEndian (bytes : List UInt8) : UInt64 :=
  bytes.foldr (fun b w => (w <<< 8) ||| b.toUInt64) 0

/-- The bytes of a word, the lowest first. -/
def bytesOf (word : UInt64) : List UInt8 :=
  (List.range 8).map fun i => (word >>> (8 * UInt64.ofNat i)).toUInt8

/-- One step of a lane. -/
def mix (lane input : UInt64) : UInt64 := rotate (lane + input * prime2) 31 * prime1

/-- Folds a lane into the word of all lanes. -/
def fold (word lane : UInt64) : UInt64 := (word ^^^ mix 0 lane) * prime1 + prime4

/-- The four lanes. -/
structure Lanes where
  a : UInt64
  b : UInt64
  c : UInt64
  d : UInt64

/-- The lanes before the first stripe. -/
def Lanes.start : Lanes := ⟨prime1 + prime2, prime2, 0, 0 - prime1⟩

/-- The lanes after all whole stripes, and the bytes left over. -/
def Lanes.feed (lanes : Lanes) (bytes : List UInt8) : Lanes × List UInt8 :=
  if h : 32 ≤ bytes.length then
    have : (bytes.drop 32).length < bytes.length := by rw [List.length_drop]; omega
    let lane (i : Nat) : UInt64 := littleEndian ((bytes.drop (8 * i)).take 8)
    feed ⟨mix lanes.a (lane 0), mix lanes.b (lane 1), mix lanes.c (lane 2), mix lanes.d (lane 3)⟩
      (bytes.drop 32)
  else (lanes, bytes)
termination_by bytes.length

/-- The word of all lanes. -/
def Lanes.merge (l : Lanes) : UInt64 :=
  let word := rotate l.a 1 + rotate l.b 7 + rotate l.c 12 + rotate l.d 18
  fold (fold (fold (fold word l.a) l.b) l.c) l.d

/-- Takes in single bytes. -/
def finishBytes (word : UInt64) (bytes : List UInt8) : UInt64 :=
  bytes.foldl (fun w b => rotate (w ^^^ (b.toUInt64 * prime5)) 11 * prime1) word

/-- Takes in a half word, if there is one, and single bytes. -/
def finishHalf (word : UInt64) (bytes : List UInt8) : UInt64 :=
  if 4 ≤ bytes.length then
    finishBytes (rotate (word ^^^ (littleEndian (bytes.take 4) * prime1)) 23 * prime2 + prime3)
      (bytes.drop 4)
  else finishBytes word bytes

/-- Takes in the bytes left over by the stripes. -/
def finishWords (word : UInt64) (bytes : List UInt8) : UInt64 :=
  if h : 8 ≤ bytes.length then
    have : (bytes.drop 8).length < bytes.length := by rw [List.length_drop]; omega
    finishWords (rotate (word ^^^ mix 0 (littleEndian (bytes.take 8))) 27 * prime1 + prime4)
      (bytes.drop 8)
  else finishHalf word bytes
termination_by bytes.length

/-- Spreads every bit over the whole word. -/
def avalanche (word : UInt64) : UInt64 :=
  let word := (word ^^^ (word >>> 33)) * prime2
  let word := (word ^^^ (word >>> 29)) * prime3
  word ^^^ (word >>> 32)

/-- The hash of a list of bytes. -/
def hash (bytes : List UInt8) : UInt64 :=
  let (lanes, left) := Lanes.start.feed bytes
  let word := if 32 ≤ bytes.length then lanes.merge else prime5
  avalanche (finishWords (word + UInt64.ofNat bytes.length) left)

end EntityQuery.XXHash
