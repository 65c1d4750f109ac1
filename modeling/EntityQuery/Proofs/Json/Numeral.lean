import EntityQuery.Json.Reader
import EntityQuery.Json.Writer
import EntityQuery.Proofs.Text.Digits
import Mathlib.Data.List.TakeWhile

/-! # Numbers read back from JSON texts

The text of a number consists of the characters that numbers are written with, and the text of an
integer is read back as that integer.

* `Json.inNumeral_of_ofText?`: what a numeral is read from.
* `Json.Number.reads_natural`, `Json.Number.reads_negative`: the texts of integers. -/

namespace EntityQuery.Json

open Text

/-! ## What a numeral is read from -/

/-- A reader of a part of a numeral goes from `cs` to `rest` over characters of numbers. -/
def Advances (cs rest : List Char) : Prop :=
  ∃ part, cs = part ++ rest ∧ ∀ c ∈ part, inNumeral c = true

variable {cs ds rest more : List Char}

theorem Advances.refl (cs : List Char) : Advances cs cs := ⟨[], rfl, by simp⟩

theorem Advances.trans (h : Advances cs rest) (h' : Advances rest more) : Advances cs more := by
  obtain ⟨part, rfl, hpart⟩ := h
  obtain ⟨part', rfl, hpart'⟩ := h'
  refine ⟨part ++ part', by simp, fun c hc => ?_⟩
  rcases List.mem_append.mp hc with hc | hc
  · exact hpart c hc
  · exact hpart' c hc

theorem Advances.cons {c : Char} (hc : inNumeral c = true) (h : Advances cs rest) :
    Advances (c :: cs) rest :=
  .trans ⟨[c], rfl, by simpa using hc⟩ h

theorem digits?_eq_some (h : digits? cs = some (ds, rest)) :
    cs = ds ++ rest ∧ ∀ c ∈ ds, c.isDigit = true := by
  unfold digits? at h
  split at h
  · cases h
  · cases h
    exact ⟨List.takeWhile_append_dropWhile.symm, fun c hc => List.mem_takeWhile_imp hc⟩

theorem advances_digits? (h : digits? cs = some (ds, rest)) : Advances cs rest := by
  obtain ⟨hcs, hds⟩ := digits?_eq_some h
  exact ⟨ds, hcs, fun c hc => by simp [inNumeral, hds c hc]⟩

theorem advances_wholePart? (h : wholePart? cs = some (ds, rest)) : Advances cs rest := by
  unfold wholePart? at h
  split at h
  · cases h
    exact .cons rfl (.refl _)
  · exact advances_digits? h

theorem advances_fractionPart? {fraction : Option (List Char)}
    (h : fractionPart? cs = some (fraction, rest)) : Advances cs rest := by
  unfold fractionPart? at h
  split at h
  · obtain ⟨⟨ds, more⟩, hds, heq⟩ := Option.map_eq_some_iff.mp h
    cases heq
    exact .cons rfl (advances_digits? hds)
  · cases h
    exact .refl _

theorem advances_exponentPart? {exponent : Option (Bool × List Char)}
    (h : exponentPart? cs = some (exponent, rest)) : Advances cs rest := by
  unfold exponentPart? at h
  split at h
  · rename_i mark tail
    split_ifs at h with hmark
    · obtain ⟨⟨ds, more⟩, hds, heq⟩ := Option.map_eq_some_iff.mp h
      cases heq
      have hmark' : inNumeral mark = true := by rcases hmark with rfl | rfl <;> rfl
      refine .cons hmark' ?_
      split at hds
      · exact .cons rfl (advances_digits? hds)
      · exact .cons rfl (advances_digits? hds)
      · exact advances_digits? hds
    · cases h
      exact .refl _
  · cases h
    exact .refl _

/-- The numeral of a sign that has been read and what follows it. -/
def Numeral.afterSign? (negative : Bool) (cs : List Char) : Option Numeral := do
  let (whole, cs) ← wholePart? cs
  let (fraction, cs) ← fractionPart? cs
  let (exponent, cs) ← exponentPart? cs
  if cs.isEmpty then return ⟨negative, whole, fraction, exponent⟩ else none

theorem Numeral.ofText?_minus (cs : List Char) :
    Numeral.ofText? ('-' :: cs) = Numeral.afterSign? true cs := rfl

theorem Numeral.ofText?_of_ne (hcs : cs.head? ≠ some '-') :
    Numeral.ofText? cs = Numeral.afterSign? false cs := by
  unfold Numeral.ofText?
  split
  rename_i negative tail hmatch
  split at hmatch
  · simp at hcs
  · cases hmatch
    rfl

theorem Numeral.inNumeral_of_afterSign? {negative : Bool} {n : Numeral}
    (h : Numeral.afterSign? negative cs = some n) : ∀ c ∈ cs, inNumeral c = true := by
  simp only [Numeral.afterSign?, Option.bind_eq_bind, Option.bind_eq_some_iff, Prod.exists] at h
  obtain ⟨whole, tail₁, hwhole, fraction, tail₂, hfraction, exponent, tail₃, hexponent, h⟩ := h
  split_ifs at h with hend
  obtain ⟨part, hcs, hpart⟩ := ((advances_wholePart? hwhole).trans
    (advances_fractionPart? hfraction)).trans (advances_exponentPart? hexponent)
  rw [List.isEmpty_iff.mp hend, List.append_nil] at hcs
  rwa [hcs]

/-- **A numeral is read from characters of numbers only**, and not from nothing. -/
theorem inNumeral_of_ofText? {n : Numeral} (h : Numeral.ofText? cs = some n) :
    cs ≠ [] ∧ ∀ c ∈ cs, inNumeral c = true := by
  have hne : cs ≠ [] := by
    rintro rfl
    cases h
  refine ⟨hne, ?_⟩
  by_cases hminus : cs.head? = some '-'
  · obtain ⟨tail, rfl⟩ := List.head?_eq_some_iff.mp hminus
    intro c hc
    rcases List.mem_cons.mp hc with rfl | hc
    · rfl
    · exact Numeral.inNumeral_of_afterSign? (Numeral.ofText?_minus tail ▸ h) c hc
  · exact Numeral.inNumeral_of_afterSign? (Numeral.ofText?_of_ne hminus ▸ h)

/-! ## Integers -/

/-- Digits that do not start with a zero, or a zero alone. -/
def LeadsNoZero (ds : List Char) : Prop := ds.head? = some '0' → ds = ['0']

theorem leadsNoZero_toDigits (n : Nat) : LeadsNoZero (Nat.toDigits 10 n) := by
  induction n using Nat.strongRecOn with
  | ind n ih =>
    intro hhead
    by_cases hn : n < 10
    · rw [Nat.toDigits_of_lt_base hn] at hhead ⊢
      simpa using hhead
    · have hbig : 10 ≤ n := by omega
      have hlast := Nat.toDigits_of_base_le (by decide) hbig
      rw [hlast, List.head?_append, Option.or_of_isSome
        (by simp [List.isSome_head?, Nat.toDigits_ne_nil])] at hhead
      have hzero := congrArg (Nat.ofDigitChars 10 · 0) (ih (n / 10) (by omega) hhead)
      simp only [Nat.ofDigitChars_ten_toDigits] at hzero
      have : n / 10 = 0 := hzero
      omega

theorem digits?_of_isDigit (hne : ds ≠ []) (hds : ∀ c ∈ ds, c.isDigit = true) :
    digits? ds = some (ds, []) := by
  unfold digits?
  rw [List.takeWhile_eq_self_iff.mpr hds, List.dropWhile_eq_nil_iff.mpr hds]
  cases ds with
  | nil => exact absurd rfl hne
  | cons d ds => rfl

theorem wholePart?_of_isDigit (hne : ds ≠ []) (hds : ∀ c ∈ ds, c.isDigit = true)
    (hzero : LeadsNoZero ds) : wholePart? ds = some (ds, []) := by
  unfold wholePart?
  split
  · obtain rfl := (List.cons.inj (hzero rfl)).2
    rfl
  · exact digits?_of_isDigit hne hds

theorem Numeral.afterSign?_digits (negative : Bool) (hne : ds ≠ [])
    (hds : ∀ c ∈ ds, c.isDigit = true) (hzero : LeadsNoZero ds) :
    Numeral.afterSign? negative ds = some ⟨negative, ds, none, none⟩ := by
  simp [Numeral.afterSign?, wholePart?_of_isDigit hne hds hzero, fractionPart?, exponentPart?]

theorem Numeral.afterSign?_toDigits (negative : Bool) (n : Nat) :
    Numeral.afterSign? negative (Nat.toDigits 10 n) =
      some ⟨negative, Nat.toDigits 10 n, none, none⟩ :=
  afterSign?_digits negative Nat.toDigits_ne_nil
    (fun _ hc => isDigit_of_mem_toDigits hc) (leadsNoZero_toDigits n)

namespace Number

/-- The numeral that the text of a number is. -/
def numeral? (n : Number) : Option Numeral := Numeral.ofText? n.text.toList

theorem numeral?_natural (n : UInt64) :
    (natural n).numeral? = some ⟨false, Nat.toDigits 10 n.toNat, none, none⟩ := by
  have htext : (natural n).text.toList = Nat.toDigits 10 n.toNat := Nat.toList_repr
  have hsign : (Nat.toDigits 10 n.toNat).head? ≠ some '-' := fun h =>
    absurd (isDigit_of_mem_toDigits (List.mem_of_head? h)) (by decide)
  rw [numeral?, htext, Numeral.ofText?_of_ne hsign, Numeral.afterSign?_toDigits]

theorem numeral?_negative {n : Int64} (hn : n.toInt < 0) :
    (negative n).numeral? = some ⟨true, Nat.toDigits 10 n.toInt.natAbs, none, none⟩ := by
  have htext : (negative n).text.toList = '-' :: Nat.toDigits 10 n.toInt.natAbs := by
    have habs : (-n.toInt).toNat = n.toInt.natAbs := by omega
    show (toString n.toInt).toList = _
    rw [Int.toString_eq_repr, Int.repr_eq_if, if_neg (by omega), String.toList_append,
      Nat.toList_repr, habs]
    rfl
  rw [numeral?, htext, Numeral.ofText?_minus, Numeral.afterSign?_toDigits]

theorem reads_natural (n : UInt64) :
    ∃ m, (natural n).numeral? = some m ∧ m.natural? = some n := by
  refine ⟨_, numeral?_natural n, ?_⟩
  have hn : n.toNat < UInt64.size := n.toNat_lt
  simp only [Numeral.natural?, Numeral.integer?, digitsValue_toDigits, Option.isNone_none, and_self,
    if_true, Option.bind_eq_bind, Option.bind_some, Bool.false_eq_true, if_false, word?,
    Int.toNat_natCast, hn, UInt64.ofNat_toNat]

theorem reads_negative {n : Int64} (hn : n.toInt < 0) :
    ∃ m, (negative n).numeral? = some m ∧ m.natural? = none ∧ m.negative? = some n := by
  refine ⟨_, numeral?_negative hn, by simp [Numeral.natural?, Numeral.integer?], ?_⟩
  have hback : -(n.toInt.natAbs : Int) = n.toInt := by omega
  have hle : Int64.minValue.toInt ≤ n.toInt := n.le_toInt
  have hge : n.toInt ≤ Int64.maxValue.toInt := n.toInt_le
  simp only [Numeral.negative?, Numeral.integer?, digitsValue_toDigits, Option.isNone_none,
    and_self, if_true, Option.bind_eq_bind, Option.bind_some, hback, hn, signedWord?, hle, hge,
    Int64.ofInt_toInt]

end Number

end EntityQuery.Json
