import EntityQuery.Proofs.Number.Shortest
import EntityQuery.Proofs.Text.Digits
import EntityQuery.Proofs.Text.Runs

/-! # Texts of doubles

A double is written as its shortest decimal, in full or with a power of ten. Either way the text has
digits, perhaps a point with more digits and perhaps an exponent, and these parts denote the decimal
that is written. The parts can be told apart in the text, so the text of a double tells the double.

* `Decimal.Parts`: the parts of a text without sign, and the decimal that they denote.
* `Decimal.Parts.ofChars_chars`: the parts are found again in their text.
* `Decimal.exists_parts_positional`, `Decimal.exists_parts_scientific`: the parts of a decimal that
  is written out in full or with a power of ten.
* `Decimal.text_injective`: **doubles with one text are one double**. -/

namespace EntityQuery

namespace Decimal

open Text

/-- The characters of numbers that are written out in full. -/
def inMeasure (c : Char) : Bool := c.isDigit || c = '.' || c = '-'

/-- The characters of all numbers. -/
def inNumber (c : Char) : Bool := inMeasure c || c = 'e'

/-! ## Parts of a text -/

/-- The number that follows the mark of an exponent. -/
def exponentOf : List Char → Int
  | '-' :: ds => -digitsValue ds
  | ds => digitsValue ds

/-- The digits before a point, those after it and the exponent. -/
structure Parts where
  whole : List Char
  /-- The digits after the point, if there is one. -/
  fraction : Option (List Char)
  /-- What follows the mark of an exponent, if there is one. -/
  exponent : Option (List Char)
  whole_ne : whole ≠ []
  isDigit_whole : ∀ c ∈ whole, c.isDigit = true
  isDigit_fraction : ∀ cs ∈ fraction, ∀ c ∈ cs, c.isDigit = true
  inExponent : ∀ cs ∈ exponent, ∀ c ∈ cs, (c.isDigit || c = '-') = true

namespace Parts

variable {p q : Parts} {c : Char}

/-- The text of the parts. -/
def chars (p : Parts) : List Char :=
  p.whole ++ p.fraction.elim [] ('.' :: ·) ++ p.exponent.elim [] ('e' :: ·)

/-- The decimal that the parts denote. -/
def decimal (p : Parts) : Decimal :=
  ⟨digitsValue (p.whole ++ p.fraction.getD []),
    p.exponent.elim 0 exponentOf - (p.fraction.getD []).length⟩

/-- The decimal that a text of parts denotes. -/
def ofChars (cs : List Char) : Decimal :=
  let mantissa := cs.takeWhile (· != 'e')
  let fraction := (mantissa.dropWhile Char.isDigit).drop 1
  ⟨digitsValue (mantissa.takeWhile Char.isDigit ++ fraction),
    exponentOf ((cs.dropWhile (· != 'e')).drop 1) - fraction.length⟩

theorem inMeasure_mantissa (hc : c ∈ p.whole ++ p.fraction.elim [] ('.' :: ·)) :
    inMeasure c = true := by
  unfold inMeasure
  rcases List.mem_append.mp hc with hc | hc
  · simp [p.isDigit_whole c hc]
  · cases hfraction : p.fraction with
    | none =>
      rw [hfraction] at hc
      cases hc
    | some cs =>
      rw [hfraction] at hc
      rcases List.mem_cons.mp hc with rfl | hc
      · rfl
      · simp [p.isDigit_fraction cs hfraction c hc]

theorem inMeasure_chars (hexponent : p.exponent = none) (hc : c ∈ p.chars) :
    inMeasure c = true := by
  rw [chars, hexponent] at hc
  simp only [Option.elim_none, List.append_nil] at hc
  exact inMeasure_mantissa hc

theorem inNumber_chars (hc : c ∈ p.chars) : inNumber c = true := by
  unfold inNumber
  rcases List.mem_append.mp hc with hc | hc
  · simp [inMeasure_mantissa hc]
  · cases hexponent : p.exponent with
    | none =>
      rw [hexponent] at hc
      cases hc
    | some cs =>
      rw [hexponent] at hc
      rcases List.mem_cons.mp hc with rfl | hc
      · rfl
      · have hin := p.inExponent cs hexponent c hc
        simp only [inMeasure, Bool.or_eq_true] at hin ⊢
        exact .inl (hin.imp .inl id)

theorem head_isDigit (p : Parts) : ∀ c ∈ p.chars.head?, c.isDigit = true := by
  obtain ⟨c, cs, hwhole⟩ := List.exists_cons_of_ne_nil p.whole_ne
  intro d hd
  rw [chars, hwhole] at hd
  obtain rfl : c = d := Option.some.inj hd
  exact p.isDigit_whole c (by simp [hwhole])

/-- **The parts are found again in their text.** -/
theorem ofChars_chars (p : Parts) : ofChars p.chars = p.decimal := by
  have hmantissa : ∀ c ∈ p.whole ++ p.fraction.elim [] ('.' :: ·), (c != 'e') = true := by
    intro c hc
    rw [bne_iff_ne]
    rintro rfl
    exact absurd (inMeasure_mantissa hc) (by decide)
  have hmark : Stops (· != 'e') (p.exponent.elim [] ('e' :: ·)) := by
    cases p.exponent with
    | none => exact stops_nil _
    | some cs => exact stops_cons (by decide) cs
  have hpoint : Stops Char.isDigit (p.fraction.elim [] ('.' :: ·)) := by
    cases p.fraction with
    | none => exact stops_nil _
    | some cs => exact stops_cons (by decide) cs
  have hfraction : (p.fraction.elim [] ('.' :: ·)).drop 1 = p.fraction.getD [] := by
    cases p.fraction <;> rfl
  have hexponent : exponentOf ((p.exponent.elim [] ('e' :: ·)).drop 1) =
      p.exponent.elim 0 exponentOf := by
    cases p.exponent <;> rfl
  simp only [ofChars, chars, takeWhile_run hmantissa hmark, dropWhile_run hmantissa hmark,
    takeWhile_run p.isDigit_whole hpoint, dropWhile_run p.isDigit_whole hpoint, hfraction,
    hexponent, decimal]

end Parts

/-! ## Written decimals -/

/-- Zeros at the end of a coefficient are made up for by the exponent. -/
theorem halves_shift (coefficient places : Nat) (exponent : Int) :
    halves ⟨coefficient * 10 ^ places, exponent - places⟩ = halves ⟨coefficient, exponent⟩ := by
  have hten : (10 : ℚ) ^ places ≠ 0 := pow_ne_zero places (by norm_num)
  rw [halves, halves, zpow_sub₀ (by norm_num), zpow_natCast, Nat.cast_mul, Nat.cast_pow,
    Nat.cast_ofNat, mul_div_assoc', mul_right_comm, mul_div_assoc, div_self hten, mul_one]

theorem isDigit_zeros (n : Nat) : ∀ c ∈ List.replicate n '0', c.isDigit = true := by
  intro c hc
  rw [List.eq_of_mem_replicate hc]
  rfl

section Positional

variable {suffix : String} (coefficient : Nat)

theorem exists_parts_whole (hsuffix : suffix = "" ∨ suffix = ".0") (places : Nat) :
    ∃ p : Parts, p.exponent = none ∧
      (positionalText suffix ⟨coefficient, places⟩).toList = p.chars ∧
      p.decimal.halves = halves ⟨coefficient, places⟩ := by
  have hwhole : ∀ c ∈ Nat.toDigits 10 coefficient ++ List.replicate places '0',
      c.isDigit = true :=
    fun c hc => (List.mem_append.mp hc).elim (fun hc => isDigit_of_mem_toDigits hc) (isDigit_zeros _ c)
  have htext : (positionalText suffix ⟨coefficient, places⟩).toList =
      Nat.toDigits 10 coefficient ++ List.replicate places '0' ++ suffix.toList := by
    simp [positionalText]
  have hvalue : digitsValue (Nat.toDigits 10 coefficient ++ List.replicate places '0') =
      coefficient * 10 ^ places := by
    rw [digitsValue_append, digitsValue_zeros, digitsValue_toDigits, List.length_replicate,
      Nat.add_zero]
  rcases hsuffix with rfl | rfl
  · refine ⟨⟨_, none, none, by simp [Nat.toDigits_ne_nil], hwhole, by simp, by simp⟩, rfl,
      by rw [htext]; simp [Parts.chars], ?_⟩
    rw [← halves_shift coefficient places, ← hvalue]
    simp [Parts.decimal]
  · refine ⟨⟨_, some ['0'], none, by simp [Nat.toDigits_ne_nil], hwhole,
      fun cs hcs => Option.some.inj hcs ▸ isDigit_zeros 1, by simp⟩, rfl,
      by rw [htext]; simp [Parts.chars], ?_⟩
    have htail : digitsValue (Nat.toDigits 10 coefficient ++ List.replicate places '0' ++ ['0']) =
        coefficient * 10 ^ (places + 1) := by
      rw [digitsValue_append, hvalue, Nat.pow_succ, ← Nat.mul_assoc]
      rfl
    rw [← halves_shift coefficient (places + 1), ← htail]
    simp [Parts.decimal]

theorem exists_parts_point {exponent : Int} (hexponent : exponent < 0) :
    ∃ p : Parts, p.exponent = none ∧
      (positionalText suffix ⟨coefficient, exponent⟩).toList = p.chars ∧
      p.decimal = ⟨coefficient, exponent⟩ := by
  obtain ⟨places, hplaces⟩ : ∃ places : Nat, (-exponent).toNat = places := ⟨_, rfl⟩
  let digits := Nat.toDigits 10 coefficient
  let padded := List.replicate (places + 1 - digits.length) '0' ++ digits
  let split := padded.length - places
  have hpadded : ∀ c ∈ padded, c.isDigit = true :=
    fun c hc => (List.mem_append.mp hc).elim (isDigit_zeros _ c) (fun hc => isDigit_of_mem_toDigits hc)
  have hlength : places < padded.length := by
    simp only [padded, List.length_append, List.length_replicate]
    omega
  have htext : (positionalText suffix ⟨coefficient, exponent⟩).toList =
      padded.take split ++ '.' :: padded.drop split := by
    unfold positionalText
    rw [if_neg (not_le.mpr hexponent), String.toList_ofList]
    simp only [hplaces]
    rfl
  have hwhole : padded.take split ≠ [] := by
    rw [← List.length_pos_iff, List.length_take]
    omega
  refine ⟨⟨padded.take split, some (padded.drop split), none, hwhole,
    fun c hc => hpadded c (List.mem_of_mem_take hc), ?_, by simp⟩, rfl, ?_, ?_⟩
  · rintro cs hcs c hc
    obtain rfl := Option.some.inj hcs
    exact hpadded c (List.mem_of_mem_drop hc)
  · rw [htext]
    simp [Parts.chars]
  · have hvalue : digitsValue padded = coefficient := by
      rw [digitsValue_append, digitsValue_zeros, digitsValue_toDigits, Nat.zero_mul, Nat.zero_add]
    have hfraction : (padded.drop split).length = places := by
      rw [List.length_drop]
      omega
    simp only [Parts.decimal, Option.getD_some, List.take_append_drop, hvalue, hfraction,
      Option.elim_none, mk.injEq, true_and]
    omega

/-- **A decimal that is written out in full is denoted by its text.** -/
theorem exists_parts_positional (hsuffix : suffix = "" ∨ suffix = ".0") (d : Decimal) :
    ∃ p : Parts, p.exponent = none ∧ (positionalText suffix d).toList = p.chars ∧
      p.decimal.halves = d.halves := by
  obtain ⟨coefficient, exponent⟩ := d
  rcases Int.lt_or_le exponent 0 with hneg | hnonneg
  · obtain ⟨p, hplain, htext, hdecimal⟩ := exists_parts_point coefficient hneg
    exact ⟨p, hplain, htext, by rw [hdecimal]⟩
  · obtain ⟨places, rfl⟩ := Int.eq_ofNat_of_zero_le hnonneg
    exact exists_parts_whole coefficient hsuffix places

end Positional

theorem exponentOf_digits (n : Nat) : exponentOf (Nat.toDigits 10 n) = n := by
  obtain ⟨c, cs, hdigits⟩ := List.exists_cons_of_ne_nil (Nat.toDigits_ne_nil (b := 10) (n := n))
  have hc : c ≠ '-' := by
    rintro rfl
    exact absurd (isDigit_of_mem_toDigits (n := n) (c := '-') (by rw [hdigits]; simp)) (by decide)
  have hvalue : digitsValue (c :: cs) = n := by rw [← hdigits, digitsValue_toDigits]
  rw [hdigits, exponentOf, hvalue]
  rintro ds hds
  exact hc (List.cons.inj hds).1

theorem exists_exponent (e : Int) :
    ∃ cs : List Char, (∀ c ∈ cs, (c.isDigit || c = '-') = true) ∧
      (if 0 ≤ e then "e" ++ toString e.toNat else "e-" ++ toString (-e).toNat).toList = 'e' :: cs ∧
      exponentOf cs = e := by
  have hdigits : ∀ n : Nat, ∀ c ∈ Nat.toDigits 10 n, (c.isDigit || c = '-') = true := by
    intro n c hc
    simp [isDigit_of_mem_toDigits hc]
  have htext : ∀ n : Nat, (toString n).toList = Nat.toDigits 10 n := fun n => Nat.toList_repr
  split_ifs with he
  · refine ⟨Nat.toDigits 10 e.toNat, hdigits _, ?_, ?_⟩
    · rw [String.toList_append, htext]
      rfl
    · rw [exponentOf_digits]
      omega
  · refine ⟨'-' :: Nat.toDigits 10 (-e).toNat, ?_, ?_, ?_⟩
    · intro c hc
      rcases List.mem_cons.mp hc with rfl | hc
      · rfl
      · exact hdigits _ c hc
    · rw [String.toList_append, htext]
      rfl
    · rw [exponentOf, digitsValue_toDigits]
      omega

/-- **A decimal that is written with a power of ten is denoted by its text.** -/
theorem exists_parts_scientific (d : Decimal) :
    ∃ p : Parts, (scientificText "e" d).toList = p.chars ∧ p.decimal = d := by
  obtain ⟨c, cs, hdigits⟩ := List.exists_cons_of_ne_nil (Nat.toDigits_ne_nil (b := 10)
    (n := d.coefficient))
  have hmem : ∀ x ∈ c :: cs, x.isDigit = true := fun x hx => isDigit_of_mem_toDigits (hdigits ▸ hx)
  have hvalue : digitsValue (c :: cs) = d.coefficient := by rw [← hdigits, digitsValue_toDigits]
  have hleading : d.leading = d.exponent + cs.length := by
    rw [leading, hdigits, List.length_cons]
    omega
  obtain ⟨e, hin, htext, hexponent⟩ := exists_exponent d.leading
  have hpoint : ∃ fraction : Option (List Char), fraction.getD [] = cs ∧
      (scientificText "e" d).toList = [c] ++ fraction.elim [] ('.' :: ·) ++ 'e' :: e := by
    unfold scientificText
    rw [hdigits, String.toList_append, htext, String.toList_ofList]
    cases cs with
    | nil => exact ⟨none, rfl, rfl⟩
    | cons d ds => exact ⟨some (d :: ds), rfl, rfl⟩
  obtain ⟨fraction, hfraction, hchars⟩ := hpoint
  refine ⟨⟨[c], fraction, some e, by simp, fun x hx => hmem x (by simp_all), ?_, ?_⟩, hchars, ?_⟩
  · rintro ds rfl x hx
    exact hmem x (List.mem_cons_of_mem c (hfraction ▸ hx))
  · rintro ds hds x hx
    obtain rfl := Option.some.inj hds
    exact hin x hx
  · obtain ⟨coefficient, exponent⟩ := d
    simp only [Parts.decimal, hfraction, List.singleton_append, hvalue, Option.elim_some, hexponent,
      hleading, mk.injEq, true_and]
    omega

/-! ## Texts of doubles -/

/-- A layout whose texts have parts. -/
structure Layout.Plain (layout : Layout) : Prop where
  whole : layout.whole = "" ∨ layout.whole = ".0"
  mark : layout.mark = "e"

variable {layout : Layout}

/-- The sign of a number that is below zero. -/
def sign (x : Binary64) : List Char := if x.negative then ['-'] else []

theorem exists_parts_text (hlayout : layout.Plain) (x : Binary64) :
    ∃ p : Parts, (text layout x).toList = sign x ++ p.chars ∧
      p.decimal.halves = (shortest layout.tie x).halves ∧
      ((∀ e, layout.positional e = true) → p.exponent = none) := by
  have hsign : (if x.negative then "-" else "").toList = sign x := by
    unfold sign
    split_ifs <;> rfl
  unfold text
  rw [String.toList_append, hsign]
  generalize shortest layout.tie x = d
  split_ifs with hpositional
  · obtain ⟨p, hplain, htext, hdecimal⟩ := exists_parts_positional hlayout.whole d
    exact ⟨p, by rw [htext], hdecimal, fun _ => hplain⟩
  · obtain ⟨p, htext, hdecimal⟩ := exists_parts_scientific d
    refine ⟨p, by rw [hlayout.mark, htext], by rw [hdecimal], fun hall => ?_⟩
    exact absurd (.inr (hall d.leading)) hpositional

theorem inNumber_of_mem_text (hlayout : layout.Plain) {x : Binary64} {c : Char}
    (hc : c ∈ (text layout x).toList) : inNumber c = true := by
  obtain ⟨p, htext, -⟩ := exists_parts_text hlayout x
  rw [htext, sign] at hc
  rcases List.mem_append.mp hc with hc | hc
  · split_ifs at hc
    · rw [List.mem_singleton.mp hc]
      rfl
    · cases hc
  · exact Parts.inNumber_chars hc

theorem inMeasure_of_mem_text (hlayout : layout.Plain) (hall : ∀ e, layout.positional e = true)
    {x : Binary64} {c : Char} (hc : c ∈ (text layout x).toList) : inMeasure c = true := by
  obtain ⟨p, htext, -, hplain⟩ := exists_parts_text hlayout x
  rw [htext, sign] at hc
  rcases List.mem_append.mp hc with hc | hc
  · split_ifs at hc
    · rw [List.mem_singleton.mp hc]
      rfl
    · cases hc
  · exact Parts.inMeasure_chars (hplain hall) hc

theorem exists_mem_text_of_whole (hwhole : layout.whole = ".0") (hmark : layout.mark = "e")
    (x : Binary64) : ∃ c ∈ (text layout x).toList, c = '.' ∨ c = 'e' := by
  have hpositional : ∀ d, '.' ∈ (positionalText ".0" d).toList := by
    intro d
    unfold positionalText
    split_ifs <;> simp
  have hscientific : ∀ d, 'e' ∈ (scientificText "e" d).toList := by
    intro d
    unfold scientificText
    dsimp only
    split_ifs <;> simp
  unfold text
  dsimp only
  rw [hwhole, hmark]
  split_ifs
  · exact ⟨'.', by simp [hpositional], .inl rfl⟩
  · exact ⟨'e', by simp [hscientific], .inr rfl⟩
  · exact ⟨'.', by simp [hpositional], .inl rfl⟩
  · exact ⟨'e', by simp [hscientific], .inr rfl⟩

/-- **Doubles with one text are one double.** -/
theorem text_injective (hlayout : layout.Plain) : Function.Injective (text layout) := by
  intro x y h
  obtain ⟨p, hx, hp, -⟩ := exists_parts_text hlayout x
  obtain ⟨q, hy, hq, -⟩ := exists_parts_text hlayout y
  rw [h, hy] at hx
  have hstops : ∀ p : Parts, Stops (· = '-') p.chars := by
    intro p c hc
    have hdigit := p.head_isDigit c hc
    by_contra hminus
    obtain rfl : c = '-' := by simpa using hminus
    exact absurd hdigit (by decide)
  have hminus : ∀ x : Binary64, ∀ c ∈ sign x, decide (c = '-') = true := by
    intro x c hc
    unfold sign at hc
    split_ifs at hc
    · simpa using hc
    · cases hc
  obtain ⟨hsign, hchars⟩ := eq_of_run_append (hminus y) (hminus x) (hstops q) (hstops p) hx
  have hnegative : x.negative = y.negative := by
    unfold sign at hsign
    cases hx : x.negative <;> cases hy : y.negative <;> simp_all
  have hhalves : (shortest layout.tie x).halves = (shortest layout.tie y).halves := by
    rw [← hp, ← hq, ← Parts.ofChars_chars, ← Parts.ofChars_chars, hchars]
  have hrank : x.rank = y.rank :=
    (shortest_readsBack layout.tie x).unique (hhalves ▸ shortest_readsBack layout.tie y)
  cases x
  cases y
  simp_all

end Decimal

end EntityQuery
