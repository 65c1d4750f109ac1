import EntityQuery.Text.Digits
import Mathlib.Algebra.Order.Ring.Nat

/-! # Digits in a row

The digits of a natural number denote it, and digits in a row denote a number that is put together
from those of its parts.

* `Text.digitsValue_toDigits`, `Text.valueIn_toDigits`: what the digits of a number denote. -/

namespace EntityQuery.Text

theorem digitsValue_toDigits (n : Nat) : digitsValue (Nat.toDigits 10 n) = n :=
  Nat.ofDigitChars_ten_toDigits

theorem isDigit_of_mem_toDigits {n : Nat} {c : Char} (hc : c ∈ Nat.toDigits 10 n) :
    c.isDigit = true :=
  Nat.isDigit_of_mem_toDigits (by decide) (by decide) hc

theorem digitsValue_append (front back : List Char) :
    digitsValue (front ++ back) = digitsValue front * 10 ^ back.length + digitsValue back := by
  show Nat.ofDigitChars 10 (front ++ back) 0 = _
  rw [Nat.ofDigitChars_append, Nat.ofDigitChars_eq_ofDigitChars_zero, Nat.mul_comm]
  rfl

theorem digitsValue_zeros (n : Nat) : digitsValue (List.replicate n '0') = 0 := by
  show Nat.ofDigitChars 10 (List.replicate n '0') 0 = 0
  rw [Nat.ofDigitChars_replicate_zero, Nat.mul_zero]

theorem toDigits_inj {m n : Nat} (h : Nat.toDigits 10 m = Nat.toDigits 10 n) : m = n := by
  rw [← digitsValue_toDigits m, h, digitsValue_toDigits]

/-! ### Integers -/

/-- The text of an integer: digits, with a minus in front of them below zero. -/
theorem toList_repr (n : Int) :
    n.repr.toList = if 0 ≤ n then Nat.toDigits 10 n.toNat else '-' :: Nat.toDigits 10 (-n).toNat := by
  rw [Int.repr_eq_if]
  split_ifs
  · exact Nat.toList_repr
  · rw [String.toList_append, Nat.toList_repr]
    rfl

theorem minus_cons_ne_toDigits (cs : List Char) (n : Nat) : '-' :: cs ≠ Nat.toDigits 10 n := by
  intro h
  have hminus : '-' ∈ Nat.toDigits 10 n := by
    rw [← h]
    exact List.mem_cons_self
  exact absurd (isDigit_of_mem_toDigits hminus) (by decide)

theorem eq_of_repr {m n : Int} (h : m.repr = n.repr) : m = n := by
  have hlist := congrArg String.toList h
  rw [toList_repr, toList_repr] at hlist
  split_ifs at hlist with hm hn hn
  · have := toDigits_inj hlist
    omega
  · exact absurd hlist.symm (minus_cons_ne_toDigits _ _)
  · exact absurd hlist (minus_cons_ne_toDigits _ _)
  · have := toDigits_inj (List.cons.inj hlist).2
    omega

/-! ### Hexadecimal digits -/

theorem hexValue?_digitChar : ∀ n < 16, hexValue? (Nat.digitChar n) = some n := by decide

theorem valueIn_append_digit (front : List Char) {n : Nat} (hn : n < 16) :
    valueIn 16 (front ++ [Nat.digitChar n]) = 16 * valueIn 16 front + n := by
  simp [valueIn, List.foldl_append, hexValue?_digitChar n hn]

theorem valueIn_toDigits (n : Nat) : valueIn 16 (Nat.toDigits 16 n) = n := by
  induction n using Nat.strongRecOn with
  | ind n ih =>
    by_cases hn : n < 16
    · rw [Nat.toDigits_of_lt_base hn]
      exact (valueIn_append_digit [] hn).trans (Nat.zero_add n)
    · rw [Nat.toDigits_of_base_le (by decide) (by omega), valueIn_append_digit _ (by omega),
        ih (n / 16) (by omega)]
      omega

theorem exists_digitChar_of_mem_toDigits {n : Nat} {c : Char} (hc : c ∈ Nat.toDigits 16 n) :
    ∃ k < 16, c = Nat.digitChar k := by
  induction n using Nat.strongRecOn with
  | ind n ih =>
    by_cases hn : n < 16
    · rw [Nat.toDigits_of_lt_base hn] at hc
      exact ⟨n, hn, List.mem_singleton.mp hc⟩
    · rw [Nat.toDigits_of_base_le (by decide) (by omega)] at hc
      rcases List.mem_append.mp hc with hc | hc
      · exact ih (n / 16) (by omega) hc
      · exact ⟨n % 16, by omega, List.mem_singleton.mp hc⟩

end EntityQuery.Text
