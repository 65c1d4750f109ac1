import EntityQuery.Encoding.Base64Url
import EntityQuery.Text.Blank
import Mathlib.Data.List.TakeWhile

/-! # Bytes read back from letters

Letters that were written for bytes are read back as these bytes. They stand in addresses as they
are, and none of them is a blank.

* `Base64Url.decode?_encode`: what is written is read back.
* `Base64Url.isUrlSafe_of_mem_encode`: what is written stands in addresses as it is.
* `Base64Url.trimBlanks_surrounded`: blanks around what is written are trimmed. -/

namespace EntityQuery.Base64Url

theorem value?_letter : ∀ n < 64, value? (letter n) = some n := by decide

theorem isBlank_letter : ∀ n < 64, Text.isBlank (letter n) = false := by decide

/-- **Letters written for bytes are read back as these bytes.** -/
theorem decode?_encode (bytes : List UInt8) : decode? (encode bytes) = some bytes := by
  fun_induction encode bytes with
  | case1 => rfl
  | case2 a n =>
    have ha := a.toNat_lt
    have hx := value?_letter (n / 64) (by omega)
    have hy := value?_letter (n % 64) (by omega)
    have hn : n / 64 * 64 + n % 64 = n := by omega
    have hspare : n % 16 = 0 := by omega
    have hbyte : n / 16 = a.toNat := by omega
    simp [decode?, hx, hy, hn, hspare, hbyte]
  | case3 a b n =>
    have ha := a.toNat_lt
    have hb := b.toNat_lt
    have hx := value?_letter (n / 4096) (by omega)
    have hy := value?_letter (n / 64 % 64) (by omega)
    have hz := value?_letter (n % 64) (by omega)
    have hn : (n / 4096 * 64 + n / 64 % 64) * 64 + n % 64 = n := by omega
    have hspare : n % 4 = 0 := by omega
    have hfirst : n / 1024 = a.toNat := by omega
    have hsecond : n / 4 % 256 = b.toNat := by omega
    simp [decode?, hx, hy, hz, hn, hspare, hfirst, hsecond]
  | case4 a b c rest n ih =>
    have ha := a.toNat_lt
    have hb := b.toNat_lt
    have hc := c.toNat_lt
    have hx := value?_letter (n / 262144) (by omega)
    have hy := value?_letter (n / 4096 % 64) (by omega)
    have hz := value?_letter (n / 64 % 64) (by omega)
    have hw := value?_letter (n % 64) (by omega)
    have hn : ((n / 262144 * 64 + n / 4096 % 64) * 64 + n / 64 % 64) * 64 + n % 64 = n := by omega
    have hfirst : n / 65536 = a.toNat := by omega
    have hsecond : n / 256 % 256 = b.toNat := by omega
    have hthird : n % 256 = c.toNat := by omega
    simp [decode?, hx, hy, hz, hw, ih, hn, hfirst, hsecond, hthird]

/-- The letters of numbers below 64 stand in addresses as they are. -/
def isUrlSafe (c : Char) : Bool := c.isAlphanum || c = '-' || c = '_'

theorem isUrlSafe_letter : ∀ n < 64, isUrlSafe (letter n) = true := by decide

theorem exists_letter_of_mem_encode {bytes : List UInt8} {c : Char} (hc : c ∈ encode bytes) :
    ∃ n < 64, letter n = c := by
  fun_induction encode bytes with
  | case1 => cases hc
  | case2 a n =>
    have ha := a.toNat_lt
    simp only [List.mem_cons, List.not_mem_nil, or_false] at hc
    rcases hc with rfl | rfl <;> exact ⟨_, by omega, rfl⟩
  | case3 a b n =>
    have ha := a.toNat_lt
    simp only [List.mem_cons, List.not_mem_nil, or_false] at hc
    have hb := b.toNat_lt
    rcases hc with rfl | rfl | rfl <;> exact ⟨_, by omega, rfl⟩
  | case4 a b c' rest n ih =>
    have ha := a.toNat_lt
    have hb := b.toNat_lt
    have hc' := c'.toNat_lt
    simp only [List.mem_cons] at hc
    rcases hc with rfl | rfl | rfl | rfl | hc
    · exact ⟨_, by omega, rfl⟩
    · exact ⟨_, by omega, rfl⟩
    · exact ⟨_, by omega, rfl⟩
    · exact ⟨_, by omega, rfl⟩
    · exact ih hc

theorem isUrlSafe_of_mem_encode {bytes : List UInt8} {c : Char} (hc : c ∈ encode bytes) :
    isUrlSafe c = true := by
  obtain ⟨n, hn, rfl⟩ := exists_letter_of_mem_encode hc
  exact isUrlSafe_letter n hn

theorem isBlank_of_mem_encode {bytes : List UInt8} {c : Char} (hc : c ∈ encode bytes) :
    Text.isBlank c = false := by
  obtain ⟨n, hn, rfl⟩ := exists_letter_of_mem_encode hc
  exact isBlank_letter n hn

theorem trimBlanks_surrounded (bytes : List UInt8) {front back : List Char}
    (hfront : ∀ c ∈ front, Text.isBlank c = true) (hback : ∀ c ∈ back, Text.isBlank c = true) :
    Text.trimBlanks (front ++ encode bytes ++ back) = encode bytes := by
  have hkeep : ∀ cs more : List Char, cs ≠ [] → (∀ c ∈ cs, Text.isBlank c = false) →
      (cs ++ more).dropWhile Text.isBlank = cs ++ more := by
    intro cs more hne hcs
    obtain ⟨c, cs, rfl⟩ := List.exists_cons_of_ne_nil hne
    rw [List.cons_append, List.dropWhile_cons_of_neg (by simp [hcs c])]
  unfold Text.trimBlanks
  rw [List.append_assoc, List.dropWhile_append_of_pos hfront]
  by_cases hnil : encode bytes = []
  · rw [hnil, List.nil_append, List.dropWhile_eq_nil_iff.mpr hback]
    rfl
  · rw [hkeep _ _ hnil fun c hc => isBlank_of_mem_encode hc, List.reverse_append,
      List.dropWhile_append_of_pos fun c hc => hback c (List.mem_reverse.mp hc)]
    have hreverse := hkeep (encode bytes).reverse [] (by simpa using hnil)
      fun c hc => isBlank_of_mem_encode (List.mem_reverse.mp hc)
    rw [List.append_nil] at hreverse
    rw [hreverse, List.reverse_reverse]

end EntityQuery.Base64Url
