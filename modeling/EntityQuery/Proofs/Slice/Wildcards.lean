import EntityQuery.Plan.Compile

/-! # Texts with a star

A text that ends in a star is looked up as a range: from the part in front of the star to that part
followed by the greatest character. What is in range starts with that part, but not everything that
starts with it is in range: behind it the greatest character may come last only.

* `between_iff`: the texts in such a range.
* `Slice.contains_startingWith`: the values in such a slice, which are texts.
* `Slice.contains_star`: **what is in range of a text with a star**. -/

namespace EntityQuery

variable {property : String} {stem cs : List Char} {v : Scalar}

/-! ## The range -/

theorem not_lastChar_lt (c : Char) : ¬ lastChar < c := by
  have hlast : lastChar.val.toNat = 0x10FFFF := by decide
  have hlt : c.val.toNat < 0x110000 := by
    rcases c.valid with hlow | ⟨-, hhigh⟩
    · exact Nat.lt_trans hlow (by decide)
    · exact hhigh
  rw [Char.lt_def, UInt32.lt_iff_toNat_lt, hlast]
  exact Nat.not_lt.mpr (Nat.le_of_lt_succ hlt)

/-- A text goes on behind the greatest character, with which it starts. -/
def PassesLast (cs : List Char) : Prop := ∃ c more, cs = lastChar :: c :: more

theorem lastChar_lt_iff : [lastChar] < cs ↔ PassesLast cs := by
  unfold PassesLast
  cases cs with
  | nil => simp
  | cons c more =>
    rw [List.cons_lt_cons_iff, or_iff_right (not_lastChar_lt c)]
    cases more with
    | nil => simp
    | cons d rest => simp [eq_comm]

/-- **The texts that are neither before a stem nor behind that stem and the greatest character.** -/
theorem between_iff : ¬ cs < stem ∧ ¬ stem ++ [lastChar] < cs ↔
    ∃ rest, cs = stem ++ rest ∧ ¬ PassesLast rest := by
  induction stem generalizing cs with
  | nil => simp [lastChar_lt_iff]
  | cons a stem ih =>
    cases cs with
    | nil => simp
    | cons b cs =>
      -- Both bounds start with the same character, so the text does, too.
      have hhead : ¬ b :: cs < a :: stem ∧ ¬ a :: (stem ++ [lastChar]) < b :: cs ↔
          b = a ∧ ¬ cs < stem ∧ ¬ stem ++ [lastChar] < cs := by
        rw [List.cons_lt_cons_iff, List.cons_lt_cons_iff]
        constructor
        · rintro ⟨hlow, hhigh⟩
          obtain rfl : b = a := Char.le_antisymm (Char.not_lt.mp fun hlt => hhigh (.inl hlt))
            (Char.not_lt.mp fun hlt => hlow (.inl hlt))
          exact ⟨rfl, fun hlt => hlow (.inr ⟨rfl, hlt⟩), fun hlt => hhigh (.inr ⟨rfl, hlt⟩)⟩
        · rintro ⟨rfl, hlow, hhigh⟩
          exact ⟨fun hlt => hlt.elim (Char.lt_irrefl b) fun htail => hlow htail.2,
            fun hlt => hlt.elim (Char.lt_irrefl b) fun htail => hhigh htail.2⟩
      rw [List.cons_append, hhead, ih]
      simp [and_assoc]

/-! ## The slice -/

namespace Bound

theorem admitsAbove_string {s : String} : (Bound.mk (.string s) true).admitsAbove v = true ↔
    ∃ t, v = .string t ∧ ¬ t.toList < s.toList := by
  cases v with
  | string t =>
    have hcompare : Ord.compare t s = .lt ↔ t.toList < s.toList := compareOfLessAndEq_eq_lt
    have hadmits : (Bound.mk (.string s) true).admitsAbove (.string t) = true ↔
        ¬ t.toList < s.toList := by
      rw [← hcompare, admitsAbove, Scalar.compare]
      cases Ord.compare t s <;> simp
    rw [hadmits]
    exact ⟨fun h => ⟨t, rfl, h⟩, fun ⟨_, heq, h⟩ => Scalar.string.inj heq ▸ h⟩
  | _ => simp [admitsAbove, Scalar.compare]

theorem admitsBelow_string {s : String} : (Bound.mk (.string s) true).admitsBelow v = true ↔
    ∃ t, v = .string t ∧ ¬ s.toList < t.toList := by
  cases v with
  | string t =>
    have hcompare : Ord.compare s t = .lt ↔ s.toList < t.toList := compareOfLessAndEq_eq_lt
    have hadmits : (Bound.mk (.string s) true).admitsBelow (.string t) = true ↔
        ¬ s.toList < t.toList := by
      rw [← hcompare, admitsBelow, Scalar.compare, Std.OrientedOrd.eq_swap (a := t) (b := s)]
      cases Ord.compare s t <;> simp
    rw [hadmits]
    exact ⟨fun h => ⟨t, rfl, h⟩, fun ⟨_, heq, h⟩ => Scalar.string.inj heq ▸ h⟩
  | _ => simp [admitsBelow, Scalar.compare]

end Bound

namespace Slice

theorem contains_startingWith : (startingWith property stem).contains v = true ↔
    ∃ rest, v = .string (String.ofList (stem ++ rest)) ∧ ¬ PassesLast rest := by
  rw [startingWith, contains, Option.all_some, Option.all_some, Bool.and_eq_true,
    Bound.admitsAbove_string, Bound.admitsBelow_string, String.toList_ofList, String.toList_ofList]
  constructor
  · rintro ⟨⟨t, rfl, hlow⟩, ⟨t', heq, hhigh⟩⟩
    cases heq
    obtain ⟨rest, htext, hrest⟩ := between_iff.mp ⟨hlow, hhigh⟩
    exact ⟨rest, by rw [← htext, String.ofList_toList], hrest⟩
  · rintro ⟨rest, rfl, hrest⟩
    obtain ⟨hlow, hhigh⟩ := between_iff.mpr ⟨rest, rfl, hrest⟩
    rw [← String.toList_ofList (l := stem ++ rest)] at hlow hhigh
    exact ⟨⟨_, rfl, hlow⟩, _, rfl, hhigh⟩

end Slice

theorem wildcardStem?_append_star (text : String) :
    wildcardStem? (text ++ "*") = some text.toList := by
  rw [wildcardStem?, String.toList_append]
  simp

namespace Slice

theorem ofPattern_append_star (text : String) :
    ofPattern property (text ++ "*") = startingWith property text.toList := by
  rw [ofPattern, wildcardStem?_append_star]

/-- **In range of a text with a star are the texts that start with what is in front of the star and
do not go on behind the greatest character there, and nothing else.** -/
theorem contains_star (property text : String) (v : Scalar) :
    (ofComparison property .equal (.string (text ++ "*"))).contains v = true ↔
      ∃ rest : String, v = .string (text ++ rest) ∧ ¬ PassesLast rest.toList := by
  rw [ofComparison, ofPattern_append_star, contains_startingWith]
  constructor
  · rintro ⟨rest, rfl, hrest⟩
    refine ⟨String.ofList rest, ?_, by rwa [String.toList_ofList]⟩
    rw [String.ofList_append, String.ofList_toList]
  · rintro ⟨rest, rfl, hrest⟩
    refine ⟨rest.toList, ?_, hrest⟩
    rw [String.ofList_append, String.ofList_toList, String.ofList_toList]

/-- A text that starts with the letter in front of a star, but is not in range. -/
theorem contains_star_missed :
    (ofComparison "p" .equal (.string "a*")).contains
      (.string ("a" ++ String.ofList [lastChar, 'b'])) = false := by
  decide +kernel

end Slice

end EntityQuery
