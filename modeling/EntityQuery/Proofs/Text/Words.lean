import EntityQuery.Proofs.Text.Runs
import EntityQuery.Text.Words

/-! # Words as longest runs

A text is cut into words at everything that is no letter and no numeral. So its words are the runs
of letters and numerals in it that neither follow a letter or numeral nor are followed by one.

* `splitWhere_append_cons`: a separator cuts a text in two.
* `mem_splitWhere`: the parts of a text are the longest runs between separators.
* `mem_words`: **the words of a text are its longest runs of letters and numerals**. -/

namespace EntityQuery.Text

variable {p : Char → Bool} {c d : Char} {before after run cs : List Char}

/-! ## Parts between separators -/

theorem splitWhere_ne_nil (p : Char → Bool) (cs : List Char) : splitWhere p cs ≠ [] := by
  cases cs with
  | nil => exact List.cons_ne_nil _ _
  | cons c cs =>
    rw [splitWhere]
    split
    · exact List.cons_ne_nil _ _
    · split <;> exact List.cons_ne_nil _ _

/-- **A separator cuts a text in two.** -/
theorem splitWhere_append_cons (hd : p d = true) :
    splitWhere p (before ++ d :: after) = splitWhere p before ++ splitWhere p after := by
  induction before with
  | nil => simp [splitWhere, hd]
  | cons c before ih =>
    obtain ⟨part, parts, hparts⟩ := List.exists_cons_of_ne_nil (splitWhere_ne_nil p before)
    rw [hparts] at ih
    rw [List.cons_append, splitWhere, splitWhere, ih, hparts]
    split <;> rfl

theorem splitWhere_run (hrun : ∀ c ∈ run, p c = false) : splitWhere p run = [run] := by
  induction run with
  | nil => rfl
  | cons c run ih =>
    rw [splitWhere, ih fun d hd => hrun d (List.mem_cons_of_mem c hd), if_neg]
    simp [hrun c List.mem_cons_self]

/-- A run of characters of one kind that is as long as it can be. -/
structure IsLongestRun (p : Char → Bool) (run cs : List Char) : Prop where
  holds : ∀ c ∈ run, p c = true
  longest : ∃ before after, cs = before ++ run ++ after ∧ Stops p before.reverse ∧ Stops p after

namespace IsLongestRun

theorem mem_splitWhere (h : IsLongestRun p run cs) : run ∈ splitWhere (!p ·) cs := by
  obtain ⟨before, after, rfl, hbefore, hafter⟩ := h.longest
  have hrun : splitWhere (!p ·) run = [run] := splitWhere_run (by simpa using h.holds)
  have hmem : run ∈ splitWhere (!p ·) (run ++ after) := by
    cases after with
    | nil => simp [hrun]
    | cons d after =>
      have hd : p d = false := hafter d rfl
      simp [splitWhere_append_cons (p := (!p ·)) (d := d) (by simp [hd]), hrun]
  rcases List.eq_nil_or_concat before with rfl | ⟨before, d, rfl⟩
  · exact hmem
  · rw [List.concat_eq_append] at hbefore ⊢
    have hd : p d = false := hbefore d (by simp)
    rw [List.append_assoc, List.append_assoc, List.singleton_append,
      splitWhere_append_cons (by simp [hd])]
    exact List.mem_append_right _ hmem

theorem append_cons (h : IsLongestRun p run before) (hd : p d = false) (after : List Char) :
    IsLongestRun p run (before ++ d :: after) := by
  obtain ⟨left, right, rfl, hleft, hright⟩ := h.longest
  exact ⟨h.holds, left, right ++ d :: after, by simp, hleft, hright.append_cons hd after⟩

theorem cons_append (h : IsLongestRun p run after) (hd : p d = false) (before : List Char) :
    IsLongestRun p run (before ++ d :: after) := by
  obtain ⟨left, right, rfl, hleft, hright⟩ := h.longest
  refine ⟨h.holds, before ++ d :: left, right, by simp, ?_, hright⟩
  rw [List.reverse_append, List.reverse_cons, List.append_assoc, List.singleton_append]
  exact hleft.append_cons hd before.reverse

end IsLongestRun

/-- **The parts of a text are the longest runs between separators.** -/
theorem mem_splitWhere : run ∈ splitWhere (!p ·) cs ↔ IsLongestRun p run cs := by
  refine ⟨fun hmem => ?_, IsLongestRun.mem_splitWhere⟩
  -- At any separator the text falls into two shorter ones.
  induction hlength : cs.length using Nat.strong_induction_on generalizing cs with
  | _ n ih =>
    by_cases hrun : ∀ c ∈ cs, p c = true
    · rw [splitWhere_run (by simpa using hrun), List.mem_singleton] at hmem
      exact ⟨hmem ▸ hrun, [], [], by simp [hmem], stops_nil _, stops_nil _⟩
    · obtain ⟨d, hdmem, hd⟩ : ∃ d ∈ cs, p d = false := by simpa using hrun
      obtain ⟨before, after, rfl⟩ := List.append_of_mem hdmem
      rw [splitWhere_append_cons (by simp [hd]), List.mem_append] at hmem
      rw [List.length_append, List.length_cons] at hlength
      rcases hmem with hmem | hmem
      · exact (ih _ (by omega) hmem rfl).append_cons hd after
      · exact (ih _ (by omega) hmem rfl).cons_append hd before

/-! ## Words -/

/-- A word of a text is a longest run of letters and numerals. -/
def IsWord (t s : String) : Prop := t ≠ "" ∧ IsLongestRun isWordChar t.toList s.toList

/-- **The words of a text are its longest runs of letters and numerals.** -/
theorem mem_words {t s : String} : t ∈ words s ↔ IsWord t s := by
  rw [words, List.mem_map, IsWord, ← mem_splitWhere]
  constructor
  · rintro ⟨part, hpart, rfl⟩
    rw [List.mem_filter] at hpart
    rw [String.toList_ofList]
    have hne : part ≠ [] := by simpa using hpart.2
    exact ⟨by simpa using hne, hpart.1⟩
  · rintro ⟨hne, hpart⟩
    refine ⟨t.toList, List.mem_filter.mpr ⟨hpart, ?_⟩, String.ofList_toList⟩
    simpa using hne

theorem words_run {t : String} (hne : t ≠ "") (hrun : ∀ c ∈ t.toList, isWordChar c = true) :
    words t = [t] := by
  rw [words, splitWhere_run (by simpa using hrun)]
  simp [hne]

end EntityQuery.Text
