import EntityQuery.Plan.Compile
import EntityQuery.Proofs.Text.Words
import Mathlib.Tactic.SplitIfs

/-! # Lower case of a text and of what it starts with

The lower case of a letter depends on its surroundings only for the capital sigma, which has a form
of its own at the end of a word. So the lower case of a text starts with the lower case of what the
text starts with, unless a sigma ends a word in the one and not in the other.

* `lowerCase_append_star`: a star stays behind the lower case of what is in front of it.
* `lowerCase_prefix_iff`: **the lower case of a text starts with that of its beginning just if the
  beginning does not end in a sigma that is in the midst of a word in the text**.
* `ne_of_mem_lowerCase`: the lower case of a word has no star and no greatest character. -/

namespace EntityQuery.Text

variable {before cs rest rest' : List Char} {c d : Char} {x : String}

/-! ## What a sigma looks at -/

theorem startsCased_ignorable_append (hcs : ∀ c ∈ cs, isCaseIgnorable c = true) :
    startsCased (cs ++ rest) = startsCased rest := by
  rw [startsCased, startsCased, List.dropWhile_append_of_pos hcs]

theorem startsCased_append (hcs : ¬ ∀ c ∈ cs, isCaseIgnorable c = true) (rest : List Char) :
    startsCased (cs ++ rest) = startsCased cs := by
  rw [startsCased, startsCased, List.dropWhile_append]
  cases hdrop : cs.dropWhile isCaseIgnorable with
  | nil => exact absurd (List.dropWhile_eq_nil_iff.mp hdrop) hcs
  | cons c more => rfl

theorem startsCased_sigma (rest : List Char) : startsCased ('\u03A3' :: rest) = true := by
  have hignorable : isCaseIgnorable '\u03A3' = false := by decide +kernel
  have hcased : isCased '\u03A3' = true := by decide +kernel
  rw [startsCased, List.dropWhile_cons_of_neg (by simp [hignorable])]
  exact hcased

/-- A text ends in a capital sigma behind a cased letter; characters that are looked past may come
behind it. What is in front of the text is read from right to left. -/
def EndsInSigma (before cs : List Char) : Prop :=
  ∃ front marks, cs = front ++ '\u03A3' :: marks ∧ (∀ c ∈ marks, isCaseIgnorable c = true) ∧
    startsCased (front.reverse ++ before) = true

/-- The lower case of a letter between what is in front of it, read from right to left, and what is
behind it. -/
def lowerBetween (before : List Char) (c : Char) (after : List Char) : List Char :=
  if c = '\u03A3' then [if endsWord before after then '\u03C2' else '\u03C3'] else lowerChar c

theorem lowerFrom_cons (before : List Char) (c : Char) (rest : List Char) :
    lowerFrom before (c :: rest) = lowerBetween before c rest ++ lowerFrom (c :: before) rest := rfl

theorem endsWord_congr
    (h : startsCased rest = startsCased rest' ∨ ¬ EndsInSigma before ('\u03A3' :: cs)) :
    endsWord before (cs ++ rest) = endsWord before (cs ++ rest') := by
  unfold endsWord
  by_cases hmarks : ∀ c ∈ cs, isCaseIgnorable c = true
  · rw [startsCased_ignorable_append hmarks, startsCased_ignorable_append hmarks]
    rcases h with h | h
    · rw [h]
    · have hbefore : startsCased before = false := by
        by_contra hcased
        exact h ⟨[], cs, rfl, hmarks, by simpa using hcased⟩
      rw [hbefore, Bool.false_and, Bool.false_and]
  · rw [startsCased_append hmarks, startsCased_append hmarks]

theorem lowerBetween_congr
    (h : startsCased rest = startsCased rest' ∨ ¬ EndsInSigma before (c :: cs)) :
    lowerBetween before c (cs ++ rest) = lowerBetween before c (cs ++ rest') := by
  unfold lowerBetween
  by_cases hsigma : c = '\u03A3'
  · subst hsigma
    rw [endsWord_congr h]
  · rw [if_neg hsigma, if_neg hsigma]

/-- What follows a text matters to its lower case only if the text ends in a sigma, and then by
whether it starts with a cased letter. -/
theorem exists_lowerFrom_append (before cs : List Char)
    (h : startsCased rest = startsCased rest' ∨ ¬ EndsInSigma before cs) :
    ∃ lower, lowerFrom before (cs ++ rest) = lower ++ lowerFrom (cs.reverse ++ before) rest ∧
      lowerFrom before (cs ++ rest') = lower ++ lowerFrom (cs.reverse ++ before) rest' := by
  induction cs generalizing before with
  | nil => exact ⟨[], rfl, rfl⟩
  | cons c cs ih =>
    -- A sigma that ends the shorter text ends the longer one.
    have hcs : startsCased rest = startsCased rest' ∨ ¬ EndsInSigma (c :: before) cs := by
      refine h.imp_right fun hends => ?_
      rintro ⟨front, marks, rfl, hmarks, hcased⟩
      exact hends ⟨c :: front, marks, rfl, hmarks, by simpa using hcased⟩
    obtain ⟨lower, hlower, hlower'⟩ := ih (c :: before) hcs
    refine ⟨lowerBetween before c (cs ++ rest) ++ lower, ?_, ?_⟩
    · rw [List.cons_append, lowerFrom_cons, hlower]
      simp
    · rw [List.cons_append, lowerFrom_cons, hlower', lowerBetween_congr h]
      simp

theorem lowerCase_append_star (x : String) : lowerCase (x ++ "*") = lowerCase x ++ "*" := by
  have hstar : ∀ before, lowerFrom before ['*'] = ['*'] := by
    intro before
    rw [lowerFrom_cons, lowerBetween, if_neg (by decide), lowerFrom, List.append_nil]
    decide +kernel
  have hcased : startsCased ['*'] = startsCased [] := by decide +kernel
  obtain ⟨lower, hfollowed, halone⟩ := exists_lowerFrom_append [] x.toList (.inl hcased)
  rw [lowerFrom, List.append_nil, List.append_nil] at halone
  rw [hstar] at hfollowed
  have htoList : (x ++ "*").toList = x.toList ++ ['*'] := String.toList_append
  rw [lowerCase, lowerCase, htoList, hfollowed, halone, String.ofList_append]

/-- **The lower case of a text starts with the lower case of its beginning just if the beginning
does not end in a sigma that has a cased letter behind it in the text.** -/
theorem lowerCase_prefix_iff (x rest : String) :
    (lowerCase x).toList <+: (lowerCase (x ++ rest)).toList ↔
      ¬ (EndsInSigma [] x.toList ∧ startsCased rest.toList = true) := by
  rw [lowerCase, lowerCase, String.toList_ofList, String.toList_ofList, String.toList_append]
  constructor
  · rintro hprefix ⟨⟨front, marks, hx, hmarks, hfront⟩, hrest⟩
    -- The lower cases of the beginning and of the text agree up to the sigma, and differ there.
    have hcased : startsCased ('\u03A3' :: marks) =
        startsCased ('\u03A3' :: (marks ++ rest.toList)) := by
      rw [startsCased_sigma, startsCased_sigma]
    obtain ⟨lower, halone, hfollowed⟩ := exists_lowerFrom_append [] front (.inl hcased)
    rw [hx, List.append_assoc, List.cons_append, halone, hfollowed] at hprefix
    have hlast : endsWord (front.reverse ++ []) marks = true := by
      have hmarksOnly : startsCased marks = false := by
        rw [← List.append_nil marks, startsCased_ignorable_append hmarks]
        rfl
      rw [endsWord, hfront, hmarksOnly]
      rfl
    have hmidst : endsWord (front.reverse ++ []) (marks ++ rest.toList) = false := by
      rw [endsWord, startsCased_ignorable_append hmarks, hrest, Bool.not_true, Bool.and_false]
    rw [List.prefix_append_right_inj, lowerFrom_cons, lowerFrom_cons, lowerBetween, lowerBetween,
      hlast, hmidst] at hprefix
    simp at hprefix
  · intro hnot
    have hrest : startsCased [] = startsCased rest.toList ∨ ¬ EndsInSigma [] x.toList := by
      cases hcased : startsCased rest.toList with
      | false => exact .inl rfl
      | true => exact .inr fun hends => hnot ⟨hends, hcased⟩
    obtain ⟨lower, halone, hfollowed⟩ := exists_lowerFrom_append [] x.toList hrest
    rw [lowerFrom, List.append_nil, List.append_nil] at halone
    rw [halone, hfollowed]
    exact List.prefix_append _ _

/-! ## Characters of a lower case -/

theorem CaseRun.lower_eq (n : Nat) (runs : List CaseRun) : CaseRun.lower n runs = n ∨
    ∃ run ∈ runs, run.first ≤ n ∧ n ≤ run.last ∧
      CaseRun.lower n runs = run.image + (n - run.first) := by
  induction runs with
  | nil => exact .inl rfl
  | cons run runs ih =>
    rw [CaseRun.lower]
    split_ifs with hlast hfirst
    · exact .inr ⟨run, List.mem_cons_self, hfirst.1, hlast, rfl⟩
    · exact .inl rfl
    · exact ih.imp_right fun ⟨run', hmem, h⟩ => ⟨run', List.mem_cons_of_mem run hmem, h⟩

/-- Lower-case letters come behind the star and before the greatest character. -/
theorem image_capitalRuns {run : CaseRun} (hrun : run ∈ capitalRuns) :
    '*'.toNat < run.image ∧ run.image + (run.last - run.first) < lastChar.toNat := by
  have hall : ∀ run ∈ capitalRuns,
      '*'.toNat < run.image ∧ run.image + (run.last - run.first) < lastChar.toNat := by
    decide +kernel
  exact hall run hrun

theorem toNat_ofNat_or (n : Nat) : (Char.ofNat n).toNat = n ∨ (Char.ofNat n).toNat = 0 := by
  by_cases hvalid : n.isValidChar
  · rw [Char.ofNat, dif_pos hvalid]
    exact .inl rfl
  · rw [Char.ofNat, dif_neg hvalid]
    exact .inr rfl

theorem eq_or_of_mem_lowerChar (hd : d ∈ lowerChar c) : d = c ∨ d ≠ '*' ∧ d ≠ lastChar := by
  rw [lowerChar] at hd
  split_ifs at hd with hdotted
  · refine .inr ?_
    rcases List.mem_cons.mp hd with rfl | hd
    · decide
    · obtain rfl := List.mem_singleton.mp hd
      decide
  · rw [List.mem_singleton] at hd
    rcases CaseRun.lower_eq c.toNat capitalRuns with heq | ⟨run, hrun, hfirst, hlast, heq⟩
    · rw [heq, Char.ofNat_toNat] at hd
      exact .inl hd
    · obtain ⟨hstar, hgreatest⟩ := image_capitalRuns hrun
      have htoNat : d.toNat = 0 ∨ '*'.toNat < d.toNat ∧ d.toNat < lastChar.toNat := by
        rw [hd, heq]
        rcases toNat_ofNat_or (run.image + (c.toNat - run.first)) with hcode | hnone
        · omega
        · exact .inl hnone
      refine .inr ⟨?_, ?_⟩
      · rintro rfl
        revert htoNat
        decide
      · rintro rfl
        revert htoNat
        decide

theorem eq_or_of_mem_lowerFrom (hd : d ∈ lowerFrom before cs) :
    d ∈ cs ∨ d ≠ '*' ∧ d ≠ lastChar := by
  induction cs generalizing before with
  | nil => simp [lowerFrom] at hd
  | cons c cs ih =>
    rw [lowerFrom_cons, List.mem_append] at hd
    rcases hd with hd | hd
    · unfold lowerBetween at hd
      split_ifs at hd with hsigma hends
      · refine .inr ?_
        obtain rfl := List.mem_singleton.mp hd
        decide
      · refine .inr ?_
        obtain rfl := List.mem_singleton.mp hd
        decide
      · rcases eq_or_of_mem_lowerChar hd with rfl | hne
        · exact .inl List.mem_cons_self
        · exact .inr hne
    · exact (ih hd).imp_left (List.mem_cons_of_mem c)

theorem ne_of_mem_lowerCase {t : String} (ht : ∀ c ∈ t.toList, isWordChar c = true)
    (hd : d ∈ (lowerCase t).toList) : d ≠ '*' ∧ d ≠ lastChar := by
  rw [lowerCase, String.toList_ofList] at hd
  rcases eq_or_of_mem_lowerFrom hd with hmem | hne
  · refine ⟨?_, ?_⟩
    · rintro rfl
      exact absurd (ht _ hmem) (by decide +kernel)
    · rintro rfl
      exact absurd (ht _ hmem) (by decide +kernel)
  · exact hne

end EntityQuery.Text
