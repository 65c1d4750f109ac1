import EntityQuery.Proofs.Text.Runs
import EntityQuery.Query.Lexer

/-! # The characters of a word

A word that is cut off a text is written with the characters from where it starts to where the rest
begins. What it is hangs on these characters alone, as long as the rest is kept apart from them:
nothing follows, or a blank does. For no blank goes on with a name, with a number or with a sign.

* `Writes`: characters that are cut off as a word wherever they stand.
* `exists_writes`: **what is cut off a text is written so**.
* `Writes.scanFrom_eq`: what is cut off first where a word is written. -/

namespace EntityQuery

namespace Text

/-- The code points of ranges. -/
def Ranges.codes (rs : Ranges) : List Nat :=
  rs.flatMap fun (first, last) => List.range' first (last + 1 - first)

theorem Ranges.mem_codes {rs : Ranges} {n : Nat} (h : rs.holds n = true) : n ∈ rs.codes := by
  induction rs with
  | nil => cases h
  | cons range rs ih =>
    obtain ⟨first, last⟩ := range
    rw [codes, List.flatMap_cons, List.mem_append]
    rw [holds] at h
    split_ifs at h with hlast
    · have hfirst := of_decide_eq_true h
      exact .inl (List.mem_range'_1.mpr ⟨hfirst, by omega⟩)
    · exact .inr (ih h)

end Text

namespace Query

variable {offset start : Nat} {c quote : Char} {cs left lexeme text : List Char} {t : Token}

/-! ## Blanks keep words apart -/

/-- A character that can go on with a name, with a number or with a sign. -/
def goesOn (c : Char) : Bool :=
  continuesName c || c.isDigit || marksExponent c || c = '+' || c = '='

theorem goesOn_of_isBlank (h : Text.isBlank c = true) : goesOn c = false := by
  have hcodes : ∀ n ∈ Text.blankRanges.codes, goesOn (Char.ofNat n) = false := by decide +kernel
  have hc := hcodes c.toNat (Text.Ranges.mem_codes h)
  rwa [Char.ofNat_toNat] at hc

/-- Nothing comes after a word, or a blank does. -/
def Apart (left : List Char) : Prop := ∀ c ∈ left.head?, Text.isBlank c = true

theorem apart_nil : Apart [] := by simp [Apart]

theorem apart_cons (h : Text.isBlank c = true) (left : List Char) : Apart (c :: left) := by
  simpa [Apart] using h

theorem Apart.stops {p : Char → Bool} (h : Apart left) (hp : ∀ c, goesOn c = false → p c = false) :
    Text.Stops p left :=
  fun c hc => hp c (goesOn_of_isBlank (h c hc))

/-! ## What a word is cut off from -/

theorem numberTail_append (hasPoint afterMark : Bool) (cs : List Char) :
    (numberTail hasPoint afterMark cs).1 ++ (numberTail hasPoint afterMark cs).2 = cs := by
  fun_induction numberTail hasPoint afterMark cs <;> simp_all

theorem numberTail_left (hasPoint afterMark : Bool) (h : Apart left) :
    numberTail hasPoint afterMark left = ([], left) := by
  cases left with
  | nil => rfl
  | cons c left =>
    have hc : goesOn c = false := goesOn_of_isBlank (h c rfl)
    simp only [goesOn, continuesName, Bool.or_eq_false_iff, decide_eq_false_iff_not] at hc
    rw [numberTail, if_neg]
    simp [hc]

theorem numberTail_of_apart (hasPoint afterMark : Bool) (cs : List Char) (h : Apart left) :
    numberTail hasPoint afterMark ((numberTail hasPoint afterMark cs).1 ++ left) =
      ((numberTail hasPoint afterMark cs).1, left) := by
  fun_induction numberTail hasPoint afterMark cs with
  | case1 hasPoint afterMark => exact numberTail_left hasPoint afterMark h
  | case2 hasPoint afterMark c rest hc more left' hrest ih =>
    rw [hrest] at ih
    simp only [List.cons_append, numberTail, hc, if_true, ih]
  | case3 hasPoint afterMark c rest hc => exact numberTail_left hasPoint afterMark h

/-- A quoted text ends at its closing quote, whatever follows. -/
theorem exists_lexeme_of_scanQuoted (h : scanQuoted start quote offset cs = .ok (text, left)) :
    ∃ more, cs = more ++ left ∧ ∀ start' offset' left',
      scanQuoted start' quote offset' (more ++ left') = .ok (text, left') := by
  fun_induction scanQuoted start quote offset cs generalizing text with
  | case1 offset => cases h
  | case2 offset rest =>
    obtain ⟨rfl, rfl⟩ := Prod.mk.inj (Except.ok.inj h)
    refine ⟨[quote], rfl, fun start' offset' left' => ?_⟩
    rw [List.singleton_append, scanQuoted.eq_def]
    exact if_pos rfl
  | case3 offset hquote => cases h
  | case4 offset e rest hescaped hquote ih =>
    obtain ⟨⟨inner, left'⟩, hinner, heq⟩ := map_eq_ok_iff.mp h
    obtain ⟨rfl, rfl⟩ := Prod.mk.inj heq
    obtain ⟨more, rfl, hmore⟩ := ih hinner
    refine ⟨'\\' :: e :: more, rfl, fun start' offset' left' => ?_⟩
    rw [List.cons_append, List.cons_append, scanQuoted.eq_def]
    dsimp only
    rw [if_neg hquote, if_pos rfl, if_pos hescaped, hmore]
    rfl
  | case5 offset e rest hescaped hquote => cases h
  | case6 offset c rest hquote hbackslash ih =>
    obtain ⟨⟨inner, left'⟩, hinner, heq⟩ := map_eq_ok_iff.mp h
    obtain ⟨rfl, rfl⟩ := Prod.mk.inj heq
    obtain ⟨more, rfl, hmore⟩ := ih hinner
    refine ⟨c :: more, rfl, fun start' offset' left' => ?_⟩
    rw [List.cons_append, scanQuoted.eq_def]
    dsimp only
    rw [if_neg hquote, if_neg hbackslash, hmore]
    rfl

theorem exists_lexeme_of_scanOrder {plain orEqual : Sign}
    (h : scanOrder plain orEqual cs = (t, left)) :
    ∃ more, cs = more ++ left ∧ ∀ left', Apart left' →
      scanOrder plain orEqual (more ++ left') = (t, left') := by
  unfold scanOrder at h
  split at h
  · obtain ⟨rfl, rfl⟩ := Prod.mk.inj h
    exact ⟨['='], rfl, fun left' _ => rfl⟩
  · obtain ⟨rfl, rfl⟩ := Prod.mk.inj h
    refine ⟨[], rfl, fun rest hrest => ?_⟩
    have hequal : '=' ∉ rest.head? := fun hmem =>
      absurd (goesOn_of_isBlank (hrest '=' hmem)) (by decide)
    cases rest with
    | nil => rfl
    | cons d rest =>
      have hd : d ≠ '=' := fun heq => hequal (by simp [heq])
      unfold scanOrder
      split
      · next heq => exact absurd (List.cons.inj heq).1 hd
      · rfl

theorem exists_lexeme_of_scanSign (h : scanSign offset c cs = .ok (t, left)) :
    ∃ more, cs = more ++ left ∧ ∀ offset' left', Apart left' →
      scanSign offset' c (more ++ left') = .ok (t, left') := by
  unfold scanSign at h
  split at h
  case h_6 | h_7 =>
    obtain ⟨more, hcs, hmore⟩ := exists_lexeme_of_scanOrder (Except.ok.inj h)
    exact ⟨more, hcs, fun offset' left' hleft' => congrArg Except.ok (hmore left' hleft')⟩
  case h_8 | h_9 =>
    obtain ⟨rfl, rfl⟩ := Prod.mk.inj (Except.ok.inj h)
    exact ⟨[_], rfl, fun offset' left' _ => rfl⟩
  case h_10 => cases h
  all_goals
    obtain ⟨rfl, rfl⟩ := Prod.mk.inj (Except.ok.inj h)
    exact ⟨[], rfl, fun offset' left' _ => rfl⟩

theorem startsNumber_of_scanSign (h : scanSign offset c cs = .ok (t, left)) (rest : List Char) :
    startsNumber c rest = false := by
  unfold scanSign at h
  split at h
  case h_10 => cases h
  all_goals cases rest <;> rfl

theorem startsNumber_of_startsName (hname : startsName c = true) (hdigit : c.isDigit = false)
    (rest : List Char) : startsNumber c rest = false := by
  have hpoint : c ≠ '.' := by
    rintro rfl
    exact absurd hname (by decide +kernel)
  have hminus : c ≠ '-' := by
    rintro rfl
    exact absurd hname (by decide +kernel)
  cases rest <;> simp [startsNumber, hdigit, hpoint, hminus]

theorem not_isDigit_of_startsNumber (h : startsNumber c cs = false) : c.isDigit = false := by
  unfold startsNumber at h
  exact (Bool.or_eq_false_iff.mp h).1

/-- What makes a number of a character that is no digit is itself part of the number. -/
theorem startsNumber_of_numberTail (h : startsNumber c cs = true) (left : List Char) :
    startsNumber c ((numberTail (c = '.') false cs).1 ++ left) = true := by
  by_cases hdigit : c.isDigit = true
  · simp [startsNumber, hdigit]
  · cases cs with
    | nil => simp [startsNumber, hdigit] at h
    | cons d rest =>
      have hd : (d.isDigit || (d = '.' && !decide (c = '.'))) = true := by
        simp only [startsNumber, hdigit, Bool.false_or, Bool.or_eq_true, Bool.and_eq_true,
          decide_eq_true_eq] at h
        rcases h with ⟨-, hd⟩ | ⟨rfl, hd | rfl⟩
        · simp [hd]
        · simp [hd]
        · rfl
      rw [numberTail, if_pos (by simp [hd])]
      exact h

/-- **What is cut off a text is cut off wherever it stands in front of a blank.** -/
theorem exists_lexeme_of_scanToken (h : scanToken offset c cs = .ok (t, left)) :
    ∃ more, cs = more ++ left ∧ ∀ offset' left', Apart left' →
      scanToken offset' c (more ++ left') = .ok (t, left') := by
  unfold scanToken at h
  split_ifs at h with hquote hnumber hname
  · obtain ⟨⟨text, left'⟩, hquoted, heq⟩ := map_eq_ok_iff.mp h
    obtain ⟨rfl, rfl⟩ := Prod.mk.inj heq
    obtain ⟨more, rfl, hmore⟩ := exists_lexeme_of_scanQuoted hquoted
    refine ⟨more, rfl, fun offset' left' _ => ?_⟩
    rw [scanToken, if_pos hquote, hmore]
    rfl
  · unfold scanNumber at h
    dsimp only at h
    split at h
    · next number hvalue =>
      obtain ⟨rfl, rfl⟩ := Prod.mk.inj (Except.ok.inj h)
      refine ⟨_, (numberTail_append _ _ cs).symm, fun offset' left' hleft' => ?_⟩
      rw [scanToken, if_neg hquote, if_pos (startsNumber_of_numberTail hnumber left'), scanNumber,
        numberTail_of_apart _ _ cs hleft']
      simp only [hvalue]
    · cases h
  · obtain ⟨rfl, rfl⟩ := Prod.mk.inj (Except.ok.inj h)
    refine ⟨_, List.takeWhile_append_dropWhile.symm, fun offset' left' hleft' => ?_⟩
    have hdigit := not_isDigit_of_startsNumber (Bool.eq_false_iff.mpr hnumber)
    have hrun : ∀ d ∈ cs.takeWhile continuesName, continuesName d = true :=
      fun d hd => List.mem_takeWhile_imp hd
    have hstops : Text.Stops continuesName left' := hleft'.stops fun d hd => by
      simp only [goesOn, Bool.or_eq_false_iff] at hd
      exact hd.1.1.1.1
    rw [scanToken, if_neg hquote, if_neg (by simp [startsNumber_of_startsName hname hdigit]),
      if_pos hname, Text.takeWhile_run hrun hstops, Text.dropWhile_run hrun hstops]
  · obtain ⟨more, rfl, hmore⟩ := exists_lexeme_of_scanSign h
    refine ⟨more, rfl, fun offset' left' hleft' => ?_⟩
    rw [scanToken, if_neg hquote, if_neg (by simp [startsNumber_of_scanSign h]), if_neg hname,
      hmore offset' left' hleft']

/-! ## Words and where they start -/

theorem byteLength_append (cs ds : List Char) :
    byteLength (cs ++ ds) = byteLength cs + byteLength ds := by
  induction cs with
  | nil => simp [byteLength]
  | cons c cs ih =>
    simp only [byteLength, List.cons_append, List.foldr_cons] at ih ⊢
    omega

theorem utf8ByteSize_ofList (cs : List Char) : (String.ofList cs).utf8ByteSize = byteLength cs := by
  induction cs with
  | nil => rfl
  | cons c cs ih =>
    rw [String.ofList_cons, String.utf8ByteSize_append, String.utf8ByteSize_singleton, ih]
    rfl

/-- Characters are cut off as a word wherever they stand in front of a blank or at the end. -/
def Writes (lexeme : List Char) (t : Token) : Prop :=
  ∃ c more, lexeme = c :: more ∧ Text.isBlank c = false ∧
    ∀ offset left, Apart left → scanToken offset c (more ++ left) = .ok (t, left)

theorem Writes.ne_nil (h : Writes lexeme t) : lexeme ≠ [] := by
  obtain ⟨c, more, rfl, -⟩ := h
  exact List.cons_ne_nil c more

theorem exists_writes (hblank : Text.isBlank c = false)
    (h : scanToken offset c cs = .ok (t, left)) :
    ∃ lexeme, c :: cs = lexeme ++ left ∧ Writes lexeme t := by
  obtain ⟨more, rfl, hmore⟩ := exists_lexeme_of_scanToken h
  exact ⟨c :: more, rfl, c, more, rfl, hblank, hmore⟩

theorem scanFrom_blanks {blanks : List Char} (h : ∀ c ∈ blanks, Text.isBlank c = true)
    (offset : Nat) (cs : List Char) :
    scanFrom offset (blanks ++ cs) = scanFrom (offset + byteLength blanks) cs := by
  induction blanks generalizing offset with
  | nil => rfl
  | cons c blanks ih =>
    obtain ⟨hc, hblanks⟩ := List.forall_mem_cons.mp h
    rw [List.cons_append, scanFrom, if_pos hc, ih hblanks, Nat.add_assoc]
    rfl

/-- **A word is cut off where its characters stand.** -/
theorem Writes.scanFrom_eq (h : Writes lexeme t) (hleft : Apart left) (offset : Nat) :
    scanFrom offset (lexeme ++ left) =
      (scanFrom (offset + byteLength lexeme) left).map (⟨t, offset⟩ :: ·) := by
  obtain ⟨c, more, rfl, hblank, hmore⟩ := h
  rw [List.cons_append, scanFrom, if_neg (by simp [hblank])]
  split
  · next e herror => cases (hmore offset left hleft).symm.trans herror
  · next t' left' htoken =>
    cases (hmore offset left hleft).symm.trans htoken
    rw [← List.cons_append, byteLength_append, Nat.add_sub_cancel]

end Query

end EntityQuery
