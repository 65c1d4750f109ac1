import EntityQuery.Proofs.Number.Rounding
import EntityQuery.Proofs.Query.Lexemes

/-! # Texts as words and blanks

A text that is cut into words is made of pieces: the blanks in front of a word, and the characters
that the word is written with. Nothing is left over but blanks at the end. So the words can be read
off the characters of each word alone, and putting other blanks between them changes nothing but the
places. A text that cannot be cut is refused at one of its characters.

* `Query.exists_pieces`: the pieces of a text.
* `Query.exists_scanFrom_spaced`: words that are written with spaces between them.
* `Query.tokenize_lossless`: **cutting loses nothing and does not depend on the blanks**. -/

namespace EntityQuery.Query

variable {offset base : Nat} {cs : List Char} {ts : List Located}

/-- A word with the blanks in front of it. -/
structure Piece where
  blanks : String
  /-- The characters that the word is written with. -/
  lexeme : String
  word : Located

/-- The text that pieces make, one after another. -/
def joined (pieces : List Piece) : String := String.join (pieces.map fun p => p.blanks ++ p.lexeme)

theorem joined_cons (p : Piece) (pieces : List Piece) :
    joined (p :: pieces) = p.blanks ++ p.lexeme ++ joined pieces := by
  simp [joined]

/-- A piece as it stands at a place of a text. -/
structure Piece.StandsAt (p : Piece) (place : Nat) : Prop where
  blank : ∀ c ∈ p.blanks.toList, Text.isBlank c = true
  writes : Writes p.lexeme.toList p.word.token
  starts : p.word.offset = place + p.blanks.utf8ByteSize

/-- What is left of a text behind blanks is cut into pieces, the first of which takes the blanks. -/
theorem exists_pieces_behind {blanks : List Char} (hblanks : ∀ c ∈ blanks, Text.isBlank c = true)
    (h : scanFrom (base + byteLength blanks) cs = .ok ts) :
    ∃ pieces after, blanks ++ cs = (joined pieces).toList ++ after ∧
      (∀ c ∈ after, Text.isBlank c = true) ∧ pieces.map (·.word) = ts ∧
      ∀ front p back, pieces = front ++ p :: back →
        p.StandsAt (base + (joined front).utf8ByteSize) := by
  generalize hoffset : base + byteLength blanks = offset at h
  fun_induction scanFrom offset cs generalizing base blanks ts with
  | case1 offset =>
    cases h
    refine ⟨[], blanks, ?_, hblanks, rfl, fun front p back heq => ?_⟩
    · simp [joined]
    · simp at heq
  | case2 offset c rest hc ih =>
    have hmore : ∀ d ∈ blanks ++ [c], Text.isBlank d = true := by
      simpa [or_imp, forall_and] using ⟨hblanks, hc⟩
    have hplace : base + byteLength (blanks ++ [c]) = offset + c.utf8Size := by
      rw [byteLength_append, ← hoffset, Nat.add_assoc]
      rfl
    obtain ⟨pieces, after, htext, hpieces⟩ := ih hmore hplace h
    exact ⟨pieces, after, by rw [← htext, List.append_assoc, List.singleton_append], hpieces⟩
  | case3 offset c rest hc e herror => cases h
  | case4 offset c rest hc t left htoken hlength ih =>
    obtain ⟨more, hmore, rfl⟩ := map_eq_ok_iff.mp h
    obtain ⟨lexeme, hlexeme, hwrites⟩ := exists_writes (Bool.eq_false_iff.mpr hc) htoken
    let first : Piece := ⟨String.ofList blanks, String.ofList lexeme, ⟨t, offset⟩⟩
    have hfirst : first.StandsAt base :=
      ⟨by simpa [first] using hblanks, by simpa [first] using hwrites,
        by simp only [first, utf8ByteSize_ofList, hoffset]⟩
    have hplace : offset + byteLength lexeme + byteLength [] =
        offset + (byteLength (c :: rest) - byteLength left) := by
      rw [hlexeme, byteLength_append, Nat.add_sub_cancel]
      rfl
    obtain ⟨pieces, after, rfl, hafter, rfl, hpieces⟩ := ih (by simp) hplace hmore
    refine ⟨first :: pieces, after, ?_, hafter, rfl, fun front p back heq => ?_⟩
    · rw [hlexeme, joined_cons]
      simp [first]
    · rcases List.cons_eq_append_iff.mp heq with ⟨rfl, hrest⟩ | ⟨front, rfl, hrest⟩
      · obtain ⟨rfl, rfl⟩ := List.cons.inj hrest
        exact hfirst
      · have hp := hpieces front p back hrest
        have hfront : base + (joined (first :: front)).utf8ByteSize =
            offset + byteLength lexeme + (joined front).utf8ByteSize := by
          simp only [joined_cons, String.utf8ByteSize_append, first, utf8ByteSize_ofList, ← hoffset]
          omega
        rwa [hfront]

/-- **The pieces of a text.** -/
theorem exists_pieces {text : String} (h : tokenize text = .ok ts) :
    ∃ (pieces : List Piece) (after : String), text = joined pieces ++ after ∧
      (∀ c ∈ after.toList, Text.isBlank c = true) ∧ pieces.map (·.word) = ts ∧
      ∀ front p back, pieces = front ++ p :: back → p.StandsAt (joined front).utf8ByteSize := by
  have hnone : ∀ c ∈ ([] : List Char), Text.isBlank c = true := List.forall_mem_nil _
  have hstart : scanFrom (0 + byteLength []) text.toList = .ok ts := h
  obtain ⟨pieces, after, htext, hafter, hwords, hpieces⟩ := exists_pieces_behind hnone hstart
  refine ⟨pieces, String.ofList after, ?_, by simpa using hafter, hwords, ?_⟩
  · rw [← String.toList_inj, String.toList_append, String.toList_ofList]
    exact htext
  · simpa only [Nat.zero_add] using hpieces

theorem Piece.StandsAt.writes_of_mem {pieces : List Piece}
    (h : ∀ front p back, pieces = front ++ p :: back → p.StandsAt (joined front).utf8ByteSize) :
    ∀ p ∈ pieces, Writes p.lexeme.toList p.word.token := by
  intro p hp
  obtain ⟨front, back, hsplit⟩ := List.append_of_mem hp
  exact (h front p back hsplit).writes

theorem Piece.StandsAt.lexeme_ne {p : Piece} (h : p.StandsAt base) : p.lexeme ≠ "" := by
  intro hempty
  have hwrites := h.writes
  rw [hempty] at hwrites
  exact hwrites.ne_nil rfl

theorem pairwise_offset (base : Nat) {pieces : List Piece}
    (h : ∀ front p back, pieces = front ++ p :: back →
      p.StandsAt (base + (joined front).utf8ByteSize)) :
    (pieces.map (·.word)).Pairwise (·.offset < ·.offset) := by
  induction pieces generalizing base with
  | nil => exact .nil
  | cons p pieces ih =>
    have hp : p.StandsAt base := h [] p pieces rfl
    have hpositive : 0 < p.lexeme.utf8ByteSize := by
      rw [Nat.pos_iff_ne_zero, ne_eq, String.utf8ByteSize_eq_zero_iff]
      exact hp.lexeme_ne
    have hrest : ∀ front q back, pieces = front ++ q :: back → q.StandsAt
        (base + (p.blanks ++ p.lexeme).utf8ByteSize + (joined front).utf8ByteSize) := by
      rintro front q back rfl
      have hq := h (p :: front) q back rfl
      rwa [joined_cons, String.utf8ByteSize_append, ← Nat.add_assoc] at hq
    refine List.pairwise_cons.mpr ⟨?_, ih _ hrest⟩
    simp only [List.mem_map, forall_exists_index, and_imp, forall_apply_eq_imp_iff₂]
    intro q hq
    obtain ⟨front, back, hpieces⟩ := List.append_of_mem hq
    have hp := hp.starts
    have hq := (hrest front q back hpieces).starts
    rw [String.utf8ByteSize_append] at hq
    omega

/-- **Words that are written with spaces between them** are cut off again. -/
theorem exists_scanFrom_spaced {ι : Type} {lexeme : ι → List Char} {token : ι → Token} {l : List ι}
    (h : ∀ i ∈ l, Writes (lexeme i) (token i)) (offset : Nat) :
    ∃ ts, scanFrom offset ([' '].intercalate (l.map lexeme)) = .ok ts ∧
      ts.map (·.token) = l.map token := by
  induction l generalizing offset with
  | nil => exact ⟨[], by simp [scanFrom], rfl⟩
  | cons i l ih =>
    obtain ⟨hi, hl⟩ := List.forall_mem_cons.mp h
    cases l with
    | nil =>
      refine ⟨[⟨token i, offset⟩], ?_, rfl⟩
      have hscan := hi.scanFrom_eq apart_nil offset
      simpa [scanFrom, Except.map] using hscan
    | cons j l =>
      obtain ⟨ts, hts, htokens⟩ := ih hl (offset + byteLength (lexeme i) + byteLength [' '])
      refine ⟨⟨token i, offset⟩ :: ts, ?_, congrArg (token i :: ·) htokens⟩
      have hspace : ∀ c ∈ [' '], Text.isBlank c = true :=
        List.forall_mem_singleton.mpr (by decide)
      have hapart : Apart ([' '] ++ [' '].intercalate ((j :: l).map lexeme)) :=
        apart_cons (by decide) _
      rw [List.map_cons, List.map_cons, List.intercalate_cons_cons, ← List.map_cons,
        List.append_assoc, hi.scanFrom_eq hapart, scanFrom_blanks hspace, hts]
      rfl

theorem Writes.tokenize {lexeme : String} {t : Token} (h : Writes lexeme.toList t) :
    tokenize lexeme = .ok [⟨t, 0⟩] := by
  have hscan := h.scanFrom_eq apart_nil 0
  rw [List.append_nil] at hscan
  rw [Query.tokenize, hscan]
  simp [scanFrom, Except.map]

/-! ## Where cutting fails -/

theorem map_eq_error_iff {ε α β : Type} {f : α → β} {x : Except ε α} {e : ε} :
    x.map f = .error e ↔ x = .error e := by
  cases x <;> simp [Except.map]

/-- An error is about a character of the text, which starts at `offset`. -/
def IsAbout (e : ParseError) (offset : Nat) (cs : List Char) : Prop :=
  ∃ front back, cs = front ++ back ∧ back ≠ [] ∧ e.offset? = some (offset + byteLength front)

theorem isAbout_first {e : ParseError} {c : Char} (h : e.offset? = some offset)
    (cs : List Char) : IsAbout e offset (c :: cs) :=
  ⟨[], c :: cs, rfl, List.cons_ne_nil c cs, h⟩

theorem IsAbout.append {e : ParseError} (front : List Char)
    (h : IsAbout e (offset + byteLength front) cs) : IsAbout e offset (front ++ cs) := by
  obtain ⟨more, back, rfl, hback, he⟩ := h
  refine ⟨front ++ more, back, by rw [List.append_assoc], hback, ?_⟩
  rw [he, byteLength_append, Nat.add_assoc]

/-- An open quote is reported where the quoted text starts, a wrong escape at its backslash. -/
theorem isAbout_of_scanQuoted {start : Nat} {quote : Char} {e : ParseError}
    (h : scanQuoted start quote offset cs = .error e) :
    e.offset? = some start ∨ IsAbout e offset cs := by
  fun_induction scanQuoted start quote offset cs with
  | case1 offset => exact .inl (by cases h; rfl)
  | case2 offset rest => cases h
  | case3 offset hquote => exact .inl (by cases h; rfl)
  | case4 offset c rest hescaped hquote ih =>
    obtain hstart | habout := ih (map_eq_error_iff.mp h)
    · exact .inl hstart
    · have hsize : byteLength ['\\', c] = 2 := by
        rcases hescaped with rfl | rfl | rfl <;> rfl
      exact .inr (IsAbout.append ['\\', c] (hsize ▸ habout))
  | case5 offset c rest hescaped hquote => exact .inr (isAbout_first (by cases h; rfl) (c :: rest))
  | case6 offset c rest hquote hbackslash ih =>
    obtain hstart | habout := ih (map_eq_error_iff.mp h)
    · exact .inl hstart
    · exact .inr (IsAbout.append [c] habout)

theorem offset?_of_scanNumber {c : Char} {e : ParseError} (h : scanNumber offset c cs = .error e) :
    e.offset? = some offset := by
  unfold scanNumber at h
  dsimp only at h
  split at h
  · cases h
  · cases h
    rfl

theorem offset?_of_scanSign {c : Char} {e : ParseError} (h : scanSign offset c cs = .error e) :
    e.offset? = some offset := by
  unfold scanSign at h
  split at h <;> cases h
  rfl

theorem isAbout_of_scanToken {c : Char} {e : ParseError} (h : scanToken offset c cs = .error e) :
    IsAbout e offset (c :: cs) := by
  unfold scanToken at h
  split_ifs at h with hquote
  · obtain hstart | habout := isAbout_of_scanQuoted (map_eq_error_iff.mp h)
    · exact isAbout_first hstart cs
    · have hsize : byteLength [c] = 1 := by rcases hquote with rfl | rfl <;> rfl
      exact IsAbout.append [c] (hsize ▸ habout)
  · exact isAbout_first (offset?_of_scanNumber h) cs
  · exact isAbout_first (offset?_of_scanSign h) cs

theorem isAbout_of_scanFrom {e : ParseError} (h : scanFrom offset cs = .error e) :
    IsAbout e offset cs := by
  fun_induction scanFrom offset cs with
  | case1 offset => cases h
  | case2 offset c rest hc ih => exact IsAbout.append [c] (ih h)
  | case3 offset c rest hc e' herror =>
    cases h
    exact isAbout_of_scanToken herror
  | case4 offset c rest hc t left htoken hlength ih =>
    obtain ⟨lexeme, hlexeme, -⟩ := exists_writes (Bool.eq_false_iff.mpr hc) htoken
    have habout := ih (map_eq_error_iff.mp h)
    rw [hlexeme, byteLength_append, Nat.add_sub_cancel] at habout
    exact hlexeme ▸ habout.append lexeme

/-- **Cutting a text into words loses nothing and does not depend on the blanks.** The text is made
of the words, each with the blanks in front of it, and of blanks at the end. A word starts where its
characters do, its characters alone are cut into this word alone, and with single spaces between
them they are cut into the same words. Doubles are finite. A text that is not cut is refused at one
of its characters. -/
theorem tokenize_lossless (text : String) :
    (∀ ts, tokenize text = .ok ts → ∃ (pieces : List Piece) (after : String),
      text = joined pieces ++ after ∧ (∀ c ∈ after.toList, Text.isBlank c = true) ∧
      pieces.map (·.word) = ts ∧
      (∀ front p back, pieces = front ++ p :: back →
        (∀ c ∈ p.blanks.toList, Text.isBlank c = true) ∧ p.lexeme ≠ "" ∧
        p.word.offset = (joined front ++ p.blanks).utf8ByteSize ∧
        tokenize p.lexeme = .ok [⟨p.word.token, 0⟩]) ∧
      (∃ spaced, tokenize (" ".intercalate (pieces.map (·.lexeme))) = .ok spaced ∧
        spaced.map (·.token) = ts.map (·.token)) ∧
      ts.Pairwise (·.offset < ·.offset) ∧
      ∀ x, .float x ∈ ts.map (·.token) → |x.value| < 2 ^ Binary64.valueExponent) ∧
    ∀ e, tokenize text = .error e → ∃ front back : String,
      text = front ++ back ∧ back ≠ "" ∧ e.offset? = some front.utf8ByteSize := by
  refine ⟨fun ts h => ?_, fun e h => ?_⟩
  · obtain ⟨pieces, after, htext, hafter, rfl, hpieces⟩ := exists_pieces h
    refine ⟨pieces, after, htext, hafter, rfl, fun front p back hsplit => ?_, ?_,
      pairwise_offset 0 (by simpa only [Nat.zero_add] using hpieces),
      fun x _ => x.abs_value_lt⟩
    · have hp := hpieces front p back hsplit
      exact ⟨hp.blank, hp.lexeme_ne, by rw [hp.starts, String.utf8ByteSize_append],
        hp.writes.tokenize⟩
    · obtain ⟨spaced, hspaced, htokens⟩ :=
        exists_scanFrom_spaced (Piece.StandsAt.writes_of_mem hpieces) 0
      refine ⟨spaced, ?_, by rw [htokens, List.map_map]; rfl⟩
      rw [tokenize, String.toList_intercalate, List.map_map]
      exact hspaced
  · obtain ⟨front, back, htext, hback, he⟩ := isAbout_of_scanFrom h
    refine ⟨String.ofList front, String.ofList back, ?_, by simpa using hback, ?_⟩
    · rw [← String.ofList_append, ← htext, String.ofList_toList]
    · rw [he, Nat.zero_add, utf8ByteSize_ofList]

/-- A text with two-sign words and an escape, and a text whose number is out of range. -/
theorem tokenize_lossless_mixed :
    let ts : List Located := [⟨.name "é.b", 1⟩, ⟨.sign .lessEqual, 5⟩, ⟨.int (-7), 7⟩,
      ⟨.sign .either, 10⟩, ⟨.quoted "x'y", 12⟩]
    tokenize " é.b<=-7 ||'x\\'y'" = .ok ts ∧
      (∃ pieces after, " é.b<=-7 ||'x\\'y'" = joined pieces ++ after ∧
        pieces.map (·.word) = ts ∧ ∃ spaced,
          tokenize (" ".intercalate (pieces.map (·.lexeme))) = .ok spaced ∧
          spaced.map (·.token) = ts.map (·.token)) ∧
      tokenize "π >= 1e999" = .error (.invalidNumber 6 "1e999") ∧
      ∃ front back : String, "π >= 1e999" = front ++ back ∧ back ≠ "" ∧
        some 6 = some front.utf8ByteSize := by
  intro ts
  have hok : tokenize " é.b<=-7 ||'x\\'y'" = .ok ts := by decide +kernel
  have herror : tokenize "π >= 1e999" = .error (.invalidNumber 6 "1e999") := by decide +kernel
  obtain ⟨pieces, after, htext, -, hwords, -, hspaced, -⟩ := (tokenize_lossless _).1 ts hok
  exact ⟨hok, ⟨pieces, after, htext, hwords, hspaced⟩, herror, (tokenize_lossless _).2 _ herror⟩

end EntityQuery.Query
