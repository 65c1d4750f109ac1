import EntityQuery.Proofs.Query.Refusals

/-! # Errors point at the first fault

Which words a text may consist of is a matter of the words alone: they are accepted if some text is
cut into them and read. An error of a text names the place of its first fault. Up to there its words
begin an accepted list, and there they stop to do so; if there is no such place, the text ends too
early.

* `Accepts`: the lists of words that are accepted.
* `PointsAtFault`: what an error says about the words of a text.
* `refused_at_first_fault`: **parse errors point at the first impossible word**. -/

namespace EntityQuery.Query

variable {α X : Type} {text : String} {ts : List Located} {e : ParseError}

/-- Words that some text is cut into that is read without an error. -/
def Accepts (read : String → Except ParseError α) (words : List Token) : Prop :=
  ∃ text ts, tokenize text = .ok ts ∧ ts.map (·.token) = words ∧ ∃ a, read text = .ok a

/-- What an error says about the words of a text. Either it is about one of them: the words in front
of it begin an accepted list, and with it they begin none. Or it is about the end of the text: the
words begin a longer accepted list. -/
def PointsAtFault (read : String → Except ParseError α) (text : String) (ts : List Located)
    (e : ParseError) : Prop :=
  (∃ before t after expected, ts = before ++ t :: after ∧
    e = .unexpectedToken t.offset t.token expected ∧
    (∃ more, Accepts read (before.map (·.token) ++ more)) ∧
    ∀ more, ¬ Accepts read ((before ++ [t]).map (·.token) ++ more)) ∨
  ∃ expected more, e = .unexpectedEnd text.utf8ByteSize expected ∧ more ≠ [] ∧
    Accepts read (ts.map (·.token) ++ more)

/-! ## Words and texts -/

theorem isWritten_of_tokenize (h : tokenize text = .ok ts) :
    ∀ t ∈ ts.map (·.token), IsWritten t := by
  obtain ⟨pieces, -, -, -, rfl, hpieces⟩ := exists_pieces h
  intro t ht
  simp only [List.mem_map, exists_exists_and_eq_and] at ht
  obtain ⟨p, hp, rfl⟩ := ht
  exact ⟨_, Piece.StandsAt.writes_of_mem hpieces p hp⟩

theorem exists_text {words : List Token} (h : ∀ t ∈ words, IsWritten t) :
    ∃ text ts, tokenize text = .ok ts ∧ ts.map (·.token) = words := by
  choose! lexeme hlexeme using h
  obtain ⟨ts, hts, htokens⟩ := exists_scanFrom_spaced hlexeme 0
  refine ⟨String.ofList ([' '].intercalate (words.map lexeme)), ts, ?_, by simpa using htokens⟩
  rw [tokenize, String.toList_ofList]
  exact hts

theorem fault?_eq_none_iff {r : Except ParseError α} : fault? r = none ↔ ∃ a, r = .ok a := by
  cases r <;> simp [fault?]

/-! ## Errors -/

section Errors

variable {read : String → Except ParseError α}
  {readTokens : Nat → List Located → Except ParseError α} {words : X → List Token}

/-- Which lists are accepted does not depend on the text that they are cut from. -/
theorem accepts_iff (hread : ∀ text ts, tokenize text = .ok ts →
      read text = readTokens text.utf8ByteSize ts)
    (hok : ∀ stop ts, fault? (readTokens stop ts) = none ↔ ∃ x, words x = ts.map (·.token))
    {l : List Token} : Accepts read l ↔ (∃ x, words x = l) ∧ ∀ t ∈ l, IsWritten t := by
  constructor
  · rintro ⟨text, ts, hts, rfl, hresult⟩
    rw [hread text ts hts, ← fault?_eq_none_iff, hok] at hresult
    exact ⟨hresult, isWritten_of_tokenize hts⟩
  · rintro ⟨hx, hwritten⟩
    obtain ⟨text, ts, hts, rfl⟩ := exists_text hwritten
    rw [← hok text.utf8ByteSize, fault?_eq_none_iff, ← hread text ts hts] at hx
    exact ⟨text, ts, hts, rfl, hx⟩

theorem pointsAtFault_of_blames (hread : ∀ text ts, tokenize text = .ok ts →
      read text = readTokens text.utf8ByteSize ts)
    (hok : ∀ stop ts, fault? (readTokens stop ts) = none ↔ ∃ x, words x = ts.map (·.token))
    (hblames : Blames text.utf8ByteSize (fun ts => fault? (readTokens text.utf8ByteSize ts))
      (CanBegin words) ts)
    (hts : tokenize text = .ok ts) (he : read text = .error e) : PointsAtFault read text ts e := by
  have hfault : fault? (readTokens text.utf8ByteSize ts) = some e := by
    rw [← hread text ts hts, he]
    rfl
  have hwritten := isWritten_of_tokenize hts
  obtain ⟨front, left, expected, ⟨before, rfl, rfl⟩, rfl, ⟨x, more, hx, hmore⟩, hnever⟩ :=
    hblames e hfault
  have haccepts : Accepts read (before.map (·.token) ++ more) := by
    rw [accepts_iff hread hok]
    refine ⟨⟨x, hx⟩, fun t ht => ?_⟩
    rcases List.mem_append.mp ht with ht | ht
    · exact hwritten t (by simp only [List.map_append, List.mem_append, ht, true_or])
    · exact hmore t ht
  cases left with
  | nil =>
    rw [List.append_nil] at hfault ⊢
    refine .inr ⟨expected, more, rfl, ?_, haccepts⟩
    rintro rfl
    have hnone := (hok text.utf8ByteSize before).mpr ⟨x, by rw [hx, List.append_nil]⟩
    cases hnone.symm.trans hfault
  | cons t after =>
    refine .inl ⟨before, t, after, expected, rfl, rfl, ⟨more, haccepts⟩, fun more' haccepts' => ?_⟩
    obtain ⟨text', ts', hts', htokens, hresult⟩ := haccepts'
    rw [hread text' ts' hts', ← fault?_eq_none_iff, hok] at hresult
    have hnone := (hok text.utf8ByteSize ts').mpr hresult
    have hbegins := begins_to_end.mpr htokens
    rw [List.map_append, begins_append] at hbegins
    obtain ⟨left', hleft', -⟩ := hbegins
    exact hnever t after rfl ts' left' hleft' hnone

end Errors

/-- **Parse errors point at the first impossible word.** The error of a text that is cut into words
and refused is about one of them or about the end of the text, both for queries and for filters. -/
theorem refused_at_first_fault (hts : tokenize text = .ok ts) (hne : ts ≠ []) :
    (∀ e, parse text = .error e → PointsAtFault parse text ts e) ∧
      ∀ e, parseFilter text = .error e → PointsAtFault parseFilter text ts e := by
  obtain ⟨t, rest, rfl⟩ := List.exists_cons_of_ne_nil hne
  constructor
  · refine fun e he => pointsAtFault_of_blames (fun text ts hts => ?_) (fun stop ts => ?_)
      (blames_ofTokens t rest) hts he
    · rw [parse, hts]
      rfl
    · simp only [fault?_eq_none_iff, ofTokens_eq_ok, begins_to_end]
      exact ⟨fun ⟨_, d, _, hd⟩ => ⟨d, hd.symm⟩, fun ⟨d, hd⟩ => ⟨_, d, rfl, hd.symm⟩⟩
  · refine fun e he => pointsAtFault_of_blames (fun text ts hts => ?_) (fun stop ts => ?_)
      (blames_filterOfTokens t rest) hts he
    · rw [parseFilter, hts]
      rfl
    · simp only [fault?_eq_none_iff, filterOfTokens_eq_ok, begins_to_end]
      exact ⟨fun ⟨_, d, _, hd⟩ => ⟨d, hd.symm⟩, fun ⟨d, hd⟩ => ⟨_, d, rfl, hd.symm⟩⟩

/-- A text with half an order is wrong at its last word as a query, and before that as a filter. An
open parenthesis is missed at the end. -/
theorem refused_at_first_fault_order :
    let ts : List Located := [⟨.name "a", 0⟩, ⟨.sign .equal, 2⟩, ⟨.int 1, 4⟩, ⟨.name "order", 6⟩,
      ⟨.name "name", 12⟩]
    let ts' : List Located := [⟨.sign .openParen, 0⟩, ⟨.name "a", 1⟩, ⟨.sign .equal, 3⟩,
      ⟨.int 1, 5⟩]
    (tokenize "a = 1 order name" = .ok ts ∧
      PointsAtFault parse "a = 1 order name" ts (.unexpectedToken 12 (.name "name") .byKeyword) ∧
      PointsAtFault parseFilter "a = 1 order name" ts
        (.unexpectedToken 6 (.name "order") .endOfInput)) ∧
    tokenize "(a = 1 " = .ok ts' ∧
      PointsAtFault parse "(a = 1 " ts' (.unexpectedEnd 7 .closeParen) := by
  intro ts ts'
  have hts : tokenize "a = 1 order name" = .ok ts := by decide +kernel
  have hts' : tokenize "(a = 1 " = .ok ts' := by decide +kernel
  have hne : ts ≠ [] := List.cons_ne_nil _ _
  have hne' : ts' ≠ [] := List.cons_ne_nil _ _
  exact ⟨⟨hts, (refused_at_first_fault hts hne).1 _ (by decide +kernel),
    (refused_at_first_fault hts hne).2 _ (by decide +kernel)⟩,
    hts', (refused_at_first_fault hts' hne').1 _ (by decide +kernel)⟩

end EntityQuery.Query
