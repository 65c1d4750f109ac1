import EntityQuery.Proofs.Query.Blame
import EntityQuery.Proofs.Query.Pieces

/-! # What is refused, and where

The grammar is such that whatever a reader has taken can be gone on with: a name with a comparison,
an open parenthesis with its filter and a closing one, half an area with the rest of it. So a text
is refused at the first word that no query has there, and not before, and at its end only if it
begins a longer query.

* `CanBegin`: words that a derivation begins with, whose other words can be written.
* `blames_filter`, `blames_ofTokens`: filters and queries are refused at the first word that cannot
  stand there. -/

namespace EntityQuery.Query

open Reading

variable {X Y : Type} {ts left : List Located} {stop : Nat}

/-! ## Words that can be written -/

/-- A word that stands in some text. -/
def IsWritten (t : Token) : Prop := ∃ lexeme, Writes lexeme t

/-- A name that is not reserved. -/
def someName : Name := ⟨"a", by decide⟩

def someMeasure : Measure := .int 1

def someOperator : Operator := ⟨.equal, .sign⟩

def someLiteral : Literal := .number someMeasure

def ofKeyword : Keyword "of" := ⟨.name "of", by decide⟩

def byKeyword : Keyword "by" := ⟨.name "by", by decide⟩

/-- Words that go on with what a derivation begins with, and the characters they are written
with. -/
def plainWords : List (Token × Char × List Char) :=
  [(someName.token, 'a', []), (someMeasure.token, '1', []), (ofKeyword.token, 'o', ['f']),
    (byKeyword.token, 'b', ['y']), (.quoted "", '"', ['"']), (someOperator.token, '=', []),
    (.sign .comma, ',', []), (.sign .closeParen, ')', [])]

theorem isWritten_of_subset {words : List Token} (h : words ⊆ plainWords.map Prod.fst) :
    ∀ t ∈ words, IsWritten t := by
  -- One evaluation for all words of the table.
  have hscan : ∀ w ∈ plainWords, Text.isBlank w.2.1 = false ∧
      scanToken 0 w.2.1 w.2.2 = .ok (w.1, []) := by
    decide +kernel
  intro t ht
  obtain ⟨w, hw, rfl⟩ := List.mem_map.mp (h ht)
  obtain ⟨hblank, htoken⟩ := hscan w hw
  obtain ⟨lexeme, -, hwrites⟩ := exists_writes hblank htoken
  exact ⟨lexeme, hwrites⟩

/-! ## Words that a derivation begins with -/

/-- Words that a derivation begins with, whose other words can be written. -/
def CanBegin (words : X → List Token) (read : List Token) : Prop :=
  ∃ x more, words x = read ++ more ∧ ∀ t ∈ more, IsWritten t

theorem canBegin_of_plain {words : X → List Token} {read more : List Token} (x : X)
    (hx : words x = read ++ more) (hmore : more ⊆ plainWords.map Prod.fst) : CanBegin words read :=
  ⟨x, more, hx, isWritten_of_subset hmore⟩

theorem CanBegin.behind {words : X → List Token} {words' : Y → List Token} {read : List Token}
    (h : CanBegin words' read) (front : List Token) (g : Y → X)
    (hg : ∀ y, words (g y) = front ++ words' y) : CanBegin words (front ++ read) := by
  obtain ⟨y, more, hy, hmore⟩ := h
  exact ⟨g y, more, by rw [hg, hy, List.append_assoc], hmore⟩

theorem CanBegin.before {words : X → List Token} {words' : Y → List Token}
    {back read : List Token} (h : CanBegin words' read) (g : Y → X)
    (hg : ∀ y, words (g y) = words' y ++ back) (hback : ∀ t ∈ back, IsWritten t) :
    CanBegin words read := by
  obtain ⟨y, more, hy, hmore⟩ := h
  refine ⟨g y, more ++ back, by rw [hg, hy, List.append_assoc], fun t ht => ?_⟩
  rcases List.mem_append.mp ht with ht | ht
  · exact hmore t ht
  · exact hback t ht

/-! ## Predicates -/

theorem blames_area (property : String) (word : Keyword "within") (ts : List Located) :
    Blames stop (fun ts => fault? (readArea stop property ts))
      (fun read => CanBegin ConditionTree.words (word.token :: read)) ts := by
  have heq : ∀ ts, fault? (readArea stop property ts) =
      (readWord stop .distance measure? ts).faultThen fun _ ts =>
      (readWord stop .ofKeyword (keyword? "of") ts).faultThen fun _ ts =>
      (readWord stop .latitude measure? ts).faultThen fun _ ts =>
      (readWord stop .comma (sign? .comma) ts).faultThen fun _ ts =>
      (readWord stop .longitude measure? ts).faultThen fun _ _ => none := fun ts => by
    simp only [fault?_eq, readArea, faultThen_andThen, faultThen_map]
  refine blames_word_andThen (fun _ _ => measure?_eq_some)
    (canBegin_of_plain (.within word someMeasure ofKeyword someMeasure someMeasure) rfl (by decide))
    heq fun distance _ => ?_
  refine blames_word_andThen (fun _ _ => keyword?_eq_some)
    (canBegin_of_plain (.within word distance ofKeyword someMeasure someMeasure) rfl (by decide))
    (fun _ => rfl) fun ofWord _ => ?_
  refine blames_word_andThen (fun _ _ => measure?_eq_some)
    (canBegin_of_plain (.within word distance ofWord someMeasure someMeasure) rfl (by decide))
    (fun _ => rfl) fun latitude _ => ?_
  refine blames_word_andThen (fun _ _ => sign?_eq_some)
    (canBegin_of_plain (.within word distance ofWord latitude someMeasure) rfl (by decide))
    (fun _ => rfl) fun _ _ => ?_
  exact blames_word_andThen (fun _ _ => measure?_eq_some)
    (canBegin_of_plain (.within word distance ofWord latitude someMeasure) rfl (by decide))
    (fun _ => rfl) fun _ _ => blames_of_none rfl

theorem blames_comparison (property : String) (ts : List Located) :
    Blames stop (fun ts => fault? (readComparison stop property ts))
      (CanBegin ConditionTree.words) ts := by
  have heq : ∀ ts, fault? (readComparison stop property ts) =
      (readWord stop .comparison comparison? ts).faultThen fun _ ts =>
      (readWord stop .literal literal? ts).faultThen fun _ _ => none := fun ts => by
    simp only [fault?_eq, readComparison, faultThen_andThen, faultThen_map]
  refine blames_word_andThen (fun _ _ => comparison?_eq_some)
    (canBegin_of_plain (.compare someOperator someLiteral) rfl (by decide)) heq fun o _ => ?_
  exact blames_word_andThen (fun _ _ => literal?_eq_some)
    (canBegin_of_plain (.compare o someLiteral) rfl (by decide)) (fun _ => rfl)
    fun _ _ => blames_of_none rfl

theorem blames_condition (property : String) (ts : List Located) :
    Blames stop (fun ts => fault? (readCondition stop property ts))
      (CanBegin ConditionTree.words) ts := by
  cases ts with
  | nil => exact (blames_comparison property []).congr_nil rfl
  | cons t rest =>
    by_cases hcontains : t.token.isKeyword "contains" = true
    · have hopen : CanBegin ConditionTree.words [t.token] :=
        canBegin_of_plain (.contains ⟨t.token, hcontains⟩ "") rfl (by decide)
      have hquoted : Blames stop (fun ts => fault? (readWord stop .quotedText quoted? ts))
          (fun read => CanBegin ConditionTree.words (t.token :: read)) rest :=
        blames_word hopen rest
      refine hquoted.cons fun t' rest' htoken => ?_
      simp only [readCondition, htoken, hcontains, if_true]
      rw [fault?_eq, faultThen_afterWord, faultThen_map, ← fault?_eq]
    · by_cases hwithin : t.token.isKeyword "within" = true
      · refine (blames_area property ⟨t.token, hwithin⟩ rest).cons fun t' rest' htoken => ?_
        simp only [readCondition, htoken, hcontains, hwithin, if_true]
        rw [fault?_eq, if_neg (by decide), faultThen_afterWord, ← fault?_eq]
      · refine (blames_comparison property (t :: rest)).congr_cons fun t' rest' htoken => ?_
        simp only [readCondition, htoken, hcontains, hwithin]
        rfl

theorem blames_predicate (ts : List Located) :
    Blames stop (fun ts => fault? (readPredicate stop ts)) (CanBegin PredicateTree.words) ts := by
  have heq : ∀ ts, fault? (readPredicate stop ts) =
      (readWord stop .propertyName propertyName? ts).faultThen fun property ts =>
        fault? (readCondition stop property ts) := fun ts => by
    simp only [fault?_eq, readPredicate, faultThen_andThen]
  refine blames_word_andThen (fun _ _ => propertyName?_eq_some)
    (canBegin_of_plain ⟨someName, .compare someOperator someLiteral⟩ rfl (by decide)) heq
    fun n left => (blames_condition n.text left).mono fun read hread => ?_
  exact hread.behind [n.token] (fun c => ⟨n, c⟩) fun c => rfl

/-! ## Filters -/

theorem looksAtFirst_endsFilter : LooksAtFirst fun (_ : X) => EndsFilter :=
  fun x left left' hfirst h => ⟨looksAtFirst_stops joinsBoth x left left' hfirst h.1,
    looksAtFirst_stops joinsEither x left left' hfirst h.2⟩

theorem blames_inner
    (hfilter : Blames stop (fun ts => fault? (readFilter stop ts)) (CanBegin FilterTree.words) ts) :
    Blames stop (fun ts => fault? ((readFilter stop ts).andThen fun inner rest =>
        (readWord stop .closeParen (sign? .closeParen) rest).map fun _ => inner))
      (fun read => CanBegin OperandTree.words (.sign .openParen :: read)) ts := by
  have heq : ∀ ts, fault? ((readFilter stop ts).andThen fun inner rest =>
      (readWord stop .closeParen (sign? .closeParen) rest).map fun _ => inner) =
      (readFilter stop ts).faultThen fun _ rest =>
        (readWord stop .closeParen (sign? .closeParen) rest).faultThen fun _ _ => none :=
    fun ts => by simp only [fault?_eq, faultThen_andThen, faultThen_map]
  have hclose : ∀ t ∈ [Token.sign .closeParen], IsWritten t := isWritten_of_subset (by decide)
  have hinner : Blames stop (fun ts => fault? (readFilter stop ts))
      (fun read => CanBegin OperandTree.words (.sign .openParen :: read)) ts := by
    refine hfilter.mono fun read hread => ?_
    have hclosed : CanBegin (fun e : FilterTree => e.words ++ [.sign .closeParen]) read :=
      hread.before id (fun _ => rfl) hclose
    exact hclosed.behind [.sign .openParen] .parens fun e => by
      rw [OperandTree.words]
      rfl
  refine hinner.andThen (reads_filter stop) looksAtFirst_endsFilter heq fun e left _ _ => ?_
  refine blames_word_andThen (fun _ _ => sign?_eq_some)
    ⟨.parens e, [.sign .closeParen], ?_, hclose⟩ (fun _ => rfl) fun _ _ => blames_of_none rfl
  rw [OperandTree.words, List.append_nil]
  rfl

theorem operand_blames
    (hoperand : ∀ rest : List Located, rest.length < ts.length →
      Blames stop (fun ts => fault? (readOperand stop ts)) (CanBegin OperandTree.words) rest)
    (hfilter : ∀ rest : List Located, rest.length < ts.length →
      Blames stop (fun ts => fault? (readFilter stop ts)) (CanBegin FilterTree.words) rest) :
    Blames stop (fun ts => fault? (readOperand stop ts)) (CanBegin OperandTree.words) ts := by
  have hpredicate : Blames stop (fun ts => fault? (readPredicate stop ts))
      (CanBegin OperandTree.words) ts := (blames_predicate ts).mono fun read hread =>
    hread.behind [] .predicate fun p => by rw [OperandTree.words]; rfl
  cases ts with
  | nil =>
    refine hpredicate.congr_nil ?_
    rw [readOperand, fault?_eq, faultThen_map, ← fault?_eq]
  | cons t rest =>
    have hshorter : rest.length < (t :: rest).length := Nat.lt_succ_self _
    by_cases hnot : t.token.isKeyword "not" = true
    · have hrest : Blames stop (fun ts => fault? (readOperand stop ts))
          (fun read => CanBegin OperandTree.words (t.token :: read)) rest :=
        (hoperand rest hshorter).mono fun read hread =>
          hread.behind [t.token] (.not ⟨t.token, hnot⟩) fun u => by
            rw [OperandTree.words]; rfl
      refine hrest.cons fun t' rest' htoken => ?_
      rw [readOperand_cons, if_pos (htoken ▸ hnot), fault?_eq, faultThen_afterWord, faultThen_map,
        ← fault?_eq]
    · by_cases hopen : t.token = .sign .openParen
      · refine Blames.cons (hopen ▸ blames_inner (hfilter rest hshorter)) fun t' rest' htoken => ?_
        rw [readOperand_cons, if_neg (htoken ▸ hnot), if_pos (htoken ▸ hopen), fault?_eq,
          faultThen_afterWord, ← fault?_eq]
      · refine hpredicate.congr_cons fun t' rest' htoken => ?_
        rw [readOperand_cons, if_neg (htoken ▸ hnot), if_neg (htoken ▸ hopen), fault?_eq,
          faultThen_map, ← fault?_eq]

theorem conjunction_blames
    (hoperand : Blames stop (fun ts => fault? (readOperand stop ts)) (CanBegin OperandTree.words)
      ts)
    (hconjunction : ∀ rest : List Located, rest.length < ts.length →
      Blames stop (fun ts => fault? (readConjunction stop ts)) (CanBegin ConjunctionTree.words)
        rest) :
    Blames stop (fun ts => fault? (readConjunction stop ts)) (CanBegin ConjunctionTree.words)
      ts := by
  have hfirst : Blames stop (fun ts => fault? (readOperand stop ts))
      (CanBegin ConjunctionTree.words) ts := hoperand.mono fun read hread =>
    hread.behind [] .operand fun u => by rw [ConjunctionTree.words]; rfl
  refine hfirst.chain (reads_operand stop) looksAtFirst_anywhere
    (fun ts => congrArg fault? (readConjunction_eq stop ts)) fun u t rest hlt hjoins => ?_
  obtain ⟨w, rfl⟩ := joinsBoth_iff.mp hjoins
  refine (hconjunction rest hlt).mono fun read hread => ?_
  rw [List.append_cons]
  exact hread.behind _ (.and u w) fun c => by rw [ConjunctionTree.words, List.append_cons]

theorem filter_blames
    (hconjunction : Blames stop (fun ts => fault? (readConjunction stop ts))
      (CanBegin ConjunctionTree.words) ts)
    (hfilter : ∀ rest : List Located, rest.length < ts.length →
      Blames stop (fun ts => fault? (readFilter stop ts)) (CanBegin FilterTree.words) rest) :
    Blames stop (fun ts => fault? (readFilter stop ts)) (CanBegin FilterTree.words) ts := by
  have hfirst : Blames stop (fun ts => fault? (readConjunction stop ts))
      (CanBegin FilterTree.words) ts := hconjunction.mono fun read hread =>
    hread.behind [] .conjunction fun c => by rw [FilterTree.words]; rfl
  refine hfirst.chain (reads_conjunction stop) (looksAtFirst_stops joinsBoth)
    (fun ts => congrArg fault? (readFilter_eq stop ts)) fun c t rest hlt hjoins => ?_
  obtain ⟨w, rfl⟩ := joinsEither_iff.mp hjoins
  refine (hfilter rest hlt).mono fun read hread => ?_
  rw [List.append_cons]
  exact hread.behind _ (.or c w) fun e => by rw [FilterTree.words, List.append_cons]

/-- Operands, conjunctions and filters are treated at once, since their readers call each other. -/
theorem blames_nested (stop n : Nat) : ∀ ts : List Located, ts.length = n →
    Blames stop (fun ts => fault? (readOperand stop ts)) (CanBegin OperandTree.words) ts ∧
    Blames stop (fun ts => fault? (readConjunction stop ts)) (CanBegin ConjunctionTree.words) ts ∧
    Blames stop (fun ts => fault? (readFilter stop ts)) (CanBegin FilterTree.words) ts := by
  induction n using Nat.strongRecOn with
  | ind n ih =>
    rintro ts rfl
    have hoperand : Blames stop (fun ts => fault? (readOperand stop ts))
        (CanBegin OperandTree.words) ts := operand_blames (fun rest h => (ih _ h rest rfl).1)
      fun rest h => (ih _ h rest rfl).2.2
    have hconjunction := conjunction_blames hoperand fun rest h => (ih _ h rest rfl).2.1
    exact ⟨hoperand, hconjunction, filter_blames hconjunction fun rest h => (ih _ h rest rfl).2.2⟩

/-- **Filters are refused at the first word that cannot stand there.** -/
theorem blames_filter (ts : List Located) :
    Blames stop (fun ts => fault? (readFilter stop ts)) (CanBegin FilterTree.words) ts :=
  (blames_nested stop _ ts rfl).2.2

/-! ## Lists and orders -/

theorem blames_commaList {α : Type} {item : (ts : List Located) → Reading α ts}
    {words : X → List Token} {value : X → α} {Ends : X → List Located → Prop}
    (hitem : ∀ ts, Blames stop (fun ts => fault? (item ts)) (CanBegin words) ts)
    (hreads : ∀ ts, (item ts).Reads words value Ends) (hends : LooksAtFirst Ends)
    (ts : List Located) :
    Blames stop (fun ts => fault? (readCommaList item ts)) (CanBegin (CommaList.words words))
      ts := by
  suffices h : ∀ n, ∀ ts : List Located, ts.length = n → Blames stop
      (fun ts => fault? (readCommaList item ts)) (CanBegin (CommaList.words words)) ts from
    h _ ts rfl
  intro n
  induction n using Nat.strongRecOn with
  | ind n ih =>
    rintro ts rfl
    have hfirst : Blames stop (fun ts => fault? (item ts)) (CanBegin (CommaList.words words)) ts :=
      (hitem ts).mono fun read hread => hread.behind [] .last fun _ => rfl
    refine hfirst.chain hreads hends (fun ts => congrArg fault? (readCommaList_eq item ts))
      fun x t rest hlt hjoins => ?_
    obtain rfl : t = .sign .comma := of_decide_eq_true hjoins
    refine (ih _ hlt rest rfl).mono fun read hread => ?_
    rw [List.append_cons]
    exact hread.behind _ (.next x) fun l => by rw [CommaList.words, List.append_cons]

theorem blames_field (ts : List Located) :
    Blames stop (fun ts => fault? (readField stop ts)) (CanBegin fun n : Name => [n.token]) ts :=
  blames_word (canBegin_of_plain someName rfl (by decide)) ts

theorem fault?_sortTerm (stop : Nat) (ts : List Located) :
    fault? (readSortTerm stop ts) = fault? (readField stop ts) := by
  unfold readSortTerm
  rcases readField stop ts with e | ⟨property, _ | ⟨t, rest⟩, h⟩
  · rfl
  · rfl
  · dsimp only
    split_ifs <;> rfl

theorem blames_terms (ts : List Located) :
    Blames stop (fun ts => fault? (readCommaList (readSortTerm stop) ts))
      (CanBegin (CommaList.words SortTree.words)) ts := by
  refine blames_commaList (fun ts => ?_) (reads_sortTerm stop) (fun s left left' hfirst h hnone =>
    looksAtFirst_stops isDirection s left left' hfirst (h hnone)) ts
  simp only [fault?_sortTerm]
  exact (blames_field ts).mono fun read hread =>
    hread.behind [] (fun n => ⟨n, none⟩) fun _ => rfl

theorem looksAtFirst_endsOrder : LooksAtFirst EndsOrder :=
  fun l left left' hfirst h =>
    ⟨fun hnone => looksAtFirst_stops isDirection l left left' hfirst (h.1 hnone),
      looksAtFirst_stops joinsList l left left' hfirst h.2⟩

theorem blames_end {α : Type} {Open : List Token → Prop} (hopen : Open []) (result : α)
    (ts : List Located) : Blames stop (fun ts => fault? (readEnd stop result ts)) Open ts := by
  cases ts with
  | nil => exact blames_of_none rfl
  | cons t rest =>
    rintro e ⟨⟩
    refine ⟨[], t :: rest, .endOfInput, begins_nil.mpr rfl, rfl, hopen, ?_⟩
    rintro t' rest' ⟨⟩ ts' left' hts'
    obtain ⟨t', rest', rfl, -⟩ := begins_cons.mp hts'
    exact nofun

theorem blames_ordering (word : Keyword "order") (ts : List Located) :
    Blames stop (fun ts => fault? (((readWord stop .byKeyword (keyword? "by") ts).andThen
        fun _ ts => readCommaList (readSortTerm stop) ts).finish (readEnd stop)))
      (fun read => CanBegin (optionalWords OrderTree.words) (word.token :: read)) ts := by
  have heq : ∀ ts, fault? (((readWord stop .byKeyword (keyword? "by") ts).andThen
      fun _ ts => readCommaList (readSortTerm stop) ts).finish (readEnd stop)) =
      (readWord stop .byKeyword (keyword? "by") ts).faultThen fun _ ts =>
      (readCommaList (readSortTerm stop) ts).faultThen fun terms ts =>
      fault? (readEnd stop terms ts) := fun ts => by
    rw [fault?_finish, faultThen_andThen]
  have hplain : [byKeyword.token, someName.token] ⊆ plainWords.map Prod.fst := by decide
  refine blames_word_andThen (fun _ _ => keyword?_eq_some)
    (canBegin_of_plain (some ⟨word, byKeyword, .last ⟨someName, none⟩⟩) rfl hplain) heq
    fun byWord left => ?_
  have hterms : Blames stop (fun ts => fault? (readCommaList (readSortTerm stop) ts))
      (fun read => CanBegin (optionalWords OrderTree.words) (word.token :: byWord.token :: read))
      left := (blames_terms left).mono fun read hread =>
    hread.behind [word.token, byWord.token] (fun l => some ⟨word, byWord, l⟩) fun _ => rfl
  refine hterms.andThen (reads_terms stop) looksAtFirst_endsOrder (fun _ => rfl)
    fun l rest _ _ => ?_
  exact blames_end ⟨some ⟨word, byWord, l⟩, [], by simp [optionalWords, OrderTree.words], by simp⟩
    _ rest

theorem blames_order (ts : List Located) :
    Blames stop (fun ts => fault? (readOrder stop ts)) (CanBegin (optionalWords OrderTree.words))
      ts := by
  cases ts with
  | nil => exact blames_of_none rfl
  | cons t rest =>
    by_cases horder : t.token.isKeyword "order" = true
    · refine (blames_ordering ⟨t.token, horder⟩ rest).cons fun t' rest' htoken => ?_
      rw [readOrder_cons, if_pos (htoken ▸ horder)]
    · have hend : Blames stop (fun ts => fault? (readEnd stop ([] : List SortTerm) ts))
          (CanBegin (optionalWords OrderTree.words)) (t :: rest) :=
        blames_end ⟨none, [], rfl, by simp⟩ [] _
      refine hend.congr_cons fun t' rest' htoken => ?_
      rw [readOrder_cons, if_neg (htoken ▸ horder)]

/-! ## Queries -/

/-- The words of a filter and of an order that may be left out. -/
def filteredWords (x : FilterTree × Option OrderTree) : List Token :=
  x.1.words ++ optionalWords OrderTree.words x.2

/-- The words that come after a selection. -/
def restWords (x : Option WhereTree × Option OrderTree) : List Token :=
  optionalWords WhereTree.words x.1 ++ optionalWords OrderTree.words x.2

/-- The words that come after the first word of a selection. -/
def selectedWords (x : SelectionTree × Option WhereTree × Option OrderTree) : List Token :=
  x.1.words ++ restWords x.2

theorem blames_filtered (selection : Selection) (ts : List Located) :
    Blames stop (fun ts => fault? (readFiltered stop selection ts)) (CanBegin filteredWords)
      ts := by
  have heq : ∀ ts, fault? (readFiltered stop selection ts) =
      (readFilter stop ts).faultThen fun _ rest => fault? (readOrder stop rest) := fun ts => by
    unfold readFiltered faultThen
    rcases readFilter stop ts with e | ⟨f, rest⟩
    · rfl
    · exact fault?_map _
  have hfilter : Blames stop (fun ts => fault? (readFilter stop ts)) (CanBegin filteredWords) ts :=
    (blames_filter ts).mono fun read hread =>
      hread.behind [] (fun e => (e, none)) fun e => List.append_nil e.words
  refine hfilter.andThen (reads_filter stop) looksAtFirst_endsFilter heq fun e left _ _ => ?_
  exact (blames_order left).mono fun read hread => hread.behind e.words (e, ·) fun _ => rfl

theorem blames_afterSelection (selection : Selection) (ts : List Located) :
    Blames stop (fun ts => fault? (readAfterSelection stop selection ts)) (CanBegin restWords)
      ts := by
  cases ts with
  | nil => exact blames_of_none rfl
  | cons t rest =>
    by_cases hwhere : t.token.isKeyword "where" = true
    · have hrest : Blames stop (fun ts => fault? (readFiltered stop selection ts))
          (fun read => CanBegin restWords (t.token :: read)) rest :=
        (blames_filtered selection rest).mono fun read hread =>
          hread.behind [t.token] (fun x => (some ⟨⟨t.token, hwhere⟩, x.1⟩, x.2)) fun _ => rfl
      refine hrest.cons fun t' rest' htoken => ?_
      simp only [readAfterSelection, htoken, hwhere, if_true]
    · have horder : Blames stop (fun ts => fault? (readOrder stop ts)) (CanBegin restWords)
          (t :: rest) := (blames_order _).mono fun read hread =>
        hread.behind [] (none, ·) fun _ => rfl
      refine horder.congr_cons fun t' rest' htoken => ?_
      simp only [readAfterSelection, htoken, hwhere]
      exact fault?_map _

theorem blames_listed (ts : List Located) :
    Blames stop (fun ts => (readCommaList (readField stop) ts).faultThen fun paths rest =>
        fault? (readAfterSelection stop (.fields paths) rest))
      (CanBegin selectedWords) ts := by
  have hnames : Blames stop (fun ts => fault? (readCommaList (readField stop) ts))
      (CanBegin selectedWords) ts :=
    (blames_commaList blames_field (reads_field stop) looksAtFirst_anywhere ts).mono
      fun read hread => hread.behind [] (fun l => (.fields l, none, none)) fun _ =>
        List.append_nil _
  refine hnames.andThen (reads_names stop) (looksAtFirst_stops joinsList) (fun _ => rfl)
    fun l left _ _ => ?_
  exact (blames_afterSelection _ left).mono fun read hread =>
    hread.behind _ (.fields l, ·) fun _ => rfl

theorem blames_selected (ts : List Located) :
    Blames stop (fun ts => fault? (readSelected stop ts)) (CanBegin selectedWords) ts := by
  cases ts with
  | nil =>
    refine (blames_listed []).congr_nil ?_
    unfold readSelected
    rcases readCommaList (readField stop) [] <;> rfl
  | cons t rest =>
    by_cases hstar : t.token = .sign .star
    · have hrest : Blames stop (fun ts => fault? (readAfterSelection stop .all ts))
          (fun read => CanBegin selectedWords (t.token :: read)) rest :=
        (blames_afterSelection .all rest).mono fun read hread =>
          hread.behind [t.token] (.star, ·) fun _ => hstar ▸ rfl
      refine hrest.cons fun t' rest' htoken => ?_
      simp only [readSelected, htoken, hstar, if_true]
    · refine (blames_listed (t :: rest)).congr_cons fun t' rest' htoken => ?_
      simp only [readSelected, htoken, hstar, if_false]
      rcases readCommaList (readField stop) (t' :: rest') <;> rfl

/-- **Queries are refused at the first word that cannot stand there.** -/
theorem blames_ofTokens (t : Located) (rest : List Located) :
    Blames stop (fun ts => fault? (ofTokens stop ts)) (CanBegin QueryTree.words) (t :: rest) := by
  -- The first word decides between the two forms of a query, and each form is a reader of its own.
  by_cases hselect : t.token.isKeyword "select" = true
  · have hrest : Blames stop (fun ts => fault? (readSelected stop ts))
        (fun read => CanBegin QueryTree.words (t.token :: read)) rest :=
      (blames_selected rest).mono fun read hread =>
        hread.behind [t.token] (fun x => .select ⟨t.token, hselect⟩ x.1 x.2.1 x.2.2) fun x => by
          simp only [QueryTree.words, selectedWords, restWords, List.append_assoc]
          rfl
    refine hrest.cons fun t' rest' htoken => ?_
    simp only [ofTokens, htoken, hselect, if_true]
  · have hbare : Blames stop (fun ts => fault? (readFiltered stop .all ts))
        (CanBegin QueryTree.words) (t :: rest) := (blames_filtered .all _).mono fun read hread =>
      hread.behind [] (fun x => .bare x.1 x.2) fun _ => rfl
    refine hbare.congr_cons fun t' rest' htoken => ?_
    simp only [ofTokens, htoken, hselect]
    rfl

theorem blames_filterOfTokens (t : Located) (rest : List Located) :
    Blames stop (fun ts => fault? (filterOfTokens stop ts)) (CanBegin FilterTree.words)
      (t :: rest) := by
  have hfilter : Blames stop (fun ts => (readFilter stop ts).faultThen fun f rest =>
      fault? (readEnd stop f rest)) (CanBegin FilterTree.words) (t :: rest) := by
    refine (blames_filter _).andThen (reads_filter stop) looksAtFirst_endsFilter (fun _ => rfl)
      fun e left _ _ => ?_
    exact blames_end ⟨e, [], by simp, by simp⟩ _ left
  refine hfilter.congr_cons fun t' rest' htoken => ?_
  unfold filterOfTokens
  dsimp only
  rcases readFilter stop (t' :: rest') <;> rfl

end EntityQuery.Query
