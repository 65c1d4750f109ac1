import EntityQuery.Proofs.Query.Reading

/-! # What the readers of filters and queries read

Every reader gives what the derivations of its part of the grammar stand for, and nothing else.
Filters nest, so their readers are treated together, by induction on the length of the list. What is
left of a list by one reading is what is left of it by another, and so a list has one derivation.

* `reads_filter`, `ofTokens_eq_ok`: filters and queries.
* `FilterTree.eq_of_begins`, `QueryTree.eq_of_begins`: there is one derivation at most. -/

namespace EntityQuery.Query

open Reading

variable {ts left : List Located} {stop : Nat}

/-! ## Predicates -/

theorem gives_area {property : String} {p : Predicate} :
    (readArea stop property ts).Gives p left ↔
      ∃ (distance : Measure) (w : Keyword "of") (latitude longitude : Measure),
        .within ⟨property, distance.value, latitude.value, longitude.value⟩ = p ∧
        Begins [distance.token, w.token, latitude.token, .sign .comma, longitude.token] ts
          left := by
  unfold readArea
  simp only [gives_andThen, gives_map, gives_word fun _ _ => measure?_eq_some,
    gives_word fun _ _ => keyword?_eq_some, gives_word fun _ _ => sign?_eq_some]
  constructor
  · rintro ⟨_, _, ⟨distance, rfl, hdistance⟩, _, _, ⟨w, -, hw⟩, _, _, ⟨latitude, rfl, hlatitude⟩,
      _, _, ⟨_, -, hcomma⟩, _, ⟨longitude, rfl, hlongitude⟩, rfl⟩
    exact ⟨distance, w, latitude, longitude, rfl,
      hdistance.append (hw.append (hlatitude.append (hcomma.append hlongitude)))⟩
  · rintro ⟨distance, w, latitude, longitude, rfl, h⟩
    obtain ⟨_, hdistance, h⟩ := h.first
    obtain ⟨_, hw, h⟩ := h.first
    obtain ⟨_, hlatitude, h⟩ := h.first
    obtain ⟨_, hcomma, hlongitude⟩ := h.first
    exact ⟨_, _, ⟨distance, rfl, hdistance⟩, (), _, ⟨w, trivial, hw⟩,
      _, _, ⟨latitude, rfl, hlatitude⟩, (), _, ⟨(), trivial, hcomma⟩,
      _, ⟨longitude, rfl, hlongitude⟩, rfl⟩

theorem gives_comparison {property : String} {p : Predicate} :
    (readComparison stop property ts).Gives p left ↔
      ∃ (o : Operator) (l : Literal), .compare property o.comparison l.value = p ∧
        Begins [o.token, l.token] ts left := by
  unfold readComparison
  simp only [gives_andThen, gives_map, gives_word fun _ _ => comparison?_eq_some,
    gives_word fun _ _ => literal?_eq_some]
  constructor
  · rintro ⟨_, _, ⟨o, rfl, ho⟩, _, ⟨l, rfl, hl⟩, rfl⟩
    exact ⟨o, l, rfl, ho.append hl⟩
  · rintro ⟨o, l, rfl, h⟩
    obtain ⟨_, ho, hl⟩ := h.first
    exact ⟨_, _, ⟨o, rfl, ho⟩, _, ⟨l, rfl, hl⟩, rfl⟩

theorem Operator.not_isKeyword (o : Operator) {keyword : String}
    (h : keyword ∉ ["eq", "lt", "lte", "gt", "gte"]) : o.token.isKeyword keyword = false := by
  refine o.spelling.not_isKeyword ?_
  rintro rfl
  cases hc : o.comparison <;> simp [hc, Comparison.keyword] at h

theorem gives_condition {property : String} {p : Predicate} :
    (readCondition stop property ts).Gives p left ↔
      ∃ c : ConditionTree, c.predicate property = p ∧ Begins c.words ts left := by
  cases ts with
  | nil =>
    refine gives_comparison.trans (iff_of_false ?_ ?_)
    · rintro ⟨o, l, -, h⟩
      obtain ⟨_, _, ⟨⟩, -⟩ := begins_cons.mp h
    · rintro ⟨_ | _ | _, -, h⟩ <;> obtain ⟨_, _, ⟨⟩, -⟩ := begins_cons.mp h
  | cons t rest =>
    unfold readCondition
    dsimp only
    split_ifs with hcontains hwithin
    · simp only [gives_afterWord, gives_map, gives_word fun _ _ => quoted?_eq_some]
      constructor
      · rintro ⟨_, ⟨text, rfl, htext⟩, rfl⟩
        exact ⟨.contains ⟨t.token, hcontains⟩ text, rfl, begins_cons_cons.mpr ⟨rfl, htext⟩⟩
      · rintro ⟨c, rfl, h⟩
        cases c with
        | compare o l =>
          rw [(begins_cons_cons.mp h).1, o.not_isKeyword (by decide)] at hcontains
          cases hcontains
        | contains w text => exact ⟨text, ⟨text, rfl, (begins_cons_cons.mp h).2⟩, rfl⟩
        | within w distance ofWord latitude longitude =>
          rw [(begins_cons_cons.mp h).1, w.not_isKeyword (by decide)] at hcontains
          cases hcontains
    · simp only [gives_afterWord, gives_area]
      constructor
      · rintro ⟨distance, w, latitude, longitude, rfl, h⟩
        exact ⟨.within ⟨t.token, hwithin⟩ distance w latitude longitude, rfl,
          begins_cons_cons.mpr ⟨rfl, h⟩⟩
      · rintro ⟨c, rfl, h⟩
        cases c with
        | compare o l =>
          rw [(begins_cons_cons.mp h).1, o.not_isKeyword (by decide)] at hwithin
          cases hwithin
        | contains w text => exact absurd ((begins_cons_cons.mp h).1 ▸ w.isKeyword) hcontains
        | within w distance ofWord latitude longitude =>
          exact ⟨distance, ofWord, latitude, longitude, rfl, (begins_cons_cons.mp h).2⟩
    · rw [gives_comparison]
      constructor
      · rintro ⟨o, l, rfl, h⟩
        exact ⟨.compare o l, rfl, h⟩
      · rintro ⟨c, rfl, h⟩
        cases c with
        | compare o l => exact ⟨o, l, rfl, h⟩
        | contains w text => exact absurd ((begins_cons_cons.mp h).1 ▸ w.isKeyword) hcontains
        | within w distance ofWord latitude longitude =>
          exact absurd ((begins_cons_cons.mp h).1 ▸ w.isKeyword) hwithin

theorem gives_predicate {p : Predicate} :
    (readPredicate stop ts).Gives p left ↔
      ∃ x : PredicateTree, x.predicate = p ∧ Begins x.words ts left := by
  unfold readPredicate
  simp only [gives_andThen, gives_condition, gives_word fun _ _ => propertyName?_eq_some]
  constructor
  · rintro ⟨_, _, ⟨n, rfl, hn⟩, c, rfl, hc⟩
    exact ⟨⟨n, c⟩, rfl, hn.append hc⟩
  · rintro ⟨⟨n, c⟩, rfl, h⟩
    obtain ⟨mid, hn, hc⟩ := h.first
    exact ⟨_, mid, ⟨n, rfl, hn⟩, c, rfl, hc⟩

/-! ## Filters -/

theorem readFilter_eq (stop : Nat) (ts : List Located) :
    readFilter stop ts =
      (readConjunction stop ts).chain joinsEither id .or (readFilter stop) := by
  rw [readFilter]
  unfold chain
  rcases readConjunction stop ts with e | ⟨left, _ | ⟨t, rest⟩, h⟩
  · rfl
  · rfl
  · dsimp only
    rcases readFilter stop rest <;> rfl

theorem readConjunction_eq (stop : Nat) (ts : List Located) :
    readConjunction stop ts =
      (readOperand stop ts).chain joinsBoth id .and (readConjunction stop) := by
  rw [readConjunction]
  unfold chain
  rcases readOperand stop ts with e | ⟨left, _ | ⟨t, rest⟩, h⟩
  · rfl
  · rfl
  · dsimp only
    rcases readConjunction stop rest <;> rfl

theorem readOperand_cons (stop : Nat) (t : Located) (rest : List Located) :
    readOperand stop (t :: rest) =
      if t.token.isKeyword "not" then ((readOperand stop rest).map .not).afterWord
      else if t.token = .sign .openParen then
        ((readFilter stop rest).andThen fun inner rest =>
          (readWord stop .closeParen (sign? .closeParen) rest).map fun _ => inner).afterWord
      else (readPredicate stop (t :: rest)).map .leaf := by
  rw [readOperand]
  split_ifs
  · rfl
  · unfold andThen Reading.map afterWord
    rcases readFilter stop rest with e | ⟨inner, rest', h⟩
    · rfl
    · dsimp only
      rcases readWord stop .closeParen (sign? .closeParen) rest' with e | ⟨_, rest'', h'⟩ <;> rfl
  · rfl

/-- Where nothing goes on with a filter. -/
def EndsFilter (left : List Located) : Prop := Stops joinsBoth left ∧ Stops joinsEither left

theorem Keyword.joinsBoth_eq {keyword : String} (word : Keyword keyword) (h : keyword ≠ "and") :
    joinsBoth word.token = false := by
  simp [joinsBoth, word.ne_sign, word.not_isKeyword h]

theorem Keyword.joinsEither_eq {keyword : String} (word : Keyword keyword) (h : keyword ≠ "or") :
    joinsEither word.token = false := by
  simp [joinsEither, word.ne_sign, word.not_isKeyword h]

theorem joinsBoth_of_joinsEither {t : Token} (h : joinsEither t = true) : joinsBoth t = false := by
  obtain ⟨_ | word, rfl⟩ := joinsEither_iff.mp h
  · rfl
  · exact word.joinsBoth_eq (by decide)

theorem endsFilter_nil : EndsFilter [] := ⟨stops_nil _, stops_nil _⟩

theorem endsFilter_keyword {keyword : String} {t : Located} {rest : List Located}
    (h : t.token.isKeyword keyword = true) (hand : keyword ≠ "and") (hor : keyword ≠ "or") :
    EndsFilter (t :: rest) :=
  let word : Keyword keyword := ⟨t.token, h⟩
  ⟨stops_cons.mpr (word.joinsBoth_eq hand), stops_cons.mpr (word.joinsEither_eq hor)⟩

theorem endsFilter_closeParen (h : Begins [.sign .closeParen] ts left) : EndsFilter ts := by
  obtain ⟨t, rest, rfl, htoken, -⟩ := begins_cons.mp h
  unfold EndsFilter
  rw [stops_cons, stops_cons, htoken]
  decide

theorem filter_step
    (hconjunction : (readConjunction stop ts).Reads ConjunctionTree.words ConjunctionTree.filter
      fun _ => Stops joinsBoth)
    (hfilter : ∀ rest : List Located, rest.length < ts.length →
      (readFilter stop rest).Reads FilterTree.words FilterTree.filter fun _ => EndsFilter) :
    (readFilter stop ts).Reads FilterTree.words FilterTree.filter fun _ => EndsFilter := by
  intro f left
  rw [readFilter_eq, reads_chain hconjunction (fun _ => joinsEither_iff)
    (fun _ _ _ h => stops_cons.mpr (joinsBoth_of_joinsEither h)) hfilter]
  constructor
  · rintro (⟨c, rfl, hc, hends⟩ | ⟨c, w, e, rfl, h, hends⟩)
    · exact ⟨.conjunction c, rfl, hc, hends⟩
    · exact ⟨.or c w e, rfl, h, hends⟩
  · rintro ⟨c | ⟨c, w, e⟩, rfl, h, hends⟩
    · exact .inl ⟨c, rfl, h, hends⟩
    · exact .inr ⟨c, w, e, rfl, h, hends⟩

theorem conjunction_step
    (hoperand : (readOperand stop ts).Reads OperandTree.words OperandTree.filter Anywhere)
    (hconjunction : ∀ rest : List Located, rest.length < ts.length →
      (readConjunction stop rest).Reads ConjunctionTree.words ConjunctionTree.filter
        fun _ => Stops joinsBoth) :
    (readConjunction stop ts).Reads ConjunctionTree.words ConjunctionTree.filter
      fun _ => Stops joinsBoth := by
  intro f left
  rw [readConjunction_eq, reads_chain hoperand (fun _ => joinsBoth_iff)
    (fun _ _ _ _ => trivial) hconjunction]
  constructor
  · rintro (⟨u, rfl, hu, -, hstops⟩ | ⟨u, w, c, rfl, h, hstops⟩)
    · exact ⟨.operand u, rfl, hu, hstops⟩
    · exact ⟨.and u w c, rfl, h, hstops⟩
  · rintro ⟨u | ⟨u, w, c⟩, rfl, h, hstops⟩
    · exact .inl ⟨u, rfl, h, trivial, hstops⟩
    · exact .inr ⟨u, w, c, rfl, h, hstops⟩

theorem operand_step
    (hoperand : ∀ rest : List Located, rest.length < ts.length →
      (readOperand stop rest).Reads OperandTree.words OperandTree.filter Anywhere)
    (hfilter : ∀ rest : List Located, rest.length < ts.length →
      (readFilter stop rest).Reads FilterTree.words FilterTree.filter fun _ => EndsFilter) :
    (readOperand stop ts).Reads OperandTree.words OperandTree.filter Anywhere := by
  rw [reads_anywhere_iff]
  intro f left
  cases ts with
  | nil =>
    rw [readOperand, gives_map]
    refine iff_of_false ?_ ?_
    · rintro ⟨p, hp, -⟩
      obtain ⟨x, -, h⟩ := gives_predicate.mp hp
      obtain ⟨_, _, ⟨⟩, -⟩ := begins_cons.mp h
    · rintro ⟨_ | _ | _, -, h⟩ <;> obtain ⟨_, _, ⟨⟩, -⟩ := begins_cons.mp h
  | cons t rest =>
    have hshorter : rest.length < (t :: rest).length := Nat.lt_succ_self _
    rw [readOperand_cons]
    split_ifs with hnot hopen
    · rw [gives_afterWord, gives_map]
      constructor
      · rintro ⟨g, hg, rfl⟩
        obtain ⟨u, rfl, hu⟩ := (reads_anywhere_iff.mp (hoperand rest hshorter) g left).mp hg
        exact ⟨.not ⟨t.token, hnot⟩ u, rfl, begins_cons_cons.mpr ⟨rfl, hu⟩⟩
      · rintro ⟨⟨w, u⟩ | e | p, rfl, h⟩
        · have hu := (begins_cons_cons.mp h).2
          exact ⟨u.filter, (reads_anywhere_iff.mp (hoperand rest hshorter) _ left).mpr ⟨u, rfl, hu⟩,
            rfl⟩
        · rw [(begins_cons_cons.mp h).1] at hnot
          cases hnot
        · rw [(begins_cons_cons.mp h).1, p.property.not_isKeyword (by decide)] at hnot
          cases hnot
    · simp only [gives_afterWord, gives_andThen, gives_map, gives_word fun _ _ => sign?_eq_some]
      constructor
      · rintro ⟨g, mid, hg, _, ⟨_, -, hclose⟩, rfl⟩
        obtain ⟨e, rfl, he, -⟩ := (hfilter rest hshorter g mid).mp hg
        exact ⟨.parens e, rfl, begins_cons_cons.mpr ⟨hopen, he.append hclose⟩⟩
      · rintro ⟨⟨w, u⟩ | e | p, rfl, h⟩
        · exact absurd ((begins_cons_cons.mp h).1 ▸ w.isKeyword) hnot
        · obtain ⟨mid, he, hclose⟩ := begins_append.mp (begins_cons_cons.mp h).2
          have hg := (hfilter rest hshorter _ mid).mpr ⟨e, rfl, he, endsFilter_closeParen hclose⟩
          exact ⟨e.filter, _, hg, (), ⟨(), trivial, hclose⟩, rfl⟩
        · have hname : Token.sign .openParen = .name p.property.text :=
            hopen.symm.trans (begins_cons_cons.mp h).1
          cases hname
    · rw [gives_map]
      constructor
      · rintro ⟨p, hp, rfl⟩
        obtain ⟨x, rfl, hx⟩ := gives_predicate.mp hp
        exact ⟨.predicate x, rfl, hx⟩
      · rintro ⟨⟨w, u⟩ | e | p, rfl, h⟩
        · exact absurd ((begins_cons_cons.mp h).1 ▸ w.isKeyword) hnot
        · exact absurd (begins_cons_cons.mp h).1 hopen
        · exact ⟨p.predicate, gives_predicate.mpr ⟨p, rfl, h⟩, rfl⟩

/-- The readers of filters, of conjunctions and of operands call each other on what is left, so that
they are treated at once. -/
theorem reads_nested (stop : Nat) (n : Nat) : ∀ ts : List Located, ts.length = n →
    (readOperand stop ts).Reads OperandTree.words OperandTree.filter Anywhere ∧
    (readConjunction stop ts).Reads ConjunctionTree.words ConjunctionTree.filter
      (fun _ => Stops joinsBoth) ∧
    (readFilter stop ts).Reads FilterTree.words FilterTree.filter fun _ => EndsFilter := by
  induction n using Nat.strongRecOn with
  | ind n ih =>
    rintro ts rfl
    have hoperand : (readOperand stop ts).Reads OperandTree.words OperandTree.filter Anywhere :=
      operand_step (fun rest h => (ih _ h rest rfl).1) fun rest h => (ih _ h rest rfl).2.2
    have hconjunction := conjunction_step hoperand fun rest h => (ih _ h rest rfl).2.1
    exact ⟨hoperand, hconjunction, filter_step hconjunction fun rest h => (ih _ h rest rfl).2.2⟩

theorem reads_operand (stop : Nat) (ts : List Located) :
    (readOperand stop ts).Reads OperandTree.words OperandTree.filter Anywhere :=
  (reads_nested stop _ ts rfl).1

theorem reads_conjunction (stop : Nat) (ts : List Located) :
    (readConjunction stop ts).Reads ConjunctionTree.words ConjunctionTree.filter
      fun _ => Stops joinsBoth :=
  (reads_nested stop _ ts rfl).2.1

/-- **Filters are read as the grammar says.** -/
theorem reads_filter (stop : Nat) (ts : List Located) :
    (readFilter stop ts).Reads FilterTree.words FilterTree.filter fun _ => EndsFilter :=
  (reads_nested stop _ ts rfl).2.2

/-! ## Lists and orders -/

/-- Whether a word goes on with a list. -/
def joinsList (t : Token) : Bool := t = .sign .comma

theorem readCommaList_eq {α : Type} (item : (ts : List Located) → Reading α ts)
    (ts : List Located) :
    readCommaList item ts =
      (item ts).chain joinsList (fun a => [a]) List.cons (readCommaList item) := by
  rw [readCommaList]
  unfold chain joinsList
  simp only [decide_eq_true_iff]
  rcases item ts with e | ⟨a, _ | ⟨t, rest⟩, h⟩
  · rfl
  · rfl
  · dsimp only
    rcases readCommaList item rest <;> rfl

theorem reads_commaList {α X : Type} {item : (ts : List Located) → Reading α ts}
    {words : X → List Token} {value : X → α} {Ends : X → List Located → Prop}
    (hitem : ∀ ts, (item ts).Reads words value Ends)
    (hends : ∀ x t rest, joinsList t.token = true → Ends x (t :: rest)) (ts : List Located) :
    (readCommaList item ts).Reads (CommaList.words words) (fun l => l.items.map value)
      fun l left => Ends l.final left ∧ Stops joinsList left := by
  have hjoins : ∀ t, joinsList t = true ↔ ∃ _ : Unit, .sign .comma = t := by
    simp [joinsList, eq_comm]
  suffices h : ∀ n, ∀ ts : List Located, ts.length = n →
      (readCommaList item ts).Reads (CommaList.words words) (fun l => l.items.map value)
        fun l left => Ends l.final left ∧ Stops joinsList left from h _ ts rfl
  intro n
  induction n using Nat.strongRecOn with
  | ind n ih =>
    rintro ts rfl items left
    rw [readCommaList_eq, reads_chain (hitem ts) hjoins hends fun rest h => ih _ h rest rfl]
    constructor
    · rintro (⟨x, rfl, hx, hends, hstops⟩ | ⟨x, _, l, rfl, h, hends⟩)
      · exact ⟨.last x, rfl, hx, hends, hstops⟩
      · exact ⟨.next x l, rfl, h, hends⟩
    · rintro ⟨x | ⟨x, l⟩, rfl, h, hends⟩
      · exact .inl ⟨x, rfl, h, hends⟩
      · exact .inr ⟨x, (), l, rfl, h, hends⟩

theorem reads_field (stop : Nat) (ts : List Located) :
    (readField stop ts).Reads (fun n : Name => [n.token]) Name.text Anywhere :=
  reads_anywhere_iff.mpr fun _ _ => gives_word fun _ _ => propertyName?_eq_some

/-- Whether a word is the direction of a field. -/
def isDirection (t : Token) : Bool := t.isKeyword "desc" || t.isKeyword "asc"

theorem reads_sortTerm (stop : Nat) (ts : List Located) :
    (readSortTerm stop ts).Reads SortTree.words SortTree.term
      fun s left => s.direction? = none → Stops isDirection left := by
  intro term left
  have hfield := reads_anywhere_iff.mp (reads_field stop ts)
  constructor
  · intro h
    unfold readSortTerm at h
    rcases hread : readField stop ts with e | ⟨property, mid, hlt⟩
    · rw [hread] at h
      exact absurd h not_gives_error
    · obtain ⟨n, rfl, hn⟩ := (hfield property mid).mp ⟨hlt, hread⟩
      rw [hread] at h
      cases mid with
      | nil =>
        obtain ⟨rfl, rfl⟩ := gives_ok.mp h
        exact ⟨⟨n, none⟩, rfl, hn, fun _ => stops_nil _⟩
      | cons t rest =>
        dsimp only at h
        split_ifs at h with hdesc hasc <;> obtain ⟨rfl, rfl⟩ := gives_ok.mp h
        · have hword : Begins [t.token] (t :: rest) rest := ⟨[t], rfl, rfl⟩
          exact ⟨⟨n, some (.descending ⟨t.token, hdesc⟩)⟩, rfl, hn.append hword, nofun⟩
        · have hword : Begins [t.token] (t :: rest) rest := ⟨[t], rfl, rfl⟩
          exact ⟨⟨n, some (.ascending ⟨t.token, hasc⟩)⟩, rfl, hn.append hword, nofun⟩
        · refine ⟨⟨n, none⟩, rfl, hn, fun _ => stops_cons.mpr ?_⟩
          simp [isDirection, hdesc, hasc]
  · rintro ⟨⟨n, direction?⟩, rfl, h, hends⟩
    obtain ⟨mid, hn, hdirection⟩ := h.first
    obtain ⟨hlt, hread⟩ := (hfield n.text mid).mpr ⟨n, rfl, hn⟩
    unfold readSortTerm
    rw [hread]
    cases direction? with
    | none =>
      obtain rfl := begins_nil.mp hdirection
      cases mid with
      | nil => exact gives_ok.mpr ⟨rfl, rfl⟩
      | cons t rest =>
        have hstops := stops_cons.mp (hends rfl)
        simp only [isDirection, Bool.or_eq_false_iff] at hstops
        simp only [hstops, Bool.false_eq_true, if_false]
        exact gives_ok.mpr ⟨rfl, rfl⟩
    | some d =>
      obtain ⟨t, rest, rfl, htoken, hrest⟩ := begins_cons.mp hdirection
      obtain rfl := begins_nil.mp hrest
      cases d with
      | ascending w =>
        have hasc : t.token.isKeyword "asc" = true := htoken ▸ w.isKeyword
        have hdesc : t.token.isKeyword "desc" = false := htoken ▸ w.not_isKeyword (by decide)
        simp only [hasc, hdesc, Bool.false_eq_true, if_false, if_true]
        exact gives_ok.mpr ⟨rfl, rfl⟩
      | descending w =>
        have hdesc : t.token.isKeyword "desc" = true := htoken ▸ w.isKeyword
        simp only [hdesc, if_true]
        exact gives_ok.mpr ⟨rfl, rfl⟩

end EntityQuery.Query
