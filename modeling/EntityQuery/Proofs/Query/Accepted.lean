import EntityQuery.Proofs.Query.Derivations

/-! # The words of queries

A list of words is read to its end: a query is read off it if the whole list has a derivation, and
then it is what that derivation stands for. A part that may be left out is there if the word that it
begins with is, as that word never goes on with the part before.

* `readOrder_eq_ok`, `readFiltered_eq_ok`, `readSelected_eq_ok`: the parts of queries.
* `ofTokens_eq_ok`, `filterOfTokens_eq_ok`: queries, and filters that stand alone. -/

namespace EntityQuery.Query

open Reading

variable {ts left : List Located} {stop : Nat}

/-! ## To the end of a text -/

theorem readEnd_eq_ok {α : Type} {a b : α} :
    readEnd stop a ts = .ok b ↔ ts = [] ∧ a = b := by
  cases ts with
  | nil => simp [readEnd]
  | cons t rest => simp [readEnd]

/-- Goes on with what is left. -/
def Reading.finish {α β : Type} (r : Reading α ts)
    (next : α → List Located → Except ParseError β) : Except ParseError β :=
  match r with
  | .error e => .error e
  | .ok (a, rest) => next a rest.1

theorem Reading.finish_eq_ok {α β : Type} {r : Reading α ts}
    {next : α → List Located → Except ParseError β} {b : β} :
    r.finish next = .ok b ↔ ∃ a left, r.Gives a left ∧ next a left = .ok b := by
  rcases r with e | ⟨a, rest, h⟩
  · simp [finish, not_gives_error]
  · simp only [finish, gives_ok]
    constructor
    · exact fun hnext => ⟨a, rest, ⟨rfl, rfl⟩, hnext⟩
    · rintro ⟨_, _, ⟨rfl, rfl⟩, hnext⟩
      exact hnext

theorem readOrder_cons (stop : Nat) (t : Located) (rest : List Located) :
    readOrder stop (t :: rest) =
      if t.token.isKeyword "order" then
        ((readWord stop .byKeyword (keyword? "by") rest).andThen
          fun _ ts => readCommaList (readSortTerm stop) ts).finish (readEnd stop)
      else readEnd stop [] (t :: rest) := by
  unfold readOrder finish
  dsimp only
  split_ifs
  · rcases (readWord stop .byKeyword (keyword? "by") rest).andThen
      fun _ ts => readCommaList (readSortTerm stop) ts <;> rfl
  · rfl

theorem stops_direction_of_comma {t : Located} {rest : List Located}
    (h : joinsList t.token = true) : Stops isDirection (t :: rest) := by
  have hcomma : t.token = .sign .comma := of_decide_eq_true h
  rw [stops_cons, hcomma]
  rfl

/-- Where a list of fields to sort by may end. -/
def EndsOrder (l : CommaList SortTree) (left : List Located) : Prop :=
  (l.final.direction? = none → Stops isDirection left) ∧ Stops joinsList left

theorem reads_terms (stop : Nat) (ts : List Located) :
    (readCommaList (readSortTerm stop) ts).Reads (CommaList.words SortTree.words)
      (fun l => l.items.map SortTree.term) EndsOrder :=
  reads_commaList (reads_sortTerm stop) (fun _ _ _ h _ => stops_direction_of_comma h) ts

theorem readOrder_eq_ok {terms : List SortTerm} :
    readOrder stop ts = .ok terms ↔
      ∃ o? : Option OrderTree, optionalOrder o? = terms ∧
        Begins (optionalWords OrderTree.words o?) ts [] := by
  cases ts with
  | nil =>
    constructor
    · intro h
      exact ⟨none, Except.ok.inj h, begins_nil.mpr rfl⟩
    · rintro ⟨_ | o, rfl, h⟩
      · rfl
      · obtain ⟨_, _, ⟨⟩, -⟩ := begins_cons.mp h
  | cons t rest =>
    rw [readOrder_cons]
    split_ifs with horder
    · simp only [finish_eq_ok, gives_andThen, readEnd_eq_ok, gives_word fun _ _ => keyword?_eq_some]
      constructor
      · rintro ⟨_, _, ⟨_, mid, ⟨w, -, hw⟩, hterms⟩, rfl, rfl⟩
        obtain ⟨l, rfl, hl, -⟩ := (reads_terms stop mid _ _).mp hterms
        exact ⟨some ⟨⟨t.token, horder⟩, w, l⟩, rfl, begins_cons_cons.mpr ⟨rfl, hw.append hl⟩⟩
      · rintro ⟨_ | o, rfl, h⟩
        · cases begins_nil.mp h
        · obtain ⟨mid, hw, hl⟩ := (begins_cons_cons.mp h).2.first
          have hterms := (reads_terms stop mid _ _).mpr
            ⟨o.terms, rfl, hl, fun _ => stops_nil _, stops_nil _⟩
          exact ⟨_, [], ⟨(), mid, ⟨o.byWord, trivial, hw⟩, hterms⟩, rfl, rfl⟩
    · rw [readEnd_eq_ok]
      refine iff_of_false (by simp) ?_
      rintro ⟨_ | o, -, h⟩
      · cases begins_nil.mp h
      · exact horder ((begins_cons_cons.mp h).1 ▸ o.orderWord.isKeyword)

theorem not_begins_order {keyword : String} {t : Located} {rest : List Located}
    (hkeyword : t.token.isKeyword keyword = true) (hother : keyword ≠ "order")
    {o? : Option OrderTree} : ¬ Begins (optionalWords OrderTree.words o?) (t :: rest) [] := by
  intro h
  cases o? with
  | none => cases begins_nil.mp h
  | some o =>
    rw [(begins_cons_cons.mp h).1] at hkeyword
    exact hother (eq_of_isKeyword hkeyword o.orderWord.isKeyword)

theorem endsFilter_of_order {o? : Option OrderTree}
    (h : Begins (optionalWords OrderTree.words o?) ts []) : EndsFilter ts := by
  cases o? with
  | none => exact begins_nil.mp h ▸ endsFilter_nil
  | some o =>
    obtain ⟨t, rest, rfl, htoken, -⟩ := begins_cons.mp h
    exact endsFilter_keyword (htoken ▸ o.orderWord.isKeyword) (by decide) (by decide)

theorem readFiltered_eq_ok {selection : Selection} {q : Query} :
    readFiltered stop selection ts = .ok q ↔
      ∃ (e : FilterTree) (o? : Option OrderTree),
        ⟨selection, some e.filter, optionalOrder o?⟩ = q ∧
        Begins (e.words ++ optionalWords OrderTree.words o?) ts [] := by
  have heq : readFiltered stop selection ts = (readFilter stop ts).finish fun f rest =>
      (readOrder stop rest).map fun terms => ⟨selection, some f, terms⟩ := by
    unfold readFiltered finish
    rcases readFilter stop ts <;> rfl
  simp only [heq, finish_eq_ok, map_eq_ok_iff, readOrder_eq_ok]
  constructor
  · rintro ⟨_, mid, hf, _, ⟨o?, rfl, ho⟩, rfl⟩
    obtain ⟨e, rfl, he, -⟩ := (reads_filter stop ts _ mid).mp hf
    exact ⟨e, o?, rfl, he.append ho⟩
  · rintro ⟨e, o?, rfl, h⟩
    obtain ⟨mid, he, ho⟩ := begins_append.mp h
    have hf := (reads_filter stop ts _ mid).mpr ⟨e, rfl, he, endsFilter_of_order ho⟩
    exact ⟨_, mid, hf, _, ⟨o?, rfl, ho⟩, rfl⟩

theorem readAfterSelection_eq_ok {selection : Selection} {q : Query} :
    readAfterSelection stop selection ts = .ok q ↔
      ∃ (w? : Option WhereTree) (o? : Option OrderTree),
        ⟨selection, w?.map (·.filter.filter), optionalOrder o?⟩ = q ∧
        Begins (optionalWords WhereTree.words w? ++ optionalWords OrderTree.words o?) ts [] := by
  have hunfiltered : (readOrder stop ts).map (fun terms => (⟨selection, none, terms⟩ : Query)) =
      .ok q ↔ ∃ o? : Option OrderTree, ⟨selection, none, optionalOrder o?⟩ = q ∧
        Begins (optionalWords OrderTree.words o?) ts [] := by
    simp only [map_eq_ok_iff, readOrder_eq_ok]
    constructor
    · rintro ⟨_, ⟨o?, rfl, ho⟩, rfl⟩
      exact ⟨o?, rfl, ho⟩
    · rintro ⟨o?, rfl, ho⟩
      exact ⟨_, ⟨o?, rfl, ho⟩, rfl⟩
  by_cases hwhere : ∃ t rest, ts = t :: rest ∧ t.token.isKeyword "where" = true
  · obtain ⟨t, rest, rfl, hkeyword⟩ := hwhere
    have heq : readAfterSelection stop selection (t :: rest) = readFiltered stop selection rest :=
      if_pos hkeyword
    rw [heq, readFiltered_eq_ok]
    constructor
    · rintro ⟨e, o?, rfl, h⟩
      exact ⟨some ⟨⟨t.token, hkeyword⟩, e⟩, o?, rfl, begins_cons_cons.mpr ⟨rfl, h⟩⟩
    · rintro ⟨_ | w, o?, rfl, h⟩
      · exact absurd h (not_begins_order hkeyword (by decide))
      · exact ⟨w.filter, o?, rfl, (begins_cons_cons.mp h).2⟩
  · have heq : readAfterSelection stop selection ts =
        (readOrder stop ts).map fun terms => ⟨selection, none, terms⟩ := by
      unfold readAfterSelection
      cases ts with
      | nil => rfl
      | cons t rest => exact if_neg fun h => hwhere ⟨t, rest, rfl, h⟩
    rw [heq, hunfiltered]
    constructor
    · rintro ⟨o?, rfl, h⟩
      exact ⟨none, o?, rfl, h⟩
    · rintro ⟨_ | w, o?, rfl, h⟩
      · exact ⟨o?, rfl, h⟩
      · obtain ⟨t, rest, rfl, htoken, -⟩ := begins_cons.mp h
        exact absurd ⟨t, rest, rfl, htoken ▸ w.word.isKeyword⟩ hwhere

theorem stops_list_of_rest {w? : Option WhereTree} {o? : Option OrderTree}
    (h : Begins (optionalWords WhereTree.words w? ++ optionalWords OrderTree.words o?) ts []) :
    Stops joinsList ts := by
  have hkeyword : ∀ {keyword : String} (w : Keyword keyword), joinsList w.token = false :=
    fun w => decide_eq_false (w.ne_sign .comma)
  cases w? with
  | some w =>
    obtain ⟨t, rest, rfl, htoken, -⟩ := begins_cons.mp h
    exact stops_cons.mpr (htoken ▸ hkeyword w.word)
  | none =>
    cases o? with
    | none => exact begins_nil.mp h ▸ stops_nil _
    | some o =>
      obtain ⟨t, rest, rfl, htoken, -⟩ := begins_cons.mp h
      exact stops_cons.mpr (htoken ▸ hkeyword o.orderWord)

theorem reads_names (stop : Nat) (ts : List Located) :
    (readCommaList (readField stop) ts).Reads (CommaList.words fun n : Name => [n.token])
      (fun l => l.items.map Name.text) fun _ => Stops joinsList := by
  intro names left
  rw [reads_commaList (reads_field stop) fun _ _ _ _ => trivial]
  simp only [Anywhere, true_and]

theorem name_of_begins {l : CommaList Name} {t : Located} {rest : List Located}
    (h : Begins (l.words fun n => [n.token]) (t :: rest) left) :
    ∃ n : Name, t.token = n.token := by
  cases l with
  | last n => exact ⟨n, (begins_cons_cons.mp h).1⟩
  | next n _ => exact ⟨n, (begins_cons_cons.mp h).1⟩

theorem readSelected_eq_ok {q : Query} :
    readSelected stop ts = .ok q ↔
      ∃ (s : SelectionTree) (w? : Option WhereTree) (o? : Option OrderTree),
        ⟨s.selection, w?.map (·.filter.filter), optionalOrder o?⟩ = q ∧
        Begins (s.words ++ (optionalWords WhereTree.words w? ++
          optionalWords OrderTree.words o?)) ts [] := by
  by_cases hstar : ∃ t rest, ts = t :: rest ∧ t.token = .sign .star
  · obtain ⟨t, rest, rfl, htoken⟩ := hstar
    have heq : readSelected stop (t :: rest) = readAfterSelection stop .all rest := if_pos htoken
    rw [heq, readAfterSelection_eq_ok]
    constructor
    · rintro ⟨w?, o?, rfl, h⟩
      exact ⟨.star, w?, o?, rfl, begins_cons_cons.mpr ⟨htoken, h⟩⟩
    · rintro ⟨_ | names, w?, o?, rfl, h⟩
      · exact ⟨w?, o?, rfl, (begins_cons_cons.mp h).2⟩
      · obtain ⟨_, hl, -⟩ := begins_append.mp h
        obtain ⟨n, hn⟩ := name_of_begins hl
        cases htoken.symm.trans hn
  · have heq : readSelected stop ts = (readCommaList (readField stop) ts).finish fun paths rest =>
        readAfterSelection stop (.fields paths) rest := by
      unfold readSelected finish
      cases ts with
      | nil => rcases readCommaList (readField stop) [] <;> rfl
      | cons t rest =>
        dsimp only
        rw [if_neg fun h => hstar ⟨t, rest, rfl, h⟩]
        rcases readCommaList (readField stop) (t :: rest) <;> rfl
    simp only [heq, finish_eq_ok, readAfterSelection_eq_ok]
    constructor
    · rintro ⟨_, mid, hnames, w?, o?, rfl, h⟩
      obtain ⟨names, rfl, hl, -⟩ := (reads_names stop ts _ mid).mp hnames
      exact ⟨.fields names, w?, o?, rfl, hl.append h⟩
    · rintro ⟨_ | names, w?, o?, rfl, h⟩
      · obtain ⟨t, rest, rfl, htoken, -⟩ := begins_cons.mp h
        exact absurd ⟨t, rest, rfl, htoken⟩ hstar
      · obtain ⟨mid, hl, h⟩ := begins_append.mp h
        have hnames := (reads_names stop ts _ mid).mpr ⟨names, rfl, hl, stops_list_of_rest h⟩
        exact ⟨_, mid, hnames, w?, o?, rfl, h⟩

/-- The words that an operand can begin with. -/
def StartsOperand (t : Token) : Prop :=
  t.isKeyword "not" = true ∨ t = .sign .openParen ∨ ∃ n : Name, t = n.token

theorem OperandTree.exists_first {u : OperandTree} (h : Begins u.words ts left) :
    ∃ t rest, ts = t :: rest ∧ StartsOperand t.token := by
  cases u with
  | not w u =>
    obtain ⟨t, rest, hts, htoken, -⟩ := begins_cons.mp h
    exact ⟨t, rest, hts, .inl (htoken ▸ w.isKeyword)⟩
  | parens e =>
    obtain ⟨t, rest, hts, htoken, -⟩ := begins_cons.mp h
    exact ⟨t, rest, hts, .inr (.inl htoken)⟩
  | predicate p =>
    obtain ⟨t, rest, hts, htoken, -⟩ := begins_cons.mp h
    exact ⟨t, rest, hts, .inr (.inr ⟨p.property, htoken⟩)⟩

theorem FilterTree.exists_first {e : FilterTree} (h : Begins e.words ts left) :
    ∃ t rest, ts = t :: rest ∧ StartsOperand t.token := by
  have hconjunction : ∀ {c : ConjunctionTree} {left : List Located}, Begins c.words ts left →
      ∃ t rest, ts = t :: rest ∧ StartsOperand t.token := by
    rintro (u | ⟨u, w, c⟩) left h
    · exact OperandTree.exists_first h
    · obtain ⟨_, hu, -⟩ := begins_append.mp h
      exact OperandTree.exists_first hu
  cases e with
  | conjunction c => exact hconjunction h
  | or c w e =>
    obtain ⟨_, hc, -⟩ := begins_append.mp h
    exact hconjunction hc

theorem StartsOperand.not_select {t : Token} (h : StartsOperand t) :
    t.isKeyword "select" = false := by
  rcases h with hnot | rfl | ⟨n, rfl⟩
  · exact Keyword.not_isKeyword ⟨t, hnot⟩ (by decide)
  · rfl
  · exact n.not_isKeyword (by decide)

/-- **Queries are read as the grammar says.** -/
theorem ofTokens_eq_ok {q : Query} :
    ofTokens stop ts = .ok q ↔ ∃ d : QueryTree, d.query = q ∧ Begins d.words ts [] := by
  by_cases hselect : ∃ t rest, ts = t :: rest ∧ t.token.isKeyword "select" = true
  · obtain ⟨t, rest, rfl, hkeyword⟩ := hselect
    have heq : ofTokens stop (t :: rest) = readSelected stop rest := if_pos hkeyword
    rw [heq, readSelected_eq_ok]
    constructor
    · rintro ⟨s, w?, o?, rfl, h⟩
      refine ⟨.select ⟨t.token, hkeyword⟩ s w? o?, rfl, ?_⟩
      rw [QueryTree.words, List.append_assoc]
      exact begins_cons_cons.mpr ⟨rfl, h⟩
    · rintro ⟨⟨w, s, w?, o?⟩ | ⟨e, o?⟩, rfl, h⟩
      · rw [QueryTree.words, List.append_assoc] at h
        exact ⟨s, w?, o?, rfl, (begins_cons_cons.mp h).2⟩
      · obtain ⟨_, he, -⟩ := begins_append.mp h
        obtain ⟨_, _, ⟨⟩, hfirst⟩ := e.exists_first he
        rw [hfirst.not_select] at hkeyword
        cases hkeyword
  · have hbare : (∃ d : QueryTree, d.query = q ∧ Begins d.words ts []) ↔
        ∃ (e : FilterTree) (o? : Option OrderTree), ⟨.all, some e.filter, optionalOrder o?⟩ = q ∧
          Begins (e.words ++ optionalWords OrderTree.words o?) ts [] := by
      constructor
      · rintro ⟨⟨w, s, w?, o?⟩ | ⟨e, o?⟩, rfl, h⟩
        · obtain ⟨t, rest, rfl, htoken, -⟩ := begins_cons.mp h
          exact absurd ⟨t, rest, rfl, htoken ▸ w.isKeyword⟩ hselect
        · exact ⟨e, o?, rfl, h⟩
      · rintro ⟨e, o?, rfl, h⟩
        exact ⟨.bare e o?, rfl, h⟩
    rw [hbare]
    cases ts with
    | nil =>
      refine iff_of_false nofun ?_
      rintro ⟨e, o?, -, h⟩
      obtain ⟨_, he, -⟩ := begins_append.mp h
      obtain ⟨_, _, ⟨⟩, -⟩ := e.exists_first he
    | cons t rest =>
      have heq : ofTokens stop (t :: rest) = readFiltered stop .all (t :: rest) :=
        if_neg fun h => hselect ⟨t, rest, rfl, h⟩
      rw [heq, readFiltered_eq_ok]

/-- **Filters that stand alone are read as the grammar says.** -/
theorem filterOfTokens_eq_ok {f : Filter} :
    filterOfTokens stop ts = .ok f ↔ ∃ e : FilterTree, e.filter = f ∧ Begins e.words ts [] := by
  cases ts with
  | nil =>
    refine iff_of_false nofun ?_
    rintro ⟨e, -, h⟩
    obtain ⟨_, _, ⟨⟩, -⟩ := e.exists_first h
  | cons t rest =>
    have heq : filterOfTokens stop (t :: rest) =
        (readFilter stop (t :: rest)).finish (readEnd stop) := by
      unfold filterOfTokens finish
      dsimp only
      rcases readFilter stop (t :: rest) <;> rfl
    simp only [heq, finish_eq_ok, readEnd_eq_ok]
    constructor
    · rintro ⟨_, _, hf, rfl, rfl⟩
      obtain ⟨e, he, h, -⟩ := (reads_filter stop _ _ []).mp hf
      exact ⟨e, he, h⟩
    · rintro ⟨e, rfl, h⟩
      exact ⟨_, [], (reads_filter stop _ _ []).mpr ⟨e, rfl, h, endsFilter_nil⟩, rfl, rfl⟩

end EntityQuery.Query
