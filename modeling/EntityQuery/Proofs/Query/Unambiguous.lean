import EntityQuery.Proofs.Query.Accepted

/-! # Queries have one derivation

Two derivations that have the same words are the same. Where both go on after a part, a reader of
that part stops at one place only, so that the parts have the same words, too.

* `FilterTree.eq_of_begins`, `QueryTree.eq_of_begins`: derivations are told apart by their words.
* `parse_grammar`: the texts that are queries. -/

namespace EntityQuery.Query

open Reading

variable {ts left : List Located}

/-- What is read is told by what there is and what is left. -/
theorem Begins.inj {words words' : List Token} (h : Begins words ts left)
    (h' : Begins words' ts left) : words = words' := by
  obtain ⟨read, rfl, rfl⟩ := h
  obtain ⟨read', hread, rfl⟩ := h'
  rw [List.append_cancel_right hread]

/-! ## Words and predicates -/

theorem Name.token_injective {a b : Name} (h : a.token = b.token) : a = b := by
  obtain ⟨a, ha⟩ := a
  obtain ⟨b, hb⟩ := b
  obtain rfl : a = b := Token.name.inj h
  rfl

theorem Measure.token_injective {a b : Measure} (h : a.token = b.token) : a = b := by
  cases a <;> cases b <;> cases h <;> rfl

theorem Operator.token_injective {a b : Operator} (h : a.token = b.token) : a = b := by
  obtain ⟨a, v⟩ := a
  obtain ⟨b, w⟩ := b
  have hv := Spelling.exists_token_eq.mp ⟨v, rfl⟩
  have hw := Spelling.exists_token_eq.mp ⟨w, rfl⟩
  have h : v.token = w.token := h
  rw [h] at hv
  obtain rfl := eq_of_spelled hv hw
  rw [Spelling.token_injective h]

theorem Literal.token_injective {a b : Literal} (h : a.token = b.token) : a = b := by
  have ha : literal? b.token = some a.value := literal?_eq_some.mpr ⟨a, rfl, h⟩
  have hb : literal? b.token = some b.value := literal?_eq_some.mpr ⟨b, rfl, rfl⟩
  have hvalue : a.value = b.value := Option.some.inj (ha.symm.trans hb)
  rcases a with (_ | _) | _ | v | v <;> rcases b with (_ | _) | _ | w | w <;> cases hvalue
  · rfl
  · rfl
  · rfl
  · exact congrArg Literal.truth (Keyword.token_injective h)
  · exact congrArg Literal.falsehood (Keyword.token_injective h)

theorem ConditionTree.words_injective {a b : ConditionTree} (h : a.words = b.words) : a = b := by
  have hfirst := congrArg List.head? h
  cases a with
  | compare o l =>
    cases b with
    | compare o' l' =>
      injection h with ho hl
      rw [Operator.token_injective ho, Literal.token_injective (List.cons.inj hl).1]
    | contains w text =>
      exact absurd (Option.some.inj hfirst) (w.ne_token (o.not_isKeyword (by decide)))
    | within w d v latitude longitude =>
      exact absurd (Option.some.inj hfirst) (w.ne_token (o.not_isKeyword (by decide)))
  | contains w text =>
    cases b with
    | compare o l =>
      exact absurd (Option.some.inj hfirst).symm (w.ne_token (o.not_isKeyword (by decide)))
    | contains w' text' =>
      injection h with hw htext
      rw [Keyword.token_injective hw, Token.quoted.inj (List.cons.inj htext).1]
    | within w' d v latitude longitude =>
      exact absurd (Option.some.inj hfirst) (w'.ne_token (w.not_isKeyword (by decide)))
  | within w d v latitude longitude =>
    cases b with
    | compare o l =>
      exact absurd (Option.some.inj hfirst).symm (w.ne_token (o.not_isKeyword (by decide)))
    | contains w' text =>
      exact absurd (Option.some.inj hfirst) (w'.ne_token (w.not_isKeyword (by decide)))
    | within w' d' v' latitude' longitude' =>
      injection h with hw h
      injection h with hd h
      injection h with hv h
      injection h with hlatitude h
      injection h with _ h
      rw [Keyword.token_injective hw, Measure.token_injective hd, Keyword.token_injective hv,
        Measure.token_injective hlatitude, Measure.token_injective (List.cons.inj h).1]

theorem PredicateTree.words_injective {a b : PredicateTree} (h : a.words = b.words) : a = b := by
  obtain ⟨m, c⟩ := a
  obtain ⟨n, d⟩ := b
  obtain ⟨hname, hcondition⟩ := List.cons.inj h
  rw [PredicateTree.mk.injEq]
  exact ⟨Name.token_injective hname, ConditionTree.words_injective hcondition⟩

/-! ## Filters -/

theorem joined_either {w : Spelling .either "or"} {words : List Token}
    (h : Begins (w.token :: words) ts left) :
    ∃ t rest, ts = t :: rest ∧ t.token = w.token ∧ Begins words rest left ∧
      joinsEither t.token = true ∧ Stops joinsBoth ts := by
  obtain ⟨t, rest, rfl, htoken, hwords⟩ := begins_cons.mp h
  have hjoins := joinsEither_iff.mpr ⟨w, htoken.symm⟩
  exact ⟨t, rest, rfl, htoken, hwords, hjoins, stops_cons.mpr (joinsBoth_of_joinsEither hjoins)⟩

theorem joined_both {w : Spelling .both "and"} {words : List Token}
    (h : Begins (w.token :: words) ts left) :
    ∃ t rest, ts = t :: rest ∧ t.token = w.token ∧ Begins words rest left ∧
      joinsBoth t.token = true := by
  obtain ⟨t, rest, rfl, htoken, hwords⟩ := begins_cons.mp h
  exact ⟨t, rest, rfl, htoken, hwords, joinsBoth_iff.mpr ⟨w, htoken.symm⟩⟩

/-- Where a conjunction is a whole filter, it is not the left one of a disjunction. -/
theorem not_begins_or {c c' : ConjunctionTree} {w : Spelling .either "or"} {e : FilterTree}
    (h : Begins c.words ts left) (hends : EndsFilter left) :
    ¬ Begins (FilterTree.or c' w e).words ts left := by
  intro h'
  obtain ⟨mid, hc', hmid⟩ := begins_append.mp h'
  obtain ⟨t, rest, rfl, -, -, hjoins, hstops⟩ := joined_either hmid
  obtain rfl := (reads_conjunction 0 ts).left_inj h hends.1 hc' hstops
  rw [stops_cons.mp hends.2] at hjoins
  cases hjoins

theorem not_begins_and {u u' : OperandTree} {w : Spelling .both "and"} {c : ConjunctionTree}
    (h : Begins u.words ts left) (hends : Stops joinsBoth left) :
    ¬ Begins (ConjunctionTree.and u' w c).words ts left := by
  intro h'
  obtain ⟨mid, hu', hmid⟩ := begins_append.mp h'
  obtain ⟨t, rest, rfl, -, -, hjoins⟩ := joined_both hmid
  obtain rfl := (reads_operand 0 ts).left_inj h trivial hu' trivial
  rw [stops_cons.mp hends] at hjoins
  cases hjoins

-- The recursion is on the first derivation. The parts are read by the same reader, which leaves the
-- same tokens for both (`Reads.left_inj`), so that they have the same words again.
mutual

theorem FilterTree.eq_of_begins {e e' : FilterTree} {ts left : List Located}
    (h : Begins e.words ts left) (h' : Begins e'.words ts left) (hends : EndsFilter left) :
    e = e' := by
  cases e with
  | conjunction c =>
    cases e' with
    | conjunction c' => rw [ConjunctionTree.eq_of_begins h h' hends.1]
    | or c' w' e' => exact absurd h' (not_begins_or h hends)
  | or c w e =>
    cases e' with
    | conjunction c' => exact absurd h (not_begins_or h' hends)
    | or c' w' e' =>
      obtain ⟨mid, hc, hmid⟩ := begins_append.mp h
      obtain ⟨mid', hc', hmid'⟩ := begins_append.mp h'
      obtain ⟨t, rest, rfl, htoken, he, -, hstops⟩ := joined_either hmid
      obtain ⟨t', rest', rfl, htoken', he', -, hstops'⟩ := joined_either hmid'
      cases (reads_conjunction 0 ts).left_inj hc hstops hc' hstops'
      rw [ConjunctionTree.eq_of_begins hc hc' hstops,
        Spelling.token_injective (htoken.symm.trans htoken'), FilterTree.eq_of_begins he he' hends]

theorem ConjunctionTree.eq_of_begins {c c' : ConjunctionTree} {ts left : List Located}
    (h : Begins c.words ts left) (h' : Begins c'.words ts left) (hends : Stops joinsBoth left) :
    c = c' := by
  cases c with
  | operand u =>
    cases c' with
    | operand u' => rw [OperandTree.eq_of_begins h h']
    | and u' w' c' => exact absurd h' (not_begins_and h hends)
  | and u w c =>
    cases c' with
    | operand u' => exact absurd h (not_begins_and h' hends)
    | and u' w' c' =>
      obtain ⟨mid, hu, hmid⟩ := begins_append.mp h
      obtain ⟨mid', hu', hmid'⟩ := begins_append.mp h'
      obtain ⟨t, rest, rfl, htoken, hc, -⟩ := joined_both hmid
      obtain ⟨t', rest', rfl, htoken', hc', -⟩ := joined_both hmid'
      cases (reads_operand 0 ts).left_inj hu trivial hu' trivial
      rw [OperandTree.eq_of_begins hu hu', Spelling.token_injective (htoken.symm.trans htoken'),
        ConjunctionTree.eq_of_begins hc hc' hends]

theorem OperandTree.eq_of_begins {u u' : OperandTree} {ts left : List Located}
    (h : Begins u.words ts left) (h' : Begins u'.words ts left) : u = u' := by
  have hwords := h.inj h'
  have hfirst := congrArg List.head? hwords
  cases u with
  | not w u =>
    cases u' with
    | not w' u' =>
      obtain ⟨t, rest, rfl, -, hu⟩ := begins_cons.mp h
      have hu' := (begins_cons_cons.mp h').2
      rw [Keyword.token_injective (Option.some.inj hfirst), OperandTree.eq_of_begins hu hu']
    | parens e' => exact absurd (Option.some.inj hfirst) (w.ne_sign _)
    | predicate p' =>
      exact absurd (Option.some.inj hfirst).symm
        (w.ne_token (p'.property.not_isKeyword (by decide)))
  | parens e =>
    cases u' with
    | not w' u' => exact absurd (Option.some.inj hfirst).symm (w'.ne_sign _)
    | parens e' =>
      obtain ⟨t, rest, rfl, -, hrest⟩ := begins_cons.mp h
      obtain ⟨mid, he, hmid⟩ := begins_append.mp hrest
      obtain ⟨mid', he', hmid'⟩ := begins_append.mp (begins_cons_cons.mp h').2
      have hends := endsFilter_closeParen hmid
      obtain rfl := (reads_filter 0 rest).left_inj he hends he' (endsFilter_closeParen hmid')
      rw [FilterTree.eq_of_begins he he' hends]
    | predicate p' =>
      have hname : Token.sign .openParen = .name p'.property.text := Option.some.inj hfirst
      cases hname
  | predicate p =>
    cases u' with
    | not w' u' =>
      exact absurd (Option.some.inj hfirst) (w'.ne_token (p.property.not_isKeyword (by decide)))
    | parens e' =>
      have hname : Token.name p.property.text = .sign .openParen := Option.some.inj hfirst
      cases hname
    | predicate p' => rw [PredicateTree.words_injective hwords]

end

/-! ## Queries -/

section CommaList

variable {α X : Type} {item : (ts : List Located) → Reading α ts} {words : X → List Token}
  {value : X → α} {Ends : X → List Located → Prop}

theorem CommaList.not_begins_next (hitem : ∀ ts, (item ts).Reads words value Ends)
    (hends : ∀ x t rest, joinsList t.token = true → Ends x (t :: rest)) {x y : X}
    {l : CommaList X} (h : Begins (words x) ts left) (hx : Ends x left)
    (hstops : Stops joinsList left) : ¬ Begins ((CommaList.next y l).words words) ts left := by
  intro h'
  obtain ⟨mid, hy, hmid⟩ := begins_append.mp h'
  obtain ⟨t, rest, rfl, htoken, -⟩ := begins_cons.mp hmid
  have hjoins : joinsList t.token = true := decide_eq_true htoken
  obtain rfl := (hitem ts).left_inj h hx hy (hends y t rest hjoins)
  rw [stops_cons.mp hstops] at hjoins
  cases hjoins

theorem CommaList.eq_of_begins (hitem : ∀ ts, (item ts).Reads words value Ends)
    (hends : ∀ x t rest, joinsList t.token = true → Ends x (t :: rest))
    (hinj : ∀ {x y : X}, words x = words y → x = y) (hstops : Stops joinsList left)
    {l l' : CommaList X} (h : Begins (l.words words) ts left) (hl : Ends l.final left)
    (h' : Begins (l'.words words) ts left) (hl' : Ends l'.final left) : l = l' := by
  induction l generalizing l' ts with
  | last x =>
    cases l' with
    | last y => rw [hinj (h.inj h')]
    | next y l' => exact absurd h' (not_begins_next hitem hends h hl hstops)
  | next x l ih =>
    cases l' with
    | last y => exact absurd h (not_begins_next hitem hends h' hl' hstops)
    | next y l' =>
      obtain ⟨mid, hx, hmid⟩ := begins_append.mp h
      obtain ⟨mid', hy, hmid'⟩ := begins_append.mp h'
      obtain ⟨t, rest, rfl, htoken, hrest⟩ := begins_cons.mp hmid
      obtain ⟨t', rest', rfl, htoken', hrest'⟩ := begins_cons.mp hmid'
      have hxends := hends x t rest (decide_eq_true htoken)
      have hyends := hends y t' rest' (decide_eq_true htoken')
      cases (hitem ts).left_inj hx hxends hy hyends
      rw [hinj (hx.inj hy), ih hrest hl hrest' hl']

end CommaList

theorem SortTree.words_injective {a b : SortTree} (h : a.words = b.words) : a = b := by
  obtain ⟨m, d?⟩ := a
  obtain ⟨n, e?⟩ := b
  obtain ⟨hname, hdirection⟩ := List.cons.inj h
  have htoken : d?.map DirectionTree.token = e?.map DirectionTree.token := by
    simpa only [Option.head?_toList] using congrArg List.head? hdirection
  have hinj : Function.Injective DirectionTree.token := by
    rintro (v | v) (w | w) h
    · rw [Keyword.token_injective h]
    · exact absurd h (w.ne_token (v.not_isKeyword (by decide)))
    · exact absurd h (w.ne_token (v.not_isKeyword (by decide)))
    · rw [Keyword.token_injective h]
  rw [SortTree.mk.injEq]
  exact ⟨Name.token_injective hname, Option.map_injective hinj htoken⟩

theorem OrderTree.eq_of_begins {a? b? : Option OrderTree}
    (h : Begins (optionalWords OrderTree.words a?) ts [])
    (h' : Begins (optionalWords OrderTree.words b?) ts []) : a? = b? := by
  cases a? with
  | none =>
    cases b? with
    | none => rfl
    | some b =>
      cases begins_nil.mp h
      obtain ⟨_, _, ⟨⟩, -⟩ := begins_cons.mp h'
  | some a =>
    cases b? with
    | none =>
      cases begins_nil.mp h'
      obtain ⟨_, _, ⟨⟩, -⟩ := begins_cons.mp h
    | some b =>
      obtain ⟨t, rest, rfl, ha, h⟩ := begins_cons.mp h
      obtain ⟨hb, h'⟩ := begins_cons_cons.mp h'
      obtain ⟨u, terms, rfl, hv, h⟩ := begins_cons.mp h
      obtain ⟨hw, h'⟩ := begins_cons_cons.mp h'
      have hterms := CommaList.eq_of_begins (reads_sortTerm 0)
        (fun _ _ _ h _ => stops_direction_of_comma h) SortTree.words_injective (stops_nil _)
        h (fun _ => stops_nil _) h' fun _ => stops_nil _
      rw [Option.some.injEq, OrderTree.mk.injEq]
      exact ⟨Keyword.token_injective (ha.symm.trans hb), Keyword.token_injective (hv.symm.trans hw),
        hterms⟩

theorem WhereTree.eq_of_begins {v? w? : Option WhereTree} {a? b? : Option OrderTree}
    (h : Begins (optionalWords WhereTree.words v? ++ optionalWords OrderTree.words a?) ts [])
    (h' : Begins (optionalWords WhereTree.words w? ++ optionalWords OrderTree.words b?) ts []) :
    v? = w? ∧ a? = b? := by
  cases v? with
  | none =>
    cases w? with
    | none => exact ⟨rfl, OrderTree.eq_of_begins h h'⟩
    | some w =>
      obtain ⟨t, rest, rfl, htoken, -⟩ := begins_cons.mp h'
      exact absurd h (not_begins_order (htoken ▸ w.word.isKeyword) (by decide))
  | some v =>
    cases w? with
    | none =>
      obtain ⟨t, rest, rfl, htoken, -⟩ := begins_cons.mp h
      exact absurd h' (not_begins_order (htoken ▸ v.word.isKeyword) (by decide))
    | some w =>
      obtain ⟨t, rest, rfl, hv, h⟩ := begins_cons.mp h
      obtain ⟨hw, h'⟩ := begins_cons_cons.mp h'
      obtain ⟨mid, he, ha⟩ := begins_append.mp h
      obtain ⟨mid', he', hb⟩ := begins_append.mp h'
      have hends := endsFilter_of_order ha
      obtain rfl := (reads_filter 0 rest).left_inj he hends he' (endsFilter_of_order hb)
      rw [Option.some.injEq, WhereTree.mk.injEq]
      exact ⟨⟨Keyword.token_injective (hv.symm.trans hw), FilterTree.eq_of_begins he he' hends⟩,
        OrderTree.eq_of_begins ha hb⟩

theorem SelectionTree.eq_of_begins {s s' : SelectionTree} {v? w? : Option WhereTree}
    {a? b? : Option OrderTree}
    (h : Begins (s.words ++ (optionalWords WhereTree.words v? ++
      optionalWords OrderTree.words a?)) ts [])
    (h' : Begins (s'.words ++ (optionalWords WhereTree.words w? ++
      optionalWords OrderTree.words b?)) ts []) : s = s' ∧ v? = w? ∧ a? = b? := by
  obtain ⟨mid, hs, hmid⟩ := begins_append.mp h
  obtain ⟨mid', hs', hmid'⟩ := begins_append.mp h'
  cases s with
  | star =>
    obtain ⟨t, rest, rfl, htoken, hrest⟩ := begins_cons.mp hs
    cases s' with
    | star =>
      cases begins_nil.mp hrest
      cases begins_nil.mp (begins_cons_cons.mp hs').2
      exact ⟨rfl, WhereTree.eq_of_begins hmid hmid'⟩
    | fields names =>
      obtain ⟨n, hn⟩ := name_of_begins hs'
      cases htoken.symm.trans hn
  | fields names =>
    cases s' with
    | star =>
      obtain ⟨t, rest, rfl, htoken, -⟩ := begins_cons.mp hs'
      obtain ⟨n, hn⟩ := name_of_begins hs
      cases htoken.symm.trans hn
    | fields names' =>
      have hstops := stops_list_of_rest hmid
      obtain rfl := (reads_names 0 ts).left_inj hs hstops hs' (stops_list_of_rest hmid')
      have hnames : names = names' := CommaList.eq_of_begins (reads_field 0)
        (fun _ _ _ _ => trivial) (fun h => Name.token_injective (List.cons.inj h).1) hstops
        hs trivial hs' trivial
      exact ⟨congrArg _ hnames, WhereTree.eq_of_begins hmid hmid'⟩

/-- **A query has one derivation.** -/
theorem QueryTree.eq_of_begins {d d' : QueryTree} (h : Begins d.words ts [])
    (h' : Begins d'.words ts []) : d = d' := by
  have hmixed : ∀ {w s w? a? e b?}, Begins (QueryTree.select w s w? a?).words ts [] →
      ¬ Begins (QueryTree.bare e b?).words ts [] := by
    intro w s w? a? e b? h h'
    obtain ⟨t, rest, rfl, htoken, -⟩ := begins_cons.mp h
    obtain ⟨_, he, -⟩ := begins_append.mp h'
    obtain ⟨_, _, ⟨⟩, hfirst⟩ := e.exists_first he
    have hselect := hfirst.not_select
    rw [htoken, w.isKeyword] at hselect
    cases hselect
  cases d with
  | select v s v? a? =>
    cases d' with
    | select w s' w? b? =>
      rw [QueryTree.words, List.append_assoc] at h h'
      obtain ⟨t, rest, rfl, hv, h⟩ := begins_cons.mp h
      obtain ⟨hw, h'⟩ := begins_cons_cons.mp h'
      obtain ⟨rfl, rfl, rfl⟩ := SelectionTree.eq_of_begins h h'
      rw [Keyword.token_injective (hv.symm.trans hw)]
    | bare e b? => exact absurd h' (hmixed h)
  | bare e a? =>
    cases d' with
    | select w s w? b? => exact absurd h (hmixed h')
    | bare e' b? =>
      obtain ⟨mid, he, ha⟩ := begins_append.mp h
      obtain ⟨mid', he', hb⟩ := begins_append.mp h'
      have hends := endsFilter_of_order ha
      obtain rfl := (reads_filter 0 ts).left_inj he hends he' (endsFilter_of_order hb)
      rw [FilterTree.eq_of_begins he he' hends, OrderTree.eq_of_begins ha hb]

/-! ## Texts -/

/-- **The texts that are queries.** A text that is cut into words is read as a query if its words
have a derivation, and then as what that derivation stands for; there is one derivation at most. The
same holds of filters that stand alone. -/
theorem parse_grammar {text : String} {ts : List Located} (h : tokenize text = .ok ts) :
    (∀ q, parse text = .ok q ↔ ∃ d : QueryTree, d.words = ts.map (·.token) ∧ d.query = q) ∧
    (∀ d d' : QueryTree, d.words = ts.map (·.token) → d'.words = ts.map (·.token) → d = d') ∧
    (∀ f, parseFilter text = .ok f ↔
      ∃ e : FilterTree, e.words = ts.map (·.token) ∧ e.filter = f) ∧
    ∀ e e' : FilterTree, e.words = ts.map (·.token) → e'.words = ts.map (·.token) → e = e' := by
  have hquery : parse text = ofTokens text.utf8ByteSize ts := by
    unfold parse
    rw [h]
    rfl
  have hfilter : parseFilter text = filterOfTokens text.utf8ByteSize ts := by
    unfold parseFilter
    rw [h]
    rfl
  refine ⟨fun q => ?_, fun d d' hd hd' => ?_, fun f => ?_, fun e e' he he' => ?_⟩
  · rw [hquery, ofTokens_eq_ok]
    simp only [begins_to_end, and_comm, eq_comm]
  · exact QueryTree.eq_of_begins (begins_to_end.mpr hd.symm) (begins_to_end.mpr hd'.symm)
  · rw [hfilter, filterOfTokens_eq_ok]
    simp only [begins_to_end, and_comm, eq_comm]
  · exact FilterTree.eq_of_begins (begins_to_end.mpr he.symm) (begins_to_end.mpr he'.symm)
      endsFilter_nil

/-- Words that are keywords in one place only are names in others. -/
theorem parse_grammar_contextual :
    let text := "select order order by desc DESC"
    let order : SortTree := ⟨⟨"desc", by decide⟩, some (.descending ⟨.name "DESC", by decide⟩)⟩
    let derivation : QueryTree :=
      .select ⟨.name "select", by decide⟩ (.fields (.last ⟨"order", by decide⟩)) none
        (some ⟨⟨.name "order", by decide⟩, ⟨.name "by", by decide⟩, .last order⟩)
    parse text = .ok ⟨.fields ["order"], none, [⟨"desc", .descending⟩]⟩ ∧
    ∀ d : QueryTree, d.words = derivation.words → d = derivation := by
  intro text order derivation
  have htokens : tokenize text = .ok [⟨.name "select", 0⟩, ⟨.name "order", 7⟩, ⟨.name "order", 13⟩,
      ⟨.name "by", 19⟩, ⟨.name "desc", 22⟩, ⟨.name "DESC", 27⟩] := by
    decide +kernel
  obtain ⟨hparse, hunique, -, -⟩ := parse_grammar htokens
  exact ⟨(hparse _).mpr ⟨derivation, rfl, rfl⟩, fun d hd => hunique d derivation hd rfl⟩

end EntityQuery.Query
