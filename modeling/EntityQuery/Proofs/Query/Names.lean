import EntityQuery.Proofs.Plan.Meaning
import EntityQuery.Proofs.Query.Unambiguous
import Mathlib.Data.List.TakeWhile

/-! # Names in queries

Whatever a query compares or sorts by is one of the names that its text is cut into, and such a name
is a run of letters, numerals and a few marks.

* `Query.IsName`: what a text is cut into as a name.
* `Query.isName_of_tokenize`: the names among the words of a text.
* `Query.isName_of_parse`: **the properties of a query are such names**. -/

namespace EntityQuery

/-- The property that a predicate asks about. -/
def Predicate.property : Predicate → String
  | compare property _ _ => property
  | contains property _ => property
  | within area => area.property

namespace Query

/-! ## Words -/

/-- A run of characters of names. -/
structure IsName (s : String) : Prop where
  nonempty : s ≠ ""
  continues : ∀ c ∈ s.toList, continuesName c = true

theorem continuesName_of_startsName {c : Char} (hc : startsName c = true) :
    continuesName c = true := by
  simp only [startsName, continuesName, Bool.or_eq_true, decide_eq_true_eq] at hc ⊢
  rcases hc with hc | hc <;> simp [hc]

variable {offset : Nat} {c : Char} {cs left : List Char} {s : String}

theorem scanNumber_ne_name (s : String) : scanNumber offset c cs ≠ .ok (.name s, left) := by
  intro h
  unfold scanNumber at h
  dsimp only at h
  split at h
  · rename_i t hnumber
    obtain ⟨rfl, -⟩ := Prod.mk.inj (Except.ok.inj h)
    unfold number? at hnumber
    dsimp only at hnumber
    split_ifs at hnumber
    · simp at hnumber
    · simp at hnumber
  · cases h

theorem scanSign_ne_name (s : String) : scanSign offset c cs ≠ .ok (.name s, left) := by
  intro h
  unfold scanSign scanOrder at h
  split at h <;> grind

/-- **A word that is cut off as a name is one.** -/
theorem isName_of_scanToken (h : scanToken offset c cs = .ok (.name s, left)) : IsName s := by
  unfold scanToken at h
  split_ifs at h with hquote hnumber hname
  · obtain ⟨_, -, heq⟩ := map_eq_ok_iff.mp h
    cases heq
  · exact absurd h (scanNumber_ne_name s)
  · obtain ⟨heq, -⟩ := Prod.mk.inj (Except.ok.inj h)
    obtain rfl := Token.name.inj heq
    refine ⟨by simp [← String.toList_inj], fun d hd => ?_⟩
    rw [String.toList_ofList] at hd
    rcases List.mem_cons.mp hd with rfl | hd
    · exact continuesName_of_startsName hname
    · exact List.mem_takeWhile_imp hd
  · exact absurd h (scanSign_ne_name s)

theorem isName_of_scanFrom {ts : List Located} (h : scanFrom offset cs = .ok ts)
    (hs : .name s ∈ ts.map (·.token)) : IsName s := by
  fun_induction scanFrom offset cs generalizing ts with
  | case1 offset =>
    obtain rfl := Except.ok.inj h
    cases hs
  | case2 offset c rest hblank ih => exact ih h hs
  | case3 offset c rest hblank e herror => cases h
  | case4 offset c rest hblank t left htoken hlength ih =>
    obtain ⟨more, hmore, rfl⟩ := map_eq_ok_iff.mp h
    rcases List.mem_cons.mp hs with heq | hs
    · obtain rfl : Token.name s = t := heq
      exact isName_of_scanToken htoken
    · exact ih hmore hs

theorem isName_of_tokenize {text : String} {ts : List Located} (h : tokenize text = .ok ts)
    (hs : .name s ∈ ts.map (·.token)) : IsName s :=
  isName_of_scanFrom h hs

/-! ## Derivations -/

theorem PredicateTree.name_mem_words (p : PredicateTree) :
    .name p.predicate.property ∈ p.words := by
  obtain ⟨name, condition⟩ := p
  cases condition <;> exact List.mem_cons_self

mutual

theorem FilterTree.name_mem_words {e : FilterTree} {p : Predicate}
    (hp : p ∈ e.filter.predicates) : .name p.property ∈ e.words := by
  cases e with
  | conjunction c => exact ConjunctionTree.name_mem_words hp
  | or c w e =>
    rw [FilterTree.words, List.mem_append, List.mem_cons]
    rcases List.mem_append.mp hp with hp | hp
    · exact .inl (ConjunctionTree.name_mem_words hp)
    · exact .inr (.inr (FilterTree.name_mem_words hp))

theorem ConjunctionTree.name_mem_words {c : ConjunctionTree} {p : Predicate}
    (hp : p ∈ c.filter.predicates) : .name p.property ∈ c.words := by
  cases c with
  | operand u => exact OperandTree.name_mem_words hp
  | and u w c =>
    rw [ConjunctionTree.words, List.mem_append, List.mem_cons]
    rcases List.mem_append.mp hp with hp | hp
    · exact .inl (OperandTree.name_mem_words hp)
    · exact .inr (.inr (ConjunctionTree.name_mem_words hp))

theorem OperandTree.name_mem_words {u : OperandTree} {p : Predicate}
    (hp : p ∈ u.filter.predicates) : .name p.property ∈ u.words := by
  cases u with
  | not w u => exact List.mem_cons_of_mem _ (OperandTree.name_mem_words hp)
  | parens e =>
    exact List.mem_cons_of_mem _ (List.mem_append_left _ (FilterTree.name_mem_words hp))
  | predicate tree =>
    obtain rfl := List.mem_singleton.mp hp
    exact tree.name_mem_words

end

theorem CommaList.mem_words {α : Type} {word : α → List Token} {l : CommaList α} {a : α}
    {t : Token} (ha : a ∈ l.items) (ht : t ∈ word a) : t ∈ l.words word := by
  induction l with
  | last item =>
    obtain rfl := List.mem_singleton.mp ha
    exact ht
  | next item rest ih =>
    rw [CommaList.words, List.mem_append, List.mem_cons]
    rcases List.mem_cons.mp ha with rfl | ha
    · exact .inl ht
    · exact .inr (.inr (ih ha))

theorem OrderTree.name_mem_words {o? : Option OrderTree} {term : SortTerm}
    (hterm : term ∈ optionalOrder o?) :
    .name term.property ∈ optionalWords OrderTree.words o? := by
  cases o? with
  | none => cases hterm
  | some o =>
    obtain ⟨tree, htree, rfl⟩ := List.mem_map.mp hterm
    have hmem : Token.name tree.term.property ∈ o.terms.words SortTree.words :=
      CommaList.mem_words htree List.mem_cons_self
    exact List.mem_cons_of_mem _ (List.mem_cons_of_mem _ hmem)

/-! ## Queries -/

/-- The properties that a query compares and those that it sorts by. -/
def properties (q : Query) : List String :=
  q.filter.elim [] (fun f => f.predicates.map Predicate.property) ++
    q.order.map SortTerm.property

theorem QueryTree.name_mem_words {d : QueryTree} (hs : s ∈ d.query.properties) :
    .name s ∈ d.words := by
  rcases List.mem_append.mp hs with hs | hs
  · cases d with
    | select w selection where? order? =>
      cases where? with
      | none => cases hs
      | some tree =>
        obtain ⟨p, hp, rfl⟩ := List.mem_map.mp hs
        have hmem : Token.name p.property ∈ tree.words :=
          List.mem_cons_of_mem _ (FilterTree.name_mem_words hp)
        simp [QueryTree.words, optionalWords, hmem]
    | bare e order? =>
      obtain ⟨p, hp, rfl⟩ := List.mem_map.mp hs
      exact List.mem_append_left _ (FilterTree.name_mem_words hp)
  · obtain ⟨term, hterm, rfl⟩ := List.mem_map.mp hs
    cases d with
    | select w selection where? order? =>
      exact List.mem_cons_of_mem _ (List.mem_append_right _ (OrderTree.name_mem_words hterm))
    | bare e order? => exact List.mem_append_right _ (OrderTree.name_mem_words hterm)

/-- **The properties of a query that a text writes are names.** -/
theorem isName_of_parse {text : String} {q : Query} (h : parse text = .ok q)
    (hs : s ∈ q.properties) : IsName s := by
  obtain ⟨ts, htokens, hq⟩ := bind_eq_ok_iff.mp h
  obtain ⟨d, rfl, hwords⟩ := ofTokens_eq_ok.mp hq
  refine isName_of_tokenize htokens ?_
  rw [begins_to_end.mp hwords]
  exact QueryTree.name_mem_words hs

end Query

end EntityQuery
