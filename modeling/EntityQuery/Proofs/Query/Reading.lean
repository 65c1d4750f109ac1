import EntityQuery.Proofs.Query.Grammar
import Mathlib.Data.List.Basic

/-! # Readers and derivations

A reader reads a part of the grammar if its results are those of the derivations of that part whose
words the list begins with. Where a derivation could go on, it must not be cut short: what is left
then may not begin with a word that would go on with it.

* `Begins`, `Reading.Gives`, `Reading.Reads`: words at the front of a list, and what a reader makes
  of them.
* `Reading.reads_chain`: readers that go on as long as a word joins the next part.
* `gives_predicate`, `reads_sortTerm`: the parts of queries that do not nest. -/

namespace EntityQuery.Query

variable {α β γ X Y W : Type} {ts left : List Located}

/-! ## Words at the front -/

/-- A list begins with words, and the rest is left. -/
def Begins (words : List Token) (ts left : List Located) : Prop :=
  ∃ read, ts = read ++ left ∧ read.map (·.token) = words

theorem begins_nil : Begins [] ts left ↔ ts = left := by
  unfold Begins
  simp only [List.map_eq_nil_iff]
  constructor
  · rintro ⟨read, hts, rfl⟩
    exact hts
  · exact fun hts => ⟨[], hts, rfl⟩

theorem begins_cons {word : Token} {words : List Token} :
    Begins (word :: words) ts left ↔
      ∃ t rest, ts = t :: rest ∧ t.token = word ∧ Begins words rest left := by
  constructor
  · rintro ⟨read, rfl, hread⟩
    obtain ⟨t, read, rfl, rfl, rfl⟩ := List.map_eq_cons_iff.mp hread
    exact ⟨t, read ++ left, rfl, rfl, read, rfl, rfl⟩
  · rintro ⟨t, rest, rfl, rfl, read, rfl, rfl⟩
    exact ⟨t :: read, rfl, rfl⟩

theorem begins_cons_cons {word : Token} {words : List Token} {t : Located} {rest : List Located} :
    Begins (word :: words) (t :: rest) left ↔ t.token = word ∧ Begins words rest left := by
  rw [begins_cons]
  constructor
  · rintro ⟨_, _, ⟨⟩, htoken, hwords⟩
    exact ⟨htoken, hwords⟩
  · exact fun ⟨htoken, hwords⟩ => ⟨t, rest, rfl, htoken, hwords⟩

theorem begins_append {words more : List Token} :
    Begins (words ++ more) ts left ↔ ∃ mid, Begins words ts mid ∧ Begins more mid left := by
  induction words generalizing ts with
  | nil => simp [begins_nil]
  | cons word words ih =>
    simp only [List.cons_append, begins_cons, ih]
    constructor
    · rintro ⟨t, rest, rfl, htoken, mid, hwords, hmore⟩
      exact ⟨mid, ⟨t, rest, rfl, htoken, hwords⟩, hmore⟩
    · rintro ⟨mid, ⟨t, rest, rfl, htoken, hwords⟩, hmore⟩
      exact ⟨t, rest, rfl, htoken, mid, hwords, hmore⟩

theorem Begins.append {words more : List Token} {mid : List Located} (h : Begins words ts mid)
    (hmore : Begins more mid left) : Begins (words ++ more) ts left :=
  begins_append.mpr ⟨mid, h, hmore⟩

theorem Begins.first {word : Token} {words : List Token} (h : Begins (word :: words) ts left) :
    ∃ mid, Begins [word] ts mid ∧ Begins words mid left := by
  rwa [← List.singleton_append, begins_append] at h

theorem begins_to_end {words : List Token} : Begins words ts [] ↔ ts.map (·.token) = words := by
  unfold Begins
  simp

/-- A list of words goes on with no word of a kind. -/
def Stops (p : Token → Bool) (left : List Located) : Prop :=
  ∀ t rest, left = t :: rest → p t.token = false

theorem stops_nil (p : Token → Bool) : Stops p [] := by
  rintro t rest ⟨⟩

theorem stops_cons {p : Token → Bool} {t : Located} {rest : List Located} :
    Stops p (t :: rest) ↔ p t.token = false := by
  constructor
  · exact fun h => h t rest rfl
  · rintro h t' rest' ⟨⟩
    exact h

theorem exists_of_not_stops {p : Token → Bool} (h : ¬ Stops p left) :
    ∃ t rest, left = t :: rest ∧ p t.token = true := by
  cases left with
  | nil => exact absurd (stops_nil p) h
  | cons t rest =>
    rw [stops_cons, Bool.not_eq_false] at h
    exact ⟨t, rest, rfl, h⟩

namespace Reading

/-! ## What a reader gives -/

/-- A reader gives a result and what is left. -/
def Gives (r : Reading α ts) (a : α) (left : List Located) : Prop := ∃ h, r = .ok (a, ⟨left, h⟩)

theorem Gives.length_lt {r : Reading α ts} {a : α} (h : r.Gives a left) :
    left.length < ts.length := h.1

theorem Gives.inj {r : Reading α ts} {a b : α} {left' : List Located} (h : r.Gives a left)
    (h' : r.Gives b left') : a = b ∧ left = left' := by
  obtain ⟨_, rfl⟩ := h
  obtain ⟨_, hr⟩ := h'
  cases hr
  exact ⟨rfl, rfl⟩

theorem gives_ok {a b : α} {rest : List Located} {h : rest.length < ts.length} :
    Gives (.ok (a, ⟨rest, h⟩) : Reading α ts) b left ↔ a = b ∧ rest = left := by
  constructor
  · rintro ⟨_, ⟨⟩⟩
    exact ⟨rfl, rfl⟩
  · rintro ⟨rfl, rfl⟩
    exact ⟨h, rfl⟩

theorem not_gives_error {e : ParseError} {a : α} : ¬ Gives (.error e : Reading α ts) a left := by
  rintro ⟨_, ⟨⟩⟩

theorem gives_map {r : Reading α ts} {f : α → β} {b : β} :
    (r.map f).Gives b left ↔ ∃ a, r.Gives a left ∧ f a = b := by
  rcases r with e | ⟨a, rest, h⟩
  · simp [Reading.map, not_gives_error]
  · simp only [Reading.map, gives_ok, and_assoc, exists_eq_left']
    exact and_comm

theorem gives_afterWord {t : Located} {r : Reading α ts} {a : α} :
    (r.afterWord (t := t)).Gives a left ↔ r.Gives a left := by
  rcases r with e | ⟨b, rest, h⟩
  · simp [afterWord, not_gives_error]
  · simp only [afterWord, gives_ok]

theorem gives_andThen {r : Reading α ts} {next : α → (rest : List Located) → Reading β rest}
    {b : β} :
    (r.andThen next).Gives b left ↔ ∃ a mid, r.Gives a mid ∧ (next a mid).Gives b left := by
  rcases r with e | ⟨a, rest, h⟩
  · simp [andThen, not_gives_error]
  · simp only [andThen, gives_ok, and_assoc, exists_eq_left', ↓existsAndEq, true_and]
    rcases next a rest with e | ⟨b', rest', h'⟩
    · simp [not_gives_error]
    · simp only [gives_ok]

/-! ## What a reader reads -/

/-- A reader reads a part of the grammar: it gives what the derivations of that part stand for. -/
def Reads (r : Reading α ts) (words : X → List Token) (value : X → α)
    (Ends : X → List Located → Prop) : Prop :=
  ∀ a left, r.Gives a left ↔ ∃ x, value x = a ∧ Begins (words x) ts left ∧ Ends x left

/-- A derivation that nothing goes on with may end anywhere. -/
def Anywhere (_ : X) (_ : List Located) : Prop := True

theorem reads_anywhere_iff {r : Reading α ts} {words : X → List Token} {value : X → α} :
    r.Reads words value Anywhere ↔
      ∀ a left, r.Gives a left ↔ ∃ x, value x = a ∧ Begins (words x) ts left := by
  unfold Reads Anywhere
  simp only [and_true]

/-- What two derivations begin with is left the same, if neither is cut short. -/
theorem Reads.left_inj {r : Reading α ts} {words : X → List Token} {value : X → α}
    {Ends : X → List Located → Prop} (h : r.Reads words value Ends) {x y : X}
    {left' : List Located} (hx : Begins (words x) ts left) (hxends : Ends x left)
    (hy : Begins (words y) ts left') (hyends : Ends y left') : left = left' :=
  (((h _ _).mpr ⟨x, rfl, hx, hxends⟩).inj ((h _ _).mpr ⟨y, rfl, hy, hyends⟩)).2

theorem gives_readWord {stop : Nat} {expected : Expected} {read? : Token → Option α} {a : α} :
    (readWord stop expected read? ts).Gives a left ↔
      ∃ t, ts = t :: left ∧ read? t.token = some a := by
  cases ts with
  | nil => simp [readWord, not_gives_error]
  | cons t rest =>
    unfold readWord
    cases hread : read? t.token with
    | none => simp [hread, not_gives_error]
    | some b => simp [hread, gives_ok, and_comm]

theorem gives_word {read? : Token → Option α} {token : X → Token} {value : X → α}
    (hread : ∀ t a, read? t = some a ↔ ∃ x, value x = a ∧ token x = t) {stop : Nat}
    {expected : Expected} {a : α} :
    (readWord stop expected read? ts).Gives a left ↔
      ∃ x, value x = a ∧ Begins [token x] ts left := by
  simp only [gives_readWord, begins_cons, begins_nil, hread]
  constructor
  · rintro ⟨t, hts, x, hvalue, htoken⟩
    exact ⟨x, hvalue, t, left, hts, htoken.symm, rfl⟩
  · rintro ⟨x, hvalue, t, rest, hts, htoken, rfl⟩
    exact ⟨t, hts, x, hvalue, htoken.symm⟩

/-- Reads on as long as a word joins what has been read to the next part. -/
def chain (r : Reading α ts) (joins : Token → Bool) (one : α → γ) (more : α → γ → γ)
    (again : (rest : List Located) → Reading γ rest) : Reading γ ts :=
  match r with
  | .error e => .error e
  | .ok (a, ⟨[], h⟩) => .ok (one a, ⟨[], h⟩)
  | .ok (a, ⟨t :: rest, h⟩) =>
    if joins t.token then
      match again rest with
      | .error e => .error e
      | .ok (c, ⟨rest', h'⟩) =>
        .ok (more a c, ⟨rest', Nat.lt_trans h' (Nat.lt_of_succ_lt h)⟩)
    else .ok (one a, ⟨t :: rest, h⟩)

section Chain

variable {r : Reading α ts} {joins : Token → Bool} {one : α → γ} {more : α → γ → γ}
  {again : (rest : List Located) → Reading γ rest} {c : γ}

theorem gives_chain_of_stops {a : α} {mid : List Located} (hr : r.Gives a mid)
    (hstops : Stops joins mid) :
    (r.chain joins one more again).Gives c left ↔ one a = c ∧ mid = left := by
  obtain ⟨hlt, rfl⟩ := hr
  cases mid with
  | nil => exact gives_ok
  | cons t rest =>
    have hnot := stops_cons.mp hstops
    simp only [chain, hnot, Bool.false_eq_true, if_false, gives_ok]

theorem gives_chain_of_joins {a : α} {t : Located} {rest : List Located}
    (hr : r.Gives a (t :: rest)) (hjoins : joins t.token = true) :
    (r.chain joins one more again).Gives c left ↔
      ∃ d, (again rest).Gives d left ∧ more a d = c := by
  obtain ⟨hlt, rfl⟩ := hr
  simp only [chain, hjoins, if_true]
  rcases again rest with e | ⟨d, rest', h'⟩
  · simp [not_gives_error]
  · simp only [gives_ok]
    constructor
    · rintro ⟨hmore, rfl⟩
      exact ⟨d, ⟨rfl, rfl⟩, hmore⟩
    · rintro ⟨_, ⟨rfl, rfl⟩, hmore⟩
      exact ⟨hmore, rfl⟩

theorem gives_chain :
    (r.chain joins one more again).Gives c left ↔
      (∃ a, r.Gives a left ∧ Stops joins left ∧ one a = c) ∨
      ∃ a t rest d, r.Gives a (t :: rest) ∧ joins t.token = true ∧ (again rest).Gives d left ∧
        more a d = c := by
  constructor
  · intro h
    rcases hr : r with e | ⟨a, mid, hlt⟩
    · rw [hr] at h
      exact absurd h not_gives_error
    · have ha : r.Gives a mid := ⟨hlt, hr⟩
      rw [← hr]
      by_cases hstops : Stops joins mid
      · obtain ⟨hone, rfl⟩ := (gives_chain_of_stops ha hstops).mp h
        exact .inl ⟨a, ha, hstops, hone⟩
      · obtain ⟨t, rest, rfl, hjoins⟩ := exists_of_not_stops hstops
        obtain ⟨d, hd, hmore⟩ := (gives_chain_of_joins ha hjoins).mp h
        exact .inr ⟨a, t, rest, d, ha, hjoins, hd, hmore⟩
  · rintro (⟨a, ha, hstops, hone⟩ | ⟨a, t, rest, d, ha, hjoins, hd, hmore⟩)
    · exact (gives_chain_of_stops ha hstops).mpr ⟨hone, rfl⟩
    · exact (gives_chain_of_joins ha hjoins).mpr ⟨d, hd, hmore⟩

/-- **Chains read the derivations that may go on.** Each is one part, or a part, a word that joins
and a derivation of the rest. -/
theorem reads_chain {words : X → List Token} {value : X → α} {Ends : X → List Located → Prop}
    {token : W → Token}
    {words' : Y → List Token} {value' : Y → γ} {Ends' : Y → List Located → Prop}
    (hpart : r.Reads words value Ends) (hjoins : ∀ t, joins t = true ↔ ∃ w, token w = t)
    (hends : ∀ x t rest, joins t.token = true → Ends x (t :: rest))
    (hagain : ∀ rest : List Located, rest.length < ts.length →
      (again rest).Reads words' value' Ends') :
    (r.chain joins one more again).Gives c left ↔
      (∃ x, one (value x) = c ∧ Begins (words x) ts left ∧ Ends x left ∧ Stops joins left) ∨
      ∃ x w y, more (value x) (value' y) = c ∧
        Begins (words x ++ token w :: words' y) ts left ∧ Ends' y left := by
  rw [gives_chain]
  refine or_congr ?_ ?_
  · constructor
    · rintro ⟨a, ha, hstops, rfl⟩
      obtain ⟨x, rfl, hx, hxends⟩ := (hpart a left).mp ha
      exact ⟨x, rfl, hx, hxends, hstops⟩
    · rintro ⟨x, rfl, hx, hxends, hstops⟩
      exact ⟨value x, (hpart _ _).mpr ⟨x, rfl, hx, hxends⟩, hstops, rfl⟩
  · constructor
    · rintro ⟨a, t, rest, d, ha, ht, hd, rfl⟩
      obtain ⟨x, rfl, hx, -⟩ := (hpart a _).mp ha
      obtain ⟨w, hw⟩ := (hjoins _).mp ht
      have hlt := Nat.lt_of_succ_lt ha.length_lt
      obtain ⟨y, rfl, hy, hyends⟩ := (hagain rest hlt d left).mp hd
      refine ⟨x, w, y, rfl, begins_append.mpr ⟨_, hx, ?_⟩, hyends⟩
      exact begins_cons.mpr ⟨t, rest, rfl, hw.symm, hy⟩
    · rintro ⟨x, w, y, rfl, hbegins, hyends⟩
      obtain ⟨mid, hx, hmid⟩ := begins_append.mp hbegins
      obtain ⟨t, rest, rfl, hw, hy⟩ := begins_cons.mp hmid
      have ht := (hjoins t.token).mpr ⟨w, hw.symm⟩
      have ha := (hpart _ _).mpr ⟨x, rfl, hx, hends x t rest ht⟩
      have hlt := Nat.lt_of_succ_lt ha.length_lt
      have hd := (hagain rest hlt _ left).mpr ⟨y, rfl, hy, hyends⟩
      exact ⟨value x, t, rest, value' y, ha, ht, hd, rfl⟩

end Chain

end Reading

/-! ## Words -/

theorem propertyName?_eq_some {t : Token} {s : String} :
    propertyName? t = some s ↔ ∃ n : Name, n.text = s ∧ n.token = t := by
  constructor
  · intro h
    unfold propertyName? at h
    split at h
    · next text =>
      split_ifs at h with hreserved
      exact ⟨⟨text, Bool.eq_false_iff.mpr hreserved⟩, Option.some.inj h, rfl⟩
    · cases h
  · rintro ⟨n, rfl, rfl⟩
    exact if_neg (Bool.eq_false_iff.mp n.free)

theorem keyword?_eq_some {keyword : String} {t : Token} {u : Unit} :
    keyword? keyword t = some u ↔ ∃ w : Keyword keyword, () = u ∧ w.token = t := by
  unfold keyword?
  split_ifs with h
  · exact iff_of_true rfl ⟨⟨t, h⟩, rfl, rfl⟩
  · refine iff_of_false (by simp) ?_
    rintro ⟨w, -, rfl⟩
    exact h w.isKeyword

theorem sign?_eq_some {s : Sign} {t : Token} {u : Unit} :
    sign? s t = some u ↔ ∃ _ : Unit, () = u ∧ .sign s = t := by
  unfold sign?
  simp [eq_comm]

theorem quoted?_eq_some {t : Token} {text : String} :
    quoted? t = some text ↔ ∃ s, id s = text ∧ .quoted s = t := by
  unfold quoted?
  cases t <;> simp [eq_comm]

theorem measure?_eq_some {t : Token} {x : Binary64} :
    measure? t = some x ↔ ∃ n : Measure, n.value = x ∧ n.token = t := by
  constructor
  · intro h
    unfold measure? at h
    split at h
    · next n => exact ⟨.int n, Option.some.inj h, rfl⟩
    · next y => exact ⟨.float y, Option.some.inj h, rfl⟩
    · cases h
  · rintro ⟨_ | _, rfl, rfl⟩ <;> rfl

theorem literal?_eq_some {t : Token} {x : Scalar} :
    literal? t = some x ↔ ∃ l : Literal, l.value = x ∧ l.token = t := by
  constructor
  · intro h
    unfold literal? at h
    split at h
    · next n => exact ⟨.number (.int n), Option.some.inj h, rfl⟩
    · next y => exact ⟨.number (.float y), Option.some.inj h, rfl⟩
    · next text => exact ⟨.quoted text, Option.some.inj h, rfl⟩
    · next s =>
      split_ifs at h with htrue hfalse
      · exact ⟨.truth ⟨.name s, htrue⟩, Option.some.inj h, rfl⟩
      · exact ⟨.falsehood ⟨.name s, hfalse⟩, Option.some.inj h, rfl⟩
    · cases h
  · rintro ⟨(_ | _) | _ | w | w, rfl, rfl⟩
    · rfl
    · rfl
    · rfl
    · obtain ⟨s, hs⟩ := w.exists_name
      have hspells := w.isKeyword
      rw [hs] at hspells
      simp only [Literal.token, Literal.value, hs]
      exact if_pos hspells
    · obtain ⟨s, hs⟩ := w.exists_name
      have hspells := w.isKeyword
      have hnot := w.not_isKeyword (b := "true") (by decide)
      rw [hs] at hspells hnot
      simp only [Literal.token, Literal.value, hs]
      exact (if_neg (Bool.eq_false_iff.mp hnot)).trans (if_pos hspells)

theorem spelled_of_comparison? {t : Token} {c : Comparison} (h : comparison? t = some c) :
    t = .sign c.sign ∨ t.isKeyword c.keyword = true := by
  unfold comparison? at h
  split_ifs at h with hspelled hspelled hspelled hspelled hspelled <;>
    · cases h
      exact hspelled

theorem comparison?_eq_some {t : Token} {c : Comparison} :
    comparison? t = some c ↔ ∃ o : Operator, o.comparison = c ∧ o.token = t := by
  constructor
  · intro h
    obtain ⟨w, hw⟩ := Spelling.exists_token_eq.mpr (spelled_of_comparison? h)
    exact ⟨⟨c, w⟩, rfl, hw⟩
  · rintro ⟨o, rfl, rfl⟩
    have hspelled := Spelling.exists_token_eq.mp ⟨o.spelling, rfl⟩
    cases hread : comparison? o.token with
    | some c =>
      rw [eq_of_spelled (spelled_of_comparison? hread) hspelled]
    | none =>
      unfold comparison? at hread
      split_ifs at hread with hequal hless hlessEqual hgreater hgreaterEqual
      obtain ⟨c, w⟩ := o
      cases c
      · exact absurd hspelled hequal
      · exact absurd hspelled hless
      · exact absurd hspelled hlessEqual
      · exact absurd hspelled hgreater
      · exact absurd hspelled hgreaterEqual

theorem joinsEither_iff {t : Token} :
    joinsEither t = true ↔ ∃ w : Spelling .either "or", w.token = t := by
  rw [Spelling.exists_token_eq]
  simp [joinsEither]

theorem joinsBoth_iff {t : Token} :
    joinsBoth t = true ↔ ∃ w : Spelling .both "and", w.token = t := by
  rw [Spelling.exists_token_eq]
  simp [joinsBoth]

end EntityQuery.Query
