import EntityQuery.Proofs.Query.Accepted

/-! # Where readers refuse

A reader looks at one word at a time, and at no word behind the one that it refuses. So a refusal
says two things. The words that were read before can still go on to something that the reader takes,
and with the refused word they cannot, whatever comes after it.

* `Blames`: what is refused is refused at the first word that cannot stand there.
* `blames_word`, `Blames.cons`, `Blames.andThen`, `Blames.chain`: **the ways to put readers together
  keep this**. -/

namespace EntityQuery.Query

open Reading

variable {α β γ X Y : Type} {ts left : List Located} {stop : Nat}

/-! ## Words that come first -/

/-- The first word of a list. -/
def first? (ts : List Located) : Option Token := ts.head?.map (·.token)

theorem Begins.first?_eq {words : List Token} (h : Begins words ts left) (hne : words ≠ []) :
    first? ts = words.head? := by
  obtain ⟨word, words, rfl⟩ := List.exists_cons_of_ne_nil hne
  obtain ⟨t, rest, rfl, rfl, -⟩ := begins_cons.mp h
  rfl

/-- Lists that begin with the same word, in front of which there may be others. -/
theorem first?_eq_of_begins {words : List Token} {t : Located} {rest ts' left' : List Located}
    (h : Begins words ts (t :: rest)) (h' : Begins (words ++ [t.token]) ts' left') :
    first? ts' = first? ts := by
  have hword : Begins [t.token] (t :: rest) rest := ⟨[t], rfl, rfl⟩
  have hne : words ++ [t.token] ≠ [] := by simp
  rw [(h.append hword).first?_eq hne, h'.first?_eq hne]

/-- What a condition says of what is left hangs on the first word of it. -/
def LooksAtFirst (Ends : X → List Located → Prop) : Prop :=
  ∀ x left left', first? left' = first? left → Ends x left → Ends x left'

theorem stops_iff_first? {p : Token → Bool} : Stops p left ↔ ∀ t ∈ first? left, p t = false := by
  cases left with
  | nil => simp [stops_nil, first?]
  | cons t rest => simp [stops_cons, first?]

theorem looksAtFirst_anywhere : LooksAtFirst (X := X) Anywhere := fun _ _ _ _ _ => trivial

theorem looksAtFirst_stops (p : Token → Bool) : LooksAtFirst fun (_ : X) => Stops p := by
  intro _ left left' hfirst h
  rw [stops_iff_first?] at h ⊢
  rwa [hfirst]

/-! ## Faults -/

/-- Why there is no result. -/
def fault? (r : Except ParseError α) : Option ParseError :=
  match r with
  | .error e => some e
  | .ok _ => none

/-- Why there is no result, if what comes after a reader is read as well. -/
def Reading.faultThen (r : Reading α ts) (next : α → List Located → Option ParseError) :
    Option ParseError :=
  match r with
  | .error e => some e
  | .ok (a, rest) => next a rest.1

theorem Reading.fault?_eq (r : Reading α ts) : fault? r = r.faultThen fun _ _ => none := by
  rcases r with e | ⟨a, rest⟩ <;> rfl

theorem fault?_map {f : α → β} (x : Except ParseError α) : fault? (x.map f) = fault? x := by
  cases x <;> rfl

namespace Reading

variable {next : β → List Located → Option ParseError}

theorem faultThen_map {f : α → β} (r : Reading α ts) :
    (r.map f).faultThen next = r.faultThen fun a => next (f a) := by
  rcases r with e | ⟨a, rest⟩ <;> rfl

theorem faultThen_afterWord {t : Located} (r : Reading β ts) :
    (r.afterWord (t := t)).faultThen next = r.faultThen next := by
  rcases r with e | ⟨a, rest⟩ <;> rfl

theorem faultThen_andThen (r : Reading α ts) (more : α → (rest : List Located) → Reading β rest) :
    (r.andThen more).faultThen next = r.faultThen fun a rest => (more a rest).faultThen next := by
  rcases r with e | ⟨a, rest, h⟩
  · rfl
  · simp only [andThen, faultThen]
    rcases more a rest with e | ⟨b, rest', h'⟩ <;> rfl

theorem fault?_finish (r : Reading α ts) (more : α → List Located → Except ParseError β) :
    fault? (r.finish more) = r.faultThen fun a rest => fault? (more a rest) := by
  rcases r with e | ⟨a, rest⟩ <;> rfl

theorem fault?_chain (r : Reading α ts) (joins : Token → Bool) (one : α → γ) (more : α → γ → γ)
    (again : (rest : List Located) → Reading γ rest) :
    fault? (r.chain joins one more again) = r.faultThen fun _ rest =>
      match rest with
      | [] => none
      | t :: rest => if joins t.token then fault? (again rest) else none := by
  rcases r with e | ⟨a, _ | ⟨t, rest⟩, h⟩
  · rfl
  · rfl
  · simp only [chain, faultThen]
    split_ifs
    · rcases again rest with e | ⟨c, rest', h'⟩ <;> rfl
    · rfl

end Reading

/-! ## Blame -/

section Blame

variable {fault : List Located → Option ParseError} {Open Open' : List Token → Prop}

/-- What is refused is refused at the first word that cannot stand there. The words in front of it
are open: there is a way to go on with them. With that word, or with the end of the text if there is
no such word, there is none. -/
def Blames (stop : Nat) (fault : List Located → Option ParseError) (Open : List Token → Prop)
    (ts : List Located) : Prop :=
  ∀ e, fault ts = some e → ∃ words left expected, Begins words ts left ∧
    e = unexpected stop expected left ∧ Open words ∧
    ∀ t rest, left = t :: rest → ∀ ts' left', Begins (words ++ [t.token]) ts' left' →
      fault ts' ≠ none

theorem blames_of_none (h : fault ts = none) : Blames stop fault Open ts := by
  intro e he
  cases h.symm.trans he

theorem Blames.mono (h : Blames stop fault Open ts) (hopen : ∀ words, Open words → Open' words) :
    Blames stop fault Open' ts := by
  intro e he
  obtain ⟨words, left, expected, hwords, rfl, hread, hnever⟩ := h e he
  exact ⟨words, left, expected, hwords, rfl, hopen words hread, hnever⟩

/-- Readers that agree on lists with the same first word. -/
theorem Blames.congr {fault' : List Located → Option ParseError} (h : Blames stop fault' Open ts)
    (heq : ∀ ts', first? ts' = first? ts → fault ts' = fault' ts') :
    Blames stop fault Open ts := by
  intro e he
  rw [heq ts rfl] at he
  obtain ⟨words, left, expected, hwords, rfl, hread, hnever⟩ := h e he
  refine ⟨words, left, expected, hwords, rfl, hread, ?_⟩
  rintro t rest rfl ts' left' hts'
  rw [heq ts' (first?_eq_of_begins hwords hts')]
  exact hnever t rest rfl ts' left' hts'

theorem Blames.congr_nil {fault' : List Located → Option ParseError}
    (h : Blames stop fault' Open []) (heq : fault [] = fault' []) : Blames stop fault Open [] := by
  refine h.congr fun ts' hfirst => ?_
  cases ts' with
  | nil => exact heq
  | cons t' rest' => cases hfirst

theorem Blames.congr_cons {fault' : List Located → Option ParseError} {t : Located}
    {rest : List Located} (h : Blames stop fault' Open (t :: rest))
    (heq : ∀ t' rest', t'.token = t.token → fault (t' :: rest') = fault' (t' :: rest')) :
    Blames stop fault Open (t :: rest) := by
  refine h.congr fun ts' hfirst => ?_
  cases ts' with
  | nil => cases hfirst
  | cons t' rest' => exact heq t' rest' (Option.some.inj hfirst)

theorem Blames.cons {fault' : List Located → Option ParseError} {t : Located}
    {rest : List Located} (h : Blames stop fault' (fun words => Open (t.token :: words)) rest)
    (heq : ∀ t' rest', t'.token = t.token → fault (t' :: rest') = fault' rest') :
    Blames stop fault Open (t :: rest) := by
  intro e he
  rw [heq t rest rfl] at he
  obtain ⟨words, left, expected, hwords, rfl, hread, hnever⟩ := h e he
  refine ⟨t.token :: words, left, expected, begins_cons_cons.mpr ⟨rfl, hwords⟩, rfl, hread, ?_⟩
  intro u more hleft ts' left' hts'
  obtain ⟨t', rest', rfl, htoken, hrest'⟩ := begins_cons.mp hts'
  rw [heq t' rest' htoken]
  exact hnever u more hleft rest' left' hrest'

theorem blames_word {expected : Expected} {read? : Token → Option α} (hopen : Open [])
    (ts : List Located) :
    Blames stop (fun ts => fault? (readWord stop expected read? ts)) Open ts := by
  cases ts with
  | nil =>
    rintro e ⟨⟩
    exact ⟨[], [], expected, begins_nil.mpr rfl, rfl, hopen, nofun⟩
  | cons t rest =>
    cases hread : read? t.token with
    | some a => exact blames_of_none (by simp only [readWord, hread, fault?])
    | none =>
      intro e he
      simp only [readWord, hread, fault?] at he
      refine ⟨[], t :: rest, expected, begins_nil.mpr rfl, (Option.some.inj he).symm, hopen, ?_⟩
      rintro t' rest' ⟨⟩ ts' left' hts'
      obtain ⟨t', rest', rfl, htoken, -⟩ := begins_cons.mp hts'
      simp [readWord, htoken, hread, fault?]

/-- **A reader and what comes after it.** -/
theorem Blames.andThen {r : (ts : List Located) → Reading α ts} {words : X → List Token}
    {value : X → α} {Ends : X → List Located → Prop}
    {next : α → List Located → Option ParseError}
    (h : Blames stop (fun ts => fault? (r ts)) Open ts)
    (hreads : ∀ ts, (r ts).Reads words value Ends) (hends : LooksAtFirst Ends)
    (heq : ∀ ts, fault ts = (r ts).faultThen next)
    (hnext : ∀ x left, left.length < ts.length → Begins (words x) ts left →
      Blames stop (next (value x)) (fun more => Open (words x ++ more)) left) :
    Blames stop fault Open ts := by
  intro e he
  rw [heq] at he
  rcases hread : r ts with e' | ⟨a, mid, hlt⟩
  -- The reader refuses, and with the same words in front it refuses again.
  · rw [hread] at he
    have he : fault? (r ts) = some e := by rw [hread, ← he]; rfl
    obtain ⟨words, left, expected, hwords, rfl, hopen, hnever⟩ := h e he
    refine ⟨words, left, expected, hwords, rfl, hopen, ?_⟩
    intro t rest hleft ts' left' hts'
    have hfault : fault? (r ts') ≠ none := hnever t rest hleft ts' left' hts'
    rw [heq]
    rcases hread' : r ts' with e' | ⟨a, rest'⟩
    · exact nofun
    · rw [hread'] at hfault
      exact absurd rfl hfault
  -- What comes after it refuses. With the same words in front the reader ends at the same place,
  -- as it looks at the first word behind it only.
  · rw [hread] at he
    obtain ⟨x, rfl, hx, hxends⟩ := (hreads ts a mid).mp ⟨hlt, hread⟩
    obtain ⟨more, left, expected, hmore, rfl, hopen, hnever⟩ := hnext x mid hlt hx e he
    refine ⟨words x ++ more, left, expected, hx.append hmore, rfl, hopen, ?_⟩
    rintro t rest rfl ts' left' hts'
    rw [List.append_assoc] at hts'
    obtain ⟨mid', hx', hmore'⟩ := begins_append.mp hts'
    have hxends' := hends x mid mid' (first?_eq_of_begins hmore hmore') hxends
    obtain ⟨hlt', hread'⟩ := (hreads ts' _ mid').mpr ⟨x, rfl, hx', hxends'⟩
    rw [heq, hread']
    exact hnever t rest rfl mid' left' hmore'

theorem blames_word_andThen {read? : Token → Option α} {token : X → Token} {value : X → α}
    {next : α → List Located → Option ParseError} {expected : Expected}
    (hread : ∀ t a, read? t = some a ↔ ∃ x, value x = a ∧ token x = t) (hopen : Open [])
    (heq : ∀ ts, fault ts = (readWord stop expected read? ts).faultThen next)
    (hnext : ∀ x left, Blames stop (next (value x)) (fun more => Open (token x :: more)) left) :
    Blames stop fault Open ts :=
  (blames_word hopen ts).andThen
    (fun _ => reads_anywhere_iff.mpr fun _ _ => gives_word hread) looksAtFirst_anywhere heq
    fun x left _ _ => hnext x left

/-- **Readers that go on as long as a word joins the next part.** -/
theorem Blames.chain {r : (ts : List Located) → Reading α ts} {words : X → List Token}
    {value : X → α} {Ends : X → List Located → Prop} {joins : Token → Bool} {one : α → γ}
    {more : α → γ → γ} {again : (rest : List Located) → Reading γ rest}
    (h : Blames stop (fun ts => fault? (r ts)) Open ts)
    (hreads : ∀ ts, (r ts).Reads words value Ends) (hends : LooksAtFirst Ends)
    (heq : ∀ ts, fault ts = fault? ((r ts).chain joins one more again))
    (hagain : ∀ x t rest, rest.length < ts.length → joins t = true →
      Blames stop (fun ts => fault? (again ts)) (fun more => Open (words x ++ t :: more)) rest) :
    Blames stop fault Open ts := by
  refine h.andThen hreads hends (fun ts => (heq ts).trans (fault?_chain _ _ _ _ _)) ?_
  intro x left hlt _
  cases left with
  | nil => exact blames_of_none rfl
  | cons t rest =>
    by_cases hjoins : joins t.token = true
    · refine Blames.cons (hagain x t.token rest (Nat.lt_of_succ_lt hlt) hjoins) ?_
      intro t' rest' htoken
      simp only [htoken, hjoins, if_true]
    · exact blames_of_none (by simp only [hjoins, Bool.false_eq_true, if_false])

end Blame

end EntityQuery.Query
