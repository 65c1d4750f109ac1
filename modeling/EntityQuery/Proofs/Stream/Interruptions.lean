import EntityQuery.Proofs.Stream.Trees

/-! # Streams over sources that fail at times

A pull of a source may be interrupted: it fails and leaves the source as it is, as the pull of a
scan does when the store cannot be reached. Whatever pulls of the leaves are interrupted, a stream
keeps what it has looked at, so that the next pull goes on where the failure struck.

* `Interrupted`: a source together with the failures laid down for its pulls.
* `Stream.retells_pull`: a pull fails with the failure of a leaf, and then the stream would bring
  what it would have brought before; or no leaf fails, and the pull is the one without failures.
* `Stream.answers_interrupted`: **a stream that is pulled on brings the ids and the end that it
  would bring without failures**. -/

namespace EntityQuery

/-- A source some pulls of which are interrupted. -/
structure Interrupted (S : Type) where
  source : S
  /-- The failure of a pull, by its number; most pulls have none. -/
  failure? : Nat → Option RequestError
  /-- How often the source has been pulled, interrupted or not. -/
  pulls : Nat := 0

namespace Interrupted

variable {S : Type} [Source S]

/-- Pulls a source, unless the pull is interrupted. -/
def pull (s : Interrupted S) : Outcome × Interrupted S :=
  match s.failure? s.pulls with
  | some e => (.error e, ⟨s.source, s.failure?, s.pulls + 1⟩)
  | none => ((Source.pull s.source).1, ⟨(Source.pull s.source).2, s.failure?, s.pulls + 1⟩)

instance : Source (Interrupted S) where
  pull := pull
  remaining s := Source.remaining s.source
  remaining_pull s := by
    unfold pull
    split
    · exact Nat.le_refl _
    · exact Source.remaining_pull s.source

/-- The failures that have struck so far, the first one first. -/
def failures (s : Interrupted S) : List RequestError := (List.range s.pulls).filterMap s.failure?

theorem failures_pull (s : Interrupted S) : s.pull.2.failures =
    s.failures ++ (s.failure? s.pulls).toList := by
  have hpulls : s.pull.2.pulls = s.pulls + 1 ∧ s.pull.2.failure? = s.failure? := by
    unfold pull
    split
    · exact ⟨rfl, rfl⟩
    · exact ⟨rfl, rfl⟩
  unfold failures
  rw [hpulls.1, hpulls.2, List.range_succ, List.filterMap_append]
  cases hfailure : s.failure? s.pulls <;> simp [hfailure]

end Interrupted

theorem Scan.pull_failed {s : Scan} {e : RequestError} (h : s.pull.1 = .error e) :
    s.pull.2 = s := by
  unfold pull at h ⊢
  split
  · rename_i hbuffer
    simp [hbuffer] at h
  · rename_i hbuffer
    split_ifs with hexhausted
    · rfl
    · split
      · rfl
      · rename_i hpage
        simp [hbuffer, hexhausted, hpage] at h
      · rename_i hpage
        simp [hbuffer, hexhausted, hpage] at h

namespace Stream

variable {S : Type} [Source S] {d : Direction}

/-- The same stream over other sources. -/
def map {S T : Type} (f : S → T) : Stream S → Stream T
  | source s => source (f s)
  | merge op left leftHead right rightHead =>
    merge op (left.map f) leftHead (right.map f) rightHead

/-- The same stream without interruptions. -/
def calm (s : Stream (Interrupted S)) : Stream S := s.map Interrupted.source

/-- The failures that have struck each leaf, from left to right. -/
def failures (s : Stream (Interrupted S)) : List (List RequestError) :=
  s.sources.map Interrupted.failures

omit [Source S] in
theorem failures_merge (op : SetOp) (left right : Stream (Interrupted S))
    (leftHead rightHead : Head) : (merge op left leftHead right rightHead).failures =
      left.failures ++ right.failures := List.map_append

omit [Source S] in
theorem failures_merge_congr {op : SetOp} {left left' right right' : Stream (Interrupted S)}
    {leftHead leftHead' rightHead rightHead' : Head} (hleft : left'.failures = left.failures)
    (hright : right'.failures = right.failures) :
    (merge op left' leftHead' right' rightHead').failures =
      (merge op left leftHead right rightHead).failures := by
  rw [failures_merge, failures_merge, hleft, hright]

/-- One of several leaves has failed once more, with the error `e`, and the others have not. -/
def FailedOnce (e : RequestError) (failures failures' : List (List RequestError)) : Prop :=
  ∃ before log after, failures = before ++ log :: after ∧
    failures' = before ++ (log ++ [e]) :: after

theorem FailedOnce.append_right {e : RequestError} {failures failures' : List (List RequestError)}
    (h : FailedOnce e failures failures') (others : List (List RequestError)) :
    FailedOnce e (failures ++ others) (failures' ++ others) := by
  obtain ⟨before, log, after, rfl, rfl⟩ := h
  exact ⟨before, log, after ++ others, by simp, by simp⟩

theorem FailedOnce.append_left {e : RequestError} {failures failures' : List (List RequestError)}
    (h : FailedOnce e failures failures') (others : List (List RequestError)) :
    FailedOnce e (others ++ failures) (others ++ failures') := by
  obtain ⟨before, log, after, rfl, rfl⟩ := h
  exact ⟨others ++ before, log, after, by simp, by simp⟩

/-- What is seen of a side retells what is seen of it without interruptions: either a leaf fails,
with just this error, and what the side would show remains to be seen; or no leaf fails, and it is
what the side shows. -/
inductive Retells (d : Direction) (s : Stream (Interrupted S)) (head : Head) :
    Outcome × Stream (Interrupted S) → Prop
  | failed {e : RequestError} {next : Stream (Interrupted S)}
    (hfailures : FailedOnce e s.failures next.failures)
    (hcalm : next.calm.pull d = s.calm.seen d head) : Retells d s head (.error e, next)
  | passed {outcome : Outcome} {next : Stream (Interrupted S)}
    (hfailures : next.failures = s.failures)
    (hcalm : s.calm.seen d head = (outcome, next.calm)) : Retells d s head (outcome, next)

theorem retells_source (d : Direction) (s : Interrupted S) :
    Retells d (source s) none ((source s).pull d) := by
  have hfailures := s.failures_pull
  rw [pull_source]
  change Retells d (source s) none (s.pull.1, source s.pull.2)
  cases hfailure : s.failure? s.pulls with
  | some e =>
    have hpull : s.pull = (.error e, ⟨s.source, s.failure?, s.pulls + 1⟩) := by
      simp only [Interrupted.pull, hfailure]
    rw [hpull, hfailure] at hfailures
    rw [hpull]
    exact .failed ⟨[], s.failures, [], rfl, congrArg (fun log => [log]) hfailures⟩ rfl
  | none =>
    have hpull : s.pull = ((Source.pull s.source).1,
        ⟨(Source.pull s.source).2, s.failure?, s.pulls + 1⟩) := by
      simp only [Interrupted.pull, hfailure]
    rw [hpull, hfailure] at hfailures
    rw [hpull]
    refine .passed (congrArg (fun log => [log]) (hfailures.trans (List.append_nil _))) ?_
    exact pull_source d s.source

theorem Retells.seen {s : Stream (Interrupted S)} (h : Retells d s none (s.pull d)) (head : Head) :
    Retells d s head (s.seen d head) := by
  cases head with
  | none => exact h
  | some a => exact .passed rfl rfl

theorem Retells.of_calm {s t : Stream (Interrupted S)} {pulled : Outcome × Stream (Interrupted S)}
    (h : Retells d t none pulled) (hfailures : t.failures = s.failures)
    (hcalm : s.calm.pull d = t.calm.pull d) : Retells d s none pulled := by
  cases h with
  | failed hfailed hnext => exact .failed (hfailures ▸ hfailed) (hnext.trans hcalm.symm)
  | passed hsame hnext => exact .passed (hsame.trans hfailures) (hcalm.trans hnext)

theorem Retells.of_ok {s next : Stream (Interrupted S)} {head : Head} {a : Option EntityId}
    (h : Retells d s head (.ok a, next)) :
    next.failures = s.failures ∧ s.calm.seen d head = (.ok a, next.calm) := by
  cases h with
  | passed hfailures hcalm => exact ⟨hfailures, hcalm⟩

theorem Retells.same_or_failedOnce {s : Stream (Interrupted S)} {head : Head}
    {pulled : Outcome × Stream (Interrupted S)} (h : Retells d s head pulled) :
    pulled.2.failures = s.failures ∨
      ∃ e, pulled.1 = .error e ∧ FailedOnce e s.failures pulled.2.failures := by
  cases h with
  | failed hfailures hcalm => exact .inr ⟨_, rfl, hfailures⟩
  | passed hfailures hcalm => exact .inl hfailures

/-- **A pull retells the pull without interruptions.** -/
theorem retells_pull (d : Direction) (s : Stream (Interrupted S)) :
    Retells d s none (s.pull d) := by
  induction s using pull_induction (S := Interrupted S) d with
  | source s => exact retells_source d s
  | merge op left leftHead right rightHead ihl ihr ih =>
    have hl := ihl.seen leftHead
    have hr := ihr.seen rightHead
    -- Where neither side fails, the merge has the leaves' failures that it had.
    have hsides : ∀ {a b left' right'}, left.seen d leftHead = (.ok a, left') →
        right.seen d rightHead = (.ok b, right') →
        (∀ head head', (merge op left' head right' head').failures =
          (merge op left leftHead right rightHead).failures) ∧
        left.calm.seen d leftHead = (.ok a, left'.calm) ∧
        right.calm.seen d rightHead = (.ok b, right'.calm) := by
      intro a b left' right' hleft hright
      rw [hleft] at hl
      rw [hright] at hr
      obtain ⟨hfailuresLeft, hcalmLeft⟩ := hl.of_ok
      obtain ⟨hfailuresRight, hcalmRight⟩ := hr.of_ok
      exact ⟨fun _ _ => failures_merge_congr hfailuresLeft hfailuresRight, hcalmLeft, hcalmRight⟩
    have hround := round_pull d op left right leftHead rightHead
    generalize (merge op left leftHead right rightHead).pull d = pulled at hround ⊢
    cases hround with
    | leftFailed hleft =>
      rw [hleft] at hl
      cases hl with
      | failed hfailures hcalm =>
        refine .failed ?_ (pull_merge_congr_left hcalm)
        rw [failures_merge, failures_merge]
        exact hfailures.append_right right.failures
      | passed hfailures hcalm =>
        exact .passed (failures_merge_congr hfailures rfl) (Round.leftFailed hcalm).pull_eq
    | leftEnded hleft hend =>
      rw [hleft] at hl
      obtain ⟨hfailures, hcalm⟩ := hl.of_ok
      exact .passed (failures_merge_congr hfailures rfl) (Round.leftEnded hcalm hend).pull_eq
    | @rightFailed a left' e right' hleft hgo hright =>
      rw [hleft] at hl
      rw [hright] at hr
      obtain ⟨hfailuresLeft, hcalmLeft⟩ := hl.of_ok
      cases hr with
      | failed hfailures hcalm =>
        -- The left side has been looked at; without interruptions the same is seen of it again.
        refine .failed ?_ ?_
        · rw [failures_merge, failures_merge, hfailuresLeft]
          exact hfailures.append_left left.failures
        · have hleft' : left'.calm.seen d (some a) = left.calm.seen d leftHead := hcalmLeft.symm
          have hright' : right'.calm.seen d none = right.calm.seen d rightHead := hcalm
          exact (pull_merge_congr_right hgo hright').trans (pull_merge_congr_left hleft')
      | passed hfailures hcalm =>
        exact .passed (failures_merge_congr hfailuresLeft hfailures)
          (Round.rightFailed hcalmLeft hgo hcalm).pull_eq
    | finished hleft hgo hright hmove =>
      obtain ⟨hfailures, hcalmLeft, hcalmRight⟩ := hsides hleft hright
      exact .passed (hfailures _ _) (Round.finished hcalmLeft hgo hcalmRight hmove).pull_eq
    | brought hleft hgo hright hmove =>
      obtain ⟨hfailures, hcalmLeft, hcalmRight⟩ := hsides hleft hright
      exact .passed (hfailures _ _) (Round.brought hcalmLeft hgo hcalmRight hmove).pull_eq
    | skipped hleft hgo hright hmove =>
      obtain ⟨hfailures, hcalmLeft, hcalmRight⟩ := hsides hleft hright
      exact (ih hleft hright hmove).of_calm (hfailures _ _)
        (Round.skipped hcalmLeft hgo hcalmRight hmove).pull_eq

/-! ## Runs with interruptions -/

theorem answers_succ (d : Direction) (s : Stream S) (n : Nat) :
    s.answers d (n + 1) = (s.pull d).1.toOption.toList ++ (s.pull d).2.answers d n := by
  unfold answers
  rw [outcomes, List.filterMap_cons]
  cases (s.pull d).1.toOption <;> rfl

/-- What a run brings depends on the stream only through what its next pull comes to. -/
theorem answers_congr {s t : Stream S} (h : s.pull d = t.pull d) (n : Nat) :
    s.answers d n = t.answers d n := by
  cases n with
  | zero => rfl
  | succ n => rw [answers_succ, answers_succ, h]

/-- How many failures have struck leaves of a stream. -/
def failureCount (s : Stream (Interrupted S)) : Nat := s.failures.flatten.length

omit [Source S] in
theorem FailedOnce.failureCount {e : RequestError} {s next : Stream (Interrupted S)}
    (h : FailedOnce e s.failures next.failures) : next.failureCount = s.failureCount + 1 := by
  obtain ⟨before, log, after, hs, hnext⟩ := h
  unfold Stream.failureCount
  rw [hs, hnext]
  simp only [List.flatten_append, List.flatten_cons, List.length_append, List.length_singleton]
  omega

/-- Every pull either uses up a failure of a leaf or brings the next answer of the stream without
interruptions. -/
theorem exists_answers_calm (d : Direction) (s : Stream (Interrupted S)) (n : Nat) :
    ∃ k, k + (s.after d n).failureCount = n + s.failureCount ∧
      s.answers d n = s.calm.answers d k := by
  induction n generalizing s with
  | zero => exact ⟨0, rfl, rfl⟩
  | succ n ih =>
    obtain ⟨k, hcount, hanswers⟩ := ih (s.pull d).2
    have hretells := retells_pull d s
    rw [after, answers_succ, hanswers]
    generalize s.pull d = pulled at hretells hcount ⊢
    cases hretells with
    | failed hfailures hcalm =>
      have hstruck := hfailures.failureCount
      exact ⟨k, by dsimp only at hcount ⊢; omega, answers_congr hcalm k⟩
    | passed hfailures hcalm =>
      refine ⟨k + 1, ?_, ?_⟩
      · have hsame : Stream.failureCount _ = s.failureCount :=
          congrArg (fun failures => failures.flatten.length) hfailures
        dsimp only at hcount ⊢
        omega
      · have hpull : s.calm.pull d = _ := hcalm
        rw [answers_succ, hpull]

/-- **Interruptions neither cut a stream short nor change its order.** A pull of the stream during
which a leaf fails fails with just that error, and no other leaf fails during it. All other pulls
bring in turn the ids and the end which the stream without interruptions brings, so that it gets as
far as there are pulls without a failure. Scans are sources that fail in this way. -/
theorem answers_interrupted (d : Direction) (s : Stream (Interrupted S)) (n : Nat) :
    let now := s.after d n
    let next := (now.pull d).2
    (next.failures = now.failures ∨
      ∃ e, (now.pull d).1 = .error e ∧ FailedOnce e now.failures next.failures) ∧
    (∃ k, k + now.failureCount = n + s.failureCount ∧ s.answers d n = s.calm.answers d k) ∧
    ∀ (scan : Scan) (e : RequestError), scan.pull.1 = .error e → scan.pull.2 = scan := by
  intro now next
  exact ⟨(retells_pull d now).same_or_failedOnce, exists_answers_calm d s n,
    fun scan e => Scan.pull_failed⟩

end Stream

end EntityQuery
