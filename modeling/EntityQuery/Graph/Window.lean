/-! # Calls under way

Many calls are made on one state with a bound on how many are under way at a time. A call that is
under way waits for those that were started before it, so the window in which calls wait is a queue.
The first call that fails ends the run: those behind it in the window are dropped, and the rest is
never started.

* `runWindowed_eq_runEach` — the bound does not show in the outcome. -/

namespace EntityQuery

variable {σ α β ε : Type}

/-- Makes one call after another, until one fails. -/
def runEach (call : σ → α → Except ε β × σ) (s : σ) : List α → Except ε (List β) × σ
  | [] => (.ok [], s)
  | a :: rest =>
    match call s a with
    | (.error e, s) => (.error e, s)
    | (.ok b, s) =>
      match runEach call s rest with
      | (.error e, s) => (.error e, s)
      | (.ok bs, s) => (.ok (b :: bs), s)

/-- Goes on with a queue of calls under way and the calls that wait to be started. The window is
filled up before the call at its head is made. -/
def runQueue (window : Nat) (call : σ → α → Except ε β × σ) (s : σ) (underWay waiting : List α) :
    Except ε (List β) × σ :=
  let free := max window 1 - underWay.length
  match _h : underWay ++ waiting.take free with
  | [] => (.ok [], s)
  | a :: queue =>
    match call s a with
    | (.error e, s) => (.error e, s)
    | (.ok b, s) =>
      match runQueue window call s queue (waiting.drop free) with
      | (.error e, s) => (.error e, s)
      | (.ok bs, s) => (.ok (b :: bs), s)
termination_by underWay.length + waiting.length
decreasing_by
  have := congrArg List.length _h
  simp only [List.length_append, List.length_take, List.length_cons] at this
  simp only [List.length_drop]
  omega

/-- Makes calls with at most so many of them under way at a time; at least one always is. -/
def runWindowed (window : Nat) (call : σ → α → Except ε β × σ) (s : σ) (items : List α) :
    Except ε (List β) × σ :=
  runQueue window call s [] items

/-- Filling the window keeps the calls and their order. -/
theorem append_eq_of_filled {underWay waiting queue : List α} {a : α} {free : Nat}
    (h : underWay ++ waiting.take free = a :: queue) :
    underWay ++ waiting = a :: (queue ++ waiting.drop free) := by
  rw [← List.cons_append, ← h, List.append_assoc, List.take_append_drop]

/-- A filled window is empty only if no call is left. -/
theorem append_eq_nil_of_filled {underWay waiting : List α} {window : Nat}
    (h : underWay ++ waiting.take (max window 1 - underWay.length) = []) :
    underWay ++ waiting = [] := by
  obtain ⟨rfl, h⟩ := List.append_eq_nil_iff.1 h
  cases waiting with
  | nil => rfl
  | cons a rest =>
    rw [List.take_eq_nil_iff] at h
    simp only [List.length_nil] at h
    rcases h with h | h
    · omega
    · cases h

/-- A queue is worked off as if all calls were made one after another. -/
theorem runQueue_eq_runEach (window : Nat) (call : σ → α → Except ε β × σ) (s : σ)
    (underWay waiting : List α) :
    runQueue window call s underWay waiting = runEach call s (underWay ++ waiting) := by
  fun_induction runQueue window call s underWay waiting with
  | case1 s underWay waiting free h => rw [append_eq_nil_of_filled h, runEach]
  | case2 s underWay waiting free a queue h e s' hcall =>
    simp only [append_eq_of_filled h, runEach, hcall]
  | case3 s underWay waiting free a queue h b s' hcall e s'' hrest ih =>
    simp only [append_eq_of_filled h, runEach, hcall, ← ih, hrest]
  | case4 s underWay waiting free a queue h b s' hcall bs s'' hrest ih =>
    simp only [append_eq_of_filled h, runEach, hcall, ← ih, hrest]

/-- The bound on the calls under way does not show in the outcome. -/
theorem runWindowed_eq_runEach (window : Nat) (call : σ → α → Except ε β × σ) (s : σ)
    (items : List α) : runWindowed window call s items = runEach call s items :=
  runQueue_eq_runEach window call s [] items

end EntityQuery
