import EntityQuery.Proofs.Stream.Scan
import EntityQuery.Stream.Script
import Mathlib.Data.Set.Basic

/-! # Trees of operations on sets

Operations on sets are nested to trees, with sources of ids at the leaves. The stream of a tree is
made before anything is pulled. If every leaf lists its ids in strict order, the stream of the tree
lists the ids of the set that the tree stands for, again in strict order.

* `Stream.Round`, `Stream.pull_induction`: what a pull of a merged stream does, once for all proofs
  that follow it.
* `Stream.pull_ended`: a merged stream that has ended stays as it is.
* `Stream.Lists`: what all pulls of a stream bring, also those after its end.
* `SetTree.stream_lists`: **the stream of a tree lists the set that the tree stands for**. -/

namespace EntityQuery

namespace Stream

variable {S : Type} [Source S] {d : Direction}

/-! ## Rounds of a pull -/

/-- The first round of a pull of a merged stream: what the pull comes to once the stream has looked
at its left side, at its right side as far as that matters, and has moved on their heads. -/
inductive Round (d : Direction) (op : SetOp) (left : Stream S) (leftHead : Head)
    (right : Stream S) (rightHead : Head) : Outcome × Stream S → Prop
  | leftFailed {e : RequestError} {left' : Stream S}
    (hleft : left.seen d leftHead = (.error e, left')) :
    Round d op left leftHead right rightHead (.error e, merge op left' none right rightHead)
  | leftEnded {left' : Stream S} (hleft : left.seen d leftHead = (.ok none, left'))
    (hend : op.endsWithLeft = true) :
    Round d op left leftHead right rightHead (.ok none, merge op left' (some none) right rightHead)
  | rightFailed {a : Option EntityId} {left' : Stream S} {e : RequestError} {right' : Stream S}
    (hleft : left.seen d leftHead = (.ok a, left')) (hgo : ¬ (op.endsWithLeft = true ∧ a = none))
    (hright : right.seen d rightHead = (.error e, right')) :
    Round d op left leftHead right rightHead (.error e, merge op left' (some a) right' none)
  | finished {a : Option EntityId} {left' : Stream S} {b : Option EntityId} {right' : Stream S}
    (hleft : left.seen d leftHead = (.ok a, left')) (hgo : ¬ (op.endsWithLeft = true ∧ a = none))
    (hright : right.seen d rightHead = (.ok b, right')) (hmove : op.move d a b = .finish) :
    Round d op left leftHead right rightHead (.ok none, merge op left' (some a) right' (some b))
  | brought {a : Option EntityId} {left' : Stream S} {b : Option EntityId} {right' : Stream S}
    {id : EntityId} {takenLeft takenRight : Bool}
    (hleft : left.seen d leftHead = (.ok a, left')) (hgo : ¬ (op.endsWithLeft = true ∧ a = none))
    (hright : right.seen d rightHead = (.ok b, right'))
    (hmove : op.move d a b = .bring id takenLeft takenRight) :
    Round d op left leftHead right rightHead
      (.ok (some id), merge op left' (Head.after takenLeft a) right' (Head.after takenRight b))
  /-- Heads are only dropped, and the pull goes on. -/
  | skipped {a : Option EntityId} {left' : Stream S} {b : Option EntityId} {right' : Stream S}
    {takenLeft takenRight : Bool}
    (hleft : left.seen d leftHead = (.ok a, left')) (hgo : ¬ (op.endsWithLeft = true ∧ a = none))
    (hright : right.seen d rightHead = (.ok b, right'))
    (hmove : op.move d a b = .skip takenLeft takenRight) :
    Round d op left leftHead right rightHead
      ((merge op left' (Head.after takenLeft a) right' (Head.after takenRight b)).pull d)

theorem round_pull (d : Direction) (op : SetOp) (left right : Stream S) (leftHead rightHead : Head) :
    Round d op left leftHead right rightHead
      ((merge op left leftHead right rightHead).pull d) := by
  rw [pull_merge]
  rcases hleft : left.seen d leftHead with ⟨e | a, left'⟩
  · exact .leftFailed hleft
  · dsimp only
    split_ifs with hend
    · rw [hend.2] at hleft ⊢
      exact .leftEnded hleft hend.1
    · rcases hright : right.seen d rightHead with ⟨e | b, right'⟩
      · exact .rightFailed hleft hend hright
      · dsimp only
        cases hmove : op.move d a b with
        | finish => exact .finished hleft hend hright hmove
        | bring id takenLeft takenRight => exact .brought hleft hend hright hmove
        | skip takenLeft takenRight => exact .skipped hleft hend hright hmove

theorem Round.pull_eq {op : SetOp} {left right : Stream S} {leftHead rightHead : Head}
    {pulled : Outcome × Stream S} (h : Round d op left leftHead right rightHead pulled) :
    (merge op left leftHead right rightHead).pull d = pulled := by
  rw [pull_merge]
  cases h with
  | leftFailed hleft => rw [hleft]
  | leftEnded hleft hend =>
    rw [hleft]
    exact if_pos ⟨hend, rfl⟩
  | rightFailed hleft hgo hright => simp only [hleft, if_neg hgo, hright]
  | finished hleft hgo hright hmove => simp only [hleft, if_neg hgo, hright, hmove]
  | brought hleft hgo hright hmove => simp only [hleft, if_neg hgo, hright, hmove]
  | skipped hleft hgo hright hmove => simp only [hleft, if_neg hgo, hright, hmove]

@[simp] theorem seen_some (d : Direction) (s : Stream S) (a : Option EntityId) :
    s.seen d (some a) = (.ok a, s) := rfl

section Seen

variable {op : SetOp} {left right left₁ right₁ : Stream S}
  {leftHead rightHead leftHead₁ rightHead₁ : Head}

theorem pull_merge_congr_left (h : left₁.seen d leftHead₁ = left.seen d leftHead) :
    (merge op left₁ leftHead₁ right rightHead).pull d =
      (merge op left leftHead right rightHead).pull d := by
  rw [pull_merge, pull_merge, h]

/-- If the right side is looked at, a pull depends on it only through what is seen of it. -/
theorem pull_merge_congr_right {a : Option EntityId}
    (hgo : ¬ (op.endsWithLeft = true ∧ a = none))
    (h : right₁.seen d rightHead₁ = right.seen d rightHead) :
    (merge op left (some a) right₁ rightHead₁).pull d =
      (merge op left (some a) right rightHead).pull d := by
  rw [pull_merge, pull_merge]
  simp only [seen_some, if_neg hgo, h]

end Seen

omit [Source S] in
theorem one_lt_size_combine (op : SetOp) (left right : Stream S) :
    1 < (combine op left right).size := by
  have hleft : 0 < left.size := by cases left <;> simp [size]
  rw [combine, size_merge]
  omega

theorem size_pull (d : Direction) (s : Stream S) : (s.pull d).2.size = s.size :=
  (advance d s).size_next

theorem size_seen (d : Direction) (s : Stream S) (head : Head) :
    (s.seen d head).2.size = s.size := by
  cases head with
  | none => exact s.size_pull d
  | some a => rfl

/-- What is seen of a side counts against the bound of the side and of its head. -/
theorem remaining_seen (d : Direction) (s : Stream S) (head : Head) :
    (s.seen d head).2.remaining + (s.seen d head).1.count ≤ s.remaining + head.count := by
  cases head with
  | none => exact s.remaining_pull d
  | some a => exact Nat.le_of_eq (congrArg (s.remaining + ·) (Outcome.count_ok a))

section Skip

variable {op : SetOp} {left right left' right' : Stream S} {leftHead rightHead : Head}
  {a b : Option EntityId} {takenLeft takenRight : Bool}
  (hleft : left.seen d leftHead = (.ok a, left'))
  (hright : right.seen d rightHead = (.ok b, right'))
include hleft hright

theorem size_of_seen (head head' : Head) :
    (merge op left' head right' head').size = (merge op left leftHead right rightHead).size := by
  have hl := size_seen d left leftHead
  have hr := size_seen d right rightHead
  rw [hleft] at hl
  rw [hright] at hr
  dsimp only at hl hr
  rw [size_merge, size_merge, hl, hr]

theorem remaining_of_skip (hmove : op.move d a b = .skip takenLeft takenRight) :
    (merge op left' (Head.after takenLeft a) right' (Head.after takenRight b)).remaining <
      (merge op left leftHead right rightHead).remaining := by
  have hl := remaining_seen d left leftHead
  have hr := remaining_seen d right rightHead
  have hskip := SetOp.count_skip hmove
  rw [hleft, Outcome.count_ok] at hl
  rw [hright, Outcome.count_ok] at hr
  dsimp only at hl hr
  simp only [remaining_merge]
  omega

end Skip

/-- **Induction along a pull**: through the sides of a merged stream, and on to the next round where
heads are only dropped. -/
theorem pull_induction (d : Direction) {P : Stream S → Prop} (source : ∀ s, P (source s))
    (merge : ∀ op left leftHead right rightHead, P left → P right →
      (∀ {a left' b right' takenLeft takenRight}, left.seen d leftHead = (.ok a, left') →
        right.seen d rightHead = (.ok b, right') → op.move d a b = .skip takenLeft takenRight →
        P (.merge op left' (Head.after takenLeft a) right' (Head.after takenRight b))) →
      P (.merge op left leftHead right rightHead))
    (s : Stream S) : P s := by
  have next : ∀ t : Stream S, t.size < s.size ∨ t.size = s.size ∧ t.remaining < s.remaining → P t :=
    fun t _ht => pull_induction d source merge t
  cases s with
  | source s => exact source s
  | merge op left leftHead right rightHead =>
    refine merge op left leftHead right rightHead (next left (.inl ?_)) (next right (.inl ?_)) ?_
    · rw [size_merge]
      omega
    · rw [size_merge]
      omega
    · intro a left' b right' takenLeft takenRight hleft hright hmove
      exact next _ (.inr ⟨size_of_seen hleft hright _ _, remaining_of_skip hleft hright hmove⟩)
termination_by (s.size, s.remaining)
decreasing_by
  rcases _ht with hsize | ⟨hsize, hremaining⟩
  · exact Prod.Lex.left _ _ hsize
  · rw [hsize]
    exact Prod.Lex.right _ hremaining

theorem pull_ended {s next : Stream S} (hs : 1 < s.size) (h : s.pull d = (.ok none, next)) :
    next.pull d = (.ok none, next) := by
  induction s using pull_induction (S := S) d with
  | source s => exact absurd hs (Nat.lt_irrefl 1)
  | merge op left leftHead right rightHead ihl ihr ih =>
    have hround := round_pull d op left right leftHead rightHead
    generalize (merge op left leftHead right rightHead).pull d = pulled at h hround
    cases hround with
    | leftFailed hleft => cases h
    | leftEnded hleft hend =>
      cases h
      exact (Round.leftEnded rfl hend).pull_eq
    | rightFailed hleft hgo hright => cases h
    | finished hleft hgo hright hmove =>
      cases h
      exact (Round.finished rfl hgo rfl hmove).pull_eq
    | brought hleft hgo hright hmove => cases h
    | skipped hleft hgo hright hmove =>
      exact ih hleft hright hmove (by rw [size_of_seen hleft hright]; exact hs) h

/-! ## Runs of pulls -/

/-- A stream after a number of pulls. -/
def after (d : Direction) (s : Stream S) : Nat → Stream S
  | 0 => s
  | n + 1 => after d (s.pull d).2 n

/-- The pulls of a stream bring the listed ids one after another, and then the end every time. -/
def Lists (d : Direction) (s : Stream S) (l : List EntityId) : Prop :=
  ∀ n, ((s.after d n).pull d).1 = .ok l[n]?

/-- What the first pulls of a stream bring. -/
def outcomes (d : Direction) (s : Stream S) : Nat → List Outcome
  | 0 => []
  | n + 1 => (s.pull d).1 :: outcomes d (s.pull d).2 n

/-- The ids and the ends that those of the first pulls bring which do not fail. -/
def answers (d : Direction) (s : Stream S) (n : Nat) : List (Option EntityId) :=
  (s.outcomes d n).filterMap Except.toOption

theorem after_ended {s : Stream S} (h : s.pull d = (.ok none, s)) (n : Nat) : s.after d n = s := by
  induction n with
  | zero => rfl
  | succ n ih =>
    rw [after, h]
    exact ih

theorem Brings.lists {s : Stream S} {l : List EntityId} (h : Brings d s l) (hs : 1 < s.size) :
    Lists d s l := by
  induction h with
  | ended hpull =>
    intro n
    cases n with
    | zero => exact congrArg Prod.fst hpull
    | succ n =>
      have hended := pull_ended hs hpull
      rw [after, hpull, after_ended hended n, hended]
      rfl
  | @next s next id rest hpull hrest ih =>
    have hsize : next.size = s.size := by
      have := s.size_pull d
      rwa [hpull] at this
    intro n
    cases n with
    | zero => exact congrArg Prod.fst hpull
    | succ n =>
      rw [after, hpull]
      exact ih (by omega) n

theorem Lists.brings {s : Stream S} {l : List EntityId} (h : Lists d s l) : Brings d s l := by
  induction l generalizing s with
  | nil => exact .ended (Prod.ext (h 0) rfl)
  | cons id l ih => exact .next (Prod.ext (h 0) rfl) (ih fun n => h (n + 1))

theorem lists_source (ids : S → List EntityId) (P : S → Prop)
    (hpull : ∀ s, P s → (Source.pull s).1 = .ok (ids s).head? ∧
      ids (Source.pull s).2 = (ids s).tail ∧ P (Source.pull s).2) {s : S} (hs : P s) :
    Lists d (source s) (ids s) := by
  intro n
  induction n generalizing s with
  | zero =>
    rw [after, pull_source, ← List.head?_eq_getElem?]
    exact (hpull s hs).1
  | succ n ih =>
    obtain ⟨-, htail, hnext⟩ := hpull s hs
    rw [after, pull_source, ← List.getElem?_tail, ← htail]
    exact ih hnext

end Stream

theorem Script.lists (d : Direction) (ids : List EntityId) (pulls : Nat) :
    (Stream.source (⟨ids, fun _ => none, pulls⟩ : Script)).Lists d ids := by
  refine Stream.lists_source Script.ids (fun s => s.failure? = fun _ => none) ?_ rfl
  rintro ⟨ids, failure?, pulls⟩ h
  obtain rfl : failure? = _ := h
  cases ids with
  | nil => exact ⟨rfl, rfl, rfl⟩
  | cons id rest => exact ⟨rfl, rfl, rfl⟩

theorem Scan.lists (d : Direction) (s : Scan) (havail : s.store.unavailable = false)
    (hsize : 0 < s.pageSize) : (Stream.source s).Lists d s.toCome := by
  refine Stream.lists_source Scan.toCome
    (fun s => s.store.unavailable = false ∧ 0 < s.pageSize) ?_ ⟨havail, hsize⟩
  rintro s ⟨havail, hsize⟩
  obtain ⟨hpull, htail, hstore, hpageSize⟩ := s.toCome_pull havail hsize
  refine ⟨hpull, htail, ?_⟩
  change s.pull.2.store.unavailable = false ∧ 0 < s.pull.2.pageSize
  rw [hstore, hpageSize]
  exact ⟨havail, hsize⟩

/-! ## Trees -/

instance (d : Direction) : DecidableRel d.Before :=
  fun a b => inferInstanceAs (Decidable (d.orient (compare a b) = .lt))

/-- An operation on sets, on sets of ids. -/
def SetOp.onSets : SetOp → Set EntityId → Set EntityId → Set EntityId
  | intersection, A, B => A ∩ B
  | union, A, B => A ∪ B
  | difference, A, B => A \ B

theorem SetOp.mem_onSets {op : SetOp} {A B : Set EntityId} {id : EntityId} :
    id ∈ op.onSets A B ↔ op.Keeps (id ∈ A) (id ∈ B) := by
  cases op <;> exact Iff.rfl

/-- A tree of operations on sets. -/
inductive SetTree (L : Type) where
  | leaf (l : L)
  | node (op : SetOp) (left right : SetTree L)

namespace SetTree

/-- The leaves of a tree, from left to right. -/
def leaves {L : Type} : SetTree L → List L
  | leaf l => [l]
  | node _ left right => left.leaves ++ right.leaves

/-- The set that a tree stands for, when each leaf stands for a set. -/
def denoted {L : Type} (set : L → Set EntityId) : SetTree L → Set EntityId
  | leaf l => set l
  | node op left right => op.onSets (left.denoted set) (right.denoted set)

variable {S : Type}

/-- The stream of a tree of sources, of which nothing has been looked at. -/
def stream : SetTree S → Stream S
  | leaf s => .source s
  | node op left right => .combine op left.stream right.stream

/-- The merges of a tree of lists. -/
def merged (d : Direction) (ids : S → List EntityId) : SetTree S → List EntityId
  | leaf s => ids s
  | node op left right => op.merged d (left.merged d ids) (right.merged d ids)

variable {d : Direction} {ids : S → List EntityId} {tree : SetTree S}

theorem pairwise_merged (h : ∀ s ∈ tree.leaves, (ids s).Pairwise d.Before) :
    (tree.merged d ids).Pairwise d.Before := by
  induction tree with
  | leaf s => exact h s (List.mem_singleton_self s)
  | node op left right ihl ihr =>
    exact SetOp.pairwise_merged (ihl fun s hs => h s (List.mem_append_left _ hs))
      (ihr fun s hs => h s (List.mem_append_right _ hs))

theorem mem_merged (h : ∀ s ∈ tree.leaves, (ids s).Pairwise d.Before) {id : EntityId} :
    id ∈ tree.merged d ids ↔ id ∈ tree.denoted fun s => {id | id ∈ ids s} := by
  induction tree with
  | leaf s => exact Iff.rfl
  | node op left right ihl ihr =>
    have hl : ∀ s ∈ left.leaves, (ids s).Pairwise d.Before :=
      fun s hs => h s (List.mem_append_left _ hs)
    have hr : ∀ s ∈ right.leaves, (ids s).Pairwise d.Before :=
      fun s hs => h s (List.mem_append_right _ hs)
    rw [merged, SetOp.mem_merged (pairwise_merged hl) (pairwise_merged hr), ihl hl, ihr hr]
    exact SetOp.mem_onSets.symm

variable [Source S]

theorem brings_stream (h : ∀ s ∈ tree.leaves, (Stream.source s).Brings d (ids s)) :
    tree.stream.Brings d (tree.merged d ids) := by
  induction tree with
  | leaf s => exact h s (List.mem_singleton_self s)
  | node op left right ihl ihr =>
    exact (ihl fun s hs => h s (List.mem_append_left _ hs)).combine op
      (ihr fun s hs => h s (List.mem_append_right _ hs))

theorem lists_stream (h : ∀ s ∈ tree.leaves, (Stream.source s).Lists d (ids s)) :
    tree.stream.Lists d (tree.merged d ids) := by
  have hbrings := brings_stream fun s hs => (h s hs).brings
  cases tree with
  | leaf s => exact h s (List.mem_singleton_self s)
  | node op left right =>
    exact hbrings.lists (Stream.one_lt_size_combine op left.stream right.stream)

/-- **The stream of a tree lists the set that the tree stands for.** If the leaves list their ids in
strict order, reading the stream comes to an end, and gives the ids of the set once each and in
strict order; every pull after that reports the end again. -/
theorem stream_lists (d : Direction) (tree : SetTree S) (ids : S → List EntityId)
    (h : ∀ s ∈ tree.leaves, (Stream.source s).Lists d (ids s) ∧ (ids s).Pairwise d.Before) :
    ∃ l : List EntityId, l.Pairwise d.Before ∧
      {id | id ∈ l} = tree.denoted (fun s => {id | id ∈ ids s}) ∧
      (tree.stream.drain d).1 = .ok l ∧
      ∀ n, ((tree.stream.after d n).pull d).1 = .ok l[n]? := by
  have hlists := lists_stream fun s hs => (h s hs).1
  have horder : ∀ s ∈ tree.leaves, (ids s).Pairwise d.Before := fun s hs => (h s hs).2
  exact ⟨tree.merged d ids, pairwise_merged horder, Set.ext fun id => mem_merged horder,
    hlists.brings.drain, hlists⟩

/-- A difference from a union of scripts, read from the greatest id down. -/
theorem stream_lists_descending :
    let script (ids : List EntityId) : Script := ⟨ids, fun _ => none, 0⟩
    let tree : SetTree Script := .node .difference
      (.node .union (.leaf (script [0xFFFFFFFFFFFFFFFF, 5])) (.leaf (script [5, 3])))
      (.leaf (script [7, 3, 0]))
    (∀ s ∈ tree.leaves, (Stream.source s).Lists .descending s.ids ∧
      s.ids.Pairwise Direction.descending.Before) ∧
    ∃ l : List EntityId, l.Pairwise Direction.descending.Before ∧
      {id | id ∈ l} = tree.denoted (fun s => {id | id ∈ s.ids}) ∧
      (tree.stream.drain .descending).1 = .ok l ∧
      ∀ n, ((tree.stream.after .descending n).pull .descending).1 = .ok l[n]? := by
  intro script tree
  have hleaves : ∀ s ∈ tree.leaves, (Stream.source s).Lists .descending s.ids ∧
      s.ids.Pairwise Direction.descending.Before := by
    intro s hs
    simp only [tree, leaves, List.cons_append, List.nil_append, List.mem_cons, List.not_mem_nil,
      or_false] at hs
    rcases hs with rfl | rfl | rfl
    · exact ⟨Script.lists .descending _ 0, by decide⟩
    · exact ⟨Script.lists .descending _ 0, by decide⟩
    · exact ⟨Script.lists .descending _ 0, by decide⟩
  exact ⟨hleaves, stream_lists .descending tree Script.ids hleaves⟩

end SetTree

end EntityQuery
