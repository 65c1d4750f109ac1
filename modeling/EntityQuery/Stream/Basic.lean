import EntityQuery.Direction
import EntityQuery.Error

/-! # Streams of ids

A stream gives ids one at a time, each time it is pulled, and then an end. Streams over ids in one
direction are merged by the operations on sets. A merged stream looks one id ahead on each side,
only when it has to, and keeps what it has looked at until it is taken; so it reads no more of its
sides than an answer needs, and a side that failed is asked again by the next pull.

The sides of a merged stream are any streams. What stands at the ends of the tree is a source: a
type with a way to be pulled and a bound on how many ids are still to come.

* `Stream.pull_source`, `Stream.pull_merge` — what a pull brings, without the bounds by which the
  pulling is seen to end.
* `Stream.remaining_pull` — every id that is brought counts against the bound. -/

namespace EntityQuery

/-- What a pull brings: an id, the end, or an error. -/
abbrev Outcome := Except RequestError (Option UInt64)

/-- How many ids a pull has brought. -/
def Outcome.count : Outcome → Nat
  | .ok (some _) => 1
  | _ => 0

/-- Streams that are not merged from others. -/
class Source (S : Type) where
  /-- What a pull brings, and the source after it. -/
  pull : S → Outcome × S
  /-- A bound on the number of ids still to come. -/
  remaining : S → Nat
  /-- Every id that is brought counts against the bound. -/
  remaining_pull : ∀ s, remaining (pull s).2 + Outcome.count (pull s).1 ≤ remaining s

/-- The operations on sets by which streams are merged. -/
inductive SetOp where
  | intersection
  | union
  | difference
  deriving DecidableEq

/-- The order in which a stream brings two ids. -/
def Direction.compareIds (d : Direction) (a b : UInt64) : Ordering := d.orient (compare a b)

/-- What has been looked at on one side: nothing yet, the end, or an id that is not taken yet. -/
abbrev Head := Option (Option UInt64)

/-- How many ids are held by what has been looked at. -/
def Head.count : Head → Nat
  | some (some _) => 1
  | _ => 0

@[grind =] theorem Head.count_none : Head.count none = 0 := rfl

@[grind =] theorem Head.count_end : Head.count (some none) = 0 := rfl

@[grind =] theorem Head.count_id (id : UInt64) : Head.count (some (some id)) = 1 := rfl

@[grind =] theorem Outcome.count_error (e : RequestError) : Outcome.count (.error e) = 0 := rfl

/-- What is seen counts as much as the head that it becomes. -/
@[grind =] theorem Outcome.count_ok (a : Option UInt64) :
    Outcome.count (.ok a) = Head.count (some a) := by
  cases a <;> rfl

/-- What a merged stream does with the heads of its sides. -/
inductive Move where
  /-- The stream ends. -/
  | finish
  /-- Heads are taken and dropped, on the sides that are marked. -/
  | skip (left right : Bool)
  /-- Heads are taken, on the sides that are marked, and an id is brought. -/
  | bring (id : UInt64) (left right : Bool)
  deriving DecidableEq

/-- Whether the end of the left side is the end of the merged stream. -/
def SetOp.endsWithLeft : SetOp → Bool
  | union => false
  | intersection | difference => true

/-- What to do with the heads of both sides. -/
def SetOp.move (op : SetOp) (d : Direction) : Option UInt64 → Option UInt64 → Move
  | some a, some b =>
    match op, d.compareIds a b with
    | intersection, .lt => .skip true false
    | intersection, .eq => .bring a true true
    | intersection, .gt => .skip false true
    | union, .lt => .bring a true false
    | union, .eq => .bring a true true
    | union, .gt => .bring b false true
    | difference, .lt => .bring a true false
    | difference, .eq => .skip true true
    | difference, .gt => .skip false true
  | some a, none =>
    match op with
    | intersection => .finish
    | union | difference => .bring a true false
  | none, some b =>
    match op with
    | union => .bring b false true
    | intersection | difference => .finish
  | none, none => .finish

/-- What is left of a head after a move. -/
def Head.after (taken : Bool) (seen : Option UInt64) : Head := if taken then none else some seen

/-- A move that drops heads takes an id. -/
theorem SetOp.count_skip {op : SetOp} {d : Direction} {a b : Option UInt64} {left right : Bool}
    (h : op.move d a b = .skip left right) :
    (Head.after left a).count + (Head.after right b).count + 1 ≤
      Head.count (some a) + Head.count (some b) := by
  unfold SetOp.move at h
  split at h
  · split at h <;> simp_all [Head.after, Head.count]
  · split at h <;> simp at h
  · split at h <;> simp at h
  · simp at h

/-- A move that brings an id takes an id. -/
theorem SetOp.count_bring {op : SetOp} {d : Direction} {a b : Option UInt64} {id : UInt64}
    {left right : Bool} (h : op.move d a b = .bring id left right) :
    (Head.after left a).count + (Head.after right b).count + 1 ≤
      Head.count (some a) + Head.count (some b) := by
  unfold SetOp.move at h
  split at h
  · split at h <;> simp_all [Head.after, Head.count]
  · split at h <;> simp_all [Head.after, Head.count]
  · split at h <;> simp_all [Head.after, Head.count]
  · simp at h

/-- A stream merged from sources. -/
inductive Stream (S : Type) where
  | source (s : S)
  /-- Two streams and what has been looked at on each side. -/
  | merge (op : SetOp) (left : Stream S) (leftHead : Head) (right : Stream S) (rightHead : Head)

namespace Stream

variable {S : Type}

/-- Two streams of which nothing has been looked at. -/
def combine (op : SetOp) (left right : Stream S) : Stream S := merge op left none right none

/-- The sources of a stream, from left to right. -/
def sources : Stream S → List S
  | source s => [s]
  | merge _ left _ right _ => left.sources ++ right.sources

/-- How many streams a stream is made of. -/
def size : Stream S → Nat
  | source _ => 1
  | merge _ left _ right _ => left.size + right.size + 1

/-- A bound on the number of ids still to come, or looked at and not taken. -/
def remaining [Source S] : Stream S → Nat
  | source s => Source.remaining s
  | merge _ left leftHead right rightHead =>
    left.remaining + leftHead.count + right.remaining + rightHead.count

/-- What a pull of the stream `s` brings, and the stream after it. The stream keeps its shape, and
every id that is brought counts against its bound. -/
structure Pulled [Source S] (s : Stream S) where
  outcome : Outcome
  next : Stream S
  size_next : next.size = s.size
  remaining_next : next.remaining + outcome.count ≤ s.remaining

/-- What is seen when the head of the stream `s` is looked at, and the stream after it. -/
structure Looked [Source S] (s : Stream S) (head : Head) where
  outcome : Outcome
  next : Stream S
  size_next : next.size = s.size
  remaining_next : next.remaining + outcome.count ≤ s.remaining + head.count

@[grind =] theorem remaining_merge [Source S] (op : SetOp) (left right : Stream S)
    (leftHead rightHead : Head) :
    (merge op left leftHead right rightHead).remaining =
      left.remaining + leftHead.count + right.remaining + rightHead.count := rfl

@[grind =] theorem size_merge (op : SetOp) (left right : Stream S) (leftHead rightHead : Head) :
    (merge op left leftHead right rightHead).size = left.size + right.size + 1 := rfl

mutual

/-- Pulls a stream. -/
def advance [Source S] (d : Direction) (s : Stream S) : Pulled s :=
  match s with
  | source s => ⟨(Source.pull s).1, source (Source.pull s).2, rfl, Source.remaining_pull s⟩
  | merge op left leftHead right rightHead =>
    match look d left leftHead with
    | ⟨.error e, left', hsize, hleft⟩ =>
      ⟨.error e, merge op left' none right rightHead, by grind, by grind⟩
    | ⟨.ok a, left', hsize, hleft⟩ =>
      if op.endsWithLeft ∧ a = none then
        ⟨.ok none, merge op left' (some a) right rightHead, by grind, by grind⟩
      else
        match look d right rightHead with
        | ⟨.error e, right', hsize', hright⟩ =>
          ⟨.error e, merge op left' (some a) right' none, by grind, by grind⟩
        | ⟨.ok b, right', hsize', hright⟩ =>
          match hmove : op.move d a b with
          | .finish =>
            ⟨.ok none, merge op left' (some a) right' (some b), by grind, by grind⟩
          | .bring id takenLeft takenRight =>
            ⟨.ok (some id),
              merge op left' (Head.after takenLeft a) right' (Head.after takenRight b),
              by grind, by grind [SetOp.count_bring hmove]⟩
          | .skip takenLeft takenRight =>
            have hskip := SetOp.count_skip hmove
            have hle : (merge op left' (Head.after takenLeft a) right'
                (Head.after takenRight b)).remaining + 1 ≤
                (merge op left leftHead right rightHead).remaining := by grind
            match advance d (merge op left' (Head.after takenLeft a) right'
                (Head.after takenRight b)) with
            | ⟨outcome, next, hsize'', hnext⟩ =>
              ⟨outcome, next, by grind, by omega⟩
termination_by 2 * (s.size + s.remaining)
decreasing_by all_goals grind

/-- Looks at the head of a stream. -/
def look [Source S] (d : Direction) (s : Stream S) (head : Head) : Looked s head :=
  match head with
  | some id => ⟨.ok id, s, rfl, Nat.le_of_eq (congrArg (s.remaining + ·) (Outcome.count_ok id))⟩
  | none =>
    match advance d s with
    | ⟨outcome, next, hsize, h⟩ => ⟨outcome, next, hsize, h⟩
termination_by 2 * (s.size + s.remaining) + 1

end

/-- Pulls a stream: what the pull brings, and the stream after it. -/
def pull [Source S] (d : Direction) (s : Stream S) : Outcome × Stream S :=
  let pulled := advance d s
  (pulled.outcome, pulled.next)

/-- What is seen of a side: what has been looked at, or else what a pull brings. -/
def seen [Source S] (d : Direction) (s : Stream S) : Head → Outcome × Stream S
  | some a => (.ok a, s)
  | none => s.pull d

theorem look_eq_seen [Source S] (d : Direction) (s : Stream S) (head : Head) :
    ((look d s head).outcome, (look d s head).next) = s.seen d head := by
  cases head with
  | none => rw [look]; rfl
  | some a => rw [look]; rfl

theorem pull_source [Source S] (d : Direction) (s : S) :
    (source s).pull d = ((Source.pull s).1, source (Source.pull s).2) := by
  simp [pull, advance]

/-- A merged stream looks at its left side and then, unless that decides, at its right side. What
it has seen stays where it is until it is taken; where heads are only dropped, it goes on. -/
theorem pull_merge [Source S] (d : Direction) (op : SetOp) (left right : Stream S)
    (leftHead rightHead : Head) :
    (merge op left leftHead right rightHead).pull d =
      match left.seen d leftHead with
      | (.error e, left) => (.error e, merge op left none right rightHead)
      | (.ok a, left) =>
        if op.endsWithLeft ∧ a = none then (.ok none, merge op left (some a) right rightHead)
        else match right.seen d rightHead with
          | (.error e, right) => (.error e, merge op left (some a) right none)
          | (.ok b, right) =>
            match op.move d a b with
            | .finish => (.ok none, merge op left (some a) right (some b))
            | .bring id takenLeft takenRight =>
              (.ok (some id),
                merge op left (Head.after takenLeft a) right (Head.after takenRight b))
            | .skip takenLeft takenRight =>
              (merge op left (Head.after takenLeft a) right (Head.after takenRight b)).pull d := by
  rw [← look_eq_seen, ← look_eq_seen]
  unfold pull
  rw [advance]
  rcases look d left leftHead with ⟨outcome, left', hsize, hleft⟩
  cases outcome with
  | error e => rfl
  | ok a =>
    dsimp only
    by_cases hend : op.endsWithLeft = true ∧ a = none
    · simp only [if_pos hend]
    · simp only [if_neg hend]
      rcases look d right rightHead with ⟨outcome, right', hsize', hright⟩
      cases outcome with
      | error e => rfl
      | ok b =>
        dsimp only
        split <;> rename_i hmove <;> simp only [hmove]

theorem remaining_pull [Source S] (d : Direction) (s : Stream S) :
    (s.pull d).2.remaining + (s.pull d).1.count ≤ s.remaining :=
  (advance d s).remaining_next

/-- Why the reading of a stream stopped. -/
inductive Stop where
  /-- The stream has ended. -/
  | ended
  /-- As many ids as were asked for have been read. -/
  | full
  | failed (e : RequestError)

/-- Reads at most `limit` ids: the ids, why the reading stopped, and the stream after it. -/
def take [Source S] (d : Direction) : Nat → Stream S → List UInt64 × Stop × Stream S
  | 0, s => ([], .full, s)
  | limit + 1, s =>
    match s.pull d with
    | (.error e, next) => ([], .failed e, next)
    | (.ok none, next) => ([], .ended, next)
    | (.ok (some id), next) =>
      let (ids, stop, last) := take d limit next
      (id :: ids, stop, last)

/-- Reads a stream to its end: the ids or the error that the reading stopped with, and the stream
after it. -/
def drain [Source S] (d : Direction) (s : Stream S) :
    Except RequestError (List UInt64) × Stream S :=
  match _hpull : s.pull d with
  | (.error e, next) => (.error e, next)
  | (.ok none, next) => (.ok [], next)
  | (.ok (some id), next) =>
    let (rest, last) := drain d next
    (rest.map (id :: ·), last)
termination_by s.remaining
decreasing_by
  have := remaining_pull d s
  rw [_hpull] at this
  exact this

end Stream

end EntityQuery
