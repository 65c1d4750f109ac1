import EntityQuery.Proofs.Stream.Interruptions
import Mathlib.Logic.Relation

/-! # The rounds of a pull

A pull of a merged stream goes in rounds. In a round each side is pulled once or left alone, and is
left with its head: what is seen of it stays where it is, or it is an id and taken. An end that has
been seen is never taken.

* `Stream.pull_map`: a stream brings the same over sources that bring the same.
* `Stream.Side`, `Stream.round_induction`: what a round does to a side, and induction along rounds.
* `Stream.Alike`: streams of one shape over sources that are related one by one.
* `Stream.alike_pull`, `Stream.alike_pull_union`: a pull changes the sources of a stream only by
  pulls, and those of a stream of unions by one pull at most. -/

namespace EntityQuery

/-! ## Moves on heads -/

namespace SetOp

variable {op : SetOp} {d : Direction} {a b : Option EntityId} {left right : Bool}

/-- A move that drops heads drops ids only: an end that has been seen is not taken. -/
theorem taken_of_skip (h : op.move d a b = .skip left right) :
    (a = none → left = false) ∧ (b = none → right = false) := by
  unfold move at h
  split at h
  · split at h <;> simp_all
  · split at h <;> simp at h
  · split at h <;> simp at h
  · simp at h

theorem taken_of_bring {id : EntityId} (h : op.move d a b = .bring id left right) :
    (a = none → left = false) ∧ (b = none → right = false) := by
  unfold move at h
  split at h
  · split at h <;> simp_all
  · split at h <;> simp_all
  · split at h <;> simp_all
  · simp at h

theorem ne_union_of_skip (h : op.move d a b = .skip left right) : op ≠ .union := by
  rintro rfl
  unfold move at h
  split at h
  · split at h <;> simp_all
  · simp at h
  · simp at h
  · simp at h

end SetOp

namespace Stream

/-! ## Streams over other sources -/

section Map

variable {S T : Type} [Source S] [Source T] {d : Direction} {f : S → T}

theorem seen_map {s : Stream S} (h : (s.map f).pull d = ((s.pull d).1, (s.pull d).2.map f))
    {head : Head} {outcome : Outcome} {next : Stream S} (hseen : s.seen d head = (outcome, next)) :
    (s.map f).seen d head = (outcome, next.map f) := by
  cases head with
  | none =>
    have hpull : s.pull d = (outcome, next) := hseen
    rw [hpull] at h
    exact h
  | some a =>
    cases hseen
    rfl

theorem pull_map (hf : ∀ s, Source.pull (f s) = ((Source.pull s).1, f (Source.pull s).2))
    (s : Stream S) : (s.map f).pull d = ((s.pull d).1, (s.pull d).2.map f) := by
  induction s using pull_induction (S := S) d with
  | source s => rw [map, pull_source, pull_source, hf, map]
  | merge op left leftHead right rightHead ihl ihr ih =>
    have hround := round_pull d op left right leftHead rightHead
    generalize (merge op left leftHead right rightHead).pull d = pulled at hround ⊢
    cases hround with
    | leftFailed hleft => exact (Round.leftFailed (seen_map ihl hleft)).pull_eq
    | leftEnded hleft hend => exact (Round.leftEnded (seen_map ihl hleft) hend).pull_eq
    | rightFailed hleft hgo hright =>
      exact (Round.rightFailed (seen_map ihl hleft) hgo (seen_map ihr hright)).pull_eq
    | finished hleft hgo hright hmove =>
      exact (Round.finished (seen_map ihl hleft) hgo (seen_map ihr hright) hmove).pull_eq
    | brought hleft hgo hright hmove =>
      exact (Round.brought (seen_map ihl hleft) hgo (seen_map ihr hright) hmove).pull_eq
    | skipped hleft hgo hright hmove =>
      have hround := Round.skipped (seen_map ihl hleft) hgo (seen_map ihr hright) hmove
      exact hround.pull_eq.trans (ih hleft hright hmove)

theorem after_map (hf : ∀ s, Source.pull (f s) = ((Source.pull s).1, f (Source.pull s).2))
    (s : Stream S) (n : Nat) : (s.map f).after d n = (s.after d n).map f := by
  induction n generalizing s with
  | zero => rfl
  | succ n ih => rw [after, after, pull_map hf, ih]

end Map

/-! ## What a round does to a side -/

section Sides

variable {S : Type} [Source S] {d : Direction}

/-- What becomes of a side and its head in a round of a pull. -/
inductive Side (d : Direction) (s : Stream S) (head : Head) : Stream S → Head → Prop
  /-- The side is not looked at. -/
  | unseen : Side d s head s head
  /-- The side fails, and nothing is seen. -/
  | failed {e : RequestError} {next : Stream S} (h : s.seen d head = (.error e, next)) :
    Side d s head next none
  /-- What is seen stays where it is. -/
  | kept {a : Option EntityId} {next : Stream S} (h : s.seen d head = (.ok a, next)) :
    Side d s head next (some a)
  /-- An id is seen and taken. -/
  | taken {id : EntityId} {next : Stream S} (h : s.seen d head = (.ok (some id), next)) :
    Side d s head next none

variable {s next : Stream S} {head head' : Head}

theorem Side.after {a : Option EntityId} {taken : Bool} (h : s.seen d head = (.ok a, next))
    (htaken : a = none → taken = false) : Side d s head next (Head.after taken a) := by
  cases taken with
  | false => exact .kept h
  | true =>
    cases a with
    | none => exact absurd (htaken rfl) (by decide)
    | some id => exact .taken h

theorem Side.eq_or (h : Side d s head next head') : next = s ∨ next = (s.pull d).2 := by
  have hseen : (s.seen d head).2 = s ∨ (s.seen d head).2 = (s.pull d).2 := by
    cases head with
    | none => exact .inr rfl
    | some a => exact .inl rfl
  cases h with
  | unseen => exact .inl rfl
  | failed h => rwa [h] at hseen
  | kept h => rwa [h] at hseen
  | taken h => rwa [h] at hseen

/-- **Induction along the rounds of a pull**: in a round each side is left alone or pulled, and is
left with its head; after that the pull is over, or it goes on with another round, which the pull of
a union never does. -/
theorem round_induction (d : Direction) {P : Stream S → Outcome × Stream S → Prop}
    (source : ∀ s, P (source s) ((Source.pull s).1, source (Source.pull s).2))
    (last : ∀ {op left leftHead right rightHead left' leftHead' right' rightHead'} {o : Outcome},
      P left (left.pull d) → P right (right.pull d) →
      Side d left leftHead left' leftHead' → Side d right rightHead right' rightHead' →
      P (merge op left leftHead right rightHead) (o, merge op left' leftHead' right' rightHead'))
    (again : ∀ {op left leftHead right rightHead left' leftHead' right' rightHead' pulled},
      op ≠ .union → P left (left.pull d) → P right (right.pull d) →
      Side d left leftHead left' leftHead' → Side d right rightHead right' rightHead' →
      P (merge op left' leftHead' right' rightHead') pulled →
      P (merge op left leftHead right rightHead) pulled)
    (s : Stream S) : P s (s.pull d) := by
  induction s using pull_induction (S := S) d with
  | source s =>
    rw [pull_source]
    exact source s
  | merge op left leftHead right rightHead ihl ihr ih =>
    have hround := round_pull d op left right leftHead rightHead
    generalize (merge op left leftHead right rightHead).pull d = pulled at hround ⊢
    cases hround with
    | leftFailed hleft => exact last ihl ihr (.failed hleft) .unseen
    | leftEnded hleft hend => exact last ihl ihr (.kept hleft) .unseen
    | rightFailed hleft hgo hright => exact last ihl ihr (.kept hleft) (.failed hright)
    | finished hleft hgo hright hmove => exact last ihl ihr (.kept hleft) (.kept hright)
    | brought hleft hgo hright hmove =>
      obtain ⟨ha, hb⟩ := SetOp.taken_of_bring hmove
      exact last ihl ihr (.after hleft ha) (.after hright hb)
    | skipped hleft hgo hright hmove =>
      obtain ⟨ha, hb⟩ := SetOp.taken_of_skip hmove
      exact again (SetOp.ne_union_of_skip hmove) ihl ihr (.after hleft ha) (.after hright hb)
        (ih hleft hright hmove)

end Sides

/-! ## The sources of a stream -/

/-- The operations that a stream is merged by, the outermost one first. -/
def operations {S : Type} : Stream S → List SetOp
  | source _ => []
  | merge op left _ right _ => op :: (left.operations ++ right.operations)

/-- Two streams of the same shape whose sources are related one by one, whatever has been looked
at. -/
inductive Alike {S T : Type} (R : S → T → Prop) : Stream S → Stream T → Prop
  | source {s : S} {t : T} (h : R s t) : Alike R (source s) (source t)
  | merge {op : SetOp} {left right : Stream S} {left' right' : Stream T}
    {leftHead rightHead leftHead' rightHead' : Head} (hleft : Alike R left left')
    (hright : Alike R right right') :
    Alike R (merge op left leftHead right rightHead) (merge op left' leftHead' right' rightHead')

theorem Alike.sources {S T : Type} {R : S → T → Prop} {s : Stream S} {t : Stream T}
    (h : Alike R s t) : List.Forall₂ R s.sources t.sources := by
  induction h with
  | source h => exact .cons h .nil
  | merge _ _ ihl ihr => exact List.rel_append ihl ihr

theorem Alike.operations {S T : Type} {R : S → T → Prop} {s : Stream S} {t : Stream T}
    (h : Alike R s t) : t.operations = s.operations := by
  induction h with
  | source h => rfl
  | merge _ _ ihl ihr => rw [Stream.operations, Stream.operations, ihl, ihr]

theorem Alike.refl {S : Type} {R : S → S → Prop} (hR : ∀ s, R s s) (s : Stream S) :
    Alike R s s := by
  induction s with
  | source s => exact .source (hR s)
  | merge op left leftHead right rightHead ihl ihr => exact .merge ihl ihr

theorem Alike.trans {S : Type} {R : S → S → Prop} (hR : ∀ {s t u}, R s t → R t u → R s u)
    {s t u : Stream S} (hst : Alike R s t) (htu : Alike R t u) : Alike R s u := by
  induction hst generalizing u with
  | source h =>
    cases htu with
    | source h' => exact .source (hR h h')
  | merge _ _ ihl ihr =>
    cases htu with
    | merge hleft hright => exact .merge (ihl hleft) (ihr hright)

end Stream

/-- The second source is the first one after some pulls. -/
def Source.Onward {S : Type} [Source S] : S → S → Prop :=
  Relation.ReflTransGen fun s t => t = (Source.pull s).2

namespace Stream

variable {S : Type} [Source S] {d : Direction}

theorem Alike.of_side {R : S → S → Prop} (hR : ∀ s, R s s) {s next : Stream S} {head head' : Head}
    (h : Alike R s (s.pull d).2) (hside : Side d s head next head') : Alike R s next := by
  rcases hside.eq_or with rfl | rfl
  · exact .refl hR _
  · exact h

/-- A pull of a stream keeps its shape and changes its sources only by pulls. -/
theorem alike_pull (d : Direction) (s : Stream S) : Alike Source.Onward s (s.pull d).2 := by
  have hrefl : ∀ s : S, Source.Onward s s := fun _ => .refl
  induction s using round_induction (S := S) d with
  | source s => exact .source (.single rfl)
  | last ihl ihr hleft hright => exact .merge (ihl.of_side hrefl hleft) (ihr.of_side hrefl hright)
  | again _ ihl ihr hleft hright ih =>
    refine Alike.trans Relation.ReflTransGen.trans (.merge ?_ ?_) ih
    · exact ihl.of_side hrefl hleft
    · exact ihr.of_side hrefl hright

theorem alike_after (d : Direction) (s : Stream S) (n : Nat) :
    Alike Source.Onward s (s.after d n) := by
  induction n generalizing s with
  | zero => exact .refl (fun _ => .refl) s
  | succ n ih => exact (alike_pull d s).trans Relation.ReflTransGen.trans (ih (s.pull d).2)

/-- A pull of a stream of unions is over after one round, so each source is pulled once or not at
all. -/
theorem alike_pull_union (d : Direction) (s : Stream S) : (∀ op ∈ s.operations, op = .union) →
    Alike (fun s t => t = s ∨ t = (Source.pull s).2) s (s.pull d).2 := by
  have hrefl : ∀ s : S, s = s ∨ s = (Source.pull s).2 := fun _ => .inl rfl
  induction s using round_induction (S := S) d with
  | source s => exact fun _ => .source (.inr rfl)
  | last ihl ihr hleft hright =>
    intro h
    simp only [operations, List.mem_cons, List.mem_append, forall_eq_or_imp] at h
    have hl := ihl fun op hop => h.2 op (.inl hop)
    have hr := ihr fun op hop => h.2 op (.inr hop)
    exact .merge (hl.of_side hrefl hleft) (hr.of_side hrefl hright)
  | again hop => exact fun h => absurd (h _ List.mem_cons_self) hop

end Stream

end EntityQuery
