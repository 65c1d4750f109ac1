import EntityQuery.Store.Entities
import EntityQuery.Stream.Basic

/-! # Scans as streams

A scan of a store is read a page at a time, when the last page has been used up. The next page
starts behind the last id of the one before, and a page that is not full is the last. Since the ids
of a scan come in strict order, what comes behind the last id of a page is what the page has left
over; so a scan ends. -/

namespace EntityQuery

/-- The first id comes strictly before the second one in the given direction. -/
def Direction.Before (d : Direction) (a b : EntityId) : Prop := d.orient (compare a b) = .lt

namespace Direction

theorem before_iff_isAfter {d : Direction} {a b : EntityId} :
    d.Before a b ↔ d.isAfter (some a) b = true := by
  unfold Before isAfter
  cases d
  · simp only [orient, Option.all_some, beq_iff_eq]
    exact ⟨Std.OrientedCmp.gt_of_lt, Std.OrientedCmp.lt_of_gt⟩
  · simp only [orient, Option.all_some, beq_iff_eq, Ordering.swap_eq_lt, Ordering.swap_eq_gt]
    exact ⟨Std.OrientedCmp.lt_of_gt, Std.OrientedCmp.gt_of_lt⟩

theorem not_before_self (d : Direction) (a : EntityId) : ¬ d.Before a a := by
  cases d <;> simp [Before, orient]

theorem Before.trans {d : Direction} {a b c : EntityId} (hab : d.Before a b)
    (hbc : d.Before b c) : d.Before a c := by
  cases d <;> simp only [Before, orient, Ordering.swap_eq_lt] at *
  · exact Std.TransCmp.lt_trans hab hbc
  · exact Std.TransCmp.gt_trans hab hbc

/-- What comes after the elements of a list in order is not before any of them. -/
theorem filter_isAfter_append {d : Direction} {front back : List EntityId} {last : EntityId}
    (h : (front ++ last :: back).Pairwise d.Before) :
    (front ++ last :: back).filter (d.isAfter (some last)) = back := by
  obtain ⟨-, hback, hfront⟩ := List.pairwise_append.1 h
  obtain ⟨hlast, -⟩ := List.pairwise_cons.1 hback
  rw [List.filter_append, List.filter_cons]
  have h1 : front.filter (d.isAfter (some last)) = [] := by
    refine List.filter_eq_nil_iff.2 fun a ha => ?_
    rw [← before_iff_isAfter]
    exact fun hla => d.not_before_self a ((hfront a ha last (by simp)).trans hla)
  have h2 : ¬ d.isAfter (some last) last = true := by
    rw [← before_iff_isAfter]; exact d.not_before_self last
  have h3 : back.filter (d.isAfter (some last)) = back :=
    List.filter_eq_self.2 fun a ha => before_iff_isAfter.1 (hlast a ha)
  rw [h1, if_neg h2, h3, List.nil_append]

/-- A list in ascending order is in strict order in the direction in which it is arranged. -/
theorem pairwise_arrange {α : Type} {d : Direction} {f : α → EntityId} {l : List α}
    (h : l.Pairwise fun a b => compare (f a) (f b) = .lt) :
    (d.arrange l).Pairwise fun a b => d.Before (f a) (f b) := by
  cases d
  · exact h
  · refine List.pairwise_reverse.2 (h.imp fun {a b} hab => ?_)
    simp only [Before, orient, Ordering.swap_eq_lt]
    exact Std.OrientedCmp.gt_of_lt hab

end Direction

/-- The entities that pass a test come in strict order. -/
theorem EntityStore.pairwise_select (s : EntityStore) (d : Direction)
    (test : EntityId → Json → Bool) : (s.select d test).Pairwise d.Before := by
  have h := d.pairwise_arrange (f := Prod.fst) (Std.ExtTreeMap.ordered_keys_toList (t := s.records))
  refine h.filterMap _ fun a b hab i hi j hj => ?_
  have hi' : i = a.1 := by grind
  have hj' : j = b.1 := by grind
  rw [hi', hj']
  exact hab

namespace ScanTarget

variable {t : ScanTarget} {s : EntityStore} {after : Option EntityId}

theorem pairwise_ids (t : ScanTarget) (s : EntityStore) : (t.ids s).Pairwise t.direction.Before :=
  s.pairwise_select ..

theorem pairwise_idsAfter (t : ScanTarget) (s : EntityStore) (after : Option EntityId) :
    (t.idsAfter s after).Pairwise t.direction.Before :=
  (t.pairwise_ids s).filter _

/-- Behind an id that a scan goes through comes what the scan goes through behind it. -/
theorem idsAfter_some {last : EntityId} (h : last ∈ t.idsAfter s after) :
    t.idsAfter s (some last) = (t.idsAfter s after).filter (t.direction.isAfter (some last)) := by
  unfold idsAfter at *
  rw [List.filter_filter]
  refine List.filter_congr fun id _ => ?_
  rw [Bool.eq_iff_iff, Bool.and_eq_true]
  refine ⟨fun hid => ⟨hid, ?_⟩, And.left⟩
  have hlast := (List.mem_filter.1 h).2
  cases after with
  | none => rfl
  | some a =>
    rw [← Direction.before_iff_isAfter] at *
    exact hlast.trans hid

/-- Behind the last id of a page comes what the page has left over. -/
theorem idsAfter_getLast {limit : Nat} {last : EntityId}
    (h : ((t.idsAfter s after).take limit).getLast? = some last) :
    t.idsAfter s (some last) = (t.idsAfter s after).drop limit := by
  obtain ⟨front, hfront⟩ := List.getLast?_eq_some_iff.1 h
  have hsplit : t.idsAfter s after = front ++ last :: (t.idsAfter s after).drop limit := by
    conv => lhs; rw [← List.take_append_drop limit (t.idsAfter s after), hfront]
    simp
  have hmem : last ∈ t.idsAfter s after := by rw [hsplit]; simp
  have hpair := t.pairwise_idsAfter s after
  rw [idsAfter_some hmem]
  rw [hsplit] at hpair
  conv => lhs; rw [hsplit]
  exact Direction.filter_isAfter_append hpair

end ScanTarget

/-- A scan that is being read. -/
structure Scan where
  store : EntityStore
  target : ScanTarget
  /-- The last id that has been read; the scan goes on behind it. -/
  after : Option EntityId
  pageSize : Nat
  /-- What is left of the last page. -/
  buffer : List EntityId := []
  /-- Whether the last page was the last of all. -/
  exhausted : Bool := false
  /-- How many pages have been read. -/
  pagesRead : Nat := 0

namespace Scan

/-- A bound on the number of ids still to come. -/
def remaining (s : Scan) : Nat :=
  s.buffer.length + if s.exhausted then 0 else (s.target.idsAfter s.store s.after).length

/-- The scan after a page has been read, of which `buffer` is still to be used. -/
def afterPage (s : Scan) (page buffer : List EntityId) : Scan :=
  { s with
    after := page.getLast?.or s.after
    buffer
    exhausted := decide (page.length < s.pageSize)
    pagesRead := s.pagesRead + 1 }

/-- Pulls a scan. -/
def pull (s : Scan) : Outcome × Scan :=
  match s.buffer with
  | id :: rest => (.ok (some id), { s with buffer := rest })
  | [] =>
    if s.exhausted then (.ok none, s)
    else match s.target.page s.store s.after s.pageSize with
      | .error e => (.error e, s)
      | .ok [] => (.ok none, s.afterPage [] [])
      | .ok (id :: rest) => (.ok (some id), s.afterPage (id :: rest) rest)

/-- What is still to come of a scan after a page has been read. -/
theorem remaining_afterPage (s : Scan) (page buffer : List EntityId)
    (h : page = (s.target.idsAfter s.store s.after).take s.pageSize) :
    remaining (s.afterPage page buffer) + page.length ≤
      buffer.length + (s.target.idsAfter s.store s.after).length := by
  have hlen := congrArg List.length h
  rw [List.length_take] at hlen
  cases hlast : page.getLast? with
  | none =>
    have : page = [] := List.getLast?_eq_none_iff.1 hlast
    simp only [remaining, afterPage, this, List.length_nil, List.getLast?_nil, Option.none_or]
    split <;> omega
  | some last =>
    rw [h] at hlast
    have hafter := congrArg List.length (ScanTarget.idsAfter_getLast hlast)
    rw [List.length_drop] at hafter
    rw [← h] at hlast
    simp only [remaining, afterPage, hlast, Option.some_or, decide_eq_true_eq]
    split <;> omega

/-- A scan whose page has been used up has what comes behind its last id. -/
theorem remaining_of_buffer_eq_nil {s : Scan} (h : s.buffer = []) (hmore : ¬ s.exhausted = true) :
    remaining s = (s.target.idsAfter s.store s.after).length := by
  rw [remaining, h, if_neg hmore, List.length_nil, Nat.zero_add]

/-- A page that a scan is given is the start of what comes behind its last id. -/
theorem eq_take_of_page {t : ScanTarget} {store : EntityStore} {after : Option EntityId}
    {limit : Nat} {page : List EntityId} (h : t.page store after limit = .ok page) :
    page = (t.idsAfter store after).take limit := by
  unfold ScanTarget.page at h
  split at h
  · cases h
  · exact (Except.ok.inj h).symm

theorem remaining_pull (s : Scan) :
    remaining (pull s).2 + Outcome.count (pull s).1 ≤ remaining s := by
  unfold pull
  split
  · rename_i id rest hbuffer
    simp only [remaining, hbuffer, Outcome.count, List.length_cons]
    omega
  · rename_i hbuffer
    split
    · exact Nat.le_refl _
    · rename_i hmore
      rw [remaining_of_buffer_eq_nil hbuffer hmore]
      split
      · exact Nat.le_of_eq (remaining_of_buffer_eq_nil hbuffer hmore)
      · rename_i h
        have := remaining_afterPage s [] [] (eq_take_of_page h)
        simp only [List.length_nil] at this
        simp only [Outcome.count]
        omega
      · rename_i id rest h
        have := remaining_afterPage s (id :: rest) rest (eq_take_of_page h)
        simp only [List.length_cons] at this
        simp only [Outcome.count]
        omega

instance : Source Scan where
  pull := pull
  remaining := remaining
  remaining_pull := remaining_pull

end Scan

end EntityQuery
