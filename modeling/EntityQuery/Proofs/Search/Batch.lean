import EntityQuery.Proofs.Search.Rows
import EntityQuery.Search.Basic

/-! # The batches of a search

A search takes in the rows behind a place batch by batch. The check of a batch drops rows from the
very index that is searched, and a page that is full leaves off in the middle of a batch.

What is carried through the batches is `Search.Reached`: the records so far and those that the store
will confirm behind the last row used up are together all that there are, and of the rows before
that one none is left that the store has outdated.

* `Search.Reached.advance`: what is reached when rows are used up.
* `Search.Reached.step`: what is reached when a batch is taken in.
* `Search.Reached.searchOn`: what a page comes to. -/

namespace EntityQuery

/-- The store has left the version of a row behind. -/
def Database.Outdates (db : Database) (row : RowKey × Json) : Prop :=
  db.store.Outdates row.1.id row.1.version

namespace Search

variable {q : Search} {start db db' : Database} {after : Option RowPosition}
  {done : List VerifiedRecord} {batch used left : List (RowKey × Json)} {row : RowKey × Json}
  {r : Reconciled}

/-- The record that the store confirms a row with. -/
def confirm? (q : Search) (start : Database) (row : RowKey × Json) : Option VerifiedRecord :=
  start.store.confirm? (q.candidate row)

theorem confirm?_eq_none (h : start.Outdates row) : q.confirm? start row = none := by
  have hnone : start.store.fieldsAt? row.1.id row.1.version = none := h.fieldsAt?_eq_none
  exact congrArg (Option.map _) hnone

open Classical in
theorem filterMap_confirm?_filter (l : List (RowKey × Json)) :
    (l.filter fun row => ¬ (row ∈ batch ∧ start.Outdates row)).filterMap (q.confirm? start) =
      l.filterMap (q.confirm? start) := by
  rw [List.filterMap_filter]
  refine List.filterMap_congr fun row _ => ?_
  split
  · rfl
  · rename_i hnot
    rw [decide_eq_true_iff, not_not] at hnot
    exact (confirm?_eq_none hnot.2).symm

/-! ## What has been reached -/

/-- How far a search has come, when `after` is the last row that it has used up and `done` are the
records so far: nothing is lost or to come twice, and only outdated rows of the search have been
dropped, among them all that have been used up. -/
structure Reached (q : Search) (start db : Database) (after : Option RowPosition)
    (done : List VerifiedRecord) : Prop where
  reachable : db.Reachable
  records : db.store.records = start.store.records
  within : Within db.index start.index
  dropped : ∀ key doc, start.index.Has key doc → ¬ db.index.Has key doc →
    q.Wants (key, doc) ∧ start.Outdates (key, doc)
  outdated : ∀ row ∈ q.rows db.index, start.Outdates row → q.behind after row = true
  place : ∀ place ∈ after, ∃ row ∈ start.index.rowsOf q.scope, q.place row = place
  accounted : done ++ (q.pending db.index after).filterMap (q.confirm? start) =
    (q.rows start.index).filterMap (q.confirm? start)

theorem pending_none (x : SearchIndex) : q.pending x none = q.rows x :=
  List.filter_eq_self.mpr fun _ _ => rfl

theorem reached_start (h : start.Reachable) : q.Reached start start none [] where
  reachable := h
  records := rfl
  within _ _ h := h
  dropped _ _ h hnot := absurd h hnot
  outdated _ _ _ := rfl
  place _ h := by cases h
  accounted := by rw [pending_none, List.nil_append]

/-- What the check of a batch of rows gives, and what it makes of the database. -/
structure Checked (q : Search) (start db : Database) (batch : List (RowKey × Json)) (r : Reconciled)
    (db' : Database) : Prop where
  confirmed : r.records = batch.filterMap (q.confirm? start)
  reachable : db'.Reachable
  records : db'.store.records = db.store.records
  rows : ∀ key doc, db'.index.Has key doc ↔
    db.index.Has key doc ∧ ¬ ((key, doc) ∈ batch ∧ start.Outdates (key, doc))

namespace Reached

theorem mem_rowsOf (h : q.Reached start db after done) (hrow : row ∈ q.pending db.index after) :
    row ∈ start.index.rowsOf q.scope :=
  h.within.mem_rowsOf (mem_rowsOf_of_mem_rows (List.mem_filter.mp hrow).1)

theorem pending_eq (hx : q.Exact start.index) (h : q.Reached start db after done)
    (hsplit : q.pending db.index after = used ++ left) :
    q.pending db.index ((used.getLast?.map q.place).or after) = left := by
  cases hlast : used.getLast? with
  | none =>
    obtain rfl := List.getLast?_eq_none_iff.mp hlast
    simpa using hsplit
  | some row =>
    obtain ⟨front, rfl⟩ := List.getLast?_eq_some_iff.mp hlast
    rw [List.append_assoc, List.singleton_append] at hsplit
    exact hx.pending_of_split h.within h.place hsplit

open Classical in
/-- Of a checked batch the outdated rows are no longer pending. -/
theorem pending_of_checked (hx : q.Exact start.index) (h : q.Reached start db after done)
    (hchecked : q.Checked start db batch r db') (place : Option RowPosition) :
    q.pending db'.index place = (q.pending db.index place).filter fun row =>
      ¬ (row ∈ batch ∧ start.Outdates row) := by
  have hrows : q.rows db'.index = (q.rows db.index).filter fun row =>
      ¬ (row ∈ batch ∧ start.Outdates row) :=
    hx.rows_eq_filter h.within fun key doc => by rw [hchecked.rows, decide_eq_true_iff]
  rw [pending, pending, hrows, List.filter_comm]

/-- **Rows are used up.** If a batch of pending rows has been checked, and the first pending rows
are used up, which are all of this batch, then the others are pending as far as they are left. -/
theorem advance (hx : q.Exact start.index) (h : q.Reached start db after done)
    (hchecked : q.Checked start db batch r db') (hbatch : batch ⊆ q.pending db.index after)
    (hsplit : q.pending db.index after = used ++ left) (hused : used ⊆ batch) :
    let after' := (used.getLast?.map q.place).or after
    q.Reached start db' after' (done ++ used.filterMap (q.confirm? start)) ∧
      (q.pending db'.index after').Sublist left := by
  intro after'
  have hleft : q.pending db.index after' = left := h.pending_eq hx hsplit
  have hpending := h.pending_of_checked hx hchecked after'
  rw [hleft] at hpending
  refine ⟨?_, hpending ▸ List.filter_sublist⟩
  exact
    { reachable := hchecked.reachable
      records := hchecked.records.trans h.records
      within := fun key doc hhas => h.within key doc ((hchecked.rows key doc).mp hhas).1
      dropped := by
        intro key doc hstart hnot
        by_cases hhas : db.index.Has key doc
        · rw [hchecked.rows, not_and, not_not] at hnot
          obtain ⟨hmem, houtdated⟩ := hnot hhas
          exact ⟨(mem_pending.mp (hbatch hmem)).1.2, houtdated⟩
        · exact h.dropped key doc hstart hhas
      outdated := by
        intro row hrow houtdated
        obtain ⟨hhas, hwants⟩ := mem_rows.mp hrow
        obtain ⟨hhas, hnot⟩ := (hchecked.rows row.1 row.2).mp hhas
        have hrow : row ∈ q.rows db.index := mem_rows.mpr ⟨hhas, hwants⟩
        have hmem : row ∈ used ++ left :=
          hsplit ▸ List.mem_filter.mpr ⟨hrow, h.outdated row hrow houtdated⟩
        rcases List.mem_append.mp hmem with hmem | hmem
        · exact absurd ⟨hused hmem, houtdated⟩ hnot
        · rw [← hleft] at hmem
          exact (List.mem_filter.mp hmem).2
      place := by
        intro place hplace
        cases hlast : used.getLast? with
        | none => exact h.place place (by simpa [after', hlast] using hplace)
        | some row =>
          have hmem : row ∈ used ++ left := List.mem_append_left _ (List.mem_of_getLast? hlast)
          refine ⟨row, h.mem_rowsOf (hsplit ▸ hmem), ?_⟩
          simpa [after', hlast] using hplace
      accounted := by
        rw [hpending, filterMap_confirm?_filter, List.append_assoc, ← List.filterMap_append,
          ← hsplit, h.accounted] }

theorem exists_reconcile (h : q.Reached start db after done)
    (hbatch : batch ⊆ q.pending db.index after) :
    ∃ r db', db.reconcile q.scope (batch.map q.candidate) = (.ok r, db') ∧
      q.Checked start db batch r db' := by
  obtain ⟨r, db', hreconcile, hr, hrecords, hreachable, hrows⟩ :=
    Database.exists_reconcile h.reachable q.scope (batch.map q.candidate)
  rw [List.filterMap_map, EntityStore.confirm?_congr h.records] at hr
  rw [EntityStore.outdates_congr h.records] at hrows
  refine ⟨r, db', hreconcile, ⟨hr, hreachable, hrecords, fun key doc => ?_⟩⟩
  rw [hrows]
  refine and_congr_right fun hhas => not_congr ⟨?_, ?_⟩
  · rintro ⟨hscope, houtdated, c, hc, hid, hversion⟩
    obtain ⟨row, hrow, rfl⟩ := List.mem_map.mp hc
    have hknown : (key, doc) ∈ start.index.rowsOf q.scope :=
      SearchIndex.mem_rowsOf.mpr ⟨h.within key doc hhas, hscope⟩
    obtain rfl : row = (key, doc) :=
      SearchIndex.eq_of_mem_rowsOf (h.mem_rowsOf (hbatch hrow)) hknown hid hversion
    exact ⟨hrow, houtdated⟩
  · rintro ⟨hrow, houtdated⟩
    have hscope := (SearchIndex.mem_rowsOf.mp (h.mem_rowsOf (hbatch hrow))).2
    exact ⟨hscope, houtdated, _, List.mem_map_of_mem hrow, rfl, rfl⟩

theorem rowOf?_eq (h : q.Reached start db after done) (hbatch : batch ⊆ q.pending db.index after)
    (hrow : row ∈ batch) {record : VerifiedRecord} (hrecord : q.confirm? start row = some record) :
    SearchState.rowOf? (batch.map q.candidate) record = some (q.place row) := by
  obtain ⟨fields, -, rfl⟩ := Option.map_eq_some_iff.mp hrecord
  have hfind : ∃ c, (batch.map q.candidate).find?
      (fun c => c.id = row.1.id ∧ c.version = row.1.version) = some c := by
    rw [← Option.isSome_iff_exists, List.find?_isSome]
    exact ⟨q.candidate row, List.mem_map_of_mem hrow, by simp [candidate]⟩
  obtain ⟨c, hc⟩ := hfind
  obtain ⟨other, hother, rfl⟩ := List.mem_map.mp (List.mem_of_find?_eq_some hc)
  have hfound := List.find?_some hc
  rw [decide_eq_true_iff] at hfound
  obtain ⟨hid, hversion⟩ := hfound
  obtain rfl : other = row := SearchIndex.eq_of_mem_rowsOf (h.mem_rowsOf (hbatch hother))
    (h.mem_rowsOf (hbatch hrow)) hid hversion
  exact congrArg (Option.map Candidate.position) hc

end Reached

/-! ## A batch, a page -/

theorem exists_split_of_length_lt {α β : Type} {f : α → Option β} {l : List α} {n : Nat}
    (hn : 0 < n) (h : n < (l.filterMap f).length) :
    ∃ front a b back, l = front ++ a :: back ∧ f a = some b ∧
      (front ++ [a]).filterMap f = (l.filterMap f).take n ∧
      ((l.filterMap f).take n).getLast? = some b := by
  induction l generalizing n with
  | nil => simp at h
  | cons a l ih =>
    cases ha : f a with
    | none =>
      rw [List.filterMap_cons_none ha] at h ⊢
      obtain ⟨front, c, b, back, rfl, hc, htake, hlast⟩ := ih hn h
      exact ⟨a :: front, c, b, back, rfl, hc, by
        rw [List.cons_append, List.filterMap_cons_none ha, htake], hlast⟩
    | some b =>
      rw [List.filterMap_cons_some ha] at h ⊢
      obtain ⟨n, rfl⟩ := Nat.exists_eq_add_of_le' hn
      rw [List.take_succ_cons]
      by_cases hzero : n = 0
      · subst hzero
        exact ⟨[], a, b, l, rfl, ha, by simp [ha], rfl⟩
      · obtain ⟨front, c, d, back, rfl, hc, htake, hlast⟩ :=
          ih (Nat.pos_of_ne_zero hzero) (Nat.lt_of_succ_lt_succ h)
        refine ⟨a :: front, c, d, back, rfl, hc, ?_, ?_⟩
        · rw [List.cons_append, List.filterMap_cons_some ha, htake]
        · rw [List.getLast?_cons, hlast]
          rfl

/-- How far a page has come: if it may go on, it has used up a row and there are fewer than `n` rows
pending, and else none is. -/
structure Settled (q : Search) (start : Database) (n : Nat) (db : Database)
    (done : List VerifiedRecord) (s : SearchState) : Prop where
  reached : q.Reached start db s.after (done ++ s.records)
  more : s.more = true → s.after.isSome ∧ (q.pending db.index s.after).length < n
  ended : s.more = false → q.pending db.index s.after = []

namespace Reached

variable {s : SearchState} {limit n : Nat}

/-- A page that is full leaves off at the row of its last record. -/
theorem settled_of_lt (hx : q.Exact start.index)
    (h : q.Reached start db s.after (done ++ s.records)) (hroom : s.records.length < limit)
    (hbatch : q.pending db.index s.after = batch ++ left)
    (hchecked : q.Checked start db batch r db')
    (hcut : limit - s.records.length < r.records.length) :
    q.Settled start (q.pending db.index s.after).length db' done
      (s.addBatch limit (batch.map q.candidate) r) := by
  have hr := hchecked.confirmed
  obtain ⟨front, row, record, back, hfront, hrecord, hkept, hlast⟩ :=
    exists_split_of_length_lt (by omega) (hr ▸ hcut)
  have hsub : batch ⊆ q.pending db.index s.after := hbatch ▸ List.subset_append_left ..
  have hrow : SearchState.rowOf? (batch.map q.candidate) record = some (q.place row) :=
    h.rowOf?_eq hsub (by simp [hfront]) hrecord
  have hstate : s.addBatch limit (batch.map q.candidate) r =
      { s with
        stats := s.stats.add r.stats
        candidatePages := s.candidatePages + 1
        records := s.records ++ (front ++ [row]).filterMap (q.confirm? start)
        after := some (q.place row)
        more := true } := by
    rw [← hr] at hkept hlast
    simp only [SearchState.addBatch, hcut, if_true, hkept, hlast, Option.bind_some, hrow,
      Option.some_or]
  have hsplit : q.pending db.index s.after = (front ++ [row]) ++ (back ++ left) := by
    rw [hbatch, hfront]
    simp
  obtain ⟨hreached, hleft⟩ := h.advance hx hchecked hsub hsplit (by simp [hfront])
  rw [List.getLast?_concat, Option.map_some, Option.some_or] at hreached hleft
  have hlength := congrArg List.length hsplit
  have hle := hleft.length_le
  rw [List.length_append, List.length_append, List.length_singleton] at hlength
  rw [hstate]
  refine { reached := ?_, more := fun _ => ⟨rfl, ?_⟩, ended := fun hend => by cases hend }
  · rwa [← List.append_assoc]
  · change (q.pending db'.index (some (q.place row))).length < _
    omega

/-- A page that has places for all records of a batch uses it up. -/
theorem settled_of_le (hx : q.Exact start.index)
    (h : q.Reached start db s.after (done ++ s.records)) (hroom : s.records.length < limit)
    (hbatch : batch = (q.pending db.index s.after).take limit)
    (hchecked : q.Checked start db batch r db')
    (hfit : ¬ limit - s.records.length < r.records.length) :
    q.Settled start (q.pending db.index s.after).length db' done
      (s.addBatch limit (batch.map q.candidate) r) := by
  have hstate : s.addBatch limit (batch.map q.candidate) r =
      { s with
        stats := s.stats.add r.stats
        candidatePages := s.candidatePages + 1
        records := s.records ++ batch.filterMap (q.confirm? start)
        after := (batch.getLast?.map q.place).or s.after
        more := batch.length == limit } := by
    rw [← hchecked.confirmed]
    simp only [SearchState.addBatch, hfit, if_false, List.getLast?_map, Option.map_map,
      List.length_map]
    rfl
  have hsplit : q.pending db.index s.after = batch ++ (q.pending db.index s.after).drop limit := by
    rw [hbatch, List.take_append_drop]
  obtain ⟨hreached, hleft⟩ := h.advance hx hchecked (hbatch ▸ List.take_subset ..) hsplit
    (List.Subset.refl _)
  have hlength : batch.length = min limit (q.pending db.index s.after).length := by
    rw [hbatch, List.length_take]
  have hle := hleft.length_le
  rw [List.length_drop] at hle
  rw [hstate]
  refine { reached := ?_, more := fun hmore => ⟨?_, ?_⟩, ended := fun hend => ?_ }
  · rwa [← List.append_assoc]
  · have hfull : batch.length = limit := beq_iff_eq.mp hmore
    have hne : batch ≠ [] := List.ne_nil_of_length_pos (by omega)
    rw [List.getLast?_eq_some_getLast hne]
    rfl
  · have hfull : batch.length = limit := beq_iff_eq.mp hmore
    change (q.pending db'.index ((batch.getLast?.map q.place).or s.after)).length < _
    omega
  · have hshort : batch.length ≠ limit := by simpa using hend
    refine List.eq_nil_of_length_eq_zero ?_
    change (q.pending db'.index ((batch.getLast?.map q.place).or s.after)).length = 0
    omega

/-- **A batch is taken in** if a page may go on. -/
theorem step (hx : q.Exact start.index) (h : q.Reached start db s.after (done ++ s.records))
    {page : ResolvedPage} (hdirection : page.direction = q.direction) (hmore : s.more = true)
    (hroom : s.records.length < page.limit) (budget : Nat) :
    ∃ s' db', Database.searchOn q.plan q.scope page (budget + 1) s db =
        Database.searchOn q.plan q.scope page budget s' db' ∧
      q.Settled start (q.pending db.index s.after).length db' done s' := by
  have hsearch := hx.search_eq h.within h.reachable.index s.after page.limit
  obtain ⟨r, db', hreconcile, hchecked⟩ := h.exists_reconcile (List.take_subset page.limit _)
  have hgo : ¬ (!s.more || page.limit ≤ s.records.length) = true := by simp [hmore, hroom]
  let batch := (q.pending db.index s.after).take page.limit
  refine ⟨s.addBatch page.limit (batch.map q.candidate) r, db', ?_, ?_⟩
  · rw [Database.searchOn, if_neg hgo, hdirection, hsearch]
    simp only [hreconcile]
    rfl
  · by_cases hcut : page.limit - s.records.length < r.records.length
    · exact h.settled_of_lt hx hroom (List.take_append_drop _ _).symm hchecked hcut
    · exact h.settled_of_le hx hroom rfl hchecked hcut

end Reached

/-- As long as a page may go on, it has fewer rows pending after every batch. -/
theorem Settled.searchOn (hx : q.Exact start.index) {n : Nat} {s : SearchState}
    (h : q.Settled start n db done s) {page : ResolvedPage}
    (hdirection : page.direction = q.direction) (budget : Nat) :
    ∃ s' db', Database.searchOn q.plan q.scope page budget s db = (.ok s', db') ∧
      q.Settled start n db' done s' := by
  induction budget generalizing s db with
  | zero => exact ⟨s, db, rfl, h⟩
  | succ budget ih =>
    by_cases hstop : (!s.more || page.limit ≤ s.records.length) = true
    · exact ⟨s, db, if_pos hstop, h⟩
    · obtain ⟨hmore, hroom⟩ : s.more = true ∧ s.records.length < page.limit := by simpa using hstop
      obtain ⟨next, db', hstep, hsettled⟩ := h.reached.step hx hdirection hmore hroom budget
      have hless := (h.more hmore).2
      have hnext : q.Settled start n db' done next :=
        { reached := hsettled.reached
          more := fun hmore => (hsettled.more hmore).imp_right (Nat.lt_trans · hless)
          ended := hsettled.ended }
      rw [hstep]
      exact ih hnext

/-- **A page** takes in a batch at least. -/
theorem Reached.searchOn (hx : q.Exact start.index) (h : q.Reached start db after done)
    {page : ResolvedPage} (hdirection : page.direction = q.direction) (hlimit : 0 < page.limit)
    {budget : Nat} (hbudget : 0 < budget) :
    ∃ s db', Database.searchOn q.plan q.scope page budget { after } db = (.ok s, db') ∧
      q.Settled start (q.pending db.index after).length db' done s := by
  obtain ⟨budget, rfl⟩ := Nat.exists_eq_add_of_le' hbudget
  let first : SearchState := { after }
  have hfirst : q.Reached start db first.after (done ++ first.records) := by rwa [List.append_nil]
  obtain ⟨s, db', hstep, hsettled⟩ := hfirst.step hx hdirection rfl hlimit budget
  rw [hstep]
  exact hsettled.searchOn hx hdirection budget

end Search

end EntityQuery
