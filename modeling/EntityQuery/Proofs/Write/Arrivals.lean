import EntityQuery.Proofs.Stream.Scan
import Mathlib.Data.List.Pairwise

/-! # Writes that arrive in any order

A write reaches the store under a version of its own, and may be overtaken by a later one. Of all
that it has been given for an entity, the store keeps the latest, be it fields or the mark of a
deletion. So the order of arrival does not matter, as long as no two writes of one entity have the
same version; of two that do, the one that comes last would stay.

* `EntityStore.written`, `EntityStore.writtenAll`: the store after one write and after many.
* `EntityStore.given`: what a store has been given for an entity.
* `EntityStore.get?_writtenAll`: the store keeps what is latest of it.
* `EntityStore.writes_commute`: writes of different versions may come in any order. -/

namespace EntityQuery

/-! ## The latest of some records -/

namespace Record

/-- Which of two records stays, the first being held already: the one of the later version, and of
one version the second. -/
def overtakenBy (held new : Record) : Record := if new.version < held.version then held else new

/-- A record is among the given ones, and none of them is of a later version. -/
structure IsLatest (r : Record) (records : List Record) : Prop where
  mem : r ∈ records
  le : ∀ other ∈ records, other.version ≤ r.version

variable {r r' : Record} {records records' rest : List Record}

theorem isLatest_singleton (r : Record) : r.IsLatest [r] where
  mem := by simp
  le := by simp

theorem isLatest_overtakenBy (held new : Record) : (held.overtakenBy new).IsLatest [held, new] := by
  unfold overtakenBy
  split_ifs with hlt
  · exact ⟨by simp, by simpa using UInt64.le_of_lt hlt⟩
  · exact ⟨by simp, by simpa using UInt64.not_lt.mp hlt⟩

theorem overtakenBy_elim (held : Option Record) (new : Record) :
    (held.elim new (·.overtakenBy new)).overtakenBy new = held.elim new (·.overtakenBy new) := by
  cases held with
  | none => exact if_neg (UInt64.lt_irrefl _)
  | some held =>
    simp only [Option.elim_some, overtakenBy]
    split_ifs <;> simp_all

namespace IsLatest

theorem append (h : r.IsLatest records) (h' : r'.IsLatest (r :: rest)) :
    r'.IsLatest (records ++ rest) := by
  refine ⟨?_, fun other hother => ?_⟩
  · rcases List.mem_cons.mp h'.mem with rfl | hmem
    · exact List.mem_append_left _ h.mem
    · exact List.mem_append_right _ hmem
  · rcases List.mem_append.mp hother with hother | hother
    · exact UInt64.le_trans (h.le other hother) (h'.le r (by simp))
    · exact h'.le other (by simp [hother])

theorem of_perm (h : r.IsLatest records) (hperm : records.Perm records') : r.IsLatest records' where
  mem := hperm.mem_iff.mp h.mem
  le other hother := h.le other (hperm.mem_iff.mpr hother)

theorem unique (hversions : records.Pairwise fun a b => a.version ≠ b.version)
    (h : r.IsLatest records) (h' : r'.IsLatest records) : r = r' := by
  have : Std.Symm fun a b : Record => a.version ≠ b.version := ⟨fun _ _ => Ne.symm⟩
  by_contra hne
  exact hversions.forall h.mem h'.mem hne
    (UInt64.le_antisymm (h'.le r h.mem) (h.le r' h'.mem))

end IsLatest

end Record

/-! ## Writes -/

/-- A write as it reaches the store. -/
structure RecordWrite where
  id : EntityId
  version : Version
  body : RecordBody

def RecordWrite.record (w : RecordWrite) : Record := ⟨w.version, w.body⟩

namespace EntityStore

/-- The store after a write; one that fails leaves it as it was. -/
def written (s : EntityStore) (w : RecordWrite) : EntityStore :=
  match s.write w.id w.version w.body with
  | .ok s => s
  | .error _ => s

/-- The store after writes, in the order in which they arrive. -/
def writtenAll (s : EntityStore) (writes : List RecordWrite) : EntityStore :=
  writes.foldl written s

/-- **What a store has been given for an entity**: what it held at first, and what is written. -/
def given (s : EntityStore) (writes : List RecordWrite) (id : EntityId) : List Record :=
  (s.get? id).toList ++ (writes.filter (·.id = id)).map RecordWrite.record

variable {s : EntityStore} {w : RecordWrite} {writes : List RecordWrite} {id : EntityId}

/-! ### One write -/

/-- **What becomes of a write**: it fails, or it changes what is held of its entity and nothing
else. -/
theorem write_cases (s : EntityStore) (w : RecordWrite) :
    (s.unavailable = true ∧ s.write w.id w.version w.body = .error outage) ∨
      (s.unavailable = false ∧ ∃ t, s.write w.id w.version w.body = .ok t ∧
        t = { s with records := t.records } ∧
        ∀ id, t.get? id =
          if w.id = id then some ((s.get? id).elim w.record fun held => held.overtakenBy w.record)
          else s.get? id) := by
  by_cases havail : s.unavailable = true
  · exact .inl ⟨havail, if_pos havail⟩
  refine .inr ⟨Bool.eq_false_iff.mpr havail, ?_⟩
  have hput := fun id => s.get?_put w.id id w.version w.body
  unfold write
  rw [if_neg havail]
  cases hheld : s.get? w.id with
  | none =>
    refine ⟨_, rfl, rfl, fun id => ?_⟩
    rw [hput]
    by_cases hid : w.id = id
    · subst hid
      rw [if_pos rfl, if_pos rfl, hheld]
      rfl
    · rw [if_neg hid, if_neg hid]
  | some held =>
    by_cases hlt : w.version < held.version
    · have hstays : held.overtakenBy w.record = held := if_pos hlt
      refine ⟨s, if_pos hlt, rfl, fun id => ?_⟩
      by_cases hid : w.id = id
      · subst hid
        rw [if_pos rfl, hheld, Option.elim_some, hstays]
      · rw [if_neg hid]
    · have hgoes : held.overtakenBy w.record = w.record := if_neg hlt
      refine ⟨_, if_neg hlt, rfl, fun id => ?_⟩
      rw [hput]
      by_cases hid : w.id = id
      · subst hid
        rw [if_pos rfl, if_pos rfl, hheld, Option.elim_some, hgoes]
        rfl
      · rw [if_neg hid, if_neg hid]

theorem written_of_outage (h : s.unavailable = true) (w : RecordWrite) : s.written w = s := by
  rw [written, write, if_pos h]

theorem written_frame (s : EntityStore) (w : RecordWrite) :
    s.written w = { s with records := (s.written w).records } := by
  unfold written
  rcases s.write_cases w with ⟨-, hwrite⟩ | ⟨-, t, hwrite, ht, -⟩
  · rw [hwrite]
  · rw [hwrite]
    exact ht

theorem unavailable_written (s : EntityStore) (w : RecordWrite) :
    (s.written w).unavailable = s.unavailable := by rw [s.written_frame w]

theorem isOk_write (s : EntityStore) (w : RecordWrite) :
    (s.write w.id w.version w.body).isOk = !s.unavailable := by
  rcases s.write_cases w with ⟨havail, hwrite⟩ | ⟨havail, t, hwrite, -⟩
  · rw [hwrite, havail]
    rfl
  · rw [hwrite, havail]
    rfl

theorem get?_written (h : s.unavailable = false) (w : RecordWrite) (id : EntityId) :
    (s.written w).get? id = if w.id = id then
      some ((s.get? id).elim w.record fun held => held.overtakenBy w.record) else s.get? id := by
  rcases s.write_cases w with ⟨havail, -⟩ | ⟨-, t, hwrite, -, ht⟩
  · rw [h] at havail
    cases havail
  · rw [← ht id, written, hwrite]

theorem isLatest_written (h : s.unavailable = false) (w : RecordWrite) :
    ∃ r, (s.written w).get? w.id = some r ∧ r.IsLatest ((s.get? w.id).toList ++ [w.record]) := by
  refine ⟨_, by rw [get?_written h, if_pos rfl], ?_⟩
  cases s.get? w.id with
  | none => exact w.record.isLatest_singleton
  | some held => exact held.isLatest_overtakenBy w.record

theorem get?_written_of_ne (hid : w.id ≠ id) : (s.written w).get? id = s.get? id := by
  cases h : s.unavailable with
  | true => rw [written_of_outage h]
  | false => rw [get?_written h, if_neg hid]

/-! ### Many writes -/

theorem writtenAll_cons (s : EntityStore) (w : RecordWrite) (writes : List RecordWrite) :
    s.writtenAll (w :: writes) = (s.written w).writtenAll writes := rfl

theorem writtenAll_append (s : EntityStore) (writes later : List RecordWrite) :
    s.writtenAll (writes ++ later) = (s.writtenAll writes).writtenAll later := List.foldl_append

theorem writtenAll_frame (s : EntityStore) (writes : List RecordWrite) :
    s.writtenAll writes = { s with records := (s.writtenAll writes).records } := by
  induction writes generalizing s with
  | nil => rfl
  | cons w writes ih =>
    rw [writtenAll_cons, ih, s.written_frame w]

theorem unavailable_writtenAll (s : EntityStore) (writes : List RecordWrite) :
    (s.writtenAll writes).unavailable = s.unavailable := by rw [s.writtenAll_frame writes]

theorem writtenAll_of_outage (h : s.unavailable = true) (writes : List RecordWrite) :
    s.writtenAll writes = s := by
  induction writes with
  | nil => rfl
  | cons w writes ih => rw [writtenAll_cons, written_of_outage h, ih]

theorem get?_writtenAll_of_ne (hid : ∀ w ∈ writes, w.id ≠ id) :
    (s.writtenAll writes).get? id = s.get? id := by
  induction writes generalizing s with
  | nil => rfl
  | cons w writes ih =>
    rw [writtenAll_cons, ih fun v hv => hid v (by simp [hv]), get?_written_of_ne (hid w (by simp))]

/-- **The store keeps the latest of what it has been given**, and has nothing only where it has been
given nothing. -/
theorem get?_writtenAll (h : s.unavailable = false) (writes : List RecordWrite) (id : EntityId) :
    ((s.writtenAll writes).get? id = none ∧ s.given writes id = []) ∨
      ∃ r, (s.writtenAll writes).get? id = some r ∧ r.IsLatest (s.given writes id) := by
  induction writes generalizing s with
  | nil =>
    cases hheld : s.get? id with
    | none => exact .inl ⟨hheld, by simp [given, hheld]⟩
    | some held =>
      have hgiven : s.given [] id = [held] := by simp [given, hheld]
      exact .inr ⟨held, hheld, hgiven ▸ held.isLatest_singleton⟩
  | cons w writes ih =>
    rw [writtenAll_cons]
    have hrest := ih ((s.unavailable_written w).trans h)
    by_cases hid : w.id = id
    · subst hid
      -- what the first write leaves stands for all that had been given till then
      obtain ⟨r, hr, hlatest⟩ := isLatest_written h w
      have hnext : (s.written w).given writes w.id =
          r :: (writes.filter (·.id = w.id)).map RecordWrite.record := by simp [given, hr]
      have hgiven : s.given (w :: writes) w.id = ((s.get? w.id).toList ++ [w.record]) ++
          (writes.filter (·.id = w.id)).map RecordWrite.record := by simp [given]
      rw [hnext] at hrest
      rw [hgiven]
      rcases hrest with ⟨-, hnone⟩ | ⟨last, hlast, hlatest'⟩
      · cases hnone
      · exact .inr ⟨last, hlast, hlatest.append hlatest'⟩
    · have hgiven : s.given (w :: writes) id = (s.written w).given writes id := by
        simp [given, hid, get?_written_of_ne hid]
      rw [hgiven]
      exact hrest

theorem version_le_writtenAll {held : Record} (hheld : s.get? id = some held)
    (writes : List RecordWrite) :
    ∃ r, (s.writtenAll writes).get? id = some r ∧ held.version ≤ r.version := by
  cases h : s.unavailable with
  | true => exact ⟨held, by rw [writtenAll_of_outage h, hheld], UInt64.le_refl _⟩
  | false =>
    have hgiven : held ∈ s.given writes id := by simp [given, hheld]
    rcases get?_writtenAll h writes id with ⟨-, hnone⟩ | ⟨r, hr, hlatest⟩
    · rw [hnone] at hgiven
      cases hgiven
    · exact ⟨r, hr, hlatest.le held hgiven⟩

/-! ## Writes in another order -/

theorem given_perm {reordered : List RecordWrite} (hperm : reordered.Perm writes) (id : EntityId) :
    (s.given reordered id).Perm (s.given writes id) :=
  ((hperm.filter _).map _).append_left _

/-- What a store is given for an entity is of different versions, if the writes of it are and none
is of the version that is held. -/
theorem given_pairwise
    (hversions : writes.Pairwise fun a b => a.id = b.id → a.version ≠ b.version)
    (hheld : ∀ w ∈ writes, ∀ held, s.get? w.id = some held → held.version ≠ w.version)
    (id : EntityId) : (s.given writes id).Pairwise fun a b => a.version ≠ b.version := by
  refine List.pairwise_append.mpr ⟨?_, ?_, ?_⟩
  · cases s.get? id <;> simp
  · refine List.pairwise_map.mpr (List.pairwise_filter.mpr (hversions.imp ?_))
    intro a b hab ha hb
    have ha : a.id = id := by simpa using ha
    have hb : b.id = id := by simpa using hb
    exact hab (ha.trans hb.symm)
  · intro held hmem r hr
    obtain ⟨w, hw, rfl⟩ := List.mem_map.mp hr
    obtain ⟨hw, hid⟩ := List.mem_filter.mp hw
    have hid : w.id = id := by simpa using hid
    exact hheld w hw held (by simpa [hid] using hmem)

theorem eq_of_get? {t t' : EntityStore} (ht : t = { s with records := t.records })
    (ht' : t' = { s with records := t'.records }) (h : ∀ id, t.get? id = t'.get? id) : t = t' := by
  have hrecords : t.records = t'.records := Std.ExtTreeMap.ext_getElem? fun id => h id
  rw [ht, ht', hrecords]

theorem writtenAll_perm {reordered : List RecordWrite} (hperm : reordered.Perm writes)
    (hversions : writes.Pairwise fun a b => a.id = b.id → a.version ≠ b.version)
    (hheld : ∀ w ∈ writes, ∀ held, s.get? w.id = some held → held.version ≠ w.version) :
    s.writtenAll reordered = s.writtenAll writes := by
  cases h : s.unavailable with
  | true => rw [writtenAll_of_outage h, writtenAll_of_outage h]
  | false =>
    refine eq_of_get? (s.writtenAll_frame reordered) (s.writtenAll_frame writes) fun id => ?_
    have hgiven := given_perm (s := s) hperm id
    rcases get?_writtenAll h reordered id with ⟨hnone, hempty⟩ | ⟨r, hr, hlatest⟩
    · rcases get?_writtenAll h writes id with ⟨hnone', -⟩ | ⟨r', -, hlatest'⟩
      · rw [hnone, hnone']
      · rw [hempty] at hgiven
        exact absurd hlatest'.mem (by rw [hgiven.symm.eq_nil]; simp)
    · rcases get?_writtenAll h writes id with ⟨-, hempty'⟩ | ⟨r', hr', hlatest'⟩
      · rw [hempty'] at hgiven
        exact absurd hlatest.mem (by rw [hgiven.eq_nil]; simp)
      · have hdistinct := given_pairwise hversions hheld id
        rw [hr, hr', Record.IsLatest.unique hdistinct (hlatest.of_perm hgiven) hlatest']

/-- **Writes of different versions may come in any order.** They leave the same store: of each
entity that is written it holds the latest of its writes and of what was held at first, and of all
other entities what was held at first. Whatever the versions, each write succeeds if the store can
be reached at all, and the version that is held never goes back from one write to a later one; a
store that cannot be reached stays as it is. -/
theorem writes_commute {reordered : List RecordWrite} (hperm : reordered.Perm writes)
    (hversions : writes.Pairwise fun a b => a.id = b.id → a.version ≠ b.version)
    (hheld : ∀ w ∈ writes, ∀ held, s.get? w.id = some held → held.version ≠ w.version) :
    s.writtenAll reordered = s.writtenAll writes ∧
    (s.unavailable = false → ∀ w ∈ writes, ∃ r,
      (s.writtenAll reordered).get? w.id = some r ∧ r.IsLatest (s.given writes w.id)) ∧
    (s.unavailable = true → s.writtenAll reordered = s) ∧
    (∀ id, (∀ w ∈ writes, w.id ≠ id) → (s.writtenAll reordered).get? id = s.get? id) ∧
    ∀ early : List RecordWrite,
      (∀ w : RecordWrite, ((s.writtenAll early).write w.id w.version w.body).isOk =
        !s.unavailable) ∧
      ∀ later id held, (s.writtenAll early).get? id = some held →
        ∃ r, (s.writtenAll (early ++ later)).get? id = some r ∧ held.version ≤ r.version := by
  have hsame := writtenAll_perm hperm hversions hheld
  refine ⟨hsame, fun h w hw => ?_, fun h => writtenAll_of_outage h _, fun id hid => ?_,
    fun early => ⟨fun w => ?_, fun later id held hget => ?_⟩⟩
  · rw [hsame]
    rcases get?_writtenAll h writes w.id with ⟨-, hempty⟩ | hlatest
    · have hgiven : w.record ∈ s.given writes w.id :=
        List.mem_append_right _ (List.mem_map_of_mem (List.mem_filter.mpr ⟨hw, by simp⟩))
      rw [hempty] at hgiven
      cases hgiven
    · exact hlatest
  · rw [hsame, get?_writtenAll_of_ne hid]
  · rw [isOk_write, unavailable_writtenAll]
  · rw [writtenAll_append]
    exact version_le_writtenAll hget later

/-- Two writes of fields and a deletion between them come to a store that holds the entity, and a
deletion and fields of another entity. -/
theorem writes_commute_overtaken :
    let doc (n : UInt64) : Json := .object [("a", .number (.natural n))]
    let s := (EntityStore.empty 2).put 1 4 (.payload (doc 0))
    let writes : List RecordWrite :=
      [⟨1, 5, .payload (doc 1)⟩, ⟨1, 9, .tombstone⟩, ⟨1, 7, .payload (doc 2)⟩, ⟨2, 1, .tombstone⟩,
        ⟨2, 3, .payload (doc 3)⟩]
    s.writtenAll writes.reverse = s.writtenAll writes ∧
      (s.writtenAll writes.reverse).get? 1 = some ⟨9, .tombstone⟩ ∧
      (s.writtenAll writes.reverse).get? 2 = some ⟨3, .payload (doc 3)⟩ := by
  intro doc s writes
  have hversions : writes.Pairwise fun a b => a.id = b.id → a.version ≠ b.version := by
    simp [writes]
  have hfirst : s.get? 1 = some ⟨4, .payload (doc 0)⟩ := rfl
  have hother : s.get? 2 = none := rfl
  have hheld : ∀ w ∈ writes, ∀ held, s.get? w.id = some held → held.version ≠ w.version := by
    simp [writes, hfirst, hother]
  exact ⟨(writes_commute (List.reverse_perm writes) hversions hheld).1, rfl, rfl⟩

end EntityStore

end EntityQuery
