import EntityQuery.Proofs.Stream.Merge

/-! # What scans bring

Of a store that can be reached, a scan brings the ids that it goes through, however many of them
make up a page: each page starts behind the last id of the one before, and a page that is not full
is the last.

* `EntityStore.mem_selectAfter`: which ids a scan goes through.
* `Scan.brings`: a scan brings what is left of its page and then what comes behind it. -/

namespace EntityQuery

/-! ## The entities that a store selects -/

namespace EntityStore

variable {s : EntityStore} {d : Direction} {after : Option EntityId} {id : EntityId}
  {test : EntityId → Json → Bool}

/-- The store holds an entity that is there, with the given fields. -/
def Holds (s : EntityStore) (id : EntityId) (doc : Json) : Prop :=
  ∃ version, s.get? id = some ⟨version, .payload doc⟩

theorem get?_put (s : EntityStore) (id key : EntityId) (version : Version) (body : RecordBody) :
    (s.put id version body).get? key = if id = key then some ⟨version, body⟩ else s.get? key := by
  unfold put get?
  rw [Std.ExtTreeMap.getElem?_insert]
  simp

/-- The ids of the entities that pass a test, from behind a given id on. -/
def selectAfter (s : EntityStore) (d : Direction) (after : Option EntityId)
    (test : EntityId → Json → Bool) : List EntityId :=
  (s.select d test).filter (d.isAfter after)

theorem Holds.unique {doc doc' : Json} (h : s.Holds id doc) (h' : s.Holds id doc') : doc = doc' := by
  obtain ⟨version, h⟩ := h
  obtain ⟨version', h'⟩ := h'
  rw [h] at h'
  simp only [Option.some.injEq, Record.mk.injEq, RecordBody.payload.injEq] at h'
  exact h'.2

theorem mem_arrange {α : Type} {a : α} {l : List α} : a ∈ d.arrange l ↔ a ∈ l := by
  unfold Direction.arrange
  split
  · exact List.mem_reverse
  · exact Iff.rfl

theorem mem_select : id ∈ s.select d test ↔ ∃ doc, s.Holds id doc ∧ test id doc = true := by
  simp only [select, List.mem_filterMap, mem_arrange, Prod.exists]
  constructor
  · rintro ⟨key, ⟨version, body⟩, hmem, hid⟩
    rw [Std.ExtTreeMap.mem_toList_iff_getElem?_eq_some] at hmem
    cases body with
    | tombstone => simp at hid
    | payload doc =>
      by_cases htest : test key doc = true
      · simp only [htest, if_true, Option.some.injEq] at hid
        subst hid
        exact ⟨doc, ⟨version, hmem⟩, htest⟩
      · simp [htest] at hid
  · rintro ⟨doc, ⟨version, hheld⟩, htest⟩
    refine ⟨id, ⟨version, .payload doc⟩, ?_, by simp [htest]⟩
    rw [Std.ExtTreeMap.mem_toList_iff_getElem?_eq_some]
    exact hheld

theorem mem_selectAfter : id ∈ s.selectAfter d after test ↔
    (∃ doc, s.Holds id doc ∧ test id doc = true) ∧ d.isAfter after id = true := by
  rw [selectAfter, List.mem_filter, mem_select]

theorem pairwise_selectAfter (s : EntityStore) (d : Direction) (after : Option EntityId)
    (test : EntityId → Json → Bool) : (s.selectAfter d after test).Pairwise d.Before :=
  (s.pairwise_select d test).filter _

theorem selectAfter_none : s.selectAfter d none test = s.select d test :=
  List.filter_eq_self.mpr fun _ _ => rfl

theorem selectAfter_congr {s s' : EntityStore} (h : s.records = s'.records) :
    s.selectAfter d after test = s'.selectAfter d after test := by
  simp only [selectAfter, select, h]

end EntityStore

/-! ## Pulling a scan -/

namespace Scan

/-- What is left of a page, and what comes behind it. -/
def toCome (s : Scan) : List EntityId :=
  s.buffer ++ if s.exhausted then [] else s.target.idsAfter s.store s.after

theorem toCome_afterPage (s : Scan) (page buffer : List EntityId)
    (h : page = (s.target.idsAfter s.store s.after).take s.pageSize) :
    (s.afterPage page buffer).toCome =
      buffer ++ (s.target.idsAfter s.store s.after).drop s.pageSize := by
  have hlen := congrArg List.length h
  rw [List.length_take] at hlen
  unfold toCome afterPage
  by_cases hlast : page.length < s.pageSize
  · rw [List.drop_eq_nil_of_le (by omega)]
    simp [hlast]
  · congr 1
    simp only [hlast, decide_false, Bool.false_eq_true, if_false]
    cases hget : page.getLast? with
    | none =>
      obtain rfl := List.getLast?_eq_none_iff.mp hget
      have hsize : s.pageSize = 0 := by simpa using hlast
      rw [hsize]
      simp
    | some last =>
      rw [h] at hget
      exact ScanTarget.idsAfter_getLast hget

theorem toCome_pull (s : Scan) (havail : s.store.unavailable = false) (hsize : 0 < s.pageSize) :
    s.pull.1 = .ok s.toCome.head? ∧ s.pull.2.toCome = s.toCome.tail ∧
      s.pull.2.store = s.store ∧ s.pull.2.pageSize = s.pageSize := by
  have hpage : s.target.page s.store s.after s.pageSize =
      .ok ((s.target.idsAfter s.store s.after).take s.pageSize) := by
    simp [ScanTarget.page, havail]
  cases hbuffer : s.buffer with
  | cons id rest => simp [pull, toCome, hbuffer]
  | nil =>
    by_cases hmore : s.exhausted = true
    · simp [pull, toCome, hbuffer, hmore]
    · have hcome : s.toCome = s.target.idsAfter s.store s.after := by
        simp [toCome, hbuffer, hmore]
      have hsplit := List.take_append_drop s.pageSize (s.target.idsAfter s.store s.after)
      rw [← hcome] at hpage hsplit
      cases htake : s.toCome.take s.pageSize with
      | nil =>
        have hnil : s.toCome = [] := by
          rcases List.take_eq_nil_iff.mp htake with h | h
          · omega
          · exact h
        have hdrop := toCome_afterPage s [] [] (by rw [← hcome, htake])
        rw [htake] at hpage
        simp only [pull, hbuffer, hmore, hpage, Bool.false_eq_true, if_false, hdrop, ← hcome, hnil]
        exact ⟨rfl, by simp, rfl, rfl⟩
      | cons id rest =>
        have hdrop := toCome_afterPage s (id :: rest) rest (by rw [← hcome, htake])
        rw [htake] at hpage hsplit
        have hhead := congrArg List.head? hsplit
        have htail := congrArg List.tail hsplit
        simp only [pull, hbuffer, hmore, hpage, Bool.false_eq_true, if_false, hdrop, ← hcome]
        exact ⟨congrArg Except.ok hhead, htail, rfl, rfl⟩

/-- **A scan brings what is left of its page and what comes behind it.** -/
theorem brings (d : Direction) (s : Scan) (havail : s.store.unavailable = false)
    (hsize : 0 < s.pageSize) : (Stream.source s).Brings d s.toCome := by
  induction hl : s.toCome generalizing s with
  | nil =>
    have hpull := (toCome_pull s havail hsize).1
    rw [hl] at hpull
    exact .ended ((Stream.pull_source d s).trans (Prod.ext hpull rfl))
  | cons id rest ih =>
    obtain ⟨hpull, hnext, hstore, hpageSize⟩ := toCome_pull s havail hsize
    rw [hl] at hpull hnext
    exact .next ((Stream.pull_source d s).trans (Prod.ext hpull rfl))
      (ih s.pull.2 (by rw [hstore]; exact havail) (by rw [hpageSize]; exact hsize) hnext)

end Scan

end EntityQuery
