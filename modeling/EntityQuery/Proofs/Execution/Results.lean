import EntityQuery.Executor
import EntityQuery.Proofs.Plan.Shape
import EntityQuery.Proofs.Stream.Scan

/-! # The results of a selector

The stream of a selector is a tree of merges over scans of shards and areas. What it brings is said
without streams: the ids of the entities that the selector finds, in the order of the scan, from
behind the id at which it starts. To find an entity is to select it, except that a slice whose
bounds cross finds none, since it is not scanned.

* `EntityStore.merged_selectAfter`: the merge of two selections of a store is the selection by both
  tests together.
* `Executor.brings_streamOfSlice`: the shards of a slice are scanned apart and make up the slice.
* `Executor.brings_stream`: the stream of a well-formed selector brings its results.
* `Executor.collect_of_plan`: reading the stream of a query's plan to its end gives the results of
  the plan, whatever the shards and the pages of scans are; from behind an id it gives what the
  stream from the start gives behind that id. -/

namespace EntityQuery

/-! ## What a selector finds -/

/-- Whether the scans of a slice go through an entity. -/
def Slice.finds (s : Slice) (id : EntityId) (doc : Json) : Bool :=
  !s.isEmptyRange && s.selects id doc

/-- Whether all slices of a group find an entity. -/
def SliceGroup.finds (g : SliceGroup) (id : EntityId) (doc : Json) : Bool :=
  g.slices.all (·.finds id doc)

namespace Selector

/-- Whether a selector finds an entity: it is evaluated as `Selector.selects` is, except that slices
whose bounds cross find nothing. -/
def finds (s : Selector) (id : EntityId) (doc : Json) : Bool :=
  match s with
  | and left right => left.finds id doc && right.finds id doc
  | or left right => left.finds id doc || right.finds id doc
  | not subtract keep => keep.finds id doc && !subtract.finds id doc
  | slices group => group.finds id doc
  | within area => area.covers doc

/-- Whether a selector asks for no area. -/
def isAreaFree : Selector → Bool
  | and left right | or left right => left.isAreaFree && right.isAreaFree
  | not subtract _ => subtract.isAreaFree
  | slices _ => true
  | within _ => false

end Selector

theorem SliceGroup.finds_fullScan (id : EntityId) (doc : Json) : fullScan.finds id doc = true :=
  SliceGroup.selects_fullScan id doc

/-- The ids of the entities that a selector finds, in the given direction. -/
def EntityStore.results (s : EntityStore) (d : Direction) (selector : Selector) : List EntityId :=
  s.select d selector.finds

/-! ## Merges of selections -/

/-- An operation on sets, on tests. -/
def SetOp.test (op : SetOp) (p q : EntityId → Json → Bool) (id : EntityId) (doc : Json) : Bool :=
  match op with
  | intersection => p id doc && q id doc
  | union => p id doc || q id doc
  | difference => p id doc && !q id doc

theorem SetOp.foldl_union_test {α : Type} (test : α → EntityId → Json → Bool) (l : List α)
    (p : EntityId → Json → Bool) (id : EntityId) (doc : Json) :
    l.foldl (fun p a => union.test p (test a)) p id doc = (p id doc || l.any (test · id doc)) := by
  induction l generalizing p with
  | nil => simp
  | cons a l ih => simp [ih, SetOp.test, Bool.or_assoc]

theorem SetOp.foldl_intersection_test {α : Type} (test : α → EntityId → Json → Bool) (l : List α)
    (p : EntityId → Json → Bool) (id : EntityId) (doc : Json) :
    l.foldl (fun p a => intersection.test p (test a)) p id doc =
      (p id doc && l.all (test · id doc)) := by
  induction l generalizing p with
  | nil => simp
  | cons a l ih => simp [ih, SetOp.test, Bool.and_assoc]

namespace EntityStore

variable {s : EntityStore} {d : Direction} {after : Option EntityId}

/-- **The merge of two selections is a selection**, by both tests together. -/
theorem merged_selectAfter (op : SetOp) (p q : EntityId → Json → Bool) :
    op.merged d (s.selectAfter d after p) (s.selectAfter d after q) =
      s.selectAfter d after (op.test p q) := by
  have hp := s.pairwise_selectAfter d after p
  have hq := s.pairwise_selectAfter d after q
  refine Direction.eq_of_mem_iff (SetOp.pairwise_merged hp hq) (s.pairwise_selectAfter d after _)
    fun id => ?_
  rw [SetOp.mem_merged hp hq, mem_selectAfter, mem_selectAfter, mem_selectAfter]
  by_cases hheld : ∃ doc, s.Holds id doc
  · obtain ⟨doc, hdoc⟩ := hheld
    have hiff : ∀ r : EntityId → Json → Bool,
        (∃ doc', s.Holds id doc' ∧ r id doc' = true) ↔ r id doc = true := by
      intro r
      constructor
      · rintro ⟨doc', hdoc', hr⟩
        rwa [hdoc.unique hdoc']
      · exact fun hr => ⟨doc, hdoc, hr⟩
    rw [hiff p, hiff q, hiff (op.test p q)]
    cases op with
    | intersection => simp only [SetOp.Keeps, SetOp.test, Bool.and_eq_true]; tauto
    | union => simp only [SetOp.Keeps, SetOp.test, Bool.or_eq_true]; tauto
    | difference =>
      simp only [SetOp.Keeps, SetOp.test, Bool.and_eq_true, Bool.not_eq_true', ← Bool.not_eq_true]
      tauto
  · have hnone : ∀ r : EntityId → Json → Bool, ¬ ∃ doc', s.Holds id doc' ∧ r id doc' = true := by
      rintro r ⟨doc', hdoc', -⟩
      exact hheld ⟨doc', hdoc'⟩
    cases op <;> simp only [SetOp.Keeps, hnone, false_and, or_false]

theorem selectAfter_test_congr {p q : EntityId → Json → Bool}
    (h : ∀ id doc, p id doc = q id doc) : s.selectAfter d after p = s.selectAfter d after q := by
  rw [funext fun id => funext fun doc => h id doc]

/-- What a test makes of entities that are not there does not matter. -/
theorem selectAfter_congr_of_holds {p q : EntityId → Json → Bool}
    (h : ∀ id doc, s.Holds id doc → p id doc = q id doc) :
    s.selectAfter d after p = s.selectAfter d after q := by
  refine Direction.eq_of_mem_iff (s.pairwise_selectAfter d after p)
    (s.pairwise_selectAfter d after q) fun id => ?_
  rw [mem_selectAfter, mem_selectAfter]
  refine and_congr_left fun _ => exists_congr fun doc => and_congr_right fun hdoc => ?_
  rw [h id doc hdoc]

theorem selectAfter_false : s.selectAfter d after (fun _ _ => false) = [] := by
  refine List.eq_nil_iff_forall_not_mem.mpr fun id hid => ?_
  obtain ⟨⟨doc, -, hfalse⟩, -⟩ := mem_selectAfter.mp hid
  cases hfalse

end EntityStore

namespace Stream

variable {S : Type} [Source S] {d : Direction} {store : EntityStore} {after : Option EntityId}

section Fold

variable {α : Type} {test : α → EntityId → Json → Bool} {none : Stream S} {l : List α}
  {streams : List (Stream S)}

theorem brings_foldl (op : SetOp) {s : Stream S} {p : EntityId → Json → Bool}
    (hs : Brings d s (store.selectAfter d after p))
    (h : List.Forall₂ (fun a s => Brings d s (store.selectAfter d after (test a))) l streams) :
    Brings d (streams.foldl (combine op) s)
      (store.selectAfter d after (l.foldl (fun p a => op.test p (test a)) p)) := by
  induction h generalizing s p with
  | nil => exact hs
  | cons ha _ ih =>
    refine ih ?_
    rw [← EntityStore.merged_selectAfter]
    exact hs.combine op ha

theorem brings_union (hnone : Brings d none [])
    (h : List.Forall₂ (fun a s => Brings d s (store.selectAfter d after (test a))) l streams) :
    Brings d (combineAll .union none streams)
      (store.selectAfter d after fun id doc => l.any (test · id doc)) := by
  cases h with
  | nil =>
    rw [show (fun id doc => ([] : List α).any (test · id doc)) = fun _ _ => false from rfl,
      EntityStore.selectAfter_false]
    exact hnone
  | cons ha hrest =>
    have hbrings := brings_foldl .union ha hrest
    rw [EntityStore.selectAfter_test_congr (SetOp.foldl_union_test _ _ _)] at hbrings
    exact hbrings

theorem brings_intersection (hl : l ≠ [])
    (h : List.Forall₂ (fun a s => Brings d s (store.selectAfter d after (test a))) l streams) :
    Brings d (combineAll .intersection none streams)
      (store.selectAfter d after fun id doc => l.all (test · id doc)) := by
  cases h with
  | nil => exact absurd rfl hl
  | cons ha hrest =>
    have hbrings := brings_foldl .intersection ha hrest
    rw [EntityStore.selectAfter_test_congr (SetOp.foldl_intersection_test _ _ _)] at hbrings
    exact hbrings

end Fold

end Stream

/-! ## The stream of a selector -/

namespace Executor

variable {x : Executor} {d : Direction} {after : Option EntityId}

/-- An executor answers a selector when its store can be reached, pages of scans have a place for an
id, and areas are asked for only if there is an index of places. -/
structure Serves (x : Executor) (selector : Selector) : Prop where
  available : x.store.unavailable = false
  scanPageSize_pos : 0 < x.limits.scanPageSize
  geo : x.hasGeoIndex = true ∨ selector.isAreaFree = true

section Available

variable (havail : x.store.unavailable = false) (hsize : 0 < x.limits.scanPageSize)
include havail hsize

theorem brings_nothing (d : Direction) : x.nothing.Brings d [] := Scan.brings d _ havail hsize

theorem brings_scan (d : Direction) (after : Option EntityId) (target : ScanTarget) :
    (x.scan after target).Brings d (target.idsAfter x.store after) :=
  Scan.brings d _ havail hsize

/-- **The stream of a slice brings what the slice finds**: every id is in just one of the shards. -/
theorem brings_streamOfSlice (slice : Slice) :
    ∃ s, x.streamOfSlice d after slice = .ok s ∧
      s.Brings d (x.store.selectAfter d after slice.finds) := by
  by_cases hempty : slice.isEmptyRange = true
  · refine ⟨x.nothing, by simp [streamOfSlice, hempty], ?_⟩
    have hfinds : ∀ id doc, slice.finds id doc = false := by simp [Slice.finds, hempty]
    rw [EntityStore.selectAfter_test_congr hfinds, EntityStore.selectAfter_false]
    exact brings_nothing havail hsize d
  · let scanned : Slice := { slice with reversed := d.isDescending }
    have hdirection : ∀ shard, (ScanTarget.range shard scanned).direction = d := by
      intro shard
      cases d <;> rfl
    have hscans : List.Forall₂ (fun shard s => s.Brings d (x.store.selectAfter d after
          fun id doc => x.store.shardOf id == shard && scanned.selects id doc))
        (List.range x.store.shardCount)
        ((List.range x.store.shardCount).map fun shard =>
          x.scan after (.range shard scanned)) := by
      rw [List.forall₂_map_right_iff, List.forall₂_same]
      intro shard _
      have hscan := brings_scan havail hsize d after (.range shard scanned)
      unfold ScanTarget.idsAfter ScanTarget.ids at hscan
      rw [hdirection] at hscan
      exact hscan
    have hfinds : ∀ id doc, ((List.range x.store.shardCount).any fun shard =>
        x.store.shardOf id == shard && scanned.selects id doc) = slice.finds id doc := by
      intro id doc
      have hshard : x.store.shardOf id < x.store.shardCount :=
        Nat.mod_lt _ x.store.shardCount_pos
      have hselects : scanned.selects id doc = slice.selects id doc := rfl
      rw [Bool.eq_iff_iff, List.any_eq_true]
      simp only [hselects, Slice.finds, hempty, Bool.not_false, Bool.true_and, Bool.and_eq_true,
        beq_iff_eq, List.mem_range]
      constructor
      · rintro ⟨shard, -, -, hid⟩
        exact hid
      · exact fun hid => ⟨_, hshard, rfl, hid⟩
    refine ⟨_, by simp only [streamOfSlice, hempty, EntityStore.shards, havail]; rfl, ?_⟩
    rw [← EntityStore.selectAfter_test_congr hfinds]
    exact Stream.brings_union (brings_nothing havail hsize d) hscans

theorem brings_streamOfGroup {group : SliceGroup} (hgroup : group.slices ≠ []) :
    ∃ s, x.streamOfGroup d after group = .ok s ∧
      s.Brings d (x.store.selectAfter d after group.finds) := by
  have hslices : ∀ slice ∈ group.slices, ∃ s, x.streamOfSlice d after slice = .ok s ∧
      s.Brings d (x.store.selectAfter d after slice.finds) :=
    fun slice _ => brings_streamOfSlice havail hsize slice
  obtain ⟨streams, hstreams, hbrings⟩ := exists_mapM_eq_ok hslices
  refine ⟨.combineAll .intersection x.nothing streams, ?_, ?_⟩
  · simp only [streamOfGroup, hstreams]
    rfl
  · exact Stream.brings_intersection hgroup hbrings

end Available

/-- Two streams of selections are combined to the stream of a selection, unless one of them cannot
be opened. -/
theorem brings_combine {op : SetOp} {left right : Except RequestError (Stream Scan)}
    {p q test : EntityId → Json → Bool}
    (hleft : ∃ s, left = .ok s ∧ s.Brings d (x.store.selectAfter d after p))
    (hright : ∃ s, right = .ok s ∧ s.Brings d (x.store.selectAfter d after q))
    (htest : ∀ id doc, test id doc = op.test p q id doc) :
    ∃ s, (do return Stream.combine op (← left) (← right)) = .ok s ∧
      s.Brings d (x.store.selectAfter d after test) := by
  obtain ⟨l, rfl, hl⟩ := hleft
  obtain ⟨r, rfl, hr⟩ := hright
  refine ⟨.combine op l r, rfl, ?_⟩
  rw [EntityStore.selectAfter_test_congr htest, ← EntityStore.merged_selectAfter]
  exact hl.combine op hr

namespace Serves

variable {left right subtract : Selector} {keep : SliceGroup}

theorem of_and (h : x.Serves (.and left right)) : x.Serves left ∧ x.Serves right := by
  have hgeo := h.geo
  simp only [Selector.isAreaFree, Bool.and_eq_true] at hgeo
  exact ⟨⟨h.available, h.scanPageSize_pos, hgeo.imp_right And.left⟩,
    ⟨h.available, h.scanPageSize_pos, hgeo.imp_right And.right⟩⟩

theorem of_or (h : x.Serves (.or left right)) : x.Serves left ∧ x.Serves right :=
  of_and ⟨h.available, h.scanPageSize_pos, h.geo⟩

theorem of_not (h : x.Serves (.not subtract keep)) : x.Serves subtract :=
  ⟨h.available, h.scanPageSize_pos, h.geo⟩

end Serves

/-- **The stream of a well-formed selector brings its results.** -/
theorem brings_stream {selector : Selector} (hserves : x.Serves selector)
    (hselector : selector.WellFormed) :
    ∃ s, x.stream d after selector = .ok s ∧
      s.Brings d (x.store.selectAfter d after selector.finds) := by
  have havail := hserves.available
  have hsize := hserves.scanPageSize_pos
  fun_induction Executor.stream x d after selector with
  | case1 group =>
    have hgroup : group.WellFormed := hselector
    exact brings_streamOfGroup havail hsize hgroup.nonempty
  | case2 area hgeo => exact ⟨_, rfl, brings_scan havail hsize d after (.area area d)⟩
  | case3 area hgeo =>
    have := hserves.geo
    simp [hgeo, Selector.isAreaFree] at this
  | case4 left right ihl ihr =>
    exact brings_combine (ihl hserves.of_or.1 hselector.1)
      (ihr hserves.of_or.2 hselector.2) fun _ _ => rfl
  | case5 other subtract keep iho ihs =>
    obtain ⟨hother, hsubtract, rfl⟩ := hselector
    refine brings_combine (iho hserves.of_and.1 hother)
      (ihs hserves.of_and.2.of_not hsubtract) fun id doc => ?_
    simp [Selector.finds, SetOp.test, SliceGroup.finds_fullScan]
  | case6 subtract keep other _ iho ihs =>
    obtain ⟨⟨hsubtract, rfl⟩, hother⟩ := hselector
    refine brings_combine (iho hserves.of_and.2 hother)
      (ihs hserves.of_and.1.of_not hsubtract) fun id doc => ?_
    simp [Selector.finds, SetOp.test, SliceGroup.finds_fullScan, Bool.and_comm]
  | case7 left right _ _ ihl ihr =>
    exact brings_combine (ihl hserves.of_and.1 hselector.1)
      (ihr hserves.of_and.2 hselector.2) fun _ _ => rfl
  | case8 subtract keep ihs =>
    obtain ⟨hsubtract, rfl⟩ := hselector
    have hkeep : SliceGroup.fullScan.WellFormed := SliceGroup.wellFormed_single _
    exact brings_combine (brings_streamOfGroup havail hsize hkeep.nonempty)
      (ihs hserves.of_not hsubtract) fun _ _ => rfl

/-! ### Reading it to its end -/

/-- What is read off the stream of a selector, from its start or from behind an id. -/
def collect (x : Executor) (d : Direction) (after : Option EntityId) (selector : Selector) :
    Except RequestError (List EntityId) :=
  (x.stream d after selector).bind fun s => (s.drain d).1

theorem collect_eq {selector : Selector} (hserves : x.Serves selector)
    (hselector : selector.WellFormed) :
    x.collect d after selector = .ok (x.store.selectAfter d after selector.finds) := by
  obtain ⟨s, hs, hbrings⟩ := brings_stream hserves hselector (d := d)
  rw [collect, hs]
  exact hbrings.drain

end Executor

theorem filter_not_append_filter {α : Type} {R : α → α → Prop} {p : α → Bool} {l : List α}
    (hl : l.Pairwise R) (hp : ∀ a ∈ l, ∀ b ∈ l, R a b → p a = true → p b = true) :
    l.filter (!p ·) ++ l.filter p = l := by
  induction l with
  | nil => rfl
  | cons a l ih =>
    by_cases ha : p a = true
    · have hall : ∀ b ∈ a :: l, p b = true := by
        intro b hb
        rcases List.mem_cons.mp hb with rfl | hmem
        · exact ha
        · exact hp a (by simp) b hb (List.rel_of_pairwise_cons hl hmem) ha
      rw [List.filter_eq_self.mpr hall, List.filter_eq_nil_iff.mpr]
      · rfl
      · intro b hb
        simp [hall b hb]
    · rw [List.filter_cons_of_pos (by simpa using ha), List.filter_cons_of_neg (by simpa using ha),
        List.cons_append, ih hl.tail fun b hb c hc => hp b (by simp [hb]) c (by simp [hc])]

theorem Direction.filter_append_filter {d : Direction} {after : Option EntityId}
    {l : List EntityId} (hl : l.Pairwise d.Before) :
    l.filter (!d.isAfter after ·) ++ l.filter (d.isAfter after) = l :=
  filter_not_append_filter hl fun _ _ _ _ hab ha => isAfter_trans ha (before_iff_isAfter.mp hab)

/-- **Reading the stream of a plan to its end gives the results of the plan.** The stream ends after
its last id. It brings, each once and in the strict order of the scan, the ids of the entities that
are there, lie behind the id at which it starts and are found by the selector. Neither the count of
shards nor the size of pages of scans matters, and to start behind an id is to drop what comes up to
that id. -/
theorem Executor.collect_of_plan {catalog : Catalog} {text : String} {plan : Plan}
    (hplan : Plan.ofText catalog text = .ok plan) {x : Executor}
    (havail : x.store.unavailable = false) (hsize : 1 ≤ x.limits.scanPageSize)
    (hgeo : x.hasGeoIndex = true) (d : Direction) (after : Option EntityId) :
    ∃ ids : List EntityId,
      x.collect d after plan.selector = .ok ids ∧
      (∃ s last, x.stream d after plan.selector = .ok s ∧
        s.take d (ids.length + 1) = (ids, .ended, last)) ∧
      ids.Pairwise d.Before ∧
      (∀ id, id ∈ ids ↔
        (∃ version doc, x.store.get? id = some ⟨version, .payload doc⟩ ∧
          plan.selector.finds id doc = true) ∧ d.isAfter after id = true) ∧
      (∀ y : Executor, y.store.records = x.store.records → y.store.unavailable = false →
        1 ≤ y.limits.scanPageSize → y.hasGeoIndex = true →
        y.collect d after plan.selector = .ok ids) ∧
      ∃ earlier : List EntityId, x.collect d none plan.selector = .ok (earlier ++ ids) ∧
        ∀ id ∈ earlier, d.isAfter after id = false := by
  have hselector := Plan.wellFormed_ofText hplan
  have hserves : x.Serves plan.selector := ⟨havail, hsize, .inl hgeo⟩
  refine ⟨x.store.selectAfter d after plan.selector.finds, collect_eq hserves hselector, ?_,
    x.store.pairwise_selectAfter .., fun id => ?_, fun y hrecords hyavail hysize hygeo => ?_,
    (x.store.results d plan.selector).filter (!d.isAfter after ·), ?_, fun id hid => ?_⟩
  · obtain ⟨s, hs, hbrings⟩ := brings_stream hserves hselector (d := d)
    obtain ⟨last, hlast⟩ := hbrings.take_of_length_lt (Nat.lt_succ_self _)
    exact ⟨s, last, hs, hlast⟩
  · rw [EntityStore.mem_selectAfter]
    constructor
    · rintro ⟨⟨doc, ⟨version, hheld⟩, hfinds⟩, hafter⟩
      exact ⟨⟨version, doc, hheld, hfinds⟩, hafter⟩
    · rintro ⟨⟨version, doc, hheld, hfinds⟩, hafter⟩
      exact ⟨⟨doc, ⟨version, hheld⟩, hfinds⟩, hafter⟩
  · rw [← EntityStore.selectAfter_congr hrecords]
    exact collect_eq ⟨hyavail, hysize, .inl hygeo⟩ hselector
  · rw [collect_eq hserves hselector, EntityStore.selectAfter_none, EntityStore.selectAfter,
      EntityStore.results, Direction.filter_append_filter (x.store.pairwise_select ..)]
  · simpa using (List.mem_filter.mp hid).2

/-- The results of a plan with a complement, in a store of two shards that is scanned one id at a
time, from the greatest id down and behind the id 7. -/
theorem Executor.collect_difference :
    let plan : Plan := ⟨.and (.slices (.single ⟨"a", some ⟨.int 2, true⟩, none, false⟩))
      (.complement (.slices (.single ⟨"b", some ⟨.bool true, true⟩, some ⟨.bool true, true⟩, false⟩))),
      .all, []⟩
    let store := ((EntityStore.empty 2).put 3 1 (.payload (.object [("a", .number (.natural 5))]))).put
      7 1 .tombstone
    let x : Executor := ⟨store, ⟨10, 1000, 1⟩, true⟩
    Plan.ofText .everything "select * where a >= 2 and not b = true" = .ok plan ∧
    store.unavailable = false ∧ 1 ≤ x.limits.scanPageSize ∧ x.hasGeoIndex = true ∧
    ∃ ids : List EntityId,
      x.collect .descending (some 7) plan.selector = .ok ids ∧ ids.Pairwise Direction.descending.Before := by
  intro plan store x
  have hplan : Plan.ofText .everything "select * where a >= 2 and not b = true" = .ok plan := by
    decide +kernel
  obtain ⟨ids, hids, -, hpairwise, -⟩ := Executor.collect_of_plan hplan (x := x) rfl (by decide) rfl
    .descending (some 7)
  exact ⟨hplan, rfl, by decide, rfl, ids, hids, hpairwise⟩

end EntityQuery
