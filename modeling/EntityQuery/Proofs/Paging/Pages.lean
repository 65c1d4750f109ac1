import EntityQuery.Proofs.Execution.Results
import EntityQuery.Proofs.Paging.Token

/-! # Reading the results of a plan page by page

A reading asks for one page after another. It starts without a token and hands the token of every
page to the next call, until a page has none. Between two calls the store may be replaced by any
other one. Each page holds the first of the results that lie behind the last id of the page before.

* `Executor.page_eq`: what one call gives.
* `Paging.Turns`: the ids of a reading, without calls and tokens.
* `Paging.Valid.turns_of_run`: every reading is one of these, and `Paging.Valid.exists_run`: there is
  a reading, since every page but the last moves on.
* `Paging.pages_lossless`: what the pages of a reading hold. -/

namespace EntityQuery

/-! ## One page -/

theorem Stream.Brings.pull_eq {S : Type} [Source S] {d : Direction} {s : Stream S}
    {l : List EntityId} (h : s.Brings d l) : (s.pull d).1 = .ok l.head? := by
  cases h with
  | ended hend => rw [hend]; rfl
  | next hnext _ => rw [hnext]; rfl

namespace Executor

theorem readPage_eq {page : ResolvedPage} {s : Stream Scan} {l : List EntityId}
    (h : s.Brings page.direction l) :
    (readPage page s).1 = .ok ⟨l.take page.limit, if l.length ≤ page.limit then none
      else (l.take page.limit).getLast?.map page.tokenAfter⟩ := by
  by_cases hshort : l.length < page.limit
  · obtain ⟨last, hlast⟩ := h.take_of_length_lt hshort
    simp only [readPage, hlast]
    rw [List.take_of_length_le (by omega), if_pos (by omega)]
  · obtain ⟨last, hlast, hbrings⟩ := h.take_of_le_length (Nat.not_lt.mp hshort)
    have hpull := hbrings.pull_eq
    rcases hnext : last.pull page.direction with ⟨result, rest⟩
    rw [hnext] at hpull
    obtain rfl : result = _ := hpull
    simp only [readPage, hlast, hnext]
    by_cases hall : l.length ≤ page.limit
    · rw [List.drop_eq_nil_of_le hall, if_pos hall]
      rfl
    · rw [if_neg hall, if_pos]
      rw [List.isSome_head?, ne_eq, List.drop_eq_nil_iff]
      exact hall

variable {x : Executor} {plan : Plan} {request : PageRequest} {resolved : ResolvedPage}

/-- **A page holds the first results behind the last id of the page before**, and a token if there
are more of them. -/
theorem page_eq (hserves : x.Serves plan.selector) (hselector : plan.selector.WellFormed)
    (hsort : plan.sort = []) (hresolve : request.resolve plan.digest x.limits = .ok resolved) :
    let l := x.store.selectAfter resolved.direction resolved.after plan.selector.finds
    (x.page plan request).1 = .ok ⟨l.take resolved.limit, if l.length ≤ resolved.limit then none
      else (l.take resolved.limit).getLast?.map resolved.tokenAfter⟩ := by
  intro l
  obtain ⟨s, hs, hbrings⟩ : ∃ s, x.stream resolved.direction resolved.after plan.selector = .ok s ∧
      s.Brings resolved.direction l := brings_stream hserves hselector
  simp only [page, hsort, List.isEmpty_nil, Bool.not_true, Bool.false_eq_true, if_false, hresolve,
    hs]
  exact readPage_eq hbrings

end Executor

/-! ## Readings -/

/-- A plan that is read page by page, while the store changes between the calls. -/
structure Paging where
  limits : QueryLimits
  hasGeoIndex : Bool
  plan : Plan
  direction : Direction
  /-- The store that is there when a call is made. -/
  stores : Nat → EntityStore
  /-- How many ids a call asks for. -/
  sizes : Nat → Nat

namespace Paging

variable {p : Paging} {k : Nat} {after : Option EntityId} {last id : EntityId}

/-- What is asked for can be answered: the plan is that of a query without terms to sort by, the
limits are positive, and the stores can be reached. -/
structure Valid (p : Paging) : Prop where
  compiled : ∃ catalog query, Plan.ofQuery catalog query = .ok p.plan
  unsorted : p.plan.sort = []
  maxLimit_pos : 1 ≤ p.limits.maxLimit
  scanPageSize_pos : 1 ≤ p.limits.scanPageSize
  sizes_pos : ∀ k, 1 ≤ p.sizes k
  available : ∀ k, (p.stores k).unavailable = false
  geo : p.hasGeoIndex = true ∨ p.plan.selector.isAreaFree = true

/-- One call. -/
def call (p : Paging) (k : Nat) (token : Option String) : Except RequestError Page :=
  (Executor.page ⟨p.stores k, p.limits, p.hasGeoIndex⟩ p.plan
    ⟨some (p.sizes k), token, p.direction⟩).1

/-- The calls from number `k` on, the first of them with the given token: each call has the token
of the page before, and the last page has none. -/
inductive Run (p : Paging) : Nat → Option String → List Page → Prop
  | last {k : Nat} {token : Option String} {page : Page} (hpage : p.call k token = .ok page)
    (hend : page.cursor = none) : Run p k token [page]
  | next {k : Nat} {token : Option String} {page : Page} {next : String} {pages : List Page}
    (hpage : p.call k token = .ok page) (hmore : page.cursor = some next)
    (hrest : Run p (k + 1) (some next) pages) : Run p k token (page :: pages)

/-- The limit of a page. -/
def size (p : Paging) (k : Nat) : Nat := min (p.sizes k) p.limits.maxLimit

/-- The results in the store of a call, from behind an id on. -/
def results (p : Paging) (k : Nat) (after : Option EntityId) : List EntityId :=
  (p.stores k).selectAfter p.direction after p.plan.selector.finds

/-- The token of a page that ended with an id. -/
def token (p : Paging) (last : EntityId) : String :=
  Cursor.token ⟨p.plan.digest, p.direction, last, none⟩

/-- The ids of the pages from call `k` on, the first of them behind a given id: a page is full and
the next one starts behind its last id, or it holds all that is left. -/
inductive Turns (p : Paging) : Nat → Option EntityId → List (List EntityId) → Prop
  | last {k : Nat} {after : Option EntityId} (hall : (p.results k after).length ≤ p.size k) :
    Turns p k after [p.results k after]
  | next {k : Nat} {after : Option EntityId} {last : EntityId} {rest : List (List EntityId)}
    (hmore : p.size k < (p.results k after).length)
    (hlast : ((p.results k after).take (p.size k)).getLast? = some last)
    (hrest : Turns p (k + 1) (some last) rest) :
    Turns p k after ((p.results k after).take (p.size k) :: rest)

theorem mem_results : id ∈ p.results k after ↔
    id ∈ (p.stores k).results p.direction p.plan.selector ∧
      p.direction.isAfter after id = true :=
  List.mem_filter

theorem pairwise_results : (p.results k after).Pairwise p.direction.Before :=
  EntityStore.pairwise_selectAfter ..

namespace Valid

variable (hp : p.Valid)
include hp

theorem size_pos (k : Nat) : 1 ≤ p.size k := by
  have := hp.sizes_pos k
  have := hp.maxLimit_pos
  unfold size
  omega

theorem call_eq (k : Nat) (after : Option EntityId) :
    p.call k (after.map p.token) = .ok ⟨(p.results k after).take (p.size k),
      if (p.results k after).length ≤ p.size k then none
      else ((p.results k after).take (p.size k)).getLast?.map p.token⟩ := by
  obtain ⟨catalog, query, hplan⟩ := hp.compiled
  let x : Executor := ⟨p.stores k, p.limits, p.hasGeoIndex⟩
  let request : PageRequest := ⟨some (p.sizes k), after.map p.token, p.direction⟩
  have hserves : x.Serves p.plan.selector := ⟨hp.available k, hp.scanPageSize_pos, hp.geo⟩
  have hsize : request.size x.limits ≠ 0 := Nat.ne_of_gt (hp.size_pos k)
  have hresolve : request.resolve p.plan.digest x.limits =
      .ok ⟨p.size k, p.direction, after, none, p.plan.digest⟩ := by
    cases after with
    | none => exact PageRequest.resolve_first hsize rfl
    | some last =>
      exact PageRequest.resolve_token (c := ⟨p.plan.digest, p.direction, last, none⟩) hsize rfl rfl
        (by simp)
  exact Executor.page_eq hserves (Plan.wellFormed_ofQuery hplan) hp.unsorted hresolve

/-- Of a page that is not the last, the next one starts behind its last id. -/
theorem exists_last {k : Nat} {after : Option EntityId}
    (hmore : p.size k < (p.results k after).length) :
    ∃ last, ((p.results k after).take (p.size k)).getLast? = some last := by
  have hne : (p.results k after).take (p.size k) ≠ [] := by
    have := hp.size_pos k
    rw [ne_eq, List.take_eq_nil_iff]
    rintro (hzero | hnil)
    · omega
    · simp [hnil] at hmore
  exact ⟨_, List.getLast?_eq_some_getLast hne⟩

/-- **Every reading turns its pages** as `Turns` says. -/
theorem turns_of_run {pages : List Page} {token : Option String} (hrun : p.Run k token pages)
    (after : Option EntityId) (htoken : token = after.map p.token) :
    p.Turns k after (pages.map Page.ids) := by
  induction hrun generalizing after with
  | @last k token page hpage hend =>
    rw [htoken, hp.call_eq] at hpage
    obtain rfl := Except.ok.inj hpage
    by_cases hall : (p.results k after).length ≤ p.size k
    · rw [List.map_singleton, List.take_of_length_le hall]
      exact .last hall
    · obtain ⟨last, hlast⟩ := hp.exists_last (Nat.not_le.mp hall)
      simp [hall, hlast] at hend
  | @next k token page next pages hpage hmore _ ih =>
    rw [htoken, hp.call_eq] at hpage
    obtain rfl := Except.ok.inj hpage
    by_cases hall : (p.results k after).length ≤ p.size k
    · simp [hall] at hmore
    · obtain ⟨last, hlast⟩ := hp.exists_last (Nat.not_le.mp hall)
      have hnext : p.token last = next := by simpa [hall, hlast] using hmore
      exact .next (Nat.not_le.mp hall) hlast (ih (some last) (by rw [← hnext]; rfl))

end Valid

/-! ### There is a reading -/

/-- How many ids may come behind a given one. -/
def room (d : Direction) : Option EntityId → Nat
  | none => UInt64.size
  | some id => if d.isDescending then id.toNat else UInt64.size - 1 - id.toNat

theorem room_lt {d : Direction} (hafter : d.isAfter after id = true) :
    room d (some id) < room d after := by
  have hid : id.toNat < UInt64.size := id.toNat_lt
  cases after with
  | none =>
    simp only [room]
    split
    · exact hid
    · omega
  | some a =>
    have ha : a.toNat < UInt64.size := a.toNat_lt
    rw [← Direction.before_iff_isAfter] at hafter
    cases d with
    | ascending =>
      have hlt : a < id := Std.compare_eq_lt.mp hafter
      have := UInt64.lt_iff_toNat_lt.mp hlt
      simp only [room, Direction.isDescending, Bool.false_eq_true, if_false]
      omega
    | descending =>
      have hlt : id < a := Std.compare_eq_gt.mp (Ordering.swap_eq_lt.mp hafter)
      exact UInt64.lt_iff_toNat_lt.mp hlt

theorem isAfter_of_getLast? {l : List EntityId} {n : Nat} (hl : l = p.results k after)
    (hlast : (l.take n).getLast? = some last) : p.direction.isAfter after last = true := by
  have hmem := List.mem_of_mem_take (List.mem_of_getLast? hlast)
  rw [hl] at hmem
  exact (mem_results.mp hmem).2

/-- **There is a reading** from any id on: a page that is not the last moves on, and there is a
greatest id. -/
theorem Valid.exists_run (hp : p.Valid) (k : Nat) (after : Option EntityId) :
    ∃ pages, p.Run k (after.map p.token) pages := by
  induction hn : room p.direction after using Nat.strongRecOn generalizing k after with
  | ind n ih =>
    have hcall := hp.call_eq k after
    by_cases hall : (p.results k after).length ≤ p.size k
    · rw [if_pos hall] at hcall
      exact ⟨_, .last hcall rfl⟩
    · obtain ⟨last, hlast⟩ := hp.exists_last (Nat.not_le.mp hall)
      rw [if_neg hall, hlast] at hcall
      have hlt := room_lt (isAfter_of_getLast? rfl hlast)
      rw [hn] at hlt
      obtain ⟨pages, hpages⟩ := ih _ hlt (k + 1) (some last) rfl
      exact ⟨_, .next hcall rfl hpages⟩

/-! ### What a reading holds -/

namespace Turns

variable {pages : List (List EntityId)}

theorem isAfter_of_mem (h : p.Turns k after pages) (hid : id ∈ pages.flatten) :
    p.direction.isAfter after id = true := by
  induction h with
  | last hall => 
    rw [List.flatten_singleton] at hid
    exact (mem_results.mp hid).2
  | next hmore hlast hrest ih =>
    rw [List.flatten_cons, List.mem_append] at hid
    rcases hid with hid | hid
    · exact (mem_results.mp (List.mem_of_mem_take hid)).2
    · exact Direction.isAfter_trans (isAfter_of_getLast? rfl hlast) (ih hid)

theorem pairwise (h : p.Turns k after pages) : pages.flatten.Pairwise p.direction.Before := by
  induction h with
  | last hall =>
    rw [List.flatten_singleton]
    exact pairwise_results
  | next hmore hlast hrest ih =>
    rw [List.flatten_cons]
    refine List.pairwise_append.mpr ⟨pairwise_results.take, ih, fun a ha b hb => ?_⟩
    exact Direction.before_of_getLast? pairwise_results.take hlast ha
      (Direction.before_iff_isAfter.mpr (hrest.isAfter_of_mem hb))

theorem mem_results_of_mem (h : p.Turns k after pages) {i : Nat} {ids : List EntityId}
    (hids : pages[i]? = some ids) (hid : id ∈ ids) :
    id ∈ (p.stores (k + i)).results p.direction p.plan.selector := by
  induction h generalizing i with
  | last hall =>
    rw [List.getElem?_singleton] at hids
    split_ifs at hids with hi
    obtain rfl := Option.some.inj hids
    rw [hi]
    exact (mem_results.mp hid).1
  | @next k after last rest hmore hlast hrest ih =>
    cases i with
    | zero =>
      obtain rfl : _ = ids := by simpa using hids
      exact (mem_results.mp (List.mem_of_mem_take hid)).1
    | succ i =>
      have hmem := ih (by simpa using hids)
      rwa [Nat.add_right_comm, Nat.add_assoc] at hmem

theorem mem_of_mem_results (h : p.Turns k after pages) (hafter : p.direction.isAfter after id = true)
    (hid : ∀ i < pages.length, id ∈ (p.stores (k + i)).results p.direction p.plan.selector) :
    id ∈ pages.flatten := by
  induction h with
  | last hall =>
    rw [List.flatten_singleton]
    exact mem_results.mpr ⟨hid 0 (by simp), hafter⟩
  | @next k after last rest hmore hlast hrest ih =>
    have hfirst : id ∈ p.results k after := mem_results.mpr ⟨hid 0 (by simp), hafter⟩
    rw [← List.take_append_drop (p.size k) (p.results k after),
      ← Direction.filter_isAfter_of_getLast? pairwise_results hlast, List.mem_append] at hfirst
    rw [List.flatten_cons, List.mem_append]
    refine hfirst.imp_right fun hbehind => ih (List.mem_filter.mp hbehind).2 fun i hi => ?_
    have := hid (i + 1) (by simpa using hi)
    rwa [Nat.add_assoc, Nat.add_comm 1 i]

theorem length_of_lt (h : p.Turns k after pages) {i : Nat} {ids : List EntityId}
    (hids : pages[i]? = some ids) (hlt : i + 1 < pages.length) : ids.length = p.size (k + i) := by
  induction h generalizing i with
  | last hall => simp at hlt
  | @next k after last rest hmore hlast hrest ih =>
    cases i with
    | zero =>
      obtain rfl : _ = ids := by simpa using hids
      exact List.length_take_of_le (Nat.le_of_lt hmore)
    | succ i =>
      have hlength := ih (by simpa using hids) (by simpa using hlt)
      rwa [Nat.add_right_comm, Nat.add_assoc] at hlength

section Unchanged

variable (hsame : ∀ k, (p.stores k).records = (p.stores 0).records)
include hsame

theorem results_eq (k k' : Nat) (after : Option EntityId) : p.results k after = p.results k' after :=
  EntityStore.selectAfter_congr ((hsame k).trans (hsame k').symm)

theorem results_some (hlast : ((p.results k after).take (p.size k)).getLast? = some last) :
    p.results (k + 1) (some last) = (p.results k after).drop (p.size k) := by
  rw [results_eq hsame (k + 1) k, ← Direction.filter_isAfter_of_getLast? pairwise_results hlast]
  unfold results EntityStore.selectAfter
  rw [List.filter_filter]
  refine List.filter_congr fun id _ => ?_
  rw [Bool.eq_iff_iff, Bool.and_eq_true]
  exact ⟨fun hid => ⟨hid, Direction.isAfter_trans (isAfter_of_getLast? rfl hlast) hid⟩, And.left⟩

theorem flatten_eq (h : p.Turns k after pages) : pages.flatten = p.results k after := by
  induction h with
  | last hall => exact List.flatten_singleton
  | next hmore hlast hrest ih =>
    rw [List.flatten_cons, ih, results_some hsame hlast, List.take_append_drop]

theorem length_eq {size : Nat} (hpos : 1 ≤ size) (hsize : ∀ k, p.size k = size)
    (h : p.Turns k after pages) :
    pages.length = max 1 (((p.results k after).length + (size - 1)) / size) := by
  induction h with
  | @last k after hall =>
    rw [hsize] at hall
    have : ((p.results k after).length + (size - 1)) / size ≤ 1 := by
      rw [Nat.div_le_iff_le_mul_add_pred (by omega)]
      omega
    rw [List.length_singleton]
    omega
  | @next k after last rest hmore hlast hrest ih =>
    rw [hsize] at hmore
    rw [List.length_cons, ih, results_some hsame hlast, List.length_drop, hsize]
    have hsplit : (p.results k after).length + (size - 1) =
        (p.results k after).length - size + (size - 1) + size := by omega
    have hrestPos : 0 < ((p.results k after).length - size + (size - 1)) / size :=
      Nat.div_pos (by omega) hpos
    rw [hsplit, Nat.add_div_right _ hpos]
    omega

end Unchanged

end Turns

namespace Valid

variable (hp : p.Valid) {pages : List Page} (hrun : p.Run 0 none pages)
include hp hrun

theorem pairwise_of_run : (pages.flatMap Page.ids).Pairwise p.direction.Before := by
  rw [List.flatMap_def]
  exact (hp.turns_of_run hrun none rfl).pairwise

theorem ids_of_run (hsame : ∀ k, (p.stores k).records = (p.stores 0).records) :
    pages.flatMap Page.ids = (p.stores 0).results p.direction p.plan.selector := by
  rw [List.flatMap_def, Turns.flatten_eq hsame (hp.turns_of_run hrun none rfl)]
  exact EntityStore.selectAfter_none

end Valid

/-- **The pages of a reading neither lose nor repeat a result, even while the store changes.** There
is a reading, and of each the following holds. Its ids come in the strict order of the scan. An id
on a page is a result in the store of that page, and what is a result in the stores of all pages is
on one of them. Every page but the last is full. If the store stays the same, the pages together
are the results, cut into pages of the size that is asked for if that stays the same, too. -/
theorem pages_lossless (p : Paging) (hp : p.Valid) :
    (∃ pages, p.Run 0 none pages) ∧
    ∀ pages, p.Run 0 none pages →
      (pages.flatMap Page.ids).Pairwise p.direction.Before ∧
      (∀ k page, pages[k]? = some page → ∀ id ∈ page.ids,
        id ∈ (p.stores k).results p.direction p.plan.selector) ∧
      (∀ id, (∀ k < pages.length, id ∈ (p.stores k).results p.direction p.plan.selector) →
        id ∈ pages.flatMap Page.ids) ∧
      (∀ k page, pages[k]? = some page → k + 1 < pages.length →
        page.ids.length = min (p.sizes k) p.limits.maxLimit) ∧
      ((∀ k, (p.stores k).records = (p.stores 0).records) →
        pages.flatMap Page.ids = (p.stores 0).results p.direction p.plan.selector ∧
        ∀ limit, (∀ k, p.sizes k = limit) →
          let size := min limit p.limits.maxLimit
          pages.length = max 1
            ((((p.stores 0).results p.direction p.plan.selector).length + (size - 1)) / size)) := by
  refine ⟨hp.exists_run 0 none, fun pages hrun => ?_⟩
  have hturns := hp.turns_of_run hrun none rfl
  have hget : ∀ {k : Nat} {page : Page}, pages[k]? = some page →
      (pages.map Page.ids)[k]? = some page.ids := by
    intro k page hpage
    rw [List.getElem?_map, hpage]
    rfl
  have hresults : p.results 0 none = (p.stores 0).results p.direction p.plan.selector :=
    EntityStore.selectAfter_none
  refine ⟨hp.pairwise_of_run hrun, ?_, ?_, ?_,
    fun hsame => ⟨hp.ids_of_run hrun hsame, fun limit hlimit => ?_⟩⟩
  · intro k page hpage id hid
    have hmem := hturns.mem_results_of_mem (hget hpage) hid
    rwa [Nat.zero_add] at hmem
  · intro id hid
    rw [List.flatMap_def]
    refine hturns.mem_of_mem_results rfl fun i hi => ?_
    rw [Nat.zero_add]
    exact hid i (by simpa using hi)
  · intro k page hpage hlt
    have hlength := hturns.length_of_lt (hget hpage) (by simpa using hlt)
    rwa [Nat.zero_add] at hlength
  · have hsize : ∀ k, p.size k = min limit p.limits.maxLimit := by
      intro k
      rw [size, hlimit k]
    have hpos := hp.size_pos 0
    rw [hsize] at hpos
    have hlength := Turns.length_eq hsame hpos hsize hturns
    rwa [hresults, List.length_map] at hlength

/-- A reading from the greatest id down, one id at a time, during which an entity is deleted and
another one is put in front. -/
theorem pages_deletion :
    let doc : Json := .object [("a", .number (.natural 5))]
    let full := (((EntityStore.empty 2).put 3 1 (.payload doc)).put 5 1 (.payload doc)).put 7 1
      (.payload doc)
    let p : Paging :=
      { limits := ⟨10, 1000, 1⟩, hasGeoIndex := false, direction := .descending
        plan := ⟨.slices (.single ⟨"a", some ⟨.int 2, true⟩, none, false⟩), .all, []⟩
        stores := fun k => if k = 0 then full else (full.put 5 2 .tombstone).put 9 3 (.payload doc)
        sizes := fun _ => 1 }
    p.Valid ∧ ∃ pages, p.Run 0 none pages ∧ 3 ∈ pages.flatMap Page.ids := by
  intro doc full p
  have hplan : Plan.ofText .everything "select * where a >= 2" = .ok p.plan := by decide +kernel
  have hvalid : p.Valid := by
    obtain ⟨query, -, hquery⟩ := bind_eq_ok_iff.mp hplan
    exact
      { compiled := ⟨_, query, mapError_eq_ok_iff.mp hquery⟩
        unsorted := rfl
        maxLimit_pos := by decide
        scanPageSize_pos := by decide
        sizes_pos := fun _ => Nat.le_refl 1
        available := fun k => by simp only [p]; split <;> rfl
        geo := .inr rfl }
  have hfinds : p.plan.selector.finds 3 doc = true := by decide +kernel
  have hheld : ∀ k, (p.stores k).Holds 3 doc := by
    intro k
    refine ⟨1, ?_⟩
    simp only [p]
    split <;> simp [full, EntityStore.get?_put]
  obtain ⟨⟨pages, hrun⟩, hall⟩ := pages_lossless p hvalid
  obtain ⟨-, -, hlossless, -⟩ := hall pages hrun
  exact ⟨hvalid, pages, hrun, hlossless 3 fun k _ =>
    EntityStore.mem_select.mpr ⟨doc, hheld k, hfinds⟩⟩

end Paging

end EntityQuery
