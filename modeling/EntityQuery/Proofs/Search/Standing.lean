import EntityQuery.Proofs.Repetitions
import EntityQuery.Proofs.Search.Confirm

/-! # How candidates stand to the store

A candidate stands to the store in one of four ways: the store holds its version, or nothing of its
entity, or an earlier version, or it has left the version behind by a later one or a deletion. The
check of candidates counts each of them under the way in which it stands, and the rows that it drops
are those of the last kind.

* `EntityStore.existsUnique_stands`: a candidate stands to the store in one way.
* `Reconciled.stale_staleRows`: the rows that are dropped, and their order.
* `Database.reconcile_exact`: what the check of candidates does, and when it fails. -/

namespace EntityQuery

/-- A way in which a candidate stands to the store. -/
inductive Standing where
  /-- The store holds its version. -/
  | current
  /-- The store holds nothing of its entity. -/
  | missing
  /-- The store has left its version behind. -/
  | stale
  /-- The store holds an earlier version. -/
  | ahead
  deriving DecidableEq

/-- How many candidates of a standing there were. -/
def ReconcileStats.count (s : ReconcileStats) : Standing → Nat
  | .current => s.accepted
  | .missing => s.missing
  | .stale => s.stale
  | .ahead => s.ahead

/-- The standing of a candidate of which this has become. -/
def Verdict.standing : Verdict → Standing
  | missing => .missing
  | stale => .stale
  | ahead => .ahead
  | accepted _ => .current

/-- The row of a candidate among those of its scope. -/
def Candidate.row (c : Candidate) : EntityId × Version := (c.id, c.version)

/-! ## Standings -/

namespace EntityStore

variable {s : EntityStore} {c : Candidate} {k : Standing}

/-- A candidate stands to the store in a way. -/
inductive Stands (s : EntityStore) (c : Candidate) : Standing → Prop
  | current {doc : Json} (h : s.get? c.id = some ⟨c.version, .payload doc⟩) : Stands s c .current
  | missing (h : s.get? c.id = none) : Stands s c .missing
  | stale (h : s.Outdates c.id c.version) : Stands s c .stale
  | ahead {held : Version} {doc : Json} (h : s.get? c.id = some ⟨held, .payload doc⟩)
    (hlt : held < c.version) : Stands s c .ahead

theorem stands_iff :
    s.Stands c k ↔ (Verdict.of (s.get? c.id) c.version).standing = k := by
  constructor
  · rintro (@⟨doc, h⟩ | h | h | @⟨held, doc, h, hlt⟩)
    · have hof : Verdict.of (s.get? c.id) c.version = .accepted doc :=
        Verdict.of_eq_accepted_iff.mpr (by simp [fieldsAt?, h])
      rw [hof]
      rfl
    · rw [h]
      rfl
    · rw [Verdict.of_eq_stale_iff.mpr h]
      rfl
    · have hnot : ¬ c.version < held := fun hgt => UInt64.lt_asymm hlt hgt
      simp [Verdict.of, h, hlt, hnot, Verdict.standing]
  · rintro rfl
    cases hheld : s.get? c.id with
    | none => exact .missing hheld
    | some held =>
      obtain ⟨version, doc | _⟩ := held
      · by_cases hlt : c.version < version
        · have hstale : s.Outdates c.id c.version := ⟨_, hheld, .inl hlt⟩
          rw [← hheld, Verdict.of_eq_stale_iff.mpr hstale]
          exact .stale hstale
        · by_cases hgt : version < c.version
          · simpa [Verdict.of, hlt, hgt, Verdict.standing] using Stands.ahead hheld hgt
          · obtain rfl : version = c.version :=
              UInt64.le_antisymm (UInt64.not_lt.mp hlt) (UInt64.not_lt.mp hgt)
            simpa [Verdict.of, Verdict.standing] using Stands.current hheld
      · exact .stale ⟨_, hheld, .inr rfl⟩

instance : Decidable (s.Stands c k) := decidable_of_iff _ stands_iff.symm

/-- **A candidate stands to the store in one way.** -/
theorem existsUnique_stands (s : EntityStore) (c : Candidate) : ∃! k, s.Stands c k :=
  ⟨_, stands_iff.mpr rfl, fun _ h => (stands_iff.mp h).symm⟩

theorem stands_stale_iff : s.Stands c .stale ↔ s.Outdates c.id c.version :=
  ⟨fun h => by cases h; assumption, .stale⟩

/-- The candidates of a standing. -/
def standing (s : EntityStore) (k : Standing) (candidates : List Candidate) : List Candidate :=
  candidates.filter (s.Stands · k)

theorem length_standing_cons (s : EntityStore) (k : Standing) (c : Candidate)
    (candidates : List Candidate) : (s.standing k (c :: candidates)).length =
      (if s.Stands c k then 1 else 0) + (s.standing k candidates).length := by
  unfold standing
  by_cases hc : s.Stands c k
  · simp [hc, Nat.add_comm]
  · simp [hc]

/-- Rows to drop are those of the stale candidates, each once and in the order in which they come
first among the candidates. -/
structure Stale (s : EntityStore) (candidates : List Candidate) (rows : List (EntityId × Version)) :
    Prop where
  mem_iff : ∀ row, row ∈ rows ↔ row ∈ (s.standing .stale candidates).map Candidate.row
  nodup : rows.Nodup
  ordered : rows.Pairwise fun a b =>
    (candidates.map Candidate.row).idxOf a < (candidates.map Candidate.row).idxOf b

theorem Stale.eq_nil_iff {candidates : List Candidate} {rows : List (EntityId × Version)}
    (h : s.Stale candidates rows) : rows = [] ↔ s.standing .stale candidates = [] := by
  have hmap : (s.standing .stale candidates).map Candidate.row = [] ↔
      s.standing .stale candidates = [] := List.map_eq_nil_iff
  rw [← hmap, List.eq_nil_iff_forall_not_mem, List.eq_nil_iff_forall_not_mem]
  exact forall_congr' fun row => not_congr (h.mem_iff row)

end EntityStore

namespace ReconcileStats

theorem count_add (a b : ReconcileStats) (k : Standing) :
    (a.add b).count k = a.count k + b.count k := by
  cases k <;> rfl

theorem count_stats (v : Verdict) (k : Standing) :
    v.stats.count k = if v.standing = k then 1 else 0 := by
  cases v <;> cases k <;> rfl

end ReconcileStats

namespace Reconciled

variable {s : EntityStore} {held : List (EntityId × Record)} {candidates : List Candidate}
  (hlookup : ∀ c ∈ candidates, held.lookup c.id = s.get? c.id)
include hlookup

/-- **Each candidate is counted** under its standing. -/
theorem count_ofCandidates (k : Standing) :
    (ofCandidates held candidates).stats.count k = (s.standing k candidates).length := by
  let step (stats : ReconcileStats) (c : Candidate) : ReconcileStats :=
    stats.add (Verdict.of (held.lookup c.id) c.version).stats
  have hfoldl : ∀ stats : ReconcileStats, (candidates.foldl step stats).count k =
      stats.count k + (s.standing k candidates).length := by
    induction candidates with
    | nil => exact fun _ => rfl
    | cons c candidates ih =>
      intro stats
      have hrest := ih fun c hc => hlookup c (List.mem_cons_of_mem _ hc)
      have hstep : (step stats c).count k = stats.count k + if s.Stands c k then 1 else 0 := by
        rw [ReconcileStats.count_add, ReconcileStats.count_stats, hlookup c List.mem_cons_self]
        simp only [EntityStore.stands_iff]
      rw [List.foldl_cons, hrest, hstep, EntityStore.length_standing_cons, Nat.add_assoc]
  have hzero : (ReconcileStats.count {} k : Nat) = 0 := by cases k <;> rfl
  have := hfoldl {}
  rwa [hzero, Nat.zero_add] at this

/-- **The rows to drop** are those of the stale candidates. -/
theorem stale_staleRows : s.Stale candidates (staleRows held candidates) := by
  let keep (row : EntityId × Version) : Bool := s.Stands ⟨row.1, row.2, none, []⟩ .stale
  have hkeep : ∀ c, s.Stands c .stale ↔ keep c.row = true := fun c => by
    simp only [keep, decide_eq_true_iff, EntityStore.stands_stale_iff, Candidate.row]
  have hrows : staleRows held candidates =
      ((candidates.map Candidate.row).filter keep).eraseDups := by
    rw [staleRows, List.filter_map, ← List.filterMap_eq_map, List.filterMap_filter]
    congr 1
    refine List.filterMap_congr fun c hc => ?_
    simp only [Function.comp_apply, ← hkeep, EntityStore.stands_iff, hlookup c hc]
    cases Verdict.of (s.get? c.id) c.version <;> rfl
  have hordered : (staleRows held candidates).Pairwise fun a b =>
      (candidates.map Candidate.row).idxOf a < (candidates.map Candidate.row).idxOf b := by
    rw [hrows]
    refine (pairwise_eraseDups _).imp_of_mem fun _ hb hlt => ?_
    exact idxOf_lt_of_filter (List.mem_filter.mp (List.mem_eraseDups.mp hb)).2 hlt
  refine ⟨fun row => ?_, hordered.imp fun hlt heq => ?_, hordered⟩
  · rw [hrows, List.mem_eraseDups, List.filter_map, EntityStore.standing]
    simp only [List.mem_map, List.mem_filter, Function.comp_apply, decide_eq_true_iff, hkeep]
  · rw [heq] at hlt
    omega

end Reconciled

/-! ## The check -/

namespace Database

/-- The parts that the check of candidates needs can be reached: the store, if there are any
candidates, and the index, if there is a stale one. -/
def Serves (db : Database) (candidates : List Candidate) : Prop :=
  candidates = [] ∨ db.store.unavailable = false ∧
    (db.store.standing .stale candidates = [] ∨ db.index.unavailable = false)

/-- What the check of candidates gives, and what it makes of the database. -/
structure Reconciles (db : Database) (scope : Scope) (candidates : List Candidate) (r : Reconciled)
    (db' : Database) : Prop where
  /-- A candidate at the version that the store holds gives a record with the fields that the store
  holds; the others give none. -/
  records : r.records = candidates.filterMap db.store.confirm?
  standing : ∀ c ∈ candidates, ∃! k, db.store.Stands c k
  counts : ∀ k, r.stats.count k = (db.store.standing k candidates).length
  total : r.stats.accepted + r.stats.missing + r.stats.stale + r.stats.ahead = candidates.length
  /-- There is one batch of rows to drop, or none if no candidate is stale. -/
  batch : ∃ rows, db.store.Stale candidates rows ∧
    db'.index.batches = if rows = [] then db.index.batches else db.index.batches ++ [rows]
  rows : ∀ key doc, db'.index.Has key doc ↔ db.index.Has key doc ∧ ¬ (key.scope = scope ∧
    (key.id, key.version) ∈ (db.store.standing .stale candidates).map Candidate.row)
  unavailable : db'.index.unavailable = db.index.unavailable
  /-- The store has served one batch of records, or none if there are no candidates. -/
  store : db'.store = if candidates = [] then db.store else db.store.loaded
  clock : db'.clock = db.clock

variable {db : Database} {candidates : List Candidate}

theorem length_standings (s : EntityStore) (candidates : List Candidate) :
    (s.standing .current candidates).length + (s.standing .missing candidates).length +
      (s.standing .stale candidates).length + (s.standing .ahead candidates).length =
      candidates.length := by
  induction candidates with
  | nil => rfl
  | cons c candidates ih =>
    obtain ⟨k, hk, hunique⟩ := s.existsUnique_stands c
    have hstands : ∀ k', s.Stands c k' ↔ k' = k := fun k' => ⟨hunique k', fun h => h ▸ hk⟩
    simp only [EntityStore.length_standing_cons, hstands, List.length_cons]
    cases k <;> simp <;> omega

theorem reconciles_of_eq {scope : Scope} (held : List (EntityId × Record)) {db' : Database}
    (hheld : ∀ c ∈ candidates, held.lookup c.id = db.store.get? c.id)
    (hstore : db'.store = if candidates = [] then db.store else db.store.loaded)
    (hclock : db'.clock = db.clock)
    (hindex : db'.index = if Reconciled.staleRows held candidates = [] then db.index
      else db.index.dropped scope (Reconciled.staleRows held candidates)) :
    db.Reconciles scope candidates (.ofCandidates held candidates) db' := by
  have hstale := Reconciled.stale_staleRows hheld
  have hcount := Reconciled.count_ofCandidates hheld
  refine
    { records := Reconciled.records_ofCandidates hheld
      standing := fun c _ => db.store.existsUnique_stands c
      counts := hcount
      total := ?_
      batch := ⟨_, hstale, ?_⟩
      rows := fun key doc => ?_
      unavailable := ?_
      store := hstore
      clock := hclock }
  · rw [← length_standings db.store candidates, ← hcount, ← hcount, ← hcount, ← hcount]
    rfl
  · rw [hindex]
    split_ifs <;> rfl
  · rw [hindex, ← hstale.mem_iff]
    split_ifs with hnil
    · simp [hnil]
    · exact SearchIndex.has_dropped
  · rw [hindex]
    split_ifs <;> rfl

/-- **The check of candidates is exact.** If what it needs can be reached, it confirms just the
candidates at the version that the store holds, in their order, counts each candidate under its
standing, and drops just the rows of the stale ones, in one batch. If the store cannot be reached,
nothing changes; if the index cannot be reached to drop rows, nothing changes but that the store has
served a batch of records. -/
theorem reconcile_exact (db : Database) (scope : Scope) (candidates : List Candidate) :
    (db.Serves candidates → ∃ r db', db.reconcile scope candidates = (.ok r, db') ∧
      db.Reconciles scope candidates r db') ∧
    (candidates ≠ [] → db.store.unavailable = true →
      db.reconcile scope candidates = (.error EntityStore.outage, db)) ∧
    (db.store.unavailable = false → db.store.standing .stale candidates ≠ [] →
      db.index.unavailable = true →
      db.reconcile scope candidates = (.error SearchIndex.outage, db.loaded)) := by
  by_cases hempty : candidates = []
  · subst hempty
    refine ⟨fun _ => ⟨{}, db, reconcile_nil db scope, ?_⟩, fun hne => absurd rfl hne,
      fun _ hne => absurd rfl hne⟩
    exact reconciles_of_eq [] (fun c hc => by cases hc) rfl rfl rfl
  · refine ⟨fun hserves => ?_, reconcile_of_outage, fun havail hne hout => ?_⟩
    · obtain hnil | ⟨havail, hserves⟩ := hserves
      · exact absurd hnil hempty
      obtain ⟨held, hheld, hcases⟩ := reconcile_cases hempty havail scope
      have hstale := Reconciled.stale_staleRows hheld
      rcases hcases with ⟨hnil, heq⟩ | ⟨hne, hout, -⟩ | ⟨hne, -, heq⟩
      · exact ⟨_, _, heq, reconciles_of_eq held hheld (if_neg hempty).symm rfl (if_pos hnil).symm⟩
      · rcases hserves with hnone | havail
        · exact absurd (hstale.eq_nil_iff.mpr hnone) hne
        · rw [havail] at hout
          cases hout
      · exact ⟨_, _, heq, reconciles_of_eq held hheld (if_neg hempty).symm rfl (if_neg hne).symm⟩
    · obtain ⟨held, hheld, hcases⟩ := reconcile_cases hempty havail scope
      rcases hcases with ⟨hnil, -⟩ | ⟨-, -, heq⟩ | ⟨-, havail, -⟩
      · exact absurd ((Reconciled.stale_staleRows hheld).eq_nil_iff.mp hnil) hne
      · exact heq
      · rw [havail] at hout
        cases hout

/-- Candidates of each standing, among them a stale one twice and a deleted one at the version of
its deletion. -/
theorem reconcile_mixed :
    let scope : Scope := ⟨"shop", "items"⟩
    let doc : Json := .object []
    let candidate (id : EntityId) (version : Version) : Candidate := ⟨id, version, none, []⟩
    let store := ((EntityStore.empty 2).put 1 2 (.payload doc)).put 2 1 .tombstone
    let index : SearchIndex :=
      ⟨(∅ : Std.ExtTreeMap RowKey Json).insert ⟨scope, 1, 1⟩ doc, [], false⟩
    let db : Database := ⟨store, index, .start⟩
    let noStore : Database := ⟨store.setUnavailable true, index, .start⟩
    let noIndex : Database := ⟨store, index.setUnavailable true, .start⟩
    let candidates := [candidate 1 1, candidate 1 2, candidate 2 1, candidate 1 1, candidate 3 1,
      candidate 1 3]
    (db.Serves candidates ∧ ∃ r db', db.reconcile scope candidates = (.ok r, db') ∧
      db.Reconciles scope candidates r db' ∧ r.stats.accepted = 1 ∧ r.stats.stale = 3) ∧
    noStore.reconcile scope candidates = (.error EntityStore.outage, noStore) ∧
    noIndex.reconcile scope candidates = (.error SearchIndex.outage, noIndex.loaded) := by
  intro scope doc candidate store index db noStore noIndex candidates
  have hstale : store.standing .stale candidates ≠ [] := by decide +kernel
  have hserves : db.Serves candidates := .inr ⟨rfl, .inr rfl⟩
  obtain ⟨r, db', heq, hr⟩ := (reconcile_exact db scope candidates).1 hserves
  refine ⟨⟨hserves, r, db', heq, hr, ?_, ?_⟩, ?_, ?_⟩
  · exact (hr.counts .current).trans (by decide +kernel)
  · exact (hr.counts .stale).trans (by decide +kernel)
  · exact (reconcile_exact _ scope candidates).2.1 (List.cons_ne_nil _ _) rfl
  · exact (reconcile_exact _ scope candidates).2.2 rfl hstale rfl

end Database

end EntityQuery
