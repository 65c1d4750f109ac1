import EntityQuery.Proofs.Graph.Registry

/-! # Edges that are there are registered

A graph starts empty and is written to and repaired in any order. Versions of edges arrive in any
order of their times, deletions may be written to storage without being registered, the log may hold
anything, and repairs are run with any versions, bounds and times. The registry never loses an edge
that is there: repairs of the storage drop with a version all that are older, so that the newest
version which they leave was the newest before; and if it is not later than the time up to which a
repair of the registry looks, the repair finds it.

* `GraphChange`: what is done to a graph.
* `Graph.Kept`: what stays true of it.
* `Graph.registered_of_newest`: what the registry knows of the edges that are there. -/

namespace EntityQuery

/-- What is done to a graph. -/
inductive GraphChange where
  /-- A version is written to storage and registered. -/
  | write (application : String) (v : EdgeVersion)
  /-- A deletion is written to storage alone. -/
  | bury (application : String) (edge : Edge) (timestamp : Timestamp)
  /-- A version is written to the log. -/
  | log (application : String) (v : EdgeVersion)
  | repairWrite (limits : RepairLimits) (application : String) (keep : EdgeVersion)
  | repairDelete (limits : RepairLimits) (application : String) (v : EdgeVersion)
  | repairRegistry (limits : RepairLimits) (key : RegistryKey) (upTo : Timestamp)

/-- Writes a version to storage; nothing changes if storage cannot be written to. -/
def Graph.store (g : Graph) (application : String) (v : EdgeVersion) : Graph :=
  match g.storage.write application v with
  | .error _ => g
  | .ok storage => { g with storage }

/-- The graph after a change. -/
def Graph.change (g : Graph) : GraphChange → Graph
  | .write application v =>
    let stored := g.store application v
    { stored with registry := stored.registry.write application v }
  | .bury application edge timestamp => g.store application ⟨edge, timestamp, true⟩
  | .log application v =>
    match g.log.write application v with
    | .error _ => g
    | .ok log => { g with log }
  | .repairWrite limits application keep => (g.repairWrite limits application keep).2
  | .repairDelete limits application v => (g.repairDelete limits application v).2
  | .repairRegistry limits key upTo => (g.repairRegistry limits key upTo).2

/-! ## Versions that are registered -/

/-- What an edge is registered under on one of its sides. -/
def Edge.registryKey (e : Edge) (application : String) (side : Side) : RegistryKey :=
  ⟨application, e.near side, side, e.label⟩

/-- On one of its sides an edge was seen no earlier than at the time of a version. -/
def EdgeRegistry.Registers (r : EdgeRegistry) (application : String) (v : EdgeVersion)
    (side : Side) : Prop :=
  ∃ time, r.kindSeen? (v.edge.registryKey application side) (v.edge.far side).kind = some time ∧
    v.timestamp ≤ time

namespace EdgeRegistry.Registers

variable {r : EdgeRegistry} {application : String} {v : EdgeVersion} {side : Side}

theorem see (h : r.Registers application v side) (key : RegistryKey) (kind : String)
    (time : Timestamp) : (r.see key kind time).Registers application v side := by
  obtain ⟨before, hseen, hle⟩ := h
  obtain ⟨last, hlast, hle'⟩ := exists_kindSeen_of_see hseen key kind time
  exact ⟨last, hlast, UInt64.le_trans hle hle'⟩

theorem write (h : r.Registers application v side) (other : String) (w : EdgeVersion) :
    (r.write other w).Registers application v side :=
  (h.see ..).see ..

theorem of_write (r : EdgeRegistry) (application : String) (v : EdgeVersion) (side : Side) :
    (r.write application v).Registers application v side := by
  cases side with
  | outgoing =>
    have hout : (r.seeSide application v .outgoing).Registers application v .outgoing :=
      exists_kindSeen_see r ..
    exact hout.see ..
  | incoming => exact exists_kindSeen_see (r.seeSide application v .outgoing) ..

end EdgeRegistry.Registers

theorem EdgeStore.IsNewest.of_written {s : EdgeStore} {application other : String}
    {upTo : Timestamp} {v w : EdgeVersion} (h : (s.written application v).IsNewest other upTo w)
    (hkey : w.key other ≠ v.key application) : s.IsNewest other upTo w where
  holds := (if_neg hkey ▸ holds_written).mp h.holds
  le := h.le
  newest x hx hedge hle := by
    by_cases hsame : x.key other = v.key application
    · let taken : EdgeVersion := { x with deleted := v.deleted }
      have htaken : (s.written application v).Holds other taken :=
        holds_written.mpr ((if_pos hsame).mpr rfl)
      exact h.newest taken htaken hedge hle
    · exact h.newest x (holds_written.mpr (by rwa [if_neg hsame])) hedge hle

/-! ## What changes keep -/

namespace Graph

/-- Nothing keeps the stores of a graph from their work, and the edges that are there are
registered. -/
structure Kept (g : Graph) : Prop where
  log : g.log.Open
  storage : g.storage.Open
  registered : ∀ application v, g.storage.IsNewest application maxTimestamp v →
    v.deleted = false → ∀ side, g.registry.Registers application v side

variable {g : Graph}

theorem Kept.empty : Kept .empty where
  log := ⟨rfl, rfl⟩
  storage := ⟨rfl, rfl⟩
  registered application v hv := by
    have hholds : (∅ : Std.ExtTreeMap VersionKey Bool)[v.key application]? = some v.deleted :=
      hv.holds
    simp at hholds

theorem store_eq (h : g.storage.Open) (application : String) (v : EdgeVersion) :
    g.store application v = { g with storage := g.storage.written application v } := by
  unfold store EdgeStore.write
  rw [if_neg (by rw [h.reachable]; decide)]
  rfl

/-- Where the newest versions of the storage were so before, the registry may stay as it is. -/
theorem Kept.of_isNewest (h : g.Kept) {log storage : EdgeStore} (hlog : log.Open)
    (hstorage : storage.Open)
    (hnewest : ∀ application v, storage.IsNewest application maxTimestamp v →
      v.deleted = false → g.storage.IsNewest application maxTimestamp v) :
    Kept { g with log, storage } where
  log := hlog
  storage := hstorage
  registered application v hv hlive :=
    h.registered application v (hnewest application v hv hlive) hlive

theorem Kept.write (h : g.Kept) (application : String) (v : EdgeVersion) :
    (g.change (.write application v)).Kept := by
  simp only [change, store_eq h.storage]
  refine ⟨h.log, h.storage.written, fun other w hw hlive side => ?_⟩
  by_cases hkey : w.key other = v.key application
  · obtain ⟨rfl, hedge, htime⟩ := EdgeVersion.key_eq_iff.mp hkey
    have hv := EdgeRegistry.Registers.of_write g.registry other v side
    unfold EdgeRegistry.Registers
    rw [hedge, htime]
    exact hv
  · exact (h.registered other w (hw.of_written hkey) hlive side).write application v

theorem Kept.bury (h : g.Kept) (application : String) (edge : Edge) (timestamp : Timestamp) :
    (g.change (.bury application edge timestamp)).Kept := by
  simp only [change, store_eq h.storage]
  refine h.of_isNewest h.log h.storage.written fun other w hw hlive => hw.of_written fun hkey => ?_
  have hdeleted := EdgeStore.holds_written.mp hw.holds
  rw [if_pos hkey, hlive] at hdeleted
  exact Bool.false_ne_true hdeleted

theorem Kept.log_written (h : g.Kept) (application : String) (v : EdgeVersion) :
    (g.change (.log application v)).Kept := by
  unfold change
  dsimp only
  split
  · exact h
  · next log hwrite =>
    rw [EdgeStore.eq_written hwrite]
    exact h.of_isNewest h.log.written h.storage fun _ _ hw _ => hw

theorem Kept.repairWrite (h : g.Kept) (limits : RepairLimits) (application : String)
    (keep : EdgeVersion) : (g.change (.repairWrite limits application keep)).Kept := by
  obtain ⟨removed, storage, hrun, hopen, htrimmed⟩ :=
    exists_repairWrite h.storage limits application keep
  simp only [change, hrun]
  exact h.of_isNewest h.log hopen fun _ _ hw _ => htrimmed.isNewest UInt64.lt_of_le_of_lt hw

theorem Kept.repairDelete (h : g.Kept) (limits : RepairLimits) (application : String)
    (v : EdgeVersion) : (g.change (.repairDelete limits application v)).Kept := by
  rcases repairDelete_cases h.log h.storage limits application v with
    hrun | ⟨removed, log, storage, hrun, hlog, hopen, htrimmed⟩
  · simpa only [change, hrun] using h
  · simp only [change, hrun]
    exact h.of_isNewest hlog hopen fun _ _ hw _ => htrimmed.isNewest UInt64.le_trans hw

theorem Kept.repairRegistry (h : g.Kept) (limits : RepairLimits) (key : RegistryKey)
    (upTo : Timestamp) : (g.change (.repairRegistry limits key upTo)).Kept := by
  obtain ⟨registry, hrun, hkinds, -⟩ :=
    exists_repairRegistry h.storage.reachable limits key upTo
  simp only [change, hrun]
  refine ⟨h.log, h.storage, fun application v hv hlive side => ?_⟩
  obtain ⟨time, hseen, hle⟩ := h.registered application v hv hlive side
  refine ⟨time, (hkinds _ _ time).mpr ⟨hseen, ?_⟩, hle⟩
  -- What was seen no later than that time is newest up to then, too, and backs its kind.
  rintro ⟨rfl, hnone, htime⟩
  have hnewest := hv.mono (UInt64.le_trans hle htime) (le_maxTimestamp upTo)
  have hbacks : g.storage.backs (v.edge.registryKey application side) (v.edge.far side).kind upTo =
      true := EdgeStore.backs_iff.mpr ⟨v, ⟨rfl, rfl, rfl⟩, hnewest, hlive⟩
  exact Bool.false_ne_true (hnone.symm.trans hbacks)

/-- **One change keeps every edge that is there registered.** -/
theorem Kept.change (h : g.Kept) (c : GraphChange) : (g.change c).Kept := by
  cases c with
  | write application v => exact h.write application v
  | bury application edge timestamp => exact h.bury application edge timestamp
  | log application v => exact h.log_written application v
  | repairWrite limits application keep => exact h.repairWrite limits application keep
  | repairDelete limits application v => exact h.repairDelete limits application v
  | repairRegistry limits key upTo => exact h.repairRegistry limits key upTo

theorem Kept.changes (h : g.Kept) (changes : List GraphChange) :
    (changes.foldl Graph.change g).Kept := by
  induction changes generalizing g with
  | nil => exact h
  | cons c changes ih => exact ih (h.change c)

/-- **The registry never loses an edge that is there.** Whatever has been done to a graph, if the
newest version in storage of an edge is no deletion, then on both of its sides its label is
registered, and under the label the kind of the other end, each as seen no earlier than that. -/
theorem registered_of_newest (changes : List GraphChange) {application : String} {edge : Edge}
    {v : EdgeVersion}
    (hnewest : (changes.foldl Graph.change .empty).storage.newest? application edge maxTimestamp =
      some v) (hlive : v.deleted = false) (side : Side) :
    ∃ entry time,
      (changes.foldl Graph.change .empty).registry.entries[
        (⟨application, edge.near side, side, edge.label⟩ : RegistryKey)]? = some entry ∧
      v.timestamp ≤ entry.timestamp ∧
      entry.kinds[(edge.far side).kind]? = some time ∧ v.timestamp ≤ time := by
  obtain ⟨hv, rfl⟩ := EdgeStore.newest?_eq_some_iff.mp hnewest
  obtain ⟨time, hseen, hle⟩ := (Kept.empty.changes changes).registered application v hv hlive side
  obtain ⟨entry, hentry, hkind⟩ := Option.bind_eq_some_iff.mp hseen
  exact ⟨entry, time, hentry, UInt64.le_trans hle (entry.kinds_le _ time hkind), hkind, hle⟩

/-- An edge is deleted and written again, an earlier deletion of it comes late, and everything is
repaired. -/
theorem registered_of_newest_repaired :
    let user : Node := ⟨1, "user"⟩
    let owns : Edge := ⟨user, "owns", ⟨2, "car"⟩⟩
    let changes : List GraphChange :=
      [.write "app" ⟨owns, 4, true⟩, .write "app" ⟨owns, 7, false⟩, .bury "app" owns 2,
        .log "app" ⟨owns, 4, true⟩, .repairDelete {} "app" ⟨owns, 4, true⟩,
        .repairWrite {} "app" ⟨owns, 7, false⟩,
        .repairRegistry {} ⟨"app", user, .outgoing, "owns"⟩ 9]
    ∀ side, ∃ entry time,
      (changes.foldl Graph.change .empty).registry.entries[
        (⟨"app", owns.near side, side, "owns"⟩ : RegistryKey)]? = some entry ∧
      7 ≤ entry.timestamp ∧ entry.kinds[(owns.far side).kind]? = some time ∧ 7 ≤ time := by
  intro user owns changes side
  have hnewest : (changes.foldl Graph.change .empty).storage.newest? "app" owns maxTimestamp =
      some ⟨owns, 7, false⟩ := by
    decide +kernel
  exact registered_of_newest changes hnewest rfl side

end Graph

end EntityQuery
