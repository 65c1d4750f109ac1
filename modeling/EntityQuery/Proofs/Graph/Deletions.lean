import EntityQuery.Graph.Repair
import EntityQuery.Proofs.Graph.Versions

/-! # Repairs of the storage

The repairs of the storage drop versions of one edge, and with a version all that are older. What is
left of the edge then has the newest version that it had, or nothing is left.

* `EdgeStore.Trimmed`: the storage before and after.
* `Graph.exists_repairWrite`, `Graph.repairDelete_cases`: what the repairs drop. -/

namespace EntityQuery

namespace EdgeStore

variable {s s' : EdgeStore} {application : String} {edge : Edge} {v : EdgeVersion}

/-- Of an edge the versions of the times `dropped` are gone, and nothing else has changed. -/
def Trimmed (s s' : EdgeStore) (application : String) (edge : Edge) (dropped : Timestamp → Prop) :
    Prop :=
  ∀ other w, s'.Holds other w ↔
    s.Holds other w ∧ ¬ (other = application ∧ w.edge = edge ∧ dropped w.timestamp)

theorem Trimmed.isNewest {dropped : Timestamp → Prop} (h : s.Trimmed s' application edge dropped)
    (hdown : ∀ {a b : Timestamp}, a ≤ b → dropped b → dropped a) {other : String}
    {upTo : Timestamp} (hv : s'.IsNewest other upTo v) : s.IsNewest other upTo v where
  holds := ((h other v).mp hv.holds).1
  le := hv.le
  newest w hw hedge hle := by
    rcases UInt64.le_total w.timestamp v.timestamp with hwv | hvw
    · exact hwv
    · refine hv.newest w ((h other w).mpr ⟨hw, ?_⟩) hedge hle
      rintro ⟨rfl, rfl, hdropped⟩
      exact ((h _ v).mp hv.holds).2 ⟨rfl, hedge.symm, hdown hvw hdropped⟩

theorem Open.exists_deletions (h : s.Open) (application : String) (versions : List EdgeVersion) :
    ∃ s', runEach (fun s v => delete s application v) s versions =
        (.ok (versions.map fun _ => ()), s') ∧ s'.Open ∧
      ∀ other w, s'.Holds other w ↔
        s.Holds other w ∧ ∀ v ∈ versions, w.key other ≠ v.key application := by
  induction versions generalizing s with
  | nil => exact ⟨s, rfl, h, by simp⟩
  | cons v versions ih =>
    obtain ⟨first, hdelete, hfirst, hholds⟩ := h.exists_delete application v
    obtain ⟨last, hrest, hlast, hholds'⟩ := ih hfirst
    refine ⟨last, ?_, hlast, fun other w => ?_⟩
    · simp only [runEach, hdelete, hrest, List.map_cons]
    · rw [hholds', hholds, List.forall_mem_cons, and_assoc]

end EdgeStore

namespace Graph

variable {g : Graph} {application : String}

theorem le_maxTimestamp (time : Timestamp) : time ≤ maxTimestamp := by
  have hmax : maxTimestamp.toNat = 2 ^ 64 - 1 := rfl
  have hlt := time.toNat_lt
  rw [UInt64.le_iff_toNat_le, hmax]
  omega

theorem exists_deleteStored (h : g.storage.Open) (limits : RepairLimits) {edge : Edge}
    {versions : List EdgeVersion} (dropped : Timestamp → Prop)
    (hversions : ∀ w, w ∈ versions ↔
      g.storage.Holds application w ∧ w.edge = edge ∧ dropped w.timestamp) :
    ∃ storage, g.deleteStored limits application versions =
        (.ok versions.length, { g with storage }) ∧
      storage.Open ∧ g.storage.Trimmed storage application edge dropped := by
  obtain ⟨storage, hrun, hopen, hholds⟩ := h.exists_deletions application versions
  refine ⟨storage, ?_, hopen, fun other w => ?_⟩
  · rw [deleteStored, runWindowed_eq_runEach, hrun]
    simp [Except.map]
  · rw [hholds]
    refine and_congr_right fun hw => ⟨?_, ?_⟩
    · rintro hnone ⟨rfl, hedge, hdropped⟩
      exact hnone w ((hversions w).mpr ⟨hw, hedge, hdropped⟩) rfl
    · rintro hkept v hv hkey
      obtain ⟨hholds, rfl, hdropped⟩ := (hversions v).mp hv
      obtain ⟨rfl, hedge, htime⟩ := EdgeVersion.key_eq_iff.mp hkey
      exact hkept ⟨rfl, hedge, htime ▸ hdropped⟩

theorem versionsOf_eq {s : EdgeStore} (h : s.unavailable = false) (edge : Edge)
    (upTo : Timestamp) :
    s.versionsOf application edge upTo = .ok (s.history application edge upTo) :=
  if_neg (by rw [h]; decide)

theorem mem_dropWhile {l : List EdgeVersion}
    (hsorted : l.Pairwise fun a b => b.timestamp < a.timestamp) {time : Timestamp}
    {w : EdgeVersion} :
    w ∈ l.dropWhile (time ≤ ·.timestamp) ↔ w ∈ l ∧ w.timestamp < time := by
  induction l with
  | nil => simp
  | cons v l ih =>
    obtain ⟨hv, hl⟩ := List.pairwise_cons.mp hsorted
    by_cases hle : time ≤ v.timestamp
    · rw [List.dropWhile_cons_of_pos (by simpa using hle), ih hl, List.mem_cons]
      have hnot : ¬ v.timestamp < time := UInt64.not_lt.mpr hle
      constructor
      · rintro ⟨hw, hlt⟩
        exact ⟨.inr hw, hlt⟩
      · rintro ⟨rfl | hw, hlt⟩
        · exact absurd hlt hnot
        · exact ⟨hw, hlt⟩
    · rw [List.dropWhile_cons_of_neg (by simpa using hle)]
      refine (and_iff_left_of_imp fun hw => ?_).symm
      have hlt := UInt64.not_le.mp hle
      rcases List.mem_cons.mp hw with rfl | hw
      · exact hlt
      · exact UInt64.lt_trans (hv w hw) hlt

/-- **The repair after a write** drops the older versions of its edge from storage. -/
theorem exists_repairWrite (h : g.storage.Open) (limits : RepairLimits) (application : String)
    (keep : EdgeVersion) :
    ∃ removed storage, g.repairWrite limits application keep = (.ok removed, { g with storage }) ∧
      storage.Open ∧
      g.storage.Trimmed storage application keep.edge (· < keep.timestamp) := by
  have hmem : ∀ w, w ∈ (g.storage.history application keep.edge maxTimestamp).dropWhile
      (keep.timestamp ≤ ·.timestamp) ↔
      g.storage.Holds application w ∧ w.edge = keep.edge ∧ w.timestamp < keep.timestamp := by
    intro w
    rw [mem_dropWhile (g.storage.pairwise_history ..), EdgeStore.mem_history]
    simp only [le_maxTimestamp, and_true, and_assoc]
  obtain ⟨storage, hdelete, hopen, htrimmed⟩ :=
    exists_deleteStored h limits (· < keep.timestamp) hmem
  refine ⟨_, storage, Eq.trans ?_ hdelete, hopen, htrimmed⟩
  rw [repairWrite, versionsOf_eq h.reachable]

/-- **The repair after a deletion** drops the versions of the edge up to that time from storage, and
a mark from the log, or changes nothing. -/
theorem repairDelete_cases (hlog : g.log.Open) (hstorage : g.storage.Open) (limits : RepairLimits)
    (application : String) (v : EdgeVersion) :
    g.repairDelete limits application v = (.ok .notDeleted, g) ∨
      ∃ removed log storage,
        g.repairDelete limits application v = (.ok (.repaired removed), { g with log, storage }) ∧
        log.Open ∧ storage.Open ∧
        g.storage.Trimmed storage application v.edge (· ≤ v.timestamp) := by
  unfold repairDelete
  rw [versionsOf_eq hlog.reachable, versionsOf_eq hstorage.reachable]
  dsimp only
  split
  · exact .inl rfl
  · next mark _ =>
    obtain ⟨storage, hdelete, hopen, htrimmed⟩ :=
      exists_deleteStored hstorage limits (· ≤ v.timestamp) fun w =>
        EdgeStore.mem_history
    obtain ⟨log, hmark, hlog', -⟩ := hlog.exists_delete application mark
    refine .inr ⟨(g.storage.history application v.edge v.timestamp).length, log, storage, ?_,
      hlog', hopen, htrimmed⟩
    simp only [hdelete, hmark, Except.map]

end Graph

end EntityQuery
