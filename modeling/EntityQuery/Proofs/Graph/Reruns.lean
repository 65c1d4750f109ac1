import EntityQuery.Proofs.Graph.Deletions
import Mathlib.Data.List.Sort

/-! # Repairs that are cut off and run again

The repairs of the storage delete versions one after another, the newest first. What they have
deleted when they are cut off is the beginning of what they were to delete, and what is left of it
is what they find to delete when they are run again. So it does not show in the end that they were
cut off, except in how many versions the second run counts.

* `EdgeStore.without`: a store without some versions of an edge.
* `Graph.Reruns`: a repair that may be cut off anywhere.
* `Graph.repairs_exact`: **what the repairs remove, and that they can be run again**. -/

namespace EntityQuery

theorem runEach_append {σ α β ε : Type} {call : σ → α → Except ε β × σ} {s s' : σ} {l : List α}
    {bs : List β} (h : runEach call s l = (.ok bs, s')) (more : List α) :
    runEach call s (l ++ more) = match runEach call s' more with
      | (.error e, last) => (.error e, last)
      | (.ok cs, last) => (.ok (bs ++ cs), last) := by
  induction l generalizing s bs with
  | nil =>
    cases h
    rw [List.nil_append]
    rcases hmore : runEach call s' more with ⟨_ | _, last⟩ <;> rfl
  | cons a l ih =>
    rw [List.cons_append, runEach]
    rw [runEach] at h
    rcases hcall : call s a with ⟨e | b, next⟩
    · simp [hcall] at h
    · simp only [hcall] at h ⊢
      rcases hl : runEach call next l with ⟨e | cs, last⟩
      · simp [hl] at h
      · simp only [hl, Prod.mk.injEq, Except.ok.injEq] at h
        obtain ⟨rfl, rfl⟩ := h
        rw [ih hl]
        rcases runEach call last more with ⟨_ | _, _⟩ <;> rfl

namespace EdgeStore

variable {s : EdgeStore} {application : String} {edge : Edge} {versions : List EdgeVersion}

/-! ## Deletions and their limit -/

/-- A store from which versions have been erased. -/
def without (s : EdgeStore) (application : String) (versions : List EdgeVersion) : EdgeStore :=
  versions.foldl (fun s v => s.erase (v.key application)) s

/-- The store with another limit on deletions and other requests on record. -/
def withRequests (s : EdgeStore) (deletionsLeft : Option Nat) (attempts : List Timestamp) :
    EdgeStore :=
  { s with deletionsLeft, attempts }

/-- Versions are erased whatever has been asked before and however deletions are limited. -/
theorem erase_withRequests (s : EdgeStore) (key : VersionKey) (deletionsLeft : Option Nat)
    (attempts : List Timestamp) :
    (s.withRequests deletionsLeft attempts).erase key =
      (s.erase key).withRequests deletionsLeft attempts := by
  unfold withRequests erase
  dsimp only
  split_ifs <;> rfl

theorem unavailable_erase (s : EdgeStore) (key : VersionKey) :
    (s.erase key).unavailable = s.unavailable := by
  unfold erase
  split_ifs <;> rfl

theorem without_withRequests (s : EdgeStore) (application : String) (versions : List EdgeVersion)
    (deletionsLeft : Option Nat) (attempts : List Timestamp) :
    (s.withRequests deletionsLeft attempts).without application versions =
      (s.without application versions).withRequests deletionsLeft attempts := by
  induction versions generalizing s with
  | nil => rfl
  | cons v versions ih =>
    unfold without at ih ⊢
    rw [List.foldl_cons, List.foldl_cons, erase_withRequests, ih]

theorem unavailable_without (s : EdgeStore) (application : String) (versions : List EdgeVersion) :
    (s.without application versions).unavailable = s.unavailable := by
  induction versions generalizing s with
  | nil => rfl
  | cons v versions ih => exact (ih _).trans (s.unavailable_erase _)

theorem holds_without {other : String} {w : EdgeVersion} :
    (s.without application versions).Holds other w ↔
      s.Holds other w ∧ ∀ v ∈ versions, w.key other ≠ v.key application := by
  induction versions generalizing s with
  | nil => simp [without]
  | cons v versions ih =>
    rw [List.forall_mem_cons, ← and_assoc, ← holds_erase]
    exact ih

theorem delete_eq (h : s.unavailable = false) (hleft : s.deletionsLeft ≠ some 0)
    (application : String) (v : EdgeVersion) :
    s.delete application v = (.ok (), (s.erase (v.key application)).withRequests
      (s.deletionsLeft.map (· - 1)) (s.attempts ++ [v.timestamp])) := by
  unfold delete
  dsimp only
  rw [if_neg hleft, if_neg (by rw [h]; decide)]
  exact congrArg (Prod.mk _) (erase_withRequests s _ _ _)

/-- **Deletions that are let through** erase one version after another. -/
theorem runEach_delete (h : s.unavailable = false) (application : String)
    (versions : List EdgeVersion) (hleft : ∀ k ∈ s.deletionsLeft, versions.length ≤ k) :
    runEach (fun s v => delete s application v) s versions =
      (.ok (versions.map fun _ => ()), (s.without application versions).withRequests
        (s.deletionsLeft.map (· - versions.length))
        (s.attempts ++ versions.map (·.timestamp))) := by
  induction versions generalizing s with
  | nil =>
    obtain ⟨held, mutations, unavailable, deletionsLeft, attempts⟩ := s
    simp [runEach, without, withRequests]
  | cons v versions ih =>
    have hfirst : s.deletionsLeft ≠ some 0 := fun hnone => by
      simpa using hleft 0 hnone
    let next := (s.erase (v.key application)).withRequests (s.deletionsLeft.map (· - 1))
      (s.attempts ++ [v.timestamp])
    have hnext : next.unavailable = false := (s.unavailable_erase _).trans h
    have hrest := ih hnext fun k hk => by
      obtain ⟨m, hm, rfl⟩ := Option.map_eq_some_iff.mp hk
      have hlength := hleft m hm
      rw [List.length_cons] at hlength
      omega
    have hcount : (s.deletionsLeft.map (· - 1)).map (· - versions.length) =
        s.deletionsLeft.map (· - (versions.length + 1)) := by
      cases s.deletionsLeft with
      | none => rfl
      | some k => simp only [Option.map_some, Nat.sub_sub, Nat.add_comm]
    rw [without_withRequests] at hrest
    simp only [runEach, delete_eq h hfirst, List.map_cons, List.length_cons, ← hcount]
    rw [hrest]
    simp only [next, withRequests, List.append_assoc, List.singleton_append]
    rfl

/-- **Deletions that are cut off** have erased the first versions. -/
theorem exists_runEach_delete_cut (h : s.unavailable = false) (application : String) {k : Nat}
    (hk : k ≤ versions.length) :
    ∃ result attempts, runEach (fun s v => delete s application v) (s.limitDeletions (some k))
        versions =
          (result, (s.without application (versions.take k)).withRequests (some 0) attempts) ∧
      (k < versions.length → ∃ e, result = .error e) := by
  have hreachable : (s.limitDeletions (some k)).unavailable = false := h
  have hfront := runEach_delete hreachable application (versions.take k) fun m hm => by
    cases hm
    exact List.length_take_le k versions
  have hsplit := runEach_append hfront (versions.drop k)
  rw [List.take_append_drop] at hsplit
  have hzero : ((s.limitDeletions (some k)).deletionsLeft.map
      (· - (versions.take k).length)) = some 0 := by
    simp [limitDeletions, hk]
  have hwithout : (s.limitDeletions (some k)).without application (versions.take k) =
      (s.without application (versions.take k)).withRequests (some k) s.attempts :=
    without_withRequests s _ _ _ _
  rw [hzero, hwithout] at hsplit
  cases hdrop : versions.drop k with
  | nil =>
    rw [hdrop] at hsplit
    refine ⟨_, _, hsplit, fun hlt => ?_⟩
    exact absurd (List.drop_eq_nil_iff.mp hdrop) (Nat.not_le.mpr hlt)
  | cons v rest =>
    rw [hdrop] at hsplit
    exact ⟨_, _, hsplit, fun _ => ⟨refusal v, rfl⟩⟩

/-! ## What is to be deleted -/

/-- The versions of an edge that are held for some times, the newest first. -/
structure Lists (s : EdgeStore) (application : String) (edge : Edge) (dropped : Timestamp → Prop)
    (versions : List EdgeVersion) : Prop where
  newestFirst : versions.Pairwise fun a b => b.timestamp < a.timestamp
  mem_iff : ∀ w, w ∈ versions ↔ s.Holds application w ∧ w.edge = edge ∧ dropped w.timestamp

variable {dropped : Timestamp → Prop}

theorem Lists.unique {versions' : List EdgeVersion} (h : s.Lists application edge dropped versions)
    (h' : s.Lists application edge dropped versions') : versions = versions' := by
  have hirrefl : Std.Irrefl fun a b : EdgeVersion => b.timestamp < a.timestamp :=
    ⟨fun a => UInt64.lt_irrefl a.timestamp⟩
  have hantisymm : Std.Antisymm fun a b : EdgeVersion => b.timestamp < a.timestamp :=
    ⟨fun _ _ hab hba => absurd hab (UInt64.lt_asymm hba)⟩
  exact h.newestFirst.eq_of_mem_iff h'.newestFirst fun w => by rw [h.mem_iff, h'.mem_iff]

/-- What is to be deleted hangs on the versions alone. -/
theorem Lists.of_versions {s' : EdgeStore} (h : s.Lists application edge dropped versions)
    (hsame : s'.versions = s.versions) : s'.Lists application edge dropped versions :=
  ⟨h.newestFirst, fun w => by rw [h.mem_iff, Holds, Holds, hsame]⟩

theorem Lists.without_take (h : s.Lists application edge dropped versions) (k : Nat) :
    (s.without application (versions.take k)).Lists application edge dropped
      (versions.drop k) := by
  have hsplit := h.newestFirst
  have hmem : ∀ w, w ∈ versions ↔ w ∈ versions.take k ∨ w ∈ versions.drop k := fun w => by
    rw [← List.mem_append, List.take_append_drop]
  rw [← List.take_append_drop k versions, List.pairwise_append] at hsplit
  refine ⟨hsplit.2.1, fun w => ?_⟩
  rw [holds_without]
  constructor
  · intro hw
    obtain ⟨hholds, hedge, hdropped⟩ := (h.mem_iff w).mp ((hmem w).mpr (.inr hw))
    refine ⟨⟨hholds, fun v hv hkey => ?_⟩, hedge, hdropped⟩
    have hlt := hsplit.2.2 v hv w hw
    rw [(EdgeVersion.key_eq_iff.mp hkey).2.2] at hlt
    exact UInt64.lt_irrefl _ hlt
  · rintro ⟨⟨hholds, hkept⟩, hedge, hdropped⟩
    rcases (hmem w).mp ((h.mem_iff w).mpr ⟨hholds, hedge, hdropped⟩) with hw | hw
    · exact absurd rfl (hkept w hw)
    · exact hw

theorem eq_of_key_eq {other : String} {v w : EdgeVersion} (hw : s.Holds other w)
    (hv : s.Holds application v) (hkey : w.key other = v.key application) :
    other = application ∧ w = v := by
  obtain ⟨happlication, hedge, htime⟩ := EdgeVersion.key_eq_iff.mp hkey
  have hdeleted : w.deleted = v.deleted :=
    Option.some.inj (hw.symm.trans (by rw [hkey]; exact hv))
  refine ⟨happlication, ?_⟩
  cases w
  cases v
  simp_all

theorem Lists.holds_without_take (h : s.Lists application edge dropped versions) (k : Nat)
    {other : String} {w : EdgeVersion} :
    (s.without application (versions.take k)).Holds other w ↔
      s.Holds other w ∧ ¬ (other = application ∧ w ∈ versions.take k) := by
  rw [holds_without]
  refine and_congr_right fun hholds => ⟨?_, fun hkept v hv hkey => hkept ?_⟩
  · rintro hkept ⟨rfl, hw⟩
    exact hkept w hw rfl
  · obtain ⟨hv', -⟩ := (h.mem_iff v).mp (List.mem_of_mem_take hv)
    obtain ⟨rfl, rfl⟩ := eq_of_key_eq hholds hv' hkey
    exact ⟨rfl, hv⟩

theorem Lists.holds_without (h : s.Lists application edge dropped versions) {other : String}
    {w : EdgeVersion} :
    (s.without application versions).Holds other w ↔
      s.Holds other w ∧ ¬ (other = application ∧ w ∈ versions) := by
  simpa only [List.take_length] using h.holds_without_take versions.length

theorem Lists.without (h : s.Lists application edge dropped versions) :
    (s.without application versions).Lists application edge dropped [] := by
  simpa only [List.take_length, List.drop_length] using h.without_take versions.length

theorem lists_history (s : EdgeStore) (application : String) (edge : Edge) (upTo : Timestamp) :
    s.Lists application edge (· ≤ upTo) (s.history application edge upTo) :=
  ⟨s.pairwise_history application edge upTo, fun _ => mem_history⟩

theorem lists_older (s : EdgeStore) (application : String) (keep : EdgeVersion) :
    s.Lists application keep.edge (· < keep.timestamp)
      ((s.history application keep.edge Graph.maxTimestamp).dropWhile
        (keep.timestamp ≤ ·.timestamp)) := by
  have hsorted := s.pairwise_history application keep.edge Graph.maxTimestamp
  refine ⟨hsorted.sublist (List.dropWhile_sublist _), fun w => ?_⟩
  rw [Graph.mem_dropWhile hsorted, mem_history]
  simp only [Graph.le_maxTimestamp, and_true, and_assoc]

/-- Stores that hold the same and have been changed as often. -/
def Same (s s' : EdgeStore) : Prop := s.versions = s'.versions ∧ s.mutations = s'.mutations

/-- The last versions are erased after the first ones, whatever has been asked in between. -/
theorem same_without_drop (s : EdgeStore) (application : String) (versions : List EdgeVersion)
    (k : Nat) (deletionsLeft : Option Nat) (attempts : List Timestamp) :
    (((s.without application (versions.take k)).withRequests deletionsLeft attempts).without
      application (versions.drop k)).Same (s.without application versions) := by
  rw [without_withRequests, without, without, ← List.foldl_append, List.take_append_drop]
  exact ⟨rfl, rfl⟩

end EdgeStore

namespace Graph

variable {g : Graph} {application : String} {v keep : EdgeVersion} {versions : List EdgeVersion}
  {k : Nat}

/-! ## Interruptions -/

/-- A graph in which a repair is cut off after some deletions in storage, and before any in the
log. -/
def cutOff (g : Graph) (k : Nat) : Graph :=
  { g with storage := g.storage.limitDeletions (some k), log := g.log.limitDeletions (some 0) }

/-- A graph in which nothing is cut off any more. -/
def resumed (g : Graph) : Graph :=
  { g with storage := g.storage.limitDeletions none, log := g.log.limitDeletions none }

/-- Graphs that hold the same and have been changed as often. -/
structure Same (g g' : Graph) : Prop where
  storage : g.storage.Same g'.storage
  log : g.log.Same g'.log
  registry : g.registry = g'.registry

/-- A repair removes versions from storage, and goes on with what is left of them when it is cut off
after any number of them and run again. -/
structure Reruns {α : Type} (run : Graph → RepairLimits → Except RequestError α × Graph)
    (report : Nat → α) (application : String) (removed : List EdgeVersion) (g after : Graph) :
    Prop where
  whole : ∀ limits, run g limits = (.ok (report removed.length), after)
  cut : ∀ limits limits' k, k ≤ removed.length → ∃ result halfway final,
    run (g.cutOff k) limits = (result, halfway) ∧ (k < removed.length → ∃ e, result = .error e) ∧
    (∀ other w, halfway.storage.Holds other w ↔
      g.storage.Holds other w ∧ ¬ (other = application ∧ w ∈ removed.take k)) ∧
    run halfway.resumed limits' = (.ok (report (removed.length - k)), final) ∧ final.Same after

theorem exists_deleteStored_eq (h : g.storage.Open) (application : String)
    (versions : List EdgeVersion) :
    ∃ attempts, ∀ limits, g.deleteStored limits application versions = (.ok versions.length,
      { g with storage :=
        (g.storage.without application versions).withRequests none attempts }) := by
  have hrun := EdgeStore.runEach_delete h.reachable application versions (by simp [h.unlimited])
  rw [h.unlimited] at hrun
  refine ⟨g.storage.attempts ++ versions.map (·.timestamp), fun limits => ?_⟩
  rw [deleteStored, runWindowed_eq_runEach, hrun]
  simp only [Except.map, List.length_map]
  rfl

theorem deleteStored_nil (g : Graph) (limits : RepairLimits) (application : String) :
    g.deleteStored limits application [] = (.ok 0, g) := by
  rw [deleteStored, runWindowed_eq_runEach]
  rfl

theorem exists_deleteStored_cut (h : g.storage.unavailable = false) (limits : RepairLimits)
    (application : String) (hk : k ≤ versions.length) :
    ∃ result attempts, (g.cutOff k).deleteStored limits application versions = (result,
      { g.cutOff k with storage :=
        (g.storage.without application (versions.take k)).withRequests (some 0) attempts }) ∧
      (k < versions.length → ∃ e, result = .error e) := by
  obtain ⟨result, attempts, hrun, herror⟩ :=
    EdgeStore.exists_runEach_delete_cut h application hk
  refine ⟨result.map List.length, attempts, ?_, fun hlt => ?_⟩
  · rw [deleteStored, runWindowed_eq_runEach]
    simp only [cutOff, hrun]
  · obtain ⟨e, rfl⟩ := herror hlt
    exact ⟨e, rfl⟩

theorem repairWrite_eq (h : g.storage.unavailable = false)
    (hlist : g.storage.Lists application v.edge (· < v.timestamp) versions)
    (limits : RepairLimits) :
    g.repairWrite limits application v = g.deleteStored limits application versions := by
  rw [repairWrite, versionsOf_eq h, hlist.unique (g.storage.lists_older application v)]

/-- The mark in the log that an edge was deleted at the time of a version. -/
def mark (v : EdgeVersion) : EdgeVersion := ⟨v.edge, v.timestamp, true⟩

theorem find?_mark (s : EdgeStore) (application : String) (v : EdgeVersion) :
    (s.history application v.edge v.timestamp).find?
        (fun found => found.timestamp = v.timestamp && found.deleted) = some (mark v) ∧
      s.Holds application (mark v) ∨
    (s.history application v.edge v.timestamp).find?
        (fun found => found.timestamp = v.timestamp && found.deleted) = none ∧
      ¬ s.Holds application (mark v) := by
  cases hfind : (s.history application v.edge v.timestamp).find?
      (fun found => found.timestamp = v.timestamp && found.deleted) with
  | some found =>
    have hfound := List.find?_some hfind
    rw [Bool.and_eq_true, decide_eq_true_iff] at hfound
    obtain ⟨hholds, hedge, -⟩ := EdgeStore.mem_history.mp (List.mem_of_find?_eq_some hfind)
    have hmark : found = mark v := by
      cases found
      simp_all [mark]
    exact .inl ⟨congrArg some hmark, hmark ▸ hholds⟩
  | none =>
    refine .inr ⟨rfl, fun hholds => ?_⟩
    have hmem := EdgeStore.mem_history.mpr ⟨hholds, rfl, UInt64.le_refl _⟩
    exact List.find?_eq_none.mp hfind _ hmem (by simp [mark])

theorem repairDelete_of_not_mark (h : g.log.unavailable = false)
    (hmark : ¬ g.log.Holds application (mark v)) (limits : RepairLimits) :
    g.repairDelete limits application v = (.ok .notDeleted, g) := by
  obtain ⟨-, hholds⟩ | ⟨hfind, -⟩ := find?_mark g.log application v
  · exact absurd hholds hmark
  · simp only [repairDelete, versionsOf_eq h, hfind]

theorem repairDelete_of_mark (hlog : g.log.unavailable = false)
    (hstorage : g.storage.unavailable = false) (hmark : g.log.Holds application (mark v))
    (hlist : g.storage.Lists application v.edge (· ≤ v.timestamp) versions)
    (limits : RepairLimits) :
    g.repairDelete limits application v = match g.deleteStored limits application versions with
      | (.error e, g) => (.error e, g)
      | (.ok removed, g) =>
        let (result, log) := g.log.delete application (mark v)
        (result.map fun _ => .repaired removed, { g with log }) := by
  obtain ⟨hfind, -⟩ | ⟨-, hholds⟩ := find?_mark g.log application v
  · rw [hlist.unique (g.storage.lists_history application v.edge v.timestamp)]
    rcases hstored : g.deleteStored limits application
      (g.storage.history application v.edge v.timestamp) with ⟨_ | _, _⟩ <;>
      simp only [repairDelete, versionsOf_eq hlog, versionsOf_eq hstorage, hfind, hstored]
  · exact absurd hmark hholds

/-! ## Repairs -/

theorem repairWrite_reruns (h : g.storage.Open)
    (hlist : g.storage.Lists application v.edge (· < v.timestamp) versions) :
    ∃ attempts, Reruns (fun g limits => g.repairWrite limits application v) id application
      versions g { g with storage :=
        (g.storage.without application versions).withRequests none attempts } := by
  obtain ⟨attempts, hwhole⟩ := exists_deleteStored_eq h application versions
  refine ⟨attempts, fun limits => (repairWrite_eq h.reachable hlist limits).trans (hwhole limits),
    fun limits limits' k hk => ?_⟩
  obtain ⟨result, cutAttempts, hcut, herror⟩ :=
    exists_deleteStored_cut h.reachable limits application hk
  -- What is left to be deleted is what the second run finds.
  let halfway : Graph := { g.cutOff k with storage :=
    (g.storage.without application (versions.take k)).withRequests (some 0) cutAttempts }
  have hleft : halfway.resumed.storage.Lists application v.edge (· < v.timestamp)
      (versions.drop k) := (hlist.without_take k).of_versions rfl
  have hopen : halfway.resumed.storage.Open :=
    ⟨(EdgeStore.unavailable_without ..).trans h.reachable, rfl⟩
  obtain ⟨finalAttempts, hfinal⟩ := exists_deleteStored_eq hopen application (versions.drop k)
  have hsame := g.storage.same_without_drop application versions k none cutAttempts
  let final : Graph := { halfway.resumed with
    storage := (halfway.resumed.storage.without application (versions.drop k)).withRequests none
      finalAttempts }
  refine ⟨result, halfway, final, ?_, herror, fun other w => hlist.holds_without_take k, ?_,
    ⟨⟨hsame.1, hsame.2⟩, ⟨rfl, rfl⟩, rfl⟩⟩
  · have hlist' : (g.cutOff k).storage.Lists application v.edge (· < v.timestamp) versions :=
      hlist.of_versions rfl
    have hreachable : (g.cutOff k).storage.unavailable = false := h.reachable
    exact (repairWrite_eq hreachable hlist' limits).trans hcut
  · rw [id, ← List.length_drop]
    exact (repairWrite_eq hopen.reachable hleft limits').trans (hfinal limits')

theorem exists_repairDelete_eq (hlog : g.log.Open) (hstorage : g.storage.Open)
    (hmark : g.log.Holds application (mark v))
    (hlist : g.storage.Lists application v.edge (· ≤ v.timestamp) versions) :
    ∃ attempts attempts', ∀ limits, g.repairDelete limits application v =
      (.ok (.repaired versions.length),
        { g with
          storage := (g.storage.without application versions).withRequests none attempts
          log := (g.log.erase ((mark v).key application)).withRequests none attempts' }) := by
  obtain ⟨attempts, hdelete⟩ := exists_deleteStored_eq hstorage application versions
  have hunlimited : g.log.deletionsLeft ≠ some 0 := by simp [hlog.unlimited]
  have hmarked := EdgeStore.delete_eq hlog.reachable hunlimited application (mark v)
  rw [hlog.unlimited, Option.map_none] at hmarked
  refine ⟨attempts, g.log.attempts ++ [v.timestamp], fun limits => ?_⟩
  rw [repairDelete_of_mark hlog.reachable hstorage.reachable hmark hlist limits, hdelete]
  dsimp only
  rw [hmarked]
  rfl

theorem exists_repairDelete_cut (hlog : g.log.unavailable = false)
    (hstorage : g.storage.unavailable = false) (hmark : g.log.Holds application (mark v))
    (hlist : g.storage.Lists application v.edge (· ≤ v.timestamp) versions) (limits : RepairLimits)
    (hk : k ≤ versions.length) :
    ∃ e attempts attempts', (g.cutOff k).repairDelete limits application v = (.error e,
      { g with
        storage := (g.storage.without application (versions.take k)).withRequests (some 0) attempts
        log := g.log.withRequests (some 0) attempts' }) := by
  have hlist' : (g.cutOff k).storage.Lists application v.edge (· ≤ v.timestamp) versions :=
    hlist.of_versions rfl
  have hmark' : (g.cutOff k).log.Holds application (mark v) := hmark
  have hlog' : (g.cutOff k).log.unavailable = false := hlog
  have hstorage' : (g.cutOff k).storage.unavailable = false := hstorage
  obtain ⟨result, attempts, hcut, -⟩ := exists_deleteStored_cut hstorage limits application hk
  have hrun := repairDelete_of_mark hlog' hstorage' hmark' hlist' limits
  rw [hcut] at hrun
  cases result with
  | error e => exact ⟨e, attempts, g.log.attempts, hrun⟩
  | ok removed => exact ⟨_, attempts, g.log.attempts ++ [v.timestamp], hrun⟩

theorem repairDelete_reruns (hlog : g.log.Open) (hstorage : g.storage.Open)
    (hmark : g.log.Holds application (mark v))
    (hlist : g.storage.Lists application v.edge (· ≤ v.timestamp) versions) :
    ∃ attempts attempts', Reruns (fun g limits => g.repairDelete limits application v) .repaired
      application versions g
        { g with
          storage := (g.storage.without application versions).withRequests none attempts
          log := (g.log.erase ((mark v).key application)).withRequests none attempts' } := by
  obtain ⟨attempts, attempts', hwhole⟩ := exists_repairDelete_eq hlog hstorage hmark hlist
  refine ⟨attempts, attempts', hwhole, fun limits limits' k hk => ?_⟩
  obtain ⟨e, cutAttempts, cutAttempts', hcut⟩ :=
    exists_repairDelete_cut hlog.reachable hstorage.reachable hmark hlist limits hk
  let halfway : Graph := { g with
    storage := (g.storage.without application (versions.take k)).withRequests (some 0) cutAttempts
    log := g.log.withRequests (some 0) cutAttempts' }
  have hleft : halfway.resumed.storage.Lists application v.edge (· ≤ v.timestamp)
      (versions.drop k) := (hlist.without_take k).of_versions rfl
  have hopen : halfway.resumed.storage.Open :=
    ⟨(EdgeStore.unavailable_without ..).trans hstorage.reachable, rfl⟩
  have hlog' : halfway.resumed.log.Open := ⟨hlog.reachable, rfl⟩
  have hmark' : halfway.resumed.log.Holds application (mark v) := hmark
  obtain ⟨finalAttempts, finalAttempts', hfinal⟩ :=
    exists_repairDelete_eq hlog' hopen hmark' hleft
  have hsame := g.storage.same_without_drop application versions k none cutAttempts
  have hlogSame : (halfway.resumed.log.erase ((mark v).key application)).Same
      (g.log.erase ((mark v).key application)) := by
    have herase : halfway.resumed.log.erase ((mark v).key application) =
        (g.log.erase ((mark v).key application)).withRequests none cutAttempts' :=
      g.log.erase_withRequests ((mark v).key application) none cutAttempts'
    rw [herase]
    exact ⟨rfl, rfl⟩
  let final : Graph := { halfway.resumed with
    storage := (halfway.resumed.storage.without application (versions.drop k)).withRequests none
      finalAttempts
    log := (halfway.resumed.log.erase ((mark v).key application)).withRequests none
      finalAttempts' }
  refine ⟨.error e, halfway, final, hcut, fun _ => ⟨e, rfl⟩,
    fun other w => hlist.holds_without_take k, ?_,
    ⟨⟨hsame.1, hsame.2⟩, ⟨hlogSame.1, hlogSame.2⟩, rfl⟩⟩
  rw [← List.length_drop]
  exact hfinal limits'

/-- **The repairs of the storage remove what they should, and can be run again.** The repair after
a write removes the versions of its edge that are older than the one that is kept. The repair after
a deletion acts if the log holds the edge as deleted at just that time; it then removes the versions
up to that time and the mark in the log. Both count what they remove from storage, find nothing more
to remove when they are repeated, and may be cut off after any number of removals: run again, they
end where they would have ended, and count the rest. A store that is out of reach stays as it is. -/
theorem repairs_exact (g : Graph) (application : String) (v : EdgeVersion) :
    (g.storage.Open → ∃ removed after,
      removed.Pairwise (fun a b => b.timestamp < a.timestamp) ∧
      (∀ w, w ∈ removed ↔
        g.storage.Holds application w ∧ w.edge = v.edge ∧ w.timestamp < v.timestamp) ∧
      Reruns (fun g limits => g.repairWrite limits application v) id application removed g after ∧
      (∀ other w, after.storage.Holds other w ↔
        g.storage.Holds other w ∧ ¬ (other = application ∧ w ∈ removed)) ∧
      after.log = g.log ∧ after.registry = g.registry ∧
      ∀ limits, after.repairWrite limits application v = (.ok 0, after)) ∧
    (g.log.unavailable = false → ¬ g.log.Holds application ⟨v.edge, v.timestamp, true⟩ →
      ∀ limits, g.repairDelete limits application v = (.ok .notDeleted, g)) ∧
    (g.log.Open → g.storage.Open → g.log.Holds application ⟨v.edge, v.timestamp, true⟩ →
      ∃ removed after,
        removed.Pairwise (fun a b => b.timestamp < a.timestamp) ∧
        (∀ w, w ∈ removed ↔
          g.storage.Holds application w ∧ w.edge = v.edge ∧ w.timestamp ≤ v.timestamp) ∧
        Reruns (fun g limits => g.repairDelete limits application v) .repaired application removed
          g after ∧
        (∀ other w, after.storage.Holds other w ↔
          g.storage.Holds other w ∧ ¬ (other = application ∧ w ∈ removed)) ∧
        (∀ other w, after.log.Holds other w ↔
          g.log.Holds other w ∧ ¬ (other = application ∧ w = ⟨v.edge, v.timestamp, true⟩)) ∧
        after.registry = g.registry ∧
        ∀ limits, after.repairDelete limits application v = (.ok .notDeleted, after)) ∧
    (g.storage.unavailable = true → ∀ limits,
      g.repairWrite limits application v = (.error EdgeStore.outage, g) ∧
      (g.repairDelete limits application v).2 = g) ∧
    (g.log.unavailable = true → ∀ limits,
      g.repairDelete limits application v = (.error EdgeStore.outage, g)) := by
  refine ⟨fun hstorage => ?_, fun hlog hmark => repairDelete_of_not_mark hlog hmark,
    fun hlog hstorage hmark => ?_, fun hstorage limits => ?_, fun hlog limits => ?_⟩
  · have hlist := g.storage.lists_older application v
    obtain ⟨attempts, hreruns⟩ := repairWrite_reruns hstorage hlist
    refine ⟨_, _, hlist.newestFirst, hlist.mem_iff, hreruns, fun _ _ => hlist.holds_without, rfl,
      rfl, fun limits => ?_⟩
    rw [repairWrite_eq ((EdgeStore.unavailable_without ..).trans hstorage.reachable)
      (hlist.without.of_versions rfl), deleteStored_nil]
  · have hlist := g.storage.lists_history application v.edge v.timestamp
    obtain ⟨attempts, attempts', hreruns⟩ := repairDelete_reruns hlog hstorage hmark hlist
    refine ⟨_, _, hlist.newestFirst, hlist.mem_iff, hreruns, fun _ _ => hlist.holds_without,
      fun other w => EdgeStore.holds_erase.trans (and_congr_right fun hw => not_congr ?_), rfl,
      fun limits => repairDelete_of_not_mark ?_ (fun hholds => ?_) limits⟩
    · constructor
      · exact EdgeStore.eq_of_key_eq hw hmark
      · rintro ⟨rfl, rfl⟩
        rfl
    · exact (g.log.unavailable_erase _).trans hlog.reachable
    · exact (EdgeStore.holds_erase.mp hholds).2 rfl
  · have hversions : ∀ edge upTo, g.storage.versionsOf application edge upTo =
        .error EdgeStore.outage := fun _ _ => if_pos hstorage
    constructor
    · rw [repairWrite, hversions]
    · unfold repairDelete
      simp only [hversions]
      split
      · rfl
      · split <;> rfl
  · have hversions : ∀ edge upTo, g.log.versionsOf application edge upTo =
        .error EdgeStore.outage := fun _ _ => if_pos hlog
    rw [repairDelete, hversions]

/-- An edge has three versions in storage, and the log has the second of them, which is a deletion.
One version is older than it, and two are no later. -/
theorem repairs_exact_owns :
    let owns : Edge := ⟨⟨1, "user"⟩, "owns", ⟨2, "car"⟩⟩
    let v : EdgeVersion := ⟨owns, 7, true⟩
    let log := EdgeStore.empty.written "app" v
    let g : Graph :=
      ⟨log, (log.written "app" ⟨owns, 4, false⟩).written "app" ⟨owns, 9, false⟩, .empty⟩
    g.storage.Open ∧ g.log.Open ∧ g.log.Holds "app" v ∧
      (∃ removed after, Reruns (fun g limits => g.repairWrite limits "app" v) id "app" removed g
        after ∧ removed.length = 1) ∧
      ∃ removed after, Reruns (fun g limits => g.repairDelete limits "app" v) .repaired "app"
        removed g after ∧ removed.length = 2 := by
  intro owns v log g
  have hstorage : g.storage.Open := ⟨rfl, rfl⟩
  have hlog : g.log.Open := ⟨rfl, rfl⟩
  have hmark : g.log.Holds "app" v := EdgeStore.holds_written.mpr ((if_pos rfl).mpr rfl)
  obtain ⟨hwrite, -, hdelete, -⟩ := repairs_exact g "app" v
  refine ⟨hstorage, hlog, hmark, ?_, ?_⟩
  · obtain ⟨removed, after, -, -, hreruns, -⟩ := hwrite hstorage
    refine ⟨removed, after, hreruns, ?_⟩
    have hrun : (g.repairWrite {} "app" v).1 = .ok 1 := by decide +kernel
    rw [hreruns.whole] at hrun
    exact Except.ok.inj hrun
  · obtain ⟨removed, after, -, -, hreruns, -⟩ := hdelete hlog hstorage hmark
    refine ⟨removed, after, hreruns, ?_⟩
    have hrun : (g.repairDelete {} "app" v).1 = .ok (.repaired 2) := by decide +kernel
    rw [hreruns.whole] at hrun
    exact DeletionRepair.repaired.inj (Except.ok.inj hrun)

end Graph

end EntityQuery
