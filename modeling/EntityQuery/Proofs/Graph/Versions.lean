import EntityQuery.Graph.Store
import Mathlib.Data.List.Basic

/-! # The versions of edges

What a store of edges holds is a set of versions, at most one for each time of an edge. Its answers
are read off that set: the versions of an edge come newest first, and an edge is there at a time if
the newest of its versions up to then is not a deletion.

* `EdgeStore.mem_history`, `EdgeStore.pairwise_history`: the versions of an edge, in their order.
* `EdgeStore.newest?_eq_some_iff`: the version that decides whether an edge is there.
* `EdgeStore.mem_present`: the edges that are there. -/

namespace EntityQuery

/-- The key under which a version is held. -/
def EdgeVersion.key (v : EdgeVersion) (application : String) : VersionKey :=
  ⟨application, v.edge, v.timestamp⟩

theorem EdgeVersion.key_eq_iff {v w : EdgeVersion} {application other : String} :
    w.key other = v.key application ↔
      other = application ∧ w.edge = v.edge ∧ w.timestamp = v.timestamp := by
  unfold key
  rw [VersionKey.mk.injEq]

theorem VersionKey.timestamp_lt {a b : VersionKey} (happlication : a.application = b.application)
    (hedge : a.edge = b.edge) (h : compare a b = .lt) : a.timestamp < b.timestamp := by
  have h : (compare a.application b.application).then
      ((compare a.edge b.edge).then (compare a.timestamp b.timestamp)) = .lt := h
  rw [happlication, hedge, Std.compare_self, Std.compare_self] at h
  exact Std.compare_eq_lt.mp h

namespace EdgeStore

variable {s : EdgeStore} {application : String} {edge : Edge} {upTo : Timestamp} {v w : EdgeVersion}

/-- A version is held. -/
def Holds (s : EdgeStore) (application : String) (v : EdgeVersion) : Prop :=
  s.versions[v.key application]? = some v.deleted

/-- A version is the newest that is held of its edge up to a time. -/
structure IsNewest (s : EdgeStore) (application : String) (upTo : Timestamp) (v : EdgeVersion) :
    Prop where
  holds : s.Holds application v
  le : v.timestamp ≤ upTo
  newest : ∀ w, s.Holds application w → w.edge = v.edge → w.timestamp ≤ upTo →
    w.timestamp ≤ v.timestamp

theorem IsNewest.mono (h : s.IsNewest application upTo v) {time : Timestamp}
    (hle : v.timestamp ≤ time) (htime : time ≤ upTo) : s.IsNewest application time v where
  holds := h.holds
  le := hle
  newest w hw hedge hwle := h.newest w hw hedge (UInt64.le_trans hwle htime)

/-! ## What is read -/

theorem mem_history :
    v ∈ s.history application edge upTo ↔
      s.Holds application v ∧ v.edge = edge ∧ v.timestamp ≤ upTo := by
  unfold history
  rw [List.mem_map]
  constructor
  · rintro ⟨⟨⟨keyApplication, keyEdge, time⟩, deleted⟩, hkey, rfl⟩
    rw [List.mem_reverse, List.mem_filter, decide_eq_true_iff] at hkey
    obtain ⟨hmem, rfl, rfl, hle⟩ := hkey
    exact ⟨Std.ExtTreeMap.mem_toList_iff_getElem?_eq_some.mp hmem, rfl, hle⟩
  · rintro ⟨hholds, rfl, hle⟩
    refine ⟨(⟨application, v.edge, v.timestamp⟩, v.deleted), ?_, rfl⟩
    rw [List.mem_reverse, List.mem_filter, decide_eq_true_iff]
    exact ⟨Std.ExtTreeMap.mem_toList_iff_getElem?_eq_some.mpr hholds, rfl, rfl, hle⟩

/-- **The versions of an edge come newest first.** -/
theorem pairwise_history (s : EdgeStore) (application : String) (edge : Edge) (upTo : Timestamp) :
    (s.history application edge upTo).Pairwise fun a b => b.timestamp < a.timestamp := by
  unfold history
  dsimp only
  rw [List.pairwise_map, List.pairwise_reverse]
  refine (Std.ExtTreeMap.ordered_keys_toList.filter _).imp_of_mem fun {a b} ha hb hlt => ?_
  have ha := (List.mem_filter.mp ha).2
  have hb := (List.mem_filter.mp hb).2
  rw [decide_eq_true_iff] at ha hb
  exact VersionKey.timestamp_lt (ha.1.trans hb.1.symm) (ha.2.1.trans hb.2.1.symm) hlt

theorem newest?_eq_some_iff :
    s.newest? application edge upTo = some v ↔ s.IsNewest application upTo v ∧ v.edge = edge := by
  unfold newest?
  constructor
  · intro h
    obtain ⟨rest, hcons⟩ := List.head?_eq_some_iff.mp h
    have hmem : ∀ w, w ∈ s.history application edge upTo ↔ w = v ∨ w ∈ rest := fun w => by
      rw [hcons, List.mem_cons]
    obtain ⟨hholds, rfl, hle⟩ := mem_history.mp ((hmem v).mpr (.inl rfl))
    refine ⟨⟨hholds, hle, fun w hw hedge hwle => ?_⟩, rfl⟩
    rcases (hmem w).mp (mem_history.mpr ⟨hw, hedge, hwle⟩) with rfl | hrest
    · exact UInt64.le_refl _
    · have hsorted := s.pairwise_history application v.edge upTo
      rw [hcons] at hsorted
      exact UInt64.le_of_lt (List.rel_of_pairwise_cons hsorted hrest)
  · rintro ⟨h, rfl⟩
    have hmem := mem_history.mpr ⟨h.holds, rfl, h.le⟩
    have hsorted := s.pairwise_history application v.edge upTo
    cases hhistory : s.history application v.edge upTo with
    | nil => simp [hhistory] at hmem
    | cons w rest =>
      have hw : w ∈ s.history application v.edge upTo := by simp [hhistory]
      obtain ⟨hwholds, hwedge, hwle⟩ := mem_history.mp hw
      rw [hhistory] at hmem hsorted
      rcases List.mem_cons.mp hmem with rfl | hrest
      · rfl
      · have hlt := List.rel_of_pairwise_cons hsorted hrest
        exact absurd (h.newest w hwholds hwedge hwle) (UInt64.not_le.mpr hlt)

theorem mem_edges : edge ∈ s.edges application ↔ ∃ v, s.Holds application v ∧ v.edge = edge := by
  unfold edges
  dsimp only
  rw [List.mem_eraseDups, List.mem_map]
  constructor
  · rintro ⟨⟨keyApplication, keyEdge, time⟩, hkey, rfl⟩
    rw [List.mem_filter, decide_eq_true_iff] at hkey
    obtain ⟨hmem, rfl⟩ := hkey
    have hkey := Std.ExtTreeMap.mem_keys.mp hmem
    exact ⟨⟨keyEdge, time, _⟩, Std.ExtTreeMap.getElem?_eq_some_getElem hkey, rfl⟩
  · rintro ⟨v, hholds, rfl⟩
    refine ⟨⟨application, v.edge, v.timestamp⟩, ?_, rfl⟩
    rw [List.mem_filter, decide_eq_true_iff, Std.ExtTreeMap.mem_keys]
    exact ⟨Std.ExtTreeMap.mem_iff_isSome_getElem?.mpr (Option.isSome_of_eq_some hholds), rfl⟩

/-- **The edges that are there** are those whose newest version is not a deletion. -/
theorem mem_present {q : EdgeQuery} :
    v ∈ s.present application q ↔
      q.selects v.edge = true ∧ s.IsNewest application q.upTo v ∧ v.deleted = false := by
  unfold present
  rw [List.mem_filterMap]
  constructor
  · rintro ⟨e, he, hv⟩
    obtain ⟨hfound, hlive⟩ := Option.filter_eq_some_iff.mp hv
    obtain ⟨hnewest, rfl⟩ := newest?_eq_some_iff.mp hfound
    exact ⟨(List.mem_filter.mp he).2, hnewest, by simpa using hlive⟩
  · rintro ⟨hselects, hnewest, hlive⟩
    refine ⟨v.edge, List.mem_filter.mpr ⟨mem_edges.mpr ⟨v, hnewest.holds, rfl⟩, hselects⟩, ?_⟩
    rw [Option.filter_eq_some_iff, newest?_eq_some_iff]
    exact ⟨⟨hnewest, rfl⟩, by simp [hlive]⟩

/-! ## What is changed -/

/-- Nothing keeps a store from carrying out what it is asked. -/
structure Open (s : EdgeStore) : Prop where
  reachable : s.unavailable = false
  unlimited : s.deletionsLeft = none

/-- The store after a version has been written. -/
def written (s : EdgeStore) (application : String) (v : EdgeVersion) : EdgeStore :=
  { s with
    versions := s.versions.insert (v.key application) v.deleted
    mutations := s.mutations + 1 }

theorem eq_written {s' : EdgeStore} (h : s.write application v = .ok s') :
    s' = s.written application v := by
  unfold write at h
  split_ifs at h
  exact (Except.ok.inj h).symm

theorem Open.written (h : s.Open) : (s.written application v).Open := ⟨h.reachable, h.unlimited⟩

theorem holds_written {other : String} :
    (s.written application v).Holds other w ↔
      if w.key other = v.key application then w.deleted = v.deleted else s.Holds other w := by
  unfold Holds written
  rw [Std.ExtTreeMap.getElem?_insert]
  by_cases hkey : w.key other = v.key application
  · rw [if_pos hkey, hkey, if_pos Std.compare_self, Option.some.injEq]
    exact eq_comm
  · rw [if_neg hkey, if_neg (fun h => hkey (Std.compare_eq_iff_eq.mp h).symm)]

theorem holds_erase {key : VersionKey} {other : String} :
    (s.erase key).Holds other w ↔ s.Holds other w ∧ w.key other ≠ key := by
  unfold Holds erase
  split_ifs with hmem
  · rw [Std.ExtTreeMap.getElem?_erase]
    by_cases hkey : w.key other = key
    · simp [hkey]
    · rw [if_neg (fun h => hkey (Std.compare_eq_iff_eq.mp h).symm)]
      simp [hkey]
  · refine (and_iff_left_of_imp ?_).symm
    rintro hholds rfl
    exact hmem (Std.ExtTreeMap.mem_iff_isSome_getElem?.mpr (Option.isSome_of_eq_some hholds))

theorem Open.exists_delete (h : s.Open) (application : String) (v : EdgeVersion) :
    ∃ s', s.delete application v = (.ok (), s') ∧ s'.Open ∧ ∀ other w, s'.Holds other w ↔
      s.Holds other w ∧ w.key other ≠ v.key application := by
  obtain ⟨versions, mutations, unavailable, deletionsLeft, attempts⟩ := s
  obtain ⟨rfl, rfl⟩ : unavailable = false ∧ deletionsLeft = none := ⟨h.reachable, h.unlimited⟩
  refine ⟨_, rfl, ?_, fun other w => holds_erase⟩
  unfold erase
  split_ifs <;> exact ⟨rfl, rfl⟩

end EdgeStore

end EntityQuery
