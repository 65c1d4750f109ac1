import EntityQuery.Proofs.Graph.Deletions
import Mathlib.Data.List.Count

/-! # Repairs of the registry

A registry is known by when it last saw each label of a side of a node, and by when it last saw each
kind at the other end. The repair of a label goes through its kinds one after another and forgets
those that no edge in storage backs, unless they were seen after the time up to which it looks.

* `EdgeRegistry.kindSeen?`, `EdgeRegistry.labelSeen?`: what is registered, and how it changes.
* `EdgeStore.backs_iff`: when an edge in storage backs a kind.
* `Graph.exists_repairRegistry`: what the repair of a label forgets. -/

namespace EntityQuery

namespace EdgeRegistry

variable {r : EdgeRegistry} {key other : RegistryKey} {kind : String} {time upTo : Timestamp}

/-- When a kind of node was last seen at the other end of edges. -/
def kindSeen? (r : EdgeRegistry) (key : RegistryKey) (kind : String) : Option Timestamp :=
  r.entries[key]?.bind (·.kinds[kind]?)

/-- When a label was last seen. -/
def labelSeen? (r : EdgeRegistry) (key : RegistryKey) : Option Timestamp :=
  r.entries[key]?.map (·.timestamp)

theorem mem_kinds_iff : kind ∈ r.kinds key ↔ ∃ time, r.kindSeen? key kind = some time := by
  unfold kinds kindSeen?
  cases r.entries[key]? with
  | none => simp
  | some entry =>
    rw [Option.map_some, Option.getD_some, Std.ExtTreeMap.mem_keys, Option.bind_some]
    exact Std.ExtTreeMap.mem_iff_isSome_getElem?.trans Option.isSome_iff_exists

/-- **A label is seen no earlier than its kinds.** -/
theorem exists_labelSeen (h : r.kindSeen? key kind = some time) :
    ∃ last, r.labelSeen? key = some last ∧ time ≤ last := by
  obtain ⟨entry, hentry, hkind⟩ := Option.bind_eq_some_iff.mp h
  exact ⟨entry.timestamp, by rw [labelSeen?, hentry, Option.map_some],
    entry.kinds_le kind time hkind⟩

/-! ## What is seen -/

theorem kindSeen?_see (r : EdgeRegistry) (key other : RegistryKey) (kind far : String)
    (time : Timestamp) :
    (r.see key kind time).kindSeen? other far =
      if other = key ∧ far = kind then
        some (((r.kindSeen? key kind).map (Timestamp.later · time)).getD time)
      else r.kindSeen? other far := by
  unfold see put kindSeen?
  simp only [Std.ExtTreeMap.getElem?_insert, Std.compare_eq_iff_eq]
  rcases eq_or_ne other key with rfl | hkey
  · rw [if_pos rfl, Option.bind_some]
    cases hentry : r.entries[other]? with
    | none =>
      simp only [RegistryEntry.first, Std.ExtTreeMap.getElem?_insert, Std.compare_eq_iff_eq]
      rcases eq_or_ne far kind with rfl | hfar
      · simp
      · simp [hfar, hfar.symm]
    | some entry =>
      simp only [RegistryEntry.see, RegistryEntry.lastSeen, Std.ExtTreeMap.getElem?_insert,
        Std.compare_eq_iff_eq]
      rcases eq_or_ne far kind with rfl | hfar
      · simp
      · simp [hfar, hfar.symm]
  · rw [if_neg hkey.symm, if_neg fun h => hkey h.1]

theorem exists_kindSeen_see (r : EdgeRegistry) (key : RegistryKey) (kind : String)
    (time : Timestamp) : ∃ last, (r.see key kind time).kindSeen? key kind = some last ∧
      time ≤ last := by
  rw [kindSeen?_see, if_pos ⟨rfl, rfl⟩]
  refine ⟨_, rfl, ?_⟩
  cases r.kindSeen? key kind with
  | none => exact UInt64.le_refl time
  | some before => exact Timestamp.le_later_right before time

theorem exists_kindSeen_of_see {far : String} {before : Timestamp}
    (h : r.kindSeen? other far = some before) (key : RegistryKey) (kind : String)
    (time : Timestamp) :
    ∃ last, (r.see key kind time).kindSeen? other far = some last ∧ before ≤ last := by
  rw [kindSeen?_see]
  split_ifs with hsame
  · obtain ⟨rfl, rfl⟩ := hsame
    rw [h]
    exact ⟨_, rfl, Timestamp.le_later_left before time⟩
  · exact ⟨before, h, UInt64.le_refl before⟩

/-! ## What is forgotten -/

/-- A kind is forgotten unless it was seen after a time, and nothing else is. -/
theorem kindSeen?_forgetKind {far : String} :
    (r.forgetKind key kind upTo).kindSeen? other far = some time ↔
      r.kindSeen? other far = some time ∧ ¬ (other = key ∧ far = kind ∧ time ≤ upTo) := by
  unfold forgetKind
  cases hentry : r.entries[key]? with
  | none =>
    refine (and_iff_left_of_imp fun hseen => ?_).symm
    rintro ⟨rfl, -⟩
    simp [kindSeen?, hentry] at hseen
  | some entry =>
    dsimp only
    have hseen : ∀ far, r.kindSeen? key far = entry.kinds[far]? := fun far => by
      rw [kindSeen?, hentry, Option.bind_some]
    split_ifs with hold
    · obtain ⟨last, hlast, hle⟩ := (Option.any_eq_true _ _).mp hold
      unfold put kindSeen? RegistryEntry.forget
      simp only [Std.ExtTreeMap.getElem?_insert, Std.compare_eq_iff_eq]
      rcases eq_or_ne other key with rfl | hkey
      · rw [if_pos rfl, hentry, Option.bind_some, Option.bind_some]
        simp only [Std.ExtTreeMap.getElem?_erase, Std.compare_eq_iff_eq]
        rcases eq_or_ne far kind with rfl | hfar
        · rw [if_pos rfl, hlast]
          refine iff_of_false nofun ?_
          rintro ⟨⟨⟩, hkept⟩
          exact hkept ⟨trivial, rfl, of_decide_eq_true hle⟩
        · simp [hfar, hfar.symm]
      · simp [hkey, hkey.symm]
    · refine (and_iff_left_of_imp fun hlast => ?_).symm
      rintro ⟨rfl, rfl, hle⟩
      rw [hseen] at hlast
      exact hold (by rw [hlast]; exact decide_eq_true hle)

theorem labelSeen?_forgetKind :
    (r.forgetKind key kind upTo).labelSeen? other = r.labelSeen? other := by
  unfold forgetKind
  cases hentry : r.entries[key]? with
  | none => rfl
  | some entry =>
    dsimp only
    split_ifs
    · unfold put labelSeen?
      simp only [Std.ExtTreeMap.getElem?_insert, Std.compare_eq_iff_eq]
      split_ifs with hkey
      · rw [← hkey, hentry]
        rfl
      · rfl
    · rfl

theorem labelSeen?_forgetLabel :
    (r.forgetLabel key upTo).labelSeen? other = some time ↔
      r.labelSeen? other = some time ∧ ¬ (other = key ∧ time ≤ upTo) := by
  unfold forgetLabel
  split_ifs with hold
  · obtain ⟨entry, hentry, hle⟩ := (Option.any_eq_true _ _).mp hold
    unfold labelSeen?
    simp only [Std.ExtTreeMap.getElem?_erase, Std.compare_eq_iff_eq]
    rcases eq_or_ne other key with rfl | hkey
    · rw [if_pos rfl, hentry]
      refine iff_of_false nofun ?_
      rintro ⟨⟨⟩, hkept⟩
      exact hkept ⟨rfl, of_decide_eq_true hle⟩
    · simp [hkey, hkey.symm]
  · refine (and_iff_left_of_imp fun hlast => ?_).symm
    rintro ⟨rfl, hle⟩
    obtain ⟨entry, hentry, rfl⟩ := Option.map_eq_some_iff.mp hlast
    exact hold (by rw [hentry]; exact decide_eq_true hle)

theorem kindSeen?_forgetLabel :
    (r.forgetLabel key upTo).kindSeen? other kind = some time ↔
      r.kindSeen? other kind = some time ∧
        ¬ (other = key ∧ ∃ last, r.labelSeen? key = some last ∧ last ≤ upTo) := by
  unfold forgetLabel
  split_ifs with hold
  · obtain ⟨entry, hentry, hle⟩ := (Option.any_eq_true _ _).mp hold
    have hlabel : ∃ last, r.labelSeen? key = some last ∧ last ≤ upTo :=
      ⟨entry.timestamp, by rw [labelSeen?, hentry, Option.map_some], of_decide_eq_true hle⟩
    simp only [hlabel, and_true]
    unfold kindSeen?
    simp only [Std.ExtTreeMap.getElem?_erase, Std.compare_eq_iff_eq]
    rcases eq_or_ne other key with rfl | hkey
    · simp
    · simp [hkey, hkey.symm]
  · refine (and_iff_left_of_imp fun _ => ?_).symm
    rintro ⟨-, last, hlast, hle⟩
    obtain ⟨entry, hentry, rfl⟩ := Option.map_eq_some_iff.mp hlast
    exact hold (by rw [hentry]; exact decide_eq_true hle)

end EdgeRegistry

/-! ## What storage backs -/

namespace EdgeStore

/-- Whether an edge with a label to a node of a kind is there at a time. -/
def backs (s : EdgeStore) (key : RegistryKey) (kind : String) (upTo : Timestamp) : Bool :=
  !(s.present key.application ⟨key.node, key.side, key.label, kind, upTo⟩).isEmpty

theorem backs_iff {s : EdgeStore} {key : RegistryKey} {kind : String} {upTo : Timestamp} :
    s.backs key kind upTo = true ↔
      ∃ v, (v.edge.near key.side = key.node ∧ v.edge.label = key.label ∧
        (v.edge.far key.side).kind = kind) ∧
        s.IsNewest key.application upTo v ∧ v.deleted = false := by
  unfold backs
  rw [Bool.not_eq_true', List.isEmpty_eq_false_iff_exists_mem]
  simp only [mem_present, EdgeQuery.selects, Bool.and_eq_true, decide_eq_true_iff, and_assoc]

end EdgeStore

namespace Graph

variable {storage : EdgeStore} {g : Graph} {key : RegistryKey} {upTo : Timestamp}

theorem checkKind_eq (h : storage.unavailable = false) (r : EdgeRegistry) (kind : String) :
    checkKind storage key upTo r kind = (.ok (storage.backs key kind upTo),
      if storage.backs key kind upTo then r else r.forgetKind key kind upTo) := by
  unfold checkKind EdgeStore.live EdgeStore.backs
  cases hpresent : storage.present key.application ⟨key.node, key.side, key.label, kind, upTo⟩ with
  | nil => simp [h, hpresent]
  | cons v rest => simp [h, hpresent]

/-- Kinds are checked one after another, and those that nothing backs are forgotten. -/
theorem exists_checkKinds (h : storage.unavailable = false) (key : RegistryKey)
    (upTo : Timestamp) (r : EdgeRegistry) (kinds : List String) :
    ∃ r', runEach (checkKind storage key upTo) r kinds =
        (.ok (kinds.map (storage.backs key · upTo)), r') ∧
      (∀ other, r'.labelSeen? other = r.labelSeen? other) ∧
      ∀ other kind time, r'.kindSeen? other kind = some time ↔
        r.kindSeen? other kind = some time ∧
          ¬ (other = key ∧ kind ∈ kinds ∧ storage.backs key kind upTo = false ∧ time ≤ upTo) := by
  induction kinds generalizing r with
  | nil => exact ⟨r, rfl, fun _ => rfl, by simp⟩
  | cons first rest ih =>
    obtain ⟨last, hrest, hlabels, hkinds⟩ :=
      ih (if storage.backs key first upTo then r else r.forgetKind key first upTo)
    refine ⟨last, ?_, fun other => ?_, fun other kind time => ?_⟩
    · simp only [runEach, checkKind_eq h, hrest, List.map_cons]
    · rw [hlabels]
      split_ifs
      · rfl
      · exact EdgeRegistry.labelSeen?_forgetKind
    · rw [hkinds, List.mem_cons]
      cases hbacks : storage.backs key first upTo with
      | true =>
        rw [if_pos rfl]
        refine and_congr_right fun _ => not_congr (and_congr_right fun _ => ?_)
        by_cases hfirst : kind = first
        · simp [hfirst, hbacks]
        · simp [hfirst]
      | false =>
        rw [if_neg Bool.false_ne_true, EdgeRegistry.kindSeen?_forgetKind, and_assoc]
        refine and_congr_right fun _ => ?_
        by_cases hfirst : kind = first
        · subst hfirst
          simp only [hbacks, true_and, true_or]
          tauto
        · simp [hfirst]

/-- **The repair of a label** forgets those of its kinds that nothing backs, and the label too if
nothing backs any of them, except what was seen after the time up to which it looks. -/
theorem exists_repairRegistry (h : g.storage.unavailable = false) (limits : RepairLimits)
    (key : RegistryKey) (upTo : Timestamp) :
    ∃ registry, g.repairRegistry limits key upTo =
        (.ok ((g.registry.kinds key).countP (g.storage.backs key · upTo)),
          { g with registry }) ∧
      (∀ other kind time, registry.kindSeen? other kind = some time ↔
        g.registry.kindSeen? other kind = some time ∧
          ¬ (other = key ∧ g.storage.backs key kind upTo = false ∧ time ≤ upTo)) ∧
      ∀ other time, registry.labelSeen? other = some time ↔
        g.registry.labelSeen? other = some time ∧
          ¬ (other = key ∧ (∀ kind ∈ g.registry.kinds key, g.storage.backs key kind upTo = false) ∧
            time ≤ upTo) := by
  obtain ⟨checked, hrun, hlabels, hkinds⟩ := exists_checkKinds h key upTo g.registry
    (g.registry.kinds key)
  -- A kind that was not registered is not forgotten either.
  have hkinds : ∀ other kind time, checked.kindSeen? other kind = some time ↔
      g.registry.kindSeen? other kind = some time ∧
        ¬ (other = key ∧ g.storage.backs key kind upTo = false ∧ time ≤ upTo) := by
    intro other kind time
    rw [hkinds]
    refine and_congr_right fun hseen => not_congr (and_congr_right fun hkey => ?_)
    subst hkey
    exact and_iff_right (EdgeRegistry.mem_kinds_iff.mpr ⟨time, hseen⟩)
  have hcount : ((g.registry.kinds key).map (g.storage.backs key · upTo)).count true =
      (g.registry.kinds key).countP (g.storage.backs key · upTo) := by
    rw [List.count_eq_countP, List.countP_map]
    exact List.countP_congr fun kind _ => by simp
  have hunused : (g.registry.kinds key).countP (g.storage.backs key · upTo) = 0 ↔
      ∀ kind ∈ g.registry.kinds key, g.storage.backs key kind upTo = false := by
    simp only [List.countP_eq_zero, Bool.not_eq_true]
  unfold repairRegistry
  simp only [runWindowed_eq_runEach, hrun, hcount]
  refine ⟨_, rfl, ?_, ?_⟩
  · intro other kind time
    split_ifs with hnone
    · rw [EdgeRegistry.kindSeen?_forgetLabel, hkinds, and_assoc]
      refine and_congr_right fun hseen => and_iff_left_of_imp ?_
      rintro hkept ⟨rfl, last, hlast, hle⟩
      obtain ⟨seen, hlabel, hearlier⟩ := EdgeRegistry.exists_labelSeen hseen
      rw [hlabels, hlabel] at hlast
      obtain rfl := Option.some.inj hlast
      have hfalse := hunused.mp hnone kind (EdgeRegistry.mem_kinds_iff.mpr ⟨time, hseen⟩)
      exact hkept ⟨rfl, hfalse, UInt64.le_trans hearlier hle⟩
    · exact hkinds other kind time
  · intro other time
    split_ifs with hnone
    · rw [EdgeRegistry.labelSeen?_forgetLabel, hlabels, and_iff_right (hunused.mp hnone)]
    · rw [hlabels]
      exact (and_iff_left fun h => hnone (hunused.mpr h.2.1)).symm

end Graph

end EntityQuery
