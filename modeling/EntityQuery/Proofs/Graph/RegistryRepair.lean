import EntityQuery.Proofs.Graph.Registry

/-! # The repair of the registry, and its repetition

The repair of a label keeps the kinds that an edge in storage backs and those that were seen after
the time up to which it looks. A registry in which all kinds of the label are such is left as it is,
down to the count of changes. So the repair has nothing to do when it is repeated, and as the kinds
that are in use are among those it keeps, it counts the same.

* `EdgeRegistry.entries_ext`: entries are known by when their label and their kinds were seen.
* `Graph.repairRegistry_eq_self`: what the repair leaves as it is.
* `Graph.repairRegistry_exact`: **the repair of the registry is exact and idempotent**. -/

namespace EntityQuery

namespace EdgeRegistry

variable {r r' : EdgeRegistry} {key other : RegistryKey} {kind : String} {upTo : Timestamp}

/-- **An entry is known by when its label and its kinds were seen.** -/
theorem entries_ext (hlabel : r.labelSeen? key = r'.labelSeen? key)
    (hkinds : ∀ kind, r.kindSeen? key kind = r'.kindSeen? key kind) :
    r.entries[key]? = r'.entries[key]? := by
  unfold labelSeen? at hlabel
  unfold kindSeen? at hkinds
  cases hentry : r.entries[key]? with
  | none =>
    rw [hentry, Option.map_none, eq_comm, Option.map_eq_none_iff] at hlabel
    exact hlabel.symm
  | some entry =>
    rw [hentry, Option.map_some, eq_comm, Option.map_eq_some_iff] at hlabel
    obtain ⟨entry', hentry', htimestamp⟩ := hlabel
    simp only [hentry, hentry', Option.bind_some] at hkinds
    have hsame : entry.kinds = entry'.kinds := Std.ExtTreeMap.ext_getElem? hkinds
    rw [hentry', Option.some.injEq]
    cases entry
    cases entry'
    simp_all

theorem nodup_kinds (r : EdgeRegistry) (key : RegistryKey) : (r.kinds key).Nodup := by
  unfold kinds
  cases r.entries[key]? with
  | none => exact List.nodup_nil
  | some entry => exact Std.ExtTreeMap.nodup_keys

theorem forgetKind_eq_self (h : ∀ time, r.kindSeen? key kind = some time → upTo < time) :
    r.forgetKind key kind upTo = r := by
  unfold forgetKind
  cases hentry : r.entries[key]? with
  | none => rfl
  | some entry =>
    refine if_neg fun hold => ?_
    obtain ⟨time, htime, hle⟩ := (Option.any_eq_true _ _).mp hold
    have hlt := h time (by rw [kindSeen?, hentry, Option.bind_some, htime])
    exact UInt64.not_le.mpr hlt (of_decide_eq_true hle)

theorem forgetLabel_eq_self (h : ∀ time, r.labelSeen? key = some time → upTo < time) :
    r.forgetLabel key upTo = r := by
  refine if_neg fun hold => ?_
  obtain ⟨entry, hentry, hle⟩ := (Option.any_eq_true _ _).mp hold
  have hlt := h entry.timestamp (by rw [labelSeen?, hentry, Option.map_some])
  exact UInt64.not_le.mpr hlt (of_decide_eq_true hle)

end EdgeRegistry

namespace Graph

variable {storage : EdgeStore} {g : Graph} {key : RegistryKey} {upTo : Timestamp}

theorem checkKinds_eq_self (h : storage.unavailable = false) {r : EdgeRegistry}
    {kinds : List String} (hkept : ∀ kind ∈ kinds, storage.backs key kind upTo = true ∨
      ∀ time, r.kindSeen? key kind = some time → upTo < time) :
    runEach (checkKind storage key upTo) r kinds =
      (.ok (kinds.map (storage.backs key · upTo)), r) := by
  induction kinds with
  | nil => rfl
  | cons kind kinds ih =>
    obtain ⟨hkind, hkinds⟩ := List.forall_mem_cons.mp hkept
    have hcheck : checkKind storage key upTo r kind = (.ok (storage.backs key kind upTo), r) := by
      rw [checkKind_eq h]
      rcases hkind with hbacks | hlater
      · rw [if_pos hbacks]
      · rw [EdgeRegistry.forgetKind_eq_self hlater, ite_self]
    simp only [runEach, hcheck, ih hkinds, List.map_cons]

/-- The kinds of a label that an edge in storage backs. -/
def used (g : Graph) (key : RegistryKey) (upTo : Timestamp) : List String :=
  (g.registry.kinds key).filter (g.storage.backs key · upTo)

theorem mem_used {kind : String} :
    kind ∈ g.used key upTo ↔
      kind ∈ g.registry.kinds key ∧ g.storage.backs key kind upTo = true :=
  List.mem_filter

theorem length_used (g : Graph) (key : RegistryKey) (upTo : Timestamp) :
    (g.used key upTo).length = (g.registry.kinds key).countP (g.storage.backs key · upTo) :=
  List.countP_eq_length_filter.symm

theorem repairRegistry_limits (g : Graph) (limits limits' : RepairLimits) (key : RegistryKey)
    (upTo : Timestamp) :
    g.repairRegistry limits key upTo = g.repairRegistry limits' key upTo := by
  simp only [repairRegistry, runWindowed_eq_runEach]

/-- **What is in use or was seen later is left as it is.** -/
theorem repairRegistry_eq_self (h : g.storage.unavailable = false)
    (hkinds : ∀ kind time, g.registry.kindSeen? key kind = some time →
      g.storage.backs key kind upTo = true ∨ upTo < time)
    (hlabel : (g.used key upTo).length = 0 →
      ∀ time, g.registry.labelSeen? key = some time → upTo < time)
    (limits : RepairLimits) :
    g.repairRegistry limits key upTo = (.ok (g.used key upTo).length, g) := by
  have hkept : ∀ kind ∈ g.registry.kinds key, g.storage.backs key kind upTo = true ∨
      ∀ time, g.registry.kindSeen? key kind = some time → upTo < time := by
    intro kind _
    by_cases hbacks : g.storage.backs key kind upTo = true
    · exact .inl hbacks
    · exact .inr fun time htime => (hkinds kind time htime).resolve_left hbacks
  have hcount : ((g.registry.kinds key).map (g.storage.backs key · upTo)).count true =
      (g.used key upTo).length := by
    rw [length_used, List.count_eq_countP, List.countP_map]
    exact List.countP_congr fun kind _ => by simp
  unfold repairRegistry
  simp only [runWindowed_eq_runEach, checkKinds_eq_self h hkept, hcount]
  split_ifs with hnone
  · rw [EdgeRegistry.forgetLabel_eq_self (hlabel hnone)]
  · rfl

/-- **The repair of the registry is exact and idempotent.** It counts the kinds of the label for
which some edge is there, of which the newest version up to the given time is no deletion. These and
the kinds that were seen after that time stay, as they were; the label goes if no kind is counted
and it was not seen after that time either. Nothing else changes, and when the repair is repeated
nothing at all. -/
theorem repairRegistry_exact (g : Graph) (key : RegistryKey) (upTo : Timestamp) :
    (g.storage.unavailable = false → ∃ (inUse : List String) (registry : EdgeRegistry),
      inUse.Nodup ∧
      (∀ kind, kind ∈ inUse ↔ kind ∈ g.registry.kinds key ∧ ∃ edge v,
        (edge.near key.side = key.node ∧ edge.label = key.label ∧
          (edge.far key.side).kind = kind) ∧
        g.storage.newest? key.application edge upTo = some v ∧ v.deleted = false) ∧
      (∀ limits, g.repairRegistry limits key upTo = (.ok inUse.length, { g with registry })) ∧
      (∀ kind time, registry.kindSeen? key kind = some time ↔
        g.registry.kindSeen? key kind = some time ∧ (kind ∈ inUse ∨ upTo < time)) ∧
      (∀ time, registry.labelSeen? key = some time ↔
        g.registry.labelSeen? key = some time ∧ (inUse.length ≠ 0 ∨ upTo < time)) ∧
      (∀ other, other ≠ key → registry.entries[other]? = g.registry.entries[other]?) ∧
      ∀ limits, { g with registry }.repairRegistry limits key upTo =
        (.ok inUse.length, { g with registry })) ∧
    (g.storage.unavailable = true → g.registry.kinds key ≠ [] → ∀ limits,
      g.repairRegistry limits key upTo = (.error EdgeStore.outage, g)) := by
  refine ⟨fun h => ?_, fun h hsome limits => ?_⟩
  · obtain ⟨registry, hrun, hkinds, hlabels⟩ := exists_repairRegistry h {} key upTo
    have hkept : ∀ kind time, registry.kindSeen? key kind = some time ↔
        g.registry.kindSeen? key kind = some time ∧ (kind ∈ g.used key upTo ∨ upTo < time) := by
      intro kind time
      rw [hkinds]
      refine and_congr_right fun hseen => ?_
      have hregistered : kind ∈ g.registry.kinds key := EdgeRegistry.mem_kinds_iff.mpr ⟨time, hseen⟩
      rw [mem_used, and_iff_right hregistered, ← UInt64.not_le]
      cases g.storage.backs key kind upTo <;> simp
    have hlabel : ∀ time, registry.labelSeen? key = some time ↔
        g.registry.labelSeen? key = some time ∧
          ((g.used key upTo).length ≠ 0 ∨ upTo < time) := by
      intro time
      have hnone : (∀ kind ∈ g.registry.kinds key, g.storage.backs key kind upTo = false) ↔
          (g.used key upTo).length = 0 := by
        rw [length_used, List.countP_eq_zero]
        simp only [Bool.not_eq_true]
      rw [hlabels, hnone, and_iff_right rfl, ← UInt64.not_le, ← not_and_or]
    have hothers : ∀ other, other ≠ key →
        registry.entries[other]? = g.registry.entries[other]? := by
      refine fun other hother => EdgeRegistry.entries_ext (Option.ext fun time => ?_)
        fun kind => Option.ext fun time => ?_
      · rw [hlabels]
        exact and_iff_left fun hkey => hother hkey.1
      · rw [hkinds]
        exact and_iff_left fun hkey => hother hkey.1
    -- The kinds that are in use are registered still, and no others are.
    have hused : (({ g with registry } : Graph).used key upTo).length =
        (g.used key upTo).length := by
      refine List.Perm.length_eq ((List.perm_ext_iff_of_nodup
        ((registry.nodup_kinds key).filter _) ((g.registry.nodup_kinds key).filter _)).mpr ?_)
      intro kind
      rw [List.mem_filter, List.mem_filter, EdgeRegistry.mem_kinds_iff, EdgeRegistry.mem_kinds_iff]
      refine and_congr_left fun hbacks => exists_congr fun time => ?_
      rw [hkinds]
      exact and_iff_left fun hkey => Bool.false_ne_true (hkey.2.1.symm.trans hbacks)
    refine ⟨g.used key upTo, registry, (g.registry.nodup_kinds key).filter _, fun kind => ?_,
      fun limits => ?_, hkept, hlabel, hothers, fun limits => ?_⟩
    · rw [mem_used, EdgeStore.backs_iff]
      refine and_congr_right fun _ => ⟨?_, ?_⟩
      · rintro ⟨v, hedge, hnewest, hlive⟩
        exact ⟨v.edge, v, hedge, EdgeStore.newest?_eq_some_iff.mpr ⟨hnewest, rfl⟩, hlive⟩
      · rintro ⟨_, v, hedge, hfound, hlive⟩
        obtain ⟨hnewest, rfl⟩ := EdgeStore.newest?_eq_some_iff.mp hfound
        exact ⟨v, hedge, hnewest, hlive⟩
    · rw [repairRegistry_limits g limits {}, hrun, length_used]
    · have hreachable : ({ g with registry } : Graph).storage.unavailable = false := h
      rw [← hused]
      refine repairRegistry_eq_self hreachable (fun kind time hseen => ?_)
        (fun hnone time hseen => ?_) limits
      · rcases ((hkept kind time).mp hseen).2 with hmem | hlater
        · exact .inl (mem_used.mp hmem).2
        · exact .inr hlater
      · exact ((hlabel time).mp hseen).2.resolve_left fun hsome => hsome (hused ▸ hnone)
  · obtain ⟨kind, kinds, hkinds⟩ := List.exists_cons_of_ne_nil hsome
    have hlive : ∀ query, g.storage.live key.application query 1 = .error EdgeStore.outage :=
      fun _ => if_pos h
    simp only [repairRegistry, runWindowed_eq_runEach, hkinds, runEach, checkKind, hlive]

/-- Three kinds are registered for a label. Of one an edge is there, one was seen later, and one is
forgotten. -/
theorem repairRegistry_exact_owns :
    let user : Node := ⟨1, "user"⟩
    let key : RegistryKey := ⟨"app", user, .outgoing, "owns"⟩
    let g : Graph := ⟨.empty, EdgeStore.empty.written "app" ⟨⟨user, "owns", ⟨2, "car"⟩⟩, 3, false⟩,
      ((EdgeRegistry.empty.see key "car" 3).see key "bike" 8).see key "boat" 2⟩
    g.storage.unavailable = false ∧ g.registry.kinds key = ["bike", "boat", "car"] ∧
      ∃ (inUse : List String) (registry : EdgeRegistry), inUse.length = 1 ∧
        (∀ limits, g.repairRegistry limits key 5 = (.ok inUse.length, { g with registry })) ∧
        (∀ kind time, registry.kindSeen? key kind = some time ↔
          g.registry.kindSeen? key kind = some time ∧ (kind ∈ inUse ∨ 5 < time)) ∧
        ∀ limits, { g with registry }.repairRegistry limits key 5 =
          (.ok inUse.length, { g with registry }) := by
  intro user key g
  have hkinds : g.registry.kinds key = ["bike", "boat", "car"] := by decide +kernel
  obtain ⟨inUse, registry, -, -, hrun, hkept, -, -, hagain⟩ := (repairRegistry_exact g key 5).1 rfl
  have hcount : (g.repairRegistry {} key 5).1 = .ok 1 := by decide +kernel
  rw [hrun] at hcount
  exact ⟨rfl, hkinds, inUse, registry, Except.ok.inj hcount, hrun, hkept, hagain⟩

end Graph

end EntityQuery
