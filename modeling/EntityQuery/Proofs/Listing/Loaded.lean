import EntityQuery.Listing
import EntityQuery.Proofs.Search.Rows
import Mathlib.Data.List.Induction

/-! # Entities in a store and in an index

What a store holds after entities have been put into it, and what an index holds after everything in
the store has been indexed.

* `EntityStore.get?_ofEntities`: under every id stands the last entity that names it.
* `SearchIndex.has_ofStore`: the rows of the index of a store are its entities, each at the version
  at which it is held.
* `EntityStore.mem_values`: the values that entities have under a property. -/

namespace EntityQuery

/-! ## Stores of entities -/

namespace EntityStore

variable {s t : EntityStore} {entities : List Json} {index : Nat} {id : EntityId} {doc : Json}

/-- The last entity that names an id. -/
def entityOf? (entities : List Json) (id : EntityId) : Option Json :=
  entities.reverse.find? fun entity => entity.wordAt? "id" = some id

/-- The record that an entity is put into a store as. -/
def recordOf (entity : Json) : Record := ⟨(entity.wordAt? "version").getD 1, .payload entity⟩

theorem entityOf?_cons (entity : Json) (rest : List Json) (id : EntityId) :
    entityOf? (entity :: rest) id =
      (entityOf? rest id).or (if entity.wordAt? "id" = some id then some entity else none) := by
  unfold entityOf?
  rw [List.reverse_cons, List.find?_append, List.find?_singleton]
  simp only [decide_eq_true_eq]

/-- After entities have been put into a store, it holds the last one that names an id, or what it
held before if there is none. -/
theorem get?_putEntities (h : s.putEntities index entities = .ok t) (id : EntityId) :
    t.get? id = ((entityOf? entities id).map recordOf).or (s.get? id) := by
  fun_induction putEntities s index entities with
  | case1 s index =>
    obtain rfl := Except.ok.inj h
    rfl
  | case2 s index entity rest hid => cases h
  | case3 s index entity rest key hid version ih =>
    rw [ih h, entityOf?_cons, get?_put, hid]
    cases entityOf? rest id with
    | some last => rfl
    | none => by_cases hkey : key = id <;> simp [hkey, recordOf, version]

theorem unavailable_putEntities (h : s.putEntities index entities = .ok t) :
    t.unavailable = s.unavailable := by
  fun_induction putEntities s index entities with
  | case1 s index =>
    obtain rfl := Except.ok.inj h
    rfl
  | case2 s index entity rest hid => cases h
  | case3 s index entity rest key hid version ih => exact ih h

/-- **A store of entities holds the last one that names an id**, at the version that it gives. -/
theorem get?_ofEntities (h : ofEntities (.array entities) = .ok t) (id : EntityId) :
    t.get? id = (entityOf? entities id).map recordOf := by
  have hempty : (empty 4).get? id = none := Std.ExtTreeMap.getElem?_empty
  rw [get?_putEntities h, hempty, Option.or_none]

theorem holds_ofEntities (h : ofEntities (.array entities) = .ok t) :
    t.Holds id doc ↔ entityOf? entities id = some doc := by
  unfold Holds
  rw [get?_ofEntities h]
  cases entityOf? entities id <;> simp [recordOf]

theorem unavailable_ofEntities (h : ofEntities (.array entities) = .ok t) :
    t.unavailable = false :=
  unavailable_putEntities h

/-- The values that the entities of a store have under a property. -/
def values (s : EntityStore) (property : String) : List Scalar :=
  s.records.toList.flatMap fun (id, record) =>
    (record.body.payload?).elim [] (propertyValues id · property)

theorem mem_values {v : Scalar} {property : String} :
    v ∈ s.values property ↔ ∃ id doc, s.Holds id doc ∧ v ∈ propertyValues id doc property := by
  simp only [values, List.mem_flatMap, Prod.exists, Std.ExtTreeMap.mem_toList_iff_getElem?_eq_some]
  constructor
  · rintro ⟨id, ⟨version, body⟩, hheld, hv⟩
    cases body with
    | tombstone => cases hv
    | payload doc => exact ⟨id, doc, ⟨version, hheld⟩, hv⟩
  · rintro ⟨id, doc, ⟨version, hheld⟩, hv⟩
    exact ⟨id, ⟨version, .payload doc⟩, hheld, hv⟩

end EntityStore

/-! ## Indexes of stores -/

namespace SearchIndex

variable {x : SearchIndex} {scope : Scope} {l : List (EntityId × Record)} {key : RowKey}
  {doc : Json}

/-- An index with a row for an entity of a store. -/
def withEntry (scope : Scope) (x : SearchIndex) (entry : EntityId × Record) : SearchIndex :=
  match entry.2.body with
  | .payload doc => { x with rows := x.rows.insert ⟨scope, entry.1, entry.2.version⟩ doc }
  | .tombstone => x

theorem ofStore_eq (scope : Scope) (s : EntityStore) :
    ofStore scope s = s.records.toList.foldl (withEntry scope) .empty := rfl

theorem unavailable_foldl_withEntry :
    (l.foldl (withEntry scope) x).unavailable = x.unavailable := by
  induction l generalizing x with
  | nil => rfl
  | cons entry l ih =>
    rw [List.foldl_cons, ih]
    unfold withEntry
    split <;> rfl

theorem has_withEntry_payload {id : EntityId} {version : Version} {held : Json} :
    (withEntry scope x (id, ⟨version, .payload held⟩)).Has key doc ↔
      if (⟨scope, id, version⟩ : RowKey) = key then held = doc else x.Has key doc := by
  have hget : (x.rows.insert ⟨scope, id, version⟩ held)[key]? =
      if (⟨scope, id, version⟩ : RowKey) = key then some held else x.rows[key]? := by
    rw [Std.ExtTreeMap.getElem?_insert]
    simp only [Std.LawfulEqCmp.compare_eq_iff_eq]
  have hiff : (withEntry scope x (id, ⟨version, .payload held⟩)).Has key doc ↔
      (x.rows.insert ⟨scope, id, version⟩ held)[key]? = some doc := Iff.rfl
  rw [hiff, hget]
  split_ifs <;> simp [Has]

theorem has_foldl_withEntry (hl : l.Pairwise fun a b => a.1 ≠ b.1) :
    (l.foldl (withEntry scope) .empty).Has key doc ↔
      key.scope = scope ∧ (key.id, ⟨key.version, .payload doc⟩) ∈ l := by
  -- From the right, since the entry that is added last is found first.
  induction l using List.reverseRecOn with
  | nil =>
    have hnone : (empty.rows)[key]? = none := Std.ExtTreeMap.getElem?_empty
    simp [Has, hnone]
  | append_singleton l entry ih =>
    obtain ⟨hl, -, hnew⟩ := List.pairwise_append.mp hl
    have ih := ih hl
    rw [List.foldl_append, List.foldl_cons, List.foldl_nil, List.mem_append, List.mem_singleton]
    obtain ⟨id, version, body⟩ := entry
    cases body with
    | tombstone =>
      rw [withEntry, ih]
      simp
    | payload held =>
      rw [has_withEntry_payload]
      split_ifs with hkey
      · obtain rfl := hkey
        have hnot : (id, ⟨version, .payload doc⟩) ∉ l := fun hmem =>
          hnew _ hmem _ (List.mem_singleton_self _) rfl
        simp [hnot, eq_comm]
      · refine ih.trans (and_congr_right fun hscope => ?_)
        rw [or_iff_left]
        intro heq
        obtain ⟨rfl, hrecord⟩ := Prod.mk.inj heq
        obtain ⟨rfl, -⟩ := Record.mk.inj hrecord
        exact hkey (RowKey.eq_iff.mpr ⟨hscope.symm, rfl, rfl⟩)

/-- **The rows of the index of a store are its entities**, each at the version at which it is
held. -/
theorem has_ofStore {s : EntityStore} :
    (ofStore scope s).Has key doc ↔
      key.scope = scope ∧ s.get? key.id = some ⟨key.version, .payload doc⟩ := by
  have hdistinct : s.records.toList.Pairwise fun a b => a.1 ≠ b.1 :=
    Std.ExtTreeMap.distinct_keys_toList.imp fun hne heq => hne (by rw [heq, Std.compare_self])
  rw [ofStore_eq, has_foldl_withEntry hdistinct, Std.ExtTreeMap.mem_toList_iff_getElem?_eq_some]
  exact Iff.rfl

theorem unavailable_ofStore (scope : Scope) (s : EntityStore) :
    (ofStore scope s).unavailable = false :=
  unavailable_foldl_withEntry

theorem mem_values_of_mem_sortValues {s : EntityStore} {property : String} {v : Scalar}
    (hv : v ∈ (ofStore scope s).sortValues scope property) : v ∈ s.values property := by
  obtain ⟨⟨key, doc⟩, hrow, hhead⟩ := List.mem_filterMap.mp hv
  obtain ⟨-, hheld⟩ := has_ofStore.mp (mem_rowsOf.mp hrow).1
  exact EntityStore.mem_values.mpr ⟨key.id, doc, ⟨key.version, hheld⟩, List.mem_of_mem_head? hhead⟩

end SearchIndex

end EntityQuery
