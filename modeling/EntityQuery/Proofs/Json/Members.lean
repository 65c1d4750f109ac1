import EntityQuery.Json.Reader
import Mathlib.Data.List.Pairwise
import Mathlib.Data.List.Perm.Basic

/-! # Members of objects

The members of an object are kept in ascending order of their keys, each key once. So an object is
known by its look-ups: two objects that give the same value for every key have the same members. All
objects that are read from a text are kept so.

* `Json.lookup_insert`: what is looked up after a member is set.
* `Json.Ordered`: values whose objects have ascending keys.
* `Json.ext_lookup`: ascending members are told apart by looking up.
* `Json.ordered_ofText?`: what is read from a text is ordered. -/

namespace EntityQuery.Json

variable {key other : String} {value v : Json} {members members' : List (String × Json)}

/-! ## Looking members up -/

theorem mem_of_lookup (h : lookup key members = some value) : (key, value) ∈ members := by
  induction members with
  | nil => cases h
  | cons first rest ih =>
    obtain ⟨k, v⟩ := first
    rw [lookup] at h
    split_ifs at h with hk
    · obtain rfl := Option.some.inj h
      simp [hk]
    · exact List.mem_cons_of_mem _ (ih h)

/-- **Setting a member changes the value of its key only.** -/
theorem lookup_insert (key other : String) (value : Json) (members : List (String × Json)) :
    lookup other (insert key value members) =
      if key = other then some value else lookup other members := by
  induction members with
  | nil => rfl
  | cons first rest ih =>
    obtain ⟨k, v⟩ := first
    unfold insert
    by_cases hlt : key < k
    · rw [if_pos hlt, lookup]
    by_cases hk : key = k
    · subst hk
      rw [if_neg hlt, if_pos rfl, lookup, lookup]
      split_ifs <;> rfl
    · rw [if_neg hlt, if_neg hk, lookup, lookup, ih]
      by_cases hother : k = other
      · rw [if_pos hother, if_pos hother, if_neg fun h => hk (h.trans hother.symm)]
      · rw [if_neg hother, if_neg hother]

/-! ## Ascending keys -/

/-- The keys of members ascend. -/
def Ascending (members : List (String × Json)) : Prop := members.Pairwise fun a b => a.1 < b.1

theorem mem_insert {m : String × Json} (h : m ∈ insert key value members) :
    m = (key, value) ∨ m ∈ members := by
  induction members with
  | nil => exact .inl (List.mem_singleton.mp h)
  | cons first rest ih =>
    obtain ⟨k, v⟩ := first
    unfold insert at h
    split_ifs at h with hlt hk
    · exact List.mem_cons.mp h
    · rcases List.mem_cons.mp h with rfl | h
      · exact .inl rfl
      · exact .inr (List.mem_cons_of_mem _ h)
    · rcases List.mem_cons.mp h with rfl | h
      · exact .inr (by simp)
      · exact (ih h).imp_right (List.mem_cons_of_mem _)

theorem Ascending.insert (h : Ascending members) (key : String) (value : Json) :
    Ascending (insert key value members) := by
  induction members with
  | nil => exact List.pairwise_singleton ..
  | cons first rest ih =>
    obtain ⟨k, v⟩ := first
    obtain ⟨hfirst, hrest⟩ := List.pairwise_cons.mp h
    unfold Json.insert
    split_ifs with hlt hk
    · refine List.pairwise_cons.mpr ⟨fun m hm => ?_, h⟩
      rcases List.mem_cons.mp hm with rfl | hm
      · exact hlt
      · exact String.lt_trans hlt (hfirst m hm)
    · exact List.pairwise_cons.mpr ⟨fun m hm => hk ▸ hfirst m hm, hrest⟩
    · refine List.pairwise_cons.mpr ⟨fun m hm => ?_, ih hrest⟩
      rcases mem_insert hm with rfl | hm
      · exact Std.lt_of_le_of_ne (String.not_lt.mp hlt) (Ne.symm hk)
      · exact hfirst m hm

theorem Ascending.lookup_of_mem (h : Ascending members) (hmem : (key, value) ∈ members) :
    lookup key members = some value := by
  induction members with
  | nil => cases hmem
  | cons first rest ih =>
    obtain ⟨k, v⟩ := first
    obtain ⟨hfirst, hrest⟩ := List.pairwise_cons.mp h
    rcases List.mem_cons.mp hmem with heq | hmem
    · obtain ⟨rfl, rfl⟩ := Prod.mk.inj heq
      exact if_pos rfl
    · have hne : k ≠ key := by
        rintro rfl
        exact String.lt_irrefl k (hfirst _ hmem)
      rw [lookup, if_neg hne, ih hrest hmem]

theorem Ascending.nodup (h : Ascending members) : members.Nodup := by
  refine List.Pairwise.imp ?_ h
  rintro a _ hlt rfl
  exact String.lt_irrefl a.1 hlt

/-- **Ascending members are told apart by looking up.** -/
theorem ext_lookup (h : Ascending members) (h' : Ascending members')
    (hlookup : ∀ key, lookup key members = lookup key members') : members = members' := by
  refine List.Perm.eq_of_pairwise (fun a b _ _ hab hba => absurd hba (String.lt_asymm hab)) h h' ?_
  refine (List.perm_ext_iff_of_nodup h.nodup h'.nodup).mpr fun ⟨key, value⟩ => ?_
  constructor
  · intro hmem
    exact mem_of_lookup (hlookup key ▸ h.lookup_of_mem hmem)
  · intro hmem
    exact mem_of_lookup ((hlookup key).symm ▸ h'.lookup_of_mem hmem)

theorem Ascending.insert_self (h : Ascending members) (hlookup : lookup key members = some value) :
    Json.insert key value members = members := by
  refine ext_lookup (h.insert key value) h fun other => ?_
  rw [lookup_insert]
  split_ifs with hother
  · rw [← hother, hlookup]
  · rfl

/-! ## Ordered values -/

/-- **The keys of all objects in a value ascend.** -/
inductive Ordered : Json → Prop
  | null : Ordered null
  | bool (b : Bool) : Ordered (bool b)
  | number (n : Number) : Ordered (number n)
  | string (s : String) : Ordered (string s)
  | array {items : List Json} (hitems : ∀ item ∈ items, Ordered item) : Ordered (array items)
  | object {members : List (String × Json)} (hkeys : Ascending members)
    (hvalues : ∀ m ∈ members, Ordered m.2) : Ordered (object members)

theorem Ordered.ascending (h : Ordered (Json.object members)) : Ascending members := by
  cases h with
  | object hkeys => exact hkeys

theorem Ordered.of_member? (h : value.Ordered) (hmember : value.member? key = some v) :
    v.Ordered := by
  cases h with
  | object hkeys hvalues => exact hvalues _ (mem_of_lookup hmember)
  | null | bool | number | string | array => cases hmember

theorem ordered_ofMembers (h : ∀ m ∈ members, m.2.Ordered) : (ofMembers members).Ordered := by
  have hfold : ∀ acc : List (String × Json), Ascending acc → (∀ m ∈ acc, m.2.Ordered) →
      (object (members.foldl (fun acc m => insert m.1 m.2 acc) acc)).Ordered := by
    induction members with
    | nil => exact fun acc hkeys hvalues => .object hkeys hvalues
    | cons first rest ih =>
      intro acc hkeys hvalues
      refine ih (fun m hm => h m (by simp [hm])) _ (hkeys.insert _ _) fun m hm => ?_
      rcases mem_insert hm with rfl | hm
      · exact h first (by simp)
      · exact hvalues m hm
  exact hfold [] .nil (by simp)

mutual

theorem ordered_ofRaw? : ∀ {raw : Raw} {value : Json}, ofRaw? raw = some value → value.Ordered
  | .null, _, h => by
    obtain rfl := Option.some.inj h
    exact .null
  | .bool _, _, h => by
    obtain rfl := Option.some.inj h
    exact .bool _
  | .number _, _, h => by
    obtain ⟨_, -, rfl⟩ := Option.map_eq_some_iff.mp h
    exact .number _
  | .string _, _, h => by
    obtain ⟨_, -, rfl⟩ := Option.map_eq_some_iff.mp h
    exact .string _
  | .array _, _, h => by
    obtain ⟨_, hitems, rfl⟩ := Option.map_eq_some_iff.mp h
    exact .array (ordered_itemsOfRaw? hitems)
  | .object _, _, h => by
    obtain ⟨_, hmembers, rfl⟩ := Option.map_eq_some_iff.mp h
    exact ordered_ofMembers (ordered_membersOfRaw? hmembers)

theorem ordered_itemsOfRaw? : ∀ {raws : List Raw} {items : List Json},
    itemsOfRaw? raws = some items → ∀ item ∈ items, item.Ordered
  | [], _, h => by
    obtain rfl := Option.some.inj h
    simp
  | raw :: raws, _, h => by
    obtain ⟨item, hitem, h⟩ := Option.bind_eq_some_iff.mp h
    obtain ⟨items, hitems, h⟩ := Option.bind_eq_some_iff.mp h
    obtain rfl := Option.some.inj h
    exact List.forall_mem_cons.mpr ⟨ordered_ofRaw? hitem, ordered_itemsOfRaw? hitems⟩

theorem ordered_membersOfRaw? : ∀ {raws : List (Option String × Raw)}
    {members : List (String × Json)}, membersOfRaw? raws = some members → ∀ m ∈ members, m.2.Ordered
  | [], _, h => by
    obtain rfl := Option.some.inj h
    simp
  | (key, raw) :: raws, _, h => by
    obtain ⟨key, -, h⟩ := Option.bind_eq_some_iff.mp h
    obtain ⟨value, hvalue, h⟩ := Option.bind_eq_some_iff.mp h
    obtain ⟨members, hmembers, h⟩ := Option.bind_eq_some_iff.mp h
    obtain rfl := Option.some.inj h
    exact List.forall_mem_cons.mpr ⟨ordered_ofRaw? hvalue, ordered_membersOfRaw? hmembers⟩

end

/-- **What is read from a text is ordered.** -/
theorem ordered_ofText? {text : String} (h : ofText? text = some value) : value.Ordered := by
  obtain ⟨raw, -, h⟩ := Option.bind_eq_some_iff.mp h
  split_ifs at h
  exact ordered_ofRaw? h

end EntityQuery.Json
