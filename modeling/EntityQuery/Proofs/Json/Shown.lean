import EntityQuery.Proofs.Json.Projection
import EntityQuery.Search.Basic

/-! # What a selection shows

What a projection of a document is can be said without putting it together: an object that has at
the end of each path what the document has there, and that has besides only the objects on the way
to ends at which the document has something. There is just one such object, so nothing more needs to
be said of it: neither the order of the paths nor a path that is given twice makes a difference, and
what is no object has been copied from its place.

* `Json.Step`, `Json.at?`: places in a document, items of arrays included.
* `Json.ext_at?`: ordered values are told apart by what stands at their places.
* `Json.IsProjection`: what a projection of a document is, and `Json.isProjection_iff`: **the
  projection that is made is the only one**.
* `Json.project_exact`: **a projection is exact**.
* `Selection.Shows`: what a selection shows, and `Selection.shows_iff`: it is what is shown. -/

namespace EntityQuery

namespace Json

variable {key : String} {keys : List String} {value v w doc shown shown' : Json}
  {members : List (String × Json)} {paths paths' : List String}

/-! ## Places -/

/-- One step into a document. -/
inductive Step where
  /-- To the member under a key. -/
  | key (k : String)
  /-- To the item of an array at a place, counted from zero. -/
  | item (n : Nat)
  deriving DecidableEq

/-- What is one step into a document. -/
def step? : Json → Step → Option Json
  | object members, .key k => lookup k members
  | array items, .item n => items[n]?
  | _, _ => none

/-- **What stands at a place of a document**; a place is told by the steps that lead there. -/
def at? (doc : Json) : List Step → Option Json
  | [] => some doc
  | step :: place => (doc.step? step).bind (·.at? place)

/-- The place at the end of a path. -/
def placeOf (path : String) : List Step := (pathKeys path).map Step.key

theorem step?_key (doc : Json) (key : String) : doc.step? (.key key) = doc.member? key := by
  cases doc <;> rfl

theorem at?_append (doc : Json) (place rest : List Step) :
    doc.at? (place ++ rest) = (doc.at? place).bind (·.at? rest) := by
  induction place generalizing doc with
  | nil => rfl
  | cons step place ih =>
    rw [List.cons_append, at?, at?, Option.bind_assoc]
    exact congrArg _ (funext fun v => ih v)

theorem at?_map_key (doc : Json) (keys : List String) :
    doc.at? (keys.map Step.key) = doc.descend? keys := by
  induction keys generalizing doc with
  | nil => rfl
  | cons key keys ih =>
    rw [List.map_cons, at?, step?_key, descend?]
    exact congrArg _ (funext fun v => ih v)

theorem at?_placeOf (doc : Json) (path : String) : doc.at? (placeOf path) = doc.fieldAt? path :=
  at?_map_key doc (pathKeys path)

/-- A value that is made of members. -/
def IsObject (value : Json) : Prop := ∃ members, value = object members

theorem isObject_of_step? (h : v.step? (.key key) = some w) : v.IsObject := by
  cases v with
  | object members => exact ⟨members, rfl⟩
  | null | bool | number | string | array => cases h

/-- **Ordered values are told apart by what stands at their places**, and where objects stand in
both it is enough to know that they are objects. -/
theorem ext_at? (hv : v.Ordered) (hw : w.Ordered)
    (h : ∀ place, v.at? place = w.at? place ∨
      (∃ o ∈ v.at? place, o.IsObject) ∧ ∃ o ∈ w.at? place, o.IsObject) : v = w := by
  induction hv generalizing w with
  | @object members hkeys hvalues ih =>
    rcases h [] with hroot | ⟨-, _, hroot, ⟨members', rfl⟩⟩
    · exact Option.some.inj hroot
    obtain rfl := Option.some.inj hroot
    refine congrArg object (ext_lookup hkeys hw.ascending fun key => ?_)
    have hkey := fun place => h (.key key :: place)
    simp only [at?, step?] at hkey
    cases hmember : lookup key members with
    | none =>
      cases hmember' : lookup key members' with
      | none => rfl
      | some w =>
        have hnone := hkey []
        simp [hmember, hmember', at?] at hnone
    | some v =>
      cases hmember' : lookup key members' with
      | none =>
        have hnone := hkey []
        simp [hmember, hmember', at?] at hnone
      | some w =>
        rw [hmember, hmember'] at hkey
        exact congrArg some (ih _ (mem_of_lookup hmember) (hw.of_member? hmember') hkey)
  | null | bool | number | string | array =>
    rcases h [] with hroot | ⟨⟨_, hroot, ⟨members, rfl⟩⟩, -⟩
    · exact Option.some.inj hroot
    · cases hroot

/-! ## Projections -/

/-- **What a projection of a document is.** -/
structure IsProjection (doc : Json) (paths : List String) (shown : Json) : Prop where
  isObject : shown.IsObject
  ordered : shown.Ordered
  /-- At the end of each path stands what stands there in the document. -/
  fieldAt?_eq : ∀ path ∈ paths, shown.fieldAt? path = doc.fieldAt? path
  /-- Anything else stands inside of that, or on the way to it. -/
  near : ∀ place ≠ [], (shown.at? place).isSome → ∃ path ∈ paths, (doc.fieldAt? path).isSome ∧
    (placeOf path <+: place ∨ place <+: placeOf path)

namespace IsProjection

variable (h : doc.IsProjection paths shown) {path : String} {place : List Step}
include h

theorem at?_below (hpath : path ∈ paths) (hbelow : placeOf path <+: place) :
    shown.at? place = doc.at? place := by
  obtain ⟨rest, rfl⟩ := hbelow
  rw [at?_append, at?_append, at?_placeOf, at?_placeOf, h.fieldAt?_eq path hpath]

theorem isObject_above (hpath : path ∈ paths) (hsome : (doc.fieldAt? path).isSome)
    (habove : place <+: placeOf path) (hnot : ¬ placeOf path <+: place) :
    ∃ o ∈ shown.at? place, o.IsObject := by
  obtain ⟨rest, hrest⟩ := habove
  cases rest with
  | nil =>
    rw [List.append_nil] at hrest
    exact absurd (hrest ▸ List.prefix_rfl) hnot
  | cons step rest =>
    obtain ⟨key, -, rfl⟩ : ∃ key ∈ pathKeys path, Step.key key = step :=
      List.mem_map.mp (by rw [← placeOf, ← hrest]; simp)
    rw [← h.fieldAt?_eq path hpath, ← at?_placeOf, ← hrest, at?_append] at hsome
    obtain ⟨value, hvalue⟩ := Option.isSome_iff_exists.mp hsome
    obtain ⟨o, ho, hvalue⟩ := Option.bind_eq_some_iff.mp hvalue
    obtain ⟨member, hmember, -⟩ := Option.bind_eq_some_iff.mp hvalue
    exact ⟨o, ho, isObject_of_step? hmember⟩

/-- **What is no object has been copied from its place**, which is the end of a path or below it. -/
theorem copied (hvalue : shown.at? place = some value) (hobject : ¬ value.IsObject) :
    doc.at? place = some value ∧ ∃ path ∈ paths, placeOf path <+: place := by
  have hne : place ≠ [] := by
    rintro rfl
    exact hobject (Option.some.inj hvalue ▸ h.isObject)
  obtain ⟨path, hpath, hsome, hnear⟩ := h.near place hne (by rw [hvalue]; rfl)
  by_cases hbelow : placeOf path <+: place
  · exact ⟨h.at?_below hpath hbelow ▸ hvalue, path, hpath, hbelow⟩
  · obtain ⟨o, ho, hmembers⟩ := h.isObject_above hpath hsome (hnear.resolve_left hbelow) hbelow
    rw [hvalue] at ho
    exact absurd (Option.some.inj ho ▸ hmembers) hobject

theorem congr (hsame : ∀ path, path ∈ paths' ↔ path ∈ paths) : doc.IsProjection paths' shown := by
  refine ⟨h.isObject, h.ordered, fun path hpath => h.fieldAt?_eq path ((hsame path).mp hpath), ?_⟩
  intro place hne hsome
  obtain ⟨path, hpath, hnear⟩ := h.near place hne hsome
  exact ⟨path, (hsame path).mpr hpath, hnear⟩

theorem at?_eq_none (hne : place ≠ []) (hbelow : ¬ ∃ path ∈ paths, placeOf path <+: place)
    (habove : ¬ ∃ path ∈ paths, (doc.fieldAt? path).isSome ∧ place <+: placeOf path) :
    shown.at? place = none := by
  by_contra hnone
  obtain ⟨path, hpath, hsome, hnear⟩ := h.near place hne (Option.isSome_iff_ne_none.mpr hnone)
  rcases hnear with hle | hle
  · exact hbelow ⟨path, hpath, hle⟩
  · exact habove ⟨path, hpath, hsome, hle⟩

/-- **There is one projection only.** -/
theorem unique (h' : doc.IsProjection paths shown') : shown = shown' := by
  refine ext_at? h.ordered h'.ordered fun place => ?_
  by_cases hbelow : ∃ path ∈ paths, placeOf path <+: place
  · obtain ⟨path, hpath, hbelow⟩ := hbelow
    exact .inl ((h.at?_below hpath hbelow).trans (h'.at?_below hpath hbelow).symm)
  by_cases hroot : place = []
  · subst hroot
    exact .inr ⟨⟨shown, rfl, h.isObject⟩, ⟨shown', rfl, h'.isObject⟩⟩
  by_cases habove : ∃ path ∈ paths, (doc.fieldAt? path).isSome ∧ place <+: placeOf path
  · obtain ⟨path, hpath, hsome, habove⟩ := habove
    have hnot : ¬ placeOf path <+: place := fun hle => hbelow ⟨path, hpath, hle⟩
    exact .inr ⟨h.isObject_above hpath hsome habove hnot, h'.isObject_above hpath hsome habove hnot⟩
  · rw [h.at?_eq_none hroot hbelow habove, h'.at?_eq_none hroot hbelow habove]
    exact .inl rfl

end IsProjection

theorem ordered_projectKeys (hdoc : doc.Ordered) (paths : List (List String)) :
    (object (doc.projectKeys paths)).Ordered := by
  induction hdoc generalizing paths with
  | @object members hkeys hvalues ih =>
    refine .object (ascending_projectKeys _ _) fun m hm => ?_
    have hlookup := (ascending_projectKeys _ _).lookup_of_mem hm
    rw [lookup_projectKeys (.object hkeys hvalues)] at hlookup
    obtain ⟨v, hmember, hkept⟩ := Option.bind_eq_some_iff.mp hlookup
    have hv := mem_of_lookup hmember
    unfold kept? at hkept
    split_ifs at hkept with hnone hends
    · exact Option.some.inj hkept ▸ hvalues _ hv
    · exact Option.some.inj hkept ▸ ih _ hv _
  | null | bool | number | string | array =>
    rw [projectKeys_of_no_members fun _ => rfl]
    exact .object .nil (by simp)

/-- What stands somewhere in a projection stands inside of what a path leads to, or on the way
there. -/
theorem near_projectKeys (hdoc : doc.Ordered) {paths : List (List String)} {place : List Step}
    (hne : place ≠ []) (hvalue : ((object (doc.projectKeys paths)).at? place).isSome) :
    ∃ keys ∈ paths, (doc.descend? keys).isSome ∧
      (keys.map Step.key <+: place ∨ place <+: keys.map Step.key) := by
  induction place generalizing doc paths with
  | nil => exact absurd rfl hne
  | cons step place ih =>
    cases step with
    | item n => cases hvalue
    | key key =>
      obtain ⟨value, hvalue⟩ := Option.isSome_iff_exists.mp hvalue
      obtain ⟨w, hw, hvalue⟩ := Option.bind_eq_some_iff.mp hvalue
      have hw : lookup key (doc.projectKeys paths) = some w := hw
      rw [lookup_projectKeys hdoc] at hw
      obtain ⟨v, hmember, hkept⟩ := Option.bind_eq_some_iff.mp hw
      have hbelow : ∃ keys ∈ pathsBelow key paths, (v.descend? keys).isSome ∧
          (keys.map Step.key <+: place ∨ place <+: keys.map Step.key) := by
        unfold kept? at hkept
        split_ifs at hkept with hnone hends
        · exact ⟨[], hends, rfl, .inl List.nil_prefix⟩
        · obtain rfl := Option.some.inj hkept
          by_cases hplace : place = []
          · simp only [not_forall] at hnone
            obtain ⟨keys, hkeys, hsome⟩ := hnone
            exact ⟨keys, hkeys, Option.isSome_iff_ne_none.mpr hsome,
              .inr (hplace ▸ List.nil_prefix)⟩
          · exact ih (hdoc.of_member? hmember) hplace (by rw [hvalue]; rfl)
      obtain ⟨keys, hkeys, hsome, hnear⟩ := hbelow
      refine ⟨key :: keys, mem_pathsBelow.mp hkeys, ?_, ?_⟩
      · rwa [descend?, hmember]
      · simpa [List.cons_prefix_cons] using hnear

/-- **The projection that is made is the only one.** -/
theorem isProjection_iff (hdoc : doc.Ordered) :
    doc.IsProjection paths shown ↔ shown = doc.project paths := by
  have hmade : doc.IsProjection paths (doc.project paths) := by
    refine ⟨⟨_, project_eq doc paths⟩, ?_, fun path => fieldAt?_project hdoc, ?_⟩
    · rw [project_eq]
      exact ordered_projectKeys hdoc _
    · intro place hne hsome
      rw [project_eq] at hsome
      obtain ⟨keys, hkeys, hsome, hnear⟩ := near_projectKeys hdoc hne hsome
      obtain ⟨path, hpath, rfl⟩ := List.mem_map.mp hkeys
      exact ⟨path, hpath, hsome, hnear⟩
  constructor
  · exact fun h => h.unique hmade
  · rintro rfl
    exact hmade

/-- **A projection is exact**, whatever document is read (`ordered_ofText?`). At the end of each
path it holds what the document holds there. All that is no object has been copied from its place,
which is the end of a path or below it. The order of the paths does not matter, nor how often one is
given, and to project once more by the same paths changes nothing. -/
theorem project_exact (hdoc : doc.Ordered) (paths : List String) :
    (∀ path ∈ paths, (doc.project paths).fieldAt? path = doc.fieldAt? path) ∧
    (∀ place value, (doc.project paths).at? place = some value → ¬ value.IsObject →
      doc.at? place = some value ∧ ∃ path ∈ paths, (pathKeys path).map Step.key <+: place) ∧
    (∀ paths' : List String, (∀ path, path ∈ paths' ↔ path ∈ paths) →
      doc.project paths' = doc.project paths) ∧
    (doc.project paths).project paths = doc.project paths := by
  have h : doc.IsProjection paths (doc.project paths) := (isProjection_iff hdoc).mpr rfl
  refine ⟨h.fieldAt?_eq, fun place value => h.copied, fun paths' hsame => ?_,
    project_congr h.fieldAt?_eq⟩
  exact ((isProjection_iff hdoc).mp (h.congr hsame)).symm

/-- A path ends above the end of another one, one leads through what is no object, one has an empty
key, and one is given twice. -/
theorem project_exact_overlapping :
    let doc : Json := .ofMembers [("name", .string "rex"),
      ("loc", .ofMembers [("zip", .string "0150"), ("city", .ofMembers [("", .array [.null])])])]
    let paths := ["loc.city.", "name.first", "loc.city", "loc.zip", "loc.city."]
    doc.project paths = .object [("loc", .object [("city", .object [("", .array [.null])]),
      ("zip", .string "0150")])] ∧
    doc.project ["loc.zip", "name.first", "loc.city", "loc.city."] = doc.project paths ∧
    (doc.project paths).project paths = doc.project paths := by
  intro doc paths
  have hcity : (ofMembers [("", array [null])]).Ordered :=
    ordered_ofMembers (by simpa using Ordered.array (by simpa using Ordered.null))
  have hloc : (ofMembers [("zip", string "0150"),
      ("city", ofMembers [("", array [null])])]).Ordered :=
    ordered_ofMembers (by simpa using ⟨Ordered.string _, hcity⟩)
  have hdoc : doc.Ordered := ordered_ofMembers (by simpa using ⟨Ordered.string _, hloc⟩)
  obtain ⟨-, -, hset, hagain⟩ := project_exact hdoc paths
  refine ⟨by rfl, hset _ fun path => ?_, hagain⟩
  simp only [paths, List.mem_cons, List.not_mem_nil]
  tauto

end Json

/-! ## Selections -/

namespace Selection

variable {selection : Selection} {doc shown : Json}

/-- **What a selection shows of a document**: all of it, or its projection onto the listed paths. -/
def Shows (doc : Json) : Selection → Json → Prop
  | all, shown => shown = doc
  | fields paths, shown => doc.IsProjection paths shown

theorem shows_iff (hdoc : doc.Ordered) :
    selection.Shows doc shown ↔ shown = selection.apply doc := by
  cases selection with
  | all => exact Iff.rfl
  | fields paths => exact Json.isProjection_iff hdoc

end Selection

end EntityQuery
