import EntityQuery.Json.Path
import EntityQuery.Proofs.Json.Members
import EntityQuery.Proofs.Text.Words
import Mathlib.Data.List.Induction

/-! # What a projection keeps

A projection goes through the paths one after another and puts in what the document holds there.
One path may lead through what another one has put in already, or put in what another one leads
through. As the members of objects are ordered, neither spoils the other: what there is of a member
in the end depends only on the paths below its key, as a set.

* `Json.insertPath_toList`: a path may be cut at its first point again and again, or at all points
  at once.
* `Json.kept?`: what a projection keeps of a value, and `Json.lookup_projectKeys`: of a member.
* `Json.descend?_projectKeys`: at the end of each path stands what stands there in the document. -/

namespace EntityQuery.Json

variable {key other : String} {keys : List String} {value v doc : Json}
  {members : List (String × Json)} {path : List String} {paths paths' : List (List String)}

/-! ## Cutting paths -/

theorem length_lt_of_dropWhile {p : Char → Bool} {c : Char} {cs rest : List Char}
    (h : cs.dropWhile p = c :: rest) : rest.length < cs.length := by
  have hle := (List.dropWhile_suffix (l := cs) p).length_le
  rw [h, List.length_cons] at hle
  omega

/-- The members with a value put in at the end of a path, which is cut at its first point: a key
stands in front of it, and behind it the path inside of the object under that key. -/
def insertPath (value : Json) (path : List Char) (members : List (String × Json)) :
    List (String × Json) :=
  let key := String.ofList (path.takeWhile (· != '.'))
  match h : path.dropWhile (· != '.') with
  | [] => insert key value members
  | _ :: rest =>
    have : rest.length < path.length := length_lt_of_dropWhile h
    match lookup key members with
    | none => insert key (object (insertPath value rest [])) members
    | some (object inner) => insert key (object (insertPath value rest inner)) members
    | some _ => members
termination_by path.length

theorem pathKeys_ne_nil (path : String) : pathKeys path ≠ [] := by
  intro h
  exact Text.splitWhere_ne_nil _ _ (List.map_eq_nil_iff.mp h)

theorem pathKeys_ofList_of_no_point {cs : List Char} (h : ∀ c ∈ cs, (c != '.') = true) :
    pathKeys (String.ofList cs) = [String.ofList cs] := by
  rw [pathKeys, String.toList_ofList, Text.splitWhere_run fun c hc => by simpa using h c hc]
  rfl

theorem pathKeys_ofList_append {cs rest : List Char} (h : ∀ c ∈ cs, (c != '.') = true) :
    pathKeys (String.ofList (cs ++ '.' :: rest)) =
      String.ofList cs :: pathKeys (String.ofList rest) := by
  rw [pathKeys, String.toList_ofList, Text.splitWhere_append_cons (by simp),
    Text.splitWhere_run fun c hc => by simpa using h c hc, pathKeys, String.toList_ofList]
  rfl

theorem insertPath_eq (value : Json) (cs : List Char) (members : List (String × Json)) :
    insertPath value cs members = insertBelow value (pathKeys (String.ofList cs)) members := by
  induction hlength : cs.length using Nat.strong_induction_on generalizing cs members with
  | _ n ih =>
    have hsplit := List.takeWhile_append_dropWhile (p := (· != '.')) (l := cs)
    have hkey : ∀ c ∈ cs.takeWhile (· != '.'), (c != '.') = true :=
      List.all_eq_true.mp List.all_takeWhile
    rw [insertPath]
    split
    · rename_i hnil
      rw [hnil, List.append_nil] at hsplit
      rw [hsplit] at hkey ⊢
      rw [pathKeys_ofList_of_no_point hkey]
      rfl
    · rename_i c rest hcons
      have hpoint : c = '.' := by
        have hstop := List.head_dropWhile_not (p := (· != '.')) (l := cs) (by simp [hcons])
        simpa [hcons] using hstop
      subst hpoint
      have hrest := fun members =>
        ih rest.length (hlength ▸ length_lt_of_dropWhile hcons) rest members rfl
      have hkeys : pathKeys (String.ofList cs) =
          String.ofList (cs.takeWhile (· != '.')) :: pathKeys (String.ofList rest) := by
        rw [← pathKeys_ofList_append hkey, ← hcons, hsplit]
      obtain ⟨next, keys, hnext⟩ := List.exists_cons_of_ne_nil
        (pathKeys_ne_nil (String.ofList rest))
      rw [hkeys, hnext]
      simp only [hrest, hnext]
      rfl

/-- **A path is put in the same**, whether it is cut at its first point and so on, or at all points
at once. -/
theorem insertPath_toList (value : Json) (path : String) (members : List (String × Json)) :
    insertPath value path.toList members = insertBelow value (pathKeys path) members := by
  rw [insertPath_eq, String.ofList_toList]

/-- A projection puts in what it finds by paths that are cut at their first points. -/
theorem project_eq_insertPath (doc : Json) (paths : List String) :
    doc.project paths = object (paths.foldl (fun members path =>
      match doc.fieldAt? path with
      | none => members
      | some value => insertPath value path.toList members) []) := by
  simp only [insertPath_toList]
  rfl

/-! ## Putting a value in -/

/-- What there is under the first of the keys, once a value is put in under all of them. -/
def graft (value : Json) (keys : List String) (there : Option Json) : Option Json :=
  match keys, there with
  | [], _ => some value
  | keys, none => some (object (insertBelow value keys []))
  | keys, some (object inner) => some (object (insertBelow value keys inner))
  | _, there => there

/-- **A value that is put in changes what is under the first key only.** -/
theorem lookup_insertBelow (value : Json) (key other : String) (keys : List String)
    (members : List (String × Json)) :
    lookup other (insertBelow value (key :: keys) members) =
      if key = other then graft value keys (lookup key members) else lookup other members := by
  cases keys with
  | nil => exact lookup_insert key other value members
  | cons next keys =>
    unfold insertBelow
    split
    · rename_i hnone
      rw [lookup_insert, hnone]
      rfl
    · rename_i inner hobject
      rw [lookup_insert, hobject]
      rfl
    · rename_i there hother hthere
      split_ifs with hkey
      · subst hkey
        rw [hthere]
        cases there with
        | object inner => exact absurd rfl (hother inner)
        | null | bool | number | string | array => rfl
      · rfl

theorem Ascending.insertBelow (h : Ascending members) (value : Json) (keys : List String) :
    Ascending (insertBelow value keys members) := by
  unfold Json.insertBelow
  split
  · exact h
  · exact h.insert _ _
  · split
    · exact h.insert _ _
    · exact h.insert _ _
    · exact h

theorem insertBelow_self (h : (object members).Ordered)
    (hvalue : (object members).descend? (key :: keys) = some value) :
    insertBelow value (key :: keys) members = members := by
  induction keys generalizing key members with
  | nil =>
    obtain ⟨v, hlookup, hv⟩ := Option.bind_eq_some_iff.mp hvalue
    obtain rfl := Option.some.inj hv
    exact h.ascending.insert_self hlookup
  | cons next keys ih =>
    obtain ⟨v, hlookup, hv⟩ := Option.bind_eq_some_iff.mp hvalue
    have hlookup : lookup key members = some v := hlookup
    obtain ⟨w, hmember, -⟩ := Option.bind_eq_some_iff.mp hv
    cases v with
    | object inner =>
      have hinner := ih (h.of_member? hlookup) hv
      rw [insertBelow, hlookup]
      · simp only
        rw [hinner, h.ascending.insert_self hlookup]
      · simp
    | null | bool | number | string | array => cases hmember

/-! ## Projections onto paths of keys -/

/-- The members of the projection of a document onto paths that are given as keys. -/
def projectKeys (doc : Json) (paths : List (List String)) : List (String × Json) :=
  paths.foldl (fun members keys =>
    match doc.descend? keys with
    | none => members
    | some value => insertBelow value keys members) []

theorem project_eq (doc : Json) (paths : List String) :
    doc.project paths = object (doc.projectKeys (paths.map pathKeys)) := by
  rw [projectKeys, List.foldl_map]
  rfl

theorem projectKeys_snoc (doc : Json) (paths : List (List String)) (keys : List String) :
    doc.projectKeys (paths ++ [keys]) = match doc.descend? keys with
      | none => doc.projectKeys paths
      | some value => insertBelow value keys (doc.projectKeys paths) := by
  rw [projectKeys, List.foldl_append]
  rfl

theorem projectKeys_snoc_of_none (h : doc.descend? keys = none) :
    doc.projectKeys (paths ++ [keys]) = doc.projectKeys paths := by rw [projectKeys_snoc, h]

theorem projectKeys_snoc_of_some (h : doc.descend? keys = some value) :
    doc.projectKeys (paths ++ [keys]) = insertBelow value keys (doc.projectKeys paths) := by
  rw [projectKeys_snoc, h]

theorem projectKeys_of_none (h : ∀ keys ∈ paths, doc.descend? keys = none) :
    doc.projectKeys paths = [] := by
  induction paths using List.reverseRecOn with
  | nil => rfl
  | append_singleton paths keys ih =>
    rw [projectKeys_snoc_of_none (h keys (by simp)), ih fun k hk => h k (by simp [hk])]

theorem projectKeys_of_no_members (h : ∀ key, doc.member? key = none) (paths : List (List String)) :
    doc.projectKeys paths = [] := by
  induction paths using List.reverseRecOn with
  | nil => rfl
  | append_singleton paths keys ih =>
    cases keys with
    | nil => exact (projectKeys_snoc_of_some rfl).trans ih
    | cons key keys =>
      have hnone : doc.descend? (key :: keys) = none := by rw [descend?, h]; rfl
      rw [projectKeys_snoc_of_none hnone, ih]

theorem ascending_projectKeys (doc : Json) (paths : List (List String)) :
    Ascending (doc.projectKeys paths) := by
  induction paths using List.reverseRecOn with
  | nil => exact .nil
  | append_singleton paths keys ih =>
    cases h : doc.descend? keys with
    | none => rwa [projectKeys_snoc_of_none h]
    | some value =>
      rw [projectKeys_snoc_of_some h]
      exact ih.insertBelow value keys

/-- What is left of the paths that start with a key. -/
def pathsBelow (key : String) (paths : List (List String)) : List (List String) :=
  paths.filterMap fun
    | [] => none
    | first :: keys => if first = key then some keys else none

theorem mem_pathsBelow : keys ∈ pathsBelow key paths ↔ key :: keys ∈ paths := by
  rw [pathsBelow, List.mem_filterMap]
  constructor
  · rintro ⟨path, hpath, hkeys⟩
    cases path with
    | nil => cases hkeys
    | cons first rest =>
      simp only at hkeys
      split_ifs at hkeys with hfirst
      obtain rfl := Option.some.inj hkeys
      exact hfirst ▸ hpath
  · exact fun hpath => ⟨_, hpath, if_pos rfl⟩

theorem pathsBelow_snoc (first key : String) (keys : List String) (paths : List (List String)) :
    pathsBelow key (paths ++ [first :: keys]) =
      pathsBelow key paths ++ if first = key then [keys] else [] := by
  rw [pathsBelow, List.filterMap_append]
  by_cases hfirst : first = key
  · rw [if_pos hfirst]
    exact congrArg _ (by simp [hfirst])
  · rw [if_neg hfirst]
    exact congrArg _ (by simp [hfirst])

/-- **What a projection keeps of a value**: nothing if no path leads to anything, all of it if a
path ends there, and otherwise a projection of it. -/
def kept? (value : Json) (paths : List (List String)) : Option Json :=
  if ∀ keys ∈ paths, value.descend? keys = none then none
  else if [] ∈ paths then some value
  else some (object (value.projectKeys paths))

theorem kept?_snoc_of_none (h : v.descend? keys = none) :
    v.kept? (paths ++ [keys]) = v.kept? paths := by
  have hne : keys ≠ [] := by
    rintro rfl
    cases h
  have hnone : (∀ k ∈ paths ++ [keys], v.descend? k = none) ↔ ∀ k ∈ paths, v.descend? k = none := by
    simp [or_imp, forall_and, h]
  have hends : [] ∈ paths ++ [keys] ↔ [] ∈ paths := by simp [hne.symm]
  simp only [kept?, hnone, hends, projectKeys_snoc_of_none h]

theorem kept?_snoc_of_some (hv : v.Ordered) (h : v.descend? keys = some value) :
    v.kept? (paths ++ [keys]) = graft value keys (v.kept? paths) := by
  have hsome : ¬ ∀ k ∈ paths ++ [keys], v.descend? k = none := by
    intro hnone
    have hkeys := hnone keys (by simp)
    rw [h] at hkeys
    cases hkeys
  rw [kept?, if_neg hsome]
  cases keys with
  | nil =>
    obtain rfl := Option.some.inj h
    rw [if_pos (by simp)]
    rfl
  | cons key keys =>
    have hends : [] ∈ paths ++ [key :: keys] ↔ [] ∈ paths := by simp
    rw [kept?, projectKeys_snoc_of_some h]
    by_cases hnone : ∀ k ∈ paths, v.descend? k = none
    · have hempty : [] ∉ paths := fun hmem => by cases hnone [] hmem
      rw [if_neg fun hmem => hempty (hends.mp hmem), if_pos hnone, projectKeys_of_none hnone]
      rfl
    · rw [if_neg hnone]
      by_cases hmem : [] ∈ paths
      · obtain ⟨w, hmember, -⟩ := Option.bind_eq_some_iff.mp h
        rw [if_pos (hends.mpr hmem), if_pos hmem]
        cases v with
        | object inner => exact congrArg (fun m => some (object m)) (insertBelow_self hv h).symm
        | null | bool | number | string | array => cases hmember
      · rw [if_neg fun h => hmem (hends.mp h), if_neg hmem]
        rfl

/-- **What is kept of a member depends on the paths below its key only.** -/
theorem lookup_projectKeys (hdoc : doc.Ordered) (paths : List (List String)) (key : String) :
    lookup key (doc.projectKeys paths) =
      (doc.member? key).bind fun v => v.kept? (pathsBelow key paths) := by
  induction paths using List.reverseRecOn with
  | nil =>
    cases doc.member? key with
    | none => rfl
    | some v =>
      have hnone : ∀ keys ∈ pathsBelow key [], v.descend? keys = none := by simp [pathsBelow]
      rw [Option.bind_some, kept?, if_pos hnone]
      rfl
  | append_singleton paths path ih =>
    cases path with
    | nil =>
      have hbelow : pathsBelow key (paths ++ [[]]) = pathsBelow key paths := by simp [pathsBelow]
      have hsame : doc.projectKeys (paths ++ [[]]) = doc.projectKeys paths :=
        projectKeys_snoc_of_some rfl
      rw [hsame, hbelow, ih]
    | cons first keys =>
      have hdescend : doc.descend? (first :: keys) = (doc.member? first).bind (·.descend? keys) :=
        rfl
      rw [pathsBelow_snoc]
      by_cases hfirst : first = key
      · subst hfirst
        rw [if_pos rfl]
        cases hmember : doc.member? first with
        | none =>
          rw [hmember] at hdescend ih
          rw [projectKeys_snoc_of_none hdescend, ih]
          rfl
        | some v =>
          rw [hmember] at hdescend ih
          cases hvalue : v.descend? keys with
          | none =>
            rw [projectKeys_snoc_of_none (hdescend.trans hvalue), ih, Option.bind_some,
              Option.bind_some, kept?_snoc_of_none hvalue]
          | some value =>
            rw [projectKeys_snoc_of_some (hdescend.trans hvalue), lookup_insertBelow,
              if_pos rfl, ih, Option.bind_some, Option.bind_some,
              kept?_snoc_of_some (hdoc.of_member? hmember) hvalue]
      · rw [if_neg hfirst, List.append_nil]
        cases hvalue : doc.descend? (first :: keys) with
        | none => rw [projectKeys_snoc_of_none hvalue, ih]
        | some value => rw [projectKeys_snoc_of_some hvalue, lookup_insertBelow, if_neg hfirst, ih]

/-! ## What stands where -/

/-- What a path leads to in what is kept of a value is what it leads to in the value, if this holds
of projections of the value. -/
theorem kept?_bind_descend? (hmem : keys ∈ paths)
    (h : keys ≠ [] → (object (v.projectKeys paths)).descend? keys = v.descend? keys) :
    (v.kept? paths).bind (·.descend? keys) = v.descend? keys := by
  unfold kept?
  split_ifs with hnone hends
  · rw [hnone keys hmem]
    rfl
  · rfl
  · exact h fun hkeys => hends (hkeys ▸ hmem)

/-- **At the end of each path stands what stands there in the document.** -/
theorem descend?_projectKeys (hdoc : doc.Ordered) (hmem : keys ∈ paths) (hkeys : keys ≠ []) :
    (object (doc.projectKeys paths)).descend? keys = doc.descend? keys := by
  induction keys generalizing doc paths with
  | nil => exact absurd rfl hkeys
  | cons key keys ih =>
    change (lookup key (doc.projectKeys paths)).bind (·.descend? keys) =
      (doc.member? key).bind (·.descend? keys)
    rw [lookup_projectKeys hdoc]
    cases hmember : doc.member? key with
    | none => rfl
    | some v =>
      have hbelow := mem_pathsBelow.mpr hmem
      exact kept?_bind_descend? hbelow (ih (hdoc.of_member? hmember) hbelow)

/-! ## Projections onto paths -/

theorem fieldAt?_project (hdoc : doc.Ordered) {paths : List String} {path : String}
    (hpath : path ∈ paths) : (doc.project paths).fieldAt? path = doc.fieldAt? path := by
  rw [project_eq]
  exact descend?_projectKeys hdoc (List.mem_map_of_mem hpath) (pathKeys_ne_nil path)

/-- A projection asks only for what stands at the ends of the paths. -/
theorem project_congr {doc doc' : Json} {paths : List String}
    (h : ∀ path ∈ paths, doc.fieldAt? path = doc'.fieldAt? path) :
    doc.project paths = doc'.project paths := by
  unfold project
  refine congrArg object (List.foldl_ext _ _ _ fun members path hpath => ?_)
  rw [h path hpath]

end EntityQuery.Json
