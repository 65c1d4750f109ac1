import EntityQuery.Proofs.Plan.Meaning
import EntityQuery.Proofs.Slice.Wildcards
import EntityQuery.Proofs.Text.LowerCase

/-! # Words and what they start with

A condition on the words of a text is looked up among the words in lower case. The word that is
sought is put into lower case as well, a text with a star as a whole. So an entity that has a word
in a property is found by the word, and by what the word starts with unless that ends in a sigma
which is in the midst of the word.

* `holds_contains`: an entity is found by the words that it has.
* `found_iff`: **entities with a word are found by the word, and by its beginning with a star just
  if the beginning does not end in a sigma that has a cased letter behind it in the word**. -/

namespace EntityQuery

open Text

/-! ## Words of a property -/

/-- An entity has a word in a property: the value there is a text with the word, or an array with
such a text. -/
def HasWord (doc : Json) (p t : String) : Prop :=
  ∃ v, doc.fieldAt? p = some v ∧ ∃ s ∈ v.texts, IsWord t s

theorem keywordsBase?_append (p : String) : keywordsBase? (p ++ keywordsSuffix) = some p := by
  have hbase : (p ++ keywordsSuffix).toList.take
      ((p ++ keywordsSuffix).toList.length - keywordsSuffix.length) = p.toList := by
    simp [String.toList_append, ← String.length_toList]
  rw [keywordsBase?]
  simp only [hbase]
  rw [if_pos String.toList_append.symm, String.ofList_toList]

theorem append_keywordsSuffix_ne (p : String) : p ++ keywordsSuffix ≠ idProperty := by
  intro h
  have hid : keywordsBase? idProperty = none := by decide +kernel
  rw [← h, keywordsBase?_append] at hid
  cases hid

section Found

variable {catalog : Catalog} {p text t x rest : String} {id : EntityId} {doc : Json}

theorem mem_propertyValues_keywords {v : Scalar} :
    v ∈ propertyValues id doc (p ++ keywordsSuffix) ↔
      ∃ t, HasWord doc p t ∧ v = .string (lowerCase t) := by
  rw [propertyValues, if_neg (append_keywordsSuffix_ne p), keywordsBase?_append]
  change v ∈ ((doc.fieldAt? p).elim [] Json.texts).flatMap (fun s => (keywords s).map .string) ↔ _
  unfold HasWord
  cases doc.fieldAt? p with
  | none => simp
  | some value =>
    simp only [Option.elim_some, List.mem_flatMap, List.mem_map, keywords, mem_words,
      Option.some.injEq, exists_eq_left']
    constructor
    · rintro ⟨s, hs, -, ⟨t, ht, rfl⟩, rfl⟩
      exact ⟨t, ⟨s, hs, ht⟩, rfl⟩
    · rintro ⟨t, ⟨s, hs, ht⟩, rfl⟩
      exact ⟨s, hs, _, ⟨t, ht, rfl⟩, rfl⟩

theorem holds_contains (hp : catalog.isFullText p = true) :
    (Filter.leaf (.contains p text)).holds catalog id doc = true ↔
      ∃ t, HasWord doc p t ∧ (Slice.ofWord p text).contains (.string (lowerCase t)) = true := by
  have hcompiled : Selector.ofFilter catalog (.leaf (.contains p text)) =
      .ok (.slices (.single (.ofWord p text))) := by
    rw [Selector.ofFilter, Selector.ofFilterUnder, Selector.ofPredicate, if_pos hp]
  have hproperty : (Slice.ofWord p text).property = p ++ keywordsSuffix :=
    Slice.property_ofPattern _ _
  rw [Filter.holds, hcompiled]
  simp only [Selector.selects, SliceGroup.selects, SliceGroup.single, List.all_cons, List.all_nil,
    Bool.and_true]
  rw [Slice.selects, hproperty, if_neg (append_keywordsSuffix_ne p), List.any_eq_true]
  simp only [mem_propertyValues_keywords]
  constructor
  · rintro ⟨-, ⟨t, ht, rfl⟩, hcontains⟩
    exact ⟨t, ht, hcontains⟩
  · rintro ⟨t, ht, hcontains⟩
    exact ⟨_, ⟨t, ht, rfl⟩, hcontains⟩

/-! ## Looking up -/

theorem Slice.contains_exact_string (property t : String) :
    (exact property (.string t)).contains (.string t) = true := by
  rw [exact, contains, Option.all_some, Option.all_some, Bool.and_eq_true,
    Bound.admitsAbove_string, Bound.admitsBelow_string]
  exact ⟨⟨t, rfl, List.lt_irrefl _⟩, t, rfl, List.lt_irrefl _⟩

theorem Slice.contains_ofWord_self (ht : ∀ c ∈ t.toList, isWordChar c = true) :
    (ofWord p t).contains (.string (lowerCase t)) = true := by
  have hstem : wildcardStem? (lowerCase t) = none := by
    rw [wildcardStem?]
    split
    · rename_i stem hreverse
      have hstar : '*' ∈ (lowerCase t).toList := by
        rw [← List.mem_reverse, hreverse]
        exact List.mem_cons_self
      exact absurd rfl (ne_of_mem_lowerCase ht hstar).1
    · rfl
  rw [ofWord, ofPattern, hstem]
  exact contains_exact_string _ _

/-- With a star, a text finds the words whose lower case starts with its own. -/
theorem Slice.contains_ofWord_star (ht : ∀ c ∈ t.toList, isWordChar c = true) :
    (ofWord p (x ++ "*")).contains (.string (lowerCase t)) = true ↔
      (lowerCase x).toList <+: (lowerCase t).toList := by
  rw [ofWord, lowerCase_append_star, ofPattern_append_star, contains_startingWith]
  constructor
  · rintro ⟨rest, heq, -⟩
    exact ⟨rest, by rw [Scalar.string.inj heq, String.toList_ofList]⟩
  · rintro ⟨rest, heq⟩
    refine ⟨rest, by rw [heq, String.ofList_toList], ?_⟩
    rintro ⟨c, more, rfl⟩
    have hlast : lastChar ∈ (lowerCase t).toList := by
      rw [← heq]
      simp
    exact (ne_of_mem_lowerCase ht hlast).2 rfl

theorem Json.exists_fieldAt? (v : Json) (path : String) :
    ∃ doc : Json, doc.fieldAt? path = some v := by
  unfold fieldAt?
  induction pathKeys path with
  | nil => exact ⟨v, rfl⟩
  | cons key keys ih =>
    obtain ⟨doc, hdoc⟩ := ih
    refine ⟨object [(key, doc)], ?_⟩
    rw [descend?, member?, lookup, if_pos rfl, Option.bind_some, hdoc]

/-- **Entities with a word in a property are found by the word. They are found by what the word
starts with and a star just if that does not end in a sigma that has a cased letter behind it in the
word.** -/
theorem found_iff (hp : catalog.isFullText p = true)
    (hword : ∀ c ∈ (x ++ rest).toList, isWordChar c = true) :
    (∀ id doc, HasWord doc p (x ++ rest) →
        (Filter.leaf (.contains p (x ++ rest))).holds catalog id doc = true) ∧
      ((∀ id doc, HasWord doc p (x ++ rest) →
          (Filter.leaf (.contains p (x ++ "*"))).holds catalog id doc = true) ↔
        ¬ (EndsInSigma [] x.toList ∧ startsCased rest.toList = true)) := by
  refine ⟨fun id doc hdoc => ?_, fun hfound => ?_, fun hsigma id doc hdoc => ?_⟩
  · exact (holds_contains hp).mpr ⟨_, hdoc, Slice.contains_ofWord_self hword⟩
  · -- An entity whose only word this is would not be found otherwise.
    rw [← lowerCase_prefix_iff, ← Slice.contains_ofWord_star (p := p) hword]
    rcases eq_or_ne (x ++ rest) "" with hempty | hne
    · obtain ⟨rfl, rfl⟩ : x = "" ∧ rest = "" := by simpa using hempty
      exact (Slice.contains_ofWord_star hword).mpr List.prefix_rfl
    · obtain ⟨doc, hfield⟩ := Json.exists_fieldAt? (.string (x ++ rest)) p
      have hhas : ∀ t, HasWord doc p t ↔ t = x ++ rest := by
        intro t
        simp [HasWord, hfield, Json.texts, ← mem_words, words_run hne hword]
      obtain ⟨t, ht, hcontains⟩ := (holds_contains hp).mp (hfound 1 doc ((hhas _).mpr rfl))
      rwa [(hhas t).mp ht] at hcontains
  · refine (holds_contains hp).mpr ⟨_, hdoc, ?_⟩
    rw [Slice.contains_ofWord_star hword, lowerCase_prefix_iff]
    exact hsigma

/-- A beginning that ends in a sigma with a numeral behind it in the word. -/
theorem found_numbered :
    Catalog.everything.isFullText "p" = true ∧
      (∀ c ∈ ("ΑΣ" ++ "1").toList, isWordChar c = true) ∧
      ∀ id doc, HasWord doc "p" ("ΑΣ" ++ "1") →
        (Filter.leaf (.contains "p" ("ΑΣ" ++ "*"))).holds .everything id doc = true := by
  have hall : ("ΑΣ" ++ "1").toList.all isWordChar = true := by decide +kernel
  have hword : ∀ c ∈ ("ΑΣ" ++ "1").toList, isWordChar c = true := List.all_eq_true.mp hall
  have hcased : startsCased "1".toList = false := by decide +kernel
  refine ⟨rfl, hword, (found_iff rfl hword).2.mpr fun h => ?_⟩
  rw [hcased] at h
  cases h.2

/-- An entity with a word that is not found by the first two letters of the word. -/
theorem not_found_sigma :
    let doc : Json := .object [("p", .string "ΑΣΑ")]
    HasWord doc "p" ("ΑΣ" ++ "Α") ∧
      (Filter.leaf (.contains "p" ("ΑΣ" ++ "*"))).holds .everything 1 doc = false := by
  intro doc
  have hkeys : Json.pathKeys "p" = ["p"] := by decide +kernel
  have hfield : doc.fieldAt? "p" = some (.string "ΑΣΑ") := by
    rw [Json.fieldAt?, hkeys]
    rfl
  have hword : IsWord "ΑΣΑ" "ΑΣΑ" := by
    rw [← mem_words]
    decide +kernel
  exact ⟨⟨_, hfield, _, List.mem_singleton_self _, hword⟩, by decide +kernel⟩

end Found

end EntityQuery
