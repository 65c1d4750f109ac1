import EntityQuery.Proofs.Json.Numeral

/-! # JSON values read back from their texts

The compact form of a value is cut into the words of the value, and walking along these words gives
the value as it is written. The only thing that may fail is a number whose text is no numeral.

* `Json.stringBody?_flatMap`: an escaped text is unescaped to itself.
* `Json.tokens?_compactChars`: the compact form of a value is cut into its words.
* `Json.Raw.atValue_words`: a value is read off its words, inside any open brackets.
* `Json.ofSpelling?_compact`: the compact form of a value is read as what is written there. -/

namespace EntityQuery.Json

open Text

/-! ## Strings -/

section Strings

variable {rest more : Spelling}

theorem stringBody?_quote (rest : Spelling) : stringBody? (some '"' :: rest) = some ([], rest) := by
  rw [stringBody?]
  simp

theorem stringBody?_backslash {c : Option Char} (h : escaped? rest = some (c, more)) :
    stringBody? (some '\\' :: rest) =
      (stringBody? more).map fun (text, rest) => (c :: text, rest) := by
  rw [stringBody?]
  simp only [Option.some.injEq, Char.reduceEq, if_false, if_true]
  split <;> simp_all

theorem stringBody?_plain {c : Char} (hquote : c ≠ '"') (hback : c ≠ '\\') (hspace : 0x20 ≤ c.toNat)
    (rest : Spelling) :
    stringBody? (some c :: rest) =
      (stringBody? rest).map fun (text, rest) => (some c :: text, rest) := by
  rw [stringBody?]
  simp [hquote, hback, Nat.not_lt.mpr hspace]

theorem hexQuad?_hexPair : ∀ n < 0x20,
    hexQuad? (some '0') (some '0') (some (Nat.digitChar (n / 16 % 16)))
      (some (Nat.digitChar (n % 16))) = some n := by decide

theorem stringBody?_escapeChar (c : Char) (rest : Spelling) :
    stringBody? ((escapeChar c).map some ++ rest) =
      (stringBody? rest).map fun (text, rest) => (some c :: text, rest) := by
  unfold escapeChar
  split_ifs with hquote hback hn hr ht hb hf hcontrol
  · rw [hquote]; exact stringBody?_backslash rfl
  · rw [hback]; exact stringBody?_backslash rfl
  · rw [hn]; exact stringBody?_backslash rfl
  · rw [hr]; exact stringBody?_backslash rfl
  · rw [ht]; exact stringBody?_backslash rfl
  · rw [hb]; exact stringBody?_backslash rfl
  · rw [hf]; exact stringBody?_backslash rfl
  · refine stringBody?_backslash ?_
    have hquad := hexQuad?_hexPair c.toNat hcontrol
    have hlow : c.toNat < 0xD800 ∨ 0xDFFF < c.toNat := by omega
    show escaped? (some 'u' :: some '0' :: some '0' :: some (Nat.digitChar (c.toNat / 16 % 16)) ::
      some (Nat.digitChar (c.toNat % 16)) :: rest) = some (some c, rest)
    simp only [escaped?, hquad, Option.bind_eq_bind, Option.bind_some, hlow, if_true,
      Char.ofNat_toNat]
    rfl
  · exact stringBody?_plain hquote hback (by omega) rest

/-- **An escaped text is unescaped to itself.** -/
theorem stringBody?_flatMap (cs : List Char) (rest : Spelling) :
    stringBody? ((cs.flatMap escapeChar).map some ++ some '"' :: rest) =
      some (cs.map some, rest) := by
  induction cs with
  | nil => exact stringBody?_quote rest
  | cons c cs ih =>
    rw [List.flatMap_cons, List.map_append, List.append_assoc, stringBody?_escapeChar, ih]
    rfl

end Strings

/-! ## The words of a value -/

mutual

/-- A value as it is written, if the texts of its numbers are numerals. -/
def written? : Json → Option Raw
  | null => some .null
  | bool b => some (.bool b)
  | number n => n.numeral?.map .number
  | string s => some (.string (some s))
  | array items => (writtenItems? items).map .array
  | object members => (writtenMembers? members).map .object

/-- The items of an array as they are written. -/
def writtenItems? : List Json → Option (List Raw)
  | [] => some []
  | item :: rest => do return (← written? item) :: (← writtenItems? rest)

/-- The members of an object as they are written. -/
def writtenMembers? : List (String × Json) → Option (List (Option String × Raw))
  | [] => some []
  | (key, value) :: rest => do
    return (some key, ← written? value) :: (← writtenMembers? rest)

end

namespace Raw

mutual

/-- The words of a value. -/
def words : Raw → List Token
  | null => [.null]
  | bool b => [.bool b]
  | number n => [.number n]
  | string s => [.string s]
  | array items => .openArray :: itemsWords items ++ [.closeArray]
  | object members => .openObject :: membersWords members ++ [.closeObject]

/-- The words of the items of an array, with commas between them. -/
def itemsWords : List Raw → List Token
  | [] => []
  | [item] => item.words
  | item :: rest => item.words ++ .comma :: itemsWords rest

/-- The words of the members of an object, with commas between them. -/
def membersWords : List (Option String × Raw) → List Token
  | [] => []
  | [(key, value)] => .string key :: .colon :: value.words
  | (key, value) :: rest => .string key :: .colon :: value.words ++ .comma :: membersWords rest

end

end Raw

/-! ### Cutting a text into them -/

section Words

variable {rest : Spelling}

theorem tokens?_cons {c : Char} {t : Token} {cs more : Spelling} (hspace : isSpace c = false)
    (h : Token.scan? (some c :: cs) = some (t, more)) :
    tokens? (some c :: cs) = (tokens? more).map (t :: ·) := by
  rw [tokens?]
  simp only [Option.any_some, hspace, Bool.false_eq_true, if_false]
  split <;> simp_all

theorem tokens?_comma (cs : Spelling) :
    tokens? (some ',' :: cs) = (tokens? cs).map (.comma :: ·) :=
  tokens?_cons rfl rfl

theorem tokens?_string (s : String) (rest : Spelling) :
    tokens? ((stringText s).map some ++ rest) = (tokens? rest).map (.string (some s) :: ·) := by
  have hscan : Token.scan? ((stringText s).map some ++ rest) = some (.string (some s), rest) := by
    have hbody := stringBody?_flatMap s.toList rest
    simp only [stringText, List.cons_append, List.map_cons, List.map_append, List.map_nil,
      List.append_assoc, List.nil_append, Token.scan?, hbody, Option.map_some, textOf?_map_some,
      String.ofList_toList]
  exact tokens?_cons rfl hscan

theorem tokens?_key (key : String) (rest : Spelling) :
    tokens? ((stringText key).map some ++ some ':' :: rest) =
      (tokens? rest).map (.string (some key) :: .colon :: ·) := by
  have hcolon : tokens? (some ':' :: rest) = (tokens? rest).map (.colon :: ·) :=
    tokens?_cons rfl rfl
  rw [tokens?_string, hcolon, Option.map_map]
  rfl

/-- A text in brackets is cut into the brackets and the words between them. -/
theorem tokens?_bracketed {first last : Char} {opening closing : Token} {body : List Char}
    {words : List Token}
    (hopen : ∀ cs, tokens? (some first :: cs) = (tokens? cs).map (opening :: ·))
    (hclose : ∀ cs, tokens? (some last :: cs) = (tokens? cs).map (closing :: ·))
    (hbody : tokens? (body.map some ++ some last :: rest) =
      (tokens? (some last :: rest)).map (words ++ ·)) :
    tokens? ((first :: body ++ [last]).map some ++ rest) =
      (tokens? rest).map ((opening :: words ++ [closing]) ++ ·) := by
  have htext : (first :: body ++ [last]).map some ++ rest =
      some first :: (body.map some ++ some last :: rest) := by simp
  rw [htext, hopen, hbody, hclose, Option.map_map, Option.map_map]
  refine congrArg (Option.map · (tokens? rest)) (funext fun ts => ?_)
  simp

/-- A text that does not go on with a character of numbers. -/
def EndsNumber (rest : Spelling) : Prop := ∀ c ∈ rest.head?, c.any inNumeral = false

theorem endsNumber_cons {c : Char} (hc : inNumeral c = false) (rest : Spelling) :
    EndsNumber (some c :: rest) := by
  simpa [EndsNumber] using hc

theorem takeWhile_inNumeral {cs : List Char} (hcs : ∀ c ∈ cs, inNumeral c = true)
    (hrest : EndsNumber rest) :
    (cs.map some ++ rest).takeWhile (·.any inNumeral) = cs.map some ∧
      (cs.map some ++ rest).dropWhile (·.any inNumeral) = rest := by
  have hall : ∀ c ∈ cs.map some, c.any inNumeral = true := by
    simpa using hcs
  rw [List.takeWhile_append_of_pos hall, List.dropWhile_append_of_pos hall]
  cases rest with
  | nil => simp
  | cons c rest =>
    have hc : c.any inNumeral = false := hrest c rfl
    simp [hc]

theorem scan?_of_inNumeral {c : Char} (hc : inNumeral c = true) (cs : Spelling) :
    Token.scan? (some c :: cs) =
      (Numeral.ofText? (((some c :: cs).takeWhile (·.any inNumeral)).filterMap id)).map fun n =>
        (.number n, (some c :: cs).dropWhile (·.any inNumeral)) := by
  unfold Token.scan?
  split
  case h_11 => rfl
  all_goals
    rename_i heq
    simp only [List.cons.injEq, Option.some.injEq] at heq
    rw [heq.1] at hc
    exact absurd hc (by decide)

theorem isSpace_of_inNumeral {c : Char} (hc : inNumeral c = true) : isSpace c = false := by
  by_contra hspace
  simp only [isSpace, Bool.not_eq_false, Bool.or_eq_true, decide_eq_true_eq] at hspace
  rcases hspace with ((rfl | rfl) | rfl) | rfl <;> exact absurd hc (by decide)

theorem tokens?_number {n : Number} {m : Numeral} (h : n.numeral? = some m)
    (hrest : EndsNumber rest) :
    tokens? (n.text.toList.map some ++ rest) = (tokens? rest).map (.number m :: ·) := by
  obtain ⟨hne, hall⟩ := inNumeral_of_ofText? h
  obtain ⟨htake, hdrop⟩ := takeWhile_inNumeral hall hrest
  cases htext : n.text.toList with
  | nil => exact absurd htext hne
  | cons c cs =>
    have hc : inNumeral c = true := hall c (by simp [htext])
    have hread : Numeral.ofText? (c :: cs) = some m := htext ▸ h
    rw [htext, List.map_cons, List.cons_append] at htake hdrop
    rw [List.map_cons, List.cons_append]
    refine tokens?_cons (isSpace_of_inNumeral hc) ?_
    rw [scan?_of_inNumeral hc, htake, hdrop]
    simp [hread]

end Words

theorem writtenItems?_cons {item : Json} {items : List Json} {rs : List Raw}
    (h : writtenItems? (item :: items) = some rs) :
    ∃ r rs', rs = r :: rs' ∧ written? item = some r ∧ writtenItems? items = some rs' := by
  simp only [writtenItems?, Option.bind_eq_bind, Option.bind_eq_some_iff, Option.pure_def,
    Option.some.injEq] at h
  obtain ⟨r, hr, rs', hrs', heq⟩ := h
  exact ⟨r, rs', heq.symm, hr, hrs'⟩

theorem writtenMembers?_cons {key : String} {value : Json} {members : List (String × Json)}
    {rs : List (Option String × Raw)} (h : writtenMembers? ((key, value) :: members) = some rs) :
    ∃ r rs', rs = (some key, r) :: rs' ∧ written? value = some r ∧
      writtenMembers? members = some rs' := by
  simp only [writtenMembers?, Option.bind_eq_bind, Option.bind_eq_some_iff, Option.pure_def,
    Option.some.injEq] at h
  obtain ⟨r, hr, rs', hrs', heq⟩ := h
  exact ⟨r, rs', heq.symm, hr, hrs'⟩

mutual

/-- **The compact form of a value is cut into its words.** -/
theorem tokens?_compactChars (j : Json) {r : Raw} {rest : Spelling} (h : written? j = some r)
    (hrest : EndsNumber rest) :
    tokens? ((compactChars j).map some ++ rest) = (tokens? rest).map (r.words ++ ·) := by
  match j with
  | null =>
    cases h
    exact tokens?_cons rfl rfl
  | bool b =>
    cases h
    cases b
    · exact tokens?_cons rfl rfl
    · exact tokens?_cons rfl rfl
  | number n =>
    obtain ⟨m, hm, rfl⟩ := Option.map_eq_some_iff.mp h
    exact tokens?_number hm hrest
  | string s =>
    cases h
    exact tokens?_string s rest
  | array items =>
    obtain ⟨rs, hrs, rfl⟩ := Option.map_eq_some_iff.mp h
    have hitems := tokens?_compactItems items hrs (endsNumber_cons (c := ']') rfl rest)
    exact tokens?_bracketed (fun _ => tokens?_cons rfl rfl) (fun _ => tokens?_cons rfl rfl) hitems
  | object members =>
    obtain ⟨rs, hrs, rfl⟩ := Option.map_eq_some_iff.mp h
    have hmembers := tokens?_compactMembers members hrs (endsNumber_cons (c := '\x7d') rfl rest)
    exact tokens?_bracketed (fun _ => tokens?_cons rfl rfl) (fun _ => tokens?_cons rfl rfl) hmembers

theorem tokens?_compactItems (items : List Json) {rs : List Raw} {rest : Spelling}
    (h : writtenItems? items = some rs) (hrest : EndsNumber rest) :
    tokens? ((compactItems items).map some ++ rest) =
      (tokens? rest).map (Raw.itemsWords rs ++ ·) := by
  match items with
  | [] =>
    cases h
    simp [compactItems, Raw.itemsWords]
  | [item] =>
    obtain ⟨r, _, rfl, hr, heq⟩ := writtenItems?_cons h
    cases heq
    exact tokens?_compactChars item hr hrest
  | item :: next :: more =>
    obtain ⟨r, rs', rfl, hr, hrs'⟩ := writtenItems?_cons h
    have hnext := tokens?_compactItems (next :: more) hrs' hrest
    obtain ⟨r', rs'', rfl, -, -⟩ := writtenItems?_cons hrs'
    have hitem := tokens?_compactChars item hr
      (endsNumber_cons (c := ',') rfl ((compactItems (next :: more)).map some ++ rest))
    rw [tokens?_comma, hnext] at hitem
    simpa [compactItems, Raw.itemsWords, Function.comp_def] using hitem

theorem tokens?_compactMembers (members : List (String × Json))
    {rs : List (Option String × Raw)} {rest : Spelling}
    (h : writtenMembers? members = some rs) (hrest : EndsNumber rest) :
    tokens? ((compactMembers members).map some ++ rest) =
      (tokens? rest).map (Raw.membersWords rs ++ ·) := by
  match members with
  | [] =>
    cases h
    simp [compactMembers, Raw.membersWords]
  | [(key, value)] =>
    obtain ⟨r, _, rfl, hr, heq⟩ := writtenMembers?_cons h
    cases heq
    have hvalue := tokens?_compactChars value hr hrest
    have hkey := tokens?_key key ((compactChars value).map some ++ rest)
    rw [hvalue] at hkey
    simpa [compactMembers, Raw.membersWords, Function.comp_def] using hkey
  | (key, value) :: next :: more =>
    obtain ⟨r, rs', rfl, hr, hrs'⟩ := writtenMembers?_cons h
    have hnext := tokens?_compactMembers (next :: more) hrs' hrest
    obtain ⟨r', rs'', rfl, -, -⟩ := writtenMembers?_cons hrs'
    have hvalue := tokens?_compactChars value hr
      (endsNumber_cons (c := ',') rfl ((compactMembers (next :: more)).map some ++ rest))
    rw [tokens?_comma, hnext] at hvalue
    have hkey := tokens?_key key ((compactChars value).map some ++ some ',' ::
      ((compactMembers (next :: more)).map some ++ rest))
    rw [hvalue] at hkey
    simpa [compactMembers, Raw.membersWords, Function.comp_def] using hkey

end

/-! ### Reading the value off them -/

namespace Raw

theorem words_ne_closeArray (r : Raw) (rest more : List Token) :
    r.words ++ rest ≠ .closeArray :: more := by
  cases r <;> simp [words]

theorem itemsWords_ne_closeArray (item : Raw) (items : List Raw) (rest more : List Token) :
    itemsWords (item :: items) ++ rest ≠ .closeArray :: more := by
  cases items with
  | nil => exact words_ne_closeArray item rest more
  | cons next items =>
    rw [itemsWords, List.append_assoc]
    · exact words_ne_closeArray item _ more
    · simp

theorem atValue_openArray {stack : List Frame} {ts : List Token}
    (hts : ∀ more, ts ≠ .closeArray :: more) :
    atValue stack (.openArray :: ts) = atValue (.array [] :: stack) ts := by
  rw [atValue]
  exact hts

theorem exists_membersWords (key : Option String) (value : Raw)
    (members : List (Option String × Raw)) :
    ∃ ts, membersWords ((key, value) :: members) = .string key :: .colon :: ts := by
  cases members <;> simp [membersWords]

mutual

/-- **A value is read off its words**, inside any open brackets. -/
theorem atValue_words (r : Raw) (stack : List Frame) (rest : List Token) :
    atValue stack (r.words ++ rest) = afterValue stack r rest := by
  match r with
  | null => simp [words, atValue]
  | bool b => simp [words, atValue]
  | number n => simp [words, atValue]
  | string s => simp [words, atValue]
  | array [] => simp [words, itemsWords, atValue]
  | array (item :: items) =>
    have hitems := atValue_itemsWords item items [] stack rest
    rw [← atValue_openArray (itemsWords_ne_closeArray item items _)] at hitems
    simpa [words] using hitems
  | object [] => simp [words, membersWords, atValue]
  | object ((key, value) :: members) =>
    obtain ⟨ts, hts⟩ := exists_membersWords key value members
    have hmembers := atValue_membersWords key value members [] stack rest hts
    simpa [words, hts, atValue] using hmembers
termination_by sizeOf r

/-- The items of an array are read up to the bracket that closes it. -/
theorem atValue_itemsWords (item : Raw) (items acc : List Raw) (stack : List Frame)
    (rest : List Token) :
    atValue (.array acc :: stack) (itemsWords (item :: items) ++ .closeArray :: rest) =
      afterValue stack (array (acc.reverse ++ item :: items)) rest := by
  match items with
  | [] =>
    have hitem := atValue_words item (.array acc :: stack) (.closeArray :: rest)
    simpa [itemsWords, afterValue] using hitem
  | next :: more =>
    have hitem := atValue_words item (.array acc :: stack)
      (.comma :: (itemsWords (next :: more) ++ .closeArray :: rest))
    have hmore := atValue_itemsWords next more (item :: acc) stack rest
    simpa [itemsWords, afterValue, hmore] using hitem
termination_by sizeOf (item :: items)

theorem atValue_membersWords (key : Option String) (value : Raw)
    (members acc : List (Option String × Raw)) (stack : List Frame) (rest : List Token)
    {ts : List Token}
    (hts : membersWords ((key, value) :: members) = .string key :: .colon :: ts) :
    atValue (.object acc key :: stack) (ts ++ .closeObject :: rest) =
      afterValue stack (object (acc.reverse ++ (key, value) :: members)) rest := by
  match members with
  | [] =>
    obtain rfl : value.words = ts := by simpa [membersWords] using hts
    have hvalue := atValue_words value (.object acc key :: stack) (.closeObject :: rest)
    simpa [afterValue] using hvalue
  | (key', value') :: more =>
    obtain ⟨ts', hts'⟩ := exists_membersWords key' value' more
    obtain rfl : value.words ++ .comma :: membersWords ((key', value') :: more) = ts := by
      simpa [membersWords] using hts
    have hvalue := atValue_words value (.object acc key :: stack)
      (.comma :: .string key' :: .colon :: (ts' ++ .closeObject :: rest))
    have hmore := atValue_membersWords key' value' more ((key, value) :: acc) stack rest hts'
    simpa [hts', afterValue, hmore] using hvalue
termination_by sizeOf ((key, value) :: members)

end

end Raw

/-- **The compact form of a value is read as what is written there.** -/
theorem ofSpelling?_compact {j : Json} {r : Raw} (h : written? j = some r) :
    Raw.ofSpelling? (j.compact.toList.map some) = some r := by
  have hend : EndsNumber [] := by simp [EndsNumber]
  have htokens := tokens?_compactChars j h hend
  have hwords := r.atValue_words [] []
  rw [List.append_nil] at htokens hwords
  have hnil : tokens? [] = some [] := by rw [tokens?]
  simp only [Raw.ofSpelling?, compact, String.toList_ofList, htokens, hnil, Option.map_some,
    Option.bind_eq_bind, Option.bind_some, List.append_nil, hwords, Raw.afterValue]

end EntityQuery.Json
