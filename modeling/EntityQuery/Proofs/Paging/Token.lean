import EntityQuery.Paging.Request
import EntityQuery.Proofs.Encoding.Base64Url
import EntityQuery.Proofs.Json.Written

/-! # Cursors read back from tokens

A token is read back as the cursor that it was made for. The one thing that is asked for is that
the texts of the doubles among the values sorted by are read back as these doubles, since the
reader of JSON rounds more than once on some texts.

* `Cursor.ofToken_surrounded`: a token is read back as its cursor.
* `Cursor.token_roundtrip`: what a token is made of, and for which plans it is accepted.
* `PageRequest.resolve_token`: a request with a token goes on where the token was given out. -/

namespace EntityQuery

open Json (written? writtenItems? writtenMembers?)

/-- The text of a double is read back as that double. -/
def Binary64.ReadsBack (x : Binary64) : Prop :=
  ∃ m n, (Json.Number.real x).numeral? = some m ∧ m.number? = some n ∧ n.toBinary64 = x

/-- If a scalar is a double, its text is read back. -/
def Scalar.ReadsBack : Scalar → Prop
  | float x => x.ReadsBack
  | _ => True

/-- The text of a JSON value is read as a given thing. -/
def Json.Reads {α : Type} (j : Json) (read? : Json.Raw → Option α) (a : α) : Prop :=
  ∃ r, written? j = some r ∧ read? r = some a

theorem Json.written?_object (members : List (String × Json)) :
    written? (.object members) = (writtenMembers? members).map .object := by
  rw [written?]

/-! ## The parts of a cursor -/

theorem Json.reads_ofUInt64 (n : UInt64) : (Json.ofUInt64 n).Reads Json.Raw.word? n := by
  obtain ⟨m, hm, hn⟩ := Json.Number.reads_natural n
  exact ⟨.number m, by simp [Json.ofUInt64, written?, hm], hn⟩

namespace Scalar

theorem signedOfWord?_toUInt64 {n : Int64} (hn : ¬ n < 0) : signedOfWord? n.toUInt64 = some n := by
  have hle : (0 : Int64) ≤ n := by
    rw [Int64.le_iff_toInt_le]
    rw [Int64.lt_iff_toInt_lt] at hn
    omega
  have hlt : n.toUInt64 < 0x8000000000000000 := by
    rw [UInt64.lt_iff_toNat_lt, Int64.toNat_toUInt64_of_le hle]
    exact n.toNatClampNeg_lt
  rw [signedOfWord?, if_pos hlt, Int64.toInt64_toUInt64]

theorem reads_toJson {v : Scalar} (hv : v.ReadsBack) : v.toJson.Reads ofRaw? v := by
  cases v with
  | bool b => exact ⟨_, rfl, rfl⟩
  | string s => exact ⟨_, rfl, rfl⟩
  | float x =>
    obtain ⟨m, n, hm, hn, hx⟩ := hv
    refine ⟨.object [(some "float", .number m)], ?_, ?_⟩
    · simp [toJson, written?, writtenMembers?, hm]
    · simp [ofRaw?, hn, hx]
  | int n =>
    by_cases hneg : n < 0
    · obtain ⟨m, hm, hnat, hn⟩ := Json.Number.reads_negative (Int64.lt_iff_toInt_lt.mp hneg)
      refine ⟨.object [(some "int", .number m)], ?_, ?_⟩
      · simp [toJson, written?, writtenMembers?, Json.Number.ofInt64, hneg, hm]
      · simp [ofRaw?, hnat, hn]
    · obtain ⟨m, hm, hn⟩ := Json.Number.reads_natural n.toUInt64
      refine ⟨.object [(some "int", .number m)], ?_, ?_⟩
      · simp [toJson, written?, writtenMembers?, Json.Number.ofInt64, hneg, hm]
      · simp [ofRaw?, hn, signedOfWord?_toUInt64 hneg]

theorem ofRaw?_ne_null {r : Json.Raw} {v : Scalar} (h : ofRaw? r = some v) : r ≠ .null := by
  rintro rfl
  cases h

end Scalar

theorem SortKey.reads_slotJson {slot : Option Scalar} (hslot : ∀ v ∈ slot, v.ReadsBack) :
    (slotJson slot).Reads slotOfRaw? slot := by
  cases slot with
  | none => exact ⟨_, rfl, rfl⟩
  | some v =>
    obtain ⟨r, hr, hv⟩ := Scalar.reads_toJson (hslot v rfl)
    refine ⟨r, hr, ?_⟩
    unfold slotOfRaw?
    split
    · exact absurd rfl (Scalar.ofRaw?_ne_null hv)
    · rw [hv]
      rfl

theorem SortKey.reads_toJson {key : SortKey} (hkey : ∀ slot ∈ key, ∀ v ∈ slot, v.ReadsBack) :
    (Json.array (key.map slotJson)).Reads ofRaw? key := by
  have hitems : ∃ rs, writtenItems? (key.map slotJson) = some rs ∧ rs.mapM slotOfRaw? = some key := by
    induction key with
    | nil => exact ⟨[], rfl, rfl⟩
    | cons slot key ih =>
      obtain ⟨r, hr, hslot⟩ := reads_slotJson (hkey slot (by simp))
      obtain ⟨rs, hrs, hkey⟩ := ih fun slot hslot => hkey slot (by simp [hslot])
      exact ⟨r :: rs, by simp [writtenItems?, hr, hrs], by simp [hslot, hkey]⟩
  obtain ⟨rs, hrs, hkey⟩ := hitems
  exact ⟨.array rs, by simp [written?, hrs], hkey⟩

/-- The doubles among the values of a row's sort key are read back. -/
def RowPosition.ReadsBack (row : RowPosition) : Prop := ∀ slot ∈ row.key, ∀ v ∈ slot, v.ReadsBack

theorem RowPosition.reads_toJson {row : RowPosition} (hrow : row.ReadsBack) :
    row.toJson.Reads ofRaw? row := by
  obtain ⟨id, hid, hidReads⟩ := Json.reads_ofUInt64 row.id
  obtain ⟨version, hversion, hversionReads⟩ := Json.reads_ofUInt64 row.version
  by_cases hempty : row.key = []
  · refine ⟨.object [(some "id", id), (some "version", version)], ?_, ?_⟩
    · simp [toJson, hempty, Json.written?_object, writtenMembers?, hid, hversion]
    · simp [ofRaw?, Json.Raw.fields?, List.lookup_cons, hidReads, hversionReads, ← hempty]
  · obtain ⟨key, hkey, hkeyReads⟩ := SortKey.reads_toJson hrow
    refine ⟨.object [(some "key", key), (some "id", id), (some "version", version)], ?_, ?_⟩
    · simp [toJson, hempty, Json.written?_object, writtenMembers?, hid, hversion, hkey]
    · simp [ofRaw?, Json.Raw.fields?, List.lookup_cons, hidReads, hversionReads, hkeyReads]

/-! ## Cursors -/

namespace Cursor

theorem reads_word (d : Direction) : (Json.string d.word).Reads Direction.ofRaw? d := by
  cases d <;> exact ⟨_, rfl, rfl⟩

theorem reads_toJson {c : Cursor} (hrow : ∀ row ∈ c.row, row.ReadsBack) :
    c.toJson.Reads ofRaw? c := by
  obtain ⟨digest, hdigest, hdigestReads⟩ := Json.reads_ofUInt64 c.digest
  obtain ⟨order, horder, horderReads⟩ := reads_word c.direction
  obtain ⟨after, hafter, hafterReads⟩ := Json.reads_ofUInt64 c.after
  cases hc : c.row with
  | none =>
    refine ⟨.object [(some "plan_hash", digest), (some "order", order), (some "after", after)],
      ?_, ?_⟩
    · simp [toJson, hc, Json.written?_object, writtenMembers?, hdigest, horder, hafter]
    · simp [ofRaw?, Json.Raw.fields?, List.lookup_cons, hdigestReads, horderReads, hafterReads, ← hc]
  | some row =>
    obtain ⟨r, hr, hrReads⟩ := RowPosition.reads_toJson (hrow row hc)
    refine ⟨.object [(some "plan_hash", digest), (some "order", order), (some "after", after),
      (some "row", r)], ?_, ?_⟩
    · simp [toJson, hc, Json.written?_object, writtenMembers?, hdigest, horder, hafter, hr]
    · have hnull : r ≠ .null := by
        rintro rfl
        cases hrReads
      simp [ofRaw?, Json.Raw.fields?, List.lookup_cons, hdigestReads, horderReads, hafterReads, hrReads]
      rw [← hc]

/-- **A token is read back as the cursor that it was made for**, with any blanks around it. -/
theorem ofToken_surrounded {c : Cursor} (hrow : ∀ row ∈ c.row, row.ReadsBack) {front back : String}
    (hblank : ∀ b ∈ front.toList ++ back.toList, Text.isBlank b = true) :
    ofToken (front ++ c.token ++ back) = .ok c := by
  obtain ⟨r, hr, hreads⟩ := reads_toJson hrow
  have hfront : ∀ b ∈ front.toList, Text.isBlank b = true :=
    fun b hb => hblank b (List.mem_append_left _ hb)
  have hback : ∀ b ∈ back.toList, Text.isBlank b = true :=
    fun b hb => hblank b (List.mem_append_right _ hb)
  simp only [ofToken, token, String.toList_append, String.toList_ofList,
    Base64Url.trimBlanks_surrounded _ hfront hback, Base64Url.decode?_encode, Text.spelling_toUTF8,
    Json.ofSpelling?_compact hr, Option.bind_some, hreads]

theorem ofToken_token {c : Cursor} (hrow : ∀ row ∈ c.row, row.ReadsBack) :
    ofToken c.token = .ok c := by
  have hread : ofToken ("" ++ c.token ++ "") = .ok c := ofToken_surrounded hrow (by simp)
  simpa using hread

theorem ofTokenFor_eq_ok_iff {digest : UInt64} {text : String} {c : Cursor} :
    ofTokenFor digest text = .ok c ↔ ofToken text = .ok c ∧ c.digest = digest := by
  unfold ofTokenFor
  cases hread : ofToken text with
  | error e => simp
  | ok d => grind

theorem ofTokenFor_token {c : Cursor} (hrow : ∀ row ∈ c.row, row.ReadsBack) :
    ofTokenFor c.digest c.token = .ok c :=
  ofTokenFor_eq_ok_iff.mpr ⟨ofToken_token hrow, rfl⟩

/-- **The token of a cursor** is made of letters that stand in addresses as they are. It is read back
as the cursor, also with blanks around it, and it is accepted for the plan with the digest of the
cursor and for no other. -/
theorem token_roundtrip (c : Cursor) (hrow : ∀ row ∈ c.row, row.ReadsBack) :
    (∀ letter ∈ c.token.toList, Base64Url.isUrlSafe letter = true) ∧
    ∀ front back : String, (∀ b ∈ front.toList ++ back.toList, Text.isBlank b = true) →
      ofToken (front ++ c.token ++ back) = .ok c ∧
      ∀ digest, ofTokenFor digest (front ++ c.token ++ back) =
        if c.digest = digest then .ok c else .error (.otherPlan c.digest digest) := by
  refine ⟨fun letter hletter => ?_, fun front back hblank => ?_⟩
  · rw [token, String.toList_ofList] at hletter
    exact Base64Url.isUrlSafe_of_mem_encode hletter
  · have htoken := ofToken_surrounded hrow hblank
    exact ⟨htoken, fun digest => by rw [ofTokenFor, htoken]⟩

/-- The token of a row that is sorted by a missing value, a truth value, the least integer, a double
and a text of characters that JSON has to escape. -/
theorem token_roundtrip_row :
    let half : Binary64 := ⟨false, 0x4004000000000000, by decide⟩
    let c : Cursor :=
      { digest := 0xFFFFFFFFFFFFFFFF, direction := .descending, after := 0xFFFFFFFFFFFFFFFF
        row := some
          { key := [none, some (.bool true), some (.int Int64.minValue), some (.float half),
              some (.string "\"\\\x00\x1f\n\u10ffff")]
            id := 0xFFFFFFFFFFFFFFFF, version := 0 } }
    (∀ row ∈ c.row, row.ReadsBack) ∧
    Cursor.ofToken ("\t" ++ c.token ++ "\u2003\n") = .ok c ∧
    Cursor.ofTokenFor 1 ("" ++ c.token ++ "") = .error (.otherPlan c.digest 1) := by
  intro half c
  have hhalf : half.ReadsBack := by
    refine ⟨⟨false, ['2'], some ['5'], none⟩, .real half, ?_, ?_, rfl⟩
    · decide +kernel
    · decide +kernel
  have hrow : ∀ row ∈ c.row, row.ReadsBack := by
    intro row hrow slot hslot v hv
    obtain rfl := Option.some.inj hrow
    simp only [List.mem_cons, List.not_mem_nil, or_false] at hslot
    rcases hslot with rfl | rfl | rfl | rfl | rfl
    · cases hv
    · cases hv; trivial
    · cases hv; trivial
    · cases hv; exact hhalf
    · cases hv; trivial
  obtain ⟨-, hread⟩ := token_roundtrip c hrow
  have hblank : ("\t".toList ++ "\u2003\n".toList).all Text.isBlank = true := by decide
  exact ⟨hrow, (hread "\t" "\u2003\n" (List.all_eq_true.mp hblank)).1,
    (hread "" "" (by simp)).2 1⟩

end Cursor

/-! ## The pages of a run -/

namespace PageRequest

variable {request : PageRequest} {digest : UInt64} {limits : QueryLimits}

theorem resolve_first (hsize : request.size limits ≠ 0) (hcursor : request.cursor = none) :
    request.resolve digest limits =
      .ok ⟨request.size limits, request.direction, none, none, digest⟩ := by
  simp [resolve, hsize, hcursor]

/-- A request with a token for the same plan and direction is for the page behind the place where
the token was given out. -/
theorem resolve_token {c : Cursor} (hsize : request.size limits ≠ 0)
    (hcursor : request.cursor = some c.token) (hdirection : request.direction = c.direction)
    (hrow : ∀ row ∈ c.row, row.ReadsBack) :
    request.resolve c.digest limits =
      .ok ⟨request.size limits, c.direction, some c.after, c.row, c.digest⟩ := by
  simp [resolve, hsize, hcursor, hdirection, Cursor.ofTokenFor_token hrow]

end PageRequest

end EntityQuery
