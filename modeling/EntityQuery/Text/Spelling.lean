/-! # What bytes spell

Bytes spell characters in UTF-8, but not all of them have to: a byte that belongs to no character
is kept as such, so that text may be told from the rest later on.

* `spelling_toUTF8`: the bytes of a text spell its characters and nothing else.
* `textOf?_map_some`: characters that all are there make up a text. -/

namespace EntityQuery.Text

/-- Characters in order; `none` stands where something is written that is no character. -/
abbrev Spelling := List (Option Char)

/-- What the bytes from a place on spell. -/
def spellingFrom (bytes : ByteArray) (i : Nat) : Spelling :=
  if i < bytes.size then
    match bytes.utf8DecodeChar? i with
    | some c => some c :: spellingFrom bytes (i + c.utf8Size)
    | none => none :: spellingFrom bytes (i + 1)
  else []
termination_by bytes.size - i
decreasing_by
  · have := c.utf8Size_pos
    omega
  · omega

/-- What bytes spell. -/
def spelling (bytes : List UInt8) : Spelling := spellingFrom ⟨bytes.toArray⟩ 0

/-- The text that is spelled, if all of it is characters. -/
def textOf? (cs : Spelling) : Option String := (cs.mapM id).map String.ofList

theorem spellingFrom_utf8Encode (before cs : List Char) :
    spellingFrom (before ++ cs).utf8Encode before.utf8Encode.size = cs.map some := by
  induction cs generalizing before with
  | nil => rw [spellingFrom]; simp
  | cons c cs ih =>
    have hsize : before.utf8Encode.size + c.utf8Size = (before ++ [c]).utf8Encode.size := by
      simp [List.utf8Encode_append, List.utf8Encode_singleton, String.length_utf8EncodeChar]
    have hc : (before ++ c :: cs).utf8Encode.utf8DecodeChar? before.utf8Encode.size = some c := by
      rw [ByteArray.utf8DecodeChar?_eq_utf8DecodeChar?_extract, List.utf8Encode_append,
        ByteArray.size_append, ByteArray.extract_append_eq_right rfl (by simp)]
      exact List.utf8DecodeChar?_utf8Encode_cons
    have hlt : before.utf8Encode.size < (before ++ c :: cs).utf8Encode.size :=
      ByteArray.lt_size_of_isSome_utf8DecodeChar? (by rw [hc]; rfl)
    rw [spellingFrom, if_pos hlt, hc]
    simp only [List.map_cons, List.cons.injEq, true_and]
    rw [hsize, show before ++ c :: cs = (before ++ [c]) ++ cs by simp]
    exact ih (before ++ [c])

theorem spelling_toUTF8 (s : String) : spelling s.toUTF8.data.toList = s.toList.map some := by
  have h := spellingFrom_utf8Encode [] s.toList
  simpa [spelling] using h

theorem textOf?_map_some (cs : List Char) : textOf? (cs.map some) = some (String.ofList cs) := by
  have h : cs.mapM some = some cs := by induction cs <;> simp_all
  simp [textOf?, h]

end EntityQuery.Text
