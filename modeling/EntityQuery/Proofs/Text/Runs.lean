import EntityQuery.Plan.Digest
import Mathlib.Data.List.TakeWhile

/-! # Texts without separators

Parts of a text that are written one right after the other can be told apart when the first is a run
of characters of one kind and the second starts with no such character. The same holds of bytes:
the bytes of a character are not the first bytes of another one's, so a run of characters ends
before bytes that no such character starts with.

* `Text.eq_of_run_append`, `Text.eq_of_append_run`: a run in front of a rest, and after one.
* `eq_of_utf8EncodeChar_append`: bytes start with one character at most.
* `eq_of_textBytes_append`: the bytes of a run in front of other bytes. -/

namespace EntityQuery

/-! ## Characters -/

namespace Text

variable {p : Char → Bool} {run run' rest rest' : List Char}

/-- What follows a run does not start with a character of the run's kind. -/
def Stops (p : Char → Bool) (rest : List Char) : Prop := ∀ c ∈ rest.head?, p c = false

theorem stops_nil (p : Char → Bool) : Stops p [] := by simp [Stops]

theorem stops_cons {c : Char} (hc : p c = false) (rest : List Char) : Stops p (c :: rest) := by
  simpa [Stops] using hc

theorem Stops.append_cons {c : Char} (h : Stops p rest) (hc : p c = false) (more : List Char) :
    Stops p (rest ++ c :: more) := by
  cases rest with
  | nil => exact stops_cons hc more
  | cons d rest => exact h

theorem takeWhile_run (hrun : ∀ c ∈ run, p c = true) (hrest : Stops p rest) :
    (run ++ rest).takeWhile p = run := by
  rw [List.takeWhile_append_of_pos hrun]
  cases rest with
  | nil => simp
  | cons c rest =>
    have hc : p c = false := hrest c rfl
    rw [List.takeWhile_cons_of_neg (by simp [hc]), List.append_nil]

theorem dropWhile_run (hrun : ∀ c ∈ run, p c = true) (hrest : Stops p rest) :
    (run ++ rest).dropWhile p = rest := by
  rw [List.dropWhile_append_of_pos hrun]
  cases rest with
  | nil => simp
  | cons c rest =>
    have hc : p c = false := hrest c rfl
    rw [List.dropWhile_cons_of_neg (by simp [hc])]

/-- **A run and what follows it can be told apart.** -/
theorem eq_of_run_append (hrun : ∀ c ∈ run, p c = true) (hrun' : ∀ c ∈ run', p c = true)
    (hrest : Stops p rest) (hrest' : Stops p rest') (h : run ++ rest = run' ++ rest') :
    run = run' ∧ rest = rest' := by
  refine ⟨?_, ?_⟩
  · rw [← takeWhile_run hrun hrest, h, takeWhile_run hrun' hrest']
  · rw [← dropWhile_run hrun hrest, h, dropWhile_run hrun' hrest']

/-- **A run and what comes before it can be told apart.** -/
theorem eq_of_append_run (hrun : ∀ c ∈ run, p c = true) (hrun' : ∀ c ∈ run', p c = true)
    (hrest : Stops p rest.reverse) (hrest' : Stops p rest'.reverse)
    (h : rest ++ run = rest' ++ run') : rest = rest' ∧ run = run' := by
  have hreverse := congrArg List.reverse h
  rw [List.reverse_append, List.reverse_append] at hreverse
  obtain ⟨hruns, hrests⟩ := eq_of_run_append (fun c hc => hrun c (List.mem_reverse.mp hc))
    (fun c hc => hrun' c (List.mem_reverse.mp hc)) hrest hrest' hreverse
  exact ⟨List.reverse_inj.mp hrests, List.reverse_inj.mp hruns⟩

end Text

/-! ## Bytes -/

section Bytes

variable {p : Char → Bool} {c d : Char} {s t : String} {rest rest' : List UInt8}

/-- **Bytes start with one character at most.** -/
theorem eq_of_utf8EncodeChar_append
    (h : String.utf8EncodeChar c ++ rest = String.utf8EncodeChar d ++ rest') :
    c = d ∧ rest = rest' := by
  have hchar : c = d := by
    have hbytes := congrArg (fun bytes => bytes.toByteArray.utf8DecodeChar? 0) h
    simp only [List.toByteArray_append, ByteArray.utf8DecodeChar?_utf8EncodeChar_append] at hbytes
    exact Option.some.inj hbytes
  subst hchar
  exact ⟨rfl, List.append_cancel_left h⟩

theorem toList_loop (bytes : ByteArray) (i : Nat) (acc : List UInt8) :
    ByteArray.toList.loop bytes i acc = acc.reverse ++ bytes.data.toList.drop i := by
  fun_induction ByteArray.toList.loop bytes i acc with
  | case1 i acc hi ih =>
    have hlt : i < bytes.data.toList.length := by simpa using hi
    have hget : bytes.get! i = bytes.data.toList[i] := by
      rw [Array.getElem_toList]
      exact getElem!_pos bytes.data i hi
    rw [ih, hget, List.drop_eq_getElem_cons hlt, List.reverse_cons, List.append_assoc]
    rfl
  | case2 i acc hi =>
    rw [List.drop_eq_nil_of_le (by simpa using hi), List.append_nil]

theorem textBytes_eq (s : String) : textBytes s = s.toList.flatMap String.utf8EncodeChar := by
  rw [textBytes, ByteArray.toList, toList_loop, String.toUTF8, ← String.utf8Encode_toList]
  simp [List.utf8Encode]

/-- No character of the kind starts the bytes. -/
def StopsBytes (p : Char → Bool) (rest : List UInt8) : Prop :=
  ∀ c more, rest = String.utf8EncodeChar c ++ more → p c = false

theorem stopsBytes_char (hd : p d = false) (rest : List UInt8) :
    StopsBytes p (String.utf8EncodeChar d ++ rest) := by
  intro c more h
  rwa [← (eq_of_utf8EncodeChar_append h).1]

/-- No character starts with the byte of all ones. -/
theorem stopsBytes_ones (p : Char → Bool) (rest : List UInt8) : StopsBytes p (0xFF :: rest) := by
  intro c more h
  obtain ⟨b, bs, hbytes⟩ := List.exists_cons_of_ne_nil (String.utf8EncodeChar_ne_nil (c := c))
  have hfirst := UInt8.isUTF8FirstByte_getElem_zero_utf8EncodeChar (c := c)
  simp only [hbytes, List.getElem_cons_zero] at hfirst
  rw [hbytes, List.cons_append] at h
  rw [← (List.cons.inj h).1] at hfirst
  exact absurd hfirst (by decide)

theorem eq_of_flatMap_append {cs ds : List Char} (hcs : ∀ c ∈ cs, p c = true)
    (hds : ∀ d ∈ ds, p d = true) (hrest : StopsBytes p rest) (hrest' : StopsBytes p rest')
    (h : cs.flatMap String.utf8EncodeChar ++ rest = ds.flatMap String.utf8EncodeChar ++ rest') :
    cs = ds ∧ rest = rest' := by
  induction cs generalizing ds with
  | nil =>
    cases ds with
    | nil => exact ⟨rfl, h⟩
    | cons d ds =>
      rw [List.flatMap_cons, List.append_assoc] at h
      exact absurd (hds d (by simp)) (by simp [hrest d _ h])
  | cons c cs ih =>
    cases ds with
    | nil =>
      rw [List.flatMap_cons, List.append_assoc] at h
      exact absurd (hcs c (by simp)) (by simp [hrest' c _ h.symm])
    | cons d ds =>
      rw [List.flatMap_cons, List.flatMap_cons, List.append_assoc, List.append_assoc] at h
      obtain ⟨rfl, htails⟩ := eq_of_utf8EncodeChar_append h
      obtain ⟨rfl, hrests⟩ := ih (fun c hc => hcs c (by simp [hc]))
        (fun d hd => hds d (by simp [hd])) htails
      exact ⟨rfl, hrests⟩

/-- **A run of characters and the bytes that follow it can be told apart.** -/
theorem eq_of_textBytes_append (hs : ∀ c ∈ s.toList, p c = true) (ht : ∀ c ∈ t.toList, p c = true)
    (hrest : StopsBytes p rest) (hrest' : StopsBytes p rest')
    (h : textBytes s ++ rest = textBytes t ++ rest') : s = t ∧ rest = rest' := by
  rw [textBytes_eq, textBytes_eq] at h
  rw [← String.toList_inj]
  exact eq_of_flatMap_append hs ht hrest hrest' h

end Bytes

end EntityQuery
