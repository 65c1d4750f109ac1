import EntityQuery.Proofs.Text.Digits
import EntityQuery.Proofs.Text.Runs
import EntityQuery.Text.Quoted

/-! # Quoted texts read back

Every character between the quotes is read back from the way in which it is spelled out, whatever
follows it, and none of them starts with a quote. So a quoted text ends where its closing quote
stands, and it tells the text. No control character shows in it.

* `Text.unquoteChar?_quoteChar`: one character is read back.
* `Text.eq_of_quoted_append`: **a quoted text and what follows it can be told apart**.
* `Text.isControl_of_mem_quoted`: a quoted text is free of control characters. -/

namespace EntityQuery.Text

variable {c : Char} {rest rest' : List Char}

/-- The character that a letter behind a backslash stands for. -/
def named (c : Char) : Char :=
  if c = 'n' then '\n' else if c = 'r' then '\r' else if c = 't' then '\t'
  else if c = '0' then '\x00' else c

/-- The first character of a quoted text, and what is left after its spelling. -/
def unquoteChar? : List Char → Option (Char × List Char)
  | '\\' :: 'u' :: '\x7b' :: rest =>
    some (Char.ofNat (valueIn 16 (rest.takeWhile (· != '\x7d'))),
      (rest.dropWhile (· != '\x7d')).drop 1)
  | '\\' :: e :: rest => some (named e, rest)
  | c :: rest => some (c, rest)
  | [] => none

theorem ne_brace_of_mem_hexDigits {n : Nat} (hc : c ∈ hexDigits n) : (c != '\x7d') = true := by
  obtain ⟨k, hk, rfl⟩ := exists_digitChar_of_mem_toDigits hc
  exact (by decide : ∀ k < 16, (Nat.digitChar k != '\x7d') = true) k hk

/-- **A character is read back from its spelling.** -/
theorem unquoteChar?_quoteChar (c : Char) (rest : List Char) :
    unquoteChar? (quoteChar c ++ rest) = some (c, rest) := by
  unfold quoteChar
  split_ifs with hquote hback hn hr ht hzero hhidden
  · rw [hquote]; rfl
  · rw [hback]; rfl
  · rw [hn]; rfl
  · rw [hr]; rfl
  · rw [ht]; rfl
  · rw [hzero]; rfl
  · have hstops : Stops (· != '\x7d') ('\x7d' :: rest) := stops_cons (by decide) rest
    have hhex : ∀ c' ∈ hexDigits c.toNat, (c' != '\x7d') = true :=
      fun _ h => ne_brace_of_mem_hexDigits h
    simp only [List.append_assoc, List.cons_append, List.nil_append]
    rw [unquoteChar?, takeWhile_run hhex hstops, dropWhile_run hhex hstops, hexDigits,
      valueIn_toDigits, Char.ofNat_toNat]
    rfl
  · rw [List.singleton_append]
    unfold unquoteChar?
    split <;> simp_all

theorem head_quoteChar (c : Char) (rest : List Char) :
    (quoteChar c ++ rest).head? ≠ some '"' := by
  unfold quoteChar
  split_ifs with hquote <;> simp_all

theorem eq_of_flatMap_quoteChar {cs ds : List Char}
    (h : cs.flatMap quoteChar ++ '"' :: rest = ds.flatMap quoteChar ++ '"' :: rest') :
    cs = ds ∧ rest = rest' := by
  induction cs generalizing ds with
  | nil =>
    cases ds with
    | nil => exact ⟨rfl, (List.cons.inj h).2⟩
    | cons d ds =>
      rw [List.flatMap_cons, List.append_assoc] at h
      exact absurd (congrArg List.head? h).symm (head_quoteChar d _)
  | cons c cs ih =>
    cases ds with
    | nil =>
      rw [List.flatMap_cons, List.append_assoc] at h
      exact absurd (congrArg List.head? h) (head_quoteChar c _)
    | cons d ds =>
      rw [List.flatMap_cons, List.flatMap_cons, List.append_assoc, List.append_assoc] at h
      have hread := congrArg unquoteChar? h
      rw [unquoteChar?_quoteChar, unquoteChar?_quoteChar] at hread
      obtain ⟨rfl, htails⟩ := Prod.mk.inj (Option.some.inj hread)
      obtain ⟨rfl, hrests⟩ := ih htails
      exact ⟨rfl, hrests⟩

/-- **A quoted text and what follows it can be told apart.** -/
theorem eq_of_quoted_append {s t : String}
    (h : (quoted s).toList ++ rest = (quoted t).toList ++ rest') : s = t ∧ rest = rest' := by
  simp only [quoted, String.toList_ofList, List.cons_append, List.append_assoc,
    List.nil_append, List.cons.injEq, true_and] at h
  rw [← String.toList_inj]
  exact eq_of_flatMap_quoteChar h

/-! ### Control characters -/

/-- The first characters, which control a display and show nothing. -/
def isControl (c : Char) : Bool := c.toNat < 0x20

theorem isHidden_of_isControl (hc : isControl c = true) : isHidden c = true := by
  have hlow : c.toNat ≤ 0x1F := by
    simp only [isControl, decide_eq_true_eq] at hc
    omega
  show Ranges.holds c.toNat hiddenRanges = true
  unfold hiddenRanges
  rw [Ranges.holds, if_pos hlow]
  simp

theorem isControl_digitChar : ∀ k < 16, isControl (Nat.digitChar k) = false := by decide

theorem isControl_of_mem_quoteChar {d : Char} (hd : d ∈ quoteChar c) : isControl d = false := by
  have hspelled : ∀ cs : List Char, cs.all (!isControl ·) = true → d ∈ cs →
      isControl d = false := by
    intro cs hcs hd
    simpa using List.all_eq_true.mp hcs d hd
  unfold quoteChar at hd
  split_ifs at hd with hquote hback hn hr ht hzero hhidden
  · exact hspelled _ (by decide) hd
  · exact hspelled _ (by decide) hd
  · exact hspelled _ (by decide) hd
  · exact hspelled _ (by decide) hd
  · exact hspelled _ (by decide) hd
  · exact hspelled _ (by decide) hd
  · rcases List.mem_append.mp hd with hd | hd
    · rcases List.mem_append.mp hd with hd | hd
      · exact hspelled _ (by decide) hd
      · obtain ⟨k, hk, rfl⟩ := exists_digitChar_of_mem_toDigits hd
        exact isControl_digitChar k hk
    · exact hspelled _ (by decide) hd
  · rw [List.mem_singleton.mp hd]
    by_contra hcontrol
    exact hhidden (isHidden_of_isControl (by simpa using hcontrol))

theorem isControl_of_mem_quoted {s : String} (hc : c ∈ (quoted s).toList) :
    isControl c = false := by
  rw [quoted, String.toList_ofList] at hc
  rcases List.mem_append.mp hc with hc | hc
  · rcases List.mem_cons.mp hc with rfl | hc
    · rfl
    · obtain ⟨d, -, hc⟩ := List.mem_flatMap.mp hc
      exact isControl_of_mem_quoteChar hc
  · rw [List.mem_singleton.mp hc]
    rfl

end EntityQuery.Text
