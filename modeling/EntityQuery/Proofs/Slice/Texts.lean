import EntityQuery.Proofs.Number.Layout
import EntityQuery.Proofs.Text.Quoted
import EntityQuery.Slice.Basic

/-! # Texts of slices

The text of a slice can be told apart from what follows it, and it tells the slice: a value ends
where its closing quote stands, or at the comma or bracket behind it, and no two values have one
text, whatever their kinds are.

* `Scalar.text_injective`: **values with one text are one value**.
* `Scalar.eq_of_text_append`: the text of a value in front of a comma or a bracket.
* `Slice.eq_of_startText_append`, `Slice.eq_of_finishText_append`: the bounds of a slice in front of
  anything. -/

namespace EntityQuery

open Text Decimal

namespace Scalar

variable {v w : Scalar} {c : Char} {rest rest' : List Char}

/-! ## Texts of values -/

theorem floatLayout_plain : floatLayout.Plain := ⟨.inr rfl, rfl⟩

theorem measureLayout_plain : measureLayout.Plain := ⟨.inl rfl, rfl⟩

/-- The characters of measures, which may be infinite or no number. -/
def inAnyMeasure (c : Char) : Bool := inMeasure c || c ∈ ['i', 'n', 'f', 'N', 'a']

theorem inMeasure_of_mem_measureText_finite {x : Binary64}
    (hc : c ∈ (measureText (.finite x)).toList) : inMeasure c = true :=
  inMeasure_of_mem_text measureLayout_plain (fun _ => rfl) hc

theorem inAnyMeasure_of_mem_measureText {x : Double} (hc : c ∈ (measureText x).toList) :
    inAnyMeasure c = true := by
  cases x with
  | finite x => simp [inAnyMeasure, inMeasure_of_mem_measureText_finite hc]
  | infinite negative =>
    have hall : ∀ negative, (measureText (.infinite negative)).toList.all inAnyMeasure = true := by
      decide
    exact List.all_eq_true.mp (hall negative) c hc
  | nan =>
    have hall : (measureText .nan).toList.all inAnyMeasure = true := by decide
    exact List.all_eq_true.mp hall c hc

theorem exists_mem_measureText_of_not_finite {x : Double} (hx : x.isFinite = false) :
    ∃ c ∈ (measureText x).toList, inMeasure c = false := by
  cases x with
  | finite x => cases hx
  | infinite negative => exact ⟨'i', by cases negative <;> decide, rfl⟩
  | nan => exact ⟨'N', by decide, rfl⟩

theorem isFinite_of_measureText_eq {x : Binary64} {y : Double}
    (h : measureText (.finite x) = measureText y) : y.isFinite = true := by
  by_contra hy
  obtain ⟨c, hc, hout⟩ := exists_mem_measureText_of_not_finite (Bool.eq_false_iff.mpr hy)
  rw [inMeasure_of_mem_measureText_finite (h ▸ hc)] at hout
  cases hout

theorem measureText_injective : Function.Injective measureText := by
  intro x y h
  cases x with
  | finite x =>
    have hy := isFinite_of_measureText_eq h
    cases y with
    | finite y => rw [Decimal.text_injective measureLayout_plain h]
    | infinite negative => cases hy
    | nan => cases hy
  | infinite negative =>
    cases y with
    | finite y => cases isFinite_of_measureText_eq h.symm
    | infinite negative' => revert negative negative'; decide
    | nan => revert negative; decide
  | nan =>
    cases y with
    | finite y => cases isFinite_of_measureText_eq h.symm
    | infinite negative => revert negative; decide
    | nan => rfl

/-- The characters that follow a value in the text of a slice. -/
def endsValue (c : Char) : Bool := c = ',' || c = ']' || c = ')'

/-- The characters of values that are not quoted. -/
def inBare (c : Char) : Bool := !endsValue c && c != '"'

theorem inBare_of_inNumber (hc : inNumber c = true) : inBare c = true := by
  by_contra hbare
  have hcases : c = ',' ∨ c = ']' ∨ c = ')' ∨ c = '"' := by
    by_contra hnone
    simp only [not_or] at hnone
    exact hbare (by simp [inBare, endsValue, hnone])
  rcases hcases with rfl | rfl | rfl | rfl <;> exact absurd hc (by decide)

theorem mem_text_int {n : Int64} (hc : c ∈ (int n).text.toList) :
    c.isDigit = true ∨ c = '-' := by
  have htext : (int n).text = n.toInt.repr := rfl
  rw [htext, toList_repr] at hc
  split_ifs at hc
  · exact .inl (isDigit_of_mem_toDigits hc)
  · rcases List.mem_cons.mp hc with rfl | hc
    · exact .inr rfl
    · exact .inl (isDigit_of_mem_toDigits hc)

theorem inNumber_of_mem_text_int {n : Int64} (hc : c ∈ (int n).text.toList) :
    inNumber c = true := by
  rcases mem_text_int hc with hc | rfl
  · simp [inNumber, inMeasure, hc]
  · rfl

theorem inNumber_of_mem_text_float {x : Binary64} (hc : c ∈ (float x).text.toList) :
    inNumber c = true :=
  inNumber_of_mem_text floatLayout_plain hc

theorem exists_mem_text_bool (b : Bool) :
    ∃ c ∈ (bool b).text.toList, inNumber c = false := by
  cases b with
  | false => exact ⟨'f', by decide, rfl⟩
  | true => exact ⟨'t', by decide, rfl⟩

/-- A value that is not quoted. -/
def isBare : Scalar → Bool
  | string _ => false
  | _ => true

theorem inBare_of_mem_text (hv : v.isBare = true) (hc : c ∈ v.text.toList) :
    inBare c = true := by
  cases v with
  | bool b =>
    have hbool : ∀ b, (bool b).text.toList.all inBare = true := by decide
    exact List.all_eq_true.mp (hbool b) c hc
  | int n => exact inBare_of_inNumber (inNumber_of_mem_text_int hc)
  | float x => exact inBare_of_inNumber (inNumber_of_mem_text_float hc)
  | string s => cases hv

theorem int_ne_float {n : Int64} {x : Binary64} : (int n).text ≠ (float x).text := by
  intro h
  obtain ⟨c, hc, hmark⟩ : ∃ c ∈ (float x).text.toList, c = '.' ∨ c = 'e' :=
    exists_mem_text_of_whole rfl rfl x
  have hint : c.isDigit = true ∨ c = '-' := mem_text_int (n := n) (by rw [h]; exact hc)
  rcases hmark with rfl | rfl <;> exact absurd hint (by decide)

theorem eq_of_text_bare (hv : v.isBare = true) (hw : w.isBare = true) (h : v.text = w.text) :
    v = w := by
  have hbool : ∀ b, ∀ t : String, (∀ c ∈ t.toList, inNumber c = true) → (bool b).text ≠ t := by
    rintro b t ht rfl
    obtain ⟨c, hc, hin⟩ := exists_mem_text_bool b
    exact absurd (ht c hc) (by simp [hin])
  have hint := fun n c => inNumber_of_mem_text_int (c := c) (n := n)
  have hfloat := fun x c => inNumber_of_mem_text_float (c := c) (x := x)
  cases v with
  | bool b =>
    cases w with
    | bool b' => revert b b'; decide
    | int n => exact absurd h (hbool b _ (hint n))
    | float x => exact absurd h (hbool b _ (hfloat x))
    | string s => cases hw
  | int n =>
    cases w with
    | bool b => exact absurd h.symm (hbool b _ (hint n))
    | int m => rw [Int64.toInt_inj.mp (eq_of_repr h)]
    | float x => exact absurd h int_ne_float
    | string s => cases hw
  | float x =>
    cases w with
    | bool b => exact absurd h.symm (hbool b _ (hfloat x))
    | int n => exact absurd h.symm int_ne_float
    | float y => rw [text_injective floatLayout_plain h]
    | string s => cases hw
  | string s => cases hv

/-! ## Values in front of a comma or a bracket -/

/-- What follows a value starts with a comma or a bracket. -/
def EndsValue (rest : List Char) : Prop := ∃ c more, rest = c :: more ∧ endsValue c = true

theorem EndsValue.stops (h : EndsValue rest) : Stops inBare rest := by
  obtain ⟨c, more, rfl, hc⟩ := h
  exact stops_cons (by simp [inBare, hc]) more

theorem exists_string (hv : v.isBare = false) : ∃ s, v = string s := by
  cases v with
  | string s => exact ⟨s, rfl⟩
  | _ => cases hv

theorem head_text_string (s : String) (rest : List Char) :
    ((string s).text.toList ++ rest).head? = some '"' := by
  simp [text, quoted]

theorem head_text_of_bare (hv : v.isBare = true) (hrest : EndsValue rest) :
    (v.text.toList ++ rest).head? ≠ some '"' := by
  obtain ⟨c, more, rfl, hc⟩ := hrest
  intro hhead
  cases htext : v.text.toList with
  | nil =>
    rw [htext] at hhead
    obtain rfl : c = '"' := Option.some.inj hhead
    cases hc
  | cons d ds =>
    rw [htext] at hhead
    obtain rfl : d = '"' := Option.some.inj hhead
    exact absurd (inBare_of_mem_text hv (c := '"') (by rw [htext]; exact List.mem_cons_self))
      (by decide)

/-- **The text of a value and what follows it can be told apart.** -/
theorem eq_of_text_append (hrest : EndsValue rest) (hrest' : EndsValue rest')
    (h : v.text.toList ++ rest = w.text.toList ++ rest') : v = w ∧ rest = rest' := by
  cases hv : v.isBare with
  | true =>
    cases hw : w.isBare with
    | true =>
      obtain ⟨htext, hrests⟩ := eq_of_run_append (fun _ => inBare_of_mem_text hv)
        (fun _ => inBare_of_mem_text hw) hrest.stops hrest'.stops h
      exact ⟨eq_of_text_bare hv hw (String.toList_inj.mp htext), hrests⟩
    | false =>
      obtain ⟨s, rfl⟩ := exists_string hw
      have hhead := head_text_string s rest'
      rw [← h] at hhead
      exact absurd hhead (head_text_of_bare hv hrest)
  | false =>
    obtain ⟨s, rfl⟩ := exists_string hv
    cases hw : w.isBare with
    | true =>
      have hhead := head_text_string s rest
      rw [h] at hhead
      exact absurd hhead (head_text_of_bare hw hrest')
    | false =>
      obtain ⟨t, rfl⟩ := exists_string hw
      obtain ⟨rfl, hrests⟩ := eq_of_quoted_append h
      exact ⟨rfl, hrests⟩

/-- **Values with one text are one value.** -/
theorem text_injective : Function.Injective text := by
  intro v w h
  have happend : v.text.toList ++ [','] = w.text.toList ++ [','] := by rw [h]
  exact (eq_of_text_append ⟨',', [], rfl, rfl⟩ ⟨',', [], rfl, rfl⟩ happend).1

theorem limit_ne_text {sign : Char} (hsign : sign = '-' ∨ sign = '+') (hrest : EndsValue rest)
    (hrest' : EndsValue rest') :
    sign :: 'i' :: 'n' :: 'f' :: rest ≠ v.text.toList ++ rest' := by
  intro h
  have hlimit : ∀ c ∈ [sign, 'i', 'n', 'f'], inBare c = true := by
    refine List.all_eq_true.mp ?_
    rcases hsign with rfl | rfl <;> decide
  cases hv : v.isBare with
  | false =>
    obtain ⟨s, rfl⟩ := exists_string hv
    have hhead := head_text_string s rest'
    rw [← h] at hhead
    obtain rfl : sign = '"' := Option.some.inj hhead
    exact absurd hsign (by decide)
  | true =>
    obtain ⟨htext, -⟩ := eq_of_run_append hlimit (fun _ => inBare_of_mem_text hv) hrest.stops
      hrest'.stops h
    have hi : 'i' ∈ v.text.toList := by
      rw [← htext]
      simp
    cases v with
    | bool b =>
      have hbool : ∀ b, 'i' ∉ (bool b).text.toList := by decide
      exact hbool b hi
    | int n => exact absurd (inNumber_of_mem_text_int hi) (by decide)
    | float x => exact absurd (inNumber_of_mem_text_float hi) (by decide)
    | string s => cases hv

end Scalar

namespace Slice

open Scalar

variable {b b' : Option Bound} {rest rest' : List Char} {s t : Slice}

/-! ## Bounds -/

theorem startText_some_append (b : Bound) (rest : List Char) :
    (startText (some b)).toList ++ rest =
      (if b.inclusive then '[' else '(') :: (b.value.text.toList ++ rest) := by
  rw [startText, String.toList_append]
  split_ifs <;> rfl

theorem finishText_some_append (b : Bound) (rest : List Char) :
    (finishText (some b)).toList ++ rest =
      b.value.text.toList ++ (if b.inclusive then ']' else ')') :: rest := by
  rw [finishText, String.toList_append, List.append_assoc]
  split_ifs <;> rfl

theorem endsValue_comma (rest : List Char) : EndsValue (',' :: rest) := ⟨',', rest, rfl, rfl⟩

theorem endsValue_bracket (inclusive : Bool) (rest : List Char) :
    EndsValue ((if inclusive then ']' else ')') :: rest) :=
  ⟨_, rest, rfl, by cases inclusive <;> rfl⟩

/-- **A lower bound and what follows its comma can be told apart.** -/
theorem eq_of_startText_append
    (h : (startText b).toList ++ ',' :: rest = (startText b').toList ++ ',' :: rest') :
    b = b' ∧ rest = rest' := by
  have hlimit : ∀ (b : Bound) (rest rest' : List Char),
      (startText none).toList ++ ',' :: rest ≠ (startText (some b)).toList ++ ',' :: rest' := by
    intro b rest rest' h
    rw [startText_some_append] at h
    exact limit_ne_text (.inl rfl) (endsValue_comma rest) (endsValue_comma rest')
      (List.cons.inj h).2
  cases b with
  | none =>
    cases b' with
    | none => exact ⟨rfl, (List.cons.inj (List.append_cancel_left h)).2⟩
    | some b' => exact absurd h (hlimit b' rest rest')
  | some b =>
    cases b' with
    | none => exact absurd h.symm (hlimit b rest' rest)
    | some b' =>
      rw [startText_some_append, startText_some_append] at h
      obtain ⟨hbracket, htail⟩ := List.cons.inj h
      obtain ⟨hvalue, hrests⟩ :=
        eq_of_text_append (endsValue_comma rest) (endsValue_comma rest') htail
      have hinclusive : b.inclusive = b'.inclusive := by
        revert hbracket
        cases b.inclusive <;> cases b'.inclusive <;> decide
      obtain ⟨value, inclusive⟩ := b
      obtain ⟨value', inclusive'⟩ := b'
      simp_all

/-- **An upper bound and what follows its bracket can be told apart.** -/
theorem eq_of_finishText_append
    (h : (finishText b).toList ++ rest = (finishText b').toList ++ rest') :
    b = b' ∧ rest = rest' := by
  have hlimit : ∀ (b : Bound) (rest rest' : List Char),
      (finishText none).toList ++ rest ≠ (finishText (some b)).toList ++ rest' := by
    intro b rest rest' h
    rw [finishText_some_append] at h
    exact limit_ne_text (.inr rfl) (endsValue_bracket false rest)
      (endsValue_bracket b.inclusive rest') h
  cases b with
  | none =>
    cases b' with
    | none => exact ⟨rfl, List.append_cancel_left h⟩
    | some b' => exact absurd h (hlimit b' rest rest')
  | some b =>
    cases b' with
    | none => exact absurd h.symm (hlimit b rest' rest)
    | some b' =>
      rw [finishText_some_append, finishText_some_append] at h
      obtain ⟨hvalue, htail⟩ := eq_of_text_append (endsValue_bracket b.inclusive rest)
        (endsValue_bracket b'.inclusive rest') h
      obtain ⟨hbracket, hrests⟩ := List.cons.inj htail
      have hinclusive : b.inclusive = b'.inclusive := by
        revert hbracket
        cases b.inclusive <;> cases b'.inclusive <;> decide
      obtain ⟨value, inclusive⟩ := b
      obtain ⟨value', inclusive'⟩ := b'
      simp_all

/-! ## Slices -/

theorem text_append (hs : s.reversed = false) (rest : List Char) :
    s.text.toList ++ rest = s.property.toList ++ ' ' :: ((startText s.start).toList ++
      ',' :: ' ' :: ((finishText s.finish).toList ++ rest)) := by
  have hspace : " ".toList = [' '] := rfl
  have hcomma : ", ".toList = [',', ' '] := rfl
  simp [text, hs, hspace, hcomma]

end Slice

end EntityQuery
