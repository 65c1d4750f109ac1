import EntityQuery.Proofs.Paging.Token
import EntityQuery.Proofs.Plan.Named
import EntityQuery.Proofs.Slice.Texts

/-! # The bytes that a digest is taken of

The bytes that spell a plan out have hardly a mark between their parts, but they tell the plan. The
operator and the parameters of a selector are a run of characters that show, and a count follows,
whose first byte is that of a control character. In the run a property ends before a space, since it
is written twice and names have no spaces; the parts of an area are found from its comma to the left.
What is sorted by is a name before a byte that is zero or one, and a field is shown before a byte
that no character has.

* `Selector.shows_heading`: the run at the root of a selector shows no control character.
* `Selector.eq_of_heading_slices`, `Selector.eq_of_heading_within`: what the run tells of the root.
* `Selector.eq_of_digestBytes_append`: the bytes of a selector in front of others.
* `Plan.digestBytes_unambiguous`: **plans of query texts are told by their bytes**, so two of them
  accept one token only if they are equal or their bytes are a collision of the hash. -/

namespace EntityQuery

open Text Query

/-! ## Parameters -/

namespace Slice

variable {s t : Slice} {rest rest' : List Char}

theorem eq_of_append_self {cs ds : List Char} (h : cs ++ cs = ds ++ ds) : cs = ds := by
  have hlength := congrArg List.length h
  rw [List.length_append, List.length_append] at hlength
  exact (List.append_inj h (by omega)).1

/-- **The parameter of a slice and what follows it can be told apart.** -/
theorem eq_of_parameter_append (hs : s.Named) (ht : t.Named)
    (h : s.property.toList ++ (s.text.toList ++ rest) =
      t.property.toList ++ (t.text.toList ++ rest')) : s = t ∧ rest = rest' := by
  rw [text_append hs.forward, text_append ht.forward, ← List.append_assoc, ← List.append_assoc] at h
  have htwice : ∀ {s : Slice}, s.Named → ∀ c ∈ s.property.toList ++ s.property.toList,
      continuesName c = true :=
    fun hs c hc => hs.isName.continues c (by simpa using hc)
  obtain ⟨hproperty, htail⟩ := eq_of_run_append (htwice hs) (htwice ht)
    (stops_cons (by decide) _) (stops_cons (by decide) _) h
  obtain ⟨hstart, htail⟩ := eq_of_startText_append (List.cons.inj htail).2
  obtain ⟨hfinish, hrests⟩ := eq_of_finishText_append (List.cons.inj htail).2
  have hname := String.toList_inj.mp (eq_of_append_self hproperty)
  have hforward := hs.forward.trans ht.forward.symm
  refine ⟨?_, hrests⟩
  cases s
  cases t
  simp_all

end Slice

/-! ## Roots -/

namespace Selector

variable {s t : Selector} {rest rest' : List UInt8}

/-- The operator at the root of a selector with its parameters. -/
def heading (s : Selector) : List Char :=
  s.operator.toList ++ s.parameters.flatMap fun p => p.name.toList ++ p.value.toList

/-- The bytes of the inputs of the operator at the root of a selector. -/
def inputsBytes : Selector → List UInt8
  | and left right | or left right => left.digestBytes ++ right.digestBytes
  | not subtract _ => subtract.digestBytes
  | slices _ | within _ => []

theorem digestBytes_eq (s : Selector) :
    s.digestBytes = s.heading.flatMap String.utf8EncodeChar ++
      (countBytes s.inputCount ++ s.inputsBytes) := by
  have hparameters : (s.parameters.flatMap fun p => textBytes p.name ++ textBytes p.value) =
      (s.parameters.flatMap fun p => p.name.toList ++ p.value.toList).flatMap
        String.utf8EncodeChar := by
    rw [List.flatMap_assoc]
    refine List.flatMap_congr fun p _ => ?_
    rw [textBytes_eq, textBytes_eq, List.flatMap_append]
  have hroot : s.digestBytes = textBytes s.operator ++
      (s.parameters.flatMap fun p => textBytes p.name ++ textBytes p.value) ++
      countBytes s.inputCount ++ s.inputsBytes := by
    cases s <;> rfl
  rw [hroot, hparameters, textBytes_eq, heading, List.flatMap_append, List.append_assoc]

theorem heading_slices (g : SliceGroup) :
    (slices g).heading =
      "Slice".toList ++ g.slices.flatMap fun s => s.property.toList ++ s.text.toList := by
  simp only [heading, operator, parameters, List.flatMap_map]

theorem heading_within (a : GeoArea) :
    (within a).heading = "Withinproperty".toList ++ (a.property.toList ++ "distance".toList ++
      (Scalar.measureText a.distance).toList ++ "center".toList ++
      (Scalar.measureText a.latitude).toList ++
      ", ".toList ++ (Scalar.measureText a.longitude).toList) := by
  have hcenter : (within a).parameters = [⟨"property", a.property, false⟩,
      ⟨"distance", Scalar.measureText a.distance, true⟩,
      ⟨"center", Scalar.measureText a.latitude ++ ", " ++ Scalar.measureText a.longitude, true⟩] :=
    rfl
  simp [heading, operator, hcenter]

/-! ### Characters that show -/

theorem holds_below {n first last : Nat} (hn : n < first) (hrange : first ≤ last) (rs : Ranges) :
    Ranges.holds n ((first, last) :: rs) = false := by
  rw [Ranges.holds, if_pos (by omega), decide_eq_false (by omega)]

/-- No name shows a control character. -/
theorem isControl_of_continuesName {c : Char} (hc : continuesName c = true) :
    isControl c = false := by
  rw [Bool.eq_false_iff]
  intro hcontrol
  have hlow : c.toNat < 0x20 := by simpa [isControl] using hcontrol
  have halphabetic : isAlphabetic c = false := holds_below (by omega) (by decide) _
  have hnumeral : isNumeral c = false := holds_below (by omega) (by decide) _
  simp only [continuesName, halphabetic, hnumeral, Bool.false_or, Bool.or_eq_true,
    decide_eq_true_eq] at hc
  rcases hc with (rfl | rfl) | rfl <;> exact absurd hlow (by decide)

/-- No character is a control character. -/
def Shows (cs : List Char) : Prop := ∀ c ∈ cs, isControl c = false

instance (cs : List Char) : Decidable (Shows cs) :=
  decidable_of_iff (cs.all (!isControl ·) = true) (by simp [Shows])

theorem Shows.append {cs ds : List Char} (hcs : Shows cs) (hds : Shows ds) : Shows (cs ++ ds) :=
  fun c hc => (List.mem_append.mp hc).elim (hcs c) (hds c)

theorem Shows.cons {c : Char} {cs : List Char} (hc : isControl c = false) (hcs : Shows cs) :
    Shows (c :: cs) :=
  List.forall_mem_cons.mpr ⟨hc, hcs⟩

theorem isControl_of_inNumber {c : Char} (hc : Decimal.inNumber c = true) : isControl c = false := by
  rw [Bool.eq_false_iff]
  intro hcontrol
  have hlow : c.toNat < 0x20 := by simpa [isControl] using hcontrol
  simp only [Decimal.inNumber, Decimal.inMeasure, Bool.or_eq_true, decide_eq_true_eq] at hc
  rcases hc with ((hdigit | rfl) | rfl) | rfl
  · have hfirst : '0'.toNat ≤ c.toNat := (Char.isDigit_iff_toNat.mp hdigit).1
    have hzero : '0'.toNat = 0x30 := rfl
    omega
  all_goals exact absurd hlow (by decide)

theorem shows_name {s : String} (hs : IsName s) : Shows s.toList :=
  fun c hc => isControl_of_continuesName (hs.continues c hc)

theorem shows_measureText (x : Double) : Shows (Scalar.measureText x).toList := by
  cases x with
  | finite x =>
    intro c hc
    have hin := Scalar.inMeasure_of_mem_measureText_finite hc
    exact isControl_of_inNumber (by simp [Decimal.inNumber, hin])
  | infinite negative =>
    revert negative
    decide
  | nan => decide

theorem shows_value (v : Scalar) : Shows v.text.toList := by
  cases v with
  | bool b =>
    have hbool : ∀ b, Shows (Scalar.bool b).text.toList := by decide
    exact hbool b
  | int n => exact fun c hc => isControl_of_inNumber (Scalar.inNumber_of_mem_text_int hc)
  | float x => exact fun c hc => isControl_of_inNumber (Scalar.inNumber_of_mem_text_float hc)
  | string s => exact fun c hc => isControl_of_mem_quoted hc

theorem shows_startText (b : Option Bound) : Shows (Slice.startText b).toList := by
  cases b with
  | none => decide
  | some b =>
    rw [← List.append_nil (Slice.startText (some b)).toList, Slice.startText_some_append,
      List.append_nil]
    refine Shows.cons ?_ (shows_value b.value)
    cases b.inclusive <;> decide

theorem shows_finishText (b : Option Bound) : Shows (Slice.finishText b).toList := by
  cases b with
  | none => decide
  | some b =>
    rw [← List.append_nil (Slice.finishText (some b)).toList, Slice.finishText_some_append]
    refine (shows_value b.value).append ?_
    cases b.inclusive <;> decide

theorem shows_sliceText {s : Slice} (hs : s.Named) : Shows s.text.toList := by
  rw [← List.append_nil s.text.toList, Slice.text_append hs.forward, List.append_nil]
  refine (shows_name hs.isName).append (Shows.cons (by decide) ?_)
  refine (shows_startText s.start).append (Shows.cons (by decide) (Shows.cons (by decide) ?_))
  exact shows_finishText s.finish

/-- **The run at the root of a selector shows no control character.** -/
theorem shows_heading (hs : s.Named) : Shows s.heading := by
  cases s with
  | and left right | or left right =>
    simp only [heading, operator, parameters, List.flatMap_nil]
    decide
  | not subtract keep =>
    obtain ⟨-, rfl⟩ := hs
    simp only [heading, operator, parameters, List.flatMap_cons, List.flatMap_nil]
    decide
  | slices g =>
    rw [heading_slices]
    refine Shows.append (by decide) fun c hc => ?_
    obtain ⟨slice, hslice, hc⟩ := List.mem_flatMap.mp hc
    have hnamed : slice.Named := hs slice hslice
    exact (shows_name hnamed.isName).append (shows_sliceText hnamed) c hc
  | within a =>
    have hname : IsName a.property := hs
    rw [heading_within]
    refine Shows.append (by decide) ?_
    exact (((((shows_name hname).append (by decide)).append (shows_measureText _)).append
      (by decide)).append (shows_measureText _)).append (by decide) |>.append (shows_measureText _)

/-! ### Reading a root -/

theorem operator_eq_of_heading (h : s.heading = t.heading) : s.operator = t.operator := by
  have hhead := congrArg List.head? h
  cases s <;> cases t <;> first | rfl | exact absurd hhead (by simp [heading, operator])

theorem eq_of_flatMap_parameters {l l' : List Slice} (hl : ∀ s ∈ l, s.Named)
    (hl' : ∀ s ∈ l', s.Named)
    (h : (l.flatMap fun s => s.property.toList ++ s.text.toList) =
      l'.flatMap fun s => s.property.toList ++ s.text.toList) : l = l' := by
  have hne : ∀ (s : Slice) (l : List Slice), s.Named →
      ((s :: l).flatMap fun s => s.property.toList ++ s.text.toList) ≠ [] := by
    intro s l hs hnil
    have hproperty : s.property.toList = [] := by
      simp only [List.flatMap_cons, List.append_eq_nil_iff] at hnil
      exact hnil.1.1
    exact hs.isName.nonempty (String.toList_inj.mp hproperty)
  induction l generalizing l' with
  | nil =>
    cases l' with
    | nil => rfl
    | cons t l' => exact absurd h.symm (hne t l' (hl' t List.mem_cons_self))
  | cons s l ih =>
    cases l' with
    | nil => exact absurd h (hne s l (hl s List.mem_cons_self))
    | cons t l' =>
      rw [List.flatMap_cons, List.flatMap_cons, List.append_assoc, List.append_assoc] at h
      obtain ⟨rfl, htails⟩ := Slice.eq_of_parameter_append (hl s List.mem_cons_self)
        (hl' t List.mem_cons_self) h
      rw [ih (fun s hs => hl s (List.mem_cons_of_mem _ hs))
        (fun s hs => hl' s (List.mem_cons_of_mem _ hs)) htails]

theorem eq_of_heading_slices {g g' : SliceGroup} (hg : ∀ s ∈ g.slices, s.Named)
    (hg' : ∀ s ∈ g'.slices, s.Named)
    (h : (slices g).heading = (slices g').heading) : g = g' := by
  rw [heading_slices, heading_slices] at h
  have hslices := eq_of_flatMap_parameters hg hg' (List.append_cancel_left h)
  cases g
  cases g'
  exact congrArg SliceGroup.mk hslices

theorem eq_of_append_measureText {before before' mark : List Char} {last : Char} {x y : Double}
    (hlast : mark.getLast? = some last) (hmark : Scalar.inAnyMeasure last = false)
    (h : before ++ mark ++ (Scalar.measureText x).toList =
      before' ++ mark ++ (Scalar.measureText y).toList) : before = before' ∧ x = y := by
  have hstops : ∀ before : List Char, Stops Scalar.inAnyMeasure (before ++ mark).reverse := by
    intro before c hc
    rw [List.head?_reverse, List.getLast?_append, hlast] at hc
    rwa [← Option.some.inj hc]
  obtain ⟨hbefore, hmeasure⟩ := eq_of_append_run (fun _ => Scalar.inAnyMeasure_of_mem_measureText)
    (fun _ => Scalar.inAnyMeasure_of_mem_measureText) (hstops before) (hstops before') h
  exact ⟨List.append_cancel_right hbefore,
    Scalar.measureText_injective (String.toList_inj.mp hmeasure)⟩

theorem eq_of_heading_within {a a' : GeoArea} (h : (within a).heading = (within a').heading) :
    a = a' := by
  rw [heading_within, heading_within] at h
  -- From the right, as a property may go on with what looks like a mark and a number.
  obtain ⟨h, hlongitude⟩ := eq_of_append_measureText rfl rfl (List.append_cancel_left h)
  obtain ⟨h, hlatitude⟩ := eq_of_append_measureText rfl rfl h
  obtain ⟨h, hdistance⟩ := eq_of_append_measureText rfl rfl h
  have hproperty := String.toList_inj.mp h
  cases a
  cases a'
  simp_all

/-! ### Reading a selector -/

theorem stopsBytes_inputCount (s : Selector) (rest : List UInt8) :
    StopsBytes (fun c => !isControl c) (countBytes s.inputCount ++ rest) := by
  have hcounts : ∀ n < 3, countBytes n = String.utf8EncodeChar (Char.ofNat n) ++ List.replicate 7 0 ∧
      isControl (Char.ofNat n) = true := by
    decide
  have hlt : s.inputCount < 3 := by cases s <;> simp [inputCount]
  obtain ⟨hbytes, hcontrol⟩ := hcounts _ hlt
  rw [hbytes, List.append_assoc]
  exact stopsBytes_char (by simp [hcontrol]) _

theorem eq_of_root (hs : s.Named) (ht : t.Named)
    (h : s.digestBytes ++ rest = t.digestBytes ++ rest') :
    s.operator = t.operator ∧ s.heading = t.heading ∧
      s.inputsBytes ++ rest = t.inputsBytes ++ rest' := by
  rw [digestBytes_eq, digestBytes_eq, List.append_assoc, List.append_assoc, List.append_assoc,
    List.append_assoc] at h
  obtain ⟨hheading, htail⟩ := eq_of_flatMap_append (p := fun c => !isControl c)
    (fun c hc => by simp [shows_heading hs c hc]) (fun c hc => by simp [shows_heading ht c hc])
    (stopsBytes_inputCount s _) (stopsBytes_inputCount t _) h
  exact ⟨operator_eq_of_heading hheading, hheading, (List.append_inj htail rfl).2⟩

/-- **The bytes of a selector and those that follow it can be told apart.** -/
theorem eq_of_digestBytes_append (hs : s.Named) (ht : t.Named)
    (h : s.digestBytes ++ rest = t.digestBytes ++ rest') : s = t ∧ rest = rest' := by
  induction s generalizing t rest rest' with
  | and left right ihl ihr =>
    obtain ⟨hoperator, -, hinputs⟩ := eq_of_root hs ht h
    cases t with
    | and left' right' =>
      simp only [inputsBytes, List.append_assoc] at hinputs
      obtain ⟨rfl, hright⟩ := ihl hs.1 ht.1 hinputs
      obtain ⟨rfl, hrests⟩ := ihr hs.2 ht.2 hright
      exact ⟨rfl, hrests⟩
    | _ => exact absurd hoperator (by simp [operator])
  | or left right ihl ihr =>
    obtain ⟨hoperator, -, hinputs⟩ := eq_of_root hs ht h
    cases t with
    | or left' right' =>
      simp only [inputsBytes, List.append_assoc] at hinputs
      obtain ⟨rfl, hright⟩ := ihl hs.1 ht.1 hinputs
      obtain ⟨rfl, hrests⟩ := ihr hs.2 ht.2 hright
      exact ⟨rfl, hrests⟩
    | _ => exact absurd hoperator (by simp [operator])
  | not subtract keep ih =>
    obtain ⟨hoperator, -, hinputs⟩ := eq_of_root hs ht h
    cases t with
    | not subtract' keep' =>
      obtain ⟨rfl, hrests⟩ := ih hs.1 ht.1 hinputs
      exact ⟨by rw [hs.2, ht.2], hrests⟩
    | _ => exact absurd hoperator (by simp [operator])
  | slices g =>
    obtain ⟨hoperator, hheading, hinputs⟩ := eq_of_root hs ht h
    cases t with
    | slices g' => exact ⟨congrArg slices (eq_of_heading_slices hs ht hheading), hinputs⟩
    | _ => exact absurd hoperator (by simp [operator])
  | within a =>
    obtain ⟨hoperator, hheading, hinputs⟩ := eq_of_root hs ht h
    cases t with
    | within a' => exact ⟨congrArg within (eq_of_heading_within hheading), hinputs⟩
    | _ => exact absurd hoperator (by simp [operator])

end Selector

/-! ## What is sorted by and what is shown -/

section Terms

variable {l l' : List SortTerm} {rest rest' : List UInt8}

theorem stopsBytes_flag (flag : Bool) (rest : List UInt8) :
    StopsBytes continuesName ((if flag then 1 else 0) :: rest) := by
  cases flag with
  | false => exact stopsBytes_char (d := '\x00') (by decide) rest
  | true => exact stopsBytes_char (d := '\x01') (by decide) rest

/-- The bytes start with a flag. -/
def StartsFlag (rest : List UInt8) : Prop :=
  ∃ (flag : Bool) (more : List UInt8), rest = (if flag then 1 else 0) :: more

theorem startsFlag_selection (selection : Selection) : StartsFlag selection.digestBytes := by
  cases selection with
  | all => exact ⟨false, [], rfl⟩
  | fields paths => exact ⟨true, _, rfl⟩

theorem StartsFlag.stopsBytes (h : StartsFlag rest) : StopsBytes continuesName rest := by
  obtain ⟨flag, more, rfl⟩ := h
  exact stopsBytes_flag flag more

/-- A name does not start with a flag. -/
theorem textBytes_append_ne {name : String} (hname : IsName name) (hrest : StartsFlag rest)
    (flag : Bool) (more : List UInt8) :
    textBytes name ++ (if flag then 1 else 0) :: more ≠ rest := by
  intro h
  have hnothing : textBytes "" = [] := by rw [textBytes_eq]; rfl
  rw [← List.nil_append rest, ← hnothing] at h
  have hempty := eq_of_textBytes_append hname.continues (by simp) (stopsBytes_flag flag more)
    hrest.stopsBytes h
  exact hname.nonempty hempty.1

theorem flag_injective {d d' : Direction}
    (h : (if d.isDescending then 1 else 0 : UInt8) = if d'.isDescending then 1 else 0) :
    d = d' := by
  revert h
  cases d <;> cases d' <;> decide

/-- **The terms to sort by and what follows them can be told apart.** -/
theorem eq_of_sort_append (hl : ∀ term ∈ l, IsName term.property)
    (hl' : ∀ term ∈ l', IsName term.property) (hrest : StartsFlag rest) (hrest' : StartsFlag rest')
    (h : l.flatMap SortTerm.digestBytes ++ rest = l'.flatMap SortTerm.digestBytes ++ rest') :
    l = l' ∧ rest = rest' := by
  have hterm : ∀ (term : SortTerm) (l : List SortTerm) (rest : List UInt8),
      (term :: l).flatMap SortTerm.digestBytes ++ rest = textBytes term.property ++
        (if term.direction.isDescending then 1 else 0) ::
          (l.flatMap SortTerm.digestBytes ++ rest) := by
    intro term l rest
    rw [List.flatMap_cons, SortTerm.digestBytes]
    simp only [List.append_assoc, List.cons_append, List.nil_append]
  induction l generalizing l' with
  | nil =>
    cases l' with
    | nil => exact ⟨rfl, h⟩
    | cons term' l' =>
      rw [hterm] at h
      exact absurd h.symm (textBytes_append_ne (hl' term' List.mem_cons_self) hrest _ _)
  | cons term l ih =>
    cases l' with
    | nil =>
      rw [hterm] at h
      exact absurd h (textBytes_append_ne (hl term List.mem_cons_self) hrest' _ _)
    | cons term' l' =>
      rw [hterm, hterm] at h
      obtain ⟨hname, htail⟩ := eq_of_textBytes_append (hl term List.mem_cons_self).continues
        (hl' term' List.mem_cons_self).continues (stopsBytes_flag _ _) (stopsBytes_flag _ _) h
      obtain ⟨hflag, htails⟩ := List.cons.inj htail
      obtain ⟨rfl, hrests⟩ := ih (fun t ht => hl t (List.mem_cons_of_mem _ ht))
        (fun t ht => hl' t (List.mem_cons_of_mem _ ht)) htails
      have heq : term = term' := by
        cases term
        cases term'
        exact congrArg₂ SortTerm.mk hname (flag_injective hflag)
      exact ⟨by rw [heq], hrests⟩

end Terms

theorem eq_of_flatMap_paths {l l' : List String}
    (h : (l.flatMap fun p => textBytes p ++ [0xFF]) =
      l'.flatMap fun p => textBytes p ++ [0xFF]) : l = l' := by
  induction l generalizing l' with
  | nil =>
    cases l' with
    | nil => rfl
    | cons p' l' => simp at h
  | cons p l ih =>
    cases l' with
    | nil => simp at h
    | cons p' l' =>
      rw [List.flatMap_cons, List.flatMap_cons, List.append_assoc, List.append_assoc] at h
      obtain ⟨rfl, htails⟩ := eq_of_textBytes_append (p := fun _ => true) (fun _ _ => rfl)
        (fun _ _ => rfl) (stopsBytes_ones _ _) (stopsBytes_ones _ _) h
      rw [ih (List.cons.inj htails).2]

theorem Selection.digestBytes_injective : Function.Injective Selection.digestBytes := by
  intro selection selection' h
  cases selection with
  | all =>
    cases selection' with
    | all => rfl
    | fields paths' => exact absurd (List.cons.inj h).1 (by decide)
  | fields paths =>
    cases selection' with
    | all => exact absurd (List.cons.inj h).1 (by decide)
    | fields paths' =>
      have hpaths := (List.append_inj (List.cons.inj h).2 rfl).2
      exact congrArg fields (eq_of_flatMap_paths hpaths)

/-! ## Plans -/

namespace Plan

variable {catalog catalog' : Catalog} {text text' : String} {p q : Plan}

theorem eq_of_digestBytes (hp : p.Named) (hq : q.Named) (h : p.digestBytes = q.digestBytes) :
    p = q := by
  simp only [digestBytes, List.append_assoc] at h
  obtain ⟨hselector, htail⟩ := Selector.eq_of_digestBytes_append hp.selector hq.selector h
  obtain ⟨hsort, hrest⟩ := eq_of_sort_append hp.sort hq.sort (startsFlag_selection _)
    (startsFlag_selection _) (List.append_inj htail rfl).2
  have hselection := Selection.digestBytes_injective hrest
  cases p
  cases q
  simp_all

/-- **Plans of query texts are told by the bytes that their digests are taken of.** So a token that
both accept is one plan's, or the bytes of the two are a collision of the hash. -/
theorem digestBytes_unambiguous (hp : Plan.ofText catalog text = .ok p)
    (hq : Plan.ofText catalog' text' = .ok q) :
    (p.digestBytes = q.digestBytes → p = q) ∧
      ∀ token c c', Cursor.ofTokenFor p.digest token = .ok c →
        Cursor.ofTokenFor q.digest token = .ok c' →
        p = q ∨ p.digestBytes ≠ q.digestBytes ∧
          XXHash.hash p.digestBytes = XXHash.hash q.digestBytes := by
  have htold := eq_of_digestBytes (named_ofText hp) (named_ofText hq)
  refine ⟨htold, fun token c c' hc hc' => ?_⟩
  have hdigest : p.digest = q.digest := by
    obtain ⟨htoken, hdigest⟩ := Cursor.ofTokenFor_eq_ok_iff.mp hc
    obtain ⟨htoken', hdigest'⟩ := Cursor.ofTokenFor_eq_ok_iff.mp hc'
    rw [← hdigest, ← hdigest', Except.ok.inj (htoken.symm.trans htoken')]
  by_cases hbytes : p.digestBytes = q.digestBytes
  · exact .inl (htold hbytes)
  · exact .inr ⟨hbytes, hdigest⟩

/-- Areas whose bytes look alike: the name of the one goes on with what stands behind the other. -/
theorem digestBytes_lookalike :
    let one : Binary64 := ⟨false, 0x3FF0000000000000, by decide⟩
    let two : Binary64 := ⟨false, 0x4000000000000000, by decide⟩
    let three : Binary64 := ⟨false, 0x4008000000000000, by decide⟩
    let plan := fun property => Plan.mk (.within ⟨property, one, two, three⟩) .all []
    let p := plan "a"
    let q := plan "adistance1center2"
    Plan.ofText .everything "a within 1 of 2, 3" = .ok p ∧
    Plan.ofText .everything "adistance1center2 within 1 of 2, 3" = .ok q ∧
    p.digestBytes.take 16 = q.digestBytes.take 16 ∧ p.digestBytes ≠ q.digestBytes := by
  intro one two three plan p q
  have hp : Plan.ofText .everything "a within 1 of 2, 3" = .ok p := by decide +kernel
  have hq : Plan.ofText .everything "adistance1center2 within 1 of 2, 3" = .ok q := by
    decide +kernel
  have hdifferent : p ≠ q := by decide
  exact ⟨hp, hq, by decide +kernel, fun h => hdifferent ((digestBytes_unambiguous hp hq).1 h)⟩

end Plan

end EntityQuery
