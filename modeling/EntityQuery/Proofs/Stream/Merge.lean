import EntityQuery.Stream.Scan
import Mathlib.Data.List.Sort

/-! # What merged streams bring

A stream *brings* a list of ids when its pulls give them one after another and then the end,
without a failure. The ids of a merged stream depend on its sides only through the lists that these
bring.

* `SetOp.merged`: the merge of two lists, one case for each comparison of their first ids.
* `Stream.Brings.merge`: a merged stream brings the merge of what its sides bring, whatever has been
  looked at so far. No order of the ids is needed for that.
* `SetOp.mem_merged`, `SetOp.pairwise_merged`: the merge of two lists in strict order is again in
  strict order, and an id is in it as the operation on sets says.
* `Stream.Brings.drain`, `Stream.Brings.take`: what is read off a stream to its end, or up to a
  limit. -/

namespace EntityQuery

/-! ## Lists in strict order -/

section Strict

variable {α : Type} {R : α → α → Prop} {l r : List α}

theorem nodup_of_strict (hR : ∀ a ∈ l, ¬ R a a) (hl : l.Pairwise R) : l.Nodup := by
  refine hl.imp_of_mem fun {a b} ha _ hab => ?_
  rintro rfl
  exact hR a ha hab

theorem eq_of_strict (hR : ∀ a ∈ l, ∀ b ∈ l, R a b → ¬ R b a) (hl : l.Pairwise R)
    (hr : r.Pairwise R) (h : ∀ a, a ∈ l ↔ a ∈ r) : l = r := by
  have hirrefl : ∀ a ∈ l, ¬ R a a := fun a ha haa => hR a ha a ha haa haa
  have hperm : l.Perm r := (List.perm_ext_iff_of_nodup (nodup_of_strict hirrefl hl)
    (nodup_of_strict (fun a ha => hirrefl a ((h a).mpr ha)) hr)).mpr h
  refine hperm.eq_of_pairwise (fun a b ha hb hab hba => ?_) hl hr
  exact absurd hba (hR a ha b ((h b).mpr hb) hab)

end Strict

/-! ## The order of ids in a direction -/

namespace Direction

variable {d : Direction} {a b id : EntityId} {l r : List EntityId}

theorem compareIds_eq_eq : d.compareIds a b = .eq ↔ a = b := by
  cases d <;> simp [compareIds, orient]

theorem compareIds_eq_gt : d.compareIds a b = .gt ↔ d.Before b a := by
  cases d
  · simp only [compareIds, Before, orient]
    exact Std.OrientedCmp.gt_iff_lt
  · simp only [compareIds, Before, orient, Ordering.swap_eq_gt, Ordering.swap_eq_lt]
    exact Std.OrientedCmp.gt_iff_lt.symm

theorem before_of_mem_cons (hab : d.Before a b) (hr : (b :: r).Pairwise d.Before)
    (hid : id ∈ b :: r) : d.Before a id := by
  rcases List.mem_cons.mp hid with rfl | hid
  · exact hab
  · exact hab.trans (List.rel_of_pairwise_cons hr hid)

theorem notMem_of_before (hab : d.Before a b) (hr : (b :: r).Pairwise d.Before) : a ∉ b :: r :=
  fun ha => d.not_before_self a (before_of_mem_cons hab hr ha)

theorem notMem_of_pairwise_cons (hl : (a :: l).Pairwise d.Before) : a ∉ l :=
  fun ha => d.not_before_self a (List.rel_of_pairwise_cons hl ha)

theorem eq_of_mem_iff (hl : l.Pairwise d.Before) (hr : r.Pairwise d.Before)
    (h : ∀ id, id ∈ l ↔ id ∈ r) : l = r :=
  eq_of_strict (fun a _ _ _ hab hba => d.not_before_self a (hab.trans hba)) hl hr h

theorem isAfter_trans {after : Option EntityId} (hb : d.isAfter after b = true)
    (hid : d.isAfter (some b) id = true) : d.isAfter after id = true := by
  cases after with
  | none => rfl
  | some a =>
    rw [← before_iff_isAfter] at *
    exact hb.trans hid

theorem before_of_getLast? (hl : l.Pairwise d.Before) (hlast : l.getLast? = some b) (ha : a ∈ l)
    (hid : d.Before b id) : d.Before a id := by
  obtain ⟨front, rfl⟩ := List.getLast?_eq_some_iff.mp hlast
  rcases List.mem_append.mp ha with ha | ha
  · have hab : d.Before a b := (List.pairwise_append.mp hl).2.2 a ha b (by simp)
    exact hab.trans hid
  · rwa [List.mem_singleton.mp ha]

theorem filter_isAfter_of_getLast? {n : Nat} (hl : l.Pairwise d.Before)
    (hlast : (l.take n).getLast? = some b) : l.filter (d.isAfter (some b)) = l.drop n := by
  obtain ⟨front, hfront⟩ := List.getLast?_eq_some_iff.mp hlast
  have hsplit : l = front ++ b :: l.drop n := by
    conv => lhs; rw [← List.take_append_drop n l, hfront]
    simp
  rw [hsplit] at hl
  conv => lhs; rw [hsplit]
  exact filter_isAfter_append hl

end Direction

/-! ## The merge of two lists -/

namespace SetOp

/-- The merge of two lists: the first ids are compared, and one or both are taken. -/
def merged (op : SetOp) (d : Direction) : List EntityId → List EntityId → List EntityId
  | [], r => if op = union then r else []
  | a :: l, [] => if op = intersection then [] else a :: l
  | a :: l, b :: r =>
    match d.compareIds a b with
    | .lt => if op = intersection then merged op d l (b :: r) else a :: merged op d l (b :: r)
    | .eq => if op = difference then merged op d l r else a :: merged op d l r
    | .gt => if op = union then b :: merged op d (a :: l) r else merged op d (a :: l) r

/-- What an operation on sets says of an id that is or is not on either side. -/
def Keeps : SetOp → Prop → Prop → Prop
  | intersection, p, q => p ∧ q
  | union, p, q => p ∨ q
  | difference, p, q => p ∧ ¬ q

variable {op : SetOp} {d : Direction} {l r : List EntityId} {id : EntityId}

theorem mem_or_mem_of_mem_merged (h : id ∈ op.merged d l r) : id ∈ l ∨ id ∈ r := by
  fun_induction merged op d l r <;> grind

theorem pairwise_merged (hl : l.Pairwise d.Before) (hr : r.Pairwise d.Before) :
    (op.merged d l r).Pairwise d.Before := by
  fun_induction merged op d l r with
  | case1 r => exact hr
  | case2 r => exact List.Pairwise.nil
  | case3 a l => exact List.Pairwise.nil
  | case4 a l => exact hl
  | case5 a l b r hab _ ih => exact ih hl.tail hr
  | case6 a l b r hab _ ih =>
    refine List.pairwise_cons.mpr ⟨fun id hid => ?_, ih hl.tail hr⟩
    rcases mem_or_mem_of_mem_merged hid with hid | hid
    · exact List.rel_of_pairwise_cons hl hid
    · exact Direction.before_of_mem_cons hab hr hid
  | case7 a l b r hab _ ih => exact ih hl.tail hr.tail
  | case8 a l b r hab _ ih =>
    obtain rfl := Direction.compareIds_eq_eq.mp hab
    refine List.pairwise_cons.mpr ⟨fun id hid => ?_, ih hl.tail hr.tail⟩
    rcases mem_or_mem_of_mem_merged hid with hid | hid
    · exact List.rel_of_pairwise_cons hl hid
    · exact List.rel_of_pairwise_cons hr hid
  | case9 a l b r hab _ ih =>
    refine List.pairwise_cons.mpr ⟨fun id hid => ?_, ih hl hr.tail⟩
    rcases mem_or_mem_of_mem_merged hid with hid | hid
    · exact Direction.before_of_mem_cons (Direction.compareIds_eq_gt.mp hab) hl hid
    · exact List.rel_of_pairwise_cons hr hid
  | case10 a l b r hab _ ih => exact ih hl hr.tail

@[simp] theorem keeps_true_true : op.Keeps True True ↔ op ≠ difference := by
  cases op <;> simp [Keeps]

@[simp] theorem keeps_false {q : Prop} : op.Keeps False q ↔ op = union ∧ q := by
  cases op <;> simp [Keeps]

@[simp] theorem keeps_of_false {p : Prop} : op.Keeps p False ↔ op ≠ intersection ∧ p := by
  cases op <;> simp [Keeps]

/-- **The merge is the operation on sets**: an id is in the merge of two lists in strict order as
the operation says. -/
theorem mem_merged (hl : l.Pairwise d.Before) (hr : r.Pairwise d.Before) :
    id ∈ op.merged d l r ↔ op.Keeps (id ∈ l) (id ∈ r) := by
  fun_induction merged op d l r with
  | case1 r hop => simp [hop]
  | case2 r hop => simp [hop]
  | case3 a l hop => simp [hop]
  | case4 a l hop => simp [hop]
  | case5 a l b r hab hop ih =>
    have ha := Direction.notMem_of_before hab hr
    rw [ih hl.tail hr]
    by_cases hid : id = a
    · rw [hid, eq_false ha]
      simp [hop]
    · simp [hid]
  | case6 a l b r hab hop ih =>
    have ha := Direction.notMem_of_before hab hr
    rw [List.mem_cons, ih hl.tail hr]
    by_cases hid : id = a
    · rw [hid, eq_false ha]
      simp [hop]
    · simp [hid]
  | case7 a l b r hab hop ih =>
    obtain rfl := Direction.compareIds_eq_eq.mp hab
    have ha := Direction.notMem_of_pairwise_cons hl
    rw [ih hl.tail hr.tail]
    by_cases hid : id = a
    · rw [hid, eq_false ha]
      simp [hop]
    · simp [hid]
  | case8 a l b r hab hop ih =>
    obtain rfl := Direction.compareIds_eq_eq.mp hab
    rw [List.mem_cons, ih hl.tail hr.tail]
    by_cases hid : id = a
    · simp [hid, hop]
    · simp [hid]
  | case9 a l b r hab hop ih =>
    rw [List.mem_cons, ih hl hr.tail]
    by_cases hid : id = b
    · simp [hid, hop, Keeps]
    · simp [hid]
  | case10 a l b r hab hop ih =>
    have hb := Direction.notMem_of_before (Direction.compareIds_eq_gt.mp hab) hl
    rw [ih hl hr.tail]
    by_cases hid : id = b
    · rw [hid, eq_false hb]
      simp [hop]
    · simp [hid]

/-! ### The move of a merged stream on the first ids of its sides -/

variable {a b : EntityId}

theorem move_of_lt (hab : d.compareIds a b = .lt) : op.move d (some a) (some b) =
    if op = intersection then .skip true false else .bring a true false := by
  cases op <;> simp [move, hab]

theorem move_of_eq (hab : d.compareIds a b = .eq) : op.move d (some a) (some b) =
    if op = difference then .skip true true else .bring a true true := by
  cases op <;> simp [move, hab]

theorem move_of_gt (hab : d.compareIds a b = .gt) : op.move d (some a) (some b) =
    if op = union then .bring b false true else .skip false true := by
  cases op <;> simp [move, hab]

theorem move_none (a : EntityId) : op.move d (some a) none =
    if op = intersection then .finish else .bring a true false := by
  cases op <;> simp [move]

end SetOp

/-! ## What a stream brings -/

namespace Stream

variable {S : Type} [Source S] {d : Direction}

/-- The pulls of a stream give the listed ids one after another, and then the end. -/
inductive Brings (d : Direction) : Stream S → List EntityId → Prop
  | ended {s next : Stream S} (h : s.pull d = (.ok none, next)) : Brings d s []
  | next {s next : Stream S} {id : EntityId} {rest : List EntityId}
    (h : s.pull d = (.ok (some id), next)) (hrest : Brings d next rest) : Brings d s (id :: rest)

/-- A side of a merged stream brings the listed ids, of which the first may have been looked at. -/
def Offers (d : Direction) (s : Stream S) : Head → List EntityId → Prop
  | none, l => Brings d s l
  | some none, l => l = []
  | some (some a), l => ∃ rest, l = a :: rest ∧ Brings d s rest

theorem Brings.of_pull_eq {s t : Stream S} {l : List EntityId} (h : s.pull d = t.pull d)
    (ht : Brings d t l) : Brings d s l := by
  cases ht with
  | ended hend => exact .ended (h.trans hend)
  | next hnext hrest => exact .next (h.trans hnext) hrest

/-- To look at a side shows its first id, or the end, and keeps what it offers. -/
theorem Offers.seen {s : Stream S} {head : Head} {l : List EntityId} (h : Offers d s head l) :
    ∃ t, s.seen d head = (.ok l.head?, t) ∧ Offers d t (some l.head?) l := by
  match head, h with
  | some none, h =>
    obtain rfl : l = [] := h
    exact ⟨s, rfl, rfl⟩
  | some (some a), ⟨rest, hl, hrest⟩ =>
    subst hl
    exact ⟨s, rfl, rest, rfl, hrest⟩
  | none, h =>
    have h : Brings d s l := h
    cases h with
    | ended hend => exact ⟨_, hend, rfl⟩
    | next hnext hrest => exact ⟨_, hnext, _, rfl, hrest⟩

theorem Offers.after_take {s : Stream S} {a : EntityId} {l : List EntityId}
    (h : Offers d s (some (some a)) (a :: l)) : Offers d s (Head.after true (some a)) l := by
  obtain ⟨rest, heq, hrest⟩ := h
  rw [(List.cons.inj heq).2]
  exact hrest

section Merge

variable {op : SetOp} {left right left' right' : Stream S} {leftHead rightHead : Head}
  {l r : List EntityId}

/-! ### A pull of a merged stream, once both sides have been looked at -/

section Move

variable {a b : Option EntityId} (hleft : left.seen d leftHead = (.ok a, left'))
  (hright : right.seen d rightHead = (.ok b, right')) (hend : op.endsWithLeft = true → a ≠ none)
include hleft hright hend

theorem Brings.of_finish (hmove : op.move d a b = .finish) :
    Brings d (.merge op left leftHead right rightHead) [] := by
  have hpull : (Stream.merge op left leftHead right rightHead).pull d =
      (.ok none, .merge op left' (some a) right' (some b)) := by
    rw [pull_merge, hleft]
    simp only [if_neg fun h : op.endsWithLeft = true ∧ a = none => hend h.1 h.2, hright, hmove]
  exact .ended hpull

theorem Brings.of_bring {id : EntityId} {takenLeft takenRight : Bool} {rest : List EntityId}
    (hmove : op.move d a b = .bring id takenLeft takenRight)
    (hrest : Brings d (.merge op left' (Head.after takenLeft a) right' (Head.after takenRight b))
      rest) :
    Brings d (.merge op left leftHead right rightHead) (id :: rest) := by
  refine .next ?_ hrest
  rw [pull_merge, hleft]
  simp only [if_neg fun h : op.endsWithLeft = true ∧ a = none => hend h.1 h.2, hright, hmove]

theorem Brings.of_skip {takenLeft takenRight : Bool} {rest : List EntityId}
    (hmove : op.move d a b = .skip takenLeft takenRight)
    (hrest : Brings d (.merge op left' (Head.after takenLeft a) right' (Head.after takenRight b))
      rest) :
    Brings d (.merge op left leftHead right rightHead) rest := by
  refine .of_pull_eq ?_ hrest
  rw [pull_merge, hleft]
  simp only [if_neg fun h : op.endsWithLeft = true ∧ a = none => hend h.1 h.2, hright, hmove]

end Move

/-! ### Merges -/

theorem Offers.union_of_nil (hl : Offers d left leftHead []) (hr : Offers d right rightHead r) :
    Brings d (.merge .union left leftHead right rightHead) r := by
  induction r generalizing left right leftHead rightHead with
  | nil =>
    obtain ⟨left', hleft, -⟩ := hl.seen
    obtain ⟨right', hright, -⟩ := hr.seen
    exact .of_finish hleft hright (by simp [SetOp.endsWithLeft]) rfl
  | cons b r ih =>
    obtain ⟨left', hleft, hl'⟩ := hl.seen
    obtain ⟨right', hright, hr'⟩ := hr.seen
    exact .of_bring hleft hright (by simp [SetOp.endsWithLeft]) rfl (ih hl' hr'.after_take)

theorem Offers.merge_of_nil (hop : op ≠ .union) (hl : Offers d left leftHead []) :
    Brings d (.merge op left leftHead right rightHead) [] := by
  obtain ⟨left', hleft, -⟩ := hl.seen
  have hend : op.endsWithLeft = true := by cases op <;> simp_all [SetOp.endsWithLeft]
  have hpull : (Stream.merge op left leftHead right rightHead).pull d =
      (.ok none, .merge op left' (some none) right rightHead) := by
    rw [pull_merge, hleft]
    simp [hend]
  exact .ended hpull

theorem Offers.merge_of_nil_right (hop : op ≠ .intersection) (hl : Offers d left leftHead l)
    (hr : Offers d right rightHead []) :
    Brings d (.merge op left leftHead right rightHead) l := by
  induction l generalizing left right leftHead rightHead with
  | nil =>
    by_cases hunion : op = .union
    · rw [hunion]
      exact hl.union_of_nil hr
    · exact hl.merge_of_nil hunion
  | cons a l ih =>
    obtain ⟨left', hleft, hl'⟩ := hl.seen
    obtain ⟨right', hright, hr'⟩ := hr.seen
    have hmove : op.move d (some a) none = .bring a true false := by
      rw [SetOp.move_none, if_neg hop]
    exact .of_bring hleft hright (by simp) hmove (ih hl'.after_take hr')

/-- **A merged stream brings the merge of what its sides offer.** -/
theorem Offers.merge (hl : Offers d left leftHead l) (hr : Offers d right rightHead r) :
    Brings d (.merge op left leftHead right rightHead) (op.merged d l r) := by
  fun_induction SetOp.merged op d l r generalizing left right leftHead rightHead with
  | case1 r hop => rw [hop]; exact hl.union_of_nil hr
  | case2 r hop => exact hl.merge_of_nil hop
  | case3 a l hop =>
    obtain ⟨left', hleft, hl'⟩ := hl.seen
    obtain ⟨right', hright, hr'⟩ := hr.seen
    rw [hop]
    exact .of_finish hleft hright (by simp) rfl
  | case4 a l hop => exact hl.merge_of_nil_right hop hr
  | case5 a l b r hab hop ih =>
    obtain ⟨left', hleft, hl'⟩ := hl.seen
    obtain ⟨right', hright, hr'⟩ := hr.seen
    have hmove : op.move d (some a) (some b) = .skip true false := by
      rw [SetOp.move_of_lt hab, if_pos hop]
    exact .of_skip hleft hright (by simp) hmove (ih hl'.after_take hr')
  | case6 a l b r hab hop ih =>
    obtain ⟨left', hleft, hl'⟩ := hl.seen
    obtain ⟨right', hright, hr'⟩ := hr.seen
    have hmove : op.move d (some a) (some b) = .bring a true false := by
      rw [SetOp.move_of_lt hab, if_neg hop]
    exact .of_bring hleft hright (by simp) hmove (ih hl'.after_take hr')
  | case7 a l b r hab hop ih =>
    obtain ⟨left', hleft, hl'⟩ := hl.seen
    obtain ⟨right', hright, hr'⟩ := hr.seen
    have hmove : op.move d (some a) (some b) = .skip true true := by
      rw [SetOp.move_of_eq hab, if_pos hop]
    exact .of_skip hleft hright (by simp) hmove (ih hl'.after_take hr'.after_take)
  | case8 a l b r hab hop ih =>
    obtain ⟨left', hleft, hl'⟩ := hl.seen
    obtain ⟨right', hright, hr'⟩ := hr.seen
    have hmove : op.move d (some a) (some b) = .bring a true true := by
      rw [SetOp.move_of_eq hab, if_neg hop]
    exact .of_bring hleft hright (by simp) hmove (ih hl'.after_take hr'.after_take)
  | case9 a l b r hab hop ih =>
    obtain ⟨left', hleft, hl'⟩ := hl.seen
    obtain ⟨right', hright, hr'⟩ := hr.seen
    have hmove : op.move d (some a) (some b) = .bring b false true := by
      rw [SetOp.move_of_gt hab, if_pos hop]
    exact .of_bring hleft hright (by simp) hmove (ih hl' hr'.after_take)
  | case10 a l b r hab hop ih =>
    obtain ⟨left', hleft, hl'⟩ := hl.seen
    obtain ⟨right', hright, hr'⟩ := hr.seen
    have hmove : op.move d (some a) (some b) = .skip false true := by
      rw [SetOp.move_of_gt hab, if_neg hop]
    exact .of_skip hleft hright (by simp) hmove (ih hl' hr'.after_take)

theorem Brings.combine (op : SetOp) (hl : Brings d left l) (hr : Brings d right r) :
    Brings d (.combine op left right) (op.merged d l r) :=
  Offers.merge (show Offers d left none l from hl) (show Offers d right none r from hr)

end Merge

/-! ## What is read off a stream -/

variable {s : Stream S} {l : List EntityId}

theorem Brings.drain (h : Brings d s l) : (s.drain d).1 = .ok l := by
  induction h with
  | ended hend =>
    rw [Stream.drain]
    split <;> simp_all
  | next hnext hrest ih =>
    rw [Stream.drain]
    split
    · simp_all
    · simp_all
    · rename_i hpull
      rw [hnext] at hpull
      obtain ⟨rfl, rfl⟩ : _ ∧ _ := by simpa using hpull
      show (Stream.drain d _).1.map _ = _
      rw [ih]
      rfl

theorem Brings.take_of_length_lt {limit : Nat} (h : Brings d s l) (hlimit : l.length < limit) :
    ∃ last, s.take d limit = (l, .ended, last) := by
  induction h generalizing limit with
  | @ended s next hend =>
    obtain ⟨limit, rfl⟩ := Nat.exists_eq_succ_of_ne_zero (Nat.ne_of_gt hlimit)
    exact ⟨next, by simp only [Stream.take, hend]⟩
  | next hnext hrest ih =>
    obtain ⟨limit, rfl⟩ := Nat.exists_eq_succ_of_ne_zero (Nat.ne_of_gt (Nat.zero_lt_of_lt hlimit))
    obtain ⟨last, hlast⟩ := ih (Nat.lt_of_succ_lt_succ hlimit)
    exact ⟨last, by simp only [Stream.take, hnext, hlast]⟩

theorem Brings.take_of_le_length {limit : Nat} (h : Brings d s l) (hlimit : limit ≤ l.length) :
    ∃ last, s.take d limit = (l.take limit, .full, last) ∧ Brings d last (l.drop limit) := by
  induction limit generalizing s l with
  | zero => exact ⟨s, rfl, h⟩
  | succ limit ih =>
    cases h with
    | ended hend => simp at hlimit
    | next hnext hrest =>
      obtain ⟨last, hlast, hbrings⟩ := ih hrest (Nat.le_of_succ_le_succ hlimit)
      exact ⟨last, by simp only [Stream.take, hnext, hlast, List.take_succ_cons], hbrings⟩

end Stream

end EntityQuery
