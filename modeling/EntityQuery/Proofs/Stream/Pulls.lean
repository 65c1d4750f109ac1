import EntityQuery.Proofs.Stream.Rounds

/-! # How often the leaves of a tree are pulled

A pull of a leaf may cost a page of a scan, so a merged stream pulls its sides only when it has to.
What it has seen of a side it keeps until it is taken. Only ids are taken: an end that has been
seen stays where it is, and the side is never asked again.

* `Watched`: a source together with what its pulls have brought.
* `Stream.Guarded`: no leaf has been pulled after its end, and each that has ended stands under a
  head that shows the end. This is what a pull keeps.
* `SetTree.pulled_within_end`: **no leaf is pulled again once it has reported its end**. -/

namespace EntityQuery

/-- A source together with what its pulls have brought so far, the first of them first. -/
structure Watched (S : Type) where
  source : S
  log : List Outcome := []

namespace Watched

variable {S : Type} [Source S]

/-- Pulls a source and notes what it brings. -/
def pull (s : Watched S) : Outcome × Watched S :=
  ((Source.pull s.source).1, ⟨(Source.pull s.source).2, s.log ++ [(Source.pull s.source).1]⟩)

instance : Source (Watched S) where
  pull := pull
  remaining s := Source.remaining s.source
  remaining_pull s := Source.remaining_pull s.source

theorem pull_source (s : Watched S) :
    Source.pull s.source = ((Source.pull s).1, (Source.pull s).2.source) := rfl

end Watched

/-! ## Leaves that have ended -/

namespace Stream

section Leaves

variable {S : Type}

/-- Under what has been looked at of the stream, no leaf has been pulled again after its end, and
none that has ended will be pulled: the head above it shows the end. -/
def Guarded : Head → Stream (Watched S) → Prop
  | head, source s => .ok none ∉ s.log.dropLast ∧ (.ok none ∈ s.log → head = some none)
  | _, merge _ left leftHead right rightHead => Guarded leftHead left ∧ Guarded rightHead right

variable {s : Stream (Watched S)} {head : Head}

/-- A merged stream guards its leaves itself, whatever has been looked at of it. -/
theorem Guarded.of_size (h : Guarded head s) (hs : 1 < s.size) (head' : Head) :
    Guarded head' s := by
  cases s with
  | source s => exact absurd hs (Nat.lt_irrefl 1)
  | merge op left leftHead right rightHead => exact h

/-- A head that is taken has shown an id, so the leaf under it has not ended. -/
theorem Guarded.of_id {id : EntityId} (h : Guarded (some (some id)) s) : Guarded none s := by
  cases s with
  | source s =>
    refine ⟨h.1, fun hended => ?_⟩
    have hshown := h.2 hended
    simp at hshown
  | merge op left leftHead right rightHead => exact h

theorem Guarded.within_end (h : Guarded head s) :
    ∀ leaf ∈ s.sources, .ok none ∉ leaf.log.dropLast := by
  induction s generalizing head with
  | source s =>
    intro leaf hleaf
    rw [List.mem_singleton.mp hleaf]
    exact h.1
  | merge op left leftHead right rightHead ihl ihr =>
    intro leaf hleaf
    rcases List.mem_append.mp hleaf with hleaf | hleaf
    · exact ihl h.1 leaf hleaf
    · exact ihr h.2 leaf hleaf

end Leaves

variable {S : Type} [Source S] {d : Direction} {s next : Stream (Watched S)} {head head' : Head}

theorem guarded_source {s : Watched S} (h : Guarded none (source s)) :
    Guarded s.pull.1.toOption (source s.pull.2) := by
  have hgoing : .ok none ∉ s.log := fun hended => Option.some_ne_none _ (h.2 hended).symm
  refine ⟨?_, fun hended => ?_⟩
  · change .ok none ∉ (s.log ++ [s.pull.1]).dropLast
    rwa [List.dropLast_concat]
  · rcases List.mem_append.mp hended with hended | hended
    · exact absurd hended hgoing
    · have hnow : .ok none = s.pull.1 := List.mem_singleton.mp hended
      rw [← hnow]
      rfl

theorem Guarded.side (h : Guarded head s)
    (hpull : Guarded none s → Guarded (s.pull d).1.toOption (s.pull d).2)
    (hside : Side d s head next head') : Guarded head' next := by
  have hseen : Guarded (s.seen d head).1.toOption (s.seen d head).2 := by
    cases head with
    | none => exact hpull h
    | some a => exact h
  cases hside with
  | unseen => exact h
  | failed hs =>
    rw [hs] at hseen
    exact hseen
  | kept hs =>
    rw [hs] at hseen
    exact hseen
  | taken hs =>
    rw [hs] at hseen
    exact hseen.of_id

/-- **A pull keeps the leaves guarded**, now by what it has brought. -/
theorem guarded_pull (d : Direction) (s : Stream (Watched S)) :
    Guarded none s → Guarded (s.pull d).1.toOption (s.pull d).2 := by
  induction s using round_induction (S := Watched S) d with
  | source s => exact guarded_source
  | last ihl ihr hleft hright => exact fun h => ⟨h.1.side ihl hleft, h.2.side ihr hright⟩
  | again _ ihl ihr hleft hright ih =>
    exact fun h => ih ⟨h.1.side ihl hleft, h.2.side ihr hright⟩

theorem guarded_after (d : Direction) (hs : 1 < s.size) (h : Guarded none s) (n : Nat) :
    Guarded none (s.after d n) := by
  induction n generalizing s with
  | zero => exact h
  | succ n ih =>
    -- Nothing above the root holds what the pull has brought, and no merged stream needs that.
    have hsize : 1 < (s.pull d).2.size := by rwa [size_pull]
    exact ih hsize ((guarded_pull d s h).of_size hsize none)

end Stream

/-! ## Leaves that list ids -/

/-- A script that lists ids and never fails. -/
def Script.ofIds (ids : List EntityId) : Script := ⟨ids, fun _ => none, 0⟩

namespace Watched

/-- A watched script that lists ids, not pulled yet. -/
def ofIds (ids : List EntityId) : Watched Script := ⟨Script.ofIds ids, []⟩

/-- A watched script that lists ids, after `k` pulls. -/
def pulledTimes (ids : List EntityId) (k : Nat) : Watched Script :=
  ⟨⟨ids.drop k, fun _ => none, k⟩, (List.range k).map fun i => .ok ids[i]?⟩

theorem log_pulledTimes_succ (ids : List EntityId) (k : Nat) :
    (pulledTimes ids (k + 1)).log = (pulledTimes ids k).log ++ [.ok ids[k]?] := by
  simp only [pulledTimes, List.range_succ, List.map_append, List.map_cons, List.map_nil]

theorem pull_pulledTimes (ids : List EntityId) (k : Nat) :
    (pulledTimes ids k).pull.2 = pulledTimes ids (k + 1) := by
  have hpull : Source.pull (pulledTimes ids k).source =
      (.ok ids[k]?, (pulledTimes ids (k + 1)).source) := by
    change Script.pull ⟨ids.drop k, fun _ => none, k⟩ = (.ok ids[k]?, ⟨ids.drop (k + 1), _, k + 1⟩)
    rw [← List.head?_drop, ← List.tail_drop]
    cases ids.drop k with
    | nil => rfl
    | cons id rest => rfl
  rw [pull, hpull, ← log_pulledTimes_succ]

theorem exists_pulledTimes {ids : List EntityId} {s : Watched Script}
    (h : Source.Onward (ofIds ids) s) : ∃ k, s = pulledTimes ids k := by
  induction h with
  | refl => exact ⟨0, rfl⟩
  | tail _ hpull ih =>
    obtain ⟨k, rfl⟩ := ih
    exact ⟨k + 1, hpull.trans (pull_pulledTimes ids k)⟩

theorem le_of_within_end {ids : List EntityId} {k : Nat}
    (h : .ok none ∉ (pulledTimes ids k).log.dropLast) : k ≤ ids.length + 1 := by
  cases k with
  | zero => omega
  | succ k =>
    by_contra hlt
    refine h ?_
    rw [log_pulledTimes_succ, List.dropLast_concat]
    refine List.mem_map.mpr ⟨ids.length, List.mem_range.mpr (by omega), ?_⟩
    rw [List.getElem?_eq_none le_rfl]

end Watched

/-! ## Trees -/

namespace SetTree

variable {L M : Type}

/-- The same tree over other leaves. -/
def map (f : L → M) : SetTree L → SetTree M
  | leaf l => leaf (f l)
  | node op left right => node op (left.map f) (right.map f)

/-- The operations of a tree, the outermost one first. -/
def operations : SetTree L → List SetOp
  | leaf _ => []
  | node op left right => op :: (left.operations ++ right.operations)

theorem leaves_map (f : L → M) (tree : SetTree L) : (tree.map f).leaves = tree.leaves.map f := by
  induction tree with
  | leaf l => rfl
  | node op left right ihl ihr => simp only [map, leaves, ihl, ihr, List.map_append]

theorem operations_map (f : L → M) (tree : SetTree L) :
    (tree.map f).operations = tree.operations := by
  induction tree with
  | leaf l => rfl
  | node op left right ihl ihr => simp only [map, operations, ihl, ihr]

theorem map_stream {N : Type} (f : L → M) (g : M → N) (tree : SetTree L) :
    (tree.map f).stream.map g = (tree.map fun l => g (f l)).stream := by
  induction tree with
  | leaf l => rfl
  | node op left right ihl ihr =>
    simp only [map, stream, Stream.combine, Stream.map, ihl, ihr]

theorem sources_stream (tree : SetTree L) : tree.stream.sources = tree.leaves := by
  induction tree with
  | leaf l => rfl
  | node op left right ihl ihr =>
    simp only [stream, Stream.combine, Stream.sources, leaves, ihl, ihr]

theorem operations_stream (tree : SetTree L) : tree.stream.operations = tree.operations := by
  induction tree with
  | leaf l => rfl
  | node op left right ihl ihr =>
    simp only [stream, Stream.combine, Stream.operations, operations, ihl, ihr]

theorem guarded_stream (tree : SetTree (List EntityId)) :
    Stream.Guarded none (tree.map Watched.ofIds).stream := by
  induction tree with
  | leaf ids => exact ⟨List.not_mem_nil, fun h => absurd h List.not_mem_nil⟩
  | node op left right ihl ihr => exact ⟨ihl, ihr⟩

/-- **No leaf is pulled again once it has reported its end.** When the stream of a tree has been
made, no leaf has been pulled. However often the stream is then pulled, also after its own end, no
leaf has brought anything after its end, so that it has been pulled at most once more than it has
ids; and if the tree is made of unions only, another pull pulls no leaf twice. That the leaves are
watched changes nothing: without the logs it is the stream of the bare lists. A leaf that is no part
of a tree is left out: it is pulled as often as its reader asks. -/
theorem pulled_within_end (d : Direction) (op : SetOp) (left right : SetTree (List EntityId))
    (n : Nat) :
    let tree := node op left right
    let start := (tree.map Watched.ofIds).stream
    let now := start.after d n
    start.sources = tree.leaves.map Watched.ofIds ∧
    now.map Watched.source = (tree.map Script.ofIds).stream.after d n ∧
    List.Forall₂ (fun ids leaf => .ok none ∉ leaf.log.dropLast ∧
      leaf.source.pulls = leaf.log.length ∧ leaf.source.pulls ≤ ids.length + 1)
      tree.leaves now.sources ∧
    ((∀ op ∈ tree.operations, op = .union) →
      List.Forall₂ (fun leaf next => next = leaf ∨ next = leaf.pull.2)
        now.sources (now.pull d).2.sources) := by
  intro tree start now
  have hstart : start.sources = tree.leaves.map Watched.ofIds := by
    rw [sources_stream, leaves_map]
  refine ⟨hstart, ?_, ?_, fun hunions => ?_⟩
  · have hplain : start.map Watched.source = (tree.map Script.ofIds).stream := map_stream _ _ tree
    rw [← hplain]
    exact (Stream.after_map Watched.pull_source start n).symm
  · have hsize : 1 < start.size := Stream.one_lt_size_combine ..
    have hend := (Stream.guarded_after d hsize (guarded_stream tree) n).within_end
    have honward := (Stream.alike_after d start n).sources
    rw [hstart, List.forall₂_map_left_iff] at honward
    obtain ⟨hlength, hpairs⟩ := List.forall₂_iff_zip.mp honward
    refine List.forall₂_iff_zip.mpr ⟨hlength, fun {ids leaf} hpair => ?_⟩
    have hleaf := hend leaf (List.of_mem_zip hpair).2
    -- Nothing but pulls has changed the leaf, so its log is as long as its own count of pulls.
    obtain ⟨k, rfl⟩ := Watched.exists_pulledTimes (hpairs hpair)
    refine ⟨hleaf, ?_, Watched.le_of_within_end hleaf⟩
    simp only [Watched.pulledTimes, List.length_map, List.length_range]
  · refine (Stream.alike_pull_union d now ?_).sources
    rw [(Stream.alike_after d start n).operations, operations_stream, operations_map]
    exact hunions

/-- Unions of lists in no order, one of them empty and one with an id that comes again. -/
theorem pulled_within_end_unions :
    let tree : SetTree (List EntityId) :=
      node .union (node .union (leaf [5, 1, 5]) (leaf [])) (leaf [0, 0xFFFFFFFFFFFFFFFF])
    let now := (tree.map Watched.ofIds).stream.after .descending 9
    (∀ op ∈ tree.operations, op = .union) ∧
    List.Forall₂ (fun ids leaf => .ok none ∉ leaf.log.dropLast ∧
      leaf.source.pulls = leaf.log.length ∧ leaf.source.pulls ≤ ids.length + 1)
      tree.leaves now.sources ∧
    List.Forall₂ (fun leaf next => next = leaf ∨ next = leaf.pull.2)
      now.sources (now.pull .descending).2.sources := by
  intro tree now
  have hunions : ∀ op ∈ tree.operations, op = .union := by decide
  obtain ⟨-, -, hwithin, honce⟩ := pulled_within_end .descending .union
    (node .union (leaf [5, 1, 5]) (leaf [])) (leaf [0, 0xFFFFFFFFFFFFFFFF]) 9
  exact ⟨hunions, hwithin, honce hunions⟩

end SetTree

end EntityQuery
