import Mathlib.Data.List.Basic
import Mathlib.Data.List.Pairwise

/-! # Lists freed of repetitions

Of elements that occur more than once, `List.eraseDups` keeps the first occurrence. What it keeps
stays in order, and it makes no difference whether other elements are left out before or after.

* `pairwise_eraseDups`: what is kept has the order of the first occurrences.
* `eraseDups_append_eq`: of a second list, what is new is kept. -/

namespace EntityQuery

variable {α : Type} [BEq α]

/-- Induction on lists as `List.eraseDups` goes through them. -/
theorem eraseDups_induction {motive : List α → Prop} (nil : motive [])
    (cons : ∀ a l, motive (l.filter fun b => !b == a) → motive (a :: l)) (l : List α) :
    motive l := by
  induction hn : l.length using Nat.strongRecOn generalizing l with
  | ind n ih =>
    cases l with
    | nil => exact nil
    | cons a l =>
      have hlength := List.length_filter_le (fun b => !b == a) l
      rw [List.length_cons] at hn
      exact cons a l (ih _ (by omega) _ rfl)

variable [LawfulBEq α]

theorem idxOf_lt_of_filter {p : α → Bool} {l : List α} {a b : α} (hb : p b = true)
    (h : (l.filter p).idxOf a < (l.filter p).idxOf b) : l.idxOf a < l.idxOf b := by
  induction l with
  | nil => simp at h
  | cons c l ih =>
    by_cases hca : c = a
    · have hcb : c ≠ b := by
        rintro rfl
        rw [hca] at h
        omega
      rw [hca, List.idxOf_cons_self, ← hca, List.idxOf_cons_ne l hcb]
      omega
    · by_cases hcb : c = b
      · rw [hcb, List.filter_cons_of_pos hb, List.idxOf_cons_self] at h
        omega
      · rw [List.idxOf_cons_ne l hca, List.idxOf_cons_ne l hcb]
        by_cases hc : p c = true
        · rw [List.filter_cons_of_pos hc, List.idxOf_cons_ne _ hca, List.idxOf_cons_ne _ hcb] at h
          have := ih (by omega)
          omega
        · rw [List.filter_cons_of_neg hc] at h
          have := ih h
          omega

theorem pairwise_eraseDups (l : List α) :
    l.eraseDups.Pairwise fun a b => l.idxOf a < l.idxOf b := by
  induction l using eraseDups_induction with
  | nil => simp
  | cons a l ih =>
    have hne : ∀ b ∈ (l.filter fun b => !b == a).eraseDups, a ≠ b := by
      rintro b hb rfl
      simp at hb
    rw [List.eraseDups_cons, List.pairwise_cons]
    refine ⟨fun b hb => ?_, ih.imp_of_mem fun {b c} hb hc hlt => ?_⟩
    · rw [List.idxOf_cons_self, List.idxOf_cons_ne l (hne b hb)]
      omega
    · have hpass : (!c == a) = true := (List.mem_filter.mp (List.mem_eraseDups.mp hc)).2
      have := idxOf_lt_of_filter (p := fun b => !b == a) hpass hlt
      rw [List.idxOf_cons_ne l (hne b hb), List.idxOf_cons_ne l (hne c hc)]
      omega

theorem nodup_eraseDups (l : List α) : l.eraseDups.Nodup := by
  refine (pairwise_eraseDups l).imp ?_
  rintro a _ hlt rfl
  exact Nat.lt_irrefl _ hlt

theorem eraseDups_filter (p : α → Bool) (l : List α) :
    (l.filter p).eraseDups = l.eraseDups.filter p := by
  induction l using eraseDups_induction with
  | nil => rfl
  | cons a l ih =>
    rw [List.eraseDups_cons]
    by_cases ha : p a = true
    · rw [List.filter_cons_of_pos ha, List.filter_cons_of_pos ha, List.eraseDups_cons, ← ih,
        List.filter_comm]
    · have hsame : (l.filter fun b => !b == a).filter p = l.filter p := by
        rw [List.filter_filter]
        refine List.filter_congr fun b _ => ?_
        by_cases hb : b = a
        · simp [hb, ha]
        · simp [hb]
      rw [List.filter_cons_of_neg ha, List.filter_cons_of_neg ha, ← ih, hsame]

theorem eraseDups_append_eq (l l' : List α) :
    (l ++ l').eraseDups = l.eraseDups ++ l'.eraseDups.filter (· ∉ l.eraseDups) := by
  rw [List.eraseDups_append, List.removeAll, eraseDups_filter]
  simp [List.mem_eraseDups]

end EntityQuery
