import EntityQuery.Error
import Mathlib.Data.List.Forall2

/-! # Steps that may fail

Chains of steps of which each gives a value or an error, taken apart: a chain succeeds when all of
its steps do. -/

namespace EntityQuery

variable {ε ε' α β : Type} {x : Except ε α}

theorem bind_eq_ok_iff {f : α → Except ε β} {b : β} :
    x >>= f = .ok b ↔ ∃ a, x = .ok a ∧ f a = .ok b := by
  cases x with
  | error e => simp [bind, Except.bind]
  | ok a => simp [bind, Except.bind]

theorem bind_eq_error_iff {f : α → Except ε β} {e : ε} :
    x >>= f = .error e ↔ x = .error e ∨ ∃ a, x = .ok a ∧ f a = .error e := by
  cases x with
  | error e' => simp [bind, Except.bind]
  | ok a => simp [bind, Except.bind]

section Pure

variable {γ : Type} {y : Except ε β} {e : ε}

theorem exists_bind_pure_iff {f : α → β} :
    (∃ b, (do return f (← x)) = Except.ok b) ↔ ∃ a, x = .ok a := by
  cases x <;> simp [bind, Except.bind, pure, Except.pure]

theorem bind_pure_eq_error_iff {f : α → β} :
    (do return f (← x)) = Except.error e ↔ x = .error e := by
  cases x <;> simp [bind, Except.bind, pure, Except.pure]

theorem exists_bind_bind_pure_iff {f : α → β → γ} :
    (∃ c, (do let a ← x; let b ← y; return f a b) = Except.ok c) ↔
      (∃ a, x = .ok a) ∧ ∃ b, y = .ok b := by
  cases x <;> cases y <;> simp [bind, Except.bind, pure, Except.pure]

theorem bind_bind_pure_eq_error_iff {f : α → β → γ} :
    (do let a ← x; let b ← y; return f a b) = Except.error e ↔
      x = .error e ∨ (∃ a, x = .ok a) ∧ y = .error e := by
  cases x <;> cases y <;> simp [bind, Except.bind, pure, Except.pure]

end Pure

theorem mapError_eq_ok_iff {f : ε → ε'} {a : α} : x.mapError f = .ok a ↔ x = .ok a := by
  cases x <;> simp [Except.mapError]

theorem exists_mapM_eq_ok {f : α → Except ε β} {R : α → β → Prop} {l : List α}
    (h : ∀ a ∈ l, ∃ b, f a = .ok b ∧ R a b) : ∃ bs, l.mapM f = .ok bs ∧ List.Forall₂ R l bs := by
  induction l with
  | nil => exact ⟨[], rfl, .nil⟩
  | cons a l ih =>
    obtain ⟨b, hb, hR⟩ := h a (by simp)
    obtain ⟨bs, hbs, hRs⟩ := ih fun a ha => h a (by simp [ha])
    exact ⟨b :: bs, by simp [List.mapM_cons, hb, hbs, bind, Except.bind, pure, Except.pure],
      .cons hR hRs⟩

end EntityQuery
