import Mathlib.Data.Nat.Notation
import Mathlib.Logic.Relation
import Mathlib.Order.Basic

/-! Runs of a transition system, with their number of steps. -/
namespace Transition

variable {σ : Type} {step : σ → σ → Prop} {n : ℕ} {s t u : σ}

/-- So many steps lead from one state to another. -/
inductive Run (step : σ → σ → Prop) : ℕ → σ → σ → Prop
  | refl (s : σ) : Run step 0 s s
  | tail {n : ℕ} {s t u : σ} (run : Run step n s t) (last : step t u) : Run step (n + 1) s u

/-- What every step keeps, every run keeps. -/
theorem Run.invariant {P : σ → Prop} (h : Run step n s t)
    (hstep : ∀ s t, step s t → P s → P t) (hs : P s) : P t := by
  induction h with
  | refl => exact hs
  | tail _ hlast ih => exact hstep _ _ hlast (ih hs)

/-- A measure that every step decreases bounds the length of every run. -/
theorem Run.length_le (h : Run step n s t) (measure : σ → ℕ)
    (hstep : ∀ s t, step s t → measure t < measure s) : n + measure t ≤ measure s := by
  induction h with
  | refl => omega
  | tail _ hlast ih =>
    have hless := hstep _ _ hlast
    omega

theorem Run.reflTransGen (h : Run step n s t) : Relation.ReflTransGen step s t := by
  induction h with
  | refl => exact .refl
  | tail _ hlast ih => exact ih.tail hlast

/-- A run can be prolonged by steps that are not counted. -/
theorem Run.extend (h : Run step n s t) (h' : Relation.ReflTransGen step t u) :
    ∃ m, Run step m s u := by
  induction h' with
  | refl => exact ⟨n, h⟩
  | tail _ hlast ih =>
    obtain ⟨m, hrun⟩ := ih
    exact ⟨m + 1, hrun.tail hlast⟩

/-- Where no choice is left, there is one state in which a run can end. -/
theorem end_unique (hdet : Relator.RightUnique step) (ht : Relation.ReflTransGen step s t)
    (hu : Relation.ReflTransGen step s u) (htend : ∀ v, ¬ step t v) (huend : ∀ v, ¬ step u v) :
    t = u := by
  rcases Relation.ReflTransGen.total_of_right_unique hdet ht hu with h | h
  · rcases h.cases_head with rfl | ⟨v, hv, _⟩
    · rfl
    · exact absurd hv (htend v)
  · rcases h.cases_head with rfl | ⟨v, hv, _⟩
    · rfl
    · exact absurd hv (huend v)

end Transition
