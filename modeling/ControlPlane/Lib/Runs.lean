import Mathlib.Logic.Relation
import Mathlib.Data.Set.Defs

/-! # Runs

Two ways a system takes step after step. A computation `step : σ → α → Except ε σ` may refuse a
command; `run step s as` carries out the commands in turn. A relation `step : σ → σ → Prop` leaves
open which step is taken; `Reachable init step` are the states after some steps.

For both, what holds at the start and is kept by each step holds after every run. -/

namespace ControlPlane.Lib.Runs

/-! ### Commands -/

section Commands
variable {σ α ε : Type} {step : σ → α → Except ε σ}

/-- The state after some commands, unless one of them is refused. -/
def run (step : σ → α → Except ε σ) (s : σ) : List α → Except ε σ
  | [] => .ok s
  | a :: as => match step s a with
    | .ok t => run step t as
    | .error e => .error e

theorem run_cons {s u : σ} {a : α} {as : List α} :
    run step s (a :: as) = .ok u ↔ ∃ t, step s a = .ok t ∧ run step t as = .ok u := by
  rw [run]
  cases step s a <;> simp

/-- **What each command keeps, every run keeps.** -/
theorem run_induct {P : σ → Prop} (hstep : ∀ s a t, P s → step s a = .ok t → P t) {s t : σ}
    {as : List α} (hs : P s) (h : run step s as = .ok t) : P t := by
  induction as generalizing s with
  | nil =>
    cases h
    exact hs
  | cons a as ih =>
    obtain ⟨u, hu, h⟩ := run_cons.mp h
    exact ih (hstep s a u hs hu) h

theorem run_append {s u : σ} {as bs : List α} :
    run step s (as ++ bs) = .ok u ↔ ∃ t, run step s as = .ok t ∧ run step t bs = .ok u := by
  induction as generalizing s with
  | nil => simp [run]
  | cons a as ih =>
    rw [List.cons_append, run_cons]
    constructor
    · rintro ⟨t, ht, h⟩
      obtain ⟨v, hv, h⟩ := ih.mp h
      exact ⟨v, run_cons.mpr ⟨t, ht, hv⟩, h⟩
    · rintro ⟨v, hv, h⟩
      obtain ⟨t, ht, hv⟩ := run_cons.mp hv
      exact ⟨t, ht, ih.mpr ⟨v, hv, h⟩⟩

/-- Every command of a run meets a condition on it and the state that it finds. -/
def Meets (step : σ → α → Except ε σ) (C : σ → α → Prop) (s : σ) : List α → Prop
  | [] => True
  | a :: as => C s a ∧ ∀ t, step s a = .ok t → Meets step C t as

/-- **What each command keeps that meets a condition, every run keeps whose commands meet it.** -/
theorem run_meets {P : σ → Prop} {C : σ → α → Prop}
    (hstep : ∀ s a t, P s → C s a → step s a = .ok t → P t) {s t : σ} {as : List α} (hs : P s)
    (hm : Meets step C s as) (h : run step s as = .ok t) : P t := by
  induction as generalizing s with
  | nil =>
    cases h
    exact hs
  | cons a as ih =>
    obtain ⟨u, hu, h⟩ := run_cons.mp h
    exact ih (hstep s a u hs hm.1 hu) (hm.2 u hu) h

end Commands

/-! ### Steps -/

section Steps
variable {σ : Type} {init : σ → Prop} {step : σ → σ → Prop}

/-- A state after some steps from a start. -/
def Reachable (init : σ → Prop) (step : σ → σ → Prop) (s : σ) : Prop :=
  ∃ s₀, init s₀ ∧ Relation.ReflTransGen step s₀ s

/-- **What holds at the start and is kept by each step holds in every reachable state.** -/
theorem Reachable.induct {P : σ → Prop} (hinit : ∀ s, init s → P s)
    (hstep : ∀ s t, P s → step s t → P t) {s : σ} (h : Reachable init step s) : P s := by
  obtain ⟨s₀, h₀, hs⟩ := h
  induction hs with
  | refl => exact hinit s₀ h₀
  | tail _ hst ih => exact hstep _ _ ih hst

end Steps

end ControlPlane.Lib.Runs
