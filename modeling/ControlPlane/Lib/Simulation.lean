import ControlPlane.Lib.Runs

/-! # Simulation along a run

A system takes steps with labels; an observer sees some commands of a smaller system in each of them.
`trace` are the commands seen along a run. If one step of the first system is the commands seen in it,
so is a run (`run_trace`), also where this holds only of steps that meet a condition, in states that
satisfy an invariant. -/

namespace ControlPlane.Lib.Simulation

open ControlPlane.Lib.Runs

variable {σ α ε τ β δ : Type} {step : σ → α → Except ε σ} {small : τ → β → Except δ τ}
  {sees : σ → α → List β} {view : σ → τ}

/-- The commands seen along a run. -/
def trace (step : σ → α → Except ε σ) (sees : σ → α → List β) (s : σ) : List α → List β
  | [] => []
  | a :: as => match step s a with
    | .ok t => sees s a ++ trace step sees t as
    | .error _ => []

theorem trace_cons {s t : σ} {a : α} (h : step s a = .ok t) (as : List α) :
    trace step sees s (a :: as) = sees s a ++ trace step sees t as := by
  rw [trace, h]

/-- A run that meets a condition, with one more step at the start. -/
theorem meets_cons {C : σ → α → Prop} {Q : σ → Prop} {s t : σ} {a : α} {as : List α} (hC : C s a)
    (h : step s a = .ok t) (hrest : ∃ u, (Meets step C t as ∧ run step t as = .ok u) ∧ Q u) :
    ∃ u, (Meets step C s (a :: as) ∧ run step s (a :: as) = .ok u) ∧ Q u := by
  obtain ⟨u, ⟨hm, hu⟩, hQ⟩ := hrest
  refine ⟨u, ⟨⟨hC, fun v hv => ?_⟩, run_cons.mpr ⟨t, h, hu⟩⟩, hQ⟩
  have hsame : t = v := Except.ok.inj (h.symm.trans hv)
  exact hsame ▸ hm

/-- **What is seen in each step is seen along a run.** -/
theorem run_trace {P : σ → Prop} {C : σ → α → Prop}
    (hkeep : ∀ s a t, P s → C s a → step s a = .ok t → P t)
    (hsim : ∀ s a t, P s → C s a → step s a = .ok t → run small (view s) (sees s a) = .ok (view t))
    {s t : σ} {as : List α} (hs : P s) (hm : Meets step C s as) (h : run step s as = .ok t) :
    run small (view s) (trace step sees s as) = .ok (view t) := by
  induction as generalizing s with
  | nil =>
    cases h
    rfl
  | cons a as ih =>
    obtain ⟨u, hu, hrest⟩ := run_cons.mp h
    rw [trace_cons hu, run_append]
    have hP := hkeep s a u hs hm.1 hu
    exact ⟨view u, hsim s a u hs hm.1 hu, ih hP (hm.2 u hu) hrest⟩

end ControlPlane.Lib.Simulation
