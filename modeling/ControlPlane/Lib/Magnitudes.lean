import ControlPlane.Lib.Rounding
import Mathlib.Tactic.Positivity
import Mathlib.Tactic.GCongr
import Mathlib.Tactic.NormNum
import Mathlib.Tactic.Ring

/-! # Magnitudes

Floats resolve the numbers up to a bound if what lies between its reciprocal and it is rounded to within a
factor of two (`Resolves`), as in every IEEE format away from its limits. A number between `1 / c` and `c`
then has a float between `1 / 2c` and `2c` (`Resolves.lit`), and products, quotients and sums keep to such
intervals (`Sized`). -/

namespace ControlPlane.Lib.Magnitudes

open ControlPlane.Lib.Floats ControlPlane.Lib.Rounding

variable {F : Type} {T : FloatSys F} {a b c d p q : ℚ}

/-- The number lies between `1 / c` and `c`. -/
structure Sized (c q : ℚ) : Prop where
  low : 1 ≤ c * q
  up : q ≤ c
  pos : 0 < q

structure Resolves (T : FloatSys F) (bound : ℚ) : Prop where
  near : ∀ q, Sized bound q → ∃ r, T.lit q = .fin r ∧ q / 2 ≤ r ∧ r ≤ 2 * q

theorem Sized.bound_pos (h : Sized c q) : 0 < c := h.pos.trans_le h.up

theorem Sized.mono (h : Sized c q) (hcd : c ≤ d) : Sized d q := by
  refine ⟨h.low.trans ?_, h.up.trans hcd, h.pos⟩
  exact mul_le_mul_of_nonneg_right hcd h.pos.le

theorem Sized.mul (hp : Sized a p) (hq : Sized b q) : Sized (a * b) (p * q) := by
  have hcalc : a * b * (p * q) = a * p * (b * q) := by ring
  refine ⟨?_, ?_, mul_pos hp.pos hq.pos⟩
  · rw [hcalc]
    exact one_le_mul_of_one_le_of_one_le hp.low hq.low
  · exact mul_le_mul hp.up hq.up hq.pos.le hp.bound_pos.le

theorem Sized.inv (h : Sized c q) : Sized c q⁻¹ := by
  have hpos := h.pos
  refine ⟨?_, ?_, inv_pos.mpr hpos⟩
  · rw [← div_eq_mul_inv, le_div_iff₀ hpos, one_mul]
    exact h.up
  · rw [inv_le_iff_one_le_mul₀ hpos]
    exact h.low

theorem Sized.div (hp : Sized a p) (hq : Sized b q) : Sized (a * b) (p / q) := by
  rw [div_eq_mul_inv]
  exact hp.mul hq.inv

/-- A summand that is not negative only adds to the bound. -/
theorem Sized.add (hp : Sized a p) (h0 : 0 ≤ q) (hq : q ≤ b) : Sized (a + b) (p + q) := by
  have hb : 0 ≤ b := h0.trans hq
  have hpos := hp.pos
  refine ⟨hp.low.trans ?_, add_le_add hp.up hq, by linarith⟩
  have ha := hp.bound_pos
  exact mul_le_mul (by linarith) (by linarith) hpos.le (by linarith)

theorem Sized.of_le (h1 : 1 ≤ q) (h2 : q ≤ c) : Sized c q := by
  refine ⟨?_, h2, by linarith⟩
  nlinarith

theorem sized_nat {n m : ℕ} (h0 : 0 < n) (h : n ≤ m) : Sized (m : ℚ) (n : ℚ) :=
  Sized.of_le (by exact_mod_cast h0) (by exact_mod_cast h)

theorem resolves_exact (hT : Exact T) (bound : ℚ) : Resolves T bound := by
  refine ⟨fun q hq => ⟨q, hT q, ?_, ?_⟩⟩
  · have := hq.pos
    linarith
  · have := hq.pos
    linarith

variable {bound : ℚ} (hres : Resolves T bound)
include hres

theorem Resolves.lit (hq : Sized c q) (hc : c ≤ bound) : ∃ r, T.lit q = .fin r ∧ Sized (2 * c) r := by
  obtain ⟨r, hr, hlow, hup⟩ := hres.near q (hq.mono hc)
  have hqpos := hq.pos
  have hbound := hq.bound_pos
  refine ⟨r, hr, ?_, ?_, by linarith⟩
  · have hhalf : 1 ≤ 2 * c * (q / 2) := by
      have hcalc : 2 * c * (q / 2) = c * q := by ring
      rw [hcalc]
      exact hq.low
    exact hhalf.trans (mul_le_mul_of_nonneg_left hlow (by linarith))
  · have := hq.up
    linarith

theorem Resolves.mul (hp : Sized a p) (hq : Sized b q) (h : a * b ≤ bound) :
    ∃ r, T.mul (.fin p) (.fin q) = .fin r ∧ Sized (2 * (a * b)) r :=
  hres.lit (hp.mul hq) h

theorem Resolves.div (hp : Sized a p) (hq : Sized b q) (h : a * b ≤ bound) :
    ∃ r, T.div (.fin p) (.fin q) = .fin r ∧ Sized (2 * (a * b)) r :=
  hres.lit (hp.div hq) h

theorem Resolves.add (hp : Sized a p) (h0 : 0 ≤ q) (hq : q ≤ b) (h : a + b ≤ bound) :
    ∃ r, T.add (.fin p) (.fin q) = .fin r ∧ Sized (2 * (a + b)) r :=
  hres.lit (hp.add h0 hq) h

/-- A number above a resolved one has a positive product with another. -/
theorem Resolves.mul_pos (hp : Sized a p) (hq : Sized b q) (h : a * b ≤ bound) {x : Num}
    (hx : (Num.fin p).le x = true) : (Num.fin 0).lt (T.mul x (.fin q)) = true := by
  cases x with
  | nan => cases hx
  | inf neg =>
    have hsign : neg = false := by
      cases neg with
      | false => rfl
      | true => cases hx
    have hq0 := hq.pos.ne'
    have hlt := hq.pos.le
    rw [hsign]
    simp [FloatSys.mul, Num.neg?, hq0, Num.lt, hlt]
  | fin v =>
    rw [Num.le_fin, decide_eq_true_eq] at hx
    obtain ⟨r, hr, hsized⟩ := hres.mul hp hq h
    have hmono : (T.mul (.fin p) (.fin q)).le (T.mul (.fin v) (.fin q)) = true :=
      T.lit_mono (mul_le_mul_of_nonneg_right hx hq.pos.le)
    have hlt : (Num.fin 0).lt (.fin r) = true := by
      rw [Num.lt_fin, decide_eq_true_eq]
      exact hsized.pos
    have hn : NonNeg (T.mul (.fin v) (.fin q)) :=
      nonNeg_lit (mul_nonneg (hp.pos.le.trans hx) hq.pos.le)
    rw [hr] at hmono
    have hnr : NonNeg (.fin r) := nonNeg_fin hsized.pos.le
    rw [top_lt_iff (nonNeg_fin le_rfl) hn]
    exact ((top_lt_iff (nonNeg_fin le_rfl) hnr).mp hlt).trans_le ((top_le_iff hnr hn).mp hmono)

end ControlPlane.Lib.Magnitudes
