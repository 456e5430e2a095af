import ControlPlane.Lib.Floats
import Mathlib.Algebra.Order.Field.Basic
import Mathlib.Tactic.FieldSimp
import Mathlib.Tactic.Positivity

/-! # Weighted scores

Inverse probability weighting in floats. A system is `Precise` if it has the literals that a double has
and rounds a number and its negation alike; then the weight of a probability grows as the probability
falls (`weight_le`), and a score is at most the greatest weight times the greatest reward
(`abs_mul_le`): rounding does not get above the rounded bound. -/

namespace ControlPlane.Lib.Weights

open ControlPlane.Lib.Floats

variable {F : Type}

/-- Python's `max(x, y)`: the second argument only if it is greater. -/
def pyMax (x y : Num) : Num := if x.lt y then y else x

/-- What a double satisfies beyond `FloatSys`. -/
structure Precise (T : FloatSys F) : Prop where
  one : T.lit 1 = .fin 1
  quarter : T.lit (1 / 4) = .fin (1 / 4)
  tiny : ∃ q, T.lit (1 / 10 ^ 12) = .fin q ∧ 0 < q
  below : (T.lit (95 / 100)).lt (.fin 1) = true
  neg : ∀ q, T.lit (-q) = (T.lit q).negate

variable {T : FloatSys F}

/-! ### Literals -/

theorem lit_zero : T.lit 0 = .fin 0 := T.ofRat_zero

theorem lit_nonneg {q : ℚ} (h : 0 ≤ q) : (Num.fin 0).le (T.lit q) = true := by
  rw [← lit_zero (T := T)]
  exact T.lit_mono h

theorem abs_eq_self {x : Num} (h : (Num.fin 0).le x = true) : x.abs = x := by
  cases x with
  | nan => rfl
  | inf neg => cases neg <;> simp_all [Num.le, Num.lt, Num.eq, Num.abs]
  | fin q =>
    rw [Num.le_fin, decide_eq_true_eq] at h
    rw [Num.abs, abs_of_nonneg h]

theorem abs_negate (x : Num) : x.negate.abs = x.abs := by
  cases x <;> simp [Num.negate, Num.abs]

section Literals
variable (hT : Precise T)
include hT

/-- Rounding keeps absolute values. -/
theorem abs_lit (q : ℚ) : (T.lit q).abs = T.lit |q| := by
  by_cases h : 0 ≤ q
  · rw [abs_of_nonneg h, abs_eq_self (lit_nonneg h)]
  · have hq : 0 ≤ -q := by linarith
    rw [abs_of_neg (not_le.mp h), ← abs_eq_self (lit_nonneg hq), hT.neg, abs_negate]

/-- A literal between a trillionth and one is a positive number, at most one. -/
theorem lit_unit {q : ℚ} (h1 : 1 / 10 ^ 12 ≤ q) (h2 : q ≤ 1) :
    ∃ r, T.lit q = .fin r ∧ 0 < r ∧ r ≤ 1 := by
  obtain ⟨t, ht, hpos⟩ := hT.tiny
  have hlow := T.lit_mono h1
  have hup := T.lit_mono h2
  rw [ht] at hlow
  rw [hT.one] at hup
  obtain ⟨r, hr⟩ := Num.fin_of_le hlow hup
  rw [hr, Num.le_fin, decide_eq_true_eq] at hlow hup
  exact ⟨r, hr, hpos.trans_le hlow, hup⟩

/-- The greatest weight: that of a hundredth. -/
theorem weight_hundredth : ∃ q, T.lit (1 / 100) = .fin q ∧ 0 < q ∧
    T.div (T.lit 1) (T.lit (1 / 100)) = T.lit (1 / q) := by
  obtain ⟨q, hq, hpos, -⟩ := lit_unit hT (q := 1 / 100) (by norm_num) (by norm_num)
  exact ⟨q, hq, hpos, by rw [hT.one, hq, FloatSys.div]⟩

end Literals

/-! ### Weights -/

section Weights
variable (hT : Precise T) {p : ℚ} (h1 : (T.lit (1 / 100)).le (.fin p) = true)
include hT h1

theorem pos_of_hundredth : 0 < p := by
  obtain ⟨q, hq, hpos, -⟩ := weight_hundredth hT
  rw [hq, Num.le_fin, decide_eq_true_eq] at h1
  linarith

/-- **The weight of a probability of at least a hundredth is at most that of a hundredth.** -/
theorem weight_le : (Num.fin 0).le (T.div (T.lit 1) (.fin p)) = true ∧
    (T.div (T.lit 1) (.fin p)).le (T.div (T.lit 1) (T.lit (1 / 100))) = true := by
  obtain ⟨q, hq, hpos, hw⟩ := weight_hundredth hT
  have hp := pos_of_hundredth hT h1
  rw [hq, Num.le_fin, decide_eq_true_eq] at h1
  rw [hw, hT.one, FloatSys.div]
  exact ⟨lit_nonneg (by positivity), T.lit_mono (one_div_le_one_div_of_le hpos h1)⟩

/-- What is left beside a probability of at most a quarter is a probability of at least a
hundredth. -/
theorem rest_le (h2 : (Num.fin p).le (T.lit (1 / 4)) = true) :
    ∃ r, T.sub (T.lit 1) (.fin p) = .fin r ∧ (T.lit (1 / 100)).le (.fin r) = true := by
  have hp := pos_of_hundredth hT h1
  rw [hT.quarter, Num.le_fin, decide_eq_true_eq] at h2
  obtain ⟨r, hr, -, -⟩ := lit_unit hT (q := 1 - p) (by linarith) (by linarith)
  refine ⟨r, by rw [hT.one, FloatSys.sub, hr], ?_⟩
  rw [← hr]
  exact T.lit_mono (by linarith)

end Weights

/-! ### Scores -/

theorem mul_fin (p q : ℚ) : T.mul (.fin p) (.fin q) = T.lit (p * q) := rfl

theorem mul_inf {r : ℚ} (h : 0 < r) : T.mul (.inf false) (.fin r) = .inf false := by
  simp [FloatSys.mul, Num.neg?, h.ne', h.le]

theorem mul_nan (y : Num) : T.mul .nan y = .nan := by
  cases y <;> rfl

section Scores
variable (hT : Precise T)
include hT

theorem abs_mul_negate (x : Num) (r : ℚ) : (T.mul x.negate (.fin r)).abs = (T.mul x (.fin r)).abs := by
  cases x with
  | nan => rfl
  | inf neg =>
    by_cases hr : r = 0 <;> simp [Num.negate, FloatSys.mul, Num.neg?, hr, Num.abs]
  | fin q => rw [Num.negate, mul_fin, mul_fin, abs_lit hT, abs_lit hT, neg_mul, abs_neg]

theorem abs_mul_neg (x : Num) (r : ℚ) : (T.mul x (.fin (-r))).abs = (T.mul x (.fin r)).abs := by
  cases x with
  | nan => rfl
  | inf neg =>
    by_cases hr : r = 0 <;> simp [FloatSys.mul, Num.neg?, hr, Num.abs]
  | fin q => rw [mul_fin, mul_fin, abs_lit hT, abs_lit hT, mul_neg, abs_neg]

/-- **A score is at most the greatest weight times the greatest reward**, where that is a number. -/
theorem abs_mul_le {x u : Num} {r m b : ℚ} (h0 : (Num.fin 0).le x = true) (hx : x.le u = true)
    (hr : |r| ≤ m) (hm : 0 < m) (hb : (T.mul u (.fin m)).le (.fin b) = true) :
    (T.mul x (.fin r)).abs.le (.fin b) = true ∧ (T.mul x.negate (.fin r)).abs.le (.fin b) = true := by
  have h : (T.mul x (.fin r)).abs.le (.fin b) = true := by
    cases u with
    | nan => cases x <;> simp [Num.le, Num.lt, Num.eq] at hx
    | inf neg =>
      cases neg
      · rw [mul_inf hm] at hb
        simp [Num.le, Num.lt, Num.eq] at hb
      · have := Num.le_trans h0 hx
        simp [Num.le, Num.lt, Num.eq] at this
    | fin v =>
      obtain ⟨w, rfl⟩ := Num.fin_of_le h0 hx
      rw [Num.le_fin, decide_eq_true_eq] at h0 hx
      rw [mul_fin, abs_lit hT, abs_mul, abs_of_nonneg h0]
      exact Num.le_trans (T.lit_mono (mul_le_mul hx hr (abs_nonneg r) (h0.trans hx))) hb
  exact ⟨h, by rwa [abs_mul_negate hT]⟩

end Scores

/-! ### Maxima -/

theorem le_pyMax_left {x y : Num} (hx : x.le x = true) : x.le (pyMax x y) = true := by
  unfold pyMax
  split_ifs with h
  · exact Num.le_of_lt h
  · exact hx

theorem le_pyMax_right {x : Num} {p q : ℚ} (hx : x = .fin p) : (Num.fin q).le (pyMax x (.fin q)) = true := by
  subst hx
  unfold pyMax
  split_ifs with h
  · simp
  · rw [Num.lt_fin, decide_eq_true_eq, not_lt] at h
    simpa using h

theorem pyMax_fin (p q : ℚ) : pyMax (.fin p) (.fin q) = .fin (max p q) := by
  unfold pyMax
  rw [Num.lt_fin]
  by_cases h : p < q
  · simp [h, max_eq_right h.le]
  · simp [h, max_eq_left (not_lt.mp h)]

end ControlPlane.Lib.Weights
