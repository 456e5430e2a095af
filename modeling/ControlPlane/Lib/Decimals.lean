import ControlPlane.Lib.Rounding
import Mathlib.Algebra.Order.Floor.Ring
import Mathlib.Algebra.Order.BigOperators.Group.List
import Mathlib.Data.Rat.Floor
import Mathlib.Tactic.FieldSimp
import Mathlib.Tactic.Ring

/-! # Rounding to decimals

A float system is `Close` if it is stable and rounds the rationals between zero and two with the error that
doubles have. Then `round(x, n)` moves a float up to three halves by at most half a unit of its last decimal
and one rounding (`round_near`), and a sum of `k` such numbers by `k` times that (`abs_sum_sub_le`). -/

namespace ControlPlane.Lib.Decimals

open ControlPlane.Lib.Floats ControlPlane.Lib.Rounding

variable {F : Type} {T : FloatSys F}

structure Close (T : FloatSys F) : Prop extends Stable T where
  near : ∀ q, 0 ≤ q → q ≤ 2 → ∃ r, T.lit q = .fin r ∧ |r - q| ≤ 1 / 2 ^ 53

theorem exact_close (hT : Exact T) : Close T where
  toStable := hT.stable
  near q _ _ := by
    refine ⟨q, hT q, ?_⟩
    rw [sub_self, abs_zero]
    positivity

/-- The error of rounding to `n` decimals and to a float. -/
def decimalError (n : ℕ) : ℚ := 1 / 2 / 10 ^ n + 1 / 2 ^ 53

theorem abs_roundHalfEven_sub_le (q : ℚ) (n : ℕ) : |roundHalfEven q n - q| ≤ 1 / 2 / 10 ^ n := by
  have hpow : (0 : ℚ) < 10 ^ n := by positivity
  have hlow : ((q * 10 ^ n).floor : ℚ) ≤ q * 10 ^ n := Int.floor_le _
  have hup : q * 10 ^ n < (q * 10 ^ n).floor + 1 := Int.lt_floor_add_one _
  unfold roundHalfEven
  dsimp only
  rw [div_sub' hpow.ne', abs_div, abs_of_pos hpow, div_le_div_iff_of_pos_right hpow, abs_le]
  split_ifs with h1 h2 h3 <;> push_cast <;> constructor <;> linarith

theorem roundHalfEven_nonneg {q : ℚ} (h : 0 ≤ q) (n : ℕ) : 0 ≤ roundHalfEven q n := by
  have hfloor : (0 : ℤ) ≤ ⌊q * 10 ^ n⌋ := Int.floor_nonneg.mpr (by positivity)
  change 0 ≤ (q * 10 ^ n).floor at hfloor
  unfold roundHalfEven
  dsimp only
  refine div_nonneg ?_ (by positivity)
  generalize (q * 10 ^ n).floor = z at hfloor ⊢
  refine Int.cast_nonneg ?_
  split_ifs <;> omega

theorem roundHalfEven_one (n : ℕ) : roundHalfEven 1 n = 1 := by
  have hfloor : ((1 : ℚ) * 10 ^ n).floor = 10 ^ n := by
    rw [one_mul]
    exact_mod_cast Int.floor_intCast (R := ℚ) (10 ^ n)
  unfold roundHalfEven
  dsimp only
  rw [hfloor]
  have hrest : (1 : ℚ) * 10 ^ n - ((10 ^ n : ℤ) : ℚ) < 1 / 2 := by
    push_cast
    norm_num
  rw [if_pos hrest]
  push_cast
  exact div_self (by positivity)

/-- **Rounding to decimals is monotone.** -/
theorem roundHalfEven_mono {p q : ℚ} (h : p ≤ q) (n : ℕ) : roundHalfEven p n ≤ roundHalfEven q n := by
  have hscaled : p * 10 ^ n ≤ q * 10 ^ n := mul_le_mul_of_nonneg_right h (by positivity)
  have hfloor : (p * 10 ^ n).floor ≤ (q * 10 ^ n).floor := Int.floor_mono hscaled
  unfold roundHalfEven
  dsimp only
  refine div_le_div_of_nonneg_right (Int.cast_le.mpr ?_) (by positivity)
  by_cases hlt : (p * 10 ^ n).floor < (q * 10 ^ n).floor
  · have hup : (p * 10 ^ n).floor + 1 ≤ (q * 10 ^ n).floor := hlt
    split_ifs <;> omega
  · -- Both lie in one unit of the last decimal.
    have heq : (q * 10 ^ n).floor = (p * 10 ^ n).floor := le_antisymm (not_lt.mp hlt) hfloor
    rw [heq]
    have hrest : p * 10 ^ n - (p * 10 ^ n).floor ≤ q * 10 ^ n - (p * 10 ^ n).floor := sub_le_sub_right hscaled _
    split_ifs <;> first | omega | (exfalso; linarith)

/-- `round(x, n)` of a number. -/
def roundTo (T : FloatSys F) (n : ℕ) : Num → Num
  | .fin q => T.lit (roundHalfEven q n)
  | x => x

theorem roundTo_mono {p q : ℚ} (h : p ≤ q) (n : ℕ) : (roundTo T n (.fin p)).le (roundTo T n (.fin q)) = true :=
  T.lit_mono (roundHalfEven_mono h n)

theorem view_round {x : F} {q : ℚ} (hx : T.view x = .fin q) (n : ℕ) :
    T.view (T.round x n) = T.lit (roundHalfEven q n) := by
  unfold FloatSys.round
  rw [hx]
  rfl

/-- **Rounding to decimals moves a number only little.** -/
theorem round_near (hT : Close T) {x : F} {q : ℚ} (hx : T.view x = .fin q) (h0 : 0 ≤ q) (h1 : q ≤ 3 / 2) (n : ℕ) :
    ∃ r, T.view (T.round x n) = .fin r ∧ 0 ≤ r ∧ |r - q| ≤ decimalError n := by
  have hhalf := abs_roundHalfEven_sub_le q n
  have hnonneg := roundHalfEven_nonneg h0 n
  have hpow : (1 : ℚ) / 2 / 10 ^ n ≤ 1 / 2 := div_le_self (by norm_num) (one_le_pow₀ (by norm_num))
  have hle : roundHalfEven q n ≤ 2 := by
    have hsub := (abs_le.mp hhalf).2
    linarith
  obtain ⟨r, hr, herror⟩ := hT.near _ hnonneg hle
  have hlit : NonNeg (T.lit (roundHalfEven q n)) := nonNeg_lit hnonneg
  refine ⟨r, (view_round hx n).trans hr, ?_, ?_⟩
  · rw [hr] at hlit
    simpa [NonNeg] using hlit
  · have htriangle := abs_sub_le r (roundHalfEven q n) q
    unfold decimalError
    linarith

/-- **The sums of near numbers are near.** -/
theorem abs_sum_sub_le {α : Type} {f g : α → ℚ} {δ : ℚ} :
    ∀ {xs : List α}, (∀ x ∈ xs, |f x - g x| ≤ δ) → |(xs.map f).sum - (xs.map g).sum| ≤ xs.length * δ
  | [], _ => by simp
  | x :: xs, h => by
    have hx := h x (List.mem_cons_self ..)
    have hxs := abs_sum_sub_le fun y hy => h y (List.mem_cons_of_mem _ hy)
    rw [List.map_cons, List.map_cons, List.sum_cons, List.sum_cons, List.length_cons]
    have hsplit : f x + (xs.map f).sum - (g x + (xs.map g).sum) =
        (f x - g x) + ((xs.map f).sum - (xs.map g).sum) := by ring
    rw [hsplit]
    push_cast
    have htriangle := abs_add_le (f x - g x) ((xs.map f).sum - (xs.map g).sum)
    linarith

end ControlPlane.Lib.Decimals
