import Mathlib.Algebra.BigOperators.Field
import Mathlib.Algebra.BigOperators.Ring.Finset
import Mathlib.Algebra.Order.Field.Basic
import Mathlib.Tactic.FieldSimp
import Mathlib.Tactic.Ring

/-! # Off-policy estimators

An arm is drawn from a finite set with known probabilities, and only the reward of the drawn arm is seen. The
reward of a target arm is estimated by weighting what is seen with the inverse probability (`inverse`), or by a
model of the rewards that is corrected with the weighted error of the model (`doublyRobust`).

Both are unbiased if the target has a positive probability, whatever the model (`mean_inverse`,
`mean_doublyRobust`); so the difference of two of them is unbiased for the difference of the rewards
(`mean_sub`). -/

namespace ControlPlane.Lib.OffPolicy

variable {ι K : Type*} [Field K] {arms : Finset ι} {prob model reward : ι → K}

/-- The mean of a quantity of the drawn arm. -/
def mean (arms : Finset ι) (prob value : ι → K) : K := ∑ a ∈ arms, prob a * value a

theorem mean_sub (value value' : ι → K) :
    mean arms prob (fun a => value a - value' a) = mean arms prob value - mean arms prob value' := by
  unfold mean
  rw [← Finset.sum_sub_distrib]
  exact Finset.sum_congr rfl fun a _ => mul_sub ..

theorem mean_add (value value' : ι → K) :
    mean arms prob (fun a => value a + value' a) = mean arms prob value + mean arms prob value' := by
  unfold mean
  rw [← Finset.sum_add_distrib]
  exact Finset.sum_congr rfl fun a _ => mul_add ..

theorem mean_const (htotal : ∑ a ∈ arms, prob a = 1) (c : K) : mean arms prob (fun _ => c) = c := by
  unfold mean
  rw [← Finset.sum_mul, htotal, one_mul]

/-- What an arm of probability zero would give does not matter. -/
theorem mean_congr {value value' : ι → K} (h : ∀ a ∈ arms, prob a ≠ 0 → value a = value' a) :
    mean arms prob value = mean arms prob value' := by
  refine Finset.sum_congr rfl fun a ha => ?_
  by_cases hzero : prob a = 0
  · rw [hzero, zero_mul, zero_mul]
  · rw [h a ha hzero]

variable [DecidableEq ι]

/-- The reward of the drawn arm, weighted, if it is the target. -/
def inverse (prob reward : ι → K) (target drawn : ι) : K :=
  if drawn = target then 1 / prob drawn * reward drawn else 0

/-- The prediction for the target, with the weighted error of the prediction if the target was drawn. -/
def doublyRobust (prob model reward : ι → K) (target drawn : ι) : K :=
  model target + if drawn = target then (reward drawn - model drawn) / prob drawn else 0

/-- The mean of what only the target contributes. -/
theorem mean_ite (prob : ι → K) {target : ι} (htarget : target ∈ arms) (value : ι → K) :
    mean arms prob (fun a => if a = target then value a else 0) = prob target * value target := by
  unfold mean
  rw [Finset.sum_eq_single target]
  · dsimp only
    rw [if_pos rfl]
  · intro a _ hne
    dsimp only
    rw [if_neg hne, mul_zero]
  · exact fun hnot => absurd htarget hnot

/-- **Inverse weighting is unbiased.** -/
theorem mean_inverse {target : ι} (htarget : target ∈ arms) (hprob : prob target ≠ 0) :
    mean arms prob (inverse prob reward target) = reward target := by
  have hite := mean_ite prob htarget fun a => 1 / prob a * reward a
  unfold inverse
  rw [hite]
  field_simp

/-- **The doubly robust estimator is unbiased**, for every model. -/
theorem mean_doublyRobust (htotal : ∑ a ∈ arms, prob a = 1) {target : ι} (htarget : target ∈ arms)
    (hprob : prob target ≠ 0) : mean arms prob (doublyRobust prob model reward target) = reward target := by
  have hite := mean_ite prob htarget fun a => (reward a - model a) / prob a
  unfold doublyRobust
  rw [mean_add, mean_const htotal, hite]
  field_simp
  ring

end ControlPlane.Lib.OffPolicy
