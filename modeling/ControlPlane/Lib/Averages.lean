import Mathlib.Algebra.BigOperators.Ring.List
import Mathlib.Algebra.Order.BigOperators.Group.List
import Mathlib.Algebra.Order.Field.Basic
import Mathlib.Data.Finset.Max
import Mathlib.Tactic.Linarith
import Mathlib.Tactic.Ring

/-! # Weighted averages

A weighted average of values lies between the least and the greatest of them (`between_average`). Its effective
number of terms, the square of the sum of the weights over the sum of their squares, lies between one and the
number of weights (`one_le_effective`, `effective_le_length`). -/

namespace ControlPlane.Lib.Averages

/-! ### Betweenness -/

section Order
variable {K : Type*} [LinearOrder K]

/-- A number is not below all of some values, and not above all of them. -/
def Between (values : List K) (x : K) : Prop := (∃ y ∈ values, y ≤ x) ∧ ∃ y ∈ values, x ≤ y

theorem exists_least {values : List K} (h : values ≠ []) : ∃ y ∈ values, ∀ z ∈ values, y ≤ z := by
  obtain ⟨y, hy, hleast⟩ := values.toFinset.exists_min_image id ((List.toFinset_nonempty_iff values).mpr h)
  exact ⟨y, List.mem_toFinset.mp hy, fun z hz => hleast z (List.mem_toFinset.mpr hz)⟩

theorem exists_greatest {values : List K} (h : values ≠ []) : ∃ y ∈ values, ∀ z ∈ values, z ≤ y := by
  obtain ⟨y, hy, hgreatest⟩ := values.toFinset.exists_max_image id ((List.toFinset_nonempty_iff values).mpr h)
  exact ⟨y, List.mem_toFinset.mp hy, fun z hz => hgreatest z (List.mem_toFinset.mpr hz)⟩

/-- What lies between values that lie between others lies between those. -/
theorem Between.trans {values others : List K} {x : K} (h : Between values x)
    (hvalues : ∀ y ∈ values, Between others y) : Between others x := by
  obtain ⟨⟨low, hlow, hle⟩, ⟨high, hhigh, hge⟩⟩ := h
  obtain ⟨⟨least, hleast, hbelow⟩, -⟩ := hvalues low hlow
  obtain ⟨-, ⟨greatest, hgreatest, habove⟩⟩ := hvalues high hhigh
  exact ⟨⟨least, hleast, hbelow.trans hle⟩, ⟨greatest, hgreatest, hge.trans habove⟩⟩

theorem Between.mono {values others : List K} {x : K} (h : Between values x) (hsub : values ⊆ others) :
    Between others x :=
  ⟨h.1.imp fun _ hy => ⟨hsub hy.1, hy.2⟩, h.2.imp fun _ hy => ⟨hsub hy.1, hy.2⟩⟩

end Order

/-! ### Averages -/

variable {K : Type*} [Field K] [LinearOrder K] [IsStrictOrderedRing K]

/-- The average of pairs of a weight and a value. -/
def average (terms : List (K × K)) : K := (terms.map fun t => t.1 * t.2).sum / (terms.map Prod.fst).sum

section Bounds
variable {terms : List (K × K)} {a : K}

theorem le_average (hweights : ∀ t ∈ terms, 0 ≤ t.1) (htotal : 0 < (terms.map Prod.fst).sum)
    (h : ∀ t ∈ terms, a ≤ t.2) : a ≤ average terms := by
  unfold average
  rw [le_div_iff₀ htotal, mul_comm, ← List.sum_map_mul_right]
  exact List.sum_le_sum fun t ht => mul_le_mul_of_nonneg_left (h t ht) (hweights t ht)

theorem average_le (hweights : ∀ t ∈ terms, 0 ≤ t.1) (htotal : 0 < (terms.map Prod.fst).sum)
    (h : ∀ t ∈ terms, t.2 ≤ a) : average terms ≤ a := by
  unfold average
  rw [div_le_iff₀ htotal, mul_comm, ← List.sum_map_mul_right]
  exact List.sum_le_sum fun t ht => mul_le_mul_of_nonneg_left (h t ht) (hweights t ht)

end Bounds

/-- **An average lies between its values.** -/
theorem between_average {terms : List (K × K)} (hweights : ∀ t ∈ terms, 0 ≤ t.1)
    (htotal : 0 < (terms.map Prod.fst).sum) : Between (terms.map Prod.snd) (average terms) := by
  have hne : terms.map Prod.snd ≠ [] := by
    intro h
    rw [List.map_eq_nil_iff.mp h] at htotal
    exact lt_irrefl _ htotal
  obtain ⟨least, hleast, hlow⟩ := exists_least hne
  obtain ⟨greatest, hgreatest, hhigh⟩ := exists_greatest hne
  exact ⟨⟨least, hleast, le_average hweights htotal fun t ht => hlow _ (List.mem_map_of_mem ht)⟩,
    ⟨greatest, hgreatest, average_le hweights htotal fun t ht => hhigh _ (List.mem_map_of_mem ht)⟩⟩

/-- **A mean shrunk to another value** lies between the values and that one. -/
theorem between_shrunk {values : List K} (hne : values ≠ []) {w : K} (hw : 0 ≤ w) (prior : K) :
    Between (prior :: values) ((values.sum + w * prior) / (values.length + w)) := by
  let terms := (w, prior) :: values.map fun x => ((1 : K), x)
  have hlen : 0 < values.length := List.length_pos_iff.mpr hne
  have hones : (values.map fun x => ((1 : K), x)).map Prod.fst = List.replicate values.length 1 := by
    rw [List.map_map]
    exact List.map_const' ..
  have hweights : (terms.map Prod.fst).sum = values.length + w := by
    rw [List.map_cons, List.sum_cons, hones, List.sum_replicate, nsmul_eq_mul, mul_one, add_comm]
  have hvalues : terms.map Prod.snd = prior :: values := by
    rw [List.map_cons, List.map_map]
    exact congrArg _ (List.map_id _)
  have hproducts : (terms.map fun t => t.1 * t.2).sum = values.sum + w * prior := by
    rw [List.map_cons, List.sum_cons, List.map_map, add_comm]
    refine congrArg (fun l => List.sum l + _) ((List.map_congr_left fun x _ => ?_).trans (List.map_id _))
    exact one_mul x
  have hpos : (0 : K) < values.length + w := add_pos_of_pos_of_nonneg (Nat.cast_pos.mpr hlen) hw
  have hbetween : Between (terms.map Prod.snd) (average terms) := by
    refine between_average (fun t ht => ?_) (hweights ▸ hpos)
    rcases List.mem_cons.mp ht with rfl | ht
    · exact hw
    · obtain ⟨x, -, rfl⟩ := List.mem_map.mp ht
      exact zero_le_one
  rwa [average, hvalues, hproducts, hweights] at hbetween

/-- **A mean lies between its values.** -/
theorem between_mean {values : List K} (hne : values ≠ []) : Between values (values.sum / values.length) := by
  obtain ⟨x, hx⟩ := List.exists_mem_of_ne_nil values hne
  have hshrunk := between_shrunk hne le_rfl x
  rw [zero_mul, add_zero, add_zero] at hshrunk
  exact hshrunk.mono (List.cons_subset.mpr ⟨hx, List.Subset.refl _⟩)

/-! ### The effective number of terms -/

/-- The effective number of terms of an average with these weights. -/
def effective (weights : List K) : K := weights.sum * weights.sum / (weights.map fun w => w * w).sum

theorem sum_sq_nonneg (weights : List K) : 0 ≤ (weights.map fun w => w * w).sum :=
  List.sum_nonneg fun x hx => by
    obtain ⟨w, -, rfl⟩ := List.mem_map.mp hx
    exact mul_self_nonneg w

/-- The squares of positive weights are at most the square of their sum. -/
theorem sum_sq_le_sq_sum : ∀ {weights : List K}, (∀ w ∈ weights, 0 ≤ w) →
    (weights.map fun w => w * w).sum ≤ weights.sum * weights.sum
  | [], _ => by simp
  | w :: weights, h => by
    have hw := h w (List.mem_cons_self ..)
    have hrest : ∀ v ∈ weights, 0 ≤ v := fun v hv => h v (List.mem_cons_of_mem _ hv)
    have hsum : 0 ≤ weights.sum := List.sum_nonneg hrest
    have ih := sum_sq_le_sq_sum hrest
    rw [List.map_cons, List.sum_cons, List.sum_cons]
    have hcross := mul_nonneg hw hsum
    linarith

/-- Twice the product with a sum is at most the squares. -/
theorem cross_le (w : K) : ∀ weights : List K,
    2 * (w * weights.sum) ≤ (weights.map fun v => v * v).sum + weights.length * (w * w)
  | [] => by simp
  | v :: weights => by
    have ih := cross_le w weights
    rw [List.map_cons, List.sum_cons, List.sum_cons, List.length_cons]
    push_cast
    have hsquare := mul_self_nonneg (v - w)
    linarith

/-- The square of a sum is at most the squares, times the number of terms. -/
theorem sq_sum_le : ∀ weights : List K,
    weights.sum * weights.sum ≤ weights.length * (weights.map fun w => w * w).sum
  | [] => by simp
  | w :: weights => by
    have ih := sq_sum_le weights
    have hcross := cross_le w weights
    rw [List.map_cons, List.sum_cons, List.sum_cons, List.length_cons]
    push_cast
    linarith

section Effective
variable {weights : List K} (hpos : ∀ w ∈ weights, 0 < w) (hne : weights ≠ [])
include hpos hne

theorem sum_sq_pos : 0 < (weights.map fun w => w * w).sum := by
  refine List.sum_pos _ (fun x hx => ?_) fun h => hne (List.map_eq_nil_iff.mp h)
  obtain ⟨w, hw, rfl⟩ := List.mem_map.mp hx
  exact mul_pos (hpos w hw) (hpos w hw)

theorem one_le_effective : 1 ≤ effective weights := by
  unfold effective
  rw [le_div_iff₀ (sum_sq_pos hpos hne), one_mul]
  exact sum_sq_le_sq_sum fun w hw => (hpos w hw).le

theorem effective_le_length : effective weights ≤ weights.length := by
  unfold effective
  rw [div_le_iff₀ (sum_sq_pos hpos hne)]
  exact sq_sum_le weights

end Effective

end ControlPlane.Lib.Averages
