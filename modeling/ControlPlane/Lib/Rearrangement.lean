import Mathlib.Algebra.BigOperators.Group.List.Basic
import Mathlib.Algebra.Order.BigOperators.Group.List
import Mathlib.Algebra.Order.Ring.Defs
import Mathlib.Data.List.Sort
import Mathlib.Tactic.Linarith
import Mathlib.Tactic.Ring

/-! # Discounted sums

The gains of a ranking count less the later they stand. A ranking whose first gains are for every number of them at
most those of another one has at most its discounted sum (`discounted_mono`). So no ranking of some elements is above
the list of their gains in decreasing order (`discounted_le_ideal`), which is the sum of a ranking in that order
(`take_of_ordered`), and moving a higher gain forward does not lower the sum (`discounted_swap`). -/

namespace ControlPlane.Lib.Rearrangement

variable {K : Type} [CommRing K] [LinearOrder K] [IsStrictOrderedRing K]

/-- Positive factors that do not increase with the rank. -/
structure Discount (K : Type) [CommRing K] [LinearOrder K] where
  value : ℕ → K
  positive : ∀ rank, 0 < value rank
  antitone : Antitone value

/-- The discounted sum of gains, the first of which has a rank. -/
def discounted (d : Discount K) : ℕ → List K → K
  | _, [] => 0
  | rank, g :: gains => g * d.value rank + discounted d (rank + 1) gains

variable {d : Discount K}

omit [IsStrictOrderedRing K] in
theorem discounted_cons (rank : ℕ) (g : K) (gains : List K) :
    discounted d rank (g :: gains) = g * d.value rank + discounted d (rank + 1) gains := rfl

theorem discounted_nonneg : ∀ {gains : List K} {rank : ℕ}, (∀ g ∈ gains, 0 ≤ g) → 0 ≤ discounted d rank gains
  | [], _, _ => le_rfl
  | g :: gains, rank, h => by
    obtain ⟨hg, hgains⟩ := List.forall_mem_cons.mp h
    exact add_nonneg (mul_nonneg hg (d.positive rank).le) (discounted_nonneg hgains)

theorem discounted_pos {g : K} {gains : List K} {rank : ℕ} (hg : 0 < g) (hgains : ∀ h ∈ gains, 0 ≤ h) :
    0 < discounted d rank (g :: gains) :=
  add_pos_of_pos_of_nonneg (mul_pos hg (d.positive rank)) (discounted_nonneg hgains)

/-- What the second ranking is ahead is worth its discount at least. -/
theorem discounted_le_carry : ∀ {xs ys : List K} {carry : K} {rank : ℕ}, (∀ y ∈ ys, 0 ≤ y) → 0 ≤ carry →
    (∀ n, (xs.take n).sum ≤ carry + (ys.take n).sum) →
    discounted d rank xs ≤ carry * d.value rank + discounted d rank ys
  | [], ys, carry, rank, hys, hcarry, _ => by
    have hrest : 0 ≤ discounted d rank ys := discounted_nonneg hys
    have hworth := mul_nonneg hcarry (d.positive rank).le
    rw [discounted]
    linarith
  | x :: xs, [], carry, rank, _, _, h => by
    have hfirst := h 1
    simp only [List.take_succ_cons, List.take_zero, List.take_nil, List.sum_cons, List.sum_nil] at hfirst
    have hcarry' : 0 ≤ carry - x := by linarith
    have hrest : discounted d (rank + 1) xs ≤ (carry - x) * d.value (rank + 1) + discounted d (rank + 1) [] :=
      discounted_le_carry (by simp) hcarry' fun n => by
        have hn := h (n + 1)
        simp only [List.take_succ_cons, List.take_nil, List.sum_cons, List.sum_nil] at hn ⊢
        linarith
    have hdiscount := mul_le_mul_of_nonneg_left (d.antitone (Nat.le_succ rank)) hcarry'
    have hsplit : (carry - x) * d.value rank = carry * d.value rank - x * d.value rank := by ring
    rw [discounted_cons]
    rw [discounted] at hrest ⊢
    linarith
  | x :: xs, y :: ys, carry, rank, hys, _, h => by
    obtain ⟨hy, hys⟩ := List.forall_mem_cons.mp hys
    have hfirst := h 1
    simp only [List.take_succ_cons, List.take_zero, List.sum_cons, List.sum_nil] at hfirst
    have hcarry' : 0 ≤ carry + y - x := by linarith
    have hrest : discounted d (rank + 1) xs ≤ (carry + y - x) * d.value (rank + 1) + discounted d (rank + 1) ys :=
      discounted_le_carry hys hcarry' fun n => by
        have hn := h (n + 1)
        simp only [List.take_succ_cons, List.sum_cons] at hn
        linarith
    have hdiscount := mul_le_mul_of_nonneg_left (d.antitone (Nat.le_succ rank)) hcarry'
    have hsplit : (carry + y - x) * d.value rank = carry * d.value rank + y * d.value rank - x * d.value rank := by
      ring
    rw [discounted_cons, discounted_cons]
    linarith

/-- **A ranking whose first gains are never ahead** has at most the discounted sum of the other. -/
theorem discounted_mono {xs ys : List K} {rank : ℕ} (hys : ∀ y ∈ ys, 0 ≤ y)
    (h : ∀ n, (xs.take n).sum ≤ (ys.take n).sum) : discounted d rank xs ≤ discounted d rank ys := by
  have hcarry : discounted d rank xs ≤ 0 * d.value rank + discounted d rank ys :=
    discounted_le_carry hys le_rfl fun n => by
      rw [zero_add]
      exact h n
  rwa [zero_mul, zero_add] at hcarry

/-! ### The ideal ranking -/

/-- Some of the gains are at most as many of the greatest. -/
theorem sum_le_take : ∀ {sorted gains : List K} {n : ℕ}, sorted.Pairwise (fun a b => b ≤ a) →
    (∀ s ∈ sorted, 0 ≤ s) → gains.Subperm sorted → gains.length ≤ n → gains.sum ≤ (sorted.take n).sum
  | [], gains, n, _, _, hsub, _ => by
    rw [List.subperm_nil.mp hsub, List.take_nil]
  | s :: sorted, [], n, _, hnonneg, _, _ =>
    List.sum_nonneg fun x hx => hnonneg x (List.mem_of_mem_take hx)
  | s :: sorted, g :: gains, 0, _, _, _, hlength => by
    simp at hlength
  | s :: sorted, g :: gains, n + 1, hsorted, hnonneg, hsub, hlength => by
    obtain ⟨hs, hsorted⟩ := List.pairwise_cons.mp hsorted
    have hrest : ((g :: gains).erase s).Subperm sorted := by
      have herase := hsub.erase s
      rwa [List.erase_cons_head] at herase
    -- take out the greatest gain, or any other if it is not there
    obtain ⟨t, ht, hts, htail⟩ : ∃ t ∈ g :: gains, t ≤ s ∧ ((g :: gains).erase t).Subperm sorted := by
      by_cases hin : s ∈ g :: gains
      · exact ⟨s, hin, le_rfl, hrest⟩
      · rw [List.erase_of_not_mem hin] at hrest
        refine ⟨g, List.mem_cons_self, hs g (hrest.subset List.mem_cons_self), ?_⟩
        exact (List.erase_subperm g _).trans hrest
    have hshorter : ((g :: gains).erase t).length ≤ n := by
      rw [List.length_erase_of_mem ht]
      omega
    have ih := sum_le_take hsorted (fun x hx => hnonneg x (List.mem_cons_of_mem s hx)) htail hshorter
    have hsum := List.sum_erase ht
    rw [List.take_succ_cons, ← hsum, List.sum_cons]
    linarith

section Ideal
variable {α : Type} [DecidableEq α] {gain : α → K} {relevant ranked : List α} {sorted : List K}

omit [LinearOrder K] [IsStrictOrderedRing K] [DecidableEq α] in
theorem sum_map_filter {p : α → Bool} : ∀ {xs : List α}, (∀ x ∈ xs, p x = false → gain x = 0) →
    (xs.map gain).sum = ((xs.filter p).map gain).sum
  | [], _ => rfl
  | x :: xs, h => by
    obtain ⟨hx, hxs⟩ := List.forall_mem_cons.mp h
    rw [List.map_cons, List.sum_cons, sum_map_filter hxs]
    by_cases hp : p x = true
    · rw [List.filter_cons_of_pos hp, List.map_cons, List.sum_cons]
    · rw [List.filter_cons_of_neg hp, hx (by simpa using hp), zero_add]

/-- **No ranking is above the ideal one**, which has the greatest gains in decreasing order. -/
theorem discounted_le_ideal {k rank : ℕ} (hranked : ranked.Nodup) (hk : ranked.length ≤ k)
    (hrelevant : ∀ a ∈ ranked, gain a ≠ 0 → a ∈ relevant) (hsorted : sorted.Pairwise fun a b => b ≤ a)
    (hnonneg : ∀ s ∈ sorted, 0 ≤ s) (hperm : sorted.Perm (relevant.map gain)) :
    discounted d rank (ranked.map gain) ≤ discounted d rank (sorted.take k) := by
  refine discounted_mono (fun y hy => hnonneg y (List.mem_of_mem_take hy)) fun n => ?_
  have hzero : ∀ a ∈ ranked.take n, decide (a ∈ relevant) = false → gain a = 0 := by
    intro a ha hnot
    by_contra hne
    exact of_decide_eq_false hnot (hrelevant a (List.mem_of_mem_take ha) hne)
  have hfound : ((ranked.take n).filter fun a => decide (a ∈ relevant)).Subperm relevant := by
    refine List.subperm_of_subset ((hranked.sublist (List.take_sublist n _)).filter _) fun a ha => ?_
    exact of_decide_eq_true (List.mem_filter.mp ha).2
  have hlength : (((ranked.take n).filter fun a => decide (a ∈ relevant)).map gain).length ≤ min n k := by
    have hfilter := List.length_filter_le (fun a => decide (a ∈ relevant)) (ranked.take n)
    rw [List.length_take] at hfilter
    rw [List.length_map]
    omega
  have hgains : (((ranked.take n).filter fun a => decide (a ∈ relevant)).map gain).Subperm (relevant.map gain) := by
    obtain ⟨found, hfoundperm, hsub⟩ := hfound
    exact ⟨found.map gain, hfoundperm.map gain, hsub.map gain⟩
  rw [← List.map_take, sum_map_filter hzero, List.take_take]
  exact sum_le_take hsorted hnonneg (hgains.trans hperm.symm.subperm) hlength

omit [CommRing K] [IsStrictOrderedRing K] [DecidableEq α] in
/-- A ranking of all relevant elements in decreasing order of their gains has the ideal gains. -/
theorem take_of_ordered {ordered : List α} (k : ℕ) (hordered : ordered.Perm relevant)
    (hgains : ordered.Pairwise fun a b => gain b ≤ gain a) (hsorted : sorted.Pairwise fun a b => b ≤ a)
    (hperm : sorted.Perm (relevant.map gain)) : (ordered.take k).map gain = sorted.take k := by
  have hall : ordered.map gain = sorted := by
    refine List.Perm.eq_of_pairwise (fun a b _ _ hab hba => le_antisymm hba hab) (List.pairwise_map.mpr hgains)
      hsorted ?_
    exact (hordered.map gain).trans hperm.symm
  rw [List.map_take, hall]

omit [DecidableEq α] in
/-- **Moving the higher gain forward** does not lower the sum, wherever the ranking is cut. -/
theorem discounted_swap {pre post : List α} {a b : α} (hnonneg : ∀ x, 0 ≤ gain x) (h : gain a ≤ gain b) (k rank : ℕ) :
    discounted d rank (((pre ++ a :: b :: post).take k).map gain) ≤
      discounted d rank (((pre ++ b :: a :: post).take k).map gain) := by
  have hfirst : ∀ n, (((a :: b :: post).take n).map gain).sum ≤ (((b :: a :: post).take n).map gain).sum := by
    intro n
    match n with
    | 0 => exact le_rfl
    | 1 => simpa using h
    | n + 2 =>
      simp only [List.take_succ_cons, List.map_cons, List.sum_cons]
      linarith
  refine discounted_mono (fun y hy => ?_) fun n => ?_
  · obtain ⟨x, -, rfl⟩ := List.mem_map.mp hy
    exact hnonneg x
  · rw [← List.map_take, ← List.map_take, List.take_take, List.take_take, List.take_append, List.take_append,
      List.map_append, List.map_append, List.sum_append, List.sum_append]
    exact add_le_add_right (hfirst _) _

end Ideal

end ControlPlane.Lib.Rearrangement
