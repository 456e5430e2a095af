import Mathlib.Algebra.Order.Floor.Semiring
import Mathlib.Data.List.GetD
import Mathlib.Data.List.Sort
import Mathlib.Tactic.Linarith
import Mathlib.Tactic.Ring

/-! # Order statistics

The elements of a list by rank, and the value between two ranks by linear interpolation, over an ordered field
with a floor.

Interpolation of a monotone sequence is monotone in the position (`interpolate_mono`) and in the sequence
(`interpolate_le_interpolate`). The ranks are monotone in the list: where no element of a list falls, no rank does
(`rank_le_rank`), which is an induction on insertion sort (`forall₂_insertionSort`). -/

namespace ControlPlane.Lib.OrderStatistics

/-! ### Interpolation -/

section Interpolation
variable {K : Type*} [Field K] [LinearOrder K] [IsStrictOrderedRing K] [FloorSemiring K]

/-- The value at a position between two members of a sequence. -/
def interpolate (f : ℕ → K) (t : K) : K := f ⌊t⌋₊ + (f ⌈t⌉₊ - f ⌊t⌋₊) * (t - ⌊t⌋₊)

variable {f g : ℕ → K} {s t : K}

/-- How far a position is from the member before it. -/
theorem fraction_nonneg (ht : 0 ≤ t) : 0 ≤ t - ⌊t⌋₊ := sub_nonneg.mpr (Nat.floor_le ht)

theorem fraction_le_one : t - ⌊t⌋₊ ≤ 1 := by
  have hlt := Nat.lt_floor_add_one t
  linarith

omit [IsStrictOrderedRing K] in
/-- A value is a mean of the two members next to it. -/
theorem interpolate_eq (f : ℕ → K) (t : K) :
    interpolate f t = (1 - (t - ⌊t⌋₊)) * f ⌊t⌋₊ + (t - ⌊t⌋₊) * f ⌈t⌉₊ := by
  unfold interpolate
  ring

theorem floor_le_interpolate (hf : Monotone f) (ht : 0 ≤ t) : f ⌊t⌋₊ ≤ interpolate f t := by
  have hstep : 0 ≤ f ⌈t⌉₊ - f ⌊t⌋₊ := sub_nonneg.mpr (hf (Nat.floor_le_ceil t))
  have hrise := mul_nonneg hstep (fraction_nonneg ht)
  unfold interpolate
  linarith

theorem interpolate_le_ceil (hf : Monotone f) : interpolate f t ≤ f ⌈t⌉₊ := by
  have hstep : 0 ≤ f ⌈t⌉₊ - f ⌊t⌋₊ := sub_nonneg.mpr (hf (Nat.floor_le_ceil t))
  have hrise := mul_le_of_le_one_right hstep (fraction_le_one (t := t))
  unfold interpolate
  linarith

/-- **Interpolation is monotone in the position.** -/
theorem interpolate_mono (hf : Monotone f) (hs : 0 ≤ s) (hst : s ≤ t) : interpolate f s ≤ interpolate f t := by
  have ht := hs.trans hst
  by_cases happart : ⌈s⌉₊ ≤ ⌊t⌋₊
  · exact (interpolate_le_ceil hf).trans ((hf happart).trans (floor_le_interpolate hf ht))
  · -- No member lies between the positions: they share their neighbours.
    have hfloor : ⌊s⌋₊ ≤ ⌊t⌋₊ := Nat.floor_mono hst
    have hceil : ⌈s⌉₊ ≤ ⌈t⌉₊ := Nat.ceil_mono hst
    have hnext : ⌈s⌉₊ ≤ ⌊s⌋₊ + 1 := Nat.ceil_le_floor_add_one s
    have hnext' : ⌈t⌉₊ ≤ ⌊t⌋₊ + 1 := Nat.ceil_le_floor_add_one t
    have hfloors : ⌊t⌋₊ = ⌊s⌋₊ := by omega
    have hceils : ⌈t⌉₊ = ⌈s⌉₊ := by omega
    unfold interpolate
    rw [hfloors, hceils]
    have hstep : 0 ≤ f ⌈s⌉₊ - f ⌊s⌋₊ := sub_nonneg.mpr (hf (Nat.floor_le_ceil s))
    have hrise := mul_le_mul_of_nonneg_left (sub_le_sub_right hst (⌊s⌋₊ : K)) hstep
    linarith

/-- **Interpolation is monotone in the sequence.** -/
theorem interpolate_le_interpolate (h : ∀ i, f i ≤ g i) (ht : 0 ≤ t) : interpolate f t ≤ interpolate g t := by
  rw [interpolate_eq, interpolate_eq]
  have hrest : 0 ≤ 1 - (t - ⌊t⌋₊) := sub_nonneg.mpr fraction_le_one
  exact add_le_add (mul_le_mul_of_nonneg_left (h _) hrest)
    (mul_le_mul_of_nonneg_left (h _) (fraction_nonneg ht))

end Interpolation

/-! ### Ranks -/

variable {K : Type*} [Zero K] [LinearOrder K]

/-- The element of a rank; the ranks after the last one are the last one. -/
def rank (xs : List K) (i : ℕ) : K := (xs.insertionSort (· ≤ ·)).getD (min i (xs.length - 1)) 0

variable {xs ys : List K}

theorem rank_eq (hne : xs ≠ []) (i : ℕ) :
    ∃ h : min i (xs.length - 1) < (xs.insertionSort (· ≤ ·)).length,
      rank xs i = (xs.insertionSort (· ≤ ·))[min i (xs.length - 1)] := by
  have hpos : 0 < xs.length := List.length_pos_iff.mpr hne
  have hlt : min i (xs.length - 1) < (xs.insertionSort (· ≤ ·)).length := by
    rw [List.length_insertionSort]
    omega
  refine ⟨hlt, ?_⟩
  unfold rank
  rw [List.getD_eq_getElem _ _ hlt]

theorem rank_mem (hne : xs ≠ []) (i : ℕ) : rank xs i ∈ xs := by
  obtain ⟨hlt, heq⟩ := rank_eq hne i
  rw [heq]
  exact (List.mem_insertionSort (· ≤ ·)).mp (List.getElem_mem hlt)

theorem rank_mono (xs : List K) : Monotone (rank xs) := by
  intro i j hij
  by_cases hne : xs = []
  · subst hne
    exact le_rfl
  · obtain ⟨hi, hxi⟩ := rank_eq hne i
    obtain ⟨hj, hxj⟩ := rank_eq hne j
    rw [hxi, hxj]
    have hle : min i (xs.length - 1) ≤ min j (xs.length - 1) := by omega
    exact List.sortedLE_insertionSort.getElem_le_getElem_of_le hle

/-- The ranks do not depend on the order of the list. -/
theorem rank_perm (h : xs.Perm ys) : rank xs = rank ys := by
  have hsort : xs.insertionSort (· ≤ ·) = ys.insertionSort (· ≤ ·) :=
    List.Perm.eq_of_pairwise' (List.pairwise_insertionSort _ xs) (List.pairwise_insertionSort _ ys)
      ((List.perm_insertionSort _ xs).trans (h.trans (List.perm_insertionSort _ ys).symm))
  funext i
  unfold rank
  rw [hsort, h.length_eq]

/-! ### Growing lists -/

omit [Zero K] in
theorem orderedInsert_of_le {x : K} {l : List K} (h : ∀ y ∈ l, x ≤ y) :
    l.orderedInsert (· ≤ ·) x = x :: l := by
  cases l with
  | nil => rfl
  | cons y l => exact List.orderedInsert_cons_of_le _ _ (h y (List.mem_cons_self ..))

omit [Zero K] in
/-- One insertion keeps the order of two sorted lists. -/
theorem forall₂_orderedInsert : ∀ {l m : List K} {a b : K}, a ≤ b → List.Forall₂ (· ≤ ·) l m →
    l.Pairwise (· ≤ ·) → m.Pairwise (· ≤ ·) →
    List.Forall₂ (· ≤ ·) (l.orderedInsert (· ≤ ·) a) (m.orderedInsert (· ≤ ·) b)
  | [], [], a, b, hab, _, _, _ => .cons hab .nil
  | x :: l, y :: m, a, b, hab, .cons hxy hlm, hl, hm => by
    have hl' := List.pairwise_cons.mp hl
    have hm' := List.pairwise_cons.mp hm
    by_cases hax : a ≤ x
    · rw [List.orderedInsert_cons_of_le _ _ hax]
      by_cases hby : b ≤ y
      · rw [List.orderedInsert_cons_of_le _ _ hby]
        exact .cons hab (.cons hxy hlm)
      · rw [List.orderedInsert_of_not_le _ _ hby, ← orderedInsert_of_le hl'.1]
        have hxb : x ≤ b := hxy.trans (not_le.mp hby).le
        exact .cons (hax.trans hxy) (forall₂_orderedInsert hxb hlm hl'.2 hm'.2)
    · rw [List.orderedInsert_of_not_le _ _ hax]
      have hxa : x ≤ a := (not_le.mp hax).le
      by_cases hby : b ≤ y
      · rw [List.orderedInsert_cons_of_le _ _ hby, ← orderedInsert_of_le hm'.1]
        exact .cons (hxa.trans hab) (forall₂_orderedInsert (hab.trans hby) hlm hl'.2 hm'.2)
      · rw [List.orderedInsert_of_not_le _ _ hby]
        exact .cons hxy (forall₂_orderedInsert hab hlm hl'.2 hm'.2)

omit [Zero K] in
/-- **Sorting keeps the order of lists.** -/
theorem forall₂_insertionSort : ∀ {xs ys : List K}, List.Forall₂ (· ≤ ·) xs ys →
    List.Forall₂ (· ≤ ·) (xs.insertionSort (· ≤ ·)) (ys.insertionSort (· ≤ ·))
  | [], [], _ => .nil
  | _ :: xs, _ :: ys, .cons hxy h => forall₂_orderedInsert hxy (forall₂_insertionSort h)
      (List.pairwise_insertionSort _ xs) (List.pairwise_insertionSort _ ys)

theorem rank_le_rank (h : List.Forall₂ (· ≤ ·) xs ys) (i : ℕ) : rank xs i ≤ rank ys i := by
  have hsort := forall₂_insertionSort h
  by_cases hne : xs = []
  · subst hne
    cases h
    exact le_rfl
  · have hne' : ys ≠ [] := by
      rintro rfl
      cases h
      exact hne rfl
    obtain ⟨hi, hxi⟩ := rank_eq hne i
    obtain ⟨hj, hyi⟩ := rank_eq hne' i
    have hlen := h.length_eq
    rw [hxi, hyi]
    have hrel := hsort.get hi (hlen ▸ hj)
    simpa only [List.get_eq_getElem, hlen] using hrel

end ControlPlane.Lib.OrderStatistics
