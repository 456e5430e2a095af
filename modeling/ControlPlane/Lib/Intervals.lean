import Mathlib.Algebra.Ring.Int.Defs
import Mathlib.Data.Finset.Card
import Mathlib.Data.List.Sort

/-! # Intervals

Intervals of integers with both ends in them, which may overlap, touch or be repeated. A scan in the order of their
starts merges those that overlap or touch and adds up the lengths of the others. It counts the integers that lie in
at least one interval (`measure_eq`). -/

namespace ControlPlane.Lib.Intervals

/-- A start and an end, which both belong to the interval. -/
abbrev Interval := ℤ × ℤ

/-- The integers from a first one to a last one. -/
def integers (first last : ℤ) : Finset ℤ :=
  (Finset.range (last + 1 - first).toNat).map ⟨fun i : ℕ => first + (i : ℤ), fun _ _ h => Int.ofNat.inj (Int.add_left_cancel h)⟩

theorem mem_integers {first last n : ℤ} : n ∈ integers first last ↔ first ≤ n ∧ n ≤ last := by
  rw [integers, Finset.mem_map]
  constructor
  · rintro ⟨i, hi, rfl⟩
    rw [Finset.mem_range] at hi
    show first ≤ first + i ∧ first + i ≤ last
    omega
  · rintro ⟨hfirst, hlast⟩
    refine ⟨(n - first).toNat, Finset.mem_range.mpr (by omega), ?_⟩
    show first + ((n - first).toNat : ℤ) = n
    omega

/-- The integers in at least one of the intervals. -/
def points : List Interval → Finset ℤ
  | [] => ∅
  | (first, last) :: rest => integers first last ∪ points rest

theorem mem_points {n : ℤ} : ∀ {intervals : List Interval},
    n ∈ points intervals ↔ ∃ i ∈ intervals, i.1 ≤ n ∧ n ≤ i.2
  | [] => by simp [points]
  | (first, last) :: rest => by
    rw [points, Finset.mem_union, mem_integers, mem_points]
    simp

/-- The order of pairs. -/
def Before (i j : Interval) : Prop := i.1 < j.1 ∨ i.1 = j.1 ∧ i.2 ≤ j.2

instance : DecidableRel Before := fun _ _ => inferInstanceAs (Decidable (_ ∨ _))

instance : Std.Total Before := ⟨fun i j => by unfold Before; omega⟩

instance : IsTrans Interval Before := ⟨fun i j k hij hjk => by unfold Before at *; omega⟩

/-- The scan: what is counted so far, and the interval that is being merged. -/
def scan (covered first last : ℤ) : List Interval → ℤ
  | [] => covered + (last - first + 1)
  | (start, stop) :: rest =>
    if start ≤ last + 1 then scan covered first (max last stop) rest
    else scan (covered + (last - first + 1)) start stop rest

def measure (intervals : List Interval) : ℤ :=
  match intervals.insertionSort Before with
  | [] => 0
  | (first, last) :: rest => scan 0 first last rest

/-- The length of an interval, as a number of integers. -/
theorem card_integers {first last : ℤ} (h : first ≤ last) : ((integers first last).card : ℤ) = last - first + 1 := by
  rw [integers, Finset.card_map, Finset.card_range]
  omega

/-- **The scan counts the integers** of the current interval and of those that are still to come. -/
theorem scan_eq : ∀ {rest : List Interval} {covered first last : ℤ}, first ≤ last →
    (∀ i ∈ rest, first ≤ i.1 ∧ i.1 ≤ i.2) → rest.Pairwise (fun i j => i.1 ≤ j.1) →
    scan covered first last rest = covered + (integers first last ∪ points rest).card
  | [], covered, first, last, h, _, _ => by
    rw [scan, points, Finset.union_empty, card_integers h]
  | (start, stop) :: rest, covered, first, last, h, hrest, hsorted => by
    obtain ⟨⟨hstart, hstop⟩, hrest⟩ := List.forall_mem_cons.mp hrest
    obtain ⟨hlater, hsorted⟩ := List.pairwise_cons.mp hsorted
    dsimp only at hstart hstop hlater
    rw [scan, points]
    by_cases htouch : start ≤ last + 1
    · have hmerged : integers first last ∪ integers start stop = integers first (max last stop) := by
        ext n
        rw [Finset.mem_union, mem_integers, mem_integers, mem_integers]
        omega
      have hlonger : first ≤ max last stop := by omega
      rw [if_pos htouch, scan_eq hlonger hrest hsorted, ← Finset.union_assoc, hmerged]
    · have hdisjoint : Disjoint (integers first last) (integers start stop ∪ points rest) := by
        refine Finset.disjoint_left.mpr fun n hn hother => ?_
        rw [mem_integers] at hn
        rw [Finset.mem_union, mem_integers, mem_points] at hother
        rcases hother with hother | ⟨i, hi, hin⟩
        · omega
        · have hi' := hlater i hi
          omega
      rw [if_neg htouch, scan_eq hstop (fun i hi => ⟨hlater i hi, (hrest i hi).2⟩) hsorted,
        Finset.card_union_of_disjoint hdisjoint, Nat.cast_add, card_integers h]
      omega

/-- **The measure of intervals** is the number of integers in at least one of them. -/
theorem measure_eq {intervals : List Interval} (h : ∀ i ∈ intervals, i.1 ≤ i.2) :
    measure intervals = (points intervals).card := by
  have hperm := List.perm_insertionSort Before intervals
  have hsorted := List.pairwise_insertionSort Before intervals
  have hpoints : points (intervals.insertionSort Before) = points intervals := by
    ext n
    rw [mem_points, mem_points]
    exact exists_congr fun i => and_congr_left fun _ => hperm.mem_iff
  have hall : ∀ i ∈ intervals.insertionSort Before, i.1 ≤ i.2 := fun i hi => h i (hperm.mem_iff.mp hi)
  rw [measure, ← hpoints]
  generalize intervals.insertionSort Before = sorted at hsorted hall
  match sorted with
  | [] => rfl
  | (first, last) :: rest =>
    obtain ⟨hfirst, hrest⟩ := List.forall_mem_cons.mp hall
    obtain ⟨hbefore, hsorted⟩ := List.pairwise_cons.mp hsorted
    have hstarts : ∀ {i j : Interval}, Before i j → i.1 ≤ j.1 := by
      intro i j hij
      unfold Before at hij
      omega
    dsimp only
    rw [scan_eq hfirst (fun i hi => ⟨hstarts (hbefore i hi), hrest i hi⟩) (hsorted.imp hstarts), zero_add]
    rfl

end ControlPlane.Lib.Intervals
