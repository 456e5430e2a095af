import Mathlib.Data.List.Sort
import Mathlib.Order.Lattice
import Mathlib.Tactic.Linarith

/-! # Windows

The last elements of a list (`window`), and the elements of greatest keys (`Greatest`): their keys are the last ones
when all the keys are sorted.

The last elements have the greatest keys if and only if no element before them has a greater key than one of them
(`greatest_window_iff`). In a list that is ordered by a name, which elements are the last ones is said by the names
alone: not more than so many names are as great (`mem_window_iff`). A list is in step where the names and the keys
agree about the last elements (`InStep`, `greatest_iff_inStep`). -/

namespace ControlPlane.Lib.Windows

variable {α ι τ : Type*}

/-! ### Last elements -/

/-- The last elements of a list, as many as there are up to a number. -/
def window (n : ℕ) (xs : List α) : List α := xs.drop (xs.length - n)

theorem length_window (n : ℕ) (xs : List α) : (window n xs).length = min n xs.length := by
  rw [window, List.length_drop]
  omega

theorem take_append_window (n : ℕ) (xs : List α) : xs.take (xs.length - n) ++ window n xs = xs :=
  List.take_append_drop _ _

theorem window_map (f : α → ι) (n : ℕ) (xs : List α) : window n (xs.map f) = (window n xs).map f := by
  rw [window, window, List.length_map, List.map_drop]

/-- The last of the last. -/
theorem window_window (m n : ℕ) (xs : List α) : window m (window n xs) = window (min m n) xs := by
  have hlen := length_window n xs
  unfold window at hlen ⊢
  rw [List.drop_drop, hlen]
  congr 1
  omega

theorem window_sublist (n : ℕ) (xs : List α) : (window n xs).Sublist xs := List.drop_sublist _ _

/-! ### Greatest keys -/

section Keys
variable [LinearOrder τ] {key : α → τ} {n : ℕ} {xs chosen : List α}

/-- Some elements of a list, and no elements of it have greater keys. -/
structure Greatest (key : α → τ) (n : ℕ) (xs chosen : List α) : Prop where
  part : chosen.Subperm xs
  keys : (chosen.map key).Perm (window n ((xs.map key).insertionSort (· ≤ ·)))

theorem sort_append {ys zs : List τ} (h : ∀ y ∈ ys, ∀ z ∈ zs, y ≤ z) :
    (ys ++ zs).insertionSort (· ≤ ·) = ys.insertionSort (· ≤ ·) ++ zs.insertionSort (· ≤ ·) := by
  have hperm : ((ys ++ zs).insertionSort (· ≤ ·)).Perm (ys.insertionSort (· ≤ ·) ++ zs.insertionSort (· ≤ ·)) :=
    (List.perm_insertionSort _ _).trans ((List.perm_insertionSort _ _).append (List.perm_insertionSort _ _)).symm
  have hleft : ((ys ++ zs).insertionSort (· ≤ ·)).Pairwise (· ≤ ·) := List.pairwise_insertionSort _ _
  have hright : (ys.insertionSort (· ≤ ·) ++ zs.insertionSort (· ≤ ·)).Pairwise (· ≤ ·) := by
    rw [List.pairwise_append]
    refine ⟨List.pairwise_insertionSort _ _, List.pairwise_insertionSort _ _, fun y hy z hz => ?_⟩
    exact h y ((List.mem_insertionSort _).mp hy) z ((List.mem_insertionSort _).mp hz)
  exact hperm.eq_of_pairwise (fun _ _ _ _ => le_antisymm) hleft hright

/-- **The last elements have the greatest keys** iff no element before them has a greater one. -/
theorem greatest_window_iff : Greatest key n xs (window n xs) ↔
    ∀ a ∈ xs.take (xs.length - n), ∀ b ∈ window n xs, key a ≤ key b := by
  have hsplit := take_append_window n xs
  have hlen : ((xs.map key).insertionSort (· ≤ ·)).length = xs.length := by
    rw [List.length_insertionSort, List.length_map]
  constructor
  · intro h a ha b hb
    -- the keys before the window are the first of the sorted keys
    have hall : ((xs.map key).insertionSort (· ≤ ·)).Perm
        ((xs.take (xs.length - n)).map key ++ (window n xs).map key) := by
      rw [← List.map_append, hsplit]
      exact List.perm_insertionSort _ _
    have hsorted : ((xs.map key).insertionSort (· ≤ ·)).Pairwise (· ≤ ·) := List.pairwise_insertionSort _ _
    rw [← take_append_window n ((xs.map key).insertionSort (· ≤ ·))] at hall hsorted
    have hrest := (List.perm_append_right_iff _).mp ((hall.trans (List.Perm.append_left _ h.keys)))
    have hbefore : key a ∈ ((xs.map key).insertionSort (· ≤ ·)).take (((xs.map key).insertionSort (· ≤ ·)).length - n) :=
      hrest.mem_iff.mpr (List.mem_map_of_mem ha)
    have hin : key b ∈ window n ((xs.map key).insertionSort (· ≤ ·)) := h.keys.mem_iff.mp (List.mem_map_of_mem hb)
    exact (List.pairwise_append.mp hsorted).2.2 _ hbefore _ hin
  · intro h
    refine ⟨(window_sublist n xs).subperm, ?_⟩
    have hkeys : ∀ y ∈ (xs.take (xs.length - n)).map key, ∀ z ∈ (window n xs).map key, y ≤ z := by
      intro y hy z hz
      obtain ⟨a, ha, rfl⟩ := List.mem_map.mp hy
      obtain ⟨b, hb, rfl⟩ := List.mem_map.mp hz
      exact h a ha b hb
    have hsort := sort_append hkeys
    rw [← List.map_append, hsplit] at hsort
    have hcut : window n ((xs.map key).insertionSort (· ≤ ·)) = ((window n xs).map key).insertionSort (· ≤ ·) := by
      rw [window, hlen, hsort]
      refine List.drop_left' ?_
      rw [List.length_insertionSort, List.length_map, List.length_take]
      omega
    rw [hcut]
    exact (List.perm_insertionSort _ _).symm

end Keys

/-! ### Names -/

section Names
variable [LinearOrder ι] {name : α → ι} {n : ℕ} {xs : List α}

/-- How many elements have a name as great. -/
def above (name : α → ι) (xs : List α) (a : α) : ℕ := xs.countP fun b => decide (name a ≤ name b)

theorem above_perm {ys : List α} (h : xs.Perm ys) (a : α) : above name xs a = above name ys a := h.countP_eq _

/-- **The last elements by name**. -/
theorem mem_window_iff (h : xs.Pairwise fun a b => name a < name b) {a : α} (ha : a ∈ xs) :
    a ∈ window n xs ↔ above name xs a ≤ n := by
  have hsplit := take_append_window n xs
  have hpairs := h
  rw [← hsplit, List.pairwise_append] at hpairs
  obtain ⟨-, hlast, hacross⟩ := hpairs
  have hcount : above name xs a = (xs.take (xs.length - n)).countP (fun b => decide (name a ≤ name b)) +
      (window n xs).countP fun b => decide (name a ≤ name b) := by
    rw [← List.countP_append, hsplit]
    rfl
  constructor
  · intro hin
    have hbefore : (xs.take (xs.length - n)).countP (fun b => decide (name a ≤ name b)) = 0 := by
      rw [List.countP_eq_zero]
      intro b hb
      rw [decide_eq_true_eq, not_le]
      exact hacross b hb a hin
    have hlen := length_window n xs
    have hle : (window n xs).countP (fun b => decide (name a ≤ name b)) ≤ (window n xs).length := List.countP_le_length
    omega
  · intro hle
    by_contra hout
    have hbefore : a ∈ xs.take (xs.length - n) := by
      rw [← hsplit, List.mem_append] at ha
      exact ha.resolve_right hout
    have hpos : 0 < (xs.take (xs.length - n)).countP fun b => decide (name a ≤ name b) :=
      List.countP_pos_iff.mpr ⟨a, hbefore, decide_eq_true le_rfl⟩
    have hall : (window n xs).countP (fun b => decide (name a ≤ name b)) = (window n xs).length := by
      rw [List.countP_eq_length]
      intro b hb
      exact decide_eq_true (hacross a hbefore b hb).le
    have hlong : 0 < (xs.take (xs.length - n)).length := List.length_pos_of_mem hbefore
    have hlen := length_window n xs
    rw [List.length_take] at hlong
    omega

/-- The last elements, by their names. -/
theorem filter_window [DecidableEq ι] (h : xs.Pairwise fun a b => name a < name b) :
    (xs.filter fun a => decide (name a ∈ (window n xs).map name)) = window n xs := by
  have hsplit := take_append_window n xs
  have hpairs := h
  rw [← hsplit, List.pairwise_append] at hpairs
  have hbefore : (xs.take (xs.length - n)).filter (fun a => decide (name a ∈ (window n xs).map name)) = [] := by
    rw [List.filter_eq_nil_iff]
    intro a ha hin
    obtain ⟨b, hb, hname⟩ := List.mem_map.mp (of_decide_eq_true hin)
    exact (hpairs.2.2 a ha b hb).ne' hname
  have hlast : (window n xs).filter (fun a => decide (name a ∈ (window n xs).map name)) = window n xs := by
    rw [List.filter_eq_self]
    intro a ha
    exact decide_eq_true (List.mem_map_of_mem ha)
  calc xs.filter (fun a => decide (name a ∈ (window n xs).map name))
      = (xs.take (xs.length - n) ++ window n xs).filter (fun a => decide (name a ∈ (window n xs).map name)) := by
        rw [hsplit]
    _ = window n xs := by rw [List.filter_append, hbefore, hlast, List.nil_append]

/-- No element that is not among the last by name has a greater key than one that is. -/
def InStep [LinearOrder τ] (name : α → ι) (key : α → τ) (n : ℕ) (xs : List α) : Prop :=
  ∀ a ∈ xs, ∀ b ∈ xs, n < above name xs a → above name xs b ≤ n → key a ≤ key b

theorem inStep_perm [LinearOrder τ] {key : α → τ} {ys : List α} (h : xs.Perm ys) :
    InStep name key n xs ↔ InStep name key n ys := by
  have habove : above name xs = above name ys := funext fun a => above_perm h a
  unfold InStep
  rw [habove]
  exact ⟨fun hin a ha b hb => hin a (h.mem_iff.mpr ha) b (h.mem_iff.mpr hb),
    fun hin a ha b hb => hin a (h.mem_iff.mp ha) b (h.mem_iff.mp hb)⟩

/-- **The last elements by name have the greatest keys** iff the names and the keys are in step. -/
theorem greatest_iff_inStep [LinearOrder τ] {key : α → τ} (h : xs.Pairwise fun a b => name a < name b) :
    Greatest key n xs (window n xs) ↔ InStep name key n xs := by
  have hsplit := take_append_window n xs
  have hpairs := h
  rw [← hsplit, List.pairwise_append] at hpairs
  have hwindow : ∀ {a}, a ∈ window n xs → a ∈ xs := fun ha => (window_sublist n xs).subset ha
  have hbefore : ∀ {a}, a ∈ xs → (a ∈ xs.take (xs.length - n) ↔ n < above name xs a) := by
    intro a ha
    rw [← not_le, ← mem_window_iff h ha]
    constructor
    · intro hin hout
      exact lt_irrefl _ (hpairs.2.2 a hin a hout)
    · intro hout
      rw [← hsplit, List.mem_append] at ha
      exact ha.resolve_right hout
  rw [greatest_window_iff]
  constructor
  · intro hle a ha b hb hout hin
    exact hle a ((hbefore ha).mpr hout) b ((mem_window_iff h hb).mpr hin)
  · intro hstep a ha b hb
    have hmem : a ∈ xs := List.mem_of_mem_take ha
    exact hstep a hmem b (hwindow hb) ((hbefore hmem).mp ha) ((mem_window_iff h (hwindow hb)).mp hb)

end Names

end ControlPlane.Lib.Windows
