import Mathlib.Data.List.MinMax
import Mathlib.Order.Basic

/-! # Thresholds

What a threshold accepts among some scores depends only on the first score that it accepts. So a threshold, also of
a finer order, can be replaced by a score or by an upper bound of the thresholds (`exists_score`).

`minBy` is the first element that no other one is below, in an order that is computed from a key
(`minBy_spec`). -/

namespace ControlPlane.Lib.Thresholds

/-! ### Scores at a threshold -/

section Scores
variable {α β : Type} [LinearOrder α] [LinearOrder β] {emb : α → β}

/-- **A threshold accepts the same scores as one of them**, or as a number `top` that is not below it. -/
theorem exists_score (hemb : ∀ a b, emb a ≤ emb b ↔ a ≤ b) {t : β} {top : α} (htop : t ≤ emb top) :
    ∀ scores : List α, ∃ r ∈ top :: scores, r ≤ top ∧ t ≤ emb r ∧ ∀ s ∈ scores, t ≤ emb s ↔ r ≤ s
  | [] => ⟨top, List.mem_cons_self, le_rfl, htop, fun s hs => absurd hs List.not_mem_nil⟩
  | s :: scores => by
    obtain ⟨r, hr, hrtop, htr, hall⟩ := exists_score hemb htop scores
    have hr' : r ∈ top :: s :: scores := by
      rcases List.mem_cons.mp hr with rfl | hr
      · exact List.mem_cons_self
      · exact List.mem_cons_of_mem _ (List.mem_cons_of_mem _ hr)
    have hup : ∀ {a x : α}, t ≤ emb a → a ≤ x → t ≤ emb x := fun ha hax => ha.trans ((hemb _ _).mpr hax)
    by_cases hs : t ≤ emb s ∧ s < r
    · obtain ⟨hts, hsr⟩ := hs
      refine ⟨s, List.mem_cons_of_mem _ List.mem_cons_self, hsr.le.trans hrtop, hts, fun x hx => ?_⟩
      rcases List.mem_cons.mp hx with rfl | hx
      · exact iff_of_true hts le_rfl
      · exact ⟨fun htx => hsr.le.trans ((hall x hx).mp htx), hup hts⟩
    · refine ⟨r, hr', hrtop, htr, fun x hx => ?_⟩
      rcases List.mem_cons.mp hx with rfl | hx
      · exact ⟨fun htx => not_lt.mp fun hxr => hs ⟨htx, hxr⟩, hup htr⟩
      · exact hall x hx

end Scores

/-! ### The first least element -/

section Least
variable {α κ : Type} [LinearOrder κ]

/-- `min(xs, key=...)`, with the order of the keys. -/
def minBy (lt : α → α → Bool) : List α → Option α
  | [] => none
  | x :: xs => some (xs.foldl (fun best y => if lt y best then y else best) x)

variable {lt : α → α → Bool} {key : α → κ}

theorem foldl_least {xs : List α} : ∀ {best : α}, (∀ x ∈ best :: xs, ∀ y ∈ best :: xs, lt x y = decide (key x < key y)) →
    xs.foldl (fun best y => if lt y best then y else best) best ∈ best :: xs ∧
      ∀ x ∈ best :: xs, key (xs.foldl (fun best y => if lt y best then y else best) best) ≤ key x := by
  induction xs with
  | nil =>
    intro best _
    refine ⟨List.mem_singleton_self best, fun x hx => ?_⟩
    rw [List.mem_singleton.mp hx, List.foldl_nil]
  | cons y xs ih =>
    intro best h
    have hlt := h y (by simp) best (by simp)
    rw [List.foldl_cons]
    by_cases hy : lt y best = true
    · rw [if_pos hy]
      rw [hy, eq_comm, decide_eq_true_eq] at hlt
      obtain ⟨hmem, hle⟩ := ih fun a ha b hb => h a (List.mem_cons_of_mem _ ha) b (List.mem_cons_of_mem _ hb)
      refine ⟨List.mem_cons_of_mem _ hmem, fun x hx => ?_⟩
      rcases List.mem_cons.mp hx with rfl | hx
      · exact (hle y List.mem_cons_self).trans hlt.le
      · exact hle x hx
    · rw [if_neg hy]
      rw [Bool.not_eq_true] at hy
      rw [hy, eq_comm, decide_eq_false_iff_not, not_lt] at hlt
      have hsub : ∀ a ∈ best :: xs, a ∈ best :: y :: xs := by
        intro a ha
        rcases List.mem_cons.mp ha with rfl | ha
        · exact List.mem_cons_self
        · exact List.mem_cons_of_mem _ (List.mem_cons_of_mem _ ha)
      obtain ⟨hmem, hle⟩ := ih fun a ha b hb => h a (hsub a ha) b (hsub b hb)
      refine ⟨hsub _ hmem, fun x hx => ?_⟩
      rcases List.mem_cons.mp hx with rfl | hx
      · exact hle x List.mem_cons_self
      · rcases List.mem_cons.mp hx with rfl | hx
        · exact (hle best List.mem_cons_self).trans hlt
        · exact hle x (List.mem_cons_of_mem _ hx)

/-- **The first least element** is in the list, and its key is at most every other one. -/
theorem minBy_spec {xs : List α} {r : α} (h : ∀ x ∈ xs, ∀ y ∈ xs, lt x y = decide (key x < key y))
    (hr : minBy lt xs = some r) : r ∈ xs ∧ ∀ x ∈ xs, key r ≤ key x := by
  cases xs with
  | nil => cases hr
  | cons x xs =>
    rw [← Option.some.inj hr]
    exact foldl_least h

end Least

end ControlPlane.Lib.Thresholds
