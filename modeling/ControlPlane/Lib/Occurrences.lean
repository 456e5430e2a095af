import Mathlib.Data.List.Basic
import Mathlib.Data.List.Infix

/-! # Occurrences

`cut old text` is what is before the first occurrence of `old` and what is behind it; `count old text` counts the
occurrences from the left, one behind the other.

`Apart old u v`: no occurrence of `old` lies across the border of `u` and `v`. Then what occurs in `u ++ v` occurs in
one of both (`count_append`, `cut_append_right`). There is none across a border next to something that `old` does not
hold there (`apart_cons`, `apart_concat`). -/

namespace ControlPlane.Lib.Occurrences

variable {α : Type} [DecidableEq α]

/-- What is before the first occurrence of `old`, and what is behind it. -/
def cut (old : List α) : List α → Option (List α × List α)
  | [] => none
  | c :: text =>
    if old <+: c :: text then some ([], (c :: text).drop old.length)
    else (cut old text).map fun p => (c :: p.1, p.2)

/-- The occurrences behind the first `n` elements. -/
def countFrom (old : List α) : ℕ → List α → ℕ
  | _, [] => 0
  | n + 1, _ :: text => countFrom old n text
  | 0, c :: text => if old <+: c :: text then countFrom old (old.length - 1) text + 1 else countFrom old 0 text

/-- `text.count(old)` for an `old` that is not empty. -/
def count (old text : List α) : ℕ := countFrom old 0 text

/-- No occurrence of `old` lies across the border of `u` and `v`. -/
def Apart (old u v : List α) : Prop := ∀ x y, old = x ++ y → x ≠ [] → y ≠ [] → x <:+ u → ¬ y <+: v

/-! ### The first occurrence -/

theorem cut_eq_some {old : List α} : ∀ {text a b : List α}, cut old text = some (a, b) → text = a ++ old ++ b
  | [], a, b, h => by cases h
  | c :: text, a, b, h => by
    rw [cut] at h
    by_cases hmatch : old <+: c :: text
    · rw [if_pos hmatch, Option.some.injEq, Prod.mk.injEq] at h
      rw [← h.1, ← h.2, List.nil_append]
      obtain ⟨t, ht⟩ := hmatch
      rw [← ht, List.drop_left]
    · rw [if_neg hmatch] at h
      obtain ⟨p, hp, hab⟩ := Option.map_eq_some_iff.mp h
      rw [Prod.mk.injEq] at hab
      rw [← hab.1, ← hab.2, cut_eq_some hp, List.cons_append, List.cons_append]

theorem cut_self {old : List α} (hold : old ≠ []) (b : List α) : cut old (old ++ b) = some ([], b) := by
  cases old with
  | nil => exact absurd rfl hold
  | cons c old =>
    have hmatch : c :: old <+: c :: (old ++ b) := List.prefix_append (c :: old) b
    rw [List.cons_append, cut, if_pos hmatch, ← List.cons_append, List.drop_left]

/-- What occurs first in a text occurs first in a longer one. -/
theorem cut_append_left {old : List α} (v : List α) : ∀ {u a b : List α}, cut old u = some (a, b) →
    cut old (u ++ v) = some (a, b ++ v)
  | [], a, b, h => by cases h
  | c :: u, a, b, h => by
    rw [cut] at h
    rw [List.cons_append, cut]
    by_cases hmatch : old <+: c :: u
    · rw [if_pos hmatch, Option.some.injEq, Prod.mk.injEq] at h
      have hlonger : old <+: c :: (u ++ v) := hmatch.trans (List.prefix_append (c :: u) v)
      rw [if_pos hlonger, ← h.1, ← h.2, ← List.cons_append, List.drop_append_of_le_length hmatch.length_le]
    · rw [if_neg hmatch] at h
      obtain ⟨p, hp, hab⟩ := Option.map_eq_some_iff.mp h
      rw [Prod.mk.injEq] at hab
      have hnot : ¬ old <+: c :: (u ++ v) := by
        intro hstart
        have hlength : old.length ≤ (c :: u).length := by
          have heq := congrArg List.length (cut_eq_some hp)
          rw [List.length_append, List.length_append] at heq
          rw [List.length_cons]
          omega
        exact hmatch (List.prefix_of_prefix_length_le hstart (List.prefix_append (c :: u) v) hlength)
      rw [if_neg hnot, cut_append_left v hp, Option.map_some, hab.1, ← hab.2]

/-- Without an occurrence there is nothing to cut. -/
theorem not_infix_of_cut {old : List α} : ∀ {text : List α}, cut old text = none → old ≠ [] → ¬ old <:+: text
  | [], _, hold, hwithin => hold (List.infix_nil.mp hwithin)
  | c :: text, hnone, hold, hwithin => by
    rw [cut] at hnone
    by_cases hmatch : old <+: c :: text
    · rw [if_pos hmatch] at hnone
      cases hnone
    · rw [if_neg hmatch, Option.map_eq_none_iff] at hnone
      exact not_infix_of_cut hnone hold ((List.infix_cons_iff.mp hwithin).resolve_left hmatch)

/-! ### Borders -/

omit [DecidableEq α] in
/-- An occurrence in `u ++ v` at its start is one in `u`, if none lies across the border. -/
theorem prefix_of_apart {old u v : List α} (h : Apart old u v) (hu : u ≠ []) (hstart : old <+: u ++ v) : old <+: u := by
  by_cases hlength : old.length ≤ u.length
  · exact List.prefix_of_prefix_length_le hstart (List.prefix_append u v) hlength
  · have huold : u <+: old := List.prefix_of_prefix_length_le (List.prefix_append u v) hstart (by omega)
    obtain ⟨y, hy⟩ := huold
    have hyv : y <+: v := by
      rw [← hy] at hstart
      exact (List.prefix_append_right_inj u).mp hstart
    have hne : y ≠ [] := by
      rintro rfl
      rw [List.append_nil] at hy
      exact hlength (by rw [hy])
    exact absurd hyv (h u y hy.symm hu hne List.suffix_rfl)

omit [DecidableEq α] in
theorem Apart.of_suffix {old u u' v : List α} (h : Apart old u v) (hu : u' <:+ u) : Apart old u' v :=
  fun x y hxy hx hy hback => h x y hxy hx hy (hback.trans hu)

omit [DecidableEq α] in
/-- Nothing lies across a border in front of `c`, if `old` holds `c` at its start only. -/
theorem apart_cons {old : List α} {c : α} (h : c ∉ old.tail) (u v : List α) : Apart old u (c :: v) := by
  intro x y hxy hx hy _ hstart
  cases y with
  | nil => exact hy rfl
  | cons d y =>
    have hd := (List.cons_prefix_cons.mp hstart).1
    cases x with
    | nil => exact hx rfl
    | cons e x =>
      rw [hxy, List.cons_append, List.tail_cons, ← hd] at h
      exact h (List.mem_append_right _ List.mem_cons_self)

omit [DecidableEq α] in
/-- Nothing lies across a border behind `c`, if `old` holds `c` at its end only. -/
theorem apart_concat {old : List α} {c : α} (h : c ∉ old.dropLast) (u v : List α) : Apart old (u ++ [c]) v := by
  intro x y hxy hx hy hback _
  obtain ⟨t, ht⟩ := hback
  have hmem : c ∈ x := by
    obtain ⟨x', d, rfl⟩ := List.eq_nil_or_concat x |>.resolve_left hx
    rw [List.concat_eq_append, ← List.append_assoc] at ht
    have hlast := (List.append_inj' ht rfl).2
    rw [List.singleton_inj] at hlast
    rw [hlast, List.concat_eq_append]
    exact List.mem_append_right _ (List.mem_singleton_self c)
  rw [hxy, List.dropLast_append_of_ne_nil hy] at h
  exact h (List.mem_append_left _ hmem)

/-- What does not occur in `u` occurs first where it does in `v`. -/
theorem cut_append_right {old v : List α} : ∀ {u : List α}, Apart old u v → cut old u = none →
    cut old (u ++ v) = (cut old v).map fun p => (u ++ p.1, p.2)
  | [], _, _ => by
    rw [List.nil_append]
    cases cut old v <;> rfl
  | c :: u, h, hnone => by
    rw [cut] at hnone
    by_cases hmatch : old <+: c :: u
    · rw [if_pos hmatch] at hnone
      cases hnone
    · rw [if_neg hmatch, Option.map_eq_none_iff] at hnone
      have hnot : ¬ old <+: c :: (u ++ v) := fun hstart => hmatch (prefix_of_apart h (by simp) hstart)
      rw [List.cons_append, cut, if_neg hnot, cut_append_right (h.of_suffix (List.suffix_cons c u)) hnone,
        Option.map_map]
      rfl

/-! ### Counting -/

theorem countFrom_eq (old : List α) : ∀ (n : ℕ) (text : List α), countFrom old n text = count old (text.drop n)
  | _, [] => by
    rw [List.drop_nil, count, countFrom, countFrom]
  | 0, c :: text => rfl
  | n + 1, c :: text => by
    rw [countFrom, countFrom_eq old n text, List.drop_succ_cons]

theorem count_nil (old : List α) : count old [] = 0 := by
  rw [count, countFrom]

theorem count_match {old : List α} (hold : old ≠ []) (text : List α) : count old (old ++ text) = count old text + 1 := by
  cases old with
  | nil => exact absurd rfl hold
  | cons c old =>
    have hmatch : c :: old <+: c :: (old ++ text) := List.prefix_append (c :: old) text
    rw [List.cons_append, count, countFrom, if_pos hmatch, countFrom_eq, List.length_cons, Nat.add_sub_cancel,
      List.drop_left]

theorem count_step {old text : List α} {c : α} (h : ¬ old <+: c :: text) : count old (c :: text) = count old text := by
  rw [count, countFrom, if_neg h, count]

/-- **What occurs in two texts**, if nothing lies across their border. -/
theorem count_append {old : List α} (hold : old ≠ []) {v : List α} (u : List α) (h : Apart old u v) :
    count old (u ++ v) = count old u + count old v := by
  have hpos := List.length_pos_iff.mpr hold
  induction hn : u.length using Nat.strongRecOn generalizing u with
  | _ n ih =>
    subst hn
    cases u with
    | nil => rw [List.nil_append, count_nil, Nat.zero_add]
    | cons c u =>
      by_cases hmatch : old <+: c :: u
      · obtain ⟨r, hr⟩ := hmatch
        have hshorter : r.length < (c :: u).length := by
          rw [← hr, List.length_append]
          omega
        have hrest := ih _ hshorter r (h.of_suffix ⟨old, hr⟩) rfl
        rw [← hr, List.append_assoc, count_match hold, count_match hold, hrest]
        omega
      · have hnot : ¬ old <+: c :: (u ++ v) := fun hstart => hmatch (prefix_of_apart h (by simp) hstart)
        have hrest := ih _ (by rw [List.length_cons]; omega) u (h.of_suffix (List.suffix_cons c u)) rfl
        rw [List.cons_append, count_step hnot, count_step hmatch, hrest]

/-- What occurs around a text that begins with `c` and ends with `d`. -/
theorem count_between {old mid : List α} {c d : α} (hold : old ≠ []) (hc : c ∉ old.tail) (hd : d ∉ old.dropLast)
    (hhead : mid.head? = some c) (hlast : mid.getLast? = some d) (u v : List α) :
    count old (u ++ (mid ++ v)) = count old u + (count old mid + count old v) := by
  obtain ⟨r, rfl⟩ := List.head?_eq_some_iff.mp hhead
  obtain ⟨l, hl⟩ := List.getLast?_eq_some_iff.mp hlast
  have hright : Apart old (c :: r) v := by
    rw [hl]
    exact apart_concat hd l v
  have hleft : Apart old u ((c :: r) ++ v) := apart_cons hc u (r ++ v)
  rw [count_append hold u hleft, count_append hold (c :: r) hright]

theorem count_eq_zero {old : List α} (hold : old ≠ []) : ∀ {text : List α}, count old text = 0 ↔ cut old text = none
  | [] => by simp [count_nil, cut]
  | c :: text => by
    rw [cut]
    by_cases hmatch : old <+: c :: text
    · obtain ⟨r, hr⟩ := hmatch
      rw [if_pos ⟨r, hr⟩, ← hr, count_match hold]
      simp
    · rw [if_neg hmatch, count_step hmatch, count_eq_zero hold, Option.map_eq_none_iff]

/-- What occurs behind the first occurrence, and none before it. -/
theorem count_cut {old : List α} (hold : old ≠ []) : ∀ {text a b : List α}, cut old text = some (a, b) →
    count old text = count old b + 1
  | [], a, b, h => by cases h
  | c :: text, a, b, h => by
    rw [cut] at h
    by_cases hmatch : old <+: c :: text
    · rw [if_pos hmatch, Option.some.injEq, Prod.mk.injEq] at h
      obtain ⟨r, hr⟩ := hmatch
      rw [← hr, List.drop_left] at h
      rw [← hr, count_match hold, h.2]
    · rw [if_neg hmatch] at h
      obtain ⟨p, hp, hab⟩ := Option.map_eq_some_iff.mp h
      rw [Prod.mk.injEq] at hab
      rw [count_step hmatch, count_cut hold hp, hab.2]

end ControlPlane.Lib.Occurrences
