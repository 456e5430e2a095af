import Mathlib.Data.List.Basic
import Mathlib.Tactic.Linarith

/-! # Texts with holes

A text with holes is a piece and the pieces behind its holes; `fill` puts one value in all of them. Two ways to
hide the value are described on the pieces alone: replacing it, if it occurs only where the holes are
(`replace_fill`), and dropping a start of the text, if that does not end within a hole (`drop_fill`). Replacing
something else leaves the value as it is, if that does not overlap a hole (`replace_fill_apart`). -/

namespace ControlPlane.Lib.Holes

variable {α : Type} [DecidableEq α]

/-- `text.replace(old, new)` for an `old` that is not empty: the occurrences from the left. -/
def replace (old new : List α) : List α → List α
  | [] => []
  | c :: text =>
    if old ≠ [] ∧ old <+: c :: text then new ++ replace old new (text.drop (old.length - 1))
    else c :: replace old new text
termination_by text => text.length
decreasing_by
  · rw [List.length_drop, List.length_cons]
    omega
  · simp

/-- A piece, and behind each hole another one, with a value in the holes. -/
def fill (value piece : List α) (pieces : List (List α)) : List α := piece ++ pieces.flatMap (value ++ ·)

omit [DecidableEq α] in
@[simp] theorem fill_nil (value piece : List α) : fill value piece [] = piece := by
  rw [fill, List.flatMap_nil, List.append_nil]

omit [DecidableEq α] in
theorem fill_cons (value piece next : List α) (pieces : List (List α)) :
    fill value piece (next :: pieces) = piece ++ (value ++ fill value next pieces) := by
  rw [fill, List.flatMap_cons, fill, List.append_assoc]

omit [DecidableEq α] in
theorem fill_append (value x y : List α) (pieces : List (List α)) :
    fill value (x ++ y) pieces = x ++ fill value y pieces := by
  rw [fill, fill, List.append_assoc]

omit [DecidableEq α] in
theorem length_fill {value value' : List α} (h : value.length = value'.length) (piece : List α) :
    ∀ pieces : List (List α), (fill value piece pieces).length = (fill value' piece pieces).length
  | [] => by rw [fill_nil, fill_nil]
  | next :: pieces => by
    have hrest := length_fill h next pieces
    rw [fill_cons, fill_cons, List.length_append, List.length_append, List.length_append, List.length_append, h,
      hrest]

/-! ### Replacing -/

theorem replace_match {old : List α} (hold : old ≠ []) (new rest : List α) :
    replace old new (old ++ rest) = new ++ replace old new rest := by
  cases old with
  | nil => exact absurd rfl hold
  | cons c old =>
    rw [List.cons_append, replace, if_pos ⟨hold, List.prefix_append (c :: old) rest⟩, List.length_cons,
      Nat.add_sub_cancel, List.drop_left]

theorem replace_step {old : List α} {c : α} {rest : List α} (h : ¬ old <+: c :: rest) (new : List α) :
    replace old new (c :: rest) = c :: replace old new rest := by
  rw [replace, if_neg fun hmatch => h hmatch.2]

/-- Where no occurrence begins, nothing changes. -/
theorem replace_skip {old : List α} (new rest : List α) : ∀ (piece : List α),
    (∀ x y, piece = x ++ y → y ≠ [] → ¬ old <+: y ++ rest) →
    replace old new (piece ++ rest) = piece ++ replace old new rest
  | [], _ => rfl
  | c :: piece, h => by
    have hfirst : ¬ old <+: c :: (piece ++ rest) := h [] (c :: piece) rfl (by simp)
    have hrest := replace_skip new rest piece fun x y hxy => h (c :: x) y (by rw [hxy, List.cons_append])
    rw [List.cons_append, replace_step hfirst, hrest, List.cons_append]

/-- An occurrence of `old` in the text lies before the middle or behind it. -/
def Avoids (old before middle after : List α) : Prop :=
  ∀ x y, before ++ (middle ++ after) = x ++ old ++ y →
    x.length + old.length ≤ before.length ∨ before.length + middle.length ≤ x.length

/-- **Replacing what avoids the middle of a text leaves it.** -/
theorem replace_avoids {old : List α} (hold : old ≠ []) (new middle after : List α) (before : List α)
    (h : Avoids old before middle after) : replace old new (before ++ (middle ++ after)) =
      replace old new before ++ (middle ++ replace old new after) := by
  have hpos := List.length_pos_iff.mpr hold
  induction hn : before.length using Nat.strongRecOn generalizing before with
  | _ n ih =>
    subst hn
    cases before with
    | nil =>
      rw [List.nil_append, replace, List.nil_append]
      refine replace_skip new after _ fun x y hxy hy hprefix => ?_
      obtain ⟨t, ht⟩ := hprefix
      have hoccurs : [] ++ (middle ++ after) = x ++ old ++ t := by
        rw [List.nil_append, hxy, List.append_assoc, List.append_assoc, ht]
      have hlength := congrArg List.length hxy
      have hypos := List.length_pos_iff.mpr hy
      rw [List.length_append] at hlength
      rcases h x t hoccurs with hbefore | hbehind
      · rw [List.length_nil] at hbefore
        omega
      · rw [List.length_nil] at hbehind
        omega
    | cons c before =>
      by_cases hmatch : old <+: c :: before
      · obtain ⟨rest, hrest⟩ := hmatch
        have hshorter : rest.length < (c :: before).length := by
          rw [← hrest, List.length_append]
          omega
        have havoids : Avoids old rest middle after := by
          intro x y hxy
          have hoccurs : c :: before ++ (middle ++ after) = (old ++ x) ++ old ++ y := by
            rw [← hrest, List.append_assoc, hxy, List.append_assoc, List.append_assoc, List.append_assoc]
          have hwhere := h _ _ hoccurs
          rw [← hrest, List.length_append, List.length_append] at hwhere
          omega
        have htail := ih _ hshorter rest havoids rfl
        rw [← hrest, List.append_assoc, replace_match hold, htail, replace_match hold, List.append_assoc]
      · have hnot : ¬ old <+: c :: (before ++ (middle ++ after)) := by
          rintro ⟨t, ht⟩
          rcases h [] t (by rw [List.nil_append, ht, List.cons_append]) with hbefore | hbehind
          · rw [List.length_nil, Nat.zero_add] at hbefore
            have hprefix : old <+: (c :: before) ++ (middle ++ after) := ⟨t, by rw [ht, List.cons_append]⟩
            exact hmatch (List.prefix_of_prefix_length_le hprefix (List.prefix_append ..) hbefore)
          · rw [List.length_cons, List.length_nil] at hbehind
            omega
        have havoids : Avoids old before middle after := by
          intro x y hxy
          have hwhere := h (c :: x) y (by rw [List.cons_append, hxy, List.cons_append, List.cons_append])
          rw [List.length_cons, List.length_cons] at hwhere
          omega
        have htail := ih _ (by rw [List.length_cons]; omega) before havoids rfl
        rw [List.cons_append, replace_step hnot, htail, replace_step hmatch, List.cons_append]

/-! ### Replacing in a text with holes -/

/-- No occurrence of the value begins in a piece. -/
def OnlyAtHoles (value : List α) : List α → List (List α) → Prop
  | piece, [] => ∀ x y, piece = x ++ y → y ≠ [] → ¬ value <+: y
  | piece, next :: pieces => (∀ x y, piece = x ++ y → y ≠ [] → ¬ value <+: y ++ (value ++ fill value next pieces)) ∧
      OnlyAtHoles value next pieces

/-- **Replacing the value replaces what is in the holes.** -/
theorem replace_fill {value : List α} (hvalue : value ≠ []) (new : List α) : ∀ {piece : List α}
    {pieces : List (List α)}, OnlyAtHoles value piece pieces →
    replace value new (fill value piece pieces) = fill new piece pieces
  | piece, [], h => by
    have hskip : replace value new (piece ++ []) = piece ++ replace value new [] :=
      replace_skip new [] piece fun x y hxy hy => by
        rw [List.append_nil]
        exact h x y hxy hy
    rw [List.append_nil, replace, List.append_nil] at hskip
    rw [fill_nil, fill_nil, hskip]
  | piece, next :: pieces, h => by
    rw [fill_cons, fill_cons, replace_skip new _ _ h.1, replace_match hvalue, replace_fill hvalue new h.2]

/-- No occurrence of `old` overlaps a hole. -/
def Apart (old value : List α) : List α → List (List α) → Prop
  | _, [] => True
  | piece, next :: pieces => Avoids old piece value (fill value next pieces) ∧ Apart old value next pieces

/-- **Replacing what overlaps no hole changes the pieces only.** -/
theorem replace_fill_apart {old : List α} (hold : old ≠ []) (new value : List α) : ∀ {piece : List α}
    {pieces : List (List α)}, Apart old value piece pieces →
    replace old new (fill value piece pieces) = fill value (replace old new piece) (pieces.map (replace old new))
  | piece, [], _ => by rw [fill_nil, List.map_nil, fill_nil]
  | piece, next :: pieces, h => by
    rw [fill_cons, replace_avoids hold new value _ piece h.1, replace_fill_apart hold new value h.2, List.map_cons,
      fill_cons]

/-! ### Dropping a start -/

/-- What is left when `n` elements are dropped and the values have length `len`: how much of a value that was cut,
and the pieces behind that. -/
def cut (len : ℕ) : ℕ → List α → List (List α) → ℕ × List α × List (List α)
  | n, piece, [] => (0, piece.drop n, [])
  | n, piece, next :: pieces =>
    if n ≤ piece.length then (0, piece.drop n, next :: pieces)
    else if n < piece.length + len then (piece.length + len - n, next, pieces)
    else cut len (n - piece.length - len) next pieces

omit [DecidableEq α] in
theorem drop_fill (value : List α) : ∀ (n : ℕ) (piece : List α) (pieces : List (List α)),
    (fill value piece pieces).drop n = value.drop (value.length - (cut value.length n piece pieces).1) ++
      fill value (cut value.length n piece pieces).2.1 (cut value.length n piece pieces).2.2
  | n, piece, [] => by
    rw [cut, fill_nil, Nat.sub_zero, List.drop_length, List.nil_append, fill_nil]
  | n, piece, next :: pieces => by
    rw [cut, fill_cons]
    split_ifs with hpiece hhole
    · rw [List.drop_append_of_le_length hpiece, Nat.sub_zero, List.drop_length, List.nil_append, fill_cons]
    · have hdrop : value.length - (piece.length + value.length - n) = n - piece.length := by omega
      rw [hdrop, List.drop_append, List.drop_eq_nil_of_le (by omega), List.nil_append,
        List.drop_append_of_le_length (by omega)]
    · have hrest := drop_fill value (n - piece.length - value.length) next pieces
      rw [← hrest, List.drop_append, List.drop_eq_nil_of_le (by omega), List.nil_append, List.drop_append,
        List.drop_eq_nil_of_le (by omega), List.nil_append]

end ControlPlane.Lib.Holes
