import Mathlib.Data.List.Basic

/-! # Segments

The maximal runs of elements with a property. The segments of a stronger property are those of the weaker one,
cut further (`segments_refine`), and segments joined by something else are found again
(`segments_intercalate`).

`eq_of_cut`: a list of words is determined by the pieces of all words, and by the words that are more than one
piece with their places. -/

namespace ControlPlane.Lib.Segments

variable {α : Type}

/-- The segments of `run ++ cs`; `run` is what has been read of the current one. -/
def segmentsFrom (p : α → Bool) (run : List α) : List α → List (List α)
  | [] => if run.isEmpty then [] else [run]
  | c :: cs =>
    if p c then segmentsFrom p (run ++ [c]) cs
    else if run.isEmpty then segmentsFrom p [] cs else run :: segmentsFrom p [] cs

def segments (p : α → Bool) (cs : List α) : List (List α) := segmentsFrom p [] cs

variable {p q : α → Bool}

theorem mem_segmentsFrom {cs : List α} : ∀ {run : List α}, (∀ c ∈ run, p c = true) →
    ∀ s ∈ segmentsFrom p run cs, s ≠ [] ∧ ∀ c ∈ s, p c = true := by
  induction cs with
  | nil =>
    intro run hrun s hs
    unfold segmentsFrom at hs
    split_ifs at hs with hempty
    · cases hs
    · rw [List.mem_singleton.mp hs]
      exact ⟨by simpa using hempty, hrun⟩
  | cons c cs ih =>
    intro run hrun s hs
    unfold segmentsFrom at hs
    split_ifs at hs with hc hempty
    · refine ih (fun d hd => ?_) s hs
      rcases List.mem_append.mp hd with hd | hd
      · exact hrun d hd
      · rw [List.mem_singleton.mp hd]
        exact hc
    · exact ih (by simp) s hs
    · rcases List.mem_cons.mp hs with rfl | hs
      · exact ⟨by simpa using hempty, hrun⟩
      · exact ih (by simp) s hs

/-- A segment is not empty, and all its elements have the property. -/
theorem mem_segments {cs s : List α} (h : s ∈ segments p cs) : s ≠ [] ∧ ∀ c ∈ s, p c = true :=
  mem_segmentsFrom (by simp) s h

theorem segmentsFrom_all {xs : List α} : ∀ {run : List α}, (∀ c ∈ xs, p c = true) → ∀ ys,
    segmentsFrom p run (xs ++ ys) = segmentsFrom p (run ++ xs) ys := by
  induction xs with
  | nil => exact fun _ ys => by rw [List.nil_append, List.append_nil]
  | cons c xs ih =>
    intro run h ys
    obtain ⟨hc, hxs⟩ := List.forall_mem_cons.mp h
    rw [List.cons_append, segmentsFrom, if_pos hc, ih hxs, List.append_assoc, List.singleton_append]

/-- What has the property throughout is one segment. -/
theorem segments_all {xs : List α} (hne : xs ≠ []) (h : ∀ c ∈ xs, p c = true) : segments p xs = [xs] := by
  have hall := @segmentsFrom_all _ p xs [] h []
  rw [List.append_nil, List.nil_append] at hall
  rw [segments, hall, segmentsFrom, if_neg (by simpa using hne)]

theorem segmentsFrom_split {xs : List α} {c : α} (hc : p c = false) (ys : List α) : ∀ {run : List α},
    segmentsFrom p run (xs ++ c :: ys) = segmentsFrom p run xs ++ segments p ys := by
  induction xs with
  | nil =>
    intro run
    rw [List.nil_append, segmentsFrom, segmentsFrom, hc, if_neg Bool.false_ne_true]
    split_ifs
    · rfl
    · rfl
  | cons x xs ih =>
    intro run
    rw [List.cons_append, segmentsFrom, segmentsFrom]
    split_ifs
    · exact ih
    · exact ih
    · rw [ih, List.cons_append]

/-- An element without the property separates segments. -/
theorem segments_split {xs : List α} {c : α} (hc : p c = false) (ys : List α) :
    segments p (xs ++ c :: ys) = segments p xs ++ segments p ys := segmentsFrom_split hc ys

theorem segmentsFrom_refine (hqp : ∀ c, q c = true → p c = true) {cs : List α} : ∀ {run : List α},
    segments q (run ++ cs) = (segmentsFrom p run cs).flatMap (segments q) := by
  induction cs with
  | nil =>
    intro run
    rw [List.append_nil, segmentsFrom]
    split_ifs with hempty
    · rw [List.isEmpty_iff.mp hempty]
      rfl
    · rw [List.flatMap_cons, List.flatMap_nil, List.append_nil]
  | cons c cs ih =>
    intro run
    rw [segmentsFrom]
    split_ifs with hc hempty
    · rw [← ih, List.append_assoc, List.singleton_append]
    · have hq : q c = false := by
        rw [← Bool.not_eq_true]
        exact fun h => hc (hqp c h)
      rw [← ih, List.isEmpty_iff.mp hempty, segments_split hq]
      rfl
    · have hq : q c = false := by
        rw [← Bool.not_eq_true]
        exact fun h => hc (hqp c h)
      rw [List.flatMap_cons, ← ih, segments_split hq]
      rfl

/-- **Refinement.** The segments of a stronger property lie in those of the weaker one. -/
theorem segments_refine (hqp : ∀ c, q c = true → p c = true) (cs : List α) :
    segments q cs = (segments p cs).flatMap (segments q) :=
  @segmentsFrom_refine _ p q hqp cs []

/-- **Segments joined by a separator** are found again. -/
theorem segments_intercalate {sep : α} (hsep : p sep = false) : ∀ {ss : List (List α)},
    (∀ s ∈ ss, s ≠ [] ∧ ∀ c ∈ s, p c = true) → segments p (List.intercalate [sep] ss) = ss
  | [], _ => rfl
  | [s], h => by
    obtain ⟨hne, hall⟩ := h s List.mem_cons_self
    rw [List.intercalate_singleton]
    exact segments_all hne hall
  | s :: t :: ss, h => by
    obtain ⟨⟨hne, hall⟩, hrest⟩ := List.forall_mem_cons.mp h
    rw [List.intercalate_cons_cons, List.append_assoc, List.singleton_append, segments_split hsep,
      segments_all hne hall, segments_intercalate hsep hrest]
    rfl

/-- Segments that each end in a separator are found again. -/
theorem segments_terminated {sep : α} (hsep : p sep = false) : ∀ {ss : List (List α)},
    (∀ s ∈ ss, s ≠ [] ∧ ∀ c ∈ s, p c = true) → segments p (ss.flatMap fun s => s ++ [sep]) = ss
  | [], _ => rfl
  | s :: ss, h => by
    obtain ⟨⟨hne, hall⟩, hrest⟩ := List.forall_mem_cons.mp h
    rw [List.flatMap_cons, List.append_assoc, List.singleton_append, segments_split hsep, segments_all hne hall,
      segments_terminated hsep hrest]
    rfl

/-! ### Pieces -/

section Pieces
variable {β : Type} {cut : β → List β} {whole : β → Bool}

theorem le_of_mem_filter {ws : List β} {i : ℕ} {w : β × ℕ}
    (h : w ∈ (ws.zipIdx i).filter fun x => !whole x.1) : i ≤ w.2 :=
  (List.le_snd_of_mem_zipIdx (List.mem_filter.mp h).1)

/-- A word that is whole is the one piece of it. -/
def Uncut (cut : β → List β) (whole : β → Bool) (ws : List β) : Prop :=
  ∀ w ∈ ws, whole w = true → cut w = [w]

/-- **Words are known by their pieces**, if those that are not whole are known with their places. -/
theorem eq_of_cut : ∀ {ws vs : List β} {i : ℕ}, Uncut cut whole ws → Uncut cut whole vs →
    ws.flatMap cut = vs.flatMap cut →
    ((ws.zipIdx i).filter fun x => !whole x.1) = ((vs.zipIdx i).filter fun x => !whole x.1) → ws = vs
  | [], [], _, _, _, _, _ => rfl
  | [], v :: vs, i, _, hvs, hcut, hplaces => by
    by_cases hv : whole v = true
    · rw [List.flatMap_cons, hvs v List.mem_cons_self hv] at hcut
      cases hcut
    · rw [List.zipIdx_cons, List.filter_cons_of_pos (by simpa using hv)] at hplaces
      cases hplaces
  | w :: ws, [], i, hws, _, hcut, hplaces => by
    by_cases hw : whole w = true
    · rw [List.flatMap_cons, hws w List.mem_cons_self hw] at hcut
      cases hcut
    · rw [List.zipIdx_cons, List.filter_cons_of_pos (by simpa using hw)] at hplaces
      cases hplaces
  | w :: ws, v :: vs, i, hws, hvs, hcut, hplaces => by
    obtain ⟨hw1, hws'⟩ := List.forall_mem_cons.mp hws
    obtain ⟨hv1, hvs'⟩ := List.forall_mem_cons.mp hvs
    rw [List.zipIdx_cons, List.zipIdx_cons] at hplaces
    rw [List.flatMap_cons, List.flatMap_cons] at hcut
    by_cases hw : whole w = true
    · rw [List.filter_cons_of_neg (by simpa using hw)] at hplaces
      by_cases hv : whole v = true
      · rw [List.filter_cons_of_neg (by simpa using hv)] at hplaces
        rw [hw1 hw, hv1 hv, List.singleton_append, List.singleton_append] at hcut
        obtain ⟨rfl, hrest⟩ := List.cons.inj hcut
        rw [eq_of_cut hws' hvs' hrest hplaces]
      · rw [List.filter_cons_of_pos (by simpa using hv)] at hplaces
        have hin : (v, i) ∈ (ws.zipIdx (i + 1)).filter fun x => !whole x.1 := by
          rw [hplaces]
          exact List.mem_cons_self
        have hle := le_of_mem_filter hin
        dsimp only at hle
        omega
    · rw [List.filter_cons_of_pos (by simpa using hw)] at hplaces
      by_cases hv : whole v = true
      · rw [List.filter_cons_of_neg (by simpa using hv)] at hplaces
        have hin : (w, i) ∈ (vs.zipIdx (i + 1)).filter fun x => !whole x.1 := by
          rw [← hplaces]
          exact List.mem_cons_self
        have hle := le_of_mem_filter hin
        dsimp only at hle
        omega
      · rw [List.filter_cons_of_pos (by simpa using hv)] at hplaces
        obtain ⟨hhead, hrest⟩ := List.cons.inj hplaces
        have hsame : w = v := congrArg Prod.fst hhead
        rw [hsame, List.append_cancel_left_eq] at hcut
        rw [hsame, eq_of_cut hws' hvs' hcut hrest]

end Pieces

end ControlPlane.Lib.Segments
