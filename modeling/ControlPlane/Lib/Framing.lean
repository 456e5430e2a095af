import Mathlib.Data.List.Induction

/-! # Framing

Words are written one after the other, each behind a separator that is in none of them. What is written last is
found again from the end, whatever stands before (`last_field`). So a list of records can be taken off the end of a
text, if each record can (`records_append`).

Words whose ends are seen from their own text can be read from the front (`flatMap_append`). -/

namespace ControlPlane.Lib.Framing

variable {α : Type} {z : α}

/-! ### Separators -/

/-- A text is split at its first separator in one way. -/
theorem first_sep : ∀ {xs us ys vs : List α}, z ∉ xs → z ∉ us → xs ++ z :: ys = us ++ z :: vs →
    xs = us ∧ ys = vs
  | [], [], _, _, _, _, h => ⟨rfl, (List.cons.inj h).2⟩
  | [], u :: us, _, _, _, hu, h => absurd (List.mem_cons.mpr (Or.inl (List.cons.inj h).1)) hu
  | x :: xs, [], _, _, hx, _, h => absurd (List.mem_cons.mpr (Or.inl (List.cons.inj h).1.symm)) hx
  | x :: xs, u :: us, ys, vs, hx, hu, h => by
    obtain ⟨hhead, htail⟩ := List.cons.inj h
    obtain ⟨hxs, hys⟩ := first_sep (fun hz => hx (List.mem_cons_of_mem x hz))
      (fun hz => hu (List.mem_cons_of_mem u hz)) htail
    exact ⟨by rw [hhead, hxs], hys⟩

/-- A text is split at its last separator in one way. -/
theorem last_sep {xs us ys vs : List α} (hy : z ∉ ys) (hv : z ∉ vs) (h : xs ++ z :: ys = us ++ z :: vs) :
    xs = us ∧ ys = vs := by
  have hrev := congrArg List.reverse h
  simp only [List.reverse_append, List.reverse_cons, List.append_assoc, List.singleton_append] at hrev
  obtain ⟨hys, hxs⟩ := first_sep (fun hz => hy (List.mem_reverse.mp hz)) (fun hz => hv (List.mem_reverse.mp hz)) hrev
  exact ⟨List.reverse_inj.mp hxs, List.reverse_inj.mp hys⟩

/-! ### Fields -/

/-- Words, each behind a separator. -/
def fields (z : α) (ws : List (List α)) : List α := ws.flatMap fun w => z :: w

theorem fields_concat (ws : List (List α)) (w : List α) : fields z (ws ++ [w]) = fields z ws ++ z :: w := by
  rw [fields, List.flatMap_append, List.flatMap_singleton]
  rfl

/-- The last words are equal if the texts are. -/
theorem last_field {xs us : List α} {ws vs : List (List α)} {w v : List α} (hw : z ∉ w) (hv : z ∉ v)
    (h : xs ++ fields z (ws ++ [w]) = us ++ fields z (vs ++ [v])) :
    xs ++ fields z ws = us ++ fields z vs ∧ w = v := by
  rw [fields_concat, fields_concat, ← List.append_assoc, ← List.append_assoc] at h
  exact last_sep hw hv h

/-! ### Records -/

section Records
variable {κ ρ : Type} {enc : κ → ρ → List α} {P : ρ → Prop}

/-- **Records are taken off the end** of a text, if each of them can be. -/
theorem records_append (henc : ∀ n r s xs us, P r → P s → xs ++ enc n r = us ++ enc n s → r = s)
    {r s : κ → ρ} (hr : ∀ n, P (r n)) (hs : ∀ n, P (s n)) {xs us : List α} {names : List κ}
    (h : xs ++ names.flatMap (fun n => enc n (r n)) = us ++ names.flatMap fun n => enc n (s n)) :
    xs = us ∧ ∀ n ∈ names, r n = s n := by
  induction names using List.reverseRecOn with
  | nil => exact ⟨by simpa using h, by simp⟩
  | append_singleton names n ih =>
    simp only [List.flatMap_append, List.flatMap_singleton, ← List.append_assoc] at h
    have hsame := henc n _ _ _ _ (hr n) (hs n) h
    rw [hsame, List.append_cancel_right_eq] at h
    obtain ⟨hxs, hnames⟩ := ih h
    refine ⟨hxs, fun m hm => ?_⟩
    rcases List.mem_append.mp hm with hm | hm
    · exact hnames m hm
    · rw [List.mem_singleton.mp hm]
      exact hsame

end Records

/-- No word can be read from the front. -/
def Stops {κ : Type} (enc : κ → List α) (P : κ → Prop) (xs : List α) : Prop := ∀ e us, P e → xs ≠ enc e ++ us

/-- **Words that end where their own text says** are read from the front, up to where no word begins. -/
theorem flatMap_append {κ : Type} {enc : κ → List α} {P : κ → Prop}
    (henc : ∀ e f xs us, P e → P f → enc e ++ xs = enc f ++ us → e = f) {xs us : List α}
    (hxs : Stops enc P xs) (hus : Stops enc P us) : ∀ {es fs : List κ}, (∀ e ∈ es, P e) → (∀ f ∈ fs, P f) →
    es.flatMap enc ++ xs = fs.flatMap enc ++ us → es = fs ∧ xs = us
  | [], [], _, _, h => ⟨rfl, h⟩
  | [], f :: fs, _, hfs, h => by
    rw [List.flatMap_nil, List.nil_append, List.flatMap_cons, List.append_assoc] at h
    exact absurd h (hxs f _ (hfs f List.mem_cons_self))
  | e :: es, [], hes, _, h => by
    rw [List.flatMap_nil, List.nil_append, List.flatMap_cons, List.append_assoc] at h
    exact absurd h.symm (hus e _ (hes e List.mem_cons_self))
  | e :: es, f :: fs, hes, hfs, h => by
    obtain ⟨he, hes⟩ := List.forall_mem_cons.mp hes
    obtain ⟨hf, hfs⟩ := List.forall_mem_cons.mp hfs
    rw [List.flatMap_cons, List.flatMap_cons, List.append_assoc, List.append_assoc] at h
    have hsame := henc e f _ _ he hf h
    rw [hsame, List.append_cancel_left_eq] at h
    obtain ⟨hrest, htail⟩ := flatMap_append henc hxs hus hes hfs h
    exact ⟨by rw [hsame, hrest], htail⟩

end ControlPlane.Lib.Framing
