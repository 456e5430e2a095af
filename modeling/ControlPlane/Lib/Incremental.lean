import Mathlib.Data.List.Perm.Basic
import Mathlib.Data.List.Nodup

/-! # Rows that are derived of files

Rows are derived of each of some keyed files. A rebuild derives all of them; a refresh keeps the rows of some keys and
derives the others anew. `Of rows s`: the rows are those of the files `s`, up to their order.

`refresh_of`: what rows there are after a refresh, whatever is kept. `perm_full`: rows of the files of a tree are those
of a rebuild, up to their order. -/

namespace ControlPlane.Lib.Incremental

variable {κ α ρ : Type} [DecidableEq κ]

/-- How rows are derived of the file of a key. -/
structure Derivation (κ α ρ : Type) where
  key : ρ → Option κ
  derive : κ → α → List ρ
  key_derive : ∀ k a, ∀ r ∈ derive k a, key r = some k

variable (D : Derivation κ α ρ)

/-- The rows of a file that may be missing. -/
def Derivation.rows (k : κ) : Option α → List ρ
  | some a => D.derive k a
  | none => []

/-- The rows of a key. -/
def Derivation.at (k : κ) (rows : List ρ) : List ρ := rows.filter fun r => D.key r = some k

/-- The rows are those of the files `s`, up to their order. -/
structure Of (rows : List ρ) (s : κ → Option α) : Prop where
  keyed : ∀ r ∈ rows, ∃ k, D.key r = some k
  same : ∀ k, (D.at k rows).Perm (D.rows k (s k))

/-- The file of a key. -/
def fileAt (files : List (κ × α)) (k : κ) : Option α := files.lookup k

/-- The rows of a rebuild. -/
def full (files : List (κ × α)) : List ρ := files.flatMap fun p => D.derive p.1 p.2

/-- The rows after a refresh: those of the keys that are kept, and those of some files anew. -/
def refresh (keep : κ → Bool) (anew : List (κ × α)) (rows : List ρ) : List ρ :=
  rows.filter (fun r => (D.key r).any keep) ++ full D anew

/-- The files that the rows are of, after a refresh. -/
def refreshed (keep : κ → Bool) (anew : List (κ × α)) (s : κ → Option α) (k : κ) : Option α :=
  if keep k then s k else fileAt anew k

variable {D}

theorem at_append (k : κ) (rows rows' : List ρ) : D.at k (rows ++ rows') = D.at k rows ++ D.at k rows' :=
  List.filter_append ..

/-- The rows of one file have its key only. -/
theorem at_derive (k l : κ) (a : α) : D.at k (D.derive l a) = if l = k then D.derive l a else [] := by
  unfold Derivation.at
  by_cases h : l = k
  · rw [if_pos h, List.filter_eq_self]
    intro r hr
    rw [D.key_derive l a r hr, h]
    exact decide_eq_true rfl
  · rw [if_neg h, List.filter_eq_nil_iff]
    intro r hr
    rw [D.key_derive l a r hr]
    simpa using h

theorem at_full_notMem {k : κ} {files : List (κ × α)} (h : k ∉ files.map Prod.fst) : D.at k (full D files) = [] := by
  induction files with
  | nil => rfl
  | cons p files ih =>
    rw [List.map_cons, List.mem_cons, not_or] at h
    rw [full, List.flatMap_cons, at_append, at_derive, if_neg (Ne.symm h.1), List.nil_append]
    exact ih h.2

/-- **The rows of a rebuild**, key by key. -/
theorem at_full {files : List (κ × α)} (hnodup : (files.map Prod.fst).Nodup) (k : κ) :
    D.at k (full D files) = D.rows k (fileAt files k) := by
  induction files with
  | nil => rfl
  | cons p files ih =>
    rw [List.map_cons, List.nodup_cons] at hnodup
    rw [full, List.flatMap_cons, at_append, at_derive, fileAt, List.lookup_cons]
    by_cases h : p.1 = k
    · subst h
      have hrest := @at_full_notMem κ α ρ _ D p.1 files hnodup.1
      rw [full] at hrest
      rw [if_pos rfl, hrest, List.append_nil, beq_self_eq_true]
      rfl
    · have hne : (k == p.1) = false := beq_eq_false_iff_ne.mpr (Ne.symm h)
      rw [if_neg h, List.nil_append, hne]
      exact ih hnodup.2

omit [DecidableEq κ] in
theorem key_full {files : List (κ × α)} {r : ρ} (h : r ∈ full D files) : ∃ k, D.key r = some k := by
  obtain ⟨p, -, hr⟩ := List.mem_flatMap.mp h
  exact ⟨p.1, D.key_derive _ _ _ hr⟩

/-- A rebuild has the rows of its files. -/
theorem full_of {files : List (κ × α)} (hnodup : (files.map Prod.fst).Nodup) : Of D (full D files) (fileAt files) :=
  ⟨fun _ => key_full, fun k => by rw [at_full hnodup]⟩

/-- **What a refresh leaves.** -/
theorem refresh_of {rows : List ρ} {s : κ → Option α} (h : Of D rows s) {keep : κ → Bool} {anew : List (κ × α)}
    (hnodup : (anew.map Prod.fst).Nodup) (hanew : ∀ k, keep k = true → k ∉ anew.map Prod.fst) :
    Of D (refresh D keep anew rows) (refreshed keep anew s) := by
  refine ⟨fun r hr => ?_, fun k => ?_⟩
  · rcases List.mem_append.mp hr with hr | hr
    · exact h.keyed r (List.mem_filter.mp hr).1
    · exact key_full hr
  · have hkept : D.at k (rows.filter fun r => (D.key r).any keep) = if keep k then D.at k rows else [] := by
      unfold Derivation.at
      rw [List.filter_filter]
      by_cases hk : keep k = true
      · rw [if_pos hk]
        refine List.filter_congr fun r _ => ?_
        by_cases hr : D.key r = some k <;> simp [hr, hk]
      · rw [if_neg hk, List.filter_eq_nil_iff]
        intro r _
        by_cases hr : D.key r = some k <;> simp [hr, hk]
    rw [refresh, at_append, hkept, refreshed]
    by_cases hk : keep k = true
    · rw [if_pos hk, if_pos hk, at_full_notMem (hanew k hk), List.append_nil]
      exact h.same k
    · rw [if_neg hk, if_neg hk, at_full hnodup, List.nil_append]

/-- **Rows of the files of a tree are those of a rebuild**, up to their order. -/
theorem perm_full : ∀ {files : List (κ × α)} {rows : List ρ}, (files.map Prod.fst).Nodup → Of D rows (fileAt files) →
    rows.Perm (full D files)
  | [], rows, _, h => by
    have hnil : rows = [] := by
      rw [List.eq_nil_iff_forall_not_mem]
      intro r hr
      obtain ⟨k, hk⟩ := h.keyed r hr
      have hempty := List.perm_nil.mp (h.same k)
      have hmem : r ∈ D.at k rows := List.mem_filter.mpr ⟨hr, decide_eq_true hk⟩
      rw [hempty] at hmem
      exact absurd hmem List.not_mem_nil
    rw [hnil]
    exact List.Perm.nil
  | p :: files, rows, hnodup, h => by
    rw [List.map_cons, List.nodup_cons] at hnodup
    have hsplit := (List.filter_append_perm (fun r => decide (D.key r = some p.1)) rows).symm
    have hfirst : (D.at p.1 rows).Perm (D.derive p.1 p.2) := by
      have hsame := h.same p.1
      rwa [fileAt, List.lookup_cons, beq_self_eq_true] at hsame
    have hrest : Of D (rows.filter fun r => !decide (D.key r = some p.1)) (fileAt files) := by
      refine ⟨fun r hr => h.keyed r (List.mem_filter.mp hr).1, fun k => ?_⟩
      have hat : D.at k (rows.filter fun r => !decide (D.key r = some p.1)) = if p.1 = k then [] else D.at k rows := by
        unfold Derivation.at
        rw [List.filter_filter]
        by_cases hk : p.1 = k
        · rw [if_pos hk, List.filter_eq_nil_iff]
          intro r _
          subst hk
          simp
        · rw [if_neg hk]
          refine List.filter_congr fun r _ => ?_
          by_cases hr : D.key r = some k
          · simp [hr, Ne.symm hk]
          · simp [hr]
      rw [hat]
      by_cases hk : p.1 = k
      · subst hk
        have hnone : fileAt files p.1 = none := by
          rw [fileAt, List.lookup_eq_none_iff]
          intro q hq
          rw [bne_iff_ne]
          intro hsame
          exact hnodup.1 (hsame ▸ List.mem_map_of_mem hq)
        rw [if_pos rfl, hnone]
        exact List.Perm.nil
      · rw [if_neg hk]
        have hsame := h.same k
        have hne : (k == p.1) = false := beq_eq_false_iff_ne.mpr (Ne.symm hk)
        rwa [fileAt, List.lookup_cons, hne] at hsame
    rw [full, List.flatMap_cons]
    exact hsplit.trans (hfirst.append (perm_full hnodup.2 hrest))

end ControlPlane.Lib.Incremental
