import ControlPlane.Lib.Dynamic
import Mathlib.Data.List.Perm.Subperm

/-! # Loops that may raise

A loop over other elements: over the same in another order (`mapM_perm`), over some of them (`mapM_sublist`),
over related ones (`mapM_related`). -/

namespace ControlPlane.Lib.Loops

open ControlPlane.Lib.Dynamic

variable {ε α β : Type} {f : α → Except ε β}

theorem mapM_cons_ok {x : α} {xs : List α} {ys : List β} : (x :: xs).mapM f = .ok ys ↔
    ∃ y zs, f x = .ok y ∧ xs.mapM f = .ok zs ∧ ys = y :: zs := by
  rw [List.mapM_cons, bind_eq_ok]
  constructor
  · rintro ⟨y, hy, h⟩
    obtain ⟨zs, hzs, h⟩ := bind_eq_ok.mp h
    exact ⟨y, zs, hy, hzs, (Except.ok.inj h).symm⟩
  · rintro ⟨y, zs, hy, hzs, rfl⟩
    exact ⟨y, hy, bind_eq_ok.mpr ⟨zs, hzs, rfl⟩⟩

theorem mapM_perm {xs xs' : List α} (hperm : xs.Perm xs') : ∀ {ys : List β}, xs.mapM f = .ok ys →
    ∃ ys', xs'.mapM f = .ok ys' ∧ ys.Perm ys' := by
  induction hperm with
  | nil => exact fun h => ⟨_, h, List.Perm.refl _⟩
  | cons x _ ih =>
    intro ys h
    obtain ⟨y, zs, hy, hzs, rfl⟩ := mapM_cons_ok.mp h
    obtain ⟨zs', hzs', hp⟩ := ih hzs
    exact ⟨y :: zs', mapM_cons_ok.mpr ⟨y, zs', hy, hzs', rfl⟩, hp.cons y⟩
  | swap x x' _ =>
    intro ys h
    obtain ⟨y', rest, hy', hrest, rfl⟩ := mapM_cons_ok.mp h
    obtain ⟨y, zs, hy, hzs, rfl⟩ := mapM_cons_ok.mp hrest
    exact ⟨y :: y' :: zs, mapM_cons_ok.mpr ⟨y, y' :: zs, hy, mapM_cons_ok.mpr ⟨y', zs, hy', hzs, rfl⟩, rfl⟩,
      List.Perm.swap y y' zs⟩
  | trans _ _ ih₁ ih₂ =>
    intro ys h
    obtain ⟨ys₁, h₁, hp₁⟩ := ih₁ h
    obtain ⟨ys₂, h₂, hp₂⟩ := ih₂ h₁
    exact ⟨ys₂, h₂, hp₁.trans hp₂⟩

theorem mapM_sublist {xs xs' : List α} (hsub : xs.Sublist xs') : ∀ {ys' : List β}, xs'.mapM f = .ok ys' →
    ∃ ys, xs.mapM f = .ok ys ∧ ys.Sublist ys' := by
  induction hsub with
  | slnil => exact fun h => ⟨_, h, List.Sublist.refl _⟩
  | cons x _ ih =>
    intro ys' h
    obtain ⟨y, zs, -, hzs, rfl⟩ := mapM_cons_ok.mp h
    obtain ⟨ys, hys, hs⟩ := ih hzs
    exact ⟨ys, hys, hs.cons y⟩
  | cons_cons x _ ih =>
    intro ys' h
    obtain ⟨y, zs, hy, hzs, rfl⟩ := mapM_cons_ok.mp h
    obtain ⟨ys, hys, hs⟩ := ih hzs
    exact ⟨y :: ys, mapM_cons_ok.mpr ⟨y, ys, hy, hys, rfl⟩, hs.cons_cons y⟩

/-- Part of the elements, in any order. -/
theorem mapM_subperm {xs xs' : List α} (hsub : xs.Subperm xs') {ys' : List β} (h : xs'.mapM f = .ok ys') :
    ∃ ys, xs.mapM f = .ok ys ∧ ys.Subperm ys' := by
  obtain ⟨l, hperm, hl⟩ := hsub
  obtain ⟨zs, hzs, hs⟩ := mapM_sublist hl h
  obtain ⟨ys, hys, hp⟩ := mapM_perm hperm hzs
  exact ⟨ys, hys, ⟨zs, hp, hs⟩⟩

/-- Steps that are related give related results. -/
theorem mapM_related {R : α → α → Prop} {S : β → β → Prop}
    (hstep : ∀ x x' y y', R x x' → f x = .ok y → f x' = .ok y' → S y y') : ∀ {xs xs' : List α},
    List.Forall₂ R xs xs' → ∀ {ys ys' : List β}, xs.mapM f = .ok ys → xs'.mapM f = .ok ys' →
    List.Forall₂ S ys ys' := by
  intro xs xs' h
  induction h with
  | nil =>
    intro ys ys' h h'
    rw [← Except.ok.inj h, ← Except.ok.inj h']
    exact List.Forall₂.nil
  | cons hr _ ih =>
    intro ys ys' h h'
    obtain ⟨y, zs, hy, hzs, rfl⟩ := mapM_cons_ok.mp h
    obtain ⟨y', zs', hy', hzs', rfl⟩ := mapM_cons_ok.mp h'
    exact List.Forall₂.cons (hstep _ _ y y' hr hy hy') (ih hzs hzs')

end ControlPlane.Lib.Loops
