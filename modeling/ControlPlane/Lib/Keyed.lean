import Mathlib.Data.List.Dedup
import Mathlib.Data.List.Perm.Basic

/-! # Lists without repeated keys

`Distinct key xs ys`: the list `ys` has, for each key of `xs`, exactly one of the elements of `xs` with it.
Its length is the number of keys (`Distinct.length`), whatever its order. -/

namespace ControlPlane.Lib.Keyed

variable {α κ : Type} (key : α → κ)

structure Distinct (xs ys : List α) : Prop where
  subset : ∀ y ∈ ys, y ∈ xs
  nodup : (ys.map key).Nodup
  keys : ∀ x ∈ xs, key x ∈ ys.map key

/-- The first elements of such a list. -/
structure Limited [DecidableEq κ] (limit : ℕ) (xs ys : List α) : Prop where
  subset : ∀ y ∈ ys, y ∈ xs
  nodup : (ys.map key).Nodup
  length : ys.length = min limit (xs.map key).dedup.length

variable {key} {xs ys zs : List α}

theorem Distinct.length [DecidableEq κ] (h : Distinct key xs ys) : ys.length = (xs.map key).dedup.length := by
  have hperm : (ys.map key).Perm (xs.map key).dedup := by
    refine (List.perm_ext_iff_of_nodup h.nodup (List.nodup_dedup _)).mpr fun k => ?_
    rw [List.mem_dedup]
    constructor
    · intro hk
      obtain ⟨y, hy, rfl⟩ := List.mem_map.mp hk
      exact List.mem_map_of_mem (h.subset y hy)
    · intro hk
      obtain ⟨x, hx, rfl⟩ := List.mem_map.mp hk
      exact h.keys x hx
  rw [← hperm.length_eq, List.length_map]

theorem Distinct.perm (h : Distinct key xs ys) (hp : zs.Perm ys) : Distinct key xs zs :=
  ⟨fun z hz => h.subset z (hp.subset hz), (hp.map key).nodup_iff.mpr h.nodup,
    fun x hx => (hp.map key).symm.subset (h.keys x hx)⟩

/-- What has the same elements as `xs` has the same keys. -/
theorem Distinct.congr {ws : List α} (h : Distinct key xs ys) (hs : ∀ x ∈ xs, x ∈ ws)
    (hk : ∀ w ∈ ws, key w ∈ xs.map key) : Distinct key ws ys := by
  refine ⟨fun y hy => hs y (h.subset y hy), h.nodup, fun w hw => ?_⟩
  obtain ⟨x, hx, he⟩ := List.mem_map.mp (hk w hw)
  rw [← he]
  exact h.keys x hx

theorem Distinct.limited [DecidableEq κ] (h : Distinct key xs ys) {limit : ℕ} (hs : zs.Sublist ys)
    (hlen : zs.length = min limit ys.length) : Limited key limit xs zs :=
  ⟨fun z hz => h.subset z (hs.subset hz), h.nodup.sublist (hs.map key), by rw [hlen, h.length]⟩

theorem Distinct.take [DecidableEq κ] (h : Distinct key xs ys) (limit : ℕ) : Limited key limit xs (ys.take limit) :=
  h.limited (List.take_sublist limit ys) List.length_take

/-! ### Taking an element out -/

/-- The first element with the key of `x` is `x`, if keys are not repeated. -/
theorem perm_eraseP [DecidableEq κ] : ∀ {xs : List α} {x : α}, (xs.map key).Nodup → x ∈ xs →
    xs.Perm (x :: xs.eraseP fun y => decide (key y = key x))
  | [], _, _, h => by cases h
  | y :: xs, x, hn, h => by
    rw [List.map_cons, List.nodup_cons] at hn
    by_cases hk : key y = key x
    · rcases List.mem_cons.mp h with rfl | h
      · rw [List.eraseP_cons_of_pos (by simp)]
      · exact absurd (hk ▸ List.mem_map_of_mem h) hn.1
    · have hx : x ∈ xs := (List.mem_cons.mp h).resolve_left fun he => hk (congrArg key he.symm)
      rw [List.eraseP_cons_of_neg (by simpa using hk)]
      exact ((perm_eraseP hn.2 hx).cons y).trans (List.Perm.swap x y _)

/-! ### New keys -/

/-- The first elements whose keys were not seen before, at most `limit` of them. -/
def firstNew [DecidableEq κ] (key : α → κ) (limit : ℕ) (seen : List κ) : List α → List α
  | [] => []
  | x :: xs =>
    if key x ∈ seen ∨ limit = 0 then firstNew key limit seen xs
    else x :: firstNew key (limit - 1) (key x :: seen) xs

theorem firstNew_sublist [DecidableEq κ] (key : α → κ) (limit : ℕ) (seen : List κ) (xs : List α) :
    (firstNew key limit seen xs).Sublist xs := by
  induction xs generalizing limit seen with
  | nil => exact List.Sublist.slnil
  | cons x xs ih =>
    rw [firstNew]
    split_ifs
    · exact (ih limit seen).cons x
    · exact (ih (limit - 1) (key x :: seen)).cons_cons x

theorem length_firstNew_le [DecidableEq κ] (key : α → κ) (limit : ℕ) (seen : List κ) (xs : List α) :
    (firstNew key limit seen xs).length ≤ limit := by
  induction xs generalizing limit seen with
  | nil => exact Nat.zero_le limit
  | cons x xs ih =>
    rw [firstNew]
    split_ifs with h
    · exact ih limit seen
    · have hle := ih (limit - 1) (key x :: seen)
      rw [not_or] at h
      rw [List.length_cons]
      omega

/-- Their keys are new and not repeated. -/
theorem firstNew_new [DecidableEq κ] (key : α → κ) (limit : ℕ) (seen : List κ) (xs : List α) :
    ((firstNew key limit seen xs).map key).Nodup ∧ ∀ k ∈ (firstNew key limit seen xs).map key, k ∉ seen := by
  induction xs generalizing limit seen with
  | nil => exact ⟨List.nodup_nil, fun _ hk => absurd hk List.not_mem_nil⟩
  | cons x xs ih =>
    rw [firstNew]
    split_ifs with h
    · exact ih limit seen
    · obtain ⟨hnodup, hnew⟩ := ih (limit - 1) (key x :: seen)
      rw [List.map_cons, List.nodup_cons]
      refine ⟨⟨fun hmem => hnew _ hmem List.mem_cons_self, hnodup⟩, fun k hk => ?_⟩
      rcases List.mem_cons.mp hk with rfl | hk
      · exact fun hseen => h (Or.inl hseen)
      · exact fun hseen => hnew k hk (List.mem_cons_of_mem _ hseen)

/-! ### Filters -/

/-- A weaker filter keeps as many elements if and only if it keeps no other. -/
theorem length_filter_eq_iff {p q : α → Bool} (h : ∀ x ∈ xs, p x = true → q x = true) :
    (xs.filter p).length = (xs.filter q).length ↔ ∀ x ∈ xs, q x = true → p x = true := by
  have hboth : xs.filter p = (xs.filter q).filter p := by
    rw [List.filter_filter]
    refine List.filter_congr fun x hx => ?_
    cases hp : p x with
    | false => rfl
    | true => rw [h x hx hp, Bool.true_and]
  rw [hboth, List.length_filter_eq_length_iff]
  refine forall_congr' fun x => ?_
  rw [List.mem_filter, and_imp]

/-- A filter gives an element for each if and only if it drops none and changes each as told. -/
theorem filterMap_eq_map_iff {β : Type} {f : α → Option β} {g : α → β} :
    xs.filterMap f = xs.map g ↔ ∀ x ∈ xs, f x = some (g x) := by
  induction xs with
  | nil => simp
  | cons x xs ih =>
    rw [List.forall_mem_cons, ← ih, List.map_cons]
    cases hf : f x with
    | none =>
      rw [List.filterMap_cons_none hf]
      constructor
      · intro h
        have hlength := congrArg List.length h
        have hle := List.length_filterMap_le f xs
        rw [List.length_cons, List.length_map] at hlength
        omega
      · exact fun h => absurd h.1 (by simp)
    | some y => rw [List.filterMap_cons_some hf, List.cons_eq_cons, Option.some_inj]

/-- What was chosen and what was not, together. -/
theorem perm_append_filter {p : α → Bool} (hp : ∀ x, p x = true ↔ x ∉ ys) (hxs : xs.Nodup) (hys : ys.Nodup)
    (h : ∀ y ∈ ys, y ∈ xs) : (ys ++ xs.filter p).Perm xs := by
  have hnodup : (ys ++ xs.filter p).Nodup :=
    List.Nodup.append hys (hxs.filter _) fun y hy hmem => (hp y).mp (List.mem_filter.mp hmem).2 hy
  refine (List.perm_ext_iff_of_nodup hnodup hxs).mpr fun x => ?_
  rw [List.mem_append, List.mem_filter, hp]
  constructor
  · exact fun hx => hx.elim (h x) And.left
  · intro hx
    by_cases hy : x ∈ ys
    · exact Or.inl hy
    · exact Or.inr ⟨hx, hy⟩

end ControlPlane.Lib.Keyed
