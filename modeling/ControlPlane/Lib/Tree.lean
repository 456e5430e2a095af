import ControlPlane.Lib.Value
import Mathlib

/-! # The shape of a value

How many values a JSON tree holds (`size`), how deep it is (`height`), which entries stand in objects
anywhere in it (`entries`) and which values in it are no containers (`leaves`).

None of them sees the order of keys (`size_sortKeys`, `height_sortKeys`, `mem_entries_sortKeys`,
`mem_leaves_sortKeys`). -/

namespace ControlPlane.Lib.Tree

open ControlPlane.Lib.Value

variable {F : Type}

mutual
/-- The number of values in a value, itself included. -/
def size : Json F → ℕ
  | .arr xs => sizeList xs + 1
  | .obj d => sizeDict d + 1
  | _ => 1
/-- The number of values in the elements of an array. -/
def sizeList : List (Json F) → ℕ
  | [] => 0
  | x :: xs => size x + sizeList xs
/-- The number of values in the entries of an object. -/
def sizeDict : Dict F → ℕ
  | [] => 0
  | (_, x) :: d => size x + sizeDict d
end

mutual
/-- How many containers are around the deepest value. -/
def height : Json F → ℕ
  | .arr xs => heightList xs
  | .obj d => heightDict d
  | _ => 0
/-- The height of an array with some elements. -/
def heightList : List (Json F) → ℕ
  | [] => 0
  | x :: xs => max (height x + 1) (heightList xs)
/-- The height of an object with some entries. -/
def heightDict : Dict F → ℕ
  | [] => 0
  | (_, x) :: d => max (height x + 1) (heightDict d)
end

mutual
/-- The entries of all objects in a value. -/
def entries : Json F → Dict F
  | .arr xs => entriesList xs
  | .obj d => entriesDict d
  | _ => []
/-- The entries of all objects in the elements of an array. -/
def entriesList : List (Json F) → Dict F
  | [] => []
  | x :: xs => entries x ++ entriesList xs
/-- The entries of an object and those in their values. -/
def entriesDict : Dict F → Dict F
  | [] => []
  | (k, x) :: d => (k, x) :: (entries x ++ entriesDict d)
end

mutual
/-- The values in a value that are neither arrays nor objects. -/
def leaves : Json F → List (Json F)
  | .arr xs => leavesList xs
  | .obj d => leavesDict d
  | v => [v]
/-- The leaves of the elements of an array. -/
def leavesList : List (Json F) → List (Json F)
  | [] => []
  | x :: xs => leaves x ++ leavesList xs
/-- The leaves of the values of an object. -/
def leavesDict : Dict F → List (Json F)
  | [] => []
  | (_, x) :: d => leaves x ++ leavesDict d
end

/-! ### Arrays and objects -/

theorem size_arr (xs : List (Json F)) : size (.arr xs) = (xs.map size).sum + 1 := by
  rw [size]
  congr 1
  induction xs with
  | nil => rfl
  | cons x xs ih => rw [sizeList, ih, List.map_cons, List.sum_cons]

theorem size_obj (d : Dict F) : size (.obj d) = (d.map fun p => size p.2).sum + 1 := by
  rw [size]
  congr 1
  induction d with
  | nil => rfl
  | cons p d ih => rw [sizeDict, ih, List.map_cons, List.sum_cons]

theorem size_pos (v : Json F) : 0 < size v := by
  cases v <;> simp [size]

/-- A list of values is not longer than the values in it are many. -/
theorem length_le_sum {α : Type} {f : α → ℕ} (hf : ∀ a, 0 < f a) :
    ∀ xs : List α, xs.length ≤ (xs.map f).sum
  | [] => le_rfl
  | x :: xs => by
    have h1 := hf x
    have h2 := length_le_sum hf xs
    rw [List.length_cons, List.map_cons, List.sum_cons]
    omega

theorem height_arr_le {xs : List (Json F)} {m : ℕ} :
    height (.arr xs) ≤ m ↔ ∀ x ∈ xs, height x + 1 ≤ m := by
  rw [height]
  induction xs with
  | nil => simp [heightList]
  | cons x xs ih => rw [heightList, max_le_iff, ih, List.forall_mem_cons]

theorem height_obj_le {d : Dict F} {m : ℕ} :
    height (.obj d) ≤ m ↔ ∀ p ∈ d, height p.2 + 1 ≤ m := by
  rw [height]
  induction d with
  | nil => simp [heightDict]
  | cons p d ih => rw [heightDict, max_le_iff, ih, List.forall_mem_cons]

theorem mem_entries_arr {xs : List (Json F)} {e : String × Json F} :
    e ∈ entries (.arr xs) ↔ ∃ x ∈ xs, e ∈ entries x := by
  rw [entries]
  induction xs with
  | nil => simp [entriesList]
  | cons x xs ih => rw [entriesList, List.mem_append, ih, List.exists_mem_cons_iff]

theorem mem_entries_obj {d : Dict F} {e : String × Json F} :
    e ∈ entries (.obj d) ↔ ∃ p ∈ d, e = p ∨ e ∈ entries p.2 := by
  rw [entries]
  induction d with
  | nil => simp [entriesDict]
  | cons p d ih =>
    rw [entriesDict, List.mem_cons, List.mem_append, ih, List.exists_mem_cons_iff, or_assoc]

theorem mem_leaves_arr {xs : List (Json F)} {v : Json F} :
    v ∈ leaves (.arr xs) ↔ ∃ x ∈ xs, v ∈ leaves x := by
  rw [leaves]
  induction xs with
  | nil => simp [leavesList]
  | cons x xs ih => rw [leavesList, List.mem_append, ih, List.exists_mem_cons_iff]

theorem mem_leaves_obj {d : Dict F} {v : Json F} :
    v ∈ leaves (.obj d) ↔ ∃ p ∈ d, v ∈ leaves p.2 := by
  rw [leaves]
  induction d with
  | nil => simp [leavesDict]
  | cons p d ih => rw [leavesDict, List.mem_append, ih, List.exists_mem_cons_iff]

/-! ### The order of keys -/

/-- The entries of an object, after sorting it. -/
theorem mem_sortDict {d : Dict F} {q : String × Json F} :
    q ∈ sortDict d ↔ ∃ p ∈ d, (p.1, sortKeys p.2) = q := by
  rw [sortDict, (perm_sortPairs _).mem_iff, List.mem_map]

theorem size_sortKeys (v : Json F) : size (sortKeys v) = size v := by
  induction v using Json.induct with
  | arr xs ih =>
    rw [sortKeys_arr, size_arr, size_arr, List.map_map]
    congr 2
    exact List.map_congr_left fun x hx => ih x hx
  | obj d ih =>
    have hp := ((perm_sortPairs (d.map fun p => (p.1, sortKeys p.2))).map fun p => size p.2).sum_eq
    rw [sortKeys_obj, size_obj, size_obj, hp, List.map_map]
    congr 2
    exact List.map_congr_left fun p hp => ih p hp
  | _ => rfl

theorem height_sortKeys (v : Json F) : height (sortKeys v) = height v := by
  induction v using Json.induct with
  | arr xs ih =>
    refine eq_of_forall_ge_iff fun m => ?_
    rw [sortKeys_arr, height_arr_le, height_arr_le, List.forall_mem_map]
    exact forall₂_congr fun x hx => by rw [ih x hx]
  | obj d ih =>
    refine eq_of_forall_ge_iff fun m => ?_
    rw [sortKeys_obj', height_obj_le, height_obj_le]
    constructor
    · intro h p hp
      rw [← ih p hp]
      exact h _ (mem_sortDict.mpr ⟨p, hp, rfl⟩)
    · intro h q hq
      obtain ⟨p, hp, rfl⟩ := mem_sortDict.mp hq
      rw [ih p hp]
      exact h p hp
  | _ => rfl

theorem mem_entries_sortKeys {v : Json F} {e : String × Json F} :
    e ∈ entries (sortKeys v) ↔ ∃ p ∈ entries v, (p.1, sortKeys p.2) = e := by
  induction v using Json.induct with
  | arr xs ih =>
    rw [sortKeys_arr, mem_entries_arr]
    simp only [mem_entries_arr]
    constructor
    · rintro ⟨y, hy, he⟩
      obtain ⟨x, hx, rfl⟩ := List.mem_map.mp hy
      obtain ⟨p, hp, rfl⟩ := (ih x hx).mp he
      exact ⟨p, ⟨x, hx, hp⟩, rfl⟩
    · rintro ⟨p, ⟨x, hx, hp⟩, rfl⟩
      exact ⟨sortKeys x, List.mem_map_of_mem hx, (ih x hx).mpr ⟨p, hp, rfl⟩⟩
  | obj d ih =>
    rw [sortKeys_obj', mem_entries_obj]
    simp only [mem_entries_obj, mem_sortDict]
    constructor
    · rintro ⟨q, ⟨p, hp, rfl⟩, rfl | he⟩
      · exact ⟨p, ⟨p, hp, Or.inl rfl⟩, rfl⟩
      · obtain ⟨r, hr, rfl⟩ := (ih p hp).mp he
        exact ⟨r, ⟨p, hp, Or.inr hr⟩, rfl⟩
    · rintro ⟨r, ⟨p, hp, rfl | hr⟩, rfl⟩
      · exact ⟨_, ⟨r, hp, rfl⟩, Or.inl rfl⟩
      · exact ⟨_, ⟨p, hp, rfl⟩, Or.inr ((ih p hp).mpr ⟨r, hr, rfl⟩)⟩
  | _ => simp [entries]

theorem mem_leaves_sortKeys {v w : Json F} : w ∈ leaves (sortKeys v) ↔ w ∈ leaves v := by
  induction v using Json.induct with
  | arr xs ih =>
    rw [sortKeys_arr, mem_leaves_arr, mem_leaves_arr]
    constructor
    · rintro ⟨y, hy, hw⟩
      obtain ⟨x, hx, rfl⟩ := List.mem_map.mp hy
      exact ⟨x, hx, (ih x hx).mp hw⟩
    · rintro ⟨x, hx, hw⟩
      exact ⟨sortKeys x, List.mem_map_of_mem hx, (ih x hx).mpr hw⟩
  | obj d ih =>
    rw [sortKeys_obj', mem_leaves_obj, mem_leaves_obj]
    constructor
    · rintro ⟨q, hq, hw⟩
      obtain ⟨p, hp, rfl⟩ := mem_sortDict.mp hq
      exact ⟨p, hp, (ih p hp).mp hw⟩
    · rintro ⟨p, hp, hw⟩
      exact ⟨_, mem_sortDict.mpr ⟨p, hp, rfl⟩, (ih p hp).mpr hw⟩
  | _ => simp

end ControlPlane.Lib.Tree
