import ControlPlane.Lib.Dumps
import ControlPlane.Lib.Floats

/-! # Objects with keys of other types

The dictionaries of a program may have numbers, Booleans or nothing as keys. Such a dictionary is written as
an object in which each key is a text, and with its entries in the order of the keys, which need not be that of
their texts (`Val.json`). If it is, at every depth (`Aligned`), the object is well formed and sorting its keys
changes nothing (`aligned_json`). -/

namespace ControlPlane.Lib.Objects

open ControlPlane.Lib.Value ControlPlane.Lib.Print ControlPlane.Lib.Floats ControlPlane.Lib.Dumps

/-! ### Values -/

/-- The keys of dictionaries that can be written. -/
inductive ObjKey (F : Type) where
  | str (s : String)
  | int (n : ℤ)
  | float (x : F)
  | bool (b : Bool)
  | none

/-- Values with dictionaries; tuples are lists. -/
inductive Val (F : Type) where
  | null
  | bool (b : Bool)
  | int (n : ℤ)
  | float (x : F)
  | str (s : String)
  | list (xs : List (Val F))
  | dict (d : List (ObjKey F × Val F))

variable {F : Type} (T : FloatSys F)

/-- The number a key is, if it is one. -/
def ObjKey.num : ObjKey F → Option Num
  | .int n => some (.fin n)
  | .float x => some (T.view x)
  | .bool b => some (.fin (if b then 1 else 0))
  | _ => Option.none

/-- The text that a key is written as. -/
def ObjKey.text : ObjKey F → String
  | .str s => s
  | .int n => String.ofList (printInt n)
  | .float x => String.ofList (T.write x)
  | .bool b => if b then "true" else "false"
  | .none => "null"

/-- `k < l`, between two texts or two numbers. -/
def ObjKey.lt (k l : ObjKey F) : Bool :=
  match k, l with
  | .str s, .str t => decide (s < t)
  | _, _ => match k.num T, l.num T with
    | some x, some y => x.lt y
    | _, _ => false

def ObjKey.isStr : ObjKey F → Bool
  | .str _ => true
  | _ => false

/-- Keys can be sorted if there is one, or if all are texts, or all numbers. -/
def sortable (ks : List (ObjKey F)) : Bool :=
  decide (ks.length ≤ 1) || ks.all ObjKey.isStr || ks.all fun k => (k.num T).isSome

/-- An integer key has a text. -/
def ObjKey.printable : ObjKey F → Bool
  | .int n => decide (n.natAbs < 10 ^ maxDigits)
  | _ => true

/-! ### Writing -/

/-- The entries of a dictionary in the order of its keys. -/
def sortEntries (entries : List (ObjKey F × Json F)) : Dict F :=
  (entries.insertionSort fun p q => q.1.lt T p.1 = false).map fun p => (p.1.text T, p.2)

mutual
/-- A value as it is written with sorted keys. -/
def Val.json : Val F → Json F
  | .null => .null
  | .bool b => .bool b
  | .int n => .int n
  | .float x => .float x
  | .str s => .str s
  | .list xs => .arr (jsonList xs)
  | .dict d => .obj (sortEntries T (jsonEntries d))
def jsonList : List (Val F) → List (Json F)
  | [] => []
  | x :: xs => x.json :: jsonList xs
def jsonEntries : List (ObjKey F × Val F) → List (ObjKey F × Json F)
  | [] => []
  | (k, x) :: d => (k, x.json) :: jsonEntries d
end

mutual
/-- The keys of all dictionaries in a value can be sorted and written. -/
def Val.writable : Val F → Bool
  | .list xs => writableList xs
  | .dict d => sortable T (d.map Prod.fst) && writableEntries d
  | _ => true
def writableList : List (Val F) → Bool
  | [] => true
  | x :: xs => x.writable && writableList xs
def writableEntries : List (ObjKey F × Val F) → Bool
  | [] => true
  | (k, x) :: d => k.printable && x.writable && writableEntries d
end

mutual
/-- The order of the keys of each dictionary in a value is that of their texts, and no text is there twice. -/
def Val.aligned : Val F → Bool
  | .list xs => alignedList xs
  | .dict d => decide ((keys (sortEntries T (jsonEntries T d))).Pairwise (· < ·)) && alignedEntries d
  | _ => true
def alignedList : List (Val F) → Bool
  | [] => true
  | x :: xs => x.aligned && alignedList xs
def alignedEntries : List (ObjKey F × Val F) → Bool
  | [] => true
  | (_, x) :: d => x.aligned && alignedEntries d
end

/-! ### Aligned values -/

/-- The value is well formed and its keys are sorted. -/
structure Tidy (v : Json F) : Prop where
  wellFormed : wellFormed v = true
  sorted : sortKeys v = v

theorem tidy_arr {xs : List (Json F)} (h : ∀ x ∈ xs, Tidy x) : Tidy (.arr xs) := by
  refine ⟨(wellFormed_arr xs).mpr fun x hx => (h x hx).wellFormed, ?_⟩
  rw [sortKeys_arr]
  exact congrArg _ ((List.map_congr_left fun x hx => (h x hx).sorted).trans (List.map_id xs))

theorem tidy_obj {d : Dict F} (hkeys : (keys d).Pairwise (· < ·)) (h : ∀ p ∈ d, Tidy p.2) :
    Tidy (.obj d) := by
  refine ⟨(wellFormed_obj d).mpr ⟨hkeys.imp fun hlt => ne_of_lt hlt, fun p hp => (h p hp).wellFormed⟩, ?_⟩
  have hmap : (d.map fun p => (p.1, sortKeys p.2)) = d := by
    refine (List.map_congr_left fun p hp => ?_).trans (List.map_id d)
    rw [(h p hp).sorted]
    rfl
  rw [sortKeys_obj, hmap, sortPairs_of_sorted ((List.pairwise_map.mp hkeys).imp fun hlt => le_of_lt hlt)]

theorem mem_sortEntries {entries : List (ObjKey F × Json F)} {p : String × Json F}
    (h : p ∈ sortEntries T entries) : ∃ e ∈ entries, p.2 = e.2 := by
  obtain ⟨e, he, rfl⟩ := List.mem_map.mp h
  exact ⟨e, (List.perm_insertionSort _ _).mem_iff.mp he, rfl⟩

mutual
/-- **An aligned value is written with sorted keys.** -/
theorem aligned_json : ∀ v : Val F, v.aligned T = true → Tidy (v.json T)
  | .null, _ => ⟨rfl, rfl⟩
  | .bool _, _ => ⟨rfl, rfl⟩
  | .int _, _ => ⟨rfl, rfl⟩
  | .float _, _ => ⟨rfl, rfl⟩
  | .str _, _ => ⟨rfl, rfl⟩
  | .list xs, h => by
    rw [Val.aligned] at h
    exact tidy_arr (aligned_jsonList xs h)
  | .dict d, h => by
    rw [Val.aligned, Bool.and_eq_true, decide_eq_true_eq] at h
    refine tidy_obj h.1 fun p hp => ?_
    obtain ⟨e, he, hp⟩ := mem_sortEntries T hp
    rw [hp]
    exact aligned_jsonEntries d h.2 e he
theorem aligned_jsonList : ∀ xs : List (Val F), alignedList T xs = true → ∀ x ∈ jsonList T xs, Tidy x
  | [], _ => by simp [jsonList]
  | x :: xs, h => by
    rw [alignedList, Bool.and_eq_true] at h
    rw [jsonList, List.forall_mem_cons]
    exact ⟨aligned_json x h.1, aligned_jsonList xs h.2⟩
theorem aligned_jsonEntries : ∀ d : List (ObjKey F × Val F), alignedEntries T d = true →
    ∀ p ∈ jsonEntries T d, Tidy p.2
  | [], _ => by simp [jsonEntries]
  | (k, x) :: d, h => by
    rw [alignedEntries, Bool.and_eq_true] at h
    rw [jsonEntries, List.forall_mem_cons]
    exact ⟨aligned_json x h.1, aligned_jsonEntries d h.2⟩
end

end ControlPlane.Lib.Objects
