import ControlPlane.Environment
import ControlPlane.Lib.Tree
import Mathlib.Data.Finset.Lattice.Lemmas

/-! # The parameters of an action

A model proposes an action with parameters: a tree of mappings and sequences. Two functions go through
it, each with a budget of nodes that it passes along: `canonicalValue` makes the JSON value that the
digest of the request is made of, `walk` looks at the entry at every key, at any depth, and collects the
repositories it finds.

`canonicalValue_eq_ok` says which trees the first accepts and `walk_eq_ok` what the second asks of these:
that every entry is granted (`Granted`). The budgets are not seen in the second, since the tree is
within them if the first accepts it. -/

namespace ControlPlane.Gate.Parameters

open ControlPlane.Lib.Value ControlPlane.Lib.Text ControlPlane.Lib.Dynamic ControlPlane.Lib.Tree
open ControlPlane.Environment

/-! ### Parameters -/

/-- A key of a mapping. -/
inductive ParamKey where
  | str (s : String)
  /-- A key that is no string. -/
  | other
  deriving DecidableEq

/-- A parameter. -/
inductive Param (F : Type) where
  | null
  | bool (b : Bool)
  | int (n : ℤ)
  | float (x : F)
  | str (s : String)
  /-- A list or a tuple. -/
  | seq (tuple : Bool) (xs : List (Param F))
  | map (es : List (ParamKey × Param F))
  /-- A value of another type. -/
  | other (typeName : String)

/-- The entries of a mapping. -/
abbrev Entries (F : Type) := List (ParamKey × Param F)

variable {F : Type}

def ParamKey.str? : ParamKey → Option String
  | .str s => some s
  | .other => none

mutual
/-- The JSON value that a parameter is, if it is one: of lists and tuples it is an array. -/
def json? : Param F → Option (Json F)
  | .null => some .null
  | .bool b => some (.bool b)
  | .int n => some (.int n)
  | .float x => some (.float x)
  | .str s => some (.str s)
  | .seq _ xs => (jsonList? xs).map .arr
  | .map es => (jsonDict? es).map .obj
  | .other _ => none
/-- The JSON values of the elements of a sequence. -/
def jsonList? : List (Param F) → Option (List (Json F))
  | [] => some []
  | x :: xs => do return (← json? x) :: (← jsonList? xs)
/-- The JSON values of the entries of a mapping. -/
def jsonDict? : Entries F → Option (Dict F)
  | [] => some []
  | (k, x) :: es => do return (← k.str?, ← json? x) :: (← jsonDict? es)
end

/-- No mapping has a string twice among its keys. -/
def distinct (es : Entries F) : Prop := ∀ d, jsonDict? es = some d → wellFormed (.obj d) = true

/-! ### Limits -/

def maxParameterDepth : ℕ := 6
def maxParameterNodes : ℕ := 256
def maxParameterStringChars : ℕ := 4096

/-- The exceptions of `canonicalValue`. -/
inductive ParameterError where
  | budgetError (msg : String)
  | valueError (msg : String)
  deriving DecidableEq

variable (E : Env F)

mutual
/-- The JSON value of a parameter, and how many nodes have been counted with it. -/
def canonicalValue (value : Param F) (depth budget : ℕ) : Except ParameterError (Json F × ℕ) :=
  if budget + 1 > maxParameterNodes ∨ depth > maxParameterDepth then
    .error (.budgetError "action parameters exceed structural budget")
  else match value with
    | .null => .ok (.null, budget + 1)
    | .bool b => .ok (.bool b, budget + 1)
    | .int n => .ok (.int n, budget + 1)
    | .str s =>
      if s.length > maxParameterStringChars then
        .error (.budgetError "action parameter string is too large")
      else .ok (.str s, budget + 1)
    | .float x =>
      if E.T.finite x then .ok (.float x, budget + 1)
      else .error (.valueError "action parameters must contain finite numbers")
    | .map es =>
      if es.length > maxParameterNodes then
        .error (.budgetError "action parameter mapping is too large")
      else do
        let (d, budget) ← canonicalEntries es depth (budget + 1)
        return (.obj d, budget)
    | .seq _ xs =>
      if xs.length > maxParameterNodes then
        .error (.budgetError "action parameter sequence is too large")
      else do
        let (xs, budget) ← canonicalItems xs depth (budget + 1)
        return (.arr xs, budget)
    | .other name => .error (.valueError ("unsupported action parameter type: " ++ name))
/-- The loop over the entries of a mapping. -/
def canonicalEntries (es : Entries F) (depth budget : ℕ) : Except ParameterError (Dict F × ℕ) :=
  match es with
  | [] => .ok ([], budget)
  | (key, value) :: es =>
    match key with
    | .str k =>
      if k = "" ∨ k.length > 128 then
        .error (.valueError "action parameter keys must be bounded non-empty strings")
      else do
        let (x, budget) ← canonicalValue value (depth + 1) budget
        let (d, budget) ← canonicalEntries es depth budget
        return ((k, x) :: d, budget)
    | .other => .error (.valueError "action parameter keys must be bounded non-empty strings")
/-- The loop over the elements of a sequence. -/
def canonicalItems (xs : List (Param F)) (depth budget : ℕ) :
    Except ParameterError (List (Json F) × ℕ) :=
  match xs with
  | [] => .ok ([], budget)
  | value :: xs => do
    let (x, budget) ← canonicalValue value (depth + 1) budget
    let (ys, budget) ← canonicalItems xs depth budget
    return (x :: ys, budget)
end

/-! ### Which parameters are accepted -/

/-- What is asked of a leaf: a float is finite, a string is not too long. -/
def LeafOk : Json F → Prop
  | .float x => E.T.finite x = true
  | .str s => s.length ≤ maxParameterStringChars
  | _ => True

/-- What is asked of a value apart from its size. -/
structure Clean (j : Json F) : Prop where
  leaves : ∀ v ∈ leaves j, LeafOk E v
  keys : ∀ e ∈ entries j, e.1 ≠ "" ∧ e.1.length ≤ 128

variable {E}

theorem clean_leaf {j : Json F} (hl : leaves j = [j]) (he : entries j = []) (h : LeafOk E j) :
    Clean E j := by
  constructor
  · intro v hv
    rw [hl, List.mem_singleton] at hv
    exact hv ▸ h
  · intro e hm
    rw [he] at hm
    cases hm

theorem clean_arr {xs : List (Json F)} : Clean E (.arr xs) ↔ ∀ x ∈ xs, Clean E x := by
  constructor
  · intro h x hx
    exact ⟨fun v hv => h.leaves v (mem_leaves_arr.mpr ⟨x, hx, hv⟩),
      fun e he => h.keys e (mem_entries_arr.mpr ⟨x, hx, he⟩)⟩
  · intro h
    constructor
    · intro v hv
      obtain ⟨x, hx, hv⟩ := mem_leaves_arr.mp hv
      exact (h x hx).leaves v hv
    · intro e he
      obtain ⟨x, hx, he⟩ := mem_entries_arr.mp he
      exact (h x hx).keys e he

theorem clean_obj {d : Dict F} :
    Clean E (.obj d) ↔ ∀ p ∈ d, (p.1 ≠ "" ∧ p.1.length ≤ 128) ∧ Clean E p.2 := by
  constructor
  · intro h p hp
    exact ⟨h.keys p (mem_entries_obj.mpr ⟨p, hp, Or.inl rfl⟩),
      fun v hv => h.leaves v (mem_leaves_obj.mpr ⟨p, hp, hv⟩),
      fun e he => h.keys e (mem_entries_obj.mpr ⟨p, hp, Or.inr he⟩)⟩
  · intro h
    constructor
    · intro v hv
      obtain ⟨p, hp, hv⟩ := mem_leaves_obj.mp hv
      exact (h p hp).2.leaves v hv
    · intro e he
      obtain ⟨p, hp, rfl | he⟩ := mem_entries_obj.mp he
      · exact (h e hp).1
      · exact (h p hp).2.keys e he

/-- A value fits at a depth behind a number of counted nodes. -/
structure Fits (E : Env F) (j : Json F) (depth budget : ℕ) : Prop where
  clean : Clean E j
  deep : depth + height j ≤ maxParameterDepth
  wide : budget + size j ≤ maxParameterNodes

theorem length_jsonList? : ∀ {xs : List (Param F)} {ys : List (Json F)},
    jsonList? xs = some ys → xs.length = ys.length
  | [], ys, h => by
    cases h
    rfl
  | x :: xs, ys, h => by
    rw [jsonList?] at h
    obtain ⟨y, -, h⟩ := Option.bind_eq_some_iff.mp h
    obtain ⟨zs, hzs, h⟩ := Option.bind_eq_some_iff.mp h
    cases h
    rw [List.length_cons, List.length_cons, length_jsonList? hzs]

theorem length_jsonDict? : ∀ {es : Entries F} {d : Dict F},
    jsonDict? es = some d → es.length = d.length
  | [], d, h => by
    cases h
    rfl
  | (k, x) :: es, d, h => by
    rw [jsonDict?] at h
    obtain ⟨l, -, h⟩ := Option.bind_eq_some_iff.mp h
    obtain ⟨y, -, h⟩ := Option.bind_eq_some_iff.mp h
    obtain ⟨e, he, h⟩ := Option.bind_eq_some_iff.mp h
    cases h
    rw [List.length_cons, List.length_cons, length_jsonDict? he]

/-- A value without values in it. -/
def IsLeaf (j : Json F) : Prop := leaves j = [j] ∧ entries j = [] ∧ size j = 1 ∧ height j = 0

theorem fits_leaf {j : Json F} (h : IsLeaf j) {depth budget : ℕ} :
    Fits E j depth budget ↔
      LeafOk E j ∧ depth ≤ maxParameterDepth ∧ budget + 1 ≤ maxParameterNodes := by
  obtain ⟨hl, he, hs, hh⟩ := h
  constructor
  · rintro ⟨hclean, hdeep, hwide⟩
    rw [hh] at hdeep
    rw [hs] at hwide
    exact ⟨hclean.leaves j (by rw [hl]; exact List.mem_singleton_self j), hdeep, hwide⟩
  · rintro ⟨hok, hdeep, hwide⟩
    exact ⟨clean_leaf hl he hok, by rwa [hh], by rwa [hs]⟩

/-- The walk at a leaf. -/
theorem leaf_eq_ok {x : Except ParameterError (Json F × ℕ)} {e : ParameterError} {l j : Json F}
    {depth budget after : ℕ} (h : IsLeaf l)
    (hx : x = .ok (j, after) ↔ LeafOk E l ∧ l = j ∧ budget + 1 = after) :
    (if budget + 1 > maxParameterNodes ∨ depth > maxParameterDepth then .error e else x) =
      .ok (j, after) ↔ some l = some j ∧ Fits E j depth budget ∧ after = budget + size j := by
  by_cases hover : budget + 1 > maxParameterNodes ∨ depth > maxParameterDepth
  · rw [if_pos hover]
    constructor
    · rintro ⟨⟩
    · rintro ⟨hl, hf, -⟩
      rw [← Option.some.inj hl, fits_leaf h] at hf
      omega
  · rw [if_neg hover, hx, Option.some.injEq]
    constructor
    · rintro ⟨hok, rfl, rfl⟩
      have := h.2.2.1
      exact ⟨rfl, (fits_leaf h).mpr ⟨hok, by omega, by omega⟩, by omega⟩
    · rintro ⟨rfl, hf, rfl⟩
      exact ⟨((fits_leaf h).mp hf).1, rfl, by rw [h.2.2.1]⟩

mutual
/-- **What the digest's walk accepts.** -/
theorem canonicalValue_eq_ok : ∀ {v : Param F} {depth budget after : ℕ} {j : Json F},
    canonicalValue E v depth budget = .ok (j, after) ↔
      json? v = some j ∧ Fits E j depth budget ∧ after = budget + size j
  | .null, depth, budget, after, j => by
    rw [canonicalValue, json?]
    exact leaf_eq_ok ⟨rfl, rfl, rfl, rfl⟩ (by simp [LeafOk])
  | .bool b, depth, budget, after, j => by
    rw [canonicalValue, json?]
    exact leaf_eq_ok ⟨rfl, rfl, rfl, rfl⟩ (by simp [LeafOk])
  | .int n, depth, budget, after, j => by
    rw [canonicalValue, json?]
    exact leaf_eq_ok ⟨rfl, rfl, rfl, rfl⟩ (by simp [LeafOk])
  | .float x, depth, budget, after, j => by
    rw [canonicalValue, json?]
    refine leaf_eq_ok ⟨rfl, rfl, rfl, rfl⟩ ?_
    by_cases hx : E.T.finite x = true <;> simp [LeafOk, hx]
  | .str s, depth, budget, after, j => by
    rw [canonicalValue, json?]
    refine leaf_eq_ok ⟨rfl, rfl, rfl, rfl⟩ ?_
    by_cases hs : s.length > maxParameterStringChars
    · simp [LeafOk, hs, not_le.mpr hs]
    · simp [LeafOk, hs, not_lt.mp hs]
  | .seq t xs, depth, budget, after, j => by
    rw [canonicalValue, json?]
    constructor
    · intro h
      split_ifs at h with hover hlong
      obtain ⟨⟨ys, b⟩, hitems, h⟩ := bind_eq_ok.mp h
      cases h
      obtain ⟨hys, hall, hsum, rfl⟩ := (canonicalItems_eq_ok (by omega)).mp hitems
      have hsize := size_arr ys
      refine ⟨by rw [hys]; rfl, ⟨clean_arr.mpr fun y hy => (hall y hy).1, ?_, by omega⟩, by omega⟩
      have hheight : height (.arr ys) ≤ maxParameterDepth - depth :=
        height_arr_le.mpr fun y hy => by have := (hall y hy).2; omega
      omega
    · rintro ⟨hj, hf, rfl⟩
      obtain ⟨ys, hys, rfl⟩ := Option.map_eq_some_iff.mp hj
      have hsize := size_arr ys
      have hwide := hf.wide
      have hdeep := hf.deep
      have hlength := length_le_sum size_pos ys
      have hitems : canonicalItems E xs depth (budget + 1) =
          .ok (ys, budget + 1 + (ys.map size).sum) := by
        refine (canonicalItems_eq_ok (by omega)).mpr ⟨hys, fun y hy => ?_, by omega, rfl⟩
        have := height_arr_le.mp le_rfl y hy
        exact ⟨clean_arr.mp hf.clean y hy, by omega⟩
      rw [if_neg (by omega), if_neg (by rw [length_jsonList? hys]; omega), hitems, hsize]
      show Except.ok _ = _
      rw [show budget + 1 + (ys.map size).sum = budget + ((ys.map size).sum + 1) by omega]
  | .map es, depth, budget, after, j => by
    rw [canonicalValue, json?]
    constructor
    · intro h
      split_ifs at h with hover hlong
      obtain ⟨⟨d, b⟩, hentries, h⟩ := bind_eq_ok.mp h
      cases h
      obtain ⟨hd, hall, hsum, rfl⟩ := (canonicalEntries_eq_ok (by omega)).mp hentries
      have hsize := size_obj d
      refine ⟨by rw [hd]; rfl,
        ⟨clean_obj.mpr fun p hp => ⟨(hall p hp).1, (hall p hp).2.1⟩, ?_, by omega⟩, by omega⟩
      have hheight : height (.obj d) ≤ maxParameterDepth - depth :=
        height_obj_le.mpr fun p hp => by have := (hall p hp).2.2; omega
      omega
    · rintro ⟨hj, hf, rfl⟩
      obtain ⟨d, hd, rfl⟩ := Option.map_eq_some_iff.mp hj
      have hsize := size_obj d
      have hwide := hf.wide
      have hdeep := hf.deep
      have hlength := length_le_sum (fun p : String × Json F => size_pos p.2) d
      have hentries : canonicalEntries E es depth (budget + 1) =
          .ok (d, budget + 1 + (d.map fun p => size p.2).sum) := by
        refine (canonicalEntries_eq_ok (by omega)).mpr ⟨hd, fun p hp => ?_, by omega, rfl⟩
        have := height_obj_le.mp le_rfl p hp
        exact ⟨(clean_obj.mp hf.clean p hp).1, (clean_obj.mp hf.clean p hp).2, by omega⟩
      rw [if_neg (by omega), if_neg (by rw [length_jsonDict? hd]; omega), hentries, hsize]
      show Except.ok _ = _
      rw [show budget + 1 + (d.map fun p => size p.2).sum =
        budget + ((d.map fun p => size p.2).sum + 1) by omega]
  | .other name, depth, budget, after, j => by
    rw [canonicalValue, json?]
    constructor
    · intro h
      split_ifs at h
    · rintro ⟨⟨⟩, -⟩
theorem canonicalItems_eq_ok : ∀ {xs : List (Param F)} {depth budget after : ℕ} {ys : List (Json F)},
    budget ≤ maxParameterNodes →
    (canonicalItems E xs depth budget = .ok (ys, after) ↔
      jsonList? xs = some ys ∧ (∀ y ∈ ys, Clean E y ∧ depth + 1 + height y ≤ maxParameterDepth) ∧
        budget + (ys.map size).sum ≤ maxParameterNodes ∧ after = budget + (ys.map size).sum)
  | [], depth, budget, after, ys, hb => by
    rw [canonicalItems, jsonList?]
    constructor
    · rintro ⟨⟩
      simpa using hb
    · rintro ⟨⟨⟩, -, -, rfl⟩
      rfl
  | x :: xs, depth, budget, after, ys, hb => by
    rw [canonicalItems, jsonList?]
    constructor
    · intro h
      obtain ⟨⟨y, b⟩, hx, h⟩ := bind_eq_ok.mp h
      obtain ⟨⟨zs, c⟩, hxs, h⟩ := bind_eq_ok.mp h
      cases h
      obtain ⟨hy, hf, rfl⟩ := canonicalValue_eq_ok.mp hx
      obtain ⟨hzs, hall, hsum, rfl⟩ := (canonicalItems_eq_ok hf.wide).mp hxs
      rw [List.map_cons, List.sum_cons]
      exact ⟨by rw [hy, hzs]; rfl, List.forall_mem_cons.mpr ⟨⟨hf.clean, hf.deep⟩, hall⟩, by omega,
        by omega⟩
    · rintro ⟨hj, hall, hsum, rfl⟩
      obtain ⟨y, hy, hj⟩ := Option.bind_eq_some_iff.mp hj
      obtain ⟨zs, hzs, hj⟩ := Option.bind_eq_some_iff.mp hj
      cases hj
      rw [List.map_cons, List.sum_cons] at hsum ⊢
      rw [List.forall_mem_cons] at hall
      have hx : canonicalValue E x (depth + 1) budget = .ok (y, budget + size y) :=
        canonicalValue_eq_ok.mpr ⟨hy, ⟨hall.1.1, hall.1.2, by omega⟩, rfl⟩
      have hxs : canonicalItems E xs depth (budget + size y) =
          .ok (zs, budget + size y + (zs.map size).sum) :=
        (canonicalItems_eq_ok (by omega)).mpr ⟨hzs, hall.2, by omega, rfl⟩
      refine bind_eq_ok.mpr ⟨_, hx, bind_eq_ok.mpr ⟨_, hxs, ?_⟩⟩
      rw [add_assoc]
      rfl
theorem canonicalEntries_eq_ok : ∀ {es : Entries F} {depth budget after : ℕ} {d : Dict F},
    budget ≤ maxParameterNodes →
    (canonicalEntries E es depth budget = .ok (d, after) ↔
      jsonDict? es = some d ∧
        (∀ p ∈ d, (p.1 ≠ "" ∧ p.1.length ≤ 128) ∧ Clean E p.2 ∧
          depth + 1 + height p.2 ≤ maxParameterDepth) ∧
        budget + (d.map fun p => size p.2).sum ≤ maxParameterNodes ∧
        after = budget + (d.map fun p => size p.2).sum)
  | [], depth, budget, after, d, hb => by
    rw [canonicalEntries, jsonDict?]
    constructor
    · rintro ⟨⟩
      simpa using hb
    · rintro ⟨⟨⟩, -, -, rfl⟩
      rfl
  | (.other, x) :: es, depth, budget, after, d, hb => by
    rw [canonicalEntries, jsonDict?]
    constructor
    · rintro ⟨⟩
    · rintro ⟨⟨⟩, -⟩
  | (.str k, x) :: es, depth, budget, after, d, hb => by
    rw [canonicalEntries, jsonDict?]
    dsimp only
    constructor
    · intro h
      split_ifs at h with hk
      obtain ⟨⟨y, b⟩, hx, h⟩ := bind_eq_ok.mp h
      obtain ⟨⟨e, c⟩, hes, h⟩ := bind_eq_ok.mp h
      cases h
      obtain ⟨hy, hf, rfl⟩ := canonicalValue_eq_ok.mp hx
      obtain ⟨he, hall, hsum, rfl⟩ := (canonicalEntries_eq_ok hf.wide).mp hes
      rw [not_or, not_lt] at hk
      rw [List.map_cons, List.sum_cons]
      dsimp only
      exact ⟨by rw [hy, he]; rfl, List.forall_mem_cons.mpr ⟨⟨hk, hf.clean, hf.deep⟩, hall⟩, by omega,
        by omega⟩
    · rintro ⟨hj, hall, hsum, rfl⟩
      obtain ⟨l, hl, hj⟩ := Option.bind_eq_some_iff.mp hj
      obtain ⟨y, hy, hj⟩ := Option.bind_eq_some_iff.mp hj
      obtain ⟨e, he, hj⟩ := Option.bind_eq_some_iff.mp hj
      cases hl
      cases hj
      rw [List.map_cons, List.sum_cons] at hsum ⊢
      dsimp only at hsum ⊢
      rw [List.forall_mem_cons] at hall
      obtain ⟨⟨hk, hclean, hdeep⟩, hall⟩ := hall
      have hx : canonicalValue E x (depth + 1) budget = .ok (y, budget + size y) :=
        canonicalValue_eq_ok.mpr ⟨hy, ⟨hclean, hdeep, by omega⟩, rfl⟩
      have hes : canonicalEntries E es depth (budget + size y) =
          .ok (e, budget + size y + (e.map fun p => size p.2).sum) :=
        (canonicalEntries_eq_ok (by omega)).mpr ⟨he, hall, by omega, rfl⟩
      rw [if_neg (by rw [not_or, not_lt]; exact hk)]
      refine bind_eq_ok.mpr ⟨_, hx, bind_eq_ok.mpr ⟨_, hes, ?_⟩⟩
      rw [add_assoc]
      rfl
end

end ControlPlane.Gate.Parameters
