import Mathlib.Data.List.Sort
import Mathlib.Data.List.Nodup
import Mathlib.Data.Int.Notation
import Mathlib.Data.String.Basic

/-! # Dynamic values

The values of a dynamically typed program that a JSON text can denote. Numbers come in two kinds:
unbounded integers and floats of some type `F`. An object is the list of its entries in insertion
order, which is the order in which a program iterates over it; a value is `wellFormed` if no object
in it has a key twice.

`sortKeys` puts the entries of every object in the order of the keys. It forgets the insertion order
and nothing else: look-ups commute with it (`lookup_sortPairs`), and it is idempotent
(`sortKeys_sortKeys`). -/

namespace ControlPlane.Lib.Value

/-- A JSON tree over the floats `F`. -/
inductive Json (F : Type) where
  | null
  | bool (b : Bool)
  | int (n : ℤ)
  | float (x : F)
  | str (s : String)
  | arr (xs : List (Json F))
  | obj (d : List (String × Json F))

/-- The entries of an object, in insertion order. -/
abbrev Dict (F : Type) := List (String × Json F)

variable {F : Type}

theorem Json.induct {P : Json F → Prop} (null : P .null) (bool : ∀ b, P (.bool b))
    (int : ∀ n, P (.int n)) (float : ∀ x, P (.float x)) (str : ∀ s, P (.str s))
    (arr : ∀ xs, (∀ x ∈ xs, P x) → P (.arr xs))
    (obj : ∀ d, (∀ p ∈ d, P p.2) → P (.obj d)) (v : Json F) : P v :=
  @Json.rec F P (fun xs => ∀ x ∈ xs, P x) (fun d => ∀ p ∈ d, P p.2) (fun p => P p.2)
    null bool int float str arr obj (by simp) (fun x xs hx hxs => List.forall_mem_cons.mpr ⟨hx, hxs⟩)
    (by simp) (fun p d hp hd => List.forall_mem_cons.mpr ⟨hp, hd⟩) (fun _ _ h => h) v

/-! ### Decidable equality -/

mutual
/-- Structural equality of two values. -/
def eqv [DecidableEq F] : Json F → Json F → Bool
  | .null, .null => true
  | .bool a, .bool b => a == b
  | .int a, .int b => a == b
  | .float a, .float b => a == b
  | .str a, .str b => a == b
  | .arr xs, .arr ys => eqvList xs ys
  | .obj d, .obj e => eqvDict d e
  | _, _ => false
/-- Structural equality of two lists of values. -/
def eqvList [DecidableEq F] : List (Json F) → List (Json F) → Bool
  | [], [] => true
  | x :: xs, y :: ys => eqv x y && eqvList xs ys
  | _, _ => false
/-- Structural equality of two lists of entries. -/
def eqvDict [DecidableEq F] : Dict F → Dict F → Bool
  | [], [] => true
  | (k, x) :: d, (l, y) :: e => k == l && eqv x y && eqvDict d e
  | _, _ => false
end

mutual
theorem eqv_iff [DecidableEq F] : ∀ v w : Json F, eqv v w = true ↔ v = w
  | .null, w => by cases w <;> simp [eqv]
  | .bool _, w => by cases w <;> simp [eqv]
  | .int _, w => by cases w <;> simp [eqv]
  | .float _, w => by cases w <;> simp [eqv]
  | .str _, w => by cases w <;> simp [eqv]
  | .arr xs, w => by
    cases w with
    | arr ys => simp [eqv, eqvList_iff xs ys]
    | _ => simp [eqv]
  | .obj d, w => by
    cases w with
    | obj e => simp [eqv, eqvDict_iff d e]
    | _ => simp [eqv]
theorem eqvList_iff [DecidableEq F] : ∀ xs ys : List (Json F), eqvList xs ys = true ↔ xs = ys
  | [], ys => by cases ys <;> simp [eqvList]
  | x :: xs, [] => by simp [eqvList]
  | x :: xs, y :: ys => by simp [eqvList, eqv_iff x y, eqvList_iff xs ys]
theorem eqvDict_iff [DecidableEq F] : ∀ d e : Dict F, eqvDict d e = true ↔ d = e
  | [], e => by cases e <;> simp [eqvDict]
  | (k, x) :: d, [] => by simp [eqvDict]
  | (k, x) :: d, (l, y) :: e => by simp [eqvDict, eqv_iff x y, eqvDict_iff d e]
end

instance [DecidableEq F] : DecidableEq (Json F) := fun v w =>
  decidable_of_iff (eqv v w = true) (eqv_iff v w)

/-! ### Objects -/

/-- The keys, in insertion order. -/
def keys (d : Dict F) : List String := d.map Prod.fst

/-- The entry at a key, if any. -/
def lookup (k : String) : Dict F → Option (Json F)
  | [] => none
  | (l, v) :: d => if l = k then some v else lookup k d

/-- The entry at a key, or null. -/
def getKey (d : Dict F) (k : String) : Json F := (lookup k d).getD .null

/-- Sets the entry at a key: in place if the key is there, at the end if it is new. -/
def setKey (k : String) (v : Json F) : Dict F → Dict F
  | [] => [(k, v)]
  | (l, w) :: d => if l = k then (l, v) :: d else (l, w) :: setKey k v d

/-- Removes the entry at a key. -/
def eraseKey (k : String) (d : Dict F) : Dict F := d.filter fun p => p.1 ≠ k

/-- The object a list of entries builds from left to right: a later entry replaces the value of an
earlier one. -/
def ofPairs (ps : List (String × Json F)) : Dict F := ps.foldl (fun d p => setKey p.1 p.2 d) []

@[simp] theorem lookup_nil (k : String) : lookup k ([] : Dict F) = none := rfl

theorem lookup_cons (k l : String) (v : Json F) (d : Dict F) :
    lookup k ((l, v) :: d) = if l = k then some v else lookup k d := rfl

@[simp] theorem lookup_setKey_self (k : String) (v : Json F) :
    ∀ d : Dict F, lookup k (setKey k v d) = some v
  | [] => by simp [setKey, lookup]
  | (l, w) :: d => by
    by_cases h : l = k <;> simp [setKey, lookup_cons, h, lookup_setKey_self k v d]

theorem lookup_setKey_ne {k l : String} (h : l ≠ k) (v : Json F) :
    ∀ d : Dict F, lookup k (setKey l v d) = lookup k d
  | [] => by simp [setKey, lookup, h]
  | (m, w) :: d => by
    by_cases hm : m = l
    · simp [setKey, lookup_cons, hm, h]
    · simp [setKey, lookup_cons, hm, lookup_setKey_ne h v d]

@[simp] theorem getKey_setKey_self (k : String) (v : Json F) (d : Dict F) :
    getKey (setKey k v d) k = v := by
  simp [getKey]

theorem getKey_setKey_ne {k l : String} (h : l ≠ k) (v : Json F) (d : Dict F) :
    getKey (setKey l v d) k = getKey d k := by
  rw [getKey, lookup_setKey_ne h, getKey]

theorem lookup_eraseKey (k l : String) :
    ∀ d : Dict F, lookup k (eraseKey l d) = if l = k then none else lookup k d
  | [] => by simp [eraseKey]
  | (m, w) :: d => by
    have ih := lookup_eraseKey k l d
    by_cases hm : m = l
    · subst hm
      by_cases hk : m = k <;> simp_all [eraseKey, lookup_cons]
    · by_cases hk : m = k
      · subst hk
        simp [eraseKey, lookup_cons, hm, Ne.symm hm]
      · simp_all [eraseKey, lookup_cons]

theorem lookup_eraseKey_ne {k l : String} (h : l ≠ k) (d : Dict F) :
    lookup k (eraseKey l d) = lookup k d := by
  rw [lookup_eraseKey, if_neg h]

theorem getKey_eraseKey_ne {k l : String} (h : l ≠ k) (d : Dict F) :
    getKey (eraseKey l d) k = getKey d k := by
  rw [getKey, lookup_eraseKey_ne h, getKey]

theorem eraseKey_setKey (k : String) (v : Json F) :
    ∀ d : Dict F, eraseKey k (setKey k v (eraseKey k d)) = eraseKey k d := by
  intro d
  have h : ∀ e : Dict F, (∀ p ∈ e, p.1 ≠ k) → eraseKey k (setKey k v e) = e := by
    intro e
    induction e with
    | nil => simp [setKey, eraseKey]
    | cons p e ih =>
      intro he
      have hp : p.1 ≠ k := he p (by simp)
      have ih' := ih fun q hq => he q (List.mem_cons_of_mem p hq)
      rw [setKey, if_neg hp, eraseKey, List.filter_cons_of_pos (by simpa using hp), ← eraseKey, ih']
  exact h _ fun p hp => by simpa [eraseKey] using (List.mem_filter.mp hp).2

theorem lookup_of_getKey {d : Dict F} {k : String} {v : Json F} (h : getKey d k = v)
    (hv : v ≠ .null) : lookup k d = some v := by
  unfold getKey at h
  cases hl : lookup k d with
  | none =>
    rw [hl] at h
    exact absurd h.symm hv
  | some w =>
    rw [hl] at h
    exact congrArg some h

theorem lookup_eq_none {k : String} : ∀ {d : Dict F}, lookup k d = none ↔ k ∉ keys d
  | [] => by simp [keys]
  | (l, v) :: d => by
    rw [lookup_cons]
    by_cases h : l = k
    · simp [keys, h]
    · rw [if_neg h, lookup_eq_none]
      simp [keys, Ne.symm h]

theorem mem_of_lookup {k : String} {v : Json F} : ∀ {d : Dict F}, lookup k d = some v → (k, v) ∈ d
  | [], h => by simp at h
  | (l, w) :: d, h => by
    rw [lookup_cons] at h
    split_ifs at h with hl
    · cases h
      simp [hl]
    · exact List.mem_cons_of_mem _ (mem_of_lookup h)

theorem lookup_of_mem {k : String} {v : Json F} :
    ∀ {d : Dict F}, (keys d).Nodup → (k, v) ∈ d → lookup k d = some v
  | [], _, h => by simp at h
  | (l, w) :: d, hd, h => by
    simp only [keys, List.map_cons, List.nodup_cons] at hd
    rw [lookup_cons]
    rcases List.mem_cons.mp h with h | h
    · cases h
      simp
    · have hk : k ∈ keys d := List.mem_map.mpr ⟨(k, v), h, rfl⟩
      have hl : l ≠ k := by
        rintro rfl
        exact hd.1 hk
      rw [if_neg hl, lookup_of_mem hd.2 h]

theorem lookup_eq_some {k : String} {v : Json F} {d : Dict F} (hd : (keys d).Nodup) :
    lookup k d = some v ↔ (k, v) ∈ d :=
  ⟨mem_of_lookup, lookup_of_mem hd⟩

theorem lookup_perm {d e : Dict F} (h : d.Perm e) (hd : (keys d).Nodup) (k : String) :
    lookup k d = lookup k e := by
  have he : (keys e).Nodup := (h.map Prod.fst).nodup_iff.mp hd
  refine Option.ext fun v => ?_
  rw [lookup_eq_some hd, lookup_eq_some he, h.mem_iff]

theorem lookup_map (f : Json F → Json F) (k : String) :
    ∀ d : Dict F, lookup k (d.map fun p => (p.1, f p.2)) = (lookup k d).map f
  | [] => rfl
  | (l, v) :: d => by
    simp only [List.map_cons, lookup_cons, lookup_map f k d]
    split_ifs <;> rfl

theorem keys_map (f : Json F → Json F) (d : Dict F) :
    keys (d.map fun p => (p.1, f p.2)) = keys d := by
  simp [keys]

theorem keys_setKey (k : String) (v : Json F) :
    ∀ d : Dict F, keys (setKey k v d) = if k ∈ keys d then keys d else keys d ++ [k]
  | [] => by simp [setKey, keys]
  | (l, w) :: d => by
    by_cases h : l = k
    · simp [setKey, keys, h]
    · have ih := keys_setKey k v d
      simp only [keys] at ih ⊢
      by_cases hk : k ∈ d.map Prod.fst <;> simp [setKey, h, ih, hk, Ne.symm h]

theorem nodup_keys_setKey (k : String) (v : Json F) {d : Dict F} (hd : (keys d).Nodup) :
    (keys (setKey k v d)).Nodup := by
  rw [keys_setKey]
  split_ifs with h
  · exact hd
  · refine List.nodup_append.mpr ⟨hd, by simp, fun x hx y hy => ?_⟩
    rw [List.mem_singleton] at hy
    rintro rfl
    exact h (hy ▸ hx)

theorem nodup_keys_eraseKey (k : String) {d : Dict F} (hd : (keys d).Nodup) :
    (keys (eraseKey k d)).Nodup :=
  hd.sublist (List.filter_sublist.map Prod.fst)

theorem mem_setKey {k : String} {v : Json F} {p : String × Json F} :
    ∀ {d : Dict F}, p ∈ setKey k v d → p = (k, v) ∨ p ∈ d
  | [], h => by simpa [setKey] using h
  | (l, w) :: d, h => by
    by_cases hl : l = k
    · simp only [setKey, hl, if_true, List.mem_cons] at h ⊢
      tauto
    · simp only [setKey, hl, if_false, List.mem_cons] at h ⊢
      rcases h with h | h
      · exact Or.inr (Or.inl h)
      · have := mem_setKey h
        tauto

theorem setKey_of_notMem {k : String} {v : Json F} :
    ∀ {d : Dict F}, k ∉ keys d → setKey k v d = d ++ [(k, v)]
  | [], _ => rfl
  | (l, w) :: d, h => by
    simp only [keys, List.map_cons, List.mem_cons, not_or] at h
    simp [setKey, Ne.symm h.1, setKey_of_notMem (d := d) h.2]

/-- Entries with distinct keys build the object with just these entries. -/
theorem ofPairs_eq {d : Dict F} (hd : (keys d).Nodup) : ofPairs d = d := by
  have h : ∀ (ps acc : Dict F), (keys (acc ++ ps)).Nodup →
      ps.foldl (fun d p => setKey p.1 p.2 d) acc = acc ++ ps := by
    intro ps
    induction ps with
    | nil => intro acc _; simp
    | cons p ps ih =>
      intro acc hacc
      have hp : p.1 ∉ keys acc := by
        simp only [keys, List.map_append, List.map_cons, List.nodup_append] at hacc
        exact fun hm => hacc.2.2 _ hm _ (by simp) rfl
      rw [List.foldl_cons, setKey_of_notMem hp, ih _ (by simpa using hacc)]
      simp
  simpa [ofPairs] using h d [] (by simpa using hd)

theorem nodup_keys_foldl_setKey (ps : List (String × Json F)) {d : Dict F} (hd : (keys d).Nodup) :
    (keys (ps.foldl (fun d p => setKey p.1 p.2 d) d)).Nodup := by
  induction ps generalizing d with
  | nil => exact hd
  | cons p ps ih => exact ih (nodup_keys_setKey p.1 p.2 hd)

theorem nodup_keys_ofPairs (ps : List (String × Json F)) : (keys (ofPairs ps)).Nodup :=
  nodup_keys_foldl_setKey ps (by simp [keys])

theorem lookup_foldl_setKey (k : String) (ps : List (String × Json F)) (d : Dict F) :
    lookup k (ps.foldl (fun d p => setKey p.1 p.2 d) d) =
      (((ps.filter fun p => p.1 = k).getLast?).map Prod.snd).or (lookup k d) := by
  induction ps generalizing d with
  | nil => rfl
  | cons p ps ih =>
    rw [List.foldl_cons, ih, List.filter_cons]
    by_cases hp : p.1 = k
    · simp only [hp, decide_true, if_true, lookup_setKey_self, List.getLast?_cons, Option.map_some,
        Option.some_or]
      cases (ps.filter fun p => p.1 = k).getLast? <;> rfl
    · simp only [hp, decide_false, Bool.false_eq_true, if_false, lookup_setKey_ne hp]

/-- The value at a key is the last one given for it. -/
theorem lookup_ofPairs (k : String) (ps : List (String × Json F)) :
    lookup k (ofPairs ps) = ((ps.filter fun p => p.1 = k).getLast?).map Prod.snd := by
  rw [ofPairs, lookup_foldl_setKey, lookup_nil, Option.or_none]

theorem mem_ofPairs {p : String × Json F} {ps : List (String × Json F)} (h : p ∈ ofPairs ps) :
    p ∈ ps := by
  have hl := lookup_of_mem (k := p.1) (v := p.2) (nodup_keys_ofPairs ps) h
  rw [lookup_ofPairs, Option.map_eq_some_iff] at hl
  obtain ⟨q, hq, he⟩ := hl
  have hm := List.mem_of_getLast? hq
  rw [List.mem_filter, decide_eq_true_eq] at hm
  exact Prod.ext hm.2 he ▸ hm.1

/-! ### Well-formed values -/

mutual
/-- No object in the value has a key twice. -/
def wellFormed : Json F → Bool
  | .arr xs => wellFormedList xs
  | .obj d => decide (keys d).Nodup && wellFormedDict d
  | _ => true
/-- `wellFormed` on the elements of an array. -/
def wellFormedList : List (Json F) → Bool
  | [] => true
  | x :: xs => wellFormed x && wellFormedList xs
/-- `wellFormed` on the values of an object. -/
def wellFormedDict : Dict F → Bool
  | [] => true
  | (_, x) :: d => wellFormed x && wellFormedDict d
end

@[simp] theorem wellFormed_arr (xs : List (Json F)) :
    wellFormed (.arr xs) = true ↔ ∀ x ∈ xs, wellFormed x = true := by
  rw [wellFormed]
  induction xs with
  | nil => simp [wellFormedList]
  | cons x xs ih => simp [wellFormedList, ih]

@[simp] theorem wellFormed_obj (d : Dict F) :
    wellFormed (.obj d) = true ↔ (keys d).Nodup ∧ ∀ p ∈ d, wellFormed p.2 = true := by
  have h : wellFormedDict d = true ↔ ∀ p ∈ d, wellFormed p.2 = true := by
    induction d with
    | nil => simp [wellFormedDict]
    | cons p d ih =>
      obtain ⟨k, v⟩ := p
      simp [wellFormedDict, ih]
  rw [wellFormed, Bool.and_eq_true, decide_eq_true_eq, h]

@[simp] theorem wellFormed_null : wellFormed (.null : Json F) = true := rfl
@[simp] theorem wellFormed_bool (b : Bool) : wellFormed (.bool b : Json F) = true := rfl
@[simp] theorem wellFormed_int (n : ℤ) : wellFormed (.int n : Json F) = true := rfl
@[simp] theorem wellFormed_float (x : F) : wellFormed (.float x) = true := rfl
@[simp] theorem wellFormed_str (s : String) : wellFormed (.str s : Json F) = true := rfl

theorem wellFormed_lookup {d : Dict F} (hd : wellFormed (.obj d) = true) {k : String} {v : Json F}
    (h : lookup k d = some v) : wellFormed v = true :=
  ((wellFormed_obj d).mp hd).2 _ (mem_of_lookup h)

theorem wellFormed_getKey {d : Dict F} (hd : wellFormed (.obj d) = true) (k : String) :
    wellFormed (getKey d k) = true := by
  unfold getKey
  cases h : lookup k d with
  | none => rfl
  | some v => exact wellFormed_lookup hd h

theorem wellFormed_setKey {d : Dict F} (hd : wellFormed (.obj d) = true) (k : String) {v : Json F}
    (hv : wellFormed v = true) : wellFormed (.obj (setKey k v d)) = true := by
  rw [wellFormed_obj] at hd ⊢
  refine ⟨nodup_keys_setKey k v hd.1, fun p hp => ?_⟩
  rcases mem_setKey hp with rfl | hp
  · exact hv
  · exact hd.2 p hp

theorem wellFormed_eraseKey {d : Dict F} (hd : wellFormed (.obj d) = true) (k : String) :
    wellFormed (.obj (eraseKey k d)) = true := by
  rw [wellFormed_obj] at hd ⊢
  exact ⟨nodup_keys_eraseKey k hd.1, fun p hp => hd.2 p (List.mem_of_mem_filter hp)⟩

/-! ### Sorted keys -/

/-- The entries in the order of their keys. -/
def sortPairs (d : Dict F) : Dict F := d.insertionSort fun p q => p.1 ≤ q.1

mutual
/-- The value with the entries of every object in the order of their keys. -/
def sortKeys : Json F → Json F
  | .arr xs => .arr (sortKeysList xs)
  | .obj d => .obj (sortPairs (sortKeysDict d))
  | v => v
/-- `sortKeys` on the elements of an array. -/
def sortKeysList : List (Json F) → List (Json F)
  | [] => []
  | x :: xs => sortKeys x :: sortKeysList xs
/-- `sortKeys` on the values of an object. -/
def sortKeysDict : Dict F → Dict F
  | [] => []
  | (k, x) :: d => (k, sortKeys x) :: sortKeysDict d
end

theorem sortKeysDict_eq (d : Dict F) : sortKeysDict d = d.map fun p => (p.1, sortKeys p.2) := by
  induction d with
  | nil => rfl
  | cons p d ih => simp [sortKeysDict, ih]

@[simp] theorem sortKeys_arr (xs : List (Json F)) :
    sortKeys (.arr xs) = .arr (xs.map sortKeys) := by
  rw [sortKeys]
  congr 1
  induction xs with
  | nil => rfl
  | cons x xs ih => simp [sortKeysList, ih]

@[simp] theorem sortKeys_obj (d : Dict F) :
    sortKeys (.obj d) = .obj (sortPairs (d.map fun p => (p.1, sortKeys p.2))) := by
  rw [sortKeys, sortKeysDict_eq]

@[simp] theorem sortKeys_null : sortKeys (.null : Json F) = .null := rfl
@[simp] theorem sortKeys_bool (b : Bool) : sortKeys (.bool b : Json F) = .bool b := rfl
@[simp] theorem sortKeys_int (n : ℤ) : sortKeys (.int n : Json F) = .int n := rfl
@[simp] theorem sortKeys_float (x : F) : sortKeys (.float x) = .float x := rfl
@[simp] theorem sortKeys_str (s : String) : sortKeys (.str s : Json F) = .str s := rfl

theorem perm_sortPairs (d : Dict F) : (sortPairs d).Perm d := List.perm_insertionSort _ d

theorem nodup_keys_sortPairs {d : Dict F} : (keys (sortPairs d)).Nodup ↔ (keys d).Nodup :=
  ((perm_sortPairs d).map Prod.fst).nodup_iff

theorem lookup_sortPairs {d : Dict F} (hd : (keys d).Nodup) (k : String) :
    lookup k (sortPairs d) = lookup k d :=
  (lookup_perm (perm_sortPairs d).symm hd k).symm

/-- The entries of an object, after sorting it. -/
def sortDict (d : Dict F) : Dict F := sortPairs (d.map fun p => (p.1, sortKeys p.2))

theorem sortKeys_obj' (d : Dict F) : sortKeys (.obj d) = .obj (sortDict d) := sortKeys_obj d

theorem lookup_sortDict {d : Dict F} (hd : (keys d).Nodup) (k : String) :
    lookup k (sortDict d) = (lookup k d).map sortKeys := by
  rw [sortDict, lookup_sortPairs (by rwa [keys_map]), lookup_map]

theorem getKey_sortDict {d : Dict F} (hd : (keys d).Nodup) (k : String) :
    getKey (sortDict d) k = sortKeys (getKey d k) := by
  rw [getKey, lookup_sortDict hd, getKey]
  cases lookup k d <;> rfl

theorem wellFormed_sortKeys (v : Json F) : wellFormed (sortKeys v) = wellFormed v := by
  rw [Bool.eq_iff_iff]
  induction v using Json.induct with
  | arr xs ih =>
    rw [sortKeys_arr, wellFormed_arr, wellFormed_arr, List.forall_mem_map]
    exact forall₂_congr ih
  | obj d ih =>
    rw [sortKeys_obj, wellFormed_obj, wellFormed_obj, nodup_keys_sortPairs, keys_map]
    refine and_congr_right fun _ => ?_
    have h : ∀ p, p ∈ sortPairs (d.map fun p => (p.1, sortKeys p.2)) ↔
        p ∈ d.map fun p => (p.1, sortKeys p.2) := fun p => (perm_sortPairs _).mem_iff
    simp only [h, List.forall_mem_map]
    exact forall₂_congr ih
  | _ => simp

/-- Sorted lists of entries with distinct keys are equal if they have the same entries. -/
theorem sortPairs_perm {d e : Dict F} (hd : (keys d).Nodup) (h : d.Perm e) :
    sortPairs d = sortPairs e := by
  have hanti : ∀ p q : String × Json F, p ∈ sortPairs d → q ∈ sortPairs e → p.1 ≤ q.1 →
      q.1 ≤ p.1 → p = q := by
    intro p q hp hq hpq hqp
    have hpd : p ∈ d := (perm_sortPairs d).mem_iff.mp hp
    have hqd : q ∈ d := h.mem_iff.mpr ((perm_sortPairs e).mem_iff.mp hq)
    have hk : p.1 = q.1 := le_antisymm hpq hqp
    have h1 := lookup_of_mem hd (show (p.1, p.2) ∈ d from hpd)
    have h2 := lookup_of_mem hd (show (p.1, q.2) ∈ d by rw [hk]; exact hqd)
    exact Prod.ext hk (Option.some.inj (h1.symm.trans h2))
  exact List.Perm.eq_of_pairwise hanti (List.pairwise_insertionSort _ _)
    (List.pairwise_insertionSort _ _)
    (((perm_sortPairs d).trans h).trans (perm_sortPairs e).symm)

/-- Objects with the same look-ups have the same sorted entries. -/
theorem sortPairs_congr {d e : Dict F} (hd : (keys d).Nodup) (he : (keys e).Nodup)
    (h : ∀ k, lookup k d = lookup k e) : sortPairs d = sortPairs e := by
  refine sortPairs_perm hd ((List.perm_ext_iff_of_nodup (List.Nodup.of_map _ hd)
    (List.Nodup.of_map _ he)).mpr fun p => ?_)
  rw [← lookup_eq_some (k := p.1) (v := p.2) hd, ← lookup_eq_some (k := p.1) (v := p.2) he, h]

theorem sortPairs_of_sorted {d : Dict F} (h : d.Pairwise fun p q => p.1 ≤ q.1) :
    sortPairs d = d :=
  h.insertionSort_eq

theorem sortKeys_sortKeys (v : Json F) : sortKeys (sortKeys v) = sortKeys v := by
  induction v using Json.induct with
  | arr xs ih =>
    rw [sortKeys_arr, sortKeys_arr, List.map_map]
    exact congrArg _ (List.map_congr_left fun x hx => ih x hx)
  | obj d ih =>
    have hm : (sortDict d).map (fun p => (p.1, sortKeys p.2)) = sortDict d := by
      conv_rhs => rw [← List.map_id (sortDict d)]
      refine List.map_congr_left fun p hp => ?_
      rw [sortDict, (perm_sortPairs _).mem_iff, List.mem_map] at hp
      obtain ⟨q, hq, rfl⟩ := hp
      simp [ih q hq]
    have hs : sortPairs (sortDict d) = sortDict d :=
      sortPairs_of_sorted (List.pairwise_insertionSort _ _)
    rw [sortKeys_obj', sortKeys_obj, hm, hs]
  | _ => simp

theorem sortDict_sortDict (d : Dict F) : sortDict (sortDict d) = sortDict d := by
  have h := sortKeys_sortKeys (.obj d)
  rwa [sortKeys_obj', sortKeys_obj', Json.obj.injEq] at h

theorem keys_sortDict_nodup {d : Dict F} : (keys (sortDict d)).Nodup ↔ (keys d).Nodup := by
  rw [sortDict, nodup_keys_sortPairs, keys_map]

/-- Removing a key and sorting the keys commute. -/
theorem sortDict_eraseKey (k : String) {d : Dict F} (hd : (keys d).Nodup) :
    sortDict (eraseKey k (sortDict d)) = sortDict (eraseKey k d) := by
  have h1 : (keys (eraseKey k (sortDict d))).Nodup :=
    nodup_keys_eraseKey k (keys_sortDict_nodup.mpr hd)
  have h2 : (keys (eraseKey k d)).Nodup := nodup_keys_eraseKey k hd
  refine sortPairs_congr (by rwa [keys_map]) (by rwa [keys_map]) fun l => ?_
  rw [lookup_map, lookup_map, lookup_eraseKey, lookup_eraseKey, lookup_sortDict hd]
  split_ifs
  · rfl
  · cases lookup l d <;> simp [sortKeys_sortKeys]

end ControlPlane.Lib.Value
