import Mathlib.Data.List.Basic
import Mathlib.Data.List.Nodup
import Mathlib.Data.Prod.Basic

/-! # Mirrors

A mirror is a list of values by key that is filled from a source. Each value is put at most once, and a key
that has another value already is refused (`put`, `putAll`).

If a mirror holds nothing but entries of its source, then filling it succeeds and it holds all of them; if it
held them all, nothing is put (`putAll_within`). If filling it succeeds, no entry of the source has another value
in it (`agrees_of_putAll`). -/

namespace ControlPlane.Lib.Mirror

variable {K V : Type} [DecidableEq K] [DecidableEq V]

/-- Puts a value at a key, unless it has another value; and whether it is new there. -/
def put (k : K) (v : V) (store : List (K × V)) : Option (List (K × V) × Bool) :=
  match store.find? fun p => p.1 = k with
  | some p => if p.2 = v then some (store, false) else none
  | none => some (store ++ [(k, v)], true)

/-- Puts the entries of a source in turn; and how many are new. -/
def putAll : List (K × V) → List (K × V) → Option (List (K × V) × ℕ)
  | [], store => some (store, 0)
  | (k, v) :: source, store => do
    let (store, new) ← put k v store
    let (store, count) ← putAll source store
    return (store, (if new then 1 else 0) + count)

/-- Every entry of the mirror is one of the source. -/
def Within (source store : List (K × V)) : Prop := ∀ p ∈ store, p ∈ source

omit [DecidableEq V] in
/-- What is at a key of a mirror. -/
theorem find_of_mem {store : List (K × V)} {k : K} {v : V} (h : (k, v) ∈ store) :
    ∃ w, store.find? (fun p => p.1 = k) = some (k, w) ∧ (k, w) ∈ store := by
  cases hf : store.find? fun p => p.1 = k with
  | none =>
    have hnone := List.find?_eq_none.mp hf (k, v) h
    simp at hnone
  | some p =>
    obtain ⟨l, w⟩ := p
    have hl : l = k := by simpa using List.find?_some hf
    subst hl
    exact ⟨w, rfl, List.mem_of_find?_eq_some hf⟩

section Within
variable {source : List (K × V)} (hsource : (source.map Prod.fst).Nodup)
include hsource

omit [DecidableEq K] [DecidableEq V] in
theorem unique_of_nodup {k : K} {v w : V} (hv : (k, v) ∈ source) (hw : (k, w) ∈ source) : v = w :=
  congrArg Prod.snd (List.inj_on_of_nodup_map hsource hv hw rfl)

/-- An entry of the source is put, or was there. -/
theorem put_within {store : List (K × V)} (h : Within source store) {k : K} {v : V}
    (hk : (k, v) ∈ source) : ∃ store' new, put k v store = some (store', new) ∧ Within source store' ∧
      (∀ p, p ∈ store' ↔ p ∈ store ∨ p = (k, v)) ∧ ((k, v) ∈ store → store' = store ∧ new = false) := by
  rw [put]
  cases hf : store.find? fun p => p.1 = k with
  | some p =>
    obtain ⟨l, w⟩ := p
    have hl : l = k := by simpa using List.find?_some hf
    subst hl
    have hmem := List.mem_of_find?_eq_some hf
    have hw : w = v := unique_of_nodup hsource (h _ hmem) hk
    subst hw
    refine ⟨store, false, if_pos rfl, h, fun p => ?_, fun _ => ⟨rfl, rfl⟩⟩
    exact ⟨Or.inl, fun hp => hp.elim id fun heq => heq ▸ hmem⟩
  | none =>
    refine ⟨store ++ [(k, v)], true, rfl, ?_, fun p => by simp, fun hmem => ?_⟩
    · intro p hp
      rcases List.mem_append.mp hp with hp | hp
      · exact h p hp
      · rwa [List.mem_singleton.mp hp]
    · obtain ⟨w, hw, -⟩ := find_of_mem hmem
      rw [hf] at hw
      cases hw

/-- **Filling a mirror** with a part of its source. -/
theorem putAll_within : ∀ {rest store : List (K × V)}, Within source store → (∀ p ∈ rest, p ∈ source) →
    ∃ store' count, putAll rest store = some (store', count) ∧ Within source store' ∧
      (∀ p, p ∈ store' ↔ p ∈ store ∨ p ∈ rest) ∧ ((∀ p ∈ rest, p ∈ store) → store' = store ∧ count = 0)
  | [], store, h, _ => ⟨store, 0, rfl, h, by simp, fun _ => ⟨rfl, rfl⟩⟩
  | (k, v) :: rest, store, h, hrest => by
    rw [List.forall_mem_cons] at hrest
    obtain ⟨store1, new, hput, hwithin1, hmem1, hsame1⟩ := put_within hsource h hrest.1
    obtain ⟨store2, count, hall, hwithin2, hmem2, hsame2⟩ := putAll_within hwithin1 hrest.2
    refine ⟨store2, (if new then 1 else 0) + count, ?_, hwithin2, fun p => ?_, fun hin => ?_⟩
    · rw [putAll, hput]
      simp [hall]
    · rw [hmem2, hmem1, List.mem_cons, or_assoc]
    · rw [List.forall_mem_cons] at hin
      obtain ⟨rfl, rfl⟩ := hsame1 hin.1
      obtain ⟨rfl, rfl⟩ := hsame2 hin.2
      exact ⟨rfl, rfl⟩

end Within

/-- Putting keeps what is found at a key. -/
theorem find_put {k l : K} {v w : V} {store store' : List (K × V)} {new : Bool}
    (h : put k v store = some (store', new)) (hl : store.find? (fun p => p.1 = l) = some (l, w)) :
    store'.find? (fun p => p.1 = l) = some (l, w) := by
  rw [put] at h
  split at h
  · split_ifs at h
    rwa [← (Prod.mk.inj (Option.some_inj.mp h)).1]
  · rw [← (Prod.mk.inj (Option.some_inj.mp h)).1, List.find?_append, hl]
    rfl

/-- **What was filled agrees** with what it was filled from. -/
theorem agrees_of_putAll : ∀ {source store store' : List (K × V)} {count : ℕ},
    putAll source store = some (store', count) → ∀ {k : K} {v w : V}, (k, v) ∈ source →
    store.find? (fun p => p.1 = k) = some (k, w) → w = v
  | [], _, _, _, _, _, _, _, hk, _ => by cases hk
  | (l, u) :: source, store, store', count, h, k, v, w, hk, hw => by
    rw [putAll] at h
    obtain ⟨⟨store1, new⟩, hput, h⟩ := Option.bind_eq_some_iff.mp h
    obtain ⟨⟨store2, count2⟩, hall, -⟩ := Option.bind_eq_some_iff.mp h
    rcases List.mem_cons.mp hk with heq | hk
    · obtain ⟨rfl, rfl⟩ := Prod.mk.inj heq
      rw [put, hw] at hput
      dsimp only at hput
      split_ifs at hput with hwv
      exact hwv
    · exact agrees_of_putAll hall hk (find_put hput hw)

end ControlPlane.Lib.Mirror
