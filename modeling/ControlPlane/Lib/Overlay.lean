import ControlPlane.Lib.Value

/-! # Overlays

`overlay base upper` is the object `base` with the entries of `upper` put over it: where both have an object
at a key, the one is put over the other, and else the entry of `upper` replaces that of `base`.

Look-ups commute with it (`lookup_overlay`), so every value that `upper` has at a path of keys, and that is
no object, is found there (`valueAt_overlay`), and a field is that of `upper`, or else that of `base`
(`field_overlay`). -/

namespace ControlPlane.Lib.Overlay

open ControlPlane.Lib.Value

variable {F : Type}

mutual
/-- An object put over another. -/
def overlay (base : Dict F) : Dict F → Dict F
  | [] => base
  | (k, v) :: upper => overlay (setKey k (overlayAt (lookup k base) v) base) upper
/-- A value put over what there is at its key. -/
def overlayAt (old : Option (Json F)) : Json F → Json F
  | .obj upper => match old with
    | some (.obj base) => .obj (overlay base upper)
    | _ => .obj upper
  | v => v
end

/-- The value is an object. -/
def IsObject : Json F → Prop
  | .obj _ => True
  | _ => False

@[simp] theorem overlayAt_none (v : Json F) : overlayAt none v = v := by
  cases v <;> simp [overlayAt]

theorem overlayAt_leaf {old : Option (Json F)} {v : Json F} (h : ¬ IsObject v) : overlayAt old v = v := by
  cases v with
  | obj d => exact absurd trivial h
  | _ => simp [overlayAt]

/-- Nothing is put into what is no object. -/
theorem overlayAt_over {x v : Json F} (h : ¬ IsObject x) : overlayAt (some x) v = v := by
  cases v with
  | obj d =>
    cases x with
    | obj e => exact absurd trivial h
    | _ => simp [overlayAt]
  | _ => simp [overlayAt]

theorem overlayAt_obj (base upper : Dict F) :
    overlayAt (some (.obj base)) (.obj upper) = .obj (overlay base upper) := by
  simp [overlayAt]

@[simp] theorem overlay_nil (base : Dict F) : overlay base [] = base := by
  simp [overlay]

/-- **Look-ups** in an overlay. -/
theorem lookup_overlay {k : String} : ∀ {base upper : Dict F}, (keys upper).Nodup →
    lookup k (overlay base upper) = match lookup k upper with
      | none => lookup k base
      | some v => some (overlayAt (lookup k base) v)
  | base, [], _ => by simp
  | base, (l, v) :: upper, h => by
    have hcons : l ∉ keys upper ∧ (keys upper).Nodup := List.nodup_cons.mp h
    rw [overlay, lookup_overlay hcons.2, lookup_cons]
    by_cases hk : l = k
    · subst hk
      rw [lookup_eq_none.mpr hcons.1, if_pos rfl]
      exact lookup_setKey_self l _ _
    · rw [if_neg hk, lookup_setKey_ne hk]

/-- The entry that replaces another one. -/
theorem map_setKey {k : String} {v : Json F} {upper : Dict F} (hnone : lookup k upper = none) :
    ∀ {base : Dict F}, (keys base).Nodup → k ∈ keys base →
      ((setKey k v base).map fun p => (p.1, (lookup p.1 upper).getD p.2)) =
        base.map fun p => (p.1, (lookup p.1 ((k, v) :: upper)).getD p.2)
  | [], _, hk => by cases hk
  | (l, w) :: base, hbase, hk => by
    have hcons : l ∉ keys base ∧ (keys base).Nodup := List.nodup_cons.mp hbase
    rw [setKey]
    split_ifs with hl
    · subst hl
      rw [List.map_cons, List.map_cons, hnone, lookup_cons, if_pos rfl]
      refine congrArg _ (List.map_congr_left fun p hp => ?_)
      have hpl : l ≠ p.1 := fun hpl => hcons.1 (hpl ▸ List.mem_map_of_mem hp)
      rw [lookup_cons, if_neg hpl]
    · have hk' : k ∈ keys base := (List.mem_cons.mp hk).resolve_left (Ne.symm hl)
      rw [List.map_cons, List.map_cons, map_setKey hnone hcons.2 hk', lookup_cons, if_neg (Ne.symm hl)]

/-- An overlay of values that are no objects: the lower entries with the upper values, and then the entries
that are new. -/
theorem overlay_flat : ∀ {upper base : Dict F}, (keys base).Nodup → (keys upper).Nodup →
    (∀ p ∈ upper, ¬ IsObject p.2) → overlay base upper =
      (base.map fun p => (p.1, (lookup p.1 upper).getD p.2)) ++ upper.filter fun p => !(keys base).contains p.1
  | [], base, _, _, _ => by simp
  | (k, v) :: upper, base, hbase, hover, hflat => by
    have hcons : k ∉ keys upper ∧ (keys upper).Nodup := List.nodup_cons.mp hover
    rw [List.forall_mem_cons] at hflat
    rw [overlay, overlayAt_leaf hflat.1, overlay_flat (nodup_keys_setKey k v hbase) hcons.2 hflat.2,
      List.filter_cons]
    have hnone : lookup k upper = none := lookup_eq_none.mpr hcons.1
    by_cases hk : k ∈ keys base
    · rw [keys_setKey, if_pos hk, if_neg (by simpa using hk), map_setKey hnone hbase hk]
    · have hne : ∀ p ∈ base, p.1 ≠ k := fun p hp hpk => hk (hpk ▸ List.mem_map_of_mem hp)
      have hmap : (base.map fun p => (p.1, (lookup p.1 ((k, v) :: upper)).getD p.2)) =
          base.map fun p => (p.1, (lookup p.1 upper).getD p.2) := by
        refine List.map_congr_left fun p hp => ?_
        rw [lookup_cons, if_neg (hne p hp).symm]
      have hfilter : (upper.filter fun p => !(keys base ++ [k]).contains p.1) =
          upper.filter fun p => !(keys base).contains p.1 := by
        refine List.filter_congr fun p hp => ?_
        have hpk : p.1 ≠ k := fun hpk => hcons.1 (hpk ▸ List.mem_map_of_mem hp)
        simp [hpk]
      rw [keys_setKey, if_neg hk, if_pos (by simpa using hk), setKey_of_notMem hk, List.map_append, hmap,
        hfilter, List.append_assoc]
      simp [hnone]

/-! ### Values at paths -/

/-- The value at a path of keys. -/
def valueAt : List String → Json F → Option (Json F)
  | [], v => some v
  | k :: path, .obj d => (lookup k d).bind (valueAt path)
  | _ :: _, _ => none

theorem valueAt_overlay {x : Json F} (hx : ¬ IsObject x) : ∀ {path : List String} {old : Option (Json F)}
    {v : Json F}, wellFormed v = true → valueAt path v = some x → valueAt path (overlayAt old v) = some x
  | [], old, v, _, h => by
    rw [valueAt] at h
    rw [Option.some_inj.mp h, overlayAt_leaf hx]
    rfl
  | k :: path, old, v, hv, h => by
    cases v with
    | obj upper =>
      rw [valueAt] at h
      obtain ⟨w, hw, hpath⟩ := Option.bind_eq_some_iff.mp h
      match old with
      | some (.obj base) =>
        have hnodup := ((wellFormed_obj upper).mp hv).1
        rw [overlayAt_obj, valueAt, lookup_overlay hnodup, hw]
        exact valueAt_overlay hx (wellFormed_lookup hv hw) hpath
      | none => rwa [overlayAt_none, valueAt]
      | some .null => rwa [overlayAt_over id, valueAt]
      | some (.bool _) => rwa [overlayAt_over id, valueAt]
      | some (.int _) => rwa [overlayAt_over id, valueAt]
      | some (.float _) => rwa [overlayAt_over id, valueAt]
      | some (.str _) => rwa [overlayAt_over id, valueAt]
      | some (.arr _) => rwa [overlayAt_over id, valueAt]
    | _ => cases h

/-! ### Fields -/

/-- `d.get(k, default)`. -/
def field (d : Dict F) (k : String) (default : Json F) : Json F := (lookup k d).getD default

/-- The object at a key, empty if there is none. -/
def objectAt (d : Dict F) (k : String) : Dict F :=
  match lookup k d with
  | some (.obj e) => e
  | _ => []

section Fields
variable {base upper : Dict F} {k : String} (h : (keys upper).Nodup)
include h

/-- A field is that of the upper object, or else that of the lower one. -/
theorem field_overlay {x : Json F} (hbase : lookup k base = some x) (hx : ¬ IsObject x) (default : Json F) :
    field (overlay base upper) k default = field upper k x := by
  unfold field
  rw [lookup_overlay h, hbase]
  cases lookup k upper with
  | none => rfl
  | some v => exact overlayAt_over hx

theorem field_overlay_none (hbase : lookup k base = none) (default : Json F) :
    field (overlay base upper) k default = field upper k default := by
  unfold field
  rw [lookup_overlay h, hbase]
  cases lookup k upper with
  | none => rfl
  | some v => exact overlayAt_none v

/-- An object at a key is put over the one below it. -/
theorem lookup_overlay_obj {b : Dict F} (hbase : lookup k base = some (.obj b)) :
    lookup k (overlay base upper) = match lookup k upper with
      | none => some (.obj b)
      | some (.obj o) => some (.obj (overlay b o))
      | some v => some v := by
  rw [lookup_overlay h, hbase]
  cases lookup k upper with
  | none => rfl
  | some v =>
    cases v with
    | obj o => exact congrArg some (overlayAt_obj b o)
    | _ => simp [overlayAt]

end Fields

end ControlPlane.Lib.Overlay
