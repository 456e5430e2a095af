import ControlPlane.Deployment.Manifest

/-! # Manifests read back with sorted keys

Files hold objects with their keys in order, so that a manifest comes back as `sortDict` of what was
written. The signature does not see the difference; the policy id may: two keys of the policy with the
same stripped text are resolved by the order of the keys, and `str` of an object lists its keys in
order. `SameReading` says that neither changes what is read.

`verify_sortDict_iff`: a valid manifest is valid when read back if and only if it has the same
reading, provided that different identities have different policy ids. -/

namespace ControlPlane.Deployment.Reread

open ControlPlane.Lib.Value ControlPlane.Lib.Print ControlPlane.Lib.Text ControlPlane.Lib.Dumps
open ControlPlane.Lib.Dynamic
open ControlPlane.Environment ControlPlane.Learning.Features ControlPlane.Learning.Decision
open ControlPlane.Deployment.Manifest

variable {F : Type} (E : Env F)

/-- `str(v).strip()`. -/
def stripText (v : Json F) : String := strip (strText E.T E.isPrintable v)

theorem str_eq_ok {v : Json F} {s : String} : E.str v = .ok s ↔
    printable E.T.toFloatText true v = true ∧ strText E.T E.isPrintable v = s :=
  pyStr_eq_ok E.T

/-- The stripped arm of the last entry of a policy whose stripped key is a context. -/
def lastArm (d : Dict F) (context : String) : Option String :=
  ((d.filter fun p => strip p.1 = context).getLast?).map fun p => stripText E p.2

/-- Sorting the keys of a manifest changes none of the texts its policy id is computed from. -/
structure SameReading (m : Dict F) : Prop where
  policy : ∀ d, getKey m "policy" = .obj d →
    ∀ context, lastArm E d context = lastArm E (sortDict d) context
  cutoff : stripText E (sortKeys (getKey m "evidence_cutoff")) =
    stripText E (getKey m "evidence_cutoff")
  source : stripText E (sortKeys (getKey m "source_report_sha256")) =
    stripText E (getKey m "source_report_sha256")

/-! ### Texts of arrays and objects -/

/-- No text of the list starts like the text of an array or an object. -/
def NoBracket (S : List String) : Prop :=
  ∀ s ∈ S, s.toList.head? ≠ some '[' ∧ s.toList.head? ≠ some '{'

instance (S : List String) : Decidable (NoBracket S) := by
  unfold NoBracket
  infer_instance

theorem toList_strText_arr (xs : List (Json F)) : (strText E.T E.isPrintable (.arr xs)).toList =
    '[' :: (reprList E.T E.isPrintable xs ++ [']']) := by
  have h : (strText E.T E.isPrintable (.arr xs)).toList = pyRepr E.T E.isPrintable (.arr xs) :=
    String.toList_ofList
  rw [h, pyRepr]

theorem toList_strText_obj (d : Dict F) : (strText E.T E.isPrintable (.obj d)).toList =
    '{' :: (reprDict E.T E.isPrintable d ++ ['}']) := by
  have h : (strText E.T E.isPrintable (.obj d)).toList = pyRepr E.T E.isPrintable (.obj d) :=
    String.toList_ofList
  rw [h, pyRepr]

/-- A value whose text is a digest has this text after sorting its keys. -/
theorem strText_sortKeys {v : Json F}
    (h : ∀ c ∈ (strText E.T E.isPrintable v).toList, isHexDigit c = true) :
    strText E.T E.isPrintable (sortKeys v) = strText E.T E.isPrintable v := by
  cases v with
  | arr xs => exact absurd (h '[' (by rw [toList_strText_arr]; simp)) (by decide)
  | obj d => exact absurd (h '{' (by rw [toList_strText_obj]; simp)) (by decide)
  | _ => rfl

/-- A value whose text is one of some plain words has this text after sorting its keys. -/
theorem stripText_sortKeys {S : List String} (hS : NoBracket S) {v : Json F}
    (h : stripText E v ∈ S) : stripText E (sortKeys v) = stripText E v := by
  cases v with
  | arr xs => exact absurd (head?_strip (toList_strText_arr E xs) (by decide)) (hS _ h).1
  | obj d => exact absurd (head?_strip (toList_strText_obj E d) (by decide)) (hS _ h).2
  | _ => rfl

/-! ### Context fields -/

theorem mapM_str_eq_ok {xs : List (Json F)} {ts : List String} : xs.mapM E.str = .ok ts ↔
    (∀ x ∈ xs, printable E.T.toFloatText true x = true) ∧
      ts = xs.map (strText E.T E.isPrintable) := by
  induction xs generalizing ts with
  | nil =>
    rw [List.mapM_nil]
    constructor
    · intro h
      cases h
      simp
    · rintro ⟨-, rfl⟩
      rfl
  | cons x xs ih =>
    simp only [List.mapM_cons, bind_eq_ok, str_eq_ok, ih, pure, Except.pure, Except.ok.injEq,
      List.forall_mem_cons, List.map_cons]
    constructor
    · rintro ⟨t, ⟨hx, rfl⟩, us, ⟨hxs, rfl⟩, rfl⟩
      exact ⟨⟨hx, hxs⟩, rfl⟩
    · rintro ⟨⟨hx, hxs⟩, rfl⟩
      exact ⟨_, ⟨hx, rfl⟩, _, ⟨hxs, rfl⟩, rfl⟩

theorem validateContextFields_eq_ok {xs : List (Json F)} {fields : List String} :
    validateContextFields E xs = .ok fields ↔
      (∀ x ∈ xs, printable E.T.toFloatText true x = true) ∧ xs ≠ [] ∧
        (∀ x ∈ xs, stripText E x ∈ featureFields) ∧ fields = (xs.map (stripText E)).eraseDups := by
  have hmap : ∀ xs : List (Json F),
      (xs.map (strText E.T E.isPrintable)).map strip = xs.map (stripText E) := by
    intro xs
    rw [List.map_map]
    rfl
  have hne : ∀ ts : List String, ts.eraseDups = [] ↔ ts = [] := by
    intro ts
    cases ts <;> simp [List.eraseDups_cons]
  simp only [validateContextFields, bind_eq_ok, mapM_str_eq_ok, require_eq_ok, pure, Except.pure,
    Except.ok.injEq]
  constructor
  · rintro ⟨ts, ⟨hp, rfl⟩, -, h1, -, h2, rfl⟩
    rw [hmap] at h1 h2 ⊢
    refine ⟨hp, ?_, ?_, rfl⟩
    · rintro rfl
      simp at h1
    · intro x hx
      have hm : stripText E x ∈ (xs.map (stripText E)).eraseDups :=
        List.mem_eraseDups.mpr (List.mem_map_of_mem hx)
      simpa using List.filter_eq_nil_iff.mp (List.isEmpty_iff.mp h2) _ hm
  · rintro ⟨hp, h1, h2, rfl⟩
    refine ⟨_, ⟨hp, rfl⟩, ⟨⟩, ?_, ⟨⟩, ?_, ?_⟩
    · rw [hmap]
      simpa [hne] using h1
    · rw [hmap, List.isEmpty_iff, List.filter_eq_nil_iff]
      intro t ht
      obtain ⟨x, hx, rfl⟩ := List.mem_map.mp (List.mem_eraseDups.mp ht)
      simpa using h2 x hx
    · rw [hmap]

theorem noBracket_fields : NoBracket featureFields := by decide

theorem validateContextFields_sortKeys {xs : List (Json F)} {fields : List String}
    (h : validateContextFields E xs = .ok fields) :
    validateContextFields E (xs.map sortKeys) = .ok fields := by
  obtain ⟨hp, hne, hf, rfl⟩ := (validateContextFields_eq_ok E).mp h
  have hs : ∀ x ∈ xs, stripText E (sortKeys x) = stripText E x :=
    fun x hx => stripText_sortKeys E noBracket_fields (hf x hx)
  refine (validateContextFields_eq_ok E).mpr ⟨?_, by simpa using hne, ?_, ?_⟩
  · rw [List.forall_mem_map]
    exact fun x hx => by rw [printable_sortKeys]; exact hp x hx
  · rw [List.forall_mem_map]
    exact fun x hx => by rw [hs x hx]; exact hf x hx
  · rw [List.map_map]
    exact congrArg _ (List.map_congr_left fun x hx => (hs x hx).symm)

/-! ### The policy -/

/-- An entry of a policy that is accepted. -/
structure SafeEntry (p : String × Json F) : Prop where
  printed : printable E.T.toFloatText true p.2 = true
  context : strip p.1 ≠ ""
  arm : stripText E p.2 ∈ safeExplorationArms

/-- The entry with its stripped texts. -/
def stripEntry (p : String × Json F) : String × Json F := (strip p.1, .str (stripText E p.2))

theorem validateEntries_eq_ok {d out r : Dict F} : validateEntries E d out = .ok r ↔
    (∀ p ∈ d, SafeEntry E p) ∧
      r = (d.map (stripEntry E)).foldl (fun d p => setKey p.1 p.2 d) out := by
  induction d generalizing out with
  | nil => simp [validateEntries, eq_comm]
  | cons p d ih =>
    obtain ⟨k, v⟩ := p
    simp only [validateEntries, bind_eq_ok, str_eq_ok, require_eq_ok, ih, List.forall_mem_cons]
    constructor
    · rintro ⟨t, ⟨hp, rfl⟩, -, hc, -, ha, hs, rfl⟩
      exact ⟨⟨⟨hp, by simpa using hc, by simpa [stripText] using ha⟩, hs⟩, rfl⟩
    · rintro ⟨⟨⟨hp, hc, ha⟩, hs⟩, rfl⟩
      exact ⟨_, ⟨hp, rfl⟩, ⟨⟩, by simpa using hc, ⟨⟩, by simpa [stripText] using ha, hs, rfl⟩

theorem validatePolicy_eq_ok {v : Json F} {r : Dict F} : validatePolicy E v = .ok r ↔
    ∃ d, v = .obj d ∧ d ≠ [] ∧ (∀ p ∈ d, SafeEntry E p) ∧
      r = sortPairs (ofPairs (d.map (stripEntry E))) := by
  unfold validatePolicy
  split
  · next p d =>
    simp only [bind_eq_ok, validateEntries_eq_ok, pure, Except.pure, Except.ok.injEq,
      Json.obj.injEq, exists_eq_left', ne_eq, reduceCtorEq, not_false_eq_true, true_and]
    constructor
    · rintro ⟨out, ⟨hs, rfl⟩, rfl⟩
      exact ⟨hs, rfl⟩
    · rintro ⟨hs, rfl⟩
      exact ⟨_, ⟨hs, rfl⟩, rfl⟩
  · next h =>
    simp only [reduceCtorEq, false_iff, not_exists]
    rintro d ⟨rfl, hne, -⟩
    cases d with
    | nil => exact hne rfl
    | cons p d => exact h p d rfl

/-- **A context has the arm of the last entry for it.** -/
theorem lookup_validatePolicy {d r : Dict F} (h : validatePolicy E (.obj d) = .ok r)
    (context : String) : lookup context r = (lastArm E d context).map .str := by
  obtain ⟨d', he, -, -, rfl⟩ := (validatePolicy_eq_ok E).mp h
  cases he
  rw [lookup_sortPairs (nodup_keys_ofPairs _), lookup_ofPairs, lastArm, List.filter_map,
    List.getLast?_map, Option.map_map, Option.map_map]
  rfl

theorem noBracket_arms : NoBracket safeExplorationArms := by decide

theorem safeEntry_sortKeys {p : String × Json F} (h : SafeEntry E p) :
    SafeEntry E (p.1, sortKeys p.2) := by
  refine ⟨by rw [printable_sortKeys]; exact h.printed, h.context, ?_⟩
  rw [stripText_sortKeys E noBracket_arms h.arm]
  exact h.arm

/-- A validated policy is sorted, and its values are texts. -/
structure IsPolicy (r : Dict F) : Prop where
  nodup : (keys r).Nodup
  sorted : sortPairs r = r
  text : ∀ p ∈ r, ∃ s, p.2 = .str s

theorem isPolicy_of_validatePolicy {v : Json F} {r : Dict F} (h : validatePolicy E v = .ok r) :
    IsPolicy r := by
  obtain ⟨d, -, -, -, rfl⟩ := (validatePolicy_eq_ok E).mp h
  refine ⟨nodup_keys_sortPairs.mpr (nodup_keys_ofPairs _),
    sortPairs_of_sorted (List.pairwise_insertionSort _ _), fun p hp => ?_⟩
  have hm := mem_ofPairs ((perm_sortPairs _).mem_iff.mp hp)
  obtain ⟨q, -, rfl⟩ := List.mem_map.mp hm
  exact ⟨_, rfl⟩

/-- Sorting the keys first keeps a policy acceptable. -/
theorem validatePolicy_sortDict {d r : Dict F} (h : validatePolicy E (.obj d) = .ok r) :
    ∃ r', validatePolicy E (.obj (sortDict d)) = .ok r' := by
  obtain ⟨d', he, hne, hs, -⟩ := (validatePolicy_eq_ok E).mp h
  cases he
  refine ⟨_, (validatePolicy_eq_ok E).mpr ⟨_, rfl, ?_, fun p hp => ?_, rfl⟩⟩
  · intro hnil
    have hl := (perm_sortPairs (d.map fun p => (p.1, sortKeys p.2))).length_eq
    rw [← sortDict, hnil, List.length_map] at hl
    exact hne (List.eq_nil_of_length_eq_zero hl.symm)
  · rw [sortDict, (perm_sortPairs _).mem_iff, List.mem_map] at hp
    obtain ⟨q, hq, rfl⟩ := hp
    exact safeEntry_sortKeys E (hs q hq)

/-- Policies with the same look-ups are equal. -/
theorem policy_ext {r r' : Dict F} (h : IsPolicy r) (h' : IsPolicy r')
    (he : ∀ k, lookup k r = lookup k r') : r = r' := by
  rw [← h.sorted, ← h'.sorted, sortPairs_congr h.nodup h'.nodup he]

/-! ### The policy id -/

theorem sortDict_policy {r : Dict F} (h : IsPolicy r) : sortDict r = r := by
  have hm : r.map (fun p => (p.1, sortKeys p.2)) = r := by
    conv_rhs => rw [← List.map_id r]
    refine List.map_congr_left fun p hp => ?_
    obtain ⟨s, hs⟩ := h.text p hp
    refine Prod.ext rfl ?_
    simp [hs]
  rw [sortDict, hm, h.sorted]

section Identity
variable (fields : List String) {r : Dict F} (cutoff source : String)

theorem getKey_identity : getKey (identityPayload fields r cutoff source) "policy" = .obj r ∧
    getKey (identityPayload fields r cutoff source) "evidence_cutoff" = .str cutoff ∧
    getKey (identityPayload fields r cutoff source) "source_report_sha256" = .str source := by
  refine ⟨?_, ?_, ?_⟩ <;> simp [getKey, identityPayload, lookup]

variable (h : IsPolicy r)
include h

theorem wellFormed_identity : wellFormed (.obj (identityPayload fields r cutoff source)) = true := by
  have ht : ∀ p ∈ r, wellFormed p.2 = true := by
    intro p hp
    obtain ⟨s, hs⟩ := h.text p hp
    rw [hs]
    rfl
  have hr : wellFormed (.obj r) = true := (wellFormed_obj r).mpr ⟨h.nodup, ht⟩
  have hf : wellFormed (.arr (fields.map (.str : String → Json F))) = true := by
    rw [wellFormed_arr, List.forall_mem_map]
    exact fun _ _ => rfl
  rw [wellFormed_obj, identityPayload]
  refine ⟨by simp [keys], ?_⟩
  simp only [List.forall_mem_cons]
  exact ⟨rfl, hf, hr, rfl, rfl, rfl, by simp⟩

theorem printable_identity :
    printable E.T.toFloatText true (.obj (identityPayload fields r cutoff source)) = true := by
  have ht : printable E.T.toFloatText true (.obj r) = true := by
    rw [printable_obj]
    intro p hp
    obtain ⟨s, hs⟩ := h.text p hp
    rw [hs]
    rfl
  have hf : printable E.T.toFloatText true (.arr (fields.map .str)) = true := by
    rw [printable_arr, List.forall_mem_map]
    exact fun _ _ => rfl
  rw [identityPayload, printable_obj]
  simp only [List.forall_mem_cons]
  exact ⟨rfl, hf, ht, rfl, rfl, rfl, by simp⟩

/-- Every identity has a policy id. -/
theorem policyId_eq_ok : ∃ text,
    canonical E.T (.obj (identityPayload fields r cutoff source)) = .ok text ∧
      policyId E (identityPayload fields r cutoff source) = .ok (E.sha256Head text) := by
  have hc := (canonical_eq_ok E.T).mpr ⟨printable_identity E fields cutoff source h, rfl⟩
  refine ⟨_, hc, ?_⟩
  rw [policyId, hc]
  rfl

/-- The identity is determined by its canonical text. -/
theorem identity_inj {fields' : List String} {r' : Dict F} (h' : IsPolicy r')
    {cutoff' source' text : String}
    (h1 : canonical E.T (.obj (identityPayload fields r cutoff source)) = .ok text)
    (h2 : canonical E.T (.obj (identityPayload fields' r' cutoff' source')) = .ok text) :
    r = r' ∧ cutoff = cutoff' ∧ source = source' := by
  have hw := wellFormed_identity fields cutoff source h
  have hw' := wellFormed_identity fields' cutoff' source' h'
  have he := canonical_eq_canonical E.T hw hw' h1 h2
  rw [sortKeys_obj', sortKeys_obj', Json.obj.injEq] at he
  have hk : ∀ k, sortKeys (getKey (identityPayload fields r cutoff source) k) =
      sortKeys (getKey (identityPayload fields' r' cutoff' source') k) := fun k => by
    rw [← getKey_sortDict ((wellFormed_obj _).mp hw).1, he,
      getKey_sortDict ((wellFormed_obj _).mp hw').1]
  obtain ⟨g1, g2, g3⟩ := getKey_identity fields cutoff source (r := r)
  obtain ⟨g1', g2', g3'⟩ := getKey_identity fields' cutoff' source' (r := r')
  have hp := hk "policy"
  have hc := hk "evidence_cutoff"
  have hs := hk "source_report_sha256"
  rw [g1, g1', sortKeys_obj', sortKeys_obj', sortDict_policy h, sortDict_policy h',
    Json.obj.injEq] at hp
  rw [g2, g2', sortKeys_str, sortKeys_str, Json.str.injEq] at hc
  rw [g3, g3', sortKeys_str, sortKeys_str, Json.str.injEq] at hs
  exact ⟨hp, hc, hs⟩

end Identity

/-! ### Manifests -/

section Sorted
variable {m : Dict F} {key : Key} (hm : wellFormed (.obj m) = true)
include hm

theorem getKey_sorted (k : String) : getKey (sortDict m) k = sortKeys (getKey m k) :=
  getKey_sortDict ((wellFormed_obj m).mp hm).1 k

theorem getKey_sorted_str {k s : String} (h : getKey m k = .str s) :
    getKey (sortDict m) k = .str s := by
  rw [getKey_sorted hm, h, sortKeys_str]

theorem nodup_of_getKey {k : String} {d : Dict F} (h : getKey m k = .obj d) : (keys d).Nodup :=
  ((wellFormed_obj d).mp (h ▸ wellFormed_getKey hm k)).1

theorem strOr_sorted {k default : String} {text : String}
    (h : E.strOr m k default = .ok text) :
    E.strOr (sortDict m) k default = .ok (strText E.T E.isPrintable
      (sortKeys ((lookup k m).getD (.str default)))) := by
  have hp := ((str_eq_ok E).mp h).1
  have hl : (lookup k (sortDict m)).getD (.str default) =
      sortKeys ((lookup k m).getD (.str default)) := by
    rw [lookup_sortDict ((wellFormed_obj m).mp hm).1]
    cases lookup k m <;> rfl
  rw [Env.strOr, hl]
  exact (str_eq_ok E).mpr ⟨by rwa [printable_sortKeys], rfl⟩

/-- A signature covers the object whatever the order of its keys. -/
theorem signed_sortDict (h : Signed E m key) : Signed E (sortDict m) key := by
  obtain ⟨hk, signature, text, hs, ha, hi, ht, hv⟩ := h
  have hsig : wellFormed (.obj signature) = true := hs ▸ wellFormed_getKey hm "signature"
  refine ⟨hk, sortDict signature, text, ?_, getKey_sorted_str hsig ha, getKey_sorted_str hsig hi,
    ?_, ?_⟩
  · rw [getKey_sorted hm, hs, sortKeys_obj']
  · rw [← ht, ← canonical_sortKeys, ← canonical_sortKeys E.T (.obj (eraseKey "signature" m)),
      sortKeys_obj', sortKeys_obj', sortDict_eraseKey _ ((wellFormed_obj m).mp hm).1]
  · have hx := ((str_eq_ok E).mp hv).2
    rw [strOr_sorted E hsig hv, strText_sortKeys E (by rw [hx]; exact E.hmac_hex key text), hx]

theorem fieldsOf_sortDict {fields : List String} (h : FieldsOf E m fields) :
    FieldsOf E (sortDict m) fields := by
  rcases h with ⟨raw, hr, hv⟩ | ⟨hr, rfl⟩
  · refine Or.inl ⟨raw.map sortKeys, ?_, validateContextFields_sortKeys E hv⟩
    rw [getKey_sorted hm, hr, sortKeys_arr]
  · refine Or.inr ⟨fun raw h => ?_, rfl⟩
    rw [getKey_sorted hm] at h
    cases hg : getKey m "context_fields" with
    | arr xs => exact hr xs hg
    | _ => simp [hg] at h

theorem rollbackBad_sortDict (h : rollbackBad E m = false) : rollbackBad E (sortDict m) = false := by
  unfold rollbackBad at h ⊢
  rw [getKey_sorted hm]
  split at h
  · next d hd =>
    have hw : wellFormed (.obj d) = true := hd ▸ wellFormed_getKey hm "rollback"
    rw [hd, sortKeys_obj']
    rw [differs_eq_false] at h
    simpa using getKey_sorted_str hw h
  · simp at h

end Sorted

/-! ### The recomputed policy id -/

theorem fieldsOf_unique {m : Dict F} {fields fields' : List String} (h : FieldsOf E m fields)
    (h' : FieldsOf E m fields') : fields = fields' := by
  rcases h with ⟨raw, hr, hv⟩ | ⟨hr, rfl⟩ <;> rcases h' with ⟨raw', hr', hv'⟩ | ⟨hr', rfl⟩
  · cases hr.symm.trans hr'
    exact Except.ok.inj (hv.symm.trans hv')
  · exact absurd hr (hr' raw)
  · exact absurd hr' (hr raw')
  · rfl

theorem fields_ne_nil {m : Dict F} {fields : List String} (h : FieldsOf E m fields)
    (hf : ∃ raw, getKey m "context_fields" = .arr raw) : fields ≠ [] := by
  obtain ⟨raw, hraw⟩ := hf
  rcases h with ⟨raw', -, hv⟩ | ⟨hno, -⟩
  · obtain ⟨-, hne, -, rfl⟩ := (validateContextFields_eq_ok E).mp hv
    obtain ⟨x, xs, rfl⟩ := List.exists_cons_of_ne_nil hne
    simp [List.eraseDups_cons]
  · exact absurd hraw (hno raw)

theorem policy_ne_nil {v : Json F} {r : Dict F} (h : validatePolicy E v = .ok r) : r ≠ [] := by
  obtain ⟨d, rfl, hne, -, rfl⟩ := (validatePolicy_eq_ok E).mp h
  obtain ⟨p, d, rfl⟩ := List.exists_cons_of_ne_nil hne
  intro hnil
  have hl := lookup_validatePolicy E h (strip p.1)
  rw [hnil, lookup_nil, eq_comm, Option.map_eq_none_iff, lastArm, Option.map_eq_none_iff,
    List.getLast?_eq_none_iff, List.filter_cons] at hl
  simp at hl

theorem policyIdErrors_eq_nil {m : Dict F} {fields : List String} {r : Dict F} (hr : IsPolicy r)
    {cutoff source : String} (hf : fields ≠ []) (hr' : r ≠ []) (hc : cutoff ≠ "")
    (hs : source ≠ "") : policyIdErrors E m fields r cutoff source = .ok [] ↔
      ∃ text, canonical E.T (.obj (identityPayload fields r cutoff source)) = .ok text ∧
        getKey m "policy_id" = .str (E.sha256Head text) := by
  obtain ⟨text, ht, hid⟩ := policyId_eq_ok E fields cutoff source hr
  have hcond : (!fields.isEmpty && !r.isEmpty && cutoff != "" && source != "") = true := by
    simp [hf, hr', hc, hs]
  rw [policyIdErrors, if_pos hcond, hid]
  simp [bind, Except.bind, pure, Except.pure, ht]

/-- A text that is not blank belongs to an entry. -/
theorem lookup_of_strOr {m : Dict F} {k text : String} (h : E.strOr m k "" = .ok text)
    (hne : strip text ≠ "") :
    lookup k m = some (getKey m k) ∧ strip text = stripText E (getKey m k) := by
  unfold Env.strOr at h
  cases hl : lookup k m with
  | none =>
    rw [hl] at h
    have he := ((str_eq_ok E).mp h).2
    rw [← he] at hne
    exact absurd (by decide : strip "" = "") hne
  | some v =>
    rw [hl, Option.getD_some] at h
    have hg : getKey m k = v := by rw [getKey, hl, Option.getD_some]
    rw [hg]
    exact ⟨rfl, by rw [stripText, ((str_eq_ok E).mp h).2]⟩

theorem strOr_sortDict {m : Dict F} (hm : wellFormed (.obj m) = true) {k text : String}
    (h : E.strOr m k "" = .ok text) (hne : strip text ≠ "") :
    E.strOr (sortDict m) k "" = .ok (strText E.T E.isPrintable (sortKeys (getKey m k))) := by
  rw [strOr_sorted E hm h, (lookup_of_strOr E h hne).1, Option.getD_some]

/-- **A valid manifest is valid when read back if and only if it has the same reading.** -/
theorem verify_sortDict_iff (hinj : Function.Injective E.sha256Head) {m : Dict F} {key : Key}
    (hm : wellFormed (.obj m) = true) {fields : List String} {policy : Dict F}
    {cutoff source : String} (h : Verified E m key fields policy cutoff source)
    (hf : ∃ raw, getKey m "context_fields" = .arr raw) :
    (∃ c, verifyPolicyManifest E (sortDict m) key = .ok c ∧ c.valid = true) ↔ SameReading E m := by
  obtain ⟨ctext, hct, hcut⟩ := h.cutoffOf
  obtain ⟨stext, hst, hsrc⟩ := h.sourceOf
  have hcne : strip ctext ≠ "" := hcut ▸ h.cutoff_ne
  have hsne : strip stext ≠ "" := hsrc ▸ h.source_ne
  have hct' := strOr_sortDict E hm hct hcne
  have hst' := strOr_sortDict E hm hst hsne
  have hcut' : cutoff = stripText E (getKey m "evidence_cutoff") := by
    rw [← hcut, (lookup_of_strOr E hct hcne).2]
  have hsrc' : source = stripText E (getKey m "source_report_sha256") := by
    rw [← hsrc, (lookup_of_strOr E hst hsne).2]
  have hfields : fields ≠ [] := fields_ne_nil E h.fieldsOf hf
  have hp := isPolicy_of_validatePolicy E h.policyOf
  obtain ⟨text, ht, hid⟩ := (policyIdErrors_eq_nil E hp hfields (policy_ne_nil E h.policyOf)
    h.cutoff_ne h.source_ne).mp h.idOf
  have hid' := getKey_sorted_str hm hid
  obtain ⟨d, hd, -⟩ := (validatePolicy_eq_ok E).mp h.policyOf
  have hd' : getKey (sortDict m) "policy" = .obj (sortDict d) := by
    rw [getKey_sorted hm, hd, sortKeys_obj']
  have hpol := h.policyOf
  rw [hd] at hpol
  obtain ⟨policy', hpol'⟩ := validatePolicy_sortDict E hpol
  have hp' := isPolicy_of_validatePolicy E hpol'
  rw [verify_iff]
  constructor
  · rintro ⟨fields', policy'', cutoff', source', h'⟩
    have he : policy'' = policy' := by
      have := h'.policyOf
      rw [hd', hpol', Except.ok.injEq] at this
      exact this.symm
    subst he
    have hfe : fields' = fields := fieldsOf_unique E h'.fieldsOf (fieldsOf_sortDict E hm h.fieldsOf)
    subst hfe
    obtain ⟨text', ht', hid''⟩ := (policyIdErrors_eq_nil E hp' hfields (policy_ne_nil E hpol')
      h'.cutoff_ne h'.source_ne).mp h'.idOf
    rw [hid', Json.str.injEq] at hid''
    have htt : text = text' := hinj hid''
    subst htt
    obtain ⟨rfl, rfl, rfl⟩ := identity_inj E fields' cutoff source hp hp' ht ht'
    refine ⟨fun d' hd'' context => ?_, ?_, ?_⟩
    · cases hd.symm.trans hd''
      have e1 := lookup_validatePolicy E hpol context
      have e2 := lookup_validatePolicy E hpol' context
      exact Option.map_injective (fun _ _ => Json.str.inj) (e1.symm.trans e2)
    · obtain ⟨t, ht1, ht2⟩ := h'.cutoffOf
      rw [hct', Except.ok.injEq] at ht1
      rw [← hcut', ← ht2, ← ht1, stripText]
    · obtain ⟨t, ht1, ht2⟩ := h'.sourceOf
      rw [hst', Except.ok.injEq] at ht1
      rw [← hsrc', ← ht2, ← ht1, stripText]
  · intro hsame
    have hpe : policy' = policy := policy_ext hp' hp fun k => by
      rw [lookup_validatePolicy E hpol, lookup_validatePolicy E hpol', hsame.policy d hd]
    refine ⟨fields, policy, cutoff, source, {
      signed := signed_sortDict E hm h.signed
      schema := getKey_sorted_str hm h.schema
      featureSchema := getKey_sorted_str hm h.featureSchema
      fieldsOf := fieldsOf_sortDict E hm h.fieldsOf
      policyOf := by rw [hd', hpol', hpe]
      cutoffOf := ⟨_, hct', by rw [hcut', ← hsame.cutoff, stripText]⟩
      cutoff_ne := h.cutoff_ne
      sourceOf := ⟨_, hst', by rw [hsrc', ← hsame.source, stripText]⟩
      source_ne := h.source_ne
      idOf := (policyIdErrors_eq_nil E hp hfields (policy_ne_nil E h.policyOf) h.cutoff_ne
        h.source_ne).mpr ⟨text, ht, hid'⟩
      status := getKey_sorted_str hm h.status
      fallback := getKey_sorted_str hm h.fallback
      rollback := rollbackBad_sortDict E hm h.rollback
      locked := ?_
      inactive := ?_ }⟩
    · have hl : sortKeys (lockedRisks : Json F) = lockedRisks := by simp [lockedRisks]
      rw [getKey_sorted hm, ← hl, pyEq_sortKeys E.T (by simp [lockedRisks])]
      exact h.locked
    · rw [getKey_sorted hm, truthy_sortKeys]
      exact h.inactive

end ControlPlane.Deployment.Reread
