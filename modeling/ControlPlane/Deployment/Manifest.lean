import ControlPlane.Learning.Decision

/-! # Policy manifests

A manifest is a JSON object signed with a shared key. `verifyPolicyManifest` recomputes its policy id
from the fields, the policy, the evidence cutoff and the source digest that the manifest carries, and
checks the signature.

`verify_iff`: what a valid manifest satisfies. `Verified` lists it; the identity of the policy is
recomputed from stripped texts, so that it depends on the order of the policy's keys when two of them
have the same stripped text (`lookup_validatePolicy`). -/

namespace ControlPlane.Deployment.Manifest

open ControlPlane.Lib.Value ControlPlane.Lib.Text ControlPlane.Lib.Dynamic
open ControlPlane.Environment ControlPlane.Learning.Features ControlPlane.Learning.Decision

def manifestSchemaVersion : String := "retrieval-policy-manifest-v1"

variable {F : Type} (E : Env F)

def identityPayload (fields : List String) (policy : Dict F) (cutoff source : String) : Dict F :=
  [("feature_schema_version", .str featureSchemaVersion),
    ("context_fields", .arr (fields.map .str)), ("policy", .obj policy),
    ("evidence_cutoff", .str cutoff), ("source_report_sha256", .str source),
    ("fallback_arm", .str baselineArm)]

def policyId (identity : Dict F) : Py String := do
  return E.sha256Head (← canonical E.T (.obj identity))

/-- The loop of `validatePolicy` over the entries still to be read. -/
def validateEntries : Dict F → Dict F → Py (Dict F)
  | [], out => .ok out
  | (key, value) :: rest, out => do
    let context := strip key
    let arm := strip (← E.str value)
    require (context != "") "contextual policy contains a blank context key"
    require (safeExplorationArms.contains arm) ("contextual policy contains unsafe arm: " ++ arm)
    validateEntries rest (setKey context (.str arm) out)

def validatePolicy : Json F → Py (Dict F)
  | .obj (p :: policy) => do return sortPairs (← validateEntries E (p :: policy) [])
  | _ => .error (.valueError "contextual policy must be a non-empty object")

/-- The report of a verification. -/
structure ManifestCheck (F : Type) where
  errors : List String
  policyId : Json F
  status : Json F

def ManifestCheck.valid (c : ManifestCheck F) : Bool := c.errors.isEmpty

/-- `errors.append(error)` under a condition. -/
def flag (bad : Bool) (error : String) : List String := if bad then [error] else []

@[simp] theorem flag_eq_nil {bad : Bool} {error : String} : flag bad error = [] ↔ bad = false := by
  cases bad <;> simp [flag]

def fieldsCheck (m : Dict F) : Py (List String × List String) :=
  match getKey m "context_fields" with
  | .arr raw => do
    match ← catchValueError (validateContextFields E raw) with
    | some fields => return (fields, [])
    | none => return ([], ["invalid_context_fields"])
  | _ => .ok ([], [])

def policyCheck (m : Dict F) : Py (Dict F × List String) := do
  match ← catchValueError (validatePolicy E (getKey m "policy")) with
  | some policy => return (policy, [])
  | none => return ([], ["invalid_policy"])

def policyIdErrors (m : Dict F) (fields : List String) (policy : Dict F) (cutoff source : String) :
    Py (List String) :=
  if !fields.isEmpty && !policy.isEmpty && cutoff != "" && source != "" then do
    return flag (differs E m "policy_id" (← policyId E (identityPayload fields policy cutoff source)))
      "policy_id_mismatch"
  else .ok []

def signatureErrors (m : Dict F) (key : Key) : Py (List String) :=
  match getKey m "signature" with
  | .obj signature =>
    if differs E signature "algorithm" "hmac-sha256" then .ok ["signature_algorithm_mismatch"]
    else if key.isEmpty then .ok []
    else do
      let expected := E.hmac key (← canonical E.T (.obj (eraseKey "signature" m)))
      let same ← compareDigest expected (← E.strOr signature "value" "")
      return flag (!same) "signature_mismatch" ++
        flag (differs E signature "key_id" (E.keyId key)) "key_id_mismatch"
  | _ => .ok ["signature_missing"]

/-- The rollback entry is an object with the baseline as its target. -/
def rollbackBad (m : Dict F) : Bool :=
  match getKey m "rollback" with
  | .obj rollback => differs E rollback "target_arm" baselineArm
  | _ => true

def lockedRisks : Json F := .arr [.str "medium", .str "high"]

def verifyPolicyManifest (m : Dict F) (key : Key) : Py (ManifestCheck F) := do
  let (fields, fieldsErrors) ← fieldsCheck E m
  let (policy, policyErrors) ← policyCheck E m
  let cutoff := strip (← E.strOr m "evidence_cutoff" "")
  let source := strip (← E.strOr m "source_report_sha256" "")
  let idErrors ← policyIdErrors E m fields policy cutoff source
  let sigErrors ← signatureErrors E m key
  return {
    errors := flag key.isEmpty "signing_key_missing" ++
      flag (differs E m "schema_version" manifestSchemaVersion) "schema_version_mismatch" ++
      flag (differs E m "feature_schema_version" featureSchemaVersion) "feature_schema_mismatch" ++
      fieldsErrors ++ policyErrors ++
      flag (cutoff == "") "missing_evidence_cutoff" ++
      flag (source == "") "missing_source_report_sha256" ++ idErrors ++ sigErrors ++
      flag (differs E m "status" "shadow_only") "status_mismatch" ++
      flag (differs E m "fallback_arm" baselineArm) "fallback_arm_mismatch" ++
      flag (rollbackBad E m) "rollback_target_mismatch" ++
      flag (!pyEq E.T (getKey m "locked_risks") lockedRisks) "locked_risks_mismatch" ++
      flag (truthy E.T (getKey m "automatic_runtime_activation")) "automatic_activation_forbidden"
    policyId := getKey m "policy_id"
    status := getKey m "status" }

/-! ### What a valid manifest satisfies -/

/-- A signature entry that verifies for the texts signed. -/
structure Signed (d : Dict F) (key : Key) : Prop where
  key_ne : key ≠ []
  entry : ∃ signature text, getKey d "signature" = .obj signature ∧
    getKey signature "algorithm" = .str "hmac-sha256" ∧
    getKey signature "key_id" = .str (E.keyId key) ∧
    canonical E.T (.obj (eraseKey "signature" d)) = .ok text ∧
    E.strOr signature "value" "" = .ok (E.hmac key text)

/-- The fields the policy id is computed from: none unless the manifest has a list of them. -/
def FieldsOf (m : Dict F) (fields : List String) : Prop :=
  (∃ raw, getKey m "context_fields" = .arr raw ∧ validateContextFields E raw = .ok fields) ∨
    ((∀ raw, getKey m "context_fields" ≠ .arr raw) ∧ fields = [])

/-- A manifest without errors. -/
structure Verified (m : Dict F) (key : Key) (fields : List String) (policy : Dict F)
    (cutoff source : String) : Prop where
  signed : Signed E m key
  schema : getKey m "schema_version" = .str manifestSchemaVersion
  featureSchema : getKey m "feature_schema_version" = .str featureSchemaVersion
  fieldsOf : FieldsOf E m fields
  policyOf : validatePolicy E (getKey m "policy") = .ok policy
  cutoffOf : ∃ text, E.strOr m "evidence_cutoff" "" = .ok text ∧ strip text = cutoff
  cutoff_ne : cutoff ≠ ""
  sourceOf : ∃ text, E.strOr m "source_report_sha256" "" = .ok text ∧ strip text = source
  source_ne : source ≠ ""
  idOf : policyIdErrors E m fields policy cutoff source = .ok []
  status : getKey m "status" = .str "shadow_only"
  fallback : getKey m "fallback_arm" = .str baselineArm
  rollback : rollbackBad E m = false
  locked : pyEq E.T (getKey m "locked_risks") lockedRisks = true
  inactive : truthy E.T (getKey m "automatic_runtime_activation") = false

theorem signatureErrors_iff {m : Dict F} {key : Key} (hk : key ≠ []) :
    signatureErrors E m key = .ok [] ↔ Signed E m key := by
  have hk' : key.isEmpty = false := by simpa using hk
  constructor
  · intro h
    refine ⟨hk, ?_⟩
    unfold signatureErrors at h
    split at h
    · next signature hs =>
      split_ifs at h with h1 h2
      · simp at h
      · exact absurd h2 (by simp [hk'])
      · simp only [bind_eq_ok] at h
        obtain ⟨text, ht, supplied, hv, same, hc, h⟩ := h
        simp only [pure, Except.pure, Except.ok.injEq, List.append_eq_nil_iff, flag_eq_nil,
          differs_eq_false, Bool.not_eq_false'] at h
        obtain ⟨rfl, h2⟩ := h
        rw [Bool.not_eq_true, differs_eq_false] at h1
        exact ⟨signature, text, hs, h1, h2, ht, by rw [hv, compareDigest_eq_ok hc]⟩
    · simp at h
  · rintro ⟨-, signature, text, hs, h1, h2, ht, hv⟩
    unfold signatureErrors
    rw [hs]
    have h1' : differs E signature "algorithm" "hmac-sha256" = false := by simpa using h1
    have h2' : differs E signature "key_id" (E.keyId key) = false := by simpa using h2
    simp [h1', h2', hk', ht, hv, compareDigest_self (E.hmac_hex key text), bind, Except.bind, pure,
      Except.pure, flag]

theorem fieldsCheck_iff {m : Dict F} {fields : List String} :
    fieldsCheck E m = .ok (fields, []) ↔ FieldsOf E m fields := by
  unfold fieldsCheck FieldsOf
  split
  · next raw hraw =>
    rw [bind_eq_ok]
    constructor
    · rintro ⟨o, ho, h⟩
      cases o with
      | none => simp [pure, Except.pure] at h
      | some f =>
        simp only [pure, Except.pure, Except.ok.injEq, Prod.mk.injEq, and_true] at h
        subst h
        exact Or.inl ⟨raw, hraw, catchValueError_some.mp ho⟩
    · rintro (⟨raw', he, h⟩ | ⟨h, -⟩)
      · cases hraw.symm.trans he
        exact ⟨some fields, catchValueError_some.mpr h, rfl⟩
      · exact absurd hraw (h raw)
  · next hraw =>
    constructor
    · rintro h
      simp only [Except.ok.injEq, Prod.mk.injEq, and_true] at h
      exact Or.inr ⟨fun raw h => hraw raw h, h.symm⟩
    · rintro (⟨raw, he, -⟩ | ⟨-, rfl⟩)
      · exact absurd he (hraw raw)
      · rfl

theorem policyCheck_iff {m : Dict F} {policy : Dict F} :
    policyCheck E m = .ok (policy, []) ↔ validatePolicy E (getKey m "policy") = .ok policy := by
  unfold policyCheck
  rw [bind_eq_ok]
  constructor
  · rintro ⟨o, ho, h⟩
    cases o with
    | none => simp [pure, Except.pure] at h
    | some p =>
      simp only [pure, Except.pure, Except.ok.injEq, Prod.mk.injEq, and_true] at h
      subst h
      exact catchValueError_some.mp ho
  · intro h
    exact ⟨some policy, catchValueError_some.mpr h, rfl⟩

/-- **A manifest is valid if and only if it is `Verified` for the texts it carries.** -/
theorem verify_iff {m : Dict F} {key : Key} :
    (∃ c, verifyPolicyManifest E m key = .ok c ∧ c.valid = true) ↔
      ∃ fields policy cutoff source, Verified E m key fields policy cutoff source := by
  constructor
  · rintro ⟨c, hc, hv⟩
    unfold verifyPolicyManifest at hc
    simp only [bind_eq_ok, pure, Except.pure, Except.ok.injEq] at hc
    obtain ⟨⟨fields, e1⟩, h1, ⟨policy, e2⟩, h2, cutoff, h3, source, h4, e5, h5, e6, h6, rfl⟩ := hc
    simp only [ManifestCheck.valid, List.isEmpty_iff, List.append_eq_nil_iff, flag_eq_nil,
      differs_eq_false, Bool.not_eq_false', beq_eq_false_iff_ne, ne_eq] at hv
    obtain ⟨⟨⟨⟨⟨⟨⟨⟨⟨⟨⟨⟨⟨hk, hs⟩, hf⟩, rfl⟩, rfl⟩, hcu⟩, hso⟩, rfl⟩, rfl⟩, hst⟩, hfa⟩, hro⟩, hlo⟩,
      hin⟩ := hv
    have hk' : key ≠ [] := by simpa using hk
    exact ⟨fields, policy, strip cutoff, strip source, {
      signed := (signatureErrors_iff E hk').mp h6
      schema := hs
      featureSchema := hf
      fieldsOf := (fieldsCheck_iff E).mp h1
      policyOf := (policyCheck_iff E).mp h2
      cutoffOf := ⟨cutoff, h3, rfl⟩
      cutoff_ne := hcu
      sourceOf := ⟨source, h4, rfl⟩
      source_ne := hso
      idOf := h5
      status := hst
      fallback := hfa
      rollback := hro
      locked := hlo
      inactive := hin }⟩
  · rintro ⟨fields, policy, cutoff, source, h⟩
    obtain ⟨ctext, hc, rfl⟩ := h.cutoffOf
    obtain ⟨stext, hs, rfl⟩ := h.sourceOf
    unfold verifyPolicyManifest
    rw [(fieldsCheck_iff E).mpr h.fieldsOf, (policyCheck_iff E).mpr h.policyOf, hc, hs]
    simp only [bind, Except.bind, h.idOf, (signatureErrors_iff E h.signed.key_ne).mpr h.signed,
      pure, Except.pure, Except.ok.injEq, exists_eq_left']
    simp [ManifestCheck.valid, h.signed.key_ne, h.schema, h.featureSchema, h.cutoff_ne, h.source_ne,
      h.status, h.fallback, h.rollback, h.locked, h.inactive]

end ControlPlane.Deployment.Manifest
