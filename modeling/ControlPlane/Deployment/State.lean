import ControlPlane.Deployment.Stages
import ControlPlane.Deployment.Manifest

/-! # Deployment states

A deployment state is a signed JSON object. `createDeploymentState` makes the first one from a verified
manifest and an eligible shadow report; `transitionDeploymentState` moves a verified state to another
stage; `verifyDeploymentState` checks a state from the outside, recomputing the signature, the policy
id of the manifest in it and the traffic fraction of its stage.

`verify_iff`: what a valid state satisfies. `transition_eq_ok`: everything a successful transition
checks and changes. -/

namespace ControlPlane.Deployment.State

open ControlPlane.Lib.Value ControlPlane.Lib.Print ControlPlane.Lib.Text ControlPlane.Lib.Dumps
open ControlPlane.Lib.Floats ControlPlane.Lib.Dynamic
open ControlPlane.Environment ControlPlane.Learning.Features ControlPlane.Learning.Decision
open ControlPlane.Deployment.Manifest ControlPlane.Deployment.Stages

def deploymentSchemaVersion : String := "retrieval-deployment-state-v1"

def defaultStageExposureBudget : Stage → ℤ
  | .canary1 => 100
  | .canary5 => 500
  | .canary10 => 1000
  | .bounded => 5000
  | _ => 0

def defaultStageFailureBudget : Stage → ℤ
  | .canary1 => 5
  | .canary5 => 20
  | .canary10 => 40
  | .bounded => 100
  | _ => 0

variable {F : Type} (E : Env F)

/-! ### Signatures -/

def signPayload (payload : Dict F) (key : Key) : Py (Dict F) := do
  require (!key.isEmpty) "signing key must not be empty"
  let unsigned := eraseKey "signature" payload
  let signature := E.hmac key (← canonical E.T (.obj unsigned))
  return setKey "signature" (.obj [("algorithm", .str "hmac-sha256"), ("key_id", .str (E.keyId key)),
    ("value", .str signature)]) unsigned

def verifySignature (payload : Dict F) (key : Key) : Py (List String) :=
  if key.isEmpty then .ok ["signing_key_missing"]
  else match getKey payload "signature" with
    | .obj signature => do
      let expected := E.hmac key (← canonical E.T (.obj (eraseKey "signature" payload)))
      let same ← compareDigest expected (← E.strOr signature "value" "")
      return flag (differs E signature "algorithm" "hmac-sha256") "signature_algorithm_mismatch" ++
        flag (differs E signature "key_id" (E.keyId key)) "key_id_mismatch" ++
        flag (!same) "signature_mismatch"
    | _ => .ok ["signature_missing"]

def sha256Json (v : Json F) : Py String := do
  return E.sha256 (← canonical E.T v)

/-! ### Creation -/

def trafficForStage (state : Dict F) (stage : String) : Py F :=
  if stage = Stage.bounded.value then
    E.toFloat ((lookup "bounded_traffic_fraction" state).getD (.float (E.T.ofRat (1 / 4))))
  else .ok (E.T.ofRat (((Stage.ofString? stage).map Stage.traffic).getD 0))

/-- The key under which a low-risk row of the current schema counts, if it has one. -/
def rowKey (fields : List (Json F)) (row : Dict F) : Py (Option String) := do
  if E.lower (← E.strOr row "risk" "") != "low" then return none
  if differs E row "feature_schema_version" featureSchemaVersion then return none
  match getKey row "context_features" with
  | .obj features => catchValueError (contextKey E (.obj features) fields)
  | _ => return none

/-- The count at a key. -/
def countOf (counts : Dict F) (k : String) : ℤ :=
  match getKey counts k with
  | .int n => n
  | _ => 0

/-- The loop of `lowRiskContextDistribution`: the counts and the number of rows counted. -/
def countRows (fields : List (Json F)) : List (Dict F) → Dict F → ℤ → Py (Dict F × ℤ)
  | [], counts, accepted => .ok (counts, accepted)
  | row :: rows, counts, accepted => do
    match ← rowKey E fields row with
    | none => countRows fields rows counts accepted
    | some k => countRows fields rows (setKey k (.int (countOf counts k + 1)) counts) (accepted + 1)

/-- `round(count / accepted, 12)`. -/
def share (count accepted : ℤ) : F :=
  E.T.round (E.T.ofRat (count / accepted)) 12

/-- The context distribution of the last `limit` of the given learning records. -/
def lowRiskContextDistribution (records : List (Dict F)) (manifest : Dict F) (limit : ℤ) :
    Py (Dict F) :=
  match getKey manifest "context_fields" with
  | .arr raw => do
    let fields ← raw.mapM E.str
    let rows := records.drop (records.length - (max 1 limit).toNat)
    let (counts, accepted) ← countRows E (fields.map .str) rows [] 0
    let sorted := sortPairs counts
    return [("sample_size", .int accepted), ("counts", .obj sorted),
      ("distribution", .obj (sorted.map fun p =>
        (p.1, .float (share E (countOf counts p.1) accepted))))]
  | _ => .error (.valueError "manifest is missing context fields")

def stageBudgets (maxCumulativeRealizedCost : Option F) : Dict F :=
  Stage.live.map fun stage => (stage.value,
    .obj [("max_candidate_exposures", .int (defaultStageExposureBudget stage)),
      ("max_candidate_failures", .int (defaultStageFailureBudget stage)),
      ("max_cumulative_realized_cost", (maxCumulativeRealizedCost.map .float).getD .null)])

/-- The arguments of `createDeploymentState` after the key. -/
structure CreateArgs (F : Type) where
  approvedBy : String
  boundedTrafficFraction : F
  rewardMin : F
  rewardMax : F
  maxImportanceWeight : F
  minimumMonitorOutcomes : ℤ
  promotionMargin : F
  maxRewardRegression : F
  maxFailureRate : F
  maxContextTvDistance : F
  maxUnknownContextRate : F
  minimumDriftSamples : ℤ
  driftWindow : ℤ
  minimumMonitorClusters : ℤ
  clusterBootstrapResamples : ℤ
  clusterBootstrapSeed : ℤ
  maxCumulativeRealizedCost : Option F

/-- The shadow report is about the manifest, passed its gate and got no traffic. -/
def shadowEligible (manifest report : Dict F) : Bool :=
  pyEq E.T (getKey report "policy_id") (getKey manifest "policy_id") &&
    pyEq E.T (getKey report "evidence_cutoff") (getKey manifest "evidence_cutoff") &&
    (match objOf? report "shadow_gate" with
      | some gate => truthy E.T (getKey gate "eligible_for_manual_promotion_review")
      | none => false) &&
    (match objOf? report "manifest_verification" with
      | some check => truthy E.T (getKey check "valid")
      | none => false) &&
    (match objOf? report "execution" with
      | some execution => !truthy E.T (getKey execution "policy_received_runtime_traffic")
      | none => false)

/-- `lo <= x <= hi` for literals. -/
def between (lo hi : ℚ) (x : F) : Bool :=
  (E.T.lit lo).le (E.T.view x) && (E.T.view x).le (E.T.lit hi)

/-- The bounded traffic fraction is above 10 and at most 25 percent. -/
def boundedOk (x : F) : Bool :=
  (E.T.lit (1 / 10)).lt (E.T.view x) && (E.T.view x).le (E.T.lit (1 / 4))

/-- The checks of the numeric arguments. -/
def checkArgs (a : CreateArgs F) : Py Unit := do
  require (E.T.finite a.boundedTrafficFraction && boundedOk E a.boundedTrafficFraction)
    "bounded_traffic_fraction must be greater than 0.10 and at most 0.25"
  require (E.T.finite a.rewardMin && E.T.finite a.rewardMax) "reward bounds must be finite"
  require (!(E.T.view a.rewardMax).le (E.T.view a.rewardMin))
    "reward_max must be greater than reward_min"
  require (!(E.T.view a.maxImportanceWeight).lt (E.T.lit 100))
    "max_importance_weight must be at least 100 for the 1% canary"
  require (between E 0 1 a.maxFailureRate) "max_failure_rate must be between 0 and 1"
  require (between E 0 1 a.maxContextTvDistance) "max_context_tv_distance must be between 0 and 1"
  require (between E 0 1 a.maxUnknownContextRate) "max_unknown_context_rate must be between 0 and 1"
  require (decide (2 ≤ a.minimumMonitorClusters)) "minimum_monitor_clusters must be at least 2"
  require (decide (100 ≤ a.clusterBootstrapResamples))
    "cluster_bootstrap_resamples must be at least 100"
  match a.maxCumulativeRealizedCost with
  | some x =>
    require (E.T.finite x && !(E.T.view x).lt (E.T.lit 0))
      "max_cumulative_realized_cost must be finite/non-negative"
  | none => .ok ()

def guardrailEntries (a : CreateArgs F) : Dict F :=
  [("reward_min", .float a.rewardMin), ("reward_max", .float a.rewardMax),
    ("max_importance_weight", .float a.maxImportanceWeight),
    ("minimum_monitor_outcomes", .int (max 1 a.minimumMonitorOutcomes)),
    ("promotion_margin", .float a.promotionMargin),
    ("max_reward_regression", .float (E.T.max (E.T.ofRat 0) a.maxRewardRegression)),
    ("max_failure_rate", .float a.maxFailureRate),
    ("max_context_tv_distance", .float a.maxContextTvDistance),
    ("max_unknown_context_rate", .float a.maxUnknownContextRate),
    ("minimum_drift_samples", .int (max 1 a.minimumDriftSamples)),
    ("drift_window", .int (max 1 a.driftWindow)),
    ("minimum_monitor_clusters", .int a.minimumMonitorClusters),
    ("cluster_bootstrap_resamples", .int a.clusterBootstrapResamples),
    ("cluster_bootstrap_seed", .int a.clusterBootstrapSeed),
    ("stage_budgets", .obj (stageBudgets a.maxCumulativeRealizedCost))]

/-- An entry of the history. -/
def historyEntry (generation : ℤ) (source target actor now : String) (evidence : Json F)
    (reason : String) : Json F :=
  .obj [("generation", .int generation), ("from", .str source), ("to", .str target),
    ("actor", .str actor), ("at", .str now), ("evidence_sha256", evidence), ("reason", .str reason)]

/-- The fields of the first state, before it is signed. -/
def firstState (manifest : Dict F) (a : CreateArgs F) (policyId approver now : String)
    (baseline : Dict F) (evidence : String) : Dict F :=
  [("schema_version", .str deploymentSchemaVersion), ("policy_id", .str policyId),
    ("stage", .str Stage.approved.value), ("traffic_fraction", .float (E.T.ofRat 0)),
    ("bounded_traffic_fraction", .float a.boundedTrafficFraction), ("generation", .int 1),
    ("created_at", .str now), ("updated_at", .str now), ("approved_by", .str approver),
    ("automatic_runtime_activation", .bool false), ("policy_manifest", .obj manifest),
    ("shadow_report_sha256", .str evidence), ("baseline_context_distribution", .obj baseline),
    ("guardrails", .obj (guardrailEntries E a)),
    ("rollback", .obj [("target_arm", .str baselineArm), ("automatic", .bool true),
      ("reason", .null), ("rolled_back_at", .null)]),
    ("history", .arr [historyEntry 1 "shadow" Stage.approved.value approver now (.str evidence)
      "manual approval after signed shadow evidence"])]

/-- Creates the first state; `records` are the learning records and `now` is the time. -/
def createDeploymentState (records : List (Dict F)) (manifest shadowReport : Dict F) (key : Key)
    (a : CreateArgs F) (now : String) : Py (Dict F) := do
  let check ← verifyPolicyManifest E manifest key
  require check.valid "policy manifest verification failed"
  require (shadowEligible E manifest shadowReport)
    "shadow report is not eligible for deployment approval"
  let approver := strip a.approvedBy
  require (approver != "") "approved_by must not be blank"
  checkArgs E a
  let policyId := strip (← E.strOr manifest "policy_id" "")
  let baseline ← lowRiskContextDistribution E records manifest 2000
  let evidence ← sha256Json E (.obj shadowReport)
  signPayload E (firstState E manifest a policyId approver now baseline evidence) key

/-! ### Verification -/

/-- The report of a verification. -/
structure StateCheck (F : Type) where
  errors : List String
  policyId : Json F
  stage : String
  generation : Json F
  trafficFraction : Json F
  manifest : Option (ManifestCheck F)

def StateCheck.valid (c : StateCheck F) : Bool := c.errors.isEmpty

def generationBad : Json F → Bool
  | .int n => decide (n < 1)
  | _ => true

def manifestErrors (state : Dict F) (key : Key) : Py (List String × Option (ManifestCheck F)) :=
  match getKey state "policy_manifest" with
  | .obj manifest => do
    let check ← verifyPolicyManifest E manifest key
    return (flag (!check.valid) "manifest_verification_failed" ++
      flag (!pyEq E.T (getKey state "policy_id") (getKey manifest "policy_id")) "policy_id_mismatch",
      some check)
  | _ => .ok (["manifest_missing"], none)

def boundedBad (state : Dict F) : Py Bool := do
  match ← E.number? (getKey state "bounded_traffic_fraction") with
  | some x => return !boundedOk E x
  | none => return true

def trafficBad (state : Dict F) (stage : String) : Py Bool := do
  if (Stage.ofString? stage).isNone then return true
  let expected ← trafficForStage E state stage
  match ← E.number? (getKey state "traffic_fraction") with
  | some x => return (E.T.lit (1 / 10 ^ 12)).lt (E.T.sub (E.T.view x) (E.T.view expected)).abs
  | none => return true

def verifyDeploymentState (state : Dict F) (key : Key) : Py (StateCheck F) := do
  let sigErrors ← verifySignature E state key
  let stage ← E.strOr state "stage" ""
  let (manErrors, manCheck) ← manifestErrors E state key
  let boundedError ← boundedBad E state
  let trafficError ← trafficBad E state stage
  return {
    errors := sigErrors ++
      flag (differs E state "schema_version" deploymentSchemaVersion) "schema_version_mismatch" ++
      flag (Stage.ofString? stage).isNone "invalid_stage" ++
      flag (generationBad (getKey state "generation")) "invalid_generation" ++ manErrors ++
      flag boundedError "invalid_bounded_traffic_fraction" ++
      flag trafficError "traffic_fraction_mismatch" ++
      flag (truthy E.T (getKey state "automatic_runtime_activation"))
        "automatic_activation_forbidden" ++
      flag (rollbackBad E state) "rollback_target_mismatch"
    policyId := getKey state "policy_id"
    stage := stage
    generation := getKey state "generation"
    trafficFraction := getKey state "traffic_fraction"
    manifest := manCheck }

/-! ### Transitions -/

/-- The arguments of `transitionDeploymentState` after the key, and the time. -/
structure TransitionArgs (F : Type) where
  toStage : String
  actor : String
  guardrailReport : Option (Json F)
  reason : Option String
  now : String

/-- The stripped reason, unless it is blank. -/
def TransitionArgs.reason? (a : TransitionArgs F) : Option String :=
  match a.reason with
  | some r => if strip r = "" then none else some (strip r)
  | none => none

/-- The checks of a promotion from a live stage. -/
def checkGuardrails (state : Dict F) (current : String) (report : Option (Json F)) : Py Unit :=
  match report with
  | some (.obj report) => do
    require (match objOf? report "gate" with
      | some gate => truthy E.T (getKey gate "safe_to_advance")
      | none => false) "live-stage promotion requires a passing guardrail report"
    require (pyEq E.T (getKey report "policy_id") (getKey state "policy_id"))
      "guardrail report policy_id mismatch"
    require (pyEq E.T (getKey report "state_generation") (getKey state "generation"))
      "guardrail report generation mismatch"
    require (same E report "stage" current) "guardrail report stage mismatch"
  | _ => .error (.valueError "live-stage promotion requires a passing guardrail report")

/-- The checks of a target stage. -/
def checkTarget (state : Dict F) (current target : String) (report : Option (Json F)) : Py Unit :=
  if target = Stage.rolledBack.value then
    require (current != Stage.rolledBack.value) "deployment is already rolled back"
  else do
    require (((Stage.ofString? current).bind Stage.next).map Stage.value == some target)
      ("invalid deployment transition: " ++ current ++ " -> " ++ target)
    if (Stage.live.map Stage.value).contains current then checkGuardrails E state current report

/-- The integer a verified generation is. -/
def generationOf (state : Dict F) : ℤ :=
  match getKey state "generation" with
  | .int n => n
  | _ => 0

/-- The entries of the history so far. -/
def historyOf (state : Dict F) : Py (List (Json F)) :=
  let history := getKey state "history"
  if truthy E.T history then toList history else .ok []

/-- The rollback entry after a rollback; a verified state has an object there. -/
def rollbackEntry (state : Dict F) (actor now : String) (reason : Option String) : Dict F :=
  let rollback := (objOf? state "rollback").getD []
  setKey "automatic" (.bool (startsWith actor "runtime:"))
    (setKey "rolled_back_at" (.str now)
      (setKey "reason" (.str (reason.getD "deployment guardrail rollback")) rollback))

/-- The state without its signature, at another stage. -/
def movedTo (state : Dict F) (target now : String) (traffic : F) : Dict F :=
  setKey "updated_at" (.str now) (setKey "generation" (.int (generationOf state + 1))
    (setKey "traffic_fraction" (.float traffic)
      (setKey "stage" (.str target) (eraseKey "signature" state))))

/-- A moved state with its history and, after a rollback, the rollback entry. -/
def recorded (moved : Dict F) (history : List (Json F)) (target actor now : String)
    (reason : Option String) : Dict F :=
  let unsigned := setKey "history" (.arr history) moved
  if target = Stage.rolledBack.value then
    setKey "rollback" (.obj (rollbackEntry unsigned actor now reason)) unsigned
  else unsigned

/-- The digest of a guardrail report, if there is one. -/
def evidenceOf (report : Option (Json F)) : Py (Json F) :=
  match report with
  | some report => do return .str (← sha256Json E report)
  | none => .ok .null

/-- The reason in the history. -/
def historyReason (reason : Option String) (target : String) : String :=
  reason.getD (if target = Stage.rolledBack.value then "manual or automatic rollback"
    else "manual staged promotion")

def transitionDeploymentState (state : Dict F) (key : Key) (a : TransitionArgs F) : Py (Dict F) := do
  let check ← verifyDeploymentState E state key
  require check.valid "deployment state verification failed"
  let current ← E.str (getKey state "stage")
  let target := strip a.toStage
  let actor := strip a.actor
  require (actor != "") "actor must not be blank"
  checkTarget E state current target a.guardrailReport
  let traffic ← trafficForStage E (setKey "stage" (.str target) (eraseKey "signature" state)) target
  let moved := movedTo state target a.now traffic
  let history ← historyOf E moved
  let evidence ← evidenceOf E a.guardrailReport
  let entry := historyEntry (generationOf state + 1) current target actor a.now evidence
    (historyReason a.reason? target)
  signPayload E (recorded moved (history ++ [entry]) target actor a.now a.reason?) key

/-! ### Files -/

/-- The text of a state file. -/
def stateText (state : Dict F) : Py String := E.fileText true (.obj state)

def loadDeploymentState (text : String) : Py (Dict F) := do
  match ← E.jsonLoads text with
  | .obj state => return state
  | _ => .error (.valueError "deployment state must be a JSON object")

/-- What `updateDeploymentStateFile` makes of the text it reads under the lock. -/
def updatedState (text : String) (key : Key) (expectedGeneration : Option ℤ) (a : TransitionArgs F) :
    Py (Dict F) := do
  let current ← loadDeploymentState E text
  let check ← verifyDeploymentState E current key
  require check.valid "deployment state verification failed"
  require (match expectedGeneration with
    | some g => generationOf current == g
    | none => true) "deployment state generation changed; refresh before retrying"
  transitionDeploymentState E current key a

/-! ### What a valid state satisfies -/

theorem verifySignature_iff {payload : Dict F} {key : Key} :
    verifySignature E payload key = .ok [] ↔ Signed E payload key := by
  unfold verifySignature
  constructor
  · intro h
    split_ifs at h with hk
    · simp at h
    · split at h
      · next signature hs =>
        simp only [bind_eq_ok, pure, Except.pure, Except.ok.injEq, List.append_eq_nil_iff, flag_eq_nil,
          differs_eq_false, Bool.not_eq_false'] at h
        obtain ⟨text, ht, supplied, hv, same, hc, ⟨h1, h2⟩, rfl⟩ := h
        exact ⟨by simpa using hk, signature, text, hs, h1, h2, ht, by
          rw [hv, compareDigest_eq_ok hc]⟩
      · simp at h
  · rintro ⟨hk, signature, text, hs, h1, h2, ht, hv⟩
    rw [if_neg (by simpa using hk), hs]
    have h1' : differs E signature "algorithm" "hmac-sha256" = false := by simpa using h1
    have h2' : differs E signature "key_id" (E.keyId key) = false := by simpa using h2
    simp [h1', h2', ht, hv, compareDigest_self (E.hmac_hex key text), bind, Except.bind, pure,
      Except.pure, flag]

/-- The manifest in a state is valid and has the state's policy id. -/
def ManifestOk (state : Dict F) (key : Key) : Prop :=
  ∃ manifest, getKey state "policy_manifest" = .obj manifest ∧
    (∃ c, verifyPolicyManifest E manifest key = .ok c ∧ c.valid = true) ∧
    pyEq E.T (getKey state "policy_id") (getKey manifest "policy_id") = true

theorem manifestErrors_iff {state : Dict F} {key : Key} :
    (∃ c, manifestErrors E state key = .ok ([], c)) ↔ ManifestOk E state key := by
  unfold manifestErrors ManifestOk
  constructor
  · rintro ⟨c, h⟩
    split at h
    · next manifest hm =>
      simp only [bind_eq_ok, pure, Except.pure, Except.ok.injEq, Prod.mk.injEq,
        List.append_eq_nil_iff, flag_eq_nil, Bool.not_eq_false'] at h
      obtain ⟨check, hc, ⟨hv, hid⟩, -⟩ := h
      exact ⟨manifest, hm, ⟨check, hc, hv⟩, hid⟩
    · simp at h
  · rintro ⟨manifest, hm, ⟨check, hc, hv⟩, hid⟩
    rw [hm]
    exact ⟨some check, by simp [hc, hv, hid, bind, Except.bind, pure, Except.pure, flag]⟩

/-- A state without errors, with the text of its stage. -/
structure ValidState (state : Dict F) (key : Key) (stage : String) : Prop where
  signed : Signed E state key
  schema : getKey state "schema_version" = .str deploymentSchemaVersion
  stageOf : E.strOr state "stage" "" = .ok stage
  known : (Stage.ofString? stage).isNone = false
  generation : generationBad (getKey state "generation") = false
  manifest : ManifestOk E state key
  bounded : boundedBad E state = .ok false
  traffic : trafficBad E state stage = .ok false
  inactive : truthy E.T (getKey state "automatic_runtime_activation") = false
  rollback : rollbackBad E state = false

/-- **A state is valid if and only if it is a `ValidState`.** -/
theorem verify_iff {state : Dict F} {key : Key} :
    (∃ c, verifyDeploymentState E state key = .ok c ∧ c.valid = true) ↔
      ∃ stage, ValidState E state key stage := by
  constructor
  · rintro ⟨c, hc, hv⟩
    unfold verifyDeploymentState at hc
    simp only [bind_eq_ok, pure, Except.pure, Except.ok.injEq] at hc
    obtain ⟨e1, h1, stage, h2, ⟨e3, c3⟩, h3, b, h4, t, h5, rfl⟩ := hc
    simp only [StateCheck.valid, List.isEmpty_iff, List.append_eq_nil_iff, flag_eq_nil,
      differs_eq_false] at hv
    obtain ⟨⟨⟨⟨⟨⟨⟨⟨rfl, hs⟩, hst⟩, hg⟩, rfl⟩, rfl⟩, rfl⟩, hin⟩, hro⟩ := hv
    exact ⟨stage, (verifySignature_iff E).mp h1, hs, h2, hst, hg,
      (manifestErrors_iff E).mp ⟨c3, h3⟩, h4, h5, hin, hro⟩
  · rintro ⟨stage, h⟩
    obtain ⟨c, hc⟩ := (manifestErrors_iff E).mpr h.manifest
    unfold verifyDeploymentState
    rw [(verifySignature_iff E).mpr h.signed, h.stageOf, hc, h.bounded]
    simp only [bind, Except.bind, h.traffic, pure, Except.pure, Except.ok.injEq, exists_eq_left']
    simp [StateCheck.valid, h.schema, h.known, h.generation, h.inactive, h.rollback]

/-! ### Signing -/

theorem signPayload_eq_ok {payload signed : Dict F} {key : Key} :
    signPayload E payload key = .ok signed ↔ key ≠ [] ∧ ∃ text,
      canonical E.T (.obj (eraseKey "signature" payload)) = .ok text ∧
        signed = setKey "signature" (.obj [("algorithm", .str "hmac-sha256"),
          ("key_id", .str (E.keyId key)), ("value", .str (E.hmac key text))])
          (eraseKey "signature" payload) := by
  simp only [signPayload, bind_eq_ok, require_eq_ok, pure, Except.pure, Except.ok.injEq]
  constructor
  · rintro ⟨-, hk, text, ht, rfl⟩
    exact ⟨by simpa using hk, text, ht, rfl⟩
  · rintro ⟨hk, text, ht, rfl⟩
    exact ⟨⟨⟩, by simpa using hk, text, ht, rfl⟩

section Signed
variable {payload signed : Dict F} {key : Key} (h : signPayload E payload key = .ok signed)
include h

/-- Signing only changes the signature. -/
theorem getKey_signed {k : String} (hk : k ≠ "signature") : getKey signed k = getKey payload k := by
  obtain ⟨-, text, -, rfl⟩ := (signPayload_eq_ok E).mp h
  rw [getKey_setKey_ne hk.symm, getKey_eraseKey_ne hk.symm]

theorem lookup_signed {k : String} (hk : k ≠ "signature") : lookup k signed = lookup k payload := by
  obtain ⟨-, text, -, rfl⟩ := (signPayload_eq_ok E).mp h
  rw [lookup_setKey_ne hk.symm, lookup_eraseKey_ne hk.symm]

theorem eraseKey_signed : eraseKey "signature" signed = eraseKey "signature" payload := by
  obtain ⟨-, text, -, rfl⟩ := (signPayload_eq_ok E).mp h
  exact eraseKey_setKey _ _ _

/-- **What was signed verifies.** -/
theorem signed_signPayload : Signed E signed key := by
  obtain ⟨hk, text, ht, he⟩ := (signPayload_eq_ok E).mp h
  refine ⟨hk, _, text, by rw [he, getKey_setKey_self], ?_, ?_, ?_, ?_⟩
  · simp [getKey, lookup]
  · simp [getKey, lookup]
  · rw [eraseKey_signed E h, ht]
  · simp [Env.strOr, lookup, Env.str]

theorem wellFormed_signed (hw : wellFormed (.obj payload) = true) :
    wellFormed (.obj signed) = true := by
  obtain ⟨-, text, -, rfl⟩ := (signPayload_eq_ok E).mp h
  refine wellFormed_setKey (wellFormed_eraseKey hw "signature") "signature" ?_
  simp [keys]

theorem printable_signed : printable E.T.toFloatText true (.obj signed) = true := by
  obtain ⟨-, text, ht, rfl⟩ := (signPayload_eq_ok E).mp h
  refine printable_setKey ((canonical_eq_ok E.T).mp ht).1 "signature" ?_
  rw [printable_obj]
  simp [printable]

end Signed

/-! ### What a transition changes -/

/-- The fields that a transition may change. -/
def movingKeys : List String :=
  ["stage", "traffic_fraction", "generation", "updated_at", "history", "rollback", "signature"]

section Moved
variable (state : Dict F) (target now : String) (traffic : F)

theorem getKey_movedTo_ne {k : String} (hk : k ∉ movingKeys) :
    getKey (movedTo state target now traffic) k = getKey state k := by
  simp only [movingKeys, List.mem_cons, List.not_mem_nil, or_false, not_or] at hk
  obtain ⟨h1, h2, h3, h4, -, -, h7⟩ := hk
  rw [movedTo, getKey_setKey_ne (Ne.symm h4), getKey_setKey_ne (Ne.symm h3),
    getKey_setKey_ne (Ne.symm h2), getKey_setKey_ne (Ne.symm h1), getKey_eraseKey_ne (Ne.symm h7)]

@[simp] theorem getKey_movedTo_stage : getKey (movedTo state target now traffic) "stage" =
    .str target := by
  simp [movedTo, getKey_setKey_ne]

@[simp] theorem getKey_movedTo_traffic :
    getKey (movedTo state target now traffic) "traffic_fraction" = .float traffic := by
  simp [movedTo, getKey_setKey_ne]

@[simp] theorem getKey_movedTo_generation : getKey (movedTo state target now traffic) "generation" =
    .int (generationOf state + 1) := by
  simp [movedTo, getKey_setKey_ne]

@[simp] theorem getKey_movedTo_history : getKey (movedTo state target now traffic) "history" =
    getKey state "history" := by
  simp [movedTo, getKey_setKey_ne, getKey_eraseKey_ne]

@[simp] theorem getKey_movedTo_rollback : getKey (movedTo state target now traffic) "rollback" =
    getKey state "rollback" := by
  simp [movedTo, getKey_setKey_ne, getKey_eraseKey_ne]

end Moved

section Recorded
variable (moved : Dict F) (history : List (Json F)) (target actor now : String)
  (reason : Option String)

theorem getKey_recorded_ne {k : String} (h1 : k ≠ "history") (h2 : k ≠ "rollback") :
    getKey (recorded moved history target actor now reason) k = getKey moved k := by
  unfold recorded
  split_ifs
  · rw [getKey_setKey_ne h2.symm, getKey_setKey_ne h1.symm]
  · rw [getKey_setKey_ne h1.symm]

@[simp] theorem getKey_recorded_history :
    getKey (recorded moved history target actor now reason) "history" = .arr history := by
  unfold recorded
  split_ifs
  · rw [getKey_setKey_ne (by decide), getKey_setKey_self]
  · rw [getKey_setKey_self]

theorem rollbackBad_recorded (h : rollbackBad E moved = false) :
    rollbackBad E (recorded moved history target actor now reason) = false := by
  have hr : getKey (setKey "history" (.arr history) moved) "rollback" = getKey moved "rollback" :=
    getKey_setKey_ne (by decide) _ _
  unfold rollbackBad at h ⊢
  unfold recorded
  split at h
  · next rollback hm =>
    rw [differs_eq_false] at h
    split_ifs
    · rw [getKey_setKey_self]
      simp [rollbackEntry, objOf?, hr, hm, getKey_setKey_ne, h]
    · rw [hr, hm]
      simpa using h
  · simp at h

end Recorded

/-- **Everything a successful transition checks and changes.** -/
theorem transition_eq_ok {state next : Dict F} {key : Key} {a : TransitionArgs F} :
    transitionDeploymentState E state key a = .ok next ↔
      (∃ stage, ValidState E state key stage) ∧ strip a.actor ≠ "" ∧
        ∃ current traffic history evidence,
          E.str (getKey state "stage") = .ok current ∧
          checkTarget E state current (strip a.toStage) a.guardrailReport = .ok () ∧
          trafficForStage E (setKey "stage" (.str (strip a.toStage)) (eraseKey "signature" state))
            (strip a.toStage) = .ok traffic ∧
          historyOf E (movedTo state (strip a.toStage) a.now traffic) = .ok history ∧
          evidenceOf E a.guardrailReport = .ok evidence ∧
          signPayload E (recorded (movedTo state (strip a.toStage) a.now traffic)
            (history ++ [historyEntry (generationOf state + 1) current (strip a.toStage)
              (strip a.actor) a.now evidence (historyReason a.reason? (strip a.toStage))])
            (strip a.toStage) (strip a.actor) a.now a.reason?) key = .ok next := by
  rw [← verify_iff]
  simp only [transitionDeploymentState, bind_eq_ok, require_eq_ok]
  constructor
  · rintro ⟨c, hc, -, hv, current, hcur, -, ha, ⟨⟩, hchk, traffic, ht, history, hh, evidence, he, hs⟩
    exact ⟨⟨c, hc, hv⟩, by simpa using ha, current, traffic, history, evidence, hcur, hchk, ht, hh,
      he, hs⟩
  · rintro ⟨⟨c, hc, hv⟩, ha, current, traffic, history, evidence, hcur, hchk, ht, hh, he, hs⟩
    exact ⟨c, hc, ⟨⟩, hv, current, hcur, ⟨⟩, by simpa using ha, ⟨⟩, hchk, traffic, ht, history, hh,
      evidence, he, hs⟩

end ControlPlane.Deployment.State
