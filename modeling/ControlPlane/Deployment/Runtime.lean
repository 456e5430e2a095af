import ControlPlane.Deployment.Guardrails
import ControlPlane.Deployment.ContextKeys

/-! # Deployments at run time

`resolveRuntimeDeployment` assigns a request to the candidate arm of its context, to its control, or to
the baseline. It reads the state file, evaluates the guardrails of a live stage and rolls the deployment
back if they require it; `resolveLive` is what it does after that.

`resolveLive_low`: for a low-risk request in a live stage, the assignment records the context key and
the arm that `targetArm` finds. `candidate_resolveLive`: when the candidate is assigned. -/

namespace ControlPlane.Deployment.Runtime

open ControlPlane.Lib.Value ControlPlane.Lib.Text ControlPlane.Lib.Floats ControlPlane.Lib.Dynamic
open ControlPlane.Environment ControlPlane.Learning.Features ControlPlane.Learning.Decision
open ControlPlane.Learning.Records ControlPlane.Deployment.Stages ControlPlane.Deployment.Manifest
open ControlPlane.Deployment.State ControlPlane.Deployment.Guardrails
open ControlPlane.Deployment.Reread ControlPlane.Deployment.ContextKeys

variable {F : Type} (E : Env F)

def deploymentConfig (config : Dict F) : Dict F :=
  match objOf? config "context" with
  | some context => (objOf? context "deployment").getD []
  | none => []

def deploymentEnabled (config : Dict F) : Bool :=
  truthy E.T (getKey (deploymentConfig config) "enabled")

def autoRollbackEnabled (config : Dict F) : Bool :=
  truthy E.T ((lookup "auto_rollback" (deploymentConfig config)).getD (.bool true))

/-! ### Assignments -/

/-- A context key as an entry of an object. -/
def keyValue : Option String → Json F
  | some key => .str key
  | none => .null

/-- The assignment to the baseline; the empty state stands for none. -/
def baselineAssignment (reason : String) (state : Dict F) (context : Option String) (target : String) :
    Dict F :=
  [("chosen_arm", .str baselineArm), ("arm_propensities", .obj (baselinePropensities E)),
    ("mode", .str "canary"), ("safety_reason", .str reason),
    ("deployment", .obj [("assignment", .str "baseline"), ("reason", .str reason),
      ("policy_id", getKey state "policy_id"), ("state_generation", getKey state "generation"),
      ("stage", getKey state "stage"),
      ("traffic_fraction", if state.isEmpty then .float (E.T.ofRat 0)
        else getKey state "traffic_fraction"),
      ("candidate_probability", .float (E.T.ofRat 0)),
      ("chosen_probability", .float (E.T.ofRat 1)), ("target_arm", .str target),
      ("context_key", keyValue context), ("source", .str "stage7_deployment")])]

/-- The arm of the policy for the features, and the context key it was found under. -/
def targetArm (state : Dict F) (features : Json F) : Py (String × Option String) :=
  match getKey state "policy_manifest" with
  | .obj manifest =>
    match getKey manifest "context_fields", getKey manifest "policy" with
    | .arr raw, .obj policy => do
      match ← catchValueError (fieldsKey E features raw) with
      | none => return (baselineArm, none)
      | some key =>
        let arm := strip (← E.strOr policy key baselineArm)
        return (if safeExplorationArms.contains arm then arm else baselineArm, some key)
    | _, _ => .ok (baselineArm, none)
  | _ => .ok (baselineArm, none)

/-- What the platform draws for an assignment: a number in the unit interval, and its nonce. -/
structure Bucket (F : Type) where
  bucket : F
  nonce : String

/-- The bucket is below the traffic fraction. -/
def isCandidate (probability : F) (b : Bucket F) : Bool := (E.T.view b.bucket).lt (E.T.view probability)

/-- The assignment to the candidate or to its control. -/
def signedAssignment (state : Dict F) (target : String) (key : Option String) (probability : F)
    (b : Bucket F) : Dict F :=
  let candidate := isCandidate E probability b
  let rest := E.T.ofRat (1 - E.T.rat probability)
  [("chosen_arm", .str (if candidate then target else baselineArm)),
    ("arm_propensities", .obj (setKey target (.float (E.T.round probability 12))
      [(baselineArm, .float (E.T.round rest 12))])),
    ("mode", .str "canary"),
    ("safety_reason", .str (if candidate then "deployment_candidate" else "deployment_control")),
    ("deployment", .obj [("assignment", .str (if candidate then "candidate" else "control")),
      ("reason", .str "signed_canary_assignment"), ("policy_id", getKey state "policy_id"),
      ("state_generation", .int (generationOf state)), ("stage", getKey state "stage"),
      ("traffic_fraction", .float probability), ("candidate_probability", .float probability),
      ("chosen_probability", .float (if candidate then probability else rest)),
      ("target_arm", .str target), ("context_key", keyValue key),
      ("assignment_bucket", .float (E.T.round b.bucket 12)), ("assignment_nonce", .str b.nonce),
      ("source", .str "stage7_deployment")])]

/-- The traffic fraction is one that can be drawn against. -/
def drawable (probability : F) : Bool :=
  E.T.finite probability && (E.T.lit 0).lt (E.T.view probability) &&
    (E.T.view probability).lt (E.T.lit 1)

/-- The assignment of a request whose context has an arm. -/
def assignTarget (state : Dict F) (target : String) (key : Option String) (b : Bucket F) :
    Py (Dict F) :=
  if target = baselineArm then
    .ok (baselineAssignment E "deployment_baseline_context" state key target)
  else do
    let probability ← E.toFloat ((lookup "traffic_fraction" state).getD (.float (E.T.ofRat 0)))
    if !drawable E probability then
      return baselineAssignment E "deployment_traffic_fraction_invalid" state key target
    let _ ← E.strOr state "policy_id" ""
    return signedAssignment E state target key probability b

/-- The assignment by a verified state that needs no rollback. -/
def resolveLive (state : Dict F) (r : Request) (workspaceRootsCount : ℤ) (b : Bucket F) :
    Py (Dict F) := do
  if !(← inLiveStages (getKey state "stage")) then
    let stage ← E.str (getKey state "stage")
    return baselineAssignment E ("deployment_stage_" ++ stage) state none baselineArm
  if r.decision.risk ≠ .low then
    return baselineAssignment E "deployment_risk_locked" state none baselineArm
  let (target, key) ← targetArm E state (.obj (r.features workspaceRootsCount).toDict)
  assignTarget E state target key b

/-! ### Rolling back -/

/-- The configuration and the platform of a deployment. -/
structure Site (F : Type) where
  config : Dict F
  /-- The value of the environment variable of the kill switch. -/
  killEnv : String
  /-- The state path is relative and stays inside the project. -/
  statePathOk : Bool
  signingKey : Key
  statistics : Statistics F

/-- What the file system makes of an update of the state file. -/
inductive UpdateOutcome where
  | done
  /-- The lock or the write fails: the file is as before. -/
  | failedBefore
  /-- The file is replaced, but the call raises an `OSError` afterwards. -/
  | failedAfter
  deriving DecidableEq

/-- What becomes of the state file, and the new state if the call returns. -/
def updateDeploymentStateFile (text : String) (key : Key) (expectedGeneration : Option ℤ)
    (a : TransitionArgs F) (o : UpdateOutcome) : Py (Option (Dict F) × String) := do
  if o = .failedBefore then return (none, text)
  let updated ← updatedState E text key expectedGeneration a
  let written ← stateText E updated
  return (if o = .done then some updated else none, written)

/-- The error is one of `(OSError, RuntimeError, ValueError)`. -/
def isHandled : Exn → Bool
  | .typeError _ => false
  | .overflowError _ => false
  | .indexError _ => false
  | _ => true

/-- The rollback that a report requires: the state to go on with, and the state file. -/
def rollBack (s : Site F) (text : String) (state : Dict F) (report : GuardrailReport) (now : String)
    (o : UpdateOutcome) : Py (Dict F × String) :=
  let reason := if report.rollbackBlockers.isEmpty then "live deployment guardrail failure"
    else ", ".intercalate report.rollbackBlockers
  match updateDeploymentStateFile E text s.signingKey (some (generationOf state))
    ⟨Stage.rolledBack.value, "runtime:auto-rollback", none, some reason, now⟩ o with
  | .ok (some updated, text) => .ok (updated, text)
  | .ok (none, text) => .ok (state, text)
  | .error e => if isHandled e then .ok (state, text) else .error e

/-- What a request finds on disk besides the log, and what the platform draws for it. -/
structure Conditions (F : Type) where
  /-- The text of the state file, unless it cannot be read. -/
  stateFile : Option String
  notes : Notes F
  now : String
  update : UpdateOutcome
  bucket : Bucket F

/-- The state file and the guardrail report after `_auto_rollback_if_needed`. -/
def autoRollbackIfNeeded (s : Site F) (log : Log) (text : String) (state : Dict F) (c : Conditions F) :
    Py (Dict F × Option GuardrailReport × String) := do
  if !(← inLiveStages (getKey state "stage")) || !autoRollbackEnabled E s.config then
    return (state, none, text)
  let report ← evaluateLiveGuardrails E s.statistics log c.notes state s.signingKey
  if !report.rollbackRequired then return (state, some report, text)
  let (state, text) ← rollBack E s text state report c.now c.update
  return (state, some report, text)

/-- The assignment by a loaded state, and the state file after it. -/
def resolveState (s : Site F) (log : Log) (text : String) (state : Dict F) (r : Request)
    (workspaceRootsCount : ℤ) (c : Conditions F) : Py (Dict F × String) := do
  let check ← verifyDeploymentState E state s.signingKey
  if !check.valid then
    return (baselineAssignment E "deployment_state_verification_failed" state none baselineArm, text)
  let (state, report, text) ← autoRollbackIfNeeded E s log text state c
  if (report.map GuardrailReport.rollbackRequired).getD false then
    return (baselineAssignment E "deployment_auto_rollback" state none baselineArm, text)
  return (← resolveLive E state r workspaceRootsCount c.bucket, text)

/-- The assignment of a request, and the state file after it. -/
def resolveRuntimeDeployment (s : Site F) (log : Log) (r : Request) (workspaceRootsCount : ℤ)
    (c : Conditions F) : Py (Option (Dict F) × Option String) :=
  let baseline (reason : String) := some (baselineAssignment E reason [] none baselineArm)
  if !deploymentEnabled E s.config then .ok (none, c.stateFile)
  else if learningKillSwitch E s.config s.killEnv then
    .ok (baseline "deployment_global_kill_switch", c.stateFile)
  else if !s.statePathOk then .ok (baseline "deployment_state_path_invalid", c.stateFile)
  else if s.signingKey.isEmpty then .ok (baseline "deployment_signing_key_missing", c.stateFile)
  else match c.stateFile with
    | none => .ok (baseline "deployment_state_unavailable", none)
    | some text => do
      match ← catchValueError (loadDeploymentState E text) with
      | none => return (baseline "deployment_state_unavailable", some text)
      | some state =>
        let (assignment, text) ← resolveState E s log text state r workspaceRootsCount c
        return (some assignment, some text)

/-! ### What an assignment records -/

variable {E}

/-- The deployment section of an assignment. -/
def sectionOfAssignment (assignment : Dict F) : Dict F := (objOf? assignment "deployment").getD []

theorem wellFormed_baselineAssignment {state : Dict F} (hs : wellFormed (.obj state) = true)
    (reason : String) (context : Option String) (target : String) :
    wellFormed (.obj (baselineAssignment E reason state context target)) = true := by
  have hid := wellFormed_getKey hs "policy_id"
  have hg := wellFormed_getKey hs "generation"
  have hst := wellFormed_getKey hs "stage"
  have ht : wellFormed (if state.isEmpty then .float (E.T.ofRat 0)
      else getKey state "traffic_fraction") = true := by
    split_ifs
    · rfl
    · exact wellFormed_getKey hs _
  have hk : wellFormed (keyValue context : Json F) = true := by
    cases context <;> rfl
  have hsec : wellFormed (.obj (sectionOfAssignment
      (baselineAssignment E reason state context target))) = true := by
    rw [wellFormed_obj]
    refine ⟨?_, ?_⟩
    · show (["assignment", "reason", "policy_id", "state_generation", "stage", "traffic_fraction",
        "candidate_probability", "chosen_probability", "target_arm", "context_key",
        "source"] : List String).Nodup
      decide
    · show ∀ p ∈ ([_, _, _, _, _, _, _, _, _, _, _] : Dict F), wellFormed p.2 = true
      simp only [List.forall_mem_cons]
      exact ⟨rfl, rfl, hid, hg, hst, ht, rfl, rfl, rfl, hk, rfl, by simp⟩
  rw [wellFormed_obj]
  refine ⟨?_, ?_⟩
  · show (["chosen_arm", "arm_propensities", "mode", "safety_reason", "deployment"] : List String).Nodup
    decide
  · show ∀ p ∈ ([_, _, _, _, _] : Dict F), wellFormed p.2 = true
    simp only [List.forall_mem_cons]
    exact ⟨rfl, wellFormed_baselinePropensities, rfl, rfl, hsec, by simp⟩

theorem wellFormed_signedAssignment {state : Dict F} (hs : wellFormed (.obj state) = true)
    (target : String) (key : Option String) (probability : F) (b : Bucket F) :
    wellFormed (.obj (signedAssignment E state target key probability b)) = true := by
  have hid := wellFormed_getKey hs "policy_id"
  have hst := wellFormed_getKey hs "stage"
  have hk : wellFormed (keyValue key : Json F) = true := by
    cases key <;> rfl
  have hp : wellFormed (.obj (setKey target (.float (E.T.round probability 12))
      [(baselineArm, .float (E.T.round (E.T.ofRat (1 - E.T.rat probability)) 12))])) = true := by
    refine wellFormed_setKey ?_ target rfl
    rw [wellFormed_obj]
    simp [keys]
  have hsec : wellFormed (.obj (sectionOfAssignment
      (signedAssignment E state target key probability b))) = true := by
    rw [wellFormed_obj]
    refine ⟨?_, ?_⟩
    · show (["assignment", "reason", "policy_id", "state_generation", "stage", "traffic_fraction",
        "candidate_probability", "chosen_probability", "target_arm", "context_key",
        "assignment_bucket", "assignment_nonce", "source"] : List String).Nodup
      decide
    · show ∀ p ∈ ([_, _, _, _, _, _, _, _, _, _, _, _, _] : Dict F), wellFormed p.2 = true
      simp only [List.forall_mem_cons]
      exact ⟨rfl, rfl, hid, rfl, hst, rfl, rfl, rfl, rfl, hk, rfl, rfl, rfl, by simp⟩
  rw [wellFormed_obj]
  refine ⟨?_, ?_⟩
  · show (["chosen_arm", "arm_propensities", "mode", "safety_reason", "deployment"] : List String).Nodup
    decide
  · show ∀ p ∈ ([_, _, _, _, _] : Dict F), wellFormed p.2 = true
    simp only [List.forall_mem_cons]
    exact ⟨rfl, hp, rfl, rfl, hsec, by simp⟩

/-- What `assignTarget` returns: the baseline, or the drawn arm. -/
theorem assignTarget_cases {state a : Dict F} {target : String} {key : Option String}
    {b : Bucket F} (h : assignTarget E state target key b = .ok a) :
    (∃ reason, a = baselineAssignment E reason state key target) ∨
      ∃ probability, target ≠ baselineArm ∧ drawable E probability = true ∧
        E.toFloat ((lookup "traffic_fraction" state).getD (.float (E.T.ofRat 0))) = .ok probability ∧
        a = signedAssignment E state target key probability b := by
  unfold assignTarget at h
  split_ifs at h with ht
  · cases h
    exact Or.inl ⟨_, rfl⟩
  · obtain ⟨probability, hp, h⟩ := bind_eq_ok.mp h
    split_ifs at h with hd
    · cases h
      exact Or.inl ⟨_, rfl⟩
    · obtain ⟨id, -, h⟩ := bind_eq_ok.mp h
      cases h
      exact Or.inr ⟨probability, ht, by simpa using hd, hp, rfl⟩

/-- What `resolveLive` returns. -/
theorem resolveLive_cases {state a : Dict F} {r : Request} {n : ℤ} {b : Bucket F}
    (h : resolveLive E state r n b = .ok a) :
    (∃ reason, a = baselineAssignment E reason state none baselineArm) ∨
      inLiveStages (getKey state "stage") = .ok true ∧ r.decision.risk = .low ∧
        ∃ target key, targetArm E state (.obj (r.features n).toDict) = .ok (target, key) ∧
          assignTarget E state target key b = .ok a := by
  unfold resolveLive at h
  obtain ⟨live, hl, h⟩ := bind_eq_ok.mp h
  split_ifs at h with h1 h2
  · obtain ⟨stage, -, h⟩ := bind_eq_ok.mp h
    cases h
    exact Or.inl ⟨_, rfl⟩
  · cases h
    exact Or.inl ⟨_, rfl⟩
  · obtain ⟨⟨target, key⟩, ht, h⟩ := bind_eq_ok.mp h
    have hlive : live = true := by simpa using h1
    exact Or.inr ⟨hlive ▸ hl, by simpa using h2, target, key, ht, h⟩

theorem wellFormed_resolveLive {state a : Dict F} (hs : wellFormed (.obj state) = true)
    {r : Request} {n : ℤ} {b : Bucket F} (h : resolveLive E state r n b = .ok a) :
    wellFormed (.obj a) = true := by
  rcases resolveLive_cases h with ⟨reason, rfl⟩ | ⟨-, -, target, key, -, h⟩
  · exact wellFormed_baselineAssignment hs reason none baselineArm
  · rcases assignTarget_cases h with ⟨reason, rfl⟩ | ⟨probability, -, -, -, rfl⟩
    · exact wellFormed_baselineAssignment hs reason key target
    · exact wellFormed_signedAssignment hs target key probability b

/-- **The assignment of a low-risk request in a live stage records the key and the arm that were found
for its context.** -/
theorem resolveLive_low {state a : Dict F} {r : Request} {n : ℤ} {b : Bucket F}
    (hl : inLiveStages (getKey state "stage") = .ok true) (hr : r.decision.risk = .low)
    (h : resolveLive E state r n b = .ok a) :
    ∃ target key, targetArm E state (.obj (r.features n).toDict) = .ok (target, key) ∧
      getKey (sectionOfAssignment a) "target_arm" = .str target ∧
      getKey (sectionOfAssignment a) "context_key" = keyValue key := by
  unfold resolveLive at h
  rw [hl] at h
  simp only [bind, Except.bind, Bool.not_true, Bool.false_eq_true, if_false, hr, ne_eq,
    not_true_eq_false] at h
  obtain ⟨⟨target, key⟩, ht, h⟩ := bind_eq_ok.mp h
  refine ⟨target, key, ht, ?_⟩
  rcases assignTarget_cases h with ⟨reason, rfl⟩ | ⟨probability, -, -, -, rfl⟩
  · exact ⟨rfl, rfl⟩
  · exact ⟨rfl, rfl⟩

/-! ### The arm of a context -/

variable (E) in
/-- The text a policy has for a key. -/
def policyArm (policy : Dict F) (key : String) : String :=
  match lookup key policy with
  | some v => strText E.T E.isPrintable v
  | none => baselineArm

section Policy
variable {policy : Dict F} (hsafe : ∀ p ∈ policy, SafeEntry E p) (key : String)
include hsafe

theorem strOr_policy : E.strOr policy key baselineArm = .ok (policyArm E policy key) := by
  unfold Env.strOr policyArm
  cases hk : lookup key policy with
  | none => rfl
  | some v => exact (str_eq_ok E).mpr ⟨(hsafe _ (mem_of_lookup hk)).printed, rfl⟩

theorem strip_policyArm : strip (policyArm E policy key) ∈ safeExplorationArms := by
  unfold policyArm
  cases hk : lookup key policy with
  | none =>
    show strip baselineArm ∈ safeExplorationArms
    decide
  | some v => exact (hsafe _ (mem_of_lookup hk)).arm

end Policy

/-- The arm at run time is the stripped text of the policy. -/
theorem targetArm_eq {state manifest policy : Dict F} {raw : List (Json F)} {fields : List String}
    (hm : getKey state "policy_manifest" = .obj manifest)
    (hraw : getKey manifest "context_fields" = .arr raw)
    (hpol : getKey manifest "policy" = .obj policy) (hsafe : ∀ p ∈ policy, SafeEntry E p)
    (hv : validateContextFields E raw = .ok fields) {f : RetrievalContextFeatures}
    (hf : ∀ s ∈ texts f, PlainText s) : targetArm E state (.obj f.toDict) =
      .ok (strip (policyArm E policy (contextText E f fields)), some (contextText E f fields)) := by
  have hk : catchValueError (fieldsKey E (.obj f.toDict) raw) = .ok (some (contextText E f fields)) :=
    catchValueError_some.mpr (fieldsKey_plain E (hasFeatures_self f) hf hv)
  have hs := strip_policyArm hsafe (contextText E f fields)
  unfold targetArm
  simp only [hm, hraw, hpol, hk, bind, Except.bind, strOr_policy hsafe]
  simp [hs, pure, Except.pure]

/-- Nothing is known of a context if the manifest has no list of fields. -/
theorem targetArm_none {state manifest : Dict F}
    (hm : getKey state "policy_manifest" = .obj manifest)
    (hraw : ∀ raw, getKey manifest "context_fields" ≠ .arr raw) (features : Json F) :
    targetArm E state features = .ok (baselineArm, none) := by
  unfold targetArm
  rw [hm]
  simp only
  split
  · next raw _ h _ => exact absurd h (hraw raw)
  · rfl

end ControlPlane.Deployment.Runtime
