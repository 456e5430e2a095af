import ControlPlane.Learning.Features

/-! # Learning decisions

Each request gets a decision: the arm it is served with, the propensities it was drawn from, and the
features under which it is logged. `chooseLearningDecision` takes the arm from a deployment assignment
if there is one and it is a distribution over safe arms, else from the configured mode.
`prepareLearningDecision` also logs the decision, and falls back to the baseline if it cannot log
another arm.

The log is a directory of immutable JSON files, one a decision; `createRecord` adds one. -/

namespace ControlPlane.Learning.Decision

open ControlPlane.Lib.Value ControlPlane.Lib.Text ControlPlane.Lib.Floats ControlPlane.Lib.Dynamic
open ControlPlane.Environment ControlPlane.Learning.Features

def baselineArm : String := "adaptive_math"

def safeExplorationArms : List String :=
  [baselineArm, "source_rank", "bm25_rank", "rrf_only", "rrf_mmr_050", "rrf_mmr_075", "rrf_mmr_090"]

structure LearningDecision (F : Type) where
  decisionId : String
  policyVersion : String
  mode : String
  baselineArm : String
  eligibleArms : List String
  chosenArm : String
  chosenPropensity : F
  armPropensities : Dict F
  explorationProbability : F
  explored : Bool
  safetyReason : String
  lane : String
  risk : String
  intent : String
  taskFingerprint : String
  featureSchemaVersion : String
  contextFeatures : RetrievalContextFeatures
  createdAt : String
  deployment : Option (Dict F)

variable {F : Type}

def LearningDecision.toDict (d : LearningDecision F) : Dict F :=
  [("decision_id", .str d.decisionId), ("policy_version", .str d.policyVersion),
    ("mode", .str d.mode), ("baseline_arm", .str d.baselineArm),
    ("eligible_arms", .arr (d.eligibleArms.map .str)), ("chosen_arm", .str d.chosenArm),
    ("chosen_propensity", .float d.chosenPropensity),
    ("arm_propensities", .obj d.armPropensities),
    ("exploration_probability", .float d.explorationProbability), ("explored", .bool d.explored),
    ("safety_reason", .str d.safetyReason), ("lane", .str d.lane), ("risk", .str d.risk),
    ("intent", .str d.intent), ("task_fingerprint", .str d.taskFingerprint),
    ("feature_schema_version", .str d.featureSchemaVersion),
    ("context_features", .obj d.contextFeatures.toDict), ("created_at", .str d.createdAt),
    ("deployment", match d.deployment with
      | some deployment => .obj deployment
      | none => .null)]

variable (E : Env F)

/-! ### Configuration -/

def learningConfig (config : Dict F) : Dict F :=
  match objOf? config "context" with
  | some context => (objOf? context "learning").getD []
  | none => []

def learningModes : List String := ["off", "observe", "explore"]

def learningMode (config : Dict F) : Py String := do
  let raw := E.lower (strip (← E.strOr (learningConfig config) "mode" "off"))
  return if learningModes.contains raw then raw else "off"

/-- `killEnv` is the value of the environment variable of the kill switch. -/
def learningKillSwitch (config : Dict F) (killEnv : String) : Bool :=
  ["1", "true", "yes", "on"].contains (E.lower (strip killEnv)) ||
    truthy E.T (getKey (learningConfig config) "kill_switch")

/-- A number clamped to the unit interval, or the default. -/
def fraction (value : Json F) (default : F) : Py F := do
  match ← E.number? value with
  | some x => return if E.T.finite x then
      E.T.ofRat (min 1 (max 0 (E.T.rat x))) else default
  | none => return default

/-- Whether `risk` is allowed: only low risk can be. -/
def allowedRisk (config : Dict F) (risk : String) : Py Bool :=
  match lookup "allowed_risks" (learningConfig config) with
  | some (.arr raw) => do
    let texts ← raw.mapM E.str
    return (texts.map fun text => E.lower (strip text)).contains "low" && risk == "low"
  | _ => .ok (risk == "low")

/-- The texts of the configured arms. -/
def armTexts (config : Dict F) : Py (List String) :=
  match lookup "eligible_arms" (learningConfig config) with
  | some (.arr raw) => raw.mapM E.str
  | _ => .ok safeExplorationArms

def eligibleArms (config : Dict F) : Py (List String) := do
  let arms := ((← armTexts E config).map strip).filter safeExplorationArms.contains
  return (if arms.contains baselineArm then arms else baselineArm :: arms).eraseDups

/-! ### Choosing -/

/-- The propensities of the arms when exploring with probability `epsilon`. -/
def explorePropensities (arms : List String) (epsilon : F) : Dict F :=
  if arms.length ≤ 1 || E.T.rat epsilon ≤ 0 then
    arms.map fun arm => (arm, .float (E.T.ofRat (if arm = baselineArm then 1 else 0)))
  else
    let share := E.T.ofRat (E.T.rat epsilon / arms.length)
    let rest := E.T.ofRat (1 - E.T.rat epsilon)
    arms.map fun arm => (arm, .float (if arm = baselineArm
      then E.T.ofRat (E.T.rat rest + E.T.rat share) else share))

/-- The loop of `sampleArm`: `point` is the draw and `last` the last arm seen. -/
def sampleFrom (point : Num) : Dict F → Num → String → String
  | [], _, last => last
  | (arm, p) :: rest, cumulative, _ =>
    let cumulative := E.T.add cumulative ((numOf E.T p).getD .nan)
    if point.le cumulative then arm else sampleFrom point rest cumulative arm

def sampleArm (propensities : Dict F) (draw : F) : String :=
  sampleFrom E (E.T.view draw) propensities (.fin 0) baselineArm

/-- What a decision is made of. -/
structure Choice (F : Type) where
  mode : String
  epsilon : F
  chosen : String
  propensities : Dict F
  explored : Bool
  safetyReason : String
  policyVersion : String
  deployment : Option (Dict F)

/-- The loop over the propensities of an assignment; `none` if one is not valid. -/
def parsePropensities : Dict F → Dict F → Py (Option (Dict F))
  | [], parsed => .ok (some parsed)
  | (arm, p) :: rest, parsed =>
    if !safeExplorationArms.contains (strip arm) then .ok none
    else do
      match ← E.number? p with
      | none => return none
      | some x =>
        if E.T.finite x && (E.T.lit 0).le (E.T.view x) && (E.T.view x).le (E.T.lit 1) then
          parsePropensities rest (setKey (strip arm) (.float x) parsed)
        else return none

/-- `sum` of the values. -/
def sumValues (parsed : Dict F) : Num :=
  parsed.foldl (fun acc p => E.T.add acc ((numOf E.T p.2).getD .nan)) (.fin 0)

/-- The parsed propensities sum to one and give the arm a chance. -/
def isDistribution (parsed : Dict F) (arm : String) : Bool :=
  !parsed.isEmpty &&
    !(E.T.lit (1 / 10 ^ 9)).lt (E.T.sub (sumValues E parsed) (E.T.lit 1)).abs &&
    (match lookup arm parsed with
      | some p => !((numOf E.T p).getD .nan).le (E.T.lit 0)
      | none => false)

/-- The choice of the baseline. -/
def baselinePropensities : Dict F := [(baselineArm, .float (E.T.ofRat 1))]

def invalidAssignment : Choice F where
  mode := "canary"
  epsilon := E.T.ofRat 0
  chosen := baselineArm
  propensities := baselinePropensities E
  explored := false
  safetyReason := "deployment_assignment_invalid"
  policyVersion := "safe-epsilon-v1"
  deployment := some [("assignment", .str "baseline"),
    ("reason", .str "deployment_assignment_invalid"), ("source", .str "stage7_deployment")]

/-- The propensities of an assignment, if it is valid for the risk. -/
def validAssignment (assignment : Dict F) (arm risk : String) : Py (Option (Dict F)) :=
  if !safeExplorationArms.contains arm then .ok none
  else match getKey assignment "arm_propensities" with
    | .obj raw => do
      match ← parsePropensities E raw [] with
      | some parsed =>
        return if isDistribution E parsed arm && (arm == baselineArm || risk == "low") then some parsed
          else none
      | none => return none
    | _ => .ok none

def chooseAssigned (assignment : Dict F) (risk : String) : Py (Choice F) := do
  let arm := strip (← E.strOr assignment "chosen_arm" baselineArm)
  match ← validAssignment E assignment arm risk with
  | none => return invalidAssignment E
  | some parsed =>
    let mode ← E.strOr assignment "mode" "canary"
    let safetyReason ← E.strOr assignment "safety_reason" "deployment_canary"
    let deployment := (objOf? assignment "deployment").getD []
    let epsilon ← fraction E ((lookup "candidate_probability" deployment).getD (.float (E.T.ofRat 0)))
      (E.T.ofRat 0)
    let policyId := strip (← E.strOr deployment "policy_id" "")
    return {
      mode := mode
      epsilon := epsilon
      chosen := arm
      propensities := parsed
      explored := arm != baselineArm
      safetyReason := safetyReason
      policyVersion := if policyId = "" then "deployment:fail-closed"
        else "deployment:" ++ policyId
      deployment := some deployment }

/-- The choice of the baseline in a mode. -/
def baselineChoice (mode : String) (epsilon : F) (reason : String) : Choice F where
  mode := mode
  epsilon := epsilon
  chosen := baselineArm
  propensities := baselinePropensities E
  explored := false
  safetyReason := reason
  policyVersion := "safe-epsilon-v1"
  deployment := none

/-- The choice of a draw from the exploring propensities. -/
def explorationChoice (arms : List String) (epsilon draw : F) : Choice F :=
  let propensities := explorePropensities E arms epsilon
  let chosen := sampleArm E propensities draw
  { mode := "explore"
    epsilon := epsilon
    chosen := chosen
    propensities := propensities
    explored := chosen != baselineArm
    safetyReason := if chosen = baselineArm then "baseline_sample" else "bounded_exploration"
    policyVersion := "safe-epsilon-v1"
    deployment := none }

/-- The choice when exploring without the kill switch. -/
def chooseExplore (config : Dict F) (risk : String) (arms : List String) (epsilon draw : F) :
    Py (Choice F) := do
  let allowed ← allowedRisk E config risk
  return if !allowed then baselineChoice E "explore" epsilon "risk_locked"
    else if arms.length ≤ 1 || E.T.rat epsilon ≤ 0 then
      baselineChoice E "explore" epsilon "no_exploration_mass"
    else explorationChoice E arms epsilon draw

/-- The choice without a deployment, in a mode. -/
def chooseMode (config : Dict F) (killEnv mode risk : String) (arms : List String) (epsilon draw : F) :
    Py (Choice F) :=
  if mode = "observe" then .ok (baselineChoice E mode epsilon "observe_only")
  else if mode = "explore" then
    if learningKillSwitch E config killEnv then .ok (baselineChoice E mode epsilon "kill_switch")
    else chooseExplore E config risk arms epsilon draw
  else .ok (baselineChoice E mode epsilon "learning_disabled")

/-- The choice by a deployment assignment, if there is one, else by the mode. -/
def choose (config : Dict F) (assignment : Option (Dict F)) (killEnv mode risk : String)
    (arms : List String) (epsilon draw : F) : Py (Choice F) :=
  match assignment with
  | some a => chooseAssigned E a risk
  | none => chooseMode E config killEnv mode risk arms epsilon draw

/-- What a request brings to a decision: the query, its route and intent, and how many files it
changes. -/
structure Request where
  query : String
  decision : RouteDecision
  intent : RetrievalIntent
  changedFilesCount : ℤ

/-- The features of a request over a number of workspace roots. -/
def Request.features (r : Request) (workspaceRootsCount : ℤ) : RetrievalContextFeatures :=
  buildContextFeatures r.query r.decision r.intent.value r.changedFilesCount workspaceRootsCount

/-- What the platform draws for a decision. -/
structure Draws (F : Type) where
  decisionId : String
  createdAt : String
  killEnv : String
  draw : F

/-- The decision made of a choice. -/
def decisionOf (r : Request) (workspaceRootsCount : ℤ) (g : Draws F) (c : Choice F) :
    LearningDecision F where
  decisionId := g.decisionId
  policyVersion := c.policyVersion
  mode := c.mode
  baselineArm := baselineArm
  eligibleArms := keys c.propensities
  chosenArm := c.chosen
  chosenPropensity := match lookup c.chosen c.propensities with
    | some (.float x) => x
    | _ => E.T.ofRat 1
  armPropensities := c.propensities.map fun p => (p.1, match p.2 with
    | .float x => .float (E.T.round x 12)
    | v => v)
  explorationProbability := if c.mode = "explore" then c.epsilon else E.T.ofRat 0
  explored := c.explored
  safetyReason := c.safetyReason
  lane := r.decision.lane.value
  risk := r.decision.risk.value
  intent := r.intent.value
  taskFingerprint := E.sha256 r.query
  featureSchemaVersion := featureSchemaVersion
  contextFeatures := r.features workspaceRootsCount
  createdAt := g.createdAt
  deployment := c.deployment

def chooseLearningDecision (r : Request) (config : Dict F) (workspaceRootsCount : ℤ)
    (assignment : Option (Dict F)) (g : Draws F) : Py (LearningDecision F) := do
  let mode ← learningMode E config
  let epsilon ← fraction E ((lookup "exploration_probability" (learningConfig config)).getD
    (.float (E.T.ofRat (5 / 100)))) (E.T.ofRat (5 / 100))
  let arms ← eligibleArms E config
  let risk := r.decision.risk.value
  let choice ← choose E config assignment g.killEnv mode risk arms epsilon g.draw
  return decisionOf E r workspaceRootsCount g choice

def baselineFallback (source : LearningDecision F) (reason decisionId createdAt : String) :
    LearningDecision F :=
  { source with
    decisionId := decisionId
    baselineArm := baselineArm
    eligibleArms := [baselineArm]
    chosenArm := baselineArm
    chosenPropensity := E.T.ofRat 1
    armPropensities := baselinePropensities E
    explorationProbability := E.T.ofRat 0
    explored := false
    safetyReason := reason
    createdAt := createdAt
    deployment := source.deployment.map fun deployment =>
      setKey "chosen_probability" (.float (E.T.ofRat 1))
        (setKey "candidate_probability" (.float (E.T.ofRat 0))
          (setKey "reason" (.str reason) (setKey "assignment" (.str "baseline") deployment))) }

/-! ### The log -/

/-- The decision files: the name of each, without its suffix, and its text. -/
abbrev Log := List (String × String)

/-- What the file system makes of the creation of a file. -/
inductive WriteOutcome where
  | written
  /-- The file is there, but the call raised an `OSError` afterwards. -/
  | unsynced
  | failed
  deriving DecidableEq

def isDecisionId (decisionId : String) : Bool :=
  decisionId.length == 32 && decisionId.toList.all isHexDigit

/-- Creates an immutable file in the log; the result tells whether no `OSError` was raised. -/
def createRecord (log : Log) (decisionId : String) (payload : Dict F) (w : WriteOutcome) :
    Py (Log × Bool) := do
  require (isDecisionId decisionId) "decision_id must be a 32-character lowercase hexadecimal ID"
  let text ← E.fileText true (.obj payload)
  if (log.map Prod.fst).contains decisionId then return (log, false)
  match w with
  | .written => return (log ++ [(decisionId, text)], true)
  | .unsynced => return (log ++ [(decisionId, text)], false)
  | .failed => return (log, false)

def writeLearningDecision (log : Log) (d : LearningDecision F) (w : WriteOutcome) : Py (Log × Bool) :=
  createRecord E log d.decisionId d.toDict w

/-- What the platform draws for a fallback, and what becomes of the two writes. -/
structure Writes where
  first : WriteOutcome
  fallbackId : String
  fallbackAt : String
  second : WriteOutcome

/-- The decision a request is served with, and the log after it. -/
def prepareLearningDecision (log : Log) (r : Request) (config : Dict F) (workspaceRootsCount : ℤ)
    (assignment : Option (Dict F)) (g : Draws F) (w : Writes) : Py (LearningDecision F × Log) := do
  let selected ← chooseLearningDecision E r config workspaceRootsCount assignment g
  if selected.mode = "off" then return (selected, log)
  let (log, ok) ← writeLearningDecision E log selected w.first
  if ok || selected.chosenArm == baselineArm then return (selected, log)
  let fallback := baselineFallback E selected "decision_log_failure" w.fallbackId w.fallbackAt
  let (log, _) ← writeLearningDecision E log fallback w.second
  return (fallback, log)

end ControlPlane.Learning.Decision
