import ControlPlane.Learning.Records
import ControlPlane.Deployment.State

/-! # Live guardrails

`evaluateLiveGuardrails` counts the logged decisions of a deployment and tells whether it has to be
rolled back: because a budget of the stage is spent, or because a statistic of the live rows says so.
The budgets are modelled here; the statistics (sequential and clustered reward differences, drift of the
contexts) are a parameter.

`blockers_eq_nil`: without a rollback the candidate has not been exposed more often than its budget
allows, if there is one. -/

namespace ControlPlane.Deployment.Guardrails

open ControlPlane.Lib.Value ControlPlane.Lib.Floats ControlPlane.Lib.Dynamic
open ControlPlane.Environment ControlPlane.Learning.Decision ControlPlane.Learning.Records
open ControlPlane.Deployment.Stages ControlPlane.Deployment.Manifest ControlPlane.Deployment.State

variable {F : Type} (E : Env F)

/-- `v in LIVE_STAGES`. -/
def inLiveStages : Json F → Py Bool
  | .str s => .ok ((Stage.live.map Stage.value).contains s)
  | .arr _ => .error (.typeError "unhashable type: 'list'")
  | .obj _ => .error (.typeError "unhashable type: 'dict'")
  | _ => .ok false

/-! ### The rows of a deployment -/

/-- The row belongs to the policy, at its generation or an earlier one. -/
def ofDeployment (policyId : String) (generation : ℤ) (row : Dict F) : Bool :=
  match getKey row "deployment" with
  | .obj deployment => same E deployment "policy_id" policyId &&
      (match getKey deployment "state_generation" with
        | .int n => decide (n ≤ generation)
        | _ => false)
  | _ => false

/-- The rows in the order of their creation. -/
def byCreation (rows : List (Dict F)) : Py (List (Dict F)) := do
  let dated ← rows.mapM fun row => do return (← E.strOr row "created_at" "", row)
  return (dated.insertionSort fun p q => p.1 ≤ q.1).map Prod.snd

def deploymentRows (log : Log) (notes : Notes F) (state : Dict F) : Py (List (Dict F)) := do
  let policyId ← E.strOr state "policy_id" ""
  let generation ← E.toInt ((lookup "generation" state).getD (.int 0))
  byCreation E ((← loadLearningRecords E log notes).filter (ofDeployment E policyId generation))

/-- The deployment section of a row. -/
def sectionOf (row : Dict F) : Dict F := (objOf? row "deployment").getD []

/-- The loop of the filter on live stages. -/
def liveRows : List (Dict F) → Py (List (Dict F))
  | [] => .ok []
  | row :: rows => do
    let live ← inLiveStages (getKey (sectionOf row) "stage")
    let rest ← liveRows rows
    return if live then row :: rest else rest

/-- The rows with an assignment. -/
def assigned (assignment : String) (rows : List (Dict F)) : List (Dict F) :=
  rows.filter fun row => same E (sectionOf row) "assignment" assignment

/-- The outcome of a row, if there is a verified one. -/
def verifiedOutcome (row : Dict F) : Option (Dict F) :=
  match objOf? row "outcome" with
  | some outcome => if truthy E.T (getKey outcome "verified") then some outcome else none
  | none => none

/-! ### Budgets -/

/-- A finite number that is no Boolean. -/
def finiteNumber? (v : Json F) : Py (Option F) := do
  match ← E.number? v with
  | some x => return if E.T.finite x then some x else none
  | none => return none

/-- The sum of the realized costs of some outcomes. -/
def costOf : List (Dict F) → Num → Py Num
  | [], total => .ok total
  | outcome :: outcomes, total => do
    match ← finiteNumber? E (getKey outcome "realized_cost") with
    | some x => costOf outcomes (E.T.add total (E.T.view x))
    | none => costOf outcomes total

/-- The budget of a stage. -/
def stageBudget (guardrails : Dict F) (stage : String) : Dict F :=
  match objOf? guardrails "stage_budgets" with
  | some budgets => (objOf? budgets stage).getD []
  | none => []

/-- What the budgets and the failure rate are compared with. -/
structure Exposure where
  candidate : ℕ
  control : ℕ
  outcomes : ℕ
  failures : ℕ
  cost : Num

def exposureOf (rows : List (Dict F)) : Py Exposure := do
  let candidates := assigned E "candidate" rows
  let outcomes := candidates.filterMap (verifiedOutcome E)
  return {
    candidate := candidates.length
    control := (assigned E "control" rows).length
    outcomes := outcomes.length
    failures := (outcomes.filter fun outcome => !truthy E.T (getKey outcome "success")).length
    cost := ← costOf E outcomes (.fin 0) }

/-- The share of failures is above the limit, once there are enough outcomes. -/
def failureRateBad (guardrails : Dict F) (e : Exposure) : Py Bool := do
  let minimum ← E.toInt ((lookup "minimum_monitor_outcomes" guardrails).getD (.int 20))
  let limit ← E.toFloat ((lookup "max_failure_rate" guardrails).getD (.float (E.T.ofRat (1 / 10))))
  return decide (max 1 minimum ≤ e.outcomes) && e.outcomes != 0 &&
    (E.T.view limit).lt (E.T.lit (e.failures / e.outcomes))

/-- `max_exposures > 0 and len(candidate_rows) > max_exposures`. -/
def exposuresSpent (maxExposures : ℤ) (candidate : ℕ) : Bool :=
  decide (0 < maxExposures) && decide (maxExposures < candidate)

def budgetBlockers (guardrails budget : Dict F) (e : Exposure) : Py (List String) := do
  let maxExposures ← E.toInt ((lookup "max_candidate_exposures" budget).getD (.int 0))
  let maxFailures ← E.toInt ((lookup "max_candidate_failures" budget).getD (.int 0))
  let maxCost ← finiteNumber? E (getKey budget "max_cumulative_realized_cost")
  let rateBad ← failureRateBad E guardrails e
  return flag (exposuresSpent maxExposures e.candidate) "candidate_exposure_budget_exhausted" ++
    flag (decide (0 ≤ maxFailures) && decide (maxFailures < e.failures))
      "candidate_failure_budget_exhausted" ++
    flag (match maxCost with
      | some x => (E.T.view x).lt e.cost
      | none => false) "candidate_cost_budget_exhausted" ++
    flag rateBad "candidate_failure_rate_regression"

/-! ### The report -/

/-- The statistics of the live rows of a state, as further rollback blockers. -/
abbrev Statistics (F : Type) := Dict F → List (Dict F) → Py (List String)

/-- The part of a guardrail report that decides on the rollback. -/
structure GuardrailReport where
  exposure : Option Exposure
  rollbackRequired : Bool
  rollbackBlockers : List String

def evaluateLiveGuardrails (statistics : Statistics F) (log : Log) (notes : Notes F) (state : Dict F)
    (key : Key) : Py GuardrailReport := do
  let check ← verifyDeploymentState E state key
  let stage ← E.strOr state "stage" ""
  if !check.valid then return ⟨none, true, []⟩
  match getKey state "guardrails", getKey state "policy_manifest" with
  | .obj guardrails, .obj manifest =>
    match getKey manifest "context_fields", getKey manifest "policy" with
    | .arr _, .obj _ =>
      let live ← liveRows (← deploymentRows E log notes state)
      let exposure ← exposureOf E live
      let statistical ← statistics state live
      let budgets ← budgetBlockers E guardrails (stageBudget guardrails stage) exposure
      return ⟨some exposure, !(budgets ++ statistical).isEmpty, budgets ++ statistical⟩
    | _, _ => .error (.valueError "deployment manifest is missing context policy")
  | .obj _, _ => .error (.valueError "deployment state is missing policy manifest")
  | _, _ => .error (.valueError "deployment state is missing guardrails")

/-! ### Without a rollback -/

variable {E}

theorem budgetBlockers_eq_nil {guardrails budget : Dict F} {e : Exposure} {n : ℤ}
    (hn : E.toInt ((lookup "max_candidate_exposures" budget).getD (.int 0)) = .ok n)
    (h : budgetBlockers E guardrails budget e = .ok []) (hpos : 0 < n) : (e.candidate : ℤ) ≤ n := by
  unfold budgetBlockers at h
  simp only [bind_eq_ok, pure, Except.pure, Except.ok.injEq, List.append_eq_nil_iff,
    flag_eq_nil] at h
  obtain ⟨n', hn', _, -, _, -, _, -, ⟨⟨h, -⟩, -⟩, -⟩ := h
  obtain rfl := Except.ok.inj (hn.symm.trans hn')
  unfold exposuresSpent at h
  by_contra hlt
  simp [hpos, lt_of_not_ge hlt] at h

end ControlPlane.Deployment.Guardrails
