import ControlPlane.Policy.Cutoff
import ControlPlane.Deployment.Evaluation
import ControlPlane.Deployment.Statistics
import ControlPlane.Lib.OffPolicy
import ControlPlane.Lib.Rounding

/-! # The scores of a policy comparison

A policy is compared with the baseline arm by three scores of logged rows: the difference of two doubly robust
values (`drDelta`), the difference of two weighted rewards in the shadow evaluation (`sequentialRewardScore`),
and the weighted reward of a group in the guardrails of a live deployment (`scoreRow`).

Over the arms that a row could have drawn, the mean of each is the difference of the rewards
(`drDelta_unbiased`, `shadow_unbiased`, `guardrail_unbiased`), if numbers are exact and, for the two sequential
scores, if the guards on the rewards and the weights let every draw pass. The shadow gate is open only if every
row gave a score (`every_row_scored`). -/

namespace ControlPlane.Policy.Scores

open ControlPlane.Lib.Value ControlPlane.Lib.Text ControlPlane.Lib.Floats ControlPlane.Lib.Dynamic
open ControlPlane.Lib.Rounding ControlPlane.Lib.OffPolicy ControlPlane.Lib.Weights ControlPlane.Lib.Print
open ControlPlane.Environment ControlPlane.Instance ControlPlane.Learning.Decision
open ControlPlane.Deployment.Manifest ControlPlane.Deployment.Guardrails ControlPlane.Deployment.Statistics
open ControlPlane.Deployment.Evaluation ControlPlane.Policy.Cutoff

variable {F : Type} (E : Env F)

/-! ### The doubly robust value -/

/-- The number at a key of an object, if there is the object. -/
def numberIn (d : Option (Dict F)) (k : String) : Py (Option Num) :=
  match d with
  | some d => numberOf E (getKey d k)
  | none => .ok none

def predictModelValue (model : Dict F) (context arm : String) : Py Num := do
  let direct ← numberIn E ((objOf? model "context_arm_means").bind fun d => objOf? d context) arm
  match direct with
  | some direct => return direct
  | none =>
    match ← numberIn E (objOf? model "arm_means") arm with
    | some armMean => return armMean
    | none => return (← numberOf E (getKey model "global_mean")).getD (.fin 0)

/-- `_outcome_value(row, field)`. -/
def outcomeValue (row : Dict F) (field : String) : Py (Option Num) := numberIn E (objOf? row "outcome") field

/-- `str(row.get("chosen_arm", "")).strip()`. -/
def chosenArm (row : Dict F) : Py String := do
  return strip (← E.strOr row "chosen_arm" "")

/-- `(observed - chosen_prediction) / probability` if the target was chosen. -/
def correction (isTarget : Bool) (observed prediction probability : Num) : Py Num :=
  if isTarget then divide E (E.T.sub observed prediction) probability else .ok (.fin 0)

/-- `_dr_value(row, target_arm, model, fields, outcome_field=...)`. -/
def drValue (row : Dict F) (targetArm : String) (model : Dict F) (fields : List (Json F))
    (outcomeField : String) : Py (Option Num) := do
  match ← outcomeValue E row outcomeField with
  | none => return none
  | some observed =>
    let chosen ← chosenArm E row
    match objOf? row "arm_propensities" with
    | none => return none
    | some propensities =>
      match ← numberOf E (getKey propensities chosen) with
      | none => return none
      | some probability =>
        if probability.le (.fin 0) then return none
        let key ← rowContext E row fields
        let targetPrediction ← predictModelValue E model key targetArm
        let chosenPrediction ← predictModelValue E model key chosen
        let c ← correction E (chosen == targetArm) observed chosenPrediction probability
        return some (E.T.add targetPrediction c)

/-- `target - baseline`, if both have a value. -/
def drDelta (row : Dict F) (targetArm : String) (model : Dict F) (fields : List (Json F))
    (outcomeField : String) : Py (Option Num) := do
  match ← drValue E row targetArm model fields outcomeField, ← drValue E row baselineArm model fields outcomeField with
  | some target, some baseline => return some (E.T.sub target baseline)
  | _, _ => return none

/-- The differences of the rewards and of the costs in `evaluate_context_policy_dr`. -/
def evaluateContextPolicyDr (rows : List (Dict F)) (policy : List (String × String)) (rewardModel costModel : Dict F)
    (fields : List (Json F)) : Py (List Num × List Num) := do
  let deltas ← rows.mapM fun row => do
    let target ← targetActionForRow E row policy fields
    let reward ← drDelta E row target rewardModel fields "reward"
    let cost ← drDelta E row target costModel fields "realized_cost"
    return (reward, cost)
  return (deltas.filterMap Prod.fst, deltas.filterMap Prod.snd)

/-! ### The shadow score -/

/-- `weight * reward` if the arm was chosen, unless the weight is too great. -/
def weightedTerm (r : Range) (isChosen : Bool) (probability reward : Num) : Py (Except String Num) :=
  if isChosen then do
    let weight ← divide E (E.T.lit 1) probability
    return if r.maxImportanceWeight.lt weight then .error "importance_weight_violation"
      else .ok (E.T.mul weight reward)
  else .ok (.ok (.fin 0))

/-- `_sequential_reward_score(row, target, ...)`: the score, or the name of the violation. -/
def sequentialRewardScore (r : Range) (row : Dict F) (target : String) : Py (Except String Num) := do
  match objOf? row "outcome" with
  | none => return .error "invalid_outcome"
  | some outcome =>
    match ← numberOf E (getKey outcome "reward") with
    | none => return .error "reward_range_violation"
    | some reward =>
      if reward.lt r.rewardMin || r.rewardMax.lt reward then return .error "reward_range_violation"
      let chosen ← chosenArm E row
      match objOf? row "arm_propensities" with
      | none => return .error "invalid_propensity"
      | some propensities =>
        match ← numberOf E (getKey propensities chosen) with
        | none => return .error "invalid_propensity"
        | some probability =>
          if probability.le (.fin 0) then return .error "invalid_propensity"
          match ← weightedTerm E r (chosen == target) probability reward with
          | .error violation => return .error violation
          | .ok targetTerm =>
            match ← weightedTerm E r (chosen == baselineArm) probability reward with
            | .error violation => return .error violation
            | .ok baselineTerm => return .ok (E.T.sub targetTerm baselineTerm)

/-! ### The shadow evaluation -/

/-- What a row gives the gate. -/
inductive Shadowed where
  | unsupported
  | violation (reason : String)
  | score (x : Num) (directCost : Option Num)

def Shadowed.score? : Shadowed → Option Num
  | .score x _ => some x
  | _ => none

def Shadowed.violation? : Shadowed → Option String
  | .violation reason => some reason
  | _ => none

def Shadowed.directCost? : Shadowed → Option Num
  | .score _ cost => cost
  | _ => none

def Shadowed.isUnsupported : Shadowed → Bool
  | .unsupported => true
  | _ => false

/-- The cost of a row whose target is not the baseline and was chosen. -/
def directCost (row : Dict F) (target : String) : Py (Option Num) := do
  let chosen ← chosenArm E row
  if target != baselineArm && chosen == target then outcomeValue E row "realized_cost" else return none

/-- One round of the loop of `evaluate_shadow_policy`. -/
def shadowRow (r : Range) (manifest row : Dict F) : Py Shadowed := do
  let target ← desiredManifestAction E row manifest
  let supported ← supports E row target
  if !supported then return .unsupported
  match ← sequentialRewardScore E r row target with
  | .error reason => return .violation reason
  | .ok x => return .score x (← directCost E row target)

structure ShadowArgs where
  confidence : Num
  range : Range
  minimumNewEvents : ℤ
  safetyMargin : Num
  maxRealizedCost : Option Num

structure ShadowReport (F : Type) where
  rows : List (Dict F)
  supportedRows : List (Dict F)
  unsupportedTargetEvents : ℕ
  violations : List String
  scores : List Num
  final : Option Interval
  rewardDeltas : List Num
  costDeltas : List Num
  maxDirectCost : Option Num
  blockers : List String

/-- A blocker, if it blocks. -/
def blocker (blocks : Bool) (name : String) : List String := if blocks then [name] else []

/-- `max(values) if values else None`. -/
def maxOf? : List Num → Option Num
  | [] => none
  | x :: xs => some (xs.foldl pyMax x)

/-- The parts of a manifest that the evaluation needs. -/
structure Evidence (F : Type) where
  fields : List (Json F)
  policy : Dict F
  rewardModel : Dict F
  costModel : Dict F

def evidenceOf (manifest : Dict F) : Py (Evidence F) :=
  match getKey manifest "context_fields", getKey manifest "policy", getKey manifest "reward_model",
    getKey manifest "cost_model" with
  | .arr fields, .obj policy, .obj rewardModel, .obj costModel => .ok ⟨fields, policy, rewardModel, costModel⟩
  | _, _, _, _ => .error (.valueError "manifest is missing contextual policy evidence")

/-- The bound on the scores, but not less than `1e-12`. -/
def shadowBound (r : Range) : Num :=
  pyMax (E.T.mul r.maxImportanceWeight (pyMax r.rewardMin.abs r.rewardMax.abs)) (E.T.lit (1 / 10 ^ 12))

/-- `lower is None or float(lower) <= safety_margin`. -/
def marginMissed (final : Option Interval) (safetyMargin : Num) : Bool :=
  match final with
  | some interval => interval.lower.le safetyMargin
  | none => true

/-- The realized costs are greater than allowed, or there are none. -/
def costMissed (maxDirectCost maxRealizedCost : Option Num) : Bool :=
  match maxRealizedCost, maxDirectCost with
  | none, _ => false
  | some _, none => true
  | some limit, some cost => limit.lt cost

/-- `evaluate_shadow_policy(...)` on the records of the learning store. -/
def evaluateShadowPolicy (S : Sampling) (instant : String → Option ℤ) (records : List (Dict F))
    (manifest : Dict F) (key : Key) (a : ShadowArgs) : Py (ShadowReport F) := do
  let verification ← verifyPolicyManifest E manifest key
  require (!a.range.rewardMax.le a.range.rewardMin) "reward_max must be greater than reward_min"
  require (!a.range.maxImportanceWeight.le (.fin 0)) "max_importance_weight must be positive"
  let cutoff := strip (← E.strOr manifest "evidence_cutoff" "")
  let (rows, _) ← verifiedPostCutoffRows E instant records cutoff
  let evidence ← evidenceOf manifest
  let fields ← evidence.fields.mapM E.str
  let shadowed ← rows.mapM (shadowRow E a.range manifest)
  let supportedRows := (rows.zip shadowed).filterMap fun p => p.2.score?.map fun _ => p.1
  let scores := shadowed.filterMap Shadowed.score?
  let violations := shadowed.filterMap Shadowed.violation?
  let unsupportedTargetEvents := shadowed.countP Shadowed.isUnsupported
  let sequence ← anytimeHoeffdingSequence E S scores a.confidence (shadowBound E a.range)
  let policy ← policyTexts E evidence.policy
  let (rewardDeltas, costDeltas) ← evaluateContextPolicyDr E supportedRows policy evidence.rewardModel
    evidence.costModel (fields.map .str)
  let maxDirectCost := maxOf? (shadowed.filterMap Shadowed.directCost?)
  return {
    rows, supportedRows, unsupportedTargetEvents, violations, scores, rewardDeltas, costDeltas, maxDirectCost
    final := sequence.final
    blockers := blocker (!verification.valid) "manifest_verification_failed" ++
      blocker (decide ((rows.length : ℤ) < max 1 a.minimumNewEvents)) "insufficient_post_cutoff_events" ++
      blocker (unsupportedTargetEvents != 0) "target_policy_support_violation" ++
      blocker (!violations.isEmpty) "sequential_monitoring_input_violation" ++
      blocker (marginMissed sequence.final a.safetyMargin) "anytime_lower_bound_does_not_clear_margin" ++
      blocker (costMissed maxDirectCost a.maxRealizedCost) "realized_cost_constraint_not_met" }

/-! ### Exact numbers -/

section Exact
variable {E} (hT : Exact E.T)
include hT

theorem exact_sub (p q : ℚ) : E.T.sub (.fin p) (.fin q) = .fin (p - q) := hT _

theorem exact_add (p q : ℚ) : E.T.add (.fin p) (.fin q) = .fin (p + q) := hT _

theorem exact_mul (p q : ℚ) : E.T.mul (.fin p) (.fin q) = .fin (p * q) := hT _

theorem exact_divide (p : ℚ) {q : ℚ} (hq : q ≠ 0) : divide E (.fin p) (.fin q) = .ok (.fin (p / q)) := by
  unfold divide
  rw [Num.eq_fin, decide_eq_false hq, if_neg Bool.false_ne_true, FloatSys.div, hT]

theorem numberOf_exact (v : Json F) : ∃ o : Option ℚ, numberOf E v = .ok (o.map Num.fin) := by
  unfold numberOf finiteNumber?
  cases v with
  | int n =>
    have hview : E.T.view (E.T.ofRat n) = .fin n := hT n
    have hfinite : E.T.finite (E.T.ofRat n) = true := (E.T.finite_iff _).mpr ⟨n, hview⟩
    have hfloat : E.floatOfInt n = .ok (E.T.ofRat n) := by
      unfold Env.floatOfInt
      rw [if_pos hfinite]
    refine ⟨some n, ?_⟩
    simp only [Env.number?, hfloat, bind, Except.bind, pure, Except.pure, hfinite, if_true, Option.map_some, hview]
  | float x =>
    by_cases hfinite : E.T.finite x = true
    · obtain ⟨q, hq⟩ := (E.T.finite_iff x).mp hfinite
      refine ⟨some q, ?_⟩
      simp only [Env.number?, bind, Except.bind, pure, Except.pure, hfinite, if_true, Option.map_some, hq]
    · refine ⟨none, ?_⟩
      simp only [Env.number?, bind, Except.bind, pure, Except.pure, hfinite, Bool.false_eq_true, if_false,
        Option.map_none]
  | _ => exact ⟨none, rfl⟩

theorem numberIn_exact (d : Option (Dict F)) (k : String) : ∃ o : Option ℚ, numberIn E d k = .ok (o.map Num.fin) := by
  cases d with
  | none => exact ⟨none, rfl⟩
  | some d => exact numberOf_exact hT (getKey d k)

/-- **Every model predicts a number**, also one that knows nothing. -/
theorem predict_exact (model : Dict F) (context arm : String) :
    ∃ q : ℚ, predictModelValue E model context arm = .ok (.fin q) := by
  obtain ⟨direct, hdirect⟩ :=
    numberIn_exact hT ((objOf? model "context_arm_means").bind fun d => objOf? d context) arm
  obtain ⟨armMean, harm⟩ := numberIn_exact hT (objOf? model "arm_means") arm
  obtain ⟨fallback, hfallback⟩ := numberOf_exact hT (getKey model "global_mean")
  unfold predictModelValue
  rw [hdirect, harm, hfallback]
  cases direct with
  | some q => exact ⟨q, rfl⟩
  | none =>
    cases armMean with
    | some q => exact ⟨q, rfl⟩
    | none =>
      cases fallback with
      | some q => exact ⟨q, rfl⟩
      | none => exact ⟨0, rfl⟩

end Exact

/-! ### Draws -/

/-- A decision as it is logged when an arm is drawn and its outcome is known. -/
def drawn (base : Dict F) (outcome : String → Dict F) (arm : String) : Dict F :=
  setKey "outcome" (.obj (outcome arm)) (setKey "chosen_arm" (.str arm) base)

/-- The decision records the probabilities of the arms. -/
structure LoggedBy (base : Dict F) (arms : Finset String) (prob : String → ℚ) : Prop where
  total : ∑ a ∈ arms, prob a = 1
  nonneg : ∀ a ∈ arms, 0 ≤ prob a
  trimmed : ∀ a ∈ arms, strip a = a
  recorded : ∃ d, objOf? base "arm_propensities" = some d ∧
    ∀ a ∈ arms, numberOf E (getKey d a) = .ok (some (.fin (prob a)))

/-- A quantity of the drawn arm has a value for every arm that can be drawn, and this mean. -/
def HasMean (arms : Finset String) (prob : String → ℚ) (value : String → Py (Option Num)) (q : ℚ) : Prop :=
  ∃ score : String → ℚ, (∀ a ∈ arms, 0 < prob a → value a = .ok (some (.fin (score a)))) ∧
    mean arms prob score = q

/-- The outcomes have these numbers in a field. -/
def Observes (field : String) (outcome : String → Dict F) (arms : Finset String) (reward : String → ℚ) : Prop :=
  ∀ a ∈ arms, numberOf E (getKey (outcome a) field) = .ok (some (.fin (reward a)))

variable {E} {base : Dict F} {outcome : String → Dict F} {arms : Finset String} {prob reward : String → ℚ}

theorem getKey_drawn {k : String} (h1 : k ≠ "outcome") (h2 : k ≠ "chosen_arm") (arm : String) :
    getKey (drawn base outcome arm) k = getKey base k := by
  rw [drawn, getKey_setKey_ne h1.symm, getKey_setKey_ne h2.symm]

theorem objOf_drawn {k : String} (h1 : k ≠ "outcome") (h2 : k ≠ "chosen_arm") (arm : String) :
    objOf? (drawn base outcome arm) k = objOf? base k := by
  rw [objOf?, getKey_drawn h1 h2, objOf?]

theorem outcome_drawn (arm : String) : objOf? (drawn base outcome arm) "outcome" = some (outcome arm) := by
  rw [objOf?, drawn, getKey_setKey_self]

theorem chosenArm_drawn {arm : String} (h : strip arm = arm) : chosenArm E (drawn base outcome arm) = .ok arm := by
  have hlookup : lookup "chosen_arm" (drawn base outcome arm) = some (.str arm) := by
    rw [drawn, lookup_setKey_ne (by decide), lookup_setKey_self]
  have hstr : E.strOr (drawn base outcome arm) "chosen_arm" "" = .ok arm := by
    rw [Env.strOr, hlookup, Option.getD_some, Env.str, pyStr_str]
  unfold chosenArm
  rw [hstr]
  show Except.ok (strip arm) = _
  rw [h]

theorem rowContext_drawn (fields : List (Json F)) (arm : String) :
    rowContext E (drawn base outcome arm) fields = rowContext E base fields := by
  unfold rowContext
  rw [getKey_drawn (by decide) (by decide)]

/-- **The target of a decision does not depend on the draw.** -/
theorem target_drawn (manifest : Dict F) (arm : String) :
    desiredManifestAction E (drawn base outcome arm) manifest = desiredManifestAction E base manifest := by
  have hrisk : E.strOr (drawn base outcome arm) "risk" "" = E.strOr base "risk" "" := by
    rw [Env.strOr, drawn, lookup_setKey_ne (by decide), lookup_setKey_ne (by decide), Env.strOr]
  unfold desiredManifestAction
  rw [hrisk, getKey_drawn (by decide) (by decide)]

/-- **Whether the target is supported does not depend on the draw.** -/
theorem supports_drawn (target arm : String) :
    supports E (drawn base outcome arm) target = supports E base target := by
  unfold supports
  rw [getKey_drawn (by decide) (by decide)]

/-! ### The doubly robust difference -/

theorem correction_eq (hT : Exact E.T) {a target : String} (observed prediction : ℚ) {p : ℚ} (hp : p ≠ 0) :
    correction E (a == target) (.fin observed) (.fin prediction) (.fin p) =
      .ok (.fin (if a = target then (observed - prediction) / p else 0)) := by
  unfold correction
  by_cases h : a = target
  · rw [if_pos (beq_iff_eq.mpr h), if_pos h, exact_sub hT, exact_divide hT _ hp]
  · rw [if_neg (fun heq => h (beq_iff_eq.mp heq)), if_neg h]

/-- **The doubly robust value of a draw.** -/
theorem drValue_drawn (hT : Exact E.T) (hlog : LoggedBy E base arms prob) {fields : List (Json F)} {key : String}
    (hkey : rowContext E base fields = .ok key) {model : Dict F} {prediction : String → ℚ}
    (hmodel : ∀ arm, predictModelValue E model key arm = .ok (.fin (prediction arm))) {field : String}
    (hobserved : Observes E field outcome arms reward) {a : String} (ha : a ∈ arms) (hpos : 0 < prob a)
    (target : String) : drValue E (drawn base outcome a) target model fields field =
      .ok (some (.fin (doublyRobust prob prediction reward target a))) := by
  obtain ⟨d, hd, hprob⟩ := hlog.recorded
  have hvalue : outcomeValue E (drawn base outcome a) field = .ok (some (.fin (reward a))) := by
    rw [outcomeValue, outcome_drawn, numberIn, hobserved a ha]
  have hlisted : objOf? (drawn base outcome a) "arm_propensities" = some d := by
    rw [objOf_drawn (by decide) (by decide), hd]
  have hle : (Num.fin (prob a)).le (.fin 0) = false := by
    rw [Num.le_fin]
    exact decide_eq_false (not_le.mpr hpos)
  unfold drValue
  simp only [hvalue, chosenArm_drawn (hlog.trimmed a ha), hlisted, hprob a ha, hle, rowContext_drawn, hkey, hmodel,
    correction_eq hT _ _ hpos.ne', exact_add hT, bind, Except.bind, pure, Except.pure, Bool.false_eq_true, if_false]
  rfl

/-- **The doubly robust difference is unbiased**, for every model. -/
theorem drDelta_unbiased (hT : Exact E.T) (hlog : LoggedBy E base arms prob) {fields : List (Json F)} {key : String}
    (hkey : rowContext E base fields = .ok key) (model : Dict F) {field : String}
    (hobserved : Observes E field outcome arms reward) {target : String} (htarget : target ∈ arms)
    (hptarget : 0 < prob target) (hbaseline : baselineArm ∈ arms) (hpbaseline : 0 < prob baselineArm) :
    HasMean arms prob (fun a => drDelta E (drawn base outcome a) target model fields field)
      (reward target - reward baselineArm) := by
  choose prediction hmodel using fun arm => predict_exact hT model key arm
  refine ⟨fun a => doublyRobust prob prediction reward target a - doublyRobust prob prediction reward baselineArm a,
    fun a ha hpos => ?_, ?_⟩
  · have hvalue := drValue_drawn hT hlog hkey hmodel hobserved ha hpos
    unfold drDelta
    simp only [hvalue target, hvalue baselineArm, exact_sub hT, bind, Except.bind, pure, Except.pure]
  · rw [mean_sub, mean_doublyRobust hlog.total htarget hptarget.ne',
      mean_doublyRobust hlog.total hbaseline hpbaseline.ne']

/-! ### The shadow score -/

/-- The guards of the shadow score let every draw pass: the rewards are in range, and the weights are not too
great. -/
structure Unguarded (lo hi w : ℚ) (arms : Finset String) (prob reward : String → ℚ) (target : String) : Prop where
  range : ∀ a ∈ arms, 0 < prob a → lo ≤ reward a ∧ reward a ≤ hi
  target : 1 / prob target ≤ w
  baseline : 1 / prob baselineArm ≤ w

theorem weightedTerm_eq (hT : Exact E.T) {lo hi : Num} {w : ℚ} {a arm : String} (h : 1 / prob arm ≤ w)
    (hpos : 0 < prob a) : weightedTerm E ⟨lo, hi, .fin w⟩ (a == arm) (.fin (prob a)) (.fin (reward a)) =
      .ok (.ok (.fin (inverse prob reward arm a))) := by
  have hone : E.T.lit 1 = .fin 1 := hT 1
  unfold weightedTerm inverse
  by_cases heq : a = arm
  · have hw : (Num.fin w).lt (.fin (1 / prob a)) = false := by
      rw [Num.lt_fin, heq]
      exact decide_eq_false (not_lt.mpr h)
    rw [if_pos (beq_iff_eq.mpr heq), if_pos heq, hone, exact_divide hT _ hpos.ne']
    simp only [bind, Except.bind, pure, Except.pure, hw, Bool.false_eq_true, if_false, exact_mul hT]
  · rw [if_neg (fun hbeq => heq (beq_iff_eq.mp hbeq)), if_neg heq]

/-- **The shadow score is unbiased**, if its guards let every draw pass. -/
theorem shadow_unbiased (hT : Exact E.T) (hlog : LoggedBy E base arms prob)
    (hobserved : Observes E "reward" outcome arms reward) {target : String} (htarget : target ∈ arms)
    (hptarget : 0 < prob target) (hbaseline : baselineArm ∈ arms) (hpbaseline : 0 < prob baselineArm) {lo hi w : ℚ}
    (hguards : Unguarded lo hi w arms prob reward target) :
    HasMean arms prob (fun a => do
        return (← sequentialRewardScore E ⟨.fin lo, .fin hi, .fin w⟩ (drawn base outcome a) target).toOption)
      (reward target - reward baselineArm) := by
  refine ⟨fun a => inverse prob reward target a - inverse prob reward baselineArm a, fun a ha hpos => ?_, ?_⟩
  · obtain ⟨d, hd, hprob⟩ := hlog.recorded
    have hlisted : objOf? (drawn base outcome a) "arm_propensities" = some d := by
      rw [objOf_drawn (by decide) (by decide), hd]
    have hle : (Num.fin (prob a)).le (.fin 0) = false := by
      rw [Num.le_fin]
      exact decide_eq_false (not_le.mpr hpos)
    have hrange : ((Num.fin (reward a)).lt (.fin lo) || (Num.fin hi).lt (.fin (reward a))) = false := by
      obtain ⟨hlo, hhi⟩ := hguards.range a ha hpos
      rw [Num.lt_fin, Num.lt_fin, decide_eq_false (not_lt.mpr hlo), decide_eq_false (not_lt.mpr hhi)]
      rfl
    have hscore : sequentialRewardScore E ⟨.fin lo, .fin hi, .fin w⟩ (drawn base outcome a) target =
        .ok (.ok (.fin (inverse prob reward target a - inverse prob reward baselineArm a))) := by
      unfold sequentialRewardScore
      simp only [outcome_drawn, hobserved a ha, chosenArm_drawn (hlog.trimmed a ha), hlisted, hprob a ha, hle, hrange,
        weightedTerm_eq hT hguards.target hpos, weightedTerm_eq hT hguards.baseline hpos, exact_sub hT, bind,
        Except.bind, pure, Except.pure, Bool.false_eq_true, if_false]
    exact bind_eq_ok.mpr ⟨_, hscore, rfl⟩
  · rw [mean_sub, mean_inverse htarget hptarget.ne', mean_inverse hbaseline hpbaseline.ne']

/-! ### The score of a live deployment -/

/-- A decision as it is logged when a group is drawn and its outcome is known. -/
def assignedRow (base deployment : Dict F) (outcome : String → Dict F) (assignment : String) : Dict F :=
  setKey "outcome" (.obj (outcome assignment))
    (setKey "deployment" (.obj (setKey "assignment" (.str assignment) deployment)) base)

/-- The two groups. -/
def groups : Finset String := {"candidate", "control"}

/-- The probabilities of the groups. -/
def groupProb (c : ℚ) (assignment : String) : ℚ := if assignment = "candidate" then c else 1 - c

theorem sum_groupProb (c : ℚ) : ∑ a ∈ groups, groupProb c a = 1 := by
  rw [groups, Finset.sum_pair (by decide), groupProb, groupProb, if_pos rfl, if_neg (by decide)]
  ring

/-- The guards of the guardrails let both groups pass. -/
structure GroupsUnguarded (lo hi w c : ℚ) (reward : String → ℚ) : Prop where
  range : ∀ a ∈ groups, lo ≤ reward a ∧ reward a ≤ hi
  weight : ∀ a ∈ groups, 1 / groupProb c a ≤ w

/-- **The weighted reward of a group** is that of the candidate less that of the control group. -/
theorem weighted_eq (hT : Exact E.T) {lo hi : Num} {w c : ℚ} {a : String} (ha : a ∈ groups)
    (hweight : 1 / groupProb c a ≤ w) (hpos : 0 < groupProb c a) :
    weighted E ⟨lo, hi, .fin w⟩ (a == "candidate") (.fin c) (.fin (reward a)) =
      .ok (.score (.fin (inverse (groupProb c) reward "candidate" a - inverse (groupProb c) reward "control" a))) := by
  have hone : E.T.lit 1 = .fin 1 := hT 1
  have hw : (Num.fin w).lt (.fin (1 / groupProb c a)) = false := by
    rw [Num.lt_fin]
    exact decide_eq_false (not_lt.mpr hweight)
  have hprob : (if (a == "candidate") = true then Num.fin c else E.T.sub (E.T.lit 1) (.fin c)) =
      .fin (groupProb c a) := by
    rw [hone, exact_sub hT, groupProb]
    by_cases h : a = "candidate"
    · rw [if_pos (beq_iff_eq.mpr h), if_pos h]
    · rw [if_neg (fun hbeq => h (beq_iff_eq.mp hbeq)), if_neg h]
  unfold weighted
  rw [hprob, hone, exact_divide hT _ hpos.ne']
  rw [groups, Finset.mem_insert, Finset.mem_singleton] at ha
  rcases ha with rfl | rfl
  · have hscore : inverse (groupProb c) reward "candidate" "candidate" -
        inverse (groupProb c) reward "control" "candidate" = 1 / groupProb c "candidate" * reward "candidate" := by
      rw [inverse, inverse, if_pos rfl, if_neg (by decide), sub_zero]
    simp only [bind, Except.bind, pure, Except.pure, hw, Bool.false_eq_true, if_false, beq_self_eq_true, if_true,
      exact_mul hT, hscore]
  · have hscore : inverse (groupProb c) reward "candidate" "control" -
        inverse (groupProb c) reward "control" "control" = -(1 / groupProb c "control") * reward "control" := by
      rw [inverse, inverse, if_pos rfl, if_neg (by decide), zero_sub, neg_mul]
    have hgroup : ("control" == "candidate") = false := by decide
    simp only [bind, Except.bind, pure, Except.pure, hw, Bool.false_eq_true, if_false, hgroup, Num.negate,
      exact_mul hT, hscore]

/-- **The score of a live row is unbiased**, if the guards let both groups pass. -/
theorem guardrail_unbiased (hT : Exact E.T) {base deployment : Dict F} {c : ℚ}
    (hrecorded : numberOf E (getKey deployment "candidate_probability") = .ok (some (.fin c))) (hc : 0 < c ∧ c < 1)
    (hverified : ∀ a ∈ groups, truthy E.T (getKey (outcome a) "verified") = true)
    (hobserved : Observes E "reward" outcome groups reward) {lo hi w : ℚ} (hguards : GroupsUnguarded lo hi w c reward) :
    HasMean groups (groupProb c) (fun a => do
        return (← scoreRow E ⟨.fin lo, .fin hi, .fin w⟩ (assignedRow base deployment outcome a)).score?)
      (reward "candidate" - reward "control") := by
  have hone : E.T.lit 1 = .fin 1 := hT 1
  have hcandidate : 0 < groupProb c "candidate" := hc.1
  have hcontrol : 0 < groupProb c "control" := sub_pos.mpr hc.2
  refine ⟨fun a => inverse (groupProb c) reward "candidate" a - inverse (groupProb c) reward "control" a,
    fun a ha hpos => ?_, ?_⟩
  · have hdeployment : objOf? (assignedRow base deployment outcome a) "deployment" =
        some (setKey "assignment" (.str a) deployment) := by
      rw [objOf?, assignedRow, getKey_setKey_ne (by decide), getKey_setKey_self]
    have houtcome : verifiedOutcome E (assignedRow base deployment outcome a) = some (outcome a) := by
      have hsome : objOf? (assignedRow base deployment outcome a) "outcome" = some (outcome a) := by
        rw [objOf?, assignedRow, getKey_setKey_self]
      unfold verifiedOutcome
      rw [hsome]
      simp only
      rw [if_pos (hverified a ha)]
    have hassignment : E.strOr (setKey "assignment" (.str a) deployment) "assignment" "" = .ok a := by
      rw [Env.strOr, lookup_setKey_self, Option.getD_some, Env.str, pyStr_str]
    have hgroup : group? a = some (a == "candidate") := by
      rw [groups, Finset.mem_insert, Finset.mem_singleton] at ha
      rcases ha with rfl | rfl <;> decide
    have hprobability : numberOf E (getKey (setKey "assignment" (.str a) deployment) "candidate_probability") =
        .ok (some (.fin c)) := by
      rw [getKey_setKey_ne (by decide), hrecorded]
    have hbounds : (!((Num.fin 0).lt (.fin c) && (Num.fin c).lt (E.T.lit 1))) = false := by
      rw [hone, Num.lt_fin, Num.lt_fin, decide_eq_true hc.1, decide_eq_true hc.2]
      rfl
    have hrange : ((Num.fin (reward a)).lt (.fin lo) || (Num.fin hi).lt (.fin (reward a))) = false := by
      obtain ⟨hlo, hhi⟩ := hguards.range a ha
      rw [Num.lt_fin, Num.lt_fin, decide_eq_false (not_lt.mpr hlo), decide_eq_false (not_lt.mpr hhi)]
      rfl
    have hscore : scoreRow E ⟨.fin lo, .fin hi, .fin w⟩ (assignedRow base deployment outcome a) =
        .ok (.score (.fin (inverse (groupProb c) reward "candidate" a -
          inverse (groupProb c) reward "control" a))) := by
      unfold scoreRow scoreOutcome
      simp only [hdeployment, houtcome, hassignment, hgroup, hprobability, hbounds, hobserved a ha, hrange,
        weighted_eq hT ha (hguards.weight a ha) hpos, bind, Except.bind, Bool.false_eq_true, if_false]
    exact bind_eq_ok.mpr ⟨_, hscore, rfl⟩
  · rw [mean_sub, mean_inverse (by decide) hcandidate.ne', mean_inverse (by decide) hcontrol.ne']

/-! ### The shadow gate -/

theorem mapM_forall₂ {α β : Type} {f : α → Py β} : ∀ {xs : List α} {ys : List β}, xs.mapM f = .ok ys →
    List.Forall₂ (fun x y => f x = .ok y) xs ys
  | [], ys, h => by
    cases h
    exact .nil
  | x :: xs, ys, h => by
    rw [List.mapM_cons] at h
    obtain ⟨y, hy, h⟩ := bind_eq_ok.mp h
    obtain ⟨rest, hrest, h⟩ := bind_eq_ok.mp h
    cases h
    exact .cons hy (mapM_forall₂ hrest)

/-- Every row gave one score. -/
def EveryRowScored (E : Env F) (r : Range) (manifest : Dict F) (rows : List (Dict F)) (scores : List Num) : Prop :=
  List.Forall₂ (fun row x => ∃ cost, shadowRow E r manifest row = .ok (.score x cost)) rows scores

/-- If no row is unsupported or violates a guard, the scores are those of the rows, in order. -/
theorem scored_of_clean {r : Range} {manifest : Dict F} {rows : List (Dict F)} {shadowed : List Shadowed}
    (h : List.Forall₂ (fun row s => shadowRow E r manifest row = .ok s) rows shadowed)
    (hsupported : shadowed.countP Shadowed.isUnsupported = 0)
    (hclean : shadowed.filterMap Shadowed.violation? = []) :
    EveryRowScored E r manifest rows (shadowed.filterMap Shadowed.score?) ∧
      (rows.zip shadowed).filterMap (fun p => p.2.score?.map fun _ => p.1) = rows := by
  induction h with
  | nil => exact ⟨.nil, rfl⟩
  | @cons row s rows shadowed hs _ ih =>
    cases s with
    | unsupported => simp [Shadowed.isUnsupported] at hsupported
    | violation reason => simp [Shadowed.violation?] at hclean
    | score x cost =>
      have hrest : shadowed.countP Shadowed.isUnsupported = 0 := by
        rwa [List.countP_cons_of_neg (by simp [Shadowed.isUnsupported])] at hsupported
      obtain ⟨hscored, hzip⟩ := ih hrest (by simpa [Shadowed.violation?] using hclean)
      refine ⟨.cons ⟨cost, hs⟩ hscored, ?_⟩
      show row :: (rows.zip shadowed).filterMap (fun p => p.2.score?.map fun _ => p.1) = row :: rows
      rw [hzip]

theorem not_mem_blocker {blocks : Bool} {name : String} (h : name ∉ blocker blocks name) : blocks = false := by
  cases blocks with
  | false => rfl
  | true => exact absurd (List.mem_singleton.mpr rfl) h

/-- **The gate is open only if every row behind the cutoff gave exactly one score.** -/
theorem every_row_scored {S : Sampling} {instant : String → Option ℤ} {records : List (Dict F)} {manifest : Dict F}
    {key : Key} {a : ShadowArgs} {report : ShadowReport F}
    (h : evaluateShadowPolicy E S instant records manifest key a = .ok report)
    (hsupport : "target_policy_support_violation" ∉ report.blockers)
    (hinput : "sequential_monitoring_input_violation" ∉ report.blockers) :
    (∃ cutoff excluded, verifiedPostCutoffRows E instant records cutoff = .ok (report.rows, excluded)) ∧
      report.supportedRows = report.rows ∧ EveryRowScored E a.range manifest report.rows report.scores := by
  unfold evaluateShadowPolicy at h
  obtain ⟨verification, -, h⟩ := bind_eq_ok.mp h
  obtain ⟨_, -, h⟩ := bind_eq_ok.mp h
  obtain ⟨_, -, h⟩ := bind_eq_ok.mp h
  obtain ⟨cutoff, -, h⟩ := bind_eq_ok.mp h
  obtain ⟨⟨rows, excluded⟩, hrows, h⟩ := bind_eq_ok.mp h
  obtain ⟨evidence, -, h⟩ := bind_eq_ok.mp h
  obtain ⟨fields, -, h⟩ := bind_eq_ok.mp h
  obtain ⟨shadowed, hshadowed, h⟩ := bind_eq_ok.mp h
  obtain ⟨sequence, -, h⟩ := bind_eq_ok.mp h
  obtain ⟨policy, -, h⟩ := bind_eq_ok.mp h
  obtain ⟨⟨rewardDeltas, costDeltas⟩, -, h⟩ := bind_eq_ok.mp h
  cases h
  simp only [List.mem_append, not_or] at hsupport hinput
  have hunsupported := not_mem_blocker hsupport.1.1.1.2
  have hviolations := not_mem_blocker hinput.1.1.2
  rw [bne_eq_false_iff_eq] at hunsupported
  rw [Bool.not_eq_false', List.isEmpty_iff] at hviolations
  obtain ⟨hscored, hzip⟩ := scored_of_clean (mapM_forall₂ hshadowed) hunsupported hviolations
  exact ⟨⟨_, excluded, hrows⟩, hzip, hscored⟩

/-! ### Unbiased scores -/

/-- **The three scores are unbiased, and the shadow gate does not select rows.** The sequential scores are so if
the guards let every draw pass. -/
theorem scores_unbiased (E : Env F) :
    (Exact E.T → ∀ (base : Dict F) (arms : Finset String) (prob : String → ℚ), LoggedBy E base arms prob →
      ∀ target ∈ arms, 0 < prob target → baselineArm ∈ arms → 0 < prob baselineArm →
      ∀ (outcome : String → Dict F) (reward : String → ℚ),
        (∀ (field : String) (fields : List (Json F)) (key : String) (model : Dict F),
          rowContext E base fields = .ok key → Observes E field outcome arms reward →
          HasMean arms prob (fun a => drDelta E (drawn base outcome a) target model fields field)
            (reward target - reward baselineArm)) ∧
        ∀ lo hi w : ℚ, Observes E "reward" outcome arms reward → Unguarded lo hi w arms prob reward target →
          HasMean arms prob (fun a => do
              return (← sequentialRewardScore E ⟨.fin lo, .fin hi, .fin w⟩ (drawn base outcome a) target).toOption)
            (reward target - reward baselineArm)) ∧
    (Exact E.T → ∀ (base deployment : Dict F) (c : ℚ),
      numberOf E (getKey deployment "candidate_probability") = .ok (some (.fin c)) → 0 < c ∧ c < 1 →
      ∀ (outcome : String → Dict F) (reward : String → ℚ),
        (∀ a ∈ groups, truthy E.T (getKey (outcome a) "verified") = true) →
        Observes E "reward" outcome groups reward → ∀ lo hi w : ℚ, GroupsUnguarded lo hi w c reward →
        HasMean groups (groupProb c) (fun a => do
            return (← scoreRow E ⟨.fin lo, .fin hi, .fin w⟩ (assignedRow base deployment outcome a)).score?)
          (reward "candidate" - reward "control")) ∧
    ∀ (S : Sampling) (instant : String → Option ℤ) (records : List (Dict F)) (manifest : Dict F) (key : Key)
      (a : ShadowArgs) (report : ShadowReport F),
      evaluateShadowPolicy E S instant records manifest key a = .ok report →
      "target_policy_support_violation" ∉ report.blockers →
      "sequential_monitoring_input_violation" ∉ report.blockers →
      (∃ cutoff excluded, verifiedPostCutoffRows E instant records cutoff = .ok (report.rows, excluded)) ∧
        report.supportedRows = report.rows ∧ EveryRowScored E a.range manifest report.rows report.scores := by
  refine ⟨fun hT base arms prob hlog target htarget hptarget hbaseline hpbaseline outcome reward => ⟨?_, ?_⟩,
    fun hT base deployment c hrecorded hc outcome reward hverified hobserved lo hi w hguards =>
      guardrail_unbiased hT hrecorded hc hverified hobserved hguards,
    fun S instant records manifest key a report h hsupport hinput => every_row_scored h hsupport hinput⟩
  · exact fun field fields key model hkey hobserved =>
      drDelta_unbiased hT hlog hkey model hobserved htarget hptarget hbaseline hpbaseline
  · exact fun lo hi w hobserved hguards =>
      shadow_unbiased hT hlog hobserved htarget hptarget hbaseline hpbaseline hguards

/-! ### Two arms -/

def smallFeatures : Dict ℚ :=
  [("lane", .str "small"), ("risk", .str "low"), ("intent", .str "exact"), ("query_length_bucket", .str "1-4"),
    ("changed_files_bucket", .str "0"), ("workspace_roots_bucket", .str "1")]

/-- A decision that draws one of two arms with equal probability. -/
def evenDecision : Dict ℚ :=
  [("context_features", .obj smallFeatures),
    ("arm_propensities", .obj [(baselineArm, .float (1 / 2)), ("structural_only", .float (1 / 2))])]

def evenArms : Finset String := {baselineArm, "structural_only"}

/-- The outcome of a drawn arm or group with a reward. -/
def outcomeOf (reward : String → ℚ) (arm : String) : Dict ℚ :=
  [("verified", .bool true), ("reward", .float (reward arm))]

/-- The reward is one, but zero for the baseline and the control group. -/
def unitReward (arm : String) : ℚ := if arm = baselineArm ∨ arm = "control" then 0 else 1

theorem observes_outcomeOf (reward : String → ℚ) (arms : Finset String) :
    Observes exactPlatform "reward" (outcomeOf reward) arms reward := fun _ _ => rfl

theorem even_logged : LoggedBy exactPlatform evenDecision evenArms (fun _ => 1 / 2) where
  total := by
    rw [evenArms, Finset.sum_pair (by decide)]
    norm_num
  nonneg _ _ := by norm_num
  trimmed := by decide
  recorded := by
    refine ⟨_, rfl, fun a ha => ?_⟩
    rw [evenArms, Finset.mem_insert, Finset.mem_singleton] at ha
    rcases ha with rfl | rfl <;> rfl

/-- A manifest without a policy or a model. -/
def emptyManifest : Dict Cell :=
  [("evidence_cutoff", .str "2026-01-01T12:00:00+00:00"), ("context_fields", .arr [.str "lane"]),
    ("policy", .obj []), ("reward_model", .obj []), ("cost_model", .obj [])]

def unitArgs : ShadowArgs where
  confidence := .fin (1 / 2)
  range := ⟨.fin 0, .fin 1, .fin 1⟩
  minimumNewEvents := 1
  safetyMargin := .fin 0
  maxRealizedCost := none

theorem even_unguarded : Unguarded 0 1 2 evenArms (fun _ => 1 / 2) unitReward "structural_only" where
  range a _ _ := by
    unfold unitReward
    split_ifs <;> norm_num
  target := by norm_num
  baseline := by norm_num

theorem scores_unbiased_two :
    HasMean evenArms (fun _ => 1 / 2) (fun a => drDelta exactPlatform (drawn evenDecision (outcomeOf unitReward) a)
      "structural_only" [] [.str "lane"] "reward") (unitReward "structural_only" - unitReward baselineArm) ∧
    HasMean evenArms (fun _ => 1 / 2) (fun a => do
        return (← sequentialRewardScore exactPlatform ⟨.fin 0, .fin 1, .fin 2⟩
          (drawn evenDecision (outcomeOf unitReward) a) "structural_only").toOption)
      (unitReward "structural_only" - unitReward baselineArm) ∧
    HasMean groups (groupProb (1 / 2)) (fun a => do
        return (← scoreRow exactPlatform ⟨.fin 0, .fin 1, .fin 2⟩
          (assignedRow [] [("candidate_probability", .float (1 / 2))] (outcomeOf unitReward) a)).score?)
      (unitReward "candidate" - unitReward "control") ∧
    ∃ report, evaluateShadowPolicy platform ⟨fun _ _ => .fin 0, fun _ _ _ => 0⟩ isoInstant [eastern, western]
        emptyManifest [] unitArgs = .ok report ∧ report.rows = [western] ∧
      report.supportedRows = report.rows ∧
      EveryRowScored platform unitArgs.range emptyManifest report.rows report.scores := by
  obtain ⟨hlogged, hassigned, -⟩ := scores_unbiased exactPlatform
  obtain ⟨hdr, hshadow⟩ := hlogged exact_rationals evenDecision evenArms (fun _ => 1 / 2) even_logged
    "structural_only" (by decide) (by norm_num) (by decide) (by norm_num) (outcomeOf unitReward) unitReward
  have hok : (rowContext exactPlatform evenDecision [.str "lane"]).isOk = true := by
    decide +kernel
  obtain ⟨key, hkey⟩ := isOk_iff.mp hok
  refine ⟨hdr "reward" [.str "lane"] key [] hkey (observes_outcomeOf _ _),
    hshadow 0 1 2 (observes_outcomeOf _ _) even_unguarded, ?_, ?_⟩
  · refine hassigned exact_rationals [] [("candidate_probability", .float (1 / 2))] (1 / 2) rfl (by norm_num)
      (outcomeOf unitReward) unitReward (fun _ _ => rfl) (observes_outcomeOf _ _) 0 1 2 ⟨fun a _ => ?_, fun a _ => ?_⟩
    · unfold unitReward
      split_ifs <;> norm_num
    · unfold groupProb
      split_ifs <;> norm_num
  · have hblockers : (evaluateShadowPolicy platform ⟨fun _ _ => .fin 0, fun _ _ _ => 0⟩ isoInstant
        [eastern, western] emptyManifest [] unitArgs).toOption.map (fun r => (r.blockers, r.rows)) =
        some (["manifest_verification_failed", "anytime_lower_bound_does_not_clear_margin"], [western]) := by
      decide +kernel
    generalize hreport : evaluateShadowPolicy platform ⟨fun _ _ => .fin 0, fun _ _ _ => 0⟩ isoInstant
      [eastern, western] emptyManifest [] unitArgs = result at hblockers
    cases result with
    | error e => cases hblockers
    | ok report =>
      obtain ⟨hnames, hrows⟩ := Prod.mk.inj (Option.some.inj hblockers)
      obtain ⟨-, hkept, hscored⟩ := (scores_unbiased platform).2.2 _ _ _ _ _ _ report hreport
        (by rw [hnames]; decide) (by rw [hnames]; decide)
      exact ⟨report, rfl, hrows, hkept, hscored⟩

/-- Rewards of two for the target. -/
def doubleReward (arm : String) : ℚ := 2 * unitReward arm

/-- An arm between blanks. -/
def paddedArms : Finset String := {baselineArm, " padded"}

def paddedDecision : Dict ℚ :=
  [("context_features", .obj smallFeatures),
    ("arm_propensities", .obj [(baselineArm, .float (1 / 2)), (" padded", .float (1 / 2))])]

/-- **A reward out of range, and an arm between blanks, have no score.** -/
theorem score_missing :
    (LoggedBy exactPlatform evenDecision evenArms (fun _ => 1 / 2) ∧
      Observes exactPlatform "reward" (outcomeOf doubleReward) evenArms doubleReward ∧
      1 / (1 / 2 : ℚ) ≤ 2 ∧
      ¬ HasMean evenArms (fun _ => 1 / 2) (fun a => do
          return (← sequentialRewardScore exactPlatform ⟨.fin 0, .fin 1, .fin 2⟩
            (drawn evenDecision (outcomeOf doubleReward) a) "structural_only").toOption)
        (doubleReward "structural_only" - doubleReward baselineArm)) ∧
    ((∑ _a ∈ paddedArms, (1 / 2 : ℚ) = 1) ∧
      (∀ a ∈ paddedArms, ∃ d, objOf? paddedDecision "arm_propensities" = some d ∧
        numberOf exactPlatform (getKey d a) = .ok (some (.fin (1 / 2)))) ∧
      Observes exactPlatform "reward" (outcomeOf unitReward) paddedArms unitReward ∧
      ¬ HasMean paddedArms (fun _ => 1 / 2) (fun a => drDelta exactPlatform
          (drawn paddedDecision (outcomeOf unitReward) a) " padded" [] [.str "lane"] "reward")
        (unitReward " padded" - unitReward baselineArm)) := by
  refine ⟨⟨even_logged, observes_outcomeOf _ _, by norm_num, ?_⟩, ?_, ?_, observes_outcomeOf _ _, ?_⟩
  · rintro ⟨score, hscore, -⟩
    have hnone : (do
        return (← sequentialRewardScore exactPlatform ⟨.fin 0, .fin 1, .fin 2⟩
          (drawn evenDecision (outcomeOf doubleReward) "structural_only") "structural_only").toOption) =
          (.ok none : Py (Option Num)) := by
      decide +kernel
    have h := hscore "structural_only" (by decide) (by norm_num)
    cases hnone.symm.trans h
  · rw [paddedArms, Finset.sum_pair (by decide)]
    norm_num
  · intro a ha
    refine ⟨_, rfl, ?_⟩
    rw [paddedArms, Finset.mem_insert, Finset.mem_singleton] at ha
    rcases ha with rfl | rfl <;> rfl
  · rintro ⟨score, hscore, -⟩
    have hnone : drDelta exactPlatform (drawn paddedDecision (outcomeOf unitReward) " padded") " padded" []
        [.str "lane"] "reward" = .ok none := by
      decide +kernel
    have h := hscore " padded" (by decide) (by norm_num)
    cases hnone.symm.trans h

end ControlPlane.Policy.Scores
