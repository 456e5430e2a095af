import ControlPlane.Deployment.Guardrails
import ControlPlane.Lib.Weights

/-! # The statistics of live rows

What `evaluateLiveGuardrails` computes from the live rows besides the budgets: the importance-weighted
scores and their sequential bound, the reward difference between the groups with its bootstrap over
clusters, and the drift of the contexts. `liveStatistics` turns them into rollback blockers.

The sequential bound is computed with the bound on the scores that the guardrails of the state give
(`absoluteBound`), and refuses to be computed with an infinite one. -/

namespace ControlPlane.Deployment.Statistics

open ControlPlane.Lib.Value ControlPlane.Lib.Print ControlPlane.Lib.Text ControlPlane.Lib.Floats
open ControlPlane.Lib.Weights
open ControlPlane.Lib.Dumps ControlPlane.Lib.Dynamic ControlPlane.Environment ControlPlane.Learning.Features
open ControlPlane.Deployment.Manifest ControlPlane.Deployment.State ControlPlane.Deployment.Guardrails

variable {F : Type} (E : Env F)

/-- What the statistics take from the platform. -/
structure Sampling where
  /-- `math.sqrt(2.0 * math.log(2.0 / allocated_alpha) / index)` at a confidence. -/
  spread : Num → ℕ → Num
  /-- What `random.Random(seed)` gives for a position of a resample. -/
  draw : ℤ → ℕ → ℕ → ℕ

/-! ### Numbers -/

/-- `x / y`; division by zero is an error. -/
def divide (x y : Num) : Py Num :=
  if y.eq (.fin 0) then .error (.runtimeError "float division by zero") else .ok (E.T.div x y)

/-- `min(x, y)`: the second argument only if it is smaller. -/
def pyMin (x y : Num) : Num := if y.lt x then y else x

/-- `sum(values)`. -/
def total (values : List Num) : Num := values.foldl E.T.add (.fin 0)

/-- `sum(values) / len(values)` of a list that is not empty. -/
def mean (values : List Num) : Num := E.T.div (total E values) (.fin values.length)

/-- `round(x, 6)`. -/
def round6 : Num → Num
  | .fin q => E.T.lit (roundHalfEven q 6)
  | x => x

/-- The number, if it is finite. -/
def finite? : Num → Option Num
  | .fin q => some (.fin q)
  | _ => none

/-- `_number(v)` as a value. -/
def numberOf (v : Json F) : Py (Option Num) := do
  return (← finiteNumber? E v).map E.T.view

/-- `float(d.get(k, default))`. -/
def readFloat (d : Dict F) (k : String) (default : ℚ) : Py Num := do
  return E.T.view (← E.toFloat ((lookup k d).getD (.float (E.T.ofRat default))))

/-- `int(d.get(k, default))`. -/
def readInt (d : Dict F) (k : String) (default : ℤ) : Py ℤ :=
  E.toInt ((lookup k d).getD (.int default))

/-! ### The sequential bound -/

/-- What is counted instead of a score. -/
inductive Violation where
  | invalidAssignmentProbability
  | invalidOutcome
  | rewardRange
  | importanceWeight
  deriving DecidableEq

/-- What a row gives. -/
inductive Scored where
  | skipped
  | violation (v : Violation)
  | score (x : Num)

def Scored.score? : Scored → Option Num
  | .score x => some x
  | _ => none

def Scored.violation? : Scored → Option Violation
  | .violation v => some v
  | _ => none

/-- The bounds of `sequentialScores`. -/
structure Range where
  rewardMin : Num
  rewardMax : Num
  maxImportanceWeight : Num

/-- The score of a reward under a probability of the candidate. -/
def weighted (r : Range) (candidate : Bool) (probability reward : Num) : Py Scored := do
  let weight ← divide E (E.T.lit 1) (if candidate then probability else E.T.sub (E.T.lit 1) probability)
  let score := E.T.mul (if candidate then weight else weight.negate) reward
  return if r.maxImportanceWeight.lt weight then .violation .importanceWeight else .score score

/-- The score of an outcome of one of the two groups. -/
def scoreOutcome (r : Range) (candidate : Bool) (deployment outcome : Dict F) : Py Scored := do
  match ← numberOf E (getKey deployment "candidate_probability") with
  | none => return .violation .invalidAssignmentProbability
  | some p =>
    if !((Num.fin 0).lt p && p.lt (E.T.lit 1)) then return .violation .invalidAssignmentProbability
    match ← numberOf E (getKey outcome "reward") with
    | none => return .violation .invalidOutcome
    | some reward =>
      if reward.lt r.rewardMin || r.rewardMax.lt reward then return .violation .rewardRange
      weighted E r candidate p reward

/-- The group a text names: the candidate or the control group. -/
def group? (assignment : String) : Option Bool :=
  if assignment = "candidate" then some true else if assignment = "control" then some false else none

/-- The score of a row. -/
def scoreRow (r : Range) (row : Dict F) : Py Scored :=
  match objOf? row "deployment", verifiedOutcome E row with
  | some deployment, some outcome => do
    match group? (← E.strOr deployment "assignment" "") with
    | some candidate => scoreOutcome E r candidate deployment outcome
    | none => return .skipped
  | _, _ => .ok .skipped

def sequentialScores (r : Range) (rows : List (Dict F)) : Py (List Num × List Violation) := do
  let scored ← rows.mapM (scoreRow E r)
  return (scored.filterMap Scored.score?, scored.filterMap Scored.violation?)

/-- An interval of the sequence. -/
structure Interval where
  n : ℕ
  mean : Num
  lower : Num
  upper : Num

/-- The intervals of the values, after `index` of them with the sum `running`. -/
def intervals (spread : ℕ → Num) (bound : Num) : Num → ℕ → List Num → List Interval
  | _, _, [] => []
  | running, index, value :: values =>
    let running := E.T.add running value
    let index := index + 1
    let mean := E.T.div running (.fin index)
    let radius := E.T.mul bound (spread index)
    ⟨index, round6 E mean, round6 E (E.T.sub mean radius), round6 E (E.T.add mean radius)⟩ ::
      intervals spread bound running index values

/-- The report of the sequence. -/
structure Sequence where
  absoluteBound : Num
  final : Option Interval
  checkpoints : List Interval

/-- The intervals at the powers of two, and the last one. -/
def checkpointsOf (all : List Interval) : List Interval :=
  let marked := all.filter fun i => i.n &&& (i.n - 1) == 0
  match all.getLast? with
  | some final => if (marked.getLast?.map Interval.n) == some final.n then marked else marked ++ [final]
  | none => marked

def anytimeHoeffdingSequence (S : Sampling) (values : List Num) (confidence absoluteBound : Num) :
    Py Sequence := do
  require ((Num.fin 0).lt confidence && confidence.lt (E.T.lit 1)) "confidence must be between 0 and 1"
  require (!absoluteBound.le (.fin 0) && (finite? absoluteBound).isSome)
    "absolute_bound must be finite and positive"
  let all := intervals E (S.spread confidence) absoluteBound (.fin 0) 0 values
  return ⟨absoluteBound, all.getLast?, checkpointsOf all⟩

/-- The bound on the scores. -/
def absoluteBound (r : Range) : Num :=
  pyMax (E.T.lit (1 / 10 ^ 12))
    (E.T.mul r.maxImportanceWeight (pyMax r.rewardMin.abs r.rewardMax.abs))

def rangeOf (guardrails : Dict F) : Py Range := do
  return ⟨← readFloat E guardrails "reward_min" 0, ← readFloat E guardrails "reward_max" 1,
    ← readFloat E guardrails "max_importance_weight" 100⟩

/-- What is fed to the sequential bound. -/
structure Monitoring where
  scores : List Num
  violations : List Violation
  absoluteBound : Num

def monitoring (guardrails : Dict F) (rows : List (Dict F)) : Py Monitoring := do
  let range ← rangeOf E guardrails
  let (scores, violations) ← sequentialScores E range rows
  return ⟨scores, violations, absoluteBound E range⟩

/-! ### The bootstrap over clusters -/

/-- The weighted reward of an outcome. -/
def rewardScore (candidate : Bool) (deployment outcome : Dict F) : Py (Option Num) := do
  let probability ← numberOf E (getKey deployment "candidate_probability")
  let reward ← numberOf E (getKey outcome "reward")
  match probability, reward with
  | some p, some reward =>
    if !((Num.fin 0).lt p && p.lt (E.T.lit 1)) then return none
    return some (← divide E (if candidate then reward else reward.negate)
      (if candidate then p else E.T.sub (E.T.lit 1) p))
  | _, _ => return none

def rowScore (row : Dict F) : Py (Option Num) :=
  match objOf? row "deployment", verifiedOutcome E row with
  | some deployment, some outcome => do
    match group? (← E.strOr deployment "assignment" "") with
    | some candidate => rewardScore E candidate deployment outcome
    | none => return none
  | _, _ => .ok none

/-- Adds a score to a cluster. -/
def addScore (name : String) (x : Num) : List (String × List Num) → List (String × List Num)
  | [] => [(name, [x])]
  | (other, scores) :: rest =>
    if other = name then (other, scores ++ [x]) :: rest else (other, scores) :: addScore name x rest

/-- The text of a cluster; a row may have none. -/
def clusterText (raw : Json F) : Py String :=
  match raw with
  | .null => .ok ""
  | raw => E.str raw

/-- The cluster of a row. -/
def clusterOf (clusterField : String) (index : ℕ) (row : Dict F) : Py String := do
  let name := strip (← clusterText E (getKey row clusterField))
  return if name = "" then "row:" ++ toString index else name

/-- The loop over the rows: the clusters and the number of rows without a score. -/
def clusterRows (clusterField : String) : ℕ → List (Dict F) → List (String × List Num) → ℕ →
    Py (List (String × List Num) × ℕ)
  | _, [], clusters, invalid => .ok (clusters, invalid)
  | index, row :: rows, clusters, invalid => do
    match ← rowScore E row with
    | none => clusterRows clusterField (index + 1) rows clusters (invalid + 1)
    | some x =>
      let name ← clusterOf E clusterField index row
      clusterRows clusterField (index + 1) rows (addScore name x clusters) invalid

/-- The element at a position. -/
def nth (values : List Num) (i : ℕ) : Py Num :=
  match values[i]? with
  | some x => .ok x
  | none => .error (.indexError "list index out of range")

/-- The rational a finite number is. -/
def ratOf : Num → ℚ
  | .fin q => q
  | _ => 0

/-- A position in a list is at most the last one. -/
def percentile (values : List Num) (probability : Num) : Py Num := do
  require (!values.isEmpty) "percentile requires at least one value"
  let p := pyMin (.fin 1) (pyMax (.fin 0) probability)
  let ordered := values.insertionSort fun x y => !y.lt x
  let position := E.T.mul (.fin (ordered.length - 1)) p
  let lower := min (ratOf position).floor.toNat (ordered.length - 1)
  let upper := min (ratOf position).ceil.toNat (ordered.length - 1)
  if lower = upper then nth ordered lower
  else do
    let low ← nth ordered lower
    let high ← nth ordered upper
    return E.T.add low (E.T.mul (E.T.sub high low) (E.T.sub position (.fin lower)))

/-- The report of the bootstrap. -/
structure Clustered where
  status : String
  rows : ℕ
  clusters : ℕ
  invalidRows : ℕ
  mean : Option Num
  ciLow : Option Num
  ciHigh : Option Num

/-- The mean of a resample of the clusters. -/
def resampleMean (draw : ℕ → ℕ) (clusters : List (String × List Num)) : Num :=
  mean E ((List.range clusters.length).flatMap fun i =>
    ((clusters[draw i % clusters.length]?).map Prod.snd).getD [])

def clusteredRewardDifference (S : Sampling) (rows : List (Dict F)) (clusterField : String)
    (confidence : Num) (resamples seed : ℤ) : Py Clustered := do
  require ((Num.fin 0).lt confidence && confidence.lt (E.T.lit 1)) "confidence must be between 0 and 1"
  require (decide (100 ≤ resamples)) "resamples must be at least 100"
  let (found, invalid) ← clusterRows E clusterField 0 rows [] 0
  let clusters := found.insertionSort fun p q => p.1 ≤ q.1
  let values := clusters.flatMap Prod.snd
  if values.isEmpty then return ⟨"no_valid_rows", 0, 0, invalid, none, none, none⟩
  if clusters.length < 2 then
    return ⟨"insufficient_clusters", values.length, clusters.length, invalid, some (mean E values), none,
      none⟩
  let bootstrap := (List.range resamples.toNat).map fun i => resampleMean E (S.draw seed i) clusters
  let tail := E.T.div (E.T.sub (E.T.lit 1) confidence) (.fin 2)
  return ⟨"ok", values.length, clusters.length, invalid, some (mean E values),
    some (← percentile E bootstrap tail), some (← percentile E bootstrap (E.T.sub (E.T.lit 1) tail))⟩

/-! ### Drift -/

/-- The key of a row, if its features have one. -/
def contextOf (fields : List (Json F)) (row : Dict F) : Py (Option String) :=
  match getKey row "context_features" with
  | .obj features => catchValueError (contextKey E (.obj features) fields)
  | _ => .ok none

/-- The number of times a text occurs in a list, with each text once. -/
def shares (names : List String) : List (String × Num) :=
  names.eraseDups.map fun name => (name, E.T.lit (names.count name / names.length))

/-- The shares of the contexts, the number of rows with one and the number of those without. -/
def contextDistribution (rows : List (Dict F)) (fields : List (Json F)) :
    Py (List (String × Num) × ℕ × ℕ) := do
  let found ← rows.mapM (contextOf E fields)
  let names := found.filterMap id
  return (shares E names, names.length, found.length - names.length)

/-- The share of a context, or zero. -/
def shareOf (d : List (String × Num)) (name : String) : Num := (d.lookup name).getD (.fin 0)

def totalVariationDistance (left right : List (String × Num)) : Num :=
  let names := (left.map Prod.fst ++ right.map Prod.fst).eraseDups
  E.T.mul (E.T.lit (1 / 2))
    (total E (names.map fun name => (E.T.sub (shareOf left name) (shareOf right name)).abs))

/-- The loop over the entries of the baseline distribution. -/
def baselineShares : Dict F → Py (List (String × Num))
  | [] => .ok []
  | (name, v) :: rest => do
    let x ← numberOf E v
    let shares ← baselineShares rest
    return match x with
      | some x => (name, x) :: shares
      | none => shares

/-- The distribution of the contexts when the deployment was created. -/
def baselineDistribution (state : Dict F) : Dict F :=
  match getKey state "baseline_context_distribution" with
  | .obj baseline => (objOf? baseline "distribution").getD []
  | _ => []

/-- The rows of low risk. -/
def lowRisk : List (Dict F) → Py (List (Dict F))
  | [] => .ok []
  | row :: rows => do
    let risk ← E.strOr row "risk" ""
    let rest ← lowRisk rows
    return if E.lower risk = "low" then row :: rest else rest

/-- The last `n` of some rows. -/
def lastRows (n : ℕ) (rows : List (Dict F)) : List (Dict F) := rows.drop (rows.length - n)

/-- How far the contexts of the recent rows are from the baseline. -/
structure Drift where
  samples : ℕ
  invalidContexts : ℕ
  totalVariation : Num
  unknownRate : Num

def driftOf (guardrails manifest state : Dict F) (rows : List (Dict F)) : Py Drift :=
  match getKey manifest "context_fields", getKey manifest "policy" with
  | .arr raw, .obj policy => do
    let fields ← raw.mapM E.str
    let window ← readInt E guardrails "drift_window" 200
    let recent := lastRows (max 1 window).toNat (← lowRisk E rows)
    let (current, samples, invalid) ← contextDistribution E recent (fields.map .str)
    let baseline ← baselineShares E (baselineDistribution state)
    let unknown := current.filter fun p => !(policy.map Prod.fst).contains p.1
    return ⟨samples, invalid, totalVariationDistance E current baseline,
      total E (unknown.map Prod.snd)⟩
  | _, _ => .error (.valueError "deployment manifest is missing context policy")

/-- The blockers of a drift over enough samples. -/
def changedBlockers (guardrails : Dict F) (d : Drift) : Py (List String) := do
  let maxTv ← readFloat E guardrails "max_context_tv_distance" (3 / 10)
  let maxUnknown ← readFloat E guardrails "max_unknown_context_rate" (1 / 5)
  return flag (maxTv.lt d.totalVariation) "context_distribution_drift" ++
    flag (maxUnknown.lt d.unknownRate) "unknown_context_rate_exceeded"

def driftBlockers (guardrails : Dict F) (d : Drift) : Py (List String) := do
  let minimum ← readInt E guardrails "minimum_drift_samples" 50
  let invalid := flag (d.invalidContexts != 0) "invalid_context_features"
  if (d.samples : ℤ) < max 1 minimum then return invalid
  return (← changedBlockers E guardrails d) ++ invalid

/-! ### Blockers -/

/-- A number below another, if there is one. -/
def belowMargin (x : Option Num) (margin : Num) : Bool :=
  match x with
  | some x => x.lt margin.negate
  | none => false

def rewardBlockers (guardrails : Dict F) (outcomes : ℕ) (s : Sequence) (c : Clustered) :
    Py (List String) := do
  let minimum ← readInt E guardrails "minimum_monitor_outcomes" 20
  let margin ← readFloat E guardrails "max_reward_regression" (1 / 20)
  let clusters ← readInt E guardrails "minimum_monitor_clusters" 5
  let upper := s.final.bind fun i => finite? i.upper
  return flag (decide (max 1 minimum ≤ (outcomes : ℤ)) && belowMargin upper (pyMax (.fin 0) margin))
      "reward_regression_confident" ++
    flag (decide (max 2 clusters ≤ (c.clusters : ℤ)) &&
        belowMargin (c.ciHigh.bind finite?) (pyMax (.fin 0) margin))
      "clustered_reward_regression_confident"

/-- The number of verified outcomes of both groups. -/
def monitoredOutcomes (rows : List (Dict F)) : ℕ :=
  ((assigned E "candidate" rows).filterMap (verifiedOutcome E)).length +
    ((assigned E "control" rows).filterMap (verifiedOutcome E)).length

/-- The confidence of the reports. -/
def confidence : Num := E.T.lit (95 / 100)

/-- The rollback blockers of a state with given guardrails and manifest. -/
def statisticalBlockers (S : Sampling) (guardrails manifest state : Dict F) (rows : List (Dict F)) :
    Py (List String) := do
  let m ← monitoring E guardrails rows
  let sequence ← anytimeHoeffdingSequence E S m.scores (confidence E) m.absoluteBound
  let resamples ← readInt E guardrails "cluster_bootstrap_resamples" 2000
  let seed ← readInt E guardrails "cluster_bootstrap_seed" 20260911
  let clustered ← clusteredRewardDifference E S rows "task_fingerprint" (confidence E)
    (max 100 resamples) seed
  let drift ← driftOf E guardrails manifest state rows
  let rewards ← rewardBlockers E guardrails (monitoredOutcomes E rows) sequence clustered
  let drifts ← driftBlockers E guardrails drift
  return rewards ++ drifts ++ flag (!m.violations.isEmpty) "monitoring_input_violation"

/-- **The statistics of live rows**, where the state has guardrails and a manifest. -/
def liveStatistics (S : Sampling) : Statistics F := fun state rows =>
  match getKey state "guardrails", getKey state "policy_manifest" with
  | .obj guardrails, .obj manifest => statisticalBlockers E S guardrails manifest state rows
  | _, _ => .ok []

/-! ### Reading numbers -/

variable {E}

/-- `float(v)` does not overflow. -/
def Readable (v : Json F) : Prop := ∃ x, E.number? v = .ok x

theorem finiteNumber_isOk {v : Json F} (h : Readable (E := E) v) : ∃ x, finiteNumber? E v = .ok x := by
  unfold finiteNumber?
  refine bind_isOk h fun x _ => ?_
  cases x <;> exact ⟨_, rfl⟩

theorem numberOf_isOk {v : Json F} (h : Readable (E := E) v) : ∃ x, numberOf E v = .ok x :=
  bind_isOk (finiteNumber_isOk h) fun _ _ => ⟨_, rfl⟩

theorem numberOf_float {x : F} {q : ℚ} (h : E.T.view x = .fin q) :
    numberOf E (.float x) = .ok (some (.fin q)) := by
  have hf : E.T.finite x = true := (E.T.finite_iff x).mpr ⟨q, h⟩
  simp [numberOf, finiteNumber?, Env.number?, bind, Except.bind, pure, Except.pure, hf, h]

/-- `_number` only gives finite numbers. -/
theorem numberOf_eq_ok {v : Json F} {x : Num} (h : numberOf E v = .ok (some x)) : ∃ q, x = .fin q := by
  unfold numberOf at h
  obtain ⟨o, ho, h⟩ := bind_eq_ok.mp h
  cases o with
  | none => cases h
  | some y =>
    cases h
    unfold finiteNumber? at ho
    obtain ⟨z, -, ho⟩ := bind_eq_ok.mp ho
    cases z with
    | none => cases ho
    | some z =>
      simp only [pure, Except.pure, Except.ok.injEq, Option.ite_none_right_eq_some,
        Option.some.injEq] at ho
      obtain ⟨hf, rfl⟩ := ho
      exact (E.T.finite_iff z).mp hf

theorem readFloat_eq {d : Dict F} {k : String} {x : F} (h : getKey d k = .float x) (default : ℚ) :
    readFloat E d k default = .ok (E.T.view x) := by
  rw [readFloat, lookup_of_getKey h (by simp)]
  rfl

theorem readInt_eq {d : Dict F} {k : String} {n : ℤ} (h : getKey d k = .int n) (default : ℤ) :
    readInt E d k default = .ok n := by
  rw [readInt, lookup_of_getKey h (by simp)]
  rfl

theorem divide_eq {y : ℚ} (h : y ≠ 0) (x : Num) : divide E x (.fin y) = .ok (E.T.div x (.fin y)) := by
  rw [divide, Num.eq_fin, if_neg (by simpa using h)]

/-! ### Scores -/

variable (E) in
/-- A probability that some live stage may have: from a hundredth to a quarter. -/
def StageProbability (p : ℚ) : Prop :=
  (E.T.lit (1 / 100)).le (.fin p) = true ∧ (Num.fin p).le (E.T.lit (1 / 4)) = true

variable (E) in
/-- The greatest weight: that of a hundredth. -/
def maxWeight : Num := E.T.div (E.T.lit 1) (E.T.lit (1 / 100))

variable (E) in
/-- The weight of a row of one of the groups. -/
def weightOf (candidate : Bool) (p : ℚ) : Num :=
  E.T.div (E.T.lit 1) (if candidate then .fin p else E.T.sub (E.T.lit 1) (.fin p))

section Precise
variable (hT : Precise E.T)
include hT

section Probability
variable {p : ℚ} (hp : StageProbability E p)
include hp

theorem unit_of_stage : (Num.fin 0).lt (.fin p) = true ∧ (Num.fin p).lt (E.T.lit 1) = true := by
  have h1 := pos_of_hundredth hT hp.1
  have h2 := hp.2
  rw [hT.quarter, Num.le_fin, decide_eq_true_eq] at h2
  rw [hT.one, Num.lt_fin, Num.lt_fin, decide_eq_true_eq, decide_eq_true_eq]
  exact ⟨h1, by linarith⟩

/-- **The weights of both groups are at most the greatest weight.** -/
theorem weightOf_le (candidate : Bool) : (Num.fin 0).le (weightOf E candidate p) = true ∧
    (weightOf E candidate p).le (maxWeight E) = true := by
  unfold weightOf maxWeight
  cases candidate
  · obtain ⟨r, hr, hle⟩ := rest_le hT hp.1 hp.2
    rw [if_neg (by simp), hr]
    exact weight_le hT hle
  · rw [if_pos rfl]
    exact weight_le hT hp.1

/-- The divisor of a group is not zero. -/
theorem divisor_ne (candidate : Bool) : ∃ y ≠ (0 : ℚ),
    (if candidate then Num.fin p else E.T.sub (E.T.lit 1) (.fin p)) = .fin y := by
  cases candidate
  · obtain ⟨r, hr, hle⟩ := rest_le hT hp.1 hp.2
    exact ⟨r, (pos_of_hundredth hT hle).ne', by rw [if_neg (by simp), hr]⟩
  · exact ⟨p, (pos_of_hundredth hT hp.1).ne', by rw [if_pos rfl]⟩

theorem weighted_eq (r : Range) (candidate : Bool) (reward : Num) :
    weighted E r candidate (.fin p) reward = .ok (
      if r.maxImportanceWeight.lt (weightOf E candidate p) then .violation .importanceWeight
      else .score (E.T.mul (if candidate then weightOf E candidate p
        else (weightOf E candidate p).negate) reward)) := by
  obtain ⟨y, hy, he⟩ := divisor_ne hT hp candidate
  unfold weighted weightOf
  rw [he, divide_eq hy]
  rfl

end Probability

/-- The probability in a deployment section is that of a live stage. -/
def HasStageProbability (deployment : Dict F) : Prop :=
  ∃ x p, getKey deployment "candidate_probability" = .float x ∧ E.T.view x = .fin p ∧
    StageProbability E p

omit hT in
theorem numberOf_probability {deployment : Dict F} (h : HasStageProbability (E := E) deployment) :
    ∃ p, numberOf E (getKey deployment "candidate_probability") = .ok (some (.fin p)) ∧
      StageProbability E p := by
  obtain ⟨x, p, hx, hv, hp⟩ := h
  exact ⟨p, by rw [hx, numberOf_float hv], hp⟩

theorem scoreOutcome_isOk {r : Range} {candidate : Bool} {deployment outcome : Dict F}
    (hp : HasStageProbability (E := E) deployment) (hr : Readable (E := E) (getKey outcome "reward")) :
    ∃ s, scoreOutcome E r candidate deployment outcome = .ok s := by
  obtain ⟨p, hn, hs⟩ := numberOf_probability hp
  obtain ⟨h0, h1⟩ := unit_of_stage hT hs
  unfold scoreOutcome
  rw [hn]
  simp only [bind, Except.bind, h0, h1, Bool.and_true, Bool.not_true, Bool.false_eq_true, if_false]
  obtain ⟨reward, hreward⟩ := numberOf_isOk hr
  rw [hreward]
  cases reward with
  | none => exact ⟨_, rfl⟩
  | some y =>
    dsimp only
    split_ifs
    · exact ⟨_, rfl⟩
    · exact ⟨_, weighted_eq hT hs r candidate y⟩

/-- A score comes from a reward within the range and an admitted weight. -/
theorem scoreOutcome_eq_ok {r : Range} {candidate : Bool} {deployment outcome : Dict F}
    (hp : HasStageProbability (E := E) deployment) {x : Num}
    (h : scoreOutcome E r candidate deployment outcome = .ok (.score x)) :
    ∃ p q, StageProbability E p ∧ (Num.fin q).lt r.rewardMin = false ∧
      r.rewardMax.lt (.fin q) = false ∧ r.maxImportanceWeight.lt (weightOf E candidate p) = false ∧
      x = E.T.mul (if candidate then weightOf E candidate p else (weightOf E candidate p).negate)
        (.fin q) := by
  obtain ⟨p, hn, hs⟩ := numberOf_probability hp
  obtain ⟨h0, h1⟩ := unit_of_stage hT hs
  unfold scoreOutcome at h
  rw [hn] at h
  simp only [bind, Except.bind, h0, h1, Bool.and_true, Bool.not_true, Bool.false_eq_true, if_false] at h
  cases hreward : numberOf E (getKey outcome "reward") with
  | error e =>
    rw [hreward] at h
    cases h
  | ok reward =>
    rw [hreward] at h
    cases reward with
    | none => cases h
    | some y =>
      obtain ⟨q, rfl⟩ := numberOf_eq_ok hreward
      dsimp only at h
      split_ifs at h with hrange
      · cases h
      · rw [Bool.or_eq_true, not_or, Bool.not_eq_true, Bool.not_eq_true] at hrange
        rw [weighted_eq hT hs, Except.ok.injEq] at h
        by_cases hw : r.maxImportanceWeight.lt (weightOf E candidate p) = true
        · rw [if_pos hw] at h
          cases h
        · rw [if_neg hw] at h
          exact ⟨p, q, hs, hrange.1, hrange.2, by simpa using hw, (Scored.score.inj h).symm⟩

end Precise

/-! ### The bound on the scores -/

variable (E) in
/-- The bounds admit a sequential bound: their product is a number, or the weight is a NaN, which
refuses no weight, and even the greatest weight gives next to nothing. -/
def Bounded (weight : Num) (reward : ℚ) : Prop :=
  (∃ q, E.T.mul weight (.fin reward) = .fin q) ∨
    weight = .nan ∧ (E.T.mul (maxWeight E) (.fin reward)).le (E.T.lit (1 / 10 ^ 12)) = true

section Bound
variable (hT : Precise E.T) {w : Num} {lo hi : ℚ}
include hT

theorem absoluteBound_eq (w : Num) (lo hi : ℚ) : ∃ t, E.T.lit (1 / 10 ^ 12) = .fin t ∧ 0 < t ∧
    absoluteBound E ⟨.fin lo, .fin hi, w⟩ = pyMax (.fin t) (E.T.mul w (.fin (max |lo| |hi|))) := by
  obtain ⟨t, ht, hpos⟩ := hT.tiny
  refine ⟨t, ht, hpos, ?_⟩
  unfold absoluteBound
  rw [ht]
  simp only [Num.abs, pyMax_fin]

/-- **The bound can be computed with if the product is a number**, or the weight is a NaN. -/
theorem bound_of_finite (h : (∃ q, E.T.mul w (.fin (max |lo| |hi|)) = .fin q) ∨ w = .nan) :
    ∃ b, absoluteBound E ⟨.fin lo, .fin hi, w⟩ = .fin b ∧ 0 < b := by
  obtain ⟨t, -, hpos, he⟩ := absoluteBound_eq hT w lo hi
  rcases h with ⟨q, hq⟩ | rfl
  · rw [he, hq, pyMax_fin]
    exact ⟨_, rfl, lt_max_of_lt_left hpos⟩
  · exact ⟨t, by rw [he, mul_nan]; rfl, hpos⟩

omit hT in
/-- An admitted weight is a NaN or not negative. -/
theorem nonneg_of_admitted (hw : w.lt (E.T.lit 100) = false) :
    w = .nan ∨ (Num.fin 0).le w = true := by
  have h100 := lit_nonneg (T := E.T) (q := 100) (by norm_num)
  cases w with
  | nan => exact Or.inl rfl
  | inf neg =>
    cases neg
    · exact Or.inr rfl
    · cases hl : E.T.lit 100 with
      | nan => simp [hl, Num.le, Num.lt, Num.eq] at h100
      | inf neg => cases neg <;> simp [hl, Num.le, Num.lt, Num.eq] at hw h100
      | fin c => simp [hl, Num.lt] at hw
  | fin v =>
    right
    cases hl : E.T.lit 100 with
    | nan => simp [hl, Num.le, Num.lt, Num.eq] at h100
    | inf neg => cases neg <;> simp [hl, Num.le, Num.lt, Num.eq] at hw h100
    | fin c =>
      rw [hl, Num.le_fin, decide_eq_true_eq] at h100
      rw [hl, Num.lt_fin, decide_eq_false_iff_not, not_lt] at hw
      rw [Num.le_fin, decide_eq_true_eq]
      exact h100.trans hw

omit hT in
theorem fin_or_inf {x : Num} (h : (Num.fin 0).le x = true) : (∃ q, x = .fin q) ∨ x = .inf false := by
  cases x with
  | nan => simp [Num.le, Num.lt, Num.eq] at h
  | inf neg => cases neg <;> simp_all [Num.le, Num.lt, Num.eq]
  | fin q => exact Or.inl ⟨q, rfl⟩

omit hT in
theorem mul_nonneg' {x : Num} {m : ℚ} (h : (Num.fin 0).le x = true) (hm : 0 < m) :
    (Num.fin 0).le (E.T.mul x (.fin m)) = true := by
  rcases fin_or_inf h with ⟨q, rfl⟩ | rfl
  · rw [Num.le_fin, decide_eq_true_eq] at h
    exact lit_nonneg (mul_nonneg h hm.le)
  · rw [mul_inf hm]
    rfl

/-- **Only then.** -/
theorem finite_of_bound (hpos : 0 < max |lo| |hi|) (hw : w.lt (E.T.lit 100) = false)
    (h : ∃ b, absoluteBound E ⟨.fin lo, .fin hi, w⟩ = .fin b) :
    (∃ q, E.T.mul w (.fin (max |lo| |hi|)) = .fin q) ∨ w = .nan := by
  obtain ⟨t, -, ht, he⟩ := absoluteBound_eq hT w lo hi
  obtain ⟨b, hb⟩ := h
  rcases nonneg_of_admitted hw with rfl | h0
  · exact Or.inr rfl
  · rcases fin_or_inf (mul_nonneg' h0 hpos) with hq | hinf
    · exact Or.inl hq
    · rw [he, hinf] at hb
      simp [pyMax, Num.lt] at hb

omit hT in
theorem le_of_not_lt {x : Num} (hx : (Num.fin 0).le x = true) (hw : (Num.fin 0).le w = true)
    (h : w.lt x = false) : x.le w = true := by
  rcases fin_or_inf hx with ⟨p, rfl⟩ | rfl <;> rcases fin_or_inf hw with ⟨q, rfl⟩ | rfl
  · simpa using h
  · rfl
  · simp [Num.lt] at h
  · rfl

omit hT in
theorem maxReward_pos (hlo : lo < hi) : 0 < max |lo| |hi| := by
  rcases eq_or_ne hi 0 with rfl | hne
  · exact lt_max_of_lt_left (abs_pos.mpr hlo.ne)
  · exact lt_max_of_lt_right (abs_pos.mpr hne)

/-- **Every score is at most the bound**, where the bounds admit one. -/
theorem score_le (hlo : lo < hi) (hw : w.lt (E.T.lit 100) = false)
    (hb : Bounded E w (max |lo| |hi|)) {candidate : Bool} {deployment outcome : Dict F}
    (hp : HasStageProbability (E := E) deployment) {x : Num}
    (h : scoreOutcome E ⟨.fin lo, .fin hi, w⟩ candidate deployment outcome = .ok (.score x)) :
    x.abs.le (absoluteBound E ⟨.fin lo, .fin hi, w⟩) = true := by
  obtain ⟨p, q, hs, h1, h2, h3, rfl⟩ := scoreOutcome_eq_ok hT hp h
  obtain ⟨t, htiny, ht, he⟩ := absoluteBound_eq hT w lo hi
  obtain ⟨h0, hmax⟩ := weightOf_le hT hs candidate
  rw [Num.lt_fin, decide_eq_false_iff_not, not_lt] at h1 h2
  have hq : |q| ≤ max |lo| |hi| := abs_le_max_abs_abs h1 h2
  have hpos := maxReward_pos hlo
  have hbound : ∃ u b, (weightOf E candidate p).le u = true ∧
      absoluteBound E ⟨.fin lo, .fin hi, w⟩ = .fin b ∧
      (E.T.mul u (.fin (max |lo| |hi|))).le (.fin b) = true := by
    rcases hb with ⟨m, hm⟩ | ⟨rfl, hsmall⟩
    · rcases nonneg_of_admitted hw with rfl | hw0
      · rw [mul_nan] at hm
        cases hm
      · refine ⟨w, max t m, le_of_not_lt h0 hw0 h3, by rw [he, hm, pyMax_fin], ?_⟩
        rw [hm]
        simp
    · rw [htiny] at hsmall
      exact ⟨maxWeight E, t, hmax, by rw [he, mul_nan]; rfl, hsmall⟩
  obtain ⟨u, b, hu, hbe, hub⟩ := hbound
  rw [hbe]
  obtain ⟨g1, g2⟩ := abs_mul_le hT h0 hu hq hpos hub
  cases candidate
  · exact g2
  · exact g1

end Bound

/-! ### Rows that can be scored -/

variable (E) in
/-- A row of a live stage as requests and verifiers log it. -/
structure Scorable (row : Dict F) : Prop where
  printed : printable E.T.toFloatText true (.obj row) = true
  probability : ∀ deployment text candidate, objOf? row "deployment" = some deployment →
    E.strOr deployment "assignment" "" = .ok text → group? text = some candidate →
      HasStageProbability (E := E) deployment
  reward : ∀ outcome, objOf? row "outcome" = some outcome → Readable (E := E) (getKey outcome "reward")
  cost : ∀ outcome, objOf? row "outcome" = some outcome →
    Readable (E := E) (getKey outcome "realized_cost")

theorem getKey_of_objOf {d e : Dict F} {k : String} (h : objOf? d k = some e) : getKey d k = .obj e := by
  unfold objOf? at h
  split at h
  · next e' he =>
    cases h
    exact he
  · cases h

theorem outcome_of_verified {row outcome : Dict F} (h : verifiedOutcome E row = some outcome) :
    objOf? row "outcome" = some outcome := by
  unfold verifiedOutcome at h
  cases ho : objOf? row "outcome" with
  | none =>
    rw [ho] at h
    cases h
  | some o =>
    rw [ho] at h
    simp only [Option.ite_none_right_eq_some] at h
    exact h.2

section Rows
variable (hT : Precise E.T)
include hT

omit hT in
/-- The assignment of a deployment section has a text. -/
theorem assignment_isOk {row deployment : Dict F} (h : Scorable E row)
    (hd : objOf? row "deployment" = some deployment) :
    ∃ text, E.strOr deployment "assignment" "" = .ok text :=
  strOr_ok (getKey_of_objOf hd ▸ printable_getKey h.printed "deployment") _ _

theorem scoreRow_isOk (r : Range) {row : Dict F} (h : Scorable E row) :
    ∃ s, scoreRow E r row = .ok s := by
  unfold scoreRow
  split
  · next deployment outcome hd ho =>
    refine bind_isOk (assignment_isOk h hd) fun text htext => ?_
    split
    · next candidate hc =>
      exact scoreOutcome_isOk hT (h.probability deployment text candidate hd htext hc)
        (h.reward outcome (outcome_of_verified ho))
    · exact ⟨_, rfl⟩
  · exact ⟨_, rfl⟩

theorem sequentialScores_isOk (r : Range) {rows : List (Dict F)} (h : ∀ row ∈ rows, Scorable E row) :
    ∃ s, sequentialScores E r rows = .ok s :=
  bind_isOk (mapM_isOk fun row hrow => scoreRow_isOk hT r (h row hrow)) fun _ _ => ⟨_, rfl⟩

/-- **Every score that is fed to the sequential bound is at most the bound.** -/
theorem sequentialScores_le {w : Num} {lo hi : ℚ} (hlo : lo < hi) (hw : w.lt (E.T.lit 100) = false)
    (hb : Bounded E w (max |lo| |hi|)) {rows : List (Dict F)} (h : ∀ row ∈ rows, Scorable E row)
    {scores : List Num} {violations : List Violation}
    (hs : sequentialScores E ⟨.fin lo, .fin hi, w⟩ rows = .ok (scores, violations)) :
    ∀ x ∈ scores, x.abs.le (absoluteBound E ⟨.fin lo, .fin hi, w⟩) = true := by
  unfold sequentialScores at hs
  obtain ⟨scored, hscored, hs⟩ := bind_eq_ok.mp hs
  cases hs
  intro x hx
  obtain ⟨s, hs, hx⟩ := List.mem_filterMap.mp hx
  obtain ⟨row, hrow, hrs⟩ := mem_mapM hscored s hs
  cases s with
  | skipped => cases hx
  | violation v => cases hx
  | score y =>
    cases hx
    unfold scoreRow at hrs
    split at hrs
    · next deployment outcome hd ho =>
      obtain ⟨text, htext, hrs⟩ := bind_eq_ok.mp hrs
      split at hrs
      · next candidate hc =>
        exact score_le hT hlo hw hb ((h row hrow).probability deployment text candidate hd htext hc) hrs
      · cases hrs
    · cases hrs

theorem rewardScore_isOk {candidate : Bool} {deployment outcome : Dict F}
    (hp : HasStageProbability (E := E) deployment) (hr : Readable (E := E) (getKey outcome "reward")) :
    ∃ s, rewardScore E candidate deployment outcome = .ok s := by
  obtain ⟨p, hn, hs⟩ := numberOf_probability hp
  obtain ⟨h0, h1⟩ := unit_of_stage hT hs
  obtain ⟨y, hy, he⟩ := divisor_ne hT hs candidate
  unfold rewardScore
  refine bind_isOk ⟨_, hn⟩ fun q hq => bind_isOk (numberOf_isOk hr) fun reward _ => ?_
  cases hn.symm.trans hq
  cases reward with
  | none => exact ⟨_, rfl⟩
  | some reward =>
    dsimp only
    rw [if_neg (by simp [h0, h1]), he, divide_eq hy]
    exact ⟨_, rfl⟩

theorem rowScore_isOk {row : Dict F} (h : Scorable E row) : ∃ s, rowScore E row = .ok s := by
  unfold rowScore
  split
  · next deployment outcome hd ho =>
    refine bind_isOk (assignment_isOk h hd) fun text htext => ?_
    split
    · next candidate hc =>
      exact rewardScore_isOk hT (h.probability deployment text candidate hd htext hc)
        (h.reward outcome (outcome_of_verified ho))
    · exact ⟨_, rfl⟩
  · exact ⟨_, rfl⟩

omit hT in
theorem clusterOf_isOk {row : Dict F} (h : Scorable E row) (clusterField : String) (index : ℕ) :
    ∃ name, clusterOf E clusterField index row = .ok name := by
  have hp := printable_getKey h.printed clusterField
  unfold clusterOf
  refine bind_isOk ?_ fun _ _ => ⟨_, rfl⟩
  unfold clusterText
  split
  · exact ⟨_, rfl⟩
  · exact ⟨_, (pyStr_eq_ok E.T).mpr ⟨hp, rfl⟩⟩

theorem clusterRows_isOk (clusterField : String) : ∀ {rows : List (Dict F)} {index : ℕ}
    {clusters : List (String × List Num)} {invalid : ℕ}, (∀ row ∈ rows, Scorable E row) →
    ∃ r, clusterRows E clusterField index rows clusters invalid = .ok r
  | [], _, _, _, _ => ⟨_, rfl⟩
  | row :: rows, index, clusters, invalid, h => by
    rw [List.forall_mem_cons] at h
    rw [clusterRows]
    refine bind_isOk (rowScore_isOk hT h.1) fun s _ => ?_
    cases s with
    | none => exact clusterRows_isOk clusterField h.2
    | some x => exact bind_isOk (clusterOf_isOk h.1 _ _) fun _ _ => clusterRows_isOk clusterField h.2

omit hT in
theorem nth_isOk {values : List Num} {i : ℕ} (h : i < values.length) : ∃ x, nth values i = .ok x := by
  unfold nth
  rw [List.getElem?_eq_getElem h]
  exact ⟨_, rfl⟩

omit hT in
theorem percentile_isOk {values : List Num} (h : values ≠ []) (probability : Num) :
    ∃ x, percentile E values probability = .ok x := by
  have hlen : ∀ i : ℕ, min i ((values.insertionSort fun x y => !y.lt x).length - 1) <
      (values.insertionSort fun x y => !y.lt x).length := by
    intro i
    have hpos := List.length_pos_of_ne_nil h
    rw [List.length_insertionSort]
    omega
  unfold percentile
  refine bind_isOk ⟨⟨⟩, by simpa using h⟩ fun _ _ => ?_
  dsimp only
  split_ifs
  · exact nth_isOk (hlen _)
  · exact bind_isOk (nth_isOk (hlen _)) fun _ _ => bind_isOk (nth_isOk (hlen _)) fun _ _ => ⟨_, rfl⟩

/-- The confidence of the reports is one. -/
theorem confidence_ok :
    ((Num.fin 0).lt (confidence E) && (confidence E).lt (E.T.lit 1)) = true := by
  obtain ⟨q, hq, hpos, -⟩ := lit_unit hT (q := 95 / 100) (by norm_num) (by norm_num)
  have hb := hT.below
  unfold confidence
  rw [Bool.and_eq_true, hT.one]
  refine ⟨?_, hb⟩
  rw [hq, Num.lt_fin]
  exact decide_eq_true hpos

theorem clusteredRewardDifference_isOk (S : Sampling) {rows : List (Dict F)}
    (h : ∀ row ∈ rows, Scorable E row) {resamples : ℤ} (hr : 100 ≤ resamples) (clusterField : String)
    (seed : ℤ) : ∃ c, clusteredRewardDifference E S rows clusterField (confidence E) resamples seed =
      .ok c := by
  unfold clusteredRewardDifference
  refine bind_isOk ⟨⟨⟩, require_eq_ok.mpr (confidence_ok hT)⟩ fun _ _ =>
    bind_isOk ⟨⟨⟩, require_eq_ok.mpr (decide_eq_true hr)⟩ fun _ _ =>
      bind_isOk (clusterRows_isOk hT clusterField h) fun found _ => ?_
  dsimp only
  split_ifs
  · exact ⟨_, rfl⟩
  · exact ⟨_, rfl⟩
  · have hne : ∀ f : ℕ → Num, (List.range resamples.toNat).map f ≠ [] := by
      intro f hnil
      have hlen := congrArg List.length hnil
      simp only [List.length_map, List.length_range, List.length_nil] at hlen
      omega
    exact bind_isOk (percentile_isOk (hne _) _) fun _ _ =>
      bind_isOk (percentile_isOk (hne _) _) fun _ _ => ⟨_, rfl⟩

end Rows

/-! ### Context keys raise nothing but value errors -/

/-- Raises nothing but value errors. -/
def OnlyValue {α : Type} (x : Py α) : Prop := ∀ e, x = .error e → ∃ msg, e = .valueError msg

theorem onlyValue_ok {α : Type} (a : α) : OnlyValue (.ok a) := by
  intro e he
  cases he

theorem onlyValue_error {α : Type} (msg : String) : OnlyValue (.error (.valueError msg) : Py α) := by
  intro e he
  cases he
  exact ⟨msg, rfl⟩

theorem onlyValue_bind {α β : Type} {x : Py α} {f : α → Py β} (hx : OnlyValue x)
    (hf : ∀ a, OnlyValue (f a)) : OnlyValue (x >>= f) := by
  intro e he
  cases x with
  | error e' => exact hx e (by simpa [bind, Except.bind] using he)
  | ok a => exact hf a e he

theorem onlyValue_require (c : Bool) (msg : String) : OnlyValue (require c msg) := by
  cases c
  · exact onlyValue_error msg
  · exact onlyValue_ok _

theorem onlyValue_str (v : Json F) : OnlyValue (E.str v) :=
  onlyValue_bind (onlyValue_require _ _) fun _ => onlyValue_ok _

theorem onlyValue_mapM {α β : Type} {f : α → Py β} (h : ∀ a, OnlyValue (f a)) :
    ∀ xs : List α, OnlyValue (xs.mapM f)
  | [] => by
    rw [List.mapM_nil]
    exact onlyValue_ok _
  | x :: xs => by
    rw [List.mapM_cons]
    exact onlyValue_bind (h x) fun _ => onlyValue_bind (onlyValue_mapM h xs) fun _ => onlyValue_ok _

theorem onlyValue_jsonDumps (L : Layout) (v : Json F) : OnlyValue (jsonDumps E.T L v) := by
  unfold jsonDumps
  split
  · exact onlyValue_ok _
  · exact onlyValue_error _

theorem onlyValue_normalize (d : Dict F) : ∀ fields, OnlyValue (normalizeFields E d fields)
  | [] => onlyValue_ok _
  | field :: fields => by
    rw [normalizeFields]
    split
    · exact onlyValue_ok _
    · refine onlyValue_bind (onlyValue_str _) fun text => ?_
      dsimp only
      split_ifs
      · exact onlyValue_ok _
      · exact onlyValue_bind (onlyValue_normalize d fields) fun _ => onlyValue_ok _

theorem onlyValue_contextKey (features : Json F) (fields : List (Json F)) :
    OnlyValue (contextKey E features fields) := by
  unfold contextKey validateContextFields
  refine onlyValue_bind (onlyValue_bind (onlyValue_mapM onlyValue_str _) fun _ =>
    onlyValue_bind (onlyValue_require _ _) fun _ => onlyValue_bind (onlyValue_require _ _) fun _ =>
      onlyValue_ok _) fun selected => onlyValue_bind ?_ fun normalized => ?_
  · unfold normalizeContextFeatures
    split
    · exact onlyValue_normalize _ _
    · exact onlyValue_ok _
  · cases normalized with
    | none => exact onlyValue_error _
    | some n => exact onlyValue_jsonDumps _ _

theorem catch_isOk {α : Type} {x : Py α} (h : OnlyValue x) : ∃ o, catchValueError x = .ok o := by
  cases x with
  | ok a => exact ⟨some a, rfl⟩
  | error e =>
    obtain ⟨msg, rfl⟩ := h e rfl
    exact ⟨none, rfl⟩

/-! ### Drift -/

theorem contextDistribution_isOk (rows : List (Dict F)) (fields : List (Json F)) :
    ∃ d, contextDistribution E rows fields = .ok d := by
  refine bind_isOk (mapM_isOk fun row _ => ?_) fun _ _ => ⟨_, rfl⟩
  unfold contextOf
  split
  · exact catch_isOk (onlyValue_contextKey _ _)
  · exact ⟨_, rfl⟩

theorem lowRisk_isOk : ∀ {rows : List (Dict F)}, (∀ row ∈ rows, Scorable E row) →
    ∃ low, lowRisk E rows = .ok low
  | [], _ => ⟨[], rfl⟩
  | row :: rows, h => by
    rw [List.forall_mem_cons] at h
    rw [lowRisk]
    exact bind_isOk (strOr_ok h.1.printed _ _) fun _ _ => bind_isOk (lowRisk_isOk h.2) fun _ _ => ⟨_, rfl⟩

theorem baselineShares_isOk : ∀ {d : Dict F}, (∀ p ∈ d, Readable (E := E) p.2) →
    ∃ shares, baselineShares E d = .ok shares
  | [], _ => ⟨[], rfl⟩
  | (name, v) :: d, h => by
    rw [List.forall_mem_cons] at h
    rw [baselineShares]
    exact bind_isOk (numberOf_isOk h.1) fun _ _ => bind_isOk (baselineShares_isOk h.2) fun _ _ => ⟨_, rfl⟩

end ControlPlane.Deployment.Statistics
