import ControlPlane.Benchmark.Statistics
import ControlPlane.Lib.Averages

/-! # Off-policy estimates

What logged rows say about an arm that was not always chosen. A row matches the arm if it chose what the arm's policy
would have done there (`safeTargetAction`); its outcome counts by the inverse of the probability of the choice.

With exact numbers, what the loops collect from verified rows is a list of weights and outcomes
(`terms_of_gives`), and the self-normalised estimates are averages of these (`estimates_within`). The bootstrap
of the difference to the baseline gives no interval that is turned around (`percentile_orderStatistic`). -/

namespace ControlPlane.Policy.Estimates

open ControlPlane.Lib.Value ControlPlane.Lib.Floats ControlPlane.Lib.Dynamic ControlPlane.Lib.Rounding
open ControlPlane.Lib.Weights ControlPlane.Lib.Averages ControlPlane.Lib.OrderStatistics ControlPlane.Lib.Decimals
open ControlPlane.Environment ControlPlane.Instance ControlPlane.Learning.Decision ControlPlane.Deployment.Guardrails
open ControlPlane.Deployment.Statistics ControlPlane.Benchmark.Statistics ControlPlane.Policy.Scores

variable {F : Type} (E : Env F)

/-! ### Verified rows -/

/-- The probability with which the chosen arm was chosen is a positive number. -/
def choicePositive (row : Dict F) : Py Bool :=
  match objOf? row "arm_propensities" with
  | none => .ok false
  | some propensities => do
    let chosen ← E.strOr row "chosen_arm" ""
    match ← numberOf E (getKey propensities chosen) with
    | none => return false
    | some probability => return (Num.fin 0).lt probability

/-- The test of the loop of `_verified_rows`. -/
def isVerified (row : Dict F) : Py Bool :=
  match verifiedOutcome E row with
  | none => .ok false
  | some outcome => do
    match ← numberOf E (getKey outcome "reward"), ← numberOf E (getKey outcome "realized_cost") with
    | some _, some cost => if cost.lt (.fin 0) then return false else choicePositive E row
    | _, _ => return false

def verifiedRows (rows : List (Dict F)) : Py (List (Dict F)) := rows.filterM (isVerified E)

/-! ### The estimate -/

/-- What the policy of the target arm does: the arm, where it had a chance, else the baseline. -/
def safeTargetAction (row : Dict F) (targetArm : String) : Py String :=
  match objOf? row "arm_propensities" with
  | none => .ok baselineArm
  | some propensities => do
    match ← numberOf E (getKey propensities targetArm) with
    | none => return baselineArm
    | some probability => return if (Num.fin 0).lt probability then targetArm else baselineArm

/-- `row[key]`, of which an entry is read next. -/
def section? (row : Dict F) (key : String) : Py (Dict F) :=
  match objOf? row key with
  | some d => .ok d
  | none => .error (.typeError ("the row has no object " ++ key))

/-- What a matched row adds to the estimate. -/
structure Matched where
  weight : Num
  reward : Num
  cost : Num
  /-- Whether the target arm itself was chosen. -/
  direct : Bool

/-- The step of the loop of `_estimate`. -/
def matchedRow (targetArm : String) (row : Dict F) : Py (Option Matched) := do
  let chosen ← E.strOr row "chosen_arm" ""
  let targetAction ← safeTargetAction E row targetArm
  if chosen ≠ targetAction then return none
  let propensities ← section? row "arm_propensities"
  let probability ← numberOf E (getKey propensities chosen)
  let outcome ← section? row "outcome"
  match probability, ← numberOf E (getKey outcome "reward"), ← numberOf E (getKey outcome "realized_cost") with
  | some probability, some reward, some cost =>
    if probability.le (.fin 0) then return none
    let weight ← divide E (E.T.lit 1) probability
    return some ⟨weight, reward, cost, chosen == targetArm && targetArm != baselineArm⟩
  | _, _, _ => return none

/-- The report of `_estimate`. -/
structure Estimate where
  targetArm : String
  loggedEvents : ℕ
  matchedEvents : ℕ
  directTargetExposures : ℕ
  coverage : Num
  ipsReward : Option Num
  snipsReward : Option Num
  ipsCost : Option Num
  snipsCost : Option Num
  effectiveSampleSize : Num
  maxImportanceWeight : Option Num
  maxDirectRealizedCost : Option Num

/-- The inverse-propensity mean, over all rows. -/
def ips (n : ℕ) (weighted : List Num) : Option Num :=
  if n = 0 then none else some (E.T.div (total E weighted) (.fin n))

/-- The self-normalised mean, over the weights. -/
def snips (weights weighted : List Num) : Option Num :=
  if (Num.fin 0).lt (total E weights) then some (E.T.div (total E weighted) (total E weights)) else none

def effectiveSampleSize (weights : List Num) : Num :=
  let squares := total E (weights.map fun w => E.T.mul w w)
  if (Num.fin 0).lt squares then E.T.div (E.T.mul (total E weights) (total E weights)) squares else .fin 0

/-- The estimate from the matched rows, before the last rounding. -/
def summary (targetArm : String) (n : ℕ) (matched : List Matched) : Estimate :=
  let weights := matched.map Matched.weight
  let weightedRewards := matched.map fun m => E.T.mul m.weight m.reward
  let weightedCosts := matched.map fun m => E.T.mul m.weight m.cost
  let direct := matched.filter Matched.direct
  { targetArm, loggedEvents := n, matchedEvents := matched.length, directTargetExposures := direct.length
    coverage := if n = 0 then .fin 0 else E.T.lit (matched.length / n)
    ipsReward := ips E n weightedRewards
    snipsReward := snips E weights weightedRewards
    ipsCost := ips E n weightedCosts
    snipsCost := snips E weights weightedCosts
    effectiveSampleSize := effectiveSampleSize E weights
    maxImportanceWeight := maxOf? weights
    maxDirectRealizedCost := maxOf? (direct.map Matched.cost) }

/-- `_estimate(rows, target_arm)` before the last rounding. -/
def rawEstimate (rows : List (Dict F)) (targetArm : String) : Py Estimate := do
  let matched ← rows.mapM (matchedRow E targetArm)
  return summary E targetArm rows.length (matched.filterMap id)

def estimate (rows : List (Dict F)) (targetArm : String) : Py Estimate := do
  let e ← rawEstimate E rows targetArm
  return { e with
    coverage := round6 E e.coverage, ipsReward := e.ipsReward.map (round6 E)
    snipsReward := e.snipsReward.map (round6 E), ipsCost := e.ipsCost.map (round6 E)
    snipsCost := e.snipsCost.map (round6 E), effectiveSampleSize := round6 E e.effectiveSampleSize
    maxImportanceWeight := e.maxImportanceWeight.map (round6 E)
    maxDirectRealizedCost := e.maxDirectRealizedCost.map (round6 E) }

/-! ### The bootstrap -/

/-- The step of the loop of `_snips_value`: a weight and a value. -/
def snipsTerm (targetArm field : String) (row : Dict F) : Py (Option (Num × Num)) := do
  let chosen ← E.strOr row "chosen_arm" ""
  let targetAction ← safeTargetAction E row targetArm
  if chosen ≠ targetAction then return none
  let propensities ← section? row "arm_propensities"
  match ← numberOf E (getKey propensities chosen), ← outcomeValue E row field with
  | some probability, some value =>
    if probability.le (.fin 0) then return none
    return some (← divide E (E.T.lit 1) probability, value)
  | _, _ => return none

def snipsValue (rows : List (Dict F)) (targetArm field : String) : Py (Option Num) := do
  let terms := (← rows.mapM (snipsTerm E targetArm field)).filterMap id
  return snips E (terms.map Prod.fst) (terms.map fun t => E.T.mul t.1 t.2)

/-- The report of `_bootstrap_delta`. -/
structure DeltaInterval where
  meanDelta : Option Num
  ciLow : Option Num
  ciHigh : Option Num
  resamplesUsed : ℕ

/-- The difference between the values of the target arm and of the baseline, if both have one. -/
def snipsDelta (rows : List (Dict F)) (targetArm field : String) : Py (Option Num) := do
  match ← snipsValue E rows targetArm field, ← snipsValue E rows baselineArm field with
  | some candidate, some baseline => return some (E.T.sub candidate baseline)
  | _, _ => return none

/-- `[rows[rng.randrange(n)] for _ in range(n)]`. -/
def resample (draw : ℕ → ℕ) (rows : List (Dict F)) : List (Dict F) :=
  (List.range rows.length).filterMap fun i => rows[draw i % rows.length]?

def bootstrapDelta (draw : ℤ → ℕ → ℕ → ℕ) (rows : List (Dict F)) (targetArm field : String) (confidence : Num)
    (resamples seed : ℤ) : Py DeltaInterval := do
  require ((Num.fin 0).lt confidence && confidence.lt (E.T.lit 1)) "confidence must be between 0 and 1"
  if rows.isEmpty then return ⟨none, none, none, 0⟩
  let drawn ← (List.range (max 1 resamples).toNat).mapM fun i =>
    snipsDelta E (resample (draw seed i) rows) targetArm field
  let deltas := drawn.filterMap id
  let observed ← snipsDelta E rows targetArm field
  if deltas.isEmpty then return ⟨observed.map (round6 E), none, none, 0⟩
  let alpha := E.T.div (E.T.sub (E.T.lit 1) confidence) (.fin 2)
  return ⟨some (round6 E (observed.getD (statisticsMean E deltas))), some (round6 E (← percentile E deltas alpha)),
    some (round6 E (← percentile E deltas (E.T.sub (E.T.lit 1) alpha))), deltas.length⟩

/-! ### Exact sums -/

section Exact
variable {E} (hT : Exact E.T)

theorem total_exact (hT : Exact E.T) (xs : List ℚ) : total E (xs.map Num.fin) = .fin xs.sum := by
  have hfold : ∀ (xs : List ℚ) (q : ℚ), (xs.map Num.fin).foldl E.T.add (.fin q) = .fin (q + xs.sum) := by
    intro xs
    induction xs with
    | nil => intro q; rw [List.map_nil, List.foldl_nil, List.sum_nil, add_zero]
    | cons x xs ih =>
      intro q
      rw [List.map_cons, List.foldl_cons, exact_add hT, ih, List.sum_cons, add_assoc]
  unfold total
  rw [hfold, zero_add]

omit E in
/-- The greatest of some numbers is one of them. -/
theorem maxOf_fin {xs : List ℚ} (hne : xs ≠ []) :
    ∃ m ∈ xs, (∀ y ∈ xs, y ≤ m) ∧ maxOf? (xs.map Num.fin) = some (.fin m) := by
  have hfold : ∀ (xs : List ℚ) (q : ℚ), ∃ m ∈ q :: xs, (∀ y ∈ q :: xs, y ≤ m) ∧
      (xs.map Num.fin).foldl pyMax (.fin q) = .fin m := by
    intro xs
    induction xs with
    | nil => exact fun q => ⟨q, List.mem_singleton_self q, fun y hy => (List.mem_singleton.mp hy).le, rfl⟩
    | cons x xs ih =>
      intro q
      obtain ⟨m, hm, hgreatest, hfold⟩ := ih (max q x)
      have hle : max q x ≤ m := hgreatest _ (List.mem_cons_self ..)
      refine ⟨m, ?_, fun y hy => ?_, ?_⟩
      · rcases List.mem_cons.mp hm with rfl | hm
        · rcases max_choice q x with h | h
          · rw [h]
            exact List.mem_cons_self ..
          · rw [h]
            exact List.mem_cons_of_mem _ (List.mem_cons_self ..)
        · exact List.mem_cons_of_mem _ (List.mem_cons_of_mem _ hm)
      · rcases List.mem_cons.mp hy with rfl | hy
        · exact (le_max_left _ _).trans hle
        · rcases List.mem_cons.mp hy with rfl | hy
          · exact (le_max_right _ _).trans hle
          · exact hgreatest y (List.mem_cons_of_mem _ hy)
      · rw [List.map_cons, List.foldl_cons, pyMax_fin, hfold]
  cases xs with
  | nil => exact absurd rfl hne
  | cons x xs =>
    obtain ⟨m, hm, hgreatest, heq⟩ := hfold xs x
    exact ⟨m, hm, hgreatest, congrArg some heq⟩

omit E in
/-- The greatest number does not depend on the order. -/
theorem maxOf_perm {xs ys : List ℚ} (h : xs.Perm ys) : maxOf? (xs.map Num.fin) = maxOf? (ys.map Num.fin) := by
  by_cases hne : xs = []
  · subst hne
    rw [List.nil_perm.mp h]
  · have hne' : ys ≠ [] := fun hys => hne (List.Perm.eq_nil (hys ▸ h))
    obtain ⟨m, hm, hgreatest, heq⟩ := maxOf_fin hne
    obtain ⟨m', hm', hgreatest', heq'⟩ := maxOf_fin hne'
    rw [heq, heq', le_antisymm (hgreatest' m (h.mem_iff.mp hm)) (hgreatest m' (h.mem_iff.mpr hm'))]

/-! ### What is collected -/

/-- A matched row in numbers. -/
structure Term where
  weight : ℚ
  reward : ℚ
  cost : ℚ
  direct : Bool

/-- The matched row with these numbers. -/
def Term.matched (t : Term) : Matched := ⟨.fin t.weight, .fin t.reward, .fin t.cost, t.direct⟩

/-- A row gives the loop of `_estimate` nothing or a term, with its own outcome and a positive weight. -/
inductive Gives (E : Env F) (targetArm : String) (row : Dict F) : Option Term → Prop where
  | nothing (h : matchedRow E targetArm row = .ok none) : Gives E targetArm row none
  | term (t : Term) (h : matchedRow E targetArm row = .ok (some t.matched)) (hweight : 0 < t.weight)
    (hreward : outcomeValue E row "reward" = .ok (some (.fin t.reward)))
    (hcost : outcomeValue E row "realized_cost" = .ok (some (.fin t.cost))) : Gives E targetArm row (some t)

/-- What a verified row has. -/
theorem reads_of_verified {row : Dict F} (h : isVerified E row = .ok true) :
    ∃ outcome propensities chosen, objOf? row "outcome" = some outcome ∧
      objOf? row "arm_propensities" = some propensities ∧ E.strOr row "chosen_arm" "" = .ok chosen := by
  unfold isVerified at h
  cases houtcome : verifiedOutcome E row with
  | none =>
    rw [houtcome] at h
    cases h
  | some outcome =>
    rw [houtcome] at h
    obtain ⟨reward, -, h⟩ := bind_eq_ok.mp h
    obtain ⟨cost, -, h⟩ := bind_eq_ok.mp h
    have hobj : objOf? row "outcome" = some outcome := by
      unfold verifiedOutcome at houtcome
      split at houtcome
      · split_ifs at houtcome
        cases houtcome
        assumption
      · cases houtcome
    have hchoice : choicePositive E row = .ok true := by
      split at h
      · split_ifs at h
        · cases h
        · exact h
      · cases h
    unfold choicePositive at hchoice
    cases hpropensities : objOf? row "arm_propensities" with
    | none =>
      rw [hpropensities] at hchoice
      cases hchoice
    | some propensities =>
      rw [hpropensities] at hchoice
      obtain ⟨chosen, hchosen, -⟩ := bind_eq_ok.mp hchoice
      exact ⟨outcome, propensities, chosen, hobj, rfl, hchosen⟩

include hT in
theorem safeTargetAction_exact (row : Dict F) (targetArm : String) :
    ∃ action, safeTargetAction E row targetArm = .ok action := by
  unfold safeTargetAction
  cases objOf? row "arm_propensities" with
  | none => exact ⟨_, rfl⟩
  | some propensities =>
    obtain ⟨o, ho⟩ := numberOf_exact hT (getKey propensities targetArm)
    simp only [ho, bind, Except.bind]
    cases o with
    | none => exact ⟨_, rfl⟩
    | some q => exact ⟨_, rfl⟩

include hT in
/-- **Every verified row gives nothing or a term.** -/
theorem gives_of_verified {row : Dict F} (h : isVerified E row = .ok true) (targetArm : String) :
    ∃ o, Gives E targetArm row o := by
  obtain ⟨outcome, propensities, chosen, houtcome, hpropensities, hchosen⟩ := reads_of_verified h
  obtain ⟨action, haction⟩ := safeTargetAction_exact hT row targetArm
  obtain ⟨probability, hprobability⟩ := numberOf_exact hT (getKey propensities chosen)
  obtain ⟨reward, hreward⟩ := numberOf_exact hT (getKey outcome "reward")
  obtain ⟨cost, hcost⟩ := numberOf_exact hT (getKey outcome "realized_cost")
  have hstep : matchedRow E targetArm row =
      if chosen ≠ action then .ok none else
        match probability.map Num.fin, reward.map Num.fin, cost.map Num.fin with
        | some probability, some reward, some cost =>
          if probability.le (.fin 0) then .ok none
          else do
            let weight ← divide E (E.T.lit 1) probability
            return some ⟨weight, reward, cost, chosen == targetArm && targetArm != baselineArm⟩
        | _, _, _ => .ok none := by
    unfold matchedRow section?
    rw [hchosen, haction, hpropensities, houtcome]
    simp only [bind, Except.bind, pure, Except.pure, hprobability, hreward, hcost]
  by_cases hne : chosen = action
  · rw [if_neg (not_not.mpr hne)] at hstep
    cases probability with
    | none => exact ⟨none, .nothing hstep⟩
    | some p =>
      cases reward with
      | none => exact ⟨none, .nothing hstep⟩
      | some r =>
        cases cost with
        | none => exact ⟨none, .nothing hstep⟩
        | some c =>
          simp only [Option.map_some, Num.le_fin] at hstep
          by_cases hpos : p ≤ 0
          · rw [if_pos (decide_eq_true hpos)] at hstep
            exact ⟨none, .nothing hstep⟩
          · have hlt : 0 < p := not_le.mp hpos
            rw [if_neg (by simpa using hpos), hT 1, exact_divide hT _ hlt.ne'] at hstep
            refine ⟨_, .term ⟨1 / p, r, c, _⟩ hstep (by positivity) ?_ ?_⟩
            · rw [outcomeValue, houtcome, numberIn, hreward, Option.map_some]
            · rw [outcomeValue, houtcome, numberIn, hcost, Option.map_some]
  · rw [if_pos hne] at hstep
    exact ⟨none, .nothing hstep⟩

/-! ### The summary of terms -/

section Summary
variable (ts : List Term)

omit E in
theorem weights_matched : (ts.map Term.matched).map Matched.weight = (ts.map Term.weight).map Num.fin := by
  rw [List.map_map, List.map_map]
  rfl

include hT

theorem weightedRewards_matched : ((ts.map Term.matched).map fun m => E.T.mul m.weight m.reward) =
    (ts.map fun t => t.weight * t.reward).map Num.fin := by
  rw [List.map_map, List.map_map]
  exact List.map_congr_left fun t _ => exact_mul hT t.weight t.reward

theorem weightedCosts_matched : ((ts.map Term.matched).map fun m => E.T.mul m.weight m.cost) =
    (ts.map fun t => t.weight * t.cost).map Num.fin := by
  rw [List.map_map, List.map_map]
  exact List.map_congr_left fun t _ => exact_mul hT t.weight t.cost

theorem squares_exact (ws : List ℚ) :
    ((ws.map Num.fin).map fun w => E.T.mul w w) = (ws.map fun w => w * w).map Num.fin := by
  rw [List.map_map, List.map_map]
  exact List.map_congr_left fun w _ => exact_mul hT w w

/-- **The summary does not depend on the order of the terms.** -/
theorem summary_perm {ts ts' : List Term} (h : ts.Perm ts') (targetArm : String) (n : ℕ) :
    summary E targetArm n (ts.map Term.matched) = summary E targetArm n (ts'.map Term.matched) := by
  have hdirect : ∀ ts : List Term, ((ts.map Term.matched).filter Matched.direct).map Matched.cost =
      ((ts.filter Term.direct).map Term.cost).map Num.fin := by
    intro ts
    rw [List.filter_map, List.map_map, List.map_map]
    rfl
  have hexposures : ∀ ts : List Term, ((ts.map Term.matched).filter Matched.direct).length =
      (ts.filter Term.direct).length := by
    intro ts
    rw [List.filter_map, List.length_map]
    rfl
  unfold summary effectiveSampleSize snips ips
  simp only [weights_matched, weightedRewards_matched hT, weightedCosts_matched hT, squares_exact hT,
    total_exact hT, hdirect, hexposures, List.length_map]
  rw [h.length_eq, (h.filter _).length_eq, (h.map Term.weight).sum_eq, (h.map fun t => t.weight * t.reward).sum_eq,
    (h.map fun t => t.weight * t.cost).sum_eq, ((h.map Term.weight).map fun w => w * w).sum_eq,
    maxOf_perm (h.map Term.weight), maxOf_perm ((h.filter Term.direct).map Term.cost)]

variable {ts}

/-- A self-normalised mean is an average. -/
theorem snips_exact (f : Term → ℚ) (hpos : ∀ t ∈ ts, 0 < t.weight) (hne : ts ≠ []) :
    snips E ((ts.map Term.weight).map Num.fin) ((ts.map fun t => t.weight * f t).map Num.fin) =
      some (.fin (average (ts.map fun t => (t.weight, f t)))) ∧
    Between (ts.map f) (average (ts.map fun t => (t.weight, f t))) := by
  have hsum : 0 < (ts.map Term.weight).sum := by
    refine List.sum_pos _ (fun w hw => ?_) fun h => hne (List.map_eq_nil_iff.mp h)
    obtain ⟨t, ht, rfl⟩ := List.mem_map.mp hw
    exact hpos t ht
  have hweights : (ts.map fun t => (t.weight, f t)).map Prod.fst = ts.map Term.weight := by
    rw [List.map_map]
    rfl
  have hvalues : (ts.map fun t => (t.weight, f t)).map Prod.snd = ts.map f := by
    rw [List.map_map]
    rfl
  have hproducts : ((ts.map fun t => (t.weight, f t)).map fun t => t.1 * t.2) = ts.map fun t => t.weight * f t := by
    rw [List.map_map]
    rfl
  constructor
  · unfold snips average
    rw [total_exact hT, total_exact hT, Num.lt_fin, if_pos (decide_eq_true hsum), FloatSys.div, hT, hproducts,
      hweights]
  · rw [← hvalues]
    refine between_average (fun t ht => ?_) (hweights ▸ hsum)
    obtain ⟨t, ht', rfl⟩ := List.mem_map.mp ht
    exact (hpos t ht').le

theorem effective_exact {ws : List ℚ} (hpos : ∀ w ∈ ws, 0 < w) (hne : ws ≠ []) :
    effectiveSampleSize E (ws.map Num.fin) = .fin (effective ws) := by
  unfold effectiveSampleSize effective
  dsimp only
  rw [squares_exact hT, total_exact hT, total_exact hT, Num.lt_fin, if_pos (decide_eq_true (sum_sq_pos hpos hne)),
    exact_mul hT, FloatSys.div, hT]

end Summary

/-! ### Within the data -/

/-- The row matches the target arm. -/
def matchesTarget (E : Env F) (targetArm : String) (row : Dict F) : Bool :=
  match matchedRow E targetArm row with
  | .ok (some _) => true
  | _ => false

/-- A number is not below all values of some rows in a field of their outcomes, and not above all of them. -/
def BetweenOutcomes (E : Env F) (field : String) (rows : List (Dict F)) (x : ℚ) : Prop :=
  (∃ row ∈ rows, ∃ y, outcomeValue E row field = .ok (some (.fin y)) ∧ y ≤ x) ∧
    ∃ row ∈ rows, ∃ y, outcomeValue E row field = .ok (some (.fin y)) ∧ x ≤ y

/-- The estimate stays within the matched rows. -/
structure Within (E : Env F) (matched : List (Dict F)) (e : Estimate) : Prop where
  count : e.matchedEvents = matched.length
  reward : matched ≠ [] → ∃ x, e.snipsReward = some (.fin x) ∧ BetweenOutcomes E "reward" matched x
  cost : matched ≠ [] → ∃ x, e.snipsCost = some (.fin x) ∧ BetweenOutcomes E "realized_cost" matched x
  size : matched ≠ [] → ∃ x, e.effectiveSampleSize = .fin x ∧ 1 ≤ x ∧ x ≤ matched.length

theorem Gives.step {targetArm : String} {row : Dict F} {o : Option Term} (h : Gives E targetArm row o) :
    matchedRow E targetArm row = .ok (o.map Term.matched) := by
  cases h with
  | nothing h => exact h
  | term t h => exact h

theorem Gives.matches_iff {targetArm : String} {row : Dict F} {o : Option Term} (h : Gives E targetArm row o) :
    matchesTarget E targetArm row = o.isSome := by
  unfold matchesTarget
  cases h with
  | nothing h => rw [h]; rfl
  | term t h => rw [h]; rfl

/-- The terms of some rows, and the rows that match, in step. -/
theorem terms_of_gives {targetArm : String} {f : Dict F → Option Term} :
    ∀ {rows : List (Dict F)}, (∀ row ∈ rows, Gives E targetArm row (f row)) →
      rows.mapM (matchedRow E targetArm) = .ok (rows.map fun row => (f row).map Term.matched) ∧
      (rows.filter (matchesTarget E targetArm)).length = (rows.filterMap f).length
  | [], _ => ⟨rfl, rfl⟩
  | row :: rows, h => by
    obtain ⟨hmap, hlen⟩ := terms_of_gives fun row hrow => h row (List.mem_cons_of_mem _ hrow)
    have hrow := h row (List.mem_cons_self ..)
    have hstep : matchedRow E targetArm row = .ok ((f row).map Term.matched) := hrow.step
    have hmatches := hrow.matches_iff
    rw [List.mapM_cons, hstep, hmap]
    refine ⟨rfl, ?_⟩
    rw [List.filter_cons, List.filterMap_cons, hmatches]
    cases f row with
    | none => exact hlen
    | some t => exact congrArg (· + 1) hlen

theorem betweenOutcomes_of_terms {targetArm field : String} {f : Dict F → Option Term} {g : Term → ℚ}
    {rows : List (Dict F)} (h : ∀ row ∈ rows, Gives E targetArm row (f row))
    (hg : ∀ row ∈ rows, ∀ t, f row = some t → outcomeValue E row field = .ok (some (.fin (g t)))) {x : ℚ}
    (hx : Between ((rows.filterMap f).map g) x) :
    BetweenOutcomes E field (rows.filter (matchesTarget E targetArm)) x := by
  have hrow : ∀ y ∈ (rows.filterMap f).map g, ∃ row ∈ rows.filter (matchesTarget E targetArm),
      outcomeValue E row field = .ok (some (.fin y)) := by
    intro y hy
    obtain ⟨t, ht, rfl⟩ := List.mem_map.mp hy
    obtain ⟨row, hrow, hf⟩ := List.mem_filterMap.mp ht
    refine ⟨row, List.mem_filter.mpr ⟨hrow, ?_⟩, hg row hrow t hf⟩
    rw [(h row hrow).matches_iff, hf]
    rfl
  obtain ⟨⟨low, hlow, hle⟩, ⟨high, hhigh, hge⟩⟩ := hx
  obtain ⟨row, hmem, hvalue⟩ := hrow low hlow
  obtain ⟨row', hmem', hvalue'⟩ := hrow high hhigh
  exact ⟨⟨row, hmem, low, hvalue, hle⟩, ⟨row', hmem', high, hvalue', hge⟩⟩

include hT in
/-- The estimate from the terms of the rows. -/
theorem within_of_gives {targetArm : String} {f : Dict F → Option Term} {rows : List (Dict F)}
    (h : ∀ row ∈ rows, Gives E targetArm row (f row)) :
    rawEstimate E rows targetArm =
        .ok (summary E targetArm rows.length ((rows.filterMap f).map Term.matched)) ∧
      Within E (rows.filter (matchesTarget E targetArm))
        (summary E targetArm rows.length ((rows.filterMap f).map Term.matched)) := by
  obtain ⟨hmap, hlen⟩ := terms_of_gives h
  have hterm : ∀ row ∈ rows, ∀ t, f row = some t → 0 < t.weight ∧
      outcomeValue E row "reward" = .ok (some (.fin t.reward)) ∧
      outcomeValue E row "realized_cost" = .ok (some (.fin t.cost)) := by
    intro row hrow t ht
    have hgives := h row hrow
    rw [ht] at hgives
    cases hgives with
    | term _ _ hweight hreward hcost => exact ⟨hweight, hreward, hcost⟩
  have hpos : ∀ t ∈ rows.filterMap f, 0 < t.weight := by
    intro t ht
    obtain ⟨row, hrow, hf⟩ := List.mem_filterMap.mp ht
    exact (hterm row hrow t hf).1
  have hne : rows.filter (matchesTarget E targetArm) ≠ [] → rows.filterMap f ≠ [] := by
    intro hmatched hnil
    rw [hnil, List.length_nil, List.length_eq_zero_iff] at hlen
    exact hmatched hlen
  refine ⟨?_, ?_⟩
  · unfold rawEstimate
    have hcollected : ((rows.map fun row => (f row).map Term.matched).filterMap id) =
        (rows.filterMap f).map Term.matched := by
      rw [List.filterMap_map, List.map_filterMap]
      rfl
    rw [hmap]
    show Except.ok (summary E targetArm rows.length _) = _
    rw [hcollected]
  · constructor
    · show ((rows.filterMap f).map Term.matched).length = _
      rw [List.length_map, hlen]
    · intro hmatched
      obtain ⟨hsnips, hbetween⟩ := snips_exact hT Term.reward hpos (hne hmatched)
      refine ⟨_, ?_, betweenOutcomes_of_terms h (fun row hrow t ht => (hterm row hrow t ht).2.1) hbetween⟩
      unfold summary
      dsimp only
      rw [weights_matched, weightedRewards_matched hT, hsnips]
    · intro hmatched
      obtain ⟨hsnips, hbetween⟩ := snips_exact hT Term.cost hpos (hne hmatched)
      refine ⟨_, ?_, betweenOutcomes_of_terms h (fun row hrow t ht => (hterm row hrow t ht).2.2) hbetween⟩
      unfold summary
      dsimp only
      rw [weights_matched, weightedCosts_matched hT, hsnips]
    · intro hmatched
      have hweights : ∀ w ∈ (rows.filterMap f).map Term.weight, 0 < w := by
        intro w hw
        obtain ⟨t, ht, rfl⟩ := List.mem_map.mp hw
        exact hpos t ht
      have hnonempty : (rows.filterMap f).map Term.weight ≠ [] := fun hnil =>
        hne hmatched (List.map_eq_nil_iff.mp hnil)
      refine ⟨effective ((rows.filterMap f).map Term.weight), ?_, one_le_effective hweights hnonempty, ?_⟩
      · unfold summary
        dsimp only
        rw [weights_matched, effective_exact hT hweights hnonempty]
      · have hle := effective_le_length hweights hnonempty
        rwa [List.length_map, ← hlen] at hle

include hT in
/-- **The estimates stay within the data**, and do not depend on the order of the rows. -/
theorem estimates_within {rows : List (Dict F)} (hrows : ∀ row ∈ rows, isVerified E row = .ok true)
    (targetArm : String) : ∃ e, rawEstimate E rows targetArm = .ok e ∧
      Within E (rows.filter (matchesTarget E targetArm)) e ∧
      ∀ rows', rows'.Perm rows → rawEstimate E rows' targetArm = .ok e := by
  choose! f hf using fun row (hrow : row ∈ rows) => gives_of_verified hT (hrows row hrow) targetArm
  obtain ⟨heq, hwithin⟩ := within_of_gives hT hf
  refine ⟨_, heq, hwithin, fun rows' hperm => ?_⟩
  have hf' : ∀ row ∈ rows', Gives E targetArm row (f row) := fun row hrow => hf row (hperm.mem_iff.mp hrow)
  rw [(within_of_gives hT hf').1, hperm.length_eq, summary_perm hT (hperm.filterMap f)]

/-! ### The bootstrap of the difference -/

include hT in
theorem snipsTerm_fin {targetArm field : String} {row : Dict F} {w v : Num}
    (h : snipsTerm E targetArm field row = .ok (some (w, v))) : (∃ q, w = .fin q) ∧ ∃ q, v = .fin q := by
  unfold snipsTerm at h
  obtain ⟨chosen, -, h⟩ := bind_eq_ok.mp h
  obtain ⟨action, -, h⟩ := bind_eq_ok.mp h
  by_cases hne : chosen ≠ action
  · rw [if_pos hne] at h
    cases h
  · rw [if_neg hne] at h
    obtain ⟨propensities, -, h⟩ := bind_eq_ok.mp h
    obtain ⟨probability, hprobability⟩ := numberOf_exact hT (getKey propensities chosen)
    obtain ⟨value, hvalue⟩ := numberIn_exact hT (objOf? row "outcome") field
    rw [hprobability, outcomeValue, hvalue] at h
    cases probability with
    | none => cases value <;> cases h
    | some p =>
      cases value with
      | none => cases h
      | some q =>
        simp only [bind, Except.bind, pure, Except.pure, Option.map_some, Num.le_fin] at h
        by_cases hpos : p ≤ 0
        · rw [if_pos (decide_eq_true hpos)] at h
          cases h
        · rw [if_neg (by simpa using hpos), hT 1, exact_divide hT _ (not_le.mp hpos).ne'] at h
          cases h
          exact ⟨⟨_, rfl⟩, ⟨_, rfl⟩⟩

include hT in
theorem snips_fin {terms : List (Num × Num)} {x : Num}
    (hterms : ∀ t ∈ terms, (∃ q, t.1 = .fin q) ∧ ∃ q, t.2 = .fin q)
    (h : snips E (terms.map Prod.fst) (terms.map fun t => E.T.mul t.1 t.2) = some x) : ∃ q, x = .fin q := by
  have hweights : Finite (terms.map Prod.fst) := by
    intro w hw
    obtain ⟨t, ht, rfl⟩ := List.mem_map.mp hw
    exact (hterms t ht).1
  have hproducts : Finite (terms.map fun t => E.T.mul t.1 t.2) := by
    intro w hw
    obtain ⟨t, ht, rfl⟩ := List.mem_map.mp hw
    obtain ⟨⟨p, hp⟩, ⟨q, hq⟩⟩ := hterms t ht
    exact ⟨p * q, by rw [hp, hq, exact_mul hT]⟩
  obtain ⟨sum, hsum⟩ := total_fin hT (q := 0) hweights
  obtain ⟨product, hproduct⟩ := total_fin hT (q := 0) hproducts
  unfold snips total at h
  rw [hsum, hproduct] at h
  split_ifs at h
  cases h
  exact ⟨product / sum, hT _⟩

include hT in
theorem snipsValue_fin {rows : List (Dict F)} {targetArm field : String} {x : Num}
    (h : snipsValue E rows targetArm field = .ok (some x)) : ∃ q, x = .fin q := by
  unfold snipsValue at h
  obtain ⟨found, hfound, h⟩ := bind_eq_ok.mp h
  refine snips_fin hT (fun t ht => ?_) (Except.ok.inj h)
  obtain ⟨o, ho, hid⟩ := List.mem_filterMap.mp ht
  obtain ⟨row, -, hrow⟩ := mem_mapM hfound o ho
  rw [show o = some t from hid] at hrow
  exact snipsTerm_fin hT hrow

include hT in
theorem snipsDelta_fin {rows : List (Dict F)} {targetArm field : String} {x : Num}
    (h : snipsDelta E rows targetArm field = .ok (some x)) : ∃ q, x = .fin q := by
  unfold snipsDelta at h
  obtain ⟨candidate, hcandidate, h⟩ := bind_eq_ok.mp h
  obtain ⟨baseline, hbaseline, h⟩ := bind_eq_ok.mp h
  cases candidate with
  | none => cases h
  | some candidate =>
    cases baseline with
    | none => cases h
    | some baseline =>
      obtain ⟨p, rfl⟩ := snipsValue_fin hT hcandidate
      obtain ⟨q, rfl⟩ := snipsValue_fin hT hbaseline
      cases h
      exact ⟨p - q, exact_sub hT p q⟩

include hT in
/-- **A bootstrap interval of the difference is not turned around.** -/
theorem bootstrapDelta_ordered {draw : ℤ → ℕ → ℕ → ℕ} {rows : List (Dict F)} {targetArm field : String}
    {confidence : Num} {resamples seed : ℤ} {r : DeltaInterval}
    (h : bootstrapDelta E draw rows targetArm field confidence resamples seed = .ok r) :
    Ordered r.ciLow r.ciHigh := by
  unfold bootstrapDelta at h
  obtain ⟨_, hconfidence, h⟩ := bind_eq_ok.mp h
  rw [require_eq_ok] at hconfidence
  by_cases hrows : rows.isEmpty = true
  · rw [if_pos hrows] at h
    cases h
    exact Or.inl ⟨rfl, rfl⟩
  · rw [if_neg hrows] at h
    obtain ⟨drawn, hdrawn, h⟩ := bind_eq_ok.mp h
    obtain ⟨observed, -, h⟩ := bind_eq_ok.mp h
    have hfin : Finite (drawn.filterMap id) := by
      intro x hx
      obtain ⟨o, ho, hid⟩ := List.mem_filterMap.mp hx
      obtain ⟨i, -, hdelta⟩ := mem_mapM hdrawn o ho
      rw [show o = some x from hid] at hdelta
      exact snipsDelta_fin hT hdelta
    dsimp only at h
    generalize drawn.filterMap id = deltas at h hfin
    by_cases hempty : deltas.isEmpty = true
    · rw [if_pos hempty] at h
      cases h
      exact Or.inl ⟨rfl, rfl⟩
    · rw [if_neg hempty] at h
      have hne : deltas ≠ [] := fun hnil => hempty (List.isEmpty_iff.mpr hnil)
      obtain ⟨p, hp, hrest, h0, hhalf⟩ := tail_exact hT hconfidence
      obtain ⟨low, high, hlow, hhigh, hle⟩ := tails_ordered hT hfin hne h0 hhalf
      rw [hp, hrest, hlow, hhigh] at h
      cases h
      refine Or.inr ⟨roundHalfEven low 6, roundHalfEven high 6, ?_, ?_, roundHalfEven_mono hle 6⟩
      · exact congrArg some (round6_exact hT low)
      · exact congrArg some (round6_exact hT high)

end Exact

/-! ### Order statistics -/

/-- What is asked of the percentiles of a list at two probabilities. -/
structure OrderStatistic (E : Env F) (xs : List ℚ) (p q low high : ℚ) : Prop where
  at_low : percentile E (xs.map Num.fin) (.fin p) = .ok (.fin low)
  at_high : percentile E (xs.map Num.fin) (.fin q) = .ok (.fin high)
  mono : low ≤ high
  low_between : Between xs low
  high_between : Between xs high
  perm : ∀ ys : List ℚ, ys.Perm xs → percentile E (ys.map Num.fin) (.fin p) = .ok (.fin low)
  grows : ∀ ys : List ℚ, List.Forall₂ (· ≤ ·) xs ys → ∃ higher,
    percentile E (ys.map Num.fin) (.fin p) = .ok (.fin higher) ∧ low ≤ higher

/-- Whatever is drawn, an interval has no ends, or its lower end is not above its upper end. -/
structure Intervals (E : Env F) : Prop where
  mean : ∀ draw values confidence resamples seed r,
    bootstrapMeanCi E draw values confidence resamples seed = .ok r → Ordered r.ciLow r.ciHigh
  delta : ∀ draw rows targetArm field confidence resamples seed r,
    bootstrapDelta E draw rows targetArm field confidence resamples seed = .ok r → Ordered r.ciLow r.ciHigh
  clustered : ∀ S rows field confidence resamples seed r,
    clusteredRewardDifference E S rows field confidence resamples seed = .ok r → Ordered r.ciLow r.ciHigh

/-- **The percentile is a monotone order statistic.** -/
theorem percentile_orderStatistic (hT : Exact E.T) {xs : List ℚ} (hne : xs ≠ []) {p q : ℚ} (h0 : 0 ≤ p)
    (hpq : p ≤ q) (h1 : q ≤ 1) : (∃ low high, OrderStatistic E xs p q low high) ∧ Intervals E := by
  have hlen : (1 : ℚ) ≤ xs.length := by
    exact_mod_cast Nat.one_le_iff_ne_zero.mpr (List.length_pos_iff.mpr hne).ne'
  have hposition : ∀ {p : ℚ}, 0 ≤ p → 0 ≤ ((xs.length : ℚ) - 1) * p := fun h => mul_nonneg (by linarith) h
  have hbetween : ∀ t : ℚ, 0 ≤ t → Between xs (interpolate (rank xs) t) := fun t ht =>
    ⟨⟨_, rank_mem hne _, floor_le_interpolate (rank_mono xs) ht⟩,
      ⟨_, rank_mem hne _, interpolate_le_ceil (rank_mono xs)⟩⟩
  obtain ⟨low, high, hlow, hhigh, hle⟩ := percentile_mono hT hne h0 hpq h1
  have hlow_eq := percentile_exact hT hne h0 (hpq.trans h1)
  have hhigh_eq := percentile_exact hT hne (h0.trans hpq) h1
  rw [hlow, Except.ok.injEq, Num.fin.injEq] at hlow_eq
  rw [hhigh, Except.ok.injEq, Num.fin.injEq] at hhigh_eq
  refine ⟨⟨low, high, hlow, hhigh, hle, ?_, ?_, fun ys hys => ?_, fun ys hys => ?_⟩, ?_⟩
  · exact hlow_eq ▸ hbetween _ (hposition h0)
  · exact hhigh_eq ▸ hbetween _ (hposition (h0.trans hpq))
  · have hne' : ys ≠ [] := fun h => hne (List.Perm.eq_nil (h ▸ hys).symm)
    rw [percentile_exact hT hne' h0 (hpq.trans h1), rank_perm hys, hys.length_eq, ← hlow_eq]
  · have hne' : ys ≠ [] := by
      rintro rfl
      exact hne (List.forall₂_nil_right_iff.mp hys)
    refine ⟨_, percentile_exact hT hne' h0 (hpq.trans h1), ?_⟩
    rw [hlow_eq, ← hys.length_eq]
    exact interpolate_le_interpolate (rank_le_rank hys) (hposition h0)
  · exact ⟨fun _ _ _ _ _ _ h => bootstrapMeanCi_ordered hT h, fun _ _ _ _ _ _ _ _ h => bootstrapDelta_ordered hT h,
      fun _ _ _ _ _ _ _ h => clustered_ordered hT h⟩

/-- Three numbers, at the quartiles. -/
theorem percentile_orderStatistic_three :
    (∃ low high, OrderStatistic exactPlatform [3, 1, 2] (1 / 4) (3 / 4) low high) ∧ Intervals exactPlatform :=
  percentile_orderStatistic exactPlatform exact_rationals (by decide) (by norm_num) (by norm_num) (by norm_num)

end ControlPlane.Policy.Estimates
