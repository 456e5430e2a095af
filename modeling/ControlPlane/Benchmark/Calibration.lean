import ControlPlane.Instance
import ControlPlane.Lib.Decimals
import ControlPlane.Lib.Thresholds
import ControlPlane.Lib.Weights
import Mathlib.Data.List.ReduceOption
import Mathlib.Data.Real.Basic
import Mathlib.Data.Prod.Lex

/-! # Calibration of the sufficiency threshold

Cases with a label and a score are split by a hash into a part for calibration and a part held out. The threshold is
the candidate of least cost on the first part, where the candidates are zero, one, the scores and the middles between
neighbouring scores.

The costs are compared as they are reported, with six decimals, and so is the threshold that is returned. For scores
of at most six decimals no threshold between zero and one has a lower reported cost, or the same one and fewer false
accepts (`calibrate_optimal`): a middle is never taken, since the score above it accepts the same. Scores of seven
decimals can lie on both sides of the returned threshold and on one side of the best (`seven_decimals_lost`). -/

namespace ControlPlane.Benchmark.Calibration

open ControlPlane.Lib.Value ControlPlane.Lib.Text ControlPlane.Lib.Floats ControlPlane.Lib.Dynamic
open ControlPlane.Lib.Decimals ControlPlane.Lib.Rounding ControlPlane.Lib.Thresholds ControlPlane.Environment

variable {F : Type} (E : Env F)

/-! ### Rows -/

/-- `_score`: the finite number of a row. -/
def score (row : Dict F) : Py (Option ℚ) := do
  match ← E.number? (getKey row "retrieval_sufficiency_score") with
  | some x => return match E.T.view x with
    | .fin q => some q
    | _ => none
  | none => return none

/-- `_label`: whether the row is one to accept. -/
def label (row : Dict F) : Py (Option Bool) := do
  let controlType := E.lower (strip (← E.strOr row "control_type" ""))
  return if controlType = "positive" then some true
    else if controlType = "natural_no_gold" ∨ controlType = "wrong_repo" then some false
    else none

/-- A label and a score. -/
abbrev Case := Bool × ℚ

/-- The cases among the rows. -/
def casesOf (rows : List (Dict F)) : Py (List Case) := do
  let cases ← rows.mapM fun row => do
    let label ← label E row
    let score ← score E row
    return match label, score with
      | some label, some score => some (label, score)
      | _, _ => none
  return cases.reduceOption

/-! ### Metrics at a threshold -/

/-- How many cases are accepted and rejected, rightly and wrongly. -/
structure Counts where
  tp : ℕ
  tn : ℕ
  falseAccepts : ℕ
  falseRejects : ℕ

def countsOf (cases : List Case) (accept : ℚ → Bool) : Counts where
  tp := cases.countP fun c => accept c.2 && c.1
  tn := cases.countP fun c => !accept c.2 && !c.1
  falseAccepts := cases.countP fun c => accept c.2 && !c.1
  falseRejects := cases.countP fun c => !accept c.2 && c.1

structure Costs where
  falseAccept : Num
  falseReject : Num

/-- `fp * fa_cost + fn * fr_cost` -/
def totalCost (T : FloatSys F) (costs : Costs) (counts : Counts) : Num :=
  T.add (T.mul (T.lit counts.falseAccepts) costs.falseAccept) (T.mul (T.lit counts.falseRejects) costs.falseReject)

structure Metrics where
  threshold : Num
  n : ℕ
  counts : Counts
  truePositiveRate : Option Num
  trueNegativeRate : Option Num
  falseAcceptRate : Option Num
  falseRejectRate : Option Num
  balancedAccuracy : Option Num
  expectedCostPerCase : Option Num
  totalCost : Num

/-- `round(a / b, 6) if b else None` -/
def rateOf (T : FloatSys F) (a b : ℕ) : Option Num := if b = 0 then none else some (roundTo T 6 (T.lit (a / b)))

/-- `score >= t` -/
def accepts (threshold : Num) (score : ℚ) : Bool := threshold.le (.fin score)

/-- The metrics of counts. -/
def metricsOf (T : FloatSys F) (costs : Costs) (threshold : Num) (n : ℕ) (counts : Counts) : Metrics :=
  let positives := counts.tp + counts.falseRejects
  let negatives := counts.tn + counts.falseAccepts
  let cost := Calibration.totalCost T costs counts
  let share := fun (a b : ℕ) => if b = 0 then .fin 0 else T.lit (a / b)
  { threshold := roundTo T 6 threshold
    n := n
    counts := counts
    truePositiveRate := rateOf T counts.tp positives
    trueNegativeRate := rateOf T counts.tn negatives
    falseAcceptRate := rateOf T counts.falseAccepts negatives
    falseRejectRate := rateOf T counts.falseRejects positives
    balancedAccuracy := if positives = 0 ∨ negatives = 0 then none
      else some (roundTo T 6 (T.div (T.add (share counts.tp positives) (share counts.tn negatives)) (T.lit 2)))
    expectedCostPerCase := if n = 0 then none else some (roundTo T 6 (T.div cost (T.lit n)))
    totalCost := roundTo T 6 cost }

def thresholdMetrics (rows : List (Dict F)) (threshold : Num) (costs : Costs) : Py Metrics := do
  require (!costs.falseAccept.lt (.fin 0) && !costs.falseReject.lt (.fin 0))
    "misclassification costs must be non-negative"
  let cases ← casesOf E rows
  return metricsOf E.T costs threshold cases.length (countsOf cases (accepts threshold))

/-! ### The choice -/

/-- The middles between neighbours. -/
def middles (T : FloatSys F) (scores : List ℚ) : List Num :=
  List.zipWith (fun left right => T.div (T.add (.fin left) (.fin right)) (T.lit 2)) scores scores.tail

def candidateThresholds (rows : List (Dict F)) : Py (List Num) := do
  let scores := ((← rows.mapM (score E)).reduceOption.dedup).insertionSort (· ≤ ·)
  return if scores = [] then []
    else ((.fin 0 :: .fin 1 :: (scores.map Num.fin ++ middles E.T scores)).dedup).insertionSort fun a b => a.le b = true

/-- The order of `(total_cost, false_accepts, -threshold)`. -/
def before (a b : Metrics) : Bool :=
  a.totalCost.lt b.totalCost || (a.totalCost.eq b.totalCost &&
    (decide (a.counts.falseAccepts < b.counts.falseAccepts) ||
      (a.counts.falseAccepts == b.counts.falseAccepts && b.threshold.lt a.threshold)))

structure Selection where
  selected : Metrics
  candidatesEvaluated : ℕ
  costs : Costs

def chooseCostSensitiveThreshold (rows : List (Dict F)) (costs : Costs) : Py Selection := do
  let thresholds ← candidateThresholds E rows
  let evaluations ← thresholds.mapM fun threshold => thresholdMetrics E rows threshold costs
  match minBy before evaluations with
  | some best => return ⟨best, evaluations.length, costs⟩
  | none => .error (.valueError "no eligible sufficiency scores available for calibration")

/-! ### The split -/

/-- `_case_key` -/
def caseKey (row : Dict F) (index : ℕ) : Py String := do
  let snapshot := (objOf? row "snapshot").getD []
  let task ← E.strOr row "task" ""
  let taskType ← E.strOr row "task_type" ""
  let repository ← E.strOr row "repository_path" "."
  let head ← E.strOr snapshot "expected_head" ""
  return String.intercalate "|" [toString index, task, taskType, repository, head]

/-- A row with its bucket and its key. -/
structure Ranked (F : Type) where
  bucket : ℚ
  key : String
  row : Dict F

def Ranked.le (a b : Ranked F) : Prop := a.bucket < b.bucket ∨ a.bucket = b.bucket ∧ a.key ≤ b.key

instance : DecidableRel (Ranked.le (F := F)) := fun _ _ => inferInstanceAs (Decidable (_ ∨ _))

/-- How many of some rows are for calibration. -/
def cutoffOf (T : FloatSys F) (fraction : Num) (n : ℕ) : ℕ :=
  match T.mul (T.lit n) fraction with
  | .fin q => min (n - 1) (max 1 (roundHalfEven q 0).floor.toNat)
  | _ => n - 1

/-- The rows of one label, split. -/
def splitGroup (bucket : String → ℚ) (fraction : Num) (group : List (Dict F × ℕ)) :
    Py (List (Dict F) × List (Dict F)) := do
  let ranked ← group.mapM fun (row, index) => do
    let key ← caseKey E row index
    return (⟨bucket key, key, row⟩ : Ranked F)
  let rows := (ranked.insertionSort Ranked.le).map Ranked.row
  return if rows.length ≤ 1 then (rows, [])
    else (rows.take (cutoffOf E.T fraction rows.length), rows.drop (cutoffOf E.T fraction rows.length))

/-- The label of a row that has a score. -/
def eligible (row : Dict F) : Py (Option Bool) := do
  match ← label E row with
  | none => return none
  | some accept => return (← score E row).map fun _ => accept

def deterministicStratifiedSplit (bucket : String → ℚ) (rows : List (Dict F)) (fraction : Num) :
    Py (List (Dict F) × List (Dict F)) := do
  require ((Num.fin 0).lt fraction && fraction.lt (.fin 1)) "calibration_fraction must be between 0 and 1"
  let labelled ← (rows.zipIdx 1).mapM fun r => do
    let accept ← eligible E r.1
    return (r, accept)
  let group := fun accept => (labelled.filter fun r => r.2 = some accept).map Prod.fst
  let (rejected, rejectedHoldout) ← splitGroup E bucket fraction (group false)
  let (accepted, acceptedHoldout) ← splitGroup E bucket fraction (group true)
  return (rejected ++ accepted, rejectedHoldout ++ acceptedHoldout)

/-! ### Calibration -/

structure Report where
  threshold : Num
  calibrationFraction : Num
  calibrationCases : ℕ
  holdoutCases : ℕ
  costs : Costs
  calibration : Metrics
  holdout : Metrics
  candidatesEvaluated : ℕ

def dictOf? : Json F → Option (Dict F)
  | .obj d => some d
  | _ => none

/-- The cases of a report. -/
def reportRows (report : Dict F) : Py (List (Dict F)) := do
  let cases := getKey report "cases"
  return (← if truthy E.T cases then toList cases else return []).filterMap dictOf?

def calibrateSufficiencyThreshold (bucket : String → ℚ) (report : Dict F) (fraction : Num) (costs : Costs) :
    Py Report := do
  let rows ← reportRows E report
  let (calibration, holdout) ← deterministicStratifiedSplit E bucket rows fraction
  let labels ← calibration.mapM (label E)
  require (labels.contains (some false) && labels.contains (some true))
    "calibration split requires both positive and selective-control cases"
  let selection ← chooseCostSensitiveThreshold E calibration costs
  let threshold := selection.selected.threshold
  let holdoutMetrics ← thresholdMetrics E holdout threshold costs
  let calibrationMetrics ← thresholdMetrics E calibration threshold costs
  return ⟨threshold, fraction, calibration.length, holdout.length, selection.costs, calibrationMetrics,
    holdoutMetrics, selection.candidatesEvaluated⟩

/-! ### What is to be shown -/

/-- The counts at a real threshold. -/
noncomputable def countsAt (cases : List Case) (t : ℝ) : Counts := by
  classical exact countsOf cases fun score => decide (t ≤ (score : ℝ))

/-- No threshold between zero and one has a lower cost, or the same one and fewer false accepts. -/
def Optimal (cost : Counts → Num) (cases : List Case) (threshold : Num) : Prop :=
  ∀ t : ℝ, 0 ≤ t → t ≤ 1 →
    (cost (countsOf cases (accepts threshold))).le (cost (countsAt cases t)) = true ∧
    ((cost (countsAt cases t)).le (cost (countsOf cases (accepts threshold))) = true →
      (countsOf cases (accepts threshold)).falseAccepts ≤ (countsAt cases t).falseAccepts)

/-- The total cost as it is reported. -/
def reportedCost (T : FloatSys F) (costs : Costs) (counts : Counts) : Num := roundTo T 6 (totalCost T costs counts)

/-- A score between zero and one, of at most six decimals. -/
structure SixDecimal (T : FloatSys F) (q : ℚ) : Prop where
  nonneg : 0 ≤ q
  le_one : q ≤ 1
  round : roundTo T 6 (.fin q) = .fin q

/-- Costs that are numbers, and not negative. -/
structure Costs.Valid (costs : Costs) : Prop where
  falseAccept : ∃ a, 0 ≤ a ∧ costs.falseAccept = .fin a
  falseReject : ∃ a, 0 ≤ a ∧ costs.falseReject = .fin a

/-! ### Costs -/

section Costs
variable {T : FloatSys F}

theorem nonNeg_mul {p q : ℚ} (hp : 0 ≤ p) (hq : 0 ≤ q) : NonNeg (T.mul (.fin p) (.fin q)) :=
  nonNeg_lit (mul_nonneg hp hq)

theorem nonNeg_sum {x y : Num} (hx : NonNeg x) (hy : NonNeg y) : NonNeg (T.add x y) := by
  rcases nonNeg_iff.mp hy with rfl | ⟨q, hq, rfl⟩
  · rcases nonNeg_iff.mp hx with rfl | ⟨p, -, rfl⟩
    · exact hx
    · exact hy
  · exact nonNeg_add hx hq

theorem nonNeg_roundTo {x : Num} (hx : NonNeg x) (n : ℕ) : NonNeg (roundTo T n x) := by
  rcases nonNeg_iff.mp hx with rfl | ⟨q, hq, rfl⟩
  · exact hx
  · exact nonNeg_lit (roundHalfEven_nonneg hq n)

/-- A reported cost is not negative, if the counts are floats. -/
theorem nonNeg_reportedCost {costs : Costs} (hcosts : costs.Valid) {counts : Counts}
    (ha : ∃ q, T.lit counts.falseAccepts = .fin q) (hr : ∃ q, T.lit counts.falseRejects = .fin q) :
    NonNeg (reportedCost T costs counts) := by
  obtain ⟨a, ha0, hfa⟩ := hcosts.falseAccept
  obtain ⟨r, hr0, hfr⟩ := hcosts.falseReject
  have hcount : ∀ {n : ℕ}, (∃ q, T.lit n = .fin q) → ∃ q, T.lit n = .fin q ∧ 0 ≤ q := by
    rintro n ⟨q, hq⟩
    have hn : NonNeg (T.lit n) := nonNeg_lit (Nat.cast_nonneg n)
    rw [hq] at hn
    exact ⟨q, hq, by simpa [NonNeg] using hn⟩
  obtain ⟨m, hm, hm0⟩ := hcount ha
  obtain ⟨n, hn, hn0⟩ := hcount hr
  refine nonNeg_roundTo (nonNeg_sum ?_ ?_) 6
  · rw [hm, hfa]
    exact nonNeg_mul hm0 ha0
  · rw [hn, hfr]
    exact nonNeg_mul hn0 hr0

end Costs

theorem countsOf_le (cases : List Case) (accept : ℚ → Bool) :
    (countsOf cases accept).falseAccepts ≤ cases.length ∧ (countsOf cases accept).falseRejects ≤ cases.length :=
  ⟨List.countP_le_length, List.countP_le_length⟩

theorem countsOf_congr {cases : List Case} {accept other : ℚ → Bool} (h : ∀ c ∈ cases, accept c.2 = other c.2) :
    countsOf cases accept = countsOf cases other := by
  simp only [countsOf, Counts.mk.injEq]
  refine ⟨?_, ?_, ?_, ?_⟩ <;> exact List.countP_congr fun c hc => by rw [h c hc]

theorem accepts_fin (p q : ℚ) : accepts (.fin p) q = decide (p ≤ q) := Num.le_fin p q

/-! ### Candidates -/

section Candidates
variable {E} {rows : List (Dict F)} {scores : List ℚ}

/-- The scores of the rows. -/
def scoresOf (E : Env F) (rows : List (Dict F)) : Py (List ℚ) := do
  return (← rows.mapM (score E)).reduceOption

/-- Every case has a score of a row. -/
theorem mem_scoresOf {cases : List Case} (hcases : casesOf E rows = .ok cases) (hscores : scoresOf E rows = .ok scores) :
    ∀ c ∈ cases, c.2 ∈ scores := by
  unfold casesOf at hcases
  unfold scoresOf at hscores
  rw [bind_eq_ok] at hcases hscores
  obtain ⟨cs, hcs, hcases⟩ := hcases
  obtain ⟨ss, hss, hscores⟩ := hscores
  intro c hc
  rw [← Except.ok.inj hcases, List.reduceOption_mem_iff] at hc
  rw [← Except.ok.inj hscores, List.reduceOption_mem_iff]
  obtain ⟨row, hrow, hread⟩ := mem_mapM hcs _ hc
  rw [bind_eq_ok] at hread
  obtain ⟨label?, -, hread⟩ := hread
  rw [bind_eq_ok] at hread
  obtain ⟨score?, hscore, hread⟩ := hread
  obtain ⟨other, hother, hsame⟩ := mapM_mem hss row hrow
  rw [hscore, Except.ok.injEq] at hsame
  have hpair := Except.ok.inj hread
  split at hpair
  · next l q =>
    rw [← Option.some.inj hpair]
    rw [← hsame] at hother
    exact hother
  · cases hpair

theorem scoresOf_mem (hscores : scoresOf E rows = .ok scores) :
    ∀ q ∈ scores, ∃ row ∈ rows, score E row = .ok (some q) := by
  unfold scoresOf at hscores
  rw [bind_eq_ok] at hscores
  obtain ⟨ss, hss, hscores⟩ := hscores
  intro q hq
  rw [← Except.ok.inj hscores, List.reduceOption_mem_iff] at hq
  exact mem_mapM hss _ hq

/-- A middle of numbers between zero and one is one. -/
theorem middle_unit {T : FloatSys F} (hT : Stable T) (htwo : T.lit 2 = .fin 2) {p q : ℚ} (hp : 0 ≤ p ∧ p ≤ 1)
    (hq : 0 ≤ q ∧ q ≤ 1) : ∃ m, T.div (T.add (.fin p) (.fin q)) (T.lit 2) = .fin m ∧ 0 ≤ m ∧ m ≤ 1 := by
  have hlow : (Num.fin 0).le (T.lit (p + q)) = true := nonNeg_lit (add_nonneg hp.1 hq.1)
  have hsum : p + q ≤ 2 := by linarith [hp.2, hq.2]
  have hup := T.lit_mono hsum
  rw [htwo] at hup
  obtain ⟨x, hx⟩ := Num.fin_of_le hlow hup
  rw [hx, Num.le_fin, decide_eq_true_eq] at hlow hup
  have hadd : T.add (.fin p) (.fin q) = .fin x := hx
  rw [hadd, htwo]
  exact unit_lit hT (by linarith) (by linarith)

theorem mem_candidates (hT : Stable E.T) (htwo : E.T.lit 2 = .fin 2) (hscores : scoresOf E rows = .ok scores)
    (hsix : ∀ q ∈ scores, SixDecimal E.T q) {thresholds : List Num} (h : candidateThresholds E rows = .ok thresholds) :
    (∀ t ∈ thresholds, ∃ q, t = .fin q ∧ 0 ≤ q ∧ q ≤ 1) ∧
      (thresholds ≠ [] → ∀ r ∈ (1 : ℚ) :: scores, .fin r ∈ thresholds) := by
  unfold scoresOf at hscores
  unfold candidateThresholds at h
  rw [bind_eq_ok] at hscores h
  obtain ⟨ss, hss, hscores⟩ := hscores
  obtain ⟨ss', hss', h⟩ := h
  rw [hss, Except.ok.injEq] at hss'
  rw [← hss', Except.ok.inj hscores] at h
  have hlist := Except.ok.inj h
  have hmem : ∀ q, q ∈ scores.dedup.insertionSort (· ≤ ·) ↔ q ∈ scores := by
    intro q
    rw [List.mem_insertionSort, List.mem_dedup]
  generalize scores.dedup.insertionSort (· ≤ ·) = sorted at hlist hmem
  have hunit : ∀ q ∈ sorted, 0 ≤ q ∧ q ≤ 1 := fun q hq =>
    ⟨(hsix q ((hmem q).mp hq)).nonneg, (hsix q ((hmem q).mp hq)).le_one⟩
  by_cases hempty : sorted = []
  · rw [if_pos hempty] at hlist
    rw [← hlist]
    exact ⟨fun t ht => absurd ht List.not_mem_nil, fun hne => absurd rfl hne⟩
  · rw [if_neg hempty] at hlist
    have hin : ∀ t, t ∈ thresholds ↔ t = .fin 0 ∨ t = .fin 1 ∨ (∃ q ∈ sorted, .fin q = t) ∨ t ∈ middles E.T sorted := by
      intro t
      rw [← hlist, List.mem_insertionSort, List.mem_dedup, List.mem_cons, List.mem_cons, List.mem_append, List.mem_map]
    refine ⟨fun t ht => ?_, fun _ r hr => ?_⟩
    · rcases (hin t).mp ht with rfl | rfl | ⟨q, hq, rfl⟩ | ht
      · exact ⟨0, rfl, le_rfl, zero_le_one⟩
      · exact ⟨1, rfl, zero_le_one, le_rfl⟩
      · exact ⟨q, rfl, hunit q hq⟩
      · rw [middles, ← List.map_uncurry_zip_eq_zipWith] at ht
        obtain ⟨⟨p, q⟩, hpq, rfl⟩ := List.mem_map.mp ht
        obtain ⟨hp, hq⟩ := List.of_mem_zip hpq
        exact middle_unit hT htwo (hunit p hp) (hunit q (List.mem_of_mem_tail hq))
    · rcases List.mem_cons.mp hr with rfl | hr
      · exact (hin _).mpr (Or.inr (Or.inl rfl))
      · exact (hin _).mpr (Or.inr (Or.inr (Or.inl ⟨r, (hmem r).mpr hr, rfl⟩)))

/-- Every evaluation is that of a candidate, and every candidate has one. -/
theorem evaluations_spec {cases : List Case} (hcases : casesOf E rows = .ok cases) {costs : Costs}
    {thresholds : List Num} {evaluations : List Metrics}
    (h : thresholds.mapM (fun t => thresholdMetrics E rows t costs) = .ok evaluations) :
    (∀ e ∈ evaluations, ∃ t ∈ thresholds, e = metricsOf E.T costs t cases.length (countsOf cases (accepts t))) ∧
      ∀ t ∈ thresholds, metricsOf E.T costs t cases.length (countsOf cases (accepts t)) ∈ evaluations := by
  have hmetrics : ∀ {t : Num} {e : Metrics}, thresholdMetrics E rows t costs = .ok e →
      e = metricsOf E.T costs t cases.length (countsOf cases (accepts t)) := by
    intro t e he
    unfold thresholdMetrics at he
    rw [bind_eq_ok] at he
    obtain ⟨_, -, he⟩ := he
    rw [hcases] at he
    exact (Except.ok.inj he).symm
  constructor
  · intro e he
    obtain ⟨t, ht, hread⟩ := mem_mapM h e he
    exact ⟨t, ht, hmetrics hread⟩
  · intro t ht
    obtain ⟨e, he, hread⟩ := mapM_mem h t ht
    rw [← hmetrics hread]
    exact he

end Candidates

/-! ### The order of the candidates -/

/-- The key of a candidate, in a linear order. -/
def rank (m : Metrics) : WithTop ℚ ×ₗ ℕ ×ₗ ℚ :=
  toLex (top m.totalCost, toLex (m.counts.falseAccepts, match m.threshold with
    | .fin q => -q
    | _ => 0))

theorem before_eq {a b : Metrics} (ha : NonNeg a.totalCost) (hb : NonNeg b.totalCost)
    (hp : ∃ p, a.threshold = .fin p) (hq : ∃ q, b.threshold = .fin q) : before a b = decide (rank a < rank b) := by
  obtain ⟨p, hp⟩ := hp
  obtain ⟨q, hq⟩ := hq
  have hbool : ∀ x : Bool, ∀ y : Prop, [Decidable y] → (x = true ↔ y) → x = decide y := by
    intro x y _ h
    by_cases hy : y
    · rw [decide_eq_true hy, h.mpr hy]
    · rw [decide_eq_false hy, Bool.eq_false_iff.mpr fun hx => hy (h.mp hx)]
  refine hbool _ _ ?_
  rw [rank, rank, Prod.Lex.toLex_lt_toLex, Prod.Lex.toLex_lt_toLex, before, hp, hq, Bool.or_eq_true,
    Bool.and_eq_true, top_lt_iff ha hb, top_eq_iff ha hb]
  simp

/-- A lower rank: a lower cost, or the same one and fewer false accepts, or both the same and a higher threshold. -/
theorem rank_le {a b : Metrics} (ha : NonNeg a.totalCost) (hb : NonNeg b.totalCost) (h : rank a ≤ rank b) :
    a.totalCost.le b.totalCost = true ∧ (b.totalCost.le a.totalCost = true →
      a.counts.falseAccepts ≤ b.counts.falseAccepts ∧ (b.counts.falseAccepts ≤ a.counts.falseAccepts →
        ∀ p q, a.threshold = .fin p → b.threshold = .fin q → q ≤ p)) := by
  rw [rank, rank, Prod.Lex.toLex_le_toLex, Prod.Lex.toLex_le_toLex] at h
  rw [top_le_iff ha hb, top_le_iff hb ha]
  rcases h with hlt | ⟨heq, hlt | ⟨hfalse, hle⟩⟩
  · exact ⟨hlt.le, fun hge => absurd hge (not_le.mpr hlt)⟩
  · exact ⟨heq.le, fun _ => ⟨hlt.le, fun hge => absurd hge (not_le.mpr hlt)⟩⟩
  · refine ⟨heq.le, fun _ => ⟨hfalse.le, fun _ p q hp hq => ?_⟩⟩
    rw [hp, hq] at hle
    exact neg_le_neg_iff.mp hle

/-! ### The best candidate -/

section Best
variable {E} {rows : List (Dict F)} {cases : List Case} {scores : List ℚ} {costs : Costs}

/-- The threshold of a candidate, rounded. -/
theorem rounded_unit {T : FloatSys F} (hT : Stable T) {q : ℚ} (h0 : 0 ≤ q) (h1 : q ≤ 1) :
    ∃ r, roundTo T 6 (.fin q) = .fin r := by
  have hone := roundHalfEven_mono h1 6
  rw [roundHalfEven_one] at hone
  obtain ⟨r, hr, -⟩ := unit_lit hT (roundHalfEven_nonneg h0 6) hone
  exact ⟨r, hr⟩

theorem round_one {T : FloatSys F} (hT : Stable T) : roundTo T 6 (.fin 1) = .fin 1 := by
  rw [roundTo, roundHalfEven_one, hT.one]

/-- **The chosen threshold is optimal** for scores of at most six decimals. -/
theorem choose_optimal (hT : Stable E.T) (htwo : E.T.lit 2 = .fin 2) (hcosts : costs.Valid)
    (hcases : casesOf E rows = .ok cases) (hscores : scoresOf E rows = .ok scores)
    (hcount : ∀ n ≤ cases.length, ∃ q, E.T.lit n = .fin q) (hsix : ∀ q ∈ scores, SixDecimal E.T q)
    {selection : Selection} (h : chooseCostSensitiveThreshold E rows costs = .ok selection) :
    Optimal (reportedCost E.T costs) cases selection.selected.threshold := by
  unfold chooseCostSensitiveThreshold at h
  rw [bind_eq_ok] at h
  obtain ⟨thresholds, hthresholds, h⟩ := h
  rw [bind_eq_ok] at h
  obtain ⟨evaluations, hevaluations, h⟩ := h
  obtain ⟨hunit, hcandidates⟩ := mem_candidates hT htwo hscores hsix hthresholds
  obtain ⟨hsound, hcomplete⟩ := evaluations_spec hcases hevaluations
  cases hbest : minBy before evaluations with
  | none =>
    rw [hbest] at h
    cases h
  | some best =>
    rw [hbest] at h
    have hselected : selection.selected = best := by rw [← Except.ok.inj h]
    have hnonneg : ∀ accept, NonNeg (reportedCost E.T costs (countsOf cases accept)) := fun accept =>
      nonNeg_reportedCost hcosts (hcount _ (countsOf_le cases accept).1) (hcount _ (countsOf_le cases accept).2)
    have hfine : ∀ e ∈ evaluations, NonNeg e.totalCost ∧ ∃ p, e.threshold = .fin p := by
      intro e he
      obtain ⟨t, ht, rfl⟩ := hsound e he
      obtain ⟨q, rfl, hq0, hq1⟩ := hunit t ht
      exact ⟨hnonneg _, rounded_unit hT hq0 hq1⟩
    have horder : ∀ x ∈ evaluations, ∀ y ∈ evaluations, before x y = decide (rank x < rank y) := fun x hx y hy =>
      before_eq (hfine x hx).1 (hfine y hy).1 (hfine x hx).2 (hfine y hy).2
    obtain ⟨hmem, hleast⟩ := minBy_spec horder hbest
    obtain ⟨t, ht, hbesteq⟩ := hsound best hmem
    obtain ⟨q, rfl, hq0, hq1⟩ := hunit t ht
    -- each candidate in the place of another one that accepts the same cases
    have hne : thresholds ≠ [] := List.ne_nil_of_mem ht
    have hcompare : ∀ r ∈ (1 : ℚ) :: scores,
        rank best ≤ rank (metricsOf E.T costs (.fin r) cases.length (countsOf cases (accepts (.fin r)))) :=
      fun r hr => hleast _ (hcomplete _ (hcandidates hne r hr))
    have hrounded : ∀ r ∈ (1 : ℚ) :: scores, roundTo E.T 6 (.fin r) = .fin r := by
      intro r hr
      rcases List.mem_cons.mp hr with rfl | hr
      · exact round_one hT
      · exact (hsix r hr).round
    have hcosteq : best.totalCost = reportedCost E.T costs best.counts := by
      rw [hbesteq]
      rfl
    -- the returned threshold is a score or one, and accepts what the candidate accepts
    have hown : countsOf cases (accepts selection.selected.threshold) = best.counts := by
      obtain ⟨r, hr, hr1, hqr, hall⟩ := @exists_score ℚ ℚ _ _ id (fun _ _ => Iff.rfl) q 1 hq1 scores
      have hsame : countsOf cases (accepts (.fin r)) = countsOf cases (accepts (.fin q)) := by
        refine countsOf_congr fun c hc => ?_
        rw [accepts_fin, accepts_fin, decide_eq_decide]
        exact (hall c.2 (mem_scoresOf hcases hscores c hc)).symm
      have hcounts : best.counts = countsOf cases (accepts (.fin q)) := by
        rw [hbesteq]
        rfl
      have hle := hcompare r hr
      rw [hsame] at hle
      obtain ⟨p, hp⟩ := rounded_unit hT hq0 hq1
      have hthreshold : best.threshold = .fin p := by
        rw [hbesteq]
        exact hp
      have htotal : (metricsOf E.T costs (.fin r) cases.length (countsOf cases (accepts (.fin q)))).totalCost =
          best.totalCost := by
        rw [hbesteq]
        rfl
      have hnn := (hfine best hmem).1
      obtain ⟨-, htie⟩ := rank_le hnn (by rw [htotal]; exact hnn) hle
      obtain ⟨-, hhigher⟩ := htie (by rw [htotal]; exact hnn.le_self)
      have hrp : r ≤ p := hhigher (by rw [hcounts]; exact le_rfl) p r hthreshold (hrounded r hr)
      have hpr : p ≤ r := by
        have hmono : (roundTo E.T 6 (.fin q)).le (roundTo E.T 6 (.fin r)) = true := roundTo_mono hqr 6
        rw [hp, hrounded r hr, Num.le_fin, decide_eq_true_eq] at hmono
        exact hmono
      rw [hselected, hthreshold, le_antisymm hpr hrp, hsame, hcounts]
    intro t ht0 ht1
    have hone : t ≤ ((1 : ℚ) : ℝ) := by
      rw [Rat.cast_one]
      exact ht1
    obtain ⟨r, hr, -, -, hall⟩ := @exists_score ℚ ℝ _ _ (fun q => (q : ℝ)) (fun _ _ => Rat.cast_le) t 1 hone scores
    have hsame : countsAt cases t = countsOf cases (accepts (.fin r)) := by
      unfold countsAt
      refine countsOf_congr fun c hc => ?_
      rw [accepts_fin]
      exact decide_eq_decide.mpr (hall c.2 (mem_scoresOf hcases hscores c hc))
    obtain ⟨hcost, htie⟩ := rank_le (hfine best hmem).1 (hnonneg _) (hcompare r hr)
    rw [hcosteq] at hcost htie
    rw [hown, hsame]
    exact ⟨hcost, fun hge => (htie hge).1⟩

end Best

/-- **The returned threshold is optimal** on the calibration rows as the costs are reported. -/
theorem calibrate_optimal {E : Env F} (hT : Stable E.T) (htwo : E.T.lit 2 = .fin 2) {bucket : String → ℚ}
    {report : Dict F} {fraction : Num} {costs : Costs} (hcosts : costs.Valid) {result : Report}
    (h : calibrateSufficiencyThreshold E bucket report fraction costs = .ok result) {rows calibration holdout : List (Dict F)}
    (hrows : reportRows E report = .ok rows)
    (hsplit : deterministicStratifiedSplit E bucket rows fraction = .ok (calibration, holdout)) {cases : List Case}
    (hcases : casesOf E calibration = .ok cases) (hcount : ∀ n ≤ cases.length, ∃ q, E.T.lit n = .fin q)
    (hsix : ∀ row ∈ calibration, ∀ q, score E row = .ok (some q) → SixDecimal E.T q) :
    Optimal (reportedCost E.T costs) cases result.threshold := by
  unfold calibrateSufficiencyThreshold at h
  rw [hrows] at h
  obtain ⟨_, hrows', h⟩ := bind_eq_ok.mp h
  cases hrows'
  rw [hsplit] at h
  obtain ⟨_, hsplit', h⟩ := bind_eq_ok.mp h
  cases hsplit'
  dsimp only at h
  obtain ⟨labels, -, h⟩ := bind_eq_ok.mp h
  obtain ⟨_, -, h⟩ := bind_eq_ok.mp h
  obtain ⟨selection, hselection, h⟩ := bind_eq_ok.mp h
  obtain ⟨holdoutMetrics, -, h⟩ := bind_eq_ok.mp h
  obtain ⟨calibrationMetrics, -, h⟩ := bind_eq_ok.mp h
  rw [← Except.ok.inj h]
  obtain ⟨scores, hscores⟩ : ∃ scores, scoresOf E calibration = .ok scores := by
    have hread := hselection
    unfold chooseCostSensitiveThreshold at hread
    obtain ⟨thresholds, hthresholds, -⟩ := bind_eq_ok.mp hread
    unfold candidateThresholds at hthresholds
    obtain ⟨read, hread, -⟩ := bind_eq_ok.mp hthresholds
    exact ⟨read.reduceOption, by rw [scoresOf, hread]; rfl⟩
  refine choose_optimal hT htwo hcosts hcases hscores hcount (fun q hq => ?_) hselection
  obtain ⟨row, hrow, hscore⟩ := scoresOf_mem hscores q hq
  exact hsix row hrow q hscore

/-! ### Two rows -/

section Pair
open ControlPlane.Instance

def pairDict (controlType : String) (q : ℚ) : Dict ℚ :=
  [("control_type", .str controlType), ("retrieval_sufficiency_score", .float q)]

/-- A report of a row to accept and one of a wrong repository. -/
def pairReport (positive wrong : ℚ) : Dict ℚ :=
  [("cases", .arr [.obj (pairDict "positive" positive), .obj (pairDict "wrong_repo" wrong)])]

def pairCases (positive wrong : ℚ) : List Case := [(false, wrong), (true, positive)]

/-- The threshold of two rows. -/
def pairThreshold (positive wrong : ℚ) (costs : Costs) : Option Num :=
  (calibrateSufficiencyThreshold exactPlatform (fun _ => 0) (pairReport positive wrong) (.fin (7 / 10)) costs).toOption.map
    Report.threshold

theorem countsAt_cast (cases : List Case) (q : ℚ) : countsAt cases (q : ℝ) = countsOf cases (accepts (.fin q)) := by
  unfold countsAt
  refine countsOf_congr fun c _ => ?_
  rw [accepts_fin]
  exact decide_eq_decide.mpr Rat.cast_le

theorem not_optimal_of {cost : Counts → Num} {cases : List Case} {threshold : Num} {q : ℚ} (h0 : 0 ≤ q) (h1 : q ≤ 1)
    (h : (cost (countsOf cases (accepts threshold))).le (cost (countsOf cases (accepts (.fin q)))) = false) :
    ¬ Optimal cost cases threshold := by
  intro hoptimal
  have hreal := (hoptimal (q : ℝ) (by exact_mod_cast h0) (by exact_mod_cast h1)).1
  rw [countsAt_cast, h] at hreal
  cases hreal

/-- Scores of seven decimals, and costs too small for six. -/
theorem seven_decimals_lost :
    (pairThreshold (5000004 / 10 ^ 7) (5000003 / 10 ^ 7) ⟨.fin 5, .fin 1⟩ = some (.fin (1 / 2)) ∧
      ¬ Optimal (totalCost rationals ⟨.fin 5, .fin 1⟩) (pairCases (5000004 / 10 ^ 7) (5000003 / 10 ^ 7)) (.fin (1 / 2))) ∧
    pairThreshold (1 / 2) (3 / 5) ⟨.fin (1 / 10 ^ 7), .fin (3 / 10 ^ 7)⟩ = some (.fin 1) ∧
      ¬ Optimal (totalCost rationals ⟨.fin (1 / 10 ^ 7), .fin (3 / 10 ^ 7)⟩) (pairCases (1 / 2) (3 / 5)) (.fin 1) := by
  refine ⟨⟨by decide +kernel, ?_⟩, by decide +kernel, ?_⟩
  · exact @not_optimal_of _ _ _ (5000004 / 10 ^ 7) (by norm_num) (by norm_num) (by decide +kernel)
  · exact @not_optimal_of _ _ _ 0 le_rfl zero_le_one (by decide +kernel)

end Pair

/-- Two rows with scores of one decimal. -/
theorem calibrate_optimal_pair : ∃ result, calibrateSufficiencyThreshold Instance.exactPlatform (fun _ => 0)
    (pairReport (1 / 2) (3 / 5)) (.fin (7 / 10)) ⟨.fin 5, .fin 1⟩ = .ok result ∧
      Optimal (reportedCost rationals ⟨.fin 5, .fin 1⟩) (pairCases (1 / 2) (3 / 5)) result.threshold := by
  have hsix : ∀ q ∈ [(1 / 2 : ℚ), 3 / 5], SixDecimal rationals q := by
    intro q hq
    rcases List.mem_pair.mp hq with rfl | rfl
    · exact ⟨by norm_num, by norm_num, by decide +kernel⟩
    · exact ⟨by norm_num, by norm_num, by decide +kernel⟩
  have hrows : reportRows Instance.exactPlatform (pairReport (1 / 2) (3 / 5)) = .ok
      [pairDict "positive" (1 / 2), pairDict "wrong_repo" (3 / 5)] := rfl
  have hsplit : deterministicStratifiedSplit Instance.exactPlatform (fun _ => 0)
      [pairDict "positive" (1 / 2), pairDict "wrong_repo" (3 / 5)] (.fin (7 / 10)) = .ok
      ([pairDict "wrong_repo" (3 / 5), pairDict "positive" (1 / 2)], []) := by decide +kernel
  have hcases : casesOf Instance.exactPlatform [pairDict "wrong_repo" (3 / 5), pairDict "positive" (1 / 2)] =
      .ok (pairCases (1 / 2) (3 / 5)) := by rfl
  have hok : (calibrateSufficiencyThreshold Instance.exactPlatform (fun _ => 0) (pairReport (1 / 2) (3 / 5))
      (.fin (7 / 10)) ⟨.fin 5, .fin 1⟩).toOption.isSome = true := by decide +kernel
  cases hresult : calibrateSufficiencyThreshold Instance.exactPlatform (fun _ => 0) (pairReport (1 / 2) (3 / 5))
      (.fin (7 / 10)) ⟨.fin 5, .fin 1⟩ with
  | error e =>
    rw [hresult] at hok
    cases hok
  | ok result =>
    refine ⟨result, rfl, calibrate_optimal exact_rationals.stable rfl ⟨⟨5, by norm_num, rfl⟩, ⟨1, zero_le_one, rfl⟩⟩ hresult
      hrows hsplit hcases (fun n _ => ⟨n, rfl⟩) fun row hrow q hq => hsix q ?_⟩
    rcases List.mem_pair.mp hrow with rfl | rfl
    · exact List.mem_pair.mpr (Or.inr (Option.some.inj (Except.ok.inj hq)).symm)
    · exact List.mem_pair.mpr (Or.inl (Option.some.inj (Except.ok.inj hq)).symm)

end ControlPlane.Benchmark.Calibration
