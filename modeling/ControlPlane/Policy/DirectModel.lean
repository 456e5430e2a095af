import ControlPlane.Policy.Estimates

/-! # The direct model

`fitDirectModel` fits what a policy comparison predicts: for a context and an arm the mean of the outcomes seen there,
shrunk to the mean of the arm (`contextMean`), for an arm without such outcomes the mean of the arm, and else the mean
of all. With exact numbers every prediction is an average of the outcomes (`prediction_within`). -/

namespace ControlPlane.Policy.DirectModel

open ControlPlane.Lib.Value ControlPlane.Lib.Floats ControlPlane.Lib.Dynamic ControlPlane.Lib.Rounding
open ControlPlane.Lib.Weights ControlPlane.Lib.Averages ControlPlane.Environment ControlPlane.Instance
open ControlPlane.Deployment.Statistics ControlPlane.Deployment.Evaluation ControlPlane.Benchmark.Statistics
open ControlPlane.Policy.Scores ControlPlane.Policy.Estimates

variable {F : Type} (E : Env F)

/-! ### Observations -/

/-- What a row tells about an arm in a context. -/
structure Observation where
  context : String
  arm : String
  value : Num

/-- The step of the loop of `fit_direct_model`. -/
def observation (fields : List (Json F)) (outcomeField : String) (row : Dict F) : Py (Option Observation) := do
  let value ← outcomeValue E row outcomeField
  let arm ← chosenArm E row
  match value with
  | none => return none
  | some value => if arm = "" then return none else return some ⟨← rowContext E row fields, arm, value⟩

def observations (rows : List (Dict F)) (fields : List (Json F)) (outcomeField : String) : Py (List Observation) := do
  return (← rows.mapM (observation E fields outcomeField)).filterMap id

/-- The values that were seen with an arm. -/
def armValues (obs : List Observation) (arm : String) : List Num :=
  (obs.filter fun o => o.arm == arm).map Observation.value

/-- What was seen in a context. -/
def inContext (obs : List Observation) (context : String) : List Observation :=
  obs.filter fun o => o.context == context

/-! ### The model -/

/-- The mean of an arm in a context, shrunk to the mean of the arm. -/
def contextMean (obs : List Observation) (priorWeight : Num) (context arm : String) : Num :=
  let values := armValues (inContext obs context) arm
  let armPrior := statisticsMean E (armValues obs arm)
  let numerator := E.T.add (total E values) (E.T.mul priorWeight armPrior)
  let denominator := E.T.add (.fin values.length) priorWeight
  E.T.div numerator (pyMax (E.T.lit 1) denominator)

/-- `statistics.mean(global_values) if global_values else 0.0`. -/
def globalMean (obs : List Observation) : Num :=
  if obs.isEmpty then .fin 0 else statisticsMean E (obs.map Observation.value)

/-- The float that a computed number is. -/
def floatOf (special : Num → F) : Num → F
  | .fin q => E.T.ofRat q
  | x => special x

/-- The names of some observations, each once and sorted. -/
def sortedNames (name : Observation → String) (obs : List Observation) : List String :=
  ((obs.map name).eraseDups).insertionSort (· ≤ ·)

/-- A value for each name. -/
def table (names : List String) (value : String → Json F) : Dict F := names.map fun name => (name, value name)

/-- What `fit_direct_model` returns. -/
def modelOf (special : Num → F) (obs : List Observation) (fields : List (Json F)) (outcomeField : String)
    (priorWeight : Num) : Dict F :=
  let float (x : Num) : Json F := .float (floatOf E special x)
  let contexts := sortedNames Observation.context obs
  let armsIn (context : String) := sortedNames Observation.arm (inContext obs context)
  [("outcome_field", .str outcomeField), ("context_fields", .arr fields), ("prior_weight", float priorWeight),
    ("global_mean", float (globalMean E obs)),
    ("arm_means", .obj (table (sortedNames Observation.arm obs) fun arm =>
      float (statisticsMean E (armValues obs arm)))),
    ("context_arm_means", .obj (table contexts fun context => .obj (table (armsIn context) fun arm =>
      float (contextMean E obs priorWeight context arm)))),
    ("context_arm_counts", .obj (table contexts fun context => .obj (table (armsIn context) fun arm =>
      .int (armValues (inContext obs context) arm).length)))]

/-- `special` gives the infinities and the NaN of the platform. -/
def fitDirectModel (special : Num → F) (rows : List (Dict F)) (fields : List (Json F)) (outcomeField : String)
    (priorWeight : Num) : Py (Dict F) := do
  require (!priorWeight.lt (.fin 0)) "prior_weight must be non-negative"
  return modelOf E special (← observations E rows fields outcomeField) fields outcomeField priorWeight

/-! ### Tables -/

theorem lookup_table (value : String → Json F) (name : String) : ∀ names : List String,
    lookup name (table names value) = if name ∈ names then some (value name) else none
  | [] => rfl
  | other :: names => by
    have ih := lookup_table value name names
    rw [table] at ih ⊢
    rw [List.map_cons, lookup_cons, ih]
    by_cases h : other = name
    · subst h
      simp
    · have hne : ¬ name = other := fun heq => h heq.symm
      simp [h, hne]

theorem mem_sortedNames {name : Observation → String} {obs : List Observation} {text : String} :
    text ∈ sortedNames name obs ↔ ∃ o ∈ obs, name o = text := by
  unfold sortedNames
  rw [List.mem_insertionSort, List.mem_eraseDups, List.mem_map]

theorem mem_arms_iff {obs : List Observation} {arm : String} :
    arm ∈ sortedNames Observation.arm obs ↔ obs.filter (fun o => o.arm == arm) ≠ [] := by
  rw [mem_sortedNames, Ne, List.filter_eq_nil_iff]
  push Not
  simp only [beq_iff_eq]

/-! ### Predictions -/

section Exact
variable {E} (hT : Exact E.T)

/-- The outcomes of some observations as rationals. -/
def outcomes (obs : List Observation) : List ℚ := obs.map fun o => ratOf o.value

theorem finite_observations (hT : Exact E.T) {rows : List (Dict F)} {fields : List (Json F)} {field : String}
    {obs : List Observation} (h : observations E rows fields field = .ok obs) :
    ∀ o ∈ obs, ∃ q, o.value = .fin q := by
  obtain ⟨found, hfound, h⟩ := bind_eq_ok.mp h
  cases h
  intro o ho
  obtain ⟨o', ho', hid⟩ := List.mem_filterMap.mp ho
  obtain ⟨row, -, hrow⟩ := mem_mapM hfound o' ho'
  rw [show o' = some o from hid] at hrow
  obtain ⟨value, hvalue⟩ := numberIn_exact hT (objOf? row "outcome") field
  unfold observation at hrow
  rw [outcomeValue, hvalue] at hrow
  obtain ⟨_, hok, hrow⟩ := bind_eq_ok.mp hrow
  cases hok
  obtain ⟨arm, -, hrow⟩ := bind_eq_ok.mp hrow
  cases value with
  | none => cases hrow
  | some q =>
    simp only [Option.map_some] at hrow
    split_ifs at hrow
    · cases hrow
    · obtain ⟨context, -, hrow⟩ := bind_eq_ok.mp hrow
      cases hrow
      exact ⟨q, rfl⟩

variable {obs : List Observation} (hfin : ∀ o ∈ obs, ∃ q, o.value = .fin q)

/-- The mean of some of the outcomes. -/
theorem mean_within (hT : Exact E.T) (hfin : ∀ o ∈ obs, ∃ q, o.value = .fin q) (hne : obs ≠ []) :
    ∃ q, statisticsMean E (obs.map Observation.value) = .fin q ∧ Between (outcomes obs) q := by
  have hall : (obs.map Observation.value).all isFinite = true := by
    rw [List.all_map, List.all_eq_true]
    intro o ho
    obtain ⟨q, hq⟩ := hfin o ho
    rw [Function.comp_apply, hq]
    rfl
  have hvalues : (obs.map Observation.value).map ratOf = outcomes obs := by
    rw [List.map_map]
    rfl
  have hne' : outcomes obs ≠ [] := fun h => hne (List.map_eq_nil_iff.mp h)
  refine ⟨(outcomes obs).sum / (outcomes obs).length, ?_, between_mean hne'⟩
  unfold statisticsMean
  rw [if_pos hall, hT, hvalues, List.length_map, outcomes, List.length_map]

theorem outcomes_subset {obs' : List Observation} (h : obs' ⊆ obs) : outcomes obs' ⊆ outcomes obs :=
  List.map_subset _ h

/-- **The mean of an arm in a context is an average of the outcomes of the arm.** -/
theorem contextMean_within (hT : Exact E.T) (hfin : ∀ o ∈ obs, ∃ q, o.value = .fin q) {w : ℚ} (hw : 0 ≤ w)
    {context arm : String} (hne : (inContext obs context).filter (fun o => o.arm == arm) ≠ []) :
    ∃ q, contextMean E obs (.fin w) context arm = .fin q ∧ Between (outcomes obs) q := by
  have harms : obs.filter (fun o => o.arm == arm) ⊆ obs := fun _ ho => (List.mem_filter.mp ho).1
  have hseen : (inContext obs context).filter (fun o => o.arm == arm) ⊆ obs.filter fun o => o.arm == arm := by
    intro o ho
    obtain ⟨hcontext, harm⟩ := List.mem_filter.mp ho
    exact List.mem_filter.mpr ⟨(List.mem_filter.mp hcontext).1, harm⟩
  have hne' : obs.filter (fun o => o.arm == arm) ≠ [] := fun h => hne (List.subset_nil.mp (h ▸ hseen))
  obtain ⟨prior, hprior, hbetween⟩ := mean_within hT (fun o ho => hfin o (harms ho)) hne'
  have hvalues : armValues (inContext obs context) arm =
      (outcomes ((inContext obs context).filter fun o => o.arm == arm)).map Num.fin := by
    unfold armValues outcomes
    rw [List.map_map]
    refine List.map_congr_left fun o ho => ?_
    obtain ⟨q, hq⟩ := hfin o (harms (hseen ho))
    rw [Function.comp_apply, hq]
    rfl
  generalize (inContext obs context).filter (fun o => o.arm == arm) = seen at hne hseen hvalues
  have hne'' : outcomes seen ≠ [] := fun h => hne (List.map_eq_nil_iff.mp h)
  have hlen : (1 : ℚ) ≤ (outcomes seen).length := by
    exact_mod_cast Nat.one_le_iff_ne_zero.mpr (List.length_pos_iff.mpr hne'').ne'
  refine ⟨((outcomes seen).sum + w * prior) / ((outcomes seen).length + w), ?_,
    (between_shrunk hne'' hw prior).trans fun y hy => ?_⟩
  · unfold contextMean
    dsimp only
    rw [hvalues, armValues, hprior, total_exact hT, exact_mul hT, exact_add hT, exact_add hT, hT 1, pyMax_fin,
      FloatSys.div, hT, List.length_map, max_eq_right (by linarith)]
  · rcases List.mem_cons.mp hy with rfl | hy
    · exact hbetween.mono (outcomes_subset harms)
    · have hmem := outcomes_subset (List.Subset.trans hseen harms) hy
      exact ⟨⟨y, hmem, le_rfl⟩, ⟨y, hmem, le_rfl⟩⟩

theorem globalMean_within (hT : Exact E.T) (hfin : ∀ o ∈ obs, ∃ q, o.value = .fin q) :
    ∃ q, globalMean E obs = .fin q ∧ (Between (outcomes obs) q ∨ obs = [] ∧ q = 0) := by
  unfold globalMean
  by_cases hempty : obs = []
  · rw [if_pos (List.isEmpty_iff.mpr hempty)]
    exact ⟨0, rfl, Or.inr ⟨hempty, rfl⟩⟩
  · rw [if_neg fun h => hempty (List.isEmpty_iff.mp h)]
    obtain ⟨q, hq, hbetween⟩ := mean_within hT hfin hempty
    exact ⟨q, hq, Or.inl hbetween⟩

/-- What is read back from a float of the model. -/
theorem numberOf_floatOf (hT : Exact E.T) (special : Num → F) (q : ℚ) :
    numberOf E (.float (floatOf E special (.fin q))) = .ok (some (.fin q)) := by
  have hview : E.T.view (E.T.ofRat q) = .fin q := hT q
  have hfinite : E.T.finite (E.T.ofRat q) = true := (E.T.finite_iff _).mpr ⟨q, hview⟩
  unfold numberOf Deployment.Guardrails.finiteNumber? floatOf
  simp only [Env.number?, bind, Except.bind, pure, Except.pure, hfinite, if_true, Option.map_some, hview]

/-- The entry of a table. -/
theorem getKey_table (value : String → Json F) (names : List String) (name : String) :
    getKey (table names value) name = if name ∈ names then value name else .null := by
  unfold getKey
  rw [lookup_table]
  by_cases h : name ∈ names
  · rw [if_pos h, if_pos h]
    rfl
  · rw [if_neg h, if_neg h]
    rfl

section Reads
variable {special : Num → F} {fields : List (Json F)} {field : String} {priorWeight : Num} {context arm : String}

/-- What a prediction reads first. -/
theorem direct_of_modelOf (hT : Exact E.T) (hfin : ∀ o ∈ obs, ∃ q, o.value = .fin q) {w : ℚ} (hw : 0 ≤ w) :
    numberIn E ((objOf? (modelOf E special obs fields field (.fin w)) "context_arm_means").bind
        fun d => objOf? d context) arm =
      .ok (if (inContext obs context).filter (fun o => o.arm == arm) = [] then none
        else some (contextMean E obs (.fin w) context arm)) := by
  have hread : objOf? (modelOf E special obs fields field (.fin w)) "context_arm_means" =
      some (table (sortedNames Observation.context obs) fun context =>
        .obj (table (sortedNames Observation.arm (inContext obs context)) fun arm =>
          .float (floatOf E special (contextMean E obs (.fin w) context arm)))) := rfl
  rw [hread, Option.bind_some, objOf?, getKey_table]
  by_cases hseen : (inContext obs context).filter (fun o => o.arm == arm) = []
  · rw [if_pos hseen]
    have hnot : arm ∉ sortedNames Observation.arm (inContext obs context) := fun h => mem_arms_iff.mp h hseen
    split_ifs
    · show numberOf E (getKey _ arm) = _
      rw [getKey_table, if_neg hnot]
      rfl
    · rfl
  · rw [if_neg hseen]
    obtain ⟨o, ho⟩ := List.exists_mem_of_ne_nil _ hseen
    obtain ⟨hmem, hname⟩ := List.mem_filter.mp (List.mem_filter.mp ho).1
    obtain ⟨q, hq, -⟩ := contextMean_within hT hfin hw hseen
    rw [if_pos (mem_sortedNames.mpr ⟨o, hmem, beq_iff_eq.mp hname⟩)]
    show numberOf E (getKey _ arm) = _
    rw [getKey_table, if_pos (mem_arms_iff.mpr hseen), hq,
      numberOf_floatOf hT special]

/-- What it reads next. -/
theorem arm_of_modelOf (hT : Exact E.T) (hfin : ∀ o ∈ obs, ∃ q, o.value = .fin q) :
    numberIn E (objOf? (modelOf E special obs fields field priorWeight) "arm_means") arm =
      .ok (if obs.filter (fun o => o.arm == arm) = [] then none
        else some (statisticsMean E (armValues obs arm))) := by
  have hread : objOf? (modelOf E special obs fields field priorWeight) "arm_means" =
      some (table (sortedNames Observation.arm obs) fun arm =>
        .float (floatOf E special (statisticsMean E (armValues obs arm)))) := rfl
  rw [hread, numberIn, getKey_table]
  by_cases hseen : obs.filter (fun o => o.arm == arm) = []
  · rw [if_pos hseen, if_neg fun h => mem_arms_iff.mp h hseen]
    rfl
  · obtain ⟨q, hq, -⟩ := mean_within hT (fun o ho => hfin o (List.mem_filter.mp ho).1) hseen
    rw [if_neg hseen, if_pos (mem_arms_iff.mpr hseen), armValues, hq,
      numberOf_floatOf hT special]

end Reads

/-- **A fitted model predicts averages of the outcomes.** -/
theorem prediction_within (hT : Exact E.T) {special : Num → F} {rows : List (Dict F)} {fields : List (Json F)}
    {field : String} {w : ℚ} {model : Dict F}
    (hfit : fitDirectModel E special rows fields field (.fin w) = .ok model) :
    ∃ obs, observations E rows fields field = .ok obs ∧ ∀ context arm, ∃ q,
      predictModelValue E model context arm = .ok (.fin q) ∧
        (Between (outcomes obs) q ∨ obs = [] ∧ q = 0) := by
  unfold fitDirectModel at hfit
  obtain ⟨_, hprior, hfit⟩ := bind_eq_ok.mp hfit
  obtain ⟨obs, hobs, hfit⟩ := bind_eq_ok.mp hfit
  rw [require_eq_ok, Num.lt_fin, Bool.not_eq_true', decide_eq_false_iff_not, not_lt] at hprior
  have hfin := finite_observations hT hobs
  refine ⟨obs, hobs, fun context arm => ?_⟩
  cases hfit
  unfold predictModelValue
  rw [direct_of_modelOf hT hfin hprior, arm_of_modelOf hT hfin]
  by_cases hseen : (inContext obs context).filter (fun o => o.arm == arm) = []
  · rw [if_pos hseen]
    by_cases harm : obs.filter (fun o => o.arm == arm) = []
    · obtain ⟨q, hq, hwithin⟩ := globalMean_within hT hfin
      refine ⟨q, ?_, hwithin⟩
      have hread : numberOf E (getKey (modelOf E special obs fields field (.fin w)) "global_mean") =
          numberOf E (.float (floatOf E special (globalMean E obs))) := rfl
      rw [if_pos harm, hread, hq, numberOf_floatOf hT special]
      rfl
    · obtain ⟨q, hq, hbetween⟩ := mean_within hT (fun o ho => hfin o (List.mem_filter.mp ho).1) harm
      refine ⟨q, ?_, Or.inl (hbetween.mono (outcomes_subset fun _ ho => (List.mem_filter.mp ho).1))⟩
      rw [if_neg harm, armValues, hq]
      rfl
  · obtain ⟨q, hq, hbetween⟩ := contextMean_within hT hfin hprior hseen
    refine ⟨q, ?_, Or.inl hbetween⟩
    rw [if_neg hseen, hq]
    rfl

end Exact

/-! ### The estimators -/

/-- **Off-policy estimators stay within their data**: the estimates of verified rows, whose order does not matter,
and the predictions of a fitted model. -/
theorem estimators_within (hT : Exact E.T) :
    (∀ rows targetArm, (∀ row ∈ rows, isVerified E row = .ok true) → ∃ e, rawEstimate E rows targetArm = .ok e ∧
      Within E (rows.filter (matchesTarget E targetArm)) e ∧
      ∀ rows' : List (Dict F), rows'.Perm rows → rawEstimate E rows' targetArm = .ok e) ∧
    ∀ special rows fields field w model, fitDirectModel E special rows fields field (.fin w) = .ok model →
      ∃ obs, observations E rows fields field = .ok obs ∧ ∀ context arm, ∃ q,
        predictModelValue E model context arm = .ok (.fin q) ∧
          (Between (outcomes obs) q ∨ obs = [] ∧ q = 0) :=
  ⟨fun _ targetArm hrows => estimates_within hT hrows targetArm, fun _ _ _ _ _ _ hfit => prediction_within hT hfit⟩

/-- The rows and the model are read on the platform with exact numbers. -/
theorem estimators_within_exact :
    (∀ rows targetArm, (∀ row ∈ rows, isVerified exactPlatform row = .ok true) →
      ∃ e, rawEstimate exactPlatform rows targetArm = .ok e ∧
        Within exactPlatform (rows.filter (matchesTarget exactPlatform targetArm)) e ∧
        ∀ rows' : List (Dict ℚ), rows'.Perm rows → rawEstimate exactPlatform rows' targetArm = .ok e) ∧
    ∀ special rows fields field w model,
      fitDirectModel exactPlatform special rows fields field (.fin w) = .ok model →
      ∃ obs, observations exactPlatform rows fields field = .ok obs ∧ ∀ context arm, ∃ q,
        predictModelValue exactPlatform model context arm = .ok (.fin q) ∧
          (Between (outcomes obs) q ∨ obs = [] ∧ q = 0) :=
  estimators_within exactPlatform exact_rationals

end ControlPlane.Policy.DirectModel
