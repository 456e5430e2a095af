import ControlPlane.Deployment.Serving
import ControlPlane.Deployment.Runs

/-! # Evaluated and deployed policies

A deployed policy is looked up at run time, and again when its logged decisions are evaluated: by the
shadow evaluation (`desiredManifestAction`) and by the doubly robust one (`targetActionForRow`). The row
of a request `Agrees` with the policy that served it if all three find the same key and the same arm.

`agrees_iff`: this is so if and only if the number of selected workspace roots falls into the same
bucket as the number of all roots, where the policy distinguishes them, and the arm of the context is
written without white space around it, unless it is the baseline. -/

namespace ControlPlane.Deployment.Evaluation

open ControlPlane.Lib.Value ControlPlane.Lib.Text ControlPlane.Lib.Floats ControlPlane.Lib.Dynamic
open ControlPlane.Lib.Grid ControlPlane.Environment ControlPlane.Instance
open ControlPlane.Learning.Features ControlPlane.Learning.Decision ControlPlane.Learning.Records
open ControlPlane.Deployment.Stages ControlPlane.Deployment.Manifest ControlPlane.Deployment.Reread
open ControlPlane.Deployment.State ControlPlane.Deployment.Guardrails ControlPlane.Deployment.ContextKeys
open ControlPlane.Deployment.Runtime ControlPlane.Deployment.Serving ControlPlane.Deployment.Refinement
open ControlPlane.Deployment.Runs

variable {F : Type} (E : Env F)

/-! ### Evaluating a row -/

/-- The row records a positive probability of the arm. -/
def supports (row : Dict F) (arm : String) : Py Bool :=
  match getKey row "arm_propensities" with
  | .obj propensities => do
    match ← finiteNumber? E (getKey propensities arm) with
    | some x => return (Num.fin 0).lt (E.T.view x)
    | none => return false
  | _ => .ok false

def desiredManifestAction (row manifest : Dict F) : Py String := do
  let risk ← E.strOr row "risk" ""
  if E.lower risk ≠ "low" then return baselineArm
  match getKey manifest "context_fields", getKey manifest "policy", getKey row "context_features" with
  | .arr raw, .obj policy, .obj features => do
    let key ← fieldsKey E (.obj features) raw
    let arm ← E.strOr policy key baselineArm
    return if safeExplorationArms.contains arm then arm else baselineArm
  | _, _, _ => return baselineArm

/-- The policy of a manifest as the doubly robust evaluation gets it. -/
def policyTexts (policy : Dict F) : Py (List (String × String)) :=
  policy.mapM fun p => do return (p.1, ← E.str p.2)

def rowContext (row : Dict F) (fields : List (Json F)) : Py String :=
  match getKey row "context_features" with
  | .obj features => contextKey E (.obj features) fields
  | _ => .error (.valueError "learning row is missing context features")

def targetActionForRow (row : Dict F) (policy : List (String × String)) (fields : List (Json F)) :
    Py String := do
  let risk ← E.strOr row "risk" ""
  if E.lower risk ≠ "low" then return baselineArm
  let key ← rowContext E row fields
  let requested := (policy.lookup key).getD baselineArm
  let supported ← supports E row requested
  return if supported then requested else baselineArm

/-- The doubly robust target of a row under a manifest. -/
def evaluatedAction (row : Dict F) (raw : List (Json F)) (policy : Dict F) : Py String := do
  let texts ← policyTexts E policy
  let fields ← raw.mapM E.str
  targetActionForRow E row texts (fields.map .str)

/-- The key and the arm of a request are those that both evaluations find in a row. -/
structure Agrees (manifest row : Dict F) (target : String) (key : Option String) : Prop where
  rowKey : ∀ raw, getKey manifest "context_fields" = .arr raw →
    ∃ k, key = some k ∧ fieldsKey E (getKey row "context_features") raw = .ok k
  logged : ∀ deployment, getKey row "deployment" = .obj deployment →
    ∀ v, lookup "context_key" deployment = some v → v = keyValue key
  shadow : desiredManifestAction E row manifest = .ok target
  doublyRobust : ∀ raw policy, getKey manifest "context_fields" = .arr raw →
    getKey manifest "policy" = .obj policy → supports E row target = .ok true →
      evaluatedAction E row raw policy = .ok target

/-! ### The rows of a request -/

variable {E}

/-- The row of a logged decision: everything but its observation and outcome is the decision. -/
theorem lookup_row {file : String × String} {d : LearningDecision F} (h : Logs E file d)
    (notes : Notes F) {k : String} (h1 : k ≠ "observation") (h2 : k ≠ "outcome") :
    lookup k (rowOf notes file.1 (.obj (content E file.2))) = (lookup k d.toDict).map sortKeys := by
  rw [rowOf, content_eq E h.text, lookup_setKey_ne h2.symm, lookup_setKey_ne h1.symm,
    lookup_sortDict nodup_toDict]

theorem getKey_row {file : String × String} {d : LearningDecision F} (h : Logs E file d)
    (notes : Notes F) {k : String} (h1 : k ≠ "observation") (h2 : k ≠ "outcome") :
    getKey (rowOf notes file.1 (.obj (content E file.2))) k = sortKeys (getKey d.toDict k) := by
  rw [getKey, lookup_row h notes h1 h2, getKey]
  cases lookup k (d.toDict : Dict F) <;> rfl

/-- The parts of a decision that the evaluations read. -/
structure Carries (d : LearningDecision F) (r : Request) (n : ℤ) (section_ : Dict F) : Prop where
  features : d.contextFeatures = r.features n
  risk : d.risk = r.decision.risk.value
  arms : ∀ p ∈ d.armPropensities, p.1 ∈ safeExplorationArms
  deployment : ∀ e, d.deployment = some e → ∀ v, lookup "context_key" e = some v →
    lookup "context_key" section_ = some v

theorem baseline_safe : baselineArm ∈ safeExplorationArms := by decide

theorem keys_parsePropensities : ∀ {raw acc parsed : Dict F},
    (∀ p ∈ acc, p.1 ∈ safeExplorationArms) → parsePropensities E raw acc = .ok (some parsed) →
    ∀ p ∈ parsed, p.1 ∈ safeExplorationArms
  | [], acc, parsed, hacc, h => by
    cases h
    exact hacc
  | (arm, p) :: raw, acc, parsed, hacc, h => by
    rw [parsePropensities] at h
    split_ifs at h with ha
    · cases h
    obtain ⟨x, hx, h⟩ := bind_eq_ok.mp h
    cases x with
    | none => cases h
    | some x =>
      simp only at h
      split_ifs at h
      · refine keys_parsePropensities (fun q hq => ?_) h
        rcases mem_setKey hq with rfl | hq
        · simpa using ha
        · exact hacc q hq
      · cases h

theorem arms_of_valid {assignment parsed : Dict F} {arm risk : String}
    (h : validAssignment E assignment arm risk = .ok (some parsed)) :
    ∀ p ∈ parsed, p.1 ∈ safeExplorationArms := by
  unfold validAssignment at h
  split_ifs at h
  · cases h
  split at h
  · obtain ⟨q, hq, h⟩ := bind_eq_ok.mp h
    cases q with
    | none => cases h
    | some q =>
      simp only [pure, Except.pure, Except.ok.injEq] at h
      split_ifs at h
      cases h
      exact keys_parsePropensities (by simp) hq
  · cases h

/-- A decision made from an assignment records its deployment section, or none of its keys. -/
theorem carries_choose {r : Request} {config a : Dict F} {n : ℤ} {g : Draws F}
    {d : LearningDecision F} (h : chooseLearningDecision E r config n (some a) g = .ok d) :
    Carries d r n (sectionOfAssignment a) := by
  unfold chooseLearningDecision at h
  simp only [bind_eq_ok] at h
  obtain ⟨mode, -, epsilon, -, arms, -, choice, hc, h⟩ := h
  cases h
  have harms : ∀ c : Choice F, (∀ p ∈ c.propensities, p.1 ∈ safeExplorationArms) →
      ∀ p ∈ (decisionOf E r n g c).armPropensities, p.1 ∈ safeExplorationArms := by
    intro c hc p hp
    obtain ⟨q, hq, rfl⟩ := List.mem_map.mp hp
    exact hc q hq
  unfold choose chooseAssigned at hc
  simp only [bind_eq_ok] at hc
  obtain ⟨arm, -, o, ho, hc⟩ := hc
  cases o with
  | none =>
    cases hc
    refine ⟨rfl, rfl, harms _ ?_, ?_⟩
    · intro p hp
      rw [List.mem_singleton.mp hp]
      exact baseline_safe
    · intro e he v hv
      cases he
      simp [lookup] at hv
  | some parsed =>
    simp only [bind_eq_ok, pure, Except.pure, Except.ok.injEq] at hc
    obtain ⟨mode, -, reason, -, epsilon, -, id, -, rfl⟩ := hc
    refine ⟨rfl, rfl, harms _ (arms_of_valid ho), ?_⟩
    intro e he v hv
    cases he
    exact hv

theorem carries_fallback {r : Request} {n : ℤ} {d : LearningDecision F} {section_ : Dict F}
    (h : Carries d r n section_) (reason id now : String) :
    Carries (baselineFallback E d reason id now) r n section_ := by
  refine ⟨h.features, h.risk, ?_, ?_⟩
  · intro p hp
    rw [List.mem_singleton.mp hp]
    exact baseline_safe
  · intro e he v hv
    obtain ⟨e', he', rfl⟩ := Option.map_eq_some_iff.mp he
    refine h.deployment e' he' v ?_
    rwa [lookup_setKey_ne (by decide), lookup_setKey_ne (by decide), lookup_setKey_ne (by decide),
      lookup_setKey_ne (by decide)] at hv

/-- A new file in the log of a request that looked up its context. -/
theorem file_of_serve {s : Site F} {log log' : Log} {r : Request} {roots : Roots} {c : Conditions F}
    {g : Draws F} {w : Writes} {served : LearningDecision F} {after : Option String}
    {state : Dict F} (hlook : LooksUp E s log c state)
    (h : serve E s log r roots c g w = .ok (served, log', after)) {file : String × String}
    (hnew : file ∈ log') (hold : file ∉ log) :
    ∃ a d, resolveRuntimeDeployment E s log r roots.selected.length c = .ok (some a, c.stateFile) ∧
      resolveLive E state r roots.selected.length c.bucket = .ok a ∧ Logs E file d ∧ Proper d ∧
      Carries d r roots.all.length (sectionOfAssignment a) := by
  unfold serve at h
  obtain ⟨⟨assignment, stateFile⟩, hres, h⟩ := bind_eq_ok.mp h
  obtain ⟨⟨decision, log₁⟩, hprep, h⟩ := bind_eq_ok.mp h
  cases h
  have hwf := wellFormed_resolve hres
  have hres' := hres
  rw [resolve_looksUp hlook] at hres
  cases hlive : resolveLive E state r roots.selected.length c.bucket with
  | error e =>
    rw [hlive] at hres
    cases hres
  | ok a =>
    rw [hlive] at hres
    cases hres
    obtain ⟨selected, first, second, hs, rfl, hf, hse⟩ := prepare_eq_ok hwf hprep
    have hrec := carries_choose hs
    have hprop := proper_choose hwf hs
    rcases List.mem_append.mp hnew with hmem | hmem
    · rcases List.mem_append.mp hmem with hmem | hmem
      · exact absurd hmem hold
      · rcases hf with rfl | ⟨file', rfl, -, hl⟩
        · cases hmem
        · obtain rfl := List.mem_singleton.mp hmem
          exact ⟨a, selected, hres', rfl, hl, hprop, hrec⟩
    · rcases hse with rfl | ⟨file', rfl, -, hl⟩
      · cases hmem
      · obtain rfl := List.mem_singleton.mp hmem
        exact ⟨a, _, hres', rfl, hl, proper_fallback hprop _ _ _, carries_fallback hrec _ _ _⟩

/-! ### What the evaluations find -/

theorem lookup_policyTexts {policy : Dict F} (hsafe : ∀ p ∈ policy, SafeEntry E p) (key : String) : ∃ texts, policyTexts E policy = .ok texts ∧
    (texts.lookup key).getD baselineArm = policyArm E policy key := by
  have h : ∀ d : Dict F, (∀ p ∈ d, SafeEntry E p) → ∃ texts, policyTexts E d = .ok texts ∧
      texts.lookup key = (lookup key d).map (strText E.T E.isPrintable) := by
    intro d hd
    induction d with
    | nil => exact ⟨[], rfl, rfl⟩
    | cons p d ih =>
      obtain ⟨texts, ht, hl⟩ := ih fun q hq => hd q (List.mem_cons_of_mem _ hq)
      have hp : E.str p.2 = .ok (strText E.T E.isPrintable p.2) :=
        (str_eq_ok E).mpr ⟨(hd p (List.mem_cons_self ..)).printed, rfl⟩
      refine ⟨(p.1, strText E.T E.isPrintable p.2) :: texts, ?_, ?_⟩
      · unfold policyTexts at ht ⊢
        rw [List.mapM_cons, hp, ht]
        rfl
      · obtain ⟨k, v⟩ := p
        rw [List.lookup_cons, lookup_cons, hl]
        by_cases hk : k = key
        · simp [hk]
        · have hk' : (key == k) = false := beq_eq_false_iff_ne.mpr (Ne.symm hk)
          simp [hk, hk']
  obtain ⟨texts, ht, hl⟩ := h policy hsafe
  refine ⟨texts, ht, ?_⟩
  rw [hl, policyArm]
  cases lookup key policy <;> rfl

variable (E) in
/-- What the evaluations read in a row of a low-risk request. -/
structure LowRow (row : Dict F) (f : RetrievalContextFeatures) : Prop where
  risk : ∃ text, E.strOr row "risk" "" = .ok text ∧ E.lower text = "low"
  features : ∃ features, getKey row "context_features" = .obj features ∧ HasFeatures features f
  plain : ∀ s ∈ texts f, PlainText s
  arms : ∀ arm ∉ safeExplorationArms, supports E row arm = .ok false

theorem lowRow {file : String × String} {d : LearningDecision F} (hl : Logs E file d) {r : Request}
    {n : ℤ} {dep : Dict F} (hrec : Carries d r n dep) (hr : r.decision.risk = .low)
    (notes : Notes F) :
    LowRow E (rowOf notes file.1 (.obj (content E file.2))) (r.features n) := by
  refine ⟨⟨"low", ?_, ?_⟩, ⟨_, ?_, hasFeatures_sortDict (r.features n)⟩, plain_features r n, ?_⟩
  · have hrisk : lookup "risk" (d.toDict : Dict F) = some (.str d.risk) := rfl
    rw [Env.strOr, lookup_row hl notes (by decide) (by decide), hrisk, hrec.risk, hr]
    rfl
  · exact E.lower_small "low" (by decide)
  · have hf : getKey (d.toDict : Dict F) "context_features" = .obj d.contextFeatures.toDict := rfl
    rw [getKey_row hl notes (by decide) (by decide), hf, hrec.features, sortKeys_obj']
  · intro arm harm
    have hp : getKey (d.toDict : Dict F) "arm_propensities" = .obj d.armPropensities := rfl
    have hno : ∀ p ∈ sortDict d.armPropensities, p.1 ≠ arm := by
      rintro p hmem rfl
      obtain ⟨q, hq, rfl⟩ := List.mem_map.mp ((perm_sortPairs _).mem_iff.mp hmem)
      exact harm (hrec.arms q hq)
    have hnone : lookup arm (sortDict d.armPropensities) = none := by
      rw [lookup_eq_none]
      intro hk
      obtain ⟨p, hp, he⟩ := List.mem_map.mp hk
      exact hno p hp he
    unfold supports
    rw [getKey_row hl notes (by decide) (by decide), hp, sortKeys_obj']
    simp only [getKey, hnone]
    rfl

section Actions
variable {row manifest policy : Dict F} {f : RetrievalContextFeatures} (hrow : LowRow E row f)
  {raw : List (Json F)} {fields : List String} (hsafe : ∀ p ∈ policy, SafeEntry E p)
  (hv : validateContextFields E raw = .ok fields)
include hrow hsafe hv

/-- The shadow evaluation takes the text of the policy if it names an arm. -/
theorem desired_eq (hraw : getKey manifest "context_fields" = .arr raw)
    (hpol : getKey manifest "policy" = .obj policy) : desiredManifestAction E row manifest =
      .ok (if policyArm E policy (contextText E f fields) ∈ safeExplorationArms
        then policyArm E policy (contextText E f fields) else baselineArm) := by
  obtain ⟨risk, hrisk, hlow⟩ := hrow.risk
  obtain ⟨features, hfeat, hhas⟩ := hrow.features
  have hk := fieldsKey_plain E hhas hrow.plain hv
  unfold desiredManifestAction
  simp only [hrisk, hlow, hraw, hpol, hfeat, hk, bind, Except.bind, strOr_policy hsafe, ne_eq,
    not_true_eq_false, if_false, List.contains_eq_mem, decide_eq_true_eq]
  rfl

/-- The doubly robust evaluation takes it if the row supports it. -/
theorem evaluated_eq : evaluatedAction E row raw policy = (do
    let supported ← supports E row (policyArm E policy (contextText E f fields))
    return if supported then policyArm E policy (contextText E f fields) else baselineArm) := by
  obtain ⟨risk, hrisk, hlow⟩ := hrow.risk
  obtain ⟨features, hfeat, hhas⟩ := hrow.features
  have hm : raw.mapM E.str = .ok (raw.map (strText E.T E.isPrintable)) :=
    (mapM_str_eq_ok E).mpr ⟨((validateContextFields_eq_ok E).mp hv).1, rfl⟩
  have hk := contextKey_plain E hhas hrow.plain ((validate_texts E hm).trans hv)
  obtain ⟨texts, ht, hl⟩ := lookup_policyTexts hsafe (contextText E f fields)
  unfold evaluatedAction targetActionForRow rowContext
  simp only [ht, hm, hrisk, hlow, hfeat, hk, hl, bind, Except.bind, ne_eq, not_true_eq_false, if_false]

end Actions

/-- A manifest without a list of fields has no arm for any row. -/
theorem desired_none {row manifest : Dict F} {f : RetrievalContextFeatures} (hrow : LowRow E row f)
    (hraw : ∀ raw, getKey manifest "context_fields" ≠ .arr raw) :
    desiredManifestAction E row manifest = .ok baselineArm := by
  obtain ⟨risk, hrisk, hlow⟩ := hrow.risk
  unfold desiredManifestAction
  simp only [hrisk, hlow, bind, Except.bind, ne_eq, not_true_eq_false, if_false]
  split
  · next raw _ _ h _ _ => exact absurd h (hraw raw)
  · rfl

/-- The key in the section of a row is the key that was computed. -/
theorem logged_key {file : String × String} {d : LearningDecision F} (hl : Logs E file d)
    (hp : Proper d) {r : Request} {n : ℤ} {dep : Dict F} (hrec : Carries d r n dep)
    {key : Option String} (hkey : getKey dep "context_key" = keyValue key) (notes : Notes F)
    {deployment : Dict F}
    (hd : getKey (rowOf notes file.1 (.obj (content E file.2))) "deployment" = .obj deployment)
    {v : Json F} (hv : lookup "context_key" deployment = some v) : v = keyValue key := by
  rw [getKey_row hl notes (by decide) (by decide), getKey_deployment] at hd
  cases he : d.deployment with
  | none =>
    rw [he] at hd
    cases hd
  | some e =>
    rw [he] at hd
    have hn := ((wellFormed_obj e).mp (hp.deployment e he)).1
    rw [Option.map_some, Option.getD_some, sortKeys_obj', Json.obj.injEq] at hd
    rw [← hd, lookup_sortDict hn] at hv
    obtain ⟨u, hu, rfl⟩ := Option.map_eq_some_iff.mp hv
    have hsec := hrec.deployment e he u hu
    rw [getKey, hsec, Option.getD_some] at hkey
    rw [hkey]
    cases key <;> rfl

theorem strip_safe : ∀ arm ∈ safeExplorationArms, strip arm = arm := by decide

/-! ### When the evaluations agree -/

/-- The number of selected roots falls into the bucket of the number of all roots, if the manifest has
the bucket among its context fields. -/
def SameBucket (E : Env F) (manifest : Dict F) (roots : Roots) : Prop :=
  ∀ raw, getKey manifest "context_fields" = .arr raw →
    workspaceBucket roots.selected.length = workspaceBucket roots.all.length ∨
      "workspace_roots_bucket" ∉ raw.map (stripText E)

/-- The text of the policy for the context has no white space around it, unless it is the baseline. -/
def PlainArm (E : Env F) (manifest : Dict F) (f : RetrievalContextFeatures) : Prop :=
  ∀ raw policy key v, getKey manifest "context_fields" = .arr raw →
    getKey manifest "policy" = .obj policy → fieldsKey E (.obj f.toDict) raw = .ok key →
      lookup key policy = some v → stripText E v = strText E.T E.isPrintable v ∨
        stripText E v = baselineArm

/-- The key and the arm that the resolution of a request computes, as its assignment records them. -/
def Computes (E : Env F) (s : Site F) (log : Log) (r : Request) (n : ℤ) (c : Conditions F)
    (target : String) (key : Option String) : Prop :=
  ∃ a after, resolveRuntimeDeployment E s log r n c = .ok (some a, after) ∧
    getKey (sectionOfAssignment a) "target_arm" = .str target ∧
    getKey (sectionOfAssignment a) "context_key" = keyValue key

theorem keyValue_injective : Function.Injective (keyValue (F := F)) := by
  intro k k' h
  cases k <;> cases k' <;> simp_all [keyValue]

theorem contextText_bucket {r : Request} {n m : ℤ} {raw : List (Json F)} {fields : List String}
    (hv : validateContextFields E raw = .ok fields) :
    contextText E (r.features n) fields = contextText E (r.features m) fields ↔
      workspaceBucket n = workspaceBucket m ∨ "workspace_roots_bucket" ∉ raw.map (stripText E) := by
  have hmem := (fields_of_validate E hv).2 "workspace_roots_bucket"
  rw [contextText_inj E hv, ← hmem]
  have hget : ∀ k : ℤ, getKey ((r.features k).toDict : Dict F) "workspace_roots_bucket" =
      .str (workspaceBucket k) := fun _ => rfl
  constructor
  · intro h
    by_cases hin : "workspace_roots_bucket" ∈ fields
    · have := h _ hin
      rw [hget, hget, Json.str.injEq] at this
      exact Or.inl this
    · exact Or.inr hin
  · rintro (h | h) field hfield
    · have he : r.features n = r.features m := by
        unfold Request.features buildContextFeatures
        rw [h]
      rw [he]
    · have hne : field ≠ "workspace_roots_bucket" := fun he => h (he ▸ hfield)
      have hk := known_of_validate E hv field hfield
      simp only [featureFields, List.mem_cons, List.not_mem_nil, or_false] at hk
      rcases hk with rfl | rfl | rfl | rfl | rfl | rfl
      · rfl
      · rfl
      · rfl
      · rfl
      · rfl
      · exact absurd rfl hne

section Agree
variable {manifest policy : Dict F} {raw : List (Json F)} {fields : List String}
  (hraw : getKey manifest "context_fields" = .arr raw)
  (hpol : getKey manifest "policy" = .obj policy) (hsafe : ∀ p ∈ policy, SafeEntry E p)
  (hv : validateContextFields E raw = .ok fields)
include hraw hpol hsafe hv

omit hsafe in
theorem plainArm_iff {f : RetrievalContextFeatures} (hf : ∀ s ∈ texts f, PlainText s) :
    PlainArm E manifest f ↔
      strip (policyArm E policy (contextText E f fields)) = policyArm E policy (contextText E f fields) ∨
        strip (policyArm E policy (contextText E f fields)) = baselineArm := by
  have hk := fieldsKey_plain E (hasFeatures_self f) hf hv
  have hb : strip baselineArm = baselineArm := by decide
  constructor
  · intro h
    unfold policyArm
    cases hl : lookup (contextText E f fields) policy with
    | none => exact Or.inl hb
    | some v => exact h raw policy _ v hraw hpol hk hl
  · intro h raw' policy' key v hraw' hpol' hk' hl
    cases hraw.symm.trans hraw'
    cases hpol.symm.trans hpol'
    cases hk.symm.trans hk'
    rw [policyArm, hl] at h
    exact h

/-- The evaluations of a row agree if its key is the key at run time and the arm is plain. -/
theorem agrees_of_list {row : Dict F} {f f' : RetrievalContextFeatures} (hrow : LowRow E row f')
    (hf : ∀ s ∈ texts f, PlainText s)
    (hlogged : ∀ deployment, getKey row "deployment" = .obj deployment → ∀ v,
      lookup "context_key" deployment = some v → v = keyValue (some (contextText E f fields))) :
    Agrees E manifest row (strip (policyArm E policy (contextText E f fields)))
        (some (contextText E f fields)) ↔
      contextText E f fields = contextText E f' fields ∧ PlainArm E manifest f := by
  obtain ⟨features, hfeat, hhas⟩ := hrow.features
  have hkey := fieldsKey_plain E hhas hrow.plain hv
  have hstrip := strip_policyArm hsafe (contextText E f fields)
  have hdes := desired_eq hrow hsafe hv hraw hpol
  rw [plainArm_iff hraw hpol hv hf]
  constructor
  · intro h
    obtain ⟨k, hk, hrowkey⟩ := h.rowKey raw hraw
    rw [hfeat, hkey, Except.ok.injEq] at hrowkey
    rw [Option.some.injEq] at hk
    have heq : contextText E f fields = contextText E f' fields := by rw [hk, hrowkey]
    refine ⟨heq, ?_⟩
    have hsh := h.shadow
    rw [hdes, ← heq, Except.ok.injEq] at hsh
    split_ifs at hsh
    · exact Or.inl hsh.symm
    · exact Or.inr hsh.symm
  · rintro ⟨heq, hplain⟩
    rw [← heq] at hdes hkey
    refine ⟨fun raw' hraw' => ?_, hlogged, ?_, fun raw' policy' hraw' hpol' hsup => ?_⟩
    · cases hraw.symm.trans hraw'
      exact ⟨_, rfl, by rw [hfeat, hkey]⟩
    · rw [hdes]
      by_cases hin : policyArm E policy (contextText E f fields) ∈ safeExplorationArms
      · rw [if_pos hin, strip_safe _ hin]
      · rw [if_neg hin]
        rcases hplain with h | h
        · exact absurd (h ▸ hstrip) hin
        · rw [h]
    · cases hraw.symm.trans hraw'
      cases hpol.symm.trans hpol'
      rw [evaluated_eq hrow hsafe hv, ← heq]
      by_cases hin : policyArm E policy (contextText E f fields) ∈ safeExplorationArms
      · rw [strip_safe _ hin] at hsup ⊢
        rw [hsup]
        rfl
      · rw [hrow.arms _ hin]
        rcases hplain with h | h
        · exact absurd (h ▸ hstrip) hin
        · rw [h]
          rfl

end Agree

/-- **The evaluations of the row of a request agree with the deployment that served it if and only if**
the selected roots and all roots fall into one bucket that matters and the arm is plain. -/
theorem agrees_iff {s : Site F} {log log' : Log} {r : Request} {roots : Roots} {c : Conditions F}
    {g : Draws F} {w : Writes} {served : LearningDecision F} {after : Option String}
    {state manifest : Dict F} (hlook : LooksUp E s log c state)
    (hm : getKey state "policy_manifest" = .obj manifest) (hr : r.decision.risk = .low)
    (hserve : serve E s log r roots c g w = .ok (served, log', after)) {file : String × String}
    (hnew : file ∈ log') (hold : file ∉ log) (notes : Notes F) {target : String}
    {key : Option String} (hcomp : Computes E s log r roots.selected.length c target key) :
    Agrees E manifest (rowOf notes file.1 (.obj (content E file.2))) target key ↔
      SameBucket E manifest roots ∧ PlainArm E manifest (r.features roots.selected.length) := by
  obtain ⟨a, d, hres, hlive, hl, hprop, hrec⟩ := file_of_serve hlook hserve hnew hold
  obtain ⟨a', after', hres', htarget, hkey⟩ := hcomp
  cases hres.symm.trans hres'
  obtain ⟨target', key', ht, htarget', hkey'⟩ := resolveLive_low hlook.live hr hlive
  cases htarget.symm.trans htarget'
  cases keyValue_injective (hkey.symm.trans hkey')
  -- the section of the row has the key that was computed, or none
  have hlogged : ∀ deployment,
      getKey (rowOf notes file.1 (.obj (content E file.2))) "deployment" = .obj deployment →
      ∀ v, lookup "context_key" deployment = some v → v = keyValue key :=
    fun _ hd _ hv => logged_key hl hprop hrec hkey notes hd hv
  obtain ⟨stage, hstate⟩ := (State.verify_iff E).mp hlook.valid
  obtain ⟨m, hm', hcheck, -⟩ := hstate.manifest
  cases hm.symm.trans hm'
  obtain ⟨fields, policy, cutoff, source, hver⟩ := (Manifest.verify_iff E).mp hcheck
  obtain ⟨pol, hpol, -, hsafe, -⟩ := (validatePolicy_eq_ok E).mp hver.policyOf
  have hrow := lowRow hl hrec hr notes
  have hplain := plain_features r roots.selected.length
  rcases hver.fieldsOf with ⟨raw, hraw, hv⟩ | ⟨hraw, -⟩
  · have heq := targetArm_eq hm hraw hpol hsafe hv hplain
    cases ht.symm.trans heq
    rw [agrees_of_list hraw hpol hsafe hv hrow hplain hlogged, contextText_bucket hv]
    refine and_congr_left fun _ => ?_
    constructor
    · intro h raw' hraw'
      cases hraw.symm.trans hraw'
      exact h
    · exact fun h => h raw hraw
  · have heq : targetArm E state (.obj (r.features roots.selected.length).toDict) =
        .ok (baselineArm, none) := targetArm_none hm hraw _
    cases ht.symm.trans heq
    exact iff_of_true ⟨fun raw h => absurd h (hraw raw), hlogged, desired_none hrow hraw,
      fun raw policy h => absurd h (hraw raw)⟩ ⟨fun raw h => absurd h (hraw raw),
        fun raw policy key v h => absurd h (hraw raw)⟩

/-! ### One root and two -/

section Samples

def rootsFields : List String := ["workspace_roots_bucket"]

/-- A policy with an arm for two workspace roots. -/
def rootsPolicy : Dict Cell :=
  [("\x7b\"workspace_roots_bucket\":\"2\"\x7d", .str "source_rank")]

def rootsManifest : Dict Cell := sampleManifest rootsFields rootsPolicy rootsPolicy

def oneRoot : Roots := ⟨["app"], ["app"], List.Sublist.refl _⟩

/-- Two roots, one of which is selected. -/
def twoRoots : Roots := ⟨["app", "lib"], ["app"], by simp⟩

def sampleRequest : Request := ⟨"where is the parser", ⟨.small, .low⟩, .exact, 0⟩

/-- Deployments are enabled, without automatic rollback. -/
def sampleSite : Site Cell where
  config := [("context", .obj [("deployment", .obj [("enabled", .bool true),
    ("auto_rollback", .bool false)])])]
  killEnv := ""
  statePathOk := true
  signingKey := [1]
  statistics := fun _ _ => .ok []

def sampleConditions (text : String) : Conditions Cell where
  stateFile := some text
  notes := ⟨[], []⟩
  now := "2026-09-04"
  update := .done
  bucket := ⟨.one, "00"⟩

def sampleDraws : Draws Cell where
  decisionId := "00000000000000000000000000000000"
  createdAt := "2026-09-04"
  killEnv := ""
  draw := .one

def sampleWrites : Writes := ⟨.written, "", "", .written⟩

/-- The deployment of the manifest is live in some file. -/
theorem roots_live : ∃ text state, loadDeploymentState platform text = .ok state ∧
    (∃ check, verifyDeploymentState platform state [1] = .ok check ∧ check.valid = true) ∧
    getKey state "stage" = .str Stage.canary1.value ∧
    getKey state "traffic_fraction" = .float .hundredth ∧
    getKey state "policy_manifest" = .obj (sortDict rootsManifest) ∧
    getKey state "guardrails" = .obj (sortDict (guardrailEntries platform sampleArgs)) := by
  have hfields : validateContextFields platform (rootsFields.map .str) = .ok rootsFields :=
    (validateContextFields_eq_ok platform).mpr (by decide)
  have hpolicy : validatePolicy platform (.obj rootsPolicy) = .ok rootsPolicy := by decide
  have hsame : SameReading platform rootsManifest := by
    refine ⟨fun d hd context => ?_, rfl, rfl⟩
    have hd' : getKey rootsManifest "policy" = .obj rootsPolicy := rfl
    cases hd'.symm.trans hd
    rfl
  exact sample_live hfields hpolicy (by decide) hsame

/-- The sample request looks up its context in a live deployment of the sample manifest. -/
theorem sample_looksUp : ∃ text state, LooksUp platform sampleSite [] (sampleConditions text) state ∧
    getKey state "policy_manifest" = .obj (sortDict rootsManifest) := by
  obtain ⟨text, state, hload, hv, hstage, -, hman, -⟩ := roots_live
  have hlive : inLiveStages (getKey state "stage") = .ok true := by
    rw [hstage]
    decide
  refine ⟨text, state, ?_, hman⟩
  exact {
    enabled := by decide
    running := by decide
    path := rfl
    key := by decide
    loaded := ⟨text, rfl, hload, none, by
      unfold autoRollbackIfNeeded
      rw [hlive]
      rfl, rfl⟩
    valid := hv
    live := hlive }

/-- The sample request is served and logged. -/
theorem sample_served {text : String} {state : Dict Cell}
    (h : LooksUp platform sampleSite [] (sampleConditions text) state) (roots : Roots) :
    ∃ served file target key,
      serve platform sampleSite [] sampleRequest roots (sampleConditions text) sampleDraws
        sampleWrites = .ok (served, [file], some text) ∧
      Computes platform sampleSite [] sampleRequest roots.selected.length (sampleConditions text)
        target key ∧
      targetArm platform state (.obj (sampleRequest.features roots.selected.length).toDict) =
        .ok (target, key) := by
  obtain ⟨a, d, file, ha, -, -, -, -, hserve⟩ := serve_logs h rfl sampleRequest roots
    (g := sampleDraws) (w := sampleWrites) (by decide) (by simp) rfl
  obtain ⟨target, key, ht, htarget, hkey⟩ := resolveLive_low h.live rfl ha
  refine ⟨d, file, target, key, hserve, ⟨a, some text, ?_, htarget, hkey⟩, ht⟩
  rw [resolve_looksUp h, ha]
  rfl

theorem rootsManifest_fields : getKey (sortDict rootsManifest) "context_fields" =
    .arr [.str "workspace_roots_bucket"] := by decide

/-- Where all roots are selected, the evaluations agree. -/
theorem agrees_oneRoot : ∃ text state served file target key,
    LooksUp platform sampleSite [] (sampleConditions text) state ∧
    serve platform sampleSite [] sampleRequest oneRoot (sampleConditions text) sampleDraws
      sampleWrites = .ok (served, [file], some text) ∧
    Agrees platform (sortDict rootsManifest) (rowOf ⟨[], []⟩ file.1 (.obj (content platform file.2)))
      target key := by
  obtain ⟨text, state, hlook, hman⟩ := sample_looksUp
  obtain ⟨served, file, target, key, hserve, hcomp, -⟩ := sample_served hlook oneRoot
  refine ⟨text, state, served, file, target, key, hlook, hserve, ?_⟩
  refine (agrees_iff hlook hman rfl hserve (List.mem_singleton.mpr rfl) (by simp) ⟨[], []⟩ hcomp).mpr
    ⟨fun raw _ => Or.inl rfl, fun raw policy key v _ hpol _ hv => ?_⟩
  have hpol' : getKey (sortDict rootsManifest) "policy" = .obj rootsPolicy := by decide
  cases hpol'.symm.trans hpol
  have hmem := mem_of_lookup hv
  rw [rootsPolicy, List.mem_singleton, Prod.mk.injEq] at hmem
  rw [hmem.2]
  exact Or.inl (by decide)

/-- The arm of the sample request over a number of roots. -/
theorem roots_target {state : Dict Cell}
    (hman : getKey state "policy_manifest" = .obj (sortDict rootsManifest)) (n : ℤ) :
    targetArm platform state (.obj (sampleRequest.features n).toDict) =
      .ok (strip (policyArm platform rootsPolicy
        (contextText platform (sampleRequest.features n) rootsFields)),
        some (contextText platform (sampleRequest.features n) rootsFields)) := by
  have hv : validateContextFields platform [.str "workspace_roots_bucket"] = .ok rootsFields :=
    (validateContextFields_eq_ok platform).mpr (by decide)
  have hpol : getKey (sortDict rootsManifest) "policy" = .obj rootsPolicy := by decide
  have hsafe : ∀ p ∈ rootsPolicy, SafeEntry platform p := by
    intro p hp
    rw [rootsPolicy, List.mem_singleton] at hp
    subst hp
    exact ⟨rfl, by decide, by decide⟩
  exact targetArm_eq hman rootsManifest_fields hpol hsafe hv (plain_features sampleRequest n)

/-- **With two roots, one of them selected, the row is evaluated under another key than the one that
was deployed.** -/
theorem not_agrees_twoRoots : ∃ text state served file target key,
    LooksUp platform sampleSite [] (sampleConditions text) state ∧
    getKey state "policy_manifest" = .obj (sortDict rootsManifest) ∧
    serve platform sampleSite [] sampleRequest twoRoots (sampleConditions text) sampleDraws
      sampleWrites = .ok (served, [file], some text) ∧
    Computes platform sampleSite [] sampleRequest twoRoots.selected.length (sampleConditions text)
      target key ∧
    ¬ Agrees platform (sortDict rootsManifest)
      (rowOf ⟨[], []⟩ file.1 (.obj (content platform file.2))) target key := by
  obtain ⟨text, state, hlook, hman⟩ := sample_looksUp
  obtain ⟨served, file, target, key, hserve, hcomp, ht⟩ := sample_served hlook twoRoots
  refine ⟨text, state, served, file, target, key, hlook, hman, hserve, hcomp, fun hagree => ?_⟩
  obtain ⟨a, d, -, -, hl, -, hrec⟩ := file_of_serve hlook hserve (List.mem_singleton.mpr rfl) (by simp)
  have hv : validateContextFields platform [.str "workspace_roots_bucket"] = .ok rootsFields :=
    (validateContextFields_eq_ok platform).mpr (by decide)
  obtain ⟨features, hfeat, hhas⟩ := (lowRow hl hrec rfl ⟨[], []⟩).features
  have hrow := fieldsKey_plain platform hhas (plain_features sampleRequest 2) hv
  obtain ⟨k, hk, hrowkey⟩ := hagree.rowKey _ rootsManifest_fields
  rw [hfeat, hrow, Except.ok.injEq] at hrowkey
  cases ht.symm.trans (roots_target hman 1)
  rw [Option.some.injEq, ← hrowkey, contextText_bucket hv] at hk
  exact absurd hk (by decide)

end Samples

end ControlPlane.Deployment.Evaluation
