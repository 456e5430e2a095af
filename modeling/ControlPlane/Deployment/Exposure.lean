import ControlPlane.Deployment.Evaluation

/-! # The exposure budget

Requests are served one after another; each reads the state file and the log, and may log a decision
and roll the deployment back (`request`). `exposed` counts the logged decisions that were assigned to
the candidate.

The guardrails compare the count with the budget before a request is assigned, and let it pass if it is
equal. So the count can get one above the budget and no further (`exposed_run`); it stays within the
budget if no request takes the candidate while the count is equal to it. -/

namespace ControlPlane.Deployment.Exposure

open ControlPlane.Lib.Value ControlPlane.Lib.Text ControlPlane.Lib.Floats ControlPlane.Lib.Dynamic
open ControlPlane.Lib.Grid ControlPlane.Lib.Runs ControlPlane.Environment ControlPlane.Instance
open ControlPlane.Learning.Features ControlPlane.Learning.Decision ControlPlane.Learning.Records
open ControlPlane.Deployment.Stages ControlPlane.Deployment.Manifest ControlPlane.Deployment.Reread
open ControlPlane.Deployment.State ControlPlane.Deployment.Guardrails ControlPlane.Deployment.ContextKeys
open ControlPlane.Deployment.Runtime ControlPlane.Deployment.Serving ControlPlane.Deployment.Refinement
open ControlPlane.Deployment.Runs ControlPlane.Deployment.Evaluation

variable {F : Type} (E : Env F)

/-! ### Requests one after another -/

/-- What the requests share. -/
structure Disk where
  stateFile : Option String
  log : Log

/-- A request with what the platform draws for it; the state file comes from the disk. -/
structure Arrival (F : Type) where
  request : Request
  roots : Roots
  conditions : Conditions F
  draws : Draws F
  writes : Writes

/-- What a request finds. -/
def Arrival.at (x : Arrival F) (d : Disk) : Conditions F :=
  { x.conditions with stateFile := d.stateFile }

/-- Serves one request. -/
def request (s : Site F) (d : Disk) (x : Arrival F) : Py Disk := do
  let (_, log, stateFile) ← serve E s d.log x.request x.roots (x.at d) x.draws x.writes
  return ⟨stateFile, log⟩

/-- The policy id of a state. -/
def policyIdOf (state : Dict F) : String :=
  match getKey state "policy_id" with
  | .str id => id
  | _ => ""

/-- The row was logged in a live stage. -/
def isLive (row : Dict F) : Bool :=
  match inLiveStages (getKey (sectionOf row) "stage") with
  | .ok live => live
  | .error _ => false

/-- The file holds a decision of the deployment that was assigned to the candidate. -/
def isExposure (state : Dict F) (file : String × String) : Bool :=
  let d := content E file.2
  ofDeployment E (policyIdOf state) (generationOf state) d && isLive d &&
    same E (sectionOf d) "assignment" "candidate"

/-- The number of logged decisions of a deployment that were assigned to the candidate. -/
def exposed (state : Dict F) (log : Log) : ℕ := log.countP (isExposure E state)

/-! ### What the guardrails count -/

variable {E}

theorem sectionOf_rowOf (notes : Notes F) (id : String) (d : Dict F) :
    getKey (rowOf notes id (.obj d)) "deployment" = getKey d "deployment" := by
  rw [rowOf, getKey_setKey_ne (by decide), getKey_setKey_ne (by decide)]

theorem mapM_dated : ∀ {rows : List (Dict F)} {dated : List (String × Dict F)},
    (rows.mapM fun row => do return (← E.strOr row "created_at" "", row)) = .ok dated →
    dated.map Prod.snd = rows
  | [], dated, h => by
    cases h
    rfl
  | row :: rows, dated, h => by
    rw [List.mapM_cons, bind_eq_ok] at h
    obtain ⟨p, hp, h⟩ := h
    obtain ⟨text, -, hp⟩ := bind_eq_ok.mp hp
    obtain ⟨rest, hrest, h⟩ := bind_eq_ok.mp h
    cases hp
    cases h
    rw [List.map_cons, mapM_dated hrest]

theorem byCreation_perm {rows out : List (Dict F)} (h : byCreation E rows = .ok out) :
    out.Perm rows := by
  unfold byCreation at h
  obtain ⟨dated, hd, h⟩ := bind_eq_ok.mp h
  cases h
  have hp := (List.perm_insertionSort (fun p q : String × Dict F => p.1 ≤ q.1) dated).map Prod.snd
  rwa [mapM_dated hd] at hp

theorem liveRows_eq : ∀ {rows out : List (Dict F)}, liveRows rows = .ok out → out = rows.filter isLive
  | [], out, h => by
    cases h
    rfl
  | row :: rows, out, h => by
    rw [liveRows, bind_eq_ok] at h
    obtain ⟨live, hl, h⟩ := h
    obtain ⟨rest, hrest, h⟩ := bind_eq_ok.mp h
    cases h
    have ih := liveRows_eq hrest
    have hlive : isLive row = live := by
      rw [isLive, hl]
    rw [List.filter_cons, hlive, ih]

/-- **The guardrails count the logged decisions of the candidate.** -/
theorem count_eq {log : Log} {notes : Notes F} {state : Dict F} {live : List (Dict F)} {id : String}
    {g : ℤ} (hfiled : Filed E log) (hid : getKey state "policy_id" = .str id)
    (hg : getKey state "generation" = .int g)
    (h : (do liveRows (← deploymentRows E log notes state)) = .ok live) :
    (assigned E "candidate" live).length = exposed E state log := by
  obtain ⟨rows, hrows, hlive⟩ := bind_eq_ok.mp h
  unfold deploymentRows at hrows
  have hid' : E.strOr state "policy_id" "" = .ok id := strOr_of_getKey hid _
  have hg' : E.toInt ((lookup "generation" state).getD (.int 0)) = .ok g := by
    rw [lookup_of_getKey hg (by simp)]
    rfl
  rw [hid', hg'] at hrows
  obtain ⟨all, hall, hperm⟩ := load_filed E hfiled notes
  simp only [bind, Except.bind, hall] at hrows
  have hp := (byCreation_perm hrows).trans (hperm.filter _)
  have hcount := (hp.filter isLive).countP_eq fun row => same E (sectionOf row) "assignment" "candidate"
  rw [liveRows_eq hlive, assigned, ← List.countP_eq_length_filter, hcount, List.countP_filter,
    List.countP_filter, List.countP_map, exposed]
  refine List.countP_congr fun file _ => ?_
  have hdep := sectionOf_rowOf notes file.1 (content E file.2)
  have hsec : sectionOf (rowOf notes file.1 (.obj (content E file.2))) = sectionOf (content E file.2) := by
    rw [sectionOf, sectionOf, objOf?, objOf?, hdep]
  have hof : ofDeployment E id g (rowOf notes file.1 (.obj (content E file.2))) =
      ofDeployment E id g (content E file.2) := by
    rw [ofDeployment, ofDeployment, hdep]
  have hpid : policyIdOf state = id := by rw [policyIdOf, hid]
  have hgen : generationOf state = g := by rw [generationOf, hg]
  simp only [Function.comp_apply, hsec, hof, isLive, isExposure, hpid, hgen, Bool.and_eq_true]
  tauto

/-! ### The budget -/

variable (E) in
/-- The exposure budget of the stage of a state. -/
def Budget (state : Dict F) (b : ℤ) : Prop :=
  ∃ guardrails stage, getKey state "guardrails" = .obj guardrails ∧
    E.strOr state "stage" "" = .ok stage ∧
    E.toInt ((lookup "max_candidate_exposures" (stageBudget guardrails stage)).getD (.int 0)) = .ok b

/-- The policy id and the generation of a valid state. -/
theorem ids_of_valid {state manifest : Dict F} {raw : List (Json F)} {key : Key}
    (h : ∃ check, verifyDeploymentState E state key = .ok check ∧ check.valid = true)
    (hman : getKey state "policy_manifest" = .obj manifest)
    (hraw : getKey manifest "context_fields" = .arr raw) :
    (∃ id, getKey state "policy_id" = .str id) ∧ ∃ g, getKey state "generation" = .int g := by
  obtain ⟨stage, hv⟩ := (State.verify_iff E).mp h
  constructor
  · obtain ⟨m, hm, hcheck, hpid⟩ := hv.manifest
    cases hman.symm.trans hm
    obtain ⟨fields, pol, cutoff, source, hver⟩ := (Manifest.verify_iff E).mp hcheck
    have hfields : fields ≠ [] := fields_ne_nil E hver.fieldsOf ⟨raw, hraw⟩
    obtain ⟨text, -, hid⟩ := (policyIdErrors_eq_nil E (isPolicy_of_validatePolicy E hver.policyOf)
      hfields (policy_ne_nil E hver.policyOf) hver.cutoff_ne hver.source_ne).mp hver.idOf
    rw [hid, pyEq_str_right] at hpid
    exact ⟨_, hpid⟩
  · have hg := hv.generation
    unfold generationBad at hg
    split at hg
    · next g hg' => exact ⟨g, hg'⟩
    · cases hg

section LooksUp
variable {s : Site F} {log : Log} {c : Conditions F} {state : Dict F}
  (hlook : LooksUp E s log c state) (hauto : autoRollbackEnabled E s.config = true)
include hlook hauto

/-- The guardrails that let a request pass. -/
theorem evaluated_of_looksUp : ∃ report, evaluateLiveGuardrails E s.statistics log c.notes state
    s.signingKey = .ok report ∧ report.rollbackRequired = false := by
  obtain ⟨text, -, -, report, ha, hr⟩ := hlook.loaded
  unfold autoRollbackIfNeeded at ha
  rw [hlook.live] at ha
  simp only [bind, Except.bind, hauto, Bool.not_true, Bool.or_self, Bool.false_eq_true, if_false] at ha
  obtain ⟨rep, he, ha⟩ := bind_eq_ok.mp ha
  split_ifs at ha with hreq
  · exact ⟨rep, he, by simpa using hreq⟩
  · obtain ⟨x, -, ha⟩ := bind_eq_ok.mp ha
    cases ha
    rw [Option.map_some, Option.getD_some] at hr
    exact ⟨rep, he, hr⟩

theorem facts_of_looksUp : (∃ id, getKey state "policy_id" = .str id) ∧
    (∃ g, getKey state "generation" = .int g) ∧
    ∃ live guardrails stage e, (do liveRows (← deploymentRows E log c.notes state)) = .ok live ∧
      getKey state "guardrails" = .obj guardrails ∧ E.strOr state "stage" "" = .ok stage ∧
      e.candidate = (assigned E "candidate" live).length ∧
      budgetBlockers E guardrails (stageBudget guardrails stage) e = .ok [] := by
  obtain ⟨report, he, hr⟩ := evaluated_of_looksUp hlook hauto
  obtain ⟨check, hcheck, hvalid⟩ := hlook.valid
  unfold evaluateLiveGuardrails at he
  rw [hcheck] at he
  simp only [bind_eq_ok, Except.ok.injEq, exists_eq_left'] at he
  obtain ⟨stage, hstage, he⟩ := he
  rw [if_neg (by simp [hvalid])] at he
  split at he
  · next guardrails manifest hguard hman =>
    split at he
    · next raw policy hraw hpol =>
      simp only [bind_eq_ok] at he
      obtain ⟨rows, hrows, live, hlive, e, hexp, stat, -, budgets, hbud, he⟩ := he
      cases he
      have hnil : budgets = [] := by
        simp only [Bool.not_eq_false', List.isEmpty_iff, List.append_eq_nil_iff] at hr
        exact hr.1
      subst hnil
      obtain ⟨hpid, hgen⟩ := ids_of_valid hlook.valid hman hraw
      have hcount : e.candidate = (assigned E "candidate" live).length := by
        unfold exposureOf at hexp
        obtain ⟨cost, -, hexp⟩ := bind_eq_ok.mp hexp
        cases hexp
        rfl
      exact ⟨hpid, hgen, live, guardrails, stage, e, by rw [hrows]; exact hlive, hguard, hstage,
        hcount, hbud⟩
    · cases he
  · cases he
  · cases he

/-- **A request that passes the guardrails finds a count within the budget.** -/
theorem exposed_le {b : ℤ} (hfiled : Filed E log) (hb : Budget E state b) (hpos : 0 < b) :
    (exposed E state log : ℤ) ≤ b := by
  obtain ⟨⟨id, hid⟩, ⟨g, hg⟩, live, guardrails, stage, e, hlive, hguard, hstage, he, hbud⟩ :=
    facts_of_looksUp hlook hauto
  obtain ⟨guardrails', stage', hguard', hstage', hn⟩ := hb
  cases hguard.symm.trans hguard'
  cases hstage.symm.trans hstage'
  have h := budgetBlockers_eq_nil hn hbud hpos
  rwa [he, count_eq hfiled hid hg hlive] at h

end LooksUp

/-! ### Who takes the candidate -/

variable (E) in
/-- The request draws the candidate in a state. -/
def TakesCandidate (state : Dict F) (r : Request) (n : ℤ) (bucket : Bucket F) : Prop :=
  r.decision.risk = .low ∧ ∃ target key probability,
    targetArm E state (.obj (r.features n).toDict) = .ok (target, key) ∧ target ≠ baselineArm ∧
    E.toFloat ((lookup "traffic_fraction" state).getD (.float (E.T.ofRat 0))) = .ok probability ∧
    drawable E probability = true ∧ isCandidate E probability bucket = true

/-- What the section of a candidate assignment holds. -/
structure CandidateSection (state : Dict F) (dep : Dict F) : Prop where
  policyId : getKey dep "policy_id" = getKey state "policy_id"
  generation : getKey dep "state_generation" = .int (generationOf state)
  stage : getKey dep "stage" = getKey state "stage"

theorem candidate_resolveLive {state a : Dict F} {r : Request} {n : ℤ} {b : Bucket F}
    (h : resolveLive E state r n b = .ok a)
    (hc : getKey (sectionOfAssignment a) "assignment" = .str "candidate") :
    TakesCandidate E state r n b ∧ CandidateSection state (sectionOfAssignment a) := by
  have hbase : ∀ reason context target, getKey (sectionOfAssignment
      (baselineAssignment E reason state context target)) "assignment" ≠ .str "candidate" := by
    intro reason context target he
    have hb : getKey (sectionOfAssignment (baselineAssignment E reason state context target))
        "assignment" = .str "baseline" := rfl
    rw [hb, Json.str.injEq] at he
    exact absurd he (by decide)
  rcases resolveLive_cases h with ⟨reason, rfl⟩ | ⟨-, hr, target, key, ht, h⟩
  · exact absurd hc (hbase _ _ _)
  · rcases assignTarget_cases h with ⟨reason, rfl⟩ | ⟨probability, hne, hd, hp, rfl⟩
    · exact absurd hc (hbase _ _ _)
    · have hsec : getKey (sectionOfAssignment (signedAssignment E state target key probability b))
          "assignment" = .str (if isCandidate E probability b then "candidate" else "control") := rfl
      rw [hsec, Json.str.injEq] at hc
      have hcand : isCandidate E probability b = true := by
        by_contra hno
        rw [if_neg hno] at hc
        exact absurd hc (by decide)
      exact ⟨⟨hr, target, key, probability, ht, hne, hp, hd, hcand⟩, rfl, rfl, rfl⟩

/-- A low-risk request whose context has an arm is drawn. -/
theorem resolveLive_signed {state a : Dict F} {r : Request} {n : ℤ} {b : Bucket F} {target : String}
    {key : Option String} {probability : F} (hl : inLiveStages (getKey state "stage") = .ok true)
    (hr : r.decision.risk = .low)
    (ht : targetArm E state (.obj (r.features n).toDict) = .ok (target, key))
    (hne : target ≠ baselineArm)
    (hp : E.toFloat ((lookup "traffic_fraction" state).getD (.float (E.T.ofRat 0))) = .ok probability)
    (hd : drawable E probability = true) (h : resolveLive E state r n b = .ok a) :
    a = signedAssignment E state target key probability b := by
  unfold resolveLive at h
  rw [hl] at h
  simp only [bind, Except.bind, Bool.not_true, Bool.false_eq_true, if_false, hr, ne_eq,
    not_true_eq_false, ht] at h
  unfold assignTarget at h
  rw [if_neg hne, hp] at h
  obtain ⟨x, hx, h⟩ := bind_eq_ok.mp h
  cases hx
  rw [hd] at h
  simp only [Bool.not_true, Bool.false_eq_true, if_false] at h
  obtain ⟨id, -, h⟩ := bind_eq_ok.mp h
  cases h
  rfl

/-- Without an assignment there is no deployment section. -/
theorem deployment_chooseMode {config : Dict F} {killEnv mode risk : String} {arms : List String}
    {epsilon draw : F} {c : Choice F}
    (h : chooseMode E config killEnv mode risk arms epsilon draw = .ok c) : c.deployment = none := by
  unfold chooseMode at h
  split_ifs at h
  · cases h
    rfl
  · cases h
    rfl
  · unfold chooseExplore at h
    obtain ⟨allowed, -, h⟩ := bind_eq_ok.mp h
    simp only [pure, Except.pure, Except.ok.injEq] at h
    split_ifs at h <;> subst h <;> rfl
  · cases h
    rfl

/-- A decision is assigned to the candidate only by its assignment. -/
theorem candidate_choose {r : Request} {config : Dict F} {n : ℤ} {o : Option (Dict F)} {g : Draws F}
    {d : LearningDecision F} (h : chooseLearningDecision E r config n o g = .ok d) {e : Dict F}
    (he : d.deployment = some e) (hc : getKey e "assignment" = .str "candidate") :
    ∃ a, o = some a ∧ e = sectionOfAssignment a := by
  unfold chooseLearningDecision at h
  simp only [bind_eq_ok] at h
  obtain ⟨mode, -, epsilon, -, arms, -, c, hch, h⟩ := h
  cases h
  have hd : c.deployment = some e := he
  cases o with
  | none =>
    cases (deployment_chooseMode hch).symm.trans hd
  | some a =>
    refine ⟨a, rfl, ?_⟩
    unfold choose chooseAssigned at hch
    simp only [bind_eq_ok] at hch
    obtain ⟨arm, -, o, -, hch⟩ := hch
    cases o with
    | none =>
      cases hch
      cases hd
      simp [getKey, lookup] at hc
    | some parsed =>
      simp only [bind_eq_ok, pure, Except.pure, Except.ok.injEq] at hch
      obtain ⟨mode, -, reason, -, epsilon, -, id, -, rfl⟩ := hch
      cases hd
      rfl

/-- A decision made of a valid assignment records its section. -/
theorem deployment_choose {r : Request} {config a : Dict F} {n : ℤ} {g : Draws F}
    {d : LearningDecision F} (h : chooseLearningDecision E r config n (some a) g = .ok d)
    {arm : String} (harm : E.strOr a "chosen_arm" baselineArm = .ok arm)
    (hv : ∃ parsed, validAssignment E a (strip arm) r.decision.risk.value = .ok (some parsed)) :
    d.deployment = some (sectionOfAssignment a) := by
  obtain ⟨parsed, hv⟩ := hv
  unfold chooseLearningDecision at h
  simp only [bind_eq_ok] at h
  obtain ⟨mode, -, epsilon, -, arms, -, c, hch, h⟩ := h
  cases h
  unfold choose chooseAssigned at hch
  simp only [harm, hv, bind_eq_ok, Except.ok.injEq, exists_eq_left', pure, Except.pure] at hch
  obtain ⟨mode, -, reason, -, epsilon, -, id, -, rfl⟩ := hch
  rfl

/-- The section of a logged decision. -/
theorem section_logged {file : String × String} {d : LearningDecision F} (hl : Logs E file d)
    (hp : Proper d) : sectionOf (content E file.2) = sortDict (d.deployment.getD []) ∧
      (keys (d.deployment.getD [])).Nodup := by
  have hdep : getKey (content E file.2) "deployment" = sortKeys ((d.deployment.map .obj).getD .null) := by
    rw [content_eq E hl.text, getKey_sortDict nodup_toDict, getKey_deployment]
  cases he : d.deployment with
  | none =>
    rw [sectionOf, objOf?, hdep, he]
    exact ⟨rfl, List.nodup_nil⟩
  | some e =>
    rw [sectionOf, objOf?, hdep, he, Option.map_some, Option.getD_some, sortKeys_obj']
    exact ⟨rfl, ((wellFormed_obj e).mp (hp.deployment e he)).1⟩

/-- The decision of an exposure is assigned to the candidate. -/
theorem candidate_of_exposure {state : Dict F} {file : String × String} {d : LearningDecision F}
    (hl : Logs E file d) (hp : Proper d) (h : isExposure E state file = true) :
    ∃ e, d.deployment = some e ∧ getKey e "assignment" = .str "candidate" := by
  obtain ⟨hsec, hn⟩ := section_logged hl hp
  rw [isExposure, Bool.and_eq_true, same, Bool.not_eq_true', differs_eq_false, hsec,
    getKey_sortDict hn] at h
  cases he : d.deployment with
  | none =>
    rw [he] at h
    simp [getKey] at h
  | some e =>
    refine ⟨e, rfl, ?_⟩
    have hc := h.2
    rw [he, Option.getD_some] at hc
    cases hv : getKey e "assignment" <;> rw [hv] at hc <;> simp_all

/-- A logged decision that is assigned to the candidate of a state is an exposure. -/
theorem exposure_of_candidate {state e : Dict F} {file : String × String} {d : LearningDecision F}
    (hl : Logs E file d) (hp : Proper d) (he : d.deployment = some e) {id : String}
    (hid : getKey state "policy_id" = .str id)
    (hlive : inLiveStages (getKey state "stage") = .ok true)
    (hc : getKey e "assignment" = .str "candidate") (hs : CandidateSection state e) :
    isExposure E state file = true := by
  obtain ⟨hsec, hn⟩ := section_logged hl hp
  rw [he, Option.getD_some] at hsec hn
  have hdep : getKey (content E file.2) "deployment" = .obj (sortDict e) := by
    have hd : getKey (d.toDict : Dict F) "deployment" = .obj e := by
      rw [getKey_deployment, he]
      rfl
    rw [content_eq E hl.text, getKey_sortDict nodup_toDict, hd, sortKeys_obj']
  have hpid : getKey (sortDict e) "policy_id" = .str (policyIdOf state) := by
    rw [getKey_sortDict hn, hs.policyId, policyIdOf, hid, sortKeys_str]
  have hgen : getKey (sortDict e) "state_generation" = .int (generationOf state) := by
    rw [getKey_sortDict hn, hs.generation, sortKeys_int]
  have hstage : getKey (sortDict e) "stage" = getKey state "stage" := by
    rw [getKey_sortDict hn, hs.stage]
    cases hv : getKey state "stage" <;> rw [hv] at hlive <;> first | rfl | cases hlive
  have hasg : getKey (sortDict e) "assignment" = .str "candidate" := by
    rw [getKey_sortDict hn, hc, sortKeys_str]
  have hof : ofDeployment E (policyIdOf state) (generationOf state) (content E file.2) = true := by
    rw [ofDeployment, hdep]
    simp [same, hpid, hgen]
  rw [isExposure, hof, isLive, hsec, hstage, hlive]
  simp [same, hasg]

/-- A fallback is no exposure. -/
theorem not_exposure_fallback {state : Dict F} {file : String × String} {d : LearningDecision F}
    {reason id now : String} (hp : Proper d) (hl : Logs E file (baselineFallback E d reason id now)) :
    isExposure E state file = false := by
  by_contra h
  rw [Bool.not_eq_false] at h
  obtain ⟨e, he, hc⟩ := candidate_of_exposure hl (proper_fallback hp _ _ _) h
  obtain ⟨e', -, rfl⟩ := Option.map_eq_some_iff.mp he
  rw [getKey_setKey_ne (by decide), getKey_setKey_ne (by decide), getKey_setKey_ne (by decide),
    getKey_setKey_self, Json.str.injEq] at hc
  exact absurd hc (by decide)

/-! ### One request -/

/-- A write adds at most one exposure, and none if the decision is no exposure. -/
theorem exposed_adds (state : Dict F) {log added : Log} {d : LearningDecision F}
    (h : Adds E log added d) : exposed E state added ≤ 1 ∧
      ((∀ file, Logs E file d → isExposure E state file = false) → exposed E state added = 0) := by
  rcases h with rfl | ⟨file, rfl, -, hl⟩
  · simp [exposed]
  · refine ⟨List.countP_le_length, fun h => ?_⟩
    rw [exposed, List.countP_singleton, h file hl]
    rfl

/-- **What a request adds**: nothing, or one exposure if it takes the candidate. -/
theorem exposed_request {s : Site F} {d d' : Disk} {x : Arrival F} (hf : Filed E d.log)
    (h : request E s d x = .ok d') (state : Dict F) : Filed E d'.log ∧
      (d'.stateFile = d.stateFile ∨ RolledBack E s d.stateFile d'.stateFile) ∧
      (exposed E state d'.log = exposed E state d.log ∨
        exposed E state d'.log ≤ exposed E state d.log + 1 ∧
          ∃ current, LooksUp E s d.log (x.at d) current ∧
            TakesCandidate E current x.request x.roots.selected.length x.conditions.bucket) := by
  unfold request serve at h
  simp only [bind_eq_ok] at h
  obtain ⟨⟨decision, log, stateFile⟩, ⟨⟨o, file⟩, hres, ⟨served, log'⟩, hprep, hout⟩, h⟩ := h
  cases hout
  cases h
  have hwf := wellFormed_resolve hres
  obtain ⟨selected, first, second, hs, rfl, ha, ha'⟩ := prepare_eq_ok hwf hprep
  have hp := proper_choose hwf hs
  have hzero := (exposed_adds state ha').2 fun _ hl => not_exposure_fallback hp hl
  have hone := exposed_adds state ha
  have hsum : exposed E state (d.log ++ first ++ second) =
      exposed E state d.log + exposed E state first := by
    rw [exposed, List.countP_append, List.countP_append, ← exposed, ← exposed, ← exposed, hzero,
      Nat.add_zero]
  -- an exposure comes from an assignment to the candidate
  have hcand : exposed E state first = 0 ∨ ∃ a, o = some a ∧
      getKey (sectionOfAssignment a) "assignment" = .str "candidate" := by
    by_cases hex : ∃ file, Logs E file selected ∧ isExposure E state file = true
    · obtain ⟨file, hl, hex⟩ := hex
      obtain ⟨e, he, hc⟩ := candidate_of_exposure hl hp hex
      obtain ⟨a, ho, rfl⟩ := candidate_choose hs he hc
      exact Or.inr ⟨a, ho, hc⟩
    · refine Or.inl (hone.2 fun file hl => ?_)
      by_contra hno
      exact hex ⟨file, hl, by simpa using hno⟩
  refine ⟨filed_adds (filed_adds hf ha) ha', ?_⟩
  dsimp only
  rw [hsum]
  rcases resolve_cases hres with ⟨current, a, hlook, hlive, rfl, rfl⟩ | ⟨hbase, hfile⟩
  · refine ⟨Or.inl rfl, ?_⟩
    rcases hcand with hno | ⟨a', ho, hc⟩
    · exact Or.inl (by omega)
    · cases ho
      exact Or.inr ⟨by omega, current, hlook, (candidate_resolveLive hlive hc).1⟩
  · refine ⟨hfile, Or.inl ?_⟩
    rcases hcand with hno | ⟨a', ho, hc⟩
    · omega
    · exfalso
      rcases hbase with hnone | ⟨reason, st, -, hsome⟩
      · cases hnone.symm.trans ho
      · cases hsome.symm.trans ho
        have hb : getKey (sectionOfAssignment (baselineAssignment E reason st none baselineArm))
            "assignment" = .str "baseline" := rfl
        rw [hb, Json.str.injEq] at hc
        exact absurd hc (by decide)

/-! ### Any number of requests -/

/-- What the state file holds is not live, unless it is the state. -/
def Current (E : Env F) (state : Dict F) (stateFile : Option String) : Prop :=
  ∀ text loaded, stateFile = some text → loadDeploymentState E text = .ok loaded →
    inLiveStages (getKey loaded "stage") = .ok true → loaded = state

/-- A rolled back state is not live. -/
theorem current_rolledBack {s : Site F} {before after : Option String}
    (h : RolledBack E s before after) (state : Dict F) : Current E state after := by
  obtain ⟨text, current, next, written, reason, now, -, hload, ht, hw, rfl⟩ := h
  rintro text' loaded hte hl hlive
  cases hte
  have hwf := wellFormed_transition E (wellFormed_load hload) ht
  cases (load_stateText hwf hw).symm.trans hl
  have hstrip : strip Stage.rolledBack.value = Stage.rolledBack.value := by decide
  have hstage : getKey next "stage" = .str Stage.rolledBack.value := by
    rw [(transition_moves E ht).1, hstrip]
  have hlive' : inLiveStages (.str Stage.rolledBack.value : Json F) = .ok false := rfl
  rw [getKey_sorted_str hwf hstage, hlive'] at hlive
  cases hlive

/-- What requests keep: the log is filed, and only the state can be live. -/
structure Kept (E : Env F) (state : Dict F) (d : Disk) : Prop where
  filed : Filed E d.log
  current : Current E state d.stateFile

variable (E) in
/-- The request takes the candidate when the count is equal to the budget. -/
def Overdraws (s : Site F) (state : Dict F) (b : ℤ) (d : Disk) (x : Arrival F) : Prop :=
  (exposed E state d.log : ℤ) = b ∧ LooksUp E s d.log (x.at d) state ∧
    TakesCandidate E state x.request x.roots.selected.length x.conditions.bucket

section Run
variable {s : Site F} {state : Dict F} {b : ℤ}

theorem current_of_looksUp {d : Disk} {x : Arrival F} {current : Dict F}
    (hc : Current E state d.stateFile) (h : LooksUp E s d.log (x.at d) current) : current = state := by
  obtain ⟨text, hfile, hload, -⟩ := h.loaded
  exact hc text current hfile hload h.live

/-- What one request keeps, and what it adds to the count. -/
theorem kept_request {d d' : Disk} {x : Arrival F} (hk : Kept E state d)
    (h : request E s d x = .ok d') : Kept E state d' ∧
      (exposed E state d'.log = exposed E state d.log ∨
        exposed E state d'.log ≤ exposed E state d.log + 1 ∧ LooksUp E s d.log (x.at d) state ∧
          TakesCandidate E state x.request x.roots.selected.length x.conditions.bucket) := by
  obtain ⟨hf, hfile, hcount⟩ := exposed_request hk.filed h state
  have hcur : Current E state d'.stateFile := by
    rcases hfile with he | hr
    · rw [he]
      exact hk.current
    · exact current_rolledBack hr state
  refine ⟨⟨hf, hcur⟩, ?_⟩
  rcases hcount with hno | ⟨hle, current, hlook, htakes⟩
  · exact Or.inl hno
  · obtain rfl := current_of_looksUp hk.current hlook
    exact Or.inr ⟨hle, hlook, htakes⟩

end Run

/-! ### One request too many -/

section Samples

/-- Rows with a time of creation can be sorted by it. -/
theorem byCreation_ok : ∀ {rows : List (Dict F)}, (∀ row ∈ rows, ∃ text,
    E.strOr row "created_at" "" = .ok text) → ∃ out, byCreation E rows = .ok out := by
  intro rows h
  have hm : ∃ dated, (rows.mapM fun row => do return (← E.strOr row "created_at" "", row)) =
      (.ok dated : Py _) := by
    induction rows with
    | nil => exact ⟨[], rfl⟩
    | cons row rows ih =>
      obtain ⟨text, ht⟩ := h row (List.mem_cons_self ..)
      obtain ⟨dated, hd⟩ := ih fun r hr => h r (List.mem_cons_of_mem _ hr)
      refine ⟨(text, row) :: dated, ?_⟩
      rw [List.mapM_cons, hd, ht]
      rfl
  obtain ⟨dated, hm⟩ := hm
  unfold byCreation
  rw [hm]
  exact ⟨_, rfl⟩

theorem liveRows_ok : ∀ {rows : List (Dict F)}, (∀ row ∈ rows, ∃ live,
    inLiveStages (getKey (sectionOf row) "stage") = .ok live) → ∃ out, liveRows rows = .ok out
  | [], _ => ⟨[], rfl⟩
  | row :: rows, h => by
    obtain ⟨live, hl⟩ := h row (List.mem_cons_self ..)
    obtain ⟨out, ho⟩ := liveRows_ok fun r hr => h r (List.mem_cons_of_mem _ hr)
    rw [liveRows, hl, ho]
    exact ⟨_, rfl⟩

/-- The rows of exposures without outcomes are counted. -/
theorem exposureOf_ok {rows : List (Dict F)} (h : ∀ row ∈ rows, getKey row "outcome" = .null) :
    exposureOf E rows = .ok ⟨(assigned E "candidate" rows).length,
      (assigned E "control" rows).length, 0, 0, .fin 0⟩ := by
  have hnone : (assigned E "candidate" rows).filterMap (verifiedOutcome E) = [] := by
    rw [List.filterMap_eq_nil_iff]
    intro row hrow
    have hn := h row (List.mem_filter.mp hrow).1
    rw [verifiedOutcome, objOf?, hn]
  unfold exposureOf
  simp only [hnone]
  rfl

/-- The live rows of a log of exposures without outcomes. -/
theorem live_ok {log : Log} {state : Dict F} {id : String} {g : ℤ} (hfiled : Filed E log)
    (hall : ∀ file ∈ log, isExposure E state file = true)
    (hid : getKey state "policy_id" = .str id) (hg : getKey state "generation" = .int g) :
    ∃ live, (do liveRows (← deploymentRows E log ⟨[], []⟩ state)) = .ok live ∧
      ∀ row ∈ live, getKey row "outcome" = .null := by
  obtain ⟨all, hload, hperm⟩ := load_filed E hfiled ⟨[], []⟩
  have hrow : ∀ row ∈ all, ∃ file ∈ log, row = rowOf ⟨[], []⟩ file.1 (.obj (content E file.2)) := by
    intro row hr
    obtain ⟨file, hf, he⟩ := List.mem_map.mp (hperm.mem_iff.mp hr)
    exact ⟨file, hf, he.symm⟩
  have hid' : E.strOr state "policy_id" "" = .ok id := strOr_of_getKey hid _
  have hg' : E.toInt ((lookup "generation" state).getD (.int 0)) = .ok g := by
    rw [lookup_of_getKey hg (by simp)]
    rfl
  obtain ⟨rows, hrows⟩ := @byCreation_ok F E (all.filter (ofDeployment E id g))
    fun row hr => by
      obtain ⟨file, hf, rfl⟩ := hrow row (List.mem_filter.mp hr).1
      have hprint := printable_jsonLoads E (hfiled.holds file hf).text
      obtain ⟨text, ht⟩ := strOr_ok hprint "created_at" ""
      refine ⟨text, ?_⟩
      rw [← ht, Env.strOr, Env.strOr, rowOf, lookup_setKey_ne (by decide),
        lookup_setKey_ne (by decide)]
  have hmem : ∀ row ∈ rows, row ∈ all := fun row hr =>
    (List.mem_filter.mp ((byCreation_perm hrows).mem_iff.mp hr)).1
  obtain ⟨live, hlive⟩ := @liveRows_ok F rows fun row hr => by
    obtain ⟨file, hf, rfl⟩ := hrow row (hmem row hr)
    have hex := hall file hf
    simp only [isExposure, Bool.and_eq_true] at hex
    have hl := hex.1.2
    unfold isLive at hl
    rw [sectionOf, objOf?, sectionOf_rowOf, ← objOf?, ← sectionOf]
    cases hi : inLiveStages (getKey (sectionOf (content E file.2)) "stage") with
    | ok live => exact ⟨live, rfl⟩
    | error e =>
      rw [hi] at hl
      cases hl
  refine ⟨live, ?_, fun row hr => ?_⟩
  · unfold deploymentRows
    rw [hid', hg']
    simp only [bind, Except.bind, hload, hrows, hlive]
  · rw [liveRows_eq hlive] at hr
    obtain ⟨file, -, rfl⟩ := hrow row (hmem row (List.mem_filter.mp hr).1)
    rw [rowOf, getKey_setKey_self]
    rfl

/-- Deployments are enabled, with automatic rollback. -/
def budgetSite : Site Cell :=
  { sampleSite with config := [("context", .obj [("deployment", .obj [("enabled", .bool true)])])] }

/-- Two roots, both selected. -/
def bothRoots : Roots := ⟨["app", "lib"], ["app", "lib"], List.Sublist.refl _⟩

/-- The decision id of a number, in binary. -/
def idOf (n : ℕ) : String :=
  String.ofList ((List.range 32).map fun i => if n.testBit i then '1' else '0')

theorem isDecisionId_idOf (n : ℕ) : isDecisionId (idOf n) = true := by
  rw [isDecisionId, idOf, Bool.and_eq_true, beq_iff_eq, List.all_eq_true]
  refine ⟨by simp, fun c hc => ?_⟩
  rw [String.toList_ofList] at hc
  obtain ⟨i, -, rfl⟩ := List.mem_map.mp hc
  split_ifs <;> decide

theorem idOf_injOn {m n : ℕ} (hm : m < 2 ^ 32) (hn : n < 2 ^ 32) (h : idOf m = idOf n) : m = n := by
  have hl := String.ofList_inj.mp h
  rw [List.map_inj_left] at hl
  refine Nat.eq_of_testBit_eq fun i => ?_
  by_cases hi : i < 32
  · have he := hl i (List.mem_range.mpr hi)
    by_cases h1 : m.testBit i = true <;> by_cases h2 : n.testBit i = true <;> simp_all
  · have hpow : 2 ^ 32 ≤ 2 ^ i := Nat.pow_le_pow_right (by omega) (by omega)
    rw [Nat.testBit_lt_two_pow (by omega), Nat.testBit_lt_two_pow (by omega)]

/-- A draw below every traffic fraction. -/
def lowest : Bucket Cell := ⟨.zero, "00"⟩

/-- A request that draws the candidate. -/
def arrival (n : ℕ) : Arrival Cell where
  request := sampleRequest
  roots := bothRoots
  conditions := { sampleConditions "" with bucket := lowest }
  draws := { sampleDraws with decisionId := idOf n }
  writes := sampleWrites

section Live
variable {text : String} {state : Dict Cell} (hload : loadDeploymentState platform text = .ok state)
  (hvalid : ∃ check, verifyDeploymentState platform state [1] = .ok check ∧ check.valid = true)
  (hstage : getKey state "stage" = .str Stage.canary1.value)
  (htraffic : getKey state "traffic_fraction" = .float .hundredth)
  (hman : getKey state "policy_manifest" = .obj (sortDict rootsManifest))
  (hguard : getKey state "guardrails" = .obj (sortDict (guardrailEntries platform sampleArgs)))
include hload hvalid hstage htraffic hman hguard

omit hload hvalid htraffic hman in
theorem sample_budget : Budget platform state 100 := by
  refine ⟨_, Stage.canary1.value, hguard, ?_, by decide +kernel⟩
  exact strOr_of_getKey hstage _

omit hload htraffic in
/-- Up to a hundred exposures the guardrails let a request pass. -/
theorem sample_passes {log : Log} (hfiled : Filed platform log)
    (hall : ∀ file ∈ log, isExposure platform state file = true)
    (hle : exposed platform state log ≤ 100) : ∃ report,
      evaluateLiveGuardrails platform budgetSite.statistics log ⟨[], []⟩ state [1] = .ok report ∧
        report.rollbackRequired = false := by
  obtain ⟨⟨id, hid⟩, g, hg⟩ := ids_of_valid hvalid hman rootsManifest_fields
  obtain ⟨live, hlive, hnull⟩ := live_ok hfiled hall hid hg
  have hcount := count_eq hfiled hid hg hlive
  obtain ⟨rows, hrows, hlive⟩ := bind_eq_ok.mp hlive
  obtain ⟨check, hcheck, hok⟩ := hvalid
  have hst : Env.strOr platform state "stage" "" = .ok Stage.canary1.value := strOr_of_getKey hstage _
  have hpol : getKey (sortDict rootsManifest) "policy" = .obj rootsPolicy := by decide
  have hbudget : ∀ candidate control, candidate ≤ 100 → budgetBlockers platform
      (sortDict (guardrailEntries platform sampleArgs)) (stageBudget
        (sortDict (guardrailEntries platform sampleArgs)) Stage.canary1.value)
      ⟨candidate, control, 0, 0, .fin 0⟩ = .ok [] := by
    intro candidate control hc
    have h1 : platform.toInt ((lookup "max_candidate_exposures" (stageBudget (sortDict
        (guardrailEntries platform sampleArgs)) Stage.canary1.value)).getD (.int 0)) = .ok 100 := by
      decide +kernel
    have h2 : platform.toInt ((lookup "max_candidate_failures" (stageBudget (sortDict
        (guardrailEntries platform sampleArgs)) Stage.canary1.value)).getD (.int 0)) = .ok 5 := by
      decide +kernel
    have h3 : finiteNumber? platform (getKey (stageBudget (sortDict (guardrailEntries platform
        sampleArgs)) Stage.canary1.value) "max_cumulative_realized_cost") = .ok none := by
      decide +kernel
    have h4 : failureRateBad platform (sortDict (guardrailEntries platform sampleArgs))
        ⟨candidate, control, 0, 0, .fin 0⟩ = .ok false := rfl
    unfold budgetBlockers
    rw [h1, h2, h3, h4]
    have hspent : exposuresSpent 100 candidate = false := by
      simp only [exposuresSpent, Bool.and_eq_false_iff, decide_eq_false_iff_not]
      omega
    simp [bind, Except.bind, hspent, flag, pure, Except.pure]
  refine ⟨⟨some ⟨(assigned platform "candidate" live).length,
    (assigned platform "control" live).length, 0, 0, .fin 0⟩, false, []⟩, ?_, rfl⟩
  unfold evaluateLiveGuardrails
  rw [hcheck, hst, hguard, hman]
  simp only [bind, Except.bind, hok, rootsManifest_fields, hpol, hrows, hlive, exposureOf_ok hnull,
    hbudget _ _ (hcount ▸ hle)]
  rfl

omit htraffic in
/-- The next request looks up its context. -/
theorem sample_looks {log : Log} (hfiled : Filed platform log)
    (hall : ∀ file ∈ log, isExposure platform state file = true)
    (hle : exposed platform state log ≤ 100) (n : ℕ) :
    LooksUp platform budgetSite log ((arrival n).at ⟨some text, log⟩) state := by
  have hlive : inLiveStages (getKey state "stage") = .ok true := by
    rw [hstage]
    decide
  obtain ⟨report, he, hr⟩ := sample_passes hvalid hstage hman hguard hfiled hall hle
  have hauto : autoRollbackEnabled platform budgetSite.config = true := by decide
  exact {
    enabled := by decide
    running := by decide
    path := rfl
    key := by decide
    loaded := by
      have he' : evaluateLiveGuardrails platform budgetSite.statistics log
          ((arrival n).at ⟨some text, log⟩).notes state budgetSite.signingKey = .ok report := he
      refine ⟨text, rfl, hload, some report, ?_, hr⟩
      unfold autoRollbackIfNeeded
      rw [hlive, hauto]
      simp only [bind, Except.bind, he', hr]
      rfl
    valid := hvalid
    live := hlive }

omit hload hvalid hstage hguard in
/-- The next request draws the candidate. -/
theorem sample_signed {a : Dict Cell} (hl : inLiveStages (getKey state "stage") = .ok true)
    (ha : resolveLive platform state sampleRequest 2 lowest = .ok a) :
    ∃ key, a = signedAssignment platform state "source_rank" key .hundredth lowest := by
  have harm : strip (policyArm platform rootsPolicy
      (contextText platform (sampleRequest.features 2) rootsFields)) = "source_rank" := by
    decide +kernel
  have ht := roots_target hman 2
  rw [harm] at ht
  have htr : platform.toFloat ((lookup "traffic_fraction" state).getD
      (.float (platform.T.ofRat 0))) = .ok .hundredth := by
    rw [lookup_of_getKey htraffic (by simp)]
    rfl
  exact ⟨_, resolveLive_signed hl rfl ht (by decide) htr (by decide +kernel) ha⟩

/-- **The next request adds an exposure.** -/
theorem sample_request {log : Log} (hfiled : Filed platform log)
    (hall : ∀ file ∈ log, isExposure platform state file = true)
    (hle : exposed platform state log ≤ 100) {n : ℕ} (hnew : idOf n ∉ log.map Prod.fst) :
    ∃ file, request platform budgetSite ⟨some text, log⟩ (arrival n) =
        .ok ⟨some text, log ++ [file]⟩ ∧ file.1 = idOf n ∧ Filed platform (log ++ [file]) ∧
      isExposure platform state file = true := by
  have hlook := sample_looks hload hvalid hstage hman hguard hfiled hall hle n
  obtain ⟨a, d, file, ha, hd, hp, hlogs, hid, hserve⟩ := serve_logs hlook rfl (arrival n).request
    (arrival n).roots (g := (arrival n).draws) (w := (arrival n).writes) (isDecisionId_idOf n) hnew rfl
  have ha' : resolveLive platform state sampleRequest 2 lowest = .ok a := ha
  obtain ⟨key, hsigned⟩ := sample_signed htraffic hman hlook.live ha'
  have hcand : isCandidate platform .hundredth lowest = true := by decide +kernel
  have hreq : request platform budgetSite ⟨some text, log⟩ (arrival n) =
      .ok ⟨some text, log ++ [file]⟩ := by
    unfold request
    rw [hserve]
    rfl
  refine ⟨file, hreq, hid, (exposed_request hfiled hreq state).1, ?_⟩
  obtain ⟨⟨id, hpid⟩, -⟩ := ids_of_valid hvalid hman rootsManifest_fields
  have harm : Env.strOr platform a "chosen_arm" baselineArm = .ok "source_rank" := by
    rw [hsigned, signedAssignment, hcand]
    rfl
  have hvalidArms : ∃ parsed, validAssignment platform a (strip "source_rank")
      (arrival n).request.decision.risk.value = .ok (some parsed) := by
    have harms : getKey a "arm_propensities" = .obj (setKey "source_rank"
        (.float (platform.T.round .hundredth 12)) [(baselineArm,
          .float (platform.T.round (platform.T.ofRat (1 - platform.T.rat .hundredth)) 12))]) := by
      rw [hsigned]
      rfl
    have hrisk : (arrival n).request.decision.risk.value = "low" := rfl
    unfold validAssignment
    rw [harms, hrisk]
    exact ⟨[(baselineArm, .float .ninetyNine), ("source_rank", .float .hundredth)], by decide +kernel⟩
  have hc : getKey (sectionOfAssignment a) "assignment" = .str "candidate" := by
    have hsec : getKey (sectionOfAssignment (signedAssignment platform state "source_rank" key
        .hundredth lowest)) "assignment" = .str (if isCandidate platform .hundredth lowest
          then "candidate" else "control") := rfl
    rw [hsigned, hsec, hcand]
    rfl
  exact exposure_of_candidate hlogs hp (deployment_choose hd harm hvalidArms) hpid hlook.live hc
    (candidate_resolveLive ha' hc).2

/-- Requests that draw the candidate, one after another. -/
theorem sample_run : ∀ n ≤ 101, ∃ log, run (request platform budgetSite) ⟨some text, []⟩
      ((List.range n).map arrival) = .ok ⟨some text, log⟩ ∧ log.map Prod.fst = (List.range n).map idOf ∧
    Filed platform log ∧ ∀ file ∈ log, isExposure platform state file = true := by
  intro n
  induction n with
  | zero => exact fun _ => ⟨[], rfl, rfl, ⟨List.nodup_nil, by simp⟩, by simp⟩
  | succ n ih =>
    intro hn
    obtain ⟨log, hrun, hids, hfiled, hall⟩ := ih (by omega)
    have hlen : log.length = n := by
      have := congrArg List.length hids
      simpa using this
    have hle : exposed platform state log ≤ 100 := by
      have := List.countP_le_length (p := isExposure platform state) (l := log)
      rw [exposed]
      omega
    have hnew : idOf n ∉ log.map Prod.fst := by
      rw [hids]
      intro h
      obtain ⟨m, hm, he⟩ := List.mem_map.mp h
      have hlt := List.mem_range.mp hm
      have := idOf_injOn (m := m) (n := n) (by omega) (by omega) he
      omega
    obtain ⟨file, hreq, hid, hfiled', hex⟩ := sample_request hload hvalid hstage htraffic hman hguard
      hfiled hall hle hnew
    refine ⟨log ++ [file], ?_, ?_, hfiled', ?_⟩
    · rw [List.range_succ, List.map_append]
      exact run_append.mpr ⟨_, hrun, run_cons.mpr ⟨_, hreq, rfl⟩⟩
    · rw [List.map_append, hids, List.range_succ, List.map_append, List.map_singleton,
        List.map_singleton, hid]
    · intro f hf
      rcases List.mem_append.mp hf with hf | hf
      · exact hall f hf
      · rwa [List.mem_singleton.mp hf]

end Live

end Samples

end ControlPlane.Deployment.Exposure
