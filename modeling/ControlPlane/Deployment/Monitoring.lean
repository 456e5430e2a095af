import ControlPlane.Deployment.Exposure
import ControlPlane.Deployment.Statistics
import ControlPlane.Deployment.Binding

/-! # Live monitoring

The guardrails are evaluated for every live state of a deployment, over the rows that its requests
logged. `Monitors` says that the evaluation returns, and that no score it feeds to the sequential bound
is above the bound it is computed with.

`monitors_iff`: this is so in every run if and only if the arguments of the creation are `Admissible`.
The creation refuses a weight below 100 and nothing else, so that an infinite weight, a product that
overflows and a NaN get through. -/

namespace ControlPlane.Deployment.Monitoring

open ControlPlane.Lib.Value ControlPlane.Lib.Print ControlPlane.Lib.Text ControlPlane.Lib.Dumps
open ControlPlane.Lib.Floats ControlPlane.Lib.Weights ControlPlane.Lib.Dynamic ControlPlane.Lib.Runs
open ControlPlane.Lib.SignedGrid ControlPlane.Environment ControlPlane.Instance
open ControlPlane.Learning.Features ControlPlane.Learning.Decision ControlPlane.Learning.Records
open ControlPlane.Deployment.Stages ControlPlane.Deployment.Manifest ControlPlane.Deployment.Reread
open ControlPlane.Deployment.State ControlPlane.Deployment.Guardrails ControlPlane.Deployment.Refinement
open ControlPlane.Deployment.Creation ControlPlane.Deployment.Runs ControlPlane.Deployment.Exposure
open ControlPlane.Deployment.Statistics

variable {F : Type} (E : Env F)

/-! ### Decision logs -/

/-- A row of the deployment as requests and verifiers log it, under a bounded traffic fraction `b`. -/
structure Logged (b : F) (row : Dict F) : Prop where
  stage : ∃ live, inLiveStages (getKey (sectionOf row) "stage") = .ok live
  probability : ∀ st ∈ Stage.live, getKey (sectionOf row) "stage" = .str st.value →
    ∀ text candidate, E.strOr (sectionOf row) "assignment" "" = .ok text →
      group? text = some candidate →
        getKey (sectionOf row) "candidate_probability" = .float (stageFraction E b st)
  reward : ∀ outcome, objOf? row "outcome" = some outcome → Readable (E := E) (getKey outcome "reward")
  cost : ∀ outcome, objOf? row "outcome" = some outcome →
    Readable (E := E) (getKey outcome "realized_cost")

/-- **A decision log in which the candidate probabilities are the traffic fractions of the stages.** -/
structure DecisionLog (b : F) (state : Dict F) (log : Log) (notes : Notes F) : Prop where
  filed : Filed E log
  observations : printable E.T.toFloatText true (.obj notes.observations) = true
  outcomes : printable E.T.toFloatText true (.obj notes.outcomes) = true
  logged : ∀ file ∈ log, ∀ id g, getKey state "policy_id" = .str id →
    getKey state "generation" = .int g →
      ofDeployment E id g (rowOf notes file.1 (.obj (content E file.2))) = true →
        Logged E b (rowOf notes file.1 (.obj (content E file.2)))

/-- The evaluation returns, and what it feeds to the sequential bound is within the bound. -/
structure Monitors (S : Sampling) (log : Log) (notes : Notes F) (state : Dict F) (key : Key) : Prop where
  returns : ∃ report, evaluateLiveGuardrails E (liveStatistics E S) log notes state key = .ok report
  sound : ∀ guardrails rows m, getKey state "guardrails" = .obj guardrails →
    (do liveRows (← deploymentRows E log notes state)) = .ok rows →
      monitoring E guardrails rows = .ok m → ∀ x ∈ m.scores, x.abs.le m.absoluteBound = true

/-- A state, or the one that its file holds. -/
def Stored (s state : Dict F) : Prop := state = s ∨ state = sortDict s

/-- The greater of the absolute values of the reward bounds. -/
def maxReward (a : CreateArgs F) : ℚ := max |E.T.rat a.rewardMin| |E.T.rat a.rewardMax|

/-- **What the arguments have to satisfy**: the weight times the greatest reward is a number, or the
weight is a NaN and even the greatest weight of a stage gives next to nothing. -/
def Admissible (a : CreateArgs F) : Prop :=
  Bounded E (E.T.view a.maxImportanceWeight) (maxReward E a)

/-! ### Stored objects -/

variable {E}

section Stored
variable {s state : Dict F} (h : Stored s state) (hs : wellFormed (.obj s) = true)
include h hs

theorem stored_getKey (k : String) :
    getKey state k = getKey s k ∨ getKey state k = sortKeys (getKey s k) := by
  rcases h with rfl | rfl
  · exact Or.inl rfl
  · exact Or.inr (getKey_sorted hs k)

theorem stored_scalar {k : String} {v : Json F} (hk : getKey s k = v) (hv : sortKeys v = v) :
    getKey state k = v := by
  rcases stored_getKey h hs k with he | he
  · rw [he, hk]
  · rw [he, hk, hv]

theorem stored_object {k : String} {d : Dict F} (hk : getKey s k = .obj d) :
    ∃ e, getKey state k = .obj e ∧ Stored d e := by
  rcases stored_getKey h hs k with he | he
  · exact ⟨d, he.trans hk, Or.inl rfl⟩
  · exact ⟨sortDict d, by rw [he, hk, sortKeys_obj'], Or.inr rfl⟩

theorem stored_list {k : String} {xs : List (Json F)} (hk : getKey s k = .arr xs) :
    ∃ ys, getKey state k = .arr ys ∧ (ys = xs ∨ ys = xs.map sortKeys) := by
  rcases stored_getKey h hs k with he | he
  · exact ⟨xs, he.trans hk, Or.inl rfl⟩
  · exact ⟨xs.map sortKeys, by rw [he, hk, sortKeys_arr], Or.inr rfl⟩

end Stored

/-! ### The rows of a log -/

/-- The fraction of a live stage is a probability from a hundredth to a quarter. -/
theorem stageProbability {b : F} (hf : E.T.finite b = true) (hb : boundedOk E b = true) {st : Stage}
    (hst : st ∈ Stage.live) :
    ∃ p, E.T.view (stageFraction E b st) = .fin p ∧ StageProbability E p := by
  obtain ⟨p, hp⟩ := finite_stageFraction E hf hb st
  have hle := stageFraction_le E hb st
  have hb' := hb
  unfold boundedOk at hb'
  rw [Bool.and_eq_true] at hb'
  refine ⟨p, hp, ?_, hp ▸ Num.le_trans hle hb'.2⟩
  rw [← hp]
  unfold stageFraction
  split_ifs with hbounded
  · exact Num.le_trans (E.T.lit_mono (by norm_num)) (Num.le_of_lt hb'.1)
  · have hq : (1 / 100 : ℚ) ≤ st.traffic := by
      simp only [Stage.live, List.mem_cons, List.not_mem_nil, or_false] at hst
      rcases hst with rfl | rfl | rfl | rfl
      · norm_num [Stage.traffic]
      · norm_num [Stage.traffic]
      · norm_num [Stage.traffic]
      · exact absurd rfl hbounded
    exact E.T.ofRat_mono _ _ hq

theorem printable_rowOf {log : Log} (hf : Filed E log) {notes : Notes F}
    (h1 : printable E.T.toFloatText true (.obj notes.observations) = true)
    (h2 : printable E.T.toFloatText true (.obj notes.outcomes) = true) {file : String × String}
    (hfile : file ∈ log) :
    printable E.T.toFloatText true (.obj (rowOf notes file.1 (.obj (content E file.2)))) = true := by
  have hc := printable_jsonLoads E (hf.holds file hfile).text
  exact printable_setKey (printable_setKey hc _ (printable_getKey h1 _)) _ (printable_getKey h2 _)

theorem liveRows_isOk : ∀ {rows : List (Dict F)},
    (∀ row ∈ rows, ∃ live, inLiveStages (getKey (sectionOf row) "stage") = .ok live) →
    ∃ out, liveRows rows = .ok out
  | [], _ => ⟨[], rfl⟩
  | row :: rows, h => by
    rw [List.forall_mem_cons] at h
    rw [liveRows]
    exact bind_isOk h.1 fun _ _ => bind_isOk (liveRows_isOk h.2) fun _ _ => ⟨_, rfl⟩

theorem stage_of_isLive {row : Dict F} (h : isLive row = true) :
    ∃ st ∈ Stage.live, getKey (sectionOf row) "stage" = .str st.value := by
  unfold isLive inLiveStages at h
  cases hs : getKey (sectionOf row) "stage" with
  | str text =>
    rw [hs] at h
    have hmem : text ∈ Stage.live.map Stage.value := by simpa using h
    obtain ⟨st, hst, rfl⟩ := List.mem_map.mp hmem
    exact ⟨st, hst, rfl⟩
  | null => simp [hs] at h
  | bool b => simp [hs] at h
  | int n => simp [hs] at h
  | float x => simp [hs] at h
  | arr xs => simp [hs] at h
  | obj d => simp [hs] at h

section Log
variable {b : F} {state : Dict F} {log : Log} {notes : Notes F}
  (hlog : DecisionLog E b state log notes) {id : String} (hid : getKey state "policy_id" = .str id)
  {g : ℤ} (hg : getKey state "generation" = .int g)
include hlog hid hg

/-- The rows of the deployment are the rows of its files, in some order. -/
theorem deploymentRows_isOk : ∃ rows, deploymentRows E log notes state = .ok rows ∧
    ∀ row, row ∈ rows ↔ ∃ file ∈ log, rowOf notes file.1 (.obj (content E file.2)) = row ∧
      ofDeployment E id g row = true := by
  obtain ⟨all, hall, hperm⟩ := load_filed E hlog.filed notes
  have hmem : ∀ row, row ∈ all ↔ ∃ file ∈ log, rowOf notes file.1 (.obj (content E file.2)) = row :=
    fun row => hperm.mem_iff.trans List.mem_map
  have hid' : E.strOr state "policy_id" "" = .ok id := strOr_of_getKey hid _
  have hg' : E.toInt ((lookup "generation" state).getD (.int 0)) = .ok g := by
    rw [lookup_of_getKey hg (by simp)]
    rfl
  have hdated : ∃ out, byCreation E (all.filter (ofDeployment E id g)) = .ok out := by
    refine bind_isOk (mapM_isOk fun row hrow => ?_) fun _ _ => ⟨_, rfl⟩
    obtain ⟨file, hfile, rfl⟩ := (hmem row).mp (List.mem_filter.mp hrow).1
    exact bind_isOk (strOr_ok (printable_rowOf hlog.filed hlog.observations hlog.outcomes hfile) _ _)
      fun _ _ => ⟨_, rfl⟩
  obtain ⟨out, hout⟩ := hdated
  refine ⟨out, ?_, fun row => ?_⟩
  · unfold deploymentRows
    rw [hid', hg']
    simp only [bind, Except.bind, hall, hout]
  · rw [(byCreation_perm hout).mem_iff, List.mem_filter, hmem]
    constructor
    · rintro ⟨⟨file, hfile, he⟩, hof⟩
      exact ⟨file, hfile, he, hof⟩
    · rintro ⟨file, hfile, he, hof⟩
      exact ⟨⟨file, hfile, he⟩, hof⟩

/-- **The live rows of a log can be scored.** -/
theorem liveRows_of_log (hf : E.T.finite b = true) (hb : boundedOk E b = true) :
    ∃ rows, (do liveRows (← deploymentRows E log notes state)) = .ok rows ∧
      (∀ row, row ∈ rows ↔ (∃ file ∈ log, rowOf notes file.1 (.obj (content E file.2)) = row ∧
        ofDeployment E id g row = true) ∧ isLive row = true) ∧ ∀ row ∈ rows, Scorable E row := by
  obtain ⟨all, hall, hmem⟩ := deploymentRows_isOk hlog hid hg
  have hlogged : ∀ row ∈ all, Logged E b row := by
    intro row hrow
    obtain ⟨file, hfile, rfl, hof⟩ := (hmem row).mp hrow
    exact hlog.logged file hfile id g hid hg hof
  obtain ⟨rows, hrows⟩ := liveRows_isOk fun row hrow => (hlogged row hrow).stage
  have hlive : ∀ row, row ∈ rows ↔ row ∈ all ∧ isLive row = true := by
    intro row
    rw [liveRows_eq hrows, List.mem_filter]
  refine ⟨rows, bind_eq_ok.mpr ⟨all, hall, hrows⟩, fun row => by rw [hlive, hmem], fun row hrow => ?_⟩
  obtain ⟨hin, hl⟩ := (hlive row).mp hrow
  obtain ⟨file, hfile, rfl, hof⟩ := (hmem row).mp hin
  have hlg := hlogged _ hin
  obtain ⟨st, hst, hstage⟩ := stage_of_isLive hl
  refine ⟨printable_rowOf hlog.filed hlog.observations hlog.outcomes hfile, ?_, hlg.reward, hlg.cost⟩
  intro deployment text candidate hd htext hc
  have hsec : sectionOf (rowOf notes file.1 (.obj (content E file.2))) = deployment := by
    rw [sectionOf, hd]
    rfl
  obtain ⟨p, hp, hs⟩ := stageProbability hf hb hst
  refine ⟨stageFraction E b st, p, ?_, hp, hs⟩
  rw [← hsec] at htext ⊢
  exact hlg.probability st hst hstage text candidate htext hc

end Log

/-! ### A stored state -/

variable (E) in
/-- What the evaluation finds in a stored state of a live stage. -/
structure Ready (a : CreateArgs F) (state : Dict F) (key : Key) : Prop where
  checked : ∃ check, verifyDeploymentState E state key = .ok check
  stage : ∃ st ∈ Stage.live, getKey state "stage" = .str st.value
  policyId : ∃ id, getKey state "policy_id" = .str id
  generation : ∃ g, getKey state "generation" = .int g
  guardrails : ∃ guardrails, getKey state "guardrails" = .obj guardrails ∧
    Stored (guardrailEntries E a) guardrails
  manifest : ∃ manifest raw policy, getKey state "policy_manifest" = .obj manifest ∧
    getKey manifest "context_fields" = .arr raw ∧ getKey manifest "policy" = .obj policy ∧
    ∀ x ∈ raw, printable E.T.toFloatText true x = true
  baseline : ∀ p ∈ baselineDistribution state, Readable (E := E) p.2

/-- A valid manifest can be checked when it is read back. -/
theorem verifyPolicyManifest_sorted {m : Dict F} {key : Key} (hm : wellFormed (.obj m) = true)
    {fields : List String} {policy : Dict F} {cutoff source : String}
    (h : Verified E m key fields policy cutoff source) :
    ∃ check, verifyPolicyManifest E (sortDict m) key = .ok check := by
  obtain ⟨ctext, hct, hcut⟩ := h.cutoffOf
  obtain ⟨stext, hst, hsrc⟩ := h.sourceOf
  have hct' := strOr_sortDict E hm hct (hcut ▸ h.cutoff_ne)
  have hst' := strOr_sortDict E hm hst (hsrc ▸ h.source_ne)
  have hfields := (fieldsCheck_iff E).mpr (fieldsOf_sortDict E hm h.fieldsOf)
  obtain ⟨d, hd, -⟩ := (validatePolicy_eq_ok E).mp h.policyOf
  have hpol := h.policyOf
  rw [hd] at hpol
  obtain ⟨policy', hpol'⟩ := validatePolicy_sortDict E hpol
  have hd' : getKey (sortDict m) "policy" = .obj (sortDict d) := by
    rw [getKey_sorted hm, hd, sortKeys_obj']
  have hpolicy : policyCheck E (sortDict m) = .ok (policy', []) :=
    (policyCheck_iff E).mpr (by rw [hd']; exact hpol')
  have hsig := (signatureErrors_iff E h.signed.key_ne).mpr (signed_sortDict E hm h.signed)
  have hid : ∀ cutoff source, ∃ errors,
      policyIdErrors E (sortDict m) fields policy' cutoff source = .ok errors := by
    intro cutoff source
    obtain ⟨text, ht, hp⟩ := policyId_eq_ok E fields cutoff source (isPolicy_of_validatePolicy E hpol')
    unfold policyIdErrors
    split_ifs
    · rw [hp]
      exact ⟨_, rfl⟩
    · exact ⟨_, rfl⟩
  unfold verifyPolicyManifest
  exact bind_isOk ⟨_, hfields⟩ fun f hf => bind_isOk ⟨_, hpolicy⟩ fun p hp => by
    cases hfields.symm.trans hf
    cases hpolicy.symm.trans hp
    exact bind_isOk ⟨_, hct'⟩ fun _ _ => bind_isOk ⟨_, hst'⟩ fun _ _ => bind_isOk (hid _ _) fun _ _ =>
      bind_isOk ⟨_, hsig⟩ fun _ _ => ⟨_, rfl⟩

section Run
variable {records : List (Dict F)} {manifest report first : Dict F} {key : Key} {a : CreateArgs F}
  {now : String} (hm : wellFormed (.obj manifest) = true)
  (hc : createDeploymentState E records manifest report key a now = .ok first)

include hm hc in
/-- A state of a run can be checked, also when it is read back. -/
theorem verify_stored {as : List (TransitionArgs F)} {s state : Dict F}
    (hr : runTransitions E key first as = .ok s) (hst : Stored s state) :
    ∃ check, verifyDeploymentState E state key = .ok check := by
  obtain ⟨ht, hman, -, -, -⟩ := tracks_create E hm hc
  obtain ⟨⟨c, h⟩, hkeep⟩ := tracks_run E ht hr
  rcases hst with rfl | rfl
  · obtain ⟨check, hcheck, -⟩ := h.valid
    exact ⟨check, hcheck⟩
  · obtain ⟨hv, -⟩ := (create_eq_ok E).mp hc
    obtain ⟨fields, policy, cutoff, source, hver⟩ := (Manifest.verify_iff E).mp hv
    obtain ⟨check, hcheck⟩ := verifyPolicyManifest_sorted hm hver
    obtain ⟨b, hb, hf, hok⟩ := h.bounded
    obtain ⟨x, q, hx, htraffic, hq⟩ := h.finite_traffic
    have hb' : getKey (sortDict s) "bounded_traffic_fraction" = .float b := by
      rw [h.getKey_text, hb, sortKeys_float]
    have hx' : getKey (sortDict s) "traffic_fraction" = .float x := by
      rw [h.getKey_text, hx, sortKeys_float]
    have ht' : trafficForStage E (sortDict s) c.last.value = .ok x := by
      rw [trafficForStage_eq E hb', ← trafficForStage_eq E hb, htraffic]
    have hs' : E.strOr (sortDict s) "stage" "" = .ok c.last.value :=
      strOr_of_getKey (getKey_sorted_str h.wf h.stage) _
    have hm' : getKey (sortDict s) "policy_manifest" = .obj (sortDict manifest) := by
      rw [h.getKey_text, hkeep _ (by decide), hman, sortKeys_obj']
    have hmanifest : ∃ r, manifestErrors E (sortDict s) key = .ok r := by
      unfold manifestErrors
      rw [hm']
      exact bind_isOk ⟨_, hcheck⟩ fun _ _ => ⟨_, rfl⟩
    unfold verifyDeploymentState
    refine bind_isOk ⟨_, (verifySignature_iff E).mpr (signed_sortDict E h.wf h.signed)⟩ fun _ _ =>
      bind_isOk ⟨_, hs'⟩ fun stage hstage => bind_isOk hmanifest fun _ _ =>
        bind_isOk ⟨_, boundedBad_eq E hb'⟩ fun _ _ => ?_
    cases hs'.symm.trans hstage
    exact bind_isOk ⟨_, trafficBad_eq E hx' ht' ⟨q, hq⟩⟩ fun _ _ => ⟨_, rfl⟩

/-- The shares of the baseline distribution are floats. -/
theorem baseline_floats {records : List (Dict F)} {manifest d : Dict F} {limit : ℤ}
    (h : lowRiskContextDistribution E records manifest limit = .ok d) :
    ∃ shares : Dict F, getKey d "distribution" = .obj shares ∧ ∀ p ∈ shares, ∃ x, p.2 = .float x := by
  unfold lowRiskContextDistribution at h
  split at h
  · simp only [bind_eq_ok, pure, Except.pure, Except.ok.injEq] at h
    obtain ⟨fields, -, ⟨counts, accepted⟩, -, rfl⟩ := h
    refine ⟨_, by simp [getKey, lookup]; rfl, ?_⟩
    rw [List.forall_mem_map]
    exact fun p _ => ⟨_, rfl⟩
  · cases h

include hm hc in
/-- **A stored state of a live stage is ready for the evaluation.** -/
theorem ready_of_run {as : List (TransitionArgs F)} {s state : Dict F}
    (hr : runTransitions E key first as = .ok s)
    (hlive : ∃ st ∈ Stage.live, getKey s "stage" = .str st.value) (hst : Stored s state) :
    Ready E a state key := by
  obtain ⟨ht, hman, hid, hguard, -, baseline, hb, hbase⟩ := tracks_create E hm hc
  obtain ⟨⟨c, h⟩, hkeep⟩ := tracks_run E ht hr
  obtain ⟨hv, -, -, -, -⟩ := (create_eq_ok E).mp hc
  obtain ⟨fields, policy, cutoff, source, hver⟩ := (Manifest.verify_iff E).mp hv
  obtain ⟨raw, hraw⟩ := fields_of_distribution E hb
  have hman' : getKey s "policy_manifest" = .obj manifest := by rw [hkeep _ (by decide), hman]
  have hguard' : getKey s "guardrails" = .obj (guardrailEntries E a) := by
    rw [hkeep _ (by decide), hguard]
  have hbase' : getKey s "baseline_context_distribution" = .obj baseline := by
    rw [hkeep _ (by decide), hbase]
  obtain ⟨st, hstage, hs⟩ := hlive
  obtain ⟨⟨id, hpid⟩, -⟩ := ids_of_valid h.valid hman' hraw
  refine {
    checked := verify_stored hm hc hr hst
    stage := ⟨st, hstage, stored_scalar hst h.wf hs rfl⟩
    policyId := ⟨id, stored_scalar hst h.wf hpid rfl⟩
    generation := ⟨_, stored_scalar hst h.wf h.generation rfl⟩
    guardrails := stored_object hst h.wf hguard'
    manifest := ?_
    baseline := ?_ }
  · obtain ⟨m, hm', hstm⟩ := stored_object hst h.wf hman'
    obtain ⟨xs, hxs, hraws⟩ := stored_list hstm hm hraw
    obtain ⟨d, hd, -⟩ := (validatePolicy_eq_ok E).mp hver.policyOf
    obtain ⟨e, he, -⟩ := stored_object hstm hm hd
    have hprint : ∀ x ∈ raw, printable E.T.toFloatText true x = true := by
      rcases hver.fieldsOf with ⟨raw', hr', hvf⟩ | ⟨hno, -⟩
      · cases hraw.symm.trans hr'
        exact ((validateContextFields_eq_ok E).mp hvf).1
      · exact absurd hraw (hno raw)
    refine ⟨m, xs, e, hm', hxs, he, fun x hx => ?_⟩
    rcases hraws with rfl | rfl
    · exact hprint x hx
    · obtain ⟨y, hy, rfl⟩ := List.mem_map.mp hx
      rw [printable_sortKeys]
      exact hprint y hy
  · obtain ⟨shares, hshares, hfloat⟩ := baseline_floats hb
    have hwb : wellFormed (.obj baseline) = true := wellFormed_distribution E hb
    obtain ⟨m, hm', hstm⟩ := stored_object hst h.wf hbase'
    obtain ⟨e, he, hste⟩ := stored_object hstm hwb hshares
    have hdist : baselineDistribution state = e := by
      simp [baselineDistribution, hm', objOf?, he]
    rw [hdist]
    intro p hp
    rcases hste with rfl | rfl
    · obtain ⟨x, hx⟩ := hfloat p hp
      exact ⟨some x, by rw [hx]; rfl⟩
    · obtain ⟨q, hq, rfl⟩ := List.mem_map.mp ((perm_sortPairs _).mem_iff.mp hp)
      obtain ⟨x, hx⟩ := hfloat q hq
      exact ⟨some x, by rw [hx]; rfl⟩

end Run

/-! ### The guardrails of a creation -/

section Guardrails
variable {a : CreateArgs F} {guardrails : Dict F} (h : Stored (guardrailEntries E a) guardrails)
include h

theorem guardrail_scalar {k : String} {v : Json F} (hk : getKey (guardrailEntries E a) k = v)
    (hv : sortKeys v = v) : getKey guardrails k = v :=
  stored_scalar h (wellFormed_guardrails E a) hk hv

theorem rangeOf_eq : rangeOf E guardrails = .ok ⟨E.T.view a.rewardMin, E.T.view a.rewardMax,
    E.T.view a.maxImportanceWeight⟩ := by
  have h1 : getKey guardrails "reward_min" = .float a.rewardMin := guardrail_scalar h rfl rfl
  have h2 : getKey guardrails "reward_max" = .float a.rewardMax := guardrail_scalar h rfl rfl
  have h3 : getKey guardrails "max_importance_weight" = .float a.maxImportanceWeight :=
    guardrail_scalar h rfl rfl
  simp only [rangeOf, readFloat_eq h1, readFloat_eq h2, readFloat_eq h3, bind, Except.bind, pure,
    Except.pure]

/-- What is fed to the sequential bound, under the bounds of the creation. -/
theorem monitoring_eq_ok {rows : List (Dict F)} {m : Monitoring}
    (hm : monitoring E guardrails rows = .ok m) : ∃ violations,
      sequentialScores E ⟨E.T.view a.rewardMin, E.T.view a.rewardMax, E.T.view a.maxImportanceWeight⟩
        rows = .ok (m.scores, violations) ∧
      m.absoluteBound = absoluteBound E ⟨E.T.view a.rewardMin, E.T.view a.rewardMax,
        E.T.view a.maxImportanceWeight⟩ := by
  unfold monitoring at hm
  obtain ⟨r, hr, hm⟩ := bind_eq_ok.mp hm
  cases (rangeOf_eq h).symm.trans hr
  obtain ⟨⟨scores, violations⟩, hscores, hm⟩ := bind_eq_ok.mp hm
  cases hm
  exact ⟨violations, hscores, rfl⟩

theorem stageBudget_eq {st : Stage} (hst : st ∈ Stage.live) :
    ∃ budget, stageBudget guardrails st.value = budget ∧ Stored
      [("max_candidate_exposures", .int (defaultStageExposureBudget st)),
        ("max_candidate_failures", .int (defaultStageFailureBudget st)),
        ("max_cumulative_realized_cost", (a.maxCumulativeRealizedCost.map .float).getD .null)]
      budget := by
  have hw := wellFormed_guardrails E a
  have hbudgets : getKey (guardrailEntries E a) "stage_budgets" =
      .obj (stageBudgets a.maxCumulativeRealizedCost) := rfl
  have hwb : wellFormed (.obj (stageBudgets a.maxCumulativeRealizedCost)) = true :=
    hbudgets ▸ wellFormed_getKey hw "stage_budgets"
  obtain ⟨budgets, hb, hstored⟩ := stored_object h hw hbudgets
  have hone : getKey (stageBudgets a.maxCumulativeRealizedCost) st.value = .obj
      [("max_candidate_exposures", .int (defaultStageExposureBudget st)),
        ("max_candidate_failures", .int (defaultStageFailureBudget st)),
        ("max_cumulative_realized_cost", (a.maxCumulativeRealizedCost.map .float).getD .null)] := by
    simp only [Stage.live, List.mem_cons, List.not_mem_nil, or_false] at hst
    rcases hst with rfl | rfl | rfl | rfl <;> rfl
  obtain ⟨budget, hbudget, hs⟩ := stored_object hstored hwb hone
  refine ⟨budget, ?_, hs⟩
  rw [stageBudget, objOf?, hb]
  dsimp only
  rw [objOf?, hbudget]
  rfl

theorem budgetBlockers_isOk {st : Stage} (hst : st ∈ Stage.live) (e : Guardrails.Exposure) :
    ∃ blockers, budgetBlockers E guardrails (stageBudget guardrails st.value) e = .ok blockers := by
  obtain ⟨budget, hbudget, hs⟩ := stageBudget_eq h hst
  have hwb : wellFormed (.obj [("max_candidate_exposures", .int (defaultStageExposureBudget st)),
      ("max_candidate_failures", .int (defaultStageFailureBudget st)),
      ("max_cumulative_realized_cost", (a.maxCumulativeRealizedCost.map .float).getD .null)] :
        Json F) = true := by
    rw [wellFormed_obj]
    refine ⟨by simp [keys], ?_⟩
    simp only [List.forall_mem_cons]
    exact ⟨rfl, rfl, by cases a.maxCumulativeRealizedCost <;> rfl, by simp⟩
  have h1 : getKey budget "max_candidate_exposures" = .int (defaultStageExposureBudget st) :=
    stored_scalar hs hwb rfl rfl
  have h2 : getKey budget "max_candidate_failures" = .int (defaultStageFailureBudget st) :=
    stored_scalar hs hwb rfl rfl
  have h3 : getKey budget "max_cumulative_realized_cost" =
      (a.maxCumulativeRealizedCost.map .float).getD .null :=
    stored_scalar hs hwb rfl (by cases a.maxCumulativeRealizedCost <;> rfl)
  have h4 : getKey guardrails "minimum_monitor_outcomes" = .int (max 1 a.minimumMonitorOutcomes) :=
    guardrail_scalar h rfl rfl
  have h5 : getKey guardrails "max_failure_rate" = .float a.maxFailureRate := guardrail_scalar h rfl rfl
  rw [hbudget]
  unfold budgetBlockers
  refine bind_isOk ⟨_, readInt_eq h1 0⟩ fun _ _ => bind_isOk ⟨_, readInt_eq h2 0⟩ fun _ _ =>
    bind_isOk (finiteNumber_isOk ?_) fun _ _ => bind_isOk ?_ fun _ _ => ⟨_, rfl⟩
  · rw [h3]
    cases a.maxCumulativeRealizedCost with
    | none => exact ⟨none, rfl⟩
    | some x => exact ⟨some x, rfl⟩
  · unfold failureRateBad
    refine bind_isOk ⟨_, readInt_eq h4 20⟩ fun _ _ => bind_isOk ⟨a.maxFailureRate, ?_⟩ fun _ _ => ⟨_, rfl⟩
    rw [lookup_of_getKey h5 (by simp)]
    rfl

end Guardrails

/-! ### The evaluation -/

theorem costOf_isOk : ∀ {outcomes : List (Dict F)} {total : Num},
    (∀ outcome ∈ outcomes, Readable (E := E) (getKey outcome "realized_cost")) →
    ∃ cost, costOf E outcomes total = .ok cost
  | [], _, _ => ⟨_, rfl⟩
  | outcome :: outcomes, total, h => by
    rw [List.forall_mem_cons] at h
    rw [costOf]
    refine bind_isOk (finiteNumber_isOk h.1) fun x _ => ?_
    cases x with
    | none => exact costOf_isOk h.2
    | some x => exact costOf_isOk h.2

theorem exposureOf_isOk {rows : List (Dict F)} (h : ∀ row ∈ rows, Scorable E row) :
    ∃ e, exposureOf E rows = .ok e := by
  unfold exposureOf
  refine bind_isOk (costOf_isOk fun outcome ho => ?_) fun _ _ => ⟨_, rfl⟩
  obtain ⟨row, hrow, hv⟩ := List.mem_filterMap.mp ho
  exact (h row (List.mem_filter.mp hrow).1).cost outcome (outcome_of_verified hv)

section Statistics
variable (hT : Precise E.T) {a : CreateArgs F} (S : Sampling)
include hT

/-- The sequential bound can be computed with a positive number. -/
theorem anytime_isOk {b : ℚ} (hb : 0 < b) (values : List Num) :
    ∃ s, anytimeHoeffdingSequence E S values (confidence E) (.fin b) = .ok s := by
  unfold anytimeHoeffdingSequence
  exact bind_isOk ⟨⟨⟩, require_eq_ok.mpr (confidence_ok hT)⟩ fun _ _ =>
    bind_isOk ⟨⟨⟩, require_eq_ok.mpr (by simp [finite?, hb])⟩ fun _ _ => ⟨_, rfl⟩

/-- The statistics return if the bound is a positive number. -/
theorem statisticalBlockers_isOk {guardrails manifest state : Dict F}
    (hg : Stored (guardrailEntries E a) guardrails) {raw : List (Json F)} {policy : Dict F}
    (hraw : getKey manifest "context_fields" = .arr raw) (hpol : getKey manifest "policy" = .obj policy)
    (hprint : ∀ x ∈ raw, printable E.T.toFloatText true x = true)
    (hbase : ∀ p ∈ baselineDistribution state, Readable (E := E) p.2) {rows : List (Dict F)}
    (h : ∀ row ∈ rows, Scorable E row)
    (hb : ∃ b, absoluteBound E ⟨E.T.view a.rewardMin, E.T.view a.rewardMax,
      E.T.view a.maxImportanceWeight⟩ = .fin b ∧ 0 < b) :
    ∃ blockers, statisticalBlockers E S guardrails manifest state rows = .ok blockers := by
  have hint : ∀ {k : String} {n : ℤ} (d : ℤ), getKey (guardrailEntries E a) k = .int n →
      readInt E guardrails k d = .ok n := fun d hk => readInt_eq (guardrail_scalar hg hk rfl) d
  have hfloat : ∀ {k : String} {x : F} (d : ℚ), getKey (guardrailEntries E a) k = .float x →
      readFloat E guardrails k d = .ok (E.T.view x) := fun d hk => readFloat_eq (guardrail_scalar hg hk rfl) d
  obtain ⟨b, hbe, hpos⟩ := hb
  unfold statisticalBlockers
  refine bind_isOk (bind_isOk ⟨_, rangeOf_eq hg⟩ fun r _ =>
    bind_isOk (sequentialScores_isOk hT r h) fun _ _ => ⟨_, rfl⟩) fun m hm => ?_
  obtain ⟨-, -, hbound⟩ := monitoring_eq_ok hg hm
  rw [hbound, hbe]
  refine bind_isOk (anytime_isOk hT S hpos _) fun sequence _ =>
    bind_isOk ⟨_, hint 2000 rfl⟩ fun _ _ => bind_isOk ⟨_, hint 20260911 rfl⟩ fun seed _ =>
      bind_isOk (clusteredRewardDifference_isOk hT S h (le_max_left _ _) _ seed) fun clustered _ =>
        bind_isOk ?_ fun drift _ => bind_isOk ?_ fun _ _ => bind_isOk ?_ fun _ _ => ⟨_, rfl⟩
  · unfold driftOf
    rw [hraw, hpol]
    exact bind_isOk ⟨_, (mapM_str_eq_ok E).mpr ⟨hprint, rfl⟩⟩ fun _ _ =>
      bind_isOk ⟨_, hint 200 rfl⟩ fun _ _ => bind_isOk (lowRisk_isOk h) fun _ _ =>
        bind_isOk (contextDistribution_isOk _ _) fun _ _ => bind_isOk (baselineShares_isOk hbase) fun _ _ =>
          ⟨_, rfl⟩
  · unfold rewardBlockers
    exact bind_isOk ⟨_, hint 20 rfl⟩ fun _ _ => bind_isOk ⟨_, hfloat _ rfl⟩ fun _ _ =>
      bind_isOk ⟨_, hint 5 rfl⟩ fun _ _ => ⟨_, rfl⟩
  · unfold driftBlockers
    refine bind_isOk ⟨_, hint 50 rfl⟩ fun _ _ => ?_
    dsimp only
    split_ifs
    · exact ⟨_, rfl⟩
    · exact bind_isOk (bind_isOk ⟨_, hfloat _ rfl⟩ fun _ _ => bind_isOk ⟨_, hfloat _ rfl⟩ fun _ _ =>
        ⟨_, rfl⟩) fun _ _ => ⟨_, rfl⟩

end Statistics

/-! ### Admissible arguments -/

/-- The reward bounds are numbers, the lower one below. -/
theorem rewards_of_checkArgs {a : CreateArgs F} (h : checkArgs E a = .ok ()) : ∃ lo hi : ℚ,
    E.T.view a.rewardMin = .fin lo ∧ E.T.view a.rewardMax = .fin hi ∧ lo < hi ∧
      maxReward E a = max |lo| |hi| ∧
      (E.T.view a.maxImportanceWeight).lt (E.T.lit 100) = false := by
  unfold checkArgs at h
  simp only [bind_eq_ok, require_eq_ok] at h
  obtain ⟨-, -, -, hfin, -, hlt, -, hw, -⟩ := h
  rw [Bool.and_eq_true] at hfin
  obtain ⟨lo, hlo⟩ := (E.T.finite_iff _).mp hfin.1
  obtain ⟨hi, hhi⟩ := (E.T.finite_iff _).mp hfin.2
  rw [hlo, hhi, Num.le_fin, Bool.not_eq_true', decide_eq_false_iff_not, not_le] at hlt
  refine ⟨lo, hi, hlo, hhi, hlt, ?_, by simpa using hw⟩
  simp only [maxReward, FloatSys.rat, hlo, hhi]

section Ready
variable (hT : Precise E.T) (S : Sampling) {a : CreateArgs F} {state : Dict F} {key : Key}
  (hready : Ready E a state key) {log : Log} {notes : Notes F}
  (hlog : DecisionLog E a.boundedTrafficFraction state log notes) (hargs : checkArgs E a = .ok ())
include hT hready hlog hargs

/-- **Under admissible arguments a stored state is monitored.** -/
theorem monitors_of_ready (hadm : Admissible E a) : Monitors E S log notes state key := by
  obtain ⟨lo, hi, hlo, hhi, hlt, hmax, hw⟩ := rewards_of_checkArgs hargs
  obtain ⟨hf, hb⟩ := boundedOk_of_checkArgs E hargs
  obtain ⟨id, hid⟩ := hready.policyId
  obtain ⟨g, hg⟩ := hready.generation
  obtain ⟨guardrails, hguard, hstored⟩ := hready.guardrails
  obtain ⟨manifest, raw, policy, hman, hraw, hpol, hprint⟩ := hready.manifest
  obtain ⟨st, hst, hstage⟩ := hready.stage
  obtain ⟨rows, hrows, -, hscorable⟩ := liveRows_of_log hlog hid hg hf hb
  have hadm' : Bounded E (E.T.view a.maxImportanceWeight) (max |lo| |hi|) := by
    rw [← hmax]
    exact hadm
  have hbound : ∃ b, absoluteBound E ⟨E.T.view a.rewardMin, E.T.view a.rewardMax,
      E.T.view a.maxImportanceWeight⟩ = .fin b ∧ 0 < b := by
    rw [hlo, hhi]
    exact bound_of_finite hT (hadm'.imp_right fun h => h.1)
  refine ⟨?_, ?_⟩
  · have hs : E.strOr state "stage" "" = .ok st.value := strOr_of_getKey hstage _
    obtain ⟨all, hall, hlive⟩ := bind_eq_ok.mp hrows
    unfold evaluateLiveGuardrails
    refine bind_isOk hready.checked fun check _ => bind_isOk ⟨_, hs⟩ fun stage hstage' => ?_
    cases hs.symm.trans hstage'
    split_ifs
    · exact ⟨_, rfl⟩
    · rw [hguard, hman]
      dsimp only
      rw [hraw, hpol]
      refine bind_isOk ⟨_, hall⟩ fun all' hall' => ?_
      cases hall.symm.trans hall'
      refine bind_isOk ⟨_, hlive⟩ fun live hlive' => ?_
      cases hlive.symm.trans hlive'
      refine bind_isOk (exposureOf_isOk hscorable) fun e _ => bind_isOk ?_ fun _ _ =>
        bind_isOk (budgetBlockers_isOk hstored hst e) fun _ _ => ⟨_, rfl⟩
      unfold liveStatistics
      rw [hguard, hman]
      exact statisticalBlockers_isOk hT S hstored hraw hpol hprint hready.baseline hscorable hbound
  · intro guardrails' rows' m hguard' hrows' hm
    cases hguard.symm.trans hguard'
    cases hrows.symm.trans hrows'
    obtain ⟨violations, hscores, hbe⟩ := monitoring_eq_ok hstored hm
    rw [hlo, hhi] at hscores hbe
    rw [hbe]
    exact sequentialScores_le hT hlt hw hadm' hscorable hscores

omit hlog hargs hT in
/-- What an evaluation of a valid state has computed. -/
theorem evaluate_eq_ok (hv : ∃ check, verifyDeploymentState E state key = .ok check ∧ check.valid = true)
    {r : GuardrailReport}
    (h : evaluateLiveGuardrails E (liveStatistics E S) log notes state key = .ok r) :
    ∃ guardrails rows m, getKey state "guardrails" = .obj guardrails ∧
      Stored (guardrailEntries E a) guardrails ∧
      (do liveRows (← deploymentRows E log notes state)) = .ok rows ∧
      monitoring E guardrails rows = .ok m ∧ ∃ b, absoluteBound E ⟨E.T.view a.rewardMin,
        E.T.view a.rewardMax, E.T.view a.maxImportanceWeight⟩ = .fin b := by
  obtain ⟨check, hcheck, hvalid⟩ := hv
  obtain ⟨guardrails, hguard, hstored⟩ := hready.guardrails
  obtain ⟨manifest, raw, policy, hman, hraw, hpol, -⟩ := hready.manifest
  unfold evaluateLiveGuardrails at h
  obtain ⟨check', hcheck', h⟩ := bind_eq_ok.mp h
  cases hcheck.symm.trans hcheck'
  obtain ⟨stage, -, h⟩ := bind_eq_ok.mp h
  rw [if_neg (by simp [hvalid]), hguard, hman] at h
  dsimp only at h
  rw [hraw, hpol] at h
  obtain ⟨all, hall, h⟩ := bind_eq_ok.mp h
  obtain ⟨live, hlive, h⟩ := bind_eq_ok.mp h
  obtain ⟨e, -, h⟩ := bind_eq_ok.mp h
  obtain ⟨stat, hstat, -⟩ := bind_eq_ok.mp h
  unfold liveStatistics at hstat
  rw [hguard, hman] at hstat
  unfold statisticalBlockers at hstat
  obtain ⟨m, hm, hstat⟩ := bind_eq_ok.mp hstat
  obtain ⟨sequence, hseq, -⟩ := bind_eq_ok.mp hstat
  unfold anytimeHoeffdingSequence at hseq
  simp only [bind_eq_ok, require_eq_ok, Bool.and_eq_true] at hseq
  obtain ⟨-, -, -, ⟨-, hfin⟩, -⟩ := hseq
  refine ⟨guardrails, live, m, hguard, hstored, bind_eq_ok.mpr ⟨all, hall, hlive⟩, hm, ?_⟩
  obtain ⟨-, -, hbe⟩ := monitoring_eq_ok hstored hm
  rw [← hbe]
  cases hb : m.absoluteBound with
  | fin b => exact ⟨b, rfl⟩
  | inf neg => simp [hb, finite?] at hfin
  | nan => simp [hb, finite?] at hfin

end Ready

/-! ### A log of one reward -/

section OneReward
variable (E) (policyId : String) (generation : ℤ) (reward : F)

/-- The id of the decision. -/
def oneId : String := "00000000000000000000000000000000"

/-- A decision of the candidate group in the first canary. -/
def oneDecision : Dict F :=
  [("decision_id", .str oneId), ("deployment", .obj [("policy_id", .str policyId),
    ("state_generation", .int generation), ("stage", .str Stage.canary1.value),
    ("assignment", .str "candidate"), ("candidate_probability", .float (E.T.ofRat (1 / 100)))])]

/-- Its verified outcome. -/
def oneNotes : Notes F :=
  ⟨[], [(oneId, .obj [("verified", .bool true), ("reward", .float reward),
    ("realized_cost", .float (E.T.ofRat 0))])]⟩

/-- The row of the decision. -/
def oneRow (text : String) : Dict F := rowOf (oneNotes E reward) oneId (.obj (content E text))

variable {E policyId generation reward}

theorem wellFormed_oneDecision : wellFormed (.obj (oneDecision E policyId generation)) = true := by
  have hd : wellFormed (.obj [("policy_id", .str policyId), ("state_generation", .int generation),
      ("stage", .str Stage.canary1.value), ("assignment", .str "candidate"),
      ("candidate_probability", .float (E.T.ofRat (1 / 100)))]) = true := by
    rw [wellFormed_obj]
    simp [keys]
  rw [wellFormed_obj, oneDecision]
  refine ⟨by simp [keys], ?_⟩
  simp only [List.forall_mem_cons]
  exact ⟨rfl, hd, by simp⟩

theorem oneRow_outcome (text : String) : objOf? (oneRow E reward text) "outcome" = some [("verified", .bool true),
    ("reward", .float reward), ("realized_cost", .float (E.T.ofRat 0))] := by
  have h : getKey (oneRow E reward text) "outcome" = .obj [("verified", .bool true),
      ("reward", .float reward), ("realized_cost", .float (E.T.ofRat 0))] := by
    rw [oneRow, rowOf, getKey_setKey_self]
    simp [oneNotes, getKey, lookup]
  rw [objOf?, h]

section Text
variable {text : String} (ht : E.jsonLoads text = .ok (.obj (sortDict (oneDecision E policyId generation))))
include ht

theorem oneRow_deployment : ∃ section_ : Dict F, getKey (oneRow E reward text) "deployment" = .obj section_ ∧
    getKey section_ "policy_id" = .str policyId ∧ getKey section_ "state_generation" = .int generation ∧
    getKey section_ "stage" = .str Stage.canary1.value ∧ getKey section_ "assignment" = .str "candidate" ∧
    getKey section_ "candidate_probability" = .float (E.T.ofRat (1 / 100)) := by
  have hc := content_eq E ht
  have hw := @wellFormed_oneDecision F E policyId generation
  obtain ⟨d, hd, hs⟩ := stored_object (Or.inr rfl) hw (k := "deployment") rfl
  have hwd := wellFormed_getKey hw "deployment"
  refine ⟨d, ?_, stored_scalar hs hwd rfl rfl, stored_scalar hs hwd rfl rfl, stored_scalar hs hwd rfl rfl,
    stored_scalar hs hwd rfl rfl, stored_scalar hs hwd rfl rfl⟩
  rw [oneRow, sectionOf_rowOf, hc, hd]

/-- The log is one that requests and verifiers write. -/
theorem oneLog {b : F} {state : Dict F} :
    DecisionLog E b state [(oneId, text)] (oneNotes E reward) := by
  have hc := content_eq E ht
  refine ⟨⟨by simp, ?_⟩, rfl, ?_, ?_⟩
  · rw [List.forall_mem_singleton]
    have hid : isDecisionId oneId = true := by decide
    refine ⟨by rw [hc, ht], ?_, hid⟩
    rw [hc]
    exact stored_scalar (Or.inr rfl) wellFormed_oneDecision rfl rfl
  · rw [oneNotes, printable_obj, List.forall_mem_singleton, printable_obj]
    simp [printable]
  · rw [List.forall_mem_singleton]
    intro id g _ _ _
    obtain ⟨d, hd, -, -, hstage, -, hp⟩ := @oneRow_deployment F E policyId generation reward text ht
    have ho := @oneRow_outcome F E reward text
    have hsec : sectionOf (oneRow E reward text) = d := by
      rw [sectionOf, objOf?, hd]
      rfl
    refine ⟨⟨true, ?_⟩, ?_, ?_, ?_⟩
    · show inLiveStages (getKey (sectionOf (oneRow E reward text)) "stage") = _
      rw [hsec, hstage]
      rfl
    · intro st hst hs text' candidate _ _
      change getKey (sectionOf (oneRow E reward text)) "stage" = _ at hs
      show getKey (sectionOf (oneRow E reward text)) "candidate_probability" = _
      rw [hsec, hstage, Json.str.injEq] at hs
      rw [hsec, hp, ← Stage.value_injective hs]
      rfl
    · intro outcome houtcome
      cases ho.symm.trans houtcome
      exact ⟨some reward, rfl⟩
    · intro outcome houtcome
      cases ho.symm.trans houtcome
      exact ⟨some _, rfl⟩

/-- **The log feeds the reward with the greatest weight.** -/
theorem scoreRow_oneRow (hT : Precise E.T) {q : ℚ} (hq : E.T.view reward = .fin q) {r : Range}
    (h1 : (Num.fin q).lt r.rewardMin = false) (h2 : r.rewardMax.lt (.fin q) = false)
    (hw : r.maxImportanceWeight = .nan) :
    scoreRow E r (oneRow E reward text) = .ok (.score (E.T.mul (maxWeight E) (.fin q))) := by
  obtain ⟨d, hd, -, -, -, ha, hp⟩ := @oneRow_deployment F E policyId generation reward text ht
  have ho := @oneRow_outcome F E reward text
  obtain ⟨p, hlit, hpos, -⟩ := weight_hundredth hT
  have hstage : StageProbability E p := by
    rw [StageProbability, ← hlit]
    exact ⟨E.T.lit_mono le_rfl, E.T.lit_mono (by norm_num)⟩
  have hd' : objOf? (oneRow E reward text) "deployment" = some d := by
    rw [objOf?, hd]
  have hv : verifiedOutcome E (oneRow E reward text) = some [("verified", .bool true),
      ("reward", .float reward), ("realized_cost", .float (E.T.ofRat 0))] := by
    rw [verifiedOutcome, ho]
    rfl
  have hassign : E.strOr d "assignment" "" = .ok "candidate" := strOr_of_getKey ha _
  have hprob : numberOf E (getKey d "candidate_probability") = .ok (some (.fin p)) := by
    rw [hp]
    exact numberOf_float hlit
  have hreward : numberOf E (getKey ([("verified", .bool true), ("reward", .float reward),
      ("realized_cost", .float (E.T.ofRat 0))] : Dict F) "reward") = .ok (some (.fin q)) :=
    numberOf_float hq
  obtain ⟨h0, h3⟩ := unit_of_stage hT hstage
  have hweight : weightOf E true p = maxWeight E := by
    rw [weightOf, maxWeight, hlit, if_pos rfl]
  unfold scoreRow
  rw [hd', hv]
  simp only [bind, Except.bind, hassign, group?, if_true, scoreOutcome, hprob, h0, h3, Bool.and_self,
    Bool.not_true, Bool.false_eq_true, if_false, hreward, h1, h2, Bool.or_self]
  rw [weighted_eq hT hstage, hweight, hw]
  rfl

/-- The row is a live one of its deployment. -/
theorem oneRow_live : ofDeployment E policyId generation (oneRow E reward text) = true ∧
    isLive (oneRow E reward text) = true := by
  obtain ⟨d, hd, hpid, hgen, hst, -, -⟩ := @oneRow_deployment F E policyId generation reward text ht
  have hsec : sectionOf (oneRow E reward text) = d := by
    rw [sectionOf, objOf?, hd]
    rfl
  constructor
  · rw [ofDeployment, hd]
    simp [same, differs, hpid, hgen]
  · rw [isLive, hsec, hst]
    rfl

end Text

/-- The decision has a file. -/
theorem oneText (h : printable E.T.toFloatText true (.int generation : Json F) = true) :
    ∃ text, E.jsonLoads text = .ok (.obj (sortDict (oneDecision E policyId generation))) := by
  have hp : printable E.T.toFloatText true (.obj (oneDecision E policyId generation)) = true := by
    rw [oneDecision, printable_obj]
    simp only [List.forall_mem_cons]
    refine ⟨rfl, ?_, by simp⟩
    rw [printable_obj]
    simp only [List.forall_mem_cons]
    exact ⟨rfl, h, rfl, rfl, rfl, by simp⟩
  obtain ⟨text, htext⟩ := fileText_eq_ok E hp
  refine ⟨text, ?_⟩
  rw [jsonLoads_fileText E wellFormed_oneDecision htext, sortKeys_obj']

end OneReward

/-- The greatest weight gives the same up to the sign for a reward and its negation. -/
theorem abs_mul_maxWeight (hT : Precise E.T) (q : ℚ) (h : 0 < |q|) :
    (E.T.mul (maxWeight E) (.fin q)).abs = E.T.mul (maxWeight E) (.fin |q|) := by
  obtain ⟨p, -, hp, hw⟩ := weight_hundredth hT
  have h0 : (Num.fin 0).le (maxWeight E) = true := by
    rw [maxWeight, hw]
    exact lit_nonneg (by positivity)
  rw [← abs_eq_self (mul_nonneg' h0 h)]
  rcases abs_choice q with hc | hc
  · rw [hc]
  · rw [hc, abs_mul_neg hT]

/-! ### In every run -/

section Runs
variable (hT : Precise E.T) (S : Sampling) {records : List (Dict F)}
  {manifest report first : Dict F} {key : Key} {a : CreateArgs F} {now : String}
  (hm : wellFormed (.obj manifest) = true)
  (hc : createDeploymentState E records manifest report key a now = .ok first)
include hm hc

/-- A deployment can go live. -/
theorem goes_live : ∃ as s, runTransitions E key first as = .ok s ∧
    getKey s "stage" = .str Stage.canary1.value ∧ printable E.T.toFloatText true (.obj s) = true ∧
    ∃ check, verifyDeploymentState E s key = .ok check ∧ check.valid = true := by
  obtain ⟨ht, -⟩ := tracks_create E hm hc
  have howner : strip "owner" ≠ "" := by decide
  obtain ⟨t, htr⟩ := promotes E ht howner now
  have hrun : runTransitions E key first [⟨Stage.canary1.value, "owner", none, none, now⟩] = .ok t :=
    run_cons.mpr ⟨t, htr, rfl⟩
  obtain ⟨⟨c, h⟩, -⟩ := tracks_run E ht hrun
  have hstrip : strip Stage.canary1.value = Stage.canary1.value := by decide
  have hstage := (transition_moves E htr).1
  rw [hstrip] at hstage
  exact ⟨_, t, hrun, hstage, h.printable, h.valid⟩

include hT

omit hm hc in
/-- A state that is monitored over the log of one reward gives next to nothing for it, if the weight is
a NaN. -/
theorem small_of_monitors {s : Dict F} (hready : Ready E a s key) (hargs : checkArgs E a = .ok ())
    (hv : ∃ check, verifyDeploymentState E s key = .ok check ∧ check.valid = true) {id : String}
    (hid : getKey s "policy_id" = .str id) {g : ℤ} (hg : getKey s "generation" = .int g)
    {text : String} (ht : E.jsonLoads text = .ok (.obj (sortDict (oneDecision E id g)))) {reward : F}
    {q : ℚ} (hq : E.T.view reward = .fin q) (h1 : (Num.fin q).lt (E.T.view a.rewardMin) = false)
    (h2 : (E.T.view a.rewardMax).lt (.fin q) = false) (hw : E.T.view a.maxImportanceWeight = .nan)
    (hpos : 0 < |q|) (h : Monitors E S [(oneId, text)] (oneNotes E reward) s key) :
    (E.T.mul (maxWeight E) (.fin |q|)).le (E.T.lit (1 / 10 ^ 12)) = true := by
  obtain ⟨lo, hi, hlo, hhi, -⟩ := rewards_of_checkArgs hargs
  obtain ⟨hf, hb⟩ := boundedOk_of_checkArgs E hargs
  obtain ⟨r, hr⟩ := h.returns
  obtain ⟨guardrails, rows, m, hguard, hstored, hrows, hm, -⟩ := evaluate_eq_ok S hready hv hr
  have hlog : DecisionLog E a.boundedTrafficFraction s [(oneId, text)] (oneNotes E reward) := oneLog ht
  obtain ⟨rows', hrows', hmem, -⟩ := liveRows_of_log hlog hid hg hf hb
  cases hrows.symm.trans hrows'
  obtain ⟨hof, hl⟩ := @oneRow_live F E id g reward text ht
  have hin : oneRow E reward text ∈ rows :=
    (hmem _).mpr ⟨⟨_, List.mem_singleton.mpr rfl, rfl, hof⟩, hl⟩
  obtain ⟨violations, hscores, hbe⟩ := monitoring_eq_ok hstored hm
  obtain ⟨scored, hscored, hscores⟩ := bind_eq_ok.mp hscores
  obtain ⟨y, hy, hscore⟩ := mapM_mem hscored _ hin
  cases (scoreRow_oneRow ht hT hq h1 h2 hw).symm.trans hscore
  have hfed : E.T.mul (maxWeight E) (.fin q) ∈ m.scores := by
    rw [← (Prod.mk.inj (Except.ok.inj hscores)).1]
    exact List.mem_filterMap.mpr ⟨_, hy, rfl⟩
  have hle := h.sound guardrails rows m hguard hrows hm _ hfed
  rw [hbe, abs_mul_maxWeight hT q hpos, hlo, hhi, hw] at hle
  obtain ⟨t, htiny, -, he⟩ := absoluteBound_eq hT .nan lo hi
  rw [he, mul_nan] at hle
  rw [htiny]
  exact hle

/-- **If every live state of every run is monitored then the arguments are admissible.** -/
theorem admissible_of_monitors
    (h : ∀ as s state, runTransitions E key first as = .ok s →
      (∃ st ∈ Stage.live, getKey s "stage" = .str st.value) → Stored s state →
        ∀ log notes, DecisionLog E a.boundedTrafficFraction state log notes →
          Monitors E S log notes state key) : Admissible E a := by
  obtain ⟨-, -, -, hargs, -⟩ := (create_eq_ok E).mp hc
  obtain ⟨lo, hi, hlo, hhi, hlt, hmax, hw⟩ := rewards_of_checkArgs hargs
  obtain ⟨hf, hb⟩ := boundedOk_of_checkArgs E hargs
  obtain ⟨as, s, hrun, hstage, hprint, hvalid⟩ := goes_live hm hc
  have hlive : ∃ st ∈ Stage.live, getKey s "stage" = .str st.value := ⟨.canary1, by decide, hstage⟩
  have hready := ready_of_run hm hc hrun hlive (Or.inl rfl)
  have hmon := fun log notes => h as s s hrun hlive (Or.inl rfl) log notes
  have hnone : DecisionLog E a.boundedTrafficFraction s [] ⟨[], []⟩ :=
    ⟨⟨by simp, by simp⟩, rfl, rfl, by simp⟩
  obtain ⟨r, hr⟩ := (hmon _ _ hnone).returns
  obtain ⟨-, -, -, -, -, -, -, hbound⟩ := evaluate_eq_ok S hready hvalid hr
  rw [hlo, hhi] at hbound
  unfold Admissible
  rw [hmax]
  rcases finite_of_bound hT (maxReward_pos hlt) hw hbound with hfin | hnan
  · exact Or.inl hfin
  · obtain ⟨reward, q, hq, habs, hq1, hq2⟩ : ∃ reward q, E.T.view reward = .fin q ∧
        |q| = max |lo| |hi| ∧ lo ≤ q ∧ q ≤ hi := by
      rcases le_total |lo| |hi| with hle | hle
      · exact ⟨a.rewardMax, hi, hhi, (max_eq_right hle).symm, hlt.le, le_rfl⟩
      · exact ⟨a.rewardMin, lo, hlo, (max_eq_left hle).symm, le_rfl, hlt.le⟩
    obtain ⟨id, hid⟩ := hready.policyId
    obtain ⟨g, hg⟩ := hready.generation
    obtain ⟨text, ht⟩ := @oneText F E id g (hg ▸ printable_getKey hprint _)
    rw [← habs]
    exact Or.inr ⟨hnan, small_of_monitors hT S hready hargs hvalid hid hg ht hq
      (by rw [hlo]; simpa using hq1) (by rw [hhi]; simpa using hq2) hnan
      (habs ▸ maxReward_pos hlt) (hmon _ _ (oneLog ht))⟩

/-- **Every live state of every run is monitored if and only if the arguments are admissible.** -/
theorem monitors_iff : (∀ as s state, runTransitions E key first as = .ok s →
    (∃ st ∈ Stage.live, getKey s "stage" = .str st.value) → Stored s state →
      ∀ log notes, DecisionLog E a.boundedTrafficFraction state log notes →
        Monitors E S log notes state key) ↔ Admissible E a := by
  constructor
  · exact admissible_of_monitors hT S hm hc
  · intro hadm as s state hr hlive hst log notes hlog
    obtain ⟨-, -, -, hargs, -⟩ := (create_eq_ok E).mp hc
    exact monitors_of_ready hT S (ready_of_run hm hc hr hlive hst) hlog hargs hadm

end Runs

/-! ### Two weights -/

section Samples

/-- The default arguments with a given weight. -/
def wideArgs (weight : Wide) : CreateArgs Wide where
  approvedBy := "owner"
  boundedTrafficFraction := .fin false .quarter
  rewardMin := .fin false .zero
  rewardMax := .fin false .one
  maxImportanceWeight := weight
  minimumMonitorOutcomes := 20
  promotionMargin := .fin false .zero
  maxRewardRegression := .fin false .twentieth
  maxFailureRate := .fin false .tenth
  maxContextTvDistance := .fin false .threeTenths
  maxUnknownContextRate := .fin false .fifth
  minimumDriftSamples := 50
  driftWindow := 200
  minimumMonitorClusters := 5
  clusterBootstrapResamples := 2000
  clusterBootstrapSeed := 20260911
  maxCumulativeRealizedCost := none

/-- A sampling with the same radius everywhere that always draws the first row. -/
def firstRow : Sampling where
  spread _ _ := .fin 1
  draw _ _ _ := 0

/-- A deployment with the default arguments and a weight that is not refused. -/
theorem wide_created {weight : Wide} (h : checkArgs widePlatform (wideArgs weight) = .ok ()) :
    ∃ manifest report first, wellFormed (.obj manifest) = true ∧ createDeploymentState widePlatform []
      manifest report [1] (wideArgs weight) "2026-09-03" = .ok first := by
  have hne : ∀ s, widePlatform.sha256 s ≠ "" := by
    intro s h
    have hl := congrArg (fun t : String => t.toList.length) h
    simp [widePlatform, fixedDigest] at hl
  have howner : strip "owner" ≠ "" := by decide
  have hsmall : ∀ n ∈ ([20, 50, 200, 5, 2000, 20260911] : List ℤ), n.natAbs < 10 ^ 9 := by decide
  exact Binding.policyReport_deployed widePlatform hne "2026-09-03" howner h
    (printable_guardrailEntries widePlatform hsmall)

/-- With the default weight every live state is monitored. -/
theorem monitors_hundred : ∃ manifest report first, createDeploymentState widePlatform [] manifest
    report [1] (wideArgs (.fin false .hundred)) "2026-09-03" = .ok first ∧
    ∀ as s state, runTransitions widePlatform [1] first as = .ok s →
      (∃ st ∈ Stage.live, getKey s "stage" = .str st.value) → Stored s state → ∀ log notes,
        DecisionLog widePlatform (.fin false .quarter) state log notes →
          Monitors widePlatform firstRow log notes state [1] := by
  obtain ⟨manifest, report, first, hw, hc⟩ := @wide_created (.fin false .hundred) (by decide +kernel)
  have hadm : Admissible widePlatform (wideArgs (.fin false .hundred)) :=
    Or.inl ⟨100, by decide +kernel⟩
  exact ⟨manifest, report, first, hc, (monitors_iff Wide.precise firstRow hw hc).mpr hadm⟩

/-- **With an infinite weight, which is not refused, some live state is not monitored.** -/
theorem not_monitors_inf : ∃ manifest report first, createDeploymentState widePlatform [] manifest
    report [1] (wideArgs (.inf false)) "2026-09-03" = .ok first ∧
    ¬ ∀ as s state, runTransitions widePlatform [1] first as = .ok s →
      (∃ st ∈ Stage.live, getKey s "stage" = .str st.value) → Stored s state → ∀ log notes,
        DecisionLog widePlatform (.fin false .quarter) state log notes →
          Monitors widePlatform firstRow log notes state [1] := by
  obtain ⟨manifest, report, first, hw, hc⟩ := @wide_created (.inf false) (by decide +kernel)
  refine ⟨manifest, report, first, hc, fun h => ?_⟩
  have hmax : maxReward widePlatform (wideArgs (.inf false)) = 1 := by decide +kernel
  have hadm := admissible_of_monitors Wide.precise firstRow hw hc h
  rw [Admissible, hmax] at hadm
  rcases hadm with ⟨q, hq⟩ | ⟨hnan, -⟩
  · have hinf := mul_inf (T := widePlatform.T) (r := 1) one_pos
    cases hinf.symm.trans hq
  · cases hnan

end Samples

end ControlPlane.Deployment.Monitoring
