import ControlPlane.Deployment.Runtime
import ControlPlane.Deployment.Refinement

/-! # Serving a request

The engine resolves the deployment with the number of workspace roots it selected and prepares the
decision with the number of all of them (`serve`). A request `LooksUp` its context if it gets as far as
the policy: the state file holds a valid state in a live stage, and no rollback is required.

`resolve_cases`: every other request gets the baseline. `serve_logs`: a request that looks up its context
is served, and its decision is logged. -/

namespace ControlPlane.Deployment.Serving

open ControlPlane.Lib.Value ControlPlane.Lib.Text ControlPlane.Lib.Dynamic
open ControlPlane.Environment ControlPlane.Learning.Features ControlPlane.Learning.Decision
open ControlPlane.Learning.Records ControlPlane.Deployment.Stages ControlPlane.Deployment.State
open ControlPlane.Deployment.Guardrails ControlPlane.Deployment.Runtime
open ControlPlane.Deployment.Refinement

variable {F : Type} (E : Env F)

/-- The workspace roots of a request, and those of them that routing selected. -/
structure Roots where
  all : List String
  selected : List String
  sublist : selected.Sublist all

/-- The decision a request is served with, and the log and the state file after it. -/
def serve (s : Site F) (log : Log) (r : Request) (roots : Roots) (c : Conditions F) (g : Draws F)
    (w : Writes) : Py (LearningDecision F × Log × Option String) := do
  let (assignment, stateFile) ← resolveRuntimeDeployment E s log r roots.selected.length c
  let (decision, log) ← prepareLearningDecision E log r s.config roots.all.length assignment
    { g with killEnv := s.killEnv } w
  return (decision, log, stateFile)

/-- The request gets as far as looking up its context in the policy of a state. -/
structure LooksUp (s : Site F) (log : Log) (c : Conditions F) (state : Dict F) : Prop where
  enabled : deploymentEnabled E s.config = true
  running : learningKillSwitch E s.config s.killEnv = false
  path : s.statePathOk = true
  key : s.signingKey ≠ []
  loaded : ∃ text, c.stateFile = some text ∧ loadDeploymentState E text = .ok state ∧
    ∃ report, autoRollbackIfNeeded E s log text state c = .ok (state, report, text) ∧
      (report.map GuardrailReport.rollbackRequired).getD false = false
  valid : ∃ check, verifyDeploymentState E state s.signingKey = .ok check ∧ check.valid = true
  live : inLiveStages (getKey state "stage") = .ok true

/-- The state file was rolled back. -/
def RolledBack (s : Site F) (before after : Option String) : Prop :=
  ∃ text current next written reason now, before = some text ∧
    loadDeploymentState E text = .ok current ∧
    transitionDeploymentState E current s.signingKey
      ⟨Stage.rolledBack.value, "runtime:auto-rollback", none, some reason, now⟩ = .ok next ∧
    stateText E next = .ok written ∧ after = some written

variable {E}

/-- What a rollback leaves: the file as it was, or a rolled back state. -/
theorem rollBack_eq_ok {s : Site F} {text text' : String} {state state' : Dict F}
    (hs : wellFormed (.obj state) = true) {report : GuardrailReport} {now : String}
    {o : UpdateOutcome} (h : rollBack E s text state report now o = .ok (state', text')) :
    wellFormed (.obj state') = true ∧ (text' = text ∨ RolledBack E s (some text) (some text')) := by
  unfold rollBack at h
  simp only at h
  have hupd : ∀ {g a o} {x : Option (Dict F) × String},
      updateDeploymentStateFile E text s.signingKey (some g) a o = .ok x → x.2 = text ∧ x.1 = none ∨
        ∃ next, updatedState E text s.signingKey (some g) a = .ok next ∧ stateText E next = .ok x.2 ∧
          (x.1 = none ∨ x.1 = some next) := by
    intro g a o x hx
    unfold updateDeploymentStateFile at hx
    split_ifs at hx with hf hd
    · cases hx
      exact Or.inl ⟨rfl, rfl⟩
    · obtain ⟨next, hn, hx⟩ := bind_eq_ok.mp hx
      obtain ⟨written, hw, hx⟩ := bind_eq_ok.mp hx
      cases hx
      exact Or.inr ⟨next, hn, hw, Or.inr rfl⟩
    · obtain ⟨next, hn, hx⟩ := bind_eq_ok.mp hx
      obtain ⟨written, hw, hx⟩ := bind_eq_ok.mp hx
      cases hx
      exact Or.inr ⟨next, hn, hw, Or.inl rfl⟩
  split at h
  · next updated text₁ hu =>
    cases h
    rcases hupd hu with ⟨-, hno⟩ | ⟨next, hn, hw, hno | hno⟩
    · cases hno
    · cases hno
    · cases hno
      obtain ⟨current, hl, -, ht⟩ := updatedState_eq_ok hn
      exact ⟨wellFormed_transition E (wellFormed_load hl) ht,
        Or.inr ⟨text, current, _, _, _, _, rfl, hl, ht, hw, rfl⟩⟩
  · next text₁ hu =>
    cases h
    refine ⟨hs, ?_⟩
    rcases hupd hu with ⟨ht, -⟩ | ⟨next, hn, hw, -⟩
    · exact Or.inl ht
    · obtain ⟨current, hl, -, ht⟩ := updatedState_eq_ok hn
      exact Or.inr ⟨text, current, _, _, _, _, rfl, hl, ht, hw, rfl⟩
  · split_ifs at h
    cases h
    exact ⟨hs, Or.inl rfl⟩

/-- What `autoRollbackIfNeeded` leaves: everything as it was, or what a rollback leaves. -/
theorem autoRollback_eq_ok {s : Site F} {log : Log} {text text' : String} {state state' : Dict F}
    (hs : wellFormed (.obj state) = true) {c : Conditions F} {report : Option GuardrailReport}
    (h : autoRollbackIfNeeded E s log text state c = .ok (state', report, text')) :
    (report.map GuardrailReport.rollbackRequired).getD false = false ∧ state' = state ∧ text' = text ∨
      (report.map GuardrailReport.rollbackRequired).getD false = true ∧
        wellFormed (.obj state') = true ∧
        (text' = text ∨ RolledBack E s (some text) (some text')) := by
  unfold autoRollbackIfNeeded at h
  obtain ⟨live, -, h⟩ := bind_eq_ok.mp h
  split_ifs at h with h1
  · cases h
    exact Or.inl ⟨rfl, rfl, rfl⟩
  · obtain ⟨rep, -, h⟩ := bind_eq_ok.mp h
    split_ifs at h with h2
    · cases h
      exact Or.inl ⟨by simpa using h2, rfl, rfl⟩
    · obtain ⟨⟨state₁, text₁⟩, hr, h⟩ := bind_eq_ok.mp h
      cases h
      exact Or.inr ⟨by simpa using h2, rollBack_eq_ok hs hr⟩

/-- The assignment of a request that looks up its context. -/
theorem resolve_looksUp {s : Site F} {log : Log} {c : Conditions F} {state : Dict F}
    (h : LooksUp E s log c state) (r : Request) (n : ℤ) :
    resolveRuntimeDeployment E s log r n c =
      (resolveLive E state r n c.bucket).map fun a => (some a, c.stateFile) := by
  obtain ⟨text, hf, hl, report, ha, hr⟩ := h.loaded
  obtain ⟨check, hc, hv⟩ := h.valid
  have hk : s.signingKey.isEmpty = false := by simpa using h.key
  have hcatch : catchValueError (loadDeploymentState E text) = .ok (some state) :=
    catchValueError_some.mpr hl
  have hres : resolveState E s log text state r n c =
      (resolveLive E state r n c.bucket).map fun a => (a, text) := by
    unfold resolveState
    rw [hc]
    simp only [bind, Except.bind, hv, ha, hr]
    cases resolveLive E state r n c.bucket <;> rfl
  unfold resolveRuntimeDeployment
  rw [hf]
  simp only [h.enabled, h.running, h.path, hk, hcatch, bind, Except.bind, hres]
  cases resolveLive E state r n c.bucket <;> rfl

/-- **A request looks up its context, or it gets the baseline or no assignment at all.** -/
theorem resolve_cases {s : Site F} {log : Log} {r : Request} {n : ℤ} {c : Conditions F}
    {o : Option (Dict F)} {file : Option String}
    (h : resolveRuntimeDeployment E s log r n c = .ok (o, file)) :
    (∃ state a, LooksUp E s log c state ∧ resolveLive E state r n c.bucket = .ok a ∧ o = some a ∧
      file = c.stateFile) ∨
    (o = none ∨ ∃ reason state, wellFormed (.obj state) = true ∧
      o = some (baselineAssignment E reason state none baselineArm)) ∧
      (file = c.stateFile ∨ RolledBack E s c.stateFile file) := by
  have hnil : wellFormed (.obj [] : Json F) = true := by simp [keys]
  unfold resolveRuntimeDeployment at h
  simp only at h
  split_ifs at h with h1 h2 h3 h4
  · cases h
    exact Or.inr ⟨Or.inl rfl, Or.inl rfl⟩
  · cases h
    exact Or.inr ⟨Or.inr ⟨_, [], hnil, rfl⟩, Or.inl rfl⟩
  · cases h
    exact Or.inr ⟨Or.inr ⟨_, [], hnil, rfl⟩, Or.inl rfl⟩
  · cases h
    exact Or.inr ⟨Or.inr ⟨_, [], hnil, rfl⟩, Or.inl rfl⟩
  split at h
  · next hfile =>
    cases h
    exact Or.inr ⟨Or.inr ⟨_, [], hnil, rfl⟩, Or.inl hfile.symm⟩
  next text hfile =>
  obtain ⟨loaded, hl, h⟩ := bind_eq_ok.mp h
  cases loaded with
  | none =>
    cases h
    exact Or.inr ⟨Or.inr ⟨_, [], hnil, rfl⟩, Or.inl hfile.symm⟩
  | some state =>
    have hl := catchValueError_some.mp hl
    have hs := wellFormed_load hl
    obtain ⟨⟨a, text'⟩, hr, h⟩ := bind_eq_ok.mp h
    cases h
    rw [hfile]
    unfold resolveState at hr
    rw [bind_eq_ok] at hr
    obtain ⟨check, hc, hv⟩ := hr
    by_cases h5 : check.valid = true
    case neg =>
      rw [if_pos (by simpa using h5)] at hv
      cases hv
      exact Or.inr ⟨Or.inr ⟨_, state, hs, rfl⟩, Or.inl rfl⟩
    rw [if_neg (by simp [h5]), bind_eq_ok] at hv
    obtain ⟨⟨state', report, text₁⟩, ha, hr⟩ := hv
    rcases autoRollback_eq_ok hs ha with ⟨hno, rfl, rfl⟩ | ⟨hyes, hs', htext⟩
    · simp only [hno, Bool.false_eq_true, if_false] at hr
      obtain ⟨a', hlive, hr⟩ := bind_eq_ok.mp hr
      cases hr
      rcases resolveLive_cases hlive with ⟨reason, rfl⟩ | ⟨hlv, -⟩
      · exact Or.inr ⟨Or.inr ⟨reason, state', hs, rfl⟩, Or.inl rfl⟩
      · refine Or.inl ⟨state', a, ?_, hlive, rfl, rfl⟩
        exact {
          enabled := by simpa using h1
          running := by simpa using h2
          path := by simpa using h3
          key := by simpa using h4
          loaded := ⟨_, hfile, hl, report, ha, hno⟩
          valid := ⟨check, hc, h5⟩
          live := hlv }
    · simp only [hyes, if_true] at hr
      cases hr
      refine Or.inr ⟨Or.inr ⟨_, state', hs', rfl⟩, ?_⟩
      rcases htext with rfl | ht
      · exact Or.inl rfl
      · exact Or.inr ht

/-- Every assignment is well formed. -/
theorem wellFormed_resolve {s : Site F} {log : Log} {r : Request} {n : ℤ} {c : Conditions F}
    {o : Option (Dict F)} {file : Option String}
    (h : resolveRuntimeDeployment E s log r n c = .ok (o, file)) :
    ∀ a, o = some a → wellFormed (.obj a) = true := by
  rintro a rfl
  rcases resolve_cases h with ⟨state, a', hlook, hlive, he, -⟩ | ⟨he | ⟨reason, state, hs, he⟩, -⟩
  · cases he
    obtain ⟨text, -, hl, -⟩ := hlook.loaded
    exact wellFormed_resolveLive (wellFormed_load hl) hlive
  · cases he
  · cases he
    exact wellFormed_baselineAssignment hs reason none baselineArm

/-! ### Every request is served -/

section Served
open ControlPlane.Lib.Dumps ControlPlane.Lib.Floats ControlPlane.Deployment.Manifest
open ControlPlane.Deployment.Reread ControlPlane.Deployment.ContextKeys

theorem printable_load {text : String} {state : Dict F}
    (h : loadDeploymentState E text = .ok state) : printable E.T.toFloatText true (.obj state) = true := by
  unfold loadDeploymentState at h
  obtain ⟨v, hv, h⟩ := bind_eq_ok.mp h
  have hp := printable_jsonLoads E hv
  split at h
  · cases h
    exact hp
  · cases h

variable (E) in
/-- An assignment that a decision can be made of. -/
structure Usable (a : Dict F) : Prop where
  arm : ∃ s, lookup "chosen_arm" a = some (.str s)
  mode : lookup "mode" a = some (.str "canary")
  reason : ∃ s, lookup "safety_reason" a = some (.str s)
  arms : ∃ raw, getKey a "arm_propensities" = .obj raw ∧ ∀ p ∈ raw, ∃ x, p.2 = .float x
  deployment : ∃ dep, getKey a "deployment" = .obj dep ∧
    printable E.T.toFloatText true (.obj dep) = true ∧
    ∃ x, lookup "candidate_probability" dep = some (.float x)

theorem printable_keyValue (key : Option String) :
    printable E.T.toFloatText true (keyValue key : Json F) = true := by
  cases key <;> rfl

theorem usable_baseline {state : Dict F} (hs : printable E.T.toFloatText true (.obj state) = true)
    (reason : String) (context : Option String) (target : String) :
    Usable E (baselineAssignment E reason state context target) := by
  have hid := printable_getKey hs "policy_id"
  have hg := printable_getKey hs "generation"
  have hst := printable_getKey hs "stage"
  have ht : printable E.T.toFloatText true (if state.isEmpty then .float (E.T.ofRat 0)
      else getKey state "traffic_fraction") = true := by
    split_ifs
    · rfl
    · exact printable_getKey hs _
  refine ⟨⟨_, rfl⟩, rfl, ⟨_, rfl⟩, ⟨_, rfl, ?_⟩, _, rfl, ?_, _, rfl⟩
  · intro p hp
    rw [List.mem_singleton.mp hp]
    exact ⟨_, rfl⟩
  · rw [printable_obj]
    simp only [List.forall_mem_cons]
    exact ⟨rfl, rfl, hid, hg, hst, ht, rfl, rfl, rfl, printable_keyValue context, rfl, by simp⟩

theorem usable_signed {state : Dict F} (hs : printable E.T.toFloatText true (.obj state) = true)
    (target : String) (key : Option String) (probability : F) (b : Bucket F) :
    Usable E (signedAssignment E state target key probability b) := by
  have hid := printable_getKey hs "policy_id"
  have hst := printable_getKey hs "stage"
  have hg : printable E.T.toFloatText true (.int (generationOf state) : Json F) = true := by
    have h : ∀ v, getKey state "generation" = v → printable E.T.toFloatText true v = true :=
      fun v hv => hv ▸ printable_getKey hs "generation"
    unfold generationOf
    split
    · next n hn => exact h _ hn
    · exact printable_small true (by decide)
  refine ⟨⟨_, rfl⟩, rfl, ⟨_, rfl⟩, ⟨_, rfl, ?_⟩, _, rfl, ?_, _, rfl⟩
  · intro p hp
    rcases mem_setKey hp with rfl | hp
    · exact ⟨_, rfl⟩
    · rw [List.mem_singleton.mp hp]
      exact ⟨_, rfl⟩
  · rw [printable_obj]
    simp only [List.forall_mem_cons]
    exact ⟨rfl, rfl, hid, hg, hst, rfl, rfl, rfl, rfl, printable_keyValue key, rfl, rfl, rfl, by simp⟩

/-- Propensities that are floats are parsed or refused, and what is parsed are floats. -/
theorem parse_floats : ∀ {raw acc : Dict F}, (∀ p ∈ raw, ∃ x, p.2 = .float x) →
    (∀ p ∈ acc, ∃ x, p.2 = .float x) → ∃ o, parsePropensities E raw acc = .ok o ∧
      ∀ parsed, o = some parsed → ∀ p ∈ parsed, ∃ x, p.2 = .float x
  | [], acc, _, hacc => ⟨some acc, rfl, fun parsed h => by cases h; exact hacc⟩
  | (arm, p) :: raw, acc, hraw, hacc => by
    obtain ⟨x, hx⟩ := hraw _ (List.mem_cons_self ..)
    cases hx
    rw [parsePropensities]
    split_ifs with ha
    · exact ⟨none, rfl, by simp⟩
    simp only [number?_float, bind, Except.bind]
    split_ifs
    · refine parse_floats (fun q hq => hraw q (List.mem_cons_of_mem _ hq)) fun q hq => ?_
      rcases mem_setKey hq with rfl | hq
      · exact ⟨x, rfl⟩
      · exact hacc q hq
    · exact ⟨none, rfl, by simp⟩

theorem chooseAssigned_usable {a : Dict F} (h : Usable E a) (risk : String) :
    ∃ c, chooseAssigned E a risk = .ok c ∧ c.mode = "canary" ∧
      printable E.T.toFloatText true (.obj c.propensities) = true ∧
      ∀ e, c.deployment = some e → printable E.T.toFloatText true (.obj e) = true := by
  obtain ⟨arm, harm⟩ := h.arm
  obtain ⟨reason, hreason⟩ := h.reason
  obtain ⟨raw, hraw, hfloats⟩ := h.arms
  obtain ⟨dep, hdep, hprint, x, hx⟩ := h.deployment
  have hbase : printable E.T.toFloatText true (.obj (baselinePropensities E)) = true := rfl
  have hvalid : ∃ o, validAssignment E a (strip arm) risk = .ok o ∧
      ∀ parsed, o = some parsed → ∀ p ∈ parsed, ∃ x, p.2 = .float x := by
    unfold validAssignment
    split_ifs
    · exact ⟨none, rfl, by simp⟩
    obtain ⟨o, ho, hp⟩ := parse_floats (E := E) hfloats
      (by simp : ∀ p ∈ ([] : Dict F), ∃ x, p.2 = .float x)
    rw [hraw]
    simp only [ho, bind, Except.bind]
    cases o with
    | none => exact ⟨none, rfl, by simp⟩
    | some parsed =>
      refine ⟨_, rfl, fun q hq => ?_⟩
      split_ifs at hq
      cases hq
      exact hp _ rfl
  obtain ⟨o, ho, hp⟩ := hvalid
  unfold chooseAssigned
  simp only [Env.strOr, harm, Option.getD_some, Env.str, pyStr_str, ho, bind, Except.bind]
  cases o with
  | none =>
    refine ⟨_, rfl, rfl, hbase, fun e he => ?_⟩
    cases he
    rfl
  | some parsed =>
    obtain ⟨id, hid⟩ := strOr_ok hprint "policy_id" ""
    rw [Env.strOr, Env.str] at hid
    have hobj : (objOf? a "deployment").getD [] = dep := by
      rw [objOf?, hdep]
      rfl
    have hfrac : ∃ e, fraction E (.float x) (E.T.ofRat 0) = .ok e := by
      unfold fraction
      exact ⟨_, rfl⟩
    obtain ⟨e, hfrac⟩ := hfrac
    simp only [h.mode, hreason, Option.getD_some, pyStr_str, hobj, hx, hfrac, hid]
    refine ⟨_, rfl, rfl, ?_, fun e he => ?_⟩
    · rw [printable_obj]
      intro p hmem
      obtain ⟨y, hy⟩ := hp parsed rfl p hmem
      rw [hy]
      rfl
    · cases he
      exact hprint

/-- The learning section of the configuration says nothing. -/
def Quiet (config : Dict F) : Prop := learningConfig config = []

/-- **A decision is made of every usable assignment.** -/
theorem choose_usable {config a : Dict F} (hq : Quiet config) (h : Usable E a) (r : Request) (n : ℤ)
    (g : Draws F) : ∃ d, chooseLearningDecision E r config n (some a) g = .ok d ∧
      d.mode ≠ "off" ∧ d.decisionId = g.decisionId ∧
      printable E.T.toFloatText true (.obj d.toDict : Json F) = true := by
  obtain ⟨c, hc, hmode, hprop, hdep⟩ := chooseAssigned_usable h r.decision.risk.value
  have hm : ∃ mode, learningMode E config = .ok mode := by
    unfold learningMode
    rw [hq]
    exact ⟨_, rfl⟩
  have he : ∃ epsilon, fraction E ((lookup "exploration_probability" (learningConfig config)).getD
      (.float (E.T.ofRat (5 / 100)))) (E.T.ofRat (5 / 100)) = .ok epsilon := by
    rw [hq]
    exact ⟨_, rfl⟩
  have ha : ∃ arms, eligibleArms E config = .ok arms := by
    unfold eligibleArms armTexts
    rw [hq]
    exact ⟨_, rfl⟩
  obtain ⟨mode, hm⟩ := hm
  obtain ⟨epsilon, he⟩ := he
  obtain ⟨arms, ha⟩ := ha
  refine ⟨decisionOf E r n g c, ?_, ?_, rfl, ?_⟩
  · unfold chooseLearningDecision choose
    simp only [hm, he, ha, hc, bind, Except.bind, pure, Except.pure]
  · show c.mode ≠ "off"
    rw [hmode]
    decide
  · have harms : printable E.T.toFloatText true (.obj (decisionOf E r n g c).armPropensities) = true := by
      rw [printable_obj] at hprop ⊢
      intro p hp
      obtain ⟨q, hq, rfl⟩ := List.mem_map.mp hp
      have := hprop q hq
      dsimp only
      split
      · rfl
      · exact this
    have hel : printable E.T.toFloatText true
        (.arr ((decisionOf E r n g c).eligibleArms.map .str) : Json F) = true := by
      rw [printable_arr, List.forall_mem_map]
      exact fun _ _ => rfl
    rw [LearningDecision.toDict, printable_obj]
    simp only [List.forall_mem_cons]
    refine ⟨rfl, rfl, rfl, rfl, hel, rfl, rfl, harms, rfl, rfl, rfl, rfl, rfl, rfl, rfl, rfl, rfl, rfl,
      ?_, by simp⟩
    cases hdp : (decisionOf E r n g c).deployment with
    | none => rfl
    | some e => exact hdep e hdp

/-- A number can be converted. -/
theorem toFloat_of_number {v : Json F} {x : F} (h : E.number? v = .ok (some x)) :
    E.toFloat v = .ok x := by
  unfold Env.number? at h
  split at h
  · obtain ⟨y, hy, h⟩ := bind_eq_ok.mp h
    cases h
    exact hy
  · cases h
    rfl
  · cases h

/-- The traffic fraction of a valid state can be converted. -/
theorem toFloat_traffic {state : Dict F} {stage : String}
    (h : trafficBad E state stage = .ok false) :
    ∃ x, E.toFloat ((lookup "traffic_fraction" state).getD (.float (E.T.ofRat 0))) = .ok x := by
  unfold trafficBad at h
  split_ifs at h
  · cases h
  obtain ⟨expected, -, h⟩ := bind_eq_ok.mp h
  obtain ⟨o, ho, h⟩ := bind_eq_ok.mp h
  cases o with
  | none => cases h
  | some x =>
    cases hl : lookup "traffic_fraction" state with
    | none => exact ⟨_, rfl⟩
    | some v =>
      rw [getKey, hl] at ho
      exact ⟨x, toFloat_of_number ho⟩

/-- A valid state has an assignment for every request. -/
theorem resolveLive_ok {s : Site F} {log : Log} {c : Conditions F} {state : Dict F}
    (h : LooksUp E s log c state) (r : Request) (n : ℤ) :
    ∃ a, resolveLive E state r n c.bucket = .ok a ∧ Usable E a := by
  obtain ⟨text, -, hl, -⟩ := h.loaded
  have hp := printable_load hl
  obtain ⟨stage, hv⟩ := (State.verify_iff E).mp h.valid
  unfold resolveLive
  rw [h.live]
  simp only [bind, Except.bind, Bool.not_true, Bool.false_eq_true, if_false]
  split_ifs with hr
  · exact ⟨_, rfl, usable_baseline hp _ _ _⟩
  have ht : ∃ target key, targetArm E state (.obj (r.features n).toDict) = .ok (target, key) := by
    obtain ⟨m, hm, hcheck, -⟩ := hv.manifest
    obtain ⟨fields, policy, cutoff, source, hver⟩ := (Manifest.verify_iff E).mp hcheck
    obtain ⟨pol, hpol, -, hsafe, -⟩ := (validatePolicy_eq_ok E).mp hver.policyOf
    rcases hver.fieldsOf with ⟨raw, hraw, hf⟩ | ⟨hraw, -⟩
    · exact ⟨_, _, targetArm_eq hm hraw hpol hsafe hf (plain_features r n)⟩
    · exact ⟨_, _, targetArm_none hm hraw _⟩
  obtain ⟨target, key, ht⟩ := ht
  have hfl := toFloat_traffic hv.traffic
  obtain ⟨x, hfl⟩ := hfl
  obtain ⟨id, hid⟩ := strOr_ok hp "policy_id" ""
  rw [ht]
  unfold assignTarget
  simp only [hfl, hid, bind, Except.bind]
  split_ifs
  · exact ⟨_, rfl, usable_baseline hp _ _ _⟩
  · exact ⟨_, rfl, usable_baseline hp _ _ _⟩
  · exact ⟨_, rfl, usable_signed hp _ _ _ _⟩

/-- **A request that looks up its context is served, and its decision is logged** under a new id. -/
theorem serve_logs {s : Site F} {log : Log} {c : Conditions F} {state : Dict F}
    (h : LooksUp E s log c state) (hq : Quiet s.config) (r : Request) (roots : Roots) {g : Draws F}
    (hid : isDecisionId g.decisionId = true) (hfresh : g.decisionId ∉ log.map Prod.fst) {w : Writes}
    (hw : w.first = .written) :
    ∃ a d file, resolveLive E state r roots.selected.length c.bucket = .ok a ∧
      chooseLearningDecision E r s.config roots.all.length (some a) { g with killEnv := s.killEnv } =
        .ok d ∧ Proper d ∧ Logs E file d ∧ file.1 = g.decisionId ∧
      serve E s log r roots c g w = .ok (d, log ++ [file], c.stateFile) := by
  obtain ⟨a, ha, hu⟩ := resolveLive_ok h r roots.selected.length
  obtain ⟨d, hd, hmode, hdid, hprint⟩ := choose_usable hq hu r roots.all.length
    { g with killEnv := s.killEnv }
  obtain ⟨text, ht⟩ := fileText_eq_ok E hprint
  have hp : Proper d := by
    refine proper_choose (fun a' he => ?_) hd
    cases he
    obtain ⟨_, -, hl, -⟩ := h.loaded
    exact wellFormed_resolveLive (wellFormed_load hl) ha
  have hlogs : Logs E (d.decisionId, text) d := by
    refine ⟨rfl, hdid ▸ hid, ?_⟩
    rw [← sortKeys_obj']
    exact jsonLoads_fileText E (wellFormed_toDict hp) ht
  refine ⟨a, d, (d.decisionId, text), ha, hd, hp, hlogs, hdid, ?_⟩
  have hwrite : writeLearningDecision E log d w.first = .ok (log ++ [(d.decisionId, text)], true) := by
    unfold writeLearningDecision createRecord
    rw [hdid, hid, ht, hw]
    simp [bind, Except.bind, require, hfresh, pure, Except.pure]
  unfold serve prepareLearningDecision
  rw [resolve_looksUp h, ha]
  simp only [Except.map, bind, Except.bind, hd, if_neg hmode, hwrite, Bool.true_or, if_true]
  rfl

end Served

end ControlPlane.Deployment.Serving
