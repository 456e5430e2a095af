import ControlPlane.Deployment.Publication
import ControlPlane.Deployment.Exposure

/-! # Executing another arm than the baseline

`serveOn` resolves the deployment of a request and prepares its decision, over the steps of the
publications. The arm of the decision is the one that the engine executes.

`executed_safe`: an arm other than the baseline is executed only for a low-risk request, without a kill
switch, if it was drawn from a deployment whose guardrails let the request pass or explored, and a record
that states it was published before. -/

namespace ControlPlane.Deployment.Execution

open ControlPlane.Lib.Value ControlPlane.Lib.Text ControlPlane.Lib.Dynamic ControlPlane.Lib.Publish
open ControlPlane.Lib.Floats ControlPlane.Lib.Grid ControlPlane.Environment ControlPlane.Instance
open ControlPlane.Learning.Features ControlPlane.Learning.Decision ControlPlane.Learning.Records
open ControlPlane.Deployment.Stages ControlPlane.Deployment.State ControlPlane.Deployment.Guardrails
open ControlPlane.Deployment.Runtime ControlPlane.Deployment.Serving ControlPlane.Deployment.Publication
open ControlPlane.Deployment.Evaluation ControlPlane.Deployment.Exposure

variable {F : Type} (E : Env F)

/-- The decision that a request is served with, the store and the state file after it. -/
def serveOn (s : Site F) (d : Folder) (r : Request) (roots : Roots) (c : Conditions F) (g : Draws F)
    (p : Publishing) : Py (LearningDecision F × Folder × Option String) := do
  let (assignment, stateFile) ← resolveRuntimeDeployment E s d.files r roots.selected.length c
  let (decision, d) ← prepareOn E d r s.config roots.all.length assignment
    { g with killEnv := s.killEnv } p
  return (decision, d, stateFile)

/-- The arm was drawn from a deployment: its state file holds a validly signed state in a live stage, its
guardrails let the request pass if they are evaluated, and the draw fell to the arm of the context. -/
structure Drawn (s : Site F) (log : Log) (r : Request) (n : ℤ) (c : Conditions F) (arm : String) :
    Prop where
  state : ∃ text state, c.stateFile = some text ∧ loadDeploymentState E text = .ok state ∧
    (∃ check, verifyDeploymentState E state s.signingKey = .ok check ∧ check.valid = true) ∧
    inLiveStages (getKey state "stage") = .ok true ∧
    (autoRollbackEnabled E s.config = true → ∃ report, evaluateLiveGuardrails E s.statistics log c.notes
      state s.signingKey = .ok report ∧ report.rollbackRequired = false) ∧
    ∃ key probability, targetArm E state (.obj (r.features n).toDict) = .ok (arm, key) ∧
      E.toFloat ((lookup "traffic_fraction" state).getD (.float (E.T.ofRat 0))) = .ok probability ∧
      drawable E probability = true ∧ isCandidate E probability c.bucket = true

/-- The arm was explored: the mode is `explore` and the arm is eligible. -/
def Explored (config : Dict F) (arm : String) : Prop :=
  learningMode E config = .ok "explore" ∧ ∃ arms, eligibleArms E config = .ok arms ∧ arm ∈ arms

variable {E}

/-! ### The arm of a decision -/

theorem sampleFrom_mem (point : Num) : ∀ (propensities : Dict F) (cumulative : Num) (last : String),
    sampleFrom E point propensities cumulative last ∈ last :: keys propensities
  | [], _, last => by simp [sampleFrom]
  | (arm, p) :: rest, cumulative, last => by
    rw [sampleFrom]
    split_ifs
    · simp [keys]
    · have h := sampleFrom_mem point rest (E.T.add cumulative ((numOf E.T p).getD .nan)) arm
      exact List.mem_cons_of_mem _ h

theorem keys_explorePropensities (arms : List String) (epsilon : F) :
    keys (explorePropensities E arms epsilon) = arms := by
  unfold explorePropensities keys
  split_ifs
  · rw [List.map_map]
    exact List.map_id arms
  · dsimp only
    rw [List.map_map]
    exact List.map_id arms

theorem sampleArm_mem {arms : List String} {epsilon draw : F}
    (h : sampleArm E (explorePropensities E arms epsilon) draw ≠ baselineArm) :
    sampleArm E (explorePropensities E arms epsilon) draw ∈ arms := by
  have hm := sampleFrom_mem (E := E) (E.T.view draw) (explorePropensities E arms epsilon) (.fin 0)
    baselineArm
  rw [keys_explorePropensities] at hm
  rcases List.mem_cons.mp hm with he | hm
  · exact absurd he h
  · exact hm

theorem eligible_safe {config : Dict F} {arms : List String} (h : eligibleArms E config = .ok arms) :
    ∀ arm ∈ arms, arm ∈ safeExplorationArms := by
  unfold eligibleArms at h
  obtain ⟨texts, -, h⟩ := bind_eq_ok.mp h
  cases h
  intro arm harm
  rw [List.mem_eraseDups] at harm
  have hf : ∀ a ∈ (texts.map strip).filter safeExplorationArms.contains, a ∈ safeExplorationArms :=
    fun a ha => by simpa using (List.mem_filter.mp ha).2
  split_ifs at harm
  · exact hf arm harm
  · rcases List.mem_cons.mp harm with rfl | harm
    · exact baseline_safe
    · exact hf arm harm

/-- Only exploration chooses another arm without an assignment. -/
theorem explored_of_choose {r : Request} {config : Dict F} {n : ℤ} {g : Draws F}
    {d : LearningDecision F} (h : chooseLearningDecision E r config n none g = .ok d)
    (hne : d.chosenArm ≠ baselineArm) : r.decision.risk = .low ∧ d.chosenArm ∈ safeExplorationArms ∧
      learningKillSwitch E config g.killEnv = false ∧ Explored E config d.chosenArm := by
  unfold chooseLearningDecision at h
  simp only [bind_eq_ok] at h
  obtain ⟨mode, hmode, epsilon, -, arms, harms, c, hc, h⟩ := h
  cases h
  have hne' : c.chosen ≠ baselineArm := hne
  show r.decision.risk = .low ∧ c.chosen ∈ safeExplorationArms ∧ _ ∧ Explored E config c.chosen
  unfold choose chooseMode at hc
  split_ifs at hc with h1 h2 h3
  · cases hc
    exact absurd rfl hne'
  · cases hc
    exact absurd rfl hne'
  · unfold chooseExplore at hc
    obtain ⟨allowed, hrisk, hc⟩ := bind_eq_ok.mp hc
    simp only [pure, Except.pure, Except.ok.injEq] at hc
    split_ifs at hc with h4 h5 <;> subst hc
    · exact absurd rfl hne'
    · exact absurd rfl hne'
    · have hmem : sampleArm E (explorePropensities E arms epsilon) g.draw ∈ arms :=
        sampleArm_mem hne'
      have hallowed : allowed = true := by simpa using h4
      have hlow : r.decision.risk.value = "low" := by
        rw [hallowed] at hrisk
        unfold allowedRisk at hrisk
        split at hrisk
        · obtain ⟨texts, -, hrisk⟩ := bind_eq_ok.mp hrisk
          have hb := Except.ok.inj hrisk
          rw [Bool.and_eq_true, beq_iff_eq] at hb
          exact hb.2
        · simpa using Except.ok.inj hrisk
      refine ⟨?_, eligible_safe harms _ hmem, by simpa using h3, h2 ▸ hmode, arms, harms, hmem⟩
      cases hr : r.decision.risk <;> rw [hr] at hlow <;> first | rfl | exact absurd hlow (by decide)
  · cases hc
    exact absurd rfl hne'

/-- The arm of a decision made from an assignment. -/
theorem arm_of_assigned {r : Request} {config a : Dict F} {n : ℤ} {g : Draws F}
    {d : LearningDecision F} (h : chooseLearningDecision E r config n (some a) g = .ok d)
    (hne : d.chosenArm ≠ baselineArm) : ∃ arm, E.strOr a "chosen_arm" baselineArm = .ok arm ∧
      d.chosenArm = strip arm ∧ d.chosenArm ∈ safeExplorationArms := by
  unfold chooseLearningDecision at h
  simp only [bind_eq_ok] at h
  obtain ⟨mode, -, epsilon, -, arms, -, c, hc, h⟩ := h
  cases h
  have hne' : c.chosen ≠ baselineArm := hne
  show ∃ arm, _ ∧ c.chosen = strip arm ∧ c.chosen ∈ safeExplorationArms
  unfold choose chooseAssigned at hc
  simp only [bind_eq_ok] at hc
  obtain ⟨arm, harm, o, ho, hc⟩ := hc
  cases o with
  | none =>
    cases hc
    exact absurd rfl hne'
  | some parsed =>
    simp only [bind_eq_ok, pure, Except.pure, Except.ok.injEq] at hc
    obtain ⟨mode, -, reason, -, epsilon, -, id, -, rfl⟩ := hc
    refine ⟨arm, harm, rfl, ?_⟩
    unfold validAssignment at ho
    split_ifs at ho with hsafe
    · cases ho
    · simpa using hsafe

/-- The assignment of another arm than the baseline was drawn. -/
theorem drawn_of_resolveLive {state a : Dict F} {r : Request} {n : ℤ} {b : Bucket F}
    (h : resolveLive E state r n b = .ok a) {arm : String}
    (harm : E.strOr a "chosen_arm" baselineArm = .ok arm) (hne : strip arm ≠ baselineArm) :
    r.decision.risk = .low ∧ ∃ target key probability, arm = target ∧
      targetArm E state (.obj (r.features n).toDict) = .ok (target, key) ∧
      E.toFloat ((lookup "traffic_fraction" state).getD (.float (E.T.ofRat 0))) = .ok probability ∧
      drawable E probability = true ∧ isCandidate E probability b = true := by
  have hbase : ∀ reason context target, E.strOr (baselineAssignment E reason state context target)
      "chosen_arm" baselineArm = .ok baselineArm := fun _ _ _ => rfl
  have hstrip : strip baselineArm = baselineArm := by decide
  rcases resolveLive_cases h with ⟨reason, rfl⟩ | ⟨-, hr, target, key, ht, h⟩
  · rw [hbase] at harm
    cases harm
    exact absurd hstrip hne
  · rcases assignTarget_cases h with ⟨reason, rfl⟩ | ⟨probability, -, hd, hp, rfl⟩
    · rw [hbase] at harm
      cases harm
      exact absurd hstrip hne
    · have hsigned : E.strOr (signedAssignment E state target key probability b) "chosen_arm"
          baselineArm = .ok (if isCandidate E probability b then target else baselineArm) := rfl
      rw [hsigned] at harm
      have he := Except.ok.inj harm
      by_cases hc : isCandidate E probability b = true
      · rw [if_pos hc] at he
        exact ⟨hr, target, key, probability, he.symm, ht, hp, hd, hc⟩
      · rw [if_neg hc] at he
        exact absurd (he ▸ hstrip) hne

/-- The arm of a context is written without white space. -/
theorem strip_targetArm {state : Dict F} {features : Json F} {target : String} {key : Option String}
    (h : targetArm E state features = .ok (target, key)) : strip target = target := by
  have hb : strip baselineArm = baselineArm := by decide
  unfold targetArm at h
  split at h
  · split at h
    · obtain ⟨o, -, h⟩ := bind_eq_ok.mp h
      cases o with
      | none =>
        cases h
        exact hb
      | some k =>
        obtain ⟨arm, -, h⟩ := bind_eq_ok.mp h
        dsimp only at h
        obtain ⟨rfl, -⟩ := Prod.mk.inj (Except.ok.inj h)
        split_ifs with hin
        · exact strip_safe _ (by simpa using hin)
        · exact hb
    · cases h
      exact hb
  · cases h
    exact hb

/-! ### Execution -/

/-- **Another arm than the baseline is executed only if** the risk is low, the arm is safe, there is no
kill switch, the arm was drawn or explored, and a new record states it. -/
theorem executed_safe {s : Site F} {d d' : Folder} {r : Request} {roots : Roots} {c : Conditions F}
    {g : Draws F} {p : Publishing} {served : LearningDecision F} {stateFile : Option String}
    (h : serveOn E s d r roots c g p = .ok (served, d', stateFile))
    (hne : served.chosenArm ≠ baselineArm) :
    r.decision.risk = .low ∧ served.chosenArm ∈ safeExplorationArms ∧
      learningKillSwitch E s.config s.killEnv = false ∧
      (Drawn E s d.files r roots.selected.length c served.chosenArm ∨
        Explored E s.config served.chosenArm) ∧
      ∃ file ∈ d'.files, file.1 = served.decisionId ∧ file.1 ∉ d.files.map Prod.fst ∧
        getKey (content E file.2) "chosen_arm" = .str served.chosenArm := by
  unfold serveOn at h
  obtain ⟨⟨assignment, after⟩, hres, h⟩ := bind_eq_ok.mp h
  obtain ⟨⟨decision, d₁⟩, hprep, h⟩ := bind_eq_ok.mp h
  cases h
  have hwf := wellFormed_resolve hres
  have hprep := prepareOn_outcome hprep
  unfold prepareLearningDecision at hprep
  obtain ⟨selected, hsel, hprep⟩ := bind_eq_ok.mp hprep
  have hp := proper_choose hwf hsel
  -- only the selected decision can have another arm, and then its record is written
  have hserved : served = selected ∧ ∃ file ∈ d'.files, file.1 = served.decisionId ∧
      file.1 ∉ d.files.map Prod.fst ∧ getKey (content E file.2) "chosen_arm" = .str served.chosenArm := by
    split_ifs at hprep with hoff
    · obtain ⟨rfl, -⟩ := Prod.mk.inj (Except.ok.inj hprep)
      exact absurd (baseline_of_off (mode_of_resolve hres) hsel hoff) hne
    · obtain ⟨⟨log, ok⟩, hw, hprep⟩ := bind_eq_ok.mp hprep
      dsimp only at hprep
      split_ifs at hprep with hok
      · obtain ⟨rfl, rfl⟩ := Prod.mk.inj (Except.ok.inj hprep)
        refine ⟨rfl, ?_⟩
        have hok' : ok = true := by
          rw [Bool.or_eq_true, beq_iff_eq] at hok
          exact hok.resolve_right hne
        rcases write_cases hp hw with ⟨-, hno, -⟩ | ⟨file, he, hl, hn, -⟩
        · rw [hok'] at hno
          cases hno
        · rw [he]
          exact ⟨file, by simp, hl.id, hl.id ▸ hn, arm_of_logs hl⟩
      · obtain ⟨⟨log₂, ok₂⟩, -, hprep⟩ := bind_eq_ok.mp hprep
        obtain ⟨rfl, -⟩ := Prod.mk.inj (Except.ok.inj hprep)
        exact absurd rfl hne
  obtain ⟨rfl, hrecord⟩ := hserved
  cases assignment with
  | none =>
    obtain ⟨hr, hsafe, hkill, hexp⟩ := explored_of_choose hsel hne
    exact ⟨hr, hsafe, hkill, Or.inr hexp, hrecord⟩
  | some a =>
    obtain ⟨arm, harm, he, hsafe⟩ := arm_of_assigned hsel hne
    rcases resolve_cases hres with ⟨state, a', hlook, hlive, ha, -⟩ | ⟨hno | ⟨reason, state, -, ha⟩, -⟩
    · cases ha
      obtain ⟨hr, target, key, probability, rfl, ht, hpr, hd, hc⟩ :=
        drawn_of_resolveLive hlive harm (he ▸ hne)
      obtain ⟨text, hfile, hload, -⟩ := hlook.loaded
      refine ⟨hr, hsafe, hlook.running, Or.inl ⟨text, state, hfile, hload, hlook.valid, hlook.live,
        fun hauto => evaluated_of_looksUp hlook hauto, key, probability, ?_, hpr, hd, hc⟩, hrecord⟩
      rw [he, strip_targetArm ht]
      exact ht
    · cases hno
    · cases ha
      have hbase : E.strOr (baselineAssignment E reason state none baselineArm) "chosen_arm" baselineArm =
          .ok baselineArm := rfl
      rw [hbase] at harm
      cases harm
      have hb : strip baselineArm = baselineArm := by decide
      exact absurd (he.trans hb) hne

/-- An explored arm is executed and its record is there. -/
theorem executed_explored : ∃ served d' stateFile, serveOn platform exploringSite emptyFolder
    sampleRequest oneRoot (sampleConditions "") firstDraw (publishing noFault) =
      .ok (served, d', stateFile) ∧ served.chosenArm = "source_rank" ∧
      Explored platform exploringSite.config served.chosenArm ∧
      ∃ file ∈ d'.files, getKey (content platform file.2) "chosen_arm" = .str "source_rank" := by
  have hok : (serveOn platform exploringSite emptyFolder sampleRequest oneRoot (sampleConditions "")
      firstDraw (publishing noFault)).map (·.1.chosenArm) = .ok "source_rank" := by
    decide +kernel
  cases h : serveOn platform exploringSite emptyFolder sampleRequest oneRoot (sampleConditions "")
      firstDraw (publishing noFault) with
  | error e =>
    rw [h] at hok
    cases hok
  | ok out =>
    rw [h] at hok
    have harm : out.1.chosenArm = "source_rank" := Except.ok.inj hok
    obtain ⟨-, -, -, hdrawn, file, hfile, -, -, hstates⟩ := executed_safe h (by
      rw [harm]
      decide)
    refine ⟨out.1, out.2.1, out.2.2, rfl, harm, ?_, file, hfile, by rw [hstates, harm]⟩
    rcases hdrawn with hd | he
    · obtain ⟨text, state, hf, hload, -⟩ := hd.state
      cases hf
      have hbad : (loadDeploymentState platform "").toOption = none := by decide
      rw [hload] at hbad
      cases hbad
    · exact he

end ControlPlane.Deployment.Execution
