import ControlPlane.Instance
import ControlPlane.Lib.Publish
import ControlPlane.Deployment.Evaluation

/-! # The decision log and the arm that is executed

A decision record is published step by step, and each step may raise an `OSError` (`createRecordOn`).
`prepareOn` is `prepareLearningDecision` over these steps; what it does is what
`prepareLearningDecision` does with the outcomes that the faults come to (`prepareOn_outcome`).

The store `Records` a request if it gets one new record, which states the arm that is executed, or none
and the baseline is executed. This is so unless an arm other than the baseline was selected and its
record was published by a call that raised afterwards (`records_iff`). -/

namespace ControlPlane.Deployment.Publication

open ControlPlane.Lib.Value ControlPlane.Lib.Dynamic ControlPlane.Lib.Publish ControlPlane.Lib.Floats
open ControlPlane.Lib.Grid ControlPlane.Environment ControlPlane.Instance
open ControlPlane.Learning.Features ControlPlane.Learning.Decision ControlPlane.Learning.Records
open ControlPlane.Deployment.State ControlPlane.Deployment.Guardrails ControlPlane.Deployment.Runtime
open ControlPlane.Deployment.Serving ControlPlane.Deployment.Evaluation

variable {F : Type} (E : Env F)

/-- What becomes of a write whose steps raise these errors. -/
def outcomeOf (f : Faults) : WriteOutcome :=
  if f.publishes then if f.raisesLate then .unsynced else .written else .failed

/-- Creates a record in the store; the result is the error that the call raises, if any. -/
def createRecordOn (d : Folder) (decisionId : String) (payload : Dict F) (temporary : String)
    (f : Faults) : Py (Option OsError × Folder) := do
  require (isDecisionId decisionId) "decision_id must be a 32-character lowercase hexadecimal ID"
  let text ← E.fileText true (.obj payload)
  return atomicCreateText d decisionId text temporary f

/-- What the platform draws for the publications of a request, and the errors that their steps raise. -/
structure Publishing where
  first : Faults
  firstTemporary : String
  fallbackId : String
  fallbackAt : String
  second : Faults
  secondTemporary : String

/-- The same with the outcomes of the writes only. -/
def Publishing.writes (p : Publishing) : Writes where
  first := outcomeOf p.first
  fallbackId := p.fallbackId
  fallbackAt := p.fallbackAt
  second := outcomeOf p.second

/-- `prepareLearningDecision` with the steps of its publications. -/
def prepareOn (d : Folder) (r : Request) (config : Dict F) (workspaceRootsCount : ℤ)
    (assignment : Option (Dict F)) (g : Draws F) (p : Publishing) : Py (LearningDecision F × Folder) := do
  let selected ← chooseLearningDecision E r config workspaceRootsCount assignment g
  if selected.mode = "off" then return (selected, d)
  let (raised, d) ← createRecordOn E d selected.decisionId selected.toDict p.firstTemporary p.first
  if raised.isNone || selected.chosenArm == baselineArm then return (selected, d)
  let fallback := baselineFallback E selected "decision_log_failure" p.fallbackId p.fallbackAt
  let (_, d) ← createRecordOn E d fallback.decisionId fallback.toDict p.secondTemporary p.second
  return (fallback, d)

variable {E}

/-! ### The steps and their outcome -/

theorem createRecordOn_outcome {d d' : Folder} {id temporary : String} {payload : Dict F} {f : Faults}
    {raised : Option OsError} (h : createRecordOn E d id payload temporary f = .ok (raised, d')) :
    createRecord E d.files id payload (outcomeOf f) = .ok (d'.files, raised.isNone) := by
  unfold createRecordOn at h
  simp only [bind_eq_ok] at h
  obtain ⟨u, hid, text, ht, h⟩ := h
  have hres : atomicCreateText d id text temporary f = (raised, d') := Except.ok.inj h
  have hfiles := @files_create d id text temporary f
  have hraised := @create_eq_none d id text temporary f
  rw [hres] at hfiles hraised
  dsimp only at hfiles hraised
  unfold createRecord
  rw [hid, ht, hfiles]
  simp only [bind, Except.bind]
  have hhas : (d.files.map Prod.fst).contains id = d.has id := rfl
  rw [hhas]
  by_cases hn : d.has id = true
  · have hsome : raised.isNone = false := by
      rw [Option.isNone_eq_false_iff, Option.isSome_iff_ne_none]
      exact fun he => by simp [hraised.mp he] at hn
    simp [hn, hsome, pure, Except.pure]
  · simp only [Bool.not_eq_true] at hn
    unfold outcomeOf
    by_cases hp : f.publishes = true
    · by_cases hl : f.raisesLate = true
      · have hsome : raised.isNone = false := by
          rw [Option.isNone_eq_false_iff, Option.isSome_iff_ne_none]
          exact fun he => by simp [hraised.mp he] at hl
        simp [hn, hp, hl, hsome, pure, Except.pure]
      · simp only [Bool.not_eq_true] at hl
        rw [hraised.mpr ⟨hp, hn, hl⟩]
        simp [hn, hp, hl, pure, Except.pure]
    · have hsome : raised.isNone = false := by
        rw [Option.isNone_eq_false_iff, Option.isSome_iff_ne_none]
        exact fun he => hp (hraised.mp he).1
      simp [hn, hp, hsome, pure, Except.pure]

/-- **The steps do what their outcomes say.** -/
theorem prepareOn_outcome {d d' : Folder} {r : Request} {config : Dict F} {n : ℤ}
    {assignment : Option (Dict F)} {g : Draws F} {p : Publishing} {served : LearningDecision F}
    (h : prepareOn E d r config n assignment g p = .ok (served, d')) :
    prepareLearningDecision E d.files r config n assignment g p.writes = .ok (served, d'.files) := by
  unfold prepareOn at h
  obtain ⟨selected, hs, h⟩ := bind_eq_ok.mp h
  unfold prepareLearningDecision
  rw [hs]
  simp only [bind, Except.bind]
  split_ifs at h with hmode
  · cases h
    rw [if_pos hmode]
    rfl
  · rw [if_neg hmode]
    obtain ⟨⟨raised, d₁⟩, h₁, h⟩ := bind_eq_ok.mp h
    have hw : writeLearningDecision E d.files selected p.writes.first =
        .ok (d₁.files, raised.isNone) := createRecordOn_outcome h₁
    simp only [hw]
    simp only at h
    split_ifs at h with hserved
    · cases h
      rw [if_pos hserved]
      rfl
    · rw [if_neg hserved]
      obtain ⟨⟨raised₂, d₂⟩, h₂, h⟩ := bind_eq_ok.mp h
      cases h
      have hw₂ : writeLearningDecision E d₁.files (baselineFallback E selected "decision_log_failure"
          p.fallbackId p.fallbackAt) p.writes.second = .ok (d₂.files, raised₂.isNone) :=
        createRecordOn_outcome h₂
      have hf : p.writes.fallbackId = p.fallbackId ∧ p.writes.fallbackAt = p.fallbackAt := ⟨rfl, rfl⟩
      simp only [hf.1, hf.2, hw₂]
      rfl

/-! ### What the store holds afterwards -/

variable (E) in
/-- The store has one new record, which states the arm of the decision, or none and the arm is the
baseline. -/
def Records (before after : Log) (served : LearningDecision F) : Prop :=
  after = before ∧ served.chosenArm = baselineArm ∨
    ∃ file, after = before ++ [file] ∧ file.1 = served.decisionId ∧
      getKey (content E file.2) "chosen_arm" = .str served.chosenArm

theorem arm_of_logs {file : String × String} {d : LearningDecision F} (h : Logs E file d) :
    getKey (content E file.2) "chosen_arm" = .str d.chosenArm := by
  have hd : getKey (d.toDict : Dict F) "chosen_arm" = .str d.chosenArm := rfl
  rw [content_eq E h.text, getKey_sortDict nodup_toDict, hd, sortKeys_str]

/-- What a write leaves, by its outcome. -/
theorem write_cases {log log' : Log} {d : LearningDecision F} (hd : Proper d) {w : WriteOutcome}
    {ok : Bool} (h : writeLearningDecision E log d w = .ok (log', ok)) :
    log' = log ∧ ok = false ∧ (w = .failed ∨ d.decisionId ∈ log.map Prod.fst) ∨
      ∃ file, log' = log ++ [file] ∧ Logs E file d ∧ d.decisionId ∉ log.map Prod.fst ∧
        (w = .written ∧ ok = true ∨ w = .unsynced ∧ ok = false) := by
  unfold writeLearningDecision createRecord at h
  simp only [bind_eq_ok, require_eq_ok] at h
  obtain ⟨u, hid, text, ht, h⟩ := h
  have hlogs : Logs E (d.decisionId, text) d := by
    refine ⟨rfl, hid, ?_⟩
    rw [← sortKeys_obj']
    exact jsonLoads_fileText E (wellFormed_toDict hd) ht
  split_ifs at h with hn
  · cases h
    exact Or.inl ⟨rfl, rfl, Or.inr (by simpa using hn)⟩
  · have hn' : d.decisionId ∉ log.map Prod.fst := by simpa using hn
    cases w with
    | written =>
      cases h
      exact Or.inr ⟨_, rfl, hlogs, hn', Or.inl ⟨rfl, rfl⟩⟩
    | unsynced =>
      cases h
      exact Or.inr ⟨_, rfl, hlogs, hn', Or.inr ⟨rfl, rfl⟩⟩
    | failed =>
      cases h
      exact Or.inl ⟨rfl, rfl, Or.inl rfl⟩

/-- A decision in the mode `off` is the baseline. -/
theorem baseline_of_off {r : Request} {config : Dict F} {n : ℤ} {assignment : Option (Dict F)}
    (hmode : ∀ a, assignment = some a → lookup "mode" a = some (.str "canary")) {g : Draws F}
    {d : LearningDecision F} (h : chooseLearningDecision E r config n assignment g = .ok d)
    (hoff : d.mode = "off") : d.chosenArm = baselineArm := by
  unfold chooseLearningDecision at h
  simp only [bind_eq_ok] at h
  obtain ⟨mode, -, epsilon, -, arms, -, c, hc, h⟩ := h
  cases h
  have hoff' : c.mode = "off" := hoff
  show c.chosen = baselineArm
  cases assignment with
  | some a =>
    have hno : c.mode = "canary" := by
      unfold choose chooseAssigned at hc
      simp only [bind_eq_ok] at hc
      obtain ⟨arm, -, o, -, hc⟩ := hc
      cases o with
      | none =>
        cases hc
        rfl
      | some parsed =>
        simp only [bind_eq_ok, pure, Except.pure, Except.ok.injEq] at hc
        obtain ⟨mode, hm, reason, -, epsilon, -, id, -, rfl⟩ := hc
        rw [Env.strOr, hmode a rfl] at hm
        exact (Except.ok.inj hm).symm
    rw [hno] at hoff'
    exact absurd hoff' (by decide)
  | none =>
    unfold choose chooseMode at hc
    split_ifs at hc
    · cases hc
      rfl
    · cases hc
      rfl
    · unfold chooseExplore at hc
      obtain ⟨allowed, -, hc⟩ := bind_eq_ok.mp hc
      simp only [pure, Except.pure, Except.ok.injEq] at hc
      split_ifs at hc <;> subst hc
      · rfl
      · rfl
      · exact absurd hoff' (by simp [explorationChoice])
    · cases hc
      rfl

/-- Every assignment of the run time has the mode `canary`. -/
theorem mode_of_resolve {s : Site F} {log : Log} {r : Request} {n : ℤ} {c : Conditions F}
    {o : Option (Dict F)} {file : Option String}
    (h : resolveRuntimeDeployment E s log r n c = .ok (o, file)) :
    ∀ a, o = some a → lookup "mode" a = some (.str "canary") := by
  rintro a rfl
  rcases resolve_cases h with ⟨state, a', -, hlive, he, -⟩ | ⟨he | ⟨reason, state, -, he⟩, -⟩
  · cases he
    rcases resolveLive_cases hlive with ⟨reason, rfl⟩ | ⟨-, -, target, key, -, ha⟩
    · rfl
    · rcases assignTarget_cases ha with ⟨reason, rfl⟩ | ⟨probability, -, -, -, rfl⟩
      · rfl
      · rfl
  · cases he
  · cases he
    rfl

/-- **The record and the arm go together if and only if** the selected arm is the baseline, or its
record was not published, or published by a call that did not raise. -/
theorem records_iff {s : Site F} {d d' : Folder} {r : Request} {m n : ℤ} {c : Conditions F}
    {assignment : Option (Dict F)} {file : Option String} {g : Draws F} {p : Publishing}
    {selected served : LearningDecision F}
    (hres : resolveRuntimeDeployment E s d.files r m c = .ok (assignment, file))
    (hsel : chooseLearningDecision E r s.config n assignment g = .ok selected)
    (h : prepareOn E d r s.config n assignment g p = .ok (served, d')) :
    Records E d.files d'.files served ↔ selected.chosenArm = baselineArm ∨ d.has g.decisionId = true ∨
      p.first.publishes = false ∨ p.first.raisesLate = false := by
  have hp := proper_choose (wellFormed_resolve hres) hsel
  have hmode := mode_of_resolve hres
  have hprep := prepareOn_outcome h
  have hid : selected.decisionId = g.decisionId := by
    unfold chooseLearningDecision at hsel
    simp only [bind_eq_ok] at hsel
    obtain ⟨_, -, _, -, _, -, _, -, hsel⟩ := hsel
    cases hsel
    rfl
  have hhas : selected.decisionId ∈ d.files.map Prod.fst ↔ d.has g.decisionId = true := by
    rw [hid]
    simp [Folder.has]
  unfold prepareLearningDecision at hprep
  rw [hsel] at hprep
  simp only [bind, Except.bind] at hprep
  split_ifs at hprep with hoff
  · obtain ⟨rfl, hfiles⟩ := Prod.mk.inj (Except.ok.inj hprep)
    have hb := baseline_of_off hmode hsel hoff
    exact iff_of_true (Or.inl ⟨hfiles.symm, hb⟩) (Or.inl hb)
  obtain ⟨⟨log, ok⟩, hw, hprep⟩ := bind_eq_ok.mp hprep
  dsimp only at hprep
  by_cases hb : selected.chosenArm = baselineArm
  · -- the selected decision is served, whatever becomes of its record
    rw [if_pos (by simp [hb])] at hprep
    obtain ⟨rfl, rfl⟩ := Prod.mk.inj (Except.ok.inj hprep)
    refine iff_of_true ?_ (Or.inl hb)
    rcases write_cases hp hw with ⟨he, -⟩ | ⟨file, he, hl, -⟩
    · exact Or.inl ⟨he, hb⟩
    · exact Or.inr ⟨file, he, hl.id, arm_of_logs hl⟩
  rcases write_cases hp hw with ⟨rfl, rfl, hno⟩ | ⟨file, rfl, hl, hn, ⟨hwrit, rfl⟩ | ⟨hun, rfl⟩⟩
  · -- no record yet: the baseline is served, with a record or without one
    rw [if_neg (by simp [hb])] at hprep
    obtain ⟨⟨log₂, ok₂⟩, hw₂, hprep⟩ := bind_eq_ok.mp hprep
    obtain ⟨rfl, rfl⟩ := Prod.mk.inj (Except.ok.inj hprep)
    refine iff_of_true ?_ (Or.inr ?_)
    · rcases write_cases (proper_fallback hp _ _ _) hw₂ with ⟨he, -⟩ | ⟨file, he, hl, -⟩
      · exact Or.inl ⟨he, rfl⟩
      · exact Or.inr ⟨file, he, hl.id, arm_of_logs hl⟩
    · rcases hno with hfail | hmem
      · refine Or.inr (Or.inl ?_)
        by_contra hpub
        rw [Bool.not_eq_false] at hpub
        have hf : outcomeOf p.first = .failed := hfail
        unfold outcomeOf at hf
        rw [if_pos hpub] at hf
        split_ifs at hf
      · exact Or.inl (hhas.mp hmem)
  · rw [Bool.true_or, if_pos rfl] at hprep
    obtain ⟨rfl, hfiles⟩ := Prod.mk.inj (Except.ok.inj hprep)
    refine iff_of_true (Or.inr ⟨file, hfiles.symm, hl.id, arm_of_logs hl⟩) (Or.inr (Or.inr ?_))
    have hf : outcomeOf p.first = .written := hwrit
    unfold outcomeOf at hf
    split_ifs at hf with hpub hlate
    exact Or.inr (by simpa using hlate)
  · -- the record is there, but its arm is not served
    rw [if_neg (by simp [hb])] at hprep
    obtain ⟨⟨log₂, ok₂⟩, hw₂, hprep⟩ := bind_eq_ok.mp hprep
    obtain ⟨rfl, rfl⟩ := Prod.mk.inj (Except.ok.inj hprep)
    have hf : outcomeOf p.first = .unsynced := hun
    unfold outcomeOf at hf
    refine iff_of_false ?_ ?_
    · obtain ⟨added, hadd⟩ : ∃ added, d'.files = d.files ++ [file] ++ added := by
        rcases write_cases (proper_fallback hp _ _ _) hw₂ with ⟨he, -⟩ | ⟨file₂, he, -⟩
        · exact ⟨[], by simp [he]⟩
        · exact ⟨[file₂], he⟩
      rw [hadd, List.append_assoc]
      rintro (⟨he, -⟩ | ⟨file', he, -, harm⟩)
      · simp at he
      · have he' := List.append_cancel_left he
        rw [List.singleton_append, List.cons.injEq] at he'
        rw [← he'.1, arm_of_logs hl, Json.str.injEq] at harm
        exact hb harm
    · split_ifs at hf with hpub hlate
      rintro (h1 | h1 | h1 | h1)
      · exact hb h1
      · exact hn (hhas.mpr h1)
      · simp [hpub] at h1
      · simp [hlate] at h1

/-! ### A record whose folder is not synced -/

section Samples

/-- Exploration between two arms, without a deployment. -/
def exploringSite : Site Cell :=
  { sampleSite with config := [("context", .obj [("learning", .obj [("mode", .str "explore"),
    ("eligible_arms", .arr [.str "source_rank", .str "adaptive_math"]),
    ("exploration_probability", .float .one)])])] }

/-- A draw that falls to the first arm. -/
def firstDraw : Draws Cell := { sampleDraws with draw := .zero }

/-- Publications in which a step of the first one may raise. -/
def publishing (first : Faults) : Publishing where
  first := first
  firstTemporary := ""
  fallbackId := "11111111111111111111111111111111"
  fallbackAt := "2026-09-04"
  second := noFault
  secondTemporary := ""

def emptyFolder : Folder := ⟨[], []⟩

theorem exploring_resolves : resolveRuntimeDeployment platform exploringSite [] sampleRequest 1
    (sampleConditions "") = .ok (none, some "") := rfl

theorem exploring_selects : ∃ selected, chooseLearningDecision platform sampleRequest
    exploringSite.config 1 none firstDraw = .ok selected ∧ selected.chosenArm = "source_rank" := by
  have h : (chooseLearningDecision platform sampleRequest exploringSite.config 1 none
      firstDraw).map LearningDecision.chosenArm = .ok "source_rank" := by
    decide +kernel
  cases hc : chooseLearningDecision platform sampleRequest exploringSite.config 1 none firstDraw with
  | error e =>
    rw [hc] at h
    cases h
  | ok selected =>
    rw [hc] at h
    exact ⟨selected, rfl, Except.ok.inj h⟩

/-- Without an error the record states the arm. -/
theorem records_noFault : ∃ served d', prepareOn platform emptyFolder sampleRequest
    exploringSite.config 1 none firstDraw (publishing noFault) = .ok (served, d') ∧
      Records platform [] d'.files served := by
  obtain ⟨selected, hsel, -⟩ := exploring_selects
  have hok : (prepareOn platform emptyFolder sampleRequest exploringSite.config 1 none firstDraw
      (publishing noFault)).toOption.isSome = true := by
    decide +kernel
  cases h : prepareOn platform emptyFolder sampleRequest exploringSite.config 1 none firstDraw
      (publishing noFault) with
  | error e =>
    rw [h] at hok
    cases hok
  | ok out =>
    exact ⟨out.1, out.2, rfl, (records_iff (d := emptyFolder) exploring_resolves hsel h).mpr
      (Or.inr (Or.inr (Or.inr rfl)))⟩

/-- **If the folder cannot be synced, the record states an arm that is not executed.** -/
theorem not_records_unsynced : ∃ served d', prepareOn platform emptyFolder sampleRequest
    exploringSite.config 1 none firstDraw (publishing (faultAt .syncFolder .other)) =
      .ok (served, d') ∧ served.chosenArm = baselineArm ∧ d'.files.length = 2 ∧
      ¬ Records platform [] d'.files served := by
  have hok : (prepareOn platform emptyFolder sampleRequest exploringSite.config 1 none firstDraw
      (publishing (faultAt .syncFolder .other))).map (fun out => (out.1.chosenArm, out.2.files.length)) =
        .ok (baselineArm, 2) := by
    decide +kernel
  cases h : prepareOn platform emptyFolder sampleRequest exploringSite.config 1 none firstDraw
      (publishing (faultAt .syncFolder .other)) with
  | error e =>
    rw [h] at hok
    cases hok
  | ok out =>
    rw [h] at hok
    obtain ⟨h1, h2⟩ := Prod.mk.inj (Except.ok.inj hok)
    refine ⟨out.1, out.2, rfl, h1, h2, fun hr => ?_⟩
    have hlen : out.2.files.length ≤ 1 := by
      rcases hr with ⟨he, -⟩ | ⟨file, he, -⟩ <;> simp [he]
    omega

end Samples

end ControlPlane.Deployment.Publication
