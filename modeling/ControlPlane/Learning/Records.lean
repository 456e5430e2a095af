import ControlPlane.Learning.Decision

/-! # Learning records

The decision log read back. `loadLearningRecords` reads every decision file, keys the objects by their
decision id and joins the observation and the outcome of each.

A log is `Filed` if every file holds an object under its own decision id. `prepareLearningDecision`
keeps this (`filed_prepare`), and the rows of a filed log are its objects (`load_filed`). -/

namespace ControlPlane.Learning.Records

open ControlPlane.Lib.Value ControlPlane.Lib.Text ControlPlane.Lib.Dumps ControlPlane.Lib.Dynamic
open ControlPlane.Environment ControlPlane.Learning.Features ControlPlane.Learning.Decision

variable {F : Type} (E : Env F)

/-! ### Reading the log -/

/-- The object a decision file holds; `none` if it is no JSON object. -/
def readRecord (text : String) : Py (Option (Dict F)) :=
  match E.jsonLoads text with
  | .ok (.obj d) => .ok (some d)
  | .ok _ => .ok none
  | .error (.jsonDecodeError _) => .ok none
  | .error e => .error e

/-- The loop of `readRecords` over the files still to be read. -/
def readFiles : Log → Dict F → Py (Dict F)
  | [], records => .ok records
  | (_, text) :: files, records => do
    match ← readRecord E text with
    | none => readFiles files records
    | some d =>
      let decisionId := strip (← E.strOr d "decision_id" "")
      readFiles files (if decisionId = "" then records else setKey decisionId (.obj d) records)

/-- The files in the order of their names. -/
def sortedFiles (log : Log) : Log := log.insertionSort fun p q => p.1 ≤ q.1

def readRecords (log : Log) : Py (Dict F) := readFiles E (sortedFiles log) []

/-- The observations and outcomes on disk, by decision id. -/
structure Notes (F : Type) where
  observations : Dict F
  outcomes : Dict F

/-- The row of a decision: its object, observation and outcome. -/
def rowOf (notes : Notes F) (decisionId : String) (decision : Json F) : Dict F :=
  let d := match decision with
    | .obj d => d
    | _ => []
  setKey "outcome" (getKey notes.outcomes decisionId)
    (setKey "observation" (getKey notes.observations decisionId) d)

def loadLearningRecords (log : Log) (notes : Notes F) : Py (List (Dict F)) := do
  let decisions ← readRecords E log
  return (sortPairs decisions).map fun p => rowOf notes p.1 p.2

/-! ### Filed logs -/

/-- The object in a file, or the empty one. -/
def content (text : String) : Dict F :=
  match E.jsonLoads text with
  | .ok (.obj d) => d
  | _ => []

/-- A file holds an object under its decision id. -/
structure Holds (file : String × String) : Prop where
  text : E.jsonLoads file.2 = .ok (.obj (content E file.2))
  id : getKey (content E file.2) "decision_id" = .str file.1
  isId : isDecisionId file.1 = true

/-- Every file holds an object under its own decision id. -/
structure Filed (log : Log) : Prop where
  names : (log.map Prod.fst).Nodup
  holds : ∀ file ∈ log, Holds E file

theorem content_eq {text : String} {d : Dict F} (h : E.jsonLoads text = .ok (.obj d)) :
    content E text = d := by
  rw [content, h]

theorem strip_decisionId {id : String} (h : isDecisionId id = true) : strip id = id ∧ id ≠ "" := by
  unfold isDecisionId at h
  rw [Bool.and_eq_true, beq_iff_eq, List.all_eq_true] at h
  obtain ⟨hl, hx⟩ := h
  refine ⟨strip_hex hx, ?_⟩
  rintro rfl
  simp at hl

/-- The entry that a file becomes in the records. -/
def record (file : String × String) : String × Json F := (file.1, .obj (content E file.2))

theorem readFiles_filed : ∀ {log : Log} {records : Dict F}, Filed E log →
    (∀ p ∈ log, p.1 ∉ keys records) → readFiles E log records = .ok (records ++ log.map (record E))
  | [], records, _, _ => by simp [readFiles]
  | (name, text) :: log, records, hf, hr => by
    have hn := hf.names
    rw [List.map_cons, List.nodup_cons] at hn
    have h := hf.holds _ (List.mem_cons_self ..)
    have ht : Filed E log := ⟨hn.2, fun p hp => hf.holds p (List.mem_cons_of_mem _ hp)⟩
    have hs := strip_decisionId h.isId
    have hid : E.strOr (content E text) "decision_id" "" = .ok name := strOr_of_getKey h.id _
    have hr' : ∀ p ∈ log, p.1 ∉ keys (records ++ [record E (name, text)]) := by
      intro p hp hk
      rw [keys, List.map_append, List.mem_append] at hk
      rcases hk with hk | hk
      · exact hr p (List.mem_cons_of_mem _ hp) hk
      · rw [List.map_singleton, List.mem_singleton] at hk
        exact hn.1 (List.mem_map.mpr ⟨p, hp, hk⟩)
    have hrec : readRecord E text = .ok (some (content E text)) := by
      rw [readRecord, h.text]
    rw [readFiles, hrec]
    simp only [bind, Except.bind, hid, hs.1, if_neg hs.2]
    rw [setKey_of_notMem (hr _ (List.mem_cons_self ..)), ← record, readFiles_filed ht hr']
    simp

theorem filed_perm {log log' : Log} (h : log'.Perm log) (hf : Filed E log) : Filed E log' :=
  ⟨(h.map _).nodup_iff.mpr hf.names, fun p hp => hf.holds p (h.mem_iff.mp hp)⟩

/-- **The rows of a filed log are its objects**, in some order. -/
theorem load_filed {log : Log} (hf : Filed E log) (notes : Notes F) :
    ∃ rows, loadLearningRecords E log notes = .ok rows ∧
      rows.Perm (log.map fun file => rowOf notes file.1 (.obj (content E file.2))) := by
  have hp : (sortedFiles log).Perm log := List.perm_insertionSort _ _
  have hr : readRecords E log = .ok ((sortedFiles log).map (record E)) :=
    readFiles_filed E (filed_perm E hp hf) (by simp [keys])
  unfold loadLearningRecords
  rw [hr]
  refine ⟨_, rfl, ?_⟩
  have h := ((perm_sortPairs _).trans (hp.map (record E))).map fun p : String × Json F =>
    rowOf notes p.1 p.2
  rwa [List.map_map] at h

/-! ### Logging keeps a log filed -/

variable {E}

theorem createRecord_eq_ok {log log' : Log} {id : String} {payload : Dict F} {w : WriteOutcome}
    {ok : Bool} (h : createRecord E log id payload w = .ok (log', ok)) :
    log' = log ∨ ∃ text, log' = log ++ [(id, text)] ∧ isDecisionId id = true ∧
      id ∉ log.map Prod.fst ∧ E.fileText true (.obj payload) = .ok text := by
  unfold createRecord at h
  simp only [bind_eq_ok, require_eq_ok] at h
  obtain ⟨-, hid, text, ht, h⟩ := h
  split_ifs at h with hc
  · cases h
    exact Or.inl rfl
  · have hn : id ∉ log.map Prod.fst := by simpa using hc
    cases w <;> cases h
    · exact Or.inr ⟨text, rfl, hid, hn, ht⟩
    · exact Or.inr ⟨text, rfl, hid, hn, ht⟩
    · exact Or.inl rfl

/-! ### Decisions are well formed -/

/-- The objects in a decision have no key twice. -/
structure Proper (d : LearningDecision F) : Prop where
  propensities : wellFormed (.obj d.armPropensities) = true
  deployment : ∀ e, d.deployment = some e → wellFormed (.obj e) = true

theorem wellFormed_features (f : RetrievalContextFeatures) :
    wellFormed (.obj f.toDict : Json F) = true := by
  rw [wellFormed_obj]
  refine ⟨?_, ?_⟩
  · show (["lane", "risk", "intent", "query_length_bucket", "changed_files_bucket",
      "workspace_roots_bucket"] : List String).Nodup
    decide
  · simp [RetrievalContextFeatures.toDict]

theorem nodup_toDict {d : LearningDecision F} : (keys (d.toDict : Dict F)).Nodup := by
  show (["decision_id", "policy_version", "mode", "baseline_arm", "eligible_arms", "chosen_arm",
    "chosen_propensity", "arm_propensities", "exploration_probability", "explored",
    "safety_reason", "lane", "risk", "intent", "task_fingerprint", "feature_schema_version",
    "context_features", "created_at", "deployment"] : List String).Nodup
  decide

theorem wellFormed_toDict {d : LearningDecision F} (h : Proper d) :
    wellFormed (.obj d.toDict : Json F) = true := by
  have hf := @wellFormed_features F d.contextFeatures
  have ha : wellFormed (.arr (d.eligibleArms.map .str) : Json F) = true := by simp
  rw [wellFormed_obj]
  refine ⟨nodup_toDict, ?_⟩
  simp only [LearningDecision.toDict, List.forall_mem_cons, wellFormed_str, wellFormed_float,
    wellFormed_bool, true_and]
  refine ⟨ha, h.propensities, hf, ?_, by simp⟩
  cases he : d.deployment with
  | none => rfl
  | some e => exact h.deployment e he

theorem getKey_deployment (d : LearningDecision F) :
    getKey (d.toDict : Dict F) "deployment" = (d.deployment.map .obj).getD .null := by
  unfold LearningDecision.toDict
  cases d.deployment <;> rfl

theorem wellFormed_baselinePropensities : wellFormed (.obj (baselinePropensities E)) = true := by
  rw [wellFormed_obj]
  simp [baselinePropensities, keys]

theorem proper_fallback {d : LearningDecision F} (h : Proper d) (reason id now : String) :
    Proper (baselineFallback E d reason id now) := by
  refine ⟨wellFormed_baselinePropensities, fun e he => ?_⟩
  obtain ⟨e', he', rfl⟩ := Option.map_eq_some_iff.mp he
  have hw := wellFormed_setKey (h.deployment e' he') "assignment" (wellFormed_str "baseline")
  have hw := wellFormed_setKey hw "reason" (wellFormed_str reason)
  have hw := wellFormed_setKey hw "candidate_probability" (wellFormed_float (E.T.ofRat 0))
  exact wellFormed_setKey hw "chosen_probability" (wellFormed_float (E.T.ofRat 1))

/-- The parsed propensities of an assignment are floats under distinct arms. -/
theorem wellFormed_parsePropensities : ∀ {raw acc parsed : Dict F}, wellFormed (.obj acc) = true →
    parsePropensities E raw acc = .ok (some parsed) → wellFormed (.obj parsed) = true
  | [], acc, parsed, hw, h => by
    cases h
    exact hw
  | (arm, p) :: raw, acc, parsed, hw, h => by
    rw [parsePropensities] at h
    split_ifs at h with ha
    · cases h
    obtain ⟨x, hx, h⟩ := bind_eq_ok.mp h
    cases x with
    | none => cases h
    | some x =>
      simp only at h
      split_ifs at h
      · exact wellFormed_parsePropensities (wellFormed_setKey hw _ (wellFormed_float x)) h
      · cases h

theorem nodup_eraseDups : ∀ (n : ℕ) (l : List String), l.length ≤ n → l.eraseDups.Nodup
  | _, [], _ => by simp
  | 0, _ :: _, h => by simp at h
  | n + 1, a :: l, h => by
    rw [List.eraseDups_cons, List.nodup_cons]
    have hl : (l.filter fun b => !b == a).length ≤ n := by
      have := List.length_filter_le (fun b => !b == a) l
      rw [List.length_cons] at h
      omega
    exact ⟨by simp [List.mem_eraseDups], nodup_eraseDups n _ hl⟩

theorem nodup_eligibleArms {config : Dict F} {arms : List String}
    (h : eligibleArms E config = .ok arms) : arms.Nodup := by
  unfold eligibleArms at h
  obtain ⟨texts, -, h⟩ := bind_eq_ok.mp h
  cases h
  exact nodup_eraseDups _ _ le_rfl

/-- The objects in a choice have no key twice. -/
structure ProperChoice (c : Choice F) : Prop where
  propensities : wellFormed (.obj c.propensities) = true
  deployment : ∀ e, c.deployment = some e → wellFormed (.obj e) = true

theorem proper_decisionOf {c : Choice F} (h : ProperChoice c) (r : Request) (n : ℤ) (g : Draws F) :
    Proper (decisionOf E r n g c) := by
  refine ⟨?_, h.deployment⟩
  obtain ⟨hk, hv⟩ := (wellFormed_obj _).mp h.propensities
  rw [wellFormed_obj]
  refine ⟨?_, fun p hp => ?_⟩
  · show ((c.propensities.map _).map Prod.fst).Nodup
    rw [List.map_map]
    exact hk
  · obtain ⟨q, hq, rfl⟩ := List.mem_map.mp hp
    have := hv q hq
    dsimp only
    split
    · rfl
    · exact this

theorem wellFormed_objOf? {d e : Dict F} (hd : wellFormed (.obj d) = true) {k : String}
    (h : objOf? d k = some e) : wellFormed (.obj e) = true := by
  have hw := wellFormed_getKey hd k
  unfold objOf? at h
  split at h
  · next e' he =>
    cases h
    rwa [he] at hw
  · cases h

theorem proper_chooseAssigned {assignment : Dict F} (ha : wellFormed (.obj assignment) = true)
    {risk : String} {c : Choice F} (h : chooseAssigned E assignment risk = .ok c) :
    ProperChoice c := by
  unfold chooseAssigned at h
  simp only [bind_eq_ok] at h
  obtain ⟨arm, -, o, ho, h⟩ := h
  cases o with
  | none =>
    cases h
    refine ⟨wellFormed_baselinePropensities, fun e he => ?_⟩
    cases he
    rw [wellFormed_obj]
    refine ⟨?_, by simp⟩
    show (["assignment", "reason", "source"] : List String).Nodup
    decide
  | some parsed =>
    simp only [bind_eq_ok, pure, Except.pure, Except.ok.injEq] at h
    obtain ⟨mode, -, reason, -, epsilon, -, id, -, rfl⟩ := h
    refine ⟨?_, fun e he => ?_⟩
    · unfold validAssignment at ho
      split_ifs at ho
      · cases ho
      split at ho
      · obtain ⟨q, hq, ho⟩ := bind_eq_ok.mp ho
        cases q with
        | none => cases ho
        | some q =>
          simp only [pure, Except.pure, Except.ok.injEq] at ho
          split_ifs at ho
          cases ho
          exact wellFormed_parsePropensities (by simp [keys]) hq
      · cases ho
    · cases he
      show wellFormed (.obj ((objOf? assignment "deployment").getD [])) = true
      cases hd : objOf? assignment "deployment" with
      | none => simp [keys]
      | some d => exact wellFormed_objOf? ha hd

theorem wellFormed_explorePropensities {arms : List String} (h : arms.Nodup) (epsilon : F) :
    wellFormed (.obj (explorePropensities E arms epsilon)) = true := by
  have hk : ∀ f : String → F, wellFormed (.obj (arms.map fun arm => (arm, .float (f arm)))) = true := by
    intro f
    rw [wellFormed_obj]
    refine ⟨?_, by simp⟩
    have hm : (arms.map fun arm => (arm, Json.float (f arm))).map Prod.fst = arms := by
      rw [List.map_map]
      exact List.map_id arms
    rw [keys, hm]
    exact h
  unfold explorePropensities
  split_ifs
  · exact hk _
  · exact hk _

theorem proper_chooseMode {config : Dict F} {killEnv mode risk : String} {arms : List String}
    (harms : arms.Nodup) {epsilon draw : F} {c : Choice F}
    (h : chooseMode E config killEnv mode risk arms epsilon draw = .ok c) : ProperChoice c := by
  have hb : ∀ mode reason, ProperChoice (baselineChoice E mode epsilon reason) :=
    fun _ _ => ⟨wellFormed_baselinePropensities, by simp [baselineChoice]⟩
  unfold chooseMode at h
  split_ifs at h
  · cases h
    exact hb _ _
  · cases h
    exact hb _ _
  · unfold chooseExplore at h
    obtain ⟨allowed, -, h⟩ := bind_eq_ok.mp h
    simp only [pure, Except.pure, Except.ok.injEq] at h
    split_ifs at h <;> subst h
    · exact hb _ _
    · exact hb _ _
    · exact ⟨wellFormed_explorePropensities harms epsilon, by simp [explorationChoice]⟩
  · cases h
    exact hb _ _

/-- **A decision is well formed** if the assignment it was made from is. -/
theorem proper_choose {r : Request} {config : Dict F} {n : ℤ} {assignment : Option (Dict F)}
    (ha : ∀ a, assignment = some a → wellFormed (.obj a) = true) {g : Draws F}
    {d : LearningDecision F} (h : chooseLearningDecision E r config n assignment g = .ok d) :
    Proper d := by
  unfold chooseLearningDecision at h
  simp only [bind_eq_ok] at h
  obtain ⟨mode, -, epsilon, -, arms, harms, c, hc, h⟩ := h
  cases h
  refine proper_decisionOf ?_ r n g
  unfold choose at hc
  cases assignment with
  | none => exact proper_chooseMode (nodup_eligibleArms harms) hc
  | some a => exact proper_chooseAssigned (ha a rfl) hc

/-! ### What a request logs -/

variable (E) in
/-- The file holds the decision as it was logged. -/
structure Logs (file : String × String) (d : LearningDecision F) : Prop where
  id : file.1 = d.decisionId
  isId : isDecisionId file.1 = true
  text : E.jsonLoads file.2 = .ok (.obj (sortDict d.toDict))

variable (E) in
/-- What one write adds to the log: nothing, or a file with the decision under a new name. -/
def Adds (log added : Log) (d : LearningDecision F) : Prop :=
  added = [] ∨ ∃ file, added = [file] ∧ file.1 ∉ log.map Prod.fst ∧ Logs E file d

theorem write_eq_ok {log log' : Log} {d : LearningDecision F} (hd : Proper d) {w : WriteOutcome}
    {ok : Bool} (h : writeLearningDecision E log d w = .ok (log', ok)) :
    ∃ added, log' = log ++ added ∧ Adds E log added d := by
  rcases createRecord_eq_ok h with rfl | ⟨text, rfl, hid, hn, ht⟩
  · exact ⟨[], by simp, Or.inl rfl⟩
  · refine ⟨_, rfl, Or.inr ⟨_, rfl, hn, rfl, hid, ?_⟩⟩
    have := jsonLoads_fileText E (wellFormed_toDict hd) ht
    rwa [sortKeys_obj'] at this

/-- **What a request logs**: its decision, the fallback, both or neither. -/
theorem prepare_eq_ok {log log' : Log} {r : Request} {config : Dict F} {n : ℤ}
    {assignment : Option (Dict F)} (ha : ∀ a, assignment = some a → wellFormed (.obj a) = true)
    {g : Draws F} {w : Writes} {served : LearningDecision F}
    (h : prepareLearningDecision E log r config n assignment g w = .ok (served, log')) :
    ∃ selected first second,
      chooseLearningDecision E r config n assignment g = .ok selected ∧
      log' = log ++ first ++ second ∧ Adds E log first selected ∧
      Adds E (log ++ first) second
        (baselineFallback E selected "decision_log_failure" w.fallbackId w.fallbackAt) := by
  unfold prepareLearningDecision at h
  obtain ⟨selected, hs, h⟩ := bind_eq_ok.mp h
  have hp := proper_choose ha hs
  refine ⟨selected, ?_⟩
  split_ifs at h
  · cases h
    exact ⟨[], [], hs, by simp, Or.inl rfl, Or.inl rfl⟩
  · obtain ⟨⟨log₁, ok⟩, h₁, h⟩ := bind_eq_ok.mp h
    obtain ⟨first, rfl, hf⟩ := write_eq_ok hp h₁
    simp only at h
    split_ifs at h
    · cases h
      exact ⟨first, [], hs, by simp, hf, Or.inl rfl⟩
    · obtain ⟨⟨log₂, ok₂⟩, h₂, h⟩ := bind_eq_ok.mp h
      obtain ⟨second, rfl, hse⟩ := write_eq_ok (proper_fallback hp _ _ _) h₂
      cases h
      exact ⟨first, second, hs, rfl, hf, hse⟩

theorem filed_adds {log added : Log} {d : LearningDecision F} (hf : Filed E log)
    (h : Adds E log added d) : Filed E (log ++ added) := by
  rcases h with rfl | ⟨file, rfl, hn, hl⟩
  · rwa [List.append_nil]
  · refine ⟨?_, fun p hp => ?_⟩
    · rw [List.map_append, List.nodup_append]
      refine ⟨hf.names, by simp, ?_⟩
      rintro a ha b hb rfl
      rw [List.map_singleton, List.mem_singleton] at hb
      exact hn (hb ▸ ha)
    · rcases List.mem_append.mp hp with hp | hp
      · exact hf.holds p hp
      · obtain rfl := List.mem_singleton.mp hp
        have hc := content_eq E hl.text
        have hid : getKey d.toDict "decision_id" = .str d.decisionId := rfl
        refine ⟨by rw [hc, hl.text], ?_, hl.isId⟩
        rw [hc, getKey_sortDict nodup_toDict, hid, sortKeys_str, hl.id]

end ControlPlane.Learning.Records
