import ControlPlane.Deployment.State
import ControlPlane.Deployment.Reread
import ControlPlane.Lib.Runs

/-! # Deployment states follow a course

The signed object refines the stage machine: `Tracks` relates a state to the course of stages it has
taken, which its history spells out entry by entry. Creation starts the course (`tracks_create`), and a
transition that succeeds extends it by one step and touches nothing but the moving fields
(`tracks_transition`). A state that tracks a course verifies (`Tracks.valid`), is final once rolled
back (`Tracks.final`), and verifies again when read from its file if and only if its manifest does
(`Tracks.rereads_iff`). -/

namespace ControlPlane.Deployment.Refinement

open ControlPlane.Lib.Value ControlPlane.Lib.Print ControlPlane.Lib.Text ControlPlane.Lib.Dumps
open ControlPlane.Lib.Floats ControlPlane.Lib.Dynamic ControlPlane.Lib.Runs
open ControlPlane.Environment ControlPlane.Learning.Features ControlPlane.Learning.Decision
open ControlPlane.Deployment.Manifest ControlPlane.Deployment.Reread
open ControlPlane.Deployment.Stages ControlPlane.Deployment.State

variable {F : Type} (E : Env F)

/-! ### The history -/

/-- The field of an object. -/
def field (v : Json F) (k : String) : Json F :=
  match v with
  | .obj d => getKey d k
  | _ => .null

theorem field_historyEntry (generation : ℤ) (source target actor now : String) (evidence : Json F)
    (reason : String) :
    field (historyEntry generation source target actor now evidence reason) "generation" =
        .int generation ∧
      field (historyEntry generation source target actor now evidence reason) "from" = .str source ∧
      field (historyEntry generation source target actor now evidence reason) "to" = .str target := by
  refine ⟨?_, ?_, ?_⟩ <;> simp [field, historyEntry, getKey, lookup]

/-- The texts of some stages. -/
def texts (stages : List Stage) : List (Json F) := stages.map fun st => .str st.value

/-- The entries record the stages, numbered from 1, each from the stage before it. -/
structure Records (stages : List Stage) (entries : List (Json F)) : Prop where
  target : entries.map (field · "to") = texts stages
  generation : entries.map (field · "generation") =
    (List.range stages.length).map fun (i : ℕ) => .int (i + 1)
  source : entries.map (field · "from") = (.str "shadow" :: texts stages).dropLast

theorem Records.length_eq {stages : List Stage} {entries : List (Json F)}
    (h : Records stages entries) : entries.length = stages.length := by
  simpa [texts] using congrArg List.length h.target

theorem Records.extend {c : Course} {entries : List (Json F)} (h : Records c.stages entries)
    (st : Stage) (hst : Stage.Step c.last st) (actor now : String) (evidence : Json F)
    (reason : String) : Records (c.extend st hst).stages (entries ++ [historyEntry
      (c.stages.length + 1) c.last.value st.value actor now evidence reason]) := by
  obtain ⟨e1, e2, e3⟩ := field_historyEntry (F := F) (c.stages.length + 1) c.last.value st.value
    actor now evidence reason
  have hlast : (.str "shadow" :: texts c.stages : List (Json F)) =
      (.str "shadow" :: texts c.stages).dropLast ++ [.str c.last.value] := by
    have hne : (texts c.stages : List (Json F)) ≠ [] := by simpa [texts] using c.stages_ne
    conv_lhs => rw [← List.dropLast_append_getLast (List.cons_ne_nil (.str "shadow")
      (texts c.stages : List (Json F)))]
    rw [List.getLast_cons hne]
    simp [texts, Course.last]
  refine ⟨?_, ?_, ?_⟩
  · simp [Course.extend, texts, h.target, e3]
  · simp [Course.extend, h.generation, e1, List.range_succ]
  · have hx : (.str "shadow" :: texts (c.extend st hst).stages : List (Json F)) =
        (.str "shadow" :: texts c.stages) ++ [.str st.value] := by
      simp [Course.extend, texts]
    rw [hx, List.dropLast_concat, List.map_append, h.source]
    conv_rhs => rw [hlast]
    simp [e2]

theorem Records.generation_getElem {stages : List Stage} {entries : List (Json F)}
    (h : Records stages entries) {i : ℕ} {e : Json F} (he : entries[i]? = some e) :
    field e "generation" = .int (i + 1) := by
  have hi : i < stages.length := by
    rw [← h.length_eq]
    exact (List.getElem?_eq_some_iff.mp he).1
  have hg := congrArg (fun l => l[i]?) h.generation
  simp only [List.getElem?_map, he, List.getElem?_range hi, Option.map_some, Option.some.injEq] at hg
  exact hg

theorem Records.link {stages : List Stage} {entries : List (Json F)} (h : Records stages entries)
    {i : ℕ} {e e' : Json F} (he : entries[i]? = some e) (he' : entries[i + 1]? = some e') :
    field e' "from" = field e "to" := by
  have hi : i + 1 < stages.length := by
    rw [← h.length_eq]
    exact (List.getElem?_eq_some_iff.mp he').1
  have hs := congrArg (fun l => l[i + 1]?) h.source
  have ht := congrArg (fun l => l[i]?) h.target
  rw [List.getElem?_dropLast] at hs
  have hlen : i + 1 < (.str "shadow" :: texts stages : List (Json F)).length - 1 := by
    simp [texts, hi]
  simp only [List.getElem?_map, he', if_pos hlen, List.getElem?_cons_succ, Option.map_some] at hs
  simp only [List.getElem?_map, he, Option.map_some] at ht
  rw [← ht] at hs
  exact Option.some.inj hs

/-! ### The relation -/

/-- **The state has followed the course.** -/
structure Tracks (s : Dict F) (key : Key) (c : Course) : Prop where
  wf : wellFormed (.obj s) = true
  printable : printable E.T.toFloatText true (.obj s) = true
  signed : Signed E s key
  schema : getKey s "schema_version" = .str deploymentSchemaVersion
  stage : getKey s "stage" = .str c.last.value
  generation : getKey s "generation" = .int c.stages.length
  history : ∃ entries, getKey s "history" = .arr entries ∧ Records c.stages entries
  manifest : ManifestOk E s key
  bounded : ∃ b, getKey s "bounded_traffic_fraction" = .float b ∧ E.T.finite b = true ∧
    boundedOk E b = true
  traffic : ∃ x, getKey s "traffic_fraction" = .float x ∧
    trafficForStage E s c.last.value = .ok x
  inactive : truthy E.T (getKey s "automatic_runtime_activation") = false
  rollback : rollbackBad E s = false

/-- The traffic of a stage, for a given bounded fraction. -/
def stageFraction (b : F) (st : Stage) : F :=
  if st = Stage.bounded then b else E.T.ofRat st.traffic

theorem trafficForStage_eq {s : Dict F} {b : F}
    (hb : getKey s "bounded_traffic_fraction" = .float b) (st : Stage) :
    trafficForStage E s st.value = .ok (stageFraction E b st) := by
  unfold trafficForStage stageFraction
  by_cases h : st = Stage.bounded
  · rw [if_pos (by rw [h]), if_pos h, lookup_of_getKey hb (by simp)]
    rfl
  · rw [if_neg (fun he => h (Stage.value_injective he)), if_neg h, Stage.ofString?_value]
    rfl

section Fraction
variable {b : F} (hf : E.T.finite b = true) (hb : boundedOk E b = true)
include hb

/-- **No stage gets more traffic than the bounded fraction.** -/
theorem stageFraction_le (st : Stage) :
    (E.T.view (stageFraction E b st)).le (E.T.view b) = true := by
  unfold boundedOk at hb
  rw [Bool.and_eq_true] at hb
  unfold stageFraction
  split_ifs
  · exact Num.le_self_of_lt hb.1
  · exact Num.le_trans (E.T.lit_mono st.traffic_le) (Num.le_of_lt hb.1)

include hf

theorem finite_stageFraction (st : Stage) : ∃ q, E.T.view (stageFraction E b st) = .fin q := by
  obtain ⟨q, hq⟩ := (E.T.finite_iff b).mp hf
  have hle := stageFraction_le E hb st
  unfold stageFraction at hle ⊢
  split_ifs at hle ⊢
  · exact ⟨q, hq⟩
  · have h0 := E.T.ofRat_mono 0 st.traffic st.traffic_nonneg
    rw [E.T.ofRat_zero] at h0
    rw [hq] at hle
    exact Num.fin_of_le h0 hle

end Fraction

/-! ### A state that tracks a course is valid -/

theorem number?_float (x : F) : E.number? (.float x) = .ok (some x) := rfl

theorem boundedBad_eq {s : Dict F} {b : F} (hb : getKey s "bounded_traffic_fraction" = .float b) :
    boundedBad E s = .ok (!boundedOk E b) := by
  rw [boundedBad, hb, number?_float]
  rfl

theorem trafficBad_eq {s : Dict F} {x : F} {st : Stage}
    (hx : getKey s "traffic_fraction" = .float x) (ht : trafficForStage E s st.value = .ok x)
    (hf : ∃ q, E.T.view x = .fin q) : trafficBad E s st.value = .ok false := by
  have h0 : (E.T.lit (1 / 10 ^ 12)).lt (.fin 0) = false := by
    refine Num.not_lt_of_le ?_
    rw [← E.T.ofRat_zero]
    exact E.T.ofRat_mono 0 _ (by norm_num)
  unfold trafficBad
  rw [Stage.ofString?_value, ht, hx, number?_float]
  change Except.ok ((E.T.lit (1 / 10 ^ 12)).lt (E.T.sub (E.T.view x) (E.T.view x)).abs) = _
  rw [E.T.abs_sub_self hf, h0]

/-- A checked target is a step of the stage machine. -/
theorem step_of_checkTarget {s : Dict F} {c : Course} {target : String} {report : Option (Json F)}
    (hc : checkTarget E s c.last.value target report = .ok ()) :
    ∃ st, st.value = target ∧ Stage.Step c.last st := by
  unfold checkTarget at hc
  by_cases ht : target = Stage.rolledBack.value
  · rw [if_pos ht, require_eq_ok, bne_iff_ne] at hc
    exact ⟨.rolledBack, ht.symm, .back fun he => hc (by rw [he])⟩
  · rw [if_neg ht, bind_eq_ok] at hc
    obtain ⟨⟨⟩, hn, -⟩ := hc
    rw [require_eq_ok, Stage.ofString?_value, beq_iff_eq, Option.bind_some,
      Option.map_eq_some_iff] at hn
    obtain ⟨st, hst, rfl⟩ := hn
    exact ⟨st, rfl, .forward hst⟩

theorem wellFormed_load {E : Env F} {text : String} {state : Dict F}
    (h : loadDeploymentState E text = .ok state) : wellFormed (.obj state) = true := by
  unfold loadDeploymentState at h
  obtain ⟨v, hv, h⟩ := bind_eq_ok.mp h
  have hw := wellFormed_jsonLoads E hv
  split at h
  · cases h
    exact hw
  · cases h

/-- An update is a transition of the stored state, at the expected generation. -/
theorem updatedState_eq_ok {E : Env F} {text : String} {key : Key} {g : Option ℤ}
    {a : TransitionArgs F} {next : Dict F} (h : updatedState E text key g a = .ok next) :
    ∃ current, loadDeploymentState E text = .ok current ∧ (∀ n, g = some n → generationOf current = n) ∧
      transitionDeploymentState E current key a = .ok next := by
  unfold updatedState at h
  simp only [bind_eq_ok, require_eq_ok] at h
  obtain ⟨current, hl, check, -, -, -, -, hg, h⟩ := h
  refine ⟨current, hl, fun n hn => ?_, h⟩
  subst hn
  simpa using hg

/-- The file of a state holds the state with sorted keys. -/
theorem load_stateText {E : Env F} {s : Dict F} (hs : wellFormed (.obj s) = true) {text : String}
    (h : stateText E s = .ok text) : loadDeploymentState E text = .ok (sortDict s) := by
  rw [loadDeploymentState, jsonLoads_fileText E hs h, sortKeys_obj']
  rfl

section Tracks
variable {E} {s : Dict F} {key : Key} {c : Course} (h : Tracks E s key c)
include h

theorem Tracks.finite_traffic : ∃ x q, getKey s "traffic_fraction" = .float x ∧
    trafficForStage E s c.last.value = .ok x ∧ E.T.view x = .fin q := by
  obtain ⟨b, hb, hf, hok⟩ := h.bounded
  obtain ⟨x, hx, ht⟩ := h.traffic
  have he := trafficForStage_eq E hb c.last
  rw [ht, Except.ok.injEq] at he
  obtain ⟨q, hq⟩ := finite_stageFraction E hf hok c.last
  exact ⟨x, q, hx, ht, he ▸ hq⟩

theorem Tracks.strOr_stage : E.strOr s "stage" "" = .ok c.last.value := strOr_of_getKey h.stage _

theorem Tracks.validState : ValidState E s key c.last.value := by
  obtain ⟨b, hb, hf, hok⟩ := h.bounded
  obtain ⟨x, q, hx, ht, hq⟩ := h.finite_traffic
  exact {
    signed := h.signed
    schema := h.schema
    stageOf := h.strOr_stage
    known := by simp
    generation := by simp [h.generation, generationBad, c.stages_ne]
    manifest := h.manifest
    bounded := by rw [boundedBad_eq E hb, hok]; rfl
    traffic := trafficBad_eq E hx ht ⟨q, hq⟩
    inactive := h.inactive
    rollback := h.rollback }

/-- **A state that tracks a course verifies.** -/
theorem Tracks.valid : ∃ check, verifyDeploymentState E s key = .ok check ∧ check.valid = true :=
  (State.verify_iff E).mpr ⟨_, h.validState⟩

theorem Tracks.getKey_text (k : String) : getKey (sortDict s) k = sortKeys (getKey s k) :=
  getKey_sorted h.wf k

theorem Tracks.load : ∃ text, stateText E s = .ok text ∧
    loadDeploymentState E text = .ok (sortDict s) := by
  obtain ⟨text, ht⟩ := fileText_eq_ok E h.printable
  exact ⟨text, ht, load_stateText h.wf ht⟩

/-- **A state verifies again when read from its file if and only if its manifest does.** -/
theorem Tracks.rereads_iff {manifest : Dict F} (hm : getKey s "policy_manifest" = .obj manifest) :
    (∃ check, verifyDeploymentState E (sortDict s) key = .ok check ∧ check.valid = true) ↔
      ∃ check, verifyPolicyManifest E (sortDict manifest) key = .ok check ∧ check.valid = true := by
  have hm' : getKey (sortDict s) "policy_manifest" = .obj (sortDict manifest) := by
    rw [h.getKey_text, hm, sortKeys_obj']
  have hwm : wellFormed (.obj manifest) = true := hm ▸ wellFormed_getKey h.wf _
  constructor
  · intro hv
    obtain ⟨stage, hv⟩ := (State.verify_iff E).mp hv
    obtain ⟨m, he, hc, -⟩ := hv.manifest
    cases hm'.symm.trans he
    exact hc
  · intro hc
    obtain ⟨b, hb, hf, hok⟩ := h.bounded
    obtain ⟨x, q, hx, ht, hq⟩ := h.finite_traffic
    have hb' : getKey (sortDict s) "bounded_traffic_fraction" = .float b := by
      rw [h.getKey_text, hb, sortKeys_float]
    have hx' : getKey (sortDict s) "traffic_fraction" = .float x := by
      rw [h.getKey_text, hx, sortKeys_float]
    have ht' : trafficForStage E (sortDict s) c.last.value = .ok x := by
      rw [trafficForStage_eq E hb', ← trafficForStage_eq E hb, ht]
    have hs' : getKey (sortDict s) "stage" = .str c.last.value :=
      getKey_sorted_str h.wf h.stage
    obtain ⟨m, he, -, hid⟩ := h.manifest
    cases hm.symm.trans he
    refine (State.verify_iff E).mpr ⟨c.last.value, {
      signed := signed_sortDict E h.wf h.signed
      schema := getKey_sorted_str h.wf h.schema
      stageOf := strOr_of_getKey hs' _
      known := by simp
      generation := ?_
      manifest := ⟨_, hm', hc, ?_⟩
      bounded := by rw [boundedBad_eq E hb', hok]; rfl
      traffic := trafficBad_eq E hx' ht' ⟨q, hq⟩
      inactive := by rw [h.getKey_text, truthy_sortKeys]; exact h.inactive
      rollback := rollbackBad_sortDict E h.wf h.rollback }⟩
    · rw [h.getKey_text, h.generation, sortKeys_int]
      simp [generationBad, c.stages_ne]
    · rw [h.getKey_text, getKey_sorted hwm, pyEq_sortKeys E.T (wellFormed_getKey hwm _)]
      exact hid

/-- **Nothing follows a rollback.** -/
theorem Tracks.final (hs : c.last = .rolledBack) (a : TransitionArgs F) (t : Dict F) :
    transitionDeploymentState E s key a ≠ .ok t := by
  intro hok
  obtain ⟨-, -, current, -, -, -, hcur, hchk, -⟩ := (transition_eq_ok E).mp hok
  rw [h.stage, Env.str, pyStr_str, Except.ok.injEq] at hcur
  subst hcur
  obtain ⟨st, -, hst⟩ := step_of_checkTarget E hchk
  rw [hs] at hst
  exact Stage.not_step_rolledBack st hst

end Tracks

/-! ### Transitions -/

theorem wellFormed_historyEntry (generation : ℤ) (source target actor now : String)
    {evidence : Json F} (he : wellFormed evidence = true) (reason : String) :
    wellFormed (historyEntry generation source target actor now evidence reason) = true := by
  rw [historyEntry, wellFormed_obj]
  refine ⟨by simp [keys], ?_⟩
  simp only [List.forall_mem_cons]
  exact ⟨rfl, rfl, rfl, rfl, rfl, he, rfl, by simp⟩

theorem wellFormed_evidenceOf {report : Option (Json F)} {evidence : Json F}
    (h : evidenceOf E report = .ok evidence) : wellFormed evidence = true := by
  unfold evidenceOf at h
  split at h
  · rw [bind_eq_ok] at h
    obtain ⟨text, -, h⟩ := h
    cases h
    rfl
  · cases h
    rfl

theorem wellFormed_movedTo {s : Dict F} (hs : wellFormed (.obj s) = true) (target now : String)
    (traffic : F) : wellFormed (.obj (movedTo s target now traffic)) = true := by
  refine wellFormed_setKey (wellFormed_setKey (wellFormed_setKey (wellFormed_setKey
    (wellFormed_eraseKey hs _) _ ?_) _ ?_) _ ?_) _ ?_ <;> rfl

theorem wellFormed_recorded {moved : Dict F} (hm : wellFormed (.obj moved) = true)
    {history : List (Json F)} (hh : ∀ v ∈ history, wellFormed v = true) (target actor now : String)
    (reason : Option String) :
    wellFormed (.obj (recorded moved history target actor now reason)) = true := by
  have h1 : wellFormed (.obj (setKey "history" (.arr history) moved)) = true :=
    wellFormed_setKey hm _ (by rwa [wellFormed_arr])
  unfold recorded
  split_ifs
  · refine wellFormed_setKey h1 _ ?_
    have hr : wellFormed (.obj ((objOf? (setKey "history" (.arr history) moved) "rollback").getD
        [])) = true := by
      unfold objOf?
      split
      · next e he => exact he ▸ wellFormed_getKey h1 "rollback"
      · simp [keys]
    exact wellFormed_setKey (wellFormed_setKey (wellFormed_setKey hr _ rfl) _ rfl) _ rfl
  · exact h1

theorem wellFormed_historyOf {s : Dict F} (hs : wellFormed (.obj s) = true) {history : List (Json F)}
    (h : historyOf E s = .ok history) : ∀ v ∈ history, wellFormed v = true := by
  have hw := wellFormed_getKey hs "history"
  unfold historyOf at h
  simp only at h
  split_ifs at h
  · unfold toList at h
    split at h
    · next xs hx =>
      cases h
      rw [hx] at hw
      exact (wellFormed_arr _).mp hw
    · cases h
      exact List.forall_mem_map.mpr fun _ _ => rfl
    · cases h
      exact List.forall_mem_map.mpr fun _ _ => rfl
    · cases h
  · cases h
    simp

/-- **What any successful transition does** to the stage, the generation and the other fields. -/
theorem transition_moves {s t : Dict F} {key : Key} {a : TransitionArgs F}
    (hok : transitionDeploymentState E s key a = .ok t) :
    getKey t "stage" = .str (strip a.toStage) ∧
      getKey t "generation" = .int (generationOf s + 1) ∧
      ∀ k ∉ movingKeys, getKey t k = getKey s k := by
  obtain ⟨-, -, current, traffic, history, evidence, -, -, -, -, -, hsign⟩ :=
    (transition_eq_ok E).mp hok
  refine ⟨?_, ?_, fun k hk => ?_⟩
  · rw [getKey_signed E hsign (by decide), getKey_recorded_ne _ _ _ _ _ _ (by decide) (by decide),
      getKey_movedTo_stage]
  · rw [getKey_signed E hsign (by decide), getKey_recorded_ne _ _ _ _ _ _ (by decide) (by decide),
      getKey_movedTo_generation]
  · have hk' := hk
    simp only [movingKeys, List.mem_cons, List.not_mem_nil, or_false, not_or] at hk'
    rw [getKey_signed E hsign hk'.2.2.2.2.2.2, getKey_recorded_ne _ _ _ _ _ _ hk'.2.2.2.2.1
      hk'.2.2.2.2.2.1, getKey_movedTo_ne _ _ _ _ hk]

theorem wellFormed_transition {s t : Dict F} (hs : wellFormed (.obj s) = true) {key : Key}
    {a : TransitionArgs F} (hok : transitionDeploymentState E s key a = .ok t) :
    wellFormed (.obj t) = true := by
  obtain ⟨-, -, current, traffic, history, evidence, -, -, -, hh, hev, hsign⟩ :=
    (transition_eq_ok E).mp hok
  have hmoved := wellFormed_movedTo hs (strip a.toStage) a.now traffic
  refine wellFormed_signed E hsign (wellFormed_recorded hmoved (fun v hv => ?_) _ _ _ _)
  rcases List.mem_append.mp hv with hv | hv
  · exact wellFormed_historyOf E hmoved hh v hv
  · rw [List.mem_singleton.mp hv]
    exact wellFormed_historyEntry _ _ _ _ _ (wellFormed_evidenceOf E hev) _

/-- **A transition that succeeds extends the course by one step and keeps the other fields.** -/
theorem tracks_transition {s t : Dict F} {key : Key} {c : Course} {a : TransitionArgs F}
    (h : Tracks E s key c) (hok : transitionDeploymentState E s key a = .ok t) :
    (∃ st hst, Tracks E t key (c.extend st hst)) ∧ ∀ k ∉ movingKeys, getKey t k = getKey s k := by
  obtain ⟨hstage, hgeneration, hkeep⟩ := transition_moves E hok
  obtain ⟨-, -, current, traffic, history, evidence, hcur, hchk, htr, hh, hev, hsign⟩ :=
    (transition_eq_ok E).mp hok
  rw [h.stage, Env.str, pyStr_str, Except.ok.injEq] at hcur
  subst hcur
  obtain ⟨st, hst, hstep⟩ := step_of_checkTarget E hchk
  rw [← hst] at htr hh hsign
  obtain ⟨entries, hentries, hrec⟩ := h.history
  have hhist : history = entries := by
    unfold historyOf at hh
    rw [getKey_movedTo_history, hentries] at hh
    cases entries with
    | nil =>
      cases hh
      rfl
    | cons x xs =>
      cases hh
      rfl
  subst hhist
  have hgen : generationOf s = c.stages.length := by rw [generationOf, h.generation]
  rw [hgen] at hsign
  obtain ⟨b, hb, hf, hbok⟩ := h.bounded
  have hb' : getKey t "bounded_traffic_fraction" = .float b := by
    rw [hkeep _ (by decide), hb]
  have htraffic : trafficForStage E t st.value = .ok traffic := by
    rw [trafficForStage_eq E hb', ← htr]
    refine (trafficForStage_eq E ?_ st).symm
    rw [getKey_setKey_ne (by decide), getKey_eraseKey_ne (by decide), hb]
  refine ⟨⟨st, hstep, {
    wf := wellFormed_transition E h.wf hok
    printable := printable_signed E hsign
    signed := signed_signPayload E hsign
    schema := by rw [hkeep _ (by decide), h.schema]
    stage := ?_
    generation := ?_
    history := ⟨_, ?_, hrec.extend st hstep (strip a.actor) a.now evidence
      (historyReason a.reason? st.value)⟩
    manifest := ?_
    bounded := ⟨b, hb', hf, hbok⟩
    traffic := ⟨traffic, ?_, by rwa [Course.last_extend]⟩
    inactive := by rw [hkeep _ (by decide)]; exact h.inactive
    rollback := ?_ }⟩, hkeep⟩
  · rw [hstage, Course.last_extend, hst]
  · rw [hgeneration, hgen]
    simp [Course.extend]
  · rw [getKey_signed E hsign (by decide), getKey_recorded_history]
  · obtain ⟨m, hm, hc, hid⟩ := h.manifest
    exact ⟨m, by rw [hkeep _ (by decide), hm], hc, by rw [hkeep _ (by decide)]; exact hid⟩
  · rw [getKey_signed E hsign (by decide), getKey_recorded_ne _ _ _ _ _ _ (by decide) (by decide),
      getKey_movedTo_traffic]
  · have hr := rollbackBad_recorded E (movedTo s st.value a.now traffic) (history ++ [historyEntry
      (c.stages.length + 1) c.last.value st.value (strip a.actor) a.now evidence
      (historyReason a.reason? st.value)]) st.value (strip a.actor) a.now a.reason?
    unfold rollbackBad at hr ⊢
    rw [getKey_signed E hsign (by decide)]
    refine hr ?_
    rw [getKey_movedTo_rollback]
    exact h.rollback

/-- **An approved deployment can go live.** -/
theorem promotes {s : Dict F} {key : Key} (h : Tracks E s key Course.start) {actor : String}
    (ha : strip actor ≠ "") (now : String) : ∃ t,
      transitionDeploymentState E s key ⟨Stage.canary1.value, actor, none, none, now⟩ = .ok t := by
  have hlast : Course.start.last = .approved := by simp [Course.last, Course.start]
  have hstrip : strip Stage.canary1.value = Stage.canary1.value := by decide
  obtain ⟨entries, hentries, -⟩ := h.history
  have hgen : generationOf s = 1 := by
    rw [generationOf, h.generation]
    simp [Course.start]
  have hhist : ∀ traffic, historyOf E (movedTo s Stage.canary1.value now traffic) = .ok entries := by
    intro traffic
    unfold historyOf
    rw [getKey_movedTo_history, hentries]
    cases entries <;> rfl
  have hmoved : ∀ traffic, printable E.T.toFloatText true
      (.obj (movedTo s Stage.canary1.value now traffic)) = true := by
    intro traffic
    have hg : printable E.T.toFloatText true (.int (generationOf s + 1) : Json F) = true := by
      rw [hgen]
      exact printable_small true (by decide)
    exact printable_setKey (printable_setKey (printable_setKey (printable_setKey
      (printable_eraseKey h.printable _) _ rfl) _ rfl) _ hg) _ rfl
  have hrec : ∀ traffic current reason, printable E.T.toFloatText true
      (.obj (recorded (movedTo s Stage.canary1.value now traffic) (entries ++ [historyEntry
        (generationOf s + 1) current Stage.canary1.value (strip actor) now .null reason])
        Stage.canary1.value (strip actor) now none)) = true := by
    intro traffic current reason
    have hold : printable E.T.toFloatText true (.arr entries) = true := by
      rw [← hentries]
      exact printable_getKey h.printable _
    have hnew : printable E.T.toFloatText true (historyEntry (generationOf s + 1) current
        Stage.canary1.value (strip actor) now .null reason : Json F) = true := by
      rw [hgen, historyEntry, printable_obj]
      simp only [List.forall_mem_cons]
      exact ⟨printable_small true (by decide), rfl, rfl, rfl, rfl, rfl, rfl, by simp⟩
    unfold recorded
    rw [if_neg (by decide)]
    refine printable_setKey (hmoved traffic) _ ((printable_arr true _).mpr fun v hv => ?_)
    rcases List.mem_append.mp hv with hv | hv
    · exact (printable_arr true entries).mp hold v hv
    · rw [List.mem_singleton.mp hv]
      exact hnew
  have hcur : E.str (getKey s "stage") = .ok Stage.approved.value := by
    rw [h.stage, hlast]
    rfl
  have hchk : checkTarget E s Stage.approved.value Stage.canary1.value none = .ok () := by
    unfold checkTarget
    rw [if_neg (by decide)]
    rfl
  have hsign : ∀ traffic reason, ∃ t, signPayload E (recorded
      (movedTo s Stage.canary1.value now traffic) (entries ++ [historyEntry (generationOf s + 1)
        Stage.approved.value Stage.canary1.value (strip actor) now .null reason])
        Stage.canary1.value (strip actor) now none) key = .ok t := fun traffic reason =>
    ⟨_, (signPayload_eq_ok E).mpr ⟨h.signed.key_ne, _, (canonical_eq_ok E.T).mpr
      ⟨printable_eraseKey (hrec traffic Stage.approved.value reason) "signature", rfl⟩, rfl⟩⟩
  obtain ⟨t, ht⟩ := hsign (E.T.ofRat Stage.canary1.traffic) (historyReason none Stage.canary1.value)
  refine ⟨t, (transition_eq_ok E).mpr ⟨⟨_, h.validState⟩, ha, Stage.approved.value,
    E.T.ofRat Stage.canary1.traffic, entries, .null, hcur, ?_, ?_, ?_, rfl, ?_⟩⟩
  · rw [hstrip]
    exact hchk
  · rw [hstrip]
    rfl
  · rw [hstrip]
    exact hhist _
  · rw [hstrip]
    exact ht

end ControlPlane.Deployment.Refinement
