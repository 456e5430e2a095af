import ControlPlane.Deployment.Creation
import ControlPlane.Instance

/-! # Runs of a deployment

A run is an accepted creation followed by transitions that succeed. `Sound` collects what a state of a
run should satisfy: it verifies, also when read back from its file; its history counts the generations
from 1 and links the stages; its stages are the beginning of the one way forward, possibly ended by
the rollback; it has the traffic of its stage; nothing follows a rollback; everything else is as
created.

All of this holds in every run except the reading back, which depends on the manifest:
`sound_runs_iff`. -/

namespace ControlPlane.Deployment.Runs

open ControlPlane.Lib.Value ControlPlane.Lib.Print ControlPlane.Lib.Text ControlPlane.Lib.Dumps
open ControlPlane.Lib.Floats ControlPlane.Lib.Dynamic ControlPlane.Lib.Runs ControlPlane.Lib.Grid
open ControlPlane.Instance ControlPlane.Environment ControlPlane.Learning.Features
open ControlPlane.Learning.Decision
open ControlPlane.Deployment.Manifest ControlPlane.Deployment.Reread
open ControlPlane.Deployment.Stages ControlPlane.Deployment.State
open ControlPlane.Deployment.Refinement ControlPlane.Deployment.Creation

variable {F : Type} (E : Env F)

/-- The state after some transitions. -/
def runTransitions (key : Key) (first : Dict F) (as : List (TransitionArgs F)) : Py (Dict F) :=
  run (fun s a => transitionDeploymentState E s key a) first as

/-- The file of a state reads as a state that verifies. -/
def Rereads (s : Dict F) (key : Key) : Prop :=
  ∃ text back check, stateText E s = .ok text ∧ loadDeploymentState E text = .ok back ∧
    verifyDeploymentState E back key = .ok check ∧ check.valid = true

/-- The way forward and the rollback. -/
def LegalPath (stages : List Stage) : Prop :=
  stages <+: [.approved, .canary1, .canary5, .canary10, .bounded] ∨
    ∃ p, p <+: [.approved, .canary1, .canary5, .canary10, .bounded] ∧
      stages = p ++ [Stage.rolledBack]

/-- **What a state of a run should satisfy.** -/
structure Sound (key : Key) (manifest : Dict F) (a : CreateArgs F) (first s : Dict F) : Prop where
  valid : ∃ check, verifyDeploymentState E s key = .ok check ∧ check.valid = true
  rereads : Rereads E s key
  history : ∃ entries, getKey s "history" = .arr entries ∧
    getKey s "generation" = .int entries.length ∧
    (∀ (i : ℕ) e, entries[i]? = some e → field e "generation" = .int (i + 1)) ∧
    ∀ i e e', entries[i]? = some e → entries[i + 1]? = some e' → field e' "from" = field e "to"
  path : ∃ entries stages st, getKey s "history" = .arr entries ∧
    entries.map (field · "to") = texts stages ∧ LegalPath stages ∧
    stages.getLast? = some st ∧ getKey s "stage" = .str st.value
  traffic : ∃ st x b, getKey s "stage" = .str st.value ∧ getKey s "traffic_fraction" = .float x ∧
    getKey s "bounded_traffic_fraction" = .float b ∧ x = stageFraction E b st ∧
    (E.T.view x).le (E.T.view b) = true ∧ (E.T.view b).le (E.T.lit (1 / 4)) = true
  final : getKey s "stage" = .str Stage.rolledBack.value →
    ∀ op t, transitionDeploymentState E s key op ≠ .ok t
  carried : ∀ k ∉ movingKeys, getKey s k = getKey first k
  policyManifest : getKey s "policy_manifest" = .obj manifest
  policyId : getKey s "policy_id" = getKey manifest "policy_id"
  guardrails : getKey s "guardrails" = .obj (guardrailEntries E a)
  bounded : getKey s "bounded_traffic_fraction" = .float a.boundedTrafficFraction

/-! ### What the relation gives -/

section Tracks
variable {E} {s : Dict F} {key : Key} {c : Course} (h : Tracks E s key c)
include h

theorem rereads_of_tracks : Rereads E s key ↔
    ∃ check, verifyDeploymentState E (sortDict s) key = .ok check ∧ check.valid = true := by
  obtain ⟨text, ht, hl⟩ := h.load
  constructor
  · rintro ⟨text', back, check, ht', hl', hc, hv⟩
    rw [ht, Except.ok.injEq] at ht'
    subst ht'
    rw [hl, Except.ok.injEq] at hl'
    subst hl'
    exact ⟨check, hc, hv⟩
  · rintro ⟨check, hc, hv⟩
    exact ⟨text, _, check, ht, hl, hc, hv⟩

theorem sound_of_tracks {manifest first : Dict F} {a : CreateArgs F} (hr : Rereads E s key)
    (hcar : ∀ k ∉ movingKeys, getKey s k = getKey first k)
    (hm : getKey first "policy_manifest" = .obj manifest)
    (hid : getKey first "policy_id" = getKey manifest "policy_id")
    (hg : getKey first "guardrails" = .obj (guardrailEntries E a))
    (hb : getKey first "bounded_traffic_fraction" = .float a.boundedTrafficFraction) :
    Sound E key manifest a first s := by
  obtain ⟨entries, hent, hrec⟩ := h.history
  obtain ⟨b, hb', hf, hok⟩ := h.bounded
  obtain ⟨x, hx, ht⟩ := h.traffic
  have hxe : x = stageFraction E b c.last := by
    rw [trafficForStage_eq E hb', Except.ok.injEq] at ht
    exact ht.symm
  exact {
    valid := h.valid
    rereads := hr
    history := ⟨entries, hent, by rw [h.generation, hrec.length_eq],
      fun _ _ he => hrec.generation_getElem he, fun _ _ _ he he' => hrec.link he he'⟩
    path := ⟨entries, c.stages, c.last, hent, hrec.target, c.shape,
      List.getLast?_eq_getLast_of_ne_nil c.stages_ne, h.stage⟩
    traffic := ⟨c.last, x, b, h.stage, hx, hb', hxe, hxe ▸ stageFraction_le E hok c.last, by
      rw [boundedOk, Bool.and_eq_true] at hok
      exact hok.2⟩
    final := fun hs op t => by
      rw [h.stage, Json.str.injEq] at hs
      exact h.final (Stage.value_injective hs) op t
    carried := hcar
    policyManifest := by rw [hcar _ (by decide), hm]
    policyId := by rw [hcar _ (by decide), hid]
    guardrails := by rw [hcar _ (by decide), hg]
    bounded := by rw [hcar _ (by decide), hb] }

end Tracks

/-- **Every state of a run tracks a course and keeps the fields that do not move.** -/
theorem tracks_run {key : Key} {first s : Dict F} {c : Course} {as : List (TransitionArgs F)}
    (h : Tracks E first key c) (hr : runTransitions E key first as = .ok s) :
    (∃ c', Tracks E s key c') ∧ ∀ k ∉ movingKeys, getKey s k = getKey first k := by
  refine run_induct (P := fun s => (∃ c', Tracks E s key c') ∧
    ∀ k ∉ movingKeys, getKey s k = getKey first k) ?_ ⟨⟨c, h⟩, fun _ _ => rfl⟩ hr
  rintro s a t ⟨⟨c', hc'⟩, hk⟩ hok
  obtain ⟨⟨st, hst, ht⟩, hkeep⟩ := tracks_transition E hc' hok
  exact ⟨⟨_, ht⟩, fun k hkm => by rw [hkeep k hkm, hk k hkm]⟩

/-! ### Runs -/

section Runs
variable (hinj : Function.Injective E.sha256Head) {records : List (Dict F)}
  {manifest report first : Dict F} {key : Key} {a : CreateArgs F} {now : String}
  (hm : wellFormed (.obj manifest) = true)
  (hc : createDeploymentState E records manifest report key a now = .ok first)
include hinj hm hc

/-- A state of a run reads back if and only if its manifest has the same reading. -/
theorem rereads_run_iff {as : List (TransitionArgs F)} {s : Dict F}
    (hr : runTransitions E key first as = .ok s) : Rereads E s key ↔ SameReading E manifest := by
  obtain ⟨ht, hman, -⟩ := tracks_create E hm hc
  obtain ⟨⟨c, htr⟩, hkeep⟩ := tracks_run E ht hr
  obtain ⟨hv, -, -, -, id, baseline, evidence, -, hb, -⟩ := (create_eq_ok E).mp hc
  obtain ⟨fields, policy, cutoff, source, hver⟩ := (Manifest.verify_iff E).mp hv
  have hms : getKey s "policy_manifest" = .obj manifest := by rw [hkeep _ (by decide), hman]
  rw [rereads_of_tracks htr, htr.rereads_iff hms,
    verify_sortDict_iff E hinj hm hver (fields_of_distribution E hb)]

/-- **Every state of every run is sound if and only if the manifest has the same reading once its
keys are sorted.** -/
theorem sound_runs_iff :
    (∀ as s, runTransitions E key first as = .ok s → Sound E key manifest a first s) ↔
      SameReading E manifest := by
  constructor
  · intro h
    have hrun : runTransitions E key first [] = .ok first := rfl
    exact (rereads_run_iff E hinj hm hc hrun).mp (h [] first hrun).rereads
  · intro hs as s hr
    obtain ⟨ht, hman, hid, hg, hb, -⟩ := tracks_create E hm hc
    obtain ⟨⟨c, htr⟩, hkeep⟩ := tracks_run E ht hr
    exact sound_of_tracks htr ((rereads_run_iff E hinj hm hc hr).mpr hs) hkeep hman hid hg hb

end Runs

/-! ### Two manifests -/

section Samples

/-- The unsigned entries of a manifest with context fields, a policy id and a policy. -/
def samplePayload (fields : List String) (id : String) (policy : Dict Cell) : Dict Cell :=
  [("schema_version", .str manifestSchemaVersion), ("policy_id", .str id),
    ("status", .str "shadow_only"), ("automatic_runtime_activation", .bool false),
    ("feature_schema_version", .str featureSchemaVersion), ("context_fields", .arr (fields.map .str)),
    ("policy", .obj policy), ("fallback_arm", .str baselineArm), ("locked_risks", lockedRisks),
    ("evidence_cutoff", .str "2026-09-01"), ("source_report_sha256", .str "00"),
    ("rollback", .obj [("target_arm", .str baselineArm)])]

/-- The policy id of an accepted policy. -/
def sampleId (fields : List String) (accepted : Dict Cell) : String :=
  platform.sha256Head (canonicalText platform.T
    (.obj (identityPayload fields accepted "2026-09-01" "00")))

/-- A signed manifest with a policy, of which `accepted` is what the verification accepts. -/
def sampleManifest (fields : List String) (policy accepted : Dict Cell) : Dict Cell :=
  samplePayload fields (sampleId fields accepted) policy ++ [("signature", .obj [("algorithm", .str "hmac-sha256"),
    ("key_id", .str "00"), ("value", .str (platform.hmac [1]
      (canonicalText platform.T (.obj (samplePayload fields (sampleId fields accepted) policy)))))])]

/-- An eligible shadow report for a policy id. -/
def sampleReport (id : String) : Dict Cell :=
  [("policy_id", .str id), ("evidence_cutoff", .str "2026-09-01"),
    ("shadow_gate", .obj [("eligible_for_manual_promotion_review", .bool true)]),
    ("manifest_verification", .obj [("valid", .bool true)]),
    ("execution", .obj [("policy_received_runtime_traffic", .bool false)])]

/-- The default arguments. -/
def sampleArgs : CreateArgs Cell where
  approvedBy := "owner"
  boundedTrafficFraction := .quarter
  rewardMin := .zero
  rewardMax := .one
  maxImportanceWeight := .hundred
  minimumMonitorOutcomes := 20
  promotionMargin := .zero
  maxRewardRegression := .twentieth
  maxFailureRate := .tenth
  maxContextTvDistance := .threeTenths
  maxUnknownContextRate := .fifth
  minimumDriftSamples := 50
  driftWindow := 200
  minimumMonitorClusters := 5
  clusterBootstrapResamples := 2000
  clusterBootstrapSeed := 20260911
  maxCumulativeRealizedCost := none

variable {fields : List String} {policy accepted : Dict Cell}

variable (fields) in
theorem printable_sample (h : validatePolicy platform (.obj policy) = .ok accepted) :
    printable platform.T.toFloatText true (.obj (samplePayload fields (sampleId fields accepted) policy)) =
      true := by
  obtain ⟨d, he, -, hs, -⟩ := (validatePolicy_eq_ok platform).mp h
  cases he
  have hpol : printable platform.T.toFloatText true (.obj policy) = true :=
    (printable_obj true policy).mpr fun p hp => (hs p hp).printed
  rw [samplePayload, printable_obj]
  simp only [List.forall_mem_cons]
  have hf : printable platform.T.toFloatText true (.arr (fields.map .str)) = true := by
    rw [printable_arr, List.forall_mem_map]
    exact fun _ _ => rfl
  exact ⟨rfl, rfl, rfl, rfl, rfl, hf, hpol, rfl, rfl, rfl, rfl, rfl, by simp⟩

theorem sample_verified (hf : validateContextFields platform (fields.map .str) = .ok fields)
    (h : validatePolicy platform (.obj policy) = .ok accepted) :
    Verified platform (sampleManifest fields policy accepted) [1] fields accepted "2026-09-01" "00" := by
  have hp := printable_sample fields h
  have hcut : getKey (sampleManifest fields policy accepted) "policy_id" = .str (sampleId fields accepted) := by
    simp [sampleManifest, samplePayload, getKey, lookup]
  have herase : eraseKey "signature" (sampleManifest fields policy accepted) =
      samplePayload fields (sampleId fields accepted) policy := by
    simp [sampleManifest, samplePayload, eraseKey]
  have hfo : FieldsOf platform (sampleManifest fields policy accepted) fields :=
    Or.inl ⟨fields.map .str, by simp [sampleManifest, samplePayload, getKey, lookup], hf⟩
  have hne : fields ≠ [] :=
    fields_ne_nil platform hfo ⟨fields.map .str, by simp [sampleManifest, samplePayload, getKey, lookup]⟩
  refine {
    signed := ⟨by simp, _, _, by simp [sampleManifest, samplePayload, getKey, lookup]; rfl, ?_, ?_,
      by rw [herase]; exact (canonical_eq_ok _).mpr ⟨hp, rfl⟩, ?_⟩
    schema := by simp [sampleManifest, samplePayload, getKey, lookup]
    featureSchema := by simp [sampleManifest, samplePayload, getKey, lookup]
    fieldsOf := hfo
    policyOf := by simpa [sampleManifest, samplePayload, getKey, lookup] using h
    cutoffOf := ⟨"2026-09-01", by simp [sampleManifest, samplePayload, Env.strOr, lookup, Env.str],
      by decide⟩
    cutoff_ne := by decide
    sourceOf := ⟨"00", by simp [sampleManifest, samplePayload, Env.strOr, lookup, Env.str], by decide⟩
    source_ne := by decide
    idOf := (policyIdErrors_eq_nil platform (isPolicy_of_validatePolicy platform h) hne
      (policy_ne_nil platform h) (by decide) (by decide)).mpr ⟨_, (canonical_eq_ok _).mpr
        ⟨printable_identity platform _ _ _ (isPolicy_of_validatePolicy platform h), rfl⟩, hcut⟩
    status := by simp [sampleManifest, samplePayload, getKey, lookup]
    fallback := by simp [sampleManifest, samplePayload, getKey, lookup]
    rollback := by simp [sampleManifest, samplePayload, rollbackBad, getKey, lookup]
    locked := ?_
    inactive := ?_ }
  · simp [getKey, lookup]
  · simp [getKey, lookup]
    rfl
  · simp [Env.strOr, lookup, Env.str]
    rfl
  · simp [sampleManifest, samplePayload, getKey, lookup, lockedRisks, pyEq, pyEqList]
  · simp [sampleManifest, samplePayload, getKey, lookup, truthy]

theorem wellFormed_sample (h : wellFormed (.obj policy) = true) :
    wellFormed (.obj (sampleManifest fields policy accepted)) = true := by
  rw [sampleManifest, samplePayload, wellFormed_obj]
  refine ⟨by simp [keys], ?_⟩
  simp only [List.cons_append, List.nil_append, List.forall_mem_cons]
  exact ⟨rfl, rfl, rfl, rfl, rfl, by simp, h, rfl, rfl, rfl, rfl, rfl, rfl, by simp⟩

/-- A deployment of the sample manifest is accepted. -/
theorem sample_created (hf : validateContextFields platform (fields.map .str) = .ok fields)
    (h : validatePolicy platform (.obj policy) = .ok accepted) : ∃ first,
    createDeploymentState platform [] (sampleManifest fields policy accepted)
      (sampleReport (sampleId fields accepted)) [1] sampleArgs "2026-09-02" = .ok first := by
  have hman : printable platform.T.toFloatText true (.obj (sampleManifest fields policy accepted)) = true := by
    have hp := printable_sample fields h
    rw [printable_obj] at hp ⊢
    rw [sampleManifest, List.forall_mem_append]
    refine ⟨hp, ?_⟩
    rw [List.forall_mem_singleton, printable_obj]
    simp [printable]
  have hshadow : shadowEligible platform (sampleManifest fields policy accepted)
      (sampleReport (sampleId fields accepted)) = true := by
    simp [shadowEligible, sampleManifest, samplePayload, sampleReport, getKey, lookup, objOf?,
      truthy]
  have hraw : getKey (sampleManifest fields policy accepted) "context_fields" =
      .arr (fields.map .str) := by
    simp [sampleManifest, samplePayload, getKey, lookup]
  exact create_isOk platform "2026-09-02" (by simp)
    ((Manifest.verify_iff platform).mpr ⟨_, _, _, _, sample_verified hf h⟩) hman hraw rfl hshadow
    (by decide) (by decide +kernel) (printable_guardrailEntries platform (by decide))

theorem sample_fields :
    validateContextFields platform ((["intent"] : List String).map .str) = .ok ["intent"] :=
  (validateContextFields_eq_ok platform).mpr (by decide)

/-- The deployment of a sample manifest can go live, and its file then holds a valid state. -/
theorem sample_live (hf : validateContextFields platform (fields.map .str) = .ok fields)
    (h : validatePolicy platform (.obj policy) = .ok accepted)
    (hw : wellFormed (.obj policy) = true)
    (hsame : SameReading platform (sampleManifest fields policy accepted)) :
    ∃ text state, loadDeploymentState platform text = .ok state ∧
      (∃ check, verifyDeploymentState platform state [1] = .ok check ∧ check.valid = true) ∧
      getKey state "stage" = .str Stage.canary1.value ∧
      getKey state "traffic_fraction" = .float .hundredth ∧
      getKey state "policy_manifest" = .obj (sortDict (sampleManifest fields policy accepted)) ∧
      getKey state "guardrails" = .obj (sortDict (guardrailEntries platform sampleArgs)) := by
  obtain ⟨first, hfirst⟩ := sample_created hf h
  have hm := @wellFormed_sample fields policy accepted hw
  obtain ⟨htr, hman, -, hguard, -, -⟩ := tracks_create platform hm hfirst
  obtain ⟨t, ht⟩ := promotes platform htr (by decide : ControlPlane.Lib.Text.strip "owner" ≠ "") "2026-09-03"
  obtain ⟨⟨st, hst, htr'⟩, hkeep⟩ := tracks_transition platform htr ht
  have hrun : runTransitions platform [1] first
      [⟨Stage.canary1.value, "owner", none, none, "2026-09-03"⟩] = .ok t := run_cons.mpr ⟨t, ht, rfl⟩
  obtain ⟨text, htext, hload⟩ := htr'.load
  have hv := (rereads_of_tracks htr').mp ((rereads_run_iff platform digest_injective hm hfirst hrun).mpr
    hsame)
  have hstage := (transition_moves platform ht).1
  refine ⟨text, sortDict t, hload, hv, ?_, ?_, ?_, ?_⟩
  · rw [htr'.getKey_text, hstage]
    rfl
  · obtain ⟨x, hx, htraffic⟩ := htr'.traffic
    have hlast := htr'.stage.symm.trans hstage
    rw [Json.str.injEq] at hlast
    rw [hlast] at htraffic
    have hcell : Cell.system.ofRat (1 / 100) = .hundredth := by decide +kernel
    cases (Except.ok.inj htraffic : Cell.system.ofRat (1 / 100) = x)
    rw [htr'.getKey_text, hx, sortKeys_float, hcell]
  · rw [htr'.getKey_text, hkeep _ (by decide), hman, sortKeys_obj']
  · rw [htr'.getKey_text, hkeep _ (by decide), hguard, sortKeys_obj']

/-- A policy with one context. -/
def onePolicy : Dict Cell := [("low", .str "source_rank")]

/-- A policy in which two keys have the same stripped text and different arms. -/
def twoPolicy : Dict Cell := [("low", .str "source_rank"), (" low", .str "bm25_rank")]

theorem sound_runs_onePolicy : ∃ first, createDeploymentState platform []
    (sampleManifest ["intent"] onePolicy onePolicy) (sampleReport (sampleId ["intent"] onePolicy)) [1] sampleArgs
      "2026-09-02" = .ok first ∧ ∀ as s, runTransitions platform [1] first as = .ok s →
        Sound platform [1] (sampleManifest ["intent"] onePolicy onePolicy) sampleArgs first s := by
  have hp : validatePolicy platform (.obj onePolicy) = .ok onePolicy := by decide
  have hsame : SameReading platform (sampleManifest ["intent"] onePolicy onePolicy) := by
    refine ⟨fun d hd context => ?_, rfl, rfl⟩
    have hd' : getKey (sampleManifest ["intent"] onePolicy onePolicy) "policy" = .obj onePolicy := by
      simp [sampleManifest, samplePayload, getKey, lookup]
    cases hd'.symm.trans hd
    rfl
  obtain ⟨first, h⟩ := sample_created sample_fields hp
  exact ⟨first, h, (sound_runs_iff platform digest_injective
    (wellFormed_sample (by decide)) h).mpr hsame⟩

/-- **The file of a new deployment does not verify** when the two keys change places in it. -/
theorem not_sound_twoPolicy : ∃ first, createDeploymentState platform []
    (sampleManifest ["intent"] twoPolicy [("low", .str "bm25_rank")])
      (sampleReport (sampleId ["intent"] [("low", .str "bm25_rank")])) [1] sampleArgs "2026-09-02" = .ok first ∧
    ∃ as s, runTransitions platform [1] first as = .ok s ∧
      ¬ Sound platform [1] (sampleManifest ["intent"] twoPolicy [("low", .str "bm25_rank")]) sampleArgs first s := by
  have hp : validatePolicy platform (.obj twoPolicy) = .ok [("low", .str "bm25_rank")] := by decide
  obtain ⟨first, h⟩ := sample_created sample_fields hp
  refine ⟨first, h, [], first, rfl, fun hs => ?_⟩
  have hrun : runTransitions platform [1] first [] = .ok first := rfl
  have hsame := (rereads_run_iff platform digest_injective (wellFormed_sample (by decide)) h
    hrun).mp hs.rereads
  have hd : getKey (sampleManifest ["intent"] twoPolicy [("low", .str "bm25_rank")]) "policy" =
      .obj twoPolicy := by
    simp [sampleManifest, samplePayload, getKey, lookup]
  exact absurd (hsame.policy _ hd "low") (by decide)

end Samples

end ControlPlane.Deployment.Runs
