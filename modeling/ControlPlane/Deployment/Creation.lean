import ControlPlane.Deployment.Refinement

/-! # The first state of a deployment

`create_eq_ok`: everything an accepted creation checks, and the payload it signs. `tracks_create`: the
state starts a course; its context distribution is an object with distinct keys whatever the learning
records hold. -/

namespace ControlPlane.Deployment.Creation

open ControlPlane.Lib.Value ControlPlane.Lib.Print ControlPlane.Lib.Text ControlPlane.Lib.Dumps
open ControlPlane.Lib.Floats ControlPlane.Lib.Dynamic
open ControlPlane.Environment ControlPlane.Learning.Features ControlPlane.Learning.Decision
open ControlPlane.Deployment.Manifest ControlPlane.Deployment.Reread
open ControlPlane.Deployment.Stages ControlPlane.Deployment.State ControlPlane.Deployment.Refinement

variable {F : Type} (E : Env F)

/-! ### The context distribution -/

theorem wellFormed_countRows {fields : List (Json F)} : ∀ {rows : List (Dict F)} {counts : Dict F}
    {accepted : ℤ} {r : Dict F × ℤ}, wellFormed (.obj counts) = true →
    countRows E fields rows counts accepted = .ok r → wellFormed (.obj r.1) = true
  | [], _, _, _, hc, h => by
    cases h
    exact hc
  | row :: rows, counts, accepted, r, hc, h => by
    rw [countRows, bind_eq_ok] at h
    obtain ⟨k?, -, h⟩ := h
    cases k? with
    | none => exact wellFormed_countRows hc h
    | some k => exact wellFormed_countRows (wellFormed_setKey hc k rfl) h

theorem wellFormed_sortPairs {d : Dict F} (hd : wellFormed (.obj d) = true) :
    wellFormed (.obj (sortPairs d)) = true := by
  rw [wellFormed_obj] at hd ⊢
  exact ⟨nodup_keys_sortPairs.mpr hd.1, fun p hp => hd.2 p ((perm_sortPairs d).mem_iff.mp hp)⟩

theorem wellFormed_distribution {records : List (Dict F)} {manifest d : Dict F} {limit : ℤ}
    (h : lowRiskContextDistribution E records manifest limit = .ok d) :
    wellFormed (.obj d) = true := by
  unfold lowRiskContextDistribution at h
  split at h
  · simp only [bind_eq_ok, pure, Except.pure, Except.ok.injEq] at h
    obtain ⟨fields, -, ⟨counts, accepted⟩, hc, rfl⟩ := h
    have hw := wellFormed_sortPairs (wellFormed_countRows E (by simp [keys]) hc)
    have hd : wellFormed (.obj ((sortPairs counts).map fun p =>
        (p.1, .float (share E (countOf counts p.1) accepted)))) = true := by
      rw [wellFormed_obj] at hw ⊢
      refine ⟨?_, List.forall_mem_map.mpr fun _ _ => rfl⟩
      rw [keys, List.map_map]
      exact hw.1
    rw [wellFormed_obj]
    refine ⟨by simp [keys], ?_⟩
    simp only [List.forall_mem_cons]
    exact ⟨rfl, hw, hd, by simp⟩
  · cases h

/-- The distribution is taken over a list of context fields. -/
theorem fields_of_distribution {records : List (Dict F)} {manifest d : Dict F} {limit : ℤ}
    (h : lowRiskContextDistribution E records manifest limit = .ok d) :
    ∃ raw, getKey manifest "context_fields" = .arr raw := by
  unfold lowRiskContextDistribution at h
  split at h
  · next raw hr => exact ⟨raw, hr⟩
  · cases h

/-! ### Creation -/

/-- **Everything an accepted creation checks, and the payload it signs.** -/
theorem create_eq_ok {records : List (Dict F)} {manifest report first : Dict F} {key : Key}
    {a : CreateArgs F} {now : String} :
    createDeploymentState E records manifest report key a now = .ok first ↔
      (∃ check, verifyPolicyManifest E manifest key = .ok check ∧ check.valid = true) ∧
      shadowEligible E manifest report = true ∧ strip a.approvedBy ≠ "" ∧ checkArgs E a = .ok () ∧
      ∃ id baseline evidence, E.strOr manifest "policy_id" "" = .ok id ∧
        lowRiskContextDistribution E records manifest 2000 = .ok baseline ∧
        sha256Json E (.obj report) = .ok evidence ∧
        signPayload E (firstState E manifest a (strip id) (strip a.approvedBy) now baseline evidence)
          key = .ok first := by
  simp only [createDeploymentState, bind_eq_ok, require_eq_ok]
  constructor
  · rintro ⟨c, hc, -, hv, -, hs, -, ha, ⟨⟩, hargs, id, hid, baseline, hb, evidence, he, hsign⟩
    exact ⟨⟨c, hc, hv⟩, hs, by simpa using ha, hargs, id, baseline, evidence, hid, hb, he, hsign⟩
  · rintro ⟨⟨c, hc, hv⟩, hs, ha, hargs, id, baseline, evidence, hid, hb, he, hsign⟩
    exact ⟨c, hc, ⟨⟩, hv, ⟨⟩, hs, ⟨⟩, by simpa using ha, ⟨⟩, hargs, id, hid, baseline, hb, evidence,
      he, hsign⟩

/-- Guardrails of small numbers are printed. -/
theorem printable_guardrailEntries {a : CreateArgs F}
    (h : ∀ n ∈ [a.minimumMonitorOutcomes, a.minimumDriftSamples, a.driftWindow,
      a.minimumMonitorClusters, a.clusterBootstrapResamples, a.clusterBootstrapSeed],
      n.natAbs < 10 ^ 9) :
    printable E.T.toFloatText true (.obj (guardrailEntries E a)) = true := by
  have hb : printable E.T.toFloatText true (.obj (stageBudgets a.maxCumulativeRealizedCost)) = true := by
    rw [printable_obj, stageBudgets, List.forall_mem_map]
    intro st _
    rw [printable_obj]
    simp only [List.forall_mem_cons]
    refine ⟨printable_small _ ?_, printable_small _ ?_, ?_, by simp⟩
    · cases st <;> decide
    · cases st <;> decide
    · cases a.maxCumulativeRealizedCost <;> rfl
  simp only [List.forall_mem_cons] at h
  obtain ⟨h1, h2, h3, h4, h5, h6, -⟩ := h
  rw [guardrailEntries, printable_obj]
  simp only [List.forall_mem_cons]
  exact ⟨rfl, rfl, rfl, printable_small _ (by omega), rfl, rfl, rfl, rfl, rfl,
    printable_small _ (by omega), printable_small _ (by omega), printable_small _ h4,
    printable_small _ h5, printable_small _ h6, hb, by simp⟩

/-- The context distribution of no records. -/
def noContexts : Dict F := [("sample_size", .int 0), ("counts", .obj []), ("distribution", .obj [])]

/-- A valid manifest with a printed text is deployed without records if its shadow report is eligible and
the arguments are accepted. -/
theorem create_isOk {manifest report : Dict F} {key : Key} {a : CreateArgs F} (now : String) (hk : key ≠ [])
    (hv : ∃ check, verifyPolicyManifest E manifest key = .ok check ∧ check.valid = true)
    (hman : printable E.T.toFloatText true (.obj manifest) = true)
    {raw : List (Json F)} (hraw : getKey manifest "context_fields" = .arr raw)
    (hreport : printable E.T.toFloatText true (.obj report) = true)
    (hshadow : shadowEligible E manifest report = true) (happroved : strip a.approvedBy ≠ "")
    (hargs : checkArgs E a = .ok ())
    (hguard : printable E.T.toFloatText true (.obj (guardrailEntries E a)) = true) :
    ∃ first, createDeploymentState E [] manifest report key a now = .ok first := by
  obtain ⟨id, hid⟩ := strOr_ok hman "policy_id" ""
  have hdist : lowRiskContextDistribution E [] manifest 2000 = .ok noContexts := by
    have hp : ∀ x ∈ raw, printable E.T.toFloatText true x = true := by
      have hg := printable_getKey hman "context_fields"
      rw [hraw, printable_arr] at hg
      exact hg
    rw [lowRiskContextDistribution, hraw]
    simp only [(mapM_str_eq_ok E).mpr ⟨hp, rfl⟩, bind, Except.bind, List.drop_nil, countRows]
    rfl
  have hev : ∃ evidence, sha256Json E (.obj report) = .ok evidence :=
    ⟨_, by rw [sha256Json, (canonical_eq_ok E.T).mpr ⟨hreport, rfl⟩]; rfl⟩
  obtain ⟨evidence, hev⟩ := hev
  have hone : printable E.T.toFloatText true (.int 1) = true := printable_small _ (by decide)
  have hbase : printable E.T.toFloatText true (.obj noContexts) = true := by
    rw [noContexts, printable_obj]
    simp only [List.forall_mem_cons]
    exact ⟨printable_small _ (by decide), rfl, rfl, by simp⟩
  have hhist : printable E.T.toFloatText true (.arr [historyEntry 1 "shadow"
      Stage.approved.value (strip a.approvedBy) now (.str evidence)
      "manual approval after signed shadow evidence"]) = true := by
    rw [printable_arr, List.forall_mem_singleton, historyEntry, printable_obj]
    simp only [List.forall_mem_cons]
    exact ⟨hone, rfl, rfl, rfl, rfl, rfl, rfl, by simp⟩
  have hprint : printable E.T.toFloatText true (.obj (firstState E manifest a (strip id)
      (strip a.approvedBy) now noContexts evidence)) = true := by
    rw [firstState, printable_obj]
    simp only [List.forall_mem_cons]
    exact ⟨rfl, rfl, rfl, rfl, rfl, hone, rfl, rfl, rfl, rfl, hman, rfl, hbase, hguard, rfl, hhist,
      by simp⟩
  exact ⟨_, (create_eq_ok E).mpr ⟨hv, hshadow, happroved, hargs, id, noContexts, evidence, hid, hdist,
    hev, (signPayload_eq_ok E).mpr ⟨hk, _, (canonical_eq_ok E.T).mpr
      ⟨printable_eraseKey hprint _, rfl⟩, rfl⟩⟩⟩

theorem boundedOk_of_checkArgs {a : CreateArgs F} (h : checkArgs E a = .ok ()) :
    E.T.finite a.boundedTrafficFraction = true ∧ boundedOk E a.boundedTrafficFraction = true := by
  rw [checkArgs, bind_eq_ok] at h
  obtain ⟨⟨⟩, h, -⟩ := h
  rw [require_eq_ok, Bool.and_eq_true] at h
  exact h

theorem wellFormed_guardrails (a : CreateArgs F) :
    wellFormed (.obj (guardrailEntries E a)) = true := by
  have hcost : wellFormed ((a.maxCumulativeRealizedCost.map .float).getD .null : Json F) = true := by
    cases a.maxCumulativeRealizedCost <;> rfl
  have hb : wellFormed (.obj (stageBudgets a.maxCumulativeRealizedCost)) = true := by
    rw [wellFormed_obj, stageBudgets]
    refine ⟨by simp [keys, Stage.live, Stage.value], ?_⟩
    rw [List.forall_mem_map]
    intro st _
    rw [wellFormed_obj]
    refine ⟨by simp [keys], ?_⟩
    simp only [List.forall_mem_cons]
    exact ⟨rfl, rfl, hcost, by simp⟩
  rw [wellFormed_obj, guardrailEntries]
  refine ⟨by simp [keys], ?_⟩
  simp only [List.forall_mem_cons]
  exact ⟨rfl, rfl, rfl, rfl, rfl, rfl, rfl, rfl, rfl, rfl, rfl, rfl, rfl, rfl, hb, by simp⟩

section First
variable (manifest : Dict F) (a : CreateArgs F) (id approver now : String) (baseline : Dict F)
  (evidence : String)

/-- The fields of the first state that the checks read. -/
theorem getKey_firstState :
    (∀ k s, (k, s) ∈ [("schema_version", deploymentSchemaVersion), ("policy_id", id),
        ("stage", Stage.approved.value)] →
      getKey (firstState E manifest a id approver now baseline evidence) k = .str s) ∧
    getKey (firstState E manifest a id approver now baseline evidence) "traffic_fraction" =
      .float (E.T.ofRat 0) ∧
    getKey (firstState E manifest a id approver now baseline evidence) "bounded_traffic_fraction" =
      .float a.boundedTrafficFraction ∧
    getKey (firstState E manifest a id approver now baseline evidence) "generation" = .int 1 ∧
    getKey (firstState E manifest a id approver now baseline evidence)
      "automatic_runtime_activation" = .bool false ∧
    getKey (firstState E manifest a id approver now baseline evidence) "policy_manifest" =
      .obj manifest ∧
    getKey (firstState E manifest a id approver now baseline evidence)
      "baseline_context_distribution" = .obj baseline ∧
    getKey (firstState E manifest a id approver now baseline evidence) "guardrails" =
      .obj (guardrailEntries E a) ∧
    getKey (firstState E manifest a id approver now baseline evidence) "rollback" =
      .obj [("target_arm", .str baselineArm), ("automatic", .bool true), ("reason", .null),
        ("rolled_back_at", .null)] ∧
    getKey (firstState E manifest a id approver now baseline evidence) "history" =
      .arr [historyEntry 1 "shadow" Stage.approved.value approver now (.str evidence)
        "manual approval after signed shadow evidence"] := by
  refine ⟨?_, ?_, ?_, ?_, ?_, ?_, ?_, ?_, ?_, ?_⟩
  · intro k s h
    simp only [List.mem_cons, Prod.mk.injEq, List.not_mem_nil, or_false] at h
    rcases h with ⟨rfl, rfl⟩ | ⟨rfl, rfl⟩ | ⟨rfl, rfl⟩ <;> simp [getKey, firstState, lookup]
  all_goals simp [getKey, firstState, lookup]

theorem wellFormed_firstState (hm : wellFormed (.obj manifest) = true)
    (hb : wellFormed (.obj baseline) = true) :
    wellFormed (.obj (firstState E manifest a id approver now baseline evidence)) = true := by
  have hr : wellFormed (.obj [("target_arm", .str baselineArm), ("automatic", .bool true),
      ("reason", .null), ("rolled_back_at", .null)] : Json F) = true := by
    rw [wellFormed_obj]
    simp [keys]
  have hh : wellFormed (.arr [historyEntry 1 "shadow" Stage.approved.value approver now
      (.str evidence) "manual approval after signed shadow evidence"] : Json F) = true := by
    rw [wellFormed_arr, List.forall_mem_singleton]
    exact wellFormed_historyEntry _ _ _ _ _ rfl _
  rw [wellFormed_obj, firstState]
  refine ⟨by simp [keys], ?_⟩
  simp only [List.forall_mem_cons]
  exact ⟨rfl, rfl, rfl, rfl, rfl, rfl, rfl, rfl, rfl, rfl, hm, rfl, hb, wellFormed_guardrails E a,
    hr, hh, by simp⟩

end First

/-- A verified policy id is a text of its own, without white space. -/
theorem policyId_of_verified {manifest : Dict F} {key : Key} {raw : List (Json F)}
    (hraw : getKey manifest "context_fields" = .arr raw)
    (hv : ∃ check, verifyPolicyManifest E manifest key = .ok check ∧ check.valid = true)
    {id : String} (hid : E.strOr manifest "policy_id" "" = .ok id) :
    getKey manifest "policy_id" = .str (strip id) := by
  obtain ⟨fields, policy, cutoff, source, h⟩ := (Manifest.verify_iff E).mp hv
  have hfields : fields ≠ [] := fields_ne_nil E h.fieldsOf ⟨raw, hraw⟩
  obtain ⟨text, -, he⟩ := (policyIdErrors_eq_nil E (isPolicy_of_validatePolicy E h.policyOf) hfields
    (policy_ne_nil E h.policyOf) h.cutoff_ne h.source_ne).mp h.idOf
  rw [strOr_of_getKey he, Except.ok.injEq] at hid
  rw [he, ← hid, strip_hex (E.sha256Head_hex text).2]

/-- **An accepted creation starts a course.** -/
theorem tracks_create {records : List (Dict F)} {manifest report first : Dict F} {key : Key}
    {a : CreateArgs F} {now : String} (hm : wellFormed (.obj manifest) = true)
    (h : createDeploymentState E records manifest report key a now = .ok first) :
    Tracks E first key Course.start ∧ getKey first "policy_manifest" = .obj manifest ∧
      getKey first "policy_id" = getKey manifest "policy_id" ∧
      getKey first "guardrails" = .obj (guardrailEntries E a) ∧
      getKey first "bounded_traffic_fraction" = .float a.boundedTrafficFraction ∧
      ∃ baseline, lowRiskContextDistribution E records manifest 2000 = .ok baseline ∧
        getKey first "baseline_context_distribution" = .obj baseline := by
  obtain ⟨hv, -, -, hargs, id, baseline, evidence, hid, hb, -, hsign⟩ := (create_eq_ok E).mp h
  obtain ⟨raw, hraw⟩ := fields_of_distribution E hb
  have hpid := policyId_of_verified E hraw hv hid
  obtain ⟨hbf, hbo⟩ := boundedOk_of_checkArgs E hargs
  have g := fun k (hk : k ≠ "signature") => getKey_signed E hsign hk
  obtain ⟨e1, e2, e3, e4, e5, e6, e7, e8, e9, e10⟩ := getKey_firstState E manifest a (strip id)
    (strip a.approvedBy) now baseline evidence
  have e11 := e1 "policy_id" (strip id) (by simp)
  rw [← g _ (by decide)] at e2 e3 e4 e5 e6 e7 e8 e9 e10 e11
  refine ⟨{
    wf := wellFormed_signed E hsign
      (wellFormed_firstState E manifest a _ _ now baseline evidence hm (wellFormed_distribution E hb))
    printable := printable_signed E hsign
    signed := signed_signPayload E hsign
    schema := by rw [g _ (by decide)]; exact e1 _ _ (by simp)
    stage := by rw [g _ (by decide)]; exact e1 _ _ (by simp [Course.last, Course.start])
    generation := e4
    history := ⟨_, e10, ?_⟩
    manifest := ⟨manifest, e6, hv, by rw [e11, hpid, pyEq_str]⟩
    bounded := ⟨_, e3, hbf, hbo⟩
    traffic := ⟨_, e2, ?_⟩
    inactive := by rw [e5]; rfl
    rollback := ?_ }, e6, by rw [e11, hpid], e8, e3, baseline, hb, e7⟩
  · obtain ⟨f1, f2, f3⟩ := field_historyEntry (F := F) 1 "shadow" Stage.approved.value
      (strip a.approvedBy) now (.str evidence) "manual approval after signed shadow evidence"
    refine ⟨?_, ?_, ?_⟩
    · simp [Course.start, texts, f3]
    · simp [Course.start, f1]
    · simp [Course.start, texts, f2]
  · exact trafficForStage_eq E e3 .approved
  · rw [rollbackBad, e9]
    simp [getKey, lookup]

end ControlPlane.Deployment.Creation
