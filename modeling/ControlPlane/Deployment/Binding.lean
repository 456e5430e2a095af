import ControlPlane.Deployment.Evaluation

/-! # What a policy manifest binds

`createPolicyManifest` signs a manifest for an eligible report. Its manifests are `Verified` under the
signing key (`verified_of_create`).

The verification recomputes the policy id from stripped copies of the texts of a manifest, and not at
all if `context_fields` is no list; the runtime and the evaluation read the manifest itself. `Binds` says
that the id is the digest of what they read, and that they find the same arms.

`binds_iff`: a valid manifest binds its policy if and only if it is `Trimmed`, that is if its fields are
a list of different texts and its fields, policy, cutoff and source report are texts without white space
around them. -/

namespace ControlPlane.Deployment.Binding

open ControlPlane.Lib.Value ControlPlane.Lib.Text ControlPlane.Lib.Dumps ControlPlane.Lib.Dynamic
open ControlPlane.Environment ControlPlane.Instance ControlPlane.Lib.Grid
open ControlPlane.Learning.Features ControlPlane.Learning.Decision ControlPlane.Learning.Records
open ControlPlane.Deployment.Manifest ControlPlane.Deployment.Reread ControlPlane.Deployment.State
open ControlPlane.Deployment.ContextKeys ControlPlane.Deployment.Runtime
open ControlPlane.Deployment.Creation ControlPlane.Deployment.Evaluation

variable {F : Type} (E : Env F)

/-! ### Creation -/

/-- `report.get("promotion")` is an object that makes the policy eligible. -/
def eligibleForShadow (report : Dict F) : Bool :=
  match getKey report "promotion" with
  | .obj promotion => truthy E.T (getKey promotion "eligible_for_shadow")
  | _ => false

def reportFields (report : Dict F) : Py (List String) :=
  match getKey report "context_fields" with
  | .arr raw => validateContextFields E raw
  | _ => .error (.valueError "contextual policy is missing context fields")

/-- The unsigned entries of a manifest. -/
def manifestEntries (report : Dict F) (fields : List String) (policy : Dict F)
    (cutoff source id now : String) : Dict F :=
  [("schema_version", .str manifestSchemaVersion), ("policy_id", .str id), ("created_at", .str now),
    ("status", .str "shadow_only"), ("automatic_runtime_activation", .bool false),
    ("feature_schema_version", .str featureSchemaVersion), ("context_fields", .arr (fields.map .str)),
    ("policy", .obj policy), ("fallback_arm", .str baselineArm), ("locked_risks", lockedRisks),
    ("evidence_cutoff", .str cutoff), ("source_report_sha256", .str source),
    ("source_decision_sha256", getKey report "source_decision_sha256"),
    ("reward_model", getKey report "reward_model"), ("cost_model", getKey report "cost_model"),
    ("holdout_evidence", getKey report "holdout_doubly_robust_evaluation"),
    ("rollback", .obj [("target_arm", .str baselineArm),
      ("reason", .str "deterministic production baseline remains the rollback target")]),
    ("provenance", .obj [("development_events", getKey report "development_events"),
      ("holdout_events", getKey report "holdout_events"),
      ("feature_schema_version", .str featureSchemaVersion)])]

/-- The signature of entries with the given canonical text. -/
def signatureEntry (key : Key) (text : String) : Json F :=
  .obj [("algorithm", .str "hmac-sha256"), ("key_id", .str (E.keyId key)),
    ("value", .str (E.hmac key text))]

def createPolicyManifest (report : Dict F) (key : Key) (now : String) : Py (Dict F) := do
  require (!key.isEmpty) "signing key must not be empty"
  require (same E report "scope" "contextual-retrieval-policy-development")
    "input is not a Stage 6 contextual policy report"
  require (eligibleForShadow E report) "contextual policy is not eligible for shadow evaluation"
  require (same E report "feature_schema_version" featureSchemaVersion)
    "contextual policy feature schema is incompatible"
  let fields ← reportFields E report
  let policy ← validatePolicy E (getKey report "development_policy")
  let cutoff := strip (← E.strOr report "evidence_cutoff" "")
  require (cutoff != "") "contextual policy is missing an evidence cutoff"
  let source ← sha256Json E (.obj report)
  let id ← policyId E (identityPayload fields policy cutoff source)
  let manifest := manifestEntries report fields policy cutoff source id now
  return setKey "signature" (signatureEntry E key (← canonical E.T (.obj manifest))) manifest

/-! ### What is created is valid -/

/-- A signed object. -/
theorem signed_setKey {d : Dict F} {key : Key} {text : String} (hk : key ≠ [])
    (hd : "signature" ∉ keys d) (ht : canonical E.T (.obj d) = .ok text) :
    Signed E (setKey "signature" (signatureEntry E key text) d) key := by
  have herase : eraseKey "signature" (setKey "signature" (signatureEntry E key text) d) = d := by
    have hself : d.filter (fun p => p.1 ≠ "signature") = d := by
      refine List.filter_eq_self.mpr fun p hp => ?_
      have hne : p.1 ≠ "signature" := fun he => hd (he ▸ List.mem_map_of_mem hp)
      simpa using hne
    rw [setKey_of_notMem hd, eraseKey, List.filter_append, hself]
    simp
  exact ⟨hk, _, text, getKey_setKey_self _ _ _, rfl, rfl, by rw [herase]; exact ht, rfl⟩

theorem eraseDups_of_nodup : ∀ {xs : List String}, xs.Nodup → xs.eraseDups = xs
  | [], _ => rfl
  | x :: xs, h => by
    obtain ⟨hx, hxs⟩ := List.nodup_cons.mp h
    have hf : xs.filter (fun b => !b == x) = xs := by
      refine List.filter_eq_self.mpr fun b hb => ?_
      have hne : b ≠ x := fun he => hx (he ▸ hb)
      simpa using hne
    rw [List.eraseDups_cons, hf, eraseDups_of_nodup hxs]

theorem stripText_str (s : String) : stripText E (.str s) = strip s := rfl

theorem strip_stripText (v : Json F) : strip (stripText E v) = stripText E v := strip_strip _

/-- What was validated is validated to itself. -/
theorem validateContextFields_self {raw : List (Json F)} {fields : List String}
    (h : validateContextFields E raw = .ok fields) :
    validateContextFields E (fields.map .str) = .ok fields := by
  obtain ⟨-, hne, hf, rfl⟩ := (validateContextFields_eq_ok E).mp h
  set ts := (raw.map (stripText E)).eraseDups with hts
  have hmem : ∀ t ∈ ts, strip t = t ∧ t ∈ featureFields := by
    intro t ht
    obtain ⟨x, hx, rfl⟩ := List.mem_map.mp (List.mem_eraseDups.mp ht)
    exact ⟨strip_strip _, hf x hx⟩
  have hmap : (ts.map Json.str).map (stripText E) = ts := by
    rw [List.map_map]
    conv_rhs => rw [← List.map_id ts]
    exact List.map_congr_left fun t ht => (hmem t ht).1
  refine (validateContextFields_eq_ok E).mpr ⟨?_, ?_, ?_, ?_⟩
  · rw [List.forall_mem_map]
    exact fun _ _ => rfl
  · obtain ⟨x, xs, rfl⟩ := List.exists_cons_of_ne_nil hne
    simp [hts, List.eraseDups_cons]
  · rw [List.forall_mem_map]
    intro t ht
    rw [stripText_str, (hmem t ht).1]
    exact (hmem t ht).2
  · rw [hmap]
    exact (eraseDups_of_nodup (nodup_eraseDups _ _ le_rfl)).symm

theorem stripEntry_of_mem {d r : Dict F} (h : validatePolicy E (.obj d) = .ok r)
    {p : String × Json F} (hp : p ∈ r) : ∃ q, SafeEntry E q ∧ p = stripEntry E q := by
  obtain ⟨d', he, -, hs, rfl⟩ := (validatePolicy_eq_ok E).mp h
  cases he
  have hm := mem_ofPairs ((perm_sortPairs _).mem_iff.mp hp)
  obtain ⟨q, hq, rfl⟩ := List.mem_map.mp hm
  exact ⟨q, hs q hq, rfl⟩

theorem stripEntry_stripEntry (p : String × Json F) : stripEntry E (stripEntry E p) = stripEntry E p := by
  simp only [stripEntry, strip_strip, stripText_str, strip_stripText]

theorem safeEntry_stripEntry {p : String × Json F} (h : SafeEntry E p) : SafeEntry E (stripEntry E p) where
  printed := rfl
  context := by
    show strip (strip p.1) ≠ ""
    rw [strip_strip]
    exact h.context
  arm := by
    show strip (stripText E p.2) ∈ safeExplorationArms
    rw [strip_stripText]
    exact h.arm

theorem validatePolicy_self {v : Json F} {r : Dict F} (h : validatePolicy E v = .ok r) :
    validatePolicy E (.obj r) = .ok r := by
  obtain ⟨d, rfl, -, -, -⟩ := (validatePolicy_eq_ok E).mp h
  have hr := isPolicy_of_validatePolicy E h
  have hstrip : r.map (stripEntry E) = r := by
    conv_rhs => rw [← List.map_id r]
    refine List.map_congr_left fun p hp => ?_
    obtain ⟨q, -, rfl⟩ := stripEntry_of_mem E h hp
    exact stripEntry_stripEntry E q
  refine (validatePolicy_eq_ok E).mpr ⟨r, rfl, policy_ne_nil E h, fun p hp => ?_, ?_⟩
  · obtain ⟨q, hq, rfl⟩ := stripEntry_of_mem E h hp
    exact safeEntry_stripEntry E hq
  · rw [hstrip, ofPairs_eq hr.nodup, hr.sorted]

/-- The arguments of a successful creation. -/
theorem create_entries {report m : Dict F} {key : Key} {now : String}
    (h : createPolicyManifest E report key now = .ok m) :
    ∃ raw fields policy cutoff source id text, key ≠ [] ∧ validateContextFields E raw = .ok fields ∧
      validatePolicy E (getKey report "development_policy") = .ok policy ∧ strip cutoff ≠ "" ∧
      sha256Json E (.obj report) = .ok source ∧
      policyId E (identityPayload fields policy (strip cutoff) source) = .ok id ∧
      canonical E.T (.obj (manifestEntries report fields policy (strip cutoff) source id now)) = .ok text ∧
      m = setKey "signature" (signatureEntry E key text)
        (manifestEntries report fields policy (strip cutoff) source id now) := by
  unfold createPolicyManifest at h
  simp only [bind_eq_ok, require_eq_ok, pure, Except.pure, Except.ok.injEq] at h
  obtain ⟨-, hk, -, -, -, -, -, -, fields, hf, policy, hp, cutoff, -, -, hc, source, hs, id, hid, text,
    ht, rfl⟩ := h
  unfold reportFields at hf
  split at hf
  · next raw hraw =>
    exact ⟨raw, fields, policy, cutoff, source, id, text, by simpa using hk, hf, hp, by simpa using hc,
      hs, hid, ht, rfl⟩
  · cases hf

theorem hex_of_sha256Json {v : Json F} {s : String} (h : sha256Json E v = .ok s) :
    ∃ text, s = E.sha256 text := by
  unfold sha256Json at h
  obtain ⟨text, -, h⟩ := bind_eq_ok.mp h
  cases h
  exact ⟨text, rfl⟩

/-- **What is created is verified.** -/
theorem verified_of_create (hne : ∀ s, E.sha256 s ≠ "") {report m : Dict F} {key : Key} {now : String}
    (h : createPolicyManifest E report key now = .ok m) :
    ∃ fields policy cutoff source, Verified E m key fields policy cutoff source ∧
      getKey m "context_fields" = .arr (fields.map .str) ∧ getKey m "policy" = .obj policy ∧
      getKey m "evidence_cutoff" = .str cutoff ∧ getKey m "source_report_sha256" = .str source := by
  obtain ⟨raw, fields, policy, cutoff, source, id, text, hk, hf, hp, hc, hs, hid, ht, rfl⟩ :=
    create_entries E h
  obtain ⟨digest, rfl⟩ := hex_of_sha256Json E hs
  have hfields := validateContextFields_self E hf
  have hpolicy := validatePolicy_self E hp
  have hsource : strip (E.sha256 digest) = E.sha256 digest := strip_hex (E.sha256_hex digest)
  have hfo : FieldsOf E (setKey "signature" (signatureEntry E key text)
      (manifestEntries report fields policy (strip cutoff) (E.sha256 digest) id now)) fields :=
    Or.inl ⟨_, rfl, hfields⟩
  have hi := isPolicy_of_validatePolicy E hpolicy
  refine ⟨fields, policy, strip cutoff, E.sha256 digest, {
    signed := signed_setKey E hk (by simp [manifestEntries, keys]) ht
    schema := rfl
    featureSchema := rfl
    fieldsOf := hfo
    policyOf := hpolicy
    cutoffOf := ⟨strip cutoff, rfl, strip_strip cutoff⟩
    cutoff_ne := hc
    sourceOf := ⟨E.sha256 digest, rfl, hsource⟩
    source_ne := hne digest
    idOf := ?_
    status := rfl
    fallback := rfl
    rollback := ?_
    locked := ?_
    inactive := rfl }, rfl, rfl, rfl, rfl⟩
  · refine (policyIdErrors_eq_nil E hi (fields_ne_nil E hfo ⟨_, rfl⟩) (policy_ne_nil E hpolicy) hc
      (hne digest)).mpr ?_
    obtain ⟨t, ht', hid'⟩ := policyId_eq_ok E fields (strip cutoff) (E.sha256 digest) hi
    rw [hid', Except.ok.injEq] at hid
    exact ⟨t, ht', by rw [hid]; rfl⟩
  · show differs E _ "target_arm" baselineArm = false
    rw [differs_eq_false]
    rfl
  · show pyEq E.T lockedRisks lockedRisks = true
    simp [lockedRisks, pyEq_arr]

/-- An eligible report with a policy and a printed text is accepted. -/
theorem createPolicyManifest_isOk {report : Dict F} {key : Key} (now : String) (hk : key ≠ [])
    (hscope : same E report "scope" "contextual-retrieval-policy-development" = true)
    (heligible : eligibleForShadow E report = true)
    (hschema : same E report "feature_schema_version" featureSchemaVersion = true)
    {fields : List String} (hf : reportFields E report = .ok fields) {policy : Dict F}
    (hp : validatePolicy E (getKey report "development_policy") = .ok policy) {cutoff : String}
    (hc : E.strOr report "evidence_cutoff" "" = .ok cutoff) (hcne : strip cutoff ≠ "")
    (hprint : printable E.T.toFloatText true (.obj report) = true) :
    ∃ m, createPolicyManifest E report key now = .ok m := by
  have hi := isPolicy_of_validatePolicy E hp
  have hsha : ∃ source, sha256Json E (.obj report) = .ok source :=
    ⟨_, by rw [sha256Json, (canonical_eq_ok E.T).mpr ⟨hprint, rfl⟩]; rfl⟩
  obtain ⟨source, hsource⟩ := hsha
  obtain ⟨text, -, hid⟩ := policyId_eq_ok E fields (strip cutoff) source hi
  have hpol : printable E.T.toFloatText true (.obj policy) = true := by
    rw [printable_obj]
    intro p hp
    obtain ⟨s, hs⟩ := hi.text p hp
    rw [hs]
    rfl
  have hnames : printable E.T.toFloatText true (.arr (fields.map .str)) = true := by
    rw [printable_arr, List.forall_mem_map]
    exact fun _ _ => rfl
  have hprov : printable E.T.toFloatText true (.obj [("development_events",
      getKey report "development_events"), ("holdout_events", getKey report "holdout_events"),
      ("feature_schema_version", .str featureSchemaVersion)]) = true := by
    rw [printable_obj]
    simp only [List.forall_mem_cons]
    exact ⟨printable_getKey hprint _, printable_getKey hprint _, rfl, by simp⟩
  have hentries : printable E.T.toFloatText true (.obj (manifestEntries report fields policy
      (strip cutoff) source (E.sha256Head text) now)) = true := by
    rw [manifestEntries, printable_obj]
    simp only [List.forall_mem_cons]
    exact ⟨rfl, rfl, rfl, rfl, rfl, rfl, hnames, hpol, rfl, rfl, rfl, rfl, printable_getKey hprint _,
      printable_getKey hprint _, printable_getKey hprint _, printable_getKey hprint _, rfl, hprov,
      by simp⟩
  unfold createPolicyManifest
  simp only [require, hscope, heligible, hschema, hf, hp, hc, hcne, hsource, hid, bind, Except.bind,
    (canonical_eq_ok E.T).mpr ⟨hentries, rfl⟩, bne_iff_ne, ne_eq, not_false_eq_true, if_true, pure,
    Except.pure]
  simp [hk]

theorem wellFormed_create {report m : Dict F} {key : Key} {now : String}
    (hr : wellFormed (.obj report) = true) (h : createPolicyManifest E report key now = .ok m) :
    wellFormed (.obj m) = true := by
  obtain ⟨raw, fields, policy, cutoff, source, id, text, -, -, hp, -, -, -, -, rfl⟩ := create_entries E h
  have hi := isPolicy_of_validatePolicy E hp
  have hpol : wellFormed (.obj policy) = true := by
    rw [wellFormed_obj]
    refine ⟨hi.nodup, fun p hp => ?_⟩
    obtain ⟨s, hs⟩ := hi.text p hp
    rw [hs]
    rfl
  have hnames : wellFormed (.arr (fields.map .str) : Json F) = true := by
    rw [wellFormed_arr, List.forall_mem_map]
    exact fun _ _ => rfl
  have hprov : wellFormed (.obj [("development_events", getKey report "development_events"),
      ("holdout_events", getKey report "holdout_events"),
      ("feature_schema_version", .str featureSchemaVersion)]) = true := by
    rw [wellFormed_obj]
    refine ⟨by simp [keys], ?_⟩
    simp only [List.forall_mem_cons]
    exact ⟨wellFormed_getKey hr _, wellFormed_getKey hr _, rfl, by simp⟩
  refine wellFormed_setKey ?_ "signature" (by simp [signatureEntry, keys])
  rw [manifestEntries, wellFormed_obj]
  refine ⟨by simp [keys], ?_⟩
  simp only [List.forall_mem_cons]
  exact ⟨rfl, rfl, rfl, rfl, rfl, rfl, hnames, hpol, rfl, rfl, rfl, rfl, wellFormed_getKey hr _,
    wellFormed_getKey hr _, wellFormed_getKey hr _, wellFormed_getKey hr _, by simp [keys], hprov,
    by simp⟩

/-! ### What the readers of a manifest read -/

/-- The identity of a manifest as it stands. -/
def rawIdentity (m : Dict F) : Dict F :=
  [("feature_schema_version", .str featureSchemaVersion), ("context_fields", getKey m "context_fields"),
    ("policy", getKey m "policy"), ("evidence_cutoff", getKey m "evidence_cutoff"),
    ("source_report_sha256", getKey m "source_report_sha256"), ("fallback_arm", .str baselineArm)]

/-- A low-risk row with features of the current schema. -/
structure FeatureRow (row d : Dict F) : Prop where
  risk : ∃ text, E.strOr row "risk" "" = .ok text ∧ E.lower text = "low"
  features : getKey row "context_features" = .obj d
  normal : ∃ normalized, normalizeContextFeatures E (.obj d) = .ok (some normalized)

/-- What a manifest promises to its readers. -/
structure Binds (m : Dict F) : Prop where
  fields : ∃ raw, getKey m "context_fields" = .arr raw ∧ raw ≠ [] ∧
    ∀ x ∈ raw, ∃ field ∈ featureFields, x = .str field
  identity : ∃ text, canonical E.T (.obj (rawIdentity m)) = .ok text ∧
    getKey m "policy_id" = .str (E.sha256Head text)
  arms : ∃ policy, getKey m "policy" = .obj policy ∧
    ∀ p ∈ policy, ∃ arm ∈ safeExplorationArms, p.2 = .str arm
  agree : ∀ state row d, getKey state "policy_manifest" = .obj m → FeatureRow E row d →
    ∃ arm key, targetArm E state (.obj d) = .ok (arm, key) ∧ desiredManifestAction E row m = .ok arm

/-- A text without white space around it. -/
def TrimmedText (v : Json F) : Prop := ∃ text, v = .str text ∧ strip text = text

/-- The texts of a manifest are as the verification strips them. -/
structure Trimmed (m : Dict F) : Prop where
  fields : ∃ names : List String, getKey m "context_fields" = .arr (names.map .str) ∧ names.Nodup ∧
    ∀ name ∈ names, strip name = name
  policy : ∀ policy, getKey m "policy" = .obj policy → ∀ p ∈ policy, strip p.1 = p.1 ∧ TrimmedText p.2
  cutoff : TrimmedText (getKey m "evidence_cutoff")
  source : TrimmedText (getKey m "source_report_sha256")

/-! ### Trimmed texts -/

theorem sortKeys_eq_str {v : Json F} {s : String} (h : sortKeys v = .str s) : v = .str s := by
  cases v with
  | str t => exact h
  | arr xs => simp at h
  | obj d => simp at h
  | _ => cases h

/-- A policy with its keys in order is what the verification accepts if it is trimmed. -/
theorem validated_of_trimmed {d r : Dict F} (hd : (keys d).Nodup)
    (h : validatePolicy E (.obj d) = .ok r)
    (ht : ∀ p ∈ d, strip p.1 = p.1 ∧ TrimmedText p.2) : sortDict d = r := by
  obtain ⟨d', he, -, -, rfl⟩ := (validatePolicy_eq_ok E).mp h
  cases he
  have hstrip : d.map (stripEntry E) = d := by
    conv_rhs => rw [← List.map_id d]
    refine List.map_congr_left fun p hp => ?_
    obtain ⟨hk, text, hv, hs⟩ := ht p hp
    rw [stripEntry, hk, hv, stripText_str, hs, id, ← hv]
  have hsort : d.map (fun p => (p.1, sortKeys p.2)) = d := by
    conv_rhs => rw [← List.map_id d]
    refine List.map_congr_left fun p hp => ?_
    obtain ⟨-, text, hv, -⟩ := ht p hp
    rw [hv, sortKeys_str, id, ← hv]
  rw [hstrip, ofPairs_eq hd, sortDict, hsort]

/-- An entry of a policy that is accepted as it stands is trimmed. -/
theorem trimmed_of_sorted {d r : Dict F} (h : validatePolicy E (.obj d) = .ok r)
    (hs : sortDict d = r) : ∀ p ∈ d, strip p.1 = p.1 ∧ TrimmedText p.2 := by
  intro p hp
  have hm : (p.1, sortKeys p.2) ∈ r := by
    rw [← hs, sortDict, (perm_sortPairs _).mem_iff]
    exact List.mem_map_of_mem hp
  obtain ⟨q, -, he⟩ := stripEntry_of_mem E h hm
  obtain ⟨hk, hv⟩ := Prod.ext_iff.mp he
  have hk' : p.1 = strip q.1 := hk
  refine ⟨by rw [hk', strip_strip], _, sortKeys_eq_str hv, strip_stripText E q.2⟩

/-! ### The identity -/

section Identity
variable {m : Dict F} {key : Key} {fields : List String} {policy : Dict F} {cutoff source : String}

/-- The identity the verification recomputes is the one that stands in the manifest. -/
structure SameIdentity (m : Dict F) (fields : List String) (policy : Dict F) (cutoff source : String) :
    Prop where
  fields : sortKeys (getKey m "context_fields") = .arr (fields.map .str)
  policy : sortKeys (getKey m "policy") = .obj policy
  cutoff : getKey m "evidence_cutoff" = .str cutoff
  source : getKey m "source_report_sha256" = .str source

theorem sortKeys_texts (names : List String) :
    sortKeys (.arr (names.map .str) : Json F) = .arr (names.map .str) := by
  rw [sortKeys_arr, List.map_map]
  rfl

theorem wellFormed_rawIdentity (hm : wellFormed (.obj m) = true) :
    wellFormed (.obj (rawIdentity m)) = true := by
  rw [wellFormed_obj, rawIdentity]
  refine ⟨by simp [keys], ?_⟩
  simp only [List.forall_mem_cons]
  exact ⟨rfl, wellFormed_getKey hm _, wellFormed_getKey hm _, wellFormed_getKey hm _,
    wellFormed_getKey hm _, rfl, by simp⟩

theorem canonical_rawIdentity_iff (hm : wellFormed (.obj m) = true) (hp : IsPolicy policy)
    {text : String} (ht : canonical E.T (.obj (identityPayload fields policy cutoff source)) = .ok text) :
    canonical E.T (.obj (rawIdentity m)) = .ok text ↔ SameIdentity m fields policy cutoff source := by
  have hw := wellFormed_rawIdentity hm
  have hw' := wellFormed_identity fields cutoff source hp
  constructor
  · intro h
    have he := canonical_eq_canonical E.T hw hw' h ht
    rw [sortKeys_obj', sortKeys_obj', Json.obj.injEq] at he
    have hk : ∀ k, sortKeys (getKey (rawIdentity m) k) =
        sortKeys (getKey (identityPayload fields policy cutoff source) k) := fun k => by
      rw [← getKey_sortDict ((wellFormed_obj _).mp hw).1, he,
        getKey_sortDict ((wellFormed_obj _).mp hw').1]
    obtain ⟨g1, g2, g3⟩ := getKey_identity fields cutoff source (r := policy)
    have hpol := hk "policy"
    have hcut := hk "evidence_cutoff"
    have hsrc := hk "source_report_sha256"
    rw [g1, sortKeys_obj', sortDict_policy hp] at hpol
    rw [g2, sortKeys_str] at hcut
    rw [g3, sortKeys_str] at hsrc
    exact ⟨(hk "context_fields").trans (sortKeys_texts fields), hpol, sortKeys_eq_str hcut,
      sortKeys_eq_str hsrc⟩
  · intro h
    rw [← ht, ← canonical_sortKeys, ← canonical_sortKeys E.T (.obj (identityPayload ..))]
    have hsort : (rawIdentity m).map (fun p => (p.1, sortKeys p.2)) =
        (identityPayload fields policy cutoff source).map fun p => (p.1, sortKeys p.2) := by
      simp only [rawIdentity, identityPayload, List.map_cons, List.map_nil, h.fields, h.policy,
        h.cutoff, h.source, sortKeys_str, sortKeys_texts, sortKeys_obj', sortDict_policy hp]
    rw [sortKeys_obj', sortKeys_obj', sortDict, sortDict, hsort]

end Identity

/-! ### The arm of a context -/

theorem texts_of_normalizeFields {d : Dict F} : ∀ {fields : List String} {normalized : Dict F},
    normalizeFields E d fields = .ok (some normalized) → ∀ p ∈ normalized, ∃ s, p.2 = .str s
  | [], normalized, h => by
    cases h
    simp
  | field :: fields, normalized, h => by
    unfold normalizeFields at h
    split at h
    · cases h
    · obtain ⟨text, -, h⟩ := bind_eq_ok.mp h
      dsimp only at h
      split_ifs at h with hblank
      · cases h
      obtain ⟨rest, hrest, h⟩ := bind_eq_ok.mp h
      cases rest with
      | none => cases h
      | some rest =>
        cases h
        simp only [List.forall_mem_cons]
        exact ⟨⟨_, rfl⟩, texts_of_normalizeFields hrest⟩

/-- Features of the current schema have a key. -/
theorem fieldsKey_isOk {d normalized : Dict F} {raw : List (Json F)} {fields : List String}
    (hn : normalizeContextFeatures E (.obj d) = .ok (some normalized))
    (hv : validateContextFields E raw = .ok fields) : ∃ key, fieldsKey E (.obj d) raw = .ok key := by
  have hm : raw.mapM E.str = .ok (raw.map (strText E.T E.isPrintable)) :=
    (mapM_str_eq_ok E).mpr ⟨((validateContextFields_eq_ok E).mp hv).1, rfl⟩
  have htexts : ∀ p ∈ normalized, ∃ s, p.2 = .str s := texts_of_normalizeFields E hn
  have hp : printable E.T.toFloatText true (contextPayload normalized fields) = true := by
    rw [contextPayload, printable_obj]
    intro p hp
    obtain ⟨field, -, rfl⟩ := List.mem_map.mp (mem_ofPairs hp)
    show printable E.T.toFloatText true ((lookup field normalized).getD .null) = true
    cases hl : lookup field normalized with
    | none => rfl
    | some v =>
      obtain ⟨s, hs⟩ := htexts _ (mem_of_lookup hl)
      have hv : v = .str s := hs
      rw [hv]
      rfl
  rw [fieldsKey, hm]
  simp only [bind, Except.bind, contextKey, (validate_texts E hm).trans hv, hn, jsonDumps, dumps,
    printable_sortKeys, hp, if_true]
  exact ⟨_, rfl⟩

/-- Runtime and evaluation find the same arm if the arms of the policy are literally safe. -/
theorem agree_of_arms {m policy : Dict F} {raw : List (Json F)} {fields : List String}
    (hraw : getKey m "context_fields" = .arr raw) (hv : validateContextFields E raw = .ok fields)
    (hpol : getKey m "policy" = .obj policy)
    (harms : ∀ p ∈ policy, ∃ arm ∈ safeExplorationArms, p.2 = .str arm) {state row d : Dict F}
    (hs : getKey state "policy_manifest" = .obj m) (hrow : FeatureRow E row d) :
    ∃ arm key, targetArm E state (.obj d) = .ok (arm, key) ∧ desiredManifestAction E row m = .ok arm := by
  obtain ⟨normalized, hn⟩ := hrow.normal
  obtain ⟨risk, hrisk, hlow⟩ := hrow.risk
  obtain ⟨key, hkey⟩ := fieldsKey_isOk E hn hv
  have htext : ∃ arm ∈ safeExplorationArms, E.strOr policy key baselineArm = .ok arm := by
    unfold Env.strOr
    cases hl : lookup key policy with
    | none => exact ⟨baselineArm, by decide, rfl⟩
    | some v =>
      obtain ⟨arm, harm, hv⟩ := harms _ (mem_of_lookup hl)
      have hv : v = .str arm := hv
      exact ⟨arm, harm, by rw [hv]; rfl⟩
  obtain ⟨arm, harm, htext⟩ := htext
  have hstrip : ∀ a ∈ safeExplorationArms, strip a = a := by decide
  have hcatch : catchValueError (fieldsKey E (.obj d) raw) = .ok (some key) :=
    catchValueError_some.mpr hkey
  refine ⟨arm, some key, ?_, ?_⟩
  · unfold targetArm
    simp only [hs, hraw, hpol, hcatch, bind, Except.bind, htext, hstrip arm harm]
    simp [harm, pure, Except.pure]
  · unfold desiredManifestAction
    simp only [hrisk, bind, Except.bind, hlow, hraw, hpol, hrow.features, hkey, htext]
    simp [harm, pure, Except.pure]

/-! ### What a valid manifest binds -/

theorem names_of_sortKeys {raw : List (Json F)} {names : List String}
    (h : sortKeys (.arr raw) = .arr (names.map .str)) : raw = names.map .str := by
  rw [sortKeys_arr, Json.arr.injEq] at h
  refine List.ext_getElem ?_ fun i h1 h2 => ?_
  · simpa using congrArg List.length h
  · have hi := congrArg (fun xs : List (Json F) => xs[i]?) h
    simp only [List.getElem?_map] at hi
    rw [List.length_map] at h2
    rw [List.getElem?_eq_getElem h1, List.getElem?_eq_getElem h2, Option.map_some, Option.map_some,
      Option.some.injEq] at hi
    rw [List.getElem_map]
    exact sortKeys_eq_str hi

/-- **A valid manifest binds its policy if and only if it is trimmed.** -/
theorem binds_iff_trimmed (hinj : Function.Injective E.sha256Head) {m : Dict F} {key : Key}
    (hm : wellFormed (.obj m) = true) {fields : List String} {policy : Dict F} {cutoff source : String}
    (h : Verified E m key fields policy cutoff source) : Binds E m ↔ Trimmed m := by
  obtain ⟨ctext, hct, hcut⟩ := h.cutoffOf
  obtain ⟨stext, hst, hsrc⟩ := h.sourceOf
  have hp := isPolicy_of_validatePolicy E h.policyOf
  obtain ⟨d, hd, -, hsafe, -⟩ := (validatePolicy_eq_ok E).mp h.policyOf
  have hpol := hd ▸ h.policyOf
  obtain ⟨text, ht, -⟩ := policyId_eq_ok E fields cutoff source hp
  -- With a list of fields, the id of the manifest is that of the recomputed identity.
  have hid : (∃ raw, getKey m "context_fields" = .arr raw) →
      getKey m "policy_id" = .str (E.sha256Head text) := by
    intro hraw
    obtain ⟨text', ht', hid⟩ := (policyIdErrors_eq_nil E hp (fields_ne_nil E h.fieldsOf hraw)
      (policy_ne_nil E h.policyOf) h.cutoff_ne h.source_ne).mp h.idOf
    rw [ht, Except.ok.injEq] at ht'
    rw [hid, ht']
  constructor
  · intro hb
    obtain ⟨raw, hraw, -, -⟩ := hb.fields
    obtain ⟨text', ht', hid'⟩ := hb.identity
    rw [hid ⟨raw, hraw⟩, Json.str.injEq] at hid'
    rw [← hinj hid'] at ht'
    have hsame := (canonical_rawIdentity_iff E hm hp ht).mp ht'
    obtain ⟨-, -, -, hfields⟩ : (∀ x ∈ raw, _) ∧ raw ≠ [] ∧ (∀ x ∈ raw, _) ∧
        fields = (raw.map (stripText E)).eraseDups := by
      rcases h.fieldsOf with ⟨raw', hr, hv⟩ | ⟨hno, -⟩
      · cases hraw.symm.trans hr
        exact (validateContextFields_eq_ok E).mp hv
      · exact absurd hraw (hno raw)
    refine ⟨⟨fields, ?_, ?_, fun name hname => ?_⟩, fun d' hd' => ?_, ⟨cutoff, hsame.cutoff, ?_⟩,
      ⟨source, hsame.source, ?_⟩⟩
    · have hf := hsame.fields
      rw [hraw] at hf
      rw [hraw, names_of_sortKeys hf]
    · rw [hfields]
      exact nodup_eraseDups _ _ le_rfl
    · rw [hfields] at hname
      obtain ⟨x, -, rfl⟩ := List.mem_map.mp (List.mem_eraseDups.mp hname)
      exact strip_stripText E x
    · cases hd.symm.trans hd'
      have hs := hsame.policy
      rw [hd, sortKeys_obj', Json.obj.injEq] at hs
      exact trimmed_of_sorted E hpol hs
    · rw [← hcut, strip_strip]
    · rw [← hsrc, strip_strip]
  · intro htr
    obtain ⟨names, hraw, hnodup, hstrip⟩ := htr.fields
    have hv : validateContextFields E (names.map .str) = .ok fields := by
      rcases h.fieldsOf with ⟨raw, hr, hv⟩ | ⟨hno, -⟩
      · cases hraw.symm.trans hr
        exact hv
      · exact absurd hraw (hno _)
    obtain ⟨-, hne, hknown, hfields⟩ := (validateContextFields_eq_ok E).mp hv
    have hnames : fields = names := by
      rw [hfields, List.map_map]
      have hmap : names.map (stripText E ∘ Json.str) = names := by
        conv_rhs => rw [← List.map_id names]
        exact List.map_congr_left hstrip
      rw [hmap, eraseDups_of_nodup hnodup]
    have htrim := htr.policy d hd
    have harms : ∀ p ∈ d, ∃ arm ∈ safeExplorationArms, p.2 = .str arm := by
      intro p hp
      obtain ⟨-, arm, hv, hs⟩ := htrim p hp
      have harm := (hsafe p hp).arm
      rw [hv, stripText_str, hs] at harm
      exact ⟨arm, harm, hv⟩
    have hsame : SameIdentity m fields policy cutoff source := by
      obtain ⟨c, hc, hcs⟩ := htr.cutoff
      obtain ⟨s, hs, hss⟩ := htr.source
      have hc' := (lookup_of_strOr E hct (hcut ▸ h.cutoff_ne)).2
      have hs' := (lookup_of_strOr E hst (hsrc ▸ h.source_ne)).2
      rw [hcut, hc, stripText_str, hcs] at hc'
      rw [hsrc, hs, stripText_str, hss] at hs'
      refine ⟨by rw [hraw, sortKeys_texts, hnames], ?_, by rw [hc, hc'], by rw [hs, hs']⟩
      rw [hd, sortKeys_obj', validated_of_trimmed E (nodup_of_getKey hm hd) hpol htrim]
    refine ⟨⟨_, hraw, by simpa using hne, ?_⟩, ⟨text, ?_, hid ⟨_, hraw⟩⟩, ⟨d, hd, harms⟩,
      fun state row features hs hrow => agree_of_arms E hraw hv hd harms hs hrow⟩
    · rw [List.forall_mem_map]
      intro name hname
      have hk := hknown _ (List.mem_map_of_mem hname)
      rw [stripText_str, hstrip name hname] at hk
      exact ⟨name, hk, rfl⟩
    · exact (canonical_rawIdentity_iff E hm hp ht).mpr hsame

/-- **What is created is valid, and a valid manifest binds its policy if and only if it is trimmed.** -/
theorem binds_iff (hne : ∀ s, E.sha256 s ≠ "") (hinj : Function.Injective E.sha256Head) :
    (∀ report key now m, createPolicyManifest E report key now = .ok m →
      ∃ c, verifyPolicyManifest E m key = .ok c ∧ c.valid = true) ∧
    ∀ m key, wellFormed (.obj m) = true →
      (∃ c, verifyPolicyManifest E m key = .ok c ∧ c.valid = true) → (Binds E m ↔ Trimmed m) := by
  refine ⟨fun report key now m h => ?_, fun m key hm hv => ?_⟩
  · obtain ⟨fields, policy, cutoff, source, h, -⟩ := verified_of_create E hne h
    exact (Manifest.verify_iff E).mpr ⟨fields, policy, cutoff, source, h⟩
  · obtain ⟨fields, policy, cutoff, source, h⟩ := (Manifest.verify_iff E).mp hv
    exact binds_iff_trimmed E hinj hm h

/-- What is created is trimmed. -/
theorem trimmed_of_create {report m : Dict F} {key : Key} {now : String}
    (h : createPolicyManifest E report key now = .ok m) : Trimmed m := by
  obtain ⟨raw, fields, policy, cutoff, source, id, text, -, hf, hp, -, hs, -, -, rfl⟩ := create_entries E h
  obtain ⟨digest, rfl⟩ := hex_of_sha256Json E hs
  obtain ⟨-, -, -, rfl⟩ := (validateContextFields_eq_ok E).mp hf
  refine ⟨⟨_, rfl, nodup_eraseDups _ _ le_rfl, fun name hname => ?_⟩, fun policy' hpol p hmem => ?_,
    ⟨_, rfl, strip_strip _⟩, ⟨_, rfl, strip_hex (E.sha256_hex digest)⟩⟩
  · obtain ⟨x, -, rfl⟩ := List.mem_map.mp (List.mem_eraseDups.mp hname)
    exact strip_stripText E x
  · have he : policy = policy' := Json.obj.inj hpol
    subst he
    obtain ⟨d, hd, -, -, -⟩ := (validatePolicy_eq_ok E).mp hp
    obtain ⟨q, -, rfl⟩ := stripEntry_of_mem E (hd ▸ hp) hmem
    exact ⟨strip_strip _, _, rfl, strip_stripText E q.2⟩

/-! ### Two manifests -/

section Samples

/-- An eligible report. -/
def policyReport : Dict F :=
  [("scope", .str "contextual-retrieval-policy-development"),
    ("promotion", .obj [("eligible_for_shadow", .bool true)]),
    ("feature_schema_version", .str featureSchemaVersion), ("context_fields", .arr [.str "intent"]),
    ("development_policy", .obj [("low", .str "source_rank")]),
    ("evidence_cutoff", .str "2026-09-01")]

theorem policyReport_created : ∃ m, createPolicyManifest E policyReport [1] "2026-09-02" = .ok m := by
  have hintent : strip "intent" = "intent" := by decide
  have hlow : strip "low" = "low" := by decide
  have harm : strip "source_rank" = "source_rank" := by decide
  have hcut : strip "2026-09-01" ≠ "" := by decide
  have hf : validateContextFields E [.str "intent"] = .ok ["intent"] := by
    refine (validateContextFields_eq_ok E).mpr ⟨by simp [printable], by simp, ?_, ?_⟩
    · rw [List.forall_mem_singleton, stripText_str, hintent]
      decide
    · rw [List.map_singleton, stripText_str, hintent]
      decide
  have hp : validatePolicy E (.obj [("low", .str "source_rank")]) =
      .ok [("low", .str "source_rank")] := by
    refine (validatePolicy_eq_ok E).mpr ⟨_, rfl, by simp, ?_, ?_⟩
    · rw [List.forall_mem_singleton]
      refine ⟨rfl, ?_, ?_⟩
      · rw [hlow]
        decide
      · rw [stripText_str, harm]
        decide
    · rw [List.map_singleton, stripEntry, stripText_str, hlow, harm]
      rfl
  exact createPolicyManifest_isOk E "2026-09-02" (by simp) (by simp [same, policyReport, getKey, lookup])
    (by simp [eligibleForShadow, policyReport, getKey, lookup, truthy])
    (by simp [same, policyReport, getKey, lookup]) hf hp rfl hcut rfl

/-- The sample report's manifest is valid and binds its policy. -/
theorem policyReport_binds : ∃ m, createPolicyManifest platform policyReport [1] "2026-09-02" = .ok m ∧
    (∃ c, verifyPolicyManifest platform m [1] = .ok c ∧ c.valid = true) ∧ Binds platform m := by
  obtain ⟨m, hm⟩ := policyReport_created platform
  have hw := wellFormed_create platform (by decide) hm
  obtain ⟨h1, h2⟩ := binds_iff platform digest_ne digest_injective
  have hv := h1 policyReport [1] "2026-09-02" m hm
  exact ⟨m, hm, hv, (h2 m [1] hw hv).mpr (trimmed_of_create platform hm)⟩

/-- The manifest of the sample report can be deployed. -/
theorem policyReport_deployed (hne : ∀ s, E.sha256 s ≠ "") {a : CreateArgs F} (now : String)
    (happroved : strip a.approvedBy ≠ "") (hargs : checkArgs E a = .ok ())
    (hguard : printable E.T.toFloatText true (.obj (guardrailEntries E a)) = true) :
    ∃ m report first, wellFormed (.obj m) = true ∧
      createDeploymentState E [] m report [1] a now = .ok first := by
  obtain ⟨m, hm⟩ := policyReport_created E
  have hw : wellFormed (.obj m) = true := wellFormed_create E (by simp [policyReport, keys]) hm
  obtain ⟨fields, policy, cutoff, source, hv, hraw, -, hcut, -⟩ := verified_of_create E hne hm
  obtain ⟨_, fields', policy', cutoff', source', id, text, -, -, -, -, -, -, ht, rfl⟩ := create_entries E hm
  have hprint := ((canonical_eq_ok E.T).mp ht).1
  set m := setKey "signature" (signatureEntry E [1] text) _ with hmdef
  have hid : getKey m "policy_id" = .str id := by
    rw [hmdef, getKey_setKey_ne (by decide)]
    rfl
  let report : Dict F := [("policy_id", .str id), ("evidence_cutoff", .str cutoff),
    ("shadow_gate", .obj [("eligible_for_manual_promotion_review", .bool true)]),
    ("manifest_verification", .obj [("valid", .bool true)]),
    ("execution", .obj [("policy_received_runtime_traffic", .bool false)])]
  have hshadow : shadowEligible E m report = true := by
    rw [shadowEligible, hid, hcut]
    simp [report, getKey, lookup, objOf?, truthy]
  obtain ⟨first, hfirst⟩ := Creation.create_isOk E now (by simp)
    ((Manifest.verify_iff E).mpr ⟨fields, policy, cutoff, source, hv⟩)
    (printable_setKey hprint "signature" rfl) hraw rfl hshadow happroved hargs hguard
  exact ⟨m, report, first, hw, hfirst⟩

/-- The unsigned entries of a manifest without fields. -/
def bareEntries : Dict Cell :=
  eraseKey "context_fields" (manifestEntries [] [] [("low", .str "source_rank")] "2026-09-01" "00" "00"
    "2026-09-02")

/-- A signed manifest without fields, whose policy id is no digest of it. -/
def bareManifest : Dict Cell :=
  setKey "signature" (signatureEntry platform [1] (canonicalText platform.T (.obj bareEntries)))
    bareEntries

/-- **A manifest without fields is valid, but does not bind its policy.** -/
theorem bareManifest_valid : wellFormed (.obj bareManifest) = true ∧
    (∃ c, verifyPolicyManifest platform bareManifest [1] = .ok c ∧ c.valid = true) ∧
    ¬ Binds platform bareManifest := by
  have hnone : getKey bareManifest "context_fields" = .null := by
    rw [bareManifest, getKey_setKey_ne (by decide)]
    decide
  have hp : validatePolicy platform (.obj [("low", .str "source_rank")]) =
      .ok [("low", .str "source_rank")] := by decide
  have hd : canonical platform.T (.obj bareEntries) = .ok (canonicalText platform.T (.obj bareEntries)) :=
    (canonical_eq_ok platform.T).mpr ⟨rfl, rfl⟩
  refine ⟨wellFormed_setKey (by decide) _ (by decide), (Manifest.verify_iff platform).mpr
    ⟨[], [("low", .str "source_rank")], "2026-09-01", "00", {
      signed := signed_setKey platform (by simp) (by decide) hd
      schema := rfl
      featureSchema := rfl
      fieldsOf := Or.inr ⟨by simp [hnone], rfl⟩
      policyOf := hp
      cutoffOf := ⟨"2026-09-01", rfl, by decide⟩
      cutoff_ne := by decide
      sourceOf := ⟨"00", rfl, by decide⟩
      source_ne := by decide
      idOf := rfl
      status := rfl
      fallback := rfl
      rollback := ?_
      locked := ?_
      inactive := rfl }⟩, fun hb => ?_⟩
  · show differs platform _ "target_arm" baselineArm = false
    rw [differs_eq_false]
    rfl
  · show pyEq platform.T lockedRisks lockedRisks = true
    simp [lockedRisks, pyEq_arr]
  · obtain ⟨raw, hraw, -⟩ := hb.fields
    rw [hnone] at hraw
    cases hraw

end Samples

end ControlPlane.Deployment.Binding
