import ControlPlane.Config.Validation
import ControlPlane.Instance

/-! # The migration of configurations

A configuration of version 1 is put over the defaults of version 2 (`migrateConfig`). Every value that it
sets is found again at its path, and a migrated configuration is not changed by another migration. It is
valid, if it is valid as one of version 2, but for two defaults that its own values do not go with: shares
of sources that it does not name, and the provider id of its semantic retriever (`migration_iff`). -/

namespace ControlPlane.Config.Migration

open ControlPlane.Lib.Value ControlPlane.Lib.Print ControlPlane.Lib.Floats ControlPlane.Lib.Dynamic
open ControlPlane.Lib.Text ControlPlane.Lib.Overlay ControlPlane.Lib.Grid ControlPlane.Environment
open ControlPlane.Instance ControlPlane.Provider.Spec ControlPlane.Config.Validation
open ControlPlane.Retrieval.Budget (positiveInt lanes)

variable {F : Type} (T : FloatSys F)

/-! ### The defaults -/

/-- An array of texts. -/
def strings (texts : List String) : Json F := .arr (texts.map Json.str)

/-- A rational as a float. -/
def rat (q : ℚ) : Json F := .float (T.ofRat q)

def defaultBudget (estimated output : ℤ) : Json F :=
  .obj [("estimated_tokens", .int estimated), ("output_tokens", .int output)]

def defaultBudgets : Dict F :=
  [("answer", defaultBudget 1200 450), ("small", defaultBudget 2500 700), ("full", defaultBudget 6000 1200)]

def defaultClassifier : Dict F :=
  [("high_risk_keywords", strings ["auth", "authentication", "authorization", "security", "payment",
      "billing", "migration", "schema", "database", "delete data", "destructive", "concurrency",
      "race condition", "deploy", "production", "public api", "contract change", "permission", "credential",
      "secret"]),
    ("full_keywords", strings ["refactor", "architecture", "multi-file", "cross-cutting", "end-to-end",
      "redesign", "performance", "distributed", "integration", "implement feature"]),
    ("answer_keywords", strings ["explain", "what is", "how does", "why does", "compare", "difference",
      "where is", "show me", "understand"]),
    ("small_keywords", strings ["rename", "typo", "copy change", "small fix", "one-line", "one line", "adjust",
      "update text"])]

def defaultShares : Dict F :=
  [("hot_cache", rat T (15 / 100)), ("lightweight", rat T (3 / 10)), ("crg", rat T (4 / 10)),
    ("source_fallback", rat T (15 / 100))]

def defaultCrg : Dict F :=
  [("mode", .str "auto"), ("min_lane", .str "full"),
    ("structural_keywords", strings ["caller", "callee", "dependency", "dependents", "impact", "blast radius",
      "flow", "architecture", "tests for", "refactor", "what breaks", "affected"]),
    ("min_source_files", .int 250), ("changed_files_threshold", .int 3)]

def defaultScip : Dict F := [("mode", .str "auto")]

def defaultSemantic : Dict F :=
  [("mode", .str "auto"), ("provider_id", .str "builtin-local"), ("command", .str ""),
    ("timeout_seconds", .int 8), ("max_results", .int 6), ("max_output_bytes", .int 8388608),
    ("env_allowlist", .arr [])]

def defaultSufficiency : Dict F := [("threshold", rat T (72 / 100))]

def defaultSelective : Dict F := [("enabled", .bool true), ("minimum_coverage", rat T (15 / 100))]

def defaultAdaptive : Dict F :=
  [("enabled", .bool true), ("high_sufficiency_fraction", rat T (45 / 100)),
    ("medium_sufficiency_fraction", rat T (7 / 10)), ("minimum_chars", .int 900)]

def defaultSelector : Dict F :=
  [("enabled", .bool true), ("tight_budget_fraction", rat T (3 / 10)),
    ("mandatory_structural_evidence", .bool true), ("max_selector_candidates", .int 200)]

def defaultTelemetry : Dict F := [("mode", .str "mutations")]

def defaultLearning : Dict F :=
  [("mode", .str "off"), ("kill_switch", .bool false), ("exploration_probability", rat T (5 / 100)),
    ("allowed_risks", strings ["low"]), ("eligible_arms", strings safeArms)]

def defaultDeployment : Dict F :=
  [("enabled", .bool false),
    ("state_path", .str "ai-workspace/generated/learning/deployment/active.json"),
    ("signing_key_env", .str "AI_WORKFLOW_POLICY_SIGNING_KEY"), ("auto_rollback", .bool true),
    ("incident_bundles", .bool true)]

def defaultProduction : Dict F :=
  [("enabled", .bool false),
    ("sqlite_path", .str "ai-workspace/generated/learning/production/events.sqlite3"),
    ("busy_timeout_ms", .int 5000)]

def defaultContext : Dict F :=
  [("max_results_per_source", .int 6), ("source_shares", .obj (defaultShares T)), ("crg", .obj defaultCrg),
    ("scip", .obj defaultScip), ("semantic", .obj defaultSemantic), ("external_retrievers", .arr []),
    ("sufficiency", .obj (defaultSufficiency T)), ("selective_retrieval", .obj (defaultSelective T)),
    ("adaptive_budget", .obj (defaultAdaptive T)), ("selector", .obj (defaultSelector T)),
    ("telemetry", .obj defaultTelemetry), ("learning", .obj (defaultLearning T)),
    ("deployment", .obj defaultDeployment), ("production", .obj defaultProduction),
    ("targeted_search", .obj [("max_matches", .int 12), ("max_file_bytes", .int 500000)])]

def defaultHierarchical : Dict F :=
  [("enabled", .bool true), ("max_primary_repositories", .int 2), ("max_graph_expansions", .int 2),
    ("relationships", strings relationships)]

def defaultWorkspace : Dict F :=
  [("roots", .arr []), ("max_roots", .int 4), ("registry", .str "ai-workspace/config/repositories.json"),
    ("repository_graph", .str "ai-workspace/config/repository-graph.json"),
    ("hierarchical_retrieval", .obj defaultHierarchical), ("discovery", .obj defaultDiscovery)]

def defaultOrchestration : Dict F :=
  [("max_agent_slots", .int 4), ("max_crg_calls", .int 6), ("max_graph_depth", .int 3),
    ("review_passes", .int 2), ("verification_passes", .int 2)]

def defaultExecution : Dict F :=
  [("prefer_superpowers_for_full", .bool true), ("native_fallback", .bool true),
    ("superpowers", .obj [("mode", .str "auto")]), ("orchestration_budget", .obj defaultOrchestration)]

def defaultConfig : Dict F :=
  [("version", .int 2), ("budgets", .obj defaultBudgets), ("classifier", .obj defaultClassifier),
    ("context", .obj (defaultContext T)), ("workspace", .obj defaultWorkspace),
    ("execution", .obj defaultExecution), ("handoff", .obj [("max_lines", .int 30)]),
    ("memory", .obj [("max_results", .int 5), ("minimum_confidence", rat T (55 / 100))]),
    ("models", .obj [("answer", .str "fast"), ("small", .str "fast"), ("full_medium", .str "standard"),
      ("full_high", .str "capable")])]

/-! ### The migration -/

variable (E : Env F)

/-- The refusal of a version. -/
def refuseVersion (version : Json F) : Py (Json F) := do
  let shownVersion ← E.str version
  match version with
  | .int n =>
    if currentConfigVersion < n then
      .error (.valueError ("config version " ++ shownVersion ++ " is newer than supported version 2"))
    else .error (.valueError ("unsupported control-plane config version: " ++ shownVersion))
  | _ => .error (.valueError ("unsupported control-plane config version: " ++ shownVersion))

def migrateConfig (data : Json F) : Py (Json F) :=
  match data with
  | .obj raw =>
    let version := getKey raw "version"
    if pyEq E.T version .null then .ok (.obj raw)
    else if pyEq E.T version (.int 1) then
      .ok (.obj (setKey "version" (.int currentConfigVersion)
        (overlay (defaultConfig E.T) (eraseKey "version" raw))))
    else if pyEq E.T version (.int currentConfigVersion) then .ok (.obj raw)
    else refuseVersion E version
  | _ => .error (.valueError "control-plane config must be a JSON object")

/-- A configuration marked as one of version 1. -/
def marked (config : Dict F) : Dict F := setKey "version" (.int 1) config

variable {E}

/-- **Migrating twice** changes nothing more. -/
theorem migrateConfig_idem {data migrated : Json F} (h : migrateConfig E data = .ok migrated) :
    migrateConfig E migrated = .ok migrated := by
  cases data with
  | obj raw =>
    have h0 := h
    rw [migrateConfig] at h
    split_ifs at h with hnull hone htwo
    · rw [← Except.ok.inj h] at h0 ⊢
      exact h0
    · rw [← Except.ok.inj h, migrateConfig, getKey_setKey_self]
      rfl
    · rw [← Except.ok.inj h] at h0 ⊢
      exact h0
    · obtain ⟨shownVersion, -, h⟩ := bind_eq_ok.mp h
      split at h
      · split_ifs at h
      · cases h
  | _ => cases h

/-! ### Checks of overlays -/

/-- A check passes if its first part does and the rest does. -/
theorem then_eq_ok {x y : Py Unit} {u : Unit} :
    (do x; y) = .ok u ↔ x = .ok () ∧ y = .ok () := by
  rw [bind_eq_ok]
  exact ⟨fun ⟨_, hx, hy⟩ => ⟨hx, hy⟩, fun ⟨hx, hy⟩ => ⟨(), hx, hy⟩⟩

section Checks
variable {base upper : Dict F} (h : (keys upper).Nodup)
include h

/-- A check passes on a field of an overlay, if it passes on the upper object and on what lies below. -/
theorem check_overlay {k : String} {x : Json F} (hbase : lookup k base = some x) (hx : ¬ IsObject x)
    {f : Json F → Py Unit} {default default' : Json F} (hdefault : f default = .ok () → f x = .ok ())
    (hover : f (field upper k default) = .ok ()) : f (field (overlay base upper) k default') = .ok () := by
  rw [field_overlay h hbase hx]
  unfold field at hover ⊢
  cases hk : lookup k upper with
  | none =>
    rw [hk] at hover
    exact hdefault hover
  | some v => rwa [hk] at hover

/-- A check that nothing passes without a value passes on the overlay. -/
theorem check_overlay_key {k : String} {x : Json F} (hbase : lookup k base = some x) (hx : ¬ IsObject x)
    {f : Json F → Py Unit} (hnull : f .null ≠ .ok ()) (hover : f (getKey upper k) = .ok ()) :
    f (getKey (overlay base upper) k) = .ok () :=
  check_overlay h hbase hx (fun hdefault => absurd hdefault hnull) hover

/-- A check passes on a section of an overlay, if it passes on the upper one put over the lower one. -/
theorem check_overlay_obj {k : String} {b : Dict F} (hbase : lookup k base = some (.obj b))
    {f : Json F → Py Unit} {default default' : Json F} (hdefault : f default = .ok () → f (.obj b) = .ok ())
    (hobj : ∀ o, lookup k upper = some (.obj o) → f (.obj o) = .ok () → f (.obj (overlay b o)) = .ok ())
    (hover : f (field upper k default) = .ok ()) : f (field (overlay base upper) k default') = .ok () := by
  unfold field at hover ⊢
  rw [lookup_overlay_obj h hbase]
  cases hk : lookup k upper with
  | none =>
    rw [hk] at hover
    exact hdefault hover
  | some v =>
    rw [hk] at hover
    cases v with
    | obj o => exact hobj o hk hover
    | _ => exact hover

theorem objectAt_overlay {k : String} {b o : Dict F} (hbase : lookup k base = some (.obj b))
    (hover : lookup k upper = some (.obj o)) : objectAt (overlay base upper) k = overlay b o := by
  unfold objectAt
  rw [lookup_overlay_obj h hbase, hover]

end Checks

theorem objectAt_of_lookup {d o : Dict F} {k : String} (h : lookup k d = some (.obj o)) :
    objectAt d k = o := by
  rw [objectAt, h]

/-- The sections that there must be are objects. -/
theorem checkSections_iff {d : Dict F} {place : String} : ∀ {names : List String},
    checkSections d names place = .ok () ↔ ∀ name ∈ names, ∃ o, lookup name d = some (.obj o)
  | [] => by simp [checkSections]
  | name :: names => by
    rw [checkSections, bind_eq_ok, List.forall_mem_cons, ← @checkSections_iff d place names]
    have hobject : (∃ o, object (getKey d name) ("missing required section: " ++ place ++ name) = .ok o) ↔
        ∃ o, lookup name d = some (.obj o) := by
      unfold getKey
      cases lookup name d with
      | none => simp [object]
      | some v => cases v <;> simp [object]
    rw [← hobject]
    constructor
    · rintro ⟨o, ho, hnames⟩
      exact ⟨⟨o, ho⟩, hnames⟩
    · rintro ⟨⟨o, ho⟩, hnames⟩
      exact ⟨o, ho, hnames⟩

@[simp] theorem object_bind {α : Type} (o : Dict F) (message : String) (f : Dict F → Py α) :
    (object (.obj o) message >>= f) = f o := rfl

theorem positiveInt_null (name : String) : positiveInt (.null : Json F) name ≠ .ok () := nofun

theorem nonnegativeInt_null (name : String) : nonnegativeInt (.null : Json F) name ≠ .ok () := nofun

theorem checkFraction_null (name : String) : checkFraction E .null name ≠ .ok () := nofun

/-- No trusted field is there. -/
theorem checkUntrusted_iff {d : Dict F} : ∀ {names : List String},
    checkUntrusted d names = .ok () ↔ ∀ name ∈ names, lookup name d = none
  | [] => by simp [checkUntrusted]
  | name :: names => by
    rw [checkUntrusted, then_eq_ok, require_eq_ok, List.forall_mem_cons, Option.isNone_iff_eq_none,
      checkUntrusted_iff]

/-! ### The sections

A section of defaults with a valid one put over it is valid. -/

section Sections
variable {o : Dict F} (h : (keys o).Nodup)
include h

theorem checkScip_overlay (hv : checkScip (.obj o) = .ok ()) :
    checkScip (.obj (overlay defaultScip o)) = .ok () :=
  check_overlay (f := fun v => oneOf v _ _) h rfl id id hv

theorem checkSufficiency_overlay (hv : checkSufficiency E o = .ok ()) :
    checkSufficiency E (overlay (defaultSufficiency E.T) o) = .ok () :=
  check_overlay_key (f := fun v => checkFraction E v _) h rfl id (checkFraction_null _) hv

theorem checkSelective_overlay (hv : checkSelective E (.obj o) = .ok ()) :
    checkSelective E (.obj (overlay (defaultSelective E.T) o)) = .ok () := by
  simp only [checkSelective, object_bind, then_eq_ok] at hv ⊢
  obtain ⟨henabled, hcoverage⟩ := hv
  exact ⟨check_overlay (f := fun v => boolean v _) h rfl id id henabled,
    check_overlay (f := fun v => checkFraction E v _) h rfl id id hcoverage⟩

theorem checkAdaptive_overlay (hv : checkAdaptive E o = .ok ()) :
    checkAdaptive E (overlay (defaultAdaptive E.T) o) = .ok () := by
  simp only [checkAdaptive, then_eq_ok] at hv ⊢
  obtain ⟨hhigh, hmedium, hchars⟩ := hv
  exact ⟨check_overlay_key (f := fun v => checkFraction E v _) h rfl id (checkFraction_null _) hhigh,
    check_overlay_key (f := fun v => checkFraction E v _) h rfl id (checkFraction_null _) hmedium,
    check_overlay_key (f := fun v => positiveInt v _) h rfl id (positiveInt_null _) hchars⟩

theorem checkSelector_overlay (hv : checkSelector E o = .ok ()) :
    checkSelector E (overlay (defaultSelector E.T) o) = .ok () := by
  simp only [checkSelector, then_eq_ok] at hv ⊢
  obtain ⟨henabled, htight, hmandatory, hcandidates⟩ := hv
  exact ⟨check_overlay (f := fun v => boolean v _) h rfl id id henabled,
    check_overlay_key (f := fun v => checkFraction E v _) h rfl id (checkFraction_null _) htight,
    check_overlay (f := fun v => boolean v _) h rfl id id hmandatory,
    check_overlay (f := fun v => positiveInt v _) h rfl id id hcandidates⟩

theorem checkTelemetry_overlay (hv : checkTelemetry o = .ok ()) :
    checkTelemetry (overlay defaultTelemetry o) = .ok () := by
  simp only [checkTelemetry, then_eq_ok, checkUntrusted_iff] at hv ⊢
  obtain ⟨hmode, huntrusted⟩ := hv
  refine ⟨check_overlay (f := fun v => oneOf v _ _) h rfl id id hmode, fun name hname => ?_⟩
  rw [lookup_overlay h, huntrusted name hname]
  have hmissing : ∀ n ∈ trustedRuntimeFields, n ∉ ["mode"] := by decide
  exact lookup_eq_none.mpr (hmissing name hname)

theorem checkProduction_overlay (hv : checkProduction (.obj o) = .ok ()) :
    checkProduction (.obj (overlay defaultProduction o)) = .ok () := by
  simp only [checkProduction, object_bind, then_eq_ok] at hv ⊢
  obtain ⟨henabled, hpath, hbusy⟩ := hv
  exact ⟨check_overlay (f := fun v => boolean v _) h rfl id id henabled,
    check_overlay (f := fun v => relativePath v _) h rfl id id hpath,
    check_overlay (f := fun v => positiveInt v _) h rfl id id hbusy⟩

/-- The defaults of a deployment are those that the checks know. -/
theorem checkDeployment_overlay (hv : checkDeployment E (.obj o) = .ok ()) :
    checkDeployment E (.obj (overlay defaultDeployment o)) = .ok () := by
  rw [checkDeployment, object_bind] at hv ⊢
  · rw [@field_overlay _ _ _ "enabled" h _ rfl id, @field_overlay _ _ _ "auto_rollback" h _ rfl id,
      @field_overlay _ _ _ "incident_bundles" h _ rfl id, @field_overlay _ _ _ "state_path" h _ rfl id,
      @field_overlay _ _ _ "signing_key_env" h _ rfl id]
    exact hv
  · intro h
    cases h
  · intro h
    cases h

theorem checkLearning_overlay (hv : checkLearning E (.obj o) = .ok ()) :
    checkLearning E (.obj (overlay (defaultLearning E.T) o)) = .ok () := by
  rw [checkLearning, object_bind] at hv ⊢
  · rw [@field_overlay _ _ _ "mode" h _ rfl id, @field_overlay _ _ _ "kill_switch" h _ rfl id,
      @field_overlay _ _ _ "exploration_probability" h _ rfl id,
      @field_overlay _ _ _ "allowed_risks" h _ rfl id, @field_overlay _ _ _ "eligible_arms" h _ rfl id]
    cases harms : lookup "eligible_arms" o with
    | some arms =>
      have hsame : ∀ x y : Json F, field o "eligible_arms" x = field o "eligible_arms" y := by
        intro x y
        rw [field, field, harms]
        rfl
      rw [hsame _ (.arr [.str "adaptive_math"])]
      exact hv
    | none =>
      -- the default arms are all the safe ones
      obtain ⟨_, hmode, _, hkill, _, hexploration, risks, hrisks, _, hlow, -⟩ := by
        simpa only [bind_eq_ok] using hv
      have hdefault : field o "eligible_arms" (strings safeArms) = strings safeArms := by
        rw [field, harms]
        rfl
      simp only [bind_eq_ok]
      refine ⟨_, hmode, _, hkill, _, hexploration, risks, hrisks, _, hlow, safeArms, ?_, (), ?_, ?_⟩
      · rw [hdefault]
        rfl
      · rfl
      · rfl
  · intro h
    cases h
  · intro h
    cases h

theorem checkDiscovery_overlay (hv : checkDiscovery (.obj o) = .ok ()) :
    checkDiscovery (.obj (overlay defaultDiscovery o)) = .ok () := by
  simp only [checkDiscovery, object_bind, then_eq_ok] at hv ⊢
  obtain ⟨hdepth, hacceptance, hinclude⟩ := hv
  exact ⟨check_overlay (f := fun v => nonnegativeInt v _) h rfl id id hdepth,
    check_overlay (f := fun v => boolean v _) h rfl id id hacceptance,
    check_overlay (f := fun v => boolean v _) h rfl id id hinclude⟩

theorem checkHierarchical_overlay (hv : checkHierarchical (.obj o) = .ok ()) :
    checkHierarchical (.obj (overlay defaultHierarchical o)) = .ok () := by
  rw [checkHierarchical, object_bind] at hv ⊢
  rw [@field_overlay _ _ _ "enabled" h _ rfl id, @field_overlay _ _ _ "max_primary_repositories" h _ rfl id,
    @field_overlay _ _ _ "max_graph_expansions" h _ rfl id, @field_overlay _ _ _ "relationships" h _ rfl id]
  exact hv

theorem checkOrchestration_overlay (hv : checkOrchestration (.obj o) = .ok ()) :
    checkOrchestration (.obj (overlay defaultOrchestration o)) = .ok () := by
  simp only [checkOrchestration, object_bind, then_eq_ok] at hv ⊢
  obtain ⟨hslots, hcalls, hdepth, hreview, hverification⟩ := hv
  exact ⟨check_overlay_key (f := fun v => positiveInt v _) h rfl id (positiveInt_null _) hslots,
    check_overlay_key (f := fun v => nonnegativeInt v _) h rfl id (nonnegativeInt_null _) hcalls,
    check_overlay_key (f := fun v => positiveInt v _) h rfl id (positiveInt_null _) hdepth,
    check_overlay_key (f := fun v => positiveInt v _) h rfl id (positiveInt_null _) hreview,
    check_overlay_key (f := fun v => positiveInt v _) h rfl id (positiveInt_null _) hverification⟩

end Sections

/-! ### The semantic retriever -/

/-- What names the semantic retriever: its own provider id, or no command and environment of the project that
the default id would be put beside. -/
def Named (E : Env F) (semantic : Dict F) : Prop :=
  (lookup "provider_id" semantic).isSome ∨
    given E (getKey semantic "command") = false ∧ listGiven E (getKey semantic "env_allowlist") = false

/-- A check of a retriever reads no more of it than its id, its command and its environment. -/
theorem checkProvider_congr {d e : Dict F} {where_ : String}
    (hid : getKey d "provider_id" = getKey e "provider_id")
    (hcommand : getKey d "command" = getKey e "command" ∨
      given E (getKey d "command") = false ∧ given E (getKey e "command") = false)
    (hlist : listGiven E (getKey d "env_allowlist") = listGiven E (getKey e "env_allowlist")) :
    checkProvider E d where_ = checkProvider E e where_ := by
  unfold checkProvider textOr
  rw [hid, hlist]
  rcases hcommand with hcommand | ⟨hd, he⟩
  · rw [hcommand]
  · dsimp only
    rw [hd, he]
    rfl

section Semantic
variable {o : Dict F} (h : (keys o).Nodup)
include h

/-- The command of a default is none. -/
theorem command_overlay :
    getKey (overlay defaultSemantic o) "command" = getKey o "command" ∨
      given E (getKey (overlay defaultSemantic o) "command") = false ∧
        given E (getKey o "command") = false := by
  have hfield : getKey (overlay defaultSemantic o) "command" = field o "command" (.str "") :=
    field_overlay h rfl id _
  rw [hfield, field, getKey]
  cases lookup "command" o with
  | none => exact Or.inr ⟨rfl, rfl⟩
  | some v => exact Or.inl rfl

theorem envAllowlist_overlay :
    listGiven E (getKey (overlay defaultSemantic o) "env_allowlist") =
      listGiven E (getKey o "env_allowlist") := by
  have hfield : getKey (overlay defaultSemantic o) "env_allowlist" = field o "env_allowlist" (.arr []) :=
    field_overlay h rfl id _
  rw [hfield, field, getKey]
  cases lookup "env_allowlist" o with
  | none => rfl
  | some v => rfl

theorem checkProvider_overlay {where_ : String} (hv : checkProvider E o where_ = .ok ()) :
    checkProvider E (overlay defaultSemantic o) where_ = .ok () ↔ Named E o := by
  have hid : getKey (overlay defaultSemantic o) "provider_id" =
      field o "provider_id" (.str "builtin-local") := field_overlay h rfl id _
  unfold Named
  cases hl : lookup "provider_id" o with
  | some v =>
    have hsame : getKey (overlay defaultSemantic o) "provider_id" = getKey o "provider_id" := by
      rw [hid, field, getKey, hl]
      rfl
    rw [checkProvider_congr hsame (command_overlay h) (envAllowlist_overlay h)]
    exact ⟨fun _ => Or.inl rfl, fun _ => hv⟩
  | none =>
    have hdefault : getKey (overlay defaultSemantic o) "provider_id" = .str "builtin-local" := by
      rw [hid, field, hl]
      rfl
    have hgiven : given E (getKey (overlay defaultSemantic o) "command") = given E (getKey o "command") := by
      rcases command_overlay (E := E) h with hcommand | ⟨h1, h2⟩
      · rw [hcommand]
      · rw [h1, h2]
    have htext : textOr E (overlay defaultSemantic o) "provider_id" "" = .ok "builtin-local" := by
      rw [textOr, hdefault]
      rfl
    have hstrip : (strip "builtin-local" != "") = true := by decide +kernel
    rw [checkProvider, htext, envAllowlist_overlay h]
    dsimp only
    rw [hgiven]
    cases given E (getKey o "command") <;> cases listGiven E (getKey o "env_allowlist") <;>
      simp [bind, Except.bind, pure, Except.pure, require, hstrip]

theorem checkSemantic_overlay (hv : checkSemantic E o = .ok ()) :
    checkSemantic E (overlay defaultSemantic o) = .ok () ↔ Named E o := by
  simp only [checkSemantic, then_eq_ok] at hv ⊢
  obtain ⟨hmode, hprovider, htimeout, hresults, hbytes, henv⟩ := hv
  rw [checkProvider_overlay h hprovider]
  refine ⟨fun hm => hm.2.1, fun hnamed => ⟨?_, hnamed, ?_, ?_, ?_, ?_⟩⟩
  · exact check_overlay (f := fun v => oneOf v _ _) h rfl id id hmode
  · exact check_overlay (f := fun v => positiveIntOf E v _) h rfl id (fun _ => rfl) htimeout
  · exact check_overlay (f := fun v => positiveIntOf E v _) h rfl id (fun _ => rfl) hresults
  · exact check_overlay (f := fun v => positiveIntOf E v _) h rfl id id hbytes
  · rw [field_overlay h rfl id]
    exact henv

end Semantic

/-! ### The shares of the sources -/

/-- The default shares with given ones in their places, and then the other given ones. -/
def filledShares (shares : Dict F) : Dict F :=
  ((defaultShares T).map fun p => (p.1, (lookup p.1 shares).getD p.2)) ++
    shares.filter fun p => !(keys (defaultShares T)).contains p.1

/-- The shares, filled up, are not more than the whole. -/
def Fits (E : Env F) (total : List F → Num) (shares : Dict F) : Prop :=
  ∃ values, shareValues E (filledShares E.T shares) = .ok values ∧
    (E.T.lit (1000001 / 1000000)).lt (total values) = false

variable {total : List F → Num}

/-- A share is a number. -/
theorem shareValues_flat : ∀ {shares : Dict F} {values : List F}, shareValues E shares = .ok values →
    ∀ p ∈ shares, ¬ IsObject p.2
  | [], _, _ => by simp
  | (name, v) :: shares, _, h => by
    rw [shareValues, bind_eq_ok] at h
    obtain ⟨x, hx, h⟩ := h
    obtain ⟨xs, hxs, -⟩ := bind_eq_ok.mp h
    rw [List.forall_mem_cons]
    refine ⟨fun hobj => ?_, shareValues_flat hxs⟩
    cases v with
    | obj d => cases hx
    | _ => exact hobj

theorem filledShares_ne_nil (shares : Dict F) : (filledShares T shares).isEmpty = false := rfl

theorem checkShares_filled {shares : Dict F} :
    checkShares E total (.obj (filledShares E.T shares)) = .ok () ↔ Fits E total shares := by
  simp only [checkShares, object_bind, then_eq_ok]
  rw [filledShares_ne_nil, bind_eq_ok]
  simp only [require_eq_ok, Bool.not_false, true_and, Bool.not_eq_true', Fits]

theorem checkShares_overlay {o : Dict F} (h : (keys o).Nodup) (hv : checkShares E total (.obj o) = .ok ()) :
    checkShares E total (.obj (overlay (defaultShares E.T) o)) = .ok () ↔ Fits E total o := by
  simp only [checkShares, object_bind, then_eq_ok] at hv
  obtain ⟨-, hv⟩ := hv
  obtain ⟨values, hvalues, -⟩ := bind_eq_ok.mp hv
  have hnodup : (keys (defaultShares E.T)).Nodup := by
    have hkeys : (["hot_cache", "lightweight", "crg", "source_fallback"] : List String).Nodup := by decide
    exact hkeys
  have hfilled : overlay (defaultShares E.T) o = filledShares E.T o :=
    overlay_flat hnodup h (shareValues_flat hvalues)
  rw [hfilled, checkShares_filled]

/-! ### The configuration -/

theorem nodup_section {d o : Dict F} (h : wellFormed (.obj d) = true) {k : String}
    (hk : lookup k d = some (.obj o)) : (keys o).Nodup :=
  ((wellFormed_obj o).mp (wellFormed_lookup h hk)).1

theorem checkSections_overlay {base upper : Dict F} (h : (keys upper).Nodup) {names : List String}
    {place : String} (hbase : checkSections base names place = .ok ())
    (hover : checkSections upper names place = .ok ()) :
    checkSections (overlay base upper) names place = .ok () := by
  rw [checkSections_iff] at hbase hover ⊢
  intro name hname
  obtain ⟨b, hb⟩ := hbase name hname
  obtain ⟨o, ho⟩ := hover name hname
  exact ⟨overlay b o, by rw [lookup_overlay_obj h hb, ho]⟩

/-- What a check passes that reads an object is one. -/
theorem isObject_of_check {v : Json F} {message : String} {f : Dict F → Py Unit}
    (h : (object v message >>= f) = .ok ()) : ∃ o, v = .obj o := by
  cases v with
  | obj o => exact ⟨o, rfl⟩
  | _ => cases h

theorem checkFraction_ofRat (hone : E.T.lit 1 = .fin 1) {q : ℚ} (h0 : 0 ≤ q) (h1 : q ≤ 1) (name : String) :
    checkFraction E (rat E.T q) name = .ok () := by
  have hzero : (Num.fin 0).le (E.T.view (E.T.ofRat q)) = true := by
    rw [← E.T.ofRat_zero]
    exact E.T.ofRat_mono 0 q h0
  have hle : (E.T.view (E.T.ofRat q)).le (.fin 1) = true := by
    rw [← hone]
    exact E.T.ofRat_mono q 1 h1
  rw [rat, checkFraction, fraction, unitRange, hzero, hle]
  rfl

theorem checkLearning_default (hone : E.T.lit 1 = .fin 1) :
    checkLearning E (.obj (defaultLearning E.T)) = .ok () := by
  have hexploration : checkFraction E (field (defaultLearning E.T) "exploration_probability"
      (.float (E.T.ofRat (5 / 100)))) "context.learning.exploration_probability" = .ok () :=
    checkFraction_ofRat hone (by norm_num) (by norm_num) _
  have hlow : (E.lower "low" == "low") = true := by
    rw [E.lower_small _ (by decide)]
    rfl
  rw [checkLearning, object_bind]
  · simp only [bind_eq_ok]
    exact ⟨(), rfl, (), rfl, (), hexploration, ["low"], rfl, (), by simp [hlow], safeArms, rfl, (), rfl, rfl⟩
  · intro h
    cases h

theorem checkContext_overlay (hone : E.T.lit 1 = .fin 1) {o : Dict F} (h : wellFormed (.obj o) = true)
    (hv : checkContext E total o = .ok ()) :
    checkContext E total (overlay (defaultContext E.T) o) = .ok () ↔
      Fits E total (objectAt o "source_shares") ∧ Named E (objectAt o "semantic") := by
  have hkeys := ((wellFormed_obj o).mp h).1
  simp only [checkContext, then_eq_ok] at hv ⊢
  obtain ⟨hshares, hsections, hretrievers, hscip, hsemantic, hsufficiency, hselective, hadaptive, hselector,
    htelemetry, hlearning, hdeployment, hproduction⟩ := hv
  have hobjects := checkSections_iff.mp hsections
  obtain ⟨shares, hsharesObj⟩ := isObject_of_check hshares
  have hsharesAt := lookup_of_getKey hsharesObj nofun
  have hsharesOver : getKey (overlay (defaultContext E.T) o) "source_shares" =
      .obj (overlay (defaultShares E.T) shares) := by
    rw [getKey, lookup_overlay_obj hkeys rfl, hsharesAt]
    rfl
  obtain ⟨semantic, hsem⟩ := hobjects "semantic" (by decide)
  obtain ⟨sufficiency, hsuf⟩ := hobjects "sufficiency" (by decide)
  obtain ⟨adaptive, hada⟩ := hobjects "adaptive_budget" (by decide)
  obtain ⟨selector, hsel⟩ := hobjects "selector" (by decide)
  obtain ⟨telemetry, htel⟩ := hobjects "telemetry" (by decide)
  rw [objectAt_of_lookup hsem] at hsemantic ⊢
  rw [objectAt_of_lookup hsuf] at hsufficiency
  rw [objectAt_of_lookup hada] at hadaptive
  rw [objectAt_of_lookup hsel] at hselector
  rw [objectAt_of_lookup htel] at htelemetry
  rw [hsharesObj] at hshares
  rw [hsharesOver, objectAt_of_lookup hsharesAt, objectAt_overlay hkeys rfl hsem,
    objectAt_overlay hkeys rfl hsuf, objectAt_overlay hkeys rfl hada, objectAt_overlay hkeys rfl hsel,
    objectAt_overlay hkeys rfl htel, checkShares_overlay (nodup_section h hsharesAt) hshares,
    checkSemantic_overlay (nodup_section h hsem) hsemantic]
  refine ⟨fun hm => ⟨hm.1, hm.2.2.2.2.1⟩, fun hm => ⟨hm.1, checkSections_overlay hkeys rfl hsections, ?_, ?_,
    hm.2, checkSufficiency_overlay (nodup_section h hsuf) hsufficiency, ?_,
    checkAdaptive_overlay (nodup_section h hada) hadaptive,
    checkSelector_overlay (nodup_section h hsel) hselector,
    checkTelemetry_overlay (nodup_section h htel) htelemetry, ?_, ?_, ?_⟩⟩
  · rw [field_overlay hkeys rfl id]
    exact hretrievers
  · exact check_overlay_obj hkeys rfl id (fun _ hk => checkScip_overlay (nodup_section h hk)) hscip
  · exact check_overlay_obj (b := defaultSelective E.T) hkeys rfl
      (fun (hd : checkSelective E (.obj []) = .ok ()) => hd)
      (fun _ hk => checkSelective_overlay (nodup_section h hk)) hselective
  · exact check_overlay_obj hkeys rfl (fun _ => checkLearning_default hone)
      (fun _ hk => checkLearning_overlay (nodup_section h hk)) hlearning
  · exact check_overlay_obj hkeys rfl (fun _ => rfl)
      (fun _ hk => checkDeployment_overlay (nodup_section h hk)) hdeployment
  · exact check_overlay_obj hkeys rfl (fun _ => rfl)
      (fun _ hk => checkProduction_overlay (nodup_section h hk)) hproduction

theorem checkWorkspace_overlay {o : Dict F} (h : wellFormed (.obj o) = true)
    (hv : checkWorkspace o = .ok ()) : checkWorkspace (overlay defaultWorkspace o) = .ok () := by
  have hkeys := ((wellFormed_obj o).mp h).1
  simp only [checkWorkspace, then_eq_ok] at hv ⊢
  obtain ⟨hroots, hmax, hregistry, hgraph, hhierarchical, hdiscovery⟩ := hv
  exact ⟨check_overlay (f := checkRoots) hkeys rfl id id hroots,
    check_overlay_key (f := fun v => positiveInt v _) hkeys rfl id (positiveInt_null _) hmax,
    check_overlay (f := fun v => nonEmptyText v _) hkeys rfl id id hregistry,
    check_overlay (f := fun v => nonEmptyText v _) hkeys rfl id id hgraph,
    check_overlay_obj (b := defaultHierarchical) hkeys rfl
      (fun (hd : checkHierarchical (.obj ([] : Dict F)) = .ok ()) => hd)
      (fun _ hk => checkHierarchical_overlay (nodup_section h hk)) hhierarchical,
    check_overlay_obj hkeys rfl id (fun _ hk => checkDiscovery_overlay (nodup_section h hk)) hdiscovery⟩

theorem checkBudget_overlay {o : Dict F} {lane : String} {estimated output : ℤ}
    (h : wellFormed (.obj o) = true)
    (hdefault : lookup lane (defaultBudgets : Dict F) = some (defaultBudget estimated output))
    (hv : checkBudget o lane = .ok ()) :
    checkBudget (overlay defaultBudgets o) lane = .ok () := by
  have hkeys := ((wellFormed_obj o).mp h).1
  obtain ⟨budget, hbudget⟩ := isObject_of_check hv
  have hlane := lookup_of_getKey hbudget nofun
  have hover : getKey (overlay defaultBudgets o) lane =
      .obj (overlay [("estimated_tokens", .int estimated), ("output_tokens", .int output)] budget) := by
    rw [getKey, lookup_overlay_obj hkeys hdefault, hlane]
    rfl
  rw [checkBudget, hbudget, object_bind, then_eq_ok] at hv
  rw [checkBudget, hover, object_bind, then_eq_ok]
  exact ⟨check_overlay_key (f := fun v => positiveInt v _) (nodup_section h hlane) rfl id
      (positiveInt_null _) hv.1,
    check_overlay_key (f := fun v => positiveInt v _) (nodup_section h hlane) rfl id
      (positiveInt_null _) hv.2⟩

/-- The default configuration with a valid one put over it, but for the version. -/
theorem validateConfig_overlay (hone : E.T.lit 1 = .fin 1) {c : Dict F} (h : wellFormed (.obj c) = true)
    (hv : validateConfig E total c = .ok ()) {m : Dict F} (hversion : getKey m "version" = .int 2)
    (hm : ∀ k ≠ "version", lookup k m = lookup k (overlay (defaultConfig E.T) c)) :
    validateConfig E total m = .ok () ↔
      Fits E total (objectAt (objectAt c "context") "source_shares") ∧
        Named E (objectAt (objectAt c "context") "semantic") := by
  have hkeys := ((wellFormed_obj c).mp h).1
  simp only [validateConfig, then_eq_ok] at hv ⊢
  obtain ⟨-, hsections, hanswer, hsmall, hfull, hcontext, hworkspace, horchestration, hlines, hresults⟩ := hv
  have hobjects := checkSections_iff.mp hsections
  have hover : ∀ {k : String} {b o : Dict F}, k ≠ "version" →
      lookup k (defaultConfig E.T) = some (.obj b) → lookup k c = some (.obj o) →
      lookup k m = some (.obj (overlay b o)) := by
    intro k b o hk hb ho
    rw [hm k hk, lookup_overlay_obj hkeys hb, ho]
  have hoverAll : checkSections m requiredSections "" = .ok () := by
    rw [checkSections_iff]
    intro name hname
    have hne : ∀ n ∈ requiredSections, n ≠ "version" := by decide
    obtain ⟨b, hb⟩ := checkSections_iff.mp (rfl : checkSections (defaultConfig E.T) requiredSections "" = _)
      name hname
    obtain ⟨o, ho⟩ := hobjects name hname
    exact ⟨_, hover (hne name hname) hb ho⟩
  obtain ⟨budgets, hbud⟩ := hobjects "budgets" (by decide)
  obtain ⟨context, hcon⟩ := hobjects "context" (by decide)
  obtain ⟨workspace, hwor⟩ := hobjects "workspace" (by decide)
  obtain ⟨execution, hexe⟩ := hobjects "execution" (by decide)
  obtain ⟨handoff, hhan⟩ := hobjects "handoff" (by decide)
  obtain ⟨memory, hmem⟩ := hobjects "memory" (by decide)
  rw [objectAt_of_lookup hbud] at hanswer hsmall hfull
  rw [objectAt_of_lookup hcon] at hcontext ⊢
  rw [objectAt_of_lookup hwor] at hworkspace
  rw [objectAt_of_lookup hexe] at horchestration
  rw [objectAt_of_lookup hhan] at hlines
  rw [objectAt_of_lookup hmem] at hresults
  rw [objectAt_of_lookup (hover (by decide) rfl hbud), objectAt_of_lookup (hover (by decide) rfl hcon),
    objectAt_of_lookup (hover (by decide) rfl hwor), objectAt_of_lookup (hover (by decide) rfl hexe),
    objectAt_of_lookup (hover (by decide) rfl hhan), objectAt_of_lookup (hover (by decide) rfl hmem),
    checkContext_overlay hone (wellFormed_lookup h hcon) hcontext, hversion]
  have hbudgets := wellFormed_lookup h hbud
  refine ⟨fun hall => hall.2.2.2.2.2.1, fun hfits => ⟨?_, hoverAll, checkBudget_overlay hbudgets rfl hanswer,
    checkBudget_overlay hbudgets rfl hsmall, checkBudget_overlay hbudgets rfl hfull, hfits,
    checkWorkspace_overlay (wellFormed_lookup h hwor) hworkspace, ?_, ?_, ?_⟩⟩
  · rfl
  · obtain ⟨orchestration, horc⟩ := isObject_of_check horchestration
    have horcAt := lookup_of_getKey horc nofun
    have horcOver : getKey (overlay defaultExecution execution) "orchestration_budget" =
        .obj (overlay defaultOrchestration orchestration) := by
      rw [getKey, lookup_overlay_obj (nodup_section h hexe) rfl, horcAt]
      rfl
    rw [horc] at horchestration
    rw [horcOver]
    exact checkOrchestration_overlay (nodup_section (wellFormed_lookup h hexe) horcAt) horchestration
  · exact check_overlay_key (f := fun v => positiveInt v _) (nodup_section h hhan) rfl id
      (positiveInt_null _) hlines
  · exact check_overlay_key (f := fun v => positiveInt v _) (nodup_section h hmem) rfl id
      (positiveInt_null _) hresults

/-! ### Migration and validity -/

/-- A configuration of version 1 is put over the defaults. -/
theorem migrateConfig_marked {c : Dict F} (h : (keys c).Nodup) : ∃ m,
    migrateConfig E (.obj (marked c)) = .ok (.obj m) ∧ getKey m "version" = .int 2 ∧
      ∀ k ≠ "version", lookup k m = lookup k (overlay (defaultConfig E.T) c) := by
  refine ⟨setKey "version" (.int currentConfigVersion)
    (overlay (defaultConfig E.T) (eraseKey "version" (marked c))), ?_, getKey_setKey_self .., ?_⟩
  · rw [migrateConfig, marked, getKey_setKey_self]
    rfl
  · intro k hk
    have hupper : lookup k (eraseKey "version" (marked c)) = lookup k c := by
      rw [lookup_eraseKey_ne hk.symm, marked, lookup_setKey_ne hk.symm]
    have hnodup : (keys (eraseKey "version" (marked c))).Nodup :=
      nodup_keys_eraseKey "version" (nodup_keys_setKey "version" _ h)
    rw [lookup_setKey_ne hk.symm, lookup_overlay hnodup, hupper, lookup_overlay h]

/-- Every value of `c` at a path is that of `m`, but for the version. -/
def Keeps (c m : Dict F) : Prop :=
  ∀ (k : String) (path : List String) (x : Json F), k ≠ "version" → ¬ IsObject x →
    valueAt (k :: path) (.obj c) = some x → valueAt (k :: path) (.obj m) = some x

theorem keeps_of_lookup {T : FloatSys F} {c m : Dict F} (h : wellFormed (.obj c) = true)
    (hm : ∀ k ≠ "version", lookup k m = lookup k (overlay (defaultConfig T) c)) : Keeps c m := by
  intro k path x hk hx hvalue
  have hover := @valueAt_overlay _ _ hx _ (some (.obj (defaultConfig T))) _ h hvalue
  rw [overlayAt_obj, valueAt, ← hm k hk] at hover
  rwa [valueAt]

/-- The migration of `c`, marked as one of version 1, is valid, keeps its values and is final. -/
def MigratesWell (E : Env F) (total : List F → Num) (c : Dict F) : Prop :=
  ∃ m, migrateConfig E (.obj (marked c)) = .ok (.obj m) ∧ validateConfig E total m = .ok () ∧ Keeps c m ∧
    migrateConfig E (.obj m) = .ok (.obj m)

/-- **A valid configuration migrates well** if its shares, together with the default ones of the sources that
it does not name, are at most the whole, and its semantic retriever does not need the default provider id.
A migration is final for all data. -/
theorem migration_iff (hone : E.T.lit 1 = .fin 1) {c : Dict F} (h : wellFormed (.obj c) = true)
    (hv : validateConfig E total c = .ok ()) :
    (MigratesWell E total c ↔ Fits E total (objectAt (objectAt c "context") "source_shares") ∧
        Named E (objectAt (objectAt c "context") "semantic")) ∧
      ∀ data migrated, migrateConfig E data = .ok migrated → migrateConfig E migrated = .ok migrated := by
  obtain ⟨m, hmigrated, hversion, hm⟩ := migrateConfig_marked (E := E) ((wellFormed_obj c).mp h).1
  refine ⟨?_, fun _ _ => migrateConfig_idem⟩
  rw [← validateConfig_overlay hone h hv hversion hm]
  constructor
  · rintro ⟨m', hmigrated', hvalid, -⟩
    rw [hmigrated] at hmigrated'
    rwa [Json.obj.inj (Except.ok.inj hmigrated')]
  · intro hvalid
    exact ⟨m, hmigrated, hvalid, keeps_of_lookup h hm, migrateConfig_idem hmigrated⟩

/-! ### On a platform -/

/-- The sum from left to right. -/
def leftSum (xs : List Cell) : Num := xs.foldl (fun acc x => Cell.system.add acc (Cell.system.view x)) (.fin 0)

/-- The defaults with another semantic retriever and other shares. -/
def configWith (semantic shares : Dict Cell) : Dict Cell :=
  setKey "context" (.obj (setKey "semantic" (.obj semantic)
    (setKey "source_shares" (.obj shares) (defaultContext Cell.system)))) (defaultConfig Cell.system)

/-- A retriever with the command of a project. -/
def commandSemantic : Dict Cell :=
  [("mode", .str "auto"), ("command", .str "./retrieve"), ("timeout_seconds", .int 8),
    ("max_results", .int 6)]

/-- A retriever with an id. -/
def namedSemantic : Dict Cell := setKey "provider_id" (.str "local") (eraseKey "command" commandSemantic)

theorem ok_of_isOk {x : Py Unit} (h : x.isOk = true) : x = .ok () := by
  obtain ⟨_, hok⟩ := isOk_iff.mp h
  exact hok

theorem migration_iff_named :
    MigratesWell platform leftSum (configWith namedSemantic (defaultShares Cell.system)) ∧
      ∀ data migrated, migrateConfig platform data = .ok migrated →
        migrateConfig platform migrated = .ok migrated := by
  have hwell : wellFormed (.obj (configWith namedSemantic (defaultShares Cell.system))) = true := by
    decide +kernel
  have hvalid : validateConfig platform leftSum (configWith namedSemantic (defaultShares Cell.system)) =
      .ok () := ok_of_isOk (by decide +kernel)
  have h := migration_iff (by decide +kernel) hwell hvalid
  have hfits : Fits platform leftSum (objectAt (objectAt
      (configWith namedSemantic (defaultShares Cell.system)) "context") "source_shares") :=
    checkShares_filled.mp (ok_of_isOk (by decide +kernel))
  exact ⟨h.1.mpr ⟨hfits, Or.inl (by decide +kernel)⟩, h.2⟩

/-- The checks of a migrated configuration. -/
def migratedChecks (c : Dict Cell) : Py Unit := do
  let migrated ← migrateConfig platform (.obj (marked c))
  match migrated with
  | .obj m => validateConfig platform leftSum m
  | _ => .ok ()

/-- A retriever with a command of the project gets the default provider id beside it. -/
theorem command_refused : ¬ ∀ c : Dict Cell, wellFormed (.obj c) = true →
    validateConfig platform leftSum c = .ok () → MigratesWell platform leftSum c := by
  intro hall
  obtain ⟨m, hm, hvalid, -⟩ := hall (configWith commandSemantic (defaultShares Cell.system))
    (by decide +kernel) (ok_of_isOk (by decide +kernel))
  have hrefused : (migratedChecks (configWith commandSemantic (defaultShares Cell.system))).isOk = false := by
    decide +kernel
  rw [migratedChecks, hm] at hrefused
  have hok : (validateConfig platform leftSum m).isOk = false := hrefused
  rw [hvalid] at hok
  cases hok

end ControlPlane.Config.Migration
