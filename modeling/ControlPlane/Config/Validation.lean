import ControlPlane.Lib.Overlay
import ControlPlane.Provider.Spec
import ControlPlane.Retrieval.Budget

/-! # Valid configurations

`validateConfig`, the checks of a configuration of the current version, section by section. A check of a
section is a function of the value at its key, so that what holds of a section can be said of it alone. The
sum of the source shares is that of the interpreter (`total`). -/

namespace ControlPlane.Config.Validation

open ControlPlane.Lib.Value ControlPlane.Lib.Print ControlPlane.Lib.Floats ControlPlane.Lib.Dynamic
open ControlPlane.Lib.Text ControlPlane.Lib.Overlay ControlPlane.Environment
open ControlPlane.Provider.Spec
open ControlPlane.Retrieval.Budget (positiveInt lanes)

variable {F : Type} (E : Env F) (total : List F → Num)

/-! ### Values -/

def nonnegativeInt (v : Json F) (name : String) : Py Unit :=
  match v with
  | .int n => require (decide (0 ≤ n)) (name ++ " must be a non-negative integer")
  | _ => .error (.valueError (name ++ " must be a non-negative integer"))

def unitRange (x : F) (name : String) : Py F :=
  if (Num.fin 0).le (E.T.view x) && (E.T.view x).le (.fin 1) then .ok x
  else .error (.valueError (name ++ " must be between 0 and 1"))

def fraction (v : Json F) (name : String) : Py F :=
  match v with
  | .int n => do
    let x ← E.floatOfInt n
    unitRange E x name
  | .float x => unitRange E x name
  | _ => .error (.valueError (name ++ " must be between 0 and 1"))

def checkFraction (v : Json F) (name : String) : Py Unit := do
  let _ ← fraction E v name
  return ()

def stringList (v : Json F) (name : String) : Py (List String) :=
  match v with
  | .arr items => match nonBlank items with
    | some texts => .ok texts
    | none => .error (.valueError (name ++ " must be an array of non-empty strings"))
  | _ => .error (.valueError (name ++ " must be an array of non-empty strings"))

def providerCommand (v : Json F) (name : String) : Py Unit :=
  match v with
  | .str s => require (strip s != "") (name ++ " must not be blank")
  | .arr parts => require (!parts.isEmpty && parts.all fun part => match part with
      | .str s => s != ""
      | _ => false) (name ++ " must be a non-empty string or argv array")
  | _ => .error (.valueError (name ++ " must be a non-empty string or argv array"))

def boolean (v : Json F) (name : String) : Py Unit :=
  match v with
  | .bool _ => .ok ()
  | _ => .error (.valueError (name ++ " must be boolean"))

/-- `v` is one of some texts; what cannot be hashed is looked up in no set. -/
def oneOf (v : Json F) (options : List String) (message : String) : Py Unit :=
  match v with
  | .str s => require (options.contains s) message
  | .arr _ => .error (.typeError "unhashable type: 'list'")
  | .obj _ => .error (.typeError "unhashable type: 'dict'")
  | _ => .error (.valueError message)

/-- `isinstance(v, dict)`. -/
def object (v : Json F) (message : String) : Py (Dict F) :=
  match v with
  | .obj d => .ok d
  | _ => .error (.valueError message)

/-- `v not in (None, "", [])`. -/
def given (v : Json F) : Bool := !(pyEq E.T v .null || pyEq E.T v (.str "") || pyEq E.T v (.arr []))

/-- `v not in (None, [], ())`. -/
def listGiven (v : Json F) : Bool := !(pyEq E.T v .null || pyEq E.T v (.arr []))

/-- `_positive_int(int(v), name)`. -/
def positiveIntOf (v : Json F) (name : String) : Py Unit := do
  let n ← E.toInt v
  positiveInt (.int n : Json F) name

/-- A path inside the project. -/
def relativePath (v : Json F) (name : String) : Py Unit :=
  match v with
  | .str s => do
    require (strip s != "") (name ++ " must be a relative path")
    require (!startsWith s "/" && !(s.toList.splitOn '/').contains ['.', '.'])
      (name ++ " must stay inside project root")
  | _ => .error (.valueError (name ++ " must be a relative path"))

def nonEmptyText (v : Json F) (message : String) : Py Unit :=
  match v with
  | .str s => require (strip s != "") message
  | _ => .error (.valueError message)

/-! ### Sections -/

def requiredSections : List String :=
  ["budgets", "classifier", "context", "workspace", "execution", "handoff", "memory", "models"]

/-- The sections that there must be. -/
def checkSections (data : Dict F) : List String → String → Py Unit
  | [], _ => .ok ()
  | name :: names, place => do
    let _ ← object (getKey data name) ("missing required section: " ++ place ++ name)
    checkSections data names place

/-- The check of the budget of a lane. -/
def checkBudget (budgets : Dict F) (lane : String) : Py Unit := do
  let budget ← object (getKey budgets lane) ("missing required budget: " ++ lane)
  positiveInt (getKey budget "estimated_tokens") ("budgets." ++ lane ++ ".estimated_tokens")
  positiveInt (getKey budget "output_tokens") ("budgets." ++ lane ++ ".output_tokens")

/-- The fractions of shares. -/
def shareValues : Dict F → Py (List F)
  | [] => .ok []
  | (name, v) :: shares => do
    let x ← fraction E v ("source share " ++ name)
    let xs ← shareValues shares
    return x :: xs

def checkShares (v : Json F) : Py Unit := do
  let shares ← object v "context.source_shares must be a non-empty object"
  require (!shares.isEmpty) "context.source_shares must be a non-empty object"
  let values ← shareValues E shares
  require (!(E.T.lit (1000001 / 1000000)).lt (total values)) "source shares must sum to at most 1"

def contextSections : List String :=
  ["crg", "targeted_search", "semantic", "sufficiency", "adaptive_budget", "selector", "telemetry"]

/-- A retriever is named by a provider id or by a command, and the environment is not the project's. -/
def checkProvider (spec : Dict F) (where_ : String) : Py Unit := do
  let providerId ← textOr E spec "provider_id" ""
  let command := getKey spec "command"
  require (!(strip providerId != "" && given E command))
    (where_ ++ " may not combine provider_id with repository command")
  require (!(strip providerId != "" && listGiven E (getKey spec "env_allowlist")))
    (where_ ++ " may not define env_allowlist with provider_id")
  if given E command then providerCommand command (where_ ++ ".command")

def checkRetriever (index : ℕ) (v : Json F) : Py Unit := do
  let place := "context.external_retrievers[" ++ toString index ++ "]"
  let spec ← object v (place ++ " requires a non-empty name")
  let name ← E.strOr spec "name" ""
  require (strip name != "") (place ++ " requires a non-empty name")
  let providerId ← textOr E spec "provider_id" ""
  require (strip providerId != "" || given E (getKey spec "command")) (place ++ " requires provider_id")
  checkProvider E spec place
  let intents ← stringList (field spec "intents" (.arr [.str "all"])) (place ++ ".intents")
  require (intents.all fun intent => ["exact", "semantic", "structural", "mixed", "all"].contains
    (E.lower intent)) (place ++ ".intents contains unsupported values")
  positiveIntOf E (field spec "timeout_seconds" (.int 8)) (place ++ ".timeout_seconds")
  positiveIntOf E (field spec "max_output_bytes" (.int 8388608)) (place ++ ".max_output_bytes")
  let _ ← stringList (field spec "env_allowlist" (.arr [])) (place ++ ".env_allowlist")
  return ()

def checkRetrieverList : ℕ → List (Json F) → Py Unit
  | _, [] => .ok ()
  | index, v :: rest => do
    checkRetriever E index v
    checkRetrieverList (index + 1) rest

def checkRetrievers : Json F → Py Unit
  | .arr specs => checkRetrieverList E 0 specs
  | _ => .error (.valueError "context.external_retrievers must be an array")

def checkScip (v : Json F) : Py Unit := do
  let scip ← object v "context.scip must be an object"
  oneOf (field scip "mode" (.str "auto")) ["auto", "on", "off"] "context.scip.mode must be auto, on, or off"

def checkSemantic (semantic : Dict F) : Py Unit := do
  oneOf (field semantic "mode" (.str "auto")) ["auto", "on", "off"]
    "context.semantic.mode must be auto, on, or off"
  checkProvider E semantic "context.semantic"
  positiveIntOf E (field semantic "timeout_seconds" (.int 0)) "context.semantic.timeout_seconds"
  positiveIntOf E (field semantic "max_results" (.int 0)) "context.semantic.max_results"
  positiveIntOf E (field semantic "max_output_bytes" (.int 8388608)) "context.semantic.max_output_bytes"
  let _ ← stringList (field semantic "env_allowlist" (.arr [])) "context.semantic.env_allowlist"
  return ()

def checkSufficiency (sufficiency : Dict F) : Py Unit :=
  checkFraction E (getKey sufficiency "threshold") "context.sufficiency.threshold"

def checkSelective (v : Json F) : Py Unit := do
  let selective ← object v "context.selective_retrieval must be an object"
  boolean (field selective "enabled" (.bool true)) "context.selective_retrieval.enabled"
  checkFraction E (field selective "minimum_coverage" (.float (E.T.ofRat (15 / 100))))
    "context.selective_retrieval.minimum_coverage"

def checkAdaptive (adaptive : Dict F) : Py Unit := do
  checkFraction E (getKey adaptive "high_sufficiency_fraction")
    "context.adaptive_budget.high_sufficiency_fraction"
  checkFraction E (getKey adaptive "medium_sufficiency_fraction")
    "context.adaptive_budget.medium_sufficiency_fraction"
  positiveInt (getKey adaptive "minimum_chars") "context.adaptive_budget.minimum_chars"

def checkSelector (selector : Dict F) : Py Unit := do
  boolean (field selector "enabled" (.bool true)) "context.selector.enabled"
  checkFraction E (getKey selector "tight_budget_fraction") "context.selector.tight_budget_fraction"
  boolean (field selector "mandatory_structural_evidence" (.bool true))
    "context.selector.mandatory_structural_evidence"
  positiveInt (field selector "max_selector_candidates" (.int 200))
    "context.selector.max_selector_candidates"

/-- The fields of the telemetry that are no project configuration, in order. -/
def trustedRuntimeFields : List String :=
  ["export_timeout_seconds", "include_task_text", "otlp_allowed_hosts", "otlp_endpoint", "otlp_headers",
    "otlp_headers_env", "store_task_text"]

def checkUntrusted (telemetry : Dict F) : List String → Py Unit
  | [] => .ok ()
  | name :: names => do
    require (lookup name telemetry).isNone ("context.telemetry." ++ name ++
      " is trusted runtime configuration and must not appear in project config")
    checkUntrusted telemetry names

def checkTelemetry (telemetry : Dict F) : Py Unit := do
  oneOf (field telemetry "mode" (.str "mutations")) ["off", "mutations", "all"]
    "context.telemetry.mode must be off, mutations, or all"
  checkUntrusted telemetry trustedRuntimeFields

def safeArms : List String :=
  ["adaptive_math", "source_rank", "bm25_rank", "rrf_only", "rrf_mmr_050", "rrf_mmr_075", "rrf_mmr_090"]

def checkLearning : Json F → Py Unit
  | .null => .ok ()
  | v => do
    let learning ← object v "context.learning must be an object"
    oneOf (field learning "mode" (.str "off")) ["off", "observe", "explore"]
      "context.learning.mode must be off, observe, or explore"
    boolean (field learning "kill_switch" (.bool false)) "context.learning.kill_switch"
    checkFraction E (field learning "exploration_probability" (.float (E.T.ofRat (5 / 100))))
      "context.learning.exploration_probability"
    let risks ← stringList (field learning "allowed_risks" (.arr [.str "low"]))
      "context.learning.allowed_risks"
    require (risks.all fun risk => E.lower risk == "low") "context.learning.allowed_risks may only contain low"
    let arms ← stringList (field learning "eligible_arms" (.arr [.str "adaptive_math"]))
      "context.learning.eligible_arms"
    require (arms.all safeArms.contains) "context.learning.eligible_arms contains an unsafe or unknown arm"
    require (arms.contains "adaptive_math") "context.learning.eligible_arms must include adaptive_math"

def checkDeployment : Json F → Py Unit
  | .null => .ok ()
  | v => do
    let deployment ← object v "context.deployment must be an object"
    let enabled := field deployment "enabled" (.bool false)
    let autoRollback := field deployment "auto_rollback" (.bool true)
    boolean enabled "context.deployment.enabled"
    boolean autoRollback "context.deployment.auto_rollback"
    boolean (field deployment "incident_bundles" (.bool true)) "context.deployment.incident_bundles"
    require (!(truthy E.T enabled && !truthy E.T autoRollback)) "enabled deployment requires automatic rollback"
    relativePath (field deployment "state_path"
      (.str "ai-workspace/generated/learning/deployment/active.json")) "context.deployment.state_path"
    nonEmptyText (field deployment "signing_key_env" (.str "AI_WORKFLOW_POLICY_SIGNING_KEY"))
      "context.deployment.signing_key_env must be non-empty"

def checkProduction : Json F → Py Unit
  | .null => .ok ()
  | v => do
    let production ← object v "context.production must be an object"
    boolean (field production "enabled" (.bool false)) "context.production.enabled"
    relativePath (field production "sqlite_path"
      (.str "ai-workspace/generated/learning/production/events.sqlite3")) "context.production.sqlite_path"
    positiveInt (field production "busy_timeout_ms" (.int 5000)) "context.production.busy_timeout_ms"

/-- `workspace.roots` is an array of texts. -/
def checkRoots : Json F → Py Unit
  | .arr roots => require (roots.all fun root => match root with
      | .str _ => true
      | _ => false) "workspace.roots must be an array of paths"
  | _ => .error (.valueError "workspace.roots must be an array of paths")

def relationships : List String := ["depends_on", "publishes_api", "consumes_schema", "deploys"]

def checkHierarchical (v : Json F) : Py Unit := do
  let hierarchical ← object v "workspace.hierarchical_retrieval must be an object"
  boolean (field hierarchical "enabled" (.bool true)) "workspace.hierarchical_retrieval.enabled"
  positiveInt (field hierarchical "max_primary_repositories" (.int 2))
    "workspace.hierarchical_retrieval.max_primary_repositories"
  nonnegativeInt (field hierarchical "max_graph_expansions" (.int 2))
    "workspace.hierarchical_retrieval.max_graph_expansions"
  let names ← stringList (field hierarchical "relationships" (.arr (relationships.map Json.str)))
    "workspace.hierarchical_retrieval.relationships"
  require (names.all relationships.contains)
    "workspace.hierarchical_retrieval.relationships contains an unsupported relationship"

/-- The discovery of a workspace that has none. -/
def defaultDiscovery : Dict F :=
  [("max_depth", .int 8), ("require_acceptance", .bool false), ("auto_include_on_setup", .bool true)]

def checkDiscovery (v : Json F) : Py Unit := do
  let discovery ← object v "workspace.discovery must be an object"
  nonnegativeInt (field discovery "max_depth" (.int 8)) "workspace.discovery.max_depth"
  boolean (field discovery "require_acceptance" (.bool false)) "workspace.discovery.require_acceptance"
  boolean (field discovery "auto_include_on_setup" (.bool true)) "workspace.discovery.auto_include_on_setup"

def checkOrchestration (v : Json F) : Py Unit := do
  let orchestration ← object v "missing required section: execution.orchestration_budget"
  positiveInt (getKey orchestration "max_agent_slots") "execution.orchestration_budget.max_agent_slots"
  nonnegativeInt (getKey orchestration "max_crg_calls") "execution.orchestration_budget.max_crg_calls"
  positiveInt (getKey orchestration "max_graph_depth") "execution.orchestration_budget.max_graph_depth"
  positiveInt (getKey orchestration "review_passes") "execution.orchestration_budget.review_passes"
  positiveInt (getKey orchestration "verification_passes")
    "execution.orchestration_budget.verification_passes"

/-! ### The configuration -/

def currentConfigVersion : ℤ := 2

/-- The checks of `data["context"]`. -/
def checkContext (context : Dict F) : Py Unit := do
  checkShares E total (getKey context "source_shares")
  checkSections context contextSections "context."
  checkRetrievers E (field context "external_retrievers" (.arr []))
  checkScip (field context "scip" (.obj [("mode", .str "auto")]))
  checkSemantic E (objectAt context "semantic")
  checkSufficiency E (objectAt context "sufficiency")
  checkSelective E (field context "selective_retrieval" (.obj []))
  checkAdaptive E (objectAt context "adaptive_budget")
  checkSelector E (objectAt context "selector")
  checkTelemetry (objectAt context "telemetry")
  checkLearning E (getKey context "learning")
  checkDeployment E (getKey context "deployment")
  checkProduction (getKey context "production")

/-- The checks of `data["workspace"]`. -/
def checkWorkspace (workspace : Dict F) : Py Unit := do
  checkRoots (field workspace "roots" (.arr []))
  positiveInt (getKey workspace "max_roots") "workspace.max_roots"
  nonEmptyText (field workspace "registry" (.str "ai-workspace/config/repositories.json"))
    "workspace.registry must be a non-empty path"
  nonEmptyText (field workspace "repository_graph" (.str "ai-workspace/config/repository-graph.json"))
    "workspace.repository_graph must be a non-empty path"
  checkHierarchical (field workspace "hierarchical_retrieval" (.obj []))
  checkDiscovery (field workspace "discovery" (.obj defaultDiscovery))

def validateConfig (data : Dict F) : Py Unit := do
  require (pyEq E.T (getKey data "version") (.int currentConfigVersion))
    "unsupported control-plane config version"
  checkSections data requiredSections ""
  let budgets := objectAt data "budgets"
  checkBudget budgets "answer"
  checkBudget budgets "small"
  checkBudget budgets "full"
  checkContext E total (objectAt data "context")
  checkWorkspace (objectAt data "workspace")
  checkOrchestration (getKey (objectAt data "execution") "orchestration_budget")
  positiveInt (getKey (objectAt data "handoff") "max_lines") "handoff.max_lines"
  positiveInt (getKey (objectAt data "memory") "max_results") "memory.max_results"

end ControlPlane.Config.Validation
