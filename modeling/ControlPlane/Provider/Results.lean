import ControlPlane.Provider.Response
import ControlPlane.Provider.Spec
import ControlPlane.Workspace.DataDirs
import Mathlib.Data.List.ReduceOption

/-! # The results of command providers

What the runner makes of a process that has ended: an error, or the items of its response. The metadata of an
item are JSON values, but for the tuple of the names of path fields that were dropped (`confineMetadataPaths`).

`succeeded` is what holds of every result without an error: its process ended in time, and what its items carry
was checked against the limits of the protocol, so that it can be written as JSON. -/

namespace ControlPlane.Provider.Results

open ControlPlane.Lib.Value ControlPlane.Lib.Print ControlPlane.Lib.RoundTrip ControlPlane.Lib.Dumps
open ControlPlane.Lib.Text ControlPlane.Lib.Floats ControlPlane.Lib.Dynamic
open ControlPlane.Environment ControlPlane.Provider.Response ControlPlane.Provider.Spec
open ControlPlane.Workspace.DataDirs

/-- Metadata: JSON values, and the tuple under `rejected_path_fields`, if it was set. -/
structure Metadata (F : Type) where
  entries : Dict F
  rejectedPathFields : Option (List String) := none

structure ContextItem (F : Type) where
  source : String
  text : String
  score : F
  stale : Bool
  metadata : Metadata F
  provenance : Dict F

structure ProviderResult (F : Type) where
  provider : String
  items : List (ContextItem F) := []
  latencyMs : F
  error : Option String := none
  errorKind : Option String := none
  timedOut : Bool := false
  outputLimited : Bool := false
  returncode : Option ℤ := none
  stderrTail : Option String := none
  stderrTruncated : Bool := false
  sandboxed : Bool := false
  sandboxBackend : Option String := none
  sandboxMode : String := "off"
  sandboxNetwork : String := "host"
  resourceLimitsEnforced : Bool := false
  sandboxFallbackReason : Option String := none

variable {F : Type} (E : Env F) (resolve : Path → Path)

def ProviderResult.ok (r : ProviderResult F) : Bool := r.error.isNone

/-! ### Items -/

/-- One of the keys that hold paths: dropped unless its path lies below the root. -/
def confineKey (root : Path) (found : Dict F × List String) (key : String) : Dict F × List String :=
  match lookup key found.1 with
  | none => found
  | some (.str value) =>
    if (resolveWithinRoot resolve root value).isOk then found
    else (eraseKey key found.1, found.2 ++ [key])
  | some _ => (eraseKey key found.1, found.2 ++ [key])

def confineMetadataPaths (root : Path) (metadata : Dict F) : Metadata F :=
  let (clean, rejected) := ["path", "file"].foldl (confineKey resolve root) (metadata, [])
  if rejected = [] then { entries := clean }
  else { entries := setKey "path_rejected" (.bool true) clean, rejectedPathFields := some rejected }

def maxProviderItemFields : ℕ := 64
def maxProviderTextChars : ℕ := 1000000
def maxProviderLine : ℤ := 2147483647

/-- `_score(value)`. -/
def scoreOf : Json F → Py F
  | .null => .ok (E.T.ofRat 0)
  | .int n => do
    let score ← E.floatOfInt n
    require (E.T.finite score) "provider score must be finite"
    require ((E.T.lit 0).le (E.T.view score) && (E.T.view score).le (E.T.lit 1))
      "provider score must be between 0 and 1"
    return score
  | .float score => do
    require (E.T.finite score) "provider score must be finite"
    require ((E.T.lit 0).le (E.T.view score) && (E.T.view score).le (E.T.lit 1))
      "provider score must be between 0 and 1"
    return score
  | _ => .error (.valueError "provider score must be a JSON number")

/-- `_line_number(value, field)`. -/
def lineNumber (value : Json F) (field : String) : Py Unit :=
  match value with
  | .int n => require (decide (1 ≤ n ∧ n ≤ maxProviderLine))
      ("provider " ++ field ++ " must be between 1 and 2147483647")
  | _ => .error (.valueError ("provider " ++ field ++ " must be an integer"))

/-- `_bounded_field(value, field)`. -/
def boundedField (value : Json F) (field : String) : Py Unit :=
  match value with
  | .str s => require (decide (s.length ≤ maxProviderFieldChars))
      ("provider " ++ field ++ " exceeds protocol limit")
  | _ => .error (.valueError ("provider " ++ field ++ " must be a string"))

/-- The fields of a record that are checked and put into the metadata. -/
def copyFields (check : Json F → String → Py Unit) (record : Dict F) : List String → Dict F → Py (Dict F)
  | [], metadata => .ok metadata
  | key :: keys, metadata =>
    match lookup key record with
    | none => copyFields check record keys metadata
    | some value => do
      check value key
      copyFields check record keys (setKey key value metadata)

/-- The text of a record, without the white space at its ends. -/
def recordText (record : Dict F) : Py String :=
  match (lookup "text" record).getD ((lookup "content" record).getD (.str "")) with
  | .str raw => do
    require (decide (raw.length ≤ maxProviderTextChars)) "provider text exceeds protocol limit"
    return strip raw
  | _ => .error (.valueError "provider text/content must be a string")

/-- An object of a record, by default an empty one. -/
def recordObject (record : Dict F) (key : String) : Py (Dict F) :=
  match (lookup key record).getD (.obj []) with
  | .obj d => .ok d
  | _ => .error (.valueError ("provider " ++ key ++ " must be an object"))

def recordStale (record : Dict F) : Py Bool :=
  match (lookup "stale" record).getD (.bool false) with
  | .bool stale => .ok stale
  | _ => .error (.valueError "provider stale must be a boolean")

/-- What the metadata of an item are made of. -/
def itemMetadata (root : Path) (providerName providerTrust : String) (defaults metadata : Dict F) : Metadata F :=
  let metadata := defaults.foldl (fun d p => setKey p.1 p.2 d) metadata
  let metadata := setKey "provider" (.str providerName) metadata
  let metadata := setKey "provider_trust" (.str providerTrust) metadata
  let metadata := setKey "trust" (.str "untrusted_repository_content") metadata
  confineMetadataPaths resolve root metadata

/-- One round of the loop of `_context_items`: the item of a record, unless its text is empty. -/
def contextItem (root : Path) (source providerName providerTrust : String) (defaults record : Dict F) :
    Py (Option (ContextItem F)) := do
  require (decide (record.length ≤ maxProviderItemFields)) "provider item exceeds maximum field count"
  validateJsonValue E.T.toFloatText 0 (.obj record)
  let text ← recordText record
  if text = "" then return none
  else do
    let metadata ← recordObject record "metadata"
    let provenance ← recordObject record "provenance"
    let metadata ← copyFields boundedField record ["path", "file", "symbol", "kind", "language"] metadata
    let metadata ← copyFields lineNumber record ["line", "end_line"] metadata
    let stale ← recordStale record
    let score ← scoreOf E (getKey record "score")
    return some {
      source, text, score, stale
      metadata := itemMetadata resolve root providerName providerTrust defaults metadata
      provenance := setKey "trust" (.str "untrusted_repository_content")
        (setKey "provider" (.str providerName) provenance) }

/-- The items, best scores first. -/
def byScore (items : List (ContextItem F)) : List (ContextItem F) :=
  items.insertionSort fun a b => (E.T.view b.score).le (E.T.view a.score) = true

/-- `_context_items(root, records, source, limit, ...)`. -/
def contextItems (root : Path) (records : List (Dict F)) (source : String) (limit : ℕ)
    (providerName providerTrust : String) (defaults : Dict F) : Py (List (ContextItem F)) := do
  let items ← records.mapM (contextItem E resolve root source providerName providerTrust defaults)
  return (byScore E items.reduceOption).take limit

/-! ### Results -/

/-- `str(exc)`. -/
def message : Exn → String
  | .valueError msg => msg
  | .jsonDecodeError msg => msg
  | .typeError msg => msg
  | .overflowError msg => msg
  | .runtimeError msg => msg
  | .fileExistsError msg => msg
  | .osError msg => msg
  | .indexError msg => msg

/-- What the runner is asked for. -/
structure Request (F : Type) where
  root : Path
  limit : ℕ
  source : String
  metadataDefaults : Dict F

/-- `_result_from_bytes(...)`, of the decoded output. -/
def resultFromText (spec : CommandProviderSpec F) (request : Request F) (text : String) (latencyMs : F)
    (returncode : ℤ) : ProviderResult F :=
  if strip text = "" then
    { provider := spec.name, latencyMs, error := some "provider returned an empty payload",
      errorKind := some "empty_output", returncode := some returncode }
  else
    let items := do
      let records ← parseRecords E text
      contextItems E resolve request.root records request.source request.limit spec.name spec.executableTrust
        request.metadataDefaults
    match items with
    | .ok items => { provider := spec.name, items, latencyMs, returncode := some returncode }
    | .error e =>
      { provider := spec.name, latencyMs, error := some (message e), errorKind := some "invalid_payload",
        returncode := some returncode }

/-- A process that has ended or was ended. -/
structure Execution (F : Type) where
  output : String
  latencyMs : F
  exceeded : Bool
  timedOut : Bool
  returncode : ℤ
  /-- `f"{effective_timeout:g}"`. -/
  timeoutText : String
  stderrTail : Option String
  stderrTruncated : Bool

structure SandboxPlan where
  sandboxed : Bool
  backend : Option String
  mode : String
  network : String
  resourceLimitsEnforced : Bool
  fallbackReason : Option String

def attachStderr (r : ProviderResult F) (x : Execution F) : ProviderResult F :=
  { r with stderrTail := x.stderrTail, stderrTruncated := x.stderrTruncated }

def attachSandboxState (r : ProviderResult F) (plan : SandboxPlan) : ProviderResult F :=
  { r with
    sandboxed := plan.sandboxed
    sandboxBackend := plan.backend
    sandboxMode := plan.mode
    sandboxNetwork := plan.network
    resourceLimitsEnforced := plan.resourceLimitsEnforced
    sandboxFallbackReason := plan.fallbackReason }

/-- `run_command_provider(...)`, from the end of the process. -/
def runCommandProvider (spec : CommandProviderSpec F) (request : Request F) (plan : SandboxPlan)
    (x : Execution F) : ProviderResult F :=
  let result : ProviderResult F :=
    if x.exceeded then
      { provider := spec.name, latencyMs := x.latencyMs,
        error := some ("provider output exceeded " ++ toString spec.maxOutputBytes ++ " bytes"),
        errorKind := some "output_limit", outputLimited := true, returncode := some x.returncode }
    else if x.timedOut then
      { provider := spec.name, latencyMs := x.latencyMs,
        error := some ("provider timed out after " ++ x.timeoutText ++ " seconds"),
        errorKind := some "timeout", timedOut := true, returncode := some x.returncode }
    else if x.returncode ≠ 0 then
      { provider := spec.name, latencyMs := x.latencyMs,
        error := some ("provider exited with status " ++ toString x.returncode),
        errorKind := some "exit", returncode := some x.returncode }
    else resultFromText E resolve spec request x.output x.latencyMs x.returncode
  attachSandboxState (attachStderr result x) plan

/-! ### What is written of an item -/

/-- The object can be written, and read back as it is. -/
def Writable (d : Dict F) : Prop :=
  wellFormed (.obj d) = true ∧ printable E.T.toFloatText false (.obj d) = true

variable {E resolve}

theorem Writable.nil : Writable E ([] : Dict F) := ⟨by simp [keys], by simp⟩

theorem Writable.set {d : Dict F} (h : Writable E d) (k : String) {v : Json F}
    (hwell : wellFormed v = true) (hv : printable E.T.toFloatText false v = true) :
    Writable E (setKey k v d) := by
  refine ⟨?_, printable_setKey h.2 k hv⟩
  have hd := (wellFormed_obj d).mp h.1
  rw [wellFormed_obj]
  refine ⟨nodup_keys_setKey k v hd.1, fun p hp => ?_⟩
  rcases mem_setKey hp with rfl | hp
  · exact hwell
  · exact hd.2 p hp

theorem Writable.setStr {d : Dict F} (h : Writable E d) (k s : String) :
    Writable E (setKey k (.str s) d) :=
  h.set k (v := .str s) rfl rfl

theorem Writable.erase {d : Dict F} (h : Writable E d) (k : String) : Writable E (eraseKey k d) := by
  have hd := (wellFormed_obj d).mp h.1
  refine ⟨(wellFormed_obj _).mpr ⟨nodup_keys_eraseKey k hd.1, fun p hp => ?_⟩, printable_eraseKey h.2 k⟩
  exact hd.2 p (List.mem_of_mem_filter hp)

theorem Writable.update {defaults : Dict F} (hdefaults : Writable E defaults) {d : Dict F} (h : Writable E d) :
    Writable E (defaults.foldl (fun d p => setKey p.1 p.2 d) d) := by
  have hwell := ((wellFormed_obj defaults).mp hdefaults.1).2
  have hprint := (printable_obj false defaults).mp hdefaults.2
  clear hdefaults
  induction defaults generalizing d with
  | nil => exact h
  | cons p defaults ih =>
    rw [List.forall_mem_cons] at hwell hprint
    exact ih (h.set p.1 hwell.1 hprint.1) hwell.2 hprint.2

/-- An entry of a checked record. -/
theorem writable_entry {record : Dict F} (hwell : wellFormed (.obj record) = true)
    (hsound : sound E.T.toFloatText (.obj record) = true) {k : String} {v : Json F} (h : lookup k record = some v) :
    wellFormed v = true ∧ printable E.T.toFloatText false v = true := by
  have hmem := mem_of_lookup h
  exact ⟨((wellFormed_obj record).mp hwell).2 _ hmem,
    (printable_obj false record).mp (printable_of_sound _ _ hsound) _ hmem⟩

theorem writable_recordObject {record d : Dict F} {key : String} (hwell : wellFormed (.obj record) = true)
    (hsound : sound E.T.toFloatText (.obj record) = true) (h : recordObject record key = .ok d) : Writable E d := by
  unfold recordObject at h
  cases hl : lookup key record with
  | none =>
    rw [hl] at h
    cases h
    exact Writable.nil
  | some v =>
    rw [hl] at h
    cases v with
    | obj e =>
      cases h
      exact writable_entry hwell hsound hl
    | _ => cases h

theorem writable_copyFields {check : Json F → String → Py Unit} {record : Dict F}
    (hwell : wellFormed (.obj record) = true) (hsound : sound E.T.toFloatText (.obj record) = true)
    {fields : List String} {metadata d : Dict F} (hmetadata : Writable E metadata)
    (h : copyFields check record fields metadata = .ok d) : Writable E d := by
  induction fields generalizing metadata with
  | nil =>
    cases h
    exact hmetadata
  | cons key fields ih =>
    rw [copyFields] at h
    split at h
    · exact ih hmetadata h
    · next v hv =>
      obtain ⟨_, -, h⟩ := bind_eq_ok.mp h
      obtain ⟨hvwell, hvprint⟩ := writable_entry hwell hsound hv
      exact ih (hmetadata.set key hvwell hvprint) h

theorem writable_confineKey {root : Path} {found : Dict F × List String} (h : Writable E found.1) (key : String) :
    Writable E (confineKey resolve root found key).1 := by
  unfold confineKey
  split
  · exact h
  · split_ifs
    · exact h
    · exact h.erase key
  · exact h.erase key

theorem writable_confine {root : Path} {metadata : Dict F} (h : Writable E metadata) :
    Writable E (confineMetadataPaths resolve root metadata).entries := by
  have hclean : Writable E (["path", "file"].foldl (confineKey resolve root) (metadata, [])).1 :=
    writable_confineKey (writable_confineKey (show Writable E (metadata, ([] : List String)).1 from h) "path") "file"
  unfold confineMetadataPaths
  by_cases hnone : (["path", "file"].foldl (confineKey resolve root) (metadata, [])).2 = []
  · dsimp only
    rw [if_pos hnone]
    exact hclean
  · dsimp only
    rw [if_neg hnone]
    exact hclean.set "path_rejected" (v := .bool true) rfl rfl

/-- What the runner guarantees of an item. -/
structure ContextItem.Checked (E : Env F) (item : ContextItem F) : Prop where
  score : E.T.finite item.score = true
  metadata : Writable E item.metadata.entries
  provenance : Writable E item.provenance

theorem finite_scoreOf {v : Json F} {score : F} (h : scoreOf E v = .ok score) : E.T.finite score = true := by
  have hzero : E.T.finite (E.T.ofRat 0) = true := (E.T.finite_iff _).mpr ⟨0, E.T.ofRat_zero⟩
  cases v with
  | null =>
    cases h
    exact hzero
  | int n =>
    obtain ⟨x, -, h⟩ := bind_eq_ok.mp h
    obtain ⟨_, hfinite, h⟩ := bind_eq_ok.mp h
    obtain ⟨_, -, h⟩ := bind_eq_ok.mp h
    cases h
    exact require_eq_ok.mp hfinite
  | float x =>
    obtain ⟨_, hfinite, h⟩ := bind_eq_ok.mp h
    obtain ⟨_, -, h⟩ := bind_eq_ok.mp h
    cases h
    exact require_eq_ok.mp hfinite
  | _ => cases h

/-- **An item is checked.** -/
theorem checked_contextItem {root : Path} {source name trust : String} {defaults record : Dict F}
    {item : ContextItem F} (hdefaults : Writable E defaults) (hwell : wellFormed (.obj record) = true)
    (h : contextItem E resolve root source name trust defaults record = .ok (some item)) : item.Checked E := by
  obtain ⟨_, -, h⟩ := bind_eq_ok.mp h
  obtain ⟨_, hvalid, h⟩ := bind_eq_ok.mp h
  have hsound := ((validate_eq_ok _ _ 0).mp hvalid).1
  obtain ⟨text, -, h⟩ := bind_eq_ok.mp h
  split_ifs at h
  · cases h
  obtain ⟨metadata, hmetadata, h⟩ := bind_eq_ok.mp h
  obtain ⟨provenance, hprovenance, h⟩ := bind_eq_ok.mp h
  obtain ⟨withPaths, hpaths, h⟩ := bind_eq_ok.mp h
  obtain ⟨withLines, hlines, h⟩ := bind_eq_ok.mp h
  obtain ⟨stale, -, h⟩ := bind_eq_ok.mp h
  obtain ⟨score, hscore, h⟩ := bind_eq_ok.mp h
  cases h
  have hfields := writable_copyFields hwell hsound
    (writable_copyFields hwell hsound (writable_recordObject hwell hsound hmetadata) hpaths) hlines
  exact ⟨finite_scoreOf hscore,
    writable_confine ((((hdefaults.update hfields).setStr _ _).setStr _ _).setStr _ _),
    ((writable_recordObject hwell hsound hprovenance).setStr _ _).setStr _ _⟩

/-- What the runner guarantees of a result without an error. -/
structure ProviderResult.Succeeded (E : Env F) (r : ProviderResult F) : Prop where
  error : r.error = none
  errorKind : r.errorKind = none
  timedOut : r.timedOut = false
  outputLimited : r.outputLimited = false
  items : ∀ item ∈ r.items, item.Checked E

/-- **A result without an error** comes from a process that ended in time, and its items are checked. -/
theorem succeeded {spec : CommandProviderSpec F} {request : Request F} {plan : SandboxPlan} {x : Execution F}
    (hdefaults : Writable E request.metadataDefaults)
    (h : (runCommandProvider E resolve spec request plan x).ok = true) :
    (runCommandProvider E resolve spec request plan x).Succeeded E := by
  unfold runCommandProvider at h ⊢
  by_cases hexceeded : x.exceeded = true
  · rw [if_pos hexceeded] at h
    cases h
  by_cases htimed : x.timedOut = true
  · rw [if_neg hexceeded, if_pos htimed] at h
    cases h
  by_cases hcode : x.returncode ≠ 0
  · rw [if_neg hexceeded, if_neg htimed, if_pos hcode] at h
    cases h
  rw [if_neg hexceeded, if_neg htimed, if_neg hcode] at h ⊢
  unfold resultFromText at h ⊢
  by_cases hempty : strip x.output = ""
  · rw [if_pos hempty] at h
    cases h
  rw [if_neg hempty] at h ⊢
  dsimp only at h ⊢
  split at h
  · next items hitems =>
    obtain ⟨records, hrecords, hitems⟩ := bind_eq_ok.mp hitems
    obtain ⟨found, hfound, hitems⟩ := bind_eq_ok.mp hitems
    cases hitems
    refine ⟨rfl, rfl, rfl, rfl, fun item hitem => ?_⟩
    have hmem : item ∈ found.reduceOption :=
      (List.perm_insertionSort _ _).mem_iff.mp (List.mem_of_mem_take hitem)
    rw [List.reduceOption_mem_iff] at hmem
    obtain ⟨record, hrecord, hone⟩ := mem_mapM hfound _ hmem
    exact checked_contextItem hdefaults (wellFormed_parseRecords hrecords record hrecord) hone
  · cases h

end ControlPlane.Provider.Results
