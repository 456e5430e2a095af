import ControlPlane.Lib.Publish
import ControlPlane.Retrieval.Budget

/-! # Retrieval traces

`writeTrace` writes the trace of a retrieval without its task to a file of the trace folder, then
removes old traces, and sends the trace to a collector if there is one.

`writeTrace_isOk`: it raises unless the file can be published, the patterns that are redacted are a list,
and every trace in the folder can be looked up. What it removes and what it sends cannot make it
raise. -/

namespace ControlPlane.Telemetry.Traces

open ControlPlane.Lib.Value ControlPlane.Lib.Print ControlPlane.Lib.Text ControlPlane.Lib.Floats
open ControlPlane.Lib.Dumps ControlPlane.Lib.Dynamic ControlPlane.Lib.Publish
open ControlPlane.Environment ControlPlane.Retrieval.Budget

variable {F : Type} (E : Env F)

/-! ### Traces -/

structure RetrievalTrace (F : Type) where
  task : String
  lane : String
  risk : String
  intent : String
  runId : String
  policyIdentity : Dict F
  workspaceFingerprint : String
  graphFingerprint : String
  startedAt : String
  providersAttempted : List String
  providersSkipped : List (String × String)
  stageLatencyMs : List (String × F)
  candidates : List (String × ℕ)
  selected : List (String × ℕ)
  sufficiency : Dict F
  fallbacks : List String
  staleRejections : ℕ
  budgetChars : ℕ
  usedChars : ℕ

/-- `asdict(trace)`. -/
def RetrievalTrace.toDict (trace : RetrievalTrace F) : Dict F :=
  [("task", .str trace.task), ("lane", .str trace.lane), ("risk", .str trace.risk),
    ("intent", .str trace.intent), ("run_id", .str trace.runId),
    ("policy_identity", .obj trace.policyIdentity),
    ("workspace_fingerprint", .str trace.workspaceFingerprint),
    ("graph_fingerprint", .str trace.graphFingerprint), ("started_at", .str trace.startedAt),
    ("providers_attempted", .arr (trace.providersAttempted.map .str)),
    ("providers_skipped", .obj (trace.providersSkipped.map fun p => (p.1, .str p.2))),
    ("stage_latency_ms", .obj (trace.stageLatencyMs.map fun p => (p.1, .float p.2))),
    ("candidates", .obj (trace.candidates.map fun p => (p.1, .int p.2))),
    ("selected", .obj (trace.selected.map fun p => (p.1, .int p.2))),
    ("sufficiency", .obj trace.sufficiency), ("fallbacks", .arr (trace.fallbacks.map .str)),
    ("stale_rejections", .int trace.staleRejections), ("budget_chars", .int trace.budgetChars),
    ("used_chars", .int trace.usedChars)]

def traceEnabled (config : Dict F) (lane : String) : Py Bool := do
  let mode ← E.str ((lookup "mode" (contextSection config "telemetry")).getD (.str "mutations"))
  return if E.lower mode = "off" then false else if E.lower mode = "all" then true else lane != "answer"

/-! ### Privacy -/

/-- What the platform does for a trace: `re.sub(pattern, "[REDACTED]", text)`, unless the pattern is no
regular expression, and the key of the task fingerprints, if one is set. -/
structure Privacy where
  sub : String → String → Option String
  hmacKey : Option Key

/-- `_redact`. -/
def redact (p : Privacy) (value : String) (patterns : List String) : String :=
  patterns.foldl (fun out pattern => (p.sub pattern out).getD out) value

mutual
/-- `_redact_tree`. -/
def redactTree (p : Privacy) (patterns : List String) : Json F → Json F
  | .str s => .str (redact p s patterns)
  | .arr xs => .arr (redactList p patterns xs)
  | .obj d => .obj (redactDict p patterns d)
  | v => v
/-- `_redact_tree` of the elements of a list. -/
def redactList (p : Privacy) (patterns : List String) : List (Json F) → List (Json F)
  | [] => []
  | x :: xs => redactTree p patterns x :: redactList p patterns xs
/-- `_redact_tree` of the values of an object. -/
def redactDict (p : Privacy) (patterns : List String) : Dict F → Dict F
  | [] => []
  | (k, x) :: d => (k, redactTree p patterns x) :: redactDict p patterns d
end

/-- The texts of some values, without the empty ones. -/
def textsOf : List (Json F) → Py (List String)
  | [] => .ok []
  | x :: xs => do
    let text ← E.str x
    let rest ← textsOf xs
    return if text = "" then rest else text :: rest

def redactPatterns (cfg : Dict F) : Py (List String) := do
  let raw := getKey cfg "redact_patterns"
  textsOf E (← toList (if truthy E.T raw then raw else .arr []))

/-- `_privacy_payload`. -/
def privacyPayload (p : Privacy) (trace : RetrievalTrace F) (cfg : Dict F) (includeTaskText : Bool) :
    Py (Dict F) := do
  let payload := eraseKey "task" trace.toDict
  let payload := match p.hmacKey with
    | some key => setKey "task_fingerprint" (.str (E.hmac key trace.task)) payload
    | none => payload
  let patterns ← redactPatterns E cfg
  return redactDict p patterns
    (if includeTaskText then setKey "task" (.str (redact p trace.task patterns)) payload else payload)

/-! ### Files -/

/-- `raise OSError` at the first of some steps that raises. -/
def raiseFirst (f : Faults) (steps : List Step) : Py Unit :=
  match firstError f steps with
  | some _ => .error (.osError "")
  | none => .ok ()

/-- `LocalJsonSink.emit`. -/
def emit (payload : Dict F) (f : Faults) : Py Unit := do
  raiseFirst f [.makeFolder]
  let _ ← E.fileText false (.obj payload)
  raiseFirst f [.makeTemporary, .write, .sync, .publish]

/-- A trace in the folder: when it was modified, each time it is looked up, and whether it can be
removed. -/
structure TraceFile (F : Type) where
  name : String
  modified : Option F
  modifiedLater : Option F
  removable : Bool

/-- The trace folder as it is found: whether it is there and what it holds, unless looking this up
raises. -/
structure TraceFolder (F : Type) where
  found : Option Bool
  files : Option (List (TraceFile F))

/-- `max(low, int(v))`, or a default if there is no such number. -/
def intOr (v : Json F) (low default : ℤ) : Py ℤ :=
  match E.toInt v with
  | .ok n => .ok (max low n)
  | .error (.typeError _) => .ok default
  | .error (.valueError _) => .ok default
  | .error e => .error e

/-- The time before which a trace is old, if there is one. -/
def cutoff (now : F) (days : ℤ) : Py (Option Num) :=
  if 0 < days then do return some (E.T.sub (E.T.view now) (E.T.view (← E.floatOfInt (days * 86400))))
  else .ok none

/-- The files with their times, the latest first. -/
def latestFirst (files : List (TraceFile F × F)) : List (TraceFile F) :=
  (files.insertionSort fun a b => (E.T.view b.2).le (E.T.view a.2) = true).map Prod.fst

/-- The files with their times, if each of them has one. -/
def timed : List (TraceFile F) → Py (List (TraceFile F × F))
  | [] => .ok []
  | file :: files => match file.modified with
    | some time => do return (file, time) :: (← timed files)
    | none => .error (.osError "")

/-- The trace is old and has been removed. -/
def expires (limit : Option Num) (file : TraceFile F) : Bool :=
  match limit, file.modifiedLater with
  | some limit, some time => (E.T.view time).lt limit && file.removable
  | _, _ => false

/-- The names of the removed traces: the old ones, and all but the latest. -/
def removed (limit : Option Num) (maxFiles : ℕ) (files : List (TraceFile F)) : List String :=
  (files.filter (expires E limit) ++
    ((files.filter fun file => !expires E limit file).drop maxFiles).filter TraceFile.removable).map
      TraceFile.name

/-- The traces in the folder with their times. -/
def listed (folder : TraceFolder F) : Py (List (TraceFile F × F)) :=
  match folder.files with
  | none => .error (.osError "")
  | some files => timed files

/-- `_prune_traces`. -/
def pruneTraces (cfg : Dict F) (now : F) (folder : TraceFolder F) : Py (List String) :=
  match folder.found with
  | none => .error (.osError "")
  | some false => .ok []
  | some true => do
    let days ← intOr E ((lookup "retention_days" cfg).getD (.int 30)) 0 30
    let maxFiles ← intOr E ((lookup "max_trace_files" cfg).getD (.int 200)) 1 200
    let files ← listed folder
    let limit ← cutoff E now days
    return removed E limit maxFiles.toNat (latestFirst E files)

/-- The state of the platform that a trace meets. -/
structure TraceHost (F : Type) where
  privacy : Privacy
  faults : Faults
  name : String
  folder : TraceFolder F
  now : F
  /-- Whether the task is sent along to the collector, if there is one. -/
  collector : Option Bool

/-- `write_trace`; an export that fails is logged and forgotten. -/
def writeTrace (trace : RetrievalTrace F) (config : Dict F) (host : TraceHost F) : Py String := do
  let cfg := contextSection config "telemetry"
  let payload ← privacyPayload E host.privacy trace cfg false
  emit E payload host.faults
  let _ ← pruneTraces E cfg host.now host.folder
  match host.collector with
  | some includeTaskText => do
    let _ ← privacyPayload E host.privacy trace cfg includeTaskText
    return "ai-workspace/generated/traces/" ++ host.name
  | none => return "ai-workspace/generated/traces/" ++ host.name

/-! ### When a trace is written -/

/-- The trace folder is not there, or its traces can be looked up and the time before which a trace is
old can be computed. -/
def Prunable (E : Env F) (cfg : Dict F) (folder : TraceFolder F) : Prop :=
  folder.found = some false ∨ (folder.found = some true ∧
    (∃ days, intOr E ((lookup "retention_days" cfg).getD (.int 30)) 0 30 = .ok days ∧
      (0 < days → E.T.finite (E.T.ofRat (days * 86400 : ℤ)) = true)) ∧
    (∃ n, intOr E ((lookup "max_trace_files" cfg).getD (.int 200)) 1 200 = .ok n) ∧
    ∃ files, folder.files = some files ∧ ∀ file ∈ files, file.modified ≠ none)

/-- The patterns can be read, the numbers of the trace have a text, the file is published, and the folder
can be pruned. -/
structure Traceable (E : Env F) (trace : RetrievalTrace F) (config : Dict F) (host : TraceHost F) :
    Prop where
  patterns : ∃ patterns, redactPatterns E (contextSection config "telemetry") = .ok patterns
  numbers : printable E.T.toFloatText true (.obj trace.toDict) = true
  published : host.faults.publishes = true
  prunable : Prunable E (contextSection config "telemetry") host.folder

variable {E}

theorem redactDict_eq (p : Privacy) (patterns : List String) (d : Dict F) :
    redactDict p patterns d = d.map fun q => (q.1, redactTree p patterns q.2) := by
  induction d with
  | nil => rfl
  | cons q d ih =>
    obtain ⟨k, x⟩ := q
    rw [redactDict, ih]
    rfl

theorem redactList_eq (p : Privacy) (patterns : List String) (xs : List (Json F)) :
    redactList p patterns xs = xs.map (redactTree p patterns) := by
  induction xs with
  | nil => rfl
  | cons x xs ih => rw [redactList, ih, List.map_cons]

/-- Redaction leaves the numbers as they are. -/
theorem printable_redactTree {T : FloatText F} (p : Privacy) (patterns : List String) (a : Bool)
    (v : Json F) : printable T a (redactTree p patterns v) = printable T a v := by
  rw [Bool.eq_iff_iff]
  induction v using Json.induct with
  | arr xs ih =>
    rw [redactTree, redactList_eq, printable_arr, printable_arr, List.forall_mem_map]
    exact forall₂_congr ih
  | obj d ih =>
    rw [redactTree, redactDict_eq, printable_obj, printable_obj, List.forall_mem_map]
    exact forall₂_congr ih
  | _ => simp [redactTree, printable]

/-- A text under a new key has no numbers. -/
theorem printable_setKey_str {T : FloatText F} {a : Bool} {k : String} (s : String) {d : Dict F}
    (hk : k ∉ keys d) : printable T a (.obj (setKey k (.str s) d)) = printable T a (.obj d) := by
  rw [Bool.eq_iff_iff, setKey_of_notMem hk, printable_obj, printable_obj]
  constructor
  · exact fun h p hp => h p (List.mem_append_left _ hp)
  · intro h p hp
    rcases List.mem_append.mp hp with hp | hp
    · exact h p hp
    · rw [List.mem_singleton.mp hp]
      rfl

/-- The payload has the numbers of the trace. -/
theorem printable_payload {p : Privacy} {trace : RetrievalTrace F} {cfg payload : Dict F}
    (h : privacyPayload E p trace cfg false = .ok payload) :
    printable E.T.toFloatText true (.obj payload) =
      printable E.T.toFloatText true (.obj trace.toDict) := by
  obtain ⟨patterns, -, h⟩ := bind_eq_ok.mp h
  rw [← Except.ok.inj h]
  have htask : printable E.T.toFloatText true (.obj (eraseKey "task" trace.toDict)) =
      printable E.T.toFloatText true (.obj trace.toDict) := by
    simp [eraseKey, RetrievalTrace.toDict, printable, printableDict]
  have hnew : "task_fingerprint" ∉ keys (eraseKey "task" trace.toDict) := by
    simp [eraseKey, RetrievalTrace.toDict, keys]
  have hred : ∀ d : Dict F, printable E.T.toFloatText true (.obj (redactDict p patterns d)) =
      printable E.T.toFloatText true (.obj d) := by
    intro d
    have h := @printable_redactTree F E.T.toFloatText p patterns true (.obj d)
    rwa [redactTree] at h
  rw [hred]
  cases p.hmacKey with
  | none => exact htask
  | some key =>
    dsimp only
    rw [if_neg (by decide), printable_setKey_str _ hnew, htask]

theorem fileText_isOk {sorted : Bool} {v : Json F} : (∃ text, E.fileText sorted v = .ok text) ↔
    printable E.T.toFloatText true v = true := by
  have hsort : printable E.T.toFloatText true (if sorted then sortKeys v else v) =
      printable E.T.toFloatText true v := by
    split_ifs
    · exact printable_sortKeys true v
    · rfl
  unfold Env.fileText jsonDumps dumps
  rw [hsort]
  by_cases h : printable E.T.toFloatText true v = true
  · rw [if_pos h]
    exact ⟨fun _ => h, fun _ => ⟨_, rfl⟩⟩
  · rw [if_neg h]
    constructor
    · rintro ⟨text, ht⟩
      cases ht
    · exact fun hv => absurd hv h

theorem raiseFirst_eq_ok {f : Faults} {steps : List Step} {u : Unit} :
    raiseFirst f steps = .ok u ↔ firstError f steps = none := by
  unfold raiseFirst
  cases firstError f steps <;> simp

theorem emit_eq_ok {payload : Dict F} {f : Faults} {u : Unit} : emit E payload f = .ok u ↔
    f.publishes = true ∧ printable E.T.toFloatText true (.obj payload) = true := by
  have hsteps := firstError_append (f := f) [.makeFolder] [.makeTemporary, .write, .sync, .publish]
  rw [List.cons_append, List.nil_append] at hsteps
  unfold emit Faults.publishes
  rw [Option.isNone_iff_eq_none, hsteps, Option.or_eq_none_iff, ← @fileText_isOk F E false]
  constructor
  · intro h
    obtain ⟨_, h1, h⟩ := bind_eq_ok.mp h
    obtain ⟨text, ht, h⟩ := bind_eq_ok.mp h
    exact ⟨⟨raiseFirst_eq_ok.mp h1, raiseFirst_eq_ok.mp h⟩, text, ht⟩
  · rintro ⟨⟨h1, h2⟩, text, ht⟩
    exact bind_eq_ok.mpr ⟨(), raiseFirst_eq_ok.mpr h1, bind_eq_ok.mpr ⟨text, ht,
      raiseFirst_eq_ok.mpr h2⟩⟩

theorem timed_isOk : ∀ {files : List (TraceFile F)}, (∃ times, timed files = .ok times) ↔
    ∀ file ∈ files, file.modified ≠ none
  | [] => by simp [timed]
  | file :: files => by
    rw [List.forall_mem_cons, ← timed_isOk, timed]
    cases file.modified with
    | none => simp
    | some time =>
      constructor
      · rintro ⟨times, h⟩
        obtain ⟨rest, hr, -⟩ := bind_eq_ok.mp h
        exact ⟨by simp, rest, hr⟩
      · rintro ⟨-, rest, hr⟩
        exact ⟨_, bind_eq_ok.mpr ⟨rest, hr, rfl⟩⟩

theorem listed_isOk {folder : TraceFolder F} : (∃ times, listed folder = .ok times) ↔
    ∃ files, folder.files = some files ∧ ∀ file ∈ files, file.modified ≠ none := by
  unfold listed
  cases folder.files with
  | none => simp
  | some files => simp [← timed_isOk]

theorem cutoff_isOk {now : F} {days : ℤ} : (∃ limit, cutoff E now days = .ok limit) ↔
    (0 < days → E.T.finite (E.T.ofRat (days * 86400 : ℤ)) = true) := by
  unfold cutoff Env.floatOfInt
  dsimp only
  by_cases hd : 0 < days
  · rw [if_pos hd]
    by_cases hf : E.T.finite (E.T.ofRat (days * 86400 : ℤ)) = true
    · rw [if_pos hf]
      exact ⟨fun _ _ => hf, fun _ => ⟨_, rfl⟩⟩
    · rw [if_neg hf]
      constructor
      · rintro ⟨limit, h⟩
        cases h
      · exact fun h => absurd (h hd) hf
  · rw [if_neg hd]
    exact ⟨fun _ h => absurd h hd, fun _ => ⟨_, rfl⟩⟩

/-- **When the folder can be pruned.** -/
theorem pruneTraces_isOk {cfg : Dict F} {now : F} {folder : TraceFolder F} :
    (∃ names, pruneTraces E cfg now folder = .ok names) ↔ Prunable E cfg folder := by
  unfold pruneTraces Prunable
  cases hfound : folder.found with
  | none => simp
  | some found =>
    cases found with
    | false => simp
    | true =>
      rw [← listed_isOk]
      constructor
      · rintro ⟨names, h⟩
        obtain ⟨days, hdays, h⟩ := bind_eq_ok.mp h
        obtain ⟨n, hn, h⟩ := bind_eq_ok.mp h
        obtain ⟨files, hfiles, h⟩ := bind_eq_ok.mp h
        obtain ⟨limit, hlimit, -⟩ := bind_eq_ok.mp h
        exact Or.inr ⟨rfl, ⟨days, hdays, cutoff_isOk.mp ⟨limit, hlimit⟩⟩, ⟨n, hn⟩, files, hfiles⟩
      · rintro (h | ⟨-, ⟨days, hdays, hfin⟩, ⟨n, hn⟩, files, hfiles⟩)
        · cases h
        · obtain ⟨limit, hlimit⟩ := (@cutoff_isOk F E now days).mpr hfin
          exact ⟨_, bind_eq_ok.mpr ⟨days, hdays, bind_eq_ok.mpr ⟨n, hn, bind_eq_ok.mpr ⟨files, hfiles,
            bind_eq_ok.mpr ⟨limit, hlimit, rfl⟩⟩⟩⟩⟩

theorem privacyPayload_isOk {p : Privacy} {trace : RetrievalTrace F} {cfg : Dict F} {b : Bool} :
    (∃ payload, privacyPayload E p trace cfg b = .ok payload) ↔
      ∃ patterns, redactPatterns E cfg = .ok patterns := by
  constructor
  · rintro ⟨payload, h⟩
    obtain ⟨patterns, hp, -⟩ := bind_eq_ok.mp h
    exact ⟨patterns, hp⟩
  · rintro ⟨patterns, hp⟩
    exact ⟨_, bind_eq_ok.mpr ⟨patterns, hp, rfl⟩⟩

/-- **When a trace is written.** -/
theorem writeTrace_isOk {trace : RetrievalTrace F} {config : Dict F} {host : TraceHost F} :
    (∃ path, writeTrace E trace config host = .ok path) ↔ Traceable E trace config host := by
  unfold writeTrace
  constructor
  · rintro ⟨path, h⟩
    obtain ⟨payload, hpay, h⟩ := bind_eq_ok.mp h
    obtain ⟨_, hemit, h⟩ := bind_eq_ok.mp h
    obtain ⟨names, hprune, -⟩ := bind_eq_ok.mp h
    obtain ⟨hpub, hnum⟩ := emit_eq_ok.mp hemit
    rw [printable_payload hpay] at hnum
    exact ⟨privacyPayload_isOk.mp ⟨payload, hpay⟩, hnum, hpub, pruneTraces_isOk.mp ⟨names, hprune⟩⟩
  · rintro ⟨hpat, hnum, hpub, hprune⟩
    obtain ⟨payload, hpay⟩ := (@privacyPayload_isOk F E host.privacy trace
      (contextSection config "telemetry") false).mpr hpat
    obtain ⟨names, hnames⟩ := (@pruneTraces_isOk F E _ host.now _).mpr hprune
    rw [← printable_payload hpay] at hnum
    have hend : ∃ path, (match host.collector with
        | some includeTaskText => do
          let _ ← privacyPayload E host.privacy trace (contextSection config "telemetry")
            includeTaskText
          return "ai-workspace/generated/traces/" ++ host.name
        | none => .ok ("ai-workspace/generated/traces/" ++ host.name)) = (.ok path : Py String) := by
      cases host.collector with
      | none => exact ⟨_, rfl⟩
      | some includeTaskText =>
        obtain ⟨sent, hsent⟩ := (@privacyPayload_isOk F E host.privacy trace
          (contextSection config "telemetry") includeTaskText).mpr hpat
        exact ⟨_, bind_eq_ok.mpr ⟨sent, hsent, rfl⟩⟩
    obtain ⟨path, hpath⟩ := hend
    exact ⟨path, bind_eq_ok.mpr ⟨payload, hpay, bind_eq_ok.mpr ⟨(), emit_eq_ok.mpr ⟨hpub, hnum⟩,
      bind_eq_ok.mpr ⟨names, hnames, hpath⟩⟩⟩⟩

end ControlPlane.Telemetry.Traces
