import ControlPlane.Environment

/-! # The run journal

The record of a run with its decisions as a chain of events: each event is hashed together with the
digest of the one before it, and the whole record is hashed, too. `chainReplayEvents` builds the chain,
`buildReplayJournal` the record.

`chainFrom_eq_ok`, `build_isOk`: what can be recorded is a safe run id, a bounded list of changed files,
the seven kinds of events in their order, and numbers that canonical JSON has. -/

namespace ControlPlane.Journal.Build

open ControlPlane.Lib.Value ControlPlane.Lib.Print ControlPlane.Lib.Text ControlPlane.Lib.RoundTrip
open ControlPlane.Lib.Dumps ControlPlane.Lib.Dynamic ControlPlane.Environment

variable {F : Type} (E : Env F) (isalnum : Char → Bool)

def replaySchemaVersion : String := "ai-workflow-run-journal-v2"

def replayMode : String := "decision-history-only"

def expectedReplayEventKinds : List String :=
  ["routing", "repository_routing", "retrieval", "ranking", "selection", "orchestration",
    "authorization"]

def maxChangedFiles : ℕ := 4096

def maxChangedFileChars : ℕ := 4096

/-- The fields of a record that are objects. -/
def requiredMappings : List String :=
  ["policy_identity", "workspace_state", "graph_state", "repository_state", "provider_versions",
    "retrieval"]

/-! ### Values -/

/-- `v or ""`. -/
def orEmpty (v : Json F) : Json F := if truthy E.T v then v else .str ""

def isObj : Json F → Bool
  | .obj _ => true
  | _ => false

def isArr : Json F → Bool
  | .arr _ => true
  | _ => false

/-- The letters, digits, hyphens and underscores of a text. -/
def safeChars (value : String) : String :=
  String.ofList (value.toList.filter fun c => isalnum c || c == '-' || c == '_')

def safeRunId (runId : String) : Py String :=
  if strip runId = "" ∨ safeChars isalnum (strip runId) ≠ strip runId then
    .error (.valueError "invalid run_id")
  else .ok (strip runId)

/-- `_canonical`: JSON with sorted keys, without infinite floats and NaN. -/
def canonicalStrict (v : Json F) : Py String :=
  match dumps E.T.toFloatText (compact false) false (sortKeys v) with
  | some s => .ok s
  | none => .error (.valueError
      (if printable E.T.toFloatText true v then "Out of range float values are not JSON compliant"
        else digitsMsg))

/-- `_json_clone`. -/
def jsonClone (v : Json F) : Py (Json F) := do E.jsonLoads (← canonicalStrict E v)

/-- `_sha256`. -/
def sha256 (v : Json F) : Py String := do return "sha256:" ++ E.sha256 (← canonicalStrict E v)

/-- `_journal_digest`. -/
def journalDigest (record : Dict F) : Py String := sha256 E (.obj (eraseKey "journal_digest" record))

/-! ### Changed files -/

/-- A path that may stand in a record. -/
def validPath (path : String) : Bool :=
  path != "" && !path.toList.contains '\x00' && decide (path.length ≤ maxChangedFileChars)

/-- The paths of a list of values. -/
def changedPaths : List (Json F) → Py (List String)
  | [] => .ok []
  | .str path :: items =>
    if validPath path then do return path :: (← changedPaths items)
    else .error (.valueError "changed_files contains an invalid path")
  | _ :: _ => .error (.valueError "changed_files contains an invalid path")

/-- `_validated_changed_files`. -/
def validatedChangedFiles (record : Dict F) : Py (List String) :=
  match getKey record "changed_files" with
  | .arr raw =>
    if maxChangedFiles < raw.length then
      .error (.valueError "changed_files exceeds replay safety bound")
    else changedPaths raw
  | _ => .error (.valueError "changed_files must be a list")

/-! ### The chain -/

def kindOf (raw : Dict F) : Py String := do
  return strip (← E.str (orEmpty E (getKey raw "kind")))

/-- The payload of an event, as canonical JSON has it. -/
def payloadOf (raw : Dict F) : Py (Json F) :=
  match getKey raw "payload" with
  | .obj payload => jsonClone E (.obj payload)
  | _ => .error (.valueError "replay event payload must be an object")

/-- What is hashed of an event. -/
def eventBody (sequence : ℕ) (kind : String) (previous payload : Json F) : Dict F :=
  [("sequence", .int sequence), ("kind", .str kind), ("previous_event_digest", previous),
    ("payload", payload)]

/-- An event of the chain. -/
def chainedEvent (sequence : ℕ) (kind : String) (previous payload : Json F) (digest : String) : Dict F :=
  eventBody sequence kind previous payload ++ [("event_digest", .str digest)]

/-- The events from number `sequence` on, after an event with the digest `previous`. -/
def chainFrom (sequence : ℕ) (previous : Json F) : List (Dict F) → Py (List (Dict F))
  | [] => .ok []
  | raw :: events => do
    let kind ← kindOf E raw
    require (kind != "") "replay event kind must not be blank"
    let payload ← payloadOf E raw
    let digest ← sha256 E (.obj (eventBody sequence kind previous payload))
    let rest ← chainFrom (sequence + 1) (.str digest) events
    return chainedEvent sequence kind previous payload digest :: rest

def chainReplayEvents (events : List (Dict F)) : Py (List (Dict F)) := chainFrom E 0 .null events

/-- The digest of the last event. -/
def headDigest (chained : List (Dict F)) : Json F :=
  (chained.getLast?.map fun event => getKey event "event_digest").getD .null

/-! ### The record -/

/-- The entries of an object. -/
def entriesOf : Json F → Dict F
  | .obj d => d
  | _ => []

def checkMappings (normalized : Dict F) : List String → Py Unit
  | [] => .ok ()
  | key :: keys => do
    require (isObj (getKey normalized key)) (key ++ " must be an object")
    checkMappings normalized keys

/-- The journal without its digest. -/
def journalBody (normalized : Dict F) (runId : String) (chained : List (Dict F)) : Dict F :=
  setKey "replay_events" (.arr (chained.map .obj)) <|
    setKey "replay_head_digest" (headDigest chained) <|
    setKey "replay_event_count" (.int chained.length) <|
    setKey "run_id" (.str runId) <|
    setKey "replay_mode" (.str replayMode) <|
    setKey "schema_version" (.str replaySchemaVersion) normalized

def buildReplayJournal (record : Dict F) (events : List (Dict F)) : Py (Dict F) := do
  let runId ← safeRunId isalnum (← E.str (orEmpty E (getKey record "run_id")))
  let normalized ← jsonClone E (.obj record)
  checkMappings (entriesOf normalized) requiredMappings
  require (isArr (getKey (entriesOf normalized) "selected_evidence")) "selected_evidence must be a list"
  let _ ← validatedChangedFiles (entriesOf normalized)
  let kinds ← events.mapM (kindOf E)
  require (decide (kinds = expectedReplayEventKinds))
    "replay events must match the v2 event contract exactly"
  let chained ← chainReplayEvents E events
  let journal := journalBody (entriesOf normalized) runId chained
  return setKey "journal_digest" (.str (← journalDigest E journal)) journal

/-! ### What has a digest -/

/-- The digest of a value that has one. -/
def digestOf (v : Json F) : String := "sha256:" ++ E.sha256 (canonicalText E.T v)

variable {E isalnum}

theorem canonicalStrict_eq_ok {v : Json F} {s : String} : canonicalStrict E v = .ok s ↔
    printable E.T.toFloatText false v = true ∧ s = canonicalText E.T v := by
  unfold canonicalStrict dumps canonicalText
  rw [printable_sortKeys]
  split_ifs with h <;> simp [h, eq_comm]

theorem sha256_eq_ok {v : Json F} {s : String} : sha256 E v = .ok s ↔
    printable E.T.toFloatText false v = true ∧ s = digestOf E v := by
  unfold sha256
  rw [bind_eq_ok]
  constructor
  · rintro ⟨text, ht, h⟩
    obtain ⟨hp, rfl⟩ := canonicalStrict_eq_ok.mp ht
    exact ⟨hp, (Except.ok.inj h).symm⟩
  · rintro ⟨hp, rfl⟩
    exact ⟨_, canonicalStrict_eq_ok.mpr ⟨hp, rfl⟩, rfl⟩

/-- **A clone is the value with sorted keys.** -/
theorem jsonClone_eq_ok {v w : Json F} (hv : wellFormed v = true) : jsonClone E v = .ok w ↔
    printable E.T.toFloatText false v = true ∧ w = sortKeys v := by
  have hloads : printable E.T.toFloatText false v = true →
      E.jsonLoads (canonicalText E.T v) = .ok (sortKeys v) := by
    intro hp
    have hd : dumps E.T.toFloatText (compact false) false (sortKeys v) =
        some (canonicalText E.T v) := dumps_eq_some.mpr ⟨by rwa [printable_sortKeys], rfl⟩
    have hl := loads_dumps (by rwa [wellFormed_sortKeys]) hd (b := []) (by simp)
    rw [List.append_nil, String.ofList_toList] at hl
    exact (jsonLoads_eq_ok E).mpr hl
  unfold jsonClone
  rw [bind_eq_ok]
  constructor
  · rintro ⟨text, ht, h⟩
    obtain ⟨hp, rfl⟩ := canonicalStrict_eq_ok.mp ht
    rw [hloads hp] at h
    exact ⟨hp, (Except.ok.inj h).symm⟩
  · rintro ⟨hp, rfl⟩
    exact ⟨_, canonicalStrict_eq_ok.mpr ⟨hp, rfl⟩, hloads hp⟩

theorem isObj_sortKeys (v : Json F) : isObj (sortKeys v) = isObj v := by
  cases v <;> simp [isObj]

theorem isArr_sortKeys (v : Json F) : isArr (sortKeys v) = isArr v := by
  cases v <;> simp [isArr]

/-! ### What can be recorded -/

/-- An event that can be chained. -/
structure Chainable (E : Env F) (raw : Dict F) : Prop where
  kind : ∃ kind, kindOf E raw = .ok kind ∧ kind ≠ ""
  object : isObj (getKey raw "payload") = true
  numbers : printable E.T.toFloatText false (getKey raw "payload") = true

theorem payloadOf_eq_ok {raw : Dict F} {payload : Json F} (hraw : wellFormed (.obj raw) = true) :
    payloadOf E raw = .ok payload ↔ isObj (getKey raw "payload") = true ∧
      printable E.T.toFloatText false (getKey raw "payload") = true ∧
      payload = sortKeys (getKey raw "payload") := by
  have hp := wellFormed_getKey hraw "payload"
  unfold payloadOf
  split
  · next d hd =>
    rw [hd] at hp ⊢
    rw [jsonClone_eq_ok hp]
    simp [isObj]
  · next hno =>
    constructor
    · intro h
      cases h
    · rintro ⟨h, -⟩
      cases hv : getKey raw "payload" with
      | obj d => exact absurd hv (hno d)
      | _ =>
        rw [hv] at h
        cases h

/-- The parts of a body are printable if the payload is. -/
theorem printable_eventBody {sequence : ℕ} (hs : sequence < 10 ^ 9) (kind : String)
    {previous payload : Json F} (hprev : printable E.T.toFloatText false previous = true)
    (hp : printable E.T.toFloatText false payload = true) :
    printable E.T.toFloatText false (.obj (eventBody sequence kind previous payload)) = true := by
  have hint : printable E.T.toFloatText false (.int (sequence : ℤ) : Json F) = true :=
    printable_small false (by simpa using hs)
  rw [printable_obj]
  intro p hmem
  simp only [eventBody, List.mem_cons, List.not_mem_nil, or_false] at hmem
  rcases hmem with rfl | rfl | rfl | rfl
  · exact hint
  · rfl
  · exact hprev
  · exact hp

/-- **One link of the chain.** -/
theorem chainFrom_cons_eq_ok {sequence : ℕ} {previous : Json F} {raw : Dict F} {events : List (Dict F)}
    {chained : List (Dict F)} (hraw : wellFormed (.obj raw) = true) (hs : sequence < 10 ^ 9)
    (hprev : printable E.T.toFloatText false previous = true) :
    chainFrom E sequence previous (raw :: events) = .ok chained ↔
      ∃ kind rest, kindOf E raw = .ok kind ∧ kind ≠ "" ∧ isObj (getKey raw "payload") = true ∧
        printable E.T.toFloatText false (getKey raw "payload") = true ∧
        chainFrom E (sequence + 1) (.str (digestOf E (.obj (eventBody sequence kind previous
          (sortKeys (getKey raw "payload")))))) events = .ok rest ∧
        chained = chainedEvent sequence kind previous (sortKeys (getKey raw "payload"))
          (digestOf E (.obj (eventBody sequence kind previous (sortKeys (getKey raw "payload"))))) ::
            rest := by
  rw [chainFrom]
  constructor
  · intro h
    obtain ⟨kind, hkind, h⟩ := bind_eq_ok.mp h
    obtain ⟨u, hne, h⟩ := bind_eq_ok.mp h
    obtain ⟨payload, hpay, h⟩ := bind_eq_ok.mp h
    obtain ⟨digest, hdig, h⟩ := bind_eq_ok.mp h
    obtain ⟨rest, hrest, h⟩ := bind_eq_ok.mp h
    obtain ⟨hobj, hnum, rfl⟩ := (payloadOf_eq_ok hraw).mp hpay
    obtain ⟨-, rfl⟩ := sha256_eq_ok.mp hdig
    exact ⟨kind, rest, hkind, by simpa using hne, hobj, hnum, hrest, (Except.ok.inj h).symm⟩
  · rintro ⟨kind, rest, hkind, hne, hobj, hnum, hrest, rfl⟩
    refine bind_eq_ok.mpr ⟨kind, hkind, bind_eq_ok.mpr ⟨(), by simpa using hne, ?_⟩⟩
    refine bind_eq_ok.mpr ⟨_, (payloadOf_eq_ok hraw).mpr ⟨hobj, hnum, rfl⟩, ?_⟩
    have hbody := printable_eventBody hs kind hprev
      (show printable E.T.toFloatText false (sortKeys (getKey raw "payload")) = true by
        rwa [printable_sortKeys])
    refine bind_eq_ok.mpr ⟨_, sha256_eq_ok.mpr ⟨hbody, rfl⟩, ?_⟩
    exact bind_eq_ok.mpr ⟨rest, hrest, rfl⟩

/-- **The events that can be chained.** -/
theorem chainFrom_isOk : ∀ (events : List (Dict F)) {sequence : ℕ} {previous : Json F},
    (∀ raw ∈ events, wellFormed (.obj raw) = true) → sequence + events.length < 10 ^ 9 →
    printable E.T.toFloatText false previous = true →
    ((∃ chained, chainFrom E sequence previous events = .ok chained) ↔
      ∀ raw ∈ events, Chainable E raw)
  | [], _, _, _, _, _ => by simp [chainFrom]
  | raw :: events, sequence, previous, hwf, hs, hprev => by
    rw [List.length_cons] at hs
    rw [List.forall_mem_cons] at hwf ⊢
    have hlink : ∀ chained, _ ↔ _ := fun chained =>
      @chainFrom_cons_eq_ok F E sequence previous raw events chained hwf.1 (by omega) hprev
    have hrest : ∀ digest : String, _ ↔ _ := fun digest =>
      @chainFrom_isOk events (sequence + 1) (.str digest) hwf.2 (by omega) rfl
    constructor
    · rintro ⟨chained, h⟩
      obtain ⟨kind, rest, hkind, hne, hobj, hnum, hr, -⟩ := (hlink chained).mp h
      exact ⟨⟨⟨kind, hkind, hne⟩, hobj, hnum⟩, (hrest _).mp ⟨rest, hr⟩⟩
    · rintro ⟨⟨⟨kind, hkind, hne⟩, hobj, hnum⟩, hall⟩
      obtain ⟨rest, hr⟩ := (hrest (digestOf E (.obj (eventBody sequence kind previous
        (sortKeys (getKey raw "payload")))))).mpr hall
      exact ⟨_, (hlink _).mpr ⟨kind, rest, hkind, hne, hobj, hnum, hr, rfl⟩⟩

/-- The events of a chain have a text, and distinct keys. -/
theorem chained_ok : ∀ (events : List (Dict F)) {sequence : ℕ} {previous : Json F}
    {chained : List (Dict F)}, (∀ raw ∈ events, wellFormed (.obj raw) = true) →
    sequence + events.length < 10 ^ 9 → printable E.T.toFloatText false previous = true →
    wellFormed previous = true → chainFrom E sequence previous events = .ok chained →
    chained.length = events.length ∧ ∀ event ∈ chained,
      printable E.T.toFloatText false (.obj event) = true ∧ wellFormed (.obj event) = true
  | [], _, _, chained, _, _, _, _, h => by
    rw [chainFrom, Except.ok.injEq] at h
    subst h
    simp
  | raw :: events, sequence, previous, chained, hwf, hs, hprev, hpwf, h => by
    rw [List.length_cons] at hs
    rw [List.forall_mem_cons] at hwf
    obtain ⟨kind, rest, -, -, -, hnum, hr, rfl⟩ :=
      (chainFrom_cons_eq_ok hwf.1 (by omega) hprev).mp h
    obtain ⟨hlen, hall⟩ := chained_ok events hwf.2 (by omega) rfl rfl hr
    have hpay : printable E.T.toFloatText false (sortKeys (getKey raw "payload")) = true := by
      rwa [printable_sortKeys]
    have hbody := @printable_eventBody F E sequence (by omega) kind _ _ hprev hpay
    have hpaywf : wellFormed (sortKeys (getKey raw "payload")) = true := by
      rw [wellFormed_sortKeys]
      exact wellFormed_getKey hwf.1 _
    refine ⟨by rw [List.length_cons, List.length_cons, hlen], List.forall_mem_cons.mpr ⟨⟨?_, ?_⟩, hall⟩⟩
    · rw [printable_obj] at hbody ⊢
      intro p hp
      rcases List.mem_append.mp hp with hp | hp
      · exact hbody p hp
      · rw [List.mem_singleton.mp hp]
        rfl
    · simp [chainedEvent, eventBody, keys, hpwf, hpaywf]

theorem checkMappings_eq_ok {normalized : Dict F} : ∀ (names : List String) {u : Unit},
    checkMappings normalized names = .ok u ↔ ∀ name ∈ names, isObj (getKey normalized name) = true
  | [], _ => by simp [checkMappings]
  | name :: names, u => by
    rw [checkMappings, bind_eq_ok, List.forall_mem_cons]
    constructor
    · rintro ⟨v, hv, h⟩
      exact ⟨require_eq_ok.mp hv, (checkMappings_eq_ok names).mp h⟩
    · rintro ⟨hv, h⟩
      exact ⟨(), require_eq_ok.mpr hv, (checkMappings_eq_ok names).mpr h⟩

/-- A list of paths that may stand in a record. -/
def ValidPaths (raw : Json F) : Prop :=
  ∃ paths : List String, raw = .arr (paths.map .str) ∧ paths.length ≤ maxChangedFiles ∧
    ∀ path ∈ paths, validPath path = true

theorem changedPaths_eq_ok : ∀ {raw : List (Json F)} {paths : List String},
    changedPaths raw = .ok paths ↔ raw = paths.map .str ∧ ∀ path ∈ paths, validPath path = true
  | [], paths => by
    rw [changedPaths, Except.ok.injEq]
    constructor
    · rintro rfl
      simp
    · rintro ⟨h, -⟩
      exact (List.map_eq_nil_iff.mp h.symm).symm
  | .str path :: items, paths => by
    rw [changedPaths]
    split_ifs with hpath
    · rw [bind_eq_ok]
      constructor
      · rintro ⟨rest, hr, h⟩
        obtain ⟨rfl, hall⟩ := changedPaths_eq_ok.mp hr
        rw [← Except.ok.inj h]
        exact ⟨rfl, List.forall_mem_cons.mpr ⟨hpath, hall⟩⟩
      · rintro ⟨hmap, hall⟩
        cases paths with
        | nil => cases hmap
        | cons q rest =>
          rw [List.map_cons, List.cons.injEq, Json.str.injEq] at hmap
          obtain ⟨rfl, rfl⟩ := hmap
          exact ⟨rest, changedPaths_eq_ok.mpr ⟨rfl, (List.forall_mem_cons.mp hall).2⟩, rfl⟩
    · constructor
      · intro h
        cases h
      · rintro ⟨hmap, hall⟩
        cases paths with
        | nil => cases hmap
        | cons q rest =>
          rw [List.map_cons, List.cons.injEq, Json.str.injEq] at hmap
          obtain ⟨rfl, -⟩ := hmap
          exact absurd (hall path (List.mem_cons_self ..)) hpath
  | .null :: _, paths => by cases paths <;> simp [changedPaths]
  | .bool _ :: _, paths => by cases paths <;> simp [changedPaths]
  | .int _ :: _, paths => by cases paths <;> simp [changedPaths]
  | .float _ :: _, paths => by cases paths <;> simp [changedPaths]
  | .arr _ :: _, paths => by cases paths <;> simp [changedPaths]
  | .obj _ :: _, paths => by cases paths <;> simp [changedPaths]

theorem validatedChangedFiles_isOk {record : Dict F} :
    (∃ paths, validatedChangedFiles record = .ok paths) ↔
      ValidPaths (getKey record "changed_files") := by
  unfold validatedChangedFiles ValidPaths
  split
  · next raw hget =>
    rw [hget]
    constructor
    · rintro ⟨paths, h⟩
      split_ifs at h with hlen
      obtain ⟨rfl, hall⟩ := changedPaths_eq_ok.mp h
      rw [List.length_map] at hlen
      exact ⟨paths, rfl, by omega, hall⟩
    · rintro ⟨paths, hraw, hlen, hall⟩
      rw [Json.arr.injEq] at hraw
      have hle : ¬ maxChangedFiles < raw.length := by
        rw [hraw, List.length_map]
        omega
      rw [if_neg hle]
      exact ⟨paths, changedPaths_eq_ok.mpr ⟨hraw, hall⟩⟩
  · next hno =>
    constructor
    · rintro ⟨paths, h⟩
      cases h
    · rintro ⟨paths, h, -⟩
      exact absurd h (hno _)

/-- A record and the events that a journal can be built of. -/
structure Recordable (E : Env F) (isalnum : Char → Bool) (record : Dict F) (events : List (Dict F)) :
    Prop where
  runId : ∃ text, E.str (orEmpty E (getKey record "run_id")) = .ok text ∧ strip text ≠ "" ∧
    safeChars isalnum (strip text) = strip text
  numbers : printable E.T.toFloatText false (.obj record) = true
  mappings : ∀ name ∈ requiredMappings, isObj (getKey record name) = true
  evidence : isArr (getKey record "selected_evidence") = true
  changed : ValidPaths (getKey record "changed_files")
  kinds : events.mapM (kindOf E) = .ok expectedReplayEventKinds
  payloads : ∀ raw ∈ events, isObj (getKey raw "payload") = true ∧
    printable E.T.toFloatText false (getKey raw "payload") = true

theorem safeRunId_eq_ok {runId safe : String} : safeRunId isalnum runId = .ok safe ↔
    (strip runId ≠ "" ∧ safeChars isalnum (strip runId) = strip runId) ∧ safe = strip runId := by
  unfold safeRunId
  split_ifs with h
  · constructor
    · intro hok
      cases hok
    · rintro ⟨⟨hne, hsafe⟩, -⟩
      exact absurd h (not_or.mpr ⟨hne, not_not.mpr hsafe⟩)
  · rw [not_or, not_not] at h
    simp [h, eq_comm]

theorem getKey_sorted {record : Dict F} (hrec : wellFormed (.obj record) = true) (name : String) :
    getKey (sortDict record) name = sortKeys (getKey record name) :=
  getKey_sortDict ((wellFormed_obj record).mp hrec).1 name

/-- The paths of a list have no keys. -/
theorem validPaths_sortKeys {raw : Json F} : ValidPaths (sortKeys raw) ↔ ValidPaths raw := by
  have hmap : ∀ paths : List String, sortKeys (.arr (paths.map .str) : Json F) =
      .arr (paths.map .str) := by
    intro paths
    rw [sortKeys_arr, List.map_map]
    rfl
  constructor
  · rintro ⟨paths, hraw, hrest⟩
    cases raw with
    | arr xs =>
      refine ⟨paths, ?_, hrest⟩
      rw [sortKeys_arr, Json.arr.injEq] at hraw
      have hx : ∀ (xs : List (Json F)) (ps : List String), xs.map sortKeys = ps.map .str →
          xs = ps.map .str := by
        intro xs
        induction xs with
        | nil =>
          intro ps h
          cases ps with
          | nil => rfl
          | cons p ps => cases h
        | cons x xs ih =>
          intro ps h
          cases ps with
          | nil => cases h
          | cons p ps =>
            rw [List.map_cons, List.map_cons, List.cons.injEq] at h
            rw [List.map_cons, ih ps h.2]
            cases x with
            | str s => rw [← h.1, sortKeys_str]
            | _ => simp at h
      rw [hx xs paths hraw]
    | _ => simp at hraw
  · rintro ⟨paths, rfl, hrest⟩
    exact ⟨paths, hmap paths, hrest⟩

/-- The journal with its digest. -/
def sealedJournal (E : Env F) (normalized : Dict F) (runId : String) (chained : List (Dict F)) : Dict F :=
  setKey "journal_digest" (.str (digestOf E (.obj (eraseKey "journal_digest"
    (journalBody normalized runId chained))))) (journalBody normalized runId chained)

theorem headDigest_mem {chained : List (Dict F)} {P : Json F → Prop} (hnull : P .null)
    (h : ∀ event ∈ chained, P (getKey event "event_digest")) : P (headDigest chained) := by
  unfold headDigest
  cases hl : chained.getLast? with
  | none => exact hnull
  | some event => exact h event (List.mem_of_getLast? hl)

theorem printable_journalBody {normalized : Dict F} (runId : String) {chained : List (Dict F)}
    (hn : printable E.T.toFloatText false (.obj normalized) = true) (hlen : chained.length < 10 ^ 9)
    (hc : ∀ event ∈ chained, printable E.T.toFloatText false (.obj event) = true) :
    printable E.T.toFloatText false (.obj (journalBody normalized runId chained)) = true := by
  have hevents : printable E.T.toFloatText false (.arr (chained.map .obj)) = true := by
    rw [printable_arr, List.forall_mem_map]
    exact hc
  have hhead : printable E.T.toFloatText false (headDigest chained) = true :=
    @headDigest_mem F chained (fun v => printable E.T.toFloatText false v = true) rfl
      fun event he => printable_getKey (hc event he) _
  have hcount : printable E.T.toFloatText false (.int (chained.length : ℤ)) = true :=
    printable_small false (by simpa using hlen)
  unfold journalBody
  exact printable_setKey (printable_setKey (printable_setKey (printable_setKey (printable_setKey
    (printable_setKey hn _ rfl) _ rfl) _ rfl) _ hcount) _ hhead) _ hevents

theorem length_kinds : ∀ {events : List (Dict F)} {kinds : List String},
    events.mapM (kindOf E) = .ok kinds → events.length = kinds.length
  | [], kinds, h => by
    cases h
    rfl
  | raw :: events, kinds, h => by
    rw [List.mapM_cons] at h
    obtain ⟨kind, -, h⟩ := bind_eq_ok.mp h
    obtain ⟨rest, hr, h⟩ := bind_eq_ok.mp h
    rw [← Except.ok.inj h, List.length_cons, List.length_cons, length_kinds hr]

/-- The kind of an event is one of the kinds. -/
theorem kindOf_mem : ∀ {events : List (Dict F)} {kinds : List String},
    events.mapM (kindOf E) = .ok kinds → ∀ raw ∈ events, ∃ kind ∈ kinds, kindOf E raw = .ok kind
  | [], _, _, raw, hraw => by simp at hraw
  | raw :: events, kinds, h, other, hother => by
    rw [List.mapM_cons] at h
    obtain ⟨kind, hk, h⟩ := bind_eq_ok.mp h
    obtain ⟨rest, hr, h⟩ := bind_eq_ok.mp h
    rw [← Except.ok.inj h]
    rcases List.mem_cons.mp hother with rfl | hother
    · exact ⟨kind, List.mem_cons_self .., hk⟩
    · obtain ⟨other', hm, ho⟩ := kindOf_mem hr other hother
      exact ⟨other', List.mem_cons_of_mem _ hm, ho⟩

/-- The events of a recordable run can be chained. -/
theorem chainable {record : Dict F} {events : List (Dict F)} (h : Recordable E isalnum record events) :
    ∀ raw ∈ events, Chainable E raw := by
  intro raw hraw
  obtain ⟨kind, hmem, hkind⟩ := kindOf_mem h.kinds raw hraw
  have hne : ∀ kind ∈ expectedReplayEventKinds, kind ≠ "" := by decide
  exact ⟨⟨kind, hkind, hne kind hmem⟩, (h.payloads raw hraw).1, (h.payloads raw hraw).2⟩

/-- **The journal that is built.** -/
theorem build_eq_ok {record : Dict F} {events : List (Dict F)} {journal : Dict F}
    (hrec : wellFormed (.obj record) = true) (hev : ∀ raw ∈ events, wellFormed (.obj raw) = true) :
    buildReplayJournal E isalnum record events = .ok journal ↔
      Recordable E isalnum record events ∧ ∃ text chained,
        E.str (orEmpty E (getKey record "run_id")) = .ok text ∧
        chainReplayEvents E events = .ok chained ∧
        journal = sealedJournal E (sortDict record) (strip text) chained := by
  have hsort : sortKeys (.obj record) = .obj (sortDict record) := sortKeys_obj' record
  have hseven : expectedReplayEventKinds.length = 7 := rfl
  have hbody : ∀ {chained}, events.length = 7 → printable E.T.toFloatText false (.obj record) = true →
      chainReplayEvents E events = .ok chained → ∀ runId, printable E.T.toFloatText false
        (.obj (eraseKey "journal_digest" (journalBody (sortDict record) runId chained))) = true := by
    intro chained hlen hnum hchain runId
    obtain ⟨hcl, hall⟩ := chained_ok events hev (by omega) rfl rfl hchain
    refine printable_eraseKey (printable_journalBody runId ?_ (by omega) fun e he => (hall e he).1) _
    rwa [← hsort, printable_sortKeys]
  unfold buildReplayJournal
  constructor
  · intro h
    obtain ⟨text, htext, h⟩ := bind_eq_ok.mp h
    obtain ⟨runId, hrun, h⟩ := bind_eq_ok.mp h
    obtain ⟨normalized, hclone, h⟩ := bind_eq_ok.mp h
    obtain ⟨hnum, rfl⟩ := (jsonClone_eq_ok hrec).mp hclone
    rw [hsort] at h
    obtain ⟨_, hmaps, h⟩ := bind_eq_ok.mp h
    obtain ⟨_, hevid, h⟩ := bind_eq_ok.mp h
    obtain ⟨paths, hpaths, h⟩ := bind_eq_ok.mp h
    obtain ⟨kinds, hkinds, h⟩ := bind_eq_ok.mp h
    obtain ⟨_, heq, h⟩ := bind_eq_ok.mp h
    obtain ⟨chained, hchain, h⟩ := bind_eq_ok.mp h
    obtain ⟨digest, hdig, h⟩ := bind_eq_ok.mp h
    have hkinds' : kinds = expectedReplayEventKinds := by simpa using heq
    subst hkinds'
    obtain ⟨hsafe, rfl⟩ := safeRunId_eq_ok.mp hrun
    obtain ⟨-, rfl⟩ := sha256_eq_ok.mp hdig
    have hmaps' := (checkMappings_eq_ok _).mp hmaps
    have hevid' := require_eq_ok.mp hevid
    have hvalid := validatedChangedFiles_isOk.mp ⟨paths, hpaths⟩
    simp only [entriesOf, getKey_sorted hrec, isObj_sortKeys, isArr_sortKeys] at hmaps' hevid' hvalid
    refine ⟨⟨⟨text, htext, hsafe⟩, hnum, hmaps', hevid', validPaths_sortKeys.mp hvalid, hkinds, ?_⟩,
      text, chained, htext, hchain, (Except.ok.inj h).symm⟩
    have hlen := length_kinds hkinds
    have hall := (chainFrom_isOk events hev (by omega) rfl).mp ⟨chained, hchain⟩
    exact fun raw hraw => ⟨(hall raw hraw).object, (hall raw hraw).numbers⟩
  · rintro ⟨hr, text, chained, htext, hchain, rfl⟩
    obtain ⟨text', htext', hsafe⟩ := hr.runId
    rw [htext, Except.ok.injEq] at htext'
    subst htext'
    refine bind_eq_ok.mpr ⟨text, htext, bind_eq_ok.mpr ⟨_, safeRunId_eq_ok.mpr ⟨hsafe, rfl⟩, ?_⟩⟩
    refine bind_eq_ok.mpr ⟨_, (jsonClone_eq_ok hrec).mpr ⟨hr.numbers, rfl⟩, ?_⟩
    rw [hsort]
    have hmaps : ∀ name ∈ requiredMappings, isObj (getKey (sortDict record) name) = true := by
      intro name hname
      rw [getKey_sorted hrec, isObj_sortKeys]
      exact hr.mappings name hname
    have hevid : isArr (getKey (sortDict record) "selected_evidence") = true := by
      rw [getKey_sorted hrec, isArr_sortKeys]
      exact hr.evidence
    have hvalid : ValidPaths (getKey (sortDict record) "changed_files") := by
      rw [getKey_sorted hrec]
      exact validPaths_sortKeys.mpr hr.changed
    obtain ⟨paths, hpaths⟩ := validatedChangedFiles_isOk.mpr hvalid
    refine bind_eq_ok.mpr ⟨(), (checkMappings_eq_ok _).mpr hmaps, ?_⟩
    refine bind_eq_ok.mpr ⟨(), require_eq_ok.mpr hevid, bind_eq_ok.mpr ⟨paths, hpaths, ?_⟩⟩
    refine bind_eq_ok.mpr ⟨_, hr.kinds, bind_eq_ok.mpr ⟨(), require_eq_ok.mpr (by simp), ?_⟩⟩
    refine bind_eq_ok.mpr ⟨chained, hchain, ?_⟩
    have hlen := length_kinds hr.kinds
    exact bind_eq_ok.mpr ⟨_, sha256_eq_ok.mpr ⟨hbody (by omega) hr.numbers hchain _, rfl⟩, rfl⟩

/-- **What a journal can be built of.** -/
theorem build_isOk {record : Dict F} {events : List (Dict F)} (hrec : wellFormed (.obj record) = true)
    (hev : ∀ raw ∈ events, wellFormed (.obj raw) = true) :
    (∃ journal, buildReplayJournal E isalnum record events = .ok journal) ↔
      Recordable E isalnum record events := by
  constructor
  · rintro ⟨journal, h⟩
    exact ((build_eq_ok hrec hev).mp h).1
  · intro h
    obtain ⟨text, htext, -⟩ := h.runId
    have hlen := length_kinds h.kinds
    have hseven : expectedReplayEventKinds.length = 7 := rfl
    obtain ⟨chained, hchain⟩ :=
      (@chainFrom_isOk F E events 0 .null hev (by omega) rfl).mpr (chainable h)
    exact ⟨_, (build_eq_ok hrec hev).mpr ⟨h, text, chained, htext, hchain, rfl⟩⟩

end ControlPlane.Journal.Build
