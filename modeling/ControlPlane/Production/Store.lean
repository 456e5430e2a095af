import ControlPlane.Lib.Mirror
import ControlPlane.Lib.Objects
import ControlPlane.Learning.Records

/-! # The production store

Decisions, observations and outcomes are JSON files, and a database mirrors them: an event for each, with the
digest of its payload. An event is written when its file is (`mirrorLearningEvent`), from the payload in memory,
and by a synchronisation (`syncLearningStore`), from the file; the same event with another digest is refused
(`insertEvent`). `reconcileLearningStore` compares the two. -/

namespace ControlPlane.Production.Store

open ControlPlane.Lib.Value ControlPlane.Lib.Print ControlPlane.Lib.Dumps ControlPlane.Lib.Dynamic
open ControlPlane.Lib.Text ControlPlane.Lib.Objects ControlPlane.Environment
open ControlPlane.Learning.Decision ControlPlane.Learning.Records

variable {F : Type} (E : Env F)

/-! ### Payloads -/

/-- A payload in memory; only the metadata of an outcome may have keys that are no texts. -/
structure Payload (F : Type) where
  fields : Dict F
  metadata : Option (List (ObjKey F × Val F))

def Payload.metadataEntry (p : Payload F) : Dict F :=
  match p.metadata with
  | some d => [("metadata", (Val.dict d).json E.T)]
  | none => []

/-- The payload as it is written with sorted keys. -/
def Payload.json (p : Payload F) : Json F :=
  .obj (sortPairs ((p.fields.map fun q => (q.1, sortKeys q.2)) ++ p.metadataEntry E))

def Payload.writable (p : Payload F) : Bool :=
  match p.metadata with
  | some d => (Val.dict d).writable E.T
  | none => true

/-- The refusal of a dictionary whose keys cannot be sorted or written. -/
def keysRefused {α : Type} : Py α := .error (.typeError "'<' not supported between the keys")

def canonicalOf (p : Payload F) : Py String :=
  if p.writable E then jsonDumps E.T (compact false) (p.json E) else keysRefused

/-- The text of the file of a payload. -/
def fileTextOf (p : Payload F) : Py String :=
  if p.writable E then E.fileText false (p.json E) else keysRefused

/-- The payload of a file. -/
def ofFile (d : Dict F) : Payload F := ⟨d, none⟩

theorem json_ofFile (d : Dict F) : (ofFile d).json E = sortKeys (.obj d) := by
  rw [Payload.json, Payload.metadataEntry, ofFile, List.append_nil, sortKeys_obj]

/-! ### Events -/

structure Event where
  eventId : String
  eventType : String
  decisionId : Option String
  policyId : Option String
  stateGeneration : Option ℤ
  createdAt : String
  payloadSha256 : String
  payloadJson : String

def eventKinds : List String :=
  ["decision", "observation", "outcome", "deployment_state", "deployment_incident"]

/-- `str(v).strip()` unless it is none. -/
def strippedText (v : Json F) : Py (Option String) :=
  match v with
  | .null => .ok none
  | v => do
    let text ← E.str v
    return some (strip text)

/-- An integer that is no Boolean. -/
def intOf : Json F → Option ℤ
  | .int n => some n
  | _ => none

def deploymentIdentity (fields : Dict F) : Py (Option String × Option ℤ) :=
  match getKey fields "deployment" with
  | .obj deployment => do
    let policyId ← strippedText E (getKey deployment "policy_id")
    return (policyId.filter (· ≠ ""), intOf (getKey deployment "state_generation"))
  | _ => .ok (none, none)

def eventIdentity (kind : String) (fields : Dict F) : Py (Option String × Option String × Option ℤ) := do
  let decisionId ← strippedText E (getKey fields "decision_id")
  let (policyId, generation) ← deploymentIdentity E fields
  if kind = "deployment_state" then do
    let statePolicyId ← strippedText E (getKey fields "policy_id")
    return (decisionId, statePolicyId, (intOf (getKey fields "generation")).or generation)
  else return (decisionId, policyId, generation)

/-- The first of some values that counts, as a text. -/
def firstText (fields : Dict F) (now : String) : List String → Py String
  | [] => .ok now
  | name :: names =>
    if truthy E.T (getKey fields name) then E.str (getKey fields name) else firstText fields now names

/-- The event of a payload. -/
def prepareEvent (eventType : String) (p : Payload F) (eventId : Option String) (now : String) :
    Py Event := do
  let kind := strip eventType
  require (eventKinds.contains kind) ("unsupported production event type: " ++ kind)
  let raw ← canonicalOf E p
  let digest := E.sha256 raw
  let given := (eventId.map strip).getD ""
  let identity := if given = "" then E.sha256 (kind ++ ":" ++ digest) else given
  let (decisionId, policyId, generation) ← eventIdentity E kind p.fields
  let createdAt ← firstText E p.fields now ["created_at", "observed_at", "recorded_at", "updated_at"]
  return ⟨identity, kind, decisionId, policyId, generation, createdAt, digest, raw⟩

/-- The integer fits into a column. -/
def fits : Option ℤ → Bool
  | some n => decide (-2 ^ 63 ≤ n ∧ n < 2 ^ 63)
  | none => true

/-- The transaction that inserts an event; and whether it was new. -/
def insertEvent (event : Event) (events : List Event) : Py (List Event × Bool) :=
  match events.find? fun e => e.eventId = event.eventId with
  | some e =>
    if e.payloadSha256 = event.payloadSha256 then .ok (events, false)
    else .error (.valueError "production event id already exists with different payload")
  | none =>
    if fits event.stateGeneration then .ok (events ++ [event], true)
    else .error (.overflowError "Python int too large to convert to SQLite INTEGER")

/-- The events of a store that may not be there yet. -/
def eventsOf (store : Option (List Event)) : List Event := store.getD []

/-- `append_production_event(...)` on a database that works. -/
def appendProductionEvent (eventType : String) (p : Payload F) (eventId : Option String) (now : String)
    (store : Option (List Event)) : Option (List Event) × Py Bool :=
  match prepareEvent E eventType p eventId now with
  | .error e => (store, .error e)
  | .ok event => match insertEvent event (eventsOf store) with
    | .error e => (some (eventsOf store), .error e)
    | .ok (events, inserted) => (some events, .ok inserted)

/-! ### The mirror -/

/-- What becomes of a write to the mirror: it is done, the database is not available (and may have been created
then), or it is done and the call fails afterwards. -/
inductive Fate where
  | done
  | unavailable (created : Bool)
  | lost

/-- An error that the mirror reports instead of raising it. -/
def reported : Exn → Bool
  | .valueError _ => true
  | .jsonDecodeError _ => true
  | .runtimeError _ => true
  | .osError _ => true
  | .fileExistsError _ => true
  | _ => false

/-- `f"{event_type}:{decision_id}"`. -/
def eventIdOf (eventType decisionId : String) : String := eventType ++ ":" ++ decisionId

/-- Mirrors a payload; and whether it says so. -/
def mirrorLearningEvent (eventType : String) (p : Payload F) (now : String) (fate : Fate)
    (store : Option (List Event)) : Option (List Event) × Py Bool :=
  match E.strOr p.fields "decision_id" "" with
  | .error e => (store, .error e)
  | .ok text =>
    let decisionId := strip text
    let eventId := if decisionId = "" then none else some (eventIdOf eventType decisionId)
    match fate with
    | .unavailable created => (if created then some (eventsOf store) else store, .ok false)
    | .done => match appendProductionEvent E eventType p eventId now store with
      | (store, .ok _) => (store, .ok true)
      | (store, .error e) => (store, if reported e then .ok false else .error e)
    | .lost => match appendProductionEvent E eventType p eventId now store with
      | (store, .ok _) => (store, .ok false)
      | (store, .error e) => (store, if reported e then .ok false else .error e)

/-! ### Synchronisation -/

/-- The files of the learning records, and the database. -/
structure Learning where
  decisions : Log
  observations : Log
  outcomes : Log
  store : Option (List Event)

/-- A file: the kind of its record, its name and its text. -/
abbrev RecordFile := String × String × String

/-- The files in the order in which they are scanned. -/
def Learning.files (l : Learning) : List RecordFile :=
  (sortedFiles l.decisions).map (("decision", ·)) ++ (sortedFiles l.observations).map (("observation", ·)) ++
    (sortedFiles l.outcomes).map (("outcome", ·))

structure Counters where
  scanned : ℕ
  inserted : ℕ
  alreadyPresent : ℕ
  invalid : ℕ
  deriving DecidableEq

/-- The decision id of a file and its object; `none` if the file is invalid. -/
def readFile (text : String) : Py (Option (String × Dict F)) := do
  let record ← readRecord E text
  match record with
  | none => return none
  | some d =>
    let decisionId ← E.strOr d "decision_id" ""
    return if strip decisionId = "" then none else some (strip decisionId, d)

/-- The loop of `sync_learning_store` over the files still to be read. -/
def syncFiles (now : String) : List RecordFile → Option (List Event) → Counters →
    Option (List Event) × Py Counters
  | [], store, c => (store, .ok c)
  | (kind, _, text) :: files, store, c =>
    let c := { c with scanned := c.scanned + 1 }
    match readFile E text with
    | .error e => (store, .error e)
    | .ok none => syncFiles now files store { c with invalid := c.invalid + 1 }
    | .ok (some (decisionId, d)) =>
      match appendProductionEvent E kind (ofFile d) (some (eventIdOf kind decisionId)) now store with
      | (store, .error e) => (store, .error e)
      | (store, .ok true) => syncFiles now files store { c with inserted := c.inserted + 1 }
      | (store, .ok false) => syncFiles now files store { c with alreadyPresent := c.alreadyPresent + 1 }

def syncLearningStore (now : String) (l : Learning) : Learning × Py Counters :=
  let (store, result) := syncFiles E now l.files l.store ⟨0, 0, 0, 0⟩
  ({ l with store := store }, result)

/-! ### Reconciliation -/

/-- The digests that the files call for, and the names of invalid files. -/
def expectedFrom : List RecordFile → Dict F → List String → Py (Dict F × List String)
  | [], expected, invalid => .ok (expected, invalid)
  | (kind, name, text) :: files, expected, invalid => do
    let file ← readFile E text
    match file with
    | none => expectedFrom files expected (invalid ++ [name])
    | some (decisionId, d) => do
      let raw ← canonicalOf E (ofFile d)
      expectedFrom files (setKey (eventIdOf kind decisionId) (.str (E.sha256 raw)) expected) invalid

structure Reconciliation where
  consistent : Bool
  reason : Option String
  expectedEvents : ℕ
  storedEvents : ℕ
  missingInStore : List String
  digestMismatches : List String
  extraInStore : List String
  invalidCanonicalFiles : List String

/-- The ids of the events of learning records and their digests. -/
def actualOf (events : List Event) : List (String × String) :=
  (events.filter fun e => ["decision", "observation", "outcome"].contains e.eventType).map fun e =>
    (e.eventId, e.payloadSha256)

def sortedTexts (texts : List String) : List String := texts.insertionSort fun a b => a ≤ b

def compareWith (expected : Dict F) (actual : List (String × String)) (invalid : List String) :
    Reconciliation :=
  let missing := sortedTexts ((keys expected).filter fun id => !(actual.map Prod.fst).contains id)
  let mismatched := sortedTexts ((keys expected).filter fun id =>
    actual.any fun p => p.1 = id && !pyEq E.T (getKey expected id) (.str p.2))
  let extra := sortedTexts ((actual.map Prod.fst).filter fun id => !(keys expected).contains id)
  { consistent := missing.isEmpty && mismatched.isEmpty && extra.isEmpty && invalid.isEmpty
    reason := none
    expectedEvents := expected.length
    storedEvents := actual.length
    missingInStore := missing
    digestMismatches := mismatched
    extraInStore := extra
    invalidCanonicalFiles := sortedTexts invalid }

def reconcileLearningStore (l : Learning) : Py Reconciliation :=
  match l.store with
  | none => .ok ⟨false, some "production_store_missing", 0, 0, [], [], [], []⟩
  | some events => do
    let (expected, invalid) ← expectedFrom E l.files [] []
    return compareWith E expected (actualOf events) invalid

end ControlPlane.Production.Store
