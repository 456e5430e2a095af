import ControlPlane.Production.Store

/-! # The writers of learning records

A decision is written when a request is served, an observation when it is done, and an outcome when a verifier
reports it (`writeLearningDecision`, `writeLearningObservation`, `recordVerifiedOutcome`). Each creates an
immutable file and then mirrors its payload. Any of them may raise, and what it did until then stays
(`step`, `after`). -/

namespace ControlPlane.Production.Writers

open ControlPlane.Lib.Value ControlPlane.Lib.Print ControlPlane.Lib.Dumps ControlPlane.Lib.Dynamic
open ControlPlane.Lib.Text ControlPlane.Lib.Floats ControlPlane.Lib.Objects ControlPlane.Environment
open ControlPlane.Learning.Decision ControlPlane.Learning.Records ControlPlane.Production.Store

variable {F : Type} (E : Env F)

/-! ### Writing a record -/

/-- What becomes of a call: the time, the creation of the file, and the write to the mirror. -/
structure Platform where
  now : String
  write : WriteOutcome
  fate : Fate

/-- `_write_immutable(_record_path(...), payload)`; the result tells whether no `OSError` was raised. -/
def createFile (log : Log) (decisionId : String) (p : Payload F) (w : WriteOutcome) : Py (Log × Bool) := do
  require (isDecisionId decisionId) "decision_id must be a 32-character lowercase hexadecimal ID"
  let text ← fileTextOf E p
  if (log.map Prod.fst).contains decisionId then return (log, false)
  match w with
  | .written => return (log ++ [(decisionId, text)], true)
  | .unsynced => return (log ++ [(decisionId, text)], false)
  | .failed => return (log, false)

/-- A record without metadata is created as a decision is. -/
theorem createFile_ofFile (log : Log) (decisionId : String) (d : Dict F) (w : WriteOutcome) :
    createFile E log decisionId (ofFile d) w = createRecord E log decisionId d w := by
  have htext : fileTextOf E (ofFile d) = E.fileText true (.obj d) := by
    rw [fileTextOf, json_ofFile]
    rfl
  rw [createFile, htext]
  rfl

/-- Writes a record and mirrors it. -/
def writeRecord (kind decisionId : String) (p : Payload F) (g : Platform) (log : Log)
    (store : Option (List Event)) : Log × Option (List Event) × Py Unit :=
  match createFile E log decisionId p g.write with
  | .error e => (log, store, .error e)
  | .ok (log, false) => (log, store, .error (.osError "the record cannot be created"))
  | .ok (log, true) =>
    let mirrored := mirrorLearningEvent E kind p g.now g.fate store
    (log, mirrored.1, mirrored.2.map fun _ => ())

/-! ### Observations -/

structure Observation (F : Type) where
  decisionId : String
  elapsedMs : F
  usedChars : ℤ
  fallbackCount : ℤ
  sufficiencyScore : F
  evidenceState : String

/-- `min(1.0, x)`. -/
def atMostOne (x : F) : F := if (E.T.view x).lt (E.T.lit 1) then x else E.T.ofRat 1

def Observation.payload (o : Observation F) (now : String) : Payload F := ofFile [
  ("decision_id", .str o.decisionId),
  ("observed_at", .str now),
  ("elapsed_ms", .float (E.T.round (E.T.max (E.T.ofRat 0) o.elapsedMs) 4)),
  ("used_chars", .int (max 0 o.usedChars)),
  ("fallback_count", .int (max 0 o.fallbackCount)),
  ("sufficiency_score",
    .float (E.T.round (atMostOne E (E.T.max (E.T.ofRat 0) o.sufficiencyScore)) 6)),
  ("evidence_state", .str o.evidenceState)]

/-! ### Verified outcomes -/

structure VerifiedOutcomeEvidence (F : Type) where
  source : String
  verifierIdentity : String
  evidenceDigest : String
  reward : F
  realizedCost : F

def defaultTrustedOutcomeSources : List String :=
  ["github-actions:test-suite", "github-actions:integration-suite", "signed-human-review",
    "local:test-suite"]

/-- `extra` are the parts of the environment variable between its commas. -/
def trustedOutcomeSources (extra : List String) : List String :=
  defaultTrustedOutcomeSources ++ (extra.map strip).filter (· ≠ "")

def validatedSha256Digest (value : String) : Py String := do
  let digest := E.lower (strip value)
  require (startsWith digest "sha256:") "immutable verifier evidence must use sha256:<hex>"
  let hexValue := digest.toList.drop "sha256:".length
  require (hexValue.length == 64 && hexValue.all isHexDigit)
    "immutable verifier evidence must be a 64-byte sha256 hex digest"
  return digest

def validateVerifiedOutcome (extra : List String) (source verifierIdentity evidenceDigest : String)
    (reward realizedCost : F) : Py (VerifiedOutcomeEvidence F) := do
  require ((trustedOutcomeSources extra).contains (strip source))
    "outcome source is not trusted by runtime policy"
  require (strip verifierIdentity ≠ "") "verifier_identity must not be blank"
  require (E.T.finite reward && (E.T.lit 0).le (E.T.view reward) && (E.T.view reward).le (E.T.lit 1))
    "reward must be finite and between 0.0 and 1.0"
  require (E.T.finite realizedCost && !(E.T.view realizedCost).lt (E.T.lit 0))
    "realized_cost must be finite and non-negative"
  let digest ← validatedSha256Digest E evidenceDigest
  return ⟨strip source, strip verifierIdentity, digest, reward, realizedCost⟩

/-- The arguments of `record_verified_outcome`; `metadata` is `metadata or {}`. -/
structure OutcomeCall (F : Type) where
  decisionId : String
  success : Bool
  source : String
  verifierIdentity : String
  evidenceDigest : String
  reward : Option F
  realizedCost : F
  metadata : List (ObjKey F × Val F)

/-- What outcomes depend on: the additional trusted sources, and the seconds between two times, if both are
times with a zone. -/
structure Machine (F : Type) where
  extraSources : List String
  secondsBetween : String → String → Option F

/-- The record of the decision that an outcome is about. -/
def decisionRecord (decisions : Log) (decisionId : String) : Py (Dict F) := do
  require (isDecisionId decisionId) "decision_id must be a 32-character lowercase hexadecimal ID"
  match decisions.lookup decisionId with
  | none => .error (.valueError ("unknown learning decision: " ++ decisionId))
  | some text => match E.jsonLoads text with
    | .ok (.obj d) => .ok d
    | .ok _ => .error (.valueError ("learning decision is invalid: " ++ decisionId))
    | .error (.jsonDecodeError _) => .error (.valueError ("learning decision is unreadable: " ++ decisionId))
    | .error e => .error e

def OutcomeCall.payload (m : Machine F) (c : OutcomeCall F) (evidence : VerifiedOutcomeEvidence F)
    (createdAt now : String) : Payload F where
  fields := [
    ("decision_id", .str c.decisionId),
    ("verified", .bool true),
    ("success", .bool c.success),
    ("reward", .float evidence.reward),
    ("realized_cost", .float evidence.realizedCost),
    ("source", .str evidence.source),
    ("verifier_identity", .str evidence.verifierIdentity),
    ("evidence_digest", .str evidence.evidenceDigest),
    ("recorded_at", .str now),
    ("decision_created_at", if createdAt = "" then .null else .str createdAt),
    ("verification_delay_seconds", match m.secondsBetween createdAt now with
      | some seconds => .float (E.T.round (E.T.max (E.T.ofRat 0) seconds) 6)
      | none => .null)]
  metadata := some c.metadata

/-- The payload of an outcome, unless it is refused. -/
def outcomePayload (m : Machine F) (decisions : Log) (c : OutcomeCall F) (now : String) :
    Py (Payload F) := do
  let record ← decisionRecord E decisions c.decisionId
  let value := c.reward.getD (E.T.ofRat (if c.success then 1 else 0))
  let evidence ← validateVerifiedOutcome E m.extraSources c.source c.verifierIdentity c.evidenceDigest
    value c.realizedCost
  let createdAt ← E.strOr record "created_at" ""
  return c.payload E m evidence (strip createdAt) now

/-! ### Calls in turn -/

/-- A decision whose dictionaries have no key twice. -/
abbrev ProperDecision (F : Type) := { d : LearningDecision F // Proper d }

inductive Command (F : Type) where
  | decision (d : ProperDecision F) (g : Platform)
  | observation (o : Observation F) (g : Platform)
  | outcome (c : OutcomeCall F) (g : Platform)

/-- `write_learning_decision(...)`. -/
def writeLearningDecision (d : LearningDecision F) (g : Platform) (l : Learning) : Learning × Py Unit :=
  let (log, store, result) := writeRecord E "decision" d.decisionId (ofFile d.toDict) g l.decisions l.store
  ({ l with decisions := log, store := store }, result)

/-- `write_learning_observation(...)`. -/
def writeLearningObservation (o : Observation F) (g : Platform) (l : Learning) : Learning × Py Unit :=
  let (log, store, result) :=
    writeRecord E "observation" o.decisionId (o.payload E g.now) g l.observations l.store
  ({ l with observations := log, store := store }, result)

/-- `record_verified_outcome(...)`. -/
def recordVerifiedOutcome (m : Machine F) (c : OutcomeCall F) (g : Platform) (l : Learning) :
    Learning × Py Unit :=
  match outcomePayload E m l.decisions c g.now with
  | .error e => (l, .error e)
  | .ok p =>
    let (log, store, result) := writeRecord E "outcome" c.decisionId p g l.outcomes l.store
    ({ l with outcomes := log, store := store }, result)

def step (m : Machine F) (l : Learning) : Command F → Learning × Py Unit
  | .decision d g => writeLearningDecision E d.1 g l
  | .observation o g => writeLearningObservation E o g l
  | .outcome c g => recordVerifiedOutcome E m c g l

/-- The records after some calls, each of which may raise. -/
def after (m : Machine F) (l : Learning) : List (Command F) → Learning
  | [] => l
  | c :: cs => after m (step E m l c).1 cs

/-- **What each call keeps, every run keeps.** -/
theorem after_induct {m : Machine F} {P : Learning → Prop} {C : Command F → Prop}
    (hstep : ∀ l c, P l → C c → P (step E m l c).1) {cs : List (Command F)} {l : Learning} (hl : P l)
    (hcs : ∀ c ∈ cs, C c) : P (after E m l cs) := by
  induction cs generalizing l with
  | nil => exact hl
  | cons c cs ih =>
    rw [List.forall_mem_cons] at hcs
    exact ih (hstep l c hl hcs.1) hcs.2

end ControlPlane.Production.Writers
