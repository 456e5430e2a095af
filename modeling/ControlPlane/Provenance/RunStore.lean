import ControlPlane.Instance
import ControlPlane.Provenance.Metadata

/-! # The store of runs

One file for each run, created exclusively: a file that is there is never opened again for writing. The file is made
before its content is written, so a write that raises leaves a file with whatever had been written, and the run can
not be added any more.

In every sequence of additions the store is faithful exactly if no write raises once the file has been made
(`faithful_iff`): what was added is read back equal and with the same key, nothing is replaced, and an addition that
raises changes nothing. -/

namespace ControlPlane.Provenance.RunStore

open ControlPlane.Lib.Value ControlPlane.Lib.Dumps ControlPlane.Lib.Dynamic ControlPlane.Environment
open ControlPlane.Provenance.Metadata
open ControlPlane.Retrieval.Cache (optional)

/-- What a file holds: a text, or bytes that are none. -/
abbrev Content := Option String

/-- The files of the store, by the run ids they are named after. -/
abbrev Files := List (String × Content)

/-- What raises in an addition; a write that raises leaves some content. -/
inductive Fault where
  | makeFolder
  | makeFile
  | write (left : Content)
  deriving DecidableEq

variable {F : Type} (E : Env F) (isAlnum : Char → Bool)

/-! ### Operations -/

/-- `_path` -/
def pathOf (runId : String) : Py String := do
  let safe := String.ofList (runId.toList.filter fun c => isAlnum c || c = '-' || c = '_')
  require (safe != "" && safe == runId) "invalid run_id"
  return safe

/-- The text of a run's file. -/
def payloadOf (run : RunMetadata E) : Py String := do
  E.fileText true (.obj (← run.toDict))

/-- The exclusive creation of a file, and the write. -/
def create (files : Files) (name text : String) (fault : Option Fault) : Files × Py Unit :=
  if (files.lookup name).isSome then (files, .error (.fileExistsError name))
  else match fault with
    | some .makeFile => (files, .error (.osError "open"))
    | some (.write left) => ((name, left) :: files, .error (.osError "write"))
    | _ => ((name, some text) :: files, .ok ())

def add (files : Files) (run : RunMetadata E) (fault : Option Fault) : Files × Py Unit :=
  match pathOf isAlnum run.runId with
  | .error e => (files, .error e)
  | .ok name =>
    if fault = some .makeFolder then (files, .error (.osError "mkdir"))
    else match payloadOf E run with
      | .error e => (files, .error e)
      | .ok text => create files name text fault

/-- What `json.loads` and `from_dict` make of a text. -/
def runOf (text : String) : Py (Option (RunMetadata E)) := do
  match ← E.jsonLoads text with
  | .obj raw => return some (← fromDict E raw)
  | _ => return none

/-- The `except` clause: an overflow is not caught. -/
def caught {α : Type} (x : Py (Option α)) : Py (Option α) :=
  match x with
  | .ok a => .ok a
  | .error (.overflowError msg) => .error (.overflowError msg)
  | .error _ => .ok none

/-- The `try` block of `get`. -/
def contentOf (files : Files) (runId : String) : Py (Option (RunMetadata E)) := do
  let name ← pathOf isAlnum runId
  match files.lookup name with
  | some (some text) => runOf E text
  | some none => .error (.valueError "the file is not UTF-8")
  | none => .error (.osError "no such file")

def get (files : Files) (runId : String) : Py (Option (RunMetadata E)) := caught (contentOf E isAlnum files runId)

/-! ### Sequences -/

/-- An addition, with what raises in it. -/
structure Addition where
  run : RunMetadata E
  fault : Option Fault

def addAll (files : Files) (additions : List (Addition E)) : Files :=
  additions.foldl (fun files a => (add E isAlnum files a.run a.fault).1) files

/-- What one addition of a sequence does, and what is there after the sequence. -/
structure Kept (files : Files) (a : Addition E) (after : Files) : Prop where
  read : (add E isAlnum files a.run a.fault).2 = .ok () → ∃ run, get E isAlnum after a.run.runId = .ok (some run) ∧
    Same a.run run ∧ run.reproducibilityKey = a.run.reproducibilityKey
  keeps : ∀ name content, files.lookup name = some content → after.lookup name = some content
  undone : ∀ e, (add E isAlnum files a.run a.fault).2 = .error e → (add E isAlnum files a.run a.fault).1 = files

/-- **The store is faithful** to a sequence of additions. -/
def Faithful (files : Files) (additions : List (Addition E)) : Prop :=
  ∀ before a rest, additions = before ++ a :: rest →
    Kept E isAlnum (addAll E isAlnum files before) a (addAll E isAlnum files additions)

/-- The addition makes a file: the id is one, the run has a text, and no file is there. -/
def Creates (files : Files) (run : RunMetadata E) : Prop :=
  ∃ name text, pathOf isAlnum run.runId = .ok name ∧ payloadOf E run = .ok text ∧ files.lookup name = none

/-- No write raises once the file has been made. -/
def Whole (files : Files) (a : Addition E) : Prop := ∀ left, a.fault = some (.write left) → ¬ Creates E isAlnum files a.run

/-! ### One addition -/

section Addition
variable {E isAlnum} {files : Files} {run : RunMetadata E} {fault : Option Fault}

theorem pathOf_eq_ok {runId name : String} (h : pathOf isAlnum runId = .ok name) : name = runId := by
  unfold pathOf at h
  obtain ⟨_, hsafe, h⟩ := bind_eq_ok.mp h
  rw [require_eq_ok, Bool.and_eq_true, beq_iff_eq] at hsafe
  rw [← Except.ok.inj h, hsafe.2]

/-- **What an addition does**: it makes the file with the text of the run, or with what a write left, or nothing. -/
theorem add_cases (files : Files) (run : RunMetadata E) (fault : Option Fault) :
    (∃ text, payloadOf E run = .ok text ∧ pathOf isAlnum run.runId = .ok run.runId ∧ files.lookup run.runId = none ∧
      add E isAlnum files run fault = ((run.runId, some text) :: files, .ok ())) ∨
    (∃ left e, fault = some (.write left) ∧ Creates E isAlnum files run ∧ files.lookup run.runId = none ∧
      add E isAlnum files run fault = ((run.runId, left) :: files, .error e)) ∨
    ∃ e, add E isAlnum files run fault = (files, .error e) := by
  unfold add
  cases hpath : pathOf isAlnum run.runId with
  | error e => exact Or.inr (Or.inr ⟨e, rfl⟩)
  | ok name =>
    obtain rfl := pathOf_eq_ok hpath
    dsimp only
    by_cases hfolder : fault = some .makeFolder
    · rw [if_pos hfolder]
      exact Or.inr (Or.inr ⟨_, rfl⟩)
    · rw [if_neg hfolder]
      cases htext : payloadOf E run with
      | error e => exact Or.inr (Or.inr ⟨e, rfl⟩)
      | ok text =>
        dsimp only
        unfold create
        cases hlookup : files.lookup run.runId with
        | some content => exact Or.inr (Or.inr ⟨_, rfl⟩)
        | none =>
          rw [if_neg (by decide)]
          rcases fault with _ | _ | _ | left
          · exact Or.inl ⟨text, rfl, rfl, rfl, rfl⟩
          · exact absurd rfl hfolder
          · exact Or.inr (Or.inr ⟨_, rfl⟩)
          · exact Or.inr (Or.inl ⟨left, _, rfl, ⟨run.runId, text, hpath, htext, hlookup⟩, rfl, rfl⟩)

/-- An addition keeps the files that are there. -/
theorem lookup_add {name : String} {content : Content} (h : files.lookup name = some content) :
    (add E isAlnum files run fault).1.lookup name = some content := by
  have hother : ∀ content', files.lookup run.runId = none → ((run.runId, content') :: files).lookup name = some content := by
    intro content' hnone
    have hne : (name == run.runId) = false := by
      rw [beq_eq_false_iff_ne]
      rintro rfl
      rw [hnone] at h
      cases h
    rw [List.lookup_cons, hne]
    exact h
  rcases @add_cases _ E isAlnum files run fault with ⟨text, -, -, hnone, hadd⟩ | ⟨left, e, -, -, hnone, hadd⟩ | ⟨e, hadd⟩
  · rw [hadd]
    exact hother _ hnone
  · rw [hadd]
    exact hother _ hnone
  · rw [hadd]
    exact h

/-- **A file that was written is read back.** -/
theorem get_of_lookup {text : String} (hpath : pathOf isAlnum run.runId = .ok run.runId)
    (htext : payloadOf E run = .ok text) (hlookup : files.lookup run.runId = some (some text)) :
    get E isAlnum files run.runId = .ok (some run.sorted) := by
  unfold payloadOf RunMetadata.toDict at htext
  obtain ⟨d, hd, htext⟩ := bind_eq_ok.mp htext
  obtain ⟨key, -, hd⟩ := bind_eq_ok.mp hd
  rw [← Except.ok.inj hd] at htext
  have hloads := jsonLoads_fileText E (wellFormed_entries run key) htext
  rw [sortKeys_obj'] at hloads
  have hrun : runOf E text = .ok (some run.sorted) :=
    bind_eq_ok.mpr ⟨_, hloads, bind_eq_ok.mpr ⟨run.sorted, fromDict_entries run key, rfl⟩⟩
  have hread : contentOf E isAlnum files run.runId = .ok (some run.sorted) := by
    refine bind_eq_ok.mpr ⟨run.runId, hpath, ?_⟩
    rw [hlookup]
    exact hrun
  rw [get, hread]
  rfl

end Addition

/-! ### Sequences of additions -/

section Sequence
variable {E isAlnum} {files : Files} {additions : List (Addition E)}

theorem lookup_addAll : ∀ {additions : List (Addition E)} {files : Files} {name : String} {content : Content},
    files.lookup name = some content → (addAll E isAlnum files additions).lookup name = some content
  | [], _, _, _, h => h
  | a :: additions, files, name, content, h =>
    @lookup_addAll additions (add E isAlnum files a.run a.fault).1 name content (lookup_add h)

theorem addAll_append (files : Files) (before rest : List (Addition E)) :
    addAll E isAlnum files (before ++ rest) = addAll E isAlnum (addAll E isAlnum files before) rest :=
  List.foldl_append

/-- An addition whose write, if it raises, is not reached. -/
theorem kept_of_whole {a : Addition E} (hwhole : Whole E isAlnum files a) (rest : List (Addition E)) :
    Kept E isAlnum files a (addAll E isAlnum files (a :: rest)) := by
  have hafter : ∀ {name content}, (add E isAlnum files a.run a.fault).1.lookup name = some content →
      (addAll E isAlnum files (a :: rest)).lookup name = some content := by
    intro name content h
    show (addAll E isAlnum (add E isAlnum files a.run a.fault).1 rest).lookup name = some content
    exact lookup_addAll h
  refine ⟨fun hok => ?_, fun name content h => hafter (lookup_add h), fun e he => ?_⟩
  · rcases add_cases files a.run a.fault with ⟨text, htext, hpath, -, hadd⟩ | ⟨_, _, -, -, -, hadd⟩ | ⟨_, hadd⟩
    · refine ⟨a.run.sorted, get_of_lookup hpath htext (hafter ?_), same_sorted a.run,
        (reproducibilityKey_congr (same_sorted a.run)).symm⟩
      rw [hadd, List.lookup_cons_self]
    · rw [hadd] at hok
      cases hok
    · rw [hadd] at hok
      cases hok
  · rcases add_cases files a.run a.fault with ⟨_, -, -, -, hadd⟩ | ⟨left, _, hfault, hcreates, -, -⟩ | ⟨_, hadd⟩
    · rw [hadd] at he
      cases he
    · exact absurd hcreates (hwhole left hfault)
    · rw [hadd]

/-- A write that raises after the file has been made leaves a file. -/
theorem whole_of_kept {a : Addition E} {after : Files} (h : Kept E isAlnum files a after) : Whole E isAlnum files a := by
  rintro left hfault ⟨name, text, hpath, htext, hlookup⟩
  have hname := pathOf_eq_ok hpath
  subst hname
  have hadd : add E isAlnum files a.run a.fault = ((a.run.runId, left) :: files, .error (.osError "write")) := by
    unfold add create
    rw [hpath]
    dsimp only
    rw [hfault, if_neg (by simp), htext]
    dsimp only
    rw [hlookup]
    rfl
  have hsame := h.undone (.osError "write") (by rw [hadd])
  rw [hadd] at hsame
  have hlength := congrArg List.length hsame
  rw [List.length_cons] at hlength
  omega

end Sequence

/-- **When the store is faithful.** -/
theorem faithful_iff (files : Files) (additions : List (Addition E)) : Faithful E isAlnum files additions ↔
    ∀ before a rest, additions = before ++ a :: rest → Whole E isAlnum (addAll E isAlnum files before) a := by
  constructor
  · intro h before a rest hsplit
    exact whole_of_kept (h before a rest hsplit)
  · intro h before a rest hsplit
    have hkept := kept_of_whole (h before a rest hsplit) rest
    rw [← addAll_append, ← hsplit] at hkept
    exact hkept

/-! ### A write that raises -/

section Sample
variable {E}

theorem printable_optional (s : Option String) :
    printable E.T.toFloatText true (optional s : Json F) = true := by
  cases s <;> rfl

theorem printable_texts (m : TextMap F) : printable E.T.toFloatText true (.obj m.dict) = true := by
  rw [printable_obj]
  intro p hp
  obtain ⟨s, hs⟩ := m.texts p hp
  rw [hs]
  rfl

/-- A run without artifacts has a text if its schema version is a small number. -/
theorem payloadOf_isOk {run : RunMetadata E} (hartifacts : run.artifacts = [])
    (hschema : run.schemaVersion.natAbs < 10 ^ 9) : ∃ text, payloadOf E run = .ok text := by
  have hlist : printable E.T.toFloatText true (.arr (run.artifacts.map fun a => .obj a.asdict)) = true := by
    rw [hartifacts]
    rfl
  have hidentity : printable E.T.toFloatText true (.obj run.identity) = true := by
    rw [printable_obj]
    intro p hp
    simp only [RunMetadata.identity, List.mem_cons, List.not_mem_nil, or_false] at hp
    rcases hp with rfl | rfl | rfl | rfl | rfl | rfl | rfl | rfl | rfl | rfl | rfl | rfl
    · exact printable_small true hschema
    · rfl
    · rfl
    · rfl
    · exact printable_optional _
    · rfl
    · rfl
    · rfl
    · rfl
    · exact printable_texts _
    · exact hlist
    · exact printable_texts _
  have hentries : ∀ key, printable E.T.toFloatText true (.obj (run.entries key)) = true := by
    intro key
    rw [printable_obj]
    intro p hp
    simp only [RunMetadata.entries, List.mem_cons, List.not_mem_nil, or_false] at hp
    rcases hp with rfl | rfl | rfl | rfl | rfl | rfl | rfl | rfl | rfl | rfl | rfl | rfl | rfl | rfl | rfl
    · exact printable_small true hschema
    · rfl
    · rfl
    · rfl
    · rfl
    · rfl
    · exact printable_optional _
    · rfl
    · rfl
    · rfl
    · rfl
    · exact printable_texts _
    · exact printable_texts _
    · exact hlist
    · rfl
  have hkey : ∃ key, run.reproducibilityKey = .ok key :=
    ⟨_, bind_eq_ok.mpr ⟨_, (jsonDumps_eq_ok _).mpr ⟨by rw [printable_sortKeys]; exact hidentity, rfl⟩, rfl⟩⟩
  obtain ⟨key, hkey⟩ := hkey
  have hdict : run.toDict = .ok (run.entries key) := bind_eq_ok.mpr ⟨key, hkey, rfl⟩
  refine ⟨_, bind_eq_ok.mpr ⟨run.entries key, hdict, bind_eq_ok.mpr ⟨_, (jsonDumps_eq_ok _).mpr ⟨?_, rfl⟩, rfl⟩⟩⟩
  rw [if_pos rfl, printable_sortKeys]
  exact hentries key

def sampleRun : RunMetadata Instance.exactPlatform where
  controlPlaneVersion := "2.3.0"
  workspaceFingerprint := "fp"
  gitHead := none
  changedFilesDigest := "c"
  configDigest := "cfg"
  retrievalPolicyVersion := "p"
  indexManifestDigest := "idx"
  providerVersions := TextMap.ofPairs []
  artifacts := []
  graphFingerprint := "unknown"
  runId := "run-1"
  schemaVersion := 1
  createdAt := "2026-09-28T00:00:00+00:00"
  runtime := TextMap.ofPairs []

/-- **The disk is full**: the addition raises, an empty file is there, the run can not be added any more, and is not
found. -/
theorem run_lost : ∃ files, add Instance.exactPlatform Char.isAlphanum [] sampleRun (some (.write (some ""))) =
      (files, .error (.osError "write")) ∧ files ≠ [] ∧
    (add Instance.exactPlatform Char.isAlphanum files sampleRun none).2 = .error (.fileExistsError "run-1") ∧
    (get Instance.exactPlatform Char.isAlphanum files "run-1").toOption.map Option.isNone = some true := by
  obtain ⟨text, htext⟩ := @payloadOf_isOk _ _ sampleRun rfl (by decide)
  have hpath : pathOf Char.isAlphanum sampleRun.runId = .ok "run-1" := by decide
  refine ⟨[("run-1", some "")], ?_, List.cons_ne_nil _ _, ?_, by decide +kernel⟩
  · unfold add
    rw [hpath]
    dsimp only
    rw [htext]
    rfl
  · unfold add
    rw [hpath]
    dsimp only
    rw [htext]
    rfl

end Sample

end ControlPlane.Provenance.RunStore
