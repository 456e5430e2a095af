import ControlPlane.Lib.Publish
import ControlPlane.Deployment.Runs

/-! # The state file and its audit trail

A state is stored in two publications: the state file is replaced, then an audit event is created in the
folder of events, under a name made of the generation, the head of the policy id and the stage. Both
writers are modelled step by step (`writeNewDeploymentState`, `updateStateFile`).

The two change `Together` if a call that raises leaves the state file as it was, and a call that returns
leaves an event with the digest of the stored state. `together_iff`: this is so if and only if, once the
state file is replaced, no step raises, and the event is new or an old one has the digest. -/

namespace ControlPlane.Deployment.Audit

open ControlPlane.Lib.Value ControlPlane.Lib.Dumps ControlPlane.Lib.Dynamic ControlPlane.Lib.Publish
open ControlPlane.Lib.Floats ControlPlane.Lib.Grid ControlPlane.Environment ControlPlane.Instance
open ControlPlane.Deployment.Manifest ControlPlane.Deployment.Reread ControlPlane.Deployment.Stages
open ControlPlane.Deployment.State ControlPlane.Deployment.Refinement ControlPlane.Deployment.Creation
open ControlPlane.Deployment.Runs

variable {F : Type} (E : Env F)

/-! ### The audit event -/

/-- `format(n, "06d")` of the text of a number. -/
def zeroPad (width : ℕ) (text : String) : String :=
  match text.toList with
  | '-' :: digits => String.ofList ('-' :: (List.replicate (width - 1 - digits.length) '0' ++ digits))
  | digits => String.ofList (List.replicate (width - digits.length) '0' ++ digits)

/-- The name of the event of a state. -/
def eventName (state : Dict F) : Py String := do
  let policyId ← E.strOr state "policy_id" "unknown"
  let generation ← E.toInt ((lookup "generation" state).getD (.int 0))
  let stage ← E.strOr state "stage" "unknown"
  let text ← E.str (.int generation)
  return zeroPad 6 text ++ "-" ++ String.ofList (policyId.toList.take 12) ++ "-" ++ stage ++ ".json"

/-- The last entry of the history. -/
def historyTail (state : Dict F) : Py (Json F) :=
  match getKey state "history" with
  | .arr entries => match entries.getLast? with
    | some entry => .ok entry
    | none => .error (.indexError "list index out of range")
  | _ => .ok .null

/-- The entries of an event. -/
def eventEntries (policyId : String) (generation : ℤ) (stage : String) (updatedAt : Json F)
    (digest : String) (tail : Json F) : Dict F :=
  [("policy_id", .str policyId), ("generation", .int generation), ("stage", .str stage),
    ("updated_at", updatedAt), ("state_sha256", .str digest), ("history_tail", tail)]

def auditEvent (state : Dict F) : Py (Dict F) := do
  let policyId ← E.strOr state "policy_id" "unknown"
  let generation ← E.toInt ((lookup "generation" state).getD (.int 0))
  let stage ← E.strOr state "stage" "unknown"
  let digest ← sha256Json E (.obj state)
  let tail ← historyTail state
  return eventEntries policyId generation stage (getKey state "updated_at") digest tail

/-! ### The writers -/

/-- What a call raises. -/
inductive Failure where
  | exn (e : Exn)
  | os (e : OsError)
  /-- `RuntimeError`: the state is locked. -/
  | locked
  deriving DecidableEq

/-- The folder of the state file and the folder of its events. -/
structure Store where
  state : Folder
  events : Folder

/-- What happens to the steps of a call; each may raise. -/
structure Attempt where
  parent : Option OsError
  lock : Option Failure
  write : Faults
  eventsFolder : Option OsError
  audit : Faults
  /-- The names of the temporary files. -/
  temporary : String
  eventTemporary : String

def writeAuditEvent (st : Store) (state : Dict F) (x : Attempt) : Option Failure × Store :=
  match x.eventsFolder with
  | some e => (some (.os e), st)
  | none =>
    match (do return (← eventName E state, ← E.fileText true (.obj (← auditEvent E state)))) with
    | .error e => (some (.exn e), st)
    | .ok (name, text) =>
      let (raised, events) := atomicCreateText st.events name text x.eventTemporary x.audit
      (raised.map .os, { st with events := events })

/-- Replaces the state file and writes the audit event; `ignoreExisting` if it may be there already. -/
def storeState (st : Store) (name : String) (state : Dict F) (ignoreExisting : Bool) (x : Attempt) :
    Option Failure × Store :=
  match stateText E state with
  | .error e => (some (.exn e), st)
  | .ok text =>
    let (raised, folder) := atomicWriteText st.state name text x.temporary x.write
    match raised with
    | some e => (some (.os e), { st with state := folder })
    | none =>
      let (raised, st) := writeAuditEvent E { st with state := folder } state x
      (if ignoreExisting && raised = some (.os .fileExists) then none else raised, st)

def writeNewDeploymentState (st : Store) (name : String) (state : Dict F) (key : Key) (x : Attempt) :
    Option Failure × Store :=
  match verifyDeploymentState E state key with
  | .error e => (some (.exn e), st)
  | .ok check =>
    if !check.valid then (some (.exn (.valueError "refusing to write invalid deployment state")), st)
    else match x.parent with
      | some e => (some (.os e), st)
      | none => match x.lock with
        | some e => (some e, st)
        | none => if st.state.has name then (some (.os .fileExists), st)
          else storeState E st name state false x

/-- `update_deployment_state_file`. -/
def updateStateFile (st : Store) (name : String) (key : Key) (expectedGeneration : Option ℤ)
    (a : TransitionArgs F) (x : Attempt) : Option Failure × Store :=
  match x.lock with
  | some e => (some e, st)
  | none => match st.state.text? name with
    | none => (some (.os .fileNotFound), st)
    | some text => match updatedState E text key expectedGeneration a with
      | .error e => (some (.exn e), st)
      | .ok updated => storeState E st name updated true x

/-- A call of one of the writers. -/
inductive Call (F : Type) where
  | writeNew (state : Dict F)
  | update (expectedGeneration : Option ℤ) (a : TransitionArgs F)

def perform (st : Store) (name : String) (key : Key) (x : Attempt) : Call F → Option Failure × Store
  | .writeNew state => writeNewDeploymentState E st name state key x
  | .update g a => updateStateFile E st name key g a x

/-! ### Changing together -/

/-- There is an event with the digest. -/
def Recorded (events : Folder) (digest : String) : Prop :=
  ∃ file ∈ events.files, ∃ event, E.jsonLoads file.2 = .ok (.obj event) ∧
    getKey event "state_sha256" = .str digest

/-- There is an event with the digest of the stored state. -/
def Audited (st : Store) (name : String) : Prop :=
  ∃ text state digest, st.state.text? name = some text ∧ loadDeploymentState E text = .ok state ∧
    sha256Json E (.obj state) = .ok digest ∧ Recorded E st.events digest

/-- **A call that raises leaves the state file as it was; one that returns leaves an event with the
digest of the stored state.** -/
def Together (before : Store) (name : String) (result : Option Failure × Store) : Prop :=
  (result.1 ≠ none → result.2.state.text? name = before.state.text? name) ∧
    (result.1 = none → Audited E result.2 name)

/-- The state that a call is about to store. -/
def Stores (st : Store) (name : String) (key : Key) (x : Attempt) (state : Dict F) : Call F → Prop
  | .writeNew s => s = state ∧ x.parent = none ∧ x.lock = none ∧ st.state.has name = false ∧
      ∃ check, verifyDeploymentState E s key = .ok check ∧ check.valid = true
  | .update g a => x.lock = none ∧
      ∃ text, st.state.text? name = some text ∧ updatedState E text key g a = .ok state

/-- The steps after the state file is replaced: none of them raises, and the event is new, or there is
one with the digest already and that is ignored. -/
def AuditOk (st : Store) (x : Attempt) (state : Dict F) (ignoreExisting : Bool) : Prop :=
  x.write .syncFolder = none ∧ ∃ name digest, eventName E state = .ok name ∧
    sha256Json E (.obj state) = .ok digest ∧
      (x.eventsFolder = none ∧ getKey state "history" ≠ .arr [] ∧ x.audit.publishes = true ∧
          (st.events.has name = false ∧ x.audit.raisesLate = false ∨
            ignoreExisting = true ∧ st.events.has name = true ∧ x.audit.unlinkRaises = false ∧
              Recorded E st.events digest) ∨
        x.eventsFolder = some .fileExists ∧ ignoreExisting = true ∧ Recorded E st.events digest)

/-- A call that creates a state does not take an event for its own. -/
def Call.ignoresExisting : Call F → Bool
  | .writeNew _ => false
  | .update _ _ => true

variable {E}

/-! ### The event of a state -/

theorem printable_of_stateText {state : Dict F} (hs : wellFormed (.obj state) = true) {text : String}
    (h : stateText E state = .ok text) : printable E.T.toFloatText true (.obj state) = true := by
  have hp := printable_jsonLoads E (jsonLoads_fileText E hs h)
  rwa [printable_sortKeys] at hp

theorem sha256Json_sortDict (state : Dict F) :
    sha256Json E (.obj (sortDict state)) = sha256Json E (.obj state) := by
  rw [sha256Json, sha256Json, ← sortKeys_obj', canonical_sortKeys]

/-- A state with an integer generation has an event, unless its history is empty. -/
theorem event_ok {state : Dict F} (hs : wellFormed (.obj state) = true)
    (hp : printable E.T.toFloatText true (.obj state) = true) {g : ℤ}
    (hg : getKey state "generation" = .int g) : ∃ name digest, eventName E state = .ok name ∧
      sha256Json E (.obj state) = .ok digest ∧
      (getKey state "history" ≠ .arr [] → ∃ event text, auditEvent E state = .ok event ∧
        E.fileText true (.obj event) = .ok text ∧ ∃ back, E.jsonLoads text = .ok (.obj back) ∧
          getKey back "state_sha256" = .str digest) ∧
      (getKey state "history" = .arr [] → ∃ e, auditEvent E state = .error e) := by
  obtain ⟨id, hid⟩ := strOr_ok hp "policy_id" "unknown"
  obtain ⟨stage, hstage⟩ := strOr_ok hp "stage" "unknown"
  have hgen : E.toInt ((lookup "generation" state).getD (.int 0)) = .ok g := by
    rw [lookup_of_getKey hg (by simp)]
    rfl
  have hpg : printable E.T.toFloatText true (.int g) = true := hg ▸ printable_getKey hp "generation"
  have htext : E.str (.int g) = .ok (strText E.T E.isPrintable (.int g)) :=
    (pyStr_eq_ok E.T).mpr ⟨hpg, rfl⟩
  have hdig : sha256Json E (.obj state) = .ok (E.sha256 (canonicalText E.T (.obj state))) := by
    rw [sha256Json, (canonical_eq_ok E.T).mpr ⟨hp, rfl⟩]
    rfl
  have hname : eventName E state = .ok (zeroPad 6 (strText E.T E.isPrintable (.int g)) ++ "-" ++
      String.ofList (id.toList.take 12) ++ "-" ++ stage ++ ".json") := by
    unfold eventName
    simp only [hid, hgen, hstage, htext, bind, Except.bind]
    rfl
  refine ⟨_, _, hname, hdig, fun hne => ?_, fun he => ?_⟩
  · have htail : ∃ tail, historyTail state = .ok tail ∧ wellFormed tail = true ∧
        printable E.T.toFloatText true tail = true := by
      have hw := wellFormed_getKey hs "history"
      have hpr := printable_getKey hp "history"
      unfold historyTail
      split
      · next entries hh =>
        rw [hh] at hw hpr
        cases hl : entries.getLast? with
        | none => exact absurd (List.getLast?_eq_none_iff.mp hl ▸ hh) hne
        | some entry =>
          have hmem := List.mem_of_getLast? hl
          exact ⟨entry, rfl, (wellFormed_arr _).mp hw _ hmem, (printable_arr true _).mp hpr _ hmem⟩
      · exact ⟨.null, rfl, rfl, rfl⟩
    obtain ⟨tail, htail, hwt, hpt⟩ := htail
    have hev : auditEvent E state = .ok (eventEntries id g stage (getKey state "updated_at")
        (E.sha256 (canonicalText E.T (.obj state))) tail) := by
      unfold auditEvent
      simp only [hid, hgen, hstage, hdig, htail, bind, Except.bind]
      rfl
    have hprint : printable E.T.toFloatText true (.obj (eventEntries id g stage
        (getKey state "updated_at") (E.sha256 (canonicalText E.T (.obj state))) tail)) = true := by
      rw [eventEntries, printable_obj]
      simp only [List.forall_mem_cons]
      exact ⟨rfl, hpg, rfl, printable_getKey hp _, rfl, hpt, by simp⟩
    have hwf : wellFormed (.obj (eventEntries id g stage (getKey state "updated_at")
        (E.sha256 (canonicalText E.T (.obj state))) tail)) = true := by
      rw [eventEntries, wellFormed_obj]
      refine ⟨by simp [keys], ?_⟩
      simp only [List.forall_mem_cons]
      exact ⟨rfl, rfl, rfl, wellFormed_getKey hs _, rfl, hwt, by simp⟩
    obtain ⟨text, ht⟩ := fileText_eq_ok E hprint
    have hback := jsonLoads_fileText E hwf ht
    rw [sortKeys_obj'] at hback
    exact ⟨_, text, hev, ht, _, hback, getKey_sorted_str hwf rfl⟩
  · unfold auditEvent historyTail
    rw [hid, hgen, hstage, hdig, he]
    exact ⟨_, rfl⟩

/-! ### The audit event is written or it is there -/

/-- What is left of an error if an existing file may be ignored. -/
def Ignores (ignoreExisting : Bool) (raised : Option Failure) : Prop :=
  raised = none ∨ ignoreExisting = true ∧ raised = some (.os .fileExists)

theorem ignores_iff {ignoreExisting : Bool} {raised : Option Failure} :
    (if ignoreExisting && raised = some (.os .fileExists) then none else raised) = none ↔
      Ignores ignoreExisting raised := by
  unfold Ignores
  cases ignoreExisting <;> simp
  by_cases h : raised = some (.os .fileExists) <;> simp [h]

theorem writeAuditEvent_state (st : Store) (state : Dict F) (x : Attempt) :
    (writeAuditEvent E st state x).2.state = st.state := by
  unfold writeAuditEvent
  cases x.eventsFolder with
  | some e => rfl
  | none =>
    dsimp only
    split <;> rfl

/-- A file is recorded in a longer folder if and only if it was or the new one records it. -/
theorem recorded_append {files : List (String × String)} {temporaries : List String}
    {file : String × String} {digest : String} :
    Recorded E ⟨files ++ [file], temporaries⟩ digest ↔ Recorded E ⟨files, temporaries⟩ digest ∨
      ∃ event, E.jsonLoads file.2 = .ok (.obj event) ∧
        getKey event "state_sha256" = .str digest := by
  unfold Recorded
  constructor
  · rintro ⟨f, hf, h⟩
    rcases List.mem_append.mp hf with hf | hf
    · exact Or.inl ⟨f, hf, h⟩
    · rw [List.mem_singleton.mp hf] at h
      exact Or.inr h
  · rintro (⟨f, hf, h⟩ | h)
    · exact ⟨f, List.mem_append_left _ hf, h⟩
    · exact ⟨file, by simp, h⟩

theorem recorded_congr {d d' : Folder} (h : d.files = d'.files) {digest : String} :
    Recorded E d digest ↔ Recorded E d' digest := by
  unfold Recorded
  rw [h]

/-- **When the event is recorded without an error.** -/
theorem writeAuditEvent_iff {state : Dict F} (hs : wellFormed (.obj state) = true)
    (hp : printable E.T.toFloatText true (.obj state) = true) {g : ℤ}
    (hg : getKey state "generation" = .int g) {name digest : String}
    (hname : eventName E state = .ok name) (hdig : sha256Json E (.obj state) = .ok digest)
    (st : Store) (x : Attempt) (ignoreExisting : Bool) :
    Ignores ignoreExisting (writeAuditEvent E st state x).1 ∧
        Recorded E (writeAuditEvent E st state x).2.events digest ↔
      x.eventsFolder = none ∧ getKey state "history" ≠ .arr [] ∧ x.audit.publishes = true ∧
          (st.events.has name = false ∧ x.audit.raisesLate = false ∨
            ignoreExisting = true ∧ st.events.has name = true ∧ x.audit.unlinkRaises = false ∧
              Recorded E st.events digest) ∨
        x.eventsFolder = some .fileExists ∧ ignoreExisting = true ∧ Recorded E st.events digest := by
  obtain ⟨name', digest', hname', hdig', hok, hbad⟩ := event_ok hs hp hg
  cases hname.symm.trans hname'
  cases hdig.symm.trans hdig'
  unfold writeAuditEvent
  cases hf : x.eventsFolder with
  | some e =>
    simp only [Ignores, reduceCtorEq, false_or, Option.some.injEq, Failure.os.injEq, false_and,
      and_assoc]
    tauto
  | none =>
    simp only [true_and, reduceCtorEq, false_and, or_false]
    by_cases hh : getKey state "history" = .arr []
    · obtain ⟨e, he⟩ := hbad hh
      rw [hname, he]
      simp [hh, Ignores, bind, Except.bind]
    obtain ⟨event, text, hev, htext, back, hback, hstate⟩ := hok hh
    rw [hname, hev]
    simp only [bind, Except.bind, htext, pure, Except.pure, ne_eq, hh, not_false_eq_true, true_and]
    have hfiles := @files_create st.events name text x.eventTemporary x.audit
    by_cases hpub : x.audit.publishes = true
    case neg =>
      obtain ⟨e, he, hne⟩ := @create_early st.events name text x.eventTemporary x.audit
        (by simpa using hpub)
      rw [he]
      simp [Ignores, hne, hpub]
    have herr := @create_error st.events name text x.eventTemporary x.audit hpub
    rw [hpub, Bool.true_and] at hfiles
    rw [herr]
    by_cases hun : x.audit.unlinkRaises = true
    · simp [hun, Ignores, Faults.raisesLate]
    by_cases hhas : st.events.has name = true
    · have hrec := @recorded_congr F E _ st.events (hfiles.trans (by simp [hhas])) digest
      simp only [hun, hhas, if_true, Bool.false_eq_true, if_false, hpub, true_and, reduceCtorEq,
        false_and, false_or, hrec]
      simp [Ignores]
    · have hrec := @recorded_congr F E _ ⟨st.events.files ++ [(name, text)], []⟩
        (hfiles.trans (by simp [hhas])) digest
      simp only [hun, hhas, Bool.false_eq_true, if_false, hpub, true_and, false_and, and_false,
        or_false, hrec]
      rw [recorded_append]
      cases hsync : x.audit .syncFolder with
      | none => simp [firstError, hsync, Ignores, Faults.raisesLate, hun, hback, hstate]
      | some fault => cases fault <;> simp [firstError, hsync, Ignores, Faults.raisesLate, Fault.error]

/-! ### Storing a state -/

/-- What a stored state satisfies that a call makes or checks. -/
structure Storable (E : Env F) (state : Dict F) : Prop where
  wf : wellFormed (.obj state) = true
  generation : ∃ g, getKey state "generation" = .int g

/-- The state file that was replaced holds the state, and its digest is that of the state. -/
theorem audited_iff {st : Store} {name text digest : String} {state : Dict F}
    (hs : wellFormed (.obj state) = true) (ht : stateText E state = .ok text)
    (hfile : st.state.text? name = some text) (hd : sha256Json E (.obj state) = .ok digest) :
    Audited E st name ↔ Recorded E st.events digest := by
  have hload := load_stateText hs ht
  constructor
  · rintro ⟨text', state', digest', hfile', hload', hd', hrec⟩
    cases hfile.symm.trans hfile'
    cases hload.symm.trans hload'
    rw [sha256Json_sortDict, hd] at hd'
    cases hd'
    exact hrec
  · intro hrec
    exact ⟨text, _, digest, hfile, hload, (sha256Json_sortDict state).trans hd, hrec⟩

theorem together_unchanged (st : Store) (name : String) (e : Failure) :
    Together E st name (some e, st) :=
  ⟨fun _ => rfl, by simp⟩

/-- Once the state file is replaced, the call must not raise. -/
theorem together_replaced {before after : Store} {name text : String} {raised : Option Failure}
    (hfile : after.state.text? name = some text) (hnew : before.state.text? name ≠ some text) :
    Together E before name (raised, after) ↔ raised = none ∧ Audited E after name := by
  constructor
  · rintro ⟨hsame, haudited⟩
    have hno : raised = none := by
      by_contra hne
      have h := hsame hne
      rw [hfile] at h
      exact hnew h.symm
    exact ⟨hno, haudited hno⟩
  · rintro ⟨hno, h⟩
    exact ⟨fun hne => absurd hno hne, fun _ => h⟩

/-- **When storing a state changes the file and the trail together.** -/
theorem storeState_iff {state : Dict F} (hs : Storable E state) {st : Store} {name : String}
    (hnew : ∀ text, stateText E state = .ok text → st.state.text? name ≠ some text)
    (x : Attempt) (ignoreExisting : Bool) :
    Together E st name (storeState E st name state ignoreExisting x) ↔
      ((∃ text, stateText E state = .ok text) → x.write.publishes = true →
        AuditOk E st x state ignoreExisting) := by
  unfold storeState
  cases ht : stateText E state with
  | error e => simp [Together]
  | ok text =>
    obtain ⟨g, hg⟩ := hs.generation
    have hp := printable_of_stateText hs.wf ht
    have hfiles := @files_write st.state name text x.temporary x.write
    have hraised := @write_eq_none st.state name text x.temporary x.write
    simp only [Except.ok.injEq, exists_eq', true_imp_iff]
    cases hr : (atomicWriteText st.state name text x.temporary x.write).1 with
    | some e =>
      rw [hr] at hraised
      dsimp only
      by_cases hpub : x.write.publishes = true
      · -- the file was replaced, and the call raises all the same
        rw [if_pos hpub] at hfiles
        have hsync : x.write .syncFolder ≠ none := fun h => by simpa using hraised.mpr ⟨hpub, h⟩
        refine iff_of_false ?_ fun h => hsync (h hpub).1
        rw [@together_replaced _ E st _ name text _ ?_ (hnew text ht)]
        · simp
        · unfold Folder.text?
          rw [hfiles, lookup_setFile_self]
      · rw [if_neg hpub] at hfiles
        refine iff_of_true ⟨fun _ => ?_, by simp⟩ fun h => absurd h hpub
        unfold Folder.text?
        dsimp only
        rw [hfiles]
    | none =>
      obtain ⟨hpub, hsync⟩ := hraised.mp hr
      rw [if_pos hpub] at hfiles
      obtain ⟨ev, digest, hname, hdig, -⟩ := event_ok hs.wf hp hg
      obtain ⟨st₁, hst₁⟩ : ∃ st₁ : Store, { st with
        state := (atomicWriteText st.state name text x.temporary x.write).2 } = st₁ := ⟨_, rfl⟩
      have hfile : st₁.state.text? name = some text := by
        rw [← hst₁]
        unfold Folder.text?
        rw [hfiles, lookup_setFile_self]
      have hevents : st₁.events = st.events := by rw [← hst₁]
      have hfile' : (writeAuditEvent E st₁ state x).2.state.text? name = some text := by
        rw [writeAuditEvent_state]
        exact hfile
      have hiff := writeAuditEvent_iff hs.wf hp hg hname hdig st₁ x ignoreExisting
      simp only [hpub, true_imp_iff, hst₁]
      rw [together_replaced hfile' (hnew text ht), ignores_iff, audited_iff hs.wf ht hfile' hdig, hiff,
        hevents]
      unfold AuditOk
      constructor
      · intro h
        exact ⟨hsync, ev, digest, hname, hdig, h⟩
      · rintro ⟨-, ev', digest', hname', hdig', h⟩
        cases hname.symm.trans hname'
        cases hdig.symm.trans hdig'
        exact h

/-! ### The calls -/

/-- A state given to a call has no key twice. -/
def Call.Proper : Call F → Prop
  | .writeNew state => wellFormed (.obj state) = true
  | .update _ _ => True

theorem storable_update {text : String} {key : Key} {g : Option ℤ} {a : TransitionArgs F}
    {updated : Dict F} (h : updatedState E text key g a = .ok updated) : Storable E updated ∧
      ∀ text', stateText E updated = .ok text' → text ≠ text' := by
  obtain ⟨current, hload, -, ht⟩ := updatedState_eq_ok h
  have hwf := wellFormed_transition E (wellFormed_load hload) ht
  have hgen := (transition_moves E ht).2.1
  refine ⟨⟨hwf, _, hgen⟩, ?_⟩
  rintro text' ht' rfl
  -- the file would hold two generations
  cases hload.symm.trans (load_stateText hwf ht')
  have hself : generationOf (sortDict updated) = generationOf (sortDict updated) + 1 := by
    conv_lhs => rw [generationOf, getKey_sorted hwf, hgen, sortKeys_int]
  omega

theorem storable_new {state : Dict F} (hs : wellFormed (.obj state) = true) {key : Key}
    (h : ∃ check, verifyDeploymentState E state key = .ok check ∧ check.valid = true) :
    Storable E state := by
  obtain ⟨stage, hv⟩ := (State.verify_iff E).mp h
  refine ⟨hs, ?_⟩
  have hg := hv.generation
  unfold generationBad at hg
  split at hg
  · next g hg' => exact ⟨g, hg'⟩
  · cases hg

/-- **The state file and the trail change together if and only if** nothing goes wrong between the
replacement of the file and the end of the call. -/
theorem together_iff {st : Store} {name : String} {key : Key} {x : Attempt} {c : Call F}
    (hc : c.Proper) : Together E st name (perform E st name key x c) ↔
      ∀ state, Stores E st name key x state c → (∃ text, stateText E state = .ok text) →
        x.write.publishes = true → AuditOk E st x state c.ignoresExisting := by
  cases c with
  | writeNew state =>
    show Together E st name (writeNewDeploymentState E st name state key x) ↔ _
    unfold writeNewDeploymentState
    cases hv : verifyDeploymentState E state key with
    | error e =>
      refine iff_of_true (together_unchanged _ _ _) ?_
      rintro _ ⟨rfl, -, -, -, check, hcheck, -⟩
      cases hv.symm.trans hcheck
    | ok check =>
      dsimp only
      by_cases hvalid : check.valid = true
      case neg =>
        rw [if_pos (by simpa using hvalid)]
        refine iff_of_true (together_unchanged _ _ _) ?_
        rintro _ ⟨rfl, -, -, -, check', hcheck, hv'⟩
        cases hv.symm.trans hcheck
        exact absurd hv' hvalid
      rw [if_neg (by simp [hvalid])]
      cases hparent : x.parent with
      | some e =>
        refine iff_of_true (together_unchanged _ _ _) ?_
        rintro _ ⟨rfl, hno, -⟩
        cases hparent.symm.trans hno
      | none =>
        cases hlock : x.lock with
        | some e =>
          refine iff_of_true (together_unchanged _ _ _) ?_
          rintro _ ⟨rfl, -, hno, -⟩
          cases hlock.symm.trans hno
        | none =>
          by_cases hhas : st.state.has name = true
          case pos =>
            rw [if_pos hhas]
            refine iff_of_true (together_unchanged _ _ _) ?_
            rintro _ ⟨rfl, -, -, hno, -⟩
            cases hhas.symm.trans hno
          rw [if_neg hhas]
          have hnone := text?_eq_none (by simpa using hhas : st.state.has name = false)
          have hvalid' : ∃ check, verifyDeploymentState E state key = .ok check ∧
              check.valid = true := ⟨check, hv, hvalid⟩
          rw [storeState_iff (storable_new hc hvalid') (fun text _ => by simp [hnone])]
          constructor
          · rintro h _ ⟨rfl, -⟩ ht hp
            exact h ht hp
          · exact fun h => h state ⟨rfl, hparent, hlock, by simpa using hhas, hvalid'⟩
  | update g a =>
    show Together E st name (updateStateFile E st name key g a x) ↔ _
    unfold updateStateFile
    cases hlock : x.lock with
    | some e =>
      refine iff_of_true (together_unchanged _ _ _) ?_
      rintro _ ⟨hno, -⟩
      cases hlock.symm.trans hno
    | none =>
      cases hfile : st.state.text? name with
      | none =>
        refine iff_of_true (together_unchanged _ _ _) ?_
        rintro _ ⟨-, text, hno, -⟩
        cases hfile.symm.trans hno
      | some text =>
        cases hup : updatedState E text key g a with
        | error e =>
          simp only [hup]
          refine iff_of_true (together_unchanged _ _ _) ?_
          rintro _ ⟨-, text', hfile', hup'⟩
          cases hfile.symm.trans hfile'
          cases hup.symm.trans hup'
        | ok updated =>
          simp only [hup]
          obtain ⟨hs, hnew⟩ := storable_update hup
          rw [storeState_iff hs (fun text' ht he => hnew text' ht (by
            rw [hfile] at he
            exact Option.some.inj he))]
          constructor
          · rintro h state ⟨-, text', hfile', hup'⟩
            cases hfile.symm.trans hfile'
            cases hup.symm.trans hup'
            exact h
          · exact fun h => h updated ⟨hlock, text, hfile, hup⟩

/-! ### An event of an earlier deployment -/

section Samples

/-- No step raises. -/
def smooth : Attempt := ⟨none, none, noFault, none, noFault, "", ""⟩

/-- The first state of the sample deployment: it can be stored, and its event has a name. -/
theorem sample_first : ∃ first name, wellFormed (.obj first) = true ∧
    (∃ check, verifyDeploymentState platform first [1] = .ok check ∧ check.valid = true) ∧
    (∃ text, stateText platform first = .ok text) ∧ eventName platform first = .ok name ∧
    (∃ digest, sha256Json platform (.obj first) = .ok digest) ∧
    getKey first "history" ≠ .arr [] := by
  have hp : validatePolicy platform (.obj onePolicy) = .ok onePolicy := by decide
  obtain ⟨first, hfirst⟩ := sample_created sample_fields hp
  obtain ⟨htr, -⟩ := tracks_create platform (wellFormed_sample (by decide)) hfirst
  obtain ⟨text, ht, -⟩ := htr.load
  obtain ⟨name, digest, hname, hdig, -⟩ := event_ok htr.wf htr.printable htr.generation
  refine ⟨first, name, htr.wf, htr.valid, ⟨text, ht⟩, hname, ⟨digest, hdig⟩, ?_⟩
  obtain ⟨entries, hentries, hrec⟩ := htr.history
  intro h
  rw [hentries, Json.arr.injEq] at h
  have := hrec.length_eq
  rw [h] at this
  simp [Course.start] at this

/-- A new state is stored with its event. -/
theorem together_first : ∃ first, Together platform ⟨⟨[], []⟩, ⟨[], []⟩⟩ "state.json"
    (perform platform ⟨⟨[], []⟩, ⟨[], []⟩⟩ "state.json" [1] smooth (.writeNew first)) := by
  obtain ⟨first, name, hwf, -, -, hname, ⟨digest, hdig⟩, hhist⟩ := sample_first
  refine ⟨first, (together_iff (c := .writeNew first) hwf).mpr ?_⟩
  rintro _ ⟨rfl, -⟩ - -
  exact ⟨rfl, name, digest, hname, hdig, Or.inl ⟨rfl, hhist, rfl, Or.inl ⟨rfl, rfl⟩⟩⟩

/-- **If an event of its name is left over, a new state is stored by a call that raises.** -/
theorem not_together_leftover : ∃ first events, wellFormed (.obj first) = true ∧
    ¬ Together platform ⟨⟨[], []⟩, events⟩ "state.json"
      (perform platform ⟨⟨[], []⟩, events⟩ "state.json" [1] smooth (.writeNew first)) := by
  obtain ⟨first, name, hwf, hvalid, htext, hname, -, -⟩ := sample_first
  refine ⟨first, ⟨[(name, "")], []⟩, hwf, fun h => ?_⟩
  have hok := (together_iff (c := .writeNew first) hwf).mp h first ⟨rfl, rfl, rfl, rfl, hvalid⟩ htext rfl
  obtain ⟨-, name', digest, hname', -, hcase⟩ := hok
  cases hname.symm.trans hname'
  rcases hcase with ⟨-, -, -, ⟨hno, -⟩ | ⟨hno, -⟩⟩ | ⟨-, hno, -⟩
  · simp [Folder.has] at hno
  · cases hno
  · cases hno

end Samples

end ControlPlane.Deployment.Audit
