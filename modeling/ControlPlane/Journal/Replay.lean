import ControlPlane.Journal.Sealed
import ControlPlane.Telemetry.Gather

/-! # Replaying a run

`replayRunJournal` reads the journal of a run back, whatever its file holds, and releases its events if the journal
is accepted. `Site` is what the present state of the workspace is compared with.

`replay_spec`: no file makes it raise, and the events are those of an accepted record or none. `replay_written`: what
is released of a journal that was built and written. `released_agree`: without collisions, two journals with the same
head digest release the same events, up to the order of keys and to what is not hashed of an event. -/

namespace ControlPlane.Journal.Replay

open ControlPlane.Lib.Value ControlPlane.Lib.Print ControlPlane.Lib.Text ControlPlane.Lib.RoundTrip
open ControlPlane.Lib.Dumps ControlPlane.Lib.Dynamic ControlPlane.Lib.HashChain ControlPlane.Lib.Publish
open ControlPlane.Environment ControlPlane.Journal.Build ControlPlane.Journal.Verify ControlPlane.Journal.Sealed
open ControlPlane.Telemetry.Gather ControlPlane.Instance ControlPlane.Lib.Grid

variable {F : Type} (E : Env F) (isalnum : Char → Bool)

/-! ### Reading -/

def maxJournalBytes : ℕ := 8 * 1024 * 1024

def readRunJournal (folder : Folder) (runId : String) : Option (Dict F) :=
  match safeRunId isalnum runId with
  | .error _ => none
  | .ok safe => match folder.text? (safe ++ ".json") with
    | none => none
    | some text =>
      if maxJournalBytes < text.utf8ByteSize then none
      else match E.jsonLoads text with
        | .ok (.obj record) => some record
        | _ => none

/-! ### Compatibility -/

/-- The present state of the workspace. -/
structure Site where
  configDigest : String
  retrievalPolicyVersion : String
  workspaceFingerprint : List String → Py String
  graphFingerprint : Py String
  repositoryFingerprint : Py String

/-- A state, as it is and as it was recorded. -/
structure Comparison where
  name : String
  current : String
  recorded : String

structure Compatibility where
  runId : String
  mismatches : List String
  states : List Comparison

def Compatibility.compatible (c : Compatibility) : Bool := c.mismatches.isEmpty

/-- `_validated_changed_files` of a record that may lack them if it has another version. -/
def changedFilesOf (record : Dict F) : Py (List String) :=
  match getKey record "changed_files" with
  | .null => if same E record "schema_version" replaySchemaVersion then validatedChangedFiles record else .ok []
  | _ => validatedChangedFiles record

/-- The repositories are compared if they were recorded. -/
def repositoryState (site : Site) (recorded : String) : Py (List Comparison) :=
  if recorded = "" then .ok []
  else do return [⟨"repository_fingerprint", ← site.repositoryFingerprint, recorded⟩]

def compatibilityFromRecord (site : Site) (runId : String) (record : Dict F) : Py Compatibility :=
  match changedFilesOf E record with
  | .error _ => .ok ⟨runId, ["invalid_changed_files"], []⟩
  | .ok changed => do
    let policy := (objOf? record "policy_identity").getD []
    let workspace ← site.workspaceFingerprint changed
    let graph ← site.graphFingerprint
    let states : List Comparison := [
      ⟨"config_digest", site.configDigest, ← E.strOr policy "config_digest" ""⟩,
      ⟨"retrieval_policy_version", site.retrievalPolicyVersion, ← E.strOr policy "retrieval_policy_version" ""⟩,
      ⟨"workspace_fingerprint", workspace,
        ← E.strOr ((objOf? record "workspace_state").getD []) "fingerprint" ""⟩,
      ⟨"graph_fingerprint", graph, ← E.strOr ((objOf? record "graph_state").getD []) "fingerprint" ""⟩]
    let repository ← E.strOr ((objOf? record "repository_state").getD []) "fingerprint" ""
    let all := states ++ (← repositoryState site repository)
    return ⟨runId, (all.filter fun s => s.current != s.recorded).map Comparison.name, all⟩

/-! ### Replay -/

structure Outcome (F : Type) where
  runId : String
  found : Bool
  schemaVersion : Json F
  replayMode : Json F
  integrity : Integrity F
  compatibility : Compatibility
  replayHeadDigest : Json F
  journalDigest : Json F
  eventsReleased : Bool
  events : List (Dict F)

/-- The objects of a list. -/
def objects : List (Json F) → List (Dict F)
  | [] => []
  | .obj d :: items => d :: objects items
  | _ :: items => objects items

/-- The events of an accepted record. -/
def releasedEvents (record : Dict F) : Py (List (Dict F)) :=
  match getKey record "replay_events" with
  | .arr items => .ok (objects items)
  | _ => .error (.runtimeError "verified replay journal lost its event list")

/-- The compatibility of a record that was verified, and the events that are released. -/
def release (site : Site) (runId : String) (record : Dict F) (valid : Bool) :
    Py (Compatibility × List (Dict F)) :=
  if valid then do
    let compatibility ← compatibilityFromRecord E site runId record
    return (compatibility, ← releasedEvents record)
  else .ok (⟨runId, ["invalid_journal"], []⟩, [])

def replayRunJournal (folder : Folder) (site : Site) (runId : String) : Py (Outcome F) :=
  match readRunJournal E isalnum folder runId with
  | none => .ok ⟨runId, false, .null, .null, ⟨["missing_journal"], 0, .null, .null⟩, ⟨runId, ["missing_journal"], []⟩,
      .null, .null, false, []⟩
  | some record => do
    let integrity ← verifyReplayJournal E isalnum record (some runId)
    let (compatibility, events) ← release E site runId record integrity.valid
    return ⟨runId, true, getKey record "schema_version", getKey record "replay_mode", integrity, compatibility,
      getKey record "replay_head_digest", getKey record "journal_digest", integrity.valid, events⟩

def verifyRunJournal (folder : Folder) (site : Site) (runId : String) : Py Compatibility :=
  match readRunJournal E isalnum folder runId with
  | none => .ok ⟨runId, ["missing_journal"], []⟩
  | some record =>
    if same E record "schema_version" replaySchemaVersion then do
      let integrity ← verifyReplayJournal E isalnum record (some runId)
      if integrity.valid then compatibilityFromRecord E site runId record
      else return ⟨runId, ["invalid_journal"], []⟩
    else compatibilityFromRecord E site runId record

variable {E} {isalnum}

/-! ### Nothing raises -/

/-- The fingerprints of the workspace can be taken. -/
structure Site.Readable (site : Site) : Prop where
  workspace : ∀ changed, ∃ text, site.workspaceFingerprint changed = .ok text
  graph : ∃ text, site.graphFingerprint = .ok text
  repositories : ∃ text, site.repositoryFingerprint = .ok text

theorem readRunJournal_eq_some {folder : Folder} {runId : String} {record : Dict F} :
    readRunJournal E isalnum folder runId = some record ↔ ∃ safe text, safeRunId isalnum runId = .ok safe ∧
      folder.text? (safe ++ ".json") = some text ∧ text.utf8ByteSize ≤ maxJournalBytes ∧
      E.jsonLoads text = .ok (.obj record) := by
  unfold readRunJournal
  cases hsafe : safeRunId isalnum runId with
  | error e => simp
  | ok safe =>
    dsimp only
    cases htext : folder.text? (safe ++ ".json") with
    | none => simp [htext]
    | some text =>
      dsimp only
      by_cases hsize : maxJournalBytes < text.utf8ByteSize
      · rw [if_pos hsize]
        constructor
        · intro h
          cases h
        · rintro ⟨safe', text', hok, hfile, hle, -⟩
          rw [Except.ok.injEq] at hok
          subst hok
          rw [htext, Option.some.injEq] at hfile
          subst hfile
          omega
      · rw [if_neg hsize]
        constructor
        · intro h
          refine ⟨safe, text, rfl, htext, by omega, ?_⟩
          split at h
          · next record' hloads =>
            rw [Option.some.injEq] at h
            rw [hloads, h]
          · cases h
        · rintro ⟨safe', text', hok, hfile, -, hloads⟩
          rw [Except.ok.injEq] at hok
          subst hok
          rw [htext, Option.some.injEq] at hfile
          subst hfile
          rw [hloads]

theorem str_isOk {v : Json F} (h : printable E.T.toFloatText true v = true) : ∃ text, E.str v = .ok text :=
  ⟨_, (pyStr_eq_ok E.T).mpr ⟨h, rfl⟩⟩

theorem str_orEmpty_isOk {d : Dict F} (h : printable E.T.toFloatText true (.obj d) = true) (k : String) :
    ∃ text, E.str (orEmpty E (getKey d k)) = .ok text := by
  refine str_isOk ?_
  unfold orEmpty
  by_cases htrue : truthy E.T (getKey d k) = true
  · rw [if_pos htrue]
    exact printable_getKey h k
  · rw [if_neg htrue]
    rfl

theorem verifyEvent_isOk {n : ℕ} {previous raw : Json F} (h : printable E.T.toFloatText true raw = true) :
    ∃ result, verifyEvent E n previous raw = .ok result := by
  cases raw with
  | obj event =>
    rw [verifyEvent]
    obtain ⟨text, htext⟩ := str_orEmpty_isOk h "kind"
    have hkind : kindOf E event = .ok (strip text) := bind_eq_ok.mpr ⟨text, htext, rfl⟩
    refine bind_isOk ⟨_, hkind⟩ fun kind _ => ?_
    dsimp only
    split_ifs
    · exact ⟨_, rfl⟩
    · exact bind_isOk (str_orEmpty_isOk h "event_digest") fun supplied _ => ⟨_, rfl⟩
  | _ => exact ⟨_, rfl⟩

theorem verifyFrom_isOk : ∀ {raws : List (Json F)} {n : ℕ} {p : Progress F},
    (∀ raw ∈ raws, printable E.T.toFloatText true raw = true) → ∃ q, verifyFrom E n p raws = .ok q
  | [], _, _, _ => ⟨_, rfl⟩
  | raw :: raws, n, p, h => by
    rw [List.forall_mem_cons] at h
    rw [verifyFrom]
    exact bind_isOk (verifyEvent_isOk h.1) fun result _ => verifyFrom_isOk h.2

/-- **A record that was read can be verified.** -/
theorem verify_isOk {record : Dict F} (h : printable E.T.toFloatText true (.obj record) = true)
    (expectedRunId : Option String) : ∃ r, verifyReplayJournal E isalnum record expectedRunId = .ok r := by
  unfold verifyReplayJournal
  dsimp only
  have hevents := printable_getKey h "replay_events"
  cases hraws : getKey record "replay_events" with
  | arr raws =>
    rw [hraws, printable_arr] at hevents
    dsimp only
    exact bind_isOk (verifyFrom_isOk hevents) fun p _ =>
      bind_isOk (str_orEmpty_isOk h "journal_digest") fun supplied _ => ⟨_, rfl⟩
  | _ => exact ⟨_, rfl⟩

theorem objOf?_printable {record : Dict F} (h : printable E.T.toFloatText true (.obj record) = true) (k : String) :
    printable E.T.toFloatText true (.obj ((objOf? record k).getD [])) = true := by
  have hk := printable_getKey h k
  unfold objOf?
  cases hget : getKey record k with
  | obj d =>
    rw [hget] at hk
    exact hk
  | _ => rfl

theorem compatibility_isOk {record : Dict F} (h : printable E.T.toFloatText true (.obj record) = true) {site : Site}
    (hsite : site.Readable) (runId : String) : ∃ c, compatibilityFromRecord E site runId record = .ok c := by
  have hfield : ∀ k name, ∃ text, E.strOr ((objOf? record k).getD []) name "" = .ok text := fun k name =>
    strOr_ok (objOf?_printable h k) name ""
  unfold compatibilityFromRecord
  cases changedFilesOf E record with
  | error e => exact ⟨_, rfl⟩
  | ok changed =>
    dsimp only
    refine bind_isOk (hsite.workspace changed) fun workspace _ => bind_isOk hsite.graph fun graph _ =>
      bind_isOk (hfield _ _) fun config _ => bind_isOk (hfield _ _) fun version _ => bind_isOk (hfield _ _)
      fun fingerprint _ => bind_isOk (hfield _ _) fun recorded _ => bind_isOk (hfield _ _) fun repository _ =>
      bind_isOk ?_ fun more _ => ⟨_, rfl⟩
    unfold repositoryState
    split_ifs
    · exact ⟨_, rfl⟩
    · exact bind_isOk hsite.repositories fun text _ => ⟨_, rfl⟩

theorem objects_map (events : List (Dict F)) : objects (events.map .obj) = events := by
  induction events with
  | nil => rfl
  | cons event events ih => rw [List.map_cons, objects, ih]

/-! ### What is released -/

/-- A record of the file of a run that is accepted, with its events. -/
def AcceptedIn (E : Env F) (isalnum : Char → Bool) (folder : Folder) (runId : String) (record : Dict F)
    (events : List (Dict F)) (bodies : List (Body F)) : Prop :=
  readRunJournal E isalnum folder runId = some record ∧ Accepted E isalnum record (some runId) events bodies

/-- What a replay may do. -/
structure Spec (E : Env F) (isalnum : Char → Bool) (folder : Folder) (runId : String) (r : Outcome F) : Prop where
  found : r.found = true ↔ ∃ record, readRunJournal E isalnum folder runId = some record
  released : r.eventsReleased = true → ∃ record bodies, AcceptedIn E isalnum folder runId record r.events bodies ∧
    r.replayHeadDigest = getKey record "replay_head_digest"
  withheld : r.eventsReleased = false → r.events = [] ∧
    ¬ ∃ record events bodies, AcceptedIn E isalnum folder runId record events bodies

/-- The events of an accepted record are released. -/
theorem releasedEvents_accepted {record : Dict F} {expectedRunId : Option String} {events : List (Dict F)}
    {bodies : List (Body F)} (h : Accepted E isalnum record expectedRunId events bodies) :
    releasedEvents record = .ok events := by
  rw [releasedEvents, h.stored]
  exact congrArg Except.ok (objects_map events)

/-- **A replay of any file.** -/
theorem replay_spec {folder : Folder} {site : Site} {runId : String} {r : Outcome F}
    (h : replayRunJournal E isalnum folder site runId = .ok r) : Spec E isalnum folder runId r := by
  unfold replayRunJournal at h
  cases hread : readRunJournal E isalnum folder runId with
  | none =>
    rw [hread] at h
    have hr := Except.ok.inj h
    subst hr
    refine ⟨by simp [hread], fun hreleased => absurd hreleased (by simp), fun _ => ⟨rfl, ?_⟩⟩
    rintro ⟨record, events, bodies, hsome, -⟩
    rw [hread] at hsome
    cases hsome
  | some record =>
    rw [hread] at h
    obtain ⟨safe, text, -, -, -, hloads⟩ := readRunJournal_eq_some.mp hread
    have hwf := wellFormed_jsonLoads E hloads
    obtain ⟨integrity, hverify, h⟩ := bind_eq_ok.mp h
    obtain ⟨⟨compatibility, events⟩, hrelease, h⟩ := bind_eq_ok.mp h
    have hr := Except.ok.inj h
    subst hr
    refine ⟨by simp [hread], fun hvalid => ?_, fun hvalid => ?_⟩
    · obtain ⟨events', bodies, haccepted⟩ := accepted_of_valid hwf hverify hvalid
      dsimp only at hvalid
      rw [release, if_pos hvalid] at hrelease
      obtain ⟨c, -, hrelease⟩ := bind_eq_ok.mp hrelease
      obtain ⟨released, hreleased, hrelease⟩ := bind_eq_ok.mp hrelease
      rw [releasedEvents_accepted haccepted, Except.ok.injEq] at hreleased
      have hsame : released = events := (Prod.mk.inj (Except.ok.inj hrelease)).2
      rw [← hreleased] at hsame
      subst hsame
      exact ⟨record, bodies, ⟨hread, haccepted⟩, rfl⟩
    · dsimp only at hvalid
      have hno : ¬ integrity.valid = true := by simp [hvalid]
      rw [release, if_neg hno] at hrelease
      refine ⟨(Prod.mk.inj (Except.ok.inj hrelease)).2.symm, ?_⟩
      rintro ⟨record', events', bodies, hsome, haccepted⟩
      rw [hread, Option.some.injEq] at hsome
      subst hsome
      obtain ⟨integrity', hverify', hvalid'⟩ := valid_of_accepted hwf haccepted
      rw [hverify, Except.ok.injEq] at hverify'
      exact hno (hverify' ▸ hvalid')

/-- **No file makes a replay raise.** -/
theorem replay_isOk (folder : Folder) {site : Site} (hsite : site.Readable) (runId : String) :
    ∃ r, replayRunJournal E isalnum folder site runId = .ok r := by
  unfold replayRunJournal
  cases hread : readRunJournal E isalnum folder runId with
  | none => exact ⟨_, rfl⟩
  | some record =>
    obtain ⟨safe, text, -, -, -, hloads⟩ := readRunJournal_eq_some.mp hread
    have hprint := printable_jsonLoads E hloads
    refine bind_isOk (verify_isOk hprint (some runId)) fun integrity hverify => bind_isOk ?_ fun result _ => ⟨_, rfl⟩
    unfold release
    split_ifs with hvalid
    · obtain ⟨events, bodies, haccepted⟩ := accepted_of_valid (wellFormed_jsonLoads E hloads) hverify hvalid
      exact bind_isOk (compatibility_isOk hprint hsite runId) fun c _ =>
        bind_isOk ⟨events, releasedEvents_accepted haccepted⟩ fun released _ => ⟨_, rfl⟩
    · exact ⟨_, rfl⟩

/-- A workspace of which nothing was recorded. -/
def blank : Site := ⟨"", "", fun _ => .ok "", .ok "", .ok ""⟩

theorem readable_blank : blank.Readable := ⟨fun _ => ⟨"", rfl⟩, ⟨"", rfl⟩, ⟨"", rfl⟩⟩

/-- The check of a run says what its replay says of the compatibility, if the journal has the version of today. -/
theorem verifyRunJournal_eq {folder : Folder} {site : Site} {runId : String} {r : Outcome F}
    (h : replayRunJournal E isalnum folder site runId = .ok r)
    (hversion : r.found = true → r.schemaVersion = .str replaySchemaVersion) :
    verifyRunJournal E isalnum folder site runId = .ok r.compatibility := by
  unfold replayRunJournal at h
  unfold verifyRunJournal
  cases hread : readRunJournal E isalnum folder runId with
  | none =>
    rw [hread] at h
    rw [← Except.ok.inj h]
  | some record =>
    rw [hread] at h
    obtain ⟨integrity, hverify, h⟩ := bind_eq_ok.mp h
    obtain ⟨⟨compatibility, events⟩, hrelease, h⟩ := bind_eq_ok.mp h
    have hr := Except.ok.inj h
    subst hr
    have hsame : same E record "schema_version" replaySchemaVersion = true := by
      rw [same, (differs_eq_false E).mpr (hversion rfl), Bool.not_false]
    dsimp only
    rw [if_pos hsame, hverify]
    change (if integrity.valid = true then _ else _) = _
    unfold release at hrelease
    split_ifs at hrelease ⊢ with hvalid
    · obtain ⟨c, hc, hrelease⟩ := bind_eq_ok.mp hrelease
      obtain ⟨released, -, hrelease⟩ := bind_eq_ok.mp hrelease
      rw [hc, (Prod.mk.inj (Except.ok.inj hrelease)).1]
    · rw [← (Prod.mk.inj (Except.ok.inj hrelease)).1]
      rfl

/-! ### A journal that was written -/

/-- The file that a call leaves. -/
theorem text?_written {record : Dict F} {runId : String} {host : JournalHost} {path : String} {folder : Folder}
    (hid : getKey record "run_id" = .str runId) (hstrip : strip runId = runId)
    (h : writeRunJournal E isalnum record host = .ok (path, folder)) :
    ∃ text, E.fileText true (.obj record) = .ok text ∧ folder.text? (runId ++ ".json") = some text := by
  unfold writeRunJournal at h
  obtain ⟨shown, hshown, h⟩ := bind_eq_ok.mp h
  rw [hid, str_orEmpty, Except.ok.injEq] at hshown
  subst hshown
  obtain ⟨safe, hsafe, h⟩ := bind_eq_ok.mp h
  obtain ⟨-, rfl⟩ := safeRunId_eq_ok.mp hsafe
  rw [hstrip] at h
  obtain ⟨text, htext, h⟩ := bind_eq_ok.mp h
  refine ⟨text, htext, ?_⟩
  cases hcreate : atomicCreateText host.folder (runId ++ ".json") text host.temporary host.faults with
  | mk raised after =>
    rw [hcreate] at h
    cases raised with
    | none =>
      have hafter : after = folder := (Prod.mk.inj (Except.ok.inj h)).2
      subst hafter
      obtain ⟨hpublishes, hnew, -⟩ := create_eq_none.mp (congrArg Prod.fst hcreate)
      have hfiles := @files_create host.folder (runId ++ ".json") text host.temporary host.faults
      rw [hcreate, hpublishes, hnew] at hfiles
      have hnone := text?_eq_none hnew
      unfold Folder.text? at hnone ⊢
      dsimp only at hfiles
      rw [hfiles, Bool.not_false, Bool.and_self, if_pos rfl, List.lookup_append, hnone]
      simp
    | some e =>
      exfalso
      cases e <;> cases h

/-- **A journal can be written** if the file operations can and there is no file of the run. -/
theorem write_isOk {record : Dict F} {events : List (Dict F)} {journal : Dict F} {runId : String}
    {chained : List (Dict F)} {bodies : List (Body F)}
    (hb : BuiltOf E isalnum record events journal runId chained bodies) {host : JournalHost}
    (hnew : host.folder.has (runId ++ ".json") = false) (hfaults : host.faults = noFault) :
    ∃ folder, writeRunJournal E isalnum journal host =
      .ok ("ai-workspace/generated/run-journal/" ++ runId ++ ".json", folder) := by
  obtain ⟨hstrip, hne, hsafe⟩ := hb.safe
  obtain ⟨text, htext⟩ := fileText_eq_ok E (printable_mono hb.printable_journal)
  have hname : safeRunId isalnum runId = .ok runId := by
    rw [safeRunId_eq_ok, hstrip]
    exact ⟨⟨hne, hsafe⟩, rfl⟩
  have hcreate : (atomicCreateText host.folder (runId ++ ".json") text host.temporary host.faults).1 = none := by
    rw [create_eq_none, hfaults]
    exact ⟨rfl, hnew, rfl⟩
  unfold writeRunJournal
  rw [hb.run_id, str_orEmpty]
  cases hafter : atomicCreateText host.folder (runId ++ ".json") text host.temporary host.faults with
  | mk raised folder =>
    rw [hafter] at hcreate
    dsimp only at hcreate
    subst hcreate
    refine ⟨folder, bind_eq_ok.mpr ⟨runId, rfl, bind_eq_ok.mpr ⟨runId, hname, bind_eq_ok.mpr ⟨text, htext, ?_⟩⟩⟩⟩
    rw [hafter]

/-! ### A journal of an empty retrieval -/

/-- The record of a retrieval that has found nothing. -/
def emptyRecord : Dict Cell := journalRecord id emptyHanded.toFindings "run-1" ["a.py"] [] ("", 1) []

def emptyEvents : List (Dict Cell) := journalEvents id emptyHanded.toFindings []

theorem wellFormed_empty : wellFormed (.obj emptyRecord) = true ∧ ∀ raw ∈ emptyEvents, wellFormed (.obj raw) = true :=
  ⟨wellFormed_journalRecord emptyHanded rfl rfl, wellFormed_journalEvents emptyHanded rfl⟩

theorem build_empty : ∃ journal, buildReplayJournal platform Char.isAlphanum emptyRecord emptyEvents = .ok journal := by
  rw [build_isOk wellFormed_empty.1 wellFormed_empty.2]
  unfold emptyRecord emptyEvents
  rw [recordable_iff]
  refine ⟨⟨by decide, by decide, by decide, by decide⟩, ?_, ?_⟩
  · decide +kernel
  · decide +kernel

/-- The journal of the empty retrieval is built and written. -/
theorem written_empty : ∃ journal chained bodies folder,
    BuiltOf platform Char.isAlphanum emptyRecord emptyEvents journal "run-1" chained bodies ∧
      buildReplayJournal platform Char.isAlphanum emptyRecord emptyEvents = .ok journal ∧
      writeRunJournal platform Char.isAlphanum journal healthy.journal =
        .ok ("ai-workspace/generated/run-journal/run-1.json", folder) := by
  obtain ⟨journal, hbuild⟩ := build_empty
  obtain ⟨runId, chained, bodies, hb⟩ := builtOf wellFormed_empty.1 wellFormed_empty.2 hbuild
  have hid : runId = "run-1" := by
    obtain ⟨text, htext, hstrip⟩ := hb.named
    have hrunId : getKey emptyRecord "run_id" = .str "run-1" := rfl
    rw [hrunId, str_orEmpty, Except.ok.injEq] at htext
    rw [hstrip, ← htext]
    decide
  subst hid
  obtain ⟨folder, hwrite⟩ := @write_isOk _ _ _ _ _ _ _ _ _ hb healthy.journal rfl rfl
  exact ⟨journal, chained, bodies, folder, hb, hbuild, hwrite⟩

section Written

variable {record : Dict F} {events : List (Dict F)} {journal : Dict F} {runId : String} {chained : List (Dict F)}
  {bodies : List (Body F)} {host : JournalHost} {path : String} {folder : Folder} {requested : String}

/-- The only record that can be found is the journal, with its keys in order. -/
theorem read_written (hrec : wellFormed (.obj record) = true) (hb : BuiltOf E isalnum record events journal runId chained bodies)
    (hwrite : writeRunJournal E isalnum journal host = .ok (path, folder)) (hrequested : strip requested = runId) :
    ∃ text, E.fileText true (.obj journal) = .ok text ∧ ∀ found, readRunJournal E isalnum folder requested = some found ↔
      text.utf8ByteSize ≤ maxJournalBytes ∧ found = sortDict journal := by
  obtain ⟨hstrip, hne, hsafe⟩ := hb.safe
  obtain ⟨text, htext, hfile⟩ := text?_written hb.run_id hstrip hwrite
  have hname : safeRunId isalnum requested = .ok runId := by
    rw [safeRunId_eq_ok, hrequested]
    exact ⟨⟨hne, hsafe⟩, rfl⟩
  have hloads : E.jsonLoads text = .ok (.obj (sortDict journal)) := by
    rw [← sortKeys_obj']
    exact jsonLoads_fileText E (hb.wellFormed_journal hrec) htext
  refine ⟨text, htext, fun found => ?_⟩
  rw [readRunJournal_eq_some]
  constructor
  · rintro ⟨safe, text', hok, hfile', hsize, hloads'⟩
    rw [hname, Except.ok.injEq] at hok
    subst hok
    rw [hfile, Option.some.injEq] at hfile'
    subst hfile'
    rw [hloads, Except.ok.injEq, Json.obj.injEq] at hloads'
    exact ⟨hsize, hloads'.symm⟩
  · rintro ⟨hsize, rfl⟩
    exact ⟨runId, text, hname, hfile, hsize, hloads⟩

/-- The events of the journal with its keys in order are those of the chain. -/
theorem stored_written (hrec : wellFormed (.obj record) = true) (hb : BuiltOf E isalnum record events journal runId chained bodies)
    {expectedRunId : Option String} {found : List (Dict F)} {bodies' : List (Body F)}
    (h : Accepted E isalnum (sortDict journal) expectedRunId found bodies') : found = chained.map sortDict := by
  have hsorted := h.stored
  rw [getKey_sorted (hb.wellFormed_journal hrec), hb.stored, sortKeys_arr, Json.arr.injEq] at hsorted
  have hobjects := congrArg objects hsorted
  rw [objects_map, List.map_map] at hobjects
  rw [← hobjects, ← objects_map (chained.map sortDict), List.map_map]
  congr 1
  exact List.map_congr_left fun event _ => sortKeys_obj' event

/-- **A replay of a journal that was built and written.** -/
theorem replay_builtOf (hrec : wellFormed (.obj record) = true) (hev : ∀ raw ∈ events, wellFormed (.obj raw) = true)
    (hb : BuiltOf E isalnum record events journal runId chained bodies)
    (hwrite : writeRunJournal E isalnum journal host = .ok (path, folder)) (hrequested : strip requested = runId)
    {site : Site} (hsite : site.Readable) :
    ∃ text r, E.fileText true (.obj journal) = .ok text ∧ replayRunJournal E isalnum folder site requested = .ok r ∧
      (r.found = true ↔ text.utf8ByteSize ≤ maxJournalBytes) ∧
      (r.eventsReleased = true ↔ text.utf8ByteSize ≤ maxJournalBytes ∧ Repeats E record events) ∧
      (r.eventsReleased = true → r.events = chained.map sortDict) := by
  obtain ⟨text, htext, hread⟩ := read_written hrec hb hwrite hrequested
  obtain ⟨r, hr⟩ := @replay_isOk F E isalnum folder site hsite requested
  have hspec := replay_spec hr
  refine ⟨text, r, htext, hr, ?_, ?_, fun hreleased => ?_⟩
  · rw [hspec.found]
    constructor
    · rintro ⟨found, hfound⟩
      exact ((hread found).mp hfound).1
    · intro hsize
      exact ⟨_, (hread _).mpr ⟨hsize, rfl⟩⟩
  · constructor
    · intro hreleased
      obtain ⟨found, bodies', ⟨hfound, haccepted⟩, -⟩ := hspec.released hreleased
      obtain ⟨hsize, rfl⟩ := (hread found).mp hfound
      rw [stored_written hrec hb haccepted, accepted_sorted (hb.wellFormed_journal hrec) hb.stored hb.made.texts
        ⟨_, hb.journalDigest⟩] at haccepted
      exact ⟨hsize, (hb.repeats hrec hev).mp haccepted.repeats⟩
    · rintro ⟨hsize, hrepeats⟩
      by_contra hno
      refine (hspec.withheld (by simpa using hno)).2 ⟨sortDict journal, chained.map sortDict, bodies,
        (hread _).mpr ⟨hsize, rfl⟩, (accepted_read hrec hev hb).mpr ⟨fun expected hexpected => ?_, hrepeats⟩⟩
      rw [Option.mem_def, Option.some.injEq] at hexpected
      rw [← hexpected, hrequested]
  · obtain ⟨found, bodies', ⟨hfound, haccepted⟩, -⟩ := hspec.released hreleased
    obtain ⟨hsize, rfl⟩ := (hread found).mp hfound
    exact stored_written hrec hb haccepted

/-- **A journal that was built and written** is found if its file is short enough, and its events are released if also
the record repeats them. -/
theorem replay_written (hrec : wellFormed (.obj record) = true) (hev : ∀ raw ∈ events, wellFormed (.obj raw) = true)
    (hbuild : buildReplayJournal E isalnum record events = .ok journal)
    (hwrite : writeRunJournal E isalnum journal host = .ok (path, folder))
    (hrequested : getKey journal "run_id" = .str (strip requested)) {site : Site} (hsite : site.Readable) :
    ∃ text chained r, E.fileText true (.obj journal) = .ok text ∧ chainReplayEvents E events = .ok chained ∧
      replayRunJournal E isalnum folder site requested = .ok r ∧
      (r.found = true ↔ text.utf8ByteSize ≤ maxJournalBytes) ∧
      (r.eventsReleased = true ↔ text.utf8ByteSize ≤ maxJournalBytes ∧ Repeats E record events) ∧
      (r.eventsReleased = true → r.events = chained.map sortDict) := by
  obtain ⟨runId, chained, bodies, hb⟩ := builtOf hrec hev hbuild
  rw [hb.run_id, Json.str.injEq] at hrequested
  obtain ⟨text, r, htext, hr, hfound, hreleased, hevents⟩ := replay_builtOf hrec hev hb hwrite hrequested.symm hsite
  exact ⟨text, chained, r, htext, hb.chain, hr, hfound, hreleased, hevents⟩

/-- The empty retrieval is built, written and replayed. -/
theorem replay_written_empty : ∃ journal folder text chained r,
    writeRunJournal platform Char.isAlphanum journal healthy.journal =
        .ok ("ai-workspace/generated/run-journal/run-1.json", folder) ∧
      platform.fileText true (.obj journal) = .ok text ∧ chainReplayEvents platform emptyEvents = .ok chained ∧
      replayRunJournal platform Char.isAlphanum folder blank " run-1" = .ok r ∧
      (r.found = true ↔ text.utf8ByteSize ≤ maxJournalBytes) ∧
      (r.eventsReleased = true ↔ text.utf8ByteSize ≤ maxJournalBytes ∧ Repeats platform emptyRecord emptyEvents) ∧
      (r.eventsReleased = true → r.events = chained.map sortDict) := by
  obtain ⟨journal, chained, bodies, folder, hb, hbuild, hwrite⟩ := written_empty
  have hstrip : strip " run-1" = "run-1" := by decide
  obtain ⟨text, chained, r, hall⟩ := replay_written wellFormed_empty.1 wellFormed_empty.2 hbuild hwrite
    (by rw [hb.run_id, hstrip]) readable_blank
  exact ⟨journal, folder, text, chained, r, hwrite, hall⟩

end Written

/-! ### The journal of a retrieval -/

/-- A value without NaN equals itself. -/
theorem pyEq_self {v : Json F} (hv : wellFormed v = true) (hp : printable E.T.toFloatText false v = true) :
    pyEq E.T v v = true := by
  rw [← pyEq_sortKeys E.T hv]
  have h := @pyEq_sortKeys_self F E.T (sortKeys v) (by rwa [wellFormed_sortKeys]) (by rwa [printable_sortKeys])
  rwa [sortKeys_sortKeys] at h

/-- The record of a retrieval says what its events say. -/
theorem repeats_gathered {blake2b : String → String} {s : Findings F} {runId : String} {changed : List String}
    {errorKinds : Dict F} {repositories : String × ℕ} {versions : Dict F}
    (hwf : wellFormed (.obj (journalRecord blake2b s runId changed errorKinds repositories versions)) = true)
    (hp : printable E.T.toFloatText false
      (.obj (journalRecord blake2b s runId changed errorKinds repositories versions)) = true) :
    Repeats E (journalRecord blake2b s runId changed errorKinds repositories versions)
      (journalEvents blake2b s errorKinds) := by
  have hsame := fun name => @pyEq_self F E _ (wellFormed_getKey hwf name) (printable_getKey hp name)
  refine ⟨fun event hevent => ?_, fun event payload hevent hpayload => ?_⟩
  · cases hevent
    exact hsame "retrieval"
  · cases hevent
    cases hpayload
    exact hsame "selected_evidence"

/-- **The journal of a retrieval** is replayed if and only if its file is short enough. -/
theorem replay_gathered {blake2b : String → String} {config : Dict F} {s : Retrieved F} {runId : String}
    {changed : List String} {errorKinds versions : Dict F} {repositories : String × ℕ} {journal : Dict F}
    {host : JournalHost} {path : String} {folder : Folder}
    (hkinds : safeErrorKinds E s.providerErrors = .ok errorKinds)
    (hversions : providerVersionsFromConfig E config = .ok versions)
    (hbuild : buildReplayJournal E isalnum
      (journalRecord blake2b s.toFindings runId changed errorKinds repositories versions)
      (journalEvents blake2b s.toFindings errorKinds) = .ok journal)
    (hwrite : writeRunJournal E isalnum journal host = .ok (path, folder)) {site : Site} (hsite : site.Readable) :
    ∃ text chained r, E.fileText true (.obj journal) = .ok text ∧
      chainReplayEvents E (journalEvents blake2b s.toFindings errorKinds) = .ok chained ∧
      replayRunJournal E isalnum folder site runId = .ok r ∧
      (r.eventsReleased = true ↔ text.utf8ByteSize ≤ maxJournalBytes) ∧
      (r.eventsReleased = true → r.events = chained.map sortDict) := by
  have hwf := (wellFormed_errorKinds s.errors hkinds).2
  have hrec := @wellFormed_journalRecord F blake2b s runId changed errorKinds versions repositories hwf
    (wellFormed_versions hversions)
  have hev := @wellFormed_journalEvents F blake2b s errorKinds hwf
  obtain ⟨safe, chained, bodies, hb⟩ := builtOf hrec hev hbuild
  have hrepeats := repeats_gathered hrec hb.recordable.numbers
  have hid : safe = strip runId := by
    obtain ⟨text, htext, hsafe⟩ := hb.named
    have hrunId : getKey (journalRecord blake2b s.toFindings runId changed errorKinds repositories versions) "run_id" =
        .str runId := rfl
    rw [hrunId, str_orEmpty, Except.ok.injEq] at htext
    rw [hsafe, htext]
  obtain ⟨text, r, htext, hr, -, hreleased, hevents⟩ := replay_builtOf hrec hev hb hwrite hid.symm hsite
  exact ⟨text, chained, r, htext, hb.chain, hr, by simpa [hrepeats] using hreleased, hevents⟩

/-- The journal of the empty retrieval is replayed. -/
theorem replay_gathered_empty : ∃ journal folder text chained r,
    writeRunJournal platform Char.isAlphanum journal healthy.journal =
        .ok ("ai-workspace/generated/run-journal/run-1.json", folder) ∧
      platform.fileText true (.obj journal) = .ok text ∧ chainReplayEvents platform emptyEvents = .ok chained ∧
      replayRunJournal platform Char.isAlphanum folder blank "run-1" = .ok r ∧
      (r.eventsReleased = true ↔ text.utf8ByteSize ≤ maxJournalBytes) ∧
      (r.eventsReleased = true → r.events = chained.map sortDict) := by
  obtain ⟨journal, chained, bodies, folder, hb, hbuild, hwrite⟩ := written_empty
  obtain ⟨text, chained, r, hall⟩ := @replay_gathered _ platform Char.isAlphanum id [] emptyHanded "run-1" ["a.py"] [] []
    ("", 1) journal healthy.journal _ folder rfl rfl hbuild hwrite blank readable_blank
  exact ⟨journal, folder, text, chained, r, hwrite, hall⟩

/-! ### What the head digest binds -/

/-- Two events are told apart by nothing that is hashed. -/
structure Agree (E : Env F) (event event' : Dict F) : Prop where
  kind : kindOf E event = kindOf E event'
  payload : sortKeys (getKey event "payload") = sortKeys (getKey event' "payload")
  previous : getKey event "previous_event_digest" = getKey event' "previous_event_digest"
  digest : E.str (orEmpty E (getKey event "event_digest")) = E.str (orEmpty E (getKey event' "event_digest"))

/-- The text that is hashed of an event. -/
def hashedText (E : Env F) (n : ℕ) (event : Dict F) : String :=
  canonicalText E.T (.obj (eventBody n ((kindOf E event).toOption.getD "") (getKey event "previous_event_digest")
    (getKey event "payload")))

/-- The texts that are hashed of events, from number `n` on. -/
def hashedTexts (E : Env F) (n : ℕ) : List (Dict F) → List String
  | [] => []
  | event :: events => hashedText E n event :: hashedTexts E (n + 1) events

/-- The text that is hashed of a link. -/
def linkText (E : Env F) (link : ℕ × Option String × Body F) : String :=
  canonicalText E.T (.obj (eventBody link.1 link.2.2.kind (previousValue link.2.1) link.2.2.payload))

theorem hashedTexts_chained : ∀ {events : List (Dict F)} {bodies : List (Body F)} {n : ℕ} {previous : Option String},
    Chained E n previous events bodies →
      hashedTexts E n events = (links (eventHash E) n previous bodies).map (linkText E)
  | [], [], _, _, _ => rfl
  | [], _ :: _, _, _, h => h.elim
  | _ :: _, [], _, _, h => h.elim
  | event :: events, body :: bodies, n, previous, h => by
    have hv := h.1
    have htext : hashedText E n event = linkText E (n, previous, body) := by
      have hkind : (kindOf E event).toOption.getD "" = body.kind := by
        rw [hv.kindOf]
        rfl
      rw [hashedText, linkText, hkind, hv.linked, hv.payload, canonicalText, canonicalText, sorted_eventBody]
    rw [hashedTexts, links, List.map_cons, htext, hashedTexts_chained h.2]

theorem wellFormed_eventBody {n : ℕ} {kind : String} {previous : Option String} {payload : Json F}
    (h : wellFormed payload = true) : wellFormed (.obj (eventBody n kind (previousValue previous) payload)) = true := by
  have hprevious : wellFormed (previousValue previous : Json F) = true := by
    rcases @previousValue_cases F previous with hnull | ⟨text, htext⟩
    · rw [hnull]
      rfl
    · rw [htext]
      rfl
  simp [eventBody, keys, h, hprevious]

/-- The text of a link tells all of it. -/
theorem linkText_injective : Function.Injective (linkText E) := by
  rintro ⟨m, p, x⟩ ⟨n, q, y⟩ h
  have hx := @wellFormed_eventBody F m x.kind p x.payload x.wellFormed
  have hy := @wellFormed_eventBody F n y.kind q y.payload y.wellFormed
  have hsame := print_injective (by rwa [wellFormed_sortKeys]) (by rwa [wellFormed_sortKeys]) (String.ofList_inj.mp h)
  rw [sortKeys_obj', sortKeys_obj', Json.obj.injEq] at hsame
  have hnodup : ∀ (k : ℕ) (kind : String) (previous payload : Json F),
      (keys (eventBody k kind previous payload)).Nodup := fun _ _ _ _ => by simp [eventBody, keys]
  have hfield : ∀ name, sortKeys (getKey (eventBody m x.kind (previousValue p) x.payload) name) =
      sortKeys (getKey (eventBody n y.kind (previousValue q) y.payload) name) := fun name => by
    rw [← getKey_sortDict (hnodup _ _ _ _), ← getKey_sortDict (hnodup _ _ _ _), hsame]
  have hsequence : (m : ℤ) = n := by
    have hname : sortKeys (.int m : Json F) = sortKeys (.int n) := hfield "sequence"
    rwa [sortKeys_int, sortKeys_int, Json.int.injEq] at hname
  have hkind : x.kind = y.kind := by
    have hname : sortKeys (.str x.kind : Json F) = sortKeys (.str y.kind) := hfield "kind"
    rwa [sortKeys_str, sortKeys_str, Json.str.injEq] at hname
  have hprevious : (previousValue p : Json F) = previousValue q := by
    have hname : sortKeys (previousValue p : Json F) = sortKeys (previousValue q) := hfield "previous_event_digest"
    rwa [sortKeys_eq_previousValue.mpr (@rfl _ (previousValue p)), eq_comm, sortKeys_eq_previousValue, eq_comm] at hname
  have hpayload : x.payload = y.payload := by
    have hname : sortKeys x.payload = sortKeys y.payload := hfield "payload"
    rwa [x.sorted, y.sorted] at hname
  rw [Nat.cast_injective hsequence, previousValue_injective hprevious, Body.ext hkind hpayload]

/-- Links with one digest have texts with one SHA-256. -/
theorem sha256_linkText {a b : ℕ × Option String × Body F}
    (h : eventHash E a.1 a.2.1 a.2.2 = eventHash E b.1 b.2.1 b.2.2) :
    E.sha256 (linkText E a) = E.sha256 (linkText E b) := by
  have hlist := congrArg String.toList h
  rw [eventHash, eventHash, digestOf, digestOf, String.toList_append, String.toList_append,
    List.append_cancel_left_eq] at hlist
  exact String.toList_inj.mp hlist

theorem agree_chained : ∀ {events events' : List (Dict F)} {bodies : List (Body F)} {n : ℕ} {previous : Option String},
    Chained E n previous events bodies → Chained E n previous events' bodies → List.Forall₂ (Agree E) events events'
  | [], [], _, _, _, _, _ => .nil
  | [], _ :: _, [], _, _, _, h' => h'.elim
  | [], _ :: _, _ :: _, _, _, h, _ => h.elim
  | _ :: _, _, [], _, _, h, _ => h.elim
  | _ :: _, [], _ :: _, _, _, _, h' => h'.elim
  | event :: events, event' :: events', body :: bodies, n, previous, h, h' => by
    obtain ⟨hv, hrest⟩ := h
    obtain ⟨hv', hrest'⟩ := h'
    refine .cons ⟨?_, ?_, ?_, ?_⟩ (agree_chained hrest hrest')
    · rw [hv.kindOf, hv'.kindOf]
    · rw [← hv.payload, ← hv'.payload]
    · rw [hv.linked, hv'.linked]
    · rw [hv.digest, hv'.digest]

theorem agree_accepted {record record' : Dict F} {id id' : Option String} {events events' : List (Dict F)}
    {bodies bodies' : List (Body F)} (ha : Accepted E isalnum record id events bodies)
    (ha' : Accepted E isalnum record' id' events' bodies')
    (hsha : ∀ s ∈ hashedTexts E 0 events, ∀ t ∈ hashedTexts E 0 events', E.sha256 s = E.sha256 t → s = t)
    (hhead : getKey record "replay_head_digest" = getKey record' "replay_head_digest") :
    List.Forall₂ (Agree E) events events' := by
  rw [ha.headDigest, ha'.headDigest] at hhead
  rw [hashedTexts_chained ha.chained, hashedTexts_chained ha'.chained] at hsha
  have hlen : bodies.length = bodies'.length := by
    rw [← length_chained ha.chained, ← length_chained ha'.chained, ha.seven, ha'.seven]
  have htold : ∀ a ∈ links (eventHash E) 0 none bodies, ∀ b ∈ links (eventHash E) 0 none bodies',
      eventHash E a.1 a.2.1 a.2.2 = eventHash E b.1 b.2.1 b.2.2 → a = b := fun a hmem b hmem' hhash =>
    linkText_injective (hsha _ (List.mem_map_of_mem hmem) _ (List.mem_map_of_mem hmem') (sha256_linkText hhash))
  have hsame := (head_injective htold hlen (previousValue_injective hhead)).2
  subst hsame
  exact agree_chained ha.chained ha'.chained

/-- Two replays with the same head digest release the same events. -/
theorem released_agree {folder folder' : Folder} {site site' : Site} {runId runId' : String} {r r' : Outcome F}
    (h : replayRunJournal E isalnum folder site runId = .ok r)
    (h' : replayRunJournal E isalnum folder' site' runId' = .ok r') (hreleased : r.eventsReleased = true)
    (hreleased' : r'.eventsReleased = true)
    (hsha : ∀ s ∈ hashedTexts E 0 r.events, ∀ t ∈ hashedTexts E 0 r'.events, E.sha256 s = E.sha256 t → s = t)
    (hhead : r.replayHeadDigest = r'.replayHeadDigest) : List.Forall₂ (Agree E) r.events r'.events := by
  obtain ⟨record, bodies, ⟨-, ha⟩, hdigest⟩ := (replay_spec h).released hreleased
  obtain ⟨record', bodies', ⟨-, ha'⟩, hdigest'⟩ := (replay_spec h').released hreleased'
  rw [hdigest, hdigest'] at hhead
  exact agree_accepted ha ha' hsha hhead

/-- **The head digest of a journal binds its events**, if no two texts that are hashed of them have one SHA-256. -/
theorem verified_agree {record record' : Dict F} (hrec : wellFormed (.obj record) = true)
    (hrec' : wellFormed (.obj record') = true) {id id' : Option String} {v v' : Integrity F}
    (h : verifyReplayJournal E isalnum record id = .ok v) (h' : verifyReplayJournal E isalnum record' id' = .ok v')
    (hvalid : v.valid = true) (hvalid' : v'.valid = true) {events events' : List (Dict F)}
    (hevents : releasedEvents record = .ok events) (hevents' : releasedEvents record' = .ok events')
    (hsha : ∀ s ∈ hashedTexts E 0 events, ∀ t ∈ hashedTexts E 0 events', E.sha256 s = E.sha256 t → s = t)
    (hhead : getKey record "replay_head_digest" = getKey record' "replay_head_digest") :
    List.Forall₂ (Agree E) events events' := by
  obtain ⟨found, bodies, ha⟩ := accepted_of_valid hrec h hvalid
  obtain ⟨found', bodies', ha'⟩ := accepted_of_valid hrec' h' hvalid'
  rw [releasedEvents_accepted ha, Except.ok.injEq] at hevents
  rw [releasedEvents_accepted ha', Except.ok.injEq] at hevents'
  subst hevents
  subst hevents'
  exact agree_accepted ha ha' hsha hhead

/-- The journal of the empty retrieval, as it is built and as it is read back. -/
theorem verified_agree_empty : ∃ chained, chainReplayEvents platform emptyEvents = .ok chained ∧
    List.Forall₂ (Agree platform) chained (chained.map sortDict) := by
  obtain ⟨journal, chained, bodies, folder, hb, -, -⟩ := written_empty
  have hwf := hb.wellFormed_journal wellFormed_empty.1
  have hwf' : wellFormed (.obj (sortDict journal)) = true := by
    rw [← sortKeys_obj', wellFormed_sortKeys]
    exact hwf
  have hrepeats := repeats_gathered wellFormed_empty.1 hb.recordable.numbers
  have ha := (@accepted_built _ _ _ _ _ _ _ _ _ wellFormed_empty.1 wellFormed_empty.2 hb none).mpr ⟨by simp, hrepeats⟩
  have ha' := (@accepted_read _ _ _ _ _ _ _ _ _ wellFormed_empty.1 wellFormed_empty.2 hb none).mpr ⟨by simp, hrepeats⟩
  obtain ⟨v, hv, hvalid⟩ := valid_of_accepted hwf ha
  obtain ⟨v', hv', hvalid'⟩ := valid_of_accepted hwf' ha'
  have hhead : getKey journal "replay_head_digest" = getKey (sortDict journal) "replay_head_digest" := by
    rw [ha.headDigest, ha'.headDigest]
  exact ⟨chained, hb.chain, verified_agree hwf hwf' hv hv' hvalid hvalid' (releasedEvents_accepted ha)
    (releasedEvents_accepted ha') (fun s _ t _ hsame => digest_injective hsame) hhead⟩

end ControlPlane.Journal.Replay
