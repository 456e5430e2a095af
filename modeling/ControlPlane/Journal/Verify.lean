import ControlPlane.Journal.Build
import ControlPlane.Deployment.Manifest
import ControlPlane.Lib.HashChain

/-! # Verifying a run journal

`verifyReplayJournal` checks a record that may hold anything: its fields, its chain of events, that the events agree
with the fields, and the digest of the whole. `verify_valid_iff`: the record is accepted if and only if it is
`Accepted`; the events are then the seven kinds in their order, `Chained` by the digests of what is hashed of them. -/

namespace ControlPlane.Journal.Verify

open ControlPlane.Lib.Value ControlPlane.Lib.Print ControlPlane.Lib.Text ControlPlane.Lib.RoundTrip
open ControlPlane.Lib.Dumps ControlPlane.Lib.Dynamic ControlPlane.Environment ControlPlane.Journal.Build
open ControlPlane.Lib.HashChain
open ControlPlane.Deployment.Manifest (flag flag_eq_nil)

variable {F : Type} (E : Env F) (isalnum : Char → Bool)

/-- The report of a verification. -/
structure Integrity (F : Type) where
  errors : List String
  eventCount : ℕ
  headDigest : Json F
  journalDigest : Json F

def Integrity.valid (r : Integrity F) : Bool := r.errors.isEmpty

/-! ### Fields -/

def recordedRunId (record : Dict F) : String :=
  match getKey record "run_id" with
  | .str text => match safeRunId isalnum text with
    | .ok runId => runId
    | .error _ => ""
  | _ => ""

def runIdErrors (record : Dict F) (expectedRunId : Option String) : List String :=
  let recorded := recordedRunId isalnum record
  flag (recorded == "") "run_id_invalid" ++ match expectedRunId with
    | none => []
    | some expected => match safeRunId isalnum expected with
      | .ok requested => flag (recorded != requested) "run_id_mismatch"
      | .error _ => "expected_run_id_invalid" :: flag (recorded != "") "run_id_mismatch"

def changedErrors (record : Dict F) : List String :=
  match validatedChangedFiles record with
  | .ok _ => []
  | .error _ => ["changed_files_invalid"]

/-- The errors that are found before the events. -/
def fieldErrors (record : Dict F) (expectedRunId : Option String) : List String :=
  flag (differs E record "schema_version" replaySchemaVersion) "schema_version_mismatch" ++
    flag (differs E record "replay_mode" replayMode) "replay_mode_mismatch" ++
    runIdErrors isalnum record expectedRunId ++
    requiredMappings.flatMap (fun key => flag (!isObj (getKey record key)) (key ++ "_invalid")) ++
    flag (!isArr (getKey record "selected_evidence")) "selected_evidence_invalid" ++ changedErrors record

/-! ### Events -/

def eventError (sequence : ℕ) (problem : String) : String := "event_" ++ toString sequence ++ "_" ++ problem

/-- An event that has a kind and a payload. -/
structure Link (F : Type) where
  kind : String
  payload : Json F
  digest : String

/-- The digest of a value; none, if it has no canonical text. -/
def digest? (v : Json F) : Option String :=
  match sha256 E v with
  | .ok digest => some digest
  | .error _ => none

/-- The errors of an event, after an event with the digest `previous`. -/
def verifyEvent (sequence : ℕ) (previous : Json F) : Json F → Py (List String × Option (Link F))
  | .obj event => do
    let kind ← kindOf E event
    let errors := flag (!pyEq E.T (getKey event "sequence") (.int sequence)) (eventError sequence "sequence_mismatch") ++
      flag (expectedReplayEventKinds[sequence]?.any (· != kind)) (eventError sequence "kind_mismatch")
    if kind == "" || !isObj (getKey event "payload") then
      return (errors ++ [eventError sequence "shape_invalid"], none)
    let stored := getKey event "previous_event_digest"
    let expected := digest? E (.obj (eventBody sequence kind stored (getKey event "payload")))
    let supplied ← E.str (orEmpty E (getKey event "event_digest"))
    return (errors ++ flag (!pyEq E.T stored previous) (eventError sequence "previous_digest_mismatch") ++
      flag expected.isNone (eventError sequence "digest_unverifiable") ++
      flag (supplied != expected.getD "") (eventError sequence "digest_mismatch"),
      some ⟨kind, getKey event "payload", supplied⟩)
  | _ => .ok ([eventError sequence "invalid"], none)

/-- What has been found so far. -/
structure Progress (F : Type) where
  errors : List String
  previous : Json F
  eventPayloads : Dict F

def Progress.add (p : Progress F) (errors : List String) : Option (Link F) → Progress F
  | some link => ⟨p.errors ++ errors, .str link.digest, setKey link.kind link.payload p.eventPayloads⟩
  | none => { p with errors := p.errors ++ errors }

/-- The events from number `sequence` on. -/
def verifyFrom (sequence : ℕ) (p : Progress F) : List (Json F) → Py (Progress F)
  | [] => .ok p
  | raw :: events => do
    let (errors, link) ← verifyEvent E sequence p.previous raw
    verifyFrom (sequence + 1) (p.add errors link) events

/-! ### The record -/

def retrievalErrors (record eventPayloads : Dict F) : List String :=
  let payload := getKey eventPayloads "retrieval"
  let recorded := getKey record "retrieval"
  flag (isObj payload && isObj recorded && !pyEq E.T payload recorded) "retrieval_snapshot_mismatch"

def selectionErrors (record eventPayloads : Dict F) : List String :=
  match getKey eventPayloads "selection" with
  | .obj payload => flag (!pyEq E.T (getKey payload "selected_evidence") (getKey record "selected_evidence"))
      "selection_snapshot_mismatch"
  | _ => []

/-- The digest that the record should have; none, if it has no canonical text. -/
def expectedDigest (record : Dict F) : Option String :=
  match journalDigest E record with
  | .ok digest => some digest
  | .error _ => none

def verifyReplayJournal (record : Dict F) (expectedRunId : Option String) : Py (Integrity F) :=
  let errors := fieldErrors E isalnum record expectedRunId
  match getKey record "replay_events" with
  | .arr events => do
    let p ← verifyFrom E 0 ⟨errors ++ flag (events.length != expectedReplayEventKinds.length)
      "event_contract_count_mismatch", .null, []⟩ events
    let supplied ← E.str (orEmpty E (getKey record "journal_digest"))
    return {
      errors := p.errors ++
        flag (!pyEq E.T (getKey record "replay_event_count") (.int events.length)) "event_count_mismatch" ++
        flag (!pyEq E.T (getKey record "replay_head_digest") p.previous) "head_digest_mismatch" ++
        retrievalErrors E record p.eventPayloads ++ selectionErrors E record p.eventPayloads ++
        flag (expectedDigest E record).isNone "journal_digest_unverifiable" ++
        flag (supplied != (expectedDigest E record).getD "") "journal_digest_mismatch"
      eventCount := events.length
      headDigest := p.previous
      journalDigest := if supplied = "" then .null else .str supplied }
  | _ => .ok ⟨errors ++ ["replay_events_missing"], 0, .null, getKey record "journal_digest"⟩

/-! ### What is hashed of an event -/

/-- What is hashed of an event besides its number and the digest before it. -/
@[ext] structure Body (F : Type) where
  kind : String
  payload : Json F
  sorted : sortKeys payload = payload
  wellFormed : wellFormed payload = true

/-- What is hashed of a payload. -/
def bodyOf (kind : String) (payload : Json F) (h : wellFormed payload = true) : Body F :=
  ⟨kind, sortKeys payload, sortKeys_sortKeys payload, by rwa [wellFormed_sortKeys]⟩

/-- The digest before an event as a record has it. -/
def previousValue (previous : Option String) : Json F := (previous.map Json.str).getD .null

/-- The digest of an event. -/
def eventHash (n : ℕ) (previous : Option String) (body : Body F) : String :=
  digestOf E (.obj (eventBody n body.kind (previousValue previous) body.payload))

/-- An event that is accepted after the digest `previous`. -/
structure Verified (n : ℕ) (previous : Option String) (event : Dict F) (body : Body F) : Prop where
  sequence : pyEq E.T (getKey event "sequence") (.int n) = true
  kindOf : kindOf E event = .ok body.kind
  kind_ne : body.kind ≠ ""
  kind_fits : ∀ kind, expectedReplayEventKinds[n]? = some kind → body.kind = kind
  object : isObj (getKey event "payload") = true
  payload : body.payload = sortKeys (getKey event "payload")
  linked : getKey event "previous_event_digest" = previousValue previous
  numbers : printable E.T.toFloatText false (getKey event "payload") = true
  digest : E.str (orEmpty E (getKey event "event_digest")) = .ok (eventHash E n previous body)

/-- Events that are accepted one after another. -/
def Chained (n : ℕ) (previous : Option String) : List (Dict F) → List (Body F) → Prop
  | [], [] => True
  | event :: events, body :: bodies => Verified E n previous event body ∧
      Chained (n + 1) (some (eventHash E n previous body)) events bodies
  | _, _ => False

/-- The payloads of events by their kinds. -/
def payloadsOf (eventPayloads : Dict F) : List (Dict F) → List (Body F) → Dict F
  | event :: events, body :: bodies => payloadsOf (setKey body.kind (getKey event "payload") eventPayloads) events bodies
  | _, _ => eventPayloads

variable {E} {isalnum}

theorem previousValue_cases (previous : Option String) :
    (previousValue previous : Json F) = .null ∨ ∃ s, (previousValue previous : Json F) = .str s := by
  cases previous with
  | none => exact Or.inl rfl
  | some s => exact Or.inr ⟨s, rfl⟩

theorem pyEq_previousValue (v : Json F) (previous : Option String) :
    pyEq E.T v (previousValue previous) = true ↔ v = previousValue previous := by
  rcases @previousValue_cases F previous with h | ⟨s, h⟩
  · rw [h]
    cases v <;> simp [pyEq, numOf]
  · rw [h, pyEq_str_right]

theorem printable_previousValue (previous : Option String) :
    printable E.T.toFloatText false (previousValue previous) = true := by
  rcases @previousValue_cases F previous with h | ⟨s, h⟩ <;> rw [h] <;> rfl

theorem previousValue_injective {p q : Option String} (h : (previousValue p : Json F) = previousValue q) : p = q := by
  cases p <;> cases q <;> simp_all [previousValue]

theorem isObj_eq_true {v : Json F} : isObj v = true ↔ ∃ d, v = .obj d := by
  cases v <;> simp [isObj]

/-- The order of the keys of a payload is not hashed. -/
theorem sorted_eventBody (n : ℕ) (kind : String) (previous payload : Json F) :
    sortKeys (.obj (eventBody n kind previous (sortKeys payload))) = sortKeys (.obj (eventBody n kind previous payload)) := by
  rw [sortKeys_obj, sortKeys_obj]
  simp only [eventBody, List.map_cons, List.map_nil, sortKeys_sortKeys]

theorem digestOf_sorted (n : ℕ) (kind : String) (previous payload : Json F) :
    digestOf E (.obj (eventBody n kind previous (sortKeys payload))) =
      digestOf E (.obj (eventBody n kind previous payload)) := by
  unfold digestOf canonicalText
  rw [sorted_eventBody]

theorem printable_body {n : ℕ} {kind : String} {previous payload : Json F} :
    printable E.T.toFloatText false (.obj (eventBody n kind previous payload)) = true ↔
      printable E.T.toFloatText false (.int (n : ℤ)) = true ∧ printable E.T.toFloatText false previous = true ∧
        printable E.T.toFloatText false payload = true := by
  rw [printable_obj]
  simp only [eventBody, List.forall_mem_cons, List.not_mem_nil, false_implies, implies_true, and_true]
  constructor
  · rintro ⟨hn, -, hprevious, hpayload⟩
    exact ⟨hn, hprevious, hpayload⟩
  · rintro ⟨hn, hprevious, hpayload⟩
    exact ⟨hn, rfl, hprevious, hpayload⟩

theorem digest?_eq_some {v : Json F} {digest : String} : digest? E v = some digest ↔
    printable E.T.toFloatText false v = true ∧ digest = digestOf E v := by
  unfold digest?
  cases h : sha256 E v with
  | ok text =>
    obtain ⟨hv, rfl⟩ := sha256_eq_ok.mp h
    simp [hv, eq_comm]
  | error e =>
    constructor
    · intro hnone
      cases hnone
    · intro hok
      rw [sha256_eq_ok.mpr hok] at h
      cases h

/-- No digest is the empty text. -/
theorem digestOf_ne (v : Json F) : digestOf E v ≠ "" := by
  intro h
  have hlist := congrArg String.toList h
  rw [digestOf, String.toList_append] at hlist
  cases hlist

/-- **An event without errors.** -/
theorem verifyEvent_clean {n : ℕ} (hn : n < 10 ^ 9) {previous : Option String} {raw : Json F} (hraw : wellFormed raw = true)
    {link : Option (Link F)} : verifyEvent E n (previousValue previous) raw = .ok ([], link) ↔
      ∃ event body, raw = .obj event ∧ Verified E n previous event body ∧
        link = some ⟨body.kind, getKey event "payload", eventHash E n previous body⟩ := by
  have hint : printable E.T.toFloatText false (.int (n : ℤ)) = true := printable_small false (by simpa using hn)
  cases raw with
  | obj event =>
    have hpayload := wellFormed_getKey hraw "payload"
    rw [verifyEvent, bind_eq_ok]
    constructor
    · rintro ⟨kind, hkind, h⟩
      dsimp only at h
      by_cases hshape : (kind == "" || !isObj (getKey event "payload")) = true
      · rw [if_pos hshape] at h
        have herrors := (Prod.mk.inj (Except.ok.inj h)).1
        rw [List.append_eq_nil_iff] at herrors
        cases herrors.2
      · rw [if_neg hshape] at h
        obtain ⟨supplied, hsupplied, h⟩ := bind_eq_ok.mp h
        obtain ⟨herrors, hlink⟩ := Prod.mk.inj (Except.ok.inj h)
        simp only [List.append_eq_nil_iff, flag_eq_nil, Bool.not_eq_false', pyEq_previousValue] at herrors
        obtain ⟨⟨⟨⟨hsequence, hfits⟩, hlinked⟩, hsome⟩, hdigest⟩ := herrors
        rw [Bool.or_eq_true, not_or, Bool.not_eq_true', Bool.not_eq_false, beq_iff_eq] at hshape
        obtain ⟨digest, hdigest?⟩ := Option.isSome_iff_exists.mp (by simpa using hsome)
        obtain ⟨hprint, rfl⟩ := digest?_eq_some.mp hdigest?
        rw [hdigest?, Option.getD_some, bne_eq_false_iff_eq] at hdigest
        rw [hlinked] at hprint hdigest
        have hhash : supplied = eventHash E n previous (bodyOf kind (getKey event "payload") hpayload) := by
          rw [hdigest]
          exact (digestOf_sorted n kind _ _).symm
        refine ⟨event, bodyOf kind (getKey event "payload") hpayload, rfl, ?_, ?_⟩
        · refine ⟨hsequence, hkind, hshape.1, fun name hname => ?_, hshape.2, rfl, hlinked,
            (printable_body.mp hprint).2.2, by rw [hsupplied, hhash]⟩
          rw [hname] at hfits
          have hkinds : name = kind := by simpa using hfits
          exact hkinds.symm
        · rw [← hlink, hhash]
          rfl
    · rintro ⟨event', body, hevent, hv, rfl⟩
      cases hevent
      have hnone : expectedReplayEventKinds[n]?.any (· != body.kind) = false := by
        cases hname : expectedReplayEventKinds[n]? with
        | none => rfl
        | some name => simp [hv.kind_fits name hname]
      have hbody : printable E.T.toFloatText false (.obj (eventBody n body.kind
          (getKey event "previous_event_digest") (getKey event "payload"))) = true := by
        rw [hv.linked]
        exact printable_body.mpr ⟨hint, printable_previousValue previous, hv.numbers⟩
      have hdigest : digest? E (.obj (eventBody n body.kind (getKey event "previous_event_digest")
          (getKey event "payload"))) = some (eventHash E n previous body) := by
        rw [digest?_eq_some, eventHash, hv.payload, digestOf_sorted, hv.linked]
        rw [hv.linked] at hbody
        exact ⟨hbody, rfl⟩
      have hshape : ¬ (body.kind == "" || !isObj (getKey event "payload")) = true := by
        simp [hv.kind_ne, hv.object]
      refine ⟨body.kind, hv.kindOf, ?_⟩
      dsimp only
      rw [if_neg hshape, bind_eq_ok]
      refine ⟨_, hv.digest, ?_⟩
      rw [hdigest, hv.sequence, hnone, (pyEq_previousValue _ _).mpr hv.linked]
      simp [flag, pure, Except.pure]
  | _ =>
    constructor
    · intro h
      cases h
    · rintro ⟨event, body, hevent, -⟩
      cases hevent

/-! ### The chain -/

theorem errors_add (p : Progress F) (errors : List String) (link : Option (Link F)) :
    (p.add errors link).errors = p.errors ++ errors := by
  cases link <;> rfl

/-- No error is taken back. -/
theorem errors_verifyFrom : ∀ {raws : List (Json F)} {n : ℕ} {p q : Progress F},
    verifyFrom E n p raws = .ok q → q.errors = [] → p.errors = []
  | [], n, p, q, h, hq => by
    rw [verifyFrom, Except.ok.injEq] at h
    rwa [h]
  | raw :: raws, n, p, q, h, hq => by
    rw [verifyFrom] at h
    obtain ⟨⟨errors, link⟩, -, h⟩ := bind_eq_ok.mp h
    have hadded := errors_verifyFrom h hq
    rw [errors_add] at hadded
    exact (List.append_eq_nil_iff.mp hadded).1

/-- **Events without errors are chained.** -/
theorem verifyFrom_clean : ∀ {raws : List (Json F)} {n : ℕ} {previous : Option String} {payloads : Dict F}
    {q : Progress F}, n + raws.length < 10 ^ 9 → (∀ raw ∈ raws, wellFormed raw = true) →
    ((verifyFrom E n ⟨[], previousValue previous, payloads⟩ raws = .ok q ∧ q.errors = []) ↔
      ∃ events bodies, raws = events.map .obj ∧ Chained E n previous events bodies ∧
        q = ⟨[], previousValue (head (eventHash E) n previous bodies), payloadsOf payloads events bodies⟩)
  | [], n, previous, payloads, q, hlen, hwf => by
    rw [verifyFrom, Except.ok.injEq]
    constructor
    · rintro ⟨rfl, -⟩
      exact ⟨[], [], rfl, trivial, rfl⟩
    · rintro ⟨events, bodies, hevents, hchained, rfl⟩
      have hnil : events = [] := List.map_eq_nil_iff.mp hevents.symm
      subst hnil
      cases bodies with
      | nil => exact ⟨rfl, rfl⟩
      | cons body bodies => exact hchained.elim
  | raw :: raws, n, previous, payloads, q, hlen, hwf => by
    rw [List.length_cons] at hlen
    rw [List.forall_mem_cons] at hwf
    rw [verifyFrom, bind_eq_ok]
    constructor
    · rintro ⟨⟨⟨errors, link⟩, hevent, h⟩, hq⟩
      have hnone : errors = [] := by
        have hadded := errors_verifyFrom h hq
        rw [errors_add] at hadded
        exact (List.append_eq_nil_iff.mp hadded).2
      subst hnone
      obtain ⟨event, body, rfl, hv, rfl⟩ := (verifyEvent_clean (by omega) hwf.1).mp hevent
      obtain ⟨events, bodies, rfl, hchained, rfl⟩ :=
        (@verifyFrom_clean raws (n + 1) (some (eventHash E n previous body)) _ q (by omega) hwf.2).mp ⟨h, hq⟩
      exact ⟨event :: events, body :: bodies, rfl, ⟨hv, hchained⟩, rfl⟩
    · rintro ⟨events, bodies, hevents, hchained, hq⟩
      cases events with
      | nil => cases hevents
      | cons event events =>
        cases bodies with
        | nil => exact hchained.elim
        | cons body bodies =>
          rw [List.map_cons, List.cons.injEq] at hevents
          obtain ⟨rfl, hrest⟩ := hevents
          have hclean := (verifyEvent_clean (by omega) hwf.1).mpr ⟨event, body, rfl, hchained.1, rfl⟩
          obtain ⟨h, herrors⟩ := (@verifyFrom_clean raws (n + 1) (some (eventHash E n previous body))
            (setKey body.kind (getKey event "payload") payloads) q (by omega) hwf.2).mpr
              ⟨events, bodies, hrest, hchained.2, hq⟩
          exact ⟨⟨_, hclean, h⟩, herrors⟩

theorem length_chained : ∀ {events : List (Dict F)} {bodies : List (Body F)} {n : ℕ} {previous : Option String},
    Chained E n previous events bodies → events.length = bodies.length
  | [], [], _, _, _ => rfl
  | [], _ :: _, _, _, h => h.elim
  | _ :: _, [], _, _, h => h.elim
  | event :: events, body :: bodies, _, _, h => by rw [List.length_cons, List.length_cons, length_chained h.2]

/-- The kinds of a chain are the expected ones, as far as these go. -/
theorem kind_chained : ∀ {events : List (Dict F)} {bodies : List (Body F)} {n : ℕ} {previous : Option String},
    Chained E n previous events bodies → ∀ (i : ℕ) body kind, bodies[i]? = some body →
      expectedReplayEventKinds[n + i]? = some kind → body.kind = kind
  | [], [], _, _, _, i, body, kind, hbody, _ => by
    rw [List.getElem?_nil] at hbody
    cases hbody
  | [], _ :: _, _, _, h, _, _, _, _, _ => h.elim
  | _ :: _, [], _, _, h, _, _, _, _, _ => h.elim
  | event :: events, first :: bodies, n, previous, h, i, body, kind, hbody, hkind => by
    by_cases hi : i = 0
    · subst hi
      rw [List.getElem?_cons_zero, Option.some.injEq] at hbody
      exact hbody ▸ h.1.kind_fits kind hkind
    · obtain ⟨j, rfl⟩ := Nat.exists_eq_succ_of_ne_zero hi
      rw [List.getElem?_cons_succ] at hbody
      have hplace : n + 1 + j = n + (j + 1) := by omega
      exact kind_chained h.2 j body kind hbody (hplace ▸ hkind)

/-- Seven accepted events have the seven kinds. -/
theorem kinds_chained {events : List (Dict F)} {bodies : List (Body F)} (h : Chained E 0 none events bodies)
    (hlen : events.length = expectedReplayEventKinds.length) : bodies.map Body.kind = expectedReplayEventKinds := by
  have hbodies := (length_chained h).symm.trans hlen
  refine List.ext_getElem? fun i => ?_
  rw [List.getElem?_map]
  by_cases hi : i < bodies.length
  · have hi' : i < expectedReplayEventKinds.length := by omega
    have hkind := kind_chained h i bodies[i] expectedReplayEventKinds[i] (List.getElem?_eq_getElem hi)
      (by rw [Nat.zero_add, List.getElem?_eq_getElem hi'])
    rw [List.getElem?_eq_getElem hi, List.getElem?_eq_getElem hi', Option.map_some, hkind]
  · rw [List.getElem?_eq_none (by omega), List.getElem?_eq_none (by omega)]
    rfl

/-! ### The payloads -/

theorem lookup_payloadsOf_ne {kind : String} : ∀ {events : List (Dict F)} {bodies : List (Body F)} {payloads : Dict F},
    kind ∉ bodies.map Body.kind → lookup kind (payloadsOf payloads events bodies) = lookup kind payloads
  | [], _, _, _ => by simp [payloadsOf]
  | _ :: _, [], _, _ => by simp [payloadsOf]
  | event :: events, body :: bodies, payloads, h => by
    rw [List.map_cons, List.mem_cons, not_or] at h
    rw [payloadsOf, lookup_payloadsOf_ne h.2, lookup_setKey_ne (Ne.symm h.1)]

/-- Of events of different kinds every payload is kept. -/
theorem getKey_payloadsOf : ∀ {events : List (Dict F)} {bodies : List (Body F)} {payloads : Dict F} {i : ℕ}
    {event : Dict F} {body : Body F}, (bodies.map Body.kind).Nodup → events[i]? = some event → bodies[i]? = some body →
      getKey (payloadsOf payloads events bodies) body.kind = getKey event "payload"
  | [], _, _, _, _, _, _, hevent, _ => by
    rw [List.getElem?_nil] at hevent
    cases hevent
  | _ :: _, [], _, _, _, _, _, _, hbody => by
    rw [List.getElem?_nil] at hbody
    cases hbody
  | first :: events, head :: bodies, payloads, i, event, body, hnodup, hevent, hbody => by
    rw [List.map_cons, List.nodup_cons] at hnodup
    rw [payloadsOf]
    by_cases hi : i = 0
    · subst hi
      rw [List.getElem?_cons_zero, Option.some.injEq] at hevent hbody
      subst hevent
      subst hbody
      rw [getKey, lookup_payloadsOf_ne hnodup.1, lookup_setKey_self]
      rfl
    · obtain ⟨j, rfl⟩ := Nat.exists_eq_succ_of_ne_zero hi
      rw [List.getElem?_cons_succ] at hevent hbody
      exact getKey_payloadsOf hnodup.2 hevent hbody

/-- The payload of the event of a kind. -/
theorem getKey_payloadsOf_kind {events : List (Dict F)} {bodies : List (Body F)} (h : Chained E 0 none events bodies)
    (hlen : events.length = expectedReplayEventKinds.length) {i : ℕ} {kind : String} {event : Dict F}
    (hkind : expectedReplayEventKinds[i]? = some kind) (hevent : events[i]? = some event) :
    getKey (payloadsOf [] events bodies) kind = getKey event "payload" := by
  have hkinds := kinds_chained h hlen
  have hnodup : (bodies.map Body.kind).Nodup := by
    rw [hkinds]
    decide
  have hi : i < bodies.length := by
    rw [← length_chained h]
    exact (List.getElem?_eq_some_iff.mp hevent).1
  have hname : bodies[i].kind = kind := by
    have hmap := hkind
    rw [← hkinds, List.getElem?_map, List.getElem?_eq_getElem hi, Option.map_some, Option.some.injEq] at hmap
    exact hmap
  rw [← hname]
  exact getKey_payloadsOf hnodup hevent (List.getElem?_eq_getElem hi)

/-- The payload of an accepted event is an object. -/
theorem object_chained : ∀ {events : List (Dict F)} {bodies : List (Body F)} {n : ℕ} {previous : Option String},
    Chained E n previous events bodies → ∀ event ∈ events, isObj (getKey event "payload") = true
  | [], _, _, _, _, _, hmem => absurd hmem List.not_mem_nil
  | _ :: _, [], _, _, h, _, _ => h.elim
  | first :: events, body :: bodies, _, _, h, event, hmem => by
    rcases List.mem_cons.mp hmem with rfl | hmem
    · exact h.1.object
    · exact object_chained h.2 event hmem

/-! ### Accepted records -/

/-- The record says what the events of the retrieval and of the selection say. -/
structure Repeats (E : Env F) (record : Dict F) (events : List (Dict F)) : Prop where
  retrieval : ∀ event, events[2]? = some event →
    pyEq E.T (getKey event "payload") (getKey record "retrieval") = true
  selection : ∀ event payload, events[4]? = some event → getKey event "payload" = .obj payload →
    pyEq E.T (getKey payload "selected_evidence") (getKey record "selected_evidence") = true

/-- A record that is accepted, with its events and what is hashed of them. -/
structure Accepted (E : Env F) (isalnum : Char → Bool) (record : Dict F) (expectedRunId : Option String)
    (events : List (Dict F)) (bodies : List (Body F)) : Prop where
  schema : getKey record "schema_version" = .str replaySchemaVersion
  mode : getKey record "replay_mode" = .str replayMode
  runId : ∃ text, getKey record "run_id" = .str text ∧ strip text ≠ "" ∧
    safeChars isalnum (strip text) = strip text ∧ ∀ expected ∈ expectedRunId, strip expected = strip text
  mappings : ∀ name ∈ requiredMappings, isObj (getKey record name) = true
  evidence : isArr (getKey record "selected_evidence") = true
  changed : ValidPaths (getKey record "changed_files")
  stored : getKey record "replay_events" = .arr (events.map .obj)
  seven : events.length = expectedReplayEventKinds.length
  chained : Chained E 0 none events bodies
  count : pyEq E.T (getKey record "replay_event_count") (.int expectedReplayEventKinds.length) = true
  headDigest : getKey record "replay_head_digest" = previousValue (head (eventHash E) 0 none bodies)
  repeats : Repeats E record events
  numbers : printable E.T.toFloatText false (.obj (eraseKey "journal_digest" record)) = true
  digest : E.str (orEmpty E (getKey record "journal_digest")) =
    .ok (digestOf E (.obj (eraseKey "journal_digest" record)))

/-- A run id that is found in a record. -/
theorem recordedRunId_ne {record : Dict F} : recordedRunId isalnum record ≠ "" ↔
    ∃ text, getKey record "run_id" = .str text ∧ strip text ≠ "" ∧ safeChars isalnum (strip text) = strip text ∧
      recordedRunId isalnum record = strip text := by
  unfold recordedRunId
  cases hget : getKey record "run_id" with
  | str text =>
    dsimp only
    cases hsafe : safeRunId isalnum text with
    | ok runId =>
      obtain ⟨⟨hne, hchars⟩, rfl⟩ := safeRunId_eq_ok.mp hsafe
      simp [hne, hchars]
    | error e =>
      have hnot : ¬ (strip text ≠ "" ∧ safeChars isalnum (strip text) = strip text) := by
        intro hok
        rw [safeRunId_eq_ok.mpr ⟨hok, rfl⟩] at hsafe
        cases hsafe
      constructor
      · intro h
        exact absurd rfl h
      · rintro ⟨text', htext, hne, hchars, -⟩
        rw [Json.str.injEq] at htext
        subst htext
        exact absurd ⟨hne, hchars⟩ hnot
  | _ => simp

theorem runIdErrors_eq_nil {record : Dict F} {expectedRunId : Option String} :
    runIdErrors isalnum record expectedRunId = [] ↔ ∃ text, getKey record "run_id" = .str text ∧ strip text ≠ "" ∧
      safeChars isalnum (strip text) = strip text ∧ ∀ expected ∈ expectedRunId, strip expected = strip text := by
  unfold runIdErrors
  rw [List.append_eq_nil_iff, flag_eq_nil, beq_eq_false_iff_ne, recordedRunId_ne]
  constructor
  · rintro ⟨⟨text, hget, hne, hchars, hrecorded⟩, hexpected⟩
    refine ⟨text, hget, hne, hchars, fun expected hsome => ?_⟩
    rw [Option.mem_def] at hsome
    subst hsome
    dsimp only at hexpected
    cases hsafe : safeRunId isalnum expected with
    | ok requested =>
      rw [hsafe] at hexpected
      obtain ⟨-, rfl⟩ := safeRunId_eq_ok.mp hsafe
      have hsame : recordedRunId isalnum record = strip expected := by simpa using hexpected
      rw [← hsame, hrecorded]
    | error e =>
      rw [hsafe] at hexpected
      cases hexpected
  · rintro ⟨text, hget, hne, hchars, hexpected⟩
    have hrecorded : recordedRunId isalnum record = strip text := by
      rw [recordedRunId, hget]
      dsimp only
      rw [safeRunId_eq_ok.mpr ⟨⟨hne, hchars⟩, rfl⟩]
    refine ⟨⟨text, hget, hne, hchars, hrecorded⟩, ?_⟩
    cases expectedRunId with
    | none => rfl
    | some expected =>
      have hsame := hexpected expected rfl
      have hsafe : safeRunId isalnum expected = .ok (strip expected) := by
        rw [safeRunId_eq_ok, hsame]
        exact ⟨⟨hne, hchars⟩, rfl⟩
      dsimp only
      rw [hsafe, hrecorded]
      simp [hsame]

theorem changedErrors_eq_nil {record : Dict F} :
    changedErrors record = [] ↔ ValidPaths (getKey record "changed_files") := by
  rw [← validatedChangedFiles_isOk, changedErrors]
  cases validatedChangedFiles record <;> simp

theorem fieldErrors_eq_nil {record : Dict F} {expectedRunId : Option String} :
    fieldErrors E isalnum record expectedRunId = [] ↔
      getKey record "schema_version" = .str replaySchemaVersion ∧ getKey record "replay_mode" = .str replayMode ∧
      (∃ text, getKey record "run_id" = .str text ∧ strip text ≠ "" ∧ safeChars isalnum (strip text) = strip text ∧
        ∀ expected ∈ expectedRunId, strip expected = strip text) ∧
      (∀ name ∈ requiredMappings, isObj (getKey record name) = true) ∧
      isArr (getKey record "selected_evidence") = true ∧ ValidPaths (getKey record "changed_files") := by
  unfold fieldErrors
  simp only [List.append_eq_nil_iff, flag_eq_nil, differs_eq_false, runIdErrors_eq_nil, changedErrors_eq_nil,
    List.flatMap_eq_nil_iff, Bool.not_eq_false', and_assoc]

theorem expectedDigest_eq_some {record : Dict F} {digest : String} : expectedDigest E record = some digest ↔
    printable E.T.toFloatText false (.obj (eraseKey "journal_digest" record)) = true ∧
      digest = digestOf E (.obj (eraseKey "journal_digest" record)) := digest?_eq_some

/-- The checks after the events. -/
theorem closing_iff {record : Dict F} {events : List (Dict F)} {bodies : List (Body F)}
    (hchained : Chained E 0 none events bodies) (hlen : events.length = expectedReplayEventKinds.length)
    (hretrieval : isObj (getKey record "retrieval") = true) :
    retrievalErrors E record (payloadsOf [] events bodies) = [] ∧
        selectionErrors E record (payloadsOf [] events bodies) = [] ↔ Repeats E record events := by
  have hseven : events.length = 7 := hlen
  have htwo : events[2]? = some events[2] := List.getElem?_eq_getElem (by omega)
  have hfour : events[4]? = some events[4] := List.getElem?_eq_getElem (by omega)
  have hsecond : getKey (payloadsOf [] events bodies) "retrieval" = getKey events[2] "payload" :=
    getKey_payloadsOf_kind hchained hlen rfl htwo
  have hfourth : getKey (payloadsOf [] events bodies) "selection" = getKey events[4] "payload" :=
    getKey_payloadsOf_kind hchained hlen rfl hfour
  have hobject := object_chained hchained events[2] (List.getElem_mem _)
  obtain ⟨payload, hpayload⟩ := isObj_eq_true.mp (object_chained hchained events[4] (List.getElem_mem _))
  rw [retrievalErrors, selectionErrors, hsecond, hfourth, hpayload, hobject, hretrieval]
  dsimp only
  rw [flag_eq_nil, flag_eq_nil]
  constructor
  · rintro ⟨h2, h4⟩
    refine ⟨fun event hevent => ?_, fun event payload' hevent hpayload' => ?_⟩
    · rw [htwo, Option.some.injEq] at hevent
      subst hevent
      simpa using h2
    · rw [hfour, Option.some.injEq] at hevent
      subst hevent
      rw [hpayload, Json.obj.injEq] at hpayload'
      subst hpayload'
      simpa using h4
  · rintro ⟨h2, h4⟩
    rw [h2 _ htwo, h4 _ payload hfour hpayload]
    exact ⟨rfl, rfl⟩

theorem wellFormed_events {record : Dict F} (hrec : wellFormed (.obj record) = true) {raws : List (Json F)}
    (hraws : getKey record "replay_events" = .arr raws) : ∀ raw ∈ raws, wellFormed raw = true := by
  have hwf := wellFormed_getKey hrec "replay_events"
  rwa [hraws, wellFormed_arr] at hwf

/-- What is found of a record without errors. -/
theorem accepted_of_valid {record : Dict F} (hrec : wellFormed (.obj record) = true) {expectedRunId : Option String}
    {r : Integrity F} (h : verifyReplayJournal E isalnum record expectedRunId = .ok r) (hvalid : r.valid = true) :
    ∃ events bodies, Accepted E isalnum record expectedRunId events bodies := by
  have hvalid' : r.errors = [] := List.isEmpty_iff.mp hvalid
  unfold verifyReplayJournal at h
  dsimp only at h
  cases hraws : getKey record "replay_events" with
  | arr raws =>
    rw [hraws] at h
    obtain ⟨p, hp, h⟩ := bind_eq_ok.mp h
    obtain ⟨supplied, hsupplied, h⟩ := bind_eq_ok.mp h
    have hr := Except.ok.inj h
    subst hr
    simp only [List.append_eq_nil_iff, flag_eq_nil] at hvalid'
    obtain ⟨⟨⟨⟨⟨⟨hperrors, hcount⟩, hhead⟩, hretrieval⟩, hselection⟩, hsome⟩, hdigest⟩ := hvalid'
    have hstart := errors_verifyFrom hp hperrors
    rw [List.append_eq_nil_iff, flag_eq_nil, bne_eq_false_iff_eq, fieldErrors_eq_nil] at hstart
    obtain ⟨⟨hschema, hmode, hrun, hmappings, hevidence, hchanged⟩, hseven⟩ := hstart
    have hfields : fieldErrors E isalnum record expectedRunId ++
        flag (raws.length != expectedReplayEventKinds.length) "event_contract_count_mismatch" = [] := by
      rw [List.append_eq_nil_iff, flag_eq_nil, bne_eq_false_iff_eq, fieldErrors_eq_nil]
      exact ⟨⟨hschema, hmode, hrun, hmappings, hevidence, hchanged⟩, hseven⟩
    rw [hfields] at hp
    have hshort : 0 + raws.length < 10 ^ 9 := by
      rw [hseven]
      decide
    obtain ⟨events, bodies, rfl, hchained, rfl⟩ :=
      (@verifyFrom_clean F E raws 0 none [] p hshort (wellFormed_events hrec hraws)).mp ⟨hp, hperrors⟩
    rw [List.length_map] at hseven hcount
    dsimp only at hhead hretrieval hselection
    have hrepeats := (closing_iff hchained hseven (hmappings "retrieval" (by decide))).mp ⟨hretrieval, hselection⟩
    obtain ⟨digest, hexpected⟩ := Option.isSome_iff_exists.mp (by simpa using hsome)
    obtain ⟨hnumbers, rfl⟩ := expectedDigest_eq_some.mp hexpected
    rw [hexpected, Option.getD_some, bne_eq_false_iff_eq] at hdigest
    rw [hseven] at hcount
    refine ⟨events, bodies, hschema, hmode, hrun, hmappings, hevidence, hchanged, hraws, hseven, hchained,
      by simpa using hcount, (pyEq_previousValue _ _).mp (by simpa using hhead), hrepeats, hnumbers, ?_⟩
    rw [hsupplied, hdigest]
  | _ =>
    rw [hraws] at h
    have hr := Except.ok.inj h
    subst hr
    exact absurd hvalid' (by simp)

/-- An accepted record has no errors. -/
theorem valid_of_accepted {record : Dict F} (hrec : wellFormed (.obj record) = true) {expectedRunId : Option String}
    {events : List (Dict F)} {bodies : List (Body F)} (ha : Accepted E isalnum record expectedRunId events bodies) :
    ∃ r, verifyReplayJournal E isalnum record expectedRunId = .ok r ∧ r.valid = true := by
  have hfields : fieldErrors E isalnum record expectedRunId ++
      flag ((events.map Json.obj).length != expectedReplayEventKinds.length) "event_contract_count_mismatch" = [] := by
    rw [List.append_eq_nil_iff, flag_eq_nil, bne_eq_false_iff_eq, List.length_map, fieldErrors_eq_nil]
    exact ⟨⟨ha.schema, ha.mode, ha.runId, ha.mappings, ha.evidence, ha.changed⟩, ha.seven⟩
  have hshort : 0 + (events.map Json.obj).length < 10 ^ 9 := by
    rw [List.length_map, ha.seven]
    decide
  obtain ⟨hp, -⟩ := (@verifyFrom_clean F E (events.map .obj) 0 none [] _ hshort (wellFormed_events hrec ha.stored)).mpr
    ⟨events, bodies, rfl, ha.chained, rfl⟩
  obtain ⟨hretrieval, hselection⟩ :=
    (closing_iff ha.chained ha.seven (ha.mappings "retrieval" (by decide))).mpr ha.repeats
  have hexpected := expectedDigest_eq_some.mpr ⟨ha.numbers, rfl⟩
  have hclean : verifyFrom E 0 ⟨fieldErrors E isalnum record expectedRunId ++ flag ((events.map Json.obj).length !=
      expectedReplayEventKinds.length) "event_contract_count_mismatch", .null, []⟩ (events.map .obj) =
        .ok ⟨[], previousValue (head (eventHash E) 0 none bodies), payloadsOf [] events bodies⟩ := by
    rw [hfields]
    exact hp
  unfold verifyReplayJournal
  dsimp only
  rw [ha.stored]
  refine ⟨_, bind_eq_ok.mpr ⟨_, hclean, bind_eq_ok.mpr ⟨_, ha.digest, rfl⟩⟩, ?_⟩
  rw [Integrity.valid, List.isEmpty_iff]
  dsimp only
  rw [hretrieval, hselection, hexpected, List.length_map, ha.seven, ha.count, ha.headDigest,
    (pyEq_previousValue _ _).mpr rfl]
  simp [flag]

/-- **The records that are accepted.** -/
theorem verify_valid_iff {record : Dict F} (hrec : wellFormed (.obj record) = true) {expectedRunId : Option String} :
    (∃ r, verifyReplayJournal E isalnum record expectedRunId = .ok r ∧ r.valid = true) ↔
      ∃ events bodies, Accepted E isalnum record expectedRunId events bodies := by
  constructor
  · rintro ⟨r, h, hvalid⟩
    exact accepted_of_valid hrec h hvalid
  · rintro ⟨events, bodies, ha⟩
    exact valid_of_accepted hrec ha

end ControlPlane.Journal.Verify
