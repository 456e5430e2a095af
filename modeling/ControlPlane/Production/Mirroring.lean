import ControlPlane.Production.Store

/-! # Synchronisation and reconciliation

The files of the records call for events with certain digests (`entryOf`), and synchronising them fills a mirror
with these (`syncFiles_putAll`). While every event is one that a file calls for (`Mirrors`), synchronising
succeeds, a second time nothing is inserted, and the reconciliation finds the two stores consistent
(`converges_of_mirrors`). -/

namespace ControlPlane.Production.Mirroring

open ControlPlane.Lib.Value ControlPlane.Lib.Print ControlPlane.Lib.Dumps ControlPlane.Lib.Dynamic
open ControlPlane.Lib.Text ControlPlane.Lib.Floats ControlPlane.Lib.Objects ControlPlane.Lib.Mirror
open ControlPlane.Environment ControlPlane.Learning.Decision ControlPlane.Learning.Records
open ControlPlane.Production.Store

variable {F : Type} (E : Env F)

/-! ### Files and their events -/

def kinds : List String := ["decision", "observation", "outcome"]

/-- The generation of the deployment that a record was served by. -/
def generationOf (d : Dict F) : Option ℤ :=
  match getKey d "deployment" with
  | .obj deployment => intOf (getKey deployment "state_generation")
  | _ => none

/-- The digest of what a file holds. -/
def digestOf (text : String) : String :=
  match canonicalOf E (ofFile (content E text)) with
  | .ok raw => E.sha256 raw
  | .error _ => ""

/-- A file holds a record under its decision id, whose generation fits into a column. -/
structure Recorded (file : RecordFile) : Prop where
  kind : file.1 ∈ kinds
  holds : Holds E file.2
  generation : fits (generationOf (content E file.2.2)) = true

/-- The id and the digest of an event. -/
def pairOf (e : Event) : String × String := (e.eventId, e.payloadSha256)

/-- Those that a file calls for. -/
def entryOf (file : RecordFile) : String × String := (eventIdOf file.1 file.2.1, digestOf E file.2.2)

/-- The event is the one of the file. -/
structure EventOf (file : RecordFile) (e : Event) : Prop where
  kind : e.eventType = file.1
  pair : pairOf e = entryOf E file

theorem toList_eventIdOf (kind id : String) :
    (eventIdOf kind id).toList = kind.toList ++ ':' :: id.toList := by
  simp [eventIdOf, String.toList_append]

theorem length_decisionId {id : String} (h : isDecisionId id = true) : id.toList.length = 32 := by
  unfold isDecisionId at h
  rw [Bool.and_eq_true, beq_iff_eq] at h
  exact h.1

/-- Files with the same event have the same kind and the same name. -/
theorem eventIdOf_inj {kind kind' id id' : String} (h : isDecisionId id = true)
    (h' : isDecisionId id' = true) (heq : eventIdOf kind id = eventIdOf kind' id') :
    kind = kind' ∧ id = id' := by
  have hlist := congrArg String.toList heq
  rw [toList_eventIdOf, toList_eventIdOf] at hlist
  have hlen : (':' :: id.toList).length = (':' :: id'.toList).length := by
    rw [List.length_cons, List.length_cons, length_decisionId h, length_decisionId h']
  obtain ⟨hk, hid⟩ := List.append_inj' hlist hlen
  exact ⟨String.toList_inj.mp hk, String.toList_inj.mp (List.cons.inj hid).2⟩

/-- The id of an event has no blanks around it. -/
theorem strip_eventId {kind id : String} (hk : kind ∈ kinds) (hid : isDecisionId id = true) :
    strip (eventIdOf kind id) = eventIdOf kind id := by
  have hhead : ∀ c, kind.toList.head? = some c → isSpace c = false := by
    have hall : ∀ kind ∈ kinds, kind.toList.all (fun c => decide (isSpace c = false)) = true := by decide
    exact fun c hc => Lib.Quote.forall_chars (hall kind hk) c (List.mem_of_head? hc)
  have hne : kind.toList ≠ [] := by
    have hall : ∀ kind ∈ kinds, kind.toList ≠ [] := by decide
    exact hall kind hk
  have hne' : id.toList ≠ [] := by
    intro hnil
    have hlen := length_decisionId hid
    rw [hnil] at hlen
    cases hlen
  refine strip_eq_self (fun c hc => hhead c ?_) (fun c hc => isSpace_of_hex ?_)
  · rwa [toList_eventIdOf, List.head?_append_of_ne_nil _ hne] at hc
  · rw [toList_eventIdOf, List.getLast?_append_of_ne_nil _ (List.cons_ne_nil _ _),
      List.getLast?_cons_of_ne_nil hne'] at hc
    unfold isDecisionId at hid
    exact List.all_eq_true.mp (Bool.and_eq_true_iff.mp hid).2 c (List.mem_of_getLast? hc)

variable {E}

/-- What an event is made of. -/
theorem prepareEvent_eq_ok {kind id : String} (hk : kind ∈ kinds) (hid : isDecisionId id = true)
    {p : Payload F} {now : String} {e : Event}
    (h : prepareEvent E kind p (some (eventIdOf kind id)) now = .ok e) :
    e.eventType = kind ∧ e.eventId = eventIdOf kind id ∧
      ∃ raw, canonicalOf E p = .ok raw ∧ e.payloadSha256 = E.sha256 raw := by
  have hkind : strip kind = kind := by
    have hall : ∀ kind ∈ kinds, strip kind = kind := by decide
    exact hall kind hk
  have hne : eventIdOf kind id ≠ "" := by
    intro hnil
    have hlist := congrArg String.toList hnil
    rw [toList_eventIdOf] at hlist
    simp at hlist
  unfold prepareEvent at h
  obtain ⟨u, -, h⟩ := bind_eq_ok.mp h
  obtain ⟨raw, hraw, h⟩ := bind_eq_ok.mp h
  obtain ⟨⟨decisionId, policyId, generation⟩, -, h⟩ := bind_eq_ok.mp h
  obtain ⟨createdAt, -, h⟩ := bind_eq_ok.mp h
  have he := Except.ok.inj h
  subst he
  refine ⟨hkind, ?_, raw, hraw, rfl⟩
  show (if strip (eventIdOf kind id) = "" then _ else strip (eventIdOf kind id)) = _
  rw [strip_eventId hk hid, if_neg hne]

/-! ### The event of a file -/

theorem str_ok {v : Json F} (h : printable E.T.toFloatText true v = true) : ∃ s, E.str v = .ok s :=
  ⟨_, (pyStr_eq_ok E.T).mpr ⟨h, rfl⟩⟩

theorem strippedText_ok {v : Json F} (h : printable E.T.toFloatText true v = true) :
    ∃ s, strippedText E v = .ok s := by
  obtain ⟨s, hs⟩ := str_ok h
  unfold strippedText
  split
  · exact ⟨_, rfl⟩
  · exact ⟨_, by rw [hs]; rfl⟩

theorem firstText_ok {d : Dict F} (h : printable E.T.toFloatText true (.obj d) = true) (now : String) :
    ∀ names : List String, ∃ s, firstText E d now names = .ok s
  | [] => ⟨now, rfl⟩
  | name :: names => by
    rw [firstText]
    by_cases ht : truthy E.T (getKey d name) = true
    · rw [if_pos ht]
      exact str_ok (printable_getKey h name)
    · rw [if_neg ht]
      exact firstText_ok h now names

theorem deploymentIdentity_ok {d : Dict F} (h : printable E.T.toFloatText true (.obj d) = true) :
    ∃ policyId, deploymentIdentity E d = .ok (policyId, generationOf d) := by
  have hd := printable_getKey h "deployment"
  unfold deploymentIdentity generationOf
  cases hdep : getKey d "deployment" with
  | obj deployment =>
    rw [hdep] at hd
    obtain ⟨s, hs⟩ := strippedText_ok (printable_getKey hd "policy_id")
    exact ⟨_, by dsimp only; rw [hs]; rfl⟩
  | _ => exact ⟨none, rfl⟩

theorem canonicalOf_ok {d : Dict F} (h : printable E.T.toFloatText true (.obj d) = true) :
    ∃ raw, canonicalOf E (ofFile d) = .ok raw := by
  have hp : printable E.T.toFloatText true ((ofFile d).json E) = true := by
    rwa [json_ofFile, printable_sortKeys]
  rw [canonicalOf, if_pos (by rfl)]
  unfold jsonDumps
  rw [dumps, if_pos hp]
  exact ⟨_, rfl⟩

/-- A payload that can be written has an event. -/
theorem prepareEvent_ok (id : String) {kind : String} (hk : kind ∈ kinds) {p : Payload F}
    (hp : printable E.T.toFloatText true (.obj p.fields) = true) {raw : String}
    (hraw : canonicalOf E p = .ok raw) (now : String) :
    ∃ e, prepareEvent E kind p (some (eventIdOf kind id)) now = .ok e ∧
      e.stateGeneration = generationOf p.fields := by
  have hkind : eventKinds.contains (strip kind) = true ∧ strip kind ≠ "deployment_state" := by
    have hall : ∀ kind ∈ kinds, eventKinds.contains (strip kind) = true ∧
        strip kind ≠ "deployment_state" := by decide
    exact hall kind hk
  obtain ⟨decisionId, hdecision⟩ := strippedText_ok (printable_getKey hp "decision_id")
  obtain ⟨policyId, hdeployment⟩ := deploymentIdentity_ok hp
  obtain ⟨createdAt, hcreated⟩ :=
    firstText_ok hp now ["created_at", "observed_at", "recorded_at", "updated_at"]
  have hidentity : eventIdentity E (strip kind) p.fields =
      .ok (decisionId, policyId, generationOf p.fields) := by
    rw [eventIdentity, hdecision]
    simp only [bind, Except.bind, hdeployment, if_neg hkind.2]
    rfl
  unfold prepareEvent
  simp only [require, hkind.1, if_true, bind, Except.bind, hraw, hidentity, hcreated]
  exact ⟨_, rfl, rfl⟩

/-- A file has its event. -/
theorem prepareEvent_file {file : RecordFile} (h : Recorded E file) (now : String) :
    ∃ e, prepareEvent E file.1 (ofFile (content E file.2.2)) (some (eventIdOf file.1 file.2.1)) now =
      .ok e ∧ EventOf E file e ∧ fits e.stateGeneration = true := by
  have hprint := printable_jsonLoads E h.holds.text
  obtain ⟨raw, hraw⟩ := canonicalOf_ok hprint
  obtain ⟨e, he, hgeneration⟩ :=
    prepareEvent_ok file.2.1 h.kind (p := ofFile (content E file.2.2)) hprint hraw now
  obtain ⟨htype, hid, raw', hraw', hsha⟩ := prepareEvent_eq_ok h.kind h.holds.isId he
  refine ⟨e, he, ⟨htype, Prod.ext hid ?_⟩, by rw [hgeneration]; exact h.generation⟩
  show e.payloadSha256 = digestOf E file.2.2
  rw [hsha, digestOf, hraw']

/-! ### Synchronisation fills a mirror -/

theorem find_pairOf (id : String) (events : List Event) :
    (events.map pairOf).find? (fun p => p.1 = id) =
      (events.find? fun e => e.eventId = id).map pairOf := by
  rw [List.find?_map]
  rfl

/-- Inserting an event puts its digest. -/
theorem insertEvent_put {file : RecordFile} {e : Event} (he : EventOf E file e)
    (hfits : fits e.stateGeneration = true) (events : List Event) :
    match put (entryOf E file).1 (entryOf E file).2 (events.map pairOf) with
    | some (pairs, new) => ∃ events', insertEvent e events = .ok (events', new) ∧
        events'.map pairOf = pairs ∧ ∀ e' ∈ events', e' ∈ events ∨ EventOf E file e'
    | none => ∃ x, insertEvent e events = .error x := by
  have hid : e.eventId = (entryOf E file).1 := congrArg Prod.fst he.pair
  have hsha : e.payloadSha256 = (entryOf E file).2 := congrArg Prod.snd he.pair
  rw [put, find_pairOf, insertEvent, hid, hsha]
  cases hfind : events.find? fun e' => e'.eventId = (entryOf E file).1 with
  | none =>
    refine ⟨events ++ [e], by rw [if_pos hfits], by rw [List.map_append, List.map_singleton, he.pair], ?_⟩
    intro e' he'
    rcases List.mem_append.mp he' with h | h
    · exact Or.inl h
    · exact Or.inr (List.mem_singleton.mp h ▸ he)
  | some e' =>
    by_cases hsame : e'.payloadSha256 = (entryOf E file).2
    · simp only [Option.map_some, pairOf, hsame, if_true]
      exact ⟨events, rfl, rfl, fun _ => Or.inl⟩
    · simp only [Option.map_some, pairOf, hsame, if_false]
      exact ⟨_, rfl⟩

/-- Appending the event of a file puts the digest that the file calls for. -/
theorem append_put {file : RecordFile} (h : Recorded E file) (now : String) (store : Option (List Event)) :
    match put (entryOf E file).1 (entryOf E file).2 ((eventsOf store).map pairOf) with
    | some (pairs, new) => ∃ events, appendProductionEvent E file.1 (ofFile (content E file.2.2))
          (some (eventIdOf file.1 file.2.1)) now store = (some events, .ok new) ∧
        events.map pairOf = pairs ∧ ∀ e ∈ events, e ∈ eventsOf store ∨ EventOf E file e
    | none => ∃ store' x, appendProductionEvent E file.1 (ofFile (content E file.2.2))
          (some (eventIdOf file.1 file.2.1)) now store = (store', .error x) := by
  obtain ⟨e, hprepare, he, hfits⟩ := prepareEvent_file h now
  have hinsert := insertEvent_put he hfits (eventsOf store)
  rw [appendProductionEvent, hprepare]
  split at hinsert
  · obtain ⟨events', hevents, hpairs, hmem⟩ := hinsert
    exact ⟨events', by dsimp only; rw [hevents], hpairs, hmem⟩
  · obtain ⟨x, hx⟩ := hinsert
    exact ⟨_, x, by dsimp only; rw [hx]⟩

theorem readFile_recorded {file : RecordFile} (h : Recorded E file) :
    readFile E file.2.2 = .ok (some (file.2.1, content E file.2.2)) := by
  obtain ⟨kind, id, text⟩ := file
  have ht := h.holds
  obtain ⟨hstrip, hne⟩ := strip_decisionId ht.isId
  have hrecord : readRecord E text = .ok (some (content E text)) := by
    rw [readRecord, ht.text]
  have hid : E.strOr (content E text) "decision_id" "" = .ok id := strOr_of_getKey ht.id _
  unfold readFile
  rw [hrecord]
  simp only [bind, Except.bind, hid, hstrip, if_neg hne]
  rfl

/-- **Synchronising fills the mirror** with the digests of the files, or raises if it cannot be filled. -/
theorem syncFiles_putAll (now : String) : ∀ {files : List RecordFile} (store : Option (List Event))
    (c : Counters), (∀ file ∈ files, Recorded E file) →
    match putAll (files.map (entryOf E)) ((eventsOf store).map pairOf) with
    | some (pairs, count) => ∃ store' c', syncFiles E now files store c = (store', .ok c') ∧
        (eventsOf store').map pairOf = pairs ∧ c'.inserted = c.inserted + count ∧
        (store'.isSome = true ↔ files ≠ [] ∨ store.isSome = true) ∧
        ∀ e ∈ eventsOf store', e ∈ eventsOf store ∨ ∃ file ∈ files, EventOf E file e
    | none => ∃ store' x, syncFiles E now files store c = (store', .error x)
  | [], store, c, _ => ⟨store, c, rfl, rfl, rfl, by simp, fun _ => Or.inl⟩
  | (kind, id, text) :: files, store, c, h => by
    rw [List.forall_mem_cons] at h
    have happend := append_put h.1 now store
    have hread := readFile_recorded h.1
    rw [List.map_cons, putAll]
    dsimp only at hread happend
    cases hput : put (entryOf E (kind, id, text)).1 (entryOf E (kind, id, text)).2
        ((eventsOf store).map pairOf) with
    | none =>
      rw [hput] at happend
      obtain ⟨store', x, hx⟩ := happend
      refine ⟨store', x, ?_⟩
      rw [syncFiles, hread]
      dsimp only
      rw [hx]
    | some r =>
      obtain ⟨pairs, new⟩ := r
      rw [hput] at happend
      obtain ⟨events, hevents, rfl, hmem⟩ := happend
      have hpass : ∃ c', syncFiles E now ((kind, id, text) :: files) store c =
          syncFiles E now files (some events) c' ∧
          c'.inserted = c.inserted + (if new then 1 else 0) := by
        rw [syncFiles, hread]
        dsimp only
        rw [hevents]
        cases new
        · exact ⟨_, rfl, rfl⟩
        · exact ⟨_, rfl, rfl⟩
      obtain ⟨c', hsync, hc'⟩ := hpass
      have ih := syncFiles_putAll now (some events) c' h.2
      rw [hsync]
      simp only [Option.bind_some, Option.bind_eq_bind]
      cases hall : putAll (files.map (entryOf E)) (events.map pairOf) with
      | none =>
        rw [show eventsOf (some events) = events from rfl, hall] at ih
        exact ih
      | some r =>
        obtain ⟨pairs, count⟩ := r
        rw [show eventsOf (some events) = events from rfl, hall] at ih
        obtain ⟨store', c'', hok, hpairs, hcount, hsome, hfrom⟩ := ih
        refine ⟨store', c'', hok, hpairs, by rw [hcount, hc', add_assoc], ?_, fun e he => ?_⟩
        · exact ⟨fun _ => Or.inl (List.cons_ne_nil _ _), fun _ => hsome.mpr (Or.inr rfl)⟩
        · rcases hfrom e he with h1 | ⟨file, hfile, h1⟩
          · rcases hmem e h1 with h2 | h2
            · exact Or.inl h2
            · exact Or.inr ⟨_, List.mem_cons_self .., h2⟩
          · exact Or.inr ⟨file, List.mem_cons_of_mem _ hfile, h1⟩

/-! ### Reconciliation compares entries -/

/-- Entries as the dictionary that reconciliation expects. -/
def expectedOf (entries : List (String × String)) : Dict F := entries.map fun p => (p.1, .str p.2)

theorem keys_expectedOf (entries : List (String × String)) :
    keys (expectedOf entries : Dict F) = entries.map Prod.fst := by
  rw [keys, expectedOf, List.map_map]
  rfl

theorem canonicalOf_recorded {file : RecordFile} (h : Recorded E file) :
    ∃ raw, canonicalOf E (ofFile (content E file.2.2)) = .ok raw ∧ E.sha256 raw = (entryOf E file).2 := by
  obtain ⟨raw, hraw⟩ := canonicalOf_ok (printable_jsonLoads E h.holds.text)
  exact ⟨raw, hraw, by rw [entryOf, digestOf, hraw]⟩

theorem expectedFrom_recorded : ∀ {files : List RecordFile} {expected : Dict F},
    (∀ file ∈ files, Recorded E file) → ((files.map (entryOf E)).map Prod.fst).Nodup →
    (∀ file ∈ files, (entryOf E file).1 ∉ keys expected) →
    expectedFrom E files expected [] = .ok (expected ++ expectedOf (files.map (entryOf E)), [])
  | [], expected, _, _, _ => by rw [List.map_nil, expectedOf, List.map_nil, List.append_nil, expectedFrom]
  | (kind, id, text) :: files, expected, h, hn, hfresh => by
    rw [List.forall_mem_cons] at h hfresh
    rw [List.map_cons, List.map_cons, List.nodup_cons] at hn
    obtain ⟨raw, hraw, hdigest⟩ := canonicalOf_recorded h.1
    have hread := readFile_recorded h.1
    have hset : setKey (eventIdOf kind id) (.str (E.sha256 raw)) expected =
        expected ++ expectedOf [entryOf E (kind, id, text)] := by
      have hnot : eventIdOf kind id ∉ keys expected := hfresh.1
      rw [setKey_of_notMem hnot, hdigest]
      rfl
    have hrest : ∀ file ∈ files,
        (entryOf E file).1 ∉ keys (expected ++ expectedOf [entryOf E (kind, id, text)]) := by
      intro file hfile hmem
      rw [keys, List.map_append, List.mem_append] at hmem
      rcases hmem with hmem | hmem
      · exact hfresh.2 file hfile hmem
      · have heq : (entryOf E file).1 = (entryOf E (kind, id, text)).1 := by
          simpa [expectedOf] using hmem
        exact hn.1 (heq ▸ List.mem_map.mpr ⟨_, List.mem_map.mpr ⟨file, hfile, rfl⟩, rfl⟩)
    rw [expectedFrom]
    dsimp only at hread hraw
    simp only [hread, hraw, bind, Except.bind]
    rw [hset, expectedFrom_recorded h.2 hn.2 hrest]
    simp [expectedOf]

theorem sortedTexts_isEmpty {texts : List String} (h : texts = []) : (sortedTexts texts).isEmpty = true := by
  rw [h]
  rfl

variable (E) in
/-- A store with the expected entries is consistent. -/
theorem compareWith_same {entries actual : List (String × String)} (hn : (entries.map Prod.fst).Nodup)
    (h : ∀ p, p ∈ actual ↔ p ∈ entries) :
    (compareWith E (expectedOf entries) actual []).consistent = true := by
  have hids : ∀ id, id ∈ actual.map Prod.fst ↔ id ∈ entries.map Prod.fst := by
    intro id
    simp only [List.mem_map, h]
  have hmissing : ((keys (expectedOf entries : Dict F)).filter fun id =>
      !(actual.map Prod.fst).contains id) = [] := by
    rw [List.filter_eq_nil_iff, keys_expectedOf]
    intro id hid
    simpa using (hids id).mpr hid
  have hextra : ((actual.map Prod.fst).filter fun id =>
      !(keys (expectedOf entries : Dict F)).contains id) = [] := by
    rw [List.filter_eq_nil_iff, keys_expectedOf]
    intro id hid
    simpa using (hids id).mp hid
  have hmismatched : ((keys (expectedOf entries : Dict F)).filter fun id => actual.any fun p =>
      p.1 = id && !pyEq E.T (getKey (expectedOf entries) id) (.str p.2)) = [] := by
    rw [List.filter_eq_nil_iff]
    intro id _ hany
    obtain ⟨p, hp, hdiff⟩ := List.any_eq_true.mp hany
    rw [Bool.and_eq_true, decide_eq_true_eq] at hdiff
    obtain ⟨rfl, hdiff⟩ := hdiff
    have hlook : lookup p.1 (expectedOf entries : Dict F) = some (.str p.2) := by
      refine lookup_of_mem (by rwa [keys_expectedOf]) ?_
      exact List.mem_map.mpr ⟨p, (h p).mp hp, rfl⟩
    rw [getKey, hlook, Option.getD_some, (pyEq_str E.T p.2 _).mpr rfl] at hdiff
    cases hdiff
  unfold compareWith
  simp only [Bool.and_eq_true]
  exact ⟨⟨⟨sortedTexts_isEmpty hmissing, sortedTexts_isEmpty hmismatched⟩, sortedTexts_isEmpty hextra⟩, rfl⟩

theorem actualOf_kinds {events : List Event} (h : ∀ e ∈ events, e.eventType ∈ kinds) :
    actualOf events = events.map pairOf := by
  have hfilter : (events.filter fun e => ["decision", "observation", "outcome"].contains e.eventType) =
      events := by
    rw [List.filter_eq_self]
    intro e he
    exact List.contains_iff_mem.mpr (h e he)
  rw [actualOf, hfilter]
  rfl

/-! ### Records that are mirrored -/

/-- The kind and the name of a file. -/
def nameOf (file : RecordFile) : String × String := (file.1, file.2.1)

variable (E) in
/-- No file is there twice, and every event is that of a file. -/
structure Mirrors (files : List RecordFile) (events : List Event) : Prop where
  names : (files.map nameOf).Nodup
  recorded : ∀ file ∈ files, Recorded E file
  events : ∀ e ∈ events, ∃ file ∈ files, EventOf E file e

theorem Mirrors.perm {files files' : List RecordFile} {events : List Event} (hp : files.Perm files')
    (h : Mirrors E files events) : Mirrors E files' events := by
  refine ⟨(hp.map nameOf).nodup_iff.mp h.names, fun file hf => h.recorded file (hp.mem_iff.mpr hf), ?_⟩
  intro e he
  obtain ⟨file, hf, hevent⟩ := h.events e he
  exact ⟨file, hp.mem_iff.mp hf, hevent⟩

/-- A new file, and possibly its event. -/
theorem mirrors_cons {files : List RecordFile} {events : List Event} (h : Mirrors E files events)
    {file : RecordFile} (hnew : nameOf file ∉ files.map nameOf) (hrecorded : Recorded E file)
    (added : List Event) (hadded : ∀ e ∈ added, EventOf E file e) :
    Mirrors E (file :: files) (events ++ added) := by
  refine ⟨?_, ?_, fun e he => ?_⟩
  · rw [List.map_cons, List.nodup_cons]
    exact ⟨hnew, h.names⟩
  · rw [List.forall_mem_cons]
    exact ⟨hrecorded, h.recorded⟩
  · rcases List.mem_append.mp he with he | he
    · obtain ⟨file', hf, hevent⟩ := h.events e he
      exact ⟨file', List.mem_cons_of_mem _ hf, hevent⟩
    · exact ⟨file, List.mem_cons_self .., hadded e he⟩

section Mirrors
variable {files : List RecordFile} {events : List Event} (h : Mirrors E files events)
include h

theorem nodup_entries : ((files.map (entryOf E)).map Prod.fst).Nodup := by
  have hnames := h.names
  rw [List.map_map]
  unfold List.Nodup at hnames ⊢
  rw [List.pairwise_map] at hnames ⊢
  refine hnames.imp_of_mem fun {file file'} hfile hfile' hne heq => hne ?_
  have hid := (h.recorded file hfile).holds.isId
  have hid' := (h.recorded file' hfile').holds.isId
  obtain ⟨hkind, hname⟩ := eventIdOf_inj hid hid' heq
  exact Prod.ext hkind hname

theorem within_entries : Within (files.map (entryOf E)) (events.map pairOf) := by
  intro p hp
  obtain ⟨e, he, rfl⟩ := List.mem_map.mp hp
  obtain ⟨file, hfile, hevent⟩ := h.events e he
  exact List.mem_map.mpr ⟨file, hfile, hevent.pair.symm⟩

/-- **Synchronising mirrored records** succeeds, and the store then has the events of the files and no others; if
it had them before, nothing is inserted. -/
theorem sync_mirrors (now : String) {store : Option (List Event)} (hstore : eventsOf store = events)
    (c : Counters) : ∃ store' c', syncFiles E now files store c = (store', .ok c') ∧
      Mirrors E files (eventsOf store') ∧ (store'.isSome = true ↔ files ≠ [] ∨ store.isSome = true) ∧
      (∀ p, p ∈ (eventsOf store').map pairOf ↔ p ∈ files.map (entryOf E)) ∧
      ((∀ p ∈ files.map (entryOf E), p ∈ events.map pairOf) → c'.inserted = c.inserted) := by
  obtain ⟨pairs, count, hall, hwithin, hmem, hsame⟩ :=
    putAll_within (nodup_entries h) (within_entries h) fun p hp => hp
  have hsync := syncFiles_putAll now store c h.recorded
  rw [hstore, hall] at hsync
  obtain ⟨store', c', hok, rfl, hcount, hsome, hfrom⟩ := hsync
  refine ⟨store', c', hok, ⟨h.names, h.recorded, fun e he => ?_⟩, hsome, fun p => ?_, fun hin => ?_⟩
  · rcases hfrom e he with he | he
    · exact h.events e he
    · exact he
  · exact ⟨hwithin p, fun hp => (hmem p).mpr (Or.inr hp)⟩
  · rw [hcount, (hsame hin).2, add_zero]

end Mirrors

variable (E) in
/-- The synchronisation returns, a second one right after it inserts nothing, and then the files and the store are
reported as consistent. -/
def Converges (l : Learning) : Prop :=
  ∀ now now', ∃ l' c l'' c' report, syncLearningStore E now l = (l', .ok c) ∧
    syncLearningStore E now' l' = (l'', .ok c') ∧ c'.inserted = 0 ∧
    reconcileLearningStore E l'' = .ok report ∧ report.consistent = true

/-- **Mirrored records converge**, if there is one or a store. -/
theorem converges_of_mirrors {l : Learning} (h : Mirrors E l.files (eventsOf l.store))
    (hone : l.files ≠ [] ∨ l.store.isSome = true) : Converges E l := by
  intro now now'
  obtain ⟨store1, c1, hsync1, hmirrors1, hsome1, hmem1, -⟩ := sync_mirrors h now rfl ⟨0, 0, 0, 0⟩
  obtain ⟨store2, c2, hsync2, hmirrors2, hsome2, hmem2, hnone2⟩ := sync_mirrors hmirrors1 now' rfl ⟨0, 0, 0, 0⟩
  have hsome : store2.isSome = true := hsome2.mpr (Or.inr (hsome1.mpr hone))
  obtain ⟨events, rfl⟩ := Option.isSome_iff_exists.mp hsome
  have hexpected : expectedFrom E l.files [] [] = .ok (expectedOf (l.files.map (entryOf E)), []) :=
    expectedFrom_recorded h.recorded (nodup_entries h) (by simp [keys])
  have hactual : actualOf events = events.map pairOf := by
    refine actualOf_kinds fun e he => ?_
    obtain ⟨file, hfile, hevent⟩ := hmirrors2.events e he
    rw [hevent.kind]
    exact (h.recorded file hfile).kind
  refine ⟨{ l with store := store1 }, c1, { l with store := some events }, c2, _, ?_, ?_,
    hnone2 fun p hp => (hmem1 p).mpr hp, ?_, compareWith_same E (nodup_entries h) hmem2⟩
  · rw [syncLearningStore, hsync1]
  · have hfiles : ({ l with store := store1 } : Learning).files = l.files := rfl
    rw [syncLearningStore, hfiles, hsync2]
  · have hfiles : ({ l with store := some events } : Learning).files = l.files := rfl
    rw [reconcileLearningStore]
    dsimp only
    rw [hfiles, hexpected, hactual]
    rfl

end ControlPlane.Production.Mirroring
