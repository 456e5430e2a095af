import ControlPlane.Journal.Verify

/-! # The journals that are built

What the verification says of a journal of the builder, as it is built (`accepted_built`) and as it is read back
from its file, with the keys in order (`accepted_read`): it is accepted if and only if the run id is the expected one
and the record `Repeats` its events. -/

namespace ControlPlane.Journal.Sealed

open ControlPlane.Lib.Value ControlPlane.Lib.Print ControlPlane.Lib.Text ControlPlane.Lib.RoundTrip
open ControlPlane.Lib.Dumps ControlPlane.Lib.Dynamic ControlPlane.Environment ControlPlane.Journal.Build
open ControlPlane.Lib.HashChain ControlPlane.Journal.Verify

variable {F : Type} {E : Env F} {isalnum : Char → Bool}

/-! ### The order of keys -/

theorem sortKeys_eq_str {v : Json F} {text : String} : sortKeys v = .str text ↔ v = .str text := by
  cases v <;> simp

theorem sortKeys_eq_previousValue {v : Json F} {previous : Option String} :
    sortKeys v = previousValue previous ↔ v = previousValue previous := by
  cases previous with
  | none => cases v <;> simp [previousValue]
  | some text => exact sortKeys_eq_str

theorem digestOf_sortKeys (v : Json F) : digestOf E (sortKeys v) = digestOf E v := by
  rw [digestOf, digestOf, canonicalText, canonicalText, sortKeys_sortKeys]

theorem pyEq_int_sorted (v : Json F) (n : ℤ) : pyEq E.T (sortKeys v) (.int n) = pyEq E.T v (.int n) := by
  have h := @pyEq_sortKeys F E.T v (.int n) rfl
  rwa [sortKeys_int] at h

/-- A text among the entries is the same in order. -/
theorem str_orEmpty_sorted {d : Dict F} (hd : wellFormed (.obj d) = true) {k : String}
    (hk : ∃ text, getKey d k = .str text) :
    E.str (orEmpty E (getKey (sortDict d) k)) = E.str (orEmpty E (getKey d k)) := by
  obtain ⟨text, htext⟩ := hk
  rw [getKey_sorted hd, htext, sortKeys_str]

/-- The kind and the digest of an event are texts. -/
def Texts (event : Dict F) : Prop :=
  (∃ text, getKey event "kind" = .str text) ∧ ∃ text, getKey event "event_digest" = .str text

theorem verified_sorted {n : ℕ} {previous : Option String} {event : Dict F} {body : Body F}
    (hwf : wellFormed (.obj event) = true) (htexts : Texts event) :
    Verified E n previous (sortDict event) body ↔ Verified E n previous event body := by
  have hkind : kindOf E (sortDict event) = kindOf E event := by
    rw [kindOf, kindOf, str_orEmpty_sorted hwf htexts.1]
  have hdigest := @str_orEmpty_sorted F E event hwf "event_digest" htexts.2
  have hsorted := fun name => @getKey_sorted F event hwf name
  constructor
  · intro h
    have hs := h.sequence
    have ho := h.object
    have hp := h.payload
    have hl := h.linked
    have hn := h.numbers
    rw [hsorted] at hs ho hp hl hn
    rw [pyEq_int_sorted] at hs
    rw [isObj_sortKeys] at ho
    rw [sortKeys_sortKeys] at hp
    rw [sortKeys_eq_previousValue] at hl
    rw [printable_sortKeys] at hn
    exact ⟨hs, hkind ▸ h.kindOf, h.kind_ne, h.kind_fits, ho, hp, hl, hn, hdigest ▸ h.digest⟩
  · intro h
    refine ⟨?_, hkind ▸ h.kindOf, h.kind_ne, h.kind_fits, ?_, ?_, ?_, ?_, hdigest ▸ h.digest⟩
    · rw [hsorted, pyEq_int_sorted]
      exact h.sequence
    · rw [hsorted, isObj_sortKeys]
      exact h.object
    · rw [hsorted, sortKeys_sortKeys]
      exact h.payload
    · rw [hsorted, sortKeys_eq_previousValue]
      exact h.linked
    · rw [hsorted, printable_sortKeys]
      exact h.numbers

theorem chained_sorted : ∀ {events : List (Dict F)} {bodies : List (Body F)} {n : ℕ} {previous : Option String},
    (∀ event ∈ events, wellFormed (.obj event) = true ∧ Texts event) →
    (Chained E n previous (events.map sortDict) bodies ↔ Chained E n previous events bodies)
  | [], [], _, _, _ => Iff.rfl
  | [], _ :: _, _, _, _ => Iff.rfl
  | _ :: _, [], _, _, _ => Iff.rfl
  | event :: events, body :: bodies, n, previous, h => by
    rw [List.forall_mem_cons] at h
    rw [List.map_cons, Chained, Chained, verified_sorted h.1.1 h.1.2, chained_sorted h.2]

/-- Payloads in order, and a record in order, say the same. -/
theorem repeats_congr {record record' : Dict F} {events events' : List (Dict F)}
    (hrec : wellFormed (.obj record) = true) (hwf : ∀ event ∈ events, wellFormed (.obj event) = true)
    (hfields : ∀ name ∈ ["retrieval", "selected_evidence"], getKey record' name = sortKeys (getKey record name))
    (hpayloads : events'.map (getKey · "payload") = events.map fun event => sortKeys (getKey event "payload")) :
    Repeats E record' events' ↔ Repeats E record events := by
  have hright : ∀ name ∈ ["retrieval", "selected_evidence"], ∀ v, pyEq E.T (sortKeys v) (getKey record' name) =
      pyEq E.T v (getKey record name) := fun name hname v => by
    rw [hfields name hname]
    exact pyEq_sortKeys E.T (wellFormed_getKey hrec name)
  have hplace : ∀ i : ℕ, (events'[i]?).map (getKey · "payload") =
      (events[i]?).map fun event => sortKeys (getKey event "payload") := fun i => by
    rw [← List.getElem?_map, hpayloads, List.getElem?_map]
  have hselected : ∀ {i : ℕ} {event payload}, events[i]? = some event → getKey event "payload" = .obj payload →
      pyEq E.T (getKey (sortDict payload) "selected_evidence") (getKey record' "selected_evidence") =
        pyEq E.T (getKey payload "selected_evidence") (getKey record "selected_evidence") := by
    intro i event payload hi hobject
    have hp := wellFormed_getKey (hwf event (List.mem_of_getElem? hi)) "payload"
    rw [hobject] at hp
    rw [getKey_sorted hp]
    exact hright "selected_evidence" (by simp) _
  constructor
  · rintro ⟨h2, h4⟩
    refine ⟨fun event hevent => ?_, fun event payload hevent hobject => ?_⟩
    · have hsame := hplace 2
      rw [hevent, Option.map_some, Option.map_eq_some_iff] at hsame
      obtain ⟨event', hevent', hsame⟩ := hsame
      rw [← hright "retrieval" (by simp), ← hsame]
      exact h2 event' hevent'
    · have hsame := hplace 4
      rw [hevent, Option.map_some, Option.map_eq_some_iff] at hsame
      obtain ⟨event', hevent', hsame⟩ := hsame
      rw [hobject, sortKeys_obj'] at hsame
      rw [← hselected hevent hobject]
      exact h4 event' _ hevent' hsame
  · rintro ⟨h2, h4⟩
    refine ⟨fun event' hevent' => ?_, fun event' payload' hevent' hobject' => ?_⟩
    · have hsame := (hplace 2).symm
      rw [hevent', Option.map_some, Option.map_eq_some_iff] at hsame
      obtain ⟨event, hevent, hsame⟩ := hsame
      rw [← hsame, hright "retrieval" (by simp)]
      exact h2 event hevent
    · have hsame := (hplace 4).symm
      rw [hevent', Option.map_some, Option.map_eq_some_iff] at hsame
      obtain ⟨event, hevent, hsame⟩ := hsame
      rw [hobject'] at hsame
      have hobj : isObj (getKey event "payload") = true := by
        rw [← isObj_sortKeys, hsame]
        rfl
      obtain ⟨payload, hobject⟩ := isObj_eq_true.mp hobj
      rw [hobject, sortKeys_obj', Json.obj.injEq] at hsame
      rw [← hsame, hselected hevent hobject]
      exact h4 event payload hevent hobject

theorem accepted_sorted {record : Dict F} (hrec : wellFormed (.obj record) = true) {expectedRunId : Option String}
    {events : List (Dict F)} (hstored : getKey record "replay_events" = .arr (events.map .obj))
    (htexts : ∀ event ∈ events, Texts event) (hdigest : ∃ text, getKey record "journal_digest" = .str text)
    {bodies : List (Body F)} : Accepted E isalnum (sortDict record) expectedRunId (events.map sortDict) bodies ↔
      Accepted E isalnum record expectedRunId events bodies := by
  have hsorted := fun name => @getKey_sorted F record hrec name
  have hevents : ∀ event ∈ events, wellFormed (.obj event) = true := fun event hmem =>
    wellFormed_events hrec hstored _ (List.mem_map_of_mem hmem)
  have hrepeats : Repeats E (sortDict record) (events.map sortDict) ↔ Repeats E record events := by
    refine repeats_congr hrec hevents (fun name _ => hsorted name) ?_
    rw [List.map_map]
    exact List.map_congr_left fun event hmem => getKey_sorted (hevents event hmem) "payload"
  have herase : sortKeys (.obj (eraseKey "journal_digest" (sortDict record))) =
      sortKeys (.obj (eraseKey "journal_digest" record)) := by
    rw [sortKeys_obj', sortKeys_obj', sortDict_eraseKey _ ((wellFormed_obj record).mp hrec).1]
  have hwhole : digestOf E (.obj (eraseKey "journal_digest" (sortDict record))) =
      digestOf E (.obj (eraseKey "journal_digest" record)) := by
    rw [← digestOf_sortKeys, herase, digestOf_sortKeys]
  have hnumbers : printable E.T.toFloatText false (.obj (eraseKey "journal_digest" (sortDict record))) =
      printable E.T.toFloatText false (.obj (eraseKey "journal_digest" record)) := by
    rw [← printable_sortKeys, herase, printable_sortKeys]
  have hkept : getKey (sortDict record) "replay_events" = .arr ((events.map sortDict).map .obj) := by
    rw [hsorted, hstored, sortKeys_arr, List.map_map, List.map_map]
    congr 1
    exact List.map_congr_left fun event _ => sortKeys_obj' event
  constructor
  · intro h
    have hs := h.schema
    have hm := h.mode
    have hr := h.runId
    have hc := h.count
    have hh := h.headDigest
    rw [hsorted, sortKeys_eq_str] at hs hm
    rw [hsorted] at hr hc hh
    rw [pyEq_int_sorted] at hc
    refine ⟨hs, hm, ?_, fun name hname => ?_, ?_, ?_, hstored, ?_, ?_, ?_, ?_, ?_, hnumbers ▸ h.numbers, ?_⟩
    · simpa only [sortKeys_eq_str] using hr
    · rw [← isObj_sortKeys, ← hsorted]
      exact h.mappings name hname
    · rw [← isArr_sortKeys, ← hsorted]
      exact h.evidence
    · rw [← validPaths_sortKeys, ← hsorted]
      exact h.changed
    · rw [← h.seven, List.length_map]
    · exact (chained_sorted fun event hmem => ⟨hevents event hmem, htexts event hmem⟩).mp h.chained
    · exact hc
    · exact sortKeys_eq_previousValue.mp hh
    · exact hrepeats.mp h.repeats
    · rw [← str_orEmpty_sorted hrec hdigest, h.digest, hwhole]
  · intro h
    refine ⟨?_, ?_, ?_, fun name hname => ?_, ?_, ?_, hkept, ?_, ?_, ?_, ?_, ?_, hnumbers.symm ▸ h.numbers, ?_⟩
    · rw [hsorted, h.schema, sortKeys_str]
    · rw [hsorted, h.mode, sortKeys_str]
    · rw [hsorted]
      simpa only [sortKeys_eq_str] using h.runId
    · rw [hsorted, isObj_sortKeys]
      exact h.mappings name hname
    · rw [hsorted, isArr_sortKeys]
      exact h.evidence
    · rw [hsorted, validPaths_sortKeys]
      exact h.changed
    · rw [List.length_map, h.seven]
    · exact (chained_sorted fun event hmem => ⟨hevents event hmem, htexts event hmem⟩).mpr h.chained
    · rw [hsorted, pyEq_int_sorted]
      exact h.count
    · rw [hsorted, sortKeys_eq_previousValue]
      exact h.headDigest
    · exact hrepeats.mpr h.repeats
    · rw [str_orEmpty_sorted hrec hdigest, h.digest, hwhole]

/-! ### The chain that is built -/

/-- The entries of an event of the chain. -/
theorem entries_chainedEvent (n : ℕ) (kind : String) (previous payload : Json F) (digest : String) :
    getKey (chainedEvent n kind previous payload digest) "sequence" = .int n ∧
      getKey (chainedEvent n kind previous payload digest) "kind" = .str kind ∧
      getKey (chainedEvent n kind previous payload digest) "previous_event_digest" = previous ∧
      getKey (chainedEvent n kind previous payload digest) "payload" = payload ∧
      getKey (chainedEvent n kind previous payload digest) "event_digest" = .str digest :=
  ⟨rfl, rfl, rfl, rfl, rfl⟩

theorem str_orEmpty {text : String} : E.str (orEmpty E (.str text)) = .ok text := by
  unfold orEmpty
  by_cases h : truthy E.T (.str text) = true
  · rw [if_pos h]
    exact pyStr_str ..
  · rw [if_neg h, Env.str, pyStr_str]
    have hempty : text = "" := by simpa [truthy] using h
    rw [hempty]

theorem strip_kindOf {raw : Dict F} {kind : String} (h : kindOf E raw = .ok kind) : strip kind = kind := by
  obtain ⟨text, -, h⟩ := bind_eq_ok.mp h
  rw [← Except.ok.inj h, strip_strip]

/-- An event with the entries of the builder is accepted. -/
theorem verified_of_entries {n : ℕ} {previous : Option String} {event : Dict F} {kind : String} {payload : Json F}
    (hwf : wellFormed payload = true) (hsequence : getKey event "sequence" = .int n)
    (hkind : getKey event "kind" = .str kind) (hstrip : strip kind = kind) (hne : kind ≠ "")
    (hfits : ∀ name, expectedReplayEventKinds[n]? = some name → kind = name)
    (hprevious : getKey event "previous_event_digest" = previousValue previous)
    (hpayload : getKey event "payload" = sortKeys payload) (hobject : isObj payload = true)
    (hnumbers : printable E.T.toFloatText false payload = true)
    (hdigest : getKey event "event_digest" = .str (eventHash E n previous (bodyOf kind payload hwf))) :
    Verified E n previous event (bodyOf kind payload hwf) where
  sequence := by
    rw [hsequence]
    simp [pyEq, numOf]
  kindOf := by
    rw [kindOf, hkind, str_orEmpty, bind_eq_ok]
    exact ⟨kind, rfl, congrArg Except.ok hstrip⟩
  kind_ne := hne
  kind_fits := hfits
  object := by rw [hpayload, isObj_sortKeys, hobject]
  payload := by
    rw [hpayload, sortKeys_sortKeys]
    rfl
  linked := hprevious
  numbers := by rw [hpayload, printable_sortKeys, hnumbers]
  digest := by rw [hdigest, str_orEmpty]

/-- What the builder makes of events, from number `n` on. -/
structure ChainOf (E : Env F) (n : ℕ) (previous : Option String) (events chained : List (Dict F))
    (bodies : List (Body F)) : Prop where
  accepted : Chained E n previous chained bodies
  texts : ∀ event ∈ chained, Texts event
  payloads : chained.map (getKey · "payload") = events.map fun event => sortKeys (getKey event "payload")
  last : (chained.getLast?.map fun event => getKey event "event_digest").getD (previousValue previous) =
    previousValue (head (eventHash E) n previous bodies)

/-- **The events of the builder are chained.** -/
theorem chained_built : ∀ {events : List (Dict F)} {n : ℕ} {previous : Option String} {chained : List (Dict F)},
    (∀ raw ∈ events, wellFormed (.obj raw) = true) → n + events.length < 10 ^ 9 →
    events.mapM (kindOf E) = .ok (expectedReplayEventKinds.drop n) →
    chainFrom E n (previousValue previous) events = .ok chained →
    ∃ bodies, ChainOf E n previous events chained bodies
  | [], n, previous, chained, _, _, _, h => by
    rw [chainFrom, Except.ok.injEq] at h
    subst h
    exact ⟨[], trivial, fun _ hmem => absurd hmem List.not_mem_nil, rfl, rfl⟩
  | raw :: events, n, previous, chained, hwf, hlen, hkinds, h => by
    rw [List.length_cons] at hlen
    rw [List.forall_mem_cons] at hwf
    obtain ⟨kind, rest, hkind, hne, hobject, hnumbers, hrest, rfl⟩ :=
      (chainFrom_cons_eq_ok hwf.1 (by omega) (printable_previousValue previous)).mp h
    rw [List.mapM_cons] at hkinds
    obtain ⟨kind', hkind', hkinds⟩ := bind_eq_ok.mp hkinds
    obtain ⟨kinds, htail, hkinds⟩ := bind_eq_ok.mp hkinds
    rw [hkind, Except.ok.injEq] at hkind'
    subst hkind'
    have hdrop : expectedReplayEventKinds.drop n = kind :: kinds := (Except.ok.inj hkinds).symm
    have hplace : expectedReplayEventKinds[n]? = some kind := by
      have hfirst := congrArg (fun names : List String => names[0]?) hdrop
      rwa [List.getElem?_drop, Nat.add_zero, List.getElem?_cons_zero] at hfirst
    have hkept : kinds = expectedReplayEventKinds.drop (n + 1) := by
      rw [← List.tail_drop, hdrop, List.tail_cons]
    rw [hkept] at htail
    let body := bodyOf kind (getKey raw "payload") (wellFormed_getKey hwf.1 "payload")
    obtain ⟨bodies, hrec⟩ :=
      @chained_built events (n + 1) (some (eventHash E n previous body)) rest hwf.2 (by omega) htail hrest
    obtain ⟨hsequence, hname, hprevious, hpayload, hdigest⟩ := entries_chainedEvent n kind (previousValue previous)
      (sortKeys (getKey raw "payload")) (eventHash E n previous body)
    refine ⟨body :: bodies, ⟨?_, hrec.accepted⟩, List.forall_mem_cons.mpr ⟨⟨⟨kind, hname⟩, ⟨_, hdigest⟩⟩, hrec.texts⟩,
      ?_, ?_⟩
    · refine verified_of_entries _ hsequence hname (strip_kindOf hkind) hne (fun name hexpected => ?_) hprevious hpayload
        hobject hnumbers hdigest
      rw [hplace, Option.some.injEq] at hexpected
      exact hexpected
    · rw [List.map_cons, List.map_cons, hrec.payloads]
      exact congrArg (· :: _) hpayload
    · rw [head, ← hrec.last, List.getLast?_cons]
      cases rest.getLast? with
      | none => rfl
      | some event => rfl

/-! ### The journal that is built -/

/-- An entry that is written and removed leaves the others. -/
theorem erase_written (k : String) (v : Json F) (d : Dict F) : eraseKey k (setKey k v d) = eraseKey k d := by
  unfold eraseKey
  induction d with
  | nil => simp [setKey]
  | cons p d ih =>
    by_cases hp : p.1 = k
    · simp [setKey, hp]
    · rw [setKey, if_neg hp, List.filter_cons, List.filter_cons, ih]

/-- The fields that the builder writes. -/
def writtenFields : List String :=
  ["schema_version", "replay_mode", "run_id", "replay_event_count", "replay_head_digest", "replay_events", "journal_digest"]

/-- The other fields are those of the record. -/
theorem getKey_sealedJournal {normalized : Dict F} {runId : String} {chained : List (Dict F)} {name : String}
    (h : name ∉ writtenFields) : getKey (sealedJournal E normalized runId chained) name = getKey normalized name := by
  simp only [writtenFields, List.mem_cons, List.not_mem_nil, or_false, not_or] at h
  obtain ⟨hschema, hmode, hrun, hcount, hhead, hevents, hdigest⟩ := h
  rw [sealedJournal, getKey_setKey_ne (Ne.symm hdigest), journalBody, getKey_setKey_ne (Ne.symm hevents),
    getKey_setKey_ne (Ne.symm hhead), getKey_setKey_ne (Ne.symm hcount), getKey_setKey_ne (Ne.symm hrun),
    getKey_setKey_ne (Ne.symm hmode), getKey_setKey_ne (Ne.symm hschema)]

/-- The fields of the record that are checked are not written. -/
theorem notMem_writtenFields : ∀ name ∈ "selected_evidence" :: "changed_files" :: requiredMappings,
    name ∉ writtenFields := by decide

theorem wellFormed_sealedJournal {record : Dict F} (hrec : wellFormed (.obj record) = true) (runId : String)
    {chained : List (Dict F)} (hc : ∀ event ∈ chained, wellFormed (.obj event) = true) :
    wellFormed (.obj (sealedJournal E (sortDict record) runId chained)) = true := by
  have hsorted : wellFormed (.obj (sortDict record)) = true := by
    rw [← sortKeys_obj', wellFormed_sortKeys]
    exact hrec
  have hhead : wellFormed (headDigest chained) = true :=
    @headDigest_mem F chained (fun v => wellFormed v = true) rfl fun event he => wellFormed_getKey (hc event he) _
  have hevents : wellFormed (.arr (chained.map .obj)) = true := by
    rw [wellFormed_arr, List.forall_mem_map]
    exact hc
  unfold sealedJournal journalBody
  exact wellFormed_setKey (wellFormed_setKey (wellFormed_setKey (wellFormed_setKey (wellFormed_setKey (wellFormed_setKey
    (wellFormed_setKey hsorted _ rfl) _ rfl) _ rfl) _ rfl) _ hhead) _ hevents) _ rfl

/-- The journal of a record and its events, with the events of the chain and what is hashed of them. -/
structure BuiltOf (E : Env F) (isalnum : Char → Bool) (record : Dict F) (events : List (Dict F)) (journal : Dict F)
    (runId : String) (chained : List (Dict F)) (bodies : List (Body F)) : Prop where
  recordable : Recordable E isalnum record events
  named : ∃ text, E.str (orEmpty E (getKey record "run_id")) = .ok text ∧ runId = strip text
  safe : strip runId = runId ∧ runId ≠ "" ∧ safeChars isalnum runId = runId
  chain : chainReplayEvents E events = .ok chained
  made : ChainOf E 0 none events chained bodies
  wellFormed_events : ∀ event ∈ chained, wellFormed (.obj event) = true
  printable_events : ∀ event ∈ chained, printable E.T.toFloatText false (.obj event) = true
  length : chained.length = events.length
  eq : journal = sealedJournal E (sortDict record) runId chained

theorem builtOf {record : Dict F} {events : List (Dict F)} {journal : Dict F} (hrec : wellFormed (.obj record) = true)
    (hev : ∀ raw ∈ events, wellFormed (.obj raw) = true) (h : buildReplayJournal E isalnum record events = .ok journal) :
    ∃ runId chained bodies, BuiltOf E isalnum record events journal runId chained bodies := by
  obtain ⟨hr, text, chained, htext, hchain, rfl⟩ := (build_eq_ok hrec hev).mp h
  obtain ⟨text', htext', hne, hsafe⟩ := hr.runId
  rw [htext, Except.ok.injEq] at htext'
  subst htext'
  have hlen : events.length = 7 := length_kinds hr.kinds
  obtain ⟨bodies, hmade⟩ := @chained_built F E events 0 none chained hev (by omega) hr.kinds hchain
  obtain ⟨hcl, hall⟩ := chained_ok events hev (by omega) rfl rfl hchain
  exact ⟨strip text, chained, bodies, hr, ⟨text, htext, rfl⟩, ⟨strip_strip text, hne, hsafe⟩, hchain, hmade,
    fun event he => (hall event he).2, fun event he => (hall event he).1, hcl, rfl⟩

section Built

variable {record : Dict F} {events : List (Dict F)} {journal : Dict F} {runId : String} {chained : List (Dict F)}
  {bodies : List (Body F)}

theorem BuiltOf.wellFormed_journal (hrec : wellFormed (.obj record) = true)
    (h : BuiltOf E isalnum record events journal runId chained bodies) :
    wellFormed (.obj journal) = true := by
  rw [h.eq]
  exact wellFormed_sealedJournal hrec runId h.wellFormed_events

theorem BuiltOf.stored (h : BuiltOf E isalnum record events journal runId chained bodies) :
    getKey journal "replay_events" = .arr (chained.map .obj) := by
  rw [h.eq, sealedJournal, getKey_setKey_ne (by decide), journalBody, getKey_setKey_self]

theorem BuiltOf.journalDigest (h : BuiltOf E isalnum record events journal runId chained bodies) :
    getKey journal "journal_digest" = .str (digestOf E (.obj (eraseKey "journal_digest" journal))) := by
  rw [h.eq, sealedJournal, getKey_setKey_self, erase_written]

theorem BuiltOf.run_id (h : BuiltOf E isalnum record events journal runId chained bodies) :
    getKey journal "run_id" = .str runId := by
  rw [h.eq, sealedJournal, getKey_setKey_ne (by decide), journalBody, getKey_setKey_ne (by decide),
    getKey_setKey_ne (by decide), getKey_setKey_ne (by decide), getKey_setKey_self]

/-- A field of the record that is checked, in the journal. -/
theorem BuiltOf.field (hrec : wellFormed (.obj record) = true)
    (h : BuiltOf E isalnum record events journal runId chained bodies) {name : String}
    (hname : name ∈ "selected_evidence" :: "changed_files" :: requiredMappings) :
    getKey journal name = sortKeys (getKey record name) := by
  rw [h.eq, getKey_sealedJournal (notMem_writtenFields name hname), getKey_sorted hrec]

theorem BuiltOf.repeats (hrec : wellFormed (.obj record) = true)
    (hev : ∀ raw ∈ events, wellFormed (.obj raw) = true)
    (h : BuiltOf E isalnum record events journal runId chained bodies) :
    Repeats E journal chained ↔ Repeats E record events :=
  repeats_congr hrec hev (fun name hname => h.field hrec (by revert name; decide)) h.made.payloads

theorem BuiltOf.printable_journal (h : BuiltOf E isalnum record events journal runId chained bodies) :
    printable E.T.toFloatText false (.obj journal) = true := by
  have hseven : chained.length = 7 := h.length.trans (length_kinds h.recordable.kinds)
  have hsorted : printable E.T.toFloatText false (.obj (sortDict record)) = true := by
    rw [← sortKeys_obj', printable_sortKeys]
    exact h.recordable.numbers
  rw [h.eq, sealedJournal]
  exact printable_setKey (printable_journalBody runId hsorted (by omega) h.printable_events) _ rfl

/-- **The journals of the builder that are accepted.** -/
theorem accepted_built (hrec : wellFormed (.obj record) = true)
    (hev : ∀ raw ∈ events, wellFormed (.obj raw) = true)
    (h : BuiltOf E isalnum record events journal runId chained bodies) {expectedRunId : Option String} :
    Accepted E isalnum journal expectedRunId chained bodies ↔
      (∀ expected ∈ expectedRunId, strip expected = runId) ∧ Repeats E record events := by
  rw [← h.repeats hrec hev]
  obtain ⟨hstrip, hne, hsafe⟩ := h.safe
  have hseven : chained.length = 7 := h.length.trans (length_kinds h.recordable.kinds)
  constructor
  · intro ha
    refine ⟨fun expected hexpected => ?_, ha.repeats⟩
    obtain ⟨text, htext, -, -, hsame⟩ := ha.runId
    rw [h.run_id, Json.str.injEq] at htext
    subst htext
    rw [hsame expected hexpected, hstrip]
  · rintro ⟨hexpected, hrepeats⟩
    refine ⟨?_, ?_, ⟨runId, h.run_id, ?_⟩, fun name hname => ?_, ?_, ?_, h.stored, hseven, h.made.accepted, ?_, ?_,
      hrepeats, ?_, ?_⟩
    · rw [h.eq, sealedJournal, getKey_setKey_ne (by decide), journalBody, getKey_setKey_ne (by decide),
        getKey_setKey_ne (by decide), getKey_setKey_ne (by decide), getKey_setKey_ne (by decide),
        getKey_setKey_ne (by decide), getKey_setKey_self]
    · rw [h.eq, sealedJournal, getKey_setKey_ne (by decide), journalBody, getKey_setKey_ne (by decide),
        getKey_setKey_ne (by decide), getKey_setKey_ne (by decide), getKey_setKey_ne (by decide), getKey_setKey_self]
    · rw [hstrip]
      exact ⟨hne, hsafe, hexpected⟩
    · rw [h.field hrec (List.mem_cons_of_mem _ (List.mem_cons_of_mem _ hname)), isObj_sortKeys]
      exact h.recordable.mappings name hname
    · rw [h.field hrec (by simp), isArr_sortKeys]
      exact h.recordable.evidence
    · rw [h.field hrec (by simp), validPaths_sortKeys]
      exact h.recordable.changed
    · rw [h.eq, sealedJournal, getKey_setKey_ne (by decide), journalBody, getKey_setKey_ne (by decide),
        getKey_setKey_ne (by decide), getKey_setKey_self, hseven]
      simp [pyEq, numOf, expectedReplayEventKinds]
    · rw [h.eq, sealedJournal, getKey_setKey_ne (by decide), journalBody, getKey_setKey_ne (by decide),
        getKey_setKey_self]
      exact h.made.last
    · exact printable_eraseKey h.printable_journal _
    · rw [h.journalDigest, str_orEmpty]

/-- **The journals of the builder that are accepted when they are read back.** -/
theorem accepted_read (hrec : wellFormed (.obj record) = true)
    (hev : ∀ raw ∈ events, wellFormed (.obj raw) = true)
    (h : BuiltOf E isalnum record events journal runId chained bodies) {expectedRunId : Option String} :
    Accepted E isalnum (sortDict journal) expectedRunId (chained.map sortDict) bodies ↔
      (∀ expected ∈ expectedRunId, strip expected = runId) ∧ Repeats E record events := by
  rw [accepted_sorted (h.wellFormed_journal hrec) h.stored h.made.texts ⟨_, h.journalDigest⟩]
  exact accepted_built hrec hev h

end Built

end ControlPlane.Journal.Sealed
