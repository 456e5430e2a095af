import ControlPlane.Production.Mirroring
import ControlPlane.Production.Writers
import ControlPlane.Instance

/-! # The mirror converges

A call that writes a record keeps that the records are mirrored, whatever becomes of its write to the mirror, if
the payload in memory has the digest of the one in its file (`writeRecord_mirrors`). It has, unless the metadata
of an outcome has keys whose order is not that of their texts; the records then never synchronise again
(`stuck_outcome`). Hence the mirror converges after every run of suitable calls (`mirror_converges`). -/

namespace ControlPlane.Production.Convergence

open ControlPlane.Lib.Value ControlPlane.Lib.Print ControlPlane.Lib.RoundTrip ControlPlane.Lib.Dumps
open ControlPlane.Lib.Dynamic ControlPlane.Lib.Text ControlPlane.Lib.Floats ControlPlane.Lib.Objects
open ControlPlane.Lib.Mirror
open ControlPlane.Lib.Grid ControlPlane.Environment ControlPlane.Instance
open ControlPlane.Learning.Decision hiding writeLearningDecision
open ControlPlane.Learning.Records ControlPlane.Production.Store ControlPlane.Production.Writers
open ControlPlane.Production.Mirroring

variable {F : Type} {E : Env F}

/-! ### Payloads and their files -/

variable (E) in
/-- The payload of a record: as it is written, no object has a key twice, and its generation fits. -/
structure Fit (id : String) (p : Payload F) : Prop where
  wellFormed : wellFormed (p.json E) = true
  id : getKey p.fields "decision_id" = .str id
  generation : fits (generationOf p.fields) = true

variable (E) in
/-- The entries of a payload, before they are sorted. -/
def entries (p : Payload F) : Dict F :=
  (p.fields.map fun q => (q.1, sortKeys q.2)) ++ p.metadataEntry E

theorem json_eq (p : Payload F) : p.json E = .obj (sortPairs (entries E p)) := rfl

/-- The entries of a payload: its fields and its metadata. -/
theorem mem_payload {p : Payload F} {q : String × Json F} (h : q ∈ sortPairs (entries E p)) :
    (∃ q' ∈ p.fields, q = (q'.1, sortKeys q'.2)) ∨
      ∃ metadata, p.metadata = some metadata ∧ q = ("metadata", (Val.dict metadata).json E.T) := by
  rw [(perm_sortPairs _).mem_iff, entries, List.mem_append] at h
  rcases h with h | h
  · obtain ⟨q', hq', rfl⟩ := List.mem_map.mp h
    exact Or.inl ⟨q', hq', rfl⟩
  · unfold Payload.metadataEntry at h
    split at h
    · next metadata hmetadata => exact Or.inr ⟨metadata, hmetadata, List.mem_singleton.mp h⟩
    · cases h

theorem lookup_append {k : String} {d e : Dict F} (h : k ∉ keys e) :
    lookup k (d ++ e) = lookup k d := by
  induction d with
  | nil => rw [List.nil_append, lookup_eq_none.mpr h, lookup_nil]
  | cons p d ih =>
    obtain ⟨l, v⟩ := p
    rw [List.cons_append, lookup_cons, lookup_cons, ih]

theorem metadata_of_mem {p : Payload F} {k : String} (h : k ∈ keys (p.metadataEntry E)) : k = "metadata" := by
  unfold Payload.metadataEntry at h
  split at h
  · simpa [keys] using h
  · cases h

/-- What a payload has at a key, it has in its file. -/
theorem getKey_entries {p : Payload F} (h : wellFormed (p.json E) = true) {k : String}
    (hk : k ≠ "metadata") : getKey (sortPairs (entries E p)) k = sortKeys (getKey p.fields k) := by
  rw [json_eq, wellFormed_obj, nodup_keys_sortPairs] at h
  rw [getKey, lookup_sortPairs h.1, entries, lookup_append fun hmem => hk (metadata_of_mem hmem),
    lookup_map, getKey]
  cases lookup k p.fields <;> rfl

theorem intOf_sortKeys (v : Json F) : intOf (sortKeys v) = intOf v := by
  cases v <;> simp [intOf]

theorem generationOf_entries {p : Payload F} (h : wellFormed (p.json E) = true) :
    generationOf (sortPairs (entries E p)) = generationOf p.fields := by
  have hdeployment := getKey_entries h (show "deployment" ≠ "metadata" by decide)
  have hw : wellFormed (getKey (sortPairs (entries E p)) "deployment") = true :=
    wellFormed_getKey h "deployment"
  unfold generationOf
  rw [hdeployment] at hw ⊢
  cases hd : getKey p.fields "deployment" with
  | obj deployment =>
    rw [hd, wellFormed_sortKeys, wellFormed_obj] at hw
    rw [sortKeys_obj']
    dsimp only
    rw [getKey_sortDict hw.1, intOf_sortKeys]
  | arr xs => rw [sortKeys_arr]
  | _ => rfl

/-- The file of a payload holds it. -/
theorem loads_payload {p : Payload F} (h : wellFormed (p.json E) = true) {text : String}
    (ht : fileTextOf E p = .ok text) : E.jsonLoads text = .ok (.obj (sortPairs (entries E p))) := by
  unfold fileTextOf at ht
  split_ifs at ht
  · exact jsonLoads_fileText_of E (if_neg Bool.false_ne_true) h ht
  · cases ht

theorem recorded_payload {kind id : String} (hk : kind ∈ kinds) (hid : isDecisionId id = true)
    {p : Payload F} (hp : Fit E id p) {text : String} (ht : fileTextOf E p = .ok text) :
    Recorded E (kind, id, text) := by
  have hloads := loads_payload hp.wellFormed ht
  have hcontent := content_eq E hloads
  refine ⟨hk, ⟨by rw [hcontent]; exact hloads, ?_, hid⟩, ?_⟩
  · rw [hcontent, getKey_entries hp.wellFormed (by decide), hp.id, sortKeys_str]
  · show fits (generationOf (content E text)) = true
    rw [hcontent, generationOf_entries hp.wellFormed]
    exact hp.generation

/-- **Both paths have one digest** if the payload is written with sorted keys. -/
theorem digestOf_payload {p : Payload F} (hp : wellFormed (p.json E) = true)
    (hsorted : sortKeys (p.json E) = p.json E) {text raw : String} (ht : fileTextOf E p = .ok text)
    (hraw : canonicalOf E p = .ok raw) : digestOf E text = E.sha256 raw := by
  have hcontent := content_eq E (loads_payload hp ht)
  have hsame : canonicalOf E (ofFile (content E text)) = canonicalOf E p := by
    have hjson : (ofFile (content E text)).json E = p.json E := by
      rw [json_ofFile, hcontent, ← json_eq, hsorted]
    have hw : p.writable E = true := by
      unfold canonicalOf at hraw
      split_ifs at hraw with hw
      · exact hw
      · cases hraw
    rw [canonicalOf, canonicalOf, hjson, if_pos (by rfl), if_pos hw]
  rw [digestOf, hsame, hraw]

/-! ### What a call keeps -/

theorem append_cases (kind id : String) (p : Payload F) (now : String) (store : Option (List Event)) :
    eventsOf (appendProductionEvent E kind p (some id) now store).1 = eventsOf store ∨
      ∃ e, prepareEvent E kind p (some id) now = .ok e ∧
        eventsOf (appendProductionEvent E kind p (some id) now store).1 = eventsOf store ++ [e] := by
  unfold appendProductionEvent
  cases hprepare : prepareEvent E kind p (some id) now with
  | error x => exact Or.inl rfl
  | ok e =>
    dsimp only
    unfold insertEvent
    cases (eventsOf store).find? fun e' => e'.eventId = e.eventId with
    | some e' =>
      dsimp only
      split_ifs
      · exact Or.inl rfl
      · exact Or.inl rfl
    | none =>
      dsimp only
      split_ifs
      · exact Or.inr ⟨e, rfl, rfl⟩
      · exact Or.inl rfl

/-- The write to the mirror takes place. -/
def writes : Fate → Bool
  | .unavailable _ => false
  | _ => true

/-- What a write to the mirror does: nothing, or it adds the event of the payload. -/
theorem mirror_cases (kind : String) {id : String} {p : Payload F}
    (hp : getKey p.fields "decision_id" = .str id) (hid : isDecisionId id = true) (now : String) (fate : Fate)
    (store : Option (List Event)) :
    eventsOf (mirrorLearningEvent E kind p now fate store).1 = eventsOf store ∨
      writes fate = true ∧ ∃ e, prepareEvent E kind p (some (eventIdOf kind id)) now = .ok e ∧
        eventsOf (mirrorLearningEvent E kind p now fate store).1 = eventsOf store ++ [e] := by
  obtain ⟨hstrip, hne⟩ := strip_decisionId hid
  have htext : E.strOr p.fields "decision_id" "" = .ok id := strOr_of_getKey hp _
  have happend := append_cases (E := E) kind (eventIdOf kind id) p now store
  unfold mirrorLearningEvent
  rw [htext]
  dsimp only
  rw [hstrip, if_neg hne]
  cases fate with
  | unavailable created =>
    left
    dsimp only
    split_ifs
    · rfl
    · rfl
  | done =>
    dsimp only
    generalize appendProductionEvent E kind p (some (eventIdOf kind id)) now store = r at happend ⊢
    obtain ⟨store', result⟩ := r
    cases result with
    | ok new => exact happend.imp_right fun h => ⟨rfl, h⟩
    | error x => exact happend.imp_right fun h => ⟨rfl, h⟩
  | lost =>
    dsimp only
    generalize appendProductionEvent E kind p (some (eventIdOf kind id)) now store = r at happend ⊢
    obtain ⟨store', result⟩ := r
    cases result with
    | ok new => exact happend.imp_right fun h => ⟨rfl, h⟩
    | error x => exact happend.imp_right fun h => ⟨rfl, h⟩

theorem createFile_eq_ok {log log' : Log} {id : String} {p : Payload F} {w : WriteOutcome} {ok : Bool}
    (h : createFile E log id p w = .ok (log', ok)) : (log' = log ∧ ok = false) ∨
      ∃ text, log' = log ++ [(id, text)] ∧ isDecisionId id = true ∧ id ∉ log.map Prod.fst ∧
        fileTextOf E p = .ok text := by
  unfold createFile at h
  simp only [bind_eq_ok, require_eq_ok] at h
  obtain ⟨-, hid, text, ht, h⟩ := h
  split_ifs at h with hc
  · cases h
    exact Or.inl ⟨rfl, rfl⟩
  · have hn : id ∉ log.map Prod.fst := by simpa using hc
    cases w <;> cases h
    · exact Or.inr ⟨text, rfl, hid, hn, ht⟩
    · exact Or.inr ⟨text, rfl, hid, hn, ht⟩
    · exact Or.inl ⟨rfl, rfl⟩

/-- The files of one kind. -/
def filesOf (kind : String) (log : Log) : List RecordFile := log.map (kind, ·)

/-- A name that no file of its kind has. -/
theorem nameOf_new (text : String) {kind id : String} {log : Log} (hnew : id ∉ log.map Prod.fst)
    {rest : List RecordFile} (hrest : ∀ file ∈ rest, file.1 ≠ kind) :
    nameOf (kind, id, text) ∉ (filesOf kind log ++ rest).map nameOf := by
  intro hmem
  obtain ⟨file, hfile, heq⟩ := List.mem_map.mp hmem
  obtain ⟨hkind, hid⟩ := Prod.mk.inj heq
  rcases List.mem_append.mp hfile with hfile | hfile
  · obtain ⟨file', hfile', rfl⟩ := List.mem_map.mp hfile
    exact hnew (List.mem_map.mpr ⟨file', hfile', hid⟩)
  · exact hrest file hfile hkind

/-- The files of a kind after one was created. -/
theorem filesOf_append (kind id text : String) (log : Log) (rest : List RecordFile) :
    ((kind, id, text) :: (filesOf kind log ++ rest)).Perm (filesOf kind (log ++ [(id, text)]) ++ rest) := by
  rw [filesOf, filesOf, List.map_append, List.append_assoc]
  exact List.perm_middle.symm

/-- **Writing a record keeps** that the records are mirrored, if its file and its event have one digest. -/
theorem writeRecord_mirrors {kind id : String} (hk : kind ∈ kinds) {p : Payload F} (hp : Fit E id p)
    {g : Platform} (hsorted : writes g.fate = true → sortKeys (p.json E) = p.json E) {log : Log}
    {rest : List RecordFile} (hrest : ∀ file ∈ rest, file.1 ≠ kind) {store : Option (List Event)}
    (h : Mirrors E (filesOf kind log ++ rest) (eventsOf store)) :
    Mirrors E (filesOf kind (writeRecord E kind id p g log store).1 ++ rest)
      (eventsOf (writeRecord E kind id p g log store).2.1) := by
  unfold writeRecord
  cases hcreate : createFile E log id p g.write with
  | error x => exact h
  | ok r =>
    obtain ⟨log', ok⟩ := r
    rcases createFile_eq_ok hcreate with ⟨rfl, rfl⟩ | ⟨text, rfl, hid, hnew, htext⟩
    · exact h
    · have hname := nameOf_new text hnew hrest
      have hrecorded := recorded_payload hk hid hp htext
      have hperm := filesOf_append kind id text log rest
      have hfile := (mirrors_cons h hname hrecorded [] (by simp)).perm hperm
      rw [List.append_nil] at hfile
      cases ok with
      | false => exact hfile
      | true =>
        dsimp only
        rcases mirror_cases kind hp.id hid g.now g.fate store with
          hsame | ⟨hwrites, e, hprepare, hadd⟩
        · rw [hsame]
          exact hfile
        · obtain ⟨htype, heid, raw, hraw, hsha⟩ := prepareEvent_eq_ok hk hid hprepare
          have hdigest := digestOf_payload hp.wellFormed (hsorted hwrites) htext hraw
          have hevent : EventOf E (kind, id, text) e := by
            refine ⟨htype, Prod.ext heid ?_⟩
            show e.payloadSha256 = digestOf E text
            rw [hsha, hdigest]
          rw [hadd]
          exact (mirrors_cons h hname hrecorded [e] (by simpa using hevent)).perm hperm

/-! ### Runs -/

/-- A call whose record can be mirrored from its file as from memory: the generation of a decision fits into a
column, and the keys of an outcome's metadata have the order of their texts, if it is written to the mirror. -/
def Suitable : Command F → Prop
  | .decision d _ => fits (generationOf d.1.toDict) = true
  | .observation _ _ => True
  | .outcome c g => wellFormed ((Val.dict c.metadata).json E.T) = true ∧
    (writes g.fate = true → (Val.dict c.metadata).aligned E.T = true)

variable (E) in
def Mirrored (l : Learning) : Prop := Mirrors E l.files (eventsOf l.store)

theorem files_perm (l : Learning) : l.files.Perm
    (filesOf "decision" l.decisions ++ (filesOf "observation" l.observations ++ filesOf "outcome" l.outcomes)) := by
  have hsorted : ∀ kind log, ((sortedFiles log).map ((kind : String), ·)).Perm (filesOf kind log) :=
    fun kind log => (List.perm_insertionSort _ _).map _
  rw [Learning.files, List.append_assoc]
  exact (hsorted _ _).append ((hsorted _ _).append (hsorted _ _))

theorem mem_filesOf {kind : String} {log : Log} {file : RecordFile} (h : file ∈ filesOf kind log) :
    file.1 = kind := by
  obtain ⟨file', -, rfl⟩ := List.mem_map.mp h
  rfl

theorem wellFormed_ofFile {d : Dict F} (h : wellFormed (.obj d) = true) :
    wellFormed ((ofFile d).json E) = true := by
  rwa [json_ofFile, wellFormed_sortKeys]

theorem sorted_ofFile (d : Dict F) : sortKeys ((ofFile d).json E) = (ofFile d).json E := by
  rw [json_ofFile, sortKeys_sortKeys]

theorem fit_decision (d : ProperDecision F) (h : fits (generationOf (d.1.toDict : Dict F)) = true) :
    Fit E d.1.decisionId (ofFile d.1.toDict) :=
  ⟨wellFormed_ofFile (wellFormed_toDict d.2), rfl, h⟩

theorem fit_observation (o : Observation F) (now : String) : Fit E o.decisionId (o.payload E now) := by
  refine ⟨wellFormed_ofFile ?_, rfl, rfl⟩
  rw [wellFormed_obj]
  refine ⟨?_, by simp⟩
  show (["decision_id", "observed_at", "elapsed_ms", "used_chars", "fallback_count", "sufficiency_score",
    "evidence_state"] : List String).Nodup
  decide

/-- The payload of an outcome is written with sorted keys if its metadata is. -/
theorem sorted_outcome {p : Payload F} {metadata : List (ObjKey F × Val F)} (hp : p.metadata = some metadata)
    (h : sortKeys ((Val.dict metadata).json E.T) = (Val.dict metadata).json E.T) :
    sortKeys (p.json E) = p.json E := by
  have hvalues : (sortPairs (entries E p)).map (fun q => (q.1, sortKeys q.2)) = sortPairs (entries E p) := by
    refine (List.map_congr_left fun q hq => ?_).trans (List.map_id _)
    rcases mem_payload hq with ⟨q', -, rfl⟩ | ⟨metadata', hmetadata, rfl⟩
    · exact Prod.ext rfl (sortKeys_sortKeys _)
    · rw [hp] at hmetadata
      rw [← Option.some_inj.mp hmetadata]
      exact Prod.ext rfl h
  have hfixed : sortPairs (sortPairs (entries E p)) = sortPairs (entries E p) :=
    sortPairs_of_sorted (List.pairwise_insertionSort _ _)
  rw [json_eq, sortKeys_obj, hvalues, hfixed]

/-- What the payload of an outcome is made of. -/
theorem outcomePayload_eq_ok {m : Machine F} {decisions : Log} {c : OutcomeCall F} {now : String}
    {p : Payload F} (hp : outcomePayload E m decisions c now = .ok p) :
    isDecisionId c.decisionId = true ∧ ∃ evidence createdAt, p = c.payload E m evidence createdAt now := by
  unfold outcomePayload at hp
  obtain ⟨record, hrecord, hp⟩ := bind_eq_ok.mp hp
  obtain ⟨evidence, -, hp⟩ := bind_eq_ok.mp hp
  obtain ⟨createdAt, -, hp⟩ := bind_eq_ok.mp hp
  unfold decisionRecord at hrecord
  simp only [bind_eq_ok, require_eq_ok] at hrecord
  obtain ⟨-, hid, -⟩ := hrecord
  exact ⟨hid, evidence, strip createdAt, (Except.ok.inj hp).symm⟩

theorem fit_outcome (m : Machine F) (c : OutcomeCall F) (evidence : VerifiedOutcomeEvidence F)
    (createdAt now : String) (h : wellFormed ((Val.dict c.metadata).json E.T) = true) :
    Fit E c.decisionId (c.payload E m evidence createdAt now) := by
  refine ⟨?_, rfl, rfl⟩
  rw [json_eq, wellFormed_obj, nodup_keys_sortPairs]
  refine ⟨?_, fun q hq => ?_⟩
  · show (["decision_id", "verified", "success", "reward", "realized_cost", "source", "verifier_identity",
      "evidence_digest", "recorded_at", "decision_created_at", "verification_delay_seconds",
      "metadata"] : List String).Nodup
    decide
  · rcases mem_payload hq with ⟨q', hq', rfl⟩ | ⟨metadata, hmetadata, rfl⟩
    · rw [wellFormed_sortKeys]
      simp only [OutcomeCall.payload, List.mem_cons, List.not_mem_nil, or_false] at hq'
      rcases hq' with rfl | rfl | rfl | rfl | rfl | rfl | rfl | rfl | rfl | rfl | rfl
      all_goals try rfl
      · dsimp only
        split_ifs <;> rfl
      · dsimp only
        split <;> rfl
    · rwa [← Option.some_inj.mp hmetadata]

/-- The files with those of observations first. -/
theorem observations_first (l : Learning) : l.files.Perm
    (filesOf "observation" l.observations ++ (filesOf "decision" l.decisions ++ filesOf "outcome" l.outcomes)) :=
  (files_perm l).trans (List.perm_append_comm_assoc _ _ _)

/-- The files with those of outcomes first. -/
theorem outcomes_first (l : Learning) : l.files.Perm
    (filesOf "outcome" l.outcomes ++ (filesOf "decision" l.decisions ++ filesOf "observation" l.observations)) := by
  have hperm := files_perm l
  rw [← List.append_assoc] at hperm
  exact hperm.trans List.perm_append_comm

/-- Files of two other kinds. -/
theorem kind_ne {kind kind1 kind2 : String} (h1 : kind1 ≠ kind) (h2 : kind2 ≠ kind) {log1 log2 : Log} :
    ∀ file ∈ filesOf kind1 log1 ++ filesOf kind2 log2, file.1 ≠ kind := by
  intro file hfile
  rcases List.mem_append.mp hfile with hf | hf
  · rwa [mem_filesOf hf]
  · rwa [mem_filesOf hf]

/-- **What a suitable call keeps.** -/
theorem mirrored_step (m : Machine F) {l : Learning} {c : Command F} (h : Mirrored E l)
    (hc : Suitable (E := E) c) : Mirrored E (step E m l c).1 := by
  cases c with
  | decision d g =>
    refine Mirrors.perm (files_perm _).symm ?_
    exact writeRecord_mirrors (by decide) (fit_decision d hc) (fun _ => sorted_ofFile _)
      (kind_ne (by decide) (by decide)) (Mirrors.perm (files_perm l) h)
  | observation o g =>
    refine Mirrors.perm (observations_first _).symm ?_
    exact writeRecord_mirrors (by decide) (fit_observation o g.now) (fun _ => sorted_ofFile _)
      (kind_ne (by decide) (by decide)) (Mirrors.perm (observations_first l) h)
  | outcome c g =>
    show Mirrored E (recordVerifiedOutcome E m c g l).1
    unfold recordVerifiedOutcome
    cases hp : outcomePayload E m l.decisions c g.now with
    | error x => exact h
    | ok p =>
      obtain ⟨-, evidence, createdAt, rfl⟩ := outcomePayload_eq_ok hp
      refine Mirrors.perm (outcomes_first _).symm ?_
      exact writeRecord_mirrors (by decide) (fit_outcome m c evidence createdAt g.now hc.1)
        (fun hw => sorted_outcome rfl (aligned_json E.T _ (hc.2 hw)).sorted)
        (kind_ne (by decide) (by decide)) (Mirrors.perm (outcomes_first l) h)

/-- The records of a project that has none. -/
def noRecords : Learning := ⟨[], [], [], none⟩

theorem mirrored_noRecords : Mirrored E noRecords :=
  ⟨List.nodup_nil, fun _ hf => (List.not_mem_nil hf).elim, fun _ he => (List.not_mem_nil he).elim⟩

/-- **The mirror converges** after every run of suitable calls, whichever of its writes fail, if a record or the
store was created. -/
theorem mirror_converges (m : Machine F) {cs : List (Command F)} (hcs : ∀ c ∈ cs, Suitable (E := E) c)
    (hone : (after E m noRecords cs).files ≠ [] ∨ (after E m noRecords cs).store.isSome = true) :
    Converges E (after E m noRecords cs) :=
  converges_of_mirrors (after_induct E (fun _ _ h hc => mirrored_step m h hc) mirrored_noRecords hcs) hone

/-! ### Records that never synchronise -/

/-- An outcome has a text if its metadata has. -/
theorem printable_outcome (m : Machine F) (c : OutcomeCall F) (evidence : VerifiedOutcomeEvidence F)
    (createdAt now : String) (h : printable E.T.toFloatText true ((Val.dict c.metadata).json E.T) = true) :
    printable E.T.toFloatText true (.obj (c.payload E m evidence createdAt now).fields) = true ∧
      printable E.T.toFloatText true ((c.payload E m evidence createdAt now).json E) = true := by
  have hfields : ∀ q ∈ (c.payload E m evidence createdAt now).fields,
      printable E.T.toFloatText true q.2 = true := by
    intro q hq
    simp only [OutcomeCall.payload, List.mem_cons, List.not_mem_nil, or_false] at hq
    rcases hq with rfl | rfl | rfl | rfl | rfl | rfl | rfl | rfl | rfl | rfl | rfl
    all_goals try rfl
    · dsimp only
      split_ifs <;> rfl
    · dsimp only
      split
      · rfl
      · rfl
  refine ⟨(printable_obj _ _).mpr hfields, ?_⟩
  rw [json_eq, printable_obj]
  intro q hq
  rcases mem_payload hq with ⟨q', hq', rfl⟩ | ⟨metadata, hmetadata, rfl⟩
  · rw [printable_sortKeys]
    exact hfields q' hq'
  · rwa [← Option.some_inj.mp hmetadata]

/-- **A payload whose keys are not sorted** has another digest in its file. -/
theorem digestOf_ne (hinj : Function.Injective E.sha256) {p : Payload F} (hp : wellFormed (p.json E) = true)
    (hunsorted : sortKeys (p.json E) ≠ p.json E) {text raw : String} (ht : fileTextOf E p = .ok text)
    (hraw : canonicalOf E p = .ok raw) : E.sha256 raw ≠ digestOf E text := by
  have hcontent := content_eq E (loads_payload hp ht)
  have hprint := printable_jsonLoads E (loads_payload hp ht)
  obtain ⟨raw', hraw'⟩ := canonicalOf_ok hprint
  intro heq
  rw [digestOf, hcontent, hraw'] at heq
  have hsame := hinj heq
  subst hsame
  unfold canonicalOf at hraw hraw'
  rw [json_ofFile, ← json_eq, if_pos (by rfl)] at hraw'
  split_ifs at hraw with hw
  · obtain ⟨-, htext⟩ := (jsonDumps_eq_ok E.T).mp hraw
    obtain ⟨-, htext'⟩ := (jsonDumps_eq_ok E.T).mp hraw'
    have hprinted := String.ofList_inj.mp (htext.symm.trans htext')
    exact hunsorted (print_injective hp (by rwa [wellFormed_sortKeys]) hprinted).symm
  · cases hraw

/-- The files of a payload whose metadata is not sorted are not either. -/
theorem unsorted_payload {p : Payload F} (hp : wellFormed (p.json E) = true)
    {metadata : List (ObjKey F × Val F)} (hmetadata : p.metadata = some metadata)
    (h : sortKeys ((Val.dict metadata).json E.T) ≠ (Val.dict metadata).json E.T) :
    sortKeys (p.json E) ≠ p.json E := by
  intro heq
  rw [json_eq] at heq hp
  have hkeys := ((wellFormed_obj _).mp hp).1
  have hmem : ("metadata", (Val.dict metadata).json E.T) ∈ sortPairs (entries E p) := by
    rw [(perm_sortPairs _).mem_iff, entries, Payload.metadataEntry, hmetadata]
    simp
  have hlook : getKey (sortPairs (entries E p)) "metadata" = (Val.dict metadata).json E.T := by
    rw [getKey, lookup_of_mem hkeys hmem, Option.getD_some]
  rw [sortKeys_obj', Json.obj.injEq] at heq
  have hsorted := getKey_sortDict hkeys "metadata"
  rw [heq, hlook] at hsorted
  exact h hsorted.symm

theorem createFile_written (log : Log) {id : String} {p : Payload F} (hid : isDecisionId id = true)
    {text : String} (ht : fileTextOf E p = .ok text) (hnew : id ∉ log.map Prod.fst) :
    createFile E log id p .written = .ok (log ++ [(id, text)], true) := by
  have hc : (log.map Prod.fst).contains id = false := by simpa using hnew
  unfold createFile
  simp only [require, hid, ht, hc, if_true, bind, Except.bind]
  rfl

/-- Filling raises if the store has another digest than a file calls for. -/
theorem stuck_of_differs {files : List RecordFile} (hfiles : ∀ file ∈ files, Recorded E file)
    {store : Option (List Event)} {file : RecordFile} (hmem : file ∈ files) {digest : String}
    (hfind : ((eventsOf store).map pairOf).find? (fun p => p.1 = (entryOf E file).1) =
      some ((entryOf E file).1, digest)) (hne : digest ≠ (entryOf E file).2) (now : String) (c : Counters) :
    ∃ store' x, syncFiles E now files store c = (store', .error x) := by
  have hsync := syncFiles_putAll now store c hfiles
  cases hall : putAll (files.map (entryOf E)) ((eventsOf store).map pairOf) with
  | none =>
    rw [hall] at hsync
    exact hsync
  | some r =>
    have hin : ((entryOf E file).1, (entryOf E file).2) ∈ files.map (entryOf E) :=
      List.mem_map.mpr ⟨file, hmem, rfl⟩
    exact absurd (agrees_of_putAll hall hin hfind) hne

/-- The event of a new file is not in the store. -/
theorem find_new {files : List RecordFile} {events : List Event} (h : Mirrors E files events)
    (file : RecordFile) (hid : isDecisionId file.2.1 = true) (hnew : nameOf file ∉ files.map nameOf) :
    events.find? (fun e => e.eventId = (entryOf E file).1) = none := by
  rw [List.find?_eq_none]
  intro e he heq
  obtain ⟨file', hfile', hevent⟩ := h.events e he
  have hsame : (entryOf E file').1 = (entryOf E file).1 :=
    (congrArg Prod.fst hevent.pair).symm.trans (of_decide_eq_true heq)
  obtain ⟨hkind, hname⟩ := eventIdOf_inj (h.recorded file' hfile').holds.isId hid hsame
  exact hnew (List.mem_map.mpr ⟨file', hfile', Prod.ext hkind hname⟩)

/-- A new event is mirrored. -/
theorem mirror_done (store : Option (List Event)) {kind id : String} {p : Payload F}
    (hp : getKey p.fields "decision_id" = .str id) (hid : isDecisionId id = true) {now : String} {e : Event}
    (he : prepareEvent E kind p (some (eventIdOf kind id)) now = .ok e)
    (hnew : (eventsOf store).find? (fun e' => e'.eventId = e.eventId) = none)
    (hfits : fits e.stateGeneration = true) :
    mirrorLearningEvent E kind p now .done store = (some (eventsOf store ++ [e]), .ok true) := by
  obtain ⟨hstrip, hne⟩ := strip_decisionId hid
  have htext : E.strOr p.fields "decision_id" "" = .ok id := strOr_of_getKey hp _
  have happend : appendProductionEvent E kind p (some (eventIdOf kind id)) now store =
      (some (eventsOf store ++ [e]), .ok true) := by
    rw [appendProductionEvent, he]
    dsimp only
    rw [insertEvent, hnew]
    dsimp only
    rw [if_pos hfits]
  unfold mirrorLearningEvent
  rw [htext]
  dsimp only
  rw [hstrip, if_neg hne, happend]

/-- **An outcome whose metadata is not sorted by texts**, once it is created and mirrored, keeps the records from
being synchronised. -/
theorem stuck_outcome (hinj : Function.Injective E.sha256) {m : Machine F} {l : Learning} (h : Mirrored E l)
    {c : OutcomeCall F} {g : Platform} (hw : g.write = .written) (hf : g.fate = .done)
    (haccepted : ∃ p, outcomePayload E m l.decisions c g.now = .ok p)
    (hnew : c.decisionId ∉ l.outcomes.map Prod.fst)
    (hwritable : (Val.dict c.metadata).writable E.T = true)
    (hprint : printable E.T.toFloatText true ((Val.dict c.metadata).json E.T) = true)
    (hwell : wellFormed ((Val.dict c.metadata).json E.T) = true)
    (hunsorted : sortKeys ((Val.dict c.metadata).json E.T) ≠ (Val.dict c.metadata).json E.T) (now : String) :
    ∃ x, (syncLearningStore E now (recordVerifiedOutcome E m c g l).1).2 = .error x := by
  obtain ⟨p, hp⟩ := haccepted
  obtain ⟨hid, evidence, createdAt, heq⟩ := outcomePayload_eq_ok hp
  have hfit : Fit E c.decisionId p := heq ▸ fit_outcome m c evidence createdAt g.now hwell
  obtain ⟨hfields, hjson⟩ : printable E.T.toFloatText true (.obj p.fields) = true ∧
      printable E.T.toFloatText true (p.json E) = true :=
    heq ▸ printable_outcome m c evidence createdAt g.now hprint
  have hmetadata : p.metadata = some c.metadata := heq ▸ rfl
  have hpw : p.writable E = true := by
    rw [Payload.writable, hmetadata]
    exact hwritable
  obtain ⟨text, ht⟩ : ∃ text, fileTextOf E p = .ok text := by
    rw [fileTextOf, if_pos hpw]
    exact fileText_false_eq_ok E hjson
  obtain ⟨raw, hraw⟩ : ∃ raw, canonicalOf E p = .ok raw := by
    rw [canonicalOf, if_pos hpw]
    exact ⟨_, (jsonDumps_eq_ok E.T).mpr ⟨hjson, rfl⟩⟩
  have hkind : "outcome" ∈ kinds := by decide
  obtain ⟨e, he, hgeneration⟩ := prepareEvent_ok c.decisionId hkind hfields hraw g.now
  obtain ⟨-, heid, raw', hraw', hsha⟩ := prepareEvent_eq_ok hkind hid he
  obtain rfl := Except.ok.inj (hraw.symm.trans hraw')
  have hname : nameOf ("outcome", c.decisionId, text) ∉ l.files.map nameOf := by
    rw [((outcomes_first l).map nameOf).mem_iff]
    exact nameOf_new text hnew (kind_ne (by decide) (by decide))
  have hnone := find_new h ("outcome", c.decisionId, text) hid hname
  have hmirror := mirror_done l.store hfit.id hid he (by rw [heid]; exact hnone)
    (by rw [hgeneration]; exact hfit.generation)
  have hresult : (recordVerifiedOutcome E m c g l).1 = { l with
      outcomes := l.outcomes ++ [(c.decisionId, text)], store := some (eventsOf l.store ++ [e]) } := by
    unfold recordVerifiedOutcome writeRecord
    rw [hp, hw, hf]
    dsimp only
    rw [createFile_written _ hid ht hnew]
    dsimp only
    rw [hmirror]
  set l' : Learning := { l with
    outcomes := l.outcomes ++ [(c.decisionId, text)], store := some (eventsOf l.store ++ [e]) }
  have hperm : (("outcome", c.decisionId, text) :: l.files).Perm l'.files := by
    exact ((List.Perm.cons _ (outcomes_first l)).trans (filesOf_append _ _ _ _ _)).trans
      (outcomes_first l').symm
  have hrecorded : ∀ file ∈ l'.files, Recorded E file := by
    intro file hfile
    rcases List.mem_cons.mp (hperm.mem_iff.mpr hfile) with rfl | hfile
    · exact recorded_payload (by decide) hid hfit ht
    · exact h.recorded file hfile
  have hfind : ((eventsOf l'.store).map pairOf).find?
      (fun q => q.1 = (entryOf E ("outcome", c.decisionId, text)).1) =
        some ((entryOf E ("outcome", c.decisionId, text)).1, E.sha256 raw) := by
    rw [find_pairOf]
    show (List.find? _ (eventsOf l.store ++ [e])).map pairOf = _
    have hid' : decide (e.eventId = (entryOf E ("outcome", c.decisionId, text)).1) = true := decide_eq_true heid
    rw [List.find?_append, hnone, Option.none_or, List.find?_singleton, if_pos hid', Option.map_some, pairOf,
      heid, hsha]
    rfl
  obtain ⟨store', x, hsync⟩ := stuck_of_differs hrecorded (hperm.mem_iff.mp (List.mem_cons_self ..)) hfind
    (digestOf_ne hinj hfit.wellFormed (unsorted_payload hfit.wellFormed hmetadata hunsorted) ht hraw)
    now ⟨0, 0, 0, 0⟩
  exact ⟨x, by rw [hresult, syncLearningStore, hsync]⟩

/-! ### Two runs -/

def exampleId : String := "0123456789abcdef0123456789abcdef"

/-- A decision of the baseline. -/
def exampleDecision : LearningDecision Cell where
  decisionId := exampleId
  policyVersion := "safe-epsilon-v1"
  mode := "observe"
  baselineArm := baselineArm
  eligibleArms := [baselineArm]
  chosenArm := baselineArm
  chosenPropensity := Cell.one
  armPropensities := [(baselineArm, .float Cell.one)]
  explorationProbability := Cell.zero
  explored := false
  safetyReason := "observe_only"
  lane := "direct"
  risk := "low"
  intent := "lookup"
  taskFingerprint := "00"
  featureSchemaVersion := "1"
  contextFeatures := ⟨"direct", "low", "lookup", "short", "none", "one"⟩
  createdAt := "2026-09-01T00:00:00+00:00"
  deployment := none

theorem proper_exampleDecision : Proper exampleDecision :=
  ⟨by decide +kernel, fun e he => by cases he⟩

/-- An outcome with metadata. -/
def exampleOutcome (metadata : List (ObjKey Cell × Val Cell)) : OutcomeCall Cell where
  decisionId := exampleId
  success := true
  source := "local:test-suite"
  verifierIdentity := "pytest"
  evidenceDigest := "sha256:" ++ String.ofList (List.replicate 64 '0')
  reward := none
  realizedCost := Cell.zero
  metadata := metadata

def exampleMachine : Machine Cell := ⟨[], fun _ _ => none⟩

/-- A call at which the file is written. -/
def calm (fate : Fate) : Platform := ⟨"2026-09-02T00:00:00+00:00", .written, fate⟩

/-- A decision, which is not mirrored, and its outcome, which is. -/
def exampleRun (metadata : List (ObjKey Cell × Val Cell)) : List (Command Cell) :=
  [.decision ⟨exampleDecision, proper_exampleDecision⟩ (calm (.unavailable false)),
    .outcome (exampleOutcome metadata) (calm .done)]

/-- The records after the decision. -/
def decided (text : String) : Learning := ⟨[(exampleId, text)], [], [], none⟩

theorem decided_eq : ∃ text,
    (step platform exampleMachine noRecords
      (.decision ⟨exampleDecision, proper_exampleDecision⟩ (calm (.unavailable false)))).1 = decided text ∧
    fileTextOf platform (ofFile exampleDecision.toDict) = .ok text := by
  obtain ⟨text, ht⟩ : ∃ text, fileTextOf platform (ofFile exampleDecision.toDict) = .ok text := by
    rw [fileTextOf, if_pos (by rfl)]
    exact fileText_false_eq_ok platform (by decide +kernel)
  refine ⟨text, ?_, ht⟩
  have hid : isDecisionId exampleDecision.decisionId = true := by decide +kernel
  have hcreate := createFile_written [] hid ht (by simp)
  have hstr : platform.strOr (exampleDecision.toDict : Dict Cell) "decision_id" "" = .ok exampleId := rfl
  show (writeLearningDecision platform exampleDecision (calm (.unavailable false)) noRecords).1 = _
  unfold writeLearningDecision writeRecord
  rw [calm, noRecords]
  dsimp only
  rw [hcreate]
  dsimp only
  unfold mirrorLearningEvent ofFile
  rw [hstr]
  rfl

theorem outcome_accepted (metadata : List (ObjKey Cell × Val Cell)) {text : String}
    (ht : fileTextOf platform (ofFile exampleDecision.toDict) = .ok text) (now : String) :
    ∃ p, outcomePayload platform exampleMachine [(exampleId, text)] (exampleOutcome metadata) now = .ok p := by
  have hwell : wellFormed ((ofFile exampleDecision.toDict).json platform) = true :=
    wellFormed_ofFile (wellFormed_toDict proper_exampleDecision)
  have hloads := loads_payload hwell ht
  obtain ⟨createdAt, hcreated⟩ := strOr_ok (printable_jsonLoads platform hloads) "created_at" ""
  have hrecord : decisionRecord platform [(exampleId, text)] exampleId =
      .ok (sortPairs (entries platform (ofFile exampleDecision.toDict))) := by
    have hid : isDecisionId exampleId = true := by decide +kernel
    unfold decisionRecord
    rw [hid, List.lookup_cons_self]
    simp only [require, if_true, bind, Except.bind, hloads]
  obtain ⟨evidence, hevidence⟩ := isOk_iff.mp
    (show (validateVerifiedOutcome platform [] "local:test-suite" "pytest"
      ("sha256:" ++ String.ofList (List.replicate 64 '0')) (platform.T.ofRat 1) Cell.zero).isOk = true by
        decide +kernel)
  have hvalue : validateVerifiedOutcome platform exampleMachine.extraSources (exampleOutcome metadata).source
      (exampleOutcome metadata).verifierIdentity (exampleOutcome metadata).evidenceDigest
      ((exampleOutcome metadata).reward.getD (platform.T.ofRat (if (exampleOutcome metadata).success then 1 else 0)))
      (exampleOutcome metadata).realizedCost = .ok evidence := hevidence
  have hid : (exampleOutcome metadata).decisionId = exampleId := rfl
  unfold outcomePayload
  rw [hid, hrecord]
  dsimp only [bind, Except.bind]
  rw [hvalue]
  dsimp only
  rw [hcreated]
  exact ⟨_, rfl⟩

/-- Metadata whose keys are numbers. -/
def numbered : List (ObjKey Cell × Val Cell) := [(.int 2, .str "a"), (.int 10, .str "b")]

/-- Metadata whose keys are texts. -/
def named : List (ObjKey Cell × Val Cell) := [(.str "suite", .str "unit"), (.str "runs", .int 2)]

/-- The run, after its decision. -/
theorem exampleRun_eq (metadata : List (ObjKey Cell × Val Cell)) : ∃ text,
    after platform exampleMachine noRecords (exampleRun metadata) =
      (recordVerifiedOutcome platform exampleMachine (exampleOutcome metadata) (calm .done) (decided text)).1 ∧
    Mirrored platform (decided text) ∧
    fileTextOf platform (ofFile exampleDecision.toDict) = .ok text := by
  obtain ⟨text, hdecided, ht⟩ := decided_eq
  refine ⟨text, ?_, ?_, ht⟩
  · rw [exampleRun, after, hdecided]
    rfl
  · rw [← hdecided]
    exact mirrored_step exampleMachine mirrored_noRecords (show fits none = true from rfl)

/-- The file of a decision stays. -/
theorem files_ne {m : Machine F} {c : OutcomeCall F} {g : Platform} {l : Learning} (h : l.decisions ≠ []) :
    (recordVerifiedOutcome E m c g l).1.files ≠ [] := by
  have hkept : (recordVerifiedOutcome E m c g l).1.decisions = l.decisions := by
    unfold recordVerifiedOutcome
    cases outcomePayload E m l.decisions c g.now <;> rfl
  intro hnil
  have hperm := files_perm (recordVerifiedOutcome E m c g l).1
  rw [hnil, hkept] at hperm
  have happend := List.append_eq_nil_iff.mp hperm.nil_eq.symm
  exact h (List.map_eq_nil_iff.mp happend.1)

/-- An outcome whose metadata has texts as keys. -/
theorem mirror_converges_named :
    Converges platform (after platform exampleMachine noRecords (exampleRun named)) := by
  refine mirror_converges exampleMachine (fun c hc => ?_) (Or.inl ?_)
  · rcases List.mem_cons.mp hc with rfl | hc
    · rfl
    · rw [List.mem_singleton.mp hc]
      exact ⟨by decide +kernel, fun _ => by decide +kernel⟩
  · obtain ⟨text, hrun, -, -⟩ := exampleRun_eq named
    rw [hrun]
    exact files_ne (List.cons_ne_nil _ _)

/-- An outcome whose metadata has the keys 2 and 10: its text has "10" first when it is read again. -/
theorem numbered_stuck : ¬ ∀ (m : Machine Cell) (cs : List (Command Cell)),
    (∀ c g, .outcome c g ∈ cs → (Val.dict c.metadata).writable platform.T = true) →
    (after platform m noRecords cs).files ≠ [] → Converges platform (after platform m noRecords cs) := by
  intro hall
  obtain ⟨text, hrun, hmirrored, ht⟩ := exampleRun_eq numbered
  have hconverges := hall exampleMachine (exampleRun numbered) (fun c g hc => ?_) ?_
  · obtain ⟨x, hx⟩ := stuck_outcome digest_injective hmirrored (c := exampleOutcome numbered) (g := calm .done)
      rfl rfl (outcome_accepted numbered ht _) (by simp [decided]) (by decide +kernel) (by decide +kernel)
      (by decide +kernel) (by decide +kernel) ""
    obtain ⟨l', c, l'', c', report, hsync, -⟩ := hconverges "" ""
    rw [hrun] at hsync
    rw [hsync] at hx
    cases hx
  · have hwritable : (Val.dict numbered).writable platform.T = true := by decide +kernel
    rcases List.mem_cons.mp hc with hc | hc
    · cases hc
    · cases List.mem_singleton.mp hc
      exact hwritable
  · rw [hrun]
    exact files_ne (List.cons_ne_nil _ _)

end ControlPlane.Production.Convergence
