import ControlPlane.Workspace.Freshness

/-! # The status of a SCIP index

A sync has an indexer index a repository, has the index printed as JSON, and writes a manifest with the fingerprint of
the repository and the hashes of both files. It replaces the three files one after the other, and may end before any of
them; the repository may be edited at any time.

`scip_ready_iff` and `scip_sound_iff` say of these syncs what `graph_fresh_iff` and `graph_sound_iff` say of those of a
code graph. -/

namespace ControlPlane.Workspace.Scip

open ControlPlane.Lib.Value ControlPlane.Lib.Print ControlPlane.Lib.Dumps ControlPlane.Lib.Dynamic ControlPlane.Lib.Floats
open ControlPlane.Environment ControlPlane.Workspace.Fingerprint ControlPlane.Workspace.Freshness

variable {F : Type} (E : Env F)

/-- The tools, over the contents `σ` of a repository. -/
structure ScipTools (σ : Type) where
  repositoryFingerprint : σ → Freshness.Print
  sha256 : Bytes → String
  language : String
  indexer : String
  /-- What the indexer makes; nothing, if it fails. -/
  index : σ → Option Bytes
  /-- The output of `scip print --json`; nothing, if it fails. -/
  printed : Bytes → Option String

/-- The files of a SCIP index. -/
structure ScipDir where
  index : Option Bytes
  json : Option String
  manifest : Option String

structure Status (F : Type) where
  ready : Bool
  reason : String
  found : Dict F

def unready (reason : String) : Status F := ⟨false, reason, []⟩

def scipManifestSchema : ℤ := 1

variable {σ : Type} (T : ScipTools σ)

/-- The checks of a manifest and of a payload. -/
def checkScip (contents : σ) (hashable : Bool) (index : Bytes) (json : String) (manifest payload : Json F) : Status F :=
  match manifest with
  | .obj manifest =>
    if !pyEq E.T (getKey manifest "manifest_schema") (.int scipManifestSchema) then unready "unsupported SCIP manifest schema"
    else match payload with
      | .obj _ =>
        let current := T.repositoryFingerprint contents
        if !hashable then unready "SCIP index state is unreadable"
        else if differs E manifest "index_sha256" (T.sha256 index) then unready "SCIP index hash mismatch"
        else if differs E manifest "json_sha256" (T.sha256 (utf8 json)) then unready "SCIP JSON hash mismatch"
        else if differs E manifest "repository_fingerprint" current.fingerprint then
          unready "repository fingerprint mismatch"
        else if !pyEq E.T (getKey manifest "git_head") (textOrNull current.gitHead) then unready "Git HEAD mismatch"
        else ⟨true, "SCIP provenance matches repository state", [("language", getKey manifest "language"),
          ("indexer", getKey manifest "indexer"), ("repository_fingerprint", .str current.fingerprint),
          ("git_head", textOrNull current.gitHead)]⟩
      | _ => unready "SCIP JSON must contain an object"
  | _ => unready "unsupported SCIP manifest schema"

/-- `scip_status`; the JSON files may not be `readable`, and the index files not `hashable`. -/
def scipStatus (contents : σ) (readable hashable : Bool) (d : ScipDir) : Py (Status F) :=
  match d.index, d.manifest, d.json with
  | none, _, _ => .ok (unready "index.scip is missing")
  | some _, none, _ => .ok (unready "manifest.json is missing")
  | some _, some _, none => .ok (unready "index.json is missing")
  | some index, some manifest, some json =>
    if !readable then .ok (unready "SCIP manifest or JSON is unreadable")
    else match (do
        let manifest ← E.jsonLoads manifest
        let payload ← E.jsonLoads json
        return (manifest, payload) : Py (Json F × Json F)) with
      | .ok (manifest, payload) => .ok (checkScip E T contents hashable index json manifest payload)
      | .error (.jsonDecodeError _) => .ok (unready "SCIP manifest or JSON is unreadable")
      | .error e => .error e

/-! ### Syncs -/

/-- A sync: the contents that the indexer sees, those that the fingerprint is taken of, and how many of the three files
are replaced. -/
structure ScipSync (σ : Type) where
  seen : σ
  printed : σ
  replaced : ℕ

/-- The text of the JSON file of an index; nothing, if it is not printed as an object. -/
def jsonText (index : Bytes) : Option String :=
  match (T.printed index).map E.jsonLoads with
  | some (.ok (.obj payload)) => (E.fileText true (.obj payload)).toOption
  | _ => none

def scipManifest (relative : String) (s : ScipSync σ) (index : Bytes) (json : String) : Dict F :=
  let print := T.repositoryFingerprint s.printed
  [("manifest_schema", .int scipManifestSchema), ("repository_relative_path", .str relative),
    ("repository_fingerprint", .str print.fingerprint), ("git_head", textOrNull print.gitHead),
    ("language", .str T.language), ("indexer", .str T.indexer), ("index_sha256", .str (T.sha256 index)),
    ("json_sha256", .str (T.sha256 (utf8 json)))]

/-- `sync_scip_index`, with an indexer and the `scip` program installed. -/
def syncScip (relative : String) (d : ScipDir) (s : ScipSync σ) : ScipDir :=
  match T.index s.seen with
  | none => d
  | some index =>
    if s.replaced = 0 then d
    else match jsonText E T index with
      | none => { d with index := some index }
      | some json =>
        if s.replaced = 1 then { d with index := some index }
        else match E.fileText true (.obj (scipManifest T relative s index json)) with
          | .error _ => { d with index := some index, json := some json }
          | .ok manifest => ⟨some index, some json, if s.replaced = 2 then d.manifest else some manifest⟩

/-! ### What is stamped -/

/-- The files of which a sync writes a manifest. -/
def stamps (s : ScipSync σ) : Option (Bytes × String) :=
  if s.replaced ≤ 2 then none
  else (T.index s.seen).bind fun index => (jsonText E T index).map fun json => (index, json)

/-- The contents and the files that the last manifest was written of. -/
def lastStamp (stamp : Option (σ × Bytes × String)) (syncs : List (ScipSync σ)) : Option (σ × Bytes × String) :=
  syncs.foldl (fun stamp s => ((stamps E T s).map fun p => (s.printed, p)).or stamp) stamp

/-- The manifest on disk is of the stamp, and the JSON file is of an object. -/
structure Holds (relative : String) (d : ScipDir) (stamp : Option (σ × Bytes × String)) : Prop where
  json : ∀ json, d.json = some json → ∃ payload, E.jsonLoads json = .ok (.obj payload)
  manifest : match stamp with
    | none => d.manifest = none
    | some (contents, index, json) => ∃ s text, s.printed = contents ∧ d.manifest = some text ∧
        E.fileText true (.obj (scipManifest T relative s index json)) = .ok text

variable {E} {T}

theorem wellFormed_scipManifest (relative : String) (s : ScipSync σ) (index : Bytes) (json : String) :
    wellFormed (.obj (scipManifest T relative s index json) : Json F) = true := by
  have hkeys : keys (scipManifest T relative s index json : Dict F) = ["manifest_schema", "repository_relative_path",
      "repository_fingerprint", "git_head", "language", "indexer", "index_sha256", "json_sha256"] := rfl
  rw [wellFormed_obj, hkeys]
  refine ⟨by decide +kernel, ?_⟩
  simp only [scipManifest, List.forall_mem_cons, List.not_mem_nil, false_implies, implies_true, and_true, wellFormed_int,
    wellFormed_str, wellFormed_textOrNull]

/-- A manifest can always be written. -/
theorem scipManifest_isOk (relative : String) (s : ScipSync σ) (index : Bytes) (json : String) :
    ∃ text, E.fileText true (.obj (scipManifest T relative s index json)) = .ok text := by
  refine fileText_eq_ok E ?_
  have hhead : printable E.T.toFloatText true (textOrNull (T.repositoryFingerprint s.printed).gitHead) = true := by
    cases (T.repositoryFingerprint s.printed).gitHead <;> simp [textOrNull, printable]
  have hschema : printable E.T.toFloatText true (.int scipManifestSchema : Json F) = true :=
    printable_small true (by decide)
  have hstr : ∀ text, printable E.T.toFloatText true (.str text : Json F) = true := fun _ => rfl
  simp only [scipManifest, printable_obj, List.forall_mem_cons, List.not_mem_nil, false_implies, implies_true, and_true,
    hhead, hschema, hstr]

theorem jsonText_loads {index : Bytes} {json : String} (h : jsonText E T index = some json) :
    ∃ payload, E.jsonLoads json = .ok (.obj payload) := by
  unfold jsonText at h
  split at h
  · next payload hpayload =>
    obtain ⟨out, -, hloads⟩ := Option.map_eq_some_iff.mp hpayload
    have hwf := wellFormed_jsonLoads E hloads
    cases htext : E.fileText true (.obj payload) with
    | error e =>
      rw [htext] at h
      cases h
    | ok text =>
      rw [htext] at h
      have hback := jsonLoads_fileText E hwf htext
      rw [sortKeys_obj'] at hback
      rw [← Option.some.inj h]
      exact ⟨_, hback⟩
  · cases h

theorem holds_step {relative : String} {d : ScipDir} {stamp : Option (σ × Bytes × String)} (h : Holds E T relative d stamp)
    (s : ScipSync σ) :
    Holds E T relative (syncScip E T relative d s) (((stamps E T s).map fun p => (s.printed, p)).or stamp) := by
  unfold syncScip stamps
  cases hindex : T.index s.seen with
  | none =>
    rw [Option.bind_none, ite_self]
    exact h
  | some index =>
    rw [Option.bind_some]
    dsimp only
    by_cases h0 : s.replaced = 0
    · rw [if_pos h0, if_pos (by omega)]
      exact h
    · rw [if_neg h0]
      cases hjson : jsonText E T index with
      | none =>
        rw [Option.map_none, ite_self]
        exact ⟨h.json, h.manifest⟩
      | some json =>
        dsimp only
        by_cases h1 : s.replaced = 1
        · rw [if_pos h1, if_pos (by omega)]
          exact ⟨h.json, h.manifest⟩
        · obtain ⟨text, htext⟩ := @scipManifest_isOk F E σ T relative s index json
          have hloads : ∀ json', some json = some json' → ∃ payload, E.jsonLoads json' = .ok (.obj payload) := by
            intro json' hsame
            rw [← Option.some.inj hsame]
            exact jsonText_loads hjson
          rw [if_neg h1, htext]
          dsimp only
          by_cases h2 : s.replaced = 2
          · rw [if_pos h2, if_pos (by omega)]
            exact ⟨hloads, h.manifest⟩
          · rw [if_neg h2, if_neg (by omega), Option.map_some, Option.map_some, Option.some_or]
            exact ⟨hloads, s, text, rfl, rfl, htext⟩

/-- **What the manifest is of**, after any syncs. -/
theorem holds_run {relative : String} {syncs : List (ScipSync σ)} {d : ScipDir} {stamp : Option (σ × Bytes × String)}
    (h : Holds E T relative d stamp) :
    Holds E T relative (syncs.foldl (syncScip E T relative) d) (lastStamp E T stamp syncs) := by
  induction syncs generalizing d stamp with
  | nil => exact h
  | cons s syncs ih => exact ih (holds_step h s)

/-- The files of a stamp are those of a sync that took the fingerprint of the contents. -/
theorem lastStamp_indexed {syncs : List (ScipSync σ)} {stamp : Option (σ × Bytes × String)} {contents : σ}
    {files : Bytes × String} (h : lastStamp E T stamp syncs = some (contents, files)) :
    stamp = some (contents, files) ∨ ∃ s ∈ syncs, s.printed = contents ∧ T.index s.seen = some files.1 ∧
      jsonText E T files.1 = some files.2 := by
  induction syncs generalizing stamp with
  | nil => exact Or.inl h
  | cons s syncs ih =>
    rcases ih h with hstamp | ⟨s', hs', hfiles⟩
    · dsimp only at hstamp
      cases hstamps : stamps E T s with
      | none =>
        rw [hstamps] at hstamp
        exact Or.inl hstamp
      | some p =>
        rw [hstamps, Option.map_some, Option.some_or, Option.some.injEq, Prod.mk.injEq] at hstamp
        unfold stamps at hstamps
        by_cases hreplaced : s.replaced ≤ 2
        · rw [if_pos hreplaced] at hstamps
          cases hstamps
        · rw [if_neg hreplaced] at hstamps
          obtain ⟨index, hindex, hjson⟩ := Option.bind_eq_some_iff.mp hstamps
          obtain ⟨json, hjson, hp⟩ := Option.map_eq_some_iff.mp hjson
          rw [← hstamp.2, ← hp]
          exact Or.inr ⟨s, List.mem_cons_self, hstamp.1, hindex, hjson⟩
    · exact Or.inr ⟨s', List.mem_cons_of_mem _ hs', hfiles⟩

/-! ### Reading a manifest back -/

/-- **The checks of a manifest that a sync has written.** -/
theorem checkScip_written (relative : String) (contents : σ) (hashable : Bool) (s : ScipSync σ) (now index : Bytes)
    (json' json : String) (payload : Dict F) :
    (checkScip E T contents hashable now json' (.obj (sortDict (scipManifest T relative s index json)))
        (.obj payload)).ready = true ↔
      hashable = true ∧ T.sha256 now = T.sha256 index ∧ T.sha256 (utf8 json') = T.sha256 (utf8 json) ∧
        T.repositoryFingerprint contents = T.repositoryFingerprint s.printed := by
  have hwf := @wellFormed_scipManifest F σ T relative s index json
  have hnodup := ((wellFormed_obj _).mp hwf).1
  have hkey : ∀ k, getKey (sortDict (scipManifest T relative s index json : Dict F)) k =
      sortKeys (getKey (scipManifest T relative s index json) k) := fun k => getKey_sortDict hnodup k
  have hschema : pyEq E.T (getKey (sortDict (scipManifest T relative s index json)) "manifest_schema")
      (.int scipManifestSchema) = true := by
    have hget : getKey (scipManifest T relative s index json : Dict F) "manifest_schema" = .int 1 := rfl
    rw [hkey, hget, sortKeys_int]
    simp [scipManifestSchema, pyEq, numOf, Num.eq]
  have hhead : pyEq E.T (getKey (sortDict (scipManifest T relative s index json)) "git_head")
      (textOrNull (T.repositoryFingerprint contents).gitHead) =
        decide ((T.repositoryFingerprint s.printed).gitHead = (T.repositoryFingerprint contents).gitHead) := by
    have hget : getKey (scipManifest T relative s index json : Dict F) "git_head" =
        textOrNull (T.repositoryFingerprint s.printed).gitHead := rfl
    rw [hkey, hget, sortKeys_textOrNull, pyEq_textOrNull]
  unfold checkScip
  dsimp only
  rw [hschema, if_neg (by decide),
    @differs_sorted F E _ hnodup "index_sha256" (T.sha256 index) rfl,
    @differs_sorted F E _ hnodup "json_sha256" (T.sha256 (utf8 json)) rfl,
    @differs_sorted F E _ hnodup "repository_fingerprint" (T.repositoryFingerprint s.printed).fingerprint rfl, hhead, print_eq_iff]
  cases hashable with
  | false => simp [unready]
  | true =>
    rw [if_neg (by decide)]
    by_cases hsha : T.sha256 now = T.sha256 index
    · rw [if_neg (by simpa using hsha)]
      by_cases hjson : T.sha256 (utf8 json') = T.sha256 (utf8 json)
      · rw [if_neg (by simpa using hjson)]
        by_cases hfp : (T.repositoryFingerprint contents).fingerprint = (T.repositoryFingerprint s.printed).fingerprint
        · rw [if_neg (by simpa using hfp)]
          by_cases hgit : (T.repositoryFingerprint s.printed).gitHead = (T.repositoryFingerprint contents).gitHead
          · rw [if_neg (by simpa using hgit)]
            simp [hsha, hjson, hfp, hgit]
          · rw [if_pos (by simpa using hgit)]
            simp [unready, hgit]
        · rw [if_pos (by simpa using hfp)]
          simp [unready, hfp]
      · rw [if_pos (by simpa using hjson)]
        simp [unready, hjson]
    · rw [if_pos (by simpa using hsha)]
      simp [unready, hsha]

/-- What is reported of a directory whose manifest is of a stamp. -/
theorem scipStatus_holds {relative : String} {d : ScipDir} {stamp : Option (σ × Bytes × String)}
    (h : Holds E T relative d stamp) (contents : σ) (readable hashable : Bool) : ∃ r : Status F,
      scipStatus E T contents readable hashable d = .ok r ∧
        (r.ready = true ↔ readable = true ∧ hashable = true ∧ ∃ printed index json index' json',
          stamp = some (printed, index, json) ∧ d.index = some index' ∧ d.json = some json' ∧
          T.sha256 index' = T.sha256 index ∧ T.sha256 (utf8 json') = T.sha256 (utf8 json) ∧
          T.repositoryFingerprint contents = T.repositoryFingerprint printed) := by
  unfold scipStatus
  cases hindex : d.index with
  | none => exact ⟨_, rfl, by simp [unready]⟩
  | some index' =>
    cases stamp with
    | none =>
      have hnone : d.manifest = none := h.manifest
      rw [hnone]
      exact ⟨_, rfl, by simp [unready]⟩
    | some p =>
      obtain ⟨printed, index, json⟩ := p
      obtain ⟨s, text, hprinted, hmanifest, htext⟩ := h.manifest
      rw [hmanifest]
      cases hjson : d.json with
      | none => exact ⟨_, rfl, by simp [unready]⟩
      | some json' =>
        have hloads := jsonLoads_fileText E (wellFormed_scipManifest relative s index json) htext
        rw [sortKeys_obj'] at hloads
        obtain ⟨payload, hpayload⟩ := h.json json' hjson
        have hchecked := @checkScip_written F E σ T relative contents hashable s index' index json' json payload
        dsimp only
        cases readable with
        | false => exact ⟨_, rfl, by simp [unready]⟩
        | true =>
          rw [if_neg (by decide), hloads, hpayload]
          refine ⟨_, rfl, hchecked.trans ?_⟩
          rw [hprinted]
          constructor
          · rintro ⟨hhash, hsha, hsha', hfp⟩
            exact ⟨rfl, hhash, printed, index, json, index', json', rfl, rfl, rfl, hsha, hsha', hfp⟩
          · rintro ⟨-, hhash, printed₁, index₁, json₁, index₂, json₂, hp, hi, hj, hsha, hsha', hfp⟩
            rw [Option.some.injEq, Prod.mk.injEq, Prod.mk.injEq] at hp
            rw [Option.some.injEq] at hi hj
            rw [hp.1, hp.2.1, hp.2.2, hi, hj]
            exact ⟨hhash, hsha, hsha', hfp⟩

/-! ### Readiness after any syncs -/

def noIndex : ScipDir := ⟨none, none, none⟩

theorem holds_noIndex (relative : String) : Holds E T relative noIndex none :=
  ⟨fun _ hnone => (by cases hnone), rfl⟩

/-- **When a SCIP index is reported as ready.** After any syncs, whatever contents each step of them has seen, the report
is made, and says that the index is ready if and only if the contents have the fingerprint and both files have the hashes
of the last sync that wrote the manifest. -/
theorem scip_ready_iff (relative : String) (syncs : List (ScipSync σ)) (contents : σ) (readable hashable : Bool) :
    ∃ r : Status F,
      scipStatus E T contents readable hashable (syncs.foldl (syncScip E T relative) noIndex) = .ok r ∧
        (r.ready = true ↔ readable = true ∧ hashable = true ∧ ∃ printed index json index' json',
          lastStamp E T none syncs = some (printed, index, json) ∧
          (syncs.foldl (syncScip E T relative) noIndex).index = some index' ∧
          (syncs.foldl (syncScip E T relative) noIndex).json = some json' ∧
          T.sha256 index' = T.sha256 index ∧ T.sha256 (utf8 json') = T.sha256 (utf8 json) ∧
          T.repositoryFingerprint contents = T.repositoryFingerprint printed) :=
  scipStatus_holds (holds_run (holds_noIndex relative)) contents readable hashable

/-- The index is the one that the indexer makes of the contents, with its JSON. -/
def IndexOf (E : Env F) (T : ScipTools σ) (contents : σ) (d : ScipDir) : Prop :=
  ∃ index json, T.index contents = some index ∧ jsonText E T index = some json ∧ d.index = some index ∧ d.json = some json

/-- **When readiness means what it says.** After any syncs, every report of readiness is about an index of the contents
at the time of the report, if and only if the last manifest is of other files, or was written of contents that the
index is of; and that is so if every sync took the fingerprint of what its indexer saw. -/
theorem scip_sound_iff (hfingerprint : Function.Injective T.repositoryFingerprint) (hsha : Function.Injective T.sha256)
    (relative : String) (syncs : List (ScipSync σ)) {d : ScipDir}
    (hd : syncs.foldl (syncScip E T relative) noIndex = d) :
    ((∀ contents, ∀ r : Status F, scipStatus E T contents true true d = .ok r → r.ready = true → IndexOf E T contents d) ↔
      ∀ printed index json, lastStamp E T none syncs = some (printed, index, json) → d.index = some index →
        d.json = some json → T.index printed = some index) ∧
    ((∀ s ∈ syncs, s.seen = s.printed) → ∀ contents, ∀ r : Status F,
      scipStatus E T contents true true d = .ok r → r.ready = true → IndexOf E T contents d) := by
  have hholds := @holds_run F E σ T relative syncs noIndex none (holds_noIndex relative)
  rw [hd] at hholds
  have hiff : (∀ contents, ∀ r : Status F, scipStatus E T contents true true d = .ok r → r.ready = true →
        IndexOf E T contents d) ↔
      ∀ printed index json, lastStamp E T none syncs = some (printed, index, json) → d.index = some index →
        d.json = some json → T.index printed = some index := by
    constructor
    · intro hall printed index json hstamp hindex hjson
      obtain ⟨r, hr, hready⟩ := scipStatus_holds hholds printed true true
      obtain ⟨i, j, hi, -, hdi, -⟩ := hall printed r hr
        (hready.mpr ⟨rfl, rfl, printed, index, json, index, json, hstamp, hindex, hjson, rfl, rfl, rfl⟩)
      rw [hindex, Option.some.injEq] at hdi
      rw [hi, hdi]
    · intro hall contents r hr hready
      obtain ⟨r', hr', hiff⟩ := scipStatus_holds hholds contents true true
      rw [hr, Except.ok.injEq] at hr'
      subst hr'
      obtain ⟨-, -, printed, index, json, index', json', hstamp, hindex, hjson, hhash, hhash', hprint⟩ := hiff.mp hready
      rw [hsha hhash] at hindex
      rw [utf8_injective (hsha hhash')] at hjson
      rw [hfingerprint hprint]
      rcases lastStamp_indexed hstamp with hnone | ⟨s, -, -, -, hjsonText⟩
      · cases hnone
      · exact ⟨index, json, hall printed index json hstamp hindex hjson, hjsonText, hindex, hjson⟩
  refine ⟨hiff, fun hsteady => hiff.mpr fun printed index json hstamp _ _ => ?_⟩
  rcases lastStamp_indexed hstamp with hnone | ⟨s, hs, hprinted, hindexed, -⟩
  · cases hnone
  · rwa [hsteady s hs, hprinted] at hindexed

section Sample
open ControlPlane.Instance

/-- Tools to which the contents are bytes, the index is the contents, and its JSON is an empty object. -/
def copyTools : ScipTools Bytes where
  repositoryFingerprint contents := ⟨bytesDigest contents, none⟩
  sha256 := bytesDigest
  language := "python"
  indexer := "scip-python"
  index contents := some contents
  printed _ := some "{}"

/-- An edit between the indexer and the fingerprint. -/
theorem scip_sound_iff_edited : ¬ ∀ contents, ∀ r : Status Lib.Grid.Cell,
    scipStatus platform copyTools contents true true ([⟨[1], [2], 3⟩].foldl (syncScip platform copyTools ".") noIndex) =
      .ok r → r.ready = true →
        IndexOf platform copyTools contents ([⟨[1], [2], 3⟩].foldl (syncScip platform copyTools ".") noIndex) := by
  intro hall
  have hprints : Function.Injective copyTools.repositoryFingerprint := fun _ _ h =>
    bytesDigest_injective (congrArg Freshness.Print.fingerprint h)
  have hiff := (scip_sound_iff hprints bytesDigest_injective "." [⟨[1], [2], 3⟩] rfl).1.mp hall
  obtain ⟨json, hjson⟩ : ∃ json, jsonText platform copyTools [1] = some json := by
    have hloads : platform.jsonLoads "{}" = .ok (.obj []) := by
      decide +kernel
    obtain ⟨text, htext⟩ := fileText_eq_ok platform (show printable _ true (.obj []) = true from rfl)
    refine ⟨text, ?_⟩
    unfold jsonText
    have hprinted : copyTools.printed [1] = some "{}" := rfl
    rw [hprinted, Option.map_some, hloads]
    dsimp only
    rw [htext]
    rfl
  have hstamp : lastStamp platform copyTools none [⟨[1], [2], 3⟩] = some ([2], [1], json) := by
    have hstamps : stamps platform copyTools ⟨[1], [2], 3⟩ = some ([1], json) := by
      unfold stamps
      rw [if_neg (by decide)]
      change (jsonText platform copyTools [1]).map _ = _
      rw [hjson]
      rfl
    unfold lastStamp
    rw [List.foldl_cons, List.foldl_nil, hstamps]
    rfl
  obtain ⟨text, htext⟩ := @scipManifest_isOk _ platform _ copyTools "." ⟨[1], [2], 3⟩ [1] json
  have hsync : [⟨[1], [2], 3⟩].foldl (syncScip platform copyTools ".") noIndex = ⟨some [1], some json, some text⟩ := by
    unfold syncScip
    rw [List.foldl_cons, List.foldl_nil]
    have hindex : copyTools.index [1] = some [1] := rfl
    dsimp only
    rw [hindex]
    dsimp only
    rw [hjson]
    dsimp only
    rw [htext]
    rfl
  rw [hsync] at hiff
  exact absurd (hiff [2] [1] json hstamp rfl rfl) (by decide)

end Sample

end ControlPlane.Workspace.Scip
