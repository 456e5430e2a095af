import ControlPlane.Lib.Loops
import ControlPlane.Retrieval.Cache

/-! # Run metadata

What is recorded of a prepared run: versions, digests, the versions of the providers, the runtime, and references to
artifacts. A reference to a sensitive artifact carries a digest in normal form (`ArtifactReference.checked`), and
checking it again changes nothing (`artifactReference_self`).

`toDict` and `fromDict` are inverse up to the order of the two maps (`fromDict_toDict`), which the key of the run does
not see (`reproducibilityKey_congr`). -/

namespace ControlPlane.Provenance.Metadata

open ControlPlane.Lib.Value ControlPlane.Lib.Text ControlPlane.Lib.Print ControlPlane.Lib.Dumps
open ControlPlane.Lib.Dynamic ControlPlane.Lib.Loops ControlPlane.Environment
open ControlPlane.Retrieval.Cache (optional strOrNone strOrNone_optional sortKeys_optional)

variable {F : Type} (E : Env F)

/-! ### Artifacts -/

def securitySensitiveArtifactKinds : List String :=
  ["model", "dataset", "policy", "prompt-template", "tool-schema", "safety-policy"]

def artifactKindKey (kind : String) : String :=
  String.ofList ((E.lower (strip kind)).toList.map fun c => if c = '_' then '-' else c)

def isSensitive (kind : String) : Bool := securitySensitiveArtifactKinds.contains (artifactKindKey E kind)

def digestForm : String := "security-sensitive artifact digest must use sha256:<64-hex>"

def validatedSha256Digest (value : Option String) : Py String := do
  let digest := E.lower (strip (value.getD ""))
  require (startsWith digest "sha256:") digestForm
  require (decide ((digest.toList.drop 7).length = 64) && (digest.toList.drop 7).all isHexDigit) digestForm
  return digest

variable {E}

/-- What a digest in normal form looks like. -/
theorem validated_eq_ok {value : Option String} {digest : String} (h : validatedSha256Digest E value = .ok digest) :
    ∃ hex : List Char, digest.toList = "sha256:".toList ++ hex ∧ hex.length = 64 ∧ ∀ c ∈ hex, isHexDigit c = true := by
  unfold validatedSha256Digest at h
  obtain ⟨_, hstart, h⟩ := bind_eq_ok.mp h
  obtain ⟨_, hform, h⟩ := bind_eq_ok.mp h
  rw [require_eq_ok, startsWith, List.isPrefixOf_iff_prefix] at hstart
  rw [require_eq_ok, Bool.and_eq_true, decide_eq_true_eq, List.all_eq_true] at hform
  rw [Except.ok.inj h] at hstart hform
  obtain ⟨hex, hhex⟩ := hstart
  have hdrop : digest.toList.drop 7 = hex := by
    rw [← hhex]
    rfl
  rw [hdrop] at hform
  exact ⟨hex, hhex.symm, hform⟩

/-- **A digest in normal form is kept.** -/
theorem validated_again {value : Option String} {digest : String} (h : validatedSha256Digest E value = .ok digest) :
    validatedSha256Digest E (some digest) = .ok digest := by
  obtain ⟨hex, hlist, hlength, hhex⟩ := validated_eq_ok h
  have hsmall : (digest.toList.all fun c => decide (c.toNat < 128) && !c.isUpper) = true := by
    have hprefix : ∀ c ∈ "sha256:".toList, (decide (c.toNat < 128) && !c.isUpper) = true :=
      List.all_eq_true.mp (by decide)
    have hdigits : ∀ c ∈ "0123456789abcdef".toList, (decide (c.toNat < 128) && !c.isUpper) = true :=
      List.all_eq_true.mp (by decide)
    rw [List.all_eq_true, hlist]
    intro c hc
    rcases List.mem_append.mp hc with hc | hc
    · exact hprefix c hc
    · exact hdigits c (by simpa [isHexDigit] using hhex c hc)
  have hstrip : strip digest = digest := by
    refine strip_eq_self (fun c hc => ?_) (fun c hc => ?_)
    · rw [hlist] at hc
      cases hc
      decide
    · have hne : hex ≠ [] := fun hnil => by rw [hnil] at hlength; cases hlength
      rw [hlist, List.getLast?_append_of_ne_nil _ hne] at hc
      exact isSpace_of_hex (hhex c (List.mem_of_getLast? hc))
  have hdrop : digest.toList.drop 7 = hex := by
    rw [hlist]
    rfl
  have hstart : startsWith digest "sha256:" = true := by
    rw [startsWith, List.isPrefixOf_iff_prefix, hlist]
    exact List.prefix_append _ _
  have hform : (decide (hex.length = 64) && hex.all isHexDigit) = true := by
    rw [Bool.and_eq_true, decide_eq_true_eq, List.all_eq_true]
    exact ⟨hlength, hhex⟩
  unfold validatedSha256Digest
  rw [Option.getD_some, hstrip, E.lower_small digest hsmall]
  dsimp only
  rw [hstart, hdrop, hform]
  rfl

variable (E)

/-- The identity of an external artifact. -/
structure ArtifactReference where
  kind : String
  uri : String
  digest : Option String
  version : Option String
  role : Option String
  checked : isSensitive E kind = true → ∃ d, digest = some d ∧ validatedSha256Digest E (some d) = .ok d

/-- The constructor, with `__post_init__`. -/
def artifactReference (kind uri : String) (digest version role : Option String) : Py (ArtifactReference E) :=
  if hkind : isSensitive E kind = true then
    match digest with
    | none => .error (.valueError "security-sensitive artifact requires immutable sha256 digest")
    | some d => match hd : validatedSha256Digest E (some d) with
      | .error e => .error e
      | .ok digest => .ok ⟨kind, uri, some digest, version, role, fun _ => ⟨digest, rfl, validated_again hd⟩⟩
  else .ok ⟨kind, uri, digest, version, role, fun h => absurd h hkind⟩

/-- **A reference that has been made can be made again.** -/
theorem artifactReference_self (a : ArtifactReference E) :
    artifactReference E a.kind a.uri a.digest a.version a.role = .ok a := by
  obtain ⟨kind, uri, digest, version, role, checked⟩ := a
  unfold artifactReference
  by_cases hkind : isSensitive E kind = true
  · obtain ⟨d, rfl, hd⟩ := checked hkind
    rw [dif_pos hkind]
    dsimp only
    split
    · next e he =>
      rw [hd] at he
      cases he
    · next digest hdigest =>
      rw [hd] at hdigest
      cases hdigest
      rfl
  · rw [dif_neg hkind]

/-- `asdict(item)` -/
def ArtifactReference.asdict {E : Env F} (a : ArtifactReference E) : Dict F :=
  [("kind", .str a.kind), ("uri", .str a.uri), ("digest", optional a.digest), ("version", optional a.version),
    ("role", optional a.role)]

/-! ### Maps of texts -/

/-- A map of texts to texts, as an object. -/
structure TextMap (F : Type) where
  dict : Dict F
  nodup : (keys dict).Nodup
  texts : ∀ p ∈ dict, ∃ s, p.2 = .str s

def TextMap.ofPairs (pairs : List (String × String)) : TextMap F where
  dict := Lib.Value.ofPairs (pairs.map fun p => (p.1, .str p.2))
  nodup := nodup_keys_ofPairs _
  texts p hp := by
    obtain ⟨q, -, rfl⟩ := List.mem_map.mp (mem_ofPairs hp)
    exact ⟨q.2, rfl⟩

/-- `{str(key): str(value) for ...} if isinstance(v, Mapping) else {}` -/
def textMap : Json F → Py (TextMap F)
  | .obj d => do
    let pairs ← d.mapM fun p => do
      let text ← E.str p.2
      return (p.1, text)
    return TextMap.ofPairs pairs
  | _ => .ok (TextMap.ofPairs [])

/-! ### Runs -/

structure RunMetadata where
  controlPlaneVersion : String
  workspaceFingerprint : String
  gitHead : Option String
  changedFilesDigest : String
  configDigest : String
  retrievalPolicyVersion : String
  indexManifestDigest : String
  providerVersions : TextMap F
  artifacts : List (ArtifactReference E)
  graphFingerprint : String
  runId : String
  schemaVersion : ℤ
  createdAt : String
  runtime : TextMap F

variable {E}

/-- `_digest`: a value in canonical form, hashed. -/
def digestOf (E : Env F) (v : Json F) : Py String := do
  return E.sha256 (← canonical E.T v)

/-- What the key of a run is made of. -/
def RunMetadata.identity (run : RunMetadata E) : Dict F :=
  [("schema_version", .int run.schemaVersion), ("control_plane_version", .str run.controlPlaneVersion),
    ("workspace_fingerprint", .str run.workspaceFingerprint), ("graph_fingerprint", .str run.graphFingerprint),
    ("git_head", optional run.gitHead), ("changed_files_digest", .str run.changedFilesDigest),
    ("config_digest", .str run.configDigest), ("retrieval_policy_version", .str run.retrievalPolicyVersion),
    ("index_manifest_digest", .str run.indexManifestDigest), ("provider_versions", .obj run.providerVersions.dict),
    ("artifacts", .arr (run.artifacts.map fun a => .obj a.asdict)), ("runtime", .obj run.runtime.dict)]

def RunMetadata.reproducibilityKey (run : RunMetadata E) : Py String := digestOf E (.obj run.identity)

/-- The object of a run whose key is known. -/
def RunMetadata.entries (run : RunMetadata E) (key : String) : Dict F :=
  [("schema_version", .int run.schemaVersion), ("run_id", .str run.runId), ("created_at", .str run.createdAt),
    ("control_plane_version", .str run.controlPlaneVersion), ("workspace_fingerprint", .str run.workspaceFingerprint),
    ("graph_fingerprint", .str run.graphFingerprint), ("git_head", optional run.gitHead),
    ("changed_files_digest", .str run.changedFilesDigest), ("config_digest", .str run.configDigest),
    ("retrieval_policy_version", .str run.retrievalPolicyVersion),
    ("index_manifest_digest", .str run.indexManifestDigest), ("provider_versions", .obj run.providerVersions.dict),
    ("runtime", .obj run.runtime.dict), ("artifacts", .arr (run.artifacts.map fun a => .obj a.asdict)),
    ("reproducibility_key", .str key)]

def RunMetadata.toDict (run : RunMetadata E) : Py (Dict F) := do
  return run.entries (← run.reproducibilityKey)

variable (E)

/-- `str(raw[k])` -/
def required (raw : Dict F) (k : String) : Py String :=
  match lookup k raw with
  | some v => E.str v
  | none => .error (.typeError k)

/-- The reference in an item of a list, if it is an object. -/
def artifactOf : Json F → Py (Option (ArtifactReference E))
  | .obj item => do
    let kind ← E.strOr item "kind" "artifact"
    let uri ← E.strOr item "uri" ""
    let digest ← strOrNone E (getKey item "digest")
    let version ← strOrNone E (getKey item "version")
    let role ← strOrNone E (getKey item "role")
    return some (← artifactReference E kind uri digest version role)
  | _ => .ok none

def artifactsOf : Json F → Py (List (ArtifactReference E))
  | .arr xs => do return (← xs.mapM (artifactOf E)).reduceOption
  | _ => .ok []

def fromDict (raw : Dict F) : Py (RunMetadata E) := do
  let providerVersions ← textMap E (getKey raw "provider_versions")
  let runtime ← textMap E (getKey raw "runtime")
  let artifacts ← artifactsOf E (getKey raw "artifacts")
  let schemaVersion ← E.toInt ((lookup "schema_version" raw).getD (.int 1))
  let runId ← required E raw "run_id"
  let createdAt ← required E raw "created_at"
  let controlPlaneVersion ← required E raw "control_plane_version"
  let workspaceFingerprint ← required E raw "workspace_fingerprint"
  let graphFingerprint ← E.strOr raw "graph_fingerprint" "unknown"
  let gitHead ← strOrNone E (getKey raw "git_head")
  let changedFilesDigest ← required E raw "changed_files_digest"
  let configDigest ← required E raw "config_digest"
  let retrievalPolicyVersion ← required E raw "retrieval_policy_version"
  let indexManifestDigest ← required E raw "index_manifest_digest"
  return {
    controlPlaneVersion, workspaceFingerprint, gitHead, changedFilesDigest, configDigest, retrievalPolicyVersion,
    indexManifestDigest, providerVersions, artifacts, graphFingerprint, runId, schemaVersion, createdAt, runtime }

/-! ### Reading what was written -/

section RoundTrip
variable {E}

/-- The map, sorted by its keys. -/
def TextMap.sorted (m : TextMap F) : TextMap F where
  dict := sortPairs m.dict
  nodup := nodup_keys_sortPairs.mpr m.nodup
  texts p hp := m.texts p ((perm_sortPairs m.dict).mem_iff.mp hp)

theorem TextMap.sortKeys_eq (m : TextMap F) : sortKeys (.obj m.dict) = .obj m.sorted.dict := by
  have hvalues : (m.dict.map fun p => (p.1, sortKeys p.2)) = m.dict := by
    calc (m.dict.map fun p => (p.1, sortKeys p.2)) = m.dict.map id := by
          refine List.map_congr_left fun p hp => ?_
          obtain ⟨s, hs⟩ := m.texts p hp
          rw [hs, sortKeys_str, ← hs]
          rfl
      _ = m.dict := List.map_id _
  rw [sortKeys_obj, hvalues]
  rfl

theorem textMap_dict (m : TextMap F) : textMap E (.obj m.dict) = .ok m := by
  obtain ⟨d, hnodup, htexts⟩ := m
  have hread : ∀ d : Dict F, (∀ p ∈ d, ∃ s, p.2 = .str s) → ∃ pairs : List (String × String),
      d.mapM (fun p => do
        let text ← E.str p.2
        return (p.1, text)) = .ok pairs ∧ pairs.map (fun p => (p.1, Json.str p.2)) = d := by
    intro d
    induction d with
    | nil => exact fun _ => ⟨[], rfl, rfl⟩
    | cons p d ih =>
      intro hall
      obtain ⟨hfirst, hrest⟩ := List.forall_mem_cons.mp hall
      obtain ⟨s, hs⟩ := hfirst
      obtain ⟨pairs, hpairs, hmap⟩ := ih hrest
      have hstr : E.str p.2 = .ok s := by rw [hs, Env.str, pyStr_str]
      refine ⟨(p.1, s) :: pairs, mapM_cons_ok.mpr ⟨(p.1, s), pairs, ?_, hpairs, rfl⟩, ?_⟩
      · rw [hstr]
        rfl
      · rw [List.map_cons, hmap, ← hs]
  obtain ⟨pairs, hpairs, hmap⟩ := hread d htexts
  unfold textMap
  dsimp only
  rw [hpairs]
  have hdict : TextMap.ofPairs pairs = (⟨d, hnodup, htexts⟩ : TextMap F) := by
    rw [TextMap.mk.injEq]
    show Lib.Value.ofPairs (pairs.map fun p => (p.1, Json.str p.2)) = d
    rw [hmap, ofPairs_eq hnodup]
  rw [← hdict]
  rfl

theorem nodup_asdict (a : ArtifactReference E) : (keys a.asdict).Nodup := by
  show ["kind", "uri", "digest", "version", "role"].Nodup
  decide

/-- A reference is read back. -/
theorem artifactOf_asdict (a : ArtifactReference E) : artifactOf E (.obj (sortDict a.asdict)) = .ok (some a) := by
  have hnodup := nodup_asdict a
  have hget : ∀ k, getKey (sortDict a.asdict) k = sortKeys (getKey a.asdict k) := fun k => getKey_sortDict hnodup k
  have hkind : E.strOr (sortDict a.asdict) "kind" "artifact" = .ok a.kind := strOr_of_getKey (hget _) _
  have huri : E.strOr (sortDict a.asdict) "uri" "" = .ok a.uri := strOr_of_getKey (hget _) _
  have hoption : ∀ k (s : Option String), getKey a.asdict k = (optional s : Json F) →
      strOrNone E (getKey (sortDict a.asdict) k) = .ok s := by
    intro k s hs
    rw [hget, hs, sortKeys_optional, strOrNone_optional]
  unfold artifactOf
  dsimp only
  rw [hkind, huri, hoption "digest" a.digest rfl, hoption "version" a.version rfl, hoption "role" a.role rfl]
  show (do return some (← artifactReference E a.kind a.uri a.digest a.version a.role)) = _
  rw [artifactReference_self]
  rfl

theorem artifactsOf_map (artifacts : List (ArtifactReference E)) :
    artifactsOf E (sortKeys (.arr (artifacts.map fun a => .obj a.asdict))) = .ok artifacts := by
  have hread : ∀ as : List (ArtifactReference E),
      ((as.map fun a => (.obj a.asdict : Json F)).map sortKeys).mapM (artifactOf E) = .ok (as.map some) := by
    intro as
    induction as with
    | nil => rfl
    | cons a as ih =>
      rw [List.map_cons, List.map_cons, List.map_cons, sortKeys_obj']
      exact mapM_cons_ok.mpr ⟨some a, as.map some, artifactOf_asdict a, ih, rfl⟩
  rw [sortKeys_arr, artifactsOf, hread]
  show Except.ok (artifacts.map some).reduceOption = _
  rw [List.reduceOption, List.filterMap_map]
  exact congrArg Except.ok List.filterMap_some

/-- The same run with its maps sorted. -/
def RunMetadata.sorted (run : RunMetadata E) : RunMetadata E :=
  { run with providerVersions := run.providerVersions.sorted, runtime := run.runtime.sorted }

theorem nodup_entries (run : RunMetadata E) (key : String) : (keys (run.entries key)).Nodup := by
  show ["schema_version", "run_id", "created_at", "control_plane_version", "workspace_fingerprint",
    "graph_fingerprint", "git_head", "changed_files_digest", "config_digest", "retrieval_policy_version",
    "index_manifest_digest", "provider_versions", "runtime", "artifacts", "reproducibility_key"].Nodup
  decide

theorem wellFormed_optional (s : Option String) : wellFormed (optional s : Json F) = true := by
  cases s <;> rfl

theorem TextMap.wellFormed_dict (m : TextMap F) : wellFormed (.obj m.dict) = true := by
  rw [wellFormed_obj]
  refine ⟨m.nodup, fun p hp => ?_⟩
  obtain ⟨s, hs⟩ := m.texts p hp
  rw [hs, wellFormed_str]

theorem wellFormed_asdict (a : ArtifactReference E) : wellFormed (.obj a.asdict) = true := by
  rw [wellFormed_obj]
  refine ⟨nodup_asdict a, fun p hp => ?_⟩
  simp only [ArtifactReference.asdict, List.mem_cons, List.not_mem_nil, or_false] at hp
  rcases hp with rfl | rfl | rfl | rfl | rfl
  · exact wellFormed_str _
  · exact wellFormed_str _
  · exact wellFormed_optional _
  · exact wellFormed_optional _
  · exact wellFormed_optional _

theorem wellFormed_entries (run : RunMetadata E) (key : String) : wellFormed (.obj (run.entries key)) = true := by
  have hartifacts : wellFormed (.arr (run.artifacts.map fun a => .obj a.asdict)) = true := by
    rw [wellFormed_arr, List.forall_mem_map]
    exact fun a _ => wellFormed_asdict a
  rw [wellFormed_obj]
  refine ⟨nodup_entries run key, fun p hp => ?_⟩
  simp only [RunMetadata.entries, List.mem_cons, List.not_mem_nil, or_false] at hp
  rcases hp with rfl | rfl | rfl | rfl | rfl | rfl | rfl | rfl | rfl | rfl | rfl | rfl | rfl | rfl | rfl
  any_goals exact wellFormed_str _
  · exact wellFormed_int _
  · exact wellFormed_optional _
  · exact run.providerVersions.wellFormed_dict
  · exact run.runtime.wellFormed_dict
  · exact hartifacts

/-- **A run is read back**, with its maps sorted. -/
theorem fromDict_entries (run : RunMetadata E) (key : String) :
    fromDict E (sortDict (run.entries key)) = .ok run.sorted := by
  set d := run.entries key with hd
  have hget : ∀ k, getKey (sortDict d) k = sortKeys (getKey d k) := fun k => getKey_sortDict (nodup_entries run key) k
  have htext : ∀ k s, getKey d k = .str s → required E (sortDict d) k = .ok s := by
    intro k s hs
    have hlookup := lookup_of_getKey ((hget k).trans (by rw [hs, sortKeys_str])) (by simp)
    rw [required, hlookup]
    show E.str (.str s) = .ok s
    rw [Env.str, pyStr_str]
  have hmap : ∀ k (m : TextMap F), getKey d k = .obj m.dict → textMap E (getKey (sortDict d) k) = .ok m.sorted := by
    intro k m hm
    rw [hget, hm, m.sortKeys_eq, textMap_dict]
  have hartifacts : artifactsOf E (getKey (sortDict d) "artifacts") = .ok run.artifacts := by
    rw [hget]
    exact artifactsOf_map run.artifacts
  have hschema : E.toInt ((lookup "schema_version" (sortDict d)).getD (.int 1)) = .ok run.schemaVersion := by
    have hlookup := lookup_of_getKey (hget "schema_version") (by rw [hd]; simp [RunMetadata.entries, getKey, lookup])
    rw [hlookup]
    rfl
  have hgraph : E.strOr (sortDict d) "graph_fingerprint" "unknown" = .ok run.graphFingerprint :=
    strOr_of_getKey (hget _) _
  have hhead : strOrNone E (getKey (sortDict d) "git_head") = .ok run.gitHead := by
    have hvalue : getKey d "git_head" = (optional run.gitHead : Json F) := rfl
    rw [hget, hvalue, sortKeys_optional, strOrNone_optional]
  unfold fromDict
  rw [hmap "provider_versions" run.providerVersions rfl, hmap "runtime" run.runtime rfl, hartifacts, hschema,
    htext "run_id" run.runId rfl, htext "created_at" run.createdAt rfl,
    htext "control_plane_version" run.controlPlaneVersion rfl,
    htext "workspace_fingerprint" run.workspaceFingerprint rfl, hgraph, hhead,
    htext "changed_files_digest" run.changedFilesDigest rfl, htext "config_digest" run.configDigest rfl,
    htext "retrieval_policy_version" run.retrievalPolicyVersion rfl,
    htext "index_manifest_digest" run.indexManifestDigest rfl]
  rfl

/-! ### Equality -/

/-- Runs that are equal: the order of a map does not count. -/
structure Same (run other : RunMetadata E) : Prop where
  rest : { other with providerVersions := run.providerVersions, runtime := run.runtime } = run
  providerVersions : run.providerVersions.dict.Perm other.providerVersions.dict
  runtime : run.runtime.dict.Perm other.runtime.dict

theorem same_sorted (run : RunMetadata E) : Same run run.sorted :=
  ⟨rfl, (perm_sortPairs _).symm, (perm_sortPairs _).symm⟩

theorem TextMap.sorted_congr {m n : TextMap F} (h : m.dict.Perm n.dict) : m.sorted.dict = n.sorted.dict :=
  sortPairs_perm m.nodup h

/-- **Equal runs have the same key.** -/
theorem reproducibilityKey_congr {run other : RunMetadata E} (h : Same run other) :
    run.reproducibilityKey = other.reproducibilityKey := by
  obtain ⟨rest, hproviders, hruntime⟩ := h
  have hsorted : sortKeys (.obj run.identity) = sortKeys (.obj other.identity) := by
    have hp : sortKeys (.obj run.providerVersions.dict) = sortKeys (.obj other.providerVersions.dict) := by
      rw [TextMap.sortKeys_eq, TextMap.sortKeys_eq, TextMap.sorted_congr hproviders]
    have hr : sortKeys (.obj run.runtime.dict) = sortKeys (.obj other.runtime.dict) := by
      rw [TextMap.sortKeys_eq, TextMap.sortKeys_eq, TextMap.sorted_congr hruntime]
    rw [sortKeys_obj, sortKeys_obj]
    congr 2
    rw [← rest]
    simp only [RunMetadata.identity, List.map_cons, List.map_nil, hp, hr]
  unfold RunMetadata.reproducibilityKey digestOf canonical
  rw [hsorted]

end RoundTrip

end ControlPlane.Provenance.Metadata
