import ControlPlane.Environment
import Mathlib.Data.List.Sort

/-! # The repository registry

The registry of a workspace is a JSON file of the repositories that a discovery found, with the decision on
each. A refresh puts a new discovery in the place of the old one and takes over the decisions
(`refreshRegistry`), and a command decides on one repository (`setRepositoryIncluded`). The reader strips
names and paths, and reads a file with one bad entry as empty (`entryToSpec`, `loadRegistry`): what was
written is read again if and only if no name and no path has white space at its ends (`load_written`,
`clean_of_load`). -/

namespace ControlPlane.Workspace.Registry

open ControlPlane.Lib.Value ControlPlane.Lib.Print ControlPlane.Lib.Dumps ControlPlane.Lib.Dynamic
open ControlPlane.Lib.Text ControlPlane.Environment

variable {F : Type} (E : Env F)

/-! ### Repositories -/

/-- A local Git repository discovered inside a workspace. -/
structure RepositorySpec where
  name : String
  relativePath : String
  gitDir : Option String
  remoteIdentity : Option String
  headRef : Option String
  headSha : Option String
  included : Bool
  reason : String
  deriving DecidableEq

def optionalText : Option String → Json F
  | none => .null
  | some text => .str text

def repositoryId (relativePath : String) (remoteIdentity : Option String) : String :=
  let payload : Json F := .obj [("relative_path", .str relativePath),
    ("remote_identity", optionalText remoteIdentity)]
  E.sha256 (String.ofList (print E.T.toFloatText (compact true) 0 (sortKeys payload)))

/-- What a decision belongs to. -/
abbrev Identity := String × Option String

def RepositorySpec.identity (repo : RepositorySpec) : Identity := (repo.relativePath, repo.remoteIdentity)

/-- `(repo.relative_path.lower(), repo.remote_identity or "", repo.name.lower())`. -/
def sortKey (repo : RepositorySpec) : List String :=
  [E.lower repo.relativePath, repo.remoteIdentity.getD "", E.lower repo.name]

def ordered (repositories : List RepositorySpec) : List RepositorySpec :=
  repositories.insertionSort fun a b => sortKey E a ≤ sortKey E b

/-! ### The file -/

def registryVersion : ℤ := 1

def entry (repo : RepositorySpec) : Json F :=
  .obj [("repository_id", .str (repositoryId E repo.relativePath repo.remoteIdentity)),
    ("name", .str repo.name),
    ("relative_path", .str repo.relativePath),
    ("git_dir", optionalText repo.gitDir),
    ("remote_identity", optionalText repo.remoteIdentity),
    ("head_ref", optionalText repo.headRef),
    ("head_sha", optionalText repo.headSha),
    ("included", .bool repo.included),
    ("reason", .str repo.reason)]

/-- The persisted review-required, credential-free registry payload. -/
def registryPayload (repositories : List RepositorySpec) : Json F :=
  .obj [("version", .int registryVersion), ("review_required", .bool true),
    ("repositories", .arr ((ordered E repositories).map (entry E)))]

/-- A text, or none for null. -/
def optionalOf : Json F → Option (Option String)
  | .null => some none
  | .str text => some (some text)
  | _ => none

/-- A text that is not blank. -/
def presentOf : Json F → Option String
  | .str text => if strip text = "" then none else some text
  | _ => none

/-- The persisted id is that of the repository, if there is one. -/
def idMatches (id : Json F) (repo : RepositorySpec) : Bool :=
  match id with
  | .null => true
  | .str text => text == repositoryId E repo.relativePath repo.remoteIdentity
  | _ => false

def entryToSpec (v : Json F) : Option RepositorySpec :=
  match v with
  | .obj e => do
    let name ← presentOf (getKey e "name")
    let relativePath ← presentOf (getKey e "relative_path")
    let remote ← optionalOf (getKey e "remote_identity")
    let gitDir ← optionalOf (getKey e "git_dir")
    let headRef ← optionalOf (getKey e "head_ref")
    let headSha ← optionalOf (getKey e "head_sha")
    match (lookup "reason" e).getD (.str "discovered"), (lookup "included" e).getD (.bool false) with
    | .str reason, .bool included =>
      let spec : RepositorySpec := ⟨strip name, strip relativePath, gitDir, remote, headRef, headSha,
        included, reason⟩
      if idMatches E (getKey e "repository_id") spec then some spec else none
    | _, _ => none
  | _ => none

/-- The specifications of entries, if all are good and no identity is there twice. -/
def specsFrom (seen : List Identity) : List (Json F) → Option (List RepositorySpec)
  | [] => some []
  | raw :: rest => do
    let spec ← entryToSpec E raw
    if seen.contains spec.identity then none
    else do
      let specs ← specsFrom (spec.identity :: seen) rest
      return spec :: specs

/-- Any malformed or ambiguous state is read as empty. -/
def specsOf (data : Json F) : List RepositorySpec :=
  match data with
  | .obj d =>
    if pyEq E.T (getKey d "version") (.int registryVersion) then
      match getKey d "review_required", getKey d "repositories" with
      | .bool true, .arr repositories => ((specsFrom E [] repositories).map (ordered E)).getD []
      | _, _ => []
    else []
  | _ => []

/-- What is at the path of the registry. -/
inductive Stored where
  | missing
  | undecodable
  | text (content : String)

def loadRegistry : Stored → Py (List RepositorySpec)
  | .missing => .ok []
  | .undecodable => .error (.valueError "'utf-8' codec can't decode bytes")
  | .text content => match E.jsonLoads content with
    | .ok data => .ok (specsOf E data)
    | .error (.jsonDecodeError _) => .ok []
    | .error e => .error e

def workspaceRegistryFingerprint (repositories : List RepositorySpec) : String :=
  let sorted := repositories.insertionSort fun a b =>
    [E.lower a.relativePath, a.remoteIdentity.getD ""] ≤ [E.lower b.relativePath, b.remoteIdentity.getD ""]
  let payload : Json F := .arr (sorted.map fun repo => .obj
    [("repository_id", .str (repositoryId E repo.relativePath repo.remoteIdentity)),
      ("relative_path", .str repo.relativePath),
      ("remote_identity", optionalText repo.remoteIdentity),
      ("head_ref", optionalText repo.headRef),
      ("head_sha", optionalText repo.headSha),
      ("included", .bool repo.included)])
  E.sha256 (String.ofList (print E.T.toFloatText (compact true) 0 (sortKeys payload)))

def registrySummary (path : String) (stored : Stored) : Py (Dict F) := do
  let repositories ← loadRegistry E stored
  return [("path", .str path), ("version", .int registryVersion), ("review_required", .bool true),
    ("discovered", .int repositories.length), ("accepted", .int (repositories.countP (·.included))),
    ("fingerprint", .str (workspaceRegistryFingerprint E repositories)),
    ("repositories", .arr (repositories.map (entry E)))]

/-! ### Commands -/

/-- What the disk does when the registry is replaced: it is, it is not, or it is and the synchronisation of
its directory fails then. -/
inductive Disk where
  | written
  | refused
  | unsynced

/-- `atomic_write_json(path, value)`: what is at the path then, and whether the call returns. -/
def atomicWriteJson (disk : Disk) (value : Json F) (stored : Stored) : Stored × Py Unit :=
  match E.fileText false value with
  | .error e => (stored, .error e)
  | .ok content => match disk with
    | .written => (.text content, .ok ())
    | .refused => (stored, .error (.osError "the registry cannot be replaced"))
    | .unsynced => (.text content, .error (.osError "the directory cannot be synchronised"))

/-- A discovery, with at most one repository at each path. -/
structure Discovery where
  repositories : List RepositorySpec
  distinct : (repositories.map (·.relativePath)).Nodup

/-- The decision on a repository that was discovered. -/
def mergeOne (includeNew : Bool) (existing : List RepositorySpec) (repo : RepositorySpec) : RepositorySpec :=
  match existing.find? (·.identity = repo.identity) with
  | none => { repo with
      included := includeNew
      reason := if includeNew then "auto-discovered" else repo.reason }
  | some previous =>
    -- registries of older setup versions, in which discovery was passive
    if includeNew && !previous.included && previous.reason == "discovered" then
      { repo with included := true, reason := "auto-discovered" }
    else { repo with included := previous.included, reason := previous.reason }

def merged (includeNew : Bool) (existing : List RepositorySpec) (discovery : Discovery) :
    List RepositorySpec :=
  discovery.repositories.map (mergeOne includeNew existing)

/-- `(not require_acceptance) if auto_include is None else bool(auto_include)`. -/
def includeNew (requireAcceptance : Bool) (autoInclude : Option Bool) : Bool :=
  autoInclude.getD !requireAcceptance

/-- The reading of the registry after it was written. -/
def finish (written : Stored × Py Unit) (result : Stored → Py (Dict F)) : Stored × Py (Dict F) :=
  match written with
  | (stored, .ok ()) => (stored, result stored)
  | (stored, .error e) => (stored, .error e)

/-- A refresh; `opened` is the path of the registry, with its lock taken. -/
def refreshRegistry (opened : Py String) (disk : Disk) (include_ : Bool) (discovered : Py Discovery)
    (stored : Stored) : Stored × Py (Dict F) :=
  match opened with
  | .error e => (stored, .error e)
  | .ok path => match loadRegistry E stored with
    | .error e => (stored, .error e)
    | .ok existing => match discovered with
      | .error e => (stored, .error e)
      | .ok discovery => finish (atomicWriteJson E disk
          (registryPayload E (merged include_ existing discovery)) stored) (registrySummary E path)

def matchesSelector (repo : RepositorySpec) (selector : String) : Bool :=
  [repo.relativePath, repositoryId E repo.relativePath repo.remoteIdentity,
    repo.remoteIdentity.getD "", repo.name].contains selector

/-- The repository that a selector selects. -/
def selected (repositories : List RepositorySpec) (selector : String) : Py RepositorySpec :=
  match repositories.filter (matchesSelector E · selector) with
  | [] => .error (.valueError ("repository not found: " ++ selector))
  | [repo] => .ok repo
  | _ => .error (.valueError ("repository selector is ambiguous: " ++ selector))

/-- A repository with a manual decision. -/
def decide_ (included : Bool) (repo : RepositorySpec) : RepositorySpec :=
  { repo with included := included, reason := if included then "manual-include" else "manual-exclude" }

/-- The summary with the repository that was changed. -/
def changedSummary (path : String) (target : RepositorySpec) (included : Bool) (stored : Stored) :
    Py (Dict F) := do
  let summary ← registrySummary E path stored
  return setKey "changed" (.obj (setKey "action" (.str (if included then "included" else "excluded"))
    (match entry E (decide_ included target) with
      | .obj d => d
      | _ => []))) summary

def setRepositoryIncluded (opened : Py String) (disk : Disk) (selector : String) (included : Bool)
    (stored : Stored) : Stored × Py (Dict F) :=
  let value := strip selector
  if value = "" then (stored, .error (.valueError "repository selector must not be blank"))
  else match opened with
    | .error e => (stored, .error e)
    | .ok path => match loadRegistry E stored with
      | .error e => (stored, .error e)
      | .ok repositories => match selected E repositories value with
        | .error e => (stored, .error e)
        | .ok target => finish (atomicWriteJson E disk (registryPayload E
            (repositories.map fun repo => if repo = target then decide_ included repo else repo)) stored)
            (changedSummary E path target included)

/-! ### What is read again -/

/-- A repository whose name and path the reader does not change. -/
structure Clean (repo : RepositorySpec) : Prop where
  name : strip repo.name = repo.name
  name_ne : repo.name ≠ ""
  path : strip repo.relativePath = repo.relativePath
  path_ne : repo.relativePath ≠ ""

variable {E}

theorem optionalOf_optionalText (x : Option String) :
    optionalOf (optionalText x : Json F) = some x := by
  cases x <;> rfl

theorem presentOf_str {s : String} (h : strip s = s) (hne : s ≠ "") :
    presentOf (.str s : Json F) = some s := by
  rw [presentOf, h, if_neg hne]

/-- The entry of a clean repository is read as the repository. -/
theorem entryToSpec_entry {repo : RepositorySpec} (h : Clean repo) :
    entryToSpec E (entry E repo) = some repo := by
  have hname : presentOf (.str repo.name : Json F) = some repo.name := presentOf_str h.name h.name_ne
  have hpath : presentOf (.str repo.relativePath : Json F) = some repo.relativePath :=
    presentOf_str h.path h.path_ne
  unfold entry entryToSpec
  simp [getKey, lookup, hname, hpath, optionalOf_optionalText, h.name, h.path, idMatches]

theorem clean_of_present {v w : Json F} {name path : String} (hname : presentOf v = some name)
    (hpath : presentOf w = some path) (gitDir remote headRef headSha : Option String) (included : Bool)
    (reason : String) :
    Clean ⟨strip name, strip path, gitDir, remote, headRef, headSha, included, reason⟩ := by
  have hpresent : ∀ {u : Json F} {text : String}, presentOf u = some text → strip text ≠ "" := by
    intro u text h
    cases u with
    | str s =>
      rw [presentOf] at h
      split_ifs at h with hs
      rwa [← Option.some_inj.mp h]
    | _ => cases h
  exact ⟨strip_strip name, hpresent hname, strip_strip path, hpresent hpath⟩

/-- What is read of an entry is clean. -/
theorem clean_entryToSpec {v : Json F} {repo : RepositorySpec} (h : entryToSpec E v = some repo) :
    Clean repo := by
  cases v with
  | obj e =>
    unfold entryToSpec at h
    simp only [Option.bind_eq_bind, Option.bind_eq_some_iff] at h
    obtain ⟨name, hname, path, hpath, remote, -, gitDir, -, headRef, -, headSha, -, h⟩ := h
    split at h
    · split_ifs at h
      rw [← Option.some_inj.mp h]
      exact clean_of_present hname hpath _ _ _ _ _ _
    · cases h
  | _ => cases h

/-- The entries of clean repositories with different identities are read as the repositories. -/
theorem specsFrom_entries : ∀ {repositories : List RepositorySpec} {seen : List Identity},
    (∀ repo ∈ repositories, Clean repo ∧ repo.identity ∉ seen) → (repositories.map (·.identity)).Nodup →
    specsFrom E seen (repositories.map (entry E)) = some repositories
  | [], _, _, _ => rfl
  | repo :: rest, seen, h, hkeys => by
    rw [List.forall_mem_cons] at h
    rw [List.map_cons, List.nodup_cons] at hkeys
    have hrest : specsFrom E (repo.identity :: seen) (rest.map (entry E)) = some rest := by
      refine specsFrom_entries (fun r hr => ⟨(h.2 r hr).1, ?_⟩) hkeys.2
      rw [List.mem_cons, not_or]
      exact ⟨fun heq => hkeys.1 (heq ▸ List.mem_map_of_mem hr), (h.2 r hr).2⟩
    rw [List.map_cons, specsFrom, entryToSpec_entry h.1.1]
    simp [h.1.2, hrest]

/-- What is read of entries is clean and has different identities. -/
theorem clean_specsFrom : ∀ {raw : List (Json F)} {seen : List Identity} {specs : List RepositorySpec},
    specsFrom E seen raw = some specs →
    (∀ repo ∈ specs, Clean repo ∧ repo.identity ∉ seen) ∧ (specs.map (·.identity)).Nodup
  | [], _, specs, h => by
    rw [← Option.some_inj.mp h]
    simp
  | v :: raw, seen, specs, h => by
    rw [specsFrom] at h
    obtain ⟨repo, hrepo, h⟩ := Option.bind_eq_some_iff.mp h
    split_ifs at h with hseen
    obtain ⟨rest, hrest, h⟩ := Option.bind_eq_some_iff.mp h
    obtain ⟨hclean, hnodup⟩ := clean_specsFrom hrest
    rw [← Option.some_inj.mp h, List.forall_mem_cons, List.map_cons, List.nodup_cons]
    refine ⟨⟨⟨clean_entryToSpec hrepo, by simpa using hseen⟩, fun r hr => ⟨(hclean r hr).1, ?_⟩⟩, ?_, hnodup⟩
    · exact fun hmem => (hclean r hr).2 (List.mem_cons_of_mem _ hmem)
    · intro hmem
      obtain ⟨r, hr, heq⟩ := List.mem_map.mp hmem
      exact (hclean r hr).2 (heq ▸ List.mem_cons_self)

theorem perm_ordered (repositories : List RepositorySpec) : (ordered E repositories).Perm repositories :=
  List.perm_insertionSort _ _

/-- The registry reads as these repositories, each of them clean and with its own identity. -/
structure Reads (specs : List RepositorySpec) : Prop where
  clean : ∀ repo ∈ specs, Clean repo
  identities : (specs.map (·.identity)).Nodup

theorem reads_nil : Reads [] := ⟨by simp, by simp⟩

theorem reads_specsOf {data : Json F} {specs : List RepositorySpec} (h : specsOf E data = specs) :
    Reads specs := by
  cases data with
  | obj d =>
    rw [specsOf] at h
    split_ifs at h
    · split at h
      · next raw _ _ =>
        cases hfrom : specsFrom E [] raw with
        | none =>
          rw [hfrom] at h
          exact h ▸ reads_nil
        | some found =>
          rw [hfrom] at h
          obtain ⟨hclean, hnodup⟩ := clean_specsFrom hfrom
          have hspecs : ordered E found = specs := h
          rw [← hspecs]
          exact ⟨fun repo hrepo => (hclean repo ((perm_ordered found).mem_iff.mp hrepo)).1,
            ((perm_ordered found).map _).nodup_iff.mpr hnodup⟩
      · exact h ▸ reads_nil
    · exact h ▸ reads_nil
  | _ => exact h ▸ reads_nil

/-- Every repository that a registry is read to hold is clean, and their identities differ. -/
theorem reads_of_load {stored : Stored} {specs : List RepositorySpec}
    (h : loadRegistry E stored = .ok specs) : Reads specs := by
  cases stored with
  | missing =>
    cases h
    exact reads_nil
  | undecodable => cases h
  | text content =>
    rw [loadRegistry] at h
    split at h
    · exact reads_specsOf (Except.ok.inj h)
    · cases h
      exact reads_nil
    · cases h

/-! ### The file of a registry -/

theorem wellFormed_optionalText (x : Option String) : wellFormed (optionalText x : Json F) = true := by
  cases x <;> rfl

theorem printable_optionalText (x : Option String) :
    printable E.T.toFloatText true (optionalText x) = true := by
  cases x <;> rfl

theorem wellFormed_entry (repo : RepositorySpec) : wellFormed (entry E repo) = true := by
  rw [entry, wellFormed_obj]
  refine ⟨?_, ?_⟩
  · have hkeys : (["repository_id", "name", "relative_path", "git_dir", "remote_identity", "head_ref",
        "head_sha", "included", "reason"] : List String).Nodup := by decide
    exact hkeys
  · simp [wellFormed_optionalText, wellFormed]

theorem printable_entry (repo : RepositorySpec) : printable E.T.toFloatText true (entry E repo) = true := by
  rw [entry, printable_obj]
  simp [printable_optionalText, printable]

theorem wellFormed_payload (repositories : List RepositorySpec) :
    wellFormed (registryPayload E repositories) = true := by
  rw [registryPayload, wellFormed_obj]
  refine ⟨?_, ?_⟩
  · have hkeys : (["version", "review_required", "repositories"] : List String).Nodup := by decide
    exact hkeys
  · have hentries : wellFormed (.arr ((ordered E repositories).map (entry E))) = true := by
      rw [wellFormed_arr]
      simp [wellFormed_entry]
    simp only [List.forall_mem_cons]
    exact ⟨rfl, rfl, hentries, by simp⟩

theorem printable_payload (repositories : List RepositorySpec) :
    printable E.T.toFloatText true (registryPayload E repositories) = true := by
  rw [registryPayload, printable_obj]
  have hversion : printable E.T.toFloatText true (.int registryVersion) = true :=
    printable_small true (by decide)
  have hentries : printable E.T.toFloatText true (.arr ((ordered E repositories).map (entry E))) = true := by
    rw [printable_arr]
    simp [printable_entry]
  simp only [List.forall_mem_cons]
  exact ⟨hversion, rfl, hentries, by simp⟩

/-- **What was written is read again**, if it is clean and no identity is there twice. -/
theorem load_written {repositories : List RepositorySpec} (h : Reads repositories) {content : String}
    (hcontent : E.fileText false (registryPayload E repositories) = .ok content) :
    loadRegistry E (.text content) = .ok (ordered E (ordered E repositories)) := by
  have hloads := jsonLoads_fileText_of E (if_neg Bool.false_ne_true) (wellFormed_payload repositories) hcontent
  have hfrom : specsFrom E [] ((ordered E repositories).map (entry E)) = some (ordered E repositories) :=
    specsFrom_entries
      (fun repo hrepo => ⟨h.clean repo ((perm_ordered repositories).mem_iff.mp hrepo), List.not_mem_nil⟩)
      (((perm_ordered repositories).map _).nodup_iff.mpr h.identities)
  rw [loadRegistry, hloads]
  have hversion : pyEq E.T (.int registryVersion) (.int registryVersion) = true := by
    simp [pyEq, numOf, Lib.Floats.Num.eq]
  simp only [registryPayload, specsOf, getKey, lookup]
  simp [hversion, hfrom]

end ControlPlane.Workspace.Registry
