import ControlPlane.Gate.Parameters

/-! # The walk through the parameters

`validateToolParameters` looks at the entry at every key of the parameters of an action: what the key
names must be within the policy. Along the way it collects the repositories that the entries name.

`validate_iff`: of parameters that the digest's walk accepts, it accepts those with every entry granted
(`Granted`), and it finds the repositories of these entries. -/

namespace ControlPlane.Gate.Walk

open ControlPlane.Lib.Value ControlPlane.Lib.Text ControlPlane.Lib.Dynamic ControlPlane.Lib.Tree
open ControlPlane.Environment ControlPlane.Gate.Parameters

inductive DenialReason where
  | unknownEvidence
  | invalidRequest
  | toolNotAllowlisted
  | controlPlaneOwned
  | operatorOwned
  | trustedRuntimeGrantRequired
  | verificationRequired
  | capabilityNotGranted
  | privilegedParameter
  | repositoryScopeViolation
  | repositoryScopeRequired
  | pathScopeViolation
  | graphDepthExceeded
  | parameterBudgetExceeded
  deriving DecidableEq

def DenialReason.value : DenialReason → String
  | .unknownEvidence => "unknown_evidence"
  | .invalidRequest => "invalid_request"
  | .toolNotAllowlisted => "tool_not_allowlisted"
  | .controlPlaneOwned => "control_plane_owned_capability"
  | .operatorOwned => "operator_owned_capability"
  | .trustedRuntimeGrantRequired => "trusted_runtime_grant_required"
  | .verificationRequired => "verification_required"
  | .capabilityNotGranted => "capability_not_granted"
  | .privilegedParameter => "privileged_parameter"
  | .repositoryScopeViolation => "repository_scope_violation"
  | .repositoryScopeRequired => "repository_scope_required"
  | .pathScopeViolation => "path_scope_violation"
  | .graphDepthExceeded => "graph_depth_exceeded"
  | .parameterBudgetExceeded => "parameter_budget_exceeded"

/-- The part of a policy that decisions are made of. -/
structure ModelCapabilityPolicy where
  schema : String
  allowedTools : List String
  activeRepositoryIds : List String
  maxGraphDepth : ℤ
  taskDigest : Option String

/-! ### Keys -/

def privilegedParameterKeys : List String :=
  ["command", "commands", "shell", "argv", "executable", "network_host", "host", "hostname", "url",
    "uri", "endpoint_url", "secret", "secret_name", "secrets", "token", "api_key", "credential",
    "credentials", "provider", "provider_id", "requested_lane", "lane", "risk", "skip_verification",
    "verification_passes", "repository_activation", "activate_repository"]

def repositoryParameterKeys : List String := ["repository_id", "repo_id"]

def depthParameterKeys : List String := ["depth", "graph_depth", "max_depth"]

def pathParameterKeys : List String :=
  ["path", "file", "files", "changed_file", "changed_files", "source_path", "target_path"]

variable {F : Type} (E : Env F)

def normalizedParameterKey (key : String) : String :=
  String.ofList ((E.casefold (strip key)).toList.map fun c => if c = '-' then '_' else c)

def endsWith (s p : String) : Bool := p.toList.isSuffixOf s.toList

def isPathKey (key : String) : Bool :=
  pathParameterKeys.contains key || endsWith key "_path" || endsWith key "_file" ||
    endsWith key "_files"

/-! ### Paths -/

/-- `PurePosixPath(raw).parts` of a path that does not begin with a slash. -/
def posixParts (raw : List Char) : List (List Char) :=
  (raw.splitOn '/').filter fun part => part ≠ [] && part ≠ ['.']

/-- A path that begins with a drive letter. -/
def hasDrive : List Char → Bool
  | c :: ':' :: _ => c.isAlpha
  | _ => false

def safeRelativePath (value : String) : Bool :=
  let raw := (strip value).toList.map fun c => if c = '\\' then '/' else c
  if raw = [] ∨ '\x00' ∈ raw ∨ raw.head? = some '/' ∨ raw.head? = some '~' ∨ "://".toList <:+: raw ∨
      hasDrive raw = true then false
  else (posixParts raw).all fun part => part ≠ ['.', '.'] && part ≠ []

/-- An element of a list of paths. -/
def safeItem : Param F → Bool
  | .str s => safeRelativePath s
  | _ => false

def pathValuesAreSafe : Param F → Bool
  | .str s => safeRelativePath s
  | .seq _ xs => !xs.isEmpty && xs.all safeItem
  | _ => false

/-! ### The walk -/

variable (policy : ModelCapabilityPolicy)

/-- The check of a value at a repository key. -/
def checkRepository (normalized : String) (value : Param F) (repositories : Finset String) :
    Except DenialReason (Finset String) :=
  if normalized ∈ repositoryParameterKeys then
    match value with
    | .str s =>
      if strip s = "" then .error .invalidRequest
      else if strip s ∈ policy.activeRepositoryIds then .ok (insert (strip s) repositories)
      else .error .repositoryScopeViolation
    | _ => .error .invalidRequest
  else .ok repositories

/-- The check of a value at a depth key; a Boolean is no depth. -/
def checkDepth (normalized : String) (value : Param F) : Except DenialReason Unit :=
  if normalized ∈ depthParameterKeys then
    match value with
    | .int n => if n < 0 ∨ n > policy.maxGraphDepth then .error .graphDepthExceeded else .ok ()
    | _ => .error .invalidRequest
  else .ok ()

/-- What the walk checks of the value at a key. -/
def checkKey (key : String) (value : Param F) (repositories : Finset String) :
    Except DenialReason (Finset String) :=
  let normalized := normalizedParameterKey E key
  if normalized ∈ privilegedParameterKeys then .error .privilegedParameter
  else do
    let repositories ← checkRepository policy normalized value repositories
    checkDepth policy normalized value
    if isPathKey normalized && !pathValuesAreSafe value then .error .pathScopeViolation
    else .ok repositories

/-- What the walk checks of a value that stands at a key or at none. -/
def checkAt (key : Option String) (value : Param F) (repositories : Finset String) :
    Except DenialReason (Finset String) :=
  match key with
  | some key => checkKey E policy key value repositories
  | none => .ok repositories

mutual
/-- The walk at a value that stands at a key or at none, behind some nodes and with the repositories
found so far. -/
def walk (key : Option String) (value : Param F) (depth budget : ℕ) (repositories : Finset String) :
    Except DenialReason (ℕ × Finset String) :=
  if budget + 1 > maxParameterNodes ∨ depth > maxParameterDepth then .error .parameterBudgetExceeded
  else do
    let repositories ← checkAt E policy key value repositories
    match value with
    | .map es => walkEntries es depth (budget + 1) repositories
    | .seq _ xs => walkItems xs depth (budget + 1) repositories
    | .str s =>
      if s.length > maxParameterStringChars then .error .parameterBudgetExceeded
      else .ok (budget + 1, repositories)
    | .null => .ok (budget + 1, repositories)
    | .bool _ => .ok (budget + 1, repositories)
    | .int _ => .ok (budget + 1, repositories)
    | .float x =>
      if E.T.finite x then .ok (budget + 1, repositories) else .error .invalidRequest
    | .other _ => .error .invalidRequest
/-- The loop over the entries of a mapping. -/
def walkEntries (es : Entries F) (depth budget : ℕ) (repositories : Finset String) :
    Except DenialReason (ℕ × Finset String) :=
  match es with
  | [] => .ok (budget, repositories)
  | (key, value) :: es =>
    match key with
    | .str k =>
      if k = "" then .error .invalidRequest
      else do
        let (budget, repositories) ← walk (some k) value (depth + 1) budget repositories
        walkEntries es depth budget repositories
    | .other => .error .invalidRequest
/-- The loop over the elements of a sequence. -/
def walkItems (xs : List (Param F)) (depth budget : ℕ) (repositories : Finset String) :
    Except DenialReason (ℕ × Finset String) :=
  match xs with
  | [] => .ok (budget, repositories)
  | value :: xs => do
    let (budget, repositories) ← walk none value (depth + 1) budget repositories
    walkItems xs depth budget repositories
end

/-- The repositories that the parameters name, or why the parameters are refused. -/
def validateToolParameters (parameters : Entries F) : Except DenialReason (Finset String) := do
  let (_, repositories) ← walk E policy none (.map parameters) 0 0 ∅
  return repositories

/-! ### What an entry may hold -/

/-- A safe relative path or a list of them. -/
def SafePaths (j : Json F) : Prop :=
  (∃ s, j = .str s ∧ safeRelativePath s = true) ∨
  ∃ xs, j = .arr xs ∧ xs ≠ [] ∧ ∀ x ∈ xs, ∃ s, x = .str s ∧ safeRelativePath s = true

/-- The entry is within the policy. -/
structure Granted (e : String × Json F) : Prop where
  key : normalizedParameterKey E e.1 ∉ privilegedParameterKeys
  repository : normalizedParameterKey E e.1 ∈ repositoryParameterKeys →
    ∃ s, e.2 = .str s ∧ strip s ≠ "" ∧ strip s ∈ policy.activeRepositoryIds
  depth : normalizedParameterKey E e.1 ∈ depthParameterKeys →
    ∃ n, e.2 = .int n ∧ 0 ≤ n ∧ n ≤ policy.maxGraphDepth
  path : isPathKey (normalizedParameterKey E e.1) = true → SafePaths e.2

/-- The repository that an entry names. -/
def repository? (e : String × Json F) : Option String :=
  if normalizedParameterKey E e.1 ∈ repositoryParameterKeys then
    match e.2 with
    | .str s => some (strip s)
    | _ => none
  else none

/-- The repositories that some entries name. -/
def repositories (es : Dict F) : Finset String := (es.filterMap (repository? E)).toFinset

variable {E policy}

theorem jsonList?_str {xs : List (Param F)} : ∀ {ys : List (Json F)}, jsonList? xs = some ys →
    (xs.all safeItem = true ↔ ∀ y ∈ ys, ∃ s, y = .str s ∧ safeRelativePath s = true) := by
  induction xs with
  | nil =>
    intro ys h
    cases h
    simp
  | cons x xs ih =>
    intro ys h
    rw [jsonList?] at h
    obtain ⟨y, hy, h⟩ := Option.bind_eq_some_iff.mp h
    obtain ⟨zs, hzs, h⟩ := Option.bind_eq_some_iff.mp h
    cases h
    rw [List.all_cons, Bool.and_eq_true, ih hzs, List.forall_mem_cons]
    refine and_congr_left fun _ => ?_
    cases x with
    | str s =>
      cases hy
      simp [safeItem]
    | seq t xs =>
      obtain ⟨zs, -, rfl⟩ := Option.map_eq_some_iff.mp hy
      simp [safeItem]
    | map es =>
      obtain ⟨d, -, rfl⟩ := Option.map_eq_some_iff.mp hy
      simp [safeItem]
    | other name => cases hy
    | _ =>
      cases hy
      simp [safeItem]

theorem pathValuesAreSafe_iff {v : Param F} {j : Json F} (h : json? v = some j) :
    pathValuesAreSafe v = true ↔ SafePaths j := by
  cases v with
  | str s =>
    cases h
    simp [pathValuesAreSafe, SafePaths]
  | seq t xs =>
    obtain ⟨ys, hys, rfl⟩ := Option.map_eq_some_iff.mp h
    have hnil : xs.isEmpty = false ↔ ys ≠ [] := by
      rw [List.isEmpty_eq_false_iff, ← List.length_pos_iff, length_jsonList? hys,
        List.length_pos_iff]
    rw [pathValuesAreSafe, Bool.and_eq_true, Bool.not_eq_true', hnil, jsonList?_str hys]
    constructor
    · rintro ⟨hne, hall⟩
      exact Or.inr ⟨ys, rfl, hne, hall⟩
    · rintro (⟨s, ⟨⟩, -⟩ | ⟨zs, hzs, hne, hall⟩)
      cases hzs
      exact ⟨hne, hall⟩
  | map es =>
    obtain ⟨d, -, rfl⟩ := Option.map_eq_some_iff.mp h
    simp [pathValuesAreSafe, SafePaths]
  | other name => cases h
  | _ =>
    cases h
    simp [pathValuesAreSafe, SafePaths]

theorem checkRepository_eq_ok {key : String} {v : Param F} {j : Json F} (h : json? v = some j)
    {found after : Finset String} :
    checkRepository policy (normalizedParameterKey E key) v found = .ok after ↔
      (normalizedParameterKey E key ∈ repositoryParameterKeys →
        ∃ s, j = .str s ∧ strip s ≠ "" ∧ strip s ∈ policy.activeRepositoryIds) ∧
      after = found ∪ repositories E [(key, j)] := by
  unfold checkRepository
  by_cases hk : normalizedParameterKey E key ∈ repositoryParameterKeys
  · rw [if_pos hk]
    have hrep : ∀ s, j = .str s → repositories E [(key, j)] = {strip s} := by
      rintro s rfl
      simp [repositories, repository?, hk]
    cases v with
    | str s =>
      cases h
      rw [hrep s rfl, Finset.union_comm, ← Finset.insert_eq]
      by_cases h1 : strip s = ""
      · simp [h1, hk]
      · by_cases h2 : strip s ∈ policy.activeRepositoryIds
        · simp only [if_neg h1, if_pos h2, Except.ok.injEq]
          exact ⟨fun he => ⟨fun _ => ⟨s, rfl, h1, h2⟩, he.symm⟩, fun he => he.2.symm⟩
        · simp [h1, h2, hk]
    | seq t xs =>
      obtain ⟨ys, -, rfl⟩ := Option.map_eq_some_iff.mp h
      simp [hk]
    | map es =>
      obtain ⟨d, -, rfl⟩ := Option.map_eq_some_iff.mp h
      simp [hk]
    | other name => cases h
    | _ =>
      cases h
      simp [hk]
  · rw [if_neg hk, Except.ok.injEq]
    have hrep : repositories E [(key, j)] = ∅ := by simp [repositories, repository?, hk]
    rw [hrep, Finset.union_empty]
    exact ⟨fun he => ⟨fun hk' => absurd hk' hk, he.symm⟩, fun he => he.2.symm⟩

theorem checkDepth_eq_ok {key : String} {v : Param F} {j : Json F} (h : json? v = some j) {u : Unit} :
    checkDepth policy (normalizedParameterKey E key) v = .ok u ↔
      (normalizedParameterKey E key ∈ depthParameterKeys →
        ∃ n, j = .int n ∧ 0 ≤ n ∧ n ≤ policy.maxGraphDepth) := by
  unfold checkDepth
  by_cases hk : normalizedParameterKey E key ∈ depthParameterKeys
  · rw [if_pos hk]
    cases v with
    | int n =>
      cases h
      by_cases hn : n < 0 ∨ n > policy.maxGraphDepth
      · simp only [if_pos hn]
        constructor
        · rintro ⟨⟩
        · intro hd
          obtain ⟨m, hm, h0, hm'⟩ := hd hk
          cases hm
          omega
      · simp only [if_neg hn]
        exact ⟨fun _ _ => ⟨n, rfl, by omega, by omega⟩, fun _ => trivial⟩
    | seq t xs =>
      obtain ⟨ys, -, rfl⟩ := Option.map_eq_some_iff.mp h
      simp [hk]
    | map es =>
      obtain ⟨d, -, rfl⟩ := Option.map_eq_some_iff.mp h
      simp [hk]
    | other name => cases h
    | _ =>
      cases h
      simp [hk]
  · rw [if_neg hk]
    exact ⟨fun _ hk' => absurd hk' hk, fun _ => rfl⟩

theorem checkKey_eq_ok {key : String} {v : Param F} {j : Json F} (h : json? v = some j)
    {found after : Finset String} :
    checkKey E policy key v found = .ok after ↔
      Granted E policy (key, j) ∧ after = found ∪ repositories E [(key, j)] := by
  unfold checkKey
  by_cases hkey : normalizedParameterKey E key ∈ privilegedParameterKeys
  · rw [if_pos hkey]
    constructor
    · rintro ⟨⟩
    · rintro ⟨hg, -⟩
      exact absurd hkey hg.key
  · rw [if_neg hkey]
    constructor
    · intro hc
      obtain ⟨mid, hrep, hc⟩ := bind_eq_ok.mp hc
      obtain ⟨u, hdepth, hc⟩ := bind_eq_ok.mp hc
      split_ifs at hc with hpath
      cases hc
      obtain ⟨hrep, hafter⟩ := (checkRepository_eq_ok h).mp hrep
      refine ⟨⟨hkey, hrep, (checkDepth_eq_ok h).mp hdepth, fun hk => ?_⟩, hafter⟩
      rw [← pathValuesAreSafe_iff h]
      simpa [hk] using hpath
    · rintro ⟨hg, rfl⟩
      have hrep := (@checkRepository_eq_ok _ E policy _ _ _ h found _).mpr ⟨hg.repository, rfl⟩
      have hdepth := (checkDepth_eq_ok h (u := ())).mpr hg.depth
      have hpath : ¬ (isPathKey (normalizedParameterKey E key) && !pathValuesAreSafe v) = true := by
        intro hk
        rw [Bool.and_eq_true, Bool.not_eq_true'] at hk
        have := (pathValuesAreSafe_iff h).mpr (hg.path hk.1)
        rw [hk.2] at this
        cases this
      refine bind_eq_ok.mpr ⟨_, hrep, bind_eq_ok.mpr ⟨(), hdepth, ?_⟩⟩
      rw [if_neg hpath]

/-- The entry that a value stands at, if any. -/
def own (key : Option String) (j : Json F) : Dict F := key.toList.map fun k => (k, j)

/-- The entries that the walk looks at. -/
def around (key : Option String) (j : Json F) : Dict F := own key j ++ entries j

theorem checkAt_eq_ok {key : Option String} {v : Param F} {j : Json F} (h : json? v = some j)
    {found after : Finset String} :
    checkAt E policy key v found = .ok after ↔
      (∀ e ∈ own key j, Granted E policy e) ∧ after = found ∪ repositories E (own key j) := by
  cases key with
  | none => simp [checkAt, own, repositories, eq_comm]
  | some k => simp [checkAt, own, checkKey_eq_ok h]

theorem repositories_append (d e : Dict F) :
    repositories E (d ++ e) = repositories E d ∪ repositories E e := by
  rw [repositories, List.filterMap_append, List.toFinset_append]
  rfl

/-- The walk at a value: the check of the key it stands at, then what is done with the value. -/
theorem walk_value {x : Finset String → Except DenialReason (ℕ × Finset String)} {v : Param F}
    {j : Json F} {key : Option String} {depth budget : ℕ} {found : Finset String}
    {after : ℕ × Finset String} (hj : json? v = some j) (hf : Fits E j depth budget)
    (hx : ∀ found after, x found = .ok after ↔ (∀ e ∈ entries j, Granted E policy e) ∧
      after = (budget + size j, found ∪ repositories E (entries j))) :
    ((if budget + 1 > maxParameterNodes ∨ depth > maxParameterDepth then
        .error .parameterBudgetExceeded
      else do
        let repositories ← checkAt E policy key v found
        x repositories) = .ok after ↔
      (∀ e ∈ around key j, Granted E policy e) ∧
        after = (budget + size j, found ∪ repositories E (around key j))) := by
  have hpos := size_pos j
  have hwide := hf.wide
  have hdeep := hf.deep
  rw [if_neg (by omega), bind_eq_ok, around, repositories_append, List.forall_mem_append]
  constructor
  · rintro ⟨mid, hc, hm⟩
    obtain ⟨hg, rfl⟩ := (checkAt_eq_ok hj).mp hc
    obtain ⟨hall, rfl⟩ := (hx _ _).mp hm
    exact ⟨⟨hg, hall⟩, by rw [Finset.union_assoc]⟩
  · rintro ⟨⟨hg, hall⟩, rfl⟩
    exact ⟨_, (checkAt_eq_ok hj).mpr ⟨hg, rfl⟩, (hx _ _).mpr ⟨hall, by rw [Finset.union_assoc]⟩⟩

/-- The walk at a leaf, where nothing more is done. -/
theorem walk_leaf {x : Finset String → Except DenialReason (ℕ × Finset String)} {v : Param F}
    {j : Json F} {key : Option String} {depth budget : ℕ} {found : Finset String}
    {after : ℕ × Finset String} (hj : json? v = some j) (hl : IsLeaf j) (hf : Fits E j depth budget)
    (hx : ∀ found, x found = .ok (budget + 1, found)) :
    ((if budget + 1 > maxParameterNodes ∨ depth > maxParameterDepth then
        .error .parameterBudgetExceeded
      else do
        let repositories ← checkAt E policy key v found
        x repositories) = .ok after ↔
      (∀ e ∈ around key j, Granted E policy e) ∧
        after = (budget + size j, found ∪ repositories E (around key j))) := by
  refine walk_value hj hf fun found after => ?_
  obtain ⟨-, he, hs, -⟩ := hl
  have hnone : found ∪ repositories E (entries j) = found := by
    rw [he]
    exact Finset.union_empty found
  rw [hx, hnone, hs, he, Except.ok.injEq, eq_comm]
  exact ⟨fun h => ⟨fun e hm => absurd hm List.not_mem_nil, h⟩, fun h => h.2⟩

mutual
/-- **What the walk asks of a value that fits.** -/
theorem walk_eq_ok : ∀ {v : Param F} {j : Json F} {key : Option String} {depth budget : ℕ}
    {found : Finset String} {after : ℕ × Finset String}, json? v = some j → Fits E j depth budget →
    (walk E policy key v depth budget found = .ok after ↔
      (∀ e ∈ around key j, Granted E policy e) ∧
        after = (budget + size j, found ∪ repositories E (around key j)))
  | .null, j, key, depth, budget, found, after, hj, hf => by
    cases hj
    rw [walk]
    exact walk_leaf rfl ⟨rfl, rfl, rfl, rfl⟩ hf fun _ => rfl
  | .bool b, j, key, depth, budget, found, after, hj, hf => by
    cases hj
    rw [walk]
    exact walk_leaf rfl ⟨rfl, rfl, rfl, rfl⟩ hf fun _ => rfl
  | .int n, j, key, depth, budget, found, after, hj, hf => by
    cases hj
    rw [walk]
    exact walk_leaf rfl ⟨rfl, rfl, rfl, rfl⟩ hf fun _ => rfl
  | .float x, j, key, depth, budget, found, after, hj, hf => by
    cases hj
    have hx : E.T.finite x = true := ((fits_leaf ⟨rfl, rfl, rfl, rfl⟩).mp hf).1
    rw [walk]
    exact walk_leaf rfl ⟨rfl, rfl, rfl, rfl⟩ hf fun _ => if_pos hx
  | .str s, j, key, depth, budget, found, after, hj, hf => by
    cases hj
    have hs : s.length ≤ maxParameterStringChars := ((fits_leaf ⟨rfl, rfl, rfl, rfl⟩).mp hf).1
    rw [walk]
    exact walk_leaf rfl ⟨rfl, rfl, rfl, rfl⟩ hf fun _ => if_neg (not_lt.mpr hs)
  | .seq t xs, j, key, depth, budget, found, after, hj, hf => by
    obtain ⟨ys, hys, rfl⟩ := Option.map_eq_some_iff.mp hj
    have hsize := size_arr ys
    have hwide := hf.wide
    have hdeep := hf.deep
    rw [walk]
    refine walk_value hj hf fun found after => ?_
    rw [walkItems_eq_ok hys (fun y hy => ⟨clean_arr.mp hf.clean y hy, ?_⟩) (by omega), hsize,
      ← add_assoc, add_right_comm]
    · rfl
    · have := height_arr_le.mp le_rfl y hy
      omega
  | .map es, j, key, depth, budget, found, after, hj, hf => by
    obtain ⟨d, hd, rfl⟩ := Option.map_eq_some_iff.mp hj
    have hsize := size_obj d
    have hwide := hf.wide
    have hdeep := hf.deep
    rw [walk]
    refine walk_value hj hf fun found after => ?_
    rw [walkEntries_eq_ok hd (fun p hp => ⟨((clean_obj.mp hf.clean p hp).1).1,
      (clean_obj.mp hf.clean p hp).2, ?_⟩) (by omega), hsize, ← add_assoc, add_right_comm]
    · rfl
    · have := height_obj_le.mp le_rfl p hp
      omega
  | .other name, j, key, depth, budget, found, after, hj, hf => by cases hj
theorem walkItems_eq_ok : ∀ {xs : List (Param F)} {ys : List (Json F)} {depth budget : ℕ}
    {found : Finset String} {after : ℕ × Finset String}, jsonList? xs = some ys →
    (∀ y ∈ ys, Clean E y ∧ depth + 1 + height y ≤ maxParameterDepth) →
    budget + (ys.map size).sum ≤ maxParameterNodes →
    (walkItems E policy xs depth budget found = .ok after ↔
      (∀ e ∈ entriesList ys, Granted E policy e) ∧
        after = (budget + (ys.map size).sum, found ∪ repositories E (entriesList ys)))
  | [], ys, depth, budget, found, after, hj, hall, hsum => by
    cases hj
    simp [walkItems, entriesList, repositories, eq_comm]
  | x :: xs, ys, depth, budget, found, after, hj, hall, hsum => by
    rw [jsonList?] at hj
    obtain ⟨y, hy, hj⟩ := Option.bind_eq_some_iff.mp hj
    obtain ⟨zs, hzs, hj⟩ := Option.bind_eq_some_iff.mp hj
    cases hj
    rw [List.map_cons, List.sum_cons] at hsum ⊢
    rw [List.forall_mem_cons] at hall
    have hf : Fits E y (depth + 1) budget := ⟨hall.1.1, hall.1.2, by omega⟩
    rw [walkItems, bind_eq_ok, entriesList, repositories_append, List.forall_mem_append]
    constructor
    · rintro ⟨⟨b, mid⟩, hx, hxs⟩
      obtain ⟨hg, he⟩ := (walk_eq_ok hy hf).mp hx
      cases he
      obtain ⟨hgs, rfl⟩ := (walkItems_eq_ok hzs hall.2 (by omega)).mp hxs
      exact ⟨⟨hg, hgs⟩, by rw [add_assoc, Finset.union_assoc]; rfl⟩
    · rintro ⟨⟨hg, hgs⟩, rfl⟩
      refine ⟨_, (walk_eq_ok hy hf).mpr ⟨hg, rfl⟩,
        (walkItems_eq_ok hzs hall.2 (by omega)).mpr ⟨hgs, ?_⟩⟩
      rw [add_assoc, Finset.union_assoc]
      rfl
theorem walkEntries_eq_ok : ∀ {es : Entries F} {d : Dict F} {depth budget : ℕ}
    {found : Finset String} {after : ℕ × Finset String}, jsonDict? es = some d →
    (∀ p ∈ d, p.1 ≠ "" ∧ Clean E p.2 ∧ depth + 1 + height p.2 ≤ maxParameterDepth) →
    budget + (d.map fun p => size p.2).sum ≤ maxParameterNodes →
    (walkEntries E policy es depth budget found = .ok after ↔
      (∀ e ∈ entriesDict d, Granted E policy e) ∧
        after = (budget + (d.map fun p => size p.2).sum, found ∪ repositories E (entriesDict d)))
  | [], d, depth, budget, found, after, hj, hall, hsum => by
    cases hj
    simp [walkEntries, entriesDict, repositories, eq_comm]
  | (.other, x) :: es, d, depth, budget, found, after, hj, hall, hsum => by cases hj
  | (.str k, x) :: es, d, depth, budget, found, after, hj, hall, hsum => by
    rw [jsonDict?] at hj
    obtain ⟨l, hl, hj⟩ := Option.bind_eq_some_iff.mp hj
    obtain ⟨y, hy, hj⟩ := Option.bind_eq_some_iff.mp hj
    obtain ⟨rest, hrest, hj⟩ := Option.bind_eq_some_iff.mp hj
    cases hl
    cases hj
    rw [List.map_cons, List.sum_cons] at hsum ⊢
    dsimp only at hsum ⊢
    rw [List.forall_mem_cons] at hall
    obtain ⟨⟨hk, hclean, hdeep⟩, hall⟩ := hall
    have hf : Fits E y (depth + 1) budget := ⟨hclean, hdeep, by omega⟩
    have he : entriesDict ((k, y) :: rest) = around (some k) y ++ entriesDict rest := rfl
    rw [walkEntries]
    dsimp only
    rw [if_neg hk, bind_eq_ok, he, repositories_append, List.forall_mem_append]
    constructor
    · rintro ⟨⟨b, mid⟩, hx, hes⟩
      obtain ⟨hg, he⟩ := (walk_eq_ok hy hf).mp hx
      cases he
      obtain ⟨hgs, rfl⟩ := (walkEntries_eq_ok hrest hall (by omega)).mp hes
      exact ⟨⟨hg, hgs⟩, by rw [add_assoc, Finset.union_assoc]⟩
    · rintro ⟨⟨hg, hgs⟩, rfl⟩
      refine ⟨_, (walk_eq_ok hy hf).mpr ⟨hg, rfl⟩,
        (walkEntries_eq_ok hrest hall (by omega)).mpr ⟨hgs, ?_⟩⟩
      rw [add_assoc, Finset.union_assoc]
end

/-- **Validation**: of parameters that the digest's walk accepts, those are accepted in which every
entry is granted. -/
theorem validate_iff {parameters : Entries F} {j : Json F} (hj : json? (.map parameters) = some j)
    (hf : Fits E j 0 0) {found : Finset String} :
    validateToolParameters E policy parameters = .ok found ↔
      (∀ e ∈ entries j, Granted E policy e) ∧ found = repositories E (entries j) := by
  have hwalk := fun after => @walk_eq_ok _ E policy _ _ none 0 0 ∅ after hj hf
  rw [validateToolParameters, bind_eq_ok]
  constructor
  · rintro ⟨after, hw, he⟩
    obtain ⟨hall, rfl⟩ := (hwalk after).mp hw
    cases he
    exact ⟨hall, Finset.empty_union _⟩
  · rintro ⟨hall, rfl⟩
    refine ⟨_, (hwalk _).mpr ⟨hall, rfl⟩, ?_⟩
    show Except.ok _ = _
    rw [Finset.empty_union]
    rfl

end ControlPlane.Gate.Walk
