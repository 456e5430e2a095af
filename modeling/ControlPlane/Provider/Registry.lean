import ControlPlane.Provider.Spec
import ControlPlane.Instance

/-! # The trusted provider registry

A project selects a registered provider by its id and may tighten its caps and choose its intents. What is
executed, and with which authority, is that of the registered entry: `authority_fixed`, for any two
project specifications with the same id.

The machine of a run (`Machine`) says what the environment and the file system answer. -/

namespace ControlPlane.Provider.Registry

open ControlPlane.Lib.Value ControlPlane.Lib.Print ControlPlane.Lib.Floats ControlPlane.Lib.Dynamic
open ControlPlane.Lib.Text ControlPlane.Lib.Grid ControlPlane.Environment ControlPlane.Instance
open ControlPlane.Provider.Spec

/-- What the environment variables and the file system answer. -/
structure Machine (F : Type) where
  /-- `trusted_registry_path()`. -/
  registryPath : Py String
  /-- `json.loads` of what is read from it. -/
  registry : Py (Json F)
  unsafeRepoCommands : Bool
  shlexSplit : String → Py (List String)
  /-- `Path(text).expanduser()`. -/
  expanduser : String → Py String
  isAbsolute : String → Bool
  isSymlink : String → Bool
  /-- `resolve(strict=True)`, unless it raises an OS error. -/
  resolve : String → Option String
  isFile : String → Bool
  /-- Whether a path lies in a root. -/
  isWithin : String → String → Bool
  join : String → String → String
  sha256File : String → Py String

variable {F : Type} (E : Env F) (M : Machine F)

def providersOf (payload : Json F) : Py (Dict F) :=
  match objOf payload with
  | some d => match objOf (getKey d "providers") with
    | some providers => .ok providers
    | none => .error (.valueError "trusted provider registry must contain a providers object")
  | none => .error (.valueError "trusted provider registry must contain a providers object")
where
  objOf : Json F → Option (Dict F)
    | .obj d => some d
    | _ => none

def loadRegistry (root : String) : Py (Dict F) := do
  let path ← M.registryPath
  require (!M.isWithin root path) "trusted provider registry must live outside the repository"
  let payload ← M.registry
  providersOf payload

/-- The path of a command, if it is one that may be executed. -/
def executablePath (root first : String) : Py String := do
  let executable ← M.expanduser first
  require (M.isAbsolute executable) "trusted provider executable must be an absolute path"
  require (!M.isSymlink executable) "trusted provider executable path may not be a symlink"
  match M.resolve executable with
  | none => .error (.valueError "trusted provider executable does not exist")
  | some path => do
    require (M.isFile path) "trusted provider executable is not a regular file"
    require (!M.isWithin root path) "trusted provider executable must live outside the repository"
    return path

/-- An argument is no path of the repository. -/
def checkArgument (root arg : String) : Py Unit :=
  if arg = "" || startsWith arg "-" then .ok ()
  else do
    let candidate ← M.expanduser arg
    match M.resolve (if M.isAbsolute candidate then candidate else M.join root candidate) with
    | none => .ok ()
    | some path =>
      require (!M.isWithin root path)
        "trusted provider command may not execute repository-owned path arguments"

/-- The parts of the command of an entry. -/
def commandOf (raw : Dict F) : Py (List (Json F)) :=
  match getKey raw "command" with
  | .arr (first :: rest) => .ok (first :: rest)
  | _ => .error (.valueError "trusted provider command must be a non-empty argv array")

/-- The command that is executed, and the digest of its executable. -/
def validatedExecutable (root : String) (raw : Dict F) : Py (List String × String) := do
  let command ← commandOf raw
  let argv ← command.mapM E.str
  let path ← executablePath M root (argv.headD "")
  let given ← textOr E raw "sha256" ""
  let expected := bareDigest (E.lower (strip given))
  require (isDigest expected) "trusted provider requires a sha256 digest"
  let actual ← M.sha256File path
  let same ← compareDigest actual expected
  require same "trusted provider executable digest mismatch"
  let _ ← argv.tail.mapM (checkArgument M root)
  return (path :: argv.tail, expected)

/-- `d.setdefault(k, v)`. -/
def setDefault (k : String) (v : Json F) (d : Dict F) : Dict F :=
  if (lookup k d).isSome then d else setKey k v d

/-- The entry of a provider. -/
def entryOf (root providerId : String) : Py (Dict F) := do
  let providers ← loadRegistry M root
  match getKey providers providerId with
  | .obj trusted => .ok trusted
  | _ => .error (.valueError ("trusted provider is not registered: " ++ providerId))

/-- The specification of an entry, with the command that is executed and the digest of its executable. -/
def trustedSpec (root providerId : String) : Py (CommandProviderSpec F × List String × String) := do
  let trusted ← entryOf M root providerId
  let (argv, digest) ← validatedExecutable E M root trusted
  let name ← textOr E trusted "name" providerId
  let raw := setKey "sha256" (.str digest) (setKey "command" (.arr (argv.map Json.str))
    (setKey "name" (.str name) trusted))
  let filled := setDefault "sandbox" (.obj [("mode", .str "off")])
    (setDefault "runtime_profile" (.str "restricted") (setDefault "neutral_cwd" (.bool true) raw))
  let spec ← commandProviderSpec E M.shlexSplit filled providerId
  return (spec, argv, digest)

/-- `type(fallback)(value)` if that is positive, and else the fallback. -/
def positiveCap {α : Type} (parse : Json F → Py α) (isPositive : α → Bool) (value : Json F) (fallback : α) :
    Py α :=
  match parse value with
  | .ok x => .ok (if isPositive x then x else fallback)
  | .error (.typeError _) => .ok fallback
  | .error (.valueError _) => .ok fallback
  | .error (.overflowError _) => .ok fallback
  | .error e => .error e

/-- `min(x, y)`: the second only if it is smaller. -/
def minFloat (x y : F) : F := if (E.T.view y).lt (E.T.view x) then y else x

def projectIntents (raw : Dict F) (trusted : List String) : Py (List String) :=
  match (lookup "intents" raw).getD (.arr (trusted.map Json.str)) with
  | .str s => .ok [s]
  | .arr items => match nonBlank items with
    | some texts => .ok texts
    | none => .error (.valueError "provider intents must be a list of non-empty strings")
  | _ => .error (.valueError "provider intents must be a list of non-empty strings")

def resolveTrustedProvider (root id : String) (project : Dict F) (defaultName : String) :
    Py (CommandProviderSpec F) := do
  let providerId := strip id
  require (providerId != "") "provider_id must not be blank"
  let (trusted, argv, digest) ← trustedSpec E M root providerId
  let timeout ← positiveCap E.toFloat (fun x => (Num.fin 0).lt (E.T.view x)) (getKey project "timeout_seconds")
    trusted.timeoutSeconds
  let output ← positiveCap E.toInt (fun n => decide (0 < n)) (getKey project "max_output_bytes")
    trusted.maxOutputBytes
  let intents ← projectIntents project trusted.intents
  let name ← textOr E project "name" defaultName
  postInit E { trusted with
    name := name
    command := argv
    timeoutSeconds := minFloat E trusted.timeoutSeconds timeout
    maxOutputBytes := min trusted.maxOutputBytes output
    intents := intents
    executableTrust := "trusted_registry_digest"
    executableSha256 := some digest }

/-- The fields that only the registry may set, with the values that set nothing. -/
def trustedFields : List (String × List (Json F)) :=
  [("command", [.null, .str "", .arr []]), ("env_allowlist", [.null, .arr []]), ("sha256", [.null, .str ""]),
    ("executable_sha256", [.null, .str ""]), ("neutral_cwd", [.null]), ("max_stderr_bytes", [.null]),
    ("version", [.null, .str ""]), ("semantics", [.null, .obj []]), ("runtime_profile", [.null, .str ""]),
    ("sandbox", [.null, .obj []])]

/-- The trusted fields that a project sets. -/
def forbidden (raw : Dict F) : List String :=
  (trustedFields.filter fun p => !p.2.any fun v => pyEq E.T (getKey raw p.1) v).map Prod.fst

/-- `str(raw.get("provider_id") or "").strip()`. -/
def providerIdOf (raw : Dict F) : Py String := do
  let text ← textOr E raw "provider_id" ""
  return strip text

def resolveProjectProvider (root : String) (raw : Dict F) (defaultName : String) :
    Py (CommandProviderSpec F) := do
  let providerId ← providerIdOf E raw
  if providerId != "" then do
    require (forbidden E raw).isEmpty
      ("repository provider_id configuration may not set trusted fields: " ++
        ", ".intercalate (forbidden E raw))
    resolveTrustedProvider E M root providerId raw defaultName
  else if M.unsafeRepoCommands then commandProviderSpec E M.shlexSplit raw defaultName
  else .error (.valueError ("repository-defined provider commands are disabled; configure provider_id " ++
    "in the project and register executable authority outside the repository"))

variable {E M}

/-! ### The authority of an entry -/

/-- What decides what is executed, and with which rights. -/
structure Authority where
  command : List String
  maxStderrBytes : ℤ
  envAllowlist : List String
  executableTrust : String
  executableSha256 : Option String
  neutralCwd : Bool
  version : String
  semantics : ProviderSemantics
  runtimeProfile : String
  sandbox : SandboxPolicy
  deriving DecidableEq

def authorityOf (spec : CommandProviderSpec F) : Authority :=
  ⟨spec.command, spec.maxStderrBytes, spec.envAllowlist, spec.executableTrust, spec.executableSha256,
    spec.neutralCwd, spec.version, spec.semantics, spec.runtimeProfile, spec.sandbox⟩

/-- The authority that an entry grants, with its command and the digest that its executable has. -/
def granted (trusted : CommandProviderSpec F) (argv : List String) (digest : String) : Authority :=
  { authorityOf trusted with
    command := argv
    executableTrust := "trusted_registry_digest"
    executableSha256 := some digest }

/-- The caps are positive, and not above those of the entry. -/
structure Within (E : Env F) (trusted spec : CommandProviderSpec F) : Prop where
  timeoutPos : (Num.fin 0).lt (E.T.view spec.timeoutSeconds) = true
  timeoutLe : (E.T.view spec.timeoutSeconds).le (E.T.view trusted.timeoutSeconds) = true
  outputPos : 0 < spec.maxOutputBytes
  outputLe : spec.maxOutputBytes ≤ trusted.maxOutputBytes

theorem minFloat_le {x y : F} (h : E.T.finite x = true) :
    (E.T.view (minFloat E x y)).le (E.T.view x) = true := by
  unfold minFloat
  split_ifs with hlt
  · exact Num.le_of_lt hlt
  · obtain ⟨q, hq⟩ := (E.T.finite_iff x).mp h
    rw [hq, Num.le_fin]
    exact decide_eq_true le_rfl

theorem checked_of_commandProviderSpec {split : String → Py (List String)} {raw : Dict F} {name : String}
    {spec : CommandProviderSpec F} (h : commandProviderSpec E split raw name = .ok spec) :
    Checked E spec := by
  unfold commandProviderSpec at h
  dsimp only at h
  iterate 15 obtain ⟨_, -, h⟩ := bind_eq_ok.mp h
  exact (checked_of_postInit h).2

theorem trustedSpec_eq_ok {root providerId digest : String} {trusted : CommandProviderSpec F}
    {argv : List String} (h : trustedSpec E M root providerId = .ok (trusted, argv, digest)) :
    Checked E trusted ∧ isDigest digest = true := by
  obtain ⟨entry, -, h⟩ := bind_eq_ok.mp h
  obtain ⟨⟨words, sha⟩, hexec, h⟩ := bind_eq_ok.mp h
  obtain ⟨name, -, h⟩ := bind_eq_ok.mp h
  obtain ⟨spec, hspec, h⟩ := bind_eq_ok.mp h
  obtain ⟨rfl, hrest⟩ := Prod.mk.inj (Except.ok.inj h)
  obtain ⟨rfl, rfl⟩ := Prod.mk.inj hrest
  refine ⟨checked_of_commandProviderSpec hspec, ?_⟩
  unfold validatedExecutable at hexec
  dsimp only at hexec
  obtain ⟨_, -, hexec⟩ := bind_eq_ok.mp hexec
  obtain ⟨_, -, hexec⟩ := bind_eq_ok.mp hexec
  obtain ⟨_, -, hexec⟩ := bind_eq_ok.mp hexec
  obtain ⟨_, -, hexec⟩ := bind_eq_ok.mp hexec
  obtain ⟨_, hdigest, hexec⟩ := bind_eq_ok.mp hexec
  obtain ⟨_, -, hexec⟩ := bind_eq_ok.mp hexec
  obtain ⟨_, -, hexec⟩ := bind_eq_ok.mp hexec
  obtain ⟨_, -, hexec⟩ := bind_eq_ok.mp hexec
  obtain ⟨_, -, hexec⟩ := bind_eq_ok.mp hexec
  rw [← (Prod.mk.inj (Except.ok.inj hexec)).2]
  exact require_eq_ok.mp hdigest

/-- **One resolution**: the authority is granted by the entry, and the caps are within its caps. -/
theorem resolveTrusted_spec {root id name : String} {project : Dict F} {spec : CommandProviderSpec F}
    (h : resolveTrustedProvider E M root id project name = .ok spec) :
    ∃ trusted argv digest, trustedSpec E M root (strip id) = .ok (trusted, argv, digest) ∧
      authorityOf spec = granted trusted argv digest ∧ Within E trusted spec := by
  unfold resolveTrustedProvider at h
  dsimp only at h
  obtain ⟨_, -, h⟩ := bind_eq_ok.mp h
  obtain ⟨⟨trusted, argv, digest⟩, htrusted, h⟩ := bind_eq_ok.mp h
  obtain ⟨timeout, -, h⟩ := bind_eq_ok.mp h
  obtain ⟨output, -, h⟩ := bind_eq_ok.mp h
  obtain ⟨intents, -, h⟩ := bind_eq_ok.mp h
  obtain ⟨shownName, -, h⟩ := bind_eq_ok.mp h
  obtain ⟨hchecked, hdigest⟩ := trustedSpec_eq_ok htrusted
  obtain ⟨hspec, hvalid⟩ := checked_of_postInit h
  have hsha : ∀ s, some digest = some s → isDigest s = true := fun s hs => Option.some_inj.mp hs ▸ hdigest
  have hsame : spec = { trusted with
      name := shownName
      command := argv
      timeoutSeconds := minFloat E trusted.timeoutSeconds timeout
      maxOutputBytes := min trusted.maxOutputBytes output
      intents := intents
      executableTrust := "trusted_registry_digest"
      executableSha256 := some digest } := hspec.trans (normalized_self hchecked.profile hsha)
  refine ⟨trusted, argv, digest, htrusted, by rw [hsame]; rfl, hvalid.timeout.2, ?_, hvalid.output, ?_⟩
  · rw [hsame]
    exact minFloat_le hchecked.timeout.1
  · rw [hsame]
    exact min_le_left _ _

/-- **The executable authority is fixed**: whatever two project specifications with one provider id set,
they resolve to specifications with the authority of the registered entry, and each with caps that are
positive and not above those of the entry. -/
theorem authority_fixed {root id name name' : String} {raw raw' : Dict F}
    {spec spec' : CommandProviderSpec F} (hid : id ≠ "") (hraw : providerIdOf E raw = .ok id)
    (hraw' : providerIdOf E raw' = .ok id) (h : resolveProjectProvider E M root raw name = .ok spec)
    (h' : resolveProjectProvider E M root raw' name' = .ok spec') :
    ∃ trusted argv digest, trustedSpec E M root (strip id) = .ok (trusted, argv, digest) ∧
      authorityOf spec = granted trusted argv digest ∧ authorityOf spec' = granted trusted argv digest ∧
      Within E trusted spec ∧ Within E trusted spec' := by
  have hresolve : ∀ {raw : Dict F} {name : String} {spec : CommandProviderSpec F},
      providerIdOf E raw = .ok id → resolveProjectProvider E M root raw name = .ok spec →
      resolveTrustedProvider E M root id raw name = .ok spec := by
    intro raw name spec hraw h
    rw [resolveProjectProvider, hraw] at h
    have hne : (id != "") = true := bne_iff_ne.mpr hid
    change (if (id != "") = true then _ else _) = _ at h
    rw [if_pos hne] at h
    exact (bind_eq_ok.mp h).choose_spec.2
  obtain ⟨trusted, argv, digest, htrusted, hauth, hwithin⟩ := resolveTrusted_spec (hresolve hraw h)
  obtain ⟨trusted', argv', digest', htrusted', hauth', hwithin'⟩ := resolveTrusted_spec (hresolve hraw' h')
  obtain ⟨rfl, hrest⟩ := Prod.mk.inj (Except.ok.inj (htrusted.symm.trans htrusted'))
  obtain ⟨rfl, rfl⟩ := Prod.mk.inj hrest
  exact ⟨trusted, argv, digest, htrusted, hauth, hauth', hwithin, hwithin'⟩

/-! ### On the platform -/

/-- A digest. -/
def zeros : String := String.ofList (List.replicate 64 '0')

/-- A machine with one registered provider, whose executable has that digest. -/
def oneProvider : Machine Cell where
  registryPath := .ok "/home/providers.json"
  registry := .ok (.obj [("providers", .obj [("local", .obj [("command", .arr [.str "/opt/local"]),
    ("sha256", .str zeros)])])])
  unsafeRepoCommands := false
  shlexSplit s := .ok [s]
  expanduser s := .ok s
  isAbsolute s := startsWith s "/"
  isSymlink _ := false
  resolve s := some s
  isFile _ := true
  isWithin root path := startsWith path root
  join root path := root ++ "/" ++ path
  sha256File _ := .ok zeros

/-- A project that tightens the timeout. -/
def hasty : Dict Cell := [("provider_id", .str "local"), ("timeout_seconds", .float .tenth)]

/-- A project with caps of other types. -/
def untyped : Dict Cell :=
  [("provider_id", .str " local"), ("timeout_seconds", .bool true), ("max_output_bytes", .str "12")]

theorem authority_fixed_local : ∃ spec spec',
    resolveProjectProvider platform oneProvider "/repo" hasty "provider" = .ok spec ∧
    resolveProjectProvider platform oneProvider "/repo" untyped "provider" = .ok spec' ∧
    authorityOf spec = authorityOf spec' := by
  have hrun : (resolveProjectProvider platform oneProvider "/repo" hasty "provider").isOk = true := by
    decide +kernel
  have hrun' : (resolveProjectProvider platform oneProvider "/repo" untyped "provider").isOk = true := by
    decide +kernel
  obtain ⟨spec, h⟩ := isOk_iff.mp hrun
  obtain ⟨spec', h'⟩ := isOk_iff.mp hrun'
  have hid : providerIdOf platform hasty = .ok "local" := by decide +kernel
  have hid' : providerIdOf platform untyped = .ok "local" := by decide +kernel
  obtain ⟨trusted, argv, digest, -, hauth, hauth', -⟩ := authority_fixed (by decide) hid hid' h h'
  exact ⟨spec, spec', h, h', hauth.trans hauth'.symm⟩

end ControlPlane.Provider.Registry
