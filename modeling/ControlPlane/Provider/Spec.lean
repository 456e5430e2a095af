import ControlPlane.Environment

/-! # Provider specifications

A command provider: what is executed, with which environment, in which sandbox and under which caps. A
specification is made of a JSON object (`commandProviderSpec`) and checked whenever it is made
(`postInit`), also when fields of another one are replaced: its caps are positive
(`checked_of_postInit`), and a check changes nothing of what has been checked (`normalized_self`). -/

namespace ControlPlane.Provider.Spec

open ControlPlane.Lib.Value ControlPlane.Lib.Print ControlPlane.Lib.Floats ControlPlane.Lib.Dynamic
open ControlPlane.Lib.Text ControlPlane.Environment

variable {F : Type} (E : Env F)

/-- `str(v or default)`. -/
def shown (v : Json F) (default : String) : Py String :=
  if truthy E.T v then E.str v else .ok default

/-- `str(d.get(k) or default)`. -/
def textOr (d : Dict F) (k default : String) : Py String := shown E (getKey d k) default

/-- The texts in order, without repetitions and separated by commas. -/
def listed (names : List String) : String :=
  ", ".intercalate (names.dedup.insertionSort fun a b => a ≤ b)

/-! ### Semantics -/

structure ProviderSemantics where
  deterministic : Bool
  cacheable : Bool
  idempotent : Bool
  sideEffecting : Bool
  retryable : Bool
  deriving DecidableEq

def flag (raw : Dict F) (name : String) (default : Bool) : Py Bool :=
  match (lookup name raw).getD (.bool default) with
  | .bool b => .ok b
  | _ => .error (.valueError ("provider semantics." ++ name ++ " must be boolean"))

def semanticsOf : Json F → Py ProviderSemantics
  | .null => .ok ⟨false, false, true, false, true⟩
  | .obj raw => do
    let deterministic ← flag raw "deterministic" false
    let cacheable ← flag raw "cacheable" false
    let idempotent ← flag raw "idempotent" true
    let sideEffecting ← flag raw "side_effecting" false
    let retryable ← flag raw "retryable" true
    return ⟨deterministic, cacheable, idempotent, sideEffecting, retryable⟩
  | _ => .error (.valueError "provider semantics must be an object")

/-! ### The sandbox -/

structure ResourceLimits where
  cpuSeconds : Option ℤ
  memoryMb : Option ℤ
  fileSizeMb : Option ℤ
  openFiles : Option ℤ
  deriving DecidableEq

def ResourceLimits.any (l : ResourceLimits) : Bool :=
  l.cpuSeconds.isSome || l.memoryMb.isSome || l.fileSizeMb.isSome || l.openFiles.isSome

def boundedPositiveInt (raw : Dict F) (fieldName : String) (maximum : ℤ) : Py (Option ℤ) :=
  match getKey raw fieldName with
  | .null => .ok none
  | .int n =>
    if n < 1 ∨ maximum < n then
      .error (.valueError ("sandbox " ++ fieldName ++ " must be between 1 and " ++ toString maximum))
    else .ok (some n)
  | _ => .error (.valueError ("sandbox " ++ fieldName ++ " must be an integer"))

/-- The keys of an object that are none of some names. -/
def unknownKeys (known : List String) (raw : Dict F) : List String :=
  (keys raw).filter fun k => !known.contains k

def resourceLimitsOf : Json F → Py ResourceLimits
  | .null => .ok ⟨none, none, none, none⟩
  | .obj raw => do
    let unknown := unknownKeys ["cpu_seconds", "memory_mb", "file_size_mb", "open_files"] raw
    require unknown.isEmpty ("unknown sandbox limit fields: " ++ listed unknown)
    let cpuSeconds ← boundedPositiveInt raw "cpu_seconds" 86400
    let memoryMb ← boundedPositiveInt raw "memory_mb" 1048576
    let fileSizeMb ← boundedPositiveInt raw "file_size_mb" 1048576
    let openFiles ← boundedPositiveInt raw "open_files" 1000000
    return ⟨cpuSeconds, memoryMb, fileSizeMb, openFiles⟩
  | _ => .error (.valueError "sandbox limits must be an object")

structure SandboxPolicy where
  mode : String
  backend : String
  network : String
  limits : ResourceLimits
  deriving DecidableEq

/-- `SandboxPolicy(...)`, with its checks. -/
def sandboxPolicy (mode backend network : String) (limits : ResourceLimits) : Py SandboxPolicy := do
  let mode := E.lower (strip mode)
  let backend := E.lower (strip backend)
  let network := E.lower (strip network)
  require (["off", "preferred", "required"].contains mode)
    "sandbox mode must be one of ['off', 'preferred', 'required']"
  require (["auto", "bubblewrap"].contains backend)
    "sandbox backend must be one of ['auto', 'bubblewrap']"
  require (["deny", "host"].contains network) "sandbox network must be one of ['deny', 'host']"
  require (!(mode == "off" && (network != "host" || limits.any)))
    "sandbox mode=off cannot enforce network or resource limits"
  return ⟨mode, backend, network, limits⟩

def sandboxOf : Json F → Py SandboxPolicy
  | .null => sandboxPolicy E "off" "auto" "host" ⟨none, none, none, none⟩
  | .obj raw => do
    let unknown := unknownKeys ["mode", "backend", "network", "limits"] raw
    require unknown.isEmpty ("unknown provider sandbox fields: " ++ listed unknown)
    let mode ← textOr E raw "mode" "off"
    let backend ← textOr E raw "backend" "auto"
    let network ← textOr E raw "network" "host"
    let limits ← resourceLimitsOf (getKey raw "limits")
    sandboxPolicy E mode backend network limits
  | _ => .error (.valueError "provider sandbox must be an object")

/-! ### Specifications -/

structure CommandProviderSpec (F : Type) where
  name : String
  command : List String
  timeoutSeconds : F
  maxOutputBytes : ℤ
  maxStderrBytes : ℤ
  intents : List String
  envAllowlist : List String
  executableTrust : String
  executableSha256 : Option String
  neutralCwd : Bool
  version : String
  semantics : ProviderSemantics
  runtimeProfile : String
  sandbox : SandboxPolicy

def runtimeProfiles : List String := ["restricted", "compatibility"]

def restrictedReservedEnvKeys : List String :=
  ["PATH", "HOME", "USERPROFILE", "TMP", "TEMP", "TMPDIR", "LANG", "LC_ALL", "LC_CTYPE", "PYTHONUTF8",
    "PYTHONIOENCODING"]

/-- The text without `"sha256:"` at its beginning. -/
def bareDigest (s : String) : String :=
  if startsWith s "sha256:" then String.ofList (s.toList.drop 7) else s

/-- 64 hexadecimal digits. -/
def isDigest (s : String) : Bool := s.length == 64 && s.toList.all isHexDigit

/-- The checked digest, if there is one. -/
def checkedDigest (who : String) : Option String → Py (Option String)
  | none => .ok none
  | some s => do
    let digest := bareDigest (E.lower (strip s))
    require (isDigest digest) (who ++ " executable_sha256 must be a SHA-256 digest")
    return some digest

/-- The checks made whenever a specification is made. -/
def postInit (spec : CommandProviderSpec F) : Py (CommandProviderSpec F) := do
  let who := "provider " ++ String.ofList (reprStr E.isPrintable spec.name)
  require (strip spec.name != "") "provider name must not be blank"
  require (!spec.command.isEmpty && spec.command.all fun part => part != "")
    (who ++ " command must not be blank")
  require (E.T.finite spec.timeoutSeconds && !(E.T.view spec.timeoutSeconds).le (.fin 0))
    (who ++ " timeout_seconds must be finite and > 0")
  require (decide (0 < spec.maxOutputBytes)) (who ++ " max_output_bytes must be > 0")
  require (decide (0 < spec.maxStderrBytes)) (who ++ " max_stderr_bytes must be > 0")
  let profile := E.lower (strip spec.runtimeProfile)
  require (runtimeProfiles.contains profile)
    (who ++ " runtime_profile must be one of ['compatibility', 'restricted']")
  let reserved := spec.envAllowlist.filter restrictedReservedEnvKeys.contains
  require (!(profile == "restricted" && !reserved.isEmpty))
    ("restricted provider env_allowlist may not override runtime identity/environment keys: " ++
      listed reserved)
  let digest ← checkedDigest E who spec.executableSha256
  require (strip spec.version != "") (who ++ " version must not be blank")
  return { spec with runtimeProfile := profile, executableSha256 := digest }

/-- The texts of a list, if none is blank. -/
def nonBlank : List (Json F) → Option (List String)
  | [] => some []
  | .str s :: items => if strip s = "" then none else (nonBlank items).map (s :: ·)
  | _ :: _ => none

/-- The texts of a list, or of one text. -/
def textsOf (v : Json F) (message : String) : Py (List String) :=
  let items : Option (List (Json F)) := match v with
    | .str s => some [.str s]
    | .arr items => some items
    | _ => none
  match items.bind nonBlank with
  | some texts => .ok texts
  | none => .error (.valueError message)

/-- The words of a command. -/
def argvOf (shlexSplit : String → Py (List String)) : Json F → Py (List String)
  | .str s => shlexSplit s
  | .arr parts => parts.mapM E.str
  | _ => .error (.valueError "provider command must be a string or argv list")

def checkSemantics : Json F → Py Unit
  | .null => .ok ()
  | .obj _ => .ok ()
  | _ => .error (.valueError "provider semantics must be an object")

def neutralCwdOf : Json F → Py Bool
  | .bool b => .ok b
  | _ => .error (.valueError "provider neutral_cwd must be a boolean")

def commandProviderSpec (shlexSplit : String → Py (List String)) (raw : Dict F) (defaultName : String) :
    Py (CommandProviderSpec F) := do
  let argv ← argvOf E shlexSplit ((lookup "command" raw).getD (.str ""))
  let intents ← textsOf ((lookup "intents" raw).getD (.arr [.str "all"]))
    "provider intents must be a list of non-empty strings"
  let envAllowlist ← textsOf ((lookup "env_allowlist" raw).getD (.arr []))
    "provider env_allowlist must be a list of non-empty strings"
  checkSemantics (getKey raw "semantics")
  let neutralCwd ← neutralCwdOf ((lookup "neutral_cwd" raw).getD (.bool false))
  let profile ← textOr E raw "runtime_profile" "compatibility"
  let runtimeProfile := E.lower (strip profile)
  require (runtimeProfiles.contains runtimeProfile)
    "provider runtime_profile must be restricted or compatibility"
  let sandbox ← sandboxOf E (getKey raw "sandbox")
  let digest ← shown E (if truthy E.T (getKey raw "executable_sha256") then
    getKey raw "executable_sha256" else getKey raw "sha256") ""
  let executableSha256 := bareDigest (E.lower (strip digest))
  let name ← textOr E raw "name" defaultName
  let timeoutSeconds ← E.toFloat ((lookup "timeout_seconds" raw).getD (.int 8))
  let maxOutputBytes ← E.toInt ((lookup "max_output_bytes" raw).getD (.int (8 * 1024 * 1024)))
  let maxStderrBytes ← E.toInt ((lookup "max_stderr_bytes" raw).getD (.int (64 * 1024)))
  let version ← textOr E raw "version" "unknown"
  let semantics ← semanticsOf (getKey raw "semantics")
  postInit E ⟨name, argv, timeoutSeconds, maxOutputBytes, maxStderrBytes, intents, envAllowlist,
    "configured_local_executable", if executableSha256 = "" then none else some executableSha256,
    neutralCwd, version, semantics, runtimeProfile, sandbox⟩

variable {E}

/-! ### What the checks accept -/

/-- What is true of a specification that has been checked. -/
structure Checked (E : Env F) (spec : CommandProviderSpec F) : Prop where
  name : strip spec.name ≠ ""
  timeout : E.T.finite spec.timeoutSeconds = true ∧ (Num.fin 0).lt (E.T.view spec.timeoutSeconds) = true
  output : 0 < spec.maxOutputBytes
  stderr : 0 < spec.maxStderrBytes
  profile : spec.runtimeProfile ∈ runtimeProfiles
  digest : ∀ s, spec.executableSha256 = some s → isDigest s = true

theorem isDigest_hex {s : String} (h : isDigest s = true) : ∀ c ∈ s.toList, isHexDigit c = true := by
  rw [isDigest, Bool.and_eq_true] at h
  exact List.all_eq_true.mp h.2

/-- A positive finite float. -/
theorem positive_of_checked {x : F}
    (h : (E.T.finite x && !(E.T.view x).le (.fin 0)) = true) :
    E.T.finite x = true ∧ (Num.fin 0).lt (E.T.view x) = true := by
  rw [Bool.and_eq_true, Bool.not_eq_true'] at h
  refine ⟨h.1, ?_⟩
  obtain ⟨q, hq⟩ := (E.T.finite_iff x).mp h.1
  rw [hq, Num.le_fin, decide_eq_false_iff_not, not_le] at h
  rw [hq, Num.lt_fin, decide_eq_true_eq]
  exact h.2

theorem checkedDigest_eq_ok {who : String} {digest checked : Option String}
    (h : checkedDigest E who digest = .ok checked) :
    checked = digest.map (fun s => bareDigest (E.lower (strip s))) ∧
      ∀ s, checked = some s → isDigest s = true := by
  cases digest with
  | none => exact ⟨(Except.ok.inj h).symm, fun s hs => by rw [← Except.ok.inj h] at hs; cases hs⟩
  | some d =>
    obtain ⟨_, hd, h⟩ := bind_eq_ok.mp h
    have hchecked := Except.ok.inj h
    refine ⟨hchecked.symm, fun s hs => ?_⟩
    rw [← hchecked, Option.some_inj] at hs
    rw [← hs]
    exact require_eq_ok.mp hd

/-- What a check makes of a specification. -/
def normalized (E : Env F) (spec : CommandProviderSpec F) : CommandProviderSpec F :=
  { spec with
    runtimeProfile := E.lower (strip spec.runtimeProfile)
    executableSha256 := spec.executableSha256.map fun s => bareDigest (E.lower (strip s)) }

theorem checked_of_postInit {spec checked : CommandProviderSpec F} (h : postInit E spec = .ok checked) :
    checked = normalized E spec ∧ Checked E checked := by
  unfold postInit at h
  dsimp only at h
  obtain ⟨_, hname, h⟩ := bind_eq_ok.mp h
  obtain ⟨_, -, h⟩ := bind_eq_ok.mp h
  obtain ⟨_, htimeout, h⟩ := bind_eq_ok.mp h
  obtain ⟨_, houtput, h⟩ := bind_eq_ok.mp h
  obtain ⟨_, hstderr, h⟩ := bind_eq_ok.mp h
  obtain ⟨_, hprofile, h⟩ := bind_eq_ok.mp h
  obtain ⟨_, -, h⟩ := bind_eq_ok.mp h
  obtain ⟨digest, hdigest, h⟩ := bind_eq_ok.mp h
  obtain ⟨_, -, h⟩ := bind_eq_ok.mp h
  obtain ⟨hmap, hvalid⟩ := checkedDigest_eq_ok hdigest
  have hchecked := (Except.ok.inj h).symm
  refine ⟨by rw [hchecked, hmap]; rfl, ?_⟩
  rw [hchecked]
  exact ⟨by simpa using require_eq_ok.mp hname, positive_of_checked (require_eq_ok.mp htimeout),
    of_decide_eq_true (require_eq_ok.mp houtput), of_decide_eq_true (require_eq_ok.mp hstderr),
    List.contains_iff_mem.mp (require_eq_ok.mp hprofile), hvalid⟩

theorem lower_profile {profile : String} (h : profile ∈ runtimeProfiles) :
    E.lower (strip profile) = profile := by
  have hstrip : ∀ p ∈ runtimeProfiles, strip p = p ∧
      (p.toList.all fun c => decide (c.toNat < 128) && !c.isUpper) = true := by decide
  obtain ⟨h1, h2⟩ := hstrip profile h
  rw [h1, E.lower_small profile h2]

theorem lower_digest {digest : String} (h : isDigest digest = true) :
    bareDigest (E.lower (strip digest)) = digest := by
  have hhex := isDigest_hex h
  have hsmall : (digest.toList.all fun c => decide (c.toNat < 128) && !c.isUpper) = true := by
    rw [List.all_eq_true]
    have hall : ∀ c ∈ "0123456789abcdef".toList, (decide (c.toNat < 128) && !c.isUpper) = true :=
      List.all_eq_true.mp (by decide)
    exact fun c hc => hall c (by simpa [isHexDigit] using hhex c hc)
  rw [strip_hex hhex, E.lower_small digest hsmall, bareDigest, if_neg]
  intro hstart
  -- `s` is no hexadecimal digit.
  rw [startsWith, List.isPrefixOf_iff_prefix] at hstart
  have hs : 's' ∈ digest.toList := hstart.subset (by decide)
  exact absurd (hhex 's' hs) (by decide)

/-- A check changes nothing of what has been checked. -/
theorem normalized_self {spec : CommandProviderSpec F} (hp : spec.runtimeProfile ∈ runtimeProfiles)
    (hd : ∀ s, spec.executableSha256 = some s → isDigest s = true) : normalized E spec = spec := by
  have hdigest : (spec.executableSha256.map fun s => bareDigest (E.lower (strip s))) =
      spec.executableSha256 := by
    cases hsha : spec.executableSha256 with
    | none => rfl
    | some s => exact congrArg some (lower_digest (hd s hsha))
  rw [normalized, lower_profile hp, hdigest]

end ControlPlane.Provider.Spec
