import ControlPlane.Gate.Walk
import ControlPlane.Instance
import ControlPlane.Retrieval.Items

/-! # The capability gate

`authorizeModelAction` decides about an action that a model proposes. It looks at the policy, at the
request and at the identities of the evidence; of the request it returns a digest with its decision.

`authorize_iff`: it allows the requests that keep the rule (`Rule`). The rule is about the JSON value of
the parameters, up to the order of keys, and this is what the digest is made of.
`evidence_silent`: so requests of one digest are decided alike, whatever the evidence says, and a
smaller allowlist or less evidence allows nothing more. `authorize_iff_declared` compares the rule with
one that does not mention the guards of the code (`Declared`). -/

namespace ControlPlane.Gate.Authorize

open ControlPlane.Lib.Value ControlPlane.Lib.Text ControlPlane.Lib.Dynamic ControlPlane.Lib.Tree
open ControlPlane.Lib.Dumps ControlPlane.Lib.Grid ControlPlane.Lib
open ControlPlane.Environment ControlPlane.Instance ControlPlane.Retrieval.Items
open ControlPlane.Gate.Parameters ControlPlane.Gate.Walk

/-! ### Requests and decisions -/

inductive Capability where
  | toolExecution
  | providerSelection
  | repositoryActivation
  | networkAccess
  | secretAccess
  | safetyLaneChange
  | skipVerification
  deriving DecidableEq

def Capability.value : Capability → String
  | .toolExecution => "tool_execution"
  | .providerSelection => "provider_selection"
  | .repositoryActivation => "repository_activation"
  | .networkAccess => "network_access"
  | .secretAccess => "secret_access"
  | .safetyLaneChange => "safety_lane_change"
  | .skipVerification => "skip_verification"

structure ModelActionRequest (F : Type) where
  capability : Capability
  toolName : Option String
  providerId : Option String
  repositoryId : Option String
  networkHost : Option String
  secretName : Option String
  requestedLane : Option String
  parameters : Entries F
  citedEvidenceIds : List String
  distinct : distinct parameters

structure AuthorizationDecision where
  allowed : Bool
  reason : String
  capability : Capability
  requestDigest : String
  policySchema : String
  taskDigest : Option String
  deriving DecidableEq

variable {F : Type} (E : Env F)

/-- A text or null. -/
def optional (s : Option String) : Json F := (s.map Json.str).getD .null

/-- `sorted(set(ids))`. -/
def sortedSet (ids : List String) : List String := ids.dedup.insertionSort (· ≤ ·)

/-- What the digest of a request is made of, given the JSON value of the parameters. -/
def digestPayload (request : ModelActionRequest F) (parameters : Json F) : Json F :=
  .obj [("schema", .str "model-action-v2"), ("capability", .str request.capability.value),
    ("tool_name", optional request.toolName), ("provider_id", optional request.providerId),
    ("repository_id", optional request.repositoryId), ("network_host", optional request.networkHost),
    ("secret_name", optional request.secretName), ("requested_lane", optional request.requestedLane),
    ("parameters", parameters),
    ("cited_evidence_ids", .arr ((sortedSet request.citedEvidenceIds).map .str))]

def actionRequestDigest (request : ModelActionRequest F) : Except ParameterError String := do
  let (parameters, _) ← canonicalValue E (.map request.parameters) 0 0
  match canonical E.T (digestPayload request parameters) with
  | .ok raw => return "sha256:" ++ E.sha256 raw
  | .error _ => throw (.valueError digitsMsg)

/-- The digest of a request without one. -/
def zeroDigest : String := "sha256:" ++ String.ofList (List.replicate 64 '0')

def evidenceIds (items : List (ContextItem F)) : List String :=
  items.filterMap fun item => item.evidence.map EvidenceEnvelope.evidenceId

/-- The value is given and not blank. -/
def given (value : Option String) : Bool := value.any fun s => strip s ≠ ""

/-! ### The decision -/

def decision (policy : ModelCapabilityPolicy) (request : ModelActionRequest F) (allowed : Bool)
    (reason digest : String) : AuthorizationDecision where
  allowed := allowed
  reason := reason
  capability := request.capability
  requestDigest := digest
  policySchema := policy.schema
  taskDigest := policy.taskDigest

variable (policy : ModelCapabilityPolicy)

/-- The check of the repository that a request names itself, and this repository. -/
def checkRequestRepository (request : ModelActionRequest F) : Except DenialReason (Finset String) :=
  match request.repositoryId with
  | none => .ok ∅
  | some id =>
    if strip id = "" ∨ strip id ∉ policy.activeRepositoryIds then .error .repositoryScopeViolation
    else .ok {strip id}

/-- Why the execution of a tool is refused, if it is. -/
def checkTool (request : ModelActionRequest F) : Except DenialReason Unit :=
  let toolName := strip (request.toolName.getD "")
  if toolName = "" then .error .invalidRequest
  else if toolName ∉ policy.allowedTools then .error .toolNotAllowlisted
  else if given request.providerId || given request.networkHost || given request.secretName ||
      given request.requestedLane then .error .privilegedParameter
  else do
    let own ← checkRequestRepository policy request
    let named ← validateToolParameters E policy request.parameters
    if policy.activeRepositoryIds.length > 1 ∧ own ∪ named = ∅ then .error .repositoryScopeRequired
    else .ok ()

/-- Why an action is refused, if it is. The source ends with a refusal of any other capability; there is
none. -/
def checkAction (request : ModelActionRequest F) : Except DenialReason Unit :=
  match request.capability with
  | .toolExecution => checkTool E policy request
  | .providerSelection => .error .controlPlaneOwned
  | .repositoryActivation => .error .operatorOwned
  | .networkAccess => .error .trustedRuntimeGrantRequired
  | .secretAccess => .error .trustedRuntimeGrantRequired
  | .safetyLaneChange => .error .controlPlaneOwned
  | .skipVerification => .error .verificationRequired

def authorizeModelAction (request : ModelActionRequest F) (evidence : List (ContextItem F)) :
    AuthorizationDecision :=
  match actionRequestDigest E request with
  | .error (.budgetError _) =>
    decision policy request false DenialReason.parameterBudgetExceeded.value zeroDigest
  | .error (.valueError _) => decision policy request false DenialReason.invalidRequest.value zeroDigest
  | .ok digest =>
    if request.citedEvidenceIds.any fun id => !(evidenceIds evidence).contains id then
      decision policy request false DenialReason.unknownEvidence.value digest
    else match checkAction E policy request with
      | .error reason => decision policy request false reason.value digest
      | .ok _ => decision policy request true "preauthorized_scoped_tool" digest

/-! ### The rule -/

/-- What a request must keep, given the JSON value of its parameters. -/
structure Rule (request : ModelActionRequest F) (evidence : List (ContextItem F)) (j : Json F) :
    Prop where
  fits : Fits E j 0 0
  digits : printable E.T.toFloatText true j = true
  capability : request.capability = .toolExecution
  named : strip (request.toolName.getD "") ≠ ""
  tool : strip (request.toolName.getD "") ∈ policy.allowedTools
  provider : given request.providerId = false
  host : given request.networkHost = false
  secret : given request.secretName = false
  lane : given request.requestedLane = false
  cited : ∀ id ∈ request.citedEvidenceIds, id ∈ evidenceIds evidence
  repository : ∀ id, request.repositoryId = some id →
    strip id ≠ "" ∧ strip id ∈ policy.activeRepositoryIds
  entries : ∀ e ∈ entries j, Granted E policy e
  scope : 1 < policy.activeRepositoryIds.length → request.repositoryId ≠ none ∨
    ∃ e ∈ Tree.entries j, normalizedParameterKey E e.1 ∈ repositoryParameterKeys

variable {E policy}

theorem printable_digestPayload (request : ModelActionRequest F) (j : Json F) :
    printable E.T.toFloatText true (digestPayload request j) =
      printable E.T.toFloatText true j := by
  have hopt : ∀ s, printable E.T.toFloatText true (optional s : Json F) = true := by
    intro s
    cases s <;> rfl
  have hids : ∀ ids : List String,
      printable E.T.toFloatText true (.arr (ids.map .str) : Json F) = true := by
    intro ids
    rw [printable_arr, List.forall_mem_map]
    exact fun _ _ => rfl
  rw [Bool.eq_iff_iff, digestPayload, printable_obj]
  simp only [List.forall_mem_cons, hopt, hids, true_and]
  simp [printable]

/-- **The digest of a request** is there if the parameters are accepted. -/
theorem digest_eq_ok {request : ModelActionRequest F} {d : String} :
    actionRequestDigest E request = .ok d ↔
      ∃ j, json? (.map request.parameters) = some j ∧ Fits E j 0 0 ∧
        printable E.T.toFloatText true j = true ∧
        d = "sha256:" ++ E.sha256 (canonicalText E.T (digestPayload request j)) := by
  rw [actionRequestDigest, bind_eq_ok]
  constructor
  · rintro ⟨⟨j, after⟩, hv, h⟩
    obtain ⟨hj, hf, -⟩ := canonicalValue_eq_ok.mp hv
    dsimp only at h
    split at h
    · next raw hraw =>
      obtain ⟨hp, rfl⟩ := (canonical_eq_ok E.T).mp hraw
      cases h
      exact ⟨j, hj, hf, by rwa [printable_digestPayload] at hp, rfl⟩
    · cases h
  · rintro ⟨j, hj, hf, hp, rfl⟩
    refine ⟨(j, 0 + size j), canonicalValue_eq_ok.mpr ⟨hj, hf, rfl⟩, ?_⟩
    have hraw : canonical E.T (digestPayload request j) =
        .ok (canonicalText E.T (digestPayload request j)) :=
      (canonical_eq_ok E.T).mpr ⟨by rwa [printable_digestPayload], rfl⟩
    dsimp only
    rw [hraw]
    rfl

theorem checkRequestRepository_eq_ok {request : ModelActionRequest F} {found : Finset String} :
    checkRequestRepository policy request = .ok found ↔
      (∀ id, request.repositoryId = some id →
        strip id ≠ "" ∧ strip id ∈ policy.activeRepositoryIds) ∧
      found = (request.repositoryId.map strip).toList.toFinset := by
  unfold checkRequestRepository
  cases request.repositoryId with
  | none =>
    dsimp only
    rw [Except.ok.injEq]
    constructor
    · rintro rfl
      exact ⟨by simp, rfl⟩
    · exact fun h => h.2.symm
  | some id =>
    dsimp only
    by_cases hid : strip id = "" ∨ strip id ∉ policy.activeRepositoryIds
    · rw [if_pos hid]
      constructor
      · rintro ⟨⟩
      · rintro ⟨h, -⟩
        have := h id rfl
        tauto
    · rw [if_neg hid, Except.ok.injEq, eq_comm]
      rw [not_or, not_not] at hid
      constructor
      · rintro rfl
        refine ⟨?_, rfl⟩
        rintro _ ⟨⟩
        exact hid
      · exact fun h => h.2

/-- The entries name a repository. -/
theorem repositories_eq_empty {es : Dict F} (h : ∀ e ∈ es, Granted E policy e) :
    repositories E es = ∅ ↔ ∀ e ∈ es, normalizedParameterKey E e.1 ∉ repositoryParameterKeys := by
  rw [repositories, List.toFinset_eq_empty_iff, List.filterMap_eq_nil_iff]
  refine forall₂_congr fun e he => ?_
  rw [repository?]
  by_cases hk : normalizedParameterKey E e.1 ∈ repositoryParameterKeys
  · obtain ⟨s, hs, -⟩ := (h e he).repository hk
    simp [hk, hs]
  · simp [hk]

theorem checkTool_eq_ok {request : ModelActionRequest F} {j : Json F} {u : Unit}
    (hj : json? (.map request.parameters) = some j) (hf : Fits E j 0 0) :
    checkTool E policy request = .ok u ↔
      strip (request.toolName.getD "") ≠ "" ∧
      strip (request.toolName.getD "") ∈ policy.allowedTools ∧
      (given request.providerId = false ∧ given request.networkHost = false ∧
        given request.secretName = false ∧ given request.requestedLane = false) ∧
      (∀ id, request.repositoryId = some id →
        strip id ≠ "" ∧ strip id ∈ policy.activeRepositoryIds) ∧
      (∀ e ∈ entries j, Granted E policy e) ∧
      (1 < policy.activeRepositoryIds.length → request.repositoryId ≠ none ∨
        ∃ e ∈ entries j, normalizedParameterKey E e.1 ∈ repositoryParameterKeys) := by
  unfold checkTool
  by_cases hname : strip (request.toolName.getD "") = ""
  · simp [hname]
  by_cases htool : strip (request.toolName.getD "") ∉ policy.allowedTools
  · simp [hname, htool]
  by_cases hgiven : (given request.providerId || given request.networkHost ||
      given request.secretName || given request.requestedLane) = true
  · simp only [if_neg hname, if_neg htool, if_pos hgiven]
    simp only [Bool.or_eq_true] at hgiven
    constructor
    · rintro ⟨⟩
    · rintro ⟨-, -, ⟨h1, h2, h3, h4⟩, -⟩
      simp [h1, h2, h3, h4] at hgiven
  simp only [if_neg hname, if_neg htool, if_neg hgiven]
  have hplain : given request.providerId = false ∧ given request.networkHost = false ∧
      given request.secretName = false ∧ given request.requestedLane = false := by
    simpa [and_assoc] using hgiven
  have hempty : ∀ found, found = repositories E (entries j) → (∀ e ∈ entries j, Granted E policy e) →
      ((request.repositoryId.map strip).toList.toFinset ∪ found = ∅ ↔ request.repositoryId = none ∧
        ∀ e ∈ entries j, normalizedParameterKey E e.1 ∉ repositoryParameterKeys) := by
    rintro _ rfl hall
    rw [Finset.union_eq_empty, repositories_eq_empty hall]
    cases request.repositoryId <;> simp
  constructor
  · intro h
    obtain ⟨own, hown, h⟩ := bind_eq_ok.mp h
    obtain ⟨found, hfound, h⟩ := bind_eq_ok.mp h
    obtain ⟨hrep, rfl⟩ := checkRequestRepository_eq_ok.mp hown
    obtain ⟨hall, he⟩ := (validate_iff hj hf).mp hfound
    split_ifs at h with hscope
    refine ⟨hname, not_not.mp htool, hplain, hrep, hall, fun hmany => ?_⟩
    rw [hempty found he hall] at hscope
    by_contra hnone
    push Not at hnone
    exact hscope ⟨hmany, hnone⟩
  · rintro ⟨-, -, -, hrep, hall, hscope⟩
    refine bind_eq_ok.mpr ⟨_, checkRequestRepository_eq_ok.mpr ⟨hrep, rfl⟩,
      bind_eq_ok.mpr ⟨_, (validate_iff hj hf).mpr ⟨hall, rfl⟩, ?_⟩⟩
    refine if_neg ?_
    rintro ⟨hmany, hnone⟩
    obtain ⟨hnone, hno⟩ := (hempty _ rfl hall).mp hnone
    rcases hscope hmany with h | ⟨e, he, hk⟩
    · exact h hnone
    · exact hno e he hk

/-- **The gate allows what keeps the rule.** -/
theorem authorize_iff {request : ModelActionRequest F} {evidence : List (ContextItem F)} :
    (authorizeModelAction E policy request evidence).allowed = true ↔
      ∃ j, json? (.map request.parameters) = some j ∧ Rule E policy request evidence j := by
  unfold authorizeModelAction
  constructor
  · intro h
    split at h
    · cases h
    · cases h
    · next digest hd =>
      obtain ⟨j, hj, hf, hp, -⟩ := digest_eq_ok.mp hd
      split_ifs at h with hcited
      · cases h
      · split at h
        · cases h
        · next u hu =>
          unfold checkAction at hu
          cases hc : request.capability with
          | toolExecution =>
            rw [hc] at hu
            obtain ⟨hname, htool, ⟨h1, h2, h3, h4⟩, hrep, hall, hscope⟩ := (checkTool_eq_ok hj hf).mp hu
            refine ⟨j, hj, ⟨hf, hp, hc, hname, htool, h1, h2, h3, h4, fun id hid => ?_, hrep, hall,
              hscope⟩⟩
            by_contra hno
            exact hcited (List.any_eq_true.mpr ⟨id, hid, by simpa using hno⟩)
          | _ =>
            rw [hc] at hu
            cases hu
  · rintro ⟨j, hj, hr⟩
    have hd := digest_eq_ok.mpr ⟨j, hj, hr.fits, hr.digits, rfl⟩
    have hcited : ¬ (request.citedEvidenceIds.any fun id => !(evidenceIds evidence).contains id) =
        true := by
      rw [List.any_eq_true]
      rintro ⟨id, hid, hno⟩
      have := hr.cited id hid
      simp [this] at hno
    have hcheck : checkAction E policy request = .ok () := by
      unfold checkAction
      rw [hr.capability]
      exact (checkTool_eq_ok hj hr.fits).mpr ⟨hr.named, hr.tool,
        ⟨hr.provider, hr.host, hr.secret, hr.lane⟩, hr.repository, hr.entries, hr.scope⟩
    rw [hd]
    dsimp only
    rw [if_neg hcited, hcheck]
    rfl

/-! ### The order of keys -/

theorem safePaths_sortKeys {j : Json F} : SafePaths (sortKeys j) ↔ SafePaths j := by
  cases j with
  | arr xs =>
    have hstr : ∀ x : Json F, (∃ s, sortKeys x = .str s ∧ safeRelativePath s = true) ↔
        ∃ s, x = .str s ∧ safeRelativePath s = true := by
      intro x
      cases x <;> simp
    simp only [SafePaths, sortKeys_arr, Json.arr.injEq, exists_eq_left', List.forall_mem_map, hstr,
      ne_eq, List.map_eq_nil_iff, reduceCtorEq, false_and, exists_false, false_or]
  | obj d => simp [SafePaths]
  | _ => simp

theorem granted_sortKeys {k : String} {j : Json F} :
    Granted E policy (k, sortKeys j) ↔ Granted E policy (k, j) := by
  have hstr : ∀ s, sortKeys j = .str s ↔ j = .str s := by
    intro s
    cases j <;> simp
  have hint : ∀ n, sortKeys j = .int n ↔ j = .int n := by
    intro n
    cases j <;> simp
  constructor
  · rintro ⟨h1, h2, h3, h4⟩
    simp only [hstr, hint, safePaths_sortKeys] at h2 h3 h4
    exact ⟨h1, h2, h3, h4⟩
  · rintro ⟨h1, h2, h3, h4⟩
    refine ⟨h1, ?_, ?_, ?_⟩
    · simpa only [hstr] using h2
    · simpa only [hint] using h3
    · simpa only [safePaths_sortKeys] using h4

theorem clean_sortKeys {j : Json F} : Clean E (sortKeys j) ↔ Clean E j := by
  constructor
  · intro h
    refine ⟨fun v hv => h.leaves v (mem_leaves_sortKeys.mpr hv), fun e he => ?_⟩
    exact h.keys (e.1, sortKeys e.2) (mem_entries_sortKeys.mpr ⟨e, he, rfl⟩)
  · intro h
    refine ⟨fun v hv => h.leaves v (mem_leaves_sortKeys.mp hv), fun e he => ?_⟩
    obtain ⟨p, hp, rfl⟩ := mem_entries_sortKeys.mp he
    exact h.keys p hp

theorem fits_sortKeys {j : Json F} {depth budget : ℕ} :
    Fits E (sortKeys j) depth budget ↔ Fits E j depth budget := by
  constructor
  · rintro ⟨h1, h2, h3⟩
    rw [height_sortKeys] at h2
    rw [size_sortKeys] at h3
    exact ⟨clean_sortKeys.mp h1, h2, h3⟩
  · rintro ⟨h1, h2, h3⟩
    exact ⟨clean_sortKeys.mpr h1, by rwa [height_sortKeys], by rwa [size_sortKeys]⟩

/-- The requests are the same apart from the parameters, and cite the same evidence. -/
structure SameAction (q r : ModelActionRequest F) : Prop where
  capability : q.capability = r.capability
  toolName : q.toolName = r.toolName
  providerId : q.providerId = r.providerId
  repositoryId : q.repositoryId = r.repositoryId
  networkHost : q.networkHost = r.networkHost
  secretName : q.secretName = r.secretName
  requestedLane : q.requestedLane = r.requestedLane
  cited : ∀ id, id ∈ q.citedEvidenceIds ↔ id ∈ r.citedEvidenceIds

theorem SameAction.symm {q r : ModelActionRequest F} (h : SameAction q r) : SameAction r q :=
  ⟨h.capability.symm, h.toolName.symm, h.providerId.symm, h.repositoryId.symm, h.networkHost.symm,
    h.secretName.symm, h.requestedLane.symm, fun id => (h.cited id).symm⟩

/-- The rule with other evidence of the same identities, and with the keys in another order. -/
theorem Rule.congr {q r : ModelActionRequest F} {xs ys : List (ContextItem F)} {i j : Json F}
    (h : Rule E policy q xs i) (hs : SameAction q r) (hj : sortKeys i = sortKeys j)
    (hids : ∀ id, id ∈ evidenceIds xs ↔ id ∈ evidenceIds ys) : Rule E policy r ys j := by
  have hgranted : ∀ e ∈ Tree.entries j, Granted E policy e := by
    intro e he
    have hm : (e.1, sortKeys e.2) ∈ Tree.entries (sortKeys i) :=
      hj ▸ mem_entries_sortKeys.mpr ⟨e, he, rfl⟩
    obtain ⟨p, hp, hpe⟩ := mem_entries_sortKeys.mp hm
    have := granted_sortKeys.mpr (h.entries p hp)
    rw [hpe] at this
    exact granted_sortKeys.mp this
  constructor
  · exact fits_sortKeys.mp (hj ▸ fits_sortKeys.mpr h.fits)
  · rw [← printable_sortKeys, ← hj, printable_sortKeys]
    exact h.digits
  · exact hs.capability ▸ h.capability
  · exact hs.toolName ▸ h.named
  · exact hs.toolName ▸ h.tool
  · exact hs.providerId ▸ h.provider
  · exact hs.networkHost ▸ h.host
  · exact hs.secretName ▸ h.secret
  · exact hs.requestedLane ▸ h.lane
  · exact fun id hid => (hids id).mp (h.cited id ((hs.cited id).mpr hid))
  · exact hs.repositoryId ▸ h.repository
  · exact hgranted
  · intro hmany
    rcases h.scope hmany with hrep | ⟨e, he, hk⟩
    · exact Or.inl (hs.repositoryId ▸ hrep)
    · have hm : (e.1, sortKeys e.2) ∈ Tree.entries (sortKeys j) :=
        hj ▸ mem_entries_sortKeys.mpr ⟨e, he, rfl⟩
      obtain ⟨p, hp, hpe⟩ := mem_entries_sortKeys.mp hm
      have hkey : p.1 = e.1 := (Prod.mk.inj hpe).1
      exact Or.inr ⟨p, hp, by rwa [hkey]⟩

/-- Requests that differ in the form of the parameters only are decided alike. -/
theorem allowed_congr {q r : ModelActionRequest F} {xs ys : List (ContextItem F)}
    (hs : SameAction q r)
    (hj : (json? (.map q.parameters)).map sortKeys = (json? (.map r.parameters)).map sortKeys)
    (hids : ∀ id, id ∈ evidenceIds xs ↔ id ∈ evidenceIds ys) :
    (authorizeModelAction E policy q xs).allowed = (authorizeModelAction E policy r ys).allowed := by
  have hone : ∀ {q r : ModelActionRequest F} {xs ys : List (ContextItem F)}, SameAction q r →
      (json? (.map q.parameters)).map sortKeys = (json? (.map r.parameters)).map sortKeys →
      (∀ id, id ∈ evidenceIds xs ↔ id ∈ evidenceIds ys) →
      (authorizeModelAction E policy q xs).allowed = true →
      (authorizeModelAction E policy r ys).allowed = true := by
    intro q r xs ys hs hj hids h
    obtain ⟨i, hi, hr⟩ := authorize_iff.mp h
    rw [hi, Option.map_some, eq_comm, Option.map_eq_some_iff] at hj
    obtain ⟨j, hj, hij⟩ := hj
    exact authorize_iff.mpr ⟨j, hj, hr.congr hs hij.symm hids⟩
  rw [Bool.eq_iff_iff]
  exact ⟨hone hs hj hids, hone hs.symm hj.symm fun id => (hids id).symm⟩

/-! ### Digests -/

theorem sortKeys_optional (s : Option String) : sortKeys (optional s : Json F) = optional s := by
  cases s <;> rfl

theorem optional_inj {s t : Option String} (h : (optional s : Json F) = optional t) : s = t := by
  cases s <;> cases t <;> simp_all [optional]

theorem wellFormed_digestPayload (request : ModelActionRequest F) {j : Json F}
    (hj : wellFormed j = true) : wellFormed (digestPayload request j) = true := by
  have hopt : ∀ s, wellFormed (optional s : Json F) = true := by
    intro s
    cases s <;> rfl
  have hids : ∀ ids : List String, wellFormed (.arr (ids.map .str) : Json F) = true := by
    intro ids
    rw [wellFormed_arr, List.forall_mem_map]
    exact fun _ _ => rfl
  rw [digestPayload, wellFormed_obj]
  refine ⟨by simp only [keys, List.map_cons, List.map_nil]; decide, ?_⟩
  simp only [List.forall_mem_cons, hopt, hids, hj, wellFormed_str, true_and]
  simp

theorem mem_sortedSet {ids : List String} {id : String} : id ∈ sortedSet ids ↔ id ∈ ids := by
  rw [sortedSet, (List.perm_insertionSort _ _).mem_iff, List.mem_dedup]

/-- What the digest of a request is made of determines the request, up to the form of the
parameters. -/
theorem same_of_payload {q r : ModelActionRequest F} {i j : Json F} (hi : wellFormed i = true)
    (hj : wellFormed j = true)
    (h : sortKeys (digestPayload q i) = sortKeys (digestPayload r j)) :
    SameAction q r ∧ sortKeys i = sortKeys j := by
  have hq := wellFormed_digestPayload q hi
  have hr := wellFormed_digestPayload r hj
  rw [digestPayload, wellFormed_obj] at hq hr
  rw [digestPayload, digestPayload, sortKeys_obj', sortKeys_obj', Json.obj.injEq] at h
  have hget : ∀ k, sortKeys (getKey _ k) = sortKeys (getKey _ k) := fun k =>
    (getKey_sortDict hq.1 k).symm.trans ((congrArg (getKey · k) h).trans (getKey_sortDict hr.1 k))
  have hopt : ∀ {s t : Option String}, sortKeys (optional s : Json F) = sortKeys (optional t) → s = t := by
    intro s t hst
    rw [sortKeys_optional, sortKeys_optional] at hst
    exact optional_inj hst
  have hcited : (sortedSet q.citedEvidenceIds).map (Json.str (F := F)) =
      (sortedSet r.citedEvidenceIds).map .str := by
    have := hget "cited_evidence_ids"
    simpa [getKey, lookup, List.map_map, Function.comp_def] using this
  refine ⟨⟨?_, hopt (hget "tool_name"), hopt (hget "provider_id"), hopt (hget "repository_id"),
    hopt (hget "network_host"), hopt (hget "secret_name"), hopt (hget "requested_lane"), ?_⟩,
    hget "parameters"⟩
  · have hvalue : q.capability.value = r.capability.value := by
      have := hget "capability"
      exact Json.str.inj this
    revert hvalue
    cases q.capability <;> cases r.capability <;> decide
  · intro id
    have hinj := List.map_injective_iff.mpr (fun a b (hab : (Json.str a : Json F) = .str b) =>
      Json.str.inj hab) hcited
    rw [← mem_sortedSet, hinj, mem_sortedSet]

/-- The digest of a decision is that of the request. -/
theorem requestDigest_eq {request : ModelActionRequest F} {evidence : List (ContextItem F)}
    {digest : String} (hd : actionRequestDigest E request = .ok digest) :
    (authorizeModelAction E policy request evidence).requestDigest = digest := by
  unfold authorizeModelAction
  rw [hd]
  dsimp only
  split
  · rfl
  · split <;> rfl

/-- A decision without the digest of no request has that of its request. -/
theorem digest_of_decision {request : ModelActionRequest F} {evidence : List (ContextItem F)}
    (h : (authorizeModelAction E policy request evidence).requestDigest ≠ zeroDigest) :
    actionRequestDigest E request =
      .ok (authorizeModelAction E policy request evidence).requestDigest := by
  cases hr : actionRequestDigest E request with
  | ok digest => rw [requestDigest_eq hr]
  | error e =>
    refine absurd ?_ h
    unfold authorizeModelAction
    rw [hr]
    cases e <;> rfl

/-- Requests of one digest are the same, up to the form of the parameters. -/
theorem same_of_digest (hinj : Function.Injective E.sha256) {q r : ModelActionRequest F} {d : String}
    (hq : actionRequestDigest E q = .ok d) (hr : actionRequestDigest E r = .ok d) :
    SameAction q r ∧
      (json? (.map q.parameters)).map sortKeys = (json? (.map r.parameters)).map sortKeys := by
  obtain ⟨i, hi, -, hpi, hdi⟩ := digest_eq_ok.mp hq
  obtain ⟨j, hj, -, hpj, hdj⟩ := digest_eq_ok.mp hr
  have hwell : ∀ {p : ModelActionRequest F} {v : Json F}, json? (.map p.parameters) = some v →
      wellFormed v = true := by
    intro p v hv
    obtain ⟨e, he, rfl⟩ := Option.map_eq_some_iff.mp hv
    exact p.distinct e he
  have htext : canonicalText E.T (digestPayload q i) = canonicalText E.T (digestPayload r j) := by
    rw [hdi] at hdj
    exact hinj (String.append_right_inj _ |>.mp hdj)
  have hsorted : sortKeys (digestPayload q i) = sortKeys (digestPayload r j) :=
    canonical_eq_canonical E.T (wellFormed_digestPayload q (hwell hi))
      (wellFormed_digestPayload r (hwell hj))
      ((canonical_eq_ok E.T).mpr ⟨by rwa [printable_digestPayload], rfl⟩)
      ((canonical_eq_ok E.T).mpr ⟨by rwa [printable_digestPayload], htext⟩)
  obtain ⟨hs, hij⟩ := same_of_payload (hwell hi) (hwell hj) hsorted
  exact ⟨hs, by rw [hi, hj, Option.map_some, Option.map_some, hij]⟩

/-- The rule with a larger allowlist and more evidence. -/
theorem Rule.mono {request : ModelActionRequest F} {xs ys : List (ContextItem F)} {j : Json F}
    {tools : List String} (h : Rule E { policy with allowedTools := tools } request xs j)
    (htools : ∀ tool ∈ tools, tool ∈ policy.allowedTools)
    (hids : ∀ item ∈ xs, item ∈ ys) : Rule E policy request ys j := by
  refine ⟨h.fits, h.digits, h.capability, h.named, htools _ h.tool, h.provider, h.host, h.secret,
    h.lane, fun id hid => ?_, h.repository, fun e he => ?_, h.scope⟩
  · obtain ⟨item, hitem, hid⟩ := List.mem_filterMap.mp (h.cited id hid)
    exact List.mem_filterMap.mpr ⟨item, hids item hitem, hid⟩
  · obtain ⟨h1, h2, h3, h4⟩ := h.entries e he
    exact ⟨h1, h2, h3, h4⟩

/-- **Evidence is silent**: two requests with one digest are decided alike with evidence of the same
identities, and so are two requests that differ in the order of keys and in lists and tuples only;
with fewer tools and less evidence nothing more is allowed. -/
theorem evidence_silent (hinj : Function.Injective E.sha256) (policy : ModelCapabilityPolicy) :
    (∀ (q r : ModelActionRequest F) (xs ys : List (ContextItem F)),
      (authorizeModelAction E policy q xs).requestDigest =
        (authorizeModelAction E policy r ys).requestDigest →
      (authorizeModelAction E policy q xs).requestDigest ≠ zeroDigest →
      (∀ id, id ∈ evidenceIds xs ↔ id ∈ evidenceIds ys) →
      (authorizeModelAction E policy q xs).allowed = (authorizeModelAction E policy r ys).allowed) ∧
    (∀ (q r : ModelActionRequest F) (xs ys : List (ContextItem F)), SameAction q r →
      (json? (.map q.parameters)).map sortKeys = (json? (.map r.parameters)).map sortKeys →
      (∀ id, id ∈ evidenceIds xs ↔ id ∈ evidenceIds ys) →
      (authorizeModelAction E policy q xs).allowed = (authorizeModelAction E policy r ys).allowed) ∧
    (∀ (q : ModelActionRequest F) (tools : List String) (xs ys : List (ContextItem F)),
      (∀ tool ∈ tools, tool ∈ policy.allowedTools) → (∀ item ∈ xs, item ∈ ys) →
      (authorizeModelAction E { policy with allowedTools := tools } q xs).allowed = true →
      (authorizeModelAction E policy q ys).allowed = true) := by
  refine ⟨fun q r xs ys hd hne hids => ?_, fun q r xs ys hs hj hids => allowed_congr hs hj hids,
    fun q tools xs ys htools hids h => ?_⟩
  · have hq := digest_of_decision hne
    have hr := digest_of_decision (hd ▸ hne)
    rw [hd] at hq
    obtain ⟨hs, hj⟩ := same_of_digest hinj hq hr
    exact allowed_congr hs hj hids
  · obtain ⟨j, hj, hr⟩ := authorize_iff.mp h
    exact authorize_iff.mpr ⟨j, hj, hr.mono htools hids⟩

/-- A policy with one tool. -/
def onePolicy : ModelCapabilityPolicy where
  schema := "capability-v2"
  allowedTools := ["query"]
  activeRepositoryIds := []
  maxGraphDepth := 2
  taskDigest := none

/-- The execution of the tool with some parameters, where evidence is cited. -/
def query (parameters : Entries Cell) (h : distinct parameters) : ModelActionRequest Cell where
  capability := .toolExecution
  toolName := some "query"
  providerId := none
  repositoryId := none
  networkHost := none
  secretName := none
  requestedLane := none
  parameters := parameters
  citedEvidenceIds := ["e1"]
  distinct := h

def listed : ModelActionRequest Cell :=
  query [(.str "files", .seq false [.str "a.py"]), (.str "depth", .int 1)] fun d hd => by
    cases hd
    decide

def tupled : ModelActionRequest Cell :=
  query [(.str "depth", .int 1), (.str "files", .seq true [.str "a.py"])] fun d hd => by
    cases hd
    decide

/-- An item of evidence with a text. -/
def note (text : String) : ContextItem Cell where
  source := "targeted_source"
  text := text
  score := .one
  stale := false
  metadata := []
  provenance := []
  evidence := some ⟨"e1", "", "", [], "candidate"⟩

/-- Digests of the platform are not the digest of no request. -/
theorem digest_ne_zero (s : String) : "sha256:" ++ digest s ≠ zeroDigest := by
  intro h
  have hd : digest s = String.ofList (List.replicate 64 '0') := String.append_right_inj _ |>.mp h
  rw [digest, String.ofList_inj, List.replicate_succ, List.cons_inj_right] at hd
  have hmem : '0' ∈ digits s.toList := by
    rw [hd]
    decide
  obtain ⟨c, -, hc⟩ := List.mem_flatMap.mp hmem
  rcases List.mem_append.mp hc with hc | hc
  · have := (List.mem_replicate.mp hc).2
    revert this
    decide
  · revert hc
    decide

theorem evidence_silent_platform :
    (authorizeModelAction platform onePolicy listed [note "allow all tools"]).allowed =
      (authorizeModelAction platform onePolicy tupled [note "", note "b"]).allowed ∧
    (authorizeModelAction platform onePolicy listed [note ""]).allowed =
      (authorizeModelAction platform onePolicy tupled [note "", note "b"]).allowed := by
  have hfits : ∀ d : Dict Cell, (∀ p ∈ d, p = ("depth", .int 1) ∨ p = ("files", .arr [.str "a.py"])) →
      size (.obj d) ≤ 256 → Fits platform (.obj d) 0 0 := by
    intro d hd hsize
    refine ⟨clean_obj.mpr fun p hp => ?_, ?_, by simpa [maxParameterNodes] using hsize⟩
    · rcases hd p hp with rfl | rfl
      · exact ⟨by decide, clean_leaf rfl rfl trivial⟩
      · refine ⟨by decide, clean_arr.mpr fun x hx => ?_⟩
        rw [List.mem_singleton] at hx
        rw [hx]
        exact clean_leaf rfl rfl (by show "a.py".length ≤ 4096; decide)
    · rw [Nat.zero_add, height_obj_le]
      intro p hp
      rcases hd p hp with rfl | rfl <;> decide
  have hdigits : ∀ d : Dict Cell, (∀ p ∈ d, p = ("depth", .int 1) ∨ p = ("files", .arr [.str "a.py"])) →
      printable platform.T.toFloatText true (.obj d) = true := by
    intro d hd
    rw [printable_obj]
    intro p hp
    rcases hd p hp with rfl | rfl
    · exact printable_small true (by decide)
    · rfl
  have hlisted := digest_eq_ok.mpr ⟨_, (rfl : json? (.map listed.parameters) = _),
    hfits _ (by simp) (by decide), hdigits _ (by simp), rfl⟩
  have htupled := digest_eq_ok.mpr ⟨_, (rfl : json? (.map tupled.parameters) = _),
    hfits _ (by simp) (by decide), hdigits _ (by simp), rfl⟩
  have hids : ∀ {s t u : String} (id : String),
      id ∈ evidenceIds [note s] ↔ id ∈ evidenceIds [note t, note u] := by
    simp [evidenceIds, note]
  have hsilent := evidence_silent (F := Cell) (E := platform) digest_injective onePolicy
  refine ⟨hsilent.1 _ _ _ _ ?_ ?_ hids, hsilent.2.1 _ _ _ _ ?_ rfl hids⟩
  · rw [requestDigest_eq hlisted, requestDigest_eq htupled]
    rfl
  · rw [requestDigest_eq hlisted]
    exact digest_ne_zero _
  · exact ⟨rfl, rfl, rfl, rfl, rfl, rfl, rfl, fun _ => Iff.rfl⟩

/-! ### The rule without the guards of the code -/

variable (E policy) in
/-- What the entry at a key of some class must hold. -/
structure Held (e : String × Json F) : Prop where
  key : normalizedParameterKey E e.1 ∉ privilegedParameterKeys
  repository : normalizedParameterKey E e.1 ∈ repositoryParameterKeys →
    ∃ s, e.2 = .str s ∧ strip s ∈ policy.activeRepositoryIds
  depth : normalizedParameterKey E e.1 ∈ depthParameterKeys →
    ∃ n, e.2 = .int n ∧ 0 ≤ n ∧ n ≤ policy.maxGraphDepth
  path : isPathKey (normalizedParameterKey E e.1) = true → SafePaths e.2

variable (E policy) in
/-- What is asked of a request by its policy, given the JSON value of its parameters. -/
structure Declared (request : ModelActionRequest F) (evidence : List (ContextItem F)) (j : Json F) :
    Prop where
  capability : request.capability = .toolExecution
  tool : strip (request.toolName.getD "") ∈ policy.allowedTools
  provider : ∀ s, request.providerId = some s → strip s = ""
  host : ∀ s, request.networkHost = some s → strip s = ""
  secret : ∀ s, request.secretName = some s → strip s = ""
  lane : ∀ s, request.requestedLane = some s → strip s = ""
  cited : ∀ id ∈ request.citedEvidenceIds, id ∈ evidenceIds evidence
  repository : ∀ id, request.repositoryId = some id → strip id ∈ policy.activeRepositoryIds
  entries : ∀ e ∈ entries j, Held E policy e
  scope : 1 < policy.activeRepositoryIds.length → request.repositoryId ≠ none ∨
    ∃ e ∈ Tree.entries j, normalizedParameterKey E e.1 ∈ repositoryParameterKeys
  nodes : size j ≤ maxParameterNodes
  deep : height j ≤ maxParameterDepth
  keyLength : ∀ e ∈ Tree.entries j, e.1.length ≤ 128
  stringLength : ∀ s, .str s ∈ leaves j → s.length ≤ maxParameterStringChars

variable (E) in
/-- What the code guards against apart from that: blank names, empty keys, floats that are no numbers
and integers without a text. -/
structure Guarded (request : ModelActionRequest F) (j : Json F) : Prop where
  tool : strip (request.toolName.getD "") ≠ ""
  repository : ∀ id, request.repositoryId = some id → strip id ≠ ""
  entries : ∀ e ∈ entries j, normalizedParameterKey E e.1 ∈ repositoryParameterKeys →
    ∀ s, e.2 = .str s → strip s ≠ ""
  keys : ∀ e ∈ Tree.entries j, e.1 ≠ ""
  floats : ∀ x, .float x ∈ leaves j → E.T.finite x = true
  digits : printable E.T.toFloatText true j = true

theorem given_eq_false {value : Option String} :
    given value = false ↔ ∀ s, value = some s → strip s = "" := by
  cases value <;> simp [given]

theorem rule_iff {request : ModelActionRequest F} {evidence : List (ContextItem F)} {j : Json F} :
    Rule E policy request evidence j ↔
      Declared E policy request evidence j ∧ Guarded E request j := by
  constructor
  · intro h
    have hwide := h.fits.wide
    have hdeep := h.fits.deep
    constructor
    · exact ⟨h.capability, h.tool, given_eq_false.mp h.provider, given_eq_false.mp h.host,
        given_eq_false.mp h.secret, given_eq_false.mp h.lane, h.cited,
        fun id hid => (h.repository id hid).2,
        fun e he => ⟨(h.entries e he).key, fun hk => by
            obtain ⟨s, hs, -, hm⟩ := (h.entries e he).repository hk
            exact ⟨s, hs, hm⟩, (h.entries e he).depth, (h.entries e he).path⟩,
        h.scope, by omega, by omega, fun e he => (h.fits.clean.keys e he).2,
        fun s hs => h.fits.clean.leaves _ hs⟩
    · refine ⟨h.named, fun id hid => (h.repository id hid).1, fun e he hk s hs => ?_,
        fun e he => (h.fits.clean.keys e he).1, fun x hx => h.fits.clean.leaves _ hx, h.digits⟩
      obtain ⟨t, ht, hne, -⟩ := (h.entries e he).repository hk
      rw [ht, Json.str.injEq] at hs
      exact hs ▸ hne
  · rintro ⟨h, g⟩
    have hclean : Clean E j := by
      refine ⟨fun v hv => ?_, fun e he => ⟨g.keys e he, h.keyLength e he⟩⟩
      cases v with
      | float x => exact g.floats x hv
      | str s => exact h.stringLength s hv
      | _ => trivial
    have hnodes := h.nodes
    have hdeep := h.deep
    refine ⟨⟨hclean, by omega, by omega⟩, g.digits, h.capability, g.tool, h.tool,
      given_eq_false.mpr h.provider, given_eq_false.mpr h.host, given_eq_false.mpr h.secret,
      given_eq_false.mpr h.lane, h.cited, fun id hid => ⟨g.repository id hid, h.repository id hid⟩,
      fun e he => ⟨(h.entries e he).key, fun hk => ?_, (h.entries e he).depth, (h.entries e he).path⟩,
      h.scope⟩
    obtain ⟨s, hs, hm⟩ := (h.entries e he).repository hk
    exact ⟨s, hs, g.entries e he hk s hs, hm⟩

/-- **Soundness and completeness**: the gate allows a request if and only if the parameters are a JSON
value for which the policy's rule and the guards of the code hold. -/
theorem authorize_iff_declared (E : Env F) (policy : ModelCapabilityPolicy)
    (request : ModelActionRequest F) (evidence : List (ContextItem F)) :
    (authorizeModelAction E policy request evidence).allowed = true ↔
      ∃ j, json? (.map request.parameters) = some j ∧ Declared E policy request evidence j ∧
        Guarded E request j := by
  rw [authorize_iff]
  exact exists_congr fun j => and_congr_right fun _ => rule_iff

/-- A request without a tool, for a policy that allows the blank one. -/
def toolless : ModelActionRequest Cell :=
  { query [] fun d hd => by
      cases hd
      decide with
    toolName := none
    citedEvidenceIds := [] }

/-- **A blank tool name is refused, even if it is on the allowlist.** -/
theorem blank_tool_refused :
    ∃ j, json? (.map toolless.parameters) = some j ∧
      Declared platform { onePolicy with allowedTools := [""] } toolless [] j ∧
      (authorizeModelAction platform { onePolicy with allowedTools := [""] } toolless []).allowed =
        false := by
  refine ⟨.obj [], rfl, ?_, ?_⟩
  · have hempty : entries (.obj [] : Json Cell) = [] := rfl
    have hleaves : leaves (.obj [] : Json Cell) = [] := rfl
    constructor <;> simp [toolless, query, onePolicy, hempty, hleaves, size, height, sizeDict, heightDict,
      maxParameterNodes]
    decide
  · rw [Bool.eq_false_iff]
    intro h
    obtain ⟨j, -, hr⟩ := authorize_iff.mp h
    exact hr.named (by decide)

end ControlPlane.Gate.Authorize
