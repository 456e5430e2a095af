import ControlPlane.Instance
import ControlPlane.Lib.Keyed
import ControlPlane.Workspace.DataDirs
import ControlPlane.Workspace.Graph

/-! # Repository routing

Which repositories of a workspace a retrieval searches: first those that a changed file or the query points at, then
their neighbours in the reviewed graph, with a limit for each (`primary`, `expanded`). The plan lists every
repository with an identity once, as selected or as skipped (`plan_bounded`). -/

namespace ControlPlane.Retrieval.Routing

open ControlPlane.Lib.Value ControlPlane.Lib.Dynamic ControlPlane.Lib.Text ControlPlane.Lib.Keyed
open ControlPlane.Environment ControlPlane.Workspace.DataDirs ControlPlane.Workspace.Registry
open ControlPlane.Workspace.Graph

variable {F : Type} (E : Env F)

/-! ### Settings -/

/-- `v or {}`, with methods of a dictionary. -/
def orEmptyDict (v : Json F) : Py (Dict F) :=
  match v with
  | .obj d => .ok d
  | v => if truthy E.T v then .error (.typeError ("'" ++ typeName v ++ "' object has no attribute 'get'"))
    else .ok []

structure Settings where
  enabled : Bool
  maxPrimary : ℕ
  maxExpansions : ℕ
  allowed : List Relationship
  deriving DecidableEq

/-- `int(d.get(key, default))` -/
def intOr (d : Dict F) (key : String) (default : ℤ) : Py ℤ := E.toInt ((lookup key d).getD (.int default))

/-- The relationships among the texts of a list. -/
def allowedOf : Json F → List Relationship
  | .arr requested => requested.filterMap fun value =>
    Relationship.ofText (strText E.T E.isPrintable value)
  | _ => []

/-- `_settings(config)` -/
def settings (config : Dict F) : Py Settings := do
  let workspace ← orEmptyDict E (getKey config "workspace")
  let raw ← orEmptyDict E (getKey workspace "hierarchical_retrieval")
  let maxPrimary ← intOr E raw "max_primary_repositories" 2
  let maxExpansions ← intOr E raw "max_graph_expansions" 2
  return {
    enabled := truthy E.T ((lookup "enabled" raw).getD (.bool true))
    maxPrimary := (max 1 maxPrimary).toNat
    maxExpansions := (max 0 maxExpansions).toNat
    allowed := match lookup "relationships" raw with
      | none => Relationship.all
      | some requested => allowedOf E requested }

/-- `int((config.get("workspace") or {}).get("max_roots", default))` -/
def maxRoots (config : Dict F) (default : ℕ) : Py ℤ := do
  let workspace ← orEmptyDict E (getKey config "workspace")
  intOr E workspace "max_roots" default

/-! ### The registry -/

structure Registered where
  repositoryId : String
  name : String
  relativePath : String

abbrev RegistryRoots := List (Path × Registered)

/-- `d[key] = value` -/
def assign (root : Path) (value : Registered) : RegistryRoots → RegistryRoots
  | [] => [(root, value)]
  | entry :: entries =>
    if entry.1 = root then (root, value) :: entries else entry :: assign root value entries

variable (resolve : Path → Path)

def registrySpecToRoot (root : Path) (spec : RepositorySpec) : Py Path :=
  if spec.relativePath = "." then .ok (resolve root) else resolveWithinRoot resolve root spec.relativePath

/-- `_registry_roots`; a repository whose path is refused is left out. -/
def registryRoots (controlRoot : Path) (specs : List RepositorySpec) : RegistryRoots :=
  (specs.filter (·.included)).foldl (fun mapped spec =>
    match registrySpecToRoot resolve controlRoot spec with
    | .ok root => assign (resolve root)
        ⟨repositoryId E spec.relativePath spec.remoteIdentity, spec.name, spec.relativePath⟩ mapped
    | .error _ => mapped) []

/-! ### Signals -/

/-- A letter of `[A-Za-z0-9_.-]`. -/
def isNameLetter (c : Char) : Bool := c.isAlphanum || c == '_' || c == '.' || c == '-'

/-- The name occurs in the text with no further letter of a name beside it. -/
def occursAlone (name text : List Char) : Bool :=
  (List.range (text.length + 1)).any fun i =>
    name.isPrefixOf (text.drop i) && !(text.take i).getLast?.any isNameLetter &&
      !(text.drop (i + name.length)).head?.any isNameLetter

/-- `text.strip("./")` -/
def stripDots (text : String) : String :=
  let isDot := fun c => c == '.' || c == '/'
  String.ofList ((text.toList.dropWhile isDot).rdropWhile isDot)

def queryMentions (query name relativePath : String) : Bool :=
  let lowered := (E.casefold query).toList
  [strip (E.casefold name), stripDots (E.casefold relativePath)].any fun candidate =>
    if candidate = "" ∨ candidate = "." then false
    else if candidate.toList.contains '/' || candidate.toList.contains '\\' then
      lowered.tails.any candidate.toList.isPrefixOf
    else occursAlone candidate.toList lowered

/-- `relative_path.rstrip("/") + "/"` -/
def directoryPrefix (relativePath : String) : String :=
  String.ofList (relativePath.toList.rdropWhile (· == '/')) ++ "/"

def changedMatches (controlRoot root : Path) (relativePath : String) (changed : List String) : Bool :=
  if changed = [] then false
  else if root = controlRoot then true
  else changed.any fun path => path == relativePath || startsWith path (directoryPrefix relativePath)

/-! ### Routing -/

structure RoutedRepository where
  root : Path
  repositoryId : Option String
  tier : String
  prior : ℚ
  reason : String
  relationship : Option String
  anchorRepositoryId : Option String

structure RepositoryRetrievalPlan where
  repositories : List RoutedRepository
  graphFingerprint : String
  primaryRepositoryIds : List String
  expandedRepositoryIds : List String
  skippedRepositoryIds : List String

def defaultRelationPrior : Relationship → ℚ
  | .dependsOn => 17 / 20
  | .publishesApi => 4 / 5
  | .consumesSchema => 9 / 10
  | .deploys => 7 / 10

/-- What a plan is made from; the roots are resolved. -/
structure Request where
  workspace : Path
  roots : List Path
  registry : RegistryRoots
  graph : RepositoryGraph
  settings : Settings
  query : String
  changed : List String

namespace Request

variable (r : Request)

def identity (root : Path) : Option String := (r.registry.lookup root).map (·.repositoryId)

/-- The keys of a dictionary of the roots, in the order of their first places. -/
def distinctRoots : List Path := r.roots.reverse.dedup.reverse

def rootForId (id : String) : Option Path :=
  if (r.graph.nodes.map (·.repositoryId)).contains id then
    (r.distinctRoots.filter (r.identity · = some id)).getLast?
  else none

def nestedPrefixes : List String :=
  (r.registry.filter fun entry => entry.1 ≠ r.workspace && entry.2.relativePath ≠ "" &&
    entry.2.relativePath ≠ ".").map fun entry => directoryPrefix entry.2.relativePath

def ownsChange (root : Path) (relativePath : String) : Bool :=
  if root = r.workspace ∧ r.nestedPrefixes ≠ [] then
    r.changed.any fun path => !r.nestedPrefixes.any (startsWith path)
  else changedMatches r.workspace root relativePath r.changed

/-- The reason to search a repository, if it is registered and there is one. -/
def signal (root : Path) : Option (Path × String) :=
  match r.registry.lookup root with
  | none => none
  | some registered =>
    if r.ownsChange root registered.relativePath then some (root, "changed_files")
    else if queryMentions E r.query registered.name registered.relativePath then
      some (root, "explicit_query_anchor")
    else none

def signaled : List (Path × String) :=
  let found := r.roots.filterMap (r.signal E)
  if found = [] then (r.roots.head?.map fun root => (root, "default_local_repository")).toList else found

def primary : List RoutedRepository :=
  (firstNew Prod.fst r.settings.maxPrimary [] (r.signaled E)).map fun p =>
    ⟨p.1, r.identity p.1, "primary", 1, p.2, none, none⟩

structure Candidate where
  prior : ℚ
  edgeId : String
  root : Path
  anchor : String
  relation : String

/-- The order of `(-prior, edge_id, root, anchor, relation)`. -/
def candidateLe (a b : Candidate) : Bool :=
  if a.prior ≠ b.prior then b.prior < a.prior
  else if a.edgeId ≠ b.edgeId then a.edgeId < b.edgeId
  else if a.root ≠ b.root then a.root < b.root
  else [a.anchor, a.relation] ≤ [b.anchor, b.relation]

/-- The other end of an edge, its anchor and its direction. -/
def neighbor (primaryIds : List String) (edge : Edge) : Option (String × String × String) :=
  if edge.source ∈ primaryIds then some (edge.target, edge.source, "outgoing")
  else if edge.target ∈ primaryIds then some (edge.source, edge.target, "incoming")
  else none

def candidate (primary : List RoutedRepository) (edge : Edge) : Option Candidate :=
  if edge.relationship ∉ r.settings.allowed then none
  else do
    let (id, anchor, direction) ← neighbor (primary.filterMap (·.repositoryId)) edge
    let root ← r.rootForId id
    if root ∈ primary.map (·.root) then none
    else return ⟨defaultRelationPrior edge.relationship, edgeId E edge, root, anchor,
      edge.relationship.value ++ ":" ++ direction⟩

/-- `relation.split(":", 1)[0]` -/
def relationshipOf (relation : String) : String := String.ofList (relation.toList.takeWhile (· ≠ ':'))

def expanded (primary : List RoutedRepository) : List RoutedRepository :=
  let candidates := (r.graph.edges.filterMap (r.candidate E primary)).mergeSort candidateLe
  (firstNew Candidate.root r.settings.maxExpansions (primary.map (·.root)) candidates).map fun c =>
    ⟨c.root, r.identity c.root, "graph_expansion", c.prior, "reviewed_graph_neighbor",
      some (relationshipOf c.relation), some c.anchor⟩

/-- The identities of the roots that are not selected. -/
def skipped (selected : List RoutedRepository) : List String :=
  (r.distinctRoots.filter (· ∉ selected.map (·.root))).filterMap r.identity

def planOf (selected : List RoutedRepository) : RepositoryRetrievalPlan :=
  ⟨selected, fingerprint E r.graph, (selected.filter (·.tier = "primary")).filterMap (·.repositoryId),
    (selected.filter (·.tier = "graph_expansion")).filterMap (·.repositoryId), r.skipped selected⟩

/-- Directories without a registry identity, as a configuration may name them. -/
def legacyPlan (hardMax : ℤ) : RepositoryRetrievalPlan :=
  ⟨(r.roots.take (max 1 hardMax).toNat).map fun root =>
      ⟨root, none, "legacy_explicit", 1, "legacy_workspace_root", none, none⟩,
    fingerprint E r.graph, [], [], []⟩

/-- The plan, once registry, graph and settings are read; `maxRoots` is the limit for a default. -/
def plan (maxRoots : ℕ → Py ℤ) : Py RepositoryRetrievalPlan :=
  if r.roots ≠ [] ∧ ∀ root ∈ r.roots, r.identity root = none then do
    let hardMax ← maxRoots r.roots.length
    return r.legacyPlan E hardMax
  else
    let primary := r.primary E
    if !r.settings.enabled then .ok (r.planOf E primary)
    else do
      let selected := primary ++
        if r.settings.maxExpansions ≠ 0 ∧ r.settings.allowed ≠ [] then r.expanded E primary else []
      let hardMax ← maxRoots (max selected.length 1)
      return r.planOf E (selected.take (max 1 hardMax).toNat)

end Request

/-- What is at the paths of the registry and of the graph. -/
structure Files where
  registry : Py Stored
  graph : Py Stored

/-- What is read before the roots are chosen. -/
def request (controlRoot : Path) (roots : List Path) (query : String) (changed : List String)
    (config : Dict F) (files : Files) : Py Request := do
  let workspace := resolve controlRoot
  let settings ← settings E config
  let specs ← files.registry >>= loadRegistry E
  let graph ← files.graph >>= loadRepositoryGraph E specs
  return ⟨workspace, roots.map resolve, registryRoots E resolve workspace specs, graph, settings, query, changed⟩

/-- **Select local repositories first, then bounded reviewed graph neighbors.** -/
def planRepositoryRetrieval (controlRoot : Path) (roots : List Path) (query : String) (changed : List String)
    (config : Dict F) (files : Files) : Py RepositoryRetrievalPlan := do
  let r ← request E resolve controlRoot roots query changed config files
  r.plan E (maxRoots E config)

/-! ### Primaries and expansions -/

variable {E} {resolve} {r : Request}

/-- A repository is the other end of an allowed edge from a primary one, which is its anchor. -/
def Neighbour (r : Request) (primary : List RoutedRepository) (x : RoutedRepository) : Prop :=
  ∃ edge ∈ r.graph.edges, edge.relationship ∈ r.settings.allowed ∧ ∃ p ∈ primary, ∃ anchor,
    p.repositoryId = some anchor ∧ x.anchorRepositoryId = some anchor ∧
      (edge.source = anchor ∧ x.repositoryId = some edge.target ∨
        edge.target = anchor ∧ x.repositoryId = some edge.source)

theorem mem_distinctRoots {root : Path} : root ∈ r.distinctRoots ↔ root ∈ r.roots := by
  rw [Request.distinctRoots, List.mem_reverse, List.mem_dedup, List.mem_reverse]

theorem nodup_distinctRoots : r.distinctRoots.Nodup := List.nodup_reverse.mpr (List.nodup_dedup _)

theorem signal_root {root : Path} {p : Path × String} (h : r.signal E root = some p) : p.1 = root := by
  unfold Request.signal at h
  split at h
  · cases h
  · split_ifs at h
    · rw [← Option.some_inj.mp h]
    · rw [← Option.some_inj.mp h]

theorem mem_signaled {p : Path × String} (h : p ∈ r.signaled E) : p.1 ∈ r.roots := by
  unfold Request.signaled at h
  dsimp only at h
  split_ifs at h
  · rw [Option.mem_toList, Option.map_eq_some_iff] at h
    obtain ⟨root, hroot, rfl⟩ := h
    exact List.mem_of_mem_head? hroot
  · obtain ⟨root, hroot, hsignal⟩ := List.mem_filterMap.mp h
    rw [signal_root hsignal]
    exact hroot

/-- The roots of the primary repositories. -/
theorem roots_primary : (r.primary E).map (·.root) =
    (firstNew Prod.fst r.settings.maxPrimary [] (r.signaled E)).map Prod.fst := by
  rw [Request.primary, List.map_map]
  rfl

theorem primary_of_mem {x : RoutedRepository} (h : x ∈ r.primary E) :
    x.root ∈ r.roots ∧ x.tier = "primary" ∧ x.repositoryId = r.identity x.root := by
  obtain ⟨p, hp, rfl⟩ := List.mem_map.mp h
  exact ⟨mem_signaled ((firstNew_sublist _ _ _ _).subset hp), rfl, rfl⟩

theorem rootForId_eq_some {id : String} {root : Path} (h : r.rootForId id = some root) :
    root ∈ r.roots ∧ r.identity root = some id := by
  unfold Request.rootForId at h
  split_ifs at h
  obtain ⟨hmem, hid⟩ := List.mem_filter.mp (List.mem_of_getLast? h)
  exact ⟨mem_distinctRoots.mp hmem, of_decide_eq_true hid⟩

/-- **What a candidate is**: the other end of an allowed edge. -/
theorem candidate_eq_some {primary : List RoutedRepository} {edge : Edge} {c : Request.Candidate}
    (h : r.candidate E primary edge = some c) : c.root ∈ r.roots ∧ edge.relationship ∈ r.settings.allowed ∧
      ∃ p ∈ primary, p.repositoryId = some c.anchor ∧
        (edge.source = c.anchor ∧ r.identity c.root = some edge.target ∨
          edge.target = c.anchor ∧ r.identity c.root = some edge.source) := by
  unfold Request.candidate at h
  split_ifs at h with hallowed
  obtain ⟨⟨id, anchor, direction⟩, hneighbor, h⟩ := Option.bind_eq_some_iff.mp h
  obtain ⟨root, hroot, h⟩ := Option.bind_eq_some_iff.mp h
  obtain ⟨hmem, hid⟩ := rootForId_eq_some hroot
  split_ifs at h
  obtain rfl := Option.some_inj.mp h
  refine ⟨hmem, hallowed, ?_⟩
  unfold Request.neighbor at hneighbor
  split_ifs at hneighbor with hsource htarget
  · obtain ⟨rfl, rfl, -⟩ : edge.target = id ∧ edge.source = anchor ∧ _ := by simpa using hneighbor
    obtain ⟨p, hp, hanchor⟩ := List.mem_filterMap.mp hsource
    exact ⟨p, hp, hanchor, Or.inl ⟨rfl, hid⟩⟩
  · obtain ⟨rfl, rfl, -⟩ : edge.source = id ∧ edge.target = anchor ∧ _ := by simpa using hneighbor
    obtain ⟨p, hp, hanchor⟩ := List.mem_filterMap.mp htarget
    exact ⟨p, hp, hanchor, Or.inr ⟨rfl, hid⟩⟩

theorem expanded_of_mem {primary : List RoutedRepository} {x : RoutedRepository}
    (h : x ∈ r.expanded E primary) : x.root ∈ r.roots ∧ x.tier = "graph_expansion" ∧
      x.repositoryId = r.identity x.root ∧ Neighbour r primary x := by
  obtain ⟨c, hc, rfl⟩ := List.mem_map.mp h
  have hsorted := (firstNew_sublist _ _ _ _).subset hc
  rw [List.mem_mergeSort] at hsorted
  obtain ⟨edge, hedge, hcandidate⟩ := List.mem_filterMap.mp hsorted
  obtain ⟨hmem, hallowed, p, hp, hanchor, hends⟩ := candidate_eq_some hcandidate
  exact ⟨hmem, rfl, rfl, edge, hedge, hallowed, p, hp, c.anchor, hanchor, rfl, hends⟩

theorem roots_expanded {primary : List RoutedRepository} :
    ((r.expanded E primary).map (·.root)).Nodup ∧
      ∀ root ∈ (r.expanded E primary).map (·.root), root ∉ primary.map (·.root) := by
  have hnew := firstNew_new Request.Candidate.root r.settings.maxExpansions (primary.map (·.root))
    ((r.graph.edges.filterMap (r.candidate E primary)).mergeSort Request.candidateLe)
  rw [Request.expanded, List.map_map]
  exact hnew

/-! ### The plan -/

/-- What a plan promises: repositories of the request, the primary ones first, then neighbours of them, and all
identities in its lists. -/
structure Bounded (r : Request) (plan : RepositoryRetrievalPlan) : Prop where
  members : ∀ x ∈ plan.repositories, x.root ∈ r.roots ∧ x.repositoryId = r.identity x.root
  distinct : (plan.repositories.map (·.root)).Nodup
  ordered : ∃ primary expanded, plan.repositories = primary ++ expanded ∧
    primary.length ≤ r.settings.maxPrimary ∧ expanded.length ≤ r.settings.maxExpansions ∧
    (∀ x ∈ primary, x.tier = "primary") ∧
    ∀ x ∈ expanded, x.tier = "graph_expansion" ∧ Neighbour r primary x
  listed : (plan.primaryRepositoryIds ++ plan.expandedRepositoryIds ++ plan.skippedRepositoryIds).Perm
    (r.distinctRoots.filterMap r.identity)

/-- Primary repositories and neighbours of them. -/
structure Selection (r : Request) (primary expanded : List RoutedRepository) : Prop where
  members : ∀ x ∈ primary ++ expanded, x.root ∈ r.roots ∧ x.repositoryId = r.identity x.root
  distinct : ((primary ++ expanded).map (·.root)).Nodup
  primary_le : primary.length ≤ r.settings.maxPrimary
  expanded_le : expanded.length ≤ r.settings.maxExpansions
  primary_tier : ∀ x ∈ primary, x.tier = "primary"
  neighbours : ∀ x ∈ expanded, x.tier = "graph_expansion" ∧ Neighbour r primary x

theorem selection_primary : Selection r (r.primary E) [] := by
  refine ⟨?_, ?_, ?_, Nat.zero_le _, fun x hx => (primary_of_mem hx).2.1, fun x hx => absurd hx List.not_mem_nil⟩
  · intro x hx
    rw [List.append_nil] at hx
    exact ⟨(primary_of_mem hx).1, (primary_of_mem hx).2.2⟩
  · rw [List.append_nil, roots_primary]
    exact (firstNew_new _ _ _ _).1
  · rw [Request.primary, List.length_map]
    exact length_firstNew_le _ _ _ _

theorem selection_expanded : Selection r (r.primary E) (r.expanded E (r.primary E)) := by
  have hprimary := @selection_primary F E r
  refine ⟨?_, ?_, hprimary.primary_le, ?_, hprimary.primary_tier, ?_⟩
  · intro x hx
    rcases List.mem_append.mp hx with hx | hx
    · exact hprimary.members x (List.mem_append_left _ hx)
    · exact ⟨(expanded_of_mem hx).1, (expanded_of_mem hx).2.2.1⟩
  · have hdistinct := hprimary.distinct
    rw [List.append_nil] at hdistinct
    rw [List.map_append]
    exact List.Nodup.append hdistinct roots_expanded.1 fun root hroot hmem => roots_expanded.2 root hmem hroot
  · rw [Request.expanded, List.length_map]
    exact length_firstNew_le _ _ _ _
  · exact fun x hx => ⟨(expanded_of_mem hx).2.1, (expanded_of_mem hx).2.2.2⟩

/-- A selection has at most as many repositories as there are roots. -/
theorem Selection.length_le {primary expanded : List RoutedRepository} (h : Selection r primary expanded) :
    (primary ++ expanded).length ≤ r.roots.length := by
  have hsub : (primary ++ expanded).map (·.root) ⊆ r.roots := by
    intro root hroot
    obtain ⟨x, hx, rfl⟩ := List.mem_map.mp hroot
    exact (h.members x hx).1
  have hle := (List.subperm_of_subset h.distinct hsub).length_le
  rwa [List.length_map] at hle

/-- The ids of a tier. -/
theorem filter_tier {primary expanded : List RoutedRepository} (h : Selection r primary expanded) :
    (primary ++ expanded).filter (·.tier = "primary") = primary ∧
      (primary ++ expanded).filter (·.tier = "graph_expansion") = expanded := by
  have hother : ("graph_expansion" : String) ≠ "primary" := by decide
  rw [List.filter_append, List.filter_append]
  constructor
  · rw [List.filter_eq_self.mpr fun x hx => decide_eq_true (h.primary_tier x hx),
      List.filter_eq_nil_iff.mpr fun x hx => ?_, List.append_nil]
    rw [(h.neighbours x hx).1, decide_eq_true_eq]
    exact hother
  · rw [List.filter_eq_self.mpr fun x hx => decide_eq_true (h.neighbours x hx).1,
      List.filter_eq_nil_iff.mpr fun x hx => ?_, List.nil_append]
    rw [h.primary_tier x hx, decide_eq_true_eq]
    exact hother.symm

/-- **The plan of a selection** is bounded. -/
theorem Selection.bounded {primary expanded : List RoutedRepository} (h : Selection r primary expanded) :
    Bounded r (r.planOf E (primary ++ expanded)) := by
  refine ⟨h.members, h.distinct, ⟨primary, expanded, rfl, h.primary_le, h.expanded_le, h.primary_tier,
    h.neighbours⟩, ?_⟩
  have hids : ∀ {xs : List RoutedRepository}, (∀ x ∈ xs, x.repositoryId = r.identity x.root) →
      xs.filterMap (·.repositoryId) = (xs.map (·.root)).filterMap r.identity := by
    intro xs hxs
    rw [List.filterMap_map]
    exact List.filterMap_congr hxs
  have hselected : (primary ++ expanded).filterMap (·.repositoryId) =
      ((primary ++ expanded).map (·.root)).filterMap r.identity :=
    hids fun x hx => (h.members x hx).2
  have hroots : ∀ root ∈ (primary ++ expanded).map (·.root), root ∈ r.distinctRoots := by
    intro root hroot
    obtain ⟨x, hx, rfl⟩ := List.mem_map.mp hroot
    exact mem_distinctRoots.mpr (h.members x hx).1
  unfold Request.planOf
  dsimp only
  rw [(filter_tier h).1, (filter_tier h).2, ← List.filterMap_append, hselected, Request.skipped,
    ← List.filterMap_append]
  exact (perm_append_filter (fun root => by rw [decide_eq_true_eq]) nodup_distinctRoots h.distinct hroots).filterMap _

/-- The configured limit does not depend on the default. -/
theorem maxRoots_eq {config : Dict F} {default other : ℕ} {limit : ℤ}
    (h : maxRoots E config default = .ok limit) :
    maxRoots E config other = .ok limit ∨ limit = default ∧ maxRoots E config other = .ok (other : ℤ) := by
  unfold maxRoots at h ⊢
  obtain ⟨workspace, hworkspace, h⟩ := bind_eq_ok.mp h
  unfold intOr at h
  rw [hworkspace]
  show intOr E workspace "max_roots" other = _ ∨ _ ∧ intOr E workspace "max_roots" other = _
  unfold intOr
  cases hlookup : lookup "max_roots" workspace with
  | none =>
    rw [hlookup] at h
    exact Or.inr ⟨(Except.ok.inj h).symm, rfl⟩
  | some value =>
    rw [hlookup] at h
    exact Or.inl h

/-- **A plan** for not more roots than the limit, one of them with an identity, is bounded. -/
theorem plan_bounded {controlRoot : Path} {roots : List Path} {query : String} {changed : List String}
    {config : Dict F} {files : Files} {limit : ℤ}
    (hrequest : request E resolve controlRoot roots query changed config files = .ok r)
    (hlimit : maxRoots E config roots.length = .ok limit) (hroots : (roots.length : ℤ) ≤ limit)
    (hidentity : ∃ root ∈ r.roots, r.identity root ≠ none) :
    ∃ plan, planRepositoryRetrieval E resolve controlRoot roots query changed config files = .ok plan ∧
      Bounded r plan ∧ (plan.repositories.length : ℤ) ≤ limit := by
  have hlegacy : ¬ (r.roots ≠ [] ∧ ∀ root ∈ r.roots, r.identity root = none) := by
    obtain ⟨root, hroot, hne⟩ := hidentity
    exact fun h => hne (h.2 root hroot)
  have hcount : r.roots.length = roots.length := by
    unfold request at hrequest
    obtain ⟨_, -, hrequest⟩ := bind_eq_ok.mp hrequest
    obtain ⟨_, -, hrequest⟩ := bind_eq_ok.mp hrequest
    obtain ⟨_, -, hrequest⟩ := bind_eq_ok.mp hrequest
    rw [← Except.ok.inj hrequest]
    exact List.length_map _
  have hplan : planRepositoryRetrieval E resolve controlRoot roots query changed config files =
      r.plan E (maxRoots E config) := by
    rw [planRepositoryRetrieval, hrequest]
    rfl
  rw [hplan]
  unfold Request.plan
  rw [if_neg hlegacy]
  dsimp only
  by_cases henabled : r.settings.enabled = true
  · obtain ⟨expanded, hexpanded, hselection⟩ : ∃ expanded,
        (if r.settings.maxExpansions ≠ 0 ∧ r.settings.allowed ≠ [] then r.expanded E (r.primary E) else []) =
          expanded ∧ Selection r (r.primary E) expanded := by
      split_ifs
      · exact ⟨_, rfl, selection_expanded⟩
      · exact ⟨_, rfl, selection_primary⟩
    rw [hexpanded, henabled]
    have hle := hselection.length_le
    set selected := r.primary E ++ expanded
    -- the limit does not cut the selection
    obtain ⟨hardMax, hmax, hfits⟩ : ∃ hardMax : ℤ,
        maxRoots E config (max selected.length 1) = .ok hardMax ∧ (selected.length : ℤ) ≤ hardMax := by
      rcases maxRoots_eq hlimit with h | ⟨-, h⟩
      · exact ⟨limit, h, by omega⟩
      · exact ⟨_, h, by omega⟩
    have htake : selected.take (max 1 hardMax).toNat = selected := List.take_of_length_le (by omega)
    refine ⟨r.planOf E selected, ?_, hselection.bounded, ?_⟩
    · rw [hmax]
      show Except.ok (r.planOf E (selected.take (max 1 hardMax).toNat)) = _
      rw [htake]
    · show (selected.length : ℤ) ≤ limit
      omega
  · have hselection := @selection_primary F E r
    have hbounded := hselection.bounded (E := E)
    have hle := hselection.length_le
    rw [List.append_nil] at hbounded hle
    rw [Bool.not_eq_true] at henabled
    rw [henabled]
    refine ⟨_, rfl, hbounded, ?_⟩
    show ((r.primary E).length : ℤ) ≤ limit
    omega

/-- A registry of two repositories. -/
def twoRepositories : String :=
  "\x7b\"version\":1,\"review_required\":true,\"repositories\":[" ++
    "\x7b\"name\":\"a\",\"relative_path\":\"a\",\"included\":true\x7d," ++
    "\x7b\"name\":\"b\",\"relative_path\":\"b\",\"included\":true\x7d]\x7d"

def twoSpecs : List RepositorySpec :=
  [⟨"a", "a", none, none, none, none, true, "discovered"⟩, ⟨"b", "b", none, none, none, none, true, "discovered"⟩]

/-- Two repositories, one of them mentioned. -/
theorem plan_bounded_two : ∃ r plan,
    planRepositoryRetrieval Instance.platform id ["w"] [["w", "a"], ["w", "b"]] "look at b" []
      [("workspace", .obj [("max_roots", .int 4)])] ⟨.ok (.text twoRepositories), .ok .missing⟩ = .ok plan ∧
      Bounded r plan ∧ (plan.repositories.length : ℤ) ≤ 4 := by
  have hsettings : settings Instance.platform [("workspace", .obj [("max_roots", .int 4)])] =
      .ok ⟨true, 2, 2, Relationship.all⟩ := by decide +kernel
  have hspecs : loadRegistry Instance.platform (.text twoRepositories) = .ok twoSpecs := by decide +kernel
  have hgraph : loadRepositoryGraph Instance.platform twoSpecs .missing =
      .ok ⟨acceptedNodes Instance.platform twoSpecs, []⟩ := rfl
  have hrequest : ∃ r, request Instance.platform id ["w"] [["w", "a"], ["w", "b"]] "look at b" []
      [("workspace", .obj [("max_roots", .int 4)])] ⟨.ok (.text twoRepositories), .ok .missing⟩ = .ok r ∧
      ∃ root ∈ r.roots, r.identity root ≠ none := by
    refine ⟨_, bind_eq_ok.mpr ⟨_, hsettings, bind_eq_ok.mpr ⟨_, bind_eq_ok.mpr ⟨_, rfl, hspecs⟩,
      bind_eq_ok.mpr ⟨_, bind_eq_ok.mpr ⟨_, rfl, hgraph⟩, rfl⟩⟩⟩, ["w", "a"], ?_, ?_⟩
    · decide
    · decide +kernel
  obtain ⟨r, hrequest, hidentity⟩ := hrequest
  exact ⟨r, plan_bounded hrequest (show _ = Except.ok 4 from rfl) (by decide) hidentity⟩

end ControlPlane.Retrieval.Routing
