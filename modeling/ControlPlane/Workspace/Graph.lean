import ControlPlane.Workspace.Registry

/-! # The repository graph

The relationships between the repositories of a workspace are in a reviewed JSON file. Only accepted
repositories can be related, and a file with one bad edge gives no edge at all (`edges_accepted`). -/

namespace ControlPlane.Workspace.Graph

open ControlPlane.Lib.Value ControlPlane.Lib.Print ControlPlane.Lib.Dynamic ControlPlane.Lib.Text
open ControlPlane.Environment ControlPlane.Workspace.Registry

variable {F : Type} (E : Env F)

/-- Code-owned cross-repository relationship vocabulary. -/
inductive Relationship where
  | dependsOn
  | publishesApi
  | consumesSchema
  | deploys
  deriving DecidableEq

namespace Relationship

def all : List Relationship := [dependsOn, publishesApi, consumesSchema, deploys]

def value : Relationship → String
  | dependsOn => "depends_on"
  | publishesApi => "publishes_api"
  | consumesSchema => "consumes_schema"
  | deploys => "deploys"

/-- `RepositoryRelationship(text)` -/
def ofText (text : String) : Option Relationship := all.find? (·.value = text)

end Relationship

structure Node where
  repositoryId : String
  name : String
  relativePath : String
  remoteIdentity : Option String

structure Edge where
  source : String
  target : String
  relationship : Relationship
  deriving DecidableEq

structure RepositoryGraph where
  nodes : List Node
  edges : List Edge

def edgeId (edge : Edge) : String :=
  let payload : Json F := .obj [("source_repository_id", .str edge.source),
    ("target_repository_id", .str edge.target), ("relationship", .str edge.relationship.value)]
  E.sha256 (String.ofList (print E.T.toFloatText (compact true) 0 (sortKeys payload)))

def fingerprint (graph : RepositoryGraph) : String :=
  let payload : Json F := .obj [("nodes", .arr (graph.nodes.map fun node => .str node.repositoryId)),
    ("edges", .arr (graph.edges.map fun edge => .str (edgeId E edge)))]
  E.sha256 (String.ofList (print E.T.toFloatText (compact true) 0 (sortKeys payload)))

def acceptedNodes (specs : List RepositorySpec) : List Node :=
  ((specs.filter (·.included)).map fun spec =>
    (⟨repositoryId E spec.relativePath spec.remoteIdentity, spec.name, spec.relativePath,
      spec.remoteIdentity⟩ : Node)).insertionSort fun a b => a.repositoryId ≤ b.repositoryId

def edgeFields : List String := ["source_repository_id", "target_repository_id", "relationship"]

/-- `_parse_edge(raw, accepted)` -/
def parseEdge (accepted : List String) (raw : Json F) : Option Edge :=
  match raw with
  | .obj raw =>
    if (keys raw).all edgeFields.contains && edgeFields.all (keys raw).contains then do
      let source ← presentOf (getKey raw "source_repository_id")
      let target ← presentOf (getKey raw "target_repository_id")
      let relationship ← presentOf (getKey raw "relationship")
      if strip source = strip target ∨ strip source ∉ accepted ∨ strip target ∉ accepted then none
      else do
        let kind ← Relationship.ofText (strip relationship)
        return ⟨strip source, strip target, kind⟩
    else none
  | _ => none

/-- The edges of a list, if all are good and none is there twice. -/
def edgesFrom (accepted : List String) (seen : List Edge) : List (Json F) → Option (List Edge)
  | [] => some []
  | raw :: rest => do
    let edge ← parseEdge accepted raw
    if edge ∈ seen then none
    else do
      let edges ← edgesFrom accepted (edge :: seen) rest
      return edge :: edges

def edgeKey (edge : Edge) : List String := [edge.source, edge.target, edge.relationship.value]

def graphVersion : ℤ := 1

/-- Any malformed or ambiguous state gives no edges. -/
def edgesOf (accepted : List String) (data : Json F) : List Edge :=
  match data with
  | .obj d =>
    if pyEq E.T (getKey d "version") (.int graphVersion) then
      match getKey d "review_required", getKey d "edges" with
      | .bool true, .arr edges => ((edgesFrom accepted [] edges).map
          (·.insertionSort fun a b => edgeKey a ≤ edgeKey b)).getD []
      | _, _ => []
    else []
  | _ => []

/-- The graph of the accepted repositories; `stored` is what is at its path. -/
def loadRepositoryGraph (specs : List RepositorySpec) (stored : Stored) : Py RepositoryGraph :=
  let nodes := acceptedNodes E specs
  match stored with
  | .missing => .ok ⟨nodes, []⟩
  | .undecodable => .error (.valueError "'utf-8' codec can't decode bytes")
  | .text content => match E.jsonLoads content with
    | .ok data => .ok ⟨nodes, edgesOf E (nodes.map (·.repositoryId)) data⟩
    | .error (.jsonDecodeError _) => .ok ⟨nodes, []⟩
    | .error e => .error e

/-! ### Edges -/

variable {E}

/-- An edge of two different accepted repositories. -/
def Between (accepted : List String) (edge : Edge) : Prop :=
  edge.source ∈ accepted ∧ edge.target ∈ accepted ∧ edge.source ≠ edge.target

theorem between_parseEdge {accepted : List String} {raw : Json F} {edge : Edge}
    (h : parseEdge accepted raw = some edge) : Between accepted edge := by
  cases raw with
  | obj raw =>
    unfold parseEdge at h
    dsimp only at h
    split_ifs at h
    simp only [Option.bind_eq_bind, Option.bind_eq_some_iff] at h
    obtain ⟨source, -, target, -, relationship, -, h⟩ := h
    split_ifs at h with hbad
    obtain ⟨kind, -, h⟩ := Option.bind_eq_some_iff.mp h
    rw [← Option.some_inj.mp h]
    rw [not_or, not_or, not_not, not_not] at hbad
    exact ⟨hbad.2.1, hbad.2.2, hbad.1⟩
  | _ => cases h

theorem between_edgesFrom {accepted : List String} : ∀ {raws : List (Json F)} {seen edges : List Edge},
    edgesFrom accepted seen raws = some edges → ∀ edge ∈ edges, Between accepted edge
  | [], _, edges, h, edge, hedge => by
    rw [← Option.some_inj.mp h] at hedge
    exact absurd hedge List.not_mem_nil
  | raw :: rest, seen, edges, h, edge, hedge => by
    rw [edgesFrom] at h
    obtain ⟨first, hfirst, h⟩ := Option.bind_eq_some_iff.mp h
    split_ifs at h
    obtain ⟨others, hothers, h⟩ := Option.bind_eq_some_iff.mp h
    rw [← Option.some_inj.mp h] at hedge
    rcases List.mem_cons.mp hedge with rfl | hedge
    · exact between_parseEdge hfirst
    · exact between_edgesFrom hothers edge hedge

theorem between_edgesOf {accepted : List String} {data : Json F} {edge : Edge}
    (h : edge ∈ edgesOf E accepted data) : Between accepted edge := by
  unfold edgesOf at h
  split at h
  · split_ifs at h
    · split at h
      · next raws _ _ =>
        cases hedges : edgesFrom accepted [] raws with
        | none =>
          rw [hedges] at h
          exact absurd h List.not_mem_nil
        | some edges =>
          rw [hedges, Option.map_some, Option.getD_some, List.mem_insertionSort] at h
          exact between_edgesFrom hedges edge h
      · exact absurd h List.not_mem_nil
    · exact absurd h List.not_mem_nil
  · exact absurd h List.not_mem_nil

/-- **The edges of a graph** join different accepted repositories. -/
theorem edges_accepted {specs : List RepositorySpec} {stored : Stored} {graph : RepositoryGraph}
    (h : loadRepositoryGraph E specs stored = .ok graph) :
    ∀ edge ∈ graph.edges, Between (graph.nodes.map (·.repositoryId)) edge := by
  intro edge hedge
  unfold loadRepositoryGraph at h
  dsimp only at h
  split at h
  · rw [← Except.ok.inj h] at hedge
    exact absurd hedge List.not_mem_nil
  · cases h
  · split at h
    · rw [← Except.ok.inj h] at hedge ⊢
      exact between_edgesOf hedge
    · rw [← Except.ok.inj h] at hedge
      exact absurd hedge List.not_mem_nil
    · cases h

end ControlPlane.Workspace.Graph
