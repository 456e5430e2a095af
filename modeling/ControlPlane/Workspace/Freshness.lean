import ControlPlane.Workspace.Fingerprint
import ControlPlane.Lib.Runs
import ControlPlane.Instance

/-! # The freshness of a code graph

A sync has a builder make the graph of a repository, and then writes a manifest with the fingerprint of the repository
and the hash of the graph. The repository may be edited at any time: the builder, the fingerprint and a later report may
each see other contents. A sync may also end before the manifest is written, with another graph or none.

`graph_fresh_iff`: when a graph is reported as fresh, after any syncs. `graph_sound_iff`: when every report of freshness
is about a graph that was built from the contents at the time of the report. -/

namespace ControlPlane.Workspace.Freshness

open ControlPlane.Lib.Value ControlPlane.Lib.Print ControlPlane.Lib.Dumps ControlPlane.Lib.Dynamic ControlPlane.Lib.Floats
open ControlPlane.Lib.Runs ControlPlane.Environment ControlPlane.Workspace.Fingerprint

variable {F : Type} (E : Env F)

/-- What is used of `repository_fingerprint`. -/
structure Print where
  fingerprint : String
  gitHead : Option String

/-- What `validate_graph_database` returns. -/
structure Validation where
  schemaVersion : ℤ
  nodeCount : ℕ
  edgeCount : ℕ

/-- The tools, over the contents `σ` of a repository. -/
structure GraphTools (σ : Type) where
  repositoryFingerprint : σ → Print
  sha256 : Bytes → String
  /-- `code-review-graph build`, or `update` of a graph that is there. -/
  build : σ → Option Bytes → Option Bytes
  validate : Bytes → Option Validation

/-- The files of a graph. -/
structure GraphDir where
  graph : Option Bytes
  manifest : Option String

/-- What `graph_freshness` reports; `found` are the entries that it adds. -/
structure Report (F : Type) where
  fresh : Bool
  reason : String
  found : Dict F

def stale (reason : String) : Report F := ⟨false, reason, []⟩

def graphManifestSchema : ℤ := 1

variable {σ : Type} (T : GraphTools σ)

/-- `int(manifest.get("manifest_schema", 0) or 0)`; nothing, if it raises a `TypeError` or `ValueError`. -/
def manifestSchema (manifest : Dict F) : Py (Option ℤ) :=
  let v := (lookup "manifest_schema" manifest).getD (.int 0)
  match E.toInt (if truthy E.T v then v else .int 0) with
  | .ok n => .ok (some n)
  | .error (.typeError _) => .ok none
  | .error (.valueError _) => .ok none
  | .error e => .error e

/-- The checks of a manifest, from its schema on. -/
def checkManifest (relative : String) (contents : σ) (hashable : Bool) (graph : Bytes) (manifest : Dict F) :
    Py (Report F) := do
  match ← manifestSchema E manifest with
  | none => return stale "invalid manifest schema"
  | some schema =>
    let current := T.repositoryFingerprint contents
    if schema ≠ graphManifestSchema then return stale "unsupported manifest schema"
    else if differs E manifest "repository_relative_path" relative then return stale "repository path identity mismatch"
    else if !hashable then return stale "graph.db is unreadable"
    else if differs E manifest "graph_sha256" (T.sha256 graph) then return stale "graph hash mismatch"
    else if differs E manifest "repository_fingerprint" current.fingerprint then
      return ⟨false, "repository fingerprint mismatch",
        [("manifest_fingerprint", getKey manifest "repository_fingerprint"),
          ("current_fingerprint", .str current.fingerprint)]⟩
    else if !pyEq E.T (getKey manifest "git_head") (textOrNull current.gitHead) then return stale "Git HEAD mismatch"
    else return ⟨true, "graph provenance matches repository state", [("graph_sha256", .str (T.sha256 graph)),
      ("repository_fingerprint", .str current.fingerprint), ("git_head", textOrNull current.gitHead)]⟩

/-- `graph_freshness`; the manifest may not be `readable`, and the graph not `hashable`. -/
def graphFreshness (relative : String) (contents : σ) (readable hashable : Bool) (d : GraphDir) : Py (Report F) :=
  match d.graph, d.manifest with
  | none, _ => .ok (stale "graph.db is missing")
  | some _, none => .ok (stale "manifest.json is missing")
  | some graph, some text =>
    if !readable then .ok (stale "manifest.json is unreadable")
    else match E.jsonLoads text with
      | .ok (.obj manifest) => checkManifest E T relative contents hashable graph manifest
      | .ok _ => .ok (stale "manifest.json must contain an object")
      | .error (.jsonDecodeError _) => .ok (stale "manifest.json is unreadable")
      | .error e => .error e

/-! ### Syncs -/

/-- How a sync ends. -/
inductive GraphEnd where
  /-- The builder fails, and leaves a graph or none. -/
  | failed (graph : Option Bytes)
  /-- The manifest is not replaced. -/
  | unstamped
  | stamped

/-- A sync of one repository: the contents that the builder sees, and those that the fingerprint is taken of. -/
structure GraphSync (σ : Type) where
  seen : σ
  printed : σ
  crgVersion : String
  generatedAt : String
  ends : GraphEnd

/-- What `_write_graph_manifest` writes. -/
def graphManifest (relative action : String) (s : GraphSync σ) (graph : Bytes) (v : Validation) : Dict F :=
  let print := T.repositoryFingerprint s.printed
  [("manifest_schema", .int graphManifestSchema), ("repository_relative_path", .str relative),
    ("repository_fingerprint", .str print.fingerprint), ("git_head", textOrNull print.gitHead),
    ("crg_version", .str s.crgVersion), ("crg_schema_version", .int v.schemaVersion),
    ("generation_mode", .str action), ("graph_file", .str "graph.db"), ("graph_sha256", .str (T.sha256 graph)),
    ("node_count", .int v.nodeCount), ("edge_count", .int v.edgeCount), ("generated_at", .str s.generatedAt)]

/-- What is at `graph.db` after the builder. -/
def graphAfter (s : GraphSync σ) (old : Option Bytes) : Option Bytes :=
  match s.ends with
  | .failed graph => graph
  | _ => T.build s.seen old

/-- The graph of which a manifest is written: one that the builder has made and that is valid. -/
def stamps (s : GraphSync σ) (old : Option Bytes) : Option (Bytes × Validation) :=
  match s.ends with
  | .stamped => (T.build s.seen old).bind fun graph => (T.validate graph).map fun v => (graph, v)
  | _ => none

/-- A sync of `sync_workspace_graphs`. -/
def syncGraph (relative : String) (d : GraphDir) (s : GraphSync σ) : Py GraphDir :=
  let action := if d.graph.isSome then "update" else "build"
  match stamps T s d.graph with
  | none => .ok { d with graph := graphAfter T s d.graph }
  | some (graph, v) => do
    let text ← E.fileText true (.obj (graphManifest T relative action s graph v))
    return ⟨graphAfter T s d.graph, some text⟩

/-! ### What is stamped -/

/-- The contents and the graph that the last manifest was written of. -/
def lastStamp : Option Bytes → Option (σ × Bytes) → List (GraphSync σ) → Option (σ × Bytes)
  | _, stamp, [] => stamp
  | old, stamp, s :: syncs =>
    lastStamp (graphAfter T s old) (((stamps T s old).map fun p => (s.printed, p.1)).or stamp) syncs

/-- The manifest on disk is of the stamp. -/
def Holds (relative : String) (d : GraphDir) (stamp : Option (σ × Bytes)) : Prop :=
  match stamp with
  | none => d.manifest = none
  | some (contents, graph) => ∃ s action v text, s.printed = contents ∧ d.manifest = some text ∧
      E.fileText true (.obj (graphManifest T relative action s graph v)) = .ok text

variable {E} {T}

theorem holds_step {relative : String} {d d' : GraphDir} {stamp : Option (σ × Bytes)} (h : Holds E T relative d stamp)
    {s : GraphSync σ} (hd : syncGraph E T relative d s = .ok d') :
    d'.graph = graphAfter T s d.graph ∧
      Holds E T relative d' (((stamps T s d.graph).map fun p => (s.printed, p.1)).or stamp) := by
  unfold syncGraph at hd
  dsimp only at hd
  cases hstamps : stamps T s d.graph with
  | none =>
    rw [hstamps] at hd
    dsimp only at hd
    rw [← Except.ok.inj hd]
    exact ⟨rfl, h⟩
  | some p =>
    rw [hstamps] at hd
    obtain ⟨text, htext, hd⟩ := bind_eq_ok.mp hd
    rw [← Except.ok.inj hd]
    exact ⟨rfl, s, _, p.2, text, rfl, rfl, htext⟩

/-- **What the manifest is of**, after any syncs. -/
theorem holds_run {relative : String} {syncs : List (GraphSync σ)} {d d' : GraphDir} {stamp : Option (σ × Bytes)}
    (h : Holds E T relative d stamp) (hd : run (syncGraph E T relative) d syncs = .ok d') :
    Holds E T relative d' (lastStamp T d.graph stamp syncs) := by
  induction syncs generalizing d stamp with
  | nil =>
    rw [run, Except.ok.injEq] at hd
    subst hd
    exact h
  | cons s syncs ih =>
    obtain ⟨u, hu, hd⟩ := run_cons.mp hd
    obtain ⟨hgraph, hstep⟩ := holds_step h hu
    have hrest := ih hstep hd
    rw [hgraph] at hrest
    exact hrest

/-- The graph of a stamp was built by a sync that took the fingerprint of the contents. -/
theorem lastStamp_built {syncs : List (GraphSync σ)} {old : Option Bytes} {stamp : Option (σ × Bytes)} {contents : σ}
    {graph : Bytes} (h : lastStamp T old stamp syncs = some (contents, graph)) :
    stamp = some (contents, graph) ∨
      ∃ s ∈ syncs, s.printed = contents ∧ ∃ old, T.build s.seen old = some graph := by
  induction syncs generalizing old stamp with
  | nil => exact Or.inl h
  | cons s syncs ih =>
    rcases ih h with hstamp | ⟨s', hs', hbuilt⟩
    · cases hstamps : stamps T s old with
      | none =>
        rw [hstamps] at hstamp
        exact Or.inl hstamp
      | some p =>
        rw [hstamps, Option.map_some, Option.some_or, Option.some.injEq, Prod.mk.injEq] at hstamp
        refine Or.inr ⟨s, List.mem_cons_self, hstamp.1, old, ?_⟩
        unfold stamps at hstamps
        split at hstamps
        · obtain ⟨g, hg, hv⟩ := Option.bind_eq_some_iff.mp hstamps
          obtain ⟨v, -, hp⟩ := Option.map_eq_some_iff.mp hv
          rw [hg, ← hstamp.2, ← hp]
        · cases hstamps
    · exact Or.inr ⟨s', List.mem_cons_of_mem _ hs', hbuilt⟩

/-! ### Reading a manifest back -/

theorem sortKeys_textOrNull (text : Option String) : sortKeys (textOrNull text : Json F) = textOrNull text := by
  cases text <;> rfl

theorem pyEq_textOrNull (a b : Option String) : pyEq E.T (textOrNull a) (textOrNull b) = decide (a = b) := by
  rw [Bool.eq_iff_iff, decide_eq_true_eq]
  cases a with
  | none => cases b <;> simp [textOrNull]
  | some a =>
    rw [textOrNull, pyEq_str]
    cases b with
    | none => simp [textOrNull]
    | some b => rw [textOrNull, Json.str.injEq, Option.some.injEq, eq_comm]

theorem print_eq_iff (p q : Freshness.Print) : p = q ↔ p.fingerprint = q.fingerprint ∧ q.gitHead = p.gitHead := by
  obtain ⟨a, b⟩ := p
  obtain ⟨a', b'⟩ := q
  rw [Print.mk.injEq, @eq_comm _ b b']

/-- A text of an object, read back and compared with another. -/
theorem differs_sorted {d : Dict F} (hd : (keys d).Nodup) {k text : String} (hk : getKey d k = .str text)
    (other : String) : differs E (sortDict d) k other = decide (other ≠ text) := by
  have hsame : pyEq E.T (.str text) (.str other) = decide (other = text) := by
    rw [Bool.eq_iff_iff, pyEq_str, Json.str.injEq, decide_eq_true_eq]
  rw [differs, getKey_sortDict hd, hk, sortKeys_str, hsame, ← decide_not]

theorem wellFormed_graphManifest (relative action : String) (s : GraphSync σ) (graph : Bytes) (v : Validation) :
    wellFormed (.obj (graphManifest T relative action s graph v) : Json F) = true := by
  have hkeys : keys (graphManifest T relative action s graph v : Dict F) = ["manifest_schema", "repository_relative_path",
      "repository_fingerprint", "git_head", "crg_version", "crg_schema_version", "generation_mode", "graph_file",
      "graph_sha256", "node_count", "edge_count", "generated_at"] := rfl
  rw [wellFormed_obj, hkeys]
  refine ⟨by decide +kernel, ?_⟩
  simp only [graphManifest, List.forall_mem_cons, List.not_mem_nil, false_implies, implies_true, and_true, wellFormed_int,
    wellFormed_str, wellFormed_textOrNull]

/-- **The checks of a manifest that a sync has written.** -/
theorem checkManifest_written (relative action : String) (contents : σ) (hashable : Bool) (s : GraphSync σ)
    (now graph : Bytes) (v : Validation) : ∃ r : Report F,
      checkManifest E T relative contents hashable now (sortDict (graphManifest T relative action s graph v)) = .ok r ∧
        (r.fresh = true ↔ hashable = true ∧ T.sha256 now = T.sha256 graph ∧
          T.repositoryFingerprint contents = T.repositoryFingerprint s.printed) := by
  have hwf := @wellFormed_graphManifest F σ T relative action s graph v
  have hnodup := ((wellFormed_obj _).mp hwf).1
  have hkey : ∀ k, getKey (sortDict (graphManifest T relative action s graph v : Dict F)) k =
      sortKeys (getKey (graphManifest T relative action s graph v) k) := fun k => getKey_sortDict hnodup k
  have hschema : manifestSchema E (sortDict (graphManifest T relative action s graph v)) = .ok (some 1) := by
    have hlookup : lookup "manifest_schema" (graphManifest T relative action s graph v : Dict F) = some (.int 1) := rfl
    unfold manifestSchema
    rw [lookup_sortDict hnodup, hlookup]
    rfl
  have hrelative : differs E (sortDict (graphManifest T relative action s graph v)) "repository_relative_path" relative =
      false := by
    rw [differs_eq_false, hkey]
    rfl
  have hhead : pyEq E.T (getKey (sortDict (graphManifest T relative action s graph v)) "git_head")
      (textOrNull (T.repositoryFingerprint contents).gitHead) =
        decide ((T.repositoryFingerprint s.printed).gitHead = (T.repositoryFingerprint contents).gitHead) := by
    have hget : getKey (graphManifest T relative action s graph v : Dict F) "git_head" =
        textOrNull (T.repositoryFingerprint s.printed).gitHead := rfl
    rw [hkey, hget, sortKeys_textOrNull, pyEq_textOrNull]
  unfold checkManifest
  rw [hschema]
  simp only [bind, Except.bind]
  rw [if_neg (by simp [graphManifestSchema]), if_neg (by rw [hrelative]; decide),
    @differs_sorted F E _ hnodup "graph_sha256" (T.sha256 graph) rfl,
    @differs_sorted F E _ hnodup "repository_fingerprint" (T.repositoryFingerprint s.printed).fingerprint rfl, hhead, print_eq_iff]
  cases hashable with
  | false => exact ⟨_, rfl, by simp [stale]⟩
  | true =>
    rw [if_neg (by decide)]
    by_cases hsha : T.sha256 now = T.sha256 graph
    · rw [if_neg (by simpa using hsha)]
      by_cases hfp : (T.repositoryFingerprint contents).fingerprint = (T.repositoryFingerprint s.printed).fingerprint
      · rw [if_neg (by simpa using hfp)]
        by_cases hgit : (T.repositoryFingerprint s.printed).gitHead = (T.repositoryFingerprint contents).gitHead
        · rw [if_neg (by simpa using hgit)]
          exact ⟨_, rfl, by simp [hsha, hfp, hgit]⟩
        · rw [if_pos (by simpa using hgit)]
          exact ⟨_, rfl, by simp [stale, hgit]⟩
      · rw [if_pos (by simpa using hfp)]
        exact ⟨_, rfl, by simp [hfp]⟩
    · rw [if_pos (by simpa using hsha)]
      exact ⟨_, rfl, by simp [stale, hsha]⟩

/-- What is reported of a directory whose manifest is of a stamp. -/
theorem graphFreshness_holds {relative : String} {d : GraphDir} {stamp : Option (σ × Bytes)}
    (h : Holds E T relative d stamp) (contents : σ) (readable hashable : Bool) : ∃ r : Report F,
      graphFreshness E T relative contents readable hashable d = .ok r ∧
        (r.fresh = true ↔ readable = true ∧ hashable = true ∧ ∃ printed graph now, stamp = some (printed, graph) ∧
          d.graph = some now ∧ T.sha256 now = T.sha256 graph ∧
          T.repositoryFingerprint contents = T.repositoryFingerprint printed) := by
  unfold graphFreshness
  cases hgraph : d.graph with
  | none => exact ⟨_, rfl, by simp [stale]⟩
  | some now =>
    cases stamp with
    | none =>
      have hnone : d.manifest = none := h
      rw [hnone]
      exact ⟨_, rfl, by simp [stale]⟩
    | some p =>
      obtain ⟨s, action, v, text, hprinted, hmanifest, htext⟩ := h
      have hloads := jsonLoads_fileText E (wellFormed_graphManifest relative action s p.2 v) htext
      rw [sortKeys_obj'] at hloads
      obtain ⟨r, hr, hfresh⟩ := @checkManifest_written F E σ T relative action contents hashable s now p.2 v
      rw [hmanifest]
      dsimp only
      cases readable with
      | false => exact ⟨_, rfl, by simp [stale]⟩
      | true =>
        rw [if_neg (by decide), hloads]
        refine ⟨r, hr, hfresh.trans ?_⟩
        rw [hprinted]
        constructor
        · rintro ⟨hhash, hsha, hfp⟩
          exact ⟨rfl, hhash, p.1, p.2, now, rfl, rfl, hsha, hfp⟩
        · rintro ⟨-, hhash, printed, graph, now', hp, hnow, hsha, hfp⟩
          rw [Option.some.injEq] at hp hnow
          rw [hp, hnow]
          exact ⟨hhash, hsha, hfp⟩

/-! ### Freshness after any syncs -/

def noGraph : GraphDir := ⟨none, none⟩

/-- **When a graph is reported as fresh.** After any syncs, whatever contents each step of them has seen, the report is
made, and says that the graph is fresh if and only if the contents have the fingerprint and the graph has the hash of the
last sync that wrote its manifest. -/
theorem graph_fresh_iff {relative : String} {syncs : List (GraphSync σ)} {d : GraphDir}
    (hd : run (syncGraph E T relative) noGraph syncs = .ok d) (contents : σ) (readable hashable : Bool) :
    ∃ r : Report F, graphFreshness E T relative contents readable hashable d = .ok r ∧
      (r.fresh = true ↔ readable = true ∧ hashable = true ∧ ∃ printed graph now,
        lastStamp T none none syncs = some (printed, graph) ∧ d.graph = some now ∧ T.sha256 now = T.sha256 graph ∧
        T.repositoryFingerprint contents = T.repositoryFingerprint printed) := by
  have hholds : Holds E T relative noGraph none := rfl
  exact graphFreshness_holds (holds_run hholds hd) contents readable hashable

/-- The graph is one that the builder makes of the contents. -/
def BuiltFrom (T : GraphTools σ) (contents : σ) (graph : Option Bytes) : Prop :=
  ∃ g old, graph = some g ∧ T.build contents old = some g

/-- **When freshness means what it says.** After any syncs, every report of freshness is about a graph that was built
from the contents at the time of the report, if and only if the last manifest is of another graph, or was written of
contents that the graph was built from; and that is so if every sync took the fingerprint of what its builder saw. -/
theorem graph_sound_iff (hfingerprint : Function.Injective T.repositoryFingerprint) (hsha : Function.Injective T.sha256)
    {relative : String} {syncs : List (GraphSync σ)} {d : GraphDir}
    (hd : run (syncGraph E T relative) noGraph syncs = .ok d) :
    ((∀ contents, ∀ r : Report F, graphFreshness E T relative contents true true d = .ok r → r.fresh = true →
        BuiltFrom T contents d.graph) ↔
      ∀ printed graph, lastStamp T none none syncs = some (printed, graph) → d.graph = some graph →
        BuiltFrom T printed d.graph) ∧
    ((∀ s ∈ syncs, s.seen = s.printed) → ∀ contents, ∀ r : Report F,
      graphFreshness E T relative contents true true d = .ok r → r.fresh = true → BuiltFrom T contents d.graph) := by
  have hholds := holds_run (show Holds E T relative noGraph none from rfl) hd
  have hiff : (∀ contents, ∀ r : Report F, graphFreshness E T relative contents true true d = .ok r → r.fresh = true →
        BuiltFrom T contents d.graph) ↔
      ∀ printed graph, lastStamp T none none syncs = some (printed, graph) → d.graph = some graph →
        BuiltFrom T printed d.graph := by
    constructor
    · intro hall printed graph hstamp hgraph
      obtain ⟨r, hr, hfresh⟩ := graphFreshness_holds hholds printed true true
      exact hall printed r hr (hfresh.mpr ⟨rfl, rfl, printed, graph, graph, hstamp, hgraph, rfl, rfl⟩)
    · intro hall contents r hr hfresh
      obtain ⟨r', hr', hiff⟩ := graphFreshness_holds hholds contents true true
      rw [hr, Except.ok.injEq] at hr'
      subst hr'
      obtain ⟨-, -, printed, graph, now, hstamp, hnow, hhash, hprint⟩ := hiff.mp hfresh
      rw [hsha hhash] at hnow
      rw [hfingerprint hprint]
      exact hall printed graph hstamp hnow
  refine ⟨hiff, fun hsteady => hiff.mpr fun printed graph hstamp hgraph => ?_⟩
  rcases lastStamp_built hstamp with hnone | ⟨s, hs, hprinted, old, hbuilt⟩
  · cases hnone
  · rw [hsteady s hs, hprinted] at hbuilt
    exact ⟨graph, old, hgraph, hbuilt⟩

/-! ### An edit during a sync -/

/-- A manifest can be written, if its numbers are short enough for JSON. -/
theorem graphManifest_isOk (relative action : String) (s : GraphSync σ) (graph : Bytes) {v : Validation}
    (hv : ∀ n ∈ [v.schemaVersion, v.nodeCount, v.edgeCount], n.natAbs < 10 ^ 9) :
    ∃ text, E.fileText true (.obj (graphManifest T relative action s graph v)) = .ok text := by
  refine fileText_eq_ok E ?_
  have hhead : printable E.T.toFloatText true (textOrNull (T.repositoryFingerprint s.printed).gitHead) = true := by
    cases (T.repositoryFingerprint s.printed).gitHead <;> simp [textOrNull, printable]
  have hstr : ∀ text, printable E.T.toFloatText true (.str text : Json F) = true := fun _ => rfl
  have hschema : printable E.T.toFloatText true (.int graphManifestSchema : Json F) = true :=
    printable_small true (by decide)
  simp only [List.forall_mem_cons, List.not_mem_nil, false_implies, implies_true, and_true] at hv
  have hversion : printable E.T.toFloatText true (.int v.schemaVersion : Json F) = true := printable_small true hv.1
  have hnodes : printable E.T.toFloatText true (.int v.nodeCount : Json F) = true := printable_small true hv.2.1
  have hedges : printable E.T.toFloatText true (.int v.edgeCount : Json F) = true := printable_small true hv.2.2
  simp only [graphManifest, printable_obj, List.forall_mem_cons, List.not_mem_nil, false_implies, implies_true, and_true,
    hhead, hstr, hschema, hversion, hnodes, hedges]

section Sample
open ControlPlane.Instance ControlPlane.Workspace.GitStatus

def bytesDigest (data : Bytes) : String := digest (String.ofList (data.map char))

theorem bytesDigest_injective : Function.Injective bytesDigest := by
  intro a b h
  have hchars : Function.Injective char := by
    intro x y hxy
    have hx := toNat_char x
    rw [hxy, toNat_char] at hx
    exact UInt8.toNat_inj.mp hx.symm
  exact List.map_injective_iff.mpr hchars (String.ofList_inj.mp (digest_injective h))

/-- Tools to which the contents are bytes, and the graph is the contents. -/
def copyTools : GraphTools Bytes where
  repositoryFingerprint contents := ⟨bytesDigest contents, none⟩
  sha256 := bytesDigest
  build contents _ := some contents
  validate _ := some ⟨1, 1, 0⟩

theorem copyTools_injective : Function.Injective copyTools.repositoryFingerprint := fun _ _ h =>
  bytesDigest_injective (congrArg Print.fingerprint h)

theorem copyTools_run (seen printed : Bytes) : ∃ d, run (syncGraph platform copyTools ".") noGraph
    [⟨seen, printed, "2.0", "now", .stamped⟩] = .ok d ∧ d.graph = some seen := by
  obtain ⟨text, htext⟩ := @graphManifest_isOk _ platform _ copyTools "." "build" ⟨seen, printed, "2.0", "now", .stamped⟩
    seen ⟨1, 1, 0⟩ (by decide)
  have hsteps : syncGraph platform copyTools "." noGraph ⟨seen, printed, "2.0", "now", .stamped⟩ =
      (platform.fileText true (.obj (graphManifest copyTools "." "build" ⟨seen, printed, "2.0", "now", .stamped⟩ seen
        ⟨1, 1, 0⟩)) >>= fun text => .ok ⟨some seen, some text⟩) := rfl
  have hsync : syncGraph platform copyTools "." noGraph ⟨seen, printed, "2.0", "now", .stamped⟩ =
      .ok ⟨some seen, some text⟩ := by
    rw [hsteps, htext]
    rfl
  exact ⟨_, run_cons.mpr ⟨_, hsync, rfl⟩, rfl⟩

theorem graph_fresh_iff_copied : ∃ d, ∃ r : Report Lib.Grid.Cell,
    run (syncGraph platform copyTools ".") noGraph [⟨[1], [1], "2.0", "now", .stamped⟩] = .ok d ∧
      graphFreshness platform copyTools "." [1] true true d = .ok r ∧ r.fresh = true := by
  obtain ⟨d, hd, hgraph⟩ := copyTools_run [1] [1]
  obtain ⟨r, hr, hfresh⟩ := graph_fresh_iff hd [1] true true
  exact ⟨d, r, hd, hr, hfresh.mpr ⟨rfl, rfl, [1], [1], [1], rfl, hgraph, rfl, rfl⟩⟩

/-- An edit between the builder and the fingerprint: the graph is fresh for contents that it was not built from. -/
theorem graph_sound_iff_edited : ∃ d, run (syncGraph platform copyTools ".") noGraph
    [⟨[1], [2], "2.0", "now", .stamped⟩] = .ok d ∧ ¬ ∀ contents, ∀ r : Report Lib.Grid.Cell,
      graphFreshness platform copyTools "." contents true true d = .ok r → r.fresh = true →
        BuiltFrom copyTools contents d.graph := by
  obtain ⟨d, hd, hgraph⟩ := copyTools_run [1] [2]
  refine ⟨d, hd, fun hall => ?_⟩
  obtain ⟨g, old, hg, hbuilt⟩ := (graph_sound_iff copyTools_injective bytesDigest_injective hd).1.mp hall [2] [1] rfl hgraph
  have hbuild : copyTools.build [2] old = some [2] := rfl
  rw [hgraph, ← hbuilt, hbuild] at hg
  exact absurd hg (by decide)

end Sample

end ControlPlane.Workspace.Freshness
