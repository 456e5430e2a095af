import ControlPlane.Lib.Dynamic
import ControlPlane.Lib.Slug

/-! # The data directories of repositories

Each repository of a workspace has a directory for its index, one for its code graph and one for its SCIP
index. The last name of each is made of the relative path of the repository (`repoKey`). Two repositories
share a directory if and only if their paths are confused by the replacements of `Lib.Slug`
(`apart_iff`); the workspace itself is confused with what is read as `root`. -/

namespace ControlPlane.Workspace.DataDirs

open ControlPlane.Lib.Dynamic ControlPlane.Lib.Text ControlPlane.Lib.Slug
open Relation

/-- The names on an absolute path. -/
abbrev Path := List String

/-! ### Keys -/

/-- A letter of `[A-Za-z0-9._-]`. -/
def isPlain (c : Char) : Bool := c.isAlphanum || c == '.' || c == '_' || c == '-'

def isEdge (c : Char) : Bool := c == '.' || c == '-' || c == '_'

/-- The letters of `_repo_key`. -/
def keyAlphabet : Alphabet Char where
  plain := isPlain
  edge := isEdge
  dash := '-'
  joint := ['_', '_']
  blank := ['r', 'e', 'p', 'o']
  plain_dash := by decide
  plain_edge c h := by
    simp only [isEdge, isPlain, Bool.or_eq_true] at h ⊢
    tauto
  edge_dash := by decide
  edge_joint := List.all_eq_true.mp (by decide)
  plain_blank := Lib.Quote.forall_chars (by decide)
  blank_ne := by decide

/-- `value.replace("\\", "/")`. -/
def slashed (cs : List Char) : List Char := cs.map fun c => if c = '\\' then '/' else c

def repoKey (relativePath : String) : String :=
  let value := slashed (strip relativePath).toList
  if value = [] ∨ value = ['.'] then "root"
  else String.ofList (keyAlphabet.name (value.splitOn '/'))

/-- What a relative path is read as. -/
def segments (relativePath : String) : List (List Char) :=
  let value := slashed (strip relativePath).toList
  if value = [] ∨ value = ['.'] then [['r', 'o', 'o', 't']] else value.splitOn '/'

theorem repoKey_eq (relativePath : String) :
    repoKey relativePath = String.ofList (keyAlphabet.name (segments relativePath)) := by
  have hroot : "root" = String.ofList (keyAlphabet.name [['r', 'o', 'o', 't']]) := by decide
  unfold repoKey segments
  dsimp only
  split_ifs
  · exact hroot
  · rfl

theorem segments_ne_nil (relativePath : String) : segments relativePath ≠ [] := by
  unfold segments
  dsimp only
  split_ifs
  · simp
  · exact List.splitOn_ne_nil '/' _

/-- **Two paths have one key** if and only if they are read alike. -/
theorem repoKey_eq_iff {p q : String} :
    repoKey p = repoKey q ↔ EqvGen keyAlphabet.Blur (segments p) (segments q) := by
  rw [repoKey_eq, repoKey_eq, String.ofList_inj, name_eq_iff (segments_ne_nil p) (segments_ne_nil q)]

/-- A directory name of plain letters with firm ends. -/
structure IsName (name : String) : Prop where
  plain : ∀ c ∈ name.toList, isPlain c = true
  firm : keyAlphabet.Firm name.toList

theorem isName_repoKey (relativePath : String) : IsName (repoKey relativePath) := by
  constructor
  · rw [repoKey_eq, String.toList_ofList]
    exact plain_name _
  · rw [repoKey_eq, String.toList_ofList]
    exact firm_name (segments_ne_nil relativePath)

/-! ### Paths -/

/-- `relative.as_posix()`. -/
def posix (relative : Path) : String := if relative = [] then "." else "/".intercalate relative

/-- `path.relative_to(base)`, if it lies below. -/
def relativeTo : Path → Path → Option Path
  | [], path => some path
  | b :: base, p :: path => if b = p then relativeTo base path else none
  | _ :: _, [] => none

@[simp] theorem relativeTo_append (base path : Path) : relativeTo base (base ++ path) = some path := by
  induction base with
  | nil => rfl
  | cons b base ih => rw [List.cons_append, relativeTo, if_pos rfl, ih]

theorem relativeTo_eq_some : ∀ {base path relative : Path},
    relativeTo base path = some relative → path = base ++ relative
  | [], path, _, h => Option.some.inj h
  | b :: base, p :: path, relative, h => by
    rw [relativeTo] at h
    split_ifs at h with hhead
    rw [hhead, relativeTo_eq_some h, List.cons_append]

variable (resolve : Path → Path) (isControl : Path → Bool)

/-- The nearest directory above with a control-plane configuration, else the start. -/
def findControlRoot (start : Path) : Path :=
  let current := resolve start
  (current.inits.reverse.find? isControl).getD current

/-- The central lightweight-index directory of one repository. -/
def indexDataDir (repositoryRoot : Path) (workspaceRoot : Option Path) : Path :=
  let repository := resolve repositoryRoot
  let workspace := match workspaceRoot with
    | some root => resolve root
    | none => findControlRoot resolve isControl repository
  if repository = workspace then workspace ++ ["ai-workspace", "generated"]
  else match relativeTo workspace repository with
    | some relative => workspace ++ ["ai-workspace", "indexes", repoKey (posix relative)]
    -- an external root keeps its state in itself
    | none => repository ++ ["ai-workspace", "generated"]

def repositoryRelativePath (workspaceRoot repositoryRoot : Path) : String :=
  let repository := resolve repositoryRoot
  match relativeTo (resolve workspaceRoot) repository with
  | some relative => posix relative
  | none => "external/" ++ repository.getLastD ""

/-- The names between slashes of both kinds. -/
def windowsParts (raw : List Char) : List (List Char) := (slashed raw).splitOn '/'

/-- `path.is_absolute() or windows.is_absolute() or windows.drive`. -/
def isAnchored (raw : List Char) : Bool :=
  raw.head? == some '/' || raw[1]? == some ':' || (slashed raw).take 2 == ['/', '/']

def resolveWithinRoot (root : Path) (candidate : String) : Py Path := do
  let root := resolve root
  let raw := candidate.toList
  require (!raw.isEmpty && !raw.contains '\x00') "path must be a non-empty relative path"
  require (!isAnchored raw) "absolute paths are not allowed"
  require (!(windowsParts raw).contains ['.', '.']) "parent traversal is not allowed"
  let parts := ((raw.splitOn '/').filter fun part => part ≠ [] && part ≠ ['.']).map String.ofList
  let resolved := resolve (root ++ parts)
  require (relativeTo root resolved).isSome "path escapes the workspace root"
  return resolved

/-- A directory of one repository below a directory of the workspace. -/
def dataDir (base : Path) (workspaceRoot repositoryRoot : Path) : Py Path :=
  let workspace := resolve workspaceRoot
  let relative := repositoryRelativePath resolve workspace repositoryRoot
  resolveWithinRoot resolve workspace ("/".intercalate (base ++ [repoKey relative]))

def crgWorkspaceRelative : Path := ["ai-workspace", "code-review-graph"]

def repositoryDataDir (workspaceRoot repositoryRoot : Path) : Py Path :=
  dataDir resolve crgWorkspaceRelative workspaceRoot repositoryRoot

def scipWorkspaceRelative : Path := ["ai-workspace", "scip"]

def scipDataDir (workspaceRoot repositoryRoot : Path) : Py Path :=
  dataDir resolve scipWorkspaceRelative workspaceRoot repositoryRoot

/-! ### Directories and keys -/

theorem isName_of_ends {name : String} {c d : Char} (hplain : ∀ x ∈ name.toList, isPlain x = true)
    (hc : name.toList.head? = some c) (hd : name.toList.getLast? = some d) (hcedge : isEdge c = false)
    (hdedge : isEdge d = false) : IsName name := by
  refine ⟨hplain, fun hnil => ?_, fun x hx => ?_, fun x hx => ?_⟩
  · rw [hnil] at hc
    cases hc
  · rw [hc] at hx
    rw [← Option.some_inj.mp hx]
    exact ⟨hplain c (List.mem_of_mem_head? hc), hcedge⟩
  · rw [hd] at hx
    rw [← Option.some_inj.mp hx]
    exact ⟨hplain d (List.mem_of_mem_getLast? hd), hdedge⟩

theorem IsName.notMem {name : String} (h : IsName name) {c : Char} (hc : isPlain c = false) :
    c ∉ name.toList := by
  intro hmem
  rw [h.plain c hmem] at hc
  cases hc

/-- A name is none of the parts that paths leave out. -/
theorem IsName.not_dots {name : String} (h : IsName name) (ds : List Char) (hds : ∀ c ∈ ds, c = '.') :
    name.toList ≠ ds := by
  intro heq
  obtain ⟨c, cs, hcs⟩ := List.exists_cons_of_ne_nil h.firm.ne_nil
  have hsolid := (h.firm.head c (by rw [hcs]; rfl)).2
  have hdot := hds c (by rw [← heq, hcs]; simp)
  rw [hdot] at hsolid
  cases hsolid

variable {resolve isControl}

/-- A directory in the workspace's own is found where it is. -/
theorem resolveWithinRoot_dir {root : Path} {name key : String} (hname : IsName name) (hkey : IsName key)
    (hroot : resolve root = root)
    (hdir : resolve (root ++ ["ai-workspace", name, key]) = root ++ ["ai-workspace", name, key]) :
    resolveWithinRoot resolve root ("/".intercalate (["ai-workspace", name] ++ [key])) =
      .ok (root ++ ["ai-workspace", name, key]) := by
  have hai : IsName "ai-workspace" :=
    isName_of_ends (c := 'a') (d := 'e') (List.all_eq_true.mp (by decide)) rfl rfl (by decide) (by decide)
  obtain ⟨raw, hraw⟩ : ∃ raw, raw = ("/".intercalate (["ai-workspace", name] ++ [key])).toList := ⟨_, rfl⟩
  have hall : ∀ s ∈ ["ai-workspace", name, key], IsName s := by
    simp only [List.mem_cons, List.not_mem_nil, or_false]
    rintro s (rfl | rfl | rfl)
    exacts [hai, hname, hkey]
  obtain ⟨parts, hparts⟩ : ∃ parts, parts = ["ai-workspace", name, key].map String.toList := ⟨_, rfl⟩
  have hmem : ∀ part ∈ parts, ∃ s, IsName s ∧ s.toList = part := by
    intro part hpart
    rw [hparts] at hpart
    obtain ⟨s, hs, rfl⟩ := List.mem_map.mp hpart
    exact ⟨s, hall s hs, rfl⟩
  have hjoin : raw = ['/'].intercalate parts := by
    rw [hraw, String.toList_intercalate, hparts]
    rfl
  have hsplit : raw.splitOn '/' = parts := by
    rw [hjoin]
    refine List.splitOn_intercalate '/' (fun part hpart => ?_) (by rw [hparts]; simp)
    obtain ⟨s, hs, rfl⟩ := hmem part hpart
    exact hs.notMem (by decide)
  have hplain : ∀ c ∈ raw, c = '/' ∨ isPlain c = true := by
    rw [hjoin, hparts]
    intro c hc
    simp only [List.map_cons, List.map_nil, List.intercalate_cons_cons, List.intercalate_singleton,
      List.mem_append, List.mem_singleton] at hc
    rcases hc with (hc | hc) | (hc | hc) | hc
    · exact Or.inr (hai.plain c hc)
    · exact Or.inl hc
    · exact Or.inr (hname.plain c hc)
    · exact Or.inl hc
    · exact Or.inr (hkey.plain c hc)
  have hslashed : slashed raw = raw := by
    refine (List.map_congr_left fun c hc => ?_).trans (List.map_id raw)
    rw [if_neg]
    · rfl
    · rintro rfl
      rcases hplain _ hc with h | h <;> cases h
  have hnul : raw.contains '\x00' = false := by
    rw [← Bool.not_eq_true, List.contains_iff_mem]
    intro hc
    rcases hplain _ hc with h | h <;> cases h
  obtain ⟨rest, hrest⟩ : ∃ rest, raw = 'a' :: 'i' :: rest := by
    rw [hjoin, hparts]
    exact ⟨_, rfl⟩
  have hempty : raw.isEmpty = false := by
    rw [hrest]
    rfl
  have hanchored : isAnchored raw = false := by
    rw [isAnchored, hslashed, hrest]
    rfl
  have hwindows : (windowsParts raw).contains ['.', '.'] = false := by
    rw [windowsParts, hslashed, hsplit, ← Bool.not_eq_true, List.contains_iff_mem]
    intro hdots
    obtain ⟨s, hs, heq⟩ := hmem _ hdots
    exact hs.not_dots _ (by simp) heq
  have hfilter : (parts.filter fun part => part ≠ [] && part ≠ ['.']) = parts := by
    refine List.filter_eq_self.mpr fun part hpart => ?_
    obtain ⟨s, hs, rfl⟩ := hmem part hpart
    have h1 := hs.not_dots [] (by simp)
    have h2 := hs.not_dots ['.'] (by simp)
    simp [h1, h2]
  have hmap : parts.map String.ofList = ["ai-workspace", name, key] := by
    rw [hparts, List.map_map]
    simp
  unfold resolveWithinRoot
  dsimp only
  rw [← hraw, hroot, hempty, hnul, hanchored, hwindows, hsplit, hfilter, hmap, hdir, relativeTo_append]
  rfl

/-! ### Repositories below a workspace -/

/-- Both directories exist and differ. -/
def Distinct (x y : Py Path) : Prop := ∃ d e, x = .ok d ∧ y = .ok e ∧ d ≠ e

variable (resolve isControl) in
/-- No data directory of the one repository is that of the other. -/
structure Apart (workspace first second : Path) : Prop where
  index : indexDataDir resolve isControl first (some workspace) ≠
    indexDataDir resolve isControl second (some workspace)
  graph : Distinct (repositoryDataDir resolve workspace first) (repositoryDataDir resolve workspace second)
  scip : Distinct (scipDataDir resolve workspace first) (scipDataDir resolve workspace second)

/-- Replacements lead from one relative path to the other. -/
def Confused (a b : Path) : Prop := EqvGen keyAlphabet.Blur (segments (posix a)) (segments (posix b))

/-- The names of the directories of code graphs and SCIP indexes. -/
def dataNames : List String := ["code-review-graph", "scip"]

theorem isName_dataName {name : String} (hname : name ∈ dataNames) : IsName name := by
  rcases List.mem_pair.mp hname with rfl | rfl
  · exact isName_of_ends (c := 'c') (d := 'h') (List.all_eq_true.mp (by decide)) rfl rfl (by decide) (by decide)
  · exact isName_of_ends (c := 's') (d := 'p') (List.all_eq_true.mp (by decide)) rfl rfl (by decide) (by decide)

variable (resolve) in
/-- There are no symbolic links at a repository and in the data directories. -/
structure Unlinked (workspace : Path) (a : Path) : Prop where
  root : resolve workspace = workspace
  repository : resolve (workspace ++ a) = workspace ++ a
  data : ∀ name ∈ dataNames, ∀ key,
    resolve (workspace ++ ["ai-workspace", name, key]) = workspace ++ ["ai-workspace", name, key]

section Unlinked
variable {w a b : Path} (ha : Unlinked resolve w a)
include ha

theorem relativePath_eq : repositoryRelativePath resolve w (w ++ a) = posix a := by
  rw [repositoryRelativePath, ha.root, ha.repository, relativeTo_append]

theorem dataDir_eq {name : String} (hname : name ∈ dataNames) :
    dataDir resolve ["ai-workspace", name] w (w ++ a) =
      .ok (w ++ ["ai-workspace", name, repoKey (posix a)]) := by
  unfold dataDir
  dsimp only
  rw [ha.root, relativePath_eq ha]
  exact resolveWithinRoot_dir (isName_dataName hname) (isName_repoKey _) ha.root (ha.data name hname _)

theorem indexDataDir_eq : indexDataDir resolve isControl (w ++ a) (some w) =
    if a = [] then w ++ ["ai-workspace", "generated"]
    else w ++ ["ai-workspace", "indexes", repoKey (posix a)] := by
  unfold indexDataDir
  dsimp only
  rw [ha.root, ha.repository, relativeTo_append]
  simp

end Unlinked

/-- **Two repositories of a workspace are kept apart** if and only if their relative paths are not confused:
no chain of replacements leads from the one to the other. -/
theorem apart_iff {w a b : Path} (ha : Unlinked resolve w a) (hb : Unlinked resolve w b) :
    Apart resolve isControl w (w ++ a) (w ++ b) ↔ ¬ Confused a b := by
  have hdistinct : ∀ name ∈ dataNames, Distinct (dataDir resolve ["ai-workspace", name] w (w ++ a))
      (dataDir resolve ["ai-workspace", name] w (w ++ b)) ↔ ¬ Confused a b := by
    intro name hname
    rw [Distinct, dataDir_eq ha hname, dataDir_eq hb hname, Confused, ← repoKey_eq_iff]
    constructor
    · rintro ⟨d, e, hd, he, hne⟩ hkey
      rw [hkey] at hd
      exact hne ((Except.ok.inj hd).symm.trans (Except.ok.inj he))
    · intro hkey
      refine ⟨_, _, rfl, rfl, fun heq => hkey ?_⟩
      simpa using heq
  constructor
  · intro h
    exact (hdistinct "scip" (by decide)).mp h.scip
  · intro h
    refine ⟨?_, (hdistinct "code-review-graph" (by decide)).mpr h, (hdistinct "scip" (by decide)).mpr h⟩
    rw [indexDataDir_eq ha, indexDataDir_eq hb]
    rw [Confused, ← repoKey_eq_iff] at h
    split_ifs with hfirst hsecond hsecond
    · rw [hfirst, hsecond] at h
      exact absurd rfl h
    · simp
    · simp
    · simpa using h

/-- Without symbolic links nothing is linked. -/
theorem unlinked_id (w a : Path) : Unlinked id w a := ⟨rfl, rfl, fun _ _ _ => rfl⟩

theorem apart_iff_api : Apart id (fun _ => false) ["work"] ["work", "api"] ["work", "web"] := by
  refine (apart_iff (w := ["work"]) (a := ["api"]) (b := ["web"]) (unlinked_id _ _)
    (unlinked_id _ _)).mpr ?_
  rw [Confused, ← repoKey_eq_iff]
  decide +kernel

/-- Two repositories whose names differ in a space and a dash share their directories. -/
theorem shared : ¬ ∀ w a b : Path, Unlinked id w a → Unlinked id w b → a ≠ b →
    Apart id (fun _ => false) w (w ++ a) (w ++ b) := by
  intro hall
  have h := (hall ["work"] ["my api"] ["my-api"] (unlinked_id _ _) (unlinked_id _ _) (by decide)).index
  exact h (by decide +kernel)

end ControlPlane.Workspace.DataDirs
