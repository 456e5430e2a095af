import ControlPlane.Lib.Keyed
import ControlPlane.Workspace.DataDirs
import Mathlib.Data.Finset.Max

/-! # Which repository a changed path belongs to

The changed paths of a workspace are given to its repositories by prefix tests. A repository gets every path
below it (`mem_changedFor`), and so it does if the path also lies below a repository nested in it: only the
workspace itself leaves the paths of nested repositories out. The paths are attributed to the innermost
repository if and only if no path lies below two of the nested ones (`attributed_iff`). -/

namespace ControlPlane.Workspace.Changed

open ControlPlane.Lib.Text ControlPlane.Lib.Keyed ControlPlane.Workspace.DataDirs

/-! ### Names on a path -/

/-- The names joined, each with a slash after it. -/
def dirPrefix (dirs : List (List Char)) : List Char := dirs.flatMap (· ++ ['/'])

theorem dirPrefix_cons (dir : List Char) (dirs : List (List Char)) :
    dirPrefix (dir :: dirs) = dir ++ '/' :: dirPrefix dirs := by
  rw [dirPrefix, List.flatMap_cons, List.append_assoc]
  rfl

theorem dirPrefix_eq : ∀ {dirs : List (List Char)}, dirs ≠ [] →
    ['/'].intercalate dirs ++ ['/'] = dirPrefix dirs
  | [dir], _ => by simp [dirPrefix]
  | dir :: next :: dirs, _ => by
    have ih := dirPrefix_eq (List.cons_ne_nil next dirs)
    rw [dirPrefix_cons, ← ih, List.intercalate_cons_cons, List.append_assoc, List.append_assoc]
    rfl

theorem splitOn_dirPrefix (cs : List Char) : ∀ {dirs : List (List Char)}, (∀ dir ∈ dirs, '/' ∉ dir) →
    (dirPrefix dirs ++ cs).splitOn '/' = dirs ++ cs.splitOn '/'
  | [], _ => rfl
  | dir :: dirs, h => by
    have ih := splitOn_dirPrefix cs fun other hother => h other (List.mem_cons_of_mem dir hother)
    rw [dirPrefix_cons, List.append_assoc, List.cons_append,
      List.splitOn_append_cons_self_of_not_mem (h dir List.mem_cons_self), ih, List.cons_append]

/-- A text that splits into these names and more starts with them. -/
theorem eq_dirPrefix_append {dirs rest : List (List Char)} (hrest : rest ≠ []) :
    ['/'].intercalate (dirs ++ rest) = dirPrefix dirs ++ ['/'].intercalate rest := by
  induction dirs with
  | nil => rfl
  | cons dir dirs ih =>
    rw [List.cons_append, List.intercalate_cons_of_ne_nil (by simp [hrest]), ih, dirPrefix_cons]
    simp

/-- **A path starts with the names of a directory** if and only if they come first among its names. -/
theorem dirPrefix_isPrefix_iff {dirs : List (List Char)} (h : ∀ dir ∈ dirs, '/' ∉ dir) {cs : List Char} :
    dirPrefix dirs <+: cs ↔ ∃ rest, rest ≠ [] ∧ cs.splitOn '/' = dirs ++ rest := by
  constructor
  · rintro ⟨rest, rfl⟩
    exact ⟨rest.splitOn '/', List.splitOn_ne_nil '/' rest, splitOn_dirPrefix rest h⟩
  · rintro ⟨rest, hrest, heq⟩
    have hcs := congrArg (['/'].intercalate ·) heq
    simp only [List.intercalate_splitOn] at hcs
    rw [hcs, eq_dirPrefix_append hrest]
    exact List.prefix_append _ _

def names (path : String) : Path := (path.toList.splitOn '/').map String.ofList

/-- The names of a path of the file system. -/
def IsPath (path : Path) : Prop := ∀ name ∈ path, name ≠ "" ∧ '/' ∉ name.toList

instance (path : Path) : Decidable (IsPath path) :=
  inferInstanceAs (Decidable (∀ name ∈ path, name ≠ "" ∧ '/' ∉ name.toList))

/-! ### The code -/

/-- `relative.rstrip("/") + "/"` -/
def rootPrefix (relative : Path) : String :=
  String.ofList ((posix relative).toList.rdropWhile (· == '/')) ++ "/"

def nestedRootPrefixes (workspaceRoot : Path) (roots : List Path) : List String :=
  roots.filterMap fun knownRoot =>
    if knownRoot = workspaceRoot then none
    else (relativeTo workspaceRoot knownRoot).map rootPrefix

/-- `path[count:]` -/
def dropChars (count : ℕ) (path : String) : String := String.ofList (path.toList.drop count)

def changedFor (workspaceRoot : Path) (roots : List Path) (changed : List String) (candidateRoot : Path) :
    List String :=
  if candidateRoot = workspaceRoot then
    changed.filter fun path => !(nestedRootPrefixes workspaceRoot roots).any (startsWith path)
  else match relativeTo workspaceRoot candidateRoot with
    | none => []
    | some relativeRoot =>
      (changed.filter (startsWith · (rootPrefix relativeRoot))).map
        (dropChars (rootPrefix relativeRoot).length)

/-! ### Which root contains a path -/

/-- The path, relative to the workspace, lies below the root. -/
def contains (workspaceRoot root : Path) (path : String) : Bool :=
  match relativeTo workspaceRoot root with
  | none => false
  | some relative => relative.isPrefixOf (names path) && decide (relative.length < (names path).length)

/-- The path made relative to a root that contains it. -/
def within (workspaceRoot root : Path) (path : String) : String :=
  "/".intercalate ((names path).drop (root.length - workspaceRoot.length))

/-- No known root further in contains the path. -/
def innermost (workspaceRoot : Path) (roots : List Path) (root : Path) (path : String) : Bool :=
  contains workspaceRoot root path && (workspaceRoot :: roots).all fun other =>
    !contains workspaceRoot other path || decide (other.length ≤ root.length)

/-- Every known root gets the paths whose innermost root it is, relative to it. -/
def Attributed (workspaceRoot : Path) (roots : List Path) (changed : List String) : Prop :=
  ∀ root ∈ workspaceRoot :: roots, changedFor workspaceRoot roots changed root =
    (changed.filter (innermost workspaceRoot roots root)).map (within workspaceRoot root)

/-! ### The tests of the code -/

variable {workspaceRoot root other relative : Path} {roots : List Path} {path : String}

theorem names_eq_append_iff {rest : Path} : names path = relative ++ rest ↔
    path.toList.splitOn '/' = relative.map String.toList ++ rest.map String.toList := by
  have hofList : names path = relative ++ rest ↔
      (names path).map String.toList = (relative ++ rest).map String.toList :=
    (List.map_injective_iff.mpr fun _ _ => String.toList_injective).eq_iff.symm
  rw [hofList, names, List.map_map, List.map_append]
  simp [Function.comp_def]

theorem contains_iff : contains workspaceRoot root path = true ↔
    ∃ relative rest, root = workspaceRoot ++ relative ∧ rest ≠ [] ∧ names path = relative ++ rest := by
  unfold contains
  constructor
  · intro h
    cases hrelative : relativeTo workspaceRoot root with
    | none => rw [hrelative] at h; cases h
    | some relative =>
      simp only [hrelative, Bool.and_eq_true, List.isPrefixOf_iff_prefix, decide_eq_true_eq] at h
      obtain ⟨⟨rest, hrest⟩, hlt⟩ := h
      refine ⟨relative, rest, relativeTo_eq_some hrelative, ?_, hrest.symm⟩
      rintro rfl
      rw [← hrest, List.append_nil] at hlt
      exact lt_irrefl _ hlt
  · rintro ⟨relative, rest, rfl, hrest, hnames⟩
    have hpos := List.length_pos_iff.mpr hrest
    rw [relativeTo_append, hnames]
    simp only [Bool.and_eq_true, List.isPrefixOf_iff_prefix, decide_eq_true_eq, List.length_append]
    exact ⟨List.prefix_append _ _, by omega⟩

theorem toList_rootPrefix (h : IsPath relative) (hne : relative ≠ []) :
    (rootPrefix relative).toList = dirPrefix (relative.map String.toList) := by
  have hposix : (posix relative).toList = ['/'].intercalate (relative.map String.toList) := by
    rw [posix, if_neg hne, String.toList_intercalate]
    rfl
  -- the last name is not empty and has no slash, so nothing is stripped
  have hlast : (posix relative).toList.rdropWhile (· == '/') = (posix relative).toList := by
    obtain ⟨firsts, last, rfl⟩ := (List.eq_nil_or_concat relative).resolve_left hne
    obtain ⟨hlastne, hslash⟩ := h last (by simp)
    have hlastne' : last.toList ≠ [] := fun hnil => hlastne (String.toList_eq_nil_iff.mp hnil)
    rw [hposix, List.concat_eq_append, List.map_append, List.map_singleton,
      eq_dirPrefix_append (List.cons_ne_nil _ _), List.intercalate_singleton, List.rdropWhile_eq_self_iff]
    intro _ hlastchar
    rw [List.getLast_append_of_ne_nil _ hlastne', beq_iff_eq] at hlastchar
    exact hslash (hlastchar ▸ List.getLast_mem hlastne')
  rw [rootPrefix, hlast, String.toList_append, String.toList_ofList, hposix]
  exact dirPrefix_eq (by simpa using hne)

theorem noSlash_of_isPath (h : IsPath relative) : ∀ dir ∈ relative.map String.toList, '/' ∉ dir := by
  intro dir hdir
  obtain ⟨name, hname, rfl⟩ := List.mem_map.mp hdir
  exact (h name hname).2

theorem startsWith_rootPrefix (h : IsPath relative) (hne : relative ≠ []) (path : String) :
    startsWith path (rootPrefix relative) = contains workspaceRoot (workspaceRoot ++ relative) path := by
  rw [Bool.eq_iff_iff, contains_iff, startsWith, List.isPrefixOf_iff_prefix, toList_rootPrefix h hne,
    dirPrefix_isPrefix_iff (noSlash_of_isPath h)]
  constructor
  · rintro ⟨rest, hrest, heq⟩
    refine ⟨relative, rest.map String.ofList, rfl, by simpa using hrest, names_eq_append_iff.mpr ?_⟩
    rw [heq, List.map_map]
    simp [Function.comp_def]
  · rintro ⟨_, rest, heq, hrest, hnames⟩
    rw [List.append_cancel_left heq]
    exact ⟨rest.map String.toList, by simpa using hrest, names_eq_append_iff.mp hnames⟩

theorem dropChars_rootPrefix (h : IsPath relative) (hne : relative ≠ [])
    (hcontains : contains workspaceRoot (workspaceRoot ++ relative) path = true) :
    dropChars (rootPrefix relative).length path = within workspaceRoot (workspaceRoot ++ relative) path := by
  obtain ⟨_, rest, heq, hrest, hnames⟩ := contains_iff.mp hcontains
  rw [← List.append_cancel_left heq] at hnames
  have hpath : path.toList = dirPrefix (relative.map String.toList) ++
      ['/'].intercalate (rest.map String.toList) := by
    rw [← eq_dirPrefix_append (by simpa using hrest), ← names_eq_append_iff.mp hnames,
      List.intercalate_splitOn]
  rw [within, hnames, List.length_append, Nat.add_sub_cancel_left, List.drop_left, dropChars,
    ← String.length_toList, toList_rootPrefix h hne, hpath, List.drop_left, ← String.toList_inj,
    String.toList_ofList, String.toList_intercalate]
  rfl

/-! ### Attribution -/

theorem innermost_iff : innermost workspaceRoot roots root path = true ↔
    contains workspaceRoot root path = true ∧
      ∀ other ∈ workspaceRoot :: roots, contains workspaceRoot other path = true → other.length ≤ root.length := by
  rw [innermost, Bool.and_eq_true, List.all_eq_true]
  refine and_congr_right fun _ => forall₂_congr fun other _ => ?_
  rw [Bool.or_eq_true, Bool.not_eq_true', decide_eq_true_eq, ← Bool.not_eq_true]
  exact imp_iff_not_or.symm

theorem contains_workspace : contains workspaceRoot workspaceRoot path = true := by
  refine contains_iff.mpr ⟨[], names path, (List.append_nil _).symm, ?_, rfl⟩
  simp [names, List.splitOn_ne_nil]

/-- Of two roots that contain a path the shorter one comes first on the other. -/
theorem isPrefix_of_contains (hroot : contains workspaceRoot root path = true)
    (hother : contains workspaceRoot other path = true) (hle : root.length ≤ other.length) : root <+: other := by
  obtain ⟨relative, rest, rfl, -, hnames⟩ := contains_iff.mp hroot
  obtain ⟨relative', rest', rfl, -, hnames'⟩ := contains_iff.mp hother
  rw [List.length_append, List.length_append] at hle
  have hprefix : relative <+: relative' :=
    List.prefix_of_prefix_length_le ⟨rest, hnames.symm⟩ ⟨rest', hnames'.symm⟩ (by omega)
  exact (List.prefix_append_right_inj workspaceRoot).mpr hprefix

theorem eq_of_contains (hroot : contains workspaceRoot root path = true)
    (hother : contains workspaceRoot other path = true) (heq : root.length = other.length) : root = other :=
  (isPrefix_of_contains hroot hother heq.le).eq_of_length heq

/-- **Every path has one innermost root** among the workspace and the known ones. -/
theorem existsUnique_innermost (workspaceRoot : Path) (roots : List Path) (path : String) :
    ∃! root, root ∈ workspaceRoot :: roots ∧ innermost workspaceRoot roots root path = true := by
  have hworkspace : workspaceRoot ∈ ((workspaceRoot :: roots).filter (contains workspaceRoot · path)).toFinset :=
    List.mem_toFinset.mpr (List.mem_filter.mpr ⟨List.mem_cons_self, contains_workspace⟩)
  obtain ⟨root, hroot, hmax⟩ := Finset.exists_max_image _ List.length ⟨workspaceRoot, hworkspace⟩
  obtain ⟨hmem, hcontains⟩ := List.mem_filter.mp (List.mem_toFinset.mp hroot)
  refine ⟨root, ⟨hmem, innermost_iff.mpr ⟨hcontains, fun other hother h => ?_⟩⟩, ?_⟩
  · exact hmax other (List.mem_toFinset.mpr (List.mem_filter.mpr ⟨hother, h⟩))
  · rintro other ⟨hother, hinner⟩
    obtain ⟨h, hle⟩ := innermost_iff.mp hinner
    have hge := hmax other (List.mem_toFinset.mpr (List.mem_filter.mpr ⟨hother, h⟩))
    exact eq_of_contains h hcontains (le_antisymm hge (hle root hmem hcontains))

theorem within_workspace (path : String) : within workspaceRoot workspaceRoot path = path := by
  rw [within, Nat.sub_self, List.drop_zero, ← String.toList_inj, String.toList_intercalate, names, List.map_map]
  simp [Function.comp_def]

variable {changed : List String}

/-- The workspace gets what no nested root contains. -/
theorem changedFor_workspace (h : ∀ root ∈ roots, IsPath root) :
    changedFor workspaceRoot roots changed workspaceRoot =
      changed.filter (innermost workspaceRoot roots workspaceRoot) := by
  rw [changedFor, if_pos rfl]
  refine List.filter_congr fun path _ => ?_
  rw [Bool.eq_iff_iff, Bool.not_eq_true', ← Bool.not_eq_true, List.any_eq_true, innermost_iff]
  constructor
  · intro hnone
    refine ⟨contains_workspace, fun other hother hcontains => ?_⟩
    by_cases hworkspace : other = workspaceRoot
    · rw [hworkspace]
    · obtain ⟨relative, -, rfl, -, -⟩ := contains_iff.mp hcontains
      have hroot := (List.mem_cons.mp hother).resolve_left hworkspace
      have hrelative : IsPath relative := fun name hname => h _ hroot name (List.mem_append_right _ hname)
      have hne : relative ≠ [] := by
        rintro rfl
        exact hworkspace (List.append_nil _)
      refine absurd ⟨rootPrefix relative, ?_, ?_⟩ hnone
      · refine List.mem_filterMap.mpr ⟨_, hroot, ?_⟩
        rw [if_neg hworkspace, relativeTo_append]
        rfl
      · rw [startsWith_rootPrefix hrelative hne]
        exact hcontains
  · rintro ⟨-, hle⟩ ⟨dirs, hdirs, hstarts⟩
    obtain ⟨known, hknown, hprefix⟩ := List.mem_filterMap.mp hdirs
    split_ifs at hprefix with hworkspace
    obtain ⟨relative, hrelative, rfl⟩ := Option.map_eq_some_iff.mp hprefix
    obtain rfl := relativeTo_eq_some hrelative
    have hpath : IsPath relative := fun name hname => h _ hknown name (List.mem_append_right _ hname)
    have hne : relative ≠ [] := by
      rintro rfl
      exact hworkspace (List.append_nil _)
    rw [startsWith_rootPrefix hpath hne] at hstarts
    have hlength := hle _ (List.mem_cons_of_mem _ hknown) hstarts
    rw [List.length_append] at hlength
    exact hne (List.length_eq_zero_iff.mp (by omega))

/-- A nested root gets all that it contains. -/
theorem changedFor_nested (h : IsPath root) (hroot : root ≠ workspaceRoot) :
    changedFor workspaceRoot roots changed root =
      (changed.filter (contains workspaceRoot root)).map (within workspaceRoot root) := by
  rw [changedFor, if_neg hroot]
  cases hrelative : relativeTo workspaceRoot root with
  | none =>
    have hout : ∀ path ∈ changed, ¬contains workspaceRoot root path = true := by
      intro path _
      rw [contains, hrelative]
      exact Bool.false_ne_true
    rw [List.filter_eq_nil_iff.mpr hout]
    rfl
  | some relative =>
    obtain rfl := relativeTo_eq_some hrelative
    have hpath : IsPath relative := fun name hname => h name (List.mem_append_right _ hname)
    have hne : relative ≠ [] := by
      rintro rfl
      exact hroot (List.append_nil _)
    have hfilter : (startsWith · (rootPrefix relative)) = contains workspaceRoot (workspaceRoot ++ relative) :=
      funext fun path => startsWith_rootPrefix hpath hne path
    dsimp only
    rw [hfilter]
    refine List.map_congr_left fun path hmem => ?_
    exact dropChars_rootPrefix hpath hne (List.mem_filter.mp hmem).2

/-- **The paths are attributed to their innermost roots** if and only if none of them lies below two nested
roots. -/
theorem attributed_iff (h : ∀ root ∈ roots, IsPath root) : Attributed workspaceRoot roots changed ↔
    ∀ path ∈ changed, ∀ root ∈ roots, ∀ other ∈ roots, root ≠ workspaceRoot → other ≠ workspaceRoot →
      contains workspaceRoot root path = true → contains workspaceRoot other path = true → root = other := by
  constructor
  · -- the paths that a root contains are as many as those whose innermost root it is
    have hinnermost : Attributed workspaceRoot roots changed → ∀ path ∈ changed, ∀ root ∈ roots,
        root ≠ workspaceRoot → contains workspaceRoot root path = true →
        innermost workspaceRoot roots root path = true := by
      intro hall path hpath root hroot hne hcontains
      have hlists := hall root (List.mem_cons_of_mem _ hroot)
      rw [changedFor_nested (h root hroot) hne] at hlists
      have hlength := congrArg List.length hlists
      rw [List.length_map, List.length_map] at hlength
      exact (length_filter_eq_iff fun other _ hinner => (innermost_iff.mp hinner).1).mp hlength.symm path hpath
        hcontains
    intro hall path hpath root hroot other hother hne hne' hcontains hcontains'
    have hle := (innermost_iff.mp (hinnermost hall path hpath root hroot hne hcontains)).2 other
      (List.mem_cons_of_mem _ hother) hcontains'
    have hge := (innermost_iff.mp (hinnermost hall path hpath other hother hne' hcontains')).2 root
      (List.mem_cons_of_mem _ hroot) hcontains
    exact eq_of_contains hcontains hcontains' (le_antisymm hge hle)
  · intro hlone root hroot
    by_cases hworkspace : root = workspaceRoot
    · rw [hworkspace, changedFor_workspace h]
      exact (List.map_id'' within_workspace _).symm
    · have hmem := (List.mem_cons.mp hroot).resolve_left hworkspace
      rw [changedFor_nested (h root hmem) hworkspace]
      refine congrArg _ (List.filter_congr fun path hpath => ?_)
      rw [Bool.eq_iff_iff, innermost_iff]
      refine ⟨fun hcontains => ⟨hcontains, fun other hother hcontains' => ?_⟩, And.left⟩
      by_cases hother' : other = workspaceRoot
      · obtain ⟨relative, -, rfl, -, -⟩ := contains_iff.mp hcontains
        rw [hother', List.length_append]
        omega
      · have hknown := (List.mem_cons.mp hother).resolve_left hother'
        rw [hlone path hpath root hmem other hknown hworkspace hother' hcontains hcontains']

/-- Two repositories side by side whose names begin alike. -/
theorem attributed_siblings :
    Attributed ["w"] [["w"], ["w", "app"], ["w", "app2"]] ["app/x.py", "app2/x.py", "README"] :=
  (attributed_iff (by decide)).mpr (by decide +kernel)

/-- A repository in a repository: the path is given to both. -/
theorem nested_twice : ¬ ∀ (workspaceRoot : Path) (roots : List Path) (changed : List String),
    (∀ root ∈ roots, IsPath root) → Attributed workspaceRoot roots changed := by
  intro hall
  have hattributed := hall ["w"] [["w"], ["w", "a"], ["w", "a", "b"]] ["a/b/x.py"] (by decide)
  have houter := hattributed ["w", "a"] (by decide)
  revert houter
  decide +kernel

end ControlPlane.Workspace.Changed
