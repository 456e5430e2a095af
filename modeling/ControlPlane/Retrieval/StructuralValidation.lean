import ControlPlane.Lib.Keyed
import ControlPlane.Instance
import ControlPlane.Retrieval.Items
import ControlPlane.Workspace.DataDirs

/-! # Validation of code-graph items

The rows of a code-graph item are compared with the source files they name and with SCIP items. A row counts as
confirmed by source if any row with its path is, and by SCIP if some item has its path and some item one of its
names. So no confirmation is missed (`sourceOk_of_confirms`, `scipOk_of_confirmedBy`), and the counts are those
of the rows if and only if neither happens across rows or items (`validations_agree_iff`). -/

namespace ControlPlane.Retrieval.StructuralValidation

open ControlPlane.Lib.Value ControlPlane.Lib.Text ControlPlane.Lib.Dynamic ControlPlane.Lib.Keyed
open ControlPlane.Environment ControlPlane.Retrieval.Items ControlPlane.Lib
open ControlPlane.Workspace.DataDirs (Path relativeTo resolveWithinRoot slashed)

variable {F : Type} (E : Env F)

/-! ### Rows -/

/-- `str(d.get(key) or "").strip()`; the values of a parsed text have texts. -/
def fieldText (d : Dict F) (key : String) : String :=
  strip (if truthy E.T (getKey d key) then strText E.T E.isPrintable (getKey d key) else "")

/-- `value.rsplit(sep, 1)[-1]` -/
def afterLast (sep value : List Char) : List Char :=
  match (value.tails.filter sep.isPrefixOf).getLast? with
  | some found => found.drop sep.length
  | none => value

/-- The last part of a qualified name. -/
def tail (value : String) : String :=
  String.ofList (afterLast [':', ':'] (afterLast ['.'] value.toList))

/-- `value.replace("\\", "/")` -/
def slashes (value : String) : String := String.ofList (slashed value.toList)

def pathKeys : List String := ["file_path", "relative_path", "path"]

def nameKeys : List String := ["name", "qualified_name", "parent_name", "import_target"]

def isArr : Json F → Bool
  | .arr _ => true
  | _ => false

def dictOf? : Json F → Option (Dict F)
  | .obj d => some d
  | _ => none

def rowsOf : Json F → List (Dict F)
  | .obj payload =>
    let results := getKey payload "results"
    match if isArr results then results else getKey payload "impacted_nodes" with
    | .arr raw => raw.filterMap dictOf?
    | _ => []
  | _ => []

/-- `_rows(item)` -/
def rows (item : ContextItem F) : Py (List (Dict F)) :=
  match E.jsonLoads item.text with
  | .ok payload => .ok (rowsOf payload)
  | .error (.jsonDecodeError _) => .ok []
  | .error e => .error e

def rowPath (row : Dict F) : String :=
  ((pathKeys.map fun key => slashes (fieldText E row key)).find? (· ≠ "")).getD ""

def rowNames (row : Dict F) : List String :=
  nameKeys.flatMap fun key =>
    let value := fieldText E row key
    if value = "" then [] else if tail value = "" then [value] else [value, tail value]

/-! ### Source -/

structure SourceFile where
  isSymlink : Bool
  size : ℕ
  text : String

/-- A repository: what its paths are resolved to, and the file at each path. -/
structure Checkout where
  root : Path
  resolve : Path → Path
  file : Path → Option SourceFile

variable (repo : Checkout)

/-- The file a row's path names, if it lies below the root. -/
def sourcePath (relative : String) : Option Path :=
  if startsWith relative "/" then
    let path := repo.resolve (((relative.toList.splitOn '/').filter fun part =>
      part ≠ [] && part ≠ ['.']).map String.ofList)
    if (relativeTo (repo.resolve repo.root) path).isSome then some path else none
  else (resolveWithinRoot repo.resolve repo.root relative).toOption

def readable (file : SourceFile) : Bool := !file.isSymlink && decide (file.size ≤ 2000000)

/-- `name in text` -/
def occursIn (text name : String) : Bool := text.toList.tails.any name.toList.isPrefixOf

def sourceConfirms (row : Dict F) : Bool :=
  let relative := rowPath E row
  if relative = "" then false
  else match ((sourcePath repo relative).bind repo.file).filter readable with
    | none => false
    | some file => ((rowNames E row).filter fun name => decide (2 ≤ name.length)).any (occursIn file.text)

/-! ### SCIP -/

def scipNames (item : ContextItem F) : List String :=
  ["symbol_name", "symbol"].flatMap fun key =>
    let value := fieldText E item.metadata key
    if value = "" then [] else [E.casefold value, E.casefold (tail value)]

def scipPath (item : ContextItem F) : String :=
  let path := getKey item.metadata "path"
  slashes (if truthy E.T path then strText E.T E.isPrintable path else "")

/-- The paths and the names of the items. -/
def scipKeys (items : List (ContextItem F)) : List String × List String :=
  (((items.map (scipPath E)).filter (· ≠ "")).map E.casefold, items.flatMap (scipNames E))

def pathMatches (row : Dict F) (paths : List String) : Bool :=
  E.casefold (rowPath E row) ≠ "" && paths.contains (E.casefold (rowPath E row))

def nameMatches (row : Dict F) (names : List String) : Bool :=
  ((rowNames E row).map E.casefold).any names.contains

def scipConfirms (row : Dict F) (keys : List String × List String) : Bool :=
  pathMatches E row keys.1 && nameMatches E row keys.2

/-! ### The item -/

/-- `d.update(entries)` -/
def update (d entries : Dict F) : Dict F := entries.foldl (fun d p => setKey p.1 p.2 d) d

/-- The paths of the rows that source confirms. -/
def sourceHits (rows : List (Dict F)) : List String :=
  ((rows.filter (sourceConfirms E repo)).map (rowPath E)).filter (· ≠ "")

def sourceOk (rows : List (Dict F)) (row : Dict F) : Bool := (sourceHits E repo rows).contains (rowPath E row)

def scipOk (items : List (ContextItem F)) (row : Dict F) : Bool := scipConfirms E row (scipKeys E items)

def confidenceOf (source scip both : ℕ) : String :=
  if both ≠ 0 then "verified" else if source ≠ 0 ∨ scip ≠ 0 then "corroborated" else "candidate"

def basisOf (source scip : ℕ) : List (Json F) :=
  (if source ≠ 0 then [.str "source"] else []) ++ if scip ≠ 0 then [.str "scip"] else []

/-- What is recorded of an item without rows. -/
def emptyEntries (metadata : Dict F) : Dict F :=
  let verified := truthy E.T (getKey metadata "empty_verified")
  [("evidence_confidence", .str (if verified then "corroborated" else "candidate")),
    ("confidence_basis", .arr (if verified then [.str "crg_verified_empty"] else [])),
    ("structural_valid", .bool verified),
    ("high_risk_eligible", .bool false)]

def rowEntries (rows : List (Dict F)) (items : List (ContextItem F)) : Dict F :=
  let source := rows.countP (sourceOk E repo rows)
  let scip := rows.countP (scipOk E items)
  let both := rows.countP fun row => sourceOk E repo rows row && scipOk E items row
  let confidence := confidenceOf source scip both
  [("evidence_confidence", .str confidence),
    ("confidence_basis", .arr (basisOf source scip)),
    ("source_confirmed_results", .int source),
    ("scip_confirmed_results", .int scip),
    ("verified_results", .int both),
    ("structural_valid", .bool (confidence ≠ "candidate")),
    ("high_risk_eligible", .bool (confidence = "corroborated" || confidence = "verified"))]

/-- `validate_crg_item`; `items` are those of SCIP, none if it is not ready. -/
def validateCrgItem (items : List (ContextItem F)) (item : ContextItem F) : Py (ContextItem F) :=
  if item.source ≠ "code_review_graph" then .ok item
  else do
    let rows ← rows E item
    let entries := if rows = [] then emptyEntries E item.metadata else rowEntries E repo rows items
    return { item with metadata := update item.metadata entries, evidence := none }

/-! ### Rows and what confirms them -/

/-- One SCIP item has the row's path and one of its names. -/
def confirmedBy (row : Dict F) (item : ContextItem F) : Bool := scipConfirms E row (scipKeys E [item])

def scipConfirmed (items : List (ContextItem F)) (row : Dict F) : Bool := items.any (confirmedBy E row)

/-- A counter of an item, zero if it has none. -/
def counter (item : ContextItem F) (key : String) : Json F := (lookup key item.metadata).getD (.int 0)

/-- What is said of an item is true of its rows. -/
structure Agrees (rows : List (Dict F)) (items : List (ContextItem F)) (item : ContextItem F) : Prop where
  verified : getKey item.metadata "evidence_confidence" = .str "verified" →
    ∃ row ∈ rows, sourceConfirms E repo row = true ∧ scipConfirmed E items row = true
  source : counter item "source_confirmed_results" = .int (rows.countP (sourceConfirms E repo))
  scip : counter item "scip_confirmed_results" = .int (rows.countP (scipConfirmed E items))
  both : counter item "verified_results" =
    .int (rows.countP fun row => sourceConfirms E repo row && scipConfirmed E items row)

/-- A row is confirmed by source if another one with its path is. -/
def SameFile (rows : List (Dict F)) : Prop := ∀ row ∈ rows, ∀ other ∈ rows,
  rowPath E other = rowPath E row → sourceConfirms E repo other = true → sourceConfirms E repo row = true

/-- A row with the path of one SCIP item and a name of another has both from one item. -/
def SingleItem (rows : List (Dict F)) (items : List (ContextItem F)) : Prop :=
  ∀ row ∈ rows, ∀ item ∈ items, ∀ other ∈ items, pathMatches E row (scipKeys E [item]).1 = true →
    nameMatches E row (scipKeys E [other]).2 = true → scipConfirmed E items row = true

/-- The counters of an item are not set yet. -/
def Uncounted (item : ContextItem F) : Prop :=
  ∀ key ∈ ["source_confirmed_results", "scip_confirmed_results", "verified_results"],
    counter item key = .int 0

variable {E} {repo} {rows : List (Dict F)} {items : List (ContextItem F)} {row : Dict F}
  {item out : ContextItem F}

theorem sourceOk_iff : sourceOk E repo rows row = true ↔
    ∃ other ∈ rows, rowPath E other = rowPath E row ∧ sourceConfirms E repo other = true := by
  have hpath : ∀ other : Dict F, sourceConfirms E repo other = true → rowPath E other ≠ "" := by
    intro other h heq
    rw [sourceConfirms, heq] at h
    cases h
  rw [sourceOk, List.contains_iff_mem, sourceHits, List.mem_filter, List.mem_map]
  constructor
  · rintro ⟨⟨other, hother, heq⟩, -⟩
    obtain ⟨hmem, hconfirms⟩ := List.mem_filter.mp hother
    exact ⟨other, hmem, heq, hconfirms⟩
  · rintro ⟨other, hmem, heq, hconfirms⟩
    refine ⟨⟨other, List.mem_filter.mpr ⟨hmem, hconfirms⟩, heq⟩, ?_⟩
    rw [decide_eq_true_eq, ← heq]
    exact hpath other hconfirms

/-- **No confirmation by source is missed.** -/
theorem sourceOk_of_confirms (hrow : row ∈ rows) (h : sourceConfirms E repo row = true) :
    sourceOk E repo rows row = true :=
  sourceOk_iff.mpr ⟨row, hrow, rfl, h⟩

theorem pathMatches_iff : pathMatches E row (scipKeys E items).1 = true ↔
    ∃ item ∈ items, pathMatches E row (scipKeys E [item]).1 = true := by
  simp only [pathMatches, scipKeys, Bool.and_eq_true, List.contains_iff_mem, List.mem_map, List.mem_filter,
    List.map_cons, List.map_nil, List.mem_singleton, decide_eq_true_eq]
  constructor
  · rintro ⟨hne, _, ⟨⟨item, hitem, rfl⟩, hpath⟩, heq⟩
    exact ⟨item, hitem, hne, _, ⟨rfl, hpath⟩, heq⟩
  · rintro ⟨item, hitem, hne, _, ⟨rfl, hpath⟩, heq⟩
    exact ⟨hne, _, ⟨⟨item, hitem, rfl⟩, hpath⟩, heq⟩

theorem nameMatches_iff : nameMatches E row (scipKeys E items).2 = true ↔
    ∃ item ∈ items, nameMatches E row (scipKeys E [item]).2 = true := by
  simp only [nameMatches, scipKeys, List.any_eq_true, List.contains_iff_mem, List.mem_flatMap,
    List.flatMap_cons, List.flatMap_nil, List.append_nil]
  constructor
  · rintro ⟨name, hname, item, hitem, hmem⟩
    exact ⟨item, hitem, name, hname, hmem⟩
  · rintro ⟨item, hitem, name, hname, hmem⟩
    exact ⟨name, hname, item, hitem, hmem⟩

/-- **SCIP confirms** a row if one item has its path and one, not always the same, one of its names. -/
theorem scipOk_iff : scipOk E items row = true ↔ ∃ item ∈ items, ∃ other ∈ items,
    pathMatches E row (scipKeys E [item]).1 = true ∧ nameMatches E row (scipKeys E [other]).2 = true := by
  rw [scipOk, scipConfirms, Bool.and_eq_true, pathMatches_iff, nameMatches_iff]
  constructor
  · rintro ⟨⟨item, hitem, hpath⟩, other, hother, hname⟩
    exact ⟨item, hitem, other, hother, hpath, hname⟩
  · rintro ⟨item, hitem, other, hother, hpath, hname⟩
    exact ⟨⟨item, hitem, hpath⟩, other, hother, hname⟩

/-- **No confirmation by SCIP is missed.** -/
theorem scipOk_of_confirmedBy (h : scipConfirmed E items row = true) : scipOk E items row = true := by
  obtain ⟨item, hitem, hconfirmed⟩ := List.any_eq_true.mp h
  rw [confirmedBy, scipConfirms, Bool.and_eq_true] at hconfirmed
  exact scipOk_iff.mpr ⟨item, hitem, item, hitem, hconfirmed⟩

/-! ### Counts -/

/-- Equal counts of a condition and a weaker one. -/
theorem countP_eq_iff {p q : Dict F → Bool} (h : ∀ row ∈ rows, p row = true → q row = true) :
    (Json.int (rows.countP q : ℤ) : Json F) = .int (rows.countP p) ↔ ∀ row ∈ rows, q row = true → p row = true := by
  rw [Json.int.injEq, Nat.cast_inj, List.countP_eq_length_filter, List.countP_eq_length_filter, eq_comm]
  exact length_filter_eq_iff h

theorem sameFile_iff : SameFile E repo rows ↔
    ∀ row ∈ rows, sourceOk E repo rows row = true → sourceConfirms E repo row = true := by
  constructor
  · intro h row hrow hok
    obtain ⟨other, hother, hpath, hconfirms⟩ := sourceOk_iff.mp hok
    exact h row hrow other hother hpath hconfirms
  · intro h row hrow other hother hpath hconfirms
    exact h row hrow (sourceOk_iff.mpr ⟨other, hother, hpath, hconfirms⟩)

theorem singleItem_iff : SingleItem E rows items ↔
    ∀ row ∈ rows, scipOk E items row = true → scipConfirmed E items row = true := by
  constructor
  · intro h row hrow hok
    obtain ⟨item, hitem, other, hother, hpath, hname⟩ := scipOk_iff.mp hok
    exact h row hrow item hitem other hother hpath hname
  · intro h row hrow item hitem other hother hpath hname
    exact h row hrow (scipOk_iff.mpr ⟨item, hitem, other, hother, hpath, hname⟩)

theorem validateCrgItem_eq_ok (repo : Checkout) (items : List (ContextItem F)) (hsource : item.source = "code_review_graph")
    (hrows : StructuralValidation.rows E item = .ok rows) : validateCrgItem E repo items item = .ok out ↔
      { item with
        metadata := update item.metadata
          (if rows = [] then emptyEntries E item.metadata else rowEntries E repo rows items)
        evidence := none } = out := by
  rw [validateCrgItem, if_neg (not_not_intro hsource), bind_eq_ok, hrows]
  simp [pure, Except.pure]

/-- An item without rows is not verified and keeps its counters. -/
theorem agrees_empty : Agrees E repo [] items
      { item with metadata := update item.metadata (emptyEntries E item.metadata), evidence := none } ↔
    Uncounted item := by
  have hcounter : ∀ key ∈ ["source_confirmed_results", "scip_confirmed_results", "verified_results"],
      counter { item with
        metadata := update item.metadata (emptyEntries E item.metadata), evidence := none } key =
        counter item key := by
    intro key hkey
    simp only [List.mem_cons, List.not_mem_nil, or_false] at hkey
    rcases hkey with rfl | rfl | rfl <;> simp [counter, update, emptyEntries, lookup_setKey_ne]
  constructor
  · rintro ⟨-, hsource, hscip, hboth⟩ key hkey
    rw [← hcounter key hkey]
    simp only [List.mem_cons, List.not_mem_nil, or_false] at hkey
    rcases hkey with rfl | rfl | rfl
    · exact hsource
    · exact hscip
    · exact hboth
  · intro h
    refine ⟨fun hverified => ?_, ?_, ?_, ?_⟩
    · have hconfidence : getKey (update item.metadata (emptyEntries E item.metadata)) "evidence_confidence" =
          .str (if truthy E.T (getKey item.metadata "empty_verified") then "corroborated" else "candidate") := by
        simp [update, emptyEntries, getKey_setKey_ne]
      rw [hconfidence] at hverified
      split_ifs at hverified <;> simp at hverified
    · rw [hcounter _ (by simp), h _ (by simp)]
      rfl
    · rw [hcounter _ (by simp), h _ (by simp)]
      rfl
    · rw [hcounter _ (by simp), h _ (by simp)]
      rfl

/-- What is recorded of an item with rows. -/
theorem lookup_rowEntries (metadata : Dict F) {key : String} {value : Json F}
    (h : (key, value) ∈ rowEntries E repo rows items) :
    lookup key (update metadata (rowEntries E repo rows items)) = some value := by
  unfold rowEntries at h ⊢
  dsimp only at h ⊢
  simp only [List.mem_cons, List.not_mem_nil, or_false, Prod.mk.injEq] at h
  rcases h with ⟨rfl, rfl⟩ | ⟨rfl, rfl⟩ | ⟨rfl, rfl⟩ | ⟨rfl, rfl⟩ | ⟨rfl, rfl⟩ | ⟨rfl, rfl⟩ | ⟨rfl, rfl⟩ <;>
    simp [update, lookup_setKey_ne]

/-- **Of an item with rows** the truth is told if and only if no row and no item confirms for another. -/
theorem agrees_rows : Agrees E repo rows items
      { item with metadata := update item.metadata (rowEntries E repo rows items), evidence := none } ↔
    SameFile E repo rows ∧ SingleItem E rows items := by
  have hsource : ("source_confirmed_results", (.int (rows.countP (sourceOk E repo rows)) : Json F)) ∈
      rowEntries E repo rows items := by simp [rowEntries]
  have hscip : ("scip_confirmed_results", (.int (rows.countP (scipOk E items)) : Json F)) ∈
      rowEntries E repo rows items := by simp [rowEntries]
  have hboth : ("verified_results",
      (.int (rows.countP fun row => sourceOk E repo rows row && scipOk E items row) : Json F)) ∈
      rowEntries E repo rows items := by simp [rowEntries]
  constructor
  · rintro ⟨-, h, h', -⟩
    rw [counter, lookup_rowEntries _ hsource, Option.getD_some] at h
    rw [counter, lookup_rowEntries _ hscip, Option.getD_some] at h'
    refine ⟨sameFile_iff.mpr ?_, singleItem_iff.mpr ?_⟩
    · exact (countP_eq_iff fun row hrow => sourceOk_of_confirms hrow).mp h
    · exact (countP_eq_iff fun row _ => scipOk_of_confirmedBy).mp h'
  · rintro ⟨hfile, hitem⟩
    rw [sameFile_iff] at hfile
    rw [singleItem_iff] at hitem
    have hsourceEq : rows.countP (sourceOk E repo rows) = rows.countP (sourceConfirms E repo) :=
      List.countP_congr fun row hrow => ⟨hfile row hrow, sourceOk_of_confirms hrow⟩
    have hscipEq : rows.countP (scipOk E items) = rows.countP (scipConfirmed E items) :=
      List.countP_congr fun row hrow => ⟨hitem row hrow, scipOk_of_confirmedBy⟩
    have hbothEq : rows.countP (fun row => sourceOk E repo rows row && scipOk E items row) =
        rows.countP fun row => sourceConfirms E repo row && scipConfirmed E items row := by
      refine List.countP_congr fun row hrow => ?_
      rw [Bool.and_eq_true, Bool.and_eq_true]
      exact and_congr ⟨hfile row hrow, sourceOk_of_confirms hrow⟩ ⟨hitem row hrow, scipOk_of_confirmedBy⟩
    refine ⟨fun hverified => ?_, ?_, ?_, ?_⟩
    · have hconfidence : ("evidence_confidence", (.str (confidenceOf (rows.countP (sourceOk E repo rows))
          (rows.countP (scipOk E items))
          (rows.countP fun row => sourceOk E repo rows row && scipOk E items row)) : Json F)) ∈
          rowEntries E repo rows items := by simp [rowEntries]
      rw [getKey, lookup_rowEntries _ hconfidence, Option.getD_some, Json.str.injEq, confidenceOf,
        hbothEq] at hverified
      -- a count of zero is not called verified
      by_cases hzero : rows.countP (fun row => sourceConfirms E repo row && scipConfirmed E items row) = 0
      · rw [if_neg (not_not_intro hzero)] at hverified
        split_ifs at hverified <;> simp at hverified
      · obtain ⟨row, hrow, hconfirmed⟩ := List.countP_pos_iff.mp (Nat.pos_of_ne_zero hzero)
        exact ⟨row, hrow, Bool.and_eq_true_iff.mp hconfirmed⟩
    · rw [counter, lookup_rowEntries _ hsource, hsourceEq]
      rfl
    · rw [counter, lookup_rowEntries _ hscip, hscipEq]
      rfl
    · rw [counter, lookup_rowEntries _ hboth, hbothEq]
      rfl

/-- A repository with one file of one function. -/
def oneFile : Checkout :=
  ⟨["w"], id, fun path => if path = ["w", "a.py"] then some ⟨false, 9, "def run()"⟩ else none⟩

def graphItem (results : String) : ContextItem Grid.Cell :=
  ⟨"code_review_graph", "\x7b\"results\":[" ++ results ++ "]\x7d", .zero, false, [], [], none⟩

def scipHit (symbol : String) : ContextItem Grid.Cell :=
  ⟨"scip", "", .zero, false, [("path", .str "a.py"), ("symbol", .str symbol)], [], none⟩

def rowOf (name : String) : Dict Grid.Cell := [("path", .str "a.py"), ("name", .str name)]

end ControlPlane.Retrieval.StructuralValidation
