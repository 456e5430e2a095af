import ControlPlane.Index.Rows
import ControlPlane.Lib.Runs

/-! # Runs of the indexer

A run builds the index of a repository anew, or takes over the rows of the files that have not changed. It publishes
three files one after the other (symbols, endpoints, state), and may end before any of them is published.

`run_inv`: what the files on disk are of, after any runs; a ghost follows, for each file, the content that its rows are
derived of and its entry. `run_isOk`: no run fails of files whose numbers JSON can hold. -/

namespace ControlPlane.Index.Runs

open ControlPlane.Lib.Value ControlPlane.Lib.Print ControlPlane.Lib.Dumps ControlPlane.Lib.Dynamic ControlPlane.Lib.Floats
open ControlPlane.Lib.Incremental ControlPlane.Lib.Runs ControlPlane.Environment ControlPlane.Index.Rows

variable {F : Type} (E : Env F) (P : Parsers)

/-! ### The disk -/

/-- The texts of the three files of an index. -/
structure Disk where
  symbols : Option String
  endpoints : Option String
  state : Option String

def blank : Disk := ⟨none, none, none⟩

/-- The source files of a repository, in the order in which they are found. -/
structure Tree where
  files : List (String × File)
  nodup : (files.map Prod.fst).Nodup
  quiet : ∀ p ∈ files, Quiet p.1

inductive Mode where
  | full
  | incremental (strictHash : Bool)
  deriving DecidableEq

structure Run where
  tree : Tree
  mode : Mode
  now : String
  /-- How many of the three files are published. -/
  published : ℕ

/-- The run completes. -/
def Run.complete (r : Run) : Prop := 3 ≤ r.published

/-- `_state_entry`. -/
def stateEntry (digest : String) (file : File) : Dict F :=
  [("sha256", .str digest), ("size", .int file.bytes.length), ("mtime_ns", .int file.mtimeNs)]

/-- What `_write_index_state` writes. -/
def indexState (now : String) (files : Dict F) : Json F :=
  .obj [("version", .int 2), ("generated_at", .str now), ("files", .obj files)]

def loadState (d : Disk) : Py (Dict F) :=
  match d.state with
  | none => .ok []
  | some text => match E.jsonLoads text with
    | .ok (.obj data) => .ok (if pyEq E.T (getKey data "version") (.int 2) then data else [])
    | .ok v => .error (.typeError ("'" ++ typeName v ++ "' object has no attribute 'get'"))
    | .error (.jsonDecodeError _) => .ok []
    | .error e => .error e

/-- `old_state.get("files", {})`. -/
def oldFiles (d : Disk) : Py (Dict F) := do
  match (lookup "files" (← loadState E d)).getD (.obj []) with
  | .obj files => .ok files
  | v => .error (.typeError ("'" ++ typeName v ++ "' object has no attribute 'get'"))

/-- `old_files.get(rel) or {}`. -/
def oldEntry (files : Dict F) (rel : String) : Py (Dict F) :=
  match getKey files rel with
  | .obj entry => .ok entry
  | v => if truthy E.T v then .error (.typeError ("'" ++ typeName v ++ "' object has no attribute 'get'")) else .ok []

/-- `_stat_matches`. -/
def statMatches (entry : Dict F) (file : File) : Py Bool :=
  if (lookup "size" entry).isNone || (lookup "mtime_ns" entry).isNone || !truthy E.T (getKey entry "sha256") then .ok false
  else do
    if (← E.toInt (getKey entry "size")) = (file.bytes.length : ℤ) then
      return decide ((← E.toInt (getKey entry "mtime_ns")) = file.mtimeNs)
    else return false

/-- `not strict_hash and _stat_matches(path, old_entry)`. -/
def statReused (entry : Dict F) (strictHash : Bool) (file : File) : Py Bool :=
  if strictHash then .ok false else statMatches E entry file

/-- Whether a file is taken over, and its digest. -/
def check (files : Dict F) (strictHash : Bool) (p : String × File) : Py (Bool × String) := do
  let entry ← oldEntry E files p.1
  if ← statReused E entry strictHash p.2 then return (true, ← E.str (getKey entry "sha256"))
  let digest := P.sha256 p.2.bytes
  return (!entry.isEmpty && pyEq E.T (getKey entry "sha256") (.str digest), digest)

/-- The rows of the files in `keep`. -/
def keptRows (keep : List String) : List (Json F) → Py (List (Dict F))
  | [] => .ok []
  | .obj row :: rows => do
    let rest ← keptRows keep rows
    match getKey row "file" with
    | .arr _ => .error (.typeError "unhashable type: 'list'")
    | .obj _ => .error (.typeError "unhashable type: 'dict'")
    | _ => return if (fileOf row).any keep.contains then row :: rest else rest
  | v :: _ => .error (.typeError ("'" ++ typeName v ++ "' object has no attribute 'get'"))

/-- Publishes the first files of an index. -/
def publish (d : Disk) (symbols endpoints state : String) (published : ℕ) : Disk where
  symbols := if 0 < published then some symbols else d.symbols
  endpoints := if 1 < published then some endpoints else d.endpoints
  state := if 2 < published then some state else d.state

/-- The index of some rows and entries is written. -/
def write (d : Disk) (symbols endpoints : List (Dict F)) (now : String) (files : Dict F) (published : ℕ) : Py Disk := do
  let symbolText ← jsonlText E symbols
  let endpointText ← jsonlText E endpoints
  let stateText ← E.fileText true (indexState now files)
  return publish d symbolText endpointText stateText published

def buildIndexes (t : Tree) (now : String) (published : ℕ) (d : Disk) : Py Disk :=
  write E d (t.files.flatMap fun p => symbolRows P p.1 p.2) (t.files.flatMap fun p => endpointRows P p.1 p.2) now
    (t.files.map fun p => (p.1, .obj (stateEntry (P.sha256 p.2.bytes) p.2))) published

def incrementalIndexes (t : Tree) (strictHash : Bool) (now : String) (published : ℕ) (d : Disk) : Py Disk := do
  let files ← oldFiles E d
  let oldSymbols ← readJsonl E d.symbols
  let oldEndpoints ← readJsonl E d.endpoints
  let checked ← t.files.mapM (check E P files strictHash)
  let results := t.files.zip checked
  let keep := (results.filter fun r => r.2.1).map fun r => r.1.1
  -- the files that are not taken over, in the order of their names
  let changed := ((results.filter fun r => !r.2.1).map Prod.fst).mergeSort fun p q => decide (p.1 ≤ q.1)
  let symbols ← keptRows keep oldSymbols
  let endpoints ← keptRows keep oldEndpoints
  write E d (symbols ++ changed.flatMap fun p => symbolRows P p.1 p.2)
    (endpoints ++ changed.flatMap fun p => endpointRows P p.1 p.2) now
    (results.map fun r => (r.1.1, .obj (stateEntry r.2.2 r.1.2))) published

def step (d : Disk) (r : Run) : Py Disk :=
  match r.mode with
  | .full => buildIndexes E P r.tree r.now r.published d
  | .incremental strictHash => incrementalIndexes E P r.tree strictHash r.now r.published d

/-! ### What the disk is of -/

/-- An entry of the state file. -/
structure Entry where
  digest : String
  size : ℕ
  mtimeNs : ℤ

/-- What the files of an index are of: the contents that the rows of each file are derived of, and its entry. -/
structure Ghost where
  symbols : String → Option File
  endpoints : String → Option File
  entries : String → Option Entry

def Ghost.blank : Ghost := ⟨fun _ => none, fun _ => none, fun _ => none⟩

/-- The entry is that of the file, as far as the indexer looks. -/
def Entry.stat (e : Entry) (file : File) : Bool :=
  e.digest != "" && e.size == file.bytes.length && e.mtimeNs == file.mtimeNs

/-- The rows of the file are taken over. -/
def Entry.kept (e : Entry) (strictHash : Bool) (file : File) : Bool :=
  (!strictHash && e.stat file) || e.digest == P.sha256 file.bytes

/-- The digest that is recorded of a file. -/
def recorded (e : Option Entry) (mode : Mode) (file : File) : String :=
  match mode, e with
  | .incremental false, some e => if e.stat file then e.digest else P.sha256 file.bytes
  | _, _ => P.sha256 file.bytes

/-- A file whose rows are taken over. -/
def Ghost.kept (g : Ghost) (mode : Mode) (t : Tree) (rel : String) : Bool :=
  match mode, fileAt t.files rel, g.entries rel with
  | .incremental strictHash, some file, some e => e.kept P strictHash file
  | _, _, _ => false

/-- What rows are of after a run. -/
def Ghost.rowsAfter (g : Ghost) (r : Run) (s : String → Option File) (rel : String) : Option File :=
  if g.kept P r.mode r.tree rel then s rel else fileAt r.tree.files rel

/-- What an index is of after a run. -/
def Ghost.after (g : Ghost) (r : Run) : Ghost where
  symbols := if 0 < r.published then g.rowsAfter P r g.symbols else g.symbols
  endpoints := if 1 < r.published then g.rowsAfter P r g.endpoints else g.endpoints
  entries := if 2 < r.published then
      fun rel => (fileAt r.tree.files rel).map fun file => ⟨recorded P (g.entries rel) r.mode file, file.bytes.length,
        file.mtimeNs⟩
    else g.entries

variable {E} {P}

/-! ### Reading the disk -/

/-- The symbol rows as rows that are derived of files. -/
def symbolIndex (F : Type) (hP : P.Quiet) : Derivation String File (Dict F) :=
  ⟨fileOf, symbolRows P, fun _ _ row hrow => (rowOf_symbolRows hP row hrow).file⟩

/-- The endpoint rows as rows that are derived of files. -/
def endpointIndex (F : Type) (hP : P.Quiet) : Derivation String File (Dict F) :=
  ⟨fileOf, endpointRows P, fun _ _ row hrow => (rowOf_endpointRows hP row hrow).file⟩

/-- A row file holds the rows of the files `s`. -/
def Holds (E : Env F) (D : Derivation String File (Dict F)) (text : Option String) (s : String → Option File) : Prop :=
  ∃ rows, readJsonl E text = .ok (rows.map .obj) ∧ Of D rows s ∧
    ∀ row ∈ rows, QuietRow row ∧ wellFormed (.obj row) = true

/-- An entry as the state file has it. -/
structure IsEntry (entry : Dict F) (e : Entry) : Prop where
  digest : getKey entry "sha256" = .str e.digest
  size : getKey entry "size" = .int e.size
  mtimeNs : getKey entry "mtime_ns" = .int e.mtimeNs

/-- The entries of a state file. -/
def Entries (files : Dict F) (entries : String → Option Entry) : Prop :=
  ∀ rel, match entries rel with
    | none => getKey files rel = .null
    | some e => ∃ entry, getKey files rel = .obj entry ∧ IsEntry entry e

/-- The disk is of the ghost. -/
structure Inv (E : Env F) (hP : P.Quiet) (d : Disk) (g : Ghost) : Prop where
  symbols : Holds E (symbolIndex F hP) d.symbols g.symbols
  endpoints : Holds E (endpointIndex F hP) d.endpoints g.endpoints
  entries : ∃ files, oldFiles E d = .ok files ∧ Entries files g.entries

theorem inv_blank (hP : P.Quiet) : Inv E hP blank Ghost.blank := by
  have hnone : ∀ D : Derivation String File (Dict F), Holds E D none fun _ => none := fun D =>
    ⟨[], rfl, ⟨fun _ hr => absurd hr List.not_mem_nil, fun _ => List.Perm.nil⟩, fun _ hr => absurd hr List.not_mem_nil⟩
  exact ⟨hnone _, hnone _, [], rfl, fun _ => rfl⟩

theorem fileAt_eq_some {files : List (String × File)} (hnodup : (files.map Prod.fst).Nodup) {rel : String} {file : File} :
    fileAt files rel = some file ↔ (rel, file) ∈ files := by
  induction files with
  | nil => simp [fileAt]
  | cons p files ih =>
    rw [List.map_cons, List.nodup_cons] at hnodup
    rw [fileAt, List.lookup_cons, List.mem_cons]
    by_cases h : rel = p.1
    · subst h
      rw [beq_self_eq_true]
      constructor
      · intro hsome
        exact Or.inl (by rw [← Option.some.inj hsome])
      · rintro (hp | hp)
        · rw [← hp]
        · exact absurd (List.mem_map_of_mem hp) hnodup.1
    · have hne : (rel == p.1) = false := beq_eq_false_iff_ne.mpr h
      rw [hne]
      have hhead : (rel, file) ≠ p := fun hp => h (congrArg Prod.fst hp)
      simp only [hhead, false_or]
      exact ih hnodup.2

theorem fileAt_eq_none {files : List (String × File)} {rel : String} :
    fileAt files rel = none ↔ rel ∉ files.map Prod.fst := by
  rw [fileAt, List.lookup_eq_none_iff, List.mem_map]
  constructor
  · rintro h ⟨p, hp, rfl⟩
    exact absurd (h p hp) (by simp)
  · intro h p hp
    rw [bne_iff_ne]
    rintro rfl
    exact h ⟨p, hp, rfl⟩

/-! ### Checking a file -/

theorem mapM_eq_map {α β : Type} {f : α → Py β} {g : α → β} : ∀ {xs : List α}, (∀ x ∈ xs, f x = .ok (g x)) →
    xs.mapM f = .ok (xs.map g)
  | [], _ => rfl
  | x :: xs, h => by
    rw [List.forall_mem_cons] at h
    rw [List.mapM_cons, h.1, mapM_eq_map h.2]
    rfl

theorem zip_map_self {α β : Type} (g : α → β) (xs : List α) : xs.zip (xs.map g) = xs.map fun x => (x, g x) := by
  induction xs with
  | nil => rfl
  | cons x xs ih => rw [List.map_cons, List.zip_cons_cons, ih, List.map_cons]

/-- Whether a file is taken over that may have no entry. -/
def keptOf (P : Parsers) (e : Option Entry) (strictHash : Bool) (file : File) : Bool :=
  e.any fun e => e.kept P strictHash file

theorem statMatches_eq {entry : Dict F} {e : Entry} (h : IsEntry entry e) (file : File) :
    statMatches E entry file = .ok (e.stat file) := by
  have hkey : ∀ {k : String} {v : Json F}, getKey entry k = v → v ≠ .null → (lookup k entry).isNone = false := by
    intro k v hv hne
    rw [lookup_of_getKey hv hne]
    rfl
  unfold statMatches
  rw [hkey h.size (by simp), hkey h.mtimeNs (by simp), h.digest, h.size, h.mtimeNs, Env.toInt, Env.toInt]
  unfold Entry.stat
  by_cases hdigest : e.digest = ""
  · rw [hdigest]
    rfl
  · have htrue : truthy E.T (.str e.digest) = true := by simp [truthy, hdigest]
    rw [htrue]
    change (if ((e.size : ℕ) : ℤ) = (file.bytes.length : ℤ) then _ else _) = _
    by_cases hsize : e.size = file.bytes.length
    · rw [if_pos (by rw [hsize])]
      simp [hdigest, hsize, pure, Except.pure, bind, Except.bind, Bool.beq_eq_decide_eq]
    · rw [if_neg (by simpa using hsize)]
      simp [hsize, pure, Except.pure]

/-- **What the check of a file finds.** -/
theorem check_eq {files : Dict F} {entries : String → Option Entry} (h : Entries files entries) (strictHash : Bool)
    (p : String × File) : check E P files strictHash p =
      .ok (keptOf P (entries p.1) strictHash p.2, recorded P (entries p.1) (.incremental strictHash) p.2) := by
  have hrel := h p.1
  cases he : entries p.1 with
  | none =>
    rw [he] at hrel
    have hentry : oldEntry E files p.1 = .ok [] := by
      rw [oldEntry, hrel]
      rfl
    have hstat : statMatches E ([] : Dict F) p.2 = .ok false := rfl
    have hmatched : statReused E ([] : Dict F) strictHash p.2 = .ok false := by rw [statReused, hstat, ite_self]
    rw [check, hentry]
    change (statReused E ([] : Dict F) strictHash p.2 >>= _) = _
    rw [hmatched]
    cases strictHash <;> rfl
  | some e =>
    rw [he] at hrel
    obtain ⟨entry, hget, hentry⟩ := hrel
    have hold : oldEntry E files p.1 = .ok entry := by rw [oldEntry, hget]
    have hne : entry.isEmpty = false := by
      cases entry with
      | nil =>
        have hd := hentry.digest
        cases hd
      | cons q entry => rfl
    have hsame : pyEq E.T (.str e.digest) (.str (P.sha256 p.2.bytes)) = (e.digest == P.sha256 p.2.bytes) := by
      rw [Bool.eq_iff_iff, pyEq_str, Json.str.injEq, beq_iff_eq, eq_comm]
    rw [check, hold]
    change (statReused E entry strictHash p.2 >>= _) = _
    by_cases hmatched : strictHash = false ∧ e.stat p.2 = true
    · obtain ⟨rfl, hstat⟩ := hmatched
      have hstr : E.str (getKey entry "sha256") = .ok e.digest := by
        rw [hentry.digest, Env.str, pyStr_str]
      rw [statReused, if_neg Bool.false_ne_true, statMatches_eq hentry, hstat]
      change (E.str (getKey entry "sha256") >>= _) = _
      rw [hstr]
      simp [keptOf, Entry.kept, recorded, hstat, pure, Except.pure, bind, Except.bind]
    · have hno : statReused E entry strictHash p.2 = .ok false := by
        unfold statReused
        by_cases hstrict : strictHash = true
        · rw [if_pos hstrict]
        · have hstat : e.stat p.2 = false := by simpa [hstrict] using hmatched
          rw [if_neg hstrict, statMatches_eq hentry, hstat]
      rw [hno]
      change Except.ok (!entry.isEmpty && pyEq E.T (getKey entry "sha256") (.str (P.sha256 p.2.bytes)),
        P.sha256 p.2.bytes) = _
      rw [hne, hentry.digest, hsame]
      by_cases hstrict : strictHash = true
      · rw [hstrict]
        simp [keptOf, Entry.kept, recorded]
      · have hstat : e.stat p.2 = false := by simpa [hstrict] using hmatched
        simp [keptOf, Entry.kept, recorded, hstrict, hstat]

/-! ### What is taken over -/

/-- The names of the files that are taken over. -/
def keptNames (P : Parsers) (entries : String → Option Entry) (strictHash : Bool) (t : Tree) : List String :=
  (t.files.filter fun p => keptOf P (entries p.1) strictHash p.2).map Prod.fst

/-- The other files, in the order of their names. -/
def changedFiles (P : Parsers) (entries : String → Option Entry) (strictHash : Bool) (t : Tree) : List (String × File) :=
  (t.files.filter fun p => !keptOf P (entries p.1) strictHash p.2).mergeSort fun p q => decide (p.1 ≤ q.1)

theorem mem_changedFiles {entries : String → Option Entry} {strictHash : Bool} {t : Tree} {p : String × File} :
    p ∈ changedFiles P entries strictHash t ↔ p ∈ t.files ∧ keptOf P (entries p.1) strictHash p.2 = false := by
  rw [changedFiles, (List.mergeSort_perm _ _).mem_iff, List.mem_filter, Bool.not_eq_true']

theorem nodup_changedFiles {entries : String → Option Entry} {strictHash : Bool} {t : Tree} :
    ((changedFiles P entries strictHash t).map Prod.fst).Nodup := by
  have hperm : (changedFiles P entries strictHash t).Perm _ := List.mergeSort_perm _ _
  rw [(hperm.map _).nodup_iff]
  exact t.nodup.sublist (List.filter_sublist.map _)

theorem mem_keptNames {entries : String → Option Entry} {strictHash : Bool} {t : Tree} {rel : String} :
    rel ∈ keptNames P entries strictHash t ↔
      ∃ file, (rel, file) ∈ t.files ∧ keptOf P (entries rel) strictHash file = true := by
  constructor
  · intro h
    obtain ⟨p, hp, rfl⟩ := List.mem_map.mp h
    exact ⟨p.2, (List.mem_filter.mp hp).1, (List.mem_filter.mp hp).2⟩
  · rintro ⟨file, hfile, hkept⟩
    exact List.mem_map.mpr ⟨(rel, file), List.mem_filter.mpr ⟨hfile, hkept⟩, rfl⟩

theorem contains_keptNames {g : Ghost} {strictHash : Bool} {t : Tree} {rel : String} :
    (keptNames P g.entries strictHash t).contains rel = g.kept P (.incremental strictHash) t rel := by
  rw [Bool.eq_iff_iff, List.contains_iff_mem, mem_keptNames]
  unfold Ghost.kept
  cases hfile : fileAt t.files rel with
  | none =>
    have hmiss := fileAt_eq_none.mp hfile
    simp only [reduceCtorEq, iff_false, not_exists, not_and]
    intro file hmem
    exact absurd (List.mem_map_of_mem hmem) hmiss
  | some file =>
    have hmem := (fileAt_eq_some t.nodup).mp hfile
    cases he : g.entries rel with
    | none => simp [keptOf]
    | some e =>
      simp only [keptOf, Option.any_some]
      constructor
      · rintro ⟨other, hother, hkept⟩
        have hsame := ((fileAt_eq_some t.nodup).mpr hother).symm.trans hfile
        rwa [Option.some.inj hsame] at hkept
      · intro hkept
        exact ⟨file, hmem, hkept⟩

/-- The rows of the files that are taken over stay as they are; the others are derived anew. -/
theorem refreshed_eq {g : Ghost} {strictHash : Bool} {r : Run} (hmode : r.mode = .incremental strictHash)
    (s : String → Option File) :
    refreshed (keptNames P g.entries strictHash r.tree).contains (changedFiles P g.entries strictHash r.tree) s =
      g.rowsAfter P r s := by
  funext rel
  rw [refreshed, Ghost.rowsAfter, contains_keptNames, hmode]
  by_cases hkept : g.kept P (.incremental strictHash) r.tree rel = true
  · rw [if_pos hkept, if_pos hkept]
  · rw [if_neg hkept, if_neg hkept]
    rw [← contains_keptNames, List.contains_iff_mem, mem_keptNames, not_exists] at hkept
    ext file
    rw [fileAt_eq_some nodup_changedFiles, fileAt_eq_some r.tree.nodup, mem_changedFiles]
    have hnot := hkept file
    rw [not_and, Bool.not_eq_true] at hnot
    exact ⟨fun h => h.1, fun h => ⟨h, hnot h⟩⟩

theorem keptRows_eq {keep : List String} : ∀ {rows : List (Dict F)}, (∀ row ∈ rows, ∃ rel, fileOf row = some rel) →
    keptRows keep (rows.map .obj) = .ok (rows.filter fun row => (fileOf row).any keep.contains)
  | [], _ => rfl
  | row :: rows, h => by
    rw [List.forall_mem_cons] at h
    obtain ⟨rel, hrel⟩ := h.1
    have hfile : getKey row "file" = .str rel := by
      unfold fileOf at hrel
      split at hrel
      · next text htext => rw [htext, Option.some.inj hrel]
      · cases hrel
    rw [List.map_cons, keptRows, keptRows_eq h.2, hfile, List.filter_cons]
    rfl

/-! ### What a run writes -/

theorem write_ok {d d' : Disk} {symbols endpoints : List (Dict F)} {now : String} {files : Dict F} {published : ℕ}
    (h : write E d symbols endpoints now files published = .ok d') : ∃ a b c, jsonlText E symbols = .ok a ∧
      jsonlText E endpoints = .ok b ∧ E.fileText true (indexState now files) = .ok c ∧
      d' = publish d a b c published := by
  obtain ⟨a, ha, h⟩ := bind_eq_ok.mp h
  obtain ⟨b, hb, h⟩ := bind_eq_ok.mp h
  obtain ⟨c, hc, h⟩ := bind_eq_ok.mp h
  exact ⟨a, b, c, ha, hb, hc, (Except.ok.inj h).symm⟩

/-- Rows that an index may hold. -/
def Sound (rows : List (Dict F)) : Prop := ∀ row ∈ rows, QuietRow row ∧ wellFormed (.obj row) = true

theorem holds_written {D : Derivation String File (Dict F)} {rows : List (Dict F)} {s : String → Option File}
    (hsound : Sound rows) (hof : Of D rows s) {text : String} (h : jsonlText E rows = .ok text) :
    Holds E D (some text) s :=
  ⟨rows, readJsonl_jsonlText (fun row hrow => (hsound row hrow).1) (fun row hrow => (hsound row hrow).2) h, hof, hsound⟩

theorem sound_full {D : Derivation String File (Dict F)} (hrow : ∀ rel file, ∀ row ∈ D.derive rel file, RowOf rel row)
    {files : List (String × File)} (hquiet : ∀ p ∈ files, Quiet p.1) : Sound (full D files) := by
  intro row hmem
  obtain ⟨p, hp, hmem⟩ := List.mem_flatMap.mp hmem
  have hof := hrow p.1 p.2 row hmem
  exact ⟨hof.quiet (hquiet p hp), hof.wellFormed⟩

theorem sound_refresh {D : Derivation String File (Dict F)} (hrow : ∀ rel file, ∀ row ∈ D.derive rel file, RowOf rel row)
    {keep : String → Bool} {files : List (String × File)} (hquiet : ∀ p ∈ files, Quiet p.1) {rows : List (Dict F)}
    (hsound : Sound rows) : Sound (refresh D keep files rows) := by
  intro row hmem
  rcases List.mem_append.mp hmem with hmem | hmem
  · exact hsound row (List.mem_filter.mp hmem).1
  · exact sound_full hrow hquiet row hmem

/-- The entries that a run writes: a digest for each file. -/
def entriesOf (t : Tree) (digest : String × File → String) : Dict F :=
  t.files.map fun p => (p.1, .obj (stateEntry (digest p) p.2))

theorem lookup_entriesOf (t : Tree) (digest : String × File → String) (rel : String) :
    lookup rel (entriesOf t digest : Dict F) =
      (fileAt t.files rel).map fun file => .obj (stateEntry (digest (rel, file)) file) := by
  unfold entriesOf
  induction t.files with
  | nil => rfl
  | cons p files ih =>
    rw [List.map_cons, lookup, fileAt, List.lookup_cons]
    by_cases h : rel = p.1
    · subst h
      simp
    · have hne : (rel == p.1) = false := beq_eq_false_iff_ne.mpr h
      rw [if_neg (Ne.symm h), hne]
      exact ih

theorem wellFormed_indexState (t : Tree) (digest : String × File → String) (now : String) :
    wellFormed (indexState now (entriesOf t digest) : Json F) = true := by
  have hkeys : keys (entriesOf t digest : Dict F) = t.files.map Prod.fst := by
    rw [keys, entriesOf, List.map_map]
    rfl
  have hfiles : wellFormed (.obj (entriesOf t digest : Dict F)) = true := by
    rw [wellFormed_obj, hkeys]
    refine ⟨t.nodup, fun p hp => ?_⟩
    obtain ⟨q, -, rfl⟩ := List.mem_map.mp hp
    simp [stateEntry, keys]
  unfold indexState
  rw [wellFormed_obj]
  refine ⟨by simp [keys], fun p hp => ?_⟩
  simp only [List.mem_cons, List.not_mem_nil, or_false] at hp
  rcases hp with rfl | rfl | rfl
  · simp
  · simp
  · exact hfiles

/-- The entries of a state file that a run has written. -/
theorem oldFiles_written {d : Disk} {t : Tree} {digest : String × File → String} {now text : String}
    (h : E.fileText true (indexState now (entriesOf t digest)) = .ok text) (hd : d.state = some text) :
    oldFiles E d = .ok (sortDict (entriesOf t digest)) := by
  have hwf := @wellFormed_indexState F t digest now
  have hloads := jsonLoads_fileText E hwf h
  rw [indexState, sortKeys_obj'] at hloads
  unfold indexState at hwf
  have hnodup := ((wellFormed_obj _).mp hwf).1
  have hversion : pyEq E.T (getKey (sortDict [("version", .int 2), ("generated_at", .str now),
      ("files", .obj (entriesOf t digest))]) "version") (.int 2) = true := by
    rw [getKey_sortDict hnodup]
    simp [getKey, lookup, pyEq, numOf, Num.eq]
  have hload : loadState E d = .ok (sortDict [("version", .int 2), ("generated_at", .str now),
      ("files", .obj (entriesOf t digest))]) := by
    rw [loadState, hd]
    dsimp only
    rw [hloads]
    dsimp only
    rw [if_pos hversion]
  have hfiles : lookup "files" (sortDict [("version", .int 2), ("generated_at", .str now),
      ("files", .obj (entriesOf t digest))]) = some (.obj (sortDict (entriesOf t digest : Dict F))) := by
    rw [lookup_sortDict hnodup, ← sortKeys_obj']
    rfl
  unfold oldFiles
  rw [hload]
  change (Except.ok _ >>= _) = _
  simp only [bind, Except.bind, hfiles, Option.getD_some]

/-- The entries that a run writes, read back. -/
theorem entries_written {t : Tree} {digest : String × File → String} {entries : String → Option Entry}
    (h : ∀ rel, entries rel = (fileAt t.files rel).map fun file => ⟨digest (rel, file), file.bytes.length, file.mtimeNs⟩) :
    Entries (sortDict (entriesOf t digest : Dict F)) entries := by
  have hwf := @wellFormed_indexState F t digest ""
  unfold indexState at hwf
  have hnodup : (keys (entriesOf t digest : Dict F)).Nodup :=
    ((wellFormed_obj _).mp (((wellFormed_obj _).mp hwf).2 ("files", _) (by simp))).1
  intro rel
  rw [h rel, getKey_sortDict hnodup, getKey, lookup_entriesOf]
  cases fileAt t.files rel with
  | none => rfl
  | some file =>
    refine ⟨sortDict (stateEntry (digest (rel, file)) file), sortKeys_obj' _, ?_⟩
    have hentry : (keys (stateEntry (digest (rel, file)) file : Dict F)).Nodup := by simp [stateEntry, keys]
    refine ⟨?_, ?_, ?_⟩ <;> rw [getKey_sortDict hentry] <;> rfl

/-! ### A step -/

/-- **An incremental run** refreshes the rows and writes an entry for each file. -/
theorem incremental_eq {hP : P.Quiet} {d : Disk} {g : Ghost} {strictHash : Bool} {t : Tree} {now : String} {published : ℕ}
    {symbols endpoints : List (Dict F)} {files : Dict F} (hsymbols : readJsonl E d.symbols = .ok (symbols.map .obj))
    (hendpoints : readJsonl E d.endpoints = .ok (endpoints.map .obj))
    (hs : ∀ row ∈ symbols, ∃ rel, fileOf row = some rel) (he : ∀ row ∈ endpoints, ∃ rel, fileOf row = some rel)
    (hfiles : oldFiles E d = .ok files) (hentries : Entries files g.entries) :
    incrementalIndexes E P t strictHash now published d =
      write E d
        (refresh (symbolIndex F hP) (keptNames P g.entries strictHash t).contains (changedFiles P g.entries strictHash t)
          symbols)
        (refresh (endpointIndex F hP) (keptNames P g.entries strictHash t).contains
          (changedFiles P g.entries strictHash t) endpoints)
        now (entriesOf t fun p => recorded P (g.entries p.1) (.incremental strictHash) p.2) published := by
  have hchecked : t.files.mapM (check E P files strictHash) = .ok (t.files.map fun p =>
      (keptOf P (g.entries p.1) strictHash p.2, recorded P (g.entries p.1) (.incremental strictHash) p.2)) :=
    mapM_eq_map fun p _ => check_eq hentries strictHash p
  have hkeep : ((t.files.map fun p => (p, keptOf P (g.entries p.1) strictHash p.2,
      recorded P (g.entries p.1) (.incremental strictHash) p.2)).filter fun r => r.2.1).map (fun r => r.1.1) =
      keptNames P g.entries strictHash t := by
    rw [List.filter_map, List.map_map]
    rfl
  have hchanged : ((t.files.map fun p => (p, keptOf P (g.entries p.1) strictHash p.2,
      recorded P (g.entries p.1) (.incremental strictHash) p.2)).filter fun r => !r.2.1).map Prod.fst =
      t.files.filter fun p => !keptOf P (g.entries p.1) strictHash p.2 := by
    rw [List.filter_map, List.map_map]
    exact List.map_id _
  unfold incrementalIndexes
  rw [hfiles, hsymbols, hendpoints]
  simp only [bind, Except.bind]
  rw [hchecked]
  dsimp only
  rw [zip_map_self, hkeep, hchanged, keptRows_eq hs]
  dsimp only
  rw [keptRows_eq he]
  dsimp only
  rw [List.map_map]
  rfl

/-- **What a run writes.** -/
theorem step_eq {hP : P.Quiet} {d : Disk} {g : Ghost} (h : Inv E hP d g) (r : Run) : ∃ symbols endpoints,
    (Sound symbols ∧ Of (symbolIndex F hP) symbols (g.rowsAfter P r g.symbols)) ∧
    (Sound endpoints ∧ Of (endpointIndex F hP) endpoints (g.rowsAfter P r g.endpoints)) ∧
    step E P d r = write E d symbols endpoints r.now (entriesOf r.tree fun p => recorded P (g.entries p.1) r.mode p.2)
      r.published := by
  cases hmode : r.mode with
  | full =>
    have hrows : ∀ s, g.rowsAfter P r s = fileAt r.tree.files := by
      intro s
      funext rel
      unfold Ghost.rowsAfter Ghost.kept
      rw [hmode]
      exact if_neg Bool.false_ne_true
    refine ⟨full (symbolIndex F hP) r.tree.files, full (endpointIndex F hP) r.tree.files, ?_, ?_, ?_⟩
    · rw [hrows]
      exact ⟨sound_full (fun _ _ => rowOf_symbolRows hP) r.tree.quiet, full_of r.tree.nodup⟩
    · rw [hrows]
      exact ⟨sound_full (fun _ _ => rowOf_endpointRows hP) r.tree.quiet, full_of r.tree.nodup⟩
    · rw [step, hmode]
      rfl
  | incremental strictHash =>
    obtain ⟨symbols, hsymbols, hsof, hssound⟩ := h.symbols
    obtain ⟨endpoints, hendpoints, heof, hesound⟩ := h.endpoints
    obtain ⟨files, hfiles, hentries⟩ := h.entries
    have hquiet : ∀ p ∈ changedFiles P g.entries strictHash r.tree, Quiet p.1 := fun p hp =>
      r.tree.quiet p (mem_changedFiles.mp hp).1
    have hdisjoint : ∀ rel, (keptNames P g.entries strictHash r.tree).contains rel = true →
        rel ∉ (changedFiles P g.entries strictHash r.tree).map Prod.fst := by
      intro rel hrel hmem
      obtain ⟨file, hfile, hkept⟩ := mem_keptNames.mp (List.contains_iff_mem.mp hrel)
      obtain ⟨p, hp, rfl⟩ := List.mem_map.mp hmem
      obtain ⟨hp, hnot⟩ := mem_changedFiles.mp hp
      have hsame := ((fileAt_eq_some r.tree.nodup).mpr hfile).symm.trans ((fileAt_eq_some r.tree.nodup).mpr hp)
      rw [Option.some.inj hsame, hnot] at hkept
      exact Bool.false_ne_true hkept
    refine ⟨refresh (symbolIndex F hP) (keptNames P g.entries strictHash r.tree).contains
      (changedFiles P g.entries strictHash r.tree) symbols, refresh (endpointIndex F hP)
      (keptNames P g.entries strictHash r.tree).contains (changedFiles P g.entries strictHash r.tree) endpoints, ?_, ?_, ?_⟩
    · rw [← refreshed_eq hmode]
      exact ⟨sound_refresh (fun _ _ => rowOf_symbolRows hP) hquiet hssound, refresh_of hsof nodup_changedFiles hdisjoint⟩
    · rw [← refreshed_eq hmode]
      exact ⟨sound_refresh (fun _ _ => rowOf_endpointRows hP) hquiet hesound, refresh_of heof nodup_changedFiles hdisjoint⟩
    · rw [step, hmode]
      exact incremental_eq hsymbols hendpoints hsof.keyed heof.keyed hfiles hentries

/-- **What a run does to the disk.** -/
theorem step_inv {hP : P.Quiet} {d d' : Disk} {g : Ghost} {r : Run} (h : Inv E hP d g) (hd : step E P d r = .ok d') :
    Inv E hP d' (g.after P r) := by
  obtain ⟨symbols, endpoints, hsymbols, hendpoints, heq⟩ := step_eq h r
  rw [heq] at hd
  obtain ⟨a, b, c, ha, hb, hc, rfl⟩ := write_ok hd
  refine ⟨?_, ?_, ?_⟩
  · unfold publish Ghost.after
    dsimp only
    by_cases hp : 0 < r.published
    · rw [if_pos hp, if_pos hp]
      exact holds_written hsymbols.1 hsymbols.2 ha
    · rw [if_neg hp, if_neg hp]
      exact h.symbols
  · unfold publish Ghost.after
    dsimp only
    by_cases hp : 1 < r.published
    · rw [if_pos hp, if_pos hp]
      exact holds_written hendpoints.1 hendpoints.2 hb
    · rw [if_neg hp, if_neg hp]
      exact h.endpoints
  · by_cases hp : 2 < r.published
    · refine ⟨_, oldFiles_written hc ?_, entries_written fun rel => ?_⟩
      · rw [publish, if_pos hp]
      · rw [Ghost.after, if_pos hp]
    · obtain ⟨files, hfiles, hentries⟩ := h.entries
      refine ⟨files, ?_, ?_⟩
      · have hstate : (publish d a b c r.published).state = d.state := by rw [publish, if_neg hp]
        rw [oldFiles, loadState, hstate]
        exact hfiles
      · rw [Ghost.after, if_neg hp]
        exact hentries

/-- **What the files on disk are of**, after any runs. -/
theorem run_inv {hP : P.Quiet} {d d' : Disk} {g : Ghost} {rs : List Run} (h : Inv E hP d g)
    (hd : run (step E P) d rs = .ok d') : Inv E hP d' (rs.foldl (fun g r => g.after P r) g) := by
  induction rs generalizing d g with
  | nil =>
    rw [run, Except.ok.injEq] at hd
    subst hd
    exact h
  | cons r rs ih =>
    obtain ⟨u, hu, hd⟩ := run_cons.mp hd
    exact ih (step_inv h hu) hd

/-! ### No run fails -/

/-- JSON can hold the numbers of a file. -/
structure Printable (E : Env F) (P : Parsers) (p : String × File) : Prop where
  symbols : ∀ row ∈ (symbolRows P p.1 p.2 : List (Dict F)), printable E.T.toFloatText true (.obj row) = true
  endpoints : ∀ row ∈ (endpointRows P p.1 p.2 : List (Dict F)), printable E.T.toFloatText true (.obj row) = true
  size : printable E.T.toFloatText true (.int p.2.bytes.length : Json F) = true
  mtimeNs : printable E.T.toFloatText true (.int p.2.mtimeNs : Json F) = true

theorem jsonlText_isOk : ∀ {rows : List (Dict F)}, (∀ row ∈ rows, printable E.T.toFloatText true (.obj row) = true) →
    ∃ text, jsonlText E rows = .ok text
  | [], _ => ⟨"", rfl⟩
  | row :: rows, h => by
    rw [List.forall_mem_cons] at h
    obtain ⟨rest, hrest⟩ := jsonlText_isOk h.2
    have hline : jsonDumps E.T (spaced false) (.obj row) = .ok _ := (jsonDumps_eq_ok E.T).mpr ⟨h.1, rfl⟩
    exact ⟨_, by rw [jsonlText, hline, hrest]; rfl⟩

theorem printable_indexState {t : Tree} (ht : ∀ p ∈ t.files, Printable E P p) (digest : String × File → String)
    (now : String) : printable E.T.toFloatText true (indexState now (entriesOf t digest)) = true := by
  have hfiles : printable E.T.toFloatText true (.obj (entriesOf t digest)) = true := by
    rw [printable_obj]
    intro q hq
    obtain ⟨p, hp, rfl⟩ := List.mem_map.mp hq
    simp only [stateEntry, printable_obj, List.forall_mem_cons, List.not_mem_nil, false_implies, implies_true, and_true]
    exact ⟨by simp [printable], (ht p hp).size, (ht p hp).mtimeNs⟩
  simp only [indexState, printable_obj, List.forall_mem_cons, List.not_mem_nil, false_implies, implies_true, and_true]
  exact ⟨printable_small true (by decide), by simp [printable], (printable_obj ..).mp hfiles⟩

/-- Rows of files whose rows JSON can hold. -/
theorem printable_of {D : Derivation String File (Dict F)} {rows : List (Dict F)} {s : String → Option File}
    (h : Of D rows s)
    (hs : ∀ rel file, s rel = some file → ∀ row ∈ D.derive rel file, printable E.T.toFloatText true (.obj row) = true) :
    ∀ row ∈ rows, printable E.T.toFloatText true (.obj row) = true := by
  intro row hrow
  obtain ⟨rel, hrel⟩ := h.keyed row hrow
  have hmem : row ∈ D.rows rel (s rel) :=
    (h.same rel).mem_iff.mp (List.mem_filter.mpr ⟨hrow, decide_eq_true hrel⟩)
  cases hfile : s rel with
  | none =>
    rw [hfile] at hmem
    exact absurd hmem List.not_mem_nil
  | some file =>
    rw [hfile] at hmem
    exact hs rel file hfile row hmem

/-- The ghost is of files whose numbers JSON can hold. -/
def Ghost.Printable (E : Env F) (P : Parsers) (g : Ghost) : Prop :=
  ∀ rel file, g.symbols rel = some file ∨ g.endpoints rel = some file → Runs.Printable E P (rel, file)

theorem printable_after {g : Ghost} (h : g.Printable E P) {r : Run} (hr : ∀ p ∈ r.tree.files, Printable E P p) :
    (∀ rel file, g.rowsAfter P r g.symbols rel = some file ∨ g.rowsAfter P r g.endpoints rel = some file →
      Printable E P (rel, file)) ∧ (g.after P r).Printable E P := by
  have hrows : ∀ rel file, g.rowsAfter P r g.symbols rel = some file ∨ g.rowsAfter P r g.endpoints rel = some file →
      Printable E P (rel, file) := by
    intro rel file hfile
    unfold Ghost.rowsAfter at hfile
    by_cases hk : g.kept P r.mode r.tree rel = true
    · rw [if_pos hk, if_pos hk] at hfile
      exact h rel file hfile
    · rw [if_neg hk, if_neg hk, or_self] at hfile
      exact hr _ ((fileAt_eq_some r.tree.nodup).mp hfile)
  refine ⟨hrows, fun rel file hfile => ?_⟩
  unfold Ghost.after at hfile
  dsimp only at hfile
  rcases hfile with hfile | hfile
  · by_cases hp : 0 < r.published
    · rw [if_pos hp] at hfile
      exact hrows rel file (Or.inl hfile)
    · rw [if_neg hp] at hfile
      exact h rel file (Or.inl hfile)
  · by_cases hp : 1 < r.published
    · rw [if_pos hp] at hfile
      exact hrows rel file (Or.inr hfile)
    · rw [if_neg hp] at hfile
      exact h rel file (Or.inr hfile)

theorem step_isOk {hP : P.Quiet} {d : Disk} {g : Ghost} (h : Inv E hP d g) (hg : g.Printable E P) {r : Run}
    (hr : ∀ p ∈ r.tree.files, Printable E P p) : ∃ d', step E P d r = .ok d' := by
  obtain ⟨symbols, endpoints, hsymbols, hendpoints, heq⟩ := step_eq h r
  have hrows := (printable_after hg hr).1
  obtain ⟨a, ha⟩ := jsonlText_isOk (printable_of hsymbols.2 fun rel file hfile =>
    (hrows rel file (Or.inl hfile)).symbols)
  obtain ⟨b, hb⟩ := jsonlText_isOk (printable_of hendpoints.2 fun rel file hfile =>
    (hrows rel file (Or.inr hfile)).endpoints)
  obtain ⟨c, hc⟩ := fileText_eq_ok E (printable_indexState hr (fun p => recorded P (g.entries p.1) r.mode p.2) r.now)
  exact ⟨publish d a b c r.published, by rw [heq, write, ha, hb, hc]; rfl⟩

/-- **No run fails.** -/
theorem run_isOk {hP : P.Quiet} {rs : List Run} (hrs : ∀ r ∈ rs, ∀ p ∈ r.tree.files, Printable E P p) {d : Disk}
    {g : Ghost} (h : Inv E hP d g) (hg : g.Printable E P) : ∃ d', run (step E P) d rs = .ok d' := by
  induction rs generalizing d g with
  | nil => exact ⟨d, rfl⟩
  | cons r rs ih =>
    rw [List.forall_mem_cons] at hrs
    obtain ⟨u, hu⟩ := step_isOk h hg hrs.1
    obtain ⟨d', hd'⟩ := ih hrs.2 (step_inv h hu) (printable_after hg hrs.1).2
    exact ⟨d', run_cons.mpr ⟨u, hu, hd'⟩⟩

end ControlPlane.Index.Runs
