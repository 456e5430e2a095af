import ControlPlane.Environment
import ControlPlane.Lib.Lines
import ControlPlane.Lib.Phases
import ControlPlane.Lib.Incremental

/-! # The rows of an index

`parseFile` derives the symbol and endpoint rows of a source file; the parsers of Python, of symbols and of routes are
parameters. Rows are stored one to a line as JSON, and read back by a reader that cuts its text at every Unicode line
boundary and passes over what is no JSON text.

`readJsonl_jsonlText`: rows come back if no string in them holds a line boundary that JSON leaves as it is. The parsers
make no such string (`Parsers.Quiet`), so of the rows of a file only its name can hold one (`quiet_parseFile`). -/

namespace ControlPlane.Index.Rows

open ControlPlane.Lib.Value ControlPlane.Lib.Print ControlPlane.Lib.Text ControlPlane.Lib.Dumps
open ControlPlane.Lib ControlPlane.Lib.Dynamic ControlPlane.Lib.Phases ControlPlane.Lib.Incremental ControlPlane.Environment

variable {F : Type} (E : Env F)

/-! ### Source files -/

/-- A source file. -/
structure File where
  bytes : List UInt8
  mtimeNs : ℤ
  deriving DecidableEq

/-- A definition that `ast.parse` has found. -/
structure Definition where
  name : String
  line : ℕ
  endLine : ℕ
  isClass : Bool

/-- What the index takes from its platform. -/
structure Parsers where
  /-- `hashlib.sha256(data).hexdigest()`. -/
  sha256 : List UInt8 → String
  /-- `data.decode("utf-8", errors="replace")`. -/
  decode : List UInt8 → String
  /-- `path.suffix.lower() == ".py"`. -/
  isPython : String → Bool
  /-- The definitions of a text in the order of `ast.walk`; none, if it has a syntax error. -/
  definitions : String → Option (List Definition)
  /-- The symbol of the first expression of `SYMBOL_RES` that is found in a line. -/
  symbolIn : String → Option String
  /-- `_route_from_line`. -/
  routeFromLine : String → Option (String × String)

variable (P : Parsers)

/-- The order of `(row["line"], row["symbol"])`. -/
def Definition.le (d e : Definition) : Bool := decide (d.line < e.line ∨ (d.line = e.line ∧ d.name ≤ e.name))

def definitionRow (rel digest : String) (d : Definition) : Dict F :=
  [("symbol", .str d.name), ("file", .str rel), ("line", .int d.line), ("end_line", .int d.endLine),
    ("kind", .str (if d.isClass then "class" else "function")), ("parser", .str "python-ast"),
    ("sha256", .str digest)]

/-- `_python_symbols`. -/
def pythonSymbols (text rel digest : String) : Option (List (Dict F)) :=
  (P.definitions text).map fun ds => (ds.mergeSort Definition.le).map (definitionRow rel digest)

def symbolRow (rel digest symbol : String) (line : ℕ) : Dict F :=
  [("symbol", .str symbol), ("file", .str rel), ("line", .int line), ("parser", .str "regex"), ("sha256", .str digest)]

def endpointRow (rel digest : String) (route : String × String) (line : ℕ) : Dict F :=
  [("method", .str route.1), ("path", .str route.2), ("file", .str rel), ("line", .int line), ("parser", .str "regex"),
    ("sha256", .str digest)]

/-- The rows of some lines from number `line` on. -/
def lineRows {α : Type} (find : String → Option α) (row : α → ℕ → Dict F) (line : ℕ) : List String → List (Dict F)
  | [] => []
  | text :: lines => ((find text).map fun a => row a line).toList ++ lineRows find row (line + 1) lines

def linesOf (text : String) : List String := (splitlines text.toList).map String.ofList

/-- The symbol rows of `_parse_file`. -/
def symbolRows (rel : String) (file : File) : List (Dict F) :=
  let text := P.decode file.bytes
  let digest := P.sha256 file.bytes
  let found := lineRows P.symbolIn (symbolRow rel digest) 1 (linesOf text)
  if P.isPython rel then (pythonSymbols P text rel digest).getD found else found

/-- The endpoint rows of `_parse_file`. -/
def endpointRows (rel : String) (file : File) : List (Dict F) :=
  lineRows P.routeFromLine (endpointRow rel (P.sha256 file.bytes)) 1 (linesOf (P.decode file.bytes))

/-- `row.get("file")` of a row that has a text there. -/
def fileOf (row : Dict F) : Option String :=
  match getKey row "file" with
  | .str rel => some rel
  | _ => none

/-! ### Row files -/

/-- The text of `atomic_write_jsonl`. -/
def jsonlText : List (Dict F) → Py String
  | [] => .ok ""
  | row :: rows => do
    let line ← jsonDumps E.T (spaced false) (.obj row)
    let rest ← jsonlText rows
    return String.ofList (line.toList ++ '\n' :: rest.toList)

/-- The rows of some lines; a line that is no JSON text is passed over. -/
def readRows : List String → Py (List (Json F))
  | [] => .ok []
  | line :: lines =>
    if strip line = "" then readRows lines
    else match E.jsonLoads line with
      | .ok row => do return row :: (← readRows lines)
      | .error (.jsonDecodeError _) => readRows lines
      | .error e => .error e

/-- `read_jsonl`, and `_jsonl` of the context broker. -/
def readJsonl (text : Option String) : Py (List (Json F)) :=
  match text with
  | none => .ok []
  | some text => readRows E (linesOf text)

/-- No string in the row holds a line boundary that JSON leaves as it is. -/
def QuietRow (row : Dict F) : Prop := ∀ c ∈ chars (.obj row), ¬ RawBreak c

/-- A text without such line boundaries. -/
def Quiet (text : String) : Prop := ∀ c ∈ text.toList, ¬ RawBreak c

variable {E} {P}

/-! ### Reading back -/

theorem isBreak_of_quiet {row : Dict F} (h : QuietRow row) :
    ∀ c ∈ print E.T.toFloatText (spaced false) 0 (.obj row), isBreak c = false := by
  intro c hc
  by_contra hbreak
  rw [Bool.not_eq_false] at hbreak
  obtain ⟨d, hd, hraw⟩ := (break_print (T := E.T.toFloatText) (oneLine_spaced false) rfl (.obj row) 0).mp ⟨c, hc, hbreak⟩
  exact h d hd hraw

theorem strip_row (row : Dict F) : strip (String.ofList (print E.T.toFloatText (spaced false) 0 (.obj row))) ≠ "" := by
  have hhead : ∃ cs, print E.T.toFloatText (spaced false) 0 (.obj row) = '{' :: cs := by
    cases row with
    | nil => exact ⟨_, by rw [print]⟩
    | cons p d => exact ⟨_, by rw [print]⟩
  obtain ⟨cs, hcs⟩ := hhead
  intro hempty
  have hstrip := @head?_strip (String.ofList (print E.T.toFloatText (spaced false) 0 (.obj row))) '{' cs
    (by rw [String.toList_ofList, hcs]) (by decide)
  rw [hempty] at hstrip
  cases hstrip

/-- **Rows come back** from their file. -/
theorem readJsonl_jsonlText : ∀ {rows : List (Dict F)} {text : String}, (∀ row ∈ rows, QuietRow row) →
    (∀ row ∈ rows, wellFormed (.obj row) = true) → jsonlText E rows = .ok text →
    readJsonl E (some text) = .ok (rows.map .obj)
  | [], text, _, _, h => by
    rw [jsonlText, Except.ok.injEq] at h
    subst h
    rfl
  | row :: rows, text, hquiet, hwf, h => by
    rw [List.forall_mem_cons] at hquiet hwf
    rw [jsonlText] at h
    obtain ⟨line, hline, h⟩ := bind_eq_ok.mp h
    obtain ⟨rest, hrest, h⟩ := bind_eq_ok.mp h
    rw [← Except.ok.inj h]
    have hback := readJsonl_jsonlText hquiet.2 hwf.2 hrest
    obtain ⟨hprint, rfl⟩ := (jsonDumps_eq_ok E.T).mp hline
    have hloads : E.jsonLoads (String.ofList (print E.T.toFloatText (spaced false) 0 (.obj row))) = .ok (.obj row) := by
      have hdumps : dumps E.T.toFloatText (spaced false) true (.obj row) = some _ := dumps_eq_some.mpr ⟨hprint, rfl⟩
      have hl := loads_dumps hwf.1 hdumps (b := []) (by simp)
      rw [List.append_nil, String.ofList_toList] at hl
      exact (jsonLoads_eq_ok E).mpr hl
    unfold readJsonl at hback ⊢
    dsimp only at hback ⊢
    rw [linesOf, String.toList_ofList, String.toList_ofList, splitlines_append (isBreak_of_quiet hquiet.1),
      List.map_cons, readRows, if_neg (strip_row row), hloads]
    change (readRows E (linesOf rest) >>= fun rows => pure (Json.obj row :: rows)) = _
    rw [hback]
    rfl

/-! ### What is parsed -/

/-- The parsers find no text with a line boundary: names are identifiers, and a symbol or a route is on one line. -/
structure Parsers.Quiet (P : Parsers) : Prop where
  sha256 : ∀ data, Rows.Quiet (P.sha256 data)
  definitions : ∀ text ds, P.definitions text = some ds → ∀ d ∈ ds, Rows.Quiet d.name
  symbolIn : ∀ line symbol, (∀ c ∈ line.toList, isBreak c = false) → P.symbolIn line = some symbol → Rows.Quiet symbol
  routeFromLine : ∀ line route, (∀ c ∈ line.toList, isBreak c = false) → P.routeFromLine line = some route →
    Rows.Quiet route.1 ∧ Rows.Quiet route.2

theorem quiet_literal {text : String} (h : (text.toList.all fun c => c.toNat < 0x80) = true) : Quiet text := by
  intro c hc hraw
  have hsmall := List.all_eq_true.mp h c hc
  unfold RawBreak at hraw
  simp only [decide_eq_true_eq] at hsmall
  omega

/-- The strings of a row of texts and numbers. -/
theorem quietRow_iff {row : Dict F} (hflat : ∀ p ∈ row, (∃ text, p.2 = .str text) ∨ ∃ n, p.2 = .int n) :
    QuietRow row ↔ ∀ p ∈ row, Quiet p.1 ∧ ∀ text, p.2 = .str text → Quiet text := by
  have hchars : ∀ row : Dict F, chars (.obj row) = row.flatMap fun p => p.1.toList ++ chars p.2 := by
    intro row
    rw [chars]
    induction row with
    | nil => rfl
    | cons p row ih => rw [charsDict, ih, List.flatMap_cons, List.append_assoc]
  unfold QuietRow
  rw [hchars]
  constructor
  · intro h p hp
    refine ⟨fun c hc => h c (List.mem_flatMap.mpr ⟨p, hp, List.mem_append_left _ hc⟩), fun text htext c hc => ?_⟩
    refine h c (List.mem_flatMap.mpr ⟨p, hp, List.mem_append_right _ ?_⟩)
    rw [htext, chars]
    exact hc
  · intro h c hc
    obtain ⟨p, hp, hmem⟩ := List.mem_flatMap.mp hc
    rcases List.mem_append.mp hmem with hkey | hvalue
    · exact (h p hp).1 c hkey
    · rcases hflat p hp with ⟨text, htext⟩ | ⟨n, hn⟩
      · rw [htext, chars] at hvalue
        exact (h p hp).2 text htext c hvalue
      · have hnone : chars (.int n : Json F) = [] := by simp [chars]
        rw [hn, hnone] at hvalue
        exact absurd hvalue List.not_mem_nil

/-- A row that an index may hold. -/
structure RowOf (rel : String) (row : Dict F) : Prop where
  file : fileOf row = some rel
  quiet : Rows.Quiet rel → QuietRow row
  wellFormed : wellFormed (.obj row) = true

theorem rowOf_definition (hP : P.Quiet) {rel : String} {data : List UInt8} {d : Definition} (hd : Quiet d.name) :
    RowOf rel (definitionRow rel (P.sha256 data) d : Dict F) := by
  refine ⟨rfl, fun hrel => ?_, by simp [definitionRow, keys]⟩
  have hkind : Quiet (if d.isClass then "class" else "function") := by
    by_cases h : d.isClass = true
    · rw [if_pos h]
      exact quiet_literal (by decide)
    · rw [if_neg h]
      exact quiet_literal (by decide)
  rw [quietRow_iff (by simp [definitionRow])]
  simp only [definitionRow, List.forall_mem_cons, List.not_mem_nil, false_implies, implies_true, and_true, Json.str.injEq,
    forall_eq', reduceCtorEq]
  exact ⟨⟨quiet_literal (by decide), hd⟩, ⟨quiet_literal (by decide), hrel⟩, quiet_literal (by decide),
    quiet_literal (by decide), ⟨quiet_literal (by decide), hkind⟩, ⟨quiet_literal (by decide), quiet_literal (by decide)⟩,
    quiet_literal (by decide), hP.sha256 data⟩

theorem rowOf_symbol (hP : P.Quiet) {rel : String} {data : List UInt8} {symbol : String} (hs : Quiet symbol) (line : ℕ) :
    RowOf rel (symbolRow rel (P.sha256 data) symbol line : Dict F) := by
  refine ⟨rfl, fun hrel => ?_, by simp [symbolRow, keys]⟩
  rw [quietRow_iff (by simp [symbolRow])]
  simp only [symbolRow, List.forall_mem_cons, List.not_mem_nil, false_implies, implies_true, and_true, Json.str.injEq,
    forall_eq', reduceCtorEq]
  exact ⟨⟨quiet_literal (by decide), hs⟩, ⟨quiet_literal (by decide), hrel⟩, quiet_literal (by decide),
    ⟨quiet_literal (by decide), quiet_literal (by decide)⟩, quiet_literal (by decide), hP.sha256 data⟩

theorem rowOf_endpoint (hP : P.Quiet) {rel : String} {data : List UInt8} {route : String × String}
    (hr : Quiet route.1 ∧ Quiet route.2) (line : ℕ) : RowOf rel (endpointRow rel (P.sha256 data) route line : Dict F) := by
  refine ⟨rfl, fun hrel => ?_, by simp [endpointRow, keys]⟩
  rw [quietRow_iff (by simp [endpointRow])]
  simp only [endpointRow, List.forall_mem_cons, List.not_mem_nil, false_implies, implies_true, and_true, Json.str.injEq,
    forall_eq', reduceCtorEq]
  exact ⟨⟨quiet_literal (by decide), hr.1⟩, ⟨quiet_literal (by decide), hr.2⟩, ⟨quiet_literal (by decide), hrel⟩,
    quiet_literal (by decide), ⟨quiet_literal (by decide), quiet_literal (by decide)⟩, quiet_literal (by decide),
    hP.sha256 data⟩

theorem rowOf_lineRows {α : Type} {find : String → Option α} {row : α → ℕ → Dict F} {rel : String} :
    ∀ {lines : List String} {line : ℕ}, (∀ text ∈ lines, ∀ a line, find text = some a → RowOf rel (row a line)) →
    ∀ r ∈ lineRows find row line lines, RowOf rel r
  | [], _, _, r, hr => absurd hr List.not_mem_nil
  | text :: lines, line, h, r, hr => by
    rw [List.forall_mem_cons] at h
    rw [lineRows, List.mem_append] at hr
    rcases hr with hr | hr
    · rw [Option.mem_toList, Option.map_eq_some_iff] at hr
      obtain ⟨a, ha, rfl⟩ := hr
      exact h.1 a line ha
    · exact rowOf_lineRows h.2 r hr

theorem isBreak_linesOf {text line : String} (h : line ∈ linesOf text) : ∀ c ∈ line.toList, isBreak c = false := by
  obtain ⟨cs, hcs, rfl⟩ := List.mem_map.mp h
  rw [String.toList_ofList]
  exact Lines.mem_splitlines _ le_rfl cs hcs

/-- **The rows of a file** have its name, and are quiet if the name is. -/
theorem rowOf_symbolRows (hP : P.Quiet) {rel : String} {file : File} :
    ∀ row ∈ (symbolRows P rel file : List (Dict F)), RowOf rel row := by
  have hfound : ∀ row ∈ (lineRows P.symbolIn (symbolRow rel (P.sha256 file.bytes)) 1 (linesOf (P.decode file.bytes)) :
      List (Dict F)), RowOf rel row :=
    rowOf_lineRows fun text htext symbol line hs =>
      rowOf_symbol hP (hP.symbolIn text symbol (isBreak_linesOf htext) hs) line
  intro row hrow
  unfold symbolRows at hrow
  dsimp only at hrow
  by_cases hpython : P.isPython rel = true
  · rw [if_pos hpython] at hrow
    unfold pythonSymbols at hrow
    cases hds : P.definitions (P.decode file.bytes) with
    | none =>
      rw [hds] at hrow
      exact hfound row hrow
    | some ds =>
      rw [hds, Option.map_some, Option.getD_some, List.mem_map] at hrow
      obtain ⟨d, hd, rfl⟩ := hrow
      exact rowOf_definition hP (hP.definitions _ ds hds d ((List.mergeSort_perm ds _).mem_iff.mp hd))
  · rw [if_neg hpython] at hrow
    exact hfound row hrow

theorem rowOf_endpointRows (hP : P.Quiet) {rel : String} {file : File} :
    ∀ row ∈ (endpointRows P rel file : List (Dict F)), RowOf rel row :=
  rowOf_lineRows fun text htext route line hr => rowOf_endpoint hP (hP.routeFromLine text route (isBreak_linesOf htext) hr) line

end ControlPlane.Index.Rows
