import ControlPlane.Environment
import ControlPlane.Lib.Runs
import ControlPlane.Instance

/-! # The memory store

The durable store of memories is a table of an SQLite database (`Table`): a row has the text of the
record and the columns that are read off it (`payload`), and no two rows have one identifier. A method
is one transaction: it changes the table as a whole, or it raises and leaves the table as it is.

`listRecords` reads the rows in the order of their time of creation. In a table that the methods built
every row is the row of a record (`held_run`), so that none is passed over (`listRecords_held`). -/

namespace ControlPlane.Memory.Store

open ControlPlane.Lib.Value ControlPlane.Lib.Print ControlPlane.Lib.Floats ControlPlane.Lib.Dumps
open ControlPlane.Lib.Dynamic ControlPlane.Lib.Text ControlPlane.Lib.Runs ControlPlane.Environment

/-! ### Records and rows -/

/-- A record: an object no part of which has a key twice. -/
structure Record (F : Type) where
  entries : Dict F
  wellFormed : wellFormed (.obj entries) = true
  deriving DecidableEq

/-- A row of the table of memories. -/
structure Row (F : Type) where
  id : String
  type : String
  createdAt : String
  verifiedAt : String
  confidence : F
  recordJson : String
  deriving DecidableEq

/-- Why a method raises: an error of the conversions, a missing key, or a constraint of the table. -/
inductive Failure where
  | raised (e : Exn)
  | keyError (key : String)
  | attributeError (msg : String)
  | integrityError (msg : String)
  deriving DecidableEq

variable {F : Type} (E : Env F)

/-- An error of the conversions. -/
def lift {α : Type} (x : Py α) : Except Failure α := x.mapError .raised

@[simp] theorem lift_eq_ok {α : Type} {x : Py α} {a : α} : lift x = .ok a ↔ x = .ok a := by
  cases x <;> simp [lift, Except.mapError]

/-- `_payload`: the row of a record. -/
def payload (record : Record F) : Except Failure (Row F) :=
  match lookup "id" record.entries with
  | none => .error (.keyError "id")
  | some key => lift do
    let id ← E.str key
    let type ← E.strOr record.entries "type" "pattern"
    let createdAt ← E.strOr record.entries "created_at" ""
    let verifiedAt ← E.str ((lookup "verified_at" record.entries).getD
      ((lookup "created_at" record.entries).getD (.str "")))
    let confidence ← E.toFloat ((lookup "confidence" record.entries).getD (.float (E.T.ofRat 0)))
    let recordJson ← jsonDumps E.T (spaced false) (sortKeys (.obj record.entries))
    return ⟨id, type, createdAt, verifiedAt, confidence, recordJson⟩

/-! ### The table -/

/-- The table of memories: `id` is its primary key. -/
structure Table (F : Type) where
  rows : List (Row F)
  nodup : (rows.map Row.id).Nodup
  deriving DecidableEq

/-- The table of a new database. -/
def empty : Table F := ⟨[], List.nodup_nil⟩

/-- A row with this identifier is there. -/
def Table.has (t : Table F) (id : String) : Bool := t.rows.any fun row => row.id == id

theorem Table.has_eq_false {t : Table F} {id : String} :
    t.has id = false ↔ id ∉ t.rows.map Row.id := by
  unfold Table.has
  rw [List.any_eq_false]
  simp

/-- The database takes a NaN for NULL, and the column must not be NULL. -/
def isNull (x : F) : Bool := E.T.view x == .nan

/-- The table with one more row. -/
def Table.push (t : Table F) (row : Row F) (h : t.has row.id = false) : Table F where
  rows := t.rows ++ [row]
  nodup := by
    rw [List.map_append, List.nodup_append]
    refine ⟨t.nodup, by simp, fun a ha b hb => ?_⟩
    rw [List.map_singleton, List.mem_singleton] at hb
    rintro rfl
    exact Table.has_eq_false.mp h (hb ▸ ha)

/-- `INSERT INTO memories`. -/
def insertRow (t : Table F) (row : Row F) : Except Failure (Table F) :=
  if isNull E row.confidence then
    .error (.integrityError "NOT NULL constraint failed: memories.confidence")
  else if h : t.has row.id = false then .ok (t.push row h)
  else .error (.integrityError "UNIQUE constraint failed: memories.id")

/-- `INSERT OR IGNORE INTO memories`, with the number of rows inserted. -/
def insertOrIgnore (t : Table F) (row : Row F) : Table F × ℕ :=
  if isNull E row.confidence then (t, 0)
  else if h : t.has row.id = false then (t.push row h, 1) else (t, 0)

/-- The row in the place of the one with its identifier. -/
def Table.update (t : Table F) (row : Row F) : Table F where
  rows := t.rows.map fun old => if old.id = row.id then row else old
  nodup := by
    have h : ((t.rows.map fun old => if old.id = row.id then row else old).map Row.id) =
        t.rows.map Row.id := by
      rw [List.map_map]
      refine List.map_congr_left fun old _ => ?_
      dsimp only [Function.comp]
      split_ifs with h
      · exact h.symm
      · rfl
    rw [h]
    exact t.nodup

/-- `INSERT INTO memories ... ON CONFLICT(id) DO UPDATE`. -/
def upsertRow (t : Table F) (row : Row F) : Except Failure (Table F) :=
  if isNull E row.confidence then
    .error (.integrityError "NOT NULL constraint failed: memories.confidence")
  else if h : t.has row.id = false then .ok (t.push row h) else .ok (t.update row)

/-- Inserts rows in turn. -/
def insertRows (t : Table F) : List (Row F) → Except Failure (Table F)
  | [] => .ok t
  | row :: rows => do
    let t ← insertRow E t row
    insertRows t rows

/-- The rows of some records. -/
def payloads : List (Record F) → Except Failure (List (Row F))
  | [] => .ok []
  | record :: records => do
    let row ← payload E record
    let rows ← payloads records
    return row :: rows

/-! ### Reading texts -/

/-- Which texts that are no JSON document make the decoder stop at an integer of too many digits,
before it comes to the fault. -/
abbrev Overlong := String → Bool

variable (overlong : Overlong)

/-- `json.loads` of a text, kept if it denotes an object; a decode error passes the text over. -/
def readRecord (text : String) : Py (Option (Record F)) :=
  match h : E.jsonLoads text with
  | .ok (.obj d) => .ok (some ⟨d, wellFormed_jsonLoads E h⟩)
  | .ok _ => .ok none
  | .error (.jsonDecodeError _) =>
    if overlong text then .error (.valueError digitsMsg) else .ok none
  | .error e => .error e

/-- The records of some texts, in turn. -/
def readRecords : List String → Py (List (Record F))
  | [] => .ok []
  | text :: texts => do
    let record ← readRecord E overlong text
    let records ← readRecords texts
    return record.toList ++ records

/-! ### The methods -/

/-- The order in which rows are listed. -/
def rowLE (a b : Row F) : Prop := a.createdAt < b.createdAt ∨ (a.createdAt = b.createdAt ∧ a.id ≤ b.id)

instance : DecidableRel (rowLE (F := F)) := fun _ _ => inferInstanceAs (Decidable (_ ∨ _))

/-- `SELECT record_json FROM memories ORDER BY created_at ASC, id ASC`. -/
def Table.texts (t : Table F) : List String := (t.rows.insertionSort rowLE).map Row.recordJson

/-- `list_records`. -/
def listRecords (t : Table F) : Py (List (Record F)) := readRecords E overlong t.texts

/-- `insert`. -/
def insert (t : Table F) (record : Record F) : Except Failure (Table F) := do
  let row ← payload E record
  insertRow E t row

/-- `upsert`. -/
def upsert (t : Table F) (record : Record F) : Except Failure (Table F) := do
  let row ← payload E record
  upsertRow E t row

/-- `replace_all`: deletes every row and inserts those of the records. -/
def replaceAll (records : List (Record F)) : Except Failure (Table F) := do
  let rows ← payloads E records
  insertRows E empty rows

/-- `record.get("id")` is true. -/
def hasId (record : Record F) : Bool := truthy E.T (getKey record.entries "id")

/-- `_read_jsonl`, of the text of the file. -/
def readJsonl (text : String) : Py (List (Record F)) := do
  let lines := (splitlines text.toList).map String.ofList
  let records ← readRecords E overlong (lines.filter fun line => strip line != "")
  return records.filter (hasId E)

/-- Inserts the records that are not there yet, and counts them. -/
def importRecords (t : Table F) (inserted : ℕ) : List (Record F) → Except Failure (Table F × ℕ)
  | [] => .ok (t, inserted)
  | record :: records => do
    let row ← payload E record
    let (t, n) := insertOrIgnore E t row
    importRecords t (inserted + n) records

/-- `import_jsonl`, of the file's text if the file exists. -/
def importJsonl (source : Option String) (t : Table F) : Except Failure (Table F × ℕ) :=
  match source with
  | none => .ok (t, 0)
  | some text => do
    let records ← lift (readJsonl E overlong text)
    importRecords E t 0 records

/-- The line of a record in an exported file. -/
def exportLine (record : Record F) : Py String := do
  let line ← jsonDumps E.T (spaced false) (.obj record.entries)
  return String.ofList (line.toList ++ ['\n'])

/-- The lines of some records, one after the other. -/
def exportLines : List (Record F) → Py String
  | [] => .ok ""
  | record :: records => do
    let line ← exportLine E record
    let lines ← exportLines records
    return String.ofList (line.toList ++ lines.toList)

/-- `export_jsonl`: the text that it writes. -/
def exportJsonl (t : Table F) : Py String := do
  let records ← listRecords E overlong t
  exportLines E records

/-! ### Runs -/

/-- A call of a method that changes the table. -/
inductive Op (F : Type) where
  | insert (record : Record F)
  | upsert (record : Record F)
  | replaceAll (records : List (Record F))
  | importJsonl (source : Option String)

/-- A call that succeeds; one that raises changes nothing. -/
def step (t : Table F) : Op F → Except Failure (Table F)
  | .insert record => insert E t record
  | .upsert record => upsert E t record
  | .replaceAll records => replaceAll E records
  | .importJsonl source => (importJsonl E overlong source t).map Prod.fst

/-! ### What the table holds -/

/-- Every row is the row of a record, with a number for its confidence. -/
def Held (t : Table F) : Prop :=
  ∀ row ∈ t.rows, isNull E row.confidence = false ∧ ∃ record, payload E record = .ok row

variable {E overlong}

theorem held_empty : Held E (empty : Table F) := by
  intro row h
  cases h

theorem held_push {t : Table F} {row : Row F} {h : t.has row.id = false} (ht : Held E t)
    (hn : isNull E row.confidence = false) (hp : ∃ record, payload E record = .ok row) :
    Held E (t.push row h) := by
  intro r hr
  rcases List.mem_append.mp hr with hr | hr
  · exact ht r hr
  · rw [List.mem_singleton.mp hr]
    exact ⟨hn, hp⟩

theorem insertRow_eq_ok {t t' : Table F} {row : Row F} (h : insertRow E t row = .ok t') :
    isNull E row.confidence = false ∧ ∃ hf : t.has row.id = false, t' = t.push row hf := by
  unfold insertRow at h
  split_ifs at h with hn hf
  cases h
  exact ⟨by simpa using hn, hf, rfl⟩

theorem held_insertRow {t t' : Table F} {row : Row F} (ht : Held E t)
    (hp : ∃ record, payload E record = .ok row) (h : insertRow E t row = .ok t') : Held E t' := by
  obtain ⟨hn, hf, rfl⟩ := insertRow_eq_ok h
  exact held_push ht hn hp

theorem held_insertRows {rows : List (Row F)} : ∀ {t t' : Table F}, Held E t →
    (∀ row ∈ rows, ∃ record, payload E record = .ok row) → insertRows E t rows = .ok t' →
    Held E t' := by
  induction rows with
  | nil =>
    intro t t' ht _ h
    cases h
    exact ht
  | cons row rows ih =>
    intro t t' ht hp h
    obtain ⟨u, hu, h⟩ := bind_eq_ok.mp h
    rw [List.forall_mem_cons] at hp
    exact ih (held_insertRow ht hp.1 hu) hp.2 h

theorem payloads_eq_ok {records : List (Record F)} {rows : List (Row F)} :
    payloads E records = .ok rows ↔
      List.Forall₂ (fun record row => payload E record = .ok row) records rows := by
  induction records generalizing rows with
  | nil =>
    rw [List.forall₂_nil_left_iff, payloads, Except.ok.injEq, eq_comm]
  | cons record records ih =>
    rw [payloads, bind_eq_ok, List.forall₂_cons_left_iff]
    constructor
    · rintro ⟨row, hr, h⟩
      obtain ⟨rest, hrest, h⟩ := bind_eq_ok.mp h
      cases h
      exact ⟨row, rest, hr, ih.mp hrest, rfl⟩
    · rintro ⟨row, rest, hr, hrest, rfl⟩
      exact ⟨row, hr, bind_eq_ok.mpr ⟨rest, ih.mpr hrest, rfl⟩⟩

theorem mem_payloads {records : List (Record F)} {rows : List (Row F)}
    (h : payloads E records = .ok rows) {record : Record F} (hr : record ∈ records) :
    ∃ row ∈ rows, payload E record = .ok row := by
  have hf := payloads_eq_ok.mp h
  clear h
  induction hf with
  | nil => cases hr
  | cons hp _ ih =>
    rcases List.mem_cons.mp hr with rfl | hr
    · exact ⟨_, by simp, hp⟩
    · obtain ⟨row, hrow, hp⟩ := ih hr
      exact ⟨row, List.mem_cons_of_mem _ hrow, hp⟩

theorem exists_of_payloads {records : List (Record F)} {rows : List (Row F)}
    (h : payloads E records = .ok rows) : ∀ row ∈ rows, ∃ record, payload E record = .ok row := by
  have hf := payloads_eq_ok.mp h
  induction hf with
  | nil => simp
  | cons hr hf ih =>
    exact List.forall_mem_cons.mpr ⟨⟨_, hr⟩, ih (payloads_eq_ok.mpr hf)⟩

theorem held_insertOrIgnore {t : Table F} {row : Row F} (ht : Held E t)
    (hp : ∃ record, payload E record = .ok row) : Held E (insertOrIgnore E t row).1 := by
  unfold insertOrIgnore
  split_ifs with hn hf
  · exact ht
  · exact held_push (h := hf) ht (by simpa using hn) hp
  · exact ht

theorem held_importRecords {records : List (Record F)} : ∀ {t t' : Table F} {n n' : ℕ}, Held E t →
    importRecords E t n records = .ok (t', n') → Held E t' := by
  induction records with
  | nil =>
    intro t t' n n' ht h
    cases h
    exact ht
  | cons record records ih =>
    intro t t' n n' ht h
    obtain ⟨row, hr, h⟩ := bind_eq_ok.mp h
    exact ih (held_insertOrIgnore ht ⟨record, hr⟩) h

theorem held_upsertRow {t t' : Table F} {row : Row F} (ht : Held E t)
    (hp : ∃ record, payload E record = .ok row) (h : upsertRow E t row = .ok t') : Held E t' := by
  unfold upsertRow at h
  split_ifs at h with hn hf
  · cases h
    exact held_push ht (by simpa using hn) hp
  · cases h
    intro r hr
    obtain ⟨old, ho, rfl⟩ := List.mem_map.mp hr
    split_ifs
    · exact ⟨by simpa using hn, hp⟩
    · exact ht old ho

theorem held_step {t t' : Table F} {op : Op F} (ht : Held E t)
    (h : step E overlong t op = .ok t') : Held E t' := by
  cases op with
  | insert record =>
    obtain ⟨row, hr, h⟩ := bind_eq_ok.mp h
    exact held_insertRow ht ⟨record, hr⟩ h
  | upsert record =>
    obtain ⟨row, hr, h⟩ := bind_eq_ok.mp h
    exact held_upsertRow ht ⟨record, hr⟩ h
  | replaceAll records =>
    obtain ⟨rows, hr, h⟩ := bind_eq_ok.mp h
    exact held_insertRows held_empty (exists_of_payloads hr) h
  | importJsonl source =>
    cases source with
    | none =>
      cases h
      exact ht
    | some text =>
      cases hi : importJsonl E overlong (some text) t with
      | error e => simp [step, hi, Except.map] at h
      | ok p =>
        obtain ⟨records, -, hp⟩ := bind_eq_ok.mp hi
        have hpt : p.1 = t' := by simpa [step, hi, Except.map] using h
        exact hpt ▸ @held_importRecords F E records t p.1 0 p.2 ht hp

/-- **In a table that the methods built, every row is the row of a record.** -/
theorem held_run {ops : List (Op F)} {t : Table F} (h : run (step E overlong) empty ops = .ok t) :
    Held E t :=
  run_induct (fun _ _ _ => held_step) held_empty h

/-! ### The row of a record -/

/-- The record with its keys in order, as a text of it reads. -/
def Record.sorted (r : Record F) : Record F where
  entries := sortDict r.entries
  wellFormed := by
    have h := r.wellFormed
    rwa [← wellFormed_sortKeys, sortKeys_obj'] at h

theorem Record.ext_entries {r s : Record F} (h : r.entries = s.entries) : r = s := by
  cases r
  cases s
  cases h
  rfl

@[simp] theorem Record.sorted_sorted (r : Record F) : r.sorted.sorted = r.sorted :=
  Record.ext_entries (sortDict_sortDict r.entries)

theorem Record.nodup (r : Record F) : (keys r.entries).Nodup :=
  ((wellFormed_obj _).mp r.wellFormed).1

theorem lookup_sorted (r : Record F) (k : String) :
    lookup k r.sorted.entries = (lookup k r.entries).map sortKeys :=
  lookup_sortDict r.nodup k

/-- The text of a record. -/
def recordText (r : Record F) : String :=
  String.ofList (print E.T.toFloatText (spaced false) 0 (.obj r.sorted.entries))

/-- The parts of a row. -/
theorem payload_eq_ok {r : Record F} {row : Row F} (h : payload E r = .ok row) :
    printable E.T.toFloatText true (.obj r.entries) = true ∧
      (∃ key, lookup "id" r.entries = some key ∧ E.str key = .ok row.id) ∧
      E.toFloat ((lookup "confidence" r.entries).getD (.float (E.T.ofRat 0))) = .ok row.confidence ∧
      row.recordJson = recordText (E := E) r := by
  unfold payload at h
  cases hk : lookup "id" r.entries with
  | none =>
    rw [hk] at h
    cases h
  | some key =>
    rw [hk] at h
    simp only [lift_eq_ok, bind_eq_ok] at h
    obtain ⟨id, hid, type, -, created, -, verified, -, confidence, hc, text, ht, h⟩ := h
    cases h
    obtain ⟨hp, rfl⟩ := (jsonDumps_eq_ok E.T).mp ht
    rw [printable_sortKeys] at hp
    refine ⟨hp, ⟨key, rfl, hid⟩, hc, ?_⟩
    rw [sortKeys_obj']
    rfl

theorem readRecord_eq_some {text : String} {r : Record F} :
    readRecord E overlong text = .ok (some r) ↔ E.jsonLoads text = .ok (.obj r.entries) := by
  unfold readRecord
  split
  · next d h =>
    constructor
    · intro hr
      cases hr
      exact h
    · intro hr
      have he := h.symm.trans hr
      rw [Except.ok.injEq, Json.obj.injEq] at he
      exact congrArg (Except.ok ∘ some) (Record.ext_entries he)
  · next v hv h =>
    constructor
    · intro hr
      cases hr
    · intro hr
      have he := h.symm.trans hr
      rw [Except.ok.injEq] at he
      exact absurd he (hv _)
  · next h =>
    rw [h]
    split_ifs <;> simp
  · next h =>
    rw [h]
    simp

theorem readRecord_text {r : Record F} (hp : printable E.T.toFloatText true (.obj r.entries) = true) :
    readRecord E overlong (recordText (E := E) r) = .ok (some r.sorted) := by
  have hp' : printable E.T.toFloatText true (.obj r.sorted.entries) = true := by
    rw [← printable_sortKeys, sortKeys_obj'] at hp
    exact hp
  have hd : dumps E.T.toFloatText (spaced false) true (.obj r.sorted.entries) =
      some (recordText (E := E) r) := dumps_eq_some.mpr ⟨hp', rfl⟩
  have hl := loads_dumps r.sorted.wellFormed hd (b := []) (by simp)
  rw [List.append_nil, String.ofList_toList] at hl
  exact readRecord_eq_some.mpr ((jsonLoads_eq_ok E).mpr hl)

/-! ### Listing -/

theorem readRecords_map {α : Type} {f : α → String} {g : α → Record F} {xs : List α}
    (h : ∀ x ∈ xs, readRecord E overlong (f x) = .ok (some (g x))) :
    readRecords E overlong (xs.map f) = .ok (xs.map g) := by
  induction xs with
  | nil => rfl
  | cons x xs ih =>
    rw [List.forall_mem_cons] at h
    rw [List.map_cons, readRecords, h.1, ih h.2]
    rfl

theorem readRecords_append {a b : List String} {records : List (Record F)} :
    readRecords E overlong (a ++ b) = .ok records ↔ ∃ x y, readRecords E overlong a = .ok x ∧
      readRecords E overlong b = .ok y ∧ records = x ++ y := by
  induction a generalizing records with
  | nil => simp [readRecords]
  | cons text a ih =>
    rw [List.cons_append, readRecords, readRecords]
    simp only [bind_eq_ok]
    constructor
    · rintro ⟨r, hr, rest, hrest, h⟩
      cases h
      obtain ⟨x, y, hx, hy, rfl⟩ := ih.mp hrest
      exact ⟨r.toList ++ x, y, ⟨r, hr, x, hx, rfl⟩, hy, by simp⟩
    · rintro ⟨_, y, ⟨r, hr, x, hx, h⟩, hy, rfl⟩
      cases h
      exact ⟨r, hr, x ++ y, ih.mpr ⟨x, y, hx, hy, rfl⟩, by simp [pure, Except.pure]⟩

theorem length_readRecords {texts : List String} {records : List (Record F)}
    (h : readRecords E overlong texts = .ok records) : records.length ≤ texts.length := by
  induction texts generalizing records with
  | nil =>
    cases h
    exact le_rfl
  | cons text texts ih =>
    obtain ⟨r, -, h⟩ := bind_eq_ok.mp h
    obtain ⟨rest, hrest, h⟩ := bind_eq_ok.mp h
    cases h
    have hl := ih hrest
    have hr : r.toList.length ≤ 1 := by cases r <;> simp
    rw [List.length_append, List.length_cons]
    omega

theorem mem_readRecords {texts : List String} {records : List (Record F)}
    (h : readRecords E overlong texts = .ok records) {r : Record F} (hr : r ∈ records) :
    ∃ text ∈ texts, readRecord E overlong text = .ok (some r) := by
  induction texts generalizing records with
  | nil =>
    cases h
    cases hr
  | cons text texts ih =>
    obtain ⟨o, ho, h⟩ := bind_eq_ok.mp h
    obtain ⟨rest, hrest, h⟩ := bind_eq_ok.mp h
    cases h
    rcases List.mem_append.mp hr with hr | hr
    · rw [Option.mem_toList] at hr
      exact ⟨text, by simp, hr ▸ ho⟩
    · obtain ⟨u, hu, hread⟩ := ih hrest hr
      exact ⟨u, List.mem_cons_of_mem _ hu, hread⟩

theorem mem_of_readRecords {texts : List String} {records : List (Record F)}
    (h : readRecords E overlong texts = .ok records) {text : String} (ht : text ∈ texts)
    {r : Record F} (hr : readRecord E overlong text = .ok (some r)) : r ∈ records := by
  induction texts generalizing records with
  | nil => cases ht
  | cons text' texts ih =>
    obtain ⟨o, ho, h⟩ := bind_eq_ok.mp h
    obtain ⟨rest, hrest, h⟩ := bind_eq_ok.mp h
    cases h
    rcases List.mem_cons.mp ht with rfl | ht
    · rw [hr, Except.ok.injEq] at ho
      subst ho
      simp
    · exact List.mem_append_right _ (ih hrest ht)

variable (E overlong) in
/-- The record that a text denotes. -/
def recordAt (text : String) : Record F :=
  match readRecord E overlong text with
  | .ok (some r) => r
  | _ => ⟨[], by simp [keys]⟩

theorem readRecord_held {t : Table F} (h : Held E t) {text : String} (ht : text ∈ t.rows.map Row.recordJson) :
    readRecord E overlong text = .ok (some (recordAt E overlong text)) := by
  obtain ⟨row, hr, rfl⟩ := List.mem_map.mp ht
  obtain ⟨-, r, hp⟩ := h row hr
  obtain ⟨hpr, -, -, hj⟩ := payload_eq_ok hp
  have hread := @readRecord_text F E overlong r hpr
  rw [← hj] at hread
  rw [recordAt, hread]

theorem perm_texts (t : Table F) : t.texts.Perm (t.rows.map Row.recordJson) :=
  (List.perm_insertionSort _ _).map _

/-- **A table that the methods built is listed**, with one record for every row. -/
theorem listRecords_held {t : Table F} (h : Held E t) :
    listRecords E overlong t = .ok (t.texts.map (recordAt E overlong)) := by
  have hm := @readRecords_map F E overlong String id (recordAt E overlong) t.texts
    fun text ht => readRecord_held h ((perm_texts t).mem_iff.mp ht)
  rwa [List.map_id] at hm

end ControlPlane.Memory.Store
