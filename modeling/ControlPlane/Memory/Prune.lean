import ControlPlane.Memory.Store

/-! # Adding and pruning memories at the same time

Any number of calls of `add_memory` and `prune_stale` work on one store, step by step and in any order
(`step`); files change and calls fail in between. An `add_memory` hashes its files one after the other
and then inserts its record in one transaction. A `prune_stale` lists the records in one transaction,
judges them file by file, and replaces the contents of the table by the records it keeps in another.

A record that is inserted between the two transactions of a `prune_stale` is deleted by the second
(`overtaken_lost`). If no insertion comes between them, a record whose files are as they were hashed
stays in the store, once, in every run (`present_run`): each step keeps that the row is there and that
every `prune_stale` under way is going to keep it (`Safe`). -/

namespace ControlPlane.Memory.Prune

open ControlPlane.Lib.Value ControlPlane.Lib.Print ControlPlane.Lib.Dumps ControlPlane.Lib.Dynamic
open ControlPlane.Lib.Text ControlPlane.Lib.Runs ControlPlane.Lib.Grid ControlPlane.Environment
open ControlPlane.Instance ControlPlane.Memory.Store

variable {F : Type} (E : Env F) (overlong : Overlong)

/-! ### Files -/

/-- What is at a path of the workspace. -/
inductive Content where
  | missing
  | other
  | unreadable
  | digest (hash : String)
  deriving DecidableEq

/-- What a path given by a caller or a record leads to: out of the workspace, or to nothing that can be
resolved; to an error that nobody catches; or to a path relative to the root. -/
inductive Source where
  | outside
  | raises (e : Exn)
  | found (rel : String) (content : Content)
  deriving DecidableEq

/-- The files at one time. -/
abbrev Files := String → Source

/-! ### `add_memory` -/

/-- The arguments of `add_memory`, with the tokens of its keywords, the time and the random digits. -/
structure AddArgs (F : Type) where
  type : String
  tokens : List String
  summary : String
  evidence : String
  files : List String
  confidence : F
  now : String
  uuid : String
  deriving DecidableEq

/-- The types of memories. -/
def memoryTypes : List String :=
  ["decision", "incident", "verified-fix", "architecture", "pattern", "optimization", "constraint"]

/-- `list(dict.fromkeys(xs))`. -/
def fromkeys (xs : List String) : List String :=
  xs.foldl (fun ys x => if ys.contains x then ys else ys ++ [x]) []

/-- `max(0.0, min(1.0, x))`. -/
def clamp (x : F) : F :=
  let one := E.T.ofRat 1
  let zero := E.T.ofRat 0
  let low := if (E.T.view x).lt (E.T.view one) then x else one
  if (E.T.view zero).lt (E.T.view low) then low else zero

/-- The related paths and the hashes of those that are files, as far as they have been read. -/
structure Hashing where
  related : List String
  hashes : List (String × String)
  deriving DecidableEq

/-- One round of the loop over the files. -/
def hashFile (files : Files) (raw : String) (h : Hashing) : Except Failure Hashing :=
  match files raw with
  | .outside => .error (.raised (.valueError ("memory file path must stay within workspace: " ++ raw)))
  | .raises e => .error (.raised e)
  | .found rel (.digest hash) => .ok ⟨h.related ++ [rel], h.hashes ++ [(rel, hash)]⟩
  | .found rel .missing => .ok ⟨h.related ++ [rel], h.hashes⟩
  | .found rel .other => .ok ⟨h.related ++ [rel], h.hashes⟩
  | .found rel .unreadable => .error (.raised (.osError rel))

/-- The hashes of a record, from those that were assigned in turn. -/
def hashDict (hashes : List (String × String)) : Dict F :=
  ofPairs (hashes.map fun p => (p.1, .str p.2))

/-- The entries of the record that `add_memory` stores. -/
def addEntries (args : AddArgs F) (h : Hashing) : Dict F :=
  [("id", .str ("mem-" ++ args.uuid)), ("type", .str args.type), ("created_at", .str args.now),
    ("verified_at", .str args.now), ("keywords", .arr ((fromkeys args.tokens).map .str)),
    ("summary", .str (strip args.summary)), ("evidence", .str (strip args.evidence)),
    ("files", .arr (h.related.map .str)), ("source_hashes", .obj (hashDict h.hashes)),
    ("confidence", .float (clamp E args.confidence))]

theorem wellFormed_strs (xs : List String) : wellFormed (.arr (xs.map .str) : Json F) = true := by
  rw [wellFormed_arr, List.forall_mem_map]
  exact fun _ _ => rfl

theorem wellFormed_hashDict (hashes : List (String × String)) :
    wellFormed (.obj (hashDict hashes) : Json F) = true := by
  refine (wellFormed_obj _).mpr ⟨nodup_keys_ofPairs _, fun p hp => ?_⟩
  obtain ⟨q, -, rfl⟩ := List.mem_map.mp (mem_ofPairs hp)
  rfl

/-- The record that `add_memory` stores. -/
def addRecord (args : AddArgs F) (h : Hashing) : Record F where
  entries := addEntries E args h
  wellFormed := by
    rw [wellFormed_obj]
    refine ⟨by simp [addEntries, keys], fun p hp => ?_⟩
    simp only [addEntries, List.mem_cons, List.not_mem_nil, or_false] at hp
    rcases hp with rfl | rfl | rfl | rfl | rfl | rfl | rfl | rfl | rfl | rfl
    · rfl
    · rfl
    · rfl
    · rfl
    · exact wellFormed_strs _
    · rfl
    · rfl
    · exact wellFormed_strs _
    · exact wellFormed_hashDict _
    · rfl

/-! ### `_stale` -/

/-- `x in container`. -/
def contains (container x : Json F) : Except Failure Bool :=
  match container, x with
  | .obj _, .arr _ => .error (.raised (.typeError "unhashable type: 'list'"))
  | .obj _, .obj _ => .error (.raised (.typeError "unhashable type: 'dict'"))
  | .obj d, .str s => .ok (lookup s d).isSome
  | .obj _, _ => .ok false
  | .arr xs, x => .ok (xs.any fun y => pyEq E.T y x)
  | .str t, .str s => .ok (decide (s.toList <:+: t.toList))
  | .str _, x => .error (.raised (.typeError
      ("'in <string>' requires string as left operand, not " ++ typeName x)))
  | v, _ => .error (.raised (.typeError ("argument of type '" ++ typeName v ++ "' is not iterable")))

/-- `any(rel not in source_hashes for rel in files)`. -/
def anyUnhashed (hashes : Json F) : List (Json F) → Except Failure Bool
  | [] => .ok false
  | rel :: rels => do
    if ← contains E hashes rel then anyUnhashed hashes rels else return true

/-- The start of `_stale`: whether a file of the record has no hash, and else the hashes. -/
def hashesToCheck (record : Record F) : Except Failure (Option (Dict F)) := do
  let hashes := (lookup "source_hashes" record.entries).getD (.obj [])
  let files ← lift (toList ((lookup "files" record.entries).getD (.arr [])))
  if ← anyUnhashed E hashes files then return none
  match hashes with
  | .obj d => return some d
  | v => .error (.attributeError ("'" ++ typeName v ++ "' object has no attribute 'items'"))

/-- One round of the loop of `_stale`: whether the file makes the record stale. -/
def fileStale (files : Files) (rel : String) (expected : Json F) : Except Failure Bool :=
  match files rel with
  | .outside => .ok true
  | .raises e => .error (.raised e)
  | .found _ (.digest hash) => .ok (!pyEq E.T (.str hash) expected)
  | .found _ _ => .ok true

/-! ### Calls -/

/-- A call, with what it has done. -/
inductive Call (F : Type) where
  | idle
  | hashing (args : AddArgs F) (left : List String) (h : Hashing)
  | inserting (args : AddArgs F) (h : Hashing)
  | returned (record : Record F)
  | opening
  | listing
  | judging (left kept : List (Record F)) (total : ℕ)
  | checking (current : Record F) (hashes : Dict F) (left kept : List (Record F)) (total : ℕ)
  | pruned (kept pruned : ℕ)
  | failed (f : Failure)
  deriving DecidableEq

/-- The state of the store, the files and the calls. Whether an insertion was committed after a call
listed the records (`overtaken`) is not read by any step. -/
structure State (F : Type) where
  table : Table F
  hasStore : Bool
  files : Files
  calls : ℕ → Call F
  overtaken : ℕ → Bool

/-- What happens next. -/
inductive Act (F : Type) where
  | add (i : ℕ) (args : AddArgs F)
  | prune (i : ℕ)
  | advance (i : ℕ)
  | fail (i : ℕ) (f : Failure)
  | change (files : Files)

/-- The state in which a call stands at another point. -/
def State.put (s : State F) (i : ℕ) (c : Call F) : State F :=
  { s with calls := Function.update s.calls i c }

/-- The call goes on to what a computation gives, or raises. -/
def State.goto {α : Type} (s : State F) (i : ℕ) (x : Except Failure α) (next : α → State F) :
    State F :=
  match x with
  | .ok a => next a
  | .error f => s.put i (.failed f)

/-- The next step of a call. -/
def advance (s : State F) (i : ℕ) : Call F → Except Unit (State F)
  | .hashing args (raw :: left) h =>
    .ok (s.goto i (hashFile s.files raw h) fun h => s.put i (.hashing args left h))
  | .hashing args [] h => .ok { s.put i (.inserting args h) with hasStore := true }
  | .inserting args h =>
    .ok (s.goto i (insert E s.table (addRecord E args h)) fun t =>
      { s.put i (.returned (addRecord E args h)) with table := t, overtaken := fun _ => true })
  | .opening => .ok (s.put i (if s.hasStore then .listing else .pruned 0 0))
  | .listing =>
    .ok (s.goto i (lift (listRecords E overlong s.table)) fun records =>
      { s.put i (.judging records [] records.length) with
        overtaken := Function.update s.overtaken i false })
  | .judging (record :: left) kept total =>
    .ok (s.goto i (hashesToCheck E record) fun hashes =>
      s.put i (match hashes with
        | none => .judging left kept total
        | some d => .checking record d left kept total))
  | .judging [] kept total =>
    .ok (s.goto i (replaceAll E kept) fun t =>
      { s.put i (.pruned kept.length (total - kept.length)) with table := t })
  | .checking record ((rel, expected) :: d) left kept total =>
    .ok (s.goto i (fileStale E s.files rel expected) fun stale =>
      s.put i (if stale then .judging left kept total else .checking record d left kept total))
  | .checking record [] left kept total => .ok (s.put i (.judging left (kept ++ [record]) total))
  | _ => .error ()

/-- One step. -/
def step (s : State F) : Act F → Except Unit (State F)
  | .add i args =>
    match s.calls i with
    | .idle => .ok (s.put i (if memoryTypes.contains args.type then .hashing args args.files ⟨[], []⟩
        else .failed (.raised (.valueError ("unsupported memory type: " ++ args.type)))))
    | _ => .error ()
  | .prune i =>
    match s.calls i with
    | .idle => .ok (s.put i .opening)
    | _ => .error ()
  | .advance i => advance E overlong s i (s.calls i)
  | .fail i f =>
    match s.calls i with
    | .idle => .error ()
    | .returned _ => .error ()
    | .pruned _ _ => .error ()
    | .failed _ => .error ()
    | _ => .ok (s.put i (.failed f))
  | .change files => .ok { s with files := files }

/-! ### Records that stay -/

/-- `record.get("files")` of a record that `add_memory` made. -/
def filesOf (r : Record F) : List (Json F) :=
  match lookup "files" r.entries with
  | some (.arr xs) => xs
  | _ => []

/-- `record.get("source_hashes")` of a record that `add_memory` made. -/
def hashesOf (r : Record F) : Dict F :=
  match lookup "source_hashes" r.entries with
  | some (.obj d) => d
  | _ => []

/-- Every path that the record lists led to a file when it was added. -/
def AllHashed (r : Record F) : Prop := ∀ v ∈ filesOf r, ∃ path, v = .str path ∧ path ∈ keys (hashesOf r)

/-- Every file of the record is as it was hashed. -/
def Unchanged (files : Files) (r : Record F) : Prop :=
  ∀ p ∈ hashesOf r, ∃ rel hash, files p.1 = .found rel (.digest hash) ∧ p.2 = .str hash

/-- An `add_memory` has returned the record. -/
def Returned (s : State F) (r : Record F) : Prop := ∃ i, s.calls i = .returned r

/-- The table has the row of the record. -/
def Stands (t : Table F) (r : Record F) : Prop :=
  ∃ row ∈ t.rows, lookup "id" r.entries = some (.str row.id) ∧
    row.recordJson = recordText (E := E) r ∧
    printable E.T.toFloatText true (.obj r.entries) = true

/-- The call is going to keep the record, or does not decide about it. -/
def Keeps (r : Record F) : Call F → Prop
  | .judging left kept _ => r.sorted ∈ left ∨ r.sorted ∈ kept
  | .checking current d left kept _ =>
    r.sorted ∈ left ∨ r.sorted ∈ kept ∨ (current = r.sorted ∧ ∀ p ∈ d, p ∈ hashesOf r.sorted)
  | _ => True

/-- What every step keeps: a record that was returned has its row, and every `prune_stale` that no
insertion has overtaken keeps it. -/
structure Safe (s : State F) (r : Record F) : Prop where
  made : Returned s r → ∃ args h, r = addRecord E args h
  row : Returned s r → Stands E s.table r
  keeps : Returned s r → ∀ i, s.overtaken i = false → Keeps r (s.calls i)

/-- What must hold whenever a step is taken: the files of a returned record are as they were hashed, and
no insertion was committed since a `prune_stale` that now replaces the table listed the records. -/
def Undisturbed (r : Record F) (s : State F) (a : Act F) : Prop :=
  (Returned s r → Unchanged s.files r) ∧
  ∀ i kept total, a = .advance i → s.calls i = .judging [] kept total → s.overtaken i = false

variable {E overlong}

theorem lookup_addRecord (args : AddArgs F) (h : Hashing) :
    lookup "id" (addRecord E args h).entries = some (.str ("mem-" ++ args.uuid)) ∧
    lookup "files" (addRecord E args h).entries = some (.arr (h.related.map .str)) ∧
    lookup "source_hashes" (addRecord E args h).entries = some (.obj (hashDict h.hashes)) :=
  ⟨rfl, rfl, rfl⟩

/-! ### The table -/

theorem rows_insertRows {rows : List (Row F)} : ∀ {t t' : Table F}, insertRows E t rows = .ok t' →
    t'.rows = t.rows ++ rows := by
  induction rows with
  | nil =>
    intro t t' h
    cases h
    exact (List.append_nil _).symm
  | cons row rows ih =>
    intro t t' h
    obtain ⟨u, hu, h⟩ := bind_eq_ok.mp h
    obtain ⟨-, hf, rfl⟩ := insertRow_eq_ok hu
    rw [ih h, Table.push, List.append_assoc]
    rfl

/-- The row of a record that `add_memory` made, or that was read back. -/
theorem stands_of_payload {t : Table F} {r : Record F} {row : Row F} (hrow : row ∈ t.rows) {id : String}
    (hid : lookup "id" r.entries = some (.str id)) {q : Record F} (hq : q = r ∨ q = r.sorted)
    (hp : payload E q = .ok row) : Stands E t r := by
  obtain ⟨hprint, ⟨key, hkey, hstr⟩, -, hj⟩ := payload_eq_ok hp
  have hk : key = .str id := by
    rcases hq with rfl | rfl
    · rw [hid] at hkey
      exact (Option.some.inj hkey).symm
    · rw [lookup_sorted, hid] at hkey
      exact (Option.some.inj hkey).symm
  have hrid : row.id = id := by
    rw [hk] at hstr
    exact (Except.ok.inj hstr).symm
  refine ⟨row, hrow, by rw [hrid, hid], ?_, ?_⟩
  · rcases hq with rfl | rfl
    · exact hj
    · rw [hj, recordText, recordText, Record.sorted_sorted]
  · rcases hq with rfl | rfl
    · exact hprint
    · rwa [Record.sorted, ← sortKeys_obj', printable_sortKeys] at hprint

/-- A record that is kept stands in the table that replaces the old one. -/
theorem stands_replaceAll {t' : Table F} {kept : List (Record F)} {r : Record F} {id : String}
    (hid : lookup "id" r.entries = some (.str id)) (hk : r.sorted ∈ kept)
    (h : replaceAll E kept = .ok t') : Stands E t' r := by
  obtain ⟨rows, hrows, h⟩ := bind_eq_ok.mp h
  have hr := rows_insertRows h
  obtain ⟨row, hrow, hp⟩ := mem_payloads hrows hk
  have hm : row ∈ t'.rows := by
    rw [hr]
    exact List.mem_append_right _ hrow
  exact stands_of_payload hm hid (Or.inr rfl) hp

/-- A record that stands is listed. -/
theorem mem_listRecords {t : Table F} {r : Record F} (h : Stands E t r) {records : List (Record F)}
    (hl : listRecords E overlong t = .ok records) : r.sorted ∈ records := by
  obtain ⟨row, hrow, -, hj, hp⟩ := h
  have hread := @readRecord_text F E overlong r hp
  have hmem : recordText (E := E) r ∈ t.texts :=
    (perm_texts t).mem_iff.mpr (List.mem_map.mpr ⟨row, hrow, hj⟩)
  exact mem_of_readRecords hl hmem hread

/-! ### Judging a record -/

theorem anyUnhashed_false {d : Dict F} {paths : List String}
    (h : ∀ path ∈ paths, (lookup path d).isSome = true) :
    anyUnhashed E (.obj d) (paths.map .str) = .ok false := by
  induction paths with
  | nil => rfl
  | cons path paths ih =>
    rw [List.forall_mem_cons] at h
    rw [List.map_cons, anyUnhashed, contains, h.1]
    exact ih h.2

section Judging
variable {r : Record F} {args : AddArgs F} {h : Hashing} (hr : r = addRecord E args h)
include hr

theorem hashesOf_sorted : hashesOf r.sorted = sortDict (hashesOf r) ∧
    lookup "source_hashes" r.sorted.entries = some (.obj (hashesOf r.sorted)) := by
  have h1 := (lookup_addRecord (E := E) args h).2.2
  rw [← hr] at h1
  have h2 : lookup "source_hashes" r.sorted.entries = some (.obj (sortDict (hashDict h.hashes))) := by
    rw [lookup_sorted, h1, Option.map_some, sortKeys_obj']
  have e1 : hashesOf r = hashDict h.hashes := by rw [hashesOf, h1]
  have e2 : hashesOf r.sorted = sortDict (hashDict h.hashes) := by rw [hashesOf, h2]
  rw [e2, e1]
  exact ⟨rfl, h2⟩

/-- A record all of whose files have hashes is judged by these. -/
theorem hashesToCheck_sorted (ha : AllHashed r) :
    hashesToCheck E r.sorted = .ok (some (hashesOf r.sorted)) := by
  obtain ⟨h1, h2⟩ := hashesOf_sorted hr
  have hfiles := (lookup_addRecord (E := E) args h).2.1
  rw [← hr] at hfiles
  have hlist : lift (toList ((lookup "files" r.sorted.entries).getD (.arr []))) =
      .ok (h.related.map (.str : String → Json F)) := by
    rw [lookup_sorted, hfiles, Option.map_some, sortKeys_arr, List.map_map]
    rfl
  have hany : anyUnhashed E (.obj (hashesOf r.sorted)) (h.related.map .str) = .ok false := by
    have hk : ∀ path ∈ h.related, (lookup path (hashesOf r.sorted)).isSome = true := by
      intro path hp
      obtain ⟨path', he, hk⟩ := ha (.str path) (by
        rw [filesOf, hfiles]
        exact List.mem_map_of_mem hp)
      cases he
      have hd : (keys (hashesOf r)).Nodup := by
        have hs := (lookup_addRecord (E := E) args h).2.2
        rw [← hr] at hs
        rw [hashesOf, hs]
        exact ((wellFormed_obj _).mp (wellFormed_hashDict h.hashes)).1
      rw [h1, lookup_sortDict hd, Option.isSome_map]
      by_contra hn
      rw [Bool.not_eq_true, Option.isSome_eq_false_iff, Option.isNone_iff_eq_none] at hn
      exact lookup_eq_none.mp hn hk
    exact anyUnhashed_false hk
  unfold hashesToCheck
  rw [hlist, h2]
  dsimp only [Option.getD_some]
  show (anyUnhashed E (.obj (hashesOf r.sorted)) (h.related.map .str) >>= _) = _
  rw [hany]
  rfl

theorem fileStale_sorted {files : Files} (hu : Unchanged files r) {p : String × Json F}
    (hp : p ∈ hashesOf r.sorted) : fileStale E files p.1 p.2 = .ok false := by
  rw [(hashesOf_sorted hr).1, sortDict, (perm_sortPairs _).mem_iff] at hp
  obtain ⟨q, hq, rfl⟩ := List.mem_map.mp hp
  obtain ⟨rel, hash, hf, hv⟩ := hu q hq
  dsimp only
  rw [fileStale, hf, hv, sortKeys_str]
  simp

end Judging

/-! ### One step -/

theorem returned_update {s s' : State F} {r : Record F} {i : ℕ} {c : Call F}
    (hcalls : s'.calls = Function.update s.calls i c) (hc : ∀ q, c ≠ .returned q)
    (h : Returned s' r) : Returned s r := by
  obtain ⟨j, hj⟩ := h
  rw [hcalls] at hj
  by_cases hji : j = i
  · subst hji
    rw [Function.update_self] at hj
    exact absurd hj (hc r)
  · rw [Function.update_of_ne hji] at hj
    exact ⟨j, hj⟩

/-- A step in which one call comes to another point, and no record is returned. -/
theorem Safe.move {s s' : State F} {r : Record F} {i : ℕ} {c : Call F} (hs : Safe E s r)
    (hcalls : s'.calls = Function.update s.calls i c) (hc : ∀ q, c ≠ .returned q)
    (htable : Returned s r → Stands E s'.table r)
    (hother : ∀ j, j ≠ i → s'.overtaken j = false → s.overtaken j = false)
    (hkeeps : Returned s r → s'.overtaken i = false → Keeps r c) : Safe E s' r where
  made h := hs.made (returned_update hcalls hc h)
  row h := htable (returned_update hcalls hc h)
  keeps h j hj := by
    have hr := returned_update hcalls hc h
    rw [hcalls]
    by_cases hji : j = i
    · subst hji
      rw [Function.update_self]
      exact hkeeps hr hj
    · rw [Function.update_of_ne hji]
      exact hs.keeps hr j (hother j hji hj)

/-- A step that changes only where a call stands. -/
theorem Safe.put {s : State F} {r : Record F} {i : ℕ} {c : Call F} (hs : Safe E s r)
    (hc : ∀ q, c ≠ .returned q)
    (hkeeps : Returned s r → s.overtaken i = false → Keeps r c) : Safe E (s.put i c) r :=
  hs.move (i := i) (c := c) rfl hc hs.row (fun _ _ h => h) hkeeps

theorem Safe.failed {s : State F} {r : Record F} (hs : Safe E s r) (i : ℕ) (f : Failure) :
    Safe E (s.put i (.failed f)) r :=
  hs.put (by simp) fun _ _ => trivial

theorem Safe.goto {α : Type} {s : State F} {r : Record F} {i : ℕ} {x : Except Failure α}
    {next : α → State F} (hs : Safe E s r) (h : ∀ a, x = .ok a → Safe E (next a) r) :
    Safe E (s.goto i x next) r := by
  cases x with
  | ok a => exact h a rfl
  | error f => exact hs.failed i f

/-- A row that is there stays when another is inserted. -/
theorem stands_push {t : Table F} {row : Row F} (hf : t.has row.id = false) {r : Record F}
    (h : Stands E t r) : Stands E (t.push row hf) r := by
  obtain ⟨old, ho, h⟩ := h
  exact ⟨old, List.mem_append_left _ ho, h⟩

/-- The insertion of a record. -/
theorem safe_insert {s : State F} {r : Record F} {i : ℕ} {args : AddArgs F} {h : Hashing} {t : Table F}
    (hs : Safe E s r) (hi : insert E s.table (addRecord E args h) = .ok t) :
    Safe E { s.put i (.returned (addRecord E args h)) with table := t, overtaken := fun _ => true } r := by
  obtain ⟨row, hp, hi⟩ := bind_eq_ok.mp hi
  obtain ⟨-, hf, rfl⟩ := insertRow_eq_ok hi
  have hret : Returned { s.put i (.returned (addRecord E args h)) with
      table := s.table.push row hf, overtaken := fun _ => true } r →
      r = addRecord E args h ∨ Returned s r := by
    rintro ⟨j, hj⟩
    by_cases hji : j = i
    · subst hji
      simp only [State.put, Function.update_self, Call.returned.injEq] at hj
      exact Or.inl hj.symm
    · simp only [State.put, Function.update_of_ne hji] at hj
      exact Or.inr ⟨j, hj⟩
  constructor
  · intro hr
    rcases hret hr with he | hr
    · exact ⟨args, h, he⟩
    · exact hs.made hr
  · intro hr
    rcases hret hr with rfl | hr
    · have hm : row ∈ (s.table.push row hf).rows :=
        List.mem_append_right _ (List.mem_singleton_self row)
      exact stands_of_payload hm (lookup_addRecord args h).1 (Or.inl rfl) hp
    · exact stands_push hf (hs.row hr)
  · intro _ j hj
    exact absurd hj (by simp)

/-- **The steps of a call.** -/
theorem safe_advance {s s' : State F} {r : Record F} {i : ℕ} (ha : AllHashed r) (hs : Safe E s r)
    (hu : Undisturbed r s (.advance i)) (h : advance E overlong s i (s.calls i) = .ok s') :
    Safe E s' r := by
  have hk : Returned s r → s.overtaken i = false → Keeps r (s.calls i) := fun hr => hs.keeps hr i
  cases hc : s.calls i with
  | hashing args left h' =>
    rw [hc] at h
    cases left with
    | nil =>
      cases h
      exact hs.move rfl (by simp) hs.row (fun _ _ h => h) fun _ _ => trivial
    | cons raw left =>
      cases h
      exact hs.goto fun h' _ => hs.put (by simp) fun _ _ => trivial
  | inserting args h' =>
    rw [hc, advance, Except.ok.injEq] at h
    subst h
    exact hs.goto fun t ht => safe_insert hs ht
  | opening =>
    rw [hc] at h
    cases h
    refine hs.put (fun q => ?_) fun _ _ => ?_
    · split_ifs <;> simp
    · split_ifs <;> trivial
  | listing =>
    rw [hc] at h
    cases h
    refine hs.goto fun records hl => ?_
    rw [lift_eq_ok] at hl
    refine hs.move rfl (by simp) hs.row (fun j hj h => ?_) fun hr _ => ?_
    · have h' : Function.update s.overtaken i false j = false := h
      rwa [Function.update_of_ne hj] at h'
    · exact Or.inl (mem_listRecords (hs.row hr) hl)
  | judging left kept total =>
    rw [hc] at h hk
    cases left with
    | nil =>
      cases h
      refine hs.goto fun t ht => ?_
      have hkept : Returned s r → Stands E t r := by
        intro hr
        obtain ⟨args, h', he⟩ := hs.made hr
        have hid := (lookup_addRecord (E := E) args h').1
        rw [← he] at hid
        rcases hk hr (hu.2 i kept total rfl hc) with hm | hm
        · cases hm
        · exact stands_replaceAll hid hm ht
      exact hs.move rfl (by simp) hkept (fun _ _ h => h) fun _ _ => trivial
    | cons record left =>
      cases h
      refine hs.goto fun o ho => hs.put (fun q => ?_) fun hr hov => ?_
      · cases o <;> simp
      · rcases hk hr hov with hm | hm
        · rcases List.mem_cons.mp hm with rfl | hm
          · obtain ⟨args, h', he⟩ := hs.made hr
            rw [hashesToCheck_sorted he ha, Except.ok.injEq] at ho
            subst ho
            exact Or.inr (Or.inr ⟨rfl, fun _ hp => hp⟩)
          · cases o with
            | none => exact Or.inl hm
            | some d => exact Or.inl hm
        · cases o with
          | none => exact Or.inr hm
          | some d => exact Or.inr (Or.inl hm)
  | checking record d left kept total =>
    rw [hc] at h hk
    cases d with
    | nil =>
      cases h
      refine hs.put (by simp) fun hr hov => ?_
      rcases hk hr hov with hm | hm | ⟨hm, -⟩
      · exact Or.inl hm
      · exact Or.inr (List.mem_append_left _ hm)
      · exact Or.inr (List.mem_append_right _ (by simp [hm]))
    | cons p d =>
      cases h
      refine hs.goto fun stale hstale => hs.put (fun q => ?_) fun hr hov => ?_
      · split_ifs <;> simp
      · rcases hk hr hov with hm | hm | ⟨hm, hd⟩
        · split_ifs
          · exact Or.inl hm
          · exact Or.inl hm
        · split_ifs
          · exact Or.inr hm
          · exact Or.inr (Or.inl hm)
        · -- the file is as it was hashed
          obtain ⟨args, h', he⟩ := hs.made hr
          rw [fileStale_sorted he (hu.1 hr) (hd p (by simp)), Except.ok.injEq] at hstale
          subst hstale
          exact Or.inr (Or.inr ⟨hm, fun q hq => hd q (List.mem_cons_of_mem _ hq)⟩)
  | idle => rw [hc] at h; cases h
  | returned record => rw [hc] at h; cases h
  | pruned k p => rw [hc] at h; cases h
  | failed f => rw [hc] at h; cases h

/-- **One step** keeps a record safe. -/
theorem safe_step {s s' : State F} {r : Record F} {a : Act F} (ha : AllHashed r) (hs : Safe E s r)
    (hu : Undisturbed r s a) (h : step E overlong s a = .ok s') : Safe E s' r := by
  cases a with
  | add i args =>
    rw [step] at h
    split at h
    · cases h
      refine hs.put (fun q => ?_) fun _ _ => ?_
      · split_ifs <;> simp
      · split_ifs <;> trivial
    · cases h
  | prune i =>
    rw [step] at h
    split at h
    · cases h
      exact hs.put (by simp) fun _ _ => trivial
    · cases h
  | advance i => exact safe_advance ha hs hu h
  | fail i f =>
    rw [step] at h
    split at h
    · cases h
    · cases h
    · cases h
    · cases h
    · cases h
      exact hs.failed i f
  | change files =>
    cases h
    exact ⟨hs.made, hs.row, hs.keeps⟩

/-! ### Every run -/

/-- The identifier of a record. -/
def idOf (r : Record F) : String :=
  match lookup "id" r.entries with
  | some (.str s) => s
  | _ => ""

/-- Identifiers are unique. -/
theorem filter_id {rows : List (Row F)} (hd : (rows.map Row.id).Nodup) {row : Row F}
    (h : row ∈ rows) : rows.filter (fun x => x.id == row.id) = [row] := by
  induction rows with
  | nil => cases h
  | cons x rows ih =>
    rw [List.map_cons, List.nodup_cons] at hd
    rcases List.mem_cons.mp h with rfl | h
    · have hn : rows.filter (fun x => x.id == row.id) = [] := by
        refine List.filter_eq_nil_iff.mpr fun y hy he => hd.1 ?_
        rw [← eq_of_beq he]
        exact List.mem_map_of_mem hy
      rw [List.filter_cons_of_pos (by simp), hn]
    · have hx : ¬ (x.id == row.id) = true := by
        intro he
        rw [eq_of_beq he] at hd
        exact hd.1 (List.mem_map_of_mem h)
      rw [List.filter_cons, if_neg hx, ih hd.2 h]

/-- **No lost memory.** In every run of additions and prunings in which no insertion comes between the
two transactions of a `prune_stale`, a record that was returned, whose paths were those of files and
whose files stay as they were hashed, has exactly one row. -/
theorem present_run {s t : State F} {r : Record F} {acts : List (Act F)}
    (h₀ : ∀ i, s.calls i = .idle) (hrun : run (step E overlong) s acts = .ok t)
    (hm : Meets (step E overlong) (Undisturbed r) s acts) (ha : AllHashed r) (hr : Returned t r) :
    ∃ row, t.table.rows.filter (fun x => x.id == idOf r) = [row] ∧
      row.recordJson = recordText (E := E) r := by
  have hnone : ¬ Returned s r := by
    rintro ⟨i, hi⟩
    rw [h₀ i] at hi
    cases hi
  have hs : Safe E s r := ⟨fun h => absurd h hnone, fun h => absurd h hnone, fun h => absurd h hnone⟩
  have ht := run_meets (fun s a t hs hu h => safe_step ha hs hu h) hs hm hrun
  obtain ⟨row, hrow, hid, hj, -⟩ := ht.row hr
  have he : idOf r = row.id := by rw [idOf, hid]
  refine ⟨row, ?_, hj⟩
  rw [he]
  exact filter_id t.table.nodup hrow

/-- The files change in no other step. -/
theorem files_step {s t : State F} {a : Act F} (h : step E overlong s a = .ok t)
    (hc : ∀ files, a ≠ .change files) : t.files = s.files := by
  have hgoto : ∀ {α : Type} (i : ℕ) (x : Except Failure α) (next : α → State F),
      (∀ a, (next a).files = s.files) → (s.goto i x next).files = s.files := by
    intro α i x next hn
    cases x with
    | ok a => exact hn a
    | error f => rfl
  cases a with
  | add i args =>
    rw [step] at h
    split at h
    · cases h
      rfl
    · cases h
  | prune i =>
    rw [step] at h
    split at h
    · cases h
      rfl
    · cases h
  | advance i =>
    rw [step, advance.eq_def] at h
    split at h
    · rw [Except.ok.injEq] at h
      exact h ▸ hgoto i _ _ fun _ => rfl
    · cases h
      rfl
    · rw [Except.ok.injEq] at h
      exact h ▸ hgoto i _ _ fun _ => rfl
    · cases h
      rfl
    · rw [Except.ok.injEq] at h
      exact h ▸ hgoto i _ _ fun _ => rfl
    · rw [Except.ok.injEq] at h
      exact h ▸ hgoto i _ _ fun _ => rfl
    · rw [Except.ok.injEq] at h
      exact h ▸ hgoto i _ _ fun _ => rfl
    · rw [Except.ok.injEq] at h
      exact h ▸ hgoto i _ _ fun _ => rfl
    · cases h
      rfl
    · cases h
  | fail i f =>
    rw [step] at h
    split at h
    · cases h
    · cases h
    · cases h
    · cases h
    · cases h
      rfl
  | change files => exact absurd rfl (hc files)

/-- A step that changes no file and replaces no table behind an insertion. -/
def calm (s : State F) : Act F → Bool
  | .advance i => match s.calls i with
    | .judging [] _ _ => !s.overtaken i
    | _ => true
  | .change _ => false
  | _ => true

variable (E overlong) in
/-- Every step of the run is calm. -/
def calmRun (s : State F) : List (Act F) → Bool
  | [] => true
  | a :: as => calm s a && match step E overlong s a with
    | .ok t => calmRun t as
    | .error _ => true

theorem undisturbed_of_calm {r : Record F} {acts : List (Act F)} : ∀ {s : State F},
    Unchanged s.files r → calmRun E overlong s acts = true →
    Meets (step E overlong) (Undisturbed r) s acts := by
  induction acts with
  | nil =>
    intro s _ _
    trivial
  | cons a as ih =>
    intro s hu h
    rw [calmRun, Bool.and_eq_true] at h
    obtain ⟨h1, h2⟩ := h
    refine ⟨⟨fun _ => hu, ?_⟩, fun t ht => ?_⟩
    · rintro i kept total rfl hc
      rw [calm, hc] at h1
      simpa using h1
    · rw [ht] at h2
      refine ih ?_ h2
      rw [files_step ht fun files he => by rw [he] at h1; cases h1]
      exact hu

/-! ### Two schedules -/

/-- An empty store, and a workspace in which every path leads to one file. -/
def start : State Cell where
  table := empty
  hasStore := true
  files _ := .found "notes.md" (.digest "00")
  calls _ := .idle
  overtaken _ := false

/-- A memory about the file. -/
def memo : AddArgs Cell where
  type := "pattern"
  tokens := []
  summary := "a"
  evidence := ""
  files := ["notes.md"]
  confidence := .one
  now := "2026-01-01T00:00:00+00:00"
  uuid := "0123456789ab"

/-- The record of the memory. -/
def memoRecord : Record Cell := addRecord platform memo ⟨["notes.md"], [("notes.md", "00")]⟩

/-- What an addition does from its call to its return. -/
def addSchedule (i : ℕ) : List (Act Cell) := [.add i memo, .advance i, .advance i, .advance i]

/-- The insertion comes between the listing and the replacement. -/
def overtaking : List (Act Cell) :=
  [.prune 0, .advance 0, .advance 0] ++ addSchedule 1 ++ [.advance 0]

/-- The pruning starts after the insertion. -/
def oneByOne : List (Act Cell) :=
  addSchedule 1 ++ [.prune 0, .advance 0, .advance 0, .advance 0, .advance 0, .advance 0, .advance 0]

/-- Whether the calls came to an end, and how many rows there are. -/
def outcome (acts : List (Act Cell)) : Option (Call Cell × Call Cell × ℕ) :=
  match run (step platform fun _ => false) start acts with
  | .ok t => some (t.calls 0, t.calls 1, t.table.rows.length)
  | .error _ => none

theorem memoRecord_unchanged : AllHashed memoRecord ∧ Unchanged start.files memoRecord := by
  have hfiles : filesOf memoRecord = [.str "notes.md"] := by decide
  have hhashes : hashesOf memoRecord = [("notes.md", .str "00")] := by decide
  constructor
  · intro v hv
    rw [hfiles, List.mem_singleton] at hv
    exact ⟨"notes.md", hv, by rw [hhashes]; decide⟩
  · intro p hp
    rw [hhashes, List.mem_singleton] at hp
    exact ⟨"notes.md", "00", rfl, by rw [hp]⟩

/-- **An insertion between the two transactions is undone**: both calls have returned, no file has
changed, and the store is empty. -/
theorem overtaken_lost : ∃ t, run (step platform fun _ => false) start overtaking = .ok t ∧
    t.calls 0 = .pruned 0 0 ∧ t.calls 1 = .returned memoRecord ∧ t.table.rows = [] ∧
    AllHashed memoRecord ∧ Unchanged start.files memoRecord ∧
    ∀ a ∈ overtaking, ∀ files, a ≠ .change files := by
  have h : outcome overtaking = some (.pruned 0 0, .returned memoRecord, 0) := by decide +kernel
  have hc : ∀ a ∈ overtaking, ∀ files, a ≠ .change files := by
    simp [overtaking, addSchedule]
  unfold outcome at h
  split at h
  · next t ht =>
    simp only [Option.some.injEq, Prod.mk.injEq] at h
    obtain ⟨h0, h1, h2⟩ := h
    exact ⟨t, ht, h0, h1, List.length_eq_zero_iff.mp h2, memoRecord_unchanged.1,
      memoRecord_unchanged.2, hc⟩
  · cases h

theorem oneByOne_present :
    ∃ row t, run (step platform fun _ => false) start oneByOne = .ok t ∧ t.calls 0 = .pruned 1 0 ∧
      t.table.rows.filter (fun x => x.id == idOf memoRecord) = [row] ∧
      row.recordJson = recordText (E := platform) memoRecord := by
  have h : outcome oneByOne = some (.pruned 1 0, .returned memoRecord, 1) := by decide +kernel
  have hcalm : calmRun platform (fun _ => false) start oneByOne = true := by decide +kernel
  unfold outcome at h
  split at h
  · next t ht =>
    simp only [Option.some.injEq, Prod.mk.injEq] at h
    obtain ⟨ha, hu⟩ := memoRecord_unchanged
    obtain ⟨row, hrow, hj⟩ := present_run (fun _ => rfl) ht (undisturbed_of_calm hu hcalm) ha
      ⟨1, h.2.1⟩
    exact ⟨row, t, ht, h.1, hrow, hj⟩
  · cases h

end ControlPlane.Memory.Prune
