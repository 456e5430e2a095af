import ControlPlane.Instance
import ControlPlane.Lib.Phases

/-! # The forms of a provider's response

A provider answers with an object that has an array of items, with that array, or with one item a line. The text
is read as one JSON document first, and line by line only if it is none; every document is checked against the
limits, which allow a nesting depth of eight from its top.

So an array spends one level on itself and an object two (`array_eq_ok`, `object_eq_ok`), lines spend none but
must hold no line boundary (`lines_eq_ok`), and a single line is a document: it is taken for an object with an
array of items (`line_eq_ok`). `forms_iff` puts together when the three forms agree. -/

namespace ControlPlane.Provider.Response

open ControlPlane.Lib.Value ControlPlane.Lib.Print ControlPlane.Lib.RoundTrip ControlPlane.Lib.Dumps
open ControlPlane.Lib.Text ControlPlane.Lib.Phases ControlPlane.Lib.Floats ControlPlane.Lib.Dynamic
open ControlPlane.Environment ControlPlane.Instance

/-! ### Limits -/

def maxProviderRecords : ℕ := 1024
def maxProviderMetadataEntries : ℕ := 128
def maxProviderContainerItems : ℕ := 1024
def maxProviderNestingDepth : ℕ := 8
def maxProviderFieldChars : ℕ := 4096
def maxProviderMetadataStringChars : ℕ := 1000000
def maxProviderInteger : ℕ := 2 ^ 63 - 1

variable {F : Type} (T : FloatText F)

/-- The check at the beginning of every value. -/
def checkDepth (depth : ℕ) : Py Unit :=
  require (decide (depth ≤ maxProviderNestingDepth)) "provider JSON exceeds maximum nesting depth"

mutual
/-- `_validate_json_value(value, depth=depth)`. -/
def validateJsonValue (depth : ℕ) : Json F → Py Unit
  | .null => checkDepth depth
  | .bool _ => checkDepth depth
  | .int n => do
    checkDepth depth
    require (decide (n.natAbs ≤ maxProviderInteger)) "provider integer exceeds signed 64-bit range"
  | .float x => do
    checkDepth depth
    require (T.finite x) "provider JSON contains non-finite number"
  | .str s => do
    checkDepth depth
    require (decide (s.length ≤ maxProviderMetadataStringChars)) "provider JSON string exceeds protocol limit"
  | .arr xs => do
    checkDepth depth
    require (decide (xs.length ≤ maxProviderContainerItems)) "provider JSON array exceeds protocol limit"
    validateItems (depth + 1) xs
  | .obj d => do
    checkDepth depth
    require (decide (d.length ≤ maxProviderMetadataEntries)) "provider JSON object exceeds protocol limit"
    validateEntries (depth + 1) d
/-- The loop over an array. -/
def validateItems (depth : ℕ) : List (Json F) → Py Unit
  | [] => .ok ()
  | x :: xs => do
    validateJsonValue depth x
    validateItems depth xs
/-- The loop over an object. -/
def validateEntries (depth : ℕ) : Dict F → Py Unit
  | [] => .ok ()
  | (k, x) :: d => do
    require (k != "") "provider JSON keys must be non-empty strings"
    require (decide (k.length ≤ maxProviderFieldChars)) "provider JSON key exceeds protocol limit"
    validateJsonValue depth x
    validateEntries depth d
end

/-! ### Reading -/

variable (E : Env F)

/-- `_strict_json_loads(raw)`. A constant such as `NaN` is refused as the number it stands for. -/
def strictJsonLoads (raw : String) : Py (Json F) :=
  match parseRaw E.T.toFloatText raw.toList with
  | none => .error (.jsonDecodeError "the text is not a JSON document")
  | some value => do
    checkDigits E.T value
    require (wellFormed value) "provider JSON contains duplicate key"
    validateJsonValue E.T.toFloatText 0 value
    return value

def invalidMsg : String := "provider returned invalid JSON/JSONL payload"

def recordsMsg : String := "provider payload exceeds maximum record count"

/-- The loop over the lines. -/
def jsonlRows (rows : List (Dict F)) : List (List Char) → Py (List (Dict F))
  | [] => .ok rows
  | line :: lines =>
    if strip (String.ofList line) = "" then jsonlRows rows lines
    else if maxProviderRecords ≤ rows.length then .error (.valueError recordsMsg)
    else match strictJsonLoads E (String.ofList line) with
      | .error _ => .error (.valueError invalidMsg)
      | .ok (.obj row) => jsonlRows (rows ++ [row]) lines
      | .ok _ => .error (.valueError "provider JSONL rows must be objects")

/-- `all(isinstance(row, dict) for row in payload)`, with the rows. -/
def objects? (payload : List (Json F)) : Option (List (Dict F)) :=
  payload.mapM fun
    | .obj row => some row
    | _ => none

/-- The rows of an array. -/
def arrayRecords : Json F → Py (List (Dict F))
  | .arr payload => do
    require (decide (payload.length ≤ maxProviderRecords)) recordsMsg
    match objects? payload with
    | some rows => .ok rows
    | none => .error (.valueError "provider payload items must all be objects")
  | _ => .error (.valueError "provider payload must be a JSON array or an object with an items array")

/-- The rows of a document. -/
def payloadRecords : Json F → Py (List (Dict F))
  | .obj d => match lookup "items" d with
    | none => .error (.valueError "provider object payload must contain an items array")
    | some payload => arrayRecords payload
  | payload => arrayRecords payload

/-- `_parse_records(raw)`. -/
def parseRecords (raw : String) : Py (List (Dict F)) :=
  match strictJsonLoads E raw with
  | .error (.jsonDecodeError _) => do
    let rows ← jsonlRows E [] (splitlines raw.toList)
    if rows.isEmpty && strip raw != "" then .error (.valueError invalidMsg) else .ok rows
  | .error _ => .error (.valueError invalidMsg)
  | .ok payload => payloadRecords payload

/-! ### The documented forms -/

/-- One JSON object with an array of items. -/
def objectForm (L : Layout) (rows : List (Dict F)) : String :=
  String.ofList (print T L 0 (.obj [("items", .arr (rows.map .obj))]))

/-- One JSON array of items. -/
def arrayForm (L : Layout) (rows : List (Dict F)) : String :=
  String.ofList (print T L 0 (.arr (rows.map .obj)))

/-- Lines, with a line feed between them, and behind the last one if wanted. -/
def joinLines (last : Bool) : List (List Char) → List Char
  | [] => []
  | [l] => l ++ if last then ['\n'] else []
  | l :: m :: ls => l ++ '\n' :: joinLines last (m :: ls)

/-- One item a line. -/
def jsonlForm (L : Layout) (last : Bool) (rows : List (Dict F)) : String :=
  String.ofList (joinLines last (rows.map fun row => print T L 0 (.obj row)))

/-- The texts are all read as the rows, or none is read. -/
def Equivalent (texts : List String) (rows : List (Dict F)) : Prop :=
  (∀ text ∈ texts, parseRecords E text = .ok rows) ∨ ∀ text ∈ texts, ∀ out, parseRecords E text ≠ .ok out

/-! ### What the limits allow -/

mutual
/-- Every part of the value is within the limits on parts. -/
def sound : Json F → Bool
  | .int n => decide (n.natAbs ≤ maxProviderInteger)
  | .float x => T.finite x
  | .str s => decide (s.length ≤ maxProviderMetadataStringChars)
  | .arr xs => decide (xs.length ≤ maxProviderContainerItems) && soundList xs
  | .obj d => decide (d.length ≤ maxProviderMetadataEntries) && soundDict d
  | _ => true
/-- `sound` on the elements of an array. -/
def soundList : List (Json F) → Bool
  | [] => true
  | x :: xs => sound x && soundList xs
/-- `sound` on the entries of an object. -/
def soundDict : Dict F → Bool
  | [] => true
  | (k, x) :: d => k != "" && decide (k.length ≤ maxProviderFieldChars) && sound x && soundDict d
end

mutual
/-- How far the value is nested. -/
def height : Json F → ℕ
  | .arr xs => heightList xs
  | .obj d => heightDict d
  | _ => 0
/-- The nesting of an array with these elements. -/
def heightList : List (Json F) → ℕ
  | [] => 0
  | x :: xs => max (height x + 1) (heightList xs)
/-- The nesting of an object with these entries. -/
def heightDict : Dict F → ℕ
  | [] => 0
  | (_, x) :: d => max (height x + 1) (heightDict d)
end

theorem checkDepth_eq_ok {depth : ℕ} {u : Unit} :
    checkDepth depth = .ok u ↔ depth ≤ maxProviderNestingDepth := by
  rw [checkDepth, require_eq_ok, decide_eq_true_eq]

theorem soundList_iff (xs : List (Json F)) : soundList T xs = true ↔ ∀ x ∈ xs, sound T x = true := by
  induction xs with
  | nil => simp [soundList]
  | cons x xs ih => rw [soundList, Bool.and_eq_true, ih, List.forall_mem_cons]

theorem heightList_le {n : ℕ} (xs : List (Json F)) : heightList xs ≤ n + 1 ↔ ∀ x ∈ xs, height x ≤ n := by
  induction xs with
  | nil => simp [heightList]
  | cons x xs ih => rw [heightList, max_le_iff, ih, List.forall_mem_cons, Nat.add_le_add_iff_right]

mutual
/-- **What passes the check**: the parts are within their limits, and the nesting fits below the depth. -/
theorem validate_eq_ok : ∀ (v : Json F) (depth : ℕ), validateJsonValue T depth v = .ok () ↔
    sound T v = true ∧ depth + height v ≤ maxProviderNestingDepth
  | .null, depth => by simp [validateJsonValue, checkDepth_eq_ok, sound, height]
  | .bool _, depth => by simp [validateJsonValue, checkDepth_eq_ok, sound, height]
  | .int n, depth => by
    simp only [validateJsonValue, bind_eq_ok, checkDepth_eq_ok, require_eq_ok, sound, height, exists_const]
    tauto
  | .float x, depth => by
    simp only [validateJsonValue, bind_eq_ok, checkDepth_eq_ok, require_eq_ok, sound, height, exists_const]
    tauto
  | .str s, depth => by
    simp only [validateJsonValue, bind_eq_ok, checkDepth_eq_ok, require_eq_ok, sound, height, exists_const]
    tauto
  | .arr xs, depth => by
    have hxs := validateItems_eq_ok xs depth
    simp only [validateJsonValue, bind_eq_ok, checkDepth_eq_ok, require_eq_ok, sound, height, exists_const,
      Bool.and_eq_true]
    constructor
    · rintro ⟨hdepth, hlength, h⟩
      obtain ⟨hsound, hheight⟩ := (hxs hdepth).mp h
      exact ⟨⟨hlength, hsound⟩, hheight⟩
    · rintro ⟨⟨hlength, hsound⟩, hheight⟩
      have hdepth : depth ≤ maxProviderNestingDepth := by omega
      exact ⟨hdepth, hlength, (hxs hdepth).mpr ⟨hsound, hheight⟩⟩
  | .obj d, depth => by
    have hd := validateEntries_eq_ok d depth
    simp only [validateJsonValue, bind_eq_ok, checkDepth_eq_ok, require_eq_ok, sound, height, exists_const,
      Bool.and_eq_true]
    constructor
    · rintro ⟨hdepth, hlength, h⟩
      obtain ⟨hsound, hheight⟩ := (hd hdepth).mp h
      exact ⟨⟨hlength, hsound⟩, hheight⟩
    · rintro ⟨⟨hlength, hsound⟩, hheight⟩
      have hdepth : depth ≤ maxProviderNestingDepth := by omega
      exact ⟨hdepth, hlength, (hd hdepth).mpr ⟨hsound, hheight⟩⟩
theorem validateItems_eq_ok : ∀ (xs : List (Json F)) (depth : ℕ), depth ≤ maxProviderNestingDepth →
    (validateItems T (depth + 1) xs = .ok () ↔
      soundList T xs = true ∧ depth + heightList xs ≤ maxProviderNestingDepth)
  | [], depth, h => by simp [validateItems, soundList, heightList, h]
  | x :: xs, depth, h => by
    simp only [validateItems, bind_eq_ok, exists_const, validate_eq_ok x, validateItems_eq_ok xs depth h,
      soundList, heightList, Bool.and_eq_true]
    have hmax : depth + max (height x + 1) (heightList xs) ≤ maxProviderNestingDepth ↔
        depth + 1 + height x ≤ maxProviderNestingDepth ∧ depth + heightList xs ≤ maxProviderNestingDepth := by
      omega
    rw [hmax]
    tauto
theorem validateEntries_eq_ok : ∀ (d : Dict F) (depth : ℕ), depth ≤ maxProviderNestingDepth →
    (validateEntries T (depth + 1) d = .ok () ↔
      soundDict T d = true ∧ depth + heightDict d ≤ maxProviderNestingDepth)
  | [], depth, h => by simp [validateEntries, soundDict, heightDict, h]
  | (k, x) :: d, depth, h => by
    simp only [validateEntries, bind_eq_ok, exists_const, require_eq_ok, validate_eq_ok x,
      validateEntries_eq_ok d depth h, soundDict, heightDict, Bool.and_eq_true]
    have hmax : depth + max (height x + 1) (heightDict d) ≤ maxProviderNestingDepth ↔
        depth + 1 + height x ≤ maxProviderNestingDepth ∧ depth + heightDict d ≤ maxProviderNestingDepth := by
      omega
    rw [hmax]
    tauto
end

/-- The value is refused with a value error, if it is. -/
def ValueErrors {α : Type} (x : Py α) : Prop := ∀ e, x = .error e → ∃ msg, e = .valueError msg

theorem valueErrors_require (c : Bool) (msg : String) : ValueErrors (require c msg) := by
  intro e h
  unfold require at h
  split_ifs at h
  cases h
  exact ⟨msg, rfl⟩

theorem valueErrors_ok {α : Type} (a : α) : ValueErrors (.ok a : Py α) := by
  intro e h
  cases h

theorem valueErrors_bind {α β : Type} {x : Py α} {f : α → Py β} (hx : ValueErrors x)
    (hf : ∀ a, ValueErrors (f a)) : ValueErrors (x >>= f) := by
  intro e h
  cases x with
  | error e₀ =>
    cases h
    exact hx _ rfl
  | ok a => exact hf a e h

mutual
theorem valueErrors_validate : ∀ (v : Json F) (depth : ℕ), ValueErrors (validateJsonValue T depth v)
  | .null, _ => valueErrors_require _ _
  | .bool _, _ => valueErrors_require _ _
  | .int _, _ => valueErrors_bind (valueErrors_require _ _) fun _ => valueErrors_require _ _
  | .float _, _ => valueErrors_bind (valueErrors_require _ _) fun _ => valueErrors_require _ _
  | .str _, _ => valueErrors_bind (valueErrors_require _ _) fun _ => valueErrors_require _ _
  | .arr xs, depth => valueErrors_bind (valueErrors_require _ _) fun _ =>
      valueErrors_bind (valueErrors_require _ _) fun _ => valueErrors_items xs (depth + 1)
  | .obj d, depth => valueErrors_bind (valueErrors_require _ _) fun _ =>
      valueErrors_bind (valueErrors_require _ _) fun _ => valueErrors_entries d (depth + 1)
theorem valueErrors_items : ∀ (xs : List (Json F)) (depth : ℕ), ValueErrors (validateItems T depth xs)
  | [], _ => valueErrors_ok ()
  | x :: xs, depth => valueErrors_bind (valueErrors_validate x depth) fun _ => valueErrors_items xs depth
theorem valueErrors_entries : ∀ (d : Dict F) (depth : ℕ), ValueErrors (validateEntries T depth d)
  | [], _ => valueErrors_ok ()
  | (_, x) :: d, depth => valueErrors_bind (valueErrors_require _ _) fun _ =>
      valueErrors_bind (valueErrors_require _ _) fun _ =>
        valueErrors_bind (valueErrors_validate x depth) fun _ => valueErrors_entries d depth
end

theorem sound_of_soundDict {d : Dict F} (h : soundDict T d = true) : ∀ p ∈ d, sound T p.2 = true := by
  induction d with
  | nil => simp
  | cons p d ih =>
    obtain ⟨k, x⟩ := p
    rw [soundDict, Bool.and_eq_true, Bool.and_eq_true] at h
    exact List.forall_mem_cons.mpr ⟨h.1.2, ih h.2⟩

/-- What is within the limits can be written: an integer has few digits, and a float is finite. -/
theorem printable_of_sound (v : Json F) (h : sound T v = true) : printable T false v = true := by
  induction v using Json.induct with
  | int n =>
    have hdigits : 19 ≤ maxDigits := by decide
    have hpow : 10 ^ 19 ≤ 10 ^ maxDigits := Nat.pow_le_pow_right (by decide) hdigits
    have hlimit : maxProviderInteger < 10 ^ 19 := by decide
    rw [sound, decide_eq_true_eq] at h
    rw [printable, decide_eq_true_eq]
    omega
  | arr xs ih =>
    rw [sound, Bool.and_eq_true, soundList_iff] at h
    exact (printable_arr false xs).mpr fun x hx => ih x hx (h.2 x hx)
  | obj d ih =>
    rw [sound, Bool.and_eq_true] at h
    exact (printable_obj false d).mpr fun p hp => ih p hp (sound_of_soundDict T h.2 p hp)
  | float x => exact h
  | _ => rfl

/-! ### Reading one document -/

variable {T} {E} {L : Layout}

theorem strict_print {v : Json F} {b : List Char} (hb : ∀ c ∈ b, isBlank c = true) :
    strictJsonLoads E (String.ofList (print E.T.toFloatText L 0 v ++ b)) = (do
      checkDigits E.T v
      require (wellFormed v) "provider JSON contains duplicate key"
      validateJsonValue E.T.toFloatText 0 v
      return v) := by
  rw [strictJsonLoads, String.toList_ofList, parseRaw_print v hb]

/-- **A document is accepted** if and only if it is within the limits. -/
theorem strict_eq_ok {v w : Json F} (hv : wellFormed v = true) {b : List Char}
    (hb : ∀ c ∈ b, isBlank c = true) :
    strictJsonLoads E (String.ofList (print E.T.toFloatText L 0 v ++ b)) = .ok w ↔
      w = v ∧ sound E.T.toFloatText v = true ∧ height v ≤ maxProviderNestingDepth := by
  rw [strict_print hb, checkDigits]
  have hvalid := validate_eq_ok E.T.toFloatText v 0
  rw [Nat.zero_add] at hvalid
  simp only [bind_eq_ok, require_eq_ok, exists_const, hv, true_and]
  constructor
  · rintro ⟨-, _, hcheck, h⟩
    cases h
    exact ⟨rfl, hvalid.mp hcheck⟩
  · rintro ⟨rfl, h⟩
    exact ⟨printable_mono (printable_of_sound _ _ h.1), (), hvalid.mpr h, rfl⟩

theorem strict_valueErrors {v : Json F} {b : List Char} (hb : ∀ c ∈ b, isBlank c = true) :
    ValueErrors (strictJsonLoads E (String.ofList (print E.T.toFloatText L 0 v ++ b))) := by
  rw [strict_print hb]
  exact valueErrors_bind (valueErrors_require _ _) fun _ => valueErrors_bind (valueErrors_require _ _)
    fun _ => valueErrors_bind (valueErrors_validate _ v 0) fun _ => valueErrors_ok v

/-- **A response that is one document** is that document, if it is within the limits. -/
theorem parse_document {v : Json F} (hv : wellFormed v = true) {b : List Char}
    (hb : ∀ c ∈ b, isBlank c = true) (out : List (Dict F)) :
    parseRecords E (String.ofList (print E.T.toFloatText L 0 v ++ b)) = .ok out ↔
      (sound E.T.toFloatText v = true ∧ height v ≤ maxProviderNestingDepth) ∧
        payloadRecords v = .ok out := by
  have haccepted := strict_eq_ok (E := E) (L := L) (w := v) hv hb
  unfold parseRecords
  cases hs : strictJsonLoads E (String.ofList (print E.T.toFloatText L 0 v ++ b)) with
  | ok w =>
    obtain ⟨rfl, h⟩ := (strict_eq_ok hv hb).mp hs
    simp [h]
  | error e =>
    obtain ⟨msg, rfl⟩ := strict_valueErrors hb e hs
    rw [hs] at haccepted
    have hrefused : ¬ (sound E.T.toFloatText v = true ∧ height v ≤ maxProviderNestingDepth) := fun h => by
      simpa using haccepted.mpr ⟨rfl, h⟩
    simp [hrefused]

/-- A response that is no document is read line by line. -/
theorem parse_lines {text : List Char} (h : parseRaw E.T.toFloatText text = none) :
    parseRecords E (String.ofList text) = (do
      let rows ← jsonlRows E [] (splitlines text)
      if rows.isEmpty && strip (String.ofList text) != "" then .error (.valueError invalidMsg)
      else .ok rows) := by
  unfold parseRecords strictJsonLoads
  rw [String.toList_ofList, h]

theorem wellFormed_strict {raw : String} {v : Json F} (h : strictJsonLoads E raw = .ok v) :
    wellFormed v = true := by
  unfold strictJsonLoads at h
  split at h
  · cases h
  · obtain ⟨_, -, h⟩ := bind_eq_ok.mp h
    obtain ⟨_, hwell, h⟩ := bind_eq_ok.mp h
    obtain ⟨_, -, h⟩ := bind_eq_ok.mp h
    cases h
    exact require_eq_ok.mp hwell

/-! ### The rows of a document -/

theorem objects_eq_some {payload : List (Json F)} {rows : List (Dict F)} :
    objects? payload = some rows ↔ payload = rows.map .obj := by
  induction payload generalizing rows with
  | nil =>
    cases rows with
    | nil => simp [objects?]
    | cons row rows => simp [objects?]
  | cons x payload ih =>
    unfold objects? at ih ⊢
    rw [List.mapM_cons, Option.bind_eq_bind, Option.bind_eq_some_iff]
    cases x with
    | obj d =>
      simp only [Option.some.injEq, exists_eq_left', Option.bind_eq_bind, Option.bind_eq_some_iff, ih]
      cases rows with
      | nil => simp
      | cons row rows => simp [and_comm, eq_comm]
    | _ => cases rows <;> simp

theorem arrayRecords_eq_ok {payload : Json F} {out : List (Dict F)} :
    arrayRecords payload = .ok out ↔ payload = .arr (out.map .obj) ∧ out.length ≤ maxProviderRecords := by
  cases payload with
  | arr xs =>
    rw [arrayRecords, bind_eq_ok]
    simp only [require_eq_ok, exists_const, decide_eq_true_eq, Json.arr.injEq]
    cases ho : objects? xs with
    | some rows =>
      rw [objects_eq_some] at ho
      subst ho
      simp only [List.length_map, Except.ok.injEq]
      constructor
      · rintro ⟨hlength, rfl⟩
        exact ⟨rfl, hlength⟩
      · rintro ⟨hmap, hlength⟩
        have := objects_eq_some.mpr hmap
        rw [objects_eq_some.mpr rfl, Option.some.injEq] at this
        exact ⟨this ▸ hlength, this⟩
    | none =>
      simp only [reduceCtorEq, and_false, false_iff, not_and]
      rintro rfl
      rw [objects_eq_some.mpr rfl] at ho
      cases ho
  | _ => simp [arrayRecords]

theorem wellFormed_jsonlRows {rows out : List (Dict F)} {lines : List (List Char)}
    (hrows : ∀ row ∈ rows, wellFormed (.obj row) = true) (h : jsonlRows E rows lines = .ok out) :
    ∀ row ∈ out, wellFormed (.obj row) = true := by
  induction lines generalizing rows with
  | nil =>
    cases h
    exact hrows
  | cons line lines ih =>
    rw [jsonlRows] at h
    split_ifs at h
    · exact ih hrows h
    · split at h
      · cases h
      · next row hrow =>
        refine ih (fun r hr => ?_) h
        rcases List.mem_append.mp hr with hr | hr
        · exact hrows r hr
        · exact List.mem_singleton.mp hr ▸ wellFormed_strict hrow
      · cases h

/-- **Every item that is read is well formed.** -/
theorem wellFormed_parseRecords {raw : String} {out : List (Dict F)} (h : parseRecords E raw = .ok out) :
    ∀ row ∈ out, wellFormed (.obj row) = true := by
  have harray : ∀ {payload : Json F}, wellFormed payload = true → arrayRecords payload = .ok out →
      ∀ row ∈ out, wellFormed (.obj row) = true := by
    intro payload hwell hout
    obtain ⟨rfl, -⟩ := arrayRecords_eq_ok.mp hout
    rwa [wellFormed_arr, List.forall_mem_map] at hwell
  unfold parseRecords at h
  split at h
  · obtain ⟨rows, hrows, h⟩ := bind_eq_ok.mp h
    split_ifs at h
    cases h
    exact wellFormed_jsonlRows (by simp) hrows
  · cases h
  · next payload hpayload =>
    have hwell := wellFormed_strict hpayload
    unfold payloadRecords at h
    split at h
    · split at h
      · cases h
      · next d hlookup =>
        exact harray (((wellFormed_obj _).mp hwell).2 _ (mem_of_lookup hlookup)) h
    · exact harray hwell h

/-! ### Reading line by line -/

/-- The text of the item as a line. -/
def lineOf (T : FloatText F) (L : Layout) (row : Dict F) : List Char := print T L 0 (.obj row)

/-- The text of the item holds no line boundary. -/
def Unbroken (T : FloatText F) (L : Layout) (row : Dict F) : Prop := ∀ c ∈ lineOf T L row, isBreak c = false

theorem head_lineOf (T : FloatText F) (L : Layout) (row : Dict F) : ∃ t, lineOf T L row = '{' :: t := by
  cases row with
  | nil => exact ⟨_, by rw [lineOf, print]⟩
  | cons p d => exact ⟨_, by rw [lineOf, print]⟩

theorem strip_ne {l : List Char} (h : l.head? = some '{') : strip (String.ofList l) ≠ "" := by
  obtain ⟨t, rfl⟩ := List.head?_eq_some_iff.mp h
  have hhead := head?_strip (String.toList_ofList (l := '{' :: t)) (by decide)
  intro hempty
  rw [hempty] at hhead
  cases hhead

theorem joinLines_prefix (last : Bool) (l : List Char) (ls : List (List Char)) :
    ∃ r, joinLines last (l :: ls) = l ++ r := by
  cases ls with
  | nil => exact ⟨_, rfl⟩
  | cons m ls => exact ⟨_, rfl⟩

/-- A line without a boundary comes back. -/
theorem splitlines_joinLines (last : Bool) {l : List Char} (hl : ∀ c ∈ l, isBreak c = false) (hne : l ≠ [])
    (ls : List (List Char)) : splitlines (joinLines last (l :: ls)) = l :: splitlines (joinLines last ls) := by
  have hone : ∀ {m : List Char}, (∀ c ∈ m, isBreak c = false) → m ≠ [] → splitlines m = [m] := by
    intro m hm hne
    induction m with
    | nil => exact absurd rfl hne
    | cons c m ih =>
      rw [List.forall_mem_cons] at hm
      rw [splitlines_cons hm.1]
      cases m with
      | nil => rfl
      | cons x m => rw [ih hm.2 (by simp)]
  cases ls with
  | nil =>
    cases last with
    | true => exact splitlines_append hl []
    | false =>
      have hjoin : joinLines false [l] = l := List.append_nil l
      rw [hjoin]
      exact hone hl hne
  | cons m ls => exact splitlines_append hl _

/-- **A line with a boundary** is cut in a string literal, and its first piece is no document. -/
theorem splitlines_broken (hL : OneLine L) (last : Bool) {row : Dict F} (h : ¬ Unbroken T L row)
    (ls : List (List Char)) : ∃ a ms, splitlines (joinLines last (lineOf T L row :: ls)) = a :: ms ∧
      a.head? = some '{' ∧ parseRaw T a = none := by
  obtain ⟨t, ht⟩ := head_lineOf T L row
  obtain ⟨r', hr'⟩ := joinLines_prefix last (lineOf T L row) ls
  have htidy : Tidy .outside (lineOf T L row) := by
    have := tidy_print (T := T) hL (.obj row) 0 (r := []) trivial
    rwa [List.append_nil] at this
  have hreturn : '\r' ∉ lineOf T L row := no_return hL (.obj row) 0
  rcases cut (lineOf T L row) with hcut | ⟨a, b, r, hcut, ha, hb⟩
  · exact absurd hcut h
  have hopen : Open .outside a := (tidy_break (hcut ▸ htidy) hb).1
  refine ⟨a, splitlines (r ++ r'), ?_, ?_, ?_⟩
  · have hne : b ≠ '\r' := by
      rintro rfl
      exact hreturn (hcut ▸ by simp)
    rw [hr', hcut, List.append_assoc, List.cons_append, splitlines_break ha hb hne]
  · cases a with
    | nil =>
      -- the text would begin with the boundary
      rw [ht, List.nil_append] at hcut
      obtain ⟨rfl, -⟩ := List.cons.inj hcut
      exact absurd hb (by decide)
    | cons c a =>
      rw [ht, List.cons_append] at hcut
      rw [List.head?_cons, (List.cons.inj hcut).1]
  · cases hp : parseRaw T a with
    | none => rfl
    | some v =>
      have hparse : parse T a = some (collapse v) := by rw [parse_eq, hp, Option.map_some]
      exact absurd hopen (parse_outside hparse)

/-- What the reader wants of an item on a line. -/
def LineAccepted (T : FloatText F) (L : Layout) (row : Dict F) : Prop :=
  (sound T (.obj row) = true ∧ height (.obj row) ≤ maxProviderNestingDepth) ∧ Unbroken T L row

/-- **The lines are read as the items**, if each is accepted and there are not too many. -/
theorem jsonlRows_lines (hL : OneLine L) (last : Bool) {ds rows : List (Dict F)}
    (hds : ∀ row ∈ ds, wellFormed (.obj row) = true) (hrows : rows.length ≤ maxProviderRecords)
    (out : List (Dict F)) :
    jsonlRows E rows (splitlines (joinLines last (ds.map (lineOf E.T.toFloatText L)))) = .ok out ↔
      out = rows ++ ds ∧ rows.length + ds.length ≤ maxProviderRecords ∧
        ∀ row ∈ ds, LineAccepted E.T.toFloatText L row := by
  induction ds generalizing rows with
  | nil =>
    rw [List.map_nil, joinLines, splitlines, jsonlRows, Except.ok.injEq, List.append_nil, eq_comm]
    simp [hrows]
  | cons row ds ih =>
    rw [List.forall_mem_cons] at hds
    obtain ⟨t, ht⟩ := head_lineOf E.T.toFloatText L row
    have hone := strict_eq_ok (E := E) (L := L) (w := .obj row) hds.1 (b := []) (by simp)
    rw [List.append_nil] at hone
    rw [List.map_cons, List.forall_mem_cons, List.length_cons]
    by_cases hunbroken : Unbroken E.T.toFloatText L row
    · rw [splitlines_joinLines last hunbroken (by rw [ht]; simp), jsonlRows,
        if_neg (strip_ne (by rw [ht]; rfl))]
      by_cases hfull : maxProviderRecords ≤ rows.length
      · rw [if_pos hfull]
        simp only [reduceCtorEq, false_iff]
        rintro ⟨-, hlength, -⟩
        omega
      · rw [if_neg hfull]
        cases hs : strictJsonLoads E (String.ofList (lineOf E.T.toFloatText L row)) with
        | error e =>
          simp only [reduceCtorEq, false_iff]
          rintro ⟨-, -, ⟨haccepted, -⟩, -⟩
          rw [lineOf, hone.mpr ⟨rfl, haccepted⟩] at hs
          cases hs
        | ok v =>
          have hv := strict_eq_ok (E := E) (L := L) (w := v) hds.1 (b := []) (by simp)
          rw [List.append_nil] at hv
          obtain ⟨rfl, haccepted⟩ := hv.mp hs
          have hlength : (rows ++ [row]).length ≤ maxProviderRecords := by
            rw [List.length_append, List.length_singleton]
            omega
          simp only
          rw [ih hds.2 hlength, List.append_assoc, List.singleton_append, List.length_append,
            List.length_singleton, Nat.add_assoc, Nat.add_comm 1]
          simp [LineAccepted, haccepted, hunbroken]
    · obtain ⟨a, ms, hsplit, hhead, hparse⟩ := splitlines_broken (T := E.T.toFloatText) hL last hunbroken
        (ds.map (lineOf E.T.toFloatText L))
      have hrefused : ¬ ∃ out, jsonlRows E rows (a :: ms) = .ok out := by
        rw [jsonlRows, if_neg (strip_ne hhead), strictJsonLoads, String.toList_ofList, hparse]
        rintro ⟨out, hout⟩
        split_ifs at hout
      rw [hsplit]
      constructor
      · exact fun hout => absurd ⟨out, hout⟩ hrefused
      · rintro ⟨-, -, ⟨-, h⟩, -⟩
        exact absurd h hunbroken

/-- Two lines are no document. -/
theorem parseRaw_lines (v : Json F) (row : Dict F) (r : List Char) :
    parseRaw T (print T L 0 v ++ '\n' :: (lineOf T L row ++ r)) = none := by
  obtain ⟨t, ht⟩ := head_lineOf T L row
  have hbegin := skipBlank_print (T := T) (L := L) (b := []) (by simp) 0 v ('\n' :: (lineOf T L row ++ r))
  rw [List.nil_append] at hbegin
  have hread := rawValue_print (T := T) (L := L) v 0
    ((print T L 0 v ++ '\n' :: (lineOf T L row ++ r)).length + 1) ('\n' :: (lineOf T L row ++ r))
    (by rw [List.length_append]; omega) (ends_cons (by decide) _)
  have hrest : skipBlank ('\n' :: (lineOf T L row ++ r)) = '{' :: (t ++ r) := by
    rw [ht]
    rfl
  rw [parseRaw, hbegin, hread]
  simp [hrest]

/-! ### The three forms -/

/-- There are not too many items, and their parts are within the limits. -/
def Usable (T : FloatText F) (rows : List (Dict F)) : Prop :=
  rows.length ≤ maxProviderRecords ∧ ∀ row ∈ rows, sound T (.obj row) = true

/-- No item is nested more than so far. -/
def Within (n : ℕ) (rows : List (Dict F)) : Prop := ∀ row ∈ rows, height (.obj row) ≤ n

theorem Within.mono {m n : ℕ} (h : m ≤ n) {rows : List (Dict F)} (hrows : Within m rows) : Within n rows :=
  fun row hrow => (hrows row hrow).trans h

theorem sound_rows (rows : List (Dict F)) : sound T (.arr (rows.map .obj)) = true ↔ Usable T rows := by
  rw [sound, Bool.and_eq_true, decide_eq_true_eq, List.length_map, soundList_iff, List.forall_mem_map]
  exact Iff.rfl

theorem height_rows {n : ℕ} (rows : List (Dict F)) :
    height (.arr (rows.map .obj)) ≤ n + 1 ↔ Within n rows := by
  rw [height, heightList_le, List.forall_mem_map]
  exact Iff.rfl

theorem wellFormed_rows {rows : List (Dict F)} (h : ∀ row ∈ rows, wellFormed (.obj row) = true) :
    wellFormed (.arr (rows.map .obj)) = true := by
  rw [wellFormed_arr, List.forall_mem_map]
  exact h

theorem map_obj_inj {rows out : List (Dict F)} : out.map Json.obj = rows.map Json.obj ↔ out = rows :=
  List.map_inj_right fun _ _ h => Json.obj.inj h

/-- **An array is accepted** if its items are nested at most seven deep. -/
theorem array_eq_ok {rows out : List (Dict F)} (h : ∀ row ∈ rows, wellFormed (.obj row) = true) :
    parseRecords E (arrayForm E.T.toFloatText L rows) = .ok out ↔
      out = rows ∧ Usable E.T.toFloatText rows ∧ Within 7 rows := by
  have hdocument := parse_document (E := E) (L := L) (wellFormed_rows h) (b := []) (by simp) out
  rw [List.append_nil] at hdocument
  rw [arrayForm, hdocument, sound_rows, maxProviderNestingDepth, height_rows, payloadRecords, arrayRecords_eq_ok,
    Json.arr.injEq, eq_comm, map_obj_inj]
  · constructor
    · rintro ⟨h, rfl, -⟩
      exact ⟨rfl, h⟩
    · rintro ⟨rfl, h⟩
      exact ⟨h, rfl, h.1.1⟩
  · simp

/-- **An object is accepted** if its items are nested at most six deep. -/
theorem object_eq_ok {rows out : List (Dict F)} (h : ∀ row ∈ rows, wellFormed (.obj row) = true) :
    parseRecords E (objectForm E.T.toFloatText L rows) = .ok out ↔
      out = rows ∧ Usable E.T.toFloatText rows ∧ Within 6 rows := by
  have hwell : wellFormed (.obj [("items", .arr (rows.map .obj))]) = true := by
    rw [wellFormed_obj]
    exact ⟨by simp [keys], List.forall_mem_singleton.mpr (wellFormed_rows h)⟩
  have hsound : sound E.T.toFloatText (.obj [("items", .arr (rows.map .obj))]) = true ↔
      Usable E.T.toFloatText rows := by
    have hkey : "items".length ≤ maxProviderFieldChars := by decide
    rw [← sound_rows]
    simp [sound, soundDict, maxProviderMetadataEntries, hkey]
  have hheight : height (.obj [("items", .arr (rows.map .obj))]) ≤ maxProviderNestingDepth ↔
      Within 6 rows := by
    rw [← height_rows]
    simp only [height, heightDict, maxProviderNestingDepth]
    omega
  have hdocument := parse_document (E := E) (L := L) hwell (b := []) (by simp) out
  rw [List.append_nil] at hdocument
  rw [objectForm, hdocument, hsound, hheight, payloadRecords, lookup_cons, if_pos rfl]
  simp only
  rw [arrayRecords_eq_ok, Json.arr.injEq, eq_comm, map_obj_inj]
  constructor
  · rintro ⟨h, rfl, -⟩
    exact ⟨rfl, h⟩
  · rintro ⟨rfl, h⟩
    exact ⟨h, rfl, h.1.1⟩

/-- **Two or more lines are accepted** if their items are nested at most eight deep and hold no line boundary. -/
theorem lines_eq_ok (hL : OneLine L) (last : Bool) {rows out : List (Dict F)} (hmany : 2 ≤ rows.length)
    (h : ∀ row ∈ rows, wellFormed (.obj row) = true) :
    parseRecords E (jsonlForm E.T.toFloatText L last rows) = .ok out ↔
      out = rows ∧ Usable E.T.toFloatText rows ∧ Within 8 rows ∧ ∀ row ∈ rows, Unbroken E.T.toFloatText L row := by
  obtain ⟨row, next, rest, rfl⟩ : ∃ row next rest, rows = row :: next :: rest := by
    match rows, hmany with
    | row :: next :: rest, _ => exact ⟨row, next, rest, rfl⟩
  have hraw : parseRaw E.T.toFloatText
      (joinLines last ((row :: next :: rest).map (lineOf E.T.toFloatText L))) = none := by
    obtain ⟨r, hr⟩ := joinLines_prefix last (lineOf E.T.toFloatText L next) (rest.map (lineOf E.T.toFloatText L))
    rw [List.map_cons, List.map_cons, joinLines, hr]
    exact parseRaw_lines (.obj row) next r
  have hlines := jsonlRows_lines (E := E) hL last h
    (show ([] : List (Dict F)).length ≤ maxProviderRecords from Nat.zero_le _) out
  have hform : jsonlForm E.T.toFloatText L last (row :: next :: rest) =
      String.ofList (joinLines last ((row :: next :: rest).map (lineOf E.T.toFloatText L))) := rfl
  rw [List.nil_append, List.length_nil, Nat.zero_add] at hlines
  rw [hform, parse_lines hraw, bind_eq_ok]
  constructor
  · rintro ⟨got, hgot, hout⟩
    split_ifs at hout
    cases hout
    obtain ⟨rfl, hlength, haccepted⟩ := hlines.mp hgot
    exact ⟨rfl, ⟨hlength, fun r hr => (haccepted r hr).1.1⟩, fun r hr => (haccepted r hr).1.2,
      fun r hr => (haccepted r hr).2⟩
  · rintro ⟨rfl, ⟨hlength, hsound⟩, hwithin, hunbroken⟩
    exact ⟨_, hlines.mpr ⟨rfl, hlength, fun r hr => ⟨⟨hsound r hr, hwithin r hr⟩, hunbroken r hr⟩⟩, rfl⟩

/-- The items that an item would have, if it were a response. -/
def itemsOf (row : Dict F) : Option (List (Dict F)) :=
  match lookup "items" row with
  | some (.arr payload) => objects? payload
  | _ => none

theorem itemsOf_eq_some {row : Dict F} {out : List (Dict F)} :
    itemsOf row = some out ↔ lookup "items" row = some (.arr (out.map .obj)) := by
  rw [itemsOf]
  cases lookup "items" row with
  | none => simp
  | some v =>
    cases v with
    | arr payload => simp [objects_eq_some]
    | _ => simp

theorem length_itemsOf {d : Dict F} {out : List (Dict F)} (h : sound T (.obj d) = true)
    (hout : itemsOf d = some out) : out.length ≤ maxProviderRecords := by
  rw [itemsOf_eq_some] at hout
  rw [sound, Bool.and_eq_true] at h
  exact ((sound_rows out).mp (sound_of_soundDict T h.2 _ (mem_of_lookup hout))).1

theorem height_entry {d : Dict F} : ∀ p ∈ d, height p.2 < heightDict d := by
  induction d with
  | nil => simp
  | cons q d ih =>
    obtain ⟨k, x⟩ := q
    rw [heightDict, List.forall_mem_cons]
    refine ⟨by simp only; omega, fun p hp => ?_⟩
    have := ih p hp
    omega

/-- No item is the only one of its own items. -/
theorem itemsOf_ne (row : Dict F) : itemsOf row ≠ some [row] := by
  intro h
  have hentry := height_entry _ (mem_of_lookup (itemsOf_eq_some.mp h))
  simp only [List.map_cons, List.map_nil, height, heightList] at hentry
  omega

/-- **A single line is accepted** if it could be a response itself; it is read as that. -/
theorem line_eq_ok (last : Bool) {row : Dict F} {out : List (Dict F)} (h : wellFormed (.obj row) = true) :
    parseRecords E (jsonlForm E.T.toFloatText L last [row]) = .ok out ↔
      Usable E.T.toFloatText [row] ∧ Within 8 [row] ∧ itemsOf row = some out := by
  have hdocument := parse_document (E := E) (L := L) h (b := if last then ['\n'] else [])
    (by cases last <;> simp [isBlank]) out
  have hform : jsonlForm E.T.toFloatText L last [row] =
      String.ofList (print E.T.toFloatText L 0 (.obj row) ++ if last then ['\n'] else []) := rfl
  have hone : Usable E.T.toFloatText [row] ↔ sound E.T.toFloatText (.obj row) = true := by
    simp [Usable, maxProviderRecords]
  have hitems : payloadRecords (.obj row) = .ok out ↔ itemsOf row = some out ∧
      out.length ≤ maxProviderRecords := by
    rw [payloadRecords, itemsOf_eq_some]
    cases lookup "items" row with
    | none => simp
    | some v =>
      simp only [arrayRecords_eq_ok]
      rw [Option.some.injEq]
  rw [hform, hdocument, hone, hitems, Within, List.forall_mem_singleton]
  constructor
  · rintro ⟨⟨hsound, hheight⟩, hout, -⟩
    exact ⟨hsound, hheight, hout⟩
  · rintro ⟨hsound, hheight, hout⟩
    exact ⟨⟨hsound, hheight⟩, hout, length_itemsOf hsound hout⟩

/-! ### When the forms agree -/

/-- Items whose lines are refused although each is within the limits: two or more with a line boundary, or one that
has no items itself. -/
def LinesRefused (T : FloatText F) (L : Layout) : List (Dict F) → Prop
  | [row] => itemsOf row = none
  | rows => ∃ row ∈ rows, ¬ Unbroken T L row

/-- Items of which the forms are all accepted: two or more, nested at most six deep, without line boundaries. -/
def AllAccepted (T : FloatText F) (L : Layout) (rows : List (Dict F)) : Prop :=
  2 ≤ rows.length ∧ Within 6 rows ∧ ∀ row ∈ rows, Unbroken T L row

/-- Items of which no form is accepted: nested too deep for an array, and refused as lines. -/
def NoneAccepted (T : FloatText F) (L : Layout) (rows : List (Dict F)) : Prop :=
  ¬ Within 7 rows ∧ (Within 8 rows → LinesRefused T L rows)

/-- What the lines are read as, if they are read: the items, but for a single one. -/
theorem jsonl_accepted (hL : OneLine L) (last : Bool) {rows : List (Dict F)} (hne : rows ≠ [])
    (h : ∀ row ∈ rows, wellFormed (.obj row) = true) :
    (∃ out, parseRecords E (jsonlForm E.T.toFloatText L last rows) = .ok out) ↔
      Usable E.T.toFloatText rows ∧ Within 8 rows ∧ ¬ LinesRefused E.T.toFloatText L rows := by
  match rows, hne with
  | [row], _ =>
    rw [List.forall_mem_singleton] at h
    simp only [line_eq_ok last h, exists_and_left, LinesRefused, Option.ne_none_iff_exists']
  | row :: next :: rest, _ =>
    have hmany : 2 ≤ (row :: next :: rest).length := by simp
    simp only [lines_eq_ok hL last hmany h, exists_eq_left, LinesRefused, not_exists, not_and, not_not]

/-- **The forms agree** if and only if the items are accepted in all of them or in none. -/
theorem forms_iff (E : Env F) (L₁ L₂ L : Layout) (hL : OneLine L) (last : Bool) (rows : List (Dict F))
    (hne : rows ≠ []) (h : ∀ row ∈ rows, wellFormed (.obj row) = true) :
    Equivalent E [objectForm E.T.toFloatText L₁ rows, arrayForm E.T.toFloatText L₂ rows,
        jsonlForm E.T.toFloatText L last rows] rows ↔
      (Usable E.T.toFloatText rows → AllAccepted E.T.toFloatText L rows ∨ NoneAccepted E.T.toFloatText L rows) := by
  have hobject := @object_eq_ok _ E L₁ rows
  have harray := @array_eq_ok _ E L₂ rows
  have hjsonl := jsonl_accepted (E := E) hL last hne h
  unfold Equivalent
  simp only [List.forall_mem_cons, List.not_mem_nil, false_implies, implies_true, and_true,
    ne_eq, hobject h, harray h, true_and]
  constructor
  · rintro (⟨hsix, -, hlines⟩ | ⟨-, hno, hnone⟩) husable
    · refine Or.inl ?_
      rcases rows with _ | ⟨row, _ | ⟨next, rest⟩⟩
      · exact absurd rfl hne
      · rw [List.forall_mem_singleton] at h
        exact absurd ((line_eq_ok last h).mp hlines).2.2 (itemsOf_ne row)
      · have hmany : 2 ≤ (row :: next :: rest).length := by simp
        exact ⟨hmany, hsix.2, ((lines_eq_ok hL last hmany h).mp hlines).2.2.2⟩
    · refine Or.inr ⟨fun hseven => hno rows ⟨rfl, husable, hseven⟩, fun hwithin => ?_⟩
      by_contra hrefused
      obtain ⟨out, hout⟩ := hjsonl.mpr ⟨husable, hwithin, hrefused⟩
      exact hnone out hout
  · intro hagree
    by_cases husable : Usable E.T.toFloatText rows
    · rcases hagree husable with ⟨hmany, hsix, hunbroken⟩ | ⟨hseven, hrefused⟩
      · have hwithin : Within 8 rows := hsix.mono (by decide)
        exact Or.inl ⟨⟨husable, hsix⟩, ⟨husable, hsix.mono (by decide)⟩,
          (lines_eq_ok hL last hmany h).mpr ⟨rfl, husable, hwithin, hunbroken⟩⟩
      · refine Or.inr ⟨?_, ?_, ?_⟩
        · rintro out ⟨-, -, hsix⟩
          exact hseven (hsix.mono (by decide))
        · rintro out ⟨-, -, hwithin⟩
          exact hseven hwithin
        · intro out hout
          obtain ⟨-, height, hlines⟩ := hjsonl.mp ⟨out, hout⟩
          exact hlines (hrefused height)
    · refine Or.inr ⟨?_, ?_, ?_⟩
      · rintro out ⟨-, h, -⟩
        exact husable h
      · rintro out ⟨-, h, -⟩
        exact husable h
      · intro out hout
        exact husable (hjsonl.mp ⟨out, hout⟩).1

/-- Two short items. -/
theorem forms_iff_two : Equivalent platform
    [objectForm platform.T.toFloatText (spaced true) [[("text", .str "a")], [("text", .str "b")]],
      arrayForm platform.T.toFloatText (spaced true) [[("text", .str "a")], [("text", .str "b")]],
      jsonlForm platform.T.toFloatText (spaced true) true [[("text", .str "a")], [("text", .str "b")]]]
    [[("text", .str "a")], [("text", .str "b")]] :=
  (forms_iff platform (spaced true) (spaced true) (spaced true) (oneLine_spaced true) true
    [[("text", .str "a")], [("text", .str "b")]] (by simp) (by decide +kernel)).mpr fun _ =>
    have hlines : ∀ row ∈ ([[("text", .str "a")], [("text", .str "b")]] : List (Dict _)),
        (lineOf platform.T.toFloatText (spaced true) row).all (fun c => decide (isBreak c = false)) = true := by
      decide +kernel
    Or.inl ⟨by decide, by unfold Within; decide +kernel, fun row hrow => Lib.Quote.forall_chars (hlines row hrow)⟩

/-- A single item is refused as a line, and accepted in an array. -/
theorem single_line_refused : ¬ ∀ (rows : List (Dict Lib.Grid.Cell)) (ascii last : Bool), rows ≠ [] →
    (∀ row ∈ rows, wellFormed (.obj row) = true) → Equivalent platform
      [objectForm platform.T.toFloatText (spaced ascii) rows, arrayForm platform.T.toFloatText (spaced ascii) rows,
        jsonlForm platform.T.toFloatText (spaced ascii) last rows] rows := by
  intro hall
  have harray : parseRecords platform (arrayForm platform.T.toFloatText (spaced true) [[("text", .str "a")]]) =
      .ok [[("text", .str "a")]] := by
    decide +kernel
  have hline : parseRecords platform (jsonlForm platform.T.toFloatText (spaced true) true [[("text", .str "a")]]) =
      .error (.valueError "provider object payload must contain an items array") := by
    decide +kernel
  rcases hall [[("text", .str "a")]] true true (by simp) (by decide +kernel) with h | h
  · have := h _ (List.mem_cons_of_mem _ (List.mem_cons_of_mem _ (List.mem_singleton.mpr rfl)))
    rw [hline] at this
    cases this
  · exact h _ (List.mem_cons_of_mem _ (List.mem_cons_self ..)) _ harray

end ControlPlane.Provider.Response
