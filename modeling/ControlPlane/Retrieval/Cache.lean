import ControlPlane.Provider.Results
import Mathlib.Logic.Function.Basic

/-! # The retrieval cache

Results of providers are kept in files, one for each key. A file holds the items and what came of the process,
but neither the diagnostics nor the state of the sandbox, and it holds a tuple as an array.

`get_put` says what is read for a result that was put: the same items, with their keys sorted, and the defaults
of the fields that were not written (`restored`). It equals the result if and only if these fields had their
defaults and no path was dropped from the metadata (`cache_iff`). -/

namespace ControlPlane.Retrieval.Cache

open ControlPlane.Lib.Value ControlPlane.Lib.Print ControlPlane.Lib.RoundTrip ControlPlane.Lib.Dumps
open ControlPlane.Lib.Text ControlPlane.Lib.Floats ControlPlane.Lib.Dynamic
open ControlPlane.Environment ControlPlane.Instance ControlPlane.Provider.Spec ControlPlane.Provider.Results
open ControlPlane.Workspace.DataDirs

variable {F : Type} (E : Env F)

/-! ### Equality of results -/

/-- `a == b`; a tuple equals no list. -/
def Metadata.eq (a b : Metadata F) : Bool :=
  match a.rejectedPathFields, b.rejectedPathFields with
  | none, none => pyEq E.T (.obj a.entries) (.obj b.entries)
  | some xs, some ys =>
    xs == ys && pyEq E.T (.obj (eraseKey "rejected_path_fields" a.entries))
      (.obj (eraseKey "rejected_path_fields" b.entries))
  | _, _ => false

/-- `a == b`. -/
def ContextItem.eq (a b : ContextItem F) : Bool :=
  a.source == b.source && a.text == b.text && (E.T.view a.score).eq (E.T.view b.score) && a.stale == b.stale &&
    Metadata.eq E a.metadata b.metadata && pyEq E.T (.obj a.provenance) (.obj b.provenance)

/-- `a == b`. -/
def itemsEq : List (ContextItem F) → List (ContextItem F) → Bool
  | [], [] => true
  | a :: xs, b :: ys => ContextItem.eq E a b && itemsEq xs ys
  | _, _ => false

/-- `a == b`. -/
def ProviderResult.eq (a b : ProviderResult F) : Bool :=
  a.provider == b.provider && itemsEq E a.items b.items && (E.T.view a.latencyMs).eq (E.T.view b.latencyMs) &&
    a.error == b.error && a.errorKind == b.errorKind && a.timedOut == b.timedOut &&
    a.outputLimited == b.outputLimited && a.returncode == b.returncode && a.stderrTail == b.stderrTail &&
    a.stderrTruncated == b.stderrTruncated && a.sandboxed == b.sandboxed &&
    a.sandboxBackend == b.sandboxBackend && a.sandboxMode == b.sandboxMode &&
    a.sandboxNetwork == b.sandboxNetwork && a.resourceLimitsEnforced == b.resourceLimitsEnforced &&
    a.sandboxFallbackReason == b.sandboxFallbackReason

/-! ### Writing -/

/-- The metadata as they are written: a tuple becomes an array. -/
def metadataDict (m : Metadata F) : Dict F :=
  match m.rejectedPathFields with
  | none => m.entries
  | some names => setKey "rejected_path_fields" (.arr (names.map .str)) m.entries

/-- `item.to_dict()`; a provider's item has no evidence. -/
def itemDict (item : ContextItem F) : Dict F :=
  [("source", .str item.source), ("text", .str item.text), ("score", .float item.score),
    ("stale", .bool item.stale), ("metadata", .obj (metadataDict item.metadata)),
    ("provenance", .obj item.provenance)]

def optional : Option String → Json F
  | none => .null
  | some s => .str s

/-- `_result_to_dict(result)`. -/
def resultToDict (r : ProviderResult F) : Dict F :=
  [("schema_version", .int 1), ("provider", .str r.provider),
    ("items", .arr (r.items.map fun item => .obj (itemDict item))), ("latency_ms", .float r.latencyMs),
    ("error", optional r.error), ("error_kind", optional r.errorKind), ("timed_out", .bool r.timedOut),
    ("output_limited", .bool r.outputLimited),
    ("returncode", match r.returncode with
      | none => .null
      | some n => .int n)]

/-! ### Reading -/

/-- `float(v or 0.0)`. -/
def floatOrZero (v : Json F) : Py F := if truthy E.T v then E.toFloat v else .ok (E.T.ofRat 0)

/-- `dict(v) if isinstance(v, Mapping) else {}`. -/
def dictOr : Json F → Dict F
  | .obj d => d
  | _ => []

/-- `str(v) if v is not None else None`. -/
def strOrNone : Json F → Py (Option String)
  | .null => .ok none
  | v => do return some (← E.str v)

/-- `int(v) if v is not None else None`. -/
def intOrNone : Json F → Py (Option ℤ)
  | .null => .ok none
  | v => do return some (← E.toInt v)

def itemFromDict (item : Dict F) : Py (ContextItem F) := do
  let source ← E.strOr item "source" "cache"
  let text ← E.strOr item "text" ""
  let score ← floatOrZero E (getKey item "score")
  return {
    source, text, score
    stale := truthy E.T (getKey item "stale")
    metadata := { entries := dictOr (getKey item "metadata") }
    provenance := dictOr (getKey item "provenance") }

/-- The objects of a list. -/
def itemDicts : Json F → List (Dict F)
  | .arr xs => xs.filterMap fun
    | .obj d => some d
    | _ => none
  | _ => []

/-- `_result_from_dict(raw)`. -/
def resultFromDict (raw : Dict F) : Py (ProviderResult F) := do
  let items ← (itemDicts (getKey raw "items")).mapM (itemFromDict E)
  let provider ← E.strOr raw "provider" "unknown"
  let latencyMs ← floatOrZero E (getKey raw "latency_ms")
  let error ← strOrNone E (getKey raw "error")
  let errorKind ← strOrNone E (getKey raw "error_kind")
  let returncode ← intOrNone E (getKey raw "returncode")
  return {
    provider, items, latencyMs, error, errorKind, returncode
    timedOut := truthy E.T (getKey raw "timed_out")
    outputLimited := truthy E.T (getKey raw "output_limited") }

/-! ### The cache -/

/-- The texts of the files in the directory. -/
abbrev Files := String → Option String

/-- The name of a key's file. -/
def pathOf (key : String) : String :=
  if key ≠ "" ∧ key.toList.all (fun c => "0123456789abcdefABCDEF-_".toList.contains c) then key ++ ".json"
  else E.sha256 key ++ ".json"

def cacheEligible (semantics : ProviderSemantics) : Bool :=
  semantics.deterministic && semantics.cacheable && !semantics.sideEffecting

/-- `FileRetrievalCache.get(key)`. -/
def get (files : Files) (key : String) : Py (Option (ProviderResult F)) :=
  match files (pathOf E key) with
  | none => .ok none
  | some text =>
    match E.jsonLoads text with
    | .error (.jsonDecodeError _) => .ok none
    | .error e => .error e
    | .ok (.obj raw) =>
      if !pyEq E.T (getKey raw "schema_version") (.int 1) then .ok none
      else match resultFromDict E raw with
        | .error (.typeError _) => .ok none
        | .error (.valueError _) => .ok none
        | .error (.overflowError _) => .ok none
        | .error e => .error e
        | .ok result => .ok (if result.ok then some result else none)
    | .ok _ => .ok none

def numericStateValid (r : ProviderResult F) : Bool :=
  E.T.finite r.latencyMs && r.items.all fun item => E.T.finite item.score

/-- `FileRetrievalCache.put(key, result, semantics)`, with the files after it. -/
def put (files : Files) (key : String) (r : ProviderResult F) (semantics : ProviderSemantics) :
    Py (Bool × Files) :=
  if !r.ok || !numericStateValid E r || !cacheEligible semantics then .ok (false, files)
  else do
    let text ← E.fileText true (.obj (resultToDict r))
    return (true, Function.update files (pathOf E key) (some text))

/-! ### What comes back -/

/-- A float after `x or 0.0`. -/
def orZero (x : F) : F := if truthy E.T (.float x : Json F) then x else E.T.ofRat 0

/-- An item as it is read. -/
def restoredItem (item : ContextItem F) : ContextItem F :=
  { item with
    score := orZero E item.score
    metadata := { entries := sortDict (metadataDict item.metadata) }
    provenance := sortDict item.provenance }

/-- A result as it is read. -/
def restored (r : ProviderResult F) : ProviderResult F where
  provider := r.provider
  items := r.items.map (restoredItem E)
  latencyMs := orZero E r.latencyMs
  error := r.error
  errorKind := r.errorKind
  timedOut := r.timedOut
  outputLimited := r.outputLimited
  returncode := r.returncode

variable {E}

theorem orZero_eq {x : F} (h : E.T.finite x = true) : (E.T.view (orZero E x)).eq (E.T.view x) = true := by
  obtain ⟨q, hq⟩ := (E.T.finite_iff x).mp h
  unfold orZero truthy
  split_ifs with hzero
  · simp [hq, Num.eq]
  · rw [E.T.ofRat_zero, hq]
    dsimp only at hzero
    rw [hq, Bool.not_eq_true, Bool.not_eq_false', Num.eq, decide_eq_true_eq] at hzero
    rw [Num.eq, decide_eq_true_eq, hzero]

theorem floatOrZero_float (x : F) : floatOrZero E (.float x) = .ok (orZero E x) := by
  unfold floatOrZero orZero
  split_ifs <;> rfl

theorem strOrNone_optional (s : Option String) : strOrNone E (optional s : Json F) = .ok s := by
  cases s with
  | none => rfl
  | some s => rfl

theorem sortKeys_optional (s : Option String) : sortKeys (optional s : Json F) = optional s := by
  cases s <;> simp [optional]

theorem writable_metadataDict {item : ContextItem F} (h : item.Checked E) :
    Writable E (metadataDict item.metadata) := by
  unfold metadataDict
  split
  · exact h.metadata
  · refine h.metadata.set _ ?_ ?_
    · rw [wellFormed_arr, List.forall_mem_map]
      exact fun _ _ => rfl
    · rw [printable_arr, List.forall_mem_map]
      exact fun _ _ => rfl

theorem nodup_itemDict (item : ContextItem F) : (keys (itemDict item)).Nodup := by
  simp [keys, itemDict]

theorem nodup_resultToDict (r : ProviderResult F) : (keys (resultToDict r)).Nodup := by
  simp [keys, resultToDict]

/-- **An item is read as it was written**, with its keys sorted. -/
theorem itemFromDict_itemDict (item : ContextItem F) :
    itemFromDict E (sortDict (itemDict item)) = .ok (restoredItem E item) := by
  have hget : ∀ k, getKey (sortDict (itemDict item)) k = sortKeys (getKey (itemDict item) k) :=
    getKey_sortDict (nodup_itemDict item)
  have hsource : E.strOr (sortDict (itemDict item)) "source" "cache" = .ok item.source :=
    strOr_of_getKey (hget "source") _
  have htext : E.strOr (sortDict (itemDict item)) "text" "" = .ok item.text :=
    strOr_of_getKey (hget "text") _
  have hscore : getKey (sortDict (itemDict item)) "score" = .float item.score := hget "score"
  have hstale : getKey (sortDict (itemDict item)) "stale" = .bool item.stale := hget "stale"
  have hmetadata : getKey (sortDict (itemDict item)) "metadata" = .obj (sortDict (metadataDict item.metadata)) :=
    (hget "metadata").trans (sortKeys_obj' _)
  have hprovenance : getKey (sortDict (itemDict item)) "provenance" = .obj (sortDict item.provenance) :=
    (hget "provenance").trans (sortKeys_obj' _)
  unfold itemFromDict
  rw [hsource, htext, hscore, hstale, hmetadata, hprovenance, floatOrZero_float]
  rfl

theorem itemDicts_items (items : List (ContextItem F)) :
    itemDicts (sortKeys (.arr (items.map fun item => .obj (itemDict item)))) =
      items.map fun item => sortDict (itemDict item) := by
  rw [sortKeys_arr, itemDicts]
  induction items with
  | nil => rfl
  | cons item items ih =>
    rw [List.map_cons, List.map_cons, sortKeys_obj', List.filterMap_cons]
    dsimp only
    rw [ih, List.map_cons]

theorem mapM_itemFromDict (items : List (ContextItem F)) :
    (items.map fun item => sortDict (itemDict item)).mapM (itemFromDict E) = .ok (items.map (restoredItem E)) := by
  induction items with
  | nil => rfl
  | cons item items ih => rw [List.map_cons, List.mapM_cons, itemFromDict_itemDict, ih, List.map_cons]; rfl

/-- **A result is read as it was written**, but for the fields that are not. -/
theorem resultFromDict_resultToDict (r : ProviderResult F) :
    resultFromDict E (sortDict (resultToDict r)) = .ok (restored E r) := by
  have hget : ∀ k, getKey (sortDict (resultToDict r)) k = sortKeys (getKey (resultToDict r) k) :=
    getKey_sortDict (nodup_resultToDict r)
  have hitems : (itemDicts (getKey (sortDict (resultToDict r)) "items")).mapM (itemFromDict E) =
      .ok (r.items.map (restoredItem E)) := by
    have hlist := hget "items"
    rw [hlist, ← mapM_itemFromDict, ← itemDicts_items]
    rfl
  have hprovider : E.strOr (sortDict (resultToDict r)) "provider" "unknown" = .ok r.provider :=
    strOr_of_getKey (hget "provider") _
  have hlatency : getKey (sortDict (resultToDict r)) "latency_ms" = .float r.latencyMs := hget "latency_ms"
  have herror : getKey (sortDict (resultToDict r)) "error" = optional r.error :=
    (hget "error").trans (sortKeys_optional _)
  have herrorKind : getKey (sortDict (resultToDict r)) "error_kind" = optional r.errorKind :=
    (hget "error_kind").trans (sortKeys_optional _)
  have hreturncode : intOrNone E (getKey (sortDict (resultToDict r)) "returncode") = .ok r.returncode := by
    have hcode := hget "returncode"
    rw [hcode]
    cases hr : r.returncode with
    | none => simp [resultToDict, getKey, lookup_cons, hr, intOrNone]
    | some n => simp [resultToDict, getKey, lookup_cons, hr, intOrNone, Env.toInt]
  have htimed : getKey (sortDict (resultToDict r)) "timed_out" = .bool r.timedOut := hget "timed_out"
  have hlimited : getKey (sortDict (resultToDict r)) "output_limited" = .bool r.outputLimited :=
    hget "output_limited"
  unfold resultFromDict
  rw [hitems, hprovider, hlatency, floatOrZero_float, herror, herrorKind, strOrNone_optional, strOrNone_optional,
    hreturncode, htimed, hlimited]
  rfl

theorem wellFormed_resultToDict {r : ProviderResult F} (h : r.Succeeded E) :
    wellFormed (.obj (resultToDict r)) = true := by
  have hoptional : ∀ s : Option String, wellFormed (optional s : Json F) = true := by
    intro s
    cases s <;> rfl
  have hitems : wellFormed (.arr (r.items.map fun item => .obj (itemDict item))) = true := by
    rw [wellFormed_arr, List.forall_mem_map]
    intro item hitem
    rw [wellFormed_obj]
    refine ⟨nodup_itemDict item, ?_⟩
    have hchecked := h.items item hitem
    simp only [itemDict, List.forall_mem_cons, List.not_mem_nil, false_implies, implies_true, wellFormed_str,
      wellFormed_float, wellFormed_bool, true_and, and_true]
    exact ⟨(writable_metadataDict hchecked).1, hchecked.provenance.1⟩
  rw [wellFormed_obj]
  refine ⟨nodup_resultToDict r, ?_⟩
  simp only [resultToDict, List.forall_mem_cons, List.not_mem_nil, false_implies, implies_true, wellFormed_str,
    wellFormed_float, wellFormed_bool, wellFormed_int, hoptional, hitems, true_and, and_true]
  cases r.returncode <;> rfl

/-! ### Putting and getting -/

theorem put_eq_ok {files files' : Files} {key : String} {r : ProviderResult F} {semantics : ProviderSemantics}
    (h : put E files key r semantics = .ok (true, files')) : r.ok = true ∧ numericStateValid E r = true ∧
      ∃ text, E.fileText true (.obj (resultToDict r)) = .ok text ∧
        files' = Function.update files (pathOf E key) (some text) := by
  unfold put at h
  split_ifs at h with hrefused
  · simp at h
  · obtain ⟨text, htext, h⟩ := bind_eq_ok.mp h
    cases h
    simp only [Bool.or_eq_true, Bool.not_eq_true', not_or, Bool.not_eq_false] at hrefused
    exact ⟨hrefused.1.1, hrefused.1.2, text, htext, rfl⟩

/-- The file of a result holds it. -/
theorem get_written {files : Files} {key text : String} {r : ProviderResult F} (hr : r.Succeeded E)
    (htext : E.fileText true (.obj (resultToDict r)) = .ok text) (hfile : files (pathOf E key) = some text) :
    get E files key = .ok (some (restored E r)) := by
  have hversion : pyEq E.T (getKey (sortDict (resultToDict r)) "schema_version") (.int 1) = true := by
    have hone : getKey (sortDict (resultToDict r)) "schema_version" = .int 1 :=
      getKey_sortDict (nodup_resultToDict r) "schema_version"
    rw [hone]
    simp [pyEq, numOf, Num.eq]
  have hok : (restored E r).ok = true := by
    rw [ProviderResult.ok, restored, hr.error]
    rfl
  unfold get
  rw [hfile]
  simp only [jsonLoads_fileText E (wellFormed_resultToDict hr) htext, sortKeys_obj', hversion, Bool.not_true,
    Bool.false_eq_true, if_false, resultFromDict_resultToDict, hok, if_true]

/-- **What is read of a result that was put.** -/
theorem get_put {files files' : Files} {key : String} {r : ProviderResult F} {semantics : ProviderSemantics}
    (hr : r.Succeeded E) (h : put E files key r semantics = .ok (true, files')) :
    get E files' key = .ok (some (restored E r)) := by
  obtain ⟨-, -, text, htext, rfl⟩ := put_eq_ok h
  exact get_written hr htext (Function.update_self ..)

/-! ### When it is equal -/

/-- Everything that is not written has its default, and no path was dropped. -/
structure Plain (r : ProviderResult F) : Prop where
  stderrTail : r.stderrTail = none
  stderrTruncated : r.stderrTruncated = false
  sandboxed : r.sandboxed = false
  sandboxBackend : r.sandboxBackend = none
  sandboxMode : r.sandboxMode = "off"
  sandboxNetwork : r.sandboxNetwork = "host"
  resourceLimitsEnforced : r.resourceLimitsEnforced = false
  sandboxFallbackReason : r.sandboxFallbackReason = none
  items : ∀ item ∈ r.items, item.metadata.rejectedPathFields = none

theorem pyEq_sortDict {d : Dict F} (h : Writable E d) : pyEq E.T (.obj (sortDict d)) (.obj d) = true := by
  rw [← sortKeys_obj']
  exact pyEq_sortKeys_self E.T h.1 h.2

/-- **An item equals what is read of it** unless its metadata hold a tuple. -/
theorem restoredItem_eq_iff {item : ContextItem F} (h : item.Checked E) :
    ContextItem.eq E (restoredItem E item) item = true ↔ item.metadata.rejectedPathFields = none := by
  have hscore := orZero_eq h.score
  have hprovenance := pyEq_sortDict h.provenance
  have hmetadata : Metadata.eq E (restoredItem E item).metadata item.metadata = true ↔
      item.metadata.rejectedPathFields = none := by
    unfold Metadata.eq restoredItem metadataDict
    cases item.metadata.rejectedPathFields with
    | none => simp [pyEq_sortDict h.metadata]
    | some names => simp
  unfold ContextItem.eq
  rw [Bool.and_eq_true, Bool.and_eq_true, hmetadata]
  simp [restoredItem, hscore, hprovenance]

theorem itemsEq_restored {items : List (ContextItem F)} (h : ∀ item ∈ items, item.Checked E) :
    itemsEq E (items.map (restoredItem E)) items = true ↔
      ∀ item ∈ items, item.metadata.rejectedPathFields = none := by
  induction items with
  | nil => simp [itemsEq]
  | cons item items ih =>
    rw [List.forall_mem_cons] at h
    rw [List.map_cons, itemsEq, Bool.and_eq_true, restoredItem_eq_iff h.1, ih h.2, List.forall_mem_cons]

/-- **A result equals what is read of it** if and only if all that is not written has its default. -/
theorem restored_eq_iff {r : ProviderResult F} (hr : r.Succeeded E) (hlatency : E.T.finite r.latencyMs = true) :
    ProviderResult.eq E (restored E r) r = true ↔ Plain r := by
  have hview := orZero_eq hlatency
  unfold ProviderResult.eq
  simp only [Bool.and_eq_true, beq_iff_eq, restored, itemsEq_restored hr.items, hview, true_and, and_true]
  constructor
  · rintro ⟨⟨⟨⟨⟨⟨⟨⟨hitems, htail⟩, htruncated⟩, hsandboxed⟩, hbackend⟩, hmode⟩, hnetwork⟩, hlimits⟩, hreason⟩
    exact ⟨htail.symm, htruncated.symm, hsandboxed.symm, hbackend.symm, hmode.symm, hnetwork.symm,
      hlimits.symm, hreason.symm, hitems⟩
  · rintro ⟨htail, htruncated, hsandboxed, hbackend, hmode, hnetwork, hlimits, hreason, hitems⟩
    simp only [htail, htruncated, hsandboxed, hbackend, hmode, hnetwork, hlimits, hreason, and_true]
    exact hitems

/-! ### Runs of the cache -/

variable (resolve : Path → Path)

/-- The result of a run of the runner. -/
def Produced (E : Env F) (r : ProviderResult F) : Prop :=
  ∃ spec request plan x, Writable E request.metadataDefaults ∧
    r = runCommandProvider E resolve spec request plan x

/-- The directories that are reached by putting results of the runner, from an empty one. -/
inductive Reached (E : Env F) : Files → Prop
  | empty : Reached E fun _ => none
  | put {files files' : Files} {key : String} {r : ProviderResult F} {semantics : ProviderSemantics}
      {stored : Bool} (hfiles : Reached E files) (hr : Produced resolve E r)
      (hput : put E files key r semantics = .ok (stored, files')) : Reached E files'

variable {resolve}

theorem Produced.succeeded {r : ProviderResult F} (h : Produced resolve E r) (hok : r.ok = true) :
    r.Succeeded E := by
  obtain ⟨spec, request, plan, x, hdefaults, rfl⟩ := h
  exact Provider.Results.succeeded hdefaults hok

/-- **Every file holds a result without an error.** -/
theorem Reached.written {files : Files} (h : Reached resolve E files) {name text : String}
    (hfile : files name = some text) : ∃ r : ProviderResult F, r.Succeeded E ∧
      E.fileText true (.obj (resultToDict r)) = .ok text := by
  induction h with
  | empty => cases hfile
  | @put files files' key r semantics stored hfiles hr hput ih =>
    cases stored with
    | false =>
      have hsame : files' = files := by
        unfold Cache.put at hput
        split_ifs at hput
        · cases hput
          rfl
        · obtain ⟨_, -, hput⟩ := bind_eq_ok.mp hput
          cases hput
      exact ih (hsame ▸ hfile)
    | true =>
      obtain ⟨hok, -, written, hwritten, rfl⟩ := put_eq_ok hput
      by_cases hname : name = pathOf E key
      · rw [hname, Function.update_self, Option.some.injEq] at hfile
        exact ⟨r, hr.succeeded hok, hfile ▸ hwritten⟩
      · rw [Function.update_of_ne hname] at hfile
        exact ih hfile

/-- **No result with an error or a timeout is read.** -/
theorem Reached.get_ok {files : Files} (h : Reached resolve E files) {key : String} {r : ProviderResult F}
    (hget : get E files key = .ok (some r)) : r.error = none ∧ r.timedOut = false := by
  cases hfile : files (pathOf E key) with
  | none =>
    unfold get at hget
    rw [hfile] at hget
    cases hget
  | some text =>
    obtain ⟨written, hwritten, htext⟩ := h.written hfile
    rw [get_written hwritten htext hfile] at hget
    cases hget
    exact ⟨hwritten.error, hwritten.timedOut⟩

/-- **The round trip** of a result that was put, and what is read of any key then. -/
theorem cache_iff (E : Env F) (resolve : Path → Path) {files files' : Files} {key : String} {r : ProviderResult F}
    {semantics : ProviderSemantics} (hfiles : Reached resolve E files) (hr : Produced resolve E r)
    (hput : put E files key r semantics = .ok (true, files')) :
    ((∃ got, get E files' key = .ok (some got) ∧ ProviderResult.eq E got r = true) ∧
      ∀ other got, get E files' other = .ok (some got) → got.error = none ∧ got.timedOut = false) ↔ Plain r := by
  obtain ⟨hok, hnumeric, -⟩ := put_eq_ok hput
  have hsucceeded := hr.succeeded hok
  have hequal := restored_eq_iff hsucceeded (Bool.and_eq_true_iff.mp hnumeric).1
  constructor
  · rintro ⟨⟨got, hgot, heq⟩, -⟩
    rw [get_put hsucceeded hput] at hgot
    cases hgot
    exact hequal.mp heq
  · intro hplain
    exact ⟨⟨_, get_put hsucceeded hput, hequal.mpr hplain⟩,
      fun other got hgot => (hfiles.put hr hput).get_ok hgot⟩

/-- What can be written is put, if the provider's results may be kept. -/
theorem put_stored (files : Files) (key : String) {r : ProviderResult F} {semantics : ProviderSemantics}
    (hok : r.ok = true) (hnumeric : numericStateValid E r = true) (heligible : cacheEligible semantics = true)
    (hprint : printable E.T.toFloatText true (.obj (resultToDict r)) = true) :
    ∃ files', put E files key r semantics = .ok (true, files') := by
  obtain ⟨text, htext⟩ := fileText_eq_ok E hprint
  refine ⟨Function.update files (pathOf E key) (some text), ?_⟩
  unfold put
  rw [hok, hnumeric, heligible, htext]
  rfl

/-- A provider whose results may be kept. -/
def keptSpec : CommandProviderSpec Lib.Grid.Cell where
  name := "notes"
  command := ["notes"]
  timeoutSeconds := .one
  maxOutputBytes := 8388608
  maxStderrBytes := 65536
  intents := ["all"]
  envAllowlist := []
  executableTrust := "configured_local_executable"
  executableSha256 := none
  neutralCwd := false
  version := "1"
  semantics := ⟨true, true, true, false, true⟩
  runtimeProfile := "compatibility"
  sandbox := ⟨"off", "auto", "host", ⟨none, none, none, none⟩⟩

/-- Its result on one short item, without a sandbox and with some diagnostics. -/
def keptResult (stderrTail : Option String) : ProviderResult Lib.Grid.Cell :=
  runCommandProvider platform id keptSpec ⟨["work"], 5, "external:notes", []⟩
    ⟨false, none, "off", "host", false, none⟩
    { output := "[\x7b\"text\": \"a\", \"score\": 1\x7d]", latencyMs := .one, exceeded := false
      timedOut := false, returncode := 0, timeoutText := "1", stderrTail, stderrTruncated := false }

theorem produced_keptResult (stderrTail : Option String) : Produced id platform (keptResult stderrTail) :=
  ⟨keptSpec, ⟨["work"], 5, "external:notes", []⟩, _, _, Writable.nil, rfl⟩

theorem put_keptResult (stderrTail : Option String) (h : (keptResult stderrTail).ok = true ∧
    numericStateValid platform (keptResult stderrTail) = true ∧
      printable platform.T.toFloatText true (.obj (resultToDict (keptResult stderrTail))) = true) :
    ∃ files', put platform (fun _ => none) "a" (keptResult stderrTail) keptSpec.semantics = .ok (true, files') :=
  put_stored _ _ h.1 h.2.1 rfl h.2.2

/-- A result without diagnostics is read as it was put. -/
theorem cache_iff_silent : ∃ files',
    put platform (fun _ => none) "a" (keptResult none) keptSpec.semantics = .ok (true, files') ∧
      (∃ got, get platform files' "a" = .ok (some got) ∧ ProviderResult.eq platform got (keptResult none) = true) ∧
        ∀ other got, get platform files' other = .ok (some got) → got.error = none ∧ got.timedOut = false := by
  obtain ⟨files', hput⟩ := put_keptResult none (by decide +kernel)
  refine ⟨files', hput, (cache_iff platform id Reached.empty (produced_keptResult none) hput).mpr ?_⟩
  exact ⟨rfl, rfl, rfl, rfl, rfl, rfl, rfl, rfl, by decide +kernel⟩

/-- A result with diagnostics is read without them. -/
theorem diagnostics_lost : ¬ ∀ (files files' : Files) (key : String) (r : ProviderResult Lib.Grid.Cell)
    (semantics : ProviderSemantics), Reached id platform files → Produced id platform r →
      put platform files key r semantics = .ok (true, files') →
        ∃ got, get platform files' key = .ok (some got) ∧ ProviderResult.eq platform got r = true := by
  intro hall
  obtain ⟨files', hput⟩ := put_keptResult (some "warning") (by decide +kernel)
  obtain ⟨hok, hnumeric, -⟩ := put_eq_ok hput
  have hproduced := produced_keptResult (some "warning")
  have hsucceeded := hproduced.succeeded hok
  obtain ⟨got, hgot, heq⟩ := hall _ files' "a" _ _ Reached.empty hproduced hput
  rw [get_put hsucceeded hput, Except.ok.injEq, Option.some.injEq] at hgot
  rw [← hgot] at heq
  have hplain := (restored_eq_iff hsucceeded (Bool.and_eq_true_iff.mp hnumeric).1).mp heq
  have htail : some "warning" = none := hplain.stderrTail
  cases htail

end ControlPlane.Retrieval.Cache
