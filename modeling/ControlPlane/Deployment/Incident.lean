import ControlPlane.Deployment.Guardrails
import ControlPlane.Instance
import ControlPlane.Lib.Windows

/-! # The evidence of an incident

An incident bundle summarises the last learning records of a policy, and a deployment state starts from the contexts
of the last learning records of all. The records are in the order of their decision ids.

The windows are the decisions made last exactly where the ids and the times are in step: no decision whose id is
before a window was made after one whose id is in it (`evidence_recent_iff`). Ids are drawn at random, so the oldest
decision of fifty-one can be among those that are called recent, and the newest be left out (`newest_left_out`). -/

namespace ControlPlane.Deployment.Incident

open ControlPlane.Lib.Value ControlPlane.Lib.Text ControlPlane.Lib.Floats ControlPlane.Lib.Dynamic ControlPlane.Lib.Dumps
open ControlPlane.Lib.Windows ControlPlane.Environment ControlPlane.Learning.Decision ControlPlane.Learning.Records
open ControlPlane.Deployment.State ControlPlane.Deployment.Guardrails

variable {F : Type} (E : Env F)

/-! ### The summary -/

/-- The row belongs to the policy. -/
def ofPolicy (policyId : String) (row : Dict F) : Bool :=
  match getKey row "deployment" with
  | .obj deployment => same E deployment "policy_id" policyId
  | _ => false

def policyRows (policyId : String) (rows : List (Dict F)) : List (Dict F) := rows.filter (ofPolicy E policyId)

/-- `max(1, int(limit))` -/
def size (limit : ℤ) : ℕ := (max 1 limit).toNat

/-- `counts[k] = counts.get(k, 0) + 1` -/
def bump (k : String) (counts : Dict F) : Dict F := setKey k (.int (countOf counts k + 1)) counts

/-- What has been counted so far. -/
structure Tally (F : Type) where
  assignments : Dict F
  verified : ℕ
  failures : ℕ
  sources : Dict F
  decisionIds : List String

def tallyAssignment (row : Dict F) (assignments : Dict F) : Py (Dict F) :=
  match getKey row "deployment" with
  | .obj deployment => do return bump (← E.strOr deployment "assignment" "unknown") assignments
  | _ => .ok assignments

def tallyOutcome (row : Dict F) (t : Tally F) : Py (Tally F) :=
  match verifiedOutcome E row with
  | none => .ok t
  | some outcome => do
    let source := strip (← E.strOr outcome "source" "")
    return { t with
      verified := t.verified + 1
      failures := if truthy E.T (getKey outcome "success") then t.failures else t.failures + 1
      sources := if source = "" then t.sources else bump source t.sources }

/-- The loop of `evidenceSummary`. -/
def tallyRows : List (Dict F) → Tally F → Py (Tally F)
  | [], t => .ok t
  | row :: rows, t => do
    let assignments ← tallyAssignment E row t.assignments
    let decisionId := strip (← E.strOr row "decision_id" "")
    let decisionIds := if decisionId = "" then t.decisionIds else t.decisionIds ++ [decisionId]
    tallyRows rows (← tallyOutcome E row { t with assignments := assignments, decisionIds := decisionIds })

structure EvidenceSummary (F : Type) where
  rows : ℕ
  assignments : Dict F
  verifiedOutcomes : ℕ
  verifiedFailures : ℕ
  outcomeSources : Dict F
  recentDecisionIds : List String

/-- The summary of some rows. -/
def summarise (rows : List (Dict F)) : Py (EvidenceSummary F) := do
  let t ← tallyRows E rows ⟨[], 0, 0, [], []⟩
  return ⟨rows.length, sortPairs t.assignments, t.verified, t.failures, sortPairs t.sources, window 50 t.decisionIds⟩

/-- The rows that are summarised. -/
def summaryRows (policyId : String) (limit : ℤ) (rows : List (Dict F)) : List (Dict F) :=
  window (size limit) (policyRows E policyId rows)

def evidenceSummary (rows : List (Dict F)) (policyId : String) (limit : ℤ) : Py (EvidenceSummary F) :=
  summarise E (summaryRows E policyId limit rows)

/-! ### Decisions and their ids -/

/-- The decisions of a store, by id, with their rows. -/
def storedRows (log : Log) (notes : Notes F) : Py (List (String × Dict F)) := do
  return (sortPairs (← readRecords E log)).map fun p => (p.1, rowOf notes p.1 p.2)

/-- The id of a row. -/
def rowId (row : Dict F) : Option String := (E.strOr row "decision_id" "").toOption.map strip

/-- The rows with one of some ids. -/
def named (ids : List String) (rows : List (Dict F)) : List (Dict F) :=
  rows.filter fun row => (rowId E row).any fun id => decide (id ∈ ids)

/-- The evidence is the latest: that of the first state, that of an incident, and the decisions it names. -/
structure Recent {τ : Type} [LinearOrder τ] (time : Dict F → τ) (baselineLimit limit : ℤ) (policyId : String)
    (rows : List (Dict F)) (recentDecisionIds : List String) : Prop where
  baseline : Greatest time (size baselineLimit) rows (window (size baselineLimit) rows)
  summarised : Greatest time (size limit) (policyRows E policyId rows) (summaryRows E policyId limit rows)
  named : Greatest time (min 50 (size limit)) (policyRows E policyId rows)
    (named E recentDecisionIds (policyRows E policyId rows))

/-- The ids and the times are in step at the end of each window. -/
structure IdsInStep {τ : Type} [LinearOrder τ] (time : Dict F → τ) (baselineLimit limit : ℤ) (policyId : String)
    (stored : List (String × Dict F)) : Prop where
  baseline : InStep Prod.fst (fun p => time p.2) (size baselineLimit) stored
  summarised : InStep Prod.fst (fun p => time p.2) (size limit) (stored.filter fun p => ofPolicy E policyId p.2)
  named : InStep Prod.fst (fun p => time p.2) (min 50 (size limit)) (stored.filter fun p => ofPolicy E policyId p.2)

/-! ### The windows of the code -/

theorem load_eq (log : Log) (notes : Notes F) :
    loadLearningRecords E log notes = (storedRows E log notes).map (List.map Prod.snd) := by
  unfold loadLearningRecords storedRows
  cases readRecords E log with
  | error e => rfl
  | ok decisions =>
    show Except.ok _ = Except.ok _
    rw [List.map_map]
    rfl

/-- The contexts of the first state are those of the window. -/
theorem distribution_window (records : List (Dict F)) (manifest : Dict F) (limit : ℤ) :
    lowRiskContextDistribution E records manifest limit =
      lowRiskContextDistribution E (window (size limit) records) manifest limit := by
  have hagain : window (size limit) (window (size limit) records) = window (size limit) records := by
    rw [window_window, min_self]
  unfold lowRiskContextDistribution
  split
  · show (_ >>= fun _ => countRows E _ (window (size limit) records) [] 0 >>= _) =
      (_ >>= fun _ => countRows E _ (window (size limit) (window (size limit) records)) [] 0 >>= _)
    rw [hagain]
  · rfl

/-! ### Ids -/

/-- An entry is an object under its own id. -/
def OwnId (p : String × Json F) : Prop := ∃ d, p.2 = .obj d ∧ rowId E d = some p.1 ∧ p.1 ≠ ""

theorem readFiles_ownId : ∀ {log : Log} {records result : Dict F}, readFiles E log records = .ok result →
    (∀ p ∈ records, OwnId E p) → (keys records).Nodup → (∀ p ∈ result, OwnId E p) ∧ (keys result).Nodup
  | [], records, result, h, hown, hnodup => by
    rw [← Except.ok.inj h]
    exact ⟨hown, hnodup⟩
  | (name, text) :: log, records, result, h, hown, hnodup => by
    rw [readFiles, bind_eq_ok] at h
    obtain ⟨record?, -, h⟩ := h
    cases record? with
    | none => exact readFiles_ownId h hown hnodup
    | some d =>
      obtain ⟨id, hid, h⟩ := bind_eq_ok.mp h
      dsimp only at h
      by_cases hempty : strip id = ""
      · rw [if_pos hempty] at h
        exact readFiles_ownId h hown hnodup
      · rw [if_neg hempty] at h
        refine readFiles_ownId h (fun p hp => ?_) (nodup_keys_setKey _ _ hnodup)
        rcases mem_setKey hp with rfl | hp
        · refine ⟨d, rfl, ?_, hempty⟩
          rw [rowId, hid]
          rfl
        · exact hown p hp

variable {E}

theorem strOr_setKey_ne {k l default : String} (h : l ≠ k) (v : Json F) (d : Dict F) :
    E.strOr (setKey l v d) k default = E.strOr d k default := by
  rw [Env.strOr, Env.strOr, lookup_setKey_ne h]

theorem rowId_rowOf (notes : Notes F) (id : String) (d : Dict F) : rowId E (rowOf notes id (.obj d)) = rowId E d := by
  unfold rowId rowOf
  rw [strOr_setKey_ne (by decide), strOr_setKey_ne (by decide)]

/-- The decisions of a store have their own ids, in order. -/
theorem storedRows_spec {log : Log} {notes : Notes F} {stored : List (String × Dict F)}
    (h : storedRows E log notes = .ok stored) :
    (∀ p ∈ stored, rowId E p.2 = some p.1 ∧ p.1 ≠ "") ∧ stored.Pairwise fun p q => p.1 < q.1 := by
  unfold storedRows at h
  obtain ⟨decisions, hread, h⟩ := bind_eq_ok.mp h
  obtain ⟨hown, hnodup⟩ := readFiles_ownId E hread (fun p hp => absurd hp List.not_mem_nil) List.nodup_nil
  rw [← Except.ok.inj h]
  constructor
  · intro p hp
    obtain ⟨q, hq, rfl⟩ := List.mem_map.mp hp
    obtain ⟨d, hd, hid, hne⟩ := hown q ((perm_sortPairs decisions).mem_iff.mp hq)
    show rowId E (rowOf notes q.1 q.2) = some q.1 ∧ q.1 ≠ ""
    rw [hd, rowId_rowOf]
    exact ⟨hid, hne⟩
  · rw [List.pairwise_map]
    have hle : (sortPairs decisions).Pairwise fun p q => p.1 ≤ q.1 := List.pairwise_insertionSort _ _
    have hne : (sortPairs decisions).Pairwise fun p q => p.1 ≠ q.1 :=
      List.pairwise_map.mp (nodup_keys_sortPairs.mpr hnodup)
    exact (hle.and hne).imp fun hpq => lt_of_le_of_ne hpq.1 hpq.2

theorem tallyOutcome_ids {row : Dict F} {t t' : Tally F} (h : tallyOutcome E row t = .ok t') :
    t'.decisionIds = t.decisionIds := by
  unfold tallyOutcome at h
  split at h
  · rw [← Except.ok.inj h]
  · obtain ⟨source, -, h⟩ := bind_eq_ok.mp h
    rw [← Except.ok.inj h]

/-- The ids that are counted, in order. -/
theorem tallyRows_ids : ∀ {stored : List (String × Dict F)} {t t' : Tally F},
    (∀ p ∈ stored, rowId E p.2 = some p.1 ∧ p.1 ≠ "") → tallyRows E (stored.map Prod.snd) t = .ok t' →
      t'.decisionIds = t.decisionIds ++ stored.map Prod.fst
  | [], t, t', _, h => by
    rw [← Except.ok.inj h, List.map_nil, List.append_nil]
  | p :: stored, t, t', hid, h => by
    obtain ⟨hfirst, hrest⟩ := List.forall_mem_cons.mp hid
    obtain ⟨hown, hne⟩ := hfirst
    rw [List.map_cons, tallyRows] at h
    obtain ⟨assignments, -, h⟩ := bind_eq_ok.mp h
    obtain ⟨id, hread, h⟩ := bind_eq_ok.mp h
    obtain ⟨next, hnext, h⟩ := bind_eq_ok.mp h
    have hstrip : strip id = p.1 := by
      rw [rowId, hread] at hown
      exact Option.some.inj hown
    have hids := tallyOutcome_ids hnext
    rw [tallyRows_ids hrest h, hids]
    show (if strip id = "" then t.decisionIds else t.decisionIds ++ [strip id]) ++ _ = _
    rw [hstrip, if_neg hne, List.map_cons, List.append_assoc, List.singleton_append]

/-! ### The windows are recent -/

section Windows
variable {log : Log} {notes : Notes F} {stored : List (String × Dict F)} {policyId : String} {limit : ℤ}

theorem policyRows_map (policyId : String) (stored : List (String × Dict F)) :
    policyRows E policyId (stored.map Prod.snd) = (stored.filter fun p => ofPolicy E policyId p.2).map Prod.snd :=
  List.filter_map

/-- The rows that are named are the last ones of the policy. -/
theorem named_eq (hstored : storedRows E log notes = .ok stored) {summary : EvidenceSummary F}
    (hsummary : evidenceSummary E (stored.map Prod.snd) policyId limit = .ok summary) :
    named E summary.recentDecisionIds (policyRows E policyId (stored.map Prod.snd)) =
      window (min 50 (size limit)) (policyRows E policyId (stored.map Prod.snd)) := by
  obtain ⟨hids, hsorted⟩ := storedRows_spec hstored
  set own := stored.filter fun p => ofPolicy E policyId p.2 with hown
  have howned : ∀ p ∈ own, rowId E p.2 = some p.1 ∧ p.1 ≠ "" := fun p hp => hids p (List.mem_of_mem_filter hp)
  have hpairs : own.Pairwise fun p q => p.1 < q.1 := hsorted.filter _
  have hrecent : summary.recentDecisionIds = (window (min 50 (size limit)) own).map Prod.fst := by
    unfold evidenceSummary summaryRows summarise at hsummary
    obtain ⟨t, htally, hsummary⟩ := bind_eq_ok.mp hsummary
    rw [policyRows_map, ← hown, window_map] at htally
    have hlast := tallyRows_ids (fun p hp => howned p ((window_sublist _ own).subset hp)) htally
    rw [← Except.ok.inj hsummary]
    show window 50 t.decisionIds = _
    rw [hlast, List.nil_append, window_map, window_window]
  rw [policyRows_map, ← hown, window_map, ← filter_window hpairs, hrecent, named, List.filter_map]
  congr 1
  refine List.filter_congr fun p hp => ?_
  show (rowId E p.2).any _ = _
  rw [(howned p hp).1]
  rfl

theorem greatest_map {α β τ : Type} [LinearOrder τ] (f : α → β) (time : β → τ) (n : ℕ) (xs : List α) :
    Greatest time n (xs.map f) (window n (xs.map f)) ↔ Greatest (fun x => time (f x)) n xs (window n xs) := by
  rw [greatest_window_iff, greatest_window_iff, window_map, List.length_map, ← List.map_take]
  simp only [List.forall_mem_map]

/-- **The evidence is the latest** exactly where ids and times are in step. -/
theorem evidence_recent_iff {τ : Type} [LinearOrder τ] (time : Dict F → τ) {baselineLimit : ℤ} {rows : List (Dict F)}
    (hstored : storedRows E log notes = .ok stored) (hrows : loadLearningRecords E log notes = .ok rows)
    {summary : EvidenceSummary F} (hsummary : evidenceSummary E rows policyId limit = .ok summary) :
    Recent E time baselineLimit limit policyId rows summary.recentDecisionIds ↔
      IdsInStep E time baselineLimit limit policyId stored := by
  have hload : rows = stored.map Prod.snd := by
    rw [load_eq, hstored] at hrows
    exact (Except.ok.inj hrows).symm
  rw [hload] at hsummary ⊢
  obtain ⟨hids, hsorted⟩ := storedRows_spec hstored
  have hpolicy : (stored.filter fun p => ofPolicy E policyId p.2).Pairwise fun p q => p.1 < q.1 := hsorted.filter _
  have hall : ∀ n, Greatest time n (stored.map Prod.snd) (window n (stored.map Prod.snd)) ↔
      InStep Prod.fst (fun p => time p.2) n stored := fun n => by
    rw [greatest_map, greatest_iff_inStep hsorted]
  have hown : ∀ n, Greatest time n (policyRows E policyId (stored.map Prod.snd))
      (window n (policyRows E policyId (stored.map Prod.snd))) ↔
      InStep Prod.fst (fun p => time p.2) n (stored.filter fun p => ofPolicy E policyId p.2) := fun n => by
    rw [policyRows_map, greatest_map, greatest_iff_inStep hpolicy]
  have hnamed := named_eq hstored hsummary
  constructor
  · intro h
    have hrecent := h.named
    rw [hnamed] at hrecent
    exact ⟨(hall _).mp h.baseline, (hown _).mp h.summarised, (hown _).mp hrecent⟩
  · intro h
    refine ⟨(hall _).mpr h.baseline, (hown _).mpr h.summarised, ?_⟩
    rw [hnamed]
    exact (hown _).mpr h.named

end Windows

/-! ### Stores -/

section Samples
open ControlPlane.Instance

/-- A decision of the policy. -/
def sampleRecord (id createdAt : String) : Dict ℚ :=
  [("created_at", .str createdAt), ("decision_id", .str id), ("deployment", .obj [("policy_id", .str "policy")])]

def sampleFile (id createdAt : String) : String × String :=
  (id, ((exactPlatform.fileText true (.obj (sampleRecord id createdAt))).toOption).getD "")

def sampleRow (id createdAt : String) : Dict ℚ :=
  sampleRecord id createdAt ++ [("observation", .null), ("outcome", .null)]

theorem sample_loads (id createdAt : String) :
    exactPlatform.jsonLoads (sampleFile id createdAt).2 = .ok (.obj (sampleRecord id createdAt)) := by
  have hsorted : sortKeys (.obj (sampleRecord id createdAt)) = .obj (sampleRecord id createdAt) := by
    have hpairs : (sampleRecord id createdAt).Pairwise fun p q => p.1 ≤ q.1 := by
      simp only [sampleRecord, List.pairwise_cons, List.forall_mem_cons, List.Pairwise.nil]
      decide
    have hvalues : (sampleRecord id createdAt).map (fun p => (p.1, sortKeys p.2)) = sampleRecord id createdAt := by
      simp [sampleRecord, sortPairs]
    rw [sortKeys_obj, hvalues, sortPairs_of_sorted hpairs]
  have hwf : wellFormed (.obj (sampleRecord id createdAt)) = true := by rfl
  have hprint : printable exactPlatform.T.toFloatText true (.obj (sampleRecord id createdAt)) = true := by
    simp [sampleRecord, printable, printableDict]
  obtain ⟨text, htext⟩ : ∃ text, exactPlatform.fileText true (.obj (sampleRecord id createdAt)) = .ok text := by
    refine ⟨_, bind_eq_ok.mpr ⟨_, (jsonDumps_eq_ok _).mpr ⟨?_, rfl⟩, rfl⟩⟩
    rw [if_pos rfl, hsorted]
    exact hprint
  have hloads := jsonLoads_fileText exactPlatform hwf htext
  rw [hsorted] at hloads
  rw [sampleFile, htext]
  exact hloads

/-- The decisions of a store that holds records of the policy, in the order of their ids. -/
theorem stored_sample {ds : List (String × String)} (hids : ∀ d ∈ ds, isDecisionId d.1 = true)
    (hsorted : ds.Pairwise fun d e => d.1 < e.1) :
    storedRows exactPlatform (ds.map fun d => sampleFile d.1 d.2) ⟨[], []⟩ =
      .ok (ds.map fun d => (d.1, sampleRow d.1 d.2)) := by
  set log : Log := ds.map fun d => sampleFile d.1 d.2 with hlog
  have hcontent : ∀ d : String × String, content exactPlatform (sampleFile d.1 d.2).2 = sampleRecord d.1 d.2 := fun d =>
    content_eq exactPlatform (sample_loads d.1 d.2)
  have hinOrder : log.Pairwise fun p q => p.1 < q.1 := List.pairwise_map.mpr hsorted
  have hfiled : Filed exactPlatform log := by
    refine ⟨List.pairwise_map.mpr (hinOrder.imp fun hlt => hlt.ne), fun file hfile => ?_⟩
    obtain ⟨d, hd, rfl⟩ := List.mem_map.mp hfile
    refine ⟨?_, ?_, hids d hd⟩
    · rw [hcontent]
      exact sample_loads d.1 d.2
    · rw [hcontent]
      rfl
  have hfiles : sortedFiles log = log := (hinOrder.imp fun hlt => hlt.le).insertionSort_eq
  have hread : readRecords exactPlatform log = .ok (log.map (record exactPlatform)) := by
    have hall := @readFiles_filed _ exactPlatform log [] hfiled fun p _ => List.not_mem_nil
    rw [readRecords, hfiles, hall, List.nil_append]
  have hpairs : (log.map (record exactPlatform)).Pairwise fun p q => p.1 ≤ q.1 :=
    List.pairwise_map.mpr (hinOrder.imp fun hlt => hlt.le)
  unfold storedRows
  rw [hread]
  show Except.ok _ = _
  rw [sortPairs_of_sorted hpairs, hlog, List.map_map, List.map_map]
  refine congrArg Except.ok (List.map_congr_left fun d _ => ?_)
  show (d.1, rowOf ⟨[], []⟩ d.1 (.obj (content exactPlatform (sampleFile d.1 d.2).2))) = _
  rw [hcontent]
  rfl

/-- A summary of such records is made. -/
theorem summarise_sample (ds : List (String × String)) :
    ∃ summary, summarise exactPlatform (ds.map fun d => sampleRow d.1 d.2) = .ok summary := by
  have htally : ∀ (ds : List (String × String)) (t : Tally ℚ),
      ∃ t', tallyRows exactPlatform (ds.map fun d => sampleRow d.1 d.2) t = .ok t' := by
    intro ds
    induction ds with
    | nil => exact fun t => ⟨t, rfl⟩
    | cons d ds ih => exact fun t => ih _
  obtain ⟨t, ht⟩ := htally ds ⟨[], 0, 0, [], []⟩
  unfold summarise
  rw [ht]
  exact ⟨_, rfl⟩

theorem policyRows_sample (ds : List (String × String)) :
    policyRows exactPlatform "policy" (ds.map fun d => sampleRow d.1 d.2) = ds.map fun d => sampleRow d.1 d.2 := by
  rw [policyRows, List.filter_eq_self]
  intro row hrow
  obtain ⟨d, -, rfl⟩ := List.mem_map.mp hrow
  show same exactPlatform _ "policy_id" "policy" = true
  decide +kernel

/-- The time of a row, as text. -/
def createdAt (row : Dict ℚ) : String := ((exactPlatform.strOr row "created_at" "").toOption).getD ""

def sampleId (i : ℕ) : String := String.ofList (List.replicate 30 '0' ++ [hexChar (i / 16), hexChar i])

theorem isDecisionId_sample (i : ℕ) : isDecisionId (sampleId i) = true := by
  rw [isDecisionId, sampleId, String.length_ofList, String.toList_ofList, Bool.and_eq_true, List.all_eq_true]
  refine ⟨rfl, fun c hc => ?_⟩
  rcases List.mem_append.mp hc with hc | hc
  · rw [List.eq_of_mem_replicate hc]
    decide
  · rcases List.mem_pair.mp hc with rfl | rfl
    · exact hexChar_hex _
    · exact hexChar_hex _

theorem sampleId_lt {i j : ℕ} (hij : i < j) (hj : j < 51) : sampleId i < sampleId j := by
  have hlast : ∀ j < 51, ∀ i < j, [hexChar (i / 16), hexChar i] < [hexChar (j / 16), hexChar j] := by decide +kernel
  rw [String.lt_iff_toList_lt, sampleId, sampleId, String.toList_ofList, String.toList_ofList]
  exact List.append_left_lt (hlast j hj i hij)

/-- Fifty-one decisions; the one of the least id is the newest. -/
def fiftyOne : List (String × String) := (List.range 51).map fun i =>
  (sampleId i, if i = 0 then "2026-09-29T00:00:00+00:00" else "2026-09-28T00:00:00+00:00")

/-- **The newest decision is not among the recent ones.** -/
theorem newest_left_out : ∃ rows summary,
    loadLearningRecords exactPlatform (fiftyOne.map fun d => sampleFile d.1 d.2) ⟨[], []⟩ = .ok rows ∧
    evidenceSummary exactPlatform rows "policy" 200 = .ok summary ∧
    ¬ Recent exactPlatform createdAt 2000 200 "policy" rows summary.recentDecisionIds := by
  have hids : ∀ d ∈ fiftyOne, isDecisionId d.1 = true := by
    intro d hd
    obtain ⟨i, -, rfl⟩ := List.mem_map.mp hd
    exact isDecisionId_sample i
  have hsorted : fiftyOne.Pairwise fun d e => d.1 < e.1 := by
    refine List.pairwise_map.mpr (List.pairwise_lt_range.imp_of_mem fun _ hj hij => ?_)
    exact sampleId_lt hij (List.mem_range.mp hj)
  have hstored := stored_sample hids hsorted
  set stored := fiftyOne.map fun d => (d.1, sampleRow d.1 d.2) with hst
  have hmap : stored.map Prod.snd = fiftyOne.map fun d => sampleRow d.1 d.2 := by
    rw [hst, List.map_map]
    rfl
  have hpolicy : policyRows exactPlatform "policy" (stored.map Prod.snd) = stored.map Prod.snd := by
    rw [hmap, policyRows_sample]
  have hwindow : summaryRows exactPlatform "policy" 200 (stored.map Prod.snd) = stored.map Prod.snd := by
    have hlen : stored.length = 51 := by rw [hst, List.length_map, fiftyOne, List.length_map, List.length_range]
    have hcut : 51 - size 200 = 0 := by decide
    rw [summaryRows, hpolicy, window, List.length_map, hlen, hcut, List.drop_zero]
  obtain ⟨summary, hsummary⟩ := summarise_sample fiftyOne
  rw [← hmap, ← hwindow] at hsummary
  refine ⟨stored.map Prod.snd, summary, by rw [load_eq, hstored]; rfl, hsummary, fun h => ?_⟩
  have hnamed := h.named
  rw [named_eq hstored hsummary, hpolicy, hmap, greatest_window_iff] at hnamed
  have hle := hnamed (sampleRow (sampleId 0) "2026-09-29T00:00:00+00:00") (List.mem_cons_self ..)
    (sampleRow (sampleId 1) "2026-09-28T00:00:00+00:00") (List.mem_cons_self ..)
  exact absurd hle (by decide +kernel)

/-- Two decisions in the order of their ids. -/
def inOrder : List (String × String) :=
  [(sampleId 0, "2026-09-28T00:00:00+00:00"), (sampleId 1, "2026-09-29T00:00:00+00:00")]

theorem inStep_inOrder : InStep Prod.fst (fun p => createdAt p.2) 1 (inOrder.map fun d => (d.1, sampleRow d.1 d.2)) := by
  have hlast : ¬ 1 < above Prod.fst (inOrder.map fun d => (d.1, sampleRow d.1 d.2))
      (sampleId 1, sampleRow (sampleId 1) "2026-09-29T00:00:00+00:00") := by decide +kernel
  intro a ha b hb hout _
  rcases List.mem_pair.mp ha with rfl | rfl
  · rcases List.mem_pair.mp hb with rfl | rfl
    · exact le_rfl
    · show "2026-09-28T00:00:00+00:00" ≤ "2026-09-29T00:00:00+00:00"
      decide
  · exact absurd hout hlast

theorem evidence_recent_inOrder : ∃ rows summary,
    loadLearningRecords exactPlatform (inOrder.map fun d => sampleFile d.1 d.2) ⟨[], []⟩ = .ok rows ∧
    evidenceSummary exactPlatform rows "policy" 1 = .ok summary ∧
    Recent exactPlatform createdAt 1 1 "policy" rows summary.recentDecisionIds := by
  have hstored := @stored_sample inOrder (fun d hd => by
    rcases List.mem_pair.mp hd with rfl | rfl
    · exact isDecisionId_sample 0
    · exact isDecisionId_sample 1) (List.pairwise_pair.mpr (sampleId_lt (by decide) (by decide)))
  have hrows : loadLearningRecords exactPlatform (inOrder.map fun d => sampleFile d.1 d.2) ⟨[], []⟩ =
      .ok (inOrder.map fun d => sampleRow d.1 d.2) := by
    rw [load_eq, hstored]
    rfl
  obtain ⟨summary, hsummary⟩ := summarise_sample (window 1 inOrder)
  have hone : evidenceSummary exactPlatform (inOrder.map fun d => sampleRow d.1 d.2) "policy" 1 = .ok summary := by
    rw [evidenceSummary, summaryRows, policyRows_sample, window_map]
    exact hsummary
  have hpolicy : ((inOrder.map fun d => (d.1, sampleRow d.1 d.2)).filter fun p => ofPolicy exactPlatform "policy" p.2) =
      inOrder.map fun d => (d.1, sampleRow d.1 d.2) := by
    rw [List.filter_eq_self]
    intro p hp
    obtain ⟨d, -, rfl⟩ := List.mem_map.mp hp
    show same exactPlatform _ "policy_id" "policy" = true
    decide +kernel
  refine ⟨_, summary, hrows, hone, (evidence_recent_iff createdAt hstored hrows hone).mpr ⟨inStep_inOrder, ?_, ?_⟩⟩
  · rw [hpolicy]
    exact inStep_inOrder
  · rw [hpolicy]
    exact inStep_inOrder

end Samples

end ControlPlane.Deployment.Incident
