import ControlPlane.Benchmark.Protocol
import ControlPlane.Instance
import ControlPlane.Lib.Rearrangement
import ControlPlane.Retrieval.Items
import Mathlib.Algebra.Order.Field.Basic
import Mathlib.Data.Finset.Card
import Mathlib.Data.List.ReduceOption
import Mathlib.Tactic.FieldSimp

/-! # Ranking metrics

The files that the items name, each once and up to a cutoff, are compared with the files that should be found: with
a list of them (`fileRetrievalMetrics`), or with files in two roles of different gain (`roleAwareFileMetrics`).

The discount of a rank is any positive sequence that does not increase. Then every rate lies between zero and one,
the discounted gain is at most the ideal one and reaches it for the relevant files in the order of their gains, and
it does not fall if a file of higher gain is moved one rank forward (`normalised`). -/

namespace ControlPlane.Benchmark.Ranking

open ControlPlane.Lib.Value ControlPlane.Lib.Text ControlPlane.Lib.Dynamic ControlPlane.Lib.Rearrangement
open ControlPlane.Environment ControlPlane.Retrieval.Items ControlPlane.Benchmark.Protocol

variable {F : Type} (E : Env F) (isDigit : Char → Bool)

/-! ### The file of an item -/

def pathKeys : List String := ["file", "path", "relative_path", "file_path"]

/-- The first of the keys with a text that is not blank. -/
def pathIn (container : Dict F) : Option String :=
  pathKeys.findSome? fun key => match getKey container key with
    | .str value => if strip value = "" then none else some (normalizeFilePath value)
    | _ => none

/-- `_json_object(text) or {}` -/
def jsonObject (text : String) : Py (Dict F) :=
  match E.jsonLoads text with
  | .ok (.obj d) => .ok d
  | .ok _ => .ok []
  | .error (.jsonDecodeError _) => .ok []
  | .error e => .error e

/-- What follows a number. -/
def afterNumber (text : List Char) : Option (List Char) :=
  if text.head?.any isDigit then some (text.dropWhile isDigit) else none

/-- `:\s` -/
def colonSpace : List Char → Bool
  | ':' :: c :: _ => isSpace c
  | _ => false

/-- `:\d+(?::\d+)?:\s` -/
def lineNumbers : List Char → Bool
  | ':' :: text => match afterNumber isDigit text with
    | some rest => colonSpace rest || match rest with
      | ':' :: more => (afterNumber isDigit more).any colonSpace
      | _ => false
    | none => false
  | _ => false

/-- The shortest start of a text, without a line break, before something. -/
def shortest (before : List Char → Bool) (text : List Char) : Option (List Char) :=
  (List.range' 1 text.length).findSome? fun n =>
    if '\n' ∉ text.take n ∧ before (text.drop n) = true then some (text.take n) else none

/-- `^(?P<path>.+?):\d+(?::\d+)?:\s` -/
def lineMatch (text : List Char) : Option (List Char) := shortest (lineNumbers isDigit) text

/-- `\s+\(for\s+` -/
def beforeFor (text : List Char) : Bool :=
  text.head?.any isSpace && match text.dropWhile isSpace with
    | '(' :: 'f' :: 'o' :: 'r' :: c :: _ => isSpace c
    | _ => false

/-- `Detected test file:\s+(.+?)\s+\(for\s+`, anywhere; the first white space is taken as far as it can be. -/
def testMatch (text : List Char) : Option (List Char) :=
  text.tails.findSome? fun found =>
    let marker := "Detected test file:".toList
    if marker.isPrefixOf found then
      let rest := found.drop marker.length
      (List.range' 1 (rest.takeWhile isSpace).length).reverse.findSome? fun blanks =>
        shortest beforeFor (rest.drop blanks)
    else none

def contextItemFile (item : ContextItem F) : Py (Option String) := do
  let payload ← jsonObject E item.text
  match [item.metadata, item.provenance, payload].findSome? pathIn with
  | some path => return some path
  | none =>
    match lineMatch isDigit item.text.toList with
    | some path => return some (normalizeFilePath (String.ofList path))
    | none => return (testMatch item.text.toList).map fun path => normalizeFilePath (String.ofList path)

/-- The loop over the items, which ends at the cutoff. -/
def rankFiles (cutoff : ℕ) (ranked : List String) : List (ContextItem F) → Py (List String)
  | [] => .ok ranked
  | item :: items => do
    let path := (← contextItemFile E isDigit item).getD ""
    if path = "" ∨ path ∈ ranked then rankFiles cutoff ranked items
    else if cutoff ≤ (ranked ++ [path]).length then return ranked ++ [path]
    else rankFiles cutoff (ranked ++ [path]) items

/-- `max(1, int(k))` -/
def cutoffOf (k : ℤ) : ℕ := (max 1 k).toNat

/-! ### Files -/

variable {K : Type} [Field K] [LinearOrder K] (d : Discount K)

structure FileMetrics (K : Type) where
  k : ℕ
  goldFiles : List String
  retrievedFiles : List String
  matchedGoldFiles : List String
  precisionAtK : K
  recallAtK : K
  mrr : K
  ndcgAtK : K
  fileF1 : K

/-- The place of the first file with a property, from one on. -/
def firstRank (p : String → Bool) (ranked : List String) : Option ℕ := (ranked.findIdx? p).map (· + 1)

def fileMetrics (gold : List String) (cutoff : ℕ) (ranked : List String) : FileMetrics K :=
  let hit := fun path => decide (path ∈ gold)
  let matched := ranked.filter hit
  let dcg := discounted d 1 (ranked.map fun path => if hit path then 1 else 0)
  let idealDcg := discounted d 1 (List.replicate (min gold.length cutoff) 1)
  let precision : K := matched.length / cutoff
  let recalled : K := matched.toFinset.card / gold.toFinset.card
  { k := cutoff
    goldFiles := gold
    retrievedFiles := ranked
    matchedGoldFiles := matched.eraseDups
    precisionAtK := precision
    recallAtK := recalled
    mrr := match firstRank hit ranked with
      | some rank => 1 / rank
      | none => 0
    ndcgAtK := if idealDcg = 0 then 0 else dcg / idealDcg
    fileF1 := if precision + recalled = 0 then 0 else 2 * precision * recalled / (precision + recalled) }

def fileRetrievalMetrics (items : List (ContextItem F)) (goldFiles : List String) (k : ℤ) :
    Py (Option (FileMetrics K)) := do
  let gold := ((goldFiles.filter fun path => strip path ≠ "").map normalizeFilePath).eraseDups
  if gold = [] then return none
  let ranked ← rankFiles E isDigit (cutoffOf k) [] items
  return some (fileMetrics d gold (cutoffOf k) ranked)

/-! ### Roles -/

inductive Role where
  | editTarget
  | supportingContext
  deriving DecidableEq

/-- `ROLE_GAINS` -/
def Role.gain : Role → ℕ
  | .editTarget => 2
  | .supportingContext => 1

def roleOf? (text : String) : Option Role :=
  if text = "edit_target" then some .editTarget
  else if text = "supporting_context" then some .supportingContext
  else none

/-- The roles of paths; a later row for a path takes the place of an earlier one. -/
abbrev Roles := List (String × Role)

/-- `roles[path] = role` -/
def assign (path : String) (role : Role) : Roles → Roles
  | [] => [(path, role)]
  | (other, r) :: roles => if other = path then (path, role) :: roles else (other, r) :: assign path role roles

/-- The roles with that of a row. -/
def addRole (roles : Roles) (row : Dict F) : Py Roles := do
  let path := normalizeFilePath (← E.strOr row "path" "")
  let role := strip (← E.strOr row "role" "")
  return match roleOf? role with
    | some role => if path = "" then roles else assign path role roles
    | none => roles

def rolesOf (rows : List (Dict F)) : Py Roles := rows.foldlM (addRole E) []

/-- `ROLE_GAINS.get(roles.get(path, ""), 0)` -/
def gainOf (roles : Roles) (path : String) : ℕ := ((roles.find? fun r => r.1 = path).map fun r => r.2.gain).getD 0

/-- `2**gain - 1` -/
def worth (gain : ℕ) : K := 2 ^ gain - 1

/-- `a / b`, of two counts, if there is something to count. -/
def rate (present : Bool) (a b : ℕ) : Option K := if present then some (a / b) else none

structure RoleMetrics (K : Type) where
  k : ℕ
  editTargetFiles : List String
  supportingContextFiles : List String
  knownDistractorFiles : List String
  retrievedFiles : List String
  matchedEditTargets : List String
  matchedSupportingContext : List String
  matchedKnownDistractors : List String
  editTargetRecallAtK : Option K
  supportingContextRecallAtK : Option K
  editTargetMrr : Option K
  weightedRecallAtK : Option K
  gradedNdcgAtK : Option K
  usefulPrecisionAtK : Option K
  knownDistractorRateAtK : Option K
  coverageBalance : Option K

def pathsWith (roles : Roles) (role : Role) : List String := (roles.filter fun r => r.2 = role).map Prod.fst

def roleMetrics (roles : Roles) (distractors : List String) (cutoff : ℕ) (ranked : List String) : RoleMetrics K :=
  let editTargets := pathsWith roles .editTarget
  let supporting := pathsWith roles .supportingContext
  let relevant := roles.map Prod.fst
  let found := fun (paths : List String) => ranked.filter fun path => decide (path ∈ paths)
  let editRecall := rate (!editTargets.isEmpty) (found editTargets).toFinset.card editTargets.toFinset.card
  let supportRecall := rate (!supporting.isEmpty) (found supporting).toFinset.card supporting.toFinset.card
  let dcg := discounted d 1 (ranked.map fun path => worth (gainOf roles path))
  let idealGains := ((roles.map fun r => r.2.gain).insertionSort (· ≥ ·)).take cutoff
  let idealDcg := discounted d 1 (idealGains.map worth)
  let weightedTotal := (roles.map fun r => r.2.gain).sum
  let weightedMatched := ∑ path ∈ (found relevant).toFinset, gainOf roles path
  { k := cutoff
    editTargetFiles := editTargets.insertionSort (· ≤ ·)
    supportingContextFiles := supporting.insertionSort (· ≤ ·)
    knownDistractorFiles := distractors.insertionSort (· ≤ ·)
    retrievedFiles := ranked
    matchedEditTargets := found editTargets
    matchedSupportingContext := found supporting
    matchedKnownDistractors := found distractors
    editTargetRecallAtK := editRecall
    supportingContextRecallAtK := supportRecall
    editTargetMrr := (firstRank (fun path => decide (path ∈ editTargets)) ranked).map fun rank : ℕ => 1 / (rank : K)
    weightedRecallAtK := rate (weightedTotal != 0) weightedMatched weightedTotal
    gradedNdcgAtK := if idealDcg = 0 then none else some (dcg / idealDcg)
    usefulPrecisionAtK := rate (!relevant.isEmpty) (found relevant).toFinset.card cutoff
    knownDistractorRateAtK := rate (!distractors.isEmpty) (found distractors).toFinset.card cutoff
    coverageBalance := match editRecall, supportRecall with
      | some a, some b => some (min a b)
      | _, _ => none }

def roleAwareFileMetrics (items : List (ContextItem F)) (fileRelevance : List (Dict F)) (distractorFiles : List String)
    (k : ℤ) : Py (Option (RoleMetrics K)) := do
  if fileRelevance = [] ∧ distractorFiles = [] then return none
  let roles ← rolesOf E fileRelevance
  let distractors := ((distractorFiles.filter fun path => strip path ≠ "").map normalizeFilePath).eraseDups
  let ranked ← rankFiles E isDigit (cutoffOf k) [] items
  return some (roleMetrics d roles distractors (cutoffOf k) ranked)

/-! ### What is to be shown -/

def FileMetrics.rates (m : FileMetrics K) : List K := [m.precisionAtK, m.recallAtK, m.mrr, m.ndcgAtK, m.fileF1]

/-- The rates that a report has. -/
def RoleMetrics.rates (m : RoleMetrics K) : List K :=
  [m.editTargetRecallAtK, m.supportingContextRecallAtK, m.editTargetMrr, m.weightedRecallAtK, m.gradedNdcgAtK,
    m.usefulPrecisionAtK, m.knownDistractorRateAtK, m.coverageBalance].reduceOption

/-- The relevant files in decreasing order of their gains, up to the cutoff. -/
def InOrder (cutoff : ℕ) (relevant : List String) (gain : String → ℕ) (ranked : List String) : Prop :=
  ∃ ordered : List String, ordered.Perm relevant ∧ ordered.Pairwise (fun a b => gain b ≤ gain a) ∧
    ranked = ordered.take cutoff

/-- Two rankings of which the second has `b` one rank before `a`, wherever they are cut. -/
def Swapped (cutoff : ℕ) (a b : String) (ranked other : List String) : Prop :=
  ∃ pre post, ranked = (pre ++ a :: b :: post).take cutoff ∧ other = (pre ++ b :: a :: post).take cutoff

structure Normalised (d : Discount K) : Prop where
  file_rates : ∀ items goldFiles k m, fileRetrievalMetrics E isDigit d items goldFiles k = .ok (some m) →
    ∀ q ∈ m.rates, 0 ≤ q ∧ q ≤ 1
  file_ideal : ∀ items goldFiles k m, fileRetrievalMetrics E isDigit d items goldFiles k = .ok (some m) →
    InOrder m.k m.goldFiles (fun _ => 1) m.retrievedFiles → m.ndcgAtK = 1
  file_swap : ∀ items items' goldFiles k m m' a b,
    fileRetrievalMetrics E isDigit d items goldFiles k = .ok (some m) →
    fileRetrievalMetrics E isDigit d items' goldFiles k = .ok (some m') →
    Swapped m.k a b m.retrievedFiles m'.retrievedFiles → (a ∈ m.goldFiles → b ∈ m.goldFiles) →
    m.ndcgAtK ≤ m'.ndcgAtK
  role_rates : ∀ items rows distractors k m, roleAwareFileMetrics E isDigit d items rows distractors k = .ok (some m) →
    ∀ q ∈ m.rates, 0 ≤ q ∧ q ≤ 1
  role_ideal : ∀ items rows distractors k m roles,
    roleAwareFileMetrics E isDigit d items rows distractors k = .ok (some m) → rolesOf E rows = .ok roles →
    roles ≠ [] → InOrder m.k (roles.map Prod.fst) (gainOf roles) m.retrievedFiles → m.gradedNdcgAtK = some 1
  role_swap : ∀ items items' rows distractors k m m' roles a b,
    roleAwareFileMetrics E isDigit d items rows distractors k = .ok (some m) →
    roleAwareFileMetrics E isDigit d items' rows distractors k = .ok (some m') → rolesOf E rows = .ok roles →
    Swapped m.k a b m.retrievedFiles m'.retrievedFiles → gainOf roles a ≤ gainOf roles b →
    m.gradedNdcgAtK = none ∧ m'.gradedNdcgAtK = none ∨
      ∃ q q', m.gradedNdcgAtK = some q ∧ m'.gradedNdcgAtK = some q' ∧ q ≤ q'

/-! ### The files that are found -/

variable {E isDigit}

theorem rankFiles_spec {cutoff : ℕ} : ∀ {items : List (ContextItem F)} {ranked r : List String}, ranked.Nodup →
    ranked.length < cutoff → rankFiles E isDigit cutoff ranked items = .ok r → r.Nodup ∧ r.length ≤ cutoff
  | [], ranked, r, hnodup, hlength, h => by
    cases h
    exact ⟨hnodup, hlength.le⟩
  | item :: items, ranked, r, hnodup, hlength, h => by
    rw [rankFiles, bind_eq_ok] at h
    obtain ⟨path?, -, h⟩ := h
    dsimp only at h
    have hadd : ∀ path, ¬(path = "" ∨ path ∈ ranked) → (ranked ++ [path]).Nodup := by
      intro path hskip
      rw [List.nodup_append]
      refine ⟨hnodup, List.nodup_singleton path, fun a ha b hb hab => hskip (Or.inr ?_)⟩
      rw [← List.mem_singleton.mp hb, ← hab]
      exact ha
    split_ifs at h with hskip hfull
    · exact rankFiles_spec hnodup hlength h
    · cases h
      refine ⟨hadd _ hskip, ?_⟩
      rw [List.length_append, List.length_singleton]
      omega
    · exact rankFiles_spec (hadd _ hskip) (not_le.mp hfull) h

theorem cutoffOf_pos (k : ℤ) : 0 < cutoffOf k := by
  unfold cutoffOf
  omega

/-- **The files are found once each**, and no more of them than the cutoff. -/
theorem rankFiles_found {items : List (ContextItem F)} {k : ℤ} {r : List String}
    (h : rankFiles E isDigit (cutoffOf k) [] items = .ok r) : r.Nodup ∧ r.length ≤ cutoffOf k :=
  rankFiles_spec List.nodup_nil (cutoffOf_pos k) h

/-! ### Rates -/

section Rates
variable [IsStrictOrderedRing K]

theorem unit_div {a b : ℕ} (h : a ≤ b) : 0 ≤ (a : K) / b ∧ (a : K) / b ≤ 1 := by
  have hb : (0 : K) ≤ b := Nat.cast_nonneg b
  refine ⟨div_nonneg (Nat.cast_nonneg a) hb, div_le_one_of_le₀ (Nat.cast_le.mpr h) hb⟩

theorem unit_rate {present : Bool} {a b : ℕ} (h : a ≤ b) :
    ∀ q ∈ (rate present a b : Option K), 0 ≤ q ∧ q ≤ 1 := by
  intro q hq
  unfold rate at hq
  split_ifs at hq
  · rw [← Option.some.inj hq]
    exact unit_div h
  · cases hq

theorem unit_one_div {rank : ℕ} (h : 1 ≤ rank) : 0 ≤ 1 / (rank : K) ∧ 1 / (rank : K) ≤ 1 := by
  have hunit := unit_div (K := K) h
  rwa [Nat.cast_one] at hunit

theorem one_le_firstRank {p : String → Bool} {ranked : List String} {rank : ℕ} (h : firstRank p ranked = some rank) :
    1 ≤ rank := by
  obtain ⟨index, -, rfl⟩ := Option.map_eq_some_iff.mp h
  omega

/-- The harmonic mean of two rates. -/
theorem unit_f1 {p r : K} (hp : 0 ≤ p ∧ p ≤ 1) (hr : 0 ≤ r ∧ r ≤ 1) :
    0 ≤ (if p + r = 0 then 0 else 2 * p * r / (p + r)) ∧ (if p + r = 0 then 0 else 2 * p * r / (p + r)) ≤ 1 := by
  by_cases hzero : p + r = 0
  · rw [if_pos hzero]
    exact ⟨le_rfl, zero_le_one⟩
  · rw [if_neg hzero]
    have hsum : 0 ≤ p + r := add_nonneg hp.1 hr.1
    have hleft : p * r ≤ p := mul_le_of_le_one_right hp.1 hr.2
    have hright : p * r ≤ r := mul_le_of_le_one_left hr.1 hp.2
    refine ⟨div_nonneg (mul_nonneg (mul_nonneg zero_le_two hp.1) hr.1) hsum, div_le_one_of_le₀ ?_ hsum⟩
    linarith

/-- A part of an ideal that is not zero. -/
theorem unit_ndcg {dcg ideal : K} (h0 : 0 ≤ dcg) (h : dcg ≤ ideal) : 0 ≤ dcg / ideal ∧ dcg / ideal ≤ 1 :=
  ⟨div_nonneg h0 (h0.trans h), div_le_one_of_le₀ h (h0.trans h)⟩

end Rates

theorem card_found_le (ranked paths : List String) :
    (ranked.filter fun path => decide (path ∈ paths)).toFinset.card ≤ paths.toFinset.card := by
  refine Finset.card_le_card fun path hpath => ?_
  rw [List.mem_toFinset] at hpath ⊢
  exact of_decide_eq_true (List.mem_filter.mp hpath).2

theorem card_found_le_length (ranked paths : List String) :
    (ranked.filter fun path => decide (path ∈ paths)).toFinset.card ≤ ranked.length :=
  (List.toFinset_card_le _).trans (List.length_filter_le _ _)

/-! ### The gain of files -/

section Files
variable {d : Discount K} {gold ranked : List String} {cutoff : ℕ}

/-- The gain of a file of the list. -/
def goldGain (K : Type) [Field K] (gold : List String) (path : String) : K :=
  if decide (path ∈ gold) = true then 1 else 0

omit [LinearOrder K] in
theorem goldGain_map (gold : List String) : gold.map (goldGain K gold) = List.replicate gold.length 1 := by
  refine List.eq_replicate_iff.mpr ⟨List.length_map _, fun g hg => ?_⟩
  obtain ⟨path, hpath, rfl⟩ := List.mem_map.mp hg
  exact if_pos (decide_eq_true hpath)

omit [LinearOrder K] in
theorem goldGain_perm (gold : List String) :
    (List.replicate gold.length (1 : K)).Perm (gold.map (goldGain K gold)) := by
  rw [goldGain_map]

variable [IsStrictOrderedRing K]

theorem goldGain_nonneg (path : String) : 0 ≤ goldGain K gold path := by
  unfold goldGain
  split_ifs
  · exact zero_le_one
  · exact le_rfl

omit [IsStrictOrderedRing K] in
theorem sorted_ones (n : ℕ) : (List.replicate n (1 : K)).Pairwise fun a b => b ≤ a :=
  List.pairwise_replicate.mpr (Or.inr le_rfl)

theorem ideal_ones_pos (hgold : gold ≠ []) (hcutoff : 0 < cutoff) :
    0 < discounted d 1 (List.replicate (min gold.length cutoff) (1 : K)) := by
  have hlength := List.length_pos_iff.mpr hgold
  obtain ⟨n, hn⟩ : ∃ n, min gold.length cutoff = n + 1 := ⟨min gold.length cutoff - 1, by omega⟩
  rw [hn, List.replicate_succ]
  refine discounted_pos zero_lt_one fun g hg => ?_
  rw [List.eq_of_mem_replicate hg]
  exact zero_le_one

omit [LinearOrder K] [IsStrictOrderedRing K] in
theorem take_ones (n cutoff : ℕ) : (List.replicate n (1 : K)).take cutoff = List.replicate (min n cutoff) 1 := by
  rw [List.take_replicate, min_comm]

theorem fileMetrics_ndcg (hgold : gold ≠ []) (hcutoff : 0 < cutoff) : (fileMetrics d gold cutoff ranked).ndcgAtK =
    discounted d 1 (ranked.map (goldGain K gold)) / discounted d 1 (List.replicate (min gold.length cutoff) 1) :=
  if_neg (ideal_ones_pos hgold hcutoff).ne'

/-- **The rates of files** lie between zero and one. -/
theorem fileMetrics_rates (hgold : gold ≠ []) (hcutoff : 0 < cutoff) (hnodup : ranked.Nodup)
    (hlength : ranked.length ≤ cutoff) : ∀ q ∈ (fileMetrics d gold cutoff ranked).rates, 0 ≤ q ∧ q ≤ 1 := by
  have hprecision : 0 ≤ (fileMetrics d gold cutoff ranked).precisionAtK ∧
      (fileMetrics d gold cutoff ranked).precisionAtK ≤ 1 :=
    unit_div ((List.length_filter_le _ _).trans hlength)
  have hrecall : 0 ≤ (fileMetrics d gold cutoff ranked).recallAtK ∧
      (fileMetrics d gold cutoff ranked).recallAtK ≤ 1 := unit_div (card_found_le ranked gold)
  have hmrr : 0 ≤ (fileMetrics d gold cutoff ranked).mrr ∧ (fileMetrics d gold cutoff ranked).mrr ≤ 1 := by
    unfold fileMetrics
    dsimp only
    cases hfirst : firstRank (fun path => decide (path ∈ gold)) ranked with
    | none => exact ⟨le_rfl, zero_le_one⟩
    | some rank => exact unit_one_div (one_le_firstRank hfirst)
  have hndcg : 0 ≤ (fileMetrics d gold cutoff ranked).ndcgAtK ∧ (fileMetrics d gold cutoff ranked).ndcgAtK ≤ 1 := by
    rw [fileMetrics_ndcg hgold hcutoff, ← take_ones]
    refine unit_ndcg (discounted_nonneg fun g hg => ?_) (discounted_le_ideal hnodup hlength (fun path _ hgain => ?_)
      (@sorted_ones K _ _ gold.length) (fun s hs => ?_) (goldGain_perm gold))
    · obtain ⟨path, -, rfl⟩ := List.mem_map.mp hg
      exact goldGain_nonneg path
    · by_contra hnot
      exact hgain (if_neg fun hin => hnot (of_decide_eq_true hin))
    · rw [List.eq_of_mem_replicate hs]
      exact zero_le_one
  intro q hq
  simp only [FileMetrics.rates, List.mem_cons, List.not_mem_nil, or_false] at hq
  rcases hq with rfl | rfl | rfl | rfl | rfl
  · exact hprecision
  · exact hrecall
  · exact hmrr
  · exact hndcg
  · exact unit_f1 hprecision hrecall

theorem fileMetrics_ideal (hgold : gold ≠ []) (hcutoff : 0 < cutoff) (h : InOrder cutoff gold (fun _ => 1) ranked) :
    (fileMetrics d gold cutoff ranked).ndcgAtK = 1 := by
  obtain ⟨ordered, hperm, -, rfl⟩ := h
  have hmem : ∀ path ∈ ordered, goldGain K gold path = 1 := fun path hpath =>
    if_pos (decide_eq_true (hperm.subset hpath))
  have hgains : ordered.Pairwise fun a b => goldGain K gold b ≤ goldGain K gold a :=
    List.pairwise_of_forall_mem_list fun a ha b hb => by rw [hmem a ha, hmem b hb]
  have htake := take_of_ordered cutoff hperm hgains (@sorted_ones K _ _ gold.length) (goldGain_perm gold)
  rw [fileMetrics_ndcg hgold hcutoff, htake, take_ones]
  exact div_self (ideal_ones_pos hgold hcutoff).ne'

theorem fileMetrics_swap (hgold : gold ≠ []) (hcutoff : 0 < cutoff) {other : List String} {a b : String}
    (h : Swapped cutoff a b ranked other) (hab : a ∈ gold → b ∈ gold) :
    (fileMetrics d gold cutoff ranked).ndcgAtK ≤ (fileMetrics d gold cutoff other).ndcgAtK := by
  obtain ⟨pre, post, rfl, rfl⟩ := h
  have hgain : goldGain K gold a ≤ goldGain K gold b := by
    by_cases ha : a ∈ gold
    · rw [goldGain, goldGain, if_pos (decide_eq_true ha), if_pos (decide_eq_true (hab ha))]
    · have hzero : goldGain K gold a = 0 := if_neg fun hin => ha (of_decide_eq_true hin)
      rw [hzero]
      exact goldGain_nonneg b
  rw [fileMetrics_ndcg hgold hcutoff, fileMetrics_ndcg hgold hcutoff]
  exact div_le_div_of_nonneg_right (discounted_swap goldGain_nonneg hgain cutoff 1)
    (ideal_ones_pos hgold hcutoff).le

end Files

/-! ### The gain of roles -/

section Roles
variable {roles : Roles} {distractors ranked : List String} {cutoff : ℕ}

theorem keys_assign (path : String) (role : Role) : ∀ roles : Roles,
    (assign path role roles).map Prod.fst =
      if path ∈ roles.map Prod.fst then roles.map Prod.fst else roles.map Prod.fst ++ [path]
  | [] => rfl
  | (other, r) :: roles => by
    rw [assign]
    by_cases hsame : other = path
    · rw [if_pos hsame, if_pos (by rw [← hsame]; exact List.mem_cons_self), List.map_cons, List.map_cons, hsame]
    · rw [if_neg hsame, List.map_cons, keys_assign path role roles, List.map_cons]
      have hmem : path ∈ other :: roles.map Prod.fst ↔ path ∈ roles.map Prod.fst := by
        rw [List.mem_cons, or_iff_right fun h => hsame h.symm]
      by_cases hin : path ∈ roles.map Prod.fst
      · rw [if_pos hin, if_pos (hmem.mpr hin)]
      · rw [if_neg hin, if_neg fun h => hin (hmem.mp h), List.cons_append]

theorem nodup_assign {path : String} {role : Role} (h : (roles.map Prod.fst).Nodup) :
    ((assign path role roles).map Prod.fst).Nodup := by
  rw [keys_assign]
  split_ifs with hin
  · exact h
  · rw [List.nodup_append]
    refine ⟨h, List.nodup_singleton path, fun a ha b hb hab => hin ?_⟩
    rw [← List.mem_singleton.mp hb, ← hab]
    exact ha

theorem nodup_addRole {roles after : Roles} {row : Dict F} (hnodup : (roles.map Prod.fst).Nodup)
    (h : addRole E roles row = .ok after) : (after.map Prod.fst).Nodup := by
  unfold addRole at h
  rw [bind_eq_ok] at h
  obtain ⟨path, -, h⟩ := h
  rw [bind_eq_ok] at h
  obtain ⟨role, -, h⟩ := h
  have hafter := Except.ok.inj h
  rw [← hafter]
  cases roleOf? (strip role) with
  | none => exact hnodup
  | some role =>
    dsimp only
    split_ifs
    · exact hnodup
    · exact nodup_assign hnodup

/-- **Every path has one role.** -/
theorem nodup_rolesOf {rows : List (Dict F)} (h : rolesOf E rows = .ok roles) : (roles.map Prod.fst).Nodup := by
  unfold rolesOf at h
  induction rows using List.reverseRecOn generalizing roles with
  | nil =>
    rw [← Except.ok.inj h]
    exact List.nodup_nil
  | append_singleton rows row ih =>
    rw [List.foldlM_append, bind_eq_ok] at h
    obtain ⟨before, hbefore, h⟩ := h
    rw [List.foldlM_cons, bind_eq_ok] at h
    obtain ⟨after, hafter, h⟩ := h
    rw [← Except.ok.inj h]
    exact nodup_addRole (ih hbefore) hafter

theorem gainOf_mem (hnodup : (roles.map Prod.fst).Nodup) {r : String × Role} (h : r ∈ roles) :
    gainOf roles r.1 = r.2.gain := by
  have hfind : roles.find? (fun s => decide (s.1 = r.1)) = some r := by
    cases hfound : roles.find? (fun s => decide (s.1 = r.1)) with
    | none =>
      have hno := List.find?_eq_none.mp hfound r h
      exact absurd (decide_eq_true rfl) hno
    | some s =>
      have htest := List.find?_some hfound
      have hkey : s.1 = r.1 := of_decide_eq_true htest
      rw [List.inj_on_of_nodup_map hnodup (List.mem_of_find?_eq_some hfound) h hkey]
  rw [gainOf, hfind]
  rfl

/-- The gains of the roles are those of their paths. -/
theorem map_gain (hnodup : (roles.map Prod.fst).Nodup) :
    roles.map (fun r => r.2.gain) = (roles.map Prod.fst).map (gainOf roles) := by
  rw [List.map_map]
  exact List.map_congr_left fun r hr => (gainOf_mem hnodup hr).symm

theorem mem_of_gain {path : String} (h : gainOf roles path ≠ 0) : path ∈ roles.map Prod.fst := by
  unfold gainOf at h
  cases hfound : roles.find? (fun r => decide (r.1 = path)) with
  | none =>
    rw [hfound] at h
    exact absurd rfl h
  | some r =>
    have htest := List.find?_some hfound
    have hkey : r.1 = path := of_decide_eq_true htest
    exact List.mem_map.mpr ⟨r, List.mem_of_find?_eq_some hfound, hkey⟩

theorem gain_pos (role : Role) : 0 < role.gain := by
  cases role <;> decide

variable [IsStrictOrderedRing K]

theorem worth_mono {m n : ℕ} (h : m ≤ n) : (worth m : K) ≤ worth n :=
  sub_le_sub_right (pow_le_pow_right₀ one_le_two h) 1

omit [LinearOrder K] [IsStrictOrderedRing K] in
theorem worth_zero : (worth 0 : K) = 0 := by
  rw [worth, pow_zero, sub_self]

theorem worth_nonneg (n : ℕ) : 0 ≤ (worth n : K) := by
  rw [← worth_zero (K := K)]
  exact worth_mono (Nat.zero_le n)

theorem worth_pos {n : ℕ} (h : 0 < n) : 0 < (worth n : K) := by
  have hone : (worth 1 : K) = 1 := by
    unfold worth
    ring
  have hle : (worth 1 : K) ≤ worth n := worth_mono h
  rw [hone] at hle
  exact zero_lt_one.trans_le hle

/-- What the ideal ranking is made of. -/
def idealWorths (K : Type) [Field K] (roles : Roles) : List K :=
  ((roles.map fun r => r.2.gain).insertionSort (· ≥ ·)).map worth

theorem idealWorths_sorted (roles : Roles) : (idealWorths K roles).Pairwise fun a b => b ≤ a :=
  List.pairwise_map.mpr ((List.pairwise_insertionSort (· ≥ ·) _).imp fun h => worth_mono h)

theorem idealWorths_nonneg (roles : Roles) : ∀ s ∈ idealWorths K roles, 0 ≤ s := by
  intro s hs
  obtain ⟨n, -, rfl⟩ := List.mem_map.mp hs
  exact worth_nonneg n

omit [LinearOrder K] [IsStrictOrderedRing K] in
theorem idealWorths_perm (hnodup : (roles.map Prod.fst).Nodup) :
    (idealWorths K roles).Perm ((roles.map Prod.fst).map fun path => worth (gainOf roles path)) := by
  have hworth : ((roles.map Prod.fst).map fun path => (worth (gainOf roles path) : K)) =
      ((roles.map Prod.fst).map (gainOf roles)).map worth :=
    (List.map_map (g := worth) (f := gainOf roles)).symm
  rw [hworth, ← map_gain hnodup]
  exact (List.perm_insertionSort (· ≥ ·) _).map worth

variable {d : Discount K}

theorem ideal_pos (hroles : roles ≠ []) (hcutoff : 0 < cutoff) :
    0 < discounted d 1 ((idealWorths K roles).take cutoff) := by
  obtain ⟨n, rfl⟩ : ∃ n, cutoff = n + 1 := ⟨cutoff - 1, by omega⟩
  have hne : (roles.map fun r => r.2.gain).insertionSort (· ≥ ·) ≠ [] := by
    intro hnil
    have hlength := congrArg List.length hnil
    rw [List.length_insertionSort, List.length_map, List.length_nil] at hlength
    exact hroles (List.length_eq_zero_iff.mp hlength)
  obtain ⟨g, gains, hgains⟩ := List.exists_cons_of_ne_nil hne
  have hg : 0 < g := by
    have hmem : g ∈ (roles.map fun r => r.2.gain).insertionSort (· ≥ ·) := by
      rw [hgains]
      exact List.mem_cons_self
    obtain ⟨r, -, rfl⟩ := List.mem_map.mp ((List.mem_insertionSort _).mp hmem)
    exact gain_pos r.2
  rw [idealWorths, hgains, List.map_cons, List.take_succ_cons]
  refine discounted_pos (worth_pos hg) fun h hh => ?_
  obtain ⟨m, -, rfl⟩ := List.mem_map.mp (List.mem_of_mem_take hh)
  exact worth_nonneg m

theorem roleMetrics_ndcg (d : Discount K) (roles : Roles) (distractors ranked : List String) (hcutoff : 0 < cutoff) :
    (roleMetrics d roles distractors cutoff ranked).gradedNdcgAtK = if roles = [] then none else
      some (discounted d 1 (ranked.map fun path => worth (gainOf roles path)) /
        discounted d 1 ((idealWorths K roles).take cutoff)) := by
  have htake : (((roles.map fun r => r.2.gain).insertionSort (· ≥ ·)).take cutoff).map (worth (K := K)) =
      (idealWorths K roles).take cutoff := by
    rw [idealWorths, List.map_take]
  unfold roleMetrics
  dsimp only
  rw [htake]
  by_cases hroles : roles = []
  · rw [if_pos hroles, hroles]
    have hzero : discounted d 1 ((idealWorths K []).take cutoff) = 0 := by
      rw [idealWorths, List.map_nil, List.insertionSort_nil, List.map_nil, List.take_nil]
      rfl
    exact if_pos hzero
  · rw [if_neg hroles]
    exact if_neg (ideal_pos hroles hcutoff).ne'

omit [IsStrictOrderedRing K] in
/-- The gains that are found are among all gains. -/
theorem weighted_le (hnodup : (roles.map Prod.fst).Nodup) (ranked : List String) :
    ∑ path ∈ (ranked.filter fun path => decide (path ∈ roles.map Prod.fst)).toFinset, gainOf roles path ≤
      (roles.map fun r => r.2.gain).sum := by
  rw [map_gain hnodup, ← List.sum_toFinset _ hnodup]
  refine Finset.sum_le_sum_of_subset fun path hpath => ?_
  rw [List.mem_toFinset] at hpath ⊢
  exact of_decide_eq_true (List.mem_filter.mp hpath).2

/-- **The rates of roles** lie between zero and one. -/
theorem roleMetrics_rates (d : Discount K) (distractors : List String) (hroles : (roles.map Prod.fst).Nodup)
    (hcutoff : 0 < cutoff) (hnodup : ranked.Nodup) (hlength : ranked.length ≤ cutoff) :
    ∀ q ∈ (roleMetrics d roles distractors cutoff ranked).rates, 0 ≤ q ∧ q ≤ 1 := by
  have hrecall : ∀ (paths : List String) present, ∀ q ∈ (rate present (ranked.filter fun path => decide (path ∈ paths)).toFinset.card
      paths.toFinset.card : Option K), 0 ≤ q ∧ q ≤ 1 := fun paths _ => unit_rate (card_found_le ranked paths)
  have hprecision : ∀ (paths : List String) present, ∀ q ∈ (rate present (ranked.filter fun path => decide (path ∈ paths)).toFinset.card
      cutoff : Option K), 0 ≤ q ∧ q ≤ 1 := fun paths _ => unit_rate ((card_found_le_length ranked paths).trans hlength)
  have hndcg : ∀ q ∈ (roleMetrics d roles distractors cutoff ranked).gradedNdcgAtK, 0 ≤ q ∧ q ≤ 1 := by
    intro q hq
    rw [roleMetrics_ndcg d roles distractors ranked hcutoff] at hq
    split_ifs at hq with hempty
    · cases hq
    · rw [← Option.some.inj hq]
      refine unit_ndcg (discounted_nonneg fun g hg => ?_) (discounted_le_ideal hnodup hlength (fun path _ hgain => ?_)
        (idealWorths_sorted roles) (idealWorths_nonneg roles) (idealWorths_perm hroles))
      · obtain ⟨path, -, rfl⟩ := List.mem_map.mp hg
        exact worth_nonneg _
      · exact mem_of_gain fun hzero => hgain (by rw [hzero, worth_zero])
  intro q hq
  rw [RoleMetrics.rates, List.reduceOption_mem_iff] at hq
  simp only [List.mem_cons, List.not_mem_nil, or_false] at hq
  rcases hq with hq | hq | hq | hq | hq | hq | hq | hq
  · exact hrecall _ _ q hq.symm
  · exact hrecall _ _ q hq.symm
  · obtain ⟨rank, hrank, rfl⟩ := Option.map_eq_some_iff.mp hq.symm
    exact unit_one_div (one_le_firstRank hrank)
  · exact unit_rate (weighted_le hroles ranked) q hq.symm
  · exact hndcg q hq.symm
  · exact hprecision _ _ q hq.symm
  · exact hprecision _ _ q hq.symm
  · -- the smaller one of two recalls
    unfold roleMetrics at hq
    dsimp only at hq
    split at hq
    · next a b ha hb =>
      obtain ⟨ha0, ha1⟩ := hrecall _ _ a ha
      obtain ⟨hb0, -⟩ := hrecall _ _ b hb
      rw [Option.some.inj hq]
      exact ⟨le_min ha0 hb0, (min_le_left a b).trans ha1⟩
    · cases hq

theorem roleMetrics_ideal (d : Discount K) (distractors : List String) (hnodup : (roles.map Prod.fst).Nodup)
    (hcutoff : 0 < cutoff) (hroles : roles ≠ []) (h : InOrder cutoff (roles.map Prod.fst) (gainOf roles) ranked) :
    (roleMetrics d roles distractors cutoff ranked).gradedNdcgAtK = some 1 := by
  obtain ⟨ordered, hperm, hgains, rfl⟩ := h
  have hworths : ordered.Pairwise fun a b => (worth (gainOf roles b) : K) ≤ worth (gainOf roles a) :=
    hgains.imp fun hab => worth_mono hab
  rw [roleMetrics_ndcg d roles distractors _ hcutoff, if_neg hroles, take_of_ordered cutoff hperm hworths
    (idealWorths_sorted roles) (idealWorths_perm hnodup), div_self (ideal_pos hroles hcutoff).ne']

theorem roleMetrics_swap (d : Discount K) (distractors : List String) (hcutoff : 0 < cutoff) {other : List String}
    {a b : String} (h : Swapped cutoff a b ranked other) (hab : gainOf roles a ≤ gainOf roles b) :
    (roleMetrics d roles distractors cutoff ranked).gradedNdcgAtK = none ∧
      (roleMetrics d roles distractors cutoff other).gradedNdcgAtK = none ∨
    ∃ q q', (roleMetrics d roles distractors cutoff ranked).gradedNdcgAtK = some q ∧
      (roleMetrics d roles distractors cutoff other).gradedNdcgAtK = some q' ∧ q ≤ q' := by
  obtain ⟨pre, post, rfl, rfl⟩ := h
  rw [roleMetrics_ndcg d roles distractors _ hcutoff, roleMetrics_ndcg d roles distractors _ hcutoff]
  by_cases hroles : roles = []
  · rw [if_pos hroles, if_pos hroles]
    exact Or.inl ⟨rfl, rfl⟩
  · rw [if_neg hroles, if_neg hroles]
    refine Or.inr ⟨_, _, rfl, rfl, div_le_div_of_nonneg_right ?_ (ideal_pos hroles hcutoff).le⟩
    exact discounted_swap (fun path => worth_nonneg _) (worth_mono hab) cutoff 1

end Roles

/-! ### Reports -/

section Reports
variable {d : Discount K} {items : List (ContextItem F)} {k : ℤ}

theorem fileRetrievalMetrics_eq_ok {goldFiles : List String} {m : FileMetrics K}
    (h : fileRetrievalMetrics E isDigit d items goldFiles k = .ok (some m)) : ∃ ranked,
      m = fileMetrics d m.goldFiles (cutoffOf k) ranked ∧ m.goldFiles ≠ [] ∧ ranked.Nodup ∧
        ranked.length ≤ cutoffOf k ∧
        m.goldFiles = ((goldFiles.filter fun path => strip path ≠ "").map normalizeFilePath).eraseDups := by
  unfold fileRetrievalMetrics at h
  dsimp only at h
  split_ifs at h with hempty
  · cases h
  · rw [bind_eq_ok] at h
    obtain ⟨ranked, hranked, h⟩ := h
    have hm := Option.some.inj (Except.ok.inj h)
    obtain ⟨hnodup, hlength⟩ := rankFiles_found hranked
    refine ⟨ranked, ?_, ?_, hnodup, hlength, ?_⟩
    · rw [← hm]
      rfl
    · rw [← hm]
      exact hempty
    · rw [← hm]
      rfl

theorem roleAwareFileMetrics_eq_ok {rows : List (Dict F)} {distractorFiles : List String} {m : RoleMetrics K}
    (h : roleAwareFileMetrics E isDigit d items rows distractorFiles k = .ok (some m)) : ∃ roles ranked,
      rolesOf E rows = .ok roles ∧ (roles.map Prod.fst).Nodup ∧ ranked.Nodup ∧ ranked.length ≤ cutoffOf k ∧
        m = roleMetrics d roles ((distractorFiles.filter fun path => strip path ≠ "").map normalizeFilePath).eraseDups
          (cutoffOf k) ranked := by
  unfold roleAwareFileMetrics at h
  split_ifs at h with hempty
  · cases h
  · rw [bind_eq_ok] at h
    obtain ⟨roles, hroles, h⟩ := h
    rw [bind_eq_ok] at h
    obtain ⟨ranked, hranked, h⟩ := h
    obtain ⟨hnodup, hlength⟩ := rankFiles_found hranked
    exact ⟨roles, ranked, hroles, nodup_rolesOf hroles, hnodup, hlength, (Option.some.inj (Except.ok.inj h)).symm⟩

end Reports

/-- **Ranking metrics are normalised**, with any discount. -/
theorem normalised [IsStrictOrderedRing K] (E : Env F) (isDigit : Char → Bool) (d : Discount K) :
    Normalised E isDigit d where
  file_rates items goldFiles k m h := by
    obtain ⟨ranked, hm, hgold, hnodup, hlength, -⟩ := fileRetrievalMetrics_eq_ok h
    rw [hm]
    exact fileMetrics_rates hgold (cutoffOf_pos k) hnodup hlength
  file_ideal items goldFiles k m h horder := by
    obtain ⟨ranked, hm, hgold, -⟩ := fileRetrievalMetrics_eq_ok h
    rw [hm] at horder ⊢
    exact fileMetrics_ideal hgold (cutoffOf_pos k) horder
  file_swap items items' goldFiles k m m' a b h h' hswap hab := by
    obtain ⟨ranked, hm, hgold, -, -, hfiles⟩ := fileRetrievalMetrics_eq_ok h
    obtain ⟨ranked', hm', -, -, -, hfiles'⟩ := fileRetrievalMetrics_eq_ok h'
    rw [hfiles'.trans hfiles.symm] at hm'
    rw [hm, hm'] at hswap ⊢
    exact fileMetrics_swap hgold (cutoffOf_pos k) hswap hab
  role_rates items rows distractors k m h := by
    obtain ⟨roles, ranked, -, hroles, hnodup, hlength, rfl⟩ := roleAwareFileMetrics_eq_ok h
    exact roleMetrics_rates d _ hroles (cutoffOf_pos k) hnodup hlength
  role_ideal items rows distractors k m roles h hrows hne horder := by
    obtain ⟨roles', ranked, hrows', hroles, -, -, rfl⟩ := roleAwareFileMetrics_eq_ok h
    rw [hrows, Except.ok.injEq] at hrows'
    rw [← hrows'] at horder hroles ⊢
    exact roleMetrics_ideal d _ hroles (cutoffOf_pos k) hne horder
  role_swap items items' rows distractors k m m' roles a b h h' hrows hswap hab := by
    obtain ⟨roles1, ranked, hrows1, -, -, -, rfl⟩ := roleAwareFileMetrics_eq_ok h
    obtain ⟨roles2, ranked', hrows2, -, -, -, rfl⟩ := roleAwareFileMetrics_eq_ok h'
    rw [hrows, Except.ok.injEq] at hrows1 hrows2
    rw [← hrows1, ← hrows2] at hswap ⊢
    exact roleMetrics_swap d _ (cutoffOf_pos k) hswap hab

/-- The ranks below one over themselves, over the rationals. -/
def reciprocal : Discount ℚ where
  value rank := 1 / (rank + 1)
  positive rank := by positivity
  antitone m n h := by
    have hcast : (m : ℚ) ≤ n := Nat.cast_le.mpr h
    exact one_div_le_one_div_of_le (by positivity) (by linarith)

theorem normalised_reciprocal : Normalised Instance.exactPlatform Char.isDigit reciprocal :=
  normalised Instance.exactPlatform Char.isDigit reciprocal

end ControlPlane.Benchmark.Ranking
