import ControlPlane.Benchmark.Ranking
import ControlPlane.Lib.Intervals
import Mathlib.Algebra.Order.Field.Rat

/-! # Span metrics

The spans of lines that the items name are compared with the spans that should be found, at the same path and, if the
gold span names one, in the same repository. Numbers of lines are integers, and a quotient is the exact one, of which
the report has the nearest float.

The lines of a gold span that are covered are counted by merging intervals, and they are those in at least one
retrieved span (`coveredLines_eq`). So every rate lies between zero and one, the retrieved lines keep to the budget,
and one more item does not lower the share of covered lines (`measured`). -/

namespace ControlPlane.Benchmark.Spans

open ControlPlane.Lib.Value ControlPlane.Lib.Text ControlPlane.Lib.Dynamic ControlPlane.Lib.Intervals
open ControlPlane.Environment ControlPlane.Retrieval.Items ControlPlane.Benchmark.Protocol
open ControlPlane.Benchmark.Ranking

variable {F : Type} (E : Env F) (isDigit : Char → Bool)

/-! ### Spans -/

structure GoldSpan where
  path : String
  startLine : ℤ
  endLine : ℤ
  repositoryId : Option String
  contentSha256 : Option String
  deriving DecidableEq

structure RetrievedSpan where
  path : String
  startLine : ℤ
  endLine : ℤ
  repositoryId : Option String
  deriving DecidableEq

/-- `str(raw).strip()`, if there is a value and its text is not blank. -/
def textOf (raw : Json F) : Py (Option String) :=
  match raw with
  | .null => return none
  | raw => do
    let text := strip (← E.str raw)
    return if text = "" then none else some text

/-- `re.fullmatch(r"[0-9a-f]{64}", digest)` -/
def isDigest (digest : String) : Bool := digest.toList.length == 64 && digest.toList.all isHexDigit

/-- `GoldSpan.from_dict` -/
def fromDict (value : Dict F) : Py GoldSpan := do
  let path := normalizeFilePath (← E.strOr value "path" "")
  require (path ≠ "") "gold span path must not be blank"
  let start ← E.toInt ((lookup "start_line" value).getD (.int 0))
  let stop ← E.toInt ((lookup "end_line" value).getD (.int 0))
  require (1 ≤ start ∧ start ≤ stop) "gold span lines must satisfy 1 <= start <= end"
  let repository ← textOf E (getKey value "repository_id")
  let digest := (← textOf E (getKey value "content_sha256")).map E.lower
  require (digest.all isDigest) "gold span content_sha256 must be 64 lowercase hex"
  return ⟨path, start, stop, repository, digest⟩

def lineKeys : List String := ["line", "line_number", "start_line", "line_start"]

def endLineKeys : List String := ["end_line", "line_end"]

/-- `_line_value` -/
def lineValue (container : Dict F) : List String → Py (Option ℤ)
  | [] => .ok none
  | key :: keys => match getKey container key with
    | .null => lineValue container keys
    | .bool _ => lineValue container keys
    | raw => match E.toInt raw with
      | .ok n => if 1 ≤ n then .ok (some n) else lineValue container keys
      | .error (.typeError _) => lineValue container keys
      | .error (.valueError _) => lineValue container keys
      | .error e => .error e

def repositoryKeys : List String := ["repository_id", "remote_identity", "repository", "repo", "repo_id"]

/-- `context_item_repository`, from the containers of an item. -/
def repositoryIn (containers : List (Dict F)) : Option String :=
  containers.findSome? fun container => repositoryKeys.findSome? fun key => match getKey container key with
    | .str value => if strip value = "" then none else some (strip value)
    | _ => none

/-- `:(?P<start>\d+)(?::(?P<end>\d+))?:\s` -/
def numberGroups : List Char → Option (List Char × Option (List Char))
  | ':' :: text => match afterNumber isDigit text with
    | some (':' :: more) =>
      if (afterNumber isDigit more).any colonSpace then
        some (text.takeWhile isDigit, some (more.takeWhile isDigit))
      else if colonSpace (':' :: more) then some (text.takeWhile isDigit, none) else none
    | _ => none
  | _ => none

/-- The numbers after the path at the start of a text. -/
def textNumbers (text : List Char) : Option (List Char × Option (List Char)) :=
  (List.range' 1 text.length).findSome? fun n =>
    if '\n' ∈ text.take n then none else numberGroups isDigit (text.drop n)

/-- `int(group)` if there is no number yet. -/
def orNumber (found : Option ℤ) (group : Option (List Char)) : Py (Option ℤ) :=
  match found, group with
  | none, some digits => do return some (← E.toInt (.str (String.ofList digits)))
  | found, _ => .ok found

/-- A line if there is none yet. -/
def orLine (found : Option ℤ) (container : Dict F) (keys : List String) : Py (Option ℤ) :=
  match found with
  | some line => .ok (some line)
  | none => lineValue E container keys

/-- A span that ends where it starts, or later. -/
def spanFrom (path : String) (start : ℤ) (stop : Option ℤ) (repository : Option String) : RetrievedSpan :=
  ⟨path, start, max start (stop.getD start), repository⟩

def contextItemSpan (item : ContextItem F) : Py (Option RetrievedSpan) := do
  match ← contextItemFile E isDigit item with
  | none => return none
  | some path =>
    let payload ← jsonObject E item.text
    let containers := [item.metadata, item.provenance, payload]
    let lines ← containers.foldlM (fun (lines : Option ℤ × Option ℤ) container => do
      let start ← orLine E lines.1 container lineKeys
      let stop ← orLine E lines.2 container endLineKeys
      return (start, stop)) (none, none)
    let groups := textNumbers isDigit item.text.toList
    let start ← orNumber E lines.1 (groups.map Prod.fst)
    let stop ← orNumber E lines.2 (groups.bind Prod.snd)
    return start.map fun line => spanFrom path line stop (repositoryIn containers)

/-! ### Overlaps -/

def sameLocation (retrieved : RetrievedSpan) (gold : GoldSpan) : Bool :=
  retrieved.path = gold.path && (gold.repositoryId.isNone || retrieved.repositoryId = gold.repositoryId)

def overlap (retrieved : RetrievedSpan) (gold : GoldSpan) : Option Interval :=
  if sameLocation retrieved gold then
    let start := max retrieved.startLine gold.startLine
    let stop := min retrieved.endLine gold.endLine
    if start ≤ stop then some (start, stop) else none
  else none

def coveredLines (gold : GoldSpan) (retrieved : List RetrievedSpan) : ℤ :=
  measure (retrieved.filterMap fun item => overlap item gold)

/-! ### Metrics -/

def GoldSpan.lines (span : GoldSpan) : ℤ := span.endLine - span.startLine + 1

def RetrievedSpan.lines (span : RetrievedSpan) : ℤ := span.endLine - span.startLine + 1

/-- `normalize_gold_spans`: the first span of each place. -/
def normalizeGoldSpans (values : List (Dict F)) : Py (List GoldSpan) := do
  let spans ← values.mapM (fromDict E)
  return spans.foldl (fun unique span =>
    if unique.any fun other => (other.repositoryId, other.path, other.startLine, other.endLine) =
      (span.repositoryId, span.path, span.startLine, span.endLine) then unique else unique ++ [span]) []

/-- The span, cut to the lines that remain, and what remains after it. -/
def fit (remaining : Option ℤ) (span : RetrievedSpan) : RetrievedSpan × Option ℤ :=
  match remaining with
  | none => (span, none)
  | some lines =>
    if lines < span.lines then ({ span with endLine := span.startLine + lines - 1 }, some 0)
    else (span, some (lines - span.lines))

/-- The loop over the items, which ends at the cutoff or with the budget. -/
def rankSpans (cutoff : ℕ) (ranked : List RetrievedSpan) (remaining : Option ℤ) :
    List (ContextItem F) → Py (List RetrievedSpan)
  | [] => .ok ranked
  | item :: items => do
    match ← contextItemSpan E isDigit item with
    | none => rankSpans cutoff ranked remaining items
    | some span =>
      if remaining.any (· ≤ 0) then return ranked
      else
        let ranked' := ranked ++ [(fit remaining span).1]
        if cutoff ≤ ranked'.length ∨ (fit remaining span).2 = some 0 then return ranked'
        else rankSpans cutoff ranked' (fit remaining span).2 items

structure SpanMetrics where
  k : ℕ
  goldSpans : List GoldSpan
  retrievedSpans : List RetrievedSpan
  matchedGoldSpans : List GoldSpan
  spanPrecisionAtK : ℚ
  spanRecallAtK : ℚ
  spanF1 : ℚ
  linePrecision : ℚ
  lineRecall : ℚ
  coveredGoldLines : ℤ
  totalGoldLines : ℤ
  firstGoldRank : Option ℕ
  lineBudget : Option ℤ
  retrievedLines : ℤ

/-- The lines of a retrieved span that lie in some gold span. -/
def relevantLines (gold : List GoldSpan) (retrieved : RetrievedSpan) : ℤ :=
  (points (gold.filterMap fun span => overlap retrieved span)).card

def spanMetrics (gold : List GoldSpan) (cutoff : ℕ) (lineBudget : Option ℤ) (ranked : List RetrievedSpan) :
    SpanMetrics :=
  let hits := fun retrieved => gold.any fun span => (overlap retrieved span).isSome
  let matched := gold.filter fun span => ranked.any fun retrieved => (overlap retrieved span).isSome
  let totalGoldLines := (gold.map GoldSpan.lines).sum
  let coveredGoldLines := (gold.map fun span => coveredLines span ranked).sum
  let totalRetrievedLines := (ranked.map RetrievedSpan.lines).sum
  let relevantRetrievedLines := (ranked.map (relevantLines gold)).sum
  let precision : ℚ := ranked.countP hits / cutoff
  let recalled : ℚ := matched.length / gold.length
  { k := cutoff
    goldSpans := gold
    retrievedSpans := ranked
    matchedGoldSpans := matched
    spanPrecisionAtK := precision
    spanRecallAtK := recalled
    spanF1 := if precision + recalled = 0 then 0 else 2 * precision * recalled / (precision + recalled)
    linePrecision := if totalRetrievedLines = 0 then 0 else relevantRetrievedLines / totalRetrievedLines
    lineRecall := if totalGoldLines = 0 then 0 else coveredGoldLines / totalGoldLines
    coveredGoldLines := coveredGoldLines
    totalGoldLines := totalGoldLines
    firstGoldRank := (ranked.findIdx? hits).map (· + 1)
    lineBudget := lineBudget
    retrievedLines := totalRetrievedLines }

def spanRetrievalMetrics (items : List (ContextItem F)) (goldSpans : List (Dict F)) (k : ℤ)
    (lineBudget : Option ℤ) : Py (Option SpanMetrics) := do
  if goldSpans = [] then return none
  let gold ← normalizeGoldSpans E goldSpans
  let ranked ← rankSpans E isDigit (cutoffOf k) [] (lineBudget.map (max 1)) items
  return some (spanMetrics gold (cutoffOf k) lineBudget ranked)

/-! ### What is to be shown -/

def SpanMetrics.rates (m : SpanMetrics) : List ℚ :=
  [m.spanPrecisionAtK, m.spanRecallAtK, m.spanF1, m.linePrecision, m.lineRecall]

/-- The lines of a gold span in at least one of the retrieved spans at its place. -/
def linesIn (gold : GoldSpan) (retrieved : List RetrievedSpan) : Finset ℤ :=
  (integers gold.startLine gold.endLine).filter fun line =>
    ∃ span ∈ retrieved, sameLocation span gold = true ∧ span.startLine ≤ line ∧ line ≤ span.endLine

structure Measured : Prop where
  covered : ∀ gold retrieved, coveredLines gold retrieved = (linesIn gold retrieved).card
  rates : ∀ items goldSpans k budget m, spanRetrievalMetrics E isDigit items goldSpans k budget = .ok (some m) →
    ∀ q ∈ m.rates, 0 ≤ q ∧ q ≤ 1
  budget : ∀ items goldSpans k lines m, 0 < lines →
    spanRetrievalMetrics E isDigit items goldSpans k (some lines) = .ok (some m) → m.retrievedLines ≤ lines
  appended : ∀ items item goldSpans k budget m m',
    spanRetrievalMetrics E isDigit items goldSpans k budget = .ok (some m) →
    spanRetrievalMetrics E isDigit (items ++ [item]) goldSpans k budget = .ok (some m') → m.lineRecall ≤ m'.lineRecall

/-! ### Covered lines -/

theorem overlap_le {retrieved : RetrievedSpan} {gold : GoldSpan} {i : Interval} (h : overlap retrieved gold = some i) :
    i.1 ≤ i.2 := by
  unfold overlap at h
  dsimp only at h
  split_ifs at h with _ hle
  rw [← Option.some.inj h]
  exact hle

/-- The lines of both spans. -/
theorem mem_overlap {retrieved : RetrievedSpan} {gold : GoldSpan} {n : ℤ} :
    (∃ i, overlap retrieved gold = some i ∧ i.1 ≤ n ∧ n ≤ i.2) ↔ sameLocation retrieved gold = true ∧
      (retrieved.startLine ≤ n ∧ n ≤ retrieved.endLine) ∧ gold.startLine ≤ n ∧ n ≤ gold.endLine := by
  unfold overlap
  by_cases hsame : sameLocation retrieved gold = true
  · rw [if_pos hsame]
    dsimp only
    by_cases hle : max retrieved.startLine gold.startLine ≤ min retrieved.endLine gold.endLine
    · rw [if_pos hle]
      simp only [Option.some.injEq, exists_eq_left', hsame, true_and]
      omega
    · rw [if_neg hle]
      simp only [reduceCtorEq, false_and, exists_false, hsame, true_and, false_iff]
      omega
  · rw [if_neg hsame]
    simp [hsame]

/-- **The covered lines** are those in at least one retrieved span at the place of the gold span. -/
theorem coveredLines_eq (gold : GoldSpan) (retrieved : List RetrievedSpan) :
    coveredLines gold retrieved = (linesIn gold retrieved).card := by
  have hle : ∀ i ∈ retrieved.filterMap (fun item => overlap item gold), i.1 ≤ i.2 := by
    intro i hi
    obtain ⟨item, -, hitem⟩ := List.mem_filterMap.mp hi
    exact overlap_le hitem
  have hpoints : points (retrieved.filterMap fun item => overlap item gold) = linesIn gold retrieved := by
    ext n
    rw [mem_points, linesIn, Finset.mem_filter, mem_integers]
    constructor
    · rintro ⟨i, hi, hn⟩
      obtain ⟨item, hitem, heq⟩ := List.mem_filterMap.mp hi
      obtain ⟨hsame, hretrieved, hgold⟩ := mem_overlap.mp ⟨i, heq, hn⟩
      exact ⟨hgold, item, hitem, hsame, hretrieved⟩
    · rintro ⟨hgold, item, hitem, hsame, hretrieved⟩
      obtain ⟨i, heq, hn⟩ := mem_overlap.mpr ⟨hsame, hretrieved, hgold⟩
      exact ⟨i, List.mem_filterMap.mpr ⟨item, hitem, heq⟩, hn⟩
  rw [coveredLines, measure_eq hle, hpoints]

theorem coveredLines_nonneg (gold : GoldSpan) (retrieved : List RetrievedSpan) : 0 ≤ coveredLines gold retrieved := by
  rw [coveredLines_eq]
  exact Int.natCast_nonneg _

theorem coveredLines_mono (gold : GoldSpan) {retrieved more : List RetrievedSpan} (h : retrieved ⊆ more) :
    coveredLines gold retrieved ≤ coveredLines gold more := by
  rw [coveredLines_eq, coveredLines_eq, Int.ofNat_le]
  refine Finset.card_le_card fun n hn => ?_
  obtain ⟨hgold, span, hspan, hin⟩ := Finset.mem_filter.mp hn
  exact Finset.mem_filter.mpr ⟨hgold, span, h hspan, hin⟩

theorem coveredLines_le {gold : GoldSpan} (h : gold.startLine ≤ gold.endLine) (retrieved : List RetrievedSpan) :
    coveredLines gold retrieved ≤ gold.lines := by
  rw [coveredLines_eq, GoldSpan.lines, ← card_integers h, Int.ofNat_le]
  exact Finset.card_le_card (Finset.filter_subset _ _)

theorem relevantLines_nonneg (gold : List GoldSpan) (retrieved : RetrievedSpan) : 0 ≤ relevantLines gold retrieved :=
  Int.natCast_nonneg _

theorem relevantLines_le (gold : List GoldSpan) {retrieved : RetrievedSpan}
    (h : retrieved.startLine ≤ retrieved.endLine) : relevantLines gold retrieved ≤ retrieved.lines := by
  rw [relevantLines, RetrievedSpan.lines, ← card_integers h, Int.ofNat_le]
  refine Finset.card_le_card fun n hn => ?_
  obtain ⟨i, hi, hin⟩ := mem_points.mp hn
  obtain ⟨span, -, heq⟩ := List.mem_filterMap.mp hi
  exact mem_integers.mpr (mem_overlap.mp ⟨i, heq, hin⟩).2.1

/-! ### Spans in order -/

variable {E isDigit}

theorem fromDict_lines {value : Dict F} {span : GoldSpan} (h : fromDict E value = .ok span) :
    span.startLine ≤ span.endLine := by
  unfold fromDict at h
  rw [bind_eq_ok] at h
  obtain ⟨path, -, h⟩ := h
  rw [bind_eq_ok] at h
  obtain ⟨_, -, h⟩ := h
  rw [bind_eq_ok] at h
  obtain ⟨start, -, h⟩ := h
  rw [bind_eq_ok] at h
  obtain ⟨stop, -, h⟩ := h
  rw [bind_eq_ok] at h
  obtain ⟨_, hlines, h⟩ := h
  rw [bind_eq_ok] at h
  obtain ⟨repository, -, h⟩ := h
  rw [bind_eq_ok] at h
  obtain ⟨digest, -, h⟩ := h
  rw [bind_eq_ok] at h
  obtain ⟨_, -, h⟩ := h
  rw [← Except.ok.inj h]
  exact (of_decide_eq_true (require_eq_ok.mp hlines)).2

/-- Every gold span has a line. -/
theorem normalizeGoldSpans_lines {values : List (Dict F)} {gold : List GoldSpan}
    (h : normalizeGoldSpans E values = .ok gold) : ∀ span ∈ gold, span.startLine ≤ span.endLine := by
  unfold normalizeGoldSpans at h
  rw [bind_eq_ok] at h
  obtain ⟨spans, hspans, h⟩ := h
  have hall : ∀ span ∈ spans, span.startLine ≤ span.endLine := by
    intro span hspan
    obtain ⟨value, -, hvalue⟩ := mem_mapM hspans span hspan
    exact fromDict_lines hvalue
  rw [← Except.ok.inj h]
  clear h hspans
  induction spans using List.reverseRecOn with
  | nil => exact fun span hspan => absurd hspan List.not_mem_nil
  | append_singleton spans last ih =>
    have ih := ih fun span hspan => hall span (List.mem_append_left _ hspan)
    rw [List.foldl_append, List.foldl_cons, List.foldl_nil]
    split_ifs
    · exact ih
    · intro span hspan
      rcases List.mem_append.mp hspan with hspan | hspan
      · exact ih span hspan
      · exact hall span (List.mem_append_right _ hspan)

theorem contextItemSpan_lines {item : ContextItem F} {span : RetrievedSpan}
    (h : contextItemSpan E isDigit item = .ok (some span)) : span.startLine ≤ span.endLine := by
  unfold contextItemSpan at h
  rw [bind_eq_ok] at h
  obtain ⟨path?, -, h⟩ := h
  cases path? with
  | none => cases h
  | some path =>
    dsimp only at h
    rw [bind_eq_ok] at h
    obtain ⟨payload, -, h⟩ := h
    rw [bind_eq_ok] at h
    obtain ⟨lines, -, h⟩ := h
    rw [bind_eq_ok] at h
    obtain ⟨start, -, h⟩ := h
    rw [bind_eq_ok] at h
    obtain ⟨stop, -, h⟩ := h
    obtain ⟨line, -, rfl⟩ := Option.map_eq_some_iff.mp (Except.ok.inj h)
    exact le_max_left _ _

/-- A span that fits keeps to what remains. -/
theorem fit_spec {span : RetrievedSpan} {remaining : Option ℤ} (h : span.startLine ≤ span.endLine)
    (hremaining : ∀ lines ∈ remaining, 0 < lines) : (fit remaining span).1.startLine ≤ (fit remaining span).1.endLine ∧
      ∀ lines ∈ remaining, ∃ rest, (fit remaining span).2 = some rest ∧ 0 ≤ rest ∧
        (fit remaining span).1.lines + rest = lines := by
  cases remaining with
  | none => exact ⟨h, fun lines hlines => by cases hlines⟩
  | some lines =>
    have hpos := hremaining lines rfl
    unfold fit
    dsimp only
    by_cases hcut : lines < span.lines
    · rw [if_pos hcut]
      refine ⟨by dsimp only; omega, fun other hother => ⟨0, rfl, le_rfl, ?_⟩⟩
      rw [← Option.some.inj hother]
      unfold RetrievedSpan.lines
      dsimp only
      omega
    · rw [if_neg hcut]
      refine ⟨h, fun other hother => ⟨lines - span.lines, rfl, by omega, ?_⟩⟩
      rw [← Option.some.inj hother]
      dsimp only
      omega

/-! ### The loop over the items -/

/-- What holds before each step of the loop: no span ends before it starts, and there is room for one more. -/
structure Open (cutoff : ℕ) (ranked : List RetrievedSpan) (remaining : Option ℤ) : Prop where
  ordered : ∀ span ∈ ranked, span.startLine ≤ span.endLine
  short : ranked.length < cutoff
  left : ∀ lines ∈ remaining, 0 < lines

/-- The spans with one more, cut to what remains. -/
def push (ranked : List RetrievedSpan) (remaining : Option ℤ) (span : RetrievedSpan) : List RetrievedSpan :=
  ranked ++ [(fit remaining span).1]

section Step
variable {cutoff : ℕ} {ranked result : List RetrievedSpan} {remaining : Option ℤ} {span : RetrievedSpan}

/-- The loop ends with the span. -/
def Ends (cutoff : ℕ) (ranked : List RetrievedSpan) (remaining : Option ℤ) (span : RetrievedSpan) : Prop :=
  cutoff ≤ (push ranked remaining span).length ∨ (fit remaining span).2 = some 0

instance : Decidable (Ends cutoff ranked remaining span) := inferInstanceAs (Decidable (_ ∨ _))

theorem push_ordered (h : Open cutoff ranked remaining) (hspan : span.startLine ≤ span.endLine) :
    ∀ other ∈ push ranked remaining span, other.startLine ≤ other.endLine := by
  intro other hother
  rcases List.mem_append.mp hother with hother | hother
  · exact h.ordered other hother
  · rw [List.mem_singleton.mp hother]
    exact (fit_spec hspan h.left).1

theorem sum_push (ranked : List RetrievedSpan) (remaining : Option ℤ) (span : RetrievedSpan) :
    ((push ranked remaining span).map RetrievedSpan.lines).sum =
      (ranked.map RetrievedSpan.lines).sum + (fit remaining span).1.lines := by
  rw [push, List.map_append, List.sum_append, List.map_singleton, List.sum_singleton]

/-- **A step that does not end the loop** leaves it open. -/
theorem Open.push (h : Open cutoff ranked remaining) (hspan : span.startLine ≤ span.endLine)
    (hnot : ¬ Ends cutoff ranked remaining span) :
    Open cutoff (push ranked remaining span) (fit remaining span).2 := by
  obtain ⟨hshort, hmore⟩ := not_or.mp hnot
  refine ⟨push_ordered h hspan, not_le.mp hshort, fun lines hlines => ?_⟩
  cases remaining with
  | none => cases hlines
  | some all =>
    obtain ⟨rest, hrest, hnonneg, -⟩ := (fit_spec hspan h.left).2 all rfl
    rw [hrest] at hlines hmore
    have hzero : rest ≠ 0 := fun hzero => hmore (by rw [hzero])
    rw [← Option.some.inj hlines]
    omega

theorem rankSpans_cons {item : ContextItem F} (h : Open cutoff ranked remaining)
    (hspan : contextItemSpan E isDigit item = .ok (some span)) (items : List (ContextItem F)) :
    rankSpans E isDigit cutoff ranked remaining (item :: items) =
      if Ends cutoff ranked remaining span then .ok (push ranked remaining span)
      else rankSpans E isDigit cutoff (push ranked remaining span) (fit remaining span).2 items := by
  have hnot : remaining.any (fun lines => decide (lines ≤ 0)) = false := by
    cases remaining with
    | none => rfl
    | some lines =>
      have hpos := h.left lines rfl
      exact decide_eq_false (by omega)
  rw [rankSpans, hspan]
  show (if remaining.any (fun lines => decide (lines ≤ 0)) = true then _ else _) = _
  rw [hnot, if_neg Bool.false_ne_true]
  rfl

theorem rankSpans_skip {item : ContextItem F} (hspan : contextItemSpan E isDigit item = .ok none)
    (items : List (ContextItem F)) : rankSpans E isDigit cutoff ranked remaining (item :: items) =
      rankSpans E isDigit cutoff ranked remaining items := by
  rw [rankSpans, hspan]
  rfl

/-- Every result has read the first item. -/
theorem rankSpans_first {item : ContextItem F} {items : List (ContextItem F)}
    (h : rankSpans E isDigit cutoff ranked remaining (item :: items) = .ok result) :
    ∃ span?, contextItemSpan E isDigit item = .ok span? := by
  rw [rankSpans, bind_eq_ok] at h
  obtain ⟨span?, hspan, -⟩ := h
  exact ⟨span?, hspan⟩

end Step

/-- What holds of the spans that the loop returns: it adds to those it began with, no span ends before it starts,
and the number and the lines keep to the bounds. -/
structure Ranked (cutoff : ℕ) (ranked : List RetrievedSpan) (remaining : Option ℤ) (result : List RetrievedSpan) :
    Prop where
  added : ranked <+: result
  ordered : ∀ span ∈ result, span.startLine ≤ span.endLine
  short : result.length ≤ cutoff
  lines : ∀ lines ∈ remaining, (result.map RetrievedSpan.lines).sum ≤ (ranked.map RetrievedSpan.lines).sum + lines

/-- **The loop** keeps to the cutoff and to the budget. -/
theorem rankSpans_spec {cutoff : ℕ} : ∀ {items : List (ContextItem F)} {ranked result : List RetrievedSpan}
    {remaining : Option ℤ}, Open cutoff ranked remaining →
    rankSpans E isDigit cutoff ranked remaining items = .ok result → Ranked cutoff ranked remaining result
  | [], ranked, result, remaining, hopen, h => by
    rw [← Except.ok.inj h]
    refine ⟨List.prefix_rfl, hopen.ordered, hopen.short.le, fun lines hlines => ?_⟩
    have hpos := hopen.left lines hlines
    omega
  | item :: items, ranked, result, remaining, hopen, h => by
    obtain ⟨span?, hspan⟩ := rankSpans_first h
    cases span? with
    | none =>
      rw [rankSpans_skip hspan] at h
      exact rankSpans_spec hopen h
    | some span =>
      have hordered := contextItemSpan_lines hspan
      have hlines := (fit_spec hordered hopen.left).2
      rw [rankSpans_cons hopen hspan] at h
      by_cases hends : Ends cutoff ranked remaining span
      · rw [if_pos hends] at h
        rw [← Except.ok.inj h]
        refine ⟨List.prefix_append _ _, push_ordered hopen hordered, ?_, fun lines hmem => ?_⟩
        · have hshort := hopen.short
          rw [push, List.length_append, List.length_singleton]
          omega
        · obtain ⟨rest, -, hrest, heq⟩ := hlines lines hmem
          rw [sum_push]
          omega
      · rw [if_neg hends] at h
        have ih := rankSpans_spec (hopen.push hordered hends) h
        refine ⟨(List.prefix_append _ _).trans ih.added, ih.ordered, ih.short, fun lines hmem => ?_⟩
        obtain ⟨rest, hrest, -, heq⟩ := hlines lines hmem
        have hle := ih.lines rest hrest
        rw [sum_push] at hle
        omega

/-- **One more item adds to the spans**, and takes none away. -/
theorem rankSpans_append {cutoff : ℕ} {item : ContextItem F} : ∀ {items : List (ContextItem F)}
    {ranked result result' : List RetrievedSpan} {remaining : Option ℤ}, Open cutoff ranked remaining →
    rankSpans E isDigit cutoff ranked remaining items = .ok result →
    rankSpans E isDigit cutoff ranked remaining (items ++ [item]) = .ok result' → result <+: result'
  | [], ranked, result, result', remaining, hopen, h, h' => by
    rw [← Except.ok.inj h]
    exact (rankSpans_spec hopen h').added
  | first :: items, ranked, result, result', remaining, hopen, h, h' => by
    obtain ⟨span?, hspan⟩ := rankSpans_first h
    rw [List.cons_append] at h'
    cases span? with
    | none =>
      rw [rankSpans_skip hspan] at h h'
      exact rankSpans_append hopen h h'
    | some span =>
      rw [rankSpans_cons hopen hspan] at h h'
      by_cases hends : Ends cutoff ranked remaining span
      · rw [if_pos hends] at h h'
        rw [Except.ok.inj (h.symm.trans h')]
      · rw [if_neg hends] at h h'
        exact rankSpans_append (hopen.push (contextItemSpan_lines hspan) hends) h h'

/-! ### Rates -/

theorem unit_lines {a b : ℤ} (ha : 0 ≤ a) (h : a ≤ b) :
    0 ≤ (if b = 0 then 0 else (a : ℚ) / b) ∧ (if b = 0 then 0 else (a : ℚ) / b) ≤ 1 := by
  by_cases hzero : b = 0
  · rw [if_pos hzero]
    exact ⟨le_rfl, zero_le_one⟩
  · rw [if_neg hzero]
    have ha' : (0 : ℚ) ≤ a := Int.cast_nonneg ha
    have hle : (a : ℚ) ≤ b := Int.cast_le.mpr h
    exact ⟨div_nonneg ha' (ha'.trans hle), div_le_one_of_le₀ hle (ha'.trans hle)⟩

section Metrics
variable {gold : List GoldSpan} {ranked : List RetrievedSpan} {cutoff : ℕ} {budget : Option ℤ}

/-- **The rates of spans** lie between zero and one. -/
theorem spanMetrics_rates (hgold : ∀ span ∈ gold, span.startLine ≤ span.endLine)
    (hranked : ∀ span ∈ ranked, span.startLine ≤ span.endLine) (hlength : ranked.length ≤ cutoff) :
    ∀ q ∈ (spanMetrics gold cutoff budget ranked).rates, 0 ≤ q ∧ q ≤ 1 := by
  have hprecision : 0 ≤ (spanMetrics gold cutoff budget ranked).spanPrecisionAtK ∧
      (spanMetrics gold cutoff budget ranked).spanPrecisionAtK ≤ 1 := unit_div (List.countP_le_length.trans hlength)
  have hrecall : 0 ≤ (spanMetrics gold cutoff budget ranked).spanRecallAtK ∧
      (spanMetrics gold cutoff budget ranked).spanRecallAtK ≤ 1 := unit_div (List.length_filter_le _ _)
  intro q hq
  simp only [SpanMetrics.rates, List.mem_cons, List.not_mem_nil, or_false] at hq
  rcases hq with rfl | rfl | rfl | rfl | rfl
  · exact hprecision
  · exact hrecall
  · exact unit_f1 hprecision hrecall
  · refine unit_lines (List.sum_nonneg fun n hn => ?_)
      (List.sum_le_sum fun span hspan => relevantLines_le gold (hranked span hspan))
    obtain ⟨span, -, rfl⟩ := List.mem_map.mp hn
    exact relevantLines_nonneg gold span
  · refine unit_lines (List.sum_nonneg fun n hn => ?_)
      (List.sum_le_sum fun span hspan => coveredLines_le (hgold span hspan) ranked)
    obtain ⟨span, -, rfl⟩ := List.mem_map.mp hn
    exact coveredLines_nonneg span ranked

theorem lineRecall_mono (hgold : ∀ span ∈ gold, span.startLine ≤ span.endLine) {more : List RetrievedSpan}
    (h : ranked ⊆ more) : (spanMetrics gold cutoff budget ranked).lineRecall ≤
      (spanMetrics gold cutoff budget more).lineRecall := by
  unfold spanMetrics
  dsimp only
  split_ifs
  · exact le_rfl
  · have hcovered : (gold.map fun span => coveredLines span ranked).sum ≤
        (gold.map fun span => coveredLines span more).sum :=
      List.sum_le_sum fun span _ => coveredLines_mono span h
    have htotal : 0 ≤ (gold.map GoldSpan.lines).sum := by
      refine List.sum_nonneg fun n hn => ?_
      obtain ⟨span, hspan, rfl⟩ := List.mem_map.mp hn
      have hline := hgold span hspan
      unfold GoldSpan.lines
      omega
    exact div_le_div_of_nonneg_right (Int.cast_le.mpr hcovered) (Int.cast_nonneg htotal)

end Metrics

theorem open_start (k : ℤ) (budget : Option ℤ) : Open (cutoffOf k) [] (budget.map (max 1)) := by
  refine ⟨fun span hspan => absurd hspan List.not_mem_nil, cutoffOf_pos k, fun lines hlines => ?_⟩
  obtain ⟨given, -, rfl⟩ := Option.map_eq_some_iff.mp hlines
  omega

theorem spanRetrievalMetrics_eq_ok {items : List (ContextItem F)} {goldSpans : List (Dict F)} {k : ℤ}
    {budget : Option ℤ} {m : SpanMetrics} (h : spanRetrievalMetrics E isDigit items goldSpans k budget = .ok (some m)) :
    ∃ gold ranked, normalizeGoldSpans E goldSpans = .ok gold ∧
      rankSpans E isDigit (cutoffOf k) [] (budget.map (max 1)) items = .ok ranked ∧
      m = spanMetrics gold (cutoffOf k) budget ranked := by
  unfold spanRetrievalMetrics at h
  split_ifs at h with hempty
  · cases h
  · rw [bind_eq_ok] at h
    obtain ⟨gold, hgold, h⟩ := h
    rw [bind_eq_ok] at h
    obtain ⟨ranked, hranked, h⟩ := h
    exact ⟨gold, ranked, hgold, hranked, (Option.some.inj (Except.ok.inj h)).symm⟩

/-- **Span metrics measure sets of lines.** -/
theorem measured (E : Env F) (isDigit : Char → Bool) : Measured E isDigit where
  covered := coveredLines_eq
  rates items goldSpans k budget m h := by
    obtain ⟨gold, ranked, hgold, hranked, rfl⟩ := spanRetrievalMetrics_eq_ok h
    have hspec := rankSpans_spec (open_start k budget) hranked
    exact spanMetrics_rates (normalizeGoldSpans_lines hgold) hspec.ordered hspec.short
  budget items goldSpans k lines m hlines h := by
    obtain ⟨gold, ranked, -, hranked, rfl⟩ := spanRetrievalMetrics_eq_ok h
    have hle := (rankSpans_spec (open_start k (some lines)) hranked).lines (max 1 lines) rfl
    have hsum : (([] : List RetrievedSpan).map RetrievedSpan.lines).sum = 0 := rfl
    rw [hsum] at hle
    show (ranked.map RetrievedSpan.lines).sum ≤ lines
    omega
  appended items item goldSpans k budget m m' h h' := by
    obtain ⟨gold, ranked, hgold, hranked, rfl⟩ := spanRetrievalMetrics_eq_ok h
    obtain ⟨gold', ranked', hgold', hranked', rfl⟩ := spanRetrievalMetrics_eq_ok h'
    rw [← Except.ok.inj (hgold.symm.trans hgold')]
    exact lineRecall_mono (normalizeGoldSpans_lines hgold)
      (rankSpans_append (open_start k budget) hranked hranked').subset

/-- Two spans that touch, and a third one in both of them. -/
example : coveredLines ⟨"a", 2, 9, none, none⟩ [⟨"a", 1, 4, none⟩, ⟨"a", 3, 5, none⟩, ⟨"a", 5, 6, none⟩] = 5 := by
  decide +kernel

end ControlPlane.Benchmark.Spans
