import ControlPlane.Instance
import ControlPlane.Lib.Decimals
import ControlPlane.Retrieval.StructuralValidation
import Mathlib.Data.Finset.Lattice.Lemmas

/-! # Sufficiency of evidence

The verdict on the retrieved items: how many words of the query they hold, from how many sources they come, whether
one holds the whole query, and whether they prove the relations it asks for. What the loop collects is known from the
items as a set (`collect_spec`), so each part of the verdict grows with that set, and with the parts the score
(`evaluateSufficiency_mono`). -/

namespace ControlPlane.Retrieval.Coverage

open ControlPlane.Lib.Value ControlPlane.Lib.Text ControlPlane.Lib.Floats ControlPlane.Lib.Rounding
open ControlPlane.Lib.Decimals ControlPlane.Lib.Weights ControlPlane.Lib.Dynamic
open ControlPlane.Environment ControlPlane.Instance ControlPlane.Retrieval.Items
open ControlPlane.Retrieval.StructuralValidation (fieldText)

variable {F : Type} (E : Env F) (tokenize : String → List String)

/-! ### The verdict -/

structure Sufficiency where
  score : Num
  sufficient : Bool
  lexicalCoverage : Num
  sourceDiversity : ℕ
  exactMatch : Bool
  structuralComplete : Bool

/-- `"".join(text.casefold().split())` -/
def normalized (text : String) : List Char := (E.casefold text).toList.filter fun c => !isSpace c

/-- What the loop over the items collects. -/
structure Evidence where
  matched : Finset String
  exactMatch : Bool
  sources : Finset String
  matchedStructural : Finset String

def noEvidence : Evidence := ⟨∅, false, ∅, ∅⟩

/-- The normalized query is not empty and occurs in the normalized text. -/
def holdsQuery (query text : String) : Bool :=
  normalized E query ≠ [] && (normalized E text).tails.any (normalized E query).isPrefixOf

/-- The relation that an item proves. -/
def patternOf (item : ContextItem F) : Finset String :=
  if truthy E.T (getKey item.metadata "structural_valid") then
    let pattern := fieldText E item.metadata "pattern"
    if pattern = "" then ∅ else {pattern}
  else ∅

def look (query : String) (seen : Evidence) (item : ContextItem F) : Evidence where
  sources := insert item.source seen.sources
  matched := seen.matched ∪ ((tokenize query).toFinset ∩ (tokenize item.text).toFinset)
  exactMatch := seen.exactMatch || holdsQuery E query item.text
  matchedStructural := seen.matchedStructural ∪ patternOf E item

def collect (query : String) (items : List (ContextItem F)) : Evidence := items.foldl (look E tokenize query) noEvidence

def structuralComplete (required : Bool) (patterns : List String) (found : Finset String) : Bool :=
  if !required then true
  else if patterns ≠ [] then decide (patterns.toFinset ⊆ found)
  else decide (found ≠ ∅)

/-- `min(1.0, x)` -/
def atMostOne (x : Num) : Num := if x.lt (E.T.lit 1) then x else E.T.lit 1

/-- `float(flag)` -/
def flagValue (flag : Bool) : Num := .fin (if flag then 1 else 0)

def weighted (coverage : Num) (diversity : ℕ) (exact complete : Bool) : Num :=
  let T := E.T
  T.add
    (T.add
      (T.add (T.mul (T.lit (58 / 100)) coverage)
        (T.mul (T.lit (17 / 100)) (atMostOne E (T.lit (diversity / 2)))))
      (T.mul (T.lit (15 / 100)) (flagValue exact)))
    (T.mul (T.lit (10 / 100)) (flagValue complete))

def evaluateSufficiency (query : String) (items : List (ContextItem F)) (required : Bool) (patterns : List String)
    (threshold : Num) : Sufficiency :=
  if items.isEmpty then ⟨.fin 0, false, .fin 0, 0, false, false⟩
  else
    let seen := collect E tokenize query items
    let complete := structuralComplete required patterns seen.matchedStructural
    let coverage := E.T.lit (seen.matched.card / (max 1 (tokenize query).toFinset.card : ℕ))
    let diversity := seen.sources.card
    let score := pyMax (.fin 0) (atMostOne E (weighted E coverage diversity seen.exactMatch complete))
    { score := roundTo E.T 4 score
      sufficient := threshold.le score && (complete || !required)
      lexicalCoverage := roundTo E.T 4 coverage
      sourceDiversity := diversity
      exactMatch := seen.exactMatch
      structuralComplete := complete }

/-! ### What is collected -/

variable {E tokenize}

/-- A fact about the items, one by one. -/
theorem collect_spec (query : String) (items : List (ContextItem F)) :
    (∀ token, token ∈ (collect E tokenize query items).matched ↔
      token ∈ tokenize query ∧ ∃ item ∈ items, token ∈ tokenize item.text) ∧
    ((collect E tokenize query items).exactMatch = true ↔ ∃ item ∈ items, holdsQuery E query item.text = true) ∧
    (∀ source, source ∈ (collect E tokenize query items).sources ↔ ∃ item ∈ items, item.source = source) ∧
    ∀ pattern, pattern ∈ (collect E tokenize query items).matchedStructural ↔
      ∃ item ∈ items, pattern ∈ patternOf E item := by
  induction items using List.reverseRecOn with
  | nil => simp [collect, noEvidence]
  | append_singleton items item ih =>
    obtain ⟨hmatched, hexact, hsources, hstructural⟩ := ih
    have hstep : collect E tokenize query (items ++ [item]) =
        look E tokenize query (collect E tokenize query items) item := by
      rw [collect, List.foldl_append]
      rfl
    rw [hstep]
    refine ⟨fun token => ?_, ?_, fun source => ?_, fun pattern => ?_⟩
    · rw [look, Finset.mem_union, hmatched, Finset.mem_inter, List.mem_toFinset, List.mem_toFinset, ← and_or_left]
      simp [or_and_right, exists_or]
    · rw [look, Bool.or_eq_true, hexact]
      simp [or_and_right, exists_or]
    · rw [look, Finset.mem_insert, hsources]
      simp [or_and_right, exists_or, or_comm, eq_comm]
    · rw [look, Finset.mem_union, hstructural]
      simp [or_and_right, exists_or]

variable {query : String} {items more : List (ContextItem F)}

/-- **More items, more evidence.** -/
theorem collect_mono (h : items ⊆ more) :
    (collect E tokenize query items).matched ⊆ (collect E tokenize query more).matched ∧
    ((collect E tokenize query items).exactMatch = true → (collect E tokenize query more).exactMatch = true) ∧
    (collect E tokenize query items).sources ⊆ (collect E tokenize query more).sources ∧
    (collect E tokenize query items).matchedStructural ⊆ (collect E tokenize query more).matchedStructural := by
  obtain ⟨hm, he, hs, hp⟩ := @collect_spec F E tokenize query items
  obtain ⟨hm', he', hs', hp'⟩ := @collect_spec F E tokenize query more
  refine ⟨fun token htoken => ?_, fun hexact => ?_, fun source hsource => ?_, fun pattern hpattern => ?_⟩
  · obtain ⟨hquery, item, hitem, htext⟩ := (hm token).mp htoken
    exact (hm' token).mpr ⟨hquery, item, h hitem, htext⟩
  · obtain ⟨item, hitem, hholds⟩ := he.mp hexact
    exact he'.mpr ⟨item, h hitem, hholds⟩
  · obtain ⟨item, hitem, heq⟩ := (hs source).mp hsource
    exact (hs' source).mpr ⟨item, h hitem, heq⟩
  · obtain ⟨item, hitem, hproved⟩ := (hp pattern).mp hpattern
    exact (hp' pattern).mpr ⟨item, h hitem, hproved⟩

theorem matched_card_le (query : String) (items : List (ContextItem F)) :
    (collect E tokenize query items).matched.card ≤ (tokenize query).toFinset.card := by
  refine Finset.card_le_card fun token htoken => ?_
  exact List.mem_toFinset.mpr (((collect_spec query items).1 token).mp htoken).1

theorem structuralComplete_mono {required : Bool} {patterns : List String} {found found' : Finset String}
    (h : found ⊆ found') (hc : structuralComplete required patterns found = true) :
    structuralComplete required patterns found' = true := by
  unfold structuralComplete at hc ⊢
  by_cases hr : (!required) = true
  · rw [if_pos hr]
  · rw [if_neg hr] at hc ⊢
    by_cases hp : patterns ≠ []
    · rw [if_pos hp, decide_eq_true_eq] at hc ⊢
      exact hc.trans h
    · rw [if_neg hp, decide_eq_true_eq] at hc ⊢
      have hsome := (Finset.nonempty_iff_ne_empty.mpr hc).mono h
      exact hsome.ne_empty

/-! ### The score -/

/-- A number in the unit interval, not below another. -/
theorem unit_mono (hT : Stable E.T) {p q : ℚ} (hp : 0 ≤ p) (hpq : p ≤ q) (hq : q ≤ 1) :
    ∃ r s, E.T.lit p = .fin r ∧ E.T.lit q = .fin s ∧ 0 ≤ r ∧ r ≤ s ∧ s ≤ 1 := by
  obtain ⟨r, hr, hr0, -⟩ := unit_lit hT hp (hpq.trans hq)
  obtain ⟨s, hs, -, hs1⟩ := unit_lit hT (hp.trans hpq) hq
  have hle := E.T.lit_mono hpq
  rw [hr, hs, Num.le_fin, decide_eq_true_eq] at hle
  exact ⟨r, s, hr, hs, hr0, hle, hs1⟩

/-- A weight times numbers of the unit interval. -/
theorem mul_mono (hT : Stable E.T) {w p q : ℚ} (hw : 0 ≤ w) (hw1 : w ≤ 1) (hp : 0 ≤ p) (hpq : p ≤ q) (hq : q ≤ 1) :
    ∃ r s, E.T.mul (E.T.lit w) (.fin p) = .fin r ∧ E.T.mul (E.T.lit w) (.fin q) = .fin s ∧ 0 ≤ r ∧ r ≤ s := by
  obtain ⟨v, hv, hv0, hv1⟩ := unit_lit hT hw hw1
  have hle : v * p ≤ v * q := mul_le_mul_of_nonneg_left hpq hv0
  have hone : v * q ≤ 1 := mul_le_one₀ hv1 (hp.trans hpq) hq
  obtain ⟨r, s, hr, hs, hr0, hrs, -⟩ := unit_mono hT (mul_nonneg hv0 hp) hle hone
  rw [hv]
  exact ⟨r, s, hr, hs, hr0, hrs⟩

theorem atMostOne_mono (hT : Stable E.T) {x y : Num} (hx : NonNeg x) (h : x.le y = true) :
    ∃ r s, atMostOne E x = .fin r ∧ atMostOne E y = .fin s ∧ 0 ≤ r ∧ r ≤ s ∧ s ≤ 1 := by
  have hfin : ∀ q : ℚ, atMostOne E (.fin q) = .fin (min q 1) := by
    intro q
    rw [atMostOne, hT.one, Num.lt_fin]
    by_cases hq : q < 1
    · simp [hq, min_eq_left hq.le]
    · simp [hq, min_eq_right (not_lt.mp hq)]
  have hinf : atMostOne E (.inf false) = .fin 1 := by
    rw [atMostOne, hT.one]
    rfl
  rcases nonNeg_iff.mp (hx.trans h) with rfl | ⟨q, -, rfl⟩
  · rcases nonNeg_iff.mp hx with rfl | ⟨p, hp, rfl⟩
    · exact ⟨1, 1, hinf, hinf, zero_le_one, le_rfl, le_rfl⟩
    · exact ⟨min p 1, 1, hfin p, hinf, le_min hp zero_le_one, min_le_right _ _, le_rfl⟩
  · rcases nonNeg_iff.mp hx with rfl | ⟨p, hp, rfl⟩
    · cases h
    · rw [Num.le_fin, decide_eq_true_eq] at h
      exact ⟨min p 1, min q 1, hfin p, hfin q, le_min hp zero_le_one, min_le_min_right 1 h, min_le_right _ _⟩

theorem flagValue_mono {a b : Bool} (h : a = true → b = true) :
    ∃ p q : ℚ, flagValue a = .fin p ∧ flagValue b = .fin q ∧ 0 ≤ p ∧ p ≤ q ∧ q ≤ 1 := by
  refine ⟨_, _, rfl, rfl, ?_⟩
  cases a with
  | false => cases b <;> norm_num
  | true => simp [h rfl]

/-- **The score grows with its parts.** -/
theorem weighted_mono (hT : Stable E.T) {p q : ℚ} (hp : 0 ≤ p) (hpq : p ≤ q) (hq : q ≤ 1) {m n : ℕ} (hmn : m ≤ n)
    {exact exact' complete complete' : Bool} (he : exact = true → exact' = true)
    (hc : complete = true → complete' = true) :
    NonNeg (weighted E (.fin p) m exact complete) ∧
      (weighted E (.fin p) m exact complete).le (weighted E (.fin q) n exact' complete') = true := by
  have hhalf : ((m : ℚ) / 2) ≤ n / 2 := by
    have hcast : (m : ℚ) ≤ n := Nat.cast_le.mpr hmn
    linarith
  obtain ⟨s, s', hs, hs', hs0, hss, hs1⟩ :=
    atMostOne_mono hT (nonNeg_lit (T := E.T) (q := (m : ℚ) / 2) (by positivity)) (E.T.lit_mono hhalf)
  obtain ⟨e, e', hev, hev', he0, hee, he1⟩ := flagValue_mono he
  obtain ⟨c, c', hcv, hcv', hc0, hcc, hc1⟩ := flagValue_mono hc
  obtain ⟨a1, b1, ha1, hb1, h01, h1⟩ := mul_mono hT (w := 58 / 100) (by norm_num) (by norm_num) hp hpq hq
  obtain ⟨a2, b2, ha2, hb2, h02, h2⟩ := mul_mono hT (w := 17 / 100) (by norm_num) (by norm_num) hs0 hss hs1
  obtain ⟨a3, b3, ha3, hb3, h03, h3⟩ := mul_mono hT (w := 15 / 100) (by norm_num) (by norm_num) he0 hee he1
  obtain ⟨a4, b4, ha4, hb4, h04, h4⟩ := mul_mono hT (w := 10 / 100) (by norm_num) (by norm_num) hc0 hcc hc1
  have hfirst : NonNeg (E.T.add (.fin a1) (.fin a2)) := nonNeg_add (nonNeg_fin h01) h02
  have hsecond := nonNeg_add (T := E.T) hfirst h03
  have hle1 : (Num.fin a1).le (.fin b1) = true := by rw [Num.le_fin, decide_eq_true_eq]; exact h1
  have hle2 := add_le_add (T := E.T) (nonNeg_fin h01) hle1 h2
  have hle3 := add_le_add (T := E.T) hfirst hle2 h3
  simp only [weighted, hs, hs', hev, hev', hcv, hcv', ha1, hb1, ha2, hb2, ha3, hb3, ha4, hb4]
  exact ⟨nonNeg_add hsecond h04, add_le_add hsecond hle3 h4⟩

/-! ### The verdict grows -/

/-- No part of the first verdict is above that of the second. -/
structure AtMost (a b : Sufficiency) : Prop where
  score : a.score.le b.score = true
  sufficient : a.sufficient = true → b.sufficient = true
  lexicalCoverage : a.lexicalCoverage.le b.lexicalCoverage = true
  sourceDiversity : a.sourceDiversity ≤ b.sourceDiversity
  exactMatch : a.exactMatch = true → b.exactMatch = true
  structuralComplete : a.structuralComplete = true → b.structuralComplete = true

variable (E) in
/-- A verdict on no items is at most any other. -/
theorem atMost_empty {p q : ℚ} (hp : 0 ≤ p) (hq : 0 ≤ q) (sufficient exact complete : Bool)
    (diversity : ℕ) : AtMost ⟨.fin 0, false, .fin 0, 0, false, false⟩
      ⟨roundTo E.T 4 (.fin p), sufficient, roundTo E.T 4 (.fin q), diversity, exact, complete⟩ where
  score := nonNeg_lit (roundHalfEven_nonneg hp 4)
  sufficient h := absurd h Bool.false_ne_true
  lexicalCoverage := nonNeg_lit (roundHalfEven_nonneg hq 4)
  sourceDiversity := Nat.zero_le _
  exactMatch h := absurd h Bool.false_ne_true
  structuralComplete h := absurd h Bool.false_ne_true

/-- The share of the words of the query that were found. -/
theorem coverage_mono (hT : Stable E.T) (h : items ⊆ more) :
    ∃ p q, E.T.lit ((collect E tokenize query items).matched.card / (max 1 (tokenize query).toFinset.card : ℕ)) = .fin p ∧
      E.T.lit ((collect E tokenize query more).matched.card / (max 1 (tokenize query).toFinset.card : ℕ)) = .fin q ∧
      0 ≤ p ∧ p ≤ q ∧ q ≤ 1 := by
  have hcard := Finset.card_le_card (@collect_mono F E tokenize query items more h).1
  have hmost := @matched_card_le F E tokenize query more
  have hpos : (0 : ℚ) < (max 1 (tokenize query).toFinset.card : ℕ) := by
    have hone : 1 ≤ max 1 (tokenize query).toFinset.card := Nat.le_max_left _ _
    exact_mod_cast hone
  refine unit_mono hT (by positivity) (div_le_div_of_nonneg_right (by exact_mod_cast hcard) hpos.le) ?_
  rw [div_le_one hpos]
  have hle : (collect E tokenize query more).matched.card ≤ max 1 (tokenize query).toFinset.card := by omega
  exact_mod_cast hle

/-- The score, cut to the unit interval. -/
theorem score_mono (hT : Stable E.T) {x y : Num} (hx : NonNeg x) (h : x.le y = true) :
    ∃ p q, pyMax (.fin 0) (atMostOne E x) = .fin p ∧ pyMax (.fin 0) (atMostOne E y) = .fin q ∧ 0 ≤ p ∧ p ≤ q := by
  obtain ⟨p, q, hp, hq, hp0, hpq, -⟩ := atMostOne_mono hT hx h
  have hmax : ∀ r : ℚ, 0 ≤ r → pyMax (.fin 0) (.fin r) = .fin r := by
    intro r hr
    rw [pyMax, Num.lt_fin]
    by_cases hpos : 0 < r
    · rw [decide_eq_true hpos, if_pos rfl]
    · have hzero : r = 0 := le_antisymm (not_lt.mp hpos) hr
      rw [hzero]
      rfl
  exact ⟨p, q, by rw [hp, hmax p hp0], by rw [hq, hmax q (hp0.trans hpq)], hp0, hpq⟩

/-- **More items, no part of the verdict smaller.** -/
theorem evaluateSufficiency_mono (hT : Stable E.T) (query : String) (required : Bool) (patterns : List String)
    (threshold : Num) (h : items ⊆ more) :
    AtMost (evaluateSufficiency E tokenize query items required patterns threshold)
      (evaluateSufficiency E tokenize query more required patterns threshold) := by
  obtain ⟨-, hexact, hsources, hstructural⟩ := @collect_mono F E tokenize query items more h
  have hcomplete : structuralComplete required patterns (collect E tokenize query items).matchedStructural = true →
      structuralComplete required patterns (collect E tokenize query more).matchedStructural = true :=
    structuralComplete_mono hstructural
  have hdiversity := Finset.card_le_card hsources
  obtain ⟨p, q, hp, hq, hp0, hpq, hq1⟩ := @coverage_mono F E tokenize query items more hT h
  obtain ⟨hnonneg, hweighted⟩ := weighted_mono hT hp0 hpq hq1 hdiversity hexact hcomplete
  obtain ⟨s, t, hs, ht, hs0, hst⟩ := score_mono hT hnonneg hweighted
  unfold evaluateSufficiency
  by_cases hmore : more.isEmpty = true
  · have hitems : items.isEmpty = true := by
      rw [List.isEmpty_iff] at hmore ⊢
      exact List.subset_nil.mp (hmore ▸ h)
    rw [if_pos hmore, if_pos hitems]
    have hzero : (Num.fin 0).le (.fin 0) = true := by rw [Num.le_fin, decide_eq_true_eq]
    exact ⟨hzero, id, hzero, le_rfl, id, id⟩
  · rw [if_neg hmore]
    dsimp only
    rw [hq, ht]
    by_cases hitems : items.isEmpty = true
    · rw [if_pos hitems]
      exact atMost_empty E (hs0.trans hst) (hp0.trans hpq) _ _ _ _
    · rw [if_neg hitems, hp, hs]
      have hscores : (Num.fin s).le (.fin t) = true := by
        rw [Num.le_fin, decide_eq_true_eq]
        exact hst
      refine ⟨roundTo_mono hst 4, fun hsufficient => ?_, roundTo_mono hpq 4, hdiversity, hexact, hcomplete⟩
      obtain ⟨hscore, hproved⟩ := Bool.and_eq_true_iff.mp hsufficient
      rw [Bool.or_eq_true] at hproved
      rw [Num.le_trans hscore hscores, Bool.true_and, Bool.or_eq_true]
      exact hproved.imp_left hcomplete

/-- An item whose text is the query. -/
def textual : ContextItem ℚ := ⟨"targeted_source", "a", 1, false, [], [], none⟩

/-- A caller of the function that is asked about. -/
def structural : ContextItem ℚ :=
  ⟨"code_review_graph", "b", 1, false, [("pattern", .str "callers_of")], [], none⟩

/-- One item, and the same item after another. -/
theorem sufficiency_of_two :
    AtMost (evaluateSufficiency exactPlatform (fun text => [text]) "a" [textual] true ["callers_of"]
        (.fin (1 / 2)))
      (evaluateSufficiency exactPlatform (fun text => [text]) "a" [structural, textual] true
        ["callers_of"] (.fin (1 / 2))) :=
  evaluateSufficiency_mono exact_rationals.stable "a" true ["callers_of"] (.fin (1 / 2)) (by simp)

end ControlPlane.Retrieval.Coverage
