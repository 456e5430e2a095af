import ControlPlane.Lib.Keyed
import ControlPlane.Lib.Rounding
import ControlPlane.Environment
import Mathlib.Data.List.Sort

/-! # Ranking by words, fusion and diversity

The rankings of items: by their words (`rank`), by the ranks that several rankings give
(`reciprocalRankFusion`), and by relevance and novelty (`maximalMarginalRelevance`). They are about items of
any type.

A fusion with positive shares has every key of its rankings once, with a positive score
(`fusion_spec`), and the diverse ranking loses nothing of it up to its limit (`diverse_spec`) if the query
has a word. -/

namespace ControlPlane.Retrieval.Fusion

open ControlPlane.Lib.Value ControlPlane.Lib.Floats ControlPlane.Lib.Rounding ControlPlane.Lib.Dynamic
open ControlPlane.Lib.Keyed ControlPlane.Environment

variable {F α : Type} (E : Env F) (log : Num → Num) (tokenize : String → List String)

/-! ### Ranking by words -/

structure TokenizedDoc (α : Type) where
  id : ℕ
  text : String
  tokens : List String
  originalItem : α

def TokenizedDoc.tokenSet (doc : TokenizedDoc α) : List String := doc.tokens.dedup

def TokenizedDoc.termFreq (doc : TokenizedDoc α) (token : String) : ℕ := doc.tokens.count token

/-- A fitted scorer with `k1 = 1.5` and `b = 0.75`. -/
structure Scorer (α : Type) where
  docs : List (TokenizedDoc α)
  avgdl : Num

/-- How many documents have a token. -/
def docFreq (docs : List (TokenizedDoc α)) (token : String) : ℕ :=
  (docs.filter fun doc => doc.tokenSet.contains token).length

/-- The documents of texts. -/
def docsOf (texts : List String) (objects : List α) : List (TokenizedDoc α) :=
  (texts.zip objects).zipIdx.map fun p => ⟨p.2, p.1.1, tokenize p.1.1, p.1.2⟩

def fit (texts : List String) (objects : List α) : Py (Scorer α) :=
  if texts.length ≠ objects.length then
    .error (.valueError "texts and objects must have the same length")
  else
    let docs := docsOf tokenize texts objects
    let total := (docs.map fun doc => doc.tokens.length).sum
    .ok ⟨docs, E.T.lit (total / (max 1 docs.length : ℕ))⟩

/-- The weight of a token: `max(0.01, log(1 + (n - f + 0.5) / (f + 0.5)))`, or 0.01 if it is unseen. -/
def idf (scorer : Scorer α) (token : String) : Num :=
  let T := E.T
  let freq := docFreq scorer.docs token
  if freq = 0 then T.lit (1 / 100)
  else
    let above := T.add (T.lit ((scorer.docs.length : ℤ) - freq : ℤ)) (T.lit (1 / 2))
    let below := T.add (T.lit freq) (T.lit (1 / 2))
    let value := log (T.add (T.lit 1) (T.div above below))
    if (T.lit (1 / 100)).lt value then value else T.lit (1 / 100)

def scoreDocument (scorer : Scorer α) (queryTokens : List String) (doc : TokenizedDoc α) : Num :=
  let T := E.T
  if scorer.avgdl.le (.fin 0) then .fin 0
  else
    let k1 := T.lit (3 / 2)
    let b := T.lit (3 / 4)
    let lenNorm := T.add (T.sub (T.lit 1) b) (T.mul b (T.div (T.lit doc.tokens.length) scorer.avgdl))
    queryTokens.foldl (fun score token =>
      let freq := doc.termFreq token
      if freq = 0 then score
      else
        let numerator := T.mul (T.lit freq) (T.add k1 (T.lit 1))
        let denominator := T.add (T.lit freq) (T.mul k1 lenNorm)
        T.add score (T.mul (idf E log scorer token) (T.div numerator denominator))) (.fin 0)

/-- The order by falling score; it keeps the order of what has the same score. -/
def byScore {β : Type} (score : β → Num) (rows : List β) : List β :=
  rows.insertionSort fun a b => (score b).negate.lt (score a).negate = false

def rank (scorer : Scorer α) (query : String) : List (Num × α) :=
  let queryTokens := (tokenize query).dedup
  let results := scorer.docs.filterMap fun doc =>
    let score := scoreDocument E log scorer queryTokens doc
    if (Num.fin 0).lt score then some (score, doc) else none
  (byScore Prod.fst results).map fun r => (r.1, r.2.originalItem)

/-! ### Fusion -/

structure Fused (α : Type) where
  key : String
  item : α
  score : Num

/-- Adds a share to the score of a key. -/
def credit (T : FloatSys F) (key : String) (item : α) (share : Num) : List (Fused α) → List (Fused α)
  | [] => [⟨key, item, T.add (.fin 0) share⟩]
  | e :: es =>
    if e.key = key then { e with score := T.add e.score share } :: es else e :: credit T key item share es

/-- `weight / (k + rank)`. -/
def shareOf (weight : Num) (k : ℤ) (rank : ℕ) : Py Num := do
  let below ← E.floatOfInt (k + rank)
  return E.T.div weight (E.T.view below)

/-- The loop over one ranking. -/
def fuseRanking (key : α → String) (k : ℤ) (weight : Num) :
    ℕ → List String → List α → List (Fused α) → Py (List (Fused α))
  | _, _, [], fused => .ok fused
  | rank, seen, item :: items, fused =>
    if seen.contains (key item) then fuseRanking key k weight (rank + 1) seen items fused
    else do
      let share ← shareOf E weight k rank
      fuseRanking key k weight (rank + 1) (key item :: seen) items (credit E.T (key item) item share fused)

/-- The loop over the rankings. -/
def fuseRankings (key : α → String) (k : ℤ) : List (List α × Num) → List (Fused α) → Py (List (Fused α))
  | [], fused => .ok fused
  | (ranking, weight) :: rankings, fused =>
    if weight.eq (.fin 0) then fuseRankings key k rankings fused
    else do
      let fused ← fuseRanking E key k weight 1 [] ranking fused
      fuseRankings key k rankings fused

/-- The order by falling score, and then by the place at which a key was first seen. -/
def fusedLE (a b : Fused α × ℕ) : Bool :=
  let x := a.1.score.negate
  let y := b.1.score.negate
  x.lt y || (x.eq y && decide (a.2 ≤ b.2))

def checkWeights (count : ℕ) : Option (List Num) → Py Unit
  | none => .ok ()
  | some ws => do
    require (decide (ws.length = count)) "weights must match rankings"
    require (!ws.any fun w => w.lt (.fin 0)) "weights must be non-negative"

/-- `weights or [1.0] * count`. -/
def effectiveWeights (T : FloatSys F) (count : ℕ) : Option (List Num) → List Num
  | some (w :: ws) => w :: ws
  | _ => List.replicate count (T.lit 1)

def reciprocalRankFusion (rankings : List (List α)) (key : α → String) (k : ℤ)
    (weights : Option (List Num)) : Py (List (Num × α)) := do
  require (decide (0 < k)) "k must be positive"
  checkWeights rankings.length weights
  let fused ← fuseRankings E key k (rankings.zip (effectiveWeights E.T rankings.length weights)) []
  let ordered := fused.zipIdx.insertionSort fun a b => fusedLE a b = true
  return ordered.map fun e => (e.1.score, e.1.item)

/-! ### Diversity -/

/-- The share of common elements of two sets. -/
def jaccardSimilarity (T : FloatSys F) (a b : List String) : Num :=
  let common := (a.filter b.contains).length
  if common = 0 then .fin 0 else T.lit (common / (a.length + b.length - common : ℕ))

/-- The first element with the greatest score. -/
def firstMax {β : Type} (score : β → Num) (best : β) (rows : List β) : β :=
  rows.foldl (fun m x => if (score m).lt (score x) then x else m) best

/-- The greatest of some numbers. -/
def greatest (default : Num) : List Num → Num
  | [] => default
  | x :: xs => firstMax id x xs

/-- A document with its relevance. -/
structure Row (α : Type) where
  doc : TokenizedDoc α
  relevancy : Num

/-- The relevance of a row, less its likeness to what has been selected. -/
def marginal (T : FloatSys F) (lam : Num) (selected : List (TokenizedDoc α)) (row : Row α) : Num :=
  let penalty := greatest (.fin 0)
    (selected.map fun doc => jaccardSimilarity T row.doc.tokenSet doc.tokenSet)
  T.sub (T.mul lam row.relevancy) (T.mul (T.sub (T.lit 1) lam) penalty)

/-- The loop that selects, for at most a number of rounds. -/
def diversify (T : FloatSys F) (lam : Num) : ℕ → List (Row α) → List (TokenizedDoc α) → List (Row α)
  | 0, _, _ => []
  | _ + 1, [], _ => []
  | n + 1, row :: rows, selected =>
    let best := firstMax (marginal T lam selected) row rows
    best :: diversify T lam n ((row :: rows).eraseP fun r => decide (r.doc.id = best.doc.id))
      (selected ++ [best.doc])

def maximalMarginalRelevance (T : FloatSys F) (queryTokens : List String)
    (candidates : List (TokenizedDoc α)) (scores : List Num) (lam : Num) (maxItems : ℕ) : Py (List α) :=
  if candidates.isEmpty || queryTokens.isEmpty then .ok []
  else if candidates.length ≠ scores.length then
    .error (.valueError "candidates and scores must have the same length")
  else
    let best := greatest (T.lit 1) scores
    let maxScore := if best.le (.fin 0) then T.lit 1 else best
    let relevant := (candidates.zip scores).filter fun p => (Num.fin 0).lt p.2
    let rows := relevant.map fun p => ⟨p.1, T.div p.2 maxScore⟩
    .ok ((diversify T lam maxItems rows []).map fun row => row.doc.originalItem)

/-! ### What is ranked -/

section Docs
variable {tokenize}

theorem map_id_docsOf (texts : List String) (objects : List α) :
    ((docsOf tokenize texts objects).map TokenizedDoc.id).Nodup := by
  have hids : (docsOf tokenize texts objects).map TokenizedDoc.id =
      ((texts.zip objects).zipIdx.map Prod.snd) := by
    rw [docsOf, List.map_map]
    rfl
  rw [hids, List.zipIdx_map_snd]
  exact List.nodup_range'

theorem map_item_docsOf {texts : List String} {objects : List α} (h : texts.length = objects.length) :
    (docsOf tokenize texts objects).map TokenizedDoc.originalItem = objects := by
  have hitems : (docsOf tokenize texts objects).map TokenizedDoc.originalItem =
      ((texts.zip objects).zipIdx.map Prod.fst).map Prod.snd := by
    rw [docsOf, List.map_map, List.map_map]
    rfl
  rw [hitems, List.zipIdx_map_fst, List.map_snd_zip h.ge]

theorem perm_byScore {β : Type} (score : β → Num) (rows : List β) : (byScore score rows).Perm rows :=
  List.perm_insertionSort _ rows

theorem docs_of_fit {texts : List String} {objects : List α} {scorer : Scorer α}
    (h : fit E tokenize texts objects = .ok scorer) :
    texts.length = objects.length ∧ scorer.docs = docsOf tokenize texts objects := by
  unfold fit at h
  split_ifs at h with hlen
  exact ⟨not_not.mp hlen, by rw [← Except.ok.inj h]⟩

theorem fit_texts (items : List α) (text : α → String) : ∃ scorer,
    fit E tokenize (items.map text) items = .ok scorer ∧
      scorer.docs = docsOf tokenize (items.map text) items := by
  unfold fit
  rw [if_neg (by simp)]
  exact ⟨_, rfl, rfl⟩

/-- What is ranked has been fitted. -/
theorem mem_rank {texts : List String} {objects : List α} {scorer : Scorer α}
    (h : fit E tokenize texts objects = .ok scorer) (query : String) :
    ∀ p ∈ rank E log tokenize scorer query, p.2 ∈ objects := by
  obtain ⟨hlen, hdocs⟩ := docs_of_fit E h
  intro p hp
  obtain ⟨r, hr, rfl⟩ := List.mem_map.mp hp
  obtain ⟨doc, hdoc, hscore⟩ := List.mem_filterMap.mp ((perm_byScore Prod.fst _).subset hr)
  dsimp only at hscore
  split_ifs at hscore
  rw [← Option.some.inj hscore]
  rw [hdocs] at hdoc
  have hmem : doc.originalItem ∈ (docsOf tokenize texts objects).map TokenizedDoc.originalItem :=
    List.mem_map_of_mem hdoc
  rwa [map_item_docsOf hlen] at hmem

theorem length_rank_le {texts : List String} {objects : List α} {scorer : Scorer α}
    (h : fit E tokenize texts objects = .ok scorer) (query : String) :
    (rank E log tokenize scorer query).length ≤ objects.length := by
  obtain ⟨hlen, hdocs⟩ := docs_of_fit E h
  have hobjects : objects.length = scorer.docs.length := by
    rw [hdocs, ← List.length_map TokenizedDoc.originalItem, map_item_docsOf hlen]
  rw [rank, List.length_map, (perm_byScore Prod.fst _).length_eq, hobjects]
  exact List.length_filterMap_le _ _

end Docs

/-! ### What is fused -/

/-- A weight is positive, and so are its shares for the first ranks. -/
structure Weighs (E : Env F) (k : ℤ) (n : ℕ) (weight : Num) : Prop where
  positive : (Num.fin 0).lt weight = true
  shares : ∀ rank, 1 ≤ rank → rank ≤ n → ∃ share, shareOf E weight k rank = .ok share ∧
    (Num.fin 0).lt share = true

/-- A positive float. -/
structure Gains (T : FloatSys F) (x : Num) : Prop where
  positive : (Num.fin 0).lt x = true
  rounded : Rounded T x

section Gains
variable {T : FloatSys F}

theorem rounded_div (hT : Stable T) (x y : Num) : Rounded T (T.div x y) := by
  cases x with
  | nan => exact fun q hq => by cases hq
  | inf a =>
    cases y with
    | nan => exact fun q hq => by cases hq
    | inf b => exact fun q hq => by cases hq
    | fin q => exact fun q hq => by cases hq
  | fin p =>
    cases y with
    | nan => exact fun q hq => by cases hq
    | inf b => exact rounded_zero
    | fin q => exact rounded_lit hT _

theorem Gains.first {x : Num} (h : Gains T x) : Gains T (T.add (.fin 0) x) := by
  have hsum : T.add (.fin 0) x = x := by
    cases x with
    | nan => rfl
    | inf a => rfl
    | fin q =>
      show T.lit (0 + q) = _
      rw [zero_add, h.rounded q rfl]
  rwa [hsum]

theorem Gains.add (hT : Stable T) {x y : Num} (hx : Gains T x) (hy : Gains T y) : Gains T (T.add x y) := by
  have hnx : NonNeg x := Num.le_of_lt hx.positive
  have hny : NonNeg y := Num.le_of_lt hy.positive
  rcases nonNeg_iff.mp hny with rfl | ⟨t, ht, rfl⟩
  · rcases nonNeg_iff.mp hnx with rfl | ⟨p, hp, rfl⟩
    · exact hx
    · exact hy
  · refine ⟨?_, rounded_add hnx hT⟩
    have hle := le_add hnx hx.rounded ht
    have hsum : NonNeg (T.add x (.fin t)) := nonNeg_add hnx ht
    rw [top_lt_iff (nonNeg_fin le_rfl) hsum]
    exact ((top_lt_iff (nonNeg_fin le_rfl) hnx).mp hx.positive).trans_le ((top_le_iff hnx hsum).mp hle)

theorem gains_share {E : Env F} (hT : Stable E.T) {weight share : Num} {k : ℤ} {rank : ℕ}
    (h : shareOf E weight k rank = .ok share) (hpos : (Num.fin 0).lt share = true) : Gains E.T share := by
  obtain ⟨below, -, he⟩ := bind_eq_ok.mp h
  refine ⟨hpos, ?_⟩
  rw [← Except.ok.inj he]
  exact rounded_div hT _ _

end Gains

/-- What has been fused: items of `xs`, none twice, with positive scores. -/
structure Credited (T : FloatSys F) (key : α → String) (xs : List α) (fused : List (Fused α)) : Prop where
  keys : ∀ e ∈ fused, e.key = key e.item
  mem : ∀ e ∈ fused, e.item ∈ xs
  nodup : (fused.map Fused.key).Nodup
  gains : ∀ e ∈ fused, Gains T e.score

theorem mem_keys_credit {T : FloatSys F} {key : String} {item : α} {share : Num} {k : String} :
    ∀ {fused : List (Fused α)}, k ∈ (credit T key item share fused).map Fused.key ↔
      k = key ∨ k ∈ fused.map Fused.key
  | [] => by simp [credit]
  | e :: es => by
    rw [credit]
    split_ifs with he
    · simp only [List.map_cons, List.mem_cons, ← he]
      tauto
    · simp only [List.map_cons, List.mem_cons, mem_keys_credit]
      tauto

theorem Credited.credit {T : FloatSys F} (hT : Stable T) {key : α → String} {xs : List α} {item : α}
    {share : Num} (hitem : item ∈ xs) (hshare : Gains T share) : ∀ {fused : List (Fused α)},
    Credited T key xs fused → Credited T key xs (Fusion.credit T (key item) item share fused)
  | [], _ => by
    have hnew : Gains T (T.add (.fin 0) share) := hshare.first
    refine ⟨?_, ?_, by simp [Fusion.credit], ?_⟩
    · simp [Fusion.credit]
    · simpa [Fusion.credit] using hitem
    · simpa [Fusion.credit] using hnew
  | e :: es, h => by
    have hkeys := List.forall_mem_cons.mp h.keys
    have hmem := List.forall_mem_cons.mp h.mem
    have hgains := List.forall_mem_cons.mp h.gains
    have hnodup := h.nodup
    rw [List.map_cons, List.nodup_cons] at hnodup
    rw [Fusion.credit]
    split_ifs with he
    · exact ⟨List.forall_mem_cons.mpr hkeys, List.forall_mem_cons.mpr hmem, h.nodup,
        List.forall_mem_cons.mpr ⟨hgains.1.add hT hshare, hgains.2⟩⟩
    · have ih := Credited.credit hT hitem hshare ⟨hkeys.2, hmem.2, hnodup.2, hgains.2⟩
      refine ⟨List.forall_mem_cons.mpr ⟨hkeys.1, ih.keys⟩, List.forall_mem_cons.mpr ⟨hmem.1, ih.mem⟩, ?_,
        List.forall_mem_cons.mpr ⟨hgains.1, ih.gains⟩⟩
      rw [List.map_cons, List.nodup_cons, mem_keys_credit]
      exact ⟨fun hin => hin.elim he hnodup.1, ih.nodup⟩

section Runs
variable {E} (hT : Stable E.T) {key : α → String} {xs : List α} {k : ℤ} {n : ℕ}
include hT

theorem fuseRanking_spec {weight : Num} (hw : Weighs E k n weight) : ∀ {items : List α} {rank : ℕ}
    {seen : List String} {fused : List (Fused α)}, 1 ≤ rank → rank + items.length ≤ n + 1 →
    (∀ x ∈ items, x ∈ xs) → (∀ s ∈ seen, s ∈ fused.map Fused.key) → Credited E.T key xs fused →
    ∃ fused', fuseRanking E key k weight rank seen items fused = .ok fused' ∧
      Credited E.T key xs fused' ∧ (∀ s ∈ fused.map Fused.key, s ∈ fused'.map Fused.key) ∧
        ∀ x ∈ items, key x ∈ fused'.map Fused.key
  | [], _, _, fused, _, _, _, _, hc => ⟨fused, rfl, hc, fun _ h => h, by simp⟩
  | item :: items, rank, seen, fused, hrank, hlen, hmem, hseen, hc => by
    rw [List.length_cons] at hlen
    obtain ⟨hitem, hitems⟩ := List.forall_mem_cons.mp hmem
    rw [fuseRanking]
    split_ifs with hin
    · obtain ⟨fused', he, hc', hold, hnew⟩ :=
        fuseRanking_spec hw (show 1 ≤ rank + 1 by omega) (by omega) hitems hseen hc
      refine ⟨fused', he, hc', hold, List.forall_mem_cons.mpr ⟨?_, hnew⟩⟩
      exact hold _ (hseen _ (List.contains_iff_mem.mp hin))
    · obtain ⟨share, hshare, hpos⟩ := hw.shares rank hrank (by omega)
      have hgains := gains_share hT hshare hpos
      have hstep : Credited E.T key xs (credit E.T (key item) item share fused) := hc.credit hT hitem hgains
      have hseen' : ∀ s ∈ key item :: seen,
          s ∈ (credit E.T (key item) item share fused).map Fused.key := by
        intro s hs
        rw [mem_keys_credit]
        exact (List.mem_cons.mp hs).imp id (hseen s)
      obtain ⟨fused', he, hc', hold, hnew⟩ :=
        fuseRanking_spec hw (show 1 ≤ rank + 1 by omega) (by omega) hitems hseen' hstep
      refine ⟨fused', ?_, hc', fun s hs => hold s (mem_keys_credit.mpr (Or.inr hs)),
        List.forall_mem_cons.mpr ⟨hold _ (mem_keys_credit.mpr (Or.inl rfl)), hnew⟩⟩
      rw [hshare]
      exact he

theorem fuseRankings_spec : ∀ {rankings : List (List α × Num)} {fused : List (Fused α)},
    (∀ r ∈ rankings, (∀ x ∈ r.1, x ∈ xs) ∧ r.1.length ≤ n ∧ Weighs E k n r.2) →
    Credited E.T key xs fused → ∃ fused', fuseRankings E key k rankings fused = .ok fused' ∧
      Credited E.T key xs fused' ∧ (∀ s ∈ fused.map Fused.key, s ∈ fused'.map Fused.key) ∧
        ∀ r ∈ rankings, ∀ x ∈ r.1, key x ∈ fused'.map Fused.key
  | [], fused, _, hc => ⟨fused, rfl, hc, fun _ h => h, by simp⟩
  | (ranking, weight) :: rankings, fused, hr, hc => by
    obtain ⟨⟨hmem, hlen, hw⟩, hrest⟩ := List.forall_mem_cons.mp hr
    have hzero : ¬ weight.eq (.fin 0) = true := by
      have hpos := hw.positive
      cases weight with
      | nan => simp [Num.eq]
      | inf a => simp [Num.eq]
      | fin q =>
        rw [Num.lt_fin, decide_eq_true_eq] at hpos
        simpa using hpos.ne'
    have hfirst : 1 + ranking.length ≤ n + 1 := by
      rw [Nat.add_comm]
      exact Nat.succ_le_succ hlen
    have hnone : ∀ s ∈ ([] : List String), s ∈ fused.map Fused.key := by simp
    obtain ⟨fused₁, he₁, hc₁, hold₁, hnew₁⟩ := fuseRanking_spec hT hw le_rfl hfirst hmem hnone hc
    obtain ⟨fused₂, he₂, hc₂, hold₂, hnew₂⟩ := fuseRankings_spec hrest hc₁
    refine ⟨fused₂, ?_, hc₂, fun s hs => hold₂ s (hold₁ s hs),
      List.forall_mem_cons.mpr ⟨fun x hx => hold₂ _ (hnew₁ x hx), hnew₂⟩⟩
    rw [fuseRankings, if_neg hzero, he₁]
    exact he₂

/-- **Fusion** keeps every key of its rankings once, with a positive score. -/
theorem fusion_spec {rankings : List (List α)} {weights : Option (List Num)} (hk : 0 < k)
    (hcount : ∀ ws, weights = some ws → ws.length = rankings.length)
    (hw : ∀ w ∈ effectiveWeights E.T rankings.length weights, Weighs E k n w)
    (hmem : ∀ r ∈ rankings, (∀ x ∈ r, x ∈ xs) ∧ r.length ≤ n)
    (hcover : ∀ x ∈ xs, ∃ r ∈ rankings, key x ∈ r.map key) :
    ∃ fused, reciprocalRankFusion E rankings key k weights = .ok fused ∧
      Distinct key xs (fused.map Prod.snd) ∧ ∀ p ∈ fused, (Num.fin 0).lt p.1 = true := by
  have hlength : (effectiveWeights E.T rankings.length weights).length = rankings.length := by
    cases weights with
    | none => exact List.length_replicate
    | some ws =>
      cases ws with
      | nil => exact List.length_replicate
      | cons w ws => exact hcount _ rfl
  have hcheck : checkWeights rankings.length weights = .ok () := by
    cases weights with
    | none => rfl
    | some ws =>
      rw [checkWeights, bind_eq_ok]
      refine ⟨(), require_eq_ok.mpr (decide_eq_true (hcount ws rfl)), require_eq_ok.mpr ?_⟩
      rw [Bool.not_eq_true', List.any_eq_false]
      intro w hin hneg
      cases ws with
      | nil => cases hin
      | cons v ws =>
        have hpos := (hw w hin).positive
        rw [Num.not_lt_of_le (Num.le_of_lt hpos)] at hneg
        cases hneg
  have hrows : ∀ r ∈ rankings.zip (effectiveWeights E.T rankings.length weights),
      (∀ x ∈ r.1, x ∈ xs) ∧ r.1.length ≤ n ∧ Weighs E k n r.2 := by
    intro r hr
    obtain ⟨h1, h2⟩ := List.of_mem_zip hr
    exact ⟨(hmem r.1 h1).1, (hmem r.1 h1).2, hw r.2 h2⟩
  have hstart : Credited E.T key xs [] := ⟨by simp, by simp, by simp, by simp⟩
  obtain ⟨fused, he, hc, -, hkeys⟩ := fuseRankings_spec hT hrows hstart
  set ordered := fused.zipIdx.insertionSort fun a b => fusedLE a b = true with hordered
  have hperm : (ordered.map Prod.fst).Perm fused := by
    have := (List.perm_insertionSort (fun a b => fusedLE a b = true) fused.zipIdx).map Prod.fst
    rwa [List.zipIdx_map_fst] at this
  have hitems : (ordered.map fun e => (e.1.score, e.1.item)) =
      (ordered.map Prod.fst).map fun e => (e.score, e.item) := by
    rw [List.map_map]
    rfl
  refine ⟨ordered.map fun e => (e.1.score, e.1.item), ?_, ?_, ?_⟩
  · rw [reciprocalRankFusion, bind_eq_ok]
    refine ⟨(), require_eq_ok.mpr (decide_eq_true hk), bind_eq_ok.mpr ⟨(), hcheck, bind_eq_ok.mpr
      ⟨fused, he, rfl⟩⟩⟩
  · rw [hitems, List.map_map]
    have hdistinct : Distinct key xs (fused.map Fused.item) := by
      have hself : (fused.map Fused.item).map key = fused.map Fused.key := by
        rw [List.map_map]
        exact List.map_congr_left fun e he => (hc.keys e he).symm
      refine ⟨List.forall_mem_map.mpr hc.mem, hself ▸ hc.nodup, fun x hx => ?_⟩
      obtain ⟨r, hr, hx⟩ := hcover x hx
      obtain ⟨y, hy, hkey⟩ := List.mem_map.mp hx
      obtain ⟨i, hi, rfl⟩ := List.getElem_of_mem hr
      have hi' : i < (rankings.zip (effectiveWeights E.T rankings.length weights)).length := by
        rw [List.length_zip]
        omega
      have hpair := List.getElem_mem hi'
      rw [List.getElem_zip] at hpair
      rw [hself, ← hkey]
      exact hkeys _ hpair y hy
    exact hdistinct.perm (hperm.map Fused.item)
  · rw [hitems, List.forall_mem_map]
    exact fun e he => (hc.gains e (hperm.subset he)).positive

end Runs

/-! ### What is diverse -/

theorem firstMax_mem {β : Type} (score : β → Num) : ∀ (rows : List β) (best : β),
    firstMax score best rows ∈ best :: rows
  | [], best => by simp [firstMax]
  | row :: rows, best => by
    have ih := firstMax_mem score rows (if (score best).lt (score row) then row else best)
    have hstep : firstMax score best (row :: rows) =
        firstMax score (if (score best).lt (score row) then row else best) rows := rfl
    rw [hstep]
    rcases List.mem_cons.mp ih with he | hin
    · rw [he]
      split_ifs
      · exact List.mem_cons_of_mem _ (List.mem_cons_self ..)
      · exact List.mem_cons_self ..
    · exact List.mem_cons_of_mem _ (List.mem_cons_of_mem _ hin)

/-- What is selected, and what is left, are the rows. -/
theorem diversify_perm {T : FloatSys F} {lam : Num} : ∀ {n : ℕ} {rows : List (Row α)}
    {selected : List (TokenizedDoc α)}, (rows.map fun r => r.doc.id).Nodup →
    ∃ rest, rows.Perm (diversify T lam n rows selected ++ rest) ∧
      (diversify T lam n rows selected).length = min n rows.length
  | 0, rows, _, _ => ⟨rows, List.Perm.refl _, by simp [diversify]⟩
  | n + 1, [], _, _ => ⟨[], List.Perm.refl _, by simp [diversify]⟩
  | n + 1, row :: rows, selected, h => by
    rw [diversify]
    set best := firstMax (marginal T lam selected) row rows
    have hbest : best ∈ row :: rows := firstMax_mem _ rows row
    have hperm := @perm_eraseP _ _ (fun r : Row α => r.doc.id) _ _ _ h hbest
    set others := (row :: rows).eraseP fun r => decide (r.doc.id = best.doc.id)
    have hids : (others.map fun r => r.doc.id).Nodup :=
      ((hperm.map fun r => r.doc.id).nodup_iff.mp h).of_cons
    obtain ⟨rest, hrest, hlen⟩ := @diversify_perm T lam n _ (selected ++ [best.doc]) hids
    refine ⟨rest, hperm.trans (hrest.cons best), ?_⟩
    have hcount := hperm.length_eq
    rw [List.length_cons, hlen]
    rw [List.length_cons, List.length_cons] at hcount
    rw [List.length_cons, hcount]
    omega

/-- **Diversity** loses nothing that has a positive score, up to the limit, if the query has a word. -/
theorem diverse_spec {T : FloatSys F} {queryTokens texts : List String} {items : List α} {scores : List Num}
    {lam : Num} {n : ℕ} (hquery : queryTokens ≠ []) (htexts : texts.length = items.length)
    (hscores : scores.length = items.length) (hpos : ∀ s ∈ scores, (Num.fin 0).lt s = true) :
    ∃ result rest, maximalMarginalRelevance T queryTokens (docsOf tokenize texts items) scores lam n =
      .ok result ∧ items.Perm (result ++ rest) ∧ result.length = min n items.length := by
  set docs := docsOf tokenize texts items with hdocs
  have hitems : docs.map TokenizedDoc.originalItem = items := map_item_docsOf htexts
  have hlen : docs.length = scores.length := by
    rw [hscores, ← hitems, List.length_map]
  unfold maximalMarginalRelevance
  by_cases hnone : docs = []
  · have hempty : items = [] := by rw [← hitems, hnone, List.map_nil]
    rw [if_pos (by simp [hnone])]
    exact ⟨[], [], rfl, by rw [hempty]; exact List.Perm.refl _, by rw [hempty]; simp⟩
  · rw [if_neg (by simp [hnone, hquery]), if_neg (by rw [not_not]; exact hlen)]
    set maxScore := if (greatest (T.lit 1) scores).le (.fin 0) = true then T.lit 1 else greatest (T.lit 1) scores
    have hall : ((docs.zip scores).filter fun p => (Num.fin 0).lt p.2) = docs.zip scores :=
      List.filter_eq_self.mpr fun p hp => hpos p.2 (List.of_mem_zip hp).2
    rw [hall]
    dsimp only
    obtain ⟨rows, hrows⟩ : ∃ rows : List (Row α), rows =
        (docs.zip scores).map fun p => ⟨p.1, T.div p.2 maxScore⟩ := ⟨_, rfl⟩
    rw [← hrows]
    have hrowdocs : rows.map Row.doc = docs := by
      rw [hrows, List.map_map]
      have hfst : (docs.zip scores).map Prod.fst = docs := List.map_fst_zip hlen.le
      exact hfst
    have hids : (rows.map fun r => r.doc.id).Nodup := by
      have hnodup := @map_id_docsOf _ tokenize texts items
      rw [← hdocs, ← hrowdocs, List.map_map] at hnodup
      exact hnodup
    obtain ⟨rest, hperm, hcount⟩ := @diversify_perm _ _ T lam n _ [] hids
    have hrowitems : rows.map (fun row => row.doc.originalItem) = items := by
      have hboth : rows.map (fun row => row.doc.originalItem) =
          (rows.map Row.doc).map TokenizedDoc.originalItem := by
        rw [List.map_map]
        rfl
      rw [hboth, hrowdocs, hitems]
    have hrowlen : rows.length = items.length := by
      rw [← hrowitems, List.length_map]
    refine ⟨_, rest.map fun row => row.doc.originalItem, rfl, ?_, ?_⟩
    · rw [← List.map_append, ← hrowitems]
      exact hperm.map _
    · rw [List.length_map, hcount, hrowlen]

end ControlPlane.Retrieval.Fusion
