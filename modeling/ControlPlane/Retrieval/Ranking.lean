import ControlPlane.Retrieval.Fusion
import ControlPlane.Retrieval.Selection
import ControlPlane.Instance

/-! # Hybrid ranking

The ranking of what base and specialist retrievers have found, in its modes. Adaptive mode without
specialists keeps the order of the base and does not apply the limit; otherwise what is returned is what
the limit leaves of the items with different keys (`hybridRank_spec`). In the diverse modes a query without
words loses everything (`hybridRank_lost`). -/

namespace ControlPlane.Retrieval.Ranking

open ControlPlane.Lib.Value ControlPlane.Lib.Floats ControlPlane.Lib.Rounding ControlPlane.Lib.Dynamic
open ControlPlane.Lib.Text ControlPlane.Lib.Keyed ControlPlane.Lib.Grid ControlPlane.Environment
open ControlPlane.Instance ControlPlane.Retrieval.Items ControlPlane.Retrieval.Budget
open ControlPlane.Retrieval.Selection ControlPlane.Retrieval.Fusion

variable {F : Type} (E : Env F) (log : Num → Num) (blake2b : String → String)
  (tokenize : String → List String)

/-! ### The settings -/

inductive Ranker where
  | adaptive
  | source
  | bm25
  | rrf
  | rrfMmr
  deriving DecidableEq

def rankerOf (name : String) : Ranker :=
  if name = "source" then .source
  else if name = "bm25" then .bm25
  else if name = "rrf" then .rrf
  else if name = "rrf_mmr" then .rrfMmr
  else .adaptive

/-- Whether the ranking ends with the diverse one. -/
def Ranker.diverse : Ranker → Bool
  | .adaptive => true
  | .rrfMmr => true
  | _ => false

/-- Whether the ranking fuses rankings. -/
def Ranker.fuses : Ranker → Bool
  | .source => false
  | .bm25 => false
  | _ => true

structure AlgorithmPolicy where
  hybridRanker : Ranker
  rrfK : ℤ
  mmrLambda : Num
  disableEarlySufficiencyGate : Bool
  deriving DecidableEq

/-- `max(1, int(v))`, or 60 if it is no integer. -/
def rrfKOf (v : Json F) : Py ℤ :=
  match E.toInt v with
  | .ok n => .ok (max 1 n)
  | .error (.typeError _) => .ok 60
  | .error (.valueError _) => .ok 60
  | .error e => .error e

/-- `float(v)`, or 0.75 if it is no float. -/
def floatOr (v : Json F) : Py Num :=
  match E.toFloat v with
  | .ok x => .ok (E.T.view x)
  | .error (.typeError _) => .ok (E.T.lit (3 / 4))
  | .error (.valueError _) => .ok (E.T.lit (3 / 4))
  | .error e => .error e

/-- `min(1.0, max(0.0, x))`. -/
def clamp (T : FloatSys F) (x : Num) : Num :=
  let y := positive x
  if y.lt (T.lit 1) then y else T.lit 1

def algorithmPolicy (config : Dict F) : Py AlgorithmPolicy := do
  let experiments := contextSection config "experiments"
  let ranker ← E.strOr experiments "hybrid_ranker" "adaptive"
  let rrfK ← rrfKOf E ((lookup "rrf_k" experiments).getD (.int 60))
  let mmrLambda ← floatOr E ((lookup "mmr_lambda" experiments).getD (.float (E.T.ofRat (3 / 4))))
  return ⟨rankerOf (E.lower (strip ranker)), rrfK, clamp E.T mmrLambda,
    ((lookup "disable_early_sufficiency_gate" experiments).map (truthy E.T)).getD false⟩

/-- What the ranking reads of the policy of a task. -/
structure TaskRetrievalPolicy (F : Type) where
  sourceWeight : F
  lexicalWeight : F
  specialistWeight : F
  mmrLambda : F

/-! ### Provenance -/

/-- The item with normalized provenance. -/
def provenanceOf (item : ContextItem F) : ContextItem F :=
  let base := setKey "trust" (.str (trustClassForSource item.source))
    (setKey "fresh" (.bool (!item.stale)) (setKey "retriever" (.str item.source) item.provenance))
  let provenance := ["path", "file", "line", "start_line", "end_line", "sha256"].foldl (fun d key =>
    match lookup key item.metadata with
    | some v => setKey key v d
    | none => d) base
  ⟨item.source, item.text, item.score, item.stale, item.metadata, provenance, none⟩

/-! ### The ranking -/

def candidatesOf (base specialist : List (ContextItem F)) : List (ContextItem F) :=
  (base ++ specialist).map provenanceOf

/-- The items with different keys by falling score. -/
def scoreRank (items : List (ContextItem F)) : List (ContextItem F) :=
  dedupe blake2b (byScore (fun item => E.T.view item.score) items)

/-- The candidates that have a word of the query, and then the others. -/
def lexicalRank (scorer : Scorer (ContextItem F)) (query : String) (sourceRank : List (ContextItem F)) :
    List (ContextItem F) :=
  let found := (rank E log tokenize scorer query).map Prod.snd
  let keys := found.map (dedupeKey blake2b)
  found ++ sourceRank.filter fun item => !keys.contains (dedupeKey blake2b item)

def weightsOf (taskPolicy : Option (TaskRetrievalPolicy F)) : Option (List Num) :=
  taskPolicy.map fun p => [p.sourceWeight, p.lexicalWeight, p.specialistWeight].map E.T.view

/-- How relevance counts against novelty. -/
def lambdaOf (policy : AlgorithmPolicy) (taskPolicy : Option (TaskRetrievalPolicy F)) : Num :=
  match policy.hybridRanker, taskPolicy with
  | .adaptive, some p => E.T.view p.mmrLambda
  | _, _ => policy.mmrLambda

/-- The modes that fuse rankings. -/
def fusedRank (query : String) (rankings : List (List (ContextItem F))) (limit : ℕ)
    (policy : AlgorithmPolicy) (taskPolicy : Option (TaskRetrievalPolicy F)) :
    Py (List (ContextItem F)) := do
  let fused ← reciprocalRankFusion E rankings (dedupeKey blake2b) policy.rrfK (weightsOf E taskPolicy)
  let items := fused.map Prod.snd
  if policy.hybridRanker = .rrf || decide (items.length ≤ 1) then return items.take limit
  else
    let scorer ← fit E tokenize (items.map ContextItem.text) items
    maximalMarginalRelevance E.T (tokenize query) scorer.docs (fused.map Prod.fst)
      (lambdaOf E policy taskPolicy) (min limit items.length)

/-- What the mode of a policy makes of three rankings. -/
def inMode (query : String) (sourceRank lexical specialistRank : List (ContextItem F)) (limit : ℕ)
    (policy : AlgorithmPolicy) (taskPolicy : Option (TaskRetrievalPolicy F)) :
    Py (List (ContextItem F)) :=
  match policy.hybridRanker with
  | .source => .ok (sourceRank.take limit)
  | .bm25 => .ok ((dedupe blake2b lexical).take limit)
  | _ => fusedRank E blake2b tokenize query [sourceRank, lexical, specialistRank] limit policy taskPolicy

def rankedBy (query : String) (candidates specialist : List (ContextItem F)) (limit : ℕ)
    (policy : AlgorithmPolicy) (taskPolicy : Option (TaskRetrievalPolicy F)) :
    Py (List (ContextItem F)) := do
  let sourceRank := scoreRank E blake2b candidates
  let scorer ← fit E tokenize (candidates.map ContextItem.text) candidates
  let lexical := lexicalRank E log blake2b tokenize scorer query sourceRank
  inMode E blake2b tokenize query sourceRank lexical
    (scoreRank E blake2b (specialist.map provenanceOf)) limit policy taskPolicy

def hybridRank (query : String) (base specialist : List (ContextItem F)) (limit : ℕ) (config : Dict F)
    (taskPolicy : Option (TaskRetrievalPolicy F)) : Py (List (ContextItem F)) :=
  let candidates := candidatesOf base specialist
  if candidates.isEmpty then .ok []
  else do
    let policy ← algorithmPolicy E config
    if policy.hybridRanker = .adaptive && specialist.isEmpty then .ok (dedupe blake2b candidates)
    else rankedBy E log blake2b tokenize query candidates specialist limit policy taskPolicy

variable {E log blake2b tokenize}

/-! ### The rankings -/

theorem mem_keys_dedupeFrom : ∀ (items : List (ContextItem F)) (seen : List String), ∀ item ∈ items,
    dedupeKey blake2b item ∈ seen ∨
      dedupeKey blake2b item ∈ (dedupeFrom blake2b seen items).map (dedupeKey blake2b)
  | [], _, _, h => by cases h
  | first :: items, seen, item, h => by
    rw [dedupeFrom]
    split_ifs with hin
    · rcases List.mem_cons.mp h with rfl | h
      · exact Or.inl hin
      · exact mem_keys_dedupeFrom items seen item h
    · rw [List.map_cons, List.mem_cons]
      rcases List.mem_cons.mp h with rfl | h
      · exact Or.inr (Or.inl rfl)
      · rcases mem_keys_dedupeFrom items (dedupeKey blake2b first :: seen) item h with hs | hs
        · rcases List.mem_cons.mp hs with he | hs
          · exact Or.inr (Or.inl he)
          · exact Or.inl hs
        · exact Or.inr (Or.inr hs)

theorem distinct_dedupe (items : List (ContextItem F)) :
    Distinct (dedupeKey blake2b) items (dedupe blake2b items) :=
  ⟨dedupe_subset items [], (dedupeFrom_spec items []).1, fun item h =>
    (mem_keys_dedupeFrom items [] item h).resolve_left (by simp)⟩

theorem distinct_scoreRank (items : List (ContextItem F)) :
    Distinct (dedupeKey blake2b) items (scoreRank E blake2b items) := by
  have hperm := perm_byScore (fun item => E.T.view item.score) items
  exact (distinct_dedupe _).congr hperm.subset fun item h =>
    List.mem_map_of_mem (hperm.symm.subset h)

theorem length_scoreRank_le (items : List (ContextItem F)) :
    (scoreRank E blake2b items).length ≤ items.length := by
  rw [(distinct_scoreRank items).length, ← List.length_map (dedupeKey blake2b)]
  exact (List.dedup_sublist _).length_le

section Lexical
variable {items : List (ContextItem F)} {scorer : Scorer (ContextItem F)}
  (h : fit E tokenize (items.map ContextItem.text) items = .ok scorer) (query : String)
include h

/-- The lexical ranking has items with every key, though some twice. -/
theorem lexicalRank_spec :
    (∀ x ∈ lexicalRank E log blake2b tokenize scorer query (scoreRank E blake2b items), x ∈ items) ∧
      (∀ x ∈ items, dedupeKey blake2b x ∈ (lexicalRank E log blake2b tokenize scorer query
        (scoreRank E blake2b items)).map (dedupeKey blake2b)) ∧
      (lexicalRank E log blake2b tokenize scorer query (scoreRank E blake2b items)).length ≤
        2 * items.length := by
  have hsource := @distinct_scoreRank F E blake2b items
  unfold lexicalRank
  dsimp only
  refine ⟨fun x hx => ?_, fun x hx => ?_, ?_⟩
  · rcases List.mem_append.mp hx with hx | hx
    · obtain ⟨p, hp, rfl⟩ := List.mem_map.mp hx
      exact mem_rank E log h query p hp
    · exact hsource.subset x (List.mem_filter.mp hx).1
  · rw [List.map_append, List.mem_append]
    by_cases hin : dedupeKey blake2b x ∈
        ((rank E log tokenize scorer query).map Prod.snd).map (dedupeKey blake2b)
    · exact Or.inl hin
    · obtain ⟨y, hy, he⟩ := List.mem_map.mp (hsource.keys x hx)
      refine Or.inr (List.mem_map.mpr ⟨y, List.mem_filter.mpr ⟨hy, ?_⟩, he⟩)
      rw [he, Bool.not_eq_true', ← Bool.not_eq_true, List.contains_iff_mem]
      exact hin
  · have hrank := @length_rank_le F _ E log tokenize _ _ _ h query
    have hfilter := (List.length_filter_le (fun item => !(((rank E log tokenize scorer query).map
      Prod.snd).map (dedupeKey blake2b)).contains (dedupeKey blake2b item)) (scoreRank E blake2b items))
    have hle := @length_scoreRank_le F E blake2b items
    rw [List.length_append, List.length_map]
    omega

end Lexical

/-! ### What is returned -/

theorem rrfK_pos {config : Dict F} {policy : AlgorithmPolicy} (h : algorithmPolicy E config = .ok policy) :
    0 < policy.rrfK := by
  obtain ⟨ranker, -, h⟩ := bind_eq_ok.mp h
  obtain ⟨k, hk, h⟩ := bind_eq_ok.mp h
  obtain ⟨lam, -, h⟩ := bind_eq_ok.mp h
  have hpolicy : policy.rrfK = k := by rw [← Except.ok.inj h]
  rw [hpolicy]
  unfold rrfKOf at hk
  split at hk
  · rw [← Except.ok.inj hk]
    omega
  · rw [← Except.ok.inj hk]
    omega
  · rw [← Except.ok.inj hk]
    omega
  · cases hk

/-- The weights of a task are positive, and so are their shares for the first ranks. -/
def Weighted (E : Env F) (policy : AlgorithmPolicy) (taskPolicy : Option (TaskRetrievalPolicy F)) (n : ℕ) :
    Prop :=
  ∀ w ∈ effectiveWeights E.T 3 (weightsOf E taskPolicy), Weighs E policy.rrfK n w

/-- The rankings that are fused have candidates only, and the first two have all keys. -/
theorem rankings_spec (query : String) (base specialist : List (ContextItem F)) :
    let candidates := candidatesOf base specialist
    ∃ scorer, fit E tokenize (candidates.map ContextItem.text) candidates = .ok scorer ∧
      (∀ x ∈ candidates, dedupeKey blake2b x ∈ (lexicalRank E log blake2b tokenize scorer query
        (scoreRank E blake2b candidates)).map (dedupeKey blake2b)) ∧
      ∀ r ∈ [scoreRank E blake2b candidates,
        lexicalRank E log blake2b tokenize scorer query (scoreRank E blake2b candidates),
        scoreRank E blake2b (specialist.map provenanceOf)],
        (∀ x ∈ r, x ∈ candidates) ∧ r.length ≤ 2 * candidates.length := by
  intro candidates
  obtain ⟨scorer, hfit, -⟩ := @fit_texts _ _ E tokenize candidates ContextItem.text
  have hsource := @distinct_scoreRank F E blake2b candidates
  obtain ⟨hmem, hkeys, hlen⟩ := @lexicalRank_spec F E log blake2b tokenize candidates scorer hfit query
  have hthird : ∀ x ∈ scoreRank E blake2b (specialist.map provenanceOf), x ∈ candidates := by
    intro x hx
    have hin := (distinct_scoreRank (specialist.map provenanceOf)).subset x hx
    show x ∈ (base ++ specialist).map provenanceOf
    rw [List.map_append]
    exact List.mem_append_right _ hin
  have hfirst := @length_scoreRank_le F E blake2b candidates
  have hlast := @length_scoreRank_le F E blake2b (specialist.map provenanceOf)
  have hcount : candidates.length = base.length + specialist.length := by
    show ((base ++ specialist).map provenanceOf).length = _
    rw [List.length_map, List.length_append]
  rw [List.length_map] at hlast
  refine ⟨scorer, hfit, hkeys, ?_⟩
  simp only [List.forall_mem_cons]
  exact ⟨⟨hsource.subset, by omega⟩, ⟨hmem, hlen⟩, ⟨hthird, by omega⟩, by simp⟩

section Returned
variable (hT : Stable E.T) {query : String} {xs : List (ContextItem F)} {policy : AlgorithmPolicy}
  {taskPolicy : Option (TaskRetrievalPolicy F)} (hk : 0 < policy.rrfK)
include hT hk

theorem fused_spec {first second third : List (ContextItem F)} {n : ℕ}
    (hw : Weighted E policy taskPolicy n)
    (hmem : ∀ r ∈ [first, second, third], (∀ x ∈ r, x ∈ xs) ∧ r.length ≤ n)
    (hcover : ∀ x ∈ xs, dedupeKey blake2b x ∈ first.map (dedupeKey blake2b)) :
    ∃ fused, reciprocalRankFusion E [first, second, third] (dedupeKey blake2b) policy.rrfK
      (weightsOf E taskPolicy) = .ok fused ∧ Distinct (dedupeKey blake2b) xs (fused.map Prod.snd) ∧
        ∀ p ∈ fused, (Num.fin 0).lt p.1 = true := by
  have hcount : ∀ ws, weightsOf E taskPolicy = some ws → ws.length = [first, second, third].length := by
    intro ws h
    obtain ⟨p, -, rfl⟩ := Option.map_eq_some_iff.mp h
    rfl
  exact fusion_spec hT hk hcount hw hmem fun x hx => ⟨first, by simp, hcover x hx⟩

/-- **The fusing modes** return what the limit leaves of the items with different keys. -/
theorem fusedRank_spec {first second third : List (ContextItem F)} {n : ℕ}
    (hw : Weighted E policy taskPolicy n)
    (hmem : ∀ r ∈ [first, second, third], (∀ x ∈ r, x ∈ xs) ∧ r.length ≤ n)
    (hcover : ∀ x ∈ xs, dedupeKey blake2b x ∈ first.map (dedupeKey blake2b))
    (hquery : policy.hybridRanker ≠ .rrf → 2 ≤ (xs.map (dedupeKey blake2b)).dedup.length →
      tokenize query ≠ []) (limit : ℕ) :
    ∃ result, fusedRank E blake2b tokenize query [first, second, third] limit policy taskPolicy =
      .ok result ∧ Limited (dedupeKey blake2b) limit xs result := by
  obtain ⟨fused, hfused, hdistinct, hpos⟩ := fused_spec hT hk hw hmem hcover
  set items := fused.map Prod.snd with hitems
  by_cases hrrf : policy.hybridRanker = .rrf ∨ items.length ≤ 1
  · refine ⟨items.take limit, ?_, hdistinct.take limit⟩
    rw [fusedRank, bind_eq_ok]
    refine ⟨fused, hfused, if_pos ?_⟩
    rw [Bool.or_eq_true, decide_eq_true_eq, decide_eq_true_eq]
    exact hrrf
  · have hcond : ¬ (policy.hybridRanker = .rrf || decide (items.length ≤ 1)) = true := by
      rwa [Bool.or_eq_true, decide_eq_true_eq, decide_eq_true_eq]
    rw [not_or, not_le] at hrrf
    obtain ⟨scorer, hfit, hdocs⟩ := @fit_texts _ _ E tokenize items ContextItem.text
    have hword : tokenize query ≠ [] := by
      refine hquery hrrf.1 ?_
      rw [← hdistinct.length]
      exact hrrf.2
    have hscores : (fused.map Prod.fst).length = items.length := by
      rw [hitems, List.length_map, List.length_map]
    have hall : ∀ s ∈ fused.map Prod.fst, (Num.fin 0).lt s = true := List.forall_mem_map.mpr hpos
    obtain ⟨result, rest, hresult, hperm, hlen⟩ := @diverse_spec _ _ tokenize E.T _
      (items.map ContextItem.text) items _ (lambdaOf E policy taskPolicy) (min limit items.length) hword
      (List.length_map _) hscores hall
    refine ⟨result, ?_, (hdistinct.perm hperm.symm).limited (List.sublist_append_left _ _) ?_⟩
    · rw [fusedRank, bind_eq_ok]
      refine ⟨fused, hfused, ?_⟩
      dsimp only
      rw [← hitems, if_neg hcond, bind_eq_ok]
      exact ⟨scorer, hfit, by rw [hdocs]; exact hresult⟩
    · rw [hlen, ← hperm.length_eq]
      omega

/-- A query without words loses everything in a diverse mode. -/
theorem fusedRank_lost {first second third : List (ContextItem F)} {n : ℕ}
    (hw : Weighted E policy taskPolicy n)
    (hmem : ∀ r ∈ [first, second, third], (∀ x ∈ r, x ∈ xs) ∧ r.length ≤ n)
    (hcover : ∀ x ∈ xs, dedupeKey blake2b x ∈ first.map (dedupeKey blake2b))
    (hmode : policy.hybridRanker.diverse = true) (hseveral : 2 ≤ (xs.map (dedupeKey blake2b)).dedup.length)
    (hquery : tokenize query = []) (limit : ℕ) :
    fusedRank E blake2b tokenize query [first, second, third] limit policy taskPolicy = .ok [] := by
  obtain ⟨fused, hfused, hdistinct, -⟩ := fused_spec hT hk hw hmem hcover
  obtain ⟨scorer, hfit, hdocs⟩ := @fit_texts _ _ E tokenize (fused.map Prod.snd) ContextItem.text
  rw [← hdistinct.length] at hseveral
  rw [fusedRank, bind_eq_ok]
  refine ⟨fused, hfused, (if_neg ?_).trans (bind_eq_ok.mpr ⟨scorer, hfit, ?_⟩)⟩
  · rw [Bool.or_eq_true, decide_eq_true_eq, decide_eq_true_eq, not_or, not_le]
    refine ⟨fun h => ?_, hseveral⟩
    rw [h] at hmode
    cases hmode
  · rw [hquery, maximalMarginalRelevance, if_pos (by simp)]

theorem inMode_spec {first second third : List (ContextItem F)} {n : ℕ}
    (hw : policy.hybridRanker.fuses = true → Weighted E policy taskPolicy n)
    (hfirst : Distinct (dedupeKey blake2b) xs first)
    (hsecond : ∀ x ∈ xs, dedupeKey blake2b x ∈ second.map (dedupeKey blake2b))
    (hmem : ∀ r ∈ [first, second, third], (∀ x ∈ r, x ∈ xs) ∧ r.length ≤ n)
    (hquery : policy.hybridRanker.diverse = true → 2 ≤ (xs.map (dedupeKey blake2b)).dedup.length →
      tokenize query ≠ []) (limit : ℕ) :
    ∃ result, inMode E blake2b tokenize query first second third limit policy taskPolicy = .ok result ∧
      Limited (dedupeKey blake2b) limit xs result := by
  have hfused := fun hfuses hword =>
    @fusedRank_spec F E blake2b tokenize hT query xs policy taskPolicy hk first second third n (hw hfuses) hmem
      hfirst.keys hword limit
  unfold inMode
  cases hmode : policy.hybridRanker with
  | source => exact ⟨_, rfl, hfirst.take limit⟩
  | bm25 => exact ⟨_, rfl, ((distinct_dedupe second).congr (hmem second (by simp)).1 hsecond).take limit⟩
  | rrf =>
    rw [hmode] at hfused
    exact hfused rfl fun h => absurd rfl h
  | adaptive =>
    rw [hmode] at hfused hquery
    exact hfused rfl fun _ => hquery rfl
  | rrfMmr =>
    rw [hmode] at hfused hquery
    exact hfused rfl fun _ => hquery rfl

/-- **The ranked modes** return what the limit leaves of the items with different keys. -/
theorem rankedBy_spec {base specialist : List (ContextItem F)}
    (hw : policy.hybridRanker.fuses = true →
      Weighted E policy taskPolicy (2 * (candidatesOf base specialist).length))
    (hquery : policy.hybridRanker.diverse = true →
      2 ≤ ((candidatesOf base specialist).map (dedupeKey blake2b)).dedup.length → tokenize query ≠ [])
    (limit : ℕ) :
    ∃ result, rankedBy E log blake2b tokenize query (candidatesOf base specialist) specialist limit policy
      taskPolicy = .ok result ∧
        Limited (dedupeKey blake2b) limit (candidatesOf base specialist) result := by
  obtain ⟨scorer, hfit, hkeys, hranks⟩ :=
    @rankings_spec F E log blake2b tokenize query base specialist
  obtain ⟨result, hresult, hlimited⟩ := inMode_spec hT hk hw (distinct_scoreRank _) hkeys hranks hquery limit
  refine ⟨result, ?_, hlimited⟩
  rw [rankedBy, bind_eq_ok]
  exact ⟨scorer, hfit, hresult⟩

/-- A query without words loses everything in a diverse mode. -/
theorem rankedBy_lost {base specialist : List (ContextItem F)}
    (hw : Weighted E policy taskPolicy (2 * (candidatesOf base specialist).length))
    (hmode : policy.hybridRanker.diverse = true)
    (hseveral : 2 ≤ ((candidatesOf base specialist).map (dedupeKey blake2b)).dedup.length)
    (hquery : tokenize query = []) (limit : ℕ) :
    rankedBy E log blake2b tokenize query (candidatesOf base specialist) specialist limit policy
      taskPolicy = .ok [] := by
  obtain ⟨scorer, hfit, hkeys, hranks⟩ :=
    @rankings_spec F E log blake2b tokenize query base specialist
  have hlost := fusedRank_lost hT hk hw hranks (distinct_scoreRank _).keys hmode hseveral hquery limit
  rw [rankedBy, bind_eq_ok]
  refine ⟨scorer, hfit, ?_⟩
  unfold inMode
  cases hranker : policy.hybridRanker with
  | adaptive => exact hlost
  | rrfMmr => exact hlost
  | source => simp [hranker, Ranker.diverse] at hmode
  | bm25 => simp [hranker, Ranker.diverse] at hmode
  | rrf => simp [hranker, Ranker.diverse] at hmode

end Returned

/-- **Hybrid ranking**: in adaptive mode without specialists, each item of a new key in the order of the
base; otherwise what the limit leaves of the items with different keys, if the weights and their shares
are positive and the query of a diverse ranking has a word. -/
theorem hybridRank_spec (hT : Stable E.T) {query : String} {base specialist : List (ContextItem F)}
    {limit : ℕ} {config : Dict F} {policy : AlgorithmPolicy}
    {taskPolicy : Option (TaskRetrievalPolicy F)} (hpolicy : algorithmPolicy E config = .ok policy)
    (hw : policy.hybridRanker.fuses = true →
      Weighted E policy taskPolicy (2 * (candidatesOf base specialist).length)) :
    (policy.hybridRanker = .adaptive → specialist = [] →
      hybridRank E log blake2b tokenize query base specialist limit config taskPolicy =
        .ok (dedupe blake2b (candidatesOf base specialist)) ∧
      Distinct (dedupeKey blake2b) (candidatesOf base specialist)
        (dedupe blake2b (candidatesOf base specialist))) ∧
    (¬ (policy.hybridRanker = .adaptive ∧ specialist = []) →
      (policy.hybridRanker.diverse = true →
        2 ≤ ((candidatesOf base specialist).map (dedupeKey blake2b)).dedup.length → tokenize query ≠ []) →
      ∃ result, hybridRank E log blake2b tokenize query base specialist limit config taskPolicy =
        .ok result ∧ Limited (dedupeKey blake2b) limit (candidatesOf base specialist) result) := by
  refine ⟨fun hmode hnone => ⟨?_, distinct_dedupe _⟩, fun hother hquery => ?_⟩
  · unfold hybridRank
    dsimp only
    split_ifs with hempty
    · rw [List.isEmpty_iff.mp hempty]
      rfl
    · rw [hpolicy]
      exact if_pos (by simp [hmode, hnone])
  · unfold hybridRank
    dsimp only
    split_ifs with hempty
    · refine ⟨[], rfl, ?_⟩
      rw [List.isEmpty_iff.mp hempty]
      exact ⟨by simp, by simp, by simp⟩
    · obtain ⟨result, hresult, hlimited⟩ := rankedBy_spec hT (rrfK_pos hpolicy) hw hquery limit
      refine ⟨result, ?_, hlimited⟩
      rw [hpolicy]
      refine (if_neg ?_).trans hresult
      simpa using hother

/-- **A query without words loses everything** in a diverse ranking of several items. -/
theorem hybridRank_lost (hT : Stable E.T) {query : String} {base specialist : List (ContextItem F)}
    {limit : ℕ} {config : Dict F} {policy : AlgorithmPolicy}
    {taskPolicy : Option (TaskRetrievalPolicy F)} (hpolicy : algorithmPolicy E config = .ok policy)
    (hw : Weighted E policy taskPolicy (2 * (candidatesOf base specialist).length))
    (hmode : policy.hybridRanker.diverse = true)
    (hother : ¬ (policy.hybridRanker = .adaptive ∧ specialist = []))
    (hseveral : 2 ≤ ((candidatesOf base specialist).map (dedupeKey blake2b)).dedup.length)
    (hquery : tokenize query = []) :
    hybridRank E log blake2b tokenize query base specialist limit config taskPolicy = .ok [] := by
  unfold hybridRank
  dsimp only
  split_ifs with hempty
  · rfl
  · rw [hpolicy]
    refine (if_neg ?_).trans (rankedBy_lost hT (rrfK_pos hpolicy) hw hmode hseveral hquery limit)
    simpa using hother

/-- Two items of a base. -/
def pair : List (ContextItem Cell) :=
  [⟨"docs", "alpha", .one, false, [], [], none⟩, ⟨"docs", "beta", .tenth, false, [], [], none⟩]

theorem hybridRank_pair : ∃ result,
    hybridRank platform id id (fun s => [s]) "alpha" (pair.take 1) (pair.drop 1) 1 [] none = .ok result ∧
      Limited (dedupeKey id) 1 (candidatesOf (pair.take 1) (pair.drop 1)) result := by
  have hpolicy : algorithmPolicy platform [] = .ok ⟨.adaptive, 60, .fin (3 / 10), false⟩ := by
    decide +kernel
  have hone : ∀ rank < 5, shareOf platform (.fin 1) 60 rank = .ok (.fin 1) := by
    decide +kernel
  have hw : Weighted platform ⟨.adaptive, 60, .fin (3 / 10), false⟩ none 4 := by
    intro w h
    have hlit : w = .fin 1 := by
      rw [List.eq_of_mem_replicate h]
      decide +kernel
    rw [hlit]
    exact ⟨by decide, fun rank _ hrank => ⟨_, hone rank (by omega), by decide⟩⟩
  exact (hybridRank_spec stable_platform hpolicy fun _ => hw).2 (by simp [pair]) fun _ _ => by simp

/-- **The limit is not applied** in adaptive mode without specialists. -/
theorem hybridRank_unlimited : ∃ result,
    hybridRank platform id id (fun s => [s]) "alpha" pair [] 1 [] none = .ok result ∧
      result.length = 2 ∧ ((candidatesOf pair []).map (dedupeKey id)).dedup.length = 2 :=
  ⟨_, rfl, by decide +kernel, by decide +kernel⟩

end ControlPlane.Retrieval.Ranking
