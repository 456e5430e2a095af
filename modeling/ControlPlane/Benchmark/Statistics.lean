import ControlPlane.Policy.Scores
import ControlPlane.Lib.Decimals
import ControlPlane.Lib.OrderStatistics
import Mathlib.Data.Rat.Floor

/-! # Bootstrap intervals

`bootstrapMeanCi` draws resamples of a list of numbers, and takes two percentiles of their means. The percentile
is the one of the live statistics.

With exact numbers the percentile is an interpolation between the ranks of the list (`percentile_exact`), hence
monotone in the probability and in the list. Whatever is drawn, an interval is then never turned around
(`bootstrapMeanCi_ordered`, `clustered_ordered`). -/

namespace ControlPlane.Benchmark.Statistics

open ControlPlane.Lib.Value ControlPlane.Lib.Floats ControlPlane.Lib.Dynamic ControlPlane.Lib.Rounding
open ControlPlane.Lib.Weights ControlPlane.Lib.Decimals ControlPlane.Lib.OrderStatistics ControlPlane.Environment
open ControlPlane.Deployment.Guardrails ControlPlane.Deployment.Statistics ControlPlane.Policy.Scores

variable {F : Type} (E : Env F)

/-- `math.isfinite(x)`. -/
def isFinite (x : Num) : Bool := (finite? x).isSome

/-- `statistics.mean(values)`: exact until the last step; numbers that are not finite decide alone. -/
def statisticsMean (values : List Num) : Num :=
  if values.all isFinite then E.T.lit ((values.map ratOf).sum / values.length)
  else total E (values.filter fun x => !isFinite x)

/-- The report of `bootstrap_mean_ci`. -/
structure MeanInterval where
  n : ℕ
  mean : Option Num
  confidence : Num
  ciLow : Option Num
  ciHigh : Option Num
  resamples : ℕ

/-- `statistics.mean(cleaned[rng.randrange(size)] for _ in range(size))`. -/
def sampledMean (draw : ℕ → ℕ) (values : List Num) : Num :=
  statisticsMean E ((List.range values.length).filterMap fun i => values[draw i % values.length]?)

def bootstrapMeanCi (draw : ℤ → ℕ → ℕ → ℕ) (values : List Num) (confidence : Num) (resamples seed : ℤ) :
    Py MeanInterval := do
  let cleaned := values.filter isFinite
  if cleaned.isEmpty then return ⟨0, none, confidence, none, none, 0⟩
  require ((Num.fin 0).lt confidence && confidence.lt (E.T.lit 1)) "confidence must be between 0 and 1"
  let draws := (max 1 resamples).toNat
  let mean := round6 E (statisticsMean E cleaned)
  if cleaned.length = 1 then return ⟨1, some mean, confidence, some mean, some mean, 0⟩
  let sampledMeans := (List.range draws).map fun i => sampledMean E (draw seed i) cleaned
  let alpha := E.T.div (E.T.sub (E.T.lit 1) confidence) (.fin 2)
  return ⟨cleaned.length, some mean, confidence, some (round6 E (← percentile E sampledMeans alpha)),
    some (round6 E (← percentile E sampledMeans (E.T.sub (E.T.lit 1) alpha))), draws⟩

/-! ### The percentile -/

section Exact
variable {E} (hT : Exact E.T)

omit E in
theorem sort_fin (xs : List ℚ) : ((xs.map Num.fin).insertionSort fun x y => !y.lt x) =
    (xs.insertionSort (· ≤ ·)).map Num.fin := by
  refine (List.map_insertionSort (· ≤ ·) _ _ _ fun a _ b _ => ?_).symm
  rw [Num.lt_fin, Bool.not_eq_true', decide_eq_false_iff_not, not_lt]

omit E in
theorem nth_fin {xs : List ℚ} {i : ℕ} (hi : i < xs.length) :
    nth ((xs.insertionSort (· ≤ ·)).map Num.fin) i = .ok (.fin (rank xs i)) := by
  have hne : xs ≠ [] := List.ne_nil_of_length_pos (by omega)
  obtain ⟨hlt, hrank⟩ := rank_eq hne i
  have hmin : min i (xs.length - 1) = i := by omega
  have hsorted : i < (xs.insertionSort (· ≤ ·)).length := by rwa [List.length_insertionSort]
  unfold nth
  rw [List.getElem?_map, List.getElem?_eq_getElem hsorted, hrank]
  simp only [hmin, Option.map_some]

/-- **The percentile interpolates between ranks.** -/
theorem percentile_exact (hT : Exact E.T) {xs : List ℚ} (hne : xs ≠ []) {p : ℚ} (h0 : 0 ≤ p) (h1 : p ≤ 1) :
    percentile E (xs.map Num.fin) (.fin p) = .ok (.fin (interpolate (rank xs) ((xs.length - 1) * p))) := by
  have hlen : 0 < xs.length := List.length_pos_iff.mpr hne
  have hcast : ((xs.length : ℚ)) - 1 = ((xs.length - 1 : ℕ) : ℚ) := by
    rw [Nat.cast_sub hlen, Nat.cast_one]
  have hpos : (0 : ℚ) ≤ (xs.length - 1) * p := by
    rw [hcast]
    positivity
  have hle : (xs.length - 1) * p ≤ ((xs.length - 1 : ℕ) : ℚ) := by
    rw [hcast]
    exact mul_le_of_le_one_right (Nat.cast_nonneg _) h1
  have hclamp : pyMin (.fin 1) (pyMax (.fin 0) (.fin p)) = .fin p := by
    rw [pyMax_fin, max_eq_right h0]
    unfold pyMin
    by_cases hlt : p < 1
    · rw [Num.lt_fin, decide_eq_true hlt, if_pos rfl]
    · rw [Num.lt_fin, decide_eq_false hlt, if_neg Bool.false_ne_true, le_antisymm h1 (not_lt.mp hlt)]
  have hempty : (xs.map Num.fin).isEmpty = false := by
    rw [List.isEmpty_eq_false_iff]
    exact fun h => hne (List.map_eq_nil_iff.mp h)
  have hfloor : (((xs.length : ℚ) - 1) * p).floor.toNat = ⌊((xs.length : ℚ) - 1) * p⌋₊ :=
    Int.floor_toNat (((xs.length : ℚ) - 1) * p)
  have hceil : (((xs.length : ℚ) - 1) * p).ceil.toNat = ⌈((xs.length : ℚ) - 1) * p⌉₊ := by
    rw [Rat.ceil_eq_neg_floor_neg]
    exact Int.ceil_toNat (((xs.length : ℚ) - 1) * p)
  have hfloor_le : ⌊((xs.length : ℚ) - 1) * p⌋₊ ≤ xs.length - 1 := Nat.floor_le_of_le hle
  have hceil_le : ⌈((xs.length : ℚ) - 1) * p⌉₊ ≤ xs.length - 1 := Nat.ceil_le.mpr hle
  unfold percentile
  rw [sort_fin, hclamp, hempty]
  simp only [List.length_map, List.length_insertionSort, exact_mul hT, ratOf, hfloor, hceil, min_eq_left hfloor_le,
    min_eq_left hceil_le]
  rw [nth_fin (by omega), nth_fin (by omega)]
  unfold interpolate
  by_cases hsame : ⌊((xs.length : ℚ) - 1) * p⌋₊ = ⌈((xs.length : ℚ) - 1) * p⌉₊
  · rw [if_pos hsame, ← hsame, sub_self, zero_mul, add_zero]
    rfl
  · rw [if_neg hsame]
    simp only [bind, Except.bind, pure, Except.pure, exact_sub hT, exact_mul hT, exact_add hT, require,
      Bool.not_false, if_true]

/-- **The percentile is monotone in the probability.** -/
theorem percentile_mono (hT : Exact E.T) {xs : List ℚ} (hne : xs ≠ []) {p q : ℚ} (h0 : 0 ≤ p) (hpq : p ≤ q)
    (h1 : q ≤ 1) : ∃ low high, percentile E (xs.map Num.fin) (.fin p) = .ok (.fin low) ∧
      percentile E (xs.map Num.fin) (.fin q) = .ok (.fin high) ∧ low ≤ high := by
  have hlen : (1 : ℚ) ≤ xs.length := by
    exact_mod_cast Nat.one_le_iff_ne_zero.mpr (List.length_pos_iff.mpr hne).ne'
  refine ⟨_, _, percentile_exact hT hne h0 (hpq.trans h1), percentile_exact hT hne (h0.trans hpq) h1, ?_⟩
  exact interpolate_mono (rank_mono xs) (mul_nonneg (by linarith) h0) (mul_le_mul_of_nonneg_left hpq (by linarith))

/-! ### Intervals -/

/-- All numbers are finite. -/
def Finite (values : List Num) : Prop := ∀ x ∈ values, ∃ q, x = .fin q

omit E in
theorem Finite.eq {values : List Num} (h : Finite values) : (values.map ratOf).map Num.fin = values := by
  rw [List.map_map]
  refine (List.map_congr_left fun x hx => ?_).trans (List.map_id values)
  obtain ⟨q, rfl⟩ := h x hx
  rfl

omit E in
theorem finite_filter (values : List Num) : Finite (values.filter isFinite) := by
  intro x hx
  have hfinite := (List.mem_filter.mp hx).2
  cases x with
  | fin q => exact ⟨q, rfl⟩
  | nan => exact absurd hfinite Bool.false_ne_true
  | inf neg => exact absurd hfinite Bool.false_ne_true

/-- The ends of an interval: there is none, or the lower one is not above the upper one. -/
def Ordered (low high : Option Num) : Prop :=
  low = none ∧ high = none ∨ ∃ l h : ℚ, low = some (.fin l) ∧ high = some (.fin h) ∧ l ≤ h

section Ends
variable (hT : Exact E.T)
include hT

/-- **The tails of a list of numbers are in order.** -/
theorem tails_ordered {values : List Num} (hfin : Finite values) (hne : values ≠ []) {p : ℚ} (h0 : 0 ≤ p)
    (hhalf : p ≤ 1 - p) : ∃ low high, percentile E values (.fin p) = .ok (.fin low) ∧
      percentile E values (.fin (1 - p)) = .ok (.fin high) ∧ low ≤ high := by
  have hne' : values.map ratOf ≠ [] := fun h => hne (List.map_eq_nil_iff.mp h)
  have htails := percentile_mono hT hne' h0 hhalf (by linarith)
  rwa [hfin.eq] at htails

theorem statisticsMean_fin {values : List Num} (hfin : Finite values) : ∃ q, statisticsMean E values = .fin q := by
  have hall : values.all isFinite = true := by
    rw [List.all_eq_true]
    intro x hx
    obtain ⟨q, rfl⟩ := hfin x hx
    rfl
  unfold statisticsMean
  rw [if_pos hall, hT]
  exact ⟨_, rfl⟩

theorem sampledMean_fin (draw : ℕ → ℕ) {values : List Num} (hfin : Finite values) :
    ∃ q, sampledMean E draw values = .fin q := by
  refine statisticsMean_fin hT fun x hx => ?_
  obtain ⟨i, -, hget⟩ := List.mem_filterMap.mp hx
  exact hfin x (List.mem_of_getElem? hget)

theorem round6_exact (q : ℚ) : round6 E (.fin q) = .fin (roundHalfEven q 6) := hT _

/-- The tails of a confidence. -/
theorem tail_exact {confidence : Num} (h : ((Num.fin 0).lt confidence && confidence.lt (E.T.lit 1)) = true) :
    ∃ p, E.T.div (E.T.sub (E.T.lit 1) confidence) (.fin 2) = .fin p ∧
      E.T.sub (E.T.lit 1) (.fin p) = .fin (1 - p) ∧ 0 ≤ p ∧ p ≤ 1 - p := by
  obtain ⟨hpos, hlt⟩ := (Bool.and_eq_true _ _).mp h
  rw [hT 1] at hlt
  cases confidence with
  | fin c =>
    rw [Num.lt_fin, decide_eq_true_eq] at hpos hlt
    refine ⟨(1 - c) / 2, ?_, ?_, by linarith, by linarith⟩
    · rw [hT 1, exact_sub hT, FloatSys.div, hT]
    · rw [hT 1, exact_sub hT]
  | nan => exact absurd hpos Bool.false_ne_true
  | inf neg =>
    cases neg with
    | true => exact absurd hpos Bool.false_ne_true
    | false => exact absurd hlt Bool.false_ne_true

/-- **A bootstrap interval of a mean is not turned around.** -/
theorem bootstrapMeanCi_ordered {draw : ℤ → ℕ → ℕ → ℕ} {values : List Num} {confidence : Num}
    {resamples seed : ℤ} {r : MeanInterval} (h : bootstrapMeanCi E draw values confidence resamples seed = .ok r) :
    Ordered r.ciLow r.ciHigh := by
  have hfin := finite_filter values
  unfold bootstrapMeanCi at h
  dsimp only at h
  generalize values.filter isFinite = cleaned at h hfin
  by_cases hempty : cleaned.isEmpty = true
  · rw [if_pos hempty] at h
    cases h
    exact Or.inl ⟨rfl, rfl⟩
  · rw [if_neg hempty] at h
    obtain ⟨_, hconfidence, h⟩ := bind_eq_ok.mp h
    rw [require_eq_ok] at hconfidence
    obtain ⟨mean, hmean⟩ := statisticsMean_fin hT hfin
    by_cases hone : cleaned.length = 1
    · rw [if_pos hone] at h
      cases h
      rw [hmean, round6_exact hT]
      exact Or.inr ⟨_, _, rfl, rfl, le_rfl⟩
    · rw [if_neg hone] at h
      obtain ⟨p, hp, hrest, h0, hhalf⟩ := tail_exact hT hconfidence
      have hsampled : Finite ((List.range (max 1 resamples).toNat).map fun i =>
          sampledMean E (draw seed i) cleaned) := by
        intro x hx
        obtain ⟨i, -, rfl⟩ := List.mem_map.mp hx
        exact sampledMean_fin hT _ hfin
      have hne : ((List.range (max 1 resamples).toNat).map fun i => sampledMean E (draw seed i) cleaned) ≠ [] := by
        rw [Ne, List.map_eq_nil_iff, List.range_eq_nil]
        omega
      obtain ⟨low, high, hlow, hhigh, hle⟩ := tails_ordered hT hsampled hne h0 hhalf
      rw [hp, hrest, hlow, hhigh] at h
      cases h
      refine Or.inr ⟨roundHalfEven low 6, roundHalfEven high 6, ?_, ?_, roundHalfEven_mono hle 6⟩
      · exact congrArg some (round6_exact hT low)
      · exact congrArg some (round6_exact hT high)

/-! ### The interval over clusters -/

theorem rewardScore_fin {candidate : Bool} {deployment outcome : Dict F} {x : Num}
    (h : rewardScore E candidate deployment outcome = .ok (some x)) : ∃ q, x = .fin q := by
  obtain ⟨p, hp⟩ := numberOf_exact hT (getKey deployment "candidate_probability")
  obtain ⟨reward, hreward⟩ := numberOf_exact hT (getKey outcome "reward")
  unfold rewardScore at h
  rw [hp, hreward] at h
  cases p with
  | none => cases reward <;> cases h
  | some p =>
    cases reward with
    | none => cases h
    | some reward =>
      simp only [bind, Except.bind, pure, Except.pure, Option.map_some, hT 1, exact_sub hT] at h
      split_ifs at h with hrange hcandidate
      · cases h
      · have hne : p ≠ 0 := by
          rintro rfl
          exact hrange rfl
        rw [exact_divide hT _ hne] at h
        cases h
        exact ⟨_, rfl⟩
      · have hne : 1 - p ≠ 0 := by
          intro hzero
          have hp1 : p = 1 := by linarith
          subst hp1
          exact hrange rfl
        rw [Num.negate, exact_divide hT _ hne] at h
        cases h
        exact ⟨_, rfl⟩

theorem rowScore_fin {row : Dict F} {x : Num} (h : rowScore E row = .ok (some x)) : ∃ q, x = .fin q := by
  unfold rowScore at h
  split at h
  · obtain ⟨assignment, -, h⟩ := bind_eq_ok.mp h
    cases hgroup : group? assignment with
    | none =>
      rw [hgroup] at h
      cases h
    | some candidate =>
      rw [hgroup] at h
      exact rewardScore_fin hT h
  · cases h

omit hT in
theorem finite_addScore {name : String} {x : Num} (hx : ∃ q, x = .fin q) :
    ∀ {clusters : List (String × List Num)}, (∀ c ∈ clusters, Finite c.2) →
      ∀ c ∈ addScore name x clusters, Finite c.2
  | [], _, c, hc => by
    rw [addScore, List.mem_singleton] at hc
    subst hc
    intro y hy
    rw [List.mem_singleton] at hy
    exact hy ▸ hx
  | (other, scores) :: rest, h, c, hc => by
    have hhead := h _ (List.mem_cons_self ..)
    have hrest : ∀ c ∈ rest, Finite c.2 := fun c hc => h c (List.mem_cons_of_mem _ hc)
    rw [addScore] at hc
    by_cases heq : other = name
    · rw [if_pos heq, List.mem_cons] at hc
      rcases hc with rfl | hc
      · intro y hy
        rcases List.mem_append.mp hy with hy | hy
        · exact hhead y hy
        · exact List.mem_singleton.mp hy ▸ hx
      · exact hrest c hc
    · rw [if_neg heq, List.mem_cons] at hc
      rcases hc with rfl | hc
      · exact hhead
      · exact finite_addScore hx hrest c hc

/-- **The scores of the clusters are finite.** -/
theorem finite_clusterRows {field : String} : ∀ {rows : List (Dict F)} {index invalid n : ℕ}
    {clusters found : List (String × List Num)}, (∀ c ∈ clusters, Finite c.2) →
    clusterRows E field index rows clusters invalid = .ok (found, n) → ∀ c ∈ found, Finite c.2
  | [], _, _, _, _, _, hfin, h => by
    cases h
    exact hfin
  | row :: rows, index, invalid, n, clusters, found, hfin, h => by
    rw [clusterRows] at h
    obtain ⟨score, hscore, h⟩ := bind_eq_ok.mp h
    cases score with
    | none => exact finite_clusterRows hfin h
    | some x =>
      obtain ⟨name, -, h⟩ := bind_eq_ok.mp h
      exact finite_clusterRows (finite_addScore (rowScore_fin hT hscore) hfin) h

theorem total_fin : ∀ {values : List Num} {q : ℚ}, Finite values → ∃ r, values.foldl E.T.add (.fin q) = .fin r
  | [], q, _ => ⟨q, rfl⟩
  | x :: values, q, h => by
    obtain ⟨y, rfl⟩ := h x (List.mem_cons_self ..)
    rw [List.foldl_cons, exact_add hT]
    exact total_fin fun z hz => h z (List.mem_cons_of_mem _ hz)

theorem resampleMean_fin (draw : ℕ → ℕ) {clusters : List (String × List Num)} (h : ∀ c ∈ clusters, Finite c.2) :
    ∃ q, resampleMean E draw clusters = .fin q := by
  have hfin : Finite ((List.range clusters.length).flatMap fun i =>
      ((clusters[draw i % clusters.length]?).map Prod.snd).getD []) := by
    intro x hx
    obtain ⟨i, -, hx⟩ := List.mem_flatMap.mp hx
    cases hget : clusters[draw i % clusters.length]? with
    | none =>
      rw [hget] at hx
      cases hx
    | some c =>
      rw [hget] at hx
      exact h c (List.mem_of_getElem? hget) x hx
  obtain ⟨sum, hsum⟩ := total_fin hT (q := 0) hfin
  unfold resampleMean Deployment.Statistics.mean total
  rw [hsum, FloatSys.div, hT]
  exact ⟨_, rfl⟩

/-- **A bootstrap interval over clusters is not turned around.** -/
theorem clustered_ordered {S : Sampling} {rows : List (Dict F)} {field : String} {confidence : Num}
    {resamples seed : ℤ} {r : Clustered}
    (h : clusteredRewardDifference E S rows field confidence resamples seed = .ok r) : Ordered r.ciLow r.ciHigh := by
  unfold clusteredRewardDifference at h
  obtain ⟨_, hconfidence, h⟩ := bind_eq_ok.mp h
  obtain ⟨_, hresamples, h⟩ := bind_eq_ok.mp h
  obtain ⟨⟨found, invalid⟩, hfound, h⟩ := bind_eq_ok.mp h
  rw [require_eq_ok] at hconfidence hresamples
  have hclusters : ∀ c ∈ found.insertionSort fun p q => p.1 ≤ q.1, Finite c.2 := fun c hc =>
    finite_clusterRows hT (fun _ hc => absurd hc List.not_mem_nil) hfound c ((List.mem_insertionSort _).mp hc)
  dsimp only at h
  generalize found.insertionSort (fun p q => p.1 ≤ q.1) = clusters at h hclusters
  by_cases hempty : (clusters.flatMap Prod.snd).isEmpty = true
  · rw [if_pos hempty] at h
    cases h
    exact Or.inl ⟨rfl, rfl⟩
  · rw [if_neg hempty] at h
    by_cases hfew : clusters.length < 2
    · rw [if_pos hfew] at h
      cases h
      exact Or.inl ⟨rfl, rfl⟩
    · rw [if_neg hfew] at h
      obtain ⟨p, hp, hrest, h0, hhalf⟩ := tail_exact hT hconfidence
      have hfin : Finite ((List.range resamples.toNat).map fun i => resampleMean E (S.draw seed i) clusters) := by
        intro x hx
        obtain ⟨i, -, rfl⟩ := List.mem_map.mp hx
        exact resampleMean_fin hT _ hclusters
      have hne : ((List.range resamples.toNat).map fun i => resampleMean E (S.draw seed i) clusters) ≠ [] := by
        have hmany := of_decide_eq_true hresamples
        rw [Ne, List.map_eq_nil_iff, List.range_eq_nil]
        omega
      obtain ⟨low, high, hlow, hhigh, hle⟩ := tails_ordered hT hfin hne h0 hhalf
      rw [hp, hrest, hlow, hhigh] at h
      cases h
      exact Or.inr ⟨low, high, rfl, rfl, hle⟩

end Ends

end Exact

end ControlPlane.Benchmark.Statistics
