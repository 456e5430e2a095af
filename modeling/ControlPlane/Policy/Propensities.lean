import ControlPlane.Deployment.Statistics
import ControlPlane.Deployment.Execution
import ControlPlane.Lib.Decimals

/-! # The propensities of a logged decision

A decision is logged with the propensities of its arms, rounded to twelve decimals. The rows of verified outcomes
are kept for an off-policy evaluation if the arm that was chosen has a positive propensity (`verifiedRows`).

A decision is `Usable` if its propensities are a distribution over its eligible arms that gives the chosen arm a
chance. It is so just if nothing gets lost in rounding (`usable_iff`): a share of the exploration that rounds to
zero must not be drawn, and the propensities of an assignment must stay a distribution. -/

namespace ControlPlane.Policy.Propensities

open ControlPlane.Lib.Value ControlPlane.Lib.Text ControlPlane.Lib.Floats ControlPlane.Lib.Dynamic
open ControlPlane.Lib.Rounding ControlPlane.Lib.Decimals
open ControlPlane.Environment ControlPlane.Instance ControlPlane.Learning.Features
open ControlPlane.Learning.Decision ControlPlane.Learning.Records
open ControlPlane.Deployment.Guardrails ControlPlane.Deployment.Statistics ControlPlane.Deployment.Execution

variable {F : Type} (E : Env F)

/-! ### Verified rows -/

/-- `chosen_probability` is a positive number. -/
def chosenHasChance (row : Dict F) : Py Bool :=
  match objOf? row "arm_propensities" with
  | none => .ok false
  | some armPropensities => do
    let chosen ← E.strOr row "chosen_arm" ""
    match ← numberOf E (getKey armPropensities chosen) with
    | none => return false
    | some chosenProbability => return !chosenProbability.le (.fin 0)

/-- One round of the loop of `_verified_rows`. -/
def verifiedRow (row : Dict F) : Py Bool :=
  match verifiedOutcome E row with
  | none => .ok false
  | some outcome => do
    match ← numberOf E (getKey outcome "reward"), ← numberOf E (getKey outcome "realized_cost") with
    | some _, some cost => if cost.lt (.fin 0) then return false else chosenHasChance E row
    | _, _ => return false

/-- `_verified_rows(rows)`. -/
def verifiedRows : List (Dict F) → Py (List (Dict F))
  | [] => .ok []
  | row :: rows => do
    let keep ← verifiedRow E row
    let out ← verifiedRows rows
    return if keep then row :: out else out

/-- The outcome of a row is verified, with a reward and a cost. -/
def OutcomeVerified (row : Dict F) : Prop :=
  ∃ outcome reward cost, verifiedOutcome E row = some outcome ∧
    numberOf E (getKey outcome "reward") = .ok (some reward) ∧
    numberOf E (getKey outcome "realized_cost") = .ok (some cost) ∧ cost.lt (.fin 0) = false

/-! ### Usable decisions -/

/-- A float as it is recorded. -/
def recorded (x : F) : ℚ := E.T.rat (E.T.round x 12)

/-- The number that an entry records. -/
def entryValue (v : Json F) : ℚ :=
  match v with
  | .float x => E.T.rat x
  | _ => 0

structure Usable (d : LearningDecision F) : Prop where
  keys : keys d.armPropensities = d.eligibleArms
  nonneg : ∀ p ∈ d.armPropensities, ∃ q, numberOf E p.2 = .ok (some (.fin q)) ∧ 0 ≤ q
  total : |(d.armPropensities.map fun p => entryValue E p.2).sum - 1| ≤ 1 / 10 ^ 9
  chosen : ∃ q c, numberOf E (getKey d.armPropensities d.chosenArm) = .ok (some (.fin q)) ∧
    E.T.view d.chosenPropensity = .fin c ∧ 0 < q ∧ |q - c| ≤ 1 / 10 ^ 12
  accepted : ∀ rows out, verifiedRows E rows = .ok out → ∀ row ∈ rows,
    objOf? row "arm_propensities" = some d.armPropensities →
    lookup "chosen_arm" row = some (.str d.chosenArm) → OutcomeVerified E row → row ∈ out

/-! ### When nothing gets lost -/

/-- The propensity of an arm that is not the baseline, when `n` arms are explored. -/
def share (n : ℕ) (epsilon : F) : F := E.T.ofRat (E.T.rat epsilon / n)

def baselineShare (n : ℕ) (epsilon : F) : F :=
  E.T.ofRat (E.T.rat (E.T.ofRat (1 - E.T.rat epsilon)) + E.T.rat (share E n epsilon))

/-- The sum of the first shares. -/
def sharesBefore (s : F) : ℕ → Num
  | 0 => .fin 0
  | k + 1 => E.T.add (sharesBefore s k) (E.T.view s)

/-- The draw lies behind the shares of the arms before the baseline, and not behind that of the baseline if arms
follow it. -/
def DrawsBaseline (arms : List String) (epsilon draw : F) : Prop :=
  let k := arms.idxOf baselineArm
  let before := sharesBefore E (share E arms.length epsilon) k
  (k = 0 ∨ (E.T.view draw).le before = false) ∧
    ((E.T.view draw).le (E.T.add before (E.T.view (baselineShare E arms.length epsilon))) = true ∨
      k + 1 = arms.length)

/-- The propensities of an assignment stay a distribution when they are rounded. -/
def StaysDistribution (parsed : Dict F) (arm : String) : Prop :=
  (∃ x, lookup arm parsed = some (.float x) ∧ 0 < recorded E x) ∧
    |(parsed.map fun p => match p.2 with
      | .float x => recorded E x
      | _ => 0).sum - 1| ≤ 1 / 10 ^ 9

/-- Nothing gets lost in rounding. -/
def NothingLost (r : Request) (config : Dict F) (g : Draws F) : Option (Dict F) → Prop
  | some assignment => ∀ arm parsed, E.strOr assignment "chosen_arm" baselineArm = .ok arm →
      validAssignment E assignment (strip arm) r.decision.risk.value = .ok (some parsed) →
      StaysDistribution E parsed (strip arm)
  | none => ∀ arms epsilon, eligibleArms E config = .ok arms →
      fraction E ((lookup "exploration_probability" (learningConfig config)).getD
        (.float (E.T.ofRat (5 / 100)))) (E.T.ofRat (5 / 100)) = .ok epsilon →
      learningMode E config = .ok "explore" → learningKillSwitch E config g.killEnv = false →
      allowedRisk E config r.decision.risk.value = .ok true → 1 < arms.length → 0 < E.T.rat epsilon →
      0 < recorded E (share E arms.length epsilon) ∨ DrawsBaseline E arms epsilon g.draw

variable {E}

/-! ### The rows of usable decisions -/

theorem mem_verifiedRows {row : Dict F} (hrow : verifiedRow E row = .ok true) : ∀ {rows out : List (Dict F)},
    verifiedRows E rows = .ok out → row ∈ rows → row ∈ out
  | [], _, _, hmem => absurd hmem (List.not_mem_nil)
  | other :: rows, out, h, hmem => by
    rw [verifiedRows] at h
    obtain ⟨keep, hkeep, h⟩ := bind_eq_ok.mp h
    obtain ⟨rest, hrest, h⟩ := bind_eq_ok.mp h
    cases h
    rcases List.mem_cons.mp hmem with rfl | hmem
    · rw [hrow] at hkeep
      cases hkeep
      exact List.mem_cons_self ..
    · have htail := mem_verifiedRows hrow hrest hmem
      split_ifs
      · exact List.mem_cons_of_mem _ htail
      · exact htail

theorem verifiedRow_of_chance {row : Dict F} (h : OutcomeVerified E row) (hchance : chosenHasChance E row = .ok true) :
    verifiedRow E row = .ok true := by
  obtain ⟨outcome, reward, cost, houtcome, hreward, hcost, hnonneg⟩ := h
  unfold verifiedRow
  rw [houtcome]
  simp only [hreward, hcost, hnonneg, hchance, bind, Except.bind, Bool.false_eq_true, if_false]

theorem numberOf_float {x : F} {q : ℚ} (hx : E.T.view x = .fin q) : numberOf E (.float x) = .ok (some (.fin q)) := by
  have hfinite : E.T.finite x = true := (E.T.finite_iff x).mpr ⟨q, hx⟩
  unfold numberOf finiteNumber?
  simp only [Env.number?, bind, Except.bind, pure, Except.pure, hfinite, if_true, Option.map_some, hx]

theorem rat_of_view {x : F} {q : ℚ} (hx : E.T.view x = .fin q) : E.T.rat x = q := by
  unfold FloatSys.rat
  rw [hx]

/-! ### The decision of a choice -/

/-- The entries are floats that are not negative; a rounded sum may be greater than one. -/
def Fractions (E : Env F) (d : Dict F) : Prop :=
  ∀ p ∈ d, ∃ x q, p.2 = .float x ∧ E.T.view x = .fin q ∧ 0 ≤ q ∧ q ≤ 3 / 2

theorem decimalError_le : decimalError 12 ≤ 1 / 10 ^ 12 := by
  unfold decimalError
  norm_num

/-- **A float is recorded with a small error.** -/
theorem recorded_near (hT : Close E.T) {x : F} {q : ℚ} (hx : E.T.view x = .fin q) (h0 : 0 ≤ q) (h1 : q ≤ 3 / 2) :
    E.T.view (E.T.round x 12) = .fin (recorded E x) ∧ 0 ≤ recorded E x ∧ |recorded E x - q| ≤ decimalError 12 := by
  obtain ⟨r, hr, hnonneg, herror⟩ := round_near hT hx h0 h1 12
  have hrecorded : recorded E x = r := rat_of_view hr
  rw [hrecorded]
  exact ⟨hr, hnonneg, herror⟩

/-- How an entry is recorded. -/
def roundEntry (E : Env F) (v : Json F) : Json F :=
  match v with
  | .float x => .float (E.T.round x 12)
  | v => v

theorem armPropensities_eq (r : Request) (n : ℤ) (g : Draws F) (c : Choice F) :
    (decisionOf E r n g c).armPropensities = c.propensities.map fun p => (p.1, roundEntry E p.2) := rfl

theorem sum_recorded (d : Dict F) :
    ((d.map fun p => (p.1, roundEntry E p.2)).map fun p => entryValue E p.2) = d.map fun p => match p.2 with
      | .float x => recorded E x
      | _ => 0 := by
  rw [List.map_map]
  refine List.map_congr_left fun p _ => ?_
  show entryValue E (roundEntry E p.2) = _
  cases p.2 <;> rfl

/-- **A decision is usable just if its propensities stay a distribution.** -/
theorem usable_decisionOf (hT : Close E.T) {c : Choice F} (hfractions : Fractions E c.propensities) {x : F}
    (hx : lookup c.chosen c.propensities = some (.float x)) (r : Request) (n : ℤ) (g : Draws F) :
    Usable E (decisionOf E r n g c) ↔ StaysDistribution E c.propensities c.chosen := by
  obtain ⟨x', q, hx', hview, h0, h1⟩ := hfractions _ (mem_of_lookup hx)
  cases hx'
  obtain ⟨hround, -, herror⟩ := recorded_near hT hview h0 h1
  have hentry : getKey (decisionOf E r n g c).armPropensities c.chosen = .float (E.T.round x 12) := by
    rw [getKey, armPropensities_eq, lookup_map, hx]
    rfl
  have hnumber : numberOf E (getKey (decisionOf E r n g c).armPropensities c.chosen) =
      .ok (some (.fin (recorded E x))) := by
    rw [hentry, numberOf_float hround]
  have hpropensity : (decisionOf E r n g c).chosenPropensity = x := by
    unfold decisionOf
    dsimp only
    rw [hx]
  constructor
  · intro h
    obtain ⟨q', c', hq', -, hpos, -⟩ := h.chosen
    have hsame : recorded E x = q' := by
      have heq := hnumber.symm.trans hq'
      simpa using heq
    refine ⟨⟨x, hx, hsame ▸ hpos⟩, ?_⟩
    rw [← sum_recorded]
    exact h.total
  · rintro ⟨⟨x', hx', hpos⟩, htotal⟩
    rw [hx, Option.some.injEq, Json.float.injEq] at hx'
    subst hx'
    refine ⟨keys_map (roundEntry E) c.propensities, ?_, ?_, ⟨_, q, hnumber, by rw [hpropensity, hview], hpos,
      herror.trans decimalError_le⟩, ?_⟩
    · intro p hp
      rw [armPropensities_eq] at hp
      obtain ⟨entry, hentry, rfl⟩ := List.mem_map.mp hp
      obtain ⟨y, q, hy, hview, h0, h1⟩ := hfractions _ hentry
      obtain ⟨hround, hnonneg, -⟩ := recorded_near hT hview h0 h1
      refine ⟨recorded E y, ?_, hnonneg⟩
      rw [hy]
      exact numberOf_float hround
    · rw [armPropensities_eq, sum_recorded]
      exact htotal
    · intro rows out hout row hrow hlisted hchosen hverified
      refine mem_verifiedRows (verifiedRow_of_chance hverified ?_) hout hrow
      have hname : E.strOr row "chosen_arm" "" = .ok c.chosen := by
        rw [Env.strOr, hchosen, Option.getD_some, Env.str, pyStr_str]
        rfl
      have hle : (Num.fin (recorded E x)).le (.fin 0) = false := by
        rw [Num.le_fin]
        exact decide_eq_false (not_le.mpr hpos)
      unfold chosenHasChance
      rw [hlisted]
      simp only [hname, hnumber, hle, bind, Except.bind, pure, Except.pure, Bool.not_false]

/-! ### The baseline -/

theorem baseline_fractions (hT : Close E.T) : Fractions E (baselinePropensities E) := by
  intro p hp
  rw [List.mem_singleton.mp hp]
  exact ⟨_, 1, rfl, hT.one, by norm_num, by norm_num⟩

theorem recorded_one (hT : Close E.T) : recorded E (E.T.ofRat 1) = 1 := by
  refine rat_of_view ?_
  rw [view_round (q := 1) hT.one, roundHalfEven_one, hT.one]

theorem baseline_stays (hT : Close E.T) : StaysDistribution E (baselinePropensities E) baselineArm := by
  refine ⟨⟨E.T.ofRat 1, by rw [baselinePropensities, lookup_cons, if_pos rfl], ?_⟩, ?_⟩
  · rw [recorded_one hT]
    norm_num
  · rw [baselinePropensities, List.map_singleton, List.sum_singleton]
    show |recorded E (E.T.ofRat 1) - 1| ≤ _
    rw [recorded_one hT]
    norm_num

theorem usable_baseline (hT : Close E.T) {c : Choice F} (hchosen : c.chosen = baselineArm)
    (hpropensities : c.propensities = baselinePropensities E) (r : Request) (n : ℤ) (g : Draws F) :
    Usable E (decisionOf E r n g c) := by
  have hstays := baseline_stays hT
  have hfractions := baseline_fractions hT
  obtain ⟨⟨x, hx, -⟩, -⟩ := id hstays
  rw [← hpropensities] at hstays hfractions hx
  rw [← hchosen] at hstays hx
  exact (usable_decisionOf hT hfractions hx r n g).mpr hstays

/-! ### Exploring -/

theorem fraction_unit (hT : Close E.T) {v : Json F} {d : ℚ} (hd : 0 ≤ d ∧ d ≤ 1) {x : F}
    (h : fraction E v (E.T.ofRat d) = .ok x) : ∃ q, E.T.view x = .fin q ∧ 0 ≤ q ∧ q ≤ 1 := by
  have hdefault := unit_lit hT.toStable hd.1 hd.2
  unfold fraction at h
  obtain ⟨o, -, h⟩ := bind_eq_ok.mp h
  cases o with
  | none =>
    cases h
    exact hdefault
  | some y =>
    simp only [pure, Except.pure, Except.ok.injEq] at h
    split_ifs at h <;> subst h
    · exact unit_lit hT.toStable (le_min zero_le_one (le_max_left ..)) (min_le_left ..)
    · exact hdefault

/-- An exploration with probability `e` over `n` arms. -/
structure Explores (E : Env F) (n : ℕ) (epsilon : F) (e : ℚ) : Prop where
  view : E.T.view epsilon = .fin e
  pos : 0 < e
  le_one : e ≤ 1
  two_le : 2 ≤ n
  le_seven : n ≤ 7

section Explores
variable {n : ℕ} {epsilon : F} {e : ℚ} (hT : Close E.T) (h : Explores E n epsilon e)
include hT h

theorem share_near : ∃ s, E.T.view (share E n epsilon) = .fin s ∧ 0 ≤ s ∧ s ≤ 1 ∧ |s - e / n| ≤ 1 / 2 ^ 53 := by
  have hn : (2 : ℚ) ≤ n := by exact_mod_cast h.two_le
  have hnonneg : 0 ≤ e / n := div_nonneg h.pos.le (by linarith)
  have hle : e / n ≤ 1 := (div_le_one (by linarith)).mpr (by linarith [h.le_one])
  obtain ⟨s, hs, h0, h1⟩ := unit_lit hT.toStable hnonneg hle
  obtain ⟨r, hr, herror⟩ := hT.near _ hnonneg (by linarith)
  have hsame : s = r := Num.fin.inj (hs.symm.trans hr)
  refine ⟨s, ?_, h0, h1, hsame ▸ herror⟩
  rw [share, rat_of_view h.view]
  exact hs

/-- **The propensity of the baseline when exploring.** -/
theorem baselineShare_near : ∃ b, E.T.view (baselineShare E n epsilon) = .fin b ∧ 0 ≤ b ∧ b ≤ 3 / 2 ∧
    |b - (1 - e + e / n)| ≤ 3 / 2 ^ 53 := by
  obtain ⟨s, hs, hs0, hs1, hserror⟩ := share_near hT h
  have hn : (2 : ℚ) ≤ n := by exact_mod_cast h.two_le
  have hhalf : e / n ≤ e / 2 := div_le_div_of_nonneg_left h.pos.le (by norm_num) hn
  have hone := h.le_one
  have hpos := h.pos
  obtain ⟨r, hr, hr0, hr1⟩ := unit_lit (T := E.T) hT.toStable (q := 1 - e) (by linarith) (by linarith)
  obtain ⟨r', hr', hrerror⟩ := hT.near (1 - e) (by linarith) (by linarith)
  have hsame : r' = r := Num.fin.inj (hr'.symm.trans hr)
  rw [hsame] at hrerror
  obtain ⟨b, hb, hberror⟩ := hT.near (r + s) (by linarith) (by linarith)
  have hnonneg : NonNeg (E.T.lit (r + s)) := nonNeg_lit (by linarith)
  have hrest : E.T.rat (E.T.ofRat (1 - E.T.rat epsilon)) = r := by
    rw [rat_of_view h.view]
    exact rat_of_view hr
  rw [abs_le] at hserror hrerror hberror
  refine ⟨b, ?_, ?_, ?_, abs_le.mpr ⟨?_, ?_⟩⟩
  · rw [baselineShare, hrest, rat_of_view hs]
    exact hb
  · rw [hb] at hnonneg
    simpa [NonNeg] using hnonneg
  · norm_num at hserror hrerror hberror ⊢
    linarith [hserror.2, hrerror.2, hberror.2]
  · norm_num at hserror hrerror hberror ⊢
    linarith [hserror.1, hrerror.1, hberror.1]
  · norm_num at hserror hrerror hberror ⊢
    linarith [hserror.2, hrerror.2, hberror.2]

/-- **The baseline keeps its chance when exploring.** -/
theorem baselineShare_recorded : 0 < recorded E (baselineShare E n epsilon) := by
  obtain ⟨b, hb, hb0, hb1, hberror⟩ := baselineShare_near hT h
  obtain ⟨-, -, herror⟩ := recorded_near hT hb hb0 hb1
  have hdecimal := decimalError_le
  have hn : (n : ℚ) ≤ 7 := by exact_mod_cast h.le_seven
  have hn2 : (2 : ℚ) ≤ n := by exact_mod_cast h.two_le
  have hseventh : (1 : ℚ) / 7 ≤ 1 / n := one_div_le_one_div_of_le (by linarith) hn
  have hchance : 1 / n ≤ 1 - e + e / n := by
    have hproduct : 0 ≤ (1 - e) * (1 - 1 / n) := by
      refine mul_nonneg (by linarith [h.le_one]) (sub_nonneg.mpr ?_)
      exact (div_le_one (by linarith)).mpr (by linarith)
    have hring : (1 - e) * (1 - 1 / n) = 1 - e + e / n - 1 / n := by ring
    linarith
  have hleast : 1 / 7 ≤ 1 - e + e / n := hseventh.trans hchance
  rw [abs_le] at hberror herror
  norm_num at hberror herror hdecimal hleast ⊢
  linarith [hberror.1, herror.1]

/-- **The recorded propensities of an exploration sum to one within the tolerance.** -/
theorem explored_total :
    |recorded E (baselineShare E n epsilon) + (n - 1) * recorded E (share E n epsilon) - 1| ≤ 1 / 10 ^ 9 := by
  obtain ⟨b, hb, hb0, hb1, hberror⟩ := baselineShare_near hT h
  obtain ⟨s, hs, hs0, hs1, hserror⟩ := share_near hT h
  obtain ⟨-, -, hbrecorded⟩ := recorded_near hT hb hb0 hb1
  obtain ⟨-, -, hsrecorded⟩ := recorded_near hT hs hs0 (by linarith)
  have hdecimal := decimalError_le
  have hn : (n : ℚ) ≤ 7 := by exact_mod_cast h.le_seven
  have hn2 : (2 : ℚ) ≤ n := by exact_mod_cast h.two_le
  have hnear : |recorded E (share E n epsilon) - e / n| ≤ decimalError 12 + 1 / 2 ^ 53 :=
    (abs_sub_le _ s _).trans (add_le_add hsrecorded hserror)
  have hothers : |(n - 1) * (recorded E (share E n epsilon) - e / n)| ≤ 6 * (decimalError 12 + 1 / 2 ^ 53) := by
    rw [abs_mul, abs_of_nonneg (by linarith : (0 : ℚ) ≤ n - 1)]
    exact mul_le_mul (by linarith) hnear (abs_nonneg _) (by norm_num)
  have hsplit : recorded E (baselineShare E n epsilon) + (n - 1) * recorded E (share E n epsilon) - 1 =
      (recorded E (baselineShare E n epsilon) - b) + (b - (1 - e + e / n)) +
        (n - 1) * (recorded E (share E n epsilon) - e / n) := by
    have hcancel : (n : ℚ) * (e / n) = e := mul_div_cancel₀ e (by linarith)
    linarith
  rw [hsplit]
  refine (abs_add_three _ _ _).trans ?_
  norm_num at hdecimal hberror hothers ⊢
  linarith

end Explores

/-! ### The drawn arm -/

theorem sharesBefore_succ {s : F} {q : ℚ} (hs : E.T.view s = .fin q) (k : ℕ) :
    sharesBefore E s (k + 1) = E.T.add (sharesBefore E s k) (.fin q) := by
  rw [sharesBefore, hs]

section Drawn
variable {s : F} {q : ℚ} (hT : Close E.T) (hs : E.T.view s = .fin q) (h0 : 0 ≤ q)
include hT hs h0

theorem sharesBefore_grows (k : ℕ) : NonNeg (sharesBefore E s k) ∧ Rounded E.T (sharesBefore E s k) ∧
    (sharesBefore E s k).le (sharesBefore E s (k + 1)) = true := by
  induction k with
  | zero =>
    have hzero : NonNeg (sharesBefore E s 0) := nonNeg_fin le_rfl
    refine ⟨hzero, rounded_zero, ?_⟩
    rw [sharesBefore_succ hs]
    exact le_add hzero rounded_zero h0
  | succ k ih =>
    obtain ⟨hnonneg, -, hle⟩ := ih
    have hnonneg' : NonNeg (sharesBefore E s (k + 1)) := hnonneg.trans hle
    have hrounded : Rounded E.T (sharesBefore E s (k + 1)) := by
      rw [sharesBefore_succ hs]
      exact rounded_add hnonneg hT.toStable
    refine ⟨hnonneg', hrounded, ?_⟩
    rw [sharesBefore_succ hs (k + 1)]
    exact le_add hnonneg' hrounded h0

theorem sharesBefore_mono {j k : ℕ} (h : j ≤ k) : (sharesBefore E s j).le (sharesBefore E s k) = true := by
  induction h with
  | refl => exact (sharesBefore_grows hT hs h0 j).1.le_self
  | step _ ih => exact Num.le_trans ih (sharesBefore_grows hT hs h0 _).2.2

/-- Arms of the same share that lie before the draw are passed. -/
theorem sampleFrom_passed {point : Num} (rest : Dict F) : ∀ (arms : List String) (j : ℕ) (last : String),
    (arms = [] ∨ point.le (sharesBefore E s (j + arms.length)) = false) →
    ∃ last', sampleFrom E point (arms.map (fun arm => (arm, .float s)) ++ rest) (sharesBefore E s j) last =
      sampleFrom E point rest (sharesBefore E s (j + arms.length)) last'
  | [], _, last, _ => ⟨last, rfl⟩
  | arm :: arms, j, last, h => by
    have hlast : point.le (sharesBefore E s (j + (arms.length + 1))) = false := by
      simpa using h
    have hnot : point.le (sharesBefore E s (j + 1)) = false := by
      by_contra hle
      rw [Bool.not_eq_false] at hle
      have hmono := sharesBefore_mono hT hs h0 (show j + 1 ≤ j + (arms.length + 1) by omega)
      rw [Num.le_trans hle hmono] at hlast
      cases hlast
    have hassoc : j + 1 + arms.length = j + (arms.length + 1) := by omega
    obtain ⟨last', hrest⟩ := sampleFrom_passed rest arms (j + 1) arm (Or.inr (by rw [hassoc]; exact hlast))
    refine ⟨last', ?_⟩
    rw [hassoc] at hrest
    rw [List.map_cons, List.cons_append, sampleFrom]
    show (if point.le (sharesBefore E s (j + 1)) = true then _ else _) = _
    rw [if_neg (by rw [hnot]; exact Bool.false_ne_true)]
    exact hrest

end Drawn

/-- A draw that does not lie behind them takes one of them. -/
theorem sampleFrom_stopped {s : F} {point : Num} (rest : Dict F) : ∀ (arms : List String) (j : ℕ) (last : String),
    arms ≠ [] → point.le (sharesBefore E s (j + arms.length)) = true →
    sampleFrom E point (arms.map (fun arm => (arm, .float s)) ++ rest) (sharesBefore E s j) last ∈ arms
  | [], _, _, hne, _ => absurd rfl hne
  | arm :: arms, j, last, _, hle => by
    rw [List.map_cons, List.cons_append, sampleFrom]
    show (if point.le (sharesBefore E s (j + 1)) = true then _ else _) ∈ _
    split_ifs with hstop
    · exact List.mem_cons_self ..
    · have hassoc : j + 1 + arms.length = j + (arms.length + 1) := by omega
      refine List.mem_cons_of_mem _ (sampleFrom_stopped rest arms (j + 1) arm ?_ ?_)
      · rintro rfl
        exact hstop hle
      · rw [hassoc]
        exact hle


theorem sampleFrom_mem_keys (point c : Num) (last : String) : ∀ {propensities : Dict F}, propensities ≠ [] →
    sampleFrom E point propensities c last ∈ keys propensities
  | [], hne => absurd rfl hne
  | (arm, p) :: rest, _ => by
    rw [sampleFrom]
    show (if _ then arm else _) ∈ arm :: keys rest
    split_ifs
    · exact List.mem_cons_self ..
    · exact sampleFrom_mem _ _ _ _

theorem explorePropensities_eq {arms : List String} {epsilon : F} (hlen : 1 < arms.length)
    (hpos : 0 < E.T.rat epsilon) : explorePropensities E arms epsilon = arms.map fun arm =>
      (arm, .float (if arm = baselineArm then baselineShare E arms.length epsilon
        else share E arms.length epsilon)) := by
  have hmass : (decide (arms.length ≤ 1) || decide (E.T.rat epsilon ≤ 0)) = false := by
    rw [decide_eq_false (by omega), decide_eq_false (not_le.mpr hpos), Bool.or_false]
  unfold explorePropensities
  rw [hmass, if_neg Bool.false_ne_true]
  rfl

/-- The eligible arms around the baseline. -/
theorem split_arms {arms : List String} (hnodup : arms.Nodup) (hmem : baselineArm ∈ arms) : ∃ before after,
    arms = before ++ baselineArm :: after ∧ baselineArm ∉ before ∧ baselineArm ∉ after ∧
      arms.idxOf baselineArm = before.length := by
  obtain ⟨before, after, rfl, hbefore⟩ := List.eq_append_cons_of_mem hmem
  have hafter := (List.nodup_cons.mp (List.nodup_append.mp hnodup).2.1).1
  refine ⟨before, after, rfl, hbefore, hafter, ?_⟩
  rw [List.idxOf_append_of_notMem hbefore, List.idxOf_cons_self, add_zero]

theorem map_others {arms : List String} (h : baselineArm ∉ arms) (b s : F) :
    arms.map (fun arm => (arm, (.float (if arm = baselineArm then b else s) : Json F))) =
      arms.map fun arm => (arm, .float s) := by
  refine List.map_congr_left fun arm harm => ?_
  have hne : arm ≠ baselineArm := by
    rintro rfl
    exact h harm
  rw [if_neg hne]

/-- **The draw takes the baseline just if it lies in its interval.** -/
theorem sampleArm_baseline (hT : Close E.T) {arms : List String} {epsilon : F} {e : ℚ}
    (h : Explores E arms.length epsilon e) (hnodup : arms.Nodup) (hmem : baselineArm ∈ arms) (draw : F) :
    sampleArm E (explorePropensities E arms epsilon) draw = baselineArm ↔ DrawsBaseline E arms epsilon draw := by
  obtain ⟨s, hs, hs0, -, -⟩ := share_near hT h
  have hpos : 0 < E.T.rat epsilon := by
    rw [rat_of_view h.view]
    exact h.pos
  obtain ⟨before, after, harms, hbefore, hafter, hindex⟩ := split_arms hnodup hmem
  have hlen : arms.length = before.length + (after.length + 1) := by
    rw [harms, List.length_append, List.length_cons]
  have hlast : before.length + 1 = arms.length ↔ after = [] := by
    rw [hlen, ← List.length_eq_zero_iff]
    omega
  unfold DrawsBaseline
  dsimp only
  rw [explorePropensities_eq h.two_le hpos, hindex, hlast]
  generalize share E arms.length epsilon = share at hs ⊢
  generalize baselineShare E arms.length epsilon = b
  rw [harms, List.map_append, List.map_cons, if_pos rfl, map_others hbefore, map_others hafter]
  unfold sampleArm
  generalize E.T.view draw = point
  have hempty : before.length = 0 ↔ before = [] := List.length_eq_zero_iff
  rw [hempty]
  have hfirst : (Num.fin 0) = sharesBefore E share 0 := rfl
  rw [hfirst]
  by_cases hpass : before = [] ∨ point.le (sharesBefore E share before.length) = false
  · obtain ⟨last, hrest⟩ := sampleFrom_passed hT hs hs0 ((baselineArm, .float b) ::
      after.map fun arm => (arm, .float share)) before 0 baselineArm (by rwa [zero_add])
    rw [hrest, zero_add, sampleFrom]
    show (if point.le (E.T.add (sharesBefore E share before.length) (E.T.view b)) = true then _ else _) = _ ↔ _
    by_cases hstop : point.le (E.T.add (sharesBefore E share before.length) (E.T.view b)) = true
    · rw [if_pos hstop]
      exact ⟨fun _ => ⟨hpass, Or.inl hstop⟩, fun _ => rfl⟩
    · rw [if_neg hstop]
      by_cases hnone : after = []
      · rw [hnone]
        exact ⟨fun _ => ⟨hpass, Or.inr rfl⟩, fun _ => rfl⟩
      · have hmem := sampleFrom_mem_keys (E := E) point (E.T.add (sharesBefore E share before.length)
          (E.T.view b)) baselineArm (show after.map (fun arm => (arm, Json.float share)) ≠ [] by simpa)
        have hkeys : keys (after.map fun arm => (arm, Json.float share)) = after := by
          rw [keys, List.map_map]
          exact List.map_id after
        rw [hkeys] at hmem
        refine ⟨fun heq => absurd (heq ▸ hmem) hafter, fun hdraws => ?_⟩
        exact absurd hdraws.2 (not_or.mpr ⟨hstop, hnone⟩)
  · rw [not_or, Bool.not_eq_false] at hpass
    have hother := sampleFrom_stopped (E := E) ((baselineArm, .float b) ::
      after.map fun arm => (arm, .float share)) before 0 baselineArm hpass.1 (by rw [zero_add]; exact hpass.2)
    refine ⟨fun heq => absurd (heq ▸ hother) hbefore, fun hdraws => ?_⟩
    rcases hdraws.1 with hnil | hfalse
    · exact absurd hnil hpass.1
    · rw [hpass.2] at hfalse
      cases hfalse

/-! ### The choices -/

theorem baseline_eligible {config : Dict F} {arms : List String} (h : eligibleArms E config = .ok arms) :
    baselineArm ∈ arms := by
  unfold eligibleArms at h
  obtain ⟨texts, -, h⟩ := bind_eq_ok.mp h
  cases h
  rw [List.mem_eraseDups]
  split_ifs with hmem
  · simpa using hmem
  · exact List.mem_cons_self ..

/-- There are seven arms. -/
theorem length_eligibleArms {config : Dict F} {arms : List String} (h : eligibleArms E config = .ok arms) :
    arms.length ≤ 7 :=
  ((nodup_eligibleArms h).subperm fun arm harm => eligible_safe h arm harm).length_le

theorem sum_shares {arms : List String} (hnodup : arms.Nodup) (hmem : baselineArm ∈ arms) {b s : ℚ} :
    (arms.map fun arm => if arm = baselineArm then b else s).sum = b + (arms.length - 1) * s := by
  obtain ⟨before, after, rfl, hbefore, hafter, -⟩ := split_arms hnodup hmem
  have hothers : ∀ {others : List String}, baselineArm ∉ others →
      (others.map fun arm => if arm = baselineArm then b else s).sum = others.length * s := by
    intro others h
    have hconst : others.map (fun arm => if arm = baselineArm then b else s) = others.map fun _ => s :=
      List.map_congr_left fun arm harm => if_neg (by rintro rfl; exact h harm)
    rw [hconst, List.map_const', List.sum_replicate, nsmul_eq_mul]
  rw [List.map_append, List.sum_append, List.map_cons, List.sum_cons, if_pos rfl, hothers hbefore, hothers hafter,
    List.length_append, List.length_cons]
  push_cast
  ring

/-- **An exploration is usable just if the baseline is drawn or the other shares do not get lost.** -/
theorem usable_explore (hT : Close E.T) {config : Dict F} {arms : List String} {epsilon : F} {e : ℚ}
    (harms : eligibleArms E config = .ok arms) (h : Explores E arms.length epsilon e) (r : Request) (n : ℤ)
    (g : Draws F) : Usable E (decisionOf E r n g (explorationChoice E arms epsilon g.draw)) ↔
      0 < recorded E (share E arms.length epsilon) ∨ DrawsBaseline E arms epsilon g.draw := by
  have hnodup := nodup_eligibleArms harms
  have hmem := baseline_eligible harms
  obtain ⟨s, hs, hs0, hs1, -⟩ := share_near hT h
  obtain ⟨b, hb, hb0, hb1, -⟩ := baselineShare_near hT h
  have hpos : 0 < E.T.rat epsilon := by
    rw [rat_of_view h.view]
    exact h.pos
  rw [← sampleArm_baseline hT h hnodup hmem]
  have hpropensities := explorePropensities_eq h.two_le hpos
  have hfractions : Fractions E (explorePropensities E arms epsilon) := by
    intro p hp
    rw [hpropensities] at hp
    obtain ⟨arm, -, rfl⟩ := List.mem_map.mp hp
    by_cases harm : arm = baselineArm
    · exact ⟨_, b, rfl, by rw [if_pos harm, hb], hb0, hb1⟩
    · exact ⟨_, s, rfl, by rw [if_neg harm, hs], hs0, by linarith⟩
  have hdrawn : sampleArm E (explorePropensities E arms epsilon) g.draw ∈ arms := by
    by_cases harm : sampleArm E (explorePropensities E arms epsilon) g.draw = baselineArm
    · rw [harm]
      exact hmem
    · exact sampleArm_mem harm
  have hentry : ∀ arm ∈ arms, (arm, Json.float (if arm = baselineArm then baselineShare E arms.length epsilon
      else share E arms.length epsilon)) ∈ explorePropensities E arms epsilon := by
    intro arm harm
    rw [hpropensities]
    exact List.mem_map.mpr ⟨arm, harm, rfl⟩
  have hlookup : lookup (sampleArm E (explorePropensities E arms epsilon) g.draw)
      (explorePropensities E arms epsilon) = some (.float (if sampleArm E (explorePropensities E arms epsilon) g.draw =
        baselineArm then baselineShare E arms.length epsilon else share E arms.length epsilon)) := by
    exact lookup_of_mem (by rwa [keys_explorePropensities]) (hentry _ hdrawn)
  have htotal : |((explorePropensities E arms epsilon).map fun p => match p.2 with
      | .float x => recorded E x
      | _ => 0).sum - 1| ≤ 1 / 10 ^ 9 := by
    have hsum := explored_total hT h
    rw [← sum_shares hnodup hmem] at hsum
    rw [hpropensities, List.map_map]
    refine le_of_eq_of_le (congrArg (fun q : ℚ => |q - 1|) ?_) hsum
    refine congrArg List.sum (List.map_congr_left fun arm _ => ?_)
    show recorded E (if arm = baselineArm then _ else _) = _
    split_ifs <;> rfl
  rw [usable_decisionOf hT (c := explorationChoice E arms epsilon g.draw) hfractions hlookup]
  constructor
  · rintro ⟨⟨x, hx, hchance⟩, -⟩
    rw [show (explorationChoice E arms epsilon g.draw).chosen = _ from rfl] at hx
    cases hlookup.symm.trans hx
    split_ifs at hchance with harm
    · exact Or.inr harm
    · exact Or.inl hchance
  · intro hkept
    refine ⟨⟨_, hlookup, ?_⟩, htotal⟩
    split_ifs with harm
    · exact baselineShare_recorded hT h
    · exact hkept.resolve_right harm

theorem fractions_parsePropensities (hT : Close E.T) : ∀ {raw acc parsed : Dict F}, Fractions E acc →
    parsePropensities E raw acc = .ok (some parsed) → Fractions E parsed
  | [], acc, parsed, hacc, h => by
    cases h
    exact hacc
  | (arm, p) :: raw, acc, parsed, hacc, h => by
    rw [parsePropensities] at h
    split_ifs at h
    · cases h
    obtain ⟨o, -, h⟩ := bind_eq_ok.mp h
    cases o with
    | none => cases h
    | some x =>
      simp only at h
      split_ifs at h with hbounds
      · refine fractions_parsePropensities hT (fun entry hentry => ?_) h
        rcases mem_setKey hentry with rfl | hentry
        · simp only [Bool.and_eq_true] at hbounds
          obtain ⟨⟨-, hlow⟩, hup⟩ := hbounds
          have hzero : E.T.lit 0 = .fin 0 := E.T.ofRat_zero
          rw [hzero] at hlow
          rw [hT.one] at hup
          obtain ⟨q, hq⟩ := Num.fin_of_le hlow hup
          rw [hq, Num.le_fin, decide_eq_true_eq] at hlow hup
          exact ⟨x, q, rfl, hq, hlow, by linarith⟩
        · exact hacc entry hentry
      · cases h

/-- The propensities of a valid assignment are fractions, and one of them is that of the arm. -/
theorem fractions_of_valid (hT : Close E.T) {assignment parsed : Dict F} {arm risk : String}
    (h : validAssignment E assignment arm risk = .ok (some parsed)) :
    Fractions E parsed ∧ ∃ x, lookup arm parsed = some (.float x) := by
  unfold validAssignment at h
  split_ifs at h
  · cases h
  split at h
  · obtain ⟨o, ho, h⟩ := bind_eq_ok.mp h
    cases o with
    | none => cases h
    | some q =>
      simp only [pure, Except.pure, Except.ok.injEq] at h
      split_ifs at h with hvalid
      cases h
      have hfractions := fractions_parsePropensities hT (fun _ hp => absurd hp List.not_mem_nil) ho
      refine ⟨hfractions, ?_⟩
      unfold isDistribution at hvalid
      simp only [Bool.and_eq_true] at hvalid
      obtain ⟨⟨-, hchance⟩, -⟩ := hvalid
      cases hlookup : lookup arm parsed with
      | none =>
        rw [hlookup] at hchance
        cases hchance
      | some v =>
        obtain ⟨x, -, hx, -⟩ := hfractions _ (mem_of_lookup hlookup)
        exact ⟨x, congrArg some hx⟩
  · cases h

/-- **A decision by an assignment is usable just if its propensities stay a distribution.** -/
theorem usable_assigned (hT : Close E.T) {a : Dict F} {r : Request} {c : Choice F}
    (h : chooseAssigned E a r.decision.risk.value = .ok c) (config : Dict F) (n : ℤ) (g : Draws F) :
    Usable E (decisionOf E r n g c) ↔ NothingLost E r config g (some a) := by
  unfold chooseAssigned at h
  obtain ⟨arm, harm, h⟩ := bind_eq_ok.mp h
  obtain ⟨o, ho, h⟩ := bind_eq_ok.mp h
  cases o with
  | none =>
    cases h
    refine iff_of_true (usable_baseline hT rfl rfl r n g) fun arm' parsed harm' hvalid => ?_
    cases harm.symm.trans harm'
    cases ho.symm.trans hvalid
  | some parsed =>
    simp only [bind_eq_ok, pure, Except.pure, Except.ok.injEq] at h
    obtain ⟨mode, -, safetyReason, -, epsilon, -, policyId, -, rfl⟩ := h
    obtain ⟨hfractions, x, hx⟩ := fractions_of_valid hT ho
    rw [usable_decisionOf hT hfractions hx]
    refine ⟨fun hstays arm' parsed' harm' hvalid => ?_, fun hkept => hkept arm parsed harm ho⟩
    cases harm.symm.trans harm'
    cases ho.symm.trans hvalid
    exact hstays

/-- **A logged decision is usable for off-policy evaluation just if nothing gets lost in rounding.** -/
theorem usable_iff (hT : Close E.T) {r : Request} {config : Dict F} {n : ℤ} {assignment : Option (Dict F)}
    {g : Draws F} {d : LearningDecision F} (h : chooseLearningDecision E r config n assignment g = .ok d) :
    Usable E d ↔ NothingLost E r config g assignment := by
  unfold chooseLearningDecision at h
  obtain ⟨mode, hmode, h⟩ := bind_eq_ok.mp h
  obtain ⟨epsilon, hepsilon, h⟩ := bind_eq_ok.mp h
  obtain ⟨arms, harms, h⟩ := bind_eq_ok.mp h
  obtain ⟨c, hc, h⟩ := bind_eq_ok.mp h
  cases h
  cases assignment with
  | some a => exact usable_assigned hT hc config n g
  | none =>
    have hsame : NothingLost E r config g none ↔ (mode = "explore" → learningKillSwitch E config g.killEnv = false →
        allowedRisk E config r.decision.risk.value = .ok true → 1 < arms.length → 0 < E.T.rat epsilon →
        0 < recorded E (share E arms.length epsilon) ∨ DrawsBaseline E arms epsilon g.draw) := by
      constructor
      · rintro hkept rfl
        exact hkept arms epsilon harms hepsilon hmode
      · intro hkept arms' epsilon' harms' hepsilon' hmode'
        cases harms.symm.trans harms'
        cases hepsilon.symm.trans hepsilon'
        cases hmode.symm.trans hmode'
        exact hkept rfl
    rw [hsame]
    unfold choose chooseMode at hc
    dsimp only at hc
    split_ifs at hc with hobserve hexplore hkill
    · cases hc
      refine iff_of_true (usable_baseline hT rfl rfl r n g) fun hmode => ?_
      rw [hobserve] at hmode
      exact absurd hmode (by decide)
    · cases hc
      refine iff_of_true (usable_baseline hT rfl rfl r n g) fun _ hoff => ?_
      rw [hkill] at hoff
      cases hoff
    · unfold chooseExplore at hc
      obtain ⟨allowed, hallowed, hc⟩ := bind_eq_ok.mp hc
      simp only [pure, Except.pure, Except.ok.injEq] at hc
      split_ifs at hc with hrisk hmass
      · subst hc
        refine iff_of_true (usable_baseline hT rfl rfl r n g) fun _ _ hok => ?_
        cases hallowed.symm.trans hok
        simp at hrisk
      · subst hc
        refine iff_of_true (usable_baseline hT rfl rfl r n g) fun _ _ _ hlen hpos => ?_
        rw [Bool.or_eq_true, decide_eq_true_eq, decide_eq_true_eq] at hmass
        rcases hmass with hshort | hzero
        · omega
        · linarith
      · subst hc
        rw [Bool.or_eq_true, decide_eq_true_eq, decide_eq_true_eq, not_or, not_le, not_le] at hmass
        obtain ⟨e, he, he0, he1⟩ := fraction_unit hT (by norm_num) hepsilon
        have hexplores : Explores E arms.length epsilon e := {
          view := he
          pos := by
            rw [← rat_of_view he]
            exact hmass.2
          le_one := he1
          two_le := hmass.1
          le_seven := length_eligibleArms harms }
        rw [usable_explore hT harms hexplores]
        rw [Bool.not_eq_true] at hrisk hkill
        have hon : allowed = true := by simpa using hrisk
        rw [hon] at hallowed
        exact ⟨fun hkept _ _ _ _ _ => hkept, fun hkept => hkept hexplore hkill hallowed hmass.1 hmass.2⟩
    · cases hc
      exact iff_of_true (usable_baseline hT rfl rfl r n g) fun hmode => absurd hmode hexplore

/-! ### Two arms -/

def smallRequest : Request := ⟨"where is the parser", ⟨.small, .low⟩, .exact, 0⟩

/-- Two arms are explored. -/
def exploring (probability : ℚ) : Dict ℚ :=
  [("context", .obj [("learning", .obj [("mode", .str "explore"), ("exploration_probability", .float probability),
    ("eligible_arms", .arr [.str baselineArm, .str "source_rank"])])])]

def drawAt (draw : ℚ) : Draws ℚ := ⟨"00000000000000000000000000000000", "2026-09-04", "", draw⟩

/-- What a computation that returns returns. -/
theorem ok_of_map {α β : Type} {x : Py α} {f : α → β} {b : β} (h : x.toOption.map f = some b) :
    ∃ a, x = .ok a ∧ f a = b := by
  cases x with
  | error e => cases h
  | ok a => exact ⟨a, rfl, Option.some.inj h⟩

theorem usable_iff_half : ∃ d, chooseLearningDecision exactPlatform smallRequest (exploring (1 / 2)) 1 none
    (drawAt (7 / 8)) = .ok d ∧ d.chosenArm = "source_rank" ∧ Usable exactPlatform d := by
  have hchoose : (chooseLearningDecision exactPlatform smallRequest (exploring (1 / 2)) 1 none
      (drawAt (7 / 8))).toOption.map (fun d => d.chosenArm) = some "source_rank" := by
    decide +kernel
  obtain ⟨d, hd, hchosen⟩ := ok_of_map hchoose
  refine ⟨d, hd, hchosen, (usable_iff (exact_close exact_rationals) hd).mpr ?_⟩
  intro arms epsilon harms hepsilon _ _ _ _ _
  have hboth : eligibleArms exactPlatform (exploring (1 / 2)) = .ok [baselineArm, "source_rank"] := by
    decide +kernel
  have hhalf : fraction exactPlatform (.float (1 / 2)) (exactPlatform.T.ofRat (5 / 100)) = .ok (1 / 2) := by
    decide +kernel
  cases hboth.symm.trans harms
  cases hhalf.symm.trans hepsilon
  exact Or.inl (by decide +kernel)

/-- **A share that is recorded as zero can be drawn.** -/
theorem not_usable_small : ∃ d, chooseLearningDecision exactPlatform smallRequest (exploring (1 / 2 ^ 42)) 1 none
    (drawAt (1 - 1 / 2 ^ 53)) = .ok d ∧ d.chosenArm = "source_rank" ∧ ¬ Usable exactPlatform d := by
  have hsome : (chooseLearningDecision exactPlatform smallRequest (exploring (1 / 2 ^ 42)) 1 none
      (drawAt (1 - 1 / 2 ^ 53))).toOption.map
      (fun d => (d.chosenArm, (numberOf exactPlatform (getKey d.armPropensities d.chosenArm)).toOption)) =
        some ("source_rank", some (some (.fin 0))) := by
    decide +kernel
  obtain ⟨d, hd, hpair⟩ := ok_of_map hsome
  obtain ⟨hchosen, hzero⟩ := Prod.mk.inj hpair
  refine ⟨d, hd, hchosen, fun husable => ?_⟩
  obtain ⟨q, c, hq, -, hpos, -⟩ := husable.chosen
  rw [hq] at hzero
  have hq0 : q = 0 := by simpa [Except.toOption] using hzero
  exact absurd hq0 hpos.ne'

end ControlPlane.Policy.Propensities
