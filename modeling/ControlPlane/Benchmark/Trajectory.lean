import ControlPlane.Benchmark.Protocol
import Mathlib.Data.Finset.Card
import Mathlib.Data.List.Sort
import Mathlib.Data.Rat.Cast.Order
import Mathlib.Tactic.Linarith
import Mathlib.Tactic.NormNum
import Mathlib.Tactic.Positivity

/-! # Trajectory metrics

What an agent looked at and used, compared with the files it should have: `trajectoryMetrics` sorts the events and
forms quotients of the sizes of sets of files. A quotient is the exact one, of which the report has the nearest
float.

Every set is determined by the events as a multiset, and so are the first steps (`firstStep_perm`): the order of the
events does not matter (`metrics_perm`). Each quotient is at most one because its upper set is a part of its lower
one, except `goldUtilizationRate`, where it is not (`rates_iff`). -/

namespace ControlPlane.Benchmark.Trajectory

open ControlPlane.Lib.Text ControlPlane.Benchmark.Protocol

/-! ### Events -/

inductive Kind where
  | explored
  | seed
  | utilized
  deriving DecidableEq

/-- The order of the names. -/
def Kind.position : Kind → ℕ
  | .explored => 0
  | .seed => 1
  | .utilized => 2

/-- A normalised event. -/
structure Event where
  kind : Kind
  file : String
  step : ℕ
  deriving DecidableEq

/-- The order of `(int(event["step"]), event["kind"])`. -/
def Event.before (a b : Event) : Prop := a.step < b.step ∨ a.step = b.step ∧ a.kind.position ≤ b.kind.position

instance : DecidableRel Event.before := fun _ _ => inferInstanceAs (Decidable (_ ∨ _))

/-- The files of the events of a kind. -/
def filesOf (events : List Event) (kind : Kind) : List String :=
  (events.filter fun event => event.kind = kind).map Event.file

/-- The normalised gold files. -/
def goldSet (goldFiles : List String) : Finset String :=
  ((goldFiles.filter fun path => strip path ≠ "").map normalizeFilePath).toFinset

/-! ### Metrics -/

/-- `a / b if b else None`, of two counts. -/
def rate (a b : ℕ) : Option ℚ := if b = 0 then none else some (a / b)

/-- The step of the first event with a property. -/
def firstStep (ordered : List Event) (p : Event → Bool) : Option ℕ := (ordered.find? p).map Event.step

structure Metrics where
  events : ℕ
  seedUniqueFiles : List String
  exploredUniqueFiles : List String
  utilizedUniqueFiles : List String
  seedGoldRecall : Option ℚ
  explorationPrecision : Option ℚ
  explorationRecall : Option ℚ
  utilizationPrecision : Option ℚ
  utilizationRecall : Option ℚ
  contextUtilizationRate : Option ℚ
  goldUtilizationRate : Option ℚ
  duplicateExplorationRate : Option ℚ
  firstGoldExplorationStep : Option ℕ
  firstGoldUtilizationStep : Option ℕ
  postSeedExplorationUniqueFiles : ℕ

/-- The explored files after the last seed step. -/
def postSeedExplored (ordered : List Event) : Finset String :=
  match ((ordered.filter fun event => event.kind = .seed).map Event.step).max? with
  | none => ∅
  | some last => ((ordered.filter fun event => event.kind = .explored && last < event.step).map Event.file).toFinset

def trajectoryMetrics (events : List Event) (goldFiles : List String) : Option Metrics :=
  if events.isEmpty then none
  else
    let gold := goldSet goldFiles
    let ordered := events.insertionSort Event.before
    let seedSet := (filesOf ordered .seed).toFinset
    let exploredFiles := filesOf ordered .explored
    let exploredSet := exploredFiles.toFinset
    let utilizedSet := (filesOf ordered .utilized).toFinset
    some
      { events := ordered.length
        seedUniqueFiles := (filesOf ordered .seed).eraseDups
        exploredUniqueFiles := exploredFiles.eraseDups
        utilizedUniqueFiles := (filesOf ordered .utilized).eraseDups
        seedGoldRecall := rate (seedSet ∩ gold).card gold.card
        explorationPrecision := rate (exploredSet ∩ gold).card exploredSet.card
        explorationRecall := rate (exploredSet ∩ gold).card gold.card
        utilizationPrecision := rate (utilizedSet ∩ gold).card utilizedSet.card
        utilizationRecall := rate (utilizedSet ∩ gold).card gold.card
        contextUtilizationRate := rate (utilizedSet ∩ exploredSet).card exploredSet.card
        goldUtilizationRate := rate (utilizedSet ∩ gold).card (exploredSet ∩ gold).card
        duplicateExplorationRate := some (((rate exploredSet.card exploredFiles.length).map fun q => 1 - q).getD 0)
        firstGoldExplorationStep := firstStep ordered fun event => event.kind = .explored && event.file ∈ gold
        firstGoldUtilizationStep := firstStep ordered fun event => event.kind = .utilized && event.file ∈ gold
        postSeedExplorationUniqueFiles := (postSeedExplored ordered).card }

/-- The rates of a report. -/
def Metrics.rates (m : Metrics) : List (Option ℚ) :=
  [m.seedGoldRecall, m.explorationPrecision, m.explorationRecall, m.utilizationPrecision, m.utilizationRecall,
    m.contextUtilizationRate, m.goldUtilizationRate, m.duplicateExplorationRate]

/-! ### The order of the events -/

section Order
variable {events events' : List Event}

theorem before_total (a b : Event) : a.before b ∨ b.before a := by
  unfold Event.before
  omega

theorem before_trans {a b c : Event} (hab : a.before b) (hbc : b.before c) : a.before c := by
  unfold Event.before at *
  omega

instance : Std.Total Event.before := ⟨before_total⟩

instance : IsTrans Event Event.before := ⟨fun _ _ _ => before_trans⟩

theorem step_le_of_before {a b : Event} (h : a.before b) : a.step ≤ b.step := by
  unfold Event.before at h
  omega

/-- The first event found in sorted events has the least step. -/
theorem firstStep_eq_some {ordered : List Event} (hsorted : ordered.Pairwise Event.before) {p : Event → Bool}
    {n : ℕ} : firstStep ordered p = some n ↔
      (∃ event ∈ ordered, p event = true ∧ event.step = n) ∧
        ∀ event ∈ ordered, p event = true → n ≤ event.step := by
  unfold firstStep
  constructor
  · intro h
    obtain ⟨event, hfind, rfl⟩ := Option.map_eq_some_iff.mp h
    obtain ⟨hp, before, rest, rfl, hnot⟩ := List.find?_eq_some_iff_append.mp hfind
    refine ⟨⟨event, by simp, hp, rfl⟩, fun other hother hpo => ?_⟩
    rcases List.mem_append.mp hother with hmem | hmem
    · exact absurd hpo (by simpa using hnot other hmem)
    · rcases List.mem_cons.mp hmem with rfl | hmem
      · exact le_rfl
      · have hrest := (List.pairwise_append.mp hsorted).2.1
        exact step_le_of_before ((List.pairwise_cons.mp hrest).1 other hmem)
  · rintro ⟨⟨event, hevent, hp, rfl⟩, hleast⟩
    cases hfind : ordered.find? p with
    | none => exact absurd hp (List.find?_eq_none.mp hfind event hevent)
    | some found =>
      have hfound := List.mem_of_find?_eq_some hfind
      obtain ⟨hpf, front, rest, hsplit, hnot⟩ := List.find?_eq_some_iff_append.mp hfind
      refine congrArg some (le_antisymm ?_ (hleast found hfound hpf))
      rw [hsplit] at hevent hsorted
      rcases List.mem_append.mp hevent with hmem | hmem
      · exact absurd hp (by simpa using hnot event hmem)
      · rcases List.mem_cons.mp hmem with rfl | hmem
        · exact le_rfl
        · have hrest := (List.pairwise_append.mp hsorted).2.1
          exact step_le_of_before ((List.pairwise_cons.mp hrest).1 event hmem)

/-- **The first step does not depend on the order of the events.** -/
theorem firstStep_perm (h : events.Perm events') (p : Event → Bool) :
    firstStep (events.insertionSort Event.before) p = firstStep (events'.insertionSort Event.before) p := by
  have hperm := (List.perm_insertionSort Event.before events).trans
    (h.trans (List.perm_insertionSort Event.before events').symm)
  refine Option.ext fun n => ?_
  rw [firstStep_eq_some (List.pairwise_insertionSort _ _), firstStep_eq_some (List.pairwise_insertionSort _ _)]
  refine and_congr (exists_congr fun event => ?_) (forall_congr' fun event => ?_)
  · rw [hperm.mem_iff]
  · rw [hperm.mem_iff]

theorem filesOf_perm (h : events.Perm events') (kind : Kind) : (filesOf events kind).Perm (filesOf events' kind) :=
  (h.filter _).map _

theorem files_perm (h : events.Perm events') (kind : Kind) :
    (filesOf events kind).toFinset = (filesOf events' kind).toFinset :=
  List.toFinset_eq_of_perm _ _ (filesOf_perm h kind)

theorem max?_perm {xs ys : List ℕ} (h : xs.Perm ys) : xs.max? = ys.max? := by
  refine Option.ext fun n => ?_
  rw [List.max?_eq_some_iff, List.max?_eq_some_iff, h.mem_iff]
  exact and_congr Iff.rfl (forall_congr' fun m => by rw [h.mem_iff])

theorem postSeedExplored_perm (h : events.Perm events') : postSeedExplored events = postSeedExplored events' := by
  unfold postSeedExplored
  rw [max?_perm ((h.filter _).map _)]
  cases ((events'.filter fun event => event.kind = .seed).map Event.step).max? with
  | none => rfl
  | some last => exact List.toFinset_eq_of_perm _ _ ((h.filter _).map _)

/-- Two reports agree in everything but the order of their file lists. -/
structure Agrees (m m' : Metrics) : Prop where
  rates : m.rates = m'.rates
  exploration : m.firstGoldExplorationStep = m'.firstGoldExplorationStep
  utilization : m.firstGoldUtilizationStep = m'.firstGoldUtilizationStep
  postSeed : m.postSeedExplorationUniqueFiles = m'.postSeedExplorationUniqueFiles

/-- **The metrics do not depend on the order of the events.** -/
theorem metrics_perm (h : events.Perm events') {goldFiles : List String} {m m' : Metrics}
    (hm : trajectoryMetrics events goldFiles = some m) (hm' : trajectoryMetrics events' goldFiles = some m') :
    Agrees m m' := by
  have hperm := (List.perm_insertionSort Event.before events).trans
    (h.trans (List.perm_insertionSort Event.before events').symm)
  unfold trajectoryMetrics at hm hm'
  split_ifs at hm with hempty
  split_ifs at hm' with hempty'
  cases hm
  cases hm'
  constructor
  · simp only [Metrics.rates, files_perm hperm, (filesOf_perm hperm .explored).length_eq]
  · exact firstStep_perm h _
  · exact firstStep_perm h _
  · show (postSeedExplored _).card = (postSeedExplored _).card
    rw [postSeedExplored_perm hperm]

end Order

/-! ### Rates -/

/-- A rate that is given lies between zero and one. -/
def InUnit (o : Option ℚ) : Prop := ∀ q, o = some q → 0 ≤ q ∧ q ≤ 1

theorem rate_inUnit {a b : ℕ} : InUnit (rate a b) ↔ b = 0 ∨ a ≤ b := by
  unfold rate InUnit
  by_cases hb : b = 0
  · rw [if_pos hb]
    exact iff_of_true (fun q h => nomatch h) (Or.inl hb)
  · have hpos : (0 : ℚ) < b := by exact_mod_cast Nat.pos_of_ne_zero hb
    rw [if_neg hb]
    constructor
    · intro h
      have hle := (h _ rfl).2
      rw [div_le_one hpos] at hle
      exact Or.inr (by exact_mod_cast hle)
    · rintro (h | h) q hq
      · exact absurd h hb
      · cases hq
        exact ⟨by positivity, (div_le_one hpos).mpr (by exact_mod_cast h)⟩

theorem rest_inUnit {a b : ℕ} (h : a ≤ b) : InUnit (some (((rate a b).map fun q => 1 - q).getD 0)) := by
  intro q hq
  cases hq
  have hunit := rate_inUnit.mpr (Or.inr h)
  cases hrate : rate a b with
  | none => exact ⟨le_rfl, zero_le_one⟩
  | some r =>
    obtain ⟨h0, h1⟩ := hunit r hrate
    show 0 ≤ 1 - r ∧ 1 - r ≤ 1
    exact ⟨by linarith, by linarith⟩

/-- The gold files among the files of a kind. -/
def goldOf (events : List Event) (goldFiles : List String) (kind : Kind) : Finset String :=
  (filesOf events kind).toFinset ∩ goldSet goldFiles

/-- **The rates of a trajectory are rates**, if not more gold files are utilized than explored, or none is explored. -/
theorem rates_iff {events : List Event} (hne : events ≠ []) (goldFiles : List String) :
    (∃ m, trajectoryMetrics events goldFiles = some m ∧ (∀ o ∈ m.rates, InUnit o) ∧
      ∀ events' : List Event, events'.Perm events →
        ∃ m', trajectoryMetrics events' goldFiles = some m' ∧ Agrees m' m) ↔
    goldOf events goldFiles .explored = ∅ ∨
      (goldOf events goldFiles .utilized).card ≤ (goldOf events goldFiles .explored).card := by
  have hperm := List.perm_insertionSort Event.before events
  have hsome : ∀ {events' : List Event}, events'.Perm events → ∃ m', trajectoryMetrics events' goldFiles = some m' := by
    intro events' h
    unfold trajectoryMetrics
    rw [if_neg fun hempty => hne (List.Perm.eq_nil (List.isEmpty_iff.mp hempty ▸ h).symm)]
    exact ⟨_, rfl⟩
  obtain ⟨m, hm⟩ := hsome (List.Perm.refl events)
  have hinter : ∀ A B : Finset String, (A ∩ B).card ≤ A.card ∧ (A ∩ B).card ≤ B.card := fun A B =>
    ⟨Finset.card_le_card Finset.inter_subset_left, Finset.card_le_card Finset.inter_subset_right⟩
  have hgold : InUnit m.goldUtilizationRate ↔ goldOf events goldFiles .explored = ∅ ∨
      (goldOf events goldFiles .utilized).card ≤ (goldOf events goldFiles .explored).card := by
    have hfield : m.goldUtilizationRate =
        rate (goldOf events goldFiles .utilized).card (goldOf events goldFiles .explored).card := by
      unfold trajectoryMetrics at hm
      rw [if_neg fun hempty => hne (List.isEmpty_iff.mp hempty)] at hm
      cases hm
      show rate _ _ = _
      rw [files_perm hperm, files_perm hperm]
      rfl
    rw [hfield, rate_inUnit, Finset.card_eq_zero]
  have hothers : ∀ o ∈ m.rates, o = m.goldUtilizationRate ∨ InUnit o := by
    unfold trajectoryMetrics at hm
    rw [if_neg fun hempty => hne (List.isEmpty_iff.mp hempty)] at hm
    cases hm
    intro o ho
    simp only [Metrics.rates, List.mem_cons, List.not_mem_nil, or_false] at ho
    rcases ho with rfl | rfl | rfl | rfl | rfl | rfl | rfl | rfl
    · exact Or.inr (rate_inUnit.mpr (Or.inr (hinter _ _).2))
    · exact Or.inr (rate_inUnit.mpr (Or.inr (hinter _ _).1))
    · exact Or.inr (rate_inUnit.mpr (Or.inr (hinter _ _).2))
    · exact Or.inr (rate_inUnit.mpr (Or.inr (hinter _ _).1))
    · exact Or.inr (rate_inUnit.mpr (Or.inr (hinter _ _).2))
    · exact Or.inr (rate_inUnit.mpr (Or.inr (hinter _ _).2))
    · exact Or.inl rfl
    · exact Or.inr (rest_inUnit (List.toFinset_card_le _))
  constructor
  · rintro ⟨m', hm', hrates, -⟩
    rw [hm, Option.some.injEq] at hm'
    subst hm'
    exact hgold.mp (hrates _ (by simp [Metrics.rates]))
  · intro hcondition
    refine ⟨m, hm, fun o ho => ?_, fun events' hevents => ?_⟩
    · rcases hothers o ho with rfl | ho
      · exact hgold.mpr hcondition
      · exact ho
    · obtain ⟨m', hm'⟩ := hsome hevents
      exact ⟨m', hm', metrics_perm hevents hm' hm⟩

/-- One file is explored and utilized. -/
theorem rates_iff_one :
    (∃ m, trajectoryMetrics [⟨.explored, "a", 1⟩, ⟨.utilized, "a", 2⟩] ["a"] = some m ∧
      (∀ o ∈ m.rates, InUnit o) ∧
      ∀ events' : List Event, events'.Perm [⟨.explored, "a", 1⟩, ⟨.utilized, "a", 2⟩] →
        ∃ m', trajectoryMetrics events' ["a"] = some m' ∧ Agrees m' m) ↔
    goldOf [⟨.explored, "a", 1⟩, ⟨.utilized, "a", 2⟩] ["a"] .explored = ∅ ∨
      (goldOf [⟨.explored, "a", 1⟩, ⟨.utilized, "a", 2⟩] ["a"] .utilized).card ≤
        (goldOf [⟨.explored, "a", 1⟩, ⟨.utilized, "a", 2⟩] ["a"] .explored).card :=
  rates_iff (by decide) ["a"]

/-- A gold file that was utilized but never explored. -/
def unexplored : List Event := [⟨.explored, "a", 1⟩, ⟨.utilized, "a", 2⟩, ⟨.utilized, "b", 3⟩]

/-- Two gold files are utilized, one is explored: the rate is two. -/
theorem unexplored_rate : (trajectoryMetrics unexplored ["a", "b"]).bind Metrics.goldUtilizationRate = some 2 ∧
    ¬InUnit (some 2) := by
  refine ⟨by decide +kernel, fun h => ?_⟩
  have hle := (h 2 rfl).2
  norm_num at hle

end ControlPlane.Benchmark.Trajectory
