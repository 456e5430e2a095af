import ControlPlane.Lib.LazyGreedy
import ControlPlane.Lib.Rounding
import ControlPlane.Retrieval.Selection
import Mathlib.Data.String.Basic
import Mathlib.Data.Prod.Lex

/-! # The facility location run

The run over the heap is a lazy greedy run (`lazy_of_loop`): what a candidate adds to the coverage of the
rows only shrinks while the coverage grows (`density_le`), as long as rounding is stable.

`facility_eq_greedy`: in exact arithmetic the run ends and chooses what the plain greedy run
(`greedyRun`) chooses, which weighs every remaining candidate again in each round. -/

namespace ControlPlane.Retrieval.Greedy

open ControlPlane.Lib.Value ControlPlane.Lib.Floats ControlPlane.Lib.Rounding ControlPlane.Lib.Dynamic
open ControlPlane.Lib.LazyGreedy ControlPlane.Environment ControlPlane.Retrieval.Items
open ControlPlane.Retrieval.Budget ControlPlane.Retrieval.Selection

variable {F : Type} (T : FloatSys F) (blake2b : String → String)

/-! ### The plain greedy run -/

/-- The candidate has a greater gain for its cost, or the same and a smaller key. -/
def preferred (tokenAware : Bool) (targets : List (Candidate F)) (coverage : List Num)
    (c d : Candidate F) : Bool :=
  let x := density T tokenAware targets coverage c
  let y := density T tokenAware targets coverage d
  y.lt x || (y.eq x && decide (keyOf blake2b c < keyOf blake2b d))

/-- The preferred candidate of a list that starts with `c`. -/
def bestOf (tokenAware : Bool) (targets : List (Candidate F)) (coverage : List Num) (c : Candidate F)
    (cs : List (Candidate F)) : Candidate F :=
  cs.foldl (fun best d => if preferred T blake2b tokenAware targets coverage d best then d else best) c

/-- At most `n` rounds of the plain greedy run: each weighs all remaining candidates that fit. -/
def greedyRun (limits : Limits) (tokenAware : Bool) (targets : List (Candidate F)) :
    ℕ → List Num → List (Candidate F) → Picked F → Picked F
  | 0, _, _, st => st
  | n + 1, coverage, remaining, st =>
    match remaining.filter (fits limits st) with
    | [] => st
    | c :: cs =>
      let best := bestOf T blake2b tokenAware targets coverage c cs
      if (density T tokenAware targets coverage best).le (.fin 0) then st
      else greedyRun limits tokenAware targets n (cover T best targets coverage)
        (remaining.filter fun d => keyOf blake2b d ≠ keyOf blake2b best) (add st best)

/-- The coverage of the rows by what has been chosen. -/
def startCoverage (targets : List (Candidate F)) (st : Picked F) : List Num :=
  st.selected.foldl (fun coverage c => cover T c targets coverage) (targets.map fun _ => .fin 0)

variable (tokenize : String → List String)

/-- The rows the selector chooses from. -/
def rowsOf (query : String) (items : List (ContextItem F)) (limit : ℕ) (sources : List String)
    (limits : Limits) : List (Candidate F) :=
  bounded blake2b (candidates T blake2b tokenize query items) limit sources limits.tokens.isSome

/-- What is chosen of the mandatory sources. -/
def mandatoryRun (limits : Limits) (sources : List String) (rows : List (Candidate F)) : Picked F :=
  rows.foldl (mandatoryStep blake2b limits sources) ⟨[], 0, 0⟩

/-- The rows that have not been chosen. -/
def leftOver (rows : List (Candidate F)) (st : Picked F) : List (Candidate F) :=
  rows.filter fun row => !(st.selected.map (keyOf blake2b)).contains (keyOf blake2b row)

/-- The budget is so tight that the rows are chosen by relevance. -/
def isTight (limits : Limits) (rows : List (Candidate F)) (tight : Num) : Bool :=
  let totalCost := (rows.map (activeCost limits.tokens.isSome)).sum
  (T.lit ((limits.tokens.getD limits.chars : ℤ) / (max 1 totalCost : ℕ))).le tight

/-! ### Coverage -/

/-- A number between zero and one. -/
def Unit (x : Num) : Prop := ∃ q, x = .fin q ∧ 0 ≤ q ∧ q ≤ 1

/-- Rows as the selector makes them. -/
def Rated (c : Candidate F) : Prop := Unit c.relevance

/-- The cost of the candidate is a positive number as a float. -/
def Costed (tokenAware : Bool) (c : Candidate F) : Prop :=
  ∃ k, T.lit (activeCost tokenAware c) = .fin k ∧ 0 < k

/-- A coverage of the rows. -/
structure Covers (targets : List (Candidate F)) (coverage : List Num) : Prop where
  length : coverage.length = targets.length
  unit : ∀ x ∈ coverage, Unit x

variable {T blake2b tokenize}

theorem Unit.nonNeg {x : Num} (h : Unit x) : NonNeg x := by
  obtain ⟨q, rfl, h0, -⟩ := h
  exact nonNeg_fin h0

theorem unit_zero : Unit (.fin 0) := ⟨0, rfl, le_rfl, zero_le_one⟩

section Stable
variable (hT : Stable T)
include hT

theorem unit_jaccard (a b : List String) : Unit (jaccard T a b) := by
  unfold jaccard
  split_ifs with h
  · exact unit_zero
  · have ha : 0 < a.length := by
      rw [List.length_pos_iff]
      rintro rfl
      simp at h
    have hle : (a.filter b.contains).length ≤ a.length := List.length_filter_le _ _
    have hden : (0 : ℚ) < a.length + (b.filter fun x => !a.contains x).length := by positivity
    refine unit_lit hT (by positivity) ?_
    rw [div_le_one hden]
    have hcast : ((a.filter b.contains).length : ℚ) ≤ a.length := by exact_mod_cast hle
    have hpos : (0 : ℚ) ≤ (b.filter fun x => !a.contains x).length := by positivity
    linarith

theorem unit_represented {target : Candidate F} (ht : Rated target) (c : Candidate F) :
    Unit (represented T target c) := by
  obtain ⟨r, hr, h0, h1⟩ := ht
  obtain ⟨j, hj, hj0, hj1⟩ := unit_jaccard hT target.tokens c.tokens
  obtain ⟨p, hp, hp0, hp1⟩ := unit_mul hT ⟨h0, h1⟩ ⟨hj0, hj1⟩
  exact ⟨p, by rw [represented, hr, hj, hp], hp0, hp1⟩

omit hT in
theorem covers_start (targets : List (Candidate F)) :
    Covers targets (targets.map fun _ => Num.fin 0) where
  length := by simp
  unit x hx := by
    obtain ⟨t, -, rfl⟩ := List.mem_map.mp hx
    exact unit_zero

variable {targets : List (Candidate F)} (ht : ∀ t ∈ targets, Rated t)
include ht

theorem covers_cover {coverage : List Num} (h : Covers targets coverage) (c : Candidate F) :
    Covers targets (cover T c targets coverage) where
  length := by simp [cover, h.length]
  unit x hx := by
    obtain ⟨⟨t, y⟩, hrow, rfl⟩ := List.mem_map.mp hx
    obtain ⟨hmt, hmy⟩ := List.of_mem_zip hrow
    dsimp only
    split_ifs
    · exact unit_represented hT (ht t hmt) c
    · exact h.unit y hmy

theorem covers_startCoverage (st : Picked F) : Covers targets (startCoverage T targets st) := by
  unfold startCoverage
  have hfold : ∀ (cs : List (Candidate F)) (coverage : List Num), Covers targets coverage →
      Covers targets (cs.foldl (fun coverage c => cover T c targets coverage) coverage) := by
    intro cs
    induction cs with
    | nil => exact fun _ h => h
    | cons c cs ih => exact fun coverage h => ih _ (covers_cover hT ht h c)
  exact hfold _ _ (covers_start targets)

end Stable

/-- One coverage is nowhere above another. -/
abbrev Below (coverage coverage' : List Num) : Prop :=
  List.Forall₂ (fun x y : Num => x.le y = true) coverage coverage'

theorem below_cover {coverage : List Num} : ∀ {targets : List (Candidate F)},
    Covers targets coverage → ∀ c, Below coverage (cover T c targets coverage) := by
  induction coverage with
  | nil =>
    intro targets _ c
    simp [cover]
  | cons x coverage ih =>
    intro targets h c
    cases targets with
    | nil => simpa using h.length
    | cons t targets =>
      have htail : Covers targets coverage :=
        ⟨by simpa using h.length, fun y hy => h.unit y (List.mem_cons_of_mem _ hy)⟩
      refine List.Forall₂.cons ?_ (ih htail c)
      dsimp only
      split_ifs with hlt
      · exact Num.le_of_lt hlt
      · exact (h.unit x (List.mem_cons_self ..)).nonNeg.le_self

/-! ### Gains -/

/-- The sum of `gain` from a total on. -/
def gainFrom (T : FloatSys F) (c : Candidate F) (total : Num) (rows : List (Candidate F × Num)) : Num :=
  rows.foldl (fun total row => if row.2.lt (represented T row.1 c) then
    T.add total (T.sub (represented T row.1 c) row.2) else total) total

theorem gain_eq (c : Candidate F) (targets : List (Candidate F)) (coverage : List Num) :
    gain T c targets coverage = gainFrom T c (.fin 0) (targets.zip coverage) := rfl

/-- What a better representation of a row adds. -/
theorem unit_sub (hT : Stable T) {x y : Num} (hx : Unit x) (hy : Unit y) (h : y.lt x = true) :
    Unit (T.sub x y) := by
  obtain ⟨p, rfl, hp0, hp1⟩ := hx
  obtain ⟨q, rfl, hq0, hq1⟩ := hy
  rw [Num.lt_fin, decide_eq_true_eq] at h
  exact unit_lit hT (by linarith) (by linarith)

/-- It is less over a greater coverage. -/
theorem sub_le_sub {x y z : Num} (hx : Unit x) (hy : Unit y) (hz : Unit z) (h : y.le z = true) :
    (T.sub x z).le (T.sub x y) = true := by
  obtain ⟨p, rfl, -, -⟩ := hx
  obtain ⟨q, rfl, -, -⟩ := hy
  obtain ⟨r, rfl, -, -⟩ := hz
  rw [Num.le_fin, decide_eq_true_eq] at h
  exact T.lit_mono (by linarith)

theorem nonNeg_gainFrom (hT : Stable T) (c : Candidate F) : ∀ {rows : List (Candidate F × Num)} {total : Num},
    NonNeg total → (∀ row ∈ rows, Rated row.1 ∧ Unit row.2) → NonNeg (gainFrom T c total rows)
  | [], _, h, _ => h
  | row :: rows, total, h, hrows => by
    obtain ⟨⟨ht, hu⟩, hrest⟩ := List.forall_mem_cons.mp hrows
    rw [gainFrom, List.foldl_cons]
    split_ifs with hlt
    · obtain ⟨q, hq, h0, -⟩ := unit_sub hT (unit_represented hT ht c) hu hlt
      rw [hq]
      exact nonNeg_gainFrom hT c (nonNeg_add h h0) hrest
    · exact nonNeg_gainFrom hT c h hrest

/-- **A gain over a greater coverage is not greater.** -/
theorem gainFrom_le (hT : Stable T) (c : Candidate F) : ∀ {targets : List (Candidate F)}
    {coverage coverage' : List Num} {total total' : Num}, (∀ t ∈ targets, Rated t) →
    (∀ x ∈ coverage, Unit x) → (∀ x ∈ coverage', Unit x) → Below coverage coverage' →
    NonNeg total' → total'.le total = true → Rounded T total →
    (gainFrom T c total' (targets.zip coverage')).le (gainFrom T c total (targets.zip coverage)) = true
  | [], _, _, _, _, _, _, _, _, _, hle, _ => hle
  | t :: targets, _, _, _, _, _, _, _, .nil, _, hle, _ => hle
  | t :: targets, x :: coverage, y :: coverage', total, total', ht, hu, hu', .cons hxy hbelow, hn, hle, hr => by
    obtain ⟨ht, hts⟩ := List.forall_mem_cons.mp ht
    obtain ⟨hx, hxs⟩ := List.forall_mem_cons.mp hu
    obtain ⟨hy, hys⟩ := List.forall_mem_cons.mp hu'
    have hrep := unit_represented hT ht c
    have htotal := hn.trans hle
    rw [List.zip_cons_cons, List.zip_cons_cons, gainFrom, gainFrom, List.foldl_cons, List.foldl_cons]
    dsimp only
    by_cases hlt : y.lt (represented T t c) = true
    · have hlt' : x.lt (represented T t c) = true := by
        rw [top_lt_iff hx.nonNeg hrep.nonNeg]
        rw [top_lt_iff hy.nonNeg hrep.nonNeg] at hlt
        exact ((top_le_iff hx.nonNeg hy.nonNeg).mp hxy).trans_lt hlt
      rw [if_pos hlt, if_pos hlt']
      obtain ⟨p, hp, hp0, -⟩ := unit_sub hT hrep hx hlt'
      obtain ⟨q, hq, hq0, -⟩ := unit_sub hT hrep hy hlt
      have hqp := sub_le_sub (T := T) hrep hx hy hxy
      rw [hp, hq, Num.le_fin, decide_eq_true_eq] at hqp
      rw [hp, hq]
      exact gainFrom_le hT c hts hxs hys hbelow (nonNeg_add hn hq0) (add_le_add hn hle hqp)
        (rounded_add htotal hT)
    · rw [if_neg hlt]
      by_cases hlt' : x.lt (represented T t c) = true
      · rw [if_pos hlt']
        obtain ⟨p, hp, hp0, -⟩ := unit_sub hT hrep hx hlt'
        rw [hp]
        exact gainFrom_le hT c hts hxs hys hbelow hn
          (Num.le_trans hle (le_add htotal hr hp0)) (rounded_add htotal hT)
      · rw [if_neg hlt']
        exact gainFrom_le hT c hts hxs hys hbelow hn hle hr

section Density
variable (hT : Stable T) {targets : List (Candidate F)} (ht : ∀ t ∈ targets, Rated t) {tokenAware : Bool}
  {coverage : List Num} (hc : Covers targets coverage) {d : Candidate F} (hd : Costed T tokenAware d)
include hT ht hc hd

theorem nonNeg_density : NonNeg (density T tokenAware targets coverage d) := by
  obtain ⟨k, hk, hpos⟩ := hd
  rw [density, hk]
  refine nonNeg_div (nonNeg_gainFrom hT d (nonNeg_fin le_rfl) fun row hrow => ?_) hpos
  obtain ⟨hmt, hmx⟩ := List.of_mem_zip hrow
  exact ⟨ht _ hmt, hc.unit _ hmx⟩

/-- **Choosing a candidate makes no density grow.** -/
theorem density_le (c : Candidate F) : (density T tokenAware targets (cover T c targets coverage) d).le
    (density T tokenAware targets coverage d) = true := by
  have hcov := covers_cover hT ht hc c
  obtain ⟨k, hk, hpos⟩ := hd
  rw [density, density, hk]
  refine div_le_div (nonNeg_gainFrom hT d (nonNeg_fin le_rfl) fun row hrow => ?_)
    (gainFrom_le hT d ht hc.unit hcov.unit (below_cover hc c) (nonNeg_fin le_rfl)
      (nonNeg_fin le_rfl).le_self rounded_zero) hpos
  obtain ⟨hmt, hmx⟩ := List.of_mem_zip hrow
  exact ⟨ht _ hmt, hcov.unit _ hmx⟩

end Density

/-! ### The heap -/

variable (T blake2b) in
/-- **The problem the run solves**: its states are coverages with what has been chosen. -/
def problem (limits : Limits) (tokenAware : Bool) (targets : List (Candidate F)) :
    Problem (List Num × Picked F) (Candidate F) (WithTop ℚ) String where
  value s c := top (density T tokenAware targets s.1 c)
  zero := 0
  key := keyOf blake2b
  Fits s c := fits limits s.2 c = true
  take s c := (cover T c targets s.1, add s.2 c)

/-- The entry of a bound. -/
def entryOf (b : Bound F) : Entry (Candidate F) (WithTop ℚ) := ⟨top b.neg.negate, b.epoch, b.candidate⟩

variable (blake2b) in
/-- A bound as `boundOf` makes it. -/
structure Sound (b : Bound F) : Prop where
  nonNeg : NonNeg b.neg.negate
  key : b.key = keyOf blake2b b.candidate

theorem negate_negate (x : Num) : x.negate.negate = x := by
  cases x <;> simp [Num.negate]

/-- The place of a bound in the heap. -/
def place (b : Bound F) : (WithTop ℚ)ᵒᵈ ×ₗ (String ×ₗ ℕ) :=
  toLex (OrderDual.toDual (top b.neg.negate), toLex (b.key, b.epoch))

theorem before_iff {a b : Bound F} (ha : NonNeg a.neg.negate) (hb : NonNeg b.neg.negate) :
    a.before b = true ↔ place a < place b := by
  have hlt := lt_negate hb ha
  have heq := eq_negate hb ha
  rw [negate_negate, negate_negate] at hlt heq
  rw [Bound.before, hlt, heq, place, place, Prod.Lex.toLex_lt_toLex, Prod.Lex.toLex_lt_toLex,
    Bool.or_eq_true, Bool.and_eq_true, Bool.or_eq_true, Bool.and_eq_true, top_lt_iff hb ha,
    top_eq_iff hb ha]
  simp only [decide_eq_true_eq, beq_iff_eq, OrderDual.toDual_lt_toDual, OrderDual.toDual_inj]
  constructor
  · rintro (h | ⟨h, h'⟩)
    · exact Or.inl h
    · exact Or.inr ⟨h.symm, h'⟩
  · rintro (h | ⟨h, h'⟩)
    · exact Or.inl h
    · exact Or.inr ⟨h.symm, h'⟩

/-- **What is popped comes first.** -/
theorem popFrom_first : ∀ (best : Bound F) (bs : List (Bound F)),
    (∀ b ∈ best :: bs, NonNeg b.neg.negate) →
    ∀ d ∈ (popFrom best bs).2, place (popFrom best bs).1 ≤ place d
  | best, [], _ => by simp [popFrom]
  | best, b :: bs, h => by
    have hmin : ∀ (c : Bound F) (cs : List (Bound F)), (∀ d ∈ (popFrom c cs).2,
        place (popFrom c cs).1 ≤ place d) → place (popFrom c cs).1 ≤ place c := by
      intro c cs hrest
      have hc := (perm_popFrom c cs).symm.subset (List.mem_cons_self ..)
      rcases List.mem_cons.mp hc with he | hc
      · exact (congrArg place he).symm.le
      · exact hrest c hc
    obtain ⟨hbest, hb, hbs⟩ : NonNeg best.neg.negate ∧ NonNeg b.neg.negate ∧
        ∀ d ∈ bs, NonNeg d.neg.negate := by simpa using h
    unfold popFrom
    split_ifs with hlt
    · have ih := popFrom_first b bs (List.forall_mem_cons.mpr ⟨hb, hbs⟩)
      intro d hd
      rcases List.mem_cons.mp hd with rfl | hd
      · exact (hmin b bs ih).trans ((before_iff hb hbest).mp hlt).le
      · exact ih d hd
    · have ih := popFrom_first best bs (List.forall_mem_cons.mpr ⟨hbest, hbs⟩)
      intro d hd
      rcases List.mem_cons.mp hd with rfl | hd
      · rw [before_iff hb hbest, not_lt] at hlt
        exact (hmin best bs ih).trans hlt
      · exact ih d hd

theorem pops {limits : Limits} {tokenAware : Bool} {targets : List (Candidate F)} {b : Bound F}
    {bs : List (Bound F)} (h : ∀ d ∈ b :: bs, Sound blake2b d) :
    Pops (problem T blake2b limits tokenAware targets) ((b :: bs).map entryOf)
      (entryOf (popFrom b bs).1) ((popFrom b bs).2.map entryOf) where
  perm := (perm_popFrom b bs).map entryOf
  first e he := by
    obtain ⟨d, hd, rfl⟩ := List.mem_map.mp he
    have hperm := perm_popFrom b bs
    have hle := popFrom_first b bs (fun d hd => (h d hd).nonNeg) d hd
    have hk1 := (h _ (hperm.subset (List.mem_cons_self ..))).key
    have hk2 := (h d (hperm.subset (List.mem_cons_of_mem _ hd))).key
    rw [place, place, Prod.Lex.toLex_le_toLex, Prod.Lex.toLex_le_toLex] at hle
    rcases hle with hlt | ⟨he, hle⟩
    · exact Or.inl hlt
    · refine Or.inr ⟨(OrderDual.toDual_inj.mp he).symm, ?_⟩
      show keyOf blake2b (popFrom b bs).1.candidate ≤ keyOf blake2b d.candidate
      rw [← hk1, ← hk2]
      rcases hle with hlt | ⟨he, -⟩
      · exact hlt.le
      · exact he.le

/-! ### The run is a lazy greedy run -/

theorem fits_of_add {limits : Limits} {st : Picked F} {c d : Candidate F}
    (h : fits limits (add st c) d = true) : fits limits st d = true := by
  obtain ⟨h1, h2⟩ := fits_iff.mp h
  simp only [add, Nat.cast_add] at h1 h2
  refine fits_iff.mpr ⟨by omega, fun t ht => ?_⟩
  have := h2 t ht
  omega

section Run
variable (hT : Stable T) {limits : Limits} {tokenAware : Bool} {targets : List (Candidate F)}
  (ht : ∀ t ∈ targets, Rated t)
include hT ht

/-- **The problem shrinks.** -/
theorem shrinks : Shrinks (problem T blake2b limits tokenAware targets)
    (fun s => Covers targets s.1) (Costed T tokenAware) where
  step hs _ _ := covers_cover hT ht hs _
  value_le {s c d} hs _ hd := by
    have hcov := covers_cover hT ht hs c
    exact (top_le_iff (nonNeg_density hT ht hcov hd) (nonNeg_density hT ht hs hd)).mp
      (density_le hT ht hs hd c)
  fits h := fits_of_add h

theorem sound_boundOf {coverage : List Num} (hc : Covers targets coverage) (epoch : ℕ) {c : Candidate F}
    (hd : Costed T tokenAware c) : Sound blake2b (boundOf T blake2b tokenAware targets coverage epoch c) where
  nonNeg := by
    show NonNeg (density T tokenAware targets coverage c).negate.negate
    rw [negate_negate]
    exact nonNeg_density hT ht hc hd
  key := rfl

/-- **A run over the heap is a lazy greedy run.** -/
theorem lazy_of_loop : ∀ {fuel : ℕ} {heap : List (Bound F)} {epoch : ℕ} {coverage : List Num}
    {st st' : Picked F}, Covers targets coverage → (∀ b ∈ heap, Sound blake2b b) →
    (∀ b ∈ heap, Costed T tokenAware b.candidate) →
    facilityLoop T blake2b limits tokenAware targets fuel heap epoch coverage st = some st' →
    ∃ picks, Lazy (problem T blake2b limits tokenAware targets) epoch (coverage, st)
      (heap.map entryOf) picks ∧ st' = picks.foldl add st ∧ (picks.foldl
        (problem T blake2b limits tokenAware targets).take (coverage, st)).2 = st'
  | 0, _, _, _, _, _, _, _, _, h => by cases h
  | fuel + 1, [], _, _, st, st', _, _, _, h => by
    cases h
    exact ⟨[], Lazy.done, rfl, rfl⟩
  | fuel + 1, b :: bs, epoch, coverage, st, st', hc, hs, hd, h => by
    have hpop : Pops (problem T blake2b limits tokenAware targets) ((b :: bs).map entryOf)
      (entryOf (popFrom b bs).1) ((popFrom b bs).2.map entryOf) := pops hs
    have hperm := perm_popFrom b bs
    have hs' : ∀ d ∈ (popFrom b bs).1 :: (popFrom b bs).2, Sound blake2b d :=
      fun d hmem => hs d (hperm.subset hmem)
    have hd' : ∀ d ∈ (popFrom b bs).1 :: (popFrom b bs).2, Costed T tokenAware d.candidate :=
      fun d hmem => hd d (hperm.subset hmem)
    unfold facilityLoop at h
    dsimp only at h
    generalize popFrom b bs = popped at *
    obtain ⟨first, rest⟩ := popped
    dsimp only at *
    obtain ⟨-, hsr⟩ := List.forall_mem_cons.mp hs'
    obtain ⟨hdf, hdr⟩ := List.forall_mem_cons.mp hd'
    have hn := nonNeg_density hT ht hc hdf
    split_ifs at h with hfits hstale hnone
    · obtain ⟨picks, hl, he⟩ := lazy_of_loop hc hsr hdr h
      refine ⟨picks, Lazy.drop hpop ?_ hl, he⟩
      show ¬ fits limits st first.candidate = true
      simpa using hfits
    · obtain ⟨picks, hl, he⟩ := lazy_of_loop hc
        (List.forall_mem_cons.mpr ⟨sound_boundOf hT ht hc epoch hdf, hsr⟩)
        (List.forall_mem_cons.mpr ⟨hdf, hdr⟩) h
      refine ⟨picks, Lazy.renew hpop (by simpa [problem, entryOf] using hfits) ?_, he⟩
      rw [List.map_cons, entryOf, boundOf, negate_negate] at hl
      exact hl
    · cases h
      rw [not_or, not_not] at hstale
      exact ⟨[], Lazy.stop hpop (by simpa [problem, entryOf] using hfits) hstale.1
        ((top_le_iff hn (nonNeg_fin le_rfl)).mp hnone), rfl, rfl⟩
    · rw [not_or, not_not] at hstale
      obtain ⟨picks, hl, he, he'⟩ := lazy_of_loop (covers_cover hT ht hc first.candidate) hsr hdr h
      have hpos : (0 : WithTop ℚ) < top (density T tokenAware targets coverage first.candidate) := by
        rw [top_le_iff hn (nonNeg_fin le_rfl), not_le] at hnone
        exact hnone
      exact ⟨first.candidate :: picks,
        Lazy.pick hpop (by simpa [problem, entryOf] using hfits) hstale.1 hpos hl, he, he'⟩

end Run

/-! ### The plain run is a greedy run -/

section Plain
variable (hT : Stable T) {limits : Limits} {tokenAware : Bool} {targets : List (Candidate F)}
  (ht : ∀ t ∈ targets, Rated t) {coverage : List Num} (hc : Covers targets coverage)

variable (T blake2b) in
/-- The place of a candidate in the order of preference. -/
def rankOf (tokenAware : Bool) (targets : List (Candidate F)) (coverage : List Num) (c : Candidate F) :
    (WithTop ℚ)ᵒᵈ ×ₗ String :=
  toLex (OrderDual.toDual (top (density T tokenAware targets coverage c)), keyOf blake2b c)

include hT ht hc

theorem preferred_iff {c d : Candidate F} (hd1 : Costed T tokenAware c) (hd2 : Costed T tokenAware d) :
    preferred T blake2b tokenAware targets coverage c d = true ↔
      rankOf T blake2b tokenAware targets coverage c < rankOf T blake2b tokenAware targets coverage d := by
  have h1 := nonNeg_density hT ht hc hd1
  have h2 := nonNeg_density hT ht hc hd2
  rw [preferred, rankOf, rankOf, Prod.Lex.toLex_lt_toLex, Bool.or_eq_true, Bool.and_eq_true,
    top_lt_iff h2 h1, top_eq_iff h2 h1, decide_eq_true_eq, OrderDual.toDual_lt_toDual,
    OrderDual.toDual_inj, eq_comm (a := top (density T tokenAware targets coverage d))]

theorem bestOf_spec : ∀ (cs : List (Candidate F)) (c : Candidate F),
    (∀ d ∈ c :: cs, Costed T tokenAware d) →
    bestOf T blake2b tokenAware targets coverage c cs ∈ c :: cs ∧ ∀ d ∈ c :: cs,
      rankOf T blake2b tokenAware targets coverage (bestOf T blake2b tokenAware targets coverage c cs) ≤
        rankOf T blake2b tokenAware targets coverage d
  | [], c, _ => by simp [bestOf]
  | d :: cs, c, h => by
    obtain ⟨hcc, hcd, hcs⟩ : Costed T tokenAware c ∧ Costed T tokenAware d ∧
        ∀ e ∈ cs, Costed T tokenAware e := by simpa using h
    have hstep : bestOf T blake2b tokenAware targets coverage c (d :: cs) =
        bestOf T blake2b tokenAware targets coverage
          (if preferred T blake2b tokenAware targets coverage d c then d else c) cs := rfl
    rw [hstep]
    split_ifs with hpref
    · obtain ⟨hmem, hle⟩ := bestOf_spec cs d (List.forall_mem_cons.mpr ⟨hcd, hcs⟩)
      refine ⟨List.mem_cons_of_mem _ hmem, List.forall_mem_cons.mpr ⟨?_, hle⟩⟩
      exact (hle d (List.mem_cons_self ..)).trans ((preferred_iff hT ht hc hcd hcc).mp hpref).le
    · obtain ⟨hmem, hle⟩ := bestOf_spec cs c (List.forall_mem_cons.mpr ⟨hcc, hcs⟩)
      rw [List.forall_mem_cons] at hle
      refine ⟨?_, List.forall_mem_cons.mpr ⟨hle.1, List.forall_mem_cons.mpr ⟨?_, hle.2⟩⟩⟩
      · rcases List.mem_cons.mp hmem with he | hmem
        · rw [he]
          exact List.mem_cons_self ..
        · exact List.mem_cons_of_mem _ (List.mem_cons_of_mem _ hmem)
      · rw [preferred_iff hT ht hc hcd hcc, not_lt] at hpref
        exact hle.1.trans hpref

omit hT ht hc in
theorem better_of_rank {st : Picked F} {c d : Candidate F}
    (h : rankOf T blake2b tokenAware targets coverage c ≤ rankOf T blake2b tokenAware targets coverage d)
    (hne : keyOf blake2b d ≠ keyOf blake2b c) :
    (problem T blake2b limits tokenAware targets).Better (coverage, st) c d := by
  rw [rankOf, rankOf, Prod.Lex.toLex_le_toLex] at h
  rcases h with hlt | ⟨he, hle⟩
  · exact Or.inl hlt
  · exact Or.inr ⟨(OrderDual.toDual_inj.mp he).symm, lt_of_le_of_ne hle hne.symm⟩

omit hc in
/-- **A plain run is a greedy run.** -/
theorem greedy_of_run : ∀ {n : ℕ} {coverage : List Num} {remaining : List (Candidate F)} {st : Picked F},
    Covers targets coverage → (∀ c ∈ remaining, Costed T tokenAware c) → remaining.length ≤ n →
    ∃ picks, Greedy (problem T blake2b limits tokenAware targets) (coverage, st) remaining picks ∧
      greedyRun T blake2b limits tokenAware targets n coverage remaining st = picks.foldl add st
  | 0, _, remaining, _, _, _, hlen => by
    rw [List.eq_nil_of_length_eq_zero (Nat.le_zero.mp hlen)]
    exact ⟨[], Greedy.stop (by simp), rfl⟩
  | n + 1, coverage, remaining, st, hc, hd, hlen => by
    unfold greedyRun
    split
    · next hnone =>
      refine ⟨[], Greedy.stop fun c hmem hf => ?_, rfl⟩
      have hin : c ∈ remaining.filter (fits limits st) := List.mem_filter.mpr ⟨hmem, hf⟩
      rw [hnone] at hin
      cases hin
    · next c cs hsome =>
      have hmem : ∀ d, d ∈ c :: cs ↔ d ∈ remaining ∧ fits limits st d = true := fun d => by
        rw [← hsome, List.mem_filter]
      have hcosted : ∀ d ∈ c :: cs, Costed T tokenAware d := fun d h => hd d ((hmem d).mp h).1
      obtain ⟨hbest, hle⟩ : bestOf T blake2b tokenAware targets coverage c cs ∈ c :: cs ∧ _ :=
        bestOf_spec hT ht hc cs c hcosted
      dsimp only
      set best := bestOf T blake2b tokenAware targets coverage c cs with hbestdef
      have hnb := nonNeg_density hT ht hc (hcosted best hbest)
      split_ifs with hstop
      · refine ⟨[], Greedy.stop fun d hdr hf => ?_, rfl⟩
        have hrank := hle d ((hmem d).mpr ⟨hdr, hf⟩)
        rw [rankOf, rankOf, Prod.Lex.toLex_le_toLex] at hrank
        have hvalue : top (density T tokenAware targets coverage d) ≤
            top (density T tokenAware targets coverage best) := by
          rcases hrank with hlt | ⟨he, -⟩
          · exact (OrderDual.toDual_lt_toDual.mp hlt).le
          · exact (OrderDual.toDual_inj.mp he).symm.le
        exact hvalue.trans ((top_le_iff hnb (nonNeg_fin le_rfl)).mp hstop)
      · obtain ⟨hbr, hbf⟩ := (hmem best).mp hbest
        have hpos : (0 : WithTop ℚ) < top (density T tokenAware targets coverage best) := by
          rw [top_le_iff hnb (nonNeg_fin le_rfl), not_le] at hstop
          exact hstop
        have hshort : (remaining.filter fun d => keyOf blake2b d ≠ keyOf blake2b best).length <
            remaining.length := by
          refine List.length_filter_lt_length_iff_exists.mpr ⟨best, hbr, by simp⟩
        set others := remaining.filter fun d => keyOf blake2b d ≠ keyOf blake2b best with hothers
        obtain ⟨picks, hg, he⟩ : ∃ picks, Greedy (problem T blake2b limits tokenAware targets)
            (cover T best targets coverage, add st best) others picks ∧ greedyRun T blake2b limits
              tokenAware targets n (cover T best targets coverage) others (add st best) =
                picks.foldl add (add st best) :=
          greedy_of_run (covers_cover hT ht hc best) (fun d hdm => hd d (List.mem_filter.mp hdm).1)
            (by omega)
        refine ⟨best :: picks, Greedy.pick hbr hbf hpos (fun d hdr hf hne => ?_) hg, he⟩
        exact better_of_rank (hle d ((hmem d).mpr ⟨hdr, hf⟩)) hne

end Plain

/-! ### The rows -/

/-- A number that is not negative, or a NaN. -/
def Loose (x : Num) : Prop := NonNeg x ∨ x = .nan

theorem loose_mul {x y : Num} (hx : NonNeg x) (hy : Loose y) : Loose (T.mul x y) := by
  rcases hy with hy | rfl
  · rcases nonNeg_iff.mp hx with rfl | ⟨p, hp, rfl⟩
    · rcases nonNeg_iff.mp hy with rfl | ⟨q, hq, rfl⟩
      · exact Or.inl hx
      · by_cases h0 : q = 0
        · exact Or.inr (by simp [FloatSys.mul, Num.neg?, h0])
        · refine Or.inl ?_
          have hmul : T.mul (.inf false) (.fin q) = .inf false := by
            simp [FloatSys.mul, Num.neg?, h0, hq]
          rw [hmul]
          exact hx
    · rcases nonNeg_iff.mp hy with rfl | ⟨q, hq, rfl⟩
      · by_cases h0 : p = 0
        · exact Or.inr (by simp [FloatSys.mul, Num.neg?, h0])
        · refine Or.inl ?_
          have hmul : T.mul (.fin p) (.inf false) = .inf false := by
            simp [FloatSys.mul, Num.neg?, h0, hp]
          rw [hmul]
          exact hy
      · exact Or.inl (nonNeg_lit (mul_nonneg hp hq))
  · have hnan : T.mul x .nan = .nan := by
      cases hx' : x with
      | fin q => by_cases h0 : q = 0 <;> simp [FloatSys.mul, Num.neg?, h0]
      | _ => rfl
    exact Or.inr hnan

theorem loose_add {x y : Num} (hx : Loose x) (hy : Loose y) : Loose (T.add x y) := by
  rcases hx with hx | rfl
  · rcases hy with hy | rfl
    · rcases nonNeg_iff.mp hy with rfl | ⟨q, hq, rfl⟩
      · rcases nonNeg_iff.mp hx with rfl | ⟨p, hp, rfl⟩
        · exact Or.inl hx
        · exact Or.inl hy
      · exact Or.inl (nonNeg_add hx hq)
    · exact Or.inr (by cases x <;> rfl)
  · exact Or.inr (by cases y <;> rfl)

theorem loose_div {x y : Num} (hx : NonNeg x) (hy : NonNeg y) : Loose (T.div x y) := by
  rcases nonNeg_iff.mp hx with rfl | ⟨p, hp, rfl⟩
  · rcases nonNeg_iff.mp hy with rfl | ⟨q, hq, rfl⟩
    · exact Or.inr rfl
    · refine Or.inl ?_
      have hdiv : T.div (.inf false) (.fin q) = .inf false := by simp [FloatSys.div, hq]
      rw [hdiv]
      exact hx
  · rcases nonNeg_iff.mp hy with rfl | ⟨q, hq, rfl⟩
    · exact Or.inl (nonNeg_fin le_rfl)
    · exact Or.inl (nonNeg_lit (div_nonneg hp hq))

theorem nonNeg_positive (x : Num) : NonNeg (positive x) := by
  unfold positive
  split_ifs with h
  · exact Num.le_of_lt h
  · exact nonNeg_fin le_rfl

theorem nonNeg_maxScore (items : List (ContextItem F)) : NonNeg (maxScore T items) := by
  have hfold : ∀ (xs : List Num) (m : Num), NonNeg m → (∀ x ∈ xs, NonNeg x) →
      NonNeg (xs.foldl (fun m x => if m.lt x then x else m) m) := by
    intro xs
    induction xs with
    | nil => exact fun _ hm _ => hm
    | cons x xs ih =>
      intro m hm hxs
      obtain ⟨hx, hxs⟩ := List.forall_mem_cons.mp hxs
      rw [List.foldl_cons]
      split_ifs
      · exact ih x hx hxs
      · exact ih m hm hxs
  unfold maxScore
  dsimp only
  split_ifs
  · exact nonNeg_fin zero_le_one
  · have hall : ∀ x ∈ items.map fun item => positive (T.view item.score), NonNeg x := by
      rw [List.forall_mem_map]
      exact fun item _ => nonNeg_positive _
    refine hfold _ _ ?_ hall
    cases items with
    | nil => exact nonNeg_fin zero_le_one
    | cons item items => exact nonNeg_positive _

/-- **Every relevance is between zero and one**, whatever the scores are. -/
theorem rated_candidateOf (hT : Stable T) (queryTokens : List String) {best : Num} (hb : NonNeg best)
    (item : ContextItem F) : Rated (candidateOf T tokenize queryTokens best item) := by
  show Unit (if (T.add _ _).lt (.fin 1) then T.add _ _ else .fin 1)
  have hsource : Loose (T.div (positive (T.view item.score)) best) := loose_div (nonNeg_positive _) hb
  have hlexical := (unit_jaccard hT queryTokens (tokenize item.text).dedup).nonNeg
  have hmixed : Loose (T.add (T.mul (T.lit (65 / 100)) (T.div (positive (T.view item.score)) best))
      (T.mul (T.lit (35 / 100)) (jaccard T queryTokens (tokenize item.text).dedup))) :=
    loose_add (loose_mul (nonNeg_lit (by norm_num)) hsource)
      (loose_mul (nonNeg_lit (by norm_num)) (Or.inl hlexical))
  split_ifs with hlt
  · rcases hmixed with hn | hnan
    · rcases nonNeg_iff.mp hn with hinf | ⟨q, hq, hfin⟩
      · rw [hinf] at hlt
        cases hlt
      · rw [hfin, Num.lt_fin, decide_eq_true_eq] at hlt
        exact ⟨q, hfin, hq, hlt.le⟩
    · rw [hnan] at hlt
      cases hlt
  · exact ⟨1, rfl, zero_le_one, le_rfl⟩

theorem mem_rowsOf {query : String} {items : List (ContextItem F)} {limit : ℕ} {sources : List String}
    {limits : Limits} {c : Candidate F} (h : c ∈ rowsOf T blake2b tokenize query items limit sources limits) :
    c ∈ candidates T blake2b tokenize query items :=
  (bounded_spec (@candidates_spec F T blake2b tokenize query items).1).2 c h

theorem rated_rowsOf (hT : Stable T) {query : String} {items : List (ContextItem F)} {limit : ℕ}
    {sources : List String} {limits : Limits} :
    ∀ c ∈ rowsOf T blake2b tokenize query items limit sources limits, Rated c := by
  intro c hc
  obtain ⟨item, -, rfl⟩ := List.mem_map.mp (mem_rowsOf hc)
  exact rated_candidateOf hT _ (nonNeg_maxScore _) item

theorem cost_pos {query : String} {items : List (ContextItem F)} {c : Candidate F}
    (h : c ∈ candidates T blake2b tokenize query items) (tokenAware : Bool) :
    1 ≤ activeCost tokenAware c := by
  obtain ⟨item, -, rfl⟩ := List.mem_map.mp h
  cases tokenAware
  · exact le_max_left _ _
  · exact le_max_left _ _

/-- The costs of the rows are finite floats. -/
def FiniteCosts (T : FloatSys F) (tokenAware : Bool) (rows : List (Candidate F)) : Prop :=
  ∀ c ∈ rows, ∃ k, T.lit (activeCost tokenAware c) = .fin k

theorem costed_rowsOf (hT : Stable T) {query : String} {items : List (ContextItem F)} {limit : ℕ}
    {sources : List String} {limits : Limits} {tokenAware : Bool}
    (hf : FiniteCosts T tokenAware (rowsOf T blake2b tokenize query items limit sources limits)) :
    ∀ c ∈ rowsOf T blake2b tokenize query items limit sources limits, Costed T tokenAware c := by
  intro c hc
  obtain ⟨k, hk⟩ := hf c hc
  have hone : (1 : ℚ) ≤ activeCost tokenAware c := by exact_mod_cast cost_pos (mem_rowsOf hc) tokenAware
  have hle := T.lit_mono hone
  rw [hT.one, hk, Num.le_fin, decide_eq_true_eq] at hle
  exact ⟨k, hk, by linarith⟩

theorem nodup_rowsOf {query : String} {items : List (ContextItem F)} {limit : ℕ} {sources : List String}
    {limits : Limits} :
    ((rowsOf T blake2b tokenize query items limit sources limits).map (keyOf blake2b)).Nodup :=
  (bounded_spec (@candidates_spec F T blake2b tokenize query items).1).1

/-! ### The run is the plain one -/

theorem choose_eq (limits : Limits) (rows : List (Candidate F)) (sources : List String) (tight : Num) :
    choose T blake2b limits rows sources tight =
      if isTight T limits rows tight then (ranked blake2b limits.tokens.isSome
        (leftOver blake2b rows (mandatoryRun blake2b limits sources rows))).foldl
          (relevanceStep limits) (mandatoryRun blake2b limits sources rows)
      else facility T blake2b limits limits.tokens.isSome rows
        (leftOver blake2b rows (mandatoryRun blake2b limits sources rows))
        (mandatoryRun blake2b limits sources rows) := rfl

/-- The run has rounds enough. -/
theorem facility_run (limits : Limits) (tokenAware : Bool) (targets remaining : List (Candidate F))
    (st : Picked F) : facilityLoop T blake2b limits tokenAware targets (enough remaining.length)
      (remaining.map (boundOf T blake2b tokenAware targets (startCoverage T targets st) 0)) 0
      (startCoverage T targets st) st = some (facility T blake2b limits tokenAware targets remaining st) := by
  set heap := remaining.map (boundOf T blake2b tokenAware targets (startCoverage T targets st) 0)
    with hheap
  have hall : ∀ b ∈ heap, b.epoch = 0 ∧
      b.neg = (density T tokenAware targets (startCoverage T targets st) b.candidate).negate := by
    rw [hheap, List.forall_mem_map]
    exact fun c _ => ⟨rfl, rfl⟩
  have hstale : stale 0 heap ≤ heap.length := List.countP_le_length
  have hlen : heap.length = remaining.length := List.length_map ..
  have hrun : ∃ st', facilityLoop T blake2b limits tokenAware targets (enough remaining.length) heap 0
      (startCoverage T targets st) st = some st' :=
    facility_ends (fun b hb _ => (hall b hb).2) (fun b hb => (hall b hb).1.le) (by
      rw [hlen] at hstale ⊢
      unfold enough
      omega)
  obtain ⟨st', hst⟩ := hrun
  have hf : facility T blake2b limits tokenAware targets remaining st = (facilityLoop T blake2b limits
      tokenAware targets (enough remaining.length) heap 0 (startCoverage T targets st) st).getD st := rfl
  rw [hf, hst, Option.getD_some]

section Lazy
variable (hT : Stable T) {limits : Limits} {tokenAware : Bool} {targets remaining : List (Candidate F)}
  (ht : ∀ t ∈ targets, Rated t) (hd : ∀ c ∈ remaining, Costed T tokenAware c)
  (hkeys : (remaining.map (keyOf blake2b)).Nodup)
include hT ht hd hkeys

/-- The facility location run chooses what a greedy run takes. -/
theorem greedy_of_facility (st : Picked F) : ∃ picks,
    Greedy (problem T blake2b limits tokenAware targets) (startCoverage T targets st, st) remaining picks ∧
      facility T blake2b limits tokenAware targets remaining st = picks.foldl add st ∧
      (picks.foldl (problem T blake2b limits tokenAware targets).take
        (startCoverage T targets st, st)).2 = picks.foldl add st := by
  have hc := covers_startCoverage hT ht st
  set coverage := startCoverage T targets st
  set heap := remaining.map (boundOf T blake2b tokenAware targets coverage 0) with hheap
  have hsound : ∀ b ∈ heap, Sound blake2b b := by
    rw [hheap, List.forall_mem_map]
    exact fun c hmem => sound_boundOf hT ht hc 0 (hd c hmem)
  have hcosted : ∀ b ∈ heap, Costed T tokenAware b.candidate := by
    rw [hheap, List.forall_mem_map]
    exact hd
  obtain ⟨picks, hlazy, he, he'⟩ := lazy_of_loop hT ht hc hsound hcosted
    (facility_run limits tokenAware targets remaining st)
  have hitems : (heap.map entryOf).map Entry.item = remaining := by
    rw [hheap, List.map_map, List.map_map]
    exact List.map_id _
  have hvalue : ∀ c, entryOf (boundOf T blake2b tokenAware targets coverage 0 c) =
      ⟨top (density T tokenAware targets coverage c), 0, c⟩ := by
    intro c
    rw [entryOf, boundOf, negate_negate]
  have hbounded : ControlPlane.Lib.LazyGreedy.Bounded (problem T blake2b limits tokenAware targets) (Costed T tokenAware) 0
      (coverage, st) (heap.map entryOf) := by
    have hall : ∀ e ∈ heap.map entryOf, ∃ c ∈ remaining,
        e = ⟨top (density T tokenAware targets coverage c), 0, c⟩ := by
      intro e he
      rw [hheap, List.map_map] at he
      obtain ⟨c, hmem, rfl⟩ := List.mem_map.mp he
      exact ⟨c, hmem, hvalue c⟩
    refine ⟨fun e he => ?_, fun e he => ?_, fun e he => ?_, fun e he _ => ?_, ?_⟩
    · obtain ⟨c, hmem, rfl⟩ := hall e he
      exact hd c hmem
    · obtain ⟨c, -, rfl⟩ := hall e he
      exact le_rfl
    · obtain ⟨c, -, rfl⟩ := hall e he
      exact le_rfl
    · obtain ⟨c, -, rfl⟩ := hall e he
      rfl
    · have hk : (heap.map entryOf).map (fun e => keyOf blake2b e.item) =
          remaining.map (keyOf blake2b) := by
        conv_rhs => rw [← hitems, List.map_map]
        rfl
      show ((heap.map entryOf).map fun e => keyOf blake2b e.item).Nodup
      rw [hk]
      exact hkeys
  have hgreedy := hlazy.greedy (shrinks hT ht) hc hbounded
  rw [hitems] at hgreedy
  exact ⟨picks, hgreedy, he, he'.trans he⟩

omit hT ht hd in
theorem key_inj : ∀ c ∈ remaining, ∀ d ∈ remaining, keyOf blake2b c = keyOf blake2b d → c = d :=
  fun _ hc _ hd he => List.inj_on_of_nodup_map hkeys hc hd he

/-- **The facility location run chooses what the plain greedy run chooses.** -/
theorem facility_eq_plain (st : Picked F) : facility T blake2b limits tokenAware targets remaining st =
    greedyRun T blake2b limits tokenAware targets remaining.length (startCoverage T targets st)
      remaining st := by
  obtain ⟨picks, hg, he, -⟩ := @greedy_of_facility F T blake2b hT limits tokenAware targets remaining ht
    hd hkeys st
  obtain ⟨picks', hg', he'⟩ : ∃ picks, Greedy (problem T blake2b limits tokenAware targets)
      (startCoverage T targets st, st) remaining picks ∧ greedyRun T blake2b limits tokenAware targets
        remaining.length (startCoverage T targets st) remaining st = picks.foldl add st :=
    greedy_of_run hT ht (covers_startCoverage hT ht st) hd le_rfl
  rw [he, he', hg.unique (key_inj hkeys) hg']

end Lazy

theorem nodup_leftOver {rows : List (Candidate F)} (h : (rows.map (keyOf blake2b)).Nodup) (st : Picked F) :
    ((leftOver blake2b rows st).map (keyOf blake2b)).Nodup := h.sublist (List.filter_sublist.map _)

/-- **In exact arithmetic the facility location run ends, and it chooses what the plain greedy run
chooses.** -/
theorem facility_eq_greedy (hT : Exact T) (query : String) (items : List (ContextItem F)) (limit : ℕ)
    (sources : List String) (limits : Limits) (tight : Num) :
    let tokenAware := limits.tokens.isSome
    let rows := rowsOf T blake2b tokenize query items limit sources limits
    let st := mandatoryRun blake2b limits sources rows
    let remaining := leftOver blake2b rows st
    let coverage := startCoverage T rows st
    isTight T limits rows tight = false →
      facilityLoop T blake2b limits tokenAware rows (enough remaining.length)
          (remaining.map (boundOf T blake2b tokenAware rows coverage 0)) 0 coverage st =
        some (choose T blake2b limits rows sources tight) ∧
      choose T blake2b limits rows sources tight =
        greedyRun T blake2b limits tokenAware rows remaining.length coverage remaining st := by
  intro tokenAware rows st remaining coverage htight
  have hfinite : FiniteCosts T tokenAware rows := fun c _ => ⟨_, hT _⟩
  have hrated : ∀ c ∈ rows, Rated c := rated_rowsOf hT.stable
  have hcosted : ∀ c ∈ remaining, Costed T tokenAware c :=
    fun c hc => costed_rowsOf hT.stable hfinite c (List.mem_filter.mp hc).1
  have hkeys : (remaining.map (keyOf blake2b)).Nodup := nodup_leftOver nodup_rowsOf st
  have hchoose : choose T blake2b limits rows sources tight =
      facility T blake2b limits tokenAware rows remaining st := by
    rw [choose_eq, htight]
    rfl
  rw [hchoose]
  exact ⟨facility_run limits tokenAware rows remaining st,
    facility_eq_plain hT.stable hrated hcosted hkeys st⟩

/-- Two items over the rationals. -/
def twoItems : List (ContextItem ℚ) :=
  [⟨"docs", "alpha", 1, false, [], [], none⟩, ⟨"code", "beta", 1 / 2, false, [], [], none⟩]

theorem facility_eq_greedy_two :
    let rows := rowsOf rationals id (fun s => [s]) "alpha" twoItems 200 [] ⟨100, none⟩
    isTight rationals ⟨100, none⟩ rows (.fin (3 / 10)) = false ∧
      choose rationals id ⟨100, none⟩ rows [] (.fin (3 / 10)) =
        greedyRun rationals id ⟨100, none⟩ false rows 2 (startCoverage rationals rows ⟨[], 0, 0⟩) rows
          ⟨[], 0, 0⟩ := by
  have htight : isTight rationals ⟨100, none⟩ (rowsOf rationals id (fun s => [s]) "alpha" twoItems 200 []
      ⟨100, none⟩) (.fin (3 / 10)) = false := by decide +kernel
  exact ⟨htight, (facility_eq_greedy exact_rationals "alpha" twoItems 200 [] ⟨100, none⟩ (.fin (3 / 10))
    htight).2⟩

end ControlPlane.Retrieval.Greedy
