import ControlPlane.Retrieval.Budget
import Mathlib.Tactic.Ring

/-! # The selection of context

`selectContext` chooses among the candidates within a budget of characters and one of tokens: first those
of mandatory sources, then, if the budget is tight, by relevance, else by a lazy greedy run for a
facility location objective, whose bounds wait in a heap (`facilityLoop`).

`within_selectContext`: what is chosen is within both budgets and has no dedupe key twice. The run ends:
a bound that is looked at is renewed at most once between two choices (`facility_ends`). How a text is
cut into tokens is a parameter. -/

namespace ControlPlane.Retrieval.Selection

open ControlPlane.Lib.Value ControlPlane.Lib.Floats ControlPlane.Lib.Dynamic
open ControlPlane.Environment ControlPlane.Retrieval.Items ControlPlane.Retrieval.Budget

variable {F : Type}

structure Candidate (F : Type) where
  item : ContextItem F
  relevance : Num
  tokens : List String
  charCost : ℕ
  tokenCost : ℕ

variable (T : FloatSys F) (blake2b : String → String) (tokenize : String → List String)

/-- The dedupe key of a candidate. -/
def keyOf (c : Candidate F) : String := dedupeKey blake2b c.item

/-! ### Candidates -/

/-- The share of common elements of two sets. -/
def jaccard (a b : List String) : Num :=
  if a.isEmpty || b.isEmpty then .fin 0
  else T.lit ((a.filter b.contains).length / (a.length + (b.filter fun x => !a.contains x).length))

/-- The items whose key has not been seen before. -/
def dedupeFrom (seen : List String) : List (ContextItem F) → List (ContextItem F)
  | [] => []
  | item :: items =>
    let key := dedupeKey blake2b item
    if key ∈ seen then dedupeFrom seen items else item :: dedupeFrom (key :: seen) items

def dedupe (items : List (ContextItem F)) : List (ContextItem F) := dedupeFrom blake2b [] items

/-- `max(0.0, x)`. -/
def positive (x : Num) : Num := if (Num.fin 0).lt x then x else .fin 0

/-- The greatest score, or one if it is zero. -/
def maxScore (items : List (ContextItem F)) : Num :=
  let scores := items.map fun item => positive (T.view item.score)
  let best := scores.foldl (fun m x => if m.lt x then x else m) (scores.headD (.fin 1))
  if best.eq (.fin 0) then .fin 1 else best

/-- The candidate made of an item. -/
def candidateOf (queryTokens : List String) (best : Num) (item : ContextItem F) : Candidate F :=
  let tokens := (tokenize item.text).dedup
  let source := T.div (positive (T.view item.score)) best
  let mixed := T.add (T.mul (T.lit (65 / 100)) source)
    (T.mul (T.lit (35 / 100)) (jaccard T queryTokens tokens))
  { item := item
    relevance := if mixed.lt (.fin 1) then mixed else .fin 1
    tokens := tokens
    charCost := max 1 item.text.length
    tokenCost := max 1 (estimateTokens item.text) }

def candidates (query : String) (items : List (ContextItem F)) : List (Candidate F) :=
  let unique := dedupe blake2b items
  unique.map (candidateOf T tokenize (tokenize query).dedup (maxScore T unique))

def activeCost (tokenAware : Bool) (c : Candidate F) : ℕ := if tokenAware then c.tokenCost else c.charCost

/-- The order by falling relevance, then by cost, source and key. -/
def rankLE (tokenAware : Bool) (a b : Candidate F) : Bool :=
  let x := a.relevance.negate
  let y := b.relevance.negate
  let rest := decide (a.item.source < b.item.source) ||
    (a.item.source == b.item.source && decide (keyOf blake2b a ≤ keyOf blake2b b))
  x.lt y || (x.eq y && (decide (activeCost tokenAware a < activeCost tokenAware b) ||
    (activeCost tokenAware a == activeCost tokenAware b && rest)))

def ranked (tokenAware : Bool) (rows : List (Candidate F)) : List (Candidate F) :=
  rows.insertionSort fun a b => rankLE blake2b tokenAware a b = true

/-- At most `limit` rows, those of mandatory sources first. -/
def bounded (rows : List (Candidate F)) (limit : ℕ) (mandatorySources : List String)
    (tokenAware : Bool) : List (Candidate F) :=
  if rows.length ≤ limit then rows
  else
    let mandatory := rows.filter fun row => mandatorySources.contains row.item.source
    let mandatoryKeys := mandatory.map (keyOf blake2b)
    let others := rows.filter fun row => !mandatoryKeys.contains (keyOf blake2b row)
    mandatory ++ (ranked blake2b tokenAware others).take (limit - mandatory.length)

/-! ### Choosing -/

/-- What has been chosen, and what it costs. -/
structure Picked (F : Type) where
  selected : List (Candidate F)
  usedChars : ℕ
  usedTokens : ℕ

/-- The budgets. -/
structure Limits where
  chars : ℤ
  tokens : Option ℤ

def fits (limits : Limits) (st : Picked F) (c : Candidate F) : Bool :=
  !decide (limits.chars < st.usedChars + c.charCost) &&
    match limits.tokens with
    | some tokens => !decide (tokens < st.usedTokens + c.tokenCost)
    | none => true

def add (st : Picked F) (c : Candidate F) : Picked F :=
  ⟨st.selected ++ [c], st.usedChars + c.charCost, st.usedTokens + c.tokenCost⟩

/-- One round of the loop over mandatory sources. -/
def mandatoryStep (limits : Limits) (mandatorySources : List String) (st : Picked F)
    (c : Candidate F) : Picked F :=
  if !mandatorySources.contains c.item.source then st
  else if (st.selected.map (keyOf blake2b)).contains (keyOf blake2b c) || !fits limits st c then st
  else add st c

/-- One round of the loop by relevance. -/
def relevanceStep (limits : Limits) (st : Picked F) (c : Candidate F) : Picked F :=
  if fits limits st c then add st c else st

/-! ### The lazy greedy run -/

/-- How well a candidate represents another. -/
def represented (target c : Candidate F) : Num := T.mul target.relevance (jaccard T target.tokens c.tokens)

/-- What a candidate adds to the coverage of the rows. -/
def gain (c : Candidate F) (targets : List (Candidate F)) (coverage : List Num) : Num :=
  (targets.zip coverage).foldl (fun total row =>
    if row.2.lt (represented T row.1 c) then T.add total (T.sub (represented T row.1 c) row.2)
    else total) (.fin 0)

/-- The coverage with a candidate. -/
def cover (c : Candidate F) (targets : List (Candidate F)) (coverage : List Num) : List Num :=
  (targets.zip coverage).map fun row =>
    if row.2.lt (represented T row.1 c) then represented T row.1 c else row.2

/-- The gain of a candidate by its cost. -/
def density (tokenAware : Bool) (targets : List (Candidate F)) (coverage : List Num)
    (c : Candidate F) : Num :=
  T.div (gain T c targets coverage) (T.lit (activeCost tokenAware c))

/-- An entry of the heap: the negated bound, the key, the choice it was made after and the candidate. -/
structure Bound (F : Type) where
  neg : Num
  key : String
  epoch : ℕ
  candidate : Candidate F

/-- The order of the heap. -/
def Bound.before (a b : Bound F) : Bool :=
  a.neg.lt b.neg || (a.neg.eq b.neg &&
    (decide (a.key < b.key) || (a.key == b.key && decide (a.epoch < b.epoch))))

/-- The first entry of a heap and the others. -/
def popFrom (best : Bound F) : List (Bound F) → Bound F × List (Bound F)
  | [] => (best, [])
  | b :: bs =>
    if b.before best then
      let (first, rest) := popFrom b bs
      (first, best :: rest)
    else
      let (first, rest) := popFrom best bs
      (first, b :: rest)

/-- The entry of a candidate. -/
def boundOf (tokenAware : Bool) (targets : List (Candidate F)) (coverage : List Num) (epoch : ℕ)
    (c : Candidate F) : Bound F :=
  ⟨(density T tokenAware targets coverage c).negate, keyOf blake2b c, epoch, c⟩

/-- The loop over the heap, for at most `fuel` rounds. -/
def facilityLoop (limits : Limits) (tokenAware : Bool) (targets : List (Candidate F)) :
    ℕ → List (Bound F) → ℕ → List Num → Picked F → Option (Picked F)
  | 0, _, _, _, _ => none
  | _ + 1, [], _, _, st => some st
  | fuel + 1, b :: bs, epoch, coverage, st =>
    let (first, rest) := popFrom b bs
    let c := first.candidate
    if !fits limits st c then facilityLoop limits tokenAware targets fuel rest epoch coverage st
    else
      let current := density T tokenAware targets coverage c
      if first.epoch ≠ epoch ∨ (T.lit (1 / 10 ^ 12)).lt (T.add current first.neg).abs = true then
        facilityLoop limits tokenAware targets fuel
          (boundOf T blake2b tokenAware targets coverage epoch c :: rest) epoch coverage st
      else if current.le (.fin 0) then some st
      else
        facilityLoop limits tokenAware targets fuel rest (epoch + 1) (cover T c targets coverage)
          (add st c)

/-- Enough rounds for a heap. -/
def enough (n : ℕ) : ℕ := n * (n + 1) + n + 1

/-- The lazy greedy run over the remaining rows. -/
def facility (limits : Limits) (tokenAware : Bool) (targets remaining : List (Candidate F))
    (st : Picked F) : Picked F :=
  let coverage := st.selected.foldl (fun coverage c => cover T c targets coverage)
    (targets.map fun _ => .fin 0)
  let heap := remaining.map (boundOf T blake2b tokenAware targets coverage 0)
  (facilityLoop T blake2b limits tokenAware targets (enough remaining.length) heap 0 coverage st).getD st

/-! ### The selector -/

variable (E : Env F)

/-- `max(1, int(limit))`, or 200 if it is no integer. -/
def candidateLimit (selector : Dict F) : Py ℤ :=
  match E.toInt ((lookup "max_selector_candidates" selector).getD (.int 200)) with
  | .ok n => .ok (max 1 n)
  | .error (.typeError _) => .ok 200
  | .error (.valueError _) => .ok 200
  | .error e => .error e

/-- The choice among bounded rows. -/
def choose (limits : Limits) (rows : List (Candidate F)) (mandatorySources : List String)
    (tightFraction : Num) : Picked F :=
  let tokenAware := limits.tokens.isSome
  let st := rows.foldl (mandatoryStep blake2b limits mandatorySources) ⟨[], 0, 0⟩
  let remaining := rows.filter fun row =>
    !(st.selected.map (keyOf blake2b)).contains (keyOf blake2b row)
  let totalCost := (rows.map (activeCost tokenAware)).sum
  let ratio := T.lit ((limits.tokens.getD limits.chars : ℤ) / (max 1 totalCost : ℕ))
  if ratio.le tightFraction then
    (ranked blake2b tokenAware remaining).foldl (relevanceStep limits) st
  else facility T blake2b limits tokenAware rows remaining st

def selectContext (query : String) (items : List (ContextItem F)) (charBudget : ℤ) (config : Dict F)
    (mandatorySources : List String) (budgetTokens : Option ℤ) : Py (List (ContextItem F)) := do
  let limits : Limits := ⟨max 0 charBudget, budgetTokens.map (max 0)⟩
  let selector := contextSection config "selector"
  let limit ← candidateLimit E selector
  let rows := bounded blake2b (candidates E.T blake2b tokenize query items) limit.toNat mandatorySources
    limits.tokens.isSome
  if rows.isEmpty || decide (limits.chars ≤ 0) || limits.tokens.any (fun t => decide (t ≤ 0)) then
    return []
  else
    let tight ← E.toFloat ((lookup "tight_budget_fraction" selector).getD (.float (E.T.ofRat (3 / 10))))
    return (choose E.T blake2b limits rows mandatorySources (E.T.view tight)).selected.map
      Candidate.item

/-! ### The invariant -/

variable {T blake2b tokenize E}

/-- The costs of a candidate cover its text. -/
def Priced (c : Candidate F) : Prop :=
  c.item.text.length ≤ c.charCost ∧ estimateTokens c.item.text ≤ c.tokenCost

variable (blake2b) in
/-- What has been chosen is within the limits, and no key occurs twice in it and in what is left. -/
structure Good (limits : Limits) (st : Picked F) (pool : List (Candidate F)) : Prop where
  chars : (st.selected.map Candidate.charCost).sum = st.usedChars
  tokens : (st.selected.map Candidate.tokenCost).sum = st.usedTokens
  charsLe : (st.usedChars : ℤ) ≤ limits.chars
  tokensLe : ∀ t, limits.tokens = some t → (st.usedTokens : ℤ) ≤ t
  fresh : ((st.selected ++ pool).map (keyOf blake2b)).Nodup
  priced : ∀ c ∈ st.selected ++ pool, Priced c

theorem fits_iff {limits : Limits} {st : Picked F} {c : Candidate F} :
    fits limits st c = true ↔ (st.usedChars + c.charCost : ℤ) ≤ limits.chars ∧
      ∀ t, limits.tokens = some t → (st.usedTokens + c.tokenCost : ℤ) ≤ t := by
  unfold fits
  cases limits.tokens <;> simp

theorem Good.add {limits : Limits} {st : Picked F} {c : Candidate F} {pool : List (Candidate F)}
    (h : Good blake2b limits st (c :: pool)) (hf : fits limits st c = true) :
    Good blake2b limits (Selection.add st c) pool := by
  obtain ⟨hc, ht⟩ := fits_iff.mp hf
  have happ : st.selected ++ [c] ++ pool = st.selected ++ c :: pool := by simp
  constructor
  · have := h.chars
    simp [Selection.add, this]
  · have := h.tokens
    simp [Selection.add, this]
  · simpa [Selection.add] using hc
  · intro t hl
    simpa [Selection.add] using ht t hl
  · rw [Selection.add, happ]
    exact h.fresh
  · rw [Selection.add, happ]
    exact h.priced

theorem Good.sublist {limits : Limits} {st : Picked F} {pool pool' : List (Candidate F)}
    (h : Good blake2b limits st pool) (hs : pool'.Sublist pool) : Good blake2b limits st pool' := by
  have hsub : (st.selected ++ pool').Sublist (st.selected ++ pool) := hs.append_left st.selected
  exact ⟨h.chars, h.tokens, h.charsLe, h.tokensLe, h.fresh.sublist (hsub.map _),
    fun c hc => h.priced c (hsub.subset hc)⟩

theorem Good.perm {limits : Limits} {st : Picked F} {pool pool' : List (Candidate F)}
    (h : Good blake2b limits st pool) (hp : pool'.Perm pool) : Good blake2b limits st pool' := by
  have hperm : (st.selected ++ pool').Perm (st.selected ++ pool) := hp.append_left st.selected
  exact ⟨h.chars, h.tokens, h.charsLe, h.tokensLe, (hperm.map _).nodup_iff.mpr h.fresh,
    fun c hc => h.priced c (hperm.subset hc)⟩

theorem good_relevance {limits : Limits} : ∀ {pool : List (Candidate F)} {st : Picked F},
    Good blake2b limits st pool → Good blake2b limits (pool.foldl (relevanceStep limits) st) []
  | [], st, h => h
  | c :: pool, st, h => by
    rw [List.foldl_cons, relevanceStep]
    split_ifs with hf
    · exact good_relevance (h.add hf)
    · exact good_relevance (h.sublist (List.sublist_cons_self c pool))

/-- One round of the loop over mandatory sources, where the key is looked up. -/
theorem good_mandatoryStep {limits : Limits} {sources : List String} {st : Picked F}
    {c : Candidate F} (h : Good blake2b limits st []) (hp : Priced c) :
    Good blake2b limits (mandatoryStep blake2b limits sources st c) [] := by
  unfold mandatoryStep
  split_ifs with h1 h2
  · exact h
  · exact h
  · rw [Bool.or_eq_true, not_or, List.contains_iff_mem, Bool.not_eq_true', Bool.not_eq_false] at h2
    refine Good.add ⟨h.chars, h.tokens, h.charsLe, h.tokensLe, ?_, ?_⟩ h2.2
    · have hfresh := h.fresh
      rw [List.append_nil] at hfresh
      rw [List.map_append, List.nodup_append]
      refine ⟨hfresh, by simp, ?_⟩
      intro a ha b hb hab
      rw [List.map_cons, List.map_nil, List.mem_singleton] at hb
      exact h2.1 (hb ▸ hab ▸ ha)
    · intro d hd
      rcases List.mem_append.mp hd with hd | hd
      · exact h.priced d (List.mem_append_left _ hd)
      · rw [List.mem_singleton.mp hd]
        exact hp

theorem good_mandatory {limits : Limits} {sources : List String} : ∀ {rows : List (Candidate F)}
    {st : Picked F}, (∀ c ∈ rows, Priced c) → Good blake2b limits st [] →
    Good blake2b limits (rows.foldl (mandatoryStep blake2b limits sources) st) []
  | [], st, _, h => h
  | c :: rows, st, hp, h => by
    rw [List.forall_mem_cons] at hp
    rw [List.foldl_cons]
    exact good_mandatory hp.2 (good_mandatoryStep h hp.1)

/-! ### The heap -/

theorem perm_popFrom : ∀ (best : Bound F) (bs : List (Bound F)),
    ((popFrom best bs).1 :: (popFrom best bs).2).Perm (best :: bs)
  | best, [] => List.Perm.refl _
  | best, b :: bs => by
    unfold popFrom
    split_ifs with hb
    · have ih := perm_popFrom b bs
      exact ((List.Perm.swap _ _ _).trans (ih.cons best))
    · have ih := perm_popFrom best bs
      exact ((List.Perm.swap _ _ _).trans ((ih.cons b).trans (List.Perm.swap _ _ _)))

theorem good_facilityLoop {limits : Limits} {tokenAware : Bool} {targets : List (Candidate F)} :
    ∀ {fuel : ℕ} {heap : List (Bound F)} {epoch : ℕ} {coverage : List Num} {st st' : Picked F},
    Good blake2b limits st (heap.map Bound.candidate) →
    facilityLoop T blake2b limits tokenAware targets fuel heap epoch coverage st = some st' →
    Good blake2b limits st' []
  | 0, _, _, _, _, _, _, h => by cases h
  | fuel + 1, [], _, _, st, st', hg, h => by
    cases h
    exact hg
  | fuel + 1, b :: bs, epoch, coverage, st, st', hg, h => by
    have hperm := perm_popFrom b bs
    have hpop : Good blake2b limits st
        ((popFrom b bs).1.candidate :: (popFrom b bs).2.map Bound.candidate) :=
      hg.perm (hperm.map Bound.candidate)
    unfold facilityLoop at h
    dsimp only at h
    split_ifs at h with hfits hstale hnone
    · exact good_facilityLoop (hpop.sublist (List.sublist_cons_self _ _)) h
    · have hrenewed : Good blake2b limits st ((boundOf T blake2b tokenAware targets coverage epoch
          (popFrom b bs).1.candidate :: (popFrom b bs).2).map Bound.candidate) := hpop
      exact good_facilityLoop hrenewed h
    · cases h
      exact hpop.sublist (List.nil_sublist _)
    · refine good_facilityLoop (hpop.add ?_) h
      simpa using hfits

/-- A number and its negation are as good as equal. -/
theorem cancels (x : Num) : (T.lit (1 / 10 ^ 12)).lt (T.add x x.negate).abs = false := by
  have hnan : ∀ y : Num, y.lt .nan = false := by
    intro y
    cases y <;> rfl
  cases x with
  | nan => exact hnan _
  | inf a => cases a <;> exact hnan _
  | fin q =>
    have hzero : (T.add (.fin q) (Num.negate (.fin q))).abs = T.lit 0 := by
      simp [FloatSys.add, Num.negate, FloatSys.lit, T.ofRat_zero, Num.abs]
    rw [hzero]
    exact Num.not_lt_of_le (T.lit_mono (by norm_num))

/-- The entries of the heap that were made before the last choice. -/
def stale (epoch : ℕ) (heap : List (Bound F)) : ℕ := heap.countP fun b => b.epoch ≠ epoch

variable (T) in
/-- An entry made after the last choice has the bound that the candidate has now. -/
def Current (tokenAware : Bool) (targets : List (Candidate F)) (coverage : List Num) (epoch : ℕ)
    (heap : List (Bound F)) : Prop :=
  ∀ b ∈ heap, b.epoch = epoch → b.neg = (density T tokenAware targets coverage b.candidate).negate

/-- **The run ends**: each round drops an entry or renews one made before the last choice. -/
theorem facility_ends {limits : Limits} {tokenAware : Bool} {targets : List (Candidate F)} :
    ∀ {fuel : ℕ} {heap : List (Bound F)} {epoch : ℕ} {coverage : List Num} {st : Picked F},
    Current T tokenAware targets coverage epoch heap → (∀ b ∈ heap, b.epoch ≤ epoch) →
    heap.length * (heap.length + 1) + stale epoch heap < fuel →
    ∃ st', facilityLoop T blake2b limits tokenAware targets fuel heap epoch coverage st = some st'
  | 0, heap, _, _, _, _, _, h => absurd h (Nat.not_lt_zero _)
  | fuel + 1, [], _, _, st, _, _, _ => ⟨st, rfl⟩
  | fuel + 1, b :: bs, epoch, coverage, st, hcur, hle, h => by
    have hperm := perm_popFrom b bs
    have hlen := hperm.length_eq
    have hstale : stale epoch ((popFrom b bs).1 :: (popFrom b bs).2) = stale epoch (b :: bs) :=
      hperm.countP_eq _
    have hcur' : Current T tokenAware targets coverage epoch
        ((popFrom b bs).1 :: (popFrom b bs).2) := fun c hc => hcur c (hperm.subset hc)
    have hle' : ∀ c ∈ (popFrom b bs).1 :: (popFrom b bs).2, c.epoch ≤ epoch :=
      fun c hc => hle c (hperm.subset hc)
    rw [← hstale, ← hlen] at h
    unfold facilityLoop
    dsimp only
    generalize popFrom b bs = popped at *
    obtain ⟨first, rest⟩ := popped
    dsimp only at *
    have hsquare : (rest.length + 1) * (rest.length + 1 + 1) =
        rest.length * (rest.length + 1) + 2 * rest.length + 2 := by ring
    rw [List.length_cons, hsquare] at h
    have hrest : stale epoch rest ≤ stale epoch (first :: rest) :=
      (List.sublist_cons_self first rest).countP_le
    split_ifs with hfits hstale' hnone
    · exact facility_ends (fun c hc => hcur' c (List.mem_cons_of_mem _ hc))
        (fun c hc => hle' c (List.mem_cons_of_mem _ hc)) (by omega)
    · have hold : first.epoch ≠ epoch := by
        intro he
        rcases hstale' with hne | hfar
        · exact hne he
        · rw [hcur' first (List.mem_cons_self ..) he, cancels] at hfar
          cases hfar
      have hone : stale epoch (first :: rest) = stale epoch rest + 1 :=
        List.countP_cons_of_pos (by simpa using hold)
      have hnew : stale epoch (boundOf T blake2b tokenAware targets coverage epoch first.candidate ::
          rest) = stale epoch rest :=
        List.countP_cons_of_neg (by simp [boundOf])
      refine facility_ends ?_ ?_ ?_
      · intro c hc he
        rcases List.mem_cons.mp hc with rfl | hc
        · rfl
        · exact hcur' c (List.mem_cons_of_mem _ hc) he
      · intro c hc
        rcases List.mem_cons.mp hc with rfl | hc
        · exact le_rfl
        · exact hle' c (List.mem_cons_of_mem _ hc)
      · rw [hnew, List.length_cons, hsquare]
        omega
    · exact ⟨st, rfl⟩
    · have hcount : stale (epoch + 1) rest ≤ rest.length := List.countP_le_length
      refine facility_ends ?_ ?_ (by omega)
      · intro c hc he
        have := hle' c (List.mem_cons_of_mem _ hc)
        omega
      · intro c hc
        have := hle' c (List.mem_cons_of_mem _ hc)
        omega

/-- The run has rounds enough for the heap it starts with. -/
theorem facility_eq (limits : Limits) (tokenAware : Bool) (targets remaining : List (Candidate F))
    (st : Picked F) :
    ∃ coverage, facilityLoop T blake2b limits tokenAware targets (enough remaining.length)
      (remaining.map (boundOf T blake2b tokenAware targets coverage 0)) 0 coverage st =
        some (facility T blake2b limits tokenAware targets remaining st) := by
  refine ⟨st.selected.foldl (fun coverage c => cover T c targets coverage)
    (targets.map fun _ => .fin 0), ?_⟩
  set coverage := st.selected.foldl (fun coverage c => cover T c targets coverage)
    (targets.map fun _ => .fin 0) with hcoverage
  obtain ⟨st', hst⟩ : ∃ st', facilityLoop T blake2b limits tokenAware targets
      (enough remaining.length) (remaining.map (boundOf T blake2b tokenAware targets coverage 0)) 0
      coverage st = some st' := by
    refine facility_ends ?_ ?_ ?_
    · intro b hb _
      obtain ⟨c, -, rfl⟩ := List.mem_map.mp hb
      rfl
    · intro b hb
      obtain ⟨c, -, rfl⟩ := List.mem_map.mp hb
      exact le_rfl
    · have hcount : stale 0 (remaining.map (boundOf T blake2b tokenAware targets coverage 0)) ≤
          (remaining.map (boundOf T blake2b tokenAware targets coverage 0)).length :=
        List.countP_le_length
      rw [List.length_map] at hcount ⊢
      unfold enough
      omega
  rw [hst, facility, ← hcoverage, hst]
  rfl

/-! ### What is chosen -/

theorem dedupe_subset : ∀ (items : List (ContextItem F)) (seen : List String),
    ∀ item ∈ dedupeFrom blake2b seen items, item ∈ items
  | [], _, _, h => by cases h
  | first :: items, seen, item, h => by
    unfold dedupeFrom at h
    dsimp only at h
    split_ifs at h
    · exact List.mem_cons_of_mem _ (dedupe_subset items _ item h)
    · rcases List.mem_cons.mp h with rfl | h
      · exact List.mem_cons_self ..
      · exact List.mem_cons_of_mem _ (dedupe_subset items _ item h)

theorem dedupeFrom_spec : ∀ (items : List (ContextItem F)) (seen : List String),
    ((dedupeFrom blake2b seen items).map (dedupeKey blake2b)).Nodup ∧
      ∀ item ∈ dedupeFrom blake2b seen items, dedupeKey blake2b item ∉ seen
  | [], _ => by simp [dedupeFrom]
  | item :: items, seen => by
    unfold dedupeFrom
    dsimp only
    split_ifs with hkey
    · exact dedupeFrom_spec items seen
    · obtain ⟨hnodup, hseen⟩ := dedupeFrom_spec items (dedupeKey blake2b item :: seen)
      constructor
      · rw [List.map_cons, List.nodup_cons]
        refine ⟨fun hmem => ?_, hnodup⟩
        obtain ⟨other, hother, he⟩ := List.mem_map.mp hmem
        exact hseen other hother (he ▸ List.mem_cons_self ..)
      · intro other hother
        rcases List.mem_cons.mp hother with rfl | hother
        · exact hkey
        · exact fun hmem => hseen other hother (List.mem_cons_of_mem _ hmem)

theorem candidates_spec (query : String) (items : List (ContextItem F)) :
    ((candidates T blake2b tokenize query items).map (keyOf blake2b)).Nodup ∧
      ∀ c ∈ candidates T blake2b tokenize query items, Priced c := by
  constructor
  · rw [candidates, List.map_map]
    exact (dedupeFrom_spec items []).1
  · intro c hc
    obtain ⟨item, -, rfl⟩ := List.mem_map.mp hc
    exact ⟨le_max_right _ _, le_max_right _ _⟩

theorem perm_ranked (tokenAware : Bool) (rows : List (Candidate F)) :
    (ranked blake2b tokenAware rows).Perm rows := List.perm_insertionSort _ rows

theorem bounded_spec {rows : List (Candidate F)} {limit : ℕ} {sources : List String}
    {tokenAware : Bool} (h : (rows.map (keyOf blake2b)).Nodup) :
    ((bounded blake2b rows limit sources tokenAware).map (keyOf blake2b)).Nodup ∧
      ∀ c ∈ bounded blake2b rows limit sources tokenAware, c ∈ rows := by
  unfold bounded
  split_ifs
  · exact ⟨h, fun c hc => hc⟩
  · dsimp only
    set mandatory := rows.filter fun row => sources.contains row.item.source
    set others := rows.filter fun row =>
      !(mandatory.map (keyOf blake2b)).contains (keyOf blake2b row) with hothers
    have htake : ((ranked blake2b tokenAware others).take (limit - mandatory.length)).Sublist
        (ranked blake2b tokenAware others) := List.take_sublist _ _
    have hmem : ∀ c ∈ (ranked blake2b tokenAware others).take (limit - mandatory.length),
        c ∈ others := fun c hc => (perm_ranked tokenAware others).subset (htake.subset hc)
    constructor
    · rw [List.map_append, List.nodup_append]
      refine ⟨h.sublist (List.filter_sublist.map _), ?_, ?_⟩
      · refine List.Nodup.sublist (htake.map _) ?_
        rw [((perm_ranked tokenAware others).map _).nodup_iff]
        exact h.sublist (List.filter_sublist.map _)
      · intro a ha b hb hab
        obtain ⟨c, hc, rfl⟩ := List.mem_map.mp hb
        have := (List.mem_filter.mp (hmem c hc)).2
        rw [Bool.not_eq_true', ← Bool.not_eq_true, List.contains_iff_mem] at this
        exact this (hab ▸ ha)
    · intro c hc
      rcases List.mem_append.mp hc with hc | hc
      · exact (List.mem_filter.mp hc).1
      · exact (List.mem_filter.mp (hmem c hc)).1

theorem good_choose {limits : Limits} {rows : List (Candidate F)} {sources : List String} {tight : Num}
    (hchars : 0 ≤ limits.chars) (htokens : ∀ t, limits.tokens = some t → 0 ≤ t)
    (hkeys : (rows.map (keyOf blake2b)).Nodup) (hpriced : ∀ c ∈ rows, Priced c) :
    Good blake2b limits (choose T blake2b limits rows sources tight) [] := by
  have hstart : Good blake2b limits (⟨[], 0, 0⟩ : Picked F) [] := by
    refine ⟨rfl, rfl, by simpa using hchars, fun t ht => by simpa using htokens t ht, ?_, ?_⟩ <;> simp
  unfold choose
  dsimp only
  have hst : Good blake2b limits (rows.foldl (mandatoryStep blake2b limits sources) ⟨[], 0, 0⟩) [] :=
    good_mandatory hpriced hstart
  set st := rows.foldl (mandatoryStep blake2b limits sources) ⟨[], 0, 0⟩
  set remaining := rows.filter fun row =>
    !(st.selected.map (keyOf blake2b)).contains (keyOf blake2b row) with hremaining
  have hgood : Good blake2b limits st remaining := by
    refine ⟨hst.chars, hst.tokens, hst.charsLe, hst.tokensLe, ?_, ?_⟩
    · have hfresh := hst.fresh
      rw [List.append_nil] at hfresh
      rw [List.map_append, List.nodup_append]
      refine ⟨hfresh, hkeys.sublist (List.filter_sublist.map _), ?_⟩
      intro a ha b hb hab
      obtain ⟨c, hc, rfl⟩ := List.mem_map.mp hb
      have := (List.mem_filter.mp hc).2
      rw [Bool.not_eq_true', ← Bool.not_eq_true, List.contains_iff_mem] at this
      exact this (hab ▸ ha)
    · intro c hc
      rcases List.mem_append.mp hc with hc | hc
      · exact hst.priced c (List.mem_append_left _ hc)
      · exact hpriced c (List.mem_filter.mp hc).1
  split_ifs
  · exact good_relevance (hgood.perm (perm_ranked _ remaining))
  · obtain ⟨coverage, hrun⟩ := @facility_eq F T blake2b limits limits.tokens.isSome rows remaining st
    refine good_facilityLoop ?_ hrun
    rw [List.map_map]
    have hid : remaining.map (Bound.candidate ∘ boundOf T blake2b limits.tokens.isSome rows coverage 0) =
        remaining := List.map_id _
    rw [hid]
    exact hgood

theorem sum_le_sum_map {α : Type} {f g : α → ℕ} : ∀ {xs : List α}, (∀ x ∈ xs, f x ≤ g x) →
    (xs.map f).sum ≤ (xs.map g).sum
  | [], _ => le_rfl
  | x :: xs, h => by
    rw [List.forall_mem_cons] at h
    rw [List.map_cons, List.map_cons, List.sum_cons, List.sum_cons]
    have := sum_le_sum_map h.2
    omega

/-- **The selector keeps the budgets**: what it returns is within the budget of characters and that of
tokens, and no two items have one key. -/
theorem within_selectContext {query : String} {items : List (ContextItem F)} {chars tokens : ℤ}
    {config : Dict F} {sources : List String} {selected : List (ContextItem F)} (hchars : 0 ≤ chars)
    (htokens : 0 ≤ tokens)
    (h : selectContext blake2b tokenize E query items chars config sources (some tokens) =
      .ok selected) :
    (totalChars selected : ℤ) ≤ chars ∧ (totalTokens selected : ℤ) ≤ tokens ∧
      (selected.map (dedupeKey blake2b)).Nodup := by
  obtain ⟨limit, -, h⟩ := bind_eq_ok.mp h
  dsimp only at h
  split_ifs at h
  · cases h
    exact ⟨by simpa [totalChars] using hchars, by simpa [totalTokens] using htokens, List.nodup_nil⟩
  · obtain ⟨tight, -, h⟩ := bind_eq_ok.mp h
    cases h
    obtain ⟨hkeys, hpriced⟩ := @candidates_spec F E.T blake2b tokenize query items
    set limits : Limits := ⟨max 0 chars, (some tokens).map (max 0)⟩ with hlimits
    set rows := bounded blake2b (candidates E.T blake2b tokenize query items) limit.toNat sources
      limits.tokens.isSome
    obtain ⟨hnodup, hsub⟩ : (rows.map (keyOf blake2b)).Nodup ∧
        ∀ c ∈ rows, c ∈ candidates E.T blake2b tokenize query items := bounded_spec hkeys
    have hnonneg : ∀ t, limits.tokens = some t → 0 ≤ t := by
      intro t ht
      rw [hlimits, Option.map_some, Option.some.injEq] at ht
      exact ht ▸ le_max_left _ _
    have hgood : Good blake2b limits (choose E.T blake2b limits rows sources (E.T.view tight)) [] :=
      good_choose (le_max_left _ _) hnonneg hnodup fun c hc => hpriced c (hsub c hc)
    set picked := choose E.T blake2b limits rows sources (E.T.view tight)
    have hmem : ∀ c ∈ picked.selected, Priced c := fun c hc =>
      hgood.priced c (List.mem_append_left _ hc)
    have hc1 := sum_le_sum_map fun c hc => (hmem c hc).1
    have hc2 := sum_le_sum_map fun c hc => (hmem c hc).2
    have hchars' := hgood.charsLe
    have htokens' := hgood.tokensLe (max 0 tokens) rfl
    rw [hgood.chars] at hc1
    rw [hgood.tokens] at hc2
    rw [totalChars, totalTokens, List.map_map, List.map_map, List.map_map]
    refine ⟨?_, ?_, ?_⟩
    · have : max 0 chars = chars := max_eq_right hchars
      show (((picked.selected.map fun c => c.item.text.length).sum : ℕ) : ℤ) ≤ chars
      rw [hlimits] at hchars'
      dsimp only at hchars'
      omega
    · show (((picked.selected.map fun c => estimateTokens c.item.text).sum : ℕ) : ℤ) ≤ tokens
      omega
    · have := hgood.fresh
      rwa [List.append_nil] at this

end ControlPlane.Retrieval.Selection
