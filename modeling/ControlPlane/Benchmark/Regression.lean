import ControlPlane.Instance

/-! # The regression gate of the benchmarks

A benchmark result is compared with the floors and the relative limits that a baseline declares. Whether it
passes is decided rule by rule (`ok_iff`), and better numbers never turn a pass into a failure (`ok_mono`).

A floor accepts what is at least it, a relative limit rejects what is beyond it. So a relative limit lets a NaN
pass, and with a negative reference the limit lies on the wrong side of it. Otherwise the gate fails closed
(`failsClosed_iff`). -/

namespace ControlPlane.Benchmark.Regression

open ControlPlane.Lib.Value ControlPlane.Lib.Floats ControlPlane.Lib.Dynamic ControlPlane.Lib.Rounding
open ControlPlane.Lib.SignedGrid ControlPlane.Environment ControlPlane.Instance

variable {F : Type} (E : Env F)

/-! ### The gate -/

/-- `_number(value)`: `float` raises no other exceptions than those that are caught. -/
def number (value : Json F) : Option F :=
  match value with
  | .bool _ => none
  | value =>
    match E.toFloat value with
    | .ok x => some x
    | .error _ => none

def mapping : Json F → Dict F
  | .obj d => d
  | _ => []

inductive Failure (F : Type) where
  | minimum (metric : String) (minimum : F) (actual : Option F) (queryType : Option String)
  | relativeRegression (metric direction : String) (baseline relativeTolerance : F) (limit : Num)
      (actual : Option F)
  deriving DecidableEq

def minimumFailure (metric : String) (floor actual : Json F) (queryType : Option String) :
    Option (Failure F) :=
  match number E floor with
  | none => none
  | some expected =>
    match number E actual with
    | none => some (.minimum metric expected none queryType)
    | some observed =>
      if (E.T.view expected).le (E.T.view observed) then none
      else some (.minimum metric expected (some observed) queryType)

/-- A relative rule. -/
structure Policy (F : Type) where
  reference : F
  tolerance : F
  direction : String

/-- The relative rule that is declared for a metric, if its numbers are ones. -/
def policyOf (metric : String) (rawPolicy : Json F) : Py (Option (Policy F)) :=
  let policy := mapping rawPolicy
  if policy.isEmpty then .ok none
  else do
    let direction ← E.strOr policy "direction" "higher"
    match number E (getKey policy "baseline"), number E (getKey policy "relative_tolerance") with
    | some reference, some tolerance =>
      require (!(E.T.view tolerance).lt (.fin 0)) ("negative relative_tolerance for " ++ metric)
      require (E.lower direction == "higher" || E.lower direction == "lower")
        ("invalid direction for " ++ metric ++ ": " ++ E.lower direction)
      return some ⟨reference, tolerance, E.lower direction⟩
    | _, _ => return none

def limitOf (T : FloatSys F) (higher : Bool) (reference tolerance : F) : Num :=
  T.mul (T.view reference)
    (if higher then T.sub (.fin 1) (T.view tolerance) else T.add (.fin 1) (T.view tolerance))

/-- Whether a value lies beyond the limit of a rule. -/
def beyond (T : FloatSys F) (higher : Bool) (reference tolerance actual : F) : Bool :=
  if higher then (T.view actual).lt (limitOf T higher reference tolerance)
  else (limitOf T higher reference tolerance).lt (T.view actual)

def relativeFailure (summary : Dict F) (metric : String) (policy : Policy F) : Option (Failure F) :=
  let higher := policy.direction == "higher"
  let failure := Failure.relativeRegression metric policy.direction policy.reference policy.tolerance
    (limitOf E.T higher policy.reference policy.tolerance)
  match number E (getKey summary metric) with
  | none => some (failure none)
  | some actual =>
    if beyond E.T higher policy.reference policy.tolerance actual then some (failure (some actual)) else none

structure Report (F : Type) where
  ok : Bool
  checked : ℕ
  failures : List (Failure F)
  deriving DecidableEq

def checkMinimum (baseline summary : Dict F) : List (Option (Failure F)) :=
  (mapping (getKey baseline "minimum")).map fun p => minimumFailure E p.1 p.2 (getKey summary p.1) none

/-- The metrics with a relative rule. -/
def policies (baseline : Dict F) : Py (List (String × Policy F)) := do
  let found ← (mapping (getKey baseline "maximum_regression")).mapM fun p => do
    return (← policyOf E p.1 p.2).map fun policy => (p.1, policy)
  return found.filterMap id

def checkQueryTypes (baseline current : Dict F) : List (Option (Failure F)) :=
  let currentGroups := mapping (getKey current "by_query_type")
  (mapping (getKey baseline "by_query_type")).flatMap fun p =>
    let group := mapping (getKey currentGroups p.1)
    (mapping p.2).filterMap fun q =>
      match q.2 with
      | .null => none
      | floor => some (minimumFailure E q.1 floor (getKey group q.1) (some p.1))

def checkRegression (baseline current : Dict F) : Py (Report F) := do
  let raw := getKey baseline "schema_version"
  let version ← E.toInt (if truthy E.T raw then raw else .int 0)
  require (version == 1) "unsupported benchmark baseline schema_version"
  let summary := mapping (getKey current "summary")
  let rules ← policies E baseline
  let checks := checkMinimum E baseline summary ++
    (rules.map fun p => relativeFailure E summary p.1 p.2) ++ checkQueryTypes E baseline current
  let failures := checks.filterMap id
  return ⟨failures.isEmpty, checks.length, failures⟩

/-! ### Rules -/

/-- Where a metric stands in a result. -/
inductive Place where
  | summary (metric : String)
  | group (queryType metric : String)

/-- What a rule demands of a metric. -/
inductive Bound (F : Type) where
  | floor (minimum : F)
  | relative (higher : Bool) (reference tolerance : F)

/-- The number that a result has at a place. -/
def valueAt (current : Dict F) : Place → Option F
  | .summary metric => number E (getKey (mapping (getKey current "summary")) metric)
  | .group queryType metric =>
    number E (getKey (mapping (getKey (mapping (getKey current "by_query_type")) queryType)) metric)

/-- What a baseline declares. -/
inductive Declared (baseline : Dict F) : Place → Bound F → Prop
  | minimum {metric : String} {floor : Json F} {e : F} :
      (metric, floor) ∈ mapping (getKey baseline "minimum") → number E floor = some e →
      Declared baseline (.summary metric) (.floor e)
  | maximumRegression {metric direction : String} {raw : Json F} {reference tolerance : F} :
      (metric, raw) ∈ mapping (getKey baseline "maximum_regression") →
      number E (getKey (mapping raw) "baseline") = some reference →
      number E (getKey (mapping raw) "relative_tolerance") = some tolerance →
      E.strOr (mapping raw) "direction" "higher" = .ok direction →
      Declared baseline (.summary metric) (.relative (E.lower direction == "higher") reference tolerance)
  | byQueryType {queryType metric : String} {raw floor : Json F} {e : F} :
      (queryType, raw) ∈ mapping (getKey baseline "by_query_type") → (metric, floor) ∈ mapping raw →
      number E floor = some e → Declared baseline (.group queryType metric) (.floor e)

/-- The comparison the gate makes. -/
def Bound.passes (T : FloatSys F) : Bound F → Option F → Bool
  | _, none => false
  | .floor e, some a => (T.view e).le (T.view a)
  | .relative higher reference tolerance, some a => !beyond T higher reference tolerance a

/-- The number is one that meets the floor, or lies on the allowed side of the limit. -/
def Bound.Met (T : FloatSys F) (bound : Bound F) (actual : Option F) : Prop :=
  ∃ a, actual = some a ∧
    match bound with
    | .floor e => (T.view e).le (T.view a) = true
    | .relative true reference tolerance => (limitOf T true reference tolerance).le (T.view a) = true
    | .relative false reference tolerance => (T.view a).le (limitOf T false reference tolerance) = true

/-- Whether greater numbers are better. -/
def Bound.upward : Bound F → Bool
  | .floor _ => true
  | .relative higher _ _ => higher

/-- A number is the same, or better in the direction of a rule; it is better than none. -/
def Bound.Better (T : FloatSys F) (bound : Bound F) (old new : Option F) : Prop :=
  new = old ∨ ∃ y, new = some y ∧ ∀ x, old = some x →
    if bound.upward then (T.view x).le (T.view y) = true else (T.view y).le (T.view x) = true

variable {E}

theorem number_null : number E (.null : Json F) = none := rfl

/-! ### What passes -/

theorem minimumFailure_eq_none {metric : String} {floor actual : Json F} {queryType : Option String} :
    minimumFailure E metric floor actual queryType = none ↔
      ∀ e, number E floor = some e → (Bound.floor e).passes E.T (number E actual) = true := by
  unfold minimumFailure
  cases hfloor : number E floor with
  | none => simp
  | some e =>
    cases hactual : number E actual with
    | none => simp [Bound.passes]
    | some a => simp [Bound.passes]

theorem relativeFailure_eq_none {summary : Dict F} {metric : String} {policy : Policy F} :
    relativeFailure E summary metric policy = none ↔
      (Bound.relative (policy.direction == "higher") policy.reference policy.tolerance).passes E.T
        (number E (getKey summary metric)) = true := by
  unfold relativeFailure
  cases hactual : number E (getKey summary metric) with
  | none => simp [Bound.passes]
  | some a => simp [Bound.passes]

/-- The rule of a metric: its numbers, its tolerance not negative, its direction known. -/
theorem policyOf_eq_some {metric : String} {raw : Json F} {policy : Policy F} :
    policyOf E metric raw = .ok (some policy) ↔
      number E (getKey (mapping raw) "baseline") = some policy.reference ∧
      number E (getKey (mapping raw) "relative_tolerance") = some policy.tolerance ∧
      (∃ direction, E.strOr (mapping raw) "direction" "higher" = .ok direction ∧
        E.lower direction = policy.direction) ∧
      (E.T.view policy.tolerance).lt (.fin 0) = false ∧
      (policy.direction = "higher" ∨ policy.direction = "lower") := by
  unfold policyOf
  dsimp only
  by_cases hempty : (mapping raw).isEmpty = true
  · rw [if_pos hempty]
    have hnil := List.isEmpty_iff.mp hempty
    simp [hnil, getKey, number_null]
  rw [if_neg hempty]
  constructor
  · intro h
    obtain ⟨direction, hdir, h⟩ := bind_eq_ok.mp h
    split at h
    · next reference tolerance href htol =>
      obtain ⟨_, hneg, h⟩ := bind_eq_ok.mp h
      obtain ⟨_, hknown, h⟩ := bind_eq_ok.mp h
      have hpolicy := (Option.some.inj (Except.ok.inj h)).symm
      rw [require_eq_ok, Bool.not_eq_true'] at hneg
      rw [require_eq_ok, Bool.or_eq_true, beq_iff_eq, beq_iff_eq] at hknown
      rw [hpolicy]
      exact ⟨href, htol, ⟨direction, hdir, rfl⟩, hneg, hknown⟩
    · cases h
  · rintro ⟨href, htol, ⟨direction, hdir, hlower⟩, hneg, hknown⟩
    rw [hdir]
    refine bind_eq_ok.mpr ⟨direction, rfl, ?_⟩
    rw [href, htol]
    refine bind_eq_ok.mpr ⟨(), require_eq_ok.mpr (by rw [hneg]; rfl), bind_eq_ok.mpr
      ⟨(), require_eq_ok.mpr ?_, ?_⟩⟩
    · rw [Bool.or_eq_true, beq_iff_eq, beq_iff_eq, hlower]
      exact hknown
    · rw [hlower]
      rfl

/-! ### The rules of a run -/

section Run
variable {baseline current : Dict F} {report : Report F}

/-- What the gate has looked at. -/
theorem checkRegression_eq_ok (h : checkRegression E baseline current = .ok report) : ∃ rules,
    policies E baseline = .ok rules ∧ report.ok = report.failures.isEmpty ∧
      report.failures = (checkMinimum E baseline (mapping (getKey current "summary")) ++
        (rules.map fun p => relativeFailure E (mapping (getKey current "summary")) p.1 p.2) ++
          checkQueryTypes E baseline current).filterMap id := by
  obtain ⟨version, -, h⟩ := bind_eq_ok.mp h
  obtain ⟨_, -, h⟩ := bind_eq_ok.mp h
  obtain ⟨rules, hrules, h⟩ := bind_eq_ok.mp h
  have hreport := (Except.ok.inj h).symm
  exact ⟨rules, hrules, by rw [hreport], by rw [hreport]⟩

/-- **Acceptance** of a baseline does not depend on the result. -/
theorem accepted_again (h : checkRegression E baseline current = .ok report) (other : Dict F) :
    ∃ report', checkRegression E baseline other = .ok report' := by
  obtain ⟨version, hversion, h⟩ := bind_eq_ok.mp h
  obtain ⟨u, hone, h⟩ := bind_eq_ok.mp h
  obtain ⟨rules, hrules, -⟩ := bind_eq_ok.mp h
  refine ⟨_, bind_eq_ok.mpr ⟨version, hversion, bind_eq_ok.mpr ⟨u, hone, bind_eq_ok.mpr ⟨rules, hrules, rfl⟩⟩⟩⟩

theorem mem_policies {rules : List (String × Policy F)} (h : policies E baseline = .ok rules)
    (metric : String) (policy : Policy F) : (metric, policy) ∈ rules ↔
      ∃ raw, (metric, raw) ∈ mapping (getKey baseline "maximum_regression") ∧
        policyOf E metric raw = .ok (some policy) := by
  obtain ⟨found, hfound, h⟩ := bind_eq_ok.mp h
  rw [← Except.ok.inj h, List.mem_filterMap]
  constructor
  · rintro ⟨row, hrow, hsome⟩
    obtain ⟨⟨m, raw⟩, hentry, hstep⟩ := mem_mapM hfound row hrow
    obtain ⟨p, hp, hstep⟩ := bind_eq_ok.mp hstep
    have hrow' := Except.ok.inj hstep
    rw [id_eq] at hsome
    rw [hsome, Option.map_eq_some_iff] at hrow'
    obtain ⟨policy', hp', hpair⟩ := hrow'
    obtain ⟨rfl, rfl⟩ := Prod.mk.inj hpair
    rw [hp'] at hp
    exact ⟨raw, hentry, hp⟩
  · rintro ⟨raw, hentry, hp⟩
    obtain ⟨row, hrow, hstep⟩ := mapM_mem hfound (metric, raw) hentry
    rw [hp] at hstep
    have hrow' := Except.ok.inj hstep
    exact ⟨row, hrow, hrow'.symm⟩

/-- The relative rules that are declared are those that are looked at. -/
theorem declared_policy {rules : List (String × Policy F)} (h : policies E baseline = .ok rules)
    {metric : String} {higher : Bool} {reference tolerance : F} :
    Declared E baseline (.summary metric) (.relative higher reference tolerance) ↔
      ∃ policy, (metric, policy) ∈ rules ∧ (policy.direction == "higher") = higher ∧
        policy.reference = reference ∧ policy.tolerance = tolerance := by
  constructor
  · intro hd
    cases hd with
    | maximumRegression hentry href htol hdir =>
      next direction raw =>
      obtain ⟨found, hfound, -⟩ := bind_eq_ok.mp h
      obtain ⟨row, -, hstep⟩ := mapM_mem hfound (metric, raw) hentry
      obtain ⟨p, hp, -⟩ := bind_eq_ok.mp hstep
      -- The numbers are there, so the rule is not passed over.
      cases p with
      | none =>
        exfalso
        unfold policyOf at hp
        dsimp only at hp
        by_cases hempty : (mapping raw).isEmpty = true
        · rw [List.isEmpty_iff.mp hempty] at href
          cases href
        · rw [if_neg hempty, hdir] at hp
          obtain ⟨_, hd', hp⟩ := bind_eq_ok.mp hp
          rw [href, htol] at hp
          obtain ⟨_, -, hp⟩ := bind_eq_ok.mp hp
          obtain ⟨_, -, hp⟩ := bind_eq_ok.mp hp
          cases Except.ok.inj hp
      | some policy =>
        obtain ⟨href', htol', ⟨direction', hdir', hlower⟩, -⟩ := policyOf_eq_some.mp hp
        rw [href] at href'
        rw [htol] at htol'
        rw [hdir] at hdir'
        refine ⟨policy, (mem_policies h metric policy).mpr ⟨raw, hentry, hp⟩, ?_,
          (Option.some.inj href').symm, (Option.some.inj htol').symm⟩
        rw [← hlower, Except.ok.inj hdir']
  · rintro ⟨policy, hin, rfl, rfl, rfl⟩
    obtain ⟨raw, hentry, hp⟩ := (mem_policies h metric policy).mp hin
    obtain ⟨href, htol, ⟨direction, hdir, hlower⟩, -⟩ := policyOf_eq_some.mp hp
    rw [← hlower]
    exact .maximumRegression hentry href htol hdir

theorem checkMinimum_none {summary : Dict F} : (∀ x ∈ checkMinimum E baseline summary, x = none) ↔
    ∀ metric floor, (metric, floor) ∈ mapping (getKey baseline "minimum") → ∀ e,
      number E floor = some e → (Bound.floor e).passes E.T (number E (getKey summary metric)) = true := by
  unfold checkMinimum
  rw [List.forall_mem_map, Prod.forall]
  exact forall₂_congr fun metric floor => imp_congr_right fun _ => minimumFailure_eq_none

theorem checkQueryTypes_none : (∀ x ∈ checkQueryTypes E baseline current, x = none) ↔
    ∀ queryType raw, (queryType, raw) ∈ mapping (getKey baseline "by_query_type") →
      ∀ metric floor, (metric, floor) ∈ mapping raw → ∀ e, number E floor = some e →
        (Bound.floor e).passes E.T (valueAt E current (.group queryType metric)) = true := by
  unfold checkQueryTypes
  dsimp only
  constructor
  · intro h queryType raw hentry metric floor hfloor e he
    have hnone : minimumFailure E metric floor (getKey (mapping (getKey (mapping (getKey current
        "by_query_type")) queryType)) metric) (some queryType) = none := by
      refine h _ (List.mem_flatMap.mpr ⟨_, hentry, List.mem_filterMap.mpr ⟨_, hfloor, ?_⟩⟩)
      cases floor with
      | null => cases he
      | _ => rfl
    exact minimumFailure_eq_none.mp hnone e he
  · intro h x hx
    obtain ⟨⟨queryType, raw⟩, hentry, hx⟩ := List.mem_flatMap.mp hx
    obtain ⟨⟨metric, floor⟩, hfloor, hx⟩ := List.mem_filterMap.mp hx
    dsimp only at hx
    split at hx
    · cases hx
    · rw [← Option.some.inj hx, minimumFailure_eq_none]
      exact h queryType raw hentry metric floor hfloor

/-- **A result passes** if it passes every rule that is declared. -/
theorem ok_iff (h : checkRegression E baseline current = .ok report) : report.ok = true ↔
    ∀ place bound, Declared E baseline place bound → bound.passes E.T (valueAt E current place) = true := by
  obtain ⟨rules, hrules, hok, hfailures⟩ := checkRegression_eq_ok h
  rw [hok, List.isEmpty_iff, hfailures, List.filterMap_eq_nil_iff]
  simp only [id_eq]
  rw [List.forall_mem_append, List.forall_mem_append, checkMinimum_none, checkQueryTypes_none,
    List.forall_mem_map]
  constructor
  · rintro ⟨⟨hmin, hrel⟩, hgroup⟩ place bound hd
    cases hd with
    | minimum hentry he => exact hmin _ _ hentry _ he
    | byQueryType hentry hfloor he => exact hgroup _ _ hentry _ _ hfloor _ he
    | maximumRegression hentry href htol hdir =>
      obtain ⟨policy, hin, hhigher, rfl, rfl⟩ :=
        (declared_policy hrules).mp (.maximumRegression hentry href htol hdir)
      rw [← hhigher]
      exact relativeFailure_eq_none.mp (hrel _ hin)
  · intro hall
    refine ⟨⟨fun metric floor hentry e he => hall _ _ (.minimum hentry he), fun p hin => ?_⟩,
      fun queryType raw hentry metric floor hfloor e he => hall _ _ (.byQueryType hentry hfloor he)⟩
    rw [relativeFailure_eq_none]
    exact hall (.summary p.1) _ ((declared_policy hrules).mpr ⟨p.2, hin, rfl, rfl, rfl⟩)

theorem minimumFailure_kind {metric m direction : String} {floor actual : Json F} {queryType : Option String}
    {r t : F} {limit : Num} {a : Option F} :
    minimumFailure E metric floor actual queryType ≠ some (.relativeRegression m direction r t limit a) := by
  unfold minimumFailure
  split
  · simp
  · split
    · simp
    · split_ifs <;> simp

theorem relativeFailure_eq_some {summary : Dict F} {metric m direction : String} {policy : Policy F} {r t a : F}
    {limit : Num} : relativeFailure E summary metric policy =
      some (.relativeRegression m direction r t limit (some a)) ↔
        (metric = m ∧ policy = ⟨r, t, direction⟩ ∧ limit = limitOf E.T (direction == "higher") r t) ∧
          number E (getKey summary metric) = some a ∧ beyond E.T (direction == "higher") r t a = true := by
  unfold relativeFailure
  cases hactual : number E (getKey summary metric) with
  | none => simp
  | some b =>
    dsimp only
    constructor
    · intro h
      split_ifs at h with hb
      have hsame := Option.some.inj h
      rw [Failure.relativeRegression.injEq] at hsame
      obtain ⟨rfl, rfl, rfl, rfl, rfl, ha⟩ := hsame
      rw [Option.some.inj ha] at hb ⊢
      exact ⟨⟨rfl, rfl, rfl⟩, rfl, hb⟩
    · rintro ⟨⟨rfl, rfl, rfl⟩, ha, hb⟩
      rw [Option.some.inj ha, if_pos hb]

/-- The relative regressions that are reported are the values beyond a declared limit. -/
theorem reported_iff (h : checkRegression E baseline current = .ok report) (metric : String) (r t a : F) :
    (∃ direction limit, .relativeRegression metric direction r t limit (some a) ∈ report.failures) ↔
      ∃ higher, Declared E baseline (.summary metric) (.relative higher r t) ∧
        valueAt E current (.summary metric) = some a ∧ beyond E.T higher r t a = true := by
  obtain ⟨rules, hrules, -, hfailures⟩ := checkRegression_eq_ok h
  rw [hfailures]
  constructor
  · rintro ⟨direction, limit, hin⟩
    obtain ⟨x, hx, hsome⟩ := List.mem_filterMap.mp hin
    rw [id_eq] at hsome
    rw [hsome, List.mem_append, List.mem_append] at hx
    rcases hx with (hx | hx) | hx
    · obtain ⟨p, -, hp⟩ := List.mem_map.mp hx
      exact absurd hp minimumFailure_kind
    · obtain ⟨⟨m, policy⟩, hp, hx⟩ := List.mem_map.mp hx
      obtain ⟨⟨rfl, rfl, -⟩, ha, hb⟩ := relativeFailure_eq_some.mp hx
      exact ⟨_, (declared_policy hrules).mpr ⟨_, hp, rfl, rfl, rfl⟩, ha, hb⟩
    · obtain ⟨p, -, hx⟩ := List.mem_flatMap.mp hx
      obtain ⟨q, -, hx⟩ := List.mem_filterMap.mp hx
      split at hx
      · cases hx
      · exact absurd (Option.some.inj hx) minimumFailure_kind
  · rintro ⟨higher, hd, ha, hb⟩
    obtain ⟨⟨r', t', direction⟩, hin, rfl, rfl, rfl⟩ := (declared_policy hrules).mp hd
    refine ⟨direction, limitOf E.T (direction == "higher") r' t', List.mem_filterMap.mpr ⟨_, ?_, rfl⟩⟩
    refine List.mem_append_left _ (List.mem_append_right _ (List.mem_map.mpr ⟨_, hin, ?_⟩))
    exact relativeFailure_eq_some.mpr ⟨⟨rfl, rfl, rfl⟩, ha, hb⟩

/-- A tolerance that is declared is not negative. -/
theorem tolerance_of_declared (h : checkRegression E baseline current = .ok report) {place : Place}
    {higher : Bool} {r t : F} (hd : Declared E baseline place (.relative higher r t)) :
    (E.T.view t).lt (.fin 0) = false := by
  obtain ⟨rules, hrules, -⟩ := checkRegression_eq_ok h
  cases hd with
  | maximumRegression hentry href htol hdir =>
    obtain ⟨policy, hin, -, -, rfl⟩ :=
      (declared_policy hrules).mp (.maximumRegression hentry href htol hdir)
    obtain ⟨raw, -, hp⟩ := (mem_policies hrules _ policy).mp hin
    exact (policyOf_eq_some.mp hp).2.2.2.1

end Run

/-! ### Better numbers -/

theorem lt_of_le_of_lt {x y z : Num} (h1 : x.le y = true) (h2 : y.lt z = true) : x.lt z = true := by
  cases x <;> cases y <;> cases z <;> simp_all [Num.le, Num.lt, Num.eq]
  · grind

theorem lt_of_lt_of_le {x y z : Num} (h1 : x.lt y = true) (h2 : y.le z = true) : x.lt z = true := by
  cases x <;> cases y <;> cases z <;> simp_all [Num.le, Num.lt, Num.eq]
  · grind

theorem passes_better {T : FloatSys F} {bound : Bound F} {old new : Option F} (hb : bound.Better T old new)
    (h : bound.passes T old = true) : bound.passes T new = true := by
  rcases hb with rfl | ⟨y, rfl, hy⟩
  · exact h
  cases old with
  | none => cases bound <;> cases h
  | some x =>
    have hxy := hy x rfl
    cases bound with
    | floor e => exact Num.le_trans h hxy
    | relative higher reference tolerance =>
      cases higher with
      | true =>
        have hkeep : (T.view x).lt (limitOf T true reference tolerance) = false := by simpa [Bound.passes, beyond] using h
        have hnew : (T.view y).lt (limitOf T true reference tolerance) = false := by
          rw [← Bool.not_eq_true]
          intro hlt
          rw [lt_of_le_of_lt hxy hlt] at hkeep
          cases hkeep
        simpa [Bound.passes, beyond] using hnew
      | false =>
        have hkeep : (limitOf T false reference tolerance).lt (T.view x) = false := by simpa [Bound.passes, beyond] using h
        have hnew : (limitOf T false reference tolerance).lt (T.view y) = false := by
          rw [← Bool.not_eq_true]
          intro hlt
          rw [lt_of_lt_of_le hlt hxy] at hkeep
          cases hkeep
        simpa [Bound.passes, beyond] using hnew

/-- **Better numbers never turn a pass into a failure.** -/
theorem ok_mono {baseline current other : Dict F} {report : Report F}
    (h : checkRegression E baseline current = .ok report) (hok : report.ok = true)
    (hbetter : ∀ place bound, Declared E baseline place bound →
      bound.Better E.T (valueAt E current place) (valueAt E other place)) :
    ∃ report', checkRegression E baseline other = .ok report' ∧ report'.ok = true := by
  obtain ⟨report', h'⟩ := accepted_again h other
  refine ⟨report', h', (ok_iff h').mpr fun place bound hd => ?_⟩
  exact passes_better (hbetter place bound hd) ((ok_iff h).mp hok place bound hd)

/-! ### When the gate fails closed -/

/-- The gate lets only results pass that meet every rule, does not report a value that equals its reference, and
passes better results as well. -/
structure FailsClosed (E : Env F) (baseline current : Dict F) (report : Report F) : Prop where
  closed : report.ok = true → ∀ place bound, Declared E baseline place bound →
    bound.Met E.T (valueAt E current place)
  unchanged : ∀ metric direction r t limit a q s,
    .relativeRegression metric direction r t limit (some a) ∈ report.failures →
    E.T.view r = .fin q → E.T.view t = .fin s → E.T.view a ≠ .fin q
  improved : report.ok = true → ∀ other, (∀ place bound, Declared E baseline place bound →
      bound.Better E.T (valueAt E current place) (valueAt E other place)) →
    ∃ report', checkRegression E baseline other = .ok report' ∧ report'.ok = true

/-- No relative rule compares with a NaN. -/
def Comparable (E : Env F) (baseline current : Dict F) : Prop :=
  ∀ place higher r t a, Declared E baseline place (.relative higher r t) →
    valueAt E current place = some a → E.T.view a ≠ .nan ∧ limitOf E.T higher r t ≠ .nan

/-- A reference that the result has is not negative, or its tolerance is lost in rounding. -/
def Sided (E : Env F) (baseline current : Dict F) : Prop :=
  ∀ place higher r t a q s, Declared E baseline place (.relative higher r t) →
    valueAt E current place = some a → E.T.view r = .fin q → E.T.view t = .fin s → E.T.view a = .fin q →
    0 ≤ q ∨ limitOf E.T higher r t = .fin q

theorem not_lt_iff {x y : Num} : x.lt y = false ↔ y.le x = true ∨ x = .nan ∨ y = .nan := by
  cases x with
  | nan => simp [Num.lt]
  | inf a =>
    cases y with
    | nan => simp [Num.lt]
    | inf b => cases a <;> cases b <;> simp [Num.lt, Num.le, Num.eq]
    | fin q => cases a <;> simp [Num.lt, Num.le, Num.eq]
  | fin p =>
    cases y with
    | nan => simp [Num.lt]
    | inf b => cases b <;> simp [Num.lt, Num.le, Num.eq]
    | fin q => simp

theorem not_nan_of_le {x y : Num} (h : x.le y = true) : x ≠ .nan ∧ y ≠ .nan := by
  constructor
  · rintro rfl
    cases h
  · rintro rfl
    cases x <;> cases h

/-- What passes is met, or is compared with a NaN. -/
theorem met_of_passes {T : FloatSys F} {bound : Bound F} {actual : Option F}
    (h : bound.passes T actual = true)
    (hnan : ∀ higher r t a, bound = .relative higher r t → actual = some a →
      T.view a ≠ .nan ∧ limitOf T higher r t ≠ .nan) : bound.Met T actual := by
  cases actual with
  | none => cases bound <;> cases h
  | some a =>
    refine ⟨a, rfl, ?_⟩
    cases bound with
    | floor e => exact h
    | relative higher r t =>
      obtain ⟨ha, hl⟩ := hnan higher r t a rfl rfl
      cases higher with
      | true =>
        have hkeep : (T.view a).lt (limitOf T true r t) = false := by simpa [Bound.passes, beyond] using h
        exact (not_lt_iff.mp hkeep).resolve_right (not_or.mpr ⟨ha, hl⟩)
      | false =>
        have hkeep : (limitOf T false r t).lt (T.view a) = false := by simpa [Bound.passes, beyond] using h
        exact (not_lt_iff.mp hkeep).resolve_right (not_or.mpr ⟨hl, ha⟩)

theorem not_nan_of_met {T : FloatSys F} {higher : Bool} {r t a : F}
    (h : (Bound.relative higher r t).Met T (some a)) : T.view a ≠ .nan ∧ limitOf T higher r t ≠ .nan := by
  obtain ⟨b, hb, hmet⟩ := h
  rw [Option.some.inj hb]
  cases higher with
  | true => exact (not_nan_of_le hmet).symm
  | false => exact not_nan_of_le hmet

section Sides
variable {T : FloatSys F} (hT : Stable T) (hview : Representable T) {r t a : F} {q s : ℚ}
  (hr : T.view r = .fin q) (ht : T.view t = .fin s) (hs : 0 ≤ s) (ha : T.view a = .fin q)
include hT hview hr ht hs ha

/-- **A value that equals its reference** is on the allowed side of the limit if and only if the reference is not
negative, or the limit is rounded to it. -/
theorem beyond_self (higher : Bool) :
    beyond T higher r t a = false ↔ 0 ≤ q ∨ limitOf T higher r t = .fin q := by
  have hq : T.lit q = .fin q := hview r q hr
  cases higher with
  | true =>
    have hfactor : (T.lit (1 - s)).le (.fin 1) = true := by
      rw [← hT.one]
      exact T.lit_mono (by linarith)
    have hlimit : limitOf T true r t = T.mul (.fin q) (T.lit (1 - s)) := by
      rw [limitOf, hr, ht]
      rfl
    rw [beyond, if_pos rfl, ha, hlimit]
    cases hu : T.lit (1 - s) with
    | nan =>
      rw [hu] at hfactor
      cases hfactor
    | inf neg =>
      rw [hu] at hfactor
      have hneg : neg = true := by
        cases neg with
        | true => rfl
        | false => cases hfactor
      rw [hneg]
      rcases lt_trichotomy q 0 with h | rfl | h
      · simp [FloatSys.mul, Num.neg?, h.ne, h, Num.lt, h.not_ge]
      · simp [FloatSys.mul, Num.neg?, Num.lt]
      · simp [FloatSys.mul, Num.neg?, h.ne', h.le, h.not_gt, Num.lt]
    | fin u =>
      rw [hu, Num.le_fin, decide_eq_true_eq] at hfactor
      have hmul : T.mul (.fin q) (.fin u) = T.lit (q * u) := rfl
      rw [hmul]
      by_cases h0 : 0 ≤ q
      · have hle : (T.lit (q * u)).le (.fin q) = true := by
          rw [← hq]
          exact T.lit_mono (by nlinarith)
        exact iff_of_true (Num.not_lt_of_le hle) (Or.inl h0)
      · have hge : (Num.fin q).le (T.lit (q * u)) = true := by
          rw [← hq]
          exact T.lit_mono (by nlinarith)
        constructor
        · intro h
          rw [Num.le, h, Bool.false_or] at hge
          refine Or.inr ?_
          cases hl : T.lit (q * u) with
          | fin v => simpa [hl, eq_comm] using hge
          | inf b => simp [hl, Num.eq] at hge
          | nan => simp [hl, Num.eq] at hge
        · rintro (h | h)
          · exact absurd h h0
          · rw [h]
            exact Num.lt_irrefl _
  | false =>
    have hfactor : (Num.fin 1).le (T.lit (1 + s)) = true := by
      rw [← hT.one]
      exact T.lit_mono (by linarith)
    have hlimit : limitOf T false r t = T.mul (.fin q) (T.lit (1 + s)) := by
      rw [limitOf, hr, ht]
      rfl
    rw [beyond, if_neg Bool.false_ne_true, ha, hlimit]
    cases hu : T.lit (1 + s) with
    | nan =>
      rw [hu] at hfactor
      cases hfactor
    | inf neg =>
      rw [hu] at hfactor
      have hneg : neg = false := by
        cases neg with
        | true => cases hfactor
        | false => rfl
      rw [hneg]
      rcases lt_trichotomy q 0 with h | rfl | h
      · simp [FloatSys.mul, Num.neg?, h.ne, h, Num.lt, h.not_ge]
      · simp [FloatSys.mul, Num.neg?, Num.lt]
      · simp [FloatSys.mul, Num.neg?, h.ne', h.le, h.not_gt, Num.lt]
    | fin u =>
      rw [hu, Num.le_fin, decide_eq_true_eq] at hfactor
      have hmul : T.mul (.fin q) (.fin u) = T.lit (q * u) := rfl
      rw [hmul]
      by_cases h0 : 0 ≤ q
      · have hge : (Num.fin q).le (T.lit (q * u)) = true := by
          rw [← hq]
          exact T.lit_mono (by nlinarith)
        exact iff_of_true (Num.not_lt_of_le hge) (Or.inl h0)
      · have hle : (T.lit (q * u)).le (.fin q) = true := by
          rw [← hq]
          exact T.lit_mono (by nlinarith)
        constructor
        · intro h
          rw [Num.le, h, Bool.false_or] at hle
          refine Or.inr ?_
          cases hl : T.lit (q * u) with
          | fin v => simpa [hl] using hle
          | inf b => simp [hl, Num.eq] at hle
          | nan => simp [hl, Num.eq] at hle
        · rintro (h | h)
          · exact absurd h h0
          · rw [h]
            exact Num.lt_irrefl _

end Sides

/-- **The regression gate fails closed** if and only if some rule is failed or none compares with a NaN, and no
negative reference that the result has is moved by its tolerance. -/
theorem failsClosed_iff (hT : Stable E.T) (hview : Representable E.T) {baseline current : Dict F}
    {report : Report F} (h : checkRegression E baseline current = .ok report) :
    FailsClosed E baseline current report ↔
      ((∃ place bound, Declared E baseline place bound ∧ bound.passes E.T (valueAt E current place) = false) ∨
        Comparable E baseline current) ∧ Sided E baseline current := by
  have hside : ∀ {place higher r t a q s}, Declared E baseline place (.relative higher r t) →
      E.T.view r = .fin q → E.T.view t = .fin s → E.T.view a = .fin q →
      (beyond E.T higher r t a = false ↔ 0 ≤ q ∨ limitOf E.T higher r t = .fin q) := by
    intro place higher r t a q s hd hr ht ha
    have htol := tolerance_of_declared h hd
    rw [ht, Num.lt_fin, decide_eq_false_iff_not, not_lt] at htol
    exact beyond_self hT hview hr ht htol ha higher
  constructor
  · rintro ⟨hclosed, hunchanged, -⟩
    refine ⟨?_, ?_⟩
    · by_cases hall : ∀ place bound, Declared E baseline place bound →
          bound.passes E.T (valueAt E current place) = true
      · refine Or.inr fun place higher r t a hd ha => ?_
        have hmet := hclosed ((ok_iff h).mpr hall) place _ hd
        rw [ha] at hmet
        exact not_nan_of_met hmet
      · push Not at hall
        obtain ⟨place, bound, hd, hfail⟩ := hall
        exact Or.inl ⟨place, bound, hd, by simpa using hfail⟩
    · intro place higher r t a q s hd ha hr ht haq
      rw [← hside hd hr ht haq]
      by_contra hbeyond
      rw [Bool.not_eq_false] at hbeyond
      cases hd with
      | maximumRegression hentry href htol hdir =>
        obtain ⟨direction, limit, hin⟩ := (reported_iff h _ r t a).mpr
          ⟨_, .maximumRegression hentry href htol hdir, ha, hbeyond⟩
        exact hunchanged _ _ r t limit a q s hin hr ht haq
  · rintro ⟨hcomparable, hsided⟩
    refine ⟨fun hok place bound hd => ?_, fun metric direction r t limit a q s hin hr ht haq => ?_,
      fun hok other hbetter => ok_mono h hok hbetter⟩
    · have hpass := (ok_iff h).mp hok
      refine met_of_passes (hpass place bound hd) fun higher r t a hbound ha => ?_
      rcases hcomparable with ⟨place', bound', hd', hfail⟩ | hcomparable
      · rw [hpass place' bound' hd'] at hfail
        cases hfail
      · rw [hbound] at hd
        exact hcomparable place higher r t a hd ha
    · obtain ⟨higher, hd, ha, hbeyond⟩ := (reported_iff h metric r t a).mp ⟨direction, limit, hin⟩
      rw [(hside hd hr ht haq).mpr (hsided _ higher r t a q s hd ha hr ht haq)] at hbeyond
      cases hbeyond

/-- A baseline with one relative rule. -/
def oneRule (reference tolerance : F) : Dict F :=
  [("schema_version", .int 1), ("maximum_regression", .obj [("density",
    .obj [("baseline", .float reference), ("relative_tolerance", .float tolerance)])])]

def measured (x : F) : Dict F := [("summary", .obj [("density", .float x)])]

theorem failsClosed_one : ∃ report, checkRegression exactPlatform (oneRule 1 0) (measured 1) = .ok report ∧
    (FailsClosed exactPlatform (oneRule 1 0) (measured 1) report ↔
      ((∃ place bound, Declared exactPlatform (oneRule 1 0) place bound ∧
        bound.passes exactPlatform.T (valueAt exactPlatform (measured 1) place) = false) ∨
          Comparable exactPlatform (oneRule 1 0) (measured 1)) ∧
        Sided exactPlatform (oneRule 1 0) (measured 1)) :=
  ⟨_, rfl, failsClosed_iff exact_rationals.stable exact_rationals.representable rfl⟩

/-- **A NaN passes** a relative rule. -/
theorem failsClosed_nan : ∃ report,
    checkRegression widePlatform (oneRule (.fin false .one) (.fin false .tenth)) (measured .nan) = .ok report ∧
      report.ok = true ∧ ¬ FailsClosed widePlatform (oneRule (.fin false .one) (.fin false .tenth))
        (measured .nan) report := by
  refine ⟨⟨true, 1, []⟩, by decide +kernel, rfl, fun h => ?_⟩
  have hentry : ("density", Json.obj [("baseline", .float (.fin false .one)),
      ("relative_tolerance", .float (.fin false .tenth))]) ∈
      mapping (getKey (oneRule (Wide.fin false .one) (.fin false .tenth)) "maximum_regression") :=
    List.mem_cons_self
  have hd : Declared widePlatform (oneRule (.fin false .one) (.fin false .tenth)) (.summary "density")
      (.relative (widePlatform.lower "higher" == "higher") (.fin false .one) (.fin false .tenth)) :=
    .maximumRegression hentry rfl rfl rfl
  have hvalue : valueAt widePlatform (measured Wide.nan) (.summary "density") = some Wide.nan := rfl
  have hmet := h.closed rfl _ _ hd
  rw [hvalue] at hmet
  exact (not_nan_of_met hmet).1 rfl

end ControlPlane.Benchmark.Regression
