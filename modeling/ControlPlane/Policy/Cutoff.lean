import ControlPlane.Deployment.Guardrails
import ControlPlane.Instance

/-! # Training and shadow evidence

A policy report is made of the verified rows of the learning store (`verifiedFeatureRows`) and records
the greatest of their timestamps, compared as texts (`evidenceCutoff`). The shadow evaluation of the
policy takes the rows behind this cutoff, compared as instants (`verifiedPostCutoffRows`).

`disjoint_iff`: no row of the report is taken if and only if the row with the greatest text is also the
latest. With timestamps of different offsets it need not be (`not_disjoint_offsets`). What instant a
text denotes is a parameter, of which nothing is assumed. -/

namespace ControlPlane.Policy.Cutoff

open ControlPlane.Lib.Value ControlPlane.Lib.Text ControlPlane.Lib.Floats ControlPlane.Lib.Dynamic
open ControlPlane.Lib.Grid ControlPlane.Environment ControlPlane.Instance ControlPlane.Learning.Features
open ControlPlane.Deployment.Guardrails

variable {F : Type} (E : Env F)

/-! ### Sifting rows -/

/-- The rows that a check lets pass, as it returns them, and why the others were left out. -/
def sift (check : Dict F → Py (Except String (Dict F))) :
    List (Dict F) → Py (List (Dict F) × List String)
  | [] => .ok ([], [])
  | row :: rows => do
    let verdict ← check row
    let (accepted, reasons) ← sift check rows
    return match verdict with
      | .ok normalized => (normalized :: accepted, reasons)
      | .error reason => (accepted, reason :: reasons)

/-- How often each reason was given. -/
def counts (names reasons : List String) : List (String × ℕ) :=
  names.map fun name => (name, reasons.count name)

/-- What both loops check of a row with a verified outcome: the reward and the cost, the features and
the propensity of the chosen arm. -/
def checkRow (mismatch : String) (row outcome : Dict F) : Py (Except String (Dict F)) := do
  let reward ← finiteNumber? E (getKey outcome "reward")
  let cost ← finiteNumber? E (getKey outcome "realized_cost")
  match reward, cost with
  | some _, some cost =>
    if (E.T.view cost).lt (.fin 0) then return .error "invalid_outcome"
    if differs E row "feature_schema_version" featureSchemaVersion then return .error mismatch
    match ← normalizeContextFeatures E (getKey row "context_features") with
    | none => return .error mismatch
    | some features =>
      let chosen := strip (← E.strOr row "chosen_arm" "")
      match objOf? row "arm_propensities" with
      | none => return .error "invalid_propensity"
      | some propensities =>
        match ← finiteNumber? E (getKey propensities chosen) with
        | none => return .error "invalid_propensity"
        | some probability =>
          if (Num.fin 0).lt (E.T.view probability) then
            return .ok (setKey "context_features" (.obj features) row)
          else return .error "invalid_propensity"
  | _, _ => return .error "invalid_outcome"

/-- The verified outcome of a row. -/
def verifiedOutcome? (row : Dict F) : Option (Dict F) :=
  match objOf? row "outcome" with
  | some outcome => if truthy E.T (getKey outcome "verified") then some outcome else none
  | none => none

/-! ### The report -/

/-- One round of the loop of `verifiedFeatureRows`. -/
def featureCheck (row : Dict F) : Py (Except String (Dict F)) :=
  match verifiedOutcome? E row with
  | none => .ok (.error "unverified")
  | some outcome => checkRow E "missing_current_features" row outcome

def verifiedFeatureRows (rows : List (Dict F)) : Py (List (Dict F) × List (String × ℕ)) := do
  let (accepted, reasons) ← sift (featureCheck E) rows
  return (accepted, counts ["unverified", "invalid_outcome", "missing_current_features",
    "invalid_propensity"] reasons)

/-- The timestamps of some rows. -/
def timestamps : List (Dict F) → Py (List String)
  | [] => .ok []
  | row :: rows =>
    match objOf? row "outcome" with
    | none => timestamps rows
    | some outcome => do
      let recorded := strip (← E.strOr outcome "recorded_at" "")
      let rest ← timestamps rows
      return if recorded = "" then rest else recorded :: rest

/-- `max(texts)`. -/
def maxText : List String → Option String
  | [] => none
  | text :: texts => some (texts.foldl (fun m t => if m < t then t else m) text)

def evidenceCutoff (rows : List (Dict F)) : Py (Option String) := do
  let texts ← timestamps E rows
  return maxText texts

/-! ### The shadow evaluation -/

variable (instant : String → Option ℤ)

/-- The instant of a timestamp, in microseconds; `none` if it is no timestamp with an offset. -/
def parseTimestamp (v : Json F) : Py (Option ℤ) := do
  let text := strip (← E.str (if truthy E.T v then v else .str ""))
  return if text = "" then none else instant text

/-- One round of the loop of `verifiedPostCutoffRows`. -/
def postCutoffCheck (cutoffTime : ℤ) (row : Dict F) : Py (Except String (Dict F)) :=
  match verifiedOutcome? E row with
  | none => .ok (.error "unverified")
  | some outcome => do
    match ← parseTimestamp E instant (getKey outcome "recorded_at") with
    | none => return .error "invalid_timestamp"
    | some recordedAt =>
      if recordedAt ≤ cutoffTime then return .error "not_after_cutoff"
      checkRow E "feature_schema_mismatch" row outcome

/-- The text by which the accepted rows are sorted. -/
def sortText (row : Dict F) : String :=
  strText E.T E.isPrintable
    ((lookup "recorded_at" ((objOf? row "outcome").getD [])).getD (.str ""))

def verifiedPostCutoffRows (rows : List (Dict F)) (cutoff : String) :
    Py (List (Dict F) × List (String × ℕ)) := do
  match ← parseTimestamp E instant (.str cutoff) with
  | none => .error (.valueError "manifest evidence cutoff is not a valid timestamp")
  | some cutoffTime =>
    let (accepted, reasons) ← sift (postCutoffCheck E instant cutoffTime) rows
    return (accepted.insertionSort fun p q => sortText E p ≤ sortText E q,
      counts ["not_after_cutoff", "unverified", "invalid_outcome", "feature_schema_mismatch",
        "invalid_propensity", "invalid_timestamp"] reasons)

/-! ### What passes the checks -/

variable {E instant}

theorem mem_sift {check : Dict F → Py (Except String (Dict F))} :
    ∀ {rows accepted : List (Dict F)} {reasons : List String},
    sift check rows = .ok (accepted, reasons) →
    ∀ x, x ∈ accepted ↔ ∃ row ∈ rows, check row = .ok (.ok x)
  | [], accepted, reasons, h, x => by
    cases h
    simp
  | row :: rows, accepted, reasons, h, x => by
    obtain ⟨verdict, hv, h⟩ := bind_eq_ok.mp h
    obtain ⟨⟨rest, more⟩, hr, h⟩ := bind_eq_ok.mp h
    have ih := mem_sift hr x
    cases verdict with
    | ok y =>
      cases h
      rw [List.mem_cons, List.exists_mem_cons_iff, hv, ih, Except.ok.injEq, Except.ok.injEq,
        @eq_comm _ x]
    | error reason =>
      cases h
      rw [List.exists_mem_cons_iff, hv, ih]
      simp

variable (E) in
/-- What both loops ask of a row, with its features. -/
def Passes (row outcome features : Dict F) : Prop :=
  (∃ reward, finiteNumber? E (getKey outcome "reward") = .ok (some reward)) ∧
  (∃ cost, finiteNumber? E (getKey outcome "realized_cost") = .ok (some cost) ∧
    (E.T.view cost).lt (.fin 0) = false) ∧
  differs E row "feature_schema_version" featureSchemaVersion = false ∧
  normalizeContextFeatures E (getKey row "context_features") = .ok (some features) ∧
  ∃ chosen propensities probability, E.strOr row "chosen_arm" "" = .ok chosen ∧
    objOf? row "arm_propensities" = some propensities ∧
    finiteNumber? E (getKey propensities (strip chosen)) = .ok (some probability) ∧
    (Num.fin 0).lt (E.T.view probability) = true

theorem checkRow_eq_ok {mismatch : String} {row outcome x : Dict F} :
    checkRow E mismatch row outcome = .ok (.ok x) ↔
      ∃ features, Passes E row outcome features ∧
        x = setKey "context_features" (.obj features) row := by
  unfold checkRow
  constructor
  · intro h
    obtain ⟨reward, hreward, h⟩ := bind_eq_ok.mp h
    obtain ⟨cost, hcost, h⟩ := bind_eq_ok.mp h
    cases reward with
    | none => cases h
    | some reward =>
      cases cost with
      | none => cases h
      | some cost =>
        dsimp only at h
        split_ifs at h with hc hd
        · cases h
        · cases h
        · obtain ⟨o, ho, h⟩ := bind_eq_ok.mp h
          cases o with
          | none => cases h
          | some features =>
            obtain ⟨chosen, hchosen, h⟩ := bind_eq_ok.mp h
            cases hp : objOf? row "arm_propensities" with
            | none =>
              rw [hp] at h
              cases h
            | some propensities =>
              rw [hp] at h
              obtain ⟨o, hprob, h⟩ := bind_eq_ok.mp h
              cases o with
              | none => cases h
              | some probability =>
                dsimp only at h
                split_ifs at h with hpos
                · cases h
                  exact ⟨features, ⟨⟨reward, hreward⟩, ⟨cost, hcost, by simpa using hc⟩,
                    by simpa using hd, ho, chosen, propensities, probability, hchosen, hp, hprob,
                    hpos⟩, rfl⟩
                · cases h
  · rintro ⟨features, ⟨⟨reward, hreward⟩, ⟨cost, hcost, hc⟩, hd, ho, chosen, propensities,
      probability, hchosen, hp, hprob, hpos⟩, rfl⟩
    simp only [hreward, hcost, hc, hd, ho, hchosen, hp, hprob, hpos, bind, Except.bind,
      Bool.false_eq_true, if_false, if_true]
    rfl

/-- The timestamp of a row as an instant is read from it. -/
def recorded (row : Dict F) : Json F := getKey ((objOf? row "outcome").getD []) "recorded_at"

/-- The rows are the same up to their observation. -/
def SameRow (row row' : Dict F) : Prop := ∀ k, k ≠ "observation" → lookup k row = lookup k row'

section Same
variable {row row' : Dict F} (h : SameRow row row')
include h

theorem same_getKey {k : String} (hk : k ≠ "observation") : getKey row k = getKey row' k := by
  rw [getKey, h k hk, getKey]

theorem same_objOf? {k : String} (hk : k ≠ "observation") : objOf? row k = objOf? row' k := by
  rw [objOf?, same_getKey h hk, objOf?]

theorem same_passes {outcome features : Dict F} (hp : Passes E row outcome features) : Passes E row' outcome features := by
  obtain ⟨h1, h2, h3, h4, chosen, propensities, probability, h5, h6, h7, h8⟩ := hp
  refine ⟨h1, h2, ?_, ?_, chosen, propensities, probability, ?_, ?_, h7, h8⟩
  · rwa [differs, ← same_getKey h (by decide)]
  · rwa [← same_getKey h (by decide)]
  · rwa [Env.strOr, ← h _ (by decide)]
  · rwa [← same_objOf? h (by decide)]

theorem same_outcome : verifiedOutcome? E row = verifiedOutcome? E row' := by
  rw [verifiedOutcome?, same_objOf? h (by decide), verifiedOutcome?]

theorem same_recorded : recorded row = recorded row' := by
  rw [recorded, same_objOf? h (by decide), recorded]

end Same

/-! ### The greatest timestamp -/

variable (E) in
/-- The timestamp of a row as a text. -/
def stamp (row : Dict F) : String := strip (sortText E row)

theorem timestamps_eq : ∀ {rows : List (Dict F)} {texts : List String},
    (∀ row ∈ rows, (objOf? row "outcome").isSome = true) → timestamps E rows = .ok texts →
    texts = (rows.map (stamp E)).filter fun text => text ≠ ""
  | [], texts, _, h => by
    cases h
    rfl
  | row :: rows, texts, hs, h => by
    rw [List.forall_mem_cons] at hs
    obtain ⟨outcome, ho⟩ := Option.isSome_iff_exists.mp hs.1
    rw [timestamps, ho] at h
    obtain ⟨text, ht, h⟩ := bind_eq_ok.mp h
    obtain ⟨rest, hrest, h⟩ := bind_eq_ok.mp h
    have ih := timestamps_eq hs.2 hrest
    have he : strip text = stamp E row := by
      have := ((pyStr_eq_ok E.T).mp ht).2
      rw [stamp, sortText, ho, ← this]
      rfl
    rw [he] at h
    by_cases hb : stamp E row = ""
    · rw [if_pos hb] at h
      cases h
      rw [List.map_cons, List.filter_cons_of_neg (by simpa using hb)]
      exact ih
    · rw [if_neg hb] at h
      cases h
      rw [List.map_cons, List.filter_cons_of_pos (by simpa using hb), ← ih]

theorem maxText_eq_some {texts : List String} {c : String} (h : maxText texts = some c) :
    c ∈ texts ∧ ∀ text ∈ texts, text ≤ c := by
  cases texts with
  | nil => cases h
  | cons text texts =>
    have hmax : ∀ (texts : List String) (m : String),
        let c := texts.foldl (fun m t => if m < t then t else m) m
        (c = m ∨ c ∈ texts) ∧ m ≤ c ∧ ∀ t ∈ texts, t ≤ c := by
      intro texts
      induction texts with
      | nil => intro m; simp
      | cons t texts ih =>
        intro m
        rw [List.foldl_cons]
        obtain ⟨h1, h2, h3⟩ := ih (if m < t then t else m)
        split_ifs at h1 h2 h3 ⊢ with hm
        · refine ⟨?_, hm.le.trans h2, List.forall_mem_cons.mpr ⟨h2, h3⟩⟩
          rcases h1 with h1 | h1
          · rw [h1]
            exact Or.inr (List.mem_cons_self ..)
          · exact Or.inr (List.mem_cons_of_mem _ h1)
        · refine ⟨?_, h2, List.forall_mem_cons.mpr ⟨(not_lt.mp hm).trans h2, h3⟩⟩
          rcases h1 with h1 | h1
          · exact Or.inl h1
          · exact Or.inr (List.mem_cons_of_mem _ h1)
    rw [maxText, Option.some.injEq] at h
    obtain ⟨h1, h2, h3⟩ := hmax texts text
    rw [h] at h1 h2 h3
    refine ⟨?_, List.forall_mem_cons.mpr ⟨h2, h3⟩⟩
    rcases h1 with h1 | h1
    · exact h1 ▸ List.mem_cons_self ..
    · exact List.mem_cons_of_mem _ h1

/-! ### Training and shadow rows -/

theorem featureCheck_eq_ok {row x : Dict F} (h : featureCheck E row = .ok (.ok x)) :
    ∃ outcome features, verifiedOutcome? E row = some outcome ∧ Passes E row outcome features ∧
      x = setKey "context_features" (.obj features) row := by
  unfold featureCheck at h
  cases ho : verifiedOutcome? E row with
  | none =>
    rw [ho] at h
    cases h
  | some outcome =>
    rw [ho] at h
    obtain ⟨features, hp, hx⟩ := checkRow_eq_ok.mp h
    exact ⟨outcome, features, rfl, hp, hx⟩

theorem postCutoffCheck_eq_ok {cutoffTime : ℤ} {row x : Dict F} :
    postCutoffCheck E instant cutoffTime row = .ok (.ok x) ↔
      ∃ outcome features t, verifiedOutcome? E row = some outcome ∧
        parseTimestamp E instant (getKey outcome "recorded_at") = .ok (some t) ∧ cutoffTime < t ∧
        Passes E row outcome features ∧ x = setKey "context_features" (.obj features) row := by
  unfold postCutoffCheck
  constructor
  · intro h
    cases ho : verifiedOutcome? E row with
    | none =>
      rw [ho] at h
      cases h
    | some outcome =>
      rw [ho] at h
      obtain ⟨o, hp, h⟩ := bind_eq_ok.mp h
      cases o with
      | none => cases h
      | some t =>
        dsimp only at h
        split_ifs at h with ht
        · cases h
        · obtain ⟨features, hpass, hx⟩ := checkRow_eq_ok.mp h
          exact ⟨outcome, features, t, rfl, hp, not_le.mp ht, hpass, hx⟩
  · rintro ⟨outcome, features, t, ho, hp, ht, hpass, hx⟩
    have hr := (@checkRow_eq_ok F E "feature_schema_mismatch" row outcome x).mpr ⟨features, hpass, hx⟩
    simp only [ho, hp, not_le.mpr ht, bind, Except.bind, if_false]
    exact hr

/-- The outcome of a row that passed is that of the row it was made from. -/
theorem objOf?_of_verified {row outcome : Dict F} (h : verifiedOutcome? E row = some outcome) :
    objOf? row "outcome" = some outcome := by
  unfold verifiedOutcome? at h
  split at h
  · next ho =>
    split_ifs at h
    cases h
    exact ho
  · cases h

theorem sameRow_features {row : Dict F} {v w : Json F} {row' : Dict F} (h : SameRow row row')
    (hv : v = w) : SameRow (setKey "context_features" v row) (setKey "context_features" w row') := by
  intro k hk
  by_cases hf : "context_features" = k
  · rw [← hf, lookup_setKey_self, lookup_setKey_self, hv]
  · rw [lookup_setKey_ne hf, lookup_setKey_ne hf, h k hk]

theorem objOf?_setFeatures {row : Dict F} {v : Json F} :
    objOf? (setKey "context_features" v row) "outcome" = objOf? row "outcome" := by
  rw [objOf?, getKey_setKey_ne (by decide), objOf?]

variable (E) in
/-- The row is one of a report. -/
def Contributes (row : Dict F) : Prop := ∃ x, featureCheck E row = .ok (.ok x)

variable (E instant) in
/-- Among the rows of a report, one with the greatest timestamp as a text is not earlier than another. -/
def LastIsLatest (rows : List (Dict F)) : Prop :=
  ∀ m ∈ rows, Contributes E m → (∀ r ∈ rows, Contributes E r → stamp E r ≤ stamp E m) →
    ∀ r ∈ rows, Contributes E r → ∀ i k,
      parseTimestamp E instant (recorded r) = .ok (some i) →
      parseTimestamp E instant (.str (stamp E m)) = .ok (some k) → i ≤ k

/-- What a report takes of a row is its timestamp, too. -/
theorem recorded_of_featureCheck {row x : Dict F} (h : featureCheck E row = .ok (.ok x)) :
    recorded x = recorded row ∧ stamp E x = stamp E row ∧ (objOf? x "outcome").isSome = true := by
  obtain ⟨outcome, features, ho, -, rfl⟩ := featureCheck_eq_ok h
  have he : objOf? (setKey "context_features" (.obj features) row) "outcome" = objOf? row "outcome" :=
    objOf?_setFeatures
  refine ⟨by rw [recorded, he, recorded], by rw [stamp, sortText, he, stamp, sortText], ?_⟩
  rw [he, objOf?_of_verified ho]
  rfl

variable {rows rows' accepted accepted' : List (Dict F)} {excluded excluded' : List (String × ℕ)}
  {cutoff : String}

/-- The rows of a report and its cutoff. -/
theorem report_rows (h : verifiedFeatureRows E rows = .ok (accepted, excluded)) (x : Dict F) :
    x ∈ accepted ↔ ∃ row ∈ rows, featureCheck E row = .ok (.ok x) := by
  obtain ⟨⟨_, reasons⟩, hsift, h⟩ := bind_eq_ok.mp h
  cases h
  exact mem_sift hsift x

/-- The cutoff of a report is the greatest timestamp of its rows, and the timestamp of one. -/
theorem cutoff_greatest (h : verifiedFeatureRows E rows = .ok (accepted, excluded))
    (hc : evidenceCutoff E accepted = .ok (some cutoff)) :
    (∃ m ∈ rows, Contributes E m ∧ stamp E m = cutoff) ∧
      ∀ r ∈ rows, Contributes E r → stamp E r ≤ cutoff := by
  have hacc := report_rows h
  have hout : ∀ x ∈ accepted, (objOf? x "outcome").isSome = true := by
    intro x hx
    obtain ⟨row, -, hrow⟩ := (hacc x).mp hx
    exact (recorded_of_featureCheck hrow).2.2
  obtain ⟨texts, htexts, hc⟩ := bind_eq_ok.mp hc
  obtain ⟨hmem, hmax⟩ := maxText_eq_some (Except.ok.inj hc)
  rw [timestamps_eq hout htexts] at hmem hmax
  constructor
  · obtain ⟨x, hx, hxc⟩ := List.mem_map.mp (List.mem_filter.mp hmem).1
    obtain ⟨row, hrow, hcheck⟩ := (hacc x).mp hx
    exact ⟨row, hrow, ⟨x, hcheck⟩, by rw [← (recorded_of_featureCheck hcheck).2.1, hxc]⟩
  · rintro r hr ⟨x, hcheck⟩
    have hx : x ∈ accepted := (hacc x).mpr ⟨r, hr, hcheck⟩
    rw [← (recorded_of_featureCheck hcheck).2.1]
    by_cases he : stamp E x = ""
    · rw [he]
      exact not_lt.mp fun hlt => List.not_lt_nil _ (String.lt_iff_toList_lt.mp hlt)
    · exact hmax _ (List.mem_filter.mpr ⟨List.mem_map_of_mem hx, by simpa using he⟩)

/-- The rows behind a cutoff. -/
theorem shadow_rows (h : verifiedPostCutoffRows E instant rows cutoff = .ok (accepted, excluded)) :
    ∃ k, parseTimestamp E instant (.str cutoff) = .ok (some k) ∧
      ∀ x, x ∈ accepted ↔ ∃ row ∈ rows, postCutoffCheck E instant k row = .ok (.ok x) := by
  obtain ⟨o, hcut, h⟩ := bind_eq_ok.mp h
  cases o with
  | none => cases h
  | some k =>
    obtain ⟨⟨shadow, reasons⟩, hsift, h⟩ := bind_eq_ok.mp h
    cases h
    refine ⟨k, hcut, fun x => ?_⟩
    rw [(List.perm_insertionSort _ _).mem_iff]
    exact mem_sift hsift x

/-- **Training and shadow evidence**: in a later store, the shadow evaluation of a report takes no row
of the report, and only rows later than all of these, if and only if the last timestamp of the report
as a text is the latest. -/
theorem disjoint_iff (h : verifiedFeatureRows E rows = .ok (accepted, excluded))
    (hc : evidenceCutoff E accepted = .ok (some cutoff))
    (h' : verifiedPostCutoffRows E instant rows' cutoff = .ok (accepted', excluded'))
    (hsub : ∀ row ∈ rows, ∃ row' ∈ rows', SameRow row row') :
    (∀ r ∈ accepted, ∀ r' ∈ accepted', ¬ SameRow r r' ∧
      ∀ i j, parseTimestamp E instant (recorded r) = .ok (some i) →
        parseTimestamp E instant (recorded r') = .ok (some j) → i < j) ↔
      LastIsLatest E instant rows := by
  have hacc := report_rows h
  obtain ⟨⟨m, hm, hmc, hstamp⟩, hgreatest⟩ := cutoff_greatest h hc
  obtain ⟨k, hcut, hacc'⟩ := shadow_rows h'
  constructor
  · intro hdis m' hm' hmc' hge r hr hrc i k' hi hk'
    -- The cutoff is the timestamp of `m'`, too.
    have hsame : stamp E m' = cutoff :=
      le_antisymm (hgreatest m' hm' hmc') (hstamp ▸ hge m hm hmc)
    rw [hsame, hcut, Except.ok.injEq, Option.some.injEq] at hk'
    subst hk'
    by_contra hlt
    obtain ⟨x, hx⟩ := hrc
    obtain ⟨outcome, features, ho, hpass, hxe⟩ := featureCheck_eq_ok hx
    obtain ⟨row', hrow', hsr⟩ := hsub r hr
    have hrec : recorded r = getKey outcome "recorded_at" := by
      rw [recorded, objOf?_of_verified ho, Option.getD_some]
    have hcheck : postCutoffCheck E instant k row' =
        .ok (.ok (setKey "context_features" (.obj features) row')) :=
      postCutoffCheck_eq_ok.mpr ⟨outcome, features, i, same_outcome hsr ▸ ho, hrec ▸ hi,
        not_le.mp hlt, same_passes hsr hpass, rfl⟩
    refine (hdis x ((hacc x).mpr ⟨r, hr, hx⟩) _ ((hacc' _).mpr ⟨row', hrow', hcheck⟩)).1 ?_
    rw [hxe]
    exact sameRow_features hsr rfl
  · intro hlast r hr r' hr'
    obtain ⟨row, hrow, hcheck⟩ := (hacc r).mp hr
    obtain ⟨row', hrow', hcheck'⟩ := (hacc' r').mp hr'
    obtain ⟨outcome, features, t, ho, ht, hkt, -, hxe⟩ := postCutoffCheck_eq_ok.mp hcheck'
    have hrec' : parseTimestamp E instant (recorded r') = .ok (some t) := by
      rw [recorded, hxe, objOf?_setFeatures, objOf?_of_verified ho, Option.getD_some, ht]
    have hle : ∀ i, parseTimestamp E instant (recorded r) = .ok (some i) → i ≤ k := by
      intro i hi
      rw [(recorded_of_featureCheck hcheck).1] at hi
      exact hlast m hm hmc (fun r hr hrc => hstamp ▸ hgreatest r hr hrc) row hrow ⟨r, hcheck⟩ i k hi
        (by rw [hstamp, hcut])
    constructor
    · intro hsr
      have := hle t (by rw [same_recorded hsr, hrec'])
      omega
    · intro i j hi hj
      have := hle i hi
      rw [hrec', Except.ok.injEq, Option.some.injEq] at hj
      omega

/-! ### Timestamps of two offsets -/

/-- The number of two digits. -/
def two? (a b : Char) : Option ℕ :=
  if a.isDigit && b.isDigit then some (10 * (a.toNat - 48) + (b.toNat - 48)) else none

/-- The lengths of the months of a year. -/
def monthDays (year : ℕ) : List ℕ :=
  let leap := year % 4 = 0 ∧ (year % 100 ≠ 0 ∨ year % 400 = 0)
  [31, if leap then 29 else 28, 31, 30, 31, 30, 31, 31, 30, 31, 30, 31]

/-- The days before a day, from the first day of the year 1 on. -/
def dayNumber (year month day : ℕ) : ℕ :=
  let before := year - 1
  365 * before + before / 4 - before / 100 + before / 400 + ((monthDays year).take (month - 1)).sum +
    (day - 1)

/-- The instant of a timestamp of the form `YYYY-MM-DDThh:mm:ss+hh:mm`, the one the program writes
without fractions of a second; other forms are not read. -/
def isoInstant (s : String) : Option ℤ :=
  match s.toList with
  | [y1, y2, y3, y4, '-', m1, m2, '-', d1, d2, 'T', h1, h2, ':', n1, n2, ':', s1, s2, sign, a1, a2, ':',
      b1, b2] => do
    let year : ℕ := 100 * (← two? y1 y2) + (← two? y3 y4)
    let month ← two? m1 m2
    let day ← two? d1 d2
    let hour ← two? h1 h2
    let minute ← two? n1 n2
    let second ← two? s1 s2
    let offset : ℕ := 60 * (← two? a1 a2) + (← two? b1 b2)
    if 0 < year ∧ 1 ≤ month ∧ month ≤ 12 ∧ 1 ≤ day ∧ day ≤ (monthDays year).getD (month - 1) 0 ∧
        hour < 24 ∧ minute < 60 ∧ second < 60 ∧ offset < 1440 ∧ (sign = '+' ∨ sign = '-') then
      let minutes : ℤ := 1440 * dayNumber year month day + 60 * hour + minute
      let utc := if sign = '+' then minutes - offset else minutes + offset
      some (1000000 * (60 * utc + second))
    else none
  | _ => none

/-- A row of the store. -/
def rowAt (id recordedAt : String) : Dict Cell :=
  [("decision_id", .str id), ("feature_schema_version", .str featureSchemaVersion),
    ("context_features", .obj [("lane", .str "small"), ("risk", .str "low"),
      ("intent", .str "exact"), ("query_length_bucket", .str "1-4"),
      ("changed_files_bucket", .str "0"), ("workspace_roots_bucket", .str "1")]),
    ("chosen_arm", .str "adaptive_math"), ("arm_propensities", .obj [("adaptive_math", .float .one)]),
    ("observation", .null),
    ("outcome", .obj [("verified", .bool true), ("reward", .float .one),
      ("realized_cost", .float .zero), ("recorded_at", .str recordedAt)])]

def eastern : Dict Cell := rowAt "east" "2026-01-01T12:00:00+00:00"

/-- Ten o'clock in the west is later than noon in the east. -/
def western : Dict Cell := rowAt "west" "2026-01-01T10:00:00-05:00"

/-- **A row of a report is taken as a row behind its cutoff.** -/
theorem not_disjoint_offsets : ∃ accepted excluded cutoff accepted' excluded',
    verifiedFeatureRows platform [eastern, western] = .ok (accepted, excluded) ∧
    evidenceCutoff platform accepted = .ok (some cutoff) ∧
    verifiedPostCutoffRows platform isoInstant [eastern, western] cutoff =
      .ok (accepted', excluded') ∧
    western ∈ accepted ∧ western ∈ accepted' := by
  refine ⟨[eastern, western], [("unverified", 0), ("invalid_outcome", 0),
    ("missing_current_features", 0), ("invalid_propensity", 0)], "2026-01-01T12:00:00+00:00",
    [western], [("not_after_cutoff", 1), ("unverified", 0), ("invalid_outcome", 0),
    ("feature_schema_mismatch", 0), ("invalid_propensity", 0), ("invalid_timestamp", 0)], ?_, ?_, ?_,
    by simp, by simp⟩
  · decide +kernel
  · decide +kernel
  · decide +kernel

theorem disjoint_eastern : ∃ accepted excluded cutoff accepted' excluded',
    verifiedFeatureRows platform [eastern] = .ok (accepted, excluded) ∧
    evidenceCutoff platform accepted = .ok (some cutoff) ∧
    verifiedPostCutoffRows platform isoInstant [eastern, western] cutoff =
      .ok (accepted', excluded') ∧
    western ∈ accepted' ∧
    ∀ r ∈ accepted, ∀ r' ∈ accepted', ¬ SameRow r r' ∧
      ∀ i j, parseTimestamp platform isoInstant (recorded r) = .ok (some i) →
        parseTimestamp platform isoInstant (recorded r') = .ok (some j) → i < j := by
  have hrows : verifiedFeatureRows platform [eastern] = .ok ([eastern], [("unverified", 0),
      ("invalid_outcome", 0), ("missing_current_features", 0), ("invalid_propensity", 0)]) := by
    decide +kernel
  have hcut : evidenceCutoff platform [eastern] = .ok (some "2026-01-01T12:00:00+00:00") := by
    decide +kernel
  have hshadow : verifiedPostCutoffRows platform isoInstant [eastern, western]
      "2026-01-01T12:00:00+00:00" = .ok ([western], [("not_after_cutoff", 1), ("unverified", 0),
        ("invalid_outcome", 0), ("feature_schema_mismatch", 0), ("invalid_propensity", 0),
        ("invalid_timestamp", 0)]) := by
    decide +kernel
  have hparse : parseTimestamp platform isoInstant (recorded eastern) =
      parseTimestamp platform isoInstant (.str (stamp platform eastern)) := by
    decide +kernel
  refine ⟨_, _, _, _, _, hrows, hcut, hshadow, by simp, ?_⟩
  refine (disjoint_iff hrows hcut hshadow fun row hrow => ⟨row, ?_, fun _ _ => rfl⟩).mpr ?_
  · rw [List.mem_singleton.mp hrow]
    exact List.mem_cons_self ..
  · intro m hm _ _ r hr _ i k hi hk
    rw [List.mem_singleton.mp hr, hparse] at hi
    rw [List.mem_singleton.mp hm, hi, Except.ok.injEq, Option.some.injEq] at hk
    exact hk.le

end ControlPlane.Policy.Cutoff
