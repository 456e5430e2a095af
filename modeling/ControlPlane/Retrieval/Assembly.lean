import ControlPlane.Retrieval.Selection
import ControlPlane.Instance
import Mathlib.Algebra.Order.BigOperators.Group.List

/-! # The items of an answer

`assemble` is the part of the engine that makes the returned items of the ranked candidates: the selector
chooses, or, if it is disabled or chooses nothing, `hardCap` takes the candidates in their order and cuts
the texts to the characters that are left; behind the selector the tokens are bounded, too.

`ceilings_iff`: the items are within the reduced budgets of the lane and have no dedupe key twice if and
only if the selector serves, or no text that is cut gets the key of another one and, with the selector
disabled, the texts happen to be within the budget of tokens. -/

namespace ControlPlane.Retrieval.Assembly

open ControlPlane.Lib.Value ControlPlane.Lib.Text ControlPlane.Lib.Dynamic ControlPlane.Lib.Grid
open ControlPlane.Environment ControlPlane.Instance ControlPlane.Retrieval.Items
open ControlPlane.Retrieval.Budget ControlPlane.Retrieval.Selection

variable {F : Type} (E : Env F) (blake2b : String → String) (tokenize : String → List String)

/-! ### The hard cap -/

/-- The items within `chars` characters, of which `used` are taken; keys are looked up before a text is
cut. -/
def hardCap (chars : ℤ) : List (ContextItem F) → List String → ℕ → List (ContextItem F)
  | [], _, _ => []
  | item :: items, seen, used =>
    let key := dedupeKey blake2b item
    if chars ≤ used ∨ key ∈ seen then hardCap chars items seen used
    else
      let (text, cut) := truncate item.text (chars - used).toNat
      if text = "" then hardCap chars items (key :: seen) used
      else
        { item with
          text := text
          metadata := if cut then setKey "truncated" (.bool true) item.metadata else item.metadata
          evidence := none } :: hardCap chars items (key :: seen) (used + text.length)

/-- Those that are within `tokens` tokens, of which `used` are taken. -/
def tokenBounded {α : Type} (text : α → String) (tokens : ℤ) : List α → ℕ → List α
  | [], _ => []
  | x :: xs, used =>
    if tokens < used + estimateTokens (text x) then tokenBounded text tokens xs used
    else x :: tokenBounded text tokens xs (used + estimateTokens (text x))

/-! ### The engine -/

/-- The part of a retrieval plan that is read here. -/
structure Plan where
  useStructural : Bool
  structuralPatterns : List String

/-- The item says of itself that it is structural evidence of a wanted pattern. -/
def structural (plan : Plan) (item : ContextItem F) : Py Bool :=
  if !truthy E.T (getKey item.metadata "structural_valid") then .ok false
  else if plan.structuralPatterns.isEmpty then .ok true
  else do
    let pattern := getKey item.metadata "pattern"
    return plan.structuralPatterns.contains
      (← E.str (if truthy E.T pattern then pattern else .str ""))

/-- The sources of the structural items. -/
def structuralSources (plan : Plan) : List (ContextItem F) → Py (List String)
  | [] => .ok []
  | item :: items => do
    let here ← structural E plan item
    let rest ← structuralSources plan items
    return if here then item.source :: rest else rest

/-- An option of the selector that is on by default. -/
def selectorOption (config : Dict F) (name : String) : Bool :=
  truthy E.T ((lookup name (contextSection config "selector")).getD (.bool true))

def mandatorySources (plan : Plan) (candidates : List (ContextItem F)) (config : Dict F) :
    Py (List String) := do
  let sources ← structuralSources E plan candidates
  return if plan.useStructural && selectorOption E config "mandatory_structural_evidence" then
    sources.eraseDups else []

/-- The choice of the selector, and the capped candidates if it is empty. -/
def selectOrCap (query : String) (candidates : List (ContextItem F)) (plan : Plan) (config : Dict F)
    (chars tokens : ℤ) : Py (List (ContextItem F)) := do
  let sources ← mandatorySources E plan candidates config
  let selected ← selectContext blake2b tokenize E query candidates chars config sources (some tokens)
  return if selected.isEmpty && !candidates.isEmpty then
    tokenBounded ContextItem.text tokens (hardCap blake2b chars candidates [] 0) 0 else selected

def selectItems (query : String) (candidates : List (ContextItem F)) (plan : Plan) (config : Dict F)
    (chars tokens : ℤ) : Py (List (ContextItem F)) :=
  if selectorOption E config "enabled" then
    selectOrCap E blake2b tokenize query candidates plan config chars tokens
  else .ok (hardCap blake2b chars candidates [] 0)

/-- The returned items, given how sufficient the candidates are; `envelope` makes the evidence of an
item. -/
def assemble (query : String) (candidates : List (ContextItem F)) (budget : ContextBudget) (plan : Plan)
    (config : Dict F) (score : F) (envelope : ContextItem F → EvidenceEnvelope F) :
    Py (List (ContextItem F)) := do
  let chars ← adaptiveCharLimit E budget score config
  let tokens ← adaptiveTokenLimit E budget score config
  let selected ← selectItems E blake2b tokenize query candidates plan config chars tokens
  return selected.map fun item => { item with evidence := some (envelope item) }

/-! ### Turns -/

/-- The candidates with new keys, each with the characters that those before it leave. -/
def turns (chars : ℤ) : List (ContextItem F) → List String → ℕ → List (ContextItem F × ℕ)
  | [], _, _ => []
  | item :: items, seen, used =>
    if chars ≤ used ∨ dedupeKey blake2b item ∈ seen then turns chars items seen used
    else (item, (chars - used).toNat) :: turns chars items (dedupeKey blake2b item :: seen)
      (used + (truncate item.text (chars - used).toNat).1.length)

/-- The text of a candidate, cut to its room. -/
def textAt (turn : ContextItem F × ℕ) : String := (truncate turn.1.text turn.2).1

/-- The text does not fit. -/
def cutAt (turn : ContextItem F × ℕ) : Bool := (truncate turn.1.text turn.2).2

/-- The key of the text, cut to its room. -/
def keyAt (turn : ContextItem F × ℕ) : String := blake2b (" ".intercalate (words (textAt turn)))

/-- The item that the hard cap makes of a candidate. -/
def itemAt (turn : ContextItem F × ℕ) : ContextItem F :=
  { turn.1 with
    text := textAt turn
    metadata :=
      if cutAt turn then setKey "truncated" (.bool true) turn.1.metadata else turn.1.metadata
    evidence := none }

/-- The turns with a text. -/
def texts (chars : ℤ) (candidates : List (ContextItem F)) : List (ContextItem F × ℕ) :=
  (turns blake2b chars candidates [] 0).filter fun turn => textAt turn ≠ ""

/-- No text that is cut gets the key of another one. -/
def CutsApart (shown : List (ContextItem F × ℕ)) : Prop :=
  shown.Pairwise fun a b => cutAt a = true ∨ cutAt b = true → keyAt blake2b a ≠ keyAt blake2b b

variable {E blake2b tokenize}

theorem hardCap_eq {chars : ℤ} : ∀ (items : List (ContextItem F)) (seen : List String) (used : ℕ),
    hardCap blake2b chars items seen used =
      ((turns blake2b chars items seen used).filter fun turn => textAt turn ≠ "").map itemAt
  | [], _, _ => rfl
  | item :: items, seen, used => by
    unfold hardCap turns
    dsimp only
    by_cases hskip : chars ≤ used ∨ dedupeKey blake2b item ∈ seen
    · rw [if_pos hskip, if_pos hskip]
      exact hardCap_eq items seen used
    · rw [if_neg hskip, if_neg hskip]
      by_cases hempty : (truncate item.text (chars - used).toNat).1 = ""
      · rw [if_pos hempty, List.filter_cons_of_neg (by simpa [textAt] using hempty), hempty]
        exact hardCap_eq items _ used
      · rw [if_neg hempty, List.filter_cons_of_pos (by simpa [textAt] using hempty), List.map_cons,
          hardCap_eq items _ _]
        rfl

theorem sum_turns (chars : ℤ) : ∀ (items : List (ContextItem F)) (seen : List String) (used : ℕ),
    (used : ℤ) ≤ chars → (used : ℤ) +
      (((turns blake2b chars items seen used).map fun turn => (textAt turn).length).sum : ℕ) ≤ chars
  | [], _, used, h => by simpa [turns] using h
  | item :: items, seen, used, h => by
    unfold turns
    split_ifs with hskip
    · exact sum_turns chars items seen used h
    · have hlen := length_truncate_le item.text (chars - used).toNat
      have ih := sum_turns chars items (dedupeKey blake2b item :: seen)
        (used + (truncate item.text (chars - used).toNat).1.length) (by omega)
      rw [List.map_cons, List.sum_cons]
      have htext : textAt (item, (chars - used).toNat) =
        (truncate item.text (chars - used).toNat).1 := rfl
      rw [htext]
      omega

/-- The candidates of the turns have different keys. -/
theorem keys_turns {chars : ℤ} : ∀ (items : List (ContextItem F)) (seen : List String) (used : ℕ),
    ((turns blake2b chars items seen used).map fun turn => dedupeKey blake2b turn.1).Nodup ∧
      ∀ turn ∈ turns blake2b chars items seen used, dedupeKey blake2b turn.1 ∉ seen
  | [], _, _ => by simp [turns]
  | item :: items, seen, used => by
    unfold turns
    split_ifs with hskip
    · exact keys_turns items seen used
    · rw [not_or] at hskip
      obtain ⟨hnodup, hseen⟩ := keys_turns items (dedupeKey blake2b item :: seen)
        (used + (truncate item.text (chars - used).toNat).1.length)
      constructor
      · rw [List.map_cons, List.nodup_cons]
        refine ⟨fun hmem => ?_, hnodup⟩
        obtain ⟨turn, hturn, he⟩ := List.mem_map.mp hmem
        exact hseen turn hturn (he ▸ List.mem_cons_self ..)
      · intro turn hturn
        rcases List.mem_cons.mp hturn with rfl | hturn
        · exact hskip.2
        · exact fun hmem => hseen turn hturn (List.mem_cons_of_mem _ hmem)

/-- Only texts that are cut can get the key of another. -/
theorem nodup_iff {shown : List (ContextItem F × ℕ)}
    (h : (shown.map fun turn => dedupeKey blake2b turn.1).Nodup) :
    (shown.map (keyAt blake2b)).Nodup ↔ CutsApart blake2b shown := by
  have hwhole : ∀ turn : ContextItem F × ℕ, cutAt turn = false →
      keyAt blake2b turn = dedupeKey blake2b turn.1 := by
    intro turn hcut
    rw [keyAt, textAt, truncate_whole hcut, dedupeKey]
  unfold CutsApart
  rw [List.Nodup, List.pairwise_map] at h ⊢
  constructor
  · refine fun hn => hn.imp ?_
    intro a b hne _
    exact hne
  · intro hc
    refine (h.and hc).imp ?_
    rintro a b ⟨hne, hcut⟩
    by_cases hab : cutAt a = true ∨ cutAt b = true
    · exact hcut hab
    · rw [not_or, Bool.not_eq_true, Bool.not_eq_true] at hab
      rw [hwhole a hab.1, hwhole b hab.2]
      exact hne

theorem tokenBounded_map {α β : Type} (f : α → β) {text : β → String} {tokens : ℤ} :
    ∀ (xs : List α) (used : ℕ), tokenBounded text tokens (xs.map f) used =
      (tokenBounded (fun x => text (f x)) tokens xs used).map f
  | [], _ => rfl
  | x :: xs, used => by
    rw [List.map_cons]
    unfold tokenBounded
    split_ifs
    · exact tokenBounded_map f xs used
    · rw [List.map_cons, tokenBounded_map f xs]

theorem sublist_tokenBounded {α : Type} {text : α → String} {tokens : ℤ} :
    ∀ (xs : List α) (used : ℕ), (tokenBounded text tokens xs used).Sublist xs
  | [], _ => List.Sublist.refl _
  | x :: xs, used => by
    unfold tokenBounded
    split_ifs
    · exact (sublist_tokenBounded xs used).cons x
    · exact (sublist_tokenBounded xs _).cons_cons x

theorem sum_tokenBounded {α : Type} (text : α → String) (tokens : ℤ) :
    ∀ (xs : List α) (used : ℕ), (used : ℤ) ≤ tokens → (used : ℤ) +
      (((tokenBounded text tokens xs used).map fun x => estimateTokens (text x)).sum : ℕ) ≤ tokens
  | [], used, h => by simpa [tokenBounded] using h
  | x :: xs, used, h => by
    unfold tokenBounded
    split_ifs with hx
    · exact sum_tokenBounded text tokens xs used h
    · have ih := sum_tokenBounded text tokens xs (used + estimateTokens (text x)) (by push_cast; omega)
      rw [List.map_cons, List.sum_cons]
      push_cast at ih ⊢
      omega

/-! ### The ceilings -/

variable (E blake2b tokenize) in
/-- The selector is enabled and chooses something, or there is nothing to choose from. -/
def Serves (query : String) (candidates : List (ContextItem F)) (plan : Plan) (config : Dict F)
    (chars tokens : ℤ) : Prop :=
  selectorOption E config "enabled" = true ∧
    ∀ sources selected, mandatorySources E plan candidates config = .ok sources →
      selectContext blake2b tokenize E query candidates chars config sources (some tokens) =
        .ok selected → selected ≠ [] ∨ candidates = []

variable (E blake2b) in
/-- The candidates that the hard cap shows: behind the selector those within the budget of tokens. -/
def shown (candidates : List (ContextItem F)) (config : Dict F) (chars tokens : ℤ) :
    List (ContextItem F × ℕ) :=
  if selectorOption E config "enabled" then
    tokenBounded textAt tokens (texts blake2b chars candidates) 0
  else texts blake2b chars candidates

variable (blake2b) in
/-- The items are within the budgets and have no key twice. -/
def Within (items : List (ContextItem F)) (chars tokens : ℤ) : Prop :=
  (totalChars items : ℤ) ≤ chars ∧ (totalTokens items : ℤ) ≤ tokens ∧
    (items.map (dedupeKey blake2b)).Nodup

theorem sublist_shown {candidates : List (ContextItem F)} {config : Dict F} {chars tokens : ℤ} :
    (shown E blake2b candidates config chars tokens).Sublist (turns blake2b chars candidates [] 0) := by
  unfold shown texts
  split_ifs
  · exact (sublist_tokenBounded _ 0).trans List.filter_sublist
  · exact List.filter_sublist

/-- **What the hard cap shows is within the budgets** if no cut gives a key twice and, without the
selector, the tokens are few. -/
theorem within_shown_iff {candidates : List (ContextItem F)} {config : Dict F} {chars tokens : ℤ}
    (hchars : 0 ≤ chars) (htokens : 0 ≤ tokens) :
    Within blake2b ((shown E blake2b candidates config chars tokens).map itemAt) chars tokens ↔
      CutsApart blake2b (shown E blake2b candidates config chars tokens) ∧
        (selectorOption E config "enabled" = true ∨
          (((texts blake2b chars candidates).map fun turn => estimateTokens (textAt turn)).sum : ℕ) ≤
            tokens) := by
  have hsub := @sublist_shown F E blake2b candidates config chars tokens
  have hkeys := (@keys_turns F blake2b chars candidates [] 0).1.sublist (hsub.map _)
  have hlength : (totalChars ((shown E blake2b candidates config chars tokens).map itemAt) : ℤ) ≤
      chars := by
    have hall := @sum_turns F blake2b chars candidates [] 0 (by simpa using hchars)
    have hpart := (hsub.map fun turn => (textAt turn).length).sum_le_sum fun _ _ => Nat.zero_le _
    rw [totalChars, List.map_map]
    have hcomp : (fun item : ContextItem F => item.text.length) ∘ itemAt =
      fun turn => (textAt turn).length := rfl
    rw [hcomp]
    omega
  have hnodup : (((shown E blake2b candidates config chars tokens).map itemAt).map
      (dedupeKey blake2b)).Nodup ↔
      CutsApart blake2b (shown E blake2b candidates config chars tokens) := by
    rw [List.map_map]
    exact nodup_iff hkeys
  have hcount : (totalTokens ((shown E blake2b candidates config chars tokens).map itemAt) : ℤ) ≤
      tokens ↔ (selectorOption E config "enabled" = true ∨
        (((texts blake2b chars candidates).map fun turn => estimateTokens (textAt turn)).sum : ℕ) ≤
          tokens) := by
    rw [totalTokens, List.map_map]
    have hcomp : (fun item : ContextItem F => estimateTokens item.text) ∘ itemAt =
      fun turn => estimateTokens (textAt turn) := rfl
    rw [hcomp]
    unfold shown
    by_cases he : selectorOption E config "enabled" = true
    · rw [if_pos he]
      have := sum_tokenBounded textAt tokens (texts blake2b chars candidates) 0 (by simpa using htokens)
      exact ⟨fun _ => Or.inl he, fun _ => by omega⟩
    · rw [if_neg he]
      exact ⟨Or.inr, fun h => h.resolve_left he⟩
  unfold Within
  rw [hnodup, hcount]
  exact ⟨fun h => ⟨h.2.2, h.2.1⟩, fun h => ⟨hlength, h.2, h.1⟩⟩

/-- The budgets and the keys do not see the evidence. -/
theorem within_evidence (envelope : ContextItem F → EvidenceEnvelope F) {items : List (ContextItem F)}
    {chars tokens : ℤ} :
    Within blake2b (items.map fun item => { item with evidence := some (envelope item) }) chars tokens ↔
      Within blake2b items chars tokens := by
  unfold Within totalChars totalTokens
  rw [List.map_map, List.map_map, List.map_map]
  rfl

/-- The selected items are what the selector returns, or what the hard cap shows. -/
theorem selectItems_cases {query : String} {candidates : List (ContextItem F)} {plan : Plan}
    {config : Dict F} {chars tokens : ℤ} {selected : List (ContextItem F)}
    (hchars : 0 ≤ chars) (htokens : 0 ≤ tokens)
    (h : selectItems E blake2b tokenize query candidates plan config chars tokens = .ok selected) :
    (Serves E blake2b tokenize query candidates plan config chars tokens ∧
      Within blake2b selected chars tokens) ∨
    (¬ Serves E blake2b tokenize query candidates plan config chars tokens ∧
      selected = (shown E blake2b candidates config chars tokens).map itemAt) := by
  unfold selectItems at h
  by_cases he : selectorOption E config "enabled" = true
  · rw [if_pos he] at h
    obtain ⟨sources, hsources, h⟩ := bind_eq_ok.mp h
    obtain ⟨chosen, hchosen, h⟩ := bind_eq_ok.mp h
    by_cases hnone : (chosen.isEmpty && !candidates.isEmpty) = true
    · rw [if_pos hnone] at h
      cases h
      refine Or.inr ⟨fun hs => ?_, ?_⟩
      · rw [Bool.and_eq_true, List.isEmpty_iff, Bool.not_eq_true', List.isEmpty_eq_false_iff] at hnone
        rcases hs.2 sources chosen hsources hchosen with hne | hnil
        · exact hne hnone.1
        · exact hnone.2 hnil
      · rw [hardCap_eq, shown, if_pos he, tokenBounded_map]
        rfl
    · rw [if_neg hnone] at h
      cases h
      refine Or.inl ⟨⟨he, fun sources' chosen' hs hc => ?_⟩,
        within_selectContext hchars htokens hchosen⟩
      rw [hsources, Except.ok.injEq] at hs
      subst hs
      rw [hchosen, Except.ok.injEq] at hc
      subst hc
      rw [Bool.and_eq_true, List.isEmpty_iff, Bool.not_eq_true', List.isEmpty_eq_false_iff,
        not_and_or, not_not] at hnone
      exact hnone
  · rw [if_neg he] at h
    cases h
    refine Or.inr ⟨fun hs => he hs.1, ?_⟩
    rw [hardCap_eq, shown, if_neg he]
    rfl

/-- The smallest budget of a lane. -/
def smallest : Json Cell := .obj [("estimated_tokens", .int 1), ("output_tokens", .int 1)]

/-- A configuration with the smallest budgets and without the selector. -/
def legacy : Dict Cell :=
  [("budgets", .obj [("answer", smallest), ("small", smallest), ("full", smallest)]),
   ("context", .obj [
     ("adaptive_budget", .obj [("enabled", .bool false), ("minimum_chars", .int 900)]),
     ("selector", .obj [("enabled", .bool false)])])]

def lexical (text : String) : ContextItem Cell :=
  ⟨"lexical", text, Cell.system.ofRat 1, false, [], [], none⟩

def noPlan : Plan := ⟨false, []⟩

/-- The evidence is of no concern here. -/
def blankEnvelope : ContextItem Cell → EvidenceEnvelope Cell := fun _ => ⟨"", "", "", [], ""⟩

end ControlPlane.Retrieval.Assembly
