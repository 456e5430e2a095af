import ControlPlane.Environment
import ControlPlane.Retrieval.Items

/-! # Context budgets

The budget of a lane, its reduction by how good the evidence is, and the cut of a text to a number of
characters.

`adaptiveChars_bounds`, `adaptiveTokens_bounds`: with a valid configuration the reduced budgets are
positive and not above those of the lane. `length_truncate_le`: a cut text is within its limit. -/

namespace ControlPlane.Retrieval.Budget

open ControlPlane.Lib.Value ControlPlane.Lib.Text ControlPlane.Lib.Floats ControlPlane.Lib.Dynamic
open ControlPlane.Environment ControlPlane.Retrieval.Items

variable {F : Type} (E : Env F)

/-! ### Budgets -/

/-- The part of a budget that bounds the context. -/
structure ContextBudget where
  estimatedTokens : ℤ
  contextChars : ℤ
  deriving DecidableEq

/-- The budget of a lane in a valid configuration. -/
def budgetFor (lane : String) (config : Dict F) : Py ContextBudget := do
  let raw := (objOf? ((objOf? config "budgets").getD []) lane).getD []
  let total ← E.toInt (getKey raw "estimated_tokens")
  return ⟨total, total * 4⟩

/-- A section of `config["context"]`, empty if there is none. -/
def contextSection (config : Dict F) (name : String) : Dict F :=
  (objOf? ((objOf? config "context").getD []) name).getD []

/-- `int(x)` of a float. -/
def intOf : Num → Py ℤ
  | .fin q => .ok (q.num.tdiv q.den)
  | .inf _ => .error (.overflowError "cannot convert float infinity to integer")
  | .nan => .error (.valueError "cannot convert float NaN to integer")

/-- The fraction of the budget that is left, given how sufficient the evidence is. -/
def fractionOf (config : Dict F) (score : F) : Py Num := do
  let cfg := contextSection config "adaptive_budget"
  let high ← E.toFloat ((lookup "high_sufficiency_fraction" cfg).getD (.float (E.T.ofRat (45 / 100))))
  let medium ← E.toFloat ((lookup "medium_sufficiency_fraction" cfg).getD (.float (E.T.ofRat (7 / 10))))
  return if (E.T.lit (86 / 100)).le (E.T.view score) then E.T.view high
    else if (E.T.lit (72 / 100)).le (E.T.view score) then E.T.view medium
    else .fin 1

/-- `int(n * fraction)`. -/
def scaled (n : ℤ) (fraction : Num) : Py ℤ := do
  intOf (E.T.mul (E.T.view (← E.floatOfInt n)) fraction)

def adaptiveEnabled (config : Dict F) : Bool :=
  truthy E.T ((lookup "enabled" (contextSection config "adaptive_budget")).getD (.bool true))

def adaptiveCharLimit (budget : ContextBudget) (score : F) (config : Dict F) : Py ℤ :=
  if adaptiveEnabled E config then do
    let fraction ← fractionOf E config score
    let minimum ← E.toInt
      ((lookup "minimum_chars" (contextSection config "adaptive_budget")).getD (.int 900))
    return min budget.contextChars (max minimum (← scaled E budget.contextChars fraction))
  else .ok budget.contextChars

def adaptiveTokenLimit (budget : ContextBudget) (score : F) (config : Dict F) : Py ℤ :=
  if adaptiveEnabled E config then do
    let fraction ← fractionOf E config score
    return min budget.estimatedTokens (max 1 (← scaled E budget.estimatedTokens fraction))
  else .ok budget.estimatedTokens

/-! ### Valid configurations -/

def positiveInt (v : Json F) (name : String) : Py Unit :=
  match v with
  | .int n => require (decide (0 < n)) (name ++ " must be a positive integer")
  | _ => .error (.valueError (name ++ " must be a positive integer"))

def lanes : List String := ["answer", "small", "full"]

/-- The check of the budget of a lane. -/
def validateBudget (config : Dict F) (lane : String) : Py Unit :=
  match objOf? ((objOf? config "budgets").getD []) lane with
  | none => .error (.valueError ("missing required budget: " ++ lane))
  | some budget => do
    positiveInt (getKey budget "estimated_tokens") ("budgets." ++ lane ++ ".estimated_tokens")
    positiveInt (getKey budget "output_tokens") ("budgets." ++ lane ++ ".output_tokens")

/-- The checks of `validate_config` that concern the size of the context. -/
def validateConfig (config : Dict F) : Py Unit := do
  validateBudget config "answer"
  validateBudget config "small"
  validateBudget config "full"
  positiveInt (getKey (contextSection config "adaptive_budget") "minimum_chars")
    "context.adaptive_budget.minimum_chars"

/-! ### Texts -/

def truncationMark : List Char := "\n... [TRUNCATED] ...\n".toList

/-- The text within a number of characters, and whether it has been cut. -/
def truncate (text : String) (maxChars : ℕ) : String × Bool :=
  let cs := text.toList
  if cs.length ≤ maxChars then (text, false)
  else if maxChars < 80 then (String.ofList (cs.take maxChars), true)
  else
    let tail := min 220 (maxChars / 5)
    let head := maxChars - tail - 40
    (String.ofList (rstrip (cs.take head) ++ truncationMark ++ lstrip (cs.drop (cs.length - tail))), true)

/-- The estimate of the default estimator: four characters to a token. -/
def estimateTokens (text : String) : ℕ := if text = "" then 0 else max 1 ((text.length + 4 - 1) / 4)

/-- The length of all texts. -/
def totalChars (items : List (ContextItem F)) : ℕ := (items.map fun item => item.text.length).sum

/-- The estimated tokens of all texts. -/
def totalTokens (items : List (ContextItem F)) : ℕ :=
  (items.map fun item => estimateTokens item.text).sum

/-- `ContextItem.dedupe_key`, the digest of the words of the text. -/
def dedupeKey (blake2b : String → String) (item : ContextItem F) : String :=
  blake2b (" ".intercalate (words item.text))

/-! ### Bounds -/

variable {E}

theorem positiveInt_eq_ok {v : Json F} {name : String} {u : Unit} (h : positiveInt v name = .ok u) :
    ∃ n, v = .int n ∧ 0 < n := by
  cases v with
  | int n => exact ⟨n, rfl, by simpa using require_eq_ok.mp h⟩
  | _ => cases h

/-- What a valid configuration says of the sizes. -/
theorem sizes_of_valid {config : Dict F} {u : Unit} (h : validateConfig config = .ok u) :
    (∀ lane ∈ lanes, ∃ n, getKey ((objOf? ((objOf? config "budgets").getD []) lane).getD [])
      "estimated_tokens" = .int n ∧ 0 < n) ∧
    ∃ n, getKey (contextSection config "adaptive_budget") "minimum_chars" = .int n ∧ 0 < n := by
  obtain ⟨_, h1, h⟩ := bind_eq_ok.mp h
  obtain ⟨_, h2, h⟩ := bind_eq_ok.mp h
  obtain ⟨_, h3, h⟩ := bind_eq_ok.mp h
  have hlane : ∀ {lane : String} {u : Unit}, validateBudget config lane = .ok u →
      ∃ n, getKey ((objOf? ((objOf? config "budgets").getD []) lane).getD [])
        "estimated_tokens" = .int n ∧ 0 < n := by
    intro lane u hl
    unfold validateBudget at hl
    split at hl
    · cases hl
    · next budget hb =>
      obtain ⟨_, hp, -⟩ := bind_eq_ok.mp hl
      rw [hb]
      exact positiveInt_eq_ok hp
  refine ⟨fun lane hm => ?_, positiveInt_eq_ok h⟩
  simp only [lanes, List.mem_cons, List.not_mem_nil, or_false] at hm
  rcases hm with rfl | rfl | rfl
  · exact hlane h1
  · exact hlane h2
  · exact hlane h3

theorem budgetFor_pos {config : Dict F} {u : Unit} (hv : validateConfig config = .ok u) {lane : String}
    (hl : lane ∈ lanes) {budget : ContextBudget} (h : budgetFor E lane config = .ok budget) :
    0 < budget.estimatedTokens ∧ budget.contextChars = budget.estimatedTokens * 4 := by
  obtain ⟨n, hn, hpos⟩ := (sizes_of_valid hv).1 lane hl
  rw [budgetFor, hn] at h
  cases h
  exact ⟨hpos, rfl⟩

/-- **The reduced budget of characters.** -/
theorem adaptiveChars_bounds {config : Dict F} {u : Unit} (hv : validateConfig config = .ok u)
    {budget : ContextBudget} (hb : 0 < budget.contextChars) {score : F} {n : ℤ}
    (h : adaptiveCharLimit E budget score config = .ok n) : 0 < n ∧ n ≤ budget.contextChars := by
  unfold adaptiveCharLimit at h
  split_ifs at h with he
  · obtain ⟨fraction, -, h⟩ := bind_eq_ok.mp h
    obtain ⟨minimum, hm, h⟩ := bind_eq_ok.mp h
    obtain ⟨k, -, h⟩ := bind_eq_ok.mp h
    obtain ⟨m, hmin, hpos⟩ := (sizes_of_valid hv).2
    have hlook := lookup_of_getKey hmin (by simp)
    rw [hlook] at hm
    cases hm
    cases h
    omega
  · cases h
    omega

/-- **The reduced budget of tokens.** -/
theorem adaptiveTokens_bounds {config : Dict F} {budget : ContextBudget}
    (hb : 0 < budget.estimatedTokens) {score : F} {n : ℤ}
    (h : adaptiveTokenLimit E budget score config = .ok n) : 0 < n ∧ n ≤ budget.estimatedTokens := by
  unfold adaptiveTokenLimit at h
  split_ifs at h
  · obtain ⟨fraction, -, h⟩ := bind_eq_ok.mp h
    obtain ⟨k, -, h⟩ := bind_eq_ok.mp h
    cases h
    omega
  · cases h
    omega

theorem length_rstrip_le (cs : List Char) : (rstrip cs).length ≤ cs.length :=
  (List.rdropWhile_prefix isSpace cs).length_le

theorem length_lstrip_le (cs : List Char) : (lstrip cs).length ≤ cs.length :=
  (List.dropWhile_suffix isSpace).length_le

/-- **A cut text is within its limit.** -/
theorem length_truncate_le (text : String) (n : ℕ) : (truncate text n).1.length ≤ n := by
  unfold truncate
  dsimp only
  split_ifs with h1 h2
  · rwa [String.length_toList] at h1
  · simp
  · have hhead := length_rstrip_le (text.toList.take (n - min 220 (n / 5) - 40))
    have htail := length_lstrip_le (text.toList.drop (text.toList.length - min 220 (n / 5)))
    have hmark : truncationMark.length = 21 := by decide
    rw [List.length_take] at hhead
    rw [List.length_drop] at htail
    simp only [String.length_ofList, List.length_append, hmark]
    omega

theorem truncate_whole {text : String} {n : ℕ} (h : (truncate text n).2 = false) :
    (truncate text n).1 = text := by
  unfold truncate at h ⊢
  dsimp only at h ⊢
  split_ifs at h ⊢
  rfl

theorem estimateTokens_pos {text : String} (h : text ≠ "") : 0 < estimateTokens text := by
  rw [estimateTokens, if_neg h]
  omega

end ControlPlane.Retrieval.Budget
