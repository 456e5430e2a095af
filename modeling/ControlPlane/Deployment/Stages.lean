import Mathlib.Data.List.Chain
import Mathlib.Algebra.Order.Ring.Unbundled.Rat
import Mathlib.Tactic.NormNum

/-! # The stages of a deployment

A deployment goes forward one stage at a time, or back to the baseline from any stage, and stays
there. This is what the component is for; the program stores stages as texts in a signed object.

A `Course` is a sequence of stages taken this way since the approval. `Course.shape`: it is the
beginning of the one way forward, possibly ended by the rollback. -/

namespace ControlPlane.Deployment.Stages

inductive Stage where
  | approved
  | canary1
  | canary5
  | canary10
  | bounded
  | rolledBack
  deriving DecidableEq

namespace Stage

def value : Stage → String
  | approved => "approved"
  | canary1 => "canary_1"
  | canary5 => "canary_5"
  | canary10 => "canary_10"
  | bounded => "bounded"
  | rolledBack => "rolled_back"

def all : List Stage := [approved, canary1, canary5, canary10, bounded, rolledBack]

/-- The stage a text names. -/
def ofString? (s : String) : Option Stage := all.find? fun st => st.value == s

/-- The stages in which the candidate gets traffic. -/
def live : List Stage := [canary1, canary5, canary10, bounded]

def next : Stage → Option Stage
  | approved => some canary1
  | canary1 => some canary5
  | canary5 => some canary10
  | canary10 => some bounded
  | _ => none

/-- The traffic of the stages other than the bounded one. -/
def traffic : Stage → ℚ
  | canary1 => 1 / 100
  | canary5 => 5 / 100
  | canary10 => 10 / 100
  | _ => 0

@[simp] theorem ofString?_value (st : Stage) : ofString? st.value = some st := by
  cases st <;> decide

theorem value_of_ofString? {s : String} {st : Stage} (h : ofString? s = some st) : st.value = s := by
  simpa using List.find?_some h

theorem value_injective : Function.Injective value := by
  intro a b h
  have := congrArg ofString? h
  simpa using this

theorem traffic_nonneg (st : Stage) : 0 ≤ st.traffic := by
  cases st <;> norm_num [traffic]

theorem traffic_le (st : Stage) : st.traffic ≤ 1 / 10 := by
  cases st <;> norm_num [traffic]

/-- One step of a deployment. -/
inductive Step : Stage → Stage → Prop
  | forward {a b : Stage} (h : a.next = some b) : Step a b
  | back {a : Stage} (h : a ≠ rolledBack) : Step a rolledBack

/-- Nothing follows the rollback. -/
theorem not_step_rolledBack (b : Stage) : ¬ Step rolledBack b := by
  rintro (h | h)
  · cases h
  · exact h rfl

/-- The way forward from a stage. -/
def ahead : Stage → List Stage
  | approved => [canary1, canary5, canary10, bounded]
  | canary1 => [canary5, canary10, bounded]
  | canary5 => [canary10, bounded]
  | canary10 => [bounded]
  | _ => []

theorem ahead_of_next {a b : Stage} (h : a.next = some b) : a.ahead = b :: b.ahead := by
  cases a <;> cases h <;> rfl

theorem next_ne_rolledBack {a b : Stage} (h : a.next = some b) : b ≠ rolledBack := by
  cases a <;> cases h <;> decide

/-- What follows a stage is the beginning of the way forward, possibly ended by the rollback. -/
theorem chain_shape : ∀ {a : Stage} {l : List Stage}, a ≠ rolledBack → (a :: l).IsChain Step →
    l <+: a.ahead ∨ ∃ p, p <+: a.ahead ∧ l = p ++ [rolledBack]
  | _, [], _, _ => Or.inl List.nil_prefix
  | a, b :: l, ha, h => by
    rw [List.isChain_cons_cons] at h
    obtain ⟨hab, hl⟩ := h
    cases hab with
    | forward hn =>
      rw [ahead_of_next hn]
      rcases chain_shape (next_ne_rolledBack hn) hl with hp | ⟨p, hp, rfl⟩
      · exact Or.inl (List.cons_prefix_cons.mpr ⟨rfl, hp⟩)
      · exact Or.inr ⟨b :: p, List.cons_prefix_cons.mpr ⟨rfl, hp⟩, rfl⟩
    | back _ =>
      cases l with
      | nil => exact Or.inr ⟨[], List.nil_prefix, rfl⟩
      | cons c l =>
        rw [List.isChain_cons_cons] at hl
        exact absurd hl.1 (not_step_rolledBack c)

end Stage

open Stage

/-- The stages since the approval. -/
structure Course where
  stages : List Stage
  head : stages.head? = some approved
  chain : stages.IsChain Step

namespace Course

theorem stages_ne (c : Course) : c.stages ≠ [] := by
  intro h
  have := c.head
  rw [h] at this
  cases this

/-- The stage reached. -/
def last (c : Course) : Stage := c.stages.getLast c.stages_ne

/-- The approval alone. -/
def start : Course := ⟨[approved], rfl, List.IsChain.singleton _⟩

/-- The course with one more step. -/
def extend (c : Course) (st : Stage) (h : Step c.last st) : Course where
  stages := c.stages ++ [st]
  head := by
    rw [List.head?_append_of_ne_nil _ c.stages_ne]
    exact c.head
  chain := by
    refine List.isChain_append.mpr ⟨c.chain, List.IsChain.singleton _, fun x hx y hy => ?_⟩
    rw [List.getLast?_eq_getLast_of_ne_nil c.stages_ne, Option.mem_some_iff] at hx
    rw [List.head?_cons, Option.mem_some_iff] at hy
    rw [← hx, ← hy]
    exact h

@[simp] theorem last_extend (c : Course) (st : Stage) (h : Step c.last st) :
    (c.extend st h).last = st := by
  simp [last, extend]

/-- **A course is the beginning of the way forward, possibly ended by the rollback.** -/
theorem shape (c : Course) : c.stages <+: approved :: approved.ahead ∨
    ∃ p, p <+: approved :: approved.ahead ∧ c.stages = p ++ [rolledBack] := by
  obtain ⟨l, hl⟩ : ∃ l, c.stages = approved :: l := by
    cases hs : c.stages with
    | nil => exact absurd hs c.stages_ne
    | cons a l =>
      have hh := c.head
      rw [hs, List.head?_cons, Option.some.injEq] at hh
      exact ⟨l, by rw [hh]⟩
  have hc := c.chain
  rw [hl] at hc ⊢
  rcases chain_shape (by decide) hc with hp | ⟨p, hp, rfl⟩
  · exact Or.inl (List.cons_prefix_cons.mpr ⟨rfl, hp⟩)
  · exact Or.inr ⟨approved :: p, List.cons_prefix_cons.mpr ⟨rfl, hp⟩, rfl⟩

end Course

end ControlPlane.Deployment.Stages
