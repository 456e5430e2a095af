import ControlPlane.Lib.Grid
import ControlPlane.Lib.Weights

/-! # A small float system with signs and infinities

The floats of `Grid` with a sign, two infinities and a NaN. A rational is rounded towards zero, and from
`limit` on to an infinity. The system is `Precise`. -/

namespace ControlPlane.Lib.SignedGrid

open ControlPlane.Lib.Value ControlPlane.Lib.Quote ControlPlane.Lib.Print ControlPlane.Lib.Floats
open ControlPlane.Lib.Grid ControlPlane.Lib.Weights

inductive Wide where
  | fin (neg : Bool) (c : Cell)
  | inf (neg : Bool)
  | nan
  deriving DecidableEq

namespace Wide

/-- A sign in front of a text. -/
def signed (neg : Bool) (cs : List Char) : List Char := if neg then '-' :: cs else cs

def text : Wide → List Char
  | fin neg c => signed neg c.text.toList
  | inf neg => signed neg "Infinity".toList
  | nan => "NaN".toList

def view : Wide → Num
  | fin neg c => .fin (if neg then -c.value else c.value)
  | inf neg => .inf neg
  | nan => .nan

/-- The finite floats of a sign. -/
def cells (neg : Bool) : List Wide := Cell.all.map (fin neg)

def all : List Wide := cells false ++ cells true ++ [inf false, inf true, nan]

/-- From here on rationals are rounded to infinity. -/
def limit : ℚ := 10 ^ 6

/-- The float next to `q` towards zero, if `q` is not negative. -/
def round (neg : Bool) (q : ℚ) : Wide :=
  if limit ≤ q then inf neg else fin neg (Cell.system.ofRat q)

def ofRat (q : ℚ) : Wide := if 0 ≤ q then round false q else round true (-q)

theorem mem_all (x : Wide) : x ∈ all := by
  cases x with
  | fin neg c => cases neg <;> cases c <;> decide
  | inf neg => cases neg <;> decide
  | nan => decide

/-- A fact about every float that can be tried out. -/
theorem forall_wide {P : Wide → Prop} [DecidablePred P] (h : ∀ x ∈ all, P x) (x : Wide) : P x :=
  h x (mem_all x)

/-- The texts of the floats. -/
def texts : FloatText Wide where
  write := text
  read cs := all.find? fun x => x.text == cs
  finite x := match x with
    | fin _ _ => true
    | _ => false
  read_write := forall_wide (by decide)
  write_ne_nil := forall_wide (by decide)
  write_token := by
    have hall : ∀ x : Wide, (text x).all (fun c => decide (isTokenChar c = true)) = true :=
      forall_wide (by decide)
    exact fun x => forall_chars (hall x)
  write_not_int := forall_wide (by decide)
  write_not_word := forall_wide (by decide)

theorem view_round (neg : Bool) (q : ℚ) : (round neg q).view =
    if limit ≤ q then .inf neg
    else .fin (if neg then -(Cell.system.ofRat q).value else (Cell.system.ofRat q).value) := by
  unfold round
  split_ifs <;> simp_all [view]

theorem value_nonneg (c : Cell) : 0 ≤ c.value := by
  cases c <;> norm_num [Cell.value]

theorem value_mono {p q : ℚ} (h : p ≤ q) :
    (Cell.system.ofRat p).value ≤ (Cell.system.ofRat q).value := by
  have := Cell.system.ofRat_mono p q h
  simpa [Cell.system] using this

theorem round_mono {p q : ℚ} (h : p ≤ q) : (round false p).view.le (round false q).view = true ∧
    (round true q).view.le (round true p).view = true := by
  have hv := value_mono h
  rw [view_round, view_round, view_round, view_round]
  by_cases hp : limit ≤ p
  · have hq := hp.trans h
    simp [hp, hq, Num.le, Num.lt, Num.eq]
  · by_cases hq : limit ≤ q
    · simp [hp, hq, Num.le, Num.lt, Num.eq]
    · simp [hp, hq, hv]

/-- What is rounded up to zero is at most what is rounded down to zero. -/
theorem round_neg_le (p q : ℚ) : (round true p).view.le (round false q).view = true := by
  have hp := value_nonneg (Cell.system.ofRat p)
  have hq := value_nonneg (Cell.system.ofRat q)
  have h : -(Cell.system.ofRat p).value ≤ (Cell.system.ofRat q).value := by linarith
  rw [view_round, view_round]
  by_cases h1 : limit ≤ p <;> by_cases h2 : limit ≤ q
  · simp [h1, h2, Num.le, Num.lt, Num.eq]
  · simp [h1, h2, Num.le, Num.lt]
  · simp [h1, h2, Num.le, Num.lt]
  · simp [h1, h2, h]

theorem ofRat_mono {p q : ℚ} (h : p ≤ q) : (ofRat p).view.le (ofRat q).view = true := by
  unfold ofRat
  by_cases hp : 0 ≤ p
  · rw [if_pos hp, if_pos (hp.trans h)]
    exact (round_mono h).1
  · rw [if_neg hp]
    by_cases hq : 0 ≤ q
    · rw [if_pos hq]
      exact round_neg_le _ _
    · rw [if_neg hq]
      exact (round_mono (neg_le_neg h)).2

/-- **The floats of the grid with signs and infinities.** -/
def system : FloatSys Wide where
  toFloatText := texts
  view := view
  ofRat := ofRat
  finite_iff x := by cases x <;> simp [texts, view]
  ofRat_zero := by decide +kernel
  ofRat_mono _ _ h := ofRat_mono h

/-- **The system is precise.** -/
theorem precise : Precise system where
  one := by decide +kernel
  quarter := by decide +kernel
  tiny := ⟨1 / 10 ^ 12, by decide +kernel, by norm_num⟩
  below := by decide +kernel
  neg q := by
    show (ofRat (-q)).view = (ofRat q).view.negate
    have hflip : ∀ neg r, (round neg r).view = (round (!neg) r).view.negate := by
      intro neg r
      rw [view_round, view_round]
      cases neg <;> split_ifs <;> simp_all [Num.negate]
    rcases lt_trichotomy q 0 with h | rfl | h
    · rw [ofRat, ofRat, if_pos (by linarith), if_neg (not_le.mpr h)]
      exact hflip false (-q)
    · decide +kernel
    · rw [ofRat, ofRat, if_neg (by linarith), if_pos h.le, neg_neg]
      exact hflip true q

end Wide

end ControlPlane.Lib.SignedGrid
