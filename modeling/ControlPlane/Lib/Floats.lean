import ControlPlane.Lib.Print
import Mathlib.Algebra.Order.Ring.Unbundled.Rat
import Mathlib.Tactic.Linarith

/-! # Floats

The floats of a machine are a type `F` with a view of each as an infinity, a NaN or a rational, the
rounding of a rational to a float, and the text of a float (`FloatSys`). Rounding is only known to be
monotone and to keep zero, which holds of every IEEE format and rounding mode.

`Num` is what a float can denote. Its comparisons are those of IEEE: a NaN is below, above and equal to
nothing. Arithmetic is exact arithmetic on the views followed by rounding. -/

namespace ControlPlane.Lib.Floats

open ControlPlane.Lib.Print

/-- The values of floats. -/
inductive Num where
  | nan
  | inf (neg : Bool)
  | fin (q : ℚ)
  deriving DecidableEq

/-- `x < y`. -/
def Num.lt : Num → Num → Bool
  | .nan, _ => false
  | _, .nan => false
  | .inf a, .inf b => a && !b
  | .inf a, .fin _ => a
  | .fin _, .inf b => !b
  | .fin p, .fin q => decide (p < q)

/-- `x == y`. -/
def Num.eq : Num → Num → Bool
  | .inf a, .inf b => a == b
  | .fin p, .fin q => decide (p = q)
  | _, _ => false

/-- `x ≤ y`. -/
def Num.le (x y : Num) : Bool := x.lt y || x.eq y

/-- The absolute value. -/
def Num.abs : Num → Num
  | .nan => .nan
  | .inf _ => .inf false
  | .fin q => .fin |q|

/-- Floats, with their texts. -/
structure FloatSys (F : Type) extends FloatText F where
  view : F → Num
  ofRat : ℚ → F
  finite_iff : ∀ x, finite x = true ↔ ∃ q, view x = .fin q
  ofRat_zero : view (ofRat 0) = .fin 0
  ofRat_mono : ∀ p q, p ≤ q → (view (ofRat p)).le (view (ofRat q)) = true

variable {F : Type} (T : FloatSys F)

/-- The value of a literal. -/
def FloatSys.lit (q : ℚ) : Num := T.view (T.ofRat q)

/-- Subtraction. -/
def FloatSys.sub : Num → Num → Num
  | .nan, _ => .nan
  | _, .nan => .nan
  | .inf a, .inf b => if a = b then .nan else .inf a
  | .inf a, .fin _ => .inf a
  | .fin _, .inf b => .inf (!b)
  | .fin p, .fin q => T.lit (p - q)

/-- Addition. -/
def FloatSys.add : Num → Num → Num
  | .nan, _ => .nan
  | _, .nan => .nan
  | .inf a, .inf b => if a = b then .inf a else .nan
  | .inf a, .fin _ => .inf a
  | .fin _, .inf b => .inf b
  | .fin p, .fin q => T.lit (p + q)

/-- The sign, as far as products see it. -/
def Num.neg? : Num → Option Bool
  | .nan => none
  | .inf a => some a
  | .fin q => if q = 0 then none else some (decide (q < 0))

/-- Multiplication. -/
def FloatSys.mul : Num → Num → Num
  | .fin p, .fin q => T.lit (p * q)
  | x, y => match x.neg?, y.neg? with
    | some a, some b => .inf (a ^^ b)
    | _, _ => .nan

/-- Division by a number that is not zero. -/
def FloatSys.div : Num → Num → Num
  | .fin p, .fin q => T.lit (p / q)
  | .fin _, .inf _ => .fin 0
  | .inf a, .fin q => .inf (a ^^ decide (q < 0))
  | _, _ => .nan

/-- The negation. -/
def Num.negate : Num → Num
  | .nan => .nan
  | .inf a => .inf (!a)
  | .fin q => .fin (-q)

/-- The rational a finite float denotes. -/
def FloatSys.rat (x : F) : ℚ :=
  match T.view x with
  | .fin q => q
  | _ => 0

/-- `max(x, y)`: the second argument only if it is greater. -/
def FloatSys.max (x y : F) : F := if (T.view x).lt (T.view y) then y else x

/-- The rational nearest to `q` with `n` decimals, ties to even. -/
def roundHalfEven (q : ℚ) (n : ℕ) : ℚ :=
  let s := q * 10 ^ n
  let f := s.floor
  let r := s - f
  let z := if r < 1 / 2 then f else if 1 / 2 < r then f + 1 else if f % 2 = 0 then f else f + 1
  z / 10 ^ n

/-- `round(x, n)`. -/
def FloatSys.round (x : F) (n : ℕ) : F :=
  match T.view x with
  | .fin q => T.ofRat (roundHalfEven q n)
  | _ => x

/-! ### Comparisons -/

@[simp] theorem Num.lt_fin (p q : ℚ) : (Num.fin p).lt (.fin q) = decide (p < q) := rfl

@[simp] theorem Num.eq_fin (p q : ℚ) : (Num.fin p).eq (.fin q) = decide (p = q) := rfl

@[simp] theorem Num.le_fin (p q : ℚ) : (Num.fin p).le (.fin q) = decide (p ≤ q) := by
  rw [Bool.eq_iff_iff]
  simp [Num.le, le_iff_lt_or_eq]

theorem Num.lt_irrefl (x : Num) : x.lt x = false := by
  cases x <;> simp [Num.lt]

theorem Num.le_of_lt {x y : Num} (h : x.lt y = true) : x.le y = true := by
  simp [Num.le, h]

/-- What is above something is no NaN. -/
theorem Num.le_self_of_lt {x y : Num} (h : x.lt y = true) : y.le y = true := by
  cases x <;> cases y <;> simp_all [Num.le, Num.lt, Num.eq]

theorem Num.le_trans {x y z : Num} (h1 : x.le y = true) (h2 : y.le z = true) :
    x.le z = true := by
  cases x <;> cases y <;> cases z <;> simp_all [Num.le, Num.lt, Num.eq]
  · grind
  · grind

theorem Num.not_lt_of_le {x y : Num} (h : x.le y = true) : y.lt x = false := by
  cases x <;> cases y <;> simp_all [Num.le, Num.lt, Num.eq]
  · grind
  · grind

/-- What lies between two rationals is one. -/
theorem Num.fin_of_le {p q : ℚ} {x : Num} (h1 : (Num.fin p).le x = true)
    (h2 : x.le (.fin q) = true) : ∃ r, x = .fin r := by
  cases x with
  | fin r => exact ⟨r, rfl⟩
  | inf neg => cases neg <;> simp [Num.le, Num.lt, Num.eq] at h1 h2
  | nan => simp [Num.le, Num.lt, Num.eq] at h1

theorem FloatSys.lit_mono {p q : ℚ} (h : p ≤ q) : (T.lit p).le (T.lit q) = true := T.ofRat_mono p q h

/-- A finite value differs from itself by zero. -/
theorem FloatSys.abs_sub_self {x : Num} (h : ∃ q, x = .fin q) : (T.sub x x).abs = .fin 0 := by
  obtain ⟨q, rfl⟩ := h
  simp [FloatSys.sub, FloatSys.lit, T.ofRat_zero, Num.abs]

end ControlPlane.Lib.Floats

namespace ControlPlane

-- Mathlib has a `Num` of its own.
export Lib.Floats (Num)

end ControlPlane
