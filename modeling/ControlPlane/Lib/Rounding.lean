import ControlPlane.Lib.Floats
import Mathlib.Algebra.Order.Field.Basic
import Mathlib.Algebra.Order.Field.Rat
import Mathlib.Order.WithBot

/-! # Stable rounding

A float system is `Stable` if one is a float and rounding keeps what it has rounded, as in every IEEE
format. Then sums of positive floats only grow (`le_add`). `Exact` systems do not round at all;
`rationals` is one.

Floats that are not negative compare like rationals with a top (`top_le_iff`). -/

namespace ControlPlane.Lib.Rounding

open ControlPlane.Lib.Print ControlPlane.Lib.Floats

variable {F : Type}

structure Stable (T : FloatSys F) : Prop where
  one : T.lit 1 = .fin 1
  lit_lit : ∀ q r, T.lit q = .fin r → T.lit r = .fin r

/-- Rounding changes nothing. -/
def Exact (T : FloatSys F) : Prop := ∀ q, T.lit q = .fin q

variable {T : FloatSys F}

theorem Exact.stable (hT : Exact T) : Stable T where
  one := hT 1
  lit_lit _ r _ := hT r

/-! ### Numbers that are not negative -/

/-- The number is at least zero, and no NaN. -/
def NonNeg (x : Num) : Prop := (Num.fin 0).le x = true

/-- A number that is not negative, with infinity as top. -/
def top : Num → WithTop ℚ
  | .fin q => (q : WithTop ℚ)
  | .inf false => ⊤
  | _ => 0

theorem nonNeg_iff {x : Num} : NonNeg x ↔ x = .inf false ∨ ∃ q, 0 ≤ q ∧ x = .fin q := by
  unfold NonNeg
  cases x with
  | nan => exact iff_of_false Bool.false_ne_true fun h => h.elim nofun fun ⟨_, _, hq⟩ => nomatch hq
  | inf neg =>
    cases neg with
    | false => exact iff_of_true rfl (Or.inl rfl)
    | true => exact iff_of_false Bool.false_ne_true fun h => h.elim nofun fun ⟨_, _, hq⟩ => nomatch hq
  | fin q =>
    rw [Num.le_fin, decide_eq_true_eq]
    exact ⟨fun h => Or.inr ⟨q, h, rfl⟩, fun h => h.elim nofun fun ⟨_, hq, heq⟩ => Num.fin.inj heq ▸ hq⟩

theorem nonNeg_fin {q : ℚ} (h : 0 ≤ q) : NonNeg (.fin q) := nonNeg_iff.mpr (Or.inr ⟨q, h, rfl⟩)

theorem nonNeg_lit {q : ℚ} (h : 0 ≤ q) : NonNeg (T.lit q) := by
  have h0 : T.lit 0 = .fin 0 := T.ofRat_zero
  unfold NonNeg
  rw [← h0]
  exact T.lit_mono h

section Order
variable {x y : Num} (hx : NonNeg x) (hy : NonNeg y)
include hx hy

theorem top_lt_iff : x.lt y = true ↔ top x < top y := by
  rcases nonNeg_iff.mp hx with rfl | ⟨p, hp, rfl⟩
  · rcases nonNeg_iff.mp hy with rfl | ⟨q, hq, rfl⟩
    · simp [Num.lt, top]
    · simp [Num.lt, top]
  · rcases nonNeg_iff.mp hy with rfl | ⟨q, hq, rfl⟩
    · simp [Num.lt, top]
    · simp [top]

theorem top_eq_iff : x.eq y = true ↔ top x = top y := by
  rcases nonNeg_iff.mp hx with rfl | ⟨p, hp, rfl⟩
  · rcases nonNeg_iff.mp hy with rfl | ⟨q, hq, rfl⟩
    · simp [Num.eq, top]
    · simp [Num.eq, top]
  · rcases nonNeg_iff.mp hy with rfl | ⟨q, hq, rfl⟩
    · simp [Num.eq, top]
    · simp [top]

theorem top_le_iff : x.le y = true ↔ top x ≤ top y := by
  rw [Num.le, Bool.or_eq_true, top_lt_iff hx hy, top_eq_iff hx hy, le_iff_lt_or_eq]

/-- Negation turns the order around. -/
theorem lt_negate : y.negate.lt x.negate = x.lt y := by
  rcases nonNeg_iff.mp hx with rfl | ⟨p, hp, rfl⟩
  · rcases nonNeg_iff.mp hy with rfl | ⟨q, hq, rfl⟩ <;> simp [Num.lt, Num.negate]
  · rcases nonNeg_iff.mp hy with rfl | ⟨q, hq, rfl⟩ <;> simp [Num.lt, Num.negate]

theorem eq_negate : y.negate.eq x.negate = x.eq y := by
  rcases nonNeg_iff.mp hx with rfl | ⟨p, hp, rfl⟩
  · rcases nonNeg_iff.mp hy with rfl | ⟨q, hq, rfl⟩ <;> simp [Num.eq, Num.negate]
  · rcases nonNeg_iff.mp hy with rfl | ⟨q, hq, rfl⟩
    · simp [Num.eq, Num.negate]
    · simp [Num.negate, eq_comm]

end Order

theorem NonNeg.trans {x y : Num} (hx : NonNeg x) (h : x.le y = true) : NonNeg y := Num.le_trans hx h

theorem NonNeg.le_self {x : Num} (hx : NonNeg x) : x.le x = true := (top_le_iff hx hx).mpr le_rfl

/-! ### Sums -/

/-- A float: infinity, or what rounding keeps. -/
def Rounded (T : FloatSys F) (x : Num) : Prop := ∀ q, x = .fin q → T.lit q = .fin q

/-- Every float is what rounding keeps. -/
def Representable (T : FloatSys F) : Prop := ∀ x, Rounded T (T.view x)

theorem Exact.representable (hT : Exact T) : Representable T := fun _ q _ => hT q

theorem rounded_zero : Rounded T (.fin 0) := by
  intro q hq
  cases hq
  exact T.ofRat_zero

theorem rounded_lit (hT : Stable T) (q : ℚ) : Rounded T (T.lit q) := fun r hr => hT.lit_lit q r hr

section Sums
variable {x y : Num} {s t : ℚ} (hx : NonNeg x)
include hx

theorem nonNeg_add (ht : 0 ≤ t) : NonNeg (T.add x (.fin t)) := by
  rcases nonNeg_iff.mp hx with rfl | ⟨p, hp, rfl⟩
  · exact hx
  · exact nonNeg_lit (add_nonneg hp ht)

theorem rounded_add (hT : Stable T) : Rounded T (T.add x (.fin t)) := by
  rcases nonNeg_iff.mp hx with rfl | ⟨p, -, rfl⟩
  · intro q hq
    cases hq
  · exact rounded_lit hT _

/-- A sum with something that is not negative is not smaller. -/
theorem le_add (hr : Rounded T x) (ht : 0 ≤ t) : x.le (T.add x (.fin t)) = true := by
  rcases nonNeg_iff.mp hx with rfl | ⟨p, hp, rfl⟩
  · rfl
  · show (Num.fin p).le (T.lit (p + t)) = true
    rw [← hr p rfl]
    exact T.lit_mono (by linarith)

theorem add_le_add (h : x.le y = true) (hst : s ≤ t) :
    (T.add x (.fin s)).le (T.add y (.fin t)) = true := by
  have hy := hx.trans h
  rcases nonNeg_iff.mp hy with rfl | ⟨q, hq, rfl⟩
  · rcases nonNeg_iff.mp hx with rfl | ⟨p, hp, rfl⟩
    · rfl
    · show (T.lit (p + s)).le (.inf false) = true
      cases hl : T.lit (p + s) with
      | nan =>
        have hle := T.lit_mono (le_refl (p + s))
        rw [hl] at hle
        simp [Num.le, Num.lt, Num.eq] at hle
      | inf neg => cases neg <;> rfl
      | fin r => rfl
  · rcases nonNeg_iff.mp hx with rfl | ⟨p, hp, rfl⟩
    · simp [Num.le, Num.lt, Num.eq] at h
    · rw [Num.le_fin, decide_eq_true_eq] at h
      exact T.lit_mono (by linarith)

end Sums

/-! ### Quotients -/

theorem nonNeg_div {x : Num} (hx : NonNeg x) {k : ℚ} (hk : 0 < k) : NonNeg (T.div x (.fin k)) := by
  rcases nonNeg_iff.mp hx with rfl | ⟨p, hp, rfl⟩
  · have hdiv : T.div (.inf false) (.fin k) = .inf false := by simp [FloatSys.div, hk.le]
    rw [hdiv]
    exact hx
  · exact nonNeg_lit (by positivity)

theorem div_le_div {x y : Num} (hx : NonNeg x) (h : x.le y = true) {k : ℚ} (hk : 0 < k) :
    (T.div x (.fin k)).le (T.div y (.fin k)) = true := by
  have hy := hx.trans h
  have hdiv : T.div (.inf false) (.fin k) = .inf false := by simp [FloatSys.div, hk.le]
  rcases nonNeg_iff.mp hy with rfl | ⟨q, hq, rfl⟩
  · have hn := nonNeg_div (T := T) hx hk
    rw [hdiv, top_le_iff hn (nonNeg_iff.mpr (Or.inl rfl))]
    exact le_top
  · rcases nonNeg_iff.mp hx with rfl | ⟨p, hp, rfl⟩
    · simp [Num.le, Num.lt, Num.eq] at h
    · rw [Num.le_fin, decide_eq_true_eq] at h
      exact T.lit_mono (by gcongr)

/-! ### Numbers between zero and one -/

theorem unit_lit (hT : Stable T) {q : ℚ} (h0 : 0 ≤ q) (h1 : q ≤ 1) :
    ∃ r, T.lit q = .fin r ∧ 0 ≤ r ∧ r ≤ 1 := by
  have hlow : (Num.fin 0).le (T.lit q) = true := nonNeg_lit h0
  have hup := T.lit_mono h1
  rw [hT.one] at hup
  obtain ⟨r, hr⟩ := Num.fin_of_le hlow hup
  rw [hr, Num.le_fin, decide_eq_true_eq] at hlow hup
  exact ⟨r, hr, hlow, hup⟩

theorem unit_mul (hT : Stable T) {p q : ℚ} (hp : 0 ≤ p ∧ p ≤ 1) (hq : 0 ≤ q ∧ q ≤ 1) :
    ∃ r, T.mul (.fin p) (.fin q) = .fin r ∧ 0 ≤ r ∧ r ≤ 1 :=
  unit_lit hT (mul_nonneg hp.1 hq.1) (mul_le_one₀ hp.2 hq.1 hq.2)

/-! ### Exact arithmetic -/

/-- The text of a rational: its parts behind full stops. -/
def ratText (q : ℚ) : List Char := '.' :: (printInt q.num ++ '.' :: printInt q.den)

def readRat : List Char → Option ℚ
  | '.' :: cs => do
    let num ← readInt (cs.takeWhile fun c => c ≠ '.')
    let den ← readInt ((cs.dropWhile fun c => c ≠ '.').drop 1)
    return num / den
  | _ => none

theorem not_stop_printInt (z : ℤ) : ∀ c ∈ printInt z, c ≠ '.' := by
  have hdigit : ∀ n, ∀ c ∈ Nat.toDigits 10 n, c ≠ '.' := by
    intro n c hc he
    have := Nat.isDigit_of_mem_toDigits (by decide) (by decide) hc
    rw [he] at this
    exact absurd this (by decide)
  cases z with
  | ofNat n => exact hdigit n
  | negSucc n =>
    intro c hc
    rcases List.mem_cons.mp hc with rfl | hc
    · decide
    · exact hdigit _ c hc

theorem readRat_ratText (q : ℚ) : readRat (ratText q) = some q := by
  have hstop := not_stop_printInt q.num
  have htake : (printInt q.num ++ '.' :: printInt q.den).takeWhile (fun c => c ≠ '.') =
      printInt q.num := by
    rw [List.takeWhile_append_of_pos (by simpa using hstop)]
    simp
  have hdrop : (printInt q.num ++ '.' :: printInt q.den).dropWhile (fun c => c ≠ '.') =
      '.' :: printInt q.den := by
    rw [List.dropWhile_append_of_pos (by simpa using hstop)]
    simp
  rw [ratText, readRat, htake, hdrop, List.drop_one, List.tail_cons, readInt_printInt,
    readInt_printInt]
  simp [Rat.num_div_den]

/-- **The rationals as floats.** -/
def rationals : FloatSys ℚ where
  write := ratText
  read := readRat
  finite _ := true
  read_write := readRat_ratText
  write_ne_nil q := by simp [ratText]
  write_token q c hc := by
    rcases List.mem_cons.mp hc with rfl | hc
    · decide
    · rcases List.mem_append.mp hc with hc | hc
      · exact printInt_token _ c hc
      · rcases List.mem_cons.mp hc with rfl | hc
        · decide
        · exact printInt_token _ c hc
  write_not_int q := by
    rw [ratText, readInt.eq_def]
    simp [readNat]
  write_not_word q := by simp [ratText]
  view := .fin
  ofRat := id
  finite_iff q := by simp
  ofRat_zero := rfl
  ofRat_mono p q h := by simpa using h

theorem exact_rationals : Exact rationals := fun _ => rfl

end ControlPlane.Lib.Rounding
