import ControlPlane.Lib.Floats

/-! # A small float system

Eleven floats, written as an IEEE double is written; a rational is rounded down to the next of them. The
system satisfies what `FloatSys` asks for. -/

namespace ControlPlane.Lib.Grid

open ControlPlane.Lib.Value ControlPlane.Lib.Quote ControlPlane.Lib.Print ControlPlane.Lib.Floats

inductive Cell where
  | zero
  | tiny
  | hundredth
  | twentieth
  | tenth
  | fifth
  | quarter
  | threeTenths
  | ninetyNine
  | one
  | hundred
  deriving DecidableEq

namespace Cell

def value : Cell → ℚ
  | zero => 0
  | tiny => 1 / 10 ^ 12
  | hundredth => 1 / 100
  | twentieth => 1 / 20
  | tenth => 1 / 10
  | fifth => 1 / 5
  | quarter => 1 / 4
  | threeTenths => 3 / 10
  | ninetyNine => 99 / 100
  | one => 1
  | hundred => 100

def text : Cell → String
  | zero => "0.0"
  | tiny => "1e-12"
  | hundredth => "0.01"
  | twentieth => "0.05"
  | tenth => "0.1"
  | fifth => "0.2"
  | quarter => "0.25"
  | threeTenths => "0.3"
  | ninetyNine => "0.99"
  | one => "1.0"
  | hundred => "100.0"

/-- The floats in increasing order. -/
def all : List Cell :=
  [zero, tiny, hundredth, twentieth, tenth, fifth, quarter, threeTenths, ninetyNine, one, hundred]

/-- The last float of an increasing list that is at most `q`, or `best` if there is none. -/
def floorFrom (best : Cell) (q : ℚ) : List Cell → Cell
  | [] => best
  | x :: xs => if x.value ≤ q then floorFrom x q xs else best

theorem le_floorFrom {q : ℚ} : ∀ {best : Cell} {xs : List Cell},
    (best :: xs).Pairwise (fun x y => x.value ≤ y.value) →
    best.value ≤ (floorFrom best q xs).value
  | best, [], _ => le_rfl
  | best, x :: xs, h => by
    rw [floorFrom]
    rw [List.pairwise_cons] at h
    split_ifs
    · exact (h.1 x (by simp)).trans (le_floorFrom h.2)
    · exact le_rfl

theorem floorFrom_mono {p q : ℚ} (hpq : p ≤ q) : ∀ {best : Cell} {xs : List Cell},
    (best :: xs).Pairwise (fun x y => x.value ≤ y.value) →
    (floorFrom best p xs).value ≤ (floorFrom best q xs).value
  | _, [], _ => le_rfl
  | best, x :: xs, h => by
    have ht := (List.pairwise_cons.mp h).2
    rw [floorFrom, floorFrom]
    split_ifs with h1 h2 h2
    · exact floorFrom_mono hpq ht
    · exact absurd (h1.trans hpq) h2
    · exact ((List.pairwise_cons.mp h).1 x (by simp)).trans (le_floorFrom ht)
    · exact le_rfl

theorem sorted_all : all.Pairwise fun x y => x.value ≤ y.value := by
  decide +kernel

/-- The texts of the floats. -/
def texts : FloatText Cell where
  write x := x.text.toList
  read cs := all.find? fun x => x.text.toList == cs
  finite _ := true
  read_write x := by cases x <;> decide
  write_ne_nil x := by cases x <;> decide
  write_token x := forall_chars (by cases x <;> decide)
  write_not_int x := by cases x <;> decide
  write_not_word x := by cases x <;> decide

/-- **Eleven floats.** -/
def system : FloatSys Cell where
  toFloatText := texts
  view x := .fin x.value
  ofRat q := floorFrom zero q all.tail
  finite_iff x := by simp [texts]
  ofRat_zero := by decide +kernel
  ofRat_mono p q h := by
    rw [Num.le_fin, decide_eq_true_eq]
    exact floorFrom_mono h sorted_all

end Cell

end ControlPlane.Lib.Grid
