import ControlPlane.Lib.Text
import Mathlib.Tactic.Common

/-! # Counting lines

A text has at most one line more than it has line boundaries, and no more if it ends with one (`lines_le`). Lines
joined by line feeds have one boundary less than there are lines (`breaks_join`), and are no longer than the text they
were cut from (`length_join_splitlines`). -/

namespace ControlPlane.Lib.Lines

open ControlPlane.Lib.Text

/-- The lines with a line feed between them. -/
def join (lines : List (List Char)) : List Char := ['\n'].intercalate lines

/-- The number of line boundaries. -/
def breaks (cs : List Char) : ℕ := cs.countP isBreak

theorem join_cons_cons (l m : List Char) (ls : List (List Char)) : join (l :: m :: ls) = l ++ '\n' :: join (m :: ls) := by
  simp [join, List.intercalate]

theorem join_singleton (l : List Char) : join [l] = l := by simp [join, List.intercalate]

theorem splitlines_break {c : Char} {cs : List Char} (hc : isBreak c = true) (hpair : ∀ ds, c = '\r' → cs ≠ '\n' :: ds) :
    splitlines (c :: cs) = [] :: splitlines cs := by
  rw [splitlines.eq_3]
  · rw [if_pos hc]
  · rintro ds rfl rfl
    exact hpair ds rfl rfl

/-- Only the empty text has no lines. -/
theorem splitlines_eq_nil {cs : List Char} (h : splitlines cs = []) : cs = [] := by
  cases cs with
  | nil => rfl
  | cons c cs =>
    exfalso
    by_cases hc : isBreak c = true
    · by_cases hpair : ∃ ds, c = '\r' ∧ cs = '\n' :: ds
      · obtain ⟨ds, rfl, rfl⟩ := hpair
        cases h
      · rw [splitlines_break hc fun ds h1 h2 => hpair ⟨ds, h1, h2⟩] at h
        cases h
    · rw [splitlines_cons (Bool.eq_false_iff.mpr hc)] at h
      cases hrest : splitlines cs with
      | nil =>
        rw [hrest] at h
        cases h
      | cons _ _ =>
        rw [hrest] at h
        cases h

/-- The lines of a text hold no boundary. -/
theorem mem_splitlines : ∀ (n : ℕ) {cs : List Char}, cs.length ≤ n → ∀ l ∈ splitlines cs, ∀ c ∈ l, isBreak c = false
  | _, [], _, l, hl, _, _ => by cases hl
  | n + 1, c :: cs, hn, l, hl, x, hx => by
    have hlen : cs.length ≤ n := Nat.le_of_succ_le_succ hn
    by_cases hc : isBreak c = true
    · by_cases hpair : ∃ ds, c = '\r' ∧ cs = '\n' :: ds
      · obtain ⟨ds, rfl, rfl⟩ := hpair
        have hds : ds.length ≤ n := (Nat.le_succ _).trans hlen
        rcases List.mem_cons.mp hl with rfl | hl
        · cases hx
        · exact mem_splitlines n hds l hl x hx
      · rw [splitlines_break hc fun ds h1 h2 => hpair ⟨ds, h1, h2⟩] at hl
        rcases List.mem_cons.mp hl with rfl | hl
        · cases hx
        · exact mem_splitlines n hlen l hl x hx
    · have hplain : isBreak c = false := Bool.eq_false_iff.mpr hc
      have ih := @mem_splitlines n cs hlen
      rw [splitlines_cons hplain] at hl
      cases hsplit : splitlines cs with
      | nil =>
        rw [hsplit, List.mem_singleton] at hl
        rw [hl, List.mem_singleton] at hx
        exact hx ▸ hplain
      | cons m ms =>
        rw [hsplit] at hl ih
        rcases List.mem_cons.mp hl with rfl | hl
        · rcases List.mem_cons.mp hx with rfl | hx
          · exact hplain
          · exact ih m (List.mem_cons_self ..) x hx
        · exact ih l (List.mem_cons_of_mem _ hl) x hx

/-- **A text has at most one line more than boundaries**, and no more if it ends with one. -/
theorem lines_le : ∀ (n : ℕ) {cs : List Char}, cs.length ≤ n → (splitlines cs).length ≤ breaks cs + 1 ∧
    (cs.getLast? = some '\n' → (splitlines cs).length ≤ breaks cs)
  | _, [], _ => ⟨Nat.zero_le _, fun h => nomatch h⟩
  | n + 1, c :: cs, hn => by
    have hlen : cs.length ≤ n := Nat.le_of_succ_le_succ hn
    by_cases hc : isBreak c = true
    · have hbreaks : breaks (c :: cs) = breaks cs + 1 := by rw [breaks, List.countP_cons_of_pos hc, breaks]
      by_cases hpair : ∃ ds, c = '\r' ∧ cs = '\n' :: ds
      · obtain ⟨ds, rfl, rfl⟩ := hpair
        have hds : ds.length ≤ n := (Nat.le_succ _).trans hlen
        obtain ⟨hle, -⟩ := lines_le n hds
        have hbreaks' : breaks ('\n' :: ds) = breaks ds + 1 := by
          rw [breaks, List.countP_cons_of_pos (by decide), breaks]
        rw [hbreaks, hbreaks', splitlines, List.length_cons]
        exact ⟨by omega, fun _ => by omega⟩
      · obtain ⟨hle, hended⟩ := lines_le n hlen
        rw [splitlines_break hc fun ds h1 h2 => hpair ⟨ds, h1, h2⟩, hbreaks, List.length_cons]
        refine ⟨by omega, fun hlast => ?_⟩
        cases cs with
        | nil => exact Nat.le_refl _
        | cons d ds =>
          rw [List.getLast?_cons_cons] at hlast
          exact Nat.succ_le_succ (hended hlast)
    · have hplain : isBreak c = false := Bool.eq_false_iff.mpr hc
      have hbreaks : breaks (c :: cs) = breaks cs := by rw [breaks, List.countP_cons_of_neg hc, breaks]
      obtain ⟨hle, hended⟩ := lines_le n hlen
      rw [splitlines_cons hplain, hbreaks]
      cases hsplit : splitlines cs with
      | nil =>
        refine ⟨Nat.succ_le_succ (Nat.zero_le _), fun hlast => ?_⟩
        rw [splitlines_eq_nil hsplit] at hlast
        cases hlast
        exact absurd hplain (by decide)
      | cons m ms =>
        rw [hsplit] at hle hended
        refine ⟨hle, fun hlast => ?_⟩
        cases cs with
        | nil => cases hsplit
        | cons d ds =>
          rw [List.getLast?_cons_cons] at hlast
          exact hended hlast

theorem breaks_of_plain {l : List Char} (h : ∀ c ∈ l, isBreak c = false) : breaks l = 0 := by
  rw [breaks, List.countP_eq_zero]
  intro c hc
  rw [h c hc]
  exact Bool.false_ne_true

/-- Joined lines have one boundary less than there are lines. -/
theorem breaks_join : ∀ {lines : List (List Char)}, (∀ l ∈ lines, ∀ c ∈ l, isBreak c = false) →
    breaks (join lines) = lines.length - 1
  | [], _ => rfl
  | [l], h => by
    rw [join_singleton]
    exact breaks_of_plain (h l (List.mem_singleton_self l))
  | l :: m :: ls, h => by
    have ih := breaks_join fun k hk => h k (List.mem_cons_of_mem _ hk)
    have hl := breaks_of_plain (h l (List.mem_cons_self ..))
    rw [join_cons_cons, breaks, List.countP_append, List.countP_cons_of_pos (by decide)]
    rw [breaks] at ih hl
    rw [ih, hl]
    simp only [List.length_cons]
    omega

theorem length_join_cons (l : List Char) (ls : List (List Char)) : (join (l :: ls)).length ≤
    l.length + (join ls).length + 1 := by
  cases ls with
  | nil =>
    rw [join_singleton]
    omega
  | cons m ms =>
    rw [join_cons_cons, List.length_append, List.length_cons]
    omega

/-- **The joined lines of a text are not longer than the text.** -/
theorem length_join_splitlines : ∀ (n : ℕ) {cs : List Char}, cs.length ≤ n →
    (join (splitlines cs)).length ≤ cs.length
  | _, [], _ => Nat.le_refl _
  | n + 1, c :: cs, hn => by
    have hlen : cs.length ≤ n := Nat.le_of_succ_le_succ hn
    have ih := length_join_splitlines n hlen
    by_cases hc : isBreak c = true
    · by_cases hpair : ∃ ds, c = '\r' ∧ cs = '\n' :: ds
      · obtain ⟨ds, rfl, rfl⟩ := hpair
        have hds := length_join_splitlines n ((Nat.le_succ _).trans hlen)
        have hjoin := length_join_cons [] (splitlines ds)
        rw [splitlines]
        simp only [List.length_cons, List.length_nil] at hjoin ⊢
        omega
      · have hjoin := length_join_cons [] (splitlines cs)
        rw [splitlines_break hc fun ds h1 h2 => hpair ⟨ds, h1, h2⟩]
        simp only [List.length_cons, List.length_nil] at hjoin ⊢
        omega
    · rw [splitlines_cons (Bool.eq_false_iff.mpr hc)]
      cases hsplit : splitlines cs with
      | nil =>
        rw [join_singleton]
        exact Nat.succ_le_succ (Nat.zero_le _)
      | cons m ms =>
        rw [hsplit] at ih
        have hjoin : join ((c :: m) :: ms) = c :: join (m :: ms) := by
          cases ms with
          | nil => rw [join_singleton, join_singleton]
          | cons k ks => rw [join_cons_cons, join_cons_cons, List.cons_append]
        rw [hjoin, List.length_cons, List.length_cons]
        exact Nat.succ_le_succ ih

end ControlPlane.Lib.Lines
