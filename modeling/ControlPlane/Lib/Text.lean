import Mathlib.Data.List.DropRight
import Mathlib.Data.String.Basic

/-! # White space and lines

`strip` removes the white space at both ends of a text, with Unicode's idea of white space;
`splitlines` cuts a text at every Unicode line boundary, of which there are more than `'\n'`.

`splitlines_unlines`: lines that hold no boundary come back when each is ended by `'\n'`. -/

namespace ControlPlane.Lib.Text

/-! ### Stripping -/

/-- White space: the characters of bidirectional type WS, B or S, or category Zs. -/
def isSpace (c : Char) : Bool :=
  let n := c.toNat
  (0x09 ≤ n && n ≤ 0x0d) || (0x1c ≤ n && n ≤ 0x20) || n == 0x85 || n == 0xa0 || n == 0x1680 ||
    (0x2000 ≤ n && n ≤ 0x200a) || n == 0x2028 || n == 0x2029 || n == 0x202f || n == 0x205f ||
    n == 0x3000

/-- The text without the white space at its ends. -/
def strip (s : String) : String :=
  String.ofList ((s.toList.dropWhile isSpace).rdropWhile isSpace)

/-- The text without the white space at its end. -/
def rstrip (cs : List Char) : List Char := cs.rdropWhile isSpace

/-- The text without the white space at its beginning. -/
def lstrip (cs : List Char) : List Char := cs.dropWhile isSpace

/-- The words of a text, between white space; `word` is what has been read of the current one. -/
def wordsFrom (word : List Char) : List Char → List (List Char)
  | [] => if word = [] then [] else [word]
  | c :: cs =>
    if isSpace c then if word = [] then wordsFrom [] cs else word :: wordsFrom [] cs
    else wordsFrom (word ++ [c]) cs

/-- `text.split()`. -/
def words (s : String) : List String := (wordsFrom [] s.toList).map String.ofList

theorem head_not_space {cs : List Char} {c : Char} (h : (cs.dropWhile isSpace).head? = some c) :
    isSpace c = false := by
  have h' := List.head?_dropWhile_not isSpace cs
  rw [h] at h'
  simpa using h'

@[simp] theorem strip_strip (s : String) : strip (strip s) = strip s := by
  unfold strip
  rw [String.toList_ofList]
  congr 1
  set ds := s.toList.dropWhile isSpace with hds
  have hpre : ds.rdropWhile isSpace <+: ds := List.rdropWhile_prefix isSpace ds
  have hdrop : (ds.rdropWhile isSpace).dropWhile isSpace = ds.rdropWhile isSpace := by
    cases hr : ds.rdropWhile isSpace with
    | nil => rfl
    | cons c r =>
      obtain ⟨t, ht⟩ := hr ▸ hpre
      have hc : isSpace c = false := by
        refine @head_not_space s.toList c ?_
        rw [← hds, ← ht]
        rfl
      rw [List.dropWhile_cons_of_neg (by simp [hc])]
  rw [hdrop]
  exact List.rdropWhile_idempotent isSpace ds

/-- A text without white space at its ends is its own strip. -/
theorem strip_eq_self {s : String} (h1 : ∀ c, s.toList.head? = some c → isSpace c = false)
    (h2 : ∀ c, s.toList.getLast? = some c → isSpace c = false) : strip s = s := by
  have hd : s.toList.dropWhile isSpace = s.toList := by
    cases hs : s.toList with
    | nil => rfl
    | cons c r =>
      have hc := h1 c (by rw [hs]; rfl)
      rw [List.dropWhile_cons_of_neg (by simp [hc])]
  have hr : s.toList.rdropWhile isSpace = s.toList := by
    rw [List.rdropWhile_eq_self_iff]
    intro hne
    rw [h2 _ (List.getLast?_eq_getLast_of_ne_nil hne)]
    simp
  rw [strip, hd, hr, String.ofList_toList]

/-- A text that starts with no white space keeps its first character. -/
theorem head?_strip {s : String} {c : Char} {cs : List Char} (h : s.toList = c :: cs)
    (hc : isSpace c = false) : (strip s).toList.head? = some c := by
  rw [strip, h, List.dropWhile_cons_of_neg (by simp [hc]), String.toList_ofList]
  obtain ⟨t, ht⟩ := List.rdropWhile_prefix isSpace (l := c :: cs)
  cases hr : (c :: cs).rdropWhile isSpace with
  | nil =>
    rw [List.rdropWhile_eq_nil_iff] at hr
    exact absurd (hr c (by simp)) (by simp [hc])
  | cons d r =>
    rw [hr] at ht
    injection ht with hd
    rw [hd]
    rfl

/-- Whether a text begins with another. -/
def startsWith (s p : String) : Bool := p.toList.isPrefixOf s.toList

/-! ### Lines -/

/-- The line boundaries. -/
def isBreak (c : Char) : Bool :=
  let n := c.toNat
  (0x0a ≤ n && n ≤ 0x0d) || (0x1c ≤ n && n ≤ 0x1e) || n == 0x85 || n == 0x2028 || n == 0x2029

/-- The lines of a text, without their boundaries; `"\r\n"` is one boundary. -/
def splitlines : List Char → List (List Char)
  | [] => []
  | '\r' :: '\n' :: cs => [] :: splitlines cs
  | c :: cs =>
    if isBreak c then [] :: splitlines cs
    else match splitlines cs with
      | [] => [[c]]
      | l :: ls => (c :: l) :: ls

/-- Each line ended by `'\n'`. -/
def unlines (ls : List (List Char)) : List Char := ls.flatMap fun l => l ++ ['\n']

theorem splitlines_cons {c : Char} (hc : isBreak c = false) (cs : List Char) :
    splitlines (c :: cs) =
      match splitlines cs with
      | [] => [[c]]
      | l :: ls => (c :: l) :: ls := by
  rw [splitlines.eq_3]
  · rw [hc]
    rfl
  · rintro cs rfl
    exact absurd hc (by decide)

theorem splitlines_append {l : List Char} (hl : ∀ c ∈ l, isBreak c = false) (cs : List Char) :
    splitlines (l ++ '\n' :: cs) = l :: splitlines cs := by
  induction l with
  | nil =>
    rw [List.nil_append, splitlines.eq_3]
    · rfl
    · simp
  | cons c l ih =>
    rw [List.cons_append, splitlines_cons (hl c (by simp)),
      ih fun x hx => hl x (List.mem_cons_of_mem c hx)]

/-- **Lines without a boundary come back.** -/
theorem splitlines_unlines {ls : List (List Char)} (h : ∀ l ∈ ls, ∀ c ∈ l, isBreak c = false) :
    splitlines (unlines ls) = ls := by
  induction ls with
  | nil => rfl
  | cons l ls ih =>
    have e : unlines (l :: ls) = l ++ '\n' :: unlines ls := by simp [unlines]
    rw [e, splitlines_append (h l (by simp)), ih fun x hx => h x (List.mem_cons_of_mem l hx)]

end ControlPlane.Lib.Text
