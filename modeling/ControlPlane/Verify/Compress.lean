import ControlPlane.Lib.Lines
import Mathlib.Tactic.Linarith

/-! # Compressing the output of checks

`compressText` keeps the first and the last lines of a text, with a line between them that says how many were left
out, and cuts what is still too long. With at least two lines and forty characters both caps are respected
(`respects_of`). With one line there is no line left for the end of the text, and the slice of the last zero lines is
the whole text; below forty characters the cut counts from the end. `caps_iff` says that these are the only bad
caps. -/

namespace ControlPlane.Verify.Compress

open ControlPlane.Lib.Text ControlPlane.Lib.Lines

/-! ### The caps -/

/-- The line that stands for the omitted ones. -/
def omitted (n : ℕ) : List Char := ("... [" ++ toString n ++ " LINES OMITTED] ...").toList

/-- `xs[-n:]`. -/
def lastSlice {α : Type} (n : ℕ) (xs : List α) : List α := if n = 0 then xs else xs.drop (xs.length - n)

/-- `cs[:k]`. -/
def slice (k : ℤ) (cs : List Char) : List Char :=
  if 0 ≤ k then cs.take k.toNat else cs.take (cs.length + k).toNat

def capLines (maxLines : ℕ) (lines : List (List Char)) : List (List Char) :=
  if maxLines < lines.length then
    let head := max 1 (maxLines * 3 / 4)
    let tail := maxLines - head
    lines.take head ++ [omitted (lines.length - maxLines)] ++ lastSlice tail lines
  else lines

def capMarker : List Char := "\n... [CHARACTER CAP REACHED]".toList

def capChars (maxChars : ℕ) (out : List Char) : List Char :=
  if maxChars < out.length then rstrip (slice ((maxChars : ℤ) - 40) out) ++ capMarker else out

/-- The text with a line feed at its end, unless it is empty. -/
def ended (out : List Char) : List Char := if out = [] ∨ out.getLast? = some '\n' then out else out ++ ['\n']

/-- The lines that are shown, joined. -/
def shown (text : String) (maxLines : ℕ) : List Char := join (capLines maxLines (splitlines text.toList))

/-- `compress_text`; `rtkOut` is what the external filter gave, if it was preferred and gave something. -/
def compressText (rtkOut : Option String) (text : String) (maxLines maxChars : ℕ) : String :=
  match rtkOut with
  | some out => out
  | none => String.ofList (ended (capChars maxChars (shown text maxLines)))

/-! ### What is asked of it -/

/-- The result respects the caps. -/
structure Respects (text : String) (maxLines maxChars : ℕ) : Prop where
  lines : (splitlines (compressText none text maxLines maxChars).toList).length ≤ maxLines + 2
  chars : (compressText none text maxLines maxChars).toList.length ≤ maxChars + 1
  /-- A text within both caps is kept, apart from its line boundaries. -/
  kept : (splitlines text.toList).length ≤ maxLines → text.toList.length ≤ maxChars →
    (compressText none text maxLines maxChars).toList = ended (join (splitlines text.toList))
  /-- The lines kept and the number of those omitted are all lines, unless characters are cut. -/
  counted : (shown text maxLines).length ≤ maxChars →
    (compressText none text maxLines maxChars).toList = ended (join (splitlines text.toList)) ∨
    ∃ front back n, (compressText none text maxLines maxChars).toList = ended (join (front ++ [omitted n] ++ back)) ∧
      front <+: splitlines text.toList ∧ back <:+ splitlines text.toList ∧
      n + (front.length + back.length) = (splitlines text.toList).length

/-! ### Lines -/

theorem toList_compress (text : String) (n m : ℕ) :
    (compressText none text n m).toList = ended (capChars m (shown text n)) := by
  rw [compressText, String.toList_ofList]

theorem omitted_plain (n : ℕ) : ∀ c ∈ omitted n, isBreak c = false := by
  intro c hc
  rw [omitted, String.toList_append, String.toList_append, List.mem_append, List.mem_append] at hc
  rcases hc with (hc | hc) | hc
  · have hall : ("... [".toList.all fun c => !isBreak c) = true := by decide
    exact Bool.not_eq_true' _ ▸ List.all_eq_true.mp hall c hc
  · have hdigits : (toString n).toList = Nat.toDigits 10 n := by
      rw [Nat.toString_eq_repr, Nat.toList_repr]
    rw [hdigits] at hc
    have hdigit : c.isDigit = true := Nat.isDigit_of_mem_toDigits (by decide) (by decide) hc
    rw [Char.isDigit, Bool.and_eq_true, decide_eq_true_eq, decide_eq_true_eq] at hdigit
    have hlow : 48 ≤ c.toNat := hdigit.1
    have hhigh : c.toNat ≤ 57 := hdigit.2
    unfold isBreak
    simp only [Bool.or_eq_false_iff, Bool.and_eq_false_iff, decide_eq_false_iff_not, beq_eq_false_iff_ne]
    omega
  · have hall : (" LINES OMITTED] ...".toList.all fun c => !isBreak c) = true := by decide
    exact Bool.not_eq_true' _ ▸ List.all_eq_true.mp hall c hc

theorem mem_lastSlice {α : Type} {n : ℕ} {xs : List α} {x : α} (h : x ∈ lastSlice n xs) : x ∈ xs := by
  unfold lastSlice at h
  split_ifs at h
  · exact h
  · exact List.mem_of_mem_drop h

theorem mem_capLines {n : ℕ} {lines : List (List Char)} {l : List Char} (h : l ∈ capLines n lines) :
    l ∈ lines ∨ ∃ k, l = omitted k := by
  unfold capLines at h
  split_ifs at h
  · rcases List.mem_append.mp h with h | h
    · rcases List.mem_append.mp h with h | h
      · exact Or.inl (List.mem_of_mem_take h)
      · exact Or.inr ⟨_, List.mem_singleton.mp h⟩
    · exact Or.inl (mem_lastSlice h)
  · exact Or.inl h

/-- The lines that are shown hold no boundary. -/
theorem capLines_plain (text : String) (n : ℕ) :
    ∀ l ∈ capLines n (splitlines text.toList), ∀ c ∈ l, isBreak c = false := by
  intro l hl
  rcases mem_capLines hl with hl | ⟨k, rfl⟩
  · exact mem_splitlines _ le_rfl l hl
  · exact omitted_plain k

/-- With two lines or more, there is a line for the end of the text. -/
theorem capLines_eq {n : ℕ} (hn : 2 ≤ n) {lines : List (List Char)} (h : n < lines.length) :
    ∃ head tail, 0 < tail ∧ head + tail = n ∧
      capLines n lines = lines.take head ++ [omitted (lines.length - n)] ++ lines.drop (lines.length - tail) := by
  refine ⟨max 1 (n * 3 / 4), n - max 1 (n * 3 / 4), by omega, by omega, ?_⟩
  unfold capLines lastSlice
  rw [if_pos h]
  dsimp only
  rw [if_neg (by omega)]

theorem length_capLines {n : ℕ} {lines : List (List Char)} (h : lines.length ≤ n ∨ 2 ≤ n) :
    (capLines n lines).length ≤ n + 1 := by
  by_cases hfew : lines.length ≤ n
  · unfold capLines
    rw [if_neg (by omega)]
    omega
  · have hmany : n < lines.length := by omega
    obtain ⟨head, tail, -, hsum, heq⟩ := capLines_eq (h.resolve_left hfew) hmany
    rw [heq, List.length_append, List.length_append, List.length_take, List.length_drop, List.length_singleton]
    omega

/-- A text ended by a line feed has at most one line more than boundaries. -/
theorem lines_ended (cs : List Char) : (splitlines (ended cs)).length ≤ breaks cs + 1 := by
  unfold ended
  split_ifs with h
  · exact (lines_le _ le_rfl).1
  · have hended := (lines_le (cs ++ ['\n']).length le_rfl).2 (List.getLast?_concat ..)
    rw [breaks, List.countP_append] at hended
    exact hended

theorem length_ended (cs : List Char) : (ended cs).length ≤ cs.length + 1 := by
  unfold ended
  split_ifs
  · exact Nat.le_succ _
  · rw [List.length_append, List.length_singleton]

/-! ### Characters -/

theorem slice_sublist (k : ℤ) (cs : List Char) : (slice k cs).Sublist cs := by
  unfold slice
  split_ifs
  · exact List.take_sublist _ _
  · exact List.take_sublist _ _

theorem rstrip_sublist (cs : List Char) : (rstrip cs).Sublist cs := (List.rdropWhile_prefix isSpace cs).sublist

/-- Cutting characters adds the boundary before the marker. -/
theorem breaks_capChars (m : ℕ) (cs : List Char) : breaks (capChars m cs) ≤ breaks cs + 1 := by
  unfold capChars
  split_ifs
  · have hsub := ((rstrip_sublist _).trans (slice_sublist ((m : ℤ) - 40) cs)).countP_le (p := isBreak)
    have hmarker : capMarker.countP isBreak = 1 := by decide
    rw [breaks, List.countP_append, hmarker]
    exact Nat.succ_le_succ hsub
  · exact Nat.le_succ _

theorem length_capChars {m : ℕ} {cs : List Char} (h : cs.length ≤ m ∨ 40 ≤ m) : (capChars m cs).length ≤ m := by
  unfold capChars
  split_ifs with hlong
  · have hm : 40 ≤ m := h.resolve_left (by omega)
    have hmarker : capMarker.length = 28 := by decide
    have hsub := (rstrip_sublist (slice ((m : ℤ) - 40) cs)).length_le
    have hslice : (slice ((m : ℤ) - 40) cs).length ≤ m - 40 := by
      unfold slice
      rw [if_pos (by omega), List.length_take]
      omega
    rw [List.length_append, hmarker]
    omega
  · omega

/-- **The caps are respected** where neither slip is reached. -/
theorem respects_of {text : String} {n m : ℕ} (hn : (splitlines text.toList).length ≤ n ∨ 2 ≤ n)
    (hm : (shown text n).length ≤ m ∨ 40 ≤ m) : Respects text n m := by
  have hlines := length_capLines hn
  have hbreaks : breaks (shown text n) = (capLines n (splitlines text.toList)).length - 1 :=
    breaks_join (capLines_plain text n)
  have huncapped : (shown text n).length ≤ m → capChars m (shown text n) = shown text n := fun h =>
    if_neg (not_lt.mpr h)
  constructor
  · rw [toList_compress]
    have hended := lines_ended (capChars m (shown text n))
    have hcap := breaks_capChars m (shown text n)
    omega
  · rw [toList_compress]
    have hended := length_ended (capChars m (shown text n))
    have hcap := length_capChars hm
    omega
  · intro hfew hshort
    have hshown : shown text n = join (splitlines text.toList) := by
      rw [shown, capLines, if_neg (not_lt.mpr hfew)]
    have hle := length_join_splitlines text.toList.length le_rfl
    rw [toList_compress, huncapped (by rw [hshown]; omega), hshown]
  · intro hshort
    rw [toList_compress, huncapped hshort]
    by_cases hfew : (splitlines text.toList).length ≤ n
    · exact Or.inl (by rw [shown, capLines, if_neg (not_lt.mpr hfew)])
    · have hmany : n < (splitlines text.toList).length := by omega
      obtain ⟨head, tail, -, hsum, heq⟩ := capLines_eq (hn.resolve_left hfew) hmany
      refine Or.inr ⟨_, _, _, by rw [shown, heq], List.take_prefix _ _, List.drop_suffix _ _, ?_⟩
      rw [List.length_take, List.length_drop]
      omega

/-! ### The bad caps -/

/-- One line is shown twice, and the marker between. -/
theorem one_line_doubled (m : ℕ) (hm : 40 ≤ m) : ¬Respects "a\na" 1 m := by
  intro h
  have hshown : shown "a\na" 1 = "a\n... [1 LINES OMITTED] ...\na\na".toList := by decide +kernel
  have hlen : (shown "a\na" 1).length ≤ m := by
    rw [hshown]
    exact le_trans (by decide) hm
  have hout : (compressText none "a\na" 1 m).toList = "a\n... [1 LINES OMITTED] ...\na\na\n".toList := by
    rw [toList_compress, capChars, if_neg (not_lt.mpr hlen), hshown]
    decide
  have hlines := h.lines
  rw [hout] at hlines
  exact absurd hlines (by decide +kernel)

/-- A long line. -/
def longLine : String := String.ofList (List.replicate 80 'x')

/-- Below forty characters the cut leaves more than the cap. -/
theorem cut_from_end {n m : ℕ} (hn : 0 < n) (hm : m < 40) : ¬Respects longLine n m := by
  intro h
  have hlong : longLine.toList = List.replicate 80 'x' := String.toList_ofList
  have hsplit : splitlines (List.replicate 80 'x') = [List.replicate 80 'x'] := by decide +kernel
  have hshown : shown longLine n = List.replicate 80 'x' := by
    rw [shown, hlong, hsplit, capLines, if_neg (by simpa using Nat.pos_iff_ne_zero.mp hn), join_singleton]
  have hslice : slice ((m : ℤ) - 40) (List.replicate 80 'x') = List.replicate (40 + m) 'x' := by
    rw [slice, if_neg (by omega), List.length_replicate, List.take_replicate]
    congr 1
    omega
  have hstrip : rstrip (List.replicate (40 + m) 'x') = List.replicate (40 + m) 'x' := by
    rw [rstrip, List.rdropWhile_eq_self_iff]
    intro hne
    rw [List.getLast_replicate]
    decide
  have hmarker : capMarker.length = 28 := by decide
  have hchars := h.chars
  have hgrows : (capChars m (shown longLine n)).length ≤ (ended (capChars m (shown longLine n))).length := by
    unfold ended
    split_ifs
    · exact le_rfl
    · rw [List.length_append]
      exact Nat.le_add_right _ _
  rw [toList_compress] at hchars
  have hcut : (capChars m (shown longLine n)).length = 40 + m + 28 := by
    rw [hshown, capChars, if_pos (by rw [List.length_replicate]; omega), hslice, hstrip, List.length_append, hmarker,
      List.length_replicate]
  omega

/-- **The caps that every text is compressed to**: at least two lines and forty characters. For one text the
line cap does not matter if the text has no more lines, nor the character cap if what is shown fits. -/
theorem caps_iff {n m : ℕ} (hn : 0 < n) (hm : 0 < m) :
    ((∀ text, Respects text n m) ↔ 2 ≤ n ∧ 40 ≤ m) ∧
    ∀ text, (splitlines text.toList).length ≤ n ∨ 2 ≤ n → (shown text n).length ≤ m ∨ 40 ≤ m → Respects text n m := by
  refine ⟨⟨fun h => ?_, fun h text => respects_of (Or.inr h.1) (Or.inr h.2)⟩, fun _ => respects_of⟩
  have hchars : 40 ≤ m := by
    by_contra hlt
    exact cut_from_end hn (by omega) (h longLine)
  refine ⟨?_, hchars⟩
  by_contra hone
  have heq : n = 1 := by omega
  subst heq
  exact one_line_doubled m hchars (h "a\na")

/-- The caps that the checks of a task are run with. -/
theorem caps_iff_checks :
    ((∀ text, Respects text 60 10000) ↔ 2 ≤ 60 ∧ 40 ≤ 10000) ∧
    ∀ text, (splitlines text.toList).length ≤ 60 ∨ 2 ≤ 60 → (shown text 60).length ≤ 10000 ∨ 40 ≤ 10000 →
      Respects text 60 10000 :=
  caps_iff (by decide) (by decide)

/-- Two lines become four under a cap of one, and a cap of thirty characters lets ninety-nine through. -/
theorem caps_missed : ¬Respects "a\na" 1 40 ∧ ¬Respects longLine 1 30 :=
  ⟨one_line_doubled 40 le_rfl, cut_from_end (by decide) (by decide)⟩

end ControlPlane.Verify.Compress
