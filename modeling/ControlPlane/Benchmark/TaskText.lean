import ControlPlane.Environment
import ControlPlane.Lib.Segments

/-! # Task texts

The normal form of a task text has its runs of ASCII letters, digits and `_./:-`, case folded. It does not see
the case of letters and white space (`tokens_of_words`), and it does not see letters and digits outside ASCII:
two texts with the same normal form have the same words if and only if the words with such characters are the
same, at the same places (`words_eq_iff`). -/

namespace ControlPlane.Benchmark.TaskText

open ControlPlane.Lib.Text ControlPlane.Lib.Segments ControlPlane.Environment

variable {F : Type} (E : Env F) (isalnum : Char → Bool)

/-! ### Texts -/

def isAscii (c : Char) : Bool := decide (c.toNat < 128)

/-- `[A-Za-z0-9_./:-]` -/
def isTokenChar (c : Char) : Bool := c.isAlphanum || "_./:-".toList.contains c

/-- Letters and digits of any script; `isalnum` says which they are outside ASCII. -/
def isWordChar (c : Char) : Bool := if isAscii c then c.isAlphanum else isalnum c

def foldedChars (value : String) : List Char := (E.casefold value).toList

/-- `_TOKEN_RE.findall(value.casefold())` -/
def tokensOf (value : String) : List (List Char) := segments isTokenChar (foldedChars E value)

def normalizedTask (value : String) : String := String.ofList ([' '].intercalate (tokensOf E value))

/-- The maximal runs of letters and digits, case folded. -/
def wordsOf (value : String) : List (List Char) := segments (isWordChar isalnum) (foldedChars E value)

/-- The parts between white space, case folded. -/
def foldedParts (value : String) : List (List Char) := segments (fun c => !isSpace c) (foldedChars E value)

/-- The words with a character outside ASCII, with their places among the words. -/
def foreignWords (value : String) : List (List Char × ℕ) :=
  ((wordsOf E isalnum value).zipIdx).filter fun w => !w.1.all isAscii

variable {E isalnum}

/-! ### Characters -/

theorem alphanum_range {c : Char} (h : c.isAlphanum = true) : 0x30 ≤ c.toNat ∧ c.toNat ≤ 0x7a := by
  have hnat : c.toNat = c.val.toNat := rfl
  have hlast : 'z'.val.toNat = 0x7a ∧ 'Z'.val.toNat = 0x5a ∧ '9'.val.toNat = 0x39 := ⟨rfl, rfl, rfl⟩
  have hfirst : 'a'.val.toNat = 0x61 ∧ 'A'.val.toNat = 0x41 ∧ '0'.val.toNat = 0x30 := ⟨rfl, rfl, rfl⟩
  delta Char.isAlphanum Char.isAlpha Char.isUpper Char.isLower Char.isDigit at h
  simp only [Bool.or_eq_true, Bool.and_eq_true, decide_eq_true_eq, UInt32.le_iff_toNat_le, ge_iff_le] at h
  omega

theorem isAscii_of_alphanum {c : Char} (h : c.isAlphanum = true) : isAscii c = true := by
  have hrange := alphanum_range h
  rw [isAscii, decide_eq_true_eq]
  omega

theorem not_space_of_token {c : Char} (h : isTokenChar c = true) : isSpace c = false := by
  rw [isTokenChar, Bool.or_eq_true] at h
  rcases h with h | h
  · have hrange := alphanum_range h
    simp only [isSpace, Bool.or_eq_false_iff, Bool.and_eq_false_iff, decide_eq_false_iff_not, beq_eq_false_iff_ne]
    omega
  · have hall : "_./:-".toList.all (fun c => !isSpace c) = true := by decide
    simpa using List.all_eq_true.mp hall c (List.contains_iff_mem.mp h)

theorem not_token_space : isTokenChar ' ' = false := by decide

/-! ### Normal forms -/

theorem tokens_of_parts {a b : String} (h : foldedParts E a = foldedParts E b) : tokensOf E a = tokensOf E b := by
  have hcut : ∀ value, tokensOf E value = (foldedParts E value).flatMap (segments isTokenChar) := fun value =>
    segments_refine (fun c hc => by simp [not_space_of_token hc]) _
  rw [hcut, hcut, h]

/-- **Equal normal forms** are those of texts with the same tokens. -/
theorem normalizedTask_inj {a b : String} :
    normalizedTask E a = normalizedTask E b ↔ tokensOf E a = tokensOf E b := by
  constructor
  · intro h
    have hback : ∀ value, segments isTokenChar ([' '].intercalate (tokensOf E value)) = tokensOf E value :=
      fun value => segments_intercalate not_token_space fun s hs => mem_segments hs
    have hchars := congrArg (segments isTokenChar) (String.ofList_inj.mp h)
    rwa [hback, hback] at hchars
  · intro h
    rw [normalizedTask, normalizedTask, h]

/-- A word without a character outside ASCII is a run of ASCII letters and digits. -/
theorem uncut_words (value : String) :
    Uncut (segments Char.isAlphanum) (fun w => w.all isAscii) (wordsOf E isalnum value) := by
  intro w hw hascii
  obtain ⟨hne, hall⟩ := mem_segments hw
  refine segments_all hne fun c hc => ?_
  have hword := hall c hc
  rw [isWordChar, if_pos (List.all_eq_true.mp hascii c hc)] at hword
  exact hword

/-- **Texts with the same tokens** have the same words if and only if they have the same words with characters
outside ASCII, at the same places. -/
theorem words_eq_iff {a b : String} (h : tokensOf E a = tokensOf E b) :
    wordsOf E isalnum a = wordsOf E isalnum b ↔ foreignWords E isalnum a = foreignWords E isalnum b := by
  have htoken : ∀ value, segments Char.isAlphanum (foldedChars E value) =
      (tokensOf E value).flatMap (segments Char.isAlphanum) := fun value =>
    segments_refine (fun c hc => by simp [isTokenChar, hc]) _
  have hword : ∀ value, segments Char.isAlphanum (foldedChars E value) =
      (wordsOf E isalnum value).flatMap (segments Char.isAlphanum) := fun value =>
    segments_refine (fun c hc => by rw [isWordChar, if_pos (isAscii_of_alphanum hc), hc]) _
  constructor
  · intro hsame
    rw [foreignWords, foreignWords, hsame]
  · intro hforeign
    have hcut : (wordsOf E isalnum a).flatMap (segments Char.isAlphanum) =
        (wordsOf E isalnum b).flatMap (segments Char.isAlphanum) := by
      rw [← hword, ← hword, htoken, htoken, h]
    exact eq_of_cut (uncut_words a) (uncut_words b) hcut hforeign

end ControlPlane.Benchmark.TaskText
