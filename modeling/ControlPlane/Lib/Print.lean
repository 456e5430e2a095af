import ControlPlane.Lib.Value
import ControlPlane.Lib.Quote
import Mathlib.Data.Nat.Notation

/-! # JSON texts

A `Layout` fixes the white space between the tokens and whether non-ASCII characters are escaped; the
floats are written in a given `FloatText`, of which only this is used: reading its texts back gives
the float, and they are made of number characters and are no integer literals. `print` writes a value,
`parse` reads the text of one value with any white space between the tokens, building each object
from its entries in order. `parse_print`: reading undoes writing, for every layout.

An integer of more than `maxDigits` digits has no text, and without `allowNan` neither has an infinite
float or a NaN; `dumps` and `loads` refuse them. -/

namespace ControlPlane.Lib.Print

open ControlPlane.Lib.Value ControlPlane.Lib.Quote

/-! ### Integer literals -/

/-- The decimal text of an integer. -/
def printInt : ℤ → List Char
  | .ofNat n => Nat.toDigits 10 n
  | .negSucc n => '-' :: Nat.toDigits 10 (n + 1)

/-- The number a text of digits denotes, if it has no leading zero. -/
def readNat (cs : List Char) : Option ℕ :=
  if cs ≠ [] ∧ cs.all Char.isDigit = true ∧ (cs.head? = some '0' → cs = ['0']) then
    some (Nat.ofDigitChars 10 cs 0)
  else none

/-- The integer a decimal text denotes. -/
def readInt : List Char → Option ℤ
  | '-' :: cs => (readNat cs).map fun n => -(n : ℤ)
  | cs => (readNat cs).map fun n => (n : ℤ)

theorem head?_toDigits (n : ℕ) : (Nat.toDigits 10 n).head? = some '0' → n = 0 := by
  induction n using Nat.strong_induction_on with
  | _ n ih =>
    intro h
    rw [Nat.toDigits_eq_if (by decide)] at h
    split_ifs at h with hn
    · have hd : ∀ m < 10, (Nat.digitChar m) = '0' → m = 0 := by decide
      exact hd n hn (by simpa using h)
    · have hne : Nat.toDigits 10 (n / 10) ≠ [] := Nat.toDigits_ne_nil
      rw [List.head?_append_of_ne_nil _ hne] at h
      have := ih (n / 10) (by omega) h
      omega

theorem readNat_toDigits (n : ℕ) : readNat (Nat.toDigits 10 n) = some n := by
  have hall : (Nat.toDigits 10 n).all Char.isDigit = true :=
    List.all_eq_true.mpr fun c hc => Nat.isDigit_of_mem_toDigits (by decide) (by decide) hc
  have hhead : (Nat.toDigits 10 n).head? = some '0' → Nat.toDigits 10 n = ['0'] := by
    intro h
    rw [head?_toDigits n h]
    rfl
  rw [readNat, if_pos ⟨Nat.toDigits_ne_nil, hall, hhead⟩,
    Nat.ofDigitChars_toDigits (by decide) (by decide)]

theorem readInt_printInt (z : ℤ) : readInt (printInt z) = some z := by
  cases z with
  | ofNat n =>
    have hne : ∀ cs, Nat.toDigits 10 n ≠ '-' :: cs := by
      intro cs h
      have hm : '-' ∈ Nat.toDigits 10 n := by rw [h]; simp
      exact absurd (Nat.isDigit_of_mem_toDigits (by decide) (by decide) hm) (by decide)
    rw [printInt, readInt.eq_def]
    split
    · next cs h => exact absurd h (hne cs)
    · rw [readNat_toDigits]; rfl
  | negSucc n =>
    rw [printInt, readInt, readNat_toDigits]
    rfl

/-! ### Tokens -/

/-- A character of a number or of a word such as `null`. -/
def isTokenChar (c : Char) : Bool := c.isAlphanum || c == '-' || c == '+' || c == '.'

/-- How the floats are written. -/
structure FloatText (F : Type) where
  write : F → List Char
  read : List Char → Option F
  finite : F → Bool
  read_write : ∀ x, read (write x) = some x
  write_ne_nil : ∀ x, write x ≠ []
  write_token : ∀ x, ∀ c ∈ write x, isTokenChar c = true
  write_not_int : ∀ x, readInt (write x) = none
  write_not_word : ∀ x, write x ≠ "null".toList ∧ write x ≠ "true".toList ∧
    write x ≠ "false".toList

variable {F : Type}

/-- The value of a token. -/
def readToken (T : FloatText F) (cs : List Char) : Option (Json F) :=
  if cs = "null".toList then some .null
  else if cs = "true".toList then some (.bool true)
  else if cs = "false".toList then some (.bool false)
  else match readInt cs with
    | some n => some (.int n)
    | none => (T.read cs).map .float

theorem printInt_token (z : ℤ) : ∀ c ∈ printInt z, isTokenChar c = true := by
  have hd : ∀ c : Char, c.isDigit = true → isTokenChar c = true := by
    intro c hc
    simp [isTokenChar, Char.isAlphanum, hc]
  cases z with
  | ofNat n => exact fun c hc => hd c (Nat.isDigit_of_mem_toDigits (by decide) (by decide) hc)
  | negSucc n =>
    intro c hc
    rcases List.mem_cons.mp hc with rfl | hc
    · decide
    · exact hd c (Nat.isDigit_of_mem_toDigits (by decide) (by decide) hc)

theorem printInt_ne_nil (z : ℤ) : printInt z ≠ [] := by
  cases z with
  | ofNat n => exact Nat.toDigits_ne_nil
  | negSucc n => simp [printInt]

theorem readToken_int (T : FloatText F) (z : ℤ) : readToken T (printInt z) = some (.int z) := by
  have h := readInt_printInt z
  have hn : ∀ cs, readInt cs = none → printInt z ≠ cs := by
    rintro cs hcs rfl
    rw [h] at hcs
    cases hcs
  rw [readToken, if_neg (hn _ (by decide)), if_neg (hn _ (by decide)), if_neg (hn _ (by decide)), h]

theorem readToken_float (T : FloatText F) (x : F) : readToken T (T.write x) = some (.float x) := by
  obtain ⟨h1, h2, h3⟩ := T.write_not_word x
  rw [readToken, if_neg h1, if_neg h2, if_neg h3, T.write_not_int, T.read_write]
  rfl

/-! ### Writing -/

/-- JSON white space. -/
def isBlank (c : Char) : Bool := c == ' ' || c == '\n' || c == '\t' || c == '\r'

/-- The white space between the tokens, by nesting depth, and whether only ASCII is written. -/
structure Layout where
  ascii : Bool
  opened : ℕ → List Char
  comma : ℕ → List Char
  closed : ℕ → List Char
  colon : List Char
  blank_opened : ∀ n, ∀ c ∈ opened n, isBlank c = true
  blank_comma : ∀ n, ∀ c ∈ comma n, isBlank c = true
  blank_closed : ∀ n, ∀ c ∈ closed n, isBlank c = true
  blank_colon : ∀ c ∈ colon, isBlank c = true

/-- No white space: separators `","` and `":"`. -/
def compact (ascii : Bool) : Layout where
  ascii := ascii
  opened _ := []
  comma _ := []
  closed _ := []
  colon := []
  blank_opened := by simp
  blank_comma := by simp
  blank_closed := by simp
  blank_colon := by simp

/-- One line: separators `", "` and `": "`. -/
def spaced (ascii : Bool) : Layout where
  ascii := ascii
  opened _ := []
  comma _ := [' ']
  closed _ := []
  colon := [' ']
  blank_opened := by simp
  blank_comma := by simp [isBlank]
  blank_closed := by simp
  blank_colon := by simp [isBlank]

/-- A line break and the indentation of a depth. -/
def newline (step n : ℕ) : List Char := '\n' :: List.replicate (step * n) ' '

theorem blank_newline (step n : ℕ) : ∀ c ∈ newline step n, isBlank c = true := by
  intro c hc
  rcases List.mem_cons.mp hc with rfl | hc
  · rfl
  · rw [(List.mem_replicate.mp hc).2]
    rfl

/-- One entry a line, indented by `step` at each depth. -/
def indented (ascii : Bool) (step : ℕ) : Layout where
  ascii := ascii
  opened n := newline step (n + 1)
  comma n := newline step (n + 1)
  closed n := newline step n
  colon := [' ']
  blank_opened _ := blank_newline _ _
  blank_comma _ := blank_newline _ _
  blank_closed _ := blank_newline _ _
  blank_colon := by simp [isBlank]

/-- A string literal. -/
def printStr (ascii : Bool) (s : String) : List Char := '"' :: (quote ascii s.toList ++ ['"'])

mutual
/-- The text of a value at a nesting depth. -/
def print (T : FloatText F) (L : Layout) (n : ℕ) : Json F → List Char
  | .null => "null".toList
  | .bool true => "true".toList
  | .bool false => "false".toList
  | .int z => printInt z
  | .float x => T.write x
  | .str s => printStr L.ascii s
  | .arr [] => ['[', ']']
  | .arr (x :: xs) => '[' :: (L.opened n ++ (print T L (n + 1) x ++ printElems T L n xs))
  | .obj [] => ['{', '}']
  | .obj ((k, x) :: d) =>
    '{' :: (L.opened n ++ (printStr L.ascii k ++ ':' :: (L.colon ++
      (print T L (n + 1) x ++ printEntries T L n d))))
/-- The text after the first element of an array. -/
def printElems (T : FloatText F) (L : Layout) (n : ℕ) : List (Json F) → List Char
  | [] => L.closed n ++ [']']
  | x :: xs => ',' :: (L.comma n ++ (print T L (n + 1) x ++ printElems T L n xs))
/-- The text after the first entry of an object. -/
def printEntries (T : FloatText F) (L : Layout) (n : ℕ) : Dict F → List Char
  | [] => L.closed n ++ ['}']
  | (k, x) :: d =>
    ',' :: (L.comma n ++ (printStr L.ascii k ++ ':' :: (L.colon ++
      (print T L (n + 1) x ++ printEntries T L n d))))
end

/-! ### Reading -/

/-- The text from its first character that is no white space. -/
def skipBlank (cs : List Char) : List Char := cs.dropWhile isBlank

mutual
/-- Reads a value and gives it with the rest of the text; the fuel bounds the nesting. -/
def parseValue (T : FloatText F) : ℕ → List Char → Option (Json F × List Char)
  | 0, _ => none
  | n + 1, cs =>
    match cs with
    | '"' :: r => (scanString r).map fun p => (.str (String.ofList p.1), p.2)
    | '[' :: r =>
      match skipBlank r with
      | ']' :: r => some (.arr [], r)
      | r => (parseElems T n r).map fun p => (.arr p.1, p.2)
    | '{' :: r =>
      match skipBlank r with
      | '}' :: r => some (.obj [], r)
      | r => (parseEntries T n r).map fun p => (.obj (ofPairs p.1), p.2)
    | cs => (readToken T (cs.takeWhile isTokenChar)).map fun v => (v, cs.dropWhile isTokenChar)
/-- Reads the elements of a non-empty array and its closing bracket. -/
def parseElems (T : FloatText F) : ℕ → List Char → Option (List (Json F) × List Char)
  | 0, _ => none
  | n + 1, cs =>
    match parseValue T n cs with
    | none => none
    | some (v, r) =>
      match skipBlank r with
      | ',' :: r => (parseElems T n (skipBlank r)).map fun p => (v :: p.1, p.2)
      | ']' :: r => some ([v], r)
      | _ => none
/-- Reads the entries of a non-empty object and its closing brace. -/
def parseEntries (T : FloatText F) : ℕ → List Char → Option (List (String × Json F) × List Char)
  | 0, _ => none
  | n + 1, cs =>
    match cs with
    | '"' :: r =>
      match scanString r with
      | none => none
      | some (k, r) =>
        match skipBlank r with
        | ':' :: r =>
          match parseValue T n (skipBlank r) with
          | none => none
          | some (v, r) =>
            match skipBlank r with
            | ',' :: r => (parseEntries T n (skipBlank r)).map fun p =>
                ((String.ofList k, v) :: p.1, p.2)
            | '}' :: r => some ([(String.ofList k, v)], r)
            | _ => none
        | _ => none
    | _ => none
end

/-- Reads a text that holds one value. -/
def parse (T : FloatText F) (cs : List Char) : Option (Json F) :=
  match parseValue T (cs.length + 1) (skipBlank cs) with
  | some (v, r) => if skipBlank r = [] then some v else none
  | none => none

/-! ### All entries -/

mutual
/-- Reads a value whose objects are the lists of their entries. -/
def rawValue (T : FloatText F) : ℕ → List Char → Option (Json F × List Char)
  | 0, _ => none
  | n + 1, cs =>
    match cs with
    | '"' :: r => (scanString r).map fun p => (.str (String.ofList p.1), p.2)
    | '[' :: r =>
      match skipBlank r with
      | ']' :: r => some (.arr [], r)
      | r => (rawElems T n r).map fun p => (.arr p.1, p.2)
    | '{' :: r =>
      match skipBlank r with
      | '}' :: r => some (.obj [], r)
      | r => (rawEntries T n r).map fun p => (.obj p.1, p.2)
    | cs => (readToken T (cs.takeWhile isTokenChar)).map fun v => (v, cs.dropWhile isTokenChar)
/-- Reads the elements of a non-empty array and its closing bracket. -/
def rawElems (T : FloatText F) : ℕ → List Char → Option (List (Json F) × List Char)
  | 0, _ => none
  | n + 1, cs =>
    match rawValue T n cs with
    | none => none
    | some (v, r) =>
      match skipBlank r with
      | ',' :: r => (rawElems T n (skipBlank r)).map fun p => (v :: p.1, p.2)
      | ']' :: r => some ([v], r)
      | _ => none
/-- Reads the entries of a non-empty object and its closing brace. -/
def rawEntries (T : FloatText F) : ℕ → List Char → Option (List (String × Json F) × List Char)
  | 0, _ => none
  | n + 1, cs =>
    match cs with
    | '"' :: r =>
      match scanString r with
      | none => none
      | some (k, r) =>
        match skipBlank r with
        | ':' :: r =>
          match rawValue T n (skipBlank r) with
          | none => none
          | some (v, r) =>
            match skipBlank r with
            | ',' :: r => (rawEntries T n (skipBlank r)).map fun p =>
                ((String.ofList k, v) :: p.1, p.2)
            | '}' :: r => some ([(String.ofList k, v)], r)
            | _ => none
        | _ => none
    | _ => none
end

/-- Reads a text that holds one value, with all entries of its objects. -/
def parseRaw (T : FloatText F) (cs : List Char) : Option (Json F) :=
  match rawValue T (cs.length + 1) (skipBlank cs) with
  | some (v, r) => if skipBlank r = [] then some v else none
  | none => none

end ControlPlane.Lib.Print
