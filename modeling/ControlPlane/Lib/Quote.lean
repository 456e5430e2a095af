import Mathlib.Data.Nat.Notation
import Mathlib.Tactic.SplitIfs

/-! # String literals of JSON

`quote` writes the text of a string between quotation marks: the two characters that need it and the
control characters are escaped, and with `ascii` set every other character outside the printable
ASCII range too, as one `\u` escape or as two for a surrogate pair. `scanString` reads the
characters of a literal up to its closing quotation mark. Reading undoes writing
(`scanString_quote`).

A character is a Unicode scalar value, so a lone surrogate escape denotes no character here and is
refused. -/

namespace ControlPlane.Lib.Quote

/-- A property of the characters of a text, checked one by one. -/
theorem forall_chars {p : Char → Prop} [DecidablePred p] {cs : List Char}
    (h : cs.all (fun c => decide (p c)) = true) : ∀ c ∈ cs, p c := by
  intro c hc
  exact of_decide_eq_true (List.all_eq_true.mp h c hc)

/-! ### Escapes -/

/-- The escape of one UTF-16 code unit. -/
def escape4 (n : ℕ) : List Char :=
  ['\\', 'u', Nat.digitChar (n / 4096), Nat.digitChar (n / 256 % 16), Nat.digitChar (n / 16 % 16),
    Nat.digitChar (n % 16)]

/-- The text of one character inside a literal. -/
def quoteChar (ascii : Bool) (c : Char) : List Char :=
  if c = '"' then ['\\', '"']
  else if c = '\\' then ['\\', '\\']
  else if c = '\n' then ['\\', 'n']
  else if c = '\r' then ['\\', 'r']
  else if c = '\t' then ['\\', 't']
  else if c = '\x0c' then ['\\', 'f']
  else if c = '\x08' then ['\\', 'b']
  else if c.toNat < 0x20 then escape4 c.toNat
  else if ascii = true ∧ 0x7f ≤ c.toNat then
    if c.toNat < 0x10000 then escape4 c.toNat
    else escape4 (0xd800 + (c.toNat - 0x10000) / 1024) ++
      escape4 (0xdc00 + (c.toNat - 0x10000) % 1024)
  else [c]

/-- The characters of a literal, without its quotation marks. -/
def quote (ascii : Bool) (cs : List Char) : List Char := cs.flatMap (quoteChar ascii)

/-- The value of a hexadecimal digit. -/
def hexVal (c : Char) : Option ℕ :=
  if '0' ≤ c ∧ c ≤ '9' then some (c.toNat - 48)
  else if 'a' ≤ c ∧ c ≤ 'f' then some (c.toNat - 87)
  else if 'A' ≤ c ∧ c ≤ 'F' then some (c.toNat - 55)
  else none

/-- The code unit of four hexadecimal digits. -/
def hex4 (a b c d : Char) : Option ℕ :=
  match hexVal a, hexVal b, hexVal c, hexVal d with
  | some a, some b, some c, some d => some (a * 4096 + b * 256 + c * 16 + d)
  | _, _, _, _ => none

/-- The character of a two-character escape. -/
def unescape (c : Char) : Option Char :=
  if c = '"' then some '"'
  else if c = '\\' then some '\\'
  else if c = '/' then some '/'
  else if c = 'b' then some '\x08'
  else if c = 'f' then some '\x0c'
  else if c = 'n' then some '\n'
  else if c = 'r' then some '\r'
  else if c = 't' then some '\t'
  else none

/-- The character that a surrogate pair encodes, if it is one. -/
def joinPair (hi lo : ℕ) : Option Char :=
  if 0xd800 ≤ hi ∧ hi < 0xdc00 ∧ 0xdc00 ≤ lo ∧ lo < 0xe000 then
    some (Char.ofNat (0x10000 + (hi - 0xd800) * 1024 + (lo - 0xdc00)))
  else none

/-- Adds a character to what the rest of a literal reads as. -/
def push (c : Char) (r : Option (List Char × List Char)) : Option (List Char × List Char) :=
  r.map fun p => (c :: p.1, p.2)

/-- Reads the characters of a literal up to its closing quotation mark. -/
def scanString : List Char → Option (List Char × List Char)
  | [] => none
  | '"' :: r => some ([], r)
  | '\\' :: 'u' :: a :: b :: c :: d :: r =>
    match hex4 a b c d with
    | none => none
    | some n =>
      if 0xd800 ≤ n ∧ n < 0xe000 then
        match r with
        | '\\' :: 'u' :: a' :: b' :: c' :: d' :: r' =>
          match (hex4 a' b' c' d').bind (joinPair n) with
          | none => none
          | some ch => push ch (scanString r')
        | _ => none
      else push (Char.ofNat n) (scanString r)
  | '\\' :: e :: r =>
    match unescape e with
    | none => none
    | some ch => push ch (scanString r)
  | c :: r => if c = '\\' ∨ c.toNat < 0x20 then none else push c (scanString r)

/-! ### Reading undoes writing -/

theorem hexVal_digitChar : ∀ n < 16, hexVal (Nat.digitChar n) = some n := by decide

theorem hex4_escape {n : ℕ} (h : n < 0x10000) :
    hex4 (Nat.digitChar (n / 4096)) (Nat.digitChar (n / 256 % 16)) (Nat.digitChar (n / 16 % 16))
      (Nat.digitChar (n % 16)) = some n := by
  unfold hex4
  rw [hexVal_digitChar _ (by omega), hexVal_digitChar _ (by omega), hexVal_digitChar _ (by omega),
    hexVal_digitChar _ (by omega)]
  exact congrArg some (by omega)

section Escapes
attribute [local simp] scanString

theorem scanString_escape4 {n : ℕ} (h : n < 0x10000) (hs : ¬ (0xd800 ≤ n ∧ n < 0xe000))
    (r : List Char) : scanString (escape4 n ++ r) = push (Char.ofNat n) (scanString r) := by
  simp only [escape4, List.cons_append, List.nil_append]
  rw [scanString]
  simp only [hex4_escape h, hs, if_false]

theorem scanString_pair {n : ℕ} (h : n < 0x100000) (r : List Char) :
    scanString (escape4 (0xd800 + n / 1024) ++ (escape4 (0xdc00 + n % 1024) ++ r)) =
      push (Char.ofNat (0x10000 + n)) (scanString r) := by
  have hhi : 0xd800 + n / 1024 < 0x10000 := by omega
  have hlo : 0xdc00 + n % 1024 < 0x10000 := by omega
  have hs : 0xd800 ≤ 0xd800 + n / 1024 ∧ 0xd800 + n / 1024 < 0xe000 := by omega
  have hj : joinPair (0xd800 + n / 1024) (0xdc00 + n % 1024) = some (Char.ofNat (0x10000 + n)) := by
    unfold joinPair
    rw [if_pos (by omega)]
    exact congrArg (some ∘ Char.ofNat) (by omega)
  simp only [escape4, List.cons_append, List.nil_append]
  rw [scanString]
  simp only [hex4_escape hhi, hex4_escape hlo, if_pos hs, Option.bind_some, hj]

theorem scanString_plain {c : Char} (hq : c ≠ '"') (hb : c ≠ '\\') (hc : ¬ c.toNat < 0x20)
    (r : List Char) : scanString (c :: r) = push c (scanString r) := by
  rw [scanString.eq_def]
  split
  case h_5 c' r' _ _ _ heq =>
    obtain ⟨rfl, rfl⟩ := List.cons.inj heq
    exact if_neg (not_or.mpr ⟨hb, hc⟩)
  all_goals simp_all

end Escapes

/-- The surrogates are not characters. -/
theorem toNat_not_surrogate (c : Char) : ¬ (0xd800 ≤ c.toNat ∧ c.toNat < 0xe000) := by
  have h := c.valid
  simp only [UInt32.isValidChar, Nat.isValidChar] at h
  have hc : c.toNat = c.val.toNat := rfl
  omega

theorem toNat_lt (c : Char) : c.toNat < 0x110000 := by
  have h := c.valid
  simp only [UInt32.isValidChar, Nat.isValidChar] at h
  have hc : c.toNat = c.val.toNat := rfl
  omega

/-- The letters of the two-character escapes that are written. -/
def escapeLetters : List Char := ['"', '\\', 'n', 'r', 't', 'f', 'b']

/-- **The text of a character**: a two-character escape, an escape of one code unit or of two, or the character. -/
theorem quoteChar_cases (ascii : Bool) (c : Char) :
    (∃ e ∈ escapeLetters, unescape e = some c ∧ quoteChar ascii c = ['\\', e]) ∨
    (c.toNat < 0x10000 ∧ quoteChar ascii c = escape4 c.toNat) ∨
    (0x10000 ≤ c.toNat ∧ quoteChar ascii c = escape4 (0xd800 + (c.toNat - 0x10000) / 1024) ++
      escape4 (0xdc00 + (c.toNat - 0x10000) % 1024)) ∨
    (c ≠ '"' ∧ c ≠ '\\' ∧ ¬ c.toNat < 0x20 ∧ quoteChar ascii c = [c]) := by
  rw [quoteChar]
  by_cases h1 : c = '"'
  · rw [if_pos h1, h1]
    exact Or.inl ⟨'"', by decide, by decide, rfl⟩
  rw [if_neg h1]
  by_cases h2 : c = '\\'
  · rw [if_pos h2, h2]
    exact Or.inl ⟨'\\', by decide, by decide, rfl⟩
  rw [if_neg h2]
  by_cases h3 : c = '\n'
  · rw [if_pos h3, h3]
    exact Or.inl ⟨'n', by decide, by decide, rfl⟩
  rw [if_neg h3]
  by_cases h4 : c = '\r'
  · rw [if_pos h4, h4]
    exact Or.inl ⟨'r', by decide, by decide, rfl⟩
  rw [if_neg h4]
  by_cases h5 : c = '\t'
  · rw [if_pos h5, h5]
    exact Or.inl ⟨'t', by decide, by decide, rfl⟩
  rw [if_neg h5]
  by_cases h6 : c = '\x0c'
  · rw [if_pos h6, h6]
    exact Or.inl ⟨'f', by decide, by decide, rfl⟩
  rw [if_neg h6]
  by_cases h7 : c = '\x08'
  · rw [if_pos h7, h7]
    exact Or.inl ⟨'b', by decide, by decide, rfl⟩
  rw [if_neg h7]
  by_cases h8 : c.toNat < 0x20
  · rw [if_pos h8]
    exact Or.inr (Or.inl ⟨by omega, rfl⟩)
  rw [if_neg h8]
  by_cases h9 : ascii = true ∧ 0x7f ≤ c.toNat
  · rw [if_pos h9]
    by_cases h10 : c.toNat < 0x10000
    · rw [if_pos h10]
      exact Or.inr (Or.inl ⟨h10, rfl⟩)
    · rw [if_neg h10]
      exact Or.inr (Or.inr (Or.inl ⟨Nat.le_of_not_lt h10, rfl⟩))
  · rw [if_neg h9]
    exact Or.inr (Or.inr (Or.inr ⟨h1, h2, h8, rfl⟩))

theorem scanString_letter {e c : Char} (he : e ∈ escapeLetters) (hc : unescape e = some c) (r : List Char) :
    scanString ('\\' :: e :: r) = push c (scanString r) := by
  simp only [escapeLetters, List.mem_cons, List.not_mem_nil, or_false] at he
  rcases he with rfl | rfl | rfl | rfl | rfl | rfl | rfl <;> rw [← Option.some.inj hc] <;> rfl

theorem scanString_quoteChar (ascii : Bool) (c : Char) (r : List Char) :
    scanString (quoteChar ascii c ++ r) = push c (scanString r) := by
  have hlt := toNat_lt c
  have hns := toNat_not_surrogate c
  rcases quoteChar_cases ascii c with ⟨e, he, hc, heq⟩ | ⟨h, heq⟩ | ⟨h, heq⟩ | ⟨hq, hb, h, heq⟩
  · rw [heq]
    exact scanString_letter he hc r
  · rw [heq, scanString_escape4 h hns, Char.ofNat_toNat]
  · have hc : 0x10000 + (c.toNat - 0x10000) = c.toNat := by omega
    rw [heq, List.append_assoc, scanString_pair (by omega), hc, Char.ofNat_toNat]
  · rw [heq]
    exact scanString_plain hq hb h r

/-- **Reading undoes writing**: the literal of a string reads as the string. -/
theorem scanString_quote (ascii : Bool) (cs r : List Char) :
    scanString (quote ascii cs ++ '"' :: r) = some (cs, r) := by
  induction cs with
  | nil => rfl
  | cons c cs ih =>
    have h : quote ascii (c :: cs) = quoteChar ascii c ++ quote ascii cs := rfl
    rw [h, List.append_assoc, scanString_quoteChar, ih]
    rfl

/-! ### What a literal contains -/

theorem mem_escape4 {n : ℕ} {x : Char} (hn : n < 0x10000) (hx : x ∈ escape4 n) :
    0x20 ≤ x.toNat ∧ x.toNat < 0x7f := by
  have hd : ∀ n < 16, 0x20 ≤ (Nat.digitChar n).toNat ∧ (Nat.digitChar n).toNat < 0x7f := by decide
  simp only [escape4, List.mem_cons, List.not_mem_nil, or_false] at hx
  rcases hx with rfl | rfl | rfl | rfl | rfl | rfl
  · decide
  · decide
  · exact hd _ (by omega)
  · exact hd _ (by omega)
  · exact hd _ (by omega)
  · exact hd _ (by omega)

/-- The characters of an unescaped or escaped character: itself, or printable ASCII. -/
theorem mem_quoteChar {ascii : Bool} {c x : Char} (hx : x ∈ quoteChar ascii c) :
    (x = c ∧ 0x20 ≤ c.toNat) ∨ (0x20 ≤ x.toNat ∧ x.toNat < 0x7f) := by
  have hlt := toNat_lt c
  have hletters : ∀ e ∈ escapeLetters, 0x20 ≤ e.toNat ∧ e.toNat < 0x7f := forall_chars (by decide)
  rcases quoteChar_cases ascii c with ⟨e, he, -, heq⟩ | ⟨h, heq⟩ | ⟨h, heq⟩ | ⟨-, -, h, heq⟩ <;> rw [heq] at hx
  · rcases List.mem_cons.mp hx with rfl | hx
    · exact Or.inr (by decide)
    · rw [List.mem_singleton.mp hx]
      exact Or.inr (hletters e he)
  · exact Or.inr (mem_escape4 h hx)
  · rcases List.mem_append.mp hx with hx | hx
    · exact Or.inr (mem_escape4 (by omega) hx)
    · exact Or.inr (mem_escape4 (by omega) hx)
  · exact Or.inl ⟨List.mem_singleton.mp hx, by omega⟩

/-- Every character of a literal is one of the string or printable ASCII, and none is a control
character. -/
theorem mem_quote {ascii : Bool} {cs : List Char} {x : Char} (hx : x ∈ quote ascii cs) :
    (x ∈ cs ∧ 0x20 ≤ x.toNat) ∨ (0x20 ≤ x.toNat ∧ x.toNat < 0x7f) := by
  obtain ⟨c, hc, hx⟩ := List.mem_flatMap.mp hx
  rcases mem_quoteChar hx with ⟨rfl, h⟩ | h
  · exact Or.inl ⟨hc, h⟩
  · exact Or.inr h

/-- A literal is at least as long as the string. -/
theorem length_le_quote (ascii : Bool) (cs : List Char) : cs.length ≤ (quote ascii cs).length := by
  have h : ∀ c, 1 ≤ (quoteChar ascii c).length := by
    intro c
    rcases quoteChar_cases ascii c with ⟨e, -, -, heq⟩ | ⟨-, heq⟩ | ⟨-, heq⟩ | ⟨-, -, -, heq⟩ <;> rw [heq] <;>
      exact Nat.succ_le_succ (Nat.zero_le _)
  induction cs with
  | nil => simp
  | cons c cs ih =>
    have hc := h c
    simp only [quote, List.flatMap_cons, List.length_append, List.length_cons] at ih ⊢
    omega

end ControlPlane.Lib.Quote
