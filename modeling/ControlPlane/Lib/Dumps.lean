import ControlPlane.Lib.RoundTrip

/-! # Serialising and reading back

`dumps` gives the text of a value, unless an integer of the value has more than `maxDigits` digits or
(without `allowNan`) a float of it is not finite; `loads` reads a text under the same limit.
`loads_dumps`: what was written, followed by white space, reads as the value. `canonical_inj`: the
text with sorted keys determines the value up to the order of its keys.

`mem_print`: on one line, the text of a value holds no control character, and outside ASCII only
characters of its strings. -/

namespace ControlPlane.Lib.Dumps

open ControlPlane.Lib.Value ControlPlane.Lib.Quote ControlPlane.Lib.Print
open ControlPlane.Lib.RoundTrip

variable {F : Type} {T : FloatText F} {L : Layout}

/-! ### What has a text -/

/-- The longest integer, in digits, that is converted from or to text. -/
def maxDigits : ℕ := 4300

mutual
/-- Every integer is within the limit, and without `allowNan` every float is finite. -/
def printable (T : FloatText F) (allowNan : Bool) : Json F → Bool
  | .int z => decide (z.natAbs < 10 ^ maxDigits)
  | .float x => allowNan || T.finite x
  | .arr xs => printableList T allowNan xs
  | .obj d => printableDict T allowNan d
  | _ => true
/-- `printable` on the elements of an array. -/
def printableList (T : FloatText F) (allowNan : Bool) : List (Json F) → Bool
  | [] => true
  | x :: xs => printable T allowNan x && printableList T allowNan xs
/-- `printable` on the values of an object. -/
def printableDict (T : FloatText F) (allowNan : Bool) : Dict F → Bool
  | [] => true
  | (_, x) :: d => printable T allowNan x && printableDict T allowNan d
end

@[simp] theorem printable_arr (a : Bool) (xs : List (Json F)) :
    printable T a (.arr xs) = true ↔ ∀ x ∈ xs, printable T a x = true := by
  rw [printable]
  induction xs with
  | nil => simp [printableList]
  | cons x xs ih => simp [printableList, ih]

@[simp] theorem printable_obj (a : Bool) (d : Dict F) :
    printable T a (.obj d) = true ↔ ∀ p ∈ d, printable T a p.2 = true := by
  rw [printable]
  induction d with
  | nil => simp [printableDict]
  | cons p d ih => obtain ⟨k, x⟩ := p; simp [printableDict, ih]

/-- A short integer can be written. -/
theorem printable_small (a : Bool) {z : ℤ} (h : z.natAbs < 10 ^ 9) : printable T a (.int z) = true := by
  have hd : 9 ≤ maxDigits := by decide
  have hp : 10 ^ 9 ≤ 10 ^ maxDigits := Nat.pow_le_pow_right (by decide) hd
  rw [printable]
  exact decide_eq_true (lt_of_lt_of_le h hp)

theorem printable_sortKeys (a : Bool) (v : Json F) :
    printable T a (sortKeys v) = printable T a v := by
  rw [Bool.eq_iff_iff]
  induction v using Json.induct with
  | arr xs ih =>
    rw [sortKeys_arr, printable_arr, printable_arr, List.forall_mem_map]
    exact forall₂_congr ih
  | obj d ih =>
    rw [sortKeys_obj, printable_obj, printable_obj]
    have h : ∀ p, p ∈ sortPairs (d.map fun p => (p.1, sortKeys p.2)) ↔
        p ∈ d.map fun p => (p.1, sortKeys p.2) := fun p => (perm_sortPairs _).mem_iff
    simp only [h, List.forall_mem_map]
    exact forall₂_congr ih
  | _ => simp

theorem printable_mono {v : Json F} (h : printable T false v = true) : printable T true v = true := by
  induction v using Json.induct with
  | arr xs ih =>
    rw [printable_arr] at h ⊢
    exact fun x hx => ih x hx (h x hx)
  | obj d ih =>
    rw [printable_obj] at h ⊢
    exact fun p hp => ih p hp (h p hp)
  | float x => rfl
  | int z => exact h
  | _ => rfl

theorem printable_getKey {a : Bool} {d : Dict F} (h : printable T a (.obj d) = true) (k : String) :
    printable T a (getKey d k) = true := by
  unfold getKey
  cases hk : lookup k d with
  | none => rfl
  | some v => exact (printable_obj a d).mp h _ (mem_of_lookup hk)

theorem printable_setKey {a : Bool} {d : Dict F} (h : printable T a (.obj d) = true) (k : String)
    {v : Json F} (hv : printable T a v = true) : printable T a (.obj (setKey k v d)) = true := by
  rw [printable_obj] at h ⊢
  intro p hp
  rcases mem_setKey hp with rfl | hp
  · exact hv
  · exact h p hp

theorem printable_eraseKey {a : Bool} {d : Dict F} (h : printable T a (.obj d) = true) (k : String) :
    printable T a (.obj (eraseKey k d)) = true := by
  rw [printable_obj] at h ⊢
  exact fun p hp => h p (List.mem_of_mem_filter hp)

/-! ### Writing and reading -/

/-- The text of a value, if it has one. -/
def dumps (T : FloatText F) (L : Layout) (allowNan : Bool) (v : Json F) : Option String :=
  if printable T allowNan v then some (String.ofList (print T L 0 v)) else none

/-- The value of a text, if it is the text of one. -/
def loads (T : FloatText F) (s : String) : Option (Json F) :=
  (parse T s.toList).filter (printable T true)

theorem dumps_eq_some {a : Bool} {v : Json F} {s : String} :
    dumps T L a v = some s ↔ printable T a v = true ∧ s = String.ofList (print T L 0 v) := by
  unfold dumps
  split_ifs with h <;> simp [h, eq_comm]

/-- **What was written reads as the value.** -/
theorem loads_dumps {a : Bool} {v : Json F} {s : String} (hv : wellFormed v = true)
    (h : dumps T L a v = some s) {b : List Char} (hb : ∀ c ∈ b, isBlank c = true) :
    loads T (String.ofList (s.toList ++ b)) = some v := by
  obtain ⟨hp, rfl⟩ := dumps_eq_some.mp h
  have hp' : printable T true v = true := by
    cases a with
    | true => exact hp
    | false => exact printable_mono hp
  rw [loads, String.toList_ofList, String.toList_ofList, parse_print hv hb]
  simp [Option.filter, hp']

/-- The text with sorted keys determines the value up to the order of its keys. -/
theorem canonical_inj {a : Bool} {v w : Json F} {s : String} (hv : wellFormed v = true)
    (hw : wellFormed w = true) (h1 : dumps T L a (sortKeys v) = some s)
    (h2 : dumps T L a (sortKeys w) = some s) : sortKeys v = sortKeys w := by
  obtain ⟨-, e1⟩ := dumps_eq_some.mp h1
  obtain ⟨-, e2⟩ := dumps_eq_some.mp h2
  refine print_injective (T := T) (L := L) (by rwa [wellFormed_sortKeys])
    (by rwa [wellFormed_sortKeys]) ?_
  exact String.ofList_inj.mp (e1.symm.trans e2)

/-! ### The characters of a text -/

mutual
/-- The characters of the strings in a value, those of the keys included. -/
def chars : Json F → List Char
  | .str s => s.toList
  | .arr xs => charsList xs
  | .obj d => charsDict d
  | _ => []
/-- `chars` of the elements of an array. -/
def charsList : List (Json F) → List Char
  | [] => []
  | x :: xs => chars x ++ charsList xs
/-- `chars` of the entries of an object. -/
def charsDict : Dict F → List Char
  | [] => []
  | (k, x) :: d => k.toList ++ (chars x ++ charsDict d)
end

/-- Printable ASCII. -/
def Plain (c : Char) : Prop := 0x20 ≤ c.toNat ∧ c.toNat < 0x7f

instance : DecidablePred Plain := fun _ => inferInstanceAs (Decidable (_ ∧ _))

theorem plain_of_token {c : Char} (h : isTokenChar c = true) : Plain c := by
  delta isTokenChar Char.isAlphanum Char.isAlpha Char.isUpper Char.isLower Char.isDigit at h
  simp only [Bool.or_eq_true, Bool.and_eq_true, decide_eq_true_eq, beq_iff_eq, ge_iff_le,
    UInt32.le_iff_toNat_le] at h
  have hc : c.toNat = c.val.toNat := rfl
  unfold Plain
  rcases h with ((h | rfl) | rfl) | rfl
  · have hA : 'A'.val.toNat = 65 := rfl
    have hZ : 'Z'.val.toNat = 90 := rfl
    have ha : 'a'.val.toNat = 97 := rfl
    have hz : 'z'.val.toNat = 122 := rfl
    have h0 : '0'.val.toNat = 48 := rfl
    have h9 : '9'.val.toNat = 57 := rfl
    omega
  all_goals decide

/-- The layout keeps a value on one line. -/
structure OneLine (L : Layout) : Prop where
  opened : ∀ n, ∀ c ∈ L.opened n, c = ' '
  comma : ∀ n, ∀ c ∈ L.comma n, c = ' '
  closed : ∀ n, ∀ c ∈ L.closed n, c = ' '
  colon : ∀ c ∈ L.colon, c = ' '

theorem oneLine_spaced (a : Bool) : OneLine (spaced a) := by
  constructor <;> simp [spaced]

theorem mem_printStr {a : Bool} {s : String} {c : Char} (h : c ∈ printStr a s) :
    Plain c ∨ (c ∈ s.toList ∧ 0x20 ≤ c.toNat) := by
  simp only [printStr, List.mem_cons, List.mem_append, List.not_mem_nil, or_false] at h
  rcases h with rfl | h | rfl
  · exact Or.inl (by decide)
  · rcases mem_quote h with h | h
    · exact Or.inr h
    · exact Or.inl h
  · exact Or.inl (by decide)

/-- The bound for one of the characters between the parts of a text. -/
theorem plain_blank {b : List Char} (hb : ∀ c ∈ b, c = ' ') {c : Char} (h : c ∈ b) : Plain c := by
  rw [hb c h]
  decide

mutual
/-- **The characters of a text on one line**: printable ASCII, or characters of the strings. -/
theorem mem_print (hL : OneLine L) {c : Char} : ∀ (v : Json F) (n : ℕ), c ∈ print T L n v →
    Plain c ∨ (c ∈ chars v ∧ 0x20 ≤ c.toNat)
  | .null, _, h => by
    rw [print] at h
    exact Or.inl ((forall_chars (by decide) : ∀ c ∈ "null".toList, Plain c) c h)
  | .bool true, _, h => by
    rw [print] at h
    exact Or.inl ((forall_chars (by decide) : ∀ c ∈ "true".toList, Plain c) c h)
  | .bool false, _, h => by
    rw [print] at h
    exact Or.inl ((forall_chars (by decide) : ∀ c ∈ "false".toList, Plain c) c h)
  | .int z, _, h => by
    rw [print] at h
    exact Or.inl (plain_of_token (printInt_token z c h))
  | .float x, _, h => by
    rw [print] at h
    exact Or.inl (plain_of_token (T.write_token x c h))
  | .str s, _, h => by
    rw [print] at h
    exact mem_printStr h
  | .arr [], _, h => by
    rw [print] at h
    exact Or.inl ((forall_chars (by decide) : ∀ c ∈ ['[', ']'], Plain c) c h)
  | .arr (x :: xs), n, h => by
    simp only [print, List.mem_cons, List.mem_append] at h
    simp only [chars, charsList, List.mem_append]
    rcases h with rfl | h | h | h
    · exact Or.inl (by decide)
    · exact Or.inl (plain_blank (hL.opened n) h)
    · have := mem_print hL x (n + 1) h
      tauto
    · have := mem_printElems hL xs n h
      tauto
  | .obj [], _, h => by
    rw [print] at h
    exact Or.inl ((forall_chars (by decide) : ∀ c ∈ ['{', '}'], Plain c) c h)
  | .obj ((k, x) :: d), n, h => by
    simp only [print, List.mem_cons, List.mem_append] at h
    simp only [chars, charsDict, List.mem_append]
    rcases h with rfl | h | h | rfl | h | h | h
    · exact Or.inl (by decide)
    · exact Or.inl (plain_blank (hL.opened n) h)
    · have := mem_printStr h
      tauto
    · exact Or.inl (by decide)
    · exact Or.inl (plain_blank hL.colon h)
    · have := mem_print hL x (n + 1) h
      tauto
    · have := mem_printEntries hL d n h
      tauto
theorem mem_printElems (hL : OneLine L) {c : Char} : ∀ (xs : List (Json F)) (n : ℕ),
    c ∈ printElems T L n xs → Plain c ∨ (c ∈ charsList xs ∧ 0x20 ≤ c.toNat)
  | [], n, h => by
    simp only [printElems, List.mem_append, List.mem_singleton] at h
    rcases h with h | rfl
    · exact Or.inl (plain_blank (hL.closed n) h)
    · exact Or.inl (by decide)
  | x :: xs, n, h => by
    simp only [printElems, List.mem_cons, List.mem_append] at h
    simp only [charsList, List.mem_append]
    rcases h with rfl | h | h | h
    · exact Or.inl (by decide)
    · exact Or.inl (plain_blank (hL.comma n) h)
    · have := mem_print hL x (n + 1) h
      tauto
    · have := mem_printElems hL xs n h
      tauto
theorem mem_printEntries (hL : OneLine L) {c : Char} : ∀ (d : Dict F) (n : ℕ),
    c ∈ printEntries T L n d → Plain c ∨ (c ∈ charsDict d ∧ 0x20 ≤ c.toNat)
  | [], n, h => by
    simp only [printEntries, List.mem_append, List.mem_singleton] at h
    rcases h with h | rfl
    · exact Or.inl (plain_blank (hL.closed n) h)
    · exact Or.inl (by decide)
  | (k, x) :: d, n, h => by
    simp only [printEntries, List.mem_cons, List.mem_append] at h
    simp only [charsDict, List.mem_append]
    rcases h with rfl | h | h | rfl | h | h | h
    · exact Or.inl (by decide)
    · exact Or.inl (plain_blank (hL.comma n) h)
    · have := mem_printStr h
      tauto
    · exact Or.inl (by decide)
    · exact Or.inl (plain_blank hL.colon h)
    · have := mem_print hL x (n + 1) h
      tauto
    · have := mem_printEntries hL d n h
      tauto
end

end ControlPlane.Lib.Dumps
