import Mathlib.Data.List.Basic
import Mathlib.Order.Basic

/-! # UTF-8 with errors

Bytes are read as UTF-8, with something put in place of what is no sequence: the longest start of one, or else a
single byte. An ASCII byte belongs to no longer sequence, so a text splits at it (`decode_ascii`,
`decode_middle`). -/

namespace ControlPlane.Lib.Utf8

/-- The ranges of the bytes that must follow a first one. -/
def following (b : UInt8) : Option (List (UInt8 × UInt8)) :=
  if b < 0x80 then some []
  else if b < 0xc2 then none
  else if b < 0xe0 then some [(0x80, 0xbf)]
  else if b = 0xe0 then some [(0xa0, 0xbf), (0x80, 0xbf)]
  else if b = 0xed then some [(0x80, 0x9f), (0x80, 0xbf)]
  else if b < 0xf0 then some [(0x80, 0xbf), (0x80, 0xbf)]
  else if b = 0xf0 then some [(0x90, 0xbf), (0x80, 0xbf), (0x80, 0xbf)]
  else if b < 0xf4 then some [(0x80, 0xbf), (0x80, 0xbf), (0x80, 0xbf)]
  else if b = 0xf4 then some [(0x80, 0x8f), (0x80, 0xbf), (0x80, 0xbf)]
  else none

/-- How many bytes lie in the ranges, in order. -/
def matched : List (UInt8 × UInt8) → List UInt8 → ℕ
  | (low, high) :: ranges, b :: bytes => if low ≤ b ∧ b ≤ high then matched ranges bytes + 1 else 0
  | _, _ => 0

/-- The character of a sequence. -/
def charOf (b : UInt8) (bytes : List UInt8) : Char :=
  Char.ofNat (bytes.foldl (fun n c => n * 64 + c.toNat % 64)
    (b.toNat % ([128, 32, 16, 8].getD bytes.length 8)))

/-- Bytes read as UTF-8, with `bad` in place of what is no sequence. -/
def decode (bad : List Char) : List UInt8 → List Char
  | [] => []
  | b :: bytes => match following b with
    | none => bad ++ decode bad bytes
    | some ranges =>
      (if matched ranges bytes = ranges.length then [charOf b (bytes.take (matched ranges bytes))] else bad) ++
        decode bad (bytes.drop (matched ranges bytes))
termination_by bytes => bytes.length
decreasing_by
  · simp
  · rw [List.length_drop, List.length_cons]
    omega

theorem following_high {b : UInt8} {ranges : List (UInt8 × UInt8)} (h : following b = some ranges) :
    ∀ r ∈ ranges, 0x80 ≤ r.1 := by
  have hall : ∀ n < 256, ((following (UInt8.ofNat n)).getD []).all (fun r => decide (0x80 ≤ r.1)) = true := by
    decide +kernel
  have hb := hall b.toNat b.toNat_lt
  rw [UInt8.ofNat_toNat, h, Option.getD_some] at hb
  exact fun r hr => of_decide_eq_true (List.all_eq_true.mp hb r hr)

theorem matched_le : ∀ (ranges : List (UInt8 × UInt8)) (bytes : List UInt8), matched ranges bytes ≤ bytes.length
  | [], bytes => by
    rw [matched]
    · exact Nat.zero_le _
    · simp
  | _ :: _, [] => Nat.le_refl _
  | (low, high) :: ranges, b :: bytes => by
    rw [matched, List.length_cons]
    split_ifs
    · exact Nat.succ_le_succ (matched_le ranges bytes)
    · exact Nat.zero_le _

/-- An ASCII byte ends a sequence. -/
theorem matched_append {a : UInt8} (ha : a < 0x80) (rest : List UInt8) :
    ∀ {ranges : List (UInt8 × UInt8)} (bytes : List UInt8), (∀ r ∈ ranges, 0x80 ≤ r.1) →
      matched ranges (bytes ++ a :: rest) = matched ranges bytes
  | [], bytes, _ => by simp [matched]
  | (low, high) :: ranges, [], h => by
    have hlow : (0x80 : UInt8) ≤ low := h _ (List.mem_cons_self ..)
    have hnot : ¬ (low ≤ a ∧ a ≤ high) := by
      rintro ⟨hle, -⟩
      rw [UInt8.le_iff_toNat_le] at hlow hle
      rw [UInt8.lt_iff_toNat_lt] at ha
      omega
    rw [List.nil_append, matched, if_neg hnot, matched]
    simp
  | (low, high) :: ranges, b :: bytes, h => by
    rw [List.cons_append, matched, matched,
      matched_append ha rest bytes fun r hr => h r (List.mem_cons_of_mem _ hr)]

theorem decode_cons_ascii (bad : List Char) {a : UInt8} (ha : a < 0x80) (rest : List UInt8) :
    decode bad (a :: rest) = Char.ofNat a.toNat :: decode bad rest := by
  have hfollowing : following a = some [] := by
    unfold following
    rw [if_pos ha]
  have hmod : a.toNat % 128 = a.toNat := Nat.mod_eq_of_lt (UInt8.lt_iff_toNat_lt.mp ha)
  rw [decode, hfollowing]
  simp [matched, charOf, hmod]

/-- **A text splits at an ASCII byte.** -/
theorem decode_ascii (bad : List Char) {a : UInt8} (ha : a < 0x80) (rest : List UInt8) (bytes : List UInt8) :
    decode bad (bytes ++ a :: rest) = decode bad bytes ++ decode bad (a :: rest) := by
  induction hn : bytes.length using Nat.strongRecOn generalizing bytes with
  | _ n ih =>
    subst hn
    cases bytes with
    | nil => simp [decode]
    | cons b bytes =>
      rw [List.cons_append, decode, decode]
      cases hfollowing : following b with
      | none =>
        dsimp only
        rw [ih bytes.length (by simp) bytes rfl, List.append_assoc]
      | some ranges =>
        dsimp only
        have hle := matched_le ranges bytes
        rw [matched_append ha rest bytes (following_high hfollowing), List.take_append_of_le_length hle,
          List.drop_append_of_le_length hle, ih _ _ (bytes.drop (matched ranges bytes)) rfl, List.append_assoc]
        rw [List.length_drop, List.length_cons]
        omega

/-- The bytes of an ASCII text. -/
def asciiBytes (text : List Char) : List UInt8 := text.map fun c => UInt8.ofNat c.toNat

theorem ascii_byte {c : Char} (h : c.toNat < 0x80) :
    UInt8.ofNat c.toNat < 0x80 ∧ Char.ofNat (UInt8.ofNat c.toNat).toNat = c := by
  have hnat : (UInt8.ofNat c.toNat).toNat = c.toNat := by
    rw [UInt8.toNat_ofNat']
    exact Nat.mod_eq_of_lt (by omega)
  refine ⟨UInt8.lt_iff_toNat_lt.mpr ?_, ?_⟩
  · rw [hnat]
    exact h
  · rw [hnat, Char.ofNat_toNat]

theorem decode_asciiBytes (bad : List Char) (after : List UInt8) : ∀ {text : List Char},
    (∀ c ∈ text, c.toNat < 0x80) → decode bad (asciiBytes text ++ after) = text ++ decode bad after
  | [], _ => rfl
  | c :: text, h => by
    obtain ⟨hsmall, hchar⟩ := ascii_byte (h c (List.mem_cons_self ..))
    rw [asciiBytes, List.map_cons, List.cons_append, decode_cons_ascii bad hsmall, hchar, ← asciiBytes,
      decode_asciiBytes bad after fun d hd => h d (List.mem_cons_of_mem _ hd), List.cons_append]

/-- **An ASCII text within other bytes is read as it is.** -/
theorem decode_middle (bad : List Char) {text : List Char} (h : ∀ c ∈ text, c.toNat < 0x80) (hne : text ≠ [])
    (before after : List UInt8) : decode bad (before ++ (asciiBytes text ++ after)) =
      decode bad before ++ (text ++ decode bad after) := by
  rw [← decode_asciiBytes bad after h]
  cases text with
  | nil => exact absurd rfl hne
  | cons c text => exact decode_ascii bad (ascii_byte (h c (List.mem_cons_self ..))).1 _ before

end ControlPlane.Lib.Utf8
