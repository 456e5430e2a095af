import ControlPlane.Environment
import ControlPlane.Lib.SignedGrid
import ControlPlane.Lib.Rounding

/-! # A platform

An environment in which digests are hexadecimal and different texts have different digests
(`digest_injective`), over the floats of `Grid`. The character tables are those of ASCII. A second one
has digests of fixed length and the floats of `SignedGrid`, with infinities and a NaN. -/

namespace ControlPlane.Instance

open ControlPlane.Lib.Grid ControlPlane.Lib.SignedGrid ControlPlane.Lib.Print ControlPlane.Environment
open ControlPlane.Lib.Floats ControlPlane.Lib.Rounding

/-- A text as digits: as many times `a` as the number of each character, then `b`. -/
def digits (cs : List Char) : List Char :=
  cs.flatMap fun c => List.replicate c.toNat 'a' ++ ['b']

theorem digits_hex (cs : List Char) : ∀ c ∈ digits cs, isHexDigit c = true := by
  intro c hc
  obtain ⟨d, -, hd⟩ := List.mem_flatMap.mp hc
  rcases List.mem_append.mp hd with h | h
  · rw [(List.mem_replicate.mp h).2]
    decide
  · rw [List.mem_singleton.mp h]
    decide

theorem replicate_append_inj : ∀ {m n : ℕ} {r s : List Char},
    List.replicate m 'a' ++ 'b' :: r = List.replicate n 'a' ++ 'b' :: s → m = n ∧ r = s
  | 0, 0, _, _, h => ⟨rfl, by simpa using h⟩
  | 0, n + 1, _, _, h => by simp [List.replicate_succ] at h
  | m + 1, 0, _, _, h => by simp [List.replicate_succ] at h
  | m + 1, n + 1, r, s, h => by
    rw [List.replicate_succ, List.replicate_succ, List.cons_append, List.cons_append,
      List.cons_inj_right] at h
    obtain ⟨h1, h2⟩ := replicate_append_inj h
    exact ⟨by omega, h2⟩

theorem digits_injective : ∀ {cs ds : List Char}, digits cs = digits ds → cs = ds
  | [], [], _ => rfl
  | [], d :: ds, h => by simp [digits] at h
  | c :: cs, [], h => by simp [digits] at h
  | c :: cs, d :: ds, h => by
    have h' : List.replicate c.toNat 'a' ++ 'b' :: digits cs =
        List.replicate d.toNat 'a' ++ 'b' :: digits ds := by
      simpa [digits] using h
    obtain ⟨h1, h2⟩ := replicate_append_inj h'
    rw [Char.toNat_inj.mp h1, digits_injective h2]

/-- The digest of a text. -/
def digest (s : String) : String := String.ofList ('0' :: digits s.toList)

theorem digest_injective : Function.Injective digest := by
  intro s t h
  have h' := String.ofList_inj.mp h
  rw [List.cons_inj_right] at h'
  exact String.toList_inj.mp (digits_injective h')

theorem digest_hex (s : String) : ∀ c ∈ (digest s).toList, isHexDigit c = true := by
  intro c hc
  rw [digest, String.toList_ofList, List.mem_cons] at hc
  rcases hc with rfl | hc
  · decide
  · exact digits_hex _ c hc

theorem digest_ne (s : String) : digest s ≠ "" := by
  intro h
  have := congrArg String.toList h
  rw [digest, String.toList_ofList] at this
  cases this

theorem toLower_of_not_upper {c : Char} (h : c.isUpper = false) : c.toLower = c := by
  delta Char.isUpper at h
  delta Char.toLower
  exact dif_neg (by simpa using h)

/-- **The platform.** -/
def platform : Env Cell where
  T := Cell.system
  isPrintable c := decide (0x20 ≤ c.toNat ∧ c.toNat < 0x7f)
  lower s := String.ofList (s.toList.map Char.toLower)
  casefold s := String.ofList (s.toList.map Char.toLower)
  floatOfStr s := Cell.all.find? fun x => x.text == s
  intOfStr s := readInt s.toList
  sha256 := digest
  sha256Head := digest
  hmac _ s := digest s
  keyId _ := "00"
  lower_small s h := by
    rw [List.all_eq_true] at h
    have hm : s.toList.map Char.toLower = s.toList.map id :=
      List.map_congr_left fun c hc => by
        have hu := (Bool.and_eq_true_iff.mp (h c hc)).2
        exact toLower_of_not_upper (by simpa using hu)
    rw [hm, List.map_id, String.ofList_toList]
  sha256_hex := digest_hex
  sha256Head_hex s := ⟨digest_ne s, digest_hex s⟩
  hmac_hex _ := digest_hex

/-- The floats of the platform are stable. -/
theorem stable_platform : Stable platform.T where
  one := by decide +kernel
  lit_lit q r h := by
    have hcells : ∀ c : Cell, platform.T.lit c.value = .fin c.value := by
      intro c
      cases c <;> decide +kernel
    have hr : (Cell.floorFrom Cell.zero q Cell.all.tail).value = r := Num.fin.inj h
    rw [← hr]
    exact hcells _

/-! ### Digests of fixed length -/

def hexChar (n : ℕ) : Char := "0123456789abcdef".toList.getD (n % 16) '0'

theorem hexChar_hex (n : ℕ) : isHexDigit (hexChar n) = true := by
  have h : ∀ m < 16, isHexDigit ("0123456789abcdef".toList.getD m '0') = true := by decide
  exact h (n % 16) (by omega)

/-- A text as a number below `2 ^ 256`. -/
def checksum (s : String) : ℕ := s.toList.foldl (fun h c => (h * 257 + c.toNat) % (2 ^ 256 - 189)) 1

/-- The digest of a text with a given number of digits. -/
def fixedDigest (length : ℕ) (s : String) : String :=
  String.ofList ((List.range length).map fun i => hexChar (checksum s / 16 ^ i))

theorem fixedDigest_hex (length : ℕ) (s : String) :
    ∀ c ∈ (fixedDigest length s).toList, isHexDigit c = true := by
  intro c hc
  rw [fixedDigest, String.toList_ofList] at hc
  obtain ⟨i, -, rfl⟩ := List.mem_map.mp hc
  exact hexChar_hex _

/-- **The platform with infinities.** -/
def widePlatform : Env Wide where
  T := Wide.system
  isPrintable := platform.isPrintable
  lower := platform.lower
  casefold := platform.casefold
  floatOfStr s := Wide.all.find? fun x => x.text == s.toList
  intOfStr := platform.intOfStr
  sha256 := fixedDigest 64
  sha256Head := fixedDigest 32
  hmac key s := fixedDigest 64 (String.ofList (key.map fun b => Char.ofNat b.toNat) ++ s)
  keyId _ := "00"
  lower_small := platform.lower_small
  sha256_hex := fixedDigest_hex 64
  sha256Head_hex s := by
    refine ⟨fun h => ?_, fixedDigest_hex 32 s⟩
    have := congrArg (fun t : String => t.toList.length) h
    simp [fixedDigest] at this
  hmac_hex _ _ := fixedDigest_hex 64 _

/-- **The platform with exact numbers.** -/
def exactPlatform : Env ℚ where
  T := rationals
  isPrintable := platform.isPrintable
  lower := platform.lower
  casefold := platform.casefold
  floatOfStr s := readRat s.toList
  intOfStr := platform.intOfStr
  sha256 := platform.sha256
  sha256Head := platform.sha256Head
  hmac := platform.hmac
  keyId := platform.keyId
  lower_small := platform.lower_small
  sha256_hex := platform.sha256_hex
  sha256Head_hex := platform.sha256Head_hex
  hmac_hex := platform.hmac_hex

end ControlPlane.Instance
