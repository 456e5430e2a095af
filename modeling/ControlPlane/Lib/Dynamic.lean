import ControlPlane.Lib.Dumps
import ControlPlane.Lib.Floats
import ControlPlane.Lib.Text

/-! # Dynamically typed operations

Truth, equality and conversion to text of dynamic values, as a dynamically typed program applies them
to whatever a JSON text held: `pyEq` compares numbers of all kinds by value and objects by their
entries in any order; `pyStr` is the text of a value, with strings inside arrays and objects quoted.

`pyEq_sortKeys`: equality does not see the order of keys. `pyStr` does. -/

namespace ControlPlane.Lib.Dynamic

open ControlPlane.Lib.Value ControlPlane.Lib.Print ControlPlane.Lib.Floats ControlPlane.Lib.Dumps

/-! ### Errors -/

/-- A raised exception, with its message. -/
inductive Exn where
  | valueError (msg : String)
  | jsonDecodeError (msg : String)
  | typeError (msg : String)
  | overflowError (msg : String)
  | runtimeError (msg : String)
  | fileExistsError (msg : String)
  | osError (msg : String)
  | indexError (msg : String)
  deriving DecidableEq

/-- The result of code that may raise. -/
abbrev Py (α : Type) := Except Exn α

/-- `raise ValueError(msg)` unless the condition holds. -/
def require (c : Bool) (msg : String) : Py Unit := if c then .ok () else .error (.valueError msg)

@[simp] theorem require_eq_ok {c : Bool} {msg : String} {u : Unit} :
    require c msg = .ok u ↔ c = true := by
  cases c <;> simp [require]

theorem bind_eq_ok {ε α β : Type} {x : Except ε α} {f : α → Except ε β} {b : β} :
    (x >>= f) = .ok b ↔ ∃ a, x = .ok a ∧ f a = .ok b := by
  cases x with
  | error e => simp [bind, Except.bind]
  | ok a => simp [bind, Except.bind]

/-- A computation returns if its first part does and the rest does from there. -/
theorem isOk_iff {ε α : Type} {x : Except ε α} : x.isOk = true ↔ ∃ a, x = .ok a := by
  cases x <;> simp [Except.isOk, Except.toBool]

theorem bind_isOk {ε α β : Type} {x : Except ε α} {f : α → Except ε β} (hx : ∃ a, x = .ok a)
    (hf : ∀ a, x = .ok a → ∃ b, f a = .ok b) : ∃ b, (x >>= f) = .ok b := by
  obtain ⟨a, ha⟩ := hx
  obtain ⟨b, hb⟩ := hf a ha
  exact ⟨b, bind_eq_ok.mpr ⟨a, ha, hb⟩⟩

/-- A loop returns if every step does. -/
theorem mapM_isOk {ε α β : Type} {f : α → Except ε β} : ∀ {xs : List α},
    (∀ x ∈ xs, ∃ y, f x = .ok y) → ∃ ys, xs.mapM f = .ok ys
  | [], _ => ⟨[], rfl⟩
  | x :: xs, h => by
    rw [List.forall_mem_cons] at h
    rw [List.mapM_cons]
    exact bind_isOk h.1 fun y _ => bind_isOk (mapM_isOk h.2) fun ys _ => ⟨_, rfl⟩

/-- What a loop returns comes from its steps. -/
theorem mem_mapM {ε α β : Type} {f : α → Except ε β} : ∀ {xs : List α} {ys : List β},
    xs.mapM f = .ok ys → ∀ y ∈ ys, ∃ x ∈ xs, f x = .ok y
  | [], ys, h, y, hy => by
    cases h
    cases hy
  | x :: xs, ys, h, y, hy => by
    rw [List.mapM_cons, bind_eq_ok] at h
    obtain ⟨y', hx, h⟩ := h
    obtain ⟨ys', hxs, h⟩ := bind_eq_ok.mp h
    cases h
    rcases List.mem_cons.mp hy with rfl | hy
    · exact ⟨x, List.mem_cons_self .., hx⟩
    · obtain ⟨z, hz, hfz⟩ := mem_mapM hxs y hy
      exact ⟨z, List.mem_cons_of_mem _ hz, hfz⟩

/-- Every step of a loop is in what it returns. -/
theorem mapM_mem {ε α β : Type} {f : α → Except ε β} : ∀ {xs : List α} {ys : List β},
    xs.mapM f = .ok ys → ∀ x ∈ xs, ∃ y ∈ ys, f x = .ok y
  | [], ys, h, x, hx => by cases hx
  | x :: xs, ys, h, z, hz => by
    rw [List.mapM_cons, bind_eq_ok] at h
    obtain ⟨y, hy, h⟩ := h
    obtain ⟨ys', hxs, h⟩ := bind_eq_ok.mp h
    cases h
    rcases List.mem_cons.mp hz with rfl | hz
    · exact ⟨y, List.mem_cons_self .., hy⟩
    · obtain ⟨w, hw, hfw⟩ := mapM_mem hxs z hz
      exact ⟨w, List.mem_cons_of_mem _ hw, hfw⟩

/-- The result of `try: ... except ValueError`; a JSON decode error is a value error. -/
def catchValueError {α : Type} (x : Py α) : Py (Option α) :=
  match x with
  | .ok a => .ok (some a)
  | .error (.valueError _) => .ok none
  | .error (.jsonDecodeError _) => .ok none
  | .error e => .error e

theorem catchValueError_some {α : Type} {x : Py α} {a : α} :
    catchValueError x = .ok (some a) ↔ x = .ok a := by
  unfold catchValueError
  split <;> simp

/-- The message of a conversion of an integer beyond `maxDigits`. -/
def digitsMsg : String :=
  "Exceeds the limit (4300 digits) for integer string conversion; use " ++
    "sys.set_int_max_str_digits() to increase the limit"

variable {F : Type} (T : FloatSys F)

/-- Checks that every integer in a value can be converted to text. -/
def checkDigits (v : Json F) : Py Unit := require (printable T.toFloatText true v) digitsMsg

/-- `json.dumps`, with the message of its refusal. -/
def jsonDumps (L : Layout) (v : Json F) : Py String :=
  match dumps T.toFloatText L true v with
  | some s => .ok s
  | none => .error (.valueError digitsMsg)

/-- `json.dumps(value, sort_keys=True, separators=(",", ":"), ensure_ascii=False)`. -/
def canonical (v : Json F) : Py String := jsonDumps T (compact false) (sortKeys v)

/-- The canonical text of a value that has one. -/
def canonicalText (v : Json F) : String :=
  String.ofList (print T.toFloatText (compact false) 0 (sortKeys v))

/-! ### Truth and equality -/

/-- `bool(v)`. -/
def truthy : Json F → Bool
  | .null => false
  | .bool b => b
  | .int n => n != 0
  | .float x => !(T.view x).eq (.fin 0)
  | .str s => s != ""
  | .arr xs => !xs.isEmpty
  | .obj d => !d.isEmpty

/-- The number a value is, if it is one; a Boolean is the number 0 or 1. -/
def numOf : Json F → Option Num
  | .bool b => some (.fin (if b then 1 else 0))
  | .int n => some (.fin n)
  | .float x => some (T.view x)
  | _ => none

mutual
/-- `v == w`. -/
def pyEq : Json F → Json F → Bool
  | .null, w => match w with
    | .null => true
    | _ => false
  | .str a, w => match w with
    | .str b => a == b
    | _ => false
  | .arr xs, w => match w with
    | .arr ys => pyEqList xs ys
    | _ => false
  | .obj d, w => match w with
    | .obj e => d.length == e.length && pyEqDict d e
    | _ => false
  | .bool a, w => match numOf T w with
    | some y => (Num.fin (if a then 1 else 0)).eq y
    | none => false
  | .int n, w => match numOf T w with
    | some y => (Num.fin n).eq y
    | none => false
  | .float x, w => match numOf T w with
    | some y => (T.view x).eq y
    | none => false
/-- `==` of two lists. -/
def pyEqList : List (Json F) → List (Json F) → Bool
  | [], ys => ys.isEmpty
  | x :: xs, ys => match ys with
    | [] => false
    | y :: ys => pyEq x y && pyEqList xs ys
/-- Every entry of the first object has an equal one in the second. -/
def pyEqDict : Dict F → Dict F → Bool
  | [], _ => true
  | (k, x) :: d, e => (match lookup k e with
    | some y => pyEq x y
    | none => false) && pyEqDict d e
end

section Strings
attribute [local simp] pyEq numOf

@[simp] theorem pyEq_str (a : String) (w : Json F) : pyEq T (.str a) w = true ↔ w = .str a := by
  cases w with
  | str b => rw [pyEq, beq_iff_eq, Json.str.injEq, eq_comm]
  | _ => simp

@[simp] theorem pyEq_str_right (w : Json F) (a : String) : pyEq T w (.str a) = true ↔ w = .str a := by
  cases w <;> simp

@[simp] theorem pyEq_null (w : Json F) : pyEq T .null w = true ↔ w = .null := by
  cases w <;> simp

end Strings

theorem pyEq_obj {d e : Dict F} : pyEq T (.obj d) (.obj e) = true ↔
    d.length = e.length ∧ ∀ p ∈ d, ∃ y, lookup p.1 e = some y ∧ pyEq T p.2 y = true := by
  have h : pyEqDict T d e = true ↔
      ∀ p ∈ d, ∃ y, lookup p.1 e = some y ∧ pyEq T p.2 y = true := by
    induction d with
    | nil => simp [pyEqDict]
    | cons p d ih =>
      obtain ⟨k, x⟩ := p
      rw [pyEqDict, Bool.and_eq_true, ih, List.forall_mem_cons]
      refine and_congr_left fun _ => ?_
      cases lookup k e <;> simp
  rw [pyEq, Bool.and_eq_true, beq_iff_eq, h]

theorem pyEq_arr {xs ys : List (Json F)} : pyEq T (.arr xs) (.arr ys) = true ↔
    List.Forall₂ (fun x y => pyEq T x y = true) xs ys := by
  rw [pyEq]
  induction xs generalizing ys with
  | nil => cases ys <;> simp [pyEqList]
  | cons x xs ih => cases ys <;> simp [pyEqList, ih]

theorem numOf_sortKeys (v : Json F) : numOf T (sortKeys v) = numOf T v := by
  cases v <;> simp [numOf]

/-- **Equality does not see the order of keys.** -/
theorem pyEq_sortKeys {v w : Json F} (hw : wellFormed w = true) :
    pyEq T (sortKeys v) (sortKeys w) = pyEq T v w := by
  induction v using Json.induct generalizing w with
  | null => cases w <;> simp [pyEq]
  | bool b => simp [pyEq, numOf_sortKeys]
  | int n => simp [pyEq, numOf_sortKeys]
  | float x => simp [pyEq, numOf_sortKeys]
  | str s => cases w <;> simp [pyEq]
  | arr xs ih =>
    cases w with
    | arr ys =>
      rw [wellFormed_arr] at hw
      rw [sortKeys_arr, sortKeys_arr, Bool.eq_iff_iff, pyEq_arr, pyEq_arr,
        List.forall₂_map_left_iff, List.forall₂_map_right_iff]
      induction xs generalizing ys with
      | nil => cases ys <;> simp
      | cons x xs ihx =>
        cases ys with
        | nil => simp
        | cons y ys =>
          simp only [List.mem_cons, forall_eq_or_imp] at ih hw
          rw [List.forall₂_cons, List.forall₂_cons, ih.1 hw.1, ihx ih.2 ys hw.2]
    | _ => simp [pyEq]
  | obj d ih =>
    cases w with
    | obj e =>
      rw [wellFormed_obj] at hw
      rw [sortKeys_obj', sortKeys_obj', Bool.eq_iff_iff, pyEq_obj, pyEq_obj]
      have hl : ∀ d : Dict F, (sortDict d).length = d.length := by
        intro d
        rw [sortDict, (perm_sortPairs _).length_eq, List.length_map]
      have hm : ∀ p, p ∈ sortDict d ↔ p ∈ d.map fun p => (p.1, sortKeys p.2) :=
        fun p => (perm_sortPairs _).mem_iff
      rw [hl, hl]
      refine and_congr_right fun _ => ?_
      simp only [hm, List.forall_mem_map, lookup_sortDict hw.1]
      refine forall₂_congr fun p hp => ?_
      cases hk : lookup p.1 e with
      | none => simp
      | some y => simp [ih p hp (hw.2 _ (mem_of_lookup hk))]
    | _ => simp [pyEq]

/-- **A value with sorted keys equals the value**, if it holds no NaN. -/
theorem pyEq_sortKeys_self {v : Json F} (hv : wellFormed v = true)
    (hp : printable T.toFloatText false v = true) : pyEq T (sortKeys v) v = true := by
  induction v using Json.induct with
  | null => simp [pyEq]
  | bool b => simp [pyEq, numOf, Num.eq]
  | int n => simp [pyEq, numOf, Num.eq]
  | float x =>
    rw [printable, Bool.false_or] at hp
    obtain ⟨q, hq⟩ := (T.finite_iff x).mp hp
    simp [pyEq, numOf, hq, Num.eq]
  | str s => simp
  | arr xs ih =>
    rw [wellFormed_arr] at hv
    rw [printable_arr] at hp
    rw [sortKeys_arr, pyEq_arr, List.forall₂_map_left_iff, List.forall₂_same]
    exact fun x hx => ih x hx (hv x hx) (hp x hx)
  | obj d ih =>
    rw [wellFormed_obj] at hv
    rw [printable_obj] at hp
    have hperm := perm_sortPairs (d.map fun p => (p.1, sortKeys p.2))
    rw [sortKeys_obj', pyEq_obj, sortDict]
    refine ⟨by rw [hperm.length_eq, List.length_map], fun p hmem => ?_⟩
    obtain ⟨q, hq, rfl⟩ := List.mem_map.mp (hperm.mem_iff.mp hmem)
    exact ⟨q.2, lookup_of_mem hv.1 hq, ih q hq (hv.2 q hq) (hp q hq)⟩

theorem truthy_sortKeys (v : Json F) : truthy T (sortKeys v) = truthy T v := by
  cases v with
  | arr xs => cases xs <;> rfl
  | obj d =>
    have hl : (sortDict d).length = d.length := by
      rw [sortDict, (perm_sortPairs _).length_eq, List.length_map]
    rw [sortKeys_obj']
    cases d with
    | nil => rfl
    | cons p d =>
      have hne : sortDict (p :: d) ≠ [] := fun h => by simp [h] at hl
      simp [truthy, hne]
  | _ => rfl

/-! ### Conversion to text -/

/-- The digits of a number in base 16, with leading zeros up to a width. -/
def hex (width n : ℕ) : List Char :=
  let ds := Nat.toDigits 16 n
  List.replicate (width - ds.length) '0' ++ ds

/-- A character between quotes `q`. -/
def reprChar (printable : Char → Bool) (q c : Char) : List Char :=
  let n := c.toNat
  if c = q ∨ c = '\\' then ['\\', c]
  else if c = '\t' then ['\\', 't']
  else if c = '\n' then ['\\', 'n']
  else if c = '\r' then ['\\', 'r']
  else if n < 0x20 ∨ n = 0x7f then '\\' :: 'x' :: hex 2 n
  else if n < 0x7f ∨ printable c = true then [c]
  else if n ≤ 0xff then '\\' :: 'x' :: hex 2 n
  else if n ≤ 0xffff then '\\' :: 'u' :: hex 4 n
  else '\\' :: 'U' :: hex 8 n

/-- `repr` of a string: single quotes, unless only those occur in it. -/
def reprStr (printable : Char → Bool) (s : String) : List Char :=
  let cs := s.toList
  let q := if cs.contains '\'' && !cs.contains '"' then '"' else '\''
  q :: (cs.flatMap (reprChar printable q) ++ [q])

/-- `repr` of a float. -/
def reprFloat (x : F) : List Char :=
  match T.view x with
  | .nan => "nan".toList
  | .inf false => "inf".toList
  | .inf true => "-inf".toList
  | .fin _ => T.write x

mutual
/-- `repr(v)`. -/
def pyRepr (printable : Char → Bool) : Json F → List Char
  | .null => "None".toList
  | .bool true => "True".toList
  | .bool false => "False".toList
  | .int n => printInt n
  | .float x => reprFloat T x
  | .str s => reprStr printable s
  | .arr xs => '[' :: (reprList printable xs ++ [']'])
  | .obj d => '{' :: (reprDict printable d ++ ['}'])
/-- The elements of a list, between commas. -/
def reprList (printable : Char → Bool) : List (Json F) → List Char
  | [] => []
  | [x] => pyRepr printable x
  | x :: xs => pyRepr printable x ++ ',' :: ' ' :: reprList printable xs
/-- The entries of an object, between commas. -/
def reprDict (printable : Char → Bool) : Dict F → List Char
  | [] => []
  | [(k, x)] => reprStr printable k ++ ':' :: ' ' :: pyRepr printable x
  | (k, x) :: d =>
    reprStr printable k ++ ':' :: ' ' :: (pyRepr printable x ++ ',' :: ' ' :: reprDict printable d)
end

/-- `str(v)`, where every integer in the value can be converted. -/
def strText (printable : Char → Bool) : Json F → String
  | .str s => s
  | v => String.ofList (pyRepr T printable v)

/-- `str(v)`. -/
def pyStr (printable : Char → Bool) (v : Json F) : Py String := do
  checkDigits T v
  return strText T printable v

@[simp] theorem pyStr_str (printable : Char → Bool) (s : String) :
    pyStr T printable (.str s : Json F) = .ok s := rfl

theorem pyStr_eq_ok {printable : Char → Bool} {v : Json F} {s : String} :
    pyStr T printable v = .ok s ↔
      Dumps.printable T.toFloatText true v = true ∧ strText T printable v = s := by
  unfold pyStr checkDigits
  rw [bind_eq_ok]
  simp [pure, Except.pure]

theorem jsonDumps_eq_ok {L : Layout} {v : Json F} {s : String} : jsonDumps T L v = .ok s ↔
    printable T.toFloatText true v = true ∧ s = String.ofList (print T.toFloatText L 0 v) := by
  unfold jsonDumps
  cases hd : dumps T.toFloatText L true v with
  | none =>
    have h : printable T.toFloatText true v ≠ true := by
      intro h
      rw [dumps, if_pos h] at hd
      cases hd
    simp [h]
  | some u =>
    obtain ⟨hp, rfl⟩ := dumps_eq_some.mp hd
    simp [hp, eq_comm]

theorem canonical_eq_ok {v : Json F} {s : String} : canonical T v = .ok s ↔
    printable T.toFloatText true v = true ∧ s = canonicalText T v := by
  unfold canonical jsonDumps dumps canonicalText
  rw [printable_sortKeys]
  split_ifs with h <;> simp [h, eq_comm]

/-- Equal canonical texts are texts of values that differ in the order of keys only. -/
theorem canonical_eq_canonical {v w : Json F} (hv : wellFormed v = true) (hw : wellFormed w = true)
    {s : String} (h1 : canonical T v = .ok s) (h2 : canonical T w = .ok s) :
    sortKeys v = sortKeys w := by
  obtain ⟨p1, e1⟩ := (canonical_eq_ok T).mp h1
  obtain ⟨p2, e2⟩ := (canonical_eq_ok T).mp h2
  have hd : ∀ {u : Json F}, printable T.toFloatText true u = true →
      s = canonicalText T u →
      dumps T.toFloatText (compact false) true (sortKeys u) = some s := fun hp e =>
    dumps_eq_some.mpr ⟨by rwa [printable_sortKeys], e⟩
  exact canonical_inj hv hw (hd p1 e1) (hd p2 e2)

theorem canonical_sortKeys (v : Json F) : canonical T (sortKeys v) = canonical T v := by
  unfold canonical
  rw [sortKeys_sortKeys]

end ControlPlane.Lib.Dynamic
