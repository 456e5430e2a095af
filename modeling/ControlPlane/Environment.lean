import ControlPlane.Lib.Dynamic

/-! # The environment of the program

What the program takes from its platform: floats, Unicode tables, and hash functions of texts. Of the
digests only this is used: they are hexadecimal. Where a result needs that different texts have
different digests, it says so. -/

namespace ControlPlane.Environment

open ControlPlane.Lib.Value ControlPlane.Lib.Quote ControlPlane.Lib.Print ControlPlane.Lib.Floats
open ControlPlane.Lib.Text
open ControlPlane.Lib.RoundTrip ControlPlane.Lib.Dumps ControlPlane.Lib.Dynamic

/-- The bytes of a signing key. -/
abbrev Key := List UInt8

/-- A hexadecimal digit as digests write it. -/
def isHexDigit (c : Char) : Bool := "0123456789abcdef".toList.contains c

/-- The platform. -/
structure Env (F : Type) where
  T : FloatSys F
  /-- `str.isprintable` of one character. -/
  isPrintable : Char → Bool
  /-- `str.lower`. -/
  lower : String → String
  /-- `str.casefold`. -/
  casefold : String → String
  /-- `float(text)`, if the text is one of a number. -/
  floatOfStr : String → Option F
  /-- `int(text)`, if the text is one of an integer. -/
  intOfStr : String → Option ℤ
  /-- `hashlib.sha256(text.encode()).hexdigest()`. -/
  sha256 : String → String
  /-- `hashlib.sha256(text.encode()).hexdigest()[:32]`. -/
  sha256Head : String → String
  /-- `hmac.new(key, text.encode(), hashlib.sha256).hexdigest()`. -/
  hmac : Key → String → String
  /-- `hashlib.sha256(key).hexdigest()[:16]`. -/
  keyId : Key → String
  /-- Small ASCII letters are kept. -/
  lower_small : ∀ s : String, (s.toList.all fun c => decide (c.toNat < 128) && !c.isUpper) = true →
    lower s = s
  sha256_hex : ∀ s, ∀ c ∈ (sha256 s).toList, isHexDigit c = true
  sha256Head_hex : ∀ s, sha256Head s ≠ "" ∧ ∀ c ∈ (sha256Head s).toList, isHexDigit c = true
  hmac_hex : ∀ k s, ∀ c ∈ (hmac k s).toList, isHexDigit c = true

variable {F : Type} (E : Env F)

/-- `str(v)`. -/
def Env.str (v : Json F) : Py String := pyStr E.T E.isPrintable v

/-- `str(d.get(k, default))`. -/
def Env.strOr (d : Dict F) (k default : String) : Py String :=
  E.str ((lookup k d).getD (.str default))

/-- The name of a value's type in messages. -/
def typeName : Json F → String
  | .null => "NoneType"
  | .bool _ => "bool"
  | .int _ => "int"
  | .float _ => "float"
  | .str _ => "str"
  | .arr _ => "list"
  | .obj _ => "dict"

/-- `float(n)`. -/
def Env.floatOfInt (n : ℤ) : Py F :=
  let x := E.T.ofRat n
  if E.T.finite x then .ok x else .error (.overflowError "int too large to convert to float")

/-- `float(v)`. -/
def Env.toFloat : Json F → Py F
  | .float x => .ok x
  | .int n => E.floatOfInt n
  | .bool b => .ok (E.T.ofRat (if b then 1 else 0))
  | .str s => match E.floatOfStr s with
    | some x => .ok x
    | none => .error (.valueError ("could not convert string to float: " ++
        String.ofList (reprStr E.isPrintable s)))
  | v => .error (.typeError ("float() argument must be a string or a real number, not '" ++
      typeName v ++ "'"))

/-- `int(v)`; a float loses its fraction. -/
def Env.toInt : Json F → Py ℤ
  | .int n => .ok n
  | .bool b => .ok (if b then 1 else 0)
  | .float x => match E.T.view x with
    | .fin q => .ok (q.num.tdiv q.den)
    | .inf _ => .error (.overflowError "cannot convert float infinity to integer")
    | .nan => .error (.valueError "cannot convert float NaN to integer")
  | .str s => match E.intOfStr s with
    | some n => .ok n
    | none => .error (.valueError ("invalid literal for int() with base 10: " ++
        String.ofList (reprStr E.isPrintable s)))
  | v => .error (.typeError ("int() argument must be a string, a bytes-like object or a real " ++
      "number, not '" ++ typeName v ++ "'"))

/-- `list(v)`. -/
def toList : Json F → Py (List (Json F))
  | .arr xs => .ok xs
  | .obj d => .ok (d.map fun p => .str p.1)
  | .str s => .ok (s.toList.map fun c => .str (String.singleton c))
  | v => .error (.typeError ("'" ++ typeName v ++ "' object is not iterable"))

/-- `d.get(k)` if it is an object. -/
def objOf? (d : Dict F) (k : String) : Option (Dict F) :=
  match getKey d k with
  | .obj e => some e
  | _ => none

/-- `d.get(k) != text`. -/
def differs (d : Dict F) (k text : String) : Bool := !pyEq E.T (getKey d k) (.str text)

@[simp] theorem differs_eq_false {d : Dict F} {k text : String} :
    differs E d k text = false ↔ getKey d k = .str text := by
  simp [differs]

/-- `d.get(k) == text`. -/
def same (d : Dict F) (k text : String) : Bool := !differs E d k text

/-- `float(v)` of a number that is no Boolean. -/
def Env.number? (v : Json F) : Py (Option F) :=
  match v with
  | .int n => do return some (← E.floatOfInt n)
  | .float x => .ok (some x)
  | _ => .ok none

/-- `hmac.compare_digest(a, b)`. -/
def compareDigest (a b : String) : Py Bool :=
  if a.toList.all (fun c => c.toNat < 128) && b.toList.all (fun c => c.toNat < 128) then .ok (a == b)
  else .error (.typeError "comparing strings with non-ASCII characters is not supported")

/-! ### Files -/

/-- `json.dumps(value, indent=2, ensure_ascii=False, sort_keys=sort_keys) + "\n"`, the text of a JSON
file. -/
def Env.fileText (sorted : Bool) (v : Json F) : Py String := do
  let text ← jsonDumps E.T (indented false 2) (if sorted then sortKeys v else v)
  return String.ofList (text.toList ++ ['\n'])

/-- `json.loads(text)`. -/
def Env.jsonLoads (text : String) : Py (Json F) :=
  match parse E.T.toFloatText text.toList with
  | some v => if printable E.T.toFloatText true v then .ok v else .error (.valueError digitsMsg)
  | none => .error (.jsonDecodeError "the text is not a JSON document")

theorem jsonLoads_eq_ok {text : String} {v : Json F} :
    E.jsonLoads text = .ok v ↔ loads E.T.toFloatText text = some v := by
  unfold Env.jsonLoads loads
  cases parse E.T.toFloatText text.toList with
  | none => simp
  | some w =>
    by_cases hw : printable E.T.toFloatText true w = true <;> simp [Option.filter, hw]

theorem wellFormed_jsonLoads {text : String} {v : Json F} (h : E.jsonLoads text = .ok v) :
    wellFormed v = true := by
  have hl := (jsonLoads_eq_ok E).mp h
  unfold loads at hl
  exact wellFormed_parse (Option.filter_eq_some_iff.mp hl).1

theorem printable_jsonLoads {text : String} {v : Json F} (h : E.jsonLoads text = .ok v) :
    printable E.T.toFloatText true v = true := by
  unfold Env.jsonLoads at h
  split at h
  · split_ifs at h with hp
    cases h
    exact hp
  · cases h

/-- **A JSON file holds the value it was written from.** -/
theorem jsonLoads_fileText_of {sorted : Bool} {v w : Json F} (hw : (if sorted then sortKeys v else v) = w)
    (hwf : wellFormed w = true) {text : String} (h : E.fileText sorted v = .ok text) :
    E.jsonLoads text = .ok w := by
  unfold Env.fileText jsonDumps at h
  rw [hw, bind_eq_ok] at h
  obtain ⟨t, ht, h⟩ := h
  split at ht
  · next u hu =>
    cases ht
    cases h
    have hl := loads_dumps hwf hu (b := ['\n']) (List.all_eq_true.mp (by decide))
    exact (jsonLoads_eq_ok E).mpr hl
  · cases ht

/-- **A JSON file holds the value it was written from, with sorted keys.** -/
theorem jsonLoads_fileText {v : Json F} (hv : wellFormed v = true) {text : String}
    (h : E.fileText true v = .ok text) : E.jsonLoads text = .ok (sortKeys v) :=
  jsonLoads_fileText_of E (if_pos rfl) (by rwa [wellFormed_sortKeys]) h

/-- A printable value has a text with the keys in their order. -/
theorem fileText_false_eq_ok {v : Json F} (hv : printable E.T.toFloatText true v = true) :
    ∃ text, E.fileText false v = .ok text := by
  have hd : dumps E.T.toFloatText (indented false 2) true v =
      some (String.ofList (print E.T.toFloatText (indented false 2) 0 v)) := by
    rw [dumps, if_pos hv]
  unfold Env.fileText jsonDumps
  rw [if_neg Bool.false_ne_true, hd]
  exact ⟨_, rfl⟩

theorem fileText_eq_ok {v : Json F} (hv : printable E.T.toFloatText true v = true) :
    ∃ text, E.fileText true v = .ok text := by
  have hd : dumps E.T.toFloatText (indented false 2) true (sortKeys v) =
      some (String.ofList (print E.T.toFloatText (indented false 2) 0 (sortKeys v))) := by
    rw [dumps, if_pos (by rwa [printable_sortKeys])]
  unfold Env.fileText jsonDumps
  rw [if_pos rfl, hd]
  exact ⟨_, rfl⟩

variable {E} in
/-- Every entry of a printable object has a text. -/
theorem strOr_ok {d : Dict F} (hd : printable E.T.toFloatText true (.obj d) = true) (k default : String) :
    ∃ text, E.strOr d k default = .ok text := by
  have hk := printable_getKey hd k
  unfold Env.strOr Env.str
  cases hl : lookup k d with
  | none => exact ⟨default, rfl⟩
  | some v =>
    rw [getKey, hl] at hk
    exact ⟨_, (pyStr_eq_ok E.T).mpr ⟨hk, rfl⟩⟩

variable {E} in
/-- An entry that is a text is its own text. -/
theorem strOr_of_getKey {d : Dict F} {k text : String} (h : getKey d k = .str text) (default : String) :
    E.strOr d k default = .ok text := by
  rw [Env.strOr, lookup_of_getKey h (by simp), Option.getD_some, Env.str, pyStr_str]

/-! ### Hexadecimal texts -/

theorem isSpace_of_hex {c : Char} (h : isHexDigit c = true) : isSpace c = false := by
  have hall : ∀ c ∈ "0123456789abcdef".toList, isSpace c = false := forall_chars (by decide)
  exact hall c (by simpa [isHexDigit] using h)

theorem ascii_of_hex {c : Char} (h : isHexDigit c = true) : c.toNat < 128 := by
  have hall : ∀ c ∈ "0123456789abcdef".toList, c.toNat < 128 := forall_chars (by decide)
  exact hall c (by simpa [isHexDigit] using h)

theorem strip_hex {s : String} (h : ∀ c ∈ s.toList, isHexDigit c = true) : strip s = s := by
  refine strip_eq_self (fun c hc => isSpace_of_hex (h c ?_)) (fun c hc => isSpace_of_hex (h c ?_))
  · exact List.mem_of_head? hc
  · exact List.mem_of_getLast? hc

theorem compareDigest_self {s : String} (h : ∀ c ∈ s.toList, isHexDigit c = true) :
    compareDigest s s = .ok true := by
  have ha : s.toList.all (fun c => decide (c.toNat < 128)) = true :=
    List.all_eq_true.mpr fun c hc => decide_eq_true (ascii_of_hex (h c hc))
  simp [compareDigest, ha]

theorem compareDigest_eq_ok {a b : String} (h : compareDigest a b = .ok true) : a = b := by
  unfold compareDigest at h
  split_ifs at h
  simpa using h

end ControlPlane.Environment
