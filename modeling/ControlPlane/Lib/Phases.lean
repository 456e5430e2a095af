import ControlPlane.Lib.Dumps
import ControlPlane.Lib.Text

/-! # The lines of a JSON text

A character of a JSON text lies outside the string literals, or right behind one, or in one, or
behind a backslash in one (`Phase`). In a text written on one line the line boundaries lie in the
literals only, no backslash lies outside, and no character of a number or word stands right behind a
literal (`tidy_print`).

So a text that holds a line boundary is cut in the middle of a literal. The piece up to the first
boundary is no JSON text, since a JSON text ends outside its literals (`parse_outside`); a later piece
may be one, but it has the inside and the outside the wrong way round, and the keys of an object that
it denotes start with no letter and no digit (`parse_inside`). -/

namespace ControlPlane.Lib.Phases

open ControlPlane.Lib.Value ControlPlane.Lib.Quote ControlPlane.Lib.Print ControlPlane.Lib.RoundTrip
open ControlPlane.Lib.Dumps ControlPlane.Lib.Text

variable {F : Type} {T : FloatText F} {L : Layout}

/-! ### Phases -/

inductive Phase where
  | outside
  | closed
  | inside
  | escaped
  deriving DecidableEq

/-- The phase behind a character. -/
def next : Phase → Char → Phase
  | .inside, c => if c = '"' then .closed else if c = '\\' then .escaped else .inside
  | .escaped, _ => .inside
  | _, c => if c = '"' then .inside else .outside

/-- The characters that a text on one line has in a phase. -/
def allowed : Phase → Char → Prop
  | .inside, _ => True
  | .escaped, c => isBreak c = false
  | .outside, c => c ≠ '\\' ∧ isBreak c = false
  | .closed, c => c ≠ '\\' ∧ isBreak c = false ∧ c ≠ '"' ∧ isTokenChar c = false

/-- Every character of the text is allowed where it stands. -/
def Tidy : Phase → List Char → Prop
  | _, [] => True
  | p, c :: cs => allowed p c ∧ Tidy (next p c) cs

/-- The phase behind a text. -/
def walk (p : Phase) (cs : List Char) : Phase := cs.foldl next p

/-- The text ends in a literal. -/
def Open (p : Phase) (cs : List Char) : Prop := walk p cs = .inside ∨ walk p cs = .escaped

theorem tidy_append : ∀ {p : Phase} {a b : List Char},
    Tidy p (a ++ b) ↔ Tidy p a ∧ Tidy (walk p a) b
  | _, [], _ => by simp [Tidy, walk]
  | p, c :: a, b => by
    simp only [List.cons_append, Tidy, tidy_append (a := a), walk, List.foldl_cons, and_assoc]

theorem tidy_outside {cs : List Char} (h : Tidy .closed cs) : Tidy .outside cs := by
  cases cs with
  | nil => trivial
  | cons c cs => exact ⟨⟨h.1.1, h.1.2.1⟩, h.2⟩

/-- A character that changes no phase outside the literals. -/
def Bare (c : Char) : Prop := c ≠ '"' ∧ c ≠ '\\' ∧ isBreak c = false

instance : DecidablePred Bare := fun _ => inferInstanceAs (Decidable (_ ∧ _))

theorem bare_of_token {c : Char} (h : isTokenChar c = true) : Bare c := by
  refine ⟨?_, ?_, ?_⟩
  · rintro rfl
    exact absurd h (by decide)
  · rintro rfl
    exact absurd h (by decide)
  · have hp : 0x20 ≤ c.toNat ∧ c.toNat < 0x7f := plain_of_token h
    simp only [isBreak, Bool.or_eq_false_iff, Bool.and_eq_false_iff, decide_eq_false_iff_not,
      beq_eq_false_iff_ne, ne_eq]
    omega

theorem tidy_bare {c : Char} (h : Bare c) {r : List Char} (hr : Tidy .outside r) :
    Tidy .outside (c :: r) := by
  refine ⟨⟨h.2.1, h.2.2⟩, ?_⟩
  rw [next, if_neg h.1]
  · exact hr
  · simp
  · simp

theorem tidy_bares {t : List Char} (ht : ∀ c ∈ t, Bare c) {r : List Char} (hr : Tidy .outside r) :
    Tidy .outside (t ++ r) := by
  induction t with
  | nil => exact hr
  | cons c t ih =>
    exact tidy_bare (ht c (by simp)) (ih fun x hx => ht x (List.mem_cons_of_mem c hx))

/-- What may stand behind a literal. -/
theorem tidy_behind {c : Char} (h : Bare c) (hc : isTokenChar c = false) {r : List Char}
    (hr : Tidy .outside r) : Tidy .closed (c :: r) := by
  refine ⟨⟨h.2.1, h.2.2, h.1, hc⟩, ?_⟩
  rw [next, if_neg h.1]
  · exact hr
  · simp
  · simp

theorem tidy_spaces {b : List Char} (hb : ∀ c ∈ b, c = ' ') {r : List Char} (hr : Tidy .outside r) :
    Tidy .outside (b ++ r) :=
  tidy_bares (fun c hc => hb c hc ▸ by decide) hr

theorem tidy_closed_spaces {b : List Char} (hb : ∀ c ∈ b, c = ' ') {r : List Char}
    (hr : Tidy .closed r) : Tidy .closed (b ++ r) := by
  cases b with
  | nil => exact hr
  | cons c b =>
    rw [hb c (by simp)]
    exact tidy_behind (by decide) (by decide)
      (tidy_spaces (fun x hx => hb x (List.mem_cons_of_mem c hx)) (tidy_outside hr))

/-! ### A written text is tidy -/

/-- A character that keeps the phase in a literal. -/
theorem tidy_kept {c : Char} (hq : c ≠ '"') (hb : c ≠ '\\') {r : List Char}
    (hr : Tidy .inside r) : Tidy .inside (c :: r) := by
  refine ⟨trivial, ?_⟩
  rw [next, if_neg hq, if_neg hb]
  exact hr

theorem tidy_escape4 {n : ℕ} (hn : n < 0x10000) {r : List Char} (hr : Tidy .inside r) :
    Tidy .inside (escape4 n ++ r) := by
  have hd : ∀ m < 16, ∀ {r}, Tidy .inside r → Tidy .inside (Nat.digitChar m :: r) := by
    have h : ∀ m < 16, Nat.digitChar m ≠ '"' ∧ Nat.digitChar m ≠ '\\' := by decide
    exact fun m hm r hr => tidy_kept (h m hm).1 (h m hm).2 hr
  have h4 := hd (n % 16) (by omega) hr
  have h3 := hd (n / 16 % 16) (by omega) h4
  have h2 := hd (n / 256 % 16) (by omega) h3
  exact ⟨trivial, (by decide : isBreak 'u' = false), hd (n / 4096) (by omega) h2⟩

theorem tidy_quoteChar (ascii : Bool) (c : Char) {r : List Char} (hr : Tidy .inside r) :
    Tidy .inside (quoteChar ascii c ++ r) := by
  have hlt := toNat_lt c
  have hletters : ∀ e ∈ escapeLetters, isBreak e = false := forall_chars (by decide)
  rcases quoteChar_cases ascii c with ⟨e, he, -, heq⟩ | ⟨h, heq⟩ | ⟨h, heq⟩ | ⟨hq, hb, -, heq⟩ <;> rw [heq]
  · exact ⟨trivial, hletters e he, hr⟩
  · exact tidy_escape4 h hr
  · rw [List.append_assoc]
    exact tidy_escape4 (by omega) (tidy_escape4 (by omega) hr)
  · exact tidy_kept hq hb hr

theorem tidy_quote (ascii : Bool) (cs : List Char) {r : List Char} (hr : Tidy .inside r) :
    Tidy .inside (quote ascii cs ++ r) := by
  induction cs with
  | nil => exact hr
  | cons c cs ih =>
    have h : quote ascii (c :: cs) = quoteChar ascii c ++ quote ascii cs := rfl
    rw [h, List.append_assoc]
    exact tidy_quoteChar ascii c ih

theorem tidy_printStr (ascii : Bool) (s : String) {r : List Char} (hr : Tidy .closed r) :
    Tidy .outside (printStr ascii s ++ r) := by
  rw [printStr, List.cons_append, List.append_assoc]
  exact ⟨⟨by decide, by decide⟩, tidy_quote ascii _ ⟨trivial, hr⟩⟩

theorem tidy_token {t : List Char} (ht : ∀ c ∈ t, isTokenChar c = true) {r : List Char}
    (hr : Tidy .closed r) : Tidy .outside (t ++ r) :=
  tidy_bares (fun c hc => bare_of_token (ht c hc)) (tidy_outside hr)

mutual
/-- **A text on one line is tidy**, in front of anything that may stand behind a literal. -/
theorem tidy_print (hL : OneLine L) : ∀ (v : Json F) (n : ℕ) {r : List Char}, Tidy .closed r →
    Tidy .outside (print T L n v ++ r)
  | .null, _, _, hr => by
    rw [print]
    exact tidy_token (forall_chars (by decide)) hr
  | .bool true, _, _, hr => by
    rw [print]
    exact tidy_token (forall_chars (by decide)) hr
  | .bool false, _, _, hr => by
    rw [print]
    exact tidy_token (forall_chars (by decide)) hr
  | .int z, _, _, hr => by
    rw [print]
    exact tidy_token (printInt_token z) hr
  | .float x, _, _, hr => by
    rw [print]
    exact tidy_token (T.write_token x) hr
  | .str s, _, _, hr => by
    rw [print]
    exact tidy_printStr L.ascii s hr
  | .arr [], _, _, hr => by
    rw [print]
    exact tidy_bares (forall_chars (by decide)) (tidy_outside hr)
  | .arr (x :: xs), n, r, hr => by
    rw [print, List.cons_append, List.append_assoc, List.append_assoc]
    have hxs := tidy_printElems hL xs n hr
    have hx := tidy_print hL x (n + 1) hxs
    exact tidy_bare (by decide) (tidy_spaces (hL.opened n) hx)
  | .obj [], _, _, hr => by
    rw [print]
    exact tidy_bares (forall_chars (by decide)) (tidy_outside hr)
  | .obj ((k, x) :: d), n, r, hr => by
    rw [print, List.cons_append, List.append_assoc, List.append_assoc, List.cons_append,
      List.append_assoc, List.append_assoc]
    have hd := tidy_printEntries hL d n hr
    have hx := tidy_print hL x (n + 1) hd
    have hc := tidy_behind (c := ':') (by decide) (by decide) (tidy_spaces hL.colon hx)
    exact tidy_bare (by decide) (tidy_spaces (hL.opened n) (tidy_printStr L.ascii k hc))
theorem tidy_printElems (hL : OneLine L) : ∀ (xs : List (Json F)) (n : ℕ) {r : List Char},
    Tidy .closed r → Tidy .closed (printElems T L n xs ++ r)
  | [], n, r, hr => by
    rw [printElems, List.append_assoc]
    exact tidy_closed_spaces (hL.closed n) (tidy_behind (by decide) (by decide) (tidy_outside hr))
  | x :: xs, n, r, hr => by
    rw [printElems, List.cons_append, List.append_assoc, List.append_assoc]
    have hxs := tidy_printElems hL xs n hr
    have hx := tidy_print hL x (n + 1) hxs
    exact tidy_behind (by decide) (by decide) (tidy_spaces (hL.comma n) hx)
theorem tidy_printEntries (hL : OneLine L) : ∀ (d : Dict F) (n : ℕ) {r : List Char},
    Tidy .closed r → Tidy .closed (printEntries T L n d ++ r)
  | [], n, r, hr => by
    rw [printEntries, List.append_assoc]
    exact tidy_closed_spaces (hL.closed n) (tidy_behind (by decide) (by decide) (tidy_outside hr))
  | (k, x) :: d, n, r, hr => by
    rw [printEntries, List.cons_append, List.append_assoc, List.append_assoc, List.cons_append,
      List.append_assoc, List.append_assoc]
    have hd := tidy_printEntries hL d n hr
    have hx := tidy_print hL x (n + 1) hd
    have hc := tidy_behind (c := ':') (by decide) (by decide) (tidy_spaces hL.colon hx)
    exact tidy_behind (by decide) (by decide)
      (tidy_spaces (hL.comma n) (tidy_printStr L.ascii k hc))
end

/-! ### Reading from inside a literal -/

theorem scanString_cons {c : Char} (hq : c ≠ '"') (hb : c ≠ '\\') (r : List Char) :
    scanString (c :: r) = if c.toNat < 0x20 then none else push c (scanString r) := by
  split_ifs with hc
  · rw [scanString.eq_def]
    split
    case h_5 c' r' _ _ _ heq =>
      obtain ⟨rfl, rfl⟩ := List.cons.inj heq
      exact if_pos (Or.inr hc)
    all_goals simp_all
  · exact scanString_plain hq hb hc r

/-- A literal read where the text is outside ends where the text enters one. -/
theorem scan_outside : ∀ {cs s r : List Char}, scanString cs = some (s, r) → Tidy .outside cs →
    Tidy .inside r ∧ ∀ c, s.head? = some c → cs.head? = some c
  | [], s, r, h, _ => by simp [scanString] at h
  | c :: cs, s, r, h, ht => by
    by_cases hq : c = '"'
    · subst hq
      rw [scanString] at h
      cases h
      exact ⟨ht.2, by simp⟩
    · rw [scanString_cons hq ht.1.1] at h
      split_ifs at h
      obtain ⟨⟨s', r'⟩, hp, he⟩ := Option.map_eq_some_iff.mp h
      cases he
      have hcs : Tidy .outside cs := by
        have h2 := ht.2
        rw [next, if_neg hq] at h2
        · exact h2
        · simp
        · simp
      exact ⟨(scan_outside hp hcs).1, by simp⟩

/-- A literal read right behind one starts with no letter and no digit. -/
theorem scan_closed {cs s r : List Char} (h : scanString cs = some (s, r)) (ht : Tidy .closed cs) :
    Tidy .inside r ∧ Ends s := by
  obtain ⟨h1, h2⟩ := scan_outside h (tidy_outside ht)
  refine ⟨h1, fun c hc => ?_⟩
  have hcs := h2 c hc
  cases cs with
  | nil => cases hcs
  | cons x cs =>
    cases hcs
    exact ht.1.2.2.2

/-- Something that is neither a quotation mark nor a backslash is passed over in a literal. -/
theorem tidy_tail {c : Char} (hq : c ≠ '"') (hb : c ≠ '\\') {r : List Char}
    (h : Tidy .inside (c :: r)) : Tidy .inside r := by
  have h2 := h.2
  rw [next, if_neg hq, if_neg hb] at h2
  exact h2

theorem tidy_dropWhile {f : Char → Bool} (hf : ∀ c, f c = true → c ≠ '"' ∧ c ≠ '\\') :
    ∀ {r : List Char}, Tidy .inside r → Tidy .inside (r.dropWhile f)
  | [], h => h
  | c :: r, h => by
    rw [List.dropWhile_cons]
    split_ifs with hc
    · exact tidy_dropWhile hf (tidy_tail (hf c hc).1 (hf c hc).2 h)
    · exact h

theorem tidy_skipBlank {r : List Char} (h : Tidy .inside r) : Tidy .inside (skipBlank r) := by
  refine tidy_dropWhile (fun c hc => ?_) h
  have ht := blank_not_token hc
  constructor <;> rintro rfl <;> exact absurd hc (by decide)

/-- The keys of an object start with no letter and no digit. -/
def Odd (ps : List (String × Json F)) : Prop := ∀ p ∈ ps, Ends p.1.toList

theorem odd_value {v : Json F} (h : ∀ d, v ≠ .obj d) : ∀ d, v = .obj d → Odd d :=
  fun d hd => absurd hd (h d)

theorem readToken_not_obj {cs : List Char} {v : Json F} (h : readToken T cs = some v) (d : Dict F) :
    v ≠ .obj d := by
  rintro rfl
  unfold readToken at h
  split_ifs at h with h1 h2 h3
  · cases h
  · cases h
  · cases h
  · split at h
    · cases h
    · obtain ⟨x, -, hx⟩ := Option.map_eq_some_iff.mp h
      cases hx

/-- **Reading from inside a literal** ends inside one, and the keys it meets start with no letter and
no digit. -/
theorem read_inside (n : ℕ) :
    (∀ cs v r, parseValue T n cs = some (v, r) → Tidy .inside cs →
      Tidy .inside r ∧ ∀ d, v = .obj d → Odd d) ∧
    (∀ cs vs r, parseElems T n cs = some (vs, r) → Tidy .inside cs → Tidy .inside r) ∧
    (∀ cs ps r, parseEntries T n cs = some (ps, r) → Tidy .inside cs → Tidy .inside r ∧ Odd ps) := by
  induction n with
  | zero => simp [parseValue, parseElems, parseEntries]
  | succ n ih =>
    obtain ⟨ihv, ihe, ihp⟩ := ih
    refine ⟨fun cs v r h ht => ?_, fun cs vs r h ht => ?_, fun cs ps r h ht => ?_⟩
    · rw [parseValue.eq_def] at h
      simp only at h
      split at h
      · obtain ⟨p, hp, he⟩ := Option.map_eq_some_iff.mp h
        cases he
        exact ⟨(scan_closed hp ht.2).1, odd_value (by simp)⟩
      · have hb := tidy_skipBlank (tidy_tail (by decide) (by decide) ht)
        split at h
        · next heq =>
          cases h
          rw [heq] at hb
          exact ⟨tidy_tail (by decide) (by decide) hb, odd_value (by simp)⟩
        · obtain ⟨p, hp, he⟩ := Option.map_eq_some_iff.mp h
          cases he
          exact ⟨ihe _ _ _ hp hb, odd_value (by simp)⟩
      · have hb := tidy_skipBlank (tidy_tail (by decide) (by decide) ht)
        split at h
        · next heq =>
          cases h
          rw [heq] at hb
          refine ⟨tidy_tail (by decide) (by decide) hb, fun d hd => ?_⟩
          cases hd
          simp [Odd]
        · obtain ⟨p, hp, he⟩ := Option.map_eq_some_iff.mp h
          cases he
          obtain ⟨h1, h2⟩ := ihp _ _ _ hp hb
          refine ⟨h1, fun d hd => ?_⟩
          cases hd
          exact fun q hq => h2 q (mem_ofPairs hq)
      · obtain ⟨w, hw, he⟩ := Option.map_eq_some_iff.mp h
        cases he
        exact ⟨tidy_dropWhile (fun c hc => ⟨(bare_of_token hc).1, (bare_of_token hc).2.1⟩) ht,
          odd_value (readToken_not_obj hw)⟩
    · rw [parseElems.eq_def] at h
      simp only at h
      split at h
      · cases h
      · next v r' hv =>
        have hb := tidy_skipBlank (ihv _ _ _ hv ht).1
        split at h
        · next heq =>
          obtain ⟨p, hp, he⟩ := Option.map_eq_some_iff.mp h
          cases he
          rw [heq] at hb
          exact ihe _ _ _ hp (tidy_skipBlank (tidy_tail (by decide) (by decide) hb))
        · next heq =>
          cases h
          rw [heq] at hb
          exact tidy_tail (by decide) (by decide) hb
        · cases h
    · rw [parseEntries.eq_def] at h
      simp only at h
      split at h
      · split at h
        · cases h
        · next k r' hk =>
          obtain ⟨h1, hodd⟩ := scan_closed hk ht.2
          have hb := tidy_skipBlank h1
          have hk' : Ends (String.ofList k).toList := by rwa [String.toList_ofList]
          split at h
          · next heq =>
            rw [heq] at hb
            have hb' := tidy_skipBlank (tidy_tail (by decide) (by decide) hb)
            split at h
            · cases h
            · next v r'' hv =>
              have hc := tidy_skipBlank (ihv _ _ _ hv hb').1
              split at h
              · next heq =>
                obtain ⟨p, hp, he⟩ := Option.map_eq_some_iff.mp h
                cases he
                rw [heq] at hc
                have hd := tidy_skipBlank (tidy_tail (by decide) (by decide) hc)
                obtain ⟨h2, h3⟩ := ihp _ _ _ hp hd
                exact ⟨h2, List.forall_mem_cons.mpr ⟨hk', h3⟩⟩
              · next heq =>
                cases h
                rw [heq] at hc
                refine ⟨tidy_tail (by decide) (by decide) hc, ?_⟩
                exact List.forall_mem_singleton.mpr hk'
              · cases h
          · cases h
      · cases h

/-- **No object with a usual key is read from inside a literal.** -/
theorem parse_inside {cs : List Char} {d : Dict F} (h : parse T cs = some (.obj d))
    (ht : Tidy .inside cs) : Odd d := by
  unfold parse at h
  split at h
  · next v r hv =>
    split_ifs at h
    cases h
    exact ((read_inside _).1 _ _ _ hv (tidy_skipBlank ht)).2 d rfl
  · cases h

/-! ### Reading from outside the literals -/

theorem open_cons {p : Phase} {c : Char} {cs : List Char} :
    Open p (c :: cs) ↔ Open (next p c) cs := Iff.rfl

theorem open_closed {cs : List Char} : Open .closed cs ↔ Open .outside cs := by
  cases cs with
  | nil => simp [Open, walk]
  | cons c cs => exact Iff.rfl

theorem open_outside {c : Char} (hq : c ≠ '"') {cs : List Char} :
    Open .outside (c :: cs) ↔ Open .outside cs := by
  rw [open_cons, next, if_neg hq]
  · simp
  · simp

theorem open_inside {c : Char} (hq : c ≠ '"') (hb : c ≠ '\\') {cs : List Char} :
    Open .inside (c :: cs) ↔ Open .inside cs := by
  rw [open_cons, next, if_neg hq, if_neg hb]

theorem open_dropWhile {f : Char → Bool} (hf : ∀ c, f c = true → c ≠ '"') :
    ∀ {r : List Char}, Open .outside (r.dropWhile f) ↔ Open .outside r
  | [] => Iff.rfl
  | c :: r => by
    rw [List.dropWhile_cons]
    split_ifs with hc
    · rw [open_dropWhile hf, open_outside (hf c hc)]
    · exact Iff.rfl

theorem open_skipBlank {r : List Char} : Open .outside (skipBlank r) ↔ Open .outside r :=
  open_dropWhile fun c hc => by
    rintro rfl
    exact absurd hc (by decide)

theorem hexVal_some {c : Char} {n : ℕ} (h : hexVal c = some n) : c ≠ '"' ∧ c ≠ '\\' := by
  have hq : hexVal '"' = none := by decide
  have hb : hexVal '\\' = none := by decide
  constructor
  · rintro rfl
    rw [hq] at h
    cases h
  · rintro rfl
    rw [hb] at h
    cases h

/-- A `\u` escape is passed over. -/
theorem open_hex4 {a b c d : Char} {n : ℕ} (h : hex4 a b c d = some n) {r : List Char} :
    Open .inside ('\\' :: 'u' :: a :: b :: c :: d :: r) ↔ Open .inside r := by
  unfold hex4 at h
  split at h
  · next ha hb hc hd =>
    obtain ⟨a1, a2⟩ := hexVal_some ha
    obtain ⟨b1, b2⟩ := hexVal_some hb
    obtain ⟨c1, c2⟩ := hexVal_some hc
    obtain ⟨d1, d2⟩ := hexVal_some hd
    have he : Open .inside ('\\' :: 'u' :: a :: b :: c :: d :: r) ↔
        Open .inside (a :: b :: c :: d :: r) := Iff.rfl
    rw [he, open_inside a1 a2, open_inside b1 b2, open_inside c1 c2, open_inside d1 d2]
  · cases h

/-- A literal read from inside ends where the text leaves one. -/
theorem open_scan {cs s r : List Char} (h : scanString cs = some (s, r)) :
    Open .inside cs ↔ Open .outside r := by
  have step : ∀ {ch : Char} {cs' s : List Char}, push ch (scanString cs') = some (s, r) →
      ∃ s', scanString cs' = some (s', r) := by
    intro ch cs' s h
    obtain ⟨⟨s', r'⟩, hp, he⟩ := Option.map_eq_some_iff.mp h
    cases he
    exact ⟨s', hp⟩
  fun_induction scanString cs generalizing s with
  | case1 => cases h
  | case2 r' =>
    cases h
    exact open_closed
  | case3 => cases h
  | case4 => cases h
  | case5 a b c d n hn _ a' b' c' d' r' ch hc ih =>
    obtain ⟨s', hs⟩ := step h
    obtain ⟨n', hn', -⟩ := Option.bind_eq_some_iff.mp hc
    rw [open_hex4 hn, open_hex4 hn']
    exact ih hs
  | case6 => cases h
  | case7 a b c d r' n hn _ ih =>
    obtain ⟨s', hs⟩ := step h
    rw [open_hex4 hn]
    exact ih hs
  | case8 => cases h
  | case9 e r' _ ch _ ih =>
    obtain ⟨s', hs⟩ := step h
    have he : Open .inside ('\\' :: e :: r') ↔ Open .inside r' := Iff.rfl
    rw [he]
    exact ih hs
  | case10 => cases h
  | case11 c r' hq _ _ hc ih =>
    obtain ⟨s', hs⟩ := step h
    rw [open_inside hq fun hb => hc (Or.inl hb)]
    exact ih hs

/-- **Reading from outside the literals** ends outside. -/
theorem read_outside (n : ℕ) :
    (∀ cs v r, parseValue T n cs = some (v, r) → (Open .outside cs ↔ Open .outside r)) ∧
    (∀ cs vs r, parseElems T n cs = some (vs, r) → (Open .outside cs ↔ Open .outside r)) ∧
    (∀ cs ps r, parseEntries T n cs = some (ps, r) → (Open .outside cs ↔ Open .outside r)) := by
  induction n with
  | zero => simp [parseValue, parseElems, parseEntries]
  | succ n ih =>
    obtain ⟨ihv, ihe, ihp⟩ := ih
    have behind : ∀ {c : Char} {r r' : List Char}, c ≠ '"' → skipBlank r = c :: r' →
        (Open .outside r ↔ Open .outside r') := by
      intro c r r' hc h
      rw [← open_skipBlank, h, open_outside hc]
    refine ⟨fun cs v r h => ?_, fun cs vs r h => ?_, fun cs ps r h => ?_⟩
    · rw [parseValue.eq_def] at h
      simp only at h
      split at h
      · obtain ⟨p, hp, he⟩ := Option.map_eq_some_iff.mp h
        cases he
        rw [open_cons]
        exact open_scan hp
      · rw [open_outside (by decide)]
        split at h
        · next heq =>
          cases h
          exact behind (by decide) heq
        · obtain ⟨p, hp, he⟩ := Option.map_eq_some_iff.mp h
          cases he
          rw [← open_skipBlank, ihe _ _ _ hp]
      · rw [open_outside (by decide)]
        split at h
        · next heq =>
          cases h
          exact behind (by decide) heq
        · obtain ⟨p, hp, he⟩ := Option.map_eq_some_iff.mp h
          cases he
          rw [← open_skipBlank, ihp _ _ _ hp]
      · obtain ⟨w, -, he⟩ := Option.map_eq_some_iff.mp h
        cases he
        exact (open_dropWhile fun c hc => (bare_of_token hc).1).symm
    · rw [parseElems.eq_def] at h
      simp only at h
      split at h
      · cases h
      · next v r' hv =>
        rw [ihv _ _ _ hv]
        split at h
        · next heq =>
          obtain ⟨p, hp, he⟩ := Option.map_eq_some_iff.mp h
          cases he
          rw [behind (by decide) heq, ← open_skipBlank, ihe _ _ _ hp]
        · next heq =>
          cases h
          exact behind (by decide) heq
        · cases h
    · rw [parseEntries.eq_def] at h
      simp only at h
      split at h
      · split at h
        · cases h
        · next k r' hk =>
          rw [open_cons]
          refine (open_scan hk).trans ?_
          split at h
          · next heq =>
            rw [behind (by decide) heq, ← open_skipBlank]
            split at h
            · cases h
            · next v r'' hv =>
              rw [ihv _ _ _ hv]
              split at h
              · next heq =>
                obtain ⟨p, hp, he⟩ := Option.map_eq_some_iff.mp h
                cases he
                rw [behind (by decide) heq, ← open_skipBlank, ihp _ _ _ hp]
              · next heq =>
                cases h
                exact behind (by decide) heq
              · cases h
          · cases h
      · cases h

/-- **A JSON text ends outside its literals.** -/
theorem parse_outside {cs : List Char} {v : Json F} (h : parse T cs = some v) :
    ¬ Open .outside cs := by
  unfold parse at h
  split at h
  · next v' r hv =>
    split_ifs at h with hr
    rw [← open_skipBlank, (read_outside _).1 _ _ _ hv, ← open_skipBlank, hr]
    simp [Open, walk]
  · cases h

/-! ### The lines of a text -/

/-- The first line of a text and what follows it. -/
theorem splitlines_break {a r : List Char} {b : Char} (ha : ∀ c ∈ a, isBreak c = false)
    (hb : isBreak b = true) (hr : b ≠ '\r') : splitlines (a ++ b :: r) = a :: splitlines r := by
  induction a with
  | nil =>
    rw [List.nil_append, splitlines.eq_3, hb]
    · rfl
    · rintro cs rfl
      exact absurd rfl hr
  | cons c a ih =>
    rw [List.cons_append, splitlines_cons (ha c (by simp)),
      ih fun x hx => ha x (List.mem_cons_of_mem c hx)]

/-- A text without a line boundary, or cut at its first one. -/
theorem cut (l : List Char) : (∀ c ∈ l, isBreak c = false) ∨
    ∃ a b r, l = a ++ b :: r ∧ (∀ c ∈ a, isBreak c = false) ∧ isBreak b = true := by
  induction l with
  | nil => exact Or.inl (by simp)
  | cons c l ih =>
    by_cases hc : isBreak c = true
    · exact Or.inr ⟨[], c, l, rfl, by simp, hc⟩
    · rw [Bool.not_eq_true] at hc
      rcases ih with ih | ⟨a, b, r, rfl, ha, hb⟩
      · exact Or.inl (List.forall_mem_cons.mpr ⟨hc, ih⟩)
      · exact Or.inr ⟨c :: a, b, r, rfl, List.forall_mem_cons.mpr ⟨hc, ha⟩, hb⟩

/-- A line boundary in a tidy text lies in a literal. -/
theorem tidy_break {p : Phase} {a r : List Char} {b : Char} (h : Tidy p (a ++ b :: r))
    (hb : isBreak b = true) : Open p a ∧ Tidy .inside r := by
  obtain ⟨-, h1, h2⟩ := tidy_append.mp h
  have hq : b ≠ '"' ∧ b ≠ '\\' := by
    constructor <;> rintro rfl <;> exact absurd hb (by decide)
  cases hw : walk p a with
  | outside =>
    rw [hw] at h1
    exact absurd hb (by simp [h1.2])
  | closed =>
    rw [hw] at h1
    exact absurd hb (by simp [h1.2.1])
  | escaped =>
    rw [hw] at h1
    exact absurd hb (by simp [show isBreak b = false from h1])
  | inside =>
    rw [hw, next, if_neg hq.1, if_neg hq.2] at h2
    exact ⟨Or.inl hw, h2⟩

/-- The lines of a text that begins inside a literal begin inside one. -/
theorem tidy_lines : ∀ (n : ℕ) {l : List Char}, l.length ≤ n → Tidy .inside l → '\r' ∉ l →
    ∀ x ∈ splitlines (l ++ ['\n']), Tidy .inside x
  | n, l, hn, ht, hc, x, hx => by
    rcases cut l with h | ⟨a, b, r, rfl, ha, hb⟩
    · rw [splitlines_append h, List.mem_cons] at hx
      rcases hx with rfl | hx
      · exact ht
      · cases hx
    · have hlen : r.length < n := by
        rw [List.length_append, List.length_cons] at hn
        omega
      have hbr : b ≠ '\r' := by
        rintro rfl
        exact hc (by simp)
      rw [List.append_assoc, List.cons_append, splitlines_break ha hb hbr, List.mem_cons] at hx
      rcases hx with rfl | hx
      · exact (tidy_append.mp ht).1
      · cases n with
        | zero => omega
        | succ n =>
          exact tidy_lines n (by omega) (tidy_break ht hb).2 (fun h => hc (by simp [h])) x hx

/-- **The lines of a text with a line boundary**: none of them denotes an object with a key that
starts with a letter or a digit. -/
theorem lines_broken {l : List Char} (ht : Tidy .outside l) (hc : '\r' ∉ l)
    (hb : ∃ c ∈ l, isBreak c = true) {x : List Char} (hx : x ∈ splitlines (l ++ ['\n']))
    {d : Dict F} (h : parse T x = some (.obj d)) : Odd d := by
  rcases cut l with hn | ⟨a, b, r, rfl, ha, hb⟩
  · obtain ⟨c, hm, hb⟩ := hb
    rw [hn c hm] at hb
    cases hb
  · have hbr : b ≠ '\r' := by
      rintro rfl
      exact hc (by simp)
    obtain ⟨ho, hr⟩ := tidy_break ht hb
    rw [List.append_assoc, List.cons_append, splitlines_break ha hb hbr, List.mem_cons] at hx
    rcases hx with rfl | hx
    · exact absurd ho (parse_outside h)
    · exact parse_inside h (tidy_lines _ le_rfl hr (fun h => hc (by simp [h])) x hx)

/-- The lines of a text that is ended by a line feed, and of what follows. -/
theorem splitlines_ended : ∀ (n : ℕ) {l : List Char} (r : List Char), l.length ≤ n → '\r' ∉ l →
    splitlines (l ++ '\n' :: r) = splitlines (l ++ ['\n']) ++ splitlines r
  | n, l, r, hn, hc => by
    rcases cut l with h | ⟨a, b, m, rfl, ha, hb⟩
    · rw [splitlines_append h, splitlines_append h]
      rfl
    · have hbr : b ≠ '\r' := by
        rintro rfl
        exact hc (by simp)
      have hlen : m.length < n := by
        rw [List.length_append, List.length_cons] at hn
        omega
      rw [List.append_assoc, List.append_assoc, List.cons_append, List.cons_append,
        splitlines_break ha hb hbr, splitlines_break ha hb hbr]
      cases n with
      | zero => omega
      | succ n =>
        rw [splitlines_ended n r (by omega) fun h => hc (by simp [h])]
        rfl

/-- The lines of several texts, each of them ended by a line feed. -/
theorem splitlines_unlines_flatMap {ls : List (List Char)} (h : ∀ l ∈ ls, '\r' ∉ l) :
    splitlines (unlines ls) = ls.flatMap fun l => splitlines (l ++ ['\n']) := by
  induction ls with
  | nil => rfl
  | cons l ls ih =>
    have e : unlines (l :: ls) = l ++ '\n' :: unlines ls := by simp [unlines]
    rw [e, splitlines_ended _ _ le_rfl (h l (by simp)), List.flatMap_cons,
      ih fun x hx => h x (List.mem_cons_of_mem l hx)]

/-! ### The line boundaries of a written text -/

/-- A line boundary that is written as it is: U+0085, U+2028 or U+2029. -/
def RawBreak (c : Char) : Prop := c.toNat = 0x85 ∨ c.toNat = 0x2028 ∨ c.toNat = 0x2029

instance : DecidablePred RawBreak := fun _ => inferInstanceAs (Decidable (_ ∨ _))

theorem rawBreak_iff {c : Char} : RawBreak c ↔ isBreak c = true ∧ 0x20 ≤ c.toNat := by
  unfold RawBreak isBreak
  simp only [Bool.or_eq_true, Bool.and_eq_true, decide_eq_true_eq, beq_iff_eq]
  omega

theorem mem_printStr_of_mem {s : String} {c : Char} (hc : 0x7f ≤ c.toNat) (h : c ∈ s.toList) :
    c ∈ printStr false s := by
  have hq : quoteChar false c = [c] := by
    have hne : ∀ x : Char, x.toNat < 0x7f → c ≠ x := by
      rintro x hx rfl
      omega
    unfold quoteChar
    rw [if_neg (hne _ (by decide)), if_neg (hne _ (by decide)), if_neg (hne _ (by decide)),
      if_neg (hne _ (by decide)), if_neg (hne _ (by decide)), if_neg (hne _ (by decide)),
      if_neg (hne _ (by decide)), if_neg (by omega), if_neg (by simp)]
  have hm : c ∈ quote false s.toList := List.mem_flatMap.mpr ⟨c, h, by simp [hq]⟩
  simp [printStr, hm]

mutual
/-- A character outside ASCII is written as it is. -/
theorem mem_print_of_chars (hL : L.ascii = false) {c : Char} (hc : 0x7f ≤ c.toNat) :
    ∀ (v : Json F) (n : ℕ), c ∈ chars v → c ∈ print T L n v
  | .null, _, h => by simp [chars] at h
  | .bool _, _, h => by simp [chars] at h
  | .int _, _, h => by simp [chars] at h
  | .float _, _, h => by simp [chars] at h
  | .str s, _, h => by
    rw [print, hL]
    exact mem_printStr_of_mem hc h
  | .arr [], _, h => by simp [chars, charsList] at h
  | .arr (x :: xs), n, h => by
    rw [chars, charsList, List.mem_append] at h
    simp only [print, List.mem_cons, List.mem_append]
    rcases h with h | h
    · have := mem_print_of_chars hL hc x (n + 1) h
      tauto
    · have := mem_printElems_of_chars hL hc xs n h
      tauto
  | .obj [], _, h => by simp [chars, charsDict] at h
  | .obj ((k, x) :: d), n, h => by
    rw [chars, charsDict, List.mem_append, List.mem_append] at h
    simp only [print, List.mem_cons, List.mem_append, hL]
    rcases h with h | h | h
    · have := mem_printStr_of_mem hc h
      tauto
    · have := mem_print_of_chars hL hc x (n + 1) h
      tauto
    · have := mem_printEntries_of_chars hL hc d n h
      tauto
theorem mem_printElems_of_chars (hL : L.ascii = false) {c : Char} (hc : 0x7f ≤ c.toNat) :
    ∀ (xs : List (Json F)) (n : ℕ), c ∈ charsList xs → c ∈ printElems T L n xs
  | [], _, h => by simp [charsList] at h
  | x :: xs, n, h => by
    rw [charsList, List.mem_append] at h
    simp only [printElems, List.mem_cons, List.mem_append]
    rcases h with h | h
    · have := mem_print_of_chars hL hc x (n + 1) h
      tauto
    · have := mem_printElems_of_chars hL hc xs n h
      tauto
theorem mem_printEntries_of_chars (hL : L.ascii = false) {c : Char} (hc : 0x7f ≤ c.toNat) :
    ∀ (d : Dict F) (n : ℕ), c ∈ charsDict d → c ∈ printEntries T L n d
  | [], _, h => by simp [charsDict] at h
  | (k, x) :: d, n, h => by
    rw [charsDict, List.mem_append, List.mem_append] at h
    simp only [printEntries, List.mem_cons, List.mem_append, hL]
    rcases h with h | h | h
    · have := mem_printStr_of_mem hc h
      tauto
    · have := mem_print_of_chars hL hc x (n + 1) h
      tauto
    · have := mem_printEntries_of_chars hL hc d n h
      tauto
end

/-- **The line boundaries of a text on one line** are those that a string holds unescaped. -/
theorem break_print (hL : OneLine L) (ha : L.ascii = false) (v : Json F) (n : ℕ) :
    (∃ c ∈ print T L n v, isBreak c = true) ↔ ∃ c ∈ chars v, RawBreak c := by
  constructor
  · rintro ⟨c, hc, hb⟩
    rcases mem_print hL v n hc with ⟨h1, h2⟩ | ⟨h1, h2⟩
    · have := rawBreak_iff.mpr ⟨hb, h1⟩
      unfold RawBreak at this
      omega
    · exact ⟨c, h1, rawBreak_iff.mpr ⟨hb, h2⟩⟩
  · rintro ⟨c, hc, hb⟩
    have h7 : 0x7f ≤ c.toNat := by
      unfold RawBreak at hb
      omega
    exact ⟨c, mem_print_of_chars ha h7 v n hc, (rawBreak_iff.mp hb).1⟩

/-- A text on one line holds no control character. -/
theorem no_return (hL : OneLine L) (v : Json F) (n : ℕ) : '\r' ∉ print T L n v := by
  intro h
  rcases mem_print hL v n h with ⟨h1, -⟩ | ⟨-, h1⟩
  · exact absurd h1 (by decide)
  · exact absurd h1 (by decide)

end ControlPlane.Lib.Phases
