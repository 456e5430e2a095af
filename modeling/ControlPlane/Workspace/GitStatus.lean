import ControlPlane.Lib.Keyed
import ControlPlane.Lib.Quote
import ControlPlane.Lib.Text
import Mathlib.Tactic.IntervalCases

/-! # The changed files that git reports

Git writes one line for each changed file, with two letters for its status. A name with unusual characters is
written between quotes, with a backslash before each of them. The reader takes the quotes off and leaves the
backslashes, and it takes what follows the last arrow on a line for the name. It returns the names as they are if
and only if no name has a character that git escapes, an arrow, or, if git does not quote it, a space at an end
(`exact_iff`). -/

namespace ControlPlane.Workspace.GitStatus

open ControlPlane.Lib.Keyed (filterMap_eq_map_iff)
open ControlPlane.Lib.Text (isSpace isBreak splitlines unlines splitlines_unlines)

abbrev Byte := UInt8

/-! ### The reader -/

/-- `line.strip()` -/
def stripLine (line : List Char) : List Char := (line.dropWhile isSpace).rdropWhile isSpace

def isQuoteMark (c : Char) : Bool := c == '"'

/-- `text.strip('"')` -/
def stripQuotes (text : List Char) : List Char := (text.dropWhile isQuoteMark).rdropWhile isQuoteMark

/-- `(piece + text).split(" -> ")[-1]` for a piece of the first part. -/
def lastPiece (piece : List Char) : List Char → List Char
  | ' ' :: '-' :: '>' :: ' ' :: text => lastPiece [] text
  | c :: text => lastPiece (piece ++ [c]) text
  | [] => piece

/-- The name on a line, between quotes or not. -/
def pathPart (text : List Char) : Option (List Char) :=
  let part := stripQuotes (lastPiece [] text)
  if part = [] then none else some part

def changedFile (line : List Char) : Option (List Char) :=
  let line := stripLine line
  if line.length < 3 then none else pathPart (stripLine (line.drop 2))

/-- `_git_changed_files`; there is no output if git is missing, fails or is too slow. -/
def gitChangedFiles (stdout : Option (List Char)) : List (List Char) :=
  match stdout with
  | none => []
  | some text => if stripLine text = [] then [] else (splitlines text).filterMap changedFile

/-! ### The output of git -/

/-- A path as the file system names it. -/
structure PathName where
  bytes : List Byte
  ne_nil : bytes ≠ []
  no_null : 0 ∉ bytes

def statusLetters : List Char := [' ', 'M', 'T', 'A', 'D', 'R', 'C', 'U', '?']

structure Status where
  x : Char
  y : Char
  x_mem : x ∈ statusLetters
  y_mem : y ∈ statusLetters
  not_blank : x ≠ ' ' ∨ y ≠ ' '

inductive Entry where
  | tracked (status : Status) (orig : Option PathName) (path : PathName)
  | untracked (path : PathName)

def Entry.path : Entry → PathName
  | .tracked _ _ path => path
  | .untracked path => path

/-- Control characters, quotes, backslashes and what is not ASCII. -/
def isEscaped (b : Byte) : Bool := b < 0x20 || b == 0x22 || b == 0x5c || 0x7f ≤ b

def char (b : Byte) : Char := Char.ofNat b.toNat

def digit (n : ℕ) : Char := Char.ofNat (0x30 + n % 8)

/-- A byte as in a literal of C. -/
def escape (b : Byte) : List Char :=
  if isEscaped b then '\\' :: match b.toNat with
    | 7 => ['a']
    | 8 => ['b']
    | 9 => ['t']
    | 10 => ['n']
    | 11 => ['v']
    | 12 => ['f']
    | 13 => ['r']
    | 0x22 => ['"']
    | 0x5c => ['\\']
    | n => [digit (n / 64), digit (n / 8), digit n]
  else [char b]

/-- A name is quoted for what is escaped in it, and with `spaces` also for its spaces. -/
def isQuoted (spaces : Bool) (name : List Byte) : Bool := name.any fun b => isEscaped b || spaces && b == 0x20

def quote (spaces : Bool) (name : List Byte) : List Char :=
  if isQuoted spaces name then '"' :: name.flatMap escape ++ ['"'] else name.map char

def arrow : List Char := [' ', '-', '>', ' ']

/-- The old name and an arrow, for a file that was renamed. -/
def renamed : Option PathName → List Char
  | none => []
  | some name => quote true name.bytes ++ arrow

/-- The line of an entry. Older versions do not quote the names of untracked files for their spaces. -/
def entryLine (spaces : Bool) : Entry → List Char
  | .tracked status orig path => status.x :: status.y :: ' ' :: (renamed orig ++ quote true path.bytes)
  | .untracked path => '?' :: '?' :: ' ' :: quote spaces path.bytes

def porcelain (spaces : Bool) (entries : List Entry) : List Char := unlines (entries.map (entryLine spaces))

/-- `os.fsencode(text)` -/
def fsencode (text : List Char) : List Byte := text.flatMap String.utf8EncodeChar

/-- The reader returns the names of all entries. -/
def Exact (spaces : Bool) (entries : List Entry) : Prop :=
  (gitChangedFiles (some (porcelain spaces entries))).map fsencode = entries.map fun e => e.path.bytes

/-! ### Stripping -/

/-- A text without white space at its ends. -/
structure Bare (text : List Char) : Prop where
  ne_nil : text ≠ []
  head : ∀ c ∈ text.head?, isSpace c = false
  last : ∀ c ∈ text.getLast?, isSpace c = false

variable {text before after : List Char}

theorem stripLine_bare (hbefore : ∀ c ∈ before, isSpace c = true) (h : Bare text)
    (hafter : ∀ c ∈ after, isSpace c = true) : stripLine (before ++ text ++ after) = text := by
  obtain ⟨c, cs, rfl⟩ := List.exists_cons_of_ne_nil h.ne_nil
  have hc := h.head c rfl
  have hlast := h.last _ (List.getLast?_eq_getLast_of_ne_nil (List.cons_ne_nil c cs))
  have hdrop : (before ++ (c :: cs) ++ after).dropWhile isSpace = c :: cs ++ after := by
    rw [List.append_assoc, List.dropWhile_append_of_pos hbefore, List.cons_append,
      List.dropWhile_cons_of_neg (by simp [hc])]
  have hrdrop : (c :: cs ++ after).rdropWhile isSpace = (c :: cs).rdropWhile isSpace := by
    rw [List.rdropWhile, List.reverse_append, List.dropWhile_append_of_pos (by simpa using hafter),
      List.rdropWhile]
  rw [stripLine, hdrop, hrdrop, List.rdropWhile_eq_self_iff]
  intro _
  rw [hlast]
  exact Bool.false_ne_true

theorem stripLine_blank (h : ∀ c ∈ text, isSpace c = true) : stripLine text = [] := by
  rw [stripLine, List.dropWhile_eq_nil_iff.mpr h]
  rfl

/-- A text is blank, or bare between white space. -/
theorem blank_or_bare (text : List Char) : (∀ c ∈ text, isSpace c = true) ∨ ∃ before bare after,
    text = before ++ bare ++ after ∧ (∀ c ∈ before, isSpace c = true) ∧ Bare bare ∧
      ∀ c ∈ after, isSpace c = true := by
  by_cases hblank : ∀ c ∈ text, isSpace c = true
  · exact Or.inl hblank
  · have hne : text.dropWhile isSpace ≠ [] := fun h => hblank (List.dropWhile_eq_nil_iff.mp h)
    have hhead := List.head?_dropWhile_not isSpace text
    have htake : text.takeWhile isSpace ++ text.dropWhile isSpace = text := List.takeWhile_append_dropWhile
    set rest := text.dropWhile isSpace
    obtain ⟨c, cs, hcs⟩ := List.exists_cons_of_ne_nil hne
    rw [hcs] at hhead
    have hc : isSpace c = false := by simpa using hhead
    have hrne : rest.rdropWhile isSpace ≠ [] := by
      intro hnil
      have := List.rdropWhile_eq_nil_iff.mp hnil c (hcs ▸ List.mem_cons_self)
      rw [hc] at this
      cases this
    refine Or.inr ⟨text.takeWhile isSpace, rest.rdropWhile isSpace, rest.rtakeWhile isSpace, ?_, ?_, ⟨hrne, ?_, ?_⟩, ?_⟩
    · rw [List.append_assoc, List.rdropWhile_append_rtakeWhile, htake]
    · exact fun d hd => List.mem_takeWhile_imp hd
    · intro d hd
      obtain ⟨suffix, hsuffix⟩ := List.rdropWhile_prefix isSpace (l := rest)
      obtain ⟨e, es, hes⟩ := List.exists_cons_of_ne_nil hrne
      rw [hes] at hd hsuffix
      rw [hcs] at hsuffix
      injection hsuffix with heq
      rw [← Option.some_inj.mp hd, heq, hc]
    · intro d hd
      rw [List.getLast?_eq_getLast_of_ne_nil hrne] at hd
      rw [← Option.some_inj.mp hd]
      simpa using List.rdropWhile_last_not isSpace rest hrne
    · exact fun d hd => List.mem_rtakeWhile_imp hd

/-- The status of a line, whose letters are blank or not white space. -/
structure IsStatus (x y : Char) : Prop where
  x_blank : isSpace x = true → x = ' '
  y_blank : isSpace y = true → y = ' '
  not_blank : x = ' ' → y ≠ ' '

theorem Status.isStatus (s : Status) : IsStatus s.x s.y := by
  have hletters : ∀ c ∈ statusLetters, isSpace c = true → c = ' ' :=
    Lib.Quote.forall_chars (by decide)
  exact ⟨hletters s.x s.x_mem, hletters s.y s.y_mem, fun h => s.not_blank.resolve_left (not_not_intro h)⟩

theorem notSpace {c : Char} (h : isSpace c = true → c = ' ') (hc : c ≠ ' ') : isSpace c = false :=
  Bool.eq_false_iff.mpr fun hspace => hc (h hspace)

theorem bare_singleton {c : Char} (hc : isSpace c = false) : Bare [c] := by
  refine ⟨List.cons_ne_nil c [], fun d hd => ?_, fun d hd => ?_⟩
  · rw [← Option.some_inj.mp hd, hc]
  · rw [← Option.some_inj.mp hd, List.getLast_singleton, hc]

theorem Bare.append {c : Char} (hc : isSpace c = false) (h : Bare text) (before : List Char) :
    Bare (c :: (before ++ text)) := by
  refine ⟨List.cons_ne_nil _ _, fun d hd => ?_, fun d hd => ?_⟩
  · rw [← Option.some_inj.mp hd, hc]
  · rw [← List.cons_append, List.getLast?_append_of_ne_nil _ h.ne_nil] at hd
    exact h.last d hd

theorem changedFile_bare {line core : List Char} (heq : line = before ++ core ++ after)
    (hbefore : ∀ c ∈ before, isSpace c = true) (h : Bare core) (hafter : ∀ c ∈ after, isSpace c = true) :
    changedFile line = if core.length < 3 then none else pathPart (stripLine (core.drop 2)) := by
  rw [changedFile, heq, stripLine_bare hbefore h hafter]

/-- **What the reader takes** from a line: the name in what follows the status, stripped. -/
theorem changedFile_line {x y : Char} (h : IsStatus x y) (text : List Char) :
    changedFile (x :: y :: ' ' :: text) = pathPart (stripLine text) := by
  have hspace : ∀ {cs : List Char}, (∀ c ∈ cs, isSpace c = true) → ∀ c ∈ ' ' :: cs, isSpace c = true :=
    fun hcs => List.forall_mem_cons.mpr ⟨rfl, hcs⟩
  have hnil : ∀ c ∈ ([] : List Char), isSpace c = true := fun _ hc => absurd hc List.not_mem_nil
  rcases blank_or_bare text with hblank | ⟨before, bare, after, rfl, hbefore, hbare, hafter⟩
  · -- without a name the line is too short
    rw [stripLine_blank hblank]
    by_cases hx : x = ' '
    · have hy := notSpace h.y_blank (h.not_blank hx)
      have hline : x :: y :: ' ' :: text = [x] ++ [y] ++ ' ' :: text := rfl
      rw [changedFile_bare hline (by rw [hx]; exact hspace hnil) (bare_singleton hy) (hspace hblank)]
      rfl
    · have hx' := notSpace h.x_blank hx
      by_cases hy : y = ' '
      · have hline : x :: y :: ' ' :: text = [] ++ [x] ++ y :: ' ' :: text := rfl
        rw [changedFile_bare hline hnil (bare_singleton hx') (by rw [hy]; exact hspace (hspace hblank))]
        rfl
      · have hline : x :: y :: ' ' :: text = [] ++ (x :: ([] ++ [y])) ++ ' ' :: text := rfl
        have hy' := bare_singleton (notSpace h.y_blank hy)
        rw [changedFile_bare hline hnil (hy'.append hx' []) (hspace hblank)]
        rfl
  · rw [stripLine_bare hbefore hbare hafter]
    have hlength := List.length_pos_iff.mpr hbare.ne_nil
    by_cases hx : x = ' '
    · have hy := notSpace h.y_blank (h.not_blank hx)
      have hline : x :: y :: ' ' :: (before ++ bare ++ after) =
          [x] ++ (y :: (' ' :: before ++ bare)) ++ after := by simp
      rw [changedFile_bare hline (by rw [hx]; exact hspace hnil) (hbare.append hy _) hafter,
        if_neg (by simp; omega)]
      have hstrip := stripLine_bare hbefore hbare hnil
      rw [List.append_nil] at hstrip
      exact congrArg pathPart hstrip
    · have hx' := notSpace h.x_blank hx
      have hline : x :: y :: ' ' :: (before ++ bare ++ after) =
          [] ++ (x :: (y :: ' ' :: before ++ bare)) ++ after := by simp
      rw [changedFile_bare hline hnil (hbare.append hx' _) hafter, if_neg (by simp)]
      have hstrip := stripLine_bare (hspace hbefore) hbare hnil
      rw [List.append_nil] at hstrip
      exact congrArg pathPart hstrip

/-! ### Arrows -/

/-- No arrow begins in the text and ends after it. -/
def Closed (text : List Char) : Prop := ∀ last, last ≠ [] → last <:+ text → ¬ last <+: arrow

theorem lastPiece_arrow (piece text : List Char) : lastPiece piece (arrow ++ text) = lastPiece [] text := rfl

theorem lastPiece_cons {piece : List Char} {c : Char} {text : List Char} (h : ¬ arrow <+: c :: text) :
    lastPiece piece (c :: text) = lastPiece (piece ++ [c]) text := by
  rw [lastPiece]
  rintro rest rfl rfl
  exact h ⟨rest, rfl⟩

theorem lastPiece_of_notMem {text : List Char} (h : ¬ arrow <:+: text) : ∀ piece,
    lastPiece piece text = piece ++ text := by
  induction text with
  | nil => exact fun piece => (List.append_nil piece).symm
  | cons c text ih =>
    intro piece
    rw [lastPiece_cons fun hpre => h hpre.isInfix, ih fun hin => h (List.infix_cons hin), List.append_assoc]
    rfl

theorem Closed.suffix {last : List Char} (h : Closed text) (hlast : last <:+ text) : Closed last :=
  fun piece hne hpiece => h piece hne (hpiece.trans hlast)

/-- The last piece begins after an arrow that no other one runs into. -/
theorem lastPiece_append (text : List Char) {piece before : List Char} (h : Closed before) :
    lastPiece piece (before ++ (arrow ++ text)) = lastPiece [] text := by
  induction hn : before.length using Nat.strong_induction_on generalizing piece before with
  | _ n ih =>
    subst hn
    cases before with
    | nil => exact lastPiece_arrow piece text
    | cons c cs =>
      rw [List.cons_append]
      by_cases harrow : arrow <+: c :: (cs ++ (arrow ++ text))
      · -- the arrow lies in the first part, since none runs over its end
        have hin : arrow <+: c :: cs := by
          have hfirst : c :: cs <+: c :: (cs ++ (arrow ++ text)) := ⟨arrow ++ text, rfl⟩
          refine List.prefix_of_prefix_length_le harrow hfirst ?_
          by_contra hlt
          have hpre := List.prefix_of_prefix_length_le hfirst harrow (by omega)
          exact h (c :: cs) (List.cons_ne_nil c cs) List.suffix_rfl hpre
        obtain ⟨rest, hrest⟩ := hin
        have hshorter : rest.length < (c :: cs).length := by
          rw [← hrest, List.length_append]
          simp [arrow]
        rw [← List.cons_append, ← hrest, List.append_assoc, lastPiece_arrow]
        exact ih _ hshorter (h.suffix (hrest ▸ List.suffix_append _ _)) rfl
      · rw [lastPiece_cons harrow]
        exact ih _ (Nat.lt_succ_self _) (h.suffix (List.suffix_cons c cs)) rfl

/-- **The last piece has no arrow.** -/
theorem lastPiece_no_arrow (piece text : List Char)
    (h : ∀ before after, piece ++ text = before ++ arrow ++ after → piece.length ≤ before.length) :
    ¬ arrow <:+: lastPiece piece text := by
  induction piece, text using lastPiece.induct with
  | case1 piece text ih => exact ih fun before _ _ => Nat.zero_le before.length
  | case2 piece c text hno ih =>
    have harrow : ¬ arrow <+: c :: text := fun ⟨rest, hrest⟩ => by
      injection hrest with h1 h2
      exact hno rest h1.symm h2.symm
    rw [lastPiece_cons harrow]
    refine ih fun before after heq => ?_
    rw [List.append_assoc, List.singleton_append] at heq
    have hle := h before after heq
    rw [List.length_append, List.length_singleton]
    refine Nat.lt_of_le_of_ne hle fun hlength => harrow ?_
    rw [List.append_assoc] at heq
    exact ⟨after, (List.append_inj_right heq hlength).symm⟩
  | case3 piece =>
    rintro ⟨before, after, heq⟩
    have hle := h before after (by rw [List.append_nil, heq]; rfl)
    rw [lastPiece] at heq
    have hlength := congrArg List.length heq
    simp only [List.length_append, arrow, List.length_cons, List.length_nil] at hlength
    omega

theorem mem_lastPiece {c : Char} (piece text : List Char) (h : c ∈ lastPiece piece text) : c ∈ piece ++ text := by
  induction piece, text using lastPiece.induct with
  | case1 piece text ih => exact List.mem_append_right _ (List.mem_append_right arrow (ih h))
  | case2 piece d text hno ih =>
    rw [lastPiece] at h
    · simpa using ih h
    · exact hno
  | case3 piece => simpa [lastPiece] using h

/-! ### Names -/

theorem toNat_char (b : Byte) : (char b).toNat = b.toNat := by
  have hall : ∀ n < 256, (char (UInt8.ofNat n)).toNat = n := by decide +kernel
  have hb := hall b.toNat b.toNat_lt
  rwa [UInt8.ofNat_toNat] at hb

/-- What an escaped byte is written as. -/
theorem escape_escaped (b : Byte) : isEscaped b = true → (escape b).head? = some '\\' ∧ ' ' ∉ escape b ∧
    (escape b).count '\\' = [char b].count '\\' + 1 := by
  have hall : ∀ n < 256, isEscaped (UInt8.ofNat n) = true → (escape (UInt8.ofNat n)).head? = some '\\' ∧
      ' ' ∉ escape (UInt8.ofNat n) ∧
      (escape (UInt8.ofNat n)).count '\\' = [char (UInt8.ofNat n)].count '\\' + 1 := by decide +kernel
  have hb := hall b.toNat b.toNat_lt
  rwa [UInt8.ofNat_toNat] at hb

theorem escape_plain {b : Byte} (h : isEscaped b = false) : escape b = [char b] := by
  rw [escape, if_neg (by simp [h])]

/-- The characters that names are written with. -/
structure IsPlain (c : Char) : Prop where
  ascii : c.toNat < 128
  blank : isSpace c = true → c = ' '
  oneLine : isBreak c = false

theorem isPlain_escape (b : Byte) : ∀ c ∈ escape b, IsPlain c := by
  have hall : ∀ n < 256, (escape (UInt8.ofNat n)).all (fun c =>
      decide (c.toNat < 128 ∧ (isSpace c = true → c = ' ') ∧ isBreak c = false)) = true := by decide +kernel
  have hb := hall b.toNat b.toNat_lt
  rw [UInt8.ofNat_toNat] at hb
  intro c hc
  obtain ⟨hascii, hblank, hbreak⟩ := Lib.Quote.forall_chars hb c hc
  exact ⟨hascii, hblank, hbreak⟩

variable {spaces : Bool} {name : List Byte}

theorem isEscaped_of_not_quoted (h : isQuoted spaces name = false) : ∀ b ∈ name, isEscaped b = false := by
  intro b hb
  have hnot := List.any_eq_false.mp h b hb
  cases hescaped : isEscaped b with
  | false => rfl
  | true => exact absurd (by rw [hescaped]; rfl) hnot

theorem flatMap_escape (h : ∀ b ∈ name, isEscaped b = false) : name.flatMap escape = name.map char := by
  rw [← List.flatMap_singleton' (name.map char), List.flatMap_map]
  exact List.flatMap_congr fun b hb => escape_plain (h b hb)

theorem quote_of_not_quoted (h : isQuoted spaces name = false) : quote spaces name = name.flatMap escape := by
  rw [quote, if_neg (by simp [h]), flatMap_escape (isEscaped_of_not_quoted h)]

theorem mem_quote {c : Char} (h : c ∈ quote spaces name) : IsPlain c := by
  have hflat : c ∈ name.flatMap escape → IsPlain c := by
    intro hc
    obtain ⟨b, -, hc⟩ := List.mem_flatMap.mp hc
    exact isPlain_escape b c hc
  cases hq : isQuoted spaces name with
  | false => exact hflat (quote_of_not_quoted hq ▸ h)
  | true =>
    rw [quote, if_pos hq, List.cons_append, List.mem_cons, List.mem_append, List.mem_singleton] at h
    rcases h with rfl | h | rfl
    · exact ⟨by decide, by decide, by decide⟩
    · exact hflat h
    · exact ⟨by decide, by decide, by decide⟩

/-- **Each escaped byte adds a backslash.** -/
theorem count_quote : (quote spaces name).count '\\' = (name.map char).count '\\' + name.countP isEscaped := by
  have hflat : (name.flatMap escape).count '\\' = (name.map char).count '\\' + name.countP isEscaped := by
    induction name with
    | nil => rfl
    | cons b name ih =>
      rw [List.flatMap_cons, List.count_append, ih, List.map_cons, ← List.singleton_append, List.count_append]
      cases hb : isEscaped b with
      | false =>
        rw [escape_plain hb, List.countP_cons_of_neg (by simp [hb])]
        omega
      | true =>
        rw [(escape_escaped b hb).2.2, List.countP_cons_of_pos hb]
        omega
  cases hq : isQuoted spaces name with
  | false => rw [quote_of_not_quoted hq, hflat]
  | true =>
    rw [quote, if_pos hq, List.cons_append, List.count_cons_of_ne (by decide), List.count_append, hflat]
    rfl

theorem prefix_escape : ∀ {w : List Char} {name : List Byte}, '\\' ∉ w → w <+: name.flatMap escape →
    w <+: name.map char
  | [], name, _, _ => List.nil_prefix
  | c :: w, [], _, h => absurd (List.prefix_nil.mp h) (List.cons_ne_nil c w)
  | c :: w, b :: name, hw, h => by
    rw [List.mem_cons, not_or] at hw
    cases hb : isEscaped b with
    | false =>
      rw [List.flatMap_cons, escape_plain hb, List.singleton_append, List.cons_prefix_cons] at h
      rw [List.map_cons, List.cons_prefix_cons]
      exact ⟨h.1, prefix_escape hw.2 h.2⟩
    | true =>
      obtain ⟨cs, hcs⟩ := List.head?_eq_some_iff.mp (escape_escaped b hb).1
      rw [List.flatMap_cons, hcs, List.cons_append, List.cons_prefix_cons] at h
      exact absurd h.1.symm hw.1

/-- An arrow among escaped bytes is in the name. -/
theorem arrow_escape {name : List Byte} (h : arrow <:+: name.flatMap escape) : arrow <:+: name.map char := by
  induction name with
  | nil => exact h
  | cons b name ih =>
    rw [List.flatMap_cons] at h
    rw [List.map_cons]
    cases hb : isEscaped b with
    | false =>
      rw [escape_plain hb, List.singleton_append, List.infix_cons_iff] at h
      refine h.elim (fun hpre => ?_) fun hin => List.infix_cons (ih hin)
      have hname : arrow <+: (b :: name).flatMap escape := by
        rwa [List.flatMap_cons, escape_plain hb, List.singleton_append]
      exact (prefix_escape (by decide) hname).isInfix
    | true =>
      obtain ⟨before, after, heq⟩ := h
      rw [List.append_assoc, List.append_eq_append_iff] at heq
      rcases heq with ⟨rest, hbefore, hrest⟩ | ⟨rest, hescape, hrest⟩
      · -- the arrow would begin among the characters of an escaped byte
        cases rest with
        | nil =>
          rw [List.nil_append] at hrest
          exact List.infix_cons (ih ⟨[], after, hrest⟩)
        | cons c rest =>
          have hc : c = ' ' := (List.cons.inj hrest).1.symm
          refine absurd ?_ (escape_escaped b hb).2.1
          rw [hbefore, hc]
          exact List.mem_append_right _ List.mem_cons_self
      · exact List.infix_cons (ih ⟨rest, after, by rw [List.append_assoc]; exact hrest.symm⟩)

theorem arrow_quote (h : arrow <:+: quote spaces name) : arrow <:+: name.map char := by
  cases hq : isQuoted spaces name with
  | false => exact arrow_escape (quote_of_not_quoted hq ▸ h)
  | true =>
    rw [quote, if_pos hq, List.cons_append, List.infix_cons_iff] at h
    rcases h with hpre | hin
    · exact absurd (List.cons_prefix_cons.mp hpre).1 (by decide)
    · rw [List.infix_concat_iff] at hin
      rcases hin with hsuf | hin
      · obtain ⟨before, heq⟩ := hsuf
        have hlast := congrArg List.getLast? heq
        have harrow : arrow ≠ [] := List.cons_ne_nil _ _
        rw [List.getLast?_concat, List.getLast?_append_of_ne_nil _ harrow] at hlast
        exact absurd hlast (by decide)
      · exact arrow_escape hin

theorem quote_ne_nil (hne : name ≠ []) : quote spaces name ≠ [] := by
  unfold quote
  split_ifs
  · exact List.cons_ne_nil _ _
  · simpa using hne

/-- A quoted name begins and ends with a quote. -/
theorem bare_of_quoted (h : isQuoted spaces name = true) : Bare (quote spaces name) := by
  have hquote : ∀ c, some '"' = some c → isSpace c = false := fun c hc => by
    rw [← Option.some_inj.mp hc]
    decide
  rw [quote, if_pos h]
  refine ⟨List.cons_ne_nil _ _, fun c hc => hquote c hc, fun c hc => hquote c ?_⟩
  rwa [List.getLast?_concat] at hc

theorem not_space_of_not_quoted (h : isQuoted true name = false) : ' ' ∉ quote true name := by
  intro hmem
  rw [quote, if_neg (by simp [h]), List.mem_map] at hmem
  obtain ⟨b, hb, hchar⟩ := hmem
  have hcode := congrArg Char.toNat hchar
  rw [toNat_char] at hcode
  have hspace : b = 0x20 := UInt8.toNat_inj.mp hcode
  refine List.any_eq_false.mp h b hb ?_
  rw [hspace]
  rfl

theorem bare_quote (hne : name ≠ []) : Bare (quote true name) := by
  cases hq : isQuoted true name with
  | true => exact bare_of_quoted hq
  | false =>
    have hall : ∀ c ∈ quote true name, isSpace c = false := fun c hc =>
      notSpace (mem_quote hc).blank fun h => not_space_of_not_quoted hq (h ▸ hc)
    exact ⟨quote_ne_nil hne, fun c hc => hall c (List.mem_of_mem_head? hc),
      fun c hc => hall c (List.mem_of_mem_getLast? hc)⟩

theorem closed_quote (name : List Byte) : Closed (quote true name) := by
  intro last hne hlast hpre
  cases hq : isQuoted true name with
  | true =>
    have hquote : '"' ∈ last := by
      obtain ⟨before, heq⟩ := hlast
      have hend := congrArg List.getLast? heq
      rw [quote, if_pos hq, List.getLast?_concat, List.getLast?_append_of_ne_nil _ hne] at hend
      exact List.mem_of_mem_getLast? hend
    exact absurd (hpre.mem hquote) (by decide)
  | false =>
    obtain ⟨c, cs, rfl⟩ := List.exists_cons_of_ne_nil hne
    rw [arrow, List.cons_prefix_cons] at hpre
    exact not_space_of_not_quoted hq (hpre.1 ▸ hlast.mem List.mem_cons_self)

/-! ### Reading a name -/

theorem stripQuotes_part (text : List Char) : stripQuotes text <:+: text :=
  (List.rdropWhile_prefix _ _).isInfix.trans (List.dropWhile_suffix _).isInfix

/-- Stripping quotes takes no backslash. -/
theorem count_stripQuotes (text : List Char) : (stripQuotes text).count '\\' = text.count '\\' := by
  have hquotes : ∀ {cs : List Char}, (∀ c ∈ cs, isQuoteMark c = true) → cs.count '\\' = 0 := by
    intro cs hcs
    refine List.count_eq_zero.mpr fun hmem => ?_
    exact absurd (hcs _ hmem) (by decide)
  have hfront : (text.takeWhile isQuoteMark).count '\\' + (text.dropWhile isQuoteMark).count '\\' =
      text.count '\\' := by
    rw [← List.count_append, List.takeWhile_append_dropWhile]
  have hback : ((text.dropWhile isQuoteMark).rdropWhile isQuoteMark).count '\\' +
      ((text.dropWhile isQuoteMark).rtakeWhile isQuoteMark).count '\\' =
      (text.dropWhile isQuoteMark).count '\\' := by
    rw [← List.count_append, List.rdropWhile_append_rtakeWhile]
  rw [hquotes fun c hc => List.mem_takeWhile_imp hc] at hfront
  rw [hquotes fun c hc => List.mem_rtakeWhile_imp hc] at hback
  unfold stripQuotes
  omega

/-- A text of ASCII characters is a name if its characters are the name's bytes. -/
theorem fsencode_eq_iff {read : List Char} (h : ∀ c ∈ read, c.toNat < 128) :
    fsencode read = name ↔ read = name.map char := by
  have hall : ∀ n < 128, String.utf8EncodeChar (Char.ofNat n) = [UInt8.ofNat n] ∧
      char (UInt8.ofNat n) = Char.ofNat n := by decide +kernel
  have hbyte : ∀ c ∈ read, String.utf8EncodeChar c = [UInt8.ofNat c.toNat] ∧
      char (UInt8.ofNat c.toNat) = c := by
    intro c hc
    have hn := hall c.toNat (h c hc)
    rwa [Char.ofNat_toNat] at hn
  have hencode : fsencode read = read.map fun c => UInt8.ofNat c.toNat := by
    rw [fsencode, ← List.flatMap_singleton' (read.map _), List.flatMap_map]
    exact List.flatMap_congr fun c hc => (hbyte c hc).1
  rw [hencode]
  constructor
  · rintro rfl
    rw [List.map_map]
    exact (List.map_id read).symm.trans (List.map_congr_left fun c hc => (hbyte c hc).2.symm)
  · rintro rfl
    rw [List.map_map]
    refine (List.map_congr_left fun b _ => ?_).trans (List.map_id _)
    rw [Function.comp_apply, toNat_char, UInt8.ofNat_toNat, id]

/-- The text is read as the name. -/
def ReadAs (text : List Char) (name : List Byte) : Prop := ∃ read, pathPart text = some read ∧ fsencode read = name

theorem stripQuotes_eq_self {text : List Char} (h : '"' ∉ text) : stripQuotes text = text := by
  have hdrop : text.dropWhile isQuoteMark = text := by
    refine List.dropWhile_eq_self_iff.mpr fun hpos hhead => h ?_
    exact beq_iff_eq.mp hhead ▸ List.getElem_mem hpos
  rw [stripQuotes, hdrop, List.rdropWhile_eq_self_iff]
  intro hne hlast
  exact h (beq_iff_eq.mp hlast ▸ List.getLast_mem hne)

theorem stripQuotes_quoted {text : List Char} (h : '"' ∉ text) (hne : text ≠ []) :
    stripQuotes ('"' :: text ++ ['"']) = text := by
  obtain ⟨c, cs, rfl⟩ := List.exists_cons_of_ne_nil hne
  have hc : ¬ isQuoteMark c = true := fun heq => h (beq_iff_eq.mp heq ▸ List.mem_cons_self)
  have hself := stripQuotes_eq_self h
  rw [stripQuotes, List.dropWhile_cons_of_neg hc] at hself
  rw [stripQuotes, List.cons_append, List.dropWhile_cons_of_pos rfl, List.cons_append,
    List.dropWhile_cons_of_neg hc, ← List.cons_append, List.rdropWhile_concat_pos _ _ _ rfl, hself]

/-- A text that stripping leaves as it is has no white space at its ends. -/
theorem bare_of_length {text : List Char} (hne : text ≠ []) (h : text.length ≤ (stripLine text).length) :
    Bare text := by
  rcases blank_or_bare text with hblank | ⟨before, bare, after, rfl, hbefore, hbare, hafter⟩
  · rw [stripLine_blank hblank] at h
    exact absurd (List.length_eq_zero_iff.mp (Nat.le_zero.mp h)) hne
  · rw [stripLine_bare hbefore hbare hafter, List.length_append, List.length_append] at h
    have hb : before = [] := List.length_eq_zero_iff.mp (by omega)
    have ha : after = [] := List.length_eq_zero_iff.mp (by omega)
    rw [hb, ha, List.append_nil]
    exact hbare

theorem Bare.stripLine_eq (h : Bare text) : stripLine text = text := by
  have hnil : ∀ c ∈ ([] : List Char), isSpace c = true := fun _ hc => absurd hc List.not_mem_nil
  have hstrip := stripLine_bare hnil h hnil
  rwa [List.append_nil] at hstrip

theorem stripLine_part (text : List Char) : stripLine text <:+: text :=
  (List.rdropWhile_prefix _ _).isInfix.trans (List.dropWhile_suffix _).isInfix

/-- **A name is read as it is** if and only if nothing in it is escaped, it has no arrow, and what is written for
it has no white space at its ends. -/
theorem readAs_quote (hne : name ≠ []) : ReadAs (stripLine (quote spaces name)) name ↔
    (∀ b ∈ name, isEscaped b = false) ∧ ¬ arrow <:+: name.map char ∧ Bare (quote spaces name) := by
  constructor
  · rintro ⟨read, hpart, hread⟩
    have hread' : stripQuotes (lastPiece [] (stripLine (quote spaces name))) = read := by
      unfold pathPart at hpart
      dsimp only at hpart
      split_ifs at hpart
      exact Option.some.inj hpart
    have hsub : ∀ c ∈ read, IsPlain c := by
      intro c hc
      have hpiece := (stripQuotes_part _).mem (hread' ▸ hc)
      exact mem_quote ((stripLine_part _).mem (mem_lastPiece [] _ hpiece))
    rw [fsencode_eq_iff fun c hc => (hsub c hc).ascii] at hread
    have hno : ¬ arrow <:+: name.map char := by
      intro harrow
      have hpiece := harrow.trans (hread ▸ hread' ▸ stripQuotes_part _)
      exact lastPiece_no_arrow [] _ (fun before _ _ => Nat.zero_le before.length) hpiece
    have hquote : ¬ arrow <:+: stripLine (quote spaces name) := fun h =>
      hno (arrow_quote (h.trans (stripLine_part _)))
    rw [lastPiece_of_notMem hquote, List.nil_append] at hread'
    have hbare : Bare (quote spaces name) := by
      cases hq : isQuoted spaces name with
      | true => exact bare_of_quoted hq
      | false =>
        -- nothing was added, so nothing can have been stripped
        refine bare_of_length (quote_ne_nil hne) ?_
        have hlength := (stripQuotes_part (stripLine (quote spaces name))).length_le
        rw [hread', hread, List.length_map] at hlength
        rw [quote_of_not_quoted hq, flatMap_escape (isEscaped_of_not_quoted hq)] at hlength ⊢
        rwa [List.length_map]
    rw [hbare.stripLine_eq] at hread'
    have hcount := @count_quote spaces name
    rw [← count_stripQuotes, hread', hread] at hcount
    refine ⟨fun b hb => ?_, hno, hbare⟩
    have hzero : name.countP isEscaped = 0 := by omega
    exact Bool.eq_false_iff.mpr (List.countP_eq_zero.mp hzero b hb)
  · rintro ⟨hplain, hno, hbare⟩
    have hmark : '"' ∉ name.map char := by
      intro hmem
      obtain ⟨b, hb, hchar⟩ := List.mem_map.mp hmem
      have hcode := congrArg Char.toNat hchar
      rw [toNat_char] at hcode
      have hquote : b = 0x22 := UInt8.toNat_inj.mp hcode
      have hb' := hplain b hb
      rw [hquote] at hb'
      cases hb'
    have hne' : name.map char ≠ [] := by simpa using hne
    have hstrip : stripQuotes (quote spaces name) = name.map char := by
      cases hq : isQuoted spaces name with
      | true => rw [quote, if_pos hq, flatMap_escape hplain, stripQuotes_quoted hmark hne']
      | false => rw [quote_of_not_quoted hq, flatMap_escape hplain, stripQuotes_eq_self hmark]
    refine ⟨name.map char, ?_, (fsencode_eq_iff fun c hc => ?_).mpr rfl⟩
    · rw [pathPart, hbare.stripLine_eq, lastPiece_of_notMem fun h => hno (arrow_quote h), List.nil_append,
        hstrip]
      exact if_neg hne'
    · obtain ⟨b, hb, rfl⟩ := List.mem_map.mp hc
      exact (isPlain_escape b _ (by rw [escape_plain (hplain b hb)]; exact List.mem_singleton_self _)).ascii

/-! ### Entries -/

/-- Nothing in the name is escaped, it has no arrow, and a space at an end of it is quoted. -/
def Plain (spaces : Bool) (e : Entry) : Prop :=
  (∀ b ∈ e.path.bytes, isEscaped b = false) ∧ ¬ arrow <:+: e.path.bytes.map char ∧
    match e with
    | .tracked _ _ _ => True
    | .untracked path => spaces = false → path.bytes.head? ≠ some 0x20 ∧ path.bytes.getLast? ≠ some 0x20

theorem bare_renamed (orig : Option PathName) (hne : name ≠ []) : Bare (renamed orig ++ quote true name) := by
  have hquote := bare_quote hne
  cases orig with
  | none => exact hquote
  | some old =>
    have hold := bare_quote old.ne_nil
    obtain ⟨c, cs, hcs⟩ := List.exists_cons_of_ne_nil hold.ne_nil
    have hline : renamed (some old) ++ quote true name = c :: (cs ++ arrow ++ quote true name) := by
      rw [renamed, hcs]
      rfl
    rw [hline]
    exact hquote.append (hold.head c (by rw [hcs]; rfl)) _

theorem readAs_renamed (orig : Option PathName) (hne : name ≠ []) :
    ReadAs (stripLine (renamed orig ++ quote true name)) name ↔ ReadAs (stripLine (quote true name)) name := by
  rw [(bare_renamed orig hne).stripLine_eq, (bare_quote hne).stripLine_eq]
  cases orig with
  | none => rfl
  | some old =>
    unfold ReadAs pathPart
    rw [renamed, List.append_assoc, lastPiece_append _ (closed_quote old.bytes)]

/-- A name that is not quoted is bare if no space is at its ends. -/
theorem bare_iff (path : PathName) (hplain : ∀ b ∈ path.bytes, isEscaped b = false) :
    Bare (quote false path.bytes) ↔ path.bytes.head? ≠ some 0x20 ∧ path.bytes.getLast? ≠ some 0x20 := by
  have hquoted : isQuoted false path.bytes = false := by
    refine List.any_eq_false.mpr fun b hb => ?_
    rw [hplain b hb]
    exact Bool.false_ne_true
  have hspace : ∀ b ∈ path.bytes, (isSpace (char b) = false ↔ b ≠ 0x20) := by
    intro b hb
    constructor
    · rintro h rfl
      cases h
    · intro h
      have hmem : char b ∈ escape b := by rw [escape_plain (hplain b hb)]; exact List.mem_singleton_self _
      refine notSpace (isPlain_escape b _ hmem).blank fun hchar => h ?_
      have hcode := congrArg Char.toNat hchar
      rw [toNat_char] at hcode
      exact UInt8.toNat_inj.mp hcode
  rw [quote_of_not_quoted hquoted, flatMap_escape hplain]
  constructor
  · rintro ⟨-, hhead, hlast⟩
    constructor
    · intro h
      have hc := hhead (char 0x20) (by rw [List.head?_map, h]; rfl)
      cases hc
    · intro h
      have hc := hlast (char 0x20) (by rw [List.getLast?_map, h]; rfl)
      cases hc
  · rintro ⟨hhead, hlast⟩
    refine ⟨by simpa using path.ne_nil, fun c hc => ?_, fun c hc => ?_⟩
    · rw [List.head?_map, Option.mem_def, Option.map_eq_some_iff] at hc
      obtain ⟨b, hb, rfl⟩ := hc
      exact (hspace b (List.mem_of_mem_head? hb)).mpr fun heq => hhead (heq ▸ hb)
    · rw [List.getLast?_map, Option.mem_def, Option.map_eq_some_iff] at hc
      obtain ⟨b, hb, rfl⟩ := hc
      exact (hspace b (List.mem_of_mem_getLast? hb)).mpr fun heq => hlast (heq ▸ hb)

theorem entryLine_read (spaces : Bool) (e : Entry) :
    (changedFile (entryLine spaces e)).map fsencode = some e.path.bytes ↔ Plain spaces e := by
  rw [Option.map_eq_some_iff]
  cases e with
  | tracked status orig path =>
    rw [entryLine, changedFile_line status.isStatus]
    refine (readAs_renamed orig path.ne_nil).trans ((readAs_quote path.ne_nil).trans ?_)
    exact and_congr_right fun _ => and_congr_right fun _ => iff_of_true (bare_quote path.ne_nil) trivial
  | untracked path =>
    rw [entryLine, changedFile_line ⟨by decide, by decide, by decide⟩]
    refine (readAs_quote path.ne_nil).trans (and_congr_right fun hplain => and_congr_right fun _ => ?_)
    cases spaces with
    | true => exact iff_of_true (bare_quote path.ne_nil) fun h => absurd h (by decide)
    | false => exact (bare_iff path hplain).trans ⟨fun h _ => h, fun h => h rfl⟩

theorem mem_entryLine {spaces : Bool} {e : Entry} {c : Char} (h : c ∈ entryLine spaces e) : isBreak c = false := by
  have hletters : ∀ c ∈ statusLetters, isBreak c = false := Lib.Quote.forall_chars (by decide)
  cases e with
  | tracked status orig path =>
    simp only [entryLine, List.mem_cons, List.mem_append] at h
    rcases h with rfl | rfl | rfl | horig | hpath
    · exact hletters _ status.x_mem
    · exact hletters _ status.y_mem
    · decide
    · cases orig with
      | none => exact absurd horig List.not_mem_nil
      | some old =>
        rw [renamed, List.mem_append] at horig
        refine horig.elim (fun hold => (mem_quote hold).oneLine) fun harrow => ?_
        have hall : ∀ c ∈ arrow, isBreak c = false := Lib.Quote.forall_chars (by decide)
        exact hall c harrow
    · exact (mem_quote hpath).oneLine
  | untracked path =>
    simp only [entryLine, List.mem_cons] at h
    rcases h with rfl | rfl | rfl | hpath
    · decide
    · decide
    · decide
    · exact (mem_quote hpath).oneLine

/-- The letters of a status are not all blank. -/
theorem exists_letter (spaces : Bool) (e : Entry) : ∃ c ∈ entryLine spaces e, isSpace c = false := by
  cases e with
  | tracked status orig path =>
    by_cases hx : status.x = ' '
    · refine ⟨status.y, by simp [entryLine], notSpace status.isStatus.y_blank (status.isStatus.not_blank hx)⟩
    · exact ⟨status.x, by simp [entryLine], notSpace status.isStatus.x_blank hx⟩
  | untracked path => exact ⟨'?', by simp [entryLine], by decide⟩

theorem gitChangedFiles_porcelain (spaces : Bool) (entries : List Entry) :
    gitChangedFiles (some (porcelain spaces entries)) =
      (entries.map (entryLine spaces)).filterMap changedFile := by
  have hlines : splitlines (porcelain spaces entries) = entries.map (entryLine spaces) := by
    refine splitlines_unlines fun line hline c hc => ?_
    obtain ⟨e, -, rfl⟩ := List.mem_map.mp hline
    exact mem_entryLine hc
  rw [gitChangedFiles, hlines]
  cases entries with
  | nil => rfl
  | cons e entries =>
    refine if_neg fun hnil => ?_
    obtain ⟨c, hc, hspace⟩ := exists_letter spaces e
    rcases blank_or_bare (porcelain spaces (e :: entries)) with hblank | ⟨_, _, _, heq, hbefore, hbare, hafter⟩
    · have hin : c ∈ porcelain spaces (e :: entries) :=
        List.mem_append_left _ (List.mem_append_left _ hc)
      rw [hblank c hin] at hspace
      cases hspace
    · rw [heq, stripLine_bare hbefore hbare hafter] at hnil
      exact hbare.ne_nil hnil

/-- **The names of all changed files are returned as they are** if and only if they are plain. -/
theorem exact_iff (spaces : Bool) (entries : List Entry) :
    Exact spaces entries ↔ ∀ e ∈ entries, Plain spaces e := by
  rw [Exact, gitChangedFiles_porcelain, List.map_filterMap, List.filterMap_map, filterMap_eq_map_iff]
  exact forall₂_congr fun e _ => entryLine_read spaces e

/-- A file whose name ends in `é`. -/
theorem escaped_name_lost : ¬ ∀ (spaces : Bool) (entries : List Entry), Exact spaces entries := by
  intro hall
  have hexact := hall true [.untracked ⟨[0x63, 0xc3, 0xa9], by decide, by decide⟩]
  revert hexact
  unfold Exact
  decide +kernel

end ControlPlane.Workspace.GitStatus
