import ControlPlane.Lib.Text
import Mathlib.Data.List.Chain

/-! # File paths of the benchmark

`normalizeFilePath` strips a path, turns its backslashes, drops `./` in front of it as often as it stands there, and
then makes one slash of several and drops those at the ends.

The last two steps can put `./` in front again, and the first is not repeated: `/./a` becomes `./a`. A path is
`Plain` if that does not happen. Then the result is a normal form (`normalize_normal`), and spellings that differ in
`./` and slashes in front and in repeated slashes are the same path (`normalizeFilePath_canonical`). -/

namespace ControlPlane.Benchmark.Protocol

open ControlPlane.Lib.Text

/-! ### The steps -/

/-- `.replace("\\", "/")`. -/
def turn (cs : List Char) : List Char := cs.map fun c => if c = '\\' then '/' else c

/-- `while normalized.startswith("./"): normalized = normalized[2:]`. -/
def dropDots : List Char → List Char
  | '.' :: '/' :: cs => dropDots cs
  | cs => cs

/-- `re.sub(r"/+", "/", ...)`: of each run of slashes the last one stays. -/
def collapse : List Char → List Char
  | [] => []
  | c :: cs => if c = '/' ∧ cs.head? = some '/' then collapse cs else c :: collapse cs

/-- `.strip("/")`. -/
def stripSlashes (cs : List Char) : List Char := (cs.dropWhile (· == '/')).rdropWhile (· == '/')

def normalizeFilePath (value : String) : String :=
  String.ofList (stripSlashes (collapse (dropDots (turn (strip value).toList))))

/-- A text starts with `./`. -/
def Dotted (cs : List Char) : Prop := ∃ rest, cs = '.' :: '/' :: rest

/-! ### Slashes -/

/-- No slash follows a slash. -/
def Single (cs : List Char) : Prop := cs.IsChain fun a b => ¬(a = '/' ∧ b = '/')

theorem collapse_kept {c : Char} {cs : List Char} (h : ¬(c = '/' ∧ cs.head? = some '/')) :
    collapse (c :: cs) = c :: collapse cs := by rw [collapse, if_neg h]

theorem collapse_dropped {cs : List Char} (h : cs.head? = some '/') : collapse ('/' :: cs) = collapse cs := by
  rw [collapse, if_pos ⟨rfl, h⟩]

theorem head?_collapse : ∀ cs, (collapse cs).head? = cs.head?
  | [] => rfl
  | c :: cs => by
    rw [collapse]
    by_cases h : c = '/' ∧ cs.head? = some '/'
    · rw [if_pos h, head?_collapse cs, h.2, h.1]
      rfl
    · rw [if_neg h]
      rfl

theorem single_collapse : ∀ cs, Single (collapse cs)
  | [] => List.IsChain.nil
  | c :: cs => by
    have ih := single_collapse cs
    rw [collapse]
    by_cases h : c = '/' ∧ cs.head? = some '/'
    · rwa [if_pos h]
    · rw [if_neg h]
      refine List.isChain_cons.mpr ⟨fun b hb hslash => h ⟨hslash.1, ?_⟩, ih⟩
      rw [head?_collapse, Option.mem_def, hslash.2] at hb
      exact hb

/-- Single slashes stay. -/
theorem collapse_of_single : ∀ {cs}, Single cs → collapse cs = cs
  | [], _ => rfl
  | c :: cs, h => by
    obtain ⟨hhead, hrest⟩ := List.isChain_cons.mp h
    have hnot : ¬(c = '/' ∧ cs.head? = some '/') := fun hc => hhead '/' hc.2 ⟨hc.1, rfl⟩
    rw [collapse, if_neg hnot, collapse_of_single hrest]

/-- A slash in front is not seen after the strip. -/
theorem stripSlashes_slash (cs : List Char) : stripSlashes (collapse ('/' :: cs)) = stripSlashes (collapse cs) := by
  rw [collapse]
  by_cases h : '/' = '/' ∧ cs.head? = some '/'
  · rw [if_pos h]
  · rw [if_neg h]
    rfl

theorem stripSlashes_slashes (n : ℕ) (cs : List Char) :
    stripSlashes (collapse (List.replicate n '/' ++ cs)) = stripSlashes (collapse cs) := by
  induction n with
  | zero => rfl
  | succ n ih => rw [List.replicate_succ, List.cons_append, stripSlashes_slash, ih]

/-- What `stripSlashes` leaves has no slash at its ends, and is a part of the text. -/
theorem stripSlashes_spec (cs : List Char) : stripSlashes cs <:+: cs ∧ (stripSlashes cs).head? ≠ some '/' ∧
    (stripSlashes cs).getLast? ≠ some '/' := by
  have hpre := List.rdropWhile_prefix (· == '/') (l := cs.dropWhile (· == '/'))
  refine ⟨hpre.isInfix.trans (List.dropWhile_suffix _).isInfix, fun hhead => ?_, fun hlast => ?_⟩
  · have hdrop : (cs.dropWhile (· == '/')).head? = some '/' := by
      obtain ⟨rest, hrest⟩ := hpre
      rw [← hrest, List.head?_append, show (List.rdropWhile (· == '/') (cs.dropWhile (· == '/'))).head? =
        some '/' from hhead]
      rfl
    have hnot := List.head?_dropWhile_not (· == '/') cs
    rw [hdrop] at hnot
    exact absurd hnot (by decide)
  · have hne : stripSlashes cs ≠ [] := by
      intro h
      rw [h] at hlast
      cases hlast
    have hnot := List.rdropWhile_last_not (· == '/') (cs.dropWhile (· == '/')) hne
    rw [List.getLast?_eq_getLast_of_ne_nil hne, Option.some.injEq] at hlast
    exact hnot (beq_iff_eq.mpr hlast)

theorem stripSlashes_eq_self {cs : List Char} (h1 : cs.head? ≠ some '/') (h2 : cs.getLast? ≠ some '/') :
    stripSlashes cs = cs := by
  have hdrop : cs.dropWhile (· == '/') = cs := by
    cases cs with
    | nil => rfl
    | cons c cs => exact List.dropWhile_cons_of_neg fun hc => h1 (congrArg some (beq_iff_eq.mp hc))
  unfold stripSlashes
  rw [hdrop, List.rdropWhile_eq_self_iff]
  intro hne hslash
  exact h2 ((List.getLast?_eq_getLast_of_ne_nil hne).trans (congrArg some (beq_iff_eq.mp hslash)))

theorem getLast?_collapse : ∀ cs, (collapse cs).getLast? = cs.getLast?
  | [] => rfl
  | [c] => by
    rw [collapse, if_neg fun h => nomatch h.2]
    rfl
  | c :: d :: cs => by
    have ih := getLast?_collapse (d :: cs)
    have hhead := head?_collapse (d :: cs)
    rw [collapse, List.getLast?_cons_cons, ← ih]
    by_cases h : c = '/' ∧ (d :: cs).head? = some '/'
    · rw [if_pos h]
    · rw [if_neg h]
      cases hcollapse : collapse (d :: cs) with
      | nil =>
        rw [hcollapse] at hhead
        cases hhead
      | cons e es => rw [List.getLast?_cons_cons]

theorem dropWhile_collapse : ∀ cs, (collapse cs).dropWhile (· == '/') = collapse (cs.dropWhile (· == '/'))
  | [] => rfl
  | c :: cs => by
    have ih := dropWhile_collapse cs
    by_cases hc : c = '/'
    · subst hc
      have hdrop : ('/' :: cs).dropWhile (· == '/') = cs.dropWhile (· == '/') := rfl
      rw [hdrop, ← ih]
      by_cases h : cs.head? = some '/'
      · rw [collapse_dropped h]
      · rw [collapse_kept fun hc => h hc.2]
        rfl
    · have hstop : ∀ ds : List Char, (c :: ds).dropWhile (· == '/') = c :: ds := fun ds =>
        List.dropWhile_cons_of_neg fun h => hc (beq_iff_eq.mp h)
      have hkept : collapse (c :: cs) = c :: collapse cs := collapse_kept fun h => hc h.1
      rw [hkept, hstop, hstop, hkept]

theorem collapse_slashes : ∀ n, collapse (List.replicate (n + 1) '/') = ['/']
  | 0 => rfl
  | n + 1 => by rw [List.replicate_succ, collapse_dropped rfl, collapse_slashes n]

/-- Slashes at the end become one. -/
theorem collapse_append_slashes (n : ℕ) : ∀ {cs : List Char}, cs.getLast? ≠ some '/' →
    collapse (cs ++ List.replicate (n + 1) '/') = collapse cs ++ ['/']
  | [], _ => collapse_slashes n
  | [c], h => by
    have hc : c ≠ '/' := fun hc => h (congrArg some hc)
    have hkept : ∀ ds, collapse (c :: ds) = c :: collapse ds := fun ds => collapse_kept fun h => hc h.1
    rw [List.cons_append, List.nil_append, hkept, collapse_slashes, hkept]
    rfl
  | c :: d :: cs, h => by
    have ih := collapse_append_slashes n (by rwa [List.getLast?_cons_cons] at h : (d :: cs).getLast? ≠ some '/')
    rw [List.cons_append]
    by_cases hcd : c = '/' ∧ d = '/'
    · obtain ⟨rfl, rfl⟩ := hcd
      rw [List.cons_append, collapse_dropped rfl, ← List.cons_append, ih, @collapse_dropped ('/' :: cs) rfl]
    · have hkept : ∀ ds, collapse (c :: d :: ds) = c :: collapse (d :: ds) := fun ds =>
        collapse_kept fun h => hcd ⟨h.1, Option.some.inj h.2⟩
      rw [List.cons_append, hkept, ← List.cons_append, ih, hkept, List.cons_append]

/-- What is collapsed first may as well be collapsed last. -/
theorem stripSlashes_collapse (cs : List Char) : stripSlashes (collapse cs) = collapse (stripSlashes cs) := by
  unfold stripSlashes
  rw [dropWhile_collapse]
  generalize cs.dropWhile (· == '/') = ds
  have hsplit : ds = ds.rdropWhile (· == '/') ++ List.replicate (ds.rtakeWhile (· == '/')).length '/' := by
    conv_lhs => rw [← List.rdropWhile_append_rtakeWhile (p := (· == '/')) (l := ds)]
    refine congrArg _ (List.eq_replicate_iff.mpr ⟨rfl, fun c hc => ?_⟩)
    exact beq_iff_eq.mp (List.mem_rtakeWhile_imp (p := (· == '/')) hc)
  have hlast : (ds.rdropWhile (· == '/')).getLast? ≠ some '/' := by
    intro h
    have hne : ds.rdropWhile (· == '/') ≠ [] := by
      intro hnil
      rw [hnil] at h
      cases h
    rw [List.getLast?_eq_getLast_of_ne_nil hne, Option.some.injEq] at h
    exact List.rdropWhile_last_not (· == '/') ds hne (beq_iff_eq.mpr h)
  generalize ds.rdropWhile (· == '/') = es at hsplit hlast
  generalize (ds.rtakeWhile (· == '/')).length = n at hsplit
  have hkept : (collapse es).rdropWhile (· == '/') = collapse es := by
    rw [List.rdropWhile_eq_self_iff]
    intro hne hslash
    have hlast' := getLast?_collapse es
    rw [List.getLast?_eq_getLast_of_ne_nil hne, beq_iff_eq.mp hslash] at hlast'
    exact hlast hlast'.symm
  rw [hsplit]
  cases n with
  | zero => rw [List.replicate_zero, List.append_nil, hkept]
  | succ n => rw [collapse_append_slashes n hlast, List.rdropWhile_concat_pos (· == '/') _ _ rfl, hkept]

/-! ### Normal forms -/

/-- There is no white space at the ends. -/
def Trimmed (cs : List Char) : Prop :=
  (∀ c, cs.head? = some c → isSpace c = false) ∧ ∀ c, cs.getLast? = some c → isSpace c = false

/-- A normal form: no `./` in front, no white space and no slashes at the ends, single slashes. -/
structure Normal (cs : List Char) : Prop where
  dots : ¬Dotted cs
  trimmed : Trimmed cs
  head : cs.head? ≠ some '/'
  last : cs.getLast? ≠ some '/'
  single : Single cs
  turned : '\\' ∉ cs

/-- What is left of a path before the slashes are collapsed. -/
def inner (value : String) : List Char := stripSlashes (dropDots (turn (strip value).toList))

/-- When the `./` and the slashes around a path are gone, no `./` and no white space has come to its ends. -/
def Plain (value : String) : Prop := ¬Dotted (inner value) ∧ Trimmed (inner value)

theorem strip_trimmed {s : String} (h : Trimmed s.toList) : strip s = s := strip_eq_self h.1 h.2

theorem turn_of_notMem {cs : List Char} (h : '\\' ∉ cs) : turn cs = cs := by
  refine (List.map_congr_left fun c hc => if_neg ?_).trans (List.map_id cs)
  rintro rfl
  exact h hc

theorem notMem_turn (cs : List Char) : '\\' ∉ turn cs := by
  intro h
  obtain ⟨c, -, hc⟩ := List.mem_map.mp h
  by_cases heq : c = '\\'
  · rw [if_pos heq] at hc
    exact absurd hc (by decide)
  · rw [if_neg heq] at hc
    exact heq hc

theorem dropDots_of_not {cs : List Char} (h : ¬Dotted cs) : dropDots cs = cs := by
  unfold dropDots
  split
  · exact absurd ⟨_, rfl⟩ h
  · rfl

theorem dropDots_suffix : ∀ cs, dropDots cs <:+ cs
  | [] => List.suffix_refl _
  | [c] => ⟨[], dropDots_of_not fun ⟨_, h⟩ => nomatch h⟩
  | c :: d :: cs => by
    by_cases h : Dotted (c :: d :: cs)
    · obtain ⟨rest, hrest⟩ := h
      cases hrest
      rw [dropDots]
      exact (dropDots_suffix cs).trans ((List.suffix_cons _ _).trans (List.suffix_cons _ _))
    · exact ⟨[], dropDots_of_not h⟩

theorem collapse_sublist : ∀ cs, (collapse cs).Sublist cs
  | [] => List.Sublist.slnil
  | c :: cs => by
    rw [collapse]
    by_cases h : c = '/' ∧ cs.head? = some '/'
    · rw [if_pos h]
      exact (collapse_sublist cs).cons c
    · rw [if_neg h]
      exact (collapse_sublist cs).cons_cons c

/-- The result in terms of what is left of the path. -/
theorem toList_normalize (s : String) : (normalizeFilePath s).toList = collapse (inner s) := by
  rw [normalizeFilePath, String.toList_ofList, stripSlashes_collapse]
  rfl

/-- **A normal form is kept.** -/
theorem normalize_normal {s : String} (h : Normal s.toList) : normalizeFilePath s = s := by
  have hinner : inner s = s.toList := by
    rw [inner, strip_trimmed h.trimmed, turn_of_notMem h.turned, dropDots_of_not h.dots,
      stripSlashes_eq_self h.head h.last]
  rw [← String.ofList_toList (s := normalizeFilePath s), toList_normalize, hinner, collapse_of_single h.single,
    String.ofList_toList]

theorem dotted_collapse {cs : List Char} (h : Dotted (collapse cs)) : Dotted cs := by
  obtain ⟨rest, hrest⟩ := h
  have hhead := head?_collapse cs
  rw [hrest] at hhead
  cases cs with
  | nil => cases hhead
  | cons c cs =>
    cases hhead
    rw [collapse_kept fun h => absurd h.1 (by decide)] at hrest
    have hnext := head?_collapse cs
    rw [(List.cons.inj hrest).2] at hnext
    cases cs with
    | nil => cases hnext
    | cons d cs =>
      cases hnext
      exact ⟨cs, rfl⟩

/-- What holds of the result for every path. -/
theorem normalize_slashes (s : String) : (normalizeFilePath s).toList.head? ≠ some '/' ∧
    (normalizeFilePath s).toList.getLast? ≠ some '/' ∧ Single (normalizeFilePath s).toList ∧
    '\\' ∉ (normalizeFilePath s).toList := by
  obtain ⟨hpart, hhead, hlast⟩ := stripSlashes_spec (dropDots (turn (strip s).toList))
  rw [toList_normalize, head?_collapse, getLast?_collapse]
  refine ⟨hhead, hlast, single_collapse _, fun h => ?_⟩
  have hmem := hpart.subset ((collapse_sublist _).subset h)
  exact notMem_turn _ ((dropDots_suffix _).subset hmem)

/-- **The result of a plain path is a normal form.** -/
theorem normal_of_plain {s : String} (h : Plain s) : Normal (normalizeFilePath s).toList := by
  obtain ⟨hhead, hlast, hsingle, hturned⟩ := normalize_slashes s
  refine ⟨?_, ?_, hhead, hlast, hsingle, hturned⟩
  · rw [toList_normalize]
    exact fun hdots => h.1 (dotted_collapse hdots)
  · rw [toList_normalize, Trimmed, head?_collapse, getLast?_collapse]
    exact h.2

/-! ### Spellings -/

/-- `./`, several times. -/
def dots (n : ℕ) : List Char := (List.replicate n ['.', '/']).flatten

/-- The second path repeats slashes of the first. -/
inductive Repeats : List Char → List Char → Prop where
  | nil : Repeats [] []
  | cons (c : Char) {cs ds : List Char} : Repeats cs ds → Repeats (c :: cs) (c :: ds)
  | again {cs ds : List Char} : Repeats ('/' :: cs) ds → Repeats ('/' :: cs) ('/' :: ds)

theorem Repeats.refl : ∀ cs, Repeats cs cs
  | [] => .nil
  | c :: cs => .cons c (Repeats.refl cs)

theorem Repeats.head? {cs ds : List Char} (h : Repeats cs ds) : ds.head? = cs.head? := by
  cases h with
  | nil => rfl
  | cons => rfl
  | again => rfl

theorem Repeats.getLast? {cs ds : List Char} (h : Repeats cs ds) : ds.getLast? = cs.getLast? := by
  induction h with
  | nil => rfl
  | @cons c cs ds h ih =>
    have hhead := h.head?
    cases cs with
    | nil =>
      cases ds with
      | nil => rfl
      | cons d ds => cases hhead
    | cons e es =>
      cases ds with
      | nil => cases hhead
      | cons d ds => rw [List.getLast?_cons_cons, List.getLast?_cons_cons, ih]
  | @again cs ds h ih =>
    have hhead := h.head?
    cases ds with
    | nil => cases hhead
    | cons d ds => rw [List.getLast?_cons_cons, ih]

theorem Repeats.collapse {cs ds : List Char} (h : Repeats cs ds) :
    Protocol.collapse ds = Protocol.collapse cs := by
  induction h with
  | nil => rfl
  | cons c h ih => rw [Protocol.collapse, Protocol.collapse, h.head?, ih]
  | again h ih => rw [collapse_dropped h.head?, ih]

theorem Repeats.turn {cs ds : List Char} (h : Repeats cs ds) : Repeats (turn cs) (Protocol.turn ds) := by
  induction h with
  | nil => exact .nil
  | cons c _ ih => exact .cons _ ih
  | again _ ih => exact .again ih

theorem Repeats.not_dotted {cs ds : List Char} (h : Repeats cs ds) (hcs : ¬Dotted cs) : ¬Dotted ds := by
  rintro ⟨rest, rfl⟩
  cases h with
  | @cons _ cs _ h =>
    have hhead := h.head?
    cases cs with
    | nil => cases hhead
    | cons c cs =>
      cases hhead
      exact hcs ⟨cs, rfl⟩

theorem dots_succ (n : ℕ) : dots (n + 1) = '.' :: '/' :: dots n := by
  rw [dots, List.replicate_succ, List.flatten_cons]
  rfl

theorem turn_dots (n : ℕ) (cs : List Char) : turn (dots n ++ cs) = dots n ++ turn cs := by
  induction n with
  | zero => rfl
  | succ n ih =>
    rw [dots_succ]
    exact congrArg (fun ds => '.' :: '/' :: ds) ih

theorem turn_slashes (n : ℕ) (cs : List Char) :
    turn (List.replicate n '/' ++ cs) = List.replicate n '/' ++ turn cs := by
  rw [turn, List.map_append, List.map_replicate]
  rfl

theorem dropDots_dots (n : ℕ) (cs : List Char) : dropDots (dots n ++ cs) = dropDots cs := by
  induction n with
  | zero => rfl
  | succ n ih =>
    rw [dots_succ, List.cons_append, List.cons_append, dropDots, ih]

theorem trimmed_dots {cs : List Char} (h : Trimmed cs) : ∀ n, Trimmed (dots n ++ cs)
  | 0 => h
  | n + 1 => by
    have ih := trimmed_dots h n
    rw [dots_succ, List.cons_append, List.cons_append]
    refine ⟨fun c hc => ?_, fun c hc => ?_⟩
    · cases hc
      decide
    · cases hrest : dots n ++ cs with
      | nil =>
        rw [hrest] at hc
        cases hc
        decide
      | cons d ds =>
        rw [hrest, List.getLast?_cons_cons, List.getLast?_cons_cons] at hc
        rw [hrest] at ih
        exact ih.2 c hc

theorem trimmed_slashes {cs : List Char} (h : Trimmed cs) : ∀ n, Trimmed (List.replicate n '/' ++ cs)
  | 0 => h
  | n + 1 => by
    have ih := trimmed_slashes h n
    rw [List.replicate_succ, List.cons_append]
    refine ⟨fun c hc => ?_, fun c hc => ?_⟩
    · cases hc
      decide
    · cases hrest : List.replicate n '/' ++ cs with
      | nil =>
        rw [hrest] at hc
        cases hc
        decide
      | cons d ds =>
        rw [hrest, List.getLast?_cons_cons] at hc
        rw [hrest] at ih
        exact ih.2 c hc

/-- **`./` in front does not matter.** -/
theorem normalize_dots {s t : String} (hs : Trimmed s.toList) {n : ℕ} (ht : t.toList = dots n ++ s.toList) :
    normalizeFilePath t = normalizeFilePath s := by
  have ht' : Trimmed t.toList := ht ▸ trimmed_dots hs n
  unfold normalizeFilePath
  rw [strip_trimmed hs, strip_trimmed ht', ht, turn_dots, dropDots_dots]

/-- **Neither do slashes behind it, nor repeated slashes**, if the path itself does not start with `./`. -/
theorem normalize_respelled {s t : String} (hs : Trimmed s.toList) (hdots : ¬Dotted (turn s.toList)) {n m : ℕ}
    {ds : List Char} (hds : Repeats s.toList ds) (ht : t.toList = dots n ++ (List.replicate m '/' ++ ds)) :
    normalizeFilePath t = normalizeFilePath s := by
  have hds' : Trimmed ds := by
    rw [Trimmed, hds.head?, hds.getLast?]
    exact hs
  have ht' : Trimmed t.toList := ht ▸ trimmed_dots (trimmed_slashes hds' m) n
  have hturned := hds.turn
  have hkept : dropDots (List.replicate m '/' ++ turn ds) = List.replicate m '/' ++ turn ds := by
    cases m with
    | zero => exact dropDots_of_not (hturned.not_dotted hdots)
    | succ m => exact dropDots_of_not fun ⟨_, h⟩ => nomatch h
  unfold normalizeFilePath
  rw [strip_trimmed hs, strip_trimmed ht', ht, turn_dots, dropDots_dots, turn_slashes, hkept,
    stripSlashes_slashes, hturned.collapse, dropDots_of_not hdots]

end ControlPlane.Benchmark.Protocol
