import ControlPlane.Lib.Dynamic
import ControlPlane.Lib.Occurrences

/-! # The exclude file

`install_local_excludes` puts one managed block into the exclude file of a Git repository. The file may hold any bytes:
they are read as UTF-8, with one line break for each kind, and the markers of the block are counted and looked for as
substrings.

`replace_shape`: what becomes of a text, by where the markers are. `install_raises_iff`, `install_installed` and
`install_kept` say what becomes of the file. -/

namespace ControlPlane.Workspace.Exclude

open ControlPlane.Lib.Dynamic ControlPlane.Lib.Occurrences

/-! ### The block -/

def localExcludeBegin : List Char := "# >>> ai-workflow local state >>>".toList

def localExcludeEnd : List Char := "# <<< ai-workflow local state <<<".toList

def localExcludePatterns : List (List Char) :=
  ["/ai-workspace/config/repositories.json".toList, "/ai-workspace/generated/".toList, "/ai-workspace/indexes/".toList,
    "/ai-workspace/code-review-graph/".toList, "/ai-workspace/memory/".toList, "/.code-review-graph/".toList,
    "/.ai/".toList]

/-- `_managed_block`. -/
def managedBlock : List Char :=
  localExcludeBegin ++ '\n' :: (['\n'].intercalate localExcludePatterns ++ '\n' :: (localExcludeEnd ++ ['\n']))

/-- A text without its first line break. -/
def dropBreak : List Char → List Char
  | '\n' :: text => text
  | text => text

/-- `if text and not text.endswith(suffix): text += "\n"`. -/
def pad (suffix text : List Char) : List Char := if text ≠ [] ∧ ¬ suffix <:+ text then text ++ ['\n'] else text

/-- `_replace_managed_block`. -/
def replaceManagedBlock (existing : List Char) : Py (List Char × Option String) :=
  let beginCount := count localExcludeBegin existing
  let endCount := count localExcludeEnd existing
  if beginCount ≠ endCount ∨ 1 < beginCount then .ok (existing, some "malformed_managed_block")
  else if beginCount = 0 then .ok (pad ['\n', '\n'] (pad ['\n'] existing) ++ managedBlock, none)
  else match cut localExcludeBegin existing with
    | none => .error (.valueError "substring not found")
    | some (before, _) => match cut localExcludeEnd (existing.drop before.length) with
      | none => .error (.valueError "substring not found")
      | some (_, after) => .ok (before ++ (managedBlock ++ dropBreak after), none)

/-! ### The file -/

/-- The line breaks that `read_text` makes of those of a text. -/
def universalNewlines : List Char → List Char
  | [] => []
  | '\r' :: '\n' :: text => '\n' :: universalNewlines text
  | c :: text => (if c = '\r' then '\n' else c) :: universalNewlines text

/-- The text of a file that may be missing. -/
def contentOf (file : Option ByteArray) : Py (List Char) :=
  match file with
  | none => .ok []
  | some bytes => match String.fromUTF8? bytes with
    | some text => .ok (universalNewlines text.toList)
    | none => .error (.valueError "'utf-8' codec can't decode")

def encode (text : List Char) : ByteArray := (String.ofList text).toUTF8

structure Health where
  applicable : Bool
  installed : Bool
  changed : Bool
  reason : Option String
  deriving DecidableEq

/-- What becomes of `atomic_write_text`: it may raise before the file is replaced, and after. -/
inductive Written where
  | stored
  | unwritten
  | unsynced
  deriving DecidableEq

/-- What the installation meets. -/
structure Site where
  /-- `_common_exclude_path` finds a file. -/
  repository : Bool
  readable : Bool
  written : Written
  /-- The file can be read again. -/
  rereadable : Bool

def localExcludeHealth (repository readable : Bool) (file : Option ByteArray) : Py Health :=
  if !repository then .ok ⟨false, false, false, some "not_git_repository"⟩
  else if !readable then .ok ⟨true, false, false, some "exclude_unreadable"⟩
  else do
    let content ← contentOf file
    let installed := decide (count localExcludeBegin content = 1 ∧ count localExcludeEnd content = 1 ∧
      ∀ pattern ∈ localExcludePatterns, (cut pattern content).isSome)
    return ⟨true, installed, false, if installed then none else some "managed_block_missing"⟩

/-- The file is written if its text changes. -/
def store (site : Site) (file : Option ByteArray) (existing updated : List Char) : Py (Health × Option ByteArray) :=
  if updated = existing then do
    let health ← localExcludeHealth true site.rereadable file
    return (health, file)
  else match site.written with
    | .stored => do
      let health ← localExcludeHealth true site.rereadable (some (encode updated))
      return ({ health with changed := true }, some (encode updated))
    | .unwritten => .ok (⟨true, false, false, some "exclude_write_failed"⟩, file)
    | .unsynced => .ok (⟨true, false, false, some "exclude_write_failed"⟩, some (encode updated))

/-- `install_local_excludes`: its result, and the file after it. -/
def installLocalExcludes (site : Site) (file : Option ByteArray) : Py (Health × Option ByteArray) :=
  if !site.repository then .ok (⟨false, false, false, some "not_git_repository"⟩, file)
  else if !site.readable then .ok (⟨true, false, false, some "exclude_unreadable"⟩, file)
  else do
    let existing ← contentOf file
    match ← replaceManagedBlock existing with
    | (_, some error) => return (⟨true, false, false, some error⟩, file)
    | (updated, none) => store site file existing updated

/-! ### The markers -/

/-- No marker is in the text. -/
structure Free (text : List Char) : Prop where
  begin_zero : count localExcludeBegin text = 0
  end_zero : count localExcludeEnd text = 0

theorem begin_ne : localExcludeBegin ≠ [] := by decide

theorem end_ne : localExcludeEnd ≠ [] := by decide

theorem count_begin_begin (u v : List Char) : count localExcludeBegin (u ++ (localExcludeBegin ++ v)) =
    count localExcludeBegin u + (count localExcludeBegin v + 1) := by
  have hhash : '#' ∉ localExcludeBegin.tail := by decide
  have happart : Apart localExcludeBegin u (localExcludeBegin ++ v) := apart_cons hhash u (localExcludeBegin.tail ++ v)
  rw [count_append begin_ne u happart, count_match begin_ne]

theorem count_begin_end (u v : List Char) : count localExcludeBegin (u ++ (localExcludeEnd ++ v)) =
    count localExcludeBegin u + count localExcludeBegin v := by
  have hzero : count localExcludeBegin localExcludeEnd = 0 := by decide
  have h := @count_between Char _ localExcludeBegin localExcludeEnd '#' '<' begin_ne (by decide) (by decide) (by decide)
    (by decide) u v
  rwa [hzero, Nat.zero_add] at h

theorem count_end_end (u v : List Char) : count localExcludeEnd (u ++ (localExcludeEnd ++ v)) =
    count localExcludeEnd u + (count localExcludeEnd v + 1) := by
  have hhash : '#' ∉ localExcludeEnd.tail := by decide
  have happart : Apart localExcludeEnd u (localExcludeEnd ++ v) := apart_cons hhash u (localExcludeEnd.tail ++ v)
  rw [count_append end_ne u happart, count_match end_ne]

theorem count_end_begin (u v : List Char) : count localExcludeEnd (u ++ (localExcludeBegin ++ v)) =
    count localExcludeEnd u + count localExcludeEnd v := by
  have hzero : count localExcludeEnd localExcludeBegin = 0 := by decide
  have h := @count_between Char _ localExcludeEnd localExcludeBegin '#' '>' end_ne (by decide) (by decide) (by decide)
    (by decide) u v
  rwa [hzero, Nat.zero_add] at h

/-- The markers of a text around the block. -/
theorem count_block (u v : List Char) :
    count localExcludeBegin (u ++ (managedBlock ++ v)) = count localExcludeBegin u + (1 + count localExcludeBegin v) ∧
    count localExcludeEnd (u ++ (managedBlock ++ v)) = count localExcludeEnd u + (1 + count localExcludeEnd v) := by
  have hbegin : count localExcludeBegin managedBlock = 1 := by decide +kernel
  have hend : count localExcludeEnd managedBlock = 1 := by decide +kernel
  have h1 := @count_between Char _ localExcludeBegin managedBlock '#' '\n' begin_ne (by decide) (by decide)
    (by decide +kernel) (by decide +kernel) u v
  have h2 := @count_between Char _ localExcludeEnd managedBlock '#' '\n' end_ne (by decide) (by decide)
    (by decide +kernel) (by decide +kernel) u v
  rw [hbegin] at h1
  rw [hend] at h2
  exact ⟨h1, h2⟩

/-! ### Replacing the block -/

/-- Where the end of a block is, behind its beginning. -/
theorem cut_end (r : List Char) : cut localExcludeEnd (localExcludeBegin ++ r) =
    (cut localExcludeEnd r).map fun p => (localExcludeBegin ++ p.1, p.2) := by
  have hnone : cut localExcludeEnd localExcludeBegin = none := by decide
  have hsplit : localExcludeBegin = localExcludeBegin.dropLast ++ ['>'] := by decide
  have happart : Apart localExcludeEnd localExcludeBegin r := by
    rw [hsplit]
    exact apart_concat (by decide) _ r
  exact cut_append_right happart hnone

/-- The first beginning behind a text without one. -/
theorem cut_begin {a : List Char} (ha : count localExcludeBegin a = 0) (r : List Char) :
    cut localExcludeBegin (a ++ (localExcludeBegin ++ r)) = some (a, r) := by
  have hhash : '#' ∉ localExcludeBegin.tail := by decide
  have happart : Apart localExcludeBegin a (localExcludeBegin ++ r) := apart_cons hhash a (localExcludeBegin.tail ++ r)
  rw [cut_append_right happart ((count_eq_zero begin_ne).mp ha), cut_self begin_ne, Option.map_some, List.append_nil]

/-- **What becomes of a text with one beginning.** -/
theorem replace_begin {a r : List Char} (ha : count localExcludeBegin a = 0) (hr : count localExcludeBegin r = 0)
    (hone : count localExcludeEnd a + count localExcludeEnd r = 1) :
    replaceManagedBlock (a ++ (localExcludeBegin ++ r)) = match cut localExcludeEnd r with
      | none => .error (.valueError "substring not found")
      | some (_, after) => .ok (a ++ (managedBlock ++ dropBreak after), none) := by
  have hb : count localExcludeBegin (a ++ (localExcludeBegin ++ r)) = 1 := by rw [count_begin_begin, ha, hr]
  have he : count localExcludeEnd (a ++ (localExcludeBegin ++ r)) = 1 := by rw [count_end_begin, hone]
  unfold replaceManagedBlock
  dsimp only
  rw [hb, he, if_neg (by omega), if_neg (by omega), cut_begin ha]
  dsimp only
  rw [List.drop_left, cut_end]
  cases cut localExcludeEnd r with
  | none => rfl
  | some p => rfl

/-- The end of a block is before its beginning. -/
def Reversed (existing : List Char) : Prop :=
  ∃ a m b, existing = a ++ (localExcludeEnd ++ (m ++ (localExcludeBegin ++ b))) ∧ Free a ∧ Free m ∧ Free b

/-- `a` and `b` are what a text has outside the block that it gets, or that is replaced. -/
def Outside (existing a b : List Char) : Prop :=
  (Free existing ∧ b = [] ∧ ∃ k ≤ 2, a = existing ++ List.replicate k '\n') ∨
    ∃ m after, existing = a ++ (localExcludeBegin ++ (m ++ (localExcludeEnd ++ after))) ∧ Free m ∧ b = dropBreak after

theorem pad_eq (suffix text : List Char) : ∃ k ≤ 1, pad suffix text = text ++ List.replicate k '\n' := by
  unfold pad
  by_cases h : text ≠ [] ∧ ¬ suffix <:+ text
  · exact ⟨1, le_rfl, by rw [if_pos h]; rfl⟩
  · exact ⟨0, Nat.zero_le 1, by rw [if_neg h, List.replicate_zero, List.append_nil]⟩

theorem pad_pad (text : List Char) : ∃ k ≤ 2, pad ['\n', '\n'] (pad ['\n'] text) = text ++ List.replicate k '\n' := by
  obtain ⟨k, hk, h1⟩ := pad_eq ['\n'] text
  obtain ⟨l, hl, h2⟩ := pad_eq ['\n', '\n'] (pad ['\n'] text)
  exact ⟨k + l, by omega, by rw [h2, h1, List.append_assoc, List.replicate_append_replicate]⟩

theorem count_breaks {old : List Char} (hold : old ≠ []) (hn : '\n' ∉ old) (text : List Char) (k : ℕ) :
    count old (text ++ List.replicate k '\n') = count old text := by
  induction k generalizing text with
  | zero => rw [List.replicate_zero, List.append_nil]
  | succ k ih =>
    have hone : count old ['\n'] = 0 := by
      rw [count_eq_zero hold, cut, if_neg, cut]
      · rfl
      · intro hstart
        obtain ⟨c, old', rfl⟩ := List.exists_cons_of_ne_nil hold
        exact hn (List.mem_cons.mpr (Or.inl (List.cons_prefix_cons.mp hstart).1.symm))
    have happart : Apart old text ['\n'] := apart_cons (fun h => hn (List.mem_of_mem_tail h)) text []
    have hnext := ih (text ++ ['\n'])
    rw [List.append_assoc, List.singleton_append, ← List.replicate_succ, count_append hold text happart, hone] at hnext
    exact hnext

theorem free_breaks {text : List Char} (h : Free text) (k : ℕ) : Free (text ++ List.replicate k '\n') :=
  ⟨(count_breaks begin_ne (by decide) text k).trans h.begin_zero, (count_breaks end_ne (by decide) text k).trans h.end_zero⟩

theorem free_dropBreak {text : List Char} (h : Free text) : Free (dropBreak text) := by
  unfold dropBreak
  split
  · next rest =>
    have hb := @count_append Char _ localExcludeBegin begin_ne rest ['\n']
      (@apart_concat Char localExcludeBegin '\n' (by decide) [] rest)
    have he := @count_append Char _ localExcludeEnd end_ne rest ['\n']
      (@apart_concat Char localExcludeEnd '\n' (by decide) [] rest)
    have hb' := h.begin_zero
    have he' := h.end_zero
    rw [List.singleton_append] at hb he
    exact ⟨by omega, by omega⟩
  · exact h

/-- **A text with the block** stays as it is. -/
theorem replace_block {a b : List Char} (ha : Free a) (hb : Free b) :
    replaceManagedBlock (a ++ (managedBlock ++ b)) = .ok (a ++ (managedBlock ++ b), none) := by
  have hblock : managedBlock = localExcludeBegin ++ managedBlock.drop localExcludeBegin.length := by decide +kernel
  have hend : (cut localExcludeEnd (managedBlock.drop localExcludeBegin.length)).map Prod.snd = some ['\n'] := by
    decide +kernel
  obtain ⟨p, hp, hsnd⟩ := Option.map_eq_some_iff.mp hend
  have hcut : cut localExcludeEnd (managedBlock.drop localExcludeBegin.length ++ b) = some (p.1, p.2 ++ b) :=
    cut_append_left b hp
  have hcounts := count_block a b
  have hbegin := count_begin_begin a (managedBlock.drop localExcludeBegin.length ++ b)
  have hends := count_end_begin a (managedBlock.drop localExcludeBegin.length ++ b)
  rw [← List.append_assoc localExcludeBegin, ← hblock] at hbegin hends
  have h1 := ha.begin_zero
  have h2 := hb.begin_zero
  have h3 := ha.end_zero
  have h4 := hb.end_zero
  have hreplace := @replace_begin a (managedBlock.drop localExcludeBegin.length ++ b) h1 (by omega) (by omega)
  rw [← List.append_assoc localExcludeBegin, ← hblock, hcut, hsnd] at hreplace
  exact hreplace

/-- **What becomes of a text.** -/
theorem replace_shape (existing : List Char) :
    ((count localExcludeBegin existing ≠ count localExcludeEnd existing ∨ 1 < count localExcludeBegin existing) ∧
      replaceManagedBlock existing = .ok (existing, some "malformed_managed_block")) ∨
    (∃ a b, Outside existing a b ∧ Free a ∧ Free b ∧
      replaceManagedBlock existing = .ok (a ++ (managedBlock ++ b), none)) ∨
    (Reversed existing ∧ replaceManagedBlock existing = .error (.valueError "substring not found")) := by
  by_cases hmal : count localExcludeBegin existing ≠ count localExcludeEnd existing ∨ 1 < count localExcludeBegin existing
  · refine Or.inl ⟨hmal, ?_⟩
    unfold replaceManagedBlock
    dsimp only
    rw [if_pos hmal]
  · refine Or.inr ?_
    by_cases hzero : count localExcludeBegin existing = 0
    · have hfree : Free existing := ⟨hzero, by omega⟩
      obtain ⟨k, hk, hpad⟩ := pad_pad existing
      refine Or.inl ⟨existing ++ List.replicate k '\n', [], Or.inl ⟨hfree, rfl, k, hk, rfl⟩, free_breaks hfree k,
        ⟨count_nil _, count_nil _⟩, ?_⟩
      unfold replaceManagedBlock
      dsimp only
      rw [if_neg hmal, if_pos hzero, hpad, List.append_nil]
    · -- one beginning and one end
      obtain ⟨⟨a, r⟩, hcut⟩ := Option.ne_none_iff_exists'.mp fun hnone => hzero ((count_eq_zero begin_ne).mpr hnone)
      have hsplit := cut_eq_some hcut
      rw [List.append_assoc] at hsplit
      subst hsplit
      rw [count_begin_begin, count_end_begin] at hmal
      rw [count_begin_begin] at hzero
      have hr := count_cut begin_ne hcut
      rw [count_begin_begin] at hr
      rw [@replace_begin a r (by omega) (by omega) (by omega)]
      cases hend : cut localExcludeEnd r with
      | some p =>
        have hsplit := cut_eq_some hend
        rw [List.append_assoc] at hsplit
        rw [hsplit, count_begin_end, count_end_end] at hmal
        rw [hsplit, count_begin_end] at hr
        have hafter : Free p.2 := ⟨by omega, by omega⟩
        refine Or.inl ⟨a, dropBreak p.2, Or.inr ⟨p.1, p.2, by rw [hsplit], ⟨by omega, by omega⟩, rfl⟩, ⟨by omega, by omega⟩,
          free_dropBreak hafter, rfl⟩
      | none =>
        have hrzero := (count_eq_zero end_ne).mpr hend
        obtain ⟨⟨a', m⟩, hcut'⟩ := Option.ne_none_iff_exists'.mp fun hnone : cut localExcludeEnd a = none => by
          have hazero := (count_eq_zero end_ne).mpr hnone
          omega
        have hsplit := cut_eq_some hcut'
        rw [List.append_assoc] at hsplit
        subst hsplit
        rw [count_begin_end, count_end_end] at hmal
        rw [count_begin_end] at hr
        exact Or.inr ⟨⟨a', m, r, by rw [List.append_assoc, List.append_assoc], ⟨by omega, by omega⟩, ⟨by omega, by omega⟩,
          ⟨by omega, by omega⟩⟩, rfl⟩

theorem replace_reversed {existing : List Char} (h : Reversed existing) :
    replaceManagedBlock existing = .error (.valueError "substring not found") := by
  obtain ⟨a, m, b, rfl, ha, hm, hb⟩ := h
  have h1 := ha.begin_zero
  have h2 := hm.begin_zero
  have h3 := ha.end_zero
  have h4 := hm.end_zero
  have hleft := count_begin_end a m
  have hleft' := count_end_end a m
  have hcut : cut localExcludeEnd b = none := (count_eq_zero end_ne).mp hb.end_zero
  have hreplace := @replace_begin (a ++ (localExcludeEnd ++ m)) b (by omega) hb.begin_zero
    (by rw [hleft', hb.end_zero]; omega)
  rw [hcut] at hreplace
  rw [List.append_assoc, List.append_assoc] at hreplace
  exact hreplace

/-! ### Reading the file -/

theorem universalNewlines_eq : ∀ {text : List Char}, '\r' ∉ text → universalNewlines text = text
  | [], _ => by rw [universalNewlines]
  | c :: text, h => by
    rw [List.mem_cons, not_or] at h
    have hc : c ≠ '\r' := Ne.symm h.1
    rw [universalNewlines, if_neg hc, universalNewlines_eq h.2]
    intro _ hcr
    exact absurd hcr hc

theorem no_return_newlines (text : List Char) : '\r' ∉ universalNewlines text := by
  induction text using universalNewlines.induct with
  | case1 => simp [universalNewlines]
  | case2 text ih => simpa [universalNewlines] using ih
  | case3 c text hnot ih =>
    rw [universalNewlines, List.mem_cons, not_or]
    · refine ⟨?_, ih⟩
      by_cases hc : c = '\r'
      · rw [if_pos hc]
        decide
      · rw [if_neg hc]
        exact Ne.symm hc
    · exact hnot

theorem contentOf_encode {text : List Char} (h : '\r' ∉ text) : contentOf (some (encode text)) = .ok text := by
  have hdecode : String.fromUTF8? (encode text) = some (String.ofList text) := by
    have hvalid : (String.ofList text).toUTF8.IsValidUTF8 := (String.ofList text).isValidUTF8
    unfold String.fromUTF8? encode
    rw [dif_pos hvalid]
    rfl
  rw [contentOf, hdecode]
  dsimp only
  rw [String.toList_ofList, universalNewlines_eq h]

theorem no_return_content {file : Option ByteArray} {existing : List Char} (h : contentOf file = .ok existing) :
    '\r' ∉ existing := by
  unfold contentOf at h
  split at h
  · rw [← Except.ok.inj h]
    exact List.not_mem_nil
  · split at h
    · rw [← Except.ok.inj h]
      exact no_return_newlines _
    · cases h

theorem no_return_outside {existing a b : List Char} (h : Outside existing a b) (hr : '\r' ∉ existing) :
    '\r' ∉ a ++ (managedBlock ++ b) := by
  have hblock : '\r' ∉ managedBlock := by decide +kernel
  rw [List.mem_append, List.mem_append, not_or, not_or]
  rcases h with ⟨-, rfl, k, -, rfl⟩ | ⟨m, after, rfl, -, rfl⟩
  · refine ⟨?_, hblock, List.not_mem_nil⟩
    rw [List.mem_append, not_or]
    refine ⟨hr, fun hmem => ?_⟩
    exact absurd (List.mem_replicate.mp hmem).2 (by decide)
  · refine ⟨fun hmem => hr (List.mem_append_left _ hmem), hblock, fun hmem => hr ?_⟩
    have hafter : '\r' ∈ after := by
      unfold dropBreak at hmem
      split at hmem
      · exact List.mem_cons_of_mem _ hmem
      · exact hmem
    exact List.mem_append_right _ (List.mem_append_right _ (List.mem_append_right _ (List.mem_append_right _ hafter)))

/-- A text with the block is one in which everything is installed. -/
theorem health_block {a b : List Char} (ha : Free a) (hb : Free b) {file : Option ByteArray}
    (hfile : contentOf file = .ok (a ++ (managedBlock ++ b))) :
    localExcludeHealth true true file = .ok ⟨true, true, false, none⟩ := by
  have hcounts := count_block a b
  rw [ha.begin_zero, hb.begin_zero, ha.end_zero, hb.end_zero] at hcounts
  have hpatterns : ∀ pattern ∈ localExcludePatterns, (cut pattern (a ++ (managedBlock ++ b))).isSome := by
    intro pattern hpattern
    have hblock : ∀ pattern ∈ localExcludePatterns, pattern <:+: managedBlock := by decide +kernel
    have hne : ∀ pattern ∈ localExcludePatterns, pattern ≠ [] := by decide
    rw [Option.isSome_iff_ne_none]
    intro hnone
    have hwithin : pattern <:+: a ++ (managedBlock ++ b) :=
      (hblock pattern hpattern).trans ⟨a, b, List.append_assoc ..⟩
    exact not_infix_of_cut hnone (hne pattern hpattern) hwithin
  rw [localExcludeHealth, if_neg (by decide), if_neg (by decide), hfile]
  change Except.ok _ = _
  rw [decide_eq_true ⟨hcounts.1, hcounts.2, hpatterns⟩]
  rfl

/-! ### The installation -/

theorem install_eq {site : Site} (hrepo : site.repository = true) (hread : site.readable = true)
    {file : Option ByteArray} {existing : List Char} (hfile : contentOf file = .ok existing) :
    installLocalExcludes site file = match replaceManagedBlock existing with
      | .error e => .error e
      | .ok (_, some error) => .ok (⟨true, false, false, some error⟩, file)
      | .ok (updated, none) => store site file existing updated := by
  rw [installLocalExcludes, hrepo, hread, if_neg (by decide), if_neg (by decide), hfile]
  change (replaceManagedBlock existing >>= _) = _
  cases replaceManagedBlock existing with
  | error e => rfl
  | ok p =>
    obtain ⟨updated, error⟩ := p
    cases error <;> rfl

theorem health_unreadable (file : Option ByteArray) :
    localExcludeHealth true false file = .ok ⟨true, false, false, some "exclude_unreadable"⟩ := rfl

/-- **What a text with the block is stored as.** -/
theorem store_block {a b : List Char} (ha : Free a) (hb : Free b) (hr : '\r' ∉ a ++ (managedBlock ++ b)) {site : Site}
    {file : Option ByteArray} {existing : List Char} (hfile : contentOf file = .ok existing) :
    ∃ h file', store site file existing (a ++ (managedBlock ++ b)) = .ok (h, file') ∧
      (h.installed = true → contentOf file' = .ok (a ++ (managedBlock ++ b)) ∧
        (if h.changed then file' = some (encode (a ++ (managedBlock ++ b))) else file' = file)) ∧
      (h.installed = false → file' = file ∨ site.written = .unsynced ∨ site.rereadable = false) := by
  have hback := contentOf_encode hr
  unfold store
  by_cases hsame : a ++ (managedBlock ++ b) = existing
  · rw [if_pos hsame]
    rw [← hsame] at hfile
    cases hre : site.rereadable with
    | true =>
      rw [health_block ha hb hfile]
      exact ⟨_, file, rfl, fun _ => ⟨hfile, rfl⟩, fun hno => (by cases hno)⟩
    | false =>
      rw [health_unreadable]
      exact ⟨_, file, rfl, fun hyes => (by cases hyes), fun _ => Or.inl rfl⟩
  · rw [if_neg hsame]
    cases hw : site.written with
    | stored =>
      cases hre : site.rereadable with
      | true =>
        rw [health_block ha hb hback]
        exact ⟨_, _, rfl, fun _ => ⟨hback, rfl⟩, fun hno => (by cases hno)⟩
      | false =>
        rw [health_unreadable]
        exact ⟨_, _, rfl, fun hyes => (by cases hyes), fun _ => Or.inr (Or.inr rfl)⟩
    | unwritten => exact ⟨_, file, rfl, fun hyes => (by cases hyes), fun _ => Or.inl rfl⟩
    | unsynced => exact ⟨_, _, rfl, fun hyes => (by cases hyes), fun _ => Or.inr (Or.inl rfl)⟩

/-- **The installation raises** if and only if the file is no UTF-8 text, or has the end of a block before its
beginning. -/
theorem install_raises_iff (site : Site) (file : Option ByteArray) :
    (∃ e, installLocalExcludes site file = .error e) ↔ site.repository = true ∧ site.readable = true ∧
      ((∃ e, contentOf file = .error e) ∨ ∃ existing, contentOf file = .ok existing ∧ Reversed existing) := by
  by_cases hrepo : site.repository = true
  swap
  · simp [installLocalExcludes, hrepo]
  by_cases hread : site.readable = true
  swap
  · simp [installLocalExcludes, hrepo, hread]
  cases hfile : contentOf file with
  | error e => simp [installLocalExcludes, hrepo, hread, hfile, bind, Except.bind]
  | ok existing =>
    have hor : ((∃ e, (Except.ok existing : Py (List Char)) = .error e) ∨
        ∃ text, (Except.ok existing : Py (List Char)) = .ok text ∧ Reversed text) ↔ Reversed existing := by
      simp
    rw [hor, install_eq hrepo hread hfile]
    simp only [hrepo, hread, true_and]
    constructor
    · rintro ⟨e, he⟩
      rcases replace_shape existing with ⟨-, hmal⟩ | ⟨a, b, hout, ha, hb, hok⟩ | ⟨hreversed, -⟩
      · rw [hmal] at he
        cases he
      · obtain ⟨h, file', hstore, -⟩ := @store_block a b ha hb (no_return_outside hout (no_return_content hfile)) site
          file existing hfile
        rw [hok] at he
        dsimp only at he
        rw [hstore] at he
        cases he
      · exact hreversed
    · intro hreversed
      rw [replace_reversed hreversed]
      exact ⟨_, rfl⟩

/-- What an installation that returns has done. -/
theorem install_ok {site : Site} {file file' : Option ByteArray} {h : Health}
    (hinstall : installLocalExcludes site file = .ok (h, file')) : (h.installed = false ∧ file' = file) ∨
      ∃ existing a b, contentOf file = .ok existing ∧ Outside existing a b ∧ Free a ∧ Free b ∧
        store site file existing (a ++ (managedBlock ++ b)) = .ok (h, file') := by
  by_cases hrepo : site.repository = true
  swap
  · rw [Bool.not_eq_true] at hrepo
    rw [installLocalExcludes, hrepo, if_pos (by decide), Except.ok.injEq, Prod.mk.injEq] at hinstall
    exact Or.inl ⟨by rw [← hinstall.1], hinstall.2.symm⟩
  by_cases hread : site.readable = true
  swap
  · rw [Bool.not_eq_true] at hread
    rw [installLocalExcludes, hrepo, hread, if_neg (by decide), if_pos (by decide), Except.ok.injEq, Prod.mk.injEq]
      at hinstall
    exact Or.inl ⟨by rw [← hinstall.1], hinstall.2.symm⟩
  cases hfile : contentOf file with
  | error e =>
    rw [installLocalExcludes, hrepo, hread, if_neg (by decide), if_neg (by decide), hfile] at hinstall
    cases hinstall
  | ok existing =>
    rw [install_eq hrepo hread hfile] at hinstall
    rcases replace_shape existing with ⟨-, hmal⟩ | ⟨a, b, hout, ha, hb, hok⟩ | ⟨-, herror⟩
    · rw [hmal] at hinstall
      dsimp only at hinstall
      rw [Except.ok.injEq, Prod.mk.injEq] at hinstall
      exact Or.inl ⟨by rw [← hinstall.1], hinstall.2.symm⟩
    · rw [hok] at hinstall
      exact Or.inr ⟨existing, a, b, rfl, hout, ha, hb, hinstall⟩
    · rw [herror] at hinstall
      cases hinstall

/-- **What is installed.** The file holds one block between what was outside, and the next installation leaves it. -/
theorem install_installed {site : Site} {file file' : Option ByteArray} {h : Health}
    (hinstall : installLocalExcludes site file = .ok (h, file')) (hin : h.installed = true) :
    ∃ existing a b, contentOf file = .ok existing ∧ Outside existing a b ∧ Free a ∧ Free b ∧
      contentOf file' = .ok (a ++ (managedBlock ++ b)) ∧
      (if h.changed then file' = some (encode (a ++ (managedBlock ++ b))) else file' = file) ∧
      ∀ again : Site, again.repository = true → again.readable = true → again.rereadable = true →
        installLocalExcludes again file' = .ok (⟨true, true, false, none⟩, file') := by
  rcases install_ok hinstall with ⟨hno, -⟩ | ⟨existing, a, b, hfile, hout, ha, hb, hstored⟩
  · rw [hno] at hin
    cases hin
  · have hreturn := no_return_outside hout (no_return_content hfile)
    obtain ⟨h₁, file₁, hstore, hyes, -⟩ := @store_block a b ha hb hreturn site file existing hfile
    rw [hstore, Except.ok.injEq, Prod.mk.injEq] at hstored
    obtain ⟨rfl, rfl⟩ := hstored
    obtain ⟨hcontent, hbytes⟩ := hyes hin
    refine ⟨existing, a, b, hfile, hout, ha, hb, hcontent, hbytes, fun again hrepo hread hre => ?_⟩
    rw [install_eq hrepo hread hcontent, replace_block ha hb]
    dsimp only
    rw [store, if_pos rfl, hre, health_block ha hb hcontent]
    rfl

theorem install_installed_new : ∃ file', installLocalExcludes ⟨true, true, .stored, true⟩ none =
    .ok (⟨true, true, true, none⟩, file') ∧
      ∃ existing a b, contentOf none = .ok existing ∧ Outside existing a b ∧
        contentOf file' = .ok (a ++ (managedBlock ++ b)) := by
  have hfree : Free [] := ⟨count_nil _, count_nil _⟩
  have hback : contentOf (some (encode ([] ++ (managedBlock ++ [])))) = .ok ([] ++ (managedBlock ++ [])) :=
    contentOf_encode (by decide +kernel)
  have hreplace : replaceManagedBlock [] = .ok ([] ++ (managedBlock ++ []), none) := by
    rw [List.nil_append, List.append_nil]
    rfl
  have hne : [] ++ (managedBlock ++ []) ≠ [] := by decide
  have hinstall : installLocalExcludes ⟨true, true, .stored, true⟩ none =
      .ok (⟨true, true, true, none⟩, some (encode ([] ++ (managedBlock ++ [])))) := by
    rw [install_eq rfl rfl (show contentOf none = .ok [] from rfl), hreplace]
    dsimp only
    rw [store, if_neg hne]
    dsimp only
    rw [health_block hfree hfree hback]
    rfl
  obtain ⟨existing, a, b, hfile, hout, -, -, hcontent, -⟩ := install_installed hinstall rfl
  exact ⟨_, hinstall, existing, a, b, hfile, hout, hcontent⟩

/-- **What is not installed leaves the file**, unless it is replaced and cannot be synced or read again. -/
theorem install_kept {site : Site} {file file' : Option ByteArray} {h : Health}
    (hinstall : installLocalExcludes site file = .ok (h, file')) (hin : h.installed = false) :
    file' = file ∨ site.written = .unsynced ∨ site.rereadable = false := by
  rcases install_ok hinstall with ⟨-, hkept⟩ | ⟨existing, a, b, hfile, hout, ha, hb, hstored⟩
  · exact Or.inl hkept
  · have hreturn := no_return_outside hout (no_return_content hfile)
    obtain ⟨h₁, file₁, hstore, -, hno⟩ := @store_block a b ha hb hreturn site file existing hfile
    rw [hstore, Except.ok.injEq, Prod.mk.injEq] at hstored
    obtain ⟨rfl, rfl⟩ := hstored
    exact hno hin

theorem install_kept_unwritten : installLocalExcludes ⟨true, true, .unwritten, true⟩ none =
      .ok (⟨true, false, false, some "exclude_write_failed"⟩, none) ∧
    ((none : Option ByteArray) = none ∨ Written.unwritten = .unsynced ∨ true = false) := by
  have hinstall : installLocalExcludes ⟨true, true, .unwritten, true⟩ none =
      .ok (⟨true, false, false, some "exclude_write_failed"⟩, none) := by decide +kernel
  exact ⟨hinstall, install_kept hinstall rfl⟩

end ControlPlane.Workspace.Exclude
