import ControlPlane.Index.Runs
import ControlPlane.Instance

/-! # Fresh indexes

An index is fresh if its rows and entries are those of a new build of the tree.

`complete_fresh`: after runs that complete, the index is fresh. `recovered_iff`: after any runs, a run that completes
leaves a fresh index if and only if what is on disk of every file that it takes over is the file's. `crashed_iff`: what
that comes to if one run has ended early. -/

namespace ControlPlane.Index.Recovery

open ControlPlane.Lib.Value ControlPlane.Lib.Dynamic ControlPlane.Lib.Incremental ControlPlane.Lib.Runs
open ControlPlane.Lib ControlPlane.Environment ControlPlane.Index.Rows ControlPlane.Index.Runs

variable {F : Type} {E : Env F} {P : Parsers}

/-! ### A fresh index -/

/-- The index on disk is that of a new build of the tree, up to the order of its rows. -/
structure Fresh (E : Env F) (P : Parsers) (d : Disk) (t : Tree) : Prop where
  symbols : ∃ rows : List (Dict F), readJsonl E d.symbols = .ok (rows.map .obj) ∧
    rows.Perm (t.files.flatMap fun p => symbolRows P p.1 p.2)
  endpoints : ∃ rows : List (Dict F), readJsonl E d.endpoints = .ok (rows.map .obj) ∧
    rows.Perm (t.files.flatMap fun p => endpointRows P p.1 p.2)
  entries : oldFiles E d = .ok (sortDict (entriesOf t fun p => P.sha256 p.2.bytes))

/-- What an index has of a file is the file's. -/
structure Carried (F : Type) (hP : P.Quiet) (g : Ghost) (mode : Mode) (p : String × File) : Prop where
  symbols : ((symbolIndex F hP).rows p.1 (g.symbols p.1)).Perm (symbolRows P p.1 p.2)
  endpoints : ((endpointIndex F hP).rows p.1 (g.endpoints p.1)).Perm (endpointRows P p.1 p.2)
  digest : recorded P (g.entries p.1) mode p.2 = P.sha256 p.2.bytes

theorem entries_unique {files : Dict F} {a b : String → Option Entry} (ha : Entries files a) (hb : Entries files b) :
    a = b := by
  funext rel
  have hra := ha rel
  have hrb := hb rel
  cases hea : a rel with
  | none =>
    cases heb : b rel with
    | none => rfl
    | some e =>
      rw [hea] at hra
      rw [heb] at hrb
      obtain ⟨entry, hentry, -⟩ := hrb
      rw [show getKey files rel = .null from hra] at hentry
      cases hentry
  | some e =>
    rw [hea] at hra
    obtain ⟨entry, hentry, he⟩ := hra
    cases heb : b rel with
    | none =>
      rw [heb] at hrb
      rw [show getKey files rel = .null from hrb] at hentry
      cases hentry
    | some e' =>
      rw [heb] at hrb
      obtain ⟨entry', hentry', he'⟩ := hrb
      have hsame := hentry.symm.trans hentry'
      rw [Json.obj.injEq] at hsame
      subst hsame
      have hdigest := he.digest.symm.trans he'.digest
      have hsize := he.size.symm.trans he'.size
      have hmtime := he.mtimeNs.symm.trans he'.mtimeNs
      rw [Json.str.injEq] at hdigest
      rw [Json.int.injEq, Nat.cast_inj] at hsize
      rw [Json.int.injEq] at hmtime
      obtain ⟨digest, size, mtimeNs⟩ := e
      obtain ⟨digest', size', mtimeNs'⟩ := e'
      dsimp only at hdigest hsize hmtime
      rw [hdigest, hsize, hmtime]

/-- The rows of a row file are those of a tree if and only if what was taken over is. -/
theorem rows_fresh_iff {D : Derivation String File (Dict F)} {t : Tree} {kept : String → Bool} {s : String → Option File}
    {rows : List (Dict F)} (hof : Of D rows fun rel => if kept rel then s rel else fileAt t.files rel)
    (hkept : ∀ rel, kept rel = true → ∃ file, (rel, file) ∈ t.files) :
    rows.Perm (full D t.files) ↔ ∀ p ∈ t.files, kept p.1 = true → (D.rows p.1 (s p.1)).Perm (D.derive p.1 p.2) := by
  constructor
  · intro hperm p hp hk
    have hsame := hof.same p.1
    rw [if_pos hk] at hsame
    have hat : (D.at p.1 rows).Perm (D.at p.1 (full D t.files)) := hperm.filter _
    rw [at_full t.nodup, (fileAt_eq_some t.nodup).mpr hp] at hat
    exact hsame.symm.trans hat
  · intro hall
    refine perm_full t.nodup ⟨hof.keyed, fun rel => ?_⟩
    have hsame := hof.same rel
    by_cases hk : kept rel = true
    · rw [if_pos hk] at hsame
      obtain ⟨file, hfile⟩ := hkept rel hk
      rw [(fileAt_eq_some t.nodup).mpr hfile]
      exact hsame.trans (hall (rel, file) hfile hk)
    · rw [if_neg hk] at hsame
      exact hsame

theorem kept_mem {g : Ghost} {mode : Mode} {t : Tree} {rel : String} (h : g.kept P mode t rel = true) :
    ∃ file, (rel, file) ∈ t.files := by
  unfold Ghost.kept at h
  split at h
  · next file e hfile he => exact ⟨file, (fileAt_eq_some t.nodup).mp hfile⟩
  · cases h

/-- Of a file that is not taken over its own digest is recorded. -/
theorem recorded_of_not_kept {g : Ghost} {mode : Mode} {t : Tree} {p : String × File} (hp : p ∈ t.files)
    (h : g.kept P mode t p.1 = false) : recorded P (g.entries p.1) mode p.2 = P.sha256 p.2.bytes := by
  have hfile := (fileAt_eq_some t.nodup).mpr hp
  unfold recorded
  split
  · next e he =>
    unfold Ghost.kept at h
    rw [hfile, he] at h
    dsimp only at h
    rw [Entry.kept, Bool.not_false, Bool.true_and, Bool.or_eq_false_iff] at h
    rw [h.1]
    exact if_neg Bool.false_ne_true
  · rfl

/-- **When a run that completes leaves a fresh index.** -/
theorem fresh_iff {hP : P.Quiet} {d d' : Disk} {g : Ghost} {r : Run} (h : Inv E hP d g) (hr : r.complete)
    (hd : step E P d r = .ok d') : Fresh E P d' r.tree ↔
      ∀ p ∈ r.tree.files, g.kept P r.mode r.tree p.1 = true → Carried F hP g r.mode p := by
  have hinv := step_inv h hd
  obtain ⟨symbols, endpoints, hsymbols, hendpoints, heq⟩ := step_eq h r
  rw [heq] at hd
  obtain ⟨a, b, c, ha, hb, hc, rfl⟩ := write_ok hd
  have hpub : 0 < r.published ∧ 1 < r.published ∧ 2 < r.published := by
    unfold Run.complete at hr
    omega
  have hreadS : readJsonl E (publish d a b c r.published).symbols = .ok (symbols.map .obj) := by
    rw [publish, if_pos hpub.1]
    exact readJsonl_jsonlText (fun row hrow => (hsymbols.1 row hrow).1) (fun row hrow => (hsymbols.1 row hrow).2) ha
  have hreadE : readJsonl E (publish d a b c r.published).endpoints = .ok (endpoints.map .obj) := by
    rw [publish, if_pos hpub.2.1]
    exact readJsonl_jsonlText (fun row hrow => (hendpoints.1 row hrow).1) (fun row hrow => (hendpoints.1 row hrow).2) hb
  have hstate : oldFiles E (publish d a b c r.published) =
      .ok (sortDict (entriesOf r.tree fun p => recorded P (g.entries p.1) r.mode p.2)) := by
    refine oldFiles_written hc ?_
    rw [publish, if_pos hpub.2.2]
  have hrowsS := @rows_fresh_iff F (symbolIndex F hP) r.tree _ g.symbols symbols hsymbols.2 fun _ => kept_mem
  have hrowsE := @rows_fresh_iff F (endpointIndex F hP) r.tree _ g.endpoints endpoints hendpoints.2 fun _ => kept_mem
  have hobj : ∀ {rows rows' : List (Dict F)}, (Except.ok (rows.map Json.obj) : Py _) = .ok (rows'.map .obj) →
      rows = rows' := fun hrows =>
    List.map_injective_iff.mpr (fun _ _ hj => Json.obj.inj hj) (Except.ok.inj hrows)
  constructor
  · intro hfresh p hp hk
    obtain ⟨rows, hrows, hperm⟩ := hfresh.symbols
    obtain ⟨rows', hrows', hperm'⟩ := hfresh.endpoints
    rw [← hobj (hreadS.symm.trans hrows)] at hperm
    rw [← hobj (hreadE.symm.trans hrows')] at hperm'
    refine ⟨hrowsS.mp hperm p hp hk, hrowsE.mp hperm' p hp hk, ?_⟩
    have hsame := Except.ok.inj (hstate.symm.trans hfresh.entries)
    have hfirst := @entries_written F r.tree (fun p => recorded P (g.entries p.1) r.mode p.2) _ fun _ => rfl
    have hsecond := @entries_written F r.tree (fun p => P.sha256 p.2.bytes) _ fun _ => rfl
    rw [hsame] at hfirst
    have hentry := congrFun (entries_unique hfirst hsecond) p.1
    rw [(fileAt_eq_some r.tree.nodup).mpr hp, Option.map_some, Option.map_some, Option.some.injEq, Entry.mk.injEq] at hentry
    exact hentry.1
  · intro hall
    refine ⟨⟨symbols, hreadS, hrowsS.mpr fun p hp hk => (hall p hp hk).symbols⟩,
      ⟨endpoints, hreadE, hrowsE.mpr fun p hp hk => (hall p hp hk).endpoints⟩, ?_⟩
    rw [hstate]
    have hdigests : entriesOf r.tree (fun p => recorded P (g.entries p.1) r.mode p.2) =
        (entriesOf r.tree fun p => P.sha256 p.2.bytes : Dict F) := by
      refine List.map_congr_left fun p hp => ?_
      dsimp only
      by_cases hk : g.kept P r.mode r.tree p.1 = true
      · rw [(hall p hp hk).digest]
      · rw [recorded_of_not_kept hp (Bool.eq_false_of_not_eq_true hk)]
    rw [hdigests]

/-! ### Runs that complete -/

def noFiles : Tree := ⟨[], List.nodup_nil, fun _ hp => absurd hp List.not_mem_nil⟩

/-- What the run `r` takes for the same contents of a file in `t` is the same: a file of its name, size and time, if it
looks at no more, and a file of its digest. -/
def Honest (P : Parsers) (t : Tree) (r : Run) : Prop :=
  ∀ rel a b, (rel, a) ∈ t.files → (rel, b) ∈ r.tree.files →
    (r.mode = .incremental false → a.bytes.length = b.bytes.length → a.mtimeNs = b.mtimeNs → a.bytes = b.bytes) ∧
    (P.sha256 a.bytes = P.sha256 b.bytes → a.bytes = b.bytes)

/-- Runs that complete one after the other, from an index of `t` on. -/
def Steady (P : Parsers) : Tree → List Run → Prop
  | _, [] => True
  | t, r :: rs => r.complete ∧ Honest P t r ∧ Steady P r.tree rs

/-- The tree of the last run. -/
def lastTree (t : Tree) (rs : List Run) : Tree := rs.foldl (fun _ r => r.tree) t

/-- The index is of a tree. -/
structure Current (P : Parsers) (g : Ghost) (t : Tree) : Prop where
  symbols : ∀ rel, (g.symbols rel).map File.bytes = (fileAt t.files rel).map File.bytes
  endpoints : ∀ rel, (g.endpoints rel).map File.bytes = (fileAt t.files rel).map File.bytes
  entries : ∀ rel, g.entries rel = (fileAt t.files rel).map fun file =>
    ⟨P.sha256 file.bytes, file.bytes.length, file.mtimeNs⟩

theorem current_blank : Current P Ghost.blank noFiles := ⟨fun _ => rfl, fun _ => rfl, fun _ => rfl⟩

/-- A file that is taken over has not changed. -/
theorem bytes_of_kept {g : Ghost} {t : Tree} {r : Run} (h : Current P g t) (hr : Honest P t r) {rel : String} {b : File}
    (hb : (rel, b) ∈ r.tree.files) (hk : g.kept P r.mode r.tree rel = true) :
    (fileAt t.files rel).map File.bytes = some b.bytes := by
  have hentry := h.entries rel
  unfold Ghost.kept at hk
  split at hk
  · next strictHash file e hmode hfile he =>
    have hsame := ((fileAt_eq_some r.tree.nodup).mpr hb).symm.trans hfile
    rw [Option.some.injEq] at hsame
    subst hsame
    rw [he] at hentry
    obtain ⟨a, ha, hea⟩ := Option.map_eq_some_iff.mp hentry.symm
    obtain ⟨hstat, hdigest⟩ := hr rel a b ((fileAt_eq_some t.nodup).mp ha) hb
    rw [ha, Option.map_some, Option.some.injEq]
    rw [Entry.kept, Bool.or_eq_true, Bool.and_eq_true, Bool.not_eq_true', beq_iff_eq, ← hea] at hk
    rcases hk with ⟨hstrict, hk⟩ | hk
    · rw [hstrict] at hmode
      rw [Entry.stat, Bool.and_eq_true, Bool.and_eq_true, beq_iff_eq, beq_iff_eq] at hk
      exact hstat hmode hk.1.2 hk.2
    · exact hdigest hk
  · cases hk

theorem recorded_of_honest {g : Ghost} {t : Tree} {r : Run} (h : Current P g t) (hr : Honest P t r) {p : String × File}
    (hp : p ∈ r.tree.files) : recorded P (g.entries p.1) r.mode p.2 = P.sha256 p.2.bytes := by
  by_cases hk : g.kept P r.mode r.tree p.1 = true
  · have hbytes := bytes_of_kept h hr hp hk
    obtain ⟨a, ha, hab⟩ := Option.map_eq_some_iff.mp hbytes
    have hentry := h.entries p.1
    rw [ha, Option.map_some, hab] at hentry
    rw [hentry]
    unfold recorded
    split
    · next e he =>
      rw [← Option.some.inj he]
      exact ite_self _
    · rfl
  · exact recorded_of_not_kept hp (Bool.eq_false_of_not_eq_true hk)

/-- The rows that a run leaves are those of its tree, also of a file that it takes over. -/
theorem bytes_rowsAfter {g : Ghost} {t : Tree} {r : Run} (h : Current P g t) (hr : Honest P t r)
    {s : String → Option File} (hs : ∀ rel, (s rel).map File.bytes = (fileAt t.files rel).map File.bytes) (rel : String) :
    (g.rowsAfter P r s rel).map File.bytes = (fileAt r.tree.files rel).map File.bytes := by
  rw [Ghost.rowsAfter]
  by_cases hk : g.kept P r.mode r.tree rel = true
  · obtain ⟨b, hb⟩ := kept_mem hk
    rw [if_pos hk, hs, bytes_of_kept h hr hb hk, (fileAt_eq_some r.tree.nodup).mpr hb]
    rfl
  · rw [if_neg hk]

/-- **A run that completes leaves an index of its tree.** -/
theorem current_after {g : Ghost} {t : Tree} {r : Run} (h : Current P g t) (hr : Honest P t r) (hc : r.complete) :
    Current P (g.after P r) r.tree := by
  have hpub : 0 < r.published ∧ 1 < r.published ∧ 2 < r.published := by
    unfold Run.complete at hc
    omega
  refine ⟨fun rel => ?_, fun rel => ?_, fun rel => ?_⟩
  · rw [Ghost.after, if_pos hpub.1]
    exact bytes_rowsAfter h hr h.symbols rel
  · rw [Ghost.after, if_pos hpub.2.1]
    exact bytes_rowsAfter h hr h.endpoints rel
  · rw [Ghost.after, if_pos hpub.2.2]
    dsimp only
    cases hfile : fileAt r.tree.files rel with
    | none => rfl
    | some file =>
      have hrec := recorded_of_honest h hr ((fileAt_eq_some r.tree.nodup).mp hfile)
      dsimp only at hrec
      rw [Option.map_some, Option.map_some, hrec]

theorem current_run {rs : List Run} {g : Ghost} {t : Tree} (h : Current P g t) (hs : Steady P t rs) :
    Current P (rs.foldl (fun g r => g.after P r) g) (lastTree t rs) := by
  induction rs generalizing g t with
  | nil => exact h
  | cons r rs ih => exact ih (current_after h hs.2.1 hs.1) hs.2.2

theorem steady_append {rs rs' : List Run} {t : Tree} :
    Steady P t (rs ++ rs') ↔ Steady P t rs ∧ Steady P (lastTree t rs) rs' := by
  induction rs generalizing t with
  | nil => exact (and_iff_right trivial).symm
  | cons r rs ih =>
    rw [List.cons_append, Steady, Steady, ih, lastTree, lastTree, List.foldl_cons]
    simp only [and_assoc]

/-- The rows of a file are those of its bytes. -/
theorem symbols_congr (hP : P.Quiet) (rel : String) {a b : Option File} (h : a.map File.bytes = b.map File.bytes) :
    (symbolIndex F hP).rows rel a = (symbolIndex F hP).rows rel b := by
  cases b with
  | none => rw [Option.map_eq_none_iff.mp h]
  | some b =>
    obtain ⟨a, rfl, hab⟩ := Option.map_eq_some_iff.mp h
    change symbolRows P rel a = symbolRows P rel b
    rw [symbolRows, symbolRows, hab]

theorem endpoints_congr (hP : P.Quiet) (rel : String) {a b : Option File} (h : a.map File.bytes = b.map File.bytes) :
    (endpointIndex F hP).rows rel a = (endpointIndex F hP).rows rel b := by
  cases b with
  | none => rw [Option.map_eq_none_iff.mp h]
  | some b =>
    obtain ⟨a, rfl, hab⟩ := Option.map_eq_some_iff.mp h
    change endpointRows P rel a = endpointRows P rel b
    rw [endpointRows, endpointRows, hab]

/-- Of a file that is taken over from an index of its content nothing is stale. -/
theorem carried_of_current {hP : P.Quiet} {g : Ghost} {t : Tree} {r : Run} (h : Current P g t) (hr : Honest P t r)
    {p : String × File} (hp : p ∈ r.tree.files) (hk : g.kept P r.mode r.tree p.1 = true) :
    Carried F hP g r.mode p := by
  have hbytes := bytes_of_kept h hr hp hk
  have hsymbols := @symbols_congr F P hP p.1 _ (some p.2) ((h.symbols p.1).trans hbytes)
  have hendpoints := @endpoints_congr F P hP p.1 _ (some p.2) ((h.endpoints p.1).trans hbytes)
  exact ⟨hsymbols ▸ List.Perm.refl _, hendpoints ▸ List.Perm.refl _, recorded_of_honest h hr hp⟩

/-- **Incremental runs are as good as a new build.** After runs that complete, full and incremental ones in any order,
the index is that of a new build of the last tree. -/
theorem complete_fresh (hP : P.Quiet) {rs : List Run} {r : Run} (hsteady : Steady P noFiles (rs ++ [r])) {d : Disk}
    (hd : run (step E P) blank (rs ++ [r]) = .ok d) : Fresh E P d r.tree := by
  obtain ⟨hrs, hc, hr, -⟩ := steady_append.mp hsteady
  obtain ⟨u, hu, hd⟩ := run_append.mp hd
  obtain ⟨v, hv, hd⟩ := run_cons.mp hd
  rw [run, Except.ok.injEq] at hd
  subst hd
  have hcurrent := current_run current_blank hrs
  exact (fresh_iff (run_inv (inv_blank hP) hu) hc hv).mpr fun p hp hk => carried_of_current hcurrent hr hp hk

/-! ### Runs that end early -/

/-- An index takes over the files whose content it has. -/
theorem kept_iff {g : Ghost} {t : Tree} {r : Run} (h : Current P g t) (hr : Honest P t r) {p : String × File}
    (hp : p ∈ r.tree.files) : g.kept P r.mode r.tree p.1 = true ↔
      r.mode ≠ .full ∧ (fileAt t.files p.1).map File.bytes = some p.2.bytes := by
  constructor
  · intro hk
    refine ⟨fun hmode => ?_, bytes_of_kept h hr hp hk⟩
    rw [hmode] at hk
    exact Bool.false_ne_true hk
  · rintro ⟨hmode, hbytes⟩
    obtain ⟨a, ha, hab⟩ := Option.map_eq_some_iff.mp hbytes
    have hentry := h.entries p.1
    rw [ha, Option.map_some, hab] at hentry
    unfold Ghost.kept
    rw [(fileAt_eq_some r.tree.nodup).mpr hp, hentry]
    cases hm : r.mode with
    | full => exact absurd hm hmode
    | incremental strictHash => simp [Entry.kept]

/-- **What a crash may leave.** After any runs, each of which may end before any of its files is published, a run that
completes leaves the index of a new build if and only if of each file that it takes over the rows on disk are the file's
and the digest is. -/
theorem recovered_iff (hP : P.Quiet) {rs : List Run} {r : Run} (hc : r.complete) {d : Disk}
    (hd : run (step E P) blank (rs ++ [r]) = .ok d) : Fresh E P d r.tree ↔
      ∀ p ∈ r.tree.files, (rs.foldl (fun g r => g.after P r) Ghost.blank).kept P r.mode r.tree p.1 = true →
        Carried F hP (rs.foldl (fun g r => g.after P r) Ghost.blank) r.mode p := by
  obtain ⟨u, hu, hd⟩ := run_append.mp hd
  obtain ⟨v, hv, hd⟩ := run_cons.mp hd
  rw [run, Except.ok.injEq] at hd
  subst hd
  exact fresh_iff (run_inv (inv_blank hP) hu) hc hv

section Sample
open ControlPlane.Instance ControlPlane.Lib.Phases

/-- Parsers to which every line is a symbol. -/
def lineParsers : Parsers where
  sha256 data := digest (String.ofList (data.map fun b => Char.ofNat b.toNat))
  decode data := String.ofList (data.map fun b => Char.ofNat b.toNat)
  isPython _ := false
  definitions _ := none
  symbolIn line := some line
  routeFromLine _ := none

theorem quiet_lineParsers : lineParsers.Quiet := by
  refine ⟨fun data c hc hraw => ?_, fun _ _ h => (by cases h), fun line symbol hline h c hc hraw => ?_,
    fun _ _ _ h => (by cases h)⟩
  · have hdigits : Quiet "0123456789abcdef" := quiet_literal (by decide)
    exact hdigits c (List.contains_iff_mem.mp (digest_hex _ c hc)) hraw
  · rw [← Option.some.inj h] at hc
    have hbreak := (rawBreak_iff.mp hraw).1
    rw [hline c hc] at hbreak
    cases hbreak

/-- A tree of one file. -/
def treeOf (file : File) : Tree where
  files := [("a", file)]
  nodup := List.nodup_singleton _
  quiet p hp := by
    have hname : Quiet "a" := quiet_literal (by decide)
    rw [List.mem_singleton.mp hp]
    exact hname

def before : Tree := treeOf ⟨[65], 1⟩

def edited : Tree := treeOf ⟨[66, 66], 2⟩

theorem printable_before : ∀ p ∈ before.files, Runs.Printable platform lineParsers p := by
  intro p hp
  rw [List.mem_singleton.mp hp]
  exact ⟨by decide +kernel, by decide +kernel, by decide +kernel, by decide +kernel⟩

theorem printable_edited : ∀ p ∈ edited.files, Runs.Printable platform lineParsers p := by
  intro p hp
  rw [List.mem_singleton.mp hp]
  exact ⟨by decide +kernel, by decide +kernel, by decide +kernel, by decide +kernel⟩

theorem run_sample {rs : List Run} (h : ∀ r ∈ rs, r.tree = before ∨ r.tree = edited) :
    ∃ d, run (step platform lineParsers) blank rs = .ok d := by
  refine run_isOk (fun r hr => ?_) (inv_blank quiet_lineParsers) fun rel file hfile => ?_
  · rcases h r hr with htree | htree <;> rw [htree]
    · exact printable_before
    · exact printable_edited
  · simp [Ghost.blank] at hfile

theorem honest_sample {t : Tree} {r : Run} (ht : t = before ∨ t = edited) (hr : r.tree = before ∨ r.tree = edited) :
    Honest lineParsers t r := by
  intro rel a b ha hb
  rcases ht with rfl | rfl <;> rcases hr with hr | hr <;> rw [hr] at hb <;>
    simp only [before, edited, treeOf, List.mem_singleton, Prod.mk.injEq] at ha hb <;> rw [ha.2, hb.2]
  · exact ⟨fun _ _ _ => rfl, fun _ => rfl⟩
  · exact ⟨fun _ h => absurd h (by decide), fun h => absurd h (by decide +kernel)⟩
  · exact ⟨fun _ h => absurd h (by decide), fun h => absurd h (by decide +kernel)⟩
  · exact ⟨fun _ _ _ => rfl, fun _ => rfl⟩

/-- The runs of a tree that is edited. -/
theorem complete_fresh_edited : ∃ d, run (step platform lineParsers) blank
    ([⟨before, .full, "", 3⟩] ++ [⟨edited, .incremental false, "", 3⟩]) = .ok d ∧ Fresh platform lineParsers d edited := by
  obtain ⟨d, hd⟩ := @run_sample ([⟨before, .full, "", 3⟩] ++ [⟨edited, .incremental false, "", 3⟩]) (by simp)
  have hfirst : Honest lineParsers noFiles ⟨before, .full, "", 3⟩ := fun _ _ _ ha => absurd ha List.not_mem_nil
  have hsecond : Honest lineParsers before ⟨edited, .incremental false, "", 3⟩ :=
    honest_sample (Or.inl rfl) (Or.inr rfl)
  have hsteady : Steady lineParsers noFiles ([⟨before, .full, "", 3⟩] ++ [⟨edited, .incremental false, "", 3⟩]) :=
    And.intro le_rfl (And.intro hfirst (And.intro le_rfl (And.intro hsecond trivial)))
  exact ⟨d, hd, complete_fresh quiet_lineParsers hsteady hd⟩

theorem symbols_sample : ¬ (symbolRows lineParsers "a" ⟨[66, 66], 2⟩ : List (Dict Lib.Grid.Cell)).Perm
    (symbolRows lineParsers "a" ⟨[65], 1⟩) := by
  intro h
  have hmem := (h.map fun row => getKey row "symbol").mem_iff.mpr (List.mem_singleton_self (Json.str "A"))
  exact absurd hmem (by decide +kernel)

/-- The edit is undone after a run has ended between the publication of its symbols and that of its state. -/
theorem recovered_iff_stale : ∃ d, run (step platform lineParsers) blank
    ([⟨before, .full, "", 3⟩, ⟨edited, .incremental true, "", 1⟩] ++ [⟨before, .incremental true, "", 3⟩]) = .ok d ∧
      ¬ Fresh platform lineParsers d before := by
  obtain ⟨d, hd⟩ := @run_sample
    ([⟨before, .full, "", 3⟩, ⟨edited, .incremental true, "", 1⟩] ++ [⟨before, .incremental true, "", 3⟩]) (by simp)
  refine ⟨d, hd, fun hfresh => ?_⟩
  have hall := (recovered_iff quiet_lineParsers le_rfl hd).mp hfresh
  exact symbols_sample (hall ("a", ⟨[65], 1⟩) (List.mem_singleton_self _) (by decide +kernel)).symbols

end Sample

end ControlPlane.Index.Recovery
