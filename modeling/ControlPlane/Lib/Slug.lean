import Mathlib.Data.List.DropRight
import Mathlib.Logic.Relation

/-! # Names made of paths

A list of segments is made into one name (`name`): in each segment a run of letters that are not plain
becomes one `dash`, edge letters are dropped at both ends, and a segment with nothing left is `blank`; the
segments are then joined.

What a name does not tell apart is generated by single replacements (`Blur`). A replacement keeps the name
(`name_blur`), every path can be turned into its own name (`eqvGen_name`), and so two paths have one name
if and only if replacements lead from one to the other (`name_eq_iff`). -/

namespace ControlPlane.Lib.Slug

open Relation

/-- The letters of names. -/
structure Alphabet (α : Type) where
  plain : α → Bool
  edge : α → Bool
  dash : α
  joint : List α
  blank : List α
  plain_dash : plain dash = true
  plain_edge : ∀ c, edge c = true → plain c = true
  edge_dash : edge dash = true
  edge_joint : ∀ c ∈ joint, edge c = true
  plain_blank : ∀ c ∈ blank, plain c = true ∧ edge c = false
  blank_ne : blank ≠ []

variable {α : Type} (A : Alphabet α)

/-- Every run of letters that are not plain is one dash; `inRun` if the last letter was not plain. -/
def Alphabet.dashed : Bool → List α → List α
  | _, [] => []
  | inRun, c :: cs =>
    if A.plain c then c :: dashed false cs
    else if inRun then dashed true cs else A.dash :: dashed true cs

/-- The letters between the edges. -/
def Alphabet.trimmed (cs : List α) : List α := (cs.dropWhile A.edge).rdropWhile A.edge

/-- The part of a name that a segment is. -/
def Alphabet.clean (segment : List α) : List α :=
  let cs := A.trimmed (A.dashed false segment)
  if cs.isEmpty then A.blank else cs

/-- The name of a path. -/
def Alphabet.name (path : List (List α)) : List α := A.joint.intercalate (path.map A.clean)

/-- A letter that no end of a segment loses. -/
def Alphabet.Solid (c : α) : Prop := A.plain c = true ∧ A.edge c = false

/-- The list is empty or starts with a plain letter. -/
def Alphabet.Opens (cs : List α) : Prop := ∀ c, cs.head? = some c → A.plain c = true

/-- The list is empty or ends with a plain letter. -/
def Alphabet.Closes (cs : List α) : Prop := ∀ c, cs.getLast? = some c → A.plain c = true

/-- The list starts and ends with solid letters. -/
structure Alphabet.Firm (cs : List α) : Prop where
  ne_nil : cs ≠ []
  head : ∀ c, cs.head? = some c → A.Solid c
  last : ∀ c, cs.getLast? = some c → A.Solid c

/-- **A replacement** that names do not show: a whole run of letters that are not plain by a dash, an edge
letter at the end of a segment by nothing, nothing by `blank`, and the border of two segments by the joint
between solid letters. -/
inductive Alphabet.Blur : List (List α) → List (List α) → Prop
  | run (before after : List (List α)) (u w v : List α) (hw : w ≠ []) (hrun : ∀ c ∈ w, A.plain c = false)
      (hu : A.Closes u) (hv : A.Opens v) :
      Blur (before ++ (u ++ w ++ v) :: after) (before ++ (u ++ A.dash :: v) :: after)
  | start (before after : List (List α)) (c : α) (u : List α) (hc : A.edge c = true) :
      Blur (before ++ (c :: u) :: after) (before ++ u :: after)
  | stop (before after : List (List α)) (c : α) (u : List α) (hc : A.edge c = true) :
      Blur (before ++ (u ++ [c]) :: after) (before ++ u :: after)
  | empty (before after : List (List α)) : Blur (before ++ [] :: after) (before ++ A.blank :: after)
  | border (before after : List (List α)) (u v : List α) (c d : α) (hu : u.getLast? = some c)
      (hc : A.Solid c) (hv : v.head? = some d) (hd : A.Solid d) :
      Blur (before ++ u :: v :: after) (before ++ (u ++ A.joint ++ v) :: after)

variable {A}

/-! ### Segments -/

theorem dashed_of_opens {cs : List α} (h : A.Opens cs) : A.dashed true cs = A.dashed false cs := by
  cases cs with
  | nil => rfl
  | cons c cs =>
    have hc := h c rfl
    rw [Alphabet.dashed, Alphabet.dashed, if_pos hc, if_pos hc]

/-- After a plain letter a run is new. -/
theorem dashed_append {u v : List α} (hu : A.Closes u) : ∀ {inRun : Bool}, (u = [] → inRun = false) →
    A.dashed inRun (u ++ v) = A.dashed inRun u ++ A.dashed false v := by
  induction u with
  | nil =>
    intro inRun h
    rw [h rfl]
    rfl
  | cons c u ih =>
    intro inRun _
    have hu' : A.Closes u := by
      intro d hd
      refine hu d ?_
      cases u with
      | nil => cases hd
      | cons e u => rw [List.getLast?_cons_cons, hd]
    rw [List.cons_append, Alphabet.dashed, Alphabet.dashed]
    by_cases hc : A.plain c = true
    · rw [if_pos hc, if_pos hc, ih hu' fun _ => rfl, List.cons_append]
    · have hne : u ≠ [] := by
        rintro rfl
        exact hc (hu c rfl)
      rw [if_neg hc, if_neg hc, ih hu' fun h => absurd h hne]
      split_ifs
      · rfl
      · rw [List.cons_append]

theorem dashed_run {w v : List α} (hrun : ∀ c ∈ w, A.plain c = false) (hv : A.Opens v) :
    A.dashed true (w ++ v) = A.dashed false v := by
  induction w with
  | nil => exact dashed_of_opens hv
  | cons c w ih =>
    rw [List.forall_mem_cons] at hrun
    rw [List.cons_append, Alphabet.dashed, if_neg (by simp [hrun.1]), if_pos rfl, ih hrun.2]

/-- A whole run is one dash. -/
theorem dashed_run_eq {w v : List α} (hw : w ≠ []) (hrun : ∀ c ∈ w, A.plain c = false) (hv : A.Opens v) :
    A.dashed false (w ++ v) = A.dashed false (A.dash :: v) := by
  cases w with
  | nil => exact absurd rfl hw
  | cons c w =>
    rw [List.forall_mem_cons] at hrun
    rw [List.cons_append, Alphabet.dashed, if_neg (by simp [hrun.1]), if_neg (by simp),
      dashed_run hrun.2 hv, Alphabet.dashed, if_pos A.plain_dash]

/-- Plain letters stay. -/
theorem dashed_of_plain {cs : List α} (h : ∀ c ∈ cs, A.plain c = true) : ∀ inRun, A.dashed inRun cs = cs := by
  induction cs with
  | nil => exact fun _ => rfl
  | cons c cs ih =>
    rw [List.forall_mem_cons] at h
    intro inRun
    rw [Alphabet.dashed, if_pos h.1, ih h.2]

theorem dashed_plain : ∀ (cs : List α) (inRun : Bool), ∀ c ∈ A.dashed inRun cs, A.plain c = true
  | [], _, c, h => by cases h
  | d :: cs, inRun, c, h => by
    rw [Alphabet.dashed] at h
    split_ifs at h with hd hrun
    · rcases List.mem_cons.mp h with rfl | h
      · exact hd
      · exact dashed_plain cs false c h
    · exact dashed_plain cs true c h
    · rcases List.mem_cons.mp h with rfl | h
      · exact A.plain_dash
      · exact dashed_plain cs true c h

theorem trimmed_cons {c : α} (hc : A.edge c = true) (cs : List α) : A.trimmed (c :: cs) = A.trimmed cs := by
  rw [Alphabet.trimmed, Alphabet.trimmed, List.dropWhile_cons_of_pos hc]

theorem trimmed_concat {c : α} (hc : A.edge c = true) (cs : List α) :
    A.trimmed (cs ++ [c]) = A.trimmed cs := by
  rw [Alphabet.trimmed, Alphabet.trimmed, List.dropWhile_append]
  split_ifs with h
  · rw [List.isEmpty_iff.mp h, List.dropWhile_cons_of_pos hc]
    rfl
  · rw [List.rdropWhile_concat_pos _ _ _ hc]

/-- Between firm ends nothing is trimmed. -/
theorem trimmed_firm {cs : List α} (h : A.Firm cs) : A.trimmed cs = cs := by
  obtain ⟨c, ds, rfl⟩ := List.exists_cons_of_ne_nil h.ne_nil
  rw [Alphabet.trimmed, List.dropWhile_cons_of_neg (by simp [(h.head c rfl).2]),
    List.rdropWhile_eq_self_iff]
  intro hne
  rw [(h.last _ (List.getLast?_eq_some_getLast hne)).2]
  simp

/-- What is left after trimming plain letters has firm ends. -/
theorem firm_trimmed {cs : List α} (hcs : ∀ c ∈ cs, A.plain c = true) (h : A.trimmed cs ≠ []) :
    A.Firm (A.trimmed cs) := by
  have hsub : ∀ c ∈ A.trimmed cs, A.plain c = true := fun c hc =>
    hcs c ((List.dropWhile_sublist _).subset ((List.rdropWhile_prefix _ _).subset hc))
  refine ⟨h, fun c hc => ⟨hsub c (List.mem_of_mem_head? hc), ?_⟩,
    fun c hc => ⟨hsub c (List.mem_of_mem_getLast? hc), ?_⟩⟩
  · obtain ⟨t, ht⟩ := List.rdropWhile_prefix A.edge (cs.dropWhile A.edge)
    have hhead : (cs.dropWhile A.edge).head? = some c := by
      rw [← ht, List.head?_append]
      unfold Alphabet.trimmed at hc
      rw [hc]
      rfl
    have hnot := List.head?_dropWhile_not A.edge cs
    rw [hhead] at hnot
    simpa using hnot
  · have hne : (cs.dropWhile A.edge).rdropWhile A.edge ≠ [] := h
    have hlast := List.rdropWhile_last_not A.edge _ hne
    rw [Alphabet.trimmed, List.getLast?_eq_some_getLast hne] at hc
    rw [← Option.some_inj.mp hc]
    simpa using hlast

theorem firm_blank : A.Firm A.blank :=
  ⟨A.blank_ne, fun _ hc => A.plain_blank _ (List.mem_of_mem_head? hc),
    fun _ hc => A.plain_blank _ (List.mem_of_mem_getLast? hc)⟩

theorem firm_clean (segment : List α) : A.Firm (A.clean segment) := by
  rw [Alphabet.clean]
  split_ifs with h
  · exact firm_blank
  · exact firm_trimmed (dashed_plain segment false) fun hnil => h (List.isEmpty_iff.mpr hnil)

theorem plain_clean (segment : List α) : ∀ c ∈ A.clean segment, A.plain c = true := by
  rw [Alphabet.clean]
  split_ifs
  · exact fun c hc => (A.plain_blank c hc).1
  · exact fun c hc => dashed_plain segment false c
      ((List.dropWhile_sublist _).subset ((List.rdropWhile_prefix _ _).subset hc))

/-- A name is plain. -/
theorem plain_name (path : List (List α)) : ∀ c ∈ A.name path, A.plain c = true := by
  unfold Alphabet.name
  induction path with
  | nil => simp
  | cons s path ih =>
    cases path with
    | nil => simpa using plain_clean s
    | cons t path =>
      intro c hc
      rw [List.map_cons, List.map_cons, List.intercalate_cons_cons, List.append_assoc] at hc
      rcases List.mem_append.mp hc with hc | hc
      · exact plain_clean s c hc
      · rcases List.mem_append.mp hc with hc | hc
        · exact A.plain_edge c (A.edge_joint c hc)
        · exact ih c hc

/-! ### Replacements keep names -/

theorem clean_congr {s t : List α} (h : A.trimmed (A.dashed false s) = A.trimmed (A.dashed false t)) :
    A.clean s = A.clean t := by
  rw [Alphabet.clean, Alphabet.clean, h]

/-- The name of a path depends on the names of its segments. -/
theorem name_congr (before after : List (List α)) {s t : List α} (h : A.clean s = A.clean t) :
    A.name (before ++ s :: after) = A.name (before ++ t :: after) := by
  simp only [Alphabet.name, List.map_append, List.map_cons, h]

/-- Two parts with the joint between them may be one. -/
theorem intercalate_border {j x y : List α} {after : List (List α)} : ∀ {before : List (List α)},
    j.intercalate (before ++ x :: y :: after) = j.intercalate (before ++ (x ++ j ++ y) :: after)
  | [] => by
    rw [List.nil_append, List.nil_append, List.intercalate_cons_cons]
    cases after with
    | nil => simp
    | cons z after => simp [List.intercalate_cons_cons]
  | b :: before => by
    rw [List.cons_append, List.cons_append, List.intercalate_cons_of_ne_nil (by simp),
      List.intercalate_cons_of_ne_nil (by simp), intercalate_border]

theorem dashed_concat {c : α} (hc : A.plain c = true) : ∀ (u : List α) (inRun : Bool),
    A.dashed inRun (u ++ [c]) = A.dashed inRun u ++ [c]
  | [], inRun => by simp [Alphabet.dashed, hc]
  | d :: u, inRun => by
    rw [List.cons_append, Alphabet.dashed, Alphabet.dashed]
    split_ifs
    · rw [dashed_concat hc u, List.cons_append]
    · rw [dashed_concat hc u]
    · rw [dashed_concat hc u, List.cons_append]

theorem trimmed_append {x j y : List α} {c d : α} (hx : x.getLast? = some c) (hc : A.edge c = false)
    (hy : y.head? = some d) (hd : A.edge d = false) :
    A.trimmed (x ++ j ++ y) = A.trimmed x ++ j ++ A.trimmed y := by
  obtain ⟨x, rfl⟩ : ∃ x', x = x' ++ [c] := List.getLast?_eq_some_iff.mp hx
  obtain ⟨y, rfl⟩ : ∃ y', y = d :: y' := List.head?_eq_some_iff.mp hy
  have hdrop : ∀ z, (x ++ [c] ++ z).dropWhile A.edge = (x ++ [c]).dropWhile A.edge ++ z := by
    intro z
    rw [List.dropWhile_append, if_neg]
    intro hnil
    have hall := List.dropWhile_eq_nil_iff.mp (List.isEmpty_iff.mp hnil) c (by simp)
    rw [hc] at hall
    cases hall
  have hrdrop : ∀ z, (z ++ d :: y).rdropWhile A.edge = z ++ (d :: y).rdropWhile A.edge := by
    intro z
    have hne : ¬ ((d :: y).reverse.dropWhile A.edge).isEmpty = true := by
      intro hnil
      have hall := List.dropWhile_eq_nil_iff.mp (List.isEmpty_iff.mp hnil) d (by simp)
      rw [hd] at hall
      cases hall
    rw [List.rdropWhile, List.rdropWhile, List.reverse_append, List.dropWhile_append, if_neg hne,
      List.reverse_append, List.reverse_reverse]
  have hleft : A.trimmed (x ++ [c]) = (x ++ [c]).dropWhile A.edge := by
    rw [Alphabet.trimmed, List.dropWhile_append]
    split_ifs
    · rw [List.dropWhile_cons_of_neg (by simp [hc]), List.rdropWhile_singleton, if_neg (by simp [hc])]
    · rw [List.rdropWhile_concat_neg _ _ _ (by simp [hc])]
  rw [hleft, Alphabet.trimmed, List.append_assoc (x ++ [c]) j, hdrop, ← List.append_assoc, hrdrop,
    Alphabet.trimmed, List.dropWhile_cons_of_neg (by simp [hd])]

theorem clean_border {u v : List α} {c d : α} (hu : u.getLast? = some c) (hc : A.Solid c)
    (hv : v.head? = some d) (hd : A.Solid d) :
    A.clean (u ++ A.joint ++ v) = A.clean u ++ A.joint ++ A.clean v := by
  have hjoint : ∀ e ∈ A.joint, A.plain e = true := fun e he => A.plain_edge e (A.edge_joint e he)
  have hcloses : A.Closes u := by
    intro e he
    rw [hu] at he
    rw [← Option.some_inj.mp he]
    exact hc.1
  have hdashed : A.dashed false (u ++ A.joint ++ v) = A.dashed false u ++ A.joint ++ A.dashed false v := by
    rw [List.append_assoc, dashed_append hcloses fun _ => rfl,
      dashed_append (fun e he => hjoint e (List.mem_of_mem_getLast? he)) fun _ => rfl, dashed_of_plain hjoint,
      List.append_assoc]
  have hlast : (A.dashed false u).getLast? = some c := by
    obtain ⟨u, rfl⟩ := List.getLast?_eq_some_iff.mp hu
    rw [dashed_concat hc.1]
    simp
  have hhead : (A.dashed false v).head? = some d := by
    obtain ⟨v, rfl⟩ := List.head?_eq_some_iff.mp hv
    rw [Alphabet.dashed, if_pos hd.1]
    rfl
  have hne : ∀ {x : List α} {e : α}, e ∈ x → A.edge e = false → A.trimmed x ≠ [] := by
    intro x e he hedge hnil
    have hdrop := List.rdropWhile_eq_nil_iff.mp hnil
    have hmem : e ∈ x.takeWhile A.edge ++ x.dropWhile A.edge := by rwa [List.takeWhile_append_dropWhile]
    rcases List.mem_append.mp hmem with h | h
    · have h' := List.mem_takeWhile_imp h
      rw [hedge] at h'
      cases h'
    · have h' := hdrop e h
      rw [hedge] at h'
      cases h'
  have hcleanOf : ∀ {x : List α}, A.trimmed (A.dashed false x) ≠ [] →
      A.clean x = A.trimmed (A.dashed false x) := by
    intro x hx
    rw [Alphabet.clean, if_neg (by simpa using hx)]
  have htrimmed := trimmed_append (j := A.joint) hlast hc.2 hhead hd.2
  have hu' := hne (List.mem_of_mem_getLast? hlast) hc.2
  have hv' := hne (List.mem_of_mem_head? hhead) hd.2
  have huv : A.trimmed (A.dashed false (u ++ A.joint ++ v)) ≠ [] := by
    rw [hdashed, htrimmed]
    simp [hu']
  rw [hcleanOf huv, hdashed, htrimmed, hcleanOf hu', hcleanOf hv']

theorem name_blur {p q : List (List α)} (h : A.Blur p q) : A.name p = A.name q := by
  cases h with
  | run before after u w v hw hrun hu hv =>
    refine name_congr _ _ (clean_congr ?_)
    rw [List.append_assoc, dashed_append hu fun _ => rfl, dashed_run_eq hw hrun hv,
      dashed_append hu fun _ => rfl]
  | start before after c u hc =>
    refine name_congr _ _ (clean_congr ?_)
    rw [Alphabet.dashed, if_pos (A.plain_edge c hc), trimmed_cons hc]
  | stop before after c u hc =>
    refine name_congr _ _ (clean_congr ?_)
    rw [dashed_concat (A.plain_edge c hc), trimmed_concat hc]
  | empty before after =>
    refine name_congr _ _ ?_
    have hblank : A.trimmed (A.dashed false A.blank) = A.blank := by
      rw [dashed_of_plain fun c hc => (A.plain_blank c hc).1, trimmed_firm firm_blank]
    change A.blank = A.clean A.blank
    rw [Alphabet.clean, hblank, ite_self]
  | border before after u v c d hu hc hv hd =>
    simp only [Alphabet.name, List.map_append, List.map_cons, clean_border hu hc hv hd]
    exact intercalate_border

theorem name_eqvGen {p q : List (List α)} (h : EqvGen A.Blur p q) : A.name p = A.name q := by
  induction h with
  | rel _ _ h => exact name_blur h
  | refl _ => rfl
  | symm _ _ _ ih => exact ih.symm
  | trans _ _ _ _ _ ih1 ih2 => exact ih1.trans ih2

/-! ### A path and its name -/

theorem opens_dropWhile (cs : List α) : A.Opens (cs.dropWhile fun c => !A.plain c) := by
  intro c hc
  have hnot := List.head?_dropWhile_not (fun c => !A.plain c) cs
  rw [hc] at hnot
  simpa using hnot

section Replace
variable (before after : List (List α))

/-- Run by run, a segment gets its dashes. -/
theorem eqvGen_dashed (s u : List α) (hu : A.Closes u) :
    EqvGen A.Blur (before ++ (u ++ s) :: after) (before ++ (u ++ A.dashed false s) :: after) := by
  induction hn : s.length using Nat.strong_induction_on generalizing s u with
  | _ n ih =>
    subst hn
    have hplain : ∀ c, A.plain c = true → A.Closes (u ++ [c]) := by
      intro c hc d hd
      rw [List.getLast?_concat] at hd
      rwa [← Option.some_inj.mp hd]
    cases s with
    | nil => exact EqvGen.refl _
    | cons c cs =>
      by_cases hc : A.plain c = true
      · have hih := ih cs.length (by simp) cs (u ++ [c]) (hplain c hc) rfl
        rw [Alphabet.dashed, if_pos hc]
        simpa using hih
      · -- the run and what follows it
        obtain ⟨w, hw⟩ : ∃ w, w = (c :: cs).takeWhile fun c => !A.plain c := ⟨_, rfl⟩
        obtain ⟨v, hv⟩ : ∃ v, v = (c :: cs).dropWhile fun c => !A.plain c := ⟨_, rfl⟩
        have hcs : c :: cs = w ++ v := by rw [hw, hv, List.takeWhile_append_dropWhile]
        have hne : w ≠ [] := by
          rw [hw, List.takeWhile_cons_of_pos (by simpa using hc)]
          simp
        have hrun : ∀ d ∈ w, A.plain d = false := by
          intro d hd
          rw [hw] at hd
          simpa using List.mem_takeWhile_imp hd
        have hopens : A.Opens v := hv ▸ opens_dropWhile (c :: cs)
        have hlength : v.length < (c :: cs).length := by
          rw [hcs, List.length_append]
          have := List.length_pos_iff.mpr hne
          omega
        have hstep := EqvGen.rel _ _ (Alphabet.Blur.run before after u w v hne hrun hu hopens)
        have hih := ih v.length hlength v (u ++ [A.dash]) (hplain _ A.plain_dash) rfl
        rw [hcs, dashed_run_eq hne hrun hopens, Alphabet.dashed, if_pos A.plain_dash]
        refine EqvGen.trans _ _ _ ?_ (by simpa using hih)
        simpa using hstep

theorem eqvGen_dropWhile : ∀ s : List α,
    EqvGen A.Blur (before ++ s :: after) (before ++ s.dropWhile A.edge :: after)
  | [] => EqvGen.refl _
  | c :: s => by
    by_cases hc : A.edge c = true
    · rw [List.dropWhile_cons_of_pos hc]
      exact EqvGen.trans _ _ _ (EqvGen.rel _ _ (.start before after c s hc)) (eqvGen_dropWhile s)
    · rw [List.dropWhile_cons_of_neg hc]
      exact EqvGen.refl _

theorem eqvGen_rdropWhile (s : List α) :
    EqvGen A.Blur (before ++ s :: after) (before ++ s.rdropWhile A.edge :: after) := by
  induction s using List.reverseRecOn with
  | nil => exact EqvGen.refl _
  | append_singleton s c ih =>
    by_cases hc : A.edge c = true
    · rw [List.rdropWhile_concat_pos _ _ _ hc]
      exact EqvGen.trans _ _ _ (EqvGen.rel _ _ (.stop before after c s hc)) ih
    · rw [List.rdropWhile_concat_neg _ _ _ hc]
      exact EqvGen.refl _

/-- A segment can be turned into its part of the name. -/
theorem eqvGen_clean (s : List α) : EqvGen A.Blur (before ++ s :: after) (before ++ A.clean s :: after) := by
  have hdashed := eqvGen_dashed before after s [] (A := A) (by simp [Alphabet.Closes])
  have htrimmed := EqvGen.trans _ _ _ (eqvGen_dropWhile before after (A := A) (A.dashed false s))
    (eqvGen_rdropWhile before after _)
  refine EqvGen.trans _ _ _ (EqvGen.trans _ _ _ hdashed htrimmed) ?_
  rw [Alphabet.clean]
  split_ifs with hempty
  · have hnil : ((A.dashed false s).dropWhile A.edge).rdropWhile A.edge = [] := List.isEmpty_iff.mp hempty
    rw [hnil]
    exact EqvGen.rel _ _ (.empty before after)
  · exact EqvGen.refl _

end Replace

theorem eqvGen_map_clean : ∀ (before p : List (List α)),
    EqvGen A.Blur (before ++ p) (before ++ p.map A.clean)
  | _, [] => EqvGen.refl _
  | before, s :: p => by
    refine EqvGen.trans _ _ _ (eqvGen_clean before p s) ?_
    have hrest := eqvGen_map_clean (before ++ [A.clean s]) p
    simpa using hrest

theorem firm_border {x y : List α} (hx : A.Firm x) (hy : A.Firm y) : A.Firm (x ++ A.joint ++ y) := by
  refine ⟨by simp [hx.ne_nil], fun c hc => ?_, fun c hc => ?_⟩
  · obtain ⟨d, x, rfl⟩ := List.exists_cons_of_ne_nil hx.ne_nil
    exact hx.head c hc
  · rw [List.getLast?_append_of_ne_nil _ hy.ne_nil] at hc
    exact hy.last c hc

/-- Segments with firm ends can be joined. -/
theorem eqvGen_intercalate : ∀ {x : List α} {p : List (List α)}, (∀ s ∈ x :: p, A.Firm s) →
    EqvGen A.Blur (x :: p) [A.joint.intercalate (x :: p)]
  | x, [], _ => by
    rw [List.intercalate_singleton]
    exact EqvGen.refl _
  | x, y :: p, h => by
    rw [List.forall_mem_cons, List.forall_mem_cons] at h
    obtain ⟨hx, hy, hp⟩ := h
    have hc := List.getLast?_eq_some_getLast hx.ne_nil
    have hd := List.head?_eq_some_head hy.ne_nil
    have hstep : A.Blur (x :: y :: p) ((x ++ A.joint ++ y) :: p) :=
      .border [] p x y _ _ hc (hx.last _ hc) hd (hy.head _ hd)
    have hrest := eqvGen_intercalate (List.forall_mem_cons.mpr ⟨firm_border hx hy, hp⟩)
    have hsame : A.joint.intercalate (x :: y :: p) = A.joint.intercalate ((x ++ A.joint ++ y) :: p) :=
      @intercalate_border _ _ _ _ _ []
    rw [hsame]
    exact EqvGen.trans _ _ _ (EqvGen.rel _ _ hstep) hrest

/-- A name has firm ends. -/
theorem firm_name : ∀ {p : List (List α)}, p ≠ [] → A.Firm (A.name p)
  | [], h => absurd rfl h
  | [s], _ => by
    rw [Alphabet.name, List.map_singleton, List.intercalate_singleton]
    exact firm_clean s
  | s :: t :: p, _ => by
    rw [Alphabet.name, List.map_cons, List.map_cons, List.intercalate_cons_cons]
    exact firm_border (firm_clean s) (firm_name (List.cons_ne_nil t p))

/-- A path can be turned into its name. -/
theorem eqvGen_name {p : List (List α)} (hp : p ≠ []) : EqvGen A.Blur p [A.name p] := by
  obtain ⟨s, p, rfl⟩ := List.exists_cons_of_ne_nil hp
  refine EqvGen.trans _ _ _ (eqvGen_map_clean [] (s :: p)) (eqvGen_intercalate ?_)
  intro t ht
  obtain ⟨u, -, rfl⟩ : ∃ u ∈ s :: p, A.clean u = t := List.mem_map.mp ht
  exact firm_clean u

/-- **Two paths have one name** if and only if replacements lead from one to the other. -/
theorem name_eq_iff {p q : List (List α)} (hp : p ≠ []) (hq : q ≠ []) :
    A.name p = A.name q ↔ EqvGen A.Blur p q := by
  refine ⟨fun h => ?_, name_eqvGen⟩
  have hleft := eqvGen_name (A := A) hp
  rw [h] at hleft
  exact EqvGen.trans _ _ _ hleft (EqvGen.symm _ _ (eqvGen_name hq))

end ControlPlane.Lib.Slug
