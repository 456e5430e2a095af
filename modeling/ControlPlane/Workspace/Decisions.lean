import ControlPlane.Workspace.Registry
import ControlPlane.Instance

/-! # Decisions on repositories

Refreshes and decisions, one after the other, on one registry. In a run whose discoveries find clean
repositories only and whose writes do not fail after the registry was replaced, the registry holds after each
refresh what the refresh made, a decision changes one repository, a call that raises changes nothing, and
decisions last (`registry_run`). A refresh is read again if and only if its repositories are clean
(`refresh_iff`). -/

namespace ControlPlane.Workspace.Decisions

open ControlPlane.Lib.Value ControlPlane.Lib.Dynamic ControlPlane.Lib.Text ControlPlane.Environment
open ControlPlane.Instance ControlPlane.Workspace.Registry

variable {F : Type} (E : Env F)

/-! ### Runs -/

inductive Command where
  | refresh (opened : Py String) (disk : Disk) (requireAcceptance : Bool) (autoInclude : Option Bool)
      (discovered : Py Discovery)
  | setIncluded (opened : Py String) (disk : Disk) (selector : String) (included : Bool)

def step (stored : Stored) : Command → Stored × Py (Dict F)
  | .refresh opened disk requireAcceptance autoInclude discovered =>
    refreshRegistry E opened disk (includeNew requireAcceptance autoInclude) discovered stored
  | .setIncluded opened disk selector included =>
    setRepositoryIncluded E opened disk selector included stored

/-- The registry after some commands, each of which may raise. -/
def after (stored : Stored) : List Command → Stored
  | [] => stored
  | c :: cs => after (step E stored c).1 cs

theorem after_append (stored : Stored) (cs ds : List Command) :
    after E stored (cs ++ ds) = after E (after E stored cs) ds := by
  induction cs generalizing stored with
  | nil => rfl
  | cons c cs ih => exact ih _

/-- What a command that returns does: the registry reads as what the refresh merged, or as before but for the
one repository that was selected. -/
def Exact (stored : Stored) : Command → Prop
  | .refresh opened disk requireAcceptance autoInclude discovered => ∀ summary,
    (step E stored (.refresh opened disk requireAcceptance autoInclude discovered)).2 = .ok summary →
    ∃ discovery existing specs, discovered = .ok discovery ∧ loadRegistry E stored = .ok existing ∧
      loadRegistry E (step E stored (.refresh opened disk requireAcceptance autoInclude discovered)).1 =
        .ok specs ∧
      specs.Perm (merged (includeNew requireAcceptance autoInclude) existing discovery)
  | .setIncluded opened disk selector included => ∀ summary,
    (step E stored (.setIncluded opened disk selector included)).2 = .ok summary →
    ∃ existing target specs, loadRegistry E stored = .ok existing ∧ (existing.map (·.identity)).Nodup ∧
      target ∈ existing ∧ selected E existing (strip selector) = .ok target ∧
      loadRegistry E (step E stored (.setIncluded opened disk selector included)).1 = .ok specs ∧
      specs.Perm (existing.map fun repo => if repo = target then decide_ included repo else repo)

/-- A command that raises leaves the registry as it was. -/
def Atomic (stored : Stored) (c : Command) : Prop :=
  ∀ e, (step E stored c).2 = .error e → (step E stored c).1 = stored

/-- The registry holds a manual decision. -/
def Decided (stored : Stored) (identity : Identity) (included : Bool) : Prop :=
  ∃ specs repo, loadRegistry E stored = .ok specs ∧ repo ∈ specs ∧ repo.identity = identity ∧
    repo.included = included ∧ repo.reason = if included then "manual-include" else "manual-exclude"

/-- The command returns and decides on a repository. -/
def Decides (stored : Stored) (c : Command) (target : RepositorySpec) (included : Bool) : Prop :=
  ∃ opened disk selector summary existing, c = .setIncluded opened disk selector included ∧
    (step E stored c).2 = .ok summary ∧ loadRegistry E stored = .ok existing ∧
    selected E existing (strip selector) = .ok target

/-- The command discovers a repository with the identity, or decides on no such repository. -/
def Undisturbed (identity : Identity) (stored : Stored) : Command → Prop
  | .refresh _ _ _ _ discovered => ∀ discovery, discovered = .ok discovery →
    ∃ repo ∈ discovery.repositories, repo.identity = identity
  | .setIncluded _ _ selector _ => ∀ existing target, loadRegistry E stored = .ok existing →
    selected E existing (strip selector) = .ok target → target.identity ≠ identity

/-- No command of a run disturbs. -/
def AllUndisturbed (identity : Identity) (stored : Stored) : List Command → Prop
  | [] => True
  | c :: cs => Undisturbed E identity stored c ∧ AllUndisturbed identity (step E stored c).1 cs

/-- A command that discovers clean repositories only, and whose write does not fail half-way. -/
def Harmless : Command → Prop
  | .refresh _ disk _ _ discovered => disk ≠ .unsynced ∧
    ∀ discovery, discovered = .ok discovery → ∀ repo ∈ discovery.repositories, Clean repo
  | .setIncluded _ disk _ _ => disk ≠ .unsynced

variable {E}

/-! ### Steps -/

def Command.disk : Command → Disk
  | .refresh _ disk _ _ _ => disk
  | .setIncluded _ disk _ _ => disk

variable (E) in
/-- The repositories that a command writes. -/
def Writes (stored : Stored) (repositories : List RepositorySpec) : Command → Prop
  | .refresh _ _ requireAcceptance autoInclude discovered => ∃ existing discovery,
    loadRegistry E stored = .ok existing ∧ discovered = .ok discovery ∧
      repositories = merged (includeNew requireAcceptance autoInclude) existing discovery
  | .setIncluded _ _ selector included => ∃ existing target,
    loadRegistry E stored = .ok existing ∧ selected E existing (strip selector) = .ok target ∧
      repositories = existing.map fun repo => if repo = target then decide_ included repo else repo

variable (E) in
/-- The registry holds the text of these repositories. -/
def Holds (stored : Stored) (repositories : List RepositorySpec) : Prop :=
  ∃ content, stored = .text content ∧ E.fileText false (registryPayload E repositories) = .ok content

/-- A registry that was written can be read. -/
theorem load_of_holds {stored : Stored} {repositories : List RepositorySpec}
    (h : Holds E stored repositories) : ∃ specs, loadRegistry E stored = .ok specs := by
  obtain ⟨content, rfl, hcontent⟩ := h
  have hloads := jsonLoads_fileText_of E (if_neg Bool.false_ne_true) (wellFormed_payload repositories) hcontent
  exact ⟨_, by rw [loadRegistry, hloads]⟩

/-- What comes of a write: it is refused, or the registry holds what was written, and the call raises then only
if the directory cannot be synchronised. -/
theorem finish_cases (disk : Disk) (repositories : List RepositorySpec) (stored : Stored)
    {result : Stored → Py (Dict F)}
    (hresult : ∀ s specs, loadRegistry E s = .ok specs → ∃ summary, result s = .ok summary) :
    (∃ e, finish (atomicWriteJson E disk (registryPayload E repositories) stored) result =
        (stored, .error e)) ∨
      ∃ s outcome, finish (atomicWriteJson E disk (registryPayload E repositories) stored) result =
        (s, outcome) ∧ Holds E s repositories ∧ (disk = .unsynced ∨ ∃ summary, outcome = .ok summary) := by
  obtain ⟨content, hcontent⟩ := fileText_false_eq_ok E (printable_payload (E := E) repositories)
  have hholds : Holds E (.text content) repositories := ⟨content, rfl, hcontent⟩
  unfold atomicWriteJson
  rw [hcontent]
  cases disk with
  | written =>
    obtain ⟨specs, hspecs⟩ := load_of_holds hholds
    exact Or.inr ⟨_, _, rfl, hholds, Or.inr (hresult _ specs hspecs)⟩
  | refused => exact Or.inl ⟨_, rfl⟩
  | unsynced => exact Or.inr ⟨_, _, rfl, hholds, Or.inl rfl⟩

theorem registrySummary_ok (path : String) {stored : Stored} {specs : List RepositorySpec}
    (h : loadRegistry E stored = .ok specs) : ∃ summary, registrySummary E path stored = .ok summary := by
  rw [registrySummary, h]
  exact ⟨_, rfl⟩

theorem changedSummary_ok (path : String) (target : RepositorySpec) (included : Bool) {stored : Stored}
    {specs : List RepositorySpec} (h : loadRegistry E stored = .ok specs) :
    ∃ summary, changedSummary E path target included stored = .ok summary := by
  obtain ⟨summary, hsummary⟩ := registrySummary_ok path h
  rw [changedSummary, hsummary]
  exact ⟨_, rfl⟩

/-- **What a step can do**: it raises and changes nothing, or it writes. -/
theorem step_cases (stored : Stored) (c : Command) :
    (∃ e, step E stored c = (stored, .error e)) ∨
      ∃ s outcome repositories, step E stored c = (s, outcome) ∧ Writes E stored repositories c ∧
        Holds E s repositories ∧ (c.disk = .unsynced ∨ ∃ summary, outcome = .ok summary) := by
  cases c with
  | refresh opened disk requireAcceptance autoInclude discovered =>
    dsimp only [step, refreshRegistry]
    split
    · exact Or.inl ⟨_, rfl⟩
    · next _ path =>
      split
      · exact Or.inl ⟨_, rfl⟩
      · next existing hexisting =>
        split
        · exact Or.inl ⟨_, rfl⟩
        · next _ discovery =>
          rcases finish_cases disk (merged (includeNew requireAcceptance autoInclude) existing discovery)
            stored (fun s specs h => registrySummary_ok path h) with h | ⟨s, outcome, h, hs, ho⟩
          · exact Or.inl h
          · exact Or.inr ⟨s, outcome, _, h, ⟨existing, discovery, hexisting, rfl, rfl⟩, hs, ho⟩
  | setIncluded opened disk selector included =>
    dsimp only [step, setRepositoryIncluded]
    split_ifs
    · exact Or.inl ⟨_, rfl⟩
    · split
      · exact Or.inl ⟨_, rfl⟩
      · next _ path =>
        split
        · exact Or.inl ⟨_, rfl⟩
        · next existing hexisting =>
          split
          · exact Or.inl ⟨_, rfl⟩
          · next target htarget =>
            rcases finish_cases disk
              (existing.map fun repo => if repo = target then decide_ included repo else repo) stored
              (fun s specs h => changedSummary_ok path target included h)
              with h | ⟨s, outcome, h, hs, ho⟩
            · exact Or.inl h
            · exact Or.inr ⟨s, outcome, _, h, ⟨existing, target, hexisting, htarget, rfl⟩, hs, ho⟩

/-- A command whose write does not fail half-way is atomic. -/
theorem atomic_step {stored : Stored} {c : Command} (hdisk : c.disk ≠ .unsynced) : Atomic E stored c := by
  intro e he
  rcases step_cases stored c (E := E) with ⟨e', h⟩ | ⟨s, outcome, _, h, -, -, ho⟩
  · rw [h]
  · rw [h] at he
    obtain ⟨summary, hsummary⟩ := ho.resolve_left hdisk
    have he' : outcome = .error e := he
    rw [hsummary] at he'
    cases he'

/-! ### What is read after a write -/

theorem load_holds {stored : Stored} {repositories : List RepositorySpec} (h : Reads repositories)
    (hs : Holds E stored repositories) :
    ∃ specs, loadRegistry E stored = .ok specs ∧ specs.Perm repositories := by
  obtain ⟨content, rfl, hcontent⟩ := hs
  exact ⟨_, load_written h hcontent, (perm_ordered _).trans (perm_ordered _)⟩

theorem identity_decide (included : Bool) (repo : RepositorySpec) :
    (decide_ included repo).identity = repo.identity := rfl

theorem identity_mergeOne (include_ : Bool) (existing : List RepositorySpec) (repo : RepositorySpec) :
    (mergeOne include_ existing repo).identity = repo.identity := by
  rw [mergeOne]
  split
  · rfl
  · split_ifs <;> rfl

theorem clean_mergeOne {include_ : Bool} {existing : List RepositorySpec} {repo : RepositorySpec} :
    Clean (mergeOne include_ existing repo) ↔ Clean repo := by
  have hname : (mergeOne include_ existing repo).name = repo.name := by
    rw [mergeOne]
    split
    · rfl
    · split_ifs <;> rfl
  have hpath := congrArg Prod.fst (identity_mergeOne include_ existing repo)
  change (mergeOne include_ existing repo).relativePath = repo.relativePath at hpath
  constructor
  · rintro ⟨h1, h2, h3, h4⟩
    rw [hname] at h1 h2
    rw [hpath] at h3 h4
    exact ⟨h1, h2, h3, h4⟩
  · rintro ⟨h1, h2, h3, h4⟩
    refine ⟨?_, ?_, ?_, ?_⟩
    · rw [hname, h1]
    · rwa [hname]
    · rw [hpath, h3]
    · rwa [hpath]

/-- The repositories of a refresh are read again if they are clean. -/
theorem reads_merged {include_ : Bool} {existing : List RepositorySpec} {discovery : Discovery}
    (h : ∀ repo ∈ discovery.repositories, Clean repo) : Reads (merged include_ existing discovery) := by
  constructor
  · intro repo hrepo
    obtain ⟨r, hr, rfl⟩ := List.mem_map.mp hrepo
    exact clean_mergeOne.mpr (h r hr)
  · have hidentities : (merged include_ existing discovery).map (·.identity) =
        discovery.repositories.map (·.identity) := by
      rw [merged, List.map_map]
      exact List.map_congr_left fun repo _ => identity_mergeOne include_ existing repo
    rw [hidentities]
    refine List.Nodup.of_map Prod.fst ?_
    rw [List.map_map]
    exact discovery.distinct

theorem reads_decided {existing : List RepositorySpec} (h : Reads existing) (target : RepositorySpec)
    (included : Bool) :
    Reads (existing.map fun repo => if repo = target then decide_ included repo else repo) := by
  constructor
  · intro repo hrepo
    obtain ⟨r, hr, rfl⟩ := List.mem_map.mp hrepo
    have hclean := h.clean r hr
    split_ifs
    · exact ⟨hclean.name, hclean.name_ne, hclean.path, hclean.path_ne⟩
    · exact hclean
  · have hidentities : (existing.map fun repo => if repo = target then decide_ included repo else repo).map
        (·.identity) = existing.map (·.identity) := by
      rw [List.map_map]
      refine List.map_congr_left fun repo _ => ?_
      rw [Function.comp]
      split_ifs <;> rfl
    rw [hidentities]
    exact h.identities

theorem reads_writes {stored : Stored} {c : Command} {repositories : List RepositorySpec}
    (hc : Harmless c) (h : Writes E stored repositories c) : Reads repositories := by
  cases c with
  | refresh opened disk requireAcceptance autoInclude discovered =>
    obtain ⟨existing, discovery, -, hdiscovery, rfl⟩ := h
    exact reads_merged (hc.2 discovery hdiscovery)
  | setIncluded opened disk selector included =>
    obtain ⟨existing, target, hexisting, -, rfl⟩ := h
    exact reads_decided (reads_of_load hexisting) target included

theorem mem_of_selected {existing : List RepositorySpec} {selector : String} {target : RepositorySpec}
    (h : selected E existing selector = .ok target) : target ∈ existing := by
  unfold selected at h
  split at h
  · cases h
  · next repo hfilter =>
    rw [← Except.ok.inj h]
    exact (List.mem_filter.mp (hfilter ▸ List.mem_singleton_self repo)).1
  · cases h

theorem Harmless.disk_ne {c : Command} (h : Harmless c) : c.disk ≠ .unsynced := by
  cases c with
  | refresh _ _ _ _ _ => exact h.1
  | setIncluded _ _ _ _ => exact h

/-- A harmless command that returns is exact. -/
theorem exact_step {stored : Stored} {c : Command} (hc : Harmless c) : Exact E stored c := by
  have hwrites : ∀ summary, (step E stored c).2 = .ok summary → ∃ repositories specs,
      Writes E stored repositories c ∧ loadRegistry E (step E stored c).1 = .ok specs ∧
        specs.Perm repositories := by
    intro summary hsummary
    rcases step_cases stored c (E := E) with ⟨e, h⟩ | ⟨s, outcome, repositories, h, hw, hs, -⟩
    · rw [h] at hsummary
      cases hsummary
    · obtain ⟨specs, hspecs, hperm⟩ := load_holds (reads_writes hc hw) hs
      exact ⟨repositories, specs, hw, by rw [h]; exact hspecs, hperm⟩
  cases c with
  | refresh opened disk requireAcceptance autoInclude discovered =>
    intro summary hsummary
    obtain ⟨_, specs, ⟨existing, discovery, hexisting, hdiscovery, rfl⟩, hspecs, hperm⟩ :=
      hwrites summary hsummary
    exact ⟨discovery, existing, specs, hdiscovery, hexisting, hspecs, hperm⟩
  | setIncluded opened disk selector included =>
    intro summary hsummary
    obtain ⟨_, specs, ⟨existing, target, hexisting, htarget, rfl⟩, hspecs, hperm⟩ := hwrites summary hsummary
    exact ⟨existing, target, specs, hexisting, (reads_of_load hexisting).identities,
      mem_of_selected htarget, htarget, hspecs, hperm⟩

/-! ### Decisions last -/

/-- A repository has a manual decision. -/
def Manual (repo : RepositorySpec) (included : Bool) : Prop :=
  repo.included = included ∧ repo.reason = if included then "manual-include" else "manual-exclude"

theorem Manual.not_discovered {repo : RepositorySpec} {included : Bool} (h : Manual repo included) :
    (repo.reason == "discovered") = false := by
  rw [h.2]
  cases included <;> decide

/-- A merge takes over a manual decision. -/
theorem mergeOne_manual {existing : List RepositorySpec} (hids : (existing.map (·.identity)).Nodup)
    {previous : RepositorySpec} (hmem : previous ∈ existing) {included : Bool} (h : Manual previous included)
    {repo : RepositorySpec} (hrepo : repo.identity = previous.identity) (include_ : Bool) :
    Manual (mergeOne include_ existing repo) included := by
  have hfind : existing.find? (·.identity = repo.identity) = some previous := by
    cases hf : existing.find? (·.identity = repo.identity) with
    | none =>
      have hnone := List.find?_eq_none.mp hf previous hmem
      rw [hrepo] at hnone
      simp at hnone
    | some found =>
      have hid : found.identity = previous.identity := by
        rw [← hrepo]
        simpa using List.find?_some hf
      rw [List.inj_on_of_nodup_map hids (List.mem_of_find?_eq_some hf) hmem hid]
  rw [mergeOne, hfind]
  dsimp only
  rw [h.not_discovered, Bool.and_false, if_neg Bool.false_ne_true]
  exact h

/-- **One step** keeps a decision that it does not disturb. -/
theorem decided_step {stored : Stored} {c : Command} {identity : Identity} {included : Bool}
    (h : Decided E stored identity included) (hc : Harmless c) (hu : Undisturbed E identity stored c) :
    Decided E (step E stored c).1 identity included := by
  rcases step_cases stored c (E := E) with ⟨e, hstep⟩ | ⟨s, outcome, repositories, hstep, hw, hs, -⟩
  · rwa [hstep]
  · obtain ⟨existing, previous, hload, hprevious, hid, hmanual⟩ := h
    obtain ⟨specs, hspecs, hperm⟩ := load_holds (reads_writes hc hw) hs
    suffices hrepo : ∃ repo ∈ repositories, repo.identity = identity ∧ Manual repo included by
      obtain ⟨repo, hmem, hrid, hrm⟩ := hrepo
      rw [hstep]
      exact ⟨specs, repo, hspecs, hperm.mem_iff.mpr hmem, hrid, hrm⟩
    cases c with
    | refresh opened disk requireAcceptance autoInclude discovered =>
      obtain ⟨existing', discovery, hload', hdiscovery, rfl⟩ := hw
      rw [hload] at hload'
      obtain rfl := Except.ok.inj hload'
      obtain ⟨repo, hrepo, hrid⟩ := hu discovery hdiscovery
      refine ⟨_, List.mem_map_of_mem hrepo, (identity_mergeOne _ _ repo).trans hrid, ?_⟩
      exact mergeOne_manual (reads_of_load hload).identities hprevious hmanual (hrid.trans hid.symm) _
    | setIncluded opened disk selector included' =>
      obtain ⟨existing', target, hload', htarget, rfl⟩ := hw
      rw [hload] at hload'
      obtain rfl := Except.ok.inj hload'
      have hne : previous ≠ target := fun heq => hu existing target hload htarget (heq ▸ hid)
      exact ⟨previous, List.mem_map.mpr ⟨previous, hprevious, if_neg hne⟩, hid, hmanual⟩

/-- A decision that was made is in the registry. -/
theorem decided_of_decides {stored : Stored} {c : Command} {target : RepositorySpec} {included : Bool}
    (hc : Harmless c) (h : Decides E stored c target included) :
    Decided E (step E stored c).1 target.identity included := by
  obtain ⟨opened, disk, selector, summary, existing, rfl, hsummary, hload, htarget⟩ := h
  obtain ⟨existing', target', specs, hload', -, hmem, htarget', hspecs, hperm⟩ :=
    exact_step hc summary hsummary
  rw [hload] at hload'
  obtain rfl := Except.ok.inj hload'
  rw [htarget] at htarget'
  obtain rfl := Except.ok.inj htarget'
  refine ⟨specs, decide_ included target, hspecs, hperm.mem_iff.mpr ?_, rfl, rfl, rfl⟩
  exact List.mem_map.mpr ⟨target, hmem, if_pos rfl⟩

/-- **Every run** keeps a decision that it does not disturb. -/
theorem decided_after {identity : Identity} {included : Bool} : ∀ {cs : List Command} {stored : Stored},
    Decided E stored identity included → (∀ c ∈ cs, Harmless c) → AllUndisturbed E identity stored cs →
    Decided E (after E stored cs) identity included
  | [], _, h, _, _ => h
  | c :: cs, stored, h, hc, hu => by
    rw [List.forall_mem_cons] at hc
    rw [after]
    exact decided_after (decided_step h hc.1 hu.1) hc.2 hu.2

variable (E) in
/-- What the registry promises over a run. -/
structure Promised (start : Stored) (commands : List Command) : Prop where
  exact : ∀ before c rest, commands = before ++ c :: rest → Exact E (after E start before) c
  atomic : ∀ before c rest, commands = before ++ c :: rest → Atomic E (after E start before) c
  lasting : ∀ before c middle rest target included, commands = before ++ c :: (middle ++ rest) →
    Decides E (after E start before) c target included →
    AllUndisturbed E target.identity (after E start (before ++ [c])) middle →
    Decided E (after E start (before ++ c :: middle)) target.identity included

/-- **In a run of harmless commands** the registry is what the last refresh and the decisions made it. -/
theorem registry_run {start : Stored} {commands : List Command} (h : ∀ c ∈ commands, Harmless c) :
    Promised E start commands := by
  refine ⟨?_, ?_, ?_⟩
  · rintro before c rest rfl
    exact exact_step (h c (by simp))
  · rintro before c rest rfl
    exact atomic_step (h c (by simp)).disk_ne
  · rintro before c middle rest target included rfl hdecides hu
    have hdecided := decided_of_decides (h c (by simp)) hdecides
    have hafter : after E start (before ++ [c]) = (step E (after E start before) c).1 := by
      rw [after_append]
      rfl
    rw [hafter] at hu
    rw [after_append, after]
    exact decided_after hdecided (fun d hd => h d (by simp [hd])) hu

/-- **A refresh is read again** if and only if its repositories are clean. -/
theorem refresh_iff {opened : Py String} {requireAcceptance : Bool} {autoInclude : Option Bool}
    {discovery : Discovery} {stored : Stored} {existing : List RepositorySpec} {summary : Dict F}
    (hload : loadRegistry E stored = .ok existing)
    (hreturned : (step E stored (.refresh opened .written requireAcceptance autoInclude (.ok discovery))).2 =
      .ok summary) :
    (∃ specs, loadRegistry E
        (step E stored (.refresh opened .written requireAcceptance autoInclude (.ok discovery))).1 = .ok specs ∧
      specs.Perm (merged (includeNew requireAcceptance autoInclude) existing discovery)) ↔
      ∀ repo ∈ discovery.repositories, Clean repo := by
  constructor
  · rintro ⟨specs, hspecs, hperm⟩ repo hrepo
    have hmem := hperm.mem_iff.mpr (List.mem_map_of_mem hrepo)
    exact clean_mergeOne.mp ((reads_of_load hspecs).clean _ hmem)
  · intro hclean
    have hharmless : Harmless (.refresh opened .written requireAcceptance autoInclude (.ok discovery)) := by
      refine ⟨by simp, fun d hd => ?_⟩
      rwa [← Except.ok.inj hd]
    obtain ⟨d, existing', specs, hd, hload', hspecs, hperm⟩ := exact_step hharmless summary hreturned
    rw [hload] at hload'
    obtain rfl := Except.ok.inj hload'
    obtain rfl := Except.ok.inj hd
    exact ⟨specs, hspecs, hperm⟩

theorem refresh_returns (path : String) (requireAcceptance : Bool) (autoInclude : Option Bool)
    (discovery : Discovery) {stored : Stored} {existing : List RepositorySpec}
    (hload : loadRegistry E stored = .ok existing) : ∃ summary,
    (step E stored (.refresh (.ok path) .written requireAcceptance autoInclude (.ok discovery))).2 =
      .ok summary := by
  have hpayload := printable_payload (E := E)
    (merged (includeNew requireAcceptance autoInclude) existing discovery)
  obtain ⟨content, hcontent⟩ := fileText_false_eq_ok E hpayload
  obtain ⟨specs, hspecs⟩ := load_of_holds ⟨content, rfl, hcontent⟩
  obtain ⟨summary, hsummary⟩ := registrySummary_ok path hspecs
  refine ⟨summary, ?_⟩
  dsimp only [step, refreshRegistry]
  rw [hload]
  dsimp only [atomicWriteJson]
  rw [hcontent]
  exact hsummary

/-! ### On a platform -/

/-- A repository of a directory in the workspace, without a remote. -/
def repositoryAt (directory : String) : RepositorySpec :=
  ⟨directory, directory, none, none, none, none, false, "discovered"⟩

def discoveryOf (directory : String) : Discovery := ⟨[repositoryAt directory], List.nodup_singleton _⟩

theorem registry_run_api : Promised platform .missing
    [.refresh (.ok "repositories.json") .written true none (.ok (discoveryOf "api")),
      .setIncluded (.ok "repositories.json") .written "api" true] := by
  refine registry_run fun c hc => ?_
  rcases List.mem_pair.mp hc with rfl | rfl
  · refine ⟨by simp, fun discovery hdiscovery repo hrepo => ?_⟩
    rw [← Except.ok.inj hdiscovery] at hrepo
    rw [List.mem_singleton.mp hrepo]
    exact ⟨by decide +kernel, by decide, by decide +kernel, by decide⟩
  · exact nofun

/-- A directory whose name ends with a space makes the registry unreadable. -/
theorem unread : ¬ ∀ (start : Stored) (commands : List Command),
    (∀ c ∈ commands, c.disk = .written) → Promised platform start commands := by
  intro hall
  have hpromised := hall .missing
    [.refresh (.ok "repositories.json") .written true none (.ok (discoveryOf "api "))]
    (fun c hc => by rw [List.mem_singleton.mp hc]; rfl)
  have hload : loadRegistry platform .missing = .ok [] := rfl
  obtain ⟨summary, hsummary⟩ := refresh_returns "repositories.json" true none (discoveryOf "api ") hload
  obtain ⟨_, _, specs, hdiscovery, hexisting, hspecs, hperm⟩ := hpromised.exact [] _ [] rfl summary hsummary
  obtain rfl := Except.ok.inj hdiscovery
  obtain rfl := Except.ok.inj hexisting
  have hclean := (refresh_iff hload hsummary).mp ⟨specs, hspecs, hperm⟩ _ (List.mem_singleton_self _)
  have hpath : strip "api " = "api " := hclean.path
  revert hpath
  decide +kernel

end ControlPlane.Workspace.Decisions
