import Mathlib.Data.List.Basic

/-! # Publishing a file

A file is published through a temporary file next to it: the text is written there, and the name is
claimed by one atomic step, a hard link for a new file (`atomicCreateText`) and a rename to replace one
(`atomicWriteText`). Each step may raise an error of the operating system.

The folder afterwards holds the file if and only if no step up to the atomic one raised
(`files_create`, `files_write`); the call may raise all the same, after the file is there
(`create_eq_none`, `write_eq_none`). -/

namespace ControlPlane.Lib.Publish

/-- The errors of the operating system that are told apart. -/
inductive OsError where
  | fileExists
  | fileNotFound
  | other
  deriving DecidableEq

/-- The steps of a publication. -/
inductive Step where
  | makeFolder
  | makeTemporary
  | write
  | sync
  | publish
  | syncFolder
  | unlink
  deriving DecidableEq

/-- What makes a step raise, apart from a file that is there already. -/
inductive Fault where
  | missing
  | other
  deriving DecidableEq

def Fault.error : Fault → OsError
  | .missing => .fileNotFound
  | .other => .other

/-- The fault of each step, if it has one. -/
abbrev Faults := Step → Option Fault

/-- No step raises. -/
def noFault : Faults := fun _ => none

/-- One step raises. -/
def faultAt (step : Step) (fault : Fault) : Faults := fun s => if s = step then some fault else none

/-- The files of a folder, with their texts, and its temporary files. -/
structure Folder where
  files : List (String × String)
  temporaries : List String

/-- There is a file with the name. -/
def Folder.has (d : Folder) (name : String) : Bool := (d.files.map Prod.fst).contains name

/-- The text of a file. -/
def Folder.text? (d : Folder) (name : String) : Option String := d.files.lookup name

/-- The files with one more, or with another text for one. -/
def setFile (name text : String) : List (String × String) → List (String × String)
  | [] => [(name, text)]
  | file :: files => if file.1 = name then (name, text) :: files else file :: setFile name text files

/-- The error of the first of some steps that raises. -/
def firstError (f : Faults) : List Step → Option OsError
  | [] => none
  | step :: steps => match f step with
    | some fault => some fault.error
    | none => firstError f steps

/-- Removing the temporary file raises; that it is missing is ignored. -/
def Faults.unlinkRaises (f : Faults) : Bool := f .unlink = some .other

/-- Publishes a new file; the result is the error that the call raises, if any, and the folder. -/
def atomicCreateText (d : Folder) (name text temporary : String) (f : Faults) :
    Option OsError × Folder :=
  match firstError f [.makeFolder, .makeTemporary] with
  | some e => (some e, d)
  | none =>
    let (raised, files) := match firstError f [.write, .sync, .publish] with
      | some e => (some e, d.files)
      | none => if d.has name then (some .fileExists, d.files)
        else (firstError f [.syncFolder], d.files ++ [(name, text)])
    -- the temporary file is removed in every case
    if f.unlinkRaises then (some .other, ⟨files, d.temporaries ++ [temporary]⟩)
    else (raised, ⟨files, d.temporaries⟩)

/-- Publishes a file, replacing one of its name. -/
def atomicWriteText (d : Folder) (name text temporary : String) (f : Faults) : Option OsError × Folder :=
  match firstError f [.makeFolder, .makeTemporary] with
  | some e => (some e, d)
  | none => match firstError f [.write, .sync, .publish] with
    -- the temporary file is removed if possible
    | some e => (some e, if (f .unlink).isNone then d
        else { d with temporaries := d.temporaries ++ [temporary] })
    | none => (firstError f [.syncFolder], { d with files := setFile name text d.files })

/-- The steps up to the atomic one. -/
def Faults.publishes (f : Faults) : Bool :=
  (firstError f [.makeFolder, .makeTemporary, .write, .sync, .publish]).isNone

/-- A step after the atomic one raises. -/
def Faults.raisesLate (f : Faults) : Bool := (f .syncFolder).isSome || f.unlinkRaises

variable {d : Folder} {name text temporary : String} {f : Faults}

theorem firstError_append (s t : List Step) :
    firstError f (s ++ t) = (firstError f s).or (firstError f t) := by
  induction s with
  | nil => simp [firstError]
  | cons step s ih =>
    rw [List.cons_append, firstError, firstError]
    cases f step with
    | none => exact ih
    | some e => rfl

theorem publishes_iff : f.publishes = true ↔
    firstError f [.makeFolder, .makeTemporary] = none ∧ firstError f [.write, .sync, .publish] = none := by
  have h := firstError_append (f := f) [.makeFolder, .makeTemporary] [.write, .sync, .publish]
  rw [Faults.publishes, Option.isNone_iff_eq_none]
  rw [List.cons_append, List.cons_append, List.nil_append] at h
  rw [h, Option.or_eq_none_iff]

theorem syncFolder_eq_none : firstError f [.syncFolder] = none ↔ f .syncFolder = none := by
  rw [firstError]
  cases f .syncFolder <;> simp [firstError]

/-- **What the folder holds after a new file is published.** -/
theorem files_create : (atomicCreateText d name text temporary f).2.files =
    if f.publishes && !d.has name then d.files ++ [(name, text)] else d.files := by
  unfold atomicCreateText
  by_cases hp : f.publishes = true
  · obtain ⟨h1, h2⟩ := publishes_iff.mp hp
    rw [h1, h2, hp]
    by_cases hn : d.has name = true
    · simp only [hn, if_true]
      split_ifs <;> simp_all
    · simp only [Bool.not_eq_true] at hn
      simp only [hn]
      split_ifs <;> simp_all
  · have hno : ¬ (f.publishes && !d.has name) = true := by simp [hp]
    rw [if_neg hno]
    rw [publishes_iff, not_and] at hp
    cases h1 : firstError f [.makeFolder, .makeTemporary] with
    | some e => rfl
    | none =>
      cases h2 : firstError f [.write, .sync, .publish] with
      | none => exact absurd h2 (hp h1)
      | some e =>
        dsimp only
        split_ifs <;> rfl

/-- The error that the publication of a new file raises, if the name can be claimed. -/
theorem create_error (hp : f.publishes = true) :
    (atomicCreateText d name text temporary f).1 = if f.unlinkRaises then some .other
      else if d.has name then some .fileExists else firstError f [.syncFolder] := by
  obtain ⟨h1, h2⟩ := publishes_iff.mp hp
  unfold atomicCreateText
  rw [h1, h2]
  dsimp only
  split_ifs <;> rfl

/-- A step that raises before the name is claimed does not find a file there. -/
theorem create_early (hp : f.publishes = false) :
    ∃ e, (atomicCreateText d name text temporary f).1 = some e ∧ e ≠ .fileExists := by
  have herr : ∀ steps e, firstError f steps = some e → e ≠ .fileExists := by
    intro steps
    induction steps with
    | nil => simp [firstError]
    | cons step steps ih =>
      intro e he
      rw [firstError] at he
      cases hs : f step with
      | none =>
        rw [hs] at he
        exact ih e he
      | some fault =>
        rw [hs] at he
        cases he
        cases fault <;> simp [Fault.error]
  have hno : ¬ f.publishes = true := by simp [hp]
  rw [publishes_iff, not_and] at hno
  unfold atomicCreateText
  cases h1 : firstError f [.makeFolder, .makeTemporary] with
  | some e => exact ⟨e, rfl, herr _ _ h1⟩
  | none =>
    cases h2 : firstError f [.write, .sync, .publish] with
    | none => exact absurd h2 (hno h1)
    | some e =>
      dsimp only
      split_ifs
      · exact ⟨.other, rfl, by simp⟩
      · exact ⟨e, rfl, herr _ _ h2⟩

/-- **When the publication of a new file does not raise.** -/
theorem create_eq_none : (atomicCreateText d name text temporary f).1 = none ↔
    f.publishes = true ∧ d.has name = false ∧ f.raisesLate = false := by
  by_cases hp : f.publishes = true
  · rw [create_error hp]
    have hs := syncFolder_eq_none (f := f)
    unfold Faults.raisesLate
    split_ifs with h1 h2
    · simp [h1]
    · simp [h2]
    · simp [hp, h1, h2, hs]
  · obtain ⟨e, he, -⟩ := @create_early d name text temporary f (by simpa using hp)
    simp [he, hp]

/-- **What the folder holds after a file is replaced.** -/
theorem files_write : (atomicWriteText d name text temporary f).2.files =
    if f.publishes then setFile name text d.files else d.files := by
  unfold atomicWriteText
  by_cases hp : f.publishes = true
  · obtain ⟨h1, h2⟩ := publishes_iff.mp hp
    rw [h1, h2, hp]
    rfl
  · rw [if_neg hp]
    rw [publishes_iff, not_and] at hp
    cases h1 : firstError f [.makeFolder, .makeTemporary] with
    | some e => rfl
    | none =>
      cases h2 : firstError f [.write, .sync, .publish] with
      | none => exact absurd h2 (hp h1)
      | some e =>
        dsimp only
        split_ifs <;> rfl

/-- **When the replacement of a file does not raise.** -/
theorem write_eq_none : (atomicWriteText d name text temporary f).1 = none ↔
    f.publishes = true ∧ f .syncFolder = none := by
  unfold atomicWriteText
  rw [publishes_iff]
  cases h1 : firstError f [.makeFolder, .makeTemporary] with
  | some e => simp
  | none =>
    cases h2 : firstError f [.write, .sync, .publish] with
    | some e => simp
    | none => simp [syncFolder_eq_none]

/-- A file that is not there has no text. -/
theorem text?_eq_none (h : d.has name = false) : d.text? name = none := by
  unfold Folder.has at h
  rw [List.contains_eq_mem, decide_eq_false_iff_not] at h
  unfold Folder.text?
  rw [List.lookup_eq_none_iff]
  rintro ⟨a, b⟩ hp
  rw [bne_iff_ne]
  rintro rfl
  exact h (List.mem_map.mpr ⟨(name, b), hp, rfl⟩)

theorem lookup_setFile_self (files : List (String × String)) :
    (setFile name text files).lookup name = some text := by
  induction files with
  | nil => simp [setFile]
  | cons file files ih =>
    rw [setFile]
    by_cases h : file.1 = name
    · rw [if_pos h]
      simp
    · rw [if_neg h, List.lookup_cons, ih]
      have hne : (name == file.1) = false := beq_eq_false_iff_ne.mpr (Ne.symm h)
      rw [hne]

end ControlPlane.Lib.Publish
