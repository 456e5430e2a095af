import ControlPlane.Instance
import ControlPlane.Lib.Publish

/-! # The lock of a deployment state

The state file is written under a lock: a directory next to it, with a record of its owner in it. A directory that is
older than the lease is moved away, unless its owner is a live process of this host. `stateLock` runs a body under
the lock, with any of its file system steps raising.

The directory is removed after the body, but only if the record that is read back has the token of the call. A call
that gets the lock therefore removes it exactly if the record could be written, up to the last synchronisation, and
be read back (`released_iff`); where the record cannot be written, the body does not run and the lock stays
(`lock_kept`). -/

namespace ControlPlane.Deployment.Lock

open ControlPlane.Lib.Value ControlPlane.Lib.Floats ControlPlane.Lib.Dynamic ControlPlane.Lib.Dumps
open ControlPlane.Lib.Publish ControlPlane.Environment

def stateLockLeaseSeconds : ℚ := 300

/-- A lock directory; `id` tells it from the others. -/
structure LockDir where
  id : ℕ
  mtime : ℚ
  folder : Folder

/-- The lock directory that is there, if one is, and the rest of the disk. -/
structure Disk (σ : Type) where
  lock : Option LockDir
  rest : σ

/-- Which steps raise. -/
structure LockFaults where
  mkdir : Bool
  stat : Bool
  readStale : Bool
  rename : Bool
  mkdirAgain : Bool
  writeOwner : Faults
  readOwner : Bool
  remove : Bool

/-- The process that asks for the lock, with what it draws and reads. -/
structure Caller (F : Type) where
  pid : ℕ
  pid_lt : pid < 2 ^ 31
  host : String
  token : String
  now : ℚ
  acquiredAt : String
  leaseSeconds : F
  temporary : String
  /-- What signal 0 tells of a process. -/
  kill : ℤ → Option Bool

/-- What a call raises. -/
inductive LockError (ε : Type) where
  | locked
  | os
  | value (e : Exn)
  | body (e : ε)
  deriving DecidableEq

variable {F : Type} (E : Env F)

/-! ### Owners -/

def pidIsAlive (kill : ℤ → Option Bool) (pid : ℤ) : Option Bool := if pid ≤ 0 then some false else kill pid

def readLockOwner (folder : Folder) (raises : Bool) : Py (Dict F) :=
  if raises then .ok []
  else match folder.text? "owner.json" with
    | none => .ok []
    | some text => match E.jsonLoads text with
      | .ok (.obj owner) => .ok owner
      | .ok _ => .ok []
      | .error (.jsonDecodeError _) => .ok []
      | .error e => .error e

def ownerRecord (c : Caller F) : Dict F :=
  [("token", .str c.token), ("pid", .int c.pid), ("host_fingerprint", .str c.host), ("acquired_at", .str c.acquiredAt),
    ("lease_seconds", .float c.leaseSeconds)]

/-- The owner is a live process of this host. -/
def liveOwner (c : Caller F) (owner : Dict F) : Bool :=
  same E owner "host_fingerprint" c.host && match getKey owner "pid" with
    | .int pid => pidIsAlive c.kill pid == some true
    | _ => false

/-- `_recover_stale_lock`: whether the directory was moved away. -/
def recoverStaleLock (c : Caller F) (f : LockFaults) (dir : LockDir) : Py Bool :=
  if f.stat || decide (max 0 (c.now - dir.mtime) ≤ stateLockLeaseSeconds) then .ok false
  else do
    let owner ← readLockOwner E dir.folder f.readStale
    return !liveOwner E c owner && !f.rename

/-! ### The lock -/

section Bracket
variable {σ ε α : Type}

/-- The directory that a call makes. -/
def emptyDir (id : ℕ) (c : Caller F) : LockDir := ⟨id, c.now, ⟨[], []⟩⟩

/-- The two attempts to make the directory. -/
def acquire (c : Caller F) (f : LockFaults) (id : ℕ) (disk : Disk σ) : Disk σ × Except (LockError ε) LockDir :=
  if f.mkdir then (disk, .error .os)
  else match disk.lock with
    | none => ({ disk with lock := some (emptyDir id c) }, .ok (emptyDir id c))
    | some dir => match recoverStaleLock E c f dir with
      | .error e => (disk, .error (.value e))
      | .ok false => (disk, .error .locked)
      | .ok true =>
        if f.mkdirAgain then ({ disk with lock := none }, .error .os)
        else ({ disk with lock := some (emptyDir id c) }, .ok (emptyDir id c))

/-- The `finally` clause. -/
def release (c : Caller F) (f : LockFaults) (dir : LockDir) (result : Except (LockError ε) α) (rest : σ) :
    Disk σ × Except (LockError ε) α :=
  match readLockOwner E dir.folder f.readOwner with
  | .error e => (⟨some dir, rest⟩, .error (.value e))
  | .ok owner => if same E owner "token" c.token && !f.remove then (⟨none, rest⟩, result) else (⟨some dir, rest⟩, result)

def stateLock (c : Caller F) (f : LockFaults) (id : ℕ) (body : σ → σ × Except ε α) (disk : Disk σ) :
    Disk σ × Except (LockError ε) α :=
  match acquire E c f id disk with
  | (disk, .error e) => (disk, .error e)
  | (disk, .ok dir) => match E.fileText true (.obj (ownerRecord c)) with
    | .error e => (disk, .error (.value e))
    | .ok text => match atomicWriteText dir.folder "owner.json" text c.temporary f.writeOwner with
      | (some _, folder) => (⟨some { dir with folder := folder }, disk.rest⟩, .error .os)
      | (none, folder) =>
        let (rest, result) := body disk.rest
        release E c f { dir with folder := folder } (result.mapError .body) rest

/-- The directory that a call made is not there. -/
def Released (id : ℕ) (disk : Disk σ) : Prop := ∀ dir, disk.lock = some dir → dir.id ≠ id

/-- The lock can be had: no directory is there, or one that is moved away. -/
def Free (c : Caller F) (f : LockFaults) (disk : Disk σ) : Prop :=
  f.mkdir = false ∧ ∀ dir, disk.lock = some dir → recoverStaleLock E c f dir = .ok true ∧ f.mkdirAgain = false

/-- The record of the owner can be written, up to the last synchronisation, and be read back. -/
def Recorded (f : LockFaults) : Prop :=
  f.writeOwner.publishes = true ∧ f.writeOwner .syncFolder = none ∧ f.readOwner = false

/-! ### Release -/

variable {E} {c : Caller F} {f : LockFaults} {id : ℕ} {disk : Disk σ}

/-- **Getting the lock**: the new directory is there, or the one of this call is not. -/
theorem acquire_cases (hfresh : Released id disk) :
    (Free E c f disk ∧ acquire (ε := ε) E c f id disk = ({ disk with lock := some (emptyDir id c) }, .ok (emptyDir id c))) ∨
      ¬ Free E c f disk ∧ ∃ e disk', acquire (ε := ε) E c f id disk = (disk', .error e) ∧ Released id disk' := by
  unfold acquire
  by_cases hmkdir : f.mkdir = true
  · rw [if_pos hmkdir]
    exact Or.inr ⟨fun hfree => absurd hfree.1 (by rw [hmkdir]; decide), _, disk, rfl, hfresh⟩
  · rw [if_neg hmkdir]
    rw [Bool.not_eq_true] at hmkdir
    cases hlock : disk.lock with
    | none =>
      refine Or.inl ⟨⟨hmkdir, fun dir hdir => ?_⟩, rfl⟩
      rw [hlock] at hdir
      cases hdir
    | some dir =>
      have hnot : recoverStaleLock E c f dir ≠ .ok true → ¬ Free E c f disk := fun hne hfree =>
        hne (hfree.2 dir hlock).1
      dsimp only
      cases hrecover : recoverStaleLock E c f dir with
      | error e => exact Or.inr ⟨hnot (by rw [hrecover]; simp), _, disk, rfl, hfresh⟩
      | ok moved =>
        cases moved with
        | false => exact Or.inr ⟨hnot (by rw [hrecover]; simp), _, disk, rfl, hfresh⟩
        | true =>
          dsimp only
          by_cases hagain : f.mkdirAgain = true
          · rw [if_pos hagain]
            refine Or.inr ⟨fun hfree => ?_, _, _, rfl, fun dir hdir => nomatch hdir⟩
            rw [(hfree.2 dir hlock).2] at hagain
            cases hagain
          · rw [if_neg hagain]
            rw [Bool.not_eq_true] at hagain
            refine Or.inl ⟨⟨hmkdir, fun other hother => ?_⟩, rfl⟩
            rw [hlock, Option.some.injEq] at hother
            rw [← hother]
            exact ⟨hrecover, hagain⟩

theorem nodup_owner (c : Caller F) : (keys (ownerRecord c)).Nodup := by
  show ["token", "pid", "host_fingerprint", "acquired_at", "lease_seconds"].Nodup
  decide

theorem fileText_owner (c : Caller F) : ∃ text, E.fileText true (.obj (ownerRecord c)) = .ok text ∧
    E.jsonLoads text = .ok (.obj (sortDict (ownerRecord c))) := by
  have hpid : printable E.T.toFloatText true (.int (c.pid : ℤ)) = true := by
    have hlarge : 2 ^ 31 ≤ 10 ^ maxDigits :=
      le_trans (by norm_num : 2 ^ 31 ≤ 10 ^ 10) (Nat.pow_le_pow_right (by norm_num) (by decide))
    rw [printable, Int.natAbs_natCast]
    exact decide_eq_true (c.pid_lt.trans_le hlarge)
  have hprint : printable E.T.toFloatText true (.obj (ownerRecord c)) = true := by
    rw [printable_obj]
    intro p hp
    simp only [ownerRecord, List.mem_cons, List.not_mem_nil, or_false] at hp
    rcases hp with rfl | rfl | rfl | rfl | rfl
    · rfl
    · exact hpid
    · rfl
    · rfl
    · rfl
  have hwf : wellFormed (.obj (ownerRecord c)) = true := by
    rw [wellFormed_obj]
    refine ⟨nodup_owner c, fun p hp => ?_⟩
    simp only [ownerRecord, List.mem_cons, List.not_mem_nil, or_false] at hp
    rcases hp with rfl | rfl | rfl | rfl | rfl <;> rfl
  have hsorted : printable E.T.toFloatText true (sortKeys (.obj (ownerRecord c))) = true := by
    rw [printable_sortKeys]
    exact hprint
  obtain ⟨text, htext⟩ : ∃ text, E.fileText true (.obj (ownerRecord c)) = .ok text :=
    ⟨_, bind_eq_ok.mpr ⟨_, (jsonDumps_eq_ok _).mpr ⟨by rwa [if_pos rfl], rfl⟩, rfl⟩⟩
  refine ⟨text, htext, ?_⟩
  rw [← sortKeys_obj']
  exact jsonLoads_fileText E hwf htext

/-- The record that is read back is the one of the call. -/
theorem same_token (c : Caller F) : same E (sortDict (ownerRecord c)) "token" c.token = true := by
  have htoken : getKey (sortDict (ownerRecord c)) "token" = .str c.token := by
    rw [getKey_sortDict (nodup_owner c)]
    rfl
  rw [same, (differs_eq_false E).mpr htoken]
  rfl

/-- Without a record there is no token. -/
theorem not_same_token (c : Caller F) : same E ([] : Dict F) "token" c.token = false := by
  rw [same, Bool.not_eq_false', Bool.eq_iff_iff]
  simp [differs, getKey, pyEq]

/-- **When a call leaves no lock behind.** -/
theorem released_iff (hfresh : Released id disk) (hremove : f.remove = false) (body : σ → σ × Except ε α) :
    Released id (stateLock E c f id body disk).1 ↔ (Free E c f disk → Recorded f) := by
  have hkept : ∀ folder rest, ¬ Released id (⟨some { emptyDir id c with folder := folder }, rest⟩ : Disk σ) :=
    fun folder rest h => h _ rfl rfl
  have hfree := @acquire_cases _ E σ ε c f id disk hfresh
  rcases hfree with ⟨hfree, hacquire⟩ | ⟨hnot, e, disk', hacquire, hreleased⟩
  · obtain ⟨text, htext, hloads⟩ := fileText_owner (E := E) c
    unfold stateLock
    rw [hacquire]
    dsimp only
    rw [htext]
    dsimp only
    have hnone := @write_eq_none (emptyDir id c).folder "owner.json" text c.temporary f.writeOwner
    have hfiles := @files_write (emptyDir id c).folder "owner.json" text c.temporary f.writeOwner
    cases hwrite : atomicWriteText (emptyDir id c).folder "owner.json" text c.temporary f.writeOwner with
    | mk error folder =>
      rw [hwrite] at hnone hfiles
      cases error with
      | some e =>
        refine ⟨fun h => absurd h (hkept _ _), fun h => ?_⟩
        have hrecorded := h hfree
        cases hnone.mpr ⟨hrecorded.1, hrecorded.2.1⟩
      | none =>
        obtain ⟨hpublishes, hsync⟩ := hnone.mp rfl
        rw [if_pos hpublishes] at hfiles
        have hread : folder.text? "owner.json" = some text := by
          rw [Folder.text?, hfiles]
          exact lookup_setFile_self _
        dsimp only
        unfold release readLockOwner
        cases hraises : f.readOwner with
        | true =>
          rw [if_pos rfl]
          dsimp only
          rw [not_same_token, Bool.false_and, if_neg (by decide)]
          refine ⟨fun h => absurd h (hkept _ _), fun h => ?_⟩
          have hrecorded := (h hfree).2.2
          rw [hraises] at hrecorded
          cases hrecorded
        | false =>
          rw [if_neg (by decide)]
          dsimp only
          rw [hread]
          dsimp only
          rw [hloads]
          dsimp only
          rw [same_token, hremove]
          exact ⟨fun _ _ => ⟨hpublishes, hsync, hraises⟩, fun _ dir hdir => by cases hdir⟩
  · unfold stateLock
    rw [hacquire]
    exact ⟨fun _ hfree => absurd hfree hnot, fun _ => hreleased⟩

end Bracket

/-! ### A call that fails -/

section Sample
open ControlPlane.Instance

def caller : Caller ℚ where
  pid := 4242
  pid_lt := by decide
  host := "00000000000000ff"
  token := "0123456789abcdef0123456789abcdef"
  now := 1000
  acquiredAt := "2026-09-28T00:00:00+00:00"
  leaseSeconds := 300
  temporary := ".owner.json.tmp"
  kill _ := some true

/-- Only the steps of the owner record may raise. -/
def ownerFaults (write : Faults) (read : Bool) : LockFaults where
  mkdir := false
  stat := false
  readStale := false
  rename := false
  mkdirAgain := false
  writeOwner := write
  readOwner := read
  remove := false

/-- A call that does nothing under the lock. -/
def emptyCall (f : LockFaults) (id : ℕ) (disk : Disk Unit) : Disk Unit × Except (LockError Empty) Unit :=
  stateLock exactPlatform caller f id (fun rest => (rest, .ok ())) disk

theorem released_iff_quiet : Released 7 (emptyCall (ownerFaults noFault false) 7 ⟨none, ()⟩).1 := by
  have hfresh : Released 7 (⟨none, ()⟩ : Disk Unit) := fun dir hdir => by cases hdir
  have hrecorded : Recorded (ownerFaults noFault false) := ⟨rfl, rfl, rfl⟩
  exact (released_iff hfresh rfl _).mpr fun _ => hrecorded

/-- The record cannot be written: the call raises, the lock is there, and the next call is refused. Or it cannot be
read back: the call returns, and the lock is there. -/
theorem lock_kept :
    ((emptyCall (ownerFaults (faultAt .write .other) false) 7 ⟨none, ()⟩).1.lock.map LockDir.id = some 7 ∧
      (emptyCall (ownerFaults (faultAt .write .other) false) 7 ⟨none, ()⟩).2 = .error .os ∧
      (emptyCall (ownerFaults noFault false) 8
        (emptyCall (ownerFaults (faultAt .write .other) false) 7 ⟨none, ()⟩).1).2 = .error .locked) ∧
    (emptyCall (ownerFaults noFault true) 7 ⟨none, ()⟩).1.lock.map LockDir.id = some 7 ∧
      (emptyCall (ownerFaults noFault true) 7 ⟨none, ()⟩).2 = .ok () := by
  decide +kernel

end Sample

end ControlPlane.Deployment.Lock
