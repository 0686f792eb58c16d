import OxidizedSystemd.Lib.LockFile
import OxidizedSystemd.Lib.Run
import OxidizedSystemd.Udevd.UEvent

/-!
# The symlink lock

Model of `SymlinkLock` (`udevd/src/lib.rs`, lines 4701–4745). `acquire` opens or creates the lock
file of a link and takes its lock, and the drop of the guard removes the file and releases the lock.
The lock directory is a map from names to inodes; a worker has at most one guard, as in
`create_device_symlinks` and `remove_device_symlinks` (lines 4904–4949).

* `symlinkLock_excludes`: one worker at a time has a guard for a link, when no lock file is created
  while a worker still uses a removed one of its name.
-/

namespace OxidizedSystemd.Udevd

open Lib

/-- The name of the lock file of a link (lines 4714–4719). -/
def lockName (link : Text) : Text :=
  (link.dropWhile (· = '/')).flatMap fun c => if c = '/' then ['\\', 'x', '2', 'f'] else [c]

variable {Worker : Type*}

/-- The lock directory and the workers. -/
abbrev LockState (Worker : Type*) := LockFile.State Worker Text

/-- The steps of `acquire` (the open and the `flock`) and of `drop` (the removal and the unlock). -/
inductive LockAction (Worker : Type*) where
  | openFile (w : Worker) (link : Text)
  | flock (w : Worker)
  | removeFile (w : Worker)
  | unlock (w : Worker)

/-- What a step does to the lock files. -/
def LockAction.onFile : LockAction Worker → LockFile.Action Worker Text
  | .openFile w link => .openFile w (lockName link)
  | .flock w => .lock w
  | .removeFile w => .remove w
  | .unlock w => .release w

def lockStep [DecidableEq Worker] (s : LockState Worker) (a : LockAction Worker) :
    Option (LockState Worker) :=
  LockFile.step s a.onFile

/-- A worker has a guard for a link: `acquire` has returned, and the guard is not dropped. -/
def HasGuard (s : LockState Worker) (w : Worker) (link : Text) : Prop :=
  ∃ inode, s.phase w = .holding (lockName link) inode

/-- A lock file is created only when no worker waits for or holds the lock of another one of its
    name, which is removed. -/
def NoSecondFile (s : LockState Worker) (a : LockAction Worker) : Prop :=
  LockFile.CreatesAlone s a.onFile

theorem inv_start : LockFile.Inv (LockFile.start : LockState Worker) where
  same := by simp [LockFile.InUse, LockFile.start]
  named := by simp [LockFile.InUse, LockFile.start]
  holds := by simp [LockFile.start]
  removes := by simp [LockFile.start]

/-- One worker at a time has a guard for a link. -/
theorem symlinkLock_excludes [DecidableEq Worker] {as : List (LockAction Worker)}
    {s : LockState Worker} (hfiles : RunMeets lockStep NoSecondFile LockFile.start as)
    (hrun : run lockStep LockFile.start as = some s) {link : Text} {w v : Worker}
    (hw : HasGuard s w link) (hv : HasGuard s v link) : w = v := by
  have hstep : ∀ (s : LockState Worker) (a : LockAction Worker) (s' : LockState Worker),
      LockFile.Inv s → NoSecondFile s a → lockStep s a = some s' → LockFile.Inv s' :=
    fun _ _ _ hs hok h => hs.step hok h
  have hinv := run_inv_of_meets hstep as inv_start hfiles hrun
  obtain ⟨i, hi⟩ := hw
  obtain ⟨j, hj⟩ := hv
  exact hinv.holding_unique hi hj

/-- A link. -/
def diskLink : Text := "/dev/disk/a".toList

/-- A worker takes the lock, and another one waits for it. -/
def oneAfterAnother : List (LockAction ℕ) :=
  [.openFile 0 diskLink, .flock 0, .openFile 1 diskLink, .removeFile 0, .unlock 0, .flock 1]

theorem symlinkLock_excludes_oneAfterAnother : ∃ s, run lockStep LockFile.start oneAfterAnother =
    some s ∧ HasGuard s 1 diskLink ∧ ¬HasGuard s 0 diskLink := by
  have hfirst : NoSecondFile LockFile.start (.openFile (0 : ℕ) diskLink) :=
    fun _ w inode => by simp [LockFile.InUse, LockFile.start]
  have hfiles : RunMeets lockStep NoSecondFile LockFile.start oneAfterAnother :=
    .cons hfirst rfl (.cons trivial rfl (.cons (fun h => by cases h) rfl
      (.cons trivial rfl (.cons trivial rfl (.cons trivial rfl trivial)))))
  refine ⟨_, rfl, ⟨0, rfl⟩, ?_⟩
  intro h
  have heq := symlinkLock_excludes hfiles rfl h (v := 1) ⟨0, rfl⟩
  cases heq

/-- The first worker removes the file that the second one waits for, and the third one creates
    another. -/
def threeWorkers : List (LockAction ℕ) :=
  [.openFile 0 diskLink, .flock 0, .openFile 1 diskLink, .removeFile 0, .unlock 0, .flock 1,
    .openFile 2 diskLink, .flock 2]

theorem two_guards : ¬∀ (as : List (LockAction ℕ)) (s : LockState ℕ),
    run lockStep LockFile.start as = some s →
      ∀ link w v, HasGuard s w link → HasGuard s v link → w = v := by
  intro h
  have heq := h threeWorkers _ rfl diskLink 1 2 ⟨0, rfl⟩ ⟨1, rfl⟩
  cases heq

end OxidizedSystemd.Udevd
