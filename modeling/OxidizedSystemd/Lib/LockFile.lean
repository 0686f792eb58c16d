import Mathlib.Logic.Function.Basic
import Mathlib.Data.Nat.Notation

/-!
# Lock files that are removed

Workers open a file of a name, which is created when there is none, take an exclusive lock on what
they have opened, remove the name and release the lock. A worker that waits for the lock of a file
whose name is removed still gets it.

* `Inv.step`: the workers that use a name use one file, when no file is created while another one
  of its name is in use.
* `Inv.holding_unique`: then one worker at a time holds the lock of a name.
-/

namespace OxidizedSystemd.Lib.LockFile

/-- What a worker is at. -/
inductive Phase (ν : Type*) where
  | idle
  | opened (name : ν) (inode : ℕ)
  | holding (name : ν) (inode : ℕ)
  | removed (inode : ℕ)

/-- The files by name, the first inode that is not used yet, and the worker that has the lock of
    each inode. -/
structure State (ι ν : Type*) where
  inodes : ν → Option ℕ
  nextInode : ℕ
  flock : ℕ → Option ι
  phase : ι → Phase ν

inductive Action (ι ν : Type*) where
  | openFile (w : ι) (name : ν)
  | lock (w : ι)
  | remove (w : ι)
  | release (w : ι)

variable {ι ν : Type*}

/-- No files, and no worker has begun. -/
def start : State ι ν where
  inodes := fun _ => none
  nextInode := 0
  flock := fun _ => none
  phase := fun _ => .idle

/-- A worker waits for the lock of a file or holds it. -/
def InUse (s : State ι ν) (name : ν) (inode : ℕ) (w : ι) : Prop :=
  s.phase w = .opened name inode ∨ s.phase w = .holding name inode

/-- A file is created only when no worker uses another one of its name. -/
def CreatesAlone (s : State ι ν) : Action ι ν → Prop
  | .openFile _ name => s.inodes name = none → ∀ w inode, ¬InUse s name inode w
  | _ => True

/-- The workers that use a name use one file, the one of the name if there is one, and what is held
    is locked. -/
structure Inv (s : State ι ν) : Prop where
  same : ∀ name i j w v, InUse s name i w → InUse s name j v → i = j
  named : ∀ name i j w, s.inodes name = some i → InUse s name j w → j = i
  holds : ∀ name i w, s.phase w = .holding name i → s.flock i = some w
  removes : ∀ i w, s.phase w = .removed i → s.flock i = some w

variable {s s' : State ι ν} {a : Action ι ν} {w : ι}

/-- One worker at a time holds the lock of a name. -/
theorem Inv.holding_unique (h : Inv s) {name : ν} {i j : ℕ} {w v : ι}
    (hw : s.phase w = .holding name i) (hv : s.phase v = .holding name j) : w = v := by
  obtain rfl := h.same name i j w v (.inr hw) (.inr hv)
  have hlock := h.holds name i w hw
  rw [h.holds name i v hv] at hlock
  exact (Option.some.inj hlock).symm

variable [DecidableEq ι]

/-- A worker whose phase does not change. -/
theorem phase_of_ne {ph : Phase ν} (hphase : s'.phase = Function.update s.phase w ph) {v : ι}
    (hv : v ≠ w) : s'.phase v = s.phase v := by
  rw [hphase, Function.update_of_ne hv]

theorem phase_self {ph : Phase ν} (hphase : s'.phase = Function.update s.phase w ph) :
    s'.phase w = ph := by
  rw [hphase, Function.update_self]

/-- What is in use after a step of a worker was so before, or it is what that worker uses now. -/
theorem inUse_of_update {ph : Phase ν} (hphase : s'.phase = Function.update s.phase w ph) {v : ι}
    {name : ν} {i : ℕ} (h : InUse s' name i v) :
    (v ≠ w ∧ InUse s name i v) ∨ (v = w ∧ (ph = .opened name i ∨ ph = .holding name i)) := by
  by_cases hv : v = w
  · subst hv
    rw [InUse, phase_self hphase] at h
    exact .inr ⟨rfl, h⟩
  · rw [InUse, phase_of_ne hphase hv] at h
    exact .inl ⟨hv, h⟩

/-- What is in use stays the file of its name when a worker begins to use that file or one uses
    less than before. -/
theorem Inv.inUse (h : Inv s) {ph : Phase ν} (hphase : s'.phase = Function.update s.phase w ph)
    (hph : ∀ name i, ph = .opened name i ∨ ph = .holding name i →
      (∀ j v, InUse s name j v → j = i) ∧ ∀ j, s'.inodes name = some j → i = j)
    (hinodes : ∀ name i j v, s'.inodes name = some i → InUse s name j v → j = i) :
    (∀ name i j w v, InUse s' name i w → InUse s' name j v → i = j) ∧
      ∀ name i j w, s'.inodes name = some i → InUse s' name j w → j = i := by
  constructor
  · intro name i j x y hx hy
    rcases inUse_of_update hphase hx with ⟨-, hx⟩ | ⟨-, hx⟩
    · rcases inUse_of_update hphase hy with ⟨-, hy⟩ | ⟨-, hy⟩
      · exact h.same name i j x y hx hy
      · exact (hph name j hy).1 i x hx
    · rcases inUse_of_update hphase hy with ⟨-, hy⟩ | ⟨-, hy⟩
      · exact ((hph name i hx).1 j y hy).symm
      · rcases hx with hx | hx
        · simpa [hx] using hy
        · simpa [hx] using hy
  · intro name i j x hname hx
    rcases inUse_of_update hphase hx with ⟨-, hx⟩ | ⟨rfl, hx⟩
    · exact hinodes name i j x hname hx
    · exact (hph name j hx).2 i hname

/-- What is held or removed stays locked when no other worker's lock changes. -/
theorem Inv.locked (h : Inv s) {ph : Phase ν} (hphase : s'.phase = Function.update s.phase w ph)
    (hflock : ∀ i v, v ≠ w → s.flock i = some v → s'.flock i = some v)
    (hph : ∀ i, (∃ name, ph = .holding name i) ∨ ph = .removed i → s'.flock i = some w) :
    (∀ name i v, s'.phase v = .holding name i → s'.flock i = some v) ∧
      ∀ i v, s'.phase v = .removed i → s'.flock i = some v := by
  constructor
  · intro name i v hv
    by_cases hvw : v = w
    · subst hvw
      rw [phase_self hphase] at hv
      exact hph i (.inl ⟨name, hv⟩)
    · rw [phase_of_ne hphase hvw] at hv
      exact hflock i v hvw (h.holds name i v hv)
  · intro i v hv
    by_cases hvw : v = w
    · subst hvw
      rw [phase_self hphase] at hv
      exact hph i (.inr hv)
    · rw [phase_of_ne hphase hvw] at hv
      exact hflock i v hvw (h.removes i v hv)

/-- What a step of one worker has to keep. -/
theorem Inv.of_update (h : Inv s) {ph : Phase ν} (hphase : s'.phase = Function.update s.phase w ph)
    (huse : ∀ name i, ph = .opened name i ∨ ph = .holding name i →
      (∀ j v, InUse s name j v → j = i) ∧ ∀ j, s'.inodes name = some j → i = j)
    (hinodes : ∀ name i j v, s'.inodes name = some i → InUse s name j v → j = i)
    (hflock : ∀ i v, v ≠ w → s.flock i = some v → s'.flock i = some v)
    (hlock : ∀ i, (∃ name, ph = .holding name i) ∨ ph = .removed i → s'.flock i = some w) :
    Inv s' := by
  obtain ⟨hsame, hnamed⟩ := h.inUse hphase huse hinodes
  obtain ⟨hholds, hremoves⟩ := h.locked hphase hflock hlock
  exact ⟨hsame, hnamed, hholds, hremoves⟩

variable [DecidableEq ν]

/-- A step, `none` when the worker is not at it. -/
def step (s : State ι ν) : Action ι ν → Option (State ι ν)
  | .openFile w name =>
    match s.phase w, s.inodes name with
    | .idle, some inode =>
      some { s with phase := Function.update s.phase w (.opened name inode) }
    | .idle, none =>
      some { s with
        inodes := Function.update s.inodes name (some s.nextInode)
        nextInode := s.nextInode + 1
        phase := Function.update s.phase w (.opened name s.nextInode) }
    | _, _ => none
  | .lock w =>
    match s.phase w with
    | .opened name inode =>
      if (s.flock inode).isNone then
        some { s with
          flock := Function.update s.flock inode (some w)
          phase := Function.update s.phase w (.holding name inode) }
      else none
    | _ => none
  | .remove w =>
    match s.phase w with
    | .holding name inode =>
      some { s with
        inodes := Function.update s.inodes name none
        phase := Function.update s.phase w (.removed inode) }
    | _ => none
  | .release w =>
    match s.phase w with
    | .removed inode =>
      some { s with
        flock := Function.update s.flock inode none
        phase := Function.update s.phase w .idle }
    | _ => none

/-- What a step can do. -/
theorem step_cases (h : step s a = some s') :
    (∃ w name inode, a = .openFile w name ∧ s.inodes name = some inode ∧
      s' = { s with phase := Function.update s.phase w (.opened name inode) }) ∨
    (∃ w name, a = .openFile w name ∧ s.inodes name = none ∧
      s' = { s with
        inodes := Function.update s.inodes name (some s.nextInode)
        nextInode := s.nextInode + 1
        phase := Function.update s.phase w (.opened name s.nextInode) }) ∨
    (∃ w name inode, s.phase w = .opened name inode ∧ s.flock inode = none ∧
      s' = { s with
        flock := Function.update s.flock inode (some w)
        phase := Function.update s.phase w (.holding name inode) }) ∨
    (∃ w name inode, s.phase w = .holding name inode ∧
      s' = { s with
        inodes := Function.update s.inodes name none
        phase := Function.update s.phase w (.removed inode) }) ∨
    (∃ w inode, s.phase w = .removed inode ∧
      s' = { s with
        flock := Function.update s.flock inode none
        phase := Function.update s.phase w .idle }) := by
  cases a with
  | openFile w name =>
    simp only [step] at h
    split at h
    · rename_i inode _ hname
      exact .inl ⟨w, name, inode, rfl, hname, (Option.some.inj h).symm⟩
    · rename_i _ hname
      exact .inr (.inl ⟨w, name, rfl, hname, (Option.some.inj h).symm⟩)
    · cases h
  | lock w =>
    simp only [step] at h
    split at h
    · rename_i name inode hphase
      split at h
      · rename_i hfree
        exact .inr (.inr (.inl ⟨w, name, inode, hphase, Option.isNone_iff_eq_none.mp hfree,
          (Option.some.inj h).symm⟩))
      · cases h
    · cases h
  | remove w =>
    simp only [step] at h
    split at h
    · rename_i name inode hphase
      exact .inr (.inr (.inr (.inl ⟨w, name, inode, hphase, (Option.some.inj h).symm⟩)))
    · cases h
  | release w =>
    simp only [step] at h
    split at h
    · rename_i inode hphase
      exact .inr (.inr (.inr (.inr ⟨w, inode, hphase, (Option.some.inj h).symm⟩)))
    · cases h

/-- A step that creates no second file of a name that is in use. -/
theorem Inv.step (h : Inv s) (hok : CreatesAlone s a) (hstep : step s a = some s') : Inv s' := by
  rcases step_cases hstep with ⟨w, name, inode, -, hname, rfl⟩ | ⟨w, name, rfl, hname, rfl⟩ |
    ⟨w, name, inode, hphase, hfree, rfl⟩ | ⟨w, name, inode, hphase, rfl⟩ | ⟨w, inode, hphase, rfl⟩
  · -- the file of the name is opened
    refine h.of_update rfl ?_ h.named (fun _ _ _ hv => hv) (by simp)
    intro name' i hi
    obtain ⟨rfl, rfl⟩ : name = name' ∧ inode = i := by simpa using hi
    refine ⟨fun j v hv => h.named name inode j v hname hv, fun j hj => ?_⟩
    exact Option.some.inj (hname.symm.trans hj)
  · -- no other worker uses a file of the name that is created
    have hfresh := hok hname
    refine h.of_update rfl ?_ ?_ (fun _ _ _ hv => hv) (by simp)
    · intro name' i hi
      obtain ⟨rfl, rfl⟩ : name = name' ∧ s.nextInode = i := by simpa using hi
      refine ⟨fun j v hv => absurd hv (hfresh v j), fun j hj => ?_⟩
      simpa using hj
    · intro name' i j v hi hv
      by_cases hne : name' = name
      · subst hne
        exact absurd hv (hfresh v j)
      · dsimp only at hi
        rw [Function.update_of_ne hne] at hi
        exact h.named name' i j v hi hv
  · -- the lock was free
    refine h.of_update rfl ?_ h.named ?_ ?_
    · intro name' i hi
      obtain ⟨rfl, rfl⟩ : name = name' ∧ inode = i := by simpa using hi
      refine ⟨fun j v hv => h.same name j inode v w hv (.inl hphase), fun j hj => ?_⟩
      exact h.named name j inode w hj (.inl hphase)
    · intro i v _ hv
      have hne : i ≠ inode := by
        rintro rfl
        rw [hfree] at hv
        cases hv
      dsimp only
      rwa [Function.update_of_ne hne]
    · intro i hi
      obtain rfl : inode = i := by simpa using hi
      exact Function.update_self ..
  · -- the name is removed, and what is in use of it stays
    refine h.of_update rfl (by simp) ?_ (fun _ _ _ hv => hv) ?_
    · intro name' i j v hi hv
      dsimp only at hi
      by_cases hne : name' = name
      · rw [hne, Function.update_self] at hi
        cases hi
      · rw [Function.update_of_ne hne] at hi
        exact h.named name' i j v hi hv
    · intro i hi
      obtain rfl : inode = i := by simpa using hi
      exact h.holds name inode w hphase
  · -- the lock of the worker is released, and no other one's
    refine h.of_update rfl (by simp) h.named ?_ (by simp)
    intro i v hv hlock
    have hne : i ≠ inode := by
      rintro rfl
      rw [h.removes i w hphase] at hlock
      exact hv (Option.some.inj hlock).symm
    dsimp only
    rwa [Function.update_of_ne hne]

end OxidizedSystemd.Lib.LockFile
