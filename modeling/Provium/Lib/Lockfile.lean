import Mathlib

/-! Advisory locks on files. A lock is on the inode that a process has opened, and a path can come to lead
to another inode while the first is still locked. As long as no path is unlinked that a process has open,
the lock of a path has one holder. -/
namespace Lib

/-- What a process has of the lockfiles: nothing, a file that it has opened, or one that it has locked. -/
inductive Grip (σ : Type*) where
  | free
  | opened (path : σ) (inode : ℕ)
  | held (path : σ) (inode : ℕ)
  deriving DecidableEq, Repr

/-- The path by which the process has a lockfile open. -/
def Grip.path {σ : Type*} : Grip σ → Option σ
  | .free => none
  | .opened path _ | .held path _ => some path

/-- The inode to which each lockfile's path leads, and the process that holds the lock of each inode. -/
structure Lockfiles (σ : Type*) where
  inode : σ → Option ℕ
  holder : ℕ → Option ℕ
  next : ℕ

namespace Lockfiles
variable {σ : Type*} (l : Lockfiles σ)

/-- `open` with `O_CREAT`. -/
def openAt [DecidableEq σ] (path : σ) : Lockfiles σ × ℕ :=
  match l.inode path with
  | some i => (l,i)
  | none => ({ l with inode := Function.update l.inode path (some l.next), next := l.next+1 },l.next)

/-- `flock(LOCK_EX)`, when it does not have to wait. -/
def flock (p i : ℕ) : Option (Lockfiles σ) :=
  if l.holder i = none then some { l with holder := Function.update l.holder i (some p) } else none

/-- The file is closed, and its lock released. -/
def close : Grip σ → Lockfiles σ
  | .held _ i => { l with holder := Function.update l.holder i none }
  | _ => l

def unlink [DecidableEq σ] (path : σ) : Lockfiles σ := { l with inode := Function.update l.inode path none }

/-- No process has the lockfile open. -/
def Unused (grips : ℕ → Grip σ) (path : σ) : Prop := ∀ p, (grips p).path ≠ some path

/-- What a process has open is what its path leads to, and what it has locked it holds. -/
structure Sound (grips : ℕ → Grip σ) : Prop where
  opened : ∀ p path i, grips p = .opened path i → l.inode path = some i
  held : ∀ p path i, grips p = .held path i → l.inode path = some i ∧ l.holder i = some p

variable {l} {grips : ℕ → Grip σ} {p : ℕ}

/-- The lock of a path has one holder. -/
theorem Sound.exclusive (h : l.Sound grips) {q : ℕ} {path : σ} {i j : ℕ} (hp : grips p = .held path i)
    (hq : grips q = .held path j) : p = q := by
  obtain ⟨hi,hpi⟩ := h.held p path i hp
  obtain ⟨hj,hqj⟩ := h.held q path j hq
  have hij : i = j := Option.some.inj (hi.symm.trans hj)
  rw [hij] at hpi
  exact Option.some.inj (hpi.symm.trans hqj)

/-- A process that lets go, or that has nothing open, disturbs no other. -/
theorem Sound.free (h : l.Sound grips) (p : ℕ) : l.Sound (Function.update grips p .free) := by
  constructor
  · intro q path i hq
    rw [Function.update_apply] at hq
    split at hq
    · cases hq
    · exact h.opened q path i hq
  · intro q path i hq
    rw [Function.update_apply] at hq
    split at hq
    · cases hq
    · exact h.held q path i hq

theorem Sound.close (h : l.Sound grips) (p : ℕ) :
    (l.close (grips p)).Sound (Function.update grips p .free) := by
  cases hgrip : grips p with
  | free => exact h.free p
  | opened path i => exact h.free p
  | held path i =>
    constructor
    · exact (h.free p).opened
    · intro q path' j hq
      obtain ⟨hinode,hholder⟩ := (h.free p).held q path' j hq
      refine ⟨hinode,?_⟩
      have hqp : q ≠ p := by
        rintro rfl
        rw [Function.update_self] at hq
        cases hq
      have hji : j ≠ i := by
        rintro rfl
        exact hqp (Option.some.inj (hholder.symm.trans (h.held p path j hgrip).2))
      change Function.update l.holder i none j = _
      rw [Function.update_of_ne hji]
      exact hholder

theorem Sound.openAt [DecidableEq σ] (h : l.Sound grips) (p : ℕ) (path : σ) :
    (l.openAt path).1.Sound (Function.update grips p (.opened path (l.openAt path).2)) := by
  have hkeep : ∀ path' i, l.inode path' = some i → (l.openAt path).1.inode path' = some i := by
    intro path' i hi
    unfold Lockfiles.openAt
    cases hpath : l.inode path with
    | some j => exact hi
    | none =>
      have hne : path' ≠ path := by
        rintro rfl
        rw [hpath] at hi
        cases hi
      change Function.update l.inode path _ path' = _
      rw [Function.update_of_ne hne]
      exact hi
  have hholder : (l.openAt path).1.holder = l.holder := by
    unfold Lockfiles.openAt
    cases l.inode path <;> rfl
  constructor
  · intro q path' i hq
    rw [Function.update_apply] at hq
    split at hq
    · cases hq
      unfold Lockfiles.openAt
      cases hpath : l.inode path with
      | some j => exact hpath
      | none => exact Function.update_self ..
    · exact hkeep path' i (h.opened q path' i hq)
  · intro q path' i hq
    rw [Function.update_apply] at hq
    split at hq
    · cases hq
    · obtain ⟨hinode,hheld⟩ := h.held q path' i hq
      exact ⟨hkeep path' i hinode,by rw [hholder]; exact hheld⟩

theorem Sound.flock (h : l.Sound grips) {path : σ} {i : ℕ} (hp : grips p = .opened path i)
    {l' : Lockfiles σ} (hl : l.flock p i = some l') : l'.Sound (Function.update grips p (.held path i)) := by
  unfold Lockfiles.flock at hl
  split at hl
  case isFalse => cases hl
  case isTrue hnone =>
    cases hl
    constructor
    · intro q path' j hq
      rw [Function.update_apply] at hq
      split at hq
      · cases hq
      · exact h.opened q path' j hq
    · intro q path' j hq
      rw [Function.update_apply] at hq
      split at hq
      · next hqp =>
        cases hq
        exact ⟨h.opened p path i hp,by rw [hqp]; exact Function.update_self ..⟩
      · obtain ⟨hinode,hholder⟩ := h.held q path' j hq
        have hji : j ≠ i := by
          rintro rfl
          rw [hnone] at hholder
          cases hholder
        refine ⟨hinode,?_⟩
        change Function.update l.holder i (some p) j = _
        rw [Function.update_of_ne hji]
        exact hholder

/-- A path may be unlinked that no process has open. -/
theorem Sound.unlink [DecidableEq σ] (h : l.Sound grips) {path : σ} (hunused : Unused grips path) :
    (l.unlink path).Sound grips := by
  have hkeep : ∀ q path' i, (grips q).path = some path' → l.inode path' = some i →
      (l.unlink path).inode path' = some i := by
    intro q path' i hq hi
    have hne : path' ≠ path := by
      rintro rfl
      exact hunused q hq
    change Function.update l.inode path none path' = _
    rw [Function.update_of_ne hne]
    exact hi
  constructor
  · intro q path' i hq
    exact hkeep q path' i (by rw [hq]; rfl) (h.opened q path' i hq)
  · intro q path' i hq
    obtain ⟨hinode,hholder⟩ := h.held q path' i hq
    exact ⟨hkeep q path' i (by rw [hq]; rfl) hinode,hholder⟩

end Lockfiles
end Lib
