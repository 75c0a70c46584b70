import Provium.Lib.Cells
import Provium.Lib.Machine
import Provium.Lab.Restore

/-! `lab_snapshot` step by step: the caller, which starts a thread for each VM and joins them in their order,
and the threads, which go on also after the caller has returned. The barrier holds the threads until the
last has been started. Nobody else uses the VMs. -/
namespace Provium.Lab
open Lib Provium.Host LabTree

/-- What a thread does next. -/
inductive SnapshotPc where
  | pausing
  | saving
  /-- `maybe_mark_dead_on_vmm_err` is to run. -/
  | marking (e : VmmError)
  | resuming
  | over (outcome : Except SnapshotError LabSnapshotEntry)

/-- A VM with its thread. -/
structure SnapshotCell (I C H : Type) where
  vm : SnapshotVm I C H
  pc : SnapshotPc

variable {I C H : Type}

/-- The next step of a thread. Only a snapshot that has succeeded is followed by a resume. -/
def SnapshotCell.advance (flat leaf dir : String) (a : SnapshotAnswers) (c : SnapshotCell I C H) :
    Option (SnapshotCell I C H) :=
  match c.pc with
  | .pausing =>
    let q := c.vm.inner.pause leaf a.pause
    some ⟨{ c.vm with inner := q.1 },
      match q.2 with
      | .panic => .over (.error .panicked)
      | _ => .saving⟩
  | .saving =>
    let q := c.vm.inner.snapshot leaf c.vm.openFiles c.vm.streams a.snapshot
    some ⟨{ c.vm with inner := q.1 },
      match q.2 with
      | .done (.ok ()) => .resuming
      | .done (.error e) => .over (.error (.restoreFailed flat e))
      | .goOn (.markDead e) => .marking e
      | _ => .over (.error .panicked)⟩
  | .marking e =>
    some ⟨{ c.vm with inner := (c.vm.inner.markDead e).1 },.over (.error (.restoreFailed flat (.vmm e)))⟩
  | .resuming =>
    let q := c.vm.inner.resume leaf a.resume
    some ⟨{ c.vm with inner := q.1 },
      match q.2 with
      | .panic => .over (.error .panicked)
      | _ => .over (.ok ⟨flat,c.vm.profile,snapshotPath dir flat⟩)⟩
  | .over _ => none

/-- How the call fails: at `create_dir_all`, before or in the threads, or when `lab.json` is written. -/
inductive SnapshotFailure where
  | dir (message : String)
  | vms (e : SnapshotError)
  | written (message : String)

inductive SnapshotPhase where
  | starting
  /-- These entries have been joined. -/
  | joining (entries : List LabSnapshotEntry)
  | returned (result : Except SnapshotFailure LabSnapshotMeta)

structure SnapshotCall (I C H : Type) where
  cells : List (SnapshotCell I C H)
  spawned : Bool
  phase : SnapshotPhase

inductive SnapshotAction where
  | caller
  | thread (i : ℕ)

/-- What the call meets: the directory, the live captures of the bridges, what the backend answers each VM,
and the file of the metadata. -/
structure SnapshotHost where
  path : String
  dir : Except String Unit
  captures : List String × String → ℕ
  answers : List String × String → SnapshotAnswers
  written : Except String Unit

section Call
variable (t : SnapshotLab I C H) (host : SnapshotHost)

namespace SnapshotCall

def start : SnapshotCall I C H := ⟨t.entries.map fun e => ⟨e.2,.pausing⟩,false,.starting⟩

/-- The thread of the `i`th VM. -/
def advance (i : ℕ) (c : SnapshotCell I C H) : Option (SnapshotCell I C H) :=
  (t.entries[i]?).bind fun e => c.advance (flatName "" e.1) e.1.2 host.path (host.answers e.1)

/-- The next step of the caller. -/
def caller (s : SnapshotCall I C H) : Option (SnapshotCall I C H) :=
  match s.phase with
  | .starting =>
    match host.dir with
    | .error e => some { s with phase := .returned (.error (.dir e)) }
    | .ok () =>
      if 0 < openStreamTotal t host.captures then
        some { s with phase := .returned (.error (.vms (.openStreams (openStreamTotal t host.captures)))) }
      else some { s with spawned := true, phase := .joining [] }
  | .joining entries =>
    match s.cells[entries.length]? with
    | none =>
      match host.written with
      | .error e => some { s with phase := .returned (.error (.written e)) }
      | .ok () =>
        some { s with phase := .returned (.ok ⟨entries,t.bridges.entries.map fun e => .capture e.1 e.2.inner⟩) }
    | some c =>
      match c.pc with
      | .over (.ok e) => some { s with phase := .joining (entries++[e]) }
      | .over (.error e) => some { s with phase := .returned (.error (.vms e)) }
      | _ => none
  | .returned _ => none

def step (s : SnapshotCall I C H) : SnapshotAction → Option (SnapshotCall I C H × Unit)
  | .caller => (s.caller t host).map fun s' => (s',())
  | .thread i =>
    if s.spawned then (Cells.move (advance t host) s.cells i).map fun cells => ({ s with cells },()) else none

def machine : Machine (SnapshotCall I C H) SnapshotAction Unit := ⟨step t host⟩

end SnapshotCall
end Call

/-- The backend answers the pause and the resume of a VM. -/
def SnapshotAnswers.Answered (a : SnapshotAnswers) : Prop := a.pause = .ok () ∧ a.resume = .ok ()

/-- When the call has returned, every VM that the backend pauses and resumes is in the state it had before,
and no two VMs have one file. -/
structure Undisturbed (t : SnapshotLab I C H) (host : SnapshotHost) : Prop where
  states : ∀ as (s : SnapshotCall I C H) os r, (SnapshotCall.machine t host).run (.start t) as = some (s,os) →
    s.phase = .returned r → ∀ (i : ℕ) k vm (c : SnapshotCell I C H), t.entries[i]? = some (k,vm) →
      s.cells[i]? = some c → (host.answers k).Answered → c.vm.inner.state = vm.inner.state
  paths : ∀ as (s : SnapshotCall I C H) os m, (SnapshotCall.machine t host).run (.start t) as = some (s,os) →
    s.phase = .returned (.ok m) → (m.vms.map LabSnapshotEntry.snapshotPath).Nodup

/-- The snapshot of a VM is taken. -/
def SnapshotVm.Saves (vm : SnapshotVm I C H) (a : SnapshotAnswers) : Prop :=
  vm.inner.vmInstance ≠ none ∧ vm.openFiles = 0 ∧ vm.streams = [] ∧ a.snapshot = .ok () ∧
    (vm.inner.state = .paused ∨
      vm.inner.state = .booted ∧ ∀ e, a.pause = .error e → isQmpDeadSignal e = false)

/-- The snapshot of a VM fails and leaves it as it is. -/
def SnapshotVm.Refuses (vm : SnapshotVm I C H) (a : SnapshotAnswers) : Prop :=
  0 < vm.openFiles ∨ ∃ e, a.snapshot = .error e ∧ isQmpDeadSignal e = false

/-- When the call disturbs nothing. -/
structure Spares (t : SnapshotLab I C H) (host : SnapshotHost) : Prop where
  /-- A VM that runs is snapshotted, and so are all before it. -/
  booted : ∀ (i : ℕ) k vm, t.entries[i]? = some (k,vm) → (host.answers k).Answered →
    vm.inner.vmInstance ≠ none → vm.inner.state = .booted → ∀ j k' vm', j ≤ i →
      t.entries[j]? = some (k',vm') → vm'.Saves (host.answers k')
  /-- One that is paused is not. -/
  paused : ∀ (i : ℕ) k vm, t.entries[i]? = some (k,vm) → (host.answers k).Answered →
    vm.inner.vmInstance ≠ none → vm.inner.state = .paused → vm.Refuses (host.answers k)
  /-- Where all are, their files are different ones. -/
  paths : host.written = .ok () → (∀ k vm, (k,vm) ∈ t.entries → vm.Saves (host.answers k)) →
    (t.entries.map fun e => snapshotPath host.path (flatName "" e.1)).Nodup

end Provium.Lab
