import Provium.Lab.Contents
import Provium.Lab.Restore

/-! `lab_restore` step by step: the caller, which makes sub-labs and bridges, starts a thread for each VM
and joins them in their order, and the threads, which go on also after the caller has returned. Nobody
else uses the lab, and no thread panics. -/
namespace Provium.Lab
open Lib Provium.Host LabTree

/-- The names that lead from a lab to a member of it that stands elsewhere in the tree. -/
abbrev Links := List String → String → Option (List String)

/-- A lab whose sub-labs may be members of several labs, or of themselves. Each stands under one of them, and
the others have links to it. -/
structure LinkedLab (I C H : Type) where
  tree : SnapshotLab I C H
  links : Links
  linked : ∀ q name q', links q name = some q' →
    (tree.labAt q).isSome ∧ (tree.labAt q').isSome ∧ tree.labAt (q++[name]) = none

/-- Where the lab stands that `descend_or_create` gets to; a name that leads nowhere is that of a new lab. -/
def Links.follow (links : Links) (path : List String) : List String :=
  path.foldl (fun q name => (links q name).getD (q++[name])) []

/-- Where the VM of an entry goes: the lab at the end of its path, and its name there. -/
def LabSnapshotEntry.placeIn (links : Links) (e : LabSnapshotEntry) : List String × String :=
  let (path,leaf) := splitSubLabPath e.vmName
  (links.follow path,leaf)

/-- The thread of one entry. -/
inductive RestoreThread (I C H : Type) where
  | spawned
  /-- The backend has restored the VM, which is to be put into the lab. -/
  | launched (vm : SnapshotVm I C H)
  | over (outcome : Except SnapshotError Unit)

inductive RestorePhase where
  | checking (left : List LabSnapshotEntry)
  | bridging (left : List LabSnapshotBridge)
  | spawning (left : List LabSnapshotEntry)
  /-- The threads before this one have been joined. -/
  | joining (i : ℕ)
  | returned (result : Except SnapshotError Unit)

structure RestoreCall (I C H : Type) where
  lab : SnapshotLab I C H
  threads : List (RestoreThread I C H)
  phase : RestorePhase

inductive RestoreAction where
  | caller
  | thread (i : ℕ)

variable {I C H : Type}

/-- The resume of one VM. -/
def resumeVm (links : Links) (host : RestoreHost I C) (t : SnapshotLab I C H) (e : LabSnapshotEntry) :
    SnapshotLab I C H × Except SnapshotError Unit :=
  match t.vmAt (e.placeIn links).1 (e.placeIn links).2 with
  | none => (t,.ok ())
  | some vm =>
    let resumed := vm.inner.resume (e.placeIn links).2 (host.resume e)
    (t.atPath (putVm (e.placeIn links).2 { vm with inner := resumed.1 }) (e.placeIn links).1,
      match resumed.2 with
      | .done result => result.mapError .resumeFailed
      | _ => .error .panicked)

/-- All are resumed, and the first failure is returned. -/
def resumeAll (links : Links) (hosts : ℕ → RestoreHost I C) :
    ℕ → SnapshotLab I C H → List LabSnapshotEntry → SnapshotLab I C H × Except SnapshotError Unit
  | _,t,[] => (t,.ok ())
  | i,t,e::rest =>
    let first := resumeVm links (hosts i) t e
    let others := resumeAll links hosts (i+1) first.1 rest
    (others.1,first.2.bind fun () => others.2)

section RestoreCall
variable (links : Links) (hosts : ℕ → RestoreHost I C) (m : LabSnapshotMeta)

namespace RestoreCall

/-- The next step of the caller. -/
def caller (s : RestoreCall I C H) : Option (RestoreCall I C H) :=
  match s.phase with
  | .checking [] => some { s with phase := .bridging m.bridges }
  | .checking (e::left) =>
    let lab := s.lab.descendOrCreate (e.placeIn links).1
    if (lab.vmAt (e.placeIn links).1 (e.placeIn links).2).isSome then
      some { s with lab, phase := .returned (.error (.lab (.duplicateVmName e.vmName))) }
    else some { s with lab, phase := .checking left }
  | .bridging [] => some { s with phase := .spawning m.vms }
  | .bridging (b::left) =>
    match SnapshotLab.attachBridge s.lab b with
    | .error e => some { s with phase := .returned (.error e) }
    | .ok lab => some { s with lab, phase := .bridging left }
  | .spawning [] => some { s with phase := .joining 0 }
  | .spawning (e::left) => some ⟨s.lab.descendOrCreate (e.placeIn links).1,s.threads++[.spawned],.spawning left⟩
  | .joining i =>
    match s.threads[i]? with
    | none =>
      let q := resumeAll links hosts 0 (SnapshotLab.reapplyBridges s.lab m.bridges) m.vms
      some { s with lab := q.1, phase := .returned q.2 }
    | some (.over (.ok ())) => some { s with phase := .joining (i+1) }
    | some (.over (.error e)) => some { s with phase := .returned (.error e) }
    | some _ => none
  | .returned _ => none

/-- The next step of a thread: `restore_vm` up to its insertion, and the insertion. -/
def thread (s : RestoreCall I C H) (i : ℕ) : Option (RestoreCall I C H) :=
  match s.threads[i]?,m.vms[i]? with
  | some .spawned,some e =>
    match restoreVm (hosts i) m.bridges e with
    | .error err => some { s with threads := s.threads.set i (.over (.error err)) }
    | .ok vm => some { s with threads := s.threads.set i (.launched vm) }
  | some (.launched vm),some e =>
    if (s.lab.vmAt (e.placeIn links).1 (e.placeIn links).2).isSome then
      some { s with threads := s.threads.set i (.over (.error (.lab (.duplicateVmName (e.placeIn links).2)))) }
    else
      some { s with
        lab := s.lab.atPath (putVm (e.placeIn links).2 vm) (e.placeIn links).1
        threads := s.threads.set i (.over (.ok ())) }
  | _,_ => none

def step (s : RestoreCall I C H) : RestoreAction → Option (RestoreCall I C H × Unit)
  | .caller => (s.caller links hosts m).map fun s' => (s',())
  | .thread i => (s.thread links hosts m i).map fun s' => (s',())

/-- The call on a lab. -/
def start (t : SnapshotLab I C H) : RestoreCall I C H := ⟨t,[],.checking m.vms⟩

end RestoreCall

/-- `hosts i` is what the thread of the `i`-th entry meets. -/
def restoreMachine (H : Type) : Machine (RestoreCall I C H) RestoreAction Unit :=
  ⟨RestoreCall.step links hosts m⟩

end RestoreCall
end Provium.Lab
