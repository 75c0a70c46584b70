import Provium.Lab.Snapshot

/-! What the calls of a file do to the members of its labs. A lab, a VM and a bridge are their number;
the member a call takes in or puts out is logged. A restoring thread that outlives its call is a
`restoreVm` of its own. -/
namespace Provium.Lab
open Lib

inductive MemberKind where
  | vm
  | bridge
  | subLab
  deriving DecidableEq, Repr

/-- Where a member is kept: in which map of which lab, under which name. -/
structure MemberSlot where
  lab : ℕ
  kind : MemberKind
  name : String
  deriving DecidableEq, Repr

inductive MemberEvent where
  | added (slot : MemberSlot) (member : ℕ)
  | removed (slot : MemberSlot)
  deriving DecidableEq, Repr

/-- The labs with the maps of their bridges, and the names that VMs and bridges were made with. -/
structure FileLabs (H : Type) where
  labs : Labs H
  bridges : ℕ → Table String ℕ
  vmNames : List String
  bridgeNames : List String

/-- What a call leaves behind, and whether it has succeeded. -/
structure CallOutcome (H : Type) where
  state : FileLabs H
  log : List MemberEvent
  ok : Bool

variable {H : Type}

namespace CallOutcome

/-- The next part of a call, where the first has not failed. -/
def andThen (q : CallOutcome H) (next : FileLabs H → CallOutcome H) : CallOutcome H :=
  if q.ok then ⟨(next q.state).state,q.log++(next q.state).log,(next q.state).ok⟩ else q

/-- The next part of a call, where the first has failed. -/
def orElse (q : CallOutcome H) (next : FileLabs H → CallOutcome H) : CallOutcome H :=
  if q.ok then q else ⟨(next q.state).state,q.log++(next q.state).log,(next q.state).ok⟩

end CallOutcome

namespace FileLabs

/-- The root lab of a file. -/
def start : FileLabs H := ⟨Labs.new [] "provium" true,fun _ => ∅,[],[]⟩

/-- The members of one kind that a lab has. -/
def mapOf (s : FileLabs H) (l : ℕ) (kind : MemberKind) : Option (Table String ℕ) :=
  (s.labs[l]?).map fun node =>
    match kind with
    | .vm => node.vms
    | .bridge => s.bridges l
    | .subLab => node.subLabs

def member (s : FileLabs H) (slot : MemberSlot) : Option ℕ :=
  (s.mapOf slot.lab slot.kind).bind fun m => m.lookup slot.name

/-- Nothing is done. -/
def refused (s : FileLabs H) : CallOutcome H := ⟨s,[],false⟩

/-- What is done to a lab that is there. -/
def withLab (s : FileLabs H) (l : ℕ) (f : LabInner H → CallOutcome H) : CallOutcome H :=
  match s.labs[l]? with
  | none => s.refused
  | some node => f node

/-- A VM that is new, taken in under its name. -/
def takeVm (s : FileLabs H) (l : ℕ) (name : String) (taken : Except LabError (Labs H)) :
    CallOutcome H :=
  match taken with
  | .error _ => s.refused
  | .ok labs =>
    ⟨{ s with
        labs
        vmNames := s.vmNames++[name] },[.added ⟨l,.vm,name⟩ s.vmNames.length],true⟩

/-- `create_vm`, with whether the profile is configured. -/
def createVm (s : FileLabs H) (l : ℕ) (name : String) (known : Bool) : CallOutcome H :=
  s.withLab l fun node =>
    if known then s.takeVm l name (s.labs.includeVm l node name s.vmNames.length) else s.refused

/-- `restore_vm`, with whether its profile is configured and the backend restores it. -/
def restoreVm (s : FileLabs H) (l : ℕ) (name : String) (restored : Bool) : CallOutcome H :=
  s.withLab l fun node =>
    if restored then s.takeVm l name (s.labs.insertVm l node name s.vmNames.length) else s.refused

def includeVm (s : FileLabs H) (l : ℕ) (name : String) (v : ℕ) : CallOutcome H :=
  s.withLab l fun node =>
    match s.labs.includeVm l node name v with
    | .error _ => s.refused
    | .ok labs => ⟨{ s with labs },[.added ⟨l,.vm,name⟩ v],true⟩

def insertBridge (s : FileLabs H) (l : ℕ) (name : String) (b : ℕ) : FileLabs H :=
  { s with bridges := Function.update s.bridges l ((s.bridges l).insert name b) }

def includeBridge (s : FileLabs H) (l : ℕ) (name : String) (b : ℕ) : CallOutcome H :=
  s.withLab l fun _ =>
    if name ∈ reservedLabNames ∨ name ∈ s.bridges l then s.refused
    else ⟨s.insertBridge l name b,[.added ⟨l,.bridge,name⟩ b],true⟩

/-- `create_bridge`: a bridge that is new is taken in as an included one is. -/
def createBridge (s : FileLabs H) (l : ℕ) (name : String) : CallOutcome H :=
  { s with bridgeNames := s.bridgeNames++[name] }.includeBridge l name s.bridgeNames.length

/-- `sub_lab`: a lab of the same name is replaced. -/
def subLab (s : FileLabs H) (l : ℕ) (name : String) : CallOutcome H :=
  s.withLab l fun node =>
    ⟨{ s with
        labs := Labs.new
          (s.labs.set l { node with subLabs := node.subLabs.insert name s.labs.length }) name false
        bridges := Function.update s.bridges s.labs.length ∅ },
      [.added ⟨l,.subLab,name⟩ s.labs.length],true⟩

def subLabChecked (s : FileLabs H) (l : ℕ) (name : String) : CallOutcome H :=
  match checkReservedName name with
  | .error _ => s.refused
  | .ok () => s.subLab l name

/-- `auto_sub_lab_name`: the number of sub-labs there are. -/
def autoSubLabName (s : FileLabs H) (l : ℕ) : String :=
  "__lab_"++toString ((s.labs[l]?).elim 0 fun node => node.subLabs.keys.length)

def includeSubLab (s : FileLabs H) (l sub : ℕ) : CallOutcome H :=
  s.withLab l fun node => s.withLab sub fun below =>
    match s.labs.includeSubLab l node below.name sub with
    | .error _ => s.refused
    | .ok labs => ⟨{ s with labs },[.added ⟨l,.subLab,below.name⟩ sub],true⟩

/-- `remove_vm`, `remove_bridge` and `remove_sub_lab`. -/
def remove (s : FileLabs H) (slot : MemberSlot) : CallOutcome H :=
  s.withLab slot.lab fun node =>
    ⟨match slot.kind with
      | .vm => { s with labs := s.labs.removeVm slot.lab node slot.name }
      | .bridge =>
        { s with bridges := Function.update s.bridges slot.lab ((s.bridges slot.lab).erase slot.name) }
      | .subLab => { s with labs := s.labs.removeSubLab slot.lab node slot.name },
      [.removed slot],true⟩

/-- `descend_or_create`, with the lab it ends at. -/
def descendOrCreate (s : FileLabs H) (l : ℕ) : List String → CallOutcome H × ℕ
  | [] => (⟨s,[],true⟩,l)
  | p::ps =>
    match s.member ⟨l,.subLab,p⟩ with
    | some sub => s.descendOrCreate sub ps
    | none =>
      let q := (s.subLab l p).state.descendOrCreate s.labs.length ps
      (⟨q.1.state,(s.subLab l p).log++q.1.log,q.1.ok⟩,q.2)

/-- The pre-flight of `lab_restore`. -/
def preflight (s : FileLabs H) (l : ℕ) : List LabSnapshotEntry → CallOutcome H
  | [] => ⟨s,[],true⟩
  | e::rest =>
    let q := s.descendOrCreate l (splitSubLabPath e.vmName).1
    if (q.1.state.member ⟨q.2,.vm,(splitSubLabPath e.vmName).2⟩).isSome then { q.1 with ok := false }
    else q.1.andThen fun s => s.preflight l rest

/-- Its bridges, made where they are missing. -/
def restoreBridges (s : FileLabs H) (l : ℕ) : List LabSnapshotBridge → CallOutcome H
  | [] => ⟨s,[],true⟩
  | b::rest =>
    if b.name ∈ s.bridges l then s.restoreBridges l rest
    else (s.createBridge l b.name).andThen fun s => s.restoreBridges l rest

/-- Its threads. Each runs to its end, whatever comes of the others. -/
def restoreVms (s : FileLabs H) (l : ℕ) (restored : LabSnapshotEntry → Bool) :
    List LabSnapshotEntry → CallOutcome H
  | [] => ⟨s,[],true⟩
  | e::rest =>
    let q := s.descendOrCreate l (splitSubLabPath e.vmName).1
    let r := q.1.state.restoreVm q.2 (splitSubLabPath e.vmName).2 (restored e)
    let t := r.state.restoreVms l restored rest
    ⟨t.state,q.1.log++r.log++t.log,r.ok && t.ok⟩

/-- A lab snapshot, which of its VMs the backend restores, and whether all can be resumed. -/
structure RestoreInput where
  snapshot : LabSnapshotMeta
  restored : LabSnapshotEntry → Bool
  resumed : Bool

def labRestore (s : FileLabs H) (l : ℕ) (input : RestoreInput) : CallOutcome H :=
  (((s.preflight l input.snapshot.vms).andThen fun s => s.restoreBridges l input.snapshot.bridges).andThen
    fun s => s.restoreVms l input.restored input.snapshot.vms).andThen fun s => ⟨s,[],input.resumed⟩

/-- `unique_fixture_vm_name`. -/
def uniqueFixtureVmName (names : List String) (fixture : String) : String :=
  let base := "fixture:"++String.ofList (fixture.toList.map fun c => if c = '/' then '_' else c)
  if base ∈ names then
    (((List.range' 1 (2^32-2)).map fun i => base++"#"++toString i).find? fun c => c ∉ names).getD base
  else base

/-- `restore_into_lab`. -/
def restoreIntoLab (s : FileLabs H) (l : ℕ) (fixture : String) (restored : Bool) : CallOutcome H :=
  s.withLab l fun node => s.restoreVm l (uniqueFixtureVmName node.vms.keys fixture) restored

/-- `vm_fixture`: the entry that is cached, where there is one, and the one found or built under the
lock, where there is one then. -/
def vmFixture (s : FileLabs H) (l : ℕ) (fixture : String) (cached built : Option Bool) :
    CallOutcome H :=
  let last := fun s : FileLabs H => built.elim s.refused fun restored => s.restoreIntoLab l fixture restored
  match cached with
  | none => last s
  | some restored => (s.restoreIntoLab l fixture restored).orElse last

/-- `restore_lab_from_dir`, where `lab.json` can be read. -/
def restoreLabFromDir (s : FileLabs H) (l : ℕ) (fixture : String) (pid : ℕ) (input : RestoreInput) :
    CallOutcome H :=
  (s.subLab l (fixture++"-"++toString pid)).andThen fun s' => s'.labRestore s.labs.length input

/-- `lab_fixture`. The entry is restored from where there is one; if that fails, again under the lock;
and if that fails or there was none, from what a peer or the build has left. An entry that is none
cannot be read. -/
def labFixture (s : FileLabs H) (l : ℕ) (fixture : String) (pid : ℕ)
    (cached : Option (Option RestoreInput)) (relocked built : Option RestoreInput) : CallOutcome H :=
  let restoreFrom := fun (entry : Option RestoreInput) (s : FileLabs H) =>
    entry.elim s.refused fun input => s.restoreLabFromDir l fixture pid input
  match cached with
  | none => restoreFrom built s
  | some entry => ((restoreFrom entry s).orElse (restoreFrom relocked)).orElse (restoreFrom built)

end FileLabs

/-- The calls of a file. -/
inductive LabCall where
  | createVm (l : ℕ) (name : String) (known : Bool)
  | restoreVm (l : ℕ) (name : String) (restored : Bool)
  | createBridge (l : ℕ) (name : String)
  | subLab (l : ℕ) (name : Option String)
  | includeVm (l v : ℕ)
  | includeBridge (l b : ℕ)
  | includeSubLab (l sub : ℕ)
  | remove (slot : MemberSlot)
  | vmFixture (l : ℕ) (fixture : String) (cached built : Option Bool)
  | labFixture (l : ℕ) (fixture : String) (pid : ℕ) (cached : Option (Option FileLabs.RestoreInput))
    (relocked built : Option FileLabs.RestoreInput)
  | labRestore (l : ℕ) (input : FileLabs.RestoreInput)

namespace FileLabs

/-- The name of a sub-lab asked for. -/
def chosenName (s : FileLabs H) (l : ℕ) (name : Option String) : String := name.getD (s.autoSubLabName l)

def call (s : FileLabs H) : LabCall → CallOutcome H
  | .createVm l name known => s.createVm l name known
  | .restoreVm l name restored => s.restoreVm l name restored
  | .createBridge l name => s.createBridge l name
  | .subLab l name => s.subLabChecked l (s.chosenName l name)
  | .includeVm l v => (s.vmNames[v]?).elim s.refused fun name => s.includeVm l name v
  | .includeBridge l b => (s.bridgeNames[b]?).elim s.refused fun name => s.includeBridge l name b
  | .includeSubLab l sub => s.includeSubLab l sub
  | .remove slot => s.remove slot
  | .vmFixture l fixture cached built => s.vmFixture l fixture cached built
  | .labFixture l fixture pid cached relocked built => s.labFixture l fixture pid cached relocked built
  | .labRestore l input => s.labRestore l input

def machine (H : Type) : Machine (FileLabs H) LabCall (List MemberEvent) :=
  ⟨fun s a => some ((s.call a).state,(s.call a).log)⟩

end FileLabs
end Provium.Lab
