import Provium.Lab.Tree
import Provium.Lab.Watchdog
import Provium.Lua.Runner

/-! The `vm_spawned` and `vm_shutdown` events of a file: the VM bindings, which emit by the userdata that
they are called on, `Lab::restore_vm`, and the teardowns of a test's scope and of the file. The file's labs,
VMs and watchdogs are those of the watchdog's model. A binding emits right after its operation on the
VM, on the thread of the file. -/
namespace Provium.Lua
open Lib Provium.Lab Provium.Host

/-- `VmUd`. One that a lookup or a fixture hands out has the `NullSink`. -/
structure VmUd where
  vm : ℕ
  sink : Bool
  labName : String
  profileName : String
  memoryBytes : ℕ
  deriving DecidableEq, Repr

/-- A file with its userdata and the events that it has emitted, each with the VM that it is about. Which
VMs have started is a matter of record. -/
structure FileEvents where
  file : FileRun Unit
  uds : List VmUd
  log : List (ℕ × VmEvent)
  started : Finset ℕ
  ended : Bool

inductive EventAction where
  /-- `lab:vm(name, profile, opts)` -/
  | createVm (l : ℕ) (name profile : String) (memory : ℕ)
  /-- `VmUd::wrap`, of a lookup or a fixture's VM. -/
  | wrap (v : ℕ)
  /-- `vm:boot`, and the new VM's cid if it comes up. -/
  | boot (u : ℕ) (cid : Option ℕ)
  /-- `vm:shutdown`, and whether the backend shuts the VM down. -/
  | shutdown (u duration : ℕ) (stopped : Bool)
  /-- `vm:close`, which the end of a scope calls too. -/
  | close (u duration : ℕ) (stopped : Bool)
  /-- `Lab::restore_vm`, of a snapshot that the backend has restored. -/
  | restoreVm (l : ℕ) (name profile : String) (memory cid : ℕ)
  /-- The end of a test's scope, `fuel` bounding the walk of its lab. -/
  | endScope (l fuel : ℕ) (stops : ℕ → Bool)
  /-- The dispatcher's teardown of the file. -/
  | endFile (path : String) (fuel : ℕ) (stops : ℕ → Bool)
  /-- What emits nothing: the other operations on labs, the watchdogs, and the VMs' own moves, by
  `lab:boot`, `lab:shutdown`, `vm:restore`, `vm:power_button`, a pause, a death or a drop. -/
  | silent (a : FileAction)

/-- `gather_into`, of labs with the names above them. -/
def gatherGraph (labs : Labs Unit) : Nesting (String × ℕ) (String × ℕ) where
  below p := (labs[p.2]?).elim [] fun node => node.subLabs.entries.map fun e => (LabTree.joinName p.1 e.1,e.2)
  items p := (labs[p.2]?).elim [] fun node => node.vms.entries.map fun e => (LabTree.joinName p.1 e.1,e.2)

/-- `collect_all_vms`, where the fuel is enough for the walk. -/
def collectAllVms (labs : Labs Unit) (fuel l : ℕ) : Option (List (String × ℕ)) :=
  match (gatherGraph labs).visit^[fuel] ([("",l)],[]) with
  | ([],members) => some members
  | (_::_,_) => none

/-- `Vm::shutdown`, and whether it returns `Ok`. -/
def vmShutdown (stopped : Bool) : VmState → VmState × Bool
  | .shutdown => (.shutdown,true)
  | .created => (.shutdown,true)
  | state => if stopped then (.shutdown,true) else (state,false)

def isRunning (state : VmState) : Bool := state = .booted || state = .paused

/-- Whether an action that emits nothing is one of its own. -/
def isSilent : FileAction → Bool
  | .createVm _ _ | .launchRestored _ | .insertRestored _ _ => false
  | _ => true

namespace FileEvents

/-- The dispatcher's root lab, and its watchdog unless it is disabled. -/
def start (wall : Bool) : FileEvents := ⟨.start wall,[],[],∅,false⟩

def vmAt (s : FileEvents) (v : ℕ) : Option FileVm := s.file.vms[v]?

def setState (s : FileEvents) (v : ℕ) (state : VmState) : FileEvents :=
  { s with file := s.file.setState v state }

def record (s : FileEvents) (v : ℕ) : FileEvents := { s with started := insert v s.started }

def emit (s : FileEvents) (v : ℕ) (e : VmEvent) : FileEvents := { s with log := s.log++[(v,e)] }

/-- An event of a userdata, which goes to its sink. -/
def emitBy (s : FileEvents) (ud : VmUd) (e : VmEvent) : FileEvents := if ud.sink then s.emit ud.vm e else s

def createVm (s : FileEvents) (l : ℕ) (node : LabInner Unit) (name profile : String) (memory : ℕ) :
    Option FileEvents :=
  (s.file.step (.createVm l name)).map fun
    | (file,.error _) => { s with file }
    | (file,.ok ()) => { s with file, uds := s.uds++[⟨s.file.vms.length,true,node.name,profile,memory⟩] }

def bootVm (s : FileEvents) (ud : VmUd) (vm : FileVm) (cid : Option ℕ) : FileEvents :=
  match vm.state,cid with
  | .created,some cid => ((s.setState ud.vm .booted).record ud.vm).emitBy ud
      (.spawned ud.labName vm.name ud.profileName ud.memoryBytes cid)
  | _,_ => s

/-- `shutdown_with_event` -/
def shutdownWithEvent (s : FileEvents) (ud : VmUd) (vm : FileVm) (duration : ℕ) (stopped : Bool) :
    FileEvents :=
  let q := vmShutdown stopped vm.state
  let s := s.setState ud.vm q.1
  if q.2 then s.emitBy ud (.shutdown ud.labName vm.name duration) else s

def closeVm (s : FileEvents) (ud : VmUd) (vm : FileVm) (duration : ℕ) (stopped : Bool) : FileEvents :=
  if isRunning vm.state then s.shutdownWithEvent ud vm duration stopped
  else s.setState ud.vm (vmShutdown stopped vm.state).1

def restoreVm (s : FileEvents) (l : ℕ) (node : LabInner Unit) (name profile : String) (memory cid : ℕ) :
    Option FileEvents :=
  let v := s.file.vms.length
  (s.file.step (.launchRestored name)).bind fun q => (q.1.step (.insertRestored l v)).map fun
    | (file,.error _) => ({ s with file } : FileEvents).record v
    | (file,.ok ()) =>
      (({ s with file } : FileEvents).record v).emit v (.spawned node.name name profile memory cid)

/-- The members that still run, each with the event of its teardown. -/
def teardownEvents (s : FileEvents) (file : String) (members : List (String × ℕ)) : List (ℕ × VmEvent) :=
  (members.filter fun m => (s.vmAt m.2).any fun vm => isRunning vm.state).map fun m =>
    (m.2,.shutdown file m.1 0)

/-- The batch of `Lab::shutdown`. -/
def shutdownAll (s : FileEvents) (stops : ℕ → Bool) : List ℕ → FileEvents
  | [] => s
  | v::vs =>
    (match s.vmAt v with
      | none => s
      | some vm => s.setState v (vmShutdown (stops v) vm.state).1).shutdownAll stops vs

/-- `emit_scope_vm_shutdowns`, or the dispatcher's loop that it mirrors, and `Lab::shutdown`. -/
def teardown (s : FileEvents) (l : ℕ) (file : String) (members : List (String × ℕ)) (stops : ℕ → Bool) :
    FileEvents :=
  let s := ({ s with log := s.log++s.teardownEvents file members } : FileEvents).shutdownAll stops
    (members.map Prod.snd)
  { s with file := s.file.clearReservations l }

def act (s : FileEvents) : EventAction → Option FileEvents
  | .createVm l name profile memory => (s.file.labs[l]?).bind fun node => s.createVm l node name profile memory
  | .wrap v => (s.vmAt v).map fun _ => { s with uds := s.uds++[⟨v,false,"","",0⟩] }
  | .boot u cid => (s.uds[u]?).bind fun ud => (s.vmAt ud.vm).map fun vm => s.bootVm ud vm cid
  | .shutdown u duration stopped =>
    (s.uds[u]?).bind fun ud => (s.vmAt ud.vm).map fun vm => s.shutdownWithEvent ud vm duration stopped
  | .close u duration stopped =>
    (s.uds[u]?).bind fun ud => (s.vmAt ud.vm).map fun vm => s.closeVm ud vm duration stopped
  | .restoreVm l name profile memory cid =>
    (s.file.labs[l]?).bind fun node => s.restoreVm l node name profile memory cid
  | .endScope l fuel stops =>
    (s.file.labs[l]?).bind fun node => (collectAllVms s.file.labs fuel l).map fun members =>
      s.teardown l node.name members stops
  | .endFile path fuel stops =>
    (collectAllVms s.file.labs fuel 0).map fun members =>
      { s.teardown 0 path members stops with ended := true }
  | .silent a =>
    if isSilent a then (s.file.step a).map fun q =>
      match a with
      | .vm v .booted => ({ s with file := q.1 } : FileEvents).record v
      | _ => { s with file := q.1 }
    else none

def step (s : FileEvents) (a : EventAction) : Option (FileEvents × Unit) :=
  if s.ended then none else (s.act a).map fun s => (s,())

end FileEvents

def eventMachine : Machine FileEvents EventAction Unit := ⟨FileEvents.step⟩

/-- The file and the VM's name that an event carries. -/
def VmEvent.identity : VmEvent → String × String
  | .spawned file vmName _ _ _ => (file,vmName)
  | .shutdown file vmName _ => (file,vmName)

def VmEvent.isSpawn : VmEvent → Bool
  | .spawned _ _ _ _ _ => true
  | .shutdown _ _ _ => false

/-- What a consumer adds to its counter of live VMs. -/
def VmEvent.weight : VmEvent → ℤ
  | .spawned _ _ _ _ _ => 1
  | .shutdown _ _ _ => -1

def liveCounter (log : List (ℕ × VmEvent)) : ℤ := (log.map fun e => e.2.weight).sum

namespace FileEvents

def eventsOf (s : FileEvents) (v : ℕ) : List VmEvent := (s.log.filter fun e => e.1 = v).map Prod.snd

/-- The events of each VM pair up: none of one that never started, a spawn of one that lives, and of one
that is over a spawn and a later shutdown with the same identity. At the end of the file all are over. -/
structure Paired (s : FileEvents) : Prop where
  silent : ∀ v ∉ s.started, s.eventsOf v = []
  live : ∀ v ∈ s.started, ∀ vm, s.vmAt v = some vm → vm.state ≠ .shutdown →
    ∃ e, s.eventsOf v = [e] ∧ e.isSpawn = true
  down : ∀ v ∈ s.started, ∀ vm, s.vmAt v = some vm → vm.state = .shutdown →
    ∃ e e', s.eventsOf v = [e,e'] ∧ e.isSpawn = true ∧ e'.isSpawn = false ∧ e'.identity = e.identity
  ended : s.ended = true → ∀ v ∈ s.started, ∃ vm, s.vmAt v = some vm ∧ vm.state = .shutdown
  counter : s.ended = true → liveCounter s.log = 0

/-- It was spawned under this identity. -/
def SpawnedAs (s : FileEvents) (v : ℕ) (identity : String × String) : Prop :=
  ∃ e ∈ s.eventsOf v, e.identity = identity

/-- A teardown tells the truth about these members: each that runs is listed once, under the identity that
it was spawned with, and shuts down, and none is dead. -/
structure Truthful (s : FileEvents) (file : String) (members : List (String × ℕ)) (stops : ℕ → Bool) :
    Prop where
  once : ((members.filter fun m => (s.vmAt m.2).any fun vm => isRunning vm.state).map Prod.snd).Nodup
  identity : ∀ m ∈ members, ∀ vm, s.vmAt m.2 = some vm → isRunning vm.state = true →
    s.SpawnedAs m.2 (file,m.1) ∧ stops m.2 = true
  alive : ∀ m ∈ members, ∀ vm, s.vmAt m.2 = some vm → vm.state ≠ .dead

/-- A VM that has come up and is not shut down is not shut down here. -/
def Spares (s : FileEvents) (v : ℕ) : Prop :=
  ∀ vm, s.vmAt v = some vm → vm.state = .created ∨ vm.state = .shutdown

/-- What a file has to keep to for its events to pair up. -/
def Tells (s : FileEvents) : EventAction → Prop
  -- a VM is booted by the userdata that made it
  | .boot u cid => ∀ ud vm, s.uds[u]? = some ud → s.vmAt ud.vm = some vm → vm.state = .created →
    cid.isSome → ud.sink = true
  -- and shut down by it, while it lives; other userdata are silent
  | .shutdown u _ stopped => ∀ ud vm, s.uds[u]? = some ud → s.vmAt ud.vm = some vm →
    if vm.state = .created ∨ vm.state = .shutdown then ud.sink = false
    else stopped = true → ud.sink = true
  | .close u _ stopped => ∀ ud vm, s.uds[u]? = some ud → s.vmAt ud.vm = some vm → stopped = true →
    vm.state ≠ .dead ∧ (isRunning vm.state = true → ud.sink = true)
  -- the name is free
  | .restoreVm l name _ _ _ => ∀ node, s.file.labs[l]? = some node → name ∉ node.vms
  | .endScope l fuel stops => ∀ node members, s.file.labs[l]? = some node →
    collectAllVms s.file.labs fuel l = some members → s.Truthful node.name members stops
  -- and nothing that lives is out of the file's labs
  | .endFile path fuel stops => ∀ members, collectAllVms s.file.labs fuel 0 = some members →
    s.Truthful path members stops ∧ ∀ v vm, s.vmAt v = some vm →
      vm.state = .created ∨ vm.state = .shutdown ∨ v ∈ members.map Prod.snd
  -- a VM's own move is neither its start nor its end
  | .silent (.vm v next) => (next = .booted → ∀ vm, s.vmAt v = some vm → vm.state ≠ .created) ∧
    (next = .shutdown → s.Spares v)
  -- a watchdog finds nothing to shut down
  | .silent (.watchdog i (.stop k)) => ∀ w running todo stopped v, s.file.watchdogs[i]? = some w →
    w.phase = .stopping running todo stopped → todo[k]? = some v → s.Spares v
  | _ => True

end FileEvents

end Provium.Lua
