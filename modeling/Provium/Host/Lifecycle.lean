import Provium.Qmp.Connection

/-! The lifecycle of a `Vm`, `vm.rs`: its operations as the critical sections that they run under
the lock of `VmInner`, on any number of clones of one handle. What the backend, the agent and the
clock answer is part of the actions. The boot options, the disk and bridge records and the values
that operations return on success take no part in the lifecycle and are left out. -/
namespace Provium.Host
open Lib Provium.Protocol Provium.Qmp

/-- Public state of a VM. -/
inductive VmState where
  | created
  | booted
  | paused
  | dead
  | shutdown
  deriving DecidableEq, Repr

/-- VMM-layer errors. -/
inductive VmmError where
  | unimplemented (what : String)
  | io (e : IoErrorKind)
  | qmp (e : QmpError)
  | missingProfilePath (field path : String)
  | kernelSource (reason : String)
  | missingDisk (id path : String)
  | diskConflict (id : String)
  | agentOverlay (reason : String)
  deriving DecidableEq, Repr

/-- Errors of the agent client. -/
inductive ClientError where
  | connect (e : IoErrorKind)
  | frame (e : FrameError)
  | versionMismatch (host agent : ℕ)
  | unexpectedMessage (expected actual : String)
  | agent (reason : String)
  | streamSource (errno : ℤ) (message : String)
  deriving DecidableEq, Repr

/-- Failure modes for ops issued through a `Vm`. -/
inductive VmError where
  | client (e : ClientError)
  | vmm (e : VmmError)
  | os (errno : ℤ) (message : String)
  | wrongState (vm : String) (state : VmState) (action : String)
  | diskImage (id message : String)
  | poolExceeded (vm : String)
  | bootRefused (vm reason : String)
  | openResources (vm : String) (openFiles openStreams : ℕ) (streamDetails : List String)
  deriving DecidableEq, Repr

/-- The agent is gone: connect failure, frame EOF, or io error during send/recv. -/
def isDeadSignal : ClientError → Bool
  | .connect _ => true
  | .frame .eof => true
  | .frame (.io _) => true
  | _ => false

/-- The errors after which `with_client` marks the VM Dead. -/
def deadly : Except VmError Unit → Bool
  | .error (.client e) => isDeadSignal e
  | _ => false

/-- The QMP control plane is wedged. -/
def isQmpDeadSignal : VmmError → Bool
  | .qmp (.timeout _) => true
  | .qmp (.io _) => true
  | .qmp (.closed _) => true
  | _ => false

/-- What a launch or a restore hands over: `vmm::VmRunning`. -/
structure Launched (I C : Type) where
  cid : ℕ
  vmInstance : I
  client : C
  consoleLog : Option String
  consoleSocket : Option String

structure VmRunningResources (I C : Type) where
  cid : ℕ
  vmInstance : Option I
  client : C
  consoleLog : Option String
  consoleSocket : Option String

def Launched.resources {I C : Type} (r : Launched I C) : VmRunningResources I C :=
  ⟨r.cid,some r.vmInstance,r.client,r.consoleLog,r.consoleSocket⟩

structure VmInner (I C H : Type) where
  state : VmState
  running : Option (VmRunningResources I C)
  bootReservation : Option H

/-- What is left of an operation after a critical section. -/
inductive Pc where
  /-- `boot` has checked the state and launches. -/
  | booting
  | restoring
  /-- `maybe_mark_dead_on_vmm_err` is to run before the error is returned. -/
  | markDead (e : VmmError)
  /-- The tail of `with_client`. -/
  | markAgentDead (e : ClientError)
  /-- `reset` polls the agent. -/
  | probing
  /-- `reset` is to close the window and return this. -/
  | closingWindow (outcome : Except VmError Unit)

/-- How a critical section ends. -/
inductive Ended where
  | done (result : Except VmError Unit)
  /-- An `expect` fails under the lock. -/
  | panic
  | goOn (pc : Pc)

namespace VmInner
variable {I C H : Type}

/-- The VM's instance, where it has one. -/
def vmInstance (v : VmInner I C H) : Option I := v.running.bind VmRunningResources.vmInstance

/-- `instance.take()`. -/
def takeInstance (v : VmInner I C H) : VmInner I C H :=
  { v with running := v.running.map fun r => { r with vmInstance := none } }

def wrongState (v : VmInner I C H) (name action : String) : Ended :=
  .done (.error (.wrongState name v.state action))

/-- What follows a backend call made under the lock and answered so. -/
def afterBackend : Except VmmError Unit → Ended
  | .ok () => .done (.ok ())
  | .error e => if isQmpDeadSignal e then .goOn (.markDead e) else .done (.error (.vmm e))

/-- The operations that reach the backend and leave the state to `maybe_mark_dead_on_vmm_err`:
where they are legal, and what becomes of them where the instance is missing. -/
def backendOp (v : VmInner I C H) (name action : String) (legal : List VmState) (missing : Ended)
    (answer : Except VmmError Unit) : VmInner I C H × Ended :=
  if v.state ∈ legal then
    match v.vmInstance with
    | none => (v,missing)
    | some _ => (v,afterBackend answer)
  else (v,v.wrongState name action)

def setLink (v : VmInner I C H) (name : String) (answer : Except VmmError Unit) :
    VmInner I C H × Ended :=
  v.backendOp name "set_link" [.booted,.paused] .panic answer

/-- Refuses while file handles or streams are open. -/
def snapshot (v : VmInner I C H) (name : String) (openFiles : ℕ) (streamDetails : List String)
    (answer : Except VmmError Unit) : VmInner I C H × Ended :=
  if openFiles = 0 ∧ streamDetails = [] then
    v.backendOp name "snapshot" [.booted,.paused] .panic answer
  else (v,.done (.error (.openResources name openFiles streamDetails.length streamDetails)))

def wakeup (v : VmInner I C H) (name : String) (answer : Except VmmError Unit) :
    VmInner I C H × Ended :=
  v.backendOp name "wakeup" [.booted] (v.wrongState name "wakeup") answer

def isSuspended (v : VmInner I C H) (name : String) (answer : Except VmmError Unit) :
    VmInner I C H × Ended :=
  v.backendOp name "is_suspended" [.booted] (v.wrongState name "is_suspended") answer

def powerCutDisk (v : VmInner I C H) (name : String) (answer : Except VmmError Unit) :
    VmInner I C H × Ended :=
  v.backendOp name "power_cut_disk" [.booted,.paused] (v.wrongState name "power_cut_disk") answer

def setDiskPolicy (v : VmInner I C H) (name : String) (answer : Except VmmError Unit) :
    VmInner I C H × Ended :=
  v.backendOp name "set_disk_policy" [.booted,.paused] (v.wrongState name "set_disk_policy") answer

def diskPolicy (v : VmInner I C H) (name : String) (answer : Except VmmError Unit) :
    VmInner I C H × Ended :=
  v.backendOp name "disk_policy" [.booted,.paused] (v.wrongState name "disk_policy") answer

def detachDisk (v : VmInner I C H) (name : String) (answer : Except VmmError Unit) :
    VmInner I C H × Ended :=
  v.backendOp name "detach_disk" [.booted,.paused] (v.wrongState name "detach_disk") answer

/-- `attach_disk_live`: with no image or no machine to plug into, the record is all. -/
def attachDiskLive (v : VmInner I C H) (image : Bool) (answer : Except VmmError Unit) :
    VmInner I C H × Ended :=
  if image ∧ v.state ∈ [.booted,.paused] then
    match v.vmInstance with
    | none => (v,.done (.ok ()))
    | some _ => (v,afterBackend answer)
  else (v,.done (.ok ()))

/-- The first section of `reset`. -/
def reset (v : VmInner I C H) (name : String) (answer : Except VmmError Unit) :
    VmInner I C H × Ended :=
  if v.state = .booted then
    match v.vmInstance,answer with
    | none,_ => (v,v.wrongState name "reset")
    | some _,.ok () => (v,.goOn .probing)
    | some _,.error e => (v,afterBackend (.error e))
  else (v,v.wrongState name "reset")

/-- One round of `reset`'s loop: a probe of the agent, and then a look at the deadline. -/
def probe (v : VmInner I C H) (name : String) (answered expired : Bool) : VmInner I C H × Ended :=
  match v.running with
  | none => (v,.goOn (.closingWindow (.error (.wrongState name v.state "reset"))))
  | some _ =>
    if answered then (v,.goOn (.closingWindow (.ok ())))
    else if expired then (v,.goOn (.closingWindow (.error (.client (.connect .timedOut)))))
    else (v,.goOn .probing)

/-- `Booted → Paused`. -/
def pause (v : VmInner I C H) (name : String) (answer : Except VmmError Unit) :
    VmInner I C H × Ended :=
  if v.state = .booted then
    match v.vmInstance,answer with
    | none,_ => (v,.panic)
    | some _,.ok () => ({ v with state := .paused },.done (.ok ()))
    | some _,.error e =>
      (if isQmpDeadSignal e then { v with state := .dead } else v,.done (.error (.vmm e)))
  else (v,v.wrongState name "pause")

/-- `Paused → Booted`. -/
def resume (v : VmInner I C H) (name : String) (answer : Except VmmError Unit) :
    VmInner I C H × Ended :=
  if v.state = .paused then
    match v.vmInstance,answer with
    | none,_ => (v,.panic)
    | some _,.ok () => ({ v with state := .booted },.done (.ok ()))
    | some _,.error e =>
      (if isQmpDeadSignal e then { v with state := .dead } else v,.done (.error (.vmm e)))
  else (v,v.wrongState name "resume")

def powerButton (v : VmInner I C H) (name : String) (answer : Except VmmError Unit) :
    VmInner I C H × Ended :=
  if v.state = .booted then
    match v.vmInstance,answer with
    | none,_ => (v,v.wrongState name "power_button")
    | some _,.ok () => ({ v with state := .shutdown, bootReservation := none },.done (.ok ()))
    | some _,.error e =>
      (if isQmpDeadSignal e then { v with state := .dead } else v,.done (.error (.vmm e)))
  else (v,v.wrongState name "power_button")

/-- The instance is taken out before it is shut down, and its error is returned at once. -/
def shutdown (v : VmInner I C H) (answer : Except VmmError Unit) : VmInner I C H × Ended :=
  match v.state with
  | .shutdown => (v,.done (.ok ()))
  | .created => ({ v with state := .shutdown, bootReservation := none },.done (.ok ()))
  | _ =>
    match v.vmInstance,answer with
    | none,_ => ({ v with state := .shutdown, bootReservation := none },.done (.ok ()))
    | some _,.ok () =>
      ({ v.takeInstance with state := .shutdown, bootReservation := none },.done (.ok ()))
    | some _,.error e => (v.takeInstance,.done (.error (.vmm e)))

/-- The drop of the last handle; the backend's answer is ignored. -/
def drop (v : VmInner I C H) : VmInner I C H × Ended :=
  if v.state ∈ [.booted,.paused] then
    ({ v.takeInstance with state := .shutdown },.done (.ok ()))
  else (v,.done (.ok ()))

/-- `with_client` with what the agent operation made of the client. -/
def withClient (v : VmInner I C H) (name action : String) (answer : Except VmError Unit) :
    VmInner I C H × Ended :=
  if v.state = .booted then
    match v.running,answer with
    | none,_ => (v,.panic)
    | some _,.error (.client e) =>
      (v,if isDeadSignal e then .goOn (.markAgentDead e) else .done (.error (.client e)))
    | some _,answer => (v,.done answer)
  else (v,v.wrongState name action)

/-- The state check that `boot` and `restore` begin with. -/
def checkCreated (v : VmInner I C H) (name action : String) (pc : Pc) : VmInner I C H × Ended :=
  if v.state = .created then (v,.goOn pc) else (v,v.wrongState name action)

/-- The last section of `boot`, which looks at the state again. -/
def boot (v : VmInner I C H) (name : String) (r : Launched I C) (reservation : Option H) :
    VmInner I C H × Ended :=
  if v.state = .created then (⟨.booted,some r.resources,reservation⟩,.done (.ok ()))
  else (v,v.wrongState name "boot")

def restore (v : VmInner I C H) (name : String) (r : Launched I C) : VmInner I C H × Ended :=
  if v.state = .created then (⟨.booted,some r.resources,v.bootReservation⟩,.done (.ok ()))
  else (v,v.wrongState name "restore")

/-- `maybe_mark_dead_on_vmm_err`. -/
def markDead (v : VmInner I C H) (e : VmmError) : VmInner I C H × Ended :=
  (if v.state ∈ [.booted,.paused] then { v with state := .dead } else v,.done (.error (.vmm e)))

def markAgentDead (v : VmInner I C H) (e : ClientError) : VmInner I C H × Ended :=
  (if v.state = .booted then { v with state := .dead } else v,.done (.error (.client e)))

end VmInner

/-- The operations, each with what it is answered under the lock. -/
inductive Op where
  | boot
  | restore
  | pause (answer : Except VmmError Unit)
  | resume (answer : Except VmmError Unit)
  | shutdown (answer : Except VmmError Unit)
  | powerButton (answer : Except VmmError Unit)
  | reset (answer : Except VmmError Unit)
  | snapshot (openFiles : ℕ) (streamDetails : List String) (answer : Except VmmError Unit)
  | wakeup (answer : Except VmmError Unit)
  | isSuspended (answer : Except VmmError Unit)
  | setLink (answer : Except VmmError Unit)
  | attachDiskLive (image : Bool) (answer : Except VmmError Unit)
  | detachDisk (answer : Except VmmError Unit)
  | powerCutDisk (answer : Except VmmError Unit)
  | setDiskPolicy (answer : Except VmmError Unit)
  | diskPolicy (answer : Except VmmError Unit)
  | withClient (action : String) (answer : Except VmError Unit)
  | drop

/-- What an operation in progress waits for before its next section. -/
inductive Event (I C H : Type) where
  | launched (result : Except VmError (Launched I C)) (reservation : Option H)
  | probed (answered expired : Bool)
  | lock

/-- A VM with the operations in progress on its clones; a thread that is over is `none`. -/
structure Vm (I C H : Type) where
  inner : VmInner I C H
  /-- The mutex is poisoned: somebody panicked under it. -/
  poisoned : Bool
  threads : List (Option Pc)

inductive Action (I C H : Type) where
  | call (op : Op)
  | proceed (i : ℕ) (event : Event I C H)

inductive Obs where
  | returned (result : Except VmError Unit)
  | panicked
  | pending
  deriving DecidableEq

variable {I C H : Type}

/-- The first critical section of an operation. -/
def Op.start (name : String) (v : VmInner I C H) : Op → VmInner I C H × Ended
  | .boot => v.checkCreated name "boot" .booting
  | .restore => v.checkCreated name "restore" .restoring
  | .pause answer => v.pause name answer
  | .resume answer => v.resume name answer
  | .shutdown answer => v.shutdown answer
  | .powerButton answer => v.powerButton name answer
  | .reset answer => v.reset name answer
  | .snapshot openFiles streamDetails answer => v.snapshot name openFiles streamDetails answer
  | .wakeup answer => v.wakeup name answer
  | .isSuspended answer => v.isSuspended name answer
  | .setLink answer => v.setLink name answer
  | .attachDiskLive image answer => v.attachDiskLive image answer
  | .detachDisk answer => v.detachDisk name answer
  | .powerCutDisk answer => v.powerCutDisk name answer
  | .setDiskPolicy answer => v.setDiskPolicy name answer
  | .diskPolicy answer => v.diskPolicy name answer
  | .withClient action answer => v.withClient name action answer
  | .drop => v.drop

/-- Whether the first section takes the lock. -/
def Op.locks : Op → Bool
  | .snapshot openFiles streamDetails _ => openFiles = 0 ∧ streamDetails = []
  | _ => true

/-- Whether the next section takes the lock. -/
def Event.locks : Event I C H → Bool
  | .launched (.error _) _ => false
  | _ => true

/-- A later critical section. A launch that fails returns without the lock. -/
def Pc.resume (name : String) (v : VmInner I C H) (pc : Pc) (event : Event I C H) :
    Option (VmInner I C H × Ended) :=
  match pc,event with
  | .booting,.launched (.ok r) reservation => some (v.boot name r reservation)
  | .booting,.launched (.error e) _ => some (v,.done (.error e))
  | .restoring,.launched (.ok r) _ => some (v.restore name r)
  | .restoring,.launched (.error e) _ => some (v,.done (.error e))
  | .markDead e,.lock => some (v.markDead e)
  | .markAgentDead e,.lock => some (v.markAgentDead e)
  | .probing,.probed answered expired => some (v.probe name answered expired)
  | .closingWindow outcome,.lock => some (v,.done outcome)
  | _,_ => none

namespace Vm

/-- `Vm::new`. -/
def new : Vm I C H := ⟨⟨.created,none,none⟩,false,[]⟩

/-- `Vm::from_running`, the VM of a restored lab. -/
def fromRunning (r : Launched I C) : Vm I C H := ⟨⟨.booted,some r.resources,none⟩,false,[]⟩

/-- The VM after a section, the thread that ran it put where the section leaves it. -/
def settle (put : Option Pc → List (Option Pc)) (poisoned : Bool) (q : VmInner I C H × Ended) :
    Vm I C H × Obs :=
  match q.2 with
  | .done result => (⟨q.1,poisoned,put none⟩,.returned result)
  | .panic => (⟨q.1,true,put none⟩,.panicked)
  | .goOn pc => (⟨q.1,poisoned,put (some pc)⟩,.pending)

/-- One critical section of a new operation or of one in progress. On a poisoned mutex every
`lock().unwrap()` panics. -/
def step (name : String) (s : Vm I C H) : Action I C H → Option (Vm I C H × Obs)
  | .call op =>
    if s.poisoned && op.locks then some (s,.panicked)
    else
      let put := fun t : Option Pc => t.elim s.threads fun pc => s.threads++[some pc]
      some (settle put s.poisoned (op.start name s.inner))
  | .proceed i event =>
    (s.threads[i]?).join.bind fun pc => (pc.resume name s.inner event).map fun q =>
      if s.poisoned && event.locks then (⟨s.inner,true,s.threads.set i none⟩,.panicked)
      else settle (s.threads.set i) s.poisoned q

end Vm

def vmMachine (name : String) : Machine (Vm I C H) (Action I C H) Obs := ⟨Vm.step name⟩

end Provium.Host
