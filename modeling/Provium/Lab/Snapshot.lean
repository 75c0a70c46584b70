import Provium.Lab.Bridge
import Provium.Lab.Tree
import Provium.Host.Lifecycle

/-! `lab_snapshot` and `lab_restore`. The threads of a step work on different VMs, so the step is
taken VM by VM; of two that restore one name the second fails, whichever it is. A realised bridge
differs from the recorded one on the host only, so realising is left out. -/
namespace Provium.Lab
open Lib Provium.Host

structure LabSnapshotEntry where
  vmName : String
  profile : String
  snapshotPath : String
  deriving DecidableEq, Repr

structure LabSnapshotDirectional where
  source : String
  target : String
  impairment : DirectionalImpairment
  deriving DecidableEq, Repr

structure LabSnapshotBridge where
  name : String
  members : List String
  latencyMs : ℕ
  dropRatePct : ℕ
  bandwidthBps : ℕ
  uplinkEnabled : Bool
  routes : List String
  isolated : List String
  partitions : List (String × String)
  directionalPartitions : List (String × String)
  directionalImpairments : List LabSnapshotDirectional
  fullyPartitioned : Bool
  deriving DecidableEq, Repr

structure LabSnapshotMeta where
  vms : List LabSnapshotEntry
  bridges : List LabSnapshotBridge
  deriving DecidableEq, Repr

/-- Each member with each that follows it. -/
def memberPairs : List String → List (String × String)
  | [] => []
  | a::rest => rest.map (fun c => (a,c))++memberPairs rest

/-- What `lab_snapshot` writes down of a bridge. Pairs are asked for among the members only, and not
at all where the whole bridge is partitioned. -/
def LabSnapshotBridge.capture (name : String) (b : BridgeInner) : LabSnapshotBridge where
  name := name
  members := b.attached
  latencyMs := b.latencyMs
  dropRatePct := b.dropRatePct
  bandwidthBps := b.bandwidthBps
  uplinkEnabled := b.uplinkEnabled
  routes := b.routedTo
  isolated := b.attached.filter fun m => b.isIsolated m
  partitions :=
    if b.fullyPartitioned then [] else (memberPairs b.attached).filter fun k => b.isPartitioned k.1 k.2
  directionalPartitions := b.directionalPartitions
  directionalImpairments := (b.directional.entries.filter fun e =>
    0 < e.2.latencyMs ∨ 0 < e.2.dropRatePct ∨ 0 < e.2.bandwidthBps).map fun e => ⟨e.1.1,e.1.2,e.2⟩
  fullyPartitioned := b.fullyPartitioned

namespace LabSnapshotDirectional

def ops (d : LabSnapshotDirectional) : List BridgeOp :=
  (if 0 < d.impairment.latencyMs then
      [.addDirectionalLatency d.source d.target d.impairment.latencyMs] else [])++
    (if 0 < d.impairment.dropRatePct then
      [.directionalDropRate d.source d.target d.impairment.dropRatePct] else [])++
    (if 0 < d.impairment.bandwidthBps then
      [.setDirectionalBandwidth d.source d.target d.impairment.bandwidthBps] else [])

end LabSnapshotDirectional

namespace LabSnapshotBridge

/-- The calls of the first step of `lab_restore` on the bridge. -/
def attachOps (m : LabSnapshotBridge) : List BridgeOp := m.members.map .attach

/-- The calls of its third step, in their order. -/
def reapplyOps (m : LabSnapshotBridge) : List BridgeOp :=
  (if 0 < m.latencyMs then [.addLatency m.latencyMs] else [])++
    (if 0 < m.dropRatePct then [.dropRate m.dropRatePct] else [])++
    (if 0 < m.bandwidthBps then [.bandwidthLimit m.bandwidthBps] else [])++
    m.routes.map .route++m.isolated.map .isolate++m.partitions.map (fun k => .partition k.1 k.2)++
    m.directionalPartitions.map (fun k => .partitionDirectional k.1 k.2)++
    m.directionalImpairments.flatMap LabSnapshotDirectional.ops++
    (if m.fullyPartitioned then [.partitionAll] else [])++
    (if m.uplinkEnabled then [.enableUplink] else [])

end LabSnapshotBridge

/-- A network card of a restored VM; its handle is the bridge of this name in the lab restored to. -/
structure NicAttachment where
  bridgeName : String
  nicId : String
  deriving DecidableEq, Repr

/-- The cards a VM is restored with: its name in the snapshot is looked for among the members. -/
def nicAttachments (bridges : List LabSnapshotBridge) (vmName leaf : String) : List NicAttachment :=
  bridges.filterMap fun b =>
    if vmName ∈ b.members then some ⟨b.name,leaf++"-"++b.name⟩ else none

/-- A bridge that a VM holds: the one of its name in the lab at this path, or one that is in no lab of the
tree. -/
inductive BridgeHandle where
  | ofLab (path : List String)
  | elsewhere (inner : BridgeInner)

/-- A VM as a snapshot and a restore see it. The bridges it was attached to are kept by their names, also
when it is detached. -/
structure SnapshotVm (I C H : Type) where
  profile : String
  inner : VmInner I C H
  openFiles : ℕ
  streams : List String
  nics : List NicAttachment
  bridgeAttachments : Table String BridgeHandle

inductive SnapshotError where
  | lab (e : LabError)
  | unknownProfile (name : String)
  | openStreams (total : ℕ)
  | restoreFailed (name : String) (e : VmError)
  | resumeFailed (e : VmError)
  | panicked
  deriving DecidableEq

variable {I C H : Type}

/-- What the backend answers one VM. -/
structure SnapshotAnswers where
  pause : Except VmmError Unit
  snapshot : Except VmmError Unit
  resume : Except VmmError Unit

namespace SnapshotVm

/-- One thread of `lab_snapshot`. A failed pause and a failed resume are ignored. -/
def snapshot (vm : SnapshotVm I C H) (flat leaf dir : String) (a : SnapshotAnswers) :
    SnapshotVm I C H × Except SnapshotError LabSnapshotEntry :=
  let paused := vm.inner.pause leaf a.pause
  match paused.2 with
  | .panic => ({ vm with inner := paused.1 },.error .panicked)
  | _ =>
    let taken := paused.1.snapshot leaf vm.openFiles vm.streams a.snapshot
    match taken.2 with
    | .done (.ok ()) =>
      let resumed := taken.1.resume leaf a.resume
      match resumed.2 with
      | .panic => ({ vm with inner := resumed.1 },.error .panicked)
      | _ => ({ vm with inner := resumed.1 },
          .ok ⟨flat,vm.profile,LabTree.snapshotPath dir flat⟩)
    | .done (.error e) => ({ vm with inner := taken.1 },.error (.restoreFailed flat e))
    | .goOn (.markDead e) =>
      ({ vm with inner := { taken.1 with state := .dead } },.error (.restoreFailed flat (.vmm e)))
    | _ => ({ vm with inner := taken.1 },.error .panicked)

end SnapshotVm

abbrev SnapshotLab (I C H : Type) := LabTree Bridge (SnapshotVm I C H)

/-- `open_stream_total`: the streams of the VMs and the live captures of the bridges. -/
def openStreamTotal (t : SnapshotLab I C H) (captures : List String × String → ℕ) : ℕ :=
  (t.entries.map fun e => e.2.streams.length).sum+(t.bridgeEntries.map fun e => captures e.1).sum

/-- The outcomes of the threads in the order in which they are joined: the first failure is returned. -/
def joinAll {α ε : Type} : List (Except ε α) → Except ε (List α)
  | [] => .ok []
  | r::rest => r.bind fun a => (joinAll rest).map (a::·)

/-- What the threads of `lab_snapshot` make of the VMs, each at its place in the tree. -/
def snapshotVms (t : SnapshotLab I C H) (dir : String)
    (answers : List String × String → SnapshotAnswers) :
    List ((List String × String) × SnapshotVm I C H × Except SnapshotError LabSnapshotEntry) :=
  t.entries.map fun e => (e.1,e.2.snapshot (LabTree.flatName "" e.1) e.1.2 dir (answers e.1))

/-- `lab_snapshot`. The open streams below the lab are counted before anything is done; of the bridges
those of the lab itself are written down. -/
def labSnapshot (t : SnapshotLab I C H) (captures : List String × String → ℕ) (dir : String)
    (answers : List String × String → SnapshotAnswers) : Except SnapshotError LabSnapshotMeta :=
  if 0 < openStreamTotal t captures then .error (.openStreams (openStreamTotal t captures))
  else (joinAll ((snapshotVms t dir answers).map fun e => e.2.2)).map fun entries =>
    ⟨entries,t.bridges.entries.map fun e => .capture e.1 e.2.inner⟩

/-- What a restore meets: the profiles that are configured, and what the backend answers. -/
structure RestoreHost (I C : Type) where
  known : String → Bool
  restore : LabSnapshotEntry → Except VmmError (Launched I C)
  resume : LabSnapshotEntry → Except VmmError Unit

/-- The VM of `Vm::from_running`. -/
def fromRunning (profile : String) (nics : List NicAttachment) (running : Launched I C) :
    SnapshotVm I C H :=
  ⟨profile,⟨.booted,some running.resources,none⟩,0,[],nics,∅⟩

/-- `restore_vm` up to its insertion. -/
def restoreVm (host : RestoreHost I C) (bridges : List LabSnapshotBridge) (e : LabSnapshotEntry) :
    Except SnapshotError (SnapshotVm I C H) :=
  if host.known e.profile then
    match host.restore e with
    | .error err => .error (.restoreFailed (splitSubLabPath e.vmName).2 (.vmm err))
    | .ok running =>
      .ok (fromRunning e.profile (nicAttachments bridges e.vmName (splitSubLabPath e.vmName).2) running)
  else .error (.unknownProfile e.profile)

namespace SnapshotLab

/-- The pre-flight: the sub-labs on the way are made, and no VM may be there yet. -/
def preflight : SnapshotLab I C H → List LabSnapshotEntry → Except SnapshotError (SnapshotLab I C H)
  | t,[] => .ok t
  | t,e::rest =>
    let q := splitSubLabPath e.vmName
    let t := LabTree.descendOrCreate q.1 t
    if (LabTree.vmAt t q.1 q.2).isSome then .error (.lab (.duplicateVmName e.vmName))
    else preflight t rest

/-- A bridge of the lab itself, made where it is missing; its name is checked then. -/
def attachBridge (t : SnapshotLab I C H) (m : LabSnapshotBridge) :
    Except SnapshotError (SnapshotLab I C H) :=
  match t.bridges.lookup m.name with
  | some b => .ok (t.putBridge m.name (b.applyAll m.attachOps))
  | none =>
    match checkReservedName m.name with
    | .error e => .error (.lab e)
    | .ok () => .ok (t.putBridge m.name (Bridge.new.applyAll m.attachOps))

def attachBridges : SnapshotLab I C H → List LabSnapshotBridge →
    Except SnapshotError (SnapshotLab I C H)
  | t,[] => .ok t
  | t,m::rest => (attachBridge t m).bind fun t => attachBridges t rest

def restoreVms (host : RestoreHost I C) (bridges : List LabSnapshotBridge) :
    SnapshotLab I C H → List LabSnapshotEntry → Except SnapshotError (SnapshotLab I C H)
  | t,[] => .ok t
  | t,e::rest => (restoreVm host bridges e).bind fun vm =>
      match LabTree.place t e.vmName vm with
      | .error err => .error (.lab err)
      | .ok t => restoreVms host bridges t rest

def reapplyBridge (t : SnapshotLab I C H) (m : LabSnapshotBridge) : SnapshotLab I C H :=
  match t.bridges.lookup m.name with
  | none => t
  | some b => t.putBridge m.name (b.applyAll m.reapplyOps)

def reapplyBridges (t : SnapshotLab I C H) (bridges : List LabSnapshotBridge) : SnapshotLab I C H :=
  bridges.foldl reapplyBridge t

/-- The last step: every restored VM is resumed. -/
def resumeVms (host : RestoreHost I C) :
    SnapshotLab I C H → List LabSnapshotEntry → Except SnapshotError (SnapshotLab I C H)
  | t,[] => .ok t
  | t,e::rest =>
    let q := splitSubLabPath e.vmName
    match LabTree.vmAt t q.1 q.2 with
    | none => resumeVms host t rest
    | some vm =>
      let resumed := vm.inner.resume q.2 (host.resume e)
      match resumed.2 with
      | .done (.ok ()) =>
        resumeVms host (LabTree.atPath (LabTree.putVm q.2 { vm with inner := resumed.1 }) q.1 t) rest
      | .done (.error err) => .error (.resumeFailed err)
      | _ => .error .panicked

/-- `lab_restore` into the lab. -/
def labRestore (host : RestoreHost I C) (t : SnapshotLab I C H) (m : LabSnapshotMeta) :
    Except SnapshotError (SnapshotLab I C H) :=
  (preflight t m.vms).bind fun t => (attachBridges t m.bridges).bind fun t =>
    (restoreVms host m.bridges t m.vms).bind fun t =>
      resumeVms host (reapplyBridges t m.bridges) m.vms

end SnapshotLab
end Provium.Lab
