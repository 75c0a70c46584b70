import Provium.Lab.BridgeNames
import Provium.Lab.BridgeQdisc

/-! A bridge on its host, `bridge.rs` with all of its commands: the interfaces with their qdiscs, the nft
tables with their rules, and what the bridge believes of them. The nft commands succeed, those of `ip` and
`tc` where the interface is as they need it. Captures and the iptables form of the uplink are left out. -/
namespace Provium.Lab
open Lib

/-- The class of an htb root, and the netem under it. -/
structure HtbClass where
  rate : ℕ
  ceil : ℕ
  burst : ℕ
  child : Option (ℕ × ℕ)
  deriving DecidableEq, Repr

/-- What an interface has at its root. -/
inductive Shaping where
  | qdisc (q : Qdisc)
  | htb (cls : Option HtbClass)
  deriving DecidableEq, Repr

/-- `none` where there is no interface. -/
abbrev Interface := Option (Option Shaping)

namespace Interface

/-! The commands on one interface; `none` is that of a command that fails. -/

/-- `ip link add` and `ip tuntap add`, where `File exists` is no failure. -/
def add : Interface → Option Interface
  | none => some (some none)
  | some root => some (some root)

/-- `ip link del` -/
def del : Interface → Option Interface
  | some _ => some none
  | none => none

def qdiscAdd (shaping : Shaping) : Interface → Option Interface
  | some none => some (some (some shaping))
  | _ => none

def qdiscDel : Interface → Option Interface
  | some (some _) => some (some none)
  | _ => none

def qdiscChange (q : Qdisc) : Interface → Option Interface
  | some (some (.qdisc old)) => if old.sameKind q then some (some (some (.qdisc q))) else none
  | _ => none

def qdiscReplace (q : Qdisc) : Interface → Option Interface
  | some _ => some (some (some (.qdisc q)))
  | none => none

/-- `tc class add … parent 1: classid 1:10` -/
def classAdd (rate ceil burst : ℕ) : Interface → Option Interface
  | some (some (.htb none)) => some (some (some (.htb (some ⟨rate,ceil,burst,none⟩))))
  | _ => none

/-- `tc qdisc add … parent 1:10 handle 10: netem` -/
def childAdd (netem : ℕ × ℕ) : Interface → Option Interface
  | some (some (.htb (some cls))) =>
    if cls.child = none then some (some (some (.htb (some { cls with child := some netem })))) else none
  | _ => none

end Interface

inductive NftFamily where
  | bridge
  | ip
  deriving DecidableEq, Repr

inductive NftRule where
  | drop (iifname oifname : String)
  | masquerade (oifname iifname : String)
  deriving DecidableEq, Repr

/-- A table with its chain is a list of rules. `upstream` is what `default_upstream_iface` finds. -/
structure Host where
  interfaces : String → Interface
  tables : NftFamily → String → Option (List NftRule)
  upstream : Option String

namespace Host

def setInterface (h : Host) (dev : String) (i : Interface) : Host :=
  { h with interfaces := Function.update h.interfaces dev i }

def setTable (h : Host) (family : NftFamily) (name : String) (table : Option (List NftRule)) : Host :=
  { h with tables := Function.update h.tables family (Function.update (h.tables family) name table) }

/-- A command on an interface, and whether it succeeds. -/
def run (h : Host) (dev : String) (command : Interface → Option Interface) : Host × Bool :=
  match command (h.interfaces dev) with
  | some i => (h.setInterface dev i,true)
  | none => (h,false)

/-- A command whose failure is ignored. -/
def ignoring (h : Host) (dev : String) (command : Interface → Option Interface) : Host :=
  (h.run dev command).1

end Host

/-- The next command, if the last one succeeded. -/
def andThen (r : Host × Bool) (next : Host → Host × Bool) : Host × Bool := if r.2 then next r.1 else r

def installNetemRoot (tap : String) (lat drop : ℕ) (h : Host) : Host × Bool :=
  h.run tap (Interface.qdiscAdd (.qdisc (.netem lat drop)))

def installHtbWithOptionalNetem (tap : String) (lat drop bps : ℕ) (h : Host) : Host × Bool :=
  andThen (h.run tap (Interface.qdiscAdd (.htb none))) fun h =>
  andThen (h.run tap (Interface.classAdd bps bps (max (bps/800) 1500))) fun h =>
  if 0 < lat ∨ 0 < drop then h.run tap (Interface.childAdd (lat,drop)) else (h,true)

/-- The loop of `collapsed_directional_for`. -/
def collapseLoop (vm : String) (acc : Option (ℕ × ℕ × ℕ)) :
    List (Σ _ : String × String, DirectionalImpairment) → Option (ℕ × ℕ × ℕ)
  | [] => acc
  | e::es =>
    if e.1.1 ≠ vm then collapseLoop vm acc es
    else
      let cur := acc.getD (0,0,0)
      collapseLoop vm (some (max cur.1 e.2.latencyMs,max cur.2.1 e.2.dropRatePct,
        max cur.2.2 e.2.bandwidthBps)) es

namespace BridgeInner

/-- Latency, loss and rate of a VM's TAP. -/
def collapsedDirectionalFor (b : BridgeInner) (vm : String) : Option (ℕ × ℕ × ℕ) :=
  (collapseLoop vm none b.directional.entries).filter fun t => 0 < t.1 ∨ 0 < t.2.1 ∨ 0 < t.2.2

end BridgeInner

/-- A bridge with what it knows of the host. -/
structure HostedBridge where
  name : String
  inner : BridgeInner
  realized : Bool
  realizedTaps : List String
  realizedNetem : Option (ℕ × ℕ)
  realizedDirectional : Table String (ℕ × ℕ × ℕ)
  uplinkRealized : Bool

/-- The calls of a bridge. -/
inductive HostCall where
  | record (op : BridgeOp)
  | realizeForVm (vm : String)
  | unrealize
  deriving DecidableEq, Repr

namespace HostedBridge

/-- `Bridge::new` -/
def new (name : String) : HostedBridge := ⟨name,.new,false,[],none,∅,false⟩

def tap (b : HostedBridge) (vm : String) : String := tapNameForVmOnBridge vm b.name

/-- The first two of the commands that `realize_for_vm` may run. -/
def netemStep (b : HostedBridge) (h : Host) : Host × Bool :=
  if b.realizedNetem = b.inner.targetNetem then (h,true)
  else match b.realizedNetem,b.inner.targetNetem with
    | some _,some target => h.run b.name (Interface.qdiscChange (netemOf target))
    | none,some target => h.run b.name (Interface.qdiscAdd (.qdisc (netemOf target)))
    | some _,none => (h.ignoring b.name Interface.qdiscDel,true)
    | none,none => (h,true)

/-- The last of them. -/
def directionalStep (b : HostedBridge) (vm : String) (h : Host) : Host × Bool :=
  let current := b.realizedDirectional.lookup vm
  let target := b.inner.collapsedDirectionalFor vm
  if current = target then (h,true)
  else
    let h := if current.isSome then h.ignoring (b.tap vm) Interface.qdiscDel else h
    match target with
    | none => (h,true)
    | some (lat,drop,bps) =>
      if 0 < bps then installHtbWithOptionalNetem (b.tap vm) lat drop bps h
      else installNetemRoot (b.tap vm) lat drop h

/-- The commands of `realize_for_vm`. -/
def realizeCommands (b : HostedBridge) (vm : String) (h : Host) : Host × Bool :=
  andThen (if b.realized then (h,true) else h.run b.name Interface.add) fun h =>
  andThen (b.netemStep h) fun h =>
  andThen (if vm ∈ b.realizedTaps then (h,true) else h.run (b.tap vm) Interface.add) fun h =>
  b.directionalStep vm h

/-- What `realize_for_vm` notes at its end. -/
def noteRealized (b : HostedBridge) (vm : String) : HostedBridge :=
  { b with
    realized := true
    realizedNetem := b.inner.targetNetem
    realizedTaps := b.realizedTaps.insert vm
    realizedDirectional := match b.inner.collapsedDirectionalFor vm with
      | some v => b.realizedDirectional.insert vm v
      | none => b.realizedDirectional.erase vm }

/-- The rules of `refresh_partitions`. -/
def partitionRules (b : HostedBridge) : List NftRule :=
  let taps := b.realizedTaps.map b.tap
  if b.inner.fullyPartitioned then
    taps.flatMap fun x => (taps.filter (x ≠ ·)).map fun y => .drop x y
  else
    (b.inner.partitions.flatMap fun k => [.drop (b.tap k.1) (b.tap k.2),.drop (b.tap k.2) (b.tap k.1)])++
    (b.inner.directionalPartitions.map fun k => .drop (b.tap k.1) (b.tap k.2))++
    (b.inner.isolated.flatMap fun v => (taps.filter (· ≠ b.tap v)).flatMap fun other =>
      [.drop (b.tap v) other,.drop other (b.tap v)])

/-- `nothing_to_do` -/
def nothingToDo (b : HostedBridge) : Bool :=
  !b.inner.fullyPartitioned && b.inner.partitions.isEmpty && b.inner.directionalPartitions.isEmpty &&
    b.inner.isolated.isEmpty

/-- The commands of `refresh_uplink`, through nft. Adding a table that is there is no failure. -/
def uplinkCommands (b : HostedBridge) (h : Host) : Host :=
  match h.upstream with
  | none => h
  | some upstream => h.setTable .ip (uplinkTableFor b.name)
    (if b.inner.uplinkEnabled then
      some ((h.tables .ip (uplinkTableFor b.name)).getD []++[.masquerade upstream b.name])
    else none)

end HostedBridge

/-- A bridge and its host. -/
structure Site where
  bridge : HostedBridge
  host : Host

namespace Site

/-- `refresh_partitions`. Its callers drop its result. -/
def refreshPartitions (s : Site) : Site :=
  if !s.bridge.realized then s
  else { s with
    host := s.host.setTable .bridge (partitionTableFor s.bridge.name)
      (if s.bridge.nothingToDo then none else some s.bridge.partitionRules) }

def realizeForVm (s : Site) (vm : String) : Site × Bool :=
  let r := s.bridge.realizeCommands vm s.host
  if r.2 then (⟨s.bridge.noteRealized vm,r.1⟩,true) else (⟨s.bridge,r.1⟩,false)

/-- The loop of `refresh_directional`, which the first failure ends. -/
def realizeAll (s : Site) : List String → Site
  | [] => s
  | vm::vms => if (s.realizeForVm vm).2 then (s.realizeForVm vm).1.realizeAll vms else (s.realizeForVm vm).1

def refreshDirectional (s : Site) : Site :=
  if s.bridge.realized then s.realizeAll s.bridge.realizedTaps else s

def refreshNetem (s : Site) : Site :=
  if !s.bridge.realized then s
  else match s.bridge.realizedNetem,s.bridge.inner.targetNetem with
    | none,none => s
    | some _,none =>
      ⟨{ s.bridge with realizedNetem := none },s.host.ignoring s.bridge.name Interface.qdiscDel⟩
    | _,some target => { s with
      host := (s.host.ignoring s.bridge.name Interface.qdiscDel).ignoring s.bridge.name
        (Interface.qdiscAdd (.qdisc (netemOf target))) }

def refreshBandwidth (s : Site) : Site :=
  if !s.bridge.realized then s
  else if s.bridge.inner.bandwidthBps = 0 then
    let s := { s with host := s.host.ignoring s.bridge.name Interface.qdiscDel }
    if s.bridge.inner.targetNetem.isSome then s.refreshNetem else s
  else if s.bridge.inner.targetNetem.isSome then s
  else { s with
    host := s.host.ignoring s.bridge.name (Interface.qdiscReplace (tbfOf s.bridge.inner.bandwidthBps)) }

def refreshUplink (s : Site) : Site :=
  if s.bridge.inner.uplinkEnabled = s.bridge.uplinkRealized then s
  else ⟨{ s.bridge with uplinkRealized := s.bridge.inner.uplinkEnabled },s.bridge.uplinkCommands s.host⟩

/-- The second half of `detach`. -/
def dropTap (s : Site) (vm : String) : Site :=
  ⟨{ s.bridge with realizedTaps := s.bridge.realizedTaps.filter (· ≠ vm) },
    if s.bridge.realized ∧ vm ∈ s.bridge.realizedTaps then
      s.host.ignoring (s.bridge.tap vm) Interface.del
    else s.host⟩

/-- What a call does once it has changed the records. -/
def refreshAfter (s : Site) : BridgeOp → Site
  | .attach _ | .route _ => s
  | .detach vm => (s.dropTap vm).refreshPartitions
  | .partition _ _ | .unpartition _ _ | .partitionDirectional _ _ | .unpartitionDirectional _ _
  | .partitionAll | .restoreAll | .isolate _ | .unisolate _ => s.refreshPartitions
  | .reset => s.refreshPartitions.refreshNetem.refreshBandwidth.refreshDirectional
  | .addLatency _ | .dropRate _ => s.refreshNetem
  | .bandwidthLimit _ => s.refreshBandwidth
  | .addDirectionalLatency _ _ _ | .directionalDropRate _ _ _ | .setDirectionalBandwidth _ _ _ =>
    s.refreshDirectional
  | .enableUplink | .disableUplink => s.refreshUplink

/-- The records as a call leaves them. -/
def recorded (s : Site) (op : BridgeOp) : Site :=
  { s with bridge := { s.bridge with inner := s.bridge.inner.apply op } }

/-- The TAPs of `unrealize`. -/
def deleteTaps (b : HostedBridge) (h : Host) : List String → Host
  | [] => h
  | vm::vms => deleteTaps b (h.ignoring (b.tap vm) Interface.del) vms

def unrealize (s : Site) : Site :=
  let b := s.bridge
  let h := s.host.setTable .bridge (partitionTableFor b.name) none
  let h := if b.uplinkRealized then h.setTable .ip (uplinkTableFor b.name) none else h
  let h := deleteTaps b h b.realizedTaps
  ⟨{ b with
      realizedTaps := [], realized := false, uplinkRealized := false, realizedNetem := none
      realizedDirectional := ∅ },
    if b.realized then h.ignoring b.name Interface.del else h⟩

/-- A call, and whether it succeeds. -/
def apply (s : Site) : HostCall → Site × Bool
  | .record op => ((s.recorded op).refreshAfter op,true)
  | .realizeForVm vm => s.realizeForVm vm
  | .unrealize => (s.unrealize,true)

end Site

end Provium.Lab
