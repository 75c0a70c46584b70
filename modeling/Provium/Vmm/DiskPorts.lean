import Provium.Qmp.Connection

/-! The runtime disk ports of `disk_hotplug.rs`: their names, the inventory that frees them, and `attach`,
over any monitor that executes its commands. -/
namespace Provium.Vmm
open Provium.Qmp

def portCount : ℕ := 8

/-- The loop of `port_names` that lengthens a name until it is new. -/
def freshName (used : List String) : ℕ → String → String
  | 0,name => name
  | fuel+1,name => if name ∈ used then freshName used fuel (name.push '_') else name

/-- The names for the numbers that are left. There are no more turns than names in use. -/
def portNamesFrom (used : List String) : List ℕ → List String
  | [] => []
  | i::is =>
    let name := freshName used used.length ("provium-hotplug-"++toString i)
    name::portNamesFrom (name::used) is

/-- What a launch disk takes of the ids. -/
def idsOfDisk (id : String) : List String := [id,id++"-node",id++"-port"]

def portNames (diskIds : List String) : List String :=
  portNamesFrom (diskIds.flatMap idsOfDisk) (List.range portCount)

inductive VmmError where
  | io (message : String)
  | qmp (e : QmpError)
  /-- An `io` error whose text joins those of the refused device and of the cleaning up. -/
  | cleanupFailed (add : VmmError) (diskId : String) (cleanup : VmmError)
  deriving DecidableEq, Repr

def controlLost : VmmError → Bool
  | .qmp (.timeout _) | .qmp (.io _) | .qmp (.closed _) => true
  | _ => false

/-- A device of the PCI inventory, without a `pci_bridge` or with one. -/
inductive PciDevice where
  | device (qdevId : String)
  | bridge (qdevId : String) (devices : List PciDevice)

mutual

def PciDevice.ids : PciDevice → List String
  | .device id => [id]
  | .bridge id devices => id::collect devices

/-- `collect` of `live_devices`. -/
def collect : List PciDevice → List String
  | [] => []
  | device::devices => device.ids++collect devices

end

/-- The commands that `attach` executes. -/
inductive Command where
  | queryPci
  | blockdevAdd (nodeName : String) (readOnly : Bool) (filename : String)
  | deviceAdd (drive id bus : String)
  | blockdevDel (nodeName : String)
  deriving DecidableEq, Repr

/-- What comes back: nothing of interest, or what `serde_json` makes of an inventory. -/
inductive Reply where
  | empty
  | pci (inventory : Except String (List (List PciDevice)))

def liveDevices : Reply → Except VmmError (List String)
  | .pci (.ok buses) => .ok (buses.flatMap collect)
  | .pci (.error e) => .error (.io ("invalid QMP PCI inventory: "++e))
  | .empty => .error (.io "invalid QMP PCI inventory: invalid type: map, expected a sequence")

/-- A port and the disk that holds it. -/
abbrev Slot := String × Option String

def nodeName (diskId : String) : String := diskId++"-node"

/-- What `vm:attach_disk` asks for. -/
structure Request where
  diskId : String
  image : String
  readonly : Bool

namespace DiskPorts

/-- `DiskPorts::new` -/
def new (names : List String) : List Slot := names.map (·,none)

section Attach
variable {σ : Type} (execute : σ → Command → Except VmmError Reply × σ)

/-- The inventory, as far as it can be had. -/
def inventory (s : σ) : Except VmmError (List String) × σ :=
  match execute s .queryPci with
  | (.ok reply,s) => (liveDevices reply,s)
  | (.error e,s) => (.error e,s)

/-- The loop that frees the ports of disks that are gone. -/
def reclaim (live : List String) : List Slot → σ → Except VmmError Unit × List Slot × σ
  | [],s => (.ok (),[],s)
  | (port,none)::slots,s =>
    let r := reclaim live slots s
    (r.1,(port,none)::r.2.1,r.2.2)
  | (port,some id)::slots,s =>
    if id ∈ live then
      let r := reclaim live slots s
      (r.1,(port,some id)::r.2.1,r.2.2)
    else match execute s (.blockdevDel (nodeName id)) with
      | (.error e,s) => (.error e,(port,some id)::slots,s)
      | (.ok _,s) =>
        let r := reclaim live slots s
        (r.1,(port,none)::r.2.1,r.2.2)

/-- The commands on a free port, and what its slot holds after them. -/
def plugInto (port : String) (request : Request) (s : σ) : Except VmmError Unit × Option String × σ :=
  match execute s (.blockdevAdd (nodeName request.diskId) request.readonly request.image) with
  | (.error e,s) => (.error e,none,s)
  | (.ok _,s) => match execute s (.deviceAdd (nodeName request.diskId) request.diskId port) with
    | (.ok _,s) => (.ok (),some request.diskId,s)
    | (.error add,s) =>
      if controlLost add then (.error add,some request.diskId,s)
      else match execute s (.blockdevDel (nodeName request.diskId)) with
        | (.ok _,s) => (.error add,none,s)
        | (.error cleanup,s) =>
          (.error (if controlLost cleanup then cleanup else .cleanupFailed add request.diskId cleanup),
            some request.diskId,s)

/-- The first free port is used. -/
def plug (request : Request) : List Slot → σ → Except VmmError Unit × List Slot × σ
  | [],s => (.error (.io ("no free runtime disk port (capacity "++toString portCount++
      "); wait for guest removal before attaching another disk")),[],s)
  | (port,none)::slots,s =>
    let r := plugInto execute port request s
    (r.1,(port,r.2.1)::slots,r.2.2)
  | (port,some id)::slots,s =>
    let r := plug request slots s
    (r.1,(port,some id)::r.2.1,r.2.2)

/-- `DiskPorts::attach` -/
def attach (request : Request) (slots : List Slot) (s : σ) : Except VmmError Unit × List Slot × σ :=
  match inventory execute s with
  | (.error e,s) => (.error e,slots,s)
  | (.ok live,s) => match reclaim execute live slots s with
    | (.error e,slots,s) => (.error e,slots,s)
    | (.ok _,slots,s) => plug execute request slots s

variable {execute} {request : Request} {slots mid : List Slot} {s s₁ s₂ : σ} {live : List String} {e : VmmError}

theorem attach_unread (hi : inventory execute s = (.error e,s₁)) :
    attach execute request slots s = (.error e,slots,s₁) := by
  unfold attach
  rw [hi]

theorem attach_stopped (hi : inventory execute s = (.ok live,s₁))
    (hr : reclaim execute live slots s₁ = (.error e,mid,s₂)) :
    attach execute request slots s = (.error e,mid,s₂) := by
  unfold attach
  rw [hi]
  simp only [hr]

theorem attach_plug {u : Unit} (hi : inventory execute s = (.ok live,s₁))
    (hr : reclaim execute live slots s₁ = (.ok u,mid,s₂)) :
    attach execute request slots s = plug execute request mid s₂ := by
  unfold attach
  rw [hi]
  simp only [hr]

end Attach

end DiskPorts

/-! ## Names of ports -/

/-- A name that is lengthened as often as there are names of at least its length is new. -/
theorem freshName_notMem (used : List String) (fuel : ℕ) (name : String)
    (h : (used.filter fun u => name.length ≤ u.length).length ≤ fuel) : freshName used fuel name ∉ used := by
  induction fuel generalizing name with
  | zero =>
    intro hin
    change name ∈ used at hin
    have hmem : name ∈ used.filter fun u => name.length ≤ u.length := by simpa using hin
    exact absurd (List.length_pos_of_mem hmem) (by omega)
  | succ fuel ih =>
    unfold freshName
    split
    · next hin =>
      refine ih _ (Nat.le_of_lt_succ (lt_of_lt_of_le ?_ h))
      -- the name itself is too short to count any more
      have hsub : List.Sublist (used.filter fun u => (name.push '_').length ≤ u.length)
          (used.filter fun u => name.length ≤ u.length) :=
        List.monotone_filter_right used fun u hu => by
          rw [decide_eq_true_eq,String.length_push] at hu
          exact decide_eq_true (by omega)
      refine lt_of_le_of_ne hsub.length_le fun heq => ?_
      have hmem : name ∈ used.filter fun u => (name.push '_').length ≤ u.length := by
        rw [hsub.eq_of_length heq]
        simpa using hin
      have hlen := (List.mem_filter.mp hmem).2
      rw [decide_eq_true_eq,String.length_push] at hlen
      omega
    · next hout => exact hout

theorem portNamesFrom_spec (is : List ℕ) (used : List String) :
    (portNamesFrom used is).Nodup ∧ (portNamesFrom used is).Disjoint used := by
  induction is generalizing used with
  | nil => exact ⟨List.nodup_nil,List.disjoint_nil_left _⟩
  | cons i is ih =>
    obtain ⟨hnodup,hdisjoint⟩ := ih (freshName used used.length ("provium-hotplug-"++toString i)::used)
    rw [List.disjoint_cons_right] at hdisjoint
    have hnew := freshName_notMem used used.length ("provium-hotplug-"++toString i) (List.length_filter_le _ _)
    exact ⟨List.nodup_cons.mpr ⟨hdisjoint.1,hnodup⟩,List.disjoint_cons_left.mpr ⟨hnew,hdisjoint.2⟩⟩

/-- The ports have names of their own, which no launch disk's device or node has. -/
theorem portNames_nodup (diskIds : List String) : (portNames diskIds).Nodup := (portNamesFrom_spec _ _).1

theorem portNames_disjoint (diskIds : List String) :
    (portNames diskIds).Disjoint (diskIds.flatMap idsOfDisk) := (portNamesFrom_spec _ _).2

end Provium.Vmm
