import Provium.Vmm.DiskPorts

/-! Who owns the runtime disk ports: `attach` against a monitor each of whose commands succeeds or fails
without effect, while the guest lets go of devices whenever it likes. -/
namespace Provium.Vmm

/-- What befalls a command: the devices that are gone by then, and a failure if it is to fail. -/
structure Fate where
  removed : List String
  refusal : Option VmmError

/-- QEMU, as far as `attach` sees it. `launch` are the nodes that were there before, `added` those that
`attach` has added and not deleted; a device is its id and its port. -/
structure Monitor where
  ports : List String
  others : List String
  launch : List String
  added : List String
  devices : List (String × String)
  calls : List (Command × Bool)
  fates : List Fate

namespace Monitor

/-- The guest lets go of devices; a launch disk's node goes with its device. -/
def leave (m : Monitor) (removed : List String) : Monitor :=
  { m with
    others := m.others.filter (· ∉ removed)
    launch := m.launch.filter (· ∉ removed.map nodeName)
    devices := m.devices.filter (·.1 ∉ removed) }

/-- The root bus: what sits on it, and the ports with what sits behind them. -/
def rootBus (m : Monitor) : List PciDevice :=
  m.others.map .device++m.ports.map fun port =>
    .bridge port ((m.devices.filter (·.2 = port)).map fun d => .device d.1)

/-- A command that is not made to fail. -/
def effect (m : Monitor) : Command → Except VmmError (Reply × Monitor)
  | .queryPci => .ok (.pci (.ok [m.rootBus]),m)
  | .blockdevAdd node _ _ =>
    if node ∈ m.launch++m.added then .error (.qmp (.command "blockdev-add" "GenericError" "Duplicate nodes"))
    else .ok (.empty,{ m with added := node::m.added })
  | .deviceAdd _ id bus =>
    if bus ∈ m.ports then .ok (.empty,{ m with devices := (id,bus)::m.devices })
    else .error (.qmp (.command "device_add" "GenericError" "Bus not found"))
  | .blockdevDel node =>
    if node ∈ m.launch++m.added then .ok (.empty,{ m with
      launch := m.launch.filter (· ≠ node), added := m.added.filter (· ≠ node) })
    else .error (.qmp (.command "blockdev-del" "GenericError" "Failed to find node"))

def note (m : Monitor) (c : Command) (succeeded : Bool) : Monitor :=
  { m with calls := (c,succeeded)::m.calls }

def execute (m : Monitor) (c : Command) : Except VmmError Reply × Monitor :=
  let fate := m.fates.headD ⟨[],none⟩
  let m := { m.leave fate.removed with fates := m.fates.tail }
  match fate.refusal with
  | some e => (.error e,m.note c false)
  | none => match m.effect c with
    | .error e => (.error e,m.note c false)
    | .ok (reply,m) => (.ok reply,m.note c true)

/-- Nothing has been attached yet. -/
structure Unused (m : Monitor) (names : List String) : Prop where
  ports : ∀ port ∈ names, port ∈ m.ports
  added : m.added = []
  devices : m.devices = []

end Monitor

namespace DiskPorts

/-- What holds of slots and monitor between calls: a slot holds an id exactly if `attach` has added the node
and not deleted it, no two hold the same, and every device is the one of its port. -/
structure Owned (slots : List Slot) (m : Monitor) : Prop where
  holds : ∀ id, (∃ port, (port,some id) ∈ slots) ↔ nodeName id ∈ m.added
  nodes : ∀ node ∈ m.added, ∃ id, node = nodeName id
  nodup : (slots.filterMap Prod.snd).Nodup
  names : (slots.map Prod.fst).Nodup
  ports : ∀ slot ∈ slots, slot.1 ∈ m.ports
  devices : ∀ d ∈ m.devices, (d.2,some d.1) ∈ slots
  single : (m.devices.map Prod.snd).Nodup

/-- What the loop may make of a slot: free it, if the inventory does not list its disk and the node is gone. -/
inductive Reclaims (live added : List String) : Slot → Slot → Prop
  | kept (slot : Slot) : Reclaims live added slot slot
  | freed (port id : String) (hlive : id ∉ live) (hnode : nodeName id ∉ added) :
    Reclaims live added (port,some id) (port,none)

/-- One free port is taken. -/
def Took (diskId : String) (slots slots' : List Slot) : Prop :=
  ∃ before port after, slots = before++(port,none)::after ∧ slots' = before++(port,some diskId)::after

/-- The commands of a call: what it left in the monitor's record. -/
def CalledIn (m m' : Monitor) (c : Command) (succeeded : Bool) : Prop :=
  ∃ made, m'.calls = made++m.calls ∧ (c,succeeded) ∈ made

/-- What one `attach` may do to the slots. -/
structure Lawful (slots : List Slot) (m : Monitor) (request : Request) : Prop where
  /-- Without an inventory nothing changes. -/
  unread : ∀ e, (inventory Monitor.execute m).1 = .error e →
    (attach Monitor.execute request slots m).1 = .error e ∧ (attach Monitor.execute request slots m).2.1 = slots
  /-- A slot is freed only if its disk is not listed and its node has been deleted. -/
  freed : ∀ live, (inventory Monitor.execute m).1 = .ok live →
    List.Forall₂ (Reclaims live
      (reclaim Monitor.execute live slots (inventory Monitor.execute m).2).2.2.added)
      slots (reclaim Monitor.execute live slots (inventory Monitor.execute m).2).2.1
  plugged : ∀ live, (inventory Monitor.execute m).1 = .ok live →
    (attach Monitor.execute request slots m).1 = .ok () →
    Took request.diskId (reclaim Monitor.execute live slots (inventory Monitor.execute m).2).2.1
      (attach Monitor.execute request slots m).2.1
  /-- After an error the slots are as found, apart from the freed ones and from one that is kept because its
  node could not be deleted or the monitor was lost. -/
  failed : ∀ live e, (inventory Monitor.execute m).1 = .ok live →
    (attach Monitor.execute request slots m).1 = .error e →
    (attach Monitor.execute request slots m).2.1 =
      (reclaim Monitor.execute live slots (inventory Monitor.execute m).2).2.1 ∨
    Took request.diskId (reclaim Monitor.execute live slots (inventory Monitor.execute m).2).2.1
      (attach Monitor.execute request slots m).2.1 ∧
      (CalledIn m (attach Monitor.execute request slots m).2.2 (.blockdevDel (nodeName request.diskId)) false ∨
        controlLost e = true ∧ ∃ port, CalledIn m (attach Monitor.execute request slots m).2.2
          (.deviceAdd (nodeName request.diskId) request.diskId port) false)

/-- A sequence of calls. -/
def attachAll (s : List Slot × Monitor) : List Request → List Slot × Monitor
  | [] => s
  | request::requests => attachAll (attach Monitor.execute request s.1 s.2).2 requests

end DiskPorts

/-! ## The monitor -/

namespace Monitor
variable {m m' : Monitor}

/-- Nothing but devices may be gone, and the record may be longer. -/
structure Still (m m' : Monitor) : Prop where
  added : m'.added = m.added
  ports : m'.ports = m.ports
  devices : List.Sublist m'.devices m.devices
  calls : m.calls <:+ m'.calls

/-- A command fails without effect, or it has its effect after the devices have left that were to leave. -/
theorem execute_cases (m : Monitor) (c : Command) : ∃ m₁, m.Still m₁ ∧ m₁.calls = m.calls ∧
    ((∃ e, m.execute c = (.error e,m₁.note c false)) ∨
      ∃ reply m₂, m₁.effect c = .ok (reply,m₂) ∧ m.execute c = (.ok reply,m₂.note c true)) := by
  refine ⟨{ m.leave (m.fates.headD ⟨[],none⟩).removed with fates := m.fates.tail },
    ⟨rfl,rfl,List.filter_sublist,List.suffix_refl _⟩,rfl,?_⟩
  unfold execute
  simp only
  split
  · exact .inl ⟨_,rfl⟩
  · split
    · exact .inl ⟨_,rfl⟩
    · next reply m₂ heq => exact .inr ⟨reply,m₂,heq,rfl⟩

theorem Still.note (h : m.Still m') (c : Command) (succeeded : Bool) : m.Still (m'.note c succeeded) :=
  ⟨h.added,h.ports,h.devices,h.calls.trans (List.suffix_cons _ _)⟩

theorem effect_blockdevDel {node : String} {reply : Reply} (h : m.effect (.blockdevDel node) = .ok (reply,m')) :
    m'.added = m.added.filter (· ≠ node) ∧ m'.ports = m.ports ∧ m'.devices = m.devices ∧ m'.calls = m.calls := by
  simp only [effect] at h
  split at h
  · cases h
    exact ⟨rfl,rfl,rfl,rfl⟩
  · cases h

theorem effect_blockdevAdd {node file : String} {readonly : Bool} {reply : Reply}
    (h : m.effect (.blockdevAdd node readonly file) = .ok (reply,m')) :
    node ∉ m.added ∧ m'.added = node::m.added ∧ m'.ports = m.ports ∧ m'.devices = m.devices ∧
      m'.calls = m.calls := by
  simp only [effect] at h
  split at h
  · cases h
  · next hnot =>
    cases h
    exact ⟨fun hin => hnot (List.mem_append_right _ hin),rfl,rfl,rfl,rfl⟩

theorem effect_deviceAdd {drive id bus : String} {reply : Reply}
    (h : m.effect (.deviceAdd drive id bus) = .ok (reply,m')) :
    m'.added = m.added ∧ m'.ports = m.ports ∧ m'.devices = (id,bus)::m.devices ∧ m'.calls = m.calls := by
  simp only [effect] at h
  split at h
  · cases h
    exact ⟨rfl,rfl,rfl,rfl⟩
  · cases h

theorem mem_collect {device : PciDevice} {devices : List PciDevice} (h : device ∈ devices) {id : String}
    (hid : id ∈ device.ids) : id ∈ collect devices := by
  induction devices with
  | nil => cases h
  | cons first rest ih =>
    rw [collect,List.mem_append]
    obtain rfl | h := List.mem_cons.mp h
    · exact .inl hid
    · exact .inr (ih h)

/-- Every device behind a port is listed. -/
theorem mem_rootBus {d : String × String} (hd : d ∈ m.devices) (hport : d.2 ∈ m.ports) :
    d.1 ∈ collect m.rootBus := by
  have hbridge : .bridge d.2 ((m.devices.filter (·.2 = d.2)).map fun d => .device d.1) ∈ m.rootBus :=
    List.mem_append_right _ (List.mem_map_of_mem hport)
  refine mem_collect hbridge ?_
  · rw [PciDevice.ids]
    have hdevice : .device d.1 ∈ (m.devices.filter (·.2 = d.2)).map fun d => PciDevice.device d.1 :=
      List.mem_map.mpr ⟨d,by simpa using hd,rfl⟩
    refine List.mem_cons_of_mem _ (mem_collect hdevice ?_)
    · rw [PciDevice.ids]
      exact List.mem_singleton_self _

end Monitor

namespace DiskPorts
open Monitor
variable {m m' : Monitor} {slots : List Slot} {live : List String} {request : Request}

theorem nodeName_inj {a b : String} : nodeName a = nodeName b ↔ a = b := String.append_left_inj _

theorem Owned.still (h : Owned slots m) (hs : m.Still m') : Owned slots m' where
  holds := fun id => by rw [hs.added]; exact h.holds id
  nodes := fun node hn => h.nodes node (by rwa [← hs.added])
  nodup := h.nodup
  names := h.names
  ports := fun slot hslot => by rw [hs.ports]; exact h.ports slot hslot
  devices := fun d hd => h.devices d (hs.devices.subset hd)
  single := h.single.sublist (hs.devices.map _)

/-- The inventory lists every device that is there when it is made. -/
theorem inventory_cases (m : Monitor) (hports : ∀ d ∈ m.devices, d.2 ∈ m.ports) :
    m.Still (inventory Monitor.execute m).2 ∧
      ∀ live, (inventory Monitor.execute m).1 = .ok live →
        ∀ d ∈ (inventory Monitor.execute m).2.devices, d.1 ∈ live := by
  obtain ⟨m₁,hstill,-,⟨e,he⟩ | ⟨reply,m₂,heff,hok⟩⟩ := execute_cases m .queryPci
  · unfold inventory
    rw [he]
    refine ⟨hstill.note _ _,fun live hlive => ?_⟩
    cases hlive
  · unfold inventory
    rw [hok]
    cases heff
    refine ⟨hstill.note _ _,fun live hlive d hd => ?_⟩
    have hlive : (.ok ([m₁.rootBus].flatMap collect) : Except VmmError (List String)) = .ok live := hlive
    rw [← Except.ok.inj hlive,List.flatMap_singleton]
    refine mem_rootBus hd ?_
    rw [hstill.ports]
    exact hports d (hstill.devices.subset hd)

/-! ## Slots and nodes -/

/-- A disk holds one slot. -/
theorem Owned.elsewhere {before after : List Slot} {port id : String} (h : Owned (before++(port,some id)::after) m)
    (port' : String) : (port',some id) ∉ before ∧ (port',some id) ∉ after := by
  have hnodup := h.nodup
  simp only [List.filterMap_append,List.filterMap_cons] at hnodup
  rw [List.nodup_middle,List.nodup_cons,List.mem_append,not_or] at hnodup
  exact ⟨fun hin => hnodup.1.1 (List.mem_filterMap.mpr ⟨_,hin,rfl⟩),
    fun hin => hnodup.1.2 (List.mem_filterMap.mpr ⟨_,hin,rfl⟩)⟩

/-- A slot whose disk is gone is freed once its node has been deleted. -/
theorem Owned.free {before after : List Slot} {port id : String} (h : Owned (before++(port,some id)::after) m)
    (hadded : m'.added = m.added.filter (· ≠ nodeName id)) (hports : m'.ports = m.ports)
    (hdevices : List.Sublist m'.devices m.devices) (hgone : ∀ d ∈ m'.devices, d.1 ≠ id) :
    Owned (before++(port,none)::after) m' := by
  have hnodup := h.nodup
  simp only [List.filterMap_append,List.filterMap_cons] at hnodup
  have hother := h.elsewhere
  have hmem : ∀ port' id', (port',some id') ∈ before++(port,none)::after ↔
      (port',some id') ∈ before++(port,some id)::after ∧ id' ≠ id := by
    intro port' id'
    simp only [List.mem_append,List.mem_cons,Prod.mk.injEq,Option.some.injEq]
    constructor
    · rintro (hin | ⟨-,hno⟩ | hin)
      · refine ⟨.inl hin,?_⟩
        rintro rfl
        exact (hother port').1 hin
      · cases hno
      · refine ⟨.inr (.inr hin),?_⟩
        rintro rfl
        exact (hother port').2 hin
    · rintro ⟨hin | ⟨-,rfl⟩ | hin,hne⟩
      · exact .inl hin
      · exact absurd rfl hne
      · exact .inr (.inr hin)
  refine ⟨fun id' => ?_,fun node hn => ?_,?_,?_,fun slot hslot => ?_,fun d hd => ?_,?_⟩
  · simp only [hmem,exists_and_right,h.holds,hadded,List.mem_filter,decide_eq_true_eq,ne_eq,nodeName_inj]
  · rw [hadded] at hn
    exact h.nodes node (List.mem_of_mem_filter hn)
  · simp only [List.filterMap_append,List.filterMap_cons]
    exact hnodup.sublist ((List.sublist_cons_self _ _).append_left _)
  · simpa using h.names
  · rw [hports]
    simp only [List.mem_append,List.mem_cons] at hslot
    obtain hin | rfl | hin := hslot
    · exact h.ports slot (by simp [hin])
    · exact h.ports (port,some id) (by simp)
    · exact h.ports slot (by simp [hin])
  · exact (hmem _ _).mpr ⟨h.devices d (hdevices.subset hd),hgone d hd⟩
  · exact h.single.sublist (hdevices.map _)

/-- A slot is taken once the node has been added. -/
theorem Owned.take {before after : List Slot} {port id : String} (h : Owned (before++(port,none)::after) m)
    (hnew : nodeName id ∉ m.added) (hadded : m'.added = nodeName id::m.added) (hports : m'.ports = m.ports)
    (hdevices : List.Sublist m'.devices m.devices) : Owned (before++(port,some id)::after) m' := by
  have hmem : ∀ slot, slot ∈ before++(port,some id)::after ↔
      slot = (port,some id) ∨ slot ∈ before ∨ slot ∈ after := by
    intro slot
    simp only [List.mem_append,List.mem_cons]
    tauto
  have hfree : ∀ port' id', (port',some id') ∈ before++(port,none)::after ↔
      (port',some id') ∈ before ∨ (port',some id') ∈ after := by
    intro port' id'
    simp
  have hnot : ∀ port', (port',some id) ∉ before ∧ (port',some id) ∉ after := by
    intro port'
    rw [← not_or,← hfree]
    exact fun hin => hnew ((h.holds id).mp ⟨port',hin⟩)
  refine ⟨fun id' => ?_,fun node hn => ?_,?_,?_,fun slot hslot => ?_,fun d hd => ?_,?_⟩
  · rw [hadded,List.mem_cons,nodeName_inj,← h.holds id']
    simp only [hmem,hfree,Prod.mk.injEq,Option.some.injEq]
    constructor
    · rintro ⟨port',⟨-,rfl⟩ | hin⟩
      · exact .inl rfl
      · exact .inr ⟨port',hin⟩
    · rintro (rfl | ⟨port',hin⟩)
      · exact ⟨port,.inl ⟨rfl,rfl⟩⟩
      · exact ⟨port',.inr hin⟩
  · rw [hadded] at hn
    obtain rfl | hn := List.mem_cons.mp hn
    · exact ⟨id,rfl⟩
    · exact h.nodes node hn
  · have hnodup := h.nodup
    simp only [List.filterMap_append,List.filterMap_cons] at hnodup ⊢
    rw [List.nodup_middle,List.nodup_cons]
    refine ⟨fun hin => ?_,hnodup⟩
    rw [List.mem_append,List.mem_filterMap,List.mem_filterMap] at hin
    obtain ⟨⟨port',_⟩,hin,rfl⟩ | ⟨⟨port',_⟩,hin,rfl⟩ := hin
    · exact (hnot port').1 hin
    · exact (hnot port').2 hin
  · simpa using h.names
  · rw [hports]
    obtain rfl | hin | hin := (hmem slot).mp hslot
    · exact h.ports (port,none) (by simp)
    · exact h.ports slot (by simp [hin])
    · exact h.ports slot (by simp [hin])
  · exact (hmem _).mpr (.inr ((hfree _ _).mp (h.devices d (hdevices.subset hd))))
  · exact h.single.sublist (hdevices.map _)

/-- Nothing sits behind a free port. -/
theorem Owned.empty {before after : List Slot} {port : String} (h : Owned (before++(port,none)::after) m) :
    ∀ d ∈ m.devices, d.2 ≠ port := by
  rintro d hd rfl
  have hin := h.devices d hd
  have hnames := h.names
  rw [List.map_append,List.map_cons,List.nodup_middle,List.nodup_cons,List.mem_append,not_or] at hnames
  simp only [List.mem_append,List.mem_cons,Prod.mk.injEq] at hin
  obtain hin | ⟨-,hno⟩ | hin := hin
  · exact hnames.1.1 (List.mem_map.mpr ⟨_,hin,rfl⟩)
  · cases hno
  · exact hnames.1.2 (List.mem_map.mpr ⟨_,hin,rfl⟩)

/-- A device is added behind a port that has none. -/
theorem Owned.device {before after : List Slot} {port id : String}
    (h : Owned (before++(port,some id)::after) m) (hfree : ∀ d ∈ m'.devices.tail, d.2 ≠ port)
    (hadded : m'.added = m.added) (hports : m'.ports = m.ports)
    (hdevices : ∃ devices, List.Sublist devices m.devices ∧ m'.devices = (id,port)::devices) :
    Owned (before++(port,some id)::after) m' := by
  obtain ⟨devices,hsub,hdevices⟩ := hdevices
  rw [hdevices,List.tail_cons] at hfree
  refine ⟨fun id' => by rw [hadded]; exact h.holds id',fun node hn => h.nodes node (by rwa [← hadded]),
    h.nodup,h.names,fun slot hslot => by rw [hports]; exact h.ports slot hslot,fun d hd => ?_,?_⟩
  · rw [hdevices] at hd
    obtain rfl | hd := List.mem_cons.mp hd
    · simp
    · exact h.devices d (hsub.subset hd)
  · rw [hdevices,List.map_cons,List.nodup_cons]
    refine ⟨fun hin => ?_,h.single.sublist (hsub.map _)⟩
    obtain ⟨d,hd,heq⟩ := List.mem_map.mp hin
    exact hfree d hd heq

/-! ## The two halves of `attach` -/

/-- The loop frees only slots of disks that are not listed, with their nodes, and stops at the first node
that it cannot delete. -/
theorem Owned.reclaim (live : List String) (slots before : List Slot) (h : Owned (before++slots) m)
    (hlive : ∀ d ∈ m.devices, d.1 ∈ live) :
    Owned (before++(DiskPorts.reclaim Monitor.execute live slots m).2.1)
        (DiskPorts.reclaim Monitor.execute live slots m).2.2 ∧
      (∀ node ∈ (DiskPorts.reclaim Monitor.execute live slots m).2.2.added, node ∈ m.added) ∧
      m.calls <:+ (DiskPorts.reclaim Monitor.execute live slots m).2.2.calls ∧
      List.Forall₂ (Reclaims live (DiskPorts.reclaim Monitor.execute live slots m).2.2.added) slots
        (DiskPorts.reclaim Monitor.execute live slots m).2.1 := by
  induction slots generalizing before m with
  | nil => exact ⟨h,fun _ hn => hn,List.suffix_refl _,.nil⟩
  | cons slot slots ih =>
    have hassoc : ∀ (slot : Slot) (rest : List Slot), before++slot::rest = before++[slot]++rest := by simp
    obtain ⟨port,_ | id⟩ := slot
    · -- a free slot
      rw [hassoc] at h
      obtain ⟨howned,hshrinks,hcalls,hslots⟩ := ih (before++[(port,none)]) h hlive
      rw [← hassoc] at howned
      exact ⟨howned,hshrinks,hcalls,.cons (.kept _) hslots⟩
    · unfold DiskPorts.reclaim
      by_cases hin : id ∈ live
      · rw [if_pos hin]
        rw [hassoc] at h
        obtain ⟨howned,hshrinks,hcalls,hslots⟩ := ih (before++[(port,some id)]) h hlive
        rw [← hassoc] at howned
        exact ⟨howned,hshrinks,hcalls,.cons (.kept _) hslots⟩
      · rw [if_neg hin]
        obtain ⟨m₁,hstill,-,⟨e,he⟩ | ⟨reply,m₂,heff,hok⟩⟩ := execute_cases m (.blockdevDel (nodeName id))
        · -- the node stays, and so do this slot and those after it
          rw [he]
          have hnote := hstill.note (.blockdevDel (nodeName id)) false
          refine ⟨h.still hnote,fun node hn => ?_,hnote.calls,List.forall₂_same.mpr fun slot _ => .kept slot⟩
          rwa [← hnote.added]
        · rw [hok]
          obtain ⟨hadded,hports,hdevices,hcalls⟩ := effect_blockdevDel heff
          have hgone : ∀ d ∈ (m₂.note (.blockdevDel (nodeName id)) true).devices, d.1 ∈ live := fun d hd =>
            hlive d (hstill.devices.subset (by rwa [← hdevices]))
          have hnodes : (m₂.note (.blockdevDel (nodeName id)) true).added =
              m.added.filter (· ≠ nodeName id) := by
            rw [← hstill.added]
            exact hadded
          have hfreed : Owned (before++(port,none)::slots) (m₂.note (.blockdevDel (nodeName id)) true) := by
            refine h.free hnodes (hports.trans hstill.ports) ?_ fun d hd heq => hin (heq ▸ hgone d hd)
            change List.Sublist m₂.devices m.devices
            rw [hdevices]
            exact hstill.devices
          rw [hassoc] at hfreed
          obtain ⟨howned,hshrinks,hcalls',hslots⟩ := ih (before++[(port,none)]) hfreed hgone
          rw [← hassoc] at howned
          have hextends : m.calls <:+ (m₂.note (.blockdevDel (nodeName id)) true).calls := by
            change m.calls <:+ _::m₂.calls
            rw [hcalls]
            exact hstill.calls.trans (List.suffix_cons _ _)
          refine ⟨howned,fun node hn => ?_,hextends.trans hcalls',.cons (.freed port id hin fun hn => ?_) hslots⟩
          · have hkept := hshrinks node hn
            rw [hnodes] at hkept
            exact List.mem_of_mem_filter hkept
          · have hkept := hshrinks _ hn
            rw [hnodes] at hkept
            simp at hkept

/-- A command that was made in a later part of a call was made in the call. -/
theorem CalledIn.of_suffix {m₀ : Monitor} {c : Command} {b : Bool} (h : CalledIn m m' c b)
    (hs : m₀.calls <:+ m.calls) : CalledIn m₀ m' c b := by
  obtain ⟨made,heq,hin⟩ := h
  obtain ⟨first,hfirst⟩ := hs
  exact ⟨made++first,by rw [heq,← hfirst,List.append_assoc],List.mem_append_left _ hin⟩

/-- What may come of the commands on a free port: the disk is in, nothing has changed, or the node is left
over and the slot with it. -/
theorem Owned.plugInto {before after : List Slot} {port : String} (request : Request)
    (h : Owned (before++(port,none)::after) m) :
    Owned (before++(port,(DiskPorts.plugInto Monitor.execute port request m).2.1)::after)
        (DiskPorts.plugInto Monitor.execute port request m).2.2 ∧
      (((DiskPorts.plugInto Monitor.execute port request m).1 = .ok () ∧
          (DiskPorts.plugInto Monitor.execute port request m).2.1 = some request.diskId) ∨
        ∃ e, (DiskPorts.plugInto Monitor.execute port request m).1 = .error e ∧
          ((DiskPorts.plugInto Monitor.execute port request m).2.1 = none ∨
            (DiskPorts.plugInto Monitor.execute port request m).2.1 = some request.diskId ∧
              (CalledIn m (DiskPorts.plugInto Monitor.execute port request m).2.2
                  (.blockdevDel (nodeName request.diskId)) false ∨
                controlLost e = true ∧ CalledIn m (DiskPorts.plugInto Monitor.execute port request m).2.2
                  (.deviceAdd (nodeName request.diskId) request.diskId port) false))) := by
  unfold DiskPorts.plugInto
  obtain ⟨m₁,hstill₁,hcalls₁,⟨e,he⟩ | ⟨reply,m₂,heff₂,hok₂⟩⟩ :=
    execute_cases m (.blockdevAdd (nodeName request.diskId) request.readonly request.image)
  · rw [he]
    exact ⟨h.still (hstill₁.note _ _),.inr ⟨e,rfl,.inl rfl⟩⟩
  · rw [hok₂]
    obtain ⟨hnew,hadded₂,hports₂,hdevices₂,hcalls₂⟩ := effect_blockdevAdd heff₂
    -- the slot is taken before the device is added
    have htaken : Owned (before++(port,some request.diskId)::after)
        (m₂.note (.blockdevAdd (nodeName request.diskId) request.readonly request.image) true) := by
      refine h.take (by rwa [hstill₁.added] at hnew) ?_ (hports₂.trans hstill₁.ports) ?_
      · rw [← hstill₁.added]
        exact hadded₂
      · change List.Sublist m₂.devices m.devices
        rw [hdevices₂]
        exact hstill₁.devices
    have hempty : ∀ d ∈ m₂.devices, d.2 ≠ port := fun d hd => by
      rw [hdevices₂] at hd
      exact h.empty d (hstill₁.devices.subset hd)
    have hsuffix₂ : m.calls <:+
        (m₂.note (.blockdevAdd (nodeName request.diskId) request.readonly request.image) true).calls := by
      change m.calls <:+ _::m₂.calls
      rw [hcalls₂,hcalls₁]
      exact List.suffix_cons _ _
    obtain ⟨m₃,hstill₃,hcalls₃,⟨add,hadd⟩ | ⟨reply,m₄,heff₄,hok₄⟩⟩ := execute_cases
      (m₂.note (.blockdevAdd (nodeName request.diskId) request.readonly request.image) true)
      (.deviceAdd (nodeName request.diskId) request.diskId port)
    · simp only [hadd]
      have hrefused := htaken.still
        (hstill₃.note (.deviceAdd (nodeName request.diskId) request.diskId port) false)
      have hmade : CalledIn m (m₃.note (.deviceAdd (nodeName request.diskId) request.diskId port) false)
          (.deviceAdd (nodeName request.diskId) request.diskId port) false := by
        refine CalledIn.of_suffix ⟨[_],?_,List.mem_singleton_self _⟩ hsuffix₂
        change _::m₃.calls = _
        rw [hcalls₃]
        rfl
      split
      · next hlost => exact ⟨hrefused,.inr ⟨add,rfl,.inr ⟨rfl,.inr ⟨hlost,hmade⟩⟩⟩⟩
      · obtain ⟨m₅,hstill₅,hcalls₅,⟨cleanup,hcleanup⟩ | ⟨reply,m₆,heff₆,hok₆⟩⟩ := execute_cases
          (m₃.note (.deviceAdd (nodeName request.diskId) request.diskId port) false)
          (.blockdevDel (nodeName request.diskId))
        · simp only [hcleanup]
          refine ⟨hrefused.still (hstill₅.note _ _),.inr ⟨_,rfl,.inr ⟨trivial,.inl ?_⟩⟩⟩
          obtain ⟨made,hmade,-⟩ := hmade
          refine CalledIn.of_suffix (m := m₃.note (.deviceAdd (nodeName request.diskId) request.diskId port) false)
            ⟨[_],?_,List.mem_singleton_self _⟩ ⟨made,hmade.symm⟩
          change _::m₅.calls = _
          rw [hcalls₅]
          rfl
        · simp only [hok₆]
          obtain ⟨hadded₆,hports₆,hdevices₆,-⟩ := effect_blockdevDel heff₆
          refine ⟨hrefused.free ?_ (hports₆.trans hstill₅.ports) ?_ fun d hd heq => ?_,.inr ⟨add,rfl,.inl trivial⟩⟩
          · rw [← hstill₅.added]
            exact hadded₆
          · change List.Sublist m₆.devices _
            rw [hdevices₆]
            exact hstill₅.devices
          · -- a device of this id would sit behind the port
            change d ∈ m₆.devices at hd
            rw [hdevices₆] at hd
            have hbefore : d ∈ m₃.devices := hstill₅.devices.subset hd
            have hslot := hrefused.devices d hbefore
            have hport : d.2 = port := by
              rw [heq] at hslot
              simp only [List.mem_append,List.mem_cons,Prod.mk.injEq] at hslot
              obtain hslot | ⟨hport,-⟩ | hslot := hslot
              · exact absurd hslot (hrefused.elsewhere d.2).1
              · exact hport
              · exact absurd hslot (hrefused.elsewhere d.2).2
            exact hempty d (hstill₃.devices.subset hbefore) hport
    · simp only [hok₄]
      obtain ⟨hadded₄,hports₄,hdevices₄,-⟩ := effect_deviceAdd heff₄
      refine ⟨htaken.device (fun d hd => ?_) (hadded₄.trans hstill₃.added) (hports₄.trans hstill₃.ports)
        ⟨m₃.devices,hstill₃.devices,hdevices₄⟩,.inl ⟨trivial,trivial⟩⟩
      change d ∈ m₄.devices.tail at hd
      rw [hdevices₄,List.tail_cons] at hd
      exact hempty d (hstill₃.devices.subset hd)

theorem Took.cons {diskId : String} {slots slots' : List Slot} (h : Took diskId slots slots') (slot : Slot) :
    Took diskId (slot::slots) (slot::slots') := by
  obtain ⟨before,port,after,rfl,rfl⟩ := h
  exact ⟨slot::before,port,after,rfl,rfl⟩

theorem Owned.plug (request : Request) (slots before : List Slot) (h : Owned (before++slots) m) :
    Owned (before++(DiskPorts.plug Monitor.execute request slots m).2.1)
        (DiskPorts.plug Monitor.execute request slots m).2.2 ∧
      (((DiskPorts.plug Monitor.execute request slots m).1 = .ok () ∧
          Took request.diskId slots (DiskPorts.plug Monitor.execute request slots m).2.1) ∨
        ∃ e, (DiskPorts.plug Monitor.execute request slots m).1 = .error e ∧
          ((DiskPorts.plug Monitor.execute request slots m).2.1 = slots ∨
            Took request.diskId slots (DiskPorts.plug Monitor.execute request slots m).2.1 ∧
              (CalledIn m (DiskPorts.plug Monitor.execute request slots m).2.2
                  (.blockdevDel (nodeName request.diskId)) false ∨
                controlLost e = true ∧ ∃ port, CalledIn m (DiskPorts.plug Monitor.execute request slots m).2.2
                  (.deviceAdd (nodeName request.diskId) request.diskId port) false))) := by
  induction slots generalizing before with
  | nil => exact ⟨h,.inr ⟨_,rfl,.inl rfl⟩⟩
  | cons slot slots ih =>
    obtain ⟨port,_ | id⟩ := slot
    · obtain ⟨howned,hways⟩ := h.plugInto request
      refine ⟨howned,?_⟩
      have htook : (DiskPorts.plugInto Monitor.execute port request m).2.1 = some request.diskId →
          Took request.diskId ((port,none)::slots)
            (DiskPorts.plug Monitor.execute request ((port,none)::slots) m).2.1 := fun htaken =>
        ⟨[],port,slots,rfl,by simp [DiskPorts.plug,htaken]⟩
      obtain ⟨hok,htaken⟩ | ⟨e,he,hnone | ⟨htaken,hwhy⟩⟩ := hways
      · exact .inl ⟨hok,htook htaken⟩
      · refine .inr ⟨e,he,.inl ?_⟩
        simp [DiskPorts.plug,hnone]
      · refine .inr ⟨e,he,.inr ⟨htook htaken,?_⟩⟩
        obtain hdel | ⟨hlost,hadd⟩ := hwhy
        · exact .inl hdel
        · exact .inr ⟨hlost,port,hadd⟩
    · have hassoc : ∀ rest : List Slot, before++(port,some id)::rest = before++[(port,some id)]++rest := by simp
      rw [hassoc] at h
      obtain ⟨howned,hways⟩ := ih (before++[(port,some id)]) h
      rw [← hassoc] at howned
      refine ⟨howned,?_⟩
      obtain ⟨hok,htook⟩ | ⟨e,he,hsame | ⟨htook,hwhy⟩⟩ := hways
      · exact .inl ⟨hok,htook.cons _⟩
      · exact .inr ⟨e,he,.inl (congrArg _ hsame)⟩
      · exact .inr ⟨e,he,.inr ⟨htook.cons _,hwhy⟩⟩

/-! ## Calls -/

theorem Owned.devices_ports (h : Owned slots m) : ∀ d ∈ m.devices, d.2 ∈ m.ports := fun d hd =>
  h.ports _ (h.devices d hd)

/-- One `attach`: the slots stay owned, and it does no more than it may. -/
theorem Owned.attach (h : Owned slots m) (request : Request) :
    Owned (DiskPorts.attach Monitor.execute request slots m).2.1
      (DiskPorts.attach Monitor.execute request slots m).2.2 ∧ Lawful slots m request := by
  obtain ⟨hstill,hlisted⟩ := inventory_cases m h.devices_ports
  have hread := h.still hstill
  cases hinv : (inventory Monitor.execute m).1 with
  | error e =>
    have hattach : DiskPorts.attach Monitor.execute request slots m =
        (.error e,slots,(inventory Monitor.execute m).2) := attach_unread (Prod.ext hinv rfl)
    rw [hattach]
    refine ⟨hread,⟨fun e' he' => ?_,fun live hl => ?_,fun live hl => ?_,fun live _ hl => ?_⟩⟩
    · rw [hattach]
      rw [hinv] at he'
      cases he'
      exact ⟨rfl,rfl⟩
    all_goals
      rw [hinv] at hl
      cases hl
  | ok live =>
    obtain ⟨howned,-,hcalls,hslots⟩ := Owned.reclaim live slots [] hread (hlisted live hinv)
    rw [List.nil_append] at howned
    have hsuffix := hstill.calls.trans hcalls
    -- the rest of `attach` and what it may do to the slots that the loop leaves
    have hrest : Owned (DiskPorts.attach Monitor.execute request slots m).2.1
          (DiskPorts.attach Monitor.execute request slots m).2.2 ∧
        (((DiskPorts.attach Monitor.execute request slots m).1 = .ok () ∧ Took request.diskId
            (DiskPorts.reclaim Monitor.execute live slots (inventory Monitor.execute m).2).2.1
            (DiskPorts.attach Monitor.execute request slots m).2.1) ∨
          ∃ e, (DiskPorts.attach Monitor.execute request slots m).1 = .error e ∧
            ((DiskPorts.attach Monitor.execute request slots m).2.1 =
              (DiskPorts.reclaim Monitor.execute live slots (inventory Monitor.execute m).2).2.1 ∨
            Took request.diskId
              (DiskPorts.reclaim Monitor.execute live slots (inventory Monitor.execute m).2).2.1
              (DiskPorts.attach Monitor.execute request slots m).2.1 ∧
              (CalledIn m (DiskPorts.attach Monitor.execute request slots m).2.2
                  (.blockdevDel (nodeName request.diskId)) false ∨
                controlLost e = true ∧ ∃ port, CalledIn m
                  (DiskPorts.attach Monitor.execute request slots m).2.2
                  (.deviceAdd (nodeName request.diskId) request.diskId port) false))) := by
      generalize hloop : DiskPorts.reclaim Monitor.execute live slots (inventory Monitor.execute m).2 = loop
        at howned hsuffix ⊢
      obtain ⟨result,mid,m₂⟩ := loop
      cases result with
      | error e =>
        rw [attach_stopped (Prod.ext hinv rfl) hloop]
        exact ⟨howned,.inr ⟨e,rfl,.inl rfl⟩⟩
      | ok u =>
        obtain ⟨hplugged,hways⟩ := Owned.plug (m := m₂) request mid [] howned
        rw [attach_plug (Prod.ext hinv rfl) hloop]
        refine ⟨hplugged,?_⟩
        obtain hok | ⟨e,he,hsame | ⟨htook,hwhy⟩⟩ := hways
        · exact .inl hok
        · exact .inr ⟨e,he,.inl hsame⟩
        · refine .inr ⟨e,he,.inr ⟨htook,?_⟩⟩
          obtain hdel | ⟨hlost,port,hadd⟩ := hwhy
          · exact .inl (hdel.of_suffix hsuffix)
          · exact .inr ⟨hlost,port,hadd.of_suffix hsuffix⟩
    refine ⟨hrest.1,⟨fun e he => ?_,fun live' hl => ?_,fun live' hl hok => ?_,fun live' e hl he => ?_⟩⟩
    · rw [hinv] at he
      cases he
    all_goals
      rw [hinv] at hl
      cases hl
    · exact hslots
    · obtain ⟨-,htook⟩ | ⟨e,he,-⟩ := hrest.2
      · exact htook
      · rw [hok] at he
        cases he
    · obtain ⟨hok,-⟩ | ⟨e',he',hwhy⟩ := hrest.2
      · rw [hok] at he
        cases he
      · rw [he] at he'
        cases he'
        exact hwhy

theorem Owned.new {names : List String} (hnames : names.Nodup) (hm : m.Unused names) :
    Owned (DiskPorts.new names) m := by
  refine ⟨fun id => ?_,fun node hn => ?_,?_,?_,fun slot hslot => ?_,fun d hd => ?_,?_⟩
  · simp [DiskPorts.new,hm.added]
  · rw [hm.added] at hn
    cases hn
  · have hnone : (DiskPorts.new names).filterMap Prod.snd = [] := by simp [DiskPorts.new]
    rw [hnone]
    exact List.nodup_nil
  · have hfst : (DiskPorts.new names).map Prod.fst = names := by
      simp [DiskPorts.new,Function.comp_def]
    rw [hfst]
    exact hnames
  · obtain ⟨port,hport,rfl⟩ := List.mem_map.mp hslot
    exact hm.ports port hport
  · rw [hm.devices] at hd
    cases hd
  · rw [hm.devices]
    exact List.nodup_nil

theorem Owned.attachAll {s : List Slot × Monitor} (h : Owned s.1 s.2) (requests : List Request) :
    Owned (DiskPorts.attachAll s requests).1 (DiskPorts.attachAll s requests).2 := by
  induction requests generalizing s with
  | nil => exact h
  | cons request requests ih => exact ih (h.attach request).1

/-- After any calls on a launched VM's ports, slots and nodes belong together, and the next `attach`, whatever
it asks for, frees, takes and leaves slots only as it may. -/
theorem ports_owned (diskIds : List String) (m : Monitor) (hm : m.Unused (portNames diskIds))
    (requests : List Request) :
    Owned (DiskPorts.attachAll (DiskPorts.new (portNames diskIds),m) requests).1
        (DiskPorts.attachAll (DiskPorts.new (portNames diskIds),m) requests).2 ∧
      ∀ request, Lawful (DiskPorts.attachAll (DiskPorts.new (portNames diskIds),m) requests).1
        (DiskPorts.attachAll (DiskPorts.new (portNames diskIds),m) requests).2 request := by
  have howned := Owned.attachAll (s := (DiskPorts.new (portNames diskIds),m))
    (Owned.new (portNames_nodup diskIds) hm) requests
  exact ⟨howned,fun request => (howned.attach request).2⟩

/-- A monitor to which nothing is attached yet. -/
def launched (fates : List Fate) : Monitor := ⟨portNames [],[],[],[],[],[],fates⟩

theorem launched_unused (fates : List Fate) : (launched fates).Unused (portNames []) :=
  ⟨fun _ hport => hport,rfl,rfl⟩

/-- A disk that is attached, removed by the guest, and attached again. -/
theorem ports_owned_again :
    Owned (DiskPorts.attachAll (DiskPorts.new (portNames []),
      launched [⟨[],none⟩,⟨[],none⟩,⟨[],none⟩,⟨["disk"],none⟩]) [⟨"disk","/test.img",true⟩]).1
      (DiskPorts.attachAll (DiskPorts.new (portNames []),
        launched [⟨[],none⟩,⟨[],none⟩,⟨[],none⟩,⟨["disk"],none⟩]) [⟨"disk","/test.img",true⟩]).2 ∧
    Lawful (DiskPorts.attachAll (DiskPorts.new (portNames []),
      launched [⟨[],none⟩,⟨[],none⟩,⟨[],none⟩,⟨["disk"],none⟩]) [⟨"disk","/test.img",true⟩]).1
      (DiskPorts.attachAll (DiskPorts.new (portNames []),
        launched [⟨[],none⟩,⟨[],none⟩,⟨[],none⟩,⟨["disk"],none⟩]) [⟨"disk","/test.img",true⟩]).2
      ⟨"disk","/test.img",true⟩ := by
  obtain ⟨howned,hlawful⟩ := ports_owned [] (launched [⟨[],none⟩,⟨[],none⟩,⟨[],none⟩,⟨["disk"],none⟩])
    (launched_unused _) [⟨"disk","/test.img",true⟩]
  exact ⟨howned,hlawful _⟩

/-- Where the monitor is lost at `device_add`, the slot is kept and no deletion has failed. -/
theorem lost_monitor_keeps_slot : ¬∀ diskIds m, Monitor.Unused m (portNames diskIds) → ∀ request live e,
    (inventory Monitor.execute m).1 = .ok live →
    (DiskPorts.attach Monitor.execute request (DiskPorts.new (portNames diskIds)) m).1 = .error e →
    (DiskPorts.attach Monitor.execute request (DiskPorts.new (portNames diskIds)) m).2.1 =
      (DiskPorts.reclaim Monitor.execute live (DiskPorts.new (portNames diskIds))
        (inventory Monitor.execute m).2).2.1 ∨
    CalledIn m (DiskPorts.attach Monitor.execute request (DiskPorts.new (portNames diskIds)) m).2.2
      (.blockdevDel (nodeName request.diskId)) false := by
  intro h
  have hone := h [] (launched [⟨[],none⟩,⟨[],none⟩,⟨[],some (.qmp (.closed "test"))⟩]) (launched_unused _)
    ⟨"disk","/test.img",true⟩ (portNames []) (.qmp (.closed "test")) (by decide +kernel) (by decide +kernel)
  obtain hsame | ⟨made,hmade,hdel⟩ := hone
  · exact absurd hsame (by decide +kernel)
  · have hcalls : ∀ c ∈ (DiskPorts.attach Monitor.execute ⟨"disk","/test.img",true⟩
        (DiskPorts.new (portNames [])) (launched [⟨[],none⟩,⟨[],none⟩,⟨[],some (.qmp (.closed "test"))⟩])).2.2.calls,
        c.1 ≠ .blockdevDel (nodeName "disk") := by decide +kernel
    exact hcalls _ (by rw [hmade]; exact List.mem_append_left _ hdel) rfl

end DiskPorts

end Provium.Vmm
