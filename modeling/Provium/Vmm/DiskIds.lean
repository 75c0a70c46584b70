import Provium.Vmm.DiskOwnership

/-! The ids on QEMU's command line: what `Config::validate` and `resolve_disks` let through, and what
`build_qemu_command` makes of it. -/
namespace Provium.Vmm

structure DiskSpec where
  path : String
  id : Option String
  readonly : Bool
  mediated : Bool

def DiskSpec.resolvedId (spec : DiskSpec) (index : ℕ) : String := spec.id.getD ("disk"++toString index)

/-- A number of seconds, by its text and whether it is finite and positive. -/
structure BootTimeout where
  text : String
  positive : Bool

/-- `Profile`, as far as `validate` reads it. -/
structure DiskProfile where
  cmdline : String
  cmdlineFile : Option String
  agentBootTimeout : Option BootTimeout
  disks : List DiskSpec
  guestOs : String

/-- `ConfigError::Validation` -/
structure ValidationError where
  path : String
  message : String
  deriving DecidableEq

namespace DiskProfile

/-- The loop over a profile's disks, from a number on. -/
def validateDisks (path name : String) (seen : List String) :
    ℕ → List DiskSpec → Except ValidationError Unit
  | _,[] => .ok ()
  | i,disk::disks =>
    if disk.path = "" then
      .error ⟨path,"profile `"++name++"`: disk "++toString i++" has an empty `path`"⟩
    else if disk.resolvedId i ∈ seen then
      .error ⟨path,"profile `"++name++"`: two disks share the id `"++disk.resolvedId i++
        "`; ids name the QEMU device and must be unique"⟩
    else validateDisks path name (disk.resolvedId i::seen) (i+1) disks

/-- The body of `validate`. -/
def validateOne (path name : String) (p : DiskProfile) : Except ValidationError Unit := do
  if p.cmdline.toList.all Char.isWhitespace ∧ p.cmdlineFile = none then
    throw ⟨path,"profile `"++name++"` has empty cmdline and no `cmdline_file`; set at least one"⟩
  match p.agentBootTimeout with
  | some t =>
    if !t.positive then
      throw ⟨path,"profile `"++name++"`: agent_boot_timeout must be a positive number of seconds, got "++t.text⟩
  | none => pure ()
  validateDisks path name [] 0 p.disks
  if p.guestOs ≠ "peios" then
    throw ⟨path,"profile `"++name++"` has guest_os = `"++p.guestOs++"`, only `peios` is supported in v1"⟩

end DiskProfile

/-- `Config::validate` -/
def validate (path : String) : List (String × DiskProfile) → Except ValidationError Unit
  | [] => .ok ()
  | (name,p)::profiles => do
    p.validateOne path name
    validate path profiles

structure AttachedDisk where
  id : String
  path : String
  readonly : Bool
  mediated : Bool
  deriving DecidableEq

/-- The loop of `resolve_disks` over the boot's own disks; an error is the id in conflict. -/
def addBootDisks (out : List AttachedDisk) : List AttachedDisk → Except String (List AttachedDisk)
  | [] => .ok out
  | disk::disks => if out.any (·.id = disk.id) then .error disk.id else addBootDisks (out++[disk]) disks

def resolveDisks (p : DiskProfile) (bootDisks : List AttachedDisk) : Except String (List AttachedDisk) :=
  addBootDisks (p.disks.mapIdx fun i spec => ⟨spec.resolvedId i,spec.path,spec.readonly,spec.mediated⟩) bootDisks

/-- The arguments for disks and ports. -/
inductive QemuArg where
  | drive (id file : String) (mediated readonly : Bool)
  | rootPort (id : String) (chassis : ℕ)
  | virtioBlk (node id bus : String)

namespace QemuArg

def render : QemuArg → List String
  | .drive id file mediated readonly => ["-drive","if=none,id="++id++",format=raw,file="++file++
      (if mediated then ",cache=none" else "")++if readonly then ",readonly=on" else ""]
  | .rootPort id chassis => ["-device","pcie-root-port,id="++id++",chassis="++toString chassis]
  | .virtioBlk node id bus => ["-device","virtio-blk-pci,drive="++node++",id="++id++",bus="++bus]

/-- The qdev id that an argument gives. -/
def qdevId : QemuArg → Option String
  | .drive _ _ _ _ => none
  | .rootPort id _ => some id
  | .virtioBlk _ id _ => some id

def nodeId : QemuArg → Option String
  | .drive id _ _ _ => some id
  | _ => none

end QemuArg

def portOf (diskId : String) : String := diskId++"-port"

/-- The disks of `build_qemu_command`. `file` is what QEMU is told to open: the image, or the socket of the
server that mediates it. -/
def diskArgs (file : AttachedDisk → String) (disks : List AttachedDisk) : List QemuArg :=
  (disks.mapIdx fun index disk =>
    [.drive (nodeName disk.id) (file disk) disk.mediated disk.readonly,.rootPort (portOf disk.id) (index+1),
      .virtioBlk (nodeName disk.id) disk.id (portOf disk.id)]).flatten

/-- The ports of `build_qemu_command`. -/
def portArgs (disks : List AttachedDisk) : List QemuArg :=
  (portNames (disks.map AttachedDisk.id)).mapIdx fun index port => .rootPort port (disks.length+index+1)

def commandLine (file : AttachedDisk → String) (disks : List AttachedDisk) : List QemuArg :=
  diskArgs file disks++portArgs disks

/-- The ids of all ports: those of the disks that were there at launch, and the runtime ones. -/
def portIds (diskIds : List String) : List String := diskIds.map portOf++portNames diskIds

/-- An attach of this disk, after whatever attaches, gives no device the id of a port. -/
def SparesPorts (diskIds : List String) (request : Request) : Prop :=
  ∀ m : Monitor, m.Unused (portNames diskIds) → ∀ requests drive id bus succeeded,
    DiskPorts.CalledIn (DiskPorts.attachAll (DiskPorts.new (portNames diskIds),m) requests).2
      (DiskPorts.attach Monitor.execute request
        (DiskPorts.attachAll (DiskPorts.new (portNames diskIds),m) requests).1
        (DiskPorts.attachAll (DiskPorts.new (portNames diskIds),m) requests).2).2.2
      (.deviceAdd drive id bus) succeeded → id ∉ portIds diskIds

/-! ## What the checks ask for -/

theorem DiskProfile.validateDisks_nodup {path name : String} (disks : List DiskSpec) (seen : List String) (i : ℕ)
    (h : validateDisks path name seen i disks = .ok ()) :
    (disks.mapIdx fun j spec => spec.resolvedId (i+j)).Nodup ∧
      (disks.mapIdx fun j spec => spec.resolvedId (i+j)).Disjoint seen := by
  induction disks generalizing seen i with
  | nil => exact ⟨List.nodup_nil,List.disjoint_nil_left _⟩
  | cons disk disks ih =>
    simp only [validateDisks] at h
    split at h
    · cases h
    split at h
    · cases h
    next hnew =>
      obtain ⟨hnodup,hdisjoint⟩ := ih _ _ h
      rw [List.disjoint_cons_right] at hdisjoint
      have hshift : (fun j (spec : DiskSpec) => spec.resolvedId (i+(j+1))) =
          fun j spec => spec.resolvedId (i+1+j) := by
        funext j spec
        rw [Nat.add_comm j,← Nat.add_assoc]
      rw [List.mapIdx_cons,hshift]
      exact ⟨List.nodup_cons.mpr ⟨hdisjoint.1,hnodup⟩,List.disjoint_cons_left.mpr ⟨hnew,hdisjoint.2⟩⟩

theorem DiskProfile.validateOne_disks {path name : String} {p : DiskProfile}
    (h : p.validateOne path name = .ok ()) : validateDisks path name [] 0 p.disks = .ok () := by
  unfold validateOne at h
  cases hdisks : validateDisks path name [] 0 p.disks with
  | ok u => rfl
  | error e =>
    rw [hdisks] at h
    simp only [bind,Except.bind,throw,throwThe,MonadExceptOf.throw] at h
    repeat' split at h
    all_goals cases h

theorem validate_one {path name : String} {profiles : List (String × DiskProfile)} {p : DiskProfile}
    (h : validate path profiles = .ok ()) (hp : (name,p) ∈ profiles) : p.validateOne path name = .ok () := by
  induction profiles with
  | nil => cases hp
  | cons first profiles ih =>
    obtain ⟨name₁,p₁⟩ := first
    simp only [validate,bind,Except.bind] at h
    split at h
    · cases h
    next u hu =>
      obtain heq | hp := List.mem_cons.mp hp
      · cases heq
        exact hu
      · exact ih h hp

theorem addBootDisks_nodup {out boot disks : List AttachedDisk} (hout : (out.map AttachedDisk.id).Nodup)
    (h : addBootDisks out boot = .ok disks) : (disks.map AttachedDisk.id).Nodup := by
  induction boot generalizing out with
  | nil =>
    cases h
    exact hout
  | cons disk boot ih =>
    simp only [addBootDisks] at h
    split at h
    · cases h
    next hnew =>
      refine ih ?_ h
      rw [List.map_append,List.nodup_append']
      refine ⟨hout,List.nodup_singleton _,?_⟩
      rw [List.map_singleton,List.disjoint_singleton]
      intro hin
      obtain ⟨d,hd,heq⟩ := List.mem_map.mp hin
      exact hnew (List.any_eq_true.mpr ⟨d,hd,decide_eq_true heq⟩)

/-- The ids of the disks of a launch differ. -/
theorem resolveDisks_nodup {path name : String} {profiles : List (String × DiskProfile)} {p : DiskProfile}
    {boot disks : List AttachedDisk} (hvalid : validate path profiles = .ok ()) (hp : (name,p) ∈ profiles)
    (hdisks : resolveDisks p boot = .ok disks) : (disks.map AttachedDisk.id).Nodup := by
  refine addBootDisks_nodup ?_ hdisks
  have hnodup := (DiskProfile.validateDisks_nodup _ _ _ (DiskProfile.validateOne_disks (validate_one hvalid hp))).1
  rw [List.mapIdx_eq_zipIdx_map,List.map_map]
  simpa [List.mapIdx_eq_zipIdx_map,Function.comp_def] using hnodup

/-! ## The ids of the command line -/

theorem filterMap_mapIdx_flatten {α β γ : Type} (q : β → Option γ) (h : α → List γ) (as : List α)
    (g : ℕ → α → List β) (hg : ∀ i a, (g i a).filterMap q = h a) :
    (as.mapIdx g).flatten.filterMap q = as.flatMap h := by
  induction as generalizing g with
  | nil => rfl
  | cons a as ih =>
    rw [List.mapIdx_cons,List.flatten_cons,List.filterMap_append,hg,ih (fun i => g (i+1)) fun i => hg (i+1),
      List.flatMap_cons]

theorem filterMap_mapIdx {α β γ : Type} (q : β → Option γ) (h : α → Option γ) (as : List α) (g : ℕ → α → β)
    (hg : ∀ i a, q (g i a) = h a) : (as.mapIdx g).filterMap q = as.filterMap h := by
  induction as generalizing g with
  | nil => rfl
  | cons a as ih =>
    rw [List.mapIdx_cons,List.filterMap_cons,List.filterMap_cons,hg,ih (fun i => g (i+1)) fun i => hg (i+1)]

/-- Each disk has a port and a device, and then come the runtime ports. -/
theorem commandLine_qdevIds (file : AttachedDisk → String) (disks : List AttachedDisk) :
    (commandLine file disks).filterMap QemuArg.qdevId =
      (disks.map AttachedDisk.id).flatMap (fun id => [portOf id,id])++portNames (disks.map AttachedDisk.id) := by
  unfold commandLine diskArgs portArgs
  rw [List.filterMap_append,
    filterMap_mapIdx_flatten QemuArg.qdevId (fun disk : AttachedDisk => [portOf disk.id,disk.id]) _ _
      fun i disk => rfl,
    filterMap_mapIdx QemuArg.qdevId some _ _ fun i port => rfl,List.filterMap_some,List.flatMap_map]

theorem commandLine_nodeIds (file : AttachedDisk → String) (disks : List AttachedDisk) :
    (commandLine file disks).filterMap QemuArg.nodeId = (disks.map AttachedDisk.id).map nodeName := by
  unfold commandLine diskArgs portArgs
  rw [List.filterMap_append,
    filterMap_mapIdx_flatten QemuArg.nodeId (fun disk : AttachedDisk => [nodeName disk.id]) _ _
      fun i disk => rfl,
    filterMap_mapIdx QemuArg.nodeId (fun _ => none) _ _ fun i port => rfl,List.filterMap_none,List.append_nil,
    List.map_map]
  exact List.map_eq_flatMap.symm

theorem portOf_inj {a b : String} : portOf a = portOf b ↔ a = b := String.append_left_inj _

/-- The ids of disks and their ports differ unless a disk is called like a port of another. -/
theorem diskIds_nodup_iff {ids : List String} (hids : ids.Nodup) :
    (ids.flatMap fun id => [portOf id,id]).Nodup ↔ ∀ a ∈ ids, ∀ b ∈ ids, a ≠ portOf b := by
  have hperm : List.Perm (ids.flatMap fun id => [portOf id,id]) (ids.map portOf++ids) := by
    have h := List.map_append_flatMap_perm ids portOf fun id => [id]
    rw [List.flatMap_singleton'] at h
    exact h.symm
  rw [hperm.nodup_iff,List.nodup_append']
  constructor
  · rintro ⟨-,-,hdisjoint⟩ a ha b hb rfl
    exact hdisjoint (List.mem_map_of_mem hb) ha
  · intro h
    refine ⟨hids.map fun a b heq => portOf_inj.mp heq,hids,fun a hport ha => ?_⟩
    obtain ⟨b,hb,rfl⟩ := List.mem_map.mp hport
    exact h _ ha b hb rfl

/-- No runtime port is called like a disk or its port. -/
theorem portNames_spare (ids : List String) :
    (ids.flatMap fun id => [portOf id,id]).Disjoint (portNames ids) := by
  intro name hin hport
  obtain ⟨id,hid,hname⟩ := List.mem_flatMap.mp hin
  refine portNames_disjoint ids hport (List.mem_flatMap.mpr ⟨id,hid,?_⟩)
  simp only [List.mem_cons,List.not_mem_nil,or_false] at hname
  obtain rfl | rfl := hname
  · exact List.mem_of_getElem? (i := 2) rfl
  · exact List.mem_cons_self

theorem qdevIds_nodup_iff (file : AttachedDisk → String) {disks : List AttachedDisk}
    (hids : (disks.map AttachedDisk.id).Nodup) :
    ((commandLine file disks).filterMap QemuArg.qdevId).Nodup ↔
      ∀ d ∈ disks, ∀ e ∈ disks, d.id ≠ portOf e.id := by
  rw [commandLine_qdevIds,List.nodup_append',diskIds_nodup_iff hids]
  simp only [portNames_nodup,portNames_spare,and_true,List.forall_mem_map]

theorem nodeIds_nodup (file : AttachedDisk → String) {disks : List AttachedDisk}
    (hids : (disks.map AttachedDisk.id).Nodup) : ((commandLine file disks).filterMap QemuArg.nodeId).Nodup := by
  rw [commandLine_nodeIds]
  exact hids.map fun a b heq => DiskPorts.nodeName_inj.mp heq

/-! ## Later disks -/

/-- Every command between two states meets a condition. -/
def Monitor.Commanded (P : Command → Prop) (m m' : Monitor) : Prop :=
  ∃ made, m'.calls = made++m.calls ∧ ∀ call ∈ made, P call.1

section Commanded
open Monitor
variable {P : Command → Prop} {m m' m'' : Monitor}

theorem Monitor.Commanded.refl (m : Monitor) : Commanded P m m := ⟨[],rfl,fun _ h => by cases h⟩

theorem Monitor.Commanded.trans (h : Commanded P m m') (h' : Commanded P m' m'') : Commanded P m m'' := by
  obtain ⟨made,heq,hmade⟩ := h
  obtain ⟨made',heq',hmade'⟩ := h'
  refine ⟨made'++made,by rw [heq',heq,List.append_assoc],fun call hcall => ?_⟩
  obtain hcall | hcall := List.mem_append.mp hcall
  · exact hmade' call hcall
  · exact hmade call hcall

theorem Monitor.effect_calls {c : Command} {reply : Reply} (h : m.effect c = .ok (reply,m')) :
    m'.calls = m.calls := by
  cases c with
  | queryPci =>
    cases h
    rfl
  | blockdevAdd node readonly file => exact (effect_blockdevAdd h).2.2.2.2
  | deviceAdd drive id bus => exact (effect_deviceAdd h).2.2.2
  | blockdevDel node => exact (effect_blockdevDel h).2.2.2

theorem Monitor.execute_commanded {c : Command} (hc : P c) : Commanded P m (m.execute c).2 := by
  obtain ⟨m₁,-,hcalls,⟨e,he⟩ | ⟨reply,m₂,heff,hok⟩⟩ := execute_cases m c
  · rw [he]
    refine ⟨[(c,false)],by rw [← hcalls]; rfl,fun call hcall => ?_⟩
    rw [List.mem_singleton.mp hcall]
    exact hc
  · rw [hok]
    refine ⟨[(c,true)],by rw [← hcalls,← effect_calls heff]; rfl,fun call hcall => ?_⟩
    rw [List.mem_singleton.mp hcall]
    exact hc

end Commanded

namespace DiskPorts
open Monitor
variable {P : Command → Prop}

theorem inventory_commanded (hquery : P .queryPci) (m : Monitor) :
    Commanded P m (inventory Monitor.execute m).2 := by
  have h : Commanded P m (m.execute .queryPci).2 := execute_commanded hquery
  unfold inventory
  generalize m.execute .queryPci = r at h ⊢
  obtain ⟨reply | e,m₁⟩ := r
  · exact h
  · exact h

theorem reclaim_commanded (hdel : ∀ node, P (.blockdevDel node)) (live : List String) (slots : List Slot)
    (m : Monitor) : Commanded P m (reclaim Monitor.execute live slots m).2.2 := by
  induction slots generalizing m with
  | nil => exact Commanded.refl m
  | cons slot slots ih =>
    obtain ⟨port,holder⟩ := slot
    cases holder with
    | none => exact ih m
    | some id =>
      have h : Commanded P m (m.execute (.blockdevDel (nodeName id))).2 := execute_commanded (hdel _)
      unfold reclaim
      split
      · exact ih m
      · generalize m.execute (.blockdevDel (nodeName id)) = r at h ⊢
        obtain ⟨e | reply,m₁⟩ := r
        · exact h
        · exact h.trans (ih m₁)

theorem plugInto_commanded (hdel : ∀ node, P (.blockdevDel node)) (port : String) (request : Request)
    (hadd : ∀ node readonly file, P (.blockdevAdd node readonly file))
    (hdevice : P (.deviceAdd (nodeName request.diskId) request.diskId port)) (m : Monitor) :
    Commanded P m (plugInto Monitor.execute port request m).2.2 := by
  have h : Commanded P m (m.execute (.blockdevAdd (nodeName request.diskId) request.readonly request.image)).2 :=
    execute_commanded (hadd _ _ _)
  unfold plugInto
  generalize m.execute (.blockdevAdd (nodeName request.diskId) request.readonly request.image) = r at h ⊢
  obtain ⟨e | reply,m₁⟩ := r
  · exact h
  have h₁ : Commanded P m₁ (m₁.execute (.deviceAdd (nodeName request.diskId) request.diskId port)).2 :=
    execute_commanded hdevice
  simp only
  generalize m₁.execute (.deviceAdd (nodeName request.diskId) request.diskId port) = r at h₁ ⊢
  obtain ⟨add | reply,m₂⟩ := r
  · have h₂ : Commanded P m₂ (m₂.execute (.blockdevDel (nodeName request.diskId))).2 :=
      execute_commanded (hdel _)
    simp only
    split
    · exact h.trans h₁
    · generalize m₂.execute (.blockdevDel (nodeName request.diskId)) = r at h₂ ⊢
      obtain ⟨cleanup | reply,m₃⟩ := r
      · exact (h.trans h₁).trans h₂
      · exact (h.trans h₁).trans h₂
  · exact h.trans h₁

theorem plug_commanded (hdel : ∀ node, P (.blockdevDel node)) (request : Request)
    (hadd : ∀ node readonly file, P (.blockdevAdd node readonly file))
    (hdevice : ∀ port, P (.deviceAdd (nodeName request.diskId) request.diskId port)) (slots : List Slot)
    (m : Monitor) : Commanded P m (plug Monitor.execute request slots m).2.2 := by
  induction slots generalizing m with
  | nil => exact Commanded.refl m
  | cons slot slots ih =>
    obtain ⟨port,holder⟩ := slot
    cases holder with
    | none => exact plugInto_commanded hdel port request hadd (hdevice port) m
    | some id => exact ih m

/-- A condition on commands that those of `attach` meet. -/
theorem attach_commanded (request : Request) (hquery : P .queryPci) (hdel : ∀ node, P (.blockdevDel node))
    (hadd : ∀ node readonly file, P (.blockdevAdd node readonly file))
    (hdevice : ∀ port, P (.deviceAdd (nodeName request.diskId) request.diskId port)) (slots : List Slot)
    (m : Monitor) : Commanded P m (attach Monitor.execute request slots m).2.2 := by
  have h := inventory_commanded hquery m
  unfold attach
  generalize inventory Monitor.execute m = r at h ⊢
  obtain ⟨e | live,m₁⟩ := r
  · exact h
  have h₁ := reclaim_commanded hdel live slots m₁
  simp only
  generalize reclaim Monitor.execute live slots m₁ = r at h₁ ⊢
  obtain ⟨e | u,mid,m₂⟩ := r
  · exact h.trans h₁
  · exact (h.trans h₁).trans (plug_commanded hdel request hadd hdevice mid m₂)

/-- The only device that `attach` adds is the one that it is asked for. -/
theorem attach_deviceAdd {request : Request} {slots : List Slot} {m : Monitor} {drive id bus : String}
    {succeeded : Bool}
    (h : CalledIn m (attach Monitor.execute request slots m).2.2 (.deviceAdd drive id bus) succeeded) :
    id = request.diskId := by
  obtain ⟨made,heq,hin⟩ := h
  have hall : Commanded (fun c => ∀ drive id bus, c = .deviceAdd drive id bus → id = request.diskId) m
      (attach Monitor.execute request slots m).2.2 := by
    apply attach_commanded
    · intro _ _ _ h
      cases h
    · intro _ _ _ _ h
      cases h
    · intro _ _ _ _ _ _ h
      cases h
    · intro _ _ _ _ h
      cases h
      rfl
  obtain ⟨made',heq',hmade⟩ := hall
  rw [List.append_cancel_right (heq.symm.trans heq')] at hin
  exact hmade _ hin _ _ _ rfl

/-- QEMU as it is launched, which lets every command succeed. -/
def obliging (diskIds : List String) : Monitor := ⟨portNames diskIds,[],diskIds.map nodeName,[],[],[],[]⟩

theorem reclaim_new (live names : List String) (m : Monitor) :
    reclaim Monitor.execute live (new names) m = (.ok (),new names,m) := by
  induction names with
  | nil => rfl
  | cons port names ih =>
    change (let r := reclaim Monitor.execute live (new names) m; (r.1,(port,none)::r.2.1,r.2.2)) = _
    rw [ih]
    rfl

/-- There is a port for the first disk, and it is given to QEMU under its own id. -/
theorem obliging_adds {diskIds : List String} {request : Request} (hnew : request.diskId ∉ diskIds) :
    ∃ bus, CalledIn (obliging diskIds)
      (attach Monitor.execute request (new (portNames diskIds)) (obliging diskIds)).2.2
      (.deviceAdd (nodeName request.diskId) request.diskId bus) true := by
  obtain ⟨bus,ports,hports⟩ : ∃ bus ports, portNames diskIds = bus::ports := ⟨_,_,rfl⟩
  have hinv : inventory Monitor.execute (obliging diskIds) =
      (.ok ([(obliging diskIds).rootBus].flatMap collect),(obliging diskIds).note .queryPci true) := by
    simp [inventory,Monitor.execute,Monitor.effect,liveDevices,obliging,leave,Monitor.note,rootBus]
  refine ⟨bus,[(.deviceAdd (nodeName request.diskId) request.diskId bus,true),
    (.blockdevAdd (nodeName request.diskId) request.readonly request.image,true),(.queryPci,true)],?_,
    List.mem_cons_self⟩
  rw [attach_plug hinv (reclaim_new _ _ _),hports]
  simp [new,plug,plugInto,Monitor.execute,Monitor.effect,leave,Monitor.note,obliging,hports,
    nodeName_inj,hnew]

/-- A later disk spares the ports if and only if it is not called like one. -/
theorem sparesPorts_iff {diskIds : List String} {request : Request} (hnew : request.diskId ∉ diskIds) :
    SparesPorts diskIds request ↔ request.diskId ∉ portIds diskIds := by
  constructor
  · intro h
    obtain ⟨bus,hcalled⟩ := obliging_adds hnew
    exact h (obliging diskIds) ⟨fun _ hport => hport,rfl,rfl⟩ [] _ _ _ _ hcalled
  · intro hid m _ requests drive id bus succeeded hcalled
    rw [attach_deviceAdd hcalled]
    exact hid

end DiskPorts

/-- The ids of a launch, and of every later disk, are apart if and only if no disk is called like another's
port, and no later disk like a port. -/
theorem disk_ids_apart_iff (path name : String) (profiles : List (String × DiskProfile)) (p : DiskProfile)
    (boot disks : List AttachedDisk) (file : AttachedDisk → String) (later : List Request)
    (hvalid : validate path profiles = .ok ()) (hp : (name,p) ∈ profiles)
    (hdisks : resolveDisks p boot = .ok disks) :
    (((commandLine file disks).filterMap QemuArg.qdevId).Nodup ∧
      ((commandLine file disks).filterMap QemuArg.nodeId).Nodup ∧
      ∀ request ∈ later, request.diskId ∉ disks.map AttachedDisk.id →
        SparesPorts (disks.map AttachedDisk.id) request) ↔
    (∀ d ∈ disks, ∀ e ∈ disks, d.id ≠ portOf e.id) ∧
      ∀ request ∈ later, request.diskId ∉ disks.map AttachedDisk.id →
        request.diskId ∉ portIds (disks.map AttachedDisk.id) := by
  have hids := resolveDisks_nodup hvalid hp hdisks
  rw [qdevIds_nodup_iff file hids]
  simp only [nodeIds_nodup file hids,true_and]
  refine and_congr_right fun _ => forall₂_congr fun request _ => forall_congr' fun hnew => ?_
  exact DiskPorts.sparesPorts_iff hnew

/-- A profile with a disk without an id. -/
def oneDisk : DiskProfile := ⟨"console=ttyS0",none,none,[⟨"/root.img",none,true,false⟩],"peios"⟩

theorem disk_ids_apart_one :
    (((commandLine AttachedDisk.path [⟨"disk0","/root.img",true,false⟩,⟨"data","/data.img",false,true⟩]).filterMap
        QemuArg.qdevId).Nodup ∧
      ((commandLine AttachedDisk.path [⟨"disk0","/root.img",true,false⟩,⟨"data","/data.img",false,true⟩]).filterMap
        QemuArg.nodeId).Nodup ∧
      ∀ request ∈ [(⟨"late","/late.img",true⟩ : Request)], request.diskId ∉ ["disk0","data"] →
        SparesPorts ["disk0","data"] request) := by
  refine (disk_ids_apart_iff "provium.toml" "p" [("p",oneDisk)] oneDisk [⟨"data","/data.img",false,true⟩]
    [⟨"disk0","/root.img",true,false⟩,⟨"data","/data.img",false,true⟩] AttachedDisk.path
    [⟨"late","/late.img",true⟩] ?_ ?_ ?_).mpr ⟨?_,?_⟩
  · decide +kernel
  · exact List.mem_singleton_self _
  · decide +kernel
  · decide +kernel
  · decide +kernel

/-- A boot may bring a disk that is called like the port of another. -/
theorem disk_called_like_port : ¬∀ path profiles, validate path profiles = .ok () → ∀ name p,
    (name,p) ∈ profiles → ∀ boot disks, resolveDisks p boot = .ok disks → ∀ file,
    ((commandLine file disks).filterMap QemuArg.qdevId).Nodup := by
  intro h
  have hnodup := h "provium.toml" [("p",oneDisk)] (by decide +kernel) "p" oneDisk (List.mem_singleton_self _)
    [⟨"disk0-port","/data.img",false,false⟩]
    [⟨"disk0","/root.img",true,false⟩,⟨"disk0-port","/data.img",false,false⟩] (by decide +kernel) AttachedDisk.path
  exact absurd hnodup (by decide +kernel)

end Provium.Vmm
