import Provium.Lab.BridgeShaping

/-! The commands of a bridge as they are planned, `plan_for` of `bridge_realize.rs`, and as they are run
when all succeed, `realize_for_vm` of `bridge.rs`. -/
namespace Provium.Lab
open Lib

structure NetOp where
  program : String
  args : List String
  deriving DecidableEq, Repr

namespace NetOp

def ip (args : List String) : NetOp := ⟨"ip",args⟩

def tc (args : List String) : NetOp := ⟨"tc",args⟩

def afterDev : List String → Option String
  | "dev"::dev::_ => some dev
  | _::args => afterDev args
  | [] => none

/-- The interface that a command is about. -/
def device (op : NetOp) : Option String :=
  match op.args with
  | "link"::"add"::dev::_ => some dev
  | args => afterDev args

/-- `tuntap add` without whom it is for. -/
def withoutOwner (op : NetOp) : NetOp :=
  match op.args with
  | ["tuntap","add","dev",tap,"mode","tap","user",_] => { op with args := ["tuntap","add","dev",tap,"mode","tap"] }
  | _ => op

end NetOp

/-- What `tc` is told of a netem. -/
def netemClauses (lat drop : ℕ) : List String :=
  (if 0 < lat then ["delay",toString lat++"ms"] else [])++(if 0 < drop then ["loss",toString drop++"%"] else [])

/-- `members`, in the order of a `BTreeSet`. -/
def BridgeInner.members (b : BridgeInner) : List String := b.attached.dedup.insertionSort (· ≤ ·)

namespace HostedBridge

/-! `plan_for` -/

def planTap (bridge tap : String) : List NetOp :=
  [.ip ["tuntap","add","dev",tap,"mode","tap"],
    .ip ["link","set","dev",tap,"master",bridge],
    .ip ["link","set","dev",tap,"up"]]

def planNetem (bridge : String) (lat drop : ℕ) : List NetOp :=
  if 0 < lat ∨ 0 < drop then [.tc (["qdisc","add","dev",bridge,"root","netem"]++netemClauses lat drop)] else []

def planDirectional (tap : String) : Option (ℕ × ℕ × ℕ) → List NetOp
  | none => []
  | some (latency,drop,bandwidth) =>
    if latency = 0 ∧ drop = 0 ∧ bandwidth = 0 then []
    else if 0 < bandwidth then
      [.tc ["qdisc","add","dev",tap,"root","handle","1:","htb","default","10"],
        .tc ["class","add","dev",tap,"parent","1:","classid","1:10","htb","rate",toString bandwidth++"bit","ceil",
          toString bandwidth++"bit","burst",toString (max (bandwidth/800) 1500)]]++
      (if 0 < latency ∨ 0 < drop then
        [.tc (["qdisc","add","dev",tap,"parent","1:10","handle","10:","netem"]++netemClauses latency drop)]
      else [])
    else [.tc (["qdisc","add","dev",tap,"root","netem"]++netemClauses latency drop)]

def planFor (b : HostedBridge) : List NetOp :=
  [.ip ["link","add",b.name,"type","bridge"],.ip ["link","set","dev",b.name,"up"]]++
  b.inner.members.flatMap (fun vm => planTap b.name (b.tap vm))++
  planNetem b.name b.inner.latencyMs b.inner.dropRatePct++
  b.inner.members.flatMap fun vm => planDirectional (b.tap vm) (b.inner.collapsedDirectionalFor vm)

/-! `realize_for_vm` -/

/-- `install_netem_root` -/
def netemRootOps (tap : String) (lat drop : ℕ) : List NetOp :=
  [.tc (["qdisc","add","dev",tap,"root","netem"]++netemClauses lat drop)]

/-- `install_htb_with_optional_netem` -/
def htbOps (tap : String) (lat drop bps : ℕ) : List NetOp :=
  [.tc ["qdisc","add","dev",tap,"root","handle","1:","htb","default","10"],
    .tc ["class","add","dev",tap,"parent","1:","classid","1:10","htb","rate",toString bps++"bit","ceil",
      toString bps++"bit","burst",toString (max (bps/800) 1500)]]++
  (if 0 < lat ∨ 0 < drop then
    [.tc (["qdisc","add","dev",tap,"parent","1:10","handle","10:","netem"]++netemClauses lat drop)]
  else [])

def bridgeOps (b : HostedBridge) : List NetOp :=
  if b.realized then []
  else [.ip ["link","add",b.name,"type","bridge"],.ip ["link","set","dev",b.name,"up"]]

def netemOps (b : HostedBridge) : List NetOp :=
  if b.realizedNetem = b.inner.targetNetem then []
  else match b.inner.targetNetem with
    | some (lat,drop) =>
      [.tc (["qdisc",if b.realizedNetem.isSome then "change" else "add","dev",b.name,"root","netem"]++
        netemClauses lat drop)]
    | none => if b.realizedNetem.isSome then [.tc ["qdisc","del","dev",b.name,"root"]] else []

def tapOps (b : HostedBridge) (uid vm : String) : List NetOp :=
  if vm ∈ b.realizedTaps then []
  else [.ip ["tuntap","add","dev",b.tap vm,"mode","tap","user",uid],
    .ip ["link","set","dev",b.tap vm,"master",b.name],
    .ip ["link","set","dev",b.tap vm,"up"]]

def directionalOps (b : HostedBridge) (vm : String) : List NetOp :=
  let current := b.realizedDirectional.lookup vm
  let target := b.inner.collapsedDirectionalFor vm
  if current = target then []
  else
    (if current.isSome then [.tc ["qdisc","del","dev",b.tap vm,"root"]] else [])++
    match target with
    | none => []
    | some (lat,drop,bps) =>
      if 0 < bps then htbOps (b.tap vm) lat drop bps else netemRootOps (b.tap vm) lat drop

/-- The commands of `realize_for_vm` by provium's uid. -/
def realizeOps (b : HostedBridge) (uid vm : String) : List NetOp :=
  b.bridgeOps++b.netemOps++b.tapOps uid vm++b.directionalOps vm

/-- The commands of one call after the other. -/
def realizeEach (uid : String) : HostedBridge → List String → List NetOp
  | _,[] => []
  | b,vm::vms => b.realizeOps uid vm++realizeEach uid (b.noteRealized vm) vms

/-- The bridge has made nothing on the host that is still there. -/
structure Unrealized (b : HostedBridge) : Prop where
  bridge : b.realized = false
  netem : b.realizedNetem = none
  taps : b.realizedTaps = []
  directional : b.realizedDirectional = ∅

@[simp] theorem tap_noteRealized (b : HostedBridge) (vm v : String) : (b.noteRealized vm).tap v = b.tap v := rfl
@[simp] theorem name_noteRealized (b : HostedBridge) (vm : String) : (b.noteRealized vm).name = b.name := rfl
@[simp] theorem inner_noteRealized (b : HostedBridge) (vm : String) : (b.noteRealized vm).inner = b.inner := rfl

end HostedBridge

/-! Every command of a phase is about one interface. -/

theorem filter_device_of_forall {ops : List NetOp} {dev : String} (h : ∀ op ∈ ops, op.device = some dev)
    (other : String) :
    ops.filter (fun op => op.device = some other) = if dev = other then ops else [] := by
  split
  · next heq =>
    subst heq
    exact List.filter_eq_self.mpr fun op hop => decide_eq_true (h op hop)
  · next hne =>
    refine List.filter_eq_nil_iff.mpr fun op hop => ?_
    rw [h op hop,decide_eq_true_eq,Option.some.injEq]
    exact hne

theorem filter_device_flatMap {vms : List String} {ops : String → List NetOp} {tap : String → String}
    (h : ∀ vm, ∀ op ∈ ops vm, op.device = some (tap vm)) (other : String) :
    (vms.flatMap ops).filter (fun op => op.device = some other) =
      vms.flatMap fun vm => if tap vm = other then ops vm else [] := by
  rw [List.filter_flatMap]
  exact List.flatMap_congr fun vm _ => filter_device_of_forall (h vm) other

/-- Of names that differ, one at most is the one looked for. -/
theorem flatMap_ite_of_mem {vms : List String} {ops : String → List NetOp} {tap : String → String} {vm : String}
    (hvm : vm ∈ vms) (hnames : (vms.map tap).Nodup) :
    (vms.flatMap fun v => if tap v = tap vm then ops v else []) = ops vm := by
  induction vms with
  | nil => cases hvm
  | cons v vms ih =>
    rw [List.map_cons,List.nodup_cons] at hnames
    rw [List.flatMap_cons]
    obtain rfl | hvm := List.mem_cons.mp hvm
    · have hrest : (vms.flatMap fun v => if tap v = tap vm then ops v else []) = [] := by
        refine List.flatMap_eq_nil_iff.mpr fun v hv => if_neg fun heq => hnames.1 ?_
        rw [← heq]
        exact List.mem_map_of_mem hv
      rw [hrest,if_pos rfl,List.append_nil]
    · have hne : tap v ≠ tap vm := fun heq => hnames.1 (heq ▸ List.mem_map_of_mem hvm)
      rw [if_neg hne,List.nil_append]
      exact ih hvm hnames.2

theorem flatMap_ite_of_forall {vms : List String} {ops : String → List NetOp} {tap : String → String}
    {dev : String} (h : ∀ v ∈ vms, tap v ≠ dev) :
    (vms.flatMap fun v => if tap v = dev then ops v else []) = [] :=
  List.flatMap_eq_nil_iff.mpr fun v hv => if_neg (h v hv)

namespace HostedBridge

theorem planTap_device (bridge tap : String) : ∀ op ∈ planTap bridge tap, op.device = some tap := by
  simp [planTap,NetOp.ip,NetOp.device,NetOp.afterDev]

theorem planNetem_device (bridge : String) (lat drop : ℕ) :
    ∀ op ∈ planNetem bridge lat drop, op.device = some bridge := by
  unfold planNetem
  split <;> simp [NetOp.tc,NetOp.device,NetOp.afterDev]

theorem planDirectional_device (tap : String) (t : Option (ℕ × ℕ × ℕ)) :
    ∀ op ∈ planDirectional tap t, op.device = some tap := by
  unfold planDirectional
  split
  · simp
  · split_ifs <;> simp [NetOp.tc,NetOp.device,NetOp.afterDev]

theorem planNetem_eq (b : HostedBridge) :
    planNetem b.name b.inner.latencyMs b.inner.dropRatePct = match b.inner.targetNetem with
      | some (lat,drop) => [.tc (["qdisc","add","dev",b.name,"root","netem"]++netemClauses lat drop)]
      | none => [] := by
  unfold planNetem BridgeInner.targetNetem
  split <;> rfl

/-- Where nothing is realised of a VM, its qdiscs are installed as they are planned. -/
theorem directionalOps_eq {b : HostedBridge} {vm : String} (h : b.realizedDirectional.lookup vm = none) :
    b.directionalOps vm = planDirectional (b.tap vm) (b.inner.collapsedDirectionalFor vm) := by
  unfold directionalOps
  rw [h]
  cases htarget : b.inner.collapsedDirectionalFor vm with
  | none => simp [planDirectional]
  | some t =>
    obtain ⟨lat,drop,bps⟩ := t
    have hne := collapsed_proper htarget
    have hzero : ¬(lat = 0 ∧ drop = 0 ∧ bps = 0) := by
      rintro ⟨rfl,rfl,rfl⟩
      exact hne rfl
    simp only [reduceCtorEq,if_false,Option.isSome_none,Bool.false_eq_true,List.nil_append,planDirectional,
      if_neg hzero]
    rfl

theorem withoutOwner_planDirectional (tap : String) (t : Option (ℕ × ℕ × ℕ)) :
    (planDirectional tap t).map NetOp.withoutOwner = planDirectional tap t := by
  unfold planDirectional
  split
  · rfl
  · split_ifs <;> rfl

theorem withoutOwner_planNetem (bridge : String) (lat drop : ℕ) :
    (planNetem bridge lat drop).map NetOp.withoutOwner = planNetem bridge lat drop := by
  unfold planNetem
  split <;> rfl

theorem withoutOwner_tapOps {b : HostedBridge} {uid vm : String} (h : vm ∉ b.realizedTaps) :
    (b.tapOps uid vm).map NetOp.withoutOwner = planTap b.name (b.tap vm) := by
  rw [tapOps,if_neg h]
  rfl

theorem lookup_noteRealized {b : HostedBridge} {vm v : String} (h : v ≠ vm) :
    (b.noteRealized vm).realizedDirectional.lookup v = b.realizedDirectional.lookup v := by
  unfold noteRealized
  cases b.inner.collapsedDirectionalFor vm with
  | some t => exact AList.lookup_insert_ne h
  | none => exact AList.lookup_erase_ne h

theorem mem_taps_noteRealized {b : HostedBridge} {vm v : String} :
    v ∈ (b.noteRealized vm).realizedTaps ↔ v = vm ∨ v ∈ b.realizedTaps := List.mem_insert_iff

/-- All that is run for a VM once the bridge is up. -/
def vmOps (b : HostedBridge) (vm : String) : List NetOp :=
  planTap b.name (b.tap vm)++planDirectional (b.tap vm) (b.inner.collapsedDirectionalFor vm)

theorem realizeOps_of_realized {b : HostedBridge} {uid vm : String} (hrealized : b.realized = true)
    (hnetem : b.realizedNetem = b.inner.targetNetem) (htap : vm ∉ b.realizedTaps)
    (hdirectional : b.realizedDirectional.lookup vm = none) :
    (b.realizeOps uid vm).map NetOp.withoutOwner = b.vmOps vm := by
  have hbridge : b.bridgeOps = [] := by simp [bridgeOps,hrealized]
  have hnetem : b.netemOps = [] := by simp [netemOps,hnetem]
  rw [realizeOps,hbridge,hnetem,List.nil_append,List.nil_append,List.map_append,withoutOwner_tapOps htap,
    directionalOps_eq hdirectional,withoutOwner_planDirectional,vmOps]

theorem realizeEach_of_realized {uid : String} {vms : List String} (hvms : vms.Nodup) {b : HostedBridge}
    (hrealized : b.realized = true) (hnetem : b.realizedNetem = b.inner.targetNetem)
    (htaps : ∀ vm ∈ vms, vm ∉ b.realizedTaps)
    (hdirectional : ∀ vm ∈ vms, b.realizedDirectional.lookup vm = none) :
    (b.realizeEach uid vms).map NetOp.withoutOwner = vms.flatMap b.vmOps := by
  induction vms generalizing b with
  | nil => rfl
  | cons vm vms ih =>
    obtain ⟨hvm,hvms⟩ := List.nodup_cons.mp hvms
    have hne : ∀ v ∈ vms, v ≠ vm := fun v hv heq => hvm (heq ▸ hv)
    rw [realizeEach,List.map_append,List.flatMap_cons,realizeOps_of_realized hrealized hnetem
      (htaps vm List.mem_cons_self) (hdirectional vm List.mem_cons_self)]
    refine congrArg (b.vmOps vm++·) ?_
    refine ih hvms rfl rfl (fun v hv => ?_) fun v hv => ?_
    · rw [mem_taps_noteRealized,not_or]
      exact ⟨hne v hv,htaps v (List.mem_cons_of_mem vm hv)⟩
    · rw [lookup_noteRealized (hne v hv)]
      exact hdirectional v (List.mem_cons_of_mem vm hv)

/-- The first VM brings the bridge up. -/
theorem realizeEach_of_unrealized {b : HostedBridge} (hb : b.Unrealized) {uid vm : String} {vms : List String}
    (hvms : (vm::vms).Nodup) :
    (b.realizeEach uid (vm::vms)).map NetOp.withoutOwner =
      [.ip ["link","add",b.name,"type","bridge"],.ip ["link","set","dev",b.name,"up"]]++
      planNetem b.name b.inner.latencyMs b.inner.dropRatePct++(vm::vms).flatMap b.vmOps := by
  obtain ⟨hvm,hvms⟩ := List.nodup_cons.mp hvms
  have hne : ∀ v ∈ vms, v ≠ vm := fun v hv heq => hvm (heq ▸ hv)
  have hbridge : b.bridgeOps =
      [.ip ["link","add",b.name,"type","bridge"],.ip ["link","set","dev",b.name,"up"]] := by
    simp [bridgeOps,hb.bridge]
  have hnetem : b.netemOps = planNetem b.name b.inner.latencyMs b.inner.dropRatePct := by
    rw [planNetem_eq,netemOps,hb.netem]
    cases b.inner.targetNetem with
    | none => rfl
    | some target => rfl
  have htap : ∀ v, v ∉ b.realizedTaps := fun v => hb.taps ▸ List.not_mem_nil
  have hdirectional : ∀ v, b.realizedDirectional.lookup v = none := fun v => by
    rw [hb.directional]
    exact AList.lookup_empty v
  have hrest : ((b.noteRealized vm).realizeEach uid vms).map NetOp.withoutOwner = vms.flatMap b.vmOps := by
    refine realizeEach_of_realized hvms rfl rfl (fun v hv => ?_) fun v hv => ?_
    · rw [mem_taps_noteRealized,not_or]
      exact ⟨hne v hv,htap v⟩
    · rw [lookup_noteRealized (hne v hv)]
      exact hdirectional v
  rw [realizeEach,List.map_append,hrest,realizeOps,hbridge,hnetem,directionalOps_eq (hdirectional vm),
    List.map_append,List.map_append,List.map_append,withoutOwner_tapOps (htap vm),withoutOwner_planDirectional,
    withoutOwner_planNetem,List.flatMap_cons,vmOps]
  simp only [List.append_assoc]
  rfl

theorem vmOps_device (b : HostedBridge) (vm : String) : ∀ op ∈ b.vmOps vm, op.device = some (b.tap vm) := by
  intro op hop
  obtain hop | hop := List.mem_append.mp hop
  · exact planTap_device _ _ op hop
  · exact planDirectional_device _ _ op hop

theorem linkOps_device (bridge : String) :
    ∀ op ∈ [NetOp.ip ["link","add",bridge,"type","bridge"],NetOp.ip ["link","set","dev",bridge,"up"]],
      op.device = some bridge := by
  simp [NetOp.ip,NetOp.device,NetOp.afterDev]

theorem nodup_members (b : BridgeInner) : b.members.Nodup :=
  (List.perm_insertionSort _ _).nodup_iff.mpr (List.nodup_dedup _)

/-- What is planned of one interface, where no two share a name. -/
theorem planFor_device {b : HostedBridge} (hnames : (b.name::b.inner.members.map b.tap).Nodup) (dev : String) :
    b.planFor.filter (fun op => op.device = some dev) =
      (if b.name = dev then
        [.ip ["link","add",b.name,"type","bridge"],.ip ["link","set","dev",b.name,"up"]]++
          planNetem b.name b.inner.latencyMs b.inner.dropRatePct
      else [])++b.inner.members.flatMap fun vm => if b.tap vm = dev then b.vmOps vm else [] := by
  obtain ⟨hname,htaps⟩ := List.nodup_cons.mp hnames
  rw [planFor,List.filter_append,List.filter_append,List.filter_append,
    filter_device_of_forall (linkOps_device b.name),filter_device_of_forall (planNetem_device _ _ _),
    filter_device_flatMap fun vm => planTap_device b.name (b.tap vm),
    filter_device_flatMap fun vm => planDirectional_device (b.tap vm) (b.inner.collapsedDirectionalFor vm)]
  by_cases hdev : ∃ vm ∈ b.inner.members, b.tap vm = dev
  · obtain ⟨vm,hvm,rfl⟩ := hdev
    have hne : b.name ≠ b.tap vm := fun heq => hname (heq ▸ List.mem_map_of_mem hvm)
    simp only [if_neg hne,flatMap_ite_of_mem hvm htaps,List.nil_append,List.append_nil,vmOps]
  · push Not at hdev
    simp only [flatMap_ite_of_forall hdev,List.append_nil]
    split <;> rfl

/-- What is run of one interface. -/
theorem realizeEach_device {b : HostedBridge} (hb : b.Unrealized) {uid : String} {vms : List String}
    (hvms : vms.Nodup) (hne : vms ≠ []) (dev : String) :
    ((b.realizeEach uid vms).map NetOp.withoutOwner).filter (fun op => op.device = some dev) =
      (if b.name = dev then
        [.ip ["link","add",b.name,"type","bridge"],.ip ["link","set","dev",b.name,"up"]]++
          planNetem b.name b.inner.latencyMs b.inner.dropRatePct
      else [])++vms.flatMap fun vm => if b.tap vm = dev then b.vmOps vm else [] := by
  obtain ⟨vm,vms,rfl⟩ := List.exists_cons_of_ne_nil hne
  rw [realizeEach_of_unrealized hb hvms,List.filter_append,List.filter_append,
    filter_device_of_forall (linkOps_device b.name),filter_device_of_forall (planNetem_device _ _ _),
    filter_device_flatMap b.vmOps_device]
  split <;> rfl

end HostedBridge

namespace Site

/-- The bridge is up, or nothing of it is. -/
def Settled (s : Site) : Prop := s.bridge.realized = true ∨ s.bridge.Unrealized

theorem Settled.keep {s s' : Site} (h : s.Settled)
    (hup : s.bridge.realized = true → s'.bridge.realized = true)
    (hdown : s.bridge.realized = false → s'.bridge = s.bridge) : s'.Settled := by
  obtain h | h := h
  · exact .inl (hup h)
  · refine .inr ?_
    rw [hdown h.bridge]
    exact h

theorem Settled.refreshPartitions {s : Site} (h : s.Settled) : s.refreshPartitions.Settled := by
  unfold Site.refreshPartitions
  split <;> exact h

theorem Settled.refreshNetem {s : Site} (h : s.Settled) : s.refreshNetem.Settled := by
  refine h.keep (fun hr => ?_) fun hr => ?_
  · unfold Site.refreshNetem
    split
    · exact hr
    · split <;> exact hr
  · simp [Site.refreshNetem,hr]

theorem Settled.refreshBandwidth {s : Site} (h : s.Settled) : s.refreshBandwidth.Settled := by
  unfold Site.refreshBandwidth
  split
  · exact h
  · split
    · dsimp only
      split
      · refine Settled.refreshNetem ?_
        exact h
      · exact h
    · split <;> exact h

theorem Settled.realizeForVm {s : Site} (h : s.Settled) (vm : String) : (s.realizeForVm vm).1.Settled := by
  unfold Site.realizeForVm
  dsimp only
  split
  · exact .inl rfl
  · exact h

theorem Settled.realizeAll {s : Site} (h : s.Settled) (vms : List String) : (s.realizeAll vms).Settled := by
  induction vms generalizing s with
  | nil => exact h
  | cons vm vms ih =>
    unfold Site.realizeAll
    split
    · exact ih (h.realizeForVm vm)
    · exact h.realizeForVm vm

theorem Settled.refreshDirectional {s : Site} (h : s.Settled) : s.refreshDirectional.Settled := by
  unfold Site.refreshDirectional
  split
  · exact h.realizeAll _
  · exact h

theorem Settled.refreshUplink {s : Site} (h : s.Settled) : s.refreshUplink.Settled := by
  unfold Site.refreshUplink
  split
  · exact h
  · exact h.imp id fun h => ⟨h.bridge,h.netem,h.taps,h.directional⟩

theorem Settled.dropTap {s : Site} (h : s.Settled) (vm : String) : (s.dropTap vm).Settled := by
  refine h.imp id fun h => ⟨h.bridge,h.netem,?_,h.directional⟩
  change s.bridge.realizedTaps.filter _ = []
  rw [h.taps,List.filter_nil]

theorem Settled.recorded {s : Site} (h : s.Settled) (op : BridgeOp) : (s.recorded op).Settled :=
  h.imp id fun h => ⟨h.bridge,h.netem,h.taps,h.directional⟩

theorem Settled.apply {s : Site} (h : s.Settled) (call : HostCall) : (s.apply call).1.Settled := by
  cases call with
  | realizeForVm vm => exact h.realizeForVm vm
  | unrealize => exact .inr ⟨rfl,rfl,rfl,rfl⟩
  | record op =>
    have hr := h.recorded op
    cases op with
    | attach _ | route _ => exact hr
    | detach vm => exact (hr.dropTap vm).refreshPartitions
    | partition _ _ | unpartition _ _ | partitionDirectional _ _ | unpartitionDirectional _ _
    | partitionAll | restoreAll | isolate _ | unisolate _ => exact hr.refreshPartitions
    | reset => exact hr.refreshPartitions.refreshNetem.refreshBandwidth.refreshDirectional
    | addLatency _ | dropRate _ => exact hr.refreshNetem
    | bandwidthLimit _ => exact hr.refreshBandwidth
    | addDirectionalLatency _ _ _ | directionalDropRate _ _ _ | setDirectionalBandwidth _ _ _ =>
      exact hr.refreshDirectional
    | enableUplink | disableUplink => exact hr.refreshUplink

/-- The site after the calls. -/
def applyAll (s : Site) (calls : List HostCall) : Site := calls.foldl (fun s call => (s.apply call).1) s

/-- A bridge that is not up after any calls has nothing on the host. -/
theorem unrealized_applyAll {name : String} {host : Host} {calls : List HostCall}
    (h : (applyAll ⟨.new name,host⟩ calls).bridge.realized = false) :
    (applyAll ⟨.new name,host⟩ calls).bridge.Unrealized := by
  have hsettled : ∀ (calls : List HostCall) (s : Site), s.Settled → (s.applyAll calls).Settled := by
    intro calls
    induction calls with
    | nil => exact fun _ h => h
    | cons call calls ih => exact fun s hs => ih _ (hs.apply call)
  obtain hup | hdown := hsettled calls ⟨.new name,host⟩ (.inr ⟨rfl,rfl,rfl,rfl⟩)
  · exact absurd (h.symm.trans hup) (by decide)
  · exact hdown

end Site

/-- A bridge that has members, of which no two share an interface's name, is realised as it is planned, in
whatever order they come. -/
theorem realize_follows_plan (b : HostedBridge) (uid : String) (vms : List String) (dev : String)
    (hb : b.Unrealized) (hvms : vms.Perm b.inner.members) (hmember : b.inner.members ≠ [])
    (hnames : (b.name::b.inner.members.map b.tap).Nodup) :
    ((b.realizeEach uid vms).map NetOp.withoutOwner).filter (fun op => op.device = some dev) =
      b.planFor.filter fun op => op.device = some dev := by
  have hnodup : vms.Nodup := hvms.nodup_iff.mpr (HostedBridge.nodup_members b.inner)
  have hne : vms ≠ [] := fun hnil => hmember (List.nil_perm.mp (hnil ▸ hvms))
  rw [HostedBridge.realizeEach_device hb hnodup hne,HostedBridge.planFor_device hnames]
  refine (List.append_right_inj _).mpr ?_
  by_cases hdev : ∃ vm ∈ vms, b.tap vm = dev
  · obtain ⟨vm,hvm,rfl⟩ := hdev
    have htaps := (List.nodup_cons.mp hnames).2
    rw [flatMap_ite_of_mem (hvms.mem_iff.mp hvm) htaps,
      flatMap_ite_of_mem hvm ((hvms.map b.tap).nodup_iff.mpr htaps)]
  · push Not at hdev
    rw [flatMap_ite_of_forall hdev,flatMap_ite_of_forall fun vm hvm => hdev vm (hvms.mem_iff.mpr hvm)]

/-- Two VMs on a bridge with every kind of impairment, after it was up for one of them and taken down. -/
def shapedCalls : List HostCall :=
  [.record (.attach "dc1"),.record (.attach "dc2"),.realizeForVm "dc1",.record (.addLatency 5),.unrealize,
    .record (.setDirectionalBandwidth "dc1" "dc2" 1000000),.record (.directionalDropRate "dc1" "dc2" 3)]

def shapedBridge : HostedBridge :=
  (Site.applyAll ⟨.new "lan",⟨fun _ => none,fun _ _ => none,none⟩⟩ shapedCalls).bridge

theorem realize_follows_plan_two :
    ((shapedBridge.realizeEach "1000" ["dc2","dc1"]).map NetOp.withoutOwner).filter
        (fun op => op.device = some (shapedBridge.tap "dc1")) =
      shapedBridge.planFor.filter fun op => op.device = some (shapedBridge.tap "dc1") := by
  have hdown : shapedBridge.realized = false := by decide +kernel
  exact realize_follows_plan shapedBridge "1000" ["dc2","dc1"] (shapedBridge.tap "dc1")
    (Site.unrealized_applyAll hdown) (by decide +kernel) (by decide +kernel) (by decide +kernel)

/-- Two VMs whose TAPs have one name. -/
def crowdedBridge : HostedBridge :=
  let ops : List BridgeOp := [.attach "node60399",.attach "node129982",
    .addDirectionalLatency "node129982" "node60399" 5]
  { HostedBridge.new "lan" with inner := BridgeInner.new.applyAll ops }

/-- The bridge of no member is planned and never made, and where TAPs share a name the plan makes both before
it shapes one. -/
theorem realize_strays_from_plan :
    (HostedBridge.new "lan").planFor = [.ip ["link","add","lan","type","bridge"],.ip ["link","set","dev","lan","up"]] ∧
      (HostedBridge.new "lan").realizeEach "1000" (HostedBridge.new "lan").inner.members = [] ∧
      ((crowdedBridge.realizeEach "1000" crowdedBridge.inner.members).map NetOp.withoutOwner).filter
          (fun op => op.device = some "tap-nodecb4d3cf") ≠
        crowdedBridge.planFor.filter (fun op => op.device = some "tap-nodecb4d3cf") ∧
      ¬∀ (b : HostedBridge) (uid dev : String), b.Unrealized →
        ((b.realizeEach uid b.inner.members).map NetOp.withoutOwner).filter (fun op => op.device = some dev) =
          b.planFor.filter fun op => op.device = some dev := by
  refine ⟨by decide +kernel,by decide +kernel,by decide +kernel,fun h => ?_⟩
  have hlan := h (.new "lan") "1000" "lan" ⟨rfl,rfl,rfl,rfl⟩
  exact absurd hlan (by decide +kernel)

end Provium.Lab
