import Provium.Lib.Machine
import Provium.Lib.Splice
import Provium.Lab.Members
import Provium.Host.Instances
import Provium.Scheduler.Amount

/-! What the VMs of a file hold of the pool: the reservation a solo boot leaves with its VM and the
joint ones that `boot_with_pool` leaves with a lab. The operations follow one another, as the file
calls them; what the pool, the backend and the operating system answer is part of the actions. A
profile that is not known changes nothing and is left out, and so are the disks and the bridges. -/
namespace Provium.Lab
open Lib Provium.Host Provium.Scheduler

/-- What `BootOpts` declares of the machine's size. -/
structure BootOpts where
  memoryBytes : Option UInt64
  cpus : Option UInt32
  deriving DecidableEq, Repr

def defaultMemoryBytes : UInt64 := 512*1024*1024
def defaultCpus : UInt32 := 1

def vmmOverheadBytes : ℕ := 100*1024*1024

theorem vmmOverheadBytes_le : vmmOverheadBytes ≤ Axis.memory.max := by decide

theorem zero_le_cpus : 0 ≤ Axis.cpus.max := Nat.zero_le _

/-- The overhead as an amount. -/
def vmmOverhead : ResourceAmount := ⟨vmmOverheadBytes,0,vmmOverheadBytes_le,zero_le_cpus⟩

namespace BootOpts

def sizing (o : BootOpts) : ResourceAmount where
  memoryBytes := (o.memoryBytes.getD defaultMemoryBytes).toNat
  cpus := (o.cpus.getD defaultCpus).toNat
  memoryBytes_le := Nat.le_sub_one_of_lt (UInt64.toNat_lt _)
  cpus_le := Nat.le_sub_one_of_lt (UInt32.toNat_lt _)

/-- What both boots ask the pool for. -/
def asked (o : BootOpts) : ResourceAmount := o.sizing.saturatingAdd vmmOverhead

/-- What a machine of this size costs. -/
def cost (o : BootOpts) (x : Axis) : ℕ := o.sizing.on x+vmmOverhead.on x

end BootOpts

/-- `Hold`: of the pool, or a slice of the file's claim. -/
structure Hold where
  ofClaim : Bool
  amount : ResourceAmount
  deriving DecidableEq, Repr

/-- Where a hold is kept: with a VM, or among the joint reservations of a lab. -/
inductive HoldRef where
  | own (v : ℕ)
  | joint (l k : ℕ)
  deriving DecidableEq, Repr

/-- What the backend answers a shutdown, and whether the machine runs on after a failure: the drop
of the instance tries it once more. -/
structure Stop where
  result : Except VmmError Unit
  runsOn : Bool

def Stop.stopped (a : Stop) : Bool := a.result.toBool || !a.runsOn

/-- A VM of the file. -/
structure LabVm (I C : Type) where
  name : String
  opts : BootOpts
  /-- The handle has the pool. -/
  pool : Bool
  inner : VmInner I C Hold
  /-- Its machine has been launched or restored and has not been stopped. -/
  alive : Bool
  /-- The hold that the launch was charged to, a matter of record. -/
  charged : Option HoldRef

inductive FileError where
  | lab (e : LabError)
  | vm (e : VmError)
  | bootRefused (reason : String)
  | restoreFailed (name : String) (e : VmError)
  | batchFailed (action : String) (failures : List (ℕ × VmError))
  deriving DecidableEq

variable {I C : Type}

namespace LabVm

/-- `Vm::boot`, by what came of its reservation. A hold whose launch fails is dropped. -/
def boot (vm : LabVm I C) (reservation : Except VmError (Option Hold)) (charged : Option HoldRef)
    (launch : Except VmError (Launched I C)) : LabVm I C × Except VmError Unit :=
  if vm.inner.state = .created then
    match reservation,launch with
    | .error e,_ => (vm,.error e)
    | .ok _,.error e => (vm,.error e)
    | .ok hold,.ok r =>
      ({ vm with inner := (vm.inner.boot vm.name r hold).1, alive := true, charged },.ok ())
  else (vm,.error (.wrongState vm.name vm.inner.state "boot"))

/-- What a solo boot holds: nothing, where the handle has no pool. -/
def reserve (vm : LabVm I C) (answer : Except VmError Bool) : Except VmError (Option Hold) :=
  if vm.pool then answer.map fun ofClaim => some ⟨ofClaim,vm.opts.asked⟩ else .ok none

def shutdown (vm : LabVm I C) (answer : Stop) : LabVm I C × Except VmError Unit :=
  let q := vm.inner.shutdown answer.result
  ({ vm with
      inner := q.1
      alive := vm.alive && !(vm.inner.stops.isSome && answer.stopped) },
    match q.2 with
    | .done result => result
    | _ => .ok ())

/-- The last handle is dropped. -/
def drop (vm : LabVm I C) (answer : Stop) : LabVm I C :=
  { vm with inner := vm.inner.drop.1, alive := vm.alive && !answer.stopped }

end LabVm

/-- `Lab::batch`: the operation on each member, and what failed. The members are different VMs but
for one that is listed twice, whose turns follow one another. -/
def batch (op : ℕ → LabVm I C → LabVm I C × Except VmError Unit) :
    List (LabVm I C) → List ℕ → List (LabVm I C) × List (ℕ × VmError)
  | vms,[] => (vms,[])
  | vms,v::members =>
    match vms[v]? with
    | none => batch op vms members
    | some vm =>
      let q := op v vm
      let r := batch op (vms.set v q.1) members
      (r.1,match q.2 with
        | .ok () => r.2
        | .error e => (v,e)::r.2)

structure FileHolds (I C : Type) where
  labs : Labs Hold
  vms : List (LabVm I C)

inductive HoldAction (I C : Type) where
  | createVm (l : ℕ) (name : String) (opts : BootOpts)
  /-- `answer` is the pool's, with whether the hold is of the claim. -/
  | bootVm (v : ℕ) (answer : Except VmError Bool) (launch : Except VmError (Launched I C))
  /-- `fuel` bounds the walk of the members. -/
  | bootLab (l fuel : ℕ) (answer : Except String Bool)
    (launches : ℕ → Except VmError (Launched I C))
  /-- `stop` is for a VM that is not taken into the lab. -/
  | restoreVm (l : ℕ) (name : String) (opts : BootOpts) (result : Except VmError (Launched I C))
    (stop : Stop)
  | subLab (l : ℕ) (name : String)
  | includeVm (l v : ℕ)
  | shutdownVm (v : ℕ) (stop : Stop)
  | shutdownLab (l fuel : ℕ) (stops : ℕ → Stop)

/-- The result of a batch. -/
def batchResult (action : String) (failures : List (ℕ × VmError)) : Except FileError Unit :=
  if failures = [] then .ok () else .error (.batchFailed action failures)

namespace FileHolds

/-- The root lab of a file, which has the pool. -/
def start : FileHolds I C := ⟨Labs.new [] "provium" true,[]⟩

/-- `collect_all_vms`: the walk of `gather_into`, where the fuel is enough for it. -/
def collectAllVms (s : FileHolds I C) (fuel l : ℕ) : Option (List ℕ) :=
  match s.labs.graph.visit^[fuel] ([l],[]) with
  | ([],members) => some members
  | (_::_,_) => none

def isCreated (s : FileHolds I C) (v : ℕ) : Bool :=
  (s.vms[v]?).any fun vm => vm.inner.state = .created

/-- The sum over the members in Created. -/
def needed (s : FileHolds I C) (members : List ℕ) : ResourceAmount :=
  (members.filter s.isCreated).foldl
    (fun acc v => acc.saturatingAdd ((s.vms[v]?).elim default fun vm => vm.opts.asked)) default

/-- The joint reservation of `boot_with_pool`: none where nothing is needed. -/
def reserveJointly (s : FileHolds I C) (members : List ℕ) (answer : Except String Bool) :
    Except String (Option Hold) :=
  if (s.needed members).isZero then .ok none
  else answer.map fun ofClaim => some ⟨ofClaim,s.needed members⟩

/-- The batch of `boot_with_pool`: the members boot without the pool. -/
def bootMembers (s : FileHolds I C) (l : ℕ) (node : LabInner Hold) (members : List ℕ)
    (launches : ℕ → Except VmError (Launched I C)) : List (LabVm I C) × List (ℕ × VmError) :=
  batch (fun v vm => vm.boot (.ok none) (some (.joint l node.bootReservations.length)) (launches v))
    s.vms members

/-- `boot_with_pool`: the hold is kept where all members have booted. -/
def bootWithPool (s : FileHolds I C) (l : ℕ) (node : LabInner Hold) (members : List ℕ)
    (answer : Except String Bool) (launches : ℕ → Except VmError (Launched I C)) :
    FileHolds I C × Except FileError Unit :=
  match s.reserveJointly members answer with
  | .error reason => (s,.error (.bootRefused reason))
  | .ok hold =>
    let q := s.bootMembers l node members launches
    let kept := if q.2 = [] then hold.toList else []
    (⟨s.labs.push l node kept,q.1⟩,batchResult "boot" q.2)

/-- `Lab::shutdown`: the joint reservations go whatever comes of the batch. -/
def shutdownLab (s : FileHolds I C) (l : ℕ) (node : LabInner Hold) (members : List ℕ)
    (stops : ℕ → Stop) : FileHolds I C × Except FileError Unit :=
  let q := batch (fun v vm => vm.shutdown (stops v)) s.vms members
  (⟨s.labs.set l { node with bootReservations := [] },q.1⟩,batchResult "shutdown" q.2)

/-- `restore_vm`, with what the backend made of the snapshot. It asks the pool for nothing. -/
def restoreVm (s : FileHolds I C) (l : ℕ) (node : LabInner Hold) (name : String) (opts : BootOpts)
    (stop : Stop) : Except VmError (Launched I C) → FileHolds I C × Except FileError Unit
  | .error e => (s,.error (.restoreFailed name e))
  | .ok r =>
    let vm : LabVm I C := ⟨name,opts,false,⟨.booted,some r.resources,none⟩,true,none⟩
    match s.labs.insertVm l node name s.vms.length with
    | .error e => (⟨s.labs,s.vms++[vm.drop stop]⟩,.error (.lab e))
    | .ok labs => (⟨labs,s.vms++[vm]⟩,.ok ())

def withLabs (s : FileHolds I C) (result : Except LabError (Labs Hold)) :
    FileHolds I C × Except FileError Unit :=
  match result with
  | .error e => (s,.error (.lab e))
  | .ok labs => ({ s with labs },.ok ())

/-- A VM after one of its own operations. -/
def withVm (s : FileHolds I C) (v : ℕ) (q : LabVm I C × Except VmError Unit) :
    FileHolds I C × Except FileError Unit :=
  ({ s with vms := s.vms.set v q.1 },q.2.mapError .vm)

def step (s : FileHolds I C) : HoldAction I C → Option (FileHolds I C × Except FileError Unit)
  | .createVm l name opts =>
    (s.labs[l]?).map fun node =>
      match s.labs.includeVm l node name s.vms.length with
      | .error e => (s,.error (.lab e))
      | .ok labs => (⟨labs,s.vms++[⟨name,opts,node.pool,⟨.created,none,none⟩,false,none⟩]⟩,.ok ())
  | .bootVm v answer launch =>
    (s.vms[v]?).map fun vm =>
      s.withVm v (vm.boot (vm.reserve answer) (if vm.pool then some (.own v) else none) launch)
  | .bootLab l fuel answer launches =>
    (s.labs[l]?).bind fun node => (s.collectAllVms fuel l).map fun members =>
      s.bootWithPool l node members answer launches
  | .restoreVm l name opts result stop =>
    (s.labs[l]?).map fun node => s.restoreVm l node name opts stop result
  | .subLab l name => (s.labs[l]?).map fun node => s.withLabs (s.labs.subLab l node name)
  | .includeVm l v =>
    (s.labs[l]?).bind fun node => (s.vms[v]?).map fun vm =>
      s.withLabs (s.labs.includeVm l node vm.name v)
  | .shutdownVm v stop => (s.vms[v]?).map fun vm => s.withVm v (vm.shutdown stop)
  | .shutdownLab l fuel stops =>
    (s.labs[l]?).bind fun node => (s.collectAllVms fuel l).map fun members =>
      s.shutdownLab l node members stops

/-- The hold that is kept there. -/
def hold (s : FileHolds I C) : HoldRef → Option Hold
  | .own v => (s.vms[v]?).bind fun vm => vm.inner.bootReservation
  | .joint l k => s.labs.joint l k

/-- The VMs whose machine runs. -/
def running (s : FileHolds I C) : Finset ℕ :=
  (Finset.range s.vms.length).filter fun v => (s.vms[v]?).any LabVm.alive

def cost (s : FileHolds I C) (x : Axis) (v : ℕ) : ℕ :=
  (s.vms[v]?).elim 0 fun vm => vm.opts.cost x

def held (s : FileHolds I C) (x : Axis) (r : HoldRef) : ℕ :=
  (s.hold r).elim 0 fun h => h.amount.on x

def charged (s : FileHolds I C) (v : ℕ) : Option HoldRef := (s.vms[v]?).bind LabVm.charged

/-- A live hold that can cover the VM: its own, or a joint one of the lab whose boot launched it. -/
def Serves (s : FileHolds I C) (r : HoldRef) (v : ℕ) : Prop :=
  (s.hold r).isSome ∧
    match r with
    | .own u => u = v
    | .joint l _ => ∃ k, s.charged v = some (.joint l k)

/-- Every running VM is covered, and the covering holds are enough for all of them. -/
def Paid (s : FileHolds I C) : Prop :=
  ∃ cover : ℕ → HoldRef, (∀ v ∈ s.running, s.Serves (cover v) v) ∧
    ∀ x, ∑ v ∈ s.running, s.cost x v ≤ ∑ r ∈ s.running.image cover, s.held x r

end FileHolds

/-- A shutdown leaves no machine without the reservation of its own: where the VM has one, it still
has its instance. -/
def LabVm.Stoppable (vm : LabVm I C) : Prop :=
  vm.alive = true → vm.inner.bootReservation ≠ none → vm.inner.vmInstance ≠ none

/-- Every member is in Created and is launched, each once, and their sum is within the types. -/
structure FileHolds.BootsWhole (s : FileHolds I C) (members : List ℕ)
    (launches : ℕ → Except VmError (Launched I C)) : Prop where
  once : members.Nodup
  created : ∀ v ∈ members, s.isCreated v = true
  launched : ∀ v ∈ members, ∃ r, launches v = .ok r
  fits : ∀ x, (members.map (s.cost x)).sum ≤ x.max

/-- A lab's shutdown stops every VM that its boots launched, and shuts none down again that has a
reservation of its own and runs on. -/
structure FileHolds.StopsWhole (s : FileHolds I C) (l : ℕ) (members : List ℕ) (stops : ℕ → Stop) :
    Prop where
  stoppable : ∀ v ∈ members, ∀ vm, s.vms[v]? = some vm → vm.Stoppable
  again : ∀ v ∈ members, ∀ vm, s.vms[v]? = some vm → vm.alive = true →
    vm.inner.bootReservation ≠ none → (stops v).stopped = true ∨ members.count v = 1
  launched : ∀ v vm k, s.vms[v]? = some vm → vm.alive = true → vm.charged = some (.joint l k) →
    v ∈ members ∧ vm.inner.stops.isSome ∧ (stops v).stopped = true

/-- What a file has to keep to for its VMs to stay paid for. -/
def FileHolds.Charges (s : FileHolds I C) : HoldAction I C → Prop
  -- a solo boot is of a VM with the pool, and what it asks for is within the types
  | .bootVm v answer launch => ∀ vm, s.vms[v]? = some vm → vm.inner.state = .created →
    ∀ r, launch = .ok r → vm.pool = true ∧ ∀ b, answer = .ok b → ∀ x, vm.opts.cost x ≤ x.max
  -- a lab is booted whole or not at all
  | .bootLab l fuel answer launches => ∀ members, s.collectAllVms fuel l = some members →
    (∃ e, answer = .error e) ∨ (∀ v ∈ members, s.isCreated v = true → ∃ e, launches v = .error e) ∨
      s.BootsWhole members launches
  -- a restored machine is stopped at once, its name being taken
  | .restoreVm l name _ result stop => ∀ r, result = .ok r → stop.stopped = true ∧
    ∀ node, s.labs[l]? = some node → name ∈ node.vms
  | .shutdownVm v _ => ∀ vm, s.vms[v]? = some vm → vm.Stoppable
  | .shutdownLab l fuel stops => ∀ members, s.collectAllVms fuel l = some members →
    s.StopsWhole l members stops
  | _ => True

def holdMachine (I C : Type) : Machine (FileHolds I C) (HoldAction I C) (Except FileError Unit) :=
  ⟨FileHolds.step⟩

section Cover
variable {s s' : FileHolds I C} {v : ℕ} {vm vm' : LabVm I C}

/-- The running VMs whose launch was charged to this hold. -/
def FileHolds.payers (s : FileHolds I C) (r : HoldRef) : Finset ℕ :=
  s.running.filter fun v => s.charged v = some r

theorem mem_running : v ∈ s.running ↔ ∃ vm, s.vms[v]? = some vm ∧ vm.alive = true := by
  simp only [FileHolds.running,Finset.mem_filter,Finset.mem_range,Option.any_eq_true]
  constructor
  · intro h
    exact h.2
  · rintro ⟨vm,hv,ha⟩
    exact ⟨(List.getElem?_eq_some_iff.mp hv).1,vm,hv,ha⟩

theorem mem_payers {r : HoldRef} : v ∈ s.payers r ↔
    ∃ vm, s.vms[v]? = some vm ∧ vm.alive = true ∧ vm.charged = some r := by
  rw [FileHolds.payers,Finset.mem_filter,mem_running]
  constructor
  · rintro ⟨⟨vm,hv,ha⟩,hc⟩
    rw [FileHolds.charged,hv] at hc
    exact ⟨vm,hv,ha,hc⟩
  · rintro ⟨vm,hv,ha,hc⟩
    refine ⟨⟨vm,hv,ha⟩,?_⟩
    rw [FileHolds.charged,hv]
    exact hc

structure HoldInv (s : FileHolds I C) : Prop where
  acyclic : Acyclic s.labs
  fresh : ∀ (v : ℕ) (vm : LabVm I C), s.vms[v]? = some vm → vm.inner.state = .created → vm.alive = false
  /-- The hold that the launch of a running VM was charged to is live. -/
  charged : ∀ (v : ℕ) (vm : LabVm I C), s.vms[v]? = some vm → vm.alive = true →
    ∃ r, vm.charged = some r ∧ (s.hold r).isSome ∧ ∀ u, r = .own u → u = v
  /-- Each hold is enough for what is charged to it. -/
  enough : ∀ r h, s.hold r = some h → ∀ x, ∑ v ∈ s.payers r, s.cost x v ≤ h.amount.on x

theorem holdInv_start : HoldInv (.start : FileHolds I C) := by
  refine ⟨acyclic_new _ _,?_,?_,?_⟩
  · intro v vm hv
    cases hv
  · intro v vm hv
    cases hv
  · intro r h _ x
    have hnone : (FileHolds.start : FileHolds I C).payers r = ∅ := by
      apply Finset.eq_empty_of_forall_notMem
      intro v hv
      obtain ⟨vm,hv,-⟩ := mem_payers.mp hv
      cases hv
    rw [hnone,Finset.sum_empty]
    exact Nat.zero_le _

/-- The holds that the launches were charged to are a cover. -/
theorem HoldInv.paid (h : HoldInv s) : s.Paid := by
  have hcover : ∀ v ∈ s.running, ∃ r, s.charged v = some r ∧ (s.hold r).isSome ∧
      ∀ u, r = .own u → u = v := by
    intro v hv
    obtain ⟨vm,hv,ha⟩ := mem_running.mp hv
    obtain ⟨r,hc,hr⟩ := h.charged v vm hv ha
    refine ⟨r,?_,hr⟩
    rw [FileHolds.charged,hv]
    exact hc
  let cover := fun v => (s.charged v).getD (.own v)
  have hget : ∀ v ∈ s.running, s.charged v = some (cover v) := by
    intro v hv
    obtain ⟨r,hc,-⟩ := hcover v hv
    simp only [cover,hc,Option.getD_some]
  refine ⟨cover,?_,?_⟩
  · intro v hv
    obtain ⟨r,hc,hsome,hown⟩ := hcover v hv
    have hr : cover v = r := by
      rw [hget v hv] at hc
      exact Option.some.inj hc
    rw [hr]
    refine ⟨hsome,?_⟩
    cases r with
    | own u => exact hown u rfl
    | joint l k => exact ⟨k,hc⟩
  · intro x
    rw [← Finset.sum_fiberwise_of_maps_to fun v hv => Finset.mem_image_of_mem cover hv]
    apply Finset.sum_le_sum
    intro r hr
    obtain ⟨u,hu,rfl⟩ := Finset.mem_image.mp hr
    obtain ⟨r,hc,hsome,-⟩ := hcover u hu
    obtain ⟨hold,hhold⟩ := Option.isSome_iff_exists.mp hsome
    have hr : cover u = r := by
      rw [hget u hu] at hc
      exact Option.some.inj hc
    have hpayers : (s.running.filter fun v => cover v = cover u) = s.payers r := by
      apply Finset.filter_congr
      intro v hv
      rw [hget v hv,hr,Option.some_inj]
    rw [hpayers,FileHolds.held,hr,hhold]
    exact h.enough r hold hhold x

/-- What becomes of a VM that no launch is about: where its machine runs on, nothing that matters
has changed. -/
structure Winds (vm vm' : LabVm I C) : Prop where
  alive : vm'.alive = true → vm.alive = true
  charged : vm'.charged = vm.charged
  opts : vm'.opts = vm.opts
  reservation : vm'.alive = true → vm'.inner.bootReservation = vm.inner.bootReservation

theorem Winds.refl (vm : LabVm I C) : Winds vm vm := ⟨id,rfl,rfl,fun _ => rfl⟩

theorem Winds.trans {vm'' : LabVm I C} (h : Winds vm vm') (h' : Winds vm' vm'') : Winds vm vm'' :=
  ⟨fun ha => h.alive (h'.alive ha),h'.charged.trans h.charged,h'.opts.trans h.opts,
    fun ha => (h'.reservation ha).trans (h.reservation (h'.alive ha))⟩

/-- A running VM that was running before, with the joint reservation it is charged to untouched. -/
def Kept (s s' : FileHolds I C) (v : ℕ) (vm' : LabVm I C) : Prop :=
  ∃ vm, s.vms[v]? = some vm ∧ Winds vm vm' ∧
    ∀ l k, vm.charged = some (.joint l k) → s'.labs.joint l k = s.labs.joint l k

theorem Kept.hold {r : HoldRef} (h : HoldInv s) (hv : s'.vms[v]? = some vm') (hk : Kept s s' v vm')
    (ha : vm'.alive = true) (hc : vm'.charged = some r) :
    s'.hold r = s.hold r ∧ ∀ u, r = .own u → u = v := by
  obtain ⟨vm,hvm,hw,hjoint⟩ := hk
  rw [hw.charged] at hc
  obtain ⟨r',hc',-,hown⟩ := h.charged v vm hvm (hw.alive ha)
  rw [hc] at hc'
  cases hc'
  refine ⟨?_,hown⟩
  cases r with
  | own u =>
    obtain rfl := hown u rfl
    rw [FileHolds.hold,FileHolds.hold,hv,hvm,Option.bind_some,Option.bind_some]
    exact hw.reservation ha
  | joint l k => exact hjoint l k hc

theorem Kept.charged (h : HoldInv s) (hv : s'.vms[v]? = some vm') (hk : Kept s s' v vm')
    (ha : vm'.alive = true) :
    ∃ r, vm'.charged = some r ∧ (s'.hold r).isSome ∧ ∀ u, r = .own u → u = v := by
  obtain ⟨vm,hvm,hw,-⟩ := id hk
  obtain ⟨r,hc,hsome,hown⟩ := h.charged v vm hvm (hw.alive ha)
  have hc' : vm'.charged = some r := by rw [hw.charged,hc]
  refine ⟨r,hc',?_,hown⟩
  rw [(hk.hold h hv ha hc').1]
  exact hsome

/-- A hold stays enough where all that is charged to it was charged to it before. -/
theorem enough_of_kept {r : HoldRef} (h : HoldInv s)
    (hk : ∀ (v : ℕ) (vm' : LabVm I C), s'.vms[v]? = some vm' → vm'.alive = true →
      vm'.charged = some r → Kept s s' v vm') {a : Hold} (hr : s'.hold r = some a) (x : Axis) :
    ∑ v ∈ s'.payers r, s'.cost x v ≤ a.amount.on x := by
  obtain hnone | ⟨u,hu⟩ := (s'.payers r).eq_empty_or_nonempty
  · rw [hnone,Finset.sum_empty]
    exact Nat.zero_le _
  · have hsame : s.hold r = some a := by
      obtain ⟨vm',hv,ha,hc⟩ := mem_payers.mp hu
      rw [← ((hk u vm' hv ha hc).hold h hv ha hc).1]
      exact hr
    have hold : ∀ v ∈ s'.payers r, v ∈ s.payers r ∧ s'.cost x v = s.cost x v := by
      intro v hv
      obtain ⟨vm',hv',ha,hc⟩ := mem_payers.mp hv
      obtain ⟨vm,hvm,hw,-⟩ := hk v vm' hv' ha hc
      constructor
      · refine mem_payers.mpr ⟨vm,hvm,hw.alive ha,?_⟩
        rw [← hw.charged]
        exact hc
      · simp only [FileHolds.cost,hv',hvm,Option.elim_some,hw.opts]
    calc ∑ v ∈ s'.payers r, s'.cost x v = ∑ v ∈ s'.payers r, s.cost x v :=
          Finset.sum_congr rfl fun v hv => (hold v hv).2
      _ ≤ ∑ v ∈ s.payers r, s.cost x v :=
          Finset.sum_le_sum_of_subset fun v hv => (hold v hv).1
      _ ≤ a.amount.on x := h.enough r a hsame x

/-- A step that launches nothing. -/
theorem HoldInv.kept (h : HoldInv s) (hac : Acyclic s'.labs)
    (hfresh : ∀ (v : ℕ) (vm' : LabVm I C), s'.vms[v]? = some vm' → vm'.inner.state = .created →
      vm'.alive = false)
    (hk : ∀ (v : ℕ) (vm' : LabVm I C), s'.vms[v]? = some vm' → vm'.alive = true → Kept s s' v vm') : HoldInv s' := by
  refine ⟨hac,hfresh,?_,?_⟩
  · intro v vm' hv ha
    exact (hk v vm' hv ha).charged h hv ha
  · intro r a hr x
    exact enough_of_kept h (fun v vm' hv ha _ => hk v vm' hv ha) hr x

/-- A step that launches VMs, all charged to one hold that nothing else is charged to. -/
theorem HoldInv.launch (h : HoldInv s) (r₀ : HoldRef) (hac : Acyclic s'.labs)
    (hfresh : ∀ (v : ℕ) (vm' : LabVm I C), s'.vms[v]? = some vm' → vm'.inner.state = .created →
      vm'.alive = false)
    (hk : ∀ (v : ℕ) (vm' : LabVm I C), s'.vms[v]? = some vm' → vm'.alive = true →
      vm'.charged = some r₀ ∧ (∀ u, r₀ = .own u → u = v) ∨ Kept s s' v vm')
    {a : Hold} (hr₀ : s'.hold r₀ = some a)
    (hfits : ∀ x, ∑ v ∈ s'.payers r₀, s'.cost x v ≤ a.amount.on x) : HoldInv s' := by
  refine ⟨hac,hfresh,?_,?_⟩
  · intro v vm' hv ha
    obtain ⟨hc,hown⟩ | hkept := hk v vm' hv ha
    · exact ⟨r₀,hc,by rw [hr₀]; rfl,hown⟩
    · exact hkept.charged h hv ha
  · intro r b hr x
    by_cases hrr : r = r₀
    · subst hrr
      rw [hr₀] at hr
      cases hr
      exact hfits x
    · refine enough_of_kept h ?_ hr x
      intro v vm' hv ha hc
      obtain ⟨hc',-⟩ | hkept := hk v vm' hv ha
      · rw [hc] at hc'
        exact absurd (Option.some.inj hc') hrr
      · exact hkept

/-- The labs change, but not what they hold. -/
theorem HoldInv.labs (h : HoldInv s) {labs : Labs Hold} (hac : Acyclic labs)
    (hj : ∀ l k, labs.joint l k = s.labs.joint l k) : HoldInv { s with labs } := by
  refine h.kept hac ?_ ?_
  · exact h.fresh
  · intro v vm hv _
    exact ⟨vm,hv,.refl vm,fun l k _ => hj l k⟩

/-- A VM is added whose machine does not run. -/
theorem HoldInv.append (h : HoldInv s) {labs : Labs Hold} (hac : Acyclic labs)
    (hj : ∀ l k, labs.joint l k = s.labs.joint l k) (hvm : vm.alive = false) :
    HoldInv ⟨labs,s.vms++[vm]⟩ := by
  refine h.kept hac ?_ ?_
  · intro v vm' hv hstate
    obtain hv | ⟨-,rfl⟩ := getElem?_snoc hv
    · exact h.fresh v vm' hv hstate
    · exact hvm
  · intro v vm' hv ha
    obtain hv | ⟨-,rfl⟩ := getElem?_snoc hv
    · exact ⟨vm',hv,.refl vm',fun l k _ => hj l k⟩
    · rw [hvm] at ha
      cases ha

/-- The VM when its machine has been launched. -/
def LabVm.launched (vm : LabVm I C) (r : Launched I C) (hold : Option Hold)
    (charged : Option HoldRef) : LabVm I C :=
  ⟨vm.name,vm.opts,vm.pool,⟨.booted,some r.resources,hold⟩,true,charged⟩

theorem boot_cases (vm : LabVm I C) (reservation : Except VmError (Option Hold))
    (charged : Option HoldRef) (launch : Except VmError (Launched I C)) :
    (vm.boot reservation charged launch).1 = vm ∨
      ∃ hold r, vm.inner.state = .created ∧ reservation = .ok hold ∧ launch = .ok r ∧
        vm.boot reservation charged launch = (vm.launched r hold charged,.ok ()) := by
  unfold LabVm.boot
  split
  · next hstate =>
    cases reservation with
    | error e => exact .inl rfl
    | ok hold =>
      cases launch with
      | error e => exact .inl rfl
      | ok r =>
        refine .inr ⟨hold,r,hstate,rfl,rfl,?_⟩
        simp only [VmInner.boot,if_pos hstate,LabVm.launched]
  · exact .inl rfl

theorem asked_on {o : BootOpts} {x : Axis} (h : o.cost x ≤ x.max) : o.asked.on x = o.cost x :=
  ResourceAmount.saturatingAdd_exact h

/-- A solo boot of a VM with the pool. -/
theorem HoldInv.bootVm (h : HoldInv s) (hv : s.vms[v]? = some vm) {answer : Except VmError Bool}
    {launch : Except VmError (Launched I C)} (hok : s.Charges (.bootVm v answer launch)) :
    HoldInv (s.withVm v (vm.boot (vm.reserve answer)
      (if vm.pool then some (.own v) else none) launch)).1 := by
  obtain hsame | ⟨hold,r,hstate,hres,hlaunch,heq⟩ := boot_cases vm (vm.reserve answer)
    (if vm.pool then some (.own v) else none) launch
  · rw [FileHolds.withVm,hsame,set_of_getElem? hv]
    exact h
  · obtain ⟨hpool,hfits⟩ := hok vm hv hstate r hlaunch
    rw [LabVm.reserve,if_pos hpool] at hres
    cases answer with
    | error e => cases hres
    | ok b =>
      cases hres
      rw [heq,if_pos hpool]
      have hlt := (List.getElem?_eq_some_iff.mp hv).1
      have hself : ∀ vm' : LabVm I C, (s.vms.set v vm')[v]? = some vm' :=
        fun vm' => List.getElem?_set_self hlt
      refine h.launch (.own v) (a := ⟨b,vm.opts.asked⟩) h.acyclic ?_ ?_ ?_ ?_
      · intro u vm' hu hcreated
        obtain ⟨-,rfl⟩ | ⟨-,hu⟩ := getElem?_set_some hu
        · cases hcreated
        · exact h.fresh u vm' hu hcreated
      · intro u vm' hu _
        obtain ⟨rfl,rfl⟩ | ⟨-,hu⟩ := getElem?_set_some hu
        · exact .inl ⟨rfl,fun w hw => (HoldRef.own.inj hw).symm⟩
        · exact .inr ⟨vm',hu,.refl vm',fun _ _ _ => rfl⟩
      · simp only [FileHolds.withVm,FileHolds.hold,hself,Option.bind_some]
        rfl
      · intro x
        -- nothing else is charged to what a VM holds itself
        have hpayers : FileHolds.payers ⟨s.labs,s.vms.set v
            (vm.launched r (some ⟨b,vm.opts.asked⟩) (some (.own v)))⟩ (.own v) ⊆ {v} := by
          intro u hu
          obtain ⟨vm',hu,ha,hc⟩ := mem_payers.mp hu
          obtain ⟨rfl,-⟩ | ⟨-,hu⟩ := getElem?_set_some hu
          · exact Finset.mem_singleton_self _
          · obtain ⟨r',hr',-,hown⟩ := h.charged u vm' hu ha
            rw [hc] at hr'
            cases hr'
            exact Finset.mem_singleton.mpr (hown v rfl).symm
        refine (Finset.sum_le_sum_of_subset hpayers).trans ?_
        rw [Finset.sum_singleton,asked_on (hfits b rfl x)]
        simp only [FileHolds.withVm,FileHolds.cost,hself,Option.elim_some]
        exact le_rfl

section Shutdown
variable {a : Stop}

/-- `shutdown` gives the VM's own reservation back only where no instance is left to the VM. -/
theorem shutdown_reservation (w : VmInner I C Hold) (answer : Except VmmError Unit) :
    (w.shutdown answer).1.bootReservation = w.bootReservation ∨
      (w.shutdown answer).1.bootReservation = none ∧
        (w.state = .created ∨ w.vmInstance = none ∨ w.stops.isSome ∧ answer = .ok ()) := by
  unfold VmInner.shutdown
  split
  · exact .inl rfl
  · next hstate => exact .inr ⟨rfl,.inl hstate⟩
  · next hnot hnot' =>
    split
    · next hnone => exact .inr ⟨rfl,.inr (.inl hnone)⟩
    · next i hsome =>
      have hstops : w.stops = some i := by
        unfold VmInner.stops
        split <;> simp_all
      exact .inr ⟨rfl,.inr (.inr ⟨by rw [hstops]; rfl,rfl⟩)⟩
    · exact .inl rfl

theorem shutdown_not_created (w : VmInner I C Hold) (answer : Except VmmError Unit) :
    (w.shutdown answer).1.state ≠ .created := by
  unfold VmInner.shutdown
  split
  · next hstate =>
    rw [hstate]
    decide
  · intro h
    cases h
  · next hnot =>
    split
    · intro h
      cases h
    · intro h
      cases h
    · exact hnot

theorem shutdown_winds (hf : vm.inner.state = .created → vm.alive = false) (hs : vm.Stoppable) :
    Winds vm (vm.shutdown a).1 := by
  have halive : (vm.shutdown a).1.alive = true → vm.alive = true ∧
      ¬(vm.inner.stops.isSome = true ∧ a.stopped = true) := by
    intro h
    obtain ⟨ha,hn⟩ := Bool.and_eq_true_iff.mp h
    refine ⟨ha,?_⟩
    rintro ⟨hstops,hstopped⟩
    rw [hstops,hstopped] at hn
    cases hn
  refine ⟨fun h => (halive h).1,rfl,rfl,?_⟩
  intro h
  obtain ⟨ha,hstop⟩ := halive h
  obtain hsame | ⟨hnone,hwhy⟩ := shutdown_reservation vm.inner a.result
  · exact hsame
  · obtain hcreated | hinst | ⟨hstops,hok⟩ := hwhy
    · rw [hf hcreated] at ha
      cases ha
    · have hown : vm.inner.bootReservation = none := by
        by_contra hne
        exact hs ha hne hinst
      rw [hown]
      exact hnone
    · refine absurd ⟨hstops,?_⟩ hstop
      rw [Stop.stopped,hok]
      rfl

theorem shutdown_stopped (hs : vm.inner.stops.isSome = true) (ha : a.stopped = true) :
    (vm.shutdown a).1.alive = false := by
  simp [LabVm.shutdown,hs,ha]

/-- A VM that has been stopped, or that has no reservation, may be shut down again. -/
theorem shutdown_stoppable (hf : vm.inner.state = .created → vm.alive = false)
    (hs : vm.Stoppable)
    (hstop : vm.alive = true → vm.inner.bootReservation ≠ none → a.stopped = true) :
    (vm.shutdown a).1.Stoppable := by
  intro halive hres
  have hw := shutdown_winds (a := a) hf hs
  rw [hw.reservation halive] at hres
  have ha := hw.alive halive
  have hinst := hs ha hres
  by_cases hstate : vm.inner.state = .shutdown
  · have hinner : (vm.shutdown a).1.inner = vm.inner := by
      simp [LabVm.shutdown,VmInner.shutdown,hstate]
    rw [hinner]
    exact hinst
  · exfalso
    have hstops : vm.inner.stops = vm.inner.vmInstance := by
      unfold VmInner.stops
      split
      · next h => exact absurd h hstate
      · next h =>
        rw [hf h] at ha
        cases ha
      · rfl
    have hsome : vm.inner.stops.isSome = true := by
      rw [hstops]
      exact Option.isSome_iff_ne_none.mpr hinst
    rw [shutdown_stopped hsome (hstop ha hres)] at halive
    cases halive

/-- The same VM listed so many times in a batch. -/
theorem iterate_shutdown_winds (hf : vm.inner.state = .created → vm.alive = false)
    (hs : vm.Stoppable)
    (hstop : vm.alive = true → vm.inner.bootReservation ≠ none → a.stopped = true) (n : ℕ) :
    Winds vm ((fun vm => (vm.shutdown a).1)^[n] vm) := by
  induction n generalizing vm with
  | zero => exact .refl vm
  | succ n ih =>
    rw [Function.iterate_succ_apply]
    have hw := shutdown_winds (a := a) hf hs
    refine hw.trans (ih ?_ (shutdown_stoppable hf hs hstop) ?_)
    · intro h
      exact absurd h (shutdown_not_created vm.inner a.result)
    · intro ha hres
      rw [hw.reservation ha] at hres
      exact hstop (hw.alive ha) hres

theorem iterate_shutdown_alive {n : ℕ}
    (h : ((fun vm : LabVm I C => (vm.shutdown a).1)^[n] vm).alive = true) : vm.alive = true := by
  induction n generalizing vm with
  | zero => exact h
  | succ n ih =>
    rw [Function.iterate_succ_apply] at h
    exact (Bool.and_eq_true_iff.mp (ih h)).1

theorem iterate_shutdown_not_created {n : ℕ} (hn : 0 < n) :
    ((fun vm : LabVm I C => (vm.shutdown a).1)^[n] vm).inner.state ≠ .created := by
  obtain ⟨n,rfl⟩ := Nat.exists_eq_succ_of_ne_zero (Nat.ne_of_gt hn)
  rw [Function.iterate_succ_apply']
  exact shutdown_not_created _ a.result

end Shutdown

section Batch
variable {op : ℕ → LabVm I C → LabVm I C × Except VmError Unit}

/-- Each VM gets the operation as often as it is listed. -/
theorem batch_get (vms : List (LabVm I C)) (members : List ℕ) (v : ℕ) :
    (batch op vms members).1[v]? =
      (vms[v]?).map (fun vm => (op v vm).1)^[members.count v] := by
  induction members generalizing vms with
  | nil => simp [batch]
  | cons u members ih =>
    unfold batch
    split
    · next hnone =>
      rw [ih]
      by_cases huv : u = v
      · rw [← huv,hnone,Option.map_none,Option.map_none]
      · rw [List.count_cons_of_ne huv]
    · next vm hu =>
      rw [ih]
      by_cases huv : u = v
      · subst huv
        have hlt := (List.getElem?_eq_some_iff.mp hu).1
        rw [List.getElem?_set_self hlt,hu,Option.map_some,Option.map_some,List.count_cons_self,
          Function.iterate_succ_apply]
      · rw [List.getElem?_set_ne huv,List.count_cons_of_ne huv]

/-- A batch over different VMs fails for none where none of them fails. -/
theorem batch_ok {vms : List (LabVm I C)} {members : List ℕ} (hn : members.Nodup)
    (hok : ∀ v ∈ members, ∀ vm, vms[v]? = some vm → (op v vm).2 = .ok ()) :
    (batch op vms members).2 = [] := by
  induction members generalizing vms with
  | nil => rfl
  | cons u members ih =>
    obtain ⟨hu,hn⟩ := List.nodup_cons.mp hn
    unfold batch
    split
    · exact ih hn fun v hv => hok v (List.mem_cons_of_mem _ hv)
    · next vm hvm =>
      simp only [hok u List.mem_cons_self vm hvm]
      apply ih hn
      intro v hv vm' hvm'
      have hne : u ≠ v := by
        rintro rfl
        exact hu hv
      rw [List.getElem?_set_ne hne] at hvm'
      exact hok v (List.mem_cons_of_mem _ hv) vm' hvm'

/-- A batch whose operations change nothing. -/
theorem batch_same {vms : List (LabVm I C)} {members : List ℕ}
    (hsame : ∀ v ∈ members, ∀ vm, vms[v]? = some vm → (op v vm).1 = vm) :
    (batch op vms members).1 = vms := by
  apply List.ext_getElem?
  intro v
  rw [batch_get]
  cases hv : vms[v]? with
  | none => rfl
  | some vm =>
    rw [Option.map_some]
    by_cases hmem : v ∈ members
    · rw [Function.iterate_fixed (hsame v hmem vm hv)]
    · rw [List.count_eq_zero_of_not_mem hmem,Function.iterate_zero_apply]

end Batch
/-- The shutdown of a lab that stops all that its boots launched. -/
theorem HoldInv.shutdownLab (h : HoldInv s) {l : ℕ} {node : LabInner Hold}
    (hl : s.labs[l]? = some node) {members : List ℕ} {stops : ℕ → Stop}
    (hw : s.StopsWhole l members stops) : HoldInv (s.shutdownLab l node members stops).1 := by
  -- a VM afterwards, as what is left of the same VM before
  have hget : ∀ (v : ℕ) (vm' : LabVm I C), (s.shutdownLab l node members stops).1.vms[v]? = some vm' →
      ∃ vm, s.vms[v]? = some vm ∧
        vm' = (fun vm => (vm.shutdown (stops v)).1)^[members.count v] vm := by
    intro v vm' hv
    rw [FileHolds.shutdownLab,batch_get] at hv
    obtain ⟨vm,hvm,rfl⟩ := Option.map_eq_some_iff.mp hv
    exact ⟨vm,hvm,rfl⟩
  refine h.kept (h.acyclic.set hl (List.Subset.refl _)) ?_ ?_
  · intro v vm' hv hstate
    obtain ⟨vm,hvm,rfl⟩ := hget v vm' hv
    obtain hzero | hpos := Nat.eq_zero_or_pos (members.count v)
    · rw [hzero] at hstate ⊢
      exact h.fresh v vm hvm hstate
    · exact absurd hstate (iterate_shutdown_not_created hpos)
  · intro v vm' hv halive
    obtain ⟨vm,hvm,rfl⟩ := hget v vm' hv
    have hf := h.fresh v vm hvm
    refine ⟨vm,hvm,?_,?_⟩
    · by_cases hmem : v ∈ members
      · have hs := hw.stoppable v hmem vm hvm
        by_cases hone : members.count v = 1
        · rw [hone]
          exact shutdown_winds hf hs
        · apply iterate_shutdown_winds hf hs
          intro ha hres
          exact (hw.again v hmem vm hvm ha hres).resolve_right hone
      · rw [List.count_eq_zero_of_not_mem hmem]
        exact .refl vm
    · intro l' k hc
      by_cases hll : l' = l
      · exfalso
        subst hll
        obtain ⟨hmem,hstops,hstopped⟩ := hw.launched v vm k hvm (iterate_shutdown_alive halive) hc
        obtain ⟨n,hn⟩ := Nat.exists_eq_succ_of_ne_zero
          (Nat.ne_of_gt (List.count_pos_iff.mpr hmem))
        rw [hn,Function.iterate_succ_apply] at halive
        have := iterate_shutdown_alive halive
        rw [shutdown_stopped hstops hstopped] at this
        cases this
      · exact joint_set_ne hll _ k

section BootLab
variable {l : ℕ} {node : LabInner Hold} {members : List ℕ} {answer : Except String Bool}
  {launches : ℕ → Except VmError (Launched I C)}

theorem isCreated_iff : s.isCreated v = true ↔
    ∃ vm, s.vms[v]? = some vm ∧ vm.inner.state = .created := by
  simp [FileHolds.isCreated,Option.any_eq_true]

/-- What is asked for the members is their cost, where it is within the types. -/
theorem needed_on (hb : s.BootsWhole members launches) (x : Axis) :
    (s.needed members).on x = (members.map (s.cost x)).sum := by
  have hmap : members.map (fun v => ((s.vms[v]?).elim default fun vm => vm.opts.asked).on x) =
      members.map (s.cost x) := by
    apply List.map_congr_left
    intro v hv
    obtain ⟨vm,hvm,-⟩ := isCreated_iff.mp (hb.created v hv)
    have hle : s.cost x v ≤ x.max :=
      (List.single_le_sum (fun _ _ => Nat.zero_le _) _ (List.mem_map_of_mem hv)).trans (hb.fits x)
    simp only [FileHolds.cost,hvm,Option.elim_some] at hle ⊢
    exact asked_on hle
  rw [FileHolds.needed,List.filter_eq_self.mpr hb.created,ResourceAmount.foldl_saturatingAdd_on,hmap,
    ResourceAmount.default_on,Nat.zero_add,Nat.min_eq_left (hb.fits x)]

/-- Nothing is needed only where no member is in Created. -/
theorem not_created_of_isZero (hz : (s.needed members).isZero) (hv : v ∈ members) :
    s.isCreated v = false := by
  by_contra hne
  have hc : s.isCreated v = true := by simpa using hne
  obtain ⟨vm,hvm,-⟩ := isCreated_iff.mp hc
  have hzero := ResourceAmount.isZero_iff.mp hz .memory
  rw [FileHolds.needed,ResourceAmount.foldl_saturatingAdd_on,ResourceAmount.default_on] at hzero
  have hle := List.single_le_sum (fun _ _ => Nat.zero_le _) _ (List.mem_map_of_mem
    (f := fun v => ((s.vms[v]?).elim default fun vm => vm.opts.asked).on .memory)
    (List.mem_filter.mpr ⟨hv,hc⟩))
  have hpos : 0 < vm.opts.asked.on .memory := by
    rw [BootOpts.asked,ResourceAmount.saturatingAdd_on]
    have hover : vmmOverhead.on .memory = 100*1024*1024 := rfl
    have hmax : Axis.memory.max = 2^64-1 := rfl
    omega
  simp only [hvm,Option.elim_some] at hle
  have hmax : 0 < Axis.memory.max := by decide
  omega

theorem HoldInv.joint_charged (h : HoldInv s) (hv : s.vms[v]? = some vm) (ha : vm.alive = true)
    {l k : ℕ} (hc : vm.charged = some (.joint l k)) : (s.labs.joint l k).isSome := by
  obtain ⟨r,hr,hsome,-⟩ := h.charged v vm hv ha
  rw [hc] at hr
  cases hr
  exact hsome

/-- A boot of the lab that launches nothing. -/
theorem HoldInv.push (h : HoldInv s) (hl : s.labs[l]? = some node) (kept : List Hold) :
    HoldInv ⟨s.labs.push l node kept,s.vms⟩ := by
  refine h.kept (h.acyclic.set hl (List.Subset.refl _)) ?_ ?_
  · exact h.fresh
  · intro v vm hv ha
    exact ⟨vm,hv,.refl vm,fun l' k hc => joint_push hl kept (h.joint_charged hv ha hc)⟩

/-- A member that is not in Created, or whose launch fails, stays as it is. -/
theorem boot_same (charged : Option HoldRef) (hv : s.vms[v]? = some vm)
    (hno : s.isCreated v = true → ∃ e, launches v = .error e) :
    (vm.boot (.ok none) charged (launches v)).1 = vm := by
  obtain hsame | ⟨hold,r,hstate,-,hlaunch,-⟩ := boot_cases vm (.ok none) charged (launches v)
  · exact hsame
  · obtain ⟨e,he⟩ := hno (isCreated_iff.mpr ⟨vm,hv,hstate⟩)
    rw [hlaunch] at he
    cases he

/-- A member of a boot that succeeds for all. -/
theorem boot_whole (charged : Option HoldRef) (hb : s.BootsWhole members launches)
    (hm : v ∈ members) (hv : s.vms[v]? = some vm) :
    ∃ r, vm.boot (.ok none) charged (launches v) = (vm.launched r none charged,.ok ()) := by
  obtain ⟨vm₁,hv₁,hstate⟩ := isCreated_iff.mp (hb.created v hm)
  rw [hv] at hv₁
  cases hv₁
  obtain ⟨r,hr⟩ := hb.launched v hm
  refine ⟨r,?_⟩
  rw [hr]
  simp only [LabVm.boot,hstate,if_true,VmInner.boot,LabVm.launched]

/-- A VM after such a boot. -/
theorem bootMembers_whole (hb : s.BootsWhole members launches)
    (hv : (s.bootMembers l node members launches).1[v]? = some vm') :
    (v ∈ members ∧ ∃ vm r, s.vms[v]? = some vm ∧
      vm' = vm.launched r none (some (.joint l node.bootReservations.length))) ∨
      (v ∉ members ∧ s.vms[v]? = some vm') := by
  rw [FileHolds.bootMembers,batch_get] at hv
  obtain ⟨vm,hvm,rfl⟩ := Option.map_eq_some_iff.mp hv
  by_cases hm : v ∈ members
  · obtain ⟨r,hr⟩ := boot_whole (some (.joint l node.bootReservations.length)) hb hm hvm
    rw [List.count_eq_one_of_mem hb.once hm,Function.iterate_one,hr]
    exact .inl ⟨hm,vm,r,hvm,rfl⟩
  · rw [List.count_eq_zero_of_not_mem hm]
    exact .inr ⟨hm,hvm⟩

/-- The boot of a lab whose members all come up, charged to the hold that it keeps. -/
theorem HoldInv.bootWhole (h : HoldInv s) (hl : s.labs[l]? = some node) (b : Bool)
    (hb : s.BootsWhole members launches) :
    HoldInv ⟨s.labs.push l node [⟨b,s.needed members⟩],
      (s.bootMembers l node members launches).1⟩ := by
  -- nothing has been charged to the new hold before
  have hnew : ∀ (v : ℕ) (vm : LabVm I C), s.vms[v]? = some vm → vm.alive = true →
      vm.charged ≠ some (.joint l node.bootReservations.length) := by
    intro v vm hv ha hc
    have hsome := h.joint_charged hv ha hc
    rw [joint_of hl,List.getElem?_eq_none le_rfl] at hsome
    cases hsome
  refine h.launch (.joint l node.bootReservations.length) (a := ⟨b,s.needed members⟩)
    (h.acyclic.set hl (List.Subset.refl _)) ?_ ?_ ?_ ?_
  · intro v vm' hv hstate
    obtain ⟨-,vm,r,-,rfl⟩ | ⟨-,hv⟩ := bootMembers_whole hb hv
    · cases hstate
    · exact h.fresh v vm' hv hstate
  · intro v vm' hv ha
    obtain ⟨-,vm,r,-,rfl⟩ | ⟨-,hv⟩ := bootMembers_whole hb hv
    · left
      refine ⟨rfl,?_⟩
      intro u hu
      cases hu
    · right
      exact ⟨vm',hv,.refl vm',fun l' k hc => joint_push hl _ (h.joint_charged hv ha hc)⟩
  · rw [FileHolds.hold,Labs.push,joint_set_self hl]
    exact List.getElem?_concat_length
  · intro x
    rw [needed_on hb]
    have hpayers : FileHolds.payers ⟨s.labs.push l node [⟨b,s.needed members⟩],
        (s.bootMembers l node members launches).1⟩ (.joint l node.bootReservations.length) ⊆
          members.toFinset := by
      intro v hv
      obtain ⟨vm',hv,ha,hc⟩ := mem_payers.mp hv
      obtain ⟨hm,-⟩ | ⟨-,hv⟩ := bootMembers_whole hb hv
      · exact List.mem_toFinset.mpr hm
      · exact absurd hc (hnew v vm' hv ha)
    refine (Finset.sum_le_sum_of_subset hpayers).trans ?_
    rw [List.sum_toFinset _ hb.once]
    apply le_of_eq
    congr 1
    apply List.map_congr_left
    intro v hm
    obtain ⟨vm,hvm,-⟩ := isCreated_iff.mp (hb.created v hm)
    obtain ⟨r,hr⟩ := boot_whole (some (.joint l node.bootReservations.length)) hb hm hvm
    simp only [FileHolds.cost,FileHolds.bootMembers,batch_get,hvm,Option.map_some,List.count_eq_one_of_mem hb.once hm,
      Function.iterate_one,hr,Option.elim_some]
    rfl

/-- The boot of a lab, whole or not at all. -/
theorem HoldInv.bootLab (h : HoldInv s) (hl : s.labs[l]? = some node)
    (hok : (∃ e, answer = .error e) ∨
      (∀ v ∈ members, s.isCreated v = true → ∃ e, launches v = .error e) ∨
      s.BootsWhole members launches) :
    HoldInv (s.bootWithPool l node members answer launches).1 := by
  cases hres : s.reserveJointly members answer with
  | error reason =>
    rw [FileHolds.bootWithPool,hres]
    exact h
  | ok hold =>
    rw [FileHolds.bootWithPool,hres]
    dsimp only
    have hnone : (∀ v ∈ members, s.isCreated v = true → ∃ e, launches v = .error e) →
        (s.bootMembers l node members launches).1 = s.vms := by
      intro hno
      apply batch_same
      intro v hm vm hv
      exact boot_same _ hv (hno v hm)
    by_cases hz : (s.needed members).isZero
    · have hno : ∀ v ∈ members, s.isCreated v = true → ∃ e, launches v = .error e := by
        intro v hm hc
        rw [not_created_of_isZero hz hm] at hc
        cases hc
      rw [hnone hno]
      exact h.push hl _
    · rw [FileHolds.reserveJointly,if_neg hz] at hres
      obtain ⟨e,rfl⟩ | hno | hb := hok
      · cases hres
      · rw [hnone hno]
        exact h.push hl _
      · cases answer with
        | error e => cases hres
        | ok b =>
          cases hres
          have hall : (s.bootMembers l node members launches).2 = [] := by
            apply batch_ok hb.once
            intro v hm vm hv
            obtain ⟨r,hr⟩ := boot_whole (some (.joint l node.bootReservations.length)) hb hm hv
            rw [hr]
          rw [if_pos hall]
          exact h.bootWhole hl b hb

end BootLab

/-- `restore_vm` where no machine comes of it that goes on. -/
theorem HoldInv.restoreVm (h : HoldInv s) {l : ℕ} {node : LabInner Hold} {name : String}
    (opts : BootOpts) {stop : Stop} {result : Except VmError (Launched I C)}
    (hok : ∀ r, result = .ok r → stop.stopped = true ∧ name ∈ node.vms) :
    HoldInv (s.restoreVm l node name opts stop result).1 := by
  cases result with
  | error e => exact h
  | ok r =>
    obtain ⟨hstop,hname⟩ := hok r rfl
    have hdup : s.labs.insertVm l node name s.vms.length = .error (.duplicateVmName name) :=
      if_pos hname
    rw [FileHolds.restoreVm,hdup]
    apply h.append h.acyclic fun _ _ => rfl
    simp [LabVm.drop,hstop]

theorem withLabs_inv (h : HoldInv s) {result : Except LabError (Labs Hold)}
    (hr : ∀ labs, result = .ok labs → Acyclic labs ∧ ∀ l k, labs.joint l k = s.labs.joint l k) :
    HoldInv (s.withLabs result).1 := by
  cases result with
  | error e => exact h
  | ok labs =>
    obtain ⟨hac,hj⟩ := hr labs rfl
    exact h.labs hac hj

/-- What every step keeps that meets the condition. -/
theorem HoldInv.step {a : HoldAction I C} {o : Except FileError Unit} (h : HoldInv s)
    (hok : s.Charges a) (hstep : s.step a = some (s',o)) : HoldInv s' := by
  cases a with
  | createVm l name opts =>
    obtain ⟨node,hl,hs⟩ := Option.map_eq_some_iff.mp hstep
    split at hs
    · cases hs
      exact h
    · next labs hadd =>
      cases hs
      exact h.append ((includeVm_extends hl hadd).acyclic h.acyclic) (includeVm_joint hl hadd) rfl
  | bootVm v answer launch =>
    obtain ⟨vm,hv,hs⟩ := Option.map_eq_some_iff.mp hstep
    have hboot := h.bootVm hv hok
    rw [hs] at hboot
    exact hboot
  | bootLab l fuel answer launches =>
    obtain ⟨node,hl,hs⟩ := Option.bind_eq_some_iff.mp hstep
    obtain ⟨members,hm,hs⟩ := Option.map_eq_some_iff.mp hs
    have hboot := h.bootLab hl (hok members hm)
    rw [hs] at hboot
    exact hboot
  | restoreVm l name opts result stop =>
    obtain ⟨node,hl,hs⟩ := Option.map_eq_some_iff.mp hstep
    have hno : ∀ r, result = .ok r → stop.stopped = true ∧ name ∈ node.vms := by
      intro r hr
      exact ⟨(hok r hr).1,(hok r hr).2 node hl⟩
    have hrestore := h.restoreVm (l := l) opts hno
    rw [hs] at hrestore
    exact hrestore
  | subLab l name =>
    obtain ⟨node,hl,hs⟩ := Option.map_eq_some_iff.mp hstep
    have hsub := withLabs_inv h fun labs (hadd : s.labs.subLab l node name = .ok labs) =>
      ⟨subLab_acyclic hl hadd h.acyclic,subLab_joint hl hadd⟩
    rw [hs] at hsub
    exact hsub
  | includeVm l v =>
    obtain ⟨node,hl,hs⟩ := Option.bind_eq_some_iff.mp hstep
    obtain ⟨vm,-,hs⟩ := Option.map_eq_some_iff.mp hs
    have hinclude := withLabs_inv h fun labs (hadd : s.labs.includeVm l node vm.name v = .ok labs) =>
      ⟨(includeVm_extends hl hadd).acyclic h.acyclic,includeVm_joint hl hadd⟩
    rw [hs] at hinclude
    exact hinclude
  | shutdownVm v stop =>
    obtain ⟨vm,hv,hs⟩ := Option.map_eq_some_iff.mp hstep
    cases hs
    refine h.kept h.acyclic ?_ ?_
    · intro u vm' hu hstate
      obtain ⟨rfl,rfl⟩ | ⟨-,hu⟩ := getElem?_set_some hu
      · exact absurd hstate (shutdown_not_created vm.inner stop.result)
      · exact h.fresh u vm' hu hstate
    · intro u vm' hu _
      obtain ⟨rfl,rfl⟩ | ⟨-,hu⟩ := getElem?_set_some hu
      · exact ⟨vm,hv,shutdown_winds (h.fresh u vm hv) (hok vm hv),fun _ _ _ => rfl⟩
      · exact ⟨vm',hu,.refl vm',fun _ _ _ => rfl⟩
  | shutdownLab l fuel stops =>
    obtain ⟨node,hl,hs⟩ := Option.bind_eq_some_iff.mp hstep
    obtain ⟨members,hm,hs⟩ := Option.map_eq_some_iff.mp hs
    have hshut := h.shutdownLab hl (hok members hm)
    rw [hs] at hshut
    exact hshut

/-- The walk of the members comes to its end. -/
theorem HoldInv.collects (h : HoldInv s) (l : ℕ) :
    ∃ fuel members, s.collectAllVms fuel l = some members := by
  obtain ⟨fuel,members,hn⟩ := Nesting.visit_ends h.acyclic [l] []
  refine ⟨fuel,members,?_⟩
  rw [FileHolds.collectAllVms,hn]

end Cover

/-- In a run of which every step meets the condition every running VM is paid for, and the
operations of a lab find its members. -/
theorem running_vms_paid {as : List (HoldAction I C)} {s : FileHolds I C}
    {os : List (Except FileError Unit)}
    (hok : (holdMachine I C).Obeys FileHolds.Charges .start as)
    (h : (holdMachine I C).run .start as = some (s,os)) :
    s.Paid ∧ ∀ l, ∃ fuel members, s.collectAllVms fuel l = some members := by
  have hinv : HoldInv s :=
    Machine.run_obeys _ (fun _ _ _ _ hi hok hs => hi.step hok hs) holdInv_start hok h
  exact ⟨hinv.paid,hinv.collects⟩

theorem running_vms_paid_both_boots :
    ∃ (as : List (HoldAction Unit Unit)) (s : FileHolds Unit Unit)
      (os : List (Except FileError Unit)), (holdMachine Unit Unit).run .start as = some (s,os) ∧
      s.running = {1,2} ∧ s.Paid := by
  obtain ⟨as,hok,hrun⟩ : ∃ as, (holdMachine Unit Unit).Obeys FileHolds.Charges .start as ∧
      ((holdMachine Unit Unit).run .start as).map (fun q => q.1.running) = some {1,2} := by
    refine ⟨[.createVm 0 "a" ⟨none,none⟩,.createVm 0 "b" ⟨none,none⟩,
      .bootLab 0 1 (.ok false) fun _ => .ok someMachine,.shutdownVm 0 ⟨.ok (),false⟩,
      .createVm 0 "c" ⟨none,none⟩,.bootVm 2 (.ok false) (.ok someMachine)],?_,by decide⟩
    refine .cons _ rfl trivial (.cons _ rfl trivial (.cons _ rfl ?_ (.cons _ rfl ?_
      (.cons _ rfl trivial (.cons _ rfl ?_ trivial)))))
    · intro members hm
      obtain rfl : [1,0] = members := Option.some.inj hm
      refine .inr (.inr ⟨by decide,by decide,fun _ _ => ⟨someMachine,rfl⟩,?_⟩)
      intro x
      cases x <;> decide
    · intro vm hv
      cases hv
      intro _ hres
      exact absurd rfl hres
    · intro vm hv _ r _
      cases hv
      refine ⟨rfl,?_⟩
      intro _ _ x
      cases x <;> decide
  obtain ⟨⟨s,os⟩,hrun,hrunning⟩ := Option.map_eq_some_iff.mp hrun
  exact ⟨as,s,os,hrun,hrunning,(running_vms_paid hok hrun).1⟩

/-- The shutdown of a lab gives its joint reservation back also where the machine runs on. -/
theorem failed_shutdown_runs_unpaid :
    ∃ (as : List (HoldAction Unit Unit)) (s : FileHolds Unit Unit)
      (os : List (Except FileError Unit)), (holdMachine Unit Unit).run .start as = some (s,os) ∧
      s.running = {0} ∧ ¬s.Paid := by
  obtain ⟨as,hrun⟩ : ∃ as, ((holdMachine Unit Unit).run .start as).map (fun q => (q.1.running,
      q.1.vms.map fun vm => vm.inner.bootReservation,q.1.labs.map LabInner.bootReservations)) =
      some ({0},[none],[[]]) := by
    refine ⟨[.createVm 0 "a" ⟨none,none⟩,.bootLab 0 1 (.ok false) fun _ => .ok someMachine,
      .shutdownLab 0 1 fun _ => ⟨.error (.io .timedOut),true⟩],?_⟩
    decide
  obtain ⟨⟨s,os⟩,hrun,hs⟩ := Option.map_eq_some_iff.mp hrun
  simp only [Prod.mk.injEq] at hs
  obtain ⟨hrunning,hown,hjoint⟩ := hs
  refine ⟨as,s,os,hrun,hrunning,?_⟩
  rintro ⟨cover,hcover,-⟩
  obtain ⟨h,hh⟩ := Option.isSome_iff_exists.mp (hcover 0 (by rw [hrunning]; decide)).1
  -- there is no hold at all
  cases hr : cover 0 with
  | own v =>
    rw [hr] at hh
    obtain ⟨vm,hvm,hres⟩ := Option.bind_eq_some_iff.mp hh
    have hv : (s.vms.map fun vm => vm.inner.bootReservation)[v]? = some (some h) := by
      rw [List.getElem?_map,hvm,Option.map_some,hres]
    rw [hown] at hv
    cases List.mem_singleton.mp (List.mem_of_getElem? hv)
  | joint l k =>
    rw [hr] at hh
    obtain ⟨node,hl,hk⟩ := Option.bind_eq_some_iff.mp hh
    have hv : (s.labs.map LabInner.bootReservations)[l]? = some node.bootReservations := by
      rw [List.getElem?_map,hl,Option.map_some]
    rw [hjoint] at hv
    rw [List.mem_singleton.mp (List.mem_of_getElem? hv)] at hk
    cases hk

end Provium.Lab
