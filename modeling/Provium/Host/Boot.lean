import Provium.Lab.Reservations
import Provium.Scheduler.Account
import Provium.Vmm.DiskIds

/-! `Vm::boot` step by step: the overrides and the disk records that it works on, and the hold that it
asks the file's claim or the pool for, while other threads go on using both. Nobody else uses the VM
meanwhile. The texts of refusals and what the backend answers are left open. -/
namespace Provium.Boot
open Lib Provium.Host Provium.Scheduler Provium.Vmm

/-- One file to inject into the guest at boot. -/
structure InjectedFile where
  guestPath : String
  content : List UInt8
  mode : ℕ
  deriving DecidableEq

/-- One NIC attachment; QEMU picks its address. -/
structure NicAttachment where
  bridgeName : String
  nicId : String
  deriving DecidableEq

/-- Boot-time configuration of a VM: its size, and the rest. -/
structure BootOpts extends Lab.BootOpts where
  cmdlineOverride : Option String
  cmdlineAppend : Option String
  files : List InjectedFile
  agentTimeout : Option ℕ
  rngSeed : Option UInt64
  initialTimeNs : Option ℤ
  nicAttachments : List NicAttachment
  disks : List AttachedDisk
  deriving DecidableEq

/-- `BootOpts::default`. -/
def BootOpts.none : BootOpts := ⟨⟨.none,.none⟩,.none,.none,[],.none,.none,.none,[],[]⟩

/-- What is given replaces; files and disks are added. The size is not an override. -/
def BootOpts.override (opts o : BootOpts) : BootOpts :=
  { opts with
    cmdlineOverride := o.cmdlineOverride <|> opts.cmdlineOverride
    cmdlineAppend := o.cmdlineAppend <|> opts.cmdlineAppend
    rngSeed := o.rngSeed <|> opts.rngSeed
    initialTimeNs := o.initialTimeNs <|> opts.initialTimeNs
    files := opts.files++o.files
    disks := opts.disks++o.disks
    agentTimeout := o.agentTimeout <|> opts.agentTimeout }

/-- A disk attached to a VM. -/
structure DiskAttachment where
  id : String
  size : ℕ
  image : Option String
  deriving DecidableEq

/-- What a boot holds: a slice of the file's claim, or a reservation of its own. -/
inductive Hold where
  | pool (r : Reservation)
  | claim (c : ClaimSlice)
  deriving DecidableEq

inductive ReserveError where
  | claim (e : ClaimExceeded)
  | pool (e : AcquireError)

/-- `VmInner`. -/
structure VmRecord (I C : Type) where
  inner : VmInner I C Hold
  bridges : List String
  disks : String → Option DiskAttachment
  overrides : Option BootOpts

/-- The `Vm` itself: what no operation changes. -/
structure Handle where
  name : String
  profile : DiskProfile
  opts : BootOpts
  /-- Whether it has the pool, and an account. -/
  pool : Bool
  account : Bool

section Boot
variable {I C : Type} (sizeOf : String → ℕ) (describe : ReserveError → String) (h : Handle)

namespace VmRecord

/-- A VM that has not booted, with the overrides and records it has come by. -/
def created (bridges : List String) (disks : String → Option DiskAttachment)
    (overrides : Option BootOpts) : VmRecord I C := ⟨⟨.created,none,none⟩,bridges,disks,overrides⟩

/-- `merge_boot_opts`. -/
def mergeBootOpts (v : VmRecord I C) (overrides : BootOpts) : VmRecord I C × Except Host.VmError Unit :=
  if v.inner.state = .created then
    ({ v with overrides := some ((v.overrides.getD .none).override overrides) },.ok ())
  else (v,.error (.wrongState h.name v.inner.state "merge_boot_opts"))

/-- What a boot launches with, but for the NICs. -/
def launchOpts (v : VmRecord I C) : BootOpts := v.overrides.elim h.opts h.opts.override

end VmRecord

/-- The record of a launch disk, with the size its image has now. -/
def diskRecord (disk : AttachedDisk) : DiskAttachment := ⟨disk.id,sizeOf disk.path,some disk.path⟩

/-- `attach_disk_record` -/
def attachDiskRecord (disks : String → Option DiskAttachment) (disk : AttachedDisk) :
    String → Option DiskAttachment :=
  Function.update disks disk.id (some (diskRecord sizeOf disk))

/-- Where a boot stands. -/
inductive BootPhase where
  | called
  /-- It has checked the state and has the bridges. -/
  | checked (bridges : List String)
  /-- It has these options, and these disks to record. -/
  | recording (opts : BootOpts) (left : List AttachedDisk)
  | reserving (opts : BootOpts)
  /-- There is no claim: it goes to the pool, in this owner's name. -/
  | acquiring (opts : BootOpts) (owner : Option OwnerId)
  | waiting (opts : BootOpts) (ticket : ℕ)
  | launching (opts : BootOpts) (hold : Option Hold)
  /-- It has failed, and drops its hold. -/
  | dropping (hold : Hold) (e : Host.VmError)
  | returned (result : Except Host.VmError Unit)

/-- The VM under its boot, over the pool and the file's account. -/
structure BootCall (I C : Type) where
  file : AccountSystem
  vm : VmRecord I C
  phase : BootPhase

inductive BootAction (I C : Type) where
  | check
  | merge
  | record
  | reserve
  | acquire
  | wake
  | launch (result : Except Host.VmmError (Launched I C))
  | drop
  /-- Somebody else uses the pool or the account. -/
  | other (a : AccountAction)

inductive BootObs where
  | silent
  | held (hold : Hold)
  | handedBack (hold : Hold)
  | returned (result : Except Host.VmError Unit)

/-- The NICs of a launch, one for each bridge. -/
def nics (bridges : List String) : List NicAttachment :=
  bridges.map fun bridge => ⟨bridge,h.name++"-"++bridge⟩

namespace BootCall

def refuse (s : BootCall I C) (e : Host.VmError) : BootCall I C × BootObs :=
  ({ s with phase := .returned (.error e) },.returned (.error e))

/-- `take` of the overrides, and `resolve_disks`. -/
def merge (s : BootCall I C) (bridges : List String) : BootCall I C × BootObs :=
  let opts := s.vm.launchOpts h
  let s := { s with vm := { s.vm with overrides := none } }
  match resolveDisks h.profile opts.disks with
  | .error id => s.refuse (.vmm (.diskConflict id))
  | .ok launch =>
    let opts := { opts with nicAttachments := opts.nicAttachments++nics h bridges }
    ({ s with phase := .recording opts launch },.silent)

/-- What comes of a `reserve`, once it is known. -/
def reserved (s : BootCall I C) (opts : BootOpts) : Except ReserveError Hold → BootCall I C × BootObs
  | .ok hold => ({ s with phase := .launching opts (some hold) },.held hold)
  | .error (.pool (.exceedsTotal _ _)) => s.refuse (.poolExceeded h.name)
  | .error e => s.refuse (.bootRefused h.name (describe e))

/-- The slice of the claim, where the file has one. -/
def reserve (s : BootCall I C) (opts : BootOpts) : Option (BootCall I C × BootObs) :=
  if !h.pool then some ({ s with phase := .launching opts none },.silent)
  else if !h.account then some ({ s with phase := .acquiring opts none },.silent)
  else
    match s.file.step (.slice opts.asked) with
    | some (file,.sliced (.error e)) => some ({ s with file }.reserved describe h opts (.error (.claim e)))
    | some (file,.sliced (.ok (some c))) => some ({ s with file }.reserved describe h opts (.ok (.claim c)))
    | some (file,.sliced (.ok none)) =>
      some ({ s with file, phase := .acquiring opts file.account.owner },.silent)
    | _ => none

/-- What the pool answers an acquire, or a waiter that has woken. -/
def answered (s : BootCall I C) (opts : BootOpts) :
    Option (AccountSystem × AccountEvent) → Option (BootCall I C × BootObs)
  | some (file,.pool (.granted r)) => some ({ s with file }.reserved describe h opts (.ok (.pool r)))
  | some (file,.pool (.refused _ e)) =>
    some ({ s with file }.reserved describe h opts (.error (.pool e)))
  | some (file,.pool (.parked t)) => some ({ s with file, phase := .waiting opts t },.silent)
  | _ => none

/-- The launch has failed, or its machine is not wanted: the hold goes out of scope. -/
def giveUp (s : BootCall I C) (hold : Option Hold) (e : Host.VmError) : BootCall I C × BootObs :=
  match hold with
  | none => s.refuse e
  | some hold => ({ s with phase := .dropping hold e },.silent)

/-- The launch, and the last section under the lock. -/
def launch (s : BootCall I C) (hold : Option Hold) :
    Except Host.VmmError (Launched I C) → Option (BootCall I C × BootObs)
  | .error e => some (s.giveUp hold (.vmm e))
  | .ok r =>
    match s.vm.inner.boot h.name r hold with
    | (inner,.done (.ok ())) =>
      some ({ s with vm := { s.vm with inner }, phase := .returned (.ok ()) },.returned (.ok ()))
    | (_,.done (.error e)) => some (s.giveUp hold e)
    | _ => none

/-- What the drop of a hold does to the file. -/
def dropAction : Hold → AccountAction
  | .pool r => .pool (.drop r)
  | .claim c => .dropSlice c

def step (s : BootCall I C) (a : BootAction I C) : Option (BootCall I C × BootObs) :=
  match s.phase,a with
  | _,.other a => (s.file.step a).map fun q => ({ s with file := q.1 },.silent)
  | .called,.check =>
    if s.vm.inner.state = .created then some ({ s with phase := .checked s.vm.bridges },.silent)
    else some (s.refuse (.wrongState h.name s.vm.inner.state "boot"))
  | .checked bridges,.merge => some (s.merge h bridges)
  | .recording opts (disk::left),.record =>
    let vm := { s.vm with disks := attachDiskRecord sizeOf s.vm.disks disk }
    some ({ s with vm, phase := .recording opts left },.silent)
  | .recording opts [],.reserve => some ({ s with phase := .reserving opts },.silent)
  | .reserving opts,.reserve => s.reserve describe h opts
  | .acquiring opts owner,.acquire =>
    s.answered describe h opts (s.file.step (.pool (.acquire owner opts.asked)))
  | .waiting opts t,.wake => s.answered describe h opts (s.file.step (.pool (.wake t)))
  | .launching _ hold,.launch result => s.launch h hold result
  | .dropping hold e,.drop =>
    (s.file.step (dropAction hold)).map fun q =>
      ({ s with file := q.1, phase := .returned (.error e) },.handedBack hold)
  | _,_ => none

end BootCall

def bootMachine : Machine (BootCall I C) (BootAction I C) BootObs :=
  ⟨BootCall.step sizeOf describe h⟩

/-! ## What a failed boot leaves -/

/-- What was obtained at a step. -/
def BootObs.taken : BootObs → List Hold
  | .held hold => [hold]
  | _ => []

def BootObs.givenBack : BootObs → List Hold
  | .handedBack hold => [hold]
  | _ => []

/-- What is held for the VM: by the boot, as long as that goes on, and then by the VM. -/
def BootCall.holds (s : BootCall I C) : List Hold :=
  match s.phase with
  | .launching _ hold => hold.toList
  | .dropping hold _ => [hold]
  | _ => s.vm.inner.bootReservation.toList

/-- A boot that has failed changed nothing. -/
structure LeftAsItWas (v : VmRecord I C) (t : BootCall I C) (os : List BootObs) : Prop where
  state : t.vm.inner.state = v.inner.state
  overrides : t.vm.overrides = v.overrides
  disks : t.vm.disks = v.disks
  unheld : t.holds = []
  handedBack : os.flatMap BootObs.taken = os.flatMap BootObs.givenBack
  options : t.vm.launchOpts h = v.launchOpts h

/-- The record that a launch leaves of an id: of two disks with it, that of the later one. -/
def lastRecord (launch : List AttachedDisk) (id : String) : Option DiskAttachment :=
  (launch.reverse.find? (·.id = id)).map (diskRecord sizeOf)

theorem lastRecord_cons (disk : AttachedDisk) (launch : List AttachedDisk) (id : String) :
    lastRecord sizeOf (disk::launch) id =
      (lastRecord sizeOf launch id).or (if disk.id = id then some (diskRecord sizeOf disk) else none) := by
  unfold lastRecord
  rw [List.reverse_cons,List.find?_append]
  cases launch.reverse.find? (·.id = id) with
  | some d => rfl
  | none => by_cases h : disk.id = id <;> simp [h]

theorem foldl_attachDiskRecord (launch : List AttachedDisk) (disks : String → Option DiskAttachment)
    (id : String) :
    launch.foldl (attachDiskRecord sizeOf) disks id = (lastRecord sizeOf launch id).or (disks id) := by
  induction launch generalizing disks with
  | nil => rfl
  | cons disk launch ih =>
    rw [List.foldl_cons,ih,lastRecord_cons,Option.or_assoc]
    congr 1
    by_cases h : disk.id = id
    · subst h
      simp [attachDiskRecord]
    · simp [attachDiskRecord,h,Ne.symm h]

/-- Recording a launch changes nothing if and only if its records are there already. -/
theorem foldl_attachDiskRecord_eq_iff (launch : List AttachedDisk) (disks : String → Option DiskAttachment) :
    launch.foldl (attachDiskRecord sizeOf) disks = disks ↔
      ∀ id record, lastRecord sizeOf launch id = some record → disks id = some record := by
  rw [funext_iff]
  refine forall_congr' fun id => ?_
  rw [foldl_attachDiskRecord]
  cases lastRecord sizeOf launch id with
  | none => simp
  | some record => simp [eq_comm]

namespace VmRecord

/-- The VM once the overrides have been taken and these disks recorded. -/
def stripped (v : VmRecord I C) (recorded : List AttachedDisk) : VmRecord I C :=
  { v with overrides := none, disks := recorded.foldl (attachDiskRecord sizeOf) v.disks }

/-- The disks that a boot records: none, where two of them are in conflict. -/
def toRecord (v : VmRecord I C) : List AttachedDisk :=
  (resolveDisks h.profile (v.launchOpts h).disks).toOption.getD []

@[simp] theorem stripped_inner (v : VmRecord I C) (recorded : List AttachedDisk) :
    (v.stripped sizeOf recorded).inner = v.inner := rfl

end VmRecord

/-- What a boot that was called on `v` has made of it. -/
def BootPhase.Left (v vm : VmRecord I C) : BootPhase → Prop
  | .called => vm = v
  | .checked _ => vm = v
  | .recording _ left => ∃ done, v.toRecord h = done++left ∧ vm = v.stripped sizeOf done
  | .returned (.ok ()) => True
  | _ => vm = v.stripped sizeOf (v.toRecord h)

namespace BootCall
variable {sizeOf describe h} {v : VmRecord I C} {s s' : BootCall I C} {o : BootObs}

/-- A step keeps to what a boot may make of the VM, and no hold is lost in it. -/
structure Moves (sizeOf : String → ℕ) (h : Handle) (v : VmRecord I C) (s : BootCall I C)
    (q : BootCall I C × BootObs) : Prop where
  left : q.1.phase.Left sizeOf h v q.1.vm
  accounted : s.holds++q.2.taken = q.2.givenBack++q.1.holds

/-- A boot that has nothing in hand and has recorded all may fail. -/
theorem refuse_moves (hheld : v.inner.bootReservation = none) (hs : s.holds = [])
    (hvm : s.vm = v.stripped sizeOf (v.toRecord h)) (e : Host.VmError) : Moves sizeOf h v s (s.refuse e) where
  left := hvm
  accounted := by
    change s.holds++[] = []++s.vm.inner.bootReservation.toList
    rw [hs,hvm,VmRecord.stripped_inner,hheld]
    rfl

theorem merge_moves (hheld : v.inner.bootReservation = none) (hs : s.holds = []) (hvm : s.vm = v)
    (bridges : List String) : Moves sizeOf h v s (s.merge h bridges) := by
  unfold merge
  simp only [hvm]
  cases hdisks : resolveDisks h.profile (v.launchOpts h).disks with
  | error id =>
    have hrecord : v.toRecord h = [] := by
      rw [VmRecord.toRecord,hdisks]
      rfl
    refine ⟨?_,?_⟩
    · change _ = v.stripped sizeOf (v.toRecord h)
      rw [hrecord]
      rfl
    · change s.holds++[] = []++v.inner.bootReservation.toList
      rw [hs,hheld]
      rfl
  | ok launch =>
    have hrecord : v.toRecord h = launch := by
      rw [VmRecord.toRecord,hdisks]
      rfl
    refine ⟨⟨[],hrecord,rfl⟩,?_⟩
    change s.holds++[] = []++v.inner.bootReservation.toList
    rw [hs,hheld]
    rfl

/-- Others use the pool and the account; the boot does not move. -/
theorem Moves.ofFile {file : AccountSystem} {q : BootCall I C × BootObs}
    (hmoves : Moves sizeOf h v { s with file } q) : Moves sizeOf h v s q := ⟨hmoves.left,hmoves.accounted⟩

theorem reserved_moves (hheld : v.inner.bootReservation = none) (hs : s.holds = [])
    (hvm : s.vm = v.stripped sizeOf (v.toRecord h)) (file : AccountSystem) (opts : BootOpts)
    (r : Except ReserveError Hold) : Moves sizeOf h v s ({ s with file }.reserved describe h opts r) := by
  have hrefuse : ∀ e, Moves sizeOf h v s ({ s with file }.refuse e) := fun e =>
    (refuse_moves (s := { s with file }) hheld hs hvm e).ofFile
  obtain (e | e) | hold := r
  · exact hrefuse _
  · cases e with
    | exceedsTotal requested total => exact hrefuse _
    | deadlock d => exact hrefuse _
  · refine ⟨hvm,?_⟩
    change s.holds++[hold] = []++[hold]
    rw [hs]

/-- On the way through the pool nothing is in hand. -/
theorem goOn_moves {phase : BootPhase} {file : AccountSystem}
    (hleft : phase.Left sizeOf h v s.vm) (hholds : (⟨file,s.vm,phase⟩ : BootCall I C).holds = s.holds) :
    Moves sizeOf h v s (⟨file,s.vm,phase⟩,.silent) where
  left := hleft
  accounted := by
    change s.holds++[] = []++_
    rw [hholds,List.append_nil,List.nil_append]

theorem reserve_moves (hheld : v.inner.bootReservation = none) (hs : s.holds = [])
    (hvm : s.vm = v.stripped sizeOf (v.toRecord h)) (opts : BootOpts) {q : BootCall I C × BootObs}
    (hq : s.reserve describe h opts = some q) : Moves sizeOf h v s q := by
  have hnone : s.vm.inner.bootReservation.toList = [] := by
    rw [hvm,VmRecord.stripped_inner,hheld]
    rfl
  unfold reserve at hq
  split at hq
  · cases hq
    exact goOn_moves hvm hs.symm
  split at hq
  · cases hq
    exact goOn_moves hvm (hnone.trans hs.symm)
  split at hq
  · cases hq
    exact reserved_moves hheld hs hvm _ opts _
  · cases hq
    exact reserved_moves hheld hs hvm _ opts _
  · cases hq
    exact goOn_moves hvm (hnone.trans hs.symm)
  · cases hq

theorem answered_moves (hheld : v.inner.bootReservation = none) (hs : s.holds = [])
    (hvm : s.vm = v.stripped sizeOf (v.toRecord h)) (opts : BootOpts)
    (answer : Option (AccountSystem × AccountEvent)) {q : BootCall I C × BootObs}
    (hq : s.answered describe h opts answer = some q) : Moves sizeOf h v s q := by
  unfold answered at hq
  split at hq
  · cases hq
    exact reserved_moves hheld hs hvm _ opts _
  · cases hq
    exact reserved_moves hheld hs hvm _ opts _
  · cases hq
    refine goOn_moves hvm ?_
    change s.vm.inner.bootReservation.toList = s.holds
    rw [hs,hvm,VmRecord.stripped_inner,hheld]
    rfl
  · cases hq

/-- What was reserved is dropped before the error is returned. -/
theorem giveUp_moves (hheld : v.inner.bootReservation = none) {hold : Option Hold}
    (hs : s.holds = hold.toList) (hvm : s.vm = v.stripped sizeOf (v.toRecord h)) (e : Host.VmError) :
    Moves sizeOf h v s (s.giveUp hold e) := by
  cases hold with
  | none => exact refuse_moves hheld hs hvm e
  | some hold => exact goOn_moves hvm hs.symm

theorem launch_moves (hv : v.inner = ⟨.created,none,none⟩) {hold : Option Hold}
    (hs : s.holds = hold.toList) (hvm : s.vm = v.stripped sizeOf (v.toRecord h))
    (result : Except Host.VmmError (Launched I C)) {q : BootCall I C × BootObs}
    (hq : s.launch h hold result = some q) : Moves sizeOf h v s q := by
  have hheld : v.inner.bootReservation = none := by rw [hv]
  have hinner : s.vm.inner = ⟨.created,none,none⟩ := by rw [hvm,VmRecord.stripped_inner,hv]
  obtain e | r := result
  · cases hq
    exact giveUp_moves hheld hs hvm _
  · simp only [launch,hinner,VmInner.boot] at hq
    cases hq
    refine ⟨trivial,?_⟩
    change s.holds++[] = []++hold.toList
    rw [hs,List.append_nil,List.nil_append]

/-- Once there is nothing left to record, all that the boot may leave is there. -/
theorem left_recorded {opts : BootOpts} (hphase : s.phase = .recording opts [])
    (hleft : s.phase.Left sizeOf h v s.vm) : s.vm = v.stripped sizeOf (v.toRecord h) := by
  rw [hphase] at hleft
  obtain ⟨done,hdone,hvm⟩ := hleft
  rw [hvm,hdone,List.append_nil]

theorem step_moves (hv : v.inner = ⟨.created,none,none⟩) {a : BootAction I C}
    (hleft : s.phase.Left sizeOf h v s.vm) (hs : s.step sizeOf describe h a = some (s',o)) :
    Moves sizeOf h v s (s',o) := by
  have hheld : v.inner.bootReservation = none := by rw [hv]
  obtain ⟨file,vm,phase⟩ := s
  unfold step at hs
  split at hs
  · obtain ⟨q,-,hq⟩ := Option.map_eq_some_iff.mp hs
    cases hq
    exact goOn_moves hleft rfl
  · next heq =>
    subst heq
    obtain rfl : vm = v := hleft
    simp only [hv] at hs
    cases hs
    exact goOn_moves rfl rfl
  · next bridges heq =>
    subst heq
    obtain rfl : vm = v := hleft
    rw [← Option.some.inj hs]
    exact merge_moves hheld (by simp [holds,hheld]) rfl bridges
  · next opts disk left heq =>
    subst heq
    obtain ⟨done,hdone,rfl⟩ := hleft
    cases hs
    refine ⟨⟨done++[disk],?_,?_⟩,?_⟩
    · rw [hdone,List.append_assoc,List.singleton_append]
    · simp only [VmRecord.stripped,List.foldl_append,List.foldl_cons,List.foldl_nil]
    · simp [holds,BootObs.taken,BootObs.givenBack,hheld]
  · next opts heq =>
    subst heq
    cases hs
    exact goOn_moves (left_recorded rfl hleft) rfl
  · next opts heq =>
    subst heq
    obtain rfl : vm = v.stripped sizeOf (v.toRecord h) := hleft
    exact reserve_moves hheld (by simp [holds,hheld]) rfl opts hs
  · next opts owner heq =>
    subst heq
    obtain rfl : vm = v.stripped sizeOf (v.toRecord h) := hleft
    exact answered_moves hheld (by simp [holds,hheld]) rfl opts _ hs
  · next opts t heq =>
    subst heq
    obtain rfl : vm = v.stripped sizeOf (v.toRecord h) := hleft
    exact answered_moves hheld (by simp [holds,hheld]) rfl opts _ hs
  · next opts hold result heq =>
    subst heq
    obtain rfl : vm = v.stripped sizeOf (v.toRecord h) := hleft
    exact launch_moves hv rfl rfl result hs
  · next hold e heq =>
    subst heq
    obtain rfl : vm = v.stripped sizeOf (v.toRecord h) := hleft
    obtain ⟨q,-,hq⟩ := Option.map_eq_some_iff.mp hs
    cases hq
    refine ⟨rfl,?_⟩
    simp [holds,BootObs.taken,BootObs.givenBack,hheld]
  · cases hs

/-- A run of a boot that was called on `v`, with what it has observed. -/
structure Traced (sizeOf : String → ℕ) (h : Handle) (v : VmRecord I C) (seen : List BootObs)
    (s : BootCall I C) : Prop where
  left : s.phase.Left sizeOf h v s.vm
  accounted : seen.flatMap BootObs.taken = seen.flatMap BootObs.givenBack++s.holds

theorem Traced.step {seen : List BootObs} {a : BootAction I C} (ht : Traced sizeOf h v seen s)
    (hv : v.inner = ⟨.created,none,none⟩) (hs : s.step sizeOf describe h a = some (s',o)) :
    Traced sizeOf h v (seen++[o]) s' := by
  have hmoves := step_moves hv ht.left hs
  refine ⟨hmoves.left,?_⟩
  calc (seen++[o]).flatMap BootObs.taken
      = seen.flatMap BootObs.taken++o.taken := by simp
    _ = seen.flatMap BootObs.givenBack++(s.holds++o.taken) := by rw [ht.accounted,List.append_assoc]
    _ = seen.flatMap BootObs.givenBack++(o.givenBack++s'.holds) := by rw [hmoves.accounted]
    _ = (seen++[o]).flatMap BootObs.givenBack++s'.holds := by simp

theorem Traced.run {as : List (BootAction I C)} {os : List BootObs} {t : BootCall I C}
    (hv : v.inner = ⟨.created,none,none⟩) {file : AccountSystem}
    (hrun : (bootMachine sizeOf describe h).run ⟨file,v,.called⟩ as = some (t,os)) :
    Traced sizeOf h v os t := by
  have hstart : Traced sizeOf h v [] (⟨file,v,.called⟩ : BootCall I C) := by
    refine ⟨rfl,?_⟩
    simp [holds,hv]
  exact @Machine.run_history _ _ _ (bootMachine sizeOf describe h) (fun _ seen s => Traced sizeOf h v seen s)
    (fun _ _ _ _ _ _ ht hs => ht.step hv hs) [] as [] os _ t hstart hrun


end BootCall

variable {sizeOf describe h}

/-- A failed boot leaves the VM as it was if and only if no overrides were pending and every disk that it
came to record was recorded already. -/
theorem failed_boot_leaves_vm_iff (file : AccountSystem) (bridges : List String)
    (disks : String → Option DiskAttachment) (overrides : Option BootOpts) (as : List (BootAction I C))
    (t : BootCall I C) (os : List BootObs) (e : Host.VmError)
    (hrun : (bootMachine sizeOf describe h).run ⟨file,.created bridges disks overrides,.called⟩ as = some (t,os))
    (hfail : t.phase = .returned (.error e)) :
    LeftAsItWas h (.created bridges disks overrides) t os ↔
      overrides = none ∧ ∀ launch, resolveDisks h.profile h.opts.disks = .ok launch →
        ∀ id record, lastRecord sizeOf launch id = some record → disks id = some record := by
  obtain ⟨hleft,haccounted⟩ := BootCall.Traced.run rfl hrun
  rw [hfail] at hleft
  replace hleft : t.vm = (VmRecord.created bridges disks overrides : VmRecord I C).stripped sizeOf
    ((VmRecord.created bridges disks overrides : VmRecord I C).toRecord h) := hleft
  have hholds : t.holds = [] := by
    unfold BootCall.holds
    rw [hfail,hleft]
    rfl
  have hrecords : overrides = none →
      (t.vm.disks = disks ↔ ∀ launch, resolveDisks h.profile h.opts.disks = .ok launch →
        ∀ id record, lastRecord sizeOf launch id = some record → disks id = some record) := by
    rintro rfl
    rw [hleft]
    change (((resolveDisks h.profile h.opts.disks).toOption.getD []).foldl (attachDiskRecord sizeOf) disks = disks
      ↔ _)
    rw [foldl_attachDiskRecord_eq_iff]
    cases resolveDisks h.profile h.opts.disks with
    | error conflict =>
      refine iff_of_true ?_ ?_
      · intro id record hlast
        cases hlast
      · intro launch hlaunch
        cases hlaunch
    | ok launch =>
      constructor
      · intro hrecords launch' hlaunch
        cases hlaunch
        exact hrecords
      · intro hrecords
        exact hrecords launch rfl
  constructor
  · intro hsame
    have hnone : overrides = none := by
      have h := hsame.overrides
      rw [hleft] at h
      exact h.symm
    exact ⟨hnone,(hrecords hnone).mp hsame.disks⟩
  · rintro ⟨rfl,hdisks⟩
    have hsame : t.vm.disks = disks := (hrecords rfl).mpr hdisks
    refine ⟨?_,?_,hsame,hholds,?_,?_⟩
    · rw [hleft]
      rfl
    · rw [hleft]
      rfl
    · rw [haccounted,hholds,List.append_nil]
    · rw [hleft]
      rfl

end Boot

/-- A VM whose profile has no disks. -/
def plainHandle : Handle := ⟨"vm",⟨"console=ttyS0",none,none,[],"peios"⟩,.none,true,false⟩

/-- How a boot that is over has failed. -/
def BootPhase.failure : BootPhase → Option Host.VmError
  | .returned (.error e) => some e
  | _ => none

theorem BootPhase.failure_eq {phase : BootPhase} {e : Host.VmError} (hphase : phase.failure = some e) :
    phase = .returned (.error e) := by
  unfold failure at hphase
  split at hphase
  · cases hphase
    rfl
  · cases hphase

/-- A reservation is granted, the launch fails, and nothing has changed. -/
theorem failed_boot_leaves_vm_iff_launch :
    ∃ (t : BootCall Unit Unit) (os : List BootObs), t.phase = .returned (.error (.vmm (.io .timedOut))) ∧
      (os.flatMap BootObs.taken).length = 1 ∧
      LeftAsItWas plainHandle (.created [] (fun _ => none) none) t os := by
  have hrun : ((bootMachine (I := Unit) (C := Unit) (fun _ => 0) (fun _ => "") plainHandle).run
      ⟨.new ⟨Axis.memory.max,8,le_rfl,by decide⟩ none,.created [] (fun _ => none) none,.called⟩
      [.check,.merge,.reserve,.reserve,.acquire,.launch (.error (.io .timedOut)),.drop]).map
        (fun q => (q.1.phase.failure,(q.2.flatMap BootObs.taken).length)) =
      some (some (.vmm (.io .timedOut)),1) := by
    decide +kernel
  obtain ⟨⟨t,os⟩,hrun,ht⟩ := Option.map_eq_some_iff.mp hrun
  simp only [Prod.mk.injEq] at ht
  obtain ⟨hphase,hlength⟩ := ht
  have hfail := BootPhase.failure_eq hphase
  refine ⟨t,os,hfail,hlength,(failed_boot_leaves_vm_iff _ [] _ none _ t os _ hrun hfail).mpr ⟨rfl,?_⟩⟩
  intro launch hlaunch id record hlast
  cases hlaunch
  cases hlast

/-- The pool cannot hold the VM, and the seed that was given for the boot is gone. -/
theorem failed_boot_forgets_overrides :
    ¬∀ (file : AccountSystem) (bridges : List String) (disks : String → Option DiskAttachment)
      (overrides : Option BootOpts) (as : List (BootAction Unit Unit)) (t : BootCall Unit Unit)
      (os : List BootObs) (e : Host.VmError),
      (bootMachine (fun _ => 0) (fun _ => "") plainHandle).run
        ⟨file,.created bridges disks overrides,.called⟩ as = some (t,os) →
      t.phase = .returned (.error e) →
      LeftAsItWas plainHandle (.created bridges disks overrides) t os := by
  intro h
  have hrun : ((bootMachine (I := Unit) (C := Unit) (fun _ => 0) (fun _ => "") plainHandle).run
      ⟨.new ⟨0,8,by decide,by decide⟩ none,.created [] (fun _ => none) (some { BootOpts.none with rngSeed := some 7 }),
        .called⟩ [.check,.merge,.reserve,.reserve,.acquire]).map
        (fun q => (q.1.phase.failure,(q.1.vm.launchOpts plainHandle).rngSeed)) =
      some (some (.poolExceeded "vm"),none) := by
    decide +kernel
  obtain ⟨⟨t,os⟩,hrun,ht⟩ := Option.map_eq_some_iff.mp hrun
  simp only [Prod.mk.injEq] at ht
  obtain ⟨hphase,hseed⟩ := ht
  have hsame := h _ _ _ _ _ t os _ hrun (BootPhase.failure_eq hphase)
  rw [hsame.options] at hseed
  cases hseed

end Provium.Boot
