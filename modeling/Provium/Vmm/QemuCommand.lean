import Provium.Lab.BridgeNames
import Provium.Lib.Doubled
import Provium.Vmm.DiskIds

/-! QEMU's command line, `build_qemu_command` of `qemu.rs`, and what QEMU reads out of it. A path is its
text. -/
namespace Provium.Vmm
open Lib Provium.Lab

structure NicAttachment where
  bridgeName : String
  nicId : String
  mac : Option String

/-- `file` of a disk is as `build_qemu_command` has it, for an option string. -/
structure QemuLaunchPlan where
  vmName : String
  kernel : String
  initrd : String
  cmdline : String
  cid : ℕ
  memoryBytes : ℕ
  cpus : ℕ
  qmpSocket : String
  consoleLog : String
  consoleSocket : String
  nics : List NicAttachment
  disks : List AttachedDisk
  file : AttachedDisk → String
  ksmEnabled : Bool
  rngSeed : Option ℕ
  initialTimeNs : Option ℤ
  incomingSnapshot : Option String

/-- What `gmtime_r` makes of a number of seconds. -/
structure Tm where
  year : ℤ
  mon : ℕ
  mday : ℕ
  hour : ℕ
  min : ℕ
  sec : ℕ

/-- A text brought to a width, as `{:0…}` does. -/
def zeroPad (width : ℕ) (s : String) : String := String.ofList (List.replicate (width-s.length) '0')++s

/-- `{:0…x}` -/
def hexPad (width n : ℕ) : String := zeroPad width (String.ofList (Nat.toDigits 16 n))

def memoryToQemuArg (bytes : ℕ) : String := toString (max (bytes/(1024*1024)) 1)++"M"

def formatUnixNsIso8601 (gmtime : ℤ → Option Tm) (ns : ℤ) : Option String :=
  if ns < 0 then none
  else (gmtime (ns/1000000000)).bind fun tm =>
    let year := tm.year+1900
    if 1970 ≤ year ∧ year ≤ 9999 then
      some (zeroPad 4 (toString year.toNat)++"-"++zeroPad 2 (toString (tm.mon+1))++"-"++
        zeroPad 2 (toString tm.mday)++"T"++zeroPad 2 (toString tm.hour)++":"++zeroPad 2 (toString tm.min)++":"++
        zeroPad 2 (toString tm.sec))
    else none

def nicMacFor (nicId : String) : String :=
  let h := fnv1aLoop 0xcbf29ce484222325 nicId.toUTF8.toList
  "52:54:00:"++hexPad 2 (h>>>16).toUInt8.toNat++":"++hexPad 2 (h>>>8).toUInt8.toNat++":"++hexPad 2 h.toUInt8.toNat

/-- `opt_value_str`, and `opt_value` of a path. -/
def optValueStr (s : String) : String := String.ofList (s.toList.flatMap fun c => if c = ',' then [',',','] else [c])

/-- What QEMU is to open: the image, or the server at a socket that mediates it. -/
def opened (socket : AttachedDisk → String) (disk : AttachedDisk) : String :=
  if disk.mediated then "nbd+unix:///?socket="++socket disk else disk.path

namespace QemuLaunchPlan

def rtcArgs (gmtime : ℤ → Option Tm) (plan : QemuLaunchPlan) : List (List String) :=
  match plan.initialTimeNs.bind (formatUnixNsIso8601 gmtime) with
  | some iso => [["-rtc","base="++iso++",clock=host"]]
  | none => []

def rngArgs (plan : QemuLaunchPlan) : List (List String) :=
  match plan.rngSeed with
  | some seed => [["-fw_cfg","name=opt/provium/rng-seed,string="++hexPad 16 seed]]
  | none => []

def incomingArgs (plan : QemuLaunchPlan) : List (List String) :=
  match plan.incomingSnapshot with
  | some snap => [["-incoming","file:"++snap]]
  | none => []

def nicArgs (plan : QemuLaunchPlan) (nic : NicAttachment) : List (List String) :=
  [["-netdev","tap,id="++nic.nicId++",ifname="++tapNameForVmOnBridge plan.vmName nic.bridgeName++
      ",script=no,downscript=no"],
    ["-device","virtio-net-pci,netdev="++nic.nicId++",mac="++nic.mac.getD (nicMacFor nic.nicId)]]

/-- Each flag with its value, where it has one. -/
def buildQemuCommand (gmtime : ℤ → Option Tm) (plan : QemuLaunchPlan) : List (List String) :=
  let mem := memoryToQemuArg plan.memoryBytes
  [["-M","q35,accel=kvm,memory-backend=mem"],
    ["-cpu","host"],
    ["-m",mem],
    ["-smp",toString plan.cpus],
    ["-nodefaults"],
    ["-no-reboot"],
    ["-nographic"],
    ["-kernel",plan.kernel],
    ["-initrd",plan.initrd],
    ["-append",plan.cmdline],
    ["-object","memory-backend-ram,id=mem,size="++mem++",merge="++if plan.ksmEnabled then "on" else "off"],
    ["-device","vhost-vsock-pci,guest-cid="++toString plan.cid],
    ["-qmp","unix:"++plan.qmpSocket++",server=on,wait=off"],
    ["-chardev","socket,id=conserial0,path="++plan.consoleSocket++",server=on,wait=off,logfile="++
      plan.consoleLog++",logappend=on"],
    ["-serial","chardev:conserial0"]]++
  plan.rtcArgs gmtime++plan.rngArgs++plan.incomingArgs++plan.nics.flatMap plan.nicArgs++
  (commandLine plan.file plan.disks).map QemuArg.render

end QemuLaunchPlan

/-! What QEMU reads. -/

/-- The flags whose value is not taken apart. -/
def wholeFlags : List String := ["-kernel","-initrd","-append","-incoming"]

/-- A comma separates, and a doubled one is a comma. -/
def splitOption (value : String) : List String := (Doubled.split ',' [] value.toList).map String.ofList

/-- A flag, and its value in pieces. -/
def readArgs : List String → List String
  | [flag,value] => flag::if flag ∈ wholeFlags then [value] else splitOption value
  | args => args

/-- An option that is meant: its flag, and its keys with their values. A value of no key has its kind for one,
or nothing. -/
structure QemuOption where
  flag : String
  values : List (String × String)

namespace QemuOption

def pieces (o : QemuOption) : List String := o.flag::o.values.map fun kv => kv.1++kv.2

end QemuOption

namespace QemuLaunchPlan

def rtcOptions (gmtime : ℤ → Option Tm) (plan : QemuLaunchPlan) : List QemuOption :=
  match plan.initialTimeNs.bind (formatUnixNsIso8601 gmtime) with
  | some iso => [⟨"-rtc",[("base=",iso),("clock=","host")]⟩]
  | none => []

def rngOptions (plan : QemuLaunchPlan) : List QemuOption :=
  match plan.rngSeed with
  | some seed => [⟨"-fw_cfg",[("name=","opt/provium/rng-seed"),("string=",hexPad 16 seed)]⟩]
  | none => []

def incomingOptions (plan : QemuLaunchPlan) : List QemuOption :=
  match plan.incomingSnapshot with
  | some snap => [⟨"-incoming",[("file:",snap)]⟩]
  | none => []

def nicOptions (plan : QemuLaunchPlan) (nic : NicAttachment) : List QemuOption :=
  [⟨"-netdev",[("tap",""),("id=",nic.nicId),("ifname=",tapNameForVmOnBridge plan.vmName nic.bridgeName),
      ("script=","no"),("downscript=","no")]⟩,
    ⟨"-device",[("virtio-net-pci",""),("netdev=",nic.nicId),("mac=",nic.mac.getD (nicMacFor nic.nicId))]⟩]

def diskOptions (file : AttachedDisk → String) (index : ℕ) (disk : AttachedDisk) : List QemuOption :=
  [⟨"-drive",[("if=","none"),("id=",nodeName disk.id),("format=","raw"),("file=",file disk)]++
      (if disk.mediated then [("cache=","none")] else [])++if disk.readonly then [("readonly=","on")] else []⟩,
    ⟨"-device",[("pcie-root-port",""),("id=",portOf disk.id),("chassis=",toString (index+1))]⟩,
    ⟨"-device",[("virtio-blk-pci",""),("drive=",nodeName disk.id),("id=",disk.id),("bus=",portOf disk.id)]⟩]

def portOptions (disks : List AttachedDisk) : List QemuOption :=
  (portNames (disks.map AttachedDisk.id)).mapIdx fun index port =>
    ⟨"-device",[("pcie-root-port",""),("id=",port),("chassis=",toString (disks.length+index+1))]⟩

def baseOptions (plan : QemuLaunchPlan) : List QemuOption :=
  let mem := memoryToQemuArg plan.memoryBytes
  [⟨"-M",[("q35",""),("accel=","kvm"),("memory-backend=","mem")]⟩,
    ⟨"-cpu",[("","host")]⟩,
    ⟨"-m",[("",mem)]⟩,
    ⟨"-smp",[("",toString plan.cpus)]⟩,
    ⟨"-nodefaults",[]⟩,
    ⟨"-no-reboot",[]⟩,
    ⟨"-nographic",[]⟩,
    ⟨"-kernel",[("",plan.kernel)]⟩,
    ⟨"-initrd",[("",plan.initrd)]⟩,
    ⟨"-append",[("",plan.cmdline)]⟩,
    ⟨"-object",[("memory-backend-ram",""),("id=","mem"),("size=",mem),
      ("merge=",if plan.ksmEnabled then "on" else "off")]⟩,
    ⟨"-device",[("vhost-vsock-pci",""),("guest-cid=",toString plan.cid)]⟩,
    ⟨"-qmp",[("unix:",plan.qmpSocket),("server=","on"),("wait=","off")]⟩,
    ⟨"-chardev",[("socket",""),("id=","conserial0"),("path=",plan.consoleSocket),("server=","on"),("wait=","off"),
      ("logfile=",plan.consoleLog),("logappend=","on")]⟩,
    ⟨"-serial",[("chardev:","conserial0")]⟩]

/-- The options that the plan is for, with the files to be opened. -/
def options (gmtime : ℤ → Option Tm) (file : AttachedDisk → String) (plan : QemuLaunchPlan) : List QemuOption :=
  plan.baseOptions++plan.rtcOptions gmtime++plan.rngOptions++plan.incomingOptions++
  plan.nics.flatMap plan.nicOptions++(plan.disks.mapIdx (diskOptions file)).flatten++portOptions plan.disks

end QemuLaunchPlan

/-! An option comes back as it is meant if none of its values has a comma, other than a file. -/

def joinPieces : List String → String
  | [] => ""
  | [p] => p
  | p::ps => p++","++joinPieces ps

theorem toList_joinPieces (ps : List String) :
    (joinPieces ps).toList = Doubled.join ',' (ps.map String.toList) := by
  induction ps with
  | nil => rfl
  | cons p ps ih =>
    cases ps with
    | nil => rfl
    | cons q ps =>
      rw [joinPieces,List.map_cons,List.map_cons,Doubled.join]
      · rw [String.toList_append,String.toList_append,ih,List.append_assoc]
        rfl
      all_goals simp

theorem map_ofList_eq_iff {l : List (List Char)} {ps : List String} :
    l.map String.ofList = ps ↔ l = ps.map String.toList := by
  constructor
  · rintro rfl
    simp
  · rintro rfl
    simp

def NoComma (s : String) : Prop := ',' ∉ s.toList

@[simp] theorem noComma_append {s t : String} : NoComma (s++t) ↔ NoComma s ∧ NoComma t := by
  rw [NoComma,String.toList_append,List.mem_append,not_or]
  rfl

theorem comma_notMem_toDigits {base : ℕ} (hbase : 1 < base) (n : ℕ) : ',' ∉ Nat.toDigits base n := by
  induction n using Nat.strong_induction_on with
  | _ n ih =>
    rw [Nat.toDigits_eq_if hbase]
    split
    · simp
    · next hle =>
      have hrest := ih (n/base) (Nat.div_lt_self (by omega) hbase)
      simp [hrest]

@[simp] theorem noComma_repr (n : ℕ) : NoComma n.repr := by
  rw [NoComma,Nat.toList_repr]
  exact comma_notMem_toDigits (by decide) n

@[simp] theorem noComma_zeroPad {width : ℕ} {s : String} : NoComma (zeroPad width s) ↔ NoComma s := by
  have hzeros : NoComma (String.ofList (List.replicate (width-s.length) '0')) := by
    rw [NoComma,String.toList_ofList]
    exact fun hmem => absurd (List.eq_of_mem_replicate hmem) (by decide)
  rw [zeroPad,noComma_append]
  exact and_iff_right hzeros

@[simp] theorem noComma_hexPad (width n : ℕ) : NoComma (hexPad width n) := by
  rw [hexPad,noComma_zeroPad,NoComma,String.toList_ofList]
  exact comma_notMem_toDigits (by decide) n

theorem noComma_literal {s : String} (h : s.toList.contains ',' = false) : NoComma s := by
  simpa [NoComma] using h

theorem noComma_iso {gmtime : ℤ → Option Tm} {ns : ℤ} {iso : String}
    (h : formatUnixNsIso8601 gmtime ns = some iso) : NoComma iso := by
  unfold formatUnixNsIso8601 at h
  split at h
  · cases h
  · obtain ⟨tm,-,htm⟩ := Option.bind_eq_some_iff.mp h
    dsimp only at htm
    split at htm
    · obtain rfl := Option.some.inj htm
      simp [noComma_literal]
    · cases htm

theorem noComma_nicMac (nicId : String) : NoComma (nicMacFor nicId) := by
  simp [nicMacFor,noComma_literal]

theorem noComma_tapName (vm bridge : String) : NoComma (tapNameForVmOnBridge vm bridge) := by
  rw [tapNameForVmOnBridge,noComma_append]
  refine ⟨noComma_literal (by decide),?_⟩
  rw [NoComma,String.toList_ofList,List.mem_append,not_or]
  constructor
  · intro hmem
    have hclean := (List.mem_filter.mp (List.mem_of_mem_take hmem)).2
    exact absurd hclean (by decide)
  · intro hmem
    obtain ⟨d,-,hd⟩ := List.mem_map.mp hmem
    exact absurd hd (by simp)

theorem noComma_freshName (used : List String) (fuel : ℕ) {name : String} (h : NoComma name) :
    NoComma (freshName used fuel name) := by
  induction fuel generalizing name with
  | zero => exact h
  | succ fuel ih =>
    unfold freshName
    split
    · refine ih ?_
      rw [NoComma,String.toList_push,List.mem_append,not_or]
      exact ⟨h,by decide⟩
    · exact h

theorem noComma_portNames {diskIds : List String} : ∀ port ∈ portNames diskIds, NoComma port := by
  have hfrom : ∀ (is : List ℕ) (used : List String), ∀ port ∈ portNamesFrom used is, NoComma port := by
    intro is
    induction is with
    | nil => exact fun used port hport => nomatch hport
    | cons i is ih =>
      intro used port hport
      obtain rfl | hport := List.mem_cons.mp hport
      · exact noComma_freshName _ _ (by simp [noComma_literal])
      · exact ih _ port hport
  exact hfrom _ _

namespace QemuOption

/-- How the command line has a value. -/
def written (kv : String × String) : String := kv.1++if kv.1 = "file=" then optValueStr kv.2 else kv.2

def render (o : QemuOption) : List String :=
  if o.values = [] then [o.flag] else [o.flag,joinPieces (o.values.map written)]

/-- No value but a file has a comma, unless the flag takes it whole. -/
def Plain (o : QemuOption) : Prop :=
  o.flag ∈ wholeFlags ∨ ∀ kv ∈ o.values, kv.1 ≠ "file=" → NoComma (kv.1++kv.2)

/-- The values behind the first have keys, and one that is taken whole is alone. -/
@[mk_iff]
structure Proper (o : QemuOption) : Prop where
  begins : ∀ kv ∈ o.values.tail, Doubled.Begins ',' (kv.1++kv.2).toList
  whole : o.flag ∈ wholeFlags → ∃ kv, o.values = [kv] ∧ kv.1 ≠ "file="

theorem toList_written (kv : String × String) :
    (written kv).toList = Doubled.write ',' ((kv.1++kv.2).toList,decide (kv.1 = "file=")) := by
  rw [written,Doubled.write]
  by_cases hfile : kv.1 = "file="
  · have hkey : Doubled.double ',' "file=".toList = "file=".toList := by decide
    simp only [hfile,if_true,decide_true,String.toList_append,optValueStr,String.toList_ofList]
    conv_lhs => rw [← hkey]
    rw [Doubled.double,Doubled.double,← List.flatMap_append]
  · simp only [hfile,if_false,decide_false,Bool.false_eq_true]

theorem read_iff {o : QemuOption} (h : o.Proper) : readArgs o.render = o.pieces ↔ o.Plain := by
  unfold render pieces Plain
  by_cases hnil : o.values = []
  · simp [hnil,readArgs]
  rw [if_neg hnil]
  by_cases hwhole : o.flag ∈ wholeFlags
  · obtain ⟨kv,hkv,hkey⟩ := h.whole hwhole
    simp [readArgs,hwhole,hkv,joinPieces,written,hkey]
  · have hjoined : (joinPieces (o.values.map written)).toList =
        Doubled.join ',' ((o.values.map fun kv => ((kv.1++kv.2).toList,decide (kv.1 = "file="))).map
          (Doubled.write ',')) := by
      rw [toList_joinPieces,List.map_map,List.map_map]
      exact congrArg (Doubled.join ',') (List.map_congr_left fun kv _ => toList_written kv)
    have hbegins : ∀ f ∈ (o.values.map fun kv => ((kv.1++kv.2).toList,decide (kv.1 = "file="))).tail,
        Doubled.Begins ',' f.1 := by
      rw [← List.map_tail]
      exact List.forall_mem_map.mpr h.begins
    have hsplit := Doubled.split_join_iff (by simpa using hnil) hbegins
    rw [readArgs,if_neg hwhole,List.cons.injEq,splitOption,map_ofList_eq_iff,hjoined]
    simp only [List.map_map,List.forall_mem_map,decide_eq_false_iff_not] at hsplit
    simp only [true_and,hwhole,false_or,List.map_map]
    exact hsplit

end QemuOption

namespace QemuLaunchPlan

/-- The plan with the files as a launch gives them. -/
def launched (socket : AttachedDisk → String) (plan : QemuLaunchPlan) : QemuLaunchPlan :=
  { plan with file := fun disk => optValueStr (opened socket disk) }

theorem rtcArgs_eq (gmtime : ℤ → Option Tm) (plan : QemuLaunchPlan) :
    plan.rtcArgs gmtime = (plan.rtcOptions gmtime).map QemuOption.render := by
  unfold rtcArgs rtcOptions
  split
  · simp [QemuOption.render,QemuOption.written,joinPieces,← String.toList_inj]
  · rfl

theorem rngArgs_eq (plan : QemuLaunchPlan) : plan.rngArgs = plan.rngOptions.map QemuOption.render := by
  unfold rngArgs rngOptions
  split
  · simp [QemuOption.render,QemuOption.written,joinPieces,← String.toList_inj]
  · rfl

theorem incomingArgs_eq (plan : QemuLaunchPlan) :
    plan.incomingArgs = plan.incomingOptions.map QemuOption.render := by
  unfold incomingArgs incomingOptions
  split
  · simp [QemuOption.render,QemuOption.written,joinPieces]
  · rfl

theorem nicArgs_eq (plan : QemuLaunchPlan) (nic : NicAttachment) :
    plan.nicArgs nic = (plan.nicOptions nic).map QemuOption.render := by
  simp [nicArgs,nicOptions,QemuOption.render,QemuOption.written,joinPieces,← String.toList_inj]

theorem diskArg_eq (socket : AttachedDisk → String) (index : ℕ) (disk : AttachedDisk) :
    [QemuArg.drive (nodeName disk.id) (optValueStr (opened socket disk)) disk.mediated disk.readonly,
        .rootPort (portOf disk.id) (index+1),.virtioBlk (nodeName disk.id) disk.id (portOf disk.id)].map
        QemuArg.render =
      (diskOptions (opened socket) index disk).map QemuOption.render := by
  cases hmediated : disk.mediated <;> cases hreadonly : disk.readonly <;>
    simp [diskOptions,hmediated,hreadonly,QemuArg.render,QemuOption.render,QemuOption.written,joinPieces,
      ← String.toList_inj]

theorem diskArgs_eq (socket : AttachedDisk → String) (disks : List AttachedDisk) :
    (diskArgs (fun disk => optValueStr (opened socket disk)) disks).map QemuArg.render =
      (disks.mapIdx (diskOptions (opened socket))).flatten.map QemuOption.render := by
  rw [diskArgs,List.map_flatten,List.map_flatten,List.mapIdx_eq_zipIdx_map,List.mapIdx_eq_zipIdx_map,List.map_map,
    List.map_map]
  exact congrArg List.flatten (List.map_congr_left fun e _ => diskArg_eq socket e.2 e.1)

theorem portArgs_eq (disks : List AttachedDisk) :
    (portArgs disks).map QemuArg.render = (portOptions disks).map QemuOption.render := by
  rw [portArgs,portOptions,List.mapIdx_eq_zipIdx_map,List.mapIdx_eq_zipIdx_map,List.map_map,List.map_map]
  refine List.map_congr_left fun e _ => ?_
  simp [QemuArg.render,QemuOption.render,QemuOption.written,joinPieces,← String.toList_inj]

theorem buildQemuCommand_eq (gmtime : ℤ → Option Tm) (socket : AttachedDisk → String) (plan : QemuLaunchPlan) :
    (plan.launched socket).buildQemuCommand gmtime =
      (plan.options gmtime (opened socket)).map QemuOption.render := by
  have hnics : plan.nics.flatMap plan.nicArgs = (plan.nics.flatMap plan.nicOptions).map QemuOption.render := by
    rw [List.map_flatMap]
    exact List.flatMap_congr fun nic _ => plan.nicArgs_eq nic
  have hrtc := plan.rtcArgs_eq gmtime
  rw [buildQemuCommand,options,commandLine,List.map_append]
  simp only [List.map_append,← hrtc,← rngArgs_eq,← incomingArgs_eq,← hnics,← diskArgs_eq,← portArgs_eq,
    List.append_assoc]
  refine congrArg₂ (·++·) ?_ rfl
  simp [launched,baseOptions,QemuOption.render,QemuOption.written,joinPieces,← String.toList_inj]
  rfl

theorem diskOptions_proper (file : AttachedDisk → String) (index : ℕ) (disk : AttachedDisk) :
    ∀ o ∈ diskOptions file index disk, o.Proper := by
  cases hmediated : disk.mediated <;> cases hreadonly : disk.readonly <;>
    simp [-Prod.forall,diskOptions,hmediated,hreadonly,QemuOption.proper_iff,wholeFlags]

theorem nicOptions_proper (plan : QemuLaunchPlan) (nic : NicAttachment) :
    ∀ o ∈ plan.nicOptions nic, o.Proper := by
  simp [-Prod.forall,nicOptions,QemuOption.proper_iff,wholeFlags]

theorem options_proper (gmtime : ℤ → Option Tm) (file : AttachedDisk → String) (plan : QemuLaunchPlan) :
    ∀ o ∈ plan.options gmtime file, o.Proper := by
  simp only [options,List.forall_mem_append]
  refine ⟨⟨⟨⟨⟨⟨?_,?_⟩,?_⟩,?_⟩,?_⟩,?_⟩,?_⟩
  · simp [-Prod.forall,baseOptions,QemuOption.proper_iff,wholeFlags]
  · unfold rtcOptions
    split <;> simp [-Prod.forall,QemuOption.proper_iff,wholeFlags]
  · unfold rngOptions
    split <;> simp [-Prod.forall,QemuOption.proper_iff,wholeFlags]
  · unfold incomingOptions
    split <;> simp [-Prod.forall,QemuOption.proper_iff,wholeFlags]
  · intro o ho
    obtain ⟨nic,-,ho⟩ := List.mem_flatMap.mp ho
    exact plan.nicOptions_proper nic o ho
  · intro o ho
    obtain ⟨l,hl,ho⟩ := List.mem_flatten.mp ho
    obtain ⟨index,hindex,rfl⟩ := List.mem_mapIdx.mp hl
    exact diskOptions_proper file index _ o ho
  · intro o ho
    obtain ⟨index,hindex,rfl⟩ := List.mem_mapIdx.mp ho
    simp [-Prod.forall,QemuOption.proper_iff,wholeFlags]

/-- No path, id or address that the command line has as it stands has a comma. -/
structure CommaFree (plan : QemuLaunchPlan) : Prop where
  qmpSocket : NoComma plan.qmpSocket
  consoleSocket : NoComma plan.consoleSocket
  consoleLog : NoComma plan.consoleLog
  nicIds : ∀ nic ∈ plan.nics, NoComma nic.nicId
  macs : ∀ nic ∈ plan.nics, ∀ mac ∈ nic.mac, NoComma mac
  diskIds : ∀ disk ∈ plan.disks, NoComma disk.id

theorem nicOptions_plain_iff (plan : QemuLaunchPlan) (nic : NicAttachment) :
    (∀ o ∈ plan.nicOptions nic, o.Plain) ↔ NoComma nic.nicId ∧ ∀ mac ∈ nic.mac, NoComma mac := by
  have htap := noComma_tapName plan.vmName nic.bridgeName
  have hmac : NoComma (nic.mac.getD (nicMacFor nic.nicId)) ↔ ∀ mac ∈ nic.mac, NoComma mac := by
    cases nic.mac with
    | none => simpa using noComma_nicMac nic.nicId
    | some mac => simp
  simp [-Prod.forall,nicOptions,QemuOption.Plain,wholeFlags,noComma_literal,htap,hmac]

theorem diskOptions_plain_iff (file : AttachedDisk → String) (index : ℕ) (disk : AttachedDisk) :
    (∀ o ∈ diskOptions file index disk, o.Plain) ↔ NoComma disk.id := by
  cases hmediated : disk.mediated <;> cases hreadonly : disk.readonly <;>
    simp [-Prod.forall,diskOptions,hmediated,hreadonly,QemuOption.Plain,wholeFlags,noComma_literal,nodeName,portOf]

theorem portOptions_plain (disks : List AttachedDisk) : ∀ o ∈ portOptions disks, o.Plain := by
  intro o ho
  obtain ⟨index,hindex,rfl⟩ := List.mem_mapIdx.mp ho
  have hport := noComma_portNames _ (List.getElem_mem hindex)
  simp [-Prod.forall,QemuOption.Plain,wholeFlags,noComma_literal,hport]

theorem rtcOptions_plain (gmtime : ℤ → Option Tm) (plan : QemuLaunchPlan) :
    ∀ o ∈ plan.rtcOptions gmtime, o.Plain := by
  unfold rtcOptions
  split
  · next iso hiso =>
    obtain ⟨ns,-,hns⟩ := Option.bind_eq_some_iff.mp hiso
    simp [-Prod.forall,QemuOption.Plain,wholeFlags,noComma_literal,noComma_iso hns]
  · simp

theorem rngOptions_plain (plan : QemuLaunchPlan) : ∀ o ∈ plan.rngOptions, o.Plain := by
  unfold rngOptions
  split <;> simp [-Prod.forall,QemuOption.Plain,wholeFlags,noComma_literal]

theorem incomingOptions_plain (plan : QemuLaunchPlan) : ∀ o ∈ plan.incomingOptions, o.Plain := by
  unfold incomingOptions
  split <;> simp [QemuOption.Plain,wholeFlags]

theorem baseOptions_plain_iff (plan : QemuLaunchPlan) :
    (∀ o ∈ plan.baseOptions, o.Plain) ↔
      NoComma plan.qmpSocket ∧ NoComma plan.consoleSocket ∧ NoComma plan.consoleLog := by
  have hksm : NoComma (if plan.ksmEnabled then "on" else "off") := by
    split <;> simp [noComma_literal]
  simp [-Prod.forall,baseOptions,QemuOption.Plain,wholeFlags,noComma_literal,memoryToQemuArg,hksm]

theorem options_plain_iff (gmtime : ℤ → Option Tm) (file : AttachedDisk → String) (plan : QemuLaunchPlan) :
    (∀ o ∈ plan.options gmtime file, o.Plain) ↔ plan.CommaFree := by
  have hnics : (∀ o ∈ plan.nics.flatMap plan.nicOptions, o.Plain) ↔
      ∀ nic ∈ plan.nics, NoComma nic.nicId ∧ ∀ mac ∈ nic.mac, NoComma mac := by
    simp only [← nicOptions_plain_iff plan,List.mem_flatMap]
    exact ⟨fun h nic hnic o ho => h o ⟨nic,hnic,ho⟩,fun h o ⟨nic,hnic,ho⟩ => h nic hnic o ho⟩
  have hdisks : (∀ o ∈ (plan.disks.mapIdx (diskOptions file)).flatten, o.Plain) ↔
      ∀ disk ∈ plan.disks, NoComma disk.id := by
    constructor
    · intro h disk hdisk
      obtain ⟨index,hindex,rfl⟩ := List.getElem_of_mem hdisk
      refine (diskOptions_plain_iff file index plan.disks[index]).mp fun o ho => h o ?_
      exact List.mem_flatten.mpr ⟨_,List.mem_mapIdx.mpr ⟨index,hindex,rfl⟩,ho⟩
    · intro h o ho
      obtain ⟨l,hl,ho⟩ := List.mem_flatten.mp ho
      obtain ⟨index,hindex,rfl⟩ := List.mem_mapIdx.mp hl
      exact (diskOptions_plain_iff file index _).mpr (h _ (List.getElem_mem hindex)) o ho
  simp only [options,List.forall_mem_append,hnics,hdisks,baseOptions_plain_iff]
  constructor
  · rintro ⟨⟨⟨⟨⟨⟨⟨hqmp,hsocket,hlog⟩,-⟩,-⟩,-⟩,hnics⟩,hdisks⟩,-⟩
    exact ⟨hqmp,hsocket,hlog,fun nic hnic => (hnics nic hnic).1,fun nic hnic => (hnics nic hnic).2,hdisks⟩
  · rintro ⟨hqmp,hsocket,hlog,hids,hmacs,hdisks⟩
    exact ⟨⟨⟨⟨⟨⟨⟨hqmp,hsocket,hlog⟩,plan.rtcOptions_plain gmtime⟩,plan.rngOptions_plain⟩,
      plan.incomingOptions_plain⟩,fun nic hnic => ⟨hids nic hnic,hmacs nic hnic⟩⟩,hdisks⟩,
      portOptions_plain plan.disks⟩

end QemuLaunchPlan

/-- QEMU reads the plan's values out of the command line exactly if no path, id or address that is not
doubled has a comma. -/
theorem launch_line_parses_iff (gmtime : ℤ → Option Tm) (socket : AttachedDisk → String) (plan : QemuLaunchPlan) :
    ((plan.launched socket).buildQemuCommand gmtime).map readArgs =
        (plan.options gmtime (opened socket)).map QemuOption.pieces ↔ plan.CommaFree := by
  rw [QemuLaunchPlan.buildQemuCommand_eq,List.map_map,List.map_inj_left,
    ← QemuLaunchPlan.options_plain_iff gmtime (opened socket)]
  have hread : ∀ o ∈ plan.options gmtime (opened socket),
      ((readArgs ∘ QemuOption.render) o = o.pieces ↔ o.Plain) :=
    fun o ho => QemuOption.read_iff (plan.options_proper gmtime (opened socket) o ho)
  exact forall₂_congr hread

/-- One disk, whose id the configuration may hold. -/
def commaProfile : DiskProfile :=
  ⟨"console=ttyS0",none,none,[⟨"/srv/data.img",some "data,cache=unsafe",false,false⟩],"peios"⟩

def commaPlan : QemuLaunchPlan :=
  ⟨"web","/boot/kernel","/boot/initrd","console=ttyS0",3,2^31,2,"/tmp/vm-3/qmp.sock","/tmp/vm-3/console.log",
    "/tmp/vm-3/console.sock",[],[⟨"data,cache=unsafe","/srv/data.img",false,false⟩],AttachedDisk.path,true,none,
    none,none⟩

/-- The id of a disk makes its drive another one, with a cache of its own. -/
theorem launch_line_leaks :
    validate "provium.toml" [("web",commaProfile)] = .ok () ∧
      resolveDisks commaProfile [] = .ok commaPlan.disks ∧
      ["-drive","if=none","id=data","cache=unsafe-node","format=raw","file=/srv/data.img"] ∈
        ((commaPlan.launched fun _ => "").buildQemuCommand fun _ => none).map readArgs ∧
      ¬∀ (gmtime : ℤ → Option Tm) (socket : AttachedDisk → String) (profile : DiskProfile) (plan : QemuLaunchPlan),
        profile.validateOne "provium.toml" "web" = .ok () → resolveDisks profile [] = .ok plan.disks →
        ((plan.launched socket).buildQemuCommand gmtime).map readArgs =
          (plan.options gmtime (opened socket)).map QemuOption.pieces := by
  refine ⟨by rfl,by rfl,by decide +kernel,fun h => ?_⟩
  have hplan := h (fun _ => none) (fun _ => "") commaProfile commaPlan (by rfl) (by rfl)
  exact absurd hplan (by decide +kernel)

end Provium.Vmm
