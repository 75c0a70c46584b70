import Provium.Lab.BridgeShaping

/-! Whether the TAPs of a bridge's VMs have the qdiscs that the directional impairments ask for. -/
namespace Provium.Lab
open Lib

namespace Site

/-- A new bridge on a host that has none of the interfaces and tables. -/
def new (name : String) (upstream : Option String) : Site :=
  ⟨.new name,⟨fun _ => none,fun _ _ => none,upstream⟩⟩

/-- Every realised TAP has the chain of its VM's worst impairments. -/
def TapsFollow (s : Site) : Prop :=
  ∀ vm ∈ s.bridge.realizedTaps,
    s.host.interfaces (s.bridge.tap vm) = some (chainFor (axes s.bridge.inner.directional vm))

instance (s : Site) : Decidable s.TapsFollow :=
  inferInstanceAs (Decidable (∀ vm ∈ s.bridge.realizedTaps,
    s.host.interfaces (s.bridge.tap vm) = some (chainFor (axes s.bridge.inner.directional vm))))

/-- No call of the run fails, and after each the TAPs follow the records. -/
def TapsFollowAlong (s : Site) : List HostCall → Prop
  | [] => True
  | call::calls =>
    (s.apply call).2 = true ∧ (s.apply call).1.TapsFollow ∧ (s.apply call).1.TapsFollowAlong calls

/-- The calls after which the TAPs still follow. A VM that leaves takes no other realised VM's worst value
with it; and a VM whose TAP is new has no impairments, or others than those that the bridge remembers of
the TAP it had before. -/
def MayShape (s : Site) : HostCall → Prop
  | .record (.detach vm) =>
    ∀ other ∈ s.bridge.realizedTaps, other ≠ vm → Spared s.bridge.inner.directional other vm
  | .realizeForVm vm =>
    vm ∈ s.bridge.realizedTaps ∨ axes s.bridge.inner.directional vm = (0,0,0) ∨
      s.bridge.realizedDirectional.lookup vm ≠ some (axes s.bridge.inner.directional vm)
  | _ => True

def MayShapeAlong (s : Site) : List HostCall → Prop
  | [] => True
  | call::calls => s.MayShape call ∧ (s.apply call).1.MayShapeAlong calls

end Site

/-- The calls that leave the bridge's own netem out. -/
def HostCall.sparesNetem : HostCall → Bool
  | .record (.addLatency _) | .record (.dropRate _) => false
  | _ => true

/-- The interfaces of a bridge and of its VMs have different names. -/
structure DistinctTaps (bridge : String) (vms : Set String) : Prop where
  inj : Set.InjOn (tapNameForVmOnBridge · bridge) vms
  apart : ∀ vm ∈ vms, tapNameForVmOnBridge vm bridge ≠ bridge

/-! ## Commands -/

namespace Host
variable {h : Host} {dev : String}

@[simp] theorem setInterface_self (h : Host) (dev : String) (i : Interface) :
    (h.setInterface dev i).interfaces dev = i := Function.update_self _ _ _

theorem setInterface_ne {dev' : String} (hne : dev' ≠ dev) (i : Interface) :
    (h.setInterface dev i).interfaces dev' = h.interfaces dev' := Function.update_of_ne hne _ _

@[simp] theorem setInterface_tables (h : Host) (dev : String) (i : Interface) :
    (h.setInterface dev i).tables = h.tables := rfl

@[simp] theorem setInterface_twice (h : Host) (dev : String) (i j : Interface) :
    (h.setInterface dev i).setInterface dev j = h.setInterface dev j := by simp [setInterface]

theorem setInterface_same {i : Interface} (hi : h.interfaces dev = i) : h.setInterface dev i = h := by
  subst hi
  simp [setInterface]

@[simp] theorem setTable_interfaces (h : Host) (family : NftFamily) (name : String)
    (table : Option (List NftRule)) : (h.setTable family name table).interfaces = h.interfaces := rfl

theorem run_ok {command : Interface → Option Interface} {i : Interface}
    (hc : command (h.interfaces dev) = some i) : h.run dev command = (h.setInterface dev i,true) := by
  unfold run
  rw [hc]

/-- A command on an interface does nothing to the others. -/
theorem run_ne (command : Interface → Option Interface) {dev' : String} (hne : dev' ≠ dev) :
    (h.run dev command).1.interfaces dev' = h.interfaces dev' := by
  unfold run
  split
  · exact setInterface_ne hne _
  · rfl

theorem run_tables (h : Host) (dev : String) (command : Interface → Option Interface) :
    (h.run dev command).1.tables = h.tables := by
  unfold run
  split <;> rfl

/-- Once the root has been deleted there is none. -/
theorem ignoring_qdiscDel {root : Option Shaping} (hi : h.interfaces dev = some root) :
    h.ignoring dev Interface.qdiscDel = h.setInterface dev (some none) := by
  unfold ignoring
  cases root with
  | none =>
    rw [setInterface_same hi]
    simp [run,hi,Interface.qdiscDel]
  | some shaping =>
    rw [run_ok (i := some none)]
    rw [hi]
    rfl

theorem andThen_ok {r : Host × Bool} {h' : Host} (hr : r = (h',true)) (next : Host → Host × Bool) :
    andThen r next = next h' := by
  rw [hr]
  rfl

/-- After a deletion there is no interface, whether there was one or not. -/
theorem ignoring_del (h : Host) (dev dev' : String) : (h.ignoring dev Interface.del).interfaces dev' =
    if dev' = dev then none else h.interfaces dev' := by
  unfold ignoring run
  by_cases hdev : dev' = dev
  · subst hdev
    rw [if_pos rfl]
    cases hi : h.interfaces dev' with
    | none => exact hi
    | some root => exact setInterface_self _ _ _
  · rw [if_neg hdev]
    split
    · exact setInterface_ne hdev _
    · rfl

theorem install_netem {lat drop : ℕ} (hi : h.interfaces dev = some none) (hsome : ¬(lat = 0 ∧ drop = 0)) :
    installNetemRoot dev lat drop h = (h.setInterface dev (some (chainFor (lat,drop,0))),true) := by
  rw [chainFor_netem hsome]
  exact run_ok (by rw [hi]; rfl)

theorem install_htb {lat drop bps : ℕ} (hi : h.interfaces dev = some none) (hbps : 0 < bps) :
    installHtbWithOptionalNetem dev lat drop bps h =
      (h.setInterface dev (some (chainFor (lat,drop,bps))),true) := by
  have hroot : h.run dev (Interface.qdiscAdd (.htb none)) =
      (h.setInterface dev (some (some (.htb none))),true) := run_ok (by rw [hi]; rfl)
  have hclass : (h.setInterface dev (some (some (.htb none)))).run dev
      (Interface.classAdd bps bps (max (bps/800) 1500)) =
      (h.setInterface dev (some (some (.htb (some ⟨bps,bps,max (bps/800) 1500,none⟩)))),true) := by
    rw [run_ok (by rw [setInterface_self]; rfl),setInterface_twice]
  unfold installHtbWithOptionalNetem
  rw [andThen_ok hroot,andThen_ok hclass,chainFor_htb hbps]
  by_cases hchild : 0 < lat ∨ 0 < drop
  · rw [if_pos hchild,run_ok (by rw [setInterface_self]; rfl),setInterface_twice,if_neg (by omega)]
  · rw [if_neg hchild,if_pos (by omega)]

end Host

namespace HostedBridge
variable {b : HostedBridge} {h : Host} {vm : String}

/-- The TAP's step of `realize_for_vm` brings the chain up to date, unless the bridge believes that it is:
where the TAP is new and the bridge remembers the one before, it stays bare. -/
theorem directionalStep_eq {root : Option Shaping} (hi : h.interfaces (b.tap vm) = some root)
    (hroot : root = chainFor ((b.realizedDirectional.lookup vm).getD (0,0,0)) ∨ root = none) :
    b.directionalStep vm h = (h.setInterface (b.tap vm)
      (some (if b.realizedDirectional.lookup vm = b.inner.collapsedDirectionalFor vm then root
        else chainFor (axes b.inner.directional vm))),true) := by
  unfold directionalStep
  by_cases hsame : b.realizedDirectional.lookup vm = b.inner.collapsedDirectionalFor vm
  · simp only [if_pos hsame]
    rw [Host.setInterface_same hi]
  · simp only [if_neg hsame]
    have hbare : (if (b.realizedDirectional.lookup vm).isSome then h.ignoring (b.tap vm) Interface.qdiscDel
        else h) = h.setInterface (b.tap vm) (some none) := by
      split
      · exact Host.ignoring_qdiscDel hi
      · next hnone =>
        rw [Option.not_isSome_iff_eq_none.mp hnone] at hroot
        obtain rfl : root = none := by simpa [chainFor] using hroot
        rw [Host.setInterface_same hi]
    rw [hbare]
    have haxes := collapsed_getD b.inner vm
    cases ht : b.inner.collapsedDirectionalFor vm with
    | none =>
      rw [ht] at haxes
      rw [← haxes]
      rfl
    | some t =>
      obtain ⟨lat,drop,bps⟩ := t
      have hsome := collapsed_proper ht
      rw [ht] at haxes
      rw [← haxes]
      simp only [Option.getD_some]
      split
      · next hbps => rw [Host.install_htb (Host.setInterface_self _ _ _) hbps,Host.setInterface_twice]
      · next hbps =>
        obtain rfl : bps = 0 := by omega
        rw [Host.install_netem (Host.setInterface_self _ _ _) (by simpa using hsome),
          Host.setInterface_twice]

end HostedBridge

namespace Site
variable {s : Site} {vms : Set String}

/-- What holds between a bridge and its host as long as no realised TAP is missing its chain, apart from
whether the chain is up to date. -/
structure Shaped (vms : Set String) (s : Site) : Prop where
  distinct : DistinctTaps s.bridge.name vms
  realized : ∀ vm ∈ s.bridge.realizedTaps, s.bridge.realized = true ∧ vm ∈ vms
  quiet : s.bridge.inner.targetNetem = none ∧ s.bridge.realizedNetem = none
  proper : ∀ vm t, s.bridge.realizedDirectional.lookup vm = some t → t ≠ (0,0,0)
  absent : ∀ vm ∈ vms, vm ∉ s.bridge.realizedTaps → s.host.interfaces (s.bridge.tap vm) = none
  cached : ∀ vm ∈ s.bridge.realizedTaps, s.host.interfaces (s.bridge.tap vm) =
    some (chainFor ((s.bridge.realizedDirectional.lookup vm).getD (0,0,0)))

theorem Shaped.new {name : String} (upstream : Option String) (h : DistinctTaps name vms) :
    (new name upstream).Shaped vms := by
  refine ⟨h,fun vm hvm => (by cases hvm),⟨rfl,rfl⟩,fun vm t ht => ?_,fun _ _ _ => rfl,fun vm hvm => (by cases hvm)⟩
  cases ht

/-- The TAPs follow exactly if the bridge remembers of each what its impairments are. -/
theorem Shaped.follows_iff (h : s.Shaped vms) : s.TapsFollow ↔ ∀ vm ∈ s.bridge.realizedTaps,
    (s.bridge.realizedDirectional.lookup vm).getD (0,0,0) = axes s.bridge.inner.directional vm := by
  refine forall₂_congr fun vm hvm => ?_
  rw [h.cached vm hvm,Option.some.injEq]
  exact chainFor_injective.eq_iff

/-- Neither the tables nor the bridge's own interface matter to the TAPs. -/
theorem Shaped.congr {b : HostedBridge} {host : Host} (h : s.Shaped vms)
    (hquiet : b.inner.targetNetem = none) (hname : b.name = s.bridge.name)
    (htaps : b.realizedTaps = s.bridge.realizedTaps) (hr : b.realized = s.bridge.realized)
    (hnetem : b.realizedNetem = none)
    (hdirectional : b.realizedDirectional = s.bridge.realizedDirectional)
    (hhost : ∀ dev, dev ≠ s.bridge.name → host.interfaces dev = s.host.interfaces dev) :
    Shaped vms ⟨b,host⟩ := by
  obtain ⟨name,inner,realized,taps,netem,directional,uplink⟩ := b
  obtain rfl := hname
  obtain rfl := htaps
  obtain rfl := hr
  obtain rfl := hdirectional
  have hsame : ∀ vm ∈ vms, host.interfaces (s.bridge.tap vm) = s.host.interfaces (s.bridge.tap vm) :=
    fun vm hvm => hhost _ (h.distinct.apart vm hvm)
  refine ⟨h.distinct,h.realized,⟨hquiet,hnetem⟩,h.proper,fun vm hvm hnot => ?_,fun vm hvm => ?_⟩
  · exact (hsame vm hvm).trans (h.absent vm hvm hnot)
  · exact (hsame vm (h.realized vm hvm).2).trans (h.cached vm hvm)

theorem TapsFollow.congr {b : HostedBridge} {host : Host} (h : s.TapsFollow) (hs : s.Shaped vms)
    (hname : b.name = s.bridge.name) (htaps : b.realizedTaps = s.bridge.realizedTaps)
    (hdirectional : b.inner.directional = s.bridge.inner.directional)
    (hhost : ∀ dev, dev ≠ s.bridge.name → host.interfaces dev = s.host.interfaces dev) :
    TapsFollow ⟨b,host⟩ := by
  intro vm hvm
  change vm ∈ b.realizedTaps at hvm
  rw [htaps] at hvm
  have hdev : b.tap vm = s.bridge.tap vm := by simp [HostedBridge.tap,hname]
  change host.interfaces (b.tap vm) = some (chainFor (axes b.inner.directional vm))
  rw [hdev,hdirectional,hhost (s.bridge.tap vm) (hs.distinct.apart vm (hs.realized vm hvm).2)]
  exact h vm hvm

/-! ## Realising -/

/-- What `realize_for_vm` finds or makes before it turns to the chain. -/
theorem realizeCommands_eq (h : s.Shaped vms) {vm : String} (hvm : vm ∈ vms) : ∃ host : Host,
    s.bridge.realizeCommands vm s.host = s.bridge.directionalStep vm host ∧
    (∀ dev, dev ≠ s.bridge.name → dev ≠ s.bridge.tap vm → host.interfaces dev = s.host.interfaces dev) ∧
    host.interfaces (s.bridge.tap vm) = some (if vm ∈ s.bridge.realizedTaps then
      chainFor ((s.bridge.realizedDirectional.lookup vm).getD (0,0,0)) else none) := by
  have hnetem : ∀ host, s.bridge.netemStep host = (host,true) := fun host => by
    unfold HostedBridge.netemStep
    rw [h.quiet.1,h.quiet.2]
    exact if_pos rfl
  obtain ⟨host,hhost,hothers⟩ : ∃ host,
      (if s.bridge.realized then (s.host,true) else s.host.run s.bridge.name Interface.add) = (host,true) ∧
      ∀ dev, dev ≠ s.bridge.name → host.interfaces dev = s.host.interfaces dev := by
    by_cases hr : s.bridge.realized
    · rw [if_pos hr]
      exact ⟨s.host,rfl,fun _ _ => rfl⟩
    · rw [if_neg hr]
      cases hi : s.host.interfaces s.bridge.name with
      | none => exact ⟨_,Host.run_ok (by rw [hi]; rfl),fun dev hdev => Host.setInterface_ne hdev _⟩
      | some root => exact ⟨_,Host.run_ok (by rw [hi]; rfl),fun dev hdev => Host.setInterface_ne hdev _⟩
  have htap := hothers (s.bridge.tap vm) (h.distinct.apart vm hvm)
  unfold HostedBridge.realizeCommands
  rw [Host.andThen_ok hhost,Host.andThen_ok (hnetem host)]
  by_cases hin : vm ∈ s.bridge.realizedTaps
  · refine ⟨host,?_,fun dev hname _ => hothers dev hname,?_⟩
    · rw [if_pos hin,Host.andThen_ok rfl]
    · rw [htap,h.cached vm hin,if_pos hin]
  · refine ⟨host.setInterface (s.bridge.tap vm) (some none),?_,fun dev hname hdev => ?_,?_⟩
    · rw [if_neg hin,Host.andThen_ok (Host.run_ok _)]
      rw [htap,h.absent vm hvm hin]
      rfl
    · rw [Host.setInterface_ne hdev]
      exact hothers dev hname
    · rw [Host.setInterface_self,if_neg hin]

theorem realizeForVm_of_commands {vm : String} {host : Host}
    (hc : s.bridge.realizeCommands vm s.host = (host,true)) :
    s.realizeForVm vm = (⟨s.bridge.noteRealized vm,host⟩,true) := by
  unfold realizeForVm
  rw [hc]
  rfl

theorem realizeForVm_eq (h : s.Shaped vms) {vm : String} (hvm : vm ∈ vms) : ∃ host : Host,
    s.realizeForVm vm = (⟨s.bridge.noteRealized vm,host⟩,true) ∧
    (∀ dev, dev ≠ s.bridge.name → dev ≠ s.bridge.tap vm → host.interfaces dev = s.host.interfaces dev) ∧
    host.interfaces (s.bridge.tap vm) =
      some (if vm ∉ s.bridge.realizedTaps ∧
          s.bridge.realizedDirectional.lookup vm = s.bridge.inner.collapsedDirectionalFor vm then none
        else chainFor (axes s.bridge.inner.directional vm)) := by
  obtain ⟨host,hcommands,hothers,htap⟩ := realizeCommands_eq h hvm
  have hroot : (if vm ∈ s.bridge.realizedTaps then
      chainFor ((s.bridge.realizedDirectional.lookup vm).getD (0,0,0)) else none) =
      chainFor ((s.bridge.realizedDirectional.lookup vm).getD (0,0,0)) ∨
      (if vm ∈ s.bridge.realizedTaps then
        chainFor ((s.bridge.realizedDirectional.lookup vm).getD (0,0,0)) else none) = none := by
    split
    · exact .inl rfl
    · exact .inr rfl
  have hstep := HostedBridge.directionalStep_eq htap hroot
  refine ⟨_,realizeForVm_of_commands (hcommands.trans hstep),fun dev hname hdev => ?_,?_⟩
  · rw [Host.setInterface_ne hdev]
    exact hothers dev hname hdev
  · rw [Host.setInterface_self]
    by_cases hsame : s.bridge.realizedDirectional.lookup vm = s.bridge.inner.collapsedDirectionalFor vm
    · rw [if_pos hsame]
      by_cases hin : vm ∈ s.bridge.realizedTaps
      · rw [if_pos hin,if_neg (by tauto),hsame,collapsed_getD]
      · rw [if_neg hin,if_pos (by tauto)]
    · rw [if_neg hsame,if_neg (by tauto)]

/-- After it the bridge remembers of the VM what its impairments are, and of the others what it did. -/
theorem lookup_noteRealized (b : HostedBridge) (vm other : String) :
    (b.noteRealized vm).realizedDirectional.lookup other =
      if other = vm then b.inner.collapsedDirectionalFor vm else b.realizedDirectional.lookup other := by
  unfold HostedBridge.noteRealized
  by_cases ho : other = vm
  · subst ho
    rw [if_pos rfl]
    cases b.inner.collapsedDirectionalFor other with
    | none => exact AList.lookup_erase _ _
    | some t => exact AList.lookup_insert _
  · rw [if_neg ho]
    cases b.inner.collapsedDirectionalFor vm with
    | none => exact AList.lookup_erase_ne ho
    | some t => exact AList.lookup_insert_ne ho

/-- A VM whose TAP is there already, or whose TAP does not stay bare, is realised with its chain. -/
theorem Shaped.realize (h : s.Shaped vms) {vm : String} (hvm : vm ∈ vms) (hmay : s.MayShape (.realizeForVm vm)) :
    ∃ host, s.realizeForVm vm = (⟨s.bridge.noteRealized vm,host⟩,true) ∧
      Shaped vms ⟨s.bridge.noteRealized vm,host⟩ := by
  obtain ⟨host,heq,hothers,htap⟩ := realizeForVm_eq h hvm
  refine ⟨host,heq,h.distinct,fun other ho => ?_,⟨h.quiet.1,h.quiet.1⟩,fun other t ht => ?_,fun other hov hnot => ?_,
    fun other ho => ?_⟩
  · obtain rfl | ho := List.mem_insert_iff.mp ho
    · exact ⟨rfl,hvm⟩
    · exact ⟨rfl,(h.realized other ho).2⟩
  · change (s.bridge.noteRealized vm).realizedDirectional.lookup other = some t at ht
    rw [lookup_noteRealized] at ht
    split at ht
    · exact collapsed_proper ht
    · exact h.proper other t ht
  · have hnot : other ≠ vm ∧ other ∉ s.bridge.realizedTaps := by
      change other ∉ s.bridge.realizedTaps.insert vm at hnot
      rw [List.mem_insert_iff] at hnot
      tauto
    have hdev : s.bridge.tap other ≠ s.bridge.tap vm := fun he => hnot.1 (h.distinct.inj hov hvm he)
    exact (hothers _ (h.distinct.apart other hov) hdev).trans (h.absent other hov hnot.2)
  · change host.interfaces (s.bridge.tap other) =
      some (chainFor (((s.bridge.noteRealized vm).realizedDirectional.lookup other).getD (0,0,0)))
    rw [lookup_noteRealized]
    by_cases hself : other = vm
    · subst hself
      rw [if_pos rfl,collapsed_getD,htap]
      split
      · next hbare =>
        -- only where there is nothing to install may the TAP stay bare
        obtain hin | hzero | hstale := hmay
        · exact absurd hin hbare.1
        · rw [hzero]
          rfl
        · rw [collapsedDirectionalFor_eq] at hbare
          split at hbare
          · next hzero =>
            rw [hzero]
            rfl
          · exact absurd hbare.2 hstale
      · rfl
    · have ho : other ∈ s.bridge.realizedTaps := by
        obtain rfl | ho := List.mem_insert_iff.mp ho
        · exact absurd rfl hself
        · exact ho
      have hov := (h.realized other ho).2
      have hdev : s.bridge.tap other ≠ s.bridge.tap vm := fun he => hself (h.distinct.inj hov hvm he)
      rw [if_neg hself,hothers (s.bridge.tap other) (h.distinct.apart other hov) hdev]
      exact h.cached other ho

/-- Realising realised VMs again brings their chains up to date, and leaves the others alone. -/
theorem Shaped.realizeAll (list : List String) (h : s.Shaped vms)
    (hin : ∀ vm ∈ list, vm ∈ s.bridge.realizedTaps) :
    (s.realizeAll list).Shaped vms ∧ (s.realizeAll list).bridge.inner = s.bridge.inner ∧
      (s.realizeAll list).bridge.realizedTaps = s.bridge.realizedTaps ∧
      ∀ vm, vm ∈ list ∨ (s.bridge.realizedDirectional.lookup vm).getD (0,0,0) = axes s.bridge.inner.directional vm →
        ((s.realizeAll list).bridge.realizedDirectional.lookup vm).getD (0,0,0) =
          axes s.bridge.inner.directional vm := by
  induction list generalizing s with
  | nil =>
    refine ⟨h,rfl,rfl,fun vm hvm => ?_⟩
    obtain hvm | hvm := hvm
    · cases hvm
    · exact hvm
  | cons vm list ih =>
    have hvm := hin vm (by simp)
    obtain ⟨host,heq,hshaped⟩ := h.realize (h.realized vm hvm).2 (.inl hvm)
    have htaps : (s.bridge.noteRealized vm).realizedTaps = s.bridge.realizedTaps := List.insert_of_mem hvm
    have hstep : s.realizeAll (vm::list) = realizeAll ⟨s.bridge.noteRealized vm,host⟩ list := by
      rw [realizeAll,heq]
      rfl
    obtain ⟨hafter,hinner,htaps',hdone⟩ := ih hshaped fun other ho => by
      rw [htaps]
      exact hin other (by simp [ho])
    rw [hstep]
    refine ⟨hafter,hinner,htaps'.trans htaps,fun other ho => hdone other ?_⟩
    by_cases hself : other = vm
    · subst hself
      right
      rw [lookup_noteRealized,if_pos rfl]
      exact collapsed_getD _ _
    · obtain ho | ho := ho
      · obtain rfl | ho := List.mem_cons.mp ho
        · exact absurd rfl hself
        · exact .inl ho
      · right
        rw [lookup_noteRealized,if_neg hself]
        exact ho

/-- After `refresh_directional` the TAPs follow. -/
theorem Shaped.refreshDirectional (h : s.Shaped vms) :
    s.refreshDirectional.Shaped vms ∧ s.refreshDirectional.TapsFollow := by
  unfold Site.refreshDirectional
  split
  · obtain ⟨hafter,hinner,htaps,hdone⟩ := h.realizeAll s.bridge.realizedTaps fun _ hvm => hvm
    refine ⟨hafter,hafter.follows_iff.mpr fun vm hvm => ?_⟩
    rw [htaps] at hvm
    rw [hinner]
    exact hdone vm (.inl hvm)
  · next hr =>
    refine ⟨h,fun vm hvm => ?_⟩
    exact absurd (h.realized vm hvm).1 hr

/-! ## The other calls -/

theorem refreshPartitions_bridge (s : Site) : s.refreshPartitions.bridge = s.bridge := by
  unfold refreshPartitions
  split <;> rfl

theorem refreshPartitions_interfaces (s : Site) :
    s.refreshPartitions.host.interfaces = s.host.interfaces := by
  unfold refreshPartitions
  split <;> rfl

theorem uplinkCommands_interfaces (b : HostedBridge) (h : Host) :
    (b.uplinkCommands h).interfaces = h.interfaces := by
  unfold HostedBridge.uplinkCommands
  split <;> rfl

theorem refreshUplink_interfaces (s : Site) : s.refreshUplink.host.interfaces = s.host.interfaces := by
  unfold refreshUplink
  split
  · rfl
  · exact uplinkCommands_interfaces s.bridge s.host

theorem refreshBandwidth_others (s : Site) (hquiet : s.bridge.inner.targetNetem = none) :
    s.refreshBandwidth.bridge = s.bridge ∧
      ∀ dev, dev ≠ s.bridge.name → s.refreshBandwidth.host.interfaces dev = s.host.interfaces dev := by
  unfold refreshBandwidth
  simp only [hquiet,Option.isSome_none,Bool.false_eq_true,if_false]
  split
  · exact ⟨rfl,fun _ _ => rfl⟩
  · split
    · exact ⟨rfl,fun dev hdev => Host.run_ne _ hdev⟩
    · exact ⟨rfl,fun dev hdev => Host.run_ne _ hdev⟩

theorem refreshNetem_quiet (hquiet : s.bridge.inner.targetNetem = none) (hidle : s.bridge.realizedNetem = none) :
    s.refreshNetem = s := by
  unfold refreshNetem
  rw [hquiet,hidle]
  split <;> rfl

/-- The bridge has the same TAPs, memories and directional records as before, and its TAPs are as they
were. -/
structure Aside (s s' : Site) : Prop where
  name : s'.bridge.name = s.bridge.name
  taps : s'.bridge.realizedTaps = s.bridge.realizedTaps
  realized : s'.bridge.realized = s.bridge.realized
  netem : s'.bridge.realizedNetem = s.bridge.realizedNetem
  memories : s'.bridge.realizedDirectional = s.bridge.realizedDirectional
  quiet : s.bridge.inner.targetNetem = none → s'.bridge.inner.targetNetem = none
  directional : s'.bridge.inner.directional = s.bridge.inner.directional
  interfaces : ∀ dev, dev ≠ s.bridge.name → s'.host.interfaces dev = s.host.interfaces dev

theorem Shaped.aside {s' : Site} (h : s.Shaped vms) (ha : Aside s s') : s'.Shaped vms :=
  (h.congr (ha.quiet h.quiet.1) ha.name ha.taps ha.realized
    (ha.netem.trans h.quiet.2) ha.memories ha.interfaces : Shaped vms ⟨s'.bridge,s'.host⟩)

theorem TapsFollow.aside {s' : Site} (h : s.TapsFollow) (hs : s.Shaped vms) (ha : Aside s s') :
    s'.TapsFollow :=
  (h.congr hs ha.name ha.taps ha.directional ha.interfaces : TapsFollow ⟨s'.bridge,s'.host⟩)

theorem Aside.trans {s' s'' : Site} (h : Aside s s') (h' : Aside s' s'') : Aside s s'' where
  name := h'.name.trans h.name
  taps := h'.taps.trans h.taps
  realized := h'.realized.trans h.realized
  netem := h'.netem.trans h.netem
  memories := h'.memories.trans h.memories
  quiet := h'.quiet ∘ h.quiet
  directional := h'.directional.trans h.directional
  interfaces := fun dev hdev => (h'.interfaces dev (by rwa [h.name])).trans (h.interfaces dev hdev)

theorem refreshPartitions_aside (s : Site) : Aside s s.refreshPartitions := by
  have hb := refreshPartitions_bridge s
  constructor <;> simp [hb,refreshPartitions_interfaces]

theorem refreshUplink_aside (s : Site) : Aside s s.refreshUplink := by
  have hi := refreshUplink_interfaces s
  unfold refreshUplink at hi ⊢
  split at hi
  · next h =>
    rw [if_pos h]
    exact ⟨rfl,rfl,rfl,rfl,rfl,id,rfl,fun _ _ => rfl⟩
  · next h =>
    rw [if_neg h]
    exact ⟨rfl,rfl,rfl,rfl,rfl,id,rfl,fun dev _ => congrFun hi dev⟩

theorem refreshBandwidth_aside (hquiet : s.bridge.inner.targetNetem = none) : Aside s s.refreshBandwidth := by
  obtain ⟨hb,hi⟩ := refreshBandwidth_others s hquiet
  constructor <;> simp [hb]
  exact hi

theorem Shaped.dropTap (h : s.Shaped vms) (vm : String) : (s.dropTap vm).Shaped vms := by
  have hkeeps : ∀ other, other ∈ s.bridge.realizedTaps.filter (· ≠ vm) ↔
      other ∈ s.bridge.realizedTaps ∧ other ≠ vm := by simp
  by_cases hin : vm ∈ s.bridge.realizedTaps
  · have hhost : ∀ other ∈ vms, (s.dropTap vm).host.interfaces (s.bridge.tap other) =
        if other = vm then none else s.host.interfaces (s.bridge.tap other) := fun other ho => by
      change (if _ ∧ _ then _ else _ : Host).interfaces _ = _
      rw [if_pos ⟨(h.realized vm hin).1,hin⟩,Host.ignoring_del]
      have hsame : s.bridge.tap other = s.bridge.tap vm ↔ other = vm :=
        h.distinct.inj.eq_iff ho (h.realized vm hin).2
      simp only [hsame]
    refine ⟨h.distinct,fun other ho => ?_,h.quiet,h.proper,fun other hov hnot => ?_,fun other ho => ?_⟩
    · exact h.realized other ((hkeeps other).mp ho).1
    · refine (hhost other hov).trans ?_
      split
      · rfl
      · next hne => exact h.absent other hov fun ho => hnot ((hkeeps other).mpr ⟨ho,hne⟩)
    · obtain ⟨ho,hne⟩ := (hkeeps other).mp ho
      refine (hhost other (h.realized other ho).2).trans ?_
      rw [if_neg hne]
      exact h.cached other ho
  · have hhost : (s.dropTap vm).host = s.host := if_neg (by tauto)
    refine ⟨h.distinct,fun other ho => ?_,h.quiet,h.proper,fun other hov hnot => ?_,fun other ho => ?_⟩
    · exact h.realized other ((hkeeps other).mp ho).1
    · rw [hhost]
      refine h.absent other hov fun ho => hnot ((hkeeps other).mpr ⟨ho,?_⟩)
      rintro rfl
      exact hin ho
    · rw [hhost]
      exact h.cached other ((hkeeps other).mp ho).1

theorem deleteTaps_interfaces (b : HostedBridge) (list : List String) (h : Host) (dev : String) :
    (deleteTaps b h list).interfaces dev =
      if dev ∈ list.map b.tap then none else h.interfaces dev := by
  induction list generalizing h with
  | nil => rfl
  | cons vm list ih =>
    rw [deleteTaps,ih,Host.ignoring_del]
    by_cases hdev : dev = b.tap vm <;> simp [hdev]

theorem Shaped.unrealize (h : s.Shaped vms) : s.unrealize.Shaped vms := by
  refine ⟨h.distinct,fun vm hvm => (by cases hvm),⟨h.quiet.1,rfl⟩,fun vm t ht => (by cases ht),
    fun vm hvm _ => ?_,fun vm hvm => (by cases hvm)⟩
  have hgone : ∀ host : Host, host.interfaces = s.host.interfaces →
      (deleteTaps s.bridge host s.bridge.realizedTaps).interfaces (s.bridge.tap vm) = none := fun host hhost => by
    rw [deleteTaps_interfaces]
    split
    · rfl
    · next hnot =>
      rw [hhost]
      exact h.absent vm hvm fun hin => hnot (List.mem_map_of_mem hin)
  have htables : (if s.bridge.uplinkRealized then
      (s.host.setTable .bridge (partitionTableFor s.bridge.name) none).setTable .ip
        (uplinkTableFor s.bridge.name) none
      else s.host.setTable .bridge (partitionTableFor s.bridge.name) none).interfaces = s.host.interfaces := by
    split <;> rfl
  change (if s.bridge.realized then _ else _ : Host).interfaces (s.bridge.tap vm) = none
  split
  · rw [Host.ignoring_del]
    split
    · rfl
    · exact hgone _ htables
  · exact hgone _ htables

/-- The records that a call leaves want no netem, if none is asked for. -/
theorem targetNetem_apply {b : BridgeInner} {op : BridgeOp} (hspare : (HostCall.record op).sparesNetem)
    (h : b.targetNetem = none) : (b.apply op).targetNetem = none := by
  cases op with
  | addLatency ms => cases hspare
  | dropRate pct => cases hspare
  | reset => rfl
  | _ => exact h

theorem Shaped.record (h : s.Shaped vms) {op : BridgeOp} (hspare : (HostCall.record op).sparesNetem) :
    (s.recorded op).Shaped vms :=
  h.congr (targetNetem_apply hspare h.quiet.1) rfl rfl rfl h.quiet.2 rfl fun _ _ => rfl

/-- A call that records nothing directional and refreshes no TAP. -/
theorem recorded_aside (s : Site) {op : BridgeOp} (hspare : (HostCall.record op).sparesNetem)
    (hdirectional : (s.bridge.inner.apply op).directional = s.bridge.inner.directional) :
    Aside s (s.recorded op) :=
  ⟨rfl,rfl,rfl,rfl,rfl,targetNetem_apply hspare,hdirectional,fun _ _ => rfl⟩

theorem Shaped.detach (h : s.Shaped vms) (vm : String) : (s.apply (.record (.detach vm))).1.Shaped vms :=
  have hrecord : (s.recorded (.detach vm)).Shaped vms := h.record rfl
  (hrecord.dropTap vm).aside (refreshPartitions_aside _)

/-- After a detach the TAPs follow exactly if no other VM loses its worst value. -/
theorem detach_follows_iff (h : s.Shaped vms) (hf : s.TapsFollow) (vm : String) :
    (s.apply (.record (.detach vm))).1.TapsFollow ↔ s.MayShape (.record (.detach vm)) := by
  rw [(h.detach vm).follows_iff]
  have hb : (s.apply (.record (.detach vm))).1.bridge = ((s.recorded (.detach vm)).dropTap vm).bridge :=
    refreshPartitions_bridge _
  rw [hb]
  have hmembers : ∀ other, other ∈ ((s.recorded (.detach vm)).dropTap vm).bridge.realizedTaps ↔
      other ∈ s.bridge.realizedTaps ∧ other ≠ vm := fun other => by
    simp [dropTap,recorded]
  simp only [hmembers,and_imp]
  refine forall₂_congr fun other ho => forall_congr' fun hne => ?_
  rw [← axes_detach_iff hne]
  change (s.bridge.realizedDirectional.lookup other).getD (0,0,0) = axes (s.bridge.inner.detach vm).directional other ↔ _
  rw [h.follows_iff.mp hf other ho]
  exact eq_comm

/-- A VM is realised with its chain exactly if its TAP does not stay bare. -/
theorem realize_follows_iff (h : s.Shaped vms) (hf : s.TapsFollow) {vm : String} (hvm : vm ∈ vms) :
    (s.realizeForVm vm).1.TapsFollow ↔ s.MayShape (.realizeForVm vm) := by
  constructor
  · intro hafter
    by_contra hnot
    unfold MayShape at hnot
    push Not at hnot
    obtain ⟨hin,hsome,hstale⟩ := hnot
    obtain ⟨host,heq,-,htap⟩ := realizeForVm_eq h hvm
    rw [heq] at hafter
    have hchain := hafter vm (List.mem_insert_self ..)
    rw [collapsedDirectionalFor_eq,if_neg hsome,if_pos ⟨hin,hstale⟩] at htap
    -- the TAP is bare, and its chain is not
    have hbare : some none = some (chainFor (axes s.bridge.inner.directional vm)) := htap.symm.trans hchain
    exact hsome (chainFor_injective (Option.some.inj hbare).symm)
  · intro hmay
    obtain ⟨host,heq,hshaped⟩ := h.realize hvm hmay
    rw [heq,hshaped.follows_iff]
    intro other ho
    change ((s.bridge.noteRealized vm).realizedDirectional.lookup other).getD (0,0,0) = _
    rw [lookup_noteRealized]
    split
    · next hself =>
      rw [hself]
      exact collapsed_getD _ _
    · next hself =>
      refine h.follows_iff.mp hf other ?_
      obtain rfl | ho := List.mem_insert_iff.mp ho
      · exact absurd rfl hself
      · exact ho

theorem reset_step (h : s.Shaped vms) :
    (s.apply (.record .reset)).1.Shaped vms ∧ (s.apply (.record .reset)).1.TapsFollow := by
  have hrecorded : (s.recorded .reset).Shaped vms := h.record rfl
  have hrecord : (s.recorded .reset).refreshPartitions.Shaped vms := hrecorded.aside (refreshPartitions_aside _)
  change (Site.refreshDirectional (refreshBandwidth (refreshNetem _))).Shaped vms ∧
    (Site.refreshDirectional (refreshBandwidth (refreshNetem _))).TapsFollow
  rw [refreshNetem_quiet hrecord.quiet.1 hrecord.quiet.2]
  exact (hrecord.aside (refreshBandwidth_aside hrecord.quiet.1)).refreshDirectional

/-- One call: it succeeds, and keeps the TAPs after their records if and only if it may be made. -/
theorem apply_follows_iff (h : s.Shaped vms) (hf : s.TapsFollow) (call : HostCall)
    (hspare : call.sparesNetem) (hvm : ∀ vm, call = .realizeForVm vm → vm ∈ vms) :
    ((s.apply call).2 = true ∧ (s.apply call).1.TapsFollow ↔ s.MayShape call) ∧
      (s.MayShape call → (s.apply call).1.Shaped vms) := by
  cases call with
  | unrealize =>
    refine ⟨⟨fun _ => trivial,fun _ => ⟨rfl,fun vm hvm => (by cases hvm)⟩⟩,fun _ => h.unrealize⟩
  | realizeForVm vm =>
    have hvm := hvm vm rfl
    have hiff := realize_follows_iff h hf hvm
    refine ⟨⟨fun hok => hiff.mp hok.2,fun hmay => ⟨?_,hiff.mpr hmay⟩⟩,fun hmay => ?_⟩
    · obtain ⟨host,heq,-⟩ := h.realize hvm hmay
      change (s.realizeForVm vm).2 = true
      rw [heq]
    · obtain ⟨host,heq,hshaped⟩ := h.realize hvm hmay
      change (s.realizeForVm vm).1.Shaped vms
      rw [heq]
      exact hshaped
  | record op =>
    -- apart from a detach, a call leaves the TAPs and what they follow alone or brings them up to date
    have hboth : (s.apply (.record op)).1.Shaped vms ∧ (s.apply (.record op)).1.TapsFollow →
        s.MayShape (.record op) →
        ((s.apply (.record op)).2 = true ∧ (s.apply (.record op)).1.TapsFollow ↔ s.MayShape (.record op)) ∧
          (s.MayShape (.record op) → (s.apply (.record op)).1.Shaped vms) := fun hboth hmay =>
      ⟨⟨fun _ => hmay,fun _ => ⟨rfl,hboth.2⟩⟩,fun _ => hboth.1⟩
    have haside : Aside s (s.apply (.record op)).1 →
        (s.apply (.record op)).1.Shaped vms ∧ (s.apply (.record op)).1.TapsFollow := fun ha =>
      ⟨h.aside ha,hf.aside h ha⟩
    have hpartitions := refreshPartitions_aside (s.recorded op)
    have huplink := refreshUplink_aside (s.recorded op)
    cases op with
    | addLatency ms => cases hspare
    | dropRate pct => cases hspare
    | detach vm =>
      have hiff := detach_follows_iff h hf vm
      exact ⟨⟨fun hok => hiff.mp hok.2,fun hmay => ⟨rfl,hiff.mpr hmay⟩⟩,fun _ => h.detach vm⟩
    | attach vm => exact hboth (haside (recorded_aside s rfl rfl)) trivial
    | route other => exact hboth (haside (recorded_aside s rfl rfl)) trivial
    | partition x y => exact hboth (haside ((recorded_aside s rfl rfl).trans hpartitions)) trivial
    | unpartition x y => exact hboth (haside ((recorded_aside s rfl rfl).trans hpartitions)) trivial
    | partitionDirectional x y => exact hboth (haside ((recorded_aside s rfl rfl).trans hpartitions)) trivial
    | unpartitionDirectional x y => exact hboth (haside ((recorded_aside s rfl rfl).trans hpartitions)) trivial
    | partitionAll => exact hboth (haside ((recorded_aside s rfl rfl).trans hpartitions)) trivial
    | restoreAll => exact hboth (haside ((recorded_aside s rfl rfl).trans hpartitions)) trivial
    | isolate vm => exact hboth (haside ((recorded_aside s rfl rfl).trans hpartitions)) trivial
    | unisolate vm => exact hboth (haside ((recorded_aside s rfl rfl).trans hpartitions)) trivial
    | reset => exact hboth (reset_step h) trivial
    | bandwidthLimit bps =>
      exact hboth (haside ((recorded_aside s rfl rfl).trans (refreshBandwidth_aside h.quiet.1))) trivial
    | addDirectionalLatency x y ms => exact hboth (h.record rfl).refreshDirectional trivial
    | directionalDropRate x y pct => exact hboth (h.record rfl).refreshDirectional trivial
    | setDirectionalBandwidth x y bps => exact hboth (h.record rfl).refreshDirectional trivial
    | enableUplink => exact hboth (haside ((recorded_aside s rfl rfl).trans huplink)) trivial
    | disableUplink => exact hboth (haside ((recorded_aside s rfl rfl).trans huplink)) trivial

theorem tapsFollowAlong_iff (h : s.Shaped vms) (hf : s.TapsFollow) (calls : List HostCall)
    (hspare : ∀ call ∈ calls, call.sparesNetem) (hvms : ∀ vm, .realizeForVm vm ∈ calls → vm ∈ vms) :
    s.TapsFollowAlong calls ↔ s.MayShapeAlong calls := by
  induction calls generalizing s with
  | nil => exact Iff.rfl
  | cons call calls ih =>
    obtain ⟨hiff,hshaped⟩ := apply_follows_iff h hf call (hspare call (by simp))
      fun vm hvm => hvms vm (by simp [hvm])
    have hrest : ∀ hmay : s.MayShape call, _ := fun hmay => ih (hshaped hmay) (hiff.mpr hmay).2
      (fun call' hc => hspare call' (by simp [hc])) fun vm hvm => hvms vm (by simp [hvm])
    constructor
    · intro ⟨hok,hafter,hrun⟩
      have hmay := hiff.mp ⟨hok,hafter⟩
      exact ⟨hmay,(hrest hmay).mp hrun⟩
    · intro ⟨hmay,hrun⟩
      exact ⟨(hiff.mpr hmay).1,(hiff.mpr hmay).2,(hrest hmay).mpr hrun⟩

/-- The calls on a new bridge after each of which every realised TAP has the chain that its VM's directional
impairments ask for are those of which each one may be made where it is made. -/
theorem taps_follow_iff (name : String) (upstream : Option String) (calls : List HostCall)
    (hspare : ∀ call ∈ calls, call.sparesNetem)
    (hnames : DistinctTaps name {vm | .realizeForVm vm ∈ calls}) :
    (new name upstream).TapsFollowAlong calls ↔ (new name upstream).MayShapeAlong calls :=
  tapsFollowAlong_iff (.new upstream hnames) (fun vm hvm => (by cases hvm)) calls hspare fun _ hvm => hvm

/-- A VM that is there once has its TAP alone. -/
theorem distinctTaps_one (name vm : String) (h : tapNameForVmOnBridge vm name ≠ name) {vms : Set String}
    (hvms : ∀ other ∈ vms, other = vm) : DistinctTaps name vms := by
  refine ⟨fun x hx y hy _ => (hvms x hx).trans (hvms y hy).symm,fun other ho => ?_⟩
  rw [hvms other ho]
  exact h

/-- A VM that is booted with a latency of its own, which is then raised. -/
theorem taps_follow_raised : (new "lan" none).TapsFollowAlong
    [.record (.addDirectionalLatency "a" "b" 50),.realizeForVm "a",
      .record (.addDirectionalLatency "a" "b" 80)] := by
  refine (taps_follow_iff "lan" none _ (by decide) ?_).mpr ⟨trivial,.inr (.inr ?_),trivial,trivial⟩
  · exact distinctTaps_one "lan" "a" (by decide +kernel) (by simp)
  · decide +kernel

/-- A VM that leaves, joins again and is given the latency it had has no netem on its new TAP. -/
theorem rejoined_tap_bare : ¬∀ name upstream calls, (∀ call ∈ calls, call.sparesNetem = true) →
    DistinctTaps name {vm | .realizeForVm vm ∈ calls} → (new name upstream).TapsFollowAlong calls := by
  intro h
  have hrun := h "lan" none [.record (.attach "a"),.record (.addDirectionalLatency "a" "b" 50),
    .realizeForVm "a",.record (.detach "a"),.record (.attach "a"),
    .record (.addDirectionalLatency "a" "b" 50),.realizeForVm "a"] (by decide)
    (distinctTaps_one "lan" "a" (by decide +kernel) (by simp))
  obtain ⟨-,-,-,-,-,-,-,-,-,-,-,-,-,hbare,-⟩ := hrun
  exact absurd hbare (by decide +kernel)

end Site

end Provium.Lab
