import Provium.Lab.BridgeTaps

/-! Whether the nft rules of a bridge drop what its partitions and isolations say. -/
namespace Provium.Lab
open Lib

/-- What the records say of the frames from one VM to another. -/
def BridgeInner.Cut (b : BridgeInner) (x y : String) : Prop :=
  b.fullyPartitioned = true ∨ canonicalPair x y ∈ b.partitions ∨ (x,y) ∈ b.directionalPartitions ∨
    x ∈ b.isolated ∨ y ∈ b.isolated

instance (b : BridgeInner) (x y : String) : Decidable (b.Cut x y) :=
  inferInstanceAs (Decidable (_ ∨ _ ∨ _ ∨ _ ∨ _))

/-- The calls about members and partitions. -/
def HostCall.divides : HostCall → Bool
  | .realizeForVm _ | .record (.attach _) | .record (.detach _) | .record (.partition _ _)
  | .record (.unpartition _ _) | .record (.partitionDirectional _ _)
  | .record (.unpartitionDirectional _ _) | .record .partitionAll | .record .restoreAll
  | .record (.isolate _) | .record (.unisolate _) | .record .reset => true
  | _ => false

/-- Those of them that refresh the rules. -/
def HostCall.refreshes : HostCall → Bool
  | .realizeForVm _ | .record (.attach _) => false
  | call => call.divides

/-- The VMs that a call brings in. -/
def HostCall.names : HostCall → List String
  | .realizeForVm vm | .record (.isolate vm) => [vm]
  | .record (.partition x y) | .record (.partitionDirectional x y) => [x,y]
  | _ => []

namespace Site

/-- The bridge's rules drop the frames from the one VM's TAP to the other's. -/
def Drops (s : Site) (x y : String) : Prop :=
  NftRule.drop (s.bridge.tap x) (s.bridge.tap y) ∈
    (s.host.tables .bridge (partitionTableFor s.bridge.name)).getD []

/-- Between realised VMs the rules drop what the records cut, and nothing else. -/
def RulesFollow (s : Site) : Prop :=
  ∀ x ∈ s.bridge.realizedTaps, ∀ y ∈ s.bridge.realizedTaps, x ≠ y → (s.Drops x y ↔ s.bridge.inner.Cut x y)

instance (s : Site) : Decidable s.RulesFollow :=
  inferInstanceAs (Decidable (∀ x ∈ s.bridge.realizedTaps, ∀ y ∈ s.bridge.realizedTaps, x ≠ y →
    (NftRule.drop (s.bridge.tap x) (s.bridge.tap y) ∈
      (s.host.tables .bridge (partitionTableFor s.bridge.name)).getD [] ↔ s.bridge.inner.Cut x y)))

def RulesFollowAlong (s : Site) : List HostCall → Prop
  | [] => True
  | call::calls =>
    (s.apply call).2 = true ∧ (s.apply call).1.RulesFollow ∧ (s.apply call).1.RulesFollowAlong calls

/-- The TAPs that the last refresh of the rules saw; `none` before the first on a realised bridge. -/
def seenAfter (s : Site) (call : HostCall) (seen : Option (List String)) : Option (List String) :=
  if call.refreshes && s.bridge.realized then some s.bridge.realizedTaps else seen

/-- The last refresh has a rule for the frames from `x` to `y`, of which `vm` is realised only now. -/
def Foreseen (b : BridgeInner) (seen : Option (List String)) (vm other x y : String) : Prop :=
  b.fullyPartitioned = false ∧ ∃ taps, seen = some taps ∧
    (canonicalPair x y ∈ b.partitions ∨ (x,y) ∈ b.directionalPartitions ∨ vm ∈ b.isolated ∧ other ∈ taps)

/-- The calls after which the rules still follow: a VM that is realised while others are is cut off from
them by no record, or by one that the last refresh has foreseen. -/
def MayDivide (s : Site) (seen : Option (List String)) : HostCall → Prop
  | .realizeForVm vm => vm ∉ s.bridge.realizedTaps → ∀ other ∈ s.bridge.realizedTaps,
    (s.bridge.inner.Cut vm other → Foreseen s.bridge.inner seen vm other vm other) ∧
      (s.bridge.inner.Cut other vm → Foreseen s.bridge.inner seen vm other other vm)
  | _ => True

def MayDivideAlong (s : Site) (seen : Option (List String)) : List HostCall → Prop
  | [] => True
  | call::calls => s.MayDivide seen call ∧
    (s.apply call).1.MayDivideAlong ((s.apply call).1.seenAfter call seen) calls

end Site

/-! ## The rules -/

namespace HostedBridge
variable {b : HostedBridge} {vms : Set String} {x y : String}

/-- Every VM of the records and of the TAPs is one of `vms`, whose TAPs have different names. -/
structure NamedIn (b : HostedBridge) (vms : Set String) : Prop where
  inj : Set.InjOn (tapNameForVmOnBridge · b.name) vms
  taps : ∀ vm ∈ b.realizedTaps, vm ∈ vms
  partitions : ∀ k ∈ b.inner.partitions, k.1 ∈ vms ∧ k.2 ∈ vms
  directional : ∀ k ∈ b.inner.directionalPartitions, k.1 ∈ vms ∧ k.2 ∈ vms
  isolated : ∀ vm ∈ b.inner.isolated, vm ∈ vms

theorem NamedIn.tap_eq (h : b.NamedIn vms) {v w : String} (hv : v ∈ vms) (hw : w ∈ vms) :
    b.tap v = b.tap w ↔ v = w := h.inj.eq_iff hv hw

theorem NamedIn.mem_taps (h : b.NamedIn vms) {v : String} (hv : v ∈ vms) :
    b.tap v ∈ b.realizedTaps.map b.tap ↔ v ∈ b.realizedTaps := by
  rw [List.mem_map]
  constructor
  · rintro ⟨w,hw,heq⟩
    rwa [← (h.tap_eq (h.taps w hw) hv).mp heq]
  · exact fun hin => ⟨v,hin,rfl⟩

/-- A symmetric partition has its two rules. -/
theorem NamedIn.mem_pairRules (h : b.NamedIn vms) (hs : b.inner.Sound) (hx : x ∈ vms) (hy : y ∈ vms) :
    NftRule.drop (b.tap x) (b.tap y) ∈ (b.inner.partitions.flatMap fun k =>
      [NftRule.drop (b.tap k.1) (b.tap k.2),.drop (b.tap k.2) (b.tap k.1)]) ↔
      canonicalPair x y ∈ b.inner.partitions := by
  simp only [List.mem_flatMap,List.mem_cons,List.not_mem_nil,or_false,NftRule.drop.injEq]
  constructor
  · rintro ⟨⟨v,w⟩,hk,hrule⟩
    obtain ⟨hv,hw⟩ := h.partitions _ hk
    have hcanonical := hs.partitions _ hk
    obtain ⟨hxv,hyw⟩ | ⟨hxw,hyv⟩ := hrule
    · obtain rfl := (h.tap_eq hx hv).mp hxv
      obtain rfl := (h.tap_eq hy hw).mp hyw
      rwa [hcanonical]
    · obtain rfl := (h.tap_eq hx hw).mp hxw
      obtain rfl := (h.tap_eq hy hv).mp hyv
      rwa [canonicalPair_comm,hcanonical]
  · intro hk
    refine ⟨canonicalPair x y,hk,?_⟩
    obtain heq | heq := canonicalPair_cases x y
    · rw [heq]
      exact .inl ⟨rfl,rfl⟩
    · rw [heq]
      exact .inr ⟨rfl,rfl⟩

theorem NamedIn.mem_directionalRules (h : b.NamedIn vms) (hx : x ∈ vms) (hy : y ∈ vms) :
    NftRule.drop (b.tap x) (b.tap y) ∈ (b.inner.directionalPartitions.map fun k =>
      NftRule.drop (b.tap k.1) (b.tap k.2)) ↔ (x,y) ∈ b.inner.directionalPartitions := by
  rw [List.mem_map]
  constructor
  · rintro ⟨⟨v,w⟩,hk,heq⟩
    obtain ⟨hv,hw⟩ := h.directional _ hk
    rw [NftRule.drop.injEq] at heq
    obtain rfl := (h.tap_eq hv hx).mp heq.1
    obtain rfl := (h.tap_eq hw hy).mp heq.2
    exact hk
  · exact fun hk => ⟨(x,y),hk,rfl⟩

/-- Isolation has rules towards and from the TAPs that are there. -/
theorem NamedIn.mem_isolatedRules (h : b.NamedIn vms) (hx : x ∈ vms) (hy : y ∈ vms) (hne : x ≠ y) :
    NftRule.drop (b.tap x) (b.tap y) ∈ (b.inner.isolated.flatMap fun v =>
      ((b.realizedTaps.map b.tap).filter (· ≠ b.tap v)).flatMap fun other =>
        [NftRule.drop (b.tap v) other,.drop other (b.tap v)]) ↔
      x ∈ b.inner.isolated ∧ y ∈ b.realizedTaps ∨ y ∈ b.inner.isolated ∧ x ∈ b.realizedTaps := by
  have hdiffer : b.tap x ≠ b.tap y := fun heq => hne ((h.tap_eq hx hy).mp heq)
  simp only [List.mem_flatMap,List.mem_filter,decide_eq_true_eq,List.mem_cons,List.not_mem_nil,or_false,
    NftRule.drop.injEq]
  constructor
  · rintro ⟨v,hv,other,⟨hother,-⟩,⟨hxv,rfl⟩ | ⟨rfl,hyv⟩⟩
    · obtain rfl := (h.tap_eq hx (h.isolated v hv)).mp hxv
      exact .inl ⟨hv,(h.mem_taps hy).mp hother⟩
    · obtain rfl := (h.tap_eq hy (h.isolated v hv)).mp hyv
      exact .inr ⟨hv,(h.mem_taps hx).mp hother⟩
  · rintro (⟨hv,hother⟩ | ⟨hv,hother⟩)
    · exact ⟨x,hv,b.tap y,⟨(h.mem_taps hy).mpr hother,hdiffer.symm⟩,.inl ⟨rfl,rfl⟩⟩
    · exact ⟨y,hv,b.tap x,⟨(h.mem_taps hx).mpr hother,hdiffer⟩,.inr ⟨rfl,rfl⟩⟩

theorem NamedIn.mem_fullRules (h : b.NamedIn vms) (hx : x ∈ vms) (hy : y ∈ vms) (hne : x ≠ y) :
    NftRule.drop (b.tap x) (b.tap y) ∈ ((b.realizedTaps.map b.tap).flatMap fun i =>
      ((b.realizedTaps.map b.tap).filter (i ≠ ·)).map fun o => NftRule.drop i o) ↔
      x ∈ b.realizedTaps ∧ y ∈ b.realizedTaps := by
  have hdiffer : b.tap x ≠ b.tap y := fun heq => hne ((h.tap_eq hx hy).mp heq)
  simp only [List.mem_flatMap,List.mem_map (f := fun o => NftRule.drop _ o),List.mem_filter,
    decide_eq_true_eq,NftRule.drop.injEq]
  constructor
  · rintro ⟨i,hi,o,⟨ho,-⟩,rfl,rfl⟩
    exact ⟨(h.mem_taps hx).mp hi,(h.mem_taps hy).mp ho⟩
  · rintro ⟨hi,ho⟩
    exact ⟨b.tap x,(h.mem_taps hx).mpr hi,b.tap y,⟨(h.mem_taps hy).mpr ho,hdiffer⟩,rfl,rfl⟩

/-- The frames for which a refresh has a rule. -/
theorem NamedIn.mem_partitionRules (h : b.NamedIn vms) (hs : b.inner.Sound) (hx : x ∈ vms) (hy : y ∈ vms)
    (hne : x ≠ y) : NftRule.drop (b.tap x) (b.tap y) ∈ b.partitionRules ↔
      if b.inner.fullyPartitioned then x ∈ b.realizedTaps ∧ y ∈ b.realizedTaps
      else canonicalPair x y ∈ b.inner.partitions ∨ (x,y) ∈ b.inner.directionalPartitions ∨
        x ∈ b.inner.isolated ∧ y ∈ b.realizedTaps ∨ y ∈ b.inner.isolated ∧ x ∈ b.realizedTaps := by
  unfold partitionRules
  split
  · exact h.mem_fullRules hx hy hne
  · rw [List.mem_append,List.mem_append,h.mem_pairRules hs hx hy,h.mem_directionalRules hx hy,
      h.mem_isolatedRules hx hy hne,or_assoc]

/-- Where there is nothing to do, the records cut nothing. -/
theorem not_cut_of_nothingToDo (h : b.nothingToDo = true) : ¬b.inner.Cut x y := by
  unfold nothingToDo at h
  simp only [Bool.and_eq_true,Bool.not_eq_true',List.isEmpty_iff] at h
  obtain ⟨⟨⟨hfull,hpairs⟩,hdirectional⟩,hisolated⟩ := h
  simp [BridgeInner.Cut,hfull,hpairs,hdirectional,hisolated]

end HostedBridge

namespace Site
variable {s : Site} {vms : Set String} {seen : Option (List String)}

/-- A bridge of which only members and partitions were spoken. -/
structure Divided (vms : Set String) (s : Site) : Prop where
  named : s.bridge.NamedIn vms
  sound : s.bridge.inner.Sound
  realized : ∀ vm ∈ s.bridge.realizedTaps, s.bridge.realized = true
  quiet : s.bridge.inner.targetNetem = none ∧ s.bridge.realizedNetem = none
  even : s.bridge.inner.directional = ∅
  forgotten : ∀ vm, s.bridge.realizedDirectional.lookup vm = none

/-- Its table is the one that the last refresh has made of the TAPs it saw. -/
structure Walled (vms : Set String) (seen : Option (List String)) (s : Site) : Prop extends Divided vms s where
  unseen : s.bridge.realized = false → seen = none
  kept : ∀ taps, seen = some taps → ∀ vm ∈ taps, vm ∈ s.bridge.realizedTaps
  rules : s.host.tables .bridge (partitionTableFor s.bridge.name) = seen.bind fun taps =>
    if s.bridge.nothingToDo then none
    else some ({ s.bridge with realizedTaps := taps } : HostedBridge).partitionRules

theorem Walled.new {name : String} (upstream : Option String)
    (h : Set.InjOn (tapNameForVmOnBridge · name) vms) : (new name upstream).Walled vms none where
  named := ⟨h,by simp [Site.new,HostedBridge.new],by simp [Site.new,HostedBridge.new,BridgeInner.new],
    by simp [Site.new,HostedBridge.new,BridgeInner.new],by simp [Site.new,HostedBridge.new,BridgeInner.new]⟩
  sound := BridgeInner.Sound.new
  realized := fun vm hvm => by cases hvm
  quiet := ⟨rfl,rfl⟩
  even := rfl
  forgotten := fun _ => rfl
  unseen := fun _ => rfl
  kept := fun taps h => by cases h
  rules := rfl

/-- The frames that are dropped, by the records and the TAPs that the last refresh saw. -/
theorem Walled.drops_iff (h : s.Walled vms seen) {x y : String} (hx : x ∈ vms) (hy : y ∈ vms) (hne : x ≠ y) :
    s.Drops x y ↔ ∃ taps, seen = some taps ∧
      if s.bridge.inner.fullyPartitioned then x ∈ taps ∧ y ∈ taps
      else canonicalPair x y ∈ s.bridge.inner.partitions ∨ (x,y) ∈ s.bridge.inner.directionalPartitions ∨
        x ∈ s.bridge.inner.isolated ∧ y ∈ taps ∨ y ∈ s.bridge.inner.isolated ∧ x ∈ taps := by
  unfold Drops
  rw [h.rules]
  cases hseen : seen with
  | none => simp
  | some taps =>
    have hnamed : ({ s.bridge with realizedTaps := taps } : HostedBridge).NamedIn vms :=
      ⟨h.named.inj,fun vm hvm => h.named.taps vm (h.kept taps hseen vm hvm),h.named.partitions,
        h.named.directional,h.named.isolated⟩
    have hrules := hnamed.mem_partitionRules h.sound hx hy hne
    simp only [Option.bind_some,Option.some.injEq,exists_eq_left']
    by_cases hnothing : s.bridge.nothingToDo
    · rw [if_pos hnothing]
      have hcut := HostedBridge.not_cut_of_nothingToDo (x := x) (y := y) hnothing
      unfold BridgeInner.Cut at hcut
      simp only [Option.getD_none,List.not_mem_nil,false_iff]
      split <;> tauto
    · rw [if_neg hnothing,Option.getD_some]
      exact hrules

theorem Walled.cut_of_drops (h : s.Walled vms seen) {x y : String} (hx : x ∈ vms) (hy : y ∈ vms)
    (hne : x ≠ y) (hd : s.Drops x y) : s.bridge.inner.Cut x y := by
  obtain ⟨taps,-,hrule⟩ := (h.drops_iff hx hy hne).mp hd
  unfold BridgeInner.Cut
  split at hrule <;> tauto

/-- A refresh that has seen all TAPs drops what is cut between them. -/
theorem Walled.follows (h : s.Walled vms (some s.bridge.realizedTaps)) : s.RulesFollow := by
  intro x hx y hy hne
  have hxv := h.named.taps x hx
  have hyv := h.named.taps y hy
  refine ⟨h.cut_of_drops hxv hyv hne,fun hcut => (h.drops_iff hxv hyv hne).mpr ⟨_,rfl,?_⟩⟩
  unfold BridgeInner.Cut at hcut
  split
  · exact ⟨hx,hy⟩
  · next hfull => tauto

/-- `refresh_partitions`, of a bridge whose records have just changed. -/
theorem Divided.refreshPartitions (h : s.Divided vms)
    (hunseen : s.bridge.realized = false → s.host.tables .bridge (partitionTableFor s.bridge.name) = none) :
    s.refreshPartitions.Walled vms (if s.bridge.realized then some s.bridge.realizedTaps else none) ∧
      s.refreshPartitions.RulesFollow := by
  unfold Site.refreshPartitions
  rcases Bool.eq_false_or_eq_true s.bridge.realized with hr | hr
  · simp only [hr,Bool.not_true,Bool.false_eq_true,if_false,if_true]
    have hwalled : Walled vms (some s.bridge.realizedTaps) { s with
        host := s.host.setTable .bridge (partitionTableFor s.bridge.name)
          (if s.bridge.nothingToDo then none else some s.bridge.partitionRules) } := by
      refine ⟨⟨h.named,h.sound,h.realized,h.quiet,h.even,h.forgotten⟩,fun hnot => ?_,fun taps ht => ?_,?_⟩
      · exact absurd (hr.symm.trans hnot) (by simp)
      · cases ht
        exact fun _ hvm => hvm
      · simp [Host.setTable]
    exact ⟨hwalled,hwalled.follows⟩
  · simp only [hr,Bool.not_false,if_true,Bool.false_eq_true,if_false]
    refine ⟨⟨h,fun _ => rfl,fun taps ht => (by cases ht),hunseen hr⟩,fun x hx => ?_⟩
    exact absurd ((h.realized x hx).symm.trans hr) (by simp)

/-- Where nothing is impaired a VM is realised without a word about the tables. -/
theorem Divided.realizeForVm (h : s.Divided vms) (vm : String) : ∃ host : Host,
    s.realizeForVm vm = (⟨s.bridge.noteRealized vm,host⟩,true) ∧ host.tables = s.host.tables := by
  have hadd : ∀ (host : Host) (dev : String), ∃ host', host.run dev Interface.add = (host',true) ∧
      host'.tables = host.tables := fun host dev => by
    have htables := Host.run_tables host dev Interface.add
    cases hi : host.interfaces dev with
    | none => exact ⟨_,Host.run_ok (by rw [hi]; rfl),rfl⟩
    | some root => exact ⟨_,Host.run_ok (by rw [hi]; rfl),rfl⟩
  have hskip : ∀ (p : Prop) [Decidable p] (host : Host) (dev : String), ∃ host',
      (if p then (host,true) else host.run dev Interface.add) = (host',true) ∧ host'.tables = host.tables := by
    intro p _ host dev
    split
    · exact ⟨host,rfl,rfl⟩
    · exact hadd host dev
  have hnetem : ∀ host, s.bridge.netemStep host = (host,true) := fun host => by
    unfold HostedBridge.netemStep
    rw [h.quiet.1,h.quiet.2]
    exact if_pos rfl
  have hdirectional : ∀ host, s.bridge.directionalStep vm host = (host,true) := fun host => by
    have hnone : s.bridge.inner.collapsedDirectionalFor vm = none := by
      unfold BridgeInner.collapsedDirectionalFor
      rw [h.even]
      rfl
    unfold HostedBridge.directionalStep
    simp only [h.forgotten vm,hnone,if_true]
  obtain ⟨host,hhost,htables⟩ := hskip (s.bridge.realized = true) s.host s.bridge.name
  obtain ⟨host',hhost',htables'⟩ := hskip (vm ∈ s.bridge.realizedTaps) host (s.bridge.tap vm)
  refine ⟨host',realizeForVm_of_commands ?_,htables'.trans htables⟩
  unfold HostedBridge.realizeCommands
  rw [Host.andThen_ok hhost,Host.andThen_ok (hnetem host),Host.andThen_ok hhost',hdirectional]

/-- The tables stay as the last refresh has left them. -/
theorem Walled.realize (h : s.Walled vms seen) {vm : String} (hvm : vm ∈ vms) : ∃ host : Host,
    s.realizeForVm vm = (⟨s.bridge.noteRealized vm,host⟩,true) ∧
      Walled vms seen ⟨s.bridge.noteRealized vm,host⟩ := by
  obtain ⟨host,heq,htables⟩ := h.toDivided.realizeForVm vm
  refine ⟨host,heq,⟨⟨⟨h.named.inj,fun other ho => ?_,h.named.partitions,h.named.directional,h.named.isolated⟩,
    h.sound,fun _ _ => rfl,⟨h.quiet.1,h.quiet.1⟩,h.even,fun other => ?_⟩,fun hr => (by cases hr),
    fun taps ht other ho => List.mem_insert_of_mem (h.kept taps ht other ho),?_⟩⟩
  · obtain rfl | ho := List.mem_insert_iff.mp ho
    · exact hvm
    · exact h.named.taps other ho
  · change (s.bridge.noteRealized vm).realizedDirectional.lookup other = none
    rw [lookup_noteRealized]
    split
    · unfold BridgeInner.collapsedDirectionalFor
      rw [h.even]
      rfl
    · exact h.forgotten other
  · change host.tables .bridge (partitionTableFor s.bridge.name) = _
    rw [htables]
    exact h.rules

theorem Walled.realizeAll (list : List String) (h : s.Walled vms seen)
    (hin : ∀ vm ∈ list, vm ∈ s.bridge.realizedTaps) :
    (s.realizeAll list).Walled vms seen ∧
      (s.realizeAll list).bridge.realizedTaps = s.bridge.realizedTaps ∧
      (s.realizeAll list).bridge.realized = s.bridge.realized := by
  induction list generalizing s with
  | nil => exact ⟨h,rfl,rfl⟩
  | cons vm list ih =>
    have hvm := hin vm (by simp)
    obtain ⟨host,heq,hwalled⟩ := h.realize (h.named.taps vm hvm)
    have htaps : (s.bridge.noteRealized vm).realizedTaps = s.bridge.realizedTaps := List.insert_of_mem hvm
    have hstep : s.realizeAll (vm::list) = Site.realizeAll ⟨s.bridge.noteRealized vm,host⟩ list := by
      rw [Site.realizeAll,heq]
      rfl
    obtain ⟨hafter,htaps',hr⟩ := ih hwalled fun other ho => by
      rw [htaps]
      exact hin other (by simp [ho])
    rw [hstep]
    exact ⟨hafter,htaps'.trans htaps,hr.trans (h.realized vm hvm).symm⟩

/-- The last three of the refreshes of `reset` have nothing to do with the rules. -/
theorem Walled.resetRest (h : s.Walled vms seen) :
    s.refreshNetem.refreshBandwidth.refreshDirectional.Walled vms seen ∧
      s.refreshNetem.refreshBandwidth.refreshDirectional.bridge.realizedTaps = s.bridge.realizedTaps ∧
      s.refreshNetem.refreshBandwidth.refreshDirectional.bridge.realized = s.bridge.realized := by
  rw [refreshNetem_quiet h.quiet.1 h.quiet.2]
  have hb := (refreshBandwidth_others s h.quiet.1).1
  have htables : s.refreshBandwidth.host.tables = s.host.tables := by
    unfold Site.refreshBandwidth
    simp only [h.quiet.1,Option.isSome_none,Bool.false_eq_true,if_false]
    split
    · rfl
    · split
      · exact Host.run_tables _ _ _
      · exact Host.run_tables _ _ _
  have hwalled : s.refreshBandwidth.Walled vms seen := by
    obtain ⟨⟨hnamed,hsound,hrealized,hquiet,heven,hforgotten⟩,hunseen,hkept,hrules⟩ := h
    rw [← hb] at hnamed hsound hrealized hquiet heven hforgotten hunseen hkept hrules
    rw [← htables] at hrules
    exact ⟨⟨hnamed,hsound,hrealized,hquiet,heven,hforgotten⟩,hunseen,hkept,hrules⟩
  unfold Site.refreshDirectional
  split
  · obtain ⟨hafter,htaps,hr⟩ := hwalled.realizeAll s.refreshBandwidth.bridge.realizedTaps fun _ hvm => hvm
    exact ⟨hafter,by rw [htaps,hb],by rw [hr,hb]⟩
  · exact ⟨hwalled,by rw [hb],by rw [hb]⟩

/-! ## The calls -/

/-- The records that a call leaves name VMs of the call and of before. -/
theorem NamedIn.recorded {op : BridgeOp} (h : s.bridge.NamedIn vms)
    (hnames : ∀ vm ∈ HostCall.names (.record op), vm ∈ vms) :
    (s.recorded op).bridge.NamedIn vms := by
  refine ⟨h.inj,h.taps,?_,?_,?_⟩
  · intro k hk
    cases op with
    | partition x y =>
      obtain rfl | hk := List.mem_insert_iff.mp hk
      · obtain heq | heq := canonicalPair_cases x y
        · rw [heq]
          exact ⟨hnames x (by simp [HostCall.names]),hnames y (by simp [HostCall.names])⟩
        · rw [heq]
          exact ⟨hnames y (by simp [HostCall.names]),hnames x (by simp [HostCall.names])⟩
      · exact h.partitions k hk
    | unpartition x y => exact h.partitions k (List.mem_of_mem_filter hk)
    | detach vm => exact h.partitions k (List.mem_of_mem_filter hk)
    | reset => cases hk
    | _ => exact h.partitions k hk
  · intro k hk
    cases op with
    | partitionDirectional x y =>
      obtain rfl | hk := List.mem_insert_iff.mp hk
      · exact ⟨hnames x (by simp [HostCall.names]),hnames y (by simp [HostCall.names])⟩
      · exact h.directional k hk
    | unpartitionDirectional x y => exact h.directional k (List.mem_of_mem_filter hk)
    | detach vm => exact h.directional k (List.mem_of_mem_filter hk)
    | reset => cases hk
    | _ => exact h.directional k hk
  · intro vm hvm
    cases op with
    | isolate other =>
      obtain rfl | hvm := List.mem_insert_iff.mp hvm
      · exact hnames vm (by simp [HostCall.names])
      · exact h.isolated vm hvm
    | unisolate other => exact h.isolated vm (List.mem_of_mem_filter hvm)
    | detach other => exact h.isolated vm (List.mem_of_mem_filter hvm)
    | _ => exact h.isolated vm hvm

theorem Divided.recorded {op : BridgeOp} (h : s.Divided vms) (hdiv : HostCall.divides (.record op))
    (hnames : ∀ vm ∈ HostCall.names (.record op), vm ∈ vms) : (s.recorded op).Divided vms := by
  refine ⟨NamedIn.recorded h.named hnames,h.sound.apply op,h.realized,⟨?_,h.quiet.2⟩,?_,h.forgotten⟩
  · cases op with
    | reset => rfl
    | addLatency ms => cases hdiv
    | dropRate pct => cases hdiv
    | _ => exact h.quiet.1
  · cases op with
    | detach vm =>
      change (s.bridge.inner.detach vm).directional = ∅
      unfold BridgeInner.detach
      rw [h.even]
      rfl
    | reset => rfl
    | addDirectionalLatency x y ms => cases hdiv
    | directionalDropRate x y pct => cases hdiv
    | setDirectionalBandwidth x y bps => cases hdiv
    | _ => exact h.even

theorem Divided.dropTap (h : s.Divided vms) (vm : String) : (s.dropTap vm).Divided vms :=
  ⟨⟨h.named.inj,fun other ho => h.named.taps other (List.mem_of_mem_filter ho),h.named.partitions,
      h.named.directional,h.named.isolated⟩,
    h.sound,fun other ho => h.realized other (List.mem_of_mem_filter ho),h.quiet,h.even,h.forgotten⟩

theorem dropTap_tables (s : Site) (vm : String) : (s.dropTap vm).host.tables = s.host.tables := by
  change (if _ ∧ _ then _ else _ : Host).tables = _
  split
  · exact Host.run_tables _ _ _
  · rfl

/-- A call that refreshes the rules, once it has changed the records and the TAPs. -/
theorem Walled.refreshed (h : s.Walled vms seen) {s' : Site} {call : HostCall} (href : call.refreshes)
    (hd : s'.Divided vms) (htables : s'.host.tables = s.host.tables)
    (hname : s'.bridge.name = s.bridge.name) (hr : s'.bridge.realized = s.bridge.realized) :
    s'.refreshPartitions.Walled vms (s'.refreshPartitions.seenAfter call seen) ∧
      s'.refreshPartitions.RulesFollow := by
  have hbefore : s.bridge.realized = false → s.host.tables .bridge (partitionTableFor s.bridge.name) = none :=
    fun hr => by rw [h.rules,h.unseen hr]; rfl
  obtain ⟨hwalled,hfollow⟩ := hd.refreshPartitions fun hnot => by
    rw [htables,hname]
    exact hbefore (hr.symm.trans hnot)
  refine ⟨?_,hfollow⟩
  have hseen : s'.refreshPartitions.seenAfter call seen =
      if s'.bridge.realized then some s'.bridge.realizedTaps else none := by
    unfold seenAfter
    rw [refreshPartitions_bridge,href,Bool.true_and]
    rcases Bool.eq_false_or_eq_true s'.bridge.realized with hr' | hr'
    · rw [if_pos hr',if_pos hr']
    · rw [if_neg (by simp [hr']),if_neg (by simp [hr'])]
      exact h.unseen (hr.symm.trans hr')
  rw [hseen]
  exact hwalled

theorem Walled.reset (h : s.Walled vms seen) :
    (s.apply (.record .reset)).1.Walled vms ((s.apply (.record .reset)).1.seenAfter (.record .reset) seen) ∧
      (s.apply (.record .reset)).1.RulesFollow := by
  have hd : (s.recorded .reset).Divided vms :=
    h.toDivided.recorded rfl fun vm hvm => by cases hvm
  have hreset : (HostCall.record .reset).refreshes = true := rfl
  obtain ⟨hwalled,-⟩ := h.refreshed hreset hd rfl rfl rfl
  obtain ⟨hafter,htaps,hr⟩ := hwalled.resetRest
  have hseen : (s.apply (.record .reset)).1.seenAfter (.record .reset) seen =
      (s.recorded .reset).refreshPartitions.seenAfter (.record .reset) seen := by
    change (if _ && (Site.refreshDirectional (refreshBandwidth (refreshNetem _))).bridge.realized then some
      (Site.refreshDirectional (refreshBandwidth (refreshNetem _))).bridge.realizedTaps else seen) = _
    rw [hr,htaps]
    rfl
  have hall : (s.apply (.record .reset)).1.Walled vms
      ((s.apply (.record .reset)).1.seenAfter (.record .reset) seen) := by
    rw [hseen]
    exact hafter
  refine ⟨hall,fun x hx y hy hne => ?_⟩
  have hrealized : (s.apply (.record .reset)).1.bridge.realized = true := hall.realized x hx
  have hsome : (s.apply (.record .reset)).1.seenAfter (.record .reset) seen =
      some (s.apply (.record .reset)).1.bridge.realizedTaps := by
    unfold seenAfter
    rw [hrealized]
    rfl
  rw [hsome] at hall
  exact hall.follows x hx y hy hne

/-- A VM is realised among rules that drop what is cut exactly if they have foreseen it. -/
theorem Walled.realize_follows_iff (h : s.Walled vms seen) (hf : s.RulesFollow) {vm : String} (hvm : vm ∈ vms) :
    (s.realizeForVm vm).1.RulesFollow ↔ s.MayDivide seen (.realizeForVm vm) := by
  obtain ⟨host,heq,hafter⟩ := h.realize hvm
  rw [heq]
  have hunseen : vm ∉ s.bridge.realizedTaps → ∀ taps, seen = some taps → vm ∉ taps :=
    fun hnot taps ht hin => hnot (h.kept taps ht vm hin)
  constructor
  · intro hfollow hnot other ho
    have hov := h.named.taps other ho
    have hne : vm ≠ other := by
      rintro rfl
      exact hnot ho
    have hself : vm ∈ (s.bridge.noteRealized vm).realizedTaps := List.mem_insert_self ..
    have hother : other ∈ (s.bridge.noteRealized vm).realizedTaps := List.mem_insert_of_mem ho
    constructor
    · intro hcut
      have hdrop := (hfollow vm hself other hother hne).mpr hcut
      obtain ⟨taps,ht,hrule⟩ := (hafter.drops_iff hvm hov hne).mp hdrop
      have hnew := hunseen hnot taps ht
      change if s.bridge.inner.fullyPartitioned then _ else _ at hrule
      split at hrule
      · exact absurd hrule.1 hnew
      · next hfull => exact ⟨by simpa using hfull,taps,ht,by tauto⟩
    · intro hcut
      have hdrop := (hfollow other hother vm hself hne.symm).mpr hcut
      obtain ⟨taps,ht,hrule⟩ := (hafter.drops_iff hov hvm hne.symm).mp hdrop
      have hnew := hunseen hnot taps ht
      change if s.bridge.inner.fullyPartitioned then _ else _ at hrule
      split at hrule
      · exact absurd hrule.2 hnew
      · next hfull => exact ⟨by simpa using hfull,taps,ht,by tauto⟩
  · intro hmay x hx y hy hne
    have hxv := hafter.named.taps x hx
    have hyv := hafter.named.taps y hy
    refine ⟨hafter.cut_of_drops hxv hyv hne,fun hcut => ?_⟩
    by_cases hin : vm ∈ s.bridge.realizedTaps
    · have htaps : (s.bridge.noteRealized vm).realizedTaps = s.bridge.realizedTaps := List.insert_of_mem hin
      change x ∈ (s.bridge.noteRealized vm).realizedTaps at hx
      change y ∈ (s.bridge.noteRealized vm).realizedTaps at hy
      rw [htaps] at hx hy
      exact (hafter.drops_iff hxv hyv hne).mpr ((h.drops_iff hxv hyv hne).mp ((hf x hx y hy hne).mpr hcut))
    · obtain rfl | hx' := List.mem_insert_iff.mp hx
      · obtain rfl | hy' := List.mem_insert_iff.mp hy
        · exact absurd rfl hne
        · obtain ⟨hfull,taps,ht,hrule⟩ := (hmay hin y hy').1 hcut
          refine (hafter.drops_iff hxv hyv hne).mpr ⟨taps,ht,?_⟩
          change if s.bridge.inner.fullyPartitioned then _ else _
          rw [if_neg (by simp [hfull])]
          tauto
      · obtain rfl | hy' := List.mem_insert_iff.mp hy
        · obtain ⟨hfull,taps,ht,hrule⟩ := (hmay hin x hx').2 hcut
          refine (hafter.drops_iff hxv hyv hne).mpr ⟨taps,ht,?_⟩
          change if s.bridge.inner.fullyPartitioned then _ else _
          rw [if_neg (by simp [hfull])]
          tauto
        · exact (hafter.drops_iff hxv hyv hne).mpr
            ((h.drops_iff hxv hyv hne).mp ((hf x hx' y hy' hne).mpr hcut))

/-- One call: it succeeds, and the rules follow exactly if it may be made. -/
theorem Walled.apply (h : s.Walled vms seen) (hf : s.RulesFollow) (call : HostCall) (hdiv : call.divides)
    (hnames : ∀ vm ∈ call.names, vm ∈ vms) :
    ((s.apply call).2 = true ∧ (s.apply call).1.RulesFollow ↔ s.MayDivide seen call) ∧
      (s.apply call).1.Walled vms ((s.apply call).1.seenAfter call seen) := by
  cases call with
  | unrealize => cases hdiv
  | realizeForVm vm =>
    have hvm := hnames vm (by simp [HostCall.names])
    obtain ⟨host,heq,hafter⟩ := h.realize hvm
    have hiff := h.realize_follows_iff hf hvm
    refine ⟨⟨fun hok => hiff.mp hok.2,fun hmay => ⟨?_,hiff.mpr hmay⟩⟩,?_⟩
    · change (s.realizeForVm vm).2 = true
      rw [heq]
    · change (s.realizeForVm vm).1.Walled vms seen
      rw [heq]
      exact hafter
  | record op =>
    have hd := h.toDivided.recorded hdiv hnames
    have hboth : (s.apply (.record op)).1.Walled vms ((s.apply (.record op)).1.seenAfter (.record op) seen) ∧
        (s.apply (.record op)).1.RulesFollow →
        ((s.apply (.record op)).2 = true ∧ (s.apply (.record op)).1.RulesFollow ↔
          s.MayDivide seen (.record op)) ∧
        (s.apply (.record op)).1.Walled vms ((s.apply (.record op)).1.seenAfter (.record op) seen) :=
      fun hboth => ⟨⟨fun _ => trivial,fun _ => ⟨rfl,hboth.2⟩⟩,hboth.1⟩
    cases op with
    | attach vm =>
      refine hboth ⟨⟨hd,h.unseen,h.kept,h.rules⟩,fun x hx y hy hne => ?_⟩
      exact hf x hx y hy hne
    | detach vm =>
      exact hboth (h.refreshed rfl (hd.dropTap vm) (dropTap_tables _ vm) rfl rfl)
    | reset => exact hboth h.reset
    | partition x y => exact hboth (h.refreshed rfl hd rfl rfl rfl)
    | unpartition x y => exact hboth (h.refreshed rfl hd rfl rfl rfl)
    | partitionDirectional x y => exact hboth (h.refreshed rfl hd rfl rfl rfl)
    | unpartitionDirectional x y => exact hboth (h.refreshed rfl hd rfl rfl rfl)
    | partitionAll => exact hboth (h.refreshed rfl hd rfl rfl rfl)
    | restoreAll => exact hboth (h.refreshed rfl hd rfl rfl rfl)
    | isolate vm => exact hboth (h.refreshed rfl hd rfl rfl rfl)
    | unisolate vm => exact hboth (h.refreshed rfl hd rfl rfl rfl)
    | route other => cases hdiv
    | addLatency ms => cases hdiv
    | dropRate pct => cases hdiv
    | bandwidthLimit bps => cases hdiv
    | addDirectionalLatency x y ms => cases hdiv
    | directionalDropRate x y pct => cases hdiv
    | setDirectionalBandwidth x y bps => cases hdiv
    | enableUplink => cases hdiv
    | disableUplink => cases hdiv

theorem rulesFollowAlong_iff (h : s.Walled vms seen) (hf : s.RulesFollow) (calls : List HostCall)
    (hdiv : ∀ call ∈ calls, call.divides) (hnames : ∀ call ∈ calls, ∀ vm ∈ call.names, vm ∈ vms) :
    s.RulesFollowAlong calls ↔ s.MayDivideAlong seen calls := by
  induction calls generalizing s seen with
  | nil => exact Iff.rfl
  | cons call calls ih =>
    obtain ⟨hiff,hwalled⟩ := h.apply hf call (hdiv call (by simp)) (hnames call (by simp))
    have hrest : ∀ hmay : s.MayDivide seen call, _ := fun hmay => ih hwalled (hiff.mpr hmay).2
      (fun call' hc => hdiv call' (by simp [hc])) fun call' hc => hnames call' (by simp [hc])
    constructor
    · intro ⟨hok,hafter,hrun⟩
      have hmay := hiff.mp ⟨hok,hafter⟩
      exact ⟨hmay,(hrest hmay).mp hrun⟩
    · intro ⟨hmay,hrun⟩
      exact ⟨(hiff.mpr hmay).1,(hiff.mpr hmay).2,(hrest hmay).mpr hrun⟩

/-- The calls on a new bridge after each of which the rules drop what is cut between realised VMs, and
nothing else, are those of which each one may be made where it is made. -/
theorem rules_follow_iff (name : String) (upstream : Option String) (calls : List HostCall)
    (hdiv : ∀ call ∈ calls, call.divides)
    (hnames : Set.InjOn (tapNameForVmOnBridge · name) {vm | ∃ call ∈ calls, vm ∈ call.names}) :
    (new name upstream).RulesFollowAlong calls ↔ (new name upstream).MayDivideAlong none calls :=
  rulesFollowAlong_iff (.new upstream hnames) (fun x hx => (by cases hx)) calls hdiv
    fun call hc vm hvm => ⟨call,hc,hvm⟩

/-- Two VMs that are told apart by their TAPs. -/
theorem injOn_two {name v w : String} (h : tapNameForVmOnBridge v name ≠ tapNameForVmOnBridge w name)
    {vms : Set String} (hvms : ∀ vm ∈ vms, vm = v ∨ vm = w) : Set.InjOn (tapNameForVmOnBridge · name) vms := by
  intro x hx y hy heq
  obtain rfl | rfl := hvms x hx
  · obtain rfl | rfl := hvms y hy
    · rfl
    · exact absurd heq h
  · obtain rfl | rfl := hvms y hy
    · exact absurd heq.symm h
    · rfl

/-- Two VMs that are cut off from each other once both run. -/
theorem rules_follow_two : (new "lan" none).RulesFollowAlong
    [.realizeForVm "a",.realizeForVm "b",.record (.partition "a" "b")] := by
  refine (rules_follow_iff "lan" none _ (by decide) ?_).mpr ⟨?_,?_,trivial,trivial⟩
  · exact injOn_two (v := "a") (w := "b") (by decide +kernel) (by simp [HostCall.names])
  · exact fun _ other ho => by cases ho
  · intro _ other ho
    have htaps : ((new "lan" none).apply (.realizeForVm "a")).1.bridge.realizedTaps = ["a"] := by
      decide +kernel
    rw [htaps] at ho
    obtain rfl := List.mem_singleton.mp ho
    exact ⟨fun hcut => absurd hcut (by decide +kernel),fun hcut => absurd hcut (by decide +kernel)⟩

/-- A VM that boots on a bridge that was cut before is not cut off. -/
theorem later_boot_open : ¬∀ name upstream calls, (∀ call ∈ calls, call.divides = true) →
    Set.InjOn (tapNameForVmOnBridge · name) {vm | ∃ call ∈ calls, vm ∈ call.names} →
    (new name upstream).RulesFollowAlong calls := by
  intro h
  have hrun := h "lan" none [.realizeForVm "a",.record .partitionAll,.realizeForVm "b"] (by decide)
    (injOn_two (v := "a") (w := "b") (by decide +kernel) (by simp [HostCall.names]))
  obtain ⟨-,-,-,-,-,hopen,-⟩ := hrun
  exact absurd hopen (by decide +kernel)

end Site

end Provium.Lab
