import Provium.Lab.BridgePartitions

/-! Several bridges on one host: what a call of one does to what the others have there. -/
namespace Provium.Lab
open Lib

/-- What belongs to a bridge is the same on two hosts: its two tables, the TAPs it has realised with their
qdiscs, and its own interface once it is realised. -/
structure HostedBridge.SameHoldings (b : HostedBridge) (h h' : Host) : Prop where
  rules : h'.tables .bridge (partitionTableFor b.name) = h.tables .bridge (partitionTableFor b.name)
  uplink : h'.tables .ip (uplinkTableFor b.name) = h.tables .ip (uplinkTableFor b.name)
  taps : ∀ vm ∈ b.realizedTaps, h'.interfaces (b.tap vm) = h.interfaces (b.tap vm)
  own : b.realized = true → h'.interfaces b.name = h.interfaces b.name

/-- The bridges of a host. -/
structure Network (ι : Type) where
  bridge : ι → HostedBridge
  host : Host

inductive NetworkCall (ι : Type) where
  | call (i : ι) (call : HostCall)
  /-- The host's default route changes. -/
  | reroute (upstream : Option String)

namespace Network
variable {ι : Type} [DecidableEq ι]

def new (names : ι → String) (upstream : Option String) : Network ι :=
  ⟨fun i => .new (names i),⟨fun _ => none,fun _ _ => none,upstream⟩⟩

def site (n : Network ι) (i : ι) : Site := ⟨n.bridge i,n.host⟩

def step (n : Network ι) : NetworkCall ι → Network ι
  | .call i call =>
    let s := ((n.site i).apply call).1
    ⟨Function.update n.bridge i s.bridge,s.host⟩
  | .reroute upstream => { n with host := { n.host with upstream } }

/-- A step leaves what belongs to the other bridges as it is. -/
def Undisturbed (n : Network ι) (c : NetworkCall ι) : Prop :=
  ∀ j, (∀ call, c ≠ .call j call) → (n.bridge j).SameHoldings n.host (n.step c).host

def UndisturbedAlong (n : Network ι) : List (NetworkCall ι) → Prop
  | [] => True
  | c::cs => n.Undisturbed c ∧ (n.step c).UndisturbedAlong cs

end Network

/-- The VM a call realises is one of `vms`. -/
def NetworkCall.RealizesIn {ι : Type} (vms : Set String) : NetworkCall ι → Prop
  | .call _ (.realizeForVm vm) => vm ∈ vms
  | _ => True

/-- Different bridges have different names after the filter, and no interface of one, for the VMs that may
be realised, has the name of an interface of the other; nor do two VMs on one bridge. -/
structure NamesApart {ι : Type} (names : ι → String) (vms : Set String) : Prop where
  tables : ∀ i j, i ≠ j → sanitizeNftName (names i) ≠ sanitizeNftName (names j)
  taps : ∀ i j, ∀ v ∈ vms, ∀ w ∈ vms, (v,i) ≠ (w,j) →
    tapStem v = tapStem w → tapHash v (names i) ≠ tapHash w (names j)
  interfaces : ∀ i j, i ≠ j → ∀ v ∈ vms, tapNameForVmOnBridge v (names i) ≠ names j

theorem NamesApart.tap_ne {ι : Type} {names : ι → String} {vms : Set String} (h : NamesApart names vms)
    {i j : ι} {v w : String} (hv : v ∈ vms) (hw : w ∈ vms) (hne : (v,i) ≠ (w,j)) :
    tapNameForVmOnBridge v (names i) ≠ tapNameForVmOnBridge w (names j) := by
  intro heq
  obtain ⟨hstem,hhash⟩ := tapName_inj.mp heq
  exact h.taps i j v hv w hw hne hstem hhash

/-! ## What a call touches -/

/-- Between two moments nothing changes but the two tables and the interface of the bridge, and the TAPs of
VMs of `vms`. -/
structure Site.Within (vms : Set String) (s s' : Site) : Prop where
  name : s'.bridge.name = s.bridge.name
  rules : ∀ table, table ≠ partitionTableFor s.bridge.name →
    s'.host.tables .bridge table = s.host.tables .bridge table
  uplink : ∀ table, table ≠ uplinkTableFor s.bridge.name → s'.host.tables .ip table = s.host.tables .ip table
  interfaces : ∀ dev, dev ≠ s.bridge.name → (∀ vm ∈ vms, dev ≠ s.bridge.tap vm) →
    s'.host.interfaces dev = s.host.interfaces dev
  taps : (∀ vm ∈ s.bridge.realizedTaps, vm ∈ vms) → ∀ vm ∈ s'.bridge.realizedTaps, vm ∈ vms

namespace Site
variable {s : Site} {vms : Set String}

theorem Within.refl (s : Site) : Within vms s s :=
  ⟨rfl,fun _ _ => rfl,fun _ _ => rfl,fun _ _ _ => rfl,id⟩

theorem Within.trans {s' s'' : Site} (h : Within vms s s') (h' : Within vms s' s'') : Within vms s s'' where
  name := h'.name.trans h.name
  rules := fun table ht => (h'.rules table (by rwa [h.name])).trans (h.rules table ht)
  uplink := fun table ht => (h'.uplink table (by rwa [h.name])).trans (h.uplink table ht)
  interfaces := fun dev hname htaps => by
    refine (h'.interfaces dev (by rwa [h.name]) fun vm hvm => ?_).trans (h.interfaces dev hname htaps)
    unfold HostedBridge.tap
    rw [h.name]
    exact htaps vm hvm
  taps := h'.taps ∘ h.taps

/-- Records and memories are no part of the host. -/
theorem within_of_bridge {b : HostedBridge} (hname : b.name = s.bridge.name)
    (htaps : (∀ vm ∈ s.bridge.realizedTaps, vm ∈ vms) → ∀ vm ∈ b.realizedTaps, vm ∈ vms) :
    Within vms s ⟨b,s.host⟩ := ⟨hname,fun _ _ => rfl,fun _ _ => rfl,fun _ _ _ => rfl,htaps⟩

/-- A command on the bridge's interface, or on that of one of the VMs. -/
theorem within_of_run {dev : String} (hdev : dev = s.bridge.name ∨ ∃ vm ∈ vms, dev = s.bridge.tap vm)
    (command : Interface → Option Interface) : Within vms s ⟨s.bridge,(s.host.run dev command).1⟩ := by
  have htables := Host.run_tables s.host dev command
  refine ⟨rfl,fun table _ => by rw [htables],fun table _ => by rw [htables],fun dev' hname htaps => ?_,id⟩
  refine Host.run_ne command ?_
  rintro rfl
  obtain hdev | ⟨vm,hvm,hdev⟩ := hdev
  · exact hname hdev
  · exact htaps vm hvm hdev

theorem within_setRules (s : Site) (table : Option (List NftRule)) : Within vms s
    ⟨s.bridge,s.host.setTable .bridge (partitionTableFor s.bridge.name) table⟩ := by
  refine ⟨rfl,fun table' ht => ?_,fun table' _ => rfl,fun _ _ _ => rfl,id⟩
  simp [Host.setTable,Function.update_of_ne ht]

theorem within_setUplink (s : Site) (table : Option (List NftRule)) : Within vms s
    ⟨s.bridge,s.host.setTable .ip (uplinkTableFor s.bridge.name) table⟩ := by
  refine ⟨rfl,fun table' _ => rfl,fun table' ht => ?_,fun _ _ _ => rfl,id⟩
  simp [Host.setTable,Function.update_of_ne ht]

variable {b : HostedBridge} {h : Host}

theorem within_andThen {r : Host × Bool} {next : Host → Host × Bool} (hr : Within vms ⟨b,h⟩ ⟨b,r.1⟩)
    (hnext : ∀ h', Within vms ⟨b,h'⟩ ⟨b,(next h').1⟩) : Within vms ⟨b,h⟩ ⟨b,(andThen r next).1⟩ := by
  unfold andThen
  split
  · exact hr.trans (hnext r.1)
  · exact hr

theorem within_own (command : Interface → Option Interface) :
    Within vms ⟨b,h⟩ ⟨b,(h.run b.name command).1⟩ :=
  within_of_run (s := ⟨b,h⟩) (.inl rfl) command

theorem within_tap {vm : String} (hvm : vm ∈ vms) (command : Interface → Option Interface) :
    Within vms ⟨b,h⟩ ⟨b,(h.run (b.tap vm) command).1⟩ :=
  within_of_run (s := ⟨b,h⟩) (.inr ⟨vm,hvm,rfl⟩) command

theorem within_netemStep : Within vms ⟨b,h⟩ ⟨b,(b.netemStep h).1⟩ := by
  unfold HostedBridge.netemStep
  split
  · exact .refl _
  · split
    · exact within_own _
    · exact within_own _
    · exact within_own _
    · exact .refl _

theorem within_installHtb {vm : String} (hvm : vm ∈ vms) (lat drop bps : ℕ) :
    Within vms ⟨b,h⟩ ⟨b,(installHtbWithOptionalNetem (b.tap vm) lat drop bps h).1⟩ := by
  refine within_andThen (within_tap hvm _) fun h₁ => within_andThen (within_tap hvm _) fun h₂ => ?_
  split
  · exact within_tap hvm _
  · exact .refl _

theorem within_directionalStep {vm : String} (hvm : vm ∈ vms) :
    Within vms ⟨b,h⟩ ⟨b,(b.directionalStep vm h).1⟩ := by
  unfold HostedBridge.directionalStep
  simp only
  split
  · exact .refl _
  · have hbare : Within vms ⟨b,h⟩ ⟨b,if (b.realizedDirectional.lookup vm).isSome then
        h.ignoring (b.tap vm) Interface.qdiscDel else h⟩ := by
      split
      · exact within_tap hvm _
      · exact .refl _
    split
    · exact hbare
    · split
      · exact hbare.trans (within_installHtb hvm _ _ _)
      · exact hbare.trans (within_tap hvm _)

theorem within_realizeCommands {vm : String} (hvm : vm ∈ vms) :
    Within vms ⟨b,h⟩ ⟨b,(b.realizeCommands vm h).1⟩ := by
  refine within_andThen ?_ fun h₁ => within_andThen within_netemStep fun h₂ => within_andThen ?_ fun h₃ =>
    within_directionalStep hvm
  · split
    · exact .refl _
    · exact within_own _
  · split
    · exact .refl _
    · exact within_tap hvm _

theorem within_realizeForVm (s : Site) {vm : String} (hvm : vm ∈ vms) : Within vms s (s.realizeForVm vm).1 := by
  have hcommands : Within vms s ⟨s.bridge,(s.bridge.realizeCommands vm s.host).1⟩ :=
    within_realizeCommands hvm
  unfold realizeForVm
  simp only
  split
  · refine hcommands.trans (within_of_bridge rfl fun htaps other ho => ?_)
    obtain rfl | ho := List.mem_insert_iff.mp ho
    · exact hvm
    · exact htaps other ho
  · exact hcommands

theorem within_realizeAll (list : List String) (hlist : ∀ vm ∈ list, vm ∈ vms) (s : Site) :
    Within vms s (s.realizeAll list) := by
  induction list generalizing s with
  | nil => exact .refl _
  | cons vm list ih =>
    have hone := within_realizeForVm s (hlist vm (by simp))
    unfold realizeAll
    split
    · exact hone.trans (ih (fun other ho => hlist other (by simp [ho])) _)
    · exact hone

theorem within_refreshDirectional (htaps : ∀ vm ∈ s.bridge.realizedTaps, vm ∈ vms) :
    Within vms s s.refreshDirectional := by
  unfold refreshDirectional
  split
  · exact within_realizeAll _ htaps s
  · exact .refl _

theorem within_refreshPartitions (s : Site) : Within vms s s.refreshPartitions := by
  unfold refreshPartitions
  split
  · exact .refl _
  · exact within_setRules s _

theorem within_refreshNetem (s : Site) : Within vms s s.refreshNetem := by
  unfold refreshNetem
  split
  · exact .refl _
  · split
    · exact .refl _
    · exact (within_own (b := s.bridge) _).trans (within_of_bridge rfl id)
    · exact (within_own (b := s.bridge) _).trans (within_own _)

theorem within_refreshBandwidth (s : Site) : Within vms s s.refreshBandwidth := by
  unfold refreshBandwidth
  split
  · exact .refl _
  · split
    · simp only
      split
      · exact (within_own (b := s.bridge) _).trans (within_refreshNetem _)
      · exact within_own (b := s.bridge) _
    · split
      · exact .refl _
      · exact within_own (b := s.bridge) _

theorem within_refreshUplink (s : Site) : Within vms s s.refreshUplink := by
  unfold refreshUplink
  split
  · exact .refl _
  · have hcommands : Within vms s ⟨s.bridge,s.bridge.uplinkCommands s.host⟩ := by
      unfold HostedBridge.uplinkCommands
      split
      · exact .refl _
      · exact within_setUplink s _
    exact hcommands.trans (within_of_bridge rfl id)

theorem within_dropTap (htaps : ∀ vm ∈ s.bridge.realizedTaps, vm ∈ vms) (vm : String) :
    Within vms s (s.dropTap vm) := by
  have htap : Within vms s ⟨s.bridge,(s.dropTap vm).host⟩ := by
    unfold dropTap
    simp only
    split
    · next hin => exact within_tap (b := s.bridge) (htaps vm hin.2) _
    · exact .refl _
  exact htap.trans (within_of_bridge rfl fun htaps other ho => htaps other (List.mem_of_mem_filter ho))

theorem within_deleteTaps (list : List String) (hlist : ∀ vm ∈ list, vm ∈ vms) (h : Host) :
    Within vms ⟨b,h⟩ ⟨b,deleteTaps b h list⟩ := by
  induction list generalizing h with
  | nil => exact .refl _
  | cons vm list ih =>
    exact (within_tap (hlist vm (by simp)) _).trans (ih (fun other ho => hlist other (by simp [ho])) _)

theorem within_unrealize (htaps : ∀ vm ∈ s.bridge.realizedTaps, vm ∈ vms) : Within vms s s.unrealize := by
  have hrules : Within vms s ⟨s.bridge,s.host.setTable .bridge (partitionTableFor s.bridge.name) none⟩ :=
    within_setRules s none
  have htables : Within vms s ⟨s.bridge,if s.bridge.uplinkRealized then
      (s.host.setTable .bridge (partitionTableFor s.bridge.name) none).setTable .ip
        (uplinkTableFor s.bridge.name) none
      else s.host.setTable .bridge (partitionTableFor s.bridge.name) none⟩ := by
    split
    · exact hrules.trans (within_setUplink _ none)
    · exact hrules
  have hdeleted := htables.trans (within_deleteTaps s.bridge.realizedTaps htaps _)
  have hhost : Within vms s ⟨s.bridge,s.unrealize.host⟩ := by
    unfold unrealize
    simp only
    split
    · exact hdeleted.trans (within_own _)
    · exact hdeleted
  exact hhost.trans (within_of_bridge rfl fun _ vm hvm => by cases hvm)

theorem within_record (s : Site) (op : BridgeOp) : Within vms s (s.recorded op) := within_of_bridge rfl id

/-- A call touches nothing but what is its bridge's. -/
theorem within_apply (htaps : ∀ vm ∈ s.bridge.realizedTaps, vm ∈ vms) (call : HostCall)
    (hcall : ∀ vm, call = .realizeForVm vm → vm ∈ vms) : Within vms s (s.apply call).1 := by
  cases call with
  | realizeForVm vm => exact within_realizeForVm s (hcall vm rfl)
  | unrealize => exact within_unrealize htaps
  | record op =>
    refine (within_record s op).trans ?_
    have hrules : Within vms (s.recorded op) (s.recorded op).refreshPartitions := within_refreshPartitions _
    have hnetem : Within vms (s.recorded op) (s.recorded op).refreshNetem := within_refreshNetem _
    have hdirectional : Within vms (s.recorded op) (s.recorded op).refreshDirectional :=
      within_refreshDirectional htaps
    cases op with
    | attach vm => exact .refl _
    | route other => exact .refl _
    | detach vm =>
      exact (within_dropTap (s := s.recorded (.detach vm)) htaps vm).trans (within_refreshPartitions _)
    | reset =>
      have hrest := (hrules.trans (within_refreshNetem _)).trans (within_refreshBandwidth _)
      exact hrest.trans (within_refreshDirectional (hrest.taps htaps))
    | addLatency ms => exact hnetem
    | dropRate pct => exact hnetem
    | bandwidthLimit bps => exact within_refreshBandwidth _
    | addDirectionalLatency x y ms => exact hdirectional
    | directionalDropRate x y pct => exact hdirectional
    | setDirectionalBandwidth x y bps => exact hdirectional
    | enableUplink => exact within_refreshUplink _
    | disableUplink => exact within_refreshUplink _
    | _ => exact hrules

end Site

/-! ## Several bridges -/

namespace Network
variable {ι : Type} {names : ι → String} {vms : Set String} {n : Network ι}

/-- Every bridge has its name and has realised none but VMs of `vms`. -/
structure Named (names : ι → String) (vms : Set String) (n : Network ι) : Prop where
  name : ∀ i, (n.bridge i).name = names i
  taps : ∀ i, ∀ vm ∈ (n.bridge i).realizedTaps, vm ∈ vms

theorem Named.new (names : ι → String) (vms : Set String) (upstream : Option String) :
    (Network.new names upstream).Named names vms :=
  ⟨fun _ => rfl,fun _ vm hvm => by cases hvm⟩

theorem within_call (h : n.Named names vms) {i : ι} {call : HostCall}
    (hc : (NetworkCall.call i call).RealizesIn vms) : Site.Within vms (n.site i) ((n.site i).apply call).1 := by
  refine Site.within_apply (h.taps i) call fun vm hvm => ?_
  subst hvm
  exact hc

variable [DecidableEq ι]

theorem Named.step (h : n.Named names vms) {c : NetworkCall ι} (hc : c.RealizesIn vms) :
    (n.step c).Named names vms := by
  cases c with
  | reroute upstream => exact ⟨h.name,h.taps⟩
  | call i call =>
    have hw := within_call h hc
    constructor
    · intro j
      by_cases hj : j = i
      · subst hj
        simpa [Network.step] using hw.name.trans (h.name j)
      · simpa [Network.step,hj] using h.name j
    · intro j
      by_cases hj : j = i
      · subst hj
        simpa [Network.step] using hw.taps (h.taps j)
      · simpa [Network.step,hj] using h.taps j

/-- With names apart no step disturbs another bridge. -/
theorem Named.undisturbed (h : n.Named names vms) (hne : Function.Injective names)
    (ha : NamesApart names vms) {c : NetworkCall ι} (hc : c.RealizesIn vms) : n.Undisturbed c := by
  intro j hj
  cases c with
  | reroute upstream => exact ⟨rfl,rfl,fun _ _ => rfl,fun _ => rfl⟩
  | call i call =>
    have hij : i ≠ j := by
      rintro rfl
      exact hj call rfl
    have hw := within_call h hc
    have hname : (n.site i).bridge.name = names i := h.name i
    refine ⟨hw.rules _ ?_,hw.uplink _ ?_,fun vm hvm => hw.interfaces _ ?_ fun other ho => ?_,
      fun _ => hw.interfaces _ ?_ fun other ho => ?_⟩
    · rw [hname,h.name j,Ne,partitionTableFor_inj]
      exact ha.tables j i hij.symm
    · rw [hname,h.name j,Ne,uplinkTableFor_inj]
      exact ha.tables j i hij.symm
    · unfold HostedBridge.tap
      rw [hname,h.name j]
      exact ha.interfaces j i hij.symm vm (h.taps j vm hvm)
    · unfold HostedBridge.tap
      rw [hname,h.name j]
      exact ha.tap_ne (h.taps j vm hvm) ho (by simp [hij.symm])
    · rw [hname,h.name j]
      exact fun heq => hij (hne heq.symm)
    · unfold HostedBridge.tap
      rw [hname,h.name j]
      exact fun heq => ha.interfaces i j hij other ho heq.symm

theorem Named.undisturbedAlong (h : n.Named names vms) (hne : Function.Injective names)
    (ha : NamesApart names vms) (cs : List (NetworkCall ι)) (hcs : ∀ c ∈ cs, c.RealizesIn vms) :
    n.UndisturbedAlong cs := by
  induction cs generalizing n with
  | nil => trivial
  | cons c cs ih =>
    have hc := hcs c (by simp)
    exact ⟨h.undisturbed hne ha hc,ih (h.step hc) fun c' hc' => hcs c' (by simp [hc'])⟩

end Network

/-! ## Names that are not apart -/

/-- A first VM is realised, on whatever host, and then its TAP and the bridge's interface are there. -/
theorem Site.realize_first (name vm : String) (h : Host) : ∃ h', realizeForVm ⟨.new name,h⟩ vm =
    (⟨(HostedBridge.new name).noteRealized vm,h'⟩,true) ∧
    h'.interfaces (tapNameForVmOnBridge vm name) ≠ none ∧ h'.interfaces name ≠ none := by
  have hadd : ∀ (h : Host) (dev : String), ∃ h', h.run dev Interface.add = (h',true) ∧
      h'.interfaces dev ≠ none ∧ ∀ dev', h.interfaces dev' ≠ none → h'.interfaces dev' ≠ none := by
    intro h dev
    have hsome : ∃ root, Interface.add (h.interfaces dev) = some (some root) := by
      cases h.interfaces dev with
      | none => exact ⟨none,rfl⟩
      | some root => exact ⟨root,rfl⟩
    obtain ⟨root,hroot⟩ := hsome
    refine ⟨_,Host.run_ok hroot,by simp,fun dev' hdev => ?_⟩
    by_cases heq : dev' = dev
    · subst heq
      simp
    · rwa [Host.setInterface_ne heq]
  obtain ⟨h₁,hrun₁,hown,-⟩ := hadd h name
  obtain ⟨h₂,hrun₂,htap,hkeeps⟩ := hadd h₁ (tapNameForVmOnBridge vm name)
  refine ⟨h₂,realizeForVm_of_commands ?_,htap,hkeeps name hown⟩
  unfold HostedBridge.realizeCommands
  have hfirst : (if (HostedBridge.new name).realized then (h,true)
      else h.run (HostedBridge.new name).name Interface.add) = (h₁,true) := hrun₁
  have hsecond : (if vm ∈ (HostedBridge.new name).realizedTaps then (h₁,true)
      else h₁.run ((HostedBridge.new name).tap vm) Interface.add) = (h₂,true) := hrun₂
  have hnetem : (HostedBridge.new name).netemStep h₁ = (h₁,true) := if_pos rfl
  have hdirectional : (HostedBridge.new name).directionalStep vm h₂ = (h₂,true) := by
    unfold HostedBridge.directionalStep
    exact if_pos rfl
  rw [Host.andThen_ok hfirst,Host.andThen_ok hnetem,Host.andThen_ok hsecond]
  exact hdirectional

theorem HostedBridge.mem_noteRealized (b : HostedBridge) (vm : String) :
    vm ∈ (b.noteRealized vm).realizedTaps := by
  change vm ∈ b.realizedTaps.insert vm
  exact List.mem_insert_self

/-- A VM that leaves takes its TAP with it. -/
theorem Site.detach_gone {s : Site} {vm : String} (hr : s.bridge.realized = true)
    (hin : vm ∈ s.bridge.realizedTaps) :
    (s.apply (.record (.detach vm))).1.host.interfaces (s.bridge.tap vm) = none := by
  change (Site.refreshPartitions _).host.interfaces _ = none
  rw [Site.refreshPartitions_interfaces]
  change (if _ ∧ _ then _ else _ : Host).interfaces _ = none
  rw [if_pos ⟨hr,hin⟩,Host.ignoring_del]
  exact if_pos rfl

namespace Network
variable {ι : Type} [DecidableEq ι] {names : ι → String} {vms : Set String}

theorem step_call (n : Network ι) (i : ι) (call : HostCall) : n.step (.call i call) =
    ⟨Function.update n.bridge i ((n.site i).apply call).1.bridge,((n.site i).apply call).1.host⟩ := rfl

/-- A bridge that has not been used yet realises its first VM. -/
theorem step_first {n : Network ι} {i : ι} {name : String} (hi : n.bridge i = .new name) (vm : String) :
    (n.step (.call i (.realizeForVm vm))).bridge i = (HostedBridge.new name).noteRealized vm ∧
      (∀ j, j ≠ i → (n.step (.call i (.realizeForVm vm))).bridge j = n.bridge j) ∧
      (n.step (.call i (.realizeForVm vm))).host.interfaces (tapNameForVmOnBridge vm name) ≠ none ∧
      (n.step (.call i (.realizeForVm vm))).host.interfaces name ≠ none := by
  obtain ⟨h',heq,htap,hown⟩ := Site.realize_first name vm n.host
  have hs : (n.site i).apply (.realizeForVm vm) = (⟨(HostedBridge.new name).noteRealized vm,h'⟩,true) := by
    change (Site.mk (n.bridge i) n.host).realizeForVm vm = _
    rw [hi]
    exact heq
  rw [step_call,hs]
  exact ⟨Function.update_self _ _ _,fun j hj => Function.update_of_ne hj _ _,htap,hown⟩

/-- A bridge that has realised a VM takes the VM's TAP away again. -/
theorem step_detach {n : Network ι} {i : ι} {name vm : String}
    (hi : n.bridge i = (HostedBridge.new name).noteRealized vm) :
    (n.step (.call i (.record (.detach vm)))).host.interfaces (tapNameForVmOnBridge vm name) = none := by
  have hs : n.site i = ⟨(HostedBridge.new name).noteRealized vm,n.host⟩ := by
    unfold site
    rw [hi]
  rw [step_call,hs]
  exact Site.detach_gone (s := ⟨(HostedBridge.new name).noteRealized vm,n.host⟩) rfl
    (HostedBridge.mem_noteRealized _ vm)

/-- No run of calls that realise VMs of `vms` disturbs a bridge. -/
def NeverDisturbed (names : ι → String) (vms : Set String) : Prop :=
  ∀ upstream cs, (∀ c ∈ cs, NetworkCall.RealizesIn vms c) → (new names upstream).UndisturbedAlong cs

/-- Two uplinks in one table. -/
theorem tables_apart (h : NeverDisturbed names vms) {i j : ι} (hij : i ≠ j) :
    sanitizeNftName (names i) ≠ sanitizeNftName (names j) := by
  intro heq
  obtain ⟨-,hsecond,-⟩ := h (some "eth0") [.call i (.record .enableUplink),.call j (.record .enableUplink)]
    (by simp [NetworkCall.RealizesIn])
  have hsame := (hsecond i fun call hc => hij (NetworkCall.call.inj hc).1.symm).uplink
  have htable : uplinkTableFor (names j) = uplinkTableFor (names i) := by rw [uplinkTableFor_inj,heq]
  simp [step,site,new,Site.apply,Site.refreshAfter,Site.recorded,Site.refreshUplink,BridgeInner.apply,
    HostedBridge.new,BridgeInner.new,HostedBridge.uplinkCommands,Host.setTable,hij.symm,htable] at hsame

/-- A TAP that another bridge takes away. -/
theorem taps_apart (h : NeverDisturbed names vms) {i j : ι} (hij : i ≠ j) {v w : String} (hv : v ∈ vms)
    (hw : w ∈ vms) : tapNameForVmOnBridge v (names i) ≠ tapNameForVmOnBridge w (names j) := by
  intro heq
  obtain ⟨-,hsecond,hthird,-⟩ := h none [.call i (.realizeForVm v),.call j (.realizeForVm w),
    .call j (.record (.detach w))] (by simp [NetworkCall.RealizesIn,hv,hw])
  obtain ⟨hi₁,hothers₁,htap,-⟩ := step_first (n := new names none) (i := i) rfl v
  obtain ⟨hj₂,hothers₂,-,-⟩ := step_first (hothers₁ j hij.symm) w
  have hkept := (hsecond i fun call hc => hij (NetworkCall.call.inj hc).1.symm).taps v (by
    rw [hi₁]
    exact HostedBridge.mem_noteRealized _ v)
  have hgone := (hthird i fun call hc => hij (NetworkCall.call.inj hc).1.symm).taps v (by
    rw [hothers₂ i hij,hi₁]
    exact HostedBridge.mem_noteRealized _ v)
  have hname : ∀ m : Network ι, m.bridge i = (HostedBridge.new (names i)).noteRealized v →
      (m.bridge i).tap v = tapNameForVmOnBridge v (names i) := fun m hm => by rw [hm]; rfl
  rw [hname _ hi₁] at hkept
  rw [hname _ ((hothers₂ i hij).trans hi₁),heq,step_detach hj₂,← heq,hkept] at hgone
  exact htap hgone.symm

/-- A bridge's interface that another bridge takes for a TAP. -/
theorem interfaces_apart (h : NeverDisturbed names vms) {i j : ι} (hij : i ≠ j) {v : String} (hv : v ∈ vms) :
    tapNameForVmOnBridge v (names i) ≠ names j := by
  intro heq
  obtain ⟨-,hsecond,hthird,-⟩ := h none [.call j (.realizeForVm v),.call i (.realizeForVm v),
    .call i (.record (.detach v))] (by simp [NetworkCall.RealizesIn,hv])
  obtain ⟨hj₁,hothers₁,-,hown⟩ := step_first (n := new names none) (i := j) rfl v
  obtain ⟨hi₂,hothers₂,-,-⟩ := step_first (hothers₁ i hij) v
  have hkept := (hsecond j fun call hc => hij (NetworkCall.call.inj hc).1).own (by rw [hj₁]; rfl)
  have hgone := (hthird j fun call hc => hij (NetworkCall.call.inj hc).1).own (by
    rw [hothers₂ j hij.symm,hj₁]
    rfl)
  have hname : ∀ m : Network ι, m.bridge j = (HostedBridge.new (names j)).noteRealized v →
      (m.bridge j).name = names j := fun m hm => by rw [hm]; rfl
  rw [hname _ hj₁] at hkept
  rw [hname _ ((hothers₂ j hij.symm).trans hj₁),← heq,step_detach hi₂,heq,hkept] at hgone
  exact hown hgone.symm

/-- No call on one bridge touches what belongs to another, their tables have different names and every VM has
a TAP name of its own on every bridge, exactly if the names are apart. -/
theorem bridges_apart_iff (names : ι → String) (hne : Function.Injective names) (vms : Set String) :
    NeverDisturbed names vms ∧
      (∀ i j, i ≠ j → partitionTableFor (names i) ≠ partitionTableFor (names j) ∧
        uplinkTableFor (names i) ≠ uplinkTableFor (names j)) ∧
      (∀ i j, ∀ v ∈ vms, ∀ w ∈ vms, (v,i) ≠ (w,j) →
        tapNameForVmOnBridge v (names i) ≠ tapNameForVmOnBridge w (names j)) ↔
    NamesApart names vms := by
  constructor
  · rintro ⟨hnever,-,htaps⟩
    refine ⟨fun i j hij => tables_apart hnever hij,fun i j v hv w hw hvw hstem hhash => ?_,
      fun i j hij v hv => interfaces_apart hnever hij hv⟩
    exact htaps i j v hv w hw hvw (tapName_inj.mpr ⟨hstem,hhash⟩)
  · intro ha
    refine ⟨fun upstream cs hcs => ?_,fun i j hij => ?_,fun i j v hv w hw hvw => ha.tap_ne hv hw hvw⟩
    · exact (Named.new names vms upstream).undisturbedAlong hne ha cs hcs
    · rw [Ne,Ne,partitionTableFor_inj,uplinkTableFor_inj]
      exact ⟨ha.tables i j hij,ha.tables i j hij⟩

/-- Two bridges with two VMs that may sit on both. -/
theorem bridges_apart_lan_mgmt : NeverDisturbed (fun i : Bool => if i then "lan" else "mgmt") {"a","b"} := by
  refine ((bridges_apart_iff _ ?_ _).mpr ⟨?_,?_,?_⟩).1
  · intro i j h
    cases i <;> cases j <;> simp at h <;> rfl
  · intro i j hij
    cases i <;> cases j <;> first | exact absurd rfl hij | decide +kernel
  · intro i j v hv w hw hne _
    obtain rfl | rfl := hv <;> obtain rfl | rfl := hw <;> cases i <;> cases j <;>
      first | exact absurd rfl hne | decide +kernel
  · intro i j hij v hv
    obtain rfl | rfl := hv <;> cases i <;> cases j <;> first | exact absurd rfl hij | decide +kernel

/-- Two bridges of which one's refresh deletes the other's rules. -/
theorem dash_disturbs_underscore : ¬∀ names : Bool → String, Function.Injective names → ∀ vms,
    NeverDisturbed names vms := by
  intro h
  have hne : Function.Injective fun i : Bool => if i then "a-b" else "a_b" := by
    intro i j h
    cases i <;> cases j <;> simp at h <;> rfl
  obtain ⟨-,-,-,-,hlast,-⟩ := h _ hne {"v","w","x"} none
    [.call true (.realizeForVm "v"),.call true (.realizeForVm "w"),
      .call true (.record (.partition "v" "w")),.call false (.realizeForVm "x"),
      .call false (.record .restoreAll)] (by simp [NetworkCall.RealizesIn])
  have hrules := (hlast true fun call hc => by cases hc).rules
  exact absurd hrules (by decide +kernel)

end Network

end Provium.Lab
