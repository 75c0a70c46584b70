import Provium.Lab.BridgeApart
import Provium.Lab.BridgeCanonical

/-! The cable of a NIC, `nic_ud.rs`: `disconnect` takes a VM's TAP off its bridge and `reconnect` puts it back, or they
detach and attach the VM where there is no TAP. The guest's own end of it, `set_link`, is left out. -/
namespace Provium.Lab
open Lib

/-- A site with the interfaces that are on the bridge. -/
structure Cabled where
  site : Site
  plugged : String → Bool

/-- `ok` is whether the `ip` command succeeds. -/
inductive CableCall where
  | call (c : HostCall)
  | disconnect (vm : String) (ok : Bool)
  | reconnect (vm : String) (ok : Bool)
  deriving DecidableEq, Repr

namespace Cabled

def new (name : String) (upstream : Option String) : Cabled := ⟨.new name upstream,fun _ => false⟩

def tap (c : Cabled) (vm : String) : String := c.site.bridge.tap vm

def Realized (c : Cabled) (vm : String) : Prop := vm ∈ c.site.bridge.realizedTaps

instance (c : Cabled) (vm : String) : Decidable (c.Realized vm) := inferInstanceAs (Decidable (_ ∈ _))

/-- `realize_for_vm` comes to the TAP: what it does before succeeds. -/
def comesToTap (s : Site) : Bool :=
  (andThen (if s.bridge.realized then (s.host,true) else s.host.run s.bridge.name Interface.add)
    s.bridge.netemStep).2

/-- What a call of the bridge puts on it or takes off. The loop of `refresh_directional` adds no TAP, since it goes
over those that are there. -/
def pluggedAfter (c : Cabled) : HostCall → String → Bool
  | .realizeForVm vm =>
    if ¬ c.Realized vm ∧ comesToTap c.site then Function.update c.plugged (c.tap vm) true else c.plugged
  | .record (.detach vm) =>
    if c.site.bridge.realized ∧ c.Realized vm then Function.update c.plugged (c.tap vm) false else c.plugged
  | .record _ => c.plugged
  | .unrealize => fun dev =>
    c.plugged dev && !c.site.bridge.realized && dev ∉ c.site.bridge.realizedTaps.map c.tap

def call (c : Cabled) (hc : HostCall) : Cabled := ⟨(c.site.apply hc).1,c.pluggedAfter hc⟩

/-- `unplug` and `replug` -/
def plug (c : Cabled) (vm : String) (on ok : Bool) : Cabled :=
  if ok then { c with plugged := Function.update c.plugged (c.tap vm) on } else c

def apply (c : Cabled) : CableCall → Cabled
  | .call hc => c.call hc
  | .disconnect vm ok => if c.Realized vm then c.plug vm false ok else c.call (.record (.detach vm))
  | .reconnect vm ok => if c.Realized vm then c.plug vm true ok else c.call (.record (.attach vm))

def run (c : Cabled) (calls : List CableCall) : Cabled := calls.foldl apply c

/-- Whose cable a call leaves pulled, where a TAP is there. -/
def pulledAfter (c : Cabled) (pulled : String → Bool) : CableCall → String → Bool
  | .disconnect vm ok => Function.update pulled vm (c.Realized vm && (ok || pulled vm))
  | .reconnect vm ok => Function.update pulled vm (pulled vm && !ok)
  | .call (.record (.detach vm)) => Function.update pulled vm false
  | .call .unrealize => fun _ => false
  | .call _ => pulled

/-- Whose cables are pulled after these calls. -/
def pulledAlong (c : Cabled) (pulled : String → Bool) : List CableCall → String → Bool
  | [] => pulled
  | call::calls => (c.apply call).pulledAlong (c.pulledAfter pulled call) calls

end Cabled

/-- The VMs for which a call may add a TAP. -/
def CableCall.realizes : CableCall → List String
  | .call (.realizeForVm vm) => [vm]
  | _ => []

/-- A call that may be made while the VM's cable is pulled and does not end it. -/
def CableCall.leaves (vm : String) : CableCall → Prop
  | .call (.record (.detach other)) | .disconnect other _ | .reconnect other _ => other ≠ vm
  | .call .unrealize => False
  | .call _ => True

/-! ## The TAPs that a call leaves -/

namespace Site
variable {s : Site} {vm x : String}

theorem andThen_snd {r : Host × Bool} {next : Host → Host × Bool} (h : (andThen r next).2 = true) :
    r.2 = true ∧ (next r.1).2 = true := by
  unfold andThen at h
  split at h
  · next hr => exact ⟨hr,h⟩
  · next hr => exact absurd h hr

theorem mem_realizeForVm : x ∈ (s.realizeForVm vm).1.bridge.realizedTaps ↔
    x ∈ s.bridge.realizedTaps ∨ x = vm ∧ (s.realizeForVm vm).2 = true := by
  unfold realizeForVm
  simp only
  split
  · simp only [HostedBridge.noteRealized,List.mem_insert_iff,and_true]
    exact Or.comm
  · simp

theorem mem_realizeAll (list : List String) (hlist : ∀ v ∈ list, v ∈ s.bridge.realizedTaps) :
    x ∈ (s.realizeAll list).bridge.realizedTaps ↔ x ∈ s.bridge.realizedTaps := by
  induction list generalizing s with
  | nil => exact Iff.rfl
  | cons v list ih =>
    have hone : ∀ y, y ∈ (s.realizeForVm v).1.bridge.realizedTaps ↔ y ∈ s.bridge.realizedTaps := by
      intro y
      rw [mem_realizeForVm]
      exact ⟨fun h => h.elim id fun h => h.1 ▸ hlist v List.mem_cons_self,.inl⟩
    unfold realizeAll
    split
    · exact (ih fun w hw => (hone w).2 (hlist w (List.mem_cons_of_mem _ hw))).trans (hone x)
    · exact hone x

theorem mem_refreshDirectional : x ∈ s.refreshDirectional.bridge.realizedTaps ↔ x ∈ s.bridge.realizedTaps := by
  unfold refreshDirectional
  split
  · exact mem_realizeAll _ fun _ => id
  · exact Iff.rfl

theorem realizedTaps_refreshNetem (s : Site) : s.refreshNetem.bridge.realizedTaps = s.bridge.realizedTaps := by
  unfold refreshNetem
  split
  · rfl
  · split <;> rfl

theorem realizedTaps_refreshBandwidth (s : Site) :
    s.refreshBandwidth.bridge.realizedTaps = s.bridge.realizedTaps := by
  unfold refreshBandwidth
  split
  · rfl
  · split
    · simp only
      split
      · exact realizedTaps_refreshNetem _
      · rfl
    · split <;> rfl

theorem realizedTaps_refreshUplink (s : Site) : s.refreshUplink.bridge.realizedTaps = s.bridge.realizedTaps := by
  unfold refreshUplink
  split <;> rfl

/-- Records are kept without regard to the TAPs, but for those of a VM that is detached. -/
theorem mem_record {op : BridgeOp} (hop : ∀ v, op ≠ .detach v) :
    x ∈ (s.apply (.record op)).1.bridge.realizedTaps ↔ x ∈ s.bridge.realizedTaps := by
  have hpartitions : (s.recorded op).refreshPartitions.bridge.realizedTaps = s.bridge.realizedTaps := by
    rw [refreshPartitions_bridge]
    rfl
  have hdirectional : x ∈ (s.recorded op).refreshDirectional.bridge.realizedTaps ↔ x ∈ s.bridge.realizedTaps :=
    mem_refreshDirectional
  change x ∈ ((s.recorded op).refreshAfter op).bridge.realizedTaps ↔ _
  cases op with
  | detach v => exact absurd rfl (hop v)
  | attach v | route other => exact Iff.rfl
  | reset =>
    refine mem_refreshDirectional.trans ?_
    rw [realizedTaps_refreshBandwidth,realizedTaps_refreshNetem,hpartitions]
  | addLatency ms | dropRate pct => exact iff_of_eq (congrArg _ (realizedTaps_refreshNetem _))
  | bandwidthLimit bps => exact iff_of_eq (congrArg _ (realizedTaps_refreshBandwidth _))
  | addDirectionalLatency a b ms | directionalDropRate a b pct | setDirectionalBandwidth a b bps => exact hdirectional
  | enableUplink | disableUplink => exact iff_of_eq (congrArg _ (realizedTaps_refreshUplink _))
  | _ => exact iff_of_eq (congrArg _ hpartitions)

theorem mem_detach : x ∈ (s.apply (.record (.detach vm))).1.bridge.realizedTaps ↔
    x ∈ s.bridge.realizedTaps ∧ x ≠ vm := by
  change x ∈ (((s.recorded (.detach vm)).dropTap vm).refreshPartitions).bridge.realizedTaps ↔ _
  rw [refreshPartitions_bridge]
  change x ∈ s.bridge.realizedTaps.filter (· ≠ vm) ↔ _
  rw [List.mem_filter,decide_eq_true_eq]

theorem name_apply (s : Site) (hc : HostCall) : (s.apply hc).1.bridge.name = s.bridge.name :=
  (@within_apply s Set.univ (fun _ _ => trivial) hc fun _ _ => trivial).name

end Site

namespace Cabled
variable {c c' : Cabled} {vm dev : String} {vms : Set String}

theorem tap_call (c : Cabled) (hc : HostCall) (vm : String) : (c.call hc).tap vm = c.tap vm := by
  unfold tap HostedBridge.tap call
  rw [Site.name_apply]

theorem tap_apply (c : Cabled) (call : CableCall) (vm : String) : (c.apply call).tap vm = c.tap vm := by
  cases call with
  | call hc => exact tap_call c hc vm
  | disconnect other ok | reconnect other ok =>
    unfold apply plug
    dsimp only
    split_ifs
    · rfl
    · rfl
    · exact tap_call c _ vm

theorem tap_run (c : Cabled) (calls : List CableCall) (vm : String) : (c.run calls).tap vm = c.tap vm := by
  induction calls generalizing c with
  | nil => rfl
  | cons call calls ih => exact (ih (c.apply call)).trans (tap_apply c call vm)

theorem tap_eq (hd : DistinctTaps c.site.bridge.name vms) {v w : String} (hv : v ∈ vms) (hw : w ∈ vms) :
    c.tap v = c.tap w ↔ v = w := ⟨fun h => hd.inj hv hw h,fun h => h ▸ rfl⟩

theorem update_congr {f g : String → Bool} (h : f dev = g dev) (at' : String) (v : Bool) :
    Function.update f at' v dev = Function.update g at' v dev := by
  rw [Function.update_apply,Function.update_apply,h]

theorem call_congr {site : Site} {p q : String → Bool} (h : p dev = q dev) (hc : HostCall) :
    ((⟨site,p⟩ : Cabled).call hc).plugged dev = ((⟨site,q⟩ : Cabled).call hc).plugged dev := by
  change (⟨site,p⟩ : Cabled).pluggedAfter hc dev = (⟨site,q⟩ : Cabled).pluggedAfter hc dev
  cases hc with
  | realizeForVm v =>
    unfold pluggedAfter
    dsimp only
    rw [ite_apply,ite_apply,update_congr h,h]
    rfl
  | unrealize =>
    unfold pluggedAfter
    dsimp only
    rw [h]
    rfl
  | record op =>
    cases op with
    | detach v =>
      unfold pluggedAfter
      dsimp only
      rw [ite_apply,ite_apply,update_congr h,h]
      rfl
    | _ => exact h

/-- What a call makes of an interface does not depend on where the others are. -/
theorem apply_congr (hsite : c'.site = c.site) (call : CableCall) : (c'.apply call).site = (c.apply call).site ∧
    ∀ dev, c'.plugged dev = c.plugged dev → (c'.apply call).plugged dev = (c.apply call).plugged dev := by
  obtain ⟨site,p⟩ := c
  obtain ⟨site',q⟩ := c'
  obtain rfl : site' = site := hsite
  have hplug : ∀ v on ok, ((⟨site',q⟩ : Cabled).plug v on ok).site = ((⟨site',p⟩ : Cabled).plug v on ok).site ∧
      ∀ dev, q dev = p dev → ((⟨site',q⟩ : Cabled).plug v on ok).plugged dev =
        ((⟨site',p⟩ : Cabled).plug v on ok).plugged dev := by
    intro v on ok
    unfold plug
    split
    · exact ⟨rfl,fun dev hdev => update_congr hdev _ _⟩
    · exact ⟨rfl,fun dev hdev => hdev⟩
  cases call with
  | call hc => exact ⟨rfl,fun dev hdev => call_congr hdev hc⟩
  | disconnect v ok | reconnect v ok =>
    by_cases hv : (⟨site',p⟩ : Cabled).Realized v
    · have hv' : (⟨site',q⟩ : Cabled).Realized v := hv
      unfold apply
      dsimp only
      rw [if_pos hv,if_pos hv']
      exact hplug v _ ok
    · have hv' : ¬ (⟨site',q⟩ : Cabled).Realized v := hv
      unfold apply
      dsimp only
      rw [if_neg hv,if_neg hv']
      exact ⟨rfl,fun dev hdev => call_congr hdev _⟩

theorem run_congr (hsite : c'.site = c.site) (calls : List CableCall) : (c'.run calls).site = (c.run calls).site ∧
    ∀ dev, c'.plugged dev = c.plugged dev → (c'.run calls).plugged dev = (c.run calls).plugged dev := by
  induction calls generalizing c c' with
  | nil => exact ⟨hsite,fun dev hdev => hdev⟩
  | cons call calls ih =>
    obtain ⟨hsite,hplugged⟩ := apply_congr hsite call
    exact ⟨(ih hsite).1,fun dev hdev => (ih hsite).2 dev (hplugged dev hdev)⟩

/-! ## What a call does to a TAP -/

/-- The TAPs are those of VMs whose names are apart. -/
structure Named (vms : Set String) (c : Cabled) : Prop where
  distinct : DistinctTaps c.site.bridge.name vms
  taps : ∀ vm, c.Realized vm → vm ∈ vms

theorem Named.update (h : Named vms c) {v w : String} (hv : c.Realized v) (hw : w ∈ vms) (on : Bool) :
    Function.update c.plugged (c.tap w) on (c.tap v) = if v = w then on else c.plugged (c.tap v) := by
  rw [Function.update_apply]
  refine if_congr ⟨fun heq => h.distinct.inj (h.taps v hv) hw heq,fun heq => heq ▸ rfl⟩ rfl rfl

/-- On the bridge are the TAPs of the VMs whose cable is not pulled. -/
structure Follows (vms : Set String) (c : Cabled) (pulled : String → Bool) : Prop where
  named : Named vms c
  plugged : ∀ vm, c.Realized vm → c.plugged (c.tap vm) = !pulled vm
  unpulled : ∀ vm, ¬ c.Realized vm → pulled vm = false

variable {pulled : String → Bool}

theorem Follows.record (h : Follows vms c pulled) {op : BridgeOp} (hop : ∀ v, op ≠ .detach v) :
    Follows vms (c.call (.record op)) pulled := by
  have hrealized : ∀ vm, (c.call (.record op)).Realized vm ↔ c.Realized vm := fun vm => Site.mem_record hop
  have hplugged : (c.call (.record op)).plugged = c.plugged := by
    cases op with
    | detach v => exact absurd rfl (hop v)
    | _ => rfl
  refine ⟨⟨?_,fun vm hvm => h.named.taps vm ((hrealized vm).1 hvm)⟩,fun vm hvm => ?_,fun vm hvm => ?_⟩
  · exact (Site.name_apply c.site (.record op)).symm ▸ h.named.distinct
  · rw [hplugged,tap_call]
    exact h.plugged vm ((hrealized vm).1 hvm)
  · exact h.unpulled vm fun hr => hvm ((hrealized vm).2 hr)

theorem Follows.detach (h : Follows vms c pulled) (v : String) :
    Follows vms (c.call (.record (.detach v))) (Function.update pulled v false) := by
  have hrealized : ∀ vm, (c.call (.record (.detach v))).Realized vm ↔ c.Realized vm ∧ vm ≠ v :=
    fun vm => Site.mem_detach
  refine ⟨⟨?_,fun vm hvm => h.named.taps vm ((hrealized vm).1 hvm).1⟩,fun vm hvm => ?_,fun vm hvm => ?_⟩
  · exact (Site.name_apply c.site (.record (.detach v))).symm ▸ h.named.distinct
  · obtain ⟨hvm,hne⟩ := (hrealized vm).1 hvm
    rw [tap_call,Function.update_of_ne hne,← h.plugged vm hvm]
    unfold call pluggedAfter
    dsimp only
    split_ifs with hthere
    · rw [h.named.update hvm (h.named.taps v hthere.2),if_neg hne]
    · rfl
  · rw [Function.update_apply]
    split_ifs with heq
    · rfl
    · exact h.unpulled vm fun hr => hvm ((hrealized vm).2 ⟨hr,heq⟩)

theorem comesToTap_of_realized {s : Site} {v : String} (h : (s.realizeForVm v).2 = true) : comesToTap s = true := by
  have hcommands : (s.bridge.realizeCommands v s.host).2 = true := by
    by_contra hfalse
    unfold Site.realizeForVm at h
    simp only at h
    rw [if_neg hfalse] at h
    cases h
  obtain ⟨hadd,hrest⟩ := Site.andThen_snd hcommands
  unfold comesToTap andThen
  rw [if_pos hadd]
  exact (Site.andThen_snd hrest).1

theorem Follows.realize (h : Follows vms c pulled) {v : String} (hv : v ∈ vms) :
    Follows vms (c.call (.realizeForVm v)) pulled := by
  have hrealized : ∀ vm, (c.call (.realizeForVm v)).Realized vm ↔
      c.Realized vm ∨ vm = v ∧ (c.site.realizeForVm v).2 = true := fun vm => Site.mem_realizeForVm
  refine ⟨⟨?_,fun vm hvm => ?_⟩,fun vm hvm => ?_,fun vm hvm => h.unpulled vm fun hr => hvm ((hrealized vm).2 (.inl hr))⟩
  · exact (Site.name_apply c.site (.realizeForVm v)).symm ▸ h.named.distinct
  · obtain hr | ⟨rfl,-⟩ := (hrealized vm).1 hvm
    · exact h.named.taps vm hr
    · exact hv
  · rw [tap_call]
    unfold call pluggedAfter
    dsimp only
    by_cases hr : c.Realized vm
    · split_ifs with hadds
      · have hne : vm ≠ v := fun heq => hadds.1 (heq ▸ hr)
        rw [h.named.update hr hv,if_neg hne]
        exact h.plugged vm hr
      · exact h.plugged vm hr
    · -- The TAP is new, so all that comes before it has succeeded.
      obtain hr' | ⟨rfl,hok⟩ := (hrealized vm).1 hvm
      · exact absurd hr' hr
      · have hcomes : comesToTap c.site = true := comesToTap_of_realized hok
        rw [if_pos ⟨hr,hcomes⟩,h.unpulled vm hr]
        exact Function.update_self _ _ _

theorem Follows.plug (h : Follows vms c pulled) {v : String} (hv : c.Realized v) (on ok : Bool) :
    Follows vms (c.plug v on ok) (Function.update pulled v (if ok then !on else pulled v)) := by
  unfold Cabled.plug
  cases ok with
  | false =>
    rw [if_neg Bool.false_ne_true,if_neg Bool.false_ne_true,Function.update_eq_self]
    exact h
  | true =>
    rw [if_pos rfl,if_pos rfl]
    refine ⟨⟨h.named.1,h.named.2⟩,fun vm hvm => ?_,fun vm hvm => ?_⟩
    · have hold := h.plugged vm hvm
      rw [Function.update_apply]
      refine (h.named.update hvm (h.named.taps v hv) on).trans ?_
      split_ifs
      · rw [Bool.not_not]
      · exact hold
    · have hne : vm ≠ v := fun heq => hvm (heq ▸ hv)
      rw [Function.update_of_ne hne]
      exact h.unpulled vm hvm

theorem Follows.apply (h : Follows vms c pulled) {call : CableCall} (hcall : ∀ vm ∈ call.realizes, vm ∈ vms) :
    Follows vms (c.apply call) (c.pulledAfter pulled call) := by
  cases call with
  | call hc =>
    cases hc with
    | realizeForVm v => exact h.realize (hcall v List.mem_cons_self)
    | unrealize =>
      refine ⟨⟨?_,fun vm hvm => (nomatch hvm)⟩,fun vm hvm => (nomatch hvm),fun vm _ => rfl⟩
      exact (Site.name_apply c.site .unrealize).symm ▸ h.named.distinct
    | record op =>
      cases op with
      | detach v => exact h.detach v
      | _ => exact h.record fun v hv => (nomatch hv)
  | disconnect v ok =>
    unfold Cabled.apply pulledAfter
    dsimp only
    by_cases hv : c.Realized v
    · rw [if_pos hv,decide_eq_true hv]
      have hplug := h.plug hv false ok
      cases ok <;> simpa using hplug
    · rw [if_neg hv,decide_eq_false hv]
      exact h.detach v
  | reconnect v ok =>
    unfold Cabled.apply pulledAfter
    dsimp only
    by_cases hv : c.Realized v
    · rw [if_pos hv]
      have hplug := h.plug hv true ok
      cases ok <;> simpa using hplug
    · rw [if_neg hv,h.unpulled v hv,Bool.false_and,← h.unpulled v hv,Function.update_eq_self]
      exact h.record fun w hw => (nomatch hw)

theorem realized_plug (v : String) (on ok : Bool) : (c.plug v on ok).Realized vm ↔ c.Realized vm := by
  unfold Cabled.plug
  split <;> exact Iff.rfl

/-- The VM's own TAP stays. -/
theorem realized_leaves {call : CableCall} (hvm : c.Realized vm) (hleaves : call.leaves vm) :
    (c.apply call).Realized vm := by
  have hdetach : ∀ other, other ≠ vm → (c.call (.record (.detach other))).Realized vm :=
    fun other hne => Site.mem_detach.2 ⟨hvm,hne.symm⟩
  cases call with
  | call hc =>
    cases hc with
    | realizeForVm v => exact Site.mem_realizeForVm.2 (.inl hvm)
    | unrealize => exact hleaves.elim
    | record op =>
      cases op with
      | detach v => exact hdetach v hleaves
      | _ => exact (Site.mem_record (by rintro v ⟨⟩)).2 hvm
  | disconnect v ok =>
    unfold Cabled.apply
    dsimp only
    split_ifs
    · exact (realized_plug v false ok).2 hvm
    · exact hdetach v hleaves
  | reconnect v ok =>
    unfold Cabled.apply
    dsimp only
    split_ifs
    · exact (realized_plug v true ok).2 hvm
    · exact (Site.mem_record (by rintro w ⟨⟩)).2 hvm

theorem pulledAfter_leaves {call : CableCall} (hleaves : call.leaves vm) : c.pulledAfter pulled call vm = pulled vm := by
  cases call with
  | call hc =>
    cases hc with
    | realizeForVm v => rfl
    | unrealize => exact hleaves.elim
    | record op =>
      cases op with
      | detach v => exact Function.update_of_ne hleaves.symm _ _
      | _ => rfl
  | disconnect v ok | reconnect v ok => exact Function.update_of_ne hleaves.symm _ _

/-! ## Runs -/

theorem Follows.run (h : Follows vms c pulled) {calls : List CableCall}
    (hcalls : ∀ call ∈ calls, ∀ vm ∈ call.realizes, vm ∈ vms) :
    Follows vms (c.run calls) (c.pulledAlong pulled calls) := by
  induction calls generalizing c pulled with
  | nil => exact h
  | cons call calls ih =>
    exact ih (h.apply (hcalls call List.mem_cons_self)) fun d hd => hcalls d (List.mem_cons_of_mem _ hd)

/-- What is plugged is what is not pulled. -/
theorem Named.follows (h : Named vms c) : Follows vms c fun v => decide (c.Realized v) && !c.plugged (c.tap v) := by
  refine ⟨h,fun v hv => ?_,fun v hv => ?_⟩
  · rw [decide_eq_true hv,Bool.true_and,Bool.not_not]
  · rw [decide_eq_false hv,Bool.false_and]

/-- Over calls that leave it the TAP stays, and its cable as it was. -/
theorem run_leaves {calls : List CableCall} (hvm : c.Realized vm) (hleaves : ∀ call ∈ calls, call.leaves vm) :
    (c.run calls).Realized vm ∧ c.pulledAlong pulled calls vm = pulled vm := by
  induction calls generalizing c pulled with
  | nil => exact ⟨hvm,rfl⟩
  | cons call calls ih =>
    have hone := hleaves call List.mem_cons_self
    obtain ⟨hr,hp⟩ := @ih (c.apply call) (c.pulledAfter pulled call) (realized_leaves hvm hone)
      fun d hd => hleaves d (List.mem_cons_of_mem _ hd)
    exact ⟨hr,hp.trans (pulledAfter_leaves hone)⟩

theorem plugged_run_leaves (h : Follows vms c pulled) {calls : List CableCall}
    (hcalls : ∀ call ∈ calls, ∀ vm ∈ call.realizes, vm ∈ vms) (hvm : c.Realized vm)
    (hleaves : ∀ call ∈ calls, call.leaves vm) : (c.run calls).plugged (c.tap vm) = c.plugged (c.tap vm) := by
  obtain ⟨hr,hp⟩ := @run_leaves c vm pulled calls hvm hleaves
  have hafter := (h.run hcalls).plugged vm hr
  rw [tap_run,hp] at hafter
  rw [hafter,h.plugged vm hvm]

/-- To pull a cable, make calls that leave it pulled and plug it in again is to make the calls. -/
theorem replugged (h : Follows vms c pulled) {calls : List CableCall}
    (hcalls : ∀ call ∈ calls, ∀ vm ∈ call.realizes, vm ∈ vms) (hvm : c.Realized vm)
    (hleaves : ∀ call ∈ calls, call.leaves vm) :
    ((c.apply (.disconnect vm true)).run calls).plugged (c.tap vm) = false ∧
    (c.plugged (c.tap vm) = true →
      ((c.apply (.disconnect vm true)).run calls).apply (.reconnect vm true) = c.run calls) := by
  have hpull : c.apply (.disconnect vm true) = { c with plugged := Function.update c.plugged (c.tap vm) false } :=
    if_pos hvm
  have hfollows := @Follows.apply c vms pulled h (.disconnect vm true) (fun _ hv => (nomatch hv))
  rw [hpull] at hfollows ⊢
  have hr := (@run_leaves { c with plugged := Function.update c.plugged (c.tap vm) false } vm pulled calls hvm
    hleaves).1
  have hoff := plugged_run_leaves hfollows hcalls hvm hleaves
  have hoff' : (run { c with plugged := Function.update c.plugged (c.tap vm) false } calls).plugged (c.tap vm) =
      false := hoff.trans (Function.update_self _ _ _)
  refine ⟨hoff',fun hon => ?_⟩
  obtain ⟨hsite,hsame⟩ := @run_congr c { c with plugged := Function.update c.plugged (c.tap vm) false } rfl calls
  have hon' := (plugged_run_leaves h hcalls hvm hleaves).trans hon
  refine (if_pos hr).trans ((if_pos rfl).trans ?_)
  have htap : tap (run { c with plugged := Function.update c.plugged (c.tap vm) false } calls) vm = c.tap vm :=
    tap_run _ calls vm
  have hplugged : Function.update (run { c with plugged := Function.update c.plugged (c.tap vm) false } calls).plugged
      (tap (run { c with plugged := Function.update c.plugged (c.tap vm) false } calls) vm) true =
        (c.run calls).plugged := by
    funext dev
    rw [htap,Function.update_apply]
    split_ifs with hdev
    · rw [hdev,hon']
    · exact hsame dev (Function.update_of_ne hdev _ _)
  rw [hplugged,hsite]

end Cabled

/-! ## Where there is no TAP -/

/-- The same members, cuts and impairments. -/
structure BridgeInner.SameRecords (b b' : BridgeInner) : Prop where
  attached : ∀ v, v ∈ b.attached ↔ v ∈ b'.attached
  isolated : b.isolated = b'.isolated
  partitions : b.partitions = b'.partitions
  directionalPartitions : b.directionalPartitions = b'.directionalPartitions
  directional : ∀ k, b.directional.lookup k = b'.directional.lookup k

/-- To detach and attach a member forgets what mentions it. -/
theorem BridgeInner.sameRecords_iff (b : BridgeInner) (vm : String) :
    ((b.detach vm).apply (.attach vm)).SameRecords b ↔ vm ∈ b.attached ∧ Unmentioned vm { b with attached := [] } := by
  have hattach : ∀ v, v ∈ ((b.detach vm).apply (.attach vm)).attached ↔ v = vm ∨ v ∈ b.attached := by
    intro v
    simp only [apply,detach,List.mem_insert_iff,List.mem_filter,decide_eq_true_eq]
    tauto
  constructor
  · intro h
    refine ⟨(h.attached vm).1 ((hattach vm).2 (.inl rfl)),List.not_mem_nil,fun hmem => ?_,?_,?_,?_⟩
    · simpa using List.filter_eq_self.1 h.isolated vm hmem
    · simpa using List.filter_eq_self.1 h.partitions
    · simpa using List.filter_eq_self.1 h.directionalPartitions
    · intro k hk
      refine (h.directional k).symm.trans ((lookup_detach b vm k).trans (if_pos hk))
  · rintro ⟨hvm,hu⟩
    refine ⟨fun v => (hattach v).trans ⟨fun h => h.elim (fun heq => heq ▸ hvm) id,.inr⟩,?_,?_,?_,fun k => ?_⟩
    · refine List.filter_eq_self.2 fun v hv => decide_eq_true ?_
      rintro rfl
      exact hu.isolated hv
    · exact List.filter_eq_self.2 fun k hk => decide_eq_true (hu.partitions k hk)
    · exact List.filter_eq_self.2 fun k hk => decide_eq_true (hu.directionalPartitions k hk)
    · refine (lookup_detach b vm k).trans ?_
      split_ifs with hk
      · exact (hu.directional k hk).symm
      · rfl

theorem Cabled.inner_fallback {c : Cabled} {vm : String} (hvm : ¬ c.Realized vm) (ok ok' : Bool) :
    ((c.apply (.disconnect vm ok)).apply (.reconnect vm ok')).site.bridge.inner =
      (c.site.bridge.inner.detach vm).apply (.attach vm) := by
  have hdetach : c.apply (.disconnect vm ok) = c.call (.record (.detach vm)) := if_neg hvm
  have hgone : ¬ (c.call (.record (.detach vm))).Realized vm := fun h => (Site.mem_detach.1 h).2 rfl
  have hinner : (c.call (.record (.detach vm))).site.bridge.inner = c.site.bridge.inner.detach vm := by
    change ((c.site.recorded (.detach vm)).dropTap vm).refreshPartitions.bridge.inner = _
    rw [Site.refreshPartitions_bridge]
    rfl
  rw [hdetach]
  refine (congrArg (fun c : Cabled => c.site.bridge.inner) (if_neg hgone)).trans ?_
  change ((c.call (.record (.detach vm))).site.bridge.inner).apply (.attach vm) = _
  rw [hinner]

/-- On the bridge are the TAPs of the VMs whose cable is not pulled, after any calls. A pulled TAP stays off it over
all calls but those that take the TAP away or plug it in, and to plug it in leaves everything as if it had not been
pulled. Without a TAP the records are restored exactly where nothing but its membership mentions the VM. -/
theorem cable_follows (name : String) (upstream : Option String) (vms : Set String) (calls : List CableCall)
    (hnames : DistinctTaps name vms) (hcalls : ∀ call ∈ calls, ∀ vm ∈ call.realizes, vm ∈ vms) (c : Cabled)
    (hc : c = (Cabled.new name upstream).run calls) (vm : String) :
    (c.Realized vm → c.plugged (tapNameForVmOnBridge vm name) =
      !(Cabled.new name upstream).pulledAlong (fun _ => false) calls vm) ∧
    (c.Realized vm → ∀ more : List CableCall, (∀ call ∈ more, ∀ vm ∈ call.realizes, vm ∈ vms) →
      (∀ call ∈ more, call.leaves vm) →
      ((c.apply (.disconnect vm true)).run more).plugged (tapNameForVmOnBridge vm name) = false ∧
      ((Cabled.new name upstream).pulledAlong (fun _ => false) calls vm = false →
        ((c.apply (.disconnect vm true)).run more).apply (.reconnect vm true) = c.run more)) ∧
    (¬ c.Realized vm → ∀ ok ok',
      (((c.apply (.disconnect vm ok)).apply (.reconnect vm ok')).site.bridge.inner.SameRecords c.site.bridge.inner ↔
        vm ∈ c.site.bridge.inner.attached ∧
          BridgeInner.Unmentioned vm { c.site.bridge.inner with attached := [] })) := by
  have hnew : Cabled.Follows vms (.new name upstream) fun _ => false :=
    ⟨⟨hnames,fun _ hv => (nomatch hv)⟩,fun _ hv => (nomatch hv),fun _ _ => rfl⟩
  have hfollows := hnew.run hcalls
  have htap : c.tap vm = tapNameForVmOnBridge vm name := hc ▸ Cabled.tap_run (.new name upstream) calls vm
  rw [← hc] at hfollows
  refine ⟨fun hvm => ?_,fun hvm more hmore hleaves => ?_,fun hvm ok ok' => ?_⟩
  · rw [← htap]
    exact hfollows.plugged vm hvm
  · obtain ⟨hoff,hon⟩ := Cabled.replugged hfollows hmore hvm hleaves
    rw [htap] at hoff
    refine ⟨hoff,fun hpulled => hon ?_⟩
    rw [hfollows.plugged vm hvm,hpulled]
    rfl
  · rw [Cabled.inner_fallback hvm ok ok']
    exact BridgeInner.sameRecords_iff _ vm

/-- A VM's cable is pulled, the VM is isolated, and the cable is plugged in again. -/
theorem cable_follows_isolated : ∃ c : Cabled, c = (Cabled.new "lan" none).run [.call (.realizeForVm "a")] ∧
    ((c.apply (.disconnect "a" true)).run [.call (.record (.isolate "a"))]).apply (.reconnect "a" true) =
      c.run [.call (.record (.isolate "a"))] := by
  have hne : tapNameForVmOnBridge "a" "lan" ≠ "lan" := by
    intro h
    have hhead := congrArg (fun s => s.toList.head?) h
    simp [tapNameForVmOnBridge] at hhead
  have hnames : DistinctTaps "lan" {"a"} := Site.distinctTaps_one "lan" "a" hne fun _ h => h
  have hcalls : ∀ call ∈ [CableCall.call (.realizeForVm "a")], ∀ vm ∈ call.realizes, vm ∈ ({"a"} : Set String) := by
    simp [CableCall.realizes]
  obtain ⟨host,heq,-⟩ := Site.realizeForVm_eq (.new none hnames) (Set.mem_singleton "a")
  have hrealized : ((Cabled.new "lan" none).run [.call (.realizeForVm "a")]).Realized "a" :=
    Site.mem_realizeForVm.2 (.inr ⟨rfl,congrArg Prod.snd heq⟩)
  have hpair := (cable_follows "lan" none {"a"} _ hnames hcalls _ rfl "a").2.1 hrealized
    [.call (.record (.isolate "a"))] (by simp [CableCall.realizes]) (by simp [CableCall.leaves])
  exact ⟨_,rfl,hpair.2 rfl⟩

end Provium.Lab
