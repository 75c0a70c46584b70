import Provium.Lab.Bridge

/-! The root qdisc of a bridge's interface on the host, and the three functions of `bridge.rs` that write
it. The TAPs have qdiscs of their own, which follow the directional impairments and are left out. -/
namespace Provium.Lab

inductive Qdisc where
  | netem (latencyMs dropRatePct : ℕ)
  | tbf (rate burst limit : ℕ)
  deriving DecidableEq, Repr

/-- Whether a qdisc can be changed into another. -/
def Qdisc.sameKind : Qdisc → Qdisc → Bool
  | .netem _ _,.netem _ _ => true
  | .tbf _ _ _,.tbf _ _ _ => true
  | _,_ => false

/-- An interface on the host: `none` where there is none, and its root qdisc where there is one. -/
abbrev Link := Option (Option Qdisc)

namespace Link

/-! The commands on a bridge's interface; `none` is that of a command that fails. -/

/-- `ip link add`, where `File exists` is no failure. -/
def linkAdd : Link → Link
  | none => some none
  | some root => some root

/-- `tc qdisc add` -/
def qdiscAdd (q : Qdisc) : Link → Option Link
  | some none => some (some (some q))
  | _ => none

/-- `tc qdisc del` -/
def qdiscDel : Link → Option Link
  | some (some _) => some (some none)
  | _ => none

/-- `tc qdisc change` -/
def qdiscChange (q : Qdisc) : Link → Option Link
  | some (some old) => if old.sameKind q then some (some (some q)) else none
  | _ => none

/-- `tc qdisc replace` -/
def qdiscReplace (q : Qdisc) : Link → Option Link
  | some _ => some (some (some q))
  | none => none

end Link

/-- A bridge with what it knows of the host and the host's interface itself. -/
structure HostBridge where
  inner : BridgeInner
  realized : Bool
  realizedTaps : List String
  realizedNetem : Option (ℕ × ℕ)
  link : Link

/-- The calls that may write the root qdisc. -/
inductive QdiscOp where
  | addLatency (ms : ℕ)
  | dropRate (pct : ℕ)
  | bandwidthLimit (bps : ℕ)
  | reset
  | realizeForVm (vm : String)
  | unrealize
  deriving DecidableEq, Repr

namespace BridgeInner

/-- The netem that the records ask for. -/
def targetNetem (b : BridgeInner) : Option (ℕ × ℕ) :=
  if 0 < b.latencyMs ∨ 0 < b.dropRatePct then some (b.latencyMs,b.dropRatePct) else none

end BridgeInner

def netemOf (target : ℕ × ℕ) : Qdisc := .netem target.1 target.2

/-- The plain tbf of a rate. -/
def tbfOf (bps : ℕ) : Qdisc := .tbf bps (max (bps/800) 1500) (max (bps/8) 1500)

namespace HostBridge

/-- `Bridge::new`, on a host that has no interface of its name. -/
def new : HostBridge := ⟨.new,false,[],none,none⟩

/-- A command whose failure is ignored. -/
def ignoring (s : HostBridge) (command : Link → Option Link) : HostBridge :=
  { s with link := (command s.link).getD s.link }

/-- `refresh_netem`. Its callers drop its result. -/
def refreshNetem (s : HostBridge) : HostBridge :=
  if !s.realized then s
  else match s.realizedNetem,s.inner.targetNetem with
    | none,none => s
    | some _,none => { s.ignoring Link.qdiscDel with realizedNetem := none }
    | _,some target => (s.ignoring Link.qdiscDel).ignoring (Link.qdiscAdd (netemOf target))

/-- `refresh_bandwidth` -/
def refreshBandwidth (s : HostBridge) : HostBridge :=
  if !s.realized then s
  else if s.inner.bandwidthBps = 0 then
    let s := s.ignoring Link.qdiscDel
    if s.inner.targetNetem.isSome then s.refreshNetem else s
  else if s.inner.targetNetem.isSome then s
  else s.ignoring (Link.qdiscReplace (tbfOf s.inner.bandwidthBps))

/-- The step of `realize_for_vm` that brings the netem up to date. -/
def netemCommand (current target : Option (ℕ × ℕ)) (link : Link) : Option Link :=
  if current = target then some link
  else match current,target with
    | some _,some t => Link.qdiscChange (netemOf t) link
    | none,some t => Link.qdiscAdd (netemOf t) link
    | some _,none => some ((Link.qdiscDel link).getD link)
    | none,none => some link

/-- `realize_for_vm`, and whether it succeeds. -/
def realizeForVm (s : HostBridge) (vm : String) : HostBridge × Bool :=
  let s := if s.realized then s else { s with link := s.link.linkAdd }
  match netemCommand s.realizedNetem s.inner.targetNetem s.link with
  | none => (s,false)
  | some link =>
    ({ s with
      link := link, realized := true, realizedNetem := s.inner.targetNetem
      realizedTaps := s.realizedTaps.insert vm },true)

/-- The loop of `refresh_directional`, which the first failure ends. -/
def realizeAll (s : HostBridge) : List String → HostBridge
  | [] => s
  | vm::vms => match s.realizeForVm vm with
    | (s,true) => s.realizeAll vms
    | (s,false) => s

/-- `refresh_directional` -/
def refreshDirectional (s : HostBridge) : HostBridge :=
  if s.realized then s.realizeAll s.realizedTaps else s

/-- `Bridge::reset` -/
def reset (s : HostBridge) : HostBridge :=
  ({ s with inner := s.inner.reset } : HostBridge).refreshNetem.refreshBandwidth.refreshDirectional

/-- `unrealize` -/
def unrealize (s : HostBridge) : HostBridge :=
  { s with
    realizedTaps := [], realized := false, realizedNetem := none
    link := if s.realized then none else s.link }

/-- A call, and whether it succeeds. -/
def apply (s : HostBridge) : QdiscOp → HostBridge × Bool
  | .addLatency ms => (({ s with inner := s.inner.apply (.addLatency ms) } : HostBridge).refreshNetem,true)
  | .dropRate pct => (({ s with inner := s.inner.apply (.dropRate pct) } : HostBridge).refreshNetem,true)
  | .bandwidthLimit bps =>
    (({ s with inner := s.inner.apply (.bandwidthLimit bps) } : HostBridge).refreshBandwidth,true)
  | .reset => (s.reset,true)
  | .realizeForVm vm => s.realizeForVm vm
  | .unrealize => (s.unrealize,true)

end HostBridge

/-- The root qdisc that the records call for. -/
def BridgeInner.rootQdisc (b : BridgeInner) : Option Qdisc :=
  match b.targetNetem with
  | some target => some (netemOf target)
  | none => if b.bandwidthBps = 0 then none else some (tbfOf b.bandwidthBps)

namespace HostBridge

/-- A realised bridge has the root qdisc that its records call for. -/
def Follows (s : HostBridge) : Prop := s.realized = true → s.link = some s.inner.rootQdisc

/-- No call of the run fails, and after each the root qdisc follows the records. -/
def FollowsAlong (s : HostBridge) : List QdiscOp → Prop
  | [] => True
  | op::ops => (s.apply op).2 = true ∧ (s.apply op).1.Follows ∧ (s.apply op).1.FollowsAlong ops

/-- Setting the records' netem to `target` does not leave the qdisc behind: a netem that goes was installed
by `realize_for_vm`, and no rate is recorded that would have to come in its place. -/
def MayAim (s : HostBridge) (target : Option (ℕ × ℕ)) : Prop :=
  s.realized = true → target = none → s.inner.targetNetem.isSome →
    s.realizedNetem.isSome ∧ s.inner.bandwidthBps = 0

/-- Where the bridge is realised already, its netem, if any, was installed by `realize_for_vm`; where it is
not, there is a netem to install or no rate that would have to be installed. -/
def MayRealize (s : HostBridge) : Prop :=
  if s.realized then s.inner.targetNetem.isSome → s.realizedNetem.isSome
  else s.inner.targetNetem.isSome ∨ s.inner.bandwidthBps = 0

/-- The calls after which the qdisc still follows. -/
def May (s : HostBridge) : QdiscOp → Prop
  | .addLatency ms => s.MayAim (s.inner.apply (.addLatency ms)).targetNetem
  | .dropRate pct => s.MayAim (s.inner.apply (.dropRate pct)).targetNetem
  | .realizeForVm _ => s.MayRealize
  | _ => True

def MayAlong (s : HostBridge) : List QdiscOp → Prop
  | [] => True
  | op::ops => s.May op ∧ (s.apply op).1.MayAlong ops

/-- What holds of a bridge whose qdisc has followed so far. -/
structure Sound (s : HostBridge) : Prop where
  follows : s.Follows
  absent : s.realized = false → s.link = none ∧ s.realizedNetem = none
  known : s.realizedNetem.isSome → s.inner.targetNetem.isSome

theorem Sound.new : Sound .new :=
  ⟨fun h => (by cases h),fun _ => ⟨rfl,rfl⟩,fun h => (by cases h)⟩

end HostBridge

namespace BridgeInner

theorem rootQdisc_some {b : BridgeInner} {target : ℕ × ℕ} (h : b.targetNetem = some target) :
    b.rootQdisc = some (netemOf target) := by
  unfold rootQdisc
  rw [h]

theorem rootQdisc_none {b : BridgeInner} (h : b.targetNetem = none) :
    b.rootQdisc = if b.bandwidthBps = 0 then none else some (tbfOf b.bandwidthBps) := by
  unfold rootQdisc
  rw [h]

end BridgeInner

namespace HostBridge
variable {s : HostBridge}

/-- Once the root has been deleted there is none, whether there was one or not. -/
theorem ignoring_del {root : Option Qdisc} (h : s.link = some root) :
    s.ignoring Link.qdiscDel = { s with link := some none } := by
  unfold ignoring
  rw [h]
  cases root <;> rfl

theorem refreshNetem_unrealized (h : s.realized = false) : s.refreshNetem = s := by
  unfold refreshNetem
  rw [h]
  rfl

theorem refreshBandwidth_unrealized (h : s.realized = false) : s.refreshBandwidth = s := by
  unfold refreshBandwidth
  rw [h]
  rfl

theorem refreshNetem_install {root : Option Qdisc} {target : ℕ × ℕ} (hr : s.realized = true)
    (hl : s.link = some root) (ht : s.inner.targetNetem = some target) :
    s.refreshNetem = { s with link := some (some (netemOf target)) } := by
  unfold refreshNetem
  rw [if_neg (by simp [hr]),ht,ignoring_del hl]
  cases s.realizedNetem <;> simp [ignoring,Link.qdiscAdd]

theorem refreshNetem_clear {root : Option Qdisc} (hr : s.realized = true) (hl : s.link = some root)
    (ht : s.inner.targetNetem = none) (hn : s.realizedNetem.isSome) :
    s.refreshNetem = { s with link := some none, realizedNetem := none } := by
  obtain ⟨current,hn⟩ := Option.isSome_iff_exists.mp hn
  unfold refreshNetem
  rw [if_neg (by simp [hr]),ht,hn,ignoring_del hl]

theorem refreshNetem_idle (ht : s.inner.targetNetem = none) (hn : s.realizedNetem = none) :
    s.refreshNetem = s := by
  unfold refreshNetem
  rw [ht,hn]
  cases s.realized <;> rfl

/-- Refreshing the bandwidth of a bridge whose netem, if its records ask for one, is there leaves the root
that the records call for. -/
theorem refreshBandwidth_follows {root : Option Qdisc} (hr : s.realized = true) (hl : s.link = some root)
    (hroot : ∀ target, s.inner.targetNetem = some target → root = some (netemOf target)) :
    s.refreshBandwidth = { s with link := some s.inner.rootQdisc } := by
  unfold refreshBandwidth
  rw [if_neg (by simp [hr])]
  by_cases hb : s.inner.bandwidthBps = 0
  · rw [if_pos hb,ignoring_del hl]
    cases ht : s.inner.targetNetem with
    | none =>
      rw [BridgeInner.rootQdisc_none ht,if_pos hb]
      exact if_neg (by simp [ht])
    | some target =>
      rw [BridgeInner.rootQdisc_some ht]
      exact (if_pos (by simp [ht])).trans (refreshNetem_install (s := { s with link := some none }) hr rfl ht)
  · rw [if_neg hb]
    cases ht : s.inner.targetNetem with
    | none =>
      rw [BridgeInner.rootQdisc_none ht,if_neg hb]
      simp [ignoring,hl,Link.qdiscReplace]
    | some target =>
      rw [BridgeInner.rootQdisc_some ht,← hroot target ht,← hl]
      simp

/-- New records that keep the rate: the netem's refresh follows them exactly if they may be aimed at. -/
theorem aim {i : BridgeInner} (h : s.Sound) (hb : i.bandwidthBps = s.inner.bandwidthBps) :
    (s.MayAim i.targetNetem → ({ s with inner := i } : HostBridge).refreshNetem.Sound) ∧
      (({ s with inner := i } : HostBridge).refreshNetem.Follows → s.MayAim i.targetNetem) := by
  rcases Bool.eq_false_or_eq_true s.realized with hr | hr
  case inr =>
    rw [refreshNetem_unrealized (s := { s with inner := i }) hr]
    refine ⟨fun _ => ⟨?_,h.absent,?_⟩,fun _ hr' => ?_⟩
    · exact fun hr' => absurd (hr.symm.trans hr') (by simp)
    · rw [(h.absent hr).2]
      exact fun h => by cases h
    · exact absurd (hr.symm.trans hr') (by simp)
  case inl =>
    have hl := h.follows hr
    rcases ht : i.targetNetem with _ | target
    case some =>
      rw [refreshNetem_install (s := { s with inner := i }) hr hl ht]
      refine ⟨fun _ => ⟨fun _ => ?_,?_,fun _ => ?_⟩,fun _ _ hn => by cases hn⟩
      · rw [BridgeInner.rootQdisc_some ht]
      · exact fun hr' => absurd (hr.symm.trans hr') (by simp)
      · change i.targetNetem.isSome
        rw [ht]
        rfl
    case none =>
      rcases Option.eq_none_or_eq_some s.realizedNetem with hn | ⟨current,hn⟩
      case inr =>
        rw [refreshNetem_clear (s := { s with inner := i }) hr hl ht (by rw [hn]; rfl)]
        have hold : s.inner.targetNetem.isSome := h.known (by rw [hn]; rfl)
        refine ⟨fun hmay => ⟨fun _ => ?_,?_,fun hk => by cases hk⟩,fun hf _ _ _ => ⟨by rw [hn]; rfl,?_⟩⟩
        · have hzero := (hmay hr rfl hold).2
          rw [BridgeInner.rootQdisc_none ht,hb,if_pos hzero]
        · exact fun hr' => absurd (hr.symm.trans hr') (by simp)
        · -- the qdisc is gone, so no rate may call for one
          have hgone := hf hr
          rw [BridgeInner.rootQdisc_none ht,hb] at hgone
          by_contra hzero
          rw [if_neg hzero] at hgone
          cases hgone
      case inl =>
        rw [refreshNetem_idle (s := { s with inner := i }) ht hn]
        have hroot : i.rootQdisc = if s.inner.bandwidthBps = 0 then none
            else some (tbfOf s.inner.bandwidthBps) := by rw [BridgeInner.rootQdisc_none ht,hb]
        refine ⟨fun hmay => ⟨fun _ => ?_,?_,?_⟩,fun hf _ _ hold => ?_⟩
        · have hnone : s.inner.targetNetem = none := by
            by_contra hsome
            have := (hmay hr rfl (Option.isSome_iff_ne_none.mpr hsome)).1
            rw [hn] at this
            cases this
          change s.link = some i.rootQdisc
          rw [hl,hroot,BridgeInner.rootQdisc_none hnone]
        · exact fun hr' => absurd (hr.symm.trans hr') (by simp)
        · change s.realizedNetem.isSome → _
          rw [hn]
          exact fun h => by cases h
        · -- a netem that a refresh installed stays where it is
          obtain ⟨target,hold⟩ := Option.isSome_iff_exists.mp hold
          have hstays : s.link = some i.rootQdisc := hf hr
          rw [hl,hroot,BridgeInner.rootQdisc_some hold] at hstays
          split at hstays <;> cases hstays

theorem bandwidthLimit_sound (h : s.Sound) (bps : ℕ) : (s.apply (.bandwidthLimit bps)).1.Sound := by
  change HostBridge.Sound (refreshBandwidth { s with inner := s.inner.apply (.bandwidthLimit bps) })
  rcases Bool.eq_false_or_eq_true s.realized with hr | hr
  case inr =>
    rw [refreshBandwidth_unrealized (s := { s with inner := s.inner.apply (.bandwidthLimit bps) }) hr]
    exact ⟨fun hr' => absurd (hr.symm.trans hr') (by simp),h.absent,h.known⟩
  case inl =>
    rw [refreshBandwidth_follows (s := { s with inner := s.inner.apply (.bandwidthLimit bps) }) hr
      (h.follows hr) fun target ht => BridgeInner.rootQdisc_some ht]
    exact ⟨fun _ => rfl,fun hr' => absurd (hr.symm.trans hr') (by simp),h.known⟩

/-- With nothing recorded and no netem known, realising a bridge's TAPs again does nothing to its root. -/
theorem realizeAll_idle (vms : List String) (s : HostBridge) (hr : s.realized = true)
    (ht : s.inner.targetNetem = none) (hn : s.realizedNetem = none) :
    ∃ taps, s.realizeAll vms = { s with realizedTaps := taps } := by
  induction vms generalizing s with
  | nil => exact ⟨s.realizedTaps,rfl⟩
  | cons vm vms ih =>
    have hone : s.realizeForVm vm = ({ s with realizedTaps := s.realizedTaps.insert vm },true) := by
      simp [realizeForVm,hr,ht,hn,netemCommand]
    obtain ⟨taps,htaps⟩ := ih { s with realizedTaps := s.realizedTaps.insert vm } hr ht hn
    refine ⟨taps,?_⟩
    unfold realizeAll
    rw [hone]
    exact htaps

theorem reset_sound (h : s.Sound) : (s.apply .reset).1.Sound := by
  change s.reset.Sound
  unfold reset
  have ht : s.inner.reset.targetNetem = none := rfl
  rcases Bool.eq_false_or_eq_true s.realized with hr | hr
  case inr =>
    rw [refreshNetem_unrealized (s := { s with inner := s.inner.reset }) hr,
      refreshBandwidth_unrealized (s := { s with inner := s.inner.reset }) hr]
    have hnothing : ({ s with inner := s.inner.reset } : HostBridge).refreshDirectional =
        { s with inner := s.inner.reset } := by simp [refreshDirectional,hr]
    rw [hnothing]
    refine ⟨fun hr' => absurd (hr.symm.trans hr') (by simp),h.absent,?_⟩
    change s.realizedNetem.isSome → _
    rw [(h.absent hr).2]
    exact fun h => by cases h
  case inl =>
    have hl := h.follows hr
    -- whatever the netem's refresh leaves, the bandwidth's deletes
    have hcleared : ∃ root, ({ s with inner := s.inner.reset } : HostBridge).refreshNetem =
        { s with inner := s.inner.reset, link := some root, realizedNetem := none } := by
      rcases Option.eq_none_or_eq_some s.realizedNetem with hn | ⟨current,hn⟩
      case inr =>
        exact ⟨none,refreshNetem_clear (s := { s with inner := s.inner.reset }) hr hl ht (by rw [hn]; rfl)⟩
      case inl =>
        refine ⟨s.inner.rootQdisc,?_⟩
        rw [refreshNetem_idle (s := { s with inner := s.inner.reset }) ht hn,← hl,← hn]
    obtain ⟨root,hroot⟩ := hcleared
    rw [hroot,@refreshBandwidth_follows { s with inner := s.inner.reset, link := some root, realizedNetem := none }
      root hr rfl
      (fun target h => by rw [ht] at h; cases h)]
    unfold refreshDirectional
    rw [if_pos hr]
    obtain ⟨taps,htaps⟩ := realizeAll_idle s.realizedTaps { s with
      inner := s.inner.reset, link := some s.inner.reset.rootQdisc, realizedNetem := none } hr ht rfl
    rw [htaps]
    exact ⟨fun _ => rfl,fun hr' => absurd (hr.symm.trans hr') (by simp),fun h => by cases h⟩


theorem unrealize_sound (h : s.Sound) : s.unrealize.Sound := by
  refine ⟨fun h => (by cases h),fun _ => ⟨?_,rfl⟩,fun h => (by cases h)⟩
  rcases Bool.eq_false_or_eq_true s.realized with hr | hr
  · simp [unrealize,hr]
  · simpa [unrealize,hr] using (h.absent hr).1

/-- The interface that `realize_for_vm` finds or makes. -/
def linkFor (s : HostBridge) : Link := if s.realized then s.link else s.link.linkAdd

theorem realizeForVm_eq {link : Link} (vm : String)
    (hc : netemCommand s.realizedNetem s.inner.targetNetem s.linkFor = some link) :
    s.realizeForVm vm = ({ s with
      link := link, realized := true, realizedNetem := s.inner.targetNetem
      realizedTaps := s.realizedTaps.insert vm },true) := by
  unfold realizeForVm
  rcases Bool.eq_false_or_eq_true s.realized with hr | hr <;> simp [linkFor,hr] at hc <;> simp [hr,hc]

theorem realizeForVm_fails (vm : String)
    (hc : netemCommand s.realizedNetem s.inner.targetNetem s.linkFor = none) :
    (s.realizeForVm vm).2 = false := by
  unfold realizeForVm
  rcases Bool.eq_false_or_eq_true s.realized with hr | hr <;> simp [linkFor,hr] at hc <;> simp [hr,hc]

/-- What the netem's step makes of a sound bridge's interface, if it may be made. -/
theorem netemCommand_of_may (h : s.Sound) (hmay : s.MayRealize) :
    netemCommand s.realizedNetem s.inner.targetNetem s.linkFor = some (some s.inner.rootQdisc) := by
  unfold MayRealize at hmay
  unfold linkFor
  rcases Bool.eq_false_or_eq_true s.realized with hr | hr
  case inr =>
    obtain ⟨hl,hn⟩ := h.absent hr
    rw [if_neg (by simp [hr])] at hmay ⊢
    rw [hl,hn]
    cases ht : s.inner.targetNetem with
    | none =>
      have hzero : s.inner.bandwidthBps = 0 := by simpa [ht] using hmay
      rw [BridgeInner.rootQdisc_none ht,if_pos hzero]
      rfl
    | some target =>
      rw [BridgeInner.rootQdisc_some ht]
      rfl
  case inl =>
    rw [if_pos hr] at hmay ⊢
    rw [h.follows hr]
    cases ht : s.inner.targetNetem with
    | none =>
      have hn : s.realizedNetem = none := by
        by_contra hsome
        have := h.known (Option.isSome_iff_ne_none.mpr hsome)
        rw [ht] at this
        cases this
      rw [hn]
      exact if_pos rfl
    | some target =>
      obtain ⟨current,hn⟩ := Option.isSome_iff_exists.mp (hmay (by rw [ht]; rfl))
      rw [hn,BridgeInner.rootQdisc_some ht]
      unfold netemCommand
      split
      · rfl
      · rfl

theorem realizeForVm_sound (h : s.Sound) (hmay : s.MayRealize) (vm : String) :
    (s.realizeForVm vm).2 = true ∧ (s.realizeForVm vm).1.Sound := by
  rw [realizeForVm_eq vm (netemCommand_of_may h hmay)]
  exact ⟨rfl,fun _ => rfl,fun h => (by cases h),id⟩

theorem mayRealize_of_follows (h : s.Sound) (vm : String) (hok : (s.realizeForVm vm).2 = true)
    (hf : (s.realizeForVm vm).1.Follows) : s.MayRealize := by
  unfold MayRealize
  rcases Bool.eq_false_or_eq_true s.realized with hr | hr
  case inr =>
    obtain ⟨hl,hn⟩ := h.absent hr
    rw [if_neg (by simp [hr])]
    by_contra hnot
    obtain ⟨ht,hb⟩ := not_or.mp hnot
    have ht := Option.not_isSome_iff_eq_none.mp ht
    have hcommand : netemCommand s.realizedNetem s.inner.targetNetem s.linkFor = some (some none) := by
      rw [hn,ht,linkFor,if_neg (by simp [hr]),hl]
      rfl
    rw [realizeForVm_eq vm hcommand] at hf
    -- the interface is new, and nothing installs the rate
    have hlink : some none = some s.inner.rootQdisc := hf rfl
    rw [BridgeInner.rootQdisc_none ht,if_neg hb] at hlink
    cases hlink
  case inl =>
    rw [if_pos hr]
    intro ht
    obtain ⟨target,ht⟩ := Option.isSome_iff_exists.mp ht
    by_contra hn
    have hn := Option.not_isSome_iff_eq_none.mp hn
    have hl := h.follows hr
    rw [BridgeInner.rootQdisc_some ht] at hl
    -- the netem is there, and is added once more
    have hcommand : netemCommand s.realizedNetem s.inner.targetNetem s.linkFor = none := by
      rw [hn,ht,linkFor,if_pos hr,hl]
      rfl
    rw [realizeForVm_fails vm hcommand] at hok
    cases hok

theorem apply_sound (h : s.Sound) (op : QdiscOp) (hmay : s.May op) :
    (s.apply op).2 = true ∧ (s.apply op).1.Sound := by
  cases op with
  | addLatency ms => exact ⟨rfl,(aim (i := s.inner.apply (.addLatency ms)) h rfl).1 hmay⟩
  | dropRate pct => exact ⟨rfl,(aim (i := s.inner.apply (.dropRate pct)) h rfl).1 hmay⟩
  | bandwidthLimit bps => exact ⟨rfl,bandwidthLimit_sound h bps⟩
  | reset => exact ⟨rfl,reset_sound h⟩
  | realizeForVm vm => exact realizeForVm_sound h hmay vm
  | unrealize => exact ⟨rfl,unrealize_sound h⟩

theorem may_of_follows (h : s.Sound) (op : QdiscOp) (hok : (s.apply op).2 = true)
    (hf : (s.apply op).1.Follows) : s.May op := by
  cases op with
  | addLatency ms => exact (aim (i := s.inner.apply (.addLatency ms)) h rfl).2 hf
  | dropRate pct => exact (aim (i := s.inner.apply (.dropRate pct)) h rfl).2 hf
  | bandwidthLimit bps => trivial
  | reset => trivial
  | realizeForVm vm => exact mayRealize_of_follows h vm hok hf
  | unrealize => trivial

theorem followsAlong_iff (h : s.Sound) (ops : List QdiscOp) : s.FollowsAlong ops ↔ s.MayAlong ops := by
  induction ops generalizing s with
  | nil => exact Iff.rfl
  | cons op ops ih =>
    constructor
    · intro ⟨hok,hf,hrest⟩
      have hmay := may_of_follows h op hok hf
      exact ⟨hmay,(ih (apply_sound h op hmay).2).mp hrest⟩
    · intro ⟨hmay,hrest⟩
      obtain ⟨hok,hsound⟩ := apply_sound h op hmay
      exact ⟨hok,hsound.follows,(ih hsound).mpr hrest⟩

/-- The calls after which a new bridge's root qdisc follows its records, and none fails, are those of which
each one may be made where it is made. -/
theorem root_qdisc_follows_iff (ops : List QdiscOp) :
    HostBridge.new.FollowsAlong ops ↔ HostBridge.new.MayAlong ops := followsAlong_iff .new ops

/-- A latency that is added while the bridge is realised makes the next VM's boot fail. -/
theorem second_realize_fails : ¬∀ ops, HostBridge.new.FollowsAlong ops := by
  intro h
  obtain ⟨-,-,-,-,hok,-⟩ := h [.realizeForVm "a",.addLatency 50,.realizeForVm "b"]
  exact absurd hok (by decide)

end HostBridge

end Provium.Lab
