import Provium.Lua.Lifetimes

/-! Where every step of a file tells, its spawn and shutdown events pair up. Each step is told by what it
does to the life of each VM: its state, whether it has started, and its events. -/
namespace Provium.Lua
open Lib Provium.Lab Provium.Host

structure Life where
  state : Option VmState
  started : Bool
  events : List VmEvent

/-- It has come up and is not shut down. -/
def lives (state : VmState) : Prop := state ≠ .created ∧ state ≠ .shutdown

namespace Life

/-- The events are those that the state calls for. -/
def Sound (l : Life) : Prop :=
  match l.state with
  | none | some .created => l.started = false ∧ l.events = []
  | some .shutdown => (l.started = false ∧ l.events = []) ∨ (l.started = true ∧ ∃ e e', l.events = [e,e'] ∧
      e.isSpawn = true ∧ e'.isSpawn = false ∧ e'.identity = e.identity)
  | some _ => l.started = true ∧ ∃ e, l.events = [e] ∧ e.isSpawn = true

theorem Sound.of_lives {l : Life} (h : l.Sound) {state : VmState} (hs : l.state = some state)
    (hl : lives state) : l.started = true ∧ ∃ e, l.events = [e] ∧ e.isSpawn = true := by
  unfold Sound at h
  rw [hs] at h
  cases state with
  | created => exact absurd rfl hl.1
  | shutdown => exact absurd rfl hl.2
  | booted => exact h
  | paused => exact h
  | dead => exact h

/-- What a step may do to a VM's life. A VM that boots does so under an identity that fits. -/
inductive Stroke (fits : String × String → Prop) : Life → Life → Prop where
  | stay (l : Life) : Stroke fits l l
  | born : Stroke fits ⟨none,false,[]⟩ ⟨some .created,false,[]⟩
  | restored (e : VmEvent) (h : e.isSpawn = true) : Stroke fits ⟨none,false,[]⟩ ⟨some .booted,true,[e]⟩
  | boot (b : Bool) (es : List VmEvent) (e : VmEvent) (h : e.isSpawn = true) (hfit : fits e.identity) :
    Stroke fits ⟨some .created,b,es⟩ ⟨some .booted,true,es++[e]⟩
  | turn (state state' : VmState) (b b' : Bool) (es : List VmEvent) (h : lives state) (h' : lives state')
      (hb : b = true → b' = true) : Stroke fits ⟨some state,b,es⟩ ⟨some state',b',es⟩
  | off (b : Bool) (es : List VmEvent) : Stroke fits ⟨some .created,b,es⟩ ⟨some .shutdown,b,es⟩
  | down (state : VmState) (b : Bool) (es : List VmEvent) (e : VmEvent) (h : lives state)
      (he : e.isSpawn = false) (hid : ∀ e' ∈ es, e.identity = e'.identity) :
    Stroke fits ⟨some state,b,es⟩ ⟨some .shutdown,b,es++[e]⟩

theorem Stroke.sound {fits : String × String → Prop} {l l' : Life} (h : Stroke fits l l') (hl : l.Sound) :
    l'.Sound := by
  cases h with
  | stay => exact hl
  | born => exact ⟨rfl,rfl⟩
  | restored e he => exact ⟨rfl,e,rfl,he⟩
  | boot b es e he hfit =>
    obtain ⟨-,hes⟩ : _ = false ∧ es = [] := hl
    rw [hes]
    exact ⟨rfl,e,rfl,he⟩
  | turn state state' b b' es h h' hb =>
    obtain ⟨hstarted,e,hes,he⟩ := hl.of_lives rfl h
    have hb' : b' = true := hb hstarted
    have hlive : b' = true ∧ ∃ e, es = [e] ∧ e.isSpawn = true := ⟨hb',e,hes,he⟩
    cases state' with
    | created => exact absurd rfl h'.1
    | shutdown => exact absurd rfl h'.2
    | booted => exact hlive
    | paused => exact hlive
    | dead => exact hlive
  | off b es => exact .inl hl
  | down state b es e h he hid =>
    obtain ⟨hstarted,e₀,hes,he₀⟩ := hl.of_lives rfl h
    have hes : es = [e₀] := hes
    subst hes
    exact .inr ⟨hstarted,e₀,e,rfl,he₀,he,hid e₀ (List.mem_singleton_self e₀)⟩

/-- The identities of the events after a step. -/
theorem Stroke.identity {fits : String × String → Prop} {l l' : Life} (h : Stroke fits l l') (hl : l.Sound)
    (hsome : l.state.isSome) {e : VmEvent} (he : e ∈ l'.events) :
    (∃ e₀ ∈ l.events, e.identity = e₀.identity) ∨ fits e.identity := by
  cases h with
  | stay => exact .inl ⟨e,he,rfl⟩
  | born => cases hsome
  | restored e' h' => cases hsome
  | boot b es e' h' hfit =>
    rcases List.mem_append.mp he with he | he
    · exact .inl ⟨e,he,rfl⟩
    · rw [List.mem_singleton.mp he]
      exact .inr hfit
  | turn state state' b b' es h h' hb => exact .inl ⟨e,he,rfl⟩
  | off b es => exact .inl ⟨e,he,rfl⟩
  | down state b es e' h h' hid =>
    obtain ⟨-,e₀,hes,-⟩ := hl.of_lives rfl h
    have hes : es = [e₀] := hes
    have hmem : e₀ ∈ es := by rw [hes]; exact List.mem_singleton_self e₀
    rcases List.mem_append.mp he with he | he
    · exact .inl ⟨e,he,rfl⟩
    · rw [List.mem_singleton.mp he]
      exact .inl ⟨e₀,hmem,hid e₀ hmem⟩

end Life

namespace FileEvents
variable {s s' : FileEvents}

def life (s : FileEvents) (v : ℕ) : Life := ⟨(s.vmAt v).map (·.state),decide (v ∈ s.started),s.eventsOf v⟩

/-- The identity is that of the userdata which made the VM. -/
def Fits (s : FileEvents) (v : ℕ) (identity : String × String) : Prop :=
  ∀ ud ∈ s.uds, ud.sink = true → ud.vm = v → ∀ vm, s.vmAt v = some vm → identity = (ud.labName,vm.name)

/-- The userdata with a sink tell the identity of their VM, and agree on it. -/
structure Sinks (s : FileEvents) : Prop where
  bound : ∀ ud ∈ s.uds, (s.vmAt ud.vm).isSome
  agree : ∀ ud ∈ s.uds, ∀ ud' ∈ s.uds, ud.sink = true → ud'.sink = true → ud.vm = ud'.vm →
    ud.labName = ud'.labName
  identity : ∀ v, ∀ e ∈ s.eventsOf v, s.Fits v e.identity

structure Inv (s : FileEvents) : Prop where
  sound : ∀ v, (s.life v).Sound
  sinks : s.Sinks
  settled : s.ended = true → ∀ v ∈ s.started, ∃ vm, s.vmAt v = some vm ∧ vm.state = .shutdown

theorem vmAt_setState (s : FileEvents) (v : ℕ) (state : VmState) (w : ℕ) :
    (s.setState v state).vmAt w =
      if w = v then (s.vmAt w).map fun vm => { vm with state } else s.vmAt w := by
  unfold setState vmAt FileRun.setState
  rw [List.getElem?_modify]
  split
  · next h => rw [if_pos h.symm]; rfl
  · next h => rw [if_neg (Ne.symm h)]; simp

theorem eventsOf_append (s : FileEvents) (es : List (ℕ × VmEvent)) (v : ℕ) :
    ({ s with log := s.log++es } : FileEvents).eventsOf v =
      s.eventsOf v++(es.filter fun e => e.1 = v).map Prod.snd := by
  simp only [eventsOf,List.filter_append,List.map_append]

theorem eventsOf_emit (s : FileEvents) (v : ℕ) (e : VmEvent) (w : ℕ) :
    (s.emit v e).eventsOf w = if w = v then s.eventsOf w++[e] else s.eventsOf w := by
  unfold emit
  rw [eventsOf_append]
  split
  · next h => simp [h]
  · next h => simp [Ne.symm h]

/-- What a step does to the lives of all VMs, which keep their names. -/
structure Strokes (s s' : FileEvents) : Prop where
  lives : ∀ v, Life.Stroke (s.Fits v) (s.life v) (s'.life v)
  names : ∀ v vm, s.vmAt v = some vm → ∃ vm', s'.vmAt v = some vm' ∧ vm'.name = vm.name

theorem Strokes.of_eq (hvm : ∀ v, s'.vmAt v = s.vmAt v) (hlog : s'.log = s.log)
    (hstarted : s'.started = s.started) : Strokes s s' := by
  constructor
  · intro v
    have heq : s'.life v = s.life v := by simp only [life,eventsOf,hvm,hlog,hstarted]
    rw [heq]
    exact .stay _
  · intro v vm h
    exact ⟨vm,(hvm v).trans h,rfl⟩

/-- A step that is about one VM. -/
theorem Strokes.of_one {v : ℕ} (hv : Life.Stroke (s.Fits v) (s.life v) (s'.life v))
    (hname : ∀ vm, s.vmAt v = some vm → ∃ vm', s'.vmAt v = some vm' ∧ vm'.name = vm.name)
    (hvm : ∀ w, w ≠ v → s'.vmAt w = s.vmAt w) (hstarted : ∀ w, w ≠ v → (w ∈ s'.started ↔ w ∈ s.started))
    (hevents : ∀ w, w ≠ v → s'.eventsOf w = s.eventsOf w) : Strokes s s' := by
  constructor
  · intro w
    by_cases hw : w = v
    · rw [hw]
      exact hv
    · have heq : s'.life w = s.life w := by
        unfold life
        rw [hvm w hw,hevents w hw,decide_eq_decide.mpr (hstarted w hw)]
      rw [heq]
      exact .stay _
  · intro w vm h
    by_cases hw : w = v
    · subst hw
      exact hname vm h
    · exact ⟨vm,(hvm w hw).trans h,rfl⟩

theorem life_of_vmAt {v : ℕ} {vm : FileVm} (h : s.vmAt v = some vm) :
    s.life v = ⟨some vm.state,decide (v ∈ s.started),s.eventsOf v⟩ := by
  unfold life
  rw [h]
  rfl

/-- Setting a VM's state and nothing else. -/
theorem strokes_setState {v : ℕ} {vm : FileVm} {state : VmState} (h : s.vmAt v = some vm)
    (hstroke : Life.Stroke (s.Fits v) ⟨some vm.state,decide (v ∈ s.started),s.eventsOf v⟩
      ⟨some state,decide (v ∈ s.started),s.eventsOf v⟩) : Strokes s (s.setState v state) := by
  have hafter : (s.setState v state).vmAt v = some { vm with state } := by
    rw [vmAt_setState,if_pos rfl,h]
    rfl
  refine .of_one (v := v) ?_ ?_ ?_ (fun w _ => Iff.rfl) (fun w _ => rfl)
  · rw [life_of_vmAt h,life_of_vmAt hafter]
    exact hstroke
  · intro vm' h'
    cases h.symm.trans h'
    exact ⟨_,hafter,rfl⟩
  · intro w hw
    rw [vmAt_setState,if_neg hw]

/-- Setting a VM's state and emitting an event of it. -/
theorem strokes_setState_emit {v : ℕ} {vm : FileVm} {state : VmState} {e : VmEvent} (h : s.vmAt v = some vm)
    (hstroke : Life.Stroke (s.Fits v) ⟨some vm.state,decide (v ∈ s.started),s.eventsOf v⟩
      ⟨some state,decide (v ∈ s.started),s.eventsOf v++[e]⟩) : Strokes s ((s.setState v state).emit v e) := by
  have hafter : ((s.setState v state).emit v e).vmAt v = some { vm with state } := by
    change (s.setState v state).vmAt v = _
    rw [vmAt_setState,if_pos rfl,h]
    rfl
  refine .of_one (v := v) ?_ ?_ ?_ (fun w _ => Iff.rfl) ?_
  · rw [life_of_vmAt h,life_of_vmAt hafter,eventsOf_emit,if_pos rfl]
    exact hstroke
  · intro vm' h'
    cases h.symm.trans h'
    exact ⟨_,hafter,rfl⟩
  · intro w hw
    change (s.setState v state).vmAt w = _
    rw [vmAt_setState,if_neg hw]
  · intro w hw
    rw [eventsOf_emit,if_neg hw]
    rfl

theorem lives_of {state : VmState} (h : state ≠ .created) (h' : state ≠ .shutdown) : lives state := ⟨h,h'⟩

theorem vmShutdown_live {state : VmState} (h : lives state) (stopped : Bool) :
    vmShutdown stopped state = if stopped then (.shutdown,true) else (state,false) := by
  cases state with
  | created => exact absurd rfl h.1
  | shutdown => exact absurd rfl h.2
  | booted => rfl
  | paused => rfl
  | dead => rfl

theorem strokes_boot (h : s.Inv) {ud : VmUd} {vm : FileVm} {cid : Option ℕ} (hud : ud ∈ s.uds)
    (hvm : s.vmAt ud.vm = some vm) (htell : vm.state = .created → cid.isSome → ud.sink = true) :
    Strokes s (s.bootVm ud vm cid) := by
  unfold bootVm
  split
  · next cid hstate =>
    have hsink := htell hstate rfl
    rw [emitBy,if_pos hsink]
    have hafter : (((s.setState ud.vm .booted).record ud.vm).emit ud.vm
        (.spawned ud.labName vm.name ud.profileName ud.memoryBytes cid)).vmAt ud.vm =
        some { vm with state := .booted } := by
      change (s.setState ud.vm .booted).vmAt ud.vm = _
      rw [vmAt_setState,if_pos rfl,hvm]
      rfl
    refine .of_one (v := ud.vm) ?_ ?_ ?_ ?_ ?_
    · rw [life_of_vmAt hvm,life_of_vmAt hafter,eventsOf_emit,if_pos rfl,hstate]
      have hin : decide (ud.vm ∈ insert ud.vm s.started) = true := by simp
      change Life.Stroke _ _ ⟨some .booted,decide (ud.vm ∈ insert ud.vm s.started),_⟩
      rw [hin]
      refine .boot _ _ _ rfl ?_
      -- the userdata of a VM that have a sink agree on its lab
      intro ud' hud' hsink' hsame vm' hvm'
      cases hvm.symm.trans hvm'
      rw [h.sinks.agree ud' hud' ud hud hsink' hsink hsame]
      rfl
    · intro vm' h'
      cases hvm.symm.trans h'
      exact ⟨_,hafter,rfl⟩
    · intro w hw
      change (s.setState ud.vm .booted).vmAt w = _
      rw [vmAt_setState,if_neg hw]
    · intro w hw
      change w ∈ insert ud.vm s.started ↔ _
      rw [Finset.mem_insert,or_iff_right hw]
    · intro w hw
      rw [eventsOf_emit,if_neg hw]
      rfl
  · exact .of_eq (fun v => rfl) rfl rfl

/-- The userdata that emits shuts its VM down under the identity of its spawn. -/
theorem strokes_shutdownWithEvent (h : s.Inv) {ud : VmUd} {vm : FileVm} (duration : ℕ) {stopped : Bool}
    (hud : ud ∈ s.uds) (hvm : s.vmAt ud.vm = some vm)
    (htell : if vm.state = .created ∨ vm.state = .shutdown then ud.sink = false
      else stopped = true → ud.sink = true) :
    Strokes s (s.shutdownWithEvent ud vm duration stopped) := by
  unfold shutdownWithEvent emitBy
  by_cases hdown : vm.state = .created ∨ vm.state = .shutdown
  · rw [if_pos hdown] at htell
    have hstate : (vmShutdown stopped vm.state).1 = .shutdown := by
      rcases hdown with h | h <;> rw [h] <;> rfl
    simp only [htell,Bool.false_eq_true,if_false,ite_self,hstate]
    refine strokes_setState hvm ?_
    rcases hdown with h | h <;> rw [h]
    · exact .off _ _
    · exact .stay _
  · rw [if_neg hdown] at htell
    have hlives : lives vm.state := lives_of (fun h => hdown (.inl h)) (fun h => hdown (.inr h))
    simp only [vmShutdown_live hlives stopped]
    cases stopped with
    | false => exact strokes_setState hvm (.stay _)
    | true =>
      have hsink := htell rfl
      simp only [hsink,if_true]
      refine strokes_setState_emit hvm (.down _ _ _ _ hlives rfl ?_)
      intro e he
      exact (h.sinks.identity ud.vm e he ud hud hsink rfl vm hvm).symm

theorem strokes_close (h : s.Inv) {ud : VmUd} {vm : FileVm} (duration : ℕ) {stopped : Bool}
    (hud : ud ∈ s.uds) (hvm : s.vmAt ud.vm = some vm)
    (htell : stopped = true → vm.state ≠ .dead ∧ (isRunning vm.state = true → ud.sink = true)) :
    Strokes s (s.closeVm ud vm duration stopped) := by
  unfold closeVm
  split
  · next hrunning =>
    have hnot : ¬(vm.state = .created ∨ vm.state = .shutdown) := by
      rintro (h | h) <;> rw [h] at hrunning <;> cases hrunning
    refine strokes_shutdownWithEvent h duration hud hvm ?_
    rw [if_neg hnot]
    exact fun hs => (htell hs).2 hrunning
  · next hrunning =>
    refine strokes_setState hvm ?_
    cases hstate : vm.state with
    | created => exact .off _ _
    | shutdown => exact .stay _
    | booted => rw [hstate] at hrunning; exact absurd rfl hrunning
    | paused => rw [hstate] at hrunning; exact absurd rfl hrunning
    | dead =>
      cases stopped with
      | true => exact absurd hstate (htell rfl).1
      | false => exact .stay _

/-- Nothing has happened yet to a VM that is still to come. -/
theorem Inv.unborn (h : s.Inv) {v : ℕ} (hv : s.vmAt v = none) : v ∉ s.started ∧ s.eventsOf v = [] := by
  have hsound := h.sound v
  unfold life at hsound
  rw [hv] at hsound
  obtain ⟨hstarted,hevents⟩ : decide (v ∈ s.started) = false ∧ s.eventsOf v = [] := hsound
  exact ⟨of_decide_eq_false hstarted,hevents⟩

theorem Inv.life_unborn (h : s.Inv) {v : ℕ} (hv : s.vmAt v = none) : s.life v = ⟨none,false,[]⟩ := by
  obtain ⟨hstarted,hevents⟩ := h.unborn hv
  unfold life
  rw [hv,hevents,decide_eq_false hstarted]
  rfl

theorem vmAt_length (s : FileEvents) : s.vmAt s.file.vms.length = none :=
  List.getElem?_eq_none (le_refl _)

/-- A file with one VM more. -/
theorem vmAt_push {vm : FileVm} (h : s'.file.vms = s.file.vms++[vm]) (w : ℕ) :
    s'.vmAt w = if w = s.file.vms.length then some vm else s.vmAt w := by
  unfold vmAt
  rw [h,List.getElem?_append]
  split
  · next hlt => rw [if_neg (by omega)]
  · next hge =>
    split
    · next heq => simp [heq]
    · next hne =>
      rw [List.getElem?_eq_none (show s.file.vms.length ≤ w by omega)]
      exact List.getElem?_eq_none (by simp; omega)

/-- A new VM, and nothing else. -/
theorem strokes_push {vm : FileVm} (h : s'.file.vms = s.file.vms++[vm])
    (hstroke : Life.Stroke (s.Fits s.file.vms.length) (s.life s.file.vms.length)
      (s'.life s.file.vms.length))
    (hstarted : ∀ w, w ≠ s.file.vms.length → (w ∈ s'.started ↔ w ∈ s.started))
    (hevents : ∀ w, w ≠ s.file.vms.length → s'.eventsOf w = s.eventsOf w) : Strokes s s' := by
  refine .of_one hstroke ?_ ?_ hstarted hevents
  · intro vm' h'
    rw [vmAt_length] at h'
    cases h'
  · intro w hw
    rw [vmAt_push h,if_neg hw]

/-- What `createVm` leaves: nothing new, or a VM in Created and the userdata that made it. -/
theorem createVm_cases {l : ℕ} {node : LabInner Unit} {name profile : String} {memory : ℕ}
    (h : s.createVm l node name profile memory = some s') :
    (s'.file.vms = s.file.vms ∧ s'.uds = s.uds ∨ s'.file.vms = s.file.vms++[⟨name,.created⟩] ∧
      s'.uds = s.uds++[⟨s.file.vms.length,true,node.name,profile,memory⟩]) ∧
    s'.log = s.log ∧ s'.started = s.started ∧ s'.ended = s.ended := by
  obtain ⟨⟨file,result⟩,hstep,rfl⟩ := Option.map_eq_some_iff.mp h
  obtain ⟨node',-,hcreate⟩ := Option.map_eq_some_iff.mp hstep
  cases hincl : s.file.labs.includeVm l node' name s.file.vms.length with
  | error e =>
    rw [hincl] at hcreate
    cases hcreate
    exact ⟨.inl ⟨rfl,rfl⟩,rfl,rfl,rfl⟩
  | ok labs =>
    rw [hincl] at hcreate
    cases hcreate
    exact ⟨.inr ⟨rfl,rfl⟩,rfl,rfl,rfl⟩

theorem strokes_create (h : s.Inv) {l : ℕ} {node : LabInner Unit} {name profile : String} {memory : ℕ}
    (hs : s.createVm l node name profile memory = some s') : Strokes s s' := by
  obtain ⟨hvms | hvms,hlog,hstarted,-⟩ := createVm_cases hs
  · refine .of_eq (fun v => ?_) hlog hstarted
    simp only [vmAt,hvms.1]
  · have hevents : ∀ w, s'.eventsOf w = s.eventsOf w := fun w => by simp only [eventsOf,hlog]
    refine strokes_push hvms.1 ?_ (fun w _ => by rw [hstarted]) (fun w _ => hevents w)
    obtain ⟨hnot,hnone⟩ := h.unborn s.vmAt_length
    have hafter : s'.life s.file.vms.length = ⟨some .created,false,[]⟩ := by
      rw [life_of_vmAt (by rw [vmAt_push hvms.1,if_pos rfl]),hevents,hstarted,hnone,decide_eq_false hnot]
    rw [h.life_unborn s.vmAt_length,hafter]
    exact .born

/-- A restored VM whose name is free is booted and spawned at once. -/
theorem strokes_restore (h : s.Inv) {l : ℕ} {node : LabInner Unit} {name profile : String}
    {memory cid : ℕ} (hl : s.file.labs[l]? = some node) (hfree : name ∉ node.vms)
    (hs : s.restoreVm l node name profile memory cid = some s') :
    Strokes s s' ∧ s'.uds = s.uds ∧ s'.ended = s.ended := by
  have hnew : (s.file.vms++[(⟨name,.booted⟩ : FileVm)])[s.file.vms.length]? = some ⟨name,.booted⟩ := by simp
  simp only [restoreVm,FileRun.step,Option.bind_some,hl,hnew,Labs.insertVm,if_neg hfree,Option.map_some,
    Option.some.injEq] at hs
  subst hs
  refine ⟨?_,rfl,rfl⟩
  refine @strokes_push s _ ⟨name,.booted⟩ rfl ?_ ?_ ?_
  · rw [h.life_unborn s.vmAt_length]
    rw [life_of_vmAt ((@vmAt_push s _ ⟨name,.booted⟩ rfl _).trans (if_pos rfl)),eventsOf_emit,if_pos rfl]
    have hin : decide (s.file.vms.length ∈ insert s.file.vms.length s.started) = true := by simp
    change Life.Stroke _ _ ⟨some .booted,decide (s.file.vms.length ∈ insert s.file.vms.length s.started),
      s.eventsOf s.file.vms.length++[_]⟩
    rw [hin,(h.unborn s.vmAt_length).2]
    exact .restored _ rfl
  · intro w hw
    change w ∈ insert s.file.vms.length s.started ↔ _
    rw [Finset.mem_insert,or_iff_right hw]
  · intro w hw
    rw [eventsOf_emit,if_neg hw]
    rfl

theorem vmShutdown_of {state : VmState} {stopped : Bool} (hdead : state ≠ .dead)
    (hrun : isRunning state = true → stopped = true) : (vmShutdown stopped state).1 = .shutdown := by
  cases state with
  | created => rfl
  | shutdown => rfl
  | dead => exact absurd rfl hdead
  | booted => rw [hrun rfl]; rfl
  | paused => rw [hrun rfl]; rfl

/-- The batch of a shutdown that succeeds leaves its VMs in Shutdown and the others alone. -/
theorem vmAt_shutdownAll (stops : ℕ → Bool) (vs : List ℕ) (s : FileEvents)
    (h : ∀ v ∈ vs, ∀ vm, s.vmAt v = some vm →
      vm.state ≠ .dead ∧ (isRunning vm.state = true → stops v = true)) (w : ℕ) :
    (s.shutdownAll stops vs).vmAt w =
      if w ∈ vs then (s.vmAt w).map fun vm => { vm with state := .shutdown } else s.vmAt w := by
  induction vs generalizing s with
  | nil => rfl
  | cons v vs ih =>
    unfold shutdownAll
    cases hv : s.vmAt v with
    | none =>
      simp only
      rw [ih s fun u hu => h u (List.mem_cons_of_mem _ hu)]
      by_cases hw : w = v
      · subst hw
        simp [hv]
      · simp [hw]
    | some vm =>
      obtain ⟨hdead,hrun⟩ := h v List.mem_cons_self vm hv
      simp only [vmShutdown_of hdead hrun]
      rw [ih]
      · rw [vmAt_setState]
        by_cases hw : w = v
        · subst hw
          simp [hv]
        · simp [hw]
      · intro u hu vm' hvm'
        rw [vmAt_setState] at hvm'
        split at hvm'
        · next huv =>
          rw [huv,hv] at hvm'
          cases hvm'
          exact ⟨by simp,fun h => by cases h⟩
        · exact h u (List.mem_cons_of_mem _ hu) vm' hvm'

theorem frame_shutdownAll (stops : ℕ → Bool) (vs : List ℕ) (s : FileEvents) :
    (s.shutdownAll stops vs).log = s.log ∧ (s.shutdownAll stops vs).started = s.started ∧
      (s.shutdownAll stops vs).uds = s.uds ∧ (s.shutdownAll stops vs).ended = s.ended := by
  induction vs generalizing s with
  | nil => exact ⟨rfl,rfl,rfl,rfl⟩
  | cons v vs ih =>
    unfold shutdownAll
    cases s.vmAt v with
    | none => exact ih s
    | some vm => exact ih (s.setState v (vmShutdown (stops v) vm.state).1)

/-- A list whose second components are distinct has one entry of each. -/
theorem filter_snd_of_nodup {members : List (String × ℕ)} (h : (members.map Prod.snd).Nodup)
    {m : String × ℕ} (hm : m ∈ members) : members.filter (fun x => x.2 = m.2) = [m] := by
  induction members with
  | nil => cases hm
  | cons a members ih =>
    obtain ⟨hnot,hrest⟩ := List.nodup_cons.mp h
    rcases List.mem_cons.mp hm with rfl | hm
    · rw [List.filter_cons_of_pos (by simp)]
      refine congrArg _ (List.filter_eq_nil_iff.mpr fun x hx heq => hnot ?_)
      rw [← of_decide_eq_true heq]
      exact List.mem_map_of_mem hx
    · have hne : a.2 ≠ m.2 := fun heq => hnot (heq ▸ List.mem_map_of_mem hm)
      rw [List.filter_cons_of_neg (by simpa using hne)]
      exact ih hrest hm

/-- A teardown emits one event of each member that runs, and none of the other VMs. -/
theorem teardownEvents_of {file : String} {members : List (String × ℕ)}
    (honce : ((members.filter fun m => (s.vmAt m.2).any fun vm => isRunning vm.state).map Prod.snd).Nodup)
    (v : ℕ) :
    (∃ n vm, (n,v) ∈ members ∧ s.vmAt v = some vm ∧ isRunning vm.state = true ∧
      ((s.teardownEvents file members).filter fun e => e.1 = v).map Prod.snd = [.shutdown file n 0]) ∨
    ((v ∉ members.map Prod.snd ∨ ∀ vm, s.vmAt v = some vm → isRunning vm.state = false) ∧
      ((s.teardownEvents file members).filter fun e => e.1 = v).map Prod.snd = []) := by
  have hfilter : ((s.teardownEvents file members).filter fun e => e.1 = v).map Prod.snd =
      ((members.filter fun m => (s.vmAt m.2).any fun vm => isRunning vm.state).filter
        fun m => m.2 = v).map fun m => .shutdown file m.1 0 := by
    rw [teardownEvents,List.filter_map,List.map_map]
    rfl
  rw [hfilter]
  by_cases hex : ∃ m ∈ members.filter fun m => (s.vmAt m.2).any fun vm => isRunning vm.state, m.2 = v
  · obtain ⟨m,hm,rfl⟩ := hex
    left
    obtain ⟨hmem,hrun⟩ := List.mem_filter.mp hm
    obtain ⟨vm,hvm,hrun⟩ := Option.any_eq_true _ _ |>.mp hrun
    refine ⟨m.1,vm,hmem,hvm,hrun,?_⟩
    rw [filter_snd_of_nodup honce hm]
    rfl
  · right
    have hnone : (members.filter fun m => (s.vmAt m.2).any fun vm => isRunning vm.state).filter
        (fun m => m.2 = v) = [] := by
      refine List.filter_eq_nil_iff.mpr fun m hm heq => hex ⟨m,hm,of_decide_eq_true heq⟩
    refine ⟨?_,by rw [hnone]; rfl⟩
    by_contra hnot
    obtain ⟨hin,hrun⟩ := not_or.mp hnot
    obtain ⟨m,hm,hmv⟩ := List.mem_map.mp (not_not.mp hin)
    push Not at hrun
    obtain ⟨vm,hvm,hrun⟩ := hrun
    refine hex ⟨m,List.mem_filter.mpr ⟨hm,?_⟩,hmv⟩
    rw [hmv,hvm]
    simpa using hrun

/-- A truthful teardown ends the lives of the members, each under the identity of its spawn. -/
theorem strokes_teardown (h : s.Inv) {l : ℕ} {file : String} {members : List (String × ℕ)}
    {stops : ℕ → Bool} (htrue : s.Truthful file members stops) :
    Strokes s (s.teardown l file members stops) ∧
      ∀ v ∈ members.map Prod.snd, ∀ vm, (s.teardown l file members stops).vmAt v = some vm →
        vm.state = .shutdown := by
  have hshut : ∀ v ∈ members.map Prod.snd, ∀ vm, s.vmAt v = some vm →
      vm.state ≠ .dead ∧ (isRunning vm.state = true → stops v = true) := by
    intro v hv vm hvm
    obtain ⟨m,hm,rfl⟩ := List.mem_map.mp hv
    exact ⟨htrue.alive m hm vm hvm,fun hrun => (htrue.identity m hm vm hvm hrun).2⟩
  have hvmAt : ∀ w, (s.teardown l file members stops).vmAt w = if w ∈ members.map Prod.snd then
      (s.vmAt w).map fun vm => { vm with state := .shutdown } else s.vmAt w := fun w =>
    vmAt_shutdownAll stops (members.map Prod.snd) { s with log := s.log++s.teardownEvents file members }
      hshut w
  obtain ⟨hlog,hstarted,-,-⟩ := frame_shutdownAll stops (members.map Prod.snd)
    { s with log := s.log++s.teardownEvents file members }
  have hevents : ∀ v, (s.teardown l file members stops).eventsOf v =
      s.eventsOf v++((s.teardownEvents file members).filter fun e => e.1 = v).map Prod.snd := by
    intro v
    rw [← eventsOf_append]
    exact congrArg (fun log => ((log.filter fun e : ℕ × VmEvent => e.1 = v).map Prod.snd)) hlog
  have hstarted' : (s.teardown l file members stops).started = s.started := hstarted
  refine ⟨⟨?_,?_⟩,?_⟩
  · intro v
    unfold life
    rw [hvmAt,hevents,hstarted']
    obtain ⟨n,vm,hm,hvm,hrun,hone⟩ | ⟨hrun,hnone⟩ := @teardownEvents_of s file members htrue.once v
    · have hin : v ∈ members.map Prod.snd := List.mem_map.mpr ⟨_,hm,rfl⟩
      rw [hone,if_pos hin,hvm]
      have hlives : lives vm.state := by
        constructor <;> intro hs <;> rw [hs] at hrun <;> cases hrun
      refine .down _ _ _ _ hlives rfl ?_
      -- a VM that lives has one event, which is the spawn that is told
      obtain ⟨e₀,he₀,hid⟩ := (htrue.identity (n,v) hm vm hvm hrun).1
      have hsound := (h.sound v).of_lives (by rw [life_of_vmAt hvm]) hlives
      obtain ⟨-,e₁,hes,-⟩ := hsound
      have hes : s.eventsOf v = [e₁] := hes
      intro e he
      rw [hes] at he he₀
      rw [List.mem_singleton.mp he,← List.mem_singleton.mp he₀,hid]
      rfl
    · rw [hnone,List.append_nil]
      split
      · next hin =>
        cases hvm : s.vmAt v with
        | none => exact .stay _
        | some vm =>
          obtain ⟨m,hm,rfl⟩ := List.mem_map.mp hin
          have hrun := hrun.resolve_left (fun hnot => hnot hin) vm hvm
          cases hstate : vm.state with
          | created => simpa [hstate] using Life.Stroke.off _ _
          | shutdown => simpa [hstate] using Life.Stroke.stay _
          | booted => rw [hstate] at hrun; cases hrun
          | paused => rw [hstate] at hrun; cases hrun
          | dead => exact absurd hstate (htrue.alive m hm vm hvm)
      · exact .stay _
  · intro v vm hvm
    rw [hvmAt,hvm]
    split
    · exact ⟨_,rfl,rfl⟩
    · exact ⟨_,rfl,rfl⟩
  · intro v hv vm hvm
    rw [hvmAt,if_pos hv] at hvm
    obtain ⟨vm',-,rfl⟩ := Option.map_eq_some_iff.mp hvm
    rfl

/-- A step that leaves the VMs and the events alone. -/
theorem strokes_frame {file : FileRun Unit} (h : file.vms = s.file.vms) : Strokes s { s with file } := by
  refine .of_eq (fun v => ?_) rfl rfl
  simp only [vmAt,h]

theorem vms_withLabs (file : FileRun Unit) (result : Except LabError (Labs Unit)) :
    (file.withLabs result).1.vms = file.vms := by
  cases result <;> rfl

/-- Where a VM's own move may lead, but from Created. -/
theorem lives_of_moves {state next : VmState} (h : state.moves next = true) (hnext : next ≠ .shutdown)
    (hstate : state ≠ .created) : lives state ∧ lives next := by
  have hcreated : next ≠ .created := by
    rintro rfl
    revert h
    cases state <;> decide
  have hdown : state ≠ .shutdown := by
    rintro rfl
    revert h hnext
    cases next <;> decide
  exact ⟨⟨hstate,hdown⟩,⟨hcreated,hnext⟩⟩

/-- Shutting down a VM that has not come up, or that is shut down already. -/
theorem strokes_spared {v : ℕ} {file : FileRun Unit} (hfile : file.vms = (s.file.setState v .shutdown).vms)
    (h : s.Spares v) : Strokes s { s with file } := by
  have hvmAt : ∀ w, ({ s with file } : FileEvents).vmAt w = (s.setState v .shutdown).vmAt w := by
    intro w
    unfold vmAt
    rw [hfile]
    rfl
  have hstrokes : Strokes s (s.setState v .shutdown) := by
    cases hvm : s.vmAt v with
    | none =>
      refine .of_eq (fun w => ?_) rfl rfl
      rw [vmAt_setState]
      split
      · next hw => rw [hw,hvm]; rfl
      · rfl
    | some vm =>
      refine strokes_setState hvm ?_
      obtain hs | hs := h vm hvm <;> rw [hs]
      · exact .off _ _
      · exact .stay _
  constructor
  · intro w
    have hlife : ({ s with file } : FileEvents).life w = (s.setState v .shutdown).life w := by
      unfold life
      rw [hvmAt]
      rfl
    rw [hlife]
    exact hstrokes.lives w
  · intro w vm hvm
    rw [hvmAt]
    exact hstrokes.names w vm hvm

/-- A VM's own move that neither starts nor ends it. -/
theorem strokes_turn (h : s.Inv) {v : ℕ} {vm : FileVm} {next : VmState} (hvm : s.vmAt v = some vm)
    (hl : lives vm.state) (hl' : lives next) :
    Strokes s (s.setState v next) ∧ Strokes s ((s.setState v next).record v) := by
  have hstarted : v ∈ s.started := by
    have hsound := (h.sound v).of_lives (by rw [life_of_vmAt hvm]) hl
    exact of_decide_eq_true hsound.1
  have hstroke := @strokes_setState s v vm next hvm (.turn _ _ _ _ _ hl hl' id)
  refine ⟨hstroke,?_⟩
  have hsame : (s.setState v next).record v = s.setState v next := by
    unfold record
    rw [show insert v (s.setState v next).started = (s.setState v next).started from
      Finset.insert_eq_of_mem hstarted]
  rw [hsame]
  exact hstroke

/-- The watchdogs change no VM but those that they shut down. -/
theorem strokes_watchdog {i : ℕ} {w : Watchdog} {step : WatchdogStep} {file : FileRun Unit}
    (hw : s.file.watchdogs[i]? = some w) (hstep : s.file.watch i w step = some file)
    (htell : s.Tells (.silent (.watchdog i step))) : Strokes s { s with file } := by
  cases step with
  | fire | standDown | visit | gathered | joined =>
    unfold FileRun.watch at hstep
    simp only at hstep
    split at hstep
    · cases hstep
      exact strokes_frame rfl
    · cases hstep
  | stop k =>
    unfold FileRun.watch at hstep
    simp only at hstep
    split at hstep
    · next running todo stopped hphase =>
      obtain ⟨v,hv,rfl⟩ := Option.map_eq_some_iff.mp hstep
      exact strokes_spared (v := v) rfl (htell w running todo stopped v hw hphase hv)
    · cases hstep

theorem strokes_silent (h : s.Inv) {a : FileAction} (hs : s.act (.silent a) = some s')
    (htell : s.Tells (.silent a)) : Strokes s s' ∧ s'.uds = s.uds ∧ s'.ended = s.ended := by
  unfold act at hs
  simp only at hs
  split at hs
  case isFalse => cases hs
  case isTrue hsilent =>
    obtain ⟨q,hstep,hq⟩ := Option.map_eq_some_iff.mp hs
    cases a with
    | createVm l name => cases hsilent
    | launchRestored name => cases hsilent
    | insertRestored l v => cases hsilent
    | includeVm l v =>
      obtain ⟨node,-,hstep⟩ := Option.bind_eq_some_iff.mp hstep
      obtain ⟨vm,-,rfl⟩ := Option.map_eq_some_iff.mp hstep
      subst hq
      exact ⟨strokes_frame (vms_withLabs _ _),rfl,rfl⟩
    | subLab l name =>
      obtain ⟨node,-,rfl⟩ := Option.map_eq_some_iff.mp hstep
      subst hq
      exact ⟨strokes_frame (vms_withLabs _ _),rfl,rfl⟩
    | includeSubLab l sub =>
      obtain ⟨node,-,hstep⟩ := Option.bind_eq_some_iff.mp hstep
      obtain ⟨below,-,rfl⟩ := Option.map_eq_some_iff.mp hstep
      subst hq
      exact ⟨strokes_frame (vms_withLabs _ _),rfl,rfl⟩
    | removeVm l name =>
      obtain ⟨node,-,rfl⟩ := Option.map_eq_some_iff.mp hstep
      subst hq
      exact ⟨strokes_frame rfl,rfl,rfl⟩
    | removeSubLab l name =>
      obtain ⟨node,-,rfl⟩ := Option.map_eq_some_iff.mp hstep
      subst hq
      exact ⟨strokes_frame rfl,rfl,rfl⟩
    | beginTest name deadline =>
      cases hstep
      subst hq
      exact ⟨strokes_frame rfl,rfl,rfl⟩
    | watchdog i step =>
      obtain ⟨w,hw,hstep⟩ := Option.bind_eq_some_iff.mp hstep
      obtain ⟨file,hwatch,rfl⟩ := Option.map_eq_some_iff.mp hstep
      subst hq
      exact ⟨strokes_watchdog hw hwatch htell,rfl,rfl⟩
    | vm v next =>
      obtain ⟨vm,hvm,hstep⟩ := Option.bind_eq_some_iff.mp hstep
      split at hstep
      case isFalse => cases hstep
      case isTrue hmoves =>
        cases hstep
        obtain ⟨hup,hdown⟩ := htell
        by_cases hnext : next = .shutdown
        · subst hnext
          subst hq
          exact ⟨strokes_spared rfl (hdown rfl),rfl,rfl⟩
        · have hstate : vm.state ≠ .created := by
            intro hc
            rw [hc] at hmoves
            cases next with
            | booted => exact hup rfl vm hvm hc
            | shutdown => exact hnext rfl
            | _ => cases hmoves
          obtain ⟨hl,hl'⟩ := lives_of_moves hmoves hnext hstate
          obtain ⟨hset,hrecord⟩ := strokes_turn h hvm hl hl'
          cases next with
          | booted => subst hq; exact ⟨hrecord,rfl,rfl⟩
          | created => exact absurd rfl hl'.1
          | shutdown => exact absurd rfl hnext
          | paused => subst hq; exact ⟨hset,rfl,rfl⟩
          | dead => subst hq; exact ⟨hset,rfl,rfl⟩

/-- What a step keeps of the invariant where no userdata is new. -/
theorem Strokes.inv (h : s.Inv) (hs : Strokes s s') (huds : s'.uds = s.uds)
    (hend : s'.ended = true → ∀ v ∈ s'.started, ∃ vm, s'.vmAt v = some vm ∧ vm.state = .shutdown) :
    s'.Inv := by
  refine ⟨fun v => (hs.lives v).sound (h.sound v),⟨?_,?_,?_⟩,hend⟩
  · intro ud hud
    obtain ⟨vm,hvm⟩ := Option.isSome_iff_exists.mp (h.sinks.bound ud (huds ▸ hud))
    obtain ⟨vm',hvm',-⟩ := hs.names ud.vm vm hvm
    exact Option.isSome_iff_exists.mpr ⟨vm',hvm'⟩
  · rw [huds]
    exact h.sinks.agree
  · intro v e he ud hud hsink hud' vm' hvm'
    rw [huds] at hud
    obtain ⟨vm,hvm⟩ := Option.isSome_iff_exists.mp (h.sinks.bound ud hud)
    rw [hud'] at hvm
    obtain ⟨vm'',hvm'',hname⟩ := hs.names v vm hvm
    cases hvm'.symm.trans hvm''
    rw [hname]
    have hsome : (s.life v).state.isSome := by rw [life_of_vmAt hvm]; rfl
    obtain ⟨e₀,he₀,hid⟩ | hfit := (hs.lives v).identity (h.sound v) hsome he
    · rw [hid]
      exact h.sinks.identity v e₀ he₀ ud hud hsink hud' vm hvm
    · exact hfit ud hud hsink hud' vm hvm

theorem inv_wrap (h : s.Inv) (hend : s.ended = false) {v : ℕ} {vm : FileVm} (hvm : s.vmAt v = some vm) :
    ({ s with uds := s.uds++[⟨v,false,"","",0⟩] } : FileEvents).Inv := by
  have hsilent : ∀ ud ∈ s.uds++[⟨v,false,"","",0⟩], ud.sink = true → ud ∈ s.uds := by
    intro ud hud hsink
    rcases List.mem_append.mp hud with hud | hud
    · exact hud
    · rw [List.mem_singleton.mp hud] at hsink
      cases hsink
  refine ⟨h.sound,⟨?_,?_,?_⟩,fun he => by rw [hend] at he; cases he⟩
  · intro ud hud
    rcases List.mem_append.mp hud with hud | hud
    · exact h.sinks.bound ud hud
    · rw [List.mem_singleton.mp hud]
      exact Option.isSome_iff_exists.mpr ⟨vm,hvm⟩
  · intro ud hud ud' hud' hsink hsink'
    exact h.sinks.agree ud (hsilent ud hud hsink) ud' (hsilent ud' hud' hsink') hsink hsink'
  · intro v' e he ud hud hsink
    exact h.sinks.identity v' e he ud (hsilent ud hud hsink) hsink

theorem inv_create (h : s.Inv) (hend : s.ended = false) {l : ℕ} {node : LabInner Unit}
    {name profile : String} {memory : ℕ} (hs : s.createVm l node name profile memory = some s') :
    s'.Inv := by
  have hstrokes := strokes_create h hs
  obtain ⟨hcases,hlog,-,hended⟩ := createVm_cases hs
  have hend' : s'.ended = true → ∀ v ∈ s'.started, ∃ vm, s'.vmAt v = some vm ∧ vm.state = .shutdown := by
    intro he
    rw [hended,hend] at he
    cases he
  obtain ⟨-,huds⟩ | ⟨hvms,huds⟩ := hcases
  · exact hstrokes.inv h huds hend'
  · -- the userdata is the first of a VM of which there are no events
    have hold : ∀ ud ∈ s.uds, ud.vm ≠ s.file.vms.length := by
      intro ud hud heq
      have hbound := h.sinks.bound ud hud
      rw [heq,vmAt_length] at hbound
      cases hbound
    have hevents : ∀ v, s'.eventsOf v = s.eventsOf v := fun v => by simp only [eventsOf,hlog]
    refine ⟨fun v => (hstrokes.lives v).sound (h.sound v),⟨?_,?_,?_⟩,hend'⟩
    · intro ud hud
      rw [huds] at hud
      rcases List.mem_append.mp hud with hud | hud
      · obtain ⟨vm,hvm⟩ := Option.isSome_iff_exists.mp (h.sinks.bound ud hud)
        obtain ⟨vm',hvm',-⟩ := hstrokes.names ud.vm vm hvm
        exact Option.isSome_iff_exists.mpr ⟨vm',hvm'⟩
      · rw [List.mem_singleton.mp hud,vmAt_push hvms,if_pos rfl]
        rfl
    · rw [huds]
      intro ud hud ud' hud' hsink hsink' heq
      rcases List.mem_append.mp hud with hud | hud <;> rcases List.mem_append.mp hud' with hud' | hud'
      · exact h.sinks.agree ud hud ud' hud' hsink hsink' heq
      · rw [List.mem_singleton.mp hud'] at heq
        exact absurd heq (hold ud hud)
      · rw [List.mem_singleton.mp hud] at heq
        exact absurd heq.symm (hold ud' hud')
      · rw [List.mem_singleton.mp hud,List.mem_singleton.mp hud']
    · intro v e he ud hud hsink hud' vm hvm
      rw [hevents] at he
      rw [huds] at hud
      rcases List.mem_append.mp hud with hud | hud
      · rw [vmAt_push hvms,if_neg (hud' ▸ hold ud hud)] at hvm
        exact h.sinks.identity v e he ud hud hsink hud' vm hvm
      · rw [List.mem_singleton.mp hud] at hud'
        rw [← hud',(h.unborn s.vmAt_length).2] at he
        cases he

theorem frame_emitBy (s : FileEvents) (ud : VmUd) (e : VmEvent) :
    (s.emitBy ud e).uds = s.uds ∧ (s.emitBy ud e).ended = s.ended := by
  unfold emitBy
  split <;> exact ⟨rfl,rfl⟩

theorem frame_bootVm (s : FileEvents) (ud : VmUd) (vm : FileVm) (cid : Option ℕ) :
    (s.bootVm ud vm cid).uds = s.uds ∧ (s.bootVm ud vm cid).ended = s.ended := by
  unfold bootVm
  split
  · exact frame_emitBy ((s.setState ud.vm .booted).record ud.vm) ud _
  · exact ⟨rfl,rfl⟩

theorem frame_shutdownWithEvent (s : FileEvents) (ud : VmUd) (vm : FileVm) (duration : ℕ)
    (stopped : Bool) : (s.shutdownWithEvent ud vm duration stopped).uds = s.uds ∧
      (s.shutdownWithEvent ud vm duration stopped).ended = s.ended := by
  unfold shutdownWithEvent
  simp only
  split
  · exact frame_emitBy (s.setState ud.vm _) ud _
  · exact ⟨rfl,rfl⟩

theorem frame_closeVm (s : FileEvents) (ud : VmUd) (vm : FileVm) (duration : ℕ) (stopped : Bool) :
    (s.closeVm ud vm duration stopped).uds = s.uds ∧
      (s.closeVm ud vm duration stopped).ended = s.ended := by
  unfold closeVm
  split
  · exact frame_shutdownWithEvent s ud vm duration stopped
  · exact ⟨rfl,rfl⟩

theorem inv_start (wall : Bool) : (start wall).Inv := by
  refine ⟨fun v => ⟨rfl,rfl⟩,⟨?_,?_,?_⟩,fun h => by cases h⟩
  · intro ud hud
    cases hud
  · intro ud hud
    cases hud
  · intro v e he
    cases he

/-- At the end of a file whose teardown is truthful and complete nothing that came up is left. -/
theorem settled_teardown (h : s.Inv) {l : ℕ} {file : String} {members : List (String × ℕ)}
    {stops : ℕ → Bool} (htrue : s.Truthful file members stops)
    (hall : ∀ v vm, s.vmAt v = some vm → vm.state = .created ∨ vm.state = .shutdown ∨
      v ∈ members.map Prod.snd) :
    ∀ v ∈ (s.teardown l file members stops).started, ∃ vm,
      (s.teardown l file members stops).vmAt v = some vm ∧ vm.state = .shutdown := by
  obtain ⟨hstrokes,hdown⟩ := strokes_teardown h (l := l) htrue
  have hsound : ∀ v, ((s.teardown l file members stops).life v).Sound := fun v =>
    (hstrokes.lives v).sound (h.sound v)
  intro v hv
  have hstarted : v ∈ s.started := by
    obtain ⟨-,hstarted,-,-⟩ := frame_shutdownAll stops (members.map Prod.snd)
      { s with log := s.log++s.teardownEvents file members }
    exact hstarted ▸ hv
  cases hvm : s.vmAt v with
  | none => exact absurd hstarted (h.unborn hvm).1
  | some vm =>
    obtain ⟨vm',hvm',-⟩ := hstrokes.names v vm hvm
    refine ⟨vm',hvm',?_⟩
    by_cases hin : v ∈ members.map Prod.snd
    · exact hdown v hin vm' hvm'
    · -- it is over already, since a VM that has not come up has not started
      have hstate : vm.state = .shutdown := by
        have hv := h.sound v
        rw [life_of_vmAt hvm,decide_eq_true hstarted] at hv
        rcases hall v vm hvm with hs | hs | hs
        · rw [hs] at hv
          cases hv.1
        · exact hs
        · exact absurd hs hin
      have hstroke := hstrokes.lives v
      rw [life_of_vmAt hvm,life_of_vmAt hvm',hstate] at hstroke
      generalize vm'.state = after at hstroke
      generalize (s.teardown l file members stops).eventsOf v = events at hstroke
      generalize decide (v ∈ (s.teardown l file members stops).started) = b at hstroke
      cases hstroke with
      | stay => rfl
      | turn _ _ _ _ _ hl => exact absurd rfl hl.2
      | down _ _ _ _ hl => exact absurd rfl hl.2

/-- What a step keeps that meets the condition. -/
theorem Inv.step {a : EventAction} (h : s.Inv) (htell : s.Tells a) {o : Unit}
    (hs : s.step a = some (s',o)) : s'.Inv := by
  unfold FileEvents.step at hs
  split at hs
  case isTrue => cases hs
  case isFalse hend =>
    have hend : s.ended = false := by simpa using hend
    have hgoes : ∀ {t : FileEvents}, t.ended = s.ended →
        t.ended = true → ∀ v ∈ t.started, ∃ vm, t.vmAt v = some vm ∧ vm.state = .shutdown := by
      intro t ht he
      rw [ht,hend] at he
      cases he
    obtain ⟨t,hact,hts⟩ := Option.map_eq_some_iff.mp hs
    cases hts
    cases a with
    | createVm l name profile memory =>
      obtain ⟨node,-,hact⟩ := Option.bind_eq_some_iff.mp hact
      exact inv_create h hend hact
    | wrap v =>
      obtain ⟨vm,hvm,rfl⟩ := Option.map_eq_some_iff.mp hact
      exact inv_wrap h hend hvm
    | boot u cid =>
      obtain ⟨ud,hud,hact⟩ := Option.bind_eq_some_iff.mp hact
      obtain ⟨vm,hvm,rfl⟩ := Option.map_eq_some_iff.mp hact
      have hstrokes := strokes_boot h (List.mem_of_getElem? hud) hvm (htell ud vm hud hvm)
      obtain ⟨huds,hended⟩ := frame_bootVm s ud vm cid
      exact hstrokes.inv h huds (hgoes hended)
    | shutdown u duration stopped =>
      obtain ⟨ud,hud,hact⟩ := Option.bind_eq_some_iff.mp hact
      obtain ⟨vm,hvm,rfl⟩ := Option.map_eq_some_iff.mp hact
      have hstrokes := strokes_shutdownWithEvent h duration (List.mem_of_getElem? hud) hvm (htell ud vm hud hvm)
      obtain ⟨huds,hended⟩ := frame_shutdownWithEvent s ud vm duration stopped
      exact hstrokes.inv h huds (hgoes hended)
    | close u duration stopped =>
      obtain ⟨ud,hud,hact⟩ := Option.bind_eq_some_iff.mp hact
      obtain ⟨vm,hvm,rfl⟩ := Option.map_eq_some_iff.mp hact
      have hstrokes := strokes_close h duration (List.mem_of_getElem? hud) hvm (htell ud vm hud hvm)
      obtain ⟨huds,hended⟩ := frame_closeVm s ud vm duration stopped
      exact hstrokes.inv h huds (hgoes hended)
    | restoreVm l name profile memory cid =>
      obtain ⟨node,hl,hact⟩ := Option.bind_eq_some_iff.mp hact
      obtain ⟨hstrokes,huds,hended⟩ := strokes_restore h hl (htell node hl) hact
      exact hstrokes.inv h huds (hgoes hended)
    | endScope l fuel stops =>
      obtain ⟨node,hl,hact⟩ := Option.bind_eq_some_iff.mp hact
      obtain ⟨members,hmembers,rfl⟩ := Option.map_eq_some_iff.mp hact
      obtain ⟨hstrokes,-⟩ := strokes_teardown h (l := l) (htell node members hl hmembers)
      obtain ⟨-,-,huds,hended⟩ := frame_shutdownAll stops (members.map Prod.snd)
        { s with log := s.log++s.teardownEvents node.name members }
      exact hstrokes.inv h huds (hgoes hended)
    | endFile path fuel stops =>
      obtain ⟨members,hmembers,rfl⟩ := Option.map_eq_some_iff.mp hact
      obtain ⟨htrue,hall⟩ := htell members hmembers
      obtain ⟨hstrokes,-⟩ := strokes_teardown h (l := 0) htrue
      obtain ⟨-,-,huds,-⟩ := frame_shutdownAll stops (members.map Prod.snd)
        { s with log := s.log++s.teardownEvents path members }
      have hended : Strokes s { s.teardown 0 path members stops with ended := true } :=
        ⟨hstrokes.lives,hstrokes.names⟩
      exact hended.inv h huds fun _ => settled_teardown h htrue hall
    | silent a =>
      obtain ⟨hstrokes,huds,hended⟩ := strokes_silent h hact htell
      exact hstrokes.inv h huds (hgoes hended)

/-- The counter is the sum over the VMs of what their events make of it. -/
theorem liveCounter_eq_sum {n : ℕ} (log : List (ℕ × VmEvent)) (h : ∀ e ∈ log, e.1 < n) :
    liveCounter log = ∑ v ∈ Finset.range n,
      (((log.filter fun e => e.1 = v).map Prod.snd).map VmEvent.weight).sum := by
  induction log with
  | nil => simp [liveCounter]
  | cons e log ih =>
    have hone : ∀ v, ((((e::log).filter fun e => e.1 = v).map Prod.snd).map VmEvent.weight).sum =
        (if e.1 = v then e.2.weight else 0)+
          (((log.filter fun e => e.1 = v).map Prod.snd).map VmEvent.weight).sum := by
      intro v
      by_cases hv : e.1 = v
      · rw [List.filter_cons_of_pos (by simpa using hv),if_pos hv]
        simp
      · rw [List.filter_cons_of_neg (by simpa using hv),if_neg hv,zero_add]
    have hrest := ih fun e' he' => h e' (List.mem_cons_of_mem _ he')
    have hin : e.1 ∈ Finset.range n := Finset.mem_range.mpr (h e List.mem_cons_self)
    simp only [hone,Finset.sum_add_distrib,Finset.sum_ite_eq,if_pos hin,← hrest]
    simp [liveCounter]

/-- There are events only of VMs that are there. -/
theorem Inv.bound (h : s.Inv) {e : ℕ × VmEvent} (he : e ∈ s.log) : e.1 < s.file.vms.length := by
  by_contra hge
  have hnone := (h.unborn (List.getElem?_eq_none (Nat.le_of_not_lt hge))).2
  have hin : e.2 ∈ s.eventsOf e.1 :=
    List.mem_map_of_mem (List.mem_filter.mpr ⟨he,decide_eq_true rfl⟩)
  rw [hnone] at hin
  cases hin

/-- The events of a VM that never started. -/
theorem Inv.silent (h : s.Inv) {v : ℕ} (hv : v ∉ s.started) : s.eventsOf v = [] := by
  have hsound := h.sound v
  unfold life Life.Sound at hsound
  rw [decide_eq_false hv] at hsound
  simp only [Bool.false_eq_true,true_and,false_and,or_false] at hsound
  split at hsound <;> first | exact hsound | exact hsound.elim

theorem Inv.live (h : s.Inv) {v : ℕ} (hv : v ∈ s.started) {vm : FileVm} (hvm : s.vmAt v = some vm)
    (hstate : vm.state ≠ .shutdown) : ∃ e, s.eventsOf v = [e] ∧ e.isSpawn = true := by
  have hsound := h.sound v
  rw [life_of_vmAt hvm,decide_eq_true hv] at hsound
  refine (hsound.of_lives rfl ⟨?_,hstate⟩).2
  intro hs
  rw [hs] at hsound
  cases hsound.1

theorem Inv.down (h : s.Inv) {v : ℕ} (hv : v ∈ s.started) {vm : FileVm} (hvm : s.vmAt v = some vm)
    (hstate : vm.state = .shutdown) : ∃ e e', s.eventsOf v = [e,e'] ∧ e.isSpawn = true ∧
      e'.isSpawn = false ∧ e'.identity = e.identity := by
  have hsound := h.sound v
  rw [life_of_vmAt hvm,decide_eq_true hv,hstate] at hsound
  obtain ⟨hnot,-⟩ | ⟨-,hpair⟩ : (_ ∧ _) ∨ _ := hsound
  · cases hnot
  · exact hpair

theorem weight_of_isSpawn {e : VmEvent} : e.weight = if e.isSpawn then 1 else -1 := by
  cases e <;> rfl

/-- At the end of the file nothing is left on the counter. -/
theorem Inv.counter (h : s.Inv) (hend : s.ended = true) : liveCounter s.log = 0 := by
  rw [liveCounter_eq_sum s.log fun e he => h.bound he]
  refine Finset.sum_eq_zero fun v _ => ?_
  change ((s.eventsOf v).map VmEvent.weight).sum = 0
  by_cases hv : v ∈ s.started
  · obtain ⟨vm,hvm,hstate⟩ := h.settled hend v hv
    obtain ⟨e,e',hes,he,he',-⟩ := h.down hv hvm hstate
    rw [hes]
    simp [weight_of_isSpawn,he,he']
  · rw [h.silent hv]
    rfl

theorem Inv.paired (h : s.Inv) : s.Paired where
  silent _ hv := h.silent hv
  live _ hv _ hvm hstate := h.live hv hvm hstate
  down _ hv _ hvm hstate := h.down hv hvm hstate
  ended hend := h.settled hend
  counter hend := h.counter hend

/-- In a run of a file all of whose steps tell, the events of every VM pair up. -/
theorem spawns_pair_up {wall : Bool} {as : List EventAction} {os : List Unit}
    (hok : eventMachine.Obeys FileEvents.Tells (start wall) as)
    (hrun : eventMachine.run (start wall) as = some (s,os)) : s.Paired := by
  have hinv : s.Inv := eventMachine.run_obeys (fun _ _ _ _ h htell hstep => h.step htell hstep)
    (inv_start wall) hok hrun
  exact hinv.paired

/-- A file that boots a VM, and in a test's scope another, restores a third, and ends them all. -/
def toldRun : List EventAction :=
  [.createVm 0 "a" "p" 64,.boot 0 (some 3),.silent (.beginTest "t" false),.createVm 1 "b" "p" 64,
    .boot 1 (some 4),.restoreVm 1 "r" "p" 64 5,.shutdown 1 10 true,.endScope 1 4 fun _ => true,
    .close 0 10 true,.endFile "tests/a.lua" 4 fun _ => true]

theorem obeys_toldRun : eventMachine.Obeys FileEvents.Tells (start true) toldRun := by
  refine Machine.Obeys.cons _ rfl trivial ?_
  refine Machine.Obeys.cons _ rfl ?_ ?_
  · intro ud vm hud hvm hstate hcid
    cases hud
    rfl
  refine Machine.Obeys.cons _ rfl trivial ?_
  refine Machine.Obeys.cons _ rfl trivial ?_
  refine Machine.Obeys.cons _ rfl ?_ ?_
  · intro ud vm hud hvm hstate hcid
    cases hud
    rfl
  refine Machine.Obeys.cons _ rfl ?_ ?_
  · intro node hnode
    cases hnode
    decide +kernel
  refine Machine.Obeys.cons _ rfl ?_ ?_
  · intro ud vm hud hvm
    cases hud
    cases hvm
    decide +kernel
  refine Machine.Obeys.cons _ rfl ?_ ?_
  · intro node members hnode hmembers
    cases hnode
    obtain rfl : [("r",2),("b",1)] = members := Option.some.inj hmembers
    refine ⟨by decide +kernel,?_,?_⟩
    · intro m hm vm hvm hrun
      rcases List.mem_pair.mp hm with rfl | rfl
      · exact ⟨⟨.spawned "test:t" "r" "p" 64 5,by decide +kernel,rfl⟩,rfl⟩
      · cases hvm
        cases hrun
    · intro m hm vm hvm
      rcases List.mem_pair.mp hm with rfl | rfl <;> cases hvm <;> decide +kernel
  refine Machine.Obeys.cons _ rfl ?_ ?_
  · intro ud vm hud hvm
    cases hud
    cases hvm
    decide +kernel
  refine Machine.Obeys.cons _ rfl ?_ trivial
  · intro members hmembers
    obtain rfl : [("a",0)] = members := Option.some.inj hmembers
    refine ⟨⟨by decide +kernel,?_,?_⟩,?_⟩
    · intro m hm vm hvm hrun
      obtain rfl := List.mem_singleton.mp hm
      cases hvm
      cases hrun
    · intro m hm vm hvm
      obtain rfl := List.mem_singleton.mp hm
      cases hvm
      decide +kernel
    · intro v vm hvm
      match v with
      | 0 => exact .inr (.inr (List.mem_singleton_self 0))
      | 1 => cases hvm; exact .inr (.inl rfl)
      | 2 => cases hvm; exact .inr (.inl rfl)
      | _+3 => cases hvm

theorem spawns_pair_up_told : ∃ s os, eventMachine.run (start true) toldRun = some (s,os) ∧ s.Paired ∧
    s.ended = true ∧ s.started = {0,1,2} :=
  ⟨_,_,rfl,spawns_pair_up obeys_toldRun rfl,rfl,by decide +kernel⟩

/-- `provium:vm("a","p")`, a `provium:boot()` that tells nothing, and the VM's close, which does. -/
theorem lab_boot_untold : ∃ s os, eventMachine.run (start true)
    [.createVm 0 "a" "p" 64,.silent (.vm 0 .booted),.close 0 10 true,.endFile "tests/a.lua" 4 fun _ => true] =
      some (s,os) ∧ s.log = [(0,.shutdown "provium" "a" 10)] ∧ liveCounter s.log = -1 ∧ ¬s.Paired := by
  refine ⟨_,_,rfl,by decide +kernel,by decide +kernel,?_⟩
  intro h
  obtain ⟨e,e',hes,-⟩ := h.down 0 (by decide +kernel) ⟨"a",.shutdown⟩ (by decide +kernel) rfl
  cases congrArg List.length hes

end FileEvents

end Provium.Lua
