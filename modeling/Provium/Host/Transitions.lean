import Provium.Host.Lifecycle

/-! What the operations of a VM can do to its state. A Booted or Paused VM keeps its instance as
long as no shutdown of it fails in the backend: `shutdown` takes the instance out first, and on an
error returns with the state as it was. -/
namespace Provium.Host
open Lib

/-- The states in which operations reach for the running resources. -/
def VmState.Live (st : VmState) : Prop := st = .booted ∨ st = .paused

theorem VmState.not_live_created : ¬VmState.created.Live := by simp [VmState.Live]

theorem VmState.not_live_dead : ¬VmState.dead.Live := by simp [VmState.Live]

theorem VmState.not_live_shutdown : ¬VmState.shutdown.Live := by simp [VmState.Live]

namespace VmInner
variable {I C H : Type} {loss : Prop} {v v' : VmInner I C H}

/-- A live VM has its instance. -/
def Whole (v : VmInner I C H) : Prop := v.state.Live → v.vmInstance ≠ none

/-- Everything that a critical section can do to a VM. Under `loss` a live VM may lose its
instance. -/
inductive Change (loss : Prop) (v : VmInner I C H) : VmInner I C H → Prop where
  | stay : Change loss v v
  | die (h : v.state.Live) : Change loss v { v with state := .dead }
  | turn (st : VmState) (h : v.state.Live) (h' : st.Live) : Change loss v { v with state := st }
  | up (r : Launched I C) (reservation : Option H) (h : v.state = .created) :
    Change loss v ⟨.booted,some r.resources,reservation⟩
  | off (v' : VmInner I C H) (h : v'.state = .shutdown) : Change loss v v'
  | lose (h : v.state = .dead ∨ v.state.Live ∧ loss) : Change loss v v.takeInstance

/-- No section leaves Shutdown. -/
theorem Change.of_shutdown (h : Change loss v v') (hv : v.state = .shutdown) :
    v'.state = .shutdown := by
  cases h with
  | stay => exact hv
  | die h => exact absurd (hv ▸ h) VmState.not_live_shutdown
  | turn st h h' => exact absurd (hv ▸ h) VmState.not_live_shutdown
  | up r reservation h =>
    rw [hv] at h
    cases h
  | off v' h => exact h
  | lose h => exact hv

/-- A section leaves Dead for Shutdown only. -/
theorem Change.of_dead (h : Change loss v v') (hv : v.state = .dead) :
    v'.state = .dead ∨ v'.state = .shutdown := by
  cases h with
  | stay => exact .inl hv
  | die h => exact .inl rfl
  | turn st h h' => exact absurd (hv ▸ h) VmState.not_live_dead
  | up r reservation h =>
    rw [hv] at h
    cases h
  | off v' h => exact .inr h
  | lose h => exact .inl hv

/-- A VM in Created has no running resources. -/
def Bare (v : VmInner I C H) : Prop := v.state = .created → v.running = none

theorem Change.bare (h : Change loss v v') (hv : v.Bare) : v'.Bare := by
  intro hc
  cases h with
  | stay => exact hv hc
  | die h => cases hc
  | turn st h h' =>
    have hst : st = .created := hc
    exact absurd (hst ▸ h') VmState.not_live_created
  | up r reservation h => cases hc
  | off v' h =>
    rw [h] at hc
    cases hc
  | lose h =>
    have hcreated : v.state = .created := hc
    rw [hcreated] at h
    rcases h with h | ⟨h,-⟩
    · cases h
    · exact absurd h VmState.not_live_created

/-- A section that loses no instance leaves a live VM with one. -/
theorem Change.whole (h : Change loss v v') (hloss : ¬(v.state.Live ∧ loss)) (hv : v.Whole) :
    v'.Whole := by
  intro hl
  cases h with
  | stay => exact hv hl
  | die h => exact absurd hl VmState.not_live_dead
  | turn st h h' => exact hv h
  | up r reservation h => simp [vmInstance,Launched.resources]
  | off v' h => exact absurd (h ▸ hl) VmState.not_live_shutdown
  | lose h =>
    have hlive : v.state.Live := hl
    rcases h with h | h
    · exact absurd (h ▸ hlive) VmState.not_live_dead
    · exact absurd h hloss

/-- What a section does, and that it panics on a VM without its instance only. -/
structure Section (loss : Prop) (v : VmInner I C H) (q : VmInner I C H × Ended) : Prop where
  change : Change loss v q.1
  calm : q.2 = .panic → ¬v.Whole

theorem section_stay {e : Ended} (h : e = .panic → ¬v.Whole) : Section loss v (v,e) := ⟨.stay,h⟩

theorem section_done {result : Except VmError Unit} (h : Change loss v v') :
    Section loss v (v',.done result) := ⟨h,fun hp => (by cases hp)⟩

theorem section_goOn {pc : Pc} : Section loss v (v,.goOn pc) := ⟨.stay,fun hp => (by cases hp)⟩

/-- A live VM without its instance is not whole. -/
theorem not_whole (hl : v.state.Live) (hnone : v.vmInstance = none) : ¬v.Whole :=
  fun hw => hw hl hnone

theorem section_afterBackend (answer : Except VmmError Unit) :
    Section loss v (v,afterBackend answer) := by
  cases answer with
  | ok u => exact section_done .stay
  | error e =>
    simp only [afterBackend]
    split
    · exact section_goOn
    · exact section_done .stay

theorem section_backendOp (name action : String) {legal : List VmState}
    (hlegal : ∀ st ∈ legal, st.Live) (missing : Ended) (answer : Except VmmError Unit) :
    Section loss v (v.backendOp name action legal missing answer) := by
  unfold backendOp
  split
  · next hmem =>
    split
    · next hnone => exact section_stay fun _ => not_whole (hlegal _ hmem) hnone
    · exact section_afterBackend answer
  · exact section_done .stay

theorem live_of_mem_booted : ∀ st ∈ [VmState.booted], st.Live := by simp [VmState.Live]

theorem live_of_mem : ∀ st ∈ [VmState.booted,VmState.paused], st.Live := by simp [VmState.Live]

theorem section_snapshot (name : String) (openFiles : ℕ) (streamDetails : List String)
    (answer : Except VmmError Unit) :
    Section loss v (v.snapshot name openFiles streamDetails answer) := by
  unfold snapshot
  split
  · exact section_backendOp name _ live_of_mem _ answer
  · exact section_done .stay

theorem section_attachDiskLive (image : Bool) (answer : Except VmmError Unit) :
    Section loss v (v.attachDiskLive image answer) := by
  unfold attachDiskLive
  split
  · split
    · exact section_done .stay
    · exact section_afterBackend answer
  · exact section_done .stay

theorem section_reset (name : String) (answer : Except VmmError Unit) :
    Section loss v (v.reset name answer) := by
  unfold reset
  split
  · split
    · exact section_done .stay
    · exact section_goOn
    · exact section_afterBackend _
  · exact section_done .stay

theorem section_probe (name : String) (answered expired : Bool) :
    Section loss v (v.probe name answered expired) := by
  unfold probe
  split
  · exact section_goOn
  · split
    · exact section_goOn
    · split
      · exact section_goOn
      · exact section_goOn

/-- The error arm that `pause`, `resume` and `power_button` share. -/
theorem section_dead_on_error (hl : v.state.Live) (e : VmmError) :
    Section loss v (if isQmpDeadSignal e then { v with state := .dead } else v,
      .done (.error (.vmm e))) := by
  apply section_done
  split
  · exact .die hl
  · exact .stay

theorem section_pause (name : String) (answer : Except VmmError Unit) :
    Section loss v (v.pause name answer) := by
  unfold pause
  split
  · next hb =>
    have hl : v.state.Live := .inl hb
    split
    · next hnone => exact section_stay fun _ => not_whole hl hnone
    · exact section_done (.turn .paused hl (.inr rfl))
    · exact section_dead_on_error hl _
  · exact section_done .stay

theorem section_resume (name : String) (answer : Except VmmError Unit) :
    Section loss v (v.resume name answer) := by
  unfold resume
  split
  · next hp =>
    have hl : v.state.Live := .inr hp
    split
    · next hnone => exact section_stay fun _ => not_whole hl hnone
    · exact section_done (.turn .booted hl (.inl rfl))
    · exact section_dead_on_error hl _
  · exact section_done .stay

theorem section_powerButton (name : String) (answer : Except VmmError Unit) :
    Section loss v (v.powerButton name answer) := by
  unfold powerButton
  split
  · next hb =>
    split
    · exact section_done .stay
    · exact section_done (.off _ rfl)
    · exact section_dead_on_error (.inl hb) _
  · exact section_done .stay

theorem section_shutdown {answer : Except VmmError Unit} (hloss : ∀ e, answer = .error e → loss) :
    Section loss v (v.shutdown answer) := by
  unfold shutdown
  split
  · exact section_done .stay
  · exact section_done (.off _ rfl)
  · next hne hne' =>
    split
    · exact section_done (.off _ rfl)
    · exact section_done (.off _ rfl)
    · next e _ =>
      apply section_done
      apply Change.lose
      cases hv : v.state with
      | created => exact absurd hv hne'
      | booted => exact .inr ⟨.inl rfl,hloss e rfl⟩
      | paused => exact .inr ⟨.inr rfl,hloss e rfl⟩
      | dead => exact .inl rfl
      | shutdown => exact absurd hv hne

theorem section_drop : Section loss v v.drop := by
  unfold drop
  split
  · exact section_done (.off _ rfl)
  · exact section_done .stay

theorem section_withClient (name action : String) (answer : Except VmError Unit) :
    Section loss v (v.withClient name action answer) := by
  unfold withClient
  split
  · next hb =>
    split
    · next hnone => exact section_stay fun _ => not_whole (.inl hb) (by simp [vmInstance,hnone])
    · next _ e _ =>
      cases isDeadSignal e with
      | true => exact section_goOn
      | false => exact section_done .stay
    · exact section_done .stay
  · exact section_done .stay

theorem section_checkCreated (name action : String) (pc : Pc) :
    Section loss v (v.checkCreated name action pc) := by
  unfold checkCreated
  split
  · exact section_goOn
  · exact section_done .stay

theorem section_boot (name : String) (r : Launched I C) (reservation : Option H) :
    Section loss v (v.boot name r reservation) := by
  unfold boot
  split
  · next hc => exact section_done (.up r reservation hc)
  · exact section_done .stay

theorem section_restore (name : String) (r : Launched I C) :
    Section loss v (v.restore name r) := by
  unfold restore
  split
  · next hc => exact section_done (.up r v.bootReservation hc)
  · exact section_done .stay

theorem section_markDead (e : VmmError) : Section loss v (v.markDead e) := by
  apply section_done
  split
  · next hmem => exact .die (live_of_mem _ hmem)
  · exact .stay

theorem section_markAgentDead (e : ClientError) : Section loss v (v.markAgentDead e) := by
  apply section_done
  split
  · next hb => exact .die (.inl hb)
  · exact .stay

theorem Whole.resources (hv : v.Whole) (hl : v.state.Live) :
    ∃ r i, v.running = some r ∧ r.vmInstance = some i := by
  obtain ⟨i,hi⟩ := Option.ne_none_iff_exists'.mp (hv hl)
  obtain ⟨r,hr,hri⟩ := Option.bind_eq_some_iff.mp hi
  exact ⟨r,i,hr,hri⟩

end VmInner

variable {I C H : Type} {name : String}

/-- A shutdown that the backend fails. -/
def Action.failsShutdown : Action I C H → Bool
  | .call (.shutdown (.error _)) => true
  | _ => false

theorem section_start (name : String) (op : Op) (v : VmInner I C H) :
    VmInner.Section ((Action.call op : Action I C H).failsShutdown = true) v (op.start name v) := by
  cases op with
  | boot => exact VmInner.section_checkCreated _ _ _
  | restore => exact VmInner.section_checkCreated _ _ _
  | pause answer => exact VmInner.section_pause _ _
  | resume answer => exact VmInner.section_resume _ _
  | shutdown answer =>
    apply VmInner.section_shutdown
    rintro e rfl
    rfl
  | powerButton answer => exact VmInner.section_powerButton _ _
  | reset answer => exact VmInner.section_reset _ _
  | snapshot openFiles streamDetails answer => exact VmInner.section_snapshot _ _ _ _
  | wakeup answer => exact VmInner.section_backendOp _ _ VmInner.live_of_mem_booted _ _
  | isSuspended answer => exact VmInner.section_backendOp _ _ VmInner.live_of_mem_booted _ _
  | setLink answer => exact VmInner.section_backendOp _ _ VmInner.live_of_mem _ _
  | attachDiskLive image answer => exact VmInner.section_attachDiskLive _ _
  | detachDisk answer => exact VmInner.section_backendOp _ _ VmInner.live_of_mem _ _
  | powerCutDisk answer => exact VmInner.section_backendOp _ _ VmInner.live_of_mem _ _
  | setDiskPolicy answer => exact VmInner.section_backendOp _ _ VmInner.live_of_mem _ _
  | diskPolicy answer => exact VmInner.section_backendOp _ _ VmInner.live_of_mem _ _
  | withClient action answer => exact VmInner.section_withClient _ _ _
  | drop => exact VmInner.section_drop

theorem section_proceed {pc : Pc} {event : Event I C H} {v : VmInner I C H}
    {q : VmInner I C H × Ended} (loss : Prop) (h : pc.resume name v event = some q) :
    VmInner.Section loss v q := by
  unfold Pc.resume at h
  split at h
  · cases h
    exact VmInner.section_boot _ _ _
  · cases h
    exact VmInner.section_done .stay
  · cases h
    exact VmInner.section_restore _ _
  · cases h
    exact VmInner.section_done .stay
  · cases h
    exact VmInner.section_markDead _
  · cases h
    exact VmInner.section_markAgentDead _
  · cases h
    exact VmInner.section_probe _ _ _
  · cases h
    exact VmInner.section_done .stay
  · cases h

namespace Vm

theorem settle_spec (put : Option Pc → List (Option Pc)) (poisoned : Bool)
    (q : VmInner I C H × Ended) :
    (settle put poisoned q).1.inner = q.1 ∧
    ((settle put poisoned q).2 = .panicked ∨ (settle put poisoned q).1.poisoned = true →
      poisoned = true ∨ q.2 = .panic) := by
  unfold settle
  split
  · exact ⟨rfl,fun h => .inl (h.resolve_left fun hc => (by cases hc))⟩
  · next hp => exact ⟨rfl,fun _ => .inr hp⟩
  · exact ⟨rfl,fun h => .inl (h.resolve_left fun hc => (by cases hc))⟩

/-- What one step does: a section's change, and a panic only where the mutex was poisoned or the
VM had lost its instance. -/
theorem step_spec {s s' : Vm I C H} {a : Action I C H} {o : Obs}
    (h : s.step name a = some (s',o)) :
    VmInner.Change (a.failsShutdown = true) s.inner s'.inner ∧
    (o = .panicked ∨ s'.poisoned = true → s.poisoned = true ∨ ¬s.inner.Whole) := by
  cases a with
  | call op =>
    simp only [step] at h
    split at h
    · next hp =>
      cases h
      exact ⟨.stay,fun _ => .inl (by simp_all)⟩
    · have hq := section_start name op s.inner
      have hs := settle_spec (fun t : Option Pc => t.elim s.threads fun pc => s.threads++[some pc])
        s.poisoned (op.start name s.inner)
      rw [Option.some.inj h] at hs
      refine ⟨?_,fun hp => (hs.2 hp).imp_right hq.calm⟩
      rw [hs.1]
      exact hq.change
  | proceed i event =>
    simp only [step,Option.bind_eq_some_iff,Option.map_eq_some_iff] at h
    obtain ⟨pc,-,q,hq,h⟩ := h
    have hq := section_proceed ((Action.proceed i event).failsShutdown = true) hq
    split at h
    · cases h
      exact ⟨.stay,fun _ => .inl (by simp_all)⟩
    · have hs := settle_spec (s.threads.set i) s.poisoned q
      rw [h] at hs
      refine ⟨?_,fun hp => (hs.2 hp).imp_right hq.calm⟩
      rw [hs.1]
      exact hq.change

/-- The step is no failed shutdown of a live VM. -/
def Keeps (s : Vm I C H) (a : Action I C H) : Prop :=
  ¬((s.inner.state = .booted ∨ s.inner.state = .paused) ∧ a.failsShutdown = true)

instance (s : Vm I C H) (a : Action I C H) : Decidable (Keeps s a) :=
  inferInstanceAs (Decidable (¬_))

/-- What holds as long as no live VM's shutdown fails. -/
structure Sound (s : Vm I C H) : Prop where
  whole : s.inner.Whole
  calm : s.poisoned = false

theorem Sound.step {s s' : Vm I C H} {a : Action I C H} {o : Obs} (hs : Sound s) (hk : Keeps s a)
    (h : s.step name a = some (s',o)) : Sound s' := by
  obtain ⟨hchange,hpanic⟩ := step_spec h
  refine ⟨hchange.whole hk hs.whole,?_⟩
  by_contra hp
  rcases hpanic (.inr (by simpa using hp)) with hp | hw
  · rw [hs.calm] at hp
    cases hp
  · exact hw hs.whole

theorem Sound.not_panicked {s s' : Vm I C H} {a : Action I C H} (hs : Sound s) :
    s.step name a ≠ some (s',.panicked) := by
  intro h
  rcases (step_spec h).2 (.inl rfl) with hp | hw
  · rw [hs.calm] at hp
    cases hp
  · exact hw hs.whole

/-- A failed shutdown of a live VM loses the instance and leaves the state as it is. -/
theorem Sound.lost {s s' : Vm I C H} {a : Action I C H} {o : Obs} (hs : Sound s)
    (hk : ¬Keeps s a) (h : s.step name a = some (s',o)) :
    s'.inner.state.Live ∧ s'.inner.vmInstance = none := by
  obtain ⟨hl,hfails⟩ := not_not.mp hk
  obtain ⟨e,rfl⟩ : ∃ e, a = .call (.shutdown (.error e)) := by
    unfold Action.failsShutdown at hfails
    split at hfails
    · exact ⟨_,rfl⟩
    · cases hfails
  have hstart : Op.start name s.inner (.shutdown (.error e)) =
      (s.inner.takeInstance,.done (.error (.vmm e))) := by
    obtain ⟨i,hi⟩ := Option.ne_none_iff_exists'.mp (hs.whole hl)
    simp only [Op.start,VmInner.shutdown,hi]
    rcases hl with hb | hp
    · rw [hb]
    · rw [hp]
  simp only [Vm.step,hs.calm,Bool.false_and,Bool.false_eq_true,if_false,hstart,settle] at h
  cases h
  refine ⟨hl,?_⟩
  cases hrun : s.inner.running with
  | none => simp [VmInner.vmInstance,VmInner.takeInstance,hrun]
  | some r => simp [VmInner.vmInstance,VmInner.takeInstance,hrun]

/-- The VM as it is made: by `Vm::new`, or around a machine that runs already. -/
def Fresh (s : Vm I C H) : Prop := s = .new ∨ ∃ r, s = .fromRunning r

theorem Fresh.sound {s : Vm I C H} (h : Fresh s) : Sound s := by
  rcases h with rfl | ⟨r,rfl⟩
  · exact ⟨fun hl => absurd hl VmState.not_live_created,rfl⟩
  · exact ⟨fun _ => by simp [fromRunning,VmInner.vmInstance,Launched.resources],rfl⟩

theorem Fresh.bare {s : Vm I C H} (h : Fresh s) : s.inner.Bare := by
  intro hc
  rcases h with rfl | ⟨r,rfl⟩
  · rfl
  · cases hc

end Vm

/-- The lifecycle of a VM over all interleavings of its operations: as long as no shutdown of a
Booted or Paused VM fails, such a VM has its resources and nothing panics, and the first such
failure leaves a VM in its state without its instance. Whatever fails, Shutdown is final, Dead leads
to Shutdown only and Created has no resources. -/
theorem vm_lifecycle (name : String) (s₀ : Vm I C H) (h₀ : s₀.Fresh) :
    (∀ s, ((vmMachine name).restrict Vm.Keeps).Reachable s₀ s →
      (s.inner.state = .booted ∨ s.inner.state = .paused →
        ∃ r i, s.inner.running = some r ∧ r.vmInstance = some i) ∧
      s.poisoned = false ∧
      ∀ a s' o, (vmMachine name).step s a = some (s',o) → o ≠ .panicked ∧
        (¬Vm.Keeps s a → (s'.inner.state = .booted ∨ s'.inner.state = .paused) ∧
          s'.inner.vmInstance = none)) ∧
    ∀ s, (vmMachine name).Reachable s₀ s →
      (s.inner.state = .created → s.inner.running = none) ∧
      ∀ a s' o, (vmMachine name).step s a = some (s',o) →
        (s.inner.state = .shutdown → s'.inner.state = .shutdown) ∧
        (s.inner.state = .dead → s'.inner.state = .dead ∨ s'.inner.state = .shutdown) := by
  constructor
  · intro s hreach
    have hs : s.Sound := by
      apply Machine.Reachable.invariant _ _ h₀.sound hreach
      intro q a q' o hq hstep
      obtain ⟨hk,hstep⟩ := (Machine.restrict_step _).mp hstep
      exact hq.step hk hstep
    refine ⟨hs.whole.resources,hs.calm,fun a s' o hstep => ⟨?_,fun hk => hs.lost hk hstep⟩⟩
    rintro rfl
    exact hs.not_panicked hstep
  · intro s hreach
    have hbare : s.inner.Bare := by
      apply Machine.Reachable.invariant (vmMachine name) (I := fun s => s.inner.Bare) _ h₀.bare
        hreach
      intro q a q' o hq hstep
      exact (Vm.step_spec hstep).1.bare hq
    refine ⟨hbare,fun a s' o hstep => ?_⟩
    have hchange := (Vm.step_spec hstep).1
    exact ⟨hchange.of_shutdown,hchange.of_dead⟩

/-- A machine to launch. -/
def someMachine : Launched Unit Unit := ⟨3,(),(),none,none⟩

/-- A VM that is booted and paused, and that the backend fails to resume. -/
theorem vm_lifecycle_paused :
    ∃ s : Vm Unit Unit Unit, ((vmMachine "vm").restrict Vm.Keeps).Reachable .new s ∧
      s.inner.state = .paused ∧ ∃ r i, s.inner.running = some r ∧ r.vmInstance = some i := by
  have hreach : ((vmMachine "vm").restrict Vm.Keeps).Reachable (.new : Vm Unit Unit Unit)
      ⟨⟨.paused,some someMachine.resources,some ()⟩,false,[none]⟩ :=
    ⟨[.call .boot,.proceed 0 (.launched (.ok someMachine) (some ())),.call (.pause (.ok ())),
      .call (.resume (.error (.io .other)))],_,rfl⟩
  exact ⟨_,hreach,rfl,((vm_lifecycle "vm" .new (.inl rfl)).1 _ hreach).1 (.inr rfl)⟩

/-- The backend fails to shut a booted VM down. No operation is in progress, the state says Booted,
the instance is gone, and the next `pause` panics. -/
theorem booted_without_instance :
    ∃ s : Vm Unit Unit Unit, (vmMachine "vm").Reachable .new s ∧
      s.threads = [none] ∧ s.inner.state = .booted ∧ s.inner.vmInstance = none ∧
      ∃ s', (vmMachine "vm").step s (.call (.pause (.ok ()))) = some (s',.panicked) :=
  ⟨_,⟨[.call .boot,.proceed 0 (.launched (.ok someMachine) (some ())),
    .call (.shutdown (.error (.io .other)))],_,rfl⟩,rfl,rfl,rfl,_,rfl⟩

end Provium.Host
