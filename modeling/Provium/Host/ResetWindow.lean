import Provium.Host.Transitions

/-! The reset window: `reset` lifts the VMM's reboot action with one `set-action` and puts it back with
another, in a section of its own. Resets follow one another on a live QMP connection, on which a
`set-action` succeeds and everything else may fail. Between the sections other threads may change the
state of the VM; they do not take its machine away. -/
namespace Provium.Host
open Lib Provium.Qmp

/-- What the VMM does where the guest reboots. -/
inductive RebootPolicy where
  | reset
  | shutdown
  deriving DecidableEq

inductive WindowPhase where
  /-- No reset is in progress; the last one returned this. -/
  | idle (last : Option (Except VmError Unit))
  /-- The backend, under the lock of the VM, is to lift the action. -/
  | lifting
  /-- `system_reset` is to be answered. -/
  | resetting
  /-- It waits for the RESET event. -/
  | awaiting
  /-- A later section of `Vm::reset`. -/
  | later (pc : Pc)
  | panicked

structure ResetWindow (I C H : Type) where
  inner : VmInner I C H
  reboot : RebootPolicy
  phase : WindowPhase

inductive WindowAction (I C H : Type) where
  | reset
  | setAction
  | systemReset (answer : Except QmpError Unit)
  | resetEvent (answer : Except QmpError Unit)
  | proceed (event : Event I C H)
  /-- Another thread changes the state of the VM. -/
  | other (state : VmState)

/-- Where a section of `Vm::reset` leaves it. -/
def WindowPhase.after : Ended → WindowPhase
  | .done result => .idle (some result)
  | .goOn pc => .later pc
  | .panic => .panicked

/-- Whether the lock of the VM is free. -/
def WindowPhase.unlocked : WindowPhase → Bool
  | .idle _ | .later _ => true
  | _ => false

variable {I C H : Type}

namespace ResetWindow

/-- A VM as it is launched. -/
def launched (r : Launched I C) (reservation : Option H) : ResetWindow I C H :=
  ⟨⟨.booted,some r.resources,reservation⟩,.shutdown,.idle none⟩

/-- The backend's `reset` has this result. -/
def answered (name : String) (s : ResetWindow I C H) (answer : Except VmmError Unit) : ResetWindow I C H :=
  let q := s.inner.reset name answer
  { s with inner := q.1, phase := .after q.2 }

/-- `end_reset_window`: the action, if there is an instance to ask. -/
def endResetWindow (s : ResetWindow I C H) : RebootPolicy :=
  if s.inner.vmInstance.isSome then .shutdown else s.reboot

/-- A later section. The last one ends the window before it returns. -/
def proceed (name : String) (s : ResetWindow I C H) (pc : Pc) (event : Event I C H) :
    Option (ResetWindow I C H) :=
  (pc.resume name s.inner event).map fun q =>
    match pc with
    | .closingWindow _ => ⟨q.1,s.endResetWindow,.after q.2⟩
    | _ => ⟨q.1,s.reboot,.after q.2⟩

def step (name : String) (s : ResetWindow I C H) (a : WindowAction I C H) : Option (ResetWindow I C H × Unit) :=
  match s.phase,a with
  | .idle _,.reset =>
    if s.inner.state = .booted ∧ s.inner.vmInstance.isSome then some ({ s with phase := .lifting },())
    else some ({ s with phase := .after (s.inner.wrongState name "reset") },())
  | .lifting,.setAction => some ({ s with reboot := .reset, phase := .resetting },())
  | .resetting,.systemReset (.error e) => some (s.answered name (.error (.qmp e)),())
  | .resetting,.systemReset (.ok ()) => some ({ s with phase := .awaiting },())
  | .awaiting,.resetEvent answer => some (s.answered name (answer.mapError .qmp),())
  | .later pc,.proceed event => (s.proceed name pc event).map fun s' => (s',())
  | phase,.other state =>
    if phase.unlocked then some ({ s with inner := { s.inner with state } },()) else none
  | _,_ => none

end ResetWindow

def windowMachine (I C H : Type) (name : String) : Machine (ResetWindow I C H) (WindowAction I C H) Unit :=
  ⟨ResetWindow.step name⟩

/-- How the backend's `reset` ends with this, where it does: whether the guest was reset. -/
def WindowAction.landing : WindowAction I C H → Option Bool
  | .systemReset (.error _) => some false
  | .resetEvent answer => some answer.isOk
  | _ => none

/-- The last reset that was asked of QEMU was carried out, or none was asked. -/
def Landed (as : List (WindowAction I C H)) : Prop := (as.filterMap WindowAction.landing).getLast? ≠ some false

section Window
variable {name : String} {past : List (WindowAction I C H)} {s s' : ResetWindow I C H} {a : WindowAction I C H}

theorem landed_silent (h : a.landing = none) : Landed (past++[a]) ↔ Landed past := by
  simp [Landed,List.filterMap_append,h]

theorem landed_ends {landed : Bool} (h : a.landing = some landed) : Landed (past++[a]) ↔ landed = true := by
  simp [Landed,List.filterMap_append,h]

/-- How a reset stands to the action while the machine is there. -/
def ResetWindow.Window (landed : Prop) (s : ResetWindow I C H) : Prop :=
  match s.phase with
  | .idle _ | .lifting => s.reboot = .shutdown ↔ landed
  | .resetting | .awaiting => s.reboot = .reset
  | .later (.markDead _) => s.reboot = .reset ∧ ¬landed
  | .later .probing | .later (.closingWindow _) => landed
  | _ => False

/-- The window stands as the answers of QEMU have it; the lock keeps the VM booted. -/
structure WindowInv (past : List (WindowAction I C H)) (s : ResetWindow I C H) : Prop where
  machine : s.inner.vmInstance.isSome
  booted : s.phase.unlocked = false → s.inner.state = .booted
  window : s.Window (Landed past)

theorem windowInv_unlocked (hmachine : s.inner.vmInstance.isSome) (hfree : s.phase.unlocked = true)
    (hwindow : s.Window (Landed past)) : WindowInv past s where
  machine := hmachine
  booted := by
    intro hlocked
    rw [hfree] at hlocked
    cases hlocked
  window := hwindow

/-- What `Vm::reset` makes of a failure of the backend. -/
theorem VmInner.reset_failed (v : VmInner I C H) (name : String) (e : VmmError) : ∃ q, v.reset name (.error e) = (v,q) ∧
    ((∃ result, q = .done result) ∨ ∃ e, q = .goOn (.markDead e)) := by
  unfold VmInner.reset
  split
  · cases v.vmInstance with
    | none => exact ⟨_,rfl,.inl ⟨_,rfl⟩⟩
    | some x =>
      refine ⟨_,rfl,?_⟩
      unfold afterBackend
      split
      · cases ‹Except.error e = Except.ok ()›
      · split
        · exact .inr ⟨_,rfl⟩
        · exact .inl ⟨_,rfl⟩
  · exact ⟨_,rfl,.inl ⟨_,rfl⟩⟩

/-- A probe leaves the VM alone; the loop goes on, or the window is to be closed. -/
theorem VmInner.probe_goesOn (v : VmInner I C H) (name : String) (answered expired : Bool) :
    ∃ pc, v.probe name answered expired = (v,.goOn pc) ∧ (pc = .probing ∨ ∃ outcome, pc = .closingWindow outcome) := by
  unfold VmInner.probe
  cases v.running with
  | none => exact ⟨_,rfl,.inr ⟨_,rfl⟩⟩
  | some r =>
    cases answered with
    | true => exact ⟨_,rfl,.inr ⟨_,rfl⟩⟩
    | false =>
      cases expired with
      | true => exact ⟨_,rfl,.inr ⟨_,rfl⟩⟩
      | false => exact ⟨_,rfl,.inl rfl⟩

/-- The backend returns with the action lifted. -/
theorem WindowInv.failed (hi : WindowInv past s) (hreboot : s.reboot = .reset) (e : VmmError)
    {a : WindowAction I C H} (ha : a.landing = some false) : WindowInv (past++[a]) (s.answered name (.error e)) := by
  obtain ⟨q,hq,hcases⟩ := s.inner.reset_failed name e
  have hnot : ¬Landed (past++[a]) := by
    rw [landed_ends ha]
    exact Bool.false_ne_true
  unfold ResetWindow.answered
  rw [hq]
  obtain ⟨result,rfl⟩ | ⟨e',rfl⟩ := hcases
  · refine windowInv_unlocked hi.machine rfl (iff_of_false ?_ hnot)
    change s.reboot ≠ .shutdown
    rw [hreboot]
    decide
  · exact windowInv_unlocked hi.machine rfl ⟨hreboot,hnot⟩

theorem WindowInv.landed (hi : WindowInv past s) (hbooted : s.inner.state = .booted) {a : WindowAction I C H}
    (ha : a.landing = some true) : WindowInv (past++[a]) (s.answered name (.ok ())) := by
  obtain ⟨x,hx⟩ := Option.isSome_iff_exists.mp hi.machine
  have hq : s.inner.reset name (.ok ()) = (s.inner,.goOn .probing) := by
    simp [VmInner.reset,hbooted,hx]
  unfold ResetWindow.answered
  rw [hq]
  exact windowInv_unlocked hi.machine rfl ((landed_ends ha).mpr rfl)

/-- The sections after the backend's `reset` leave the machine; the window is ended by the last. -/
theorem WindowInv.proceed {pc : Pc} {event : Event I C H} (hi : WindowInv past s) (hphase : s.phase = .later pc)
    (hs : s.proceed name pc event = some s') {a : WindowAction I C H} (ha : a.landing = none) :
    WindowInv (past++[a]) s' := by
  have hwindow := hi.window
  unfold ResetWindow.Window at hwindow
  rw [hphase] at hwindow
  obtain ⟨q,hq,rfl⟩ := Option.map_eq_some_iff.mp hs
  cases pc with
  | markDead e =>
    cases event with
    | lock =>
      cases hq
      have hrunning : (s.inner.markDead e).1.running = s.inner.running := by
        unfold VmInner.markDead
        split <;> rfl
      refine windowInv_unlocked ?_ rfl ?_
      · rw [VmInner.vmInstance,hrunning]
        exact hi.machine
      · refine iff_of_false ?_ (mt (landed_silent ha).mp hwindow.2)
        change s.reboot ≠ .shutdown
        rw [hwindow.1]
        decide
    | probed answered expired => cases hq
    | launched r reservation => cases hq
  | probing =>
    cases event with
    | probed answered expired =>
      have hlanded := (landed_silent ha).mpr hwindow
      obtain ⟨pc,hprobe,rfl | ⟨outcome,rfl⟩⟩ := s.inner.probe_goesOn name answered expired
      · cases hq
        rw [hprobe]
        exact windowInv_unlocked hi.machine rfl hlanded
      · cases hq
        rw [hprobe]
        exact windowInv_unlocked hi.machine rfl hlanded
    | lock => cases hq
    | launched r reservation => cases hq
  | closingWindow outcome =>
    cases event with
    | lock =>
      cases hq
      refine windowInv_unlocked hi.machine rfl (iff_of_true ?_ ((landed_silent ha).mpr hwindow))
      exact if_pos hi.machine
    | probed answered expired => cases hq
    | launched r reservation => cases hq
  | booting => exact hwindow.elim
  | restoring => exact hwindow.elim
  | markAgentDead e => exact hwindow.elim

theorem WindowInv.step (hi : WindowInv past s) {o : Unit} (hs : s.step name a = some (s',o)) :
    WindowInv (past++[a]) s' := by
  have hwindow := hi.window
  unfold ResetWindow.Window at hwindow
  unfold ResetWindow.step at hs
  split at hs
  · next last hphase =>
    rw [hphase] at hwindow
    have hsilent : Landed (past++[WindowAction.reset (I := I) (C := C) (H := H)]) ↔ Landed past :=
      landed_silent rfl
    split_ifs at hs with hbooted
    · cases hs
      exact ⟨hi.machine,fun _ => hbooted.1,hwindow.trans hsilent.symm⟩
    · cases hs
      exact windowInv_unlocked hi.machine rfl (hwindow.trans hsilent.symm)
  · next hphase =>
    cases hs
    exact ⟨hi.machine,fun _ => hi.booted (by rw [hphase]; rfl),rfl⟩
  · next e hphase =>
    rw [hphase] at hwindow
    cases hs
    exact hi.failed hwindow _ rfl
  · next hphase =>
    rw [hphase] at hwindow
    cases hs
    exact ⟨hi.machine,fun _ => hi.booted (by rw [hphase]; rfl),hwindow⟩
  · next answer hphase =>
    rw [hphase] at hwindow
    cases hs
    cases answer with
    | error e => exact hi.failed hwindow _ rfl
    | ok u => exact hi.landed (hi.booted (by rw [hphase]; rfl)) rfl
  · next pc event hphase =>
    obtain ⟨s'',hs'',hq⟩ := Option.map_eq_some_iff.mp hs
    cases hq
    exact hi.proceed hphase hs'' rfl
  · next state =>
    split_ifs at hs with hfree
    cases hs
    refine windowInv_unlocked hi.machine hfree ?_
    have hsilent : Landed (past++[WindowAction.other (I := I) (C := C) (H := H) state]) ↔ Landed past :=
      landed_silent rfl
    unfold ResetWindow.Window
    simp only [hsilent]
    exact hi.window
  · cases hs

end Window

/-- Whenever a reset returns, the action is `shutdown` if and only if the last reset that was asked of QEMU
was carried out, or none was asked. -/
theorem reset_window_closed_iff (name : String) (r : Launched I C) (reservation : Option H)
    (as : List (WindowAction I C H)) (s : ResetWindow I C H) (os : List Unit) (result : Except VmError Unit)
    (h : (windowMachine I C H name).run (.launched r reservation) as = some (s,os))
    (hreturned : s.phase = .idle (some result)) : s.reboot = .shutdown ↔ Landed as := by
  have hstart : WindowInv [] (.launched r reservation : ResetWindow I C H) := by
    refine windowInv_unlocked rfl rfl (iff_of_true rfl ?_)
    simp [Landed]
  have hinv : WindowInv ([]++as) s := Machine.run_past _ (J := WindowInv)
    (fun _ _ _ _ _ hi hs => hi.step hs) hstart h
  have hwindow := hinv.window
  unfold ResetWindow.Window at hwindow
  rw [hreturned] at hwindow
  exact hwindow

/-- A reset whose guest does not answer before the deadline, after it was found dead by another thread. -/
def silentReset : List (WindowAction Unit Unit Unit) :=
  [.reset,.setAction,.systemReset (.ok ()),.resetEvent (.ok ()),.proceed (.probed false false),.other .dead,
    .proceed (.probed false true),.proceed .lock]

theorem reset_window_closed_iff_silent : ∃ (s : ResetWindow Unit Unit Unit) (os : List Unit),
    (windowMachine Unit Unit Unit "vm").run (.launched someMachine none) silentReset = some (s,os) ∧
      s.phase = .idle (some (.error (.client (.connect .timedOut)))) ∧ s.reboot = .shutdown := by
  refine ⟨_,_,rfl,rfl,?_⟩
  refine (reset_window_closed_iff "vm" someMachine none silentReset _ _
    (.error (.client (.connect .timedOut))) rfl rfl).mpr ?_
  unfold Landed
  decide

/-- Where QEMU refuses the reset, the action stays lifted. -/
theorem reset_window_left_open :
    ¬∀ (as : List (WindowAction Unit Unit Unit)) (s : ResetWindow Unit Unit Unit) (os : List Unit)
      (result : Except VmError Unit),
      (windowMachine Unit Unit Unit "vm").run (.launched someMachine none) as = some (s,os) →
      s.phase = .idle (some result) → s.reboot = .shutdown := by
  intro h
  have hopen := h [.reset,.setAction,.systemReset (.error (.command "system_reset" "GenericError" "refused"))]
    _ _ _ rfl rfl
  cases hopen

end Provium.Host
