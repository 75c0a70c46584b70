import Provium.Lib.Splice
import Provium.Host.Transitions

/-! One `reset` of a booted VM beside agent operations on its clones. The guest is gone from the QMP
reset on until it serves its agent again, which it does before the reset's deadline. An operation
that meets it in between, or that loses its connection to a guest that serves, marks the VM Dead in a
section of its own, which may come at any later time. -/
namespace Provium.Host
open Lib

inductive ResetPhase where
  | before
  | running (thread : ℕ)
  | over (result : Except VmError Unit)

/-- A VM and its guest around a reset. -/
structure Rebooting (I C H : Type) where
  vm : Vm I C H
  /-- Whether the guest serves its agent. -/
  serving : Bool
  phase : ResetPhase

inductive RebootAction (I C H : Type) where
  | reset (answer : Except VmmError Unit)
  /-- The guest serves its agent again. -/
  | serve
  | withClient (action : String) (answer : Except VmError Unit)
  | proceed (i : ℕ) (event : Event I C H)

/-- A guest that is gone answers no operation, and any may fail: a reply over the frame cap ends the
connection of a guest that serves. -/
def fromGuest (serving : Bool) : Except VmError Unit → Bool
  | .ok () => serving
  | .error _ => true

variable {I C H : Type}

/-- A probe is answered by a guest that serves, and the deadline comes after that. -/
def Event.fromGuest (serving : Bool) : Event I C H → Bool
  | .probed answered expired => answered == serving && (serving || !expired)
  | .lock => true
  | .launched _ _ => false

namespace Rebooting

/-- The phase of the reset after one of its sections. -/
def after (thread : ℕ) : Obs → ResetPhase
  | .returned result => .over result
  | _ => .running thread

/-- Whether the guest still serves after the first section of the reset. -/
def survives : Except VmmError Unit → Obs → Bool
  | .ok _,.pending => false
  | _,_ => true

def step (name : String) (s : Rebooting I C H) :
    RebootAction I C H → Option (Rebooting I C H × Obs)
  | .reset answer =>
    match s.phase with
    | .before => (s.vm.step name (.call (.reset answer))).map fun q =>
      (⟨q.1,s.serving && survives answer q.2,after s.vm.threads.length q.2⟩,q.2)
    | _ => none
  | .serve => some ({ s with serving := true },.pending)
  | .withClient action answer =>
    if Host.fromGuest s.serving answer then
      (s.vm.step name (.call (.withClient action answer))).map fun q => ({ s with vm := q.1 },q.2)
    else none
  | .proceed i event =>
    if event.fromGuest s.serving then
      (s.vm.step name (.proceed i event)).map fun q =>
        match s.phase with
        | .running k => ({ s with vm := q.1, phase := if i = k then after k q.2 else s.phase },q.2)
        | _ => ({ s with vm := q.1 },q.2)
    else none

/-- A booted VM that nobody operates on. -/
def booted (r : Launched I C) (reservation : Option H) : Rebooting I C H :=
  ⟨⟨⟨.booted,some r.resources,reservation⟩,false,[]⟩,true,.before⟩

/-- The step is no agent operation whose exchange ends as with an agent that is gone. -/
def Calm (_ : Rebooting I C H) : RebootAction I C H → Prop
  | .withClient _ answer => deadly answer = false
  | _ => True

instance (s : Rebooting I C H) : ∀ a, Decidable (s.Calm a)
  | .withClient _ _ => inferInstanceAs (Decidable (_ = _))
  | .reset _ | .serve | .proceed _ _ => inferInstanceAs (Decidable True)

/-- After the reset has returned, the VM is Booted and what the agent answers gets through. -/
def Usable (name : String) (s : Rebooting I C H) : Prop :=
  s.phase = .over (.ok ()) → s.vm.inner.state = .booted ∧
    ∀ action, ∃ vm, s.vm.step name (.call (.withClient action (.ok ()))) =
      some (vm,.returned (.ok ()))

end Rebooting

def rebootMachine (name : String) : Machine (Rebooting I C H) (RebootAction I C H) Obs :=
  ⟨Rebooting.step name⟩

/-- What the thread of a reset can be about to do. -/
def Pc.OfReset : Pc → Prop
  | .probing | .closingWindow _ | .markDead _ => True
  | _ => False

/-- Only the reset has a thread in progress, and until it is over the VM is Booted. -/
structure RebootInv (s : Rebooting I C H) : Prop where
  calm : s.vm.poisoned = false
  resources : s.vm.inner.running ≠ none
  threads : ∀ (j : ℕ) (pc : Pc), s.vm.threads[j]? = some (some pc) → s.phase = .running j ∧ pc.OfReset
  booted : (∀ e, s.phase ≠ .over (.error e)) → s.vm.inner.state = .booted

theorem rebootInv_booted (r : Launched I C) (reservation : Option H) :
    RebootInv (Rebooting.booted r reservation) :=
  ⟨rfl,by simp [Rebooting.booted],by simp [Rebooting.booted],fun _ => rfl⟩

section Steps
variable {name : String} {s s' : Rebooting I C H} {o : Obs}

theorem RebootInv.free (h : RebootInv s) (op : Op) : ¬(s.vm.poisoned && op.locks) = true := by
  rw [h.calm]
  exact Bool.false_ne_true

/-- An operation that keeps its connection is over in its first section and changes nothing. -/
theorem RebootInv.withClient (h : RebootInv s) (name action : String) (answer : Except VmError Unit)
    (hg : deadly answer = false) : ∃ result,
    s.vm.step name (.call (.withClient action answer)) = some (s.vm,.returned result) ∧
      (s.vm.inner.state = .booted → result = answer) := by
  obtain ⟨r,hr⟩ := Option.ne_none_iff_exists'.mp h.resources
  have hop : ∃ result, s.vm.inner.withClient name action answer = (s.vm.inner,.done result) ∧
      (s.vm.inner.state = .booted → result = answer) := by
    unfold VmInner.withClient
    by_cases hb : s.vm.inner.state = .booted
    · rw [if_pos hb,hr]
      cases answer with
      | ok u => exact ⟨_,rfl,fun _ => rfl⟩
      | error e =>
        cases e with
        | client e =>
          have hdead : isDeadSignal e = false := hg
          simp only [hdead,Bool.false_eq_true,↓reduceIte]
          exact ⟨_,rfl,fun _ => rfl⟩
        | _ => exact ⟨_,rfl,fun _ => rfl⟩
    · rw [if_neg hb]
      exact ⟨_,rfl,fun hc => absurd hc hb⟩
  obtain ⟨result,hop,hres⟩ := hop
  refine ⟨result,?_,hres⟩
  simp only [Vm.step,if_neg (h.free _),Op.start,hop,Vm.settle]
  rfl

/-- A section of the reset's thread leaves the VM as it is, or ends in an error. -/
theorem Pc.OfReset.resume {pc : Pc} (hof : pc.OfReset) {v : VmInner I C H} {event : Event I C H}
    {q : VmInner I C H × Ended} (hq : pc.resume name v event = some q) :
    (∃ pc', q = (v,.goOn pc') ∧ pc'.OfReset) ∨ (∃ result, q = (v,.done result)) ∨
      ∃ v' e, q = (v',.done (.error e)) ∧ v'.running = v.running := by
  cases pc with
  | probing =>
    cases event with
    | probed answered expired =>
      simp only [Pc.resume,VmInner.probe,Option.some.injEq] at hq
      split at hq
      · exact .inl ⟨_,hq.symm,trivial⟩
      · split_ifs at hq
        · exact .inl ⟨_,hq.symm,trivial⟩
        · exact .inl ⟨_,hq.symm,trivial⟩
        · exact .inl ⟨_,hq.symm,trivial⟩
    | lock => cases hq
    | launched r x => cases hq
  | closingWindow outcome =>
    cases event with
    | lock =>
      cases hq
      exact .inr (.inl ⟨_,rfl⟩)
    | probed a b => cases hq
    | launched r x => cases hq
  | markDead e =>
    cases event with
    | lock =>
      cases hq
      refine .inr (.inr ⟨_,_,rfl,?_⟩)
      split <;> rfl
    | probed a b => cases hq
    | launched r x => cases hq
  | booting => exact hof.elim
  | restoring => exact hof.elim
  | markAgentDead e => exact hof.elim

theorem RebootInv.reset (h : RebootInv s) (hp : s.phase = .before) {answer : Except VmmError Unit}
    {vm : Vm I C H} (hs : s.vm.step name (.call (.reset answer)) = some (vm,o)) (serving : Bool) :
    RebootInv ⟨vm,serving,Rebooting.after s.vm.threads.length o⟩ := by
  have hb : s.vm.inner.state = .booted := h.booted fun e he => by rw [hp] at he; cases he
  have hnone : ∀ (j : ℕ) (pc : Pc), s.vm.threads[j]? ≠ some (some pc) := by
    intro j pc hj
    obtain ⟨hr,-⟩ := h.threads j pc hj
    rw [hp] at hr
    cases hr
  have hop : (∃ result, s.vm.inner.reset name answer = (s.vm.inner,.done result) ∧
      ∃ e, result = .error e) ∨
      ∃ pc, s.vm.inner.reset name answer = (s.vm.inner,.goOn pc) ∧ pc.OfReset := by
    unfold VmInner.reset
    rw [if_pos hb]
    cases s.vm.inner.vmInstance with
    | none => exact .inl ⟨_,rfl,_,rfl⟩
    | some x =>
      cases answer with
      | ok u => exact .inr ⟨_,rfl,trivial⟩
      | error e =>
        simp only [VmInner.afterBackend]
        split
        · exact .inr ⟨_,rfl,trivial⟩
        · exact .inl ⟨_,rfl,_,rfl⟩
  simp only [Vm.step,if_neg (h.free _),Op.start] at hs
  obtain ⟨result,hop,e,rfl⟩ | ⟨pc,hop,hpc⟩ := hop
  · rw [hop] at hs
    cases hs
    exact ⟨h.calm,h.resources,fun j pc hj => absurd hj (hnone j pc),
      fun hne => absurd rfl (hne e)⟩
  · rw [hop] at hs
    cases hs
    refine ⟨h.calm,h.resources,?_,fun _ => hb⟩
    intro j pc' hj
    simp only [Option.elim_some] at hj
    obtain hj | ⟨rfl,hpc'⟩ := getElem?_snoc hj
    · exact absurd hj (hnone j pc')
    · cases hpc'
      exact ⟨rfl,hpc⟩

theorem RebootInv.proceed (h : RebootInv s) {k i : ℕ} (hp : s.phase = .running k)
    {event : Event I C H} {vm : Vm I C H}
    (hs : s.vm.step name (.proceed i event) = some (vm,o)) :
    RebootInv { s with vm := vm, phase := if i = k then Rebooting.after k o else s.phase } := by
  have hb : s.vm.inner.state = .booted := h.booted fun e he => by rw [hp] at he; cases he
  simp only [Vm.step,Option.bind_eq_some_iff,Option.map_eq_some_iff] at hs
  obtain ⟨pc,hpc,q,hq,hs⟩ := hs
  have hi := Option.join_eq_some_iff.mp hpc
  obtain ⟨hrun,hof⟩ := h.threads i pc hi
  rw [hp] at hrun
  cases hrun
  simp only [h.calm,Bool.false_and,Bool.false_eq_true,↓reduceIte] at hs
  -- The reset's thread is the only one, so after its section only what it left is there.
  have hthreads : ∀ (t : Option Pc) (j : ℕ) (pc' : Pc),
      (s.vm.threads.set k t)[j]? = some (some pc') → j = k ∧ t = some pc' := by
    intro t j pc' hj
    obtain ⟨rfl,ht⟩ | ⟨hk,hj⟩ := getElem?_set_some hj
    · exact ⟨rfl,ht.symm⟩
    · obtain ⟨hr,-⟩ := h.threads j pc' hj
      rw [hp] at hr
      cases hr
      exact absurd rfl hk
  obtain ⟨pc',rfl,hof'⟩ | ⟨result,rfl⟩ | ⟨v,e,rfl,hv⟩ := hof.resume hq
  · cases hs
    refine ⟨rfl,h.resources,?_,fun _ => hb⟩
    intro j p hj
    obtain ⟨rfl,hp'⟩ := hthreads _ j p hj
    cases hp'
    exact ⟨if_pos rfl,hof'⟩
  · cases hs
    refine ⟨rfl,h.resources,?_,fun _ => hb⟩
    intro j p hj
    obtain ⟨-,hp'⟩ := hthreads _ j p hj
    cases hp'
  · cases hs
    refine ⟨rfl,?_,?_,?_⟩
    · exact hv ▸ h.resources
    · intro j p hj
      obtain ⟨-,hp'⟩ := hthreads _ j p hj
      cases hp'
    · intro hne
      exact absurd (if_pos rfl) (hne e)

theorem RebootInv.step (h : RebootInv s) {a : RebootAction I C H}
    (hs : ((rebootMachine name).restrict Rebooting.Calm).step s a = some (s',o)) :
    RebootInv s' := by
  obtain ⟨hcalm,hs⟩ := (Machine.restrict_step (rebootMachine name)).mp hs
  cases a with
  | reset answer =>
    simp only [rebootMachine,Rebooting.step] at hs
    split at hs
    · next hp =>
      obtain ⟨⟨vm,o'⟩,hvm,hq⟩ := Option.map_eq_some_iff.mp hs
      cases hq
      exact h.reset hp hvm _
    · cases hs
  | serve =>
    cases hs
    exact ⟨h.calm,h.resources,h.threads,h.booted⟩
  | withClient action answer =>
    simp only [rebootMachine,Rebooting.step,Option.ite_none_right_eq_some] at hs
    obtain ⟨-,hs⟩ := hs
    obtain ⟨result,hstep,-⟩ := h.withClient name action answer hcalm
    rw [hstep] at hs
    cases hs
    exact ⟨h.calm,h.resources,h.threads,h.booted⟩
  | proceed i event =>
    simp only [rebootMachine,Rebooting.step,Option.ite_none_right_eq_some] at hs
    obtain ⟨-,hs⟩ := hs
    obtain ⟨⟨vm,o'⟩,hvm,hq⟩ := Option.map_eq_some_iff.mp hs
    split at hq
    · next k hp =>
      cases hq
      exact h.proceed hp hvm
    · next hp =>
      -- Without a reset in progress there is no thread to go on.
      simp only [Vm.step,Option.bind_eq_some_iff] at hvm
      obtain ⟨pc,hpc,-⟩ := hvm
      obtain ⟨hr,-⟩ := h.threads i pc (Option.join_eq_some_iff.mp hpc)
      exact absurd hr (hp i)

theorem RebootInv.usable (h : RebootInv s) : s.Usable name := by
  intro hp
  have hb : s.vm.inner.state = .booted := h.booted fun e he => by rw [hp] at he; cases he
  refine ⟨hb,?_⟩
  intro action
  obtain ⟨result,hstep,hres⟩ := h.withClient name action (.ok ()) rfl
  rw [hres hb] at hstep
  exact ⟨_,hstep⟩

end Steps

/-- Where no agent operation ends as with an agent that is gone, the reset leaves the VM usable. -/
theorem reset_leaves_usable {name : String} {r : Launched I C} {reservation : Option H}
    {as : List (RebootAction I C H)} {os : List Obs} {s : Rebooting I C H}
    (h : ((rebootMachine name).restrict Rebooting.Calm).run (.booted r reservation) as =
      some (s,os)) : s.Usable name := by
  have hinv : RebootInv s :=
    Machine.run_invariant (I := RebootInv) _ (fun _ _ _ _ hi hs => RebootInv.step hi hs)
      (rebootInv_booted r reservation) h
  exact hinv.usable

/-- A reset that polls twice, with operations before and after it. -/
def patientReset : List (RebootAction Unit Unit Unit) :=
  [.withClient "run" (.ok ()),.reset (.ok ()),.proceed 0 (.probed false false),.serve,
    .withClient "run" (.error (.client (.agent "busy"))),.proceed 0 (.probed true false),.proceed 0 .lock,
    .withClient "run" (.ok ())]

theorem reset_leaves_usable_patient : ∃ s os,
    ((rebootMachine "vm").restrict Rebooting.Calm).run (.booted someMachine none) patientReset =
      some (s,os) ∧ s.phase = .over (.ok ()) ∧ s.Usable "vm" := by
  have hrun : ∃ os, ((rebootMachine "vm").restrict Rebooting.Calm).run (.booted someMachine none)
      patientReset = some (⟨⟨⟨.booted,some someMachine.resources,none⟩,false,[none]⟩,true,
        .over (.ok ())⟩,os) := ⟨_,rfl⟩
  obtain ⟨os,hr⟩ := hrun
  exact ⟨_,os,hr,rfl,reset_leaves_usable hr⟩

/-- An operation dials the guest while it is coming back, and marks the VM Dead. -/
def hastyRun : List (RebootAction Unit Unit Unit) :=
  [.reset (.ok ()),.withClient "run" (.error (.client (.connect .other))),.proceed 1 .lock,.serve,
    .proceed 0 (.probed true false),.proceed 0 .lock]

/-- The guest serves again, and the reply to an operation is over the frame cap. -/
def largeReply : List (RebootAction Unit Unit Unit) :=
  [.reset (.ok ()),.serve,.withClient "read_file" (.error (.client (.frame .eof))),.proceed 1 .lock,
    .proceed 0 (.probed true false),.proceed 0 .lock]

theorem reset_returns_on_a_dead_vm :
    (∃ s os, (rebootMachine "vm").run (.booted someMachine none) hastyRun = some (s,os) ∧
      s.serving = true ∧ s.phase = .over (.ok ()) ∧ s.vm.inner.state = .dead ∧ ¬s.Usable "vm") ∧
    ∃ s os, (rebootMachine "vm").run (.booted someMachine none) largeReply = some (s,os) ∧
      s.serving = true ∧ s.phase = .over (.ok ()) ∧ s.vm.inner.state = .dead ∧ ¬s.Usable "vm" := by
  have hrun : ∀ run ∈ [hastyRun,largeReply], ∃ os, (rebootMachine "vm").run (.booted someMachine none) run =
      some (⟨⟨⟨.dead,some someMachine.resources,none⟩,false,[none,none]⟩,true,.over (.ok ())⟩,os) := by
    intro run hmem
    rcases List.mem_pair.mp hmem with rfl | rfl <;> exact ⟨_,rfl⟩
  constructor
  · obtain ⟨os,hr⟩ := hrun hastyRun List.mem_cons_self
    refine ⟨_,os,hr,rfl,rfl,rfl,?_⟩
    intro hu
    cases (hu rfl).1
  · obtain ⟨os,hr⟩ := hrun largeReply (List.mem_cons_of_mem _ List.mem_cons_self)
    refine ⟨_,os,hr,rfl,rfl,rfl,?_⟩
    intro hu
    cases (hu rfl).1

end Provium.Host
