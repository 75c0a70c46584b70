import Provium.Lib.Machine
import Provium.Lab.Members
import Provium.Host.Transitions

/-! The watchdogs of a file, `run_one_file` of `dispatch.rs` and the per-test one of `runner.rs`,
beside the thread that runs the file. A watchdog has captured the root lab; when it fires it walks
that lab, one lab's lock at a time, and shuts down what it has found. The file goes on meanwhile,
and a test has a scope lab of its own, below none. Every shutdown succeeds. -/
namespace Provium.Host

/-- What a VM's own operations can make of its state. -/
def VmState.moves : VmState → VmState → Bool
  | _,.shutdown => true
  | .created,.booted => true
  | .booted,next | .paused,next => next ≠ .created
  | _,_ => false

theorem VmInner.Change.moves {I C H : Type} {loss : Prop} {v v' : VmInner I C H}
    (h : VmInner.Change loss v v') : v'.state = v.state ∨ v.state.moves v'.state = true := by
  cases h with
  | stay => exact .inl rfl
  | die h =>
    right
    obtain h | h := h <;> rw [h] <;> rfl
  | turn st h h' =>
    right
    obtain h | h := h <;> obtain h' | h' := h' <;> rw [h,h'] <;> rfl
  | up r reservation h =>
    right
    rw [h]
    rfl
  | off v' h =>
    right
    rw [h]
    cases v.state <;> rfl
  | lose h => exact .inl rfl

end Provium.Host

namespace Provium.Lab
open Lib Provium.Host

/-- How far a watchdog is. From the moment it fires it is recorded which VMs were running then. -/
inductive Firing where
  | armed
  /-- It was told in time that the work is done. -/
  | stoodDown
  /-- `collect_all_vms`: the labs still to visit and the VMs found. -/
  | gathering (running pending out : List ℕ)
  /-- The threads of `batch`, by the VMs they are still to shut down. -/
  | stopping (running todo stopped : List ℕ)
  | fired (running stopped : List ℕ)
  deriving DecidableEq, Repr

structure Watchdog where
  lab : ℕ
  phase : Firing
  deriving DecidableEq, Repr

structure FileVm where
  name : String
  state : VmState
  deriving DecidableEq, Repr

structure FileRun (H : Type) where
  labs : Labs H
  vms : List FileVm
  watchdogs : List Watchdog

inductive WatchdogStep where
  | fire
  | standDown
  | visit
  | gathered
  | stop (k : ℕ)
  | joined
  deriving DecidableEq, Repr

inductive FileAction where
  | createVm (l : ℕ) (name : String)
  /-- `restore_vm` has launched a VM, which no lab has yet. -/
  | launchRestored (name : String)
  | insertRestored (l vm : ℕ)
  | includeVm (l vm : ℕ)
  | subLab (l : ℕ) (name : String)
  | includeSubLab (l sub : ℕ)
  | removeVm (l : ℕ) (name : String)
  | removeSubLab (l : ℕ) (name : String)
  /-- A test begins: its scope lab, and its watchdog where it has a deadline. -/
  | beginTest (name : String) (deadline : Bool)
  /-- One of the VM's own operations, by whoever calls it. -/
  | vm (v : ℕ) (next : VmState)
  | watchdog (i : ℕ) (step : WatchdogStep)
  deriving DecidableEq, Repr

namespace FileRun
variable {H : Type}

/-- The root lab, and the file's watchdog unless it is disabled. -/
def start (wall : Bool) : FileRun H :=
  ⟨Labs.new [] "provium" true,[],if wall then [⟨0,.armed⟩] else []⟩

/-- The VMs that are Booted or Paused. -/
def running (s : FileRun H) : List ℕ :=
  (List.range s.vms.length).filter fun v =>
    (s.vms[v]?).any fun vm => vm.state = .booted || vm.state = .paused

def setState (s : FileRun H) (v : ℕ) (next : VmState) : FileRun H :=
  { s with vms := s.vms.modify v fun vm => { vm with state := next } }

def setPhase (s : FileRun H) (i : ℕ) (w : Watchdog) (phase : Firing) : FileRun H :=
  { s with watchdogs := s.watchdogs.set i { w with phase } }

/-- `Lab::shutdown` releases the joint reservations of the lab at its end. -/
def clearReservations (s : FileRun H) (l : ℕ) : FileRun H :=
  { s with labs := s.labs.modify l fun node => { node with bootReservations := [] } }

def watch (s : FileRun H) (i : ℕ) (w : Watchdog) : WatchdogStep → Option (FileRun H)
  | .fire =>
    match w.phase with
    | .armed => some (s.setPhase i w (.gathering s.running [w.lab] []))
    | _ => none
  | .standDown =>
    match w.phase with
    | .armed => some (s.setPhase i w .stoodDown)
    | _ => none
  | .visit =>
    match w.phase with
    | .gathering running (l::pending) out =>
      let q := s.labs.graph.visit (l::pending,out)
      some (s.setPhase i w (.gathering running q.1 q.2))
    | _ => none
  | .gathered =>
    match w.phase with
    | .gathering running [] out => some (s.setPhase i w (.stopping running out []))
    | _ => none
  | .stop k =>
    match w.phase with
    | .stopping running todo stopped =>
      (todo[k]?).map fun v =>
        (s.setState v .shutdown).setPhase i w (.stopping running (todo.eraseIdx k) (stopped++[v]))
    | _ => none
  | .joined =>
    match w.phase with
    | .stopping running [] stopped =>
      some ((s.clearReservations w.lab).setPhase i w (.fired running stopped))
    | _ => none

/-- A membership operation and what it returns. -/
def withLabs (s : FileRun H) (result : Except LabError (Labs H)) :
    FileRun H × Except LabError Unit :=
  match result with
  | .error e => (s,.error e)
  | .ok labs => ({ s with labs },.ok ())

def step (s : FileRun H) : FileAction → Option (FileRun H × Except LabError Unit)
  | .createVm l name =>
    (s.labs[l]?).map fun node =>
      match s.labs.includeVm l node name s.vms.length with
      | .error e => (s,.error e)
      | .ok labs => ({ s with labs, vms := s.vms++[⟨name,.created⟩] },.ok ())
  | .launchRestored name => some ({ s with vms := s.vms++[⟨name,.booted⟩] },.ok ())
  | .insertRestored l v =>
    (s.labs[l]?).bind fun node => (s.vms[v]?).map fun vm =>
      match s.labs.insertVm l node vm.name v with
      -- the new VM is dropped, and shut down with that
      | .error e => (s.setState v .shutdown,.error e)
      | .ok labs => ({ s with labs },.ok ())
  | .includeVm l v =>
    (s.labs[l]?).bind fun node => (s.vms[v]?).map fun vm =>
      s.withLabs (s.labs.includeVm l node vm.name v)
  | .subLab l name => (s.labs[l]?).map fun node => s.withLabs (s.labs.subLab l node name)
  | .includeSubLab l sub =>
    (s.labs[l]?).bind fun node => (s.labs[sub]?).map fun below =>
      s.withLabs (s.labs.includeSubLab l node below.name sub)
  | .removeVm l name =>
    (s.labs[l]?).map fun node => ({ s with labs := s.labs.removeVm l node name },.ok ())
  | .removeSubLab l name =>
    (s.labs[l]?).map fun node => ({ s with labs := s.labs.removeSubLab l node name },.ok ())
  | .beginTest name deadline =>
    let watchdogs := if deadline then s.watchdogs++[⟨0,.armed⟩] else s.watchdogs
    some (⟨s.labs.new ("test:"++name) true,s.vms,watchdogs⟩,.ok ())
  | .vm v next =>
    (s.vms[v]?).bind fun vm =>
      if vm.state.moves next then some (s.setState v next,.ok ()) else none
  | .watchdog i step =>
    (s.watchdogs[i]?).bind fun w => (s.watch i w step).map (·,.ok ())

end FileRun

def fileMachine (H : Type) : Machine (FileRun H) FileAction (Except LabError Unit) :=
  ⟨FileRun.step⟩

/-- What a firing of a watchdog is for. -/
structure WatchdogReaches {H : Type} (s : FileRun H) : Prop where
  /-- It has shut down every VM that was running when it fired. -/
  fired : ∀ w ∈ s.watchdogs, ∀ running stopped, w.phase = .fired running stopped →
    running ⊆ stopped
  /-- It gets there by its own steps. -/
  ends : ∀ (i : ℕ) (w : Watchdog), s.watchdogs[i]? = some w →
    ∀ running, (∃ pending out, w.phase = .gathering running pending out) ∨
      (∃ todo stopped, w.phase = .stopping running todo stopped) →
    ∃ (steps : List WatchdogStep) (s' : FileRun H) (os : List (Except LabError Unit))
      (stopped : List ℕ), (fileMachine H).run s (steps.map (.watchdog i)) = some (s',os) ∧
      s'.watchdogs[i]? = some ⟨w.lab,.fired running stopped⟩ ∧ running ⊆ stopped

/-- No VM that a firing in progress has still to find is cut off from its walk in these labs. -/
def FileRun.Keeps {H : Type} (s : FileRun H) (labs : Labs H) : Prop :=
  ∀ w ∈ s.watchdogs, ∀ running pending out, w.phase = .gathering running pending out →
    ∀ v ∈ running, v ∉ out → labs.graph.Within pending v

/-- A watchdog fires only while every running VM is in the lab it has captured or below, none of
these is cut off before it is found, and no lab comes below itself. -/
def FileRun.Tree {H : Type} (s : FileRun H) : FileAction → Prop
  | .watchdog i .fire => ∀ w, s.watchdogs[i]? = some w → ∀ v ∈ s.running,
    s.labs.graph.Within [w.lab] v
  | .removeVm l name => ∀ node, s.labs[l]? = some node → s.Keeps (s.labs.removeVm l node name)
  | .removeSubLab l name => ∀ node, s.labs[l]? = some node →
    s.Keeps (s.labs.removeSubLab l node name)
  | .subLab l name => ∀ node labs, s.labs[l]? = some node → name ∈ node.subLabs →
    s.labs.subLab l node name = .ok labs → s.Keeps labs
  | .includeSubLab l sub => ¬s.labs.graph.Reach sub l
  | _ => True

section Reach
variable {H : Type} {s s' : FileRun H} {labs : Labs H}

/-- What a firing owes the VMs that were running: each is shut down, to be, or to be found. -/
def Firing.Owes (G : Nesting ℕ ℕ) : Firing → Prop
  | .armed | .stoodDown => True
  | .gathering running pending out => ∀ v ∈ running, v ∈ out ∨ G.Within pending v
  | .stopping running todo stopped => ∀ v ∈ running, v ∈ todo ∨ v ∈ stopped
  | .fired running stopped => running ⊆ stopped

theorem Firing.Owes.mono {G G' : Nesting ℕ ℕ} {phase : Firing} (hg : Nesting.Grows G G')
    (h : phase.Owes G) : phase.Owes G' := by
  cases phase with
  | gathering running pending out =>
    intro v hv
    exact (h v hv).imp_right (Nesting.Within.mono hg)
  | armed => exact h
  | stoodDown => exact h
  | stopping running todo stopped => exact h
  | fired running stopped => exact h

structure FileInv (s : FileRun H) : Prop where
  acyclic : Acyclic s.labs
  owes : ∀ w ∈ s.watchdogs, w.phase.Owes s.labs.graph

theorem fileInv_start (wall : Bool) : FileInv (.start wall : FileRun H) := by
  refine ⟨acyclic_new _ _,?_⟩
  intro w hw
  cases wall with
  | true =>
    obtain rfl := List.mem_singleton.mp hw
    trivial
  | false => cases hw

/-- The VMs' own states play no part. -/
theorem FileInv.vms (h : FileInv s) (vms : List FileVm) : FileInv { s with vms } :=
  ⟨h.acyclic,h.owes⟩

theorem FileInv.extends (h : FileInv s) (he : Extends s.labs labs) : FileInv { s with labs } :=
  ⟨he.acyclic h.acyclic,fun w hw => (h.owes w hw).mono he.grows⟩

theorem FileInv.keeps (h : FileInv s) (ha : Acyclic labs) (hk : s.Keeps labs) :
    FileInv { s with labs } := by
  refine ⟨ha,?_⟩
  intro w hw
  have howes := h.owes w hw
  cases hp : w.phase with
  | gathering running pending out =>
    intro v hv
    by_cases hout : v ∈ out
    · exact .inl hout
    · exact .inr (hk w hw running pending out hp v hv hout)
  | armed => trivial
  | stoodDown => trivial
  | stopping running todo stopped =>
    rw [hp] at howes
    exact howes
  | fired running stopped =>
    rw [hp] at howes
    exact howes

theorem FileInv.setPhase (h : FileInv s) (i : ℕ) (w : Watchdog) {phase : Firing}
    (ho : phase.Owes s.labs.graph) : FileInv (s.setPhase i w phase) := by
  refine ⟨h.acyclic,?_⟩
  intro w' hw'
  obtain hw' | rfl := List.mem_or_eq_of_mem_set hw'
  · exact h.owes w' hw'
  · exact ho

theorem graph_clearReservations (s : FileRun H) (l : ℕ) :
    (s.clearReservations l).labs.graph = s.labs.graph := by
  unfold Labs.graph
  congr 1 <;> funext k
  all_goals
    simp only [FileRun.clearReservations,List.getElem?_modify]
    cases s.labs[k]? with
    | none => rfl
    | some node => by_cases hk : l = k <;> simp [hk]

theorem FileInv.clearReservations (h : FileInv s) (l : ℕ) : FileInv (s.clearReservations l) := by
  constructor
  · rw [Acyclic,graph_clearReservations]
    exact h.acyclic
  · rw [graph_clearReservations]
    exact h.owes

/-- A watchdog's own step. -/
theorem FileInv.watch {i : ℕ} {w : Watchdog} {step : WatchdogStep} (h : FileInv s)
    (hw : s.watchdogs[i]? = some w) (hok : s.Tree (.watchdog i step))
    (hstep : s.watch i w step = some s') : FileInv s' := by
  have howes := h.owes w (List.mem_of_getElem? hw)
  cases step with
  | fire =>
    simp only [FileRun.watch] at hstep
    split at hstep
    · cases hstep
      apply h.setPhase
      intro v hv
      exact .inr (hok w hw v hv)
    · cases hstep
  | standDown =>
    simp only [FileRun.watch] at hstep
    split at hstep
    · cases hstep
      exact h.setPhase i w trivial
    · cases hstep
  | visit =>
    simp only [FileRun.watch] at hstep
    split at hstep
    · next running l pending out hp =>
      cases hstep
      rw [hp] at howes
      apply h.setPhase
      intro v hv
      exact Nesting.Within.visit (howes v hv)
    · cases hstep
  | gathered =>
    simp only [FileRun.watch] at hstep
    split at hstep
    · next running out hp =>
      cases hstep
      rw [hp] at howes
      apply h.setPhase
      intro v hv
      obtain hv | hv := howes v hv
      · exact .inl hv
      · exact absurd hv Nesting.not_within_nil
    · cases hstep
  | stop k =>
    simp only [FileRun.watch] at hstep
    split at hstep
    · next running todo stopped hp =>
      obtain ⟨v,hv,rfl⟩ := Option.map_eq_some_iff.mp hstep
      rw [hp] at howes
      apply FileInv.setPhase (s := s.setState v .shutdown) (h.vms _)
      intro u hu
      obtain hu | hu := howes u hu
      · by_cases huv : u = v
        · exact .inr (List.mem_append_right _ (List.mem_singleton.mpr huv))
        · exact .inl (mem_eraseIdx_of_ne hu hv huv)
      · exact .inr (List.mem_append_left _ hu)
    · cases hstep
  | joined =>
    simp only [FileRun.watch] at hstep
    split at hstep
    · next running stopped hp =>
      cases hstep
      rw [hp] at howes
      apply (h.clearReservations w.lab).setPhase
      intro v hv
      obtain hv | hv := howes v hv
      · cases hv
      · exact hv
    · cases hstep

theorem withLabs_cases {result : Except LabError (Labs H)} {o : Except LabError Unit}
    (h : s.withLabs result = (s',o)) :
    s' = s ∨ ∃ labs, result = .ok labs ∧ s' = { s with labs } := by
  cases result with
  | error e =>
    cases h
    exact .inl rfl
  | ok labs =>
    cases h
    exact .inr ⟨labs,rfl,rfl⟩

/-- What every step keeps that meets the condition. -/
theorem FileInv.step {a : FileAction} {o : Except LabError Unit} (h : FileInv s) (hok : s.Tree a)
    (hstep : s.step a = some (s',o)) : FileInv s' := by
  cases a with
  | createVm l name =>
    obtain ⟨node,hl,hs⟩ := Option.map_eq_some_iff.mp hstep
    split at hs
    · cases hs
      exact h
    · next labs hadd =>
      cases hs
      exact (h.extends (includeVm_extends hl hadd)).vms _
  | launchRestored name =>
    cases hstep
    exact h.vms _
  | insertRestored l v =>
    obtain ⟨node,hl,hs⟩ := Option.bind_eq_some_iff.mp hstep
    obtain ⟨vm,-,hs⟩ := Option.map_eq_some_iff.mp hs
    split at hs
    · cases hs
      exact h.vms _
    · next labs hadd =>
      cases hs
      exact h.extends (insertVm_extends hl hadd)
  | includeVm l v =>
    obtain ⟨node,hl,hs⟩ := Option.bind_eq_some_iff.mp hstep
    obtain ⟨vm,-,hs⟩ := Option.map_eq_some_iff.mp hs
    obtain rfl | ⟨labs,hadd,rfl⟩ := withLabs_cases hs
    · exact h
    · exact h.extends (includeVm_extends hl hadd)
  | subLab l name =>
    obtain ⟨node,hl,hs⟩ := Option.map_eq_some_iff.mp hstep
    obtain rfl | ⟨labs,hadd,rfl⟩ := withLabs_cases hs
    · exact h
    · by_cases hn : name ∈ node.subLabs
      · exact h.keeps (subLab_acyclic hl hadd h.acyclic) (hok node labs hl hn hadd)
      · exact h.extends (subLab_extends hl hn hadd)
  | includeSubLab l sub =>
    obtain ⟨node,hl,hs⟩ := Option.bind_eq_some_iff.mp hstep
    obtain ⟨below,-,hs⟩ := Option.map_eq_some_iff.mp hs
    obtain rfl | ⟨labs,hadd,rfl⟩ := withLabs_cases hs
    · exact h
    · exact h.extends (includeSubLab_extends hl hok hadd)
  | removeVm l name =>
    obtain ⟨node,hl,hs⟩ := Option.map_eq_some_iff.mp hstep
    cases hs
    exact h.keeps (removeVm_acyclic hl name h.acyclic) (hok node hl)
  | removeSubLab l name =>
    obtain ⟨node,hl,hs⟩ := Option.map_eq_some_iff.mp hstep
    cases hs
    exact h.keeps (removeSubLab_acyclic hl name h.acyclic) (hok node hl)
  | beginTest name deadline =>
    cases hstep
    have hnew := h.extends (Extends.new s.labs ("test:"++name) true)
    refine ⟨hnew.acyclic,?_⟩
    intro w hw
    cases deadline with
    | false => exact hnew.owes w hw
    | true =>
      obtain hw | hw := List.mem_append.mp hw
      · exact hnew.owes w hw
      · obtain rfl := List.mem_singleton.mp hw
        trivial
  | vm v next =>
    obtain ⟨vm,-,hs⟩ := Option.bind_eq_some_iff.mp hstep
    split at hs
    · cases hs
      exact h.vms _
    · cases hs
  | watchdog i step =>
    obtain ⟨w,hw,hs⟩ := Option.bind_eq_some_iff.mp hstep
    obtain ⟨s₁,hwatch,hs⟩ := Option.map_eq_some_iff.mp hs
    cases hs
    exact h.watch hw hok hwatch

/-- The watchdog gets to its end by its own steps. -/
def FileRun.Finishes (s : FileRun H) (i l : ℕ) (running : List ℕ) : Prop :=
  ∃ (steps : List WatchdogStep) (s' : FileRun H) (os : List (Except LabError Unit))
    (stopped : List ℕ), .fire ∉ steps ∧
    (fileMachine H).run s (steps.map (.watchdog i)) = some (s',os) ∧
    s'.watchdogs[i]? = some ⟨l,.fired running stopped⟩

theorem FileRun.Finishes.step {i l : ℕ} {running : List ℕ} {w : Watchdog} (step : WatchdogStep)
    (hw : s.watchdogs[i]? = some w) (hne : step ≠ .fire) (hstep : s.watch i w step = some s')
    (h : s'.Finishes i l running) : s.Finishes i l running := by
  obtain ⟨steps,t,os,stopped,hfire,hrun,hend⟩ := h
  have hs : (fileMachine H).step s (.watchdog i step) = some (s',.ok ()) := by
    simp [fileMachine,FileRun.step,hw,hstep]
  refine ⟨step::steps,t,_,stopped,?_,Machine.run_of_step _ hs hrun,hend⟩
  exact List.not_mem_cons_of_ne_of_not_mem (Ne.symm hne) hfire

theorem setPhase_watchdogs {i : ℕ} {w w' : Watchdog} (hw : s.watchdogs[i]? = some w')
    (phase : Firing) : (s.setPhase i w phase).watchdogs[i]? = some ⟨w.lab,phase⟩ :=
  List.getElem?_set_self (List.getElem?_eq_some_iff.mp hw).1

/-- The shutdowns, one by one. -/
theorem finishes_stopping {i l : ℕ} {running todo stopped : List ℕ}
    (hw : s.watchdogs[i]? = some ⟨l,.stopping running todo stopped⟩) :
    s.Finishes i l running := by
  induction todo generalizing s stopped with
  | nil =>
    refine .step .joined hw (by decide) rfl ?_
    exact ⟨[],_,[],stopped,List.not_mem_nil,rfl,setPhase_watchdogs hw _⟩
  | cons v todo ih =>
    refine .step (.stop 0) hw (by decide) rfl ?_
    exact ih (setPhase_watchdogs (s := s.setState v .shutdown) hw _)

/-- The rest of the walk, where nothing else moves. -/
theorem finishes_gathering {i l n : ℕ} {running pending out out' : List ℕ}
    (hw : s.watchdogs[i]? = some ⟨l,.gathering running pending out⟩)
    (hn : s.labs.graph.visit^[n] (pending,out) = ([],out')) : s.Finishes i l running := by
  induction n generalizing s pending out with
  | zero =>
    obtain ⟨rfl,rfl⟩ := Prod.mk.inj hn
    refine .step .gathered hw (by decide) rfl ?_
    exact finishes_stopping (setPhase_watchdogs hw _)
  | succ n ih =>
    cases pending with
    | nil =>
      refine .step .gathered hw (by decide) rfl ?_
      exact finishes_stopping (setPhase_watchdogs hw _)
    | cons k pending =>
      refine .step .visit hw (by decide) rfl ?_
      exact ih (setPhase_watchdogs hw _) hn

theorem FileInv.reaches (h : FileInv s) : WatchdogReaches s := by
  constructor
  · intro w hw running stopped hp
    have howes := h.owes w hw
    rw [hp] at howes
    exact howes
  · intro i w hw running hphase
    have hfin : s.Finishes i w.lab running := by
      obtain ⟨l,phase⟩ := w
      obtain ⟨pending,out,rfl⟩ | ⟨todo,stopped,rfl⟩ := hphase
      · obtain ⟨n,out',hn⟩ := Nesting.visit_ends h.acyclic pending out
        exact finishes_gathering hw hn
      · exact finishes_stopping hw
    obtain ⟨steps,s',os,stopped,hfire,hrun,hend⟩ := hfin
    refine ⟨steps,s',os,stopped,hrun,hend,?_⟩
    -- these steps ask for nothing, so what is owed stays owed
    have hobeys : (fileMachine H).Obeys FileRun.Tree s (steps.map (.watchdog i)) := by
      apply Machine.obeys_of_forall
      intro a ha t
      obtain ⟨step,hstep,rfl⟩ := List.mem_map.mp ha
      cases step with
      | fire => exact absurd hstep hfire
      | standDown => trivial
      | visit => trivial
      | gathered => trivial
      | stop k => trivial
      | joined => trivial
    have hinv := Machine.run_obeys (I := FileInv) _ (fun _ _ _ _ hi hok hs => hi.step hok hs) h
      hobeys hrun
    exact hinv.owes _ (List.mem_of_getElem? hend)

/-- In a run whose firings all find the running VMs below the lab they have captured, and keep
them there until they are found, every firing shuts down every VM that was running. -/
theorem watchdog_reaches_tree {H : Type} {wall : Bool} {as : List FileAction} {s : FileRun H}
    {os : List (Except LabError Unit)} (hok : (fileMachine H).Obeys FileRun.Tree (.start wall) as)
    (h : (fileMachine H).run (.start wall) as = some (s,os)) : WatchdogReaches s :=
  FileInv.reaches (Machine.run_obeys _ (fun _ _ _ _ hi hok hs => hi.step hok hs)
    (fileInv_start wall) hok h)

theorem watchdog_reaches_tree_sub_lab :
    ∃ (as : List FileAction) (s : FileRun Unit) (os : List (Except LabError Unit)),
      (fileMachine Unit).run (.start true) as = some (s,os) ∧
      s.watchdogs = [⟨0,.fired [0,1] [0,1]⟩] ∧ WatchdogReaches s := by
  obtain ⟨as,hok,hrun⟩ : ∃ as, (fileMachine Unit).Obeys FileRun.Tree (.start true) as ∧
      ((fileMachine Unit).run (.start true) as).map (fun q => q.1.watchdogs) =
        some [⟨0,.fired [0,1] [0,1]⟩] := by
    refine ⟨[.createVm 0 "a",.vm 0 .booted,.subLab 0 "n",.createVm 1 "b",.vm 1 .booted,
      .watchdog 0 .fire,.watchdog 0 .visit,.watchdog 0 .visit,.watchdog 0 .gathered,
      .watchdog 0 (.stop 0),.watchdog 0 (.stop 0),.watchdog 0 .joined],?_,by decide⟩
    refine .cons _ rfl trivial (.cons _ rfl trivial (.cons _ rfl ?_ (.cons _ rfl trivial
      (.cons _ rfl trivial (.cons _ rfl ?_ ?_)))))
    · intro node labs hl hn
      cases hl
      cases hn
    · intro w hw v hv
      cases hw
      obtain rfl | hv := List.mem_cons.mp hv
      · exact ⟨0,List.mem_singleton_self 0,0,.refl,by decide⟩
      · obtain rfl := List.mem_singleton.mp hv
        refine ⟨0,List.mem_singleton_self 0,1,.single ?_,by decide⟩
        exact List.mem_singleton_self 1
    · apply Machine.obeys_of_forall
      intro a ha t
      fin_cases ha <;> trivial
  obtain ⟨⟨s,os⟩,hrun,hw⟩ := Option.map_eq_some_iff.mp hrun
  exact ⟨as,s,os,hrun,hw,watchdog_reaches_tree hok hrun⟩

/-- A VM that a test creates in its scope lab is out of the reach of both watchdogs. -/
theorem test_vm_outlives_the_watchdog :
    ∃ (as : List FileAction) (s : FileRun Unit) (os : List (Except LabError Unit)),
      (fileMachine Unit).run (.start true) as = some (s,os) ∧
      s.watchdogs = [⟨0,.armed⟩,⟨0,.fired [0] []⟩] ∧ s.running = [0] ∧ ¬WatchdogReaches s := by
  refine ⟨[.beginTest "t" true,.createVm 1 "a",.vm 0 .booted,.watchdog 1 .fire,.watchdog 1 .visit,
    .watchdog 1 .gathered,.watchdog 1 .joined],_,_,rfl,rfl,by decide,?_⟩
  intro h
  have hw : (⟨0,.fired [0] []⟩ : Watchdog) ∈ [⟨0,.armed⟩,⟨0,.fired [0] []⟩] := by decide
  have hsub := h.fired _ hw [0] [] rfl
  cases hsub (List.mem_singleton_self 0)

end Reach
end Provium.Lab
