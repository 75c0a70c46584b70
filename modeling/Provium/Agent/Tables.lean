import Provium.Lib.Machine
import Provium.Lib.Table

/-! The agent's tables and the operations that connections run on them. An operation is the list of its
accesses to the tables, each of which is one critical section; between two of them any other connection
may come in. Files, processes and worker connections are whatever they are. -/
namespace Provium.Agent
open Lib

/-- `AgentState`: the counter and the four tables. Handles are their raw ids. -/
structure AgentState (F P W : Type) where
  nextHandle : ℕ
  files : Table ℕ F
  processes : Table ℕ P
  workers : Table ℕ W
  workerProcesses : Table ℕ (ℕ × ℕ)

namespace AgentState
variable {F P W : Type} (s : AgentState F P W)

def new : AgentState F P W := ⟨1,∅,∅,∅,∅⟩

/-- `alloc_id`: the counter is an `AtomicU64`. -/
def allocId : ℕ × AgentState F P W := (s.nextHandle,{ s with nextHandle := (s.nextHandle+1)%2^64 })

/-! What the methods do while they hold the lock; those that insert have drawn their id before. -/

def insertFile (id : ℕ) (f : F) : AgentState F P W := { s with files := s.files.insert id f }

def takeFile (h : ℕ) : AgentState F P W := { s with files := s.files.erase h }

def withFileMut (h : ℕ) (g : F → F) : AgentState F P W := { s with files := s.files.change g h }

def insertProcess (id : ℕ) (p : P) : AgentState F P W := { s with processes := s.processes.insert id p }

def takeProcess (h : ℕ) : AgentState F P W := { s with processes := s.processes.erase h }

def withProcessMut (h : ℕ) (g : P → P) : AgentState F P W := { s with processes := s.processes.change g h }

def insertWorkerConn (id : ℕ) (c : W) : AgentState F P W := { s with workers := s.workers.insert id c }

def removeWorkerConn (w : ℕ) : AgentState F P W := { s with workers := s.workers.erase w }

def insertWorkerProcess (id w inner : ℕ) : AgentState F P W :=
  { s with workerProcesses := s.workerProcesses.insert id (w,inner) }

def removeWorkerProcess (h : ℕ) : AgentState F P W := { s with workerProcesses := s.workerProcesses.erase h }

def removeWorkerProcessesOf (w : ℕ) : AgentState F P W :=
  { s with workerProcesses := s.workerProcesses.retain fun _ e => e.1 ≠ w }

end AgentState

/-- The operations, as a connection asks for them. `useFile` is one that reads or changes an open file,
`useProcess` one of `kill`, `get_pid`, `proc_stdin_write`, `proc_stdin_close`, `proc_status` and
`proc_stream`, `useWorker` one that is only relayed to a worker. -/
inductive Request where
  | openFile
  | close (h : ℕ)
  | useFile (h : ℕ)
  | runAsync
  | wait (h : ℕ)
  | useProcess (h : ℕ)
  | spawnWorker
  | useWorker (w : ℕ)
  | workerJoin (w : ℕ)
  | workerRunAsync (w : ℕ)
  deriving DecidableEq, Repr

/-- An operation in progress, by what it does next. -/
inductive Op (F P W : Type) where
  | idle
  | openFile
  | insertFile (id : ℕ) (f : F)
  | close (h : ℕ)
  | useFile (h : ℕ)
  | runAsync
  | insertProcess (id : ℕ) (p : P)
  | wait (h : ℕ)
  | takeProcess (h : ℕ)
  | workerWait (outer w inner : ℕ)
  | pollWorker (outer w inner : ℕ)
  | dropOuter (outer : ℕ)
  | useProcess (h : ℕ)
  | withProcess (h : ℕ)
  | relay (h w : ℕ)
  | spawnWorker
  | insertWorker (id : ℕ) (c : W)
  | useWorker (w : ℕ)
  | join (w : ℕ)
  | sweep (w : ℕ)
  | reap (w : ℕ)
  | workerRunAsync (w : ℕ)
  | relayRunAsync (w : ℕ)
  | fileOuter (w inner : ℕ)
  | insertOuter (id w inner : ℕ)

def Request.start {F P W : Type} : Request → Op F P W
  | openFile => .openFile
  | close h => .close h
  | useFile h => .useFile h
  | runAsync => .runAsync
  | wait h => .wait h
  | useProcess h => .useProcess h
  | spawnWorker => .spawnWorker
  | useWorker w => .useWorker w
  | workerJoin w => .join w
  | workerRunAsync w => .workerRunAsync w

/-- What comes from outside with a step: a request, what has been opened or spawned, what is done to an
entry and whether the operation goes on with it, and what a worker replies. -/
inductive Event (F P W : Type) where
  | ask (r : Request)
  | go
  | fail
  | file (f : F)
  | slot (p : P)
  | conn (c : W)
  | changeFile (g : F → F) (more : Bool)
  | changeProcess (g : P → P) (more : Bool)
  | inner (h : ℕ)
  | running
  | exited

/-- What a step shows: an id that has been drawn from the counter, a handle or a join that has been
replied. -/
inductive Note where
  | quiet
  | drawn (id : ℕ)
  | issued (id : ℕ)
  | joined (w : ℕ)
  deriving DecidableEq, Repr

/-- One access of an operation, with what the operation goes on to. -/
def access {F P W : Type} (s : AgentState F P W) : Op F P W → Event F P W →
    Option (AgentState F P W × Op F P W × Note)
  | .idle,.ask r => some (s,r.start,.quiet)
  | .openFile,.fail => some (s,.idle,.quiet)
  | .openFile,.file f => some (s.allocId.2,.insertFile s.allocId.1 f,.drawn s.allocId.1)
  | .insertFile id f,.go => some (s.insertFile id f,.idle,.issued id)
  | .close h,.go => some (s.takeFile h,.idle,.quiet)
  | .useFile h,.changeFile g more => some (s.withFileMut h g,if more then .useFile h else .idle,.quiet)
  | .runAsync,.fail => some (s,.idle,.quiet)
  | .runAsync,.slot p => some (s.allocId.2,.insertProcess s.allocId.1 p,.drawn s.allocId.1)
  | .insertProcess id p,.go => some (s.insertProcess id p,.idle,.issued id)
  | .wait h,.go =>
    match s.workerProcesses.lookup h with
    | some (w,inner) => some (s,.workerWait h w inner,.quiet)
    | none => some (s,.takeProcess h,.quiet)
  | .takeProcess h,.go => some (s.takeProcess h,.idle,.quiet)
  | .workerWait outer w inner,.go =>
    if w ∈ s.workers then some (s,.pollWorker outer w inner,.quiet) else some (s,.dropOuter outer,.quiet)
  | .pollWorker outer w inner,.running => some (s,.pollWorker outer w inner,.quiet)
  | .pollWorker _ _ _,.fail => some (s,.idle,.quiet)
  | .pollWorker outer _ _,.exited => some (s,.dropOuter outer,.quiet)
  | .dropOuter outer,.go => some (s.removeWorkerProcess outer,.idle,.quiet)
  | .useProcess h,.go =>
    match s.workerProcesses.lookup h with
    | some (w,_) => some (s,.relay h w,.quiet)
    | none => some (s,.withProcess h,.quiet)
  | .withProcess h,.changeProcess g more =>
    some (s.withProcessMut h g,if more then .withProcess h else .idle,.quiet)
  | .relay _ _,.go => some (s,.idle,.quiet)
  | .spawnWorker,.fail => some (s,.idle,.quiet)
  | .spawnWorker,.conn c => some (s.allocId.2,.insertWorker s.allocId.1 c,.drawn s.allocId.1)
  | .insertWorker id c,.go => some (s.insertWorkerConn id c,.idle,.issued id)
  | .useWorker _,.go => some (s,.idle,.quiet)
  | .join w,.go =>
    if w ∈ s.workers then some (s.removeWorkerConn w,.sweep w,.quiet) else some (s,.idle,.quiet)
  | .sweep w,.go => some (s.removeWorkerProcessesOf w,.reap w,.quiet)
  | .reap w,.go => some (s,.idle,.joined w)
  | .workerRunAsync w,.go =>
    if w ∈ s.workers then some (s,.relayRunAsync w,.quiet) else some (s,.idle,.quiet)
  | .relayRunAsync _,.fail => some (s,.idle,.quiet)
  | .relayRunAsync w,.inner inner => some (s,.fileOuter w inner,.quiet)
  | .fileOuter w inner,.go => some (s.allocId.2,.insertOuter s.allocId.1 w inner,.drawn s.allocId.1)
  | .insertOuter id w inner,.go => some (s.insertWorkerProcess id w inner,.idle,.issued id)
  | _,_ => none

namespace Op
variable {F P W : Type}

/-- The handle that an operation names. -/
def named : Op F P W → Option ℕ
  | close h => some h
  | useFile h => some h
  | wait h => some h
  | takeProcess h => some h
  | workerWait outer _ _ => some outer
  | pollWorker outer _ _ => some outer
  | dropOuter outer => some outer
  | useProcess h => some h
  | withProcess h => some h
  | relay h _ => some h
  | useWorker w => some w
  | join w => some w
  | sweep w => some w
  | reap w => some w
  | workerRunAsync w => some w
  | relayRunAsync w => some w
  | fileOuter w _ => some w
  | insertOuter _ w _ => some w
  | _ => none

/-- The id that an operation has drawn and not yet filed anything under. -/
def held : Op F P W → Option ℕ
  | insertFile id _ => some id
  | insertProcess id _ => some id
  | insertWorker id _ => some id
  | insertOuter id _ _ => some id
  | _ => none

/-- The worker that a join has removed and the processes of which it is still to remove. -/
def sweeping : Op F P W → Option ℕ
  | sweep w => some w
  | _ => none

/-- The worker that a join has removed. -/
def joining : Op F P W → Option ℕ
  | sweep w => some w
  | reap w => some w
  | _ => none

end Op

/-- What an access does to the tables, by the operation before and after it. -/
inductive Effect {F P W : Type} (s : AgentState F P W) : Op F P W → Op F P W → AgentState F P W → Note → Prop
  | keep {p p' : Op F P W} (hp : p.held = none) (hp' : p'.held = none) (hs : p.joining = none)
      (hs' : p'.joining = none) : Effect s p p' s .quiet
  | draw {p p' : Op F P W} (hp : p.held = none) (hp' : p'.held = some s.nextHandle) (hs : p.joining = none)
      (hs' : p'.joining = none) : Effect s p p' s.allocId.2 (.drawn s.nextHandle)
  | insertFile (id : ℕ) (f : F) : Effect s (.insertFile id f) .idle (s.insertFile id f) (.issued id)
  | takeFile (h : ℕ) : Effect s (.close h) .idle (s.takeFile h) .quiet
  | withFileMut {p' : Op F P W} (h : ℕ) (g : F → F) (hp' : p'.held = none) (hs' : p'.joining = none) :
      Effect s (.useFile h) p' (s.withFileMut h g) .quiet
  | insertProcess (id : ℕ) (p : P) : Effect s (.insertProcess id p) .idle (s.insertProcess id p) (.issued id)
  | takeProcess (h : ℕ) : Effect s (.takeProcess h) .idle (s.takeProcess h) .quiet
  | withProcessMut {p' : Op F P W} (h : ℕ) (g : P → P) (hp' : p'.held = none) (hs' : p'.joining = none) :
      Effect s (.withProcess h) p' (s.withProcessMut h g) .quiet
  | insertWorker (id : ℕ) (c : W) :
      Effect s (.insertWorker id c) .idle (s.insertWorkerConn id c) (.issued id)
  | removeWorker (w : ℕ) (hw : w ∈ s.workers) : Effect s (.join w) (.sweep w) (s.removeWorkerConn w) .quiet
  | sweep (w : ℕ) : Effect s (.sweep w) (.reap w) (s.removeWorkerProcessesOf w) .quiet
  | joined (w : ℕ) : Effect s (.reap w) .idle s (.joined w)
  | insertOuter (id w inner : ℕ) :
      Effect s (.insertOuter id w inner) .idle (s.insertWorkerProcess id w inner) (.issued id)
  | dropOuter (outer : ℕ) : Effect s (.dropOuter outer) .idle (s.removeWorkerProcess outer) .quiet

section
variable {F P W : Type}

theorem Request.start_held (r : Request) : (r.start : Op F P W).held = none := by cases r <;> rfl

theorem Request.start_joining (r : Request) : (r.start : Op F P W).joining = none := by cases r <;> rfl

theorem access_effect {s s' : AgentState F P W} {p p' : Op F P W} {e : Event F P W} {o : Note}
    (h : access s p e = some (s',p',o)) : Effect s p p' s' o := by
  cases p with
  | idle =>
    cases e <;> cases h
    exact .keep rfl (Request.start_held _) rfl (Request.start_joining _)
  | openFile =>
    cases e <;> cases h
    · exact .keep rfl rfl rfl rfl
    · exact .draw rfl rfl rfl rfl
  | insertFile id f =>
    cases e <;> cases h
    exact .insertFile id f
  | close k =>
    cases e <;> cases h
    exact .takeFile k
  | useFile k =>
    cases e <;> cases h
    next g more => exact .withFileMut k g (by cases more <;> rfl) (by cases more <;> rfl)
  | runAsync =>
    cases e <;> cases h
    · exact .keep rfl rfl rfl rfl
    · exact .draw rfl rfl rfl rfl
  | insertProcess id c =>
    cases e <;> cases h
    exact .insertProcess id c
  | wait k =>
    cases e <;> try cases h
    simp only [access] at h
    split at h <;> cases h <;> exact .keep rfl rfl rfl rfl
  | takeProcess k =>
    cases e <;> cases h
    exact .takeProcess k
  | workerWait outer w inner =>
    cases e <;> try cases h
    simp only [access] at h
    split at h <;> cases h <;> exact .keep rfl rfl rfl rfl
  | pollWorker outer w inner =>
    cases e <;> cases h <;> exact .keep rfl rfl rfl rfl
  | dropOuter outer =>
    cases e <;> cases h
    exact .dropOuter outer
  | useProcess k =>
    cases e <;> try cases h
    simp only [access] at h
    split at h <;> cases h <;> exact .keep rfl rfl rfl rfl
  | withProcess k =>
    cases e <;> cases h
    next g more => exact .withProcessMut k g (by cases more <;> rfl) (by cases more <;> rfl)
  | relay k w =>
    cases e <;> cases h
    exact .keep rfl rfl rfl rfl
  | spawnWorker =>
    cases e <;> cases h
    · exact .keep rfl rfl rfl rfl
    · exact .draw rfl rfl rfl rfl
  | insertWorker id c =>
    cases e <;> cases h
    exact .insertWorker id c
  | useWorker w =>
    cases e <;> cases h
    exact .keep rfl rfl rfl rfl
  | join w =>
    cases e <;> try cases h
    simp only [access] at h
    split at h <;> cases h
    · next hw => exact .removeWorker w hw
    · exact .keep rfl rfl rfl rfl
  | sweep w =>
    cases e <;> cases h
    exact .sweep w
  | reap w =>
    cases e <;> cases h
    exact .joined w
  | workerRunAsync w =>
    cases e <;> try cases h
    simp only [access] at h
    split at h <;> cases h <;> exact .keep rfl rfl rfl rfl
  | relayRunAsync w =>
    cases e <;> cases h <;> exact .keep rfl rfl rfl rfl
  | fileOuter w inner =>
    cases e <;> cases h
    exact .draw rfl rfl rfl rfl
  | insertOuter id w inner =>
    cases e <;> cases h
    exact .insertOuter id w inner

end

/-- The agent with what its connections are doing. -/
structure Connections (F P W : Type) where
  state : AgentState F P W
  op : ℕ → Op F P W

namespace Connections
variable {F P W : Type}

def start : Connections F P W := ⟨.new,fun _ => .idle⟩

/-- Connection `t` makes its next access. -/
def step (c : Connections F P W) (a : ℕ × Event F P W) : Option (Connections F P W × Note) :=
  (access c.state (c.op a.1) a.2).map fun q => (⟨q.1,Function.update c.op a.1 q.2.1⟩,q.2.2)

def machine (F P W : Type) : Machine (Connections F P W) (ℕ × Event F P W) Note := ⟨step⟩

/-- Every step is one access of one operation. -/
theorem step_effect {c c' : Connections F P W} {a : ℕ × Event F P W} {o : Note}
    (h : (machine F P W).step c a = some (c',o)) :
    ∃ s' p', c' = ⟨s',Function.update c.op a.1 p'⟩ ∧ Effect c.state (c.op a.1) p' s' o := by
  obtain ⟨⟨s',p',o'⟩,hq,hc⟩ := Option.map_eq_some_iff.mp h
  cases hc
  exact ⟨s',p',rfl,access_effect hq⟩

end Connections

end Provium.Agent
