import Provium.Agent.Process

/-! Processes that a worker has spawned. The parent files them under handles of its own and relays the
process operations, all but `Wait` as they are; `Wait` it polls for. The signals of a relayed operation are
sent by the worker, with the credentials that it has then. -/
namespace Provium.Agent
open Lib

/-- An agent's own processes, the processes of its workers by the worker and the handle there, and the
process tables of the workers that are alive. A worker has no workers itself. -/
structure ProcAgent (σ : Type) where
  processes : Processes σ
  workerProcesses : Table ℕ (ℕ × ℕ)
  workers : Table ℕ (Processes σ)

section
variable {σ : Type} (os : ChildOs σ)

/-- `worker_gone` -/
def workerGone (op : String) (w : ℕ) : AgentMessage :=
  .agentError .unknownHandle ⟨op++": the process was spawned by ",some w,", which has been joined"⟩

def ProcOp.name : ProcOp → String
  | kill _ => "kill"
  | getPid => "get_pid"
  | procStatus => "proc_status"
  | procStdinWrite _ => "proc_stdin_write"
  | procStdinClose => "proc_stdin_close"
  | wait _ => "wait"

/-- `relay`: the worker, which is alive, runs the operation on its own table. -/
def relay (fuel w inner : ℕ) (op : ProcOp) (table : Processes σ) (a : ProcAgent σ) :
    Option ((AgentMessage × Option σ) × ProcAgent σ) :=
  (onTable os fuel inner op table).map fun (r,table) => (r,{ a with workers := a.workers.insert w table })

/-- `relay_process_op` -/
def relayProcessOp (fuel w inner : ℕ) (op : ProcOp) (a : ProcAgent σ) :
    Option ((AgentMessage × Option σ) × ProcAgent σ) :=
  match a.workers.lookup w with
  | none => some ((workerGone op.name w,none),a)
  | some table => relay os fuel w inner op table a

/-- Time passes for a process of a worker. -/
def ProcAgent.sleep (a : ProcAgent σ) (w inner : ℕ) : ProcAgent σ :=
  { a with workers := a.workers.change (fun table => table.change (fun slot =>
    { slot with state := os.sleep slot.state }) inner) w }

/-- `AgentMessage::kind` -/
def AgentMessage.kind : AgentMessage → String
  | waitResult _ => "wait_result"
  | killResult _ => "kill_result"
  | getPidResult _ => "get_pid_result"
  | procStatusResult _ => "proc_status_result"
  | procStdinWriteResult _ => "proc_stdin_write_result"
  | procStdinCloseResult => "proc_stdin_close_result"
  | agentError _ _ => "agent_error"

/-- `relay_shape_err` -/
def relayShapeErr (op : String) (got : AgentMessage) : AgentMessage :=
  .agentError .badRequest ⟨op++": unexpected reply shape from worker: "++got.kind,none,""⟩

/-- What the polling of `worker_wait` ends with: the process is no longer running, the deadline has passed,
or a reply that cannot be understood. -/
inductive Polled where
  | ready
  | timedOut
  | shape (m : AgentMessage)

/-- The polling of `worker_wait`. Without a deadline it goes on for as long as the bound lets it. -/
def pollWorker (fuel w inner : ℕ) (timed : Bool) : ℕ → ProcAgent σ → Option (Polled × ProcAgent σ)
  | n,a =>
    (relayProcessOp os fuel w inner .procStatus a).bind fun ((m,_),a) =>
      match m with
      | .procStatusResult .running =>
        match n with
        | 0 => if timed then some (.timedOut,a) else none
        | k+1 => pollWorker fuel w inner timed k (a.sleep os w inner)
      | .procStatusResult _ => some (.ready,a)
      | other => some (.shape other,a)

/-- `worker_wait` -/
def workerWait (fuel outer w inner : ℕ) (timeoutMs : Option ℕ) (a : ProcAgent σ) :
    Option ((AgentMessage × Option σ) × ProcAgent σ) :=
  if w ∈ a.workers then
    let n := match timeoutMs with
      | some ms => polls ms
      | none => fuel
    (pollWorker os fuel w inner timeoutMs.isSome n a).bind fun (polled,a) =>
      let finish (capMs : Option ℕ) :=
        (relayProcessOp os fuel w inner (.wait capMs) a).map fun (r,a) =>
          (r,{ a with workerProcesses := a.workerProcesses.erase outer })
      match polled with
      | .ready => finish none
      | .timedOut => finish (some 0)
      | .shape m => some ((relayShapeErr "wait" m,none),a)
  else some ((workerGone "wait" w,none),{ a with workerProcesses := a.workerProcesses.erase outer })

/-- The same child for a process whose signals do this. -/
def ChildOs.sentBy (sent : Signals σ) : ChildOs σ := { os with toSignals := sent }

/-- A process operation that a connection asks the agent for, while the signals of the workers do this. -/
def ProcAgent.call (fuel h : ℕ) (sent : Signals σ) (op : ProcOp) (a : ProcAgent σ) :
    Option ((AgentMessage × Option σ) × ProcAgent σ) :=
  match a.workerProcesses.lookup h with
  | some (w,inner) =>
    match op with
    | .wait timeoutMs => workerWait (os.sentBy sent) fuel h w inner timeoutMs a
    | op => relayProcessOp (os.sentBy sent) fuel w inner op a
  | none => (onTable os fuel h op a.processes).map fun (r,m) => (r,{ a with processes := m })

/-- One operation after the other on one handle, with the reply of each, up to one that does not return. -/
def ProcAgent.calls (fuel h : ℕ) :
    List (Signals σ × ProcOp) → ProcAgent σ → List (Option (AgentMessage × Option σ))
  | [],_ => []
  | (sent,op)::ops,a =>
    match a.call os fuel h sent op with
    | none => [none]
    | some (r,a) => some r::ProcAgent.calls fuel h ops a

/-- `insert_process`, under a handle that has been drawn for it. -/
def ProcAgent.insertProcess (a : ProcAgent σ) (h : ℕ) (s : σ) : ProcAgent σ :=
  { a with processes := a.processes.insert h ⟨s,true,true⟩ }

/-- `worker_run_async` when the worker has spawned the child: it is in the worker's table under `inner`,
and in `worker_processes` under a handle that has been drawn for it. -/
def ProcAgent.insertWorkerProcess (a : ProcAgent σ) (outer w inner : ℕ) (s : σ) : ProcAgent σ :=
  { a with
    workers := a.workers.change (fun table => table.insert inner ⟨s,true,true⟩) w
    workerProcesses := a.workerProcesses.insert outer (w,inner) }

end

/-! The two ways to poll. -/

section
variable {σ : Type} {os : ChildOs σ}

/-- What a child is polled for and how it is left, after so many sleeps at most. -/
def pollUntil (os : ChildOs σ) : ℕ → σ → TryWait × σ
  | n,s =>
    match os.tryWait s with
    | (.running,s) =>
      match n with
      | 0 => (.running,s)
      | k+1 => pollUntil os k (os.sleep s)
    | (.exited st,s) => (.exited st,s)
    | (.failed e,s) => (.failed e,s)

/-- Another look sees the same. -/
theorem pollUntil_stable (hstable : os.Stable) (n : ℕ) (s : σ) :
    os.tryWait (pollUntil os n s).2 = pollUntil os n s := by
  have hlook := hstable s
  induction n generalizing s with
  | zero =>
    rw [pollUntil]
    rcases hs : os.tryWait s with ⟨p,s'⟩
    rw [hs] at hlook
    cases p <;> exact hlook
  | succ k ih =>
    rw [pollUntil]
    rcases hs : os.tryWait s with ⟨p,s'⟩
    rw [hs] at hlook
    cases p with
    | running => exact ih (os.sleep s') (hstable _)
    | exited st | failed e => exact hlook

theorem wait_eq_pollUntil (fuel : ℕ) (s : σ) : os.wait fuel s = match pollUntil os fuel s with
    | (.exited st,s) => some (.ok st,s)
    | (.failed e,s) => some (.error e,s)
    | (.running,_) => none := by
  induction fuel generalizing s with
  | zero =>
    rw [ChildOs.wait,pollUntil]
    rcases os.tryWait s with ⟨p,s'⟩
    cases p <;> rfl
  | succ k ih =>
    rw [ChildOs.wait,pollUntil]
    rcases os.tryWait s with ⟨p,s'⟩
    cases p with
    | running => exact ih (os.sleep s')
    | exited st | failed e => rfl

theorem waitWithTimeout_eq_pollUntil (fuel n : ℕ) (s : σ) :
    waitWithTimeout os fuel n s = match pollUntil os n s with
    | (.exited st,s) => some (.ok st,false,s)
    | (.failed e,s) => some (.error e,false,s)
    | (.running,s) => (os.wait fuel (os.killGroup s)).map fun (r,s) => (r,true,s) := by
  induction n generalizing s with
  | zero =>
    rw [waitWithTimeout,pollUntil]
    rcases os.tryWait s with ⟨p,s'⟩
    cases p <;> rfl
  | succ k ih =>
    rw [waitWithTimeout,pollUntil]
    rcases os.tryWait s with ⟨p,s'⟩
    cases p with
    | running => exact ih (os.sleep s')
    | exited st | failed e => rfl

/-! What is relayed to a worker that is alive. -/

theorem relayProcessOp_alive {fuel w inner : ℕ} {op : ProcOp} {a : ProcAgent σ} {table : Processes σ}
    {slot : Slot σ} (hw : a.workers.lookup w = some table) (hslot : table.lookup inner = some slot) :
    relayProcessOp os fuel w inner op a = (onSlot os fuel inner op slot).map fun (r,left) =>
      (r,{ a with workers := a.workers.insert w (table.put inner left) }) := by
  rw [relayProcessOp,hw]
  simp only [relay,onTable,hslot,Option.map_map]
  rfl

/-- A process of a worker that is alive. -/
structure Served (a : ProcAgent σ) (outer w inner : ℕ) (slot : Slot σ) : Prop where
  filed : a.workerProcesses.lookup outer = some (w,inner)
  alive : ∃ table, a.workers.lookup w = some table ∧ table.lookup inner = some slot
  free : a.processes.lookup outer = none

theorem Served.put {a : ProcAgent σ} {outer w inner : ℕ} {slot : Slot σ} (h : Served a outer w inner slot)
    (table : Processes σ) (left : Slot σ) :
    Served { a with workers := a.workers.insert w (table.put inner (some left)) } outer w inner left :=
  ⟨h.filed,⟨_,AList.lookup_insert _,lookup_put ..⟩,h.free⟩

theorem Served.sleep {a : ProcAgent σ} {outer w inner : ℕ} {slot : Slot σ} (h : Served a outer w inner slot) :
    Served (a.sleep os w inner) outer w inner { slot with state := os.sleep slot.state } := by
  obtain ⟨hfiled,⟨table,hw,hslot⟩,hfree⟩ := h
  refine ⟨hfiled,⟨Table.change (fun slot => { slot with state := os.sleep slot.state }) table inner,?_,?_⟩,
    hfree⟩
  · change (Table.change _ a.workers w).lookup w = _
    rw [Table.change,hw]
    exact AList.lookup_insert _
  · rw [Table.change,hslot]
    exact AList.lookup_insert _

/-- A look through the relay is a look at the child. -/
theorem Served.look (os : ChildOs σ) (fuel : ℕ) {a : ProcAgent σ} {outer w inner : ℕ} {s : σ} {stdin : Bool}
    (h : Served a outer w inner ⟨s,true,stdin⟩) :
    ∃ a', relayProcessOp os fuel w inner .procStatus a =
        some (((procStatusSlot os (⟨s,true,stdin⟩ : Slot σ)).1,none),a') ∧
      Served a' outer w inner ⟨(os.tryWait s).2,true,stdin⟩ := by
  obtain ⟨table,hw,hslot⟩ := h.alive
  have hleft : (procStatusSlot os (⟨s,true,stdin⟩ : Slot σ)).2 = ⟨(os.tryWait s).2,true,stdin⟩ := by
    simp only [procStatusSlot,if_true]
    rcases os.tryWait s with ⟨p,s'⟩
    cases p <;> rfl
  refine ⟨_,?_,h.put table ⟨(os.tryWait s).2,true,stdin⟩⟩
  rw [relayProcessOp_alive hw hslot,← hleft]
  rfl

/-- Polling the worker is polling the child. -/
theorem pollWorker_served (fuel : ℕ) {outer w inner : ℕ} (timed : Bool) (n : ℕ) {a : ProcAgent σ} {s : σ}
    {stdin : Bool} (h : Served a outer w inner ⟨s,true,stdin⟩) :
    (timed = false ∧ (pollUntil os n s).1 = .running ∧ pollWorker os fuel w inner timed n a = none) ∨
      ∃ a', Served a' outer w inner ⟨(pollUntil os n s).2,true,stdin⟩ ∧
        ((pollUntil os n s).1 = .running ∧ timed = true ∧
            pollWorker os fuel w inner timed n a = some (.timedOut,a') ∨
          (pollUntil os n s).1 ≠ .running ∧ pollWorker os fuel w inner timed n a = some (.ready,a')) := by
  induction n generalizing a s with
  | zero =>
    obtain ⟨a',hlook,hserved⟩ := h.look os fuel
    rw [pollWorker,hlook,pollUntil]
    simp only [procStatusSlot,if_true]
    rcases hs : os.tryWait s with ⟨p,s'⟩
    rw [hs] at hserved
    cases p with
    | running =>
      cases timed with
      | true => exact .inr ⟨_,hserved,.inl ⟨rfl,rfl,rfl⟩⟩
      | false => exact .inl ⟨rfl,rfl,rfl⟩
    | exited st | failed e => exact .inr ⟨_,hserved,.inr ⟨(fun h => by cases h),rfl⟩⟩
  | succ k ih =>
    obtain ⟨a',hlook,hserved⟩ := h.look os fuel
    rw [pollWorker,hlook,pollUntil]
    simp only [procStatusSlot,if_true]
    rcases hs : os.tryWait s with ⟨p,s'⟩
    rw [hs] at hserved
    cases p with
    | running => exact ih hserved.sleep
    | exited st | failed e => exact .inr ⟨_,hserved,.inr ⟨(fun h => by cases h),rfl⟩⟩

/-- Where polling has found the child no longer running, `Child::wait` returns at once. -/
theorem wait_of_polled (hstable : os.Stable) (fuel n : ℕ) (s : σ) :
    os.wait fuel (pollUntil os n s).2 = match pollUntil os n s with
      | (.exited st,s) => some (.ok st,s)
      | (.failed e,s) => some (.error e,s)
      | (.running,s) => os.wait fuel s := by
  have hlook := pollUntil_stable hstable n s
  rcases hp : pollUntil os n s with ⟨p,s'⟩
  rw [hp] at hlook
  cases p with
  | running => rfl
  | exited st | failed e =>
    cases fuel <;> rw [ChildOs.wait,hlook]

/-- A deadline that has passed kills the group of a child that is running. -/
theorem waitWithTimeout_zero (hstable : os.Stable) (fuel n : ℕ) (s : σ)
    (hrunning : (pollUntil os n s).1 = .running) :
    waitWithTimeout os fuel (polls 0) (pollUntil os n s).2 =
      (os.wait fuel (os.killGroup (pollUntil os n s).2)).map fun (r,s) => (r,true,s) := by
  have hlook := pollUntil_stable hstable n s
  change waitWithTimeout os fuel 0 _ = _
  rw [waitWithTimeout,hlook]
  rcases hp : pollUntil os n s with ⟨p,s'⟩
  rw [hp] at hrunning
  obtain rfl : p = .running := hrunning
  rfl

/-- How often a wait polls before its deadline. -/
def pollsOf (fuel : ℕ) : Option ℕ → ℕ
  | some ms => polls ms
  | none => fuel

/-- A wait for a child that polling has found no longer running comes to what the wait would have come to. -/
theorem waitSlot_ready (hstable : os.Stable) (fuel : ℕ) (timeoutMs : Option ℕ) (s : σ) (stdin : Bool)
    (hready : (pollUntil os (pollsOf fuel timeoutMs) s).1 ≠ .running) :
    waitSlot os fuel none ⟨(pollUntil os (pollsOf fuel timeoutMs) s).2,true,stdin⟩ =
      waitSlot os fuel timeoutMs ⟨s,true,stdin⟩ := by
  cases timeoutMs with
  | none =>
    simp only [waitSlot,if_true,wait_of_polled hstable,wait_eq_pollUntil fuel s,pollsOf]
    rcases hp : pollUntil os fuel s with ⟨p,s'⟩
    cases p with
    | running => exact absurd (congrArg Prod.fst hp) hready
    | exited st | failed e => rfl
  | some ms =>
    simp only [waitSlot,if_true,wait_of_polled hstable,waitWithTimeout_eq_pollUntil fuel (polls ms) s,pollsOf]
    rcases hp : pollUntil os (polls ms) s with ⟨p,s'⟩
    cases p with
    | running => exact absurd (congrArg Prod.fst hp) hready
    | exited st | failed e => rfl

/-- A wait with no time left, for a child that was running at the deadline, comes to what the wait would have
come to. -/
theorem waitSlot_expired (hstable : os.Stable) (fuel ms : ℕ) (s : σ) (stdin : Bool)
    (hrunning : (pollUntil os (polls ms) s).1 = .running) :
    waitSlot os fuel (some 0) ⟨(pollUntil os (polls ms) s).2,true,stdin⟩ =
      waitSlot os fuel (some ms) ⟨s,true,stdin⟩ := by
  simp only [waitSlot,if_true,waitWithTimeout_zero hstable fuel _ s hrunning,
    waitWithTimeout_eq_pollUntil fuel (polls ms) s]
  rcases hp : pollUntil os (polls ms) s with ⟨p,s'⟩
  rw [hp] at hrunning
  obtain rfl : p = .running := hrunning
  rfl

/-- A wait without a deadline for a child that never stops does not return. -/
theorem waitSlot_running (fuel : ℕ) (s : σ) (stdin : Bool) (hrunning : (pollUntil os fuel s).1 = .running) :
    waitSlot os fuel none ⟨s,true,stdin⟩ = none := by
  rw [waitSlot,wait_eq_pollUntil]
  rcases hp : pollUntil os fuel s with ⟨p,s'⟩
  rw [hp] at hrunning
  obtain rfl : p = .running := hrunning
  rfl

/-- The one `Wait` at the worker that the polling ends with takes the process off, here and there. -/
theorem Served.collect (os : ChildOs σ) (fuel : ℕ) (capMs : Option ℕ) {a : ProcAgent σ} {outer w inner : ℕ}
    {slot : Slot σ} (h : Served a outer w inner slot) :
    ∃ a' : ProcAgent σ, a'.workerProcesses.lookup outer = none ∧ a'.processes.lookup outer = none ∧
      ((relayProcessOp os fuel w inner (.wait capMs) a).map fun (r,a) =>
        (r,{ a with workerProcesses := a.workerProcesses.erase outer })) =
        (waitSlot os fuel capMs slot).map (·,a') := by
  obtain ⟨table,hw,hslot⟩ := h.alive
  refine ⟨{ a with
    workers := a.workers.insert w (table.put inner none)
    workerProcesses := a.workerProcesses.erase outer },AList.lookup_erase _ _,h.free,?_⟩
  rw [relayProcessOp_alive hw hslot]
  simp only [onSlot,Option.map_map]
  rfl

/-- When the polling has ended there is one `Wait` at the worker left to do. -/
theorem workerWait_of_polled {fuel outer w inner : ℕ} {timeoutMs : Option ℕ} {a a' : ProcAgent σ}
    {polled : Polled} {capMs : Option ℕ} (halive : w ∈ a.workers)
    (hpoll : pollWorker os fuel w inner timeoutMs.isSome (pollsOf fuel timeoutMs) a = some (polled,a'))
    (hcap : polled = .ready ∧ capMs = none ∨ polled = .timedOut ∧ capMs = some 0) :
    workerWait os fuel outer w inner timeoutMs a = (relayProcessOp os fuel w inner (.wait capMs) a').map fun (r,a) =>
      (r,{ a with workerProcesses := a.workerProcesses.erase outer }) := by
  unfold workerWait
  rw [if_pos halive]
  change (pollWorker os fuel w inner timeoutMs.isSome (pollsOf fuel timeoutMs) a).bind _ = _
  rw [hpoll]
  obtain ⟨rfl,rfl⟩ | ⟨rfl,rfl⟩ := hcap
  · rfl
  · rfl

theorem workerWait_of_not_polled {fuel outer w inner : ℕ} {timeoutMs : Option ℕ} {a : ProcAgent σ}
    (halive : w ∈ a.workers)
    (hpoll : pollWorker os fuel w inner timeoutMs.isSome (pollsOf fuel timeoutMs) a = none) :
    workerWait os fuel outer w inner timeoutMs a = none := by
  unfold workerWait
  rw [if_pos halive]
  change (pollWorker os fuel w inner timeoutMs.isSome (pollsOf fuel timeoutMs) a).bind _ = _
  rw [hpoll]
  rfl

/-- `worker_wait` on a process comes to what `wait` on its slot comes to, and leaves no handle. -/
theorem workerWait_served (hstable : os.Stable) (fuel : ℕ) {outer w inner : ℕ} (timeoutMs : Option ℕ)
    {a : ProcAgent σ} {s : σ} {stdin : Bool} (h : Served a outer w inner ⟨s,true,stdin⟩) :
    (waitSlot os fuel timeoutMs ⟨s,true,stdin⟩ = none ∧ workerWait os fuel outer w inner timeoutMs a = none) ∨
      ∃ r a', waitSlot os fuel timeoutMs ⟨s,true,stdin⟩ = some r ∧
        workerWait os fuel outer w inner timeoutMs a = some (r,a') ∧
        a'.workerProcesses.lookup outer = none ∧ a'.processes.lookup outer = none := by
  obtain ⟨table,hw,-⟩ := h.alive
  have halive : w ∈ a.workers := AList.lookup_isSome.mp (Option.isSome_of_eq_some hw)
  have hdone : ∀ (o : Option (AgentMessage × Option σ)) (a'' : ProcAgent σ),
      a''.workerProcesses.lookup outer = none → a''.processes.lookup outer = none →
      waitSlot os fuel timeoutMs ⟨s,true,stdin⟩ = o →
      workerWait os fuel outer w inner timeoutMs a = o.map (·,a'') →
      (waitSlot os fuel timeoutMs ⟨s,true,stdin⟩ = none ∧
          workerWait os fuel outer w inner timeoutMs a = none) ∨
        ∃ r a', waitSlot os fuel timeoutMs ⟨s,true,stdin⟩ = some r ∧
          workerWait os fuel outer w inner timeoutMs a = some (r,a') ∧
          a'.workerProcesses.lookup outer = none ∧ a'.processes.lookup outer = none := by
    intro o a'' hfiled hfree hwait hworker
    cases o with
    | none => exact .inl ⟨hwait,hworker⟩
    | some r => exact .inr ⟨r,a'',hwait,hworker,hfiled,hfree⟩
  obtain ⟨htimed,hrunning,hpoll⟩ | ⟨a',hserved,⟨hrunning,htimed,hpoll⟩ | ⟨hready,hpoll⟩⟩ :=
    pollWorker_served fuel timeoutMs.isSome (pollsOf fuel timeoutMs) h
  · obtain rfl := Option.isSome_eq_false_iff.mp htimed |> Option.isNone_iff_eq_none.mp
    exact .inl ⟨waitSlot_running fuel s stdin hrunning,workerWait_of_not_polled halive hpoll⟩
  · obtain ⟨ms,rfl⟩ := Option.isSome_iff_exists.mp htimed
    obtain ⟨a'',hfiled,hfree,hcollect⟩ := hserved.collect os fuel (some 0)
    refine hdone _ a'' hfiled hfree (waitSlot_expired hstable fuel ms s stdin hrunning).symm ?_
    rw [workerWait_of_polled halive hpoll (.inr ⟨rfl,rfl⟩)]
    exact hcollect
  · obtain ⟨a'',hfiled,hfree,hcollect⟩ := hserved.collect os fuel none
    refine hdone _ a'' hfiled hfree (waitSlot_ready hstable fuel timeoutMs s stdin hready).symm ?_
    rw [workerWait_of_polled halive hpoll (.inl ⟨rfl,rfl⟩)]
    exact hcollect

/-! A local process and one of a worker, side by side. -/

/-- Nothing is filed under a handle. -/
structure Free (a : ProcAgent σ) (h : ℕ) : Prop where
  foreign : a.workerProcesses.lookup h = none
  own : a.processes.lookup h = none

/-- A process of the agent's own. -/
structure Owned (a : ProcAgent σ) (h : ℕ) (slot : Slot σ) : Prop where
  foreign : a.workerProcesses.lookup h = none
  own : a.processes.lookup h = some slot

theorem call_free {fuel h : ℕ} {sent : Signals σ} {op : ProcOp} {a : ProcAgent σ} (hfree : Free a h) :
    a.call os fuel h sent op = some ((missing h op,none),a) := by
  rw [ProcAgent.call,hfree.foreign]
  simp only [onTable,hfree.own,Option.map_some]

theorem call_owned {fuel h : ℕ} {sent : Signals σ} {op : ProcOp} {a : ProcAgent σ} {slot : Slot σ}
    (howned : Owned a h slot) : a.call os fuel h sent op = (onSlot os fuel h op slot).map fun (r,left) =>
      (r,{ a with processes := a.processes.put h left }) := by
  rw [ProcAgent.call,howned.foreign]
  simp only [onTable,howned.own,Option.map_map]
  rfl

theorem call_served {fuel outer w inner : ℕ} {sent : Signals σ} {op : ProcOp} {a : ProcAgent σ} {slot : Slot σ}
    (hserved : Served a outer w inner slot) (hop : ∀ t, op ≠ .wait t) :
    ∃ table : Processes σ, a.call os fuel outer sent op =
      (onSlot (os.sentBy sent) fuel inner op slot).map fun (r,left) =>
      (r,{ a with workers := a.workers.insert w (table.put inner left) }) := by
  obtain ⟨table,hw,hslot⟩ := hserved.alive
  refine ⟨table,?_⟩
  rw [← relayProcessOp_alive hw hslot,ProcAgent.call,hserved.filed]
  cases op with
  | wait t => exact absurd rfl (hop t)
  | kill | getPid | procStatus | procStdinWrite | procStdinClose => rfl

/-- Only `wait` takes a child out of its slot. -/
theorem onSlot_left {fuel h : ℕ} {op : ProcOp} {s : σ} {stdin : Bool}
    {q : (AgentMessage × Option σ) × Option (Slot σ)} (hop : ∀ t, op ≠ .wait t)
    (hq : onSlot os fuel h op ⟨s,true,stdin⟩ = some q) : ∃ s' stdin', q.2 = some ⟨s',true,stdin'⟩ := by
  cases op with
  | kill signal =>
    cases hq
    simp only [killSlot,if_true]
    split
    · exact ⟨_,_,rfl⟩
    · split <;> exact ⟨_,_,rfl⟩
  | getPid =>
    cases hq
    exact ⟨s,stdin,rfl⟩
  | procStatus =>
    cases hq
    simp only [procStatusSlot,if_true]
    split <;> exact ⟨_,_,rfl⟩
  | procStdinWrite data =>
    cases stdin with
    | false =>
      cases hq
      exact ⟨s,false,rfl⟩
    | true =>
      simp only [onSlot,procStdinWriteSlot,if_true,Option.map_map,Option.map_eq_some_iff] at hq
      obtain ⟨⟨r,s'⟩,-,rfl⟩ := hq
      exact ⟨s',true,rfl⟩
  | procStdinClose =>
    cases hq
    cases stdin with
    | false => exact ⟨s,false,rfl⟩
    | true => exact ⟨_,false,rfl⟩
  | wait t => exact absurd rfl (hop t)

/-- A reply without the number of its handle, and the child as it is left. -/
def plainReply (r : AgentMessage × Option σ) : AgentMessage × Option σ := (r.1.plain,r.2)

/-- The same child in the same slot, or nothing any more. -/
inductive Corresponds (a b : ProcAgent σ) (h outer : ℕ) : Prop
  | live {w inner : ℕ} {s : σ} {stdin : Bool} (howned : Owned a h ⟨s,true,stdin⟩)
      (hserved : Served b outer w inner ⟨s,true,stdin⟩)
  | gone (ha : Free a h) (hb : Free b outer)

/-! The signals of the worker and those of the parent. -/

/-- A `Kill`, and the end of a `Wait` that finds the child still running, do to it the same from the worker as they
would from the parent. -/
def Signals.Reaches (os : ChildOs σ) (sent : Signals σ) (op : ProcOp) (s : σ) : Prop :=
  match op with
  | .kill signal => sent.kill signal s = os.kill signal s
  | .wait (some ms) => (pollUntil os (polls ms) s).1 = .running →
      sent.killGroup (pollUntil os (polls ms) s).2 = os.killGroup (pollUntil os (polls ms) s).2
  | _ => True

/-- At each operation on a process of the parent's own, a worker with these signals would reach it, too. -/
def ProcAgent.Reached (os : ChildOs σ) (fuel h : ℕ) : List (Signals σ × ProcOp) → ProcAgent σ → Prop
  | [],_ => True
  | (sent,op)::ops,a => (∀ slot, a.processes.lookup h = some slot → sent.Reaches os op slot.state) ∧
      ∀ r a', a.call os fuel h sent op = some (r,a') → ProcAgent.Reached os fuel h ops a'

theorem pollUntil_sentBy (sent : Signals σ) (n : ℕ) (s : σ) : pollUntil (os.sentBy sent) n s = pollUntil os n s := by
  have hlook : (os.sentBy sent).tryWait = os.tryWait := rfl
  induction n generalizing s with
  | zero =>
    rw [pollUntil,pollUntil,hlook]
  | succ k ih =>
    rw [pollUntil,pollUntil,hlook]
    rcases os.tryWait s with ⟨p,s'⟩
    cases p with
    | running => exact ih (os.sleep s')
    | exited st | failed e => rfl

theorem wait_sentBy (sent : Signals σ) (fuel : ℕ) (s : σ) : (os.sentBy sent).wait fuel s = os.wait fuel s := by
  rw [wait_eq_pollUntil,wait_eq_pollUntil,pollUntil_sentBy]

theorem waitSlot_sentBy {sent : Signals σ} {fuel : ℕ} {timeoutMs : Option ℕ} {s : σ} {stdin : Bool}
    (h : sent.Reaches os (.wait timeoutMs) s) :
    waitSlot (os.sentBy sent) fuel timeoutMs ⟨s,true,stdin⟩ = waitSlot os fuel timeoutMs ⟨s,true,stdin⟩ := by
  have hcollect : collect (os.sentBy sent) = collect os := rfl
  cases timeoutMs with
  | none => simp only [waitSlot,if_true,wait_sentBy,hcollect]
  | some ms =>
    have h : (pollUntil os (polls ms) s).1 = .running →
      sent.killGroup (pollUntil os (polls ms) s).2 = os.killGroup (pollUntil os (polls ms) s).2 := h
    simp only [waitSlot,if_true,waitWithTimeout_eq_pollUntil,pollUntil_sentBy,hcollect]
    rcases hp : pollUntil os (polls ms) s with ⟨p,s'⟩
    rw [hp] at h
    cases p with
    | running =>
      have hkill : (os.sentBy sent).killGroup s' = os.killGroup s' := h rfl
      simp only [wait_sentBy,hkill]
    | exited st | failed e => rfl

/-- What reaches the child does to its slot what the parent's own operation does. -/
theorem onSlot_sentBy {sent : Signals σ} {fuel h : ℕ} {op : ProcOp} {s : σ} {stdin : Bool}
    (hreach : sent.Reaches os op s) :
    onSlot (os.sentBy sent) fuel h op ⟨s,true,stdin⟩ = onSlot os fuel h op ⟨s,true,stdin⟩ := by
  cases op with
  | kill signal =>
    have hkill : (os.sentBy sent).kill signal s = os.kill signal s := hreach
    simp only [onSlot,killSlot,hkill]
  | wait t => simp only [onSlot,waitSlot_sentBy hreach]
  | getPid | procStatus | procStdinWrite | procStdinClose => rfl

/-- One operation on the two. -/
theorem call_corresponds (hstable : os.Stable) (fuel : ℕ) {h outer : ℕ} {sent : Signals σ} {op : ProcOp}
    {a b : ProcAgent σ} (hc : Corresponds a b h outer)
    (hreach : ∀ slot, a.processes.lookup h = some slot → sent.Reaches os op slot.state) :
    (a.call os fuel h sent op = none ∧ b.call os fuel outer sent op = none) ∨
      ∃ r r' a' b', a.call os fuel h sent op = some (r,a') ∧ b.call os fuel outer sent op = some (r',b') ∧
        plainReply r = plainReply r' ∧ Corresponds a' b' h outer := by
  cases hc with
  | gone ha hb =>
    refine .inr ⟨_,_,a,b,call_free ha,call_free hb,?_,.gone ha hb⟩
    exact congrArg (·,none) (missing_plain h outer op)
  | @live w inner s stdin howned hserved =>
    have hreach : sent.Reaches os op s := hreach _ howned.own
    by_cases hop : ∃ t, op = .wait t
    · obtain ⟨t,rfl⟩ := hop
      have ha : a.call os fuel h sent (.wait t) = (waitSlot os fuel t ⟨s,true,stdin⟩).map fun r =>
          (r,{ a with processes := a.processes.erase h }) := by
        rw [call_owned howned]
        simp only [onSlot,Option.map_map]
        rfl
      have hb : b.call os fuel outer sent (.wait t) = workerWait (os.sentBy sent) fuel outer w inner t b := by
        rw [ProcAgent.call,hserved.filed]
      have hwait := @waitSlot_sentBy σ os sent fuel t s stdin hreach
      have hboth := @workerWait_served σ (os.sentBy sent) hstable fuel outer w inner t b s stdin hserved
      rw [hwait] at hboth
      obtain ⟨hnone,hworker⟩ | ⟨r,b',hsome,hworker,hfiled,hfree⟩ := hboth
      · exact .inl ⟨by rw [ha,hnone,Option.map_none],by rw [hb,hworker]⟩
      · refine .inr ⟨r,r,_,b',by rw [ha,hsome,Option.map_some],by rw [hb,hworker],rfl,.gone ?_ ⟨hfiled,hfree⟩⟩
        exact ⟨howned.foreign,AList.lookup_erase _ _⟩
    · have hop : ∀ t, op ≠ .wait t := fun t ht => hop ⟨t,ht⟩
      obtain ⟨table,hb⟩ := @call_served σ os fuel outer w inner sent op b _ hserved hop
      rw [onSlot_sentBy hreach] at hb
      have ha := @call_owned σ os fuel h sent op a _ howned
      have hplain := @onSlot_plain σ os fuel h inner op ⟨s,true,stdin⟩
      cases hq : onSlot os fuel h op ⟨s,true,stdin⟩ with
      | none =>
        rw [hq,Option.map_none] at hplain
        rw [Option.map_eq_none_iff.mp hplain.symm] at hb
        exact .inl ⟨by rw [ha,hq,Option.map_none],hb⟩
      | some q =>
        rw [hq,Option.map_some] at hplain
        obtain ⟨q',hq',heq⟩ := Option.map_eq_some_iff.mp hplain.symm
        obtain ⟨s',stdin',hleft⟩ := onSlot_left hop hq
        have hleft' : q'.2 = some ⟨s',true,stdin'⟩ := (congrArg Prod.snd heq).trans hleft
        rw [hq',Option.map_some] at hb
        rw [hq,Option.map_some] at ha
        have howned' : Owned { a with processes := a.processes.put h q.2 } h ⟨s',true,stdin'⟩ :=
          ⟨howned.foreign,by rw [hleft]; exact lookup_put ..⟩
        have hserved' : Served { b with workers := b.workers.insert w (table.put inner q'.2) } outer w inner
            ⟨s',true,stdin'⟩ := by
          rw [hleft']
          exact hserved.put table ⟨s',true,stdin'⟩
        exact .inr ⟨q.1,q'.1,_,_,ha,hb,(congrArg Prod.fst heq).symm,.live howned' hserved'⟩

theorem calls_correspond (hstable : os.Stable) (fuel : ℕ) {h outer : ℕ} (ops : List (Signals σ × ProcOp))
    {a b : ProcAgent σ} (hc : Corresponds a b h outer) (hreached : a.Reached os fuel h ops) :
    (a.calls os fuel h ops).map (Option.map plainReply) =
      (b.calls os fuel outer ops).map (Option.map plainReply) := by
  induction ops generalizing a b with
  | nil => rfl
  | cons q ops ih =>
    obtain ⟨sent,op⟩ := q
    rw [ProcAgent.calls,ProcAgent.calls]
    obtain ⟨ha,hb⟩ | ⟨r,r',a',b',ha,hb,hr,hc'⟩ := call_corresponds hstable fuel hc hreached.1
    · rw [ha,hb]
    · rw [ha,hb]
      simp only [List.map_cons,Option.map_some,hr,ih hc' (hreached.2 r a' ha)]

/-- A child that has been killed with its group, waited for and drained. -/
def GroupKilled (os : ChildOs σ) (fuel : ℕ) (left : Option σ) : Prop :=
  ∃ s st s' stdout stderr s'', os.wait fuel (os.killGroup s) = some (.ok st,s') ∧
    os.join s' = some (stdout,stderr,s'') ∧ left = some s''

/-- A reply that reports a timeout is one about a group that has been killed. -/
def Kills (os : ChildOs σ) (fuel : ℕ) (r : AgentMessage × Option σ) : Prop :=
  ∀ ok, r.1 = .waitResult (.ok ok) → ok.status = .timedOut → GroupKilled os fuel r.2

theorem waitSlot_kills {fuel : ℕ} {t : Option ℕ} {slot : Slot σ} {r : AgentMessage × Option σ}
    (h : waitSlot os fuel t slot = some r) : Kills os fuel r := by
  have hcollect : ∀ {x : Except OsError RawStatus} {timedOut : Bool} {s' : σ},
      (timedOut = true → ∃ s, os.wait fuel (os.killGroup s) = some (x,s')) →
      collect os x timedOut s' = some r → Kills os fuel r := by
    intro x timedOut s' hkilled hr ok hok hstatus
    obtain ⟨⟨stdout,stderr,s''⟩,hjoin,rfl⟩ := Option.map_eq_some_iff.mp hr
    cases x with
    | error e => cases hok
    | ok st =>
      cases hok
      cases timedOut with
      | false => cases st <;> cases hstatus
      | true =>
        obtain ⟨s,hwait⟩ := hkilled rfl
        exact ⟨s,st,s',stdout,stderr,s'',hwait,hjoin,rfl⟩
  unfold waitSlot at h
  split at h
  · cases t with
    | none =>
      obtain ⟨⟨x,s'⟩,-,hr⟩ := Option.bind_eq_some_iff.mp h
      exact @hcollect x false s' (fun h => by cases h) hr
    | some ms =>
      obtain ⟨⟨x,timedOut,s'⟩,hwait,hr⟩ := Option.bind_eq_some_iff.mp h
      refine hcollect (fun htimed => ?_) hr
      rw [waitWithTimeout_eq_pollUntil] at hwait
      rcases hp : pollUntil os (polls ms) slot.state with ⟨p,s₁⟩
      rw [hp] at hwait
      cases p with
      | running =>
        obtain ⟨⟨x',s₂⟩,hkill,heq⟩ := Option.map_eq_some_iff.mp hwait
        cases heq
        exact ⟨s₁,hkill⟩
      | exited st | failed e =>
        cases hwait
        cases htimed
  · cases h
    intro ok hok
    cases hok

theorem calls_kill {fuel h : ℕ} (ops : List (Signals σ × ProcOp)) {a b : ProcAgent σ} {outer : ℕ}
    (hstable : os.Stable) (hc : Corresponds a b h outer) (hreached : a.Reached os fuel h ops)
    {r : AgentMessage × Option σ} (hr : some r ∈ a.calls os fuel h ops) :
    Kills os fuel r := by
  induction ops generalizing a b with
  | nil => cases hr
  | cons q ops ih =>
    obtain ⟨sent,op⟩ := q
    rw [ProcAgent.calls] at hr
    obtain ⟨ha,-⟩ | ⟨r₁,r₁',a',b',ha,-,-,hc'⟩ := call_corresponds hstable fuel hc hreached.1
    · rw [ha] at hr
      cases List.mem_singleton.mp hr
    · rw [ha] at hr
      rcases List.mem_cons.mp hr with hr | hr
      · cases hr
        cases hc with
        | gone hfree =>
          rw [call_free hfree] at ha
          cases ha
          intro ok hok
          cases op <;> cases hok
        | live howned =>
          rw [call_owned howned] at ha
          obtain ⟨q,hq,heq⟩ := Option.map_eq_some_iff.mp ha
          cases heq
          by_cases hop : ∃ t, op = .wait t
          · obtain ⟨t,rfl⟩ := hop
            obtain ⟨r₂,hr₂,rfl⟩ := Option.map_eq_some_iff.mp hq
            exact waitSlot_kills hr₂
          · -- no other operation replies with a status
            intro ok hok
            cases op with
            | wait t => exact absurd ⟨t,rfl⟩ hop
            | kill signal =>
              cases hq
              simp only [killSlot,if_true] at hok
              split at hok
              · cases hok
              · split at hok <;> cases hok
            | procStatus =>
              cases hq
              simp only [procStatusSlot,if_true] at hok
              split at hok <;> cases hok
            | procStdinWrite data =>
              obtain ⟨q',hq',rfl⟩ := Option.map_eq_some_iff.mp hq
              simp only [procStdinWriteSlot] at hq'
              split at hq'
              · obtain ⟨q'',-,rfl⟩ := Option.map_eq_some_iff.mp hq'
                cases hok
              · cases hq'
                cases hok
            | getPid | procStdinClose =>
              cases hq
              cases hok
      · exact ih hc' (hreached.2 r₁ a' ha) hr

theorem calls_free {fuel h : ℕ} (ops : List (Signals σ × ProcOp)) {a : ProcAgent σ} (hfree : Free a h) :
    a.calls os fuel h ops = ops.map fun q => some (missing h q.2,none) := by
  induction ops with
  | nil => rfl
  | cons q ops ih =>
    rw [ProcAgent.calls,call_free hfree,List.map_cons]
    exact congrArg _ ih

/-- A `Wait` that returns leaves nothing under the handle, on either side. -/
theorem wait_consumes (hstable : os.Stable) (fuel : ℕ) {h outer : ℕ} (sent : Signals σ) (t : Option ℕ)
    {a b : ProcAgent σ} (hc : Corresponds a b h outer) :
    (∀ r a', a.call os fuel h sent (.wait t) = some (r,a') → Free a' h) ∧
      ∀ r b', b.call os fuel outer sent (.wait t) = some (r,b') → Free b' outer := by
  cases hc with
  | gone ha hb =>
    refine ⟨fun r a' hr => ?_,fun r b' hr => ?_⟩
    · rw [call_free ha] at hr
      cases hr
      exact ha
    · rw [call_free hb] at hr
      cases hr
      exact hb
  | @live w inner s stdin howned hserved =>
    refine ⟨fun r a' hr => ?_,fun r b' hr => ?_⟩
    · rw [call_owned howned] at hr
      simp only [onSlot,Option.map_map] at hr
      obtain ⟨r₁,-,heq⟩ := Option.map_eq_some_iff.mp hr
      cases heq
      exact ⟨howned.foreign,AList.lookup_erase _ _⟩
    · have hb : b.call os fuel outer sent (.wait t) = workerWait (os.sentBy sent) fuel outer w inner t b := by
        rw [ProcAgent.call,hserved.filed]
      rw [hb] at hr
      obtain ⟨-,hworker⟩ | ⟨r₁,b₁,-,hworker,hfiled,hfree⟩ :=
        @workerWait_served σ (os.sentBy sent) hstable fuel outer w inner t b s stdin hserved
      · rw [hworker] at hr
        cases hr
      · rw [hworker] at hr
        cases hr
        exact ⟨hfiled,hfree⟩

/-- After a `Wait` that has returned every operation finds the handle gone. -/
theorem calls_after_wait (hstable : os.Stable) (fuel : ℕ) {h outer : ℕ} (before : List (Signals σ × ProcOp))
    (sent : Signals σ) (t : Option ℕ) (after : List (Signals σ × ProcOp)) {a b : ProcAgent σ}
    (hc : Corresponds a b h outer) (hreached : a.Reached os fuel h (before++(sent,.wait t)::after)) :
    (none ∉ a.calls os fuel h (before++[(sent,.wait t)]) → a.calls os fuel h (before++(sent,.wait t)::after) =
        a.calls os fuel h (before++[(sent,.wait t)])++after.map fun q => some (missing h q.2,none)) ∧
      (none ∉ b.calls os fuel outer (before++[(sent,.wait t)]) →
        b.calls os fuel outer (before++(sent,.wait t)::after) =
          b.calls os fuel outer (before++[(sent,.wait t)])++after.map fun q => some (missing outer q.2,none)) := by
  induction before generalizing a b with
  | nil =>
    obtain ⟨hfreeA,hfreeB⟩ := wait_consumes hstable fuel sent t hc
    simp only [List.nil_append,ProcAgent.calls]
    refine ⟨fun hret => ?_,fun hret => ?_⟩
    · cases ha : a.call os fuel h sent (.wait t) with
      | none => simp [ha] at hret
      | some q => simp [calls_free after (hfreeA q.1 q.2 ha)]
    · cases hb : b.call os fuel outer sent (.wait t) with
      | none => simp [hb] at hret
      | some q => simp [calls_free after (hfreeB q.1 q.2 hb)]
  | cons q before ih =>
    obtain ⟨sent',op⟩ := q
    simp only [List.cons_append,ProcAgent.calls]
    obtain ⟨ha,hb⟩ | ⟨r,r',a',b',ha,hb,-,hc'⟩ := call_corresponds hstable fuel hc hreached.1
    · rw [ha,hb]
      exact ⟨fun hret => absurd (List.mem_singleton.mpr rfl) hret,
        fun hret => absurd (List.mem_singleton.mpr rfl) hret⟩
    · rw [ha,hb]
      obtain ⟨ihA,ihB⟩ := ih hc' (hreached.2 r a' ha)
      refine ⟨fun hret => ?_,fun hret => ?_⟩
      · exact congrArg _ (ihA fun hmem => hret (List.mem_cons_of_mem _ hmem))
      · exact congrArg _ (ihB fun hmem => hret (List.mem_cons_of_mem _ hmem))

/-- A child that a worker has started is operated on as one of the agent's own, as long as the signals of the worker
do to it what those of the agent would: the replies are the same but for the numbers in their texts, a timeout is
reported of a group that has been killed, and after a `Wait` the handle is gone on both sides. -/
theorem worker_process_like_local (hstable : os.Stable) (fuel : ℕ) {a b : ProcAgent σ} {h outer w : ℕ}
    (inner : ℕ) (s : σ) (hfree : Free a h) (houter : Free b outer) (halive : w ∈ b.workers)
    (ops : List (Signals σ × ProcOp)) (hreached : (a.insertProcess h s).Reached os fuel h ops) :
    ((a.insertProcess h s).calls os fuel h ops).map (Option.map plainReply) =
        ((b.insertWorkerProcess outer w inner s).calls os fuel outer ops).map (Option.map plainReply) ∧
      (∀ r, some r ∈ (a.insertProcess h s).calls os fuel h ops ∨
        some r ∈ (b.insertWorkerProcess outer w inner s).calls os fuel outer ops → Kills os fuel r) ∧
      ∀ before sent t after, ops = before++(sent,.wait t)::after →
        (none ∉ (a.insertProcess h s).calls os fuel h (before++[(sent,.wait t)]) →
          (a.insertProcess h s).calls os fuel h ops =
            (a.insertProcess h s).calls os fuel h (before++[(sent,.wait t)])++
              after.map fun q => some (missing h q.2,none)) ∧
        (none ∉ (b.insertWorkerProcess outer w inner s).calls os fuel outer (before++[(sent,.wait t)]) →
          (b.insertWorkerProcess outer w inner s).calls os fuel outer ops =
            (b.insertWorkerProcess outer w inner s).calls os fuel outer (before++[(sent,.wait t)])++
              after.map fun q => some (missing outer q.2,none)) := by
  obtain ⟨table,htable⟩ := Option.isSome_iff_exists.mp (AList.lookup_isSome.mpr halive)
  have howned : Owned (a.insertProcess h s) h ⟨s,true,true⟩ := ⟨hfree.foreign,AList.lookup_insert _⟩
  have hserved : Served (b.insertWorkerProcess outer w inner s) outer w inner ⟨s,true,true⟩ := by
    refine ⟨AList.lookup_insert _,⟨table.insert inner ⟨s,true,true⟩,?_,AList.lookup_insert _⟩,houter.own⟩
    change (Table.change _ b.workers w).lookup w = _
    rw [Table.change,htable]
    exact AList.lookup_insert _
  have hc : Corresponds (a.insertProcess h s) (b.insertWorkerProcess outer w inner s) h outer :=
    .live howned hserved
  have hsame := calls_correspond hstable fuel ops hc hreached
  refine ⟨hsame,?_,?_⟩
  · intro r hr
    rcases hr with hr | hr
    · exact calls_kill ops hstable hc hreached hr
    · -- the local side has a reply that differs in the number at most
      have hmem := @List.mem_map_of_mem _ _ _ _ (Option.map plainReply) hr
      rw [← hsame] at hmem
      obtain ⟨o,ho,heq⟩ := List.mem_map.mp hmem
      obtain ⟨r',rfl,hr'⟩ := Option.map_eq_some_iff.mp heq
      intro ok hok hstatus
      obtain ⟨m,left⟩ := r
      obtain rfl : m = .waitResult (.ok ok) := hok
      obtain ⟨m',left'⟩ := r'
      have hm : m'.plain = .waitResult (.ok ok) := congrArg Prod.fst hr'
      have hleft : left' = left := congrArg Prod.snd hr'
      have hlocal := calls_kill ops hstable hc hreached ho ok (by
        cases m' with
        | waitResult => exact hm
        | killResult | getPidResult | procStatusResult | procStdinWriteResult | procStdinCloseResult
        | agentError => cases hm) hstatus
      rwa [hleft] at hlocal
  · rintro before sent t after rfl
    exact calls_after_wait hstable fuel before sent t after hc hreached

end

/-- A child that would run for a second. -/
def secondOs : ChildOs ℕ where
  tryWait s := if s = 0 then (.exited (.code 0),0) else (.running,s)
  sleep s := s-20
  kill _ _ := (none,0)
  killGroup _ := 0
  write data s := some (.ok data.length,s)
  closeStdin s := s
  pid _ := 7
  join s := some ([],[],s)

theorem stable_secondOs : secondOs.Stable := by
  intro s
  change (if (if s = 0 then _ else _ : TryWait × ℕ).2 = 0 then _ else _) = _
  by_cases hs : s = 0 <;> simp [secondOs,hs]

/-- The signals of a process that may not signal the child: `EPERM`. -/
def unprivileged (σ : Type) : Signals σ := ⟨fun _ s => (some ⟨1,"Operation not permitted (os error 1)"⟩,s),id⟩

/-- The worker gives its privileges up after the child has been killed. -/
def waitedInTime : List (Signals ℕ × ProcOp) :=
  [(unprivileged ℕ,.getPid),(secondOs.toSignals,.wait (some 100)),(unprivileged ℕ,.kill 9)]

theorem worker_process_like_local_second :
    (((⟨∅,∅,∅⟩ : ProcAgent ℕ).insertProcess 1 1000).calls secondOs 5 1 waitedInTime).map (Option.map plainReply) =
      (((⟨∅,∅,(∅ : Table ℕ (Processes ℕ)).insert 1 ∅⟩ : ProcAgent ℕ).insertWorkerProcess 2 1 1 1000).calls
        secondOs 5 2 waitedInTime).map (Option.map plainReply) := by
  refine (worker_process_like_local stable_secondOs 5 1 1000 ⟨rfl,rfl⟩ ⟨rfl,rfl⟩ (by decide) waitedInTime ?_).1
  refine ⟨fun _ _ => trivial,fun r a ha =>
    ⟨fun _ _ _ => rfl,fun r' a' ha' => ⟨fun slot hslot => ?_,fun _ _ _ => trivial⟩⟩⟩
  cases ha
  cases ha'
  cases hslot

/-- A child that runs until it is killed. -/
def foreverOs : ChildOs Bool where
  tryWait killed := (if killed then .exited (.signal 9) else .running,killed)
  sleep killed := killed
  kill _ _ := (none,true)
  killGroup _ := true
  write data killed := some (.ok data.length,killed)
  closeStdin killed := killed
  pid _ := 7
  join killed := some ([],[],killed)

theorem wait_forever (fuel : ℕ) : (foreverOs.sentBy (unprivileged Bool)).wait fuel false = none := by
  induction fuel with
  | zero => rfl
  | succ k ih => exact ih

/-- After `setuid` in the worker a `Kill` is refused, and a `Wait` of a tenth of a second kills nobody and never
returns. -/
theorem unprivileged_worker_unlike :
    (∀ fuel, ((⟨∅,∅,∅⟩ : ProcAgent Bool).insertProcess 1 false).calls foreverOs fuel 1 [(unprivileged Bool,.kill 9)] =
        [some (.killResult (.ok ()),none)] ∧
      ((⟨∅,∅,(∅ : Table ℕ (Processes Bool)).insert 1 ∅⟩ : ProcAgent Bool).insertWorkerProcess 2 1 1 false).calls
        foreverOs fuel 2 [(unprivileged Bool,.kill 9)] =
          [some (.killResult (.error ⟨1,"Operation not permitted (os error 1)"⟩),none)]) ∧
    ∀ fuel, ((⟨∅,∅,∅⟩ : ProcAgent Bool).insertProcess 1 false).calls foreverOs fuel 1
          [(unprivileged Bool,.wait (some 100))] = [some (.waitResult (.ok ⟨.timedOut,[],[]⟩),some true)] ∧
      ((⟨∅,∅,(∅ : Table ℕ (Processes Bool)).insert 1 ∅⟩ : ProcAgent Bool).insertWorkerProcess 2 1 1 false).calls
        foreverOs fuel 2 [(unprivileged Bool,.wait (some 100))] = [none] := by
  refine ⟨fun fuel => ⟨rfl,rfl⟩,fun fuel => ⟨?_,?_⟩⟩
  · cases fuel <;> rfl
  · have hserved : Served ((⟨∅,∅,(∅ : Table ℕ (Processes Bool)).insert 1 ∅⟩ : ProcAgent Bool).insertWorkerProcess
        2 1 1 false) 2 1 1 ⟨false,true,true⟩ := ⟨rfl,⟨_,rfl,rfl⟩,rfl⟩
    have hnone : waitSlot (foreverOs.sentBy (unprivileged Bool)) fuel (some 100) ⟨false,true,true⟩ = none := by
      change ((waitWithTimeout _ fuel 0 false).bind _) = none
      change (((foreverOs.sentBy (unprivileged Bool)).wait fuel false).map _).bind _ = none
      rw [wait_forever]
      rfl
    rw [ProcAgent.calls,ProcAgent.call,hserved.filed]
    obtain ⟨-,hworker⟩ | ⟨r,a',hsome,-⟩ := @workerWait_served Bool (foreverOs.sentBy (unprivileged Bool))
      (fun _ => rfl) fuel 2 1 1 (some 100) _ false true hserved
    · simp only [hworker]
    · rw [hnone] at hsome
      cases hsome

end Provium.Agent
