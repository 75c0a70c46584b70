import Provium.Lib.Table

/-! The process operations of an agent on its own table. The child and its group are whatever the operating
system makes of them: what `try_wait` sees, what a signal does, what time does. Time passes only while
somebody sleeps between two polls, which is the grain at which `wait` looks. -/
namespace Provium.Agent
open Lib

structure OsError where
  errno : ℤ
  message : String
  deriving DecidableEq, Repr

/-- `std::process::ExitStatus` -/
inductive RawStatus where
  | code (c : ℤ)
  | signal (n : ℤ)
  | other
  deriving DecidableEq, Repr

/-- What `try_wait` returns. -/
inductive TryWait where
  | running
  | exited (st : RawStatus)
  | failed (e : OsError)
  deriving DecidableEq, Repr

/-- What comes of the signals that one process sends a child, and its group, with its credentials. -/
structure Signals (σ : Type) where
  kill : ℤ → σ → Option OsError × σ
  killGroup : σ → σ

/-- What can be done to a child by the process that owns it, and what comes of it. A write that the child never
takes, and a drain thread the pipe of which is never closed, do not return. -/
structure ChildOs (σ : Type) extends Signals σ where
  tryWait : σ → TryWait × σ
  sleep : σ → σ
  write : List UInt8 → σ → Option (Except OsError ℕ × σ)
  closeStdin : σ → σ
  pid : σ → ℕ
  join : σ → Option (List UInt8 × List UInt8 × σ)

/-- Between two looks at a child with no time in between nothing has changed. -/
def ChildOs.Stable {σ : Type} (os : ChildOs σ) : Prop := ∀ s, os.tryWait (os.tryWait s).2 = os.tryWait s

inductive ExitStatus where
  | exited (c : ℤ)
  | signalled (n : ℤ)
  | timedOut
  deriving DecidableEq, Repr

structure ExecOk where
  status : ExitStatus
  stdout : List UInt8
  stderr : List UInt8
  deriving DecidableEq, Repr

inductive ProcessLiveStatus where
  | running
  | exited
  | unknown
  deriving DecidableEq, Repr

inductive AgentErrorKind where
  | unknownHandle
  | internal
  | badRequest
  deriving DecidableEq, Repr

/-- A text with a handle in it, or without one. -/
structure Message where
  before : String
  handle : Option ℕ
  after : String
  deriving DecidableEq, Repr

inductive AgentMessage where
  | waitResult (r : Except OsError ExecOk)
  | killResult (r : Except OsError Unit)
  | getPidResult (r : Except OsError ℕ)
  | procStatusResult (r : ProcessLiveStatus)
  | procStdinWriteResult (r : Except OsError ℕ)
  | procStdinCloseResult
  | agentError (kind : AgentErrorKind) (message : Message)

inductive ProcOp where
  | kill (signal : ℤ)
  | getPid
  | procStatus
  | procStdinWrite (data : List UInt8)
  | procStdinClose
  | wait (timeoutMs : Option ℕ)
  deriving DecidableEq, Repr

/-- `ProcessSlot`: the child with its pipes, whether the slot still owns it, and whether its stdin is
live. -/
structure Slot (σ : Type) where
  state : σ
  child : Bool
  stdin : Bool

abbrev Processes (σ : Type) := Table ℕ (Slot σ)

/-- `ESRCH` -/
def esrch : ℤ := 3

section
variable {σ : Type} (os : ChildOs σ)

/-- `Child::wait`, which returns what polling would see, with a bound on how long it is waited for. -/
def ChildOs.wait : ℕ → σ → Option (Except OsError RawStatus × σ)
  | fuel,s =>
    match os.tryWait s with
    | (.exited st,s) => some (.ok st,s)
    | (.failed e,s) => some (.error e,s)
    | (.running,s) =>
      match fuel with
      | 0 => none
      | k+1 => ChildOs.wait k (os.sleep s)

/-- How many polls, 20 milliseconds apart, are made before the deadline has passed. -/
def polls (timeoutMs : ℕ) : ℕ := (timeoutMs+19)/20

/-- `wait_with_timeout`: the child's status, and whether it has been killed. -/
def waitWithTimeout (fuel : ℕ) : ℕ → σ → Option (Except OsError RawStatus × Bool × σ)
  | n,s =>
    match os.tryWait s with
    | (.exited st,s) => some (.ok st,false,s)
    | (.failed e,s) => some (.error e,false,s)
    | (.running,s) =>
      match n with
      | 0 => (os.wait fuel (os.killGroup s)).map fun (r,s) => (r,true,s)
      | k+1 => waitWithTimeout fuel k (os.sleep s)

def exitStatus (timedOut : Bool) : RawStatus → ExitStatus
  | .code c => if timedOut then .timedOut else .exited c
  | .signal n => if timedOut then .timedOut else .signalled n
  | .other => if timedOut then .timedOut else .exited (-1)

/-- The rest of `wait`: the drain threads are joined whatever the child came to. -/
def collect (r : Except OsError RawStatus) (timedOut : Bool) (s : σ) : Option (AgentMessage × Option σ) :=
  (os.join s).map fun (stdout,stderr,s) =>
    (.waitResult (r.map fun st => ⟨exitStatus timedOut st,stdout,stderr⟩),some s)

/-- `wait` on a slot that has been taken out of the table, with the child as it is left. -/
def waitSlot (fuel : ℕ) (timeoutMs : Option ℕ) (slot : Slot σ) : Option (AgentMessage × Option σ) :=
  if slot.child then
    match timeoutMs with
    | some ms =>
      (waitWithTimeout os fuel (polls ms) slot.state).bind fun (r,timedOut,s) => collect os r timedOut s
    | none => (os.wait fuel slot.state).bind fun (r,s) => collect os r false s
  else some (.agentError .internal ⟨"process slot has no child (already waited?)",none,""⟩,none)

/-- What an operation says of a handle that the table does not hold. -/
def missing (h : ℕ) : ProcOp → AgentMessage
  | .kill _ => .agentError .unknownHandle ⟨"kill on ",h,""⟩
  | .getPid => .agentError .unknownHandle ⟨"get_pid on ",h,""⟩
  | .procStatus => .procStatusResult .unknown
  | .procStdinWrite _ => .agentError .unknownHandle ⟨"proc_stdin_write on ",h,""⟩
  | .procStdinClose => .agentError .unknownHandle ⟨"proc_stdin_close on ",h,""⟩
  | .wait _ => .agentError .unknownHandle ⟨"wait on ",h,""⟩

/-! The closures that run on a slot while the table is locked: the reply, and the slot as it is left. -/

def killSlot (h : ℕ) (signal : ℤ) (slot : Slot σ) : AgentMessage × Slot σ :=
  if slot.child then
    match os.kill signal slot.state with
    | (none,s) => (.killResult (.ok ()),{ slot with state := s })
    | (some e,s) =>
      if e.errno = esrch then (.killResult (.ok ()),{ slot with state := s })
      else (.killResult (.error e),{ slot with state := s })
  else (.agentError .internal ⟨"process ",h," has no child to signal"⟩,slot)

def getPidSlot (h : ℕ) (slot : Slot σ) : AgentMessage × Slot σ :=
  if slot.child then (.getPidResult (.ok (os.pid slot.state)),slot)
  else (.agentError .internal ⟨"get_pid: process ",h," already reaped"⟩,slot)

def procStatusSlot (slot : Slot σ) : AgentMessage × Slot σ :=
  if slot.child then
    match os.tryWait slot.state with
    | (.running,s) => (.procStatusResult .running,{ slot with state := s })
    | (.exited _,s) => (.procStatusResult .exited,{ slot with state := s })
    | (.failed _,s) => (.procStatusResult .unknown,{ slot with state := s })
  else (.procStatusResult .unknown,slot)

def procStdinWriteSlot (h : ℕ) (data : List UInt8) (slot : Slot σ) : Option (AgentMessage × Slot σ) :=
  if slot.stdin then
    (os.write data slot.state).map fun (r,s) => (.procStdinWriteResult r,{ slot with state := s })
  else some (.agentError .internal ⟨"process ",h," has no live stdin"⟩,slot)

def procStdinCloseSlot (slot : Slot σ) : AgentMessage × Slot σ :=
  (.procStdinCloseResult,if slot.stdin then { slot with state := os.closeStdin slot.state, stdin := false } else slot)

/-- An operation on a slot that is there: the reply, the child as a `wait` leaves it, and what is left in
the table. -/
def onSlot (fuel h : ℕ) (op : ProcOp) (slot : Slot σ) : Option ((AgentMessage × Option σ) × Option (Slot σ)) :=
  match op with
  | .kill signal => some (((killSlot os h signal slot).1,none),some (killSlot os h signal slot).2)
  | .getPid => some (((getPidSlot os h slot).1,none),some (getPidSlot os h slot).2)
  | .procStatus => some (((procStatusSlot os slot).1,none),some (procStatusSlot os slot).2)
  | .procStdinWrite data => (procStdinWriteSlot os h data slot).map fun (m,slot) => ((m,none),some slot)
  | .procStdinClose => some (((procStdinCloseSlot os slot).1,none),some (procStdinCloseSlot os slot).2)
  | .wait timeoutMs => (waitSlot os fuel timeoutMs slot).map (·,none)

/-- What an operation leaves under its handle. -/
def Processes.put (m : Processes σ) (h : ℕ) : Option (Slot σ) → Processes σ
  | some slot => m.insert h slot
  | none => m.erase h

/-- An operation on the agent's own table. -/
def onTable (fuel h : ℕ) (op : ProcOp) (m : Processes σ) : Option ((AgentMessage × Option σ) × Processes σ) :=
  match m.lookup h with
  | none => some ((missing h op,none),m)
  | some slot => (onSlot os fuel h op slot).map fun (r,left) => (r,m.put h left)

end

/-- A reply without the number of its handle. -/
def AgentMessage.plain : AgentMessage → AgentMessage
  | agentError kind message => agentError kind { message with handle := message.handle.map fun _ => 0 }
  | m => m

section
variable {σ : Type} {os : ChildOs σ}

/-- The handle shows in the reply only. -/
theorem onSlot_plain (fuel h h' : ℕ) (op : ProcOp) (slot : Slot σ) :
    (onSlot os fuel h op slot).map (fun q => ((q.1.1.plain,q.1.2),q.2)) =
      (onSlot os fuel h' op slot).map fun q => ((q.1.1.plain,q.1.2),q.2) := by
  cases op with
  | kill signal =>
    unfold onSlot killSlot
    cases slot.child with
    | true => rfl
    | false => rfl
  | getPid =>
    unfold onSlot getPidSlot
    cases slot.child with
    | true => rfl
    | false => rfl
  | procStdinWrite data =>
    unfold onSlot procStdinWriteSlot
    cases slot.stdin with
    | true => rfl
    | false => rfl
  | procStatus | procStdinClose | wait _ => rfl

theorem missing_plain (h h' : ℕ) (op : ProcOp) : (missing h op).plain = (missing h' op).plain := by
  cases op <;> rfl

@[simp] theorem lookup_put (m : Processes σ) (h : ℕ) (left : Option (Slot σ)) :
    (m.put h left).lookup h = left := by
  cases left with
  | some slot => exact AList.lookup_insert m
  | none => exact AList.lookup_erase h m

end

end Provium.Agent
