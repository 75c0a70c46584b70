import Provium.Lib.Machine
import Provium.Lib.Table
import Provium.Protocol.Frame

/-! The QMP connection of `connection.rs`: callers of `execute_timeout`, the reader thread and
any number of shutdowns, interleaved at the granularity of the source's critical sections. The
clock, the socket and the peer are part of the actions. -/
namespace Provium.Qmp
open Lib Provium.Protocol

/-- A decoded JSON value. A number that is no integer is kept as its text. -/
inductive Value where
  | null
  | bool (b : Bool)
  | integer (n : ℤ)
  | real (text : String)
  | string (s : String)
  | array (items : List Value)
  | object (fields : List (String × Value))

namespace Value

def get (v : Value) (key : String) : Option Value :=
  match v with
  | .object fields => fields.lookup key
  | _ => none

def asStr : Value → Option String
  | .string s => some s
  | _ => none

def isNull : Value → Bool
  | .null => true
  | _ => false

/-- What `serde` takes for an `i64`. -/
def asI64 : Value → Option ℤ
  | .integer n => if -2^63 ≤ n ∧ n < 2^63 then some n else none
  | _ => none

end Value

inductive QmpError where
  | io (e : IoErrorKind)
  | decode (reason : String)
  | command (command cls desc : String)
  | closed (reason : String)
  | timeout (duration : ℕ)
  | guestShutdownTimeout (duration : ℕ)
  | handshake (reason : String)
  deriving DecidableEq, Repr

/-- One async event emitted by QEMU. -/
structure Event where
  name : String
  data : Value
  timestampNs : ℤ

/-- `i64` arithmetic that saturates. -/
def clampI64 (n : ℤ) : ℤ := max (-2^63) (min n (2^63-1))

/-- `WireTimestamp::to_ns`. -/
def toNs (seconds microseconds : ℤ) : ℤ :=
  clampI64 (clampI64 (seconds*1000000000)+clampI64 (microseconds*1000))

/-- A `WireTimestamp`, which `serde` also takes as the array of its fields. -/
def wireTimestamp (v : Value) : Option ℤ :=
  match v with
  | .array [seconds,microseconds] => do return toNs (← seconds.asI64) (← microseconds.asI64)
  | v => do return toNs (← (← v.get "seconds").asI64) (← (← v.get "microseconds").asI64)

/-- A `WireEvent` read from a value, as the `Event` it becomes. -/
def wireEvent (v : Value) : Option Event := do
  let name ← (← v.get "event").asStr
  let timestampNs ← wireTimestamp (← v.get "timestamp")
  return ⟨name,(v.get "data").getD .null,timestampNs⟩

/-- Outcome of one command, as classified by the reader thread. -/
inductive RawResponse where
  | ret (v : Value)
  | error (cls desc : String)
  | closed (reason : String)

/-- What a reply says about the command it answers. -/
def classify (value : Value) (command : String) : RawResponse :=
  match value.get "return" with
  | some ret => .ret ret
  | none =>
    match value.get "error" with
    | some err => .error (((err.get "class").bind Value.asStr).getD "Unknown")
        (((err.get "desc").bind Value.asStr).getD "")
    | none => .error "MalformedResponse"
        s!"QMP reply had neither `return` nor `error` for command `{command}`"

/-- Per-pending-command state; `replyTo` is the call at the other end of the channel. -/
structure Pending where
  command : String
  replyTo : ℕ

structure EventLog where
  events : List Event
  closed : Bool
  closeReason : String

structure WriterSlot where
  /-- Whether the stream is in the slot. -/
  stream : Bool
  busy : Bool
  closed : Bool

/-- Where one call of `execute_timeout` stands. -/
inductive Phase where
  /-- It has its id and is about to register. -/
  | allocated
  /-- It is registered and in `send`, before it has the stream. -/
  | registered
  | writing
  /-- Its write failed and it runs the shutdown of this number. -/
  | failing (shutdown : ℕ) (e : QmpError)
  /-- It is about to give the stream back. -/
  | releasing (result : Except QmpError Unit)
  /-- It has sent its request and is about to look at its budget. -/
  | sent
  | waiting
  /-- It is about to remove its entry and return this error. -/
  | cleanup (e : QmpError)
  | returned (result : Except QmpError Value)

structure Call where
  command : String
  args : Value
  timeout : ℕ
  id : String
  phase : Phase
  /-- The one slot of its channel. -/
  inbox : Option RawResponse

/-- The request that goes to the peer. -/
def Call.request (c : Call) : Value :=
  .object ([("execute",.string c.command)]++
    (if c.args.isNull then [] else [("arguments",c.args)])++[("id",.string c.id)])

/-- What a call makes of the response it receives. -/
def Call.outcome (c : Call) : RawResponse → Except QmpError Value
  | .ret v => .ok v
  | .error cls desc => .error (.command c.command cls desc)
  | .closed reason => .error (.closed reason)

/-- What a shutdown has yet to do. -/
inductive ShutdownPhase where
  | closeWriter
  | closeLog
  | drain
  /-- It has drained the table and owes these calls a `Closed`. -/
  | sending (owed : List ℕ)

def ShutdownPhase.owed : ShutdownPhase → List ℕ
  | .sending owed => owed
  | _ => []

structure Shutdown where
  reason : String
  phase : ShutdownPhase

/-- Where the reader thread stands. -/
inductive Reader where
  | reading
  /-- It has taken an entry out of the table and owes its call this response. -/
  | delivering (call : ℕ) (response : RawResponse)
  | closing (shutdown : ℕ)
  | exited

def Reader.owed : Reader → List ℕ
  | .delivering k _ => [k]
  | _ => []

/-- The connection with its threads. Calls and shutdowns keep their number for good. -/
structure Conn where
  nextId : ℕ
  writer : WriterSlot
  pending : Table String Pending
  log : EventLog
  calls : List Call
  shutdowns : List Shutdown
  reader : Reader

/-- What `handshake` leaves behind. -/
def Conn.new : Conn where
  nextId := 1
  writer := ⟨true,false,false⟩
  pending := ∅
  log := ⟨[],false,""⟩
  calls := []
  shutdowns := []
  reader := .reading

/-- The critical sections of a call, with what the clock and the socket do there. -/
inductive CallStep where
  | register
  | acquire (expired : Bool)
  | write (result : Except QmpError Unit)
  | failed
  | release
  | check (expired : Bool)
  | receive
  | recvTimeout
  | disconnected
  | cleanup

/-- One critical section of one thread. -/
inductive Action where
  /-- A caller enters, its timeout too large for the clock or already over. -/
  | call (command : String) (args : Value) (timeout : ℕ) (tooLarge expired : Bool)
  | proceed (k : ℕ) (step : CallStep)
  /-- `close` or the drop of the connection. -/
  | shutdown (reason : String)
  /-- A shutdown's next section; `pick` says which of the owed calls it comes to. -/
  | shutdownStep (j pick : ℕ)
  /-- A line from the peer, as JSON where it is that. -/
  | line (value : Option Value)
  | readEnd
  | readError
  | deliver
  | readerExit

inductive Obs where
  | silent
  /-- A call whose budget was over before it had an id. -/
  | refused (e : QmpError)
  | request (k : ℕ) (value : Value)
  | resolved (k : ℕ) (response : RawResponse)
  | returned (k : ℕ) (result : Except QmpError Value)
  /-- An `expect` failed. -/
  | panicked

namespace Conn

/-- Move one call on. -/
def setPhase (s : Conn) (k : ℕ) (phase : Phase) : Conn :=
  { s with calls := s.calls.modify k fun c => { c with phase } }

/-- `allocate_id`. -/
def allocateId (s : Conn) : String := "c"++s.nextId.repr

/-- Whether an entry's channel is that of this call. -/
def Pending.isFor (k : ℕ) (p : Pending) : ℕ := if p.replyTo = k then 1 else 0

/-- The senders left for a call's channel: its entry, and whoever took it out to answer it. -/
def senders (s : Conn) (k : ℕ) : ℕ :=
  s.pending.total (Pending.isFor k)+s.reader.owed.count k+
    (s.shutdowns.map fun d => d.phase.owed.count k).sum

/-- `SyncSender::send` into a channel of one slot: it blocks while the slot is full, and nothing
comes of it once the call is over. -/
def send (s : Conn) (k : ℕ) (response : RawResponse) : Option Conn :=
  match s.calls[k]? with
  | none => none
  | some c =>
    match c.phase,c.inbox with
    | .returned _,_ => some s
    | _,some _ => none
    | _,none => some { s with calls := s.calls.modify k fun c => { c with inbox := some response } }

/-- Start a shutdown. -/
def begin (s : Conn) (reason : String) : Conn :=
  { s with shutdowns := s.shutdowns++[⟨reason,.closeWriter⟩] }

/-- Move a shutdown on. -/
def setShutdown (s : Conn) (j : ℕ) (phase : ShutdownPhase) : Conn :=
  { s with shutdowns := s.shutdowns.modify j fun d => { d with phase } }

/-- One section of `Inner::shutdown`. -/
def shutdownStep (s : Conn) (j pick : ℕ) (d : Shutdown) : Option (Conn × Obs) :=
  match d.phase with
  | .closeWriter =>
    some ({ s with writer := ⟨false,s.writer.busy,true⟩ }.setShutdown j .closeLog,.silent)
  | .closeLog =>
    let log := if s.log.closed then s.log else ⟨s.log.events,true,d.reason⟩
    some ({ s with log }.setShutdown j .drain,.silent)
  | .drain =>
    let owed := s.pending.values.map Pending.replyTo
    some ({ s with pending := ∅ }.setShutdown j (.sending owed),.silent)
  | .sending owed =>
    match owed[pick]? with
    | none => none
    | some k =>
      (s.send k (.closed d.reason)).map fun s =>
        (s.setShutdown j (.sending (owed.eraseIdx pick)),.resolved k (.closed d.reason))

/-- The shutdown of this number has run to its end. -/
def finished (s : Conn) (j : ℕ) : Bool :=
  match s.shutdowns[j]? with
  | some ⟨_,.sending []⟩ => true
  | _ => false

/-- `handle_line`, up to the point where it has the entry that a reply is for. -/
def handleLine (s : Conn) (value : Value) : Conn :=
  match value.get "event" with
  | some _ =>
    match wireEvent value with
    | some event => { s with log := { s.log with events := s.log.events++[event] } }
    | none => s
  | none =>
    match (value.get "id").bind Value.asStr with
    | none => s
    | some id =>
      match s.pending.lookup id with
      | none => s
      | some p =>
        { s with pending := s.pending.erase id,
                 reader := .delivering p.replyTo (classify value p.command) }

/-- A new call, with the next id. -/
def accept (s : Conn) (command : String) (args : Value) (timeout : ℕ) : Conn :=
  let c : Call := ⟨command,args,timeout,s.allocateId,.allocated,none⟩
  { s with nextId := (s.nextId+1)%2^64, calls := s.calls++[c] }

/-- `execute_timeout` up to its id: the budget must last that long. -/
def enter (s : Conn) (command : String) (args : Value) (timeout : ℕ) (tooLarge expired : Bool) :
    Conn × Obs :=
  if tooLarge then (s,.refused (.io .other))
  else if expired then (s,.refused (.timeout timeout))
  else (s.accept command args timeout,.silent)

/-- The first section of `Inner::send`: wait for the stream and take it. -/
def acquire (s : Conn) (k : ℕ) (c : Call) (expired : Bool) : Conn × Obs :=
  if s.writer.closed then
    (s.setPhase k (.cleanup (.closed "write on closed connection")),.silent)
  else if expired then (s.setPhase k (.cleanup (.timeout c.timeout)),.silent)
  else if s.writer.busy then (s,.silent)
  else if s.writer.stream then
    ({ s with writer := ⟨false,true,false⟩ }.setPhase k .writing,.silent)
  else (s,.panicked)

/-- The last section of `Inner::send`: give the stream back. -/
def release (s : Conn) (k : ℕ) (result : Except QmpError Unit) : Conn :=
  let writer : WriterSlot := ⟨s.writer.stream || !s.writer.closed,false,s.writer.closed⟩
  match result with
  | .ok () => { s with writer }.setPhase k .sent
  | .error e => { s with writer }.setPhase k (.cleanup e)

/-- The next section of `execute_timeout`. -/
def callStep (s : Conn) (k : ℕ) (c : Call) (step : CallStep) : Option (Conn × Obs) :=
  match c.phase,step with
  | .allocated,.register =>
    some ({ s with pending := s.pending.insert c.id ⟨c.command,k⟩ }.setPhase k .registered,.silent)
  | .registered,.acquire expired => some (s.acquire k c expired)
  | .writing,.write (.ok ()) => some (s.setPhase k (.releasing (.ok ())),.request k c.request)
  | .writing,.write (.error e) =>
    let j := s.shutdowns.length
    some ((s.begin "QMP send failed or timed out").setPhase k (.failing j e),.silent)
  | .failing j e,.failed =>
    if s.finished j then some (s.setPhase k (.releasing (.error e)),.silent) else none
  | .releasing result,.release => some (s.release k result,.silent)
  | .sent,.check expired =>
    if expired then some (s.setPhase k (.cleanup (.timeout c.timeout)),.silent)
    else some (s.setPhase k .waiting,.silent)
  | .waiting,.receive =>
    match c.inbox with
    | none => none
    | some response =>
      let result := c.outcome response
      some (s.setPhase k (.returned result),.returned k result)
  | .waiting,.recvTimeout =>
    match c.inbox with
    | none => some (s.setPhase k (.cleanup (.timeout c.timeout)),.silent)
    | some _ => none
  | .waiting,.disconnected =>
    if c.inbox.isNone ∧ s.senders k = 0 then
      let result : Except QmpError Value := .error (.closed "response channel disconnected")
      some (s.setPhase k (.returned result),.returned k result)
    else none
  | .cleanup e,.cleanup =>
    some ({ s with pending := s.pending.erase c.id }.setPhase k (.returned (.error e)),
      .returned k (.error e))
  | _,_ => none

/-- The reader gives up: it shuts the connection down and exits. -/
def readerClose (s : Conn) (reason : String) : Conn :=
  { s.begin reason with reader := .closing s.shutdowns.length }

/-- The next section of `reader_loop`. -/
def readerStep (s : Conn) : Action → Option (Conn × Obs)
  | .line value =>
    match s.reader with
    | .reading => some (value.elim s s.handleLine,.silent)
    | _ => none
  | .readEnd =>
    match s.reader with
    | .reading => some (s.readerClose "peer closed connection",.silent)
    | _ => none
  | .readError =>
    match s.reader with
    | .reading => some (s.readerClose "reader I/O error",.silent)
    | _ => none
  | .deliver =>
    match s.reader with
    | .delivering k response =>
      (s.send k response).map fun s => ({ s with reader := .reading },.resolved k response)
    | _ => none
  | .readerExit =>
    match s.reader with
    | .closing j => if s.finished j then some ({ s with reader := .exited },.silent) else none
    | _ => none
  | _ => none

def step (s : Conn) : Action → Option (Conn × Obs)
  | .call command args timeout tooLarge expired =>
    some (s.enter command args timeout tooLarge expired)
  | .proceed k st => (s.calls[k]?).bind fun c => s.callStep k c st
  | .shutdown reason => some (s.begin reason,.silent)
  | .shutdownStep j pick => (s.shutdowns[j]?).bind fun d => s.shutdownStep j pick d
  | a => s.readerStep a

end Conn

def connMachine : Machine Conn Action Obs := ⟨Conn.step⟩

end Provium.Qmp
