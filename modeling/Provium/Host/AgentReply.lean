import Provium.Protocol.FrameStream
import Provium.Host.Lifecycle

/-! One agent operation from end to end: `AgentClient` of the host and `handle_connection` of the
agent on one connection, and what `with_client` makes of the result. The two sides take turns, so
an exchange is their code in the order in which the messages go back and forth; each side reads
what the other has written in any pieces. The message codec and the handlers are parameters, and of
a result only its kind and the OS error it may carry are read. -/
namespace Provium.Protocol
open Lib

/-- Only an interrupted read fails, and that one is retried. -/
def Unbroken (script : List Arrival) : Prop := ∀ e, .fail e ∈ script → e = .interrupted

section Read
variable {M : Type*} {c : Codec M} {max : ℕ} {r : FrameReader} {t : Transport}

theorem readFull_unbroken {buf buf' : List UInt8} {total total' : ℕ} {t' : Transport}
    {e : IoErrorKind} (hle : total ≤ buf.length) (hok : Unbroken t.script) :
    readFull t buf total ≠ (.error e,t',buf',total') := by
  intro hf
  obtain ⟨-,-,-,-,-,-,herr⟩ := readFull_spec hle hf
  obtain ⟨hne,-,past,hpast⟩ := herr e rfl
  apply absurd (hok e _) hne
  rw [← hpast]
  simp

/-- A fresh reader on such a connection never fails with an I/O error. -/
theorem read_new_unbroken {r' : FrameReader} {t' : Transport} {e : IoErrorKind}
    (hok : Unbroken t.script) : FrameReader.read c (.new max) t ≠ (.error (.io e),r',t') := by
  intro h
  unfold FrameReader.read at h
  split at h
  · next hf => exact readFull_unbroken (Nat.zero_le _) hok hf
  · next t₁ header headerRead hf =>
    obtain ⟨-,-,-,-,hs,-,-⟩ := readFull_spec (Nat.zero_le (FrameReader.new max).header.length) hf
    have hok₁ : Unbroken t₁.script := fun e he => hok e (hs.subset he)
    split at h
    · cases h
    · split at h
      · cases h
      · simp only [FrameReader.readBody] at h
        split at h
        · cases h
        · split at h
          · next hf' => exact readFull_unbroken (Nat.zero_le _) hok₁ hf'
          · split at h
            · cases h
            · split at h
              · cases h
              · cases h

theorem Unbroken.not_other {script : List Arrival} (hok : Unbroken script) :
    .fail .other ∉ script := by
  intro h
  cases hok _ h

/-- No read of such a connection has to be called again. -/
theorem not_retry {owed : List UInt8} {res : Except FrameError M} {r' : FrameReader} {t' : Transport}
    (hok : Unbroken t.script) (h : FrameReader.read c (.new max) t = (res,r',t')) :
    ¬Retry max owed t res r' t' := by
  rintro ⟨hto,-,-⟩
  unfold isTimeout at hto
  split at hto
  · exact read_new_unbroken hok h
  · exact read_new_unbroken hok h
  · cases hto

end Read

/-- A message that fits is written as its frame. -/
theorem writeFrame_of_fits {M : Type*} {c : Codec M} {max : ℕ} {m : M} {body : List UInt8}
    (henc : c.encode m = .ok body) (hlen : body.length ≤ max) (hmax : max ≤ 2^32-1) :
    writeFrame c max m = .ok (frame body) := by
  have hcap : ¬min max (2^32-1) < body.length := by
    rw [Nat.min_eq_left hmax]
    exact Nat.not_lt.mpr hlen
  simp only [writeFrame,henc,if_neg hcap,frame]

/-- One that does not is not written, and the error is no I/O error. -/
theorem writeFrame_of_not_fits {M : Type*} {c : Codec M} {max : ℕ} {m : M} (hmax : max ≤ 2^32-1)
    (h : ¬∃ body, c.encode m = .ok body ∧ body.length ≤ max) :
    ∃ e, writeFrame c max m = .error e ∧ e ≠ .eof ∧ ∀ k, e ≠ .io k := by
  unfold writeFrame
  split
  · exact ⟨_,rfl,by simp,by simp⟩
  · next body henc =>
    have hcap : min max (2^32-1) < body.length := by
      rw [Nat.min_eq_left hmax]
      exact Nat.lt_of_not_le fun hle => h ⟨body,henc,hle⟩
    exact ⟨_,if_pos hcap,by simp,by simp⟩

end Provium.Protocol

namespace Provium.Host
open Lib Provium.Protocol

/-- `DEFAULT_MAX_FRAME_BYTES`. -/
def defaultMaxFrameBytes : ℕ := 128*1024*1024

/-- The operations of `HostMessage`. -/
inductive OpKind where
  | exec | openFile | read | write | close | readFile | writeFile | stat | tailFile
  | runAsync | wait | kill | getPid | getTime | setTime | sleepClock | advanceClock
  | syscall | readMem | spawnWorker | workerExec | workerJoin | listdir | mkdir | unlink | rename
  | seek | ioctl | procStdinWrite | procStdinClose | procStatus | procStream | fdStream
  | workerRunAsync | workerOpenFile | workerSyscall | workerSyscallBegin | workerSyscallAwait
  | workerKill | batchExec | batchOp
  deriving DecidableEq, Repr

def OpKind.name : OpKind → String
  | .exec => "exec"
  | .openFile => "open_file"
  | .read => "read"
  | .write => "write"
  | .close => "close"
  | .readFile => "read_file"
  | .writeFile => "write_file"
  | .stat => "stat"
  | .tailFile => "tail_file"
  | .runAsync => "run_async"
  | .wait => "wait"
  | .kill => "kill"
  | .getPid => "get_pid"
  | .getTime => "get_time"
  | .setTime => "set_time"
  | .sleepClock => "sleep_clock"
  | .advanceClock => "advance_clock"
  | .syscall => "syscall"
  | .readMem => "read_mem"
  | .spawnWorker => "spawn_worker"
  | .workerExec => "worker_exec"
  | .workerJoin => "worker_join"
  | .listdir => "listdir"
  | .mkdir => "mkdir"
  | .unlink => "unlink"
  | .rename => "rename"
  | .seek => "seek"
  | .ioctl => "ioctl"
  | .procStdinWrite => "proc_stdin_write"
  | .procStdinClose => "proc_stdin_close"
  | .procStatus => "proc_status"
  | .procStream => "proc_stream"
  | .fdStream => "fd_stream"
  | .workerRunAsync => "worker_run_async"
  | .workerOpenFile => "worker_open_file"
  | .workerSyscall => "worker_syscall"
  | .workerSyscallBegin => "worker_syscall_begin"
  | .workerSyscallAwait => "worker_syscall_await"
  | .workerKill => "worker_kill"
  | .batchExec => "batch_exec"
  | .batchOp => "batch_op"

inductive HostMessage (Q : Type) where
  | hello (protocolVersion : ℕ)
  | op (kind : OpKind) (args : Q)

/-- A result has the kind of the operation it is for. -/
inductive AgentMessage (R : Type) where
  | helloOk
  | helloErr (hostVersion agentVersion : ℕ)
  | result (kind : OpKind) (value : R)
  | streamFrame (data : List UInt8)
  | streamEnd (error : Option (ℤ × String))
  | agentError (reason : String)

/-- `AgentMessage::kind`. -/
def AgentMessage.kind {R : Type} : AgentMessage R → String
  | .helloOk => "hello_ok"
  | .helloErr _ _ => "hello_err"
  | .result kind _ => kind.name++"_result"
  | .streamFrame _ => "stream_frame"
  | .streamEnd _ => "stream_end"
  | .agentError _ => "agent_error"

/-- The answer to a `Hello`. -/
def greeting {R : Type} (hostVersion agentVersion : ℕ) : AgentMessage R :=
  if hostVersion = agentVersion then .helloOk else .helloErr hostVersion agentVersion

/-- The two programs: what they were compiled with, the codec between them, and the handlers of
the agent. A handler computes the response of a short operation, or the acknowledgement of a stream
and the messages behind it. -/
structure Peers (Q R : Type) where
  hostVersion : ℕ
  agentVersion : ℕ
  hostCodec : Codec (HostMessage Q)
  agentCodec : Codec (AgentMessage R)
  handle : OpKind → Q → AgentMessage R × List (AgentMessage R)
  /-- The `OpResult::Err` of a result. -/
  osError : R → Option (ℤ × String)
  host_round_trip : ∀ m body, hostCodec.encode m = .ok body → hostCodec.decode body = .ok m
  agent_round_trip : ∀ m body, agentCodec.encode m = .ok body → agentCodec.decode body = .ok m
  /-- The handshake is far below the cap. -/
  greeting_fits : ∃ body, agentCodec.encode (greeting hostVersion agentVersion) = .ok body ∧
    body.length ≤ defaultMaxFrameBytes

/-- How the connection goes: the dial, and how the reads of each message are answered. -/
structure Network where
  dial : Except IoErrorKind Unit
  hello : List Arrival
  greeting : List Arrival
  op : List Arrival
  reply : List Arrival

/-- The agent accepts the connection and neither side loses it. -/
structure Network.Reliable (net : Network) : Prop where
  dial : net.dial = .ok ()
  hello : Unbroken net.hello
  greeting : Unbroken net.greeting
  op : Unbroken net.op
  reply : Unbroken net.reply

/-- An operation of the client. `begin_syscall` does not wait for its result. -/
structure AgentCall (Q : Type) where
  kind : OpKind
  args : Q
  awaited : Bool

/-- `read_frame`: one message by a reader of its own, and the bytes it leaves. -/
def readMessage {M : Type} (c : Codec M) (t : Transport) : Except FrameError M × List UInt8 :=
  let (res,_,t') := FrameReader.read c (.new defaultMaxFrameBytes) t
  (res,t'.rest)

namespace Peers
variable {Q R : Type} (p : Peers Q R)

/-- Messages written until one cannot be; the connection ends there. -/
def writeAll : List (AgentMessage R) → List UInt8
  | [] => []
  | m::ms =>
    match writeFrame p.agentCodec defaultMaxFrameBytes m with
    | .error _ => []
    | .ok bytes => bytes++writeAll ms

/-- The first half of `handle_connection`: what it writes, and whether it goes on to an operation. -/
def handshake (t : Transport) : List UInt8 × Option (List UInt8) :=
  match readMessage p.hostCodec t with
  | (.ok (.hello hostVersion),rest) =>
    match writeFrame p.agentCodec defaultMaxFrameBytes (greeting hostVersion p.agentVersion) with
    | .error _ => ([],none)
    | .ok bytes => (bytes,if hostVersion = p.agentVersion then some rest else none)
  | _ => ([],none)

/-- The second half: `dispatch` of one operation. A second `Hello` is a protocol violation. -/
def dispatch (t : Transport) : List UInt8 :=
  match readMessage p.hostCodec t with
  | (.ok (.op kind args),_) => p.writeAll ((p.handle kind args).1::(p.handle kind args).2)
  | _ => []

/-- What the client makes of the answer to an operation. -/
def receive (kind : OpKind) : AgentMessage R → Except VmError Unit
  | .agentError reason => .error (.client (.agent reason))
  | .result actual value =>
    if actual = kind then
      match p.osError value with
      | none => .ok ()
      | some (errno,message) =>
        if kind = .workerSyscallBegin then .error (.client (.streamSource errno message))
        else .error (.os errno message)
    else .error (.client (.unexpectedMessage (kind.name++"_result") (actual.name++"_result")))
  | other => .error (.client (.unexpectedMessage (kind.name++"_result") other.kind))

/-- `open_with_handshake`, `send` and `recv` against the agent. -/
def exchange (net : Network) (call : AgentCall Q) : Except VmError Unit :=
  match net.dial,writeFrame p.hostCodec defaultMaxFrameBytes (.hello p.hostVersion) with
  | .error e,_ => .error (.client (.connect e))
  | .ok (),.error e => .error (.client (.frame e))
  | .ok (),.ok hello =>
    let (written,agent) := p.handshake ⟨hello,net.hello⟩
    match readMessage p.agentCodec ⟨written,net.greeting⟩ with
    | (.error e,_) => .error (.client (.frame e))
    | (.ok .helloOk,left) =>
      match writeFrame p.hostCodec defaultMaxFrameBytes (.op call.kind call.args) with
      | .error e => .error (.client (.frame e))
      | .ok op =>
        if call.awaited then
          let reply := agent.elim [] fun rest => p.dispatch ⟨rest++op,net.op⟩
          match readMessage p.agentCodec ⟨left++reply,net.reply⟩ with
          | (.error e,_) => .error (.client (.frame e))
          | (.ok m,_) => p.receive call.kind m
        else .ok ()
    | (.ok (.helloErr host agent),_) => .error (.client (.versionMismatch host agent))
    | (.ok other,_) => .error (.client (.unexpectedMessage "hello_ok" other.kind))

end Peers

/-- The tail of `with_client`, run on what the VM has become by then. -/
def Ended.tail {I C H : Type} (v : VmInner I C H) : Ended → VmInner I C H
  | .goOn (.markAgentDead e) => (v.markAgentDead e).1
  | _ => v

/-- A message that can be encoded, within the cap. -/
def Sendable {M : Type} (c : Codec M) (m : M) : Prop :=
  ∃ body, c.encode m = .ok body ∧ body.length ≤ defaultMaxFrameBytes

/-- The operation gets as far as its handler. -/
structure Peers.Reached {Q R : Type} (p : Peers Q R) (call : AgentCall Q) : Prop where
  hello : Sendable p.hostCodec (.hello p.hostVersion)
  version : p.hostVersion = p.agentVersion
  op : Sendable p.hostCodec (.op call.kind call.args)

theorem defaultMaxFrameBytes_le : defaultMaxFrameBytes ≤ 2^32-1 := by decide

section Exchange
variable {Q R : Type} {p : Peers Q R} {net : Network} {call : AgentCall Q}

theorem readMessage_frame {M : Type} {c : Codec M} {m : M} {body : List UInt8}
    (more : List UInt8) {script : List Arrival} (hdec : c.decode body = .ok m)
    (hlen : body.length ≤ defaultMaxFrameBytes) (hok : Unbroken script) :
    readMessage c ⟨frame body++more,script⟩ = (.ok m,more) := by
  obtain ⟨res,r',t',hread⟩ : ∃ res r' t', FrameReader.read c (.new defaultMaxFrameBytes)
      ⟨frame body++more,script⟩ = (res,r',t') := ⟨_,_,_,rfl⟩
  have hb : body.length < 256^4 := hlen.trans_lt (by decide)
  obtain ⟨-,hcase⟩ := read_frame (Resumable.new _ ⟨frame body++more,script⟩) hlen hb hdec
    hok.not_other hread
  obtain ⟨rfl,-,hrest⟩ := hcase.resolve_left (not_retry hok hread)
  rw [readMessage,hread]
  exact Prod.ext rfl hrest

theorem readMessage_nil {M : Type} {c : Codec M} {script : List Arrival} (hok : Unbroken script) :
    (readMessage c ⟨[],script⟩).1 = .error .eof := by
  obtain ⟨res,r',t',hread⟩ : ∃ res r' t', FrameReader.read c (.new defaultMaxFrameBytes)
      ⟨[],script⟩ = (res,r',t') := ⟨_,_,_,rfl⟩
  obtain ⟨-,hcase⟩ := read_end (Resumable.new _ ⟨[],script⟩) hok.not_other hread
  obtain ⟨rfl,-⟩ := hcase.resolve_left (not_retry hok hread)
  rw [readMessage,hread]

/-- The agent reads the `Hello` and answers it; it goes on where the versions agree. -/
theorem handshake_eq {hello : List UInt8} {script : List Arrival}
    (henc : p.hostCodec.encode (.hello p.hostVersion) = .ok hello)
    (hlen : hello.length ≤ defaultMaxFrameBytes) (hok : Unbroken script) :
    ∃ body, p.agentCodec.encode (greeting p.hostVersion p.agentVersion) = .ok body ∧
      body.length ≤ defaultMaxFrameBytes ∧ p.handshake ⟨frame hello,script⟩ =
        (frame body,if p.hostVersion = p.agentVersion then some [] else none) := by
  obtain ⟨body,hbody,hfit⟩ := p.greeting_fits
  have hread := readMessage_frame [] (p.host_round_trip _ _ henc) hlen hok
  rw [List.append_nil] at hread
  refine ⟨body,hbody,hfit,?_⟩
  simp only [Peers.handshake,hread,writeFrame_of_fits hbody hfit defaultMaxFrameBytes_le]

/-- The agent's reply, or nothing where the first message of it cannot be sent. -/
theorem dispatch_eq {op : List UInt8} {script : List Arrival}
    (henc : p.hostCodec.encode (.op call.kind call.args) = .ok op)
    (hlen : op.length ≤ defaultMaxFrameBytes) (hok : Unbroken script) :
    p.dispatch ⟨frame op,script⟩ =
      p.writeAll ((p.handle call.kind call.args).1::(p.handle call.kind call.args).2) := by
  have hread := readMessage_frame [] (p.host_round_trip _ _ henc) hlen hok
  rw [List.append_nil] at hread
  simp only [Peers.dispatch,hread]

theorem deadly_frame {e : FrameError} (heof : e ≠ .eof) (hio : ∀ k, e ≠ .io k) :
    deadly (.error (.client (.frame e))) = false := by
  cases e with
  | eof => exact absurd rfl heof
  | io k => exact absurd rfl (hio k)
  | unexpectedEof n m => rfl
  | frameTooLarge n m => rfl
  | decode reason => rfl
  | encode reason => rfl

/-- Whatever message arrives, the agent is there. -/
theorem deadly_receive (kind : OpKind) (m : AgentMessage R) : deadly (p.receive kind m) = false := by
  unfold Peers.receive
  split
  · rfl
  · split
    · split
      · rfl
      · split
        · rfl
        · rfl
    · rfl
  · rfl

theorem deadly_reply (hnet : net.Reliable) (ms : List (AgentMessage R)) (m : AgentMessage R) :
    deadly (match readMessage p.agentCodec ⟨p.writeAll (m::ms),net.reply⟩ with
      | (.error e,_) => .error (.client (.frame e))
      | (.ok m,_) => p.receive call.kind m) = true ↔ ¬Sendable p.agentCodec m := by
  by_cases hsend : Sendable p.agentCodec m
  · obtain ⟨body,henc,hlen⟩ := hsend
    rw [Peers.writeAll,writeFrame_of_fits henc hlen defaultMaxFrameBytes_le]
    dsimp only
    rw [readMessage_frame _ (p.agent_round_trip _ _ henc) hlen hnet.reply]
    dsimp only
    rw [deadly_receive]
    simp [Sendable,henc,hlen]
  · obtain ⟨e,he,-,-⟩ := writeFrame_of_not_fits defaultMaxFrameBytes_le hsend
    rw [Peers.writeAll,he]
    dsimp only
    have hread := readMessage_nil (c := p.agentCodec) hnet.reply
    split
    · next e' _ hr =>
      rw [hr] at hread
      cases hread
      simp [hsend,deadly,isDeadSignal]
    · next hr =>
      rw [hr] at hread
      cases hread

/-- An exchange with an agent that is there looks like its death exactly when it sends no reply. -/
theorem deadly_exchange (hnet : net.Reliable) :
    deadly (p.exchange net call) = true ↔ p.Reached call ∧ call.awaited = true ∧
      ¬Sendable p.agentCodec (p.handle call.kind call.args).1 := by
  unfold Peers.exchange
  rw [hnet.dial]
  by_cases hhello : Sendable p.hostCodec (.hello p.hostVersion)
  · obtain ⟨hello,henc,hlen⟩ := hhello
    obtain ⟨body,hbody,hfit,hshake⟩ := handshake_eq henc hlen hnet.hello
    have hgreet := readMessage_frame [] (p.agent_round_trip _ _ hbody) hfit hnet.greeting
    rw [List.append_nil] at hgreet
    simp only [writeFrame_of_fits henc hlen defaultMaxFrameBytes_le,hshake,hgreet]
    by_cases hversion : p.hostVersion = p.agentVersion
    · simp only [greeting,if_pos hversion,Option.elim_some,List.nil_append]
      by_cases hop : Sendable p.hostCodec (.op call.kind call.args)
      · obtain ⟨op,hopenc,hoplen⟩ := hop
        simp only [writeFrame_of_fits hopenc hoplen defaultMaxFrameBytes_le,
          dispatch_eq hopenc hoplen hnet.op]
        have hreached : p.Reached call := ⟨⟨hello,henc,hlen⟩,hversion,op,hopenc,hoplen⟩
        by_cases hawait : call.awaited = true
        · rw [if_pos hawait,deadly_reply hnet]
          simp [hreached,hawait]
        · rw [if_neg hawait]
          simp [hawait,deadly]
      · obtain ⟨e,he,heof,hio⟩ := writeFrame_of_not_fits defaultMaxFrameBytes_le hop
        simp only [he,deadly_frame heof hio]
        constructor
        · intro h
          cases h
        · rintro ⟨hreached,-,-⟩
          exact absurd hreached.op hop
    · simp only [greeting,if_neg hversion]
      constructor
      · intro h
        cases h
      · rintro ⟨hreached,-,-⟩
        exact absurd hreached.version hversion
  · obtain ⟨e,he,heof,hio⟩ := writeFrame_of_not_fits defaultMaxFrameBytes_le hhello
    simp only [he,deadly_frame heof hio]
    constructor
    · intro h
      cases h
    · rintro ⟨hreached,-,-⟩
      exact absurd hreached.hello hhello

end Exchange

/-- What the operation leaves of the VM's state, other operations having made `v'` of it while this
one was talking to the agent. -/
theorem state_tail_withClient {I C H : Type} (v v' : VmInner I C H) (name action : String)
    (answer : Except VmError Unit) :
    (Ended.tail v' (v.withClient name action answer).2).state =
      if v.state = .booted ∧ v.running.isSome ∧ v'.state = .booted ∧ deadly answer then .dead
      else v'.state := by
  by_cases hv : v.state = .booted
  · obtain hr | ⟨r,hr⟩ := Option.eq_none_or_eq_some v.running
    · simp [VmInner.withClient,hv,hr,Ended.tail]
    · cases answer with
      | ok u => simp [VmInner.withClient,hv,hr,Ended.tail,deadly]
      | error e =>
        cases e with
        | client e =>
          simp only [VmInner.withClient,hv,hr,if_true,deadly,Option.isSome_some,true_and]
          by_cases hd : isDeadSignal e = true
          · simp only [hd,if_true,Ended.tail,VmInner.markAgentDead,and_true]
            split
            · rfl
            · rfl
          · simp [hd,Ended.tail]
        | vmm e => simp [VmInner.withClient,hv,hr,Ended.tail,deadly]
        | os errno message => simp [VmInner.withClient,hv,hr,Ended.tail,deadly]
        | wrongState vm state act => simp [VmInner.withClient,hv,hr,Ended.tail,deadly]
        | diskImage id message => simp [VmInner.withClient,hv,hr,Ended.tail,deadly]
        | poolExceeded vm => simp [VmInner.withClient,hv,hr,Ended.tail,deadly]
        | bootRefused vm reason => simp [VmInner.withClient,hv,hr,Ended.tail,deadly]
        | openResources vm fs ss details => simp [VmInner.withClient,hv,hr,Ended.tail,deadly]
  · simp [VmInner.withClient,hv,Ended.tail,VmInner.wrongState]

/-- While the agent is there, an operation leaves the VM out of Dead exactly when the reply that
its handler computes can be sent, if it comes to that. -/
theorem agent_op_keeps_vm_alive_iff {I C H Q R : Type} (p : Peers Q R) {net : Network}
    (hnet : net.Reliable) (call : AgentCall Q) (v v' : VmInner I C H) (name action : String) :
    (v'.state ≠ .dead →
      (Ended.tail v' (v.withClient name action (p.exchange net call)).2).state ≠ .dead) ↔
    (v.state = .booted → v.running.isSome → v'.state = .booted → p.Reached call →
      call.awaited = true → Sendable p.agentCodec (p.handle call.kind call.args).1) := by
  rw [state_tail_withClient]
  constructor
  · intro h hv hr hv' hreached hawait
    by_contra hsend
    have hne : v'.state ≠ .dead := by
      rw [hv']
      decide
    have hdeadly := (deadly_exchange hnet).mpr ⟨hreached,hawait,hsend⟩
    apply h hne
    exact if_pos ⟨hv,hr,hv',hdeadly⟩
  · intro h hne
    split
    · next hbad =>
      obtain ⟨hv,hr,hv',hdeadly⟩ := hbad
      obtain ⟨hreached,hawait,hsend⟩ := (deadly_exchange hnet).mp hdeadly
      exact absurd (h hv hr hv' hreached hawait) hsend
    · exact hne

section Sample

/-- A short string of msgpack. -/
def msgStr (s : String) : List UInt8 :=
  (0xa0+s.length).toUInt8::s.toList.map fun c => c.toNat.toUInt8

def msgBin (data : List UInt8) : List UInt8 :=
  (if data.length < 2^8 then 0xc4::toBeBytes 1 data.length
  else if data.length < 2^16 then 0xc5::toBeBytes 2 data.length
  else 0xc6::toBeBytes 4 data.length)++data

/-- A message in front of its data. -/
def envelope (kind : String) : List UInt8 := 0x82::(msgStr "kind"++msgStr kind++msgStr "data")

def helloBytes : List UInt8 := envelope "hello"++0x81::(msgStr "protocol_version"++[1])

def helloOkBytes : List UInt8 :=
  envelope "hello_ok"++0x82::(msgStr "protocol_version"++[1]++msgStr "agent"++0x84::
    (msgStr "os"++msgStr "peios"++msgStr "agent_version"++msgStr "0.1.0"++
      msgStr "kernel"++[0xc0]++msgStr "capabilities"++[0x90]))

/-- The data of an `exec_result`: a command that exited with 0. -/
def execOk (stdout : List UInt8) : List UInt8 :=
  0x82::(msgStr "outcome"++msgStr "ok"++msgStr "value"++0x83::
    (msgStr "status"++0x82::(msgStr "kind"++msgStr "exited"++msgStr "value"++[0])++
      msgStr "stdout"++msgBin stdout++msgStr "stderr"++msgBin []))

/-- The messages of an `exec`, with the data as it is encoded. -/
def execHostCodec : Codec (HostMessage (List UInt8)) where
  encode
    | .hello 1 => .ok helloBytes
    | .op .exec args => .ok (envelope "exec"++args)
    | _ => .error "another message"
  decode body :=
    if body = helloBytes then .ok (.hello 1)
    else if (envelope "exec").isPrefixOf body then
      .ok (.op .exec (body.drop (envelope "exec").length))
    else .error "another message"

def execAgentCodec : Codec (AgentMessage (List UInt8)) where
  encode
    | .helloOk => .ok helloOkBytes
    | .result .exec value => .ok (envelope "exec_result"++value)
    | _ => .error "another message"
  decode body :=
    if body = helloOkBytes then .ok .helloOk
    else if (envelope "exec_result").isPrefixOf body then
      .ok (.result .exec (body.drop (envelope "exec_result").length))
    else .error "another message"

theorem envelope_append_ne {kind other : String} {body rest : List UInt8}
    (hne : envelope kind ≠ (envelope other++rest).take (envelope kind).length) :
    envelope kind++body ≠ envelope other++rest := by
  intro h
  apply hne
  rw [← h,List.take_left]

theorem execHostCodec_round_trip (m : HostMessage (List UInt8)) (body : List UInt8)
    (h : execHostCodec.encode m = .ok body) : execHostCodec.decode body = .ok m := by
  unfold execHostCodec at h ⊢
  dsimp only at h ⊢
  split at h
  · cases h
    exact if_pos rfl
  · next args =>
    cases h
    have hne : envelope "exec"++args ≠ helloBytes := envelope_append_ne (by decide)
    rw [if_neg hne,if_pos (List.isPrefixOf_iff_prefix.mpr (List.prefix_append _ _)),List.drop_left]
  · cases h

theorem execAgentCodec_round_trip (m : AgentMessage (List UInt8)) (body : List UInt8)
    (h : execAgentCodec.encode m = .ok body) : execAgentCodec.decode body = .ok m := by
  unfold execAgentCodec at h ⊢
  dsimp only at h ⊢
  split at h
  · cases h
    exact if_pos rfl
  · next value =>
    cases h
    have hne : envelope "exec_result"++value ≠ helloOkBytes := envelope_append_ne (by decide)
    rw [if_neg hne,if_pos (List.isPrefixOf_iff_prefix.mpr (List.prefix_append _ _)),List.drop_left]
  · cases h

/-- An agent on which every command writes this. -/
def execPeers (stdout : List UInt8) : Peers (List UInt8) (List UInt8) where
  hostVersion := 1
  agentVersion := 1
  hostCodec := execHostCodec
  agentCodec := execAgentCodec
  handle _ _ := (.result .exec (execOk stdout),[])
  osError _ := none
  host_round_trip := execHostCodec_round_trip
  agent_round_trip := execAgentCodec_round_trip
  greeting_fits := ⟨helloOkBytes,rfl,by decide⟩

/-- A connection that delivers in pieces. -/
def piecemeal : Network := ⟨.ok (),[.chunk 2],[.fail .interrupted,.chunk 0],[],[.chunk 6,.chunk 6]⟩

theorem piecemeal_reliable : piecemeal.Reliable := by
  refine ⟨rfl,?_,?_,?_,?_⟩
  · intro e he
    simp [piecemeal] at he
  · intro e he
    simpa [piecemeal] using he
  · intro e he
    simp [piecemeal] at he
  · intro e he
    simp [piecemeal] at he

/-- A booted VM with nothing to tell about it. -/
def someVm : VmInner Unit Unit Unit := ⟨.booted,some ⟨3,some (),(),none,none⟩,none⟩

def someExec : AgentCall (List UInt8) := ⟨.exec,[],true⟩

theorem execPeers_reached (stdout : List UInt8) : (execPeers stdout).Reached someExec :=
  ⟨⟨helloBytes,rfl,by decide⟩,rfl,envelope "exec",rfl,by decide⟩

theorem agent_op_keeps_vm_alive_iff_small :
    (Ended.tail someVm
      (someVm.withClient "vm" "run" ((execPeers [104,105]).exchange piecemeal someExec)).2).state ≠
        .dead := by
  refine (agent_op_keeps_vm_alive_iff (execPeers [104,105]) piecemeal_reliable someExec someVm someVm
    "vm" "run").mpr ?_ (by decide)
  intro _ _ _ _ _
  exact ⟨envelope "exec_result"++execOk [104,105],rfl,by decide⟩

/-- A frame has no room for this much output. -/
theorem not_sendable_execOk {stdout : List UInt8} (h : defaultMaxFrameBytes ≤ stdout.length) :
    ¬Sendable execAgentCodec (.result .exec (execOk stdout)) := by
  rintro ⟨body,henc,hlen⟩
  have hbody : body = envelope "exec_result"++execOk stdout := (Except.ok.inj henc).symm
  have hbin : stdout.length ≤ (msgBin stdout).length := by
    rw [msgBin,List.length_append]
    exact Nat.le_add_left _ _
  have hexec : (msgBin stdout).length < (execOk stdout).length := by
    simp only [execOk,List.length_append,List.length_cons]
    omega
  rw [hbody,List.length_append] at hlen
  omega

theorem dead_of_large_output {stdout : List UInt8} (h : defaultMaxFrameBytes ≤ stdout.length) :
    (Ended.tail someVm
      (someVm.withClient "vm" "run" ((execPeers stdout).exchange piecemeal someExec)).2).state =
        .dead := by
  rw [state_tail_withClient]
  have hdeadly := (deadly_exchange piecemeal_reliable).mpr
    ⟨execPeers_reached stdout,rfl,not_sendable_execOk h⟩
  exact if_pos ⟨rfl,rfl,rfl,hdeadly⟩

/-- A command that writes 128 MiB. -/
theorem large_output_marks_the_vm_dead : piecemeal.Reliable ∧ someVm.state = .booted ∧
    (Ended.tail someVm (someVm.withClient "vm" "run"
      ((execPeers (List.replicate defaultMaxFrameBytes 120)).exchange piecemeal someExec)).2).state =
        .dead := by
  refine ⟨piecemeal_reliable,rfl,dead_of_large_output ?_⟩
  rw [List.length_replicate]

end Sample

end Provium.Host
