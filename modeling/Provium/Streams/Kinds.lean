import Mathlib

/-! The streams that Lua reads from: `TailUd`, `ConsoleStreamUd` and `CaptureUd`. Each keeps the bytes
that it has read and not yet given out. A read that times out before the deadline of its call is made
again, so of the clock it only matters how many reads are answered before the deadline. -/
namespace Provium.Streams

/-- What a stream brings: a piece of it, or a fault. After the last one the connection is gone. -/
inductive Arrival where
  | piece (b : List UInt8)
  | fault (last : Bool)
  deriving DecidableEq, Repr

def Arrival.bytes : Arrival → List UInt8
  | piece b => b
  | fault _ => []

/-- How many reads are answered before the deadline, and whether the argument is more seconds than
`Duration` and `Instant` hold. -/
structure Limit where
  reads : ℕ
  tooLong : Bool := false
  deriving DecidableEq, Repr

inductive Call where
  | next (limit : Limit)
  | readUntil (pattern : List UInt8) (limit : Limit)
  | expect (pattern : List UInt8) (limit : Limit)
  | drain (limit : Limit)
  | eof
  | close
  deriving DecidableEq, Repr

inductive StreamError where
  | closed
  | timedOut
  | ended
  | fault
  | notText
  | poisoned
  deriving DecidableEq, Repr

/-- What a call comes to. `expect` returns nothing; what it has passed over is kept on record. -/
inductive Result where
  | nothing
  | bytes (b : List UInt8)
  | passed (b : List UInt8)
  | frames (l : List (List UInt8))
  | flag (b : Bool)
  | error (e : StreamError)
  | panic
  deriving DecidableEq, Repr

/-- `TailInner`, `ConsoleStreamInner` and `CaptureInner`, with what is still to come. -/
structure StreamState where
  connected : Bool
  eof : Bool
  pending : List UInt8
  poisoned : Bool
  source : List Arrival
  deriving DecidableEq, Repr

/-- A stream that has been opened. -/
def StreamState.opened (source : List Arrival) : StreamState := ⟨true,false,[],false,source⟩

def StreamState.unread (s : StreamState) : List UInt8 := s.source.flatMap Arrival.bytes

/-- The place of a pattern, `haystack_find`; and `windows(..).position(..)` of one that is not empty. -/
def search (pattern : List UInt8) : List UInt8 → Option ℕ
  | [] => if pattern = [] then some 0 else none
  | c::s => if pattern.isPrefixOf (c::s) then some 0 else (search pattern s).map (·+1)

/-- One read. -/
inductive Got where
  | data (b : List UInt8)
  | ended
  | fault (last : Bool)
  deriving DecidableEq, Repr

/-- `TailFileSession::next_frame`. -/
def nextFrame (s : StreamState) : Got × StreamState :=
  if s.eof then (.ended,s)
  else match s.source with
    | [] => (.ended,{ s with eof := true })
    | .piece b::rest => (.data b,{ s with source := rest })
    | .fault last::rest => (.fault last,{ s with source := rest, eof := last })

/-- The size of the buffer that is read into. -/
def room : ℕ := 64*1024

/-- A read of the console's socket or of tcpdump's output. Each call site takes a read of no bytes for
the end and notes it. -/
def readPipe (s : StreamState) : Got × StreamState :=
  match s.source with
  | [] => (.ended,{ s with eof := true })
  | .piece b::rest =>
    if b = [] then (.ended,{ s with eof := true, source := rest })
    else (.data (b.take room),
      { s with source := if b.length ≤ room then rest else .piece (b.drop room)::rest })
  | .fault last::rest => (.fault last,{ s with source := rest })

/-- The loop of `read_until` and `expect` in `TailUd` and `CaptureUd`. What has been gathered is kept
nowhere else. -/
def gather (read : StreamState → Got × StreamState) (pattern : List UInt8) (give : List UInt8 → Result) :
    ℕ → List UInt8 → StreamState → Result × StreamState
  | 0,_,s => (.error (if s.connected then .timedOut else .closed),s)
  | k+1,acc,s =>
    if !s.connected then (.error .closed,s)
    else match read s with
      | (.data b,s) =>
        match search pattern (acc++b) with
        | some i => (give ((acc++b).take (i+pattern.length)),
            { s with pending := (acc++b).drop (i+pattern.length) })
        | none => gather read pattern give k (acc++b) s
      | (.ended,s) => (.error .ended,s)
      | (.fault _,s) => (.error .fault,s)

/-- From what is pending, and then from what comes. -/
def take (read : StreamState → Got × StreamState) (pattern : List UInt8) (give : List UInt8 → Result)
    (reads : ℕ) (s : StreamState) : Result × StreamState :=
  match search pattern s.pending with
  | some i => (give (s.pending.take (i+pattern.length)),
      { s with pending := s.pending.drop (i+pattern.length) })
  | none => gather read pattern give reads s.pending { s with pending := [] }

/-- The frames that a drain begins with. -/
def StreamState.held (s : StreamState) : List (List UInt8) := if s.pending = [] then [] else [s.pending]

/-- The pattern is a Rust `String`. -/
def text (pattern : List UInt8) : Bool := ByteArray.validateUTF8 ⟨pattern.toArray⟩

namespace Tail

def next (limit : Limit) (s : StreamState) : Result × StreamState :=
  if s.poisoned then (.error .poisoned,s)
  else if s.pending ≠ [] then (.bytes s.pending,{ s with pending := [] })
  else if !s.connected then (.nothing,s)
  else if limit.tooLong then (.panic,{ s with poisoned := true })
  else if limit.reads = 0 then (.nothing,s)
  else match nextFrame s with
    | (.data b,s) => (.bytes b,s)
    | (.ended,s) => (.nothing,s)
    | (.fault _,s) => (.error .fault,s)

/-- `read_until` and `expect`. -/
def await (pattern : List UInt8) (give : List UInt8 → Result) (limit : Limit) (s : StreamState) :
    Result × StreamState :=
  if !text pattern then (.error .notText,s)
  else if limit.tooLong then (.panic,s)
  else if s.poisoned then (.error .poisoned,s)
  else take nextFrame pattern give limit.reads s

/-- On a fault the frames that have been collected go with the table. -/
def drainLoop : ℕ → List (List UInt8) → StreamState → Result × StreamState
  | 0,out,s => (.frames out,s)
  | k+1,out,s =>
    if !s.connected then (.frames out,s)
    else match nextFrame s with
      | (.data b,s) => drainLoop k (out++[b]) s
      | (.ended,s) => (.frames out,s)
      | (.fault _,s) => (.error .fault,s)

def drain (limit : Limit) (s : StreamState) : Result × StreamState :=
  if limit.tooLong then (.panic,s)
  else if s.poisoned then (.error .poisoned,s)
  else drainLoop limit.reads s.held { s with pending := [] }

def eof (s : StreamState) : Result × StreamState :=
  if s.poisoned then (.error .poisoned,s)
  else if s.pending ≠ [] then (.flag false,s)
  else (.flag (if s.connected then s.eof else true),s)

def close (s : StreamState) : Result × StreamState :=
  if s.poisoned then (.error .poisoned,s)
  else (.nothing,{ s with connected := false, pending := [] })

end Tail

/-- The loop of `drain` in `ConsoleStreamUd` and `CaptureUd`. -/
def drainPipe : ℕ → List (List UInt8) → StreamState → Result × StreamState
  | 0,out,s => (.frames out,s)
  | k+1,out,s =>
    if !s.connected then (.frames out,s)
    else match readPipe s with
      | (.data b,s) => drainPipe k (out++[b]) s
      | (.ended,s) => (.frames out,s)
      | (.fault _,s) => (.frames out,s)

/-- `eof` of a console stream or a capture. -/
def pipeEof (s : StreamState) : Result × StreamState :=
  if s.poisoned then (.panic,s)
  else if s.pending ≠ [] then (.flag false,s)
  else (.flag s.eof,s)

/-- `close` of a console stream or a capture. -/
def pipeClose (s : StreamState) : Result × StreamState :=
  if s.poisoned then (.panic,s)
  else (.nothing,{ s with connected := false, eof := true, pending := [] })

namespace Console

def next (limit : Limit) (s : StreamState) : Result × StreamState :=
  if s.poisoned then (.panic,s)
  else if s.pending ≠ [] then (.bytes s.pending,{ s with pending := [] })
  else if s.eof then (.nothing,s)
  else if !s.connected then (.nothing,{ s with eof := true })
  else if limit.tooLong then (.panic,{ s with poisoned := true })
  else if limit.reads = 0 then (.nothing,s)
  else match readPipe s with
    | (.data b,s) => (.bytes b,s)
    | (.ended,s) => (.nothing,s)
    | (.fault _,s) => (.error .fault,s)

/-- The loops of `read_until_inner` and `expect_inner`. What is read goes to the pending bytes; the
search of an empty pattern panics while they are locked. -/
def awaitLoop (pattern : List UInt8) (give : List UInt8 → Result) : ℕ → StreamState → Result × StreamState
  | reads,s =>
    if pattern = [] then (.panic,{ s with poisoned := true })
    else match search pattern s.pending with
      | some i => (give (s.pending.take (i+pattern.length)),
          { s with pending := s.pending.drop (i+pattern.length) })
      | none => match reads with
        | 0 => (.error .timedOut,s)
        | k+1 =>
          if !s.connected then (.error .closed,s)
          else match readPipe s with
            | (.data b,s) => awaitLoop pattern give k { s with pending := s.pending++b }
            | (.ended,s) => (.error .ended,s)
            | (.fault last,s) =>
              if last then (.error .ended,{ s with eof := true }) else (.error .fault,s)

def await (pattern : List UInt8) (give : List UInt8 → Result) (limit : Limit) (s : StreamState) :
    Result × StreamState :=
  if limit.tooLong then (.panic,s)
  else if s.poisoned then (.panic,s)
  else awaitLoop pattern give limit.reads s

def drain (limit : Limit) (s : StreamState) : Result × StreamState :=
  if limit.tooLong then (.panic,s)
  else if s.poisoned then (.panic,s)
  else drainPipe limit.reads s.held { s with pending := [] }

end Console

namespace Capture

/-- `poll` takes any timeout, cut to what it can count. -/
def next (limit : Limit) (s : StreamState) : Result × StreamState :=
  if s.poisoned then (.panic,s)
  else if s.pending ≠ [] then (.bytes s.pending,{ s with pending := [] })
  else if s.eof then (.nothing,s)
  else if !s.connected then (.nothing,{ s with eof := true })
  else if limit.reads = 0 then (.nothing,s)
  else match readPipe s with
    | (.data b,s) => (.bytes b,s)
    | (.ended,s) => (.nothing,s)
    | (.fault _,s) => (.error .fault,s)

/-- `read_until` and `expect`. The search of an empty pattern panics when the pending bytes have been
taken and nothing is locked. -/
def await (pattern : List UInt8) (give : List UInt8 → Result) (limit : Limit) (s : StreamState) :
    Result × StreamState :=
  if limit.tooLong then (.panic,s)
  else if s.poisoned then (.panic,s)
  else if pattern = [] then (.panic,{ s with pending := [] })
  else take readPipe pattern give limit.reads s

def drain (limit : Limit) (s : StreamState) : Result × StreamState :=
  if limit.tooLong then (.panic,s)
  else if s.poisoned then (.panic,s)
  else if s.eof then (.frames s.held,{ s with pending := [] })
  else drainPipe limit.reads s.held { s with pending := [] }

end Capture

inductive Kind where
  | tail
  | console
  | capture
  deriving DecidableEq, Repr

/-- A call of a Lua method. -/
def call : Kind → Call → StreamState → Result × StreamState
  | .tail,.next l,s => Tail.next l s
  | .tail,.readUntil p l,s => Tail.await p .bytes l s
  | .tail,.expect p l,s => Tail.await p .passed l s
  | .tail,.drain l,s => Tail.drain l s
  | .tail,.eof,s => Tail.eof s
  | .tail,.close,s => Tail.close s
  | .console,.next l,s => Console.next l s
  | .console,.readUntil p l,s => Console.await p .bytes l s
  | .console,.expect p l,s => Console.await p .passed l s
  | .console,.drain l,s => Console.drain l s
  | .console,.eof,s => pipeEof s
  | .console,.close,s => pipeClose s
  | .capture,.next l,s => Capture.next l s
  | .capture,.readUntil p l,s => Capture.await p .bytes l s
  | .capture,.expect p l,s => Capture.await p .passed l s
  | .capture,.drain l,s => Capture.drain l s
  | .capture,.eof,s => pipeEof s
  | .capture,.close,s => pipeClose s

/-- One call after the other, with the result of each. -/
def calls (kind : Kind) : List Call → StreamState → List Result × StreamState
  | [],s => ([],s)
  | c::cs,s =>
    let (r,s) := call kind c s
    let (rs,s) := calls kind cs s
    (r::rs,s)

/-! The search. -/

/-- A pattern is found exactly where there is one. -/
theorem search_isSome {pattern hay : List UInt8} : (search pattern hay).isSome ↔ pattern <:+: hay := by
  induction hay with
  | nil =>
    unfold search
    split
    · next hnil => simp [hnil]
    · next hne => simpa using hne
  | cons c s ih =>
    unfold search
    rw [List.infix_cons_iff]
    split
    · next hbefore => simp [List.isPrefixOf_iff_prefix.mp hbefore]
    · next hbefore =>
      rw [Option.isSome_map,ih]
      refine ⟨.inr,?_⟩
      rintro (h | h)
      · exact absurd (List.isPrefixOf_iff_prefix.mpr h) hbefore
      · exact h

theorem search_eq_none {pattern hay : List UInt8} : search pattern hay = none ↔ ¬pattern <:+: hay := by
  rw [← search_isSome,Option.not_isSome_iff_eq_none]

end Provium.Streams
