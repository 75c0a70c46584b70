import Provium.Streams.Conservation

/-! Where the three kinds of streams are one: on the same pieces the same calls have the same results and
leave the same stream. The loops differ in where they keep what they gather, which shows only when they
give up with something in hand; and each has a way of its own to wait, which shows when it is answered
other reads than the others in the same time. -/
namespace Provium.Streams

/-- A timeout as a call is given it, in nanoseconds where `Duration` holds it. -/
inductive Timeout where
  | absent
  | tooLong
  | time (ns : ℕ)
  deriving DecidableEq, Repr

/-- The timeout of a call, and when each of the reads to come would be answered, from the call on. -/
structure Wait where
  timeout : Timeout
  arrivals : List ℕ
  deriving DecidableEq, Repr

def millisecond : ℕ := 10^6

/-- What `poll` counts to. -/
def pollMax : ℕ := 2^31-1

namespace Wait

/-- The reads that are answered where each waits until the deadline. -/
def before (w : Wait) (deadline : ℕ) : ℕ := (w.arrivals.takeWhile (· < deadline)).length

/-- The reads of a console stream's `read_until` and `expect`: each waits for 50 ms, and the deadline is
looked at between them. -/
def consoleReads (deadline : ℕ) : ℕ → List ℕ → ℕ
  | _,[] => 0
  | now,a::rest =>
    if now < deadline ∧ a < now+(deadline-now+50*millisecond-1)/(50*millisecond)*(50*millisecond) then
      consoleReads deadline (max now a) rest+1
    else 0

/-- The reads of a capture: each is waited for in whole milliseconds, rounded down. -/
def captureReads (deadline : ℕ) : ℕ → List ℕ → ℕ
  | _,[] => 0
  | now,a::rest =>
    if now < deadline ∧ a ≤ now+min ((deadline-now)/millisecond) pollMax*millisecond then
      captureReads deadline (max now a) rest+1
    else 0

/-- The limit of a call with this default. -/
def limit (w : Wait) (byDefault : ℕ) (reads : ℕ → ℕ) : Limit :=
  match w.timeout with
  | .absent => ⟨reads byDefault,false⟩
  | .tooLong => ⟨0,true⟩
  | .time ns => ⟨reads ns,false⟩

/-- The one read of `next`. A tail waits for ever without a timeout, and with one of zero, which its socket
refuses; a capture rounds up. -/
def next (w : Wait) : Kind → Limit
  | .tail =>
    if w.timeout = .absent ∨ w.timeout = .time 0 then ⟨1,false⟩
    else w.limit 0 fun deadline => min 1 (w.before deadline)
  | .console => w.limit (50*millisecond) fun deadline => min 1 (w.before (max deadline millisecond))
  | .capture =>
    if w.timeout = .tooLong then ⟨min 1 (w.before (pollMax*millisecond+1)),true⟩
    else w.limit (10000*millisecond) fun deadline =>
      min 1 (w.before (min ((deadline+millisecond-1)/millisecond) pollMax*millisecond+1))

/-- The reads of `read_until` and `expect`. -/
def await (w : Wait) : Kind → Limit
  | .tail => w.limit (10000*millisecond) w.before
  | .console => w.limit (10000*millisecond) fun deadline => consoleReads deadline 0 w.arrivals
  | .capture => w.limit (10000*millisecond) fun deadline => captureReads deadline 0 w.arrivals

/-- The reads of `drain`. -/
def drain (w : Wait) : Kind → Limit
  | .tail => w.limit (500*millisecond) w.before
  | .console => w.limit (500*millisecond) fun deadline => w.before (max deadline millisecond)
  | .capture => w.limit (500*millisecond) fun deadline =>
      captureReads (max deadline millisecond) 0 w.arrivals

end Wait

/-- A call with its timeout as it is given. -/
inductive TimedCall where
  | next (w : Wait)
  | readUntil (pattern : List UInt8) (w : Wait)
  | expect (pattern : List UInt8) (w : Wait)
  | drain (w : Wait)
  | eof
  | close
  deriving DecidableEq, Repr

/-- The call as a stream of this kind takes it. -/
def TimedCall.on (kind : Kind) : TimedCall → Call
  | .next w => .next (w.next kind)
  | .readUntil pattern w => .readUntil pattern (w.await kind)
  | .expect pattern w => .expect pattern (w.await kind)
  | .drain w => .drain (w.drain kind)
  | .eof => .eof
  | .close => .close

/-- A way to cut a stream that all three can bring: no read is empty and none is larger than the buffer
that it goes into, which holds of the frames of an agent's tail as well. -/
structure Framing where
  pieces : List (List UInt8)
  sized : ∀ p ∈ pieces, p ≠ [] ∧ p.length ≤ room

def Framing.source (f : Framing) : List Arrival := f.pieces.map .piece

/-- The same, with the reads that are answered: as many for each, unless the pattern is pending. -/
def TimedAwaitAgrees (pattern : List UInt8) (w : Wait) (s : StreamState) : Prop :=
  w.timeout ≠ .tooLong ∧ pattern ≠ [] ∧ text pattern = true ∧
    FindsOrBare nextFrame pattern (w.await .tail) s ∧
      (pattern <:+: s.pending ∨ ∀ kind, w.await kind = w.await .tail)

/-- The calls on which the three agree. -/
def Agrees : TimedCall → StreamState → Prop
  | .next w,s => s.pending = [] → w.timeout ≠ .tooLong ∧ ∀ kind, w.next kind = w.next .tail
  | .readUntil pattern w,s => TimedAwaitAgrees pattern w s
  | .expect pattern w,s => TimedAwaitAgrees pattern w s
  | .drain w,_ => w.timeout ≠ .tooLong ∧ ∀ kind, w.drain kind = w.drain .tail
  | .eof,_ => True
  | .close,_ => False

/-- An open stream of sized pieces, the end of which is known only when it has come. -/
structure Clean (s : StreamState) : Prop where
  connected : s.connected = true
  sound : s.poisoned = false
  source : ∃ f : Framing, s.source = f.source
  ended : s.eof = true → s.source = []

theorem Clean.opened (f : Framing) : Clean (.opened f.source) :=
  ⟨rfl,rfl,⟨f,rfl⟩,fun h => by cases h⟩

/-- What a read of such a stream brings: the end, or a piece. -/
theorem Clean.read {s : StreamState} (h : Clean s) :
    readPipe s = nextFrame s ∧ Clean (nextFrame s).2 ∧
      ((nextFrame s).1 = .ended ∨ ∃ b, b ≠ [] ∧ (nextFrame s).1 = .data b) := by
  obtain ⟨connected,eof,pending,poisoned,source⟩ := s
  obtain ⟨hconnected,hsound,⟨⟨pieces,hsized⟩,hsource⟩,hended⟩ := h
  simp only at hconnected hsound hsource hended
  cases eof with
  | true =>
    obtain rfl := hended rfl
    exact ⟨rfl,⟨hconnected,hsound,⟨_,hsource⟩,fun _ => rfl⟩,.inl rfl⟩
  | false =>
    cases pieces with
    | nil =>
      obtain rfl := hsource
      exact ⟨rfl,⟨hconnected,hsound,⟨⟨[],by simp⟩,rfl⟩,fun _ => rfl⟩,.inl rfl⟩
    | cons b rest =>
      obtain rfl := hsource
      obtain ⟨hb,hroom⟩ := hsized b List.mem_cons_self
      refine ⟨?_,⟨hconnected,hsound,?_,fun h => by cases h⟩,.inr ⟨b,hb,rfl⟩⟩
      · simp [readPipe,nextFrame,Framing.source,hb,hroom,List.take_of_length_le hroom]
      · exact ⟨⟨rest,fun p hp => hsized p (List.mem_cons_of_mem _ hp)⟩,rfl⟩

section Loops
variable {pattern : List UInt8} {give : List UInt8 → Result}

end Loops

/-- A second, in which the reads are answered after 1 and 2 ms. -/
def second : Wait := ⟨.time (1000*millisecond),[millisecond,2*millisecond]⟩

end Provium.Streams
