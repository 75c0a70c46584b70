import Provium.Lib.Machine

/-! `proc_stream` against the threads that drain a process's pipes and a `Wait` on the process. The
streamer takes the process's absence from the table for the end, and `Wait` takes the process out of it
before anything else. -/
namespace Provium.Agent
open Lib

inductive ProcStreamChannel where
  | stdout
  | stderr
  deriving DecidableEq, Repr

/-- `ProcessSlot`, as far as it is looked at: whether the drain threads are still to be joined. -/
structure ProcessSlot where
  join : ProcStreamChannel → Bool

/-- Where a streamer stands, with how much of the buffer it has consumed. -/
inductive StreamPhase where
  | unopened
  | refused
  | reading (consumed : ℕ)
  | writing (chunk : List UInt8) (consumed : ℕ)
  | asking (consumed : ℕ)
  | lastReading (consumed : ℕ)
  | lastWriting (chunk : List UInt8)
  | ending
  | ended
  | gone
  deriving DecidableEq, Repr

/-- One of a process's outputs on its way: what has been written in all, the pipe, what `drain_into` has
read and not yet appended, the buffer, and the frames that have been sent. -/
structure Channel where
  written : List UInt8
  pipe : List UInt8
  held : List UInt8
  buf : List UInt8
  hungUp : Bool
  drained : Bool
  peer : Bool
  phase : StreamPhase
  frames : List (List UInt8)
  deriving DecidableEq, Repr

/-- Where `wait` stands. -/
inductive WaitPhase where
  | idle
  | waiting (timed : Bool)
  | joining (c : ProcStreamChannel)
  | taking (c : ProcStreamChannel)
  | answered
  deriving DecidableEq, Repr

structure ProcState where
  exited : Bool
  slot : Option ProcessSlot
  waiter : WaitPhase
  channel : ProcStreamChannel → Channel

def ProcState.setChannel (s : ProcState) (c : ProcStreamChannel) (ch : Channel) : ProcState :=
  { s with channel := Function.update s.channel c ch }

/-- A process that `run_async` has spawned. -/
def ProcState.spawned : ProcState :=
  ⟨false,some ⟨fun _ => true⟩,.idle,fun _ => ⟨[],[],[],[],false,false,true,.unopened,[]⟩⟩

inductive ProcAction where
  | write (c : ProcStreamChannel) (b : List UInt8)
  | hangUp (c : ProcStreamChannel)
  | exit
  | drainRead (c : ProcStreamChannel) (n : ℕ)
  | drainAppend (c : ProcStreamChannel)
  | drainEnd (c : ProcStreamChannel)
  | openStream (c : ProcStreamChannel)
  | stream (c : ProcStreamChannel)
  | dropPeer (c : ProcStreamChannel)
  | wait (timed : Bool)
  | timeOut
  | waiter
  | waitFails
  deriving DecidableEq, Repr

/-- What the streamer's look into the table comes to. -/
def ProcState.streamDone (s : ProcState) (c : ProcStreamChannel) : Bool :=
  match s.slot with
  | some slot => !slot.join c
  | none => true

/-- `DEFAULT_MAX_FRAME_BYTES` -/
def maxFrameBytes : ℕ := 128*1024*1024

section
variable (frameSize : ℕ → ℕ)

/-- `write_frame` takes a frame of so many bytes, once encoded. -/
def fits (chunk : List UInt8) : Bool := decide (frameSize chunk.length ≤ maxFrameBytes)

/-- One step of the loop of `proc_stream`. A frame that cannot be written ends it without a word, but
the error of the last one is ignored. -/
def Channel.stream (done : Bool) (ch : Channel) : Option Channel :=
  match ch.phase with
  | .unopened => none
  | .refused => none
  | .reading n =>
    if ch.buf.length > n then some { ch with phase := .writing (ch.buf.drop n) ch.buf.length }
    else some { ch with phase := .asking n }
  | .writing b n =>
    if ch.peer && fits frameSize b then some { ch with frames := ch.frames++[b], phase := .reading n }
    else some { ch with phase := .gone }
  | .asking n => some { ch with phase := if done then .lastReading n else .reading n }
  | .lastReading n =>
    if ch.buf.length > n then some { ch with phase := .lastWriting (ch.buf.drop n) }
    else some { ch with phase := .ending }
  | .lastWriting b =>
    if ch.peer && fits frameSize b then some { ch with frames := ch.frames++[b], phase := .ending }
    else some { ch with phase := .ending }
  | .ending => some { ch with phase := if ch.peer then .ended else .gone }
  | .ended => none
  | .gone => none

/-- One step of `wait` after it has taken the process: the child is reaped, the drain threads are joined
and their buffers are taken, the stdout first. -/
def ProcState.wait (s : ProcState) : Option ProcState :=
  match s.waiter with
  | .idle => none
  | .waiting _ => if s.exited then some { s with waiter := .joining .stdout } else none
  | .joining c =>
    if (s.channel c).drained then
      some { s with waiter := match c with | .stdout => .joining .stderr | .stderr => .taking .stdout }
    else none
  | .taking c =>
    some { s.setChannel c { s.channel c with buf := [] } with
      waiter := match c with | .stdout => .taking .stderr | .stderr => .answered }
  | .answered => none

/-- The threads around one process. Whoever holds the write end of a pipe may write to it until the last
one has hung up. -/
def ProcState.step (s : ProcState) : ProcAction → Option (ProcState × Unit)
  | .write c b =>
    let ch := s.channel c
    if ch.hungUp then none
    else some (s.setChannel c { ch with written := ch.written++b, pipe := ch.pipe++b },())
  | .hangUp c => some (s.setChannel c { s.channel c with hungUp := true },())
  | .exit => some ({ s with exited := true },())
  | .drainRead c n =>
    let ch := s.channel c
    if 0 < n ∧ n ≤ 4096 ∧ n ≤ ch.pipe.length ∧ ch.held = [] ∧ ch.drained = false then
      some (s.setChannel c { ch with held := ch.pipe.take n, pipe := ch.pipe.drop n },())
    else none
  | .drainAppend c =>
    let ch := s.channel c
    some (s.setChannel c { ch with buf := ch.buf++ch.held, held := [] },())
  | .drainEnd c =>
    let ch := s.channel c
    if ch.hungUp ∧ ch.pipe = [] ∧ ch.held = [] then some (s.setChannel c { ch with drained := true },())
    else none
  | .openStream c =>
    let ch := s.channel c
    if ch.phase = .unopened then
      some (s.setChannel c { ch with phase := if s.slot.isSome then .reading 0 else .refused },())
    else none
  | .stream c => ((s.channel c).stream frameSize (s.streamDone c)).map fun ch => (s.setChannel c ch,())
  | .dropPeer c => some (s.setChannel c { s.channel c with peer := false },())
  | .wait timed => if s.slot.isSome then some ({ s with slot := none, waiter := .waiting timed },()) else some (s,())
  | .timeOut => if s.waiter = .waiting true then some ({ s with exited := true },()) else none
  | .waiter => s.wait.map (·,())
  | .waitFails =>
    match s.waiter with
    | .waiting _ => some ({ s with waiter := .joining .stdout },())
    | _ => none

def procMachine : Machine ProcState ProcAction Unit := ⟨ProcState.step frameSize⟩

/-- Once a stream has been ended the process has exited, its pipe is drained and all that was written
has been sent. -/
def ProcState.Complete (s : ProcState) : Prop :=
  ∀ c, (s.channel c).phase = .ended →
    (s.channel c).frames.flatten = (s.channel c).written ∧ s.exited = true ∧ (s.channel c).drained = true

/-- How much of the buffer a streamer has consumed that is still to look into it. -/
def StreamPhase.consumed : StreamPhase → Option ℕ
  | reading n => some n
  | writing _ n => some n
  | asking n => some n
  | lastReading n => some n
  | _ => none

/-- Nothing of the buffer is left for the streamer. -/
def Channel.Seen (ch : Channel) : Prop := ∀ n, ch.phase.consumed = some n → ch.buf.drop n = []

instance (ch : Channel) : Decidable ch.Seen :=
  match h : ch.phase.consumed with
  | none => .isTrue fun n hn => by rw [h] at hn; cases hn
  | some n => decidable_of_iff (ch.buf.drop n = []) ⟨fun hb m hm => by rw [h] at hm; cases hm; exact hb,fun hs => hs n h⟩

/-- The streamer's next step is no last look that comes too early and writes no last frame that is too
large. -/
def Channel.LooksInTime (ch : Channel) (exited : Bool) : Prop :=
  match ch.phase with
  | .lastReading _ => exited = true ∧ ch.drained = true
  | .lastWriting b => ch.peer = true → fits frameSize b = true
  | _ => True

instance (ch : Channel) (exited : Bool) : Decidable (ch.LooksInTime frameSize exited) := by
  unfold Channel.LooksInTime
  split <;> infer_instance

/-- The next step of `wait` takes no buffer that has not been sent. -/
def ProcState.TakesInTime (s : ProcState) : Prop :=
  match s.waiter with
  | .taking c => (s.channel c).Seen
  | _ => True

instance (s : ProcState) : Decidable s.TakesInTime := by
  unfold ProcState.TakesInTime
  split <;> infer_instance

/-- The last look into the buffer comes when the process has exited and its pipe is drained, the last
frame can be written if anyone is there to read it, and `wait` takes a buffer that has been sent. -/
def ProcState.Timely (s : ProcState) : ProcAction → Prop
  | .stream c => (s.channel c).LooksInTime frameSize s.exited
  | .waiter => s.TakesInTime
  | _ => True

instance (s : ProcState) : (a : ProcAction) → Decidable (s.Timely frameSize a)
  | .stream c => inferInstanceAs (Decidable ((s.channel c).LooksInTime frameSize s.exited))
  | .waiter => inferInstanceAs (Decidable s.TakesInTime)
  | .write .. | .hangUp _ | .exit | .drainRead .. | .drainAppend _ | .drainEnd _ | .openStream _
  | .dropPeer _ | .wait _ | .timeOut | .waitFails => .isTrue trivial

end

/-! What holds of one channel. -/

/-- What has been sent, with what is still to come, is what was written. -/
structure Channel.Carries (ch : Channel) (acc : List UInt8) (n : ℕ) : Prop where
  bytes : acc++(ch.buf.drop n++(ch.held++ch.pipe)) = ch.written
  inside : n ≤ ch.buf.length ∨ ch.drained = true

/-- The stream has all that will ever be written. -/
structure Channel.Finished (ch : Channel) (exited : Bool) (acc : List UInt8) : Prop where
  bytes : acc = ch.written
  exited : exited = true
  drained : ch.drained = true

/-- How far a streamer has come. -/
def Channel.Told (ch : Channel) (exited : Bool) : Prop :=
  match ch.phase with
  | .reading n => ch.Carries ch.frames.flatten n
  | .writing b n => ch.Carries (ch.frames.flatten++b) n
  | .asking n => ch.Carries ch.frames.flatten n
  | .lastReading n => ch.Carries ch.frames.flatten n
  | .lastWriting b => ch.Finished exited (ch.frames.flatten++b)
  | .ending => ch.peer = true → ch.Finished exited ch.frames.flatten
  | .ended => ch.Finished exited ch.frames.flatten
  | .unopened => ch.frames = []
  | .refused => True
  | .gone => True

structure Channel.Sound (ch : Channel) (exited slot : Bool) : Prop where
  empty : ch.drained = true → ch.hungUp = true ∧ ch.pipe = [] ∧ ch.held = []
  whole : slot = true → ch.buf++(ch.held++ch.pipe) = ch.written
  told : ch.Told exited

section Channels
variable {ch ch' : Channel} {e e' slot : Bool}

/-- What befalls a channel leaves its streamer where it is. -/
theorem Channel.Told.imp (h : ch.Told e) (hphase : ch'.phase = ch.phase) (hframes : ch'.frames = ch.frames)
    (hpeer : ch'.peer = true → ch.peer = true)
    (hcarries : ∀ acc n, ch.phase.consumed = some n → ch.Carries acc n → ch'.Carries acc n)
    (hfinished : ∀ acc, ch.Finished e acc → ch'.Finished e' acc) : ch'.Told e' := by
  unfold Channel.Told at h ⊢
  rw [hphase,hframes]
  cases hp : ch.phase with
  | reading n | writing b n | asking n | lastReading n =>
    rw [hp] at h
    exact hcarries _ _ (by rw [hp]; rfl) h
  | lastWriting b | ended =>
    rw [hp] at h
    exact hfinished _ h
  | ending =>
    rw [hp] at h
    exact fun hpeer' => hfinished _ (h (hpeer hpeer'))
  | unopened =>
    rw [hp] at h
    exact h
  | refused | gone => trivial

theorem Channel.Sound.write (h : ch.Sound e slot) (hopen : ¬ch.hungUp = true) (b : List UInt8) :
    Channel.Sound { ch with written := ch.written++b, pipe := ch.pipe++b } e slot := by
  have hdrained : ¬ch.drained = true := fun hd => hopen (h.empty hd).1
  refine ⟨fun hd => absurd hd hdrained,?_,h.told.imp rfl rfl id ?_ ?_⟩
  · intro hslot
    change ch.buf++(ch.held++(ch.pipe++b)) = ch.written++b
    rw [← h.whole hslot]
    simp only [List.append_assoc]
  · intro acc n _ hc
    refine ⟨?_,hc.inside⟩
    change acc++(ch.buf.drop n++(ch.held++(ch.pipe++b))) = ch.written++b
    rw [← hc.bytes]
    simp only [List.append_assoc]
  · intro acc hf
    exact absurd hf.drained hdrained

theorem Channel.Sound.hangUp (h : ch.Sound e slot) : Channel.Sound { ch with hungUp := true } e slot :=
  ⟨fun hd => ⟨rfl,(h.empty hd).2⟩,h.whole,
    h.told.imp rfl rfl id (fun _ _ _ hc => ⟨hc.bytes,hc.inside⟩) fun _ hf => ⟨hf.bytes,hf.exited,hf.drained⟩⟩

theorem Channel.Sound.dropPeer (h : ch.Sound e slot) : Channel.Sound { ch with peer := false } e slot :=
  ⟨h.empty,h.whole,
    h.told.imp rfl rfl nofun (fun _ _ _ hc => ⟨hc.bytes,hc.inside⟩) fun _ hf => ⟨hf.bytes,hf.exited,hf.drained⟩⟩

/-- The exit of the process, and its removal from the table. -/
theorem Channel.Sound.anew (h : ch.Sound e slot) {slot' : Bool} (he : e = true → e' = true)
    (hslot : slot' = true → slot = true) : ch.Sound e' slot' :=
  ⟨h.empty,fun hs => h.whole (hslot hs),
    h.told.imp rfl rfl id (fun _ _ _ hc => hc) fun _ hf => ⟨hf.bytes,he hf.exited,hf.drained⟩⟩

theorem Channel.Sound.drainRead (h : ch.Sound e slot) (hheld : ch.held = []) (hdrained : ch.drained = false)
    (n : ℕ) : Channel.Sound { ch with held := ch.pipe.take n, pipe := ch.pipe.drop n } e slot := by
  have hmoved : ch.pipe.take n++ch.pipe.drop n = ch.held++ch.pipe := by
    rw [List.take_append_drop,hheld,List.nil_append]
  refine ⟨fun hd => ?_,?_,h.told.imp rfl rfl id ?_ ?_⟩
  · rw [hdrained] at hd
    cases hd
  · intro hslot
    change ch.buf++(ch.pipe.take n++ch.pipe.drop n) = ch.written
    rw [hmoved]
    exact h.whole hslot
  · intro acc m _ hc
    refine ⟨?_,hc.inside⟩
    change acc++(ch.buf.drop m++(ch.pipe.take n++ch.pipe.drop n)) = ch.written
    rw [hmoved]
    exact hc.bytes
  · intro acc hf
    exact ⟨hf.bytes,hf.exited,hf.drained⟩

theorem Channel.Sound.drainAppend (h : ch.Sound e slot) :
    Channel.Sound { ch with buf := ch.buf++ch.held, held := [] } e slot := by
  refine ⟨fun hd => ⟨(h.empty hd).1,(h.empty hd).2.1,rfl⟩,?_,h.told.imp rfl rfl id ?_ ?_⟩
  · intro hslot
    change (ch.buf++ch.held)++([]++ch.pipe) = ch.written
    rw [← h.whole hslot]
    simp only [List.append_assoc,List.nil_append]
  · intro acc n _ hc
    refine ⟨?_,?_⟩
    · change acc++((ch.buf++ch.held).drop n++([]++ch.pipe)) = ch.written
      rw [← hc.bytes]
      obtain hle | hd := hc.inside
      · rw [List.drop_append_of_le_length hle,List.nil_append,List.append_assoc]
      · rw [(h.empty hd).2.2,List.append_nil]
    · obtain hle | hd := hc.inside
      · left
        change n ≤ (ch.buf++ch.held).length
        rw [List.length_append]
        omega
      · exact .inr hd
  · intro acc hf
    exact ⟨hf.bytes,hf.exited,hf.drained⟩

theorem Channel.Sound.drainEnd (h : ch.Sound e slot) (hhung : ch.hungUp = true) (hpipe : ch.pipe = [])
    (hheld : ch.held = []) : Channel.Sound { ch with drained := true } e slot :=
  ⟨fun _ => ⟨hhung,hpipe,hheld⟩,h.whole,
    h.told.imp rfl rfl id (fun _ _ _ hc => ⟨hc.bytes,.inr rfl⟩) fun _ hf => ⟨hf.bytes,hf.exited,rfl⟩⟩

theorem Channel.Sound.openStream (h : ch.Sound e slot) (hphase : ch.phase = .unopened) :
    Channel.Sound { ch with phase := if slot then .reading 0 else .refused } e slot := by
  have hframes : ch.frames = [] := by
    have htold := h.told
    unfold Channel.Told at htold
    rwa [hphase] at htold
  refine ⟨h.empty,h.whole,?_⟩
  cases hslot : slot with
  | false => trivial
  | true =>
    refine ⟨?_,.inl (Nat.zero_le _)⟩
    rw [hframes]
    exact h.whole hslot

/-- `wait` takes a buffer of which nothing is left for the streamer. -/
theorem Channel.Sound.take (h : ch.Sound e false) (hdrained : ch.drained = true) (hseen : ch.Seen) :
    Channel.Sound { ch with buf := [] } e false := by
  refine ⟨h.empty,nofun,h.told.imp rfl rfl id ?_ ?_⟩
  · intro acc n hn hc
    refine ⟨?_,.inr hdrained⟩
    have hbytes := hc.bytes
    rw [hseen n hn] at hbytes
    rw [← hbytes,List.drop_nil]
  · intro acc hf
    exact ⟨hf.bytes,hf.exited,hf.drained⟩

/-- A step of the streamer, where the last look comes in time and the last frame fits. -/
theorem Channel.Sound.stream {frameSize : ℕ → ℕ} {done : Bool} (h : ch.Sound e slot)
    (hlook : ∀ n, ch.phase = .lastReading n → e = true ∧ ch.drained = true)
    (hfits : ∀ b, ch.phase = .lastWriting b → ch.peer = true → fits frameSize b = true)
    (hstep : ch.stream frameSize done = some ch') : ch'.Sound e slot ∧ ch'.drained = ch.drained := by
  obtain ⟨written,pipe,held,buf,hungUp,drained,peer,phase,frames⟩ := ch
  obtain ⟨hempty,hwhole,htold⟩ := h
  unfold Channel.stream at hstep
  cases phase with
  | reading n =>
    simp only at hstep
    split at hstep
    · cases hstep
      refine ⟨⟨hempty,hwhole,?_,.inl le_rfl⟩,rfl⟩
      change (frames.flatten++buf.drop n)++(buf.drop buf.length++(held++pipe)) = written
      rw [List.drop_length,List.nil_append,List.append_assoc]
      exact htold.bytes
    · cases hstep
      exact ⟨⟨hempty,hwhole,htold.bytes,htold.inside⟩,rfl⟩
  | writing b n =>
    simp only at hstep
    split at hstep
    · cases hstep
      refine ⟨⟨hempty,hwhole,?_,htold.inside⟩,rfl⟩
      change (frames++[b]).flatten++(buf.drop n++(held++pipe)) = written
      rw [List.flatten_concat]
      exact htold.bytes
    · cases hstep
      exact ⟨⟨hempty,hwhole,trivial⟩,rfl⟩
  | asking n =>
    cases hstep
    refine ⟨⟨hempty,hwhole,?_⟩,rfl⟩
    cases done with
    | true => exact ⟨htold.bytes,htold.inside⟩
    | false => exact ⟨htold.bytes,htold.inside⟩
  | lastReading n =>
    obtain ⟨hexited,hdrained⟩ := hlook n rfl
    obtain ⟨-,hpipe,hheld⟩ := hempty hdrained
    simp only at hpipe hheld
    have hbytes : frames.flatten++buf.drop n = written := by
      have := htold.bytes
      simpa [hpipe,hheld] using this
    simp only at hstep
    split at hstep
    · cases hstep
      exact ⟨⟨hempty,hwhole,hbytes,hexited,hdrained⟩,rfl⟩
    · next hlength =>
      cases hstep
      rw [List.drop_eq_nil_of_le (by simpa using hlength),List.append_nil] at hbytes
      exact ⟨⟨hempty,hwhole,fun _ => ⟨hbytes,hexited,hdrained⟩⟩,rfl⟩
  | lastWriting b =>
    simp only at hstep
    split at hstep
    · cases hstep
      refine ⟨⟨hempty,hwhole,fun _ => ⟨?_,htold.exited,htold.drained⟩⟩,rfl⟩
      exact (List.flatten_concat ..).trans htold.bytes
    · next hwrite =>
      cases hstep
      refine ⟨⟨hempty,hwhole,fun hpeer => ?_⟩,rfl⟩
      exact absurd (by rw [Bool.and_eq_true]; exact ⟨hpeer,hfits b rfl hpeer⟩) hwrite
  | ending =>
    cases hstep
    refine ⟨⟨hempty,hwhole,?_⟩,rfl⟩
    cases peer with
    | true => exact ⟨(htold rfl).bytes,(htold rfl).exited,(htold rfl).drained⟩
    | false => trivial
  | unopened | refused | ended | gone => cases hstep

end Channels

/-! What holds of a process. -/

structure ProcState.Sound (s : ProcState) : Prop where
  channels : ∀ c, (s.channel c).Sound s.exited s.slot.isSome
  idle : s.slot.isSome = true → s.waiter = .idle
  joined : s.waiter = .joining .stderr → (s.channel .stdout).drained = true
  taken : ∀ c, s.waiter = .taking c → ∀ c', (s.channel c').drained = true

theorem ProcState.Sound.complete {s : ProcState} (h : s.Sound) : s.Complete := by
  intro c hended
  have htold := (h.channels c).told
  unfold Channel.Told at htold
  rw [hended] at htold
  exact ⟨htold.bytes,htold.exited,htold.drained⟩

@[simp] theorem ProcState.setChannel_self (s : ProcState) (c : ProcStreamChannel) (ch : Channel) :
    (s.setChannel c ch).channel c = ch := Function.update_self ..

theorem ProcState.setChannel_ne (s : ProcState) {c c' : ProcStreamChannel} (ch : Channel) (h : c' ≠ c) :
    (s.setChannel c ch).channel c' = s.channel c' := Function.update_of_ne h ..

/-- A channel that stays sound, and drained if it was. -/
theorem ProcState.Sound.setChannel {s : ProcState} (h : s.Sound) {c : ProcStreamChannel} {ch : Channel}
    (hch : ch.Sound s.exited s.slot.isSome) (hdrained : (s.channel c).drained = true → ch.drained = true) :
    (s.setChannel c ch).Sound := by
  have hkept : ∀ c', (s.channel c').drained = true → ((s.setChannel c ch).channel c').drained = true := by
    intro c' hd
    by_cases hc : c' = c
    · subst hc
      rw [ProcState.setChannel_self]
      exact hdrained hd
    · rw [ProcState.setChannel_ne s ch hc]
      exact hd
  refine ⟨?_,h.idle,fun hw => hkept _ (h.joined hw),fun c' hw c'' => hkept _ (h.taken c' hw c'')⟩
  intro c'
  by_cases hc : c' = c
  · subst hc
    rw [ProcState.setChannel_self]
    exact hch
  · rw [ProcState.setChannel_ne s ch hc]
    exact h.channels c'

/-- What only moves the waiter on, to where the joined threads are known. -/
theorem ProcState.Sound.setWaiter {s : ProcState} (h : s.Sound) (hslot : s.slot.isSome = false)
    {w : WaitPhase} (hjoined : w = .joining .stderr → (s.channel .stdout).drained = true)
    (htaken : ∀ c, w = .taking c → ∀ c', (s.channel c').drained = true) :
    ProcState.Sound { s with waiter := w } := by
  refine ⟨h.channels,?_,hjoined,htaken⟩
  intro hs
  rw [hslot] at hs
  cases hs

theorem ProcState.Sound.wait {s s' : ProcState} (h : s.Sound)
    (hseen : ∀ c, s.waiter = .taking c → (s.channel c).Seen) (hstep : s.wait = some s') : s'.Sound := by
  have hslot : s.waiter ≠ .idle → s.slot.isSome = false := by
    intro hw
    rw [Bool.eq_false_iff]
    exact fun hs => hw (h.idle hs)
  unfold ProcState.wait at hstep
  cases hw : s.waiter with
  | idle | answered =>
    rw [hw] at hstep
    cases hstep
  | waiting timed =>
    rw [hw] at hstep
    simp only at hstep
    split at hstep
    · cases hstep
      exact h.setWaiter (hslot (by simp [hw])) nofun nofun
    · cases hstep
  | joining c =>
    rw [hw] at hstep
    simp only at hstep
    split at hstep
    · next hdrained =>
      cases hstep
      cases c with
      | stdout => exact h.setWaiter (hslot (by simp [hw])) (fun _ => hdrained) nofun
      | stderr =>
        refine h.setWaiter (hslot (by simp [hw])) nofun fun _ _ c' => ?_
        cases c' with
        | stdout => exact h.joined hw
        | stderr => exact hdrained
    · cases hstep
  | taking c =>
    rw [hw] at hstep
    cases hstep
    have hs := hslot (by simp [hw])
    have hall := h.taken c hw
    have hch := h.channels c
    rw [hs] at hch
    have hset : (s.setChannel c { s.channel c with buf := [] }).Sound :=
      h.setChannel (by rw [hs]; exact hch.take (hall c) (hseen c hw)) id
    have hkept : ∀ c', ((s.setChannel c { s.channel c with buf := [] }).channel c').drained = true :=
      hset.taken c hw
    exact hset.setWaiter hs (fun _ => hkept _) fun _ _ => hkept

variable {frameSize : ℕ → ℕ}

theorem ProcState.Sound.step {s s' : ProcState} {a : ProcAction} {o : Unit} (h : s.Sound)
    (hok : s.Timely frameSize a) (hstep : (procMachine frameSize).step s a = some (s',o)) : s'.Sound := by
  change s.step frameSize a = some (s',o) at hstep
  cases a with
  | write c b =>
    simp only [ProcState.step] at hstep
    split at hstep
    · cases hstep
    · next hopen =>
      cases hstep
      exact h.setChannel ((h.channels c).write hopen b) id
  | hangUp c =>
    cases hstep
    exact h.setChannel (h.channels c).hangUp id
  | exit =>
    cases hstep
    exact ⟨fun c => (h.channels c).anew (fun _ => rfl) id,h.idle,h.joined,h.taken⟩
  | drainRead c n =>
    simp only [ProcState.step] at hstep
    split at hstep
    · next hguard =>
      cases hstep
      exact h.setChannel ((h.channels c).drainRead hguard.2.2.2.1 hguard.2.2.2.2 n) id
    · cases hstep
  | drainAppend c =>
    cases hstep
    exact h.setChannel (h.channels c).drainAppend id
  | drainEnd c =>
    simp only [ProcState.step] at hstep
    split at hstep
    · next hguard =>
      cases hstep
      exact h.setChannel ((h.channels c).drainEnd hguard.1 hguard.2.1 hguard.2.2) fun _ => rfl
    · cases hstep
  | openStream c =>
    simp only [ProcState.step] at hstep
    split at hstep
    · next hphase =>
      cases hstep
      exact h.setChannel ((h.channels c).openStream hphase) id
    · cases hstep
  | stream c =>
    obtain ⟨ch,hch,hs'⟩ := Option.map_eq_some_iff.mp hstep
    cases hs'
    have hlook : ∀ n, (s.channel c).phase = .lastReading n →
        s.exited = true ∧ (s.channel c).drained = true := by
      intro n hn
      simpa only [ProcState.Timely,Channel.LooksInTime,hn] using hok
    have hfits : ∀ b, (s.channel c).phase = .lastWriting b → (s.channel c).peer = true →
        fits frameSize b = true := by
      intro b hb
      simpa only [ProcState.Timely,Channel.LooksInTime,hb] using hok
    obtain ⟨hsound,hdrained⟩ := (h.channels c).stream hlook hfits hch
    exact h.setChannel hsound fun hd => hdrained.trans hd
  | dropPeer c =>
    cases hstep
    exact h.setChannel (h.channels c).dropPeer id
  | wait timed =>
    simp only [ProcState.step] at hstep
    split at hstep
    · cases hstep
      exact ⟨fun c => (h.channels c).anew id nofun,nofun,nofun,nofun⟩
    · cases hstep
      exact h
  | timeOut =>
    simp only [ProcState.step] at hstep
    split at hstep
    · cases hstep
      exact ⟨fun c => (h.channels c).anew (fun _ => rfl) id,h.idle,h.joined,h.taken⟩
    · cases hstep
  | waiter =>
    obtain ⟨s₁,hs₁,hs'⟩ := Option.map_eq_some_iff.mp hstep
    cases hs'
    refine h.wait (fun c hw => ?_) hs₁
    simpa only [ProcState.Timely,ProcState.TakesInTime,hw] using hok
  | waitFails =>
    cases hw : s.waiter with
    | waiting timed =>
      simp only [ProcState.step,hw] at hstep
      cases hstep
      refine h.setWaiter ?_ nofun nofun
      rw [Bool.eq_false_iff]
      intro hs
      have := h.idle hs
      rw [hw] at this
      cases this
    | idle | joining c | taking c | answered =>
      simp only [ProcState.step,hw] at hstep
      cases hstep

theorem ProcState.spawned_sound : ProcState.spawned.Sound :=
  ⟨fun _ => ⟨nofun,fun _ => rfl,rfl⟩,fun _ => rfl,nofun,nofun⟩

/-- In every run in which the last looks are in time and `wait` takes only what has been sent, a stream
that has been ended is the whole output of a process that has exited. -/
theorem proc_stream_complete {as : List ProcAction} {os : List Unit} {t : ProcState}
    (hok : (procMachine frameSize).Obeys (ProcState.Timely frameSize) .spawned as)
    (hrun : (procMachine frameSize).run .spawned as = some (t,os)) : t.Complete :=
  (Machine.run_obeys (procMachine frameSize)
    (fun _ _ _ _ h ha hs => ProcState.Sound.step h ha hs) ProcState.spawned_sound hok hrun).complete

/-- The size of a `StreamFrame` as MessagePack writes it. -/
def streamFrameSize (n : ℕ) : ℕ := 30+(if n < 256 then 2 else if n < 65536 then 3 else 5)+n

/-- The process writes, exits, is drained and streamed before anyone waits for it. -/
def patientRun : List ProcAction :=
  [.openStream .stdout,.write .stdout [1,2],.drainRead .stdout 2,.drainAppend .stdout,.stream .stdout,
    .stream .stdout,.exit,.hangUp .stdout,.hangUp .stderr,.drainEnd .stdout,.drainEnd .stderr,.wait false,
    .waiter,.waiter,.waiter,.waiter,.stream .stdout,.stream .stdout,.stream .stdout,.stream .stdout]

theorem proc_stream_complete_patient : ∃ t os,
    (procMachine streamFrameSize).run .spawned patientRun = some (t,os) ∧
      (t.channel .stdout).phase = .ended ∧ t.Complete :=
  ⟨_,_,rfl,rfl,@proc_stream_complete streamFrameSize patientRun _ _ (by decide +kernel) rfl⟩

/-- Someone waits for a process that is still running. -/
def hastyRun : List ProcAction :=
  [.openStream .stdout,.wait false,.stream .stdout,.stream .stdout,.stream .stdout,.stream .stdout,
    .write .stdout [1,2]]

/-- `wait` takes the buffer before the streamer has looked. -/
def lateRun : List ProcAction :=
  [.openStream .stdout,.write .stdout [1,2],.drainRead .stdout 2,.drainAppend .stdout,.exit,.hangUp .stdout,
    .hangUp .stderr,.drainEnd .stdout,.drainEnd .stderr,.wait false,.waiter,.waiter,.waiter,.waiter,
    .stream .stdout,.stream .stdout,.stream .stdout,.stream .stdout]

theorem proc_stream_cut :
    (∃ t os, (procMachine streamFrameSize).run .spawned hastyRun = some (t,os) ∧
      (t.channel .stdout).phase = .ended ∧ t.exited = false ∧ (t.channel .stdout).frames = []) ∧
    (∃ t os, (procMachine streamFrameSize).run .spawned lateRun = some (t,os) ∧
      (t.channel .stdout).phase = .ended ∧ (t.channel .stdout).frames = [] ∧
      (t.channel .stdout).written = [1,2]) ∧
    ¬∀ as t os, (procMachine streamFrameSize).run .spawned as = some (t,os) → t.Complete := by
  refine ⟨⟨_,_,rfl,rfl,rfl,rfl⟩,⟨_,_,rfl,rfl,rfl,rfl⟩,?_⟩
  intro h
  have hcomplete := h hastyRun _ _ rfl .stdout rfl
  exact absurd hcomplete.2.1 (by decide)

end Provium.Agent
