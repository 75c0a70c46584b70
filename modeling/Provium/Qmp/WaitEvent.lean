import Provium.Lib.Cursor
import Provium.Qmp.EventLog

/-! `wait_event`: any number of threads that wait on the event log of one connection, while the
reader appends to it and a shutdown closes it. A waiter looks at the log only with the lock held,
and it may wake at any time, notified or not. -/
namespace Provium.Qmp
open Lib

/-- `event_mark`. -/
def Conn.eventMark (s : Conn) : ℕ := s.log.events.length

def scanForMatch (events : List Event) (since : ℕ) (name : String) (predicate : Event → Bool) :
    Option Event :=
  (events.drop since).find? fun e => e.name == name && predicate e

/-- Where one call of `wait_event` stands. -/
inductive WaitPhase where
  /-- It has its budget and is about to lock the log. -/
  | entered
  /-- It has given the lock back and waits, with its `next_event`. -/
  | parked (nextEvent : ℕ)
  | returned (result : Except QmpError Event)

structure Wait where
  name : String
  since : ℕ
  predicate : Event → Bool
  timeout : ℕ
  phase : WaitPhase

namespace Wait

/-- The events that the call waits for. -/
def hit (w : Wait) (e : Event) : Bool := e.name == w.name && w.predicate e

/-- One turn of the loop, up to its wait. -/
def turn (w : Wait) (log : EventLog) (nextEvent : ℕ) (expired : Bool) : WaitPhase :=
  match scanForMatch log.events nextEvent w.name w.predicate with
  | some found => .returned (.ok found)
  | none =>
    let nextEvent := max nextEvent log.events.length
    if log.closed then .returned (.error (.closed log.closeReason))
    else if expired then .returned (.error (.timeout w.timeout))
    else .parked nextEvent

/-- The lock is held again: what follows the wait. -/
def wake (w : Wait) (log : EventLog) (nextEvent : ℕ) (timedOut expired : Bool) : WaitPhase :=
  if timedOut then
    match scanForMatch log.events nextEvent w.name w.predicate with
    | some found => .returned (.ok found)
    | none => .returned (.error (.timeout w.timeout))
  else w.turn log nextEvent expired

end Wait

/-- The sections of a call in which it holds the lock, with what the clock and the condition variable
say there. -/
inductive WaitStep where
  | lock (expired : Bool)
  | wake (timedOut expired : Bool)

/-- A connection and the calls of `wait_event` on it. Calls keep their number for good. -/
structure EventWaits where
  conn : Conn
  waits : List Wait

def EventWaits.new : EventWaits := ⟨Conn.new,[]⟩

inductive WaitAction where
  | conn (a : Action)
  /-- A caller enters, its timeout too large for the clock or not. -/
  | waitEvent (name : String) (since : ℕ) (predicate : Event → Bool) (timeout : ℕ) (tooLarge : Bool)
  | proceed (k : ℕ) (step : WaitStep)

inductive WaitObs where
  | conn (o : Obs)
  | silent
  | refused (e : QmpError)
  | waited (k : ℕ) (result : Except QmpError Event)

namespace EventWaits

/-- The call goes on to this phase. -/
def settle (m : EventWaits) (k : ℕ) (phase : WaitPhase) : EventWaits × WaitObs :=
  ({ m with waits := m.waits.modify k fun w => { w with phase } },
    match phase with
    | .returned result => .waited k result
    | _ => .silent)

def proceed (m : EventWaits) (k : ℕ) (w : Wait) (step : WaitStep) : Option (EventWaits × WaitObs) :=
  match w.phase,step with
  | .entered,.lock expired => some (m.settle k (w.turn m.conn.log w.since expired))
  | .parked nextEvent,.wake timedOut expired =>
    some (m.settle k (w.wake m.conn.log nextEvent timedOut expired))
  | _,_ => none

def step (m : EventWaits) : WaitAction → Option (EventWaits × WaitObs)
  | .conn a => (m.conn.step a).map fun q => ({ m with conn := q.1 },.conn q.2)
  | .waitEvent name since predicate timeout tooLarge =>
    if tooLarge then some (m,.refused (.io .other))
    else some ({ m with waits := m.waits++[⟨name,since,predicate,timeout,.entered⟩] },.silent)
  | .proceed k step => (m.waits[k]?).bind fun w => m.proceed k w step

end EventWaits

def waitMachine : Machine EventWaits WaitAction WaitObs := ⟨EventWaits.step⟩

/-- What the phase of a call says about the log. -/
def Wait.Sound (w : Wait) (events : List Event) : Prop :=
  match w.phase with
  | .entered => True
  | .parked nextEvent => Cleared w.hit w.since events nextEvent
  | .returned (.ok e) => FirstFrom w.hit w.since events e
  | .returned (.error _) => True

def EventWaits.Sound (m : EventWaits) : Prop := ∀ w ∈ m.waits, w.Sound m.conn.log.events

namespace Wait
variable {w : Wait} {events events' : List Event} {log : EventLog} {nextEvent : ℕ}

theorem Sound.mono (h : w.Sound events) (hlog : events <+: events') : w.Sound events' := by
  unfold Sound at h ⊢
  split at h
  · trivial
  · exact h.mono hlog
  · exact h.mono hlog
  · trivial

/-- What a call that has the lock may go on to: an event that it returns is the first one that it
waits for, and if there is one, then it is returned. -/
structure Decides (w : Wait) (events : List Event) (phase : WaitPhase) : Prop where
  sound : { w with phase }.Sound events
  found : ∀ e, phase = .returned (.ok e) ↔ FirstFrom w.hit w.since events e
  missed : (∀ e, phase ≠ .returned (.ok e)) → NoneFrom w.hit w.since events

theorem decides_found {e : Event} (h : FirstFrom w.hit w.since events e) :
    w.Decides events (.returned (.ok e)) := by
  refine ⟨h,fun e' => ⟨?_,fun h' => by rw [h.unique h']⟩,fun hc => absurd rfl (hc e)⟩
  intro heq
  cases heq
  exact h

theorem decides_missed {phase : WaitPhase} (h : NoneFrom w.hit w.since events)
    (hsound : { w with phase }.Sound events) (hphase : ∀ e, phase ≠ .returned (.ok e)) :
    w.Decides events phase :=
  ⟨hsound,fun e => iff_of_false (hphase e) fun hc => hc.not_noneFrom h,fun _ => h⟩

theorem turn_decides (h : Cleared w.hit w.since log.events nextEvent) (expired : Bool) :
    w.Decides log.events (w.turn log nextEvent expired) := by
  unfold turn
  split
  · next found hscan => exact decides_found (h.firstFrom_of_find hscan)
  · next hscan =>
    have hnone := h.noneFrom_of_find hscan
    dsimp only
    split_ifs
    · exact decides_missed hnone trivial fun e hc => by cases hc
    · exact decides_missed hnone trivial fun e hc => by cases hc
    · exact decides_missed hnone (h.advance hnone) fun e hc => by cases hc

theorem wake_decides (h : Cleared w.hit w.since log.events nextEvent) (timedOut expired : Bool) :
    w.Decides log.events (w.wake log nextEvent timedOut expired) := by
  unfold wake
  split
  · split
    · next found hscan => exact decides_found (h.firstFrom_of_find hscan)
    · next hscan =>
      exact decides_missed (h.noneFrom_of_find hscan) trivial fun e hc => by cases hc
  · exact turn_decides h expired

end Wait

namespace EventWaits
variable {m m' : EventWaits} {o : WaitObs}

/-- A step of a call, from a sound state, decides on what the log holds. -/
theorem proceed_decides (h : m.Sound) {k : ℕ} {w : Wait} {st : WaitStep}
    (hw : m.waits[k]? = some w) (hstep : m.proceed k w st = some (m',o)) :
    ∃ phase, w.Decides m.conn.log.events phase ∧ (m',o) = m.settle k phase := by
  have hsound := h w (List.mem_of_getElem? hw)
  unfold proceed at hstep
  unfold Wait.Sound at hsound
  split at hstep
  · next expired hp =>
    cases hstep
    exact ⟨_,Wait.turn_decides (Cleared.start _ _ _) expired,rfl⟩
  · next nextEvent timedOut expired hp =>
    cases hstep
    rw [hp] at hsound
    exact ⟨_,Wait.wake_decides hsound timedOut expired,rfl⟩
  · cases hstep

theorem Sound.settle (h : m.Sound) {k : ℕ} {w : Wait} {phase : WaitPhase}
    (hw : m.waits[k]? = some w) (hphase : { w with phase }.Sound m.conn.log.events) :
    (m.settle k phase).1.Sound := by
  intro v hv
  obtain ⟨j,hj⟩ := List.mem_iff_getElem?.mp hv
  simp only [EventWaits.settle,List.getElem?_modify] at hj
  split at hj
  · next hkj =>
    subst hkj
    rw [hw] at hj
    cases hj
    exact hphase
  · rw [Option.map_eq_map,Option.map_id'] at hj
    exact h v (List.mem_of_getElem? hj)

theorem Sound.step (h : m.Sound) {a : WaitAction} (hstep : m.step a = some (m',o)) :
    m'.Sound := by
  cases a with
  | conn a =>
    simp only [EventWaits.step,Option.map_eq_some_iff,Prod.mk.injEq] at hstep
    obtain ⟨⟨s',o'⟩,hs,rfl,-⟩ := hstep
    exact fun w hw => (h w hw).mono (Conn.events_prefix_step hs)
  | waitEvent name since predicate timeout tooLarge =>
    simp only [EventWaits.step] at hstep
    split_ifs at hstep
    · cases hstep
      exact h
    · cases hstep
      intro w hw
      rcases List.mem_append.mp hw with hold | hnew
      · exact h w hold
      · rw [List.mem_singleton.mp hnew]
        trivial
  | proceed k st =>
    simp only [EventWaits.step,Option.bind_eq_some_iff] at hstep
    obtain ⟨w,hw,hproceed⟩ := hstep
    obtain ⟨phase,hdecides,heq⟩ := proceed_decides h hw hproceed
    have hm' : m' = (m.settle k phase).1 := congrArg Prod.fst heq
    rw [hm']
    exact h.settle hw hdecides.sound

theorem Sound.run {as : List WaitAction} {os : List WaitObs} (h : m.Sound)
    (hrun : waitMachine.run m as = some (m',os)) : m'.Sound :=
  waitMachine.run_invariant (fun _ _ _ _ hs hstep => hs.step hstep) h hrun

/-- Over any run the log keeps what it has. -/
theorem events_run {as : List WaitAction} {os : List WaitObs}
    (hrun : waitMachine.run m as = some (m',os)) :
    m.conn.log.events <+: m'.conn.log.events := by
  apply waitMachine.run_invariant (I := fun t => m.conn.log.events <+: t.conn.log.events) _
    List.prefix_rfl hrun
  intro s a s' o' hs hstep
  apply hs.trans
  cases a with
  | conn a =>
    simp only [waitMachine,EventWaits.step,Option.map_eq_some_iff,Prod.mk.injEq] at hstep
    obtain ⟨⟨c',o₁⟩,hc,rfl,-⟩ := hstep
    exact Conn.events_prefix_step hc
  | waitEvent name since predicate timeout tooLarge =>
    simp only [waitMachine,EventWaits.step] at hstep
    split_ifs at hstep
    · cases hstep
      exact List.prefix_rfl
    · cases hstep
      exact List.prefix_rfl
  | proceed k st =>
    simp only [waitMachine,EventWaits.step,Option.bind_eq_some_iff] at hstep
    obtain ⟨w,-,hproceed⟩ := hstep
    unfold proceed at hproceed
    split at hproceed
    · cases hproceed
      exact List.prefix_rfl
    · cases hproceed
      exact List.prefix_rfl
    · cases hproceed

end EventWaits

theorem EventWaits.sound_new : EventWaits.new.Sound := fun _ hw => absurd hw List.not_mem_nil

/-- Waiting from a mark is waiting for what arrives after it was taken. -/
theorem firstFrom_eventMark {m t : EventWaits} {as : List WaitAction} {os : List WaitObs}
    (hrun : waitMachine.run m as = some (t,os)) (hit : Event → Bool) :
    ∃ more, t.conn.log.events = m.conn.log.events++more ∧
      ∀ e, FirstFrom hit m.conn.eventMark t.conn.log.events e ↔ more.find? hit = some e := by
  obtain ⟨more,hmore⟩ := EventWaits.events_run hrun
  refine ⟨more,hmore.symm,fun e => ?_⟩
  rw [← hmore]
  exact firstFrom_length_iff more

/-- Whatever the order of arrivals, closings, calls and wake-ups: an event that a call has returned
is the first one that it waits for, a call that looks at the log returns that event if there is one,
and it fails only where there is none. -/
theorem wait_event_misses_nothing {as : List WaitAction} {os : List WaitObs} {t : EventWaits}
    (hrun : waitMachine.run EventWaits.new as = some (t,os)) :
    (∀ w ∈ t.waits, ∀ e, w.phase = .returned (.ok e) →
      FirstFrom w.hit w.since t.conn.log.events e) ∧
    ∀ k w st t' o, t.waits[k]? = some w → t.step (.proceed k st) = some (t',o) →
      t'.conn = t.conn ∧
      (∀ e, o = .waited k (.ok e) ↔ FirstFrom w.hit w.since t.conn.log.events e) ∧
      ∀ e, o = .waited k (.error e) → NoneFrom w.hit w.since t.conn.log.events := by
  have hsound := EventWaits.sound_new.run hrun
  constructor
  · intro w hw e he
    have hphase := hsound w hw
    unfold Wait.Sound at hphase
    rw [he] at hphase
    exact hphase
  · intro k w st t' o hw hstep
    simp only [EventWaits.step,hw,Option.bind_some] at hstep
    obtain ⟨phase,hdecides,heq⟩ := EventWaits.proceed_decides hsound hw hstep
    obtain ⟨rfl,rfl⟩ := Prod.mk.inj heq
    refine ⟨rfl,fun e => ?_,fun e he => hdecides.missed fun e' hc => ?_⟩
    · rw [← hdecides.found e]
      cases phase with
      | entered => exact iff_of_false (fun hc => by cases hc) fun hc => by cases hc
      | parked nextEvent => exact iff_of_false (fun hc => by cases hc) fun hc => by cases hc
      | returned result => simp
    · rw [hc] at he
      cases he

/-- An event as the reader receives it. -/
def stopLine : Value :=
  .object [("event",.string "STOP"),
    ("timestamp",.object [("seconds",.integer 1),("microseconds",.integer 0)])]

/-- A call parks, the event it waits for arrives, and the connection is closed before it wakes, its
time over. -/
def closedBehindEvent : List WaitAction :=
  [.waitEvent "STOP" 0 (fun _ => true) 5 false,.proceed 0 (.lock false),
    .conn (.line (some stopLine)),.conn .readEnd,.conn (.shutdownStep 0 0),
    .conn (.shutdownStep 0 0)]

theorem wait_event_misses_nothing_closed :
    ∃ t os t' o e, waitMachine.run EventWaits.new closedBehindEvent = some (t,os) ∧
      t.conn.log.closed = true ∧ t.step (.proceed 0 (.wake true true)) = some (t',o) ∧
      o = .waited 0 (.ok e) := by
  have hrun : waitMachine.run EventWaits.new closedBehindEvent = some _ := rfl
  obtain ⟨-,hstep⟩ := wait_event_misses_nothing hrun
  obtain ⟨-,hfound,-⟩ := hstep 0 _ (.wake true true) _ _ rfl rfl
  refine ⟨_,_,_,_,⟨"STOP",.null,1000000000⟩,rfl,rfl,rfl,(hfound _).mpr ⟨0,Nat.zero_le 0,rfl,rfl,?_⟩⟩
  exact fun j b _ hj => absurd hj (Nat.not_lt_zero j)


end Provium.Qmp
