import Provium.Lib.History
import Provium.Lib.Machine
import Provium.Lib.Splice
import Provium.Lib.Table

/-! `Lab::barrier`, a lab's rendezvous by name. Each section under a lock is one step, so the calls
interleave in every way; whether a deadline has passed and when a waiting thread wakes is part of
the step. -/
namespace Provium.Lab
open Lib

structure BarrierInner where
  arrived : ℕ
  generation : ℕ
  expected : Option ℕ
  deriving DecidableEq, Repr

/-- How a caller leaves the lock. -/
inductive BarrierOutcome where
  /-- Its count is not the one of the first arrival. -/
  | refused
  /-- It completes the round. -/
  | released
  /-- Its round has been completed. -/
  | passed
  | timedOut
  | waits (myGeneration : ℕ)
  deriving DecidableEq, Repr

namespace BarrierInner

def new : BarrierInner := ⟨0,0,none⟩

def rollBack (g : BarrierInner) (myGeneration : ℕ) : BarrierInner :=
  if g.generation = myGeneration ∧ 0 < g.arrived then { g with arrived := g.arrived-1 } else g

/-- The head of the waiting loop, with whether the deadline has passed. -/
def await (g : BarrierInner) (myGeneration : ℕ) (late : Bool) : BarrierInner × BarrierOutcome :=
  if late then (g.rollBack myGeneration,.timedOut) else (g,.waits myGeneration)

/-- An arrival with the right count. The generation is a `u64` that wraps. -/
def countIn (g : BarrierInner) (target : ℕ) (late : Bool) : BarrierInner × BarrierOutcome :=
  if target ≤ g.arrived+1 then
    ({ g with arrived := 0, generation := (g.generation+1)%2^64 },.released)
  else ({ g with arrived := g.arrived+1 } : BarrierInner).await g.generation late

/-- `BarrierState::arrive`, up to where it first lets go of the lock. -/
def arrive (g : BarrierInner) (target : ℕ) (late : Bool) : BarrierInner × BarrierOutcome :=
  match g.expected with
  | none => ({ g with expected := some target } : BarrierInner).countIn target late
  | some prev => if prev ≠ target then (g,.refused) else g.countIn target late

/-- From one return of `wait_timeout` to the next release of the lock. -/
def wake (g : BarrierInner) (myGeneration : ℕ) (timedOut late : Bool) :
    BarrierInner × BarrierOutcome :=
  if g.generation ≠ myGeneration then (g,.passed)
  else if timedOut then (g.rollBack myGeneration,.timedOut)
  else g.await myGeneration late

end BarrierInner

inductive BarrierPhase where
  /-- It has its barrier and has not taken its lock. -/
  | entered
  | waiting (myGeneration : ℕ)
  | returned (result : Bool)
  deriving DecidableEq, Repr

structure BarrierCall where
  name : String
  count : ℕ
  phase : BarrierPhase
  deriving DecidableEq, Repr

/-- The barriers of a lab and the calls there have been, in the order they began. -/
structure Barriers where
  barriers : Table String BarrierInner
  calls : List BarrierCall

inductive BarrierAction where
  | barrier (name : String) (count : ℕ)
  | arrive (i : ℕ) (late : Bool)
  | wake (i : ℕ) (timedOut late : Bool)
  deriving DecidableEq, Repr

inductive BarrierEvent where
  | arrived (i : ℕ)
  | notified (name : String)
  | returned (i : ℕ) (result : Bool)
  deriving DecidableEq, Repr

namespace BarrierOutcome

def phase : BarrierOutcome → BarrierPhase
  | .refused | .timedOut => .returned false
  | .released | .passed => .returned true
  | .waits myGeneration => .waiting myGeneration

/-- What is seen of a call that leaves the lock so. -/
def events (name : String) (i : ℕ) : BarrierOutcome → List BarrierEvent
  | .released => [.notified name,.returned i true]
  | .passed => [.returned i true]
  | .refused | .timedOut => [.returned i false]
  | .waits _ => []

end BarrierOutcome

namespace Barriers

def init : Barriers := ⟨∅,[]⟩

/-- The barrier of a name, one not used yet where there is none. -/
def get (s : Barriers) (name : String) : BarrierInner := (s.barriers.lookup name).getD .new

/-- The state after a section of the call. -/
def leave (s : Barriers) (i : ℕ) (call : BarrierCall) (r : BarrierInner × BarrierOutcome) : Barriers :=
  ⟨s.barriers.insert call.name r.1,s.calls.set i { call with phase := r.2.phase }⟩

def step (s : Barriers) : BarrierAction → Option (Barriers × List BarrierEvent)
  | .barrier name count =>
    some (⟨s.barriers.insert name (s.get name),s.calls++[⟨name,count,.entered⟩]⟩,[])
  | .arrive i late =>
    match s.calls[i]? with
    | none => none
    | some call =>
      if call.phase = .entered then
        let r := (s.get call.name).arrive call.count late
        some (s.leave i call r,
          (if r.2 = .refused then [] else [.arrived i])++r.2.events call.name i)
      else none
  | .wake i timedOut late =>
    match s.calls[i]? with
    | none => none
    | some call =>
      match call.phase with
      | .waiting myGeneration =>
        let r := (s.get call.name).wake myGeneration timedOut late
        some (s.leave i call r,r.2.events call.name i)
      | _ => none

def machine : Machine Barriers BarrierAction (List BarrierEvent) := ⟨step⟩

@[simp] theorem get_leave (s : Barriers) (i : ℕ) (call : BarrierCall)
    (r : BarrierInner × BarrierOutcome) (n : String) :
    (s.leave i call r).get n = if n = call.name then r.1 else s.get n := by
  unfold leave get
  split
  · next h => rw [h,AList.lookup_insert,Option.getD_some]
  · next h => rw [AList.lookup_insert_ne h]

theorem get_enter (s : Barriers) (name n : String) (calls : List BarrierCall) :
    (Barriers.mk (s.barriers.insert name (s.get name)) calls).get n = s.get n := by
  unfold get
  by_cases h : n = name
  · rw [h,AList.lookup_insert,Option.getD_some]
  · rw [AList.lookup_insert_ne h]

theorem step_wake {s : Barriers} {i my : ℕ} {call : BarrierCall} (hcall : s.calls[i]? = some call)
    (hw : call.phase = .waiting my) (timedOut late : Bool) : s.step (.wake i timedOut late) =
      some (s.leave i call ((s.get call.name).wake my timedOut late),
        ((s.get call.name).wake my timedOut late).2.events call.name i) := by
  simp only [step,hcall,hw]

theorem step_arrive {s : Barriers} {i : ℕ} {call : BarrierCall} (hcall : s.calls[i]? = some call)
    (hp : call.phase = .entered) (late : Bool) : s.step (.arrive i late) =
      some (s.leave i call ((s.get call.name).arrive call.count late),
        (if ((s.get call.name).arrive call.count late).2 = .refused then [] else [.arrived i])++
          ((s.get call.name).arrive call.count late).2.events call.name i) := by
  simp only [step,hcall,hp,if_true]

/-- What a step can do. -/
theorem step_cases {s s' : Barriers} {a : BarrierAction} {new : List BarrierEvent}
    (h : machine.step s a = some (s',new)) :
    (∃ name count, s' = ⟨s.barriers.insert name (s.get name),s.calls++[⟨name,count,.entered⟩]⟩ ∧
      new = []) ∨
    (∃ i late call, s.calls[i]? = some call ∧ call.phase = .entered ∧
      s' = s.leave i call ((s.get call.name).arrive call.count late) ∧
      new = (if ((s.get call.name).arrive call.count late).2 = .refused then [] else [.arrived i])++
        ((s.get call.name).arrive call.count late).2.events call.name i) ∨
    (∃ i timedOut late call myGeneration, s.calls[i]? = some call ∧
      call.phase = .waiting myGeneration ∧
      s' = s.leave i call ((s.get call.name).wake myGeneration timedOut late) ∧
      new = ((s.get call.name).wake myGeneration timedOut late).2.events call.name i) := by
  cases a with
  | barrier name count =>
    cases h
    exact .inl ⟨name,count,rfl,rfl⟩
  | arrive i late =>
    right; left
    simp only [machine,step] at h
    split at h
    · cases h
    · next call hcall =>
      split at h
      · next hphase =>
        cases h
        exact ⟨i,late,call,hcall,hphase,rfl,rfl⟩
      · cases h
  | wake i timedOut late =>
    right; right
    simp only [machine,step] at h
    split at h
    · cases h
    · next call hcall =>
      split at h
      · next my hphase =>
        cases h
        exact ⟨i,timedOut,late,call,my,hcall,hphase,rfl,rfl⟩
      · cases h

end Barriers

namespace BarrierInner
variable {g : BarrierInner} {target : ℕ}

/-- What an arrival can do. Only the count of the first one is taken. -/
theorem arrive_cases (g : BarrierInner) (target : ℕ) (late : Bool) :
    (∃ prev, g.expected = some prev ∧ prev ≠ target ∧ g.arrive target late = (g,.refused)) ∨
    (∀ c, g.expected = some c → c = target) ∧
      ((target ≤ g.arrived+1 ∧
          g.arrive target late = (⟨0,(g.generation+1)%2^64,some target⟩,.released)) ∨
        (g.arrived+1 < target ∧
          g.arrive target late = (⟨g.arrived+1,g.generation,some target⟩,.waits g.generation)) ∨
        (g.arrived+1 < target ∧
          g.arrive target late = (⟨g.arrived,g.generation,some target⟩,.timedOut))) := by
  -- the right count, whether or not it is the first
  have hin : ∀ g' : BarrierInner, g' = ⟨g.arrived,g.generation,some target⟩ →
      (target ≤ g.arrived+1 ∧
          g'.countIn target late = (⟨0,(g.generation+1)%2^64,some target⟩,.released)) ∨
        (g.arrived+1 < target ∧
          g'.countIn target late = (⟨g.arrived+1,g.generation,some target⟩,.waits g.generation)) ∨
        (g.arrived+1 < target ∧
          g'.countIn target late = (⟨g.arrived,g.generation,some target⟩,.timedOut)) := by
    rintro g' rfl
    by_cases ht : target ≤ g.arrived+1
    · exact .inl ⟨ht,by simp [countIn,ht]⟩
    · have ht' : g.arrived+1 < target := by omega
      cases late with
      | false => exact .inr (.inl ⟨ht',by simp [countIn,ht,await]⟩)
      | true => exact .inr (.inr ⟨ht',by simp [countIn,ht,await,rollBack]⟩)
  cases he : g.expected with
  | none =>
    right
    refine ⟨by simp,?_⟩
    simp only [arrive,he]
    exact hin _ rfl
  | some prev =>
    by_cases hp : prev = target
    · right
      subst hp
      refine ⟨fun c hc => (Option.some.inj hc).symm,?_⟩
      simp only [arrive,he,ne_eq,not_true_eq_false,if_false]
      exact hin g (by rw [← he])
    · left
      exact ⟨prev,rfl,hp,by simp [arrive,he,hp]⟩

/-- What a return of the wait can do. -/
theorem wake_cases (g : BarrierInner) (myGeneration : ℕ) (timedOut late : Bool) :
    (g.generation ≠ myGeneration ∧ g.wake myGeneration timedOut late = (g,.passed)) ∨
    g.generation = myGeneration ∧
      ((g.wake myGeneration timedOut late = (g.rollBack myGeneration,.timedOut)) ∨
        g.wake myGeneration timedOut late = (g,.waits myGeneration)) := by
  by_cases hg : g.generation = myGeneration
  · right
    refine ⟨hg,?_⟩
    cases timedOut with
    | true => exact .inl (by simp [wake,hg])
    | false =>
      cases late with
      | true => exact .inl (by simp [wake,hg,await])
      | false => exact .inr (by simp [wake,hg,await])
  · exact .inl ⟨hg,by simp [wake,hg]⟩

end BarrierInner
/-! The calls of one name and the rounds they make. -/

/-- What the log says of a call in this phase. -/
def BarrierPhase.Logged (es : List BarrierEvent) (i : ℕ) : BarrierPhase → Prop
  | .entered => .arrived i ∉ es ∧ ∀ b, .returned i b ∉ es
  | .waiting _ => .arrived i ∈ es ∧ ∀ b, .returned i b ∉ es
  | .returned b => .returned i b ∈ es ∧ .returned i (!b) ∉ es

/-- The call that an event is about. -/
def BarrierEvent.call : BarrierEvent → Option ℕ
  | .arrived i | .returned i _ => some i
  | .notified _ => none

/-- The log and the phases say the same. -/
structure Logged (es : List BarrierEvent) (s : Barriers) : Prop where
  known : ∀ e ∈ es, ∀ i, e.call = some i → i < s.calls.length
  phase : ∀ (i : ℕ) (call : BarrierCall), s.calls[i]? = some call → call.phase.Logged es i

theorem BarrierPhase.Logged.append {es new : List BarrierEvent} {i : ℕ} {p : BarrierPhase}
    (h : p.Logged es i) (hnew : ∀ e ∈ new, e.call ≠ some i) : p.Logged (es++new) i := by
  have ha : .arrived i ∉ new := fun h => hnew _ h rfl
  have hr : ∀ b, .returned i b ∉ new := fun b h => hnew _ h rfl
  cases p with
  | entered => exact ⟨by simp [h.1,ha],fun b => by simp [h.2 b,hr b]⟩
  | waiting my => exact ⟨List.mem_append_left _ h.1,fun b => by simp [h.2 b,hr b]⟩
  | returned b => exact ⟨List.mem_append_left _ h.1,by simp [h.2,hr (!b)]⟩

/-- A call leaves the lock: the log goes on with what it did. -/
theorem Logged.leave {es new : List BarrierEvent} {s : Barriers} {i : ℕ} {call : BarrierCall}
    {r : BarrierInner × BarrierOutcome} (h : Logged es s) (hcall : s.calls[i]? = some call)
    (hnew : ∀ e ∈ new, ∀ j, e.call = some j → j = i) (hp : r.2.phase.Logged (es++new) i) :
    Logged (es++new) (s.leave i call r) := by
  have hi : i < s.calls.length := (List.getElem?_eq_some_iff.mp hcall).1
  constructor
  · intro e he j hj
    rw [Barriers.leave,List.length_set]
    obtain he | he := List.mem_append.mp he
    · exact h.known e he j hj
    · rw [hnew e he j hj]
      exact hi
  · intro j c hj
    obtain ⟨rfl,rfl⟩ | ⟨hne,hj⟩ := getElem?_set_some hj
    · exact hp
    · apply (h.phase j c hj).append
      intro e he hej
      exact hne (hnew e he j hej)

theorem Barriers.step_logged {es new : List BarrierEvent} {s s' : Barriers} {a : BarrierAction}
    (h : Logged es s) (hs : machine.step s a = some (s',new)) : Logged (es++new) s' := by
  obtain ⟨name,count,rfl,rfl⟩ | ⟨i,late,call,hcall,hphase,rfl,rfl⟩ |
    ⟨i,timedOut,late,call,my,hcall,hphase,rfl,rfl⟩ := step_cases hs
  · rw [List.append_nil]
    constructor
    · intro e he j hj
      have := h.known e he j hj
      simp only [List.length_append,List.length_singleton]
      omega
    · intro j c hj
      obtain hj | ⟨rfl,rfl⟩ := getElem?_snoc hj
      · exact h.phase j c hj
      · -- a call of which nothing has been heard
        have hno : ∀ e ∈ es, e.call ≠ some s.calls.length := by
          intro e he hc
          exact absurd (h.known e he _ hc) (lt_irrefl _)
        exact ⟨fun ha => hno _ ha rfl,fun b hb => hno _ hb rfl⟩
  · have hl := h.phase i call hcall
    rw [hphase] at hl
    obtain ⟨ha,hr⟩ := hl
    apply h.leave hcall
    · intro e he j hj
      cases ho : ((s.get call.name).arrive call.count late).2 <;>
        simp [ho,BarrierOutcome.events] at he <;> grind [BarrierEvent.call]
    · cases ho : ((s.get call.name).arrive call.count late).2 <;>
        simp [BarrierOutcome.phase,BarrierOutcome.events,BarrierPhase.Logged,hr]
  · have hl := h.phase i call hcall
    rw [hphase] at hl
    obtain ⟨ha,hr⟩ := hl
    apply h.leave hcall
    · intro e he j hj
      cases ho : ((s.get call.name).wake my timedOut late).2 <;>
        simp [ho,BarrierOutcome.events] at he <;> grind [BarrierEvent.call]
    · cases ho : ((s.get call.name).wake my timedOut late).2 <;>
        simp [BarrierOutcome.phase,BarrierOutcome.events,BarrierPhase.Logged,hr,ha]

end Provium.Lab
