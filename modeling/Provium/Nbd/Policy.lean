import Provium.Lib.History
import Provium.Nbd.Disk

/-! Fault policies of a mediated disk: the rules one command is judged by, and how arming a policy
interleaves with judging. `set_policy` stores the policy and then resets the counter; `consult`
copies the policy, may sleep, and only then counts. What a run may be held against is the order of
calls that `Linearization` asks for. -/
namespace Provium.Nbd
open Lib

def cmdRead : ℕ := 0
def cmdWrite : ℕ := 1
def cmdDisc : ℕ := 2
def cmdFlush : ℕ := 3

/-- What to do to the guest's I/O. The default does nothing. -/
structure FaultPolicy where
  failReads : Bool := false
  failWrites : Bool := false
  /-- Fail the nth command the guest issues, and every one after it. -/
  failAfter : Option ℕ := none
  /-- Fail any command that overlaps so many sectors from this one on. -/
  failRange : Option (ℕ × ℕ) := none
  /-- Milliseconds to sleep before each command. -/
  delay : Option ℕ := none
  deriving DecidableEq, Repr

/-- The rule of `fail_range`. The products are taken in 64 bits, the ends saturate. -/
def overlapsRange (offset length : ℕ) : Option (ℕ × ℕ) → Bool
  | none => false
  | some (sector,count) =>
    let start := sector*sectorSize%2^64
    let stop := min (start+count*sectorSize%2^64) (2^64-1)
    let commandEnd := min (offset+length) (2^64-1)
    decide (0 < length ∧ 0 < count ∧ offset < stop ∧ start < commandEnd)

/-- The part of a request that `consult` looks at. -/
structure Probe where
  command : ℕ
  offset : ℕ
  length : ℕ
  deriving DecidableEq, Repr

namespace FaultPolicy

/-- The rules other than `fail_after`. -/
def failsByKind (p : FaultPolicy) (c : Probe) : Bool :=
  if c.command = cmdRead ∧ p.failReads then true
  else if c.command = cmdWrite ∧ p.failWrites then true
  else overlapsRange c.offset c.length p.failRange

/-- The verdict of `consult` on the command that is the `seen`-th since the counter was reset. -/
def fails (p : FaultPolicy) (seen : ℕ) (c : Probe) : Bool :=
  if p.failAfter.any (· ≤ seen) then true else p.failsByKind c

theorem fails_of_failAfter_none {p : FaultPolicy} (h : p.failAfter = none) (i j : ℕ) (c : Probe) :
    p.fails i c = p.fails j c := by
  simp [fails,h]

end FaultPolicy

/-- What a finished call did. -/
inductive Event where
  | arm (p : FaultPolicy)
  | command (c : Probe) (failed : Bool)
  deriving DecidableEq, Repr

/-- The sequential behaviour: arming replaces the policy and restarts the count, and a command is
judged by the policy in force and by how many commands that policy has judged. -/
def Event.effect : FaultPolicy × ℕ → Event → FaultPolicy × ℕ
  | _,.arm p => (p,0)
  | (p,n),.command _ _ => if p = {} then (p,n) else (p,n+1)

def replay (s : FaultPolicy × ℕ) (es : List Event) : FaultPolicy × ℕ := es.foldl Event.effect s

def Event.Legal : FaultPolicy × ℕ → Event → Prop
  | _,.arm _ => True
  | (p,n),.command c failed => failed = if p = {} then false else p.fails (n+1) c

instance (s : FaultPolicy × ℕ) : ∀ e : Event, Decidable (e.Legal s)
  | .arm _ => inferInstanceAs (Decidable True)
  | .command _ _ => inferInstanceAs (Decidable (_ = _))

/-- Every verdict is the one the sequential behaviour gives. -/
def Legal (s : FaultPolicy × ℕ) : List Event → Prop
  | [] => True
  | e::es => e.Legal s ∧ Legal (e.effect s) es

instance decidableLegal : ∀ (s : FaultPolicy × ℕ) (es : List Event), Decidable (Legal s es)
  | _,[] => inferInstanceAs (Decidable True)
  | s,e::es => @instDecidableAnd _ _ _ (decidableLegal (e.effect s) es)

/-- A call of `set_policy`, or one command with its verdict once it has one. -/
inductive Call where
  | setPolicy (p : FaultPolicy)
  | consult (c : Probe) (verdict : Option Bool)
  deriving DecidableEq, Repr

namespace Call

/-- A command without a verdict has done nothing yet that anyone could see. -/
def event : Call → Option Event
  | .setPolicy p => some (.arm p)
  | .consult c verdict => verdict.map (Event.command c)

def judged (failed : Bool) : Call → Call
  | .setPolicy p => .setPolicy p
  | .consult c _ => .consult c (some failed)

end Call

/-- The command a connection is serving, after it has copied the policy. -/
structure InFlight where
  probe : Probe
  policy : FaultPolicy
  called : ℕ
  slept : Bool
  /-- How many policies had been stored when it copied. -/
  generation : ℕ
  deriving DecidableEq, Repr

/-- `Shared` as far as policies go, and a history of the calls in the order they began. -/
structure Arming where
  policy : FaultPolicy := {}
  ioCount : ℕ := 0
  inFlight : Option InFlight := none
  /-- The calls of `set_policy` that have stored their policy and not yet reset the counter. -/
  arming : List ℕ := []
  clock : ℕ := 0
  /-- How many policies have been stored, and how many resets have followed. -/
  stores : ℕ := 0
  resets : ℕ := 0
  log : List (Timed Call) := []
  deriving DecidableEq, Repr

inductive ArmingAction where
  /-- `set_policy` stores its policy. -/
  | store (p : FaultPolicy)
  /-- The `set_policy` that began at this step resets the counter and returns. -/
  | reset (called : ℕ)
  /-- The connection takes its next command to `consult`, which copies the policy. -/
  | copy (c : Probe)
  | sleep
  /-- `consult` counts the command and gives its verdict. -/
  | count
  deriving DecidableEq, Repr

namespace Arming

def store (s : Arming) (p : FaultPolicy) : Arming :=
  { s with
    policy := p
    arming := s.clock::s.arming
    clock := s.clock+1
    stores := s.stores+1
    log := s.log++[⟨.setPolicy p,s.clock,none⟩] }

def reset (s : Arming) (called : ℕ) : Arming :=
  { s with
    ioCount := 0
    arming := s.arming.erase called
    clock := s.clock+1
    resets := s.resets+1
    log := s.log.map (Timed.finish called s.clock id) }

/-- With the default policy in force the verdict is there at once and nothing is counted. -/
def copy (s : Arming) (c : Probe) : Arming :=
  if s.policy = {} then
    { s with clock := s.clock+1, log := s.log++[⟨.consult c (some false),s.clock,some s.clock⟩] }
  else
    { s with
      clock := s.clock+1
      inFlight := some ⟨c,s.policy,s.clock,false,s.stores⟩
      log := s.log++[⟨.consult c none,s.clock,none⟩] }

def sleep (s : Arming) (f : InFlight) : Arming :=
  { s with inFlight := some { f with slept := true }, clock := s.clock+1 }

def count (s : Arming) (f : InFlight) : Arming :=
  { s with
    ioCount := s.ioCount+1
    inFlight := none
    clock := s.clock+1
    log := s.log.map
      (Timed.finish f.called s.clock (Call.judged (f.policy.fails (s.ioCount+1) f.probe))) }

end Arming

/-- One connection serves its commands one after the other, while any number of threads arm
policies. -/
def armingMachine : Machine Arming ArmingAction Unit where
  step s
    | .store p => some (s.store p,())
    | .reset called => if called ∈ s.arming then some (s.reset called,()) else none
    | .copy c => if s.inFlight = none then some (s.copy c,()) else none
    | .sleep => s.inFlight.bind fun f =>
      if f.policy.delay.isSome ∧ ¬f.slept then some (s.sleep f,()) else none
    | .count => s.inFlight.bind fun f =>
      if f.policy.delay.isSome → f.slept then some (s.count f,()) else none

/-- A command is counted into the counter of the policy it copied, or no `fail_after` can tell. -/
def Careful (s : Arming) : ArmingAction → Prop
  | .count => ∀ f ∈ s.inFlight, s.resets = f.generation ∨
      f.policy.failAfter = none ∧ (s.resets < s.stores ∨ s.policy.failAfter = none)
  | _ => True

instance (s : Arming) : ∀ a, Decidable (Careful s a)
  | .count => inferInstanceAs (Decidable (∀ f ∈ s.inFlight, _))
  | .store _ | .reset _ | .copy _ | .sleep => inferInstanceAs (Decidable True)

theorem replay_append (s : FaultPolicy × ℕ) (es fs : List Event) :
    replay s (es++fs) = replay (replay s es) fs := List.foldl_append

theorem legal_append {s : FaultPolicy × ℕ} {es fs : List Event} :
    Legal s (es++fs) ↔ Legal s es ∧ Legal (replay s es) fs := by
  induction es generalizing s with
  | nil => simp [Legal,replay]
  | cons e es ih =>
    simp only [List.cons_append,Legal,ih,and_assoc]
    rfl

def events (log : List (Timed Call)) : List Event := log.filterMap fun e => e.call.event

@[simp] theorem events_append (l m : List (Timed Call)) : events (l++m) = events l++events m :=
  List.filterMap_append

/-- Returning does not change what a call of `set_policy` did. -/
@[simp] theorem events_returned (called now : ℕ) (log : List (Timed Call)) :
    events (log.map (Timed.finish called now id)) = events log := by
  unfold events
  rw [List.filterMap_map]
  congr 1
  funext e
  simp only [Function.comp,Timed.finish]
  split <;> rfl

/-- Arming is legal at any point, and forgets what was before. -/
theorem arms_legal {post : List (Timed Call)} (h : ∀ e ∈ post, ∃ p, e.call = .setPolicy p)
    (s : FaultPolicy × ℕ) : Legal s (events post) := by
  induction post generalizing s with
  | nil => trivial
  | cons e post ih =>
    obtain ⟨p,hp⟩ := h e List.mem_cons_self
    simp only [events,List.filterMap_cons,hp,Call.event]
    exact ⟨trivial,ih (fun e he => h e (List.mem_cons_of_mem _ he)) _⟩

theorem arms_replay {post : List (Timed Call)} (h : ∀ e ∈ post, ∃ p, e.call = .setPolicy p)
    (hne : post ≠ []) (s t : FaultPolicy × ℕ) : replay s (events post) = replay t (events post) := by
  cases post with
  | nil => exact absurd rfl hne
  | cons e post =>
    obtain ⟨p,hp⟩ := h e List.mem_cons_self
    simp only [events,List.filterMap_cons,hp,Call.event]
    rfl

/-- A command between its copy and its count: the calls that began before it leave the policy it
copied with `n` commands judged, and only arming has begun since. -/
structure Judging (s : Arming) (f : InFlight) (pre post : List (Timed Call)) (n : ℕ) : Prop where
  log : ∃ r, s.log = pre++⟨.consult f.probe none,f.called,r⟩::post
  arms : ∀ e ∈ post, ∃ p, e.call = .setPolicy p
  before : replay ({},0) (events pre) = (f.policy,n)
  armed : f.policy ≠ {}
  stores : s.stores = f.generation+post.length
  counted : s.resets = f.generation → s.ioCount = n ∨ f.policy.failAfter = none
  early : s.resets < f.generation → n = 0 ∨ f.policy.failAfter = none

/-- The calls in the order they began are legal, and the counter is right once every reset has
followed its store. -/
structure ArmingInv (s : Arming) : Prop where
  order : CallOrder s.clock s.log
  legal : Legal ({},0) (events s.log)
  policy : (replay ({},0) (events s.log)).1 = s.policy
  pending : s.resets+s.arming.length = s.stores
  counted : s.resets = s.stores →
    s.ioCount = (replay ({},0) (events s.log)).2 ∨ s.policy.failAfter = none
  early : s.resets < s.stores →
    (replay ({},0) (events s.log)).2 = 0 ∨ s.policy.failAfter = none
  judging : ∀ f ∈ s.inFlight, ∃ pre post n, Judging s f pre post n

theorem armingInv_start : ArmingInv {} :=
  ⟨CallOrder.nil 0,trivial,rfl,rfl,fun _ => .inl rfl,fun h => absurd h (lt_irrefl 0),by simp⟩

section Steps
variable {s : Arming}

theorem ArmingInv.store (h : ArmingInv s) (p : FaultPolicy) : ArmingInv (s.store p) := by
  have hp := h.pending
  have hev : events (s.store p).log = events s.log++[.arm p] := by
    simp only [Arming.store,events_append]
    rfl
  refine ⟨h.order.begin _ (by simp),?_,?_,?_,?_,?_,?_⟩
  · rw [hev,legal_append]
    exact ⟨h.legal,trivial,trivial⟩
  · rw [hev,replay_append]
    rfl
  · simp only [Arming.store,List.length_cons]
    omega
  · intro hr
    simp only [Arming.store] at hr
    omega
  · intro _
    rw [hev,replay_append]
    exact .inl rfl
  · intro f hf
    obtain ⟨pre,post,n,hj⟩ := h.judging f hf
    obtain ⟨r,hlog⟩ := hj.log
    refine ⟨pre,post++[⟨.setPolicy p,s.clock,none⟩],n,⟨r,?_⟩,?_,hj.before,hj.armed,?_,hj.counted,
      hj.early⟩
    · simp only [Arming.store,hlog,List.append_assoc,List.cons_append]
    · intro e he
      obtain he | he := List.mem_append.mp he
      · exact hj.arms e he
      · exact ⟨p,by rw [List.mem_singleton.mp he]⟩
    · simp only [Arming.store,hj.stores,List.length_append,List.length_singleton]
      omega

theorem ArmingInv.reset (h : ArmingInv s) {called : ℕ} (hc : called ∈ s.arming) :
    ArmingInv (s.reset called) := by
  have hp := h.pending
  have hpos : 0 < s.arming.length := List.length_pos_of_mem hc
  have hev : events (s.reset called).log = events s.log := events_returned _ _ _
  refine ⟨h.order.finish called id,?_,?_,?_,?_,?_,?_⟩
  · rw [hev]
    exact h.legal
  · rw [hev]
    exact h.policy
  · simp only [Arming.reset,List.length_erase_of_mem hc]
    omega
  · intro _
    rw [hev]
    exact (h.early (by omega)).imp_left Eq.symm
  · intro hr
    rw [hev]
    exact h.early (by simp only [Arming.reset] at hr; omega)
  · intro f hf
    obtain ⟨pre,post,n,hj⟩ := h.judging f hf
    obtain ⟨r,hlog⟩ := hj.log
    refine ⟨pre.map (Timed.finish called s.clock id),post.map (Timed.finish called s.clock id),n,
      ?_,?_,?_,hj.armed,?_,?_,?_⟩
    · simp only [Arming.reset,hlog,List.map_append,List.map_cons,Timed.finish]
      split
      · exact ⟨_,rfl⟩
      · exact ⟨_,rfl⟩
    · intro e he
      obtain ⟨a,ha,rfl⟩ := List.mem_map.mp he
      obtain ⟨p,hp⟩ := hj.arms a ha
      refine ⟨p,?_⟩
      simp only [Timed.finish]
      split <;> exact hp
    · rw [events_returned]
      exact hj.before
    · simp only [Arming.reset,List.length_map,hj.stores]
    · intro hr
      simp only [Arming.reset] at hr
      exact (hj.early (by omega)).imp_left Eq.symm
    · intro hr
      simp only [Arming.reset] at hr
      exact hj.early (by omega)

theorem ArmingInv.copy (h : ArmingInv s) (hf : s.inFlight = none) (c : Probe) :
    ArmingInv (s.copy c) := by
  have hrep : replay ({},0) (events s.log) = (s.policy,(replay ({},0) (events s.log)).2) :=
    Prod.ext h.policy rfl
  by_cases hd : s.policy = {}
  · have hs : s.copy c = { s with
        clock := s.clock+1
        log := s.log++[⟨.consult c (some false),s.clock,some s.clock⟩] } := if_pos hd
    have hev : events (s.copy c).log = events s.log++[.command c false] := by
      simp only [hs,events_append]
      rfl
    have hr : replay ({},0) (events (s.copy c).log) = replay ({},0) (events s.log) := by
      rw [hev,replay_append,hrep]
      simp [replay,Event.effect,hd]
    rw [hd] at hrep
    refine ⟨?_,?_,?_,?_,?_,?_,?_⟩
    · rw [hs]
      exact h.order.begin _ fun r hr => (Option.some.inj hr).le
    · rw [hev,legal_append]
      refine ⟨h.legal,?_,trivial⟩
      rw [hrep]
      simp [Event.Legal]
    · rw [hr,hs]
      exact h.policy
    · rw [hs]
      exact h.pending
    · rw [hr,hs]
      exact h.counted
    · rw [hr,hs]
      exact h.early
    · rw [hs]
      simp [hf]
  · have hs : s.copy c = { s with
        clock := s.clock+1
        inFlight := some ⟨c,s.policy,s.clock,false,s.stores⟩
        log := s.log++[⟨.consult c none,s.clock,none⟩] } := if_neg hd
    have hev : events (s.copy c).log = events s.log := by
      simp only [hs,events_append]
      exact List.append_nil _
    refine ⟨?_,?_,?_,?_,?_,?_,?_⟩
    · rw [hs]
      exact h.order.begin _ (by simp)
    · rw [hev]
      exact h.legal
    · rw [hev,hs]
      exact h.policy
    · rw [hs]
      exact h.pending
    · rw [hev,hs]
      exact h.counted
    · rw [hev,hs]
      exact h.early
    · intro f hm
      rw [hs] at hm
      cases hm
      refine ⟨s.log,[],_,⟨none,by rw [hs]⟩,by simp,hrep,hd,?_,?_,?_⟩
      · rw [hs]
        rfl
      · rw [hs]
        exact h.counted
      · rw [hs]
        exact h.early

theorem ArmingInv.sleep (h : ArmingInv s) {f : InFlight} (hf : s.inFlight = some f) :
    ArmingInv (s.sleep f) := by
  refine ⟨h.order.tick,h.legal,h.policy,h.pending,h.counted,h.early,?_⟩
  intro g hg
  cases hg
  obtain ⟨pre,post,n,hj⟩ := h.judging f hf
  exact ⟨pre,post,n,hj.log,hj.arms,hj.before,hj.armed,hj.stores,hj.counted,hj.early⟩

/-- The verdict is the one of the policy copied, for the command's place among those it judged. -/
theorem Judging.verdict {f : InFlight} {pre post : List (Timed Call)} {n : ℕ}
    (hj : Judging s f pre post n) (hc : s.resets = f.generation ∨ f.policy.failAfter = none) :
    f.policy.fails (s.ioCount+1) f.probe = f.policy.fails (n+1) f.probe := by
  have hn : s.ioCount = n ∨ f.policy.failAfter = none := by
    obtain hc | hc := hc
    · exact hj.counted hc
    · exact .inr hc
  obtain hn | hn := hn
  · rw [hn]
  · exact FaultPolicy.fails_of_failAfter_none hn _ _ _

/-- The command takes its place in the history where it copied, before the arming since. -/
theorem Judging.events_count {f : InFlight} {pre post : List (Timed Call)} {n : ℕ}
    (h : ArmingInv s) (hj : Judging s f pre post n) :
    events (s.count f).log =
      events pre++.command f.probe (f.policy.fails (s.ioCount+1) f.probe)::events post := by
  obtain ⟨r,hlog⟩ := hj.log
  have hsorted := h.order.sorted
  rw [hlog,List.pairwise_append,List.pairwise_cons] at hsorted
  have hpre : ∀ e ∈ pre, e.called ≠ f.called :=
    fun e he => (hsorted.2.2 e he _ List.mem_cons_self).ne
  have hpost : ∀ e ∈ post, e.called ≠ f.called := fun e he => (hsorted.2.1.1 e he).ne'
  simp only [Arming.count,hlog,List.map_append,List.map_cons,Timed.map_finish hpre,
    Timed.map_finish hpost,events_append]
  congr 1
  simp [events,Timed.finish,Call.judged,Call.event]

theorem ArmingInv.count (h : ArmingInv s) {f : InFlight} (hf : s.inFlight = some f)
    (hc : Careful s .count) : ArmingInv (s.count f) := by
  obtain ⟨pre,post,n,hj⟩ := h.judging f hf
  obtain ⟨r,hlog⟩ := hj.log
  have hold : events s.log = events pre++events post := by
    rw [hlog,events_append]
    rfl
  have hnew := hj.events_count h
  have hverdict : f.policy.fails (s.ioCount+1) f.probe = f.policy.fails (n+1) f.probe :=
    hj.verdict ((hc f hf).imp_right And.left)
  have hstep (failed : Bool) :
      (Event.command f.probe failed).effect (f.policy,n) = (f.policy,n+1) := if_neg hj.armed
  have hnew' : replay ({},0) (events (s.count f).log) = replay (f.policy,n+1) (events post) := by
    rw [hnew,replay_append,hj.before]
    exact congrArg (fun q => replay q (events post)) (hstep _)
  have hold' : replay ({},0) (events s.log) = replay (f.policy,n) (events post) := by
    rw [hold,replay_append,hj.before]
  have hlegal := h.legal
  rw [hold,legal_append,hj.before] at hlegal
  have hpolicy := h.policy
  have hcounted := h.counted
  have hearly := h.early
  rw [hold'] at hpolicy hcounted hearly
  have hstores := hj.stores
  refine ⟨h.order.finish _ _,?_,?_,h.pending,?_,?_,by simp [Arming.count]⟩
  · rw [hnew,legal_append,hj.before]
    refine ⟨hlegal.1,?_,arms_legal hj.arms _⟩
    simp only [Event.Legal,if_neg hj.armed,hverdict]
  all_goals rw [hnew']
  -- What has been armed since the copy hides the count; if nothing has, the count is its own.
  · by_cases hpost : post = []
    · subst hpost
      exact hpolicy
    · rw [arms_replay hj.arms hpost _ (f.policy,n)]
      exact hpolicy
  · intro hr
    by_cases hpost : post = []
    · subst hpost
      refine (hcounted hr).imp_left ?_
      intro hio
      exact congrArg (·+1) hio
    · have hlen : 0 < post.length := List.length_pos_iff.mpr hpost
      obtain hg | ⟨-,hlt | hnone⟩ := hc f hf
      · simp only [Arming.count] at hr
        omega
      · simp only [Arming.count] at hr
        omega
      · exact .inr hnone
  · intro hr
    by_cases hpost : post = []
    · subst hpost
      simp only [List.length_nil,Nat.add_zero,Arming.count] at hstores hr
      obtain hg | ⟨hnone,-⟩ := hc f hf
      · omega
      · exact .inr (hpolicy ▸ hnone)
    · rw [arms_replay hj.arms hpost _ (f.policy,n)]
      exact hearly hr

theorem ArmingInv.step {a : ArmingAction} {s' : Arming} {o : Unit} (h : ArmingInv s)
    (hs : (armingMachine.restrict Careful).step s a = some (s',o)) : ArmingInv s' := by
  obtain ⟨hc,hs⟩ := (Machine.restrict_step armingMachine).mp hs
  cases a with
  | store p =>
    cases hs
    exact h.store p
  | reset called =>
    simp only [armingMachine,Option.ite_none_right_eq_some] at hs
    obtain ⟨hmem,hs⟩ := hs
    cases hs
    exact h.reset hmem
  | copy c =>
    simp only [armingMachine,Option.ite_none_right_eq_some] at hs
    obtain ⟨hf,hs⟩ := hs
    cases hs
    exact h.copy hf c
  | sleep =>
    simp only [armingMachine,Option.bind_eq_some_iff,Option.ite_none_right_eq_some] at hs
    obtain ⟨f,hf,-,hs⟩ := hs
    cases hs
    exact h.sleep hf
  | count =>
    simp only [armingMachine,Option.bind_eq_some_iff,Option.ite_none_right_eq_some] at hs
    obtain ⟨f,hf,-,hs⟩ := hs
    cases hs
    exact h.count hf hc

end Steps

/-- What `fail_after = n` promises: of the commands judged since it was armed, the ones from the
n-th on fail, and the ones before it fail only by another rule. -/
def FailAfterExact (es : List Event) : Prop :=
  ∀ pre p n mid c failed rest, es = pre++.arm p::(mid++.command c failed::rest) →
    (∀ e ∈ mid, ∃ c failed, e = .command c failed) → p.failAfter = some n →
    (n ≤ mid.length+1 → failed = true) ∧ (mid.length+1 < n → failed = p.failsByKind c)

theorem replay_commands {p : FaultPolicy} (hp : p ≠ {}) {mid : List Event}
    (h : ∀ e ∈ mid, ∃ c failed, e = .command c failed) (k : ℕ) :
    replay (p,k) mid = (p,k+mid.length) := by
  induction mid generalizing k with
  | nil => rfl
  | cons e mid ih =>
    obtain ⟨c,failed,rfl⟩ := h e List.mem_cons_self
    have hstep : (Event.command c failed).effect (p,k) = (p,k+1) := if_neg hp
    rw [replay,List.foldl_cons,hstep,← replay,
      ih (fun e he => h e (List.mem_cons_of_mem _ he)) (k+1),List.length_cons]
    congr 1
    omega

theorem Legal.failAfterExact {s : FaultPolicy × ℕ} {es : List Event} (h : Legal s es) :
    FailAfterExact es := by
  rintro pre p n mid c failed rest rfl hmid hn
  have hp : p ≠ {} := by
    rintro rfl
    cases hn
  obtain ⟨-,-,hsince⟩ := legal_append.mp h
  obtain ⟨-,hverdict,-⟩ := legal_append.mp hsince
  simp only [Event.effect,replay_commands hp hmid,Event.Legal,if_neg hp,Nat.zero_add] at hverdict
  subst hverdict
  refine ⟨?_,?_⟩
  · intro hle
    simp [FaultPolicy.fails,hn,hle]
  · intro hlt
    simp [FaultPolicy.fails,hn,hlt.not_ge]

/-- While every command is counted into the counter of its own policy, each call takes effect at
one point between its call and its return. -/
theorem arming_is_atomic {as : List ArmingAction} {os : List Unit} {t : Arming}
    (h : (armingMachine.restrict Careful).run {} as = some (t,os)) :
    ∃ order, Linearization Call.event (Legal ({},0)) t.log order ∧
      FailAfterExact (events order) := by
  have hinv : ArmingInv t :=
    Machine.run_invariant _ (fun _ _ _ _ hi hs => ArmingInv.step hi hs) armingInv_start h
  exact ⟨t.log,hinv.order.linearization hinv.legal,hinv.legal.failAfterExact⟩

/-- A policy armed between two commands, with a `fail_after` of two. -/
def armedBetween : List ArmingAction :=
  [.store { failAfter := some 9 },.reset 0,.copy ⟨cmdRead,0,512⟩,.count,
    .store { failAfter := some 2 },.reset 4,.copy ⟨cmdRead,0,512⟩,.count]

theorem arming_is_atomic_between : ∃ t os,
    (armingMachine.restrict Careful).run {} armedBetween = some (t,os) ∧
    ∃ order, Linearization Call.event (Legal ({},0)) t.log order ∧
      FailAfterExact (events order) := by
  have h : ((armingMachine.restrict Careful).run {} armedBetween).isSome := by decide
  obtain ⟨⟨t,os⟩,hr⟩ := Option.isSome_iff_exists.mp h
  exact ⟨t,os,hr,arming_is_atomic hr⟩

/-- The same calls, with the second command served between the store and the reset: it is the
first that the second policy judges, and `fail_after = 2` fails it. -/
def armedAround : List ArmingAction :=
  [.store { failAfter := some 9 },.reset 0,.copy ⟨cmdRead,0,512⟩,.count,
    .store { failAfter := some 2 },.copy ⟨cmdRead,0,512⟩,.count,.reset 4]

def armedAroundLog : List (Timed Call) :=
  [⟨.setPolicy { failAfter := some 9 },0,some 1⟩,⟨.consult ⟨cmdRead,0,512⟩ (some false),2,some 3⟩,
    ⟨.setPolicy { failAfter := some 2 },4,some 7⟩,⟨.consult ⟨cmdRead,0,512⟩ (some true),5,some 6⟩]

theorem fail_after_one_command_early : ∃ t os,
    armingMachine.run {} armedAround = some (t,os) ∧
    ¬∃ order, Linearization Call.event (Legal ({},0)) t.log order := by
  have hlog : (armingMachine.run {} armedAround).map (fun r => r.1.log) = some armedAroundLog := by
    decide
  obtain ⟨⟨t,os⟩,hr,hl⟩ := Option.map_eq_some_iff.mp hlog
  refine ⟨t,os,hr,?_⟩
  simp only at hl
  rw [hl]
  rintro ⟨order,hperm,htime,hlegal⟩
  have hnone : ∀ order ∈ armedAroundLog.permutations', ¬((order.Pairwise fun a b => ¬b.Precedes a) ∧
      Legal ({},0) (events order)) := by decide
  exact hnone order (List.mem_permutations'.mpr hperm) ⟨htime,hlegal⟩

end Provium.Nbd
