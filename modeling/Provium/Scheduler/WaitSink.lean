import Provium.Lib.Machine
import Provium.Lib.Table

/-! The wait sink: how long a file's thread has spent parked in the pool, as the watchdogs read it.
The thread's `park` and `unpark` and any number of `waited` calls run as their atomic steps, against
a clock in nanoseconds that never goes back. -/
namespace Provium.Scheduler
open Lib

structure WaitSink where
  settledNs : ℕ := 0
  parkedSince : Option ℕ := none
  deriving DecidableEq, Repr

namespace WaitSink

/-- `fetch_add` of an elapsed time that was cast to `u64`. -/
def settle (k : WaitSink) (elapsed : ℕ) : WaitSink :=
  { k with settledNs := (k.settledNs+elapsed%2^64)%2^64 }

/-- The locked half of `waited`: the time since the current park began. -/
def live (k : WaitSink) (now : ℕ) : ℕ := (k.parkedSince.map fun since => now-since).getD 0

end WaitSink

/-- A call of `waited` in progress. `floor` records the time that had been spent parked when the
call began; `loaded` is what it has read of `settled_ns`, once it has. -/
structure WaitedCall where
  floor : ℕ
  loaded : Option ℕ := none
  deriving DecidableEq, Repr

/-- `unparking` is the instant `unpark` has taken out of `parked_since`: the guard it took it under
lives to the end of the `if let`, so the lock is held until the time has been added. `past` records
the exact time of all parks that have ended. -/
structure SinkState where
  clock : ℕ := 0
  sink : WaitSink := {}
  unparking : Option ℕ := none
  past : ℕ := 0
  calls : Table ℕ WaitedCall := ∅

inductive SinkAction where
  | tick (ns : ℕ)
  | park
  | unparkTake
  | unparkAdd
  | call (i : ℕ)
  | load (i : ℕ)
  | read (i : ℕ)
  deriving DecidableEq, Repr

inductive SinkEvent where
  | silent
  | returned (floor value : ℕ)
  deriving DecidableEq, Repr

namespace SinkState

/-- The total time spent parked so far, the current park included. -/
def parkedTime (s : SinkState) : ℕ :=
  s.past+((s.unparking.or s.sink.parkedSince).map fun since => s.clock-since).getD 0

/-- The parking thread alternates: an acquire parks once, with its ticket, and unparks when it
gives the ticket up. -/
def step (s : SinkState) : SinkAction → Option (SinkState × SinkEvent)
  | .tick ns => some ({ s with clock := s.clock+ns },.silent)
  | .park =>
    if s.unparking = none ∧ s.sink.parkedSince = none then
      some ({ s with sink := { s.sink with parkedSince := some s.clock } },.silent)
    else none
  | .unparkTake =>
    match s.sink.parkedSince with
    | some since =>
      some ({ s with sink := { s.sink with parkedSince := none }, unparking := some since },.silent)
    | none => none
  | .unparkAdd =>
    match s.unparking with
    | some since =>
      some (⟨s.clock,s.sink.settle (s.clock-since),none,s.past+(s.clock-since),s.calls⟩,.silent)
    | none => none
  | .call i =>
    if i ∈ s.calls then none
    else some ({ s with calls := s.calls.insert i { floor := s.parkedTime } },.silent)
  | .load i =>
    match s.calls.lookup i with
    | some c =>
      some ({ s with calls := s.calls.insert i { c with loaded := some s.sink.settledNs } },.silent)
    | none => none
  | .read i =>
    -- The lock is free unless `unpark` is between its two steps.
    match s.unparking,(s.calls.lookup i).bind fun c => c.loaded.map fun v => (c.floor,v) with
    | none,some (floor,v) =>
      some ({ s with calls := s.calls.erase i },.returned floor (v+s.sink.live s.clock))
    | _,_ => none

end SinkState

def sinkMachine : Machine SinkState SinkAction SinkEvent := ⟨SinkState.step⟩

/-- What every interleaving keeps: at most one park is in progress, and the settled count and
whatever was loaded of it are within the time of the parks that have ended. -/
structure SinkInv (s : SinkState) : Prop where
  apart : s.unparking = none ∨ s.sink.parkedSince = none
  settled_le : s.sink.settledNs ≤ s.past
  loaded_le : ∀ i c v, s.calls.lookup i = some c → c.loaded = some v → v ≤ s.past

theorem settle_le (k : WaitSink) (elapsed : ℕ) :
    (k.settle elapsed).settledNs ≤ k.settledNs+elapsed := by
  have h₁ := Nat.mod_le (k.settledNs+elapsed%2^64) (2^64)
  have h₂ := Nat.mod_le elapsed (2^64)
  change (k.settledNs+elapsed%2^64)%2^64 ≤ _
  omega

theorem settle_lt (k : WaitSink) (elapsed : ℕ) : (k.settle elapsed).settledNs < 2^64 :=
  Nat.mod_lt _ (by decide)

theorem settle_exact {k : WaitSink} {elapsed : ℕ} (h : k.settledNs+elapsed < 2^64) :
    (k.settle elapsed).settledNs = k.settledNs+elapsed := by
  change (k.settledNs+elapsed%2^64)%2^64 = _
  rw [Nat.mod_eq_of_lt (show elapsed < 2^64 by omega),Nat.mod_eq_of_lt h]

theorem SinkState.read_eq {s s' : SinkState} {i : ℕ} {e : SinkEvent}
    (h : s.step (.read i) = some (s',e)) : ∃ c v, s.unparking = none ∧
      s.calls.lookup i = some c ∧ c.loaded = some v ∧ s' = { s with calls := s.calls.erase i } ∧
      e = .returned c.floor (v+s.sink.live s.clock) := by
  simp only [step] at h
  split at h
  · next floor v hu hl =>
    cases h
    obtain ⟨c,hc,hv⟩ := Option.bind_eq_some_iff.mp hl
    obtain ⟨w,hw,he⟩ := Option.map_eq_some_iff.mp hv
    cases he
    exact ⟨c,v,hu,hc,hw,rfl,rfl⟩
  · cases h

/-- Everything a step can do, one case per action. -/
theorem SinkState.step_cases {s s' : SinkState} {a : SinkAction} {e : SinkEvent}
    (h : s.step a = some (s',e)) :
    (∃ ns, a = .tick ns ∧ s' = { s with clock := s.clock+ns }) ∨
    (a = .park ∧ s.unparking = none ∧ s.sink.parkedSince = none ∧
      s' = { s with sink := { s.sink with parkedSince := some s.clock } }) ∨
    (∃ since, a = .unparkTake ∧ s.sink.parkedSince = some since ∧
      s' = { s with sink := { s.sink with parkedSince := none }, unparking := some since }) ∨
    (∃ since, a = .unparkAdd ∧ s.unparking = some since ∧ s' =
      ⟨s.clock,s.sink.settle (s.clock-since),none,s.past+(s.clock-since),s.calls⟩) ∨
    (∃ i, a = .call i ∧ s' = { s with calls := s.calls.insert i { floor := s.parkedTime } }) ∨
    (∃ i c, a = .load i ∧ s.calls.lookup i = some c ∧
      s' = { s with calls := s.calls.insert i { c with loaded := some s.sink.settledNs } }) ∨
    (∃ i c v, a = .read i ∧ s.unparking = none ∧ s.calls.lookup i = some c ∧ c.loaded = some v ∧
      s' = { s with calls := s.calls.erase i } ∧
      e = .returned c.floor (v+s.sink.live s.clock)) := by
  cases a with
  | tick ns => cases h; simp
  | park =>
    simp only [step] at h
    split at h
    · next hc => cases h; simp [hc]
    · cases h
  | unparkTake =>
    simp only [step] at h
    split at h
    · next since hp => cases h; simp [hp]
    · cases h
  | unparkAdd =>
    simp only [step] at h
    split at h
    · next since hu => cases h; simp [hu]
    · cases h
  | call i =>
    simp only [step] at h
    split at h
    · cases h
    · cases h; simp
  | load i =>
    simp only [step] at h
    split at h
    · next c hc => cases h; simp [hc]
    · cases h
  | read i =>
    obtain ⟨c,v,hread⟩ := read_eq h
    simp [hread]

namespace SinkState
variable {s s' : SinkState} {a : SinkAction} {e : SinkEvent}

theorem parkedTime_idle (h : s.unparking = none) :
    s.parkedTime = s.past+s.sink.live s.clock := by
  simp [parkedTime,WaitSink.live,h]

theorem parkedTime_unparking {since : ℕ} (h : s.unparking = some since) :
    s.parkedTime = s.past+(s.clock-since) := by
  simp [parkedTime,h]

theorem live_of_none {k : WaitSink} (h : k.parkedSince = none) (now : ℕ) : k.live now = 0 := by
  simp [WaitSink.live,h]

theorem live_of_some {k : WaitSink} {since : ℕ} (h : k.parkedSince = some since) (now : ℕ) :
    k.live now = now-since := by
  simp [WaitSink.live,h]

theorem live_mono (k : WaitSink) {now later : ℕ} (h : now ≤ later) : k.live now ≤ k.live later := by
  cases hp : k.parkedSince with
  | none => simp [live_of_none hp]
  | some since =>
    rw [live_of_some hp,live_of_some hp]
    omega

/-- Time spent parked is never taken back. -/
theorem parkedTime_mono (hi : SinkInv s) (hs : s.step a = some (s',e)) :
    s.parkedTime ≤ s'.parkedTime := by
  obtain ⟨ns,-,rfl⟩ | ⟨-,hu,hp,rfl⟩ | ⟨since,-,hp,rfl⟩ | ⟨since,-,hu,rfl⟩ | ⟨i,-,rfl⟩ |
    ⟨i,c,-,-,rfl⟩ | ⟨i,c,v,-,-,-,-,rfl,-⟩ := step_cases hs
  · cases hu : s.unparking with
    | none =>
      rw [parkedTime_idle hu,parkedTime_idle rfl]
      exact Nat.add_le_add_left (live_mono s.sink (Nat.le_add_right _ _)) _
    | some since =>
      rw [parkedTime_unparking hu,parkedTime_unparking rfl]
      change s.past+(s.clock-since) ≤ s.past+(s.clock+ns-since)
      omega
  · rw [parkedTime_idle hu,live_of_none hp,parkedTime_idle (by exact hu)]
    exact Nat.add_le_add_left (Nat.zero_le _) _
  · have hu : s.unparking = none := hi.apart.resolve_right (by simp [hp])
    rw [parkedTime_idle hu,live_of_some hp,parkedTime_unparking rfl]
  · have hp : s.sink.parkedSince = none := hi.apart.resolve_left (by simp [hu])
    rw [parkedTime_unparking hu,parkedTime_idle rfl]
    exact Nat.le_add_right _ _
  · exact le_rfl
  · exact le_rfl
  · exact le_rfl

end SinkState

theorem sinkInv_new : SinkInv {} where
  apart := .inl rfl
  settled_le := le_rfl
  loaded_le i c v h := by cases h

theorem SinkInv.step {s s' : SinkState} {a : SinkAction} {e : SinkEvent} (h : SinkInv s)
    (hs : s.step a = some (s',e)) : SinkInv s' := by
  obtain ⟨ns,-,rfl⟩ | ⟨-,hu,hp,rfl⟩ | ⟨since,-,hp,rfl⟩ | ⟨since,-,hu,rfl⟩ | ⟨i,-,rfl⟩ |
    ⟨i,c,-,hc,rfl⟩ | ⟨i,c,v,-,-,-,-,rfl,-⟩ := SinkState.step_cases hs
  · exact ⟨h.apart,h.settled_le,h.loaded_le⟩
  · exact ⟨.inl hu,h.settled_le,h.loaded_le⟩
  · exact ⟨.inr rfl,h.settled_le,h.loaded_le⟩
  · have hle := settle_le s.sink (s.clock-since)
    have hse := h.settled_le
    refine ⟨.inl rfl,?_,fun i c v hc hv => ?_⟩
    · change (s.sink.settle (s.clock-since)).settledNs ≤ s.past+(s.clock-since)
      omega
    · exact (h.loaded_le i c v hc hv).trans (Nat.le_add_right _ _)
  · refine ⟨h.apart,h.settled_le,fun j d v hd hv => ?_⟩
    rcases Table.lookup_insert_cases hd with ⟨-,rfl⟩ | hd
    · cases hv
    · exact h.loaded_le j d v hd hv
  · refine ⟨h.apart,h.settled_le,fun j d v hd hv => ?_⟩
    rcases Table.lookup_insert_cases hd with ⟨-,rfl⟩ | hd
    · cases hv
      exact h.settled_le
    · exact h.loaded_le j d v hd hv
  · exact ⟨h.apart,h.settled_le,
      fun j d v hd hv => h.loaded_le j d v (Table.lookup_of_erase hd) hv⟩

/-- Not more than the time spent parked up to the return, whatever the interleaving. -/
theorem SinkInv.read_le {s s' : SinkState} {i floor value : ℕ} (h : SinkInv s)
    (hs : s.step (.read i) = some (s',.returned floor value)) : value ≤ s.parkedTime := by
  obtain ⟨c,v,hu,hl,hv,-,he⟩ := SinkState.read_eq hs
  cases he
  rw [SinkState.parkedTime_idle hu]
  exact Nat.add_le_add_right (h.loaded_le i c v hl hv) _

/-- The park stays with its readers: it is not taken out of `parked_since` while a call that began
in it has loaded a count without it, no such call loads the count before the park is added, and the
count does not overflow. -/
def Careful (s : SinkState) : SinkAction → Prop
  | .unparkTake => ∀ c ∈ s.calls.values, ∀ v ∈ c.loaded, c.floor ≤ v
  | .load i => s.unparking ≠ none → ∀ c ∈ s.calls.lookup i, c.floor ≤ s.sink.settledNs
  | .unparkAdd => s.parkedTime < 2^64
  | _ => True

instance (s : SinkState) (a : SinkAction) : Decidable (Careful s a) := by
  unfold Careful
  split <;> infer_instance

/-- The runs in which no park is moved from under a reader. -/
def carefulMachine : Machine SinkState SinkAction SinkEvent := sinkMachine.restrict Careful

/-- In careful runs the count is exact, and the live park covers what a call has not loaded. -/
structure CarefulInv (s : SinkState) : Prop extends SinkInv s where
  exact : s.sink.settledNs = s.past
  floor_le : ∀ i c, s.calls.lookup i = some c → c.floor ≤ s.parkedTime
  covered : ∀ i c v, s.calls.lookup i = some c → c.loaded = some v →
    c.floor ≤ v+s.sink.live s.clock

theorem carefulInv_new : CarefulInv {} where
  toSinkInv := sinkInv_new
  exact := rfl
  floor_le i c h := by cases h
  covered i c v h := by cases h

theorem CarefulInv.step {s s' : SinkState} {a : SinkAction} {e : SinkEvent} (h : CarefulInv s)
    (hc : Careful s a) (hs : s.step a = some (s',e)) : CarefulInv s' := by
  have hi := h.toSinkInv.step hs
  have hmono := SinkState.parkedTime_mono h.toSinkInv hs
  have hold {t : Table ℕ WaitedCall} (ht : ∀ i c, t.lookup i = some c → s.calls.lookup i = some c) :
      ∀ i c, t.lookup i = some c → c.floor ≤ s'.parkedTime :=
    fun i c hl => (h.floor_le i c (ht i c hl)).trans hmono
  obtain ⟨ns,rfl,rfl⟩ | ⟨rfl,hu,hp,rfl⟩ | ⟨since,rfl,hp,rfl⟩ | ⟨since,rfl,hu,rfl⟩ | ⟨i,rfl,rfl⟩ |
    ⟨i,c,rfl,hl,rfl⟩ | ⟨i,c,v,rfl,-,-,-,rfl,-⟩ := SinkState.step_cases hs
  · refine ⟨hi,h.exact,hold fun _ _ hl => hl,fun j d v hd hv => ?_⟩
    have hlive := SinkState.live_mono s.sink (Nat.le_add_right s.clock ns)
    have hcov := h.covered j d v hd hv
    change d.floor ≤ v+s.sink.live (s.clock+ns)
    omega
  · refine ⟨hi,h.exact,hold fun _ _ hl => hl,fun j d v hd hv => ?_⟩
    have hcov := h.covered j d v hd hv
    rw [SinkState.live_of_none hp] at hcov
    exact hcov.trans (Nat.le_add_right _ _)
  · refine ⟨hi,h.exact,hold fun _ _ hl => hl,fun j d v hd hv => ?_⟩
    have hcov := hc d (Table.mem_values.mpr ⟨j,hd⟩) v hv
    exact hcov.trans (Nat.le_add_right _ _)
  · have hlt : s.parkedTime < 2^64 := hc
    rw [SinkState.parkedTime_unparking hu,← h.exact] at hlt
    refine ⟨hi,?_,hold fun _ _ hl => hl,fun j d v hd hv => h.covered j d v hd hv⟩
    change (s.sink.settle (s.clock-since)).settledNs = s.past+(s.clock-since)
    rw [settle_exact hlt,h.exact]
  · refine ⟨hi,h.exact,fun j d hd => ?_,fun j d v hd hv => ?_⟩
    · rcases Table.lookup_insert_cases hd with ⟨-,rfl⟩ | hd
      · exact le_rfl
      · exact h.floor_le j d hd
    · rcases Table.lookup_insert_cases hd with ⟨-,rfl⟩ | hd
      · cases hv
      · exact h.covered j d v hd hv
  · refine ⟨hi,h.exact,fun j d hd => ?_,fun j d v hd hv => ?_⟩
    · rcases Table.lookup_insert_cases hd with ⟨-,rfl⟩ | hd
      · exact h.floor_le i c hl
      · exact h.floor_le j d hd
    · rcases Table.lookup_insert_cases hd with ⟨-,rfl⟩ | hd
      · -- A load between the two steps of `unpark` is the one that must not miss the park.
        cases hv
        have hfloor := h.floor_le i c hl
        cases hu : s.unparking with
        | none =>
          rw [SinkState.parkedTime_idle hu,← h.exact] at hfloor
          exact hfloor
        | some since => exact (hc (by simp [hu]) c hl).trans (Nat.le_add_right _ _)
      · exact h.covered j d v hd hv
  · exact ⟨hi,h.exact,hold fun _ _ hl => Table.lookup_of_erase hl,
      fun j d v hd hv => h.covered j d v (Table.lookup_of_erase hd) hv⟩

section Enabled
variable {s : SinkState} {since i : ℕ} {c : WaitedCall}

theorem unparkTake_eq (h : s.sink.parkedSince = some since) : sinkMachine.step s .unparkTake =
    some ({ s with sink := { s.sink with parkedSince := none }, unparking := some since },
      .silent) := by
  simp [sinkMachine,SinkState.step,h]

theorem unparkAdd_eq (h : s.unparking = some since) : sinkMachine.step s .unparkAdd =
    some (⟨s.clock,s.sink.settle (s.clock-since),none,s.past+(s.clock-since),s.calls⟩,
      .silent) := by
  simp [sinkMachine,SinkState.step,h]

theorem call_eq (h : i ∉ s.calls) : sinkMachine.step s (.call i) =
    some ({ s with calls := s.calls.insert i { floor := s.parkedTime } },.silent) := by
  simp [sinkMachine,SinkState.step,h]

theorem load_eq (h : s.calls.lookup i = some c) : sinkMachine.step s (.load i) =
    some ({ s with calls := s.calls.insert i { c with loaded := some s.sink.settledNs } },
      .silent) := by
  simp [sinkMachine,SinkState.step,h]

end Enabled

/-- A call returns less than what had been spent parked when it began. -/
def Short (s : SinkState) (as : List SinkAction) : Prop :=
  ∃ t es i t' floor value, sinkMachine.run s as = some (t,es) ∧
    sinkMachine.step t (.read i) = some (t',.returned floor value) ∧ value < floor

theorem short_of_read {s t : SinkState} {as : List SinkAction} {es : List SinkEvent} {i v : ℕ}
    {c : WaitedCall} (hr : sinkMachine.run s as = some (t,es)) (hu : t.unparking = none)
    (hp : t.sink.parkedSince = none) (hl : t.calls.lookup i = some c) (hv : c.loaded = some v)
    (hlt : v < c.floor) : Short s as := by
  refine ⟨t,es,i,{ t with calls := t.calls.erase i },c.floor,v,hr,?_,hlt⟩
  simp [sinkMachine,SinkState.step,hu,hl,hv,SinkState.live_of_none hp]

/-- Every careless step can be followed by a call that comes up short. -/
theorem SinkInv.short {s s' : SinkState} {a : SinkAction} {e : SinkEvent} (h : SinkInv s)
    (hs : s.step a = some (s',e)) (hc : ¬ Careful s a) : ∃ bs, Short s (a::bs) := by
  cases a with
  | tick | park | call | read => exact absurd trivial hc
  | unparkTake =>
    simp only [Careful,not_forall] at hc
    obtain ⟨c,hm,v,hv,hlt⟩ := hc
    obtain ⟨i,hl⟩ := Table.mem_values.mp hm
    obtain ⟨since,hp⟩ : ∃ since, s.sink.parkedSince = some since := by
      cases hp : s.sink.parkedSince with
      | none => simp [SinkState.step,hp] at hs
      | some since => exact ⟨since,rfl⟩
    have hr : sinkMachine.run s [.unparkTake,.unparkAdd] = some (_,_) :=
      Machine.run_of_step _ (unparkTake_eq hp) (Machine.run_of_step _ (unparkAdd_eq rfl) rfl)
    exact ⟨[.unparkAdd],short_of_read hr rfl rfl hl hv (not_le.mp hlt)⟩
  | load i =>
    simp only [Careful,not_forall] at hc
    obtain ⟨hu,c,hl,hlt⟩ := hc
    obtain ⟨since,hu⟩ := Option.ne_none_iff_exists'.mp hu
    have hp : s.sink.parkedSince = none := h.apart.resolve_left (by simp [hu])
    have hl : s.calls.lookup i = some c := hl
    have hr : sinkMachine.run s [.load i,.unparkAdd] = some (_,_) :=
      Machine.run_of_step _ (load_eq hl) (Machine.run_of_step _ (unparkAdd_eq hu) rfl)
    exact ⟨[.unparkAdd],short_of_read hr rfl hp (AList.lookup_insert _) rfl (not_le.mp hlt)⟩
  | unparkAdd =>
    obtain ⟨since,hu⟩ : ∃ since, s.unparking = some since := by
      cases hu : s.unparking with
      | none => simp [SinkState.step,hu] at hs
      | some since => exact ⟨since,rfl⟩
    have hp : s.sink.parkedSince = none := h.apart.resolve_left (by simp [hu])
    obtain ⟨j,hj⟩ := Infinite.exists_notMem_finset s.calls.keys.toFinset
    have hj : j ∉ s.calls := fun hm => hj (List.mem_toFinset.mpr hm)
    have hr : sinkMachine.run s [.unparkAdd,.call j,.load j] = some (_,_) :=
      Machine.run_of_step _ (unparkAdd_eq hu) (Machine.run_of_step _ (call_eq hj)
        (Machine.run_of_step _ (load_eq (AList.lookup_insert _)) rfl))
    refine ⟨[.call j,.load j],short_of_read hr rfl hp (AList.lookup_insert _) rfl ?_⟩
    have hge : ¬ s.parkedTime < 2^64 := hc
    rw [SinkState.parkedTime_unparking hu] at hge
    have hlt := settle_lt s.sink (s.clock-since)
    rw [SinkState.parkedTime_idle rfl,SinkState.live_of_none (by exact hp)]
    change (s.sink.settle (s.clock-since)).settledNs < s.past+(s.clock-since)+0
    omega

/-- What `waited` returns lies between the time spent parked when the call began and the time spent
parked when it returns, so that a deadline moved out by it is not reached on account of queueing,
in every run in which no park is moved from under a reader. Never does it return too much; but once
a park is moved from under a reader, that call or the next can come up short. -/
theorem waited_bounds (s : SinkState) :
    (∀ i s' floor value, carefulMachine.Reachable {} s →
      carefulMachine.step s (.read i) = some (s',.returned floor value) →
      (floor ≤ value ∧ value ≤ s.parkedTime) ∧
      ∀ elapsed timeout, timeout+value ≤ elapsed → timeout+floor ≤ elapsed) ∧
    (∀ i s' floor value, sinkMachine.Reachable {} s →
      sinkMachine.step s (.read i) = some (s',.returned floor value) → value ≤ s.parkedTime) ∧
    ∀ a s' e, sinkMachine.Reachable {} s → sinkMachine.step s a = some (s',e) →
      ¬ Careful s a → ∃ bs, Short s (a::bs) := by
  have hinv (hr : sinkMachine.Reachable {} s) : SinkInv s :=
    Machine.Reachable.invariant sinkMachine (fun _ _ _ _ hi hs => hi.step hs) sinkInv_new hr
  refine ⟨?_,fun i s' floor value hr hs => (hinv hr).read_le hs,
    fun a s' e hr hs hc => (hinv hr).short hs hc⟩
  intro i s' floor value hr hs
  have hi : CarefulInv s := by
    refine Machine.Reachable.invariant carefulMachine ?_ carefulInv_new hr
    intro s a s' e hi hs
    obtain ⟨hc,hs⟩ := (Machine.restrict_step sinkMachine).mp hs
    exact hi.step hc hs
  obtain ⟨-,hs⟩ := (Machine.restrict_step sinkMachine).mp hs
  have hle := hi.read_le hs
  obtain ⟨c,v,-,hl,hv,-,he⟩ := SinkState.read_eq hs
  cases he
  have hcov := hi.covered i c v hl hv
  refine ⟨⟨hcov,hle⟩,fun elapsed timeout hel => ?_⟩
  omega

/-- One park settled and a second one under way, both counted. -/
theorem waited_bounds_second_park : ∃ s s', carefulMachine.Reachable {} s ∧
    carefulMachine.step s (.read 0) = some (s',.returned 70 90) ∧ 90 ≤ s.parkedTime := by
  have hr : carefulMachine.Reachable {} _ :=
    ⟨[.park,.tick 50,.unparkTake,.unparkAdd,.tick 10,.park,.tick 20,.call 0,.load 0,.tick 20],
      _,rfl⟩
  exact ⟨_,_,hr,rfl,((waited_bounds _).1 0 _ 70 90 hr rfl).1.2⟩

/-- A park of 100 ns that ends between a call's load and its locked read is in neither. -/
theorem waited_misses_park : ¬ ∀ s i s' floor value, sinkMachine.Reachable {} s →
    sinkMachine.step s (.read i) = some (s',.returned floor value) →
    floor ≤ value ∧ value ≤ s.parkedTime := by
  intro h
  have := (h _ 0 _ 100 0
    ⟨[.park,.tick 100,.call 0,.load 0,.unparkTake,.unparkAdd],_,rfl⟩ rfl).1
  omega

end Provium.Scheduler
