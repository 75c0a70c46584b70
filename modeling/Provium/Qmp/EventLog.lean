import Provium.Qmp.Senders

/-! The event log of a connection: an event gets in when its line is read, and only then. -/
namespace Provium.Qmp
open Lib

/-- The event that a line's value is, as `handle_line` takes it. -/
def arrival (value : Value) : Option Event := (value.get "event").bind fun _ => wireEvent value

/-- The event that this action brings. -/
def Action.arrival : Action → Option Event
  | .line (some value) => Qmp.arrival value
  | _ => none

namespace Conn
variable {s s' : Conn} {o : Obs}

theorem log_acquire (s : Conn) (k : ℕ) (c : Call) (expired : Bool) :
    (s.acquire k c expired).1.log = s.log := by
  unfold acquire
  split_ifs
  all_goals rfl

theorem log_release (s : Conn) (k : ℕ) (result : Except QmpError Unit) :
    (s.release k result).log = s.log := by
  cases result with
  | ok => rfl
  | error e => rfl

theorem log_callStep {k : ℕ} {c : Call} {st : CallStep} (h : s.callStep k c st = some (s',o)) :
    s'.log = s.log := by
  unfold callStep at h
  split at h
  · cases h
    rfl
  · next expired hp =>
    have hs : (s.acquire k c expired).1 = s' := congrArg Prod.fst (Option.some.inj h)
    rw [← hs]
    exact log_acquire s k c expired
  · cases h
    rfl
  · cases h
    rfl
  · split_ifs at h
    cases h
    rfl
  · next result hp =>
    have hs : s.release k result = s' := congrArg Prod.fst (Option.some.inj h)
    rw [← hs]
    exact log_release s k result
  · split_ifs at h
    · cases h
      rfl
    · cases h
      rfl
  · split at h
    · cases h
    · cases h
      rfl
  · split at h
    · cases h
      rfl
    · cases h
  · split_ifs at h
    cases h
    rfl
  · cases h
    rfl
  · cases h

theorem log_enter (s : Conn) (command : String) (args : Value) (timeout : ℕ)
    (tooLarge expired : Bool) : (s.enter command args timeout tooLarge expired).1.log = s.log := by
  unfold enter
  split_ifs
  all_goals rfl

theorem events_shutdownStep {j pick : ℕ} {d : Shutdown} (h : s.shutdownStep j pick d = some (s',o)) :
    s'.log.events = s.log.events := by
  unfold shutdownStep at h
  split at h
  · cases h
    rfl
  · cases h
    dsimp only [setShutdown]
    split_ifs
    all_goals rfl
  · cases h
    rfl
  · split at h
    · cases h
    · simp only [Option.map_eq_some_iff,Prod.mk.injEq] at h
      obtain ⟨s₁,hs,rfl,-⟩ := h
      obtain ⟨-,-,-,-,hlog,-⟩ := send_frame hs
      exact congrArg EventLog.events hlog

theorem events_handleLine (s : Conn) (value : Value) :
    (s.handleLine value).log.events = s.log.events++(arrival value).toList := by
  unfold handleLine arrival
  split
  · next he =>
    rw [he,Option.bind_some]
    split
    · next event hevent =>
      rw [hevent]
      rfl
    · next hnone =>
      rw [hnone]
      exact (List.append_nil _).symm
  · next he =>
    rw [he,Option.bind_none,Option.toList_none,List.append_nil]
    split
    · rfl
    · split
      · rfl
      · rfl

theorem events_readerStep {a : Action} (h : s.readerStep a = some (s',o)) :
    s'.log.events = s.log.events++a.arrival.toList := by
  unfold readerStep at h
  split at h
  · next value =>
    split at h
    · cases h
      cases value with
      | none => exact (List.append_nil _).symm
      | some value => exact events_handleLine s value
    · cases h
  · split at h
    · cases h
      exact (List.append_nil _).symm
    · cases h
  · split at h
    · cases h
      exact (List.append_nil _).symm
    · cases h
  · split at h
    · simp only [Option.map_eq_some_iff,Prod.mk.injEq] at h
      obtain ⟨s₁,hs,rfl,-⟩ := h
      obtain ⟨-,-,-,-,hlog,-⟩ := send_frame hs
      exact (congrArg EventLog.events hlog).trans (List.append_nil _).symm
    · cases h
  · split at h
    · split_ifs at h
      cases h
      exact (List.append_nil _).symm
    · cases h
  · cases h

/-- The log takes every event that arrives, and nothing else. -/
theorem events_step {a : Action} (h : s.step a = some (s',o)) :
    s'.log.events = s.log.events++a.arrival.toList := by
  cases a with
  | call command args timeout tooLarge expired =>
    have hs' : (s.enter command args timeout tooLarge expired).1 = s' :=
      congrArg Prod.fst (Option.some.inj h)
    rw [← hs',log_enter]
    exact (List.append_nil _).symm
  | proceed k st =>
    simp only [step,Option.bind_eq_some_iff] at h
    obtain ⟨c,-,hc⟩ := h
    rw [log_callStep hc]
    exact (List.append_nil _).symm
  | shutdown reason =>
    cases h
    exact (List.append_nil _).symm
  | shutdownStep j pick =>
    simp only [step,Option.bind_eq_some_iff] at h
    obtain ⟨d,-,hd⟩ := h
    rw [events_shutdownStep hd]
    exact (List.append_nil _).symm
  | line value => exact events_readerStep (a := .line value) h
  | readEnd => exact events_readerStep (a := .readEnd) h
  | readError => exact events_readerStep (a := .readError) h
  | deliver => exact events_readerStep (a := .deliver) h
  | readerExit => exact events_readerStep (a := .readerExit) h

theorem events_prefix_step {a : Action} (h : s.step a = some (s',o)) :
    s.log.events <+: s'.log.events := by
  rw [events_step h]
  exact List.prefix_append _ _

end Conn

end Provium.Qmp
