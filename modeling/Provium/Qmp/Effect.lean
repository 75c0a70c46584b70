import Provium.Qmp.Connection

/-! What a step of the connection can do, said once: every invariant goes through the cases of
`Effect` and never into the step functions. -/
namespace Provium.Qmp
open Lib

/-- A call in `send` without the stream, or about to remove its entry. -/
def Phase.Parked : Phase → Prop
  | .registered => True
  | .cleanup _ => True
  | _ => False

/-- A call that has had the stream and has not given up. -/
def Phase.Engaged : Phase → Prop
  | .writing => True
  | .failing _ _ => True
  | .releasing _ => True
  | .sent => True
  | .waiting => True
  | _ => False

/-- A call that is to be told how its command went. -/
def Phase.Awaiting (phase : Phase) : Prop := phase = .registered ∨ phase.Engaged

theorem Phase.not_engaged_of_parked {phase : Phase} (h : phase.Parked) : ¬phase.Engaged := by
  cases phase <;> simp_all [Phase.Parked,Phase.Engaged]

theorem Phase.Awaiting.not_returned {phase : Phase} (h : phase.Awaiting)
    (result : Except QmpError Value) : phase ≠ .returned result := by
  rintro rfl
  rcases h with h | h
  · cases h
  · exact h

theorem Phase.Awaiting.not_allocated {phase : Phase} (h : phase.Awaiting) :
    phase ≠ .allocated := by
  rintro rfl
  rcases h with h | h
  · cases h
  · exact h

theorem Phase.Awaiting.not_cleanup {phase : Phase} (h : phase.Awaiting) (e : QmpError) :
    phase ≠ .cleanup e := by
  rintro rfl
  rcases h with h | h
  · cases h
  · exact h

/-- A writer slot that is neither busy nor closed has the stream. -/
def WriterSlot.Sound (w : WriterSlot) : Prop := w.closed = false → w.busy = false → w.stream = true

/-- What is no answer and no end of a call. -/
def Obs.Quiet : Obs → Prop
  | .silent => True
  | .refused _ => True
  | .request _ _ => True
  | _ => False

/-- Everything that a step can do. -/
inductive Effect (s : Conn) : Action → Conn → Obs → Prop where
  | idle {a : Action} {o : Obs} (ho : o.Quiet) : Effect s a s o
  | panic {a : Action} (hw : ¬s.writer.Sound) : Effect s a s .panicked
  | log {a : Action} (log : EventLog) : Effect s a { s with log } .silent
  | enter {a : Action} (command : String) (args : Value) (timeout : ℕ) :
    Effect s a (s.accept command args timeout) .silent
  | register {a : Action} {k : ℕ} {c : Call} (hc : s.calls[k]? = some c)
    (hp : c.phase = .allocated) :
    Effect s a ({ s with pending := s.pending.insert c.id ⟨c.command,k⟩ }.setPhase k .registered)
      .silent
  | advance {a : Action} {k : ℕ} {c : Call} {o : Obs} (phase : Phase) (writer : WriterSlot)
    (begun : List Shutdown) (hc : s.calls[k]? = some c) (hp : c.phase.Awaiting)
    (hp' : phase.Parked ∨ phase.Engaged ∧ (c.phase.Engaged ∨ s.writer.closed = false))
    (hclosed : writer.closed = s.writer.closed) (hw : s.writer.Sound → writer.Sound)
    (hb : ∀ d ∈ begun, d.phase = .closeWriter) (ho : o.Quiet) :
    Effect s a ({ s with writer, shutdowns := s.shutdowns++begun }.setPhase k phase) o
  | cleanup {a : Action} {k : ℕ} {c : Call} {e : QmpError} (hc : s.calls[k]? = some c)
    (hp : c.phase = .cleanup e) :
    Effect s a ({ s with pending := s.pending.erase c.id }.setPhase k (.returned (.error e)))
      (.returned k (.error e))
  | receive {a : Action} {k : ℕ} {c : Call} {r : RawResponse} (hc : s.calls[k]? = some c)
    (hp : c.phase = .waiting) (hr : c.inbox = some r) :
    Effect s a (s.setPhase k (.returned (c.outcome r))) (.returned k (c.outcome r))
  | disconnected {a : Action} {k : ℕ} {c : Call} {e : QmpError} (hc : s.calls[k]? = some c)
    (hp : c.phase = .waiting) (hs : s.senders k = 0) :
    Effect s a (s.setPhase k (.returned (.error e))) (.returned k (.error e))
  | begin {a : Action} (reason : String) : Effect s a (s.begin reason) .silent
  | readerClose {a : Action} (reason : String) (hr : s.reader = .reading) :
    Effect s a (s.readerClose reason) .silent
  | readerExit {a : Action} {j : ℕ} (hr : s.reader = .closing j) :
    Effect s a { s with reader := .exited } .silent
  | closeWriter {a : Action} {j : ℕ} {d : Shutdown} (hd : s.shutdowns[j]? = some d)
    (hp : d.phase = .closeWriter) :
    Effect s a ({ s with writer := ⟨false,s.writer.busy,true⟩ }.setShutdown j .closeLog) .silent
  | closeLog {a : Action} {j : ℕ} {d : Shutdown} (log : EventLog) (hd : s.shutdowns[j]? = some d)
    (hp : d.phase = .closeLog) : Effect s a ({ s with log }.setShutdown j .drain) .silent
  | drain {a : Action} {j : ℕ} {d : Shutdown} (hd : s.shutdowns[j]? = some d)
    (hp : d.phase = .drain) :
    Effect s a ({ s with pending := ∅ }.setShutdown j
      (.sending (s.pending.values.map Pending.replyTo))) .silent
  | sendClosed {a : Action} {j pick k : ℕ} {d : Shutdown} {owed : List ℕ} {s₁ : Conn}
    (hd : s.shutdowns[j]? = some d) (hp : d.phase = .sending owed) (hk : owed[pick]? = some k)
    (hs : s.send k (.closed d.reason) = some s₁) :
    Effect s a (s₁.setShutdown j (.sending (owed.eraseIdx pick))) (.resolved k (.closed d.reason))
  | take {value : Value} {id : String} {p : Pending} (hr : s.reader = .reading)
    (he : value.get "event" = none) (hid : value.get "id" = some (.string id))
    (hp : s.pending.lookup id = some p) :
    Effect s (.line (some value))
      { s with pending := s.pending.erase id,
               reader := .delivering p.replyTo (classify value p.command) } .silent
  | deliver {a : Action} {k : ℕ} {r : RawResponse} {s₁ : Conn} (hr : s.reader = .delivering k r)
    (hs : s.send k r = some s₁) : Effect s a { s₁ with reader := .reading } (.resolved k r)

theorem Value.asStr_eq_some {v : Value} {x : String} (h : v.asStr = some x) : v = .string x := by
  cases v <;> cases h
  rfl

/-- A call that moves on without a shutdown. -/
theorem Effect.moveOn {s : Conn} {a : Action} {k : ℕ} {c : Call} {o : Obs} (phase : Phase)
    (writer : WriterSlot) (hc : s.calls[k]? = some c) (hp : c.phase.Awaiting)
    (hp' : phase.Parked ∨ phase.Engaged ∧ (c.phase.Engaged ∨ s.writer.closed = false))
    (hclosed : writer.closed = s.writer.closed) (hw : s.writer.Sound → writer.Sound)
    (ho : o.Quiet) : Effect s a ({ s with writer }.setPhase k phase) o := by
  have := Effect.advance (a := a) phase writer [] hc hp hp' hclosed hw (by simp) ho
  simpa using this

theorem Effect.acquire {s : Conn} {a : Action} {k : ℕ} {c : Call} (hc : s.calls[k]? = some c)
    (hp : c.phase = .registered) (expired : Bool) :
    Effect s a (s.acquire k c expired).1 (s.acquire k c expired).2 := by
  have hgive (e : QmpError) : Effect s a (s.setPhase k (.cleanup e)) .silent :=
    Effect.moveOn (.cleanup e) s.writer hc (.inl hp) (.inl trivial) rfl id trivial
  unfold Conn.acquire
  split
  · exact hgive _
  · next hopen =>
    have hopen' : s.writer.closed = false := by simpa using hopen
    split
    · exact hgive _
    · split
      · exact .idle trivial
      · next hidle =>
        split
        · exact Effect.moveOn .writing ⟨false,true,false⟩ hc (.inl hp)
            (.inr ⟨trivial,.inr hopen'⟩) hopen'.symm (by simp [WriterSlot.Sound]) trivial
        · next hnone =>
          apply Effect.panic
          intro hsound
          exact hnone (hsound hopen' (by simpa using hidle))

theorem Effect.release {s : Conn} {a : Action} {k : ℕ} {c : Call} {result : Except QmpError Unit}
    (hc : s.calls[k]? = some c) (hp : c.phase = .releasing result) :
    Effect s a (s.release k result) .silent := by
  have hengaged : c.phase.Engaged := by simp [hp,Phase.Engaged]
  have hw : s.writer.Sound →
      WriterSlot.Sound ⟨s.writer.stream || !s.writer.closed,false,s.writer.closed⟩ := by
    intro _ hclosed _
    simp only at hclosed ⊢
    simp [hclosed]
  cases result with
  | ok u =>
    exact Effect.moveOn .sent _ hc (.inr hengaged) (.inr ⟨trivial,.inl hengaged⟩) rfl hw trivial
  | error e => exact Effect.moveOn (.cleanup e) _ hc (.inr hengaged) (.inl trivial) rfl hw trivial

/-- A call that keeps the writer as it is. -/
theorem Effect.proceed {s : Conn} {a : Action} {k : ℕ} {c : Call} {o : Obs} (phase : Phase)
    (hc : s.calls[k]? = some c) (hp : c.phase.Engaged) (hp' : phase.Parked ∨ phase.Engaged)
    (ho : o.Quiet) : Effect s a (s.setPhase k phase) o :=
  Effect.moveOn phase s.writer hc (.inr hp) (hp'.imp_right fun h => ⟨h,.inl hp⟩) rfl id ho

theorem Effect.of_callStep {s s' : Conn} {a : Action} {k : ℕ} {c : Call} {st : CallStep} {o : Obs}
    (hc : s.calls[k]? = some c) (h : s.callStep k c st = some (s',o)) : Effect s a s' o := by
  unfold Conn.callStep at h
  split at h
  · next hp =>
    cases h
    exact .register hc hp
  · next expired hp =>
    have heffect := Effect.acquire (a := a) hc hp expired
    rw [Option.some.inj h] at heffect
    exact heffect
  · next hp =>
    cases h
    exact Effect.proceed _ hc (by simp [hp,Phase.Engaged]) (.inr trivial) trivial
  · next e hp =>
    cases h
    have hengaged : c.phase.Engaged := by simp [hp,Phase.Engaged]
    exact Effect.advance (.failing s.shutdowns.length e) s.writer
      [⟨"QMP send failed or timed out",.closeWriter⟩] hc (.inr hengaged)
      (.inr ⟨trivial,.inl hengaged⟩) rfl id (by simp) trivial
  · next j e hp =>
    split at h
    · cases h
      exact Effect.proceed _ hc (by simp [hp,Phase.Engaged]) (.inr trivial) trivial
    · cases h
  · next result hp =>
    cases h
    exact Effect.release hc hp
  · next expired hp =>
    have hengaged : c.phase.Engaged := by simp [hp,Phase.Engaged]
    split at h
    · cases h
      exact Effect.proceed _ hc hengaged (.inl trivial) trivial
    · cases h
      exact Effect.proceed _ hc hengaged (.inr trivial) trivial
  · next hp =>
    split at h
    · cases h
    · next response hr =>
      cases h
      exact .receive hc hp hr
  · next hp =>
    split at h
    · cases h
      exact Effect.proceed _ hc (by simp [hp,Phase.Engaged]) (.inl trivial) trivial
    · cases h
  · next hp =>
    split at h
    · next hnone =>
      cases h
      exact .disconnected hc hp hnone.2
    · cases h
  · next e hp =>
    cases h
    exact .cleanup hc hp
  · cases h

theorem Effect.of_shutdownStep {s s' : Conn} {a : Action} {j pick : ℕ} {d : Shutdown} {o : Obs}
    (hd : s.shutdowns[j]? = some d) (h : s.shutdownStep j pick d = some (s',o)) :
    Effect s a s' o := by
  unfold Conn.shutdownStep at h
  split at h
  · next hp =>
    cases h
    exact .closeWriter hd hp
  · next hp =>
    cases h
    exact .closeLog _ hd hp
  · next hp =>
    cases h
    exact .drain hd hp
  · next owed hp =>
    split at h
    · cases h
    · next k hk =>
      simp only [Option.map_eq_some_iff,Prod.mk.injEq] at h
      obtain ⟨s₁,hs,rfl,rfl⟩ := h
      exact .sendClosed hd hp hk hs

theorem Effect.of_handleLine {s : Conn} (hr : s.reader = .reading) (value : Value) :
    Effect s (.line (some value)) (s.handleLine value) .silent := by
  unfold Conn.handleLine
  split
  · split
    · exact .log _
    · exact .idle trivial
  · next he =>
    split
    · exact .idle trivial
    · next id hid =>
      split
      · exact .idle trivial
      · next p hp =>
        rw [Option.bind_eq_some_iff] at hid
        obtain ⟨v,hv,hstr⟩ := hid
        rw [Value.asStr_eq_some hstr] at hv
        exact .take hr he hv hp

theorem Effect.of_readerStep {s s' : Conn} {a : Action} {o : Obs}
    (h : s.readerStep a = some (s',o)) : Effect s a s' o := by
  unfold Conn.readerStep at h
  split at h
  · next value =>
    split at h
    · next hr =>
      cases h
      cases value with
      | none => exact .idle trivial
      | some value => exact Effect.of_handleLine hr value
    · cases h
  · split at h
    · next hr =>
      cases h
      exact .readerClose _ hr
    · cases h
  · split at h
    · next hr =>
      cases h
      exact .readerClose _ hr
    · cases h
  · split at h
    · next k response hr =>
      simp only [Option.map_eq_some_iff,Prod.mk.injEq] at h
      obtain ⟨s₁,hs,rfl,rfl⟩ := h
      exact .deliver hr hs
    · cases h
  · split at h
    · next j hr =>
      split at h
      · cases h
        exact .readerExit hr
      · cases h
    · cases h
  · cases h

theorem Effect.of_step {s s' : Conn} {a : Action} {o : Obs} (h : s.step a = some (s',o)) :
    Effect s a s' o := by
  cases a with
  | call command args timeout tooLarge expired =>
    simp only [Conn.step,Conn.enter,Option.some.injEq] at h
    split at h
    · cases h
      exact .idle trivial
    · split at h
      · cases h
        exact .idle trivial
      · cases h
        exact .enter command args timeout
  | proceed k st =>
    simp only [Conn.step,Option.bind_eq_some_iff] at h
    obtain ⟨c,hc,hstep⟩ := h
    exact Effect.of_callStep hc hstep
  | shutdown reason =>
    cases h
    exact .begin reason
  | shutdownStep j pick =>
    simp only [Conn.step,Option.bind_eq_some_iff] at h
    obtain ⟨d,hd,hstep⟩ := h
    exact Effect.of_shutdownStep hd hstep
  | line value => exact Effect.of_readerStep h
  | readEnd => exact Effect.of_readerStep h
  | readError => exact Effect.of_readerStep h
  | deliver => exact Effect.of_readerStep h
  | readerExit => exact Effect.of_readerStep h

end Provium.Qmp
