import Provium.Qmp.Effect

/-! Who can still answer a call. A call's channel has one sender, which is in the table, with the
reader or with a shutdown, and is used up by its first use: every step either leaves a call's
senders as they are, or drops some, or spends one on an answer. -/
namespace Provium.Qmp
open Lib

/-- One where the call has yet to register. -/
def Phase.unregistered : Phase → ℕ
  | .allocated => 1
  | _ => 0

/-- How many times the observation is an answer to the call. -/
def Obs.resolves (k : ℕ) : Obs → ℕ
  | .resolved j _ => if j = k then 1 else 0
  | _ => 0

theorem Obs.Quiet.resolves {o : Obs} (h : o.Quiet) (k : ℕ) : o.resolves k = 0 := by
  cases o with
  | resolved j r => exact absurd h not_false
  | _ => rfl

namespace Conn

/-- One where the call is still to come or to register. -/
def unregistered (s : Conn) (k : ℕ) : ℕ := (s.calls[k]?).elim 1 fun c => c.phase.unregistered

/-- The answers that a call can still be given. -/
def credit (s : Conn) (k : ℕ) : ℕ := s.unregistered k+s.senders k

/-- The answers that lie in the call's channel. -/
def inboxed (s : Conn) (k : ℕ) : ℕ := (s.calls[k]?).elim 0 fun c => c.inbox.elim 0 fun _ => 1

variable {s s' : Conn} {k : ℕ} {o : Obs}

theorem getElem?_calls_setPhase (s : Conn) (k j : ℕ) (phase : Phase) :
    (s.setPhase k phase).calls[j]? =
      (s.calls[j]?).map fun c => if k = j then { c with phase } else c := by
  simp [setPhase,List.getElem?_modify]

/-- Where a registered call moves on, no other call registers or un-registers. -/
theorem unregistered_setPhase_le (s : Conn) (k j : ℕ) (phase : Phase)
    (h : phase.unregistered = 0) : (s.setPhase k phase).unregistered j ≤ s.unregistered j := by
  simp only [unregistered,getElem?_calls_setPhase]
  cases s.calls[j]? with
  | none => exact le_rfl
  | some c =>
    simp only [Option.map_some,Option.elim_some]
    split
    · simp [h]
    · exact le_rfl

@[simp] theorem inboxed_setPhase (s : Conn) (k j : ℕ) (phase : Phase) :
    (s.setPhase k phase).inboxed j = s.inboxed j := by
  simp only [inboxed,getElem?_calls_setPhase]
  cases s.calls[j]? with
  | none => rfl
  | some c =>
    simp only [Option.map_some,Option.elim_some]
    split <;> rfl

/-- The senders that the shutdowns hold, when one of them moves on. -/
theorem sum_owed_modify {ds : List Shutdown} {j : ℕ} {d : Shutdown} (hd : ds[j]? = some d)
    (phase : ShutdownPhase) (k : ℕ) :
    ((ds.modify j fun d => { d with phase }).map fun d => d.phase.owed.count k).sum+
      d.phase.owed.count k = (ds.map fun d => d.phase.owed.count k).sum+phase.owed.count k := by
  induction ds generalizing j with
  | nil => cases hd
  | cons e ds ih =>
    cases j with
    | zero =>
      cases hd
      simp only [List.modify_zero_cons,List.map_cons,List.sum_cons]
      omega
    | succ j =>
      have hds := ih hd
      simp only [List.modify_succ_cons,List.map_cons,List.sum_cons]
      omega

theorem senders_setShutdown {j : ℕ} {d : Shutdown} (hd : s.shutdowns[j]? = some d)
    (phase : ShutdownPhase) (k : ℕ) :
    (s.setShutdown j phase).senders k+d.phase.owed.count k = s.senders k+phase.owed.count k := by
  have hsum := sum_owed_modify hd phase k
  simp only [senders,setShutdown]
  omega

@[simp] theorem senders_begin (s : Conn) (reason : String) (k : ℕ) :
    (s.begin reason).senders k = s.senders k := by
  simp [senders,begin,ShutdownPhase.owed]

/-- What `send` does: the answer is in the channel, or the call was over. -/
theorem send_cases {j : ℕ} {r : RawResponse} (h : s.send j r = some s') :
    (∃ c, s.calls[j]? = some c ∧ (∃ result, c.phase = .returned result) ∧ s' = s) ∨
    ∃ c, s.calls[j]? = some c ∧ c.inbox = none ∧ (∀ result, c.phase ≠ .returned result) ∧
      s' = { s with calls := s.calls.modify j fun c => { c with inbox := some r } } := by
  unfold send at h
  split at h
  · cases h
  · next c hc =>
    split at h
    · next _ result hphase =>
      cases h
      exact .inl ⟨c,hc,⟨result,hphase⟩,rfl⟩
    · cases h
    · next _ hinbox hnot =>
      cases h
      exact .inr ⟨c,hc,hinbox,hnot,rfl⟩

theorem send_frame {j : ℕ} {r : RawResponse} (h : s.send j r = some s') :
    s'.pending = s.pending ∧ s'.reader = s.reader ∧ s'.shutdowns = s.shutdowns ∧
      s'.writer = s.writer ∧ s'.log = s.log ∧ s'.nextId = s.nextId := by
  rcases send_cases h with ⟨_,-,-,rfl⟩ | ⟨_,-,-,-,rfl⟩
  · exact ⟨rfl,rfl,rfl,rfl,rfl,rfl⟩
  · exact ⟨rfl,rfl,rfl,rfl,rfl,rfl⟩

theorem unregistered_send {j : ℕ} {r : RawResponse} (h : s.send j r = some s') (k : ℕ) :
    s'.unregistered k = s.unregistered k := by
  rcases send_cases h with ⟨_,-,-,rfl⟩ | ⟨_,-,-,-,rfl⟩
  · rfl
  · simp only [unregistered,List.getElem?_modify]
    cases s.calls[k]? with
    | none => rfl
    | some c =>
      simp only [Option.map_eq_map,Option.map_some,Option.elim_some]
      split <;> rfl

theorem inboxed_send {j : ℕ} {r : RawResponse} (h : s.send j r = some s') (k : ℕ) :
    s'.inboxed k ≤ s.inboxed k+(if j = k then 1 else 0) := by
  rcases send_cases h with ⟨_,-,-,rfl⟩ | ⟨_,-,-,-,rfl⟩
  · exact Nat.le_add_right _ _
  · simp only [inboxed,List.getElem?_modify]
    cases s.calls[k]? with
    | none => exact Nat.zero_le _
    | some c =>
      simp only [Option.map_eq_map,Option.map_some,Option.elim_some]
      split
      · simp
      · exact le_rfl

/-- Draining the table hands all its senders to the shutdown. -/
theorem count_values (m : Table String Pending) (k : ℕ) :
    (m.values.map Pending.replyTo).count k = m.total (Pending.isFor k) := by
  unfold Table.total
  induction m.values with
  | nil => rfl
  | cons p ps ih =>
    simp only [List.map_cons,List.count_cons,List.sum_cons,ih,Pending.isFor,beq_iff_eq]
    omega

theorem count_eraseIdx_of_getElem? {l : List ℕ} {i k : ℕ} (h : l[i]? = some k) (j : ℕ) :
    (l.eraseIdx i).count j+(if k = j then 1 else 0) = l.count j := by
  obtain ⟨hi,rfl⟩ := List.getElem?_eq_some_iff.mp h
  have hperm := (List.getElem_cons_eraseIdx_perm hi).count_eq j
  rw [List.count_cons] at hperm
  simpa using hperm

theorem unregistered_accept (s : Conn) (command : String) (args : Value) (timeout k : ℕ) :
    (s.accept command args timeout).unregistered k = s.unregistered k := by
  simp only [unregistered,accept,List.getElem?_append]
  split
  · rfl
  · next hge =>
    rw [List.getElem?_eq_none (by omega : s.calls.length ≤ k)]
    cases hk : k-s.calls.length with
    | zero => rfl
    | succ n => rfl

theorem unregistered_of_allocated {c : Call} (hc : s.calls[k]? = some c) (hp : c.phase = .allocated)
    (phase : Phase) (hp' : phase.unregistered = 0) (j : ℕ) :
    (s.setPhase k phase).unregistered j+(if k = j then 1 else 0) = s.unregistered j := by
  simp only [unregistered,getElem?_calls_setPhase]
  by_cases hkj : k = j
  · subst hkj
    simp only [hc,Option.map_some,Option.elim_some,if_true]
    rw [hp',hp]
    rfl
  · simp [hkj]

theorem sum_owed_append (ds begun : List Shutdown) (hb : ∀ d ∈ begun, d.phase = .closeWriter)
    (k : ℕ) : ((ds++begun).map fun d => d.phase.owed.count k).sum =
      (ds.map fun d => d.phase.owed.count k).sum := by
  have hzero : (begun.map fun d => d.phase.owed.count k).sum = 0 := by
    apply List.sum_eq_zero
    intro x hx
    obtain ⟨d,hd,rfl⟩ := List.mem_map.mp hx
    rw [hb d hd]
    rfl
  rw [List.map_append,List.sum_append,hzero,Nat.add_zero]

/-- A step that neither registers a call nor removes its entry leaves all senders where they are,
or hands some on, or uses one up. -/
theorem senders_step {a : Action} (h : Effect s a s' o) (k : ℕ) :
    s'.senders k+o.resolves k = s.senders k ∨
    ∃ (j : ℕ) (c : Call), s.calls[j]? = some c ∧
      (c.phase = .allocated ∧ o = .silent ∧
        s' = { s with pending := s.pending.insert c.id ⟨c.command,j⟩ }.setPhase j .registered ∨
      ∃ e, c.phase = .cleanup e ∧ o = .returned j (.error e) ∧
        s' = { s with pending := s.pending.erase c.id }.setPhase j (.returned (.error e))) := by
  cases h with
  | @register _ j c hc hp => exact .inr ⟨j,c,hc,.inl ⟨hp,rfl,rfl⟩⟩
  | @cleanup _ j c e hc hp => exact .inr ⟨j,c,hc,.inr ⟨e,hp,rfl,rfl⟩⟩
  | idle ho =>
    left
    rw [ho.resolves k,Nat.add_zero]
  | panic => exact .inl rfl
  | log => exact .inl rfl
  | enter command args timeout => exact .inl rfl
  | @advance _ j c o phase writer begun hc hp hp' _ _ hb ho =>
    left
    have hsum := sum_owed_append s.shutdowns begun hb k
    have hres := ho.resolves k
    simp only [senders,setPhase]
    omega
  | receive hc hp hr => exact .inl rfl
  | disconnected hc hp hs => exact .inl rfl
  | begin reason => exact .inl (senders_begin s reason k)
  | readerClose reason hr =>
    left
    have hb := senders_begin s reason k
    simp only [senders,readerClose,hr,Reader.owed,begin,Obs.resolves] at hb ⊢
    omega
  | readerExit hr =>
    left
    simp only [senders,hr,Reader.owed,Obs.resolves]
    omega
  | @closeWriter _ j d hd hp =>
    left
    have hs := senders_setShutdown (s := { s with writer := ⟨false,s.writer.busy,true⟩ }) hd
      .closeLog k
    simp only [hp,ShutdownPhase.owed,List.count_nil] at hs
    exact hs
  | @closeLog _ j d log hd hp =>
    left
    have hs := senders_setShutdown (s := { s with log }) hd .drain k
    simp only [hp,ShutdownPhase.owed,List.count_nil] at hs
    exact hs
  | @drain _ j d hd hp =>
    left
    have hs := senders_setShutdown (s := { s with pending := ∅ }) hd
      (.sending (s.pending.values.map Pending.replyTo)) k
    simp only [hp,ShutdownPhase.owed,List.count_nil,count_values] at hs
    simp only [senders,setShutdown,Obs.resolves,Table.total_empty] at hs ⊢
    omega
  | @sendClosed _ j pick i d owed s₁ hd hp hk hs =>
    left
    obtain ⟨hpend,hreader,hdowns,-,-,-⟩ := send_frame hs
    have hd₁ : s₁.shutdowns[j]? = some d := by rw [hdowns,hd]
    have hsend := senders_setShutdown hd₁ (.sending (owed.eraseIdx pick)) k
    have hcount := count_eraseIdx_of_getElem? hk k
    simp only [hp,ShutdownPhase.owed] at hsend
    simp only [senders,setShutdown,Obs.resolves,hpend,hreader,hdowns] at hsend ⊢
    omega
  | @take value id p hr he hid hp =>
    left
    have htotal := Table.total_erase (Pending.isFor k) s.pending id
    have hweight : s.pending.weight (Pending.isFor k) id = if p.replyTo = k then 1 else 0 := by
      simp [Table.weight,hp,Pending.isFor]
    simp only [senders,hr,Reader.owed,Obs.resolves,List.count_singleton,List.count_nil,
      beq_iff_eq]
    omega
  | @deliver _ j r s₁ hr hs =>
    left
    obtain ⟨hpend,hreader,hdowns,-,-,-⟩ := send_frame hs
    simp only [senders,Obs.resolves,hpend,hdowns,hr,Reader.owed,List.count_singleton,
      List.count_nil,beq_iff_eq]
    omega

/-- A call registers once. -/
theorem unregistered_step {a : Action} (h : Effect s a s' o) (k : ℕ) :
    s'.unregistered k ≤ s.unregistered k := by
  cases h with
  | enter command args timeout => rw [unregistered_accept]
  | register hc hp => exact unregistered_setPhase_le s _ k _ rfl
  | @advance _ j c o phase writer begun hc hp hp' _ _ hb ho =>
    have hphase : phase.unregistered = 0 := by
      cases phase <;> simp_all [Phase.unregistered,Phase.Parked,Phase.Engaged]
    exact unregistered_setPhase_le s j k phase hphase
  | cleanup hc hp => exact unregistered_setPhase_le s _ k _ rfl
  | receive hc hp hr => exact unregistered_setPhase_le s _ k _ rfl
  | disconnected hc hp hs => exact unregistered_setPhase_le s _ k _ rfl
  | sendClosed hd hp hk hs =>
    have hun := unregistered_send hs k
    exact hun.le
  | deliver hr hs =>
    have hun := unregistered_send hs k
    exact hun.le
  | _ => exact le_rfl

/-- No step gives a call a new answer to hope for, and an answer costs one. -/
theorem credit_step {a : Action} (h : Effect s a s' o) (k : ℕ) :
    s'.credit k+o.resolves k ≤ s.credit k := by
  have hun := unregistered_step h k
  unfold credit
  rcases senders_step h k with hsame | ⟨j,c,hc,⟨hp,rfl,rfl⟩ | ⟨e,hp,rfl,rfl⟩⟩
  · omega
  · have hone := unregistered_of_allocated hc hp .registered rfl k
    have htotal := Table.total_insert (Pending.isFor k) s.pending c.id ⟨c.command,j⟩
    have hfor : Pending.isFor k ⟨c.command,j⟩ = if j = k then 1 else 0 := rfl
    simp only [senders,setPhase,unregistered,Obs.resolves] at hone ⊢
    omega
  · have htotal := Table.total_erase (Pending.isFor k) s.pending c.id
    simp only [senders,setPhase,unregistered,Obs.resolves] at hun ⊢
    omega

/-- An answer comes into a channel only as an answer. -/
theorem inboxed_step {a : Action} (h : Effect s a s' o) (k : ℕ) :
    s'.inboxed k ≤ s.inboxed k+o.resolves k := by
  cases h with
  | enter command args timeout =>
    simp only [inboxed,accept,List.getElem?_append]
    split
    · exact Nat.le_add_right _ _
    · cases hk : k-s.calls.length with
      | zero => exact Nat.zero_le _
      | succ n => exact Nat.zero_le _
  | register hc hp =>
    change (s.setPhase _ _).inboxed k ≤ _
    rw [inboxed_setPhase]
    exact Nat.le_add_right _ _
  | advance phase writer begun hc hp hp' hclosed hw hb ho =>
    change (s.setPhase _ _).inboxed k ≤ _
    rw [inboxed_setPhase]
    exact Nat.le_add_right _ _
  | cleanup hc hp =>
    change (s.setPhase _ _).inboxed k ≤ _
    rw [inboxed_setPhase]
    exact Nat.le_add_right _ _
  | receive hc hp hr =>
    rw [inboxed_setPhase]
    exact Nat.le_add_right _ _
  | disconnected hc hp hs =>
    rw [inboxed_setPhase]
    exact Nat.le_add_right _ _
  | sendClosed hd hp hk hs => exact inboxed_send hs k
  | deliver hr hs => exact inboxed_send hs k
  | _ => exact Nat.le_add_right _ _

end Conn
end Provium.Qmp
