import Provium.Lib.Splice
import Provium.Qmp.Matching

/-! Matching of replies to calls, over whole runs of the connection. -/
namespace Provium.Qmp
open Lib

namespace Conn
variable {s s' : Conn} {a : Action} {o : Obs} {k : ℕ}

/-- Where one call ends, every other awaits as before. -/
theorem awaiting_of_returned {j : ℕ} {result : Except QmpError Value} {c' : Call}
    (hc' : (s.setPhase j (.returned result)).calls[k]? = some c') (hw : c'.phase.Awaiting) :
    ∃ c, s.calls[k]? = some c ∧ c.phase.Awaiting := by
  obtain ⟨b,hb,-,-,hcase⟩ := setPhase_some hc'
  rcases hcase with ⟨-,hphase⟩ | ⟨-,rfl⟩
  · exact absurd hphase (hw.not_returned result)
  · exact ⟨c',hb,hw⟩

/-- A call that awaits its answer did so before, or has just registered. -/
theorem awaiting_step (h : Effect s a s' o) {c' : Call} (hc' : s'.calls[k]? = some c')
    (hw : c'.phase.Awaiting) :
    (∃ c, s.calls[k]? = some c ∧ c.phase.Awaiting) ∨
    ∃ c, s.calls[k]? = some c ∧ c.phase = .allocated ∧
      s' = { s with pending := s.pending.insert c.id ⟨c.command,k⟩ }.setPhase k .registered := by
  cases h with
  | enter command args timeout =>
    rcases accept_some hc' with hold | ⟨hphase,-⟩
    · exact .inl ⟨c',hold,hw⟩
    · exact absurd hphase hw.not_allocated
  | @register _ j c hc hp =>
    obtain ⟨b,hb,-,-,hcase⟩ := setPhase_some hc'
    rcases hcase with ⟨rfl,-⟩ | ⟨-,rfl⟩
    · exact .inr ⟨c,hc,hp,rfl⟩
    · exact .inl ⟨c',hb,hw⟩
  | @advance _ j c _ phase writer begun hc hp hp' hclosed hwr hb ho =>
    obtain ⟨b,hb,-,-,hcase⟩ := setPhase_some hc'
    rcases hcase with ⟨rfl,-⟩ | ⟨-,rfl⟩
    · exact .inl ⟨c,hc,hp⟩
    · exact .inl ⟨c',hb,hw⟩
  | cleanup hc hp => exact .inl (awaiting_of_returned hc' hw)
  | receive hc hp hr => exact .inl (awaiting_of_returned hc' hw)
  | disconnected hc hp hs => exact .inl (awaiting_of_returned hc' hw)
  | sendClosed hd hp hk hs =>
    obtain ⟨b,hb,-,hphase,-⟩ := send_some hs hc'
    exact .inl ⟨b,hb,hphase ▸ hw⟩
  | deliver hr hs =>
    obtain ⟨b,hb,-,hphase,-⟩ := send_some hs hc'
    exact .inl ⟨b,hb,hphase ▸ hw⟩
  | _ => exact .inl ⟨c',hc',hw⟩

theorem inboxed_send_of_live {j : ℕ} {r : RawResponse} {c : Call} (hs : s.send j r = some s')
    (hc : s.calls[k]? = some c) (hlive : ∀ result, c.phase ≠ .returned result) :
    s.inboxed k+(if j = k then 1 else 0) ≤ s'.inboxed k := by
  rcases send_cases hs with ⟨b,hb,⟨result,hret⟩,rfl⟩ | ⟨b,hb,hnone,-,rfl⟩
  · have hjk : j ≠ k := by
      rintro rfl
      cases hb.symm.trans hc
      exact hlive result hret
    simp [hjk]
  · by_cases hjk : j = k
    · subst hjk
      cases hb.symm.trans hc
      simp [inboxed,hc,hnone]
    · simp [inboxed,hc,hjk]

/-- An answer to a call that is not over ends up in its channel, and stays there. -/
theorem inboxed_grows (h : Effect s a s' o) {c : Call} (hc : s.calls[k]? = some c)
    (hlive : ∀ result, c.phase ≠ .returned result) : s.inboxed k+o.resolves k ≤ s'.inboxed k := by
  cases h with
  | idle ho => rw [ho.resolves k,Nat.add_zero]
  | enter command args timeout =>
    have hlt := (List.getElem?_eq_some_iff.mp hc).1
    simp only [inboxed,accept,List.getElem?_append_left hlt]
    exact le_rfl
  | register hc' hp => exact (inboxed_setPhase s _ k .registered).ge
  | @advance _ j c' _ phase writer begun hc' hp hp' hclosed hw hb ho =>
    rw [ho.resolves k,Nat.add_zero]
    exact (inboxed_setPhase s j k phase).ge
  | cleanup hc' hp => exact (inboxed_setPhase s _ k _).ge
  | receive hc' hp hr => exact (inboxed_setPhase s _ k _).ge
  | disconnected hc' hp hs => exact (inboxed_setPhase s _ k _).ge
  | sendClosed hd hp hk hs =>
    have hsent := inboxed_send_of_live hs hc hlive
    exact hsent
  | deliver hr hs =>
    have hsent := inboxed_send_of_live hs hc hlive
    exact hsent
  | _ => exact le_rfl

/-- Who awaits an answer has it in its channel, or somebody has the sender to give it with. -/
def Answerable (s : Conn) : Prop :=
  ∀ k c, s.calls[k]? = some c → c.phase.Awaiting → 1 ≤ s.senders k+s.inboxed k

/-- Where ids are the calls' own, no entry under another call's id is this call's. -/
theorem weight_eq_zero (hn : Named s) (hlen : s.calls.length ≤ 2^64) (ho : Owned s) {j : ℕ}
    {c : Call} (hc : s.calls[j]? = some c) (hjk : j ≠ k) :
    s.pending.weight (Pending.isFor k) c.id = 0 := by
  unfold Table.weight
  cases hlook : s.pending.lookup c.id with
  | none => rfl
  | some p =>
    obtain ⟨b,hb,hid,-⟩ := ho c.id p hlook
    have hj := hn.injective hlen hb hc hid
    have hne : p.replyTo ≠ k := hj ▸ hjk
    simp [Pending.isFor,hne]

theorem Answerable.step (ha : Answerable s) (hn : Named s) (hlen : s.calls.length ≤ 2^64)
    (ho : Owned s) (h : Effect s a s' o) : Answerable s' := by
  intro k c' hc' hw
  rcases awaiting_step h hc' hw with ⟨c,hc,hwait⟩ | ⟨c,hc,hp,rfl⟩
  · have hone := ha k c hc hwait
    have hgrow := inboxed_grows h hc hwait.not_returned
    rcases senders_step h k with hsame | ⟨j,b,hb,⟨hp,rfl,rfl⟩ | ⟨e,hp,rfl,rfl⟩⟩
    · omega
    · have hjk : j ≠ k := by
        rintro rfl
        cases hb.symm.trans hc
        exact hwait.not_allocated hp
      have hweight := weight_eq_zero hn hlen ho hb hjk
      have htotal := Table.total_insert (Pending.isFor k) s.pending b.id ⟨b.command,j⟩
      simp only [senders,setPhase,Obs.resolves] at hone hgrow ⊢
      omega
    · have hjk : j ≠ k := by
        rintro rfl
        cases hb.symm.trans hc
        exact hwait.not_cleanup e hp
      have hweight := weight_eq_zero hn hlen ho hb hjk
      have htotal := Table.total_erase (Pending.isFor k) s.pending b.id
      simp only [senders,setPhase,Obs.resolves] at hone hgrow ⊢
      omega
  · have htotal := Table.total_insert (Pending.isFor k) s.pending c.id ⟨c.command,k⟩
    have hweight := Table.weight_le_total (Pending.isFor k) s.pending c.id
    have hfor : Pending.isFor k ⟨c.command,k⟩ = 1 := by simp [Pending.isFor]
    simp only [senders,setPhase]
    omega

theorem sound_step (hw : s.writer.Sound) (h : Effect s a s' o) : s'.writer.Sound := by
  cases h with
  | advance phase writer begun hc hp hp' hclosed hwr hb ho => exact hwr hw
  | closeWriter hd hp =>
    intro hopen
    cases hopen
  | sendClosed hd hp hk hs =>
    obtain ⟨-,-,-,hwriter,-⟩ := send_frame hs
    simp only [setShutdown,hwriter]
    exact hw
  | deliver hr hs =>
    obtain ⟨-,-,-,hwriter,-⟩ := send_frame hs
    simp only [hwriter]
    exact hw
  | _ => exact hw

/-- An idle writer owns its stream. -/
theorem not_panicked (hw : s.writer.Sound) : ¬Effect s a s' .panicked := by
  intro h
  generalize hobs : Obs.panicked = o at h
  cases h with
  | panic hsound => exact hsound hw
  | idle ho =>
    subst hobs
    exact absurd ho not_false
  | advance phase writer begun hc hp hp' hclosed hwr hb ho =>
    subst hobs
    exact absurd ho not_false
  | _ => cases hobs

theorem length_calls_le (h : Effect s a s' o) : s.calls.length ≤ s'.calls.length := by
  have hlen (q : Conn) : q.calls.length = q.names.length := by simp [names]
  rw [hlen,hlen]
  rcases names_step h with ⟨hnames,-⟩ | ⟨hnames,-⟩
  · rw [hnames]
  · rw [hnames,List.length_append]
    exact Nat.le_add_right _ _

/-- What holds of a connection after these actions and observations. -/
structure Matched (past : List Action) (seen : List Obs) (s : Conn) : Prop where
  named : Named s
  single : Single s
  owned : Owned s
  heard : Heard past s
  sealed : Sealed s
  sound : s.writer.Sound
  calm : .panicked ∉ seen
  answerable : s.calls.length ≤ 2^64 → Answerable s
  length : seen.length = past.length
  returned : ∀ i k v, seen[i]? = some (.returned k (.ok v)) →
    ∃ c, s.calls[k]? = some c ∧ Said (past.take i) c.id v
  resolved : ∀ k, (seen.map (Obs.resolves k)).sum+s.credit k ≤ 1

theorem Matched.new : Matched [] [] Conn.new where
  named := ⟨rfl,rfl⟩
  single := fun k => le_rfl
  owned := fun id p hlook => (by cases hlook)
  heard := ⟨fun k r hr => (by cases hr),fun k c v hc => (by cases hc)⟩
  sealed := ⟨fun d hd => (by cases hd),fun d hd => (by cases hd)⟩
  sound := fun _ _ => rfl
  calm := List.not_mem_nil
  answerable := fun _ k c hc => (by cases hc)
  length := rfl
  returned := fun i k v hi => (by cases hi)
  resolved := fun k => le_rfl

/-- A call that returns `Ok` has the value from its channel. -/
theorem returned_ok {v : Value} (h : Effect s a s' (.returned k (.ok v))) :
    ∃ c, s.calls[k]? = some c ∧ c.inbox = some (.ret v) := by
  generalize hobs : Obs.returned k (.ok v) = o at h
  cases h with
  | @receive _ j c r hc hp hr =>
    simp only [Obs.returned.injEq] at hobs
    obtain ⟨rfl,hout⟩ := hobs
    refine ⟨c,hc,?_⟩
    cases r with
    | ret w =>
      cases hout
      exact hr
    | error cls desc => cases hout
    | closed reason => cases hout
  | idle ho =>
    subst hobs
    exact absurd ho not_false
  | advance phase writer begun hc hp hp' hclosed hw hb ho =>
    subst hobs
    exact absurd ho not_false
  | _ => cases hobs

theorem Matched.step {past : List Action} {seen : List Obs} (hm : Matched past seen s)
    (h : Effect s a s' o) : Matched (past++[a]) (seen++[o]) s' where
  named := hm.named.step h
  single := hm.single.step h
  owned := hm.owned.step hm.single h
  heard := hm.heard.step hm.owned h
  sealed := hm.sealed.step h
  sound := sound_step hm.sound h
  calm := by
    intro hmem
    rcases List.mem_append.mp hmem with hmem | hmem
    · exact hm.calm hmem
    · rw [List.mem_singleton] at hmem
      exact not_panicked hm.sound (hmem ▸ h)
  answerable := fun hlen => by
    have hlen' := (length_calls_le h).trans hlen
    exact (hm.answerable hlen').step hm.named hlen' hm.owned h
  length := by simp [hm.length]
  returned := fun i k v hi => by
    obtain hi | ⟨hi,ho⟩ := getElem?_snoc hi
    · have hlt := (List.getElem?_eq_some_iff.mp hi).1
      obtain ⟨c,hc,hsaid⟩ := hm.returned i k v hi
      obtain ⟨c',hc',hid⟩ := call_persists h hc
      rw [hm.length] at hlt
      exact ⟨c',hc',by rw [hid,List.take_append_of_le_length hlt.le]; exact hsaid⟩
    · rw [hm.length] at hi
      subst hi
      cases ho
      obtain ⟨c,hc,hinbox⟩ := returned_ok h
      obtain ⟨c',hc',hid⟩ := call_persists h hc
      refine ⟨c',hc',?_⟩
      rw [hid,List.take_left]
      exact hm.heard.inbox k c v hc hinbox
  resolved := fun k => by
    have hcredit := credit_step h k
    have := hm.resolved k
    simp only [List.map_append,List.map_cons,List.map_nil,List.sum_append,List.sum_cons,
      List.sum_nil]
    omega

theorem Matched.run {as : List Action} {t : Conn} {os : List Obs}
    (h : connMachine.run Conn.new as = some (t,os)) : Matched as os t :=
  Machine.run_history connMachine (J := Matched)
    (fun _ _ _ _ _ _ hm hs => hm.step (Effect.of_step hs)) Matched.new h

/-- What goes from one state to the other without touching any call but those of this id: their
phase and channel, their entries, the writer and the shutdowns. -/
structure Spares (id : String) (t t' : Conn) : Prop where
  calls : ∀ (k : ℕ) (c : Call), t.calls[k]? = some c → c.id ≠ id → t'.calls[k]? = some c
  entries : ∀ id', id' ≠ id → t'.pending.lookup id' = t.pending.lookup id'
  writer : t'.writer = t.writer
  shutdowns : t'.shutdowns = t.shutdowns

theorem Spares.refl (id : String) (t : Conn) : Spares id t t :=
  ⟨fun _ _ hc _ => hc,fun _ _ => rfl,rfl,rfl⟩

/-- A reply concerns the calls of its own id only, and none of them once they are over. -/
theorem reply_spares (ho : Owned s) {value : Value} {id : String}
    (h : s.step (.line (some value)) = some (s',o)) (he : value.get "event" = none)
    (hid : value.get "id" = some (.string id)) :
    Spares id s s' ∧
    (∀ k r, s'.reader = .delivering k r →
      ∃ c, s.calls[k]? = some c ∧ c.id = id ∧ ∀ result, c.phase ≠ .returned result) ∧
    ((∀ c ∈ s.calls, c.id = id → ∃ result, c.phase = .returned result) → s' = s) := by
  simp only [step,readerStep] at h
  split at h
  · next hr =>
    have hs : s' = s.handleLine value := by
      cases h
      rfl
    simp only [handleLine,he,hid,Option.bind_some,Value.asStr] at hs
    split at hs
    · refine ⟨by rw [hs]; exact Spares.refl id s,fun k r hk => ?_,fun _ => hs⟩
      rw [hs,hr] at hk
      cases hk
    · next p hp =>
      obtain ⟨c,hc,hcid,hphase⟩ := ho id p hp
      have hlive : ∀ result, c.phase ≠ .returned result := by
        intro result hret
        rw [hret] at hphase
        rcases hphase with h | h
        · exact h
        · exact h
      subst hs
      refine ⟨⟨fun _ _ hc _ => hc,fun id' hne => AList.lookup_erase_ne hne,rfl,rfl⟩,?_,?_⟩
      · intro k r hk
        cases hk
        exact ⟨c,hc,hcid,hlive⟩
      · intro hover
        obtain ⟨result,hret⟩ := hover c (List.mem_of_getElem? hc) hcid
        exact absurd hret (hlive result)
  · cases h

/-- The answer goes to the call that the reader took out of the table. -/
theorem deliver_spares {c : Call} {r : RawResponse} (hr : s.reader = .delivering k r)
    (hc : s.calls[k]? = some c) (h : s.step .deliver = some (s',o)) : Spares c.id s s' := by
  simp only [step,readerStep,hr,Option.map_eq_some_iff,Prod.mk.injEq] at h
  obtain ⟨s₁,hs,rfl,-⟩ := h
  obtain ⟨hpend,-,hdowns,hwriter,-⟩ := send_frame hs
  refine ⟨?_,fun _ _ => by simp [hpend],hwriter,hdowns⟩
  intro j b hb hne
  rcases send_cases hs with ⟨_,-,-,rfl⟩ | ⟨_,-,-,-,rfl⟩
  · exact hb
  · have hjk : k ≠ j := by
      rintro rfl
      cases hb.symm.trans hc
      exact hne rfl
    simp [hb,hjk]

/-- What a shutdown that has drained the table leaves to the calls. -/
theorem drained_calls {past : List Action} {seen : List Obs} (hm : Matched past seen s)
    {d : Shutdown} (hd : d ∈ s.shutdowns) (hdrained : ∃ owed, d.phase = .sending owed) :
    s.writer.closed = true ∧
    (∀ id p, s.pending.lookup id = some p →
      ∃ c, s.calls[p.replyTo]? = some c ∧ c.id = id ∧ c.phase.Parked) ∧
    ∀ (k : ℕ) (c : Call), s.calls[k]? = some c → c.phase.Engaged →
      c.inbox.isSome ∨ k ∈ s.reader.owed ∨ (∃ d ∈ s.shutdowns, k ∈ d.phase.owed) ∨
      2^64 < s.calls.length ∧ s.senders k = 0 := by
  refine ⟨?_,?_,?_⟩
  · obtain ⟨owed,howed⟩ := hdrained
    exact hm.sealed.closed d hd (by rw [howed]; simp)
  · intro id p hlook
    obtain ⟨c,hc,hid,hphase⟩ := hm.owned id p hlook
    exact ⟨c,hc,hid,hphase.resolve_right (hm.sealed.drained d hd hdrained id p c hlook hc)⟩
  · intro k c hc hengaged
    have htotal : s.pending.total (Pending.isFor k) = 0 := by
      apply Table.total_eq_zero
      intro id p hlook
      unfold Pending.isFor
      split
      · next hk =>
        subst hk
        exact absurd hengaged (hm.sealed.drained d hd hdrained id p c hlook hc)
      · rfl
    by_contra hnone
    push Not at hnone
    obtain ⟨hinbox,hreader,hdowns,hwrapped⟩ := hnone
    have h₁ : s.inboxed k = 0 := by
      cases hin : c.inbox with
      | none => simp [inboxed,hc,hin]
      | some r => simp [hin] at hinbox
    have h₂ : s.reader.owed.count k = 0 := List.count_eq_zero.mpr hreader
    have h₃ : (s.shutdowns.map fun d => d.phase.owed.count k).sum = 0 := by
      apply List.sum_eq_zero
      intro x hx
      obtain ⟨e,he,rfl⟩ := List.mem_map.mp hx
      exact List.count_eq_zero.mpr (hdowns e he)
    have hsenders : s.senders k = 0 := by
      unfold senders
      omega
    have hlen : s.calls.length ≤ 2^64 := not_lt.mp fun hlt => hwrapped hlt hsenders
    have hone := hm.answerable hlen k c hc (.inr hengaged)
    omega

/-- With no call in progress the table is empty. -/
theorem Owned.pending_eq_empty (ho : Owned s)
    (hover : ∀ c ∈ s.calls, ∃ result, c.phase = .returned result) : s.pending = ∅ := by
  apply Table.eq_empty
  intro id
  cases hlook : s.pending.lookup id with
  | none => rfl
  | some p =>
    obtain ⟨c,hc,-,hphase⟩ := ho id p hlook
    obtain ⟨result,hret⟩ := hover c (List.mem_of_getElem? hc)
    rw [hret] at hphase
    rcases hphase with h | h
    · exact absurd h not_false
    · exact absurd h not_false

/-- The matching of replies to calls, in the state that a run ends in. -/
structure ReplyMatching (as : List Action) (os : List Obs) (t : Conn) : Prop where
  /-- A call returns `Ok` of a value only after the peer has sent it under the call's own id. -/
  answered : ∀ i k v, os[i]? = some (.returned k (.ok v)) →
    ∃ c, t.calls[k]? = some c ∧ Said (as.take i) c.id v
  /-- A call's one entry is resolved at most once. -/
  once : ∀ k, (os.map (Obs.resolves k)).sum ≤ 1
  /-- A reply concerns the calls of its own id alone, and nothing at all once these are over. -/
  late : ∀ value id t' o, t.step (.line (some value)) = some (t',o) →
    value.get "event" = none → value.get "id" = some (.string id) →
    Spares id t t' ∧
    (∀ k r, t'.reader = .delivering k r →
      ∃ c, t.calls[k]? = some c ∧ c.id = id ∧ ∀ result, c.phase ≠ .returned result) ∧
    ((∀ c ∈ t.calls, c.id = id → ∃ result, c.phase = .returned result) → t' = t)
  /-- Nor does its delivery concern any other call. -/
  delivery : ∀ k r, t.reader = .delivering k r → ∃ c, t.calls[k]? = some c ∧
    ∀ t' o, t.step .deliver = some (t',o) → Spares c.id t t'
  /-- Two calls have two ids, as long as the counter has not come round. -/
  distinct : t.calls.length ≤ 2^64 → ∀ (j k : ℕ) (c d : Call), t.calls[j]? = some c →
    t.calls[k]? = some d → c.id = d.id → j = k
  /-- After a shutdown's drain the writer refuses every call whose entry is in the table, and a
  call beyond the writer has been answered or is about to be; or else, once the ids have come
  round, its entry was replaced and its channel is disconnected. -/
  unmissed : ∀ d ∈ t.shutdowns, (∃ owed, d.phase = .sending owed) →
    t.writer.closed = true ∧
    (∀ id p, t.pending.lookup id = some p →
      ∃ c, t.calls[p.replyTo]? = some c ∧ c.id = id ∧ c.phase.Parked) ∧
    ∀ (k : ℕ) (c : Call), t.calls[k]? = some c → c.phase.Engaged →
      c.inbox.isSome ∨ k ∈ t.reader.owed ∨ (∃ d ∈ t.shutdowns, k ∈ d.phase.owed) ∨
      2^64 < t.calls.length ∧ t.senders k = 0
  /-- With no call in progress the table is empty. -/
  empty : (∀ c ∈ t.calls, ∃ result, c.phase = .returned result) → t.pending = ∅

end Conn

/-- Every interleaving of calls, their timeouts, the reader and shutdowns matches replies to
calls. -/
theorem reply_matching (as : List Action) (t : Conn) (os : List Obs)
    (hrun : connMachine.run Conn.new as = some (t,os)) : Conn.ReplyMatching as os t := by
  have hm := Conn.Matched.run hrun
  constructor
  · exact hm.returned
  · intro k
    have := hm.resolved k
    omega
  · intro value id t' o hstep he hid
    exact Conn.reply_spares hm.owned hstep he hid
  · intro k r hr
    obtain ⟨c,hc,-⟩ := hm.heard.reader k r hr
    exact ⟨c,hc,fun t' o hstep => Conn.deliver_spares hr hc hstep⟩
  · intro hlen j k c d hc hd hid
    exact hm.named.injective hlen hc hd hid
  · intro d hd hdrained
    exact Conn.drained_calls hm hd hdrained
  · exact hm.owned.pending_eq_empty

/-- The `expect` of `Inner::send` never fails. -/
theorem send_never_panics {as : List Action} {t : Conn} {os : List Obs}
    (hrun : connMachine.run Conn.new as = some (t,os)) : .panicked ∉ os :=
  (Conn.Matched.run hrun).calm

/-- Two calls at once: the first gives up, its reply comes late, the second gets its own, and then
the connection is shut down. -/
def lateReply : List Action :=
  [.call "stop" .null 30 false false,.call "cont" .null 30 false false,
    .proceed 0 .register,.proceed 1 .register,
    .proceed 0 (.acquire false),.proceed 0 (.write (.ok ())),.proceed 0 .release,
    .proceed 1 (.acquire false),.proceed 1 (.write (.ok ())),.proceed 1 .release,
    .proceed 0 (.check false),.proceed 1 (.check false),
    .proceed 0 .recvTimeout,.proceed 0 .cleanup,
    .line (some (.object [("return",.object []),("id",.string "c1")])),
    .line (some (.object [("return",.object []),("id",.string "c2")])),
    .deliver,.proceed 1 .receive,
    .shutdown "explicit close",.shutdownStep 0 0,.shutdownStep 0 0,.shutdownStep 0 0]

theorem reply_matching_late_reply :
    ∃ t os, connMachine.run Conn.new lateReply = some (t,os) ∧
      os[17]? = some (.returned 1 (.ok (.object []))) ∧
      Conn.Said (lateReply.take 17) "c2" (.object []) ∧ t.pending = ∅ := by
  have hmatch := reply_matching lateReply _ _ rfl
  obtain ⟨c,hc,hsaid⟩ := hmatch.answered 17 1 (.object []) rfl
  cases hc
  exact ⟨_,_,rfl,rfl,hsaid,rfl⟩

end Provium.Qmp
