import Provium.Lib.Splice
import Provium.Qmp.Senders

/-! Replies reach the calls they are for. -/
namespace Provium.Qmp
open Lib

namespace Conn
variable {s s' : Conn} {a : Action} {o : Obs}

/-- The ids of the calls, in the order in which they came. -/
def names (s : Conn) : List String := s.calls.map Call.id

theorem map_id_modify (cs : List Call) (k : ℕ) (f : Call → Call) (hf : ∀ c, (f c).id = c.id) :
    (cs.modify k f).map Call.id = cs.map Call.id := by
  induction cs generalizing k with
  | nil => simp
  | cons c cs ih =>
    cases k with
    | zero => simp [hf]
    | succ k => simp [ih]

@[simp] theorem names_setPhase (s : Conn) (k : ℕ) (phase : Phase) :
    (s.setPhase k phase).names = s.names := map_id_modify _ _ _ fun _ => rfl

theorem names_send {k : ℕ} {r : RawResponse} (h : s.send k r = some s') : s'.names = s.names := by
  rcases send_cases h with ⟨_,-,-,rfl⟩ | ⟨_,-,-,-,rfl⟩
  · rfl
  · exact map_id_modify _ _ _ fun _ => rfl

/-- A step leaves every call its id, and may bring in one call more with the next id. -/
theorem names_step (h : Effect s a s' o) :
    s'.names = s.names ∧ s'.nextId = s.nextId ∨
    s'.names = s.names++[s.allocateId] ∧ s'.nextId = (s.nextId+1)%2^64 := by
  cases h with
  | enter command args timeout => exact .inr ⟨by simp [names,accept],rfl⟩
  | register hc hp => exact .inl ⟨names_setPhase _ _ _,rfl⟩
  | advance phase writer begun hc hp hp' hclosed hw hb ho => exact .inl ⟨names_setPhase _ _ _,rfl⟩
  | cleanup hc hp => exact .inl ⟨names_setPhase _ _ _,rfl⟩
  | receive hc hp hr => exact .inl ⟨names_setPhase _ _ _,rfl⟩
  | disconnected hc hp hs => exact .inl ⟨names_setPhase _ _ _,rfl⟩
  | sendClosed hd hp hk hs =>
    have hnames := names_send hs
    obtain ⟨-,-,-,-,-,hnext⟩ := send_frame hs
    exact .inl ⟨hnames,hnext⟩
  | deliver hr hs =>
    have hnames := names_send hs
    obtain ⟨-,-,-,-,-,hnext⟩ := send_frame hs
    exact .inl ⟨hnames,hnext⟩
  | _ => exact .inl ⟨rfl,rfl⟩

/-- The ids are `c1`, `c2` and so on, until the counter wraps. -/
structure Named (s : Conn) : Prop where
  names : s.names = (List.range s.names.length).map fun i => "c"++((i+1)%2^64).repr
  nextId : s.nextId = (s.names.length+1)%2^64

theorem Named.step (hn : Named s) (h : Effect s a s' o) : Named s' := by
  rcases names_step h with ⟨hnames,hnext⟩ | ⟨hnames,hnext⟩
  · exact ⟨by rw [hnames]; exact hn.names,by rw [hnames,hnext]; exact hn.nextId⟩
  · constructor
    · rw [hnames,List.length_append,List.length_singleton,List.range_succ,List.map_append,
        ← hn.names,allocateId,hn.nextId]
      rfl
    · rw [hnames,hnext,hn.nextId,List.length_append,List.length_singleton,Nat.mod_add_mod]

/-- Up to `2^64` calls have ids of their own. -/
theorem Named.injective (hn : Named s) (hlen : s.calls.length ≤ 2^64) {j k : ℕ} {c d : Call}
    (hc : s.calls[j]? = some c) (hd : s.calls[k]? = some d) (hid : c.id = d.id) : j = k := by
  have hat (i : ℕ) (e : Call) (he : s.calls[i]? = some e) :
      i < 2^64 ∧ e.id = "c"++((i+1)%2^64).repr := by
    have hi : i < s.calls.length := (List.getElem?_eq_some_iff.mp he).1
    have hname : s.names[i]? = some e.id := by simp [Conn.names,he]
    have hi' : i < s.names.length := by simpa [Conn.names] using hi
    rw [hn.names,List.getElem?_map,List.getElem?_range hi'] at hname
    exact ⟨by omega,(Option.some.inj hname).symm⟩
  obtain ⟨hj,hcid⟩ := hat j c hc
  obtain ⟨hk,hdid⟩ := hat k d hd
  rw [hcid,hdid,String.append_right_inj] at hid
  have hmod := Nat.repr_injective hid
  omega

/-- A call keeps its number and its id. -/
theorem call_persists (h : Effect s a s' o) {k : ℕ} {c : Call} (hc : s.calls[k]? = some c) :
    ∃ c', s'.calls[k]? = some c' ∧ c'.id = c.id := by
  have hname : s.names[k]? = some c.id := by simp [names,hc]
  have hname' : s'.names[k]? = some c.id := by
    rcases names_step h with ⟨hnames,-⟩ | ⟨hnames,-⟩
    · rw [hnames,hname]
    · rw [hnames,getElem?_append_of hname]
  simpa [names,Option.map_eq_some_iff] using hname'

/-- A call keeps its place when another enters. -/
theorem getElem?_accept {command : String} {args : Value} {timeout k : ℕ} {c : Call}
    (hc : s.calls[k]? = some c) : (s.accept command args timeout).calls[k]? = some c := by
  exact getElem?_append_of hc _

/-- A call after `accept`. -/
theorem accept_some {command : String} {args : Value} {timeout k : ℕ} {c : Call}
    (h : (s.accept command args timeout).calls[k]? = some c) :
    s.calls[k]? = some c ∨ c.phase = .allocated ∧ c.inbox = none := by
  obtain h | ⟨-,rfl⟩ := getElem?_snoc h
  · exact .inl h
  · exact .inr ⟨rfl,rfl⟩

/-- A call after `setPhase`. -/
theorem setPhase_some {k j : ℕ} {phase : Phase} {c : Call}
    (h : (s.setPhase k phase).calls[j]? = some c) :
    ∃ b, s.calls[j]? = some b ∧ c.id = b.id ∧ c.inbox = b.inbox ∧
      (k = j ∧ c.phase = phase ∨ k ≠ j ∧ c = b) := by
  rw [getElem?_calls_setPhase,Option.map_eq_some_iff] at h
  obtain ⟨b,hb,rfl⟩ := h
  by_cases hk : k = j
  · subst hk
    exact ⟨b,hb,by simp,by simp,.inl ⟨rfl,by simp⟩⟩
  · exact ⟨b,hb,by simp [hk],by simp [hk],.inr ⟨hk,by simp [hk]⟩⟩

/-- A call after `send`. -/
theorem send_some {k j : ℕ} {r : RawResponse} {c : Call} (hs : s.send k r = some s')
    (h : s'.calls[j]? = some c) :
    ∃ b, s.calls[j]? = some b ∧ c.id = b.id ∧ c.phase = b.phase ∧
      (c.inbox = b.inbox ∨ k = j ∧ c.inbox = some r) := by
  rcases send_cases hs with ⟨_,-,-,rfl⟩ | ⟨_,-,-,-,rfl⟩
  · exact ⟨c,h,rfl,rfl,.inl rfl⟩
  · rw [List.getElem?_modify,Option.map_eq_map,Option.map_eq_some_iff] at h
    obtain ⟨b,hb,rfl⟩ := h
    by_cases hk : k = j
    · subst hk
      exact ⟨b,hb,by simp,by simp,.inr ⟨rfl,by simp⟩⟩
    · exact ⟨b,hb,by simp [hk],by simp [hk],.inl (by simp [hk])⟩

/-- Every entry is that of a call in progress, under the call's own id. -/
def Owned (s : Conn) : Prop :=
  ∀ id p, s.pending.lookup id = some p →
    ∃ c, s.calls[p.replyTo]? = some c ∧ c.id = id ∧ (c.phase.Parked ∨ c.phase.Engaged)

/-- A call has at most one answer, to come or come. -/
def Single (s : Conn) : Prop := ∀ k, s.credit k+s.inboxed k ≤ 1

theorem Single.step (hs : Single s) (h : Effect s a s' o) : Single s' := by
  intro k
  have hcredit := credit_step h k
  have hinboxed := inboxed_step h k
  have := hs k
  omega

theorem one_le_senders {id : String} {p : Pending} (h : s.pending.lookup id = some p) :
    1 ≤ s.senders p.replyTo := by
  have hweight : s.pending.weight (Pending.isFor p.replyTo) id = 1 := by
    simp [Table.weight,h,Pending.isFor]
  have htotal := Table.weight_le_total (Pending.isFor p.replyTo) s.pending id
  unfold senders
  omega

/-- An answered call has no entry. -/
theorem Single.not_pending (hs : Single s) {k : ℕ} {c : Call} {r : RawResponse}
    (hc : s.calls[k]? = some c) (hr : c.inbox = some r) {id : String} {p : Pending}
    (hp : s.pending.lookup id = some p) : p.replyTo ≠ k := by
  rintro rfl
  have hone := hs p.replyTo
  have hsenders := one_le_senders hp
  have hinboxed : s.inboxed p.replyTo = 1 := by simp [inboxed,hc,hr]
  unfold credit at hone
  omega

/-- The owner of an entry may move on, as long as it stays in progress. -/
theorem Owned.setPhase (ho : Owned s) (k : ℕ) (phase : Phase)
    (hp : phase.Parked ∨ phase.Engaged) : Owned (s.setPhase k phase) := by
  intro id p hlook
  obtain ⟨c,hc,hid,hphase⟩ := ho id p hlook
  have hc' := getElem?_calls_setPhase s k p.replyTo phase
  rw [hc,Option.map_some] at hc'
  refine ⟨_,hc',?_,?_⟩
  · split <;> exact hid
  · split
    · exact hp
    · exact hphase

/-- A call that has no entry may end. -/
theorem Owned.finish (ho : Owned s) {k : ℕ} (phase : Phase)
    (hk : ∀ id p, s.pending.lookup id = some p → p.replyTo ≠ k) : Owned (s.setPhase k phase) := by
  intro id p hlook
  obtain ⟨c,hc,hid,hphase⟩ := ho id p hlook
  have hc' := getElem?_calls_setPhase s k p.replyTo phase
  rw [hc,Option.map_some,if_neg (hk id p hlook).symm] at hc'
  exact ⟨c,hc',hid,hphase⟩

/-- Entries may go. -/
theorem Owned.erase (ho : Owned s) (id : String) :
    Owned { s with pending := s.pending.erase id } := by
  intro id' p hlook
  exact ho id' p (Table.lookup_of_erase hlook)

theorem Owned.send (ho : Owned s) {k : ℕ} {r : RawResponse} (h : s.send k r = some s') :
    Owned s' := by
  obtain ⟨hpend,-⟩ := send_frame h
  rcases send_cases h with ⟨_,-,-,rfl⟩ | ⟨_,-,-,-,rfl⟩
  · exact ho
  · intro id p hlook
    obtain ⟨c,hc,hid,hphase⟩ := ho id p hlook
    refine ⟨if k = p.replyTo then { c with inbox := some r } else c,?_,?_,?_⟩
    · simp [List.getElem?_modify,hc]
    · split <;> exact hid
    · split <;> exact hphase

theorem Owned.step (ho : Owned s) (hs : Single s) (h : Effect s a s' o) : Owned s' := by
  cases h with
  | enter command args timeout =>
    intro id p hlook
    obtain ⟨c,hc,hrest⟩ := ho id p hlook
    exact ⟨c,getElem?_accept hc,hrest⟩
  | @register _ k c hc hp =>
    intro id p hlook
    rcases Table.lookup_insert_cases hlook with ⟨rfl,rfl⟩ | hold
    · exact ⟨{ c with phase := .registered },by simp [getElem?_calls_setPhase,hc],rfl,.inl trivial⟩
    · exact ho.setPhase k .registered (.inl trivial) id p hold
  | advance phase writer begun hc hp hp' hclosed hw hb ho' =>
    exact ho.setPhase _ phase (hp'.imp_right And.left)
  | @cleanup _ k c e hc hp =>
    apply (ho.erase c.id).finish
    rintro id p hlook rfl
    obtain ⟨c',hc',hid,-⟩ := ho.erase c.id id p hlook
    cases hc.symm.trans hc'
    exact Table.ne_of_lookup_erase hlook hid.symm
  | receive hc hp hr => exact ho.finish _ fun id p hlook => hs.not_pending hc hr hlook
  | disconnected hc hp hsend =>
    apply ho.finish
    rintro id p hlook rfl
    have := one_le_senders hlook
    omega
  | drain hd hp =>
    intro id p hlook
    cases hlook
  | sendClosed hd hp hk hsend =>
    have hsent := ho.send hsend
    exact hsent
  | take hr he hid hp => exact ho.erase _
  | deliver hr hsend =>
    have hsent := ho.send hsend
    exact hsent
  | _ => exact ho

/-- The peer has sent a return of `v` that carries this id. -/
def Said (past : List Action) (id : String) (v : Value) : Prop :=
  ∃ value, .line (some value) ∈ past ∧ value.get "id" = some (.string id) ∧
    value.get "return" = some v

theorem Said.mono {past : List Action} {id : String} {v : Value} (h : Said past id v) (a : Action) :
    Said (past++[a]) id v := by
  obtain ⟨value,hmem,hrest⟩ := h
  exact ⟨value,List.mem_append_left _ hmem,hrest⟩

/-- Every return on its way to a call or in its channel has come from the peer. -/
structure Heard (past : List Action) (s : Conn) : Prop where
  reader : ∀ k r, s.reader = .delivering k r →
    ∃ c, s.calls[k]? = some c ∧ ∀ v, r = .ret v → Said past c.id v
  inbox : ∀ (k : ℕ) (c : Call) (v : Value), s.calls[k]? = some c → c.inbox = some (.ret v) →
    Said past c.id v

theorem Heard.mono {past : List Action} (hh : Heard past s) (a : Action) : Heard (past++[a]) s := by
  constructor
  · intro k r hr
    obtain ⟨c,hc,hsaid⟩ := hh.reader k r hr
    exact ⟨c,hc,fun v hv => (hsaid v hv).mono a⟩
  · intro k c v hc hv
    exact (hh.inbox k c v hc hv).mono a

theorem Heard.setPhase {past : List Action} (hh : Heard past s) (k : ℕ) (phase : Phase) :
    Heard past (s.setPhase k phase) := by
  constructor
  · intro j r hr
    obtain ⟨c,hc,hsaid⟩ := hh.reader j r hr
    refine ⟨if k = j then { c with phase } else c,?_,?_⟩
    · simp [getElem?_calls_setPhase,hc]
    · split <;> exact hsaid
  · intro j c v hc hv
    obtain ⟨b,hb,hid,hinbox,-⟩ := setPhase_some hc
    rw [hid]
    exact hh.inbox j b v hb (hinbox ▸ hv)

/-- The channels after a `send` of something that the peer has said. -/
theorem Heard.inbox_send {past : List Action} (hh : Heard past s) {k : ℕ} {r : RawResponse}
    (hs : s.send k r = some s')
    (hr : ∀ (c : Call) v, s.calls[k]? = some c → r = .ret v → Said past c.id v)
    (j : ℕ) (c : Call) (v : Value) (hc : s'.calls[j]? = some c) (hv : c.inbox = some (.ret v)) :
    Said past c.id v := by
  obtain ⟨b,hb,hid,-,hinbox⟩ := send_some hs hc
  rw [hid]
  rcases hinbox with hsame | ⟨rfl,hnew⟩
  · exact hh.inbox j b v hb (hsame ▸ hv)
  · rw [hv] at hnew
    cases hnew
    exact hr b v hb rfl

theorem classify_ret {value v : Value} {command : String} (h : classify value command = .ret v) :
    value.get "return" = some v := by
  unfold classify at h
  split at h
  · next ret hret =>
    cases h
    exact hret
  · split at h
    · cases h
    · cases h

theorem Heard.step {past : List Action} (hh : Heard past s) (ho : Owned s) (h : Effect s a s' o) :
    Heard (past++[a]) s' := by
  have hh := hh.mono a
  cases h with
  | enter command args timeout =>
    constructor
    · intro k r hr
      obtain ⟨c,hc,hsaid⟩ := hh.reader k r hr
      exact ⟨c,getElem?_accept hc,hsaid⟩
    · intro k c v hc hv
      rcases accept_some hc with hold | ⟨-,hnone⟩
      · exact hh.inbox k c v hold hv
      · rw [hnone] at hv
        cases hv
  | @register _ k c hc hp =>
    have hset := hh.setPhase k .registered
    exact ⟨hset.reader,hset.inbox⟩
  | @advance _ k c _ phase writer begun hc hp hp' hclosed hw hb ho' =>
    have hset := hh.setPhase k phase
    exact ⟨hset.reader,hset.inbox⟩
  | @cleanup _ k c e hc hp =>
    have hset := hh.setPhase k (.returned (.error e))
    exact ⟨hset.reader,hset.inbox⟩
  | receive hc hp hr => exact hh.setPhase _ _
  | disconnected hc hp hsend => exact hh.setPhase _ _
  | readerClose reason hr => exact ⟨fun k r hr => (by cases hr),hh.inbox⟩
  | readerExit hr => exact ⟨fun k r hr => (by cases hr),hh.inbox⟩
  | @sendClosed _ j pick k d owed s₁ hd hp hk hsend =>
    have hinbox := hh.inbox_send hsend fun c v _ hv => (by cases hv)
    constructor
    · intro i r hr
      obtain ⟨-,hreader,-⟩ := send_frame hsend
      rw [show (s₁.setShutdown j _).reader = s₁.reader from rfl,hreader] at hr
      obtain ⟨c,hc,hsaid⟩ := hh.reader i r hr
      obtain ⟨c',hc',hid⟩ := call_persists (.sendClosed (a := a) hd hp hk hsend) hc
      exact ⟨c',hc',fun v hv => hid ▸ hsaid v hv⟩
    · exact hinbox
  | @take value id p hr he hid hp =>
    constructor
    · intro k r hr
      cases hr
      obtain ⟨c,hc,hcid,-⟩ := ho id p hp
      refine ⟨c,hc,fun v hv => ⟨value,by simp,?_,classify_ret hv⟩⟩
      rw [hcid]
      exact hid
    · exact hh.inbox
  | @deliver _ k r s₁ hr hsend =>
    have hinbox := hh.inbox_send hsend fun c v hc hv => (by
      obtain ⟨c',hc',hsaid⟩ := hh.reader k r hr
      cases hc.symm.trans hc'
      exact hsaid v hv)
    exact ⟨fun k r hr => (by cases hr),hinbox⟩
  | _ => exact ⟨hh.reader,hh.inbox⟩

/-- What a shutdown leaves behind: the writer closed before the table is drained, so that an entry
that is in the table after a drain is that of a call which never gets to wait for its reply. -/
structure Sealed (s : Conn) : Prop where
  closed : ∀ d ∈ s.shutdowns, d.phase ≠ .closeWriter → s.writer.closed = true
  drained : ∀ d ∈ s.shutdowns, (∃ owed, d.phase = .sending owed) → ∀ id p (c : Call),
    s.pending.lookup id = some p → s.calls[p.replyTo]? = some c → ¬c.phase.Engaged

theorem mem_setShutdown {j : ℕ} {phase : ShutdownPhase} {d : Shutdown}
    (h : d ∈ (s.setShutdown j phase).shutdowns) :
    d ∈ s.shutdowns ∨ ∃ e, s.shutdowns[j]? = some e ∧ d = { e with phase } := by
  obtain ⟨i,hi⟩ := List.mem_iff_getElem?.mp h
  rw [setShutdown,List.getElem?_modify,Option.map_eq_map,Option.map_eq_some_iff] at hi
  obtain ⟨e,he,rfl⟩ := hi
  by_cases hj : j = i
  · subst hj
    exact .inr ⟨e,he,by simp⟩
  · exact .inl (List.mem_iff_getElem?.mpr ⟨i,by simp [hj,he]⟩)

/-- A call that moves on to where it does not wait for a reply. -/
theorem Sealed.setPhase (hs : Sealed s) (k : ℕ) (phase : Phase)
    (hp : ∀ d ∈ s.shutdowns, (∃ owed, d.phase = .sending owed) → ∀ id p,
      s.pending.lookup id = some p → p.replyTo = k → ¬phase.Engaged) :
    Sealed (s.setPhase k phase) := by
  refine ⟨hs.closed,?_⟩
  intro d hd hdrained id p c hlook hc
  obtain ⟨b,hb,-,-,hcase⟩ := setPhase_some hc
  rcases hcase with ⟨hk,hphase⟩ | ⟨-,rfl⟩
  · rw [hphase]
    exact hp d hd hdrained id p hlook hk.symm
  · exact hs.drained d hd hdrained id p c hlook hb

/-- Entries may go. -/
theorem Sealed.erase (hs : Sealed s) (id : String) :
    Sealed { s with pending := s.pending.erase id } := by
  refine ⟨hs.closed,?_⟩
  intro d hd hdrained id' p c hlook hc
  exact hs.drained d hd hdrained id' p c (Table.lookup_of_erase hlook) hc

theorem Sealed.send (hs : Sealed s) {k : ℕ} {r : RawResponse} (h : s.send k r = some s') :
    Sealed s' := by
  obtain ⟨hpend,-,hdowns,hwriter,-⟩ := send_frame h
  refine ⟨by rw [hdowns,hwriter]; exact hs.closed,?_⟩
  intro d hd hdrained id p c hlook hc
  rw [hdowns] at hd
  rw [hpend] at hlook
  obtain ⟨b,hb,-,hphase,-⟩ := send_some h hc
  rw [hphase]
  exact hs.drained d hd hdrained id p b hlook hb

/-- A shutdown that starts has closed nothing yet. -/
theorem Sealed.begun (hs : Sealed s) (writer : WriterSlot) (hw : writer.closed = s.writer.closed)
    (begun : List Shutdown) (hb : ∀ d ∈ begun, d.phase = .closeWriter) :
    Sealed { s with writer, shutdowns := s.shutdowns++begun } := by
  constructor
  · intro d hd hne
    rcases List.mem_append.mp hd with hd | hd
    · exact hw.trans (hs.closed d hd hne)
    · exact absurd (hb d hd) hne
  · rintro d hd ⟨owed,howed⟩ id p c hlook hc
    rcases List.mem_append.mp hd with hd | hd
    · exact hs.drained d hd ⟨owed,howed⟩ id p c hlook hc
    · rw [hb d hd] at howed
      cases howed

/-- A shutdown moves on once the writer is closed, and drains before it sends. -/
theorem Sealed.setShutdown (hs : Sealed s) (j : ℕ) (phase : ShutdownPhase)
    (hw : s.writer.closed = true)
    (hp : (∃ owed, phase = .sending owed) → s.pending = ∅ ∨
      ∃ d ∈ s.shutdowns, ∃ owed, d.phase = .sending owed) :
    Sealed (s.setShutdown j phase) := by
  refine ⟨fun _ _ _ => hw,?_⟩
  intro d hd hdrained id p c hlook hc
  rcases mem_setShutdown hd with hd | ⟨e,he,rfl⟩
  · exact hs.drained d hd hdrained id p c hlook hc
  · rcases hp hdrained with hempty | ⟨d',hd',hdrained'⟩
    · rw [show (s.setShutdown j phase).pending = s.pending from rfl,hempty] at hlook
      cases hlook
    · exact hs.drained d' hd' hdrained' id p c hlook hc

theorem Sealed.step (hs : Sealed s) (h : Effect s a s' o) : Sealed s' := by
  cases h with
  | enter command args timeout =>
    refine ⟨hs.closed,?_⟩
    intro d hd hdrained id p c hlook hc
    rcases accept_some hc with hold | ⟨hphase,-⟩
    · exact hs.drained d hd hdrained id p c hlook hold
    · rw [hphase]
      exact not_false
  | @register _ k c hc hp =>
    refine ⟨hs.closed,?_⟩
    intro d hd hdrained id p b hlook hb
    obtain ⟨b',hb',-,-,hcase⟩ := setPhase_some hb
    rcases hcase with ⟨-,hphase⟩ | ⟨hk,rfl⟩
    · rw [hphase]
      exact not_false
    · rcases Table.lookup_insert_cases hlook with ⟨-,rfl⟩ | hold
      · exact absurd rfl hk
      · exact hs.drained d hd hdrained id p b hold hb'
  | @advance _ k c _ phase writer begun hc hp hp' hclosed hw hb ho' =>
    apply (hs.begun writer hclosed begun hb).setPhase
    rintro d hd ⟨owed,howed⟩ id p hlook rfl
    have hd' : d ∈ s.shutdowns := by
      rcases List.mem_append.mp hd with hd | hd
      · exact hd
      · rw [hb d hd] at howed
        cases howed
    rcases hp' with hparked | ⟨-,hengaged | hopen⟩
    · exact Phase.not_engaged_of_parked hparked
    · exact absurd hengaged (hs.drained d hd' ⟨owed,howed⟩ id p c hlook hc)
    · have hclosed' := hs.closed d hd' (by rw [howed]; simp)
      rw [hopen] at hclosed'
      cases hclosed'
  | @cleanup _ k c e hc hp => exact (hs.erase c.id).setPhase k _ fun _ _ _ _ _ _ _ => id
  | receive hc hp hr => exact hs.setPhase _ _ fun _ _ _ _ _ _ _ => id
  | disconnected hc hp hsend => exact hs.setPhase _ _ fun _ _ _ _ _ _ _ => id
  | begin reason =>
    have hb := hs.begun s.writer rfl [⟨reason,.closeWriter⟩] (by simp)
    exact hb
  | readerClose reason hr =>
    have hb := hs.begun s.writer rfl [⟨reason,.closeWriter⟩] (by simp)
    exact ⟨hb.closed,hb.drained⟩
  | @closeWriter _ j d hd hp =>
    have hw : Sealed { s with writer := ⟨false,s.writer.busy,true⟩ } :=
      ⟨fun _ _ _ => rfl,hs.drained⟩
    exact hw.setShutdown j .closeLog rfl fun ⟨_,h⟩ => (by cases h)
  | @closeLog _ j d log hd hp =>
    have hclosed := hs.closed d (List.mem_of_getElem? hd) (by rw [hp]; simp)
    have hl : Sealed { s with log } := ⟨hs.closed,hs.drained⟩
    exact hl.setShutdown j .drain hclosed fun ⟨_,h⟩ => (by cases h)
  | @drain _ j d hd hp =>
    have hclosed := hs.closed d (List.mem_of_getElem? hd) (by rw [hp]; simp)
    have hempty : Sealed { s with pending := ∅ } :=
      ⟨hs.closed,fun _ _ _ _ _ _ hlook => (by cases hlook)⟩
    exact hempty.setShutdown j _ hclosed fun _ => .inl rfl
  | @sendClosed _ j pick k d owed s₁ hd hp hk hsend =>
    have hmem := List.mem_of_getElem? hd
    have hclosed := hs.closed d hmem (by rw [hp]; simp)
    obtain ⟨-,-,hdowns,hwriter,-⟩ := send_frame hsend
    apply (hs.send hsend).setShutdown j
    · rw [hwriter]
      exact hclosed
    · intro _
      exact .inr ⟨d,by rw [hdowns]; exact hmem,owed,hp⟩
  | @take value id p hr he hid hp =>
    have herased := hs.erase id
    exact ⟨herased.closed,herased.drained⟩
  | deliver hr hsend =>
    have hsent := hs.send hsend
    exact ⟨hsent.closed,hsent.drained⟩
  | _ => exact ⟨hs.closed,hs.drained⟩

end Conn
end Provium.Qmp
