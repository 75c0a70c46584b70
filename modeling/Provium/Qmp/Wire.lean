import Provium.Lib.Splice
import Provium.Qmp.Connection

/-! The bytes that `Inner::send` puts on the socket. `Qmp.Connection` takes a write for one step;
here every `write` of `deadline::send` is one, it may take any part of what is left of the line, and
it may fail or run out of time at any byte. Each byte is kept with the call that wrote it. -/
namespace Provium.Qmp
open Lib Provium.Protocol

/-- Where one call of `Inner::send` stands. -/
inductive SendPhase where
  /-- It waits for the stream. -/
  | waiting
  /-- It is in `deadline::send` with this much of its line to write. -/
  | writing (remaining : List UInt8)
  /-- Its write failed and it is about to sever the socket. -/
  | failing (e : QmpError)
  /-- It is about to close the writer. -/
  | closing (e : QmpError)
  /-- It is about to give the stream back. -/
  | releasing (result : Except QmpError Unit)
  | returned (result : Except QmpError Unit)
  /-- The `expect` found no stream. -/
  | panicked

structure Sending where
  request : Value
  phase : SendPhase

/-- The writer's side of a connection. Calls keep their number for good. -/
structure Wire where
  writer : WriterSlot
  /-- The socket has been shut down: writes fail from then on. -/
  severed : Bool
  /-- How many other shutdowns have severed the socket and not yet closed the writer. -/
  shutdowns : ℕ
  sendings : List Sending
  /-- What has been written since the handshake, each byte with the call that wrote it. -/
  bytes : List (ℕ × UInt8)

def Wire.new : Wire := ⟨⟨true,false,false⟩,false,0,[],[]⟩

/-- The sections of a call of `Inner::send`, with what the clock and the socket do there. -/
inductive SendStep where
  | acquire (expired : Bool) (timeout : ℕ)
  /-- One `write` that takes so many bytes. -/
  | write (count : ℕ)
  /-- The write fails, or the budget is over, in the line or after its last byte. -/
  | fail (e : QmpError)
  | finish
  /-- The socket's `shutdown` may itself fail. -/
  | sever (ok : Bool)
  | close
  | release

inductive WireAction where
  | call (request : Value)
  | proceed (k : ℕ) (step : SendStep)
  /-- Another thread's `shutdown` severs the socket. -/
  | sever (ok : Bool)
  /-- Another thread's `shutdown` closes the writer. -/
  | close

section Lines
variable (toVec : Value → Except QmpError (List UInt8))

/-- The line of a request: its JSON and a newline. -/
def requestLine (request : Value) : Except QmpError (List UInt8) :=
  (toVec request).map (·++[10])

namespace Wire

def setPhase (w : Wire) (k : ℕ) (phase : SendPhase) : Wire :=
  { w with sendings := w.sendings.modify k fun s => { s with phase } }

/-- `deadline::send` up to its first write. -/
def startLine (request : Value) : SendPhase :=
  match requestLine toVec request with
  | .ok line => .writing line
  | .error e => .failing e

def acquire (w : Wire) (k : ℕ) (s : Sending) (expired : Bool) (timeout : ℕ) : Wire :=
  if w.writer.closed then w.setPhase k (.returned (.error (.closed "write on closed connection")))
  else if expired then w.setPhase k (.returned (.error (.timeout timeout)))
  else if w.writer.busy then w
  else if w.writer.stream then
    { w with writer := ⟨false,true,false⟩ }.setPhase k (startLine toVec s.request)
  else w.setPhase k .panicked

def write (w : Wire) (k : ℕ) (remaining : List UInt8) (count : ℕ) : Wire :=
  { w with bytes := w.bytes++(remaining.take count).map (k,·) }.setPhase k
    (.writing (remaining.drop count))

/-- The section of `shutdown` that closes the writer. -/
def closeWriter (w : Wire) : Wire := { w with writer := ⟨false,w.writer.busy,true⟩ }

def release (w : Wire) (k : ℕ) (result : Except QmpError Unit) : Wire :=
  { w with writer := ⟨w.writer.stream || !w.writer.closed,false,w.writer.closed⟩ }.setPhase k
    (.returned result)

def proceed (w : Wire) (k : ℕ) (s : Sending) (step : SendStep) : Option Wire :=
  match s.phase,step with
  | .waiting,.acquire expired timeout => some (w.acquire toVec k s expired timeout)
  | .writing remaining,.write count =>
    if 0 < count ∧ count ≤ remaining.length ∧ w.severed = false then some (w.write k remaining count)
    else none
  | .writing _,.fail e => some (w.setPhase k (.failing e))
  | .writing [],.finish => some (w.setPhase k (.releasing (.ok ())))
  | .failing e,.sever ok => some ({ w with severed := w.severed || ok }.setPhase k (.closing e))
  | .closing e,.close => some (w.closeWriter.setPhase k (.releasing (.error e)))
  | .releasing result,.release => some (w.release k result)
  | _,_ => none

def step (w : Wire) : WireAction → Option Wire
  | .call request => some { w with sendings := w.sendings++[⟨request,.waiting⟩] }
  | .proceed k step => (w.sendings[k]?).bind fun s => w.proceed toVec k s step
  | .sever ok => some { w with severed := w.severed || ok, shutdowns := w.shutdowns+1 }
  | .close => if 0 < w.shutdowns then some { w.closeWriter with shutdowns := w.shutdowns-1 } else none

end Wire

/-- Any number of callers and shutdowns, in any order of their steps. -/
def wireMachine : Machine Wire WireAction Unit := ⟨fun w a => (w.step toVec a).map (·,())⟩

/-- The line that a call has to write. -/
def Wire.Line (w : Wire) (k : ℕ) (line : List UInt8) : Prop :=
  ∃ s, w.sendings[k]? = some s ∧ requestLine toVec s.request = .ok line

/-- Whole lines one after the other, each with the call that wrote it. -/
def written (whole : List (ℕ × List UInt8)) : List (ℕ × UInt8) :=
  whole.flatMap fun q => q.2.map (q.1,·)

/-- The socket carries whole lines of different calls, and then a strict first part of one more at
most. -/
structure Integrity (w : Wire) (whole : List (ℕ × List UInt8)) (part : List (ℕ × UInt8)) : Prop where
  bytes : w.bytes = written whole++part
  lines : ∀ q ∈ whole, w.Line toVec q.1 q.2
  once : (whole.map Prod.fst).Nodup
  strict : part = [] ∨ ∃ k bs rest, w.Line toVec k (bs++rest) ∧ rest ≠ [] ∧ part = bs.map (k,·) ∧
    k ∉ whole.map Prod.fst

/-- The call has the stream. -/
def SendPhase.Holds : SendPhase → Prop
  | .writing _ | .failing _ | .closing _ | .releasing _ => True
  | .waiting | .returned _ | .panicked => False

/-- What the phase of a call says about the writer and the socket. -/
def PhaseOk (w : Wire) (whole : List (ℕ × List UInt8)) (part : List (ℕ × UInt8)) (k : ℕ) :
    SendPhase → Prop
  | .waiting => k ∉ whole.map Prod.fst
  | .writing rest => w.writer.busy = true ∧ (rest = [] ∧ part = [] ∨ rest ≠ [] ∧
      k ∉ whole.map Prod.fst ∧ ∃ bs, w.Line toVec k (bs++rest) ∧ part = bs.map (k,·))
  | .failing _ | .closing _ => w.writer.busy = true
  | .releasing (.ok _) => w.writer.busy = true ∧ part = []
  | .releasing (.error _) => w.writer.busy = true ∧ w.writer.closed = true
  | .returned _ => True
  | .panicked => False

structure WireInv (w : Wire) (whole : List (ℕ × List UInt8)) (part : List (ℕ × UInt8)) : Prop where
  integrity : Integrity toVec w whole part
  phases : ∀ (k : ℕ) (s : Sending), w.sendings[k]? = some s → PhaseOk toVec w whole part k s.phase
  alone : ∀ (i j : ℕ) (s t : Sending), w.sendings[i]? = some s → w.sendings[j]? = some t → s.phase.Holds →
    t.phase.Holds → i = j
  held : w.writer.busy = true → ∃ (k : ℕ) (s : Sending), w.sendings[k]? = some s ∧ s.phase.Holds
  idle : w.writer.busy = false → w.writer.closed = false → w.writer.stream = true ∧ part = []

theorem wireInv_new : WireInv toVec Wire.new [] [] :=
  ⟨⟨rfl,by simp,List.nodup_nil,.inl rfl⟩,by simp [Wire.new],by simp [Wire.new],by simp [Wire.new],
    fun _ _ => ⟨rfl,rfl⟩⟩

variable {toVec} {w : Wire} {whole : List (ℕ × List UInt8)} {part : List (ℕ × UInt8)} {k : ℕ}
  {s : Sending}

theorem written_concat (whole : List (ℕ × List UInt8)) (k : ℕ) (line : List UInt8) :
    written (whole++[(k,line)]) = written whole++line.map (k,·) := by
  rw [written,written,List.flatMap_append,List.flatMap_singleton]

theorem getElem?_setPhase (w : Wire) (k j : ℕ) (phase : SendPhase) :
    (w.setPhase k phase).sendings[j]? =
      if k = j then w.sendings[j]?.map (fun s => { s with phase }) else w.sendings[j]? := by
  rw [Wire.setPhase,List.getElem?_modify]
  split <;> simp

theorem sendings_setPhase_self (hs : w.sendings[k]? = some s) (phase : SendPhase) :
    (w.setPhase k phase).sendings[k]? = some { s with phase } := by
  rw [getElem?_setPhase,if_pos rfl,hs]
  rfl

theorem sendings_setPhase_ne (w : Wire) {j : ℕ} (hj : j ≠ k) (phase : SendPhase) :
    (w.setPhase k phase).sendings[j]? = w.sendings[j]? := by
  rw [getElem?_setPhase,if_neg (Ne.symm hj)]

theorem line_setPhase (w : Wire) (k j : ℕ) (phase : SendPhase) {line : List UInt8}
    (h : w.Line toVec j line) : (w.setPhase k phase).Line toVec j line := by
  obtain ⟨s,hs,hl⟩ := h
  by_cases hk : j = k
  · subst hk
    exact ⟨{ s with phase },sendings_setPhase_self hs phase,hl⟩
  · exact ⟨s,by rw [sendings_setPhase_ne w hk,hs],hl⟩

/-- Integrity speaks of the bytes, and of the calls only through their lines. -/
theorem Integrity.setPhase (h : Integrity toVec w whole part) (k : ℕ) (phase : SendPhase) :
    Integrity toVec (w.setPhase k phase) whole part := by
  refine ⟨h.bytes,fun q hq => line_setPhase w k q.1 phase (h.lines q hq),h.once,?_⟩
  refine h.strict.imp_right ?_
  rintro ⟨j,bs,rest,hl,hr,hp,hj⟩
  exact ⟨j,bs,rest,line_setPhase w k j phase hl,hr,hp,hj⟩

theorem PhaseOk.setPhase {phase : SendPhase} {j : ℕ} (h : PhaseOk toVec w whole part j phase)
    (k : ℕ) (phase' : SendPhase) : PhaseOk toVec (w.setPhase k phase') whole part j phase := by
  cases phase with
  | writing rest =>
    obtain ⟨hb,h⟩ := h
    refine ⟨hb,h.imp_right ?_⟩
    rintro ⟨hr,hj,bs,hl,hp⟩
    exact ⟨hr,hj,bs,line_setPhase w k j phase' hl,hp⟩
  | releasing result => cases result <;> exact h
  | waiting => exact h
  | failing _ => exact h
  | closing _ => exact h
  | returned _ => exact h
  | panicked => exact h

/-- Whoever holds the stream keeps the writer busy. -/
theorem PhaseOk.busy {phase : SendPhase} (h : PhaseOk toVec w whole part k phase)
    (hh : phase.Holds) : w.writer.busy = true := by
  cases phase with
  | writing rest => exact h.1
  | releasing result => cases result <;> exact h.1
  | failing _ => exact h
  | closing _ => exact h
  | waiting => exact hh.elim
  | returned _ => exact hh.elim
  | panicked => exact hh.elim

/-- A call without the stream only waits to write. -/
theorem PhaseOk.other {phase : SendPhase} {w' : Wire} {whole' : List (ℕ × List UInt8)}
    {part' : List (ℕ × UInt8)} (h : PhaseOk toVec w whole part k phase) (hh : ¬phase.Holds)
    (hw : k ∈ whole'.map Prod.fst → k ∈ whole.map Prod.fst) :
    PhaseOk toVec w' whole' part' k phase := by
  cases phase with
  | waiting => exact fun hk => h (hw hk)
  | returned _ => trivial
  | panicked => exact h
  | writing _ => exact absurd trivial hh
  | failing _ => exact absurd trivial hh
  | closing _ => exact absurd trivial hh
  | releasing _ => exact absurd trivial hh

/-- The step of a call while no other has the stream. -/
theorem WireInv.move (h : WireInv toVec w whole part)
    (hothers : ∀ (j : ℕ) (t : Sending), j ≠ k → w.sendings[j]? = some t → ¬t.phase.Holds) {w' : Wire}
    {whole' : List (ℕ × List UInt8)} {part' : List (ℕ × UInt8)} (phase : SendPhase)
    (hs : w.sendings[k]? = some s) (hw : w'.sendings = (w.setPhase k phase).sendings)
    (hint : Integrity toVec w' whole' part')
    (hkeys : ∀ j, j ≠ k → j ∈ whole'.map Prod.fst → j ∈ whole.map Prod.fst)
    (hp : PhaseOk toVec w' whole' part' k phase) (hheld : w'.writer.busy = true → phase.Holds)
    (hidle : w'.writer.busy = false → w'.writer.closed = false →
      w'.writer.stream = true ∧ part' = []) :
    WireInv toVec w' whole' part' := by
  have hself : w'.sendings[k]? = some { s with phase } := by rw [hw,sendings_setPhase_self hs]
  have hother : ∀ j, j ≠ k → w'.sendings[j]? = w.sendings[j]? := by
    intro j hj
    rw [hw,sendings_setPhase_ne w hj]
  have honly : ∀ (j : ℕ) (t : Sending), w'.sendings[j]? = some t → t.phase.Holds → j = k := by
    intro j t ht hh
    by_contra hj
    rw [hother j hj] at ht
    exact hothers j t hj ht hh
  refine ⟨hint,?_,?_,?_,hidle⟩
  · intro j t ht
    by_cases hj : j = k
    · subst hj
      cases hself.symm.trans ht
      exact hp
    · rw [hother j hj] at ht
      exact (h.phases j t ht).other (hothers j t hj ht) (hkeys j hj)
  · intro i j a b hi hj ha hb
    exact (honly i a hi ha).trans (honly j b hj hb).symm
  · intro hb
    exact ⟨k,_,hself,hheld hb⟩

/-- A call that has the stream is alone. -/
theorem WireInv.others (h : WireInv toVec w whole part) (hs : w.sendings[k]? = some s)
    (hk : s.phase.Holds) (j : ℕ) (t : Sending) (hj : j ≠ k) (ht : w.sendings[j]? = some t) :
    ¬t.phase.Holds := by
  intro hh
  exact hj (h.alone j k t s ht hs hh hk)

/-- Nobody has the stream of an idle writer. -/
theorem WireInv.nobody (h : WireInv toVec w whole part) (hb : w.writer.busy = false) (j : ℕ)
    (t : Sending) (ht : w.sendings[j]? = some t) : ¬t.phase.Holds := by
  intro hh
  have hbusy := (h.phases j t ht).busy hh
  rw [hb] at hbusy
  cases hbusy

/-- A call returns without having had the stream. -/
theorem WireInv.leave (h : WireInv toVec w whole part) (hs : w.sendings[k]? = some s)
    (hk : ¬s.phase.Holds) (result : Except QmpError Unit) :
    WireInv toVec (w.setPhase k (.returned result)) whole part := by
  have hcase : ∀ (j : ℕ) (t : Sending),
      (w.setPhase k (.returned result)).sendings[j]? = some t →
      t.phase = .returned result ∨ j ≠ k ∧ w.sendings[j]? = some t := by
    intro j t ht
    rw [getElem?_setPhase] at ht
    split at ht
    · obtain ⟨a,-,rfl⟩ := Option.map_eq_some_iff.mp ht
      exact .inl rfl
    · exact .inr ⟨Ne.symm (by assumption),ht⟩
  refine ⟨h.integrity.setPhase k _,?_,?_,?_,h.idle⟩
  · intro j t ht
    obtain hp | ⟨-,ht⟩ := hcase j t ht
    · rw [hp]
      trivial
    · exact (h.phases j t ht).setPhase k _
  · intro i j a b hi hj ha hb
    obtain hp | ⟨-,hi⟩ := hcase i a hi
    · rw [hp] at ha
      exact ha.elim
    obtain hp | ⟨-,hj⟩ := hcase j b hj
    · rw [hp] at hb
      exact hb.elim
    exact h.alone i j a b hi hj ha hb
  · intro hb
    obtain ⟨j,t,ht,hh⟩ := h.held hb
    have hj : j ≠ k := by
      rintro rfl
      cases hs.symm.trans ht
      exact hk hh
    exact ⟨j,t,by rw [sendings_setPhase_ne w hj,ht],hh⟩

theorem WireInv.acquire (h : WireInv toVec w whole part) (hs : w.sendings[k]? = some s)
    (hk : s.phase = .waiting) (expired : Bool) (timeout : ℕ) :
    WireInv toVec (w.acquire toVec k s expired timeout) whole part := by
  have hnot : ¬s.phase.Holds := by
    rw [hk]
    exact not_false
  have hout : k ∉ whole.map Prod.fst := by
    have hp := h.phases k s hs
    rw [hk] at hp
    exact hp
  unfold Wire.acquire
  split_ifs with hc he hb hst
  · exact h.leave hs hnot _
  · exact h.leave hs hnot _
  · exact h
  · simp only [Bool.not_eq_true] at hc hb
    obtain ⟨-,hpart⟩ := h.idle hb hc
    have hint : Integrity toVec { w with writer := ⟨false,true,false⟩ } whole part :=
      ⟨h.integrity.bytes,h.integrity.lines,h.integrity.once,h.integrity.strict⟩
    refine h.move (fun j t _ ht => h.nobody hb j t ht) _ hs rfl (hint.setPhase k _)
      (fun _ _ hj => hj) ?_ ?_ (by simp [Wire.setPhase])
    · unfold Wire.startLine
      cases hl : requestLine toVec s.request with
      | error e => rfl
      | ok line =>
        refine ⟨rfl,.inr ⟨?_,hout,[],?_,hpart⟩⟩
        · unfold requestLine at hl
          cases hv : toVec s.request with
          | error e =>
            rw [hv] at hl
            cases hl
          | ok bs =>
            rw [hv] at hl
            cases hl
            simp
        · exact line_setPhase _ k k _ ⟨s,hs,hl⟩
    · intro _
      unfold Wire.startLine
      cases requestLine toVec s.request <;> exact trivial
  · simp only [Bool.not_eq_true] at hc hb hst
    obtain ⟨hstream,-⟩ := h.idle hb hc
    rw [hst] at hstream
    cases hstream

/-- A `write` extends the line in progress, and makes it whole with its last byte. -/
theorem WireInv.write (h : WireInv toVec w whole part) (hs : w.sendings[k]? = some s)
    {rest : List UInt8} (hk : s.phase = .writing rest) {count : ℕ} (hpos : 0 < count)
    (hle : count ≤ rest.length) : ∃ whole' part', WireInv toVec (w.write k rest count) whole' part' := by
  have hholds : s.phase.Holds := by
    rw [hk]
    exact trivial
  have hp := h.phases k s hs
  rw [hk] at hp
  obtain ⟨hbusy,⟨rfl,-⟩ | ⟨-,hout,bs,hline,hpart⟩⟩ := hp
  · simp only [List.length_nil] at hle
    omega
  have hsplit : bs++rest = (bs++rest.take count)++rest.drop count := by
    rw [List.append_assoc,List.take_append_drop]
  have hbytes : (w.write k rest count).bytes =
      written whole++(bs++rest.take count).map (k,·) := by
    simp only [Wire.write,Wire.setPhase,h.integrity.bytes,hpart,List.map_append,List.append_assoc]
  have hidle : (w.write k rest count).writer.busy = false →
      (w.write k rest count).writer.closed = false →
      (w.write k rest count).writer.stream = true ∧ ([] : List (ℕ × UInt8)) = [] := by
    intro hb
    rw [show (w.write k rest count).writer = w.writer from rfl,hbusy] at hb
    cases hb
  have hlines : ∀ (j : ℕ) (line : List UInt8), w.Line toVec j line →
      (w.write k rest count).Line toVec j line := by
    intro j line hl
    exact line_setPhase _ k j _ hl
  by_cases hdone : rest.drop count = []
  · rw [hdone,List.append_nil] at hsplit
    refine ⟨whole++[(k,bs++rest)],[],h.move (h.others hs hholds)
      (.writing (rest.drop count)) hs rfl ⟨?_,?_,?_,.inl rfl⟩ ?_
      ⟨hbusy,.inl ⟨hdone,rfl⟩⟩ (fun _ => trivial) hidle⟩
    · rw [hbytes,written_concat,List.append_nil,hsplit]
    · intro q hq
      obtain hq | hq := List.mem_append.mp hq
      · exact hlines _ _ (h.integrity.lines q hq)
      · rw [List.mem_singleton.mp hq]
        exact hlines _ _ hline
    · rw [List.map_append,List.nodup_append]
      refine ⟨h.integrity.once,List.nodup_singleton _,?_⟩
      intro a ha b hb hab
      rw [List.map_singleton,List.mem_singleton] at hb
      rw [hab,hb] at ha
      exact hout ha
    · intro j hj hmem
      rw [List.map_append,List.mem_append] at hmem
      refine hmem.resolve_right ?_
      intro hmem
      rw [List.map_singleton,List.mem_singleton] at hmem
      exact hj hmem
  · have hline' := hlines _ _ hline
    rw [hsplit] at hline'
    refine ⟨whole,(bs++rest.take count).map (k,·),h.move (h.others hs hholds)
      (.writing (rest.drop count)) hs rfl ⟨hbytes,?_,h.integrity.once,.inr ?_⟩
      (fun _ _ hm => hm) ⟨hbusy,.inr ⟨hdone,hout,_,hline',rfl⟩⟩ (fun _ => trivial) ?_⟩
    · intro q hq
      exact hlines _ _ (h.integrity.lines q hq)
    · exact ⟨k,_,_,hline',hdone,rfl,hout⟩
    · intro hb
      rw [show (w.write k rest count).writer = w.writer from rfl,hbusy] at hb
      cases hb

/-- A call that has the stream goes on without writing. -/
theorem WireInv.advance (h : WireInv toVec w whole part) (hs : w.sendings[k]? = some s)
    (hk : s.phase.Holds) {w' : Wire} {phase : SendPhase} (hbytes : w'.bytes = w.bytes)
    (hw : w'.sendings = (w.setPhase k phase).sendings)
    (hp : PhaseOk toVec w' whole part k phase) (hheld : w'.writer.busy = true → phase.Holds)
    (hidle : w'.writer.busy = false → w'.writer.closed = false →
      w'.writer.stream = true ∧ part = []) : WireInv toVec w' whole part := by
  refine h.move (h.others hs hk) phase hs hw ?_ (fun _ _ hm => hm) hp hheld hidle
  have hint := h.integrity.setPhase k phase
  have hline : ∀ (j : ℕ) (line : List UInt8), (w.setPhase k phase).Line toVec j line →
      w'.Line toVec j line := by
    rintro j line ⟨t,ht,hl⟩
    exact ⟨t,by rw [hw,ht],hl⟩
  refine ⟨hbytes.trans hint.bytes,fun q hq => hline _ _ (hint.lines q hq),hint.once,?_⟩
  refine hint.strict.imp_right ?_
  rintro ⟨j,bs,rest,hl,hr,hpart,hj⟩
  exact ⟨j,bs,rest,hline _ _ hl,hr,hpart,hj⟩

theorem WireInv.proceed (h : WireInv toVec w whole part) (hs : w.sendings[k]? = some s)
    {step : SendStep} {w' : Wire} (hw : w.proceed toVec k s step = some w') :
    ∃ whole' part', WireInv toVec w' whole' part' := by
  have hp := h.phases k s hs
  unfold Wire.proceed at hw
  split at hw
  · next expired timeout hk =>
    cases hw
    exact ⟨_,_,h.acquire hs hk expired timeout⟩
  · next rest count hk =>
    split_ifs at hw with hc
    cases hw
    exact h.write hs hk hc.1 hc.2.1
  · next rest e hk =>
    cases hw
    rw [hk] at hp
    have hh : s.phase.Holds := hk ▸ trivial
    refine ⟨_,_,h.advance hs hh rfl rfl hp.1 (fun _ => trivial) h.idle⟩
  · next hk =>
    cases hw
    rw [hk] at hp
    have hh : s.phase.Holds := hk ▸ trivial
    have hpart : part = [] := by
      obtain ⟨-,⟨-,hpart⟩ | ⟨hne,-⟩⟩ := hp
      · exact hpart
      · exact absurd rfl hne
    refine ⟨_,_,h.advance hs hh rfl rfl ⟨hp.1,hpart⟩ (fun _ => trivial) h.idle⟩
  · next e ok hk =>
    cases hw
    rw [hk] at hp
    have hh : s.phase.Holds := hk ▸ trivial
    refine ⟨_,_,h.advance hs hh rfl rfl hp (fun _ => trivial) h.idle⟩
  · next e hk =>
    cases hw
    rw [hk] at hp
    have hh : s.phase.Holds := hk ▸ trivial
    refine ⟨_,_,h.advance hs hh rfl rfl ⟨hp,rfl⟩ (fun _ => trivial) ?_⟩
    intro _ hc
    cases hc
  · next result hk =>
    cases hw
    rw [hk] at hp
    have hh : s.phase.Holds := hk ▸ trivial
    refine ⟨_,_,h.advance hs hh rfl rfl trivial ?_ ?_⟩
    · intro hb
      cases hb
    · intro _ hc
      have hc' : w.writer.closed = false := hc
      cases result with
      | ok u => exact ⟨by simp [Wire.release,Wire.setPhase,hc'],hp.2⟩
      | error e =>
        rw [hp.2] at hc'
        cases hc'
  · cases hw

/-- Closing the writer takes nothing back. -/
theorem WireInv.closeWriter (h : WireInv toVec w whole part) :
    WireInv toVec w.closeWriter whole part := by
  have hint := h.integrity
  refine ⟨⟨hint.bytes,hint.lines,hint.once,hint.strict⟩,?_,h.alone,h.held,?_⟩
  · intro j t ht
    have hp := h.phases j t ht
    cases hph : t.phase with
    | releasing result =>
      rw [hph] at hp
      cases result with
      | ok u => exact hp
      | error e => exact ⟨hp.1,rfl⟩
    | _ =>
      rw [hph] at hp
      exact hp
  · intro _ hc
    cases hc

theorem WireInv.call (h : WireInv toVec w whole part) (request : Value) :
    WireInv toVec { w with sendings := w.sendings++[⟨request,.waiting⟩] } whole part := by
  have hline : ∀ (j : ℕ) (line : List UInt8), w.Line toVec j line →
      Wire.Line toVec { w with sendings := w.sendings++[⟨request,.waiting⟩] } j line := by
    rintro j line ⟨t,ht,hl⟩
    exact ⟨t,getElem?_append_of ht _,hl⟩
  have hint := h.integrity
  have hcase : ∀ (j : ℕ) (t : Sending), (w.sendings++[⟨request,.waiting⟩])[j]? = some t →
      w.sendings[j]? = some t ∨ j = w.sendings.length ∧ t.phase = .waiting := by
    intro j t ht
    obtain ht | ⟨hj,rfl⟩ := getElem?_snoc ht
    · exact .inl ht
    · exact .inr ⟨hj,rfl⟩
  refine ⟨⟨hint.bytes,fun q hq => hline _ _ (hint.lines q hq),hint.once,?_⟩,?_,?_,?_,h.idle⟩
  · refine hint.strict.imp_right ?_
    rintro ⟨j,bs,rest,hl,hr,hp,hj⟩
    exact ⟨j,bs,rest,hline _ _ hl,hr,hp,hj⟩
  · intro j t ht
    obtain ht | ⟨rfl,hw⟩ := hcase j t ht
    · have hp := h.phases j t ht
      cases hph : t.phase with
      | writing rest =>
        rw [hph] at hp
        obtain ⟨hb,hp⟩ := hp
        refine ⟨hb,hp.imp_right ?_⟩
        rintro ⟨hr,hj,bs,hl,hpart⟩
        exact ⟨hr,hj,bs,hline _ _ hl,hpart⟩
      | releasing result =>
        rw [hph] at hp
        cases result <;> exact hp
      | _ =>
        rw [hph] at hp
        exact hp
    · rw [hw]
      intro hmem
      obtain ⟨q,hq,hq'⟩ := List.mem_map.mp hmem
      obtain ⟨a,ha,-⟩ := hint.lines q hq
      rw [hq',List.getElem?_eq_none le_rfl] at ha
      cases ha
  · intro i j a b hi hj ha hb
    obtain hi | ⟨-,hw⟩ := hcase i a hi
    · obtain hj | ⟨-,hw⟩ := hcase j b hj
      · exact h.alone i j a b hi hj ha hb
      · rw [hw] at hb
        exact hb.elim
    · rw [hw] at ha
      exact ha.elim
  · intro hb
    obtain ⟨j,t,ht,hh⟩ := h.held hb
    exact ⟨j,t,getElem?_append_of ht _,hh⟩

theorem WireInv.step (h : WireInv toVec w whole part) {a : WireAction} {w' : Wire} {o : Unit}
    (hs : (wireMachine toVec).step w a = some (w',o)) :
    ∃ whole' part', WireInv toVec w' whole' part' := by
  obtain ⟨w₁,hw,hq⟩ := Option.map_eq_some_iff.mp hs
  cases hq
  cases a with
  | call request =>
    cases hw
    exact ⟨_,_,h.call request⟩
  | proceed k step =>
    obtain ⟨s,hk,hw⟩ := Option.bind_eq_some_iff.mp hw
    exact h.proceed hk hw
  | sever ok =>
    cases hw
    have hint := h.integrity
    exact ⟨_,_,⟨hint.bytes,hint.lines,hint.once,hint.strict⟩,h.phases,h.alone,h.held,h.idle⟩
  | close =>
    simp only [Wire.step,Option.ite_none_right_eq_some] at hw
    obtain ⟨-,hw⟩ := hw
    cases hw
    have hc := h.closeWriter
    have hint := hc.integrity
    exact ⟨_,_,⟨hint.bytes,hint.lines,hint.once,hint.strict⟩,hc.phases,hc.alone,hc.held,hc.idle⟩

/-- Nobody writes, and nobody will: the writer is closed, or about to be by the call whose write
failed. -/
structure Abandoned (w : Wire) : Prop where
  silent : ∀ (k : ℕ) (s : Sending), w.sendings[k]? = some s → ∀ rest, s.phase ≠ .writing rest
  ended : w.writer.closed = true ∨ ∃ (k : ℕ) (s : Sending) (e : QmpError),
    w.sendings[k]? = some s ∧ (s.phase = .failing e ∨ s.phase = .closing e)

/-- A line left in the middle is never followed by anything. -/
theorem WireInv.abandoned (h : WireInv toVec w whole part) (hp : part ≠ [])
    (hw : ∀ (k : ℕ) (s : Sending), w.sendings[k]? = some s → ∀ rest, s.phase ≠ .writing rest) :
    Abandoned w := by
  refine ⟨hw,?_⟩
  cases hc : w.writer.closed with
  | true => exact .inl rfl
  | false =>
    cases hb : w.writer.busy with
    | false => exact absurd (h.idle hb hc).2 hp
    | true =>
      obtain ⟨k,s,hs,hh⟩ := h.held hb
      have hok := h.phases k s hs
      right
      cases hph : s.phase with
      | failing e => exact ⟨k,s,e,hs,.inl hph⟩
      | closing e => exact ⟨k,s,e,hs,.inr hph⟩
      | writing rest => exact absurd hph (hw k s hs rest)
      | releasing result =>
        rw [hph] at hok
        cases result with
        | ok u => exact absurd hok.2 hp
        | error e =>
          obtain ⟨-,hclosed⟩ := hok
          rw [hc] at hclosed
          cases hclosed
      | waiting => exact absurd hh (by rw [hph]; exact not_false)
      | returned _ => exact absurd hh (by rw [hph]; exact not_false)
      | panicked => exact absurd hh (by rw [hph]; exact not_false)

/-- A call goes on without writing, and without hiding that the writer is to be closed. -/
theorem Abandoned.set (h : Abandoned w) (hs : w.sendings[k]? = some s) {w' : Wire}
    {phase : SendPhase} (hw : w'.sendings = (w.setPhase k phase).sendings)
    (hp : ∀ rest, phase ≠ .writing rest) (hc : w.writer.closed = true → w'.writer.closed = true)
    (hk : w'.writer.closed = true ∨ (∃ e, phase = .failing e ∨ phase = .closing e) ∨
      ∀ e, s.phase ≠ .failing e ∧ s.phase ≠ .closing e) : Abandoned w' := by
  have hself : w'.sendings[k]? = some { s with phase } := by rw [hw,sendings_setPhase_self hs]
  have hother : ∀ j, j ≠ k → w'.sendings[j]? = w.sendings[j]? := by
    intro j hj
    rw [hw,sendings_setPhase_ne w hj]
  refine ⟨?_,?_⟩
  · intro j t ht
    by_cases hj : j = k
    · subst hj
      cases hself.symm.trans ht
      exact hp
    · rw [hother j hj] at ht
      exact h.silent j t ht
  · obtain hk | ⟨e,he⟩ | hk := hk
    · exact .inl hk
    · exact .inr ⟨k,_,e,hself,he⟩
    · obtain hcl | ⟨j,t,e,ht,he⟩ := h.ended
      · exact .inl (hc hcl)
      · have hj : j ≠ k := by
          rintro rfl
          cases hs.symm.trans ht
          exact he.elim (hk e).1 (hk e).2
        exact .inr ⟨j,t,e,by rw [hother j hj,ht],he⟩

theorem Abandoned.proceed (h : Abandoned w) (hi : WireInv toVec w whole part)
    (hs : w.sendings[k]? = some s) {step : SendStep} {w' : Wire}
    (hw : w.proceed toVec k s step = some w') : w'.bytes = w.bytes ∧ Abandoned w' := by
  have hsilent := h.silent k s hs
  unfold Wire.proceed at hw
  split at hw
  · next expired timeout hk =>
    cases hw
    have hplain : ∀ e, s.phase ≠ .failing e ∧ s.phase ≠ .closing e := by
      intro e
      rw [hk]
      exact ⟨SendPhase.noConfusion,SendPhase.noConfusion⟩
    -- An open writer is busy here: the call that failed still has the stream.
    have hbusy : w.writer.closed = false → w.writer.busy = true := by
      intro hc
      obtain hcl | ⟨j,t,e,ht,he⟩ := h.ended
      · rw [hc] at hcl
        cases hcl
      · refine (hi.phases j t ht).busy ?_
        obtain he | he := he
        · rw [he]
          exact trivial
        · rw [he]
          exact trivial
    unfold Wire.acquire
    split_ifs with hc he hb hst
    · exact ⟨rfl,h.set hs rfl (fun _ => SendPhase.noConfusion) id (.inr (.inr hplain))⟩
    · exact ⟨rfl,h.set hs rfl (fun _ => SendPhase.noConfusion) id (.inr (.inr hplain))⟩
    · exact ⟨rfl,h⟩
    · exact absurd (hbusy (Bool.not_eq_true _ ▸ hc)) hb
    · exact absurd (hbusy (Bool.not_eq_true _ ▸ hc)) hb
  · next rest count hk => exact absurd hk (hsilent rest)
  · next rest e hk => exact absurd hk (hsilent rest)
  · next hk => exact absurd hk (hsilent [])
  · next e ok hk =>
    cases hw
    exact ⟨rfl,h.set hs rfl (fun _ => SendPhase.noConfusion) id (.inr (.inl ⟨e,.inr rfl⟩))⟩
  · next e hk =>
    cases hw
    exact ⟨rfl,h.set hs rfl (fun _ => SendPhase.noConfusion) (fun _ => rfl) (.inl rfl)⟩
  · next result hk =>
    cases hw
    refine ⟨rfl,h.set hs rfl (fun _ => SendPhase.noConfusion) id (.inr (.inr ?_))⟩
    intro e
    rw [hk]
    exact ⟨SendPhase.noConfusion,SendPhase.noConfusion⟩
  · cases hw

theorem Abandoned.step (h : Abandoned w) (hi : WireInv toVec w whole part) {a : WireAction}
    {w' : Wire} {o : Unit} (hs : (wireMachine toVec).step w a = some (w',o)) :
    w'.bytes = w.bytes ∧ Abandoned w' := by
  obtain ⟨w₁,hw,hq⟩ := Option.map_eq_some_iff.mp hs
  cases hq
  cases a with
  | call request =>
    cases hw
    refine ⟨rfl,?_,?_⟩
    · intro j t ht
      obtain ht | ⟨-,rfl⟩ := getElem?_snoc ht
      · exact h.silent j t ht
      · exact fun _ => SendPhase.noConfusion
    · refine h.ended.imp_right ?_
      rintro ⟨j,t,e,ht,he⟩
      exact ⟨j,t,e,getElem?_append_of ht _,he⟩
  | proceed k step =>
    obtain ⟨s,hk,hw⟩ := Option.bind_eq_some_iff.mp hw
    exact h.proceed hi hk hw
  | sever ok =>
    cases hw
    exact ⟨rfl,h.silent,h.ended⟩
  | close =>
    simp only [Wire.step,Option.ite_none_right_eq_some] at hw
    obtain ⟨-,hw⟩ := hw
    cases hw
    exact ⟨rfl,h.silent,.inl rfl⟩

theorem Abandoned.run (h : Abandoned w) (hi : WireInv toVec w whole part) {as : List WireAction}
    {os : List Unit} {w' : Wire} (hr : (wireMachine toVec).run w as = some (w',os)) :
    w'.bytes = w.bytes := by
  have hinv : w'.bytes = w.bytes ∧ Abandoned w' ∧ ∃ whole part, WireInv toVec w' whole part := by
    refine Machine.run_invariant (I := fun v => v.bytes = w.bytes ∧ Abandoned v ∧
      ∃ whole part, WireInv toVec v whole part) (wireMachine toVec) ?_ ⟨rfl,h,_,_,hi⟩ hr
    rintro v a v' o ⟨hb,hv,_,_,hvi⟩ hs
    obtain ⟨hb',hv'⟩ := hv.step hvi hs
    exact ⟨hb'.trans hb,hv',hvi.step hs⟩
  exact hinv.1

/-- Whatever the callers, the clock and the shutdowns do, the socket carries whole lines and at most
one more that was left in the middle, and no caller misses the stream. -/
theorem qmp_wire_integrity {as : List WireAction} {os : List Unit} {w : Wire}
    (h : (wireMachine toVec).run Wire.new as = some (w,os)) :
    (∃ whole part, Integrity toVec w whole part ∧
      (part ≠ [] → (∀ (k : ℕ) (s : Sending), w.sendings[k]? = some s →
          ∀ rest, s.phase ≠ .writing rest) →
        ∀ (as' : List WireAction) (os' : List Unit) (w' : Wire),
          (wireMachine toVec).run w as' = some (w',os') → w'.bytes = w.bytes)) ∧
      ∀ (k : ℕ) (s : Sending), w.sendings[k]? = some s → s.phase ≠ .panicked := by
  obtain ⟨whole,part,hi⟩ := Machine.run_invariant (I := fun v => ∃ whole part,
    WireInv toVec v whole part) (wireMachine toVec)
    (fun _ _ _ _ hv hs => Exists.elim hv fun _ hv => Exists.elim hv fun _ hv => hv.step hs)
    ⟨_,_,wireInv_new toVec⟩ h
  refine ⟨⟨whole,part,hi.integrity,?_⟩,?_⟩
  · intro hp hw as' os' w' hr
    exact (hi.abandoned hp hw).run hi hr
  · intro k s hs hk
    have hok := hi.phases k s hs
    rw [hk] at hok
    exact hok

end Lines

/-- A call is cut off inside its line, and one that waited for it finds the writer closed. -/
def cutOff : List WireAction :=
  [.call .null,.call .null,.proceed 0 (.acquire false 5),.proceed 1 (.acquire false 5),
    .proceed 0 (.write 2),.proceed 0 (.fail (.timeout 5)),.proceed 0 (.sever true),
    .proceed 0 .close,.proceed 1 (.acquire false 5),.proceed 0 .release]

theorem qmp_wire_integrity_cut_off : ∃ w os,
    (wireMachine fun _ => .ok [110,117,108,108]).run Wire.new cutOff = some (w,os) ∧
    w.bytes = [(0,110),(0,117)] ∧
    ∃ whole part, Integrity (fun _ => .ok [110,117,108,108]) w whole part := by
  have hrun : ((wireMachine fun _ => .ok [110,117,108,108]).run Wire.new cutOff).map
      (fun r => r.1.bytes) = some [(0,110),(0,117)] := by rfl
  obtain ⟨⟨w,os⟩,hr,hb⟩ := Option.map_eq_some_iff.mp hrun
  obtain ⟨⟨whole,part,hi,-⟩,-⟩ := qmp_wire_integrity hr
  exact ⟨w,os,hr,hb,whole,part,hi⟩

end Provium.Qmp
