import Provium.Lib.BigEndian
import Provium.Nbd.Policy

/-! The transmission phase of `nbd.rs`: the loop that takes one request after the other off the
socket, judges it, serves it and replies. The bytes of the client are given as a whole; what other
threads do to the shared state between two requests is the `Moment` of an iteration. -/
namespace Provium.Nbd
open Lib

def requestMagic : ℕ := 0x25609513
def simpleReplyMagic : ℕ := 0x67446698

/-- A request as it stands on the wire. Only a `WRITE` has a payload. -/
structure Packet where
  flags : UInt16
  command : UInt16
  cookie : UInt64
  offset : UInt64
  length : UInt32
  payload : List UInt8
  sized : payload.length = if command.toNat = cmdWrite then length.toNat else 0

namespace Packet

def bytes (q : Packet) : List UInt8 :=
  toBeBytes 4 requestMagic++(toBeBytes 2 q.flags.toNat++(toBeBytes 2 q.command.toNat++
    (toBeBytes 8 q.cookie.toNat++(toBeBytes 8 q.offset.toNat++
      (toBeBytes 4 q.length.toNat++q.payload)))))

def request (q : Packet) : Request where
  flags := q.flags.toNat
  command :=
    if q.command.toNat = cmdRead then .read q.length.toNat
    else if q.command.toNat = cmdWrite then .write q.payload
    else if q.command.toNat = cmdDisc then .disc
    else if q.command.toNat = cmdFlush then .flush
    else .other q.command.toNat
  cookie := q.cookie.toNat
  offset := q.offset.toNat

def probe (q : Packet) : Probe := ⟨q.command.toNat,q.offset.toNat,q.length.toNat⟩

/-- The commands that a fault policy is consulted about. -/
def Consulted (q : Packet) : Prop :=
  q.command.toNat = cmdRead ∨ q.command.toNat = cmdWrite ∨ q.command.toNat = cmdFlush

instance (q : Packet) : Decidable q.Consulted := inferInstanceAs (Decidable (_ ∨ _))

end Packet

/-- Why the loop returned. -/
inductive Ending where
  | disc
  | shutdown
  /-- The stream ended between two requests. -/
  | eof
  /-- The stream ended inside a request. -/
  | truncated
  | badMagic (magic : ℕ)
  deriving DecidableEq, Repr

/-- Reading from the socket: what is read is gone, also when the read fails. -/
abbrev Receive := EStateM Ending (List UInt8)

def readExact (atEnd : Ending) (n : ℕ) : Receive (List UInt8) := fun input =>
  if n ≤ input.length then .ok (input.take n) (input.drop n) else .error atEnd []

/-- The payload that a header announces, read before any verdict. -/
def readPayload (flags command : UInt16) (cookie offset : UInt64) (length : UInt32) :
    Receive Packet := fun input =>
  if hc : command.toNat = cmdWrite then
    if hl : length.toNat ≤ input.length then
      .ok ⟨flags,command,cookie,offset,length,input.take length.toNat,
        by rw [if_pos hc,List.length_take_of_le hl]⟩ (input.drop length.toNat)
    else .error .truncated []
  else .ok ⟨flags,command,cookie,offset,length,[],by rw [if_neg hc]; rfl⟩ input

/-- The fields of a request after its magic. -/
def readFields : Receive Packet := do
  let flags ← readExact .truncated 2
  let command ← readExact .truncated 2
  let cookie ← readExact .truncated 8
  let offset ← readExact .truncated 8
  let length ← readExact .truncated 4
  readPayload (UInt16.ofNat (fromBeBytes flags)) (UInt16.ofNat (fromBeBytes command))
    (UInt64.ofNat (fromBeBytes cookie)) (UInt64.ofNat (fromBeBytes offset))
    (UInt32.ofNat (fromBeBytes length))

def receive : Receive Packet := do
  let magic ← readExact .eof 4
  if fromBeBytes magic ≠ requestMagic then throw (.badMagic (fromBeBytes magic)) else readFields

/-- `send_simple_reply`. -/
def Reply.bytes (r : Reply) : List UInt8 :=
  toBeBytes 4 simpleReplyMagic++(toBeBytes 4 r.error++(toBeBytes 8 r.cookie++r.data))

/-- What one iteration finds in the shared state: whether the server is shutting down, whether the
power was cut since the last request, and the policy with the counter its command draws. -/
structure Moment where
  shutdown : Bool
  powerCut : Bool
  policy : FaultPolicy
  seen : ℕ
  deriving DecidableEq, Repr

/-- `consult`, for a command that draws `seen` if it is counted. -/
def Moment.consult (m : Moment) (c : Probe) : Bool :=
  if m.policy = {} then false else m.policy.fails m.seen c

structure Connection where
  /-- What is still to be read from the socket. -/
  input : List UInt8
  /-- What has been written to it. -/
  output : List UInt8
  disk : DiskState
  ended : Option Ending

namespace Connection

def send (c : Connection) (r : Reply) : Connection := { c with output := c.output++r.bytes }

/-- The arms of the loop, for a request that no policy fails. -/
def serve (c : Connection) (r : Request) : Connection :=
  let c' := { c with disk := (c.disk.serve r).2 }
  match (c.disk.serve r).1 with
  | some reply => c'.send reply
  | none => { c' with ended := some .disc }

/-- One turn of the loop. -/
def turn (c : Connection) (m : Moment) : Connection :=
  let c := { c with disk := if m.powerCut then c.disk.powerCut else c.disk }
  if m.shutdown then { c with ended := some .shutdown }
  else
    match receive c.input with
    | .error e input => { c with input, ended := some e }
    | .ok q input =>
      let c := { c with input }
      if q.Consulted ∧ m.consult q.probe then c.send ⟨nbdEio,q.cookie.toNat,[]⟩
      else c.serve q.request

end Connection

/-- The loop, until it returns. -/
def transmission : Machine Connection Moment Unit where
  step c m := if c.ended = none then some (c.turn m,()) else none

/-- A connection whose negotiation is over, on a disk just opened. -/
def connected (image : List UInt8) (fates : List Fate) (input : List UInt8) : Connection :=
  ⟨input,[],DiskState.start image fates,none⟩

section Receive
variable {α β : Type} {x : Receive α} {f : α → Receive β} {s t : List UInt8} {a : α} {b : β}
  {e : Ending}

theorem bind_of_ok (h : x s = .ok a t) : (x >>= f) s = f a t := by
  simp only [bind,EStateM.bind,h]

theorem bind_of_error (h : x s = .error e t) : (x >>= f) s = .error e t := by
  simp only [bind,EStateM.bind,h]

theorem bind_eq_ok (h : (x >>= f) s = .ok b t) : ∃ a u, x s = .ok a u ∧ f a u = .ok b t := by
  cases hx : x s with
  | ok a u =>
    rw [bind_of_ok hx] at h
    exact ⟨a,u,rfl,h⟩
  | error e u =>
    rw [bind_of_error hx] at h
    cases h

theorem bind_eq_error (h : (x >>= f) s = .error e t) :
    x s = .error e t ∨ ∃ a u, x s = .ok a u ∧ f a u = .error e t := by
  cases hx : x s with
  | ok a u =>
    rw [bind_of_ok hx] at h
    exact .inr ⟨a,u,rfl,h⟩
  | error e' u =>
    rw [bind_of_error hx] at h
    cases h
    exact .inl rfl

theorem readExact_append (atEnd : Ending) {n : ℕ} {bs : List UInt8} (h : bs.length = n)
    (rest : List UInt8) : readExact atEnd n (bs++rest) = .ok bs rest := by
  subst h
  simp [readExact]

theorem readExact_ok {atEnd : Ending} {n : ℕ} {bs : List UInt8} (h : readExact atEnd n s = .ok bs t) :
    s = bs++t ∧ bs.length = n := by
  unfold readExact at h
  split at h
  · next hn =>
    cases h
    exact ⟨(List.take_append_drop n s).symm,List.length_take_of_le hn⟩
  · cases h

theorem readExact_error {atEnd : Ending} {n : ℕ} (h : readExact atEnd n s = .error e t) :
    e = atEnd ∧ t = [] ∧ s.length < n := by
  unfold readExact at h
  split at h
  · cases h
  · next hn =>
    cases h
    exact ⟨rfl,rfl,Nat.lt_of_not_le hn⟩

theorem readPayload_append (q : Packet) (rest : List UInt8) :
    readPayload q.flags q.command q.cookie q.offset q.length (q.payload++rest) = .ok q rest := by
  obtain ⟨flags,command,cookie,offset,length,payload,sized⟩ := q
  unfold readPayload
  by_cases hc : command.toNat = cmdWrite
  · have hl : payload.length = length.toNat := by rw [sized,if_pos hc]
    have hle : length.toNat ≤ (payload++rest).length := by
      rw [← hl,List.length_append]
      omega
    rw [dif_pos hc,dif_pos hle]
    simp only [← hl,List.take_left,List.drop_left]
  · have hnil : payload = [] := List.length_eq_zero_iff.mp (by rw [sized,if_neg hc])
    subst hnil
    rw [dif_neg hc]
    rfl

theorem readPayload_ok {flags command : UInt16} {cookie offset : UInt64} {length : UInt32}
    {q : Packet} (h : readPayload flags command cookie offset length s = .ok q t) :
    s = q.payload++t ∧ q.flags = flags ∧ q.command = command ∧ q.cookie = cookie ∧
      q.offset = offset ∧ q.length = length := by
  unfold readPayload at h
  split at h
  · split at h
    · cases h
      exact ⟨(List.take_append_drop _ s).symm,rfl,rfl,rfl,rfl,rfl⟩
    · cases h
  · cases h
    exact ⟨rfl,rfl,rfl,rfl,rfl,rfl⟩

theorem readPayload_error {flags command : UInt16} {cookie offset : UInt64} {length : UInt32}
    (h : readPayload flags command cookie offset length s = .error e t) :
    e = .truncated ∧ t = [] := by
  unfold readPayload at h
  split at h
  · split at h
    · cases h
    · cases h
      exact ⟨rfl,rfl⟩
  · cases h

end Receive

theorem uint16_of_bytes (n : UInt16) : UInt16.ofNat (fromBeBytes (toBeBytes 2 n.toNat)) = n := by
  rw [fromBeBytes_toBeBytes n.toNat_lt,UInt16.ofNat_toNat]

theorem uint32_of_bytes (n : UInt32) : UInt32.ofNat (fromBeBytes (toBeBytes 4 n.toNat)) = n := by
  rw [fromBeBytes_toBeBytes n.toNat_lt,UInt32.ofNat_toNat]

theorem uint64_of_bytes (n : UInt64) : UInt64.ofNat (fromBeBytes (toBeBytes 8 n.toNat)) = n := by
  rw [fromBeBytes_toBeBytes n.toNat_lt,UInt64.ofNat_toNat]

theorem bytes_of_uint16 {bs : List UInt8} (h : bs.length = 2) :
    toBeBytes 2 (UInt16.ofNat (fromBeBytes bs)).toNat = bs := by
  have hlt : fromBeBytes bs < 2^16 := by simpa [h] using fromBeBytes_lt bs
  rw [UInt16.toNat_ofNat_of_lt' hlt,← h,toBeBytes_fromBeBytes]

theorem bytes_of_uint32 {bs : List UInt8} (h : bs.length = 4) :
    toBeBytes 4 (UInt32.ofNat (fromBeBytes bs)).toNat = bs := by
  have hlt : fromBeBytes bs < 2^32 := by simpa [h] using fromBeBytes_lt bs
  rw [UInt32.toNat_ofNat_of_lt' hlt,← h,toBeBytes_fromBeBytes]

theorem bytes_of_uint64 {bs : List UInt8} (h : bs.length = 8) :
    toBeBytes 8 (UInt64.ofNat (fromBeBytes bs)).toNat = bs := by
  have hlt : fromBeBytes bs < 2^64 := by simpa [h] using fromBeBytes_lt bs
  rw [UInt64.toNat_ofNat_of_lt' hlt,← h,toBeBytes_fromBeBytes]

theorem readFields_bytes (q : Packet) (rest : List UInt8) :
    readFields (toBeBytes 2 q.flags.toNat++(toBeBytes 2 q.command.toNat++
      (toBeBytes 8 q.cookie.toNat++(toBeBytes 8 q.offset.toNat++
        (toBeBytes 4 q.length.toNat++(q.payload++rest)))))) = .ok q rest := by
  rw [readFields,bind_of_ok (readExact_append _ (length_toBeBytes _ _) _),
    bind_of_ok (readExact_append _ (length_toBeBytes _ _) _),
    bind_of_ok (readExact_append _ (length_toBeBytes _ _) _),
    bind_of_ok (readExact_append _ (length_toBeBytes _ _) _),
    bind_of_ok (readExact_append _ (length_toBeBytes _ _) _),
    uint16_of_bytes,uint16_of_bytes,uint64_of_bytes,uint64_of_bytes,uint32_of_bytes]
  exact readPayload_append q rest

/-- A request is taken off the socket to its last byte. -/
theorem receive_bytes (q : Packet) (rest : List UInt8) : receive (q.bytes++rest) = .ok q rest := by
  have hmagic : fromBeBytes (toBeBytes 4 requestMagic) = requestMagic :=
    fromBeBytes_toBeBytes (by decide)
  simp only [Packet.bytes,List.append_assoc]
  rw [receive,bind_of_ok (readExact_append _ (length_toBeBytes _ _) _),
    if_neg (not_not.mpr hmagic),readFields_bytes]

theorem readFields_ok {s t : List UInt8} {q : Packet} (h : readFields s = .ok q t) :
    s = toBeBytes 2 q.flags.toNat++(toBeBytes 2 q.command.toNat++(toBeBytes 8 q.cookie.toNat++
      (toBeBytes 8 q.offset.toNat++(toBeBytes 4 q.length.toNat++(q.payload++t))))) := by
  obtain ⟨flags,s₁,h₁,h₀⟩ := bind_eq_ok h
  obtain ⟨command,s₂,h₂,h₀⟩ := bind_eq_ok h₀
  obtain ⟨cookie,s₃,h₃,h₀⟩ := bind_eq_ok h₀
  obtain ⟨offset,s₄,h₄,h₀⟩ := bind_eq_ok h₀
  obtain ⟨length,s₅,h₅,h₀⟩ := bind_eq_ok h₀
  obtain ⟨hs₁,hl₁⟩ := readExact_ok h₁
  obtain ⟨hs₂,hl₂⟩ := readExact_ok h₂
  obtain ⟨hs₃,hl₃⟩ := readExact_ok h₃
  obtain ⟨hs₄,hl₄⟩ := readExact_ok h₄
  obtain ⟨hs₅,hl₅⟩ := readExact_ok h₅
  obtain ⟨hs,hf,hc,hk,ho,hl⟩ := readPayload_ok h₀
  rw [hf,hc,hk,ho,hl,bytes_of_uint16 hl₁,bytes_of_uint16 hl₂,bytes_of_uint64 hl₃,
    bytes_of_uint64 hl₄,bytes_of_uint32 hl₅,← hs,← hs₅,← hs₄,← hs₃,← hs₂,← hs₁]

/-- Nothing else is taken for a request. -/
theorem receive_ok {s t : List UInt8} {q : Packet} (h : receive s = .ok q t) : s = q.bytes++t := by
  obtain ⟨magic,s₁,h₁,h₀⟩ := bind_eq_ok h
  obtain ⟨hs,hl⟩ := readExact_ok h₁
  by_cases hm : fromBeBytes magic ≠ requestMagic
  · rw [if_pos hm] at h₀
    cases h₀
  rw [if_neg hm] at h₀
  have hmagic : toBeBytes 4 requestMagic = magic := by
    rw [← not_not.mp hm,← hl,toBeBytes_fromBeBytes]
  simp only [Packet.bytes,List.append_assoc,hmagic]
  rw [hs,readFields_ok h₀]

/-- The loop gives up on the input only where it ends or where a magic is wrong. -/
inductive GivesUp (s : List UInt8) : Ending → List UInt8 → Prop
  | eof (hs : s.length < 4) : GivesUp s .eof []
  | truncated : GivesUp s .truncated []
  | badMagic {magic t : List UInt8} (hs : s = magic++t) (hl : magic.length = 4)
      (hm : fromBeBytes magic ≠ requestMagic) : GivesUp s (.badMagic (fromBeBytes magic)) t

theorem readFields_error {s t : List UInt8} {e : Ending} (h : readFields s = .error e t) :
    e = .truncated ∧ t = [] := by
  have short {s : List UInt8} {n : ℕ} (h : e = .truncated ∧ t = [] ∧ s.length < n) :
      e = .truncated ∧ t = [] := ⟨h.1,h.2.1⟩
  obtain h | ⟨_,_,-,h⟩ := bind_eq_error h
  · exact short (readExact_error h)
  obtain h | ⟨_,_,-,h⟩ := bind_eq_error h
  · exact short (readExact_error h)
  obtain h | ⟨_,_,-,h⟩ := bind_eq_error h
  · exact short (readExact_error h)
  obtain h | ⟨_,_,-,h⟩ := bind_eq_error h
  · exact short (readExact_error h)
  obtain h | ⟨_,_,-,h⟩ := bind_eq_error h
  · exact short (readExact_error h)
  · exact readPayload_error h

theorem receive_error {s t : List UInt8} {e : Ending} (h : receive s = .error e t) :
    GivesUp s e t := by
  obtain h | ⟨magic,s₁,h₁,h⟩ := bind_eq_error h
  · obtain ⟨rfl,rfl,hs⟩ := readExact_error h
    exact .eof hs
  by_cases hm : fromBeBytes magic ≠ requestMagic
  · rw [if_pos hm] at h
    cases h
    obtain ⟨hs,hl⟩ := readExact_ok h₁
    exact .badMagic hs hl hm
  · rw [if_neg hm] at h
    obtain ⟨rfl,rfl⟩ := readFields_error h
    exact .truncated

theorem length_readExactAt {f f' : File} {offset len : ℕ} {data : List UInt8}
    (h : f.readExactAt offset len = (.ok data,f')) : data.length = len := by
  unfold File.readExactAt at h
  split at h
  · cases h
  · split at h
    · next hle =>
      cases h
      exact length_slice hle
    · cases h

/-- The two stretches a sector and a request have in common never reach past either. -/
theorem length_splice_common {l data : List UInt8} {offset sectorStart stop off from' len : ℕ}
    (hoff : off = max offset sectorStart-len)
    (hfit : min stop (sectorStart+sectorSize)-len ≤ l.length)
    (hlen : len ≤ max offset sectorStart) :
    (splice l off (slice data from'
      (min stop (sectorStart+sectorSize)-max offset sectorStart))).length = l.length := by
  have hle := length_slice_le data from' (min stop (sectorStart+sectorSize)-max offset sectorStart)
  by_cases hnil : min stop (sectorStart+sectorSize) ≤ max offset sectorStart
  · have hz : min stop (sectorStart+sectorSize)-max offset sectorStart = 0 := by omega
    rw [hz,slice_zero,splice_nil]
  · apply length_splice
    omega

namespace DiskState
variable {d : DiskState}

/-- Every held sector has its full length, so that the copies of `read` and `write` are in
bounds. -/
def Sectored (d : DiskState) : Prop :=
  ∀ (k : ℕ) (held : List UInt8), d.overlay[k]? = some held → held.length = sectorSize

theorem sectored_start (image : List UInt8) (fates : List Fate) : (start image fates).Sectored := by
  intro k held h
  simp [start] at h

theorem sectored_empty (file : File) (size flushes : ℕ) : Sectored ⟨file,size,∅,flushes⟩ := by
  intro k held h
  simp at h

theorem Sectored.insert (h : d.Sectored) {sector : ℕ} {held : List UInt8}
    (hl : held.length = sectorSize) (file : File) :
    Sectored { d with file, overlay := d.overlay.insert sector held } := by
  intro k x hx
  rw [Std.TreeMap.getElem?_insert] at hx
  split at hx
  · cases hx
    exact hl
  · exact h k x hx

theorem Sectored.hold (h : d.Sectored) (sector : ℕ) :
    (d.hold sector).2.Sectored ∧ ∀ held, (d.hold sector).1 = .ok held → held.length = sectorSize := by
  unfold DiskState.hold
  split
  · next held hh =>
    refine ⟨h,?_⟩
    intro x hx
    cases hx
    exact h sector held hh
  · split
    · exact ⟨h,by simp⟩
    · next base file hb =>
      have hl : base.length = sectorSize := length_readExactAt hb
      refine ⟨h.insert hl file,?_⟩
      intro x hx
      cases hx
      exact hl

theorem Sectored.writeSectors (h : d.Sectored) (offset stop : ℕ) (data : List UInt8)
    (ss : List ℕ) : (DiskState.writeSectors offset stop data ss d).2.Sectored := by
  induction ss generalizing d with
  | nil => exact h
  | cons sector ss ih =>
    have hh := h.hold sector
    unfold DiskState.writeSectors
    split
    · next e d' hd =>
      rw [hd] at hh
      exact hh.1
    · next held d' hd =>
      rw [hd] at hh
      have hl := hh.2 held rfl
      apply ih
      apply hh.1.insert
      rw [length_splice_common rfl (by omega) (le_max_right _ _),hl]

theorem Sectored.flush (d : DiskState) : d.flush.2.Sectored := by
  unfold DiskState.flush
  split
  · exact sectored_empty _ _ _
  · split
    · exact sectored_empty _ _ _
    · exact sectored_empty _ _ _

theorem Sectored.write (h : d.Sectored) (offset : ℕ) (data : List UInt8) :
    (d.write offset data).2.Sectored := by
  unfold DiskState.write
  split_ifs
  · exact h
  · exact h
  · exact h
  · have hw := h.writeSectors offset (offset+data.length) data (sectors offset (offset+data.length))
    dsimp only
    split
    · next hd =>
      rw [hd] at hw
      exact hw
    · next d' hd =>
      rw [hd] at hw
      split_ifs
      · exact Sectored.flush d'
      · exact hw

theorem Sectored.read (h : d.Sectored) (offset len : ℕ) : (d.read offset len).2.Sectored := by
  unfold DiskState.read
  split_ifs
  · exact h
  · exact h
  · exact h
  · split
    · exact h
    · exact h

/-- A read that succeeds has the length it was asked for. -/
theorem length_read {offset len : ℕ} {data : List UInt8} (h : (d.read offset len).1 = .ok data) :
    data.length = len := by
  unfold DiskState.read at h
  split_ifs at h with hz
  · cases h
    exact hz.symm
  · split at h
    · cases h
    · next buf file hb =>
      cases h
      have hl : buf.length = len := length_readExactAt hb
      have hfold (ss : List ℕ) (buf : List UInt8) (hl : buf.length = len) :
          (ss.foldl (d.stitch offset (offset+len)) buf).length = len := by
        induction ss generalizing buf with
        | nil => exact hl
        | cons sector ss ih =>
          apply ih
          unfold DiskState.stitch
          split
          · exact hl
          · rw [length_splice_common rfl (by omega) (le_max_left _ _),hl]
      exact hfold _ _ hl

theorem Sectored.serve (h : d.Sectored) (r : Request) : (d.serve r).2.Sectored := by
  unfold DiskState.serve
  split
  · next length _ =>
    have hr := h.read r.offset length
    split
    · next hd =>
      rw [hd] at hr
      exact hr
    · next hd =>
      rw [hd] at hr
      exact hr
  · next payload _ =>
    have hw := h.write r.offset payload
    split
    · next d' hd =>
      rw [hd] at hw
      split_ifs
      · exact Sectored.flush d'
      · exact hw
    · next hd =>
      rw [hd] at hw
      exact hw
  · exact Sectored.flush d
  · exact h
  · exact h

end DiskState

/-- What a reply owes its request: the cookie, and data of the length asked for after a `READ` that
succeeded, none otherwise. -/
structure Answers (q : Packet) (r : Reply) : Prop where
  cookie : r.cookie = q.cookie.toNat
  data : r.data.length = if q.command.toNat = cmdRead ∧ r.error = 0 then q.length.toNat else 0

theorem Request.reply_data (r : Request) (result : Except IoError Unit) {reply : Reply}
    (h : r.reply result = some reply) : reply.cookie = r.cookie ∧ reply.data = [] := by
  cases result <;> cases h <;> exact ⟨rfl,rfl⟩

/-- Every arm but the one of `READ` replies without data. -/
theorem serve_data {d : DiskState} {r : Request} (hr : ∀ len, r.command ≠ .read len) {reply : Reply}
    (h : (d.serve r).1 = some reply) : reply.cookie = r.cookie ∧ reply.data = [] := by
  unfold DiskState.serve at h
  split at h
  · next len hc => exact absurd hc (hr len)
  · split at h
    · split_ifs at h
      · exact r.reply_data _ h
      · exact r.reply_data (.ok ()) h
    · exact r.reply_data _ h
  · exact r.reply_data _ h
  · cases h
  · cases h
    exact ⟨rfl,rfl⟩

theorem serve_answers {d : DiskState} {q : Packet} {reply : Reply}
    (h : (d.serve q.request).1 = some reply) : Answers q reply := by
  by_cases hc : q.command.toNat = cmdRead
  · have hr : q.request.command = .read q.length.toNat := if_pos hc
    simp only [DiskState.serve,hr] at h
    split at h
    · next data d' hd =>
      cases h
      refine ⟨rfl,?_⟩
      rw [if_pos ⟨hc,rfl⟩]
      exact DiskState.length_read (congrArg Prod.fst hd)
    · cases h
      refine ⟨rfl,?_⟩
      rw [if_neg (by simp [nbdEio])]
      rfl
  · have hr : ∀ len, q.request.command ≠ .read len := by
      intro len
      simp only [Packet.request,if_neg hc]
      split_ifs <;> simp
    obtain ⟨hk,hd⟩ := serve_data hr h
    exact ⟨hk,by simp [hd,hc]⟩

theorem Request.reply_ne_none (r : Request) (result : Except IoError Unit) :
    r.reply result ≠ none := by
  cases result <;> simp [Request.reply]

/-- Every arm but the one of `DISC` replies. -/
theorem serve_none {d : DiskState} {r : Request} (h : (d.serve r).1 = none) : r.command = .disc := by
  unfold DiskState.serve at h
  split at h
  · split at h <;> cases h
  · split at h
    · split_ifs at h
      · exact absurd h (Request.reply_ne_none _ _)
      · exact absurd h (Request.reply_ne_none _ (.ok ()))
    · exact absurd h (Request.reply_ne_none _ _)
  · exact absurd h (Request.reply_ne_none _ _)
  · assumption
  · cases h

theorem Packet.request_disc {q : Packet} : q.request.command = .disc ↔ q.command.toNat = cmdDisc := by
  simp only [Packet.request]
  split_ifs <;> simp_all [cmdRead,cmdWrite,cmdDisc,cmdFlush]

/-- The bytes of a client's requests. -/
def stream (qs : List Packet) : List UInt8 := qs.flatMap Packet.bytes

def Packet.Disc (q : Packet) : Prop := q.command.toNat = cmdDisc

instance (q : Packet) : Decidable q.Disc := inferInstanceAs (Decidable (_ = _))

/-- Where the loop stands in its input after the moments `ms`, of the requests ahead of `tail`. -/
inductive Standing (tail : List UInt8) (ms : List Moment) (input : List UInt8)
    (served pending : List Packet) : Option Ending → Prop
  /-- Each turn has taken one request, to its last byte. -/
  | live (hi : input = stream pending++tail) (hn : ms.length = served.length)
      (hd : ∀ q ∈ served, ¬q.Disc) : Standing tail ms input served pending none
  | disc {qs : List Packet} {q : Packet} (hi : input = stream pending++tail)
      (hs : served = qs++[q]) (hq : q.Disc) (hd : ∀ q ∈ qs, ¬q.Disc) :
      Standing tail ms input served pending (some .disc)
  | shutdown (hi : input = stream pending++tail) (hm : ∃ m ∈ ms, m.shutdown)
      (hd : ∀ q ∈ served, ¬q.Disc) : Standing tail ms input served pending (some .shutdown)
  /-- Every request has been served, and what follows is none. -/
  | gaveUp {e : Ending} (hp : pending = []) (hd : ∀ q ∈ served, ¬q.Disc)
      (he : GivesUp tail e input) : Standing tail ms input served pending (some e)

/-- The requests served so far are a first part of the client's, each answered in its turn. -/
structure InSync (qs : List Packet) (tail : List UInt8) (ms : List Moment) (c : Connection)
    (served pending : List Packet) (replies : List Reply) : Prop where
  split : qs = served++pending
  output : c.output = replies.flatMap Reply.bytes
  answers : List.Forall₂ Answers (served.filter fun q => ¬q.Disc) replies
  standing : Standing tail ms c.input served pending c.ended
  sectored : c.disk.Sectored

section Turn
variable {qs served pending : List Packet} {tail : List UInt8} {ms : List Moment} {c : Connection}
  {replies : List Reply} {q : Packet} {m : Moment}

theorem InSync.live (h : InSync qs tail ms c served pending replies) (hc : c.ended = none) :
    c.input = stream pending++tail ∧ ms.length = served.length ∧ ∀ q ∈ served, ¬q.Disc := by
  have hs := h.standing
  rw [hc] at hs
  cases hs with
  | live hi hn hd => exact ⟨hi,hn,hd⟩

/-- A request is answered. -/
theorem InSync.answer (h : InSync qs tail ms c served (q::pending) replies) (hc : c.ended = none)
    (hq : ¬q.Disc) {r : Reply} (ha : Answers q r) {disk : DiskState} (hd : disk.Sectored) :
    InSync qs tail (ms++[m])
      (Connection.send { c with input := stream pending++tail, disk := disk } r)
      (served++[q]) pending (replies++[r]) := by
  obtain ⟨-,hn,hnd⟩ := h.live hc
  refine ⟨?_,?_,?_,?_,hd⟩
  · rw [h.split,List.append_assoc]
    rfl
  · simp only [Connection.send,h.output,List.flatMap_append,List.flatMap_singleton]
  · rw [List.filter_append,List.filter_singleton]
    simp only [hq,not_false_eq_true,decide_true,cond_true]
    exact List.rel_append h.answers (List.Forall₂.cons ha .nil)
  · simp only [Connection.send,hc]
    refine .live rfl (by simp [hn]) ?_
    intro p hp
    obtain hp | hp := List.mem_append.mp hp
    · exact hnd p hp
    · exact List.mem_singleton.mp hp ▸ hq

/-- A `DISC` is the last request. -/
theorem InSync.disconnect (h : InSync qs tail ms c served (q::pending) replies)
    (hc : c.ended = none) (hq : q.Disc) {disk : DiskState} (hd : disk.Sectored) :
    InSync qs tail (ms++[m])
      { c with input := stream pending++tail, disk := disk, ended := some .disc }
      (served++[q]) pending replies := by
  obtain ⟨-,-,hnd⟩ := h.live hc
  refine ⟨?_,h.output,?_,.disc rfl rfl hq hnd,hd⟩
  · rw [h.split,List.append_assoc]
    rfl
  · rw [List.filter_append,List.filter_singleton]
    simpa only [hq,not_true_eq_false,decide_false,cond_false,List.append_nil] using h.answers

/-- A request is taken from the socket, and answered or the connection closed. -/
theorem InSync.request (h : InSync qs tail ms c served (q::pending) replies) (hc : c.ended = none)
    (hs : m.shutdown = false) :
    ∃ replies, InSync qs tail (ms++[m]) (c.turn m) (served++[q]) pending replies := by
  obtain ⟨hi,-,-⟩ := h.live hc
  have hrec : receive c.input = .ok q (stream pending++tail) := by
    rw [hi,stream,List.flatMap_cons,List.append_assoc]
    exact receive_bytes q _
  have hcut : (if m.powerCut then c.disk.powerCut else c.disk).Sectored := by
    split_ifs
    · exact DiskState.sectored_empty _ _ _
    · exact h.sectored
  simp only [Connection.turn,hs,Bool.false_eq_true,↓reduceIte,hrec]
  by_cases hv : q.Consulted ∧ m.consult q.probe
  · rw [if_pos hv]
    have hq : ¬q.Disc := by
      have hcons := hv.1
      simp only [Packet.Consulted,cmdRead,cmdWrite,cmdFlush] at hcons
      simp only [Packet.Disc,cmdDisc]
      omega
    refine ⟨_,h.answer hc hq ⟨rfl,?_⟩ hcut⟩
    simp [nbdEio]
  · rw [if_neg hv]
    have hserve := hcut.serve q.request
    unfold Connection.serve
    cases hr : (DiskState.serve (if m.powerCut then c.disk.powerCut else c.disk) q.request).1 with
    | some reply =>
      have hq : ¬q.Disc := by
        intro hd
        have hcmd := Packet.request_disc.mpr hd
        simp [DiskState.serve,hcmd] at hr
      exact ⟨_,h.answer hc hq (serve_answers hr) hserve⟩
    | none =>
      have hq : q.Disc := Packet.request_disc.mp (serve_none hr)
      exact ⟨_,h.disconnect hc hq hserve⟩

theorem InSync.turn (htail : ∀ q rest, tail ≠ Packet.bytes q++rest)
    (h : InSync qs tail ms c served pending replies) (hc : c.ended = none) :
    ∃ served pending replies, InSync qs tail (ms++[m]) (c.turn m) served pending replies := by
  obtain ⟨hi,hn,hnd⟩ := h.live hc
  have hcut : (if m.powerCut then c.disk.powerCut else c.disk).Sectored := by
    split_ifs
    · exact DiskState.sectored_empty _ _ _
    · exact h.sectored
  cases hs : m.shutdown with
  | true =>
    have ht : c.turn m = { c with
        disk := if m.powerCut then c.disk.powerCut else c.disk
        ended := some .shutdown } := if_pos hs
    rw [ht]
    exact ⟨served,pending,replies,h.split,h.output,h.answers,.shutdown hi ⟨m,by simp,hs⟩ hnd,hcut⟩
  | false =>
    cases pending with
    | cons q pending =>
      obtain ⟨replies,h'⟩ := h.request (m := m) hc hs
      exact ⟨_,_,_,h'⟩
    | nil =>
      -- Every request is served: what is left is the tail, which holds none.
      have hi' : c.input = tail := hi
      cases hrec : receive tail with
      | ok q rest => exact absurd (receive_ok hrec) (htail q rest)
      | error e rest =>
        have ht : c.turn m = { c with
            input := rest
            disk := if m.powerCut then c.disk.powerCut else c.disk
            ended := some e } := by
          simp only [Connection.turn,hs,Bool.false_eq_true,↓reduceIte,hi',hrec]
        rw [ht]
        exact ⟨served,[],replies,h.split,h.output,h.answers,.gaveUp rfl hnd (receive_error hrec),hcut⟩

end Turn

/-- The loop stays in step with its client, whatever the disk and the fault policies do. -/
theorem transmission_in_sync (image : List UInt8) (fates : List Fate) (qs : List Packet)
    (tail : List UInt8) (htail : ∀ q rest, tail ≠ Packet.bytes q++rest) {ms : List Moment}
    {os : List Unit} {c : Connection}
    (h : transmission.run (connected image fates (stream qs++tail)) ms = some (c,os)) :
    (∃ served pending replies, InSync qs tail ms c served pending replies) ∧
      (c.ended = none → ∀ m, ∃ c', transmission.step c m = some (c',())) := by
  refine ⟨?_,fun hc m => ⟨c.turn m,if_pos hc⟩⟩
  have hstart : InSync qs tail [] (connected image fates (stream qs++tail)) [] qs [] :=
    ⟨rfl,rfl,.nil,.live rfl rfl (by simp),DiskState.sectored_start _ _⟩
  have hstep : ∀ past c m c' o,
      (∃ served pending replies, InSync qs tail past c served pending replies) →
      transmission.step c m = some (c',o) →
      ∃ served pending replies, InSync qs tail (past++[m]) c' served pending replies := by
    rintro past c m c' o ⟨served,pending,replies,hsync⟩ hs
    simp only [transmission,Option.ite_none_right_eq_some] at hs
    obtain ⟨hc,hs⟩ := hs
    cases hs
    exact hsync.turn htail hc
  exact Machine.run_past transmission hstep ⟨_,_,_,hstart⟩ h

theorem Packet.bytes_ne_nil (q : Packet) (rest : List UInt8) : [] ≠ q.bytes++rest := by
  intro h
  have hl := congrArg List.length h
  simp only [Packet.bytes,List.length_append,length_toBeBytes,List.length_nil] at hl
  omega

/-- A `WRITE` that a policy refuses, and the `FLUSH` after it. -/
def refusedWrite : List Packet :=
  [⟨0,1,7,0,3,[1,2,3],by decide⟩,⟨0,3,8,0,0,[],by decide⟩]

def refusing : List Moment :=
  [⟨false,false,{ failWrites := true },1⟩,⟨false,false,{ failWrites := true },2⟩]

theorem transmission_in_sync_refused : ∃ c os,
    transmission.run (connected (List.replicate 512 0) [] (stream refusedWrite++[])) refusing =
      some (c,os) ∧
    ∃ served pending replies, InSync refusedWrite [] refusing c served pending replies := by
  have h : (transmission.run (connected (List.replicate 512 0) [] (stream refusedWrite++[]))
      refusing).isSome := by decide
  obtain ⟨⟨c,os⟩,hr⟩ := Option.isSome_iff_exists.mp h
  exact ⟨c,os,hr,(transmission_in_sync _ _ _ _ Packet.bytes_ne_nil hr).1⟩

end Provium.Nbd
