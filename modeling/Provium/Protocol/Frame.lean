import Provium.Lib.Machine
import Provium.Lib.Splice
import Provium.Lib.BigEndian

/-! Length-prefixed framing, `frame.rs` of the protocol crate: `write_frame` and the resumable
`FrameReader`, over a transport that hands out its bytes in any pieces and fails in between. The
message codec is a parameter. -/
namespace Provium.Protocol
open Lib

/-- `HEADER_LEN`. -/
def headerLen : ℕ := 4

inductive IoErrorKind where
  | interrupted
  | wouldBlock
  | timedOut
  | other
  deriving DecidableEq, Repr

inductive FrameError where
  | io (e : IoErrorKind)
  | eof
  | unexpectedEof (bytesRead expected : ℕ)
  | frameTooLarge (len max : ℕ)
  | decode (reason : String)
  | encode (reason : String)
  deriving DecidableEq, Repr

/-- The message codec, `rmp_serde` with named maps. -/
structure Codec (M : Type*) where
  encode : M → Except String (List UInt8)
  decode : List UInt8 → Except String M

/-- What becomes of one `read` of the transport: up to `k+1` bytes, or an error. -/
inductive Arrival where
  | chunk (k : ℕ)
  | fail (e : IoErrorKind)
  deriving DecidableEq, Repr

/-- The bytes still to come and how the next reads go. After the script every read is given as
much as it has room for, and at the end of the bytes nothing. -/
structure Transport where
  rest : List UInt8
  script : List Arrival

/-- `Read::read` into a buffer with this much room. -/
def Transport.read (t : Transport) (room : ℕ) : Except IoErrorKind (List UInt8) × Transport :=
  match t.script with
  | [] => (.ok (t.rest.take room),⟨t.rest.drop room,[]⟩)
  | .chunk k::script =>
    (.ok (t.rest.take (min (k+1) room)),⟨t.rest.drop (min (k+1) room),script⟩)
  | .fail e::script => (.error e,⟨t.rest,script⟩)

theorem Transport.read_ok {t t' : Transport} {room : ℕ} {data : List UInt8}
    (h : t.read room = (.ok data,t')) :
    data.length ≤ room ∧ data++t'.rest = t.rest ∧ t'.script <:+ t.script ∧
      (0 < room → data = [] → t.rest = []) := by
  unfold Transport.read at h
  split at h
  · next hs =>
    cases h
    refine ⟨List.length_take_le _ _,List.take_append_drop _ _,List.nil_suffix,fun hr hd => ?_⟩
    rcases List.take_eq_nil_iff.mp hd with h0 | hn
    · omega
    · exact hn
  · next k script hs =>
    cases h
    refine ⟨(List.length_take_le _ _).trans (Nat.min_le_right _ _),List.take_append_drop _ _,?_,
      fun hr hd => ?_⟩
    · rw [hs]
      exact List.suffix_cons _ _
    · rcases List.take_eq_nil_iff.mp hd with h0 | hn
      · omega
      · exact hn
  · cases h

theorem Transport.read_error {t t' : Transport} {room : ℕ} {e : IoErrorKind}
    (h : t.read room = (.error e,t')) : t'.rest = t.rest ∧ t.script = .fail e::t'.script := by
  unfold Transport.read at h
  split at h
  · cases h
  · cases h
  · next script hs =>
    cases h
    exact ⟨rfl,hs⟩

/-- `read_full`: read until `buf` is full or the reader returns 0 bytes. -/
def readFull (t : Transport) (buf : List UInt8) (total : ℕ) :
    Except IoErrorKind Unit × Transport × List UInt8 × ℕ :=
  if total < buf.length then
    match _ : t.read (buf.length-total) with
    | (.ok [],t') => (.ok (),t',buf,total)
    | (.ok (b::bs),t') => readFull t' (splice buf total (b::bs)) (total+(b::bs).length)
    | (.error .interrupted,t') => readFull t' buf total
    | (.error e,t') => (.error e,t',buf,total)
  else (.ok (),t,buf,total)
termination_by t.script.length+(buf.length-total)
decreasing_by
  · have hr : t.read (buf.length-total) = (.ok (b::bs),t') := by assumption
    obtain ⟨hle,-,hs,-⟩ := Transport.read_ok hr
    have hlen : (splice buf total (b::bs)).length = buf.length := length_splice (by omega)
    have hscript := hs.length_le
    simp only [List.length_cons] at hle ⊢
    omega
  · have hr : t.read (buf.length-total) = (.error .interrupted,t') := by assumption
    obtain ⟨-,hs⟩ := Transport.read_error hr
    rw [hs,List.length_cons]
    omega

/-- What `read_full` does, whatever the pieces: it loses and invents no byte of the stream, and it
returns early only where the stream ends or a read fails for good. -/
theorem readFull_spec {t t' : Transport} {buf buf' : List UInt8} {total total' : ℕ}
    {res : Except IoErrorKind Unit} (hle : total ≤ buf.length)
    (h : readFull t buf total = (res,t',buf',total')) :
    buf'.length = buf.length ∧ total ≤ total' ∧ total' ≤ buf.length ∧
    buf'.take total'++t'.rest = buf.take total++t.rest ∧ t'.script <:+ t.script ∧
    (res = .ok () → total' = buf.length ∨ t'.rest = []) ∧
    ∀ e, res = .error e → e ≠ .interrupted ∧ total' < buf.length ∧
      ∃ past, past++.fail e::t'.script = t.script := by
  fun_induction readFull t buf total with
  | case1 t buf total hlt t₁ hr =>
    cases h
    obtain ⟨-,hrest,hs,hend⟩ := Transport.read_ok hr
    have hnil := hend (by omega) rfl
    have ht : t'.rest = t.rest := hrest
    refine ⟨rfl,le_rfl,hle,by rw [ht],hs,fun _ => .inr (ht.trans hnil),?_⟩
    intro e he
    cases he
  | case2 t buf total hlt b bs t₁ hr ih =>
    obtain ⟨hroom,hrest,hs,-⟩ := Transport.read_ok hr
    have hlen : (splice buf total (b::bs)).length = buf.length := length_splice (by omega)
    obtain ⟨h₁,h₂,h₃,h₄,h₅,h₆,h₇⟩ := ih (by omega) h
    rw [hlen] at h₁ h₃ h₆ h₇
    refine ⟨h₁,by omega,h₃,?_,h₅.trans hs,h₆,?_⟩
    · rw [h₄,take_splice hle,List.append_assoc,hrest]
    · intro e he
      obtain ⟨hne,hlt',past,hp⟩ := h₇ e he
      obtain ⟨pre,hpre⟩ := hs
      exact ⟨hne,hlt',pre++past,by rw [List.append_assoc,hp,hpre]⟩
  | case3 t buf total hlt t₁ hr ih =>
    obtain ⟨hrest,hs⟩ := Transport.read_error hr
    obtain ⟨h₁,h₂,h₃,h₄,h₅,h₆,h₇⟩ := ih hle h
    rw [hrest] at h₄
    refine ⟨h₁,h₂,h₃,h₄,?_,h₆,?_⟩
    · rw [hs]
      exact h₅.trans (List.suffix_cons _ _)
    · intro e he
      obtain ⟨hne,hlt',past,hp⟩ := h₇ e he
      exact ⟨hne,hlt',.fail .interrupted::past,by rw [hs,← hp]; rfl⟩
  | case4 t buf total hlt e t₁ hne hr =>
    cases h
    obtain ⟨hrest,hs⟩ := Transport.read_error hr
    refine ⟨rfl,le_rfl,hle,by rw [hrest],?_,fun hc => (by cases hc),?_⟩
    · rw [hs]
      exact List.suffix_cons _ _
    · intro e' he
      cases he
      exact ⟨hne,hlt,[],hs.symm⟩
  | case5 t buf total hge =>
    cases h
    refine ⟨rfl,le_rfl,hle,rfl,List.suffix_rfl,fun _ => .inl (by omega),?_⟩
    intro e he
    cases he

/-- Stateful frame decoder for a single connection. -/
structure FrameReader where
  maxBodyBytes : ℕ
  header : List UInt8
  headerRead : ℕ
  body : List UInt8
  bodyRead : ℕ

/-- `Vec::resize` with zeros. -/
def resize (l : List UInt8) (n : ℕ) : List UInt8 := l.take n++List.replicate (n-l.length) 0

namespace FrameReader
variable {M : Type*}

def new (maxBodyBytes : ℕ) : FrameReader := ⟨maxBodyBytes,List.replicate headerLen 0,0,[],0⟩

/-- The second half of `read`, behind a complete header: the body that the header announces. -/
def readBody (c : Codec M) (r : FrameReader) (t : Transport) :
    Except FrameError M × FrameReader × Transport :=
  let bodyLen := fromBeBytes r.header
  if r.maxBodyBytes < bodyLen then (.error (.frameTooLarge bodyLen r.maxBodyBytes),r,t)
  else
    match readFull t (resize r.body bodyLen) r.bodyRead with
    | (.error e,t,body,bodyRead) => (.error (.io e),{ r with body, bodyRead },t)
    | (.ok (),t,body,bodyRead) =>
      if bodyRead < bodyLen then
        (.error (.unexpectedEof bodyRead bodyLen),{ r with body, bodyRead },t)
      else
        match c.decode body with
        | .error e => (.error (.decode e),{ r with body, bodyRead },t)
        | .ok m => (.ok m,{ r with headerRead := 0, bodyRead := 0, body := [] },t)

/-- Decode the next frame, resuming any partially received frame. -/
def read (c : Codec M) (r : FrameReader) (t : Transport) :
    Except FrameError M × FrameReader × Transport :=
  match readFull t r.header r.headerRead with
  | (.error e,t,header,headerRead) => (.error (.io e),{ r with header, headerRead },t)
  | (.ok (),t,header,headerRead) =>
    if headerRead = 0 then (.error .eof,{ r with header, headerRead },t)
    else if headerRead < headerLen then
      (.error (.unexpectedEof headerRead headerLen),{ r with header, headerRead },t)
    else readBody c { r with header, headerRead } t

end FrameReader

/-- Encode a message as a single frame: the bytes that `write_frame` hands to `write_all`. -/
def writeFrame {M : Type*} (c : Codec M) (maxBodyBytes : ℕ) (message : M) :
    Except FrameError (List UInt8) :=
  match c.encode message with
  | .error e => .error (.encode e)
  | .ok body =>
    let max := min maxBodyBytes (2^32-1)
    if max < body.length then .error (.frameTooLarge body.length max)
    else .ok (toBeBytes headerLen body.length++body)

/-- Several messages, one after another. -/
def writeFrames {M : Type*} (c : Codec M) (maxBodyBytes : ℕ) :
    List M → Except FrameError (List UInt8)
  | [] => .ok []
  | m::ms =>
    match writeFrame c maxBodyBytes m with
    | .error e => .error e
    | .ok frame => (writeFrames c maxBodyBytes ms).map (frame++·)

end Provium.Protocol
