import Provium.Fixture.Scan
import Provium.Qmp.Connection

/-! Lines from the monitor's socket. The handshake reads them with `deadline::read_line`, the reader
thread with `BufRead::read_line`, one after the other from one `BufReader`. -/
namespace Provium.Qmp
open Lib Provium.Protocol Provium.Fixture

section Lines
variable {α : Type*} {c : α} {piece rest body more : List α}

/-- Up to its first terminator a list has one reading. -/
theorem first_unique (hp : c ∉ piece) (hb : c ∉ body) (h : piece++c::rest = body++c::more) :
    piece = body ∧ rest = more := by
  induction piece generalizing body with
  | nil =>
    cases body with
    | nil => exact ⟨rfl,(List.cons.inj h).2⟩
    | cons x body =>
      obtain ⟨rfl,-⟩ := List.cons.inj h
      exact absurd List.mem_cons_self hb
  | cons x piece ih =>
    cases body with
    | nil =>
      obtain ⟨rfl,-⟩ := List.cons.inj h
      exact absurd List.mem_cons_self hp
    | cons y body =>
      obtain ⟨rfl,htail⟩ := List.cons.inj h
      obtain ⟨rfl,hrest⟩ := ih (fun hm => hp (List.mem_cons_of_mem _ hm))
        (fun hm => hb (List.mem_cons_of_mem _ hm)) htail
      exact ⟨rfl,hrest⟩

/-- A piece without the terminator lies before it. -/
theorem piece_before (hp : c ∉ piece) (h : piece++rest = body++c::more) :
    ∃ left, body = piece++left ∧ rest = left++c::more := by
  induction piece generalizing body with
  | nil => exact ⟨body,rfl,h⟩
  | cons x piece ih =>
    cases body with
    | nil =>
      obtain ⟨rfl,-⟩ := List.cons.inj h
      exact absurd List.mem_cons_self hp
    | cons y body =>
      obtain ⟨rfl,htail⟩ := List.cons.inj h
      obtain ⟨left,rfl,hrest⟩ := ih (fun hm => hp (List.mem_cons_of_mem _ hm)) htail
      exact ⟨left,rfl,hrest⟩

end Lines

/-- A `BufReader` on the socket: the socket, and what is in the buffer and not consumed. -/
structure BufReader where
  inner : Transport
  buf : List UInt8

namespace BufReader
variable {r r' : BufReader}

def capacity : ℕ := 8192

/-- All that the peer has sent or will send and no one has taken. -/
def unread (r : BufReader) : List UInt8 := r.buf++r.inner.rest

def fillBuf (r : BufReader) : Except IoErrorKind (List UInt8) × BufReader :=
  match r.buf with
  | b::bs => (.ok (b::bs),r)
  | [] =>
    match r.inner.read capacity with
    | (.ok data,inner) => (.ok data,⟨inner,data⟩)
    | (.error e,inner) => (.error e,⟨inner,[]⟩)

def consume (r : BufReader) (count : ℕ) : BufReader := { r with buf := r.buf.drop count }

theorem fillBuf_ok {data : List UInt8} (h : r.fillBuf = (.ok data,r')) :
    r'.buf = data ∧ r'.unread = r.unread ∧ r'.inner.script <:+ r.inner.script ∧
      (data = [] → r.unread = []) := by
  unfold fillBuf at h
  split at h
  · next b bs hbuf =>
    cases h
    exact ⟨hbuf,rfl,List.suffix_rfl,fun hc => by cases hc⟩
  · next hbuf =>
    split at h
    · next got inner hread =>
      cases h
      obtain ⟨-,hrest,hs,hend⟩ := Transport.read_ok hread
      refine ⟨rfl,?_,hs,fun hdata => ?_⟩
      · rw [unread,unread,hbuf]
        exact hrest
      · rw [unread,hbuf]
        exact hend (by decide) hdata
    · cases h

theorem fillBuf_error {e : IoErrorKind} (h : r.fillBuf = (.error e,r')) :
    r'.unread = r.unread ∧ r.inner.script = .fail e::r'.inner.script := by
  unfold fillBuf at h
  split at h
  · cases h
  · next hbuf =>
    split at h
    · cases h
    · next inner hread =>
      cases h
      obtain ⟨hrest,hs⟩ := Transport.read_error hread
      refine ⟨?_,hs⟩
      rw [unread,unread,hbuf,hrest]

/-- One turn of a loop that looks for the end of a line: what it takes out of the buffer, and whether
the line ends there. At the end of the stream it takes nothing. -/
def nextPiece (r : BufReader) : Except IoErrorKind (List UInt8 × Bool) × BufReader :=
  match r.fillBuf with
  | (.error e,r) => (.error e,r)
  | (.ok available,r) =>
    match available.findIdx? (·==10) with
    | some i => (.ok (available.take (i+1),true),r.consume (i+1))
    | none => (.ok (available,false),r.consume available.length)

/-- What one turn takes is a whole line to its end, or has no end of a line in it. -/
theorem nextPiece_ok {piece : List UInt8} {ended : Bool}
    (h : r.nextPiece = (.ok (piece,ended),r')) :
    piece++r'.unread = r.unread ∧ r'.inner.script <:+ r.inner.script ∧
      (piece = [] → r.unread = []) ∧
      (ended = true → ∃ body, piece = body++[10] ∧ 10 ∉ body) ∧ (ended = false → 10 ∉ piece) := by
  unfold nextPiece at h
  split at h
  · cases h
  · next available r₁ hfill =>
    obtain ⟨hbuf,hunread,hs,hend⟩ := fillBuf_ok hfill
    have hkeep (n : ℕ) : available.take n++(r₁.consume n).unread = r.unread := by
      rw [← hunread,unread,unread,consume,hbuf,← List.append_assoc,List.take_append_drop]
    split at h
    · next i hi =>
      cases h
      obtain ⟨hlt,hnl,hbefore⟩ := List.findIdx?_eq_some_iff_getElem.mp hi
      refine ⟨hkeep (i+1),hs,fun hc => ?_,fun _ => ⟨available.take i,?_,?_⟩,fun hc => by cases hc⟩
      · rcases List.take_eq_nil_iff.mp hc with h0 | hnil
        · omega
        · exact hend hnil
      · have hnl' : available[i] = 10 := by simpa using hnl
        rw [List.take_succ_eq_append_getElem hlt,hnl']
      · intro hm
        obtain ⟨j,hj,hget⟩ := List.mem_take_iff_getElem.mp hm
        exact hbefore j (by omega) (by simpa using hget)
    · next hnone =>
      have hall := hkeep available.length
      rw [List.take_length] at hall
      cases h
      refine ⟨hall,hs,hend,fun hc => by (cases hc),fun _ hm => ?_⟩
      simpa using List.findIdx?_eq_none_iff.mp hnone 10 hm

theorem nextPiece_error {e : IoErrorKind} (h : r.nextPiece = (.error e,r')) :
    r'.unread = r.unread ∧ r.inner.script = .fail e::r'.inner.script := by
  unfold nextPiece at h
  split at h
  · next e₁ r₁ hfill =>
    cases h
    exact fillBuf_error hfill
  · split at h
    · cases h
    · cases h

/-- Every turn of such a loop uses something up. -/
theorem nextPiece_smaller {piece : List UInt8} {ended : Bool} (hp : piece ≠ [])
    (h : r.nextPiece = (.ok (piece,ended),r')) :
    r'.inner.script.length+r'.unread.length < r.inner.script.length+r.unread.length := by
  obtain ⟨hunread,hs,-,-,-⟩ := nextPiece_ok h
  have hlen := congrArg List.length hunread
  have hle := hs.length_le
  have hpos := List.length_pos_iff.mpr hp
  rw [List.length_append] at hlen
  omega

theorem nextPiece_interrupted_smaller {e : IoErrorKind} (h : r.nextPiece = (.error e,r')) :
    r'.inner.script.length+r'.unread.length < r.inner.script.length+r.unread.length := by
  obtain ⟨hunread,hs⟩ := nextPiece_error h
  rw [hunread,hs,List.length_cons]
  omega

end BufReader

/-- One elapsed-time budget, with what its successive readings of the clock find. -/
structure Budget where
  timeout : ℕ
  elapsed : ℕ → ℕ

namespace Budget

/-- `remaining` fails at this reading. -/
def expired (b : Budget) (tick : ℕ) : Bool := b.timeout ≤ b.elapsed tick

def ioError (b : Budget) : IoErrorKind → QmpError
  | .timedOut | .wouldBlock => .timeout b.timeout
  | e => .io e

/-- The budget is never found over. -/
def InTime (b : Budget) : Prop := ∀ tick, b.elapsed tick < b.timeout

theorem InTime.not_expired {b : Budget} (h : b.InTime) (tick : ℕ) : b.expired tick = false :=
  decide_eq_false (Nat.not_le.mpr (h tick))

end Budget

/-- `deadline::read_line`, having read `line`, at this reading of the clock. -/
def readLine (b : Budget) (r : BufReader) (tick : ℕ) (line : List UInt8) :
    Except QmpError String × BufReader × ℕ :=
  if b.expired tick then (.error (.timeout b.timeout),r,tick+1)
  else
    match _ : r.nextPiece with
    | (.error .interrupted,r') => readLine b r' (tick+1) line
    | (.error e,r') => (.error (b.ioError e),r',tick+1)
    | (.ok ([],_),r') => (.error (.closed "EOF during QMP handshake"),r',tick+1)
    | (.ok (c::cs,false),r') => readLine b r' (tick+1) (line++c::cs)
    | (.ok (c::cs,true),r') =>
      if b.expired (tick+1) then (.error (.timeout b.timeout),r',tick+2)
      else
        match ofUtf8 (line++c::cs) with
        | some text => (.ok text,r',tick+2)
        | none => (.error (.io .other),r',tick+2)
termination_by r.inner.script.length+r.unread.length
decreasing_by
  · have hr : r.nextPiece = (.error .interrupted,r') := by assumption
    exact BufReader.nextPiece_interrupted_smaller hr
  · have hr : r.nextPiece = (.ok (c::cs,false),r') := by assumption
    exact BufReader.nextPiece_smaller (List.cons_ne_nil c cs) hr

/-- `BufRead::read_line`, having read `line`: the bytes up to the end of the line or of the stream. -/
def readLineStd (r : BufReader) (line : List UInt8) : Except IoErrorKind (List UInt8) × BufReader :=
  match _ : r.nextPiece with
  | (.error .interrupted,r') => readLineStd r' line
  | (.error e,r') => (.error e,r')
  | (.ok ([],_),r') => (.ok line,r')
  | (.ok (c::cs,false),r') => readLineStd r' (line++c::cs)
  | (.ok (c::cs,true),r') => (.ok (line++c::cs),r')
termination_by r.inner.script.length+r.unread.length
decreasing_by
  · have hr : r.nextPiece = (.error .interrupted,r') := by assumption
    exact BufReader.nextPiece_interrupted_smaller hr
  · have hr : r.nextPiece = (.ok (c::cs,false),r') := by assumption
    exact BufReader.nextPiece_smaller (List.cons_ne_nil c cs) hr

/-- Nothing worse than an interruption happens to the reads of a socket. -/
def Calm (script : List Arrival) : Prop := ∀ e, .fail e ∈ script → e = .interrupted

/-- A line of text with its newline. -/
def IsLine (text : String) : Prop := ∃ body, utf8 text = body++[10] ∧ 10 ∉ body

section Read
variable {b : Budget} {r : BufReader} {text : String} {line body more : List UInt8}

/-- However the bytes come, a line is read to its end and no further. -/
theorem readLine_line (hb : b.InTime) (hcalm : Calm r.inner.script) (tick : ℕ) (line : List UInt8)
    (hunread : r.unread = body++10::more) (hbody : 10 ∉ body)
    (htext : utf8 text = line++body++[10]) :
    ∃ r' tick', readLine b r tick line = (.ok text,r',tick') ∧ r'.unread = more ∧
      Calm r'.inner.script := by
  fun_induction readLine b r tick line generalizing body with
  | case1 r tick line hexpired =>
    rw [hb.not_expired tick] at hexpired
    cases hexpired
  | case2 r tick line hexpired r₁ hr ih =>
    obtain ⟨hu,hs⟩ := BufReader.nextPiece_error hr
    rw [hs] at hcalm
    exact ih (fun e he => hcalm e (List.mem_cons_of_mem _ he)) (hu.trans hunread) hbody htext
  | case3 r tick line hexpired e r₁ hne hr =>
    obtain ⟨-,hs⟩ := BufReader.nextPiece_error hr
    exact absurd (hcalm e (hs ▸ List.mem_cons_self)) hne
  | case4 r tick line hexpired ended r₁ hr =>
    obtain ⟨-,-,hend,-,-⟩ := BufReader.nextPiece_ok hr
    rw [hend rfl] at hunread
    simp at hunread
  | case5 r tick line hexpired c cs r₁ hr ih =>
    obtain ⟨hpiece,hs,-,-,hopen⟩ := BufReader.nextPiece_ok hr
    obtain ⟨left,rfl,hleft⟩ := piece_before (hopen rfl) (hpiece.trans hunread)
    apply ih (fun e he => hcalm e (hs.subset he)) hleft
    · exact fun hm => hbody (List.mem_append_right _ hm)
    · simpa using htext
  | case6 r tick line hexpired c cs r₁ hr hlate =>
    rw [hb.not_expired (tick+1)] at hlate
    cases hlate
  | case7 r tick line hexpired c cs r₁ hr hlate text' htext' =>
    obtain ⟨hpiece,hs,-,hended,-⟩ := BufReader.nextPiece_ok hr
    obtain ⟨body',hbody',hnl⟩ := hended rfl
    rw [hbody',hunread,List.append_assoc] at hpiece
    obtain ⟨rfl,hmore⟩ := first_unique hnl hbody hpiece
    rw [ofUtf8_eq_some,hbody',← List.append_assoc,← htext] at htext'
    obtain rfl := utf8_injective htext'
    exact ⟨r₁,tick+2,rfl,hmore,fun e he => hcalm e (hs.subset he)⟩
  | case8 r tick line hexpired c cs r₁ hr hlate hnone =>
    obtain ⟨hpiece,-,-,hended,-⟩ := BufReader.nextPiece_ok hr
    obtain ⟨body',hbody',hnl⟩ := hended rfl
    rw [hbody',hunread,List.append_assoc] at hpiece
    obtain ⟨rfl,-⟩ := first_unique hnl hbody hpiece
    rw [hbody',← List.append_assoc,← htext,ofUtf8_utf8] at hnone
    cases hnone

theorem readLineStd_line (line : List UInt8) (hcalm : Calm r.inner.script) (hunread : r.unread = body++10::more)
    (hbody : 10 ∉ body) :
    ∃ r', readLineStd r line = (.ok (line++body++[10]),r') ∧ r'.unread = more ∧
      Calm r'.inner.script := by
  fun_induction readLineStd r line generalizing body with
  | case1 r line r₁ hr ih =>
    obtain ⟨hu,hs⟩ := BufReader.nextPiece_error hr
    rw [hs] at hcalm
    exact ih (fun e he => hcalm e (List.mem_cons_of_mem _ he)) (hu.trans hunread) hbody
  | case2 r line e r₁ hne hr =>
    obtain ⟨-,hs⟩ := BufReader.nextPiece_error hr
    exact absurd (hcalm e (hs ▸ List.mem_cons_self)) hne
  | case3 r line ended r₁ hr =>
    obtain ⟨-,-,hend,-,-⟩ := BufReader.nextPiece_ok hr
    rw [hend rfl] at hunread
    simp at hunread
  | case4 r line c cs r₁ hr ih =>
    obtain ⟨hpiece,hs,-,-,hopen⟩ := BufReader.nextPiece_ok hr
    obtain ⟨left,rfl,hleft⟩ := piece_before (hopen rfl) (hpiece.trans hunread)
    obtain ⟨r',hread,hrest⟩ := ih (fun e he => hcalm e (hs.subset he)) hleft
      (fun hm => hbody (List.mem_append_right _ hm))
    refine ⟨r',?_,hrest⟩
    rw [hread]
    simp
  | case5 r line c cs r₁ hr =>
    obtain ⟨hpiece,hs,-,hended,-⟩ := BufReader.nextPiece_ok hr
    obtain ⟨body',hbody',hnl⟩ := hended rfl
    rw [hbody',hunread,List.append_assoc] at hpiece
    obtain ⟨rfl,hmore⟩ := first_unique hnl hbody hpiece
    rw [hbody',← List.append_assoc]
    exact ⟨r₁,rfl,hmore,fun e he => hcalm e (hs.subset he)⟩

/-- At the end of the stream nothing is added to the line. -/
theorem readLineStd_end (line : List UInt8) (hcalm : Calm r.inner.script) (hunread : r.unread = []) :
    ∃ r', readLineStd r line = (.ok line,r') ∧ r'.unread = [] ∧ Calm r'.inner.script := by
  fun_induction readLineStd r line with
  | case1 r line r₁ hr ih =>
    obtain ⟨hu,hs⟩ := BufReader.nextPiece_error hr
    rw [hs] at hcalm
    exact ih (fun e he => hcalm e (List.mem_cons_of_mem _ he)) (hu.trans hunread)
  | case2 r line e r₁ hne hr =>
    obtain ⟨-,hs⟩ := BufReader.nextPiece_error hr
    exact absurd (hcalm e (hs ▸ List.mem_cons_self)) hne
  | case3 r line ended r₁ hr =>
    obtain ⟨hpiece,hs,-,-,-⟩ := BufReader.nextPiece_ok hr
    exact ⟨r₁,rfl,hpiece.trans hunread,fun e he => hcalm e (hs.subset he)⟩
  | case4 r line c cs r₁ hr =>
    obtain ⟨hpiece,-,-,-,-⟩ := BufReader.nextPiece_ok hr
    rw [hunread] at hpiece
    cases hpiece
  | case5 r line c cs r₁ hr =>
    obtain ⟨hpiece,-,-,-,-⟩ := BufReader.nextPiece_ok hr
    rw [hunread] at hpiece
    cases hpiece

end Read
end Provium.Qmp
