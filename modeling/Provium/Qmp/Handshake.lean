import Provium.Qmp.EventLog
import Provium.Qmp.Lines
import Provium.Qmp.Wire

/-! `Qmp::handshake` and the reader thread that takes over its `BufReader`. `serde_json` is the pair
of parameters `fromStr` and `toVec`. -/
namespace Provium.Qmp
open Lib Provium.Protocol Provium.Fixture

/-- Unicode's White_Space. -/
def isSpace (c : Char) : Bool :=
  let n := c.toNat
  (9 ≤ n && n ≤ 13) || n == 0x20 || n == 0x85 || n == 0xA0 || n == 0x1680 ||
    (0x2000 ≤ n && n ≤ 0x200A) || n == 0x2028 || n == 0x2029 || n == 0x202F || n == 0x205F ||
    n == 0x3000

/-- `str::trim`. -/
def trim (s : String) : String :=
  String.ofList ((s.toList.dropWhile isSpace).reverse.dropWhile isSpace).reverse

/-- What becomes of one `write` to the socket: it takes up to so many bytes, or it fails. -/
inductive WriteArrival where
  | take (count : ℕ)
  | fail (e : IoErrorKind)
  deriving DecidableEq, Repr

/-- The writer's end: what it has taken and how the next writes go. After the script a write takes
everything. -/
structure Outgoing where
  sent : List UInt8
  script : List WriteArrival

/-- `deadline::send` on the bytes of a line, at this reading of the clock. -/
def sendBytes (b : Budget) : List WriteArrival → List UInt8 → ℕ → List UInt8 →
    Except QmpError Unit × Outgoing × ℕ
  | script,[],tick,sent =>
    if b.expired tick then (.error (.timeout b.timeout),⟨sent,script⟩,tick+1)
    else (.ok (),⟨sent,script⟩,tick+1)
  | [],x::rest,tick,sent =>
    if b.expired tick then (.error (.timeout b.timeout),⟨sent,[]⟩,tick+1)
    else if b.expired (tick+1) then (.error (.timeout b.timeout),⟨sent++x::rest,[]⟩,tick+2)
    else (.ok (),⟨sent++x::rest,[]⟩,tick+2)
  | a::script,x::rest,tick,sent =>
    if b.expired tick then (.error (.timeout b.timeout),⟨sent,a::script⟩,tick+1)
    else
      match a with
      | .take 0 => (.error (.io .other),⟨sent,script⟩,tick+1)
      | .take count =>
        sendBytes b script ((x::rest).drop count) (tick+1) (sent++(x::rest).take count)
      | .fail .interrupted => sendBytes b script (x::rest) (tick+1) sent
      | .fail e => (.error (b.ioError e),⟨sent,script⟩,tick+1)

/-- The connection during its handshake, and how often the clock has been read. -/
structure Link where
  reader : BufReader
  out : Outgoing
  tick : ℕ

section Handshake
variable (fromStr : String → Except String Value) (toVec : Value → Except QmpError (List UInt8))
variable (b : Budget)

namespace Link

def readLine (l : Link) : Except QmpError (String × Link) :=
  match Qmp.readLine b l.reader l.tick [] with
  | (.ok text,reader,tick) => .ok (text,{ l with reader, tick })
  | (.error e,_,_) => .error e

def send (l : Link) (request : Value) : Except QmpError Link := do
  let line ← requestLine toVec request
  match sendBytes b l.out.script line l.tick l.out.sent with
  | (.ok (),out,tick) => .ok { l with out, tick }
  | (.error e,_,_) => .error e

def awaitSimpleReturn (l : Link) (command : String) : Except QmpError Link := do
  let (line,l) ← l.readLine b
  let v ← (fromStr line).mapError QmpError.decode
  match v.get "return",v.get "error" with
  | some _,_ => .ok l
  | none,some err => .error (.command command (((err.get "class").bind Value.asStr).getD "Unknown")
      (((err.get "desc").bind Value.asStr).getD ""))
  | none,none =>
    let got := trim line
    .error (.handshake s!"expected `return` after `{command}`, got: {got}")

end Link

def qmpCapabilities : Value := .object [("execute",.string "qmp_capabilities")]

def migrateSetCapabilities : Value :=
  .object [("execute",.string "migrate-set-capabilities"),
    ("arguments",.object [("capabilities",
      .array [.object [("capability",.string "events"),("state",.bool true)]])])]

/-- A connection and the buffered stream that its reader thread has. -/
structure Session where
  conn : Conn
  reader : BufReader

def handshake (l : Link) : Except QmpError Session := do
  let (greeting,l) ← l.readLine b
  let greetingValue ← (fromStr greeting).mapError QmpError.decode
  match greetingValue.get "QMP" with
  | none =>
    let got := trim greeting
    .error (.handshake s!"expected QMP greeting, got: {got}")
  | some _ =>
    let l ← l.send toVec b qmpCapabilities
    let l ← l.awaitSimpleReturn fromStr b "qmp_capabilities"
    let l ← l.send toVec b migrateSetCapabilities
    let l ← l.awaitSimpleReturn fromStr b "migrate-set-capabilities"
    .ok ⟨Conn.new,l.reader⟩

/-- What `handle_line` makes of a line before it looks at its fields. -/
def lineValue (text : String) : Option Value :=
  if trim text = "" then none else (fromStr (trim text)).toOption

/-- The event in a line. -/
def lineEvent (text : String) : Option Event := (lineValue fromStr text).bind arrival

inductive SessionAction where
  /-- The reader thread's next `read_line`, with what it makes of the line. -/
  | readLine
  /-- Any other step of the connection. -/
  | other (a : Action)

/-- What the reader thread does with what `read_line` returned. -/
def received : Except IoErrorKind (List UInt8) → Action
  | .error _ => .readError
  | .ok [] => .readEnd
  | .ok (c::cs) =>
    match ofUtf8 (c::cs) with
    | some text => .line (lineValue fromStr text)
    | none => .readError

/-- The reader thread alone feeds lines to the connection. -/
def Session.step (s : Session) : SessionAction → Option (Session × Obs)
  | .readLine =>
    let q := readLineStd s.reader []
    (s.conn.step (received fromStr q.1)).map fun p => (⟨p.1,q.2⟩,p.2)
  | .other (.line _) | .other .readEnd | .other .readError => none
  | .other a => (s.conn.step a).map fun p => ({ s with conn := p.1 },p.2)

def sessionMachine : Machine Session SessionAction Obs := ⟨Session.step fromStr⟩

/-- The server's side of a connection, line by line: what it says of its own accord before each of
the two replies, and all that it says afterwards. -/
structure Server where
  greeting : String
  before : List String
  ready : String
  between : List String
  enabled : String
  after : List String

def Server.bytes (v : Server) : List UInt8 :=
  utf8 v.greeting++(v.before.flatMap utf8++(utf8 v.ready++(v.between.flatMap utf8++
    (utf8 v.enabled++v.after.flatMap utf8))))

/-- A line that says a value of some kind. -/
def Says (kind : Value → Prop) (text : String) : Prop :=
  IsLine text ∧ ∃ v, fromStr text = .ok v ∧ kind v

def Value.Greets (v : Value) : Prop := ∃ x, v.get "QMP" = some x

def Value.Returns (v : Value) : Prop := ∃ x, v.get "return" = some x

def Value.IsEvent (v : Value) : Prop := (∃ x, v.get "event" = some x) ∧ v.get "return" = none

/-- A greeting, a return for each command, and events anywhere between and behind. -/
structure Server.Legal (v : Server) : Prop where
  greeting : Says fromStr Value.Greets v.greeting
  before : ∀ text ∈ v.before, Says fromStr Value.IsEvent text
  ready : Says fromStr Value.Returns v.ready
  between : ∀ text ∈ v.between, Says fromStr Value.IsEvent text
  enabled : Says fromStr Value.Returns v.enabled
  after : ∀ text ∈ v.after, IsLine text

/-- Each of these lines has been read, and then its event is in the log, or it can still be read. -/
def Session.Keeps (lines : List String) (s : Session) : Prop :=
  ∃ past left, lines = past++left ∧ s.reader.unread = left.flatMap utf8 ∧
    s.conn.log.events = past.filterMap (lineEvent fromStr)

/-- The handshake succeeds, and whatever happens afterwards, no event is lost. -/
def Tolerates (l : Link) (lines : List String) : Prop :=
  ∃ s, handshake fromStr toVec b l = .ok s ∧
    ∀ as t os, (sessionMachine fromStr).run s as = some (t,os) → t.Keeps fromStr lines

end Handshake

section Bind
universe u
variable {ε : Type*} {α β : Type u}

theorem ok_bind (a : α) (f : α → Except ε β) : (Except.ok a >>= f) = f a := rfl

theorem error_bind (e : ε) (f : α → Except ε β) : (Except.error e >>= f) = .error e := rfl

end Bind

/-- Every write of a socket takes something, or is interrupted. -/
def Accepting (script : List WriteArrival) : Prop :=
  ∀ a ∈ script, a ≠ .take 0 ∧ ∀ e, a = .fail e → e = .interrupted

theorem sendBytes_ok {b : Budget} (hb : b.InTime) {script : List WriteArrival}
    (hw : Accepting script) (line : List UInt8) (tick : ℕ) (sent : List UInt8) :
    ∃ out tick', sendBytes b script line tick sent = (.ok (),out,tick') ∧ out.sent = sent++line ∧
      Accepting out.script := by
  have hb' (n : ℕ) : b.expired n = false := hb.not_expired n
  induction script generalizing line tick sent with
  | nil =>
    cases line with
    | nil => exact ⟨⟨sent,[]⟩,tick+1,by simp [sendBytes,hb'],by simp,hw⟩
    | cons x rest => exact ⟨⟨sent++x::rest,[]⟩,tick+2,by simp [sendBytes,hb'],rfl,hw⟩
  | cons a script ih =>
    have hrest : Accepting script := fun a' ha' => hw a' (List.mem_cons_of_mem a ha')
    obtain ⟨hsome,hcalm⟩ := hw a List.mem_cons_self
    cases line with
    | nil => exact ⟨⟨sent,a::script⟩,tick+1,by simp [sendBytes,hb'],by simp,hw⟩
    | cons x rest =>
      cases a with
      | take count =>
        cases count with
        | zero => exact absurd rfl hsome
        | succ count =>
          obtain ⟨out,tick',hout,hsent,hscript⟩ := ih hrest ((x::rest).drop (count+1)) (tick+1)
            (sent++(x::rest).take (count+1))
          refine ⟨out,tick',?_,?_,hscript⟩
          · simpa [sendBytes,hb'] using hout
          · rw [hsent,List.append_assoc,List.take_append_drop]
      | fail e =>
        obtain rfl := hcalm e rfl
        obtain ⟨out,tick',hout,hsent,hscript⟩ := ih hrest (x::rest) (tick+1) sent
        refine ⟨out,tick',?_,hsent,hscript⟩
        simpa [sendBytes,hb'] using hout

/-- What the handshake has before it: these bytes to read, and a socket that works. -/
structure Link.Facing (l : Link) (bytes : List UInt8) : Prop where
  unread : l.reader.unread = bytes
  reads : Calm l.reader.inner.script
  writes : Accepting l.out.script

section Handshake
variable {fromStr : String → Except String Value} {toVec : Value → Except QmpError (List UInt8)}
variable {b : Budget} {l : Link} {text : String} {more : List UInt8}

namespace Link.Facing

theorem readLine (hb : b.InTime) (htext : IsLine text) (h : l.Facing (utf8 text++more)) :
    ∃ l', l.readLine b = .ok (text,l') ∧ l'.Facing more := by
  obtain ⟨body,hbody,hnl⟩ := htext
  have hunread := h.unread
  rw [hbody,List.append_assoc] at hunread
  obtain ⟨reader,tick,hread,hmore,hcalm⟩ :=
    readLine_line hb h.reads l.tick [] hunread hnl hbody
  refine ⟨{ l with reader, tick },?_,hmore,hcalm,h.writes⟩
  rw [Link.readLine,hread]

theorem send (hb : b.InTime) {request : Value} {json : List UInt8} (hjson : toVec request = .ok json)
    {bytes : List UInt8} (h : l.Facing bytes) :
    ∃ l', l.send toVec b request = .ok l' ∧ l'.Facing bytes := by
  have hline : requestLine toVec request = .ok (json++[10]) := by
    rw [requestLine,hjson]
    rfl
  obtain ⟨out,tick,hout,-,hscript⟩ := sendBytes_ok hb h.writes (json++[10]) l.tick l.out.sent
  refine ⟨{ l with out, tick },?_,h.unread,h.reads,hscript⟩
  simp only [Link.send,hline,ok_bind,hout]

/-- A reply is taken for what it is. -/
theorem await_return (hb : b.InTime) (htext : Says fromStr Value.Returns text) (command : String)
    (h : l.Facing (utf8 text++more)) :
    ∃ l', l.awaitSimpleReturn fromStr b command = .ok l' ∧ l'.Facing more := by
  obtain ⟨hline,v,hv,x,hx⟩ := htext
  obtain ⟨l',hread,hfacing⟩ := h.readLine hb hline
  refine ⟨l',?_,hfacing⟩
  simp only [Link.awaitSimpleReturn,hread,ok_bind,hv,Except.mapError,hx]

/-- An event is taken for a reply, and there is no `return` in it. -/
theorem await_event (hb : b.InTime) (htext : Says fromStr Value.IsEvent text) (command : String)
    (h : l.Facing (utf8 text++more)) :
    ∃ e, l.awaitSimpleReturn fromStr b command = .error e := by
  obtain ⟨hline,v,hv,-,hnone⟩ := htext
  obtain ⟨l',hread,-⟩ := h.readLine hb hline
  simp only [Link.awaitSimpleReturn,hread,ok_bind,hv,Except.mapError,hnone]
  cases v.get "error" with
  | none => exact ⟨_,rfl⟩
  | some err => exact ⟨_,rfl⟩

/-- Waiting for a reply that events come before fails at the first of them. -/
theorem await_early (hb : b.InTime) {early : List String} (hne : early ≠ [])
    (hearly : ∀ text ∈ early, Says fromStr Value.IsEvent text) (command : String)
    (h : l.Facing (early.flatMap utf8++more)) :
    ∃ e, l.awaitSimpleReturn fromStr b command = .error e := by
  obtain ⟨first,rest,rfl⟩ := List.exists_cons_of_ne_nil hne
  rw [List.flatMap_cons,List.append_assoc] at h
  exact h.await_event hb (hearly first List.mem_cons_self) command

end Link.Facing
end Handshake

section Run
variable {fromStr : String → Except String Value} {toVec : Value → Except QmpError (List UInt8)}
variable {b : Budget} {l : Link} {v : Server} {lines : List String}

/-- The commands of the handshake can be written down. -/
def Serializes (toVec : Value → Except QmpError (List UInt8)) : Prop :=
  ∀ request, request = qmpCapabilities ∨ request = migrateSetCapabilities →
    ∃ json, toVec request = .ok json

/-- The greeting is read and the first command sent, whatever follows. -/
theorem handshake_greeted (hb : b.InTime) (hvec : Serializes toVec) {more : List UInt8}
    (hg : Says fromStr Value.Greets v.greeting) (h : l.Facing (utf8 v.greeting++more)) :
    ∃ l' : Link, l'.Facing more ∧ handshake fromStr toVec b l = (do
      let l ← l'.awaitSimpleReturn fromStr b "qmp_capabilities"
      let l ← l.send toVec b migrateSetCapabilities
      let l ← l.awaitSimpleReturn fromStr b "migrate-set-capabilities"
      .ok ⟨Conn.new,l.reader⟩) := by
  obtain ⟨hline,value,hvalue,x,hx⟩ := hg
  obtain ⟨l₁,hread,h₁⟩ := h.readLine hb hline
  obtain ⟨json,hjson⟩ := hvec qmpCapabilities (.inl rfl)
  obtain ⟨l₂,hsend,h₂⟩ := h₁.send hb hjson
  refine ⟨l₂,h₂,?_⟩
  simp only [handshake,hread,ok_bind,hvalue,Except.mapError,hx,hsend]

/-- With no event before the replies the handshake succeeds, and the reader thread gets all the bytes
behind the last of them. -/
theorem handshake_clean (hb : b.InTime) (hvec : Serializes toVec) (hv : v.Legal fromStr)
    (hbefore : v.before = []) (hbetween : v.between = []) (h : l.Facing v.bytes) :
    ∃ s, handshake fromStr toVec b l = .ok s ∧ s.conn = Conn.new ∧
      s.reader.unread = v.after.flatMap utf8 ∧ Calm s.reader.inner.script := by
  rw [Server.bytes,hbefore,hbetween] at h
  obtain ⟨l₁,h₁,heq⟩ := handshake_greeted hb hvec hv.greeting h
  rw [List.flatMap_nil,List.nil_append] at h₁
  obtain ⟨l₂,hready,h₂⟩ := h₁.await_return hb hv.ready "qmp_capabilities"
  rw [List.nil_append] at h₂
  obtain ⟨json,hjson⟩ := hvec migrateSetCapabilities (.inr rfl)
  obtain ⟨l₃,hsend,h₃⟩ := h₂.send hb hjson
  obtain ⟨l₄,henabled,h₄⟩ := h₃.await_return hb hv.enabled "migrate-set-capabilities"
  refine ⟨⟨Conn.new,l₄.reader⟩,?_,rfl,h₄.unread,h₄.reads⟩
  rw [heq]
  simp only [hready,ok_bind,hsend,henabled]

/-- An event before one of the replies ends the handshake. -/
theorem handshake_torn (hb : b.InTime) (hvec : Serializes toVec) (hv : v.Legal fromStr)
    (hearly : v.before ≠ [] ∨ v.between ≠ []) (h : l.Facing v.bytes) :
    ∃ e, handshake fromStr toVec b l = .error e := by
  obtain ⟨l₁,h₁,heq⟩ := handshake_greeted hb hvec hv.greeting h
  rw [heq]
  by_cases hbefore : v.before = []
  · rw [hbefore,List.flatMap_nil,List.nil_append] at h₁
    obtain ⟨l₂,hready,h₂⟩ := h₁.await_return hb hv.ready "qmp_capabilities"
    obtain ⟨json,hjson⟩ := hvec migrateSetCapabilities (.inr rfl)
    obtain ⟨l₃,hsend,h₃⟩ := h₂.send hb hjson
    have hbetween := hearly.resolve_left (fun hc => hc hbefore)
    obtain ⟨e,he⟩ := h₃.await_early hb hbetween hv.between "migrate-set-capabilities"
    exact ⟨e,by simp only [hready,ok_bind,hsend,he,error_bind]⟩
  · obtain ⟨e,he⟩ := h₁.await_early hb hbefore hv.before "qmp_capabilities"
    exact ⟨e,by simp only [he,error_bind]⟩

/-! ### The reader thread -/

/-- The lines behind the handshake, as far as they have been read. -/
structure Session.Reads (fromStr : String → Except String Value) (lines : List String) (s : Session) :
    Prop where
  keeps : s.Keeps fromStr lines
  calm : Calm s.reader.inner.script

theorem received_line {text : String} (hline : IsLine text) :
    received fromStr (.ok (utf8 text)) = .line (lineValue fromStr text) := by
  obtain ⟨body,hbody,-⟩ := hline
  have hne : utf8 text ≠ [] := by
    rw [hbody]
    exact List.append_ne_nil_of_right_ne_nil body (List.cons_ne_nil 10 [])
  obtain ⟨c,cs,hcs⟩ := List.exists_cons_of_ne_nil hne
  rw [hcs,received,← hcs,ofUtf8_utf8]

theorem arrival_line (text : String) :
    (Action.line (lineValue fromStr text)).arrival = lineEvent fromStr text := by
  unfold lineEvent
  cases lineValue fromStr text with
  | none => rfl
  | some value => rfl

theorem Session.Reads.readLine {s s' : Session} {o : Obs} (hlines : ∀ text ∈ lines, IsLine text)
    (h : s.Reads fromStr lines) (hstep : s.step fromStr .readLine = some (s',o)) :
    s'.Reads fromStr lines := by
  obtain ⟨past,left,rfl,hunread,hlog⟩ := h.keeps
  simp only [Session.step,Option.map_eq_some_iff,Prod.mk.injEq] at hstep
  obtain ⟨⟨c,o'⟩,hconn,rfl,-⟩ := hstep
  have hevents := Conn.events_step hconn
  cases left with
  | nil =>
    obtain ⟨r,hread,hrest,hcalm⟩ := readLineStd_end [] h.calm hunread
    rw [hread] at hevents ⊢
    have hnone : (received fromStr (.ok [])).arrival = none := rfl
    rw [hnone,Option.toList_none,List.append_nil] at hevents
    exact ⟨⟨past,[],rfl,hrest,hevents.trans hlog⟩,hcalm⟩
  | cons text left =>
    have hline : IsLine text := hlines text (by simp)
    obtain ⟨body,hbody,hnl⟩ := hline
    rw [List.flatMap_cons,hbody,List.append_assoc] at hunread
    obtain ⟨r,hread,hrest,hcalm⟩ := readLineStd_line [] h.calm hunread hnl
    rw [List.nil_append,← hbody] at hread
    rw [hread,received_line ⟨body,hbody,hnl⟩,arrival_line,hlog] at hevents
    rw [hread]
    refine ⟨⟨past++[text],left,by simp,hrest,hevents.trans ?_⟩,hcalm⟩
    rw [List.filterMap_append]
    cases hevent : lineEvent fromStr text with
    | none => simp [hevent]
    | some event => simp [hevent]

theorem Session.Reads.step {s s' : Session} {a : SessionAction} {o : Obs}
    (hlines : ∀ text ∈ lines, IsLine text) (h : s.Reads fromStr lines)
    (hstep : s.step fromStr a = some (s',o)) : s'.Reads fromStr lines := by
  cases a with
  | readLine => exact h.readLine hlines hstep
  | other a =>
    obtain ⟨past,left,hsplit,hunread,hlog⟩ := h.keeps
    have hother : ∀ s₁ : Conn, ∀ o₁, s.conn.step a = some (s₁,o₁) → a.arrival = none →
        Session.Reads fromStr lines { s with conn := s₁ } := by
      intro s₁ o₁ hconn hnone
      have hevents := Conn.events_step hconn
      rw [hnone,Option.toList_none,List.append_nil] at hevents
      exact ⟨⟨past,left,hsplit,hunread,hevents.trans hlog⟩,h.calm⟩
    cases a
    case line value => cases hstep
    case readEnd => cases hstep
    case readError => cases hstep
    all_goals
      simp only [Session.step,Option.map_eq_some_iff,Prod.mk.injEq] at hstep
      obtain ⟨⟨s₁,o₁⟩,hconn,rfl,-⟩ := hstep
      exact hother s₁ o₁ hconn rfl

/-- A server that says nothing between the replies loses no event, whatever else happens. -/
theorem tolerates_clean (hb : b.InTime) (hvec : Serializes toVec) (hv : v.Legal fromStr)
    (hbefore : v.before = []) (hbetween : v.between = []) (h : l.Facing v.bytes) :
    Tolerates fromStr toVec b l v.after := by
  obtain ⟨s,hs,hnew,hunread,hcalm⟩ := handshake_clean hb hvec hv hbefore hbetween h
  have hstart : s.Reads fromStr v.after :=
    ⟨⟨[],v.after,rfl,hunread,by rw [hnew]; rfl⟩,hcalm⟩
  refine ⟨s,hs,fun as t os hrun => ?_⟩
  have hend : t.Reads fromStr v.after := (sessionMachine fromStr).run_invariant
    (fun _ _ _ _ hreads hstep => hreads.step hv.after hstep) hstart hrun
  exact hend.keeps

theorem not_tolerates_early (hb : b.InTime) (hvec : Serializes toVec) (hv : v.Legal fromStr)
    (hearly : v.before ≠ [] ∨ v.between ≠ []) (h : l.Facing v.bytes) :
    ¬Tolerates fromStr toVec b l v.after := by
  rintro ⟨s,hs,-⟩
  obtain ⟨e,he⟩ := handshake_torn hb hvec hv hearly h
  rw [he] at hs
  cases hs

/-- What the client starts from: nothing read, nothing written, the whole stream to come. -/
def Link.start (v : Server) (reads : List Arrival) (writes : List WriteArrival) : Link :=
  ⟨⟨⟨v.bytes,reads⟩,[]⟩,⟨[],writes⟩,0⟩

/-- Against a server that keeps to the protocol, however its bytes come, the handshake succeeds and
no event behind it is lost exactly if no event comes before the last reply. -/
theorem handshake_tolerates_iff (hb : b.InTime) (hvec : Serializes toVec) (hv : v.Legal fromStr)
    (reads : List Arrival) (hreads : Calm reads) (writes : List WriteArrival)
    (hwrites : Accepting writes) :
    Tolerates fromStr toVec b (Link.start v reads writes) v.after ↔ v.before = [] ∧ v.between = [] := by
  have hfacing : (Link.start v reads writes).Facing v.bytes := ⟨rfl,hreads,hwrites⟩
  constructor
  · intro h
    by_contra hearly
    exact not_tolerates_early hb hvec hv (not_and_or.mp hearly) hfacing h
  · rintro ⟨hbefore,hbetween⟩
    exact tolerates_clean hb hvec hv hbefore hbetween hfacing

end Run

section Example

def greetingText : String := "\x7b\"QMP\": \x7b\x7d\x7d\n"

def returnText : String := "\x7b\"return\": \x7b\x7d\x7d\n"

def eventText : String :=
  "\x7b\"event\": \"RESUME\", \"timestamp\": \x7b\"seconds\": 1, \"microseconds\": 0\x7d\x7d\n"

/-- What `serde_json` makes of these three lines. -/
def plainJson (s : String) : Except String Value :=
  if s = greetingText then .ok (.object [("QMP",.object [])])
  else if s = returnText then .ok (.object [("return",.object [])])
  else if s = eventText then .ok (.object [("event",.string "RESUME"),
    ("timestamp",.object [("seconds",.integer 1),("microseconds",.integer 0)])])
  else .error "expected value at line 1 column 1"

/-- A server that says so between and behind its two replies. -/
def server (between after : List String) : Server :=
  ⟨greetingText,[],returnText,between,returnText,after⟩

theorem isLine_eventText : IsLine eventText :=
  ⟨(utf8 eventText).dropLast,by decide +kernel,by decide +kernel⟩

theorem legal_server {between after : List String} (hbetween : ∀ text ∈ between, text = eventText)
    (hafter : ∀ text ∈ after, text = eventText) : (server between after).Legal plainJson := by
  have hreturn : Says plainJson Value.Returns returnText :=
    ⟨⟨(utf8 returnText).dropLast,by decide +kernel,by decide +kernel⟩,_,rfl,_,rfl⟩
  have hgreeting : Says plainJson Value.Greets greetingText :=
    ⟨⟨(utf8 greetingText).dropLast,by decide +kernel,by decide +kernel⟩,_,rfl,_,rfl⟩
  refine ⟨hgreeting,fun text hm => absurd hm List.not_mem_nil,hreturn,fun text hm => ?_,hreturn,fun text hm => ?_⟩
  · rw [hbetween text hm]
    exact ⟨isLine_eventText,_,rfl,⟨_,rfl⟩,rfl⟩
  · rw [hafter text hm]
    exact isLine_eventText

/-- Half a minute, of which a second has gone. -/
def inTime : Budget := ⟨30,fun _ => 1⟩

theorem inTime_inTime : inTime.InTime := fun _ => Nat.one_lt_succ_succ 28

/-- What `serde_json` makes of the two commands. -/
def plainVec (request : Value) : Except QmpError (List UInt8) :=
  if (request.get "execute").bind Value.asStr = some "qmp_capabilities" then
    .ok (utf8 "\x7b\"execute\":\"qmp_capabilities\"\x7d")
  else if (request.get "execute").bind Value.asStr = some "migrate-set-capabilities" then
    .ok (utf8 ("\x7b\"arguments\":\x7b\"capabilities\":[\x7b\"capability\":\"events\",\"state\":true\x7d]\x7d,"++
      "\"execute\":\"migrate-set-capabilities\"\x7d"))
  else .error (.decode "unexpected")

theorem serializes_plainVec : Serializes plainVec := by
  rintro request (rfl | rfl)
  · exact ⟨_,rfl⟩
  · exact ⟨_,rfl⟩

/-- Events behind the last reply, in pieces of a few bytes. -/
theorem handshake_tolerates_iff_quiet :
    Tolerates plainJson plainVec inTime
      (Link.start (server [] [eventText]) [.chunk 3,.fail .interrupted,.chunk 40] [.take 1])
      [eventText] :=
  (handshake_tolerates_iff (v := server [] [eventText]) inTime_inTime serializes_plainVec
    (legal_server (fun _ h => absurd h List.not_mem_nil) fun _ h => List.mem_singleton.mp h)
    [.chunk 3,.fail .interrupted,.chunk 40]
    (fun e he => by simpa using he) [.take 1]
    (fun a ha => by rw [List.mem_singleton.mp ha]; exact ⟨by decide,fun e he => by cases he⟩)).mpr
    ⟨rfl,rfl⟩

/-- A guest that resumes between the two replies. -/
theorem handshake_refuses_event :
    (server [eventText] []).Legal plainJson ∧
    ¬Tolerates plainJson plainVec inTime (Link.start (server [eventText] []) [] []) [] := by
  have hlegal : (server [eventText] []).Legal plainJson :=
    legal_server (fun _ h => List.mem_singleton.mp h) fun _ h => absurd h List.not_mem_nil
  refine ⟨hlegal,not_tolerates_early inTime_inTime serializes_plainVec hlegal (.inr ?_) ⟨rfl,?_,?_⟩⟩
  · exact List.cons_ne_nil _ _
  · exact fun e he => absurd he List.not_mem_nil
  · exact fun a ha => absurd ha List.not_mem_nil

end Example

end Provium.Qmp
