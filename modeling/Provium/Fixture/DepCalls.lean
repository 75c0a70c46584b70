import Provium.Lib.LuaLexer
import Provium.Fixture.CallTexts

/-! The calls by which a fixture names its files, as Lua reads the source, and what the scan of it makes
of them. The scan knows neither comments nor escapes, and takes text for options. -/
namespace Provium.Fixture
open Lib LuaLexer

/-- A bracket, or a word that opens a block. -/
def opens : Piece → Bool
  | .symbol t => t ∈ [[40],[91],[123]]
  | .name t => t ∈ ["function","do","if","repeat"].map utf8
  | _ => false

def closes : Piece → Bool
  | .symbol t => t ∈ [[41],[93],[125]]
  | .name t => t ∈ ["end","until"].map utf8
  | _ => false

/-- The parts of a list in brackets, from within so many more of them, and what follows it. -/
def parts (separator : Piece → Bool) : ℕ → List Piece → List Piece → Option (List (List Piece) × List Piece)
  | _,_,[] => none
  | 0,part,p::ps =>
    if closes p then some ([part],ps)
    else if separator p then (parts separator 0 [] ps).map fun r => (part::r.1,r.2)
    else parts separator (if opens p then 1 else 0) (part++[p]) ps
  | d+1,part,p::ps =>
    parts separator (if opens p then d+2 else if closes p then d else d+1) (part++[p]) ps

/-- A call of a method with a short string in quotation marks, and what stands around its pieces. -/
structure MethodCall where
  before : List Piece
  colonGap : List Piece
  name : String
  openGap : List Piece
  argGap : List Piece
  mark : UInt8
  raw : Bytes
  value : Bytes
  after : List Piece

namespace MethodCall
variable (c : MethodCall)

/-- What stands in front of the name. -/
def head : List Piece := c.before++.symbol [58]::c.colonGap

/-- What stands behind the parenthesis. -/
def arguments : List Piece := c.argGap++.short c.mark c.raw c.value::c.after

def pieces : List Piece := c.head++.name (utf8 c.name)::(c.openGap++.symbol [40]::c.arguments)

/-- Where the name stands. -/
def pos : ℕ := (flatten c.head).length

/-- The arguments, of the first of them what follows the string. -/
def args : Option (List (List Piece) × List Piece) :=
  parts (· == .symbol [44]) 0 [] (c.after.filter fun p => !p.trivia)

/-- The call is one of the source, and its first argument is the string. -/
structure In (source : String) : Prop where
  lexed : lex (utf8 source) = some c.pieces
  gaps : ∀ p ∈ c.colonGap++(c.openGap++c.argGap), p.trivia = true
  literal : ∃ args rest, c.args = some ([]::args,rest)

/-- The field `auto_dep = false`. -/
def autoDepFalse : List Piece := [.name (utf8 "auto_dep"),.symbol [61],.name (utf8 "false")]

/-- The third argument of `push_file` is a table that has the field. -/
def optedOut : Bool :=
  c.name == "push_file" &&
    match c.args with
    | some (_::_::(.symbol [123]::fields)::_,_) =>
      match parts (fun p => p == .symbol [44] || p == .symbol [59]) 0 [] fields with
      | some (fs,[]) => autoDepFalse ∈ fs
      | _ => false
    | _ => false

/-- What the scan notes for the call, at its place, is the value of the string. -/
def Reported (source : String) : Prop :=
  ∃ name, utf8 name = c.value ∧ (c.pos,c.value) ∈
    scanPushFileCalls (utf8 source)++scanQuotedArgWithPos (utf8 source) "depends_on_file"

/-- Nothing but white space stands in front of the parenthesis and of the string, and nothing in it is
escaped. -/
structure Plain : Prop where
  spaces : ∀ p ∈ c.openGap++c.argGap, p.isSpace = true
  unescaped : 92 ∉ c.raw

/-- In the arguments of a `push_file` the parentheses and the quotation marks close, whatever comments and
long brackets there are, and nothing looks like the option; and the call does not stand within another that is
passed over. -/
structure Seen (source : String) : Prop where
  plain : c.Plain
  closed : c.name = "push_file" → ∃ args rest, flatten c.arguments = args++41::rest ∧ Balanced args ∧
    ¬LooksOptedOut args
  reached : c.name = "push_file" → Reached (utf8 source) c.pos

end MethodCall

section Gaps
variable {gap rest : List Piece} {n : ℕ} {s : Bytes}

theorem mem_spaces {b : UInt8} (h : space b) : [b] ∈ spaces := by
  have hall : ∀ b : UInt8, space b = true → [b] ∈ spaces := by decide +kernel
  exact hall b h

theorem wordByte_space {b : UInt8} (h : space b) : wordByte b = false := by
  have hall : ∀ b : UInt8, space b = true → wordByte b = false := by decide +kernel
  exact hall b h

/-- A gap is of white space, or there is a comment behind the white space. -/
theorem gap_cases (hgap : ∀ p ∈ gap, p.trivia = true) (hread : ∀ p ∈ gap, ∃ c s t, readPiece c s = some (p,t)) :
    ((∀ p ∈ gap, p.isSpace = true) ∧ ∃ w : List Bytes, (∀ x ∈ w, x ∈ spaces) ∧ flatten gap = w.flatten) ∨
      (¬∀ p ∈ gap, p.isSpace = true) ∧
        ∃ (w : List Bytes) (u : Bytes), (∀ x ∈ w, x ∈ spaces) ∧ flatten gap = w.flatten++45::u := by
  induction gap with
  | nil => exact .inl ⟨by simp,[],by simp,rfl⟩
  | cons p gap ih =>
    obtain ⟨hp,hrest⟩ := List.forall_mem_cons.mp hgap
    obtain ⟨⟨c,s,t,hr⟩,hread'⟩ := List.forall_mem_cons.mp hread
    obtain ⟨rfl,hc⟩ | ⟨-,hno,⟨u,hu⟩,-⟩ | ⟨_,e,-,-,rfl⟩ | ⟨hno,-⟩ := readPiece_cases hr
    · obtain ⟨hall,w,hw,hflat⟩ | ⟨hnot,w,u,hw,hflat⟩ := ih hrest hread'
      · refine .inl ⟨List.forall_mem_cons.mpr ⟨rfl,hall⟩,[c]::w,List.forall_mem_cons.mpr ⟨mem_spaces hc,hw⟩,?_⟩
        rw [flatten_cons,hflat]
        rfl
      · refine .inr ⟨fun h => hnot (List.forall_mem_cons.mp h).2,[c]::w,u,
          List.forall_mem_cons.mpr ⟨mem_spaces hc,hw⟩,?_⟩
        rw [flatten_cons,hflat]
        rfl
    · refine .inr ⟨fun h => ?_,[],45::(u++flatten gap),by simp,?_⟩
      · rw [(List.forall_mem_cons.mp h).1] at hno
        cases hno
      · rw [flatten_cons,hu]
        rfl
    · cases hp
    · rw [hno] at hp
      cases hp

/-- A call is opened behind white space only. -/
theorem openCall_gap (hgap : ∀ p ∈ gap, p.trivia = true) (hread : ∀ p ∈ gap, ∃ c s t, readPiece c s = some (p,t))
    (body : Bytes) : (∀ p ∈ gap, p.isSpace = true) ∧ openCall (flatten gap++40::body) = some body ∨
      (¬∀ p ∈ gap, p.isSpace = true) ∧ openCall (flatten gap++40::body) = none := by
  obtain ⟨hall,w,hw,hflat⟩ | ⟨hnot,w,u,hw,hflat⟩ := gap_cases hgap hread
  · refine .inl ⟨hall,?_⟩
    rw [hflat,openCall_flatten hw]
  · refine .inr ⟨hnot,?_⟩
    rw [hflat,List.append_assoc,List.cons_append,openCall,trimStart_flatten hw (by decide) (by decide)]
    rfl

/-- So is a string. -/
theorem openQuote_gap (hgap : ∀ p ∈ gap, p.trivia = true) (hread : ∀ p ∈ gap, ∃ c s t, readPiece c s = some (p,t))
    {q : UInt8} (hq : quote q) (body : Bytes) :
    (∀ p ∈ gap, p.isSpace = true) ∧ openQuote (flatten gap++q::body) = some (q,body) ∨
      (¬∀ p ∈ gap, p.isSpace = true) ∧ openQuote (flatten gap++q::body) = none := by
  obtain ⟨hall,w,hw,hflat⟩ | ⟨hnot,w,u,hw,hflat⟩ := gap_cases hgap hread
  · refine .inl ⟨hall,?_⟩
    rw [hflat,openQuote_flatten hw hq]
  · refine .inr ⟨hnot,?_⟩
    rw [hflat,List.append_assoc,List.cons_append,openQuote,trimStart_flatten hw (by decide) (by decide)]
    rfl

end Gaps

namespace MethodCall.In
variable {c : MethodCall} {source : String}

/-- The text around the name. -/
theorem text (h : c.In source) : utf8 source =
    flatten c.head++(utf8 c.name++(flatten c.openGap++40::flatten c.arguments)) := by
  rw [readPieces_text h.lexed,pieces,flatten_append,flatten_cons,flatten_append,flatten_cons]
  rfl

theorem read (h : c.In source) {p : Piece} (hp : p ∈ c.pieces) : ∃ b s t, readPiece b s = some (p,t) :=
  readPieces_mem h.lexed hp

/-- The string has been read as one. -/
theorem string (h : c.In source) : quote c.mark ∧ ∃ n rest, readShort c.mark n (c.raw++c.mark::rest) =
    some ⟨c.raw,c.value,rest⟩ := by
  obtain ⟨b,s,t,hr⟩ := h.read (p := .short c.mark c.raw c.value) (by simp [pieces,arguments])
  obtain ⟨heq,-⟩ | ⟨htrivia,-⟩ | ⟨n,e,hq,he,heq⟩ | ⟨-,hno⟩ := readPiece_cases hr
  · cases heq
  · cases htrivia
  · obtain ⟨hmark,hraw,hvalue⟩ := Piece.short.inj heq
    obtain ⟨written,value,rest⟩ := e
    dsimp only at hraw hvalue
    subst hmark hraw hvalue
    refine ⟨hq,n,rest,?_⟩
    rw [← (readShort_spec hq he).1]
    exact he
  · exact absurd rfl (hno _ _ _)

/-- What is noted is what stands in front of the next mark: the value, where nothing is escaped. -/
theorem upToQuote_iff (h : c.In source) (rest : Bytes) :
    upToQuote c.mark (c.raw++c.mark::rest) = some c.value ↔ 92 ∉ c.raw := by
  obtain ⟨hq,n,rest',hread⟩ := h.string
  obtain ⟨-,hplain,-,hshort,hin⟩ := readShort_spec hq hread
  dsimp only at hplain hshort hin
  constructor
  · intro heq hescaped
    by_cases hmem : c.mark ∈ c.raw
    · -- the mark that ends it is one that is escaped
      rw [upToQuote,if_pos (by simp)] at heq
      have hv := hin hmem
      rw [← Option.some.inj heq] at hv
      have hne := List.mem_takeWhile_imp hv
      simp at hne
    · rw [upToQuote_append hmem] at heq
      have hlt := hshort hescaped
      rw [← Option.some.inj heq] at hlt
      exact Nat.lt_irrefl _ hlt
  · intro hno
    obtain ⟨hv,hnot⟩ := hplain hno
    rw [upToQuote_append hnot,hv]

/-- No word goes on at the name. -/
theorem word (h : c.In source) (hname : ∀ b ∈ (utf8 c.name).head?, wordByte b) (hne : utf8 c.name ≠ []) :
    ¬(flatten c.head).getLast?.any wordByte := by
  obtain ⟨xs,p,hxs,hp⟩ : ∃ xs p, c.head = xs++[p] ∧ (p = .symbol [58] ∨ p.trivia = true) := by
    obtain hnil | ⟨ys,p,hys⟩ := List.eq_nil_or_concat c.colonGap
    · exact ⟨c.before,_,by rw [head,hnil],.inl rfl⟩
    · refine ⟨c.before++.symbol [58]::ys,p,by simp [head,hys],.inr (h.gaps p ?_)⟩
      simp [hys]
  have hlast : ∀ {t u : Bytes} {b : UInt8}, t.getLast? = some b → wordByte b = false →
      ¬(u++t).getLast?.any wordByte := by
    intro t u b ht hb
    rw [List.getLast?_append,ht]
    simp [hb]
  rw [hxs,flatten_append,flatten_cons,flatten_nil,List.append_nil]
  obtain rfl | htrivia := hp
  · exact hlast rfl (by decide)
  · have hpieces : c.pieces = xs++p::.name (utf8 c.name)::(c.openGap++.symbol [40]::c.arguments) := by
      rw [pieces,hxs,List.append_assoc]
      rfl
    obtain ⟨m,hm⟩ := readPieces_append (hpieces ▸ h.lexed)
    obtain ⟨b,s,-,hr⟩ := readPieces_cons hm
    obtain ⟨rfl,hb⟩ | ⟨-,-,-,hend⟩ | ⟨_,e,-,-,rfl⟩ | ⟨hno,-⟩ := readPiece_cases hr
    · exact hlast rfl (wordByte_space hb)
    · obtain hend | hend := hend
      · exact hlast hend (by decide)
      · -- no line ends where a name begins
        obtain ⟨b,t,hbt⟩ := List.exists_cons_of_ne_nil hne
        have hline := hend b (by rw [flatten_cons,Piece.text,hbt]; rfl)
        have hb := hname b (by rw [hbt]; rfl)
        have hall : ∀ b : UInt8, newline b = true → wordByte b = false := by decide +kernel
        rw [hall b hline] at hb
        cases hb
    · cases htrivia
    · rw [hno] at htrivia
      cases htrivia

/-- The literal argument that the scan sees, if it takes the place for a call. -/
theorem literal_iff (h : c.In source) :
    (((openCall (flatten c.openGap++40::flatten c.arguments)).bind openQuote).bind
      fun e => upToQuote e.1 e.2) = some c.value ↔ c.Plain := by
  have hopen : ∀ p ∈ c.openGap, p ∈ c.pieces ∧ p.trivia = true := by
    intro p hp
    exact ⟨by simp [pieces,hp],h.gaps p (by simp [hp])⟩
  have harg : ∀ p ∈ c.argGap, p ∈ c.pieces ∧ p.trivia = true := by
    intro p hp
    exact ⟨by simp [pieces,arguments,hp],h.gaps p (by simp [hp])⟩
  have harguments : flatten c.arguments = flatten c.argGap++c.mark::(c.raw++c.mark::flatten c.after) := by
    simp [arguments,Piece.text]
  obtain ⟨hspaces,hcall⟩ | ⟨hno,hcall⟩ := openCall_gap (fun p hp => (hopen p hp).2)
    (fun p hp => h.read (hopen p hp).1) (flatten c.arguments)
  · rw [hcall,Option.bind_some,harguments]
    obtain ⟨hspaces',hquote⟩ | ⟨hno,hquote⟩ := openQuote_gap (fun p hp => (harg p hp).2)
      (fun p hp => h.read (harg p hp).1) h.string.1 (c.raw++c.mark::flatten c.after)
    · rw [hquote,Option.bind_some,h.upToQuote_iff]
      refine ⟨fun hraw => ⟨?_,hraw⟩,fun hp => hp.unescaped⟩
      intro p hp
      exact (List.mem_append.mp hp).elim (hspaces p) (hspaces' p)
    · rw [hquote]
      refine ⟨fun heq => (by cases heq),fun hp => absurd (fun p hp' => hp.spaces p ?_) hno⟩
      exact List.mem_append_right _ hp'
  · rw [hcall]
    refine ⟨fun heq => (by cases heq),fun hp => absurd (fun p hp' => hp.spaces p ?_) hno⟩
    exact List.mem_append_left _ hp'

/-- A scan finds the call's string at the call's place if it comes there and is told so. -/
theorem mem_scan_iff (h : c.In source) (call : Option UInt8 → Bytes → Option Bytes × ℕ) (hne : utf8 c.name ≠ []) :
    (c.pos,c.value) ∈ scanCalls (utf8 c.name) call none 0 0 (utf8 source) ↔
      Comes (utf8 c.name) call (utf8 source) c.pos ∧ (call (flatten c.head).getLast?
        (flatten c.openGap++40::flatten c.arguments)).1 = some c.value := by
  rw [mem_scanCalls_iff hne]
  constructor
  · rintro ⟨u,v,hu,hlen,hcomes,hx⟩
    obtain ⟨rfl,hv⟩ := place_unique hu h.text hlen
    rw [List.append_cancel_left hv]
    exact ⟨hcomes,hx⟩
  · rintro ⟨hcomes,hx⟩
    exact ⟨_,_,h.text,rfl,hcomes,hx⟩

/-- Another scan finds nothing at this place. -/
theorem not_mem_scan (h : c.In source) {marker : Bytes} {call : Option UInt8 → Bytes → Option Bytes × ℕ}
    {x : Bytes} {a b : UInt8} {t u : Bytes} (hm : marker = a::t) (hname : utf8 c.name = b::u) (hne : a ≠ b) :
    (c.pos,x) ∉ scanCalls marker call none 0 0 (utf8 source) := by
  intro hmem
  obtain ⟨w,v,hw,hlen,-⟩ := (mem_scanCalls_iff (by rw [hm]; simp)).mp hmem
  obtain ⟨-,hv⟩ := place_unique hw h.text hlen
  rw [hm,hname] at hv
  exact hne (List.cons.inj hv).1.symm

/-- What is told of a call of `push_file`. -/
theorem pushedFile_iff (h : c.In source) (hword : ¬(flatten c.head).getLast?.any wordByte) :
    (pushedFile (flatten c.head).getLast? (flatten c.openGap++40::flatten c.arguments)).1 = some c.value ↔
      c.Plain ∧ ∃ args rest, flatten c.arguments = args++41::rest ∧ Balanced args ∧ ¬LooksOptedOut args := by
  rw [← h.literal_iff,pushedFile,if_neg hword]
  have hseen : (∃ args rest, flatten c.arguments = args++41::rest ∧ Balanced args ∧ ¬LooksOptedOut args) ↔
      ∃ n, findMatchingCloseParen 1 none (flatten c.arguments) = some n ∧
        hasAutoDepFalse ((flatten c.arguments).take n) = false := by
    constructor
    · rintro ⟨args,rest,heq,hargs,hlooks⟩
      refine ⟨args.length,findMatchingCloseParen_eq_some_iff.mpr ⟨args,rest,heq,hargs,rfl⟩,?_⟩
      rw [heq,List.take_left,← Bool.not_eq_true,hasAutoDepFalse_iff]
      exact hlooks
    · rintro ⟨n,hn,hopt⟩
      obtain ⟨args,rest,heq,hargs,rfl⟩ := findMatchingCloseParen_eq_some_iff.mp hn
      rw [heq,List.take_left,← Bool.not_eq_true,hasAutoDepFalse_iff] at hopt
      exact ⟨args,rest,heq,hargs,hopt⟩
  rw [hseen]
  have hopen : ∀ p ∈ c.openGap, p ∈ c.pieces ∧ p.trivia = true := by
    intro p hp
    exact ⟨by simp [pieces,hp],h.gaps p (by simp [hp])⟩
  obtain ⟨-,hcall⟩ | ⟨-,hcall⟩ := openCall_gap (fun p hp => (hopen p hp).2)
    (fun p hp => h.read (hopen p hp).1) (flatten c.arguments)
  · rw [hcall,Option.bind_some]
    dsimp only
    cases hclose : findMatchingCloseParen 1 none (flatten c.arguments) with
    | none => simp
    | some n =>
      cases hopt : hasAutoDepFalse ((flatten c.arguments).take n) with
      | true => simp [hopt]
      | false =>
        cases hquote : openQuote (flatten c.arguments) with
        | none => simp [hopt]
        | some e => simp [hopt]
  · rw [hcall]
    simp

/-- The value is noted for exactly the calls that are seen. -/
theorem reported_iff (h : c.In source) (hname : c.name = "push_file" ∨ c.name = "depends_on_file") :
    c.Reported source ↔ c.Seen source := by
  have hwords : ∀ name ∈ ["push_file","depends_on_file"], utf8 name ≠ [] ∧ ∀ b ∈ utf8 name, wordByte b := by
    decide +kernel
  obtain ⟨hne,hbytes⟩ := hwords c.name (by simpa using hname)
  have hword := h.word (fun b hb => hbytes b (List.mem_of_mem_head? hb)) hne
  -- where nothing is escaped the value is a part of the source, and so a text
  have htext : 92 ∉ c.raw → ∃ name, utf8 name = c.value := by
    intro hraw
    obtain ⟨hq,n,rest,hread⟩ := h.string
    obtain ⟨hv,-⟩ := (readShort_spec hq hread).2.1 hraw
    dsimp only at hv
    refine utf8_between (s := source) (a := flatten c.head++(utf8 c.name++(flatten c.openGap++
      40::flatten c.argGap))) (c := flatten c.after) hq ?_
    rw [h.text,hv]
    simp [arguments,Piece.text]
  have hhit : (c.pos,c.value) ∈ scanPushFileCalls (utf8 source)++
      scanQuotedArgWithPos (utf8 source) "depends_on_file" ↔ c.Seen source := by
    rw [List.mem_append]
    obtain hn | hn := hname
    · have hother : (c.pos,c.value) ∉ scanQuotedArgWithPos (utf8 source) "depends_on_file" :=
        h.not_mem_scan (a := 100) (b := 112) rfl (by rw [hn]; rfl) (by decide)
      have hpush := h.mem_scan_iff pushedFile hne
      have hreached := comes_iff_reached (h.text.trans (by rw [hn]))
      rw [h.pushedFile_iff hword,hn] at hpush
      rw [or_iff_left hother]
      refine hpush.trans ⟨?_,?_⟩
      · rintro ⟨hcomes,hplain,hclosed⟩
        exact ⟨hplain,fun _ => hclosed,fun _ => hreached.mp hcomes⟩
      · intro hs
        exact ⟨hreached.mpr (hs.reached hn),hs.plain,hs.closed hn⟩
    · have hother : (c.pos,c.value) ∉ scanPushFileCalls (utf8 source) :=
        h.not_mem_scan (a := 112) (b := 100) rfl (by rw [hn]; rfl) (by decide)
      have hpush : ¬c.name = "push_file" := by rw [hn]; decide
      have harg := h.mem_scan_iff quotedArg hne
      have hcomes : Comes (utf8 c.name) quotedArg (utf8 source) c.pos := by
        refine comes_of_apart hbytes (fun prev after => ?_) hword h.text
        unfold quotedArg
        split <;> rfl
      rw [quotedArg,if_neg hword,h.literal_iff,hn] at harg
      rw [or_iff_right hother]
      refine harg.trans ⟨?_,?_⟩
      · rintro ⟨-,hplain⟩
        exact ⟨hplain,fun hn => absurd hn hpush,fun hn => absurd hn hpush⟩
      · intro hs
        exact ⟨hn ▸ hcomes,hs.plain⟩
  constructor
  · rintro ⟨name,-,hmem⟩
    exact hhit.mp hmem
  · intro hs
    obtain ⟨name,hvalue⟩ := htext hs.plain.unescaped
    exact ⟨name,hvalue,hhit.mpr hs⟩

end MethodCall.In

/-- The values are reported in the order in which the calls stand in the source. -/
def InSourceOrder (source : String) : Prop :=
  ∃ hits : List (ℕ × Bytes), hits.Perm (scanPushFileCalls (utf8 source)++
      scanQuotedArgWithPos (utf8 source) "depends_on_file") ∧ hits.Pairwise (fun a b => a.1 ≤ b.1) ∧
    scanExternalFileDeps (utf8 source) = hits.filterMap fun h => ofUtf8 h.2

theorem inSourceOrder (source : String) : InSourceOrder source := by
  refine ⟨_,List.perm_insertionSort (fun a b : ℕ × Bytes => a.1 ≤ b.1) _,?_,rfl⟩
  have : Std.Total fun a b : ℕ × Bytes => a.1 ≤ b.1 := ⟨fun a b => Nat.le_total a.1 b.1⟩
  have : IsTrans (ℕ × Bytes) fun a b => a.1 ≤ b.1 := ⟨fun _ _ _ h h' => Nat.le_trans h h'⟩
  exact List.pairwise_insertionSort _ _

/-- The value of a call that is not opted out is reported exactly where the scan sees the call as Lua
does. -/
theorem external_file_dep_reported_iff {source : String} {c : MethodCall} (h : c.In source)
    (hname : c.name = "push_file" ∨ c.name = "depends_on_file") :
    ((c.optedOut = false → c.Reported source) ↔ (c.optedOut = false → c.Seen source)) ∧
      InSourceOrder source :=
  ⟨forall_congr' fun _ => h.reported_iff hname,inSourceOrder source⟩

theorem external_file_dep_reported_template :
    (∃ c : MethodCall, c.In "lab:depends_on_file ( \"t\" )" ∧ c.value = utf8 "t" ∧
      c.Reported "lab:depends_on_file ( \"t\" )") ∧
    ∃ c : MethodCall, c.In "vm:push_file('a','/(')" ∧ c.value = utf8 "a" ∧ c.Reported "vm:push_file('a','/(')" := by
  constructor
  · let c : MethodCall := ⟨[.name (utf8 "lab")],[],"depends_on_file",[.space 32],[.space 32],34,utf8 "t",
      utf8 "t",[.space 32,.symbol [41]]⟩
    have h : c.In "lab:depends_on_file ( \"t\" )" := ⟨by decide +kernel,by decide,[],[],rfl⟩
    have hname : c.name ≠ "push_file" := by decide
    have hseen : c.Seen "lab:depends_on_file ( \"t\" )" :=
      ⟨⟨by decide,by decide +kernel⟩,fun hn => absurd hn hname,fun hn => absurd hn hname⟩
    exact ⟨c,h,rfl,(external_file_dep_reported_iff h (.inr rfl)).1.mpr (fun _ => hseen) rfl⟩
  · let c : MethodCall := ⟨[.name (utf8 "vm")],[],"push_file",[],[],39,utf8 "a",utf8 "a",
      [.symbol [44],.short 39 (utf8 "/(") (utf8 "/("),.symbol [41]]⟩
    have h : c.In "vm:push_file('a','/(')" := ⟨by decide +kernel,by decide,_,_,rfl⟩
    have hclosed : ∃ args rest, flatten c.arguments = args++41::rest ∧ Balanced args ∧ ¬LooksOptedOut args := by
      refine ⟨[39,97,39,44,39,47,40,39],[],by decide +kernel,?_,?_⟩
      · have ha : Quoted 39 [97] := .plain (by decide) (by decide) .nil
        have hb : Quoted 39 [47,40] := .plain (by decide) (by decide) (.plain (by decide) (by decide) .nil)
        exact .string rfl ha (.plain rfl (by decide) (by decide) (.string rfl hb .nil))
      · rw [← hasAutoDepFalse_iff]
        decide +kernel
    have hreached : Reached (utf8 "vm:push_file('a','/(')") c.pos := by
      rw [Reached]
      intro u v _ hu hlt
      -- none of the bytes in front is the first of the name
      have hat : (utf8 "vm:push_file('a','/(')")[u.length]? = some 112 := by
        rw [hu,List.getElem?_append_right le_rfl,Nat.sub_self]
        rfl
      have hnone : ∀ k < c.pos, (utf8 "vm:push_file('a','/(')")[k]? ≠ some 112 := by decide +kernel
      exact absurd hat (hnone _ hlt)
    have hseen : c.Seen "vm:push_file('a','/(')" :=
      ⟨⟨by decide,by decide +kernel⟩,fun _ => hclosed,fun _ => hreached⟩
    have hkept : c.optedOut = false := by decide +kernel
    exact ⟨c,h,rfl,(external_file_dep_reported_iff h (.inl rfl)).1.mpr (fun _ => hseen) hkept⟩

/-- A string with an escaped mark is cut there; a string that looks like the option hides the call; and
a comment in front of the string does. -/
theorem external_file_dep_missed :
    (∃ c : MethodCall, c.In "vm:push_file(\"a\\\"b\", \"/x\")" ∧ c.optedOut = false ∧
      c.value = utf8 "a\"b" ∧ scanExternalFileDeps (utf8 "vm:push_file(\"a\\\"b\", \"/x\")") = ["a\\"]) ∧
    (∃ c : MethodCall, c.In "vm:push_file(\"a\", \"/x\", \x7bnote = \"auto_dep = false\"\x7d)" ∧
      c.optedOut = false ∧ c.value = utf8 "a" ∧
      scanExternalFileDeps (utf8 "vm:push_file(\"a\", \"/x\", \x7bnote = \"auto_dep = false\"\x7d)") = []) ∧
    ∃ c : MethodCall, c.In "lab:depends_on_file(--[[t]]\"a\")" ∧ c.optedOut = false ∧ c.value = utf8 "a" ∧
      scanExternalFileDeps (utf8 "lab:depends_on_file(--[[t]]\"a\")") = [] := by
  refine ⟨⟨⟨[.name (utf8 "vm")],[],"push_file",[],[],34,utf8 "a\\\"b",utf8 "a\"b",
      [.symbol [44],.space 32,.short 34 (utf8 "/x") (utf8 "/x"),.symbol [41]]⟩,?_,?_,rfl,?_⟩,
    ⟨⟨[.name (utf8 "vm")],[],"push_file",[],[],34,utf8 "a",utf8 "a",
      [.symbol [44],.space 32,.short 34 (utf8 "/x") (utf8 "/x"),.symbol [44],.space 32,.symbol [123],
        .name (utf8 "note"),.space 32,.symbol [61],.space 32,
        .short 34 (utf8 "auto_dep = false") (utf8 "auto_dep = false"),.symbol [125],.symbol [41]]⟩,
      ?_,?_,rfl,?_⟩,
    ⟨⟨[.name (utf8 "lab")],[],"depends_on_file",[],[.longComment (utf8 "--[[t]]")],34,utf8 "a",utf8 "a",
      [.symbol [41]]⟩,?_,rfl,rfl,?_⟩⟩
  · exact ⟨by decide +kernel,by decide,_,_,rfl⟩
  · decide +kernel
  · decide +kernel
  · exact ⟨by decide +kernel,by decide,_,_,rfl⟩
  · decide +kernel
  · decide +kernel
  · exact ⟨by decide +kernel,by decide,_,_,rfl⟩
  · decide +kernel

end Provium.Fixture
