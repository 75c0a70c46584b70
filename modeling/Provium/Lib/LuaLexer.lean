import Mathlib

/-! The lexical grammar of Lua 5.4, byte by byte: white space, comments, names, numerals, strings with
what they stand for, and symbols. A numeral is read as the lexer of Lua reads it, but not converted. -/
namespace Lib.LuaLexer

abbrev Text := List UInt8

def space (b : UInt8) : Bool := (9 ≤ b && b ≤ 13) || b == 32

def newline (b : UInt8) : Bool := b == 10 || b == 13

def digit (b : UInt8) : Bool := 48 ≤ b && b ≤ 57

/-- A letter, a digit or an underscore. -/
def nameByte (b : UInt8) : Bool :=
  (48 ≤ b && b ≤ 57) || (65 ≤ b && b ≤ 90) || (97 ≤ b && b ≤ 122) || b == 95

def hexDigit (b : UInt8) : Bool := digit b || (65 ≤ b && b ≤ 70) || (97 ≤ b && b ≤ 102)

def hexValue (b : UInt8) : ℕ := if digit b then b.toNat-48 else if b < 97 then b.toNat-55 else b.toNat-87

def hexNumber (s : Text) : ℕ := s.foldl (fun n b => 16*n+hexValue b) 0

def decimal (s : Text) : ℕ := s.foldl (fun n b => 10*n+(b.toNat-48)) 0

def quote (b : UInt8) : Bool := b == 34 || b == 39

/-- A byte that goes on with a character, with the bits from the sixth times `k` on. -/
def continuation (k x : ℕ) : UInt8 := .ofNat (0x80+x/64^k%64)

/-- The bytes of a character by its number, up to 2^31. -/
def utf8Esc (x : ℕ) : Text :=
  if x < 0x80 then [.ofNat x]
  else if x < 0x800 then [.ofNat (0xC0+x/64),continuation 0 x]
  else if x < 0x10000 then [.ofNat (0xE0+x/64^2),continuation 1 x,continuation 0 x]
  else if x < 0x200000 then [.ofNat (0xF0+x/64^3),continuation 2 x,continuation 1 x,continuation 0 x]
  else if x < 0x4000000 then
    [.ofNat (0xF8+x/64^4),continuation 3 x,continuation 2 x,continuation 1 x,continuation 0 x]
  else [.ofNat (0xFC+x/64^5),continuation 4 x,continuation 3 x,continuation 2 x,continuation 1 x,
    continuation 0 x]

/-- The escapes of one byte. -/
def simpleEscapes : List (UInt8 × UInt8) :=
  [(97,7),(98,8),(116,9),(110,10),(118,11),(102,12),(114,13),(92,92),(34,34),(39,39)]

/-- An escape behind its backslash: how it is written, what it stands for, and what follows. -/
structure Escape where
  written : Text
  value : Text
  rest : Text
  deriving DecidableEq, Repr

def readHexEscape : Text → Option Escape
  | h₁::h₂::s =>
    if hexDigit h₁ && hexDigit h₂ then some ⟨[120,h₁,h₂],[.ofNat (hexNumber [h₁,h₂])],s⟩ else none
  | _ => none

def readUtf8Escape : Text → Option Escape
  | 123::s =>
    match s.takeWhile hexDigit,s.dropWhile hexDigit with
    | d::ds,125::rest =>
      if hexNumber (d::ds) < 2^31 then some ⟨117::123::(d::ds++[125]),utf8Esc (hexNumber (d::ds)),rest⟩
      else none
    | _,_ => none
  | _ => none

def readDecimalEscape (s : Text) : Option Escape :=
  let ds := (s.take 3).takeWhile digit
  if decimal ds < 256 then some ⟨ds,[.ofNat (decimal ds)],s.drop ds.length⟩ else none

def readNewline (c : UInt8) : Text → Escape
  | d::s => if newline d && d != c then ⟨[c,d],[10],s⟩ else ⟨[c],[10],d::s⟩
  | [] => ⟨[c],[10],[]⟩

def readEscape : Text → Option Escape
  | [] => none
  | c::s =>
    match simpleEscapes.lookup c with
    | some v => some ⟨[c],[v],s⟩
    | none =>
      if c = 120 then readHexEscape s
      else if c = 117 then readUtf8Escape s
      else if c = 122 then some ⟨c::s.takeWhile space,[],s.dropWhile space⟩
      else if newline c then some (readNewline c s)
      else if digit c then readDecimalEscape (c::s)
      else none

/-- A short string behind its quotation mark, up to the other. -/
def readShort (q : UInt8) : ℕ → Text → Option Escape
  | 0,_ => none
  | _,[] => none
  | n+1,c::s =>
    if c = q then some ⟨[],[],s⟩
    else if c = 92 then (readEscape s).bind fun e =>
      (readShort q n e.rest).map fun r => ⟨92::e.written++r.written,e.value++r.value,r.rest⟩
    else if newline c then none
    else (readShort q n s).map fun r => ⟨c::r.written,c::r.value,r.rest⟩

/-- Behind a bracket: the level of a long bracket. -/
def longOpen (s : Text) : Option ℕ :=
  if (s.dropWhile (· = 61)).head? = some 91 then some (s.takeWhile (· = 61)).length else none

def longClose (level : ℕ) : Text := 93::(List.replicate level 61++[93])

/-- Up to and with the closing long bracket. -/
def readLong (close : Text) : Text → Option (Text × Text)
  | [] => none
  | c::s =>
    if close.isPrefixOf (c::s) then some (close,(c::s).drop close.length)
    else (readLong close s).map fun r => (c::r.1,r.2)

/-- What goes on with a numeral. -/
def readNumeral (exponent : UInt8 → Bool) : Text → Text
  | [] => []
  | [c] => if exponent c || hexDigit c || c == 46 then [c] else []
  | c::d::s =>
    if exponent c then
      if d == 43 || d == 45 then c::d::readNumeral exponent s else c::readNumeral exponent (d::s)
    else if hexDigit c || c == 46 then c::readNumeral exponent (d::s)
    else []

/-- A numeral from its first byte on. -/
def numeral (c : UInt8) (s : Text) : Text :=
  match c,s with
  | 48,d::s' =>
    if d == 120 || d == 88 then c::d::readNumeral (fun b => b == 112 || b == 80) s'
    else c::readNumeral (fun b => b == 101 || b == 69) s
  | _,_ => c::readNumeral (fun b => b == 101 || b == 69) s

/-- The symbols of more than one byte, a longer one first. -/
def longSymbols : List Text :=
  [[46,46,46],[46,46],[58,58],[61,61],[126,61],[60,61],[62,61],[47,47],[60,60],[62,62]]

inductive Piece where
  | space (b : UInt8)
  /-- Without the end of its line. -/
  | lineComment (text : Text)
  | longComment (text : Text)
  | name (text : Text)
  | numeral (text : Text)
  | short (q : UInt8) (raw value : Text)
  | long (text : Text)
  | symbol (text : Text)
  deriving DecidableEq, Repr

namespace Piece

def text : Piece → Text
  | .space b => [b]
  | .lineComment t | .longComment t | .name t | .numeral t | .long t | .symbol t => t
  | .short q raw _ => q::(raw++[q])

/-- White space and comments. -/
def trivia : Piece → Bool
  | .space _ | .lineComment _ | .longComment _ => true
  | _ => false

def isSpace : Piece → Bool
  | .space _ => true
  | _ => false

end Piece

def flatten (ps : List Piece) : Text := (ps.map Piece.text).flatten

@[simp] theorem flatten_nil : flatten [] = [] := rfl

@[simp] theorem flatten_cons (p : Piece) (ps : List Piece) : flatten (p::ps) = p.text++flatten ps := rfl

@[simp] theorem flatten_append (ps qs : List Piece) : flatten (ps++qs) = flatten ps++flatten qs := by
  simp [flatten]

def readComment (s : Text) : Option (Piece × Text) :=
  match s with
  | 91::r =>
    match longOpen r with
    | some level => (readLong (longClose level) (r.drop (level+1))).map fun t =>
        (.longComment (45::45::91::(r.take (level+1)++t.1)),t.2)
    | none => some (.lineComment (45::45::s.takeWhile (!newline ·)),s.dropWhile (!newline ·))
  | _ => some (.lineComment (45::45::s.takeWhile (!newline ·)),s.dropWhile (!newline ·))

def readSymbol (c : UInt8) (s : Text) : Piece × Text :=
  match longSymbols.find? (·.isPrefixOf (c::s)) with
  | some t => (.symbol t,(c::s).drop t.length)
  | none => (.symbol [c],s)

def readBracket (s : Text) : Option (Piece × Text) :=
  match longOpen s with
  | some level => (readLong (longClose level) (s.drop (level+1))).map fun t =>
      (.long (91::(s.take (level+1)++t.1)),t.2)
  | none => if s.head? = some 61 then none else some (readSymbol 91 s)

def readNumber (c : UInt8) (s : Text) : Option (Piece × Text) :=
  let t := numeral c s
  if (((c::s).drop t.length).head?).any nameByte then none
  else some (.numeral t,(c::s).drop t.length)

/-- The next piece of a text, and what follows it. -/
def readPiece (c : UInt8) (s : Text) : Option (Piece × Text) :=
  if space c then some (.space c,s)
  else if c = 45 && s.head? = some 45 then readComment (s.drop 1)
  else if quote c then (readShort c (s.length+1) s).map fun e => (.short c e.written e.value,e.rest)
  else if c = 91 then readBracket s
  else if digit c || (c == 46 && s.head?.any digit) then readNumber c s
  else if nameByte c then some (.name (c::s.takeWhile nameByte),s.dropWhile nameByte)
  else some (readSymbol c s)

def readPieces : ℕ → Text → Option (List Piece)
  | _,[] => some []
  | 0,_::_ => none
  | n+1,c::s => (readPiece c s).bind fun r => (readPieces n r.2).map (r.1::·)

/-- The pieces of a text, where it is of the lexical grammar. -/
def lex (s : Text) : Option (List Piece) := readPieces s.length s

section Lemmas
variable {c q : UInt8} {s : Text} {e : Escape} {p : Piece} {n : ℕ}

theorem readNumeral_begins (exponent : UInt8 → Bool) (s : Text) : readNumeral exponent s <+: s := by
  fun_induction readNumeral exponent s with
  | case1 => exact List.prefix_rfl
  | case2 c h => exact List.prefix_rfl
  | case3 c h => exact List.nil_prefix
  | case4 c d s hc hd ih => exact (List.prefix_cons_inj c).mpr ((List.prefix_cons_inj d).mpr ih)
  | case5 c d s hc hd ih => exact (List.prefix_cons_inj c).mpr ih
  | case6 c d s hc hd ih => exact (List.prefix_cons_inj c).mpr ih
  | case7 c d s hc hd => exact List.nil_prefix

theorem numeral_begins (c : UInt8) (s : Text) : numeral c s <+: c::s := by
  unfold numeral
  split
  · split
    · exact (List.prefix_cons_inj _).mpr ((List.prefix_cons_inj _).mpr (readNumeral_begins _ _))
    · exact (List.prefix_cons_inj _).mpr (readNumeral_begins _ _)
  · exact (List.prefix_cons_inj _).mpr (readNumeral_begins _ _)

theorem readLong_text {close t rest : Text} (h : readLong close s = some (t,rest)) :
    s = t++rest ∧ ∃ u, t = u++close := by
  induction s generalizing t with
  | nil => cases h
  | cons c s ih =>
    rw [readLong] at h
    split at h
    · next hclose =>
      cases h
      obtain ⟨v,hv⟩ := List.isPrefixOf_iff_prefix.mp hclose
      rw [← hv,List.drop_left]
      exact ⟨rfl,[],rfl⟩
    · obtain ⟨r,hr,heq⟩ := Option.map_eq_some_iff.mp h
      cases heq
      obtain ⟨hs,u,hu⟩ := ih hr
      exact ⟨congrArg (c::·) hs,c::u,congrArg (c::·) hu⟩

theorem drop_of_begins {t u : Text} (h : t <+: u) : u = t++u.drop t.length := by
  obtain ⟨v,rfl⟩ := h
  rw [List.drop_left]

theorem quote_cases (h : quote q) : q = 34 ∨ q = 39 := by simpa [quote] using h

/-- No quotation mark is of a kind of bytes that 34 and 39 are not of. -/
theorem not_mem_of_quote {f : UInt8 → Bool} (h₁ : f 34 = false) (h₂ : f 39 = false) (hq : quote q) {t : Text}
    (ht : ∀ b ∈ t, f b = true) : q ∉ t := by
  intro hmem
  have hf := ht q hmem
  obtain rfl | rfl := quote_cases hq
  · rw [h₁] at hf
    cases hf
  · rw [h₂] at hf
    cases hf

theorem hexValue_lt {b : UInt8} (h : hexDigit b) : hexValue b < 16 := by
  simp only [hexDigit,digit,Bool.or_eq_true,Bool.and_eq_true,decide_eq_true_eq,UInt8.le_iff_toNat_le] at h
  unfold hexValue digit
  split
  · next hd =>
    simp only [Bool.and_eq_true,decide_eq_true_eq,UInt8.le_iff_toNat_le] at hd
    have h57 : (57 : UInt8).toNat = 57 := rfl
    omega
  · next hd =>
    simp only [Bool.and_eq_true,decide_eq_true_eq,UInt8.le_iff_toNat_le] at hd
    have h48 : (48 : UInt8).toNat = 48 := rfl
    have h57 : (57 : UInt8).toNat = 57 := rfl
    have h65 : (65 : UInt8).toNat = 65 := rfl
    have h70 : (70 : UInt8).toNat = 70 := rfl
    have h97 : (97 : UInt8).toNat = 97 := rfl
    have h102 : (102 : UInt8).toNat = 102 := rfl
    split
    · next hb =>
      rw [UInt8.lt_iff_toNat_lt] at hb
      omega
    · next hb =>
      rw [UInt8.lt_iff_toNat_lt] at hb
      omega

theorem hexNumber_lt (hs : ∀ b ∈ s, hexDigit b = true) : hexNumber s < 16^s.length := by
  have hfold : ∀ k, s.foldl (fun n b => 16*n+hexValue b) k < (k+1)*16^s.length := by
    induction s with
    | nil => simp
    | cons b s ih =>
      intro k
      obtain ⟨hb,hs⟩ := List.forall_mem_cons.mp hs
      have hlt := hexValue_lt hb
      calc (b::s).foldl (fun n b => 16*n+hexValue b) k < (16*k+hexValue b+1)*16^s.length := ih hs _
        _ ≤ (16*(k+1))*16^s.length := Nat.mul_le_mul_right _ (by omega)
        _ = (k+1)*16^(b::s).length := by rw [List.length_cons,pow_succ]; ring
  simpa [hexNumber] using hfold 0

theorem utf8Esc_length (x : ℕ) : (utf8Esc x).length ≤ 6 ∧ (x < 0x800 → (utf8Esc x).length ≤ 2) := by
  unfold utf8Esc
  split_ifs <;> simp_all

theorem readHexEscape_spec (h : readHexEscape s = some e) : 120::s = e.written++e.rest ∧
    e.value.length ≤ e.written.length ∧ ∀ q, quote q → q ∉ e.written := by
  unfold readHexEscape at h
  split at h
  · split at h
    · next h₁ h₂ s hhex =>
      cases h
      refine ⟨rfl,by simp,fun q hq => ?_⟩
      obtain ⟨hh₁,hh₂⟩ := Bool.and_eq_true_iff.mp hhex
      apply not_mem_of_quote (f := fun b => b == 120 || hexDigit b) rfl rfl hq
      simp [hh₁,hh₂]
    · cases h
  · cases h

theorem readUtf8Escape_spec (h : readUtf8Escape s = some e) : 117::s = e.written++e.rest ∧
    e.value.length ≤ e.written.length ∧ ∀ q, quote q → q ∉ e.written := by
  unfold readUtf8Escape at h
  split at h
  · next s =>
    split at h
    · next d ds rest htake hdrop =>
      split at h
      · cases h
        have hhex : ∀ b ∈ d::ds, hexDigit b = true := by
          intro b hb
          rw [← htake] at hb
          exact List.mem_takeWhile_imp hb
        refine ⟨?_,?_,fun q hq => ?_⟩
        · have hs := List.takeWhile_append_dropWhile (p := hexDigit) (l := s)
          rw [htake,hdrop] at hs
          simp [← hs]
        · -- two digits are of a number that takes two bytes at most
          have hlt := hexNumber_lt hhex
          obtain ⟨hsix,htwo⟩ := utf8Esc_length (hexNumber (d::ds))
          have hlen : (117::123::(d::ds++[125])).length = (d::ds).length+3 := by simp
          change (utf8Esc (hexNumber (d::ds))).length ≤ (117::123::(d::ds++[125])).length
          rw [hlen]
          by_cases hds : 3 ≤ (d::ds).length
          · omega
          · have hle : 16^(d::ds).length ≤ 16^2 := Nat.pow_le_pow_right (by norm_num) (by omega)
            have := htwo (by omega)
            omega
        · apply not_mem_of_quote (f := fun b => b == 117 || b == 123 || b == 125 || hexDigit b) rfl rfl hq
          intro b hb
          simp only [List.mem_cons,List.mem_append,List.not_mem_nil,or_false] at hb
          obtain rfl | rfl | (hb | rfl) := hb
          · rfl
          · rfl
          · rw [hhex b (List.mem_cons.mpr hb),Bool.or_true]
          · rfl
      · cases h
    · cases h
  · cases h

theorem readDecimalEscape_spec (hc : digit c) (h : readDecimalEscape (c::s) = some e) :
    c::s = e.written++e.rest ∧ e.value.length ≤ e.written.length ∧ ∀ q, quote q → q ∉ e.written := by
  unfold readDecimalEscape at h
  dsimp only at h
  split at h
  · cases h
    have hpre : ((c::s).take 3).takeWhile digit <+: c::s :=
      (List.takeWhile_prefix _).trans (List.take_prefix _ _)
    refine ⟨drop_of_begins hpre,?_,fun q hq => ?_⟩
    · simp [hc]
    · exact not_mem_of_quote (f := digit) rfl rfl hq fun b hb => List.mem_takeWhile_imp hb
  · cases h

theorem readNewline_spec (hc : newline c) (s : Text) : c::s = (readNewline c s).written++(readNewline c s).rest ∧
    (readNewline c s).value.length ≤ (readNewline c s).written.length ∧
      ∀ q, quote q → q ∉ (readNewline c s).written := by
  unfold readNewline
  split
  · next d s =>
    split
    · next hd =>
      refine ⟨rfl,by simp,fun q hq => ?_⟩
      exact not_mem_of_quote (f := newline) rfl rfl hq (by simp [hc,(Bool.and_eq_true_iff.mp hd).1])
    · refine ⟨rfl,by simp,fun q hq => ?_⟩
      exact not_mem_of_quote (f := newline) rfl rfl hq (by simp [hc])
  · refine ⟨rfl,by simp,fun q hq => ?_⟩
    exact not_mem_of_quote (f := newline) rfl rfl hq (by simp [hc])

/-- An escape is a part of the text; it is written with no fewer bytes than it stands for; and a
quotation mark in it is what it stands for. -/
theorem readEscape_spec (h : readEscape s = some e) :
    s = e.written++e.rest ∧ e.value.length ≤ e.written.length ∧
      ∀ q, quote q → q ∈ e.written → q ∈ e.value := by
  have hno : ∀ {e : Escape} {s : Text}, (s = e.written++e.rest ∧ e.value.length ≤ e.written.length ∧
      ∀ q, quote q → q ∉ e.written) → s = e.written++e.rest ∧ e.value.length ≤ e.written.length ∧
        ∀ q, quote q → q ∈ e.written → q ∈ e.value :=
    fun h => ⟨h.1,h.2.1,fun q hq hmem => absurd hmem (h.2.2 q hq)⟩
  cases s with
  | nil => cases h
  | cons c s =>
    rw [readEscape] at h
    split at h
    · next v hv =>
      cases h
      refine ⟨rfl,le_rfl,fun q hq hmem => ?_⟩
      obtain rfl := List.mem_singleton.mp hmem
      obtain rfl | rfl := quote_cases hq
      · cases hv
        exact List.mem_singleton_self _
      · cases hv
        exact List.mem_singleton_self _
    · split at h
      · next hx =>
        rw [hx]
        exact hno (readHexEscape_spec h)
      · split at h
        · next hu =>
          rw [hu]
          exact hno (readUtf8Escape_spec h)
        · split at h
          · next hz =>
            cases h
            refine hno ⟨?_,by simp,fun q hq => ?_⟩
            · simp
            · apply not_mem_of_quote (f := fun b => b == 122 || space b) rfl rfl hq
              intro b hb
              obtain rfl | hb := List.mem_cons.mp hb
              · simp [hz]
              · rw [List.mem_takeWhile_imp (p := space) hb,Bool.or_true]
          · split at h
            · next hn =>
              cases h
              exact hno (readNewline_spec hn s)
            · split at h
              · next hd => exact hno (readDecimalEscape_spec hd h)
              · cases h

/-- A short string is a part of the text up to its end. Where nothing in it is escaped it stands for
itself; where something is, it stands for fewer bytes, and has the mark in it where one is written. -/
theorem readShort_spec {r : Escape} (hq : quote q) (h : readShort q n s = some r) :
    s = r.written++q::r.rest ∧ (92 ∉ r.written → r.value = r.written ∧ q ∉ r.written) ∧
      r.value.length ≤ r.written.length ∧ (92 ∈ r.written → r.value.length < r.written.length) ∧
      (q ∈ r.written → q ∈ r.value) := by
  have hq92 : q ≠ 92 := by
    rintro rfl
    cases hq
  induction n generalizing s r with
  | zero => cases h
  | succ n ih =>
    cases s with
    | nil => cases h
    | cons c s =>
      rw [readShort] at h
      split at h
      · next hc =>
        cases h
        refine ⟨by rw [hc]; rfl,fun _ => ⟨rfl,List.not_mem_nil⟩,le_rfl,fun h => ?_,id⟩
        cases h
      · next hc =>
        split at h
        · next h92 =>
          obtain ⟨e,he,h⟩ := Option.bind_eq_some_iff.mp h
          obtain ⟨r',hr',rfl⟩ := Option.map_eq_some_iff.mp h
          obtain ⟨htext,hlen,hmark⟩ := readEscape_spec he
          obtain ⟨hs,-,hle,-,hin⟩ := ih hr'
          refine ⟨?_,fun h => absurd List.mem_cons_self h,?_,fun _ => ?_,?_⟩
          · rw [htext,hs,h92]
            simp
          · simp only [List.length_append,List.length_cons]
            omega
          · simp only [List.length_append,List.length_cons]
            omega
          · intro hmem
            simp only [List.cons_append,List.mem_cons,List.mem_append] at hmem
            obtain hmem | hmem | hmem := hmem
            · exact absurd hmem hq92
            · exact List.mem_append_left _ (hmark q hq hmem)
            · exact List.mem_append_right _ (hin hmem)
        · next h92 =>
          split at h
          · cases h
          · obtain ⟨r',hr',rfl⟩ := Option.map_eq_some_iff.mp h
            obtain ⟨hs,hplain,hle,hlt,hin⟩ := ih hr'
            refine ⟨by rw [hs]; rfl,?_,Nat.succ_le_succ hle,?_,?_⟩
            · intro hno
              obtain ⟨hv,hnot⟩ := hplain fun h => hno (List.mem_cons_of_mem _ h)
              refine ⟨congrArg (c::·) hv,?_⟩
              intro hmem
              obtain heq | hmem := List.mem_cons.mp hmem
              · exact hc heq.symm
              · exact hnot hmem
            · intro hmem
              obtain heq | hmem := List.mem_cons.mp hmem
              · exact absurd heq.symm h92
              · exact Nat.succ_lt_succ (hlt hmem)
            · intro hmem
              obtain heq | hmem := List.mem_cons.mp hmem
              · exact absurd heq.symm hc
              · exact List.mem_cons_of_mem _ (hin hmem)

/-- A comment is a part of the text; behind a line comment its line ends. -/
theorem readComment_spec {t : Text} (h : readComment s = some (p,t)) :
    45::45::s = p.text++t ∧ (p.text.getLast? = some 93 ∨ ∀ b ∈ t.head?, newline b) := by
  have hline : ∀ {p t}, some (Piece.lineComment (45::45::s.takeWhile (!newline ·)),
      s.dropWhile (!newline ·)) = some (p,t) → 45::45::s = p.text++t ∧
        (p.text.getLast? = some 93 ∨ ∀ b ∈ t.head?, newline b) := by
    intro p t h
    cases h
    refine ⟨by simp [Piece.text],.inr fun b hb => ?_⟩
    have := List.head?_dropWhile_not (fun b => !newline b) s
    rw [Option.mem_def.mp hb] at this
    simpa using this
  unfold readComment at h
  split at h
  · next r =>
    split at h
    · next level hopen =>
      obtain ⟨u,hu,heq⟩ := Option.map_eq_some_iff.mp h
      cases heq
      obtain ⟨hr,w,hw⟩ := readLong_text hu
      refine ⟨?_,.inl ?_⟩
      · have htake : r.take (level+1)++(u.1++u.2) = r := by rw [← hr,List.take_append_drop]
        simp only [Piece.text,List.cons_append,List.append_assoc,htake]
      · have hlast : 45::45::91::(r.take (level+1)++(w++longClose level)) =
            (45::45::91::(r.take (level+1)++(w++93::List.replicate level 61)))++[93] := by simp [longClose]
        rw [Piece.text,hw,hlast,List.getLast?_concat]
    · exact hline h
  · exact hline h

theorem readSymbol_text (c : UInt8) (s : Text) : c::s = (readSymbol c s).1.text++(readSymbol c s).2 := by
  unfold readSymbol
  split
  · next t ht =>
    have hpre := List.find?_some ht
    exact drop_of_begins (List.isPrefixOf_iff_prefix.mp hpre)
  · rfl

theorem readBracket_text {t : Text} (h : readBracket s = some (p,t)) : 91::s = p.text++t := by
  unfold readBracket at h
  split at h
  · next level hopen =>
    obtain ⟨u,hu,heq⟩ := Option.map_eq_some_iff.mp h
    cases heq
    have htake : s.take (level+1)++(u.1++u.2) = s := by
      rw [← (readLong_text hu).1,List.take_append_drop]
    simp only [Piece.text,List.cons_append,List.append_assoc,htake]
  · split at h
    · cases h
    · cases h
      exact readSymbol_text 91 s

theorem readNumber_text {t : Text} (h : readNumber c s = some (p,t)) : c::s = p.text++t := by
  unfold readNumber at h
  dsimp only at h
  split at h
  · cases h
  · cases h
    exact drop_of_begins (numeral_begins c s)

/-- The next piece is a part of the text. -/
theorem readPiece_text {t : Text} (h : readPiece c s = some (p,t)) : c::s = p.text++t := by
  unfold readPiece at h
  split at h
  · cases h
    rfl
  · split at h
    · next hcomment =>
      obtain ⟨hc,hs⟩ := Bool.and_eq_true_iff.mp hcomment
      obtain ⟨s',rfl⟩ := List.head?_eq_some_iff.mp (of_decide_eq_true hs)
      rw [of_decide_eq_true hc]
      exact (readComment_spec h).1
    · split at h
      · next hq =>
        obtain ⟨e,he,heq⟩ := Option.map_eq_some_iff.mp h
        cases heq
        rw [Piece.text,(readShort_spec hq he).1]
        simp
      · split at h
        · next hc =>
          rw [hc]
          exact readBracket_text h
        · split at h
          · exact readNumber_text h
          · split at h
            · cases h
              simp [Piece.text]
            · have htext := readSymbol_text c s
              rwa [Option.some.inj h] at htext

/-- What the next piece can be: white space, a comment, a short string, or none of these. -/
theorem readPiece_cases {t : Text} (h : readPiece c s = some (p,t)) :
    (p = .space c ∧ space c) ∨
    (p.trivia = true ∧ p.isSpace = false ∧ (∃ u, p.text = 45::45::u) ∧
      (p.text.getLast? = some 93 ∨ ∀ b ∈ t.head?, newline b)) ∨
    (∃ n e, quote c ∧ readShort c n s = some e ∧ p = .short c e.written e.value) ∨
    (p.trivia = false ∧ ∀ q r v, p ≠ .short q r v) := by
  have hsymbol : ∀ c s, (readSymbol c s).1.trivia = false ∧ ∀ q r v, (readSymbol c s).1 ≠ .short q r v := by
    intro c s
    unfold readSymbol
    split
    · exact ⟨rfl,fun _ _ _ => by simp⟩
    · exact ⟨rfl,fun _ _ _ => by simp⟩
  unfold readPiece at h
  split at h
  · next hc =>
    cases h
    exact .inl ⟨rfl,hc⟩
  · split at h
    · refine .inr (.inl ?_)
      have hspec := (readComment_spec h).2
      have hkind : (∃ u, p = .lineComment (45::45::u)) ∨ ∃ u, p = .longComment (45::45::u) := by
        unfold readComment at h
        split at h
        · split at h
          · obtain ⟨u,hu,heq⟩ := Option.map_eq_some_iff.mp h
            cases heq
            exact .inr ⟨_,rfl⟩
          · cases h
            exact .inl ⟨_,rfl⟩
        · cases h
          exact .inl ⟨_,rfl⟩
      obtain ⟨u,rfl⟩ | ⟨u,rfl⟩ := hkind
      · exact ⟨rfl,rfl,⟨u,rfl⟩,hspec⟩
      · exact ⟨rfl,rfl,⟨u,rfl⟩,hspec⟩
    · split at h
      · next hq =>
        obtain ⟨e,he,heq⟩ := Option.map_eq_some_iff.mp h
        cases heq
        exact .inr (.inr (.inl ⟨_,e,hq,he,rfl⟩))
      · refine .inr (.inr (.inr ?_))
        split at h
        · unfold readBracket at h
          split at h
          · obtain ⟨u,hu,heq⟩ := Option.map_eq_some_iff.mp h
            cases heq
            exact ⟨rfl,fun _ _ _ => by simp⟩
          · split at h
            · cases h
            · have hkind := hsymbol 91 s
              rwa [Option.some.inj h] at hkind
        · split at h
          · unfold readNumber at h
            dsimp only at h
            split at h
            · cases h
            · cases h
              exact ⟨rfl,fun _ _ _ => by simp⟩
          · split at h
            · cases h
              exact ⟨rfl,fun _ _ _ => by simp⟩
            · have hkind := hsymbol c s
              rwa [Option.some.inj h] at hkind

/-- The pieces make up the text. -/
theorem readPieces_text {ps : List Piece} (h : readPieces n s = some ps) : s = flatten ps := by
  induction n generalizing s ps with
  | zero =>
    cases s with
    | nil =>
      cases h
      rfl
    | cons c s => cases h
  | succ n ih =>
    cases s with
    | nil =>
      cases h
      rfl
    | cons c s =>
      obtain ⟨r,hr,h⟩ := Option.bind_eq_some_iff.mp h
      obtain ⟨qs,hqs,rfl⟩ := Option.map_eq_some_iff.mp h
      rw [flatten_cons,readPiece_text hr,ih hqs]

/-- From a piece on the text is read as it is from its beginning. -/
theorem readPieces_append {ps qs : List Piece} (h : readPieces n s = some (ps++qs)) :
    ∃ m, readPieces m (flatten qs) = some qs := by
  induction n generalizing s ps with
  | zero =>
    cases s with
    | nil =>
      obtain ⟨rfl,rfl⟩ := List.append_eq_nil_iff.mp (Option.some.inj h).symm
      exact ⟨0,rfl⟩
    | cons c s => cases h
  | succ n ih =>
    cases ps with
    | nil =>
      rw [List.nil_append] at h
      refine ⟨n+1,?_⟩
      rwa [← readPieces_text h]
    | cons p ps =>
      cases s with
      | nil => cases h
      | cons c s =>
        obtain ⟨r,hr,h⟩ := Option.bind_eq_some_iff.mp h
        obtain ⟨qs',hqs,heq⟩ := Option.map_eq_some_iff.mp h
        cases heq
        exact ih hqs

/-- A piece that is read, as the next. -/
theorem readPieces_cons {ps : List Piece} (h : readPieces n s = some (p::ps)) :
    ∃ c s', s = c::s' ∧ readPiece c s' = some (p,flatten ps) := by
  cases n with
  | zero => cases s <;> cases h
  | succ n =>
    cases s with
    | nil => cases h
    | cons c s =>
      obtain ⟨r,hr,h⟩ := Option.bind_eq_some_iff.mp h
      obtain ⟨qs,hqs,heq⟩ := Option.map_eq_some_iff.mp h
      cases heq
      refine ⟨c,s,rfl,?_⟩
      rw [hr,← readPieces_text hqs]

/-- Every piece has been read. -/
theorem readPieces_mem {ps : List Piece} (h : readPieces n s = some ps) (hp : p ∈ ps) :
    ∃ c s' t, readPiece c s' = some (p,t) := by
  obtain ⟨as,bs,rfl⟩ := List.append_of_mem hp
  obtain ⟨m,hm⟩ := readPieces_append h
  obtain ⟨c,s',-,hread⟩ := readPieces_cons hm
  exact ⟨c,s',_,hread⟩

end Lemmas
end Lib.LuaLexer
