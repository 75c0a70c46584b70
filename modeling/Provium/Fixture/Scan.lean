import Provium.Fixture.Key

/-! How a source is scanned for calls with a literal argument, `fixture.rs`. A text is scanned byte by
byte, as UTF-8; a source that is not UTF-8 is taken for an empty text. -/
namespace Provium.Fixture

/-- `from_utf8`. -/
def ofUtf8 (b : Bytes) : Option String := String.fromUTF8? ⟨b.toArray⟩

theorem ofUtf8_eq_some {b : Bytes} {s : String} : ofUtf8 b = some s ↔ utf8 s = b := by
  constructor
  · intro h
    unfold ofUtf8 String.fromUTF8? at h
    split at h
    · cases h
      simp [utf8,String.fromUTF8]
    · cases h
  · rintro rfl
    have harray : (⟨(utf8 s).toArray⟩ : ByteArray) = s.toByteArray := by simp [utf8]
    unfold ofUtf8 String.fromUTF8?
    rw [harray,dif_pos s.isValidUTF8]
    rfl

@[simp] theorem ofUtf8_utf8 (s : String) : ofUtf8 (utf8 s) = some s := ofUtf8_eq_some.mpr rfl

/-- What is scanned of a source. -/
def textOf (source : Bytes) : Bytes := if (ofUtf8 source).isSome then source else []

/-- The characters of Unicode's White_Space. -/
def spaces : List Bytes :=
  [[9],[10],[11],[12],[13],[32],[0xC2,0x85],[0xC2,0xA0],[0xE1,0x9A,0x80],[0xE2,0x80,0x80],
    [0xE2,0x80,0x81],[0xE2,0x80,0x82],[0xE2,0x80,0x83],[0xE2,0x80,0x84],[0xE2,0x80,0x85],
    [0xE2,0x80,0x86],[0xE2,0x80,0x87],[0xE2,0x80,0x88],[0xE2,0x80,0x89],[0xE2,0x80,0x8A],
    [0xE2,0x80,0xA8],[0xE2,0x80,0xA9],[0xE2,0x80,0xAF],[0xE2,0x81,0x9F],[0xE3,0x80,0x80]]

def trimSpaces : ℕ → Bytes → Bytes
  | 0,s => s
  | n+1,s => match spaces.find? (·.isPrefixOf s) with
    | some w => trimSpaces n (s.drop w.length)
    | none => s

/-- `str::trim_start`. -/
def trimStart (s : Bytes) : Bytes := trimSpaces s.length s

/-- A letter, a digit or an underscore. -/
def wordByte (b : UInt8) : Bool :=
  (48 ≤ b && b ≤ 57) || (65 ≤ b && b ≤ 90) || (97 ≤ b && b ≤ 122) || b == 95

def quote (b : UInt8) : Bool := b == 34 || b == 39

/-- What follows the parenthesis that opens a call. -/
def openCall (after : Bytes) : Option Bytes :=
  match trimStart after with
  | c::body => if c = 40 then some body else none
  | [] => none

/-- The quotation mark, and what follows it. -/
def openQuote (body : Bytes) : Option (UInt8 × Bytes) :=
  match trimStart body with
  | q::rest => if quote q then some (q,rest) else none
  | [] => none

def upToQuote (q : UInt8) (rest : Bytes) : Option Bytes :=
  if q ∈ rest then some (rest.takeWhile (· ≠ q)) else none

/-- The loop of the scanners: each finds the next place of its marker and asks what is called there,
and how far behind the marker it goes on. -/
def scanCalls (marker : Bytes) (call : Option UInt8 → Bytes → Option Bytes × ℕ) :
    Option UInt8 → ℕ → ℕ → Bytes → List (ℕ × Bytes)
  | _,_,_,[] => []
  | _,skip+1,pos,c::s => scanCalls marker call (some c) skip (pos+1) s
  | prev,0,pos,c::s =>
    if marker.isPrefixOf (c::s) then
      let found := call prev ((c::s).drop marker.length)
      found.1.toList.map (pos,·)++
        scanCalls marker call (some c) (marker.length+found.2-1) (pos+1) s
    else scanCalls marker call (some c) 0 (pos+1) s

def quotedArg (prev : Option UInt8) (after : Bytes) : Option Bytes × ℕ :=
  if prev.any wordByte then (none,0)
  else (((openCall after).bind openQuote).bind fun e => upToQuote e.1 e.2,0)

/-- `scan_quoted_arg_with_pos`. -/
def scanQuotedArgWithPos (text : Bytes) (marker : String) : List (ℕ × Bytes) :=
  scanCalls (utf8 marker) quotedArg none 0 0 text

/-- `find_matching_close_paren`, from within so many parentheses and perhaps a string. -/
def findMatchingCloseParen : ℕ → Option UInt8 → Bytes → Option ℕ
  | _,_,[] => none
  | depth,some q,c::s =>
    if c = 92 then match s with
      | [] => none
      | _::s => (findMatchingCloseParen depth (some q) s).map (·+2)
    else (findMatchingCloseParen depth (if c = q then none else some q) s).map (·+1)
  | depth,none,c::s =>
    if quote c then (findMatchingCloseParen depth (some c) s).map (·+1)
    else if c = 40 then (findMatchingCloseParen (depth+1) none s).map (·+1)
    else if c = 41 then
      if depth = 1 then some 0 else (findMatchingCloseParen (depth-1) none s).map (·+1)
    else (findMatchingCloseParen depth none s).map (·+1)

/-- What follows the first place of a marker. -/
def afterFirst (marker : Bytes) : Bytes → Option Bytes
  | [] => none
  | c::s => if marker.isPrefixOf (c::s) then some ((c::s).drop marker.length) else afterFirst marker s

def hasAutoDepFalse (args : Bytes) : Bool :=
  match (afterFirst (utf8 "auto_dep") args).map trimStart with
  | some (c::rest) => c == 61 && (utf8 "false").isPrefixOf (trimStart rest) &&
      !((trimStart rest).drop 5).head?.any wordByte
  | _ => false

/-- A call of `push_file`; the scan goes on at its end, if it is literal or opted out. -/
def pushedFile (prev : Option UInt8) (after : Bytes) : Option Bytes × ℕ :=
  if prev.any wordByte then (none,0)
  else match openCall after with
    | none => (none,0)
    | some body =>
      match findMatchingCloseParen 1 none body with
      | none => (none,0)
      | some n =>
        let close := after.length-body.length+n
        if hasAutoDepFalse (body.take n) then (none,close)
        else match openQuote body with
          | none => (none,0)
          | some (q,rest) => (upToQuote q rest,close)

def scanPushFileCalls (text : Bytes) : List (ℕ × Bytes) :=
  scanCalls (utf8 "push_file") pushedFile none 0 0 text

/-- Names by where they stand; between the quotation marks of a text there is a text. -/
def inOrder (hits : List (ℕ × Bytes)) : List String :=
  (hits.insertionSort fun a b => a.1 ≤ b.1).filterMap fun h => ofUtf8 h.2

def scanFixtureDeps (text : Bytes) : List String :=
  inOrder (scanQuotedArgWithPos text "vm_fixture"++scanQuotedArgWithPos text "lab_fixture")

def scanRequireDeps (text : Bytes) : List String := inOrder (scanQuotedArgWithPos text "require")

def scanExternalFileDeps (text : Bytes) : List String :=
  inOrder (scanPushFileCalls text++scanQuotedArgWithPos text "depends_on_file")

/-! What the scans find. -/

/-- A marker at a place where no word goes on, a parenthesis, and a literal string. -/
structure LiteralCall (marker : String) (before args : Bytes) (name : String) (source : Bytes) : Prop where
  word : ¬before.getLast?.any wordByte
  eq : ∃ w : List Bytes, (∀ x ∈ w, x ∈ spaces) ∧ source = before++(utf8 marker++(w.flatten++40::args))
  arg : ∃ (w : List Bytes) (q : UInt8) (rest : Bytes), (∀ x ∈ w, x ∈ spaces) ∧ quote q ∧ q ∉ utf8 name ∧
    args = w.flatten++q::(utf8 name++q::rest)

/-- No white space is the beginning of another. -/
theorem space_unique {v w : Bytes} (hv : v ∈ spaces) (hw : w ∈ spaces) {t : Bytes} (h : v <+: w++t) :
    v = w := by
  have hfree : ∀ v ∈ spaces, ∀ w ∈ spaces, v <+: w → v = w := by decide +kernel
  obtain hlen | hlen := le_total v.length w.length
  · exact hfree v hv w hw (List.prefix_of_prefix_length_le h (List.prefix_append w t) hlen)
  · exact (hfree w hw v hv (List.prefix_of_prefix_length_le (List.prefix_append w t) h hlen)).symm

theorem trimSpaces_flatten {w : List Bytes} (hw : ∀ x ∈ w, x ∈ spaces) {s : Bytes}
    (hs : ∀ x ∈ spaces, ¬x <+: s) {n : ℕ} (hn : w.flatten.length ≤ n) :
    trimSpaces n (w.flatten++s) = s := by
  induction w generalizing n with
  | nil =>
    cases n with
    | zero => rfl
    | succ n =>
      have hnone : spaces.find? (·.isPrefixOf s) = none := by
        rw [List.find?_eq_none]
        intro x hx hbefore
        exact hs x hx (List.isPrefixOf_iff_prefix.mp hbefore)
      rw [List.flatten_nil,List.nil_append,trimSpaces,hnone]
  | cons x w ih =>
    obtain ⟨hx,hw⟩ := List.forall_mem_cons.mp hw
    have hpos : 0 < x.length := by
      have hall : ∀ x ∈ spaces, 0 < x.length := by decide
      exact hall x hx
    rw [List.flatten_cons,List.length_append] at hn
    obtain ⟨n,rfl⟩ := Nat.exists_eq_add_of_le' (show 1 ≤ n by omega)
    have hfind : spaces.find? (·.isPrefixOf (x++(w.flatten++s))) = some x := by
      cases hf : spaces.find? (·.isPrefixOf (x++(w.flatten++s))) with
      | none =>
        refine absurd ?_ (List.find?_eq_none.mp hf x hx)
        exact List.isPrefixOf_iff_prefix.mpr (List.prefix_append _ _)
      | some y =>
        have hy := List.find?_some hf
        rw [space_unique (List.mem_of_find?_eq_some hf) hx (List.isPrefixOf_iff_prefix.mp hy)]
    rw [List.flatten_cons,List.append_assoc,trimSpaces,hfind]
    dsimp only
    rw [List.drop_left]
    exact ih hw (by omega)

/-- White space in front of something else is dropped, and nothing else. -/
theorem trimStart_flatten {w : List Bytes} (hw : ∀ x ∈ w, x ∈ spaces) {b : UInt8} {s : Bytes}
    (hb : [b] ∉ spaces) (hascii : b < 128) : trimStart (w.flatten++b::s) = b::s := by
  have hhead : ∀ x ∈ spaces, ∀ c ∈ x.head?, c < 128 → x = [c] := by
    simp [spaces]
  have hne : ∀ x ∈ spaces, x ≠ [] := by decide
  refine trimSpaces_flatten hw ?_ (by rw [List.length_append]; omega)
  intro x hx h
  cases x with
  | nil => exact hne [] hx rfl
  | cons c x =>
    obtain ⟨t,ht⟩ := h
    obtain ⟨rfl,-⟩ := List.cons.inj ht
    apply hb
    rw [← hhead _ hx c rfl hascii]
    exact hx

theorem openCall_flatten {w : List Bytes} (hw : ∀ x ∈ w, x ∈ spaces) (body : Bytes) :
    openCall (w.flatten++40::body) = some body := by
  rw [openCall,trimStart_flatten hw (by decide) (by decide)]
  exact if_pos rfl

theorem openQuote_flatten {w : List Bytes} (hw : ∀ x ∈ w, x ∈ spaces) {q : UInt8} (hq : quote q)
    (rest : Bytes) : openQuote (w.flatten++q::rest) = some (q,rest) := by
  have hcases : q = 34 ∨ q = 39 := by simpa [quote] using hq
  have hspace : [q] ∉ spaces ∧ q < 128 := by
    obtain rfl | rfl := hcases <;> decide
  rw [openQuote,trimStart_flatten hw hspace.1 hspace.2]
  simp only [hq,if_true]

theorem trimSpaces_eq (n : ℕ) (s : Bytes) :
    ∃ w : List Bytes, (∀ x ∈ w, x ∈ spaces) ∧ s = w.flatten++trimSpaces n s := by
  induction n generalizing s with
  | zero => exact ⟨[],by simp,rfl⟩
  | succ n ih =>
    rw [trimSpaces]
    cases hfind : spaces.find? (·.isPrefixOf s) with
    | none => exact ⟨[],by simp,rfl⟩
    | some x =>
      have hbefore := List.find?_some hfind
      obtain ⟨t,rfl⟩ := List.isPrefixOf_iff_prefix.mp hbefore
      obtain ⟨w,hw,heq⟩ := ih t
      dsimp only
      rw [List.drop_left]
      refine ⟨x::w,List.forall_mem_cons.mpr ⟨List.mem_of_find?_eq_some hfind,hw⟩,?_⟩
      rw [List.flatten_cons,List.append_assoc,← heq]

theorem openCall_eq_some {s body : Bytes} (h : openCall s = some body) :
    ∃ w : List Bytes, (∀ x ∈ w, x ∈ spaces) ∧ s = w.flatten++40::body := by
  obtain ⟨w,hw,heq⟩ := trimSpaces_eq s.length s
  unfold openCall at h
  split at h
  · next c rest htrim =>
    split_ifs at h with hc
    cases h
    rw [trimStart,hc] at htrim
    exact ⟨w,hw,heq.trans (by rw [htrim])⟩
  · cases h

theorem openQuote_eq_some {s rest : Bytes} {q : UInt8} (h : openQuote s = some (q,rest)) :
    ∃ w : List Bytes, (∀ x ∈ w, x ∈ spaces) ∧ quote q ∧ s = w.flatten++q::rest := by
  obtain ⟨w,hw,heq⟩ := trimSpaces_eq s.length s
  unfold openQuote at h
  split at h
  · next c tail htrim =>
    split_ifs at h with hc
    cases h
    rw [trimStart] at htrim
    exact ⟨w,hw,hc,heq.trans (by rw [htrim])⟩
  · cases h

theorem upToQuote_append {q : UInt8} {name : Bytes} (hq : q ∉ name) (rest : Bytes) :
    upToQuote q (name++q::rest) = some name := by
  rw [upToQuote,if_pos (by simp),List.takeWhile_append_of_pos]
  · simp
  · intro b hb
    simp only [decide_eq_true_eq]
    rintro rfl
    exact hq hb

section Scan
variable {marker : Bytes} {call : Option UInt8 → Bytes → Option Bytes × ℕ} {before after name : Bytes}

/-- The scan comes to a place that no earlier one makes it pass over. -/
theorem mem_scanCalls_of_apart (hname : (call before.getLast? after).1 = some name) (hmarker : marker ≠ [])
    (hapart : ∀ u v, before++(marker++after) = u++(marker++v) → u.length < before.length →
      u.length+marker.length+(call u.getLast? v).2 ≤ before.length) {done s : Bytes} {skip : ℕ}
    (hs : before++(marker++after) = done++s) (hskip : done.length+skip ≤ before.length) :
    (before.length,name) ∈ scanCalls marker call done.getLast? skip done.length s := by
  induction s generalizing done skip with
  | nil =>
    have hlen := congrArg List.length hs
    have hpos := List.length_pos_iff.mpr hmarker
    simp only [List.length_append,List.length_nil] at hlen
    omega
  | cons c s ih =>
    have hs' : before++(marker++after) = (done++[c])++s := by rw [hs,List.append_assoc]; rfl
    have hlast : (done++[c]).getLast? = some c := List.getLast?_concat
    have hlen : (done++[c]).length = done.length+1 := by rw [List.length_append]; rfl
    -- from here on the next byte
    have hnext : ∀ skip, done.length+1+skip ≤ before.length →
        (before.length,name) ∈ scanCalls marker call (some c) skip (done.length+1) s := by
      intro skip hle
      have hgo : (done++[c]).length+skip ≤ before.length := by rw [hlen]; exact hle
      have := ih hs' hgo
      rw [hlast,hlen] at this
      exact this
    cases skip with
    | succ skip => exact hnext skip (by omega)
    | zero =>
      by_cases hhere : done.length = before.length
      · obtain ⟨rfl,hrest⟩ := List.append_inj hs hhere.symm
        have hbefore : marker.isPrefixOf (c::s) := by
          rw [List.isPrefixOf_iff_prefix,← hrest]
          exact List.prefix_append _ _
        rw [scanCalls,if_pos hbefore,← hrest,List.drop_left]
        dsimp only
        rw [hname]
        exact List.mem_append_left _ (by simp)
      · rw [scanCalls]
        split
        · next hbefore =>
          obtain ⟨v,hv⟩ := List.isPrefixOf_iff_prefix.mp hbefore
          rw [← hv,List.drop_left]
          have happart := hapart done v (by rw [hs,← hv]) (by omega)
          have hpos := List.length_pos_iff.mpr hmarker
          exact List.mem_append_right _ (hnext _ (by omega))
        · exact hnext 0 (by omega)

theorem mem_scanCalls (hname : (call before.getLast? after).1 = some name) (hmarker : marker ≠ [])
    (hapart : ∀ u v, before++(marker++after) = u++(marker++v) → u.length < before.length →
      u.length+marker.length+(call u.getLast? v).2 ≤ before.length) :
    (before.length,name) ∈ scanCalls marker call none 0 0 (before++(marker++after)) := by
  change _ ∈ scanCalls marker call (List.getLast? []) 0 ([] : Bytes).length _
  exact mem_scanCalls_of_apart hname hmarker hapart rfl (Nat.zero_le _)

/-- Behind a byte that is not of a word no marker goes on that began before. -/
theorem marker_apart (hword : ∀ b ∈ marker, wordByte b) (hbefore : ¬before.getLast?.any wordByte)
    {u v : Bytes} (h : before++(marker++after) = u++(marker++v)) (hlt : u.length < before.length) :
    u.length+marker.length ≤ before.length := by
  by_contra hover
  apply hbefore
  have hne : before ≠ [] := List.ne_nil_of_length_pos (by omega)
  rw [List.getLast?_eq_getElem?]
  have hget : before[before.length-1]? = (u++(marker++v))[before.length-1]? := by
    rw [← h,List.getElem?_append_left (by omega)]
  rw [hget,List.getElem?_append_right (by omega),List.getElem?_append_left (by omega),
    List.getElem?_eq_getElem (by omega)]
  exact hword _ (List.getElem_mem _)

end Scan

theorem mem_inOrder {hits : List (ℕ × Bytes)} {pos : ℕ} {name : String}
    (h : (pos,utf8 name) ∈ hits) : name ∈ inOrder hits :=
  List.mem_filterMap.mpr ⟨_,(List.mem_insertionSort _).mpr h,ofUtf8_utf8 name⟩

namespace LiteralCall
variable {marker name : String} {before args source : Bytes}

theorem openQuote (h : LiteralCall marker before args name source) :
    ∃ q rest, openQuote args = some (q,rest) ∧ upToQuote q rest = some (utf8 name) := by
  obtain ⟨w,q,rest,hw,hq,hno,rfl⟩ := h.arg
  exact ⟨q,_,openQuote_flatten hw hq _,upToQuote_append hno rest⟩

/-- Every literal call is found, where the marker is a word. -/
theorem mem_scanQuotedArg (h : LiteralCall marker before args name source)
    (hword : utf8 marker ≠ [] ∧ ∀ b ∈ utf8 marker, wordByte b) :
    (before.length,utf8 name) ∈ scanQuotedArgWithPos source marker := by
  obtain ⟨w,hw,rfl⟩ := h.eq
  obtain ⟨q,rest,hquote,hname⟩ := h.openQuote
  refine mem_scanCalls ?_ hword.1 ?_
  · rw [quotedArg,if_neg h.word,openCall_flatten hw]
    dsimp only
    rw [Option.bind_some,hquote,Option.bind_some,hname]
  · intro u v heq hlt
    have hzero : (quotedArg u.getLast? v).2 = 0 := by
      unfold quotedArg
      split <;> rfl
    rw [hzero,Nat.add_zero]
    exact marker_apart hword.2 h.word heq hlt

end LiteralCall

/-- A literal call of `push_file` that the scan comes to: it is closed as the scan counts parentheses
and quotation marks, it is not opted out, and it does not stand among the arguments of another call that
is literal or opted out. -/
structure PushSeen (before args : Bytes) (name : String) (source : Bytes) : Prop where
  literal : LiteralCall "push_file" before args name source
  closed : ∃ n, findMatchingCloseParen 1 none args = some n ∧ hasAutoDepFalse (args.take n) = false
  apart : ∀ u v, source = u++(utf8 "push_file"++v) → u.length < before.length →
    u.length+(utf8 "push_file").length+(pushedFile u.getLast? v).2 ≤ before.length

theorem PushSeen.mem_scanPushFileCalls {before args source : Bytes} {name : String}
    (h : PushSeen before args name source) :
    (before.length,utf8 name) ∈ scanPushFileCalls source := by
  obtain ⟨w,hw,rfl⟩ := h.literal.eq
  obtain ⟨q,rest,hquote,hname⟩ := h.literal.openQuote
  obtain ⟨n,hclose,hkept⟩ := h.closed
  refine mem_scanCalls ?_ (by decide) h.apart
  rw [pushedFile,if_neg h.literal.word,openCall_flatten hw]
  dsimp only
  rw [hclose]
  dsimp only
  rw [if_neg (by rw [hkept]; decide),hquote]
  exact hname

theorem utf8_marker : ["vm_fixture","lab_fixture","require","push_file","depends_on_file"].map utf8 =
    [[118,109,95,102,105,120,116,117,114,101],[108,97,98,95,102,105,120,116,117,114,101],
      [114,101,113,117,105,114,101],[112,117,115,104,95,102,105,108,101],
      [100,101,112,101,110,100,115,95,111,110,95,102,105,108,101]] := rfl

/-- The markers are words. -/
theorem wordByte_marker : ∀ marker ∈ ["vm_fixture","lab_fixture","require","push_file","depends_on_file"],
    utf8 marker ≠ [] ∧ ∀ b ∈ utf8 marker, wordByte b := by
  intro marker hmarker
  have hwords : ∀ bytes ∈ ["vm_fixture","lab_fixture","require","push_file","depends_on_file"].map utf8,
      bytes ≠ [] ∧ ∀ b ∈ bytes, wordByte b := by
    rw [utf8_marker]
    simp [wordByte]
  exact hwords _ (List.mem_map_of_mem hmarker)

theorem wordByte_ascii {b : UInt8} (h : wordByte b) : b < 128 := by
  simp only [wordByte,Bool.or_eq_true,Bool.and_eq_true,decide_eq_true_eq,beq_iff_eq] at h
  obtain ((⟨-,hb⟩ | ⟨-,hb⟩) | ⟨-,hb⟩) | rfl := h
  · exact UInt8.lt_of_le_of_lt hb (by decide)
  · exact UInt8.lt_of_le_of_lt hb (by decide)
  · exact UInt8.lt_of_le_of_lt hb (by decide)
  · decide

theorem LiteralCall.mem_scanFixtureDeps {marker name : String} {before args source : Bytes}
    (h : LiteralCall marker before args name source) (hmarker : marker = "vm_fixture" ∨ marker = "lab_fixture") :
    name ∈ scanFixtureDeps source := by
  obtain rfl | rfl := hmarker
  · exact mem_inOrder (List.mem_append_left _ (h.mem_scanQuotedArg (wordByte_marker _ (by simp))))
  · exact mem_inOrder (List.mem_append_right _ (h.mem_scanQuotedArg (wordByte_marker _ (by simp))))

theorem LiteralCall.mem_scanRequireDeps {name : String} {before args source : Bytes}
    (h : LiteralCall "require" before args name source) : name ∈ scanRequireDeps source :=
  mem_inOrder (h.mem_scanQuotedArg (wordByte_marker _ (by simp)))

theorem LiteralCall.mem_scanExternalFileDeps {name : String} {before args source : Bytes}
    (h : LiteralCall "depends_on_file" before args name source) : name ∈ scanExternalFileDeps source :=
  mem_inOrder (List.mem_append_right _ (h.mem_scanQuotedArg (wordByte_marker _ (by simp))))

theorem PushSeen.mem_scanExternalFileDeps {before args source : Bytes} {name : String}
    (h : PushSeen before args name source) : name ∈ scanExternalFileDeps source :=
  mem_inOrder (List.mem_append_left _ h.mem_scanPushFileCalls)

end Provium.Fixture
