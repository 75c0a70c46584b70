import Mathlib

/-! The grammar of JSON, as a reader of texts. A `\u` escape that is half of a pair stands for no character and is
refused. -/
namespace Lib

inductive Json where
  | null
  | bool (b : Bool)
  | number (q : ℚ)
  | string (s : List Char)
  | array (items : List Json)
  | object (fields : List (List Char × Json))

namespace Json

def isSpace (c : Char) : Bool := c = ' ' || c = '\t' || c = '\n' || c = '\r'

def skipSpace (cs : List Char) : List Char := cs.dropWhile isSpace

/-! ## Strings -/

/-- The escapes of one letter. -/
def unescape : Char → Option Char
  | '"' => some '"'
  | '\\' => some '\\'
  | '/' => some '/'
  | 'b' => some (Char.ofNat 8)
  | 'f' => some (Char.ofNat 12)
  | 'n' => some '\n'
  | 'r' => some '\r'
  | 't' => some '\t'
  | _ => none

def hexValue (c : Char) : Option ℕ :=
  if c.isDigit then some (c.toNat-48)
  else if 'a' ≤ c ∧ c ≤ 'f' then some (c.toNat-87)
  else if 'A' ≤ c ∧ c ≤ 'F' then some (c.toNat-55)
  else none

def codeUnit (h₁ h₂ h₃ h₄ : Char) : Option ℕ := do
  let d₁ ← hexValue h₁
  let d₂ ← hexValue h₂
  let d₃ ← hexValue h₃
  let d₄ ← hexValue h₄
  some (((d₁*16+d₂)*16+d₃)*16+d₄)

/-- The character of a pair of code units. -/
def ofPair (high low : ℕ) : Option Char :=
  if 0xD800 ≤ high ∧ high < 0xDC00 ∧ 0xDC00 ≤ low ∧ low < 0xE000 then
    some (Char.ofNat (0x10000+(high-0xD800)*0x400+(low-0xDC00)))
  else none

/-- One character more. -/
def prepend (c : Char) (r : List Char × List Char) : List Char × List Char := (c::r.1,r.2)

/-- The rest of a string, and what follows its closing quote. -/
def readString : List Char → Option (List Char × List Char)
  | [] => none
  | c::cs =>
    if c = '"' then some ([],cs)
    else if c = '\\' then
      match cs with
      | 'u'::h₁::h₂::h₃::h₄::cs => match codeUnit h₁ h₂ h₃ h₄ with
        | none => none
        | some u =>
          if u < 0xD800 ∨ 0xE000 ≤ u then (readString cs).map (prepend (Char.ofNat u))
          else match cs with
            | '\\':: 'u'::k₁::k₂::k₃::k₄::cs => match (codeUnit k₁ k₂ k₃ k₄).bind (ofPair u) with
              | some c => (readString cs).map (prepend c)
              | none => none
            | _ => none
      | e::cs => match unescape e with
        | some c => (readString cs).map (prepend c)
        | none => none
      | [] => none
    else if c.toNat < 0x20 then none
    else (readString cs).map (prepend c)

/-! ## Numbers -/

def readFraction : List Char → Option (List Char × List Char)
  | '.'::cs => if cs.takeWhile Char.isDigit = [] then none else some (cs.takeWhile Char.isDigit,cs.dropWhile Char.isDigit)
  | cs => some ([],cs)

def readDigits (cs : List Char) : Option (ℤ × List Char) :=
  if cs.takeWhile Char.isDigit = [] then none
  else some ((Nat.ofDigitChars 10 (cs.takeWhile Char.isDigit) 0 : ℤ),cs.dropWhile Char.isDigit)

def readExponent : List Char → Option (ℤ × List Char)
  | c::cs =>
    if c = 'e' ∨ c = 'E' then
      match cs with
      | '-'::cs => (readDigits cs).map fun r => (-r.1,r.2)
      | '+'::cs => readDigits cs
      | cs => readDigits cs
    else some (0,c::cs)
  | [] => some (0,[])

/-- A number without its sign. It is `0` or does not begin with it. -/
def readMagnitude (cs : List Char) : Option (ℚ × List Char) :=
  let whole := cs.takeWhile Char.isDigit
  if whole = [] ∨ whole.head? = some '0' ∧ whole ≠ ['0'] then none
  else (readFraction (cs.dropWhile Char.isDigit)).bind fun f => (readExponent f.2).map fun e =>
    ((Nat.ofDigitChars 10 (whole++f.1) 0 : ℚ)*10^(e.1-(f.1.length : ℤ)),e.2)

def readNumber : List Char → Option (ℚ × List Char)
  | '-'::cs => (readMagnitude cs).map fun r => (-r.1,r.2)
  | cs => readMagnitude cs

/-! ## Values -/

/-- What follows a name in an object is a colon. -/
def readColon (cs : List Char) : Option (List Char) :=
  match skipSpace cs with
  | ':'::cs => some cs
  | _ => none

mutual

/-- A value, with fuel for what is in it. -/
def readValue : ℕ → List Char → Option (Json × List Char)
  | 0,_ => none
  | n+1,cs => match skipSpace cs with
    | '"'::cs => (readString cs).map fun r => (.string r.1,r.2)
    | '\x7b'::cs => match skipSpace cs with
      | '\x7d'::cs => some (.object [],cs)
      | cs => (readMembers n cs).map fun r => (.object r.1,r.2)
    | '['::cs => match skipSpace cs with
      | ']'::cs => some (.array [],cs)
      | cs => (readItems n cs).map fun r => (.array r.1,r.2)
    | 't':: 'r':: 'u':: 'e'::cs => some (.bool true,cs)
    | 'f':: 'a':: 'l':: 's':: 'e'::cs => some (.bool false,cs)
    | 'n':: 'u':: 'l':: 'l'::cs => some (.null,cs)
    | cs => (readNumber cs).map fun r => (.number r.1,r.2)

/-- The fields of an object up to its end. -/
def readMembers : ℕ → List Char → Option (List (List Char × Json) × List Char)
  | 0,_ => none
  | n+1,cs => match skipSpace cs with
    | '"'::cs => (readString cs).bind fun k => (readColon k.2).bind fun cs => (readValue n cs).bind fun v =>
      match skipSpace v.2 with
      | '\x7d'::cs => some ([(k.1,v.1)],cs)
      | ','::cs => (readMembers n cs).map fun r => ((k.1,v.1)::r.1,r.2)
      | _ => none
    | _ => none

/-- The items of an array up to its end. -/
def readItems : ℕ → List Char → Option (List Json × List Char)
  | 0,_ => none
  | n+1,cs => (readValue n cs).bind fun v =>
    match skipSpace v.2 with
    | ']'::cs => some ([v.1],cs)
    | ','::cs => (readItems n cs).map fun r => (v.1::r.1,r.2)
    | _ => none

end

/-- A text that is a value, with space around it. -/
def parse (cs : List Char) : Option Json :=
  match readValue (2*cs.length+2) cs with
  | some (v,rest) => if skipSpace rest = [] then some v else none
  | none => none

/-! ## What is read of what is written -/

theorem skipSpace_cons {c : Char} (h : isSpace c = false) (cs : List Char) : skipSpace (c::cs) = c::cs := by
  rw [skipSpace,List.dropWhile_cons_of_neg (by simp [h])]

/-- A character that needs no escape. -/
theorem readString_plain {c : Char} (hquote : c ≠ '"') (hslash : c ≠ '\\') (hcontrol : 0x20 ≤ c.toNat) (cs : List Char) :
    readString (c::cs) = (readString cs).map (prepend c) := by
  rw [readString.eq_def]
  simp only [if_neg hquote,if_neg hslash,if_neg (Nat.not_lt.mpr hcontrol)]

theorem readString_escape {e c : Char} (h : unescape e = some c) (cs : List Char) :
    readString ('\\'::e::cs) = (readString cs).map (prepend c) := by
  have he : e ≠ 'u' := by
    rintro rfl
    cases h
  rw [readString.eq_def]
  simp only [if_neg (by decide : ¬ '\\' = '"'),if_true]
  split
  · next heq => exact absurd (List.cons.inj heq).1 he
  · next heq =>
    obtain ⟨rfl,rfl⟩ := List.cons.inj heq
    rw [h]
  · next heq => cases heq

theorem readString_codeUnit {h₁ h₂ h₃ h₄ : Char} {u : ℕ} (h : codeUnit h₁ h₂ h₃ h₄ = some u) (hu : u < 0xD800)
    (cs : List Char) :
    readString ('\\':: 'u'::h₁::h₂::h₃::h₄::cs) = (readString cs).map (prepend (Char.ofNat u)) := by
  rw [readString.eq_def]
  simp only [if_neg (by decide : ¬ '\\' = '"'),if_true,h,if_pos (Or.inl hu)]

theorem readString_close (cs : List Char) : readString ('"'::cs) = some ([],cs) := by
  rw [readString.eq_def]
  simp only [if_true]

/-- What may follow a number. -/
def EndsNumber (cs : List Char) : Prop :=
  ∀ c, cs.head? = some c → c.isDigit = false ∧ c ≠ '.' ∧ c ≠ 'e' ∧ c ≠ 'E'

/-- A number with a digit before its last begins with no zero. -/
theorem head?_toDigits {n : ℕ} (hn : 0 < n) : (Nat.toDigits 10 n).head? ≠ some '0' := by
  induction n using Nat.strong_induction_on with
  | _ n ih =>
    obtain hlt | hle := Nat.lt_or_ge n 10
    · rw [Nat.toDigits_of_lt_base hlt,List.head?_cons]
      intro h
      have hzero := Option.some.inj h
      rw [Nat.digitChar_eq_zero] at hzero
      omega
    · rw [Nat.toDigits_of_base_le (by norm_num) hle,List.head?_append_of_ne_nil _ Nat.toDigits_ne_nil]
      exact ih (n/10) (Nat.div_lt_self hn (by norm_num)) (Nat.div_pos hle (by norm_num))

theorem readFraction_end {cs : List Char} (h : EndsNumber cs) : readFraction cs = some ([],cs) := by
  unfold readFraction
  split
  · next cs => exact absurd rfl (h '.' rfl).2.1
  · rfl

theorem readExponent_end {cs : List Char} (h : EndsNumber cs) : readExponent cs = some (0,cs) := by
  unfold readExponent
  split
  · next c cs =>
    obtain ⟨-,-,he,hE⟩ := h c rfl
    rw [if_neg (by simp [he,hE])]
  · rfl

theorem readNumber_toDigits (n : ℕ) {rest : List Char} (h : EndsNumber rest) :
    readNumber (Nat.toDigits 10 n++rest) = some ((n : ℚ),rest) := by
  have hdigits : ∀ c ∈ Nat.toDigits 10 n, c.isDigit := fun c hc =>
    Nat.isDigit_of_mem_toDigits (by norm_num) (by norm_num) hc
  have htake : (Nat.toDigits 10 n++rest).takeWhile Char.isDigit = Nat.toDigits 10 n := by
    rw [List.takeWhile_append_of_pos hdigits]
    cases rest with
    | nil => simp
    | cons c rest => simp [(h c rfl).1]
  have hdrop : (Nat.toDigits 10 n++rest).dropWhile Char.isDigit = rest := by
    rw [List.dropWhile_append_of_pos hdigits]
    cases rest with
    | nil => rfl
    | cons c rest => simp [(h c rfl).1]
  have hmagnitude : readMagnitude (Nat.toDigits 10 n++rest) = some ((n : ℚ),rest) := by
    unfold readMagnitude
    simp only [htake,hdrop,readFraction_end h,readExponent_end h,Option.bind_some,Option.map_some,List.append_nil,
      Nat.ofDigitChars_ten_toDigits,List.length_nil]
    rw [if_neg]
    · simp
    · rintro (hnil | ⟨hzero,hne⟩)
      · exact Nat.toDigits_ne_nil hnil
      · obtain rfl | hpos := Nat.eq_zero_or_pos n
        · exact hne rfl
        · exact head?_toDigits hpos hzero
  unfold readNumber
  split
  · next cs heq =>
    obtain ⟨c,ds,hc⟩ := List.exists_cons_of_ne_nil (Nat.toDigits_ne_nil (n := n) (b := 10))
    rw [hc,List.cons_append] at heq
    have hminus := hdigits c (hc ▸ List.mem_cons_self)
    rw [(List.cons.inj heq).1] at hminus
    cases hminus
  · exact hmagnitude

/-! ## Texts of values -/

/-- A text that is read as the value, with that much fuel and whatever comes after it that cannot belong to it. -/
def Spells (text : List Char) (v : Json) (fuel : ℕ) : Prop :=
  ∀ n ≥ fuel, ∀ rest, EndsNumber rest → readValue n (text++rest) = some (v,rest)

/-- What is between the quotes of a string. -/
def SpellsName (body name : List Char) : Prop := ∀ rest, readString (body++ '"'::rest) = some (name,rest)

/-- A field whose name is quoted. -/
def fieldText (f : List Char × List Char) : List Char := '"'::(f.1++ '"':: ':'::f.2)

def objectText (fields : List (List Char × List Char)) : List Char :=
  '\x7b'::([','].intercalate (fields.map fieldText)++['\x7d'])

theorem endsNumber_cons {c : Char} (h : c = ',' ∨ c = '\x7d') (cs : List Char) : EndsNumber (c::cs) := by
  intro c' hc
  obtain rfl := Option.some.inj hc
  obtain rfl | rfl := h <;> decide

theorem spells_number (n : ℕ) : Spells (Nat.toDigits 10 n) (.number n) 1 := by
  intro fuel hfuel rest hrest
  obtain ⟨fuel,rfl⟩ := Nat.exists_eq_add_of_le' hfuel
  obtain ⟨c,ds,hc⟩ := List.exists_cons_of_ne_nil (Nat.toDigits_ne_nil (n := n) (b := 10))
  have hdigit : c.isDigit := Nat.isDigit_of_mem_toDigits (by norm_num) (by norm_num) (hc ▸ List.mem_cons_self)
  have hspace : isSpace c = false := by
    by_contra h
    simp only [isSpace,Bool.not_eq_false,Bool.or_eq_true,decide_eq_true_eq] at h
    obtain ((rfl | rfl) | rfl) | rfl := h <;> cases hdigit
  have hskip : skipSpace (Nat.toDigits 10 n++rest) = Nat.toDigits 10 n++rest := by
    rw [hc,List.cons_append,skipSpace_cons hspace]
  have hread := readNumber_toDigits n hrest
  rw [readValue,hskip]
  rw [hc,List.cons_append] at hread ⊢
  split
  all_goals first
    | next heq =>
      obtain ⟨rfl,-⟩ := List.cons.inj heq
      cases hdigit
    | skip
  rw [hread]
  rfl

/-- One field, and what comes after it. -/
theorem readMembers_field {f : List Char × List Char} {name : List Char} {v : Json} {fuel n : ℕ}
    (hname : SpellsName f.1 name) (hvalue : Spells f.2 v fuel) (hn : fuel ≤ n) {c : Char} (hc : c = ',' ∨ c = '\x7d')
    (cs : List Char) : readMembers (n+1) (fieldText f++c::cs) =
      if c = ',' then (readMembers n cs).map fun r => ((name,v)::r.1,r.2) else some ([(name,v)],cs) := by
  have htext : fieldText f++c::cs = '"'::(f.1++ '"':: ':'::(f.2++c::cs)) := by simp [fieldText]
  have hcolon : readColon (':'::(f.2++c::cs)) = some (f.2++c::cs) := by
    rw [readColon,skipSpace_cons (by decide)]
    rfl
  have hname' : readString (f.1++ '"':: ':'::(f.2++c::cs)) = some (name,':'::(f.2++c::cs)) := hname _
  have hvalue' : readValue n (f.2++c::cs) = some (v,c::cs) := hvalue n hn _ (endsNumber_cons hc cs)
  have hskip : skipSpace (c::cs) = c::cs := by
    refine skipSpace_cons ?_ cs
    obtain rfl | rfl := hc <;> decide
  rw [htext,readMembers,skipSpace_cons (by decide)]
  simp only [hname',hcolon,hvalue',Option.bind_some,hskip]
  obtain rfl | rfl := hc
  · rw [if_pos rfl]
    rfl
  · rw [if_neg (by decide)]
    rfl

variable {fields : List (List Char × List Char)} {values : List (List Char × Json)} {fuel : ℕ}

/-- The fields up to the closing brace, of which each takes one step. -/
theorem readMembers_fields (h : List.Forall₂ (fun f v => SpellsName f.1 v.1 ∧ Spells f.2 v.2 fuel) fields values)
    (hne : fields ≠ []) (rest : List Char) {n : ℕ} (hn : fuel+fields.length ≤ n) :
    readMembers n ([','].intercalate (fields.map fieldText)++ '\x7d'::rest) = some (values,rest) := by
  induction h generalizing n with
  | nil => exact absurd rfl hne
  | @cons f v fields values hf htail ih =>
    obtain ⟨hname,hvalue⟩ := hf
    rw [List.length_cons] at hn
    obtain ⟨n,rfl⟩ : ∃ m, n = m+1 := ⟨n-1,by omega⟩
    cases fields with
    | nil =>
      cases htail
      have hfield := readMembers_field hname hvalue (by omega : fuel ≤ n) (.inr rfl) rest
      simpa using hfield
    | cons f' fields =>
      have hfield := readMembers_field hname hvalue (by omega : fuel ≤ n) (.inl rfl)
        ([','].intercalate ((f'::fields).map fieldText)++ '\x7d'::rest)
      rw [if_pos rfl,ih (List.cons_ne_nil _ _) (by omega)] at hfield
      rw [List.map_cons,List.map_cons,List.intercalate_cons_cons,← List.map_cons]
      simpa using hfield

theorem spells_object (h : List.Forall₂ (fun f v => SpellsName f.1 v.1 ∧ Spells f.2 v.2 fuel) fields values) :
    Spells (objectText fields) (.object values) (fuel+fields.length+1) := by
  intro n hn rest _
  obtain ⟨n,rfl⟩ : ∃ m, n = m+1 := ⟨n-1,by omega⟩
  have htext : objectText fields++rest = '\x7b'::([','].intercalate (fields.map fieldText)++ '\x7d'::rest) := by
    simp [objectText]
  rw [htext,readValue,skipSpace_cons (by decide)]
  cases h with
  | nil => rfl
  | @cons f v fields values hf htail =>
    have hmembers := readMembers_fields (.cons hf htail) (List.cons_ne_nil _ _) rest (n := n) (by omega)
    obtain ⟨cs,hcs⟩ : ∃ cs, [','].intercalate ((f::fields).map fieldText)++ '\x7d'::rest = '"'::cs := by
      cases fields with
      | nil => exact ⟨_,by simp [fieldText]; rfl⟩
      | cons f' fields =>
        rw [List.map_cons,List.map_cons,List.intercalate_cons_cons]
        exact ⟨_,by simp [fieldText]; rfl⟩
    rw [hcs] at hmembers ⊢
    simp only [skipSpace_cons (by decide : isSpace '"' = false)]
    change Option.map _ (readMembers n ('"'::cs)) = _
    rw [hmembers]
    rfl

/-- Every field takes at least one character. -/
theorem length_le_objectText (fields : List (List Char × List Char)) : fields.length ≤ (objectText fields).length := by
  have hfields : fields.length ≤ ([','].intercalate (fields.map fieldText)).length := by
    induction fields with
    | nil => exact Nat.zero_le _
    | cons f fields ih =>
      cases fields with
      | nil => simp [fieldText]
      | cons f' fields =>
        rw [List.map_cons,List.map_cons,List.intercalate_cons_cons,← List.map_cons,List.length_append,List.length_append]
        rw [List.length_cons]
        have hcomma : [','].length = 1 := rfl
        omega
  rw [objectText,List.length_cons,List.length_append]
  omega

/-- A text that is a value with the fuel that its length gives is parsed to it. -/
theorem parse_of_spells {text : List Char} {v : Json} {fuel : ℕ} (h : Spells text v fuel)
    (hfuel : fuel ≤ 2*text.length+2) : parse text = some v := by
  have hread := h _ hfuel [] fun c hc => by cases hc
  rw [List.append_nil] at hread
  rw [parse,hread]
  rfl

end Json
end Lib
