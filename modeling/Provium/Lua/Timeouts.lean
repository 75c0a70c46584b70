import Provium.Lib.Binary64
import Provium.Lua.Runner
import Provium.Qmp.Handshake

/-! What the runner makes of `meta.timeout` and `provium.timeout`: the numbers are those of binary64, the texts
are read as `f64::from_str` reads them, and `Duration::from_secs_f64` panics on what is no duration. -/
namespace Provium.Lua
open Lib Provium.Fixture

/-! ## Rust's numbers -/

/-- What `f64::from_str` reads, before it is rounded. -/
inductive Numeral where
  | nan
  | infinity (negative : Bool)
  | decimal (negative : Bool) (value : ℚ)
  deriving DecidableEq

/-- Digits, and nothing else. -/
def readDigits (cs : List Char) : Option ℕ :=
  if cs ≠ [] ∧ cs.all Char.isDigit then some (Nat.ofDigitChars 10 cs 0) else none

def readExponent : List Char → Option ℤ
  | [] => some 0
  | c::cs =>
    if c = 'e' ∨ c = 'E' then
      match cs with
      | '-'::cs => (readDigits cs).map fun n => -(n : ℤ)
      | '+'::cs => (readDigits cs).map fun n => (n : ℤ)
      | cs => (readDigits cs).map fun n => (n : ℤ)
    else none

/-- Digits with at most one point and an exponent. -/
def readDecimal (cs : List Char) : Option ℚ :=
  let whole := cs.takeWhile Char.isDigit
  let rest := cs.dropWhile Char.isDigit
  let pointed := rest.head? = some '.'
  let fraction := if pointed then rest.tail.takeWhile Char.isDigit else []
  let rest := if pointed then rest.tail.dropWhile Char.isDigit else rest
  if whole++fraction = [] then none
  else (readExponent rest).map fun e => (Nat.ofDigitChars 10 (whole++fraction) 0 : ℚ)*10^(e-(fraction.length : ℤ))

/-- `nan`, `inf` and `infinity`, in any case. -/
def readSpecial (negative : Bool) (cs : List Char) : Option Numeral :=
  let lower := cs.map Char.toLower
  if lower = "nan".toList then some .nan
  else if lower = "inf".toList ∨ lower = "infinity".toList then some (.infinity negative)
  else none

def readUnsigned (negative : Bool) (cs : List Char) : Option Numeral :=
  match readDecimal cs with
  | some v => some (.decimal negative v)
  | none => readSpecial negative cs

def readNumeral : List Char → Option Numeral
  | '-'::cs => readUnsigned true cs
  | '+'::cs => readUnsigned false cs
  | cs => readUnsigned false cs

def Numeral.toF64 : Numeral → Binary64
  | .nan => .nan
  | .infinity negative => .infinity negative
  | .decimal negative v => .ofRat negative v

/-- `Duration::from_secs_f64`, in nanoseconds; `none` where it panics. -/
def fromSecsF64 : Binary64 → Option ℕ
  | .nan => none
  | .infinity _ => none
  | .finite negative u _ =>
    if negative ∧ u ≠ 0 then none
    else if u < 2^(64+Binary64.grain) then some (roundEven (Binary64.value u*10^9))
    else none

/-! ## Durations -/

/-- The units of `parse_duration_str`. -/
inductive TimeUnit where
  | ms
  | s
  | m
  | h
  deriving DecidableEq, Repr

namespace TimeUnit

def seconds : TimeUnit → ℚ
  | .ms => 1/1000
  | .s => 1
  | .m => 60
  | .h => 3600

def factor (unit : TimeUnit) : Binary64 := .ofRat false unit.seconds

end TimeUnit

def trimText (cs : List Char) : List Char := (cs.dropWhile Qmp.isSpace).rdropWhile Qmp.isSpace

/-- `str::strip_suffix` -/
def stripSuffix (suffix cs : List Char) : Option (List Char) :=
  if suffix <:+ cs then some (cs.take (cs.length-suffix.length)) else none

/-- A text without its unit, and its unit. -/
def splitUnit (cs : List Char) : List Char × TimeUnit :=
  match stripSuffix ['m','s'] cs with
  | some stripped => (stripped,.ms)
  | none => match stripSuffix ['s'] cs with
    | some stripped => (stripped,.s)
    | none => match stripSuffix ['m'] cs with
      | some stripped => (stripped,.m)
      | none => match stripSuffix ['h'] cs with
        | some stripped => (stripped,.h)
        | none => (cs,.s)

/-- `parse_duration_str` -/
def parseDurationStr (cs : List Char) : Option Binary64 :=
  let (num,unit) := splitUnit (trimText cs)
  (readNumeral (trimText num)).map fun n => n.toF64.mul unit.factor

def rustNumbers (showList : List Bytes → Bytes) (showDuration : ℕ → Bytes) : Rust Binary64 where
  ofInt := .ofInt
  positive := Binary64.positive
  fromSecs := fromSecsF64
  parseDuration s := (ofUtf8 s).bind fun t => parseDurationStr t.toList
  showList := showList
  showDuration := showDuration

example : (parseDurationStr " 90s".toList,parseDurationStr "1.5e-1 h".toList,parseDurationStr "s".toList) =
    (some (.ofRat false 90),some (.ofRat false 540),none) := by decide +kernel

/-- A value of the file or of a test that can be had: its integers are those of 64 bits. -/
def InRange : MetaValue Binary64 → Prop
  | .int n => -2^63 ≤ n ∧ n < 2^63
  | _ => True

/-- Nothing, or a time that `Duration` can hold. -/
def Deadline.Sound (deadline : Deadline) : Prop := ∃ d, deadline = some d ∧ ∀ n ∈ d, n < 2^64*10^9

/-- The decimal numbers of a unit that make a duration. -/
def TimeUnit.Within (unit : TimeUnit) (negative : Bool) (v : ℚ) : Prop :=
  match negative,unit with
  | false,.ms => v < 18446744073709550567424
  | false,.s => v < 18446744073709550592
  | false,.m => v ≤ 307445734561825824
  | false,.h => v ≤ 10248191152060861/2
  | true,.ms => v < 999/2^1075
  | true,_ => v ≤ 1/2^1075

def Numeral.Within (unit : TimeUnit) : Numeral → Prop
  | .nan => False
  | .infinity _ => False
  | .decimal negative v => unit.Within negative v

/-- What makes no duration is no number either. -/
def UsableText (cs : List Char) : Prop :=
  ∀ n, readNumeral (trimText (splitUnit (trimText cs)).1) = some n → n.Within (splitUnit (trimText cs)).2

def UsableNumber : Binary64 → Prop
  | .infinity false => False
  | .finite false u _ => u < 2^(64+Binary64.grain)
  | _ => True

def UsableTimeout : MetaValue Binary64 → Prop
  | .float x => UsableNumber x
  | .str s => ∀ t, ofUtf8 s = some t → UsableText t.toList
  | _ => True

/-! ## What is a duration -/

theorem Numeral.value_nonneg {cs : List Char} {negative : Bool} {v : ℚ}
    (h : readNumeral cs = some (.decimal negative v)) : 0 ≤ v := by
  have hdecimal : ∀ cs v, readDecimal cs = some v → 0 ≤ v := by
    intro cs v hv
    simp only [readDecimal] at hv
    split_ifs at hv
    all_goals
      obtain ⟨e,-,rfl⟩ := Option.map_eq_some_iff.mp hv
      positivity
  have hunsigned : ∀ b cs, readUnsigned b cs = some (.decimal negative v) → 0 ≤ v := by
    intro b cs hv
    unfold readUnsigned at hv
    split at hv
    · next w hw =>
      obtain ⟨-,rfl⟩ := Numeral.decimal.inj (Option.some.inj hv)
      exact hdecimal cs w hw
    · simp only [readSpecial] at hv
      split_ifs at hv <;> cases hv
  unfold readNumeral at h
  split at h <;> exact hunsigned _ _ h

theorem fromSecsF64_finite (negative : Bool) {u : ℕ} (hu : Binary64.Fits u) :
    fromSecsF64 (.finite negative u hu) = if negative ∧ u ≠ 0 then none
      else if u < 2^(64+Binary64.grain) then some (roundEven (Binary64.value u*10^9)) else none := rfl

theorem fromSecsF64_lt {x : Binary64} {n : ℕ} (h : fromSecsF64 x = some n) : n < 2^64*10^9 := by
  cases x with
  | nan => cases h
  | infinity _ => cases h
  | finite negative u hu =>
    rw [fromSecsF64_finite] at h
    split_ifs at h with hneg hlt
    obtain rfl := Option.some.inj h
    have hseconds := (Binary64.value_le_iff u (2^53-1) 11).mpr
      ((hu.2.le_iff_lt_pow (11+Binary64.grain)).mpr (hlt.trans_eq (by ring)))
    have hround : roundEven (Binary64.value u*10^9) ≤ (2^53-1)*2^11*10^9 := by
      have hnonneg := Binary64.value_nonneg u
      refine (roundEven_le_iff (mul_nonneg hnonneg (by norm_num)) _).mpr (.inl ?_)
      push_cast at hseconds ⊢
      norm_num at hseconds ⊢
      linarith
    exact hround.trans_lt (by norm_num)

theorem sixtyFour : 64+Binary64.grain = 53+(11+Binary64.grain) := by omega

open Binary64 in
/-- A product makes a duration where it is rounded to zero, or to less than 2^64 and is not negative. -/
theorem fromSecsF64_mul (negative : Bool) {v : ℚ} (hv : 0 ≤ v) {w : ℕ} (hfits : Fits w) (hw : 1/1024 ≤ value w) :
    (fromSecsF64 ((Binary64.ofRat negative v).mul (.finite false w hfits))).isSome ↔
      roundUnits (roundUnits (v*2^grain)*value w) = 0 ∨
        negative = false ∧ roundUnits (roundUnits (v*2^grain)*value w) < 2^(64+grain) := by
  have hpow : 2^(64+grain) ≤ 2^(1024+grain) := Nat.pow_le_pow_right Nat.two_pos (by omega)
  by_cases hx : roundUnits (v*2^grain) < 2^(1024+grain)
  · obtain ⟨hu,hx⟩ := ofRat_of_lt negative hv hx
    have hproduct : value (roundUnits (v*2^grain))*value w*2^grain = roundUnits (v*2^grain)*value w := by
      rw [mul_right_comm,value_mul_grain]
    rw [hx,mul_finite,Bool.xor_false]
    by_cases hp : roundUnits (value (roundUnits (v*2^grain))*value w*2^grain) < 2^(1024+grain)
    · obtain ⟨hp',heq⟩ := ofRat_of_lt negative (mul_nonneg (value_nonneg _) (value_nonneg _)) hp
      rw [heq,fromSecsF64_finite,← hproduct]
      generalize roundUnits (value (roundUnits (v*2^grain))*value w*2^grain) = p at hp
      cases negative with
      | false =>
        by_cases hlt : p < 2^(64+grain)
        · simp [hlt]
        · have hp : p ≠ 0 := by
            rintro rfl
            exact hlt (by positivity)
          simp [hlt,hp]
      | true =>
        by_cases hp : p = 0
        · simp [hp]
        · simp [hp]
    · rw [ofRat_of_not_lt negative hp,← hproduct]
      refine iff_of_false (by simp [fromSecsF64]) ?_
      have hpos : 0 < 2^(1024+grain) := by positivity
      omega
  · have hlarge : (2 : ℚ)^(1024+grain) ≤ roundUnits (v*2^grain) := by exact_mod_cast not_lt.mp hx
    have hpos : w ≠ 0 := by
      rintro rfl
      norm_num [value] at hw
    have hp : 2^(64+grain) ≤ roundUnits (roundUnits (v*2^grain)*value w) := by
      have hle : (2 : ℚ)^(74+grain) ≤ 2^(1024+grain) := pow_le_pow_right₀ one_le_two (by omega)
      have hmul := mul_le_mul (hle.trans hlarge) hw (by norm_num) (Nat.cast_nonneg _)
      rw [sixtyFour]
      refine pow_le_roundUnits (le_trans (le_of_eq ?_) hmul)
      rw [← sixtyFour,pow_add,pow_add]
      ring
    rw [ofRat_of_not_lt negative hx,infinity_mul _ _ hfits hpos]
    refine iff_of_false (by simp [fromSecsF64]) ?_
    have hpos : 0 < 2^(64+grain) := by positivity
    omega

open Binary64 in
/-- The numbers whose product with a factor is rounded to less than 2^64. -/
theorem product_lt_iff {v c : ℚ} {m e : ℕ} (hv : 0 ≤ v) (hc : 0 ≤ c) (hm : m < 2^53) (hm' : 2^52 ≤ m)
    (hbelow : m*2^e*c < (2^53-1/2)*2^11) (habove : (2^53-1/2)*2^11 < (m+1)*2^e*c) :
    roundUnits (roundUnits (v*2^grain)*c) < 2^(64+grain) ↔
      v < (m+1/2)*2^e ∨ v = (m+1/2)*2^e ∧ m%2 = 0 := by
  have hgrain : (0 : ℚ) < 2^grain := by positivity
  have hshort := short_roundUnits (mul_nonneg hv hgrain.le)
  have hproduct := short_roundUnits (mul_nonneg (Nat.cast_nonneg (roundUnits (v*2^grain))) hc)
  have hcut : (((2^53-1 : ℕ) : ℚ)+1/2)*2^(11+grain) = (2^53-1/2)*2^11*2^grain := by
    rw [pow_add]
    push_cast
    ring
  have hmul : roundUnits (roundUnits (v*2^grain)*c) ≤ (2^53-1)*2^(11+grain) ↔
      roundUnits (v*2^grain) ≤ m*2^(e+grain) := by
    refine roundUnits_mul_le_iff hshort hc (by norm_num) (.inr (by norm_num)) (.inr hm') ?_ ?_
    · rw [hcut,pow_add]
      exact lt_of_eq_of_lt (by ring) (mul_lt_mul_of_pos_right hbelow hgrain)
    · rw [hcut,pow_add]
      exact (mul_lt_mul_of_pos_right habove hgrain).trans_eq (by ring)
  rw [sixtyFour,← hproduct.le_iff_lt_pow,hmul,roundUnits_le_iff (mul_nonneg hv hgrain.le) hm (.inr hm'),pow_add,
    ← mul_assoc,mul_lt_mul_iff_left₀ hgrain,mul_left_inj' hgrain.ne']

open Binary64 in
/-- The numbers whose product with a factor is rounded to zero. -/
theorem product_eq_zero_iff {v c : ℚ} {m : ℕ} (hv : 0 ≤ v) (hc : 0 ≤ c) (hm : m < 2^53) (hbelow : m*c < 1/2)
    (habove : 1/2 < (m+1)*c) : roundUnits (roundUnits (v*2^grain)*c) = 0 ↔
      v*2^grain < m+1/2 ∨ v*2^grain = m+1/2 ∧ m%2 = 0 := by
  have hgrain : (0 : ℚ) < 2^grain := by positivity
  have hmul : roundUnits (roundUnits (v*2^grain)*c) ≤ 0*2^0 ↔ roundUnits (v*2^grain) ≤ m*2^0 :=
    roundUnits_mul_le_iff (short_roundUnits (mul_nonneg hv hgrain.le)) hc (by norm_num) (.inl rfl) (.inl rfl)
      (by simpa using hbelow) (by simpa using habove)
  have hcut := roundUnits_le_iff (mul_nonneg hv hgrain.le) hm (.inl (rfl : 0 = 0))
  rw [hcut,pow_zero,pow_zero,mul_one,mul_one] at hmul
  rw [← Nat.le_zero]
  exact hmul

def TimeUnit.units : TimeUnit → ℕ
  | .ms => 1152921504606847*2^1014
  | .s => 2^1074
  | .m => 60*2^1074
  | .h => 3600*2^1074

theorem TimeUnit.factor_eq (unit : TimeUnit) : ∃ hfits, unit.factor = .finite false unit.units hfits := by
  cases unit <;> exact ⟨by decide +kernel,by decide +kernel⟩

/-- The value of a unit's factor, which for `ms` is not quite a thousandth. -/
def TimeUnit.value : TimeUnit → ℚ
  | .ms => 1152921504606847/2^60
  | .s => 1
  | .m => 60
  | .h => 3600

theorem TimeUnit.value_units (unit : TimeUnit) : Binary64.value unit.units = unit.value := by
  cases unit <;> decide +kernel

theorem TimeUnit.isSome_iff (unit : TimeUnit) (negative : Bool) {v : ℚ} (hv : 0 ≤ v) :
    (fromSecsF64 ((Binary64.ofRat negative v).mul unit.factor)).isSome ↔ unit.Within negative v := by
  obtain ⟨hfits,hfactor⟩ := unit.factor_eq
  have hlow : 1/1024 ≤ unit.value := by cases unit <;> norm_num [TimeUnit.value]
  have hc : 0 ≤ unit.value := le_trans (by norm_num) hlow
  rw [hfactor,fromSecsF64_mul negative hv hfits (by rwa [unit.value_units]),unit.value_units]
  cases negative with
  | false =>
    have hzero : ∀ p, p = 0 ∨ false = false ∧ p < 2^(64+Binary64.grain) ↔ p < 2^(64+Binary64.grain) := by
      intro p
      have hpos : 0 < 2^(64+Binary64.grain) := by positivity
      constructor
      · rintro (rfl | ⟨-,h⟩)
        · exact hpos
        · exact h
      · exact fun h => .inr ⟨rfl,h⟩
    rw [hzero]
    cases unit with
    | ms =>
      rw [product_lt_iff (m := 8796093022207999) (e := 21) hv hc (by norm_num) (by norm_num)
        (by norm_num [TimeUnit.value]) (by norm_num [TimeUnit.value])]
      norm_num [TimeUnit.Within]
    | s =>
      rw [product_lt_iff (m := 9007199254740991) (e := 11) hv hc (by norm_num) (by norm_num)
        (by norm_num [TimeUnit.value]) (by norm_num [TimeUnit.value])]
      norm_num [TimeUnit.Within]
    | m =>
      rw [product_lt_iff (m := 4803839602528528) (e := 6) hv hc (by norm_num) (by norm_num)
        (by norm_num [TimeUnit.value]) (by norm_num [TimeUnit.value])]
      norm_num [TimeUnit.Within,le_iff_lt_or_eq]
    | h =>
      rw [product_lt_iff (m := 5124095576030430) (e := 0) hv hc (by norm_num) (by norm_num)
        (by norm_num [TimeUnit.value]) (by norm_num [TimeUnit.value])]
      norm_num [TimeUnit.Within,le_iff_lt_or_eq]
  | true =>
    have hgrain : (0 : ℚ) < 2^Binary64.grain := by positivity
    have hpow : (2 : ℚ)^1075 = 2*2^Binary64.grain := pow_succ' 2 1074
    have hzero : ∀ p, p = 0 ∨ true = false ∧ p < 2^(64+Binary64.grain) ↔ p = 0 := by simp
    -- half of the least magnitude, and of two nearest ones zero is the even one
    have hhalf : v*2^Binary64.grain < 1/2 ∨ v*2^Binary64.grain = 1/2 ↔ v ≤ 1/2^1075 := by
      rw [← le_iff_lt_or_eq,← le_div_iff₀ hgrain,hpow,div_div]
    rw [hzero]
    cases unit with
    | ms =>
      rw [product_eq_zero_iff (m := 499) hv hc (by norm_num) (by norm_num [TimeUnit.value])
        (by norm_num [TimeUnit.value]),← lt_div_iff₀ hgrain]
      have hcut : (((499 : ℕ) : ℚ)+1/2)/2^Binary64.grain = 999/2^1075 := by
        rw [hpow,← div_div]
        norm_num
      rw [hcut]
      exact or_iff_left fun h => absurd h.2 (by norm_num)
    | s =>
      rw [product_eq_zero_iff (m := 0) hv hc (by norm_num) (by norm_num [TimeUnit.value])
        (by norm_num [TimeUnit.value])]
      rw [Nat.cast_zero,zero_add]
      exact (or_congr_right (and_iff_left (Nat.zero_mod 2))).trans hhalf
    | m =>
      rw [product_eq_zero_iff (m := 0) hv hc (by norm_num) (by norm_num [TimeUnit.value])
        (by norm_num [TimeUnit.value])]
      rw [Nat.cast_zero,zero_add]
      exact (or_congr_right (and_iff_left (Nat.zero_mod 2))).trans hhalf
    | h =>
      rw [product_eq_zero_iff (m := 0) hv hc (by norm_num) (by norm_num [TimeUnit.value])
        (by norm_num [TimeUnit.value])]
      rw [Nat.cast_zero,zero_add]
      exact (or_congr_right (and_iff_left (Nat.zero_mod 2))).trans hhalf

theorem Numeral.isSome_iff {cs : List Char} {n : Numeral} (h : readNumeral cs = some n) (unit : TimeUnit) :
    (fromSecsF64 (n.toF64.mul unit.factor)).isSome ↔ n.Within unit := by
  obtain ⟨hfits,hfactor⟩ := unit.factor_eq
  cases n with
  | nan =>
    rw [hfactor]
    exact iff_of_false Bool.false_ne_true id
  | infinity negative =>
    rw [hfactor,Numeral.toF64,Binary64.infinity_mul]
    · exact iff_of_false Bool.false_ne_true id
    · cases unit <;> exact Nat.pos_iff_ne_zero.mp (by norm_num [TimeUnit.units])
  | decimal negative v => exact unit.isSome_iff negative (Numeral.value_nonneg h)

/-- The deadline that a text makes. -/
theorem parseDurationStr_iff (cs : List Char) :
    (∀ x, parseDurationStr cs = some x → (fromSecsF64 x).isSome) ↔ UsableText cs := by
  have hparse : parseDurationStr cs = (readNumeral (trimText (splitUnit (trimText cs)).1)).map fun n =>
      n.toF64.mul (splitUnit (trimText cs)).2.factor := rfl
  rw [hparse,UsableText]
  cases hn : readNumeral (trimText (splitUnit (trimText cs)).1) with
  | none => simp
  | some n =>
    simp only [Option.map_some,Option.some.injEq,forall_eq']
    exact n.isSome_iff hn _

theorem fromSecsF64_positive {x : Binary64} : (x.positive → (fromSecsF64 x).isSome) ↔ UsableNumber x := by
  cases x with
  | nan => exact iff_of_true (fun h => by cases h) trivial
  | infinity negative =>
    cases negative with
    | false => exact iff_of_false (fun h => Bool.false_ne_true (h rfl)) id
    | true => exact iff_of_true (fun h => by cases h) trivial
  | finite negative u hu =>
    cases negative with
    | false =>
      rw [fromSecsF64_finite]
      by_cases hlt : u < 2^(64+Binary64.grain)
      · exact iff_of_true (fun _ => by simp [hlt]) hlt
      · refine iff_of_false (fun h => ?_) hlt
        have hpos : 0 < 2^(64+Binary64.grain) := by positivity
        have hu : u ≠ 0 := by omega
        simp [hlt,Binary64.positive,hu] at h
    | true => exact iff_of_true (fun h => by cases h) trivial

theorem fromSecsF64_ofInt {n : ℤ} (hpos : 0 < n) (hlt : n < 2^63) : (fromSecsF64 (.ofInt n)).isSome := by
  have hnonneg : (0 : ℚ) ≤ n.natAbs := Nat.cast_nonneg _
  have hgrain : (0 : ℚ) < 2^Binary64.grain := by positivity
  have habs : (n.natAbs : ℚ) < 2^63 := by
    have h : n.natAbs < 2^63 := by omega
    exact_mod_cast h
  have hround : Binary64.roundUnits (n.natAbs*2^Binary64.grain) < 2^(64+Binary64.grain) := by
    have hshort := Binary64.short_roundUnits (mul_nonneg hnonneg hgrain.le)
    rw [sixtyFour,← hshort.le_iff_lt_pow,Binary64.roundUnits_le_iff (mul_nonneg hnonneg hgrain.le) (by norm_num)
      (.inr (by norm_num)),pow_add,← mul_assoc,mul_lt_mul_iff_left₀ hgrain]
    refine .inl (habs.trans ?_)
    norm_num
  have hpow : 2^(64+Binary64.grain) ≤ 2^(1024+Binary64.grain) := Nat.pow_le_pow_right Nat.two_pos (by omega)
  obtain ⟨hu,heq⟩ := Binary64.ofRat_of_lt false hnonneg (hround.trans_le hpow)
  have hsign : decide (n < 0) = false := decide_eq_false (by omega)
  rw [Binary64.ofInt,hsign,heq,fromSecsF64_finite,if_neg fun h => Bool.false_ne_true h.1,if_pos hround]
  rfl

/-! ## The deadlines -/

theorem Deadline.sound_map (x : Binary64) : Deadline.Sound ((fromSecsF64 x).map some) ↔ (fromSecsF64 x).isSome := by
  cases hx : fromSecsF64 x with
  | none =>
    refine iff_of_false ?_ Bool.false_ne_true
    rintro ⟨d,hd,-⟩
    cases hd
  | some n =>
    refine iff_of_true ⟨some n,rfl,?_⟩ rfl
    rintro _ ⟨⟩
    exact fromSecsF64_lt hx

theorem Deadline.sound_none : Deadline.Sound (some none) := ⟨none,rfl,fun _ h => by cases h⟩

variable (showList : List Bytes → Bytes) (showDuration : ℕ → Bytes)

theorem Deadline.sound_text {s : Bytes} {d : Deadline}
    (hnone : (rustNumbers showList showDuration).parseDuration s = none → d = some none)
    (hsome : ∀ x, (rustNumbers showList showDuration).parseDuration s = some x → d = (fromSecsF64 x).map some) :
    d.Sound ↔ UsableTimeout (.str s) := by
  have hparse : (rustNumbers showList showDuration).parseDuration s =
      (ofUtf8 s).bind fun t => parseDurationStr t.toList := rfl
  show _ ↔ ∀ t, ofUtf8 s = some t → UsableText t.toList
  rw [hparse] at hnone hsome
  cases ht : ofUtf8 s with
  | none =>
    rw [ht] at hnone
    exact iff_of_true (by rw [hnone rfl]; exact Deadline.sound_none) fun t h => by cases h
  | some t =>
    rw [ht,Option.bind_some] at hnone hsome
    simp only [Option.some.injEq,forall_eq']
    rw [← parseDurationStr_iff]
    cases hx : parseDurationStr t.toList with
    | none =>
      exact iff_of_true (by rw [hnone hx]; exact Deadline.sound_none) fun x h => by cases h
    | some x =>
      rw [hsome x hx,Deadline.sound_map]
      simp

theorem Deadline.sound_number (x : Binary64) :
    Deadline.Sound (if x.positive then (fromSecsF64 x).map some else some none) ↔ UsableTimeout (.float x) := by
  show _ ↔ UsableNumber x
  rw [← fromSecsF64_positive]
  by_cases h : x.positive
  · simpa only [h,if_true,true_imp_iff] using Deadline.sound_map x
  · exact iff_of_true (by rw [if_neg h]; exact Deadline.sound_none) fun h' => absurd h' h

theorem Deadline.sound_test (fields : MetaMap Binary64)
    (hrange : ∀ v, fields.lookup (bytesOf "timeout") = some v → InRange v) :
    (testTimeoutFromMeta (rustNumbers showList showDuration) fields).Sound ↔
      ∀ v, fields.lookup (bytesOf "timeout") = some v → UsableTimeout v := by
  unfold testTimeoutFromMeta
  cases hv : fields.lookup (bytesOf "timeout") with
  | none => exact iff_of_true Deadline.sound_none fun v h => by cases h
  | some v =>
    simp only [Option.some.injEq,forall_eq']
    cases v with
    | int n =>
      have hn := hrange _ hv
      by_cases hpos : 0 < n
      · simp only [hpos,if_true]
        exact iff_of_true ((Deadline.sound_map _).mpr (fromSecsF64_ofInt hpos hn.2)) trivial
      · simp only [hpos,if_false]
        exact iff_of_true Deadline.sound_none trivial
    | float x => exact Deadline.sound_number x
    | str s =>
      refine Deadline.sound_text showList showDuration (fun hnone => ?_) fun x hsome => ?_
      · simp only [hnone]
      · simp only [hsome]
        rfl
    | _ => exact iff_of_true Deadline.sound_none trivial

theorem Deadline.sound_file (timeout : Option (MetaValue Binary64)) (hrange : ∀ v, timeout = some v → InRange v) :
    (fileDefaultTimeout (rustNumbers showList showDuration) timeout).Sound ↔
      ∀ v, timeout = some v → UsableTimeout v := by
  unfold fileDefaultTimeout
  cases timeout with
  | none => exact iff_of_true Deadline.sound_none fun v h => by cases h
  | some v =>
    simp only [Option.some.injEq,forall_eq']
    cases v with
    | int n =>
      have hn := hrange _ rfl
      refine iff_of_true ⟨_,rfl,fun m hm => ?_⟩ trivial
      split_ifs at hm with hpos
      swap
      · cases hm
      obtain rfl := Option.mem_some.mp hm
      have hlt : n.toNat < 2^63 := by
        have hlt := hn.2
        omega
      omega
    | float x => exact Deadline.sound_number x
    | str s =>
      refine Deadline.sound_text showList showDuration (fun hnone => ?_) fun x hsome => ?_
      · simp only [hnone]
      · simp only [hsome]
        rfl
    | _ => exact iff_of_true Deadline.sound_none trivial

/-- No timeout of a test or of a file makes `from_secs_f64` panic, but for numbers from 2^64 on, infinity with
them, and texts of `nan`, of an infinity, or of a number that is negative or too large for its unit. -/
theorem timeouts_sound_iff (fields : MetaMap Binary64) (timeout : Option (MetaValue Binary64))
    (hfields : ∀ v, fields.lookup (bytesOf "timeout") = some v → InRange v)
    (htimeout : ∀ v, timeout = some v → InRange v) :
    ((testTimeoutFromMeta (rustNumbers showList showDuration) fields).Sound ↔
      ∀ v, fields.lookup (bytesOf "timeout") = some v → UsableTimeout v) ∧
    ((fileDefaultTimeout (rustNumbers showList showDuration) timeout).Sound ↔
      ∀ v, timeout = some v → UsableTimeout v) :=
  ⟨Deadline.sound_test showList showDuration fields hfields,
    Deadline.sound_file showList showDuration timeout htimeout⟩

/-- The metadata of a test with a timeout, and nothing else. -/
def timeoutOnly (v : MetaValue Binary64) : MetaMap Binary64 := AList.insert (bytesOf "timeout") v ∅

theorem timeoutOnly_lookup (v : MetaValue Binary64) : (timeoutOnly v).lookup (bytesOf "timeout") = some v :=
  AList.lookup_insert _

theorem timeouts_sound_thirty :
    ((testTimeoutFromMeta (rustNumbers List.flatten fun _ => []) (timeoutOnly (.int 30))).Sound ↔
      ∀ v, (timeoutOnly (.int 30)).lookup (bytesOf "timeout") = some v → UsableTimeout v) ∧
    ((fileDefaultTimeout (rustNumbers List.flatten fun _ => []) (some (.int 30))).Sound ↔
      ∀ v, some (.int 30) = some v → UsableTimeout v) := by
  have hthirty : InRange (.int 30) := ⟨by norm_num,by norm_num⟩
  refine timeouts_sound_iff _ _ _ _ (fun v hv => ?_) fun v hv => ?_
  · rw [timeoutOnly_lookup] at hv
    obtain rfl := Option.some.inj hv
    exact hthirty
  · obtain rfl := Option.some.inj hv
    exact hthirty

/-- A negative time makes `from_secs_f64` panic. -/
theorem negative_timeout_panics :
    (∀ v, (timeoutOnly (.str (bytesOf "-5s"))).lookup (bytesOf "timeout") = some v → InRange v) ∧
      ¬(testTimeoutFromMeta (rustNumbers List.flatten fun _ => []) (timeoutOnly (.str (bytesOf "-5s")))).Sound ∧
      ¬(fileDefaultTimeout (rustNumbers List.flatten fun _ => []) (some (.str (bytesOf "-5s")))).Sound := by
  have hpanic : testTimeoutFromMeta (rustNumbers List.flatten fun _ => []) (timeoutOnly (.str (bytesOf "-5s"))) =
      none := by decide +kernel
  have hpanic' : fileDefaultTimeout (rustNumbers List.flatten fun _ => []) (some (.str (bytesOf "-5s"))) =
      none := by decide +kernel
  refine ⟨fun v hv => ?_,?_,?_⟩
  · rw [timeoutOnly_lookup] at hv
    obtain rfl := Option.some.inj hv
    trivial
  · rw [hpanic]
    rintro ⟨d,hd,-⟩
    cases hd
  · rw [hpanic']
    rintro ⟨d,hd,-⟩
    cases hd

end Provium.Lua
