import Provium.Lua.Timeouts
import Provium.Scheduler.Amount

/-! The three parsers of sizes, `parse_size` of the command line, `parse_disk_size` of boot disks and
`parse_memory_string` of memory and claims, and `parse_resource_amount`, which reads a claim's table. Plain
products and casts are those of a release build. -/
namespace Provium.Lua
open Lib Provium.Fixture Provium.Scheduler

/-! ## Strings -/

def withoutPlus : List Char → List Char
  | '+'::cs => cs
  | cs => cs

/-- `u64::from_str` -/
def readU64 (cs : List Char) : Option UInt64 :=
  (readDigits (withoutPlus cs)).bind fun n => if n < 2^64 then some (.ofNat n) else none

inductive SizeUnit where
  | byte
  | kibi
  | mebi
  | gibi
  | tebi
  deriving DecidableEq, Repr

namespace SizeUnit

def multiplier : SizeUnit → UInt64
  | .byte => 1
  | .kibi => 1024
  | .mebi => 1024*1024
  | .gibi => 1024*1024*1024
  | .tebi => 1024^4

/-- The letters of `parse_memory_string`. -/
def ofMemoryLetter : Char → Option SizeUnit
  | 'K' | 'k' => some .kibi
  | 'M' | 'm' => some .mebi
  | 'G' | 'g' => some .gibi
  | _ => none

/-- The letters of `parse_size` and `parse_disk_size`. -/
def ofLetter : Char → Option SizeUnit
  | 'K' | 'k' => some .kibi
  | 'M' | 'm' => some .mebi
  | 'G' | 'g' => some .gibi
  | 'T' | 't' => some .tebi
  | _ => none

end SizeUnit

/-- The number and the unit of its last letter. -/
def splitSize (letter : Char → Option SizeUnit) (s : List Char) : List Char × SizeUnit :=
  match s.getLast?.bind letter with
  | some unit => (s.dropLast,unit)
  | none => (s,.byte)

/-- `checked_mul` -/
def checkedMul (a b : UInt64) : Option UInt64 := if a.toNat*b.toNat < 2^64 then some (a*b) else none

def parseSize (s : List Char) : Except String UInt64 :=
  let s := trimText s
  let (num,unit) := splitSize SizeUnit.ofLetter s
  match readU64 num with
  | none => .error ("cannot parse size `"++String.ofList s++"`")
  | some n => match checkedMul n unit.multiplier with
    | none => .error ("size `"++String.ofList s++"` overflows u64")
    | some bytes => .ok bytes

def parseDiskSize (s : List Char) : Except String UInt64 :=
  let s := trimText s
  let (num,unit) := splitSize SizeUnit.ofLetter s
  match readU64 num with
  | none => .error ("cannot parse size `"++String.ofList s++"`")
  | some n => match checkedMul n unit.multiplier with
    | none => .error ("size `"++String.ofList s++"` overflows u64")
    | some bytes => .ok bytes

def parseMemoryString (s : List Char) : Except String UInt64 :=
  let s := trimText s
  let (num,unit) := splitSize SizeUnit.ofMemoryLetter s
  match readU64 num with
  | none => .error ("opts.memory: cannot parse `"++String.ofList s++"`")
  | some n => .ok (n*unit.multiplier)

/-! ## Claims -/

/-- A field of a table, as `mlua` gives it. -/
inductive Field where
  | nil
  | string (s : Bytes)
  | integer (n : Int64)
  | number (n : Binary64)
  | other (typeName : String)

def Field.typeName : Field → String
  | .nil => "nil"
  | .string _ => "string"
  | .integer _ => "integer"
  | .number _ => "number"
  | .other typeName => typeName

structure ClaimTable where
  memory : Field
  cpus : Field

/-- `n >= 0.0` -/
def atLeastZero : Binary64 → Bool
  | .nan => false
  | .infinity negative => !negative
  | .finite negative u _ => !negative || u == 0

/-- `as u64` and `as u32`: towards zero, and no further than the type goes. -/
def castUnsigned (bits : ℕ) : Binary64 → ℕ
  | .nan => 0
  | .infinity negative => if negative then 0 else 2^bits-1
  | .finite negative u _ => if negative then 0 else min (u/2^Binary64.grain) (2^bits-1)

section Claims
variable (notUtf8 : Bytes → String)

def claimMemory : Field → Except String UInt64
  | .nil => .ok 0
  | .string s => match ofUtf8 s with
    | some t => parseMemoryString t.toList
    | none => .error (notUtf8 s)
  | .integer n => if 0 ≤ n then .ok n.toUInt64
    else .error ("claim: memory expected string|int, got "++Field.typeName (.integer n))
  | .number n => if atLeastZero n then .ok (.ofNat (castUnsigned 64 n))
    else .error ("claim: memory expected string|int, got "++Field.typeName (.number n))
  | .other typeName => .error ("claim: memory expected string|int, got "++typeName)

def claimCpus : Field → Except String UInt32
  | .nil => .ok 0
  | .integer n => if 0 ≤ n then .ok n.toUInt64.toUInt32
    else .error ("claim: cpus expected int, got "++Field.typeName (.integer n))
  | .number n => if atLeastZero n then .ok (.ofNat (castUnsigned 32 n))
    else .error ("claim: cpus expected int, got "++Field.typeName (.number n))
  | other => .error ("claim: cpus expected int, got "++other.typeName)

def parseResourceAmount (t : ClaimTable) : Except String ResourceAmount :=
  match claimMemory notUtf8 t.memory with
  | .error e => .error e
  | .ok memoryBytes => match claimCpus t.cpus with
    | .error e => .error e
    | .ok cpus => .ok ⟨memoryBytes.toNat,cpus.toNat,Nat.le_pred_of_lt memoryBytes.toNat_lt,
        Nat.le_pred_of_lt cpus.toNat_lt⟩

end Claims

/-! ## What sizes mean -/

namespace SizeUnit

def bytes : SizeUnit → ℕ
  | .byte => 1
  | .kibi => 2^10
  | .mebi => 2^20
  | .gibi => 2^30
  | .tebi => 2^40

/-- How a unit is written. -/
def suffixes : SizeUnit → List (List Char)
  | .byte => [[]]
  | .kibi => [['K'],['k']]
  | .mebi => [['M'],['m']]
  | .gibi => [['G'],['g']]
  | .tebi => [['T'],['t']]

end SizeUnit

/-- A string that is a number with a unit behind it, or with none. -/
def Reads (s : List Char) (n : ℕ) (unit : SizeUnit) : Prop :=
  ∃ num, ∃ suffix ∈ unit.suffixes, trimText s = num++suffix ∧ ∃ k, readU64 num = some k ∧ k.toNat = n

/-- The size of a string is the product of its number and its unit, if that fits in 64 bits. -/
def Denotes (s : List Char) (v : ℕ) : Prop := ∃ n unit, Reads s n unit ∧ v = n*unit.bytes ∧ v < 2^64

def Refuses {α : Type} (result : Except String α) : Prop := ∃ e, result = .error e

/-- The parsers agree on a string: they give its size, or each refuses it. -/
def OneMeaning (s : List Char) : Prop :=
  (∃ v : UInt64, Denotes s v.toNat ∧ parseSize s = .ok v ∧ parseDiskSize s = .ok v ∧ parseMemoryString s = .ok v) ∨
    (∀ v, ¬Denotes s v) ∧ Refuses (parseSize s) ∧ Refuses (parseDiskSize s) ∧ Refuses (parseMemoryString s)

/-- The number that a field gives. -/
def Field.Gives : Field → ℕ → Prop
  | .nil,v => v = 0
  | .string s,v => ∃ t, ofUtf8 s = some t ∧ Denotes t.toList v
  | .integer n,v => n.toInt = v
  | .number (.finite negative u _),v => (negative → u = 0) ∧ Binary64.value u = v
  | _,_ => False

/-- An accepted claim has the numbers of its table. -/
def KeepsNumbers (notUtf8 : Bytes → String) (t : ClaimTable) : Prop :=
  ∀ amount, parseResourceAmount notUtf8 t = .ok amount →
    t.memory.Gives amount.memoryBytes ∧ t.cpus.Gives amount.cpus

/-- The unit is the one that the memory parser does not know exactly where the size is too large. -/
def OneUnit (s : List Char) : Prop :=
  ∀ n unit, Reads s n unit → (unit = .tebi ↔ 2^64 ≤ n*unit.bytes)

/-- A field that is taken for memory. -/
def Field.IsMemory : Field → Prop
  | .nil => True
  | .string s => ∃ t, ofUtf8 s = some t ∧ ∃ n unit, Reads t.toList n unit ∧ unit ≠ .tebi
  | .integer n => 0 ≤ n
  | .number n => atLeastZero n
  | .other _ => False

/-- A field that is taken for a number of CPUs. -/
def Field.IsCpus : Field → Prop
  | .nil => True
  | .integer n => 0 ≤ n
  | .number n => atLeastZero n
  | _ => False

/-- A whole number below a power of two. -/
def Field.Whole (bits : ℕ) : Field → Prop
  | .nil => True
  | .string s => ∀ t, ofUtf8 s = some t → ∀ n unit, Reads t.toList n unit → n*unit.bytes < 2^bits
  | .integer n => n.toInt < 2^bits
  | .number (.finite _ u _) => 2^Binary64.grain ∣ u ∧ u < 2^(bits+Binary64.grain)
  | _ => False

/-! ## Strings that are sizes -/

@[simp] theorem SizeUnit.toNat_multiplier (unit : SizeUnit) : unit.multiplier.toNat = unit.bytes := by
  cases unit <;> rfl

/-- A number ends in a digit. -/
theorem isDigit_of_readU64 {init : List Char} {c : Char} {k : UInt64} (h : readU64 (init++[c]) = some k) :
    c.isDigit := by
  obtain ⟨n,hn,-⟩ := Option.bind_eq_some_iff.mp h
  unfold readDigits at hn
  split_ifs at hn with hdigits
  obtain ⟨hne,hall⟩ := hdigits
  have hmem : c ∈ withoutPlus (init++[c]) := by
    unfold withoutPlus at hne ⊢
    split at hne
    · next cs heq =>
      cases init with
      | nil =>
        obtain ⟨-,rfl⟩ := List.cons.inj heq
        exact absurd rfl hne
      | cons b init =>
        obtain ⟨-,rfl⟩ := List.cons.inj heq
        simp
    · simp
  exact List.all_eq_true.mp hall c hmem

section Letters
variable {letter : Char → Option SizeUnit} {known : SizeUnit → Prop}

/-- What is read of a string by a parser whose letters are those of the units it knows. -/
theorem reads_iff_splitSize (hletter : ∀ c unit, letter c = some unit ↔ [c] ∈ unit.suffixes ∧ known unit)
    (hbyte : known .byte) (s : List Char) (n : ℕ) (unit : SizeUnit) :
    Reads s n unit ∧ known unit ↔ ∃ k, readU64 (splitSize letter (trimText s)).1 = some k ∧ k.toNat = n ∧
      unit = (splitSize letter (trimText s)).2 := by
  have hsplit : ∀ init c, letter c = none → splitSize letter (init++[c]) = (init++[c],.byte) := by
    intro init c hc
    simp [splitSize,hc]
  have hsplit' : ∀ init c unit, letter c = some unit → splitSize letter (init++[c]) = (init,unit) := by
    intro init c unit hc
    simp [splitSize,hc]
  constructor
  · rintro ⟨⟨num,suffix,hsuffix,htrim,k,hk,rfl⟩,hknown⟩
    rw [htrim]
    refine ⟨k,?_⟩
    obtain ⟨rfl,rfl⟩ | ⟨c,rfl⟩ : suffix = [] ∧ unit = .byte ∨ ∃ c, suffix = [c] := by
      cases unit <;> simp [SizeUnit.suffixes] at hsuffix <;> simp [hsuffix]
      all_goals obtain rfl | rfl := hsuffix <;> simp
    · obtain rfl | ⟨init,c,rfl⟩ := List.eq_nil_or_concat' num
      · cases hk
      · have hdigit := isDigit_of_readU64 hk
        have hc : letter c = none := by
          rw [Option.eq_none_iff_forall_not_mem]
          intro unit hc
          have hmem := ((hletter c unit).mp hc).1
          cases unit <;> simp [SizeUnit.suffixes] at hmem
          all_goals obtain rfl | rfl := hmem <;> simp at hdigit
        rw [List.append_nil,hsplit init c hc]
        exact ⟨hk,rfl,rfl⟩
    · rw [hsplit' num c unit ((hletter c unit).mpr ⟨hsuffix,hknown⟩)]
      exact ⟨hk,rfl,rfl⟩
  · rintro ⟨k,hk,rfl,rfl⟩
    obtain hnil | ⟨init,c,hcs⟩ := List.eq_nil_or_concat' (trimText s)
    · rw [hnil] at hk
      cases hk
    · rw [hcs] at hk ⊢
      cases hc : letter c with
      | none =>
        rw [hsplit init c hc] at hk ⊢
        exact ⟨⟨init++[c],[],by simp [SizeUnit.suffixes],by simp [hcs],k,hk,rfl⟩,hbyte⟩
      | some unit =>
        obtain ⟨hmem,hknown⟩ := (hletter c unit).mp hc
        rw [hsplit' init c unit hc] at hk ⊢
        exact ⟨⟨init,[c],hmem,hcs,k,hk,rfl⟩,hknown⟩

end Letters

namespace SizeUnit

theorem ofLetter_eq_some (c : Char) (unit : SizeUnit) : ofLetter c = some unit ↔ [c] ∈ unit.suffixes ∧ True := by
  unfold ofLetter
  split <;> cases unit <;> simp_all [suffixes]

theorem ofMemoryLetter_eq_some (c : Char) (unit : SizeUnit) :
    ofMemoryLetter c = some unit ↔ [c] ∈ unit.suffixes ∧ unit ≠ .tebi := by
  unfold ofMemoryLetter
  split <;> cases unit <;> simp_all [suffixes]

end SizeUnit

theorem reads_iff (s : List Char) (n : ℕ) (unit : SizeUnit) :
    Reads s n unit ↔ ∃ k, readU64 (splitSize SizeUnit.ofLetter (trimText s)).1 = some k ∧ k.toNat = n ∧
      unit = (splitSize SizeUnit.ofLetter (trimText s)).2 := by
  rw [← reads_iff_splitSize SizeUnit.ofLetter_eq_some trivial]
  rw [and_true]

theorem reads_memory_iff (s : List Char) (n : ℕ) (unit : SizeUnit) :
    Reads s n unit ∧ unit ≠ .tebi ↔ ∃ k, readU64 (splitSize SizeUnit.ofMemoryLetter (trimText s)).1 = some k ∧
      k.toNat = n ∧ unit = (splitSize SizeUnit.ofMemoryLetter (trimText s)).2 :=
  reads_iff_splitSize SizeUnit.ofMemoryLetter_eq_some (by decide) s n unit

/-- A string is read in one way. -/
theorem Reads.unique {s : List Char} {n n' : ℕ} {unit unit' : SizeUnit} (h : Reads s n unit)
    (h' : Reads s n' unit') : n = n' ∧ unit = unit' := by
  obtain ⟨k,hk,rfl,rfl⟩ := (reads_iff s n unit).mp h
  obtain ⟨k',hk',rfl,rfl⟩ := (reads_iff s n' unit').mp h'
  rw [Option.some.inj (hk.symm.trans hk')]
  exact ⟨rfl,rfl⟩

theorem refuses_iff {α : Type} (result : Except String α) : Refuses result ↔ ∀ v, result ≠ .ok v := by
  cases result with
  | error e => exact iff_of_true ⟨e,rfl⟩ fun v h => by cases h
  | ok v => exact iff_of_false (fun ⟨e,h⟩ => by cases h) fun h => h v rfl

theorem checkedMul_eq_some {a b c : UInt64} : checkedMul a b = some c ↔ c.toNat = a.toNat*b.toNat := by
  unfold checkedMul
  split_ifs with hlt
  · rw [Option.some.injEq,← UInt64.toNat_inj,UInt64.toNat_mul,Nat.mod_eq_of_lt hlt,eq_comm]
  · refine iff_of_false (fun h => by cases h) fun h => hlt ?_
    rw [← h]
    exact c.toNat_lt

theorem parseSize_eq_ok {s : List Char} {v : UInt64} : parseSize s = .ok v ↔ Denotes s v.toNat := by
  have hparse : parseSize s = .ok v ↔ ∃ k, readU64 (splitSize SizeUnit.ofLetter (trimText s)).1 = some k ∧
      checkedMul k (splitSize SizeUnit.ofLetter (trimText s)).2.multiplier = some v := by
    cases hk : readU64 (splitSize SizeUnit.ofLetter (trimText s)).1 with
    | none => simp [parseSize,hk]
    | some k =>
      cases hmul : checkedMul k (splitSize SizeUnit.ofLetter (trimText s)).2.multiplier <;>
        simp [parseSize,hk,hmul]
  rw [hparse]
  constructor
  · rintro ⟨k,hk,hmul⟩
    refine ⟨k.toNat,_,(reads_iff s _ _).mpr ⟨k,hk,rfl,rfl⟩,?_,v.toNat_lt⟩
    rw [checkedMul_eq_some.mp hmul,SizeUnit.toNat_multiplier]
  · rintro ⟨n,unit,hreads,hv,-⟩
    obtain ⟨k,hk,rfl,rfl⟩ := (reads_iff s n unit).mp hreads
    refine ⟨k,hk,checkedMul_eq_some.mpr ?_⟩
    rw [hv,SizeUnit.toNat_multiplier]

theorem parseMemoryString_eq_ok {s : List Char} {v : UInt64} : parseMemoryString s = .ok v ↔
    ∃ n unit, Reads s n unit ∧ unit ≠ .tebi ∧ v.toNat = n*unit.bytes%2^64 := by
  have hparse : parseMemoryString s = .ok v ↔
      ∃ k, readU64 (splitSize SizeUnit.ofMemoryLetter (trimText s)).1 = some k ∧
        k*(splitSize SizeUnit.ofMemoryLetter (trimText s)).2.multiplier = v := by
    cases hk : readU64 (splitSize SizeUnit.ofMemoryLetter (trimText s)).1 <;> simp [parseMemoryString,hk]
  rw [hparse]
  constructor
  · rintro ⟨k,hk,rfl⟩
    obtain ⟨hreads,hunit⟩ := (reads_memory_iff s _ _).mpr ⟨k,hk,rfl,rfl⟩
    refine ⟨k.toNat,_,hreads,hunit,?_⟩
    rw [UInt64.toNat_mul,SizeUnit.toNat_multiplier]
  · rintro ⟨n,unit,hreads,hunit,hv⟩
    obtain ⟨k,hk,rfl,rfl⟩ := (reads_memory_iff s n unit).mp ⟨hreads,hunit⟩
    refine ⟨k,hk,UInt64.toNat_inj.mp ?_⟩
    rw [hv,UInt64.toNat_mul,SizeUnit.toNat_multiplier]

theorem Refuses.of_forall {α : Type} {result : Except String α} (h : ∀ v, result ≠ .ok v) : Refuses result :=
  (refuses_iff result).mpr h

theorem oneMeaning_iff (s : List Char) : OneMeaning s ↔ OneUnit s := by
  constructor
  · rintro (⟨v,-,hsize,-,hmemory⟩ | ⟨hnone,-,-,hmemory⟩) n unit hreads
    · obtain ⟨n',unit',hreads',hv,hlt⟩ := parseSize_eq_ok.mp hsize
      obtain ⟨n'',unit'',hreads'',hunit,-⟩ := parseMemoryString_eq_ok.mp hmemory
      obtain ⟨rfl,rfl⟩ := hreads.unique hreads'
      obtain ⟨-,rfl⟩ := hreads.unique hreads''
      exact iff_of_false hunit (by omega)
    · have hlarge : 2^64 ≤ n*unit.bytes := by
        by_contra hlt
        exact hnone _ ⟨n,unit,hreads,rfl,by omega⟩
      refine iff_of_true (by_contra fun hunit => ?_) hlarge
      refine (refuses_iff _).mp hmemory (.ofNat (n*unit.bytes)) (parseMemoryString_eq_ok.mpr ⟨n,unit,hreads,hunit,?_⟩)
      rw [UInt64.toNat_ofNat']
  · intro h
    by_cases hdenotes : ∃ v, Denotes s v
    · obtain ⟨v,n,unit,hreads,rfl,hlt⟩ := hdenotes
      have hv : (UInt64.ofNat (n*unit.bytes)).toNat = n*unit.bytes := by
        rw [UInt64.toNat_ofNat',Nat.mod_eq_of_lt hlt]
      have hunit : unit ≠ .tebi := fun hunit => hlt.not_ge ((h n unit hreads).mp hunit)
      have hsize : parseSize s = .ok (.ofNat (n*unit.bytes)) :=
        parseSize_eq_ok.mpr ⟨n,unit,hreads,hv,by rwa [hv]⟩
      refine .inl ⟨.ofNat (n*unit.bytes),parseSize_eq_ok.mp hsize,hsize,hsize,?_⟩
      exact parseMemoryString_eq_ok.mpr ⟨n,unit,hreads,hunit,by rw [hv,Nat.mod_eq_of_lt hlt]⟩
    · rw [not_exists] at hdenotes
      have hsize := Refuses.of_forall fun v hv => hdenotes v.toNat (parseSize_eq_ok.mp hv)
      refine .inr ⟨hdenotes,hsize,hsize,Refuses.of_forall fun v hv => ?_⟩
      obtain ⟨n,unit,hreads,hunit,-⟩ := parseMemoryString_eq_ok.mp hv
      refine hdenotes _ ⟨n,unit,hreads,rfl,?_⟩
      by_contra hlarge
      exact hunit ((h n unit hreads).mpr (not_lt.mp hlarge))

/-! ## Fields of a claim -/

theorem castUnsigned_lt (bits : ℕ) (n : Binary64) : castUnsigned bits n < 2^bits := by
  have hpos : 0 < 2^bits := by positivity
  unfold castUnsigned
  split
  · exact hpos
  · split_ifs <;> omega
  · split_ifs <;> omega

theorem toNat_toUInt64 {n : Int64} (h : 0 ≤ n) : (n.toUInt64.toNat : ℤ) = n.toInt := by
  rw [Int64.toNat_toUInt64_of_le h,Int64.cast_toNatClampNeg n h]

theorem eq_min_div_mul_iff {g limit : ℕ} (hg : 0 < g) (hlimit : 0 < limit) (u : ℕ) :
    u = min (u/g) (limit-1)*g ↔ g ∣ u ∧ u < limit*g := by
  constructor
  · intro h
    have hle : min (u/g) (limit-1) < limit := by omega
    refine ⟨⟨_,h.trans (Nat.mul_comm _ _)⟩,?_⟩
    calc
      u = min (u/g) (limit-1)*g := h
      _ < limit*g := Nat.mul_lt_mul_of_pos_right hle hg
  · rintro ⟨⟨k,rfl⟩,hlt⟩
    rw [Nat.mul_comm g k] at hlt ⊢
    have hk := Nat.lt_of_mul_lt_mul_right hlt
    rw [Nat.mul_div_cancel _ hg,min_eq_left (by omega)]

/-- Of the numbers that are at least zero the cast keeps the whole ones below the limit. -/
theorem gives_castUnsigned (bits : ℕ) {n : Binary64} (h : atLeastZero n) :
    (Field.number n).Gives (castUnsigned bits n) ↔ (Field.number n).Whole bits := by
  cases n with
  | nan => cases h
  | infinity negative => exact Iff.rfl
  | finite negative u hu =>
    have hpos : 0 < 2^Binary64.grain := by positivity
    have hbits : 0 < 2^bits := by positivity
    simp only [Field.Gives,Field.Whole,castUnsigned,Binary64.value_eq_iff,pow_add]
    cases negative with
    | true =>
      obtain rfl : u = 0 := by simpa [atLeastZero] using h
      simp [hpos,hbits]
    | false =>
      simp only [Bool.false_eq_true,false_implies,true_and,if_false]
      rw [eq_min_div_mul_iff hpos hbits]

theorem claimMemory_isOk (notUtf8 : Bytes → String) (f : Field) :
    (∃ m, claimMemory notUtf8 f = .ok m) ↔ f.IsMemory := by
  cases f with
  | nil => exact iff_of_true ⟨0,rfl⟩ trivial
  | string s =>
    simp only [claimMemory,Field.IsMemory]
    cases ofUtf8 s with
    | none => simp
    | some t =>
      simp only [parseMemoryString_eq_ok,Option.some.injEq,exists_eq_left']
      constructor
      · rintro ⟨m,n,unit,hreads,hunit,-⟩
        exact ⟨n,unit,hreads,hunit⟩
      · rintro ⟨n,unit,hreads,hunit⟩
        exact ⟨.ofNat (n*unit.bytes),n,unit,hreads,hunit,UInt64.toNat_ofNat'⟩
  | integer n => by_cases h : 0 ≤ n <;> simp [claimMemory,Field.IsMemory,h]
  | number n => by_cases h : atLeastZero n <;> simp [claimMemory,Field.IsMemory,h]
  | other typeName => simp [claimMemory,Field.IsMemory]

theorem claimCpus_isOk (f : Field) : (∃ m, claimCpus f = .ok m) ↔ f.IsCpus := by
  cases f with
  | nil => exact iff_of_true ⟨0,rfl⟩ trivial
  | integer n => by_cases h : 0 ≤ n <;> simp [claimCpus,Field.IsCpus,h]
  | number n => by_cases h : atLeastZero n <;> simp [claimCpus,Field.IsCpus,h]
  | string _ | other _ => simp [claimCpus,Field.IsCpus]

theorem claimMemory_gives {notUtf8 : Bytes → String} {f : Field} {m : UInt64} (h : claimMemory notUtf8 f = .ok m) :
    f.Gives m.toNat ↔ f.Whole 64 := by
  cases f with
  | nil =>
    obtain rfl := Except.ok.inj h
    exact iff_of_true rfl trivial
  | string s =>
    simp only [claimMemory] at h
    simp only [Field.Gives,Field.Whole]
    cases ht : ofUtf8 s with
    | none => simp [ht] at h
    | some t =>
      simp only [ht] at h
      obtain ⟨n,unit,hreads,-,hm⟩ := parseMemoryString_eq_ok.mp h
      simp only [Option.some.injEq,exists_eq_left',forall_eq']
      constructor
      · rintro ⟨n',unit',hreads',hm',hlt⟩ n'' unit'' hreads''
        obtain ⟨rfl,rfl⟩ := hreads'.unique hreads''
        omega
      · intro hwhole
        have hlt := hwhole n unit hreads
        exact ⟨n,unit,hreads,by rw [hm,Nat.mod_eq_of_lt hlt],m.toNat_lt⟩
  | integer n =>
    simp only [claimMemory] at h
    split_ifs at h with hn
    obtain rfl := Except.ok.inj h
    exact iff_of_true (toNat_toUInt64 hn).symm (n.toInt_lt.trans (by norm_num))
  | number n =>
    simp only [claimMemory] at h
    split_ifs at h with hn
    obtain rfl := Except.ok.inj h
    rw [UInt64.toNat_ofNat',Nat.mod_eq_of_lt (castUnsigned_lt 64 n)]
    exact gives_castUnsigned 64 hn
  | other typeName => cases h

theorem claimCpus_gives {f : Field} {m : UInt32} (h : claimCpus f = .ok m) : f.Gives m.toNat ↔ f.Whole 32 := by
  cases f with
  | nil =>
    obtain rfl := Except.ok.inj h
    exact iff_of_true rfl trivial
  | integer n =>
    simp only [claimCpus] at h
    split_ifs at h with hn
    obtain rfl := Except.ok.inj h
    have hn' := toNat_toUInt64 hn
    simp only [Field.Gives,Field.Whole,UInt64.toNat_toUInt32]
    omega
  | number n =>
    simp only [claimCpus] at h
    split_ifs at h with hn
    obtain rfl := Except.ok.inj h
    rw [UInt32.toNat_ofNat',Nat.mod_eq_of_lt (castUnsigned_lt 32 n)]
    exact gives_castUnsigned 32 hn
  | string _ | other _ => cases h

theorem parseResourceAmount_eq_ok {notUtf8 : Bytes → String} {t : ClaimTable} {amount : ResourceAmount} :
    parseResourceAmount notUtf8 t = .ok amount ↔ ∃ memoryBytes cpus, claimMemory notUtf8 t.memory = .ok memoryBytes ∧
      claimCpus t.cpus = .ok cpus ∧ amount.memoryBytes = memoryBytes.toNat ∧ amount.cpus = cpus.toNat := by
  unfold parseResourceAmount
  cases claimMemory notUtf8 t.memory with
  | error e => simp
  | ok memoryBytes =>
    cases claimCpus t.cpus with
    | error e => simp
    | ok cpus =>
      obtain ⟨m,c,_,_⟩ := amount
      constructor
      · intro h
        cases h
        exact ⟨memoryBytes,cpus,rfl,rfl,rfl,rfl⟩
      · rintro ⟨_,_,hmemory,hcpus,rfl,rfl⟩
        cases hmemory
        cases hcpus
        rfl

theorem keepsNumbers_iff (notUtf8 : Bytes → String) (t : ClaimTable) : KeepsNumbers notUtf8 t ↔
    (t.memory.IsMemory ∧ t.cpus.IsCpus → t.memory.Whole 64 ∧ t.cpus.Whole 32) := by
  rw [← claimMemory_isOk notUtf8,← claimCpus_isOk]
  constructor
  · rintro h ⟨⟨memoryBytes,hmemory⟩,cpus,hcpus⟩
    rw [← claimMemory_gives hmemory,← claimCpus_gives hcpus]
    exact h ⟨memoryBytes.toNat,cpus.toNat,Nat.le_pred_of_lt memoryBytes.toNat_lt,Nat.le_pred_of_lt cpus.toNat_lt⟩
      (parseResourceAmount_eq_ok.mpr ⟨memoryBytes,cpus,hmemory,hcpus,rfl,rfl⟩)
  · intro h amount hamount
    obtain ⟨memoryBytes,cpus,hmemory,hcpus,hm,hc⟩ := parseResourceAmount_eq_ok.mp hamount
    rw [hm,hc,claimMemory_gives hmemory,claimCpus_gives hcpus]
    exact h ⟨⟨memoryBytes,hmemory⟩,cpus,hcpus⟩

/-- A string has one meaning where its unit is T exactly if its size does not fit in 64 bits; a claim keeps its
numbers where they are whole and fit. -/
theorem sizes_one_meaning_iff (notUtf8 : Bytes → String) (s : List Char) (t : ClaimTable) :
    (OneMeaning s ↔ OneUnit s) ∧ (KeepsNumbers notUtf8 t ↔
      (t.memory.IsMemory ∧ t.cpus.IsCpus → t.memory.Whole 64 ∧ t.cpus.Whole 32)) :=
  ⟨oneMeaning_iff s,keepsNumbers_iff notUtf8 t⟩

/-- A disk of 2T is no memory of 2T, a memory of 2^34 G is none at all, and 2^32 CPUs are none either. -/
theorem sizes_disagree : ¬OneMeaning "2T".toList ∧ ¬OneMeaning "17179869184G".toList ∧
    ¬KeepsNumbers (fun _ => "") ⟨.nil,.integer 4294967296⟩ := by
  refine ⟨?_,?_,fun h => ?_⟩
  · rintro (⟨v,-,-,-,hmemory⟩ | ⟨-,⟨e,hsize⟩,-⟩)
    · have hrefused : parseMemoryString "2T".toList = .error "opts.memory: cannot parse `2T`" := by decide +kernel
      rw [hrefused] at hmemory
      cases hmemory
    · have hread : parseSize "2T".toList = .ok 2199023255552 := by decide +kernel
      rw [hread] at hsize
      cases hsize
  · have hread : parseMemoryString "17179869184G".toList = .ok 0 := by decide +kernel
    have hrefused : parseSize "17179869184G".toList = .error "size `17179869184G` overflows u64" := by decide +kernel
    rintro (⟨v,-,hsize,-⟩ | ⟨-,-,-,e,hmemory⟩)
    · rw [hrefused] at hsize
      cases hsize
    · rw [hread] at hmemory
      cases hmemory
  · have hgives := (h ⟨0,0,by decide,by decide⟩ (by decide +kernel)).2
    have hcast : (4294967296 : Int64).toInt = 4294967296 := by decide +kernel
    exact absurd (hcast.symm.trans hgives) (by decide)

end Provium.Lua
