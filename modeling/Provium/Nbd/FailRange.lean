import Provium.Nbd.Transmission

/-! The rule of `fail_range` against the intervals it is about, in unbounded integers. The products
of `consult` are plain ones, which panic in a debug build and wrap in a release build; its sums
saturate at an end that is exclusive. -/
namespace Provium.Nbd
open Lib

/-- `disk:fail_range`, once the policy in force has been read. -/
def armFailRange (p : FaultPolicy) (sector count : UInt64) : Except String FaultPolicy :=
  if count = 0 then
    .error "disk:fail_range: count must be at least 1 — an empty range overlaps nothing, so the fault would never fire"
  else .ok { p with failRange := some (sector.toNat,count.toNat) }

/-- A product or sum of a debug build, which panics where it does not fit. -/
def checked (n : ℕ) : Option ℕ := if n < 2^64 then some n else none

/-- The rule of `fail_range` in a debug build. -/
def overlapsRangeChecked (offset length : ℕ) : Option (ℕ × ℕ) → Option Bool
  | none => some false
  | some (sector,count) =>
    if 0 < length ∧ 0 < count then do
      let start ← checked (sector*sectorSize)
      let bytes ← checked (count*sectorSize)
      let stop := min (start+bytes) (2^64-1)
      let commandEnd := min (offset+length) (2^64-1)
      some (decide (offset < stop ∧ start < commandEnd))
    else some false

/-- The command's bytes and the armed sectors have a byte in common. -/
def Touches (sector count : ℕ) (c : Probe) : Prop :=
  ∃ x, c.offset ≤ x ∧ x < c.offset+c.length ∧ sectorSize*sector ≤ x ∧ x < sectorSize*(sector+count)

/-- The rule fails exactly the commands with bytes in the armed sectors, without overflow. -/
structure FailRangeExact (p : FaultPolicy) (sector count : ℕ) (c : Probe) : Prop where
  verdict : ∀ m : Moment, m.policy = p → (m.consult c = true ↔ 0 < c.length ∧ Touches sector count c)
  fits : (overlapsRangeChecked c.offset c.length p.failRange).isSome

theorem touches_iff {sector count : ℕ} {c : Probe} (hlength : 0 < c.length) (hcount : 0 < count) :
    Touches sector count c ↔
      c.offset < sector*sectorSize+count*sectorSize ∧ sector*sectorSize < c.offset+c.length := by
  simp only [Touches,sectorSize]
  constructor
  · rintro ⟨x,h₁,h₂,h₃,h₄⟩
    omega
  · rintro ⟨h₁,h₂⟩
    refine ⟨max c.offset (sector*512),?_,?_,?_,?_⟩
    all_goals omega

/-- With this rule alone the verdict is the rule's. -/
theorem consult_failRange {m : Moment} {sector count : ℕ}
    (hm : m.policy = { failRange := some (sector,count) }) (c : Probe) :
    m.consult c = overlapsRange c.offset c.length (some (sector,count)) := by
  have hne : m.policy ≠ {} := by
    rw [hm]
    intro hc
    cases congrArg FaultPolicy.failRange hc
  rw [Moment.consult,if_neg hne,hm]
  simp [FaultPolicy.fails,FaultPolicy.failsByKind]

/-- Only the products can overflow, and only for a command with bytes. -/
theorem overlapsRangeChecked_isSome (offset sector : ℕ) {length count : ℕ} (hlength : 0 < length)
    (hcount : 0 < count) :
    (overlapsRangeChecked offset length (some (sector,count))).isSome ↔
      sector*sectorSize < 2^64 ∧ count*sectorSize < 2^64 := by
  rw [overlapsRangeChecked,if_pos (And.intro hlength hcount)]
  by_cases hs : sector*sectorSize < 2^64
  · rw [show checked (sector*sectorSize) = some _ from if_pos hs]
    by_cases hb : count*sectorSize < 2^64
    · rw [show checked (count*sectorSize) = some _ from if_pos hb]
      exact iff_of_true rfl ⟨hs,hb⟩
    · rw [show checked (count*sectorSize) = none from if_neg hb]
      exact iff_of_false (by simp) fun hc => hb hc.2
  · rw [show checked (sector*sectorSize) = none from if_neg hs]
    exact iff_of_false (by simp) fun hc => hs hc.1

/-- Without overflow the rule is wrong at one byte alone, the last that an offset can name. -/
theorem overlapsRange_iff {offset length sector count : ℕ} (hoffset : offset < 2^64)
    (hlength : 0 < length) (hcount : 0 < count) (hs : sector*sectorSize < 2^64)
    (hb : count*sectorSize < 2^64) :
    overlapsRange offset length (some (sector,count)) = true ↔
      (offset < sector*sectorSize+count*sectorSize ∧ sector*sectorSize < offset+length) ∧
        ¬ (offset = 2^64-1 ∧ 2^64 ≤ (sector+count)*sectorSize) := by
  simp only [overlapsRange,decide_eq_true_eq,Nat.mod_eq_of_lt hs,Nat.mod_eq_of_lt hb]
  simp only [sectorSize] at hs hb ⊢
  omega

/-- `fail_range` is exact for a command exactly if the command has no bytes, or neither product
overflows and it is not the one byte at the end of the address space that the saturated end of the
armed sectors leaves out. -/
theorem fail_range_exact_iff {sector count : UInt64} {p : FaultPolicy}
    (hp : armFailRange {} sector count = .ok p) (command : ℕ) (offset : UInt64) (length : UInt32) :
    FailRangeExact p sector.toNat count.toNat ⟨command,offset.toNat,length.toNat⟩ ↔
      length = 0 ∨ (sector.toNat*sectorSize < 2^64 ∧ count.toNat*sectorSize < 2^64 ∧
        ¬ (offset.toNat = 2^64-1 ∧ 2^64 ≤ (sector.toNat+count.toNat)*sectorSize)) := by
  unfold armFailRange at hp
  split at hp
  · cases hp
  · next hne =>
    cases hp
    have hcount : 0 < count.toNat := by
      refine Nat.pos_of_ne_zero fun hc => hne ?_
      exact UInt64.toNat_inj.mp hc
    have hconsult (m : Moment) (hm : m.policy = { failRange := some (sector.toNat,count.toNat) }) :=
      consult_failRange hm ⟨command,offset.toNat,length.toNat⟩
    by_cases hl : length = 0
    · refine iff_of_true ⟨fun m hm => ?_,?_⟩ (.inl hl)
      · rw [hconsult m hm]
        simp [hl,overlapsRange]
      · simp [hl,overlapsRangeChecked]
    · have hlength : 0 < length.toNat := by
        refine Nat.pos_of_ne_zero fun hc => hl ?_
        exact UInt32.toNat_inj.mp hc
      rw [or_iff_right hl]
      have hfits := overlapsRangeChecked_isSome offset.toNat sector.toNat hlength hcount
      constructor
      · rintro ⟨hverdict,hsome⟩
        obtain ⟨hs,hb⟩ := hfits.mp hsome
        refine ⟨hs,hb,fun hend => ?_⟩
        have hv := hverdict ⟨false,false,_,0⟩ rfl
        rw [hconsult _ rfl,overlapsRange_iff offset.toNat_lt hlength hcount hs hb,
          touches_iff hlength hcount] at hv
        simp only [sectorSize] at hs hb hv hend
        omega
      · rintro ⟨hs,hb,hend⟩
        refine ⟨fun m hm => ?_,hfits.mpr ⟨hs,hb⟩⟩
        rw [hconsult m hm,overlapsRange_iff offset.toNat_lt hlength hcount hs hb,
          touches_iff hlength hcount,and_iff_left hend,and_iff_right hlength]

/-- The first two sectors, and a read across their end. -/
theorem fail_range_exact_iff_low :
    FailRangeExact { failRange := some (0,2) } 0 2 ⟨cmdRead,1020,8⟩ :=
  (fail_range_exact_iff (rfl : armFailRange {} 0 2 = .ok _) cmdRead 1020 8).mpr (.inr (by decide))

/-- The product of sector 2^55 wraps to zero: in a release build the rule fails a read of the first
sector, which it has nothing to do with, and a debug build panics. At the other end the last sector
of the address space is armed, and a write to its last byte is served. -/
theorem fail_range_wraps :
    (Moment.consult ⟨false,false,{ failRange := some (2^55,1) },1⟩ ⟨cmdRead,0,512⟩ = true ∧
      ¬ Touches (2^55) 1 ⟨cmdRead,0,512⟩ ∧
      overlapsRangeChecked 0 512 (some (2^55,1)) = none) ∧
    (Moment.consult ⟨false,false,{ failRange := some (2^55-1,1) },1⟩ ⟨cmdWrite,2^64-1,1⟩ = false ∧
      Touches (2^55-1) 1 ⟨cmdWrite,2^64-1,1⟩) ∧
    ¬ FailRangeExact { failRange := some (2^55,1) } (2^55) 1 ⟨cmdRead,0,512⟩ := by
  have hwraps : Moment.consult ⟨false,false,{ failRange := some (2^55,1) },1⟩ ⟨cmdRead,0,512⟩ = true := by
    decide
  have hnone : ¬ Touches (2^55) 1 ⟨cmdRead,0,512⟩ := by
    rintro ⟨x,-,h₂,h₃,-⟩
    simp only [sectorSize] at h₂ h₃
    omega
  refine ⟨⟨hwraps,hnone,by decide⟩,⟨by decide,2^64-1,?_⟩,fun h => ?_⟩
  · simp [sectorSize]
  · exact hnone ((h.verdict _ rfl).mp hwraps).2

end Provium.Nbd
