import Mathlib

/-! Cyclic redundancy checks that take the least significant bit first: the loop over bits, and the division
of polynomials that it works out. -/
namespace Lib.Crc
open Polynomial

variable {w : ℕ}

/-- The bits of a register as coefficients, its least significant bit with the highest power. -/
noncomputable def reflected (c : BitVec w) : (ZMod 2)[X] :=
  ∑ i ∈ Finset.range w, if c.getMsbD i then X^i else 0

/-- The divisor that a register stands for, as its highest power is left out. -/
noncomputable def divisor (poly : BitVec w) : (ZMod 2)[X] := X^w+reflected poly

/-- The bits of all bytes, the least significant first, as coefficients in descending order. -/
noncomputable def message (data : List (BitVec 8)) : (ZMod 2)[X] :=
  data.foldl (fun m b => X^8*m+reflected b) 0

/-- The bits of a number as coefficients, its least significant bit with the lowest power. -/
noncomputable def plain (c : BitVec w) : (ZMod 2)[X] :=
  ∑ i ∈ Finset.range w, if c.getLsbD i then X^i else 0

theorem reflected_eq_plain (c : BitVec w) : reflected c = plain c.reverse := by
  simp only [reflected,plain,BitVec.getLsbD_reverse]

def bitStep (poly c : BitVec w) : BitVec w := (c>>>1)^^^if c.getLsbD 0 then poly else 0

def bits (poly : BitVec w) : ℕ → BitVec w → BitVec w
  | 0,c => c
  | n+1,c => bits poly n (bitStep poly c)

def byteStep (poly c : BitVec w) (b : BitVec 8) : BitVec w := bits poly 8 (c^^^b.setWidth w)

theorem coeff_reflected (c : BitVec w) (n : ℕ) : (reflected c).coeff n = if c.getMsbD n then 1 else 0 := by
  rw [reflected,finsetSum_coeff]
  have hterm : ∀ i, (if c.getMsbD i then (X : (ZMod 2)[X])^i else 0).coeff n =
      if i = n then if c.getMsbD n then 1 else 0 else 0 := by
    intro i
    by_cases hi : i = n
    · subst hi
      split <;> simp
    · rw [if_neg hi]
      split
      · rw [coeff_X_pow,if_neg (Ne.symm hi)]
      · rfl
  simp only [hterm,Finset.sum_ite_eq',Finset.mem_range]
  split
  · rfl
  · next hn => rw [BitVec.getMsbD_of_ge c n (by omega)]; rfl

theorem coeff_reflected_of_le {c : BitVec w} {n : ℕ} (h : w ≤ n) : (reflected c).coeff n = 0 := by
  rw [coeff_reflected,BitVec.getMsbD_of_ge c n h]
  rfl

theorem degree_reflected_lt (c : BitVec w) : (reflected c).degree < w :=
  (degree_lt_iff_coeff_zero _ _).mpr fun _ hn => coeff_reflected_of_le hn

theorem reflected_xor (c d : BitVec w) : reflected (c^^^d) = reflected c+reflected d := by
  ext n
  rw [coeff_add,coeff_reflected,coeff_reflected,coeff_reflected,BitVec.getMsbD_xor]
  cases c.getMsbD n <;> cases d.getMsbD n <;> decide

theorem divisor_monic (poly : BitVec w) : (divisor poly).Monic := monic_X_pow_add (degree_reflected_lt poly)

theorem degree_divisor (poly : BitVec w) : (divisor poly).degree = w := by
  rw [divisor,degree_add_eq_left_of_degree_lt]
  · exact degree_X_pow w
  · rw [degree_X_pow]
    exact degree_reflected_lt poly

/-- A step multiplies, and takes the divisor off where a power is too high. -/
theorem reflected_bitStep (poly c : BitVec w) :
    X*reflected c+(if c.getLsbD 0 then divisor poly else 0) = reflected (bitStep poly c) := by
  have hadd : ∀ a b : Bool, (if a then (1 : ZMod 2) else 0)+(if b then 1 else 0) = if a^^b then 1 else 0 := by
    decide
  ext n
  rw [coeff_add,coeff_reflected,bitStep,BitVec.getMsbD_xor,BitVec.getMsbD_ushiftRight]
  have htaken : ((if c.getLsbD 0 then divisor poly else 0).coeff n : ZMod 2) =
      if c.getLsbD 0 && (decide (n = w) ^^ poly.getMsbD n) then 1 else 0 := by
    cases c.getLsbD 0 with
    | false => simp
    | true =>
      rw [if_pos rfl,divisor,coeff_add,coeff_X_pow,coeff_reflected,Bool.true_and,← hadd]
      simp
  have hpoly : (if c.getLsbD 0 then poly else 0).getMsbD n = (c.getLsbD 0 && poly.getMsbD n) := by
    cases c.getLsbD 0 <;> simp
  rw [htaken,hpoly]
  cases n with
  | zero =>
    rw [coeff_X_mul_zero,zero_add]
    by_cases hw : w = 0
    · subst hw
      simp
    · simp [Ne.symm hw]
  | succ n =>
    rw [coeff_X_mul,coeff_reflected,hadd]
    have hlow : c.getMsbD n = if n+1 < w then c.getMsbD n else if n+1 = w then c.getLsbD 0 else false := by
      split
      · rfl
      · split
        · next h =>
          rw [BitVec.getMsbD_eq_getLsbD]
          subst h
          simp
        · exact BitVec.getMsbD_of_ge c n (by omega)
    rw [hlow]
    by_cases hlt : n+1 < w
    · have hne : n+1 ≠ w := by omega
      simp [hlt,hne]
    · by_cases heq : n+1 = w
      · simp [heq]
      · have hge : poly.getMsbD (n+1) = false := BitVec.getMsbD_of_ge poly (n+1) (by omega)
        simp [hlt,heq,hge]

theorem reflected_bits (poly : BitVec w) (n : ℕ) (c : BitVec w) :
    ∃ q, X^n*reflected c+divisor poly*q = reflected (bits poly n c) := by
  induction n generalizing c with
  | zero => exact ⟨0,by simp [bits]⟩
  | succ n ih =>
    obtain ⟨q,hq⟩ := ih (bitStep poly c)
    refine ⟨X^n*(if c.getLsbD 0 then 1 else 0)+q,?_⟩
    rw [bits,← hq,← reflected_bitStep]
    split <;> ring

theorem reflected_setWidth (b : BitVec 8) (hw : 8 ≤ w) :
    X^8*reflected (b.setWidth w) = X^w*reflected b := by
  ext n
  rw [coeff_X_pow_mul',coeff_X_pow_mul',coeff_reflected,coeff_reflected,BitVec.getMsbD_setWidth]
  by_cases hn : w ≤ n
  · have h8 : 8 ≤ n := by omega
    have hlow : w-8 ≤ n-8 := by omega
    simp [hn,h8,hlow]
  · have hlow : 8 ≤ n → ¬w-8 ≤ n-8 := by omega
    rw [if_neg hn]
    split
    · next h8 => simp [hlow h8]
    · rfl

theorem reflected_byteStep (poly c : BitVec w) (b : BitVec 8) (hw : 8 ≤ w) :
    ∃ q, X^8*reflected c+X^w*reflected b+divisor poly*q = reflected (byteStep poly c b) := by
  obtain ⟨q,hq⟩ := reflected_bits poly 8 (c^^^b.setWidth w)
  refine ⟨q,?_⟩
  rw [byteStep,← hq,reflected_xor,mul_add,reflected_setWidth b hw]

theorem message_append (data : List (BitVec 8)) (b : BitVec 8) :
    message (data++[b]) = X^8*message data+reflected b := by
  rw [message,List.foldl_append]
  rfl

theorem reflected_foldl (poly c : BitVec w) (data : List (BitVec 8)) (hw : 8 ≤ w) :
    ∃ q, X^(8*data.length)*reflected c+X^w*message data+divisor poly*q =
      reflected (data.foldl (byteStep poly) c) := by
  induction data using List.reverseRecOn with
  | nil => exact ⟨0,by simp [message]⟩
  | append_singleton data b ih =>
    obtain ⟨q,hq⟩ := ih
    obtain ⟨q',hq'⟩ := reflected_byteStep poly (data.foldl (byteStep poly) c) b hw
    refine ⟨X^8*q+q',?_⟩
    rw [List.foldl_append,List.foldl_cons,List.foldl_nil,← hq',← hq,message_append,List.length_append,
      List.length_singleton]
    ring

/-- The loop works out the remainder of what has been fed in, behind the register it began with. -/
theorem reflected_foldl_eq (poly c : BitVec w) (data : List (BitVec 8)) (hw : 8 ≤ w) :
    reflected (data.foldl (byteStep poly) c) =
      (X^(8*data.length)*reflected c+X^w*message data)%ₘdivisor poly := by
  obtain ⟨q,hq⟩ := reflected_foldl poly c data hw
  refine ((div_modByMonic_unique (-q) _ (divisor_monic poly) ⟨?_,?_⟩).2).symm
  · rw [← hq]
    ring
  · rw [degree_divisor]
    exact degree_reflected_lt _

end Lib.Crc
