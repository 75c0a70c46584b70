import Mathlib

/-! The numbers of IEEE 754's binary64, rounded to the nearest, of two nearest ones to the even one. A finite
number is its sign and its magnitude, which is counted in the least of them. -/
namespace Lib

/-- The nearest integer, of two the even one. -/
def roundEven (q : ℚ) : ℕ :=
  if q-⌊q⌋₊ < 1/2 then ⌊q⌋₊ else if q-⌊q⌋₊ = 1/2 then ⌊q⌋₊+⌊q⌋₊%2 else ⌊q⌋₊+1

theorem roundEven_le_iff {q : ℚ} (hq : 0 ≤ q) (m : ℕ) :
    roundEven q ≤ m ↔ q < m+1/2 ∨ q = m+1/2 ∧ m%2 = 0 := by
  have hfloor : (⌊q⌋₊ : ℚ) ≤ q := Nat.floor_le hq
  have hnext : q < ⌊q⌋₊+1 := Nat.lt_floor_add_one q
  obtain hlt | rfl | hgt := lt_trichotomy ⌊q⌋₊ m
  · have hbelow : (⌊q⌋₊ : ℚ)+1 ≤ m := by exact_mod_cast hlt
    have hround : roundEven q ≤ ⌊q⌋₊+1 := by
      unfold roundEven
      split_ifs <;> omega
    exact iff_of_true (by omega) (.inl (by linarith))
  · unfold roundEven
    split_ifs with hlow htie
    · exact iff_of_true le_rfl (.inl (by linarith))
    · have hq : q = ⌊q⌋₊+1/2 := by linarith
      constructor
      · intro h
        exact .inr ⟨hq,by omega⟩
      · rintro (h | ⟨-,h⟩)
        · linarith
        · omega
    · refine iff_of_false (by omega) ?_
      rintro (h | ⟨h,-⟩)
      · exact hlow (by linarith)
      · exact htie (by linarith)
  · have habove : (m : ℚ)+1 ≤ ⌊q⌋₊ := by exact_mod_cast hgt
    have hround : ⌊q⌋₊ ≤ roundEven q := by
      unfold roundEven
      split_ifs <;> omega
    refine iff_of_false (by omega) ?_
    rintro (h | ⟨h,-⟩) <;> linarith

namespace Binary64

/-- The least magnitude is 2^-1074. -/
def grain : ℕ := 1074

def value (u : ℕ) : ℚ := u/2^grain

/-- The exponent of the last of the 53 digits of a magnitude. -/
def exponent (u : ℕ) : ℕ := Nat.log2 u-52

/-- A magnitude that is written with 53 digits. -/
def Short (u : ℕ) : Prop := 2^exponent u ∣ u

/-- A magnitude of a number, which is not too large. -/
def Fits (u : ℕ) : Prop := u < 2^(1024+grain) ∧ Short u

instance (u : ℕ) : Decidable (Short u) := inferInstanceAs (Decidable (_ ∣ _))

instance (u : ℕ) : Decidable (Fits u) := inferInstanceAs (Decidable (_ ∧ _))

/-- The nearest magnitude, as if there were no largest. -/
def roundUnits (q : ℚ) : ℕ := roundEven (q/2^exponent ⌊q⌋₊)*2^exponent ⌊q⌋₊

end Binary64

inductive Binary64 where
  | nan
  | infinity (negative : Bool)
  | finite (negative : Bool) (units : ℕ) (fits : Binary64.Fits units)
  deriving DecidableEq

namespace Binary64

theorem value_nonneg (u : ℕ) : 0 ≤ value u := by
  unfold value
  positivity

theorem value_mul_grain (u : ℕ) : value u*2^grain = u := div_mul_cancel₀ _ (by positivity)

theorem value_le_iff (u m e : ℕ) : value u ≤ m*2^e ↔ u ≤ m*2^(e+grain) := by
  rw [value,div_le_iff₀ (by positivity),mul_assoc,← pow_add]
  exact_mod_cast Iff.rfl

theorem value_eq_iff (u k : ℕ) : value u = k ↔ u = k*2^grain := by
  rw [value,div_eq_iff (by positivity)]
  exact_mod_cast Iff.rfl

theorem lt_of_exponent (u : ℕ) : u < 2^(53+exponent u) := by
  have hlog := Nat.lt_log2_self (n := u)
  refine hlog.trans_le (Nat.pow_le_pow_right Nat.two_pos ?_)
  unfold exponent
  omega

theorem le_of_exponent {u : ℕ} (h : exponent u ≠ 0) : 2^(52+exponent u) ≤ u := by
  have hlog : Nat.log2 u = 52+exponent u := by
    unfold exponent at h ⊢
    omega
  rw [← hlog]
  refine Nat.log2_self_le ?_
  rintro rfl
  exact h rfl

variable {q : ℚ} {m e : ℕ}

theorem lt_of_exponent_floor (q : ℚ) : q < 2^53*2^exponent ⌊q⌋₊ := by
  have h : ((⌊q⌋₊+1 : ℕ) : ℚ) ≤ (2^(53+exponent ⌊q⌋₊) : ℕ) := by
    exact_mod_cast Nat.succ_le_of_lt (lt_of_exponent ⌊q⌋₊)
  push_cast [pow_add] at h
  exact (Nat.lt_floor_add_one q).trans_le h

theorem roundEven_le_pow (hq : 0 ≤ q) : roundEven (q/2^exponent ⌊q⌋₊) ≤ 2^53 := by
  refine (roundEven_le_iff (by positivity) _).mpr (.inl ?_)
  rw [div_lt_iff₀ (by positivity)]
  have hlt := lt_of_exponent_floor q
  have hexp : (0 : ℚ) < 2^exponent ⌊q⌋₊ := by positivity
  push_cast
  linarith

/-- What has a smaller exponent is below a magnitude of 53 digits. -/
theorem pow_exponent_le {k : ℕ} (he : e = 0 ∨ 2^52 ≤ m) (hlt : k < e) : 2^53*2^k ≤ m*2^e := by
  obtain rfl | hm := he
  · omega
  · calc
      2^53*2^k = 2^(53+k) := (pow_add 2 53 k).symm
      _ ≤ 2^(52+e) := Nat.pow_le_pow_right Nat.two_pos (by omega)
      _ = 2^52*2^e := pow_add 2 52 e
      _ ≤ m*2^e := Nat.mul_le_mul_right _ hm

/-- What is rounded to at most a magnitude: what is nearer to it than to the next. -/
theorem roundUnits_le_iff (hq : 0 ≤ q) (hm : m < 2^53) (he : e = 0 ∨ 2^52 ≤ m) :
    roundUnits q ≤ m*2^e ↔ q < (m+1/2)*2^e ∨ q = (m+1/2)*2^e ∧ m%2 = 0 := by
  have hpos : (0 : ℚ) < 2^e := by positivity
  have hfloor : (⌊q⌋₊ : ℚ) ≤ q := Nat.floor_le hq
  have hm' : (m : ℚ)+1 ≤ 2^53 := by exact_mod_cast hm
  have hdiv : 0 ≤ q/2^exponent ⌊q⌋₊ := by positivity
  unfold roundUnits
  obtain hlt | heq | hgt := lt_trichotomy (exponent ⌊q⌋₊) e
  · -- all that has this exponent is below the magnitude
    have hstep := pow_exponent_le he hlt
    have hstep' : (2 : ℚ)^53*2^exponent ⌊q⌋₊ ≤ m*2^e := by exact_mod_cast hstep
    have hlt' := lt_of_exponent_floor q
    refine iff_of_true ?_ (.inl (by linarith))
    exact (Nat.mul_le_mul_right _ (roundEven_le_pow hq)).trans hstep
  · rw [heq,Nat.mul_le_mul_right_iff (by positivity),roundEven_le_iff (by positivity),div_lt_iff₀ hpos,
      div_eq_iff hpos.ne']
  · -- nothing that has this exponent is below the next magnitude
    have hstep : (m+1)*2^e ≤ 2^(52+exponent ⌊q⌋₊) := by
      calc
        (m+1)*2^e ≤ 2^53*2^e := Nat.mul_le_mul_right _ hm
        _ = 2^(53+e) := (pow_add 2 53 e).symm
        _ ≤ 2^(52+exponent ⌊q⌋₊) := Nat.pow_le_pow_right Nat.two_pos (by omega)
    have hle : (2 : ℚ)^(52+exponent ⌊q⌋₊) ≤ q := by
      have h : ((2^(52+exponent ⌊q⌋₊) : ℕ) : ℚ) ≤ ⌊q⌋₊ := by
        exact_mod_cast le_of_exponent (u := ⌊q⌋₊) (by omega)
      push_cast at h
      exact h.trans hfloor
    have hround : 2^52 ≤ roundEven (q/2^exponent ⌊q⌋₊) := by
      by_contra hlow
      have hlow' := (roundEven_le_iff hdiv (2^52-1)).mp (by omega)
      rw [pow_add,← le_div_iff₀ (by positivity)] at hle
      have hlow'' := hlow'.elim le_of_lt fun h => h.1.le
      norm_num at hlow''
      linarith
    have hstep' : ((m : ℚ)+1)*2^e ≤ 2^(52+exponent ⌊q⌋₊) := by exact_mod_cast hstep
    refine iff_of_false (not_le.mpr ?_) ?_
    · calc
        m*2^e < (m+1)*2^e := Nat.mul_lt_mul_of_pos_right (Nat.lt_succ_self m) (by positivity)
        _ ≤ 2^(52+exponent ⌊q⌋₊) := hstep
        _ = 2^52*2^exponent ⌊q⌋₊ := pow_add 2 52 _
        _ ≤ roundEven (q/2^exponent ⌊q⌋₊)*2^exponent ⌊q⌋₊ := Nat.mul_le_mul_right _ hround
    · rintro (h | ⟨h,-⟩) <;> linarith

/-- Between two magnitudes with the same exponent that are next to each other there is none. -/
theorem Short.next_le {u : ℕ} (h : Short u) (he : e = 0 ∨ 2^52 ≤ m) (hlt : m*2^e < u) : (m+1)*2^e ≤ u := by
  have hdvd : 2^e ∣ u := by
    refine (pow_dvd_pow 2 ?_).trans h
    by_contra hexp
    have hle := pow_exponent_le he (not_le.mp hexp)
    have hu := lt_of_exponent u
    rw [pow_add] at hu
    omega
  obtain ⟨k,rfl⟩ := hdvd
  rw [mul_comm (2^e) k] at hlt ⊢
  exact Nat.mul_le_mul_right _ (Nat.lt_of_mul_lt_mul_right hlt)

/-- The largest magnitude below a power of two. -/
theorem Short.le_iff_lt_pow {u : ℕ} (h : Short u) (e : ℕ) : u ≤ (2^53-1)*2^e ↔ u < 2^(53+e) := by
  rw [pow_add]
  constructor
  · intro hle
    exact hle.trans_lt (Nat.mul_lt_mul_of_pos_right (by norm_num) (by positivity))
  · intro hlt
    by_contra hnot
    exact (h.next_le (.inr (by norm_num)) (not_le.mp hnot)).not_gt hlt

theorem short_mul_pow {r k : ℕ} (hr : r ≤ 2^53) : Short (r*2^k) := by
  obtain rfl | hpos := Nat.eq_zero_or_pos r
  · rw [zero_mul]
    exact dvd_zero _
  obtain rfl | hlt := eq_or_lt_of_le hr
  · have hexp : exponent (2^53*2^k) = k+1 := by
      rw [← pow_add,exponent,Nat.log2_two_pow]
      omega
    rw [Short,hexp]
    exact ⟨2^52,by ring⟩
  · refine (pow_dvd_pow 2 ?_).trans (Nat.dvd_mul_left _ _)
    have hlog : Nat.log2 (r*2^k) < 53+k := by
      rw [Nat.log2_lt (by positivity),pow_add]
      exact Nat.mul_lt_mul_of_pos_right hlt (by positivity)
    unfold exponent
    omega

/-- What is rounded is written with 53 digits. -/
theorem short_roundUnits (hq : 0 ≤ q) : Short (roundUnits q) :=
  short_mul_pow (roundEven_le_pow hq)

theorem pow_le_roundUnits (hq : 2^(53+e) ≤ q) : 2^(53+e) ≤ roundUnits q := by
  have hnonneg : 0 ≤ q := (by positivity : (0 : ℚ) ≤ 2^(53+e)).trans hq
  by_contra h
  have hle := ((short_roundUnits hnonneg).le_iff_lt_pow e).mpr (not_le.mp h)
  have hcut := (roundUnits_le_iff hnonneg (by norm_num) (.inr (by norm_num))).mp hle
  have hpos : (0 : ℚ) < 2^e := by positivity
  rw [pow_add] at hq
  have hcut' := hcut.elim le_of_lt fun h => h.1.le
  push_cast at hcut'
  norm_num at hcut'
  linarith

/-- The nearest number with the sign. -/
def ofRat (negative : Bool) (q : ℚ) : Binary64 :=
  if h : 0 ≤ q ∧ roundUnits (q*2^grain) < 2^(1024+grain) then
    .finite negative (roundUnits (q*2^grain)) ⟨h.2,short_roundUnits (mul_nonneg h.1 (by positivity))⟩
  else .infinity negative

def ofInt (i : ℤ) : Binary64 := ofRat (i < 0) i.natAbs

def mul : Binary64 → Binary64 → Binary64
  | .nan,_ => .nan
  | _,.nan => .nan
  | .infinity a,.infinity b => .infinity (a ^^ b)
  | .infinity a,.finite b u _ => if u = 0 then .nan else .infinity (a ^^ b)
  | .finite a u _,.infinity b => if u = 0 then .nan else .infinity (a ^^ b)
  | .finite a u _,.finite b v _ => ofRat (a ^^ b) (value u*value v)

/-- Greater than zero. -/
def positive : Binary64 → Bool
  | .nan => false
  | .infinity negative => !negative
  | .finite negative u _ => !negative && u != 0

/-- Less than zero. -/
def negative : Binary64 → Bool
  | .nan => false
  | .infinity negative => negative
  | .finite negative u _ => negative && u != 0

theorem ofRat_of_lt (negative : Bool) (hq : 0 ≤ q) (h : roundUnits (q*2^grain) < 2^(1024+grain)) :
    ∃ hu, ofRat negative q = .finite negative (roundUnits (q*2^grain)) hu := ⟨_,dif_pos ⟨hq,h⟩⟩

theorem ofRat_of_not_lt (negative : Bool) (h : ¬roundUnits (q*2^grain) < 2^(1024+grain)) :
    ofRat negative q = .infinity negative := dif_neg fun h' => h h'.2

theorem mul_finite (a b : Bool) {u v : ℕ} (hu : Fits u) (hv : Fits v) :
    (finite a u hu).mul (.finite b v hv) = ofRat (a ^^ b) (value u*value v) := rfl

theorem infinity_mul (a b : Bool) {v : ℕ} (hv : Fits v) (h : v ≠ 0) :
    (infinity a).mul (.finite b v hv) = .infinity (a ^^ b) := if_neg h

/-- What is multiplied and rounded to at most a magnitude. -/
theorem roundUnits_mul_le_iff {u m' e' : ℕ} {c : ℚ} (hu : Short u) (hc : 0 ≤ c) (hm : m < 2^53)
    (he : e = 0 ∨ 2^52 ≤ m) (he' : e' = 0 ∨ 2^52 ≤ m') (hbelow : m'*2^e'*c < (m+1/2)*2^e)
    (habove : (m+1/2)*2^e < (m'+1)*2^e'*c) : roundUnits (u*c) ≤ m*2^e ↔ u ≤ m'*2^e' := by
  rw [roundUnits_le_iff (by positivity) hm he]
  obtain hle | hlt := le_or_gt u (m'*2^e')
  · refine iff_of_true (.inl ?_) hle
    have hle' : (u : ℚ) ≤ m'*2^e' := by exact_mod_cast hle
    have h := mul_le_mul_of_nonneg_right hle' hc
    linarith
  · refine iff_of_false ?_ (by omega)
    have hle' : ((m' : ℚ)+1)*2^e' ≤ u := by exact_mod_cast hu.next_le he' hlt
    have h := mul_le_mul_of_nonneg_right hle' hc
    rintro (h' | ⟨h',-⟩) <;> linarith

end Binary64
end Lib
