import Mathlib

/-! Natural numbers as big-endian byte strings of a fixed width. -/
namespace Lib

/-- The low `k` bytes of a number, most significant first. -/
def toBeBytes : ℕ → ℕ → List UInt8
  | 0,_ => []
  | k+1,n => UInt8.ofNat (n/256^k)::toBeBytes k n

def fromBeBytes (bs : List UInt8) : ℕ := bs.foldl (fun acc b => acc*256+b.toNat) 0

@[simp] theorem length_toBeBytes (k n : ℕ) : (toBeBytes k n).length = k := by
  induction k with
  | zero => rfl
  | succ k ih => simp [toBeBytes,ih]

theorem foldl_toBeBytes (k n acc : ℕ) :
    (toBeBytes k n).foldl (fun acc b => acc*256+b.toNat) acc = acc*256^k+n%256^k := by
  induction k generalizing acc with
  | zero => simp [toBeBytes,Nat.mod_one]
  | succ k ih =>
    have hsplit : n%256^(k+1) = n%256^k+256^k*(n/256^k%256) := Nat.mod_pow_succ
    have hbyte : (UInt8.ofNat (n/256^k)).toNat = n/256^k%256 := UInt8.toNat_ofNat'
    rw [toBeBytes,List.foldl_cons,ih,hsplit,hbyte]
    ring

theorem fromBeBytes_toBeBytes {k n : ℕ} (h : n < 256^k) : fromBeBytes (toBeBytes k n) = n := by
  rw [fromBeBytes,foldl_toBeBytes,Nat.zero_mul,Nat.zero_add,Nat.mod_eq_of_lt h]

theorem foldl_fromBeBytes (bs : List UInt8) (acc : ℕ) :
    bs.foldl (fun acc b => acc*256+b.toNat) acc = acc*256^bs.length+fromBeBytes bs := by
  induction bs generalizing acc with
  | nil => simp [fromBeBytes]
  | cons c bs ih =>
    have hc : fromBeBytes (c::bs) = (0*256+c.toNat)*256^bs.length+fromBeBytes bs := ih _
    rw [List.foldl_cons,ih,hc,List.length_cons]
    ring

theorem fromBeBytes_cons (b : UInt8) (bs : List UInt8) :
    fromBeBytes (b::bs) = b.toNat*256^bs.length+fromBeBytes bs := by
  have hb : fromBeBytes (b::bs) = (0*256+b.toNat)*256^bs.length+fromBeBytes bs :=
    foldl_fromBeBytes bs _
  rw [hb,Nat.zero_mul,Nat.zero_add]

theorem fromBeBytes_lt (bs : List UInt8) : fromBeBytes bs < 256^bs.length := by
  induction bs with
  | nil => simp [fromBeBytes]
  | cons b bs ih =>
    have hb : b.toNat < 256 := b.toNat_lt
    rw [fromBeBytes_cons,List.length_cons,pow_succ]
    nlinarith

/-- Higher bytes are cut off. -/
theorem toBeBytes_add_mul (k a n : ℕ) : toBeBytes k (a*256^k+n) = toBeBytes k n := by
  induction k generalizing a with
  | zero => rfl
  | succ k ih =>
    have hsplit : a*256^(k+1)+n = a*256*256^k+n := by ring
    have hdiv : (a*256*256^k+n)/256^k = a*256+n/256^k := by
      rw [Nat.add_comm,Nat.add_mul_div_right _ _ (by positivity),Nat.add_comm]
    have hbyte : UInt8.ofNat (a*256+n/256^k) = UInt8.ofNat (n/256^k) := by
      apply UInt8.toNat_inj.mp
      simp only [UInt8.toNat_ofNat']
      omega
    rw [hsplit,toBeBytes,toBeBytes,hdiv,hbyte,ih]

theorem toBeBytes_fromBeBytes (bs : List UInt8) : toBeBytes bs.length (fromBeBytes bs) = bs := by
  induction bs with
  | nil => rfl
  | cons b bs ih =>
    have hdiv : (b.toNat*256^bs.length+fromBeBytes bs)/256^bs.length = b.toNat := by
      rw [Nat.add_comm,Nat.add_mul_div_right _ _ (by positivity),
        Nat.div_eq_of_lt (fromBeBytes_lt bs),Nat.zero_add]
    rw [fromBeBytes_cons,List.length_cons,toBeBytes,hdiv,toBeBytes_add_mul,ih]
    simp

end Lib
