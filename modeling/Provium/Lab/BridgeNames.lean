import Mathlib

/-! The names a bridge gives to what it owns on the host: its nft tables, `bridge.rs`, and the TAPs of its
VMs, `bridge_realize.rs`. -/
namespace Provium.Lab

/-- `sanitize_nft_name` -/
def sanitizeNftName (s : String) : String :=
  String.ofList (s.toList.map fun c => if c.isAlphanum then c else '_')

/-- The table of the partition rules. -/
def partitionTableFor (bridge : String) : String := "provium_"++sanitizeNftName bridge

/-- `uplink_table_for` -/
def uplinkTableFor (bridge : String) : String := "provium_uplink_"++sanitizeNftName bridge

theorem partitionTableFor_inj {a b : String} :
    partitionTableFor a = partitionTableFor b ↔ sanitizeNftName a = sanitizeNftName b :=
  String.append_right_inj _

theorem uplinkTableFor_inj {a b : String} :
    uplinkTableFor a = uplinkTableFor b ↔ sanitizeNftName a = sanitizeNftName b :=
  String.append_right_inj _

/-- The loop of `fnv1a_64`. -/
def fnv1aLoop (h : UInt64) (bytes : List UInt8) : UInt64 :=
  bytes.foldl (fun h byte => (h^^^byte.toUInt64)*0x00000100000001B3) h

def fnv1a64 (a b : List UInt8) : UInt64 :=
  fnv1aLoop 0xcbf29ce484222325 (a++":".toUTF8.toList++b)

/-- `{:07x}`, of a number that has no more digits. -/
def hex7 (n : ℕ) : List Char :=
  [n/16^6,n/16^5,n/16^4,n/16^3,n/16^2,n/16,n].map fun d => Nat.digitChar (d%16)

/-- What a TAP's name keeps of the VM's. -/
def tapStem (vm : String) : List Char :=
  (vm.toList.filter fun c => c.isAlphanum || c = '_').take 4

/-- The 28 bits that end a TAP's name. -/
def tapHash (vm bridge : String) : ℕ :=
  (fnv1a64 vm.toUTF8.toList bridge.toUTF8.toList &&& 0x0FFFFFFF).toNat

def tapNameForVmOnBridge (vm bridge : String) : String :=
  "tap-"++String.ofList (tapStem vm++hex7 (tapHash vm bridge))

theorem digitChar_inj {m n : ℕ} (hm : m < 16) (hn : n < 16) (h : Nat.digitChar m = Nat.digitChar n) :
    m = n := by
  interval_cases m <;> interval_cases n <;> first | rfl | exact absurd h (by decide)

theorem hex7_inj {m n : ℕ} (hm : m < 2^28) (hn : n < 2^28) (h : hex7 m = hex7 n) : m = n := by
  have hdigit : ∀ {a b : ℕ}, Nat.digitChar (a%16) = Nat.digitChar (b%16) → a%16 = b%16 :=
    digitChar_inj (Nat.mod_lt _ (by decide)) (Nat.mod_lt _ (by decide))
  simp only [hex7,List.map_cons,List.map_nil,List.cons.injEq,and_true] at h
  obtain ⟨h6,h5,h4,h3,h2,h1,h0⟩ := h
  have h6 := hdigit h6
  have h5 := hdigit h5
  have h4 := hdigit h4
  have h3 := hdigit h3
  have h2 := hdigit h2
  have h1 := hdigit h1
  have h0 := hdigit h0
  omega

theorem tapHash_lt (vm bridge : String) : tapHash vm bridge < 2^28 := by
  unfold tapHash
  rw [UInt64.toNat_and]
  exact lt_of_le_of_lt Nat.and_le_right (by decide)

/-- Two TAPs share a name exactly if the stems agree and the hashes do. -/
theorem tapName_inj {v w a b : String} :
    tapNameForVmOnBridge v a = tapNameForVmOnBridge w b ↔ tapStem v = tapStem w ∧ tapHash v a = tapHash w b := by
  unfold tapNameForVmOnBridge
  rw [String.append_right_inj,String.ofList_inj]
  constructor
  · intro h
    obtain ⟨hstem,hhex⟩ := List.append_inj' h rfl
    exact ⟨hstem,hex7_inj (tapHash_lt v a) (tapHash_lt w b) hhex⟩
  · rintro ⟨hstem,hhash⟩
    rw [hstem,hhash]

/-- The hash is one of the joined names. -/
example : tapNameForVmOnBridge "a:" "b" = tapNameForVmOnBridge "a" ":b" := by decide +kernel

end Provium.Lab
