import Provium.Lib.Crc
import Provium.Lib.StoredGzip

/-! The gzip container around the injected files, `gzip_stored` of `files_cpio.rs`. -/
namespace Provium.Vmm
open Lib Polynomial

/-- `to_le_bytes` of a `u16` -/
def u16Bytes (n : UInt16) : List UInt8 := [n.toUInt8,(n>>>8).toUInt8]

/-- `to_le_bytes` of a `u32` -/
def u32Bytes (n : UInt32) : List UInt8 := [n.toUInt8,(n>>>8).toUInt8,(n>>>16).toUInt8,(n>>>24).toUInt8]

/-- `slice::chunks`. There are no more chunks than bytes. -/
def chunksFrom (size : ℕ) : ℕ → List UInt8 → List (List UInt8)
  | 0,_ => []
  | _+1,[] => []
  | fuel+1,b::data => (b::data).take size::chunksFrom size fuel ((b::data).drop size)

def chunks (size : ℕ) (data : List UInt8) : List (List UInt8) := chunksFrom size data.length data

/-- The loop over the bits of a byte. -/
def crcBits : ℕ → UInt32 → UInt32
  | 0,crc => crc
  | n+1,crc => crcBits n ((crc>>>1)^^^(0xedb88320&&&(0-(crc&&&1))))

def crc32 (data : List UInt8) : UInt32 :=
  ~~~data.foldl (fun crc b => crcBits 8 (crc^^^b.toUInt32)) (~~~0)

/-- The loop over chunks; the last one is flagged. -/
def storedBlocks : List (List UInt8) → List UInt8
  | [] => []
  | chunk::rest =>
    (if rest.isEmpty then 0x01 else 0x00)::u16Bytes (.ofNat chunk.length)++u16Bytes (~~~.ofNat chunk.length)++
      chunk++storedBlocks rest

def gzipStored (data : List UInt8) : List UInt8 :=
  [0x1f,0x8b,0x08,0,0,0,0,0,0,0xff]++
  ((if (chunks 0xffff data).isEmpty then [0x01,0x00,0x00,0xff,0xff] else [])++storedBlocks (chunks 0xffff data))++
  u32Bytes (crc32 data)++u32Bytes (.ofNat data.length)

/-! ## The checksum -/

/-- The mask that the lowest bit makes. -/
theorem neg_and_one (c : BitVec 32) : 0-(c&&&1#32) = if c.getLsbD 0 then BitVec.allOnes 32 else 0 := by
  rw [BitVec.and_one_eq_setWidth_ofBool_getLsbD]
  cases c.getLsbD 0 <;> rfl

theorem crcBits_toBitVec (n : ℕ) (crc : UInt32) :
    (crcBits n crc).toBitVec = Crc.bits 0xedb88320#32 n crc.toBitVec := by
  induction n generalizing crc with
  | zero => rfl
  | succ n ih =>
    rw [crcBits,ih,Crc.bits]
    refine congrArg _ ?_
    change (crc.toBitVec>>>1)^^^(0xedb88320#32&&&(0-(crc.toBitVec&&&1#32))) = _
    rw [neg_and_one,Crc.bitStep]
    cases crc.toBitVec.getLsbD 0
    · simp
    · simp

theorem crc32_toBitVec (data : List UInt8) :
    (crc32 data).toBitVec =
      ~~~(data.map UInt8.toBitVec).foldl (Crc.byteStep 0xedb88320#32) (BitVec.allOnes 32) := by
  have hfold : ∀ crc : UInt32, (data.foldl (fun crc b => crcBits 8 (crc^^^b.toUInt32)) crc).toBitVec =
      (data.map UInt8.toBitVec).foldl (Crc.byteStep 0xedb88320#32) crc.toBitVec := by
    induction data with
    | nil => exact fun crc => rfl
    | cons b data ih =>
      intro crc
      rw [List.foldl_cons,ih,crcBits_toBitVec]
      rfl
  rw [crc32,UInt32.toBitVec_not,hfold]
  rfl

/-- The divisor of the standard. -/
noncomputable def crc32Divisor : (ZMod 2)[X] := X^32+Crc.plain 0x04c11db7#32

theorem crc32Divisor_eq : crc32Divisor = Crc.divisor 0xedb88320#32 := by
  have hreverse : (0xedb88320#32).reverse = 0x04c11db7#32 := by decide +kernel
  rw [crc32Divisor,Crc.divisor,Crc.reflected_eq_plain,hreverse]

/-- The checksum of the standard: the remainder of the message, its first bits inverted, and inverted again. -/
theorem reflected_crc32 (data : List UInt8) :
    Crc.reflected (crc32 data).toBitVec =
      (X^(8*data.length)*Crc.reflected (BitVec.allOnes 32)+X^32*Crc.message (data.map UInt8.toBitVec))
        %ₘcrc32Divisor+Crc.reflected (BitVec.allOnes 32) := by
  have hnot : ∀ c : BitVec 32, ~~~c = c^^^BitVec.allOnes 32 := fun c => BitVec.xor_allOnes.symm
  rw [crc32_toBitVec,hnot,Crc.reflected_xor,Crc.reflected_foldl_eq _ _ _ (by decide),crc32Divisor_eq,
    List.length_map]

example : crc32 "123456789".toUTF8.toList = 0xcbf43926 := by decide +kernel

/-! ## The blocks -/

theorem chunksFrom_spec {size : ℕ} (hsize : 0 < size) (fuel : ℕ) {data : List UInt8} (hfuel : data.length ≤ fuel) :
    (chunksFrom size fuel data).flatten = data ∧ ∀ chunk ∈ chunksFrom size fuel data, chunk.length ≤ size := by
  induction fuel generalizing data with
  | zero =>
    obtain rfl := List.length_eq_zero_iff.mp (Nat.le_zero.mp hfuel)
    exact ⟨rfl,fun chunk hchunk => nomatch hchunk⟩
  | succ fuel ih =>
    cases data with
    | nil => exact ⟨rfl,fun chunk hchunk => nomatch hchunk⟩
    | cons b data =>
      have hrest : ((b::data).drop size).length ≤ fuel := by
        rw [List.length_drop,List.length_cons] at *
        omega
      obtain ⟨hflatten,hshort⟩ := ih hrest
      rw [chunksFrom]
      constructor
      · rw [List.flatten_cons,hflatten,List.take_append_drop]
      · intro chunk hchunk
        obtain rfl | hchunk := List.mem_cons.mp hchunk
        · exact List.length_take_le size _
        · exact hshort chunk hchunk

theorem readLE_u16 (n : UInt16) : StoredGzip.readLE (u16Bytes n) = n.toNat := by
  have hn := n.toNat_lt
  have h8 : (8 : UInt16).toNat%16 = 8 := rfl
  simp only [u16Bytes,StoredGzip.readLE,UInt16.toNat_toUInt8,UInt16.toNat_shiftRight,Nat.shiftRight_eq_div_pow,h8]
  omega

theorem readLE_u32 (n : UInt32) : StoredGzip.readLE (u32Bytes n) = n.toNat := by
  have hn := n.toNat_lt
  have h8 : (8 : UInt32).toNat%32 = 8 := rfl
  have h16 : (16 : UInt32).toNat%32 = 16 := rfl
  have h24 : (24 : UInt32).toNat%32 = 24 := rfl
  simp only [u32Bytes,StoredGzip.readLE,UInt32.toNat_toUInt8,UInt32.toNat_shiftRight,Nat.shiftRight_eq_div_pow,h8,
    h16,h24]
  omega

theorem readLE_u16Bytes {n : ℕ} (h : n < 2^16) :
    StoredGzip.readLE (u16Bytes (.ofNat n)) = n ∧ StoredGzip.readLE (u16Bytes (~~~.ofNat n)) = 0xffff-n := by
  have hn : (UInt16.ofNat n).toNat = n := UInt16.toNat_ofNat_of_lt' h
  rw [readLE_u16,readLE_u16,UInt16.toNat_not,hn]
  exact ⟨rfl,rfl⟩

/-- A chunk's block. -/
theorem stands_chunk (final : Bool) {chunk : List UInt8} (h : chunk.length ≤ 0xffff) :
    StoredGzip.Stands final chunk ((if final then 0x01 else 0x00)::u16Bytes (.ofNat chunk.length)++
      u16Bytes (~~~.ofNat chunk.length)++chunk) := by
  obtain ⟨hlen,hcheck⟩ := readLE_u16Bytes (by omega : chunk.length < 2^16)
  exact ⟨_,_,_,_,rfl,hlen,hcheck⟩

theorem standAll_storedBlocks {blocks : List (List UInt8)} (hne : blocks ≠ [])
    (hshort : ∀ chunk ∈ blocks, chunk.length ≤ 0xffff) : StoredGzip.StandAll blocks (storedBlocks blocks) := by
  induction blocks with
  | nil => exact absurd rfl hne
  | cons chunk rest ih =>
    have hchunk := hshort chunk List.mem_cons_self
    cases rest with
    | nil =>
      rw [storedBlocks,storedBlocks,List.append_nil]
      exact .last (stands_chunk true hchunk)
    | cons next rest =>
      have hrest := ih (List.cons_ne_nil next rest) fun c hc => hshort c (List.mem_cons_of_mem chunk hc)
      rw [storedBlocks]
      exact .cons (stands_chunk false hchunk) hrest

/-- Nothing is one block of nothing. -/
theorem standAll_empty : StoredGzip.StandAll [[]] [0x01,0x00,0x00,0xff,0xff] :=
  .last ⟨_,_,_,_,rfl,by decide,by decide⟩

theorem readMember_gzip {blocks : List (List UInt8)} {text : List UInt8} (h : StoredGzip.StandAll blocks text)
    (crc size : UInt32) :
    StoredGzip.readMember ([0x1f,0x8b,0x08,0,0,0,0,0,0,0xff]++text++u32Bytes crc++u32Bytes size) =
      some ⟨blocks,crc.toBitVec,size.toNat⟩ := by
  have hcrc := readLE_u32 crc
  have hsize := readLE_u32 size
  rw [u32Bytes] at hcrc hsize
  refine (StoredGzip.readMember_standAll h _ _ _ _ _ _ _ _).trans ?_
  have hbits : BitVec.ofNat 32 crc.toNat = crc.toBitVec := BitVec.eq_of_toNat_eq (by simp)
  rw [hcrc,hsize,hbits]

/-- The blocks of the container: the chunks, or an empty one where there are none. -/
theorem exists_blocks (data : List UInt8) : ∃ blocks : List (List UInt8),
    StoredGzip.StandAll blocks ((if (chunks 0xffff data).isEmpty then [0x01,0x00,0x00,0xff,0xff] else [])++
      storedBlocks (chunks 0xffff data)) ∧ blocks.flatten = data ∧ ∀ block ∈ blocks, block.length ≤ 0xffff := by
  obtain ⟨hflatten,hshort⟩ := chunksFrom_spec (by decide : 0 < 0xffff) data.length (le_refl data.length)
  by_cases hempty : chunks 0xffff data = []
  · refine ⟨[[]],?_,?_,by simp⟩
    · rw [hempty]
      exact standAll_empty
    · rw [chunks] at hempty
      rw [hempty] at hflatten
      exact hflatten
  · refine ⟨chunks 0xffff data,?_,hflatten,hshort⟩
    rw [if_neg (by simpa using hempty),List.nil_append]
    exact standAll_storedBlocks hempty hshort

theorem blocks_ne_nil {blocks : List (List UInt8)} {text : List UInt8} (h : StoredGzip.StandAll blocks text) :
    blocks ≠ [] := by
  cases h with
  | last _ => exact List.cons_ne_nil _ _
  | cons _ _ => exact List.cons_ne_nil _ _

/-- The container is one gzip member, which holds the data in blocks and ends with its checksum and length. -/
theorem gzip_stored_round_trips (data : List UInt8) : ∃ m : StoredGzip.Member,
    StoredGzip.readMember (gzipStored data) = some m ∧ m.blocks.flatten = data ∧ m.blocks ≠ [] ∧
      (∀ block ∈ m.blocks, block.length ≤ 65535) ∧
      Crc.reflected m.crc =
        (X^(8*data.length)*Crc.reflected (BitVec.allOnes 32)+X^32*Crc.message (data.map UInt8.toBitVec))
          %ₘcrc32Divisor+Crc.reflected (BitVec.allOnes 32) ∧
      m.isize = data.length%2^32 := by
  obtain ⟨blocks,hstand,hflatten,hshort⟩ := exists_blocks data
  exact ⟨_,readMember_gzip hstand (crc32 data) (.ofNat data.length),hflatten,blocks_ne_nil hstand,hshort,
    reflected_crc32 data,rfl⟩

end Provium.Vmm
