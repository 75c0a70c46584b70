import Mathlib

/-! A gzip member without optional fields whose deflate stream is of stored blocks, and how it is read. -/
namespace Lib.StoredGzip

/-- Bytes as a number, the lowest first. -/
def readLE : List UInt8 → ℕ
  | [] => 0
  | b::bytes => b.toNat+256*readLE bytes

/-- What a member holds: its blocks, the checksum and the length. -/
structure Member where
  blocks : List (List UInt8)
  crc : BitVec 32
  isize : ℕ

def readHeader : List UInt8 → Option (List UInt8)
  | 0x1f::0x8b::8::0::_::_::_::_::_::_::rest => some rest
  | _ => none

/-- A block: whether it is the final one, what it holds, and what follows. -/
def readBlock : List UInt8 → Option (Bool × List UInt8 × List UInt8)
  | head::l0::l1::n0::n1::rest =>
    if head.toNat/2%4 = 0 ∧ readLE [n0,n1] = 0xffff-readLE [l0,l1] ∧ readLE [l0,l1] ≤ rest.length then
      some (head.toNat%2 = 1,rest.take (readLE [l0,l1]),rest.drop (readLE [l0,l1]))
    else none
  | _ => none

/-- The blocks up to the first that is final. -/
def readBlocks : ℕ → List UInt8 → Option (List (List UInt8) × List UInt8)
  | 0,_ => none
  | fuel+1,text => (readBlock text).bind fun b =>
    if b.1 then some ([b.2.1],b.2.2) else (readBlocks fuel b.2.2).map fun r => (b.2.1::r.1,r.2)

/-- A text that is one member and nothing else. -/
def readMember (text : List UInt8) : Option Member :=
  (readHeader text).bind fun body => (readBlocks body.length body).bind fun r =>
    match r.2 with
    | [c0,c1,c2,c3,i0,i1,i2,i3] => some ⟨r.1,.ofNat 32 (readLE [c0,c1,c2,c3]),readLE [i0,i1,i2,i3]⟩
    | _ => none

/-- A block as it stands in a member. -/
def Stands (final : Bool) (block text : List UInt8) : Prop :=
  ∃ l0 l1 n0 n1, text = (if final then 1 else 0)::l0::l1::n0::n1::block ∧
    readLE [l0,l1] = block.length ∧ readLE [n0,n1] = 0xffff-block.length

theorem readBlock_stands {final : Bool} {block text : List UInt8} (h : Stands final block text) (rest : List UInt8) :
    readBlock (text++rest) = some (final,block,rest) := by
  obtain ⟨l0,l1,n0,n1,rfl,hlen,hcheck⟩ := h
  have hroom : block.length ≤ (block++rest).length := by simp
  cases final <;> simp [readBlock,hlen,hcheck]

/-- Blocks as they stand one after the other, of which the last is final. -/
inductive StandAll : List (List UInt8) → List UInt8 → Prop
  | last {block text : List UInt8} (h : Stands true block text) : StandAll [block] text
  | cons {block text rest : List UInt8} {blocks : List (List UInt8)} (h : Stands false block text)
      (hrest : StandAll blocks rest) : StandAll (block::blocks) (text++rest)

theorem readBlocks_standAll {blocks : List (List UInt8)} {text : List UInt8} (h : StandAll blocks text)
    (rest : List UInt8) {fuel : ℕ} (hfuel : blocks.length ≤ fuel) :
    readBlocks fuel (text++rest) = some (blocks,rest) := by
  induction h generalizing fuel with
  | last h =>
    obtain ⟨fuel,rfl⟩ := Nat.exists_eq_add_of_le' hfuel
    simp [readBlocks,readBlock_stands h]
  | cons h _ ih =>
    rw [List.length_cons] at hfuel
    obtain ⟨fuel,rfl⟩ : ∃ k, fuel = k+1 := ⟨fuel-1,by omega⟩
    rw [List.append_assoc,readBlocks,readBlock_stands h]
    simp [ih (Nat.le_of_succ_le_succ hfuel)]

theorem length_standAll {blocks : List (List UInt8)} {text : List UInt8} (h : StandAll blocks text) :
    blocks.length ≤ text.length := by
  have hstands : ∀ {final : Bool} {block text : List UInt8}, Stands final block text → 1 ≤ text.length := by
    rintro final block text ⟨l0,l1,n0,n1,rfl,-⟩
    simp
  induction h with
  | last h => exact hstands h
  | cons h _ ih =>
    rw [List.length_cons,List.length_append]
    have := hstands h
    omega

/-- A member is read back, with eight bytes behind its blocks. -/
theorem readMember_standAll {m0 m1 m2 m3 xfl os : UInt8} {blocks : List (List UInt8)} {text : List UInt8}
    (h : StandAll blocks text) (c0 c1 c2 c3 i0 i1 i2 i3 : UInt8) :
    readMember ([0x1f,0x8b,8,0,m0,m1,m2,m3,xfl,os]++text++[c0,c1,c2,c3]++[i0,i1,i2,i3]) =
      some ⟨blocks,.ofNat 32 (readLE [c0,c1,c2,c3]),readLE [i0,i1,i2,i3]⟩ := by
  have hfuel : blocks.length ≤ (text++[c0,c1,c2,c3,i0,i1,i2,i3]).length := by
    rw [List.length_append]
    have := length_standAll h
    omega
  have hblocks := readBlocks_standAll h [c0,c1,c2,c3,i0,i1,i2,i3] hfuel
  simp only [readMember,readHeader,List.cons_append,List.nil_append,List.append_assoc,Option.bind_some,hblocks]

end Lib.StoredGzip
