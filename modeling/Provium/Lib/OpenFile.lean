import Provium.Lib.Splice

/-! A file that is open at a position. What lies between the end of its bytes and a position behind it is a hole,
which reads as zeros. -/
namespace Lib

/-- The bytes with zeros up to a length. -/
def padTo (n : ℕ) (bytes : List UInt8) : List UInt8 := bytes++List.replicate (n-bytes.length) 0

theorem padTo_of_le {n : ℕ} {bytes : List UInt8} (h : n ≤ bytes.length) : padTo n bytes = bytes := by
  rw [padTo,Nat.sub_eq_zero_of_le h,List.replicate_zero,List.append_nil]

theorem length_padTo (n : ℕ) (bytes : List UInt8) : (padTo n bytes).length = max n bytes.length := by
  rw [padTo,List.length_append,List.length_replicate]
  omega

theorem padTo_add {n : ℕ} {bytes : List UInt8} (h : bytes.length ≤ n) (k : ℕ) :
    padTo (n+k) bytes = padTo n bytes++List.replicate k 0 := by
  rw [padTo,padTo,List.append_assoc,List.replicate_append_replicate]
  congr 2
  omega

structure OpenFile where
  bytes : List UInt8
  pos : ℕ
  deriving DecidableEq, Repr

namespace OpenFile

/-- The next bytes, fewer where the file ends before. -/
def read (f : OpenFile) (n : ℕ) : List UInt8 × OpenFile :=
  (slice f.bytes f.pos n,{ f with pos := f.pos+(slice f.bytes f.pos n).length })

/-- The bytes are written over what is there. To write nothing changes nothing. -/
def write (f : OpenFile) (data : List UInt8) : OpenFile :=
  if data = [] then f else ⟨splice (padTo f.pos f.bytes) f.pos data,f.pos+data.length⟩

/-- The position moves and nothing is written. -/
def skip (f : OpenFile) (n : ℕ) : OpenFile := { f with pos := f.pos+n }

/-- `ftruncate` -/
def setLen (f : OpenFile) (n : ℕ) : OpenFile := { f with bytes := padTo n (f.bytes.take n) }

/-- Up to the position, which is not before its end, the file reads as the content. -/
def Holds (f : OpenFile) (content : List UInt8) : Prop := f.bytes.length ≤ f.pos ∧ padTo f.pos f.bytes = content

variable {f : OpenFile} {content : List UInt8}

theorem Holds.pos_eq (h : f.Holds content) : f.pos = content.length := by
  rw [← h.2,length_padTo,max_eq_left h.1]

theorem Holds.write (h : f.Holds content) (data : List UInt8) : (f.write data).Holds (content++data) := by
  obtain ⟨hle,rfl⟩ := h
  unfold OpenFile.write
  split_ifs with hdata
  · rw [hdata,List.append_nil]
    exact ⟨hle,rfl⟩
  · have hlength : (padTo f.pos f.bytes).length = f.pos := by rw [length_padTo,max_eq_left hle]
    have hsplice : splice (padTo f.pos f.bytes) f.pos data = padTo f.pos f.bytes++data := by
      rw [splice,List.take_of_length_le hlength.le,List.drop_eq_nil_of_le (by omega),List.append_nil]
    refine ⟨?_,?_⟩
    · rw [hsplice,List.length_append,hlength]
    · rw [hsplice,padTo_of_le]
      rw [List.length_append,hlength]

theorem Holds.skip (h : f.Holds content) (n : ℕ) : (f.skip n).Holds (content++List.replicate n 0) := by
  obtain ⟨hle,rfl⟩ := h
  exact ⟨hle.trans (Nat.le_add_right _ _),padTo_add hle n⟩

/-- Cut at the position, or filled up to it. -/
theorem Holds.setLen (h : f.Holds content) : (f.setLen content.length).bytes = content := by
  have hpos := h.pos_eq
  have htake : f.bytes.take content.length = f.bytes := List.take_of_length_le (hpos ▸ h.1)
  rw [OpenFile.setLen,htake,← hpos]
  exact h.2

end OpenFile
end Lib
