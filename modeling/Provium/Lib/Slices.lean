import Mathlib

/-! Texts of bytes that are cut at byte offsets. They are cut only where a character begins. -/
namespace Lib

abbrev ByteText := List UInt8

namespace ByteText

/-- A byte within a character. -/
def continues (b : UInt8) : Bool := 128 ≤ b && b < 192

def isCharBoundary (s : ByteText) (i : ℕ) : Bool :=
  match s[i]? with
  | some b => i = 0 || !continues b
  | none => i = s.length

/-- The text between two offsets, if there is one. -/
def slice (s : ByteText) (i j : ℕ) : Option ByteText :=
  if i ≤ j ∧ isCharBoundary s i ∧ isCharBoundary s j then some ((s.take j).drop i) else none

def sliceFrom (s : ByteText) (i : ℕ) : Option ByteText := slice s i s.length

def sliceTo (s : ByteText) (j : ℕ) : Option ByteText := slice s 0 j

/-- The first place of a text in another. -/
def find (needle : ByteText) : ByteText → Option ℕ
  | [] => if needle = [] then some 0 else none
  | c::s => if needle.isPrefixOf (c::s) then some 0 else (find needle s).map (·+1)

/-- Behind an ASCII character no character goes on. -/
def Whole (s : ByteText) : Prop := ∀ a q b, s = a++q::b → q < 128 → ∀ c ∈ b.head?, continues c = false

variable {s a b c needle : ByteText} {q : UInt8}

theorem Whole.inner (h : Whole (a++(b++c))) : Whole b := by
  rintro u q v rfl hq d hd
  refine h (a++u) q (v++c) (by simp) hq d ?_
  cases v with
  | nil => cases hd
  | cons e v => exact hd

theorem Whole.suffix (h : Whole (a++b)) : Whole b := by
  rw [← List.append_nil b] at h
  exact h.inner

theorem boundary_zero : isCharBoundary s 0 := by
  cases s <;> simp [isCharBoundary]

theorem boundary_length : isCharBoundary s s.length := by
  simp [isCharBoundary]

/-- A character begins where there is an ASCII one. -/
theorem boundary_ascii (hq : q < 128) : isCharBoundary (a++q::b) a.length := by
  have hcontinues : continues q = false := by
    simp only [continues,Bool.and_eq_false_iff,decide_eq_false_iff_not]
    exact .inl (UInt8.not_le.mpr hq)
  simp [isCharBoundary,hcontinues]

theorem boundary_behind (h : Whole (a++q::b)) (hq : q < 128) : isCharBoundary (a++q::b) (a.length+1) := by
  cases b with
  | nil => simp [isCharBoundary]
  | cons c b => simp [isCharBoundary,h a q (c::b) rfl hq c rfl]

theorem slice_append (hfrom : isCharBoundary (a++(b++c)) a.length)
    (hto : isCharBoundary (a++(b++c)) (a.length+b.length)) :
    slice (a++(b++c)) a.length (a.length+b.length) = some b := by
  rw [slice,if_pos ⟨Nat.le_add_right _ _,hfrom,hto⟩,← List.append_assoc,← List.length_append,List.take_left,
    List.drop_left]

theorem sliceFrom_append (hfrom : isCharBoundary (a++b) a.length) : sliceFrom (a++b) a.length = some b := by
  have h := @slice_append a b [] (by rwa [List.append_nil])
    (by rw [List.append_nil,← List.length_append]; exact boundary_length)
  rw [List.append_nil,← List.length_append] at h
  exact h

theorem sliceTo_append (hto : isCharBoundary (a++b) a.length) : sliceTo (a++b) a.length = some a := by
  have h := @slice_append [] a b boundary_zero (by simpa using hto)
  rw [List.length_nil,Nat.zero_add] at h
  exact h

/-- What follows ASCII characters can be cut off. -/
theorem sliceFrom_behind (hneedle : ∀ b ∈ needle, b < 128) (hne : needle ≠ []) (h : Whole (a++(needle++b))) :
    sliceFrom (a++(needle++b)) (a.length+needle.length) = some b := by
  obtain ⟨front,q,rfl⟩ := List.eq_nil_or_concat' needle |>.resolve_left hne
  have heq : a++(front++[q]++b) = (a++front)++q::b := by simp
  rw [heq] at h ⊢
  have hlast := boundary_behind h (hneedle q (by simp))
  have hcut := @sliceFrom_append (a++front++[q]) b (by simpa [Nat.add_assoc] using hlast)
  simpa using hcut

/-- What stands behind an ASCII character and in front of another. -/
theorem slice_between {p : UInt8} {n : ℕ} (h : Whole (a++p::b)) (hp : p < 128) (hq : q < 128)
    (hn : a.length+1 ≤ n) (hget : (a++p::b)[n]? = some q) :
    ∃ t, slice (a++p::b) (a.length+1) n = some t ∧ Whole t ∧ isCharBoundary (a++p::b) n := by
  obtain ⟨n,rfl⟩ := Nat.exists_eq_add_of_le hn
  rw [List.getElem?_append_right (by omega),show a.length+1+n-a.length = n+1 by omega,List.getElem?_cons_succ] at hget
  obtain ⟨hlt,hget⟩ := List.getElem?_eq_some_iff.mp hget
  obtain ⟨t,rest,rfl,rfl⟩ : ∃ t rest, b = t++q::rest ∧ t.length = n := by
    refine ⟨b.take n,b.drop (n+1),?_,List.length_take_of_le hlt.le⟩
    rw [← hget,List.getElem_cons_drop,List.take_append_drop]
  have hbehind := boundary_behind h hp
  have hends := @boundary_ascii (a++p::t) rest q hq
  have hlen : (a++p::t).length = (a++[p]).length+t.length := by simp [Nat.add_assoc,Nat.add_comm 1]
  have hfront : (a++[p]).length = a.length+1 := by rw [List.length_append,List.length_singleton]
  have hleft : a++p::(t++q::rest) = (a++p::t)++q::rest := by simp
  have hright : a++p::(t++q::rest) = (a++[p])++(t++q::rest) := by simp
  rw [← hleft,hlen,hfront] at hends
  rw [hright] at h hbehind hends ⊢
  rw [← hfront] at hbehind hends ⊢
  exact ⟨t,slice_append hbehind hends,h.inner,hends⟩

theorem find_spec {n : ℕ} (h : find needle s = some n) : (∃ v, s = s.take n++(needle++v)) ∧ n ≤ s.length ∧
    ∀ u v, s = u++(needle++v) → n ≤ u.length := by
  induction s generalizing n with
  | nil =>
    rw [find] at h
    split_ifs at h with hnil
    obtain rfl := Option.some.inj h
    exact ⟨⟨[],by simp [hnil]⟩,le_rfl,fun u v _ => Nat.zero_le _⟩
  | cons c s ih =>
    rw [find] at h
    split_ifs at h with hhere
    · obtain rfl := Option.some.inj h
      obtain ⟨v,hv⟩ := List.isPrefixOf_iff_prefix.mp hhere
      exact ⟨⟨v,hv.symm⟩,Nat.zero_le _,fun u v _ => Nat.zero_le _⟩
    · obtain ⟨m,hm,rfl⟩ := Option.map_eq_some_iff.mp h
      obtain ⟨⟨v,hv⟩,hle,hfirst⟩ := ih hm
      refine ⟨⟨v,congrArg (c::·) hv⟩,Nat.succ_le_succ hle,?_⟩
      intro u w heq
      cases u with
      | nil =>
        refine absurd ?_ hhere
        rw [List.isPrefixOf_iff_prefix,heq]
        exact List.prefix_append _ _
      | cons d u => exact Nat.succ_le_succ (hfirst u w (List.cons.inj heq).2)

/-- A single byte is found where it first occurs. -/
theorem find_byte {n : ℕ} (h : find [q] s = some n) : ∃ v, s = s.take n++q::v ∧ q ∉ s.take n ∧ n ≤ s.length := by
  obtain ⟨⟨v,hv⟩,hle,hfirst⟩ := find_spec h
  refine ⟨v,hv,?_,hle⟩
  intro hmem
  obtain ⟨u,w,huw⟩ := List.append_of_mem hmem
  have hlt := congrArg List.length huw
  have hn := hfirst u (w++q::v) (by
    rw [hv,huw]
    simp)
  rw [List.length_take_of_le hle,List.length_append,List.length_cons] at hlt
  omega

/-! ## Strings -/

section Utf8
variable {t : String}

theorem isValid_of_ascii (hq : q < 128) (h : t.toByteArray.data.toList = a++q::b) :
    String.Pos.Raw.IsValid t ⟨a.length⟩ := by
  have hsize : t.toByteArray.size = a.length+(b.length+1) := by
    have := congrArg List.length h
    simpa using this
  have hlt : (⟨a.length⟩ : String.Pos.Raw) < t.rawEndPos := by
    simp only [String.Pos.Raw.lt_iff,String.byteIdx_rawEndPos,← String.size_toByteArray,hsize]
    omega
  refine String.Pos.Raw.isValid_iff_isUTF8FirstByte.mpr (.inr ⟨hlt,?_⟩)
  have hget : t.getUTF8Byte ⟨a.length⟩ hlt = q := by
    have hat : t.toByteArray.data.toList[a.length]? = some q := by
      rw [h,List.getElem?_append_right le_rfl,Nat.sub_self]
      rfl
    obtain ⟨hlt',hat⟩ := List.getElem?_eq_some_iff.mp hat
    exact hat
  have hfirst : ∀ n < 128, (UInt8.ofNat n).IsUTF8FirstByte := by decide +kernel
  rw [hget,← UInt8.ofNat_toNat (x := q)]
  exact hfirst _ (UInt8.lt_iff_toNat_lt.mp hq)

/-- A byte of ASCII is a character of its own. -/
theorem isValid_behind_ascii (hq : q < 128) (h : t.toByteArray.data.toList = a++q::b) :
    String.Pos.Raw.IsValid t ⟨a.length+1⟩ := by
  have hsize : t.toByteArray.size = a.length+(b.length+1) := by
    have := congrArg List.length h
    simpa using this
  have hmark : (t.toByteArray.extract a.length (a.length+1)).IsValidUTF8 := by
    have hextract : t.toByteArray.extract a.length (a.length+1) = ⟨#[q]⟩ := by
      apply ByteArray.ext
      apply Array.toList_inj.mp
      simp [h]
    have hencode : ∀ n < 128, [Char.ofNat n].utf8Encode = ⟨#[UInt8.ofNat n]⟩ := by decide +kernel
    have hchar := hencode _ (UInt8.lt_iff_toNat_lt.mp hq)
    rw [UInt8.ofNat_toNat] at hchar
    exact ⟨_,hextract.trans hchar.symm⟩
  refine ((String.Pos.Raw.isValidUTF8_extract_iff ⟨a.length⟩ ⟨a.length+1⟩ ?_ ?_).mp hmark).resolve_left ?_ |>.2
  · simp [String.Pos.Raw.le_iff]
  · simp only [String.Pos.Raw.le_iff,String.byteIdx_rawEndPos,← String.size_toByteArray,hsize]
    omega
  · simp [String.Pos.Raw.ext_iff]

theorem whole_utf8 (t : String) : Whole t.toByteArray.data.toList := by
  intro a q b h hq c hc
  obtain ⟨b,rfl⟩ : ∃ b', b = c::b' := by
    cases b with
    | nil => cases hc
    | cons d b =>
      cases hc
      exact ⟨b,rfl⟩
  obtain hend | ⟨hlt,hfirst⟩ := String.Pos.Raw.isValid_iff_isUTF8FirstByte.mp (isValid_behind_ascii hq h)
  · have hsize := congrArg List.length h
    have heq := congrArg String.Pos.Raw.byteIdx hend
    simp only [String.byteIdx_rawEndPos,← String.size_toByteArray] at heq
    rw [Array.length_toList,ByteArray.size_data,List.length_append,List.length_cons,List.length_cons] at hsize
    omega
  · have hget : t.getUTF8Byte ⟨a.length+1⟩ hlt = c := by
      have hat : t.toByteArray.data.toList[a.length+1]? = some c := by
        rw [h]
        simp
      obtain ⟨hlt',hat⟩ := List.getElem?_eq_some_iff.mp hat
      exact hat
    have hfirsts : ∀ n < 256, (UInt8.ofNat n).IsUTF8FirstByte → continues (UInt8.ofNat n) = false := by decide +kernel
    have hno := hfirsts c.toNat c.toNat_lt
    rw [UInt8.ofNat_toNat,← hget] at hno
    rw [← hget]
    exact hno hfirst

end Utf8

end ByteText
end Lib
