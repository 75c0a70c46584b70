import Mathlib

/-! Cutting a stretch out of a list and writing one over it, position by position. -/
namespace Lib
variable {α : Type*}

/-- The `len` elements at `off`, fewer where the list ends before. -/
def slice (l : List α) (off len : ℕ) : List α := (l.drop off).take len

/-- The list with `data` written over it at `off`. -/
def splice (l : List α) (off : ℕ) (data : List α) : List α :=
  l.take off++data++l.drop (off+data.length)

theorem length_slice {l : List α} {off len : ℕ} (h : off+len ≤ l.length) :
    (slice l off len).length = len := by
  rw [slice,List.length_take,List.length_drop]
  omega

theorem getElem?_slice (l : List α) (off len i : ℕ) :
    (slice l off len)[i]? = if i < len then l[off+i]? else none := by
  rw [slice,List.getElem?_take]
  split
  · rw [List.getElem?_drop]
  · rfl

theorem slice_zero (l : List α) (off : ℕ) : slice l off 0 = [] := List.take_zero

theorem length_splice {l data : List α} {off : ℕ} (h : off+data.length ≤ l.length) :
    (splice l off data).length = l.length := by
  simp only [splice,List.length_append,List.length_take,List.length_drop]
  omega

theorem splice_nil (l : List α) (off : ℕ) : splice l off [] = l := by
  simp [splice]

theorem length_slice_le (l : List α) (off len : ℕ) : (slice l off len).length ≤ len :=
  List.length_take_le len _

theorem getElem?_splice {l : List α} {off : ℕ} (h : off ≤ l.length) (data : List α) (i : ℕ) :
    (splice l off data)[i]? =
      if i < off then l[i]? else if i < off+data.length then data[i-off]? else l[i]? := by
  have hlen : (l.take off).length = off := List.length_take_of_le h
  rw [splice,List.append_assoc,List.getElem?_append,hlen]
  split
  · next hi => rw [List.getElem?_take,if_pos hi]
  · next hi =>
    rw [List.getElem?_append]
    split
    · next hd => rw [if_pos (by omega)]
    · next hd =>
      rw [if_neg (by omega),List.getElem?_drop]
      congr 1
      omega

/-- The list up to the end of what was written. -/
theorem take_splice {l : List α} {off : ℕ} (h : off ≤ l.length) (data : List α) :
    (splice l off data).take (off+data.length) = l.take off++data := by
  apply List.take_left'
  rw [List.length_append,List.length_take_of_le h]

/-- What is found in a list is found there in a longer one. -/
theorem getElem?_append_of {l : List α} {a : α} {i : ℕ} (h : l[i]? = some a) (m : List α) :
    (l++m)[i]? = some a := by
  rw [List.getElem?_append_left (List.getElem?_eq_some_iff.mp h).1]
  exact h

/-- What is found in a list with one element more. -/
theorem getElem?_snoc {l : List α} {a b : α} {i : ℕ} (h : (l++[a])[i]? = some b) :
    l[i]? = some b ∨ i = l.length ∧ b = a := by
  by_cases hi : i < l.length
  · rw [List.getElem?_append_left hi] at h
    exact .inl h
  · rw [List.getElem?_append_right (Nat.le_of_not_lt hi)] at h
    obtain ⟨hlt,hb⟩ := List.getElem?_eq_some_iff.mp h
    simp only [List.length_singleton] at hlt
    right
    refine ⟨by omega,?_⟩
    simpa using hb.symm

theorem set_of_getElem? {l : List α} {a : α} {i : ℕ} (h : l[i]? = some a) : l.set i a = l := by
  obtain ⟨hi,rfl⟩ := List.getElem?_eq_some_iff.mp h
  exact List.set_getElem_self hi

/-- Taking one element out takes no other. -/
theorem mem_eraseIdx_of_ne {l : List α} {a b : α} {k : ℕ} (ha : a ∈ l) (hk : l[k]? = some b)
    (hne : a ≠ b) : a ∈ l.eraseIdx k := by
  obtain ⟨j,hj⟩ := List.mem_iff_getElem?.mp ha
  refine List.mem_eraseIdx_iff_getElem?.mpr ⟨j,?_,hj⟩
  rintro rfl
  rw [hk] at hj
  exact hne (Option.some.inj hj).symm

/-- What is found in a list with one element replaced. -/
theorem getElem?_set_some {l : List α} {a b : α} {i j : ℕ} (h : (l.set i a)[j]? = some b) :
    j = i ∧ b = a ∨ j ≠ i ∧ l[j]? = some b := by
  by_cases hj : j = i
  · subst hj
    rw [List.getElem?_set_self'] at h
    obtain ⟨-,-,rfl⟩ := Option.map_eq_some_iff.mp h
    exact .inl ⟨rfl,rfl⟩
  · rw [List.getElem?_set_ne (Ne.symm hj)] at h
    exact .inr ⟨hj,h⟩

end Lib
