import Mathlib

/-! Finite maps with one value type, and sums over their values. The order of the entries is
an accident of the insertions; every lemma here is about the map's contents. -/
namespace Lib

abbrev Table (K V : Type*) := AList (fun _ : K => V)

namespace Table
variable {K V : Type*}

def values (m : Table K V) : List V := m.entries.map Sigma.snd

/-- The sum of a measure over all values. -/
def total (f : V → ℕ) (m : Table K V) : ℕ := (m.values.map f).sum

@[simp] theorem total_empty (f : V → ℕ) : total f (∅ : Table K V) = 0 := rfl

variable [DecidableEq K]

/-- The measure of the value at a key, zero where there is none. -/
def weight (f : V → ℕ) (m : Table K V) (k : K) : ℕ := ((m.lookup k).map f).getD 0

@[simp] theorem weight_insert_self (f : V → ℕ) (m : Table K V) (k : K) (v : V) :
    weight f (m.insert k v) k = f v := by simp [weight]

theorem weight_insert_ne (f : V → ℕ) (m : Table K V) {k k' : K} (v : V) (h : k' ≠ k) :
    weight f (m.insert k v) k' = weight f m k' := by
  simp [weight,AList.lookup_insert_ne h]

theorem weight_erase_ne (f : V → ℕ) (m : Table K V) {k k' : K} (h : k' ≠ k) :
    weight f (m.erase k) k' = weight f m k' := by
  simp [weight,AList.lookup_erase_ne h]

theorem mem_values {m : Table K V} {v : V} : v ∈ m.values ↔ ∃ k, m.lookup k = some v := by
  simp only [values,List.mem_map]
  constructor
  · rintro ⟨⟨k,w⟩,hm,rfl⟩
    exact ⟨k,AList.mem_lookup_iff.mpr hm⟩
  · rintro ⟨k,hk⟩
    exact ⟨⟨k,v⟩,AList.mem_lookup_iff.mp hk,rfl⟩

/-- Removing a key removes its value's measure from the sum. -/
theorem total_erase (f : V → ℕ) (m : Table K V) (k : K) :
    total f (m.erase k)+weight f m k = total f m := by
  by_cases hk : k ∈ m
  · obtain ⟨v,l₁,l₂,-,hm,he⟩ := List.exists_of_kerase hk
    have hl : m.lookup k = some v := AList.mem_lookup_iff.mpr (by rw [hm]; simp)
    change ((((m.entries.kerase k).map Sigma.snd).map f).sum)+weight f m k =
      ((m.entries.map Sigma.snd).map f).sum
    rw [he,hm]
    simp only [weight,hl,List.map_append,List.map_cons,List.sum_append,List.sum_cons,
      Option.map_some,Option.getD_some]
    omega
  · have he : (m.erase k).entries = m.entries := List.kerase_of_notMem_keys hk
    simp [total,values,he,weight,AList.lookup_eq_none.mpr hk]

/-- Writing a key replaces its value's measure in the sum. -/
theorem total_insert (f : V → ℕ) (m : Table K V) (k : K) (v : V) :
    total f (m.insert k v)+weight f m k = total f m+f v := by
  have he := total_erase f m k
  have hi : total f (m.insert k v) = f v+total f (m.erase k) := by
    simp [total,values,AList.entries_insert,AList.erase]
  omega

/-- One value's measure is part of the sum. -/
theorem weight_le_total (f : V → ℕ) (m : Table K V) (k : K) : weight f m k ≤ total f m := by
  have := total_erase f m k
  omega

/-- What is found after a write is what was written, or was there before. -/
theorem lookup_insert_cases {m : Table K V} {k k' : K} {v w : V}
    (h : (m.insert k v).lookup k' = some w) : k' = k ∧ w = v ∨ m.lookup k' = some w := by
  by_cases hk : k' = k
  · subst hk
    rw [AList.lookup_insert] at h
    exact .inl ⟨rfl,(Option.some.inj h).symm⟩
  · rw [AList.lookup_insert_ne hk] at h
    exact .inr h

theorem ne_of_lookup_erase {m : Table K V} {k k' : K} {w : V}
    (h : (m.erase k).lookup k' = some w) : k' ≠ k := by
  rintro rfl
  rw [AList.lookup_erase] at h
  cases h

theorem lookup_of_erase {m : Table K V} {k k' : K} {w : V}
    (h : (m.erase k).lookup k' = some w) : m.lookup k' = some w := by
  rwa [AList.lookup_erase_ne (ne_of_lookup_erase h)] at h

/-- A key that is new takes no value away. -/
theorem values_subset_insert {m : Table K V} {k : K} (hk : k ∉ m) (v : V) :
    m.values ⊆ values (m.insert k v) := by
  intro w hw
  obtain ⟨k',hk'⟩ := mem_values.mp hw
  refine mem_values.mpr ⟨k',?_⟩
  have hne : k' ≠ k := by
    rintro rfl
    exact hk (AList.lookup_isSome.mp (by rw [hk']; rfl))
  rw [AList.lookup_insert_ne hne]
  exact hk'

theorem mem_values_insert {m : Table K V} {k : K} {v w : V} (h : w ∈ values (m.insert k v)) :
    w ∈ m.values ∨ w = v := by
  obtain ⟨k',hk'⟩ := mem_values.mp h
  obtain ⟨-,rfl⟩ | hk' := lookup_insert_cases hk'
  · exact .inr rfl
  · exact .inl (mem_values.mpr ⟨k',hk'⟩)

theorem values_erase_subset (m : Table K V) (k : K) : values (m.erase k) ⊆ m.values := by
  intro w hw
  obtain ⟨k',hk'⟩ := mem_values.mp hw
  exact mem_values.mpr ⟨k',lookup_of_erase hk'⟩

theorem values_erase_sublist (m : Table K V) (k : K) : (values (m.erase k)).Sublist m.values := by
  change ((m.entries.kerase k).map Sigma.snd).Sublist (m.entries.map Sigma.snd)
  exact (List.kerase_sublist k m.entries).map Sigma.snd

theorem values_insert (m : Table K V) (k : K) (v : V) :
    values (m.insert k v) = v::values (m.erase k) := by
  simp [values,AList.entries_insert,AList.erase]

theorem values_insert_new {m : Table K V} {k : K} (hk : k ∉ m) (v : V) :
    values (m.insert k v) = v::m.values := by
  have he : (m.erase k).entries = m.entries := List.kerase_of_notMem_keys hk
  rw [values_insert,values,he,values]

theorem insert_erase (m : Table K V) (k : K) (v : V) : (m.erase k).insert k v = m.insert k v := by
  apply AList.ext
  have hk : k ∉ m.erase k := fun h => (AList.mem_erase.mp h).1 rfl
  rw [AList.entries_insert,AList.entries_insert,List.kerase_of_notMem_keys hk]
  rfl

/-- Keep the entries that satisfy `p`. -/
def retain (p : K → V → Bool) (m : Table K V) : Table K V :=
  ⟨m.entries.filter fun e => p e.1 e.2,m.nodupKeys.sublist List.filter_sublist⟩

theorem lookup_retain {p : K → V → Bool} {m : Table K V} {k : K} {v : V} :
    (retain p m).lookup k = some v ↔ m.lookup k = some v ∧ p k v = true := by
  rw [← Option.mem_def,AList.mem_lookup_iff,← Option.mem_def,AList.mem_lookup_iff]
  exact List.mem_filter

/-- Change the value at a key, if there is one. -/
def change (g : V → V) (m : Table K V) (k : K) : Table K V :=
  match m.lookup k with
  | some v => m.insert k (g v)
  | none => m

theorem lookup_change_ne (g : V → V) (m : Table K V) {k k' : K} (h : k' ≠ k) :
    (change g m k).lookup k' = m.lookup k' := by
  unfold change
  split
  · exact AList.lookup_insert_ne h
  · rfl

theorem mem_change {g : V → V} {m : Table K V} {k k' : K} : k' ∈ change g m k ↔ k' ∈ m := by
  unfold change
  split
  · next v hk =>
    rw [AList.mem_insert]
    constructor
    · rintro (rfl | hm)
      · exact AList.lookup_isSome.mp (by rw [hk]; rfl)
      · exact hm
    · exact .inr
  · rfl

theorem mem_of_mem_erase {m : Table K V} {k k' : K} (h : k' ∈ m.erase k) : k' ∈ m :=
  (AList.mem_erase.mp h).2

theorem mem_of_mem_retain {p : K → V → Bool} {m : Table K V} {k : K} (h : k ∈ retain p m) : k ∈ m := by
  obtain ⟨v,hv⟩ := Option.isSome_iff_exists.mp (AList.lookup_isSome.mpr h)
  exact AList.lookup_isSome.mp (Option.isSome_of_eq_some (lookup_retain.mp hv).1)

theorem total_eq_zero {f : V → ℕ} {m : Table K V} (h : ∀ k v, m.lookup k = some v → f v = 0) :
    total f m = 0 := by
  apply List.sum_eq_zero
  intro x hx
  obtain ⟨v,hv,rfl⟩ := List.mem_map.mp hx
  obtain ⟨k,hk⟩ := mem_values.mp hv
  exact h k v hk

theorem eq_empty {m : Table K V} (h : ∀ k, m.lookup k = none) : m = ∅ := by
  apply AList.ext
  apply List.eq_nil_iff_forall_not_mem.mpr
  rintro ⟨k,v⟩ hmem
  have hk := h k
  rw [AList.mem_lookup_iff.mpr hmem] at hk
  cases hk

end Table

/-- Where no other element yields a value that the filter drops, dropping them is leaving out the
one element. -/
theorem filter_filterMap_of_apart {α β : Type*} (f : α → Option β) (p : β → Bool) {l₁ l₂ : List α}
    {a : α} (hself : ∀ b, f a = some b → p b = false)
    (hothers : ∀ x ∈ l₁++l₂, ∀ b, f x = some b → p b = true) :
    ((l₁++a::l₂).filterMap f).filter p = (l₁++l₂).filterMap f := by
  have hkeep : ∀ l : List α, (∀ x ∈ l, ∀ b, f x = some b → p b = true) →
      (l.filterMap f).filter p = l.filterMap f := by
    intro l hl
    apply List.filter_eq_self.mpr
    intro b hb
    obtain ⟨x,hx,hxb⟩ := List.mem_filterMap.mp hb
    exact hl x hx b hxb
  rw [List.filterMap_append,List.filterMap_append,List.filter_append,
    hkeep l₁ fun x hx => hothers x (List.mem_append_left _ hx)]
  congr 1
  cases hfa : f a with
  | none =>
    rw [List.filterMap_cons_none hfa]
    exact hkeep l₂ fun x hx => hothers x (List.mem_append_right _ hx)
  | some b =>
    rw [List.filterMap_cons_some hfa,List.filter_cons_of_neg (by simp [hself b hfa])]
    exact hkeep l₂ fun x hx => hothers x (List.mem_append_right _ hx)

end Lib
