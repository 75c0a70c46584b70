import Mathlib

/-! Maps as lists of keys and values: what is found in one whose keys differ, and the lists that are kept in the
order of their keys. -/
namespace Lib.Entries

section Lookup
variable {α β γ : Type*} [DecidableEq α] {es es' : List (α × β)} {k : α} {v : β}

theorem mem_of_lookup (h : es.lookup k = some v) : (k,v) ∈ es := by
  obtain ⟨before,after,rfl,-⟩ := List.lookup_eq_some_iff.mp h
  simp

theorem lookup_eq_some_iff_mem (hnodup : (es.map Prod.fst).Nodup) : es.lookup k = some v ↔ (k,v) ∈ es := by
  refine ⟨mem_of_lookup,fun h => ?_⟩
  obtain ⟨before,after,rfl⟩ := List.append_of_mem h
  refine List.lookup_eq_some_iff.mpr ⟨before,after,rfl,fun e he => ?_⟩
  rw [List.map_append,List.map_cons,List.nodup_middle,List.nodup_cons] at hnodup
  rw [bne_iff_ne]
  rintro rfl
  exact hnodup.1 (List.mem_append_left _ (List.mem_map.mpr ⟨e,he,rfl⟩))

/-- What is found does not depend on the order. -/
theorem lookup_perm (hnodup : (es.map Prod.fst).Nodup) (h : es.Perm es') (k : α) : es'.lookup k = es.lookup k := by
  apply Option.ext
  intro v
  rw [lookup_eq_some_iff_mem hnodup,lookup_eq_some_iff_mem ((h.map _).nodup_iff.mp hnodup),h.mem_iff]

theorem lookup_map_snd (f : β → γ) (es : List (α × β)) (k : α) :
    (es.map fun e => (e.1,f e.2)).lookup k = (es.lookup k).map f := by
  induction es with
  | nil => rfl
  | cons e es ih =>
    obtain ⟨k',v⟩ := e
    rw [List.map_cons,List.lookup_cons,List.lookup_cons,ih]
    cases k == k' with
    | true => rfl
    | false => rfl

/-- What is found in lists of the same keys and related values. -/
theorem lookup_rel {R : β → γ → Prop} {us : List (α × β)} {vs : List (α × γ)}
    (h : List.Forall₂ (fun e e' => e.1 = e'.1 ∧ R e.2 e'.2) us vs) (k : α) :
    Option.Rel R (us.lookup k) (vs.lookup k) := by
  induction h with
  | nil => exact .none
  | @cons e e' us vs he _ ih =>
    obtain ⟨k₁,v⟩ := e
    obtain ⟨k₂,v'⟩ := e'
    obtain ⟨rfl,hv⟩ := he
    rw [List.lookup_cons,List.lookup_cons]
    cases k == k₁ with
    | true => exact .some hv
    | false => exact ih

end Lookup

theorem map_fst_eq {α β γ : Type*} {us : List (α × β)} {vs : List (α × γ)}
    (h : List.Forall₂ (fun e e' => e.1 = e'.1) us vs) : us.map Prod.fst = vs.map Prod.fst := by
  induction h with
  | nil => rfl
  | cons he _ ih => rw [List.map_cons,List.map_cons,he,ih]

section Ordered
variable {α β : Type*} [LinearOrder α]

/-- The value of a key, at its place in the order. -/
def insert (k : α) (v : β) : List (α × β) → List (α × β)
  | [] => [(k,v)]
  | (k',v')::es => if k < k' then (k,v)::(k',v')::es else if k = k' then (k,v)::es else (k',v')::insert k v es

def Ordered (es : List (α × β)) : Prop := (es.map Prod.fst).Pairwise (· < ·)

variable {k : α} {v : β} {es : List (α × β)}

theorem Ordered.nodup (h : Ordered es) : (es.map Prod.fst).Nodup := h.imp fun hlt => ne_of_lt hlt

/-- A new key is added. -/
theorem insert_perm (v : β) (h : k ∉ es.map Prod.fst) : (insert k v es).Perm ((k,v)::es) := by
  induction es with
  | nil => exact List.Perm.refl _
  | cons e es ih =>
    obtain ⟨k',v'⟩ := e
    rw [List.map_cons,List.mem_cons,not_or] at h
    rw [insert,if_neg h.1]
    split
    · exact List.Perm.refl _
    · exact ((ih h.2).cons _).trans (List.Perm.swap _ _ _)

theorem mem_insert {k' : α} (h : k' ∈ (insert k v es).map Prod.fst) : k' = k ∨ k' ∈ es.map Prod.fst := by
  induction es with
  | nil => exact .inl (List.mem_singleton.mp h)
  | cons e es ih =>
    obtain ⟨k₁,v₁⟩ := e
    rw [insert] at h
    split_ifs at h with hlt heq
    · exact List.mem_cons.mp h
    · exact (List.mem_cons.mp h).imp_right (List.mem_cons_of_mem _)
    · obtain rfl | h := List.mem_cons.mp h
      · exact .inr List.mem_cons_self
      · exact (ih h).imp_right (List.mem_cons_of_mem _)

theorem Ordered.insert (k : α) (v : β) (ho : Ordered es) : Ordered (Entries.insert k v es) := by
  induction es with
  | nil => exact List.pairwise_singleton _ _
  | cons e es ih =>
    obtain ⟨k',v'⟩ := e
    unfold Ordered at ho ih ⊢
    rw [List.map_cons,List.pairwise_cons] at ho
    rw [Entries.insert]
    split_ifs with hlt heq
    · rw [List.map_cons,List.map_cons,List.pairwise_cons,List.pairwise_cons]
      refine ⟨fun k'' hk'' => ?_,ho⟩
      obtain rfl | hk'' := List.mem_cons.mp hk''
      · exact hlt
      · exact hlt.trans (ho.1 k'' hk'')
    · rw [List.map_cons,List.pairwise_cons]
      exact ⟨heq ▸ ho.1,ho.2⟩
    · have hgt : k' < k := lt_of_le_of_ne (not_lt.mp hlt) (Ne.symm heq)
      rw [List.map_cons,List.pairwise_cons]
      refine ⟨fun k'' hk'' => ?_,ih ho.2⟩
      obtain rfl | hmem := mem_insert hk''
      · exact hgt
      · exact ho.1 k'' hmem

theorem Ordered.foldl {fields : List (α × β)} (ho : Ordered es) :
    Ordered (fields.foldl (fun o e => Entries.insert e.1 e.2 o) es) := by
  induction fields generalizing es with
  | nil => exact ho
  | cons e fields ih => exact ih (ho.insert e.1 e.2)

/-- Lists in order with the same entries are the same. -/
theorem Ordered.eq_of_perm {es' : List (α × β)} (h : Ordered es) (h' : Ordered es') (hp : es.Perm es') :
    es = es' := by
  refine hp.eq_of_pairwise ?_ (List.pairwise_map.mp h) (List.pairwise_map.mp h')
  intro a b _ _ hab hba
  exact absurd (hab.trans hba) (lt_irrefl _)

/-- What is found is what was inserted last. -/
theorem Ordered.lookup_insert (ho : Ordered es) (k k' : α) (v : β) :
    (Entries.insert k v es).lookup k' = if k' = k then some v else es.lookup k' := by
  have hcons : ∀ (k₁ : α) (v₁ : β) (es₁ : List (α × β)),
      List.lookup k' ((k₁,v₁)::es₁) = if k' = k₁ then some v₁ else es₁.lookup k' := by
    intro k₁ v₁ es₁
    rw [List.lookup_cons]
    by_cases hk : k' = k₁
    · rw [if_pos hk,beq_iff_eq.mpr hk]
    · rw [if_neg hk,beq_eq_false_iff_ne.mpr hk]
  induction es with
  | nil => exact hcons k v []
  | cons e es ih =>
    obtain ⟨k₁,v₁⟩ := e
    have htail := (List.pairwise_cons.mp ho).2
    rw [Entries.insert]
    split
    · rw [hcons]
    · split
      · next heq =>
        subst heq
        rw [hcons,hcons]
        by_cases hk : k' = k
        · rw [if_pos hk,if_pos hk]
        · rw [if_neg hk,if_neg hk,if_neg hk]
      · next heq =>
        rw [hcons,hcons,ih htail]
        by_cases hk : k' = k
        · rw [if_pos hk,if_neg (hk ▸ heq),if_pos hk]
        · rw [if_neg hk,if_neg hk]

/-- Lists in order in which the same is found are the same. -/
theorem Ordered.eq_of_lookup {es' : List (α × β)} (h : Ordered es) (h' : Ordered es')
    (hl : ∀ k, es.lookup k = es'.lookup k) : es = es' := by
  have hmem : ∀ e, e ∈ es ↔ e ∈ es' := by
    rintro ⟨k,v⟩
    rw [← lookup_eq_some_iff_mem h.nodup,← lookup_eq_some_iff_mem h'.nodup,hl]
  refine h.eq_of_perm h' ((List.perm_ext_iff_of_nodup ?_ ?_).mpr hmem)
  · exact h.nodup.of_map _
  · exact h'.nodup.of_map _

/-- All entries of a list, whatever their order, end up in the one order. -/
theorem Ordered.foldl_insert {obj fields : List (α × β)} (ho : Ordered obj)
    (hnodup : ((fields++obj).map Prod.fst).Nodup) :
    Ordered (fields.foldl (fun o e => Entries.insert e.1 e.2 o) obj) ∧
      (fields.foldl (fun o e => Entries.insert e.1 e.2 o) obj).Perm (fields++obj) := by
  induction fields generalizing obj with
  | nil => exact ⟨ho,List.Perm.refl _⟩
  | cons e fields ih =>
    rw [List.cons_append,List.map_cons,List.nodup_cons,List.map_append,List.mem_append,not_or] at hnodup
    have hp := insert_perm e.2 hnodup.1.2
    have hnext : (fields++Entries.insert e.1 e.2 obj).Perm (e::(fields++obj)) :=
      (hp.append_left fields).trans List.perm_middle
    obtain ⟨hordered,hperm⟩ := ih (ho.insert e.1 e.2) (by
      rw [(hnext.map Prod.fst).nodup_iff,List.map_cons,List.nodup_cons,List.map_append,List.mem_append,not_or]
      exact hnodup)
    exact ⟨hordered,hperm.trans hnext⟩

end Ordered

end Lib.Entries
