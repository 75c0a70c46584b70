import Mathlib

/-! Sorting by a rank and then by the place in the list: what comes out is one bucket for each rank, in the order of
the list. -/
namespace Lib.Buckets
variable {α : Type*}

/-- An element with its rank and its place. -/
structure Placed (α : Type*) where
  rank : ℕ
  place : ℕ
  value : α

/-- Before another one in rank, or in place where the ranks are the same. -/
def Placed.before (a b : Placed α) : Bool := if a.rank ≠ b.rank then a.rank < b.rank else a.place < b.place

/-- A comparison for sorting that is total. -/
def Placed.le (a b : Placed α) : Bool := !b.before a

def placed (rank : α → ℕ) (l : List α) : List (Placed α) := l.zipIdx.map fun e => ⟨rank e.1,e.2,e.1⟩

/-- The elements of each of the ranks, one rank after the other. -/
def buckets (rank : α → ℕ) (ranks : List ℕ) (l : List α) : List α :=
  ranks.flatMap fun k => l.filter fun a => rank a = k

theorem before_iff (a b : Placed α) : a.before b ↔ a.rank < b.rank ∨ a.rank = b.rank ∧ a.place < b.place := by
  unfold Placed.before
  split_ifs with h
  · rw [decide_eq_true_eq]
    omega
  · rw [decide_eq_true_eq]
    omega

theorem le_iff (a b : Placed α) : a.le b ↔ a.rank < b.rank ∨ a.rank = b.rank ∧ a.place ≤ b.place := by
  have h := before_iff b a
  unfold Placed.le
  rw [Bool.not_eq_true',← Bool.not_eq_true,h]
  omega

theorem le_trans (a b c : Placed α) (hab : a.le b) (hbc : b.le c) : a.le c := by
  rw [le_iff] at hab hbc ⊢
  omega

theorem le_total (a b : Placed α) : a.le b || b.le a := by
  rw [Bool.or_eq_true,le_iff,le_iff]
  omega

theorem map_value_placed (rank : α → ℕ) (l : List α) : (placed rank l).map Placed.value = l := by
  rw [placed,List.map_map]
  exact List.zipIdx_map_fst 0 l

/-- Places grow along the list. -/
theorem pairwise_place (rank : α → ℕ) (l : List α) : (placed rank l).Pairwise fun a b => a.place < b.place := by
  have h : ((placed rank l).map Placed.place).Pairwise (· < ·) := by
    have hplaces : (placed rank l).map Placed.place = List.range' 0 l.length := by
      rw [placed,List.map_map]
      exact List.zipIdx_map_snd 0 l
    rw [hplaces]
    exact List.pairwise_lt_range'
  exact List.pairwise_map.mp h

theorem rank_of_mem_placed {rank : α → ℕ} {l : List α} {a : Placed α} (h : a ∈ placed rank l) :
    a.rank = rank a.value ∧ a.value ∈ l := by
  obtain ⟨⟨x,i⟩,hx,rfl⟩ := List.mem_map.mp h
  exact ⟨rfl,List.fst_mem_of_mem_zipIdx hx⟩

/-- The buckets hold the elements of the list. -/
theorem buckets_perm {rank : α → ℕ} {ranks : List ℕ} {l : List α} (hnodup : ranks.Nodup)
    (h : ∀ a ∈ l, rank a ∈ ranks) : (buckets rank ranks l).Perm l := by
  induction ranks generalizing l with
  | nil =>
    cases l with
    | nil => exact .nil
    | cons a l => exact absurd (h a List.mem_cons_self) List.not_mem_nil
  | cons k ranks ih =>
    obtain ⟨hk,hranks⟩ := List.nodup_cons.mp hnodup
    have hrest := ih (l := l.filter fun a => !decide (rank a = k)) hranks fun a ha => by
      obtain ⟨ha,hne⟩ := List.mem_filter.mp ha
      exact (List.mem_cons.mp (h a ha)).resolve_left (by simpa using hne)
    -- the other buckets are those of the elements that are not in the first one
    have hsame : buckets rank ranks (l.filter fun a => !decide (rank a = k)) = buckets rank ranks l := by
      refine List.flatMap_congr fun k' hk' => ?_
      rw [List.filter_filter]
      refine List.filter_congr fun a _ => ?_
      by_cases ha : rank a = k'
      · have hne : rank a ≠ k := by
          rintro rfl
          exact hk (ha ▸ hk')
        simp [ha,ha ▸ hne]
      · simp [ha]
    rw [hsame] at hrest
    exact (hrest.append_left _).trans (List.filter_append_perm _ l)

theorem buckets_pairwise {rank : Placed α → ℕ} {ranks : List ℕ} {l : List (Placed α)}
    (hranks : ranks.Pairwise (· < ·)) (hrank : ∀ a ∈ l, a.rank = rank a)
    (hl : l.Pairwise fun a b => a.place < b.place) : (buckets rank ranks l).Pairwise fun a b => a.le b := by
  refine List.pairwise_flatMap.mpr ⟨fun k _ => ?_,hranks.imp fun hlt a ha b hb => ?_⟩
  · refine (hl.filter _).imp_of_mem fun ha hb hlt => ?_
    obtain ⟨ha,hka⟩ := List.mem_filter.mp ha
    obtain ⟨hb,hkb⟩ := List.mem_filter.mp hb
    rw [decide_eq_true_eq] at hka hkb
    rw [le_iff,hrank _ ha,hrank _ hb]
    omega
  · obtain ⟨ha,hka⟩ := List.mem_filter.mp ha
    obtain ⟨hb,hkb⟩ := List.mem_filter.mp hb
    rw [decide_eq_true_eq] at hka hkb
    rw [le_iff,hrank _ ha,hrank _ hb]
    omega

/-- What is sorted by rank and place is one bucket after the other. -/
theorem map_value_mergeSort {rank : α → ℕ} {ranks : List ℕ} {l : List α} (hranks : ranks.Pairwise (· < ·))
    (h : ∀ a ∈ l, rank a ∈ ranks) :
    ((placed rank l).mergeSort Placed.le).map Placed.value = buckets rank ranks l := by
  have hplaced : ∀ a ∈ placed rank l, a.rank = rank a.value := fun a ha => (rank_of_mem_placed ha).1
  have hplaces : ((placed rank l).map Placed.place).Nodup :=
    List.pairwise_map.mpr ((pairwise_place rank l).imp ne_of_lt)
  have hsorted : (placed rank l).mergeSort Placed.le = buckets (fun a => rank a.value) ranks (placed rank l) := by
    have hperm : (buckets (fun a => rank a.value) ranks (placed rank l)).Perm (placed rank l) :=
      buckets_perm (hranks.imp ne_of_lt) fun a ha => h _ (rank_of_mem_placed ha).2
    refine List.Perm.eq_of_pairwise ?_ (List.pairwise_mergeSort le_trans le_total _)
      (buckets_pairwise hranks hplaced (pairwise_place rank l)) ((List.mergeSort_perm _ _).trans hperm.symm)
    intro a b ha hb hab hba
    rw [le_iff] at hab hba
    exact List.inj_on_of_nodup_map hplaces ((List.mergeSort_perm _ _).mem_iff.mp ha) (hperm.mem_iff.mp hb) (by omega)
  rw [hsorted,buckets,List.map_flatMap]
  refine List.flatMap_congr fun k _ => ?_
  rw [← map_value_placed rank l,List.filter_map,map_value_placed]
  rfl

end Lib.Buckets
