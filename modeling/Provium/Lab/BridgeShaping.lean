import Provium.Lab.BridgeHost

/-! The chain of qdiscs that a VM's directional impairments ask for: what they are at their worst, and what
a detach of another VM takes from them. -/
namespace Provium.Lab
open Lib

/-- A VM's largest recorded value on an axis. -/
def worst (map : DirectionalMap) (vm : String) (axis : DirectionalImpairment → ℕ) : ℕ :=
  ((map.entries.filter fun e => e.1.1 = vm).map fun e => axis e.2).foldr max 0

/-- The largest latency, loss and rate. -/
def axes (map : DirectionalMap) (vm : String) : ℕ × ℕ × ℕ :=
  (worst map vm DirectionalImpairment.latencyMs,worst map vm DirectionalImpairment.dropRatePct,
    worst map vm DirectionalImpairment.bandwidthBps)

/-- Nothing where all are zero, a netem where there is no rate, and else a class at the rate, with a netem
under it where there is something left for one. -/
def chainFor (t : ℕ × ℕ × ℕ) : Option Shaping :=
  if t = (0,0,0) then none
  else if t.2.2 = 0 then some (.qdisc (.netem t.1 t.2.1))
  else some (.htb (some ⟨t.2.2,t.2.2,max (t.2.2/800) 1500,
    if t.1 = 0 ∧ t.2.1 = 0 then none else some (t.1,t.2.1)⟩))

theorem chainFor_netem {lat drop : ℕ} (h : ¬(lat = 0 ∧ drop = 0)) :
    chainFor (lat,drop,0) = some (.qdisc (.netem lat drop)) := by
  simp_all [chainFor]

theorem chainFor_htb {lat drop bps : ℕ} (h : 0 < bps) :
    chainFor (lat,drop,bps) = some (.htb (some ⟨bps,bps,max (bps/800) 1500,
      if lat = 0 ∧ drop = 0 then none else some (lat,drop)⟩)) := by
  have hbps : bps ≠ 0 := by omega
  simp [chainFor,hbps]

theorem chainFor_injective : Function.Injective chainFor := by
  rintro ⟨lat,drop,bps⟩ ⟨lat',drop',bps'⟩ h
  unfold chainFor at h
  split_ifs at h <;> simp_all

theorem foldr_max_le {l : List ℕ} {n : ℕ} : l.foldr max 0 ≤ n ↔ ∀ x ∈ l, x ≤ n := by
  induction l with
  | nil => simp
  | cons x l ih => simp [ih]

theorem worst_le_iff {map : DirectionalMap} {vm : String} {axis : DirectionalImpairment → ℕ} {n : ℕ} :
    worst map vm axis ≤ n ↔ ∀ other d, map.lookup (vm,other) = some d → axis d ≤ n := by
  unfold worst
  rw [foldr_max_le,List.forall_mem_map]
  constructor
  · intro h other d hd
    exact h ⟨(vm,other),d⟩ (List.mem_filter.mpr ⟨AList.mem_lookup_iff.mp hd,by simp⟩)
  · rintro h ⟨⟨source,other⟩,d⟩ he
    obtain ⟨hmem,hvm⟩ := List.mem_filter.mp he
    obtain rfl : source = vm := by simpa using hvm
    exact h other d (AList.mem_lookup_iff.mpr hmem)

theorem le_worst {map : DirectionalMap} {vm other : String} {d : DirectionalImpairment}
    (axis : DirectionalImpairment → ℕ) (h : map.lookup (vm,other) = some d) : axis d ≤ worst map vm axis :=
  worst_le_iff.mp le_rfl other d h

/-- Where anything is recorded on an axis, some entry is the worst. -/
theorem exists_worst {map : DirectionalMap} {vm : String} {axis : DirectionalImpairment → ℕ}
    (h : worst map vm axis ≠ 0) : ∃ other d, map.lookup (vm,other) = some d ∧ axis d = worst map vm axis := by
  by_contra hnone
  push Not at hnone
  have hle : worst map vm axis ≤ worst map vm axis-1 := by
    rw [worst_le_iff]
    intro other d hd
    have hlt := lt_of_le_of_ne (le_worst axis hd) (hnone other d hd)
    omega
  omega

/-! ## The loop -/

theorem collapseLoop_eq (vm : String) (es : List (Σ _ : String × String, DirectionalImpairment))
    (acc : Option (ℕ × ℕ × ℕ)) :
    (collapseLoop vm acc es).getD (0,0,0) =
      (max (acc.getD (0,0,0)).1 (((es.filter fun e => e.1.1 = vm).map fun e => e.2.latencyMs).foldr max 0),
        max (acc.getD (0,0,0)).2.1 (((es.filter fun e => e.1.1 = vm).map fun e => e.2.dropRatePct).foldr max 0),
        max (acc.getD (0,0,0)).2.2
          (((es.filter fun e => e.1.1 = vm).map fun e => e.2.bandwidthBps).foldr max 0)) := by
  induction es generalizing acc with
  | nil => simp [collapseLoop]
  | cons e es ih =>
    unfold collapseLoop
    by_cases he : e.1.1 = vm
    · rw [if_neg (not_not.mpr he),ih]
      simp [he,max_assoc]
    · rw [if_pos he,ih]
      simp [he]

/-- What the code collapses to is the worst of each axis, unless that is nothing. -/
theorem collapsedDirectionalFor_eq (b : BridgeInner) (vm : String) :
    b.collapsedDirectionalFor vm =
      if axes b.directional vm = (0,0,0) then none else some (axes b.directional vm) := by
  have hloop := collapseLoop_eq vm b.directional.entries none
  have haxes : (collapseLoop vm none b.directional.entries).getD (0,0,0) = axes b.directional vm := by
    rw [hloop]
    simp [axes,worst]
  unfold BridgeInner.collapsedDirectionalFor
  rw [← haxes]
  cases collapseLoop vm none b.directional.entries with
  | none => rfl
  | some t =>
    obtain ⟨lat,drop,bps⟩ := t
    simp only [Option.getD_some,Prod.mk.injEq]
    split
    · next h => simp [Option.filter,h]
    · next h =>
      rw [Option.filter,if_pos]
      simp
      omega

theorem collapsed_getD (b : BridgeInner) (vm : String) :
    (b.collapsedDirectionalFor vm).getD (0,0,0) = axes b.directional vm := by
  rw [collapsedDirectionalFor_eq]
  split
  · next h => exact h.symm
  · rfl

theorem collapsed_proper {b : BridgeInner} {vm : String} {t : ℕ × ℕ × ℕ}
    (h : b.collapsedDirectionalFor vm = some t) : t ≠ (0,0,0) := by
  rw [collapsedDirectionalFor_eq] at h
  split at h
  · cases h
  · next hne =>
    rw [← Option.some.inj h]
    exact hne

/-! ## A detach -/

/-- Without what is recorded from `v` towards `w`, `v` is on every axis as it was: another of its entries is
no smaller. -/
def Spared (map : DirectionalMap) (v w : String) : Prop :=
  ∀ d, map.lookup (v,w) = some d →
    ∀ axis ∈ [DirectionalImpairment.latencyMs,DirectionalImpairment.dropRatePct,
      DirectionalImpairment.bandwidthBps],
      axis d = 0 ∨ ∃ other d', other ≠ w ∧ map.lookup (v,other) = some d' ∧ axis d ≤ axis d'

theorem lookup_foldl_erase (vm : String) (keys : List (String × String)) (map : DirectionalMap)
    (k : String × String) :
    AList.lookup k (keys.foldl (fun map k => if k.1 ≠ vm ∧ k.2 ≠ vm then map else map.erase k) map) =
      if k ∈ keys ∧ ¬(k.1 ≠ vm ∧ k.2 ≠ vm) then none else map.lookup k := by
  induction keys generalizing map with
  | nil => simp
  | cons k' keys ih =>
    rw [List.foldl_cons,ih]
    by_cases hk : k = k'
    · subst hk
      by_cases hgone : k.1 ≠ vm ∧ k.2 ≠ vm
      · simp [hgone]
      · rw [if_neg hgone,AList.lookup_erase]
        simp [hgone]
    · have hmem : k ∈ k'::keys ↔ k ∈ keys := by simp [hk]
      simp only [hmem]
      by_cases hgone : k'.1 ≠ vm ∧ k'.2 ≠ vm
      · rw [if_pos hgone]
      · rw [if_neg hgone,AList.lookup_erase_ne hk]

theorem lookup_detach (b : BridgeInner) (vm : String) (k : String × String) :
    (b.detach vm).directional.lookup k =
      if k.1 = vm ∨ k.2 = vm then none else b.directional.lookup k := by
  refine (lookup_foldl_erase vm b.directional.keys b.directional k).trans ?_
  by_cases hgone : k.1 = vm ∨ k.2 = vm
  · rw [if_pos hgone]
    by_cases hk : k ∈ b.directional.keys
    · rw [if_pos ⟨hk,by tauto⟩]
    · rw [if_neg (by tauto)]
      exact AList.lookup_eq_none.mpr hk
  · rw [if_neg hgone,if_neg (by tauto)]

theorem worst_detach_iff {b : BridgeInner} {v w : String} (hne : v ≠ w)
    (axis : DirectionalImpairment → ℕ) :
    worst (b.detach w).directional v axis = worst b.directional v axis ↔
      ∀ d, b.directional.lookup (v,w) = some d →
        axis d = 0 ∨ ∃ other d', other ≠ w ∧ b.directional.lookup (v,other) = some d' ∧ axis d ≤ axis d' := by
  have hkept : ∀ other, other ≠ w →
      (b.detach w).directional.lookup (v,other) = b.directional.lookup (v,other) := fun other ho => by
    rw [lookup_detach,if_neg (by tauto)]
  have hgone : (b.detach w).directional.lookup (v,w) = none := by
    rw [lookup_detach,if_pos (.inr rfl)]
  have hle : worst (b.detach w).directional v axis ≤ worst b.directional v axis := by
    rw [worst_le_iff]
    intro other d hd
    by_cases ho : other = w
    · rw [ho,hgone] at hd
      cases hd
    · rw [hkept other ho] at hd
      exact le_worst axis hd
  constructor
  · intro heq d hd
    by_cases hz : axis d = 0
    · exact .inl hz
    · have hlarge := le_worst axis hd
      rw [← heq] at hlarge
      have hworst : worst (b.detach w).directional v axis ≠ 0 := by omega
      obtain ⟨other,d',hd',hmax⟩ := exists_worst hworst
      have ho : other ≠ w := by
        rintro rfl
        rw [hgone] at hd'
        cases hd'
      exact .inr ⟨other,d',ho,by rw [← hkept other ho,hd'],by omega⟩
  · intro hspared
    refine le_antisymm hle ?_
    rw [worst_le_iff]
    intro other d hd
    by_cases ho : other = w
    · subst ho
      obtain hz | ⟨other,d',ho,hd',hmax⟩ := hspared d hd
      · omega
      · exact hmax.trans (le_worst axis (by rw [hkept other ho,hd']))
    · exact le_worst axis (by rw [hkept other ho,hd])

/-- Another VM's detach leaves a VM's worst alone exactly if the VM is spared. -/
theorem axes_detach_iff {b : BridgeInner} {v w : String} (hne : v ≠ w) :
    axes (b.detach w).directional v = axes b.directional v ↔ Spared b.directional v w := by
  simp only [axes,Prod.mk.injEq,worst_detach_iff hne]
  constructor
  · rintro ⟨hlat,hdrop,hbps⟩ d hd axis ha
    simp only [List.mem_cons,List.not_mem_nil,or_false] at ha
    obtain rfl | rfl | rfl := ha
    · exact hlat d hd
    · exact hdrop d hd
    · exact hbps d hd
  · intro h
    exact ⟨fun d hd => h d hd _ (by simp),fun d hd => h d hd _ (by simp),fun d hd => h d hd _ (by simp)⟩

end Provium.Lab
