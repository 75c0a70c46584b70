import Provium.Lab.BridgeShaping

/-! What a bridge records, after any calls: nothing twice, nothing empty, nothing out of range, and nothing of
a VM that has been detached. -/
namespace Provium.Lab
open Lib

/-- The VMs that a call names. -/
def BridgeOp.names : BridgeOp → List String
  | .attach vm | .detach vm | .isolate vm | .unisolate vm => [vm]
  | .partition a b | .unpartition a b | .partitionDirectional a b | .unpartitionDirectional a b
  | .addDirectionalLatency a b _ | .directionalDropRate a b _ | .setDirectionalBandwidth a b _ => [a,b]
  | .partitionAll | .restoreAll | .reset | .route _ | .addLatency _ | .dropRate _ | .bandwidthLimit _
  | .enableUplink | .disableUplink => []

/-- The records are in the one form that they can have. -/
structure BridgeInner.Canonical (b : BridgeInner) : Prop where
  alive : ∀ k d, b.directional.lookup k = some d → d ≠ .zero
  drop : b.dropRatePct ≤ 100
  drops : ∀ k d, b.directional.lookup k = some d → d.dropRatePct ≤ 100
  once : b.partitions.Nodup
  ordered : ∀ k ∈ b.partitions, k.1 ≤ k.2
  symmetric : ∀ x y, b.isPartitioned x y = b.isPartitioned y x
  /-- One call heals a pair, however often and in whichever order it has been cut. -/
  heals : ∀ x y, (b.apply (.unpartition x y)).isPartitioned x y = b.fullyPartitioned ∧
    (b.apply (.unpartition x y)).isPartitioned y x = b.fullyPartitioned

/-- No record mentions the VM. -/
structure BridgeInner.Unmentioned (v : String) (b : BridgeInner) : Prop where
  attached : v ∉ b.attached
  isolated : v ∉ b.isolated
  partitions : ∀ k ∈ b.partitions, k.1 ≠ v ∧ k.2 ≠ v
  directionalPartitions : ∀ k ∈ b.directionalPartitions, k.1 ≠ v ∧ k.2 ≠ v
  directional : ∀ k, k.1 = v ∨ k.2 = v → b.directional.lookup k = none

theorem DirectionalMap.lookup_modify (map : DirectionalMap) (k k' : String × String)
    (f : DirectionalImpairment → DirectionalImpairment) : AList.lookup k' (map.modify k f) =
      if k' = k then (if f (map.value k) = .zero then none else some (f (map.value k))) else map.lookup k' := by
  unfold modify gcDirectionalEntry
  simp only [AList.lookup_insert,Option.some.injEq]
  by_cases hk : k' = k
  · subst hk
    rw [if_pos rfl]
    split
    · rw [AList.lookup_erase]
    · rw [AList.lookup_insert]
  · rw [if_neg hk]
    split
    · rw [AList.lookup_erase_ne hk,AList.lookup_insert_ne hk]
    · rw [AList.lookup_insert_ne hk]

namespace BridgeInner
variable {b : BridgeInner} {v : String}

/-- What the calls keep of the directional entries and the pairs. -/
structure Tidy (b : BridgeInner) : Prop where
  alive : ∀ k d, b.directional.lookup k = some d → d ≠ .zero
  once : b.partitions.Nodup

theorem Tidy.new : Tidy .new := ⟨fun _ _ h => (nomatch h),List.nodup_nil⟩

theorem Tidy.modify (h : b.Tidy) (k : String × String) (f : DirectionalImpairment → DirectionalImpairment) :
    Tidy { b with directional := b.directional.modify k f } := by
  refine ⟨fun k' d hd => ?_,h.once⟩
  rw [DirectionalMap.lookup_modify] at hd
  split at hd
  · split at hd
    · cases hd
    · next hne =>
      rw [← Option.some.inj hd]
      exact hne
  · exact h.alive k' d hd

theorem Tidy.apply (h : b.Tidy) (op : BridgeOp) : (b.apply op).Tidy := by
  cases op with
  | detach vm =>
    refine ⟨fun k d hd => ?_,h.once.filter _⟩
    rw [BridgeInner.apply,lookup_detach] at hd
    split at hd
    · cases hd
    · exact h.alive k d hd
  | partition x y => exact ⟨h.alive,h.once.insert⟩
  | unpartition x y => exact ⟨h.alive,h.once.filter _⟩
  | reset => exact ⟨fun _ d hd => (Option.some_ne_none d hd.symm).elim,List.nodup_nil⟩
  | addDirectionalLatency s t ms => exact h.modify (s,t) _
  | directionalDropRate s t pct => exact h.modify (s,t) _
  | setDirectionalBandwidth s t bps => exact h.modify (s,t) _
  | _ => exact ⟨h.alive,h.once⟩

theorem Tidy.applyAll (h : b.Tidy) (ops : List BridgeOp) : (b.applyAll ops).Tidy := by
  induction ops generalizing b with
  | nil => exact h
  | cons op ops ih => exact ih (h.apply op)

theorem canonicalPair_ordered {k : String × String} (h : canonicalPair k.1 k.2 = k) : k.1 ≤ k.2 := by
  unfold canonicalPair at h
  split at h
  · next hle => exact hle
  · next hnle =>
    have hswap : k.2 = k.1 := congrArg Prod.fst h
    exact hswap.ge

theorem isPartitioned_unpartition (b : BridgeInner) (x y : String) :
    (b.apply (.unpartition x y)).isPartitioned x y = b.fullyPartitioned := by
  simp [isPartitioned,apply]

theorem isPartitioned_comm (b : BridgeInner) (x y : String) : b.isPartitioned x y = b.isPartitioned y x := by
  unfold isPartitioned
  rw [canonicalPair_comm]

theorem canonical_of_sound (hs : b.Sound) (ht : b.Tidy) : b.Canonical where
  alive := ht.alive
  drop := hs.drop
  drops k d hd := by
    have := hs.directional k
    rwa [DirectionalMap.value,hd] at this
  once := ht.once
  ordered k hk := canonicalPair_ordered (hs.partitions k hk)
  symmetric := b.isPartitioned_comm
  heals x y := ⟨b.isPartitioned_unpartition x y,by rw [isPartitioned_comm,isPartitioned_unpartition]⟩

theorem unmentioned_detach (b : BridgeInner) (v : String) : (b.detach v).Unmentioned v where
  attached h := by simpa using (List.mem_filter.mp h).2
  isolated h := by simpa using (List.mem_filter.mp h).2
  partitions k hk := by simpa using (List.mem_filter.mp hk).2
  directionalPartitions k hk := by simpa using (List.mem_filter.mp hk).2
  directional k hk := by rw [lookup_detach,if_pos hk]

theorem Unmentioned.modify (h : b.Unmentioned v) {k : String × String} (hk : k.1 ≠ v ∧ k.2 ≠ v)
    (f : DirectionalImpairment → DirectionalImpairment) :
    Unmentioned v { b with directional := b.directional.modify k f } := by
  refine ⟨h.attached,h.isolated,h.partitions,h.directionalPartitions,fun k' hk' => ?_⟩
  rw [DirectionalMap.lookup_modify,if_neg]
  · exact h.directional k' hk'
  · rintro rfl
    tauto

/-- A call that does not name the VM records nothing of it. -/
theorem Unmentioned.apply (h : b.Unmentioned v) {op : BridgeOp} (hop : v ∉ op.names) :
    (b.apply op).Unmentioned v := by
  cases op with
  | attach vm =>
    refine ⟨fun hmem => ?_,h.isolated,h.partitions,h.directionalPartitions,h.directional⟩
    obtain rfl | hmem := List.mem_insert_iff.mp hmem
    · exact hop List.mem_cons_self
    · exact h.attached hmem
  | isolate vm =>
    refine ⟨h.attached,fun hmem => ?_,h.partitions,h.directionalPartitions,h.directional⟩
    obtain rfl | hmem := List.mem_insert_iff.mp hmem
    · exact hop List.mem_cons_self
    · exact h.isolated hmem
  | unisolate vm =>
    exact ⟨h.attached,fun hmem => h.isolated (List.mem_of_mem_filter hmem),h.partitions,
      h.directionalPartitions,h.directional⟩
  | detach vm =>
    refine ⟨fun hmem => h.attached (List.mem_of_mem_filter hmem),
      fun hmem => h.isolated (List.mem_of_mem_filter hmem),
      fun k hk => h.partitions k (List.mem_of_mem_filter hk),
      fun k hk => h.directionalPartitions k (List.mem_of_mem_filter hk),fun k hk => ?_⟩
    rw [BridgeInner.apply,lookup_detach]
    split
    · rfl
    · exact h.directional k hk
  | partition x y =>
    have hne : x ≠ v ∧ y ≠ v := by simpa [BridgeOp.names,eq_comm] using hop
    refine ⟨h.attached,h.isolated,fun k hk => ?_,h.directionalPartitions,h.directional⟩
    obtain rfl | hk := List.mem_insert_iff.mp hk
    · obtain heq | heq := canonicalPair_cases x y
      · rw [heq]
        exact hne
      · rw [heq]
        exact hne.symm
    · exact h.partitions k hk
  | unpartition x y =>
    exact ⟨h.attached,h.isolated,fun k hk => h.partitions k (List.mem_of_mem_filter hk),
      h.directionalPartitions,h.directional⟩
  | partitionDirectional s t =>
    have hne : s ≠ v ∧ t ≠ v := by simpa [BridgeOp.names,eq_comm] using hop
    refine ⟨h.attached,h.isolated,h.partitions,fun k hk => ?_,h.directional⟩
    obtain rfl | hk := List.mem_insert_iff.mp hk
    · exact hne
    · exact h.directionalPartitions k hk
  | unpartitionDirectional s t =>
    exact ⟨h.attached,h.isolated,h.partitions,
      fun k hk => h.directionalPartitions k (List.mem_of_mem_filter hk),h.directional⟩
  | reset =>
    exact ⟨h.attached,h.isolated,fun k hk => (List.not_mem_nil hk).elim,fun k hk => (List.not_mem_nil hk).elim,
      fun k _ => rfl⟩
  | addDirectionalLatency s t ms | directionalDropRate s t pct | setDirectionalBandwidth s t bps =>
    have hne : s ≠ v ∧ t ≠ v := by simpa [BridgeOp.names,eq_comm] using hop
    exact h.modify (k := (s,t)) hne _
  | _ => exact ⟨h.attached,h.isolated,h.partitions,h.directionalPartitions,h.directional⟩

theorem Unmentioned.applyAll (h : b.Unmentioned v) {ops : List BridgeOp} (hops : ∀ op ∈ ops, v ∉ op.names) :
    (b.applyAll ops).Unmentioned v := by
  induction ops generalizing b with
  | nil => exact h
  | cons op ops ih =>
    obtain ⟨hop,hrest⟩ := List.forall_mem_cons.mp hops
    exact ih (h.apply hop) hrest

end BridgeInner

/-- After any calls the records are canonical, and of a VM that has been detached, and not been named since,
there are none. -/
theorem bridge_records_canonical (ops : List BridgeOp) : (BridgeInner.new.applyAll ops).Canonical ∧
    ∀ before v after, ops = before++.detach v::after → (∀ op ∈ after, v ∉ op.names) →
      (BridgeInner.new.applyAll ops).Unmentioned v := by
  refine ⟨BridgeInner.canonical_of_sound (BridgeInner.Sound.new.applyAll ops) (BridgeInner.Tidy.new.applyAll ops),?_⟩
  rintro before v after rfl hafter
  rw [BridgeInner.applyAll,List.foldl_append,List.foldl_cons]
  exact (BridgeInner.unmentioned_detach _ v).applyAll hafter

theorem bridge_records_canonical_detached : (BridgeInner.new.applyAll
    [.partition "b" "a",.directionalDropRate "a" "c" 250,.detach "a",.partition "c" "b"]).Unmentioned "a" :=
  (bridge_records_canonical _).2 [.partition "b" "a",.directionalDropRate "a" "c" 250] "a" [.partition "c" "b"] rfl
    (by decide)

end Provium.Lab
