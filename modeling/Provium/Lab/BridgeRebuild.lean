import Provium.Lab.Snapshot

/-! A bridge rebuilt from what a snapshot has written down of it, call by call. The snapshot asks the
bridge about its members only. -/
namespace Provium.Lab
open Lib

/-- Two bridges that answer every question alike. -/
structure SameObservations (b b' : BridgeInner) : Prop where
  members : ∀ vm, vm ∈ b.attached ↔ vm ∈ b'.attached
  partitioned : ∀ x y, b.isPartitioned x y = b'.isPartitioned x y
  isolated : ∀ vm, b.isIsolated vm = b'.isIsolated vm
  latency : b.latencyMs = b'.latencyMs
  drop : b.dropRatePct = b'.dropRatePct
  bandwidth : b.bandwidthBps = b'.bandwidthBps
  directional : ∀ k, b.directional.value k = b'.directional.value k
  directionalPartitions : ∀ k, k ∈ b.directionalPartitions ↔ k ∈ b'.directionalPartitions
  routes : ∀ other, other ∈ b.routedTo ↔ other ∈ b'.routedTo
  uplink : b.uplinkEnabled = b'.uplinkEnabled
  fully : b.fullyPartitioned = b'.fullyPartitioned

/-- What names a VM names a member. -/
def BridgeInner.AmongMembers (b : BridgeInner) : Prop :=
  (∀ vm ∈ b.isolated, vm ∈ b.attached) ∧ (b.fullyPartitioned = false →
    ∀ k ∈ b.partitions, k.1 ∈ b.attached ∧ k.2 ∈ b.attached ∧ k.1 ≠ k.2)

theorem mem_memberPairs {l : List String} {k : String × String} (h : k ∈ memberPairs l) :
    k.1 ∈ l ∧ k.2 ∈ l := by
  induction l with
  | nil => cases h
  | cons a l ih =>
    obtain h | h := List.mem_append.mp h
    · obtain ⟨c,hc,rfl⟩ := List.mem_map.mp h
      exact ⟨List.mem_cons_self,List.mem_cons_of_mem a hc⟩
    · exact ⟨List.mem_cons_of_mem a (ih h).1,List.mem_cons_of_mem a (ih h).2⟩

theorem ne_of_mem_memberPairs {l : List String} (hl : l.Nodup) {k : String × String}
    (h : k ∈ memberPairs l) : k.1 ≠ k.2 := by
  induction l with
  | nil => cases h
  | cons a l ih =>
    obtain ⟨ha,hl⟩ := List.nodup_cons.mp hl
    obtain h | h := List.mem_append.mp h
    · obtain ⟨c,hc,rfl⟩ := List.mem_map.mp h
      intro heq
      change a = c at heq
      exact ha (heq ▸ hc)
    · exact ih hl h

theorem memberPairs_of_mem {l : List String} {x y : String} (hx : x ∈ l) (hy : y ∈ l) (hne : x ≠ y) :
    (x,y) ∈ memberPairs l ∨ (y,x) ∈ memberPairs l := by
  induction l with
  | nil => cases hx
  | cons a l ih =>
    simp only [memberPairs,List.mem_append,List.mem_map]
    obtain rfl | hxl := List.mem_cons.mp hx
    · obtain rfl | hyl := List.mem_cons.mp hy
      · exact absurd rfl hne
      · exact .inl (.inl ⟨y,hyl,rfl⟩)
    · obtain rfl | hyl := List.mem_cons.mp hy
      · exact .inr (.inl ⟨x,hxl,rfl⟩)
      · exact (ih hxl hyl).imp .inr .inr

theorem mem_foldl_insert {α β : Type} [BEq β] [LawfulBEq β] (g : α → β) (l : List α) (acc : List β)
    (x : β) : x ∈ l.foldl (fun acc a => acc.insert (g a)) acc ↔ x ∈ acc ∨ ∃ a ∈ l, g a = x := by
  induction l generalizing acc with
  | nil => simp
  | cons a l ih =>
    rw [List.foldl_cons,ih,List.mem_insert_iff]
    simp only [List.mem_cons,exists_eq_or_imp,eq_comm (a := x)]
    rw [or_comm (a := g a = x),or_assoc]

namespace BridgeInner

theorem applyAll_append (b : BridgeInner) (ops ops' : List BridgeOp) :
    b.applyAll (ops++ops') = (b.applyAll ops).applyAll ops' := List.foldl_append

/-- A call repeated over a list, that adds to one component. -/
theorem applyAll_map {α β : Type} [BEq β] (get : BridgeInner → List β)
    (set : BridgeInner → List β → BridgeInner) (f : α → BridgeOp) (g : α → β)
    (hstep : ∀ b a, b.apply (f a) = set b ((get b).insert (g a)))
    (hget : ∀ b l, get (set b l) = l) (hset : ∀ b l l', set (set b l) l' = set b l')
    (hself : ∀ b, set b (get b) = b) (l : List α) (b : BridgeInner) :
    b.applyAll (l.map f) = set b (l.foldl (fun acc a => acc.insert (g a)) (get b)) := by
  induction l generalizing b with
  | nil => exact (hself b).symm
  | cons a l ih =>
    rw [List.map_cons,applyAll,List.foldl_cons,hstep]
    refine (ih _).trans ?_
    rw [hget,hset,List.foldl_cons]

theorem applyAll_attach (b : BridgeInner) (l : List String) : b.applyAll (l.map .attach) =
    { b with attached := l.foldl (fun acc a => acc.insert a) b.attached } :=
  applyAll_map attached (fun b l => { b with attached := l }) .attach id
    (fun _ _ => rfl) (fun _ _ => rfl) (fun _ _ _ => rfl) (fun _ => rfl) l b

theorem applyAll_route (b : BridgeInner) (l : List String) : b.applyAll (l.map .route) =
    { b with routedTo := l.foldl (fun acc a => acc.insert a) b.routedTo } :=
  applyAll_map routedTo (fun b l => { b with routedTo := l }) .route id
    (fun _ _ => rfl) (fun _ _ => rfl) (fun _ _ _ => rfl) (fun _ => rfl) l b

theorem applyAll_isolate (b : BridgeInner) (l : List String) : b.applyAll (l.map .isolate) =
    { b with isolated := l.foldl (fun acc a => acc.insert a) b.isolated } :=
  applyAll_map isolated (fun b l => { b with isolated := l }) .isolate id
    (fun _ _ => rfl) (fun _ _ => rfl) (fun _ _ _ => rfl) (fun _ => rfl) l b

theorem applyAll_partition (b : BridgeInner) (l : List (String × String)) :
    b.applyAll (l.map fun k => .partition k.1 k.2) =
      { b with
        partitions := l.foldl (fun acc k => acc.insert (canonicalPair k.1 k.2)) b.partitions } :=
  applyAll_map partitions (fun b l => { b with partitions := l })
    (fun k => .partition k.1 k.2) (fun k => canonicalPair k.1 k.2)
    (fun _ _ => rfl) (fun _ _ => rfl) (fun _ _ _ => rfl) (fun _ => rfl) l b

theorem applyAll_partitionDirectional (b : BridgeInner) (l : List (String × String)) :
    b.applyAll (l.map fun k => .partitionDirectional k.1 k.2) =
      { b with
        directionalPartitions := l.foldl (fun acc k => acc.insert k) b.directionalPartitions } :=
  applyAll_map directionalPartitions (fun b l => { b with directionalPartitions := l })
    (fun k => .partitionDirectional k.1 k.2) id
    (fun _ _ => rfl) (fun _ _ => rfl) (fun _ _ _ => rfl) (fun _ => rfl) l b

/-- A call that may be left out. -/
theorem applyAll_optional {b b' : BridgeInner} {op : BridgeOp} {p : Prop} [Decidable p]
    (hmade : p → b.apply op = b') (hleft : ¬p → b = b') : b.applyAll (if p then [op] else []) = b' := by
  by_cases hp : p
  · rw [if_pos hp]
    exact hmade hp
  · rw [if_neg hp]
    exact hleft hp

theorem applyAll_addLatency (b : BridgeInner) (ms : ℕ) (hzero : b.latencyMs = 0) :
    b.applyAll (if 0 < ms then [.addLatency ms] else []) = { b with latencyMs := ms } := by
  refine applyAll_optional (fun _ => rfl) fun h => ?_
  rw [Nat.eq_zero_of_not_pos h,← hzero]

theorem applyAll_dropRate (b : BridgeInner) (pct : ℕ) (hmax : pct ≤ 100) (hzero : b.dropRatePct = 0) :
    b.applyAll (if 0 < pct then [.dropRate pct] else []) = { b with dropRatePct := pct } := by
  refine applyAll_optional (fun _ => ?_) fun h => ?_
  · change { b with dropRatePct := min pct 100 } = _
    rw [min_eq_left hmax]
  · rw [Nat.eq_zero_of_not_pos h,← hzero]

theorem applyAll_bandwidthLimit (b : BridgeInner) (bps : ℕ) (hzero : b.bandwidthBps = 0) :
    b.applyAll (if 0 < bps then [.bandwidthLimit bps] else []) = { b with bandwidthBps := bps } := by
  refine applyAll_optional (fun _ => rfl) fun h => ?_
  rw [Nat.eq_zero_of_not_pos h,← hzero]

theorem applyAll_partitionAll (b : BridgeInner) (full : Bool) (hnot : b.fullyPartitioned = false) :
    b.applyAll (if full then [.partitionAll] else []) = { b with fullyPartitioned := full } := by
  refine applyAll_optional (fun h => ?_) fun h => ?_
  · rw [h]
    rfl
  · rw [Bool.eq_false_of_not_eq_true h,← hnot]

theorem applyAll_enableUplink (b : BridgeInner) (uplink : Bool) (hnot : b.uplinkEnabled = false) :
    b.applyAll (if uplink then [.enableUplink] else []) = { b with uplinkEnabled := uplink } := by
  refine applyAll_optional (fun h => ?_) fun h => ?_
  · rw [h]
    rfl
  · rw [Bool.eq_false_of_not_eq_true h,← hnot]

/-- A call that may be left out, on the impairment of one pair. -/
theorem applyAll_modify (b : BridgeInner) (k : String × String)
    (f : DirectionalImpairment → DirectionalImpairment) (op : BridgeOp)
    (hop : ∀ b : BridgeInner, b.apply op = { b with directional := b.directional.modify k f })
    (p : Prop) [Decidable p] : ∃ map, b.applyAll (if p then [op] else []) = { b with directional := map } ∧
      ∀ k', map.value k' = if k' = k ∧ p then f (b.directional.value k) else b.directional.value k' := by
  by_cases hp : p
  · refine ⟨b.directional.modify k f,?_,?_⟩
    · rw [if_pos hp]
      exact hop b
    · intro k'
      rw [DirectionalMap.value_modify]
      simp only [hp,and_true]
  · refine ⟨b.directional,?_,?_⟩
    · rw [if_neg hp]
      rfl
    · simp [hp]

/-- An impairment put on a pair that has none. -/
theorem applyAll_directional (b : BridgeInner) (d : LabSnapshotDirectional)
    (hdrop : d.impairment.dropRatePct ≤ 100)
    (hzero : b.directional.value (d.source,d.target) = .zero) :
    ∃ map, b.applyAll d.ops = { b with directional := map } ∧ ∀ k, map.value k =
      if k = (d.source,d.target) then d.impairment else b.directional.value k := by
  obtain ⟨source,target,⟨ms,pct,bps⟩⟩ := d
  obtain ⟨m₁,h₁,hv₁⟩ := applyAll_modify b (source,target) (fun d => { d with latencyMs := ms })
    (.addDirectionalLatency source target ms) (fun _ => rfl) (0 < ms)
  obtain ⟨m₂,h₂,hv₂⟩ := applyAll_modify { b with directional := m₁ } (source,target)
    (fun d => { d with dropRatePct := min pct 100 }) (.directionalDropRate source target pct)
    (fun _ => rfl) (0 < pct)
  obtain ⟨m₃,h₃,hv₃⟩ := applyAll_modify { b with directional := m₂ } (source,target)
    (fun d => { d with bandwidthBps := bps }) (.setDirectionalBandwidth source target bps)
    (fun _ => rfl) (0 < bps)
  refine ⟨m₃,?_,?_⟩
  · rw [LabSnapshotDirectional.ops,applyAll_append,applyAll_append,h₁,h₂,h₃]
  · intro k
    simp only at hdrop hzero hv₂ hv₃
    rw [hv₃,hv₂,hv₂,hv₁,hv₁]
    by_cases hk : k = (source,target)
    · subst hk
      rw [hzero]
      simp only [true_and,if_true,DirectionalImpairment.zero,min_eq_left hdrop]
      split <;> split <;> split <;> simp <;> omega
    · simp only [hk,false_and,if_false]

theorem applyAll_directionals (b : BridgeInner) (ds : List LabSnapshotDirectional)
    (hdrop : ∀ d ∈ ds, d.impairment.dropRatePct ≤ 100)
    (hkeys : (ds.map fun d => (d.source,d.target)).Nodup)
    (hzero : ∀ d ∈ ds, b.directional.value (d.source,d.target) = .zero) :
    ∃ map, b.applyAll (ds.flatMap LabSnapshotDirectional.ops) = { b with directional := map } ∧
      (∀ d ∈ ds, map.value (d.source,d.target) = d.impairment) ∧
      ∀ k, (∀ d ∈ ds, k ≠ (d.source,d.target)) → map.value k = b.directional.value k := by
  induction ds generalizing b with
  | nil => exact ⟨b.directional,rfl,by simp,by simp⟩
  | cons d ds ih =>
    obtain ⟨hd,hkeys⟩ := List.nodup_cons.mp hkeys
    obtain ⟨m₁,h₁,hv₁⟩ := applyAll_directional b d (hdrop d List.mem_cons_self)
      (hzero d List.mem_cons_self)
    have hother : ∀ d' ∈ ds, (d'.source,d'.target) ≠ (d.source,d.target) := by
      intro d' hd' heq
      exact hd (List.mem_map.mpr ⟨d',hd',heq⟩)
    obtain ⟨m₂,h₂,hin,hout⟩ := ih { b with directional := m₁ }
      (fun d' hd' => hdrop d' (List.mem_cons_of_mem d hd')) hkeys (by
        intro d' hd'
        change m₁.value _ = _
        rw [hv₁,if_neg (hother d' hd')]
        exact hzero d' (List.mem_cons_of_mem d hd'))
    refine ⟨m₂,?_,?_,?_⟩
    · rw [List.flatMap_cons,applyAll_append,h₁,h₂]
    · intro d' hd'
      obtain rfl | hd' := List.mem_cons.mp hd'
      · rw [hout _ fun e he => (hother e he).symm]
        change m₁.value _ = _
        rw [hv₁,if_pos rfl]
      · exact hin d' hd'
    · intro k hk
      rw [hout k fun e he => hk e (List.mem_cons_of_mem d he)]
      change m₁.value _ = _
      rw [hv₁,if_neg (hk d List.mem_cons_self)]

/-- What the calls of a restore make of a new bridge. -/
def rebuilt (m : LabSnapshotBridge) : BridgeInner := (new.applyAll m.attachOps).applyAll m.reapplyOps

theorem rebuilt_eq {m : LabSnapshotBridge} (hpct : m.dropRatePct ≤ 100)
    (hdrop : ∀ d ∈ m.directionalImpairments, d.impairment.dropRatePct ≤ 100)
    (hkeys : (m.directionalImpairments.map fun d => (d.source,d.target)).Nodup) :
    ∃ map : DirectionalMap, rebuilt m =
      { attached := m.members.foldl (fun acc a => acc.insert a) []
        partitions := m.partitions.foldl (fun acc k => acc.insert (canonicalPair k.1 k.2)) []
        latencyMs := m.latencyMs
        dropRatePct := m.dropRatePct
        bandwidthBps := m.bandwidthBps
        directional := map
        fullyPartitioned := m.fullyPartitioned
        routedTo := m.routes.foldl (fun acc a => acc.insert a) []
        isolated := m.isolated.foldl (fun acc a => acc.insert a) []
        directionalPartitions := m.directionalPartitions.foldl (fun acc k => acc.insert k) []
        uplinkEnabled := m.uplinkEnabled } ∧
      (∀ d ∈ m.directionalImpairments, map.value (d.source,d.target) = d.impairment) ∧
      ∀ k, (∀ d ∈ m.directionalImpairments, k ≠ (d.source,d.target)) → map.value k = .zero := by
  have hempty : ∀ k, DirectionalMap.value ∅ k = .zero := fun _ => rfl
  obtain ⟨map,hmap,hin,hout⟩ := applyAll_directionals
    { attached := m.members.foldl (fun acc a => acc.insert a) []
      partitions := m.partitions.foldl (fun acc k => acc.insert (canonicalPair k.1 k.2)) []
      latencyMs := m.latencyMs
      dropRatePct := m.dropRatePct
      bandwidthBps := m.bandwidthBps
      directional := ∅
      fullyPartitioned := false
      routedTo := m.routes.foldl (fun acc a => acc.insert a) []
      isolated := m.isolated.foldl (fun acc a => acc.insert a) []
      directionalPartitions := m.directionalPartitions.foldl (fun acc k => acc.insert k) []
      uplinkEnabled := false } m.directionalImpairments hdrop hkeys fun d _ => hempty _
  refine ⟨map,?_,hin,?_⟩
  · rewrite [rebuilt,LabSnapshotBridge.attachOps,LabSnapshotBridge.reapplyOps]
    simp only [applyAll_append]
    rewrite [applyAll_attach,applyAll_addLatency _ _ rfl]
    dsimp only [new]
    rewrite [applyAll_dropRate _ _ hpct rfl,applyAll_bandwidthLimit _ _ rfl]
    dsimp only
    rewrite [applyAll_route,applyAll_isolate]
    dsimp only
    rewrite [applyAll_partition,applyAll_partitionDirectional]
    dsimp only
    rewrite [hmap,applyAll_partitionAll _ _ rfl]
    dsimp only
    rewrite [applyAll_enableUplink _ _ rfl]
    dsimp only
  · intro k hk
    rw [hout k hk]
    exact hempty k

theorem captured_directional {b : BridgeInner} {name : String} {d : LabSnapshotDirectional} :
    d ∈ (LabSnapshotBridge.capture name b).directionalImpairments ↔
      b.directional.lookup (d.source,d.target) = some d.impairment ∧ d.impairment ≠ .zero := by
  obtain ⟨source,target,⟨ms,pct,bps⟩⟩ := d
  simp only [LabSnapshotBridge.capture,List.mem_map,List.mem_filter,decide_eq_true_eq]
  constructor
  · rintro ⟨⟨k,imp⟩,⟨hmem,hpos⟩,heq⟩
    cases heq
    refine ⟨AList.mem_lookup_iff.mpr hmem,?_⟩
    rintro ⟨rfl,rfl,rfl⟩
    simp at hpos
  · rintro ⟨hmem,hne⟩
    refine ⟨⟨(source,target),⟨ms,pct,bps⟩⟩,⟨AList.mem_lookup_iff.mp hmem,?_⟩,rfl⟩
    by_contra hzero
    apply hne
    simp only [not_or,not_lt,Nat.le_zero] at hzero
    rw [hzero.1,hzero.2.1,hzero.2.2]
    rfl

theorem captured_directional_keys (b : BridgeInner) (name : String) :
    ((LabSnapshotBridge.capture name b).directionalImpairments.map fun d =>
      (d.source,d.target)).Nodup := by
  simp only [LabSnapshotBridge.capture,List.map_map]
  exact (List.filter_sublist.map _).nodup b.directional.nodupKeys

/-- The impairment of each pair is written down, or there is none. -/
theorem rebuilt_capture {b : BridgeInner} (hb : b.Sound) (name : String) :
    ∃ map : DirectionalMap, (∀ k, map.value k = b.directional.value k) ∧
      rebuilt (LabSnapshotBridge.capture name b) =
      { attached := b.attached.foldl (fun acc a => acc.insert a) []
        partitions := (LabSnapshotBridge.capture name b).partitions.foldl
          (fun acc k => acc.insert (canonicalPair k.1 k.2)) []
        latencyMs := b.latencyMs
        dropRatePct := b.dropRatePct
        bandwidthBps := b.bandwidthBps
        directional := map
        fullyPartitioned := b.fullyPartitioned
        routedTo := b.routedTo.foldl (fun acc a => acc.insert a) []
        isolated := (LabSnapshotBridge.capture name b).isolated.foldl (fun acc a => acc.insert a) []
        directionalPartitions := b.directionalPartitions.foldl (fun acc k => acc.insert k) []
        uplinkEnabled := b.uplinkEnabled } := by
  have hvalue : ∀ k d, b.directional.lookup k = some d → b.directional.value k = d := by
    intro k d h
    rw [DirectionalMap.value,h,Option.getD_some]
  have hpct : (LabSnapshotBridge.capture name b).dropRatePct ≤ 100 := hb.drop
  have hdrop : ∀ d ∈ (LabSnapshotBridge.capture name b).directionalImpairments,
      d.impairment.dropRatePct ≤ 100 := by
    intro d hd
    rw [← hvalue _ _ (captured_directional.mp hd).1]
    exact hb.directional _
  obtain ⟨map,heq,hin,hout⟩ := rebuilt_eq hpct hdrop (captured_directional_keys b name)
  refine ⟨map,?_,heq⟩
  intro k
  by_cases hk : ∃ d ∈ (LabSnapshotBridge.capture name b).directionalImpairments,
      k = (d.source,d.target)
  · obtain ⟨d,hd,rfl⟩ := hk
    rw [hin d hd,hvalue _ _ (captured_directional.mp hd).1]
  · rw [hout k fun d hd heq => hk ⟨d,hd,heq⟩]
    cases hl : b.directional.lookup k with
    | none => rw [DirectionalMap.value,hl,Option.getD_none]
    | some d =>
      by_contra hne
      rw [hvalue k d hl] at hne
      exact hk ⟨⟨k.1,k.2,d⟩,captured_directional.mpr ⟨hl,Ne.symm hne⟩,rfl⟩

/-- Which pairs are kept apart by a restored bridge. -/
theorem rebuilt_partitions {b : BridgeInner} (hb : b.Sound) (name : String) (x y : String) :
    canonicalPair x y ∈ (rebuilt (.capture name b)).partitions ↔ b.fullyPartitioned = false ∧
      canonicalPair x y ∈ b.partitions ∧ x ∈ b.attached ∧ y ∈ b.attached ∧ x ≠ y := by
  obtain ⟨map,-,heq⟩ := rebuilt_capture hb name
  rw [heq]
  simp only [mem_foldl_insert,List.not_mem_nil,false_or,LabSnapshotBridge.capture]
  cases hfull : b.fullyPartitioned with
  | true => simp
  | false =>
    simp only [Bool.false_eq_true,if_false,List.mem_filter,isPartitioned,hfull,Bool.false_or,
      decide_eq_true_eq,true_and]
    constructor
    · rintro ⟨k,⟨hk,hpart⟩,hkey⟩
      obtain ⟨h₁,h₂⟩ := mem_memberPairs hk
      have hne := ne_of_mem_memberPairs hb.attached hk
      rw [hkey] at hpart
      refine ⟨hpart,?_⟩
      -- the two pairs have the same two names
      obtain hc | hc := canonicalPair_cases k.1 k.2 <;>
        obtain hc' | hc' := canonicalPair_cases x y <;>
        · rw [hc,hc'] at hkey
          obtain ⟨rfl,rfl⟩ := Prod.ext_iff.mp hkey
          first
          | exact ⟨h₁,h₂,hne⟩
          | exact ⟨h₂,h₁,hne.symm⟩
    · rintro ⟨hpart,hx,hy,hne⟩
      obtain h | h := memberPairs_of_mem hx hy hne
      · exact ⟨(x,y),⟨h,hpart⟩,rfl⟩
      · refine ⟨(y,x),⟨h,?_⟩,canonicalPair_comm y x⟩
        rw [canonicalPair_comm]
        exact hpart

/-- A bridge comes back as it was exactly where its isolations and partitions are among members. -/
theorem rebuilt_same_iff {b : BridgeInner} (hb : b.Sound) (name : String) :
    SameObservations b (rebuilt (.capture name b)) ↔ b.AmongMembers := by
  obtain ⟨map,hvalue,heq⟩ := rebuilt_capture hb name
  have hisolated : ∀ vm, vm ∈ (rebuilt (.capture name b)).isolated ↔ vm ∈ b.attached ∧ vm ∈ b.isolated := by
    intro vm
    rw [heq]
    simp [mem_foldl_insert,LabSnapshotBridge.capture,isIsolated]
  have hfull : (rebuilt (.capture name b)).fullyPartitioned = b.fullyPartitioned := by rw [heq]
  constructor
  · intro h
    refine ⟨?_,?_⟩
    · intro vm hvm
      have := h.isolated vm
      simp only [isIsolated,decide_eq_decide] at this
      exact ((hisolated vm).mp (this.mp hvm)).1
    · intro hnot k hk
      have hkey := hb.partitions k hk
      have := h.partitioned k.1 k.2
      simp only [isPartitioned,hfull,hnot,Bool.false_or,decide_eq_decide] at this
      rw [rebuilt_partitions hb,hkey] at this
      exact (this.mp hk).2.2
  · intro h
    constructor
    · intro vm
      rw [heq]
      simp [mem_foldl_insert]
    · intro x y
      simp only [isPartitioned,hfull]
      cases hnot : b.fullyPartitioned with
      | true => rfl
      | false =>
        simp only [Bool.false_or,decide_eq_decide]
        rw [rebuilt_partitions hb]
        constructor
        · intro hk
          obtain ⟨h₁,h₂,hne⟩ := h.2 hnot _ hk
          refine ⟨hnot,hk,?_⟩
          obtain hc | hc := canonicalPair_cases x y
          · rw [hc] at h₁ h₂ hne
            exact ⟨h₁,h₂,hne⟩
          · rw [hc] at h₁ h₂ hne
            exact ⟨h₂,h₁,hne.symm⟩
        · intro hk
          exact hk.2.1
    · intro vm
      simp only [isIsolated,decide_eq_decide]
      rw [hisolated]
      exact ⟨fun hvm => ⟨h.1 vm hvm,hvm⟩,And.right⟩
    · rw [heq]
    · rw [heq]
    · rw [heq]
    · intro k
      rw [heq,hvalue]
    · intro k
      rw [heq]
      simp [mem_foldl_insert]
    · intro other
      rw [heq]
      simp [mem_foldl_insert]
    · rw [heq]
    · rw [heq]

end BridgeInner

end Provium.Lab
