import Provium.Lib.Table

/-! A network bridge, `bridge.rs`, as the graph state that its operations record. What is realised on
the host follows that state and is left out; so are captures. A `BTreeSet` is a list, of which only
the elements matter. -/
namespace Provium.Lab
open Lib

structure DirectionalImpairment where
  latencyMs : ℕ
  dropRatePct : ℕ
  bandwidthBps : ℕ
  deriving DecidableEq, Repr

namespace DirectionalImpairment

/-- `DirectionalImpairment::default`. -/
def zero : DirectionalImpairment := ⟨0,0,0⟩

end DirectionalImpairment

/-- The order of two names in a pair that has none. -/
def canonicalPair (a b : String) : String × String := if a ≤ b then (a,b) else (b,a)

theorem canonicalPair_comm (a b : String) : canonicalPair a b = canonicalPair b a := by
  unfold canonicalPair
  split
  · next h =>
    split
    · next h' => rw [le_antisymm h h']
    · rfl
  · next h => rw [if_pos (le_of_not_ge h)]

theorem canonicalPair_cases (a b : String) :
    canonicalPair a b = (a,b) ∨ canonicalPair a b = (b,a) := by
  unfold canonicalPair
  split
  · exact .inl rfl
  · exact .inr rfl

theorem canonicalPair_idem (a b : String) :
    canonicalPair (canonicalPair a b).1 (canonicalPair a b).2 = canonicalPair a b := by
  obtain h | h := canonicalPair_cases a b
  · rw [h]
    exact h
  · rw [h]
    change canonicalPair b a = (b,a)
    rw [canonicalPair_comm,h]

abbrev DirectionalMap := Table (String × String) DirectionalImpairment

namespace DirectionalMap

def value (map : DirectionalMap) (k : String × String) : DirectionalImpairment :=
  (map.lookup k).getD .zero

/-- `gc_directional_entry`: an entry that says nothing goes. -/
def gcDirectionalEntry (map : DirectionalMap) (k : String × String) : DirectionalMap :=
  if map.lookup k = some .zero then map.erase k else map

/-- An entry is made where there is none, changed, and looked over. -/
def modify (map : DirectionalMap) (k : String × String)
    (f : DirectionalImpairment → DirectionalImpairment) : DirectionalMap :=
  gcDirectionalEntry (map.insert k (f (map.value k))) k

theorem value_modify (map : DirectionalMap) (k k' : String × String)
    (f : DirectionalImpairment → DirectionalImpairment) :
    (map.modify k f).value k' = if k' = k then f (map.value k) else map.value k' := by
  unfold modify gcDirectionalEntry
  rw [AList.lookup_insert]
  by_cases hk : k' = k
  · subst hk
    rw [if_pos rfl]
    split
    · next h =>
      rw [Option.some.inj h,value,AList.lookup_erase]
      rfl
    · rw [value,AList.lookup_insert,Option.getD_some]
  · rw [if_neg hk]
    split
    · rw [value,AList.lookup_erase_ne hk,AList.lookup_insert_ne hk,value]
    · rw [value,AList.lookup_insert_ne hk,value]

end DirectionalMap

structure BridgeInner where
  attached : List String
  partitions : List (String × String)
  latencyMs : ℕ
  dropRatePct : ℕ
  bandwidthBps : ℕ
  directional : DirectionalMap
  fullyPartitioned : Bool
  routedTo : List String
  isolated : List String
  directionalPartitions : List (String × String)
  uplinkEnabled : Bool

/-- The calls that change a bridge. -/
inductive BridgeOp where
  | attach (vm : String)
  | detach (vm : String)
  | partition (a b : String)
  | unpartition (a b : String)
  | partitionDirectional (source target : String)
  | unpartitionDirectional (source target : String)
  | partitionAll
  | restoreAll
  | reset
  | route (other : String)
  | isolate (vm : String)
  | unisolate (vm : String)
  | addLatency (ms : ℕ)
  | dropRate (pct : ℕ)
  | bandwidthLimit (bps : ℕ)
  | addDirectionalLatency (source target : String) (ms : ℕ)
  | directionalDropRate (source target : String) (pct : ℕ)
  | setDirectionalBandwidth (source target : String) (bps : ℕ)
  | enableUplink
  | disableUplink
  deriving DecidableEq, Repr

namespace BridgeInner

/-- `Bridge::new`. -/
def new : BridgeInner := ⟨[],[],0,0,0,∅,false,[],[],[],false⟩

/-- The pairs and rules that name the VM go with it. -/
def detach (b : BridgeInner) (vm : String) : BridgeInner :=
  { b with
    attached := b.attached.filter (· ≠ vm)
    isolated := b.isolated.filter (· ≠ vm)
    partitions := b.partitions.filter fun k => k.1 ≠ vm ∧ k.2 ≠ vm
    directionalPartitions := b.directionalPartitions.filter fun k => k.1 ≠ vm ∧ k.2 ≠ vm
    directional := b.directional.keys.foldl
      (fun map k => if k.1 ≠ vm ∧ k.2 ≠ vm then map else map.erase k) b.directional }

/-- Members, routes, isolations and the uplink stay. -/
def reset (b : BridgeInner) : BridgeInner :=
  { b with
    partitions := []
    directionalPartitions := []
    latencyMs := 0
    dropRatePct := 0
    bandwidthBps := 0
    directional := ∅
    fullyPartitioned := false }

def apply (b : BridgeInner) : BridgeOp → BridgeInner
  | .attach vm => { b with attached := b.attached.insert vm }
  | .detach vm => b.detach vm
  | .partition x y => { b with partitions := b.partitions.insert (canonicalPair x y) }
  | .unpartition x y => { b with partitions := b.partitions.filter (· ≠ canonicalPair x y) }
  | .partitionDirectional s t =>
    { b with directionalPartitions := b.directionalPartitions.insert (s,t) }
  | .unpartitionDirectional s t =>
    { b with directionalPartitions := b.directionalPartitions.filter (· ≠ (s,t)) }
  | .partitionAll => { b with fullyPartitioned := true }
  | .restoreAll => { b with fullyPartitioned := false }
  | .reset => b.reset
  | .route other => { b with routedTo := b.routedTo.insert other }
  | .isolate vm => { b with isolated := b.isolated.insert vm }
  | .unisolate vm => { b with isolated := b.isolated.filter (· ≠ vm) }
  | .addLatency ms => { b with latencyMs := ms }
  | .dropRate pct => { b with dropRatePct := min pct 100 }
  | .bandwidthLimit bps => { b with bandwidthBps := bps }
  | .addDirectionalLatency s t ms =>
    { b with directional := b.directional.modify (s,t) fun d => { d with latencyMs := ms } }
  | .directionalDropRate s t pct =>
    { b with directional := b.directional.modify (s,t) fun d => { d with dropRatePct := min pct 100 } }
  | .setDirectionalBandwidth s t bps =>
    { b with directional := b.directional.modify (s,t) fun d => { d with bandwidthBps := bps } }
  | .enableUplink => { b with uplinkEnabled := true }
  | .disableUplink => { b with uplinkEnabled := false }

def applyAll (b : BridgeInner) (ops : List BridgeOp) : BridgeInner := ops.foldl apply b

def isPartitioned (b : BridgeInner) (x y : String) : Bool :=
  b.fullyPartitioned || canonicalPair x y ∈ b.partitions

def isIsolated (b : BridgeInner) (vm : String) : Bool := vm ∈ b.isolated

end BridgeInner

/-- A bridge: what some calls have made of a new one. -/
structure Bridge where
  inner : BridgeInner
  made : ∃ ops, BridgeInner.new.applyAll ops = inner

namespace Bridge

theorem made_applyAll {inner : BridgeInner} (made : ∃ ops, BridgeInner.new.applyAll ops = inner)
    (ops : List BridgeOp) : ∃ ops', BridgeInner.new.applyAll ops' = inner.applyAll ops := by
  obtain ⟨before,rfl⟩ := made
  exact ⟨before++ops,List.foldl_append⟩

theorem made_new : ∃ ops, BridgeInner.new.applyAll ops = BridgeInner.new := ⟨[],rfl⟩

def new : Bridge := ⟨.new,made_new⟩

def applyAll (b : Bridge) (ops : List BridgeOp) : Bridge :=
  ⟨b.inner.applyAll ops,made_applyAll b.made ops⟩

end Bridge

/-- What every sequence of calls keeps. -/
structure BridgeInner.Sound (b : BridgeInner) : Prop where
  attached : b.attached.Nodup
  partitions : ∀ k ∈ b.partitions, canonicalPair k.1 k.2 = k
  drop : b.dropRatePct ≤ 100
  directional : ∀ k, (b.directional.value k).dropRatePct ≤ 100

namespace BridgeInner

theorem Sound.new : Sound .new := by
  constructor
  · exact List.nodup_nil
  · simp [BridgeInner.new]
  · exact Nat.zero_le _
  · intro k
    exact Nat.zero_le _

/-- Entries taken out leave the others alone. -/
theorem value_foldl_erase (vm : String) (keys : List (String × String)) (map : DirectionalMap)
    (k : String × String) :
    DirectionalMap.value (keys.foldl
      (fun map k => if k.1 ≠ vm ∧ k.2 ≠ vm then map else map.erase k) map) k = .zero ∨
    DirectionalMap.value (keys.foldl
      (fun map k => if k.1 ≠ vm ∧ k.2 ≠ vm then map else map.erase k) map) k = map.value k := by
  induction keys generalizing map with
  | nil => exact .inr rfl
  | cons k' keys ih =>
    rw [List.foldl_cons]
    split
    · exact ih map
    · obtain h | h := ih (map.erase k')
      · exact .inl h
      · by_cases hk : k = k'
        · subst hk
          left
          rw [h,DirectionalMap.value,AList.lookup_erase]
          rfl
        · right
          rw [h,DirectionalMap.value,AList.lookup_erase_ne hk,DirectionalMap.value]

theorem Sound.modify {b : BridgeInner} (h : b.Sound) (k : String × String)
    {f : DirectionalImpairment → DirectionalImpairment}
    (hf : ∀ d, d.dropRatePct ≤ 100 → (f d).dropRatePct ≤ 100) :
    Sound { b with directional := b.directional.modify k f } := by
  refine ⟨h.attached,h.partitions,h.drop,?_⟩
  intro k'
  rw [DirectionalMap.value_modify]
  split
  · exact hf _ (h.directional k)
  · exact h.directional k'

theorem Sound.apply {b : BridgeInner} (h : b.Sound) (op : BridgeOp) : (b.apply op).Sound := by
  cases op with
  | attach vm => exact ⟨h.attached.insert,h.partitions,h.drop,h.directional⟩
  | detach vm =>
    refine ⟨h.attached.filter _,?_,h.drop,?_⟩
    · intro k hk
      exact h.partitions k (List.mem_of_mem_filter hk)
    · intro k
      obtain hz | hv := value_foldl_erase vm b.directional.keys b.directional k
      · simp only [BridgeInner.apply,detach,hz]
        exact Nat.zero_le _
      · simp only [BridgeInner.apply,detach,hv]
        exact h.directional k
  | partition x y =>
    refine ⟨h.attached,?_,h.drop,h.directional⟩
    intro k hk
    obtain rfl | hk := List.mem_insert_iff.mp hk
    · exact canonicalPair_idem x y
    · exact h.partitions k hk
  | unpartition x y =>
    refine ⟨h.attached,?_,h.drop,h.directional⟩
    intro k hk
    exact h.partitions k (List.mem_of_mem_filter hk)
  | reset =>
    refine ⟨h.attached,?_,Nat.zero_le _,?_⟩
    · intro k hk
      cases hk
    · intro k
      exact Nat.zero_le _
  | dropRate pct => exact ⟨h.attached,h.partitions,min_le_right _ _,h.directional⟩
  | addDirectionalLatency s t ms => exact h.modify (s,t) fun d hd => hd
  | directionalDropRate s t pct => exact h.modify (s,t) fun _ _ => min_le_right _ _
  | setDirectionalBandwidth s t bps => exact h.modify (s,t) fun d hd => hd
  | _ => exact ⟨h.attached,h.partitions,h.drop,h.directional⟩

theorem Sound.applyAll {b : BridgeInner} (h : b.Sound) (ops : List BridgeOp) :
    (b.applyAll ops).Sound := by
  induction ops generalizing b with
  | nil => exact h
  | cons op ops ih => exact ih (h.apply op)

end BridgeInner

theorem Bridge.sound (b : Bridge) : b.inner.Sound := by
  obtain ⟨ops,hops⟩ := b.made
  rw [← hops]
  exact BridgeInner.Sound.new.applyAll ops

end Provium.Lab
