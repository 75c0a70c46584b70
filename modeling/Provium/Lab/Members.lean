import Provium.Lib.Splice
import Provium.Lib.Table
import Provium.Lib.Walk

/-! The labs of one file, `lab.rs`: each with its VMs and its sub-labs by name. A lab and a VM are
their number; a `Lab` value and its clones are the same lab. The order in which the maps list their
entries plays no part. -/
namespace Provium.Lab
open Lib

/-- `LabInner`, with whether the VMs created here get the pool. Bridges and barriers are left out. -/
structure LabInner (H : Type) where
  name : String
  pool : Bool
  vms : Table String ℕ
  subLabs : Table String ℕ
  bootReservations : List H

abbrev Labs (H : Type) := List (LabInner H)

inductive LabError where
  | reservedName (name : String)
  | duplicateVmName (name : String)
  deriving DecidableEq, Repr

/-- `RESERVED_LAB_NAMES`. -/
def reservedLabNames : List String := ["vm_fixture","lab_fixture","pack","unpack"]

def checkReservedName (name : String) : Except LabError Unit :=
  if name ∈ reservedLabNames then .error (.reservedName name) else .ok ()

variable {H : Type}

namespace Labs

/-- `Lab::new_with_pool_and_events`: a lab of its own, below none. -/
def new (labs : Labs H) (name : String) (pool : Bool) : Labs H := labs++[⟨name,pool,∅,∅,[]⟩]

/-- The insertion that `create_vm`, `include_vm` and `restore_vm` end with. -/
def insertVm (labs : Labs H) (l : ℕ) (node : LabInner H) (name : String) (vm : ℕ) :
    Except LabError (Labs H) :=
  if name ∈ node.vms then .error (.duplicateVmName name)
  else .ok (labs.set l { node with vms := node.vms.insert name vm })

def includeVm (labs : Labs H) (l : ℕ) (node : LabInner H) (name : String) (vm : ℕ) :
    Except LabError (Labs H) :=
  (checkReservedName name).bind fun () => labs.insertVm l node name vm

/-- `sub_lab_checked`: a lab of the same name is replaced. The new one has no pool. -/
def subLab (labs : Labs H) (l : ℕ) (node : LabInner H) (name : String) : Except LabError (Labs H) :=
  (checkReservedName name).map fun () =>
    Labs.new (labs.set l { node with subLabs := node.subLabs.insert name labs.length }) name false

def includeSubLab (labs : Labs H) (l : ℕ) (node : LabInner H) (name : String) (sub : ℕ) :
    Except LabError (Labs H) :=
  (checkReservedName name).bind fun () =>
    if name ∈ node.subLabs then .error (.duplicateVmName ("sub-lab `"++name++"`"))
    else .ok (labs.set l { node with subLabs := node.subLabs.insert name sub })

/-- Neither removal shuts anything down. -/
def removeVm (labs : Labs H) (l : ℕ) (node : LabInner H) (name : String) : Labs H :=
  labs.set l { node with vms := node.vms.erase name }

def removeSubLab (labs : Labs H) (l : ℕ) (node : LabInner H) (name : String) : Labs H :=
  labs.set l { node with subLabs := node.subLabs.erase name }

/-- The members of a lab as `gather_into` sees them under its lock. -/
def graph (labs : Labs H) : Nesting ℕ ℕ where
  below l := (labs[l]?).elim [] fun node => node.subLabs.values
  items l := (labs[l]?).elim [] fun node => node.vms.values

/-- The lab has these joint reservations more. -/
def push (labs : Labs H) (l : ℕ) (node : LabInner H) (kept : List H) : Labs H :=
  labs.set l { node with bootReservations := node.bootReservations++kept }

/-- One of the joint reservations of a lab. -/
def joint (labs : Labs H) (l k : ℕ) : Option H :=
  (labs[l]?).bind fun node => node.bootReservations[k]?

end Labs

/-- No lab is below itself. -/
def Acyclic (labs : Labs H) : Prop := WellFounded labs.graph.Sub

theorem acyclic_new (name : String) (pool : Bool) : Acyclic (Labs.new ([] : Labs H) name pool) := by
  refine ⟨?_⟩
  intro l
  refine ⟨l,?_⟩
  intro k hk
  exfalso
  cases l with
  | zero => cases hk
  | succ l => cases hk

section Members
variable {labs labs' : Labs H} {l : ℕ} {node : LabInner H}

theorem graph_set_below (hl : labs[l]? = some node) (node' : LabInner H) (k : ℕ) :
    (Labs.graph (labs.set l node')).below k =
      if k = l then node'.subLabs.values else labs.graph.below k := by
  have hlt : l < labs.length := (List.getElem?_eq_some_iff.mp hl).1
  by_cases hk : k = l
  · subst hk
    simp [Labs.graph,hlt]
  · simp [Labs.graph,List.getElem?_set_ne (Ne.symm hk),hk]

theorem graph_set_items (hl : labs[l]? = some node) (node' : LabInner H) (k : ℕ) :
    (Labs.graph (labs.set l node')).items k =
      if k = l then node'.vms.values else labs.graph.items k := by
  have hlt : l < labs.length := (List.getElem?_eq_some_iff.mp hl).1
  by_cases hk : k = l
  · subst hk
    simp [Labs.graph,hlt]
  · simp [Labs.graph,List.getElem?_set_ne (Ne.symm hk),hk]

theorem graph_below_of (hl : labs[l]? = some node) : labs.graph.below l = node.subLabs.values := by
  simp [Labs.graph,hl]

theorem graph_items_of (hl : labs[l]? = some node) : labs.graph.items l = node.vms.values := by
  simp [Labs.graph,hl]

/-- A lab that gains members. -/
theorem grows_set (hl : labs[l]? = some node) {node' : LabInner H}
    (hb : node.subLabs.values ⊆ node'.subLabs.values) (hi : node.vms.values ⊆ node'.vms.values) :
    Nesting.Grows labs.graph (Labs.graph (labs.set l node')) := by
  constructor
  · intro k
    rw [graph_set_below hl]
    split
    · next hk =>
      rw [hk,graph_below_of hl]
      exact hb
    · exact List.Subset.refl _
  · intro k
    rw [graph_set_items hl]
    split
    · next hk =>
      rw [hk,graph_items_of hl]
      exact hi
    · exact List.Subset.refl _

theorem grows_new (labs : Labs H) (name : String) (pool : Bool) :
    Nesting.Grows labs.graph (labs.new name pool).graph := by
  constructor
  · intro k x hx
    cases hk : labs[k]? with
    | none => simp [Labs.graph,hk] at hx
    | some n =>
      rw [Labs.new,graph_below_of (getElem?_append_of hk _)]
      rw [graph_below_of hk] at hx
      exact hx
  · intro k x hx
    cases hk : labs[k]? with
    | none => simp [Labs.graph,hk] at hx
    | some n =>
      rw [Labs.new,graph_items_of (getElem?_append_of hk _)]
      rw [graph_items_of hk] at hx
      exact hx

/-- Nothing is below a lab that is new. -/
theorem sub_new {name : String} {pool : Bool} {a b : ℕ} (h : (labs.new name pool).graph.Sub a b) :
    labs.graph.Sub a b := by
  cases hb : (labs.new name pool)[b]? with
  | none => simp [Nesting.Sub,Labs.graph,hb] at h
  | some n =>
    rw [Nesting.Sub,graph_below_of hb] at h
    obtain hold | ⟨-,rfl⟩ := getElem?_snoc hb
    · rw [Nesting.Sub,graph_below_of hold]
      exact h
    · cases h

theorem Acyclic.new (h : Acyclic labs) (name : String) (pool : Bool) :
    Acyclic (labs.new name pool) := Subrelation.wf sub_new h

/-- A lab whose sub-labs stay as they are or get fewer. -/
theorem Acyclic.set (h : Acyclic labs) (hl : labs[l]? = some node) {node' : LabInner H}
    (hb : node'.subLabs.values ⊆ node.subLabs.values) : Acyclic (labs.set l node') := by
  apply Subrelation.wf _ h
  intro a b hab
  rw [Nesting.Sub,graph_set_below hl] at hab
  split at hab
  · next hbl =>
    rw [Nesting.Sub,hbl,graph_below_of hl]
    exact hb hab
  · exact hab

/-- A lab that gets one more sub-lab, which does not have it below. -/
theorem Acyclic.set_add (h : Acyclic labs) (hl : labs[l]? = some node) {node' : LabInner H} {sub : ℕ}
    (hb : ∀ x ∈ node'.subLabs.values, x ∈ node.subLabs.values ∨ x = sub)
    (hno : ¬labs.graph.Reach sub l) : Acyclic (labs.set l node') := by
  refine Nesting.wellFounded_add (a := sub) (b := l) h ?_ hno
  intro x y hxy
  rw [Nesting.Sub,graph_set_below hl] at hxy
  split at hxy
  · next hyl =>
    rw [Nesting.Sub,hyl,graph_below_of hl]
    exact (hb x hxy).imp_right fun hx => ⟨hx,rfl⟩
  · exact .inl hxy

/-- A number that no lab has yet reaches none. -/
theorem not_reach_length (hl : labs[l]? = some node) : ¬labs.graph.Reach labs.length l := by
  intro h
  obtain heq | ⟨k,hk,-⟩ := Relation.ReflTransGen.cases_head h
  · have := (List.getElem?_eq_some_iff.mp hl).1
    omega
  · simp [Nesting.Sub,Labs.graph] at hk

/-- The labs have gained members, and none below itself. -/
structure Extends (labs labs' : Labs H) : Prop where
  grows : Nesting.Grows labs.graph labs'.graph
  acyclic : Acyclic labs → Acyclic labs'

theorem Extends.new (labs : Labs H) (name : String) (pool : Bool) :
    Extends labs (labs.new name pool) :=
  ⟨grows_new labs name pool,fun h => h.new name pool⟩

theorem insertVm_extends {name : String} {vm : ℕ} (hl : labs[l]? = some node)
    (h : labs.insertVm l node name vm = .ok labs') : Extends labs labs' := by
  unfold Labs.insertVm at h
  split at h
  · cases h
  · next hn =>
    cases h
    constructor
    · exact grows_set hl (List.Subset.refl _) (Table.values_subset_insert hn vm)
    · intro ha
      exact ha.set hl (List.Subset.refl _)

theorem checked_ok {α : Type} {name : String} {next : Unit → Except LabError α} {a : α}
    (h : (checkReservedName name).bind next = .ok a) : next () = .ok a := by
  unfold checkReservedName at h
  split at h
  · cases h
  · exact h

theorem checked_allowed {α : Type} {name : String} {next : Unit → Except LabError α} {a : α}
    (h : (checkReservedName name).bind next = .ok a) : name ∉ reservedLabNames := by
  unfold checkReservedName at h
  split at h
  · cases h
  · assumption

theorem includeVm_extends {name : String} {vm : ℕ} (hl : labs[l]? = some node)
    (h : labs.includeVm l node name vm = .ok labs') : Extends labs labs' :=
  insertVm_extends hl (checked_ok h)

theorem subLab_ok {name : String} (h : labs.subLab l node name = .ok labs') :
    labs' = Labs.new (labs.set l { node with subLabs := node.subLabs.insert name labs.length })
      name false := by
  unfold Labs.subLab checkReservedName at h
  split at h
  · cases h
  · exact (Except.ok.inj h).symm

/-- Also a sub-lab that replaces another brings no lab below itself. -/
theorem subLab_acyclic {name : String} (hl : labs[l]? = some node)
    (h : labs.subLab l node name = .ok labs') (ha : Acyclic labs) : Acyclic labs' := by
  rw [subLab_ok h]
  apply Acyclic.new
  exact ha.set_add hl (fun x hx => Table.mem_values_insert hx) (not_reach_length hl)

theorem subLab_extends {name : String} (hl : labs[l]? = some node) (hn : name ∉ node.subLabs)
    (h : labs.subLab l node name = .ok labs') : Extends labs labs' := by
  refine ⟨?_,subLab_acyclic hl h⟩
  rw [subLab_ok h]
  refine Nesting.Grows.trans ?_ (grows_new _ name false)
  exact grows_set hl (Table.values_subset_insert hn _) (List.Subset.refl _)

theorem includeSubLab_extends {name : String} {sub : ℕ} (hl : labs[l]? = some node)
    (hno : ¬labs.graph.Reach sub l) (h : labs.includeSubLab l node name sub = .ok labs') :
    Extends labs labs' := by
  have h := checked_ok h
  split at h
  · cases h
  · next hn =>
    cases h
    constructor
    · exact grows_set hl (Table.values_subset_insert hn sub) (List.Subset.refl _)
    · intro ha
      exact ha.set_add hl (fun x hx => Table.mem_values_insert hx) hno

theorem removeVm_acyclic (hl : labs[l]? = some node) (name : String) (ha : Acyclic labs) :
    Acyclic (labs.removeVm l node name) := ha.set hl (List.Subset.refl _)

theorem removeSubLab_acyclic (hl : labs[l]? = some node) (name : String) (ha : Acyclic labs) :
    Acyclic (labs.removeSubLab l node name) := ha.set hl (Table.values_erase_subset _ _)

theorem joint_of (hl : labs[l]? = some node) (k : ℕ) :
    labs.joint l k = node.bootReservations[k]? := by
  rw [Labs.joint,hl,Option.bind_some]

theorem joint_set_self (hl : labs[l]? = some node) (node' : LabInner H) (k : ℕ) :
    Labs.joint (labs.set l node') l k = node'.bootReservations[k]? :=
  joint_of (List.getElem?_set_self (List.getElem?_eq_some_iff.mp hl).1) k

theorem joint_set_ne {l' : ℕ} (hne : l' ≠ l) (node' : LabInner H) (k : ℕ) :
    Labs.joint (labs.set l node') l' k = labs.joint l' k := by
  rw [Labs.joint,List.getElem?_set_ne (Ne.symm hne),Labs.joint]

/-- A lab that keeps its reservations. -/
theorem joint_set (hl : labs[l]? = some node) {node' : LabInner H}
    (hb : node'.bootReservations = node.bootReservations) (l' k : ℕ) :
    Labs.joint (labs.set l node') l' k = labs.joint l' k := by
  by_cases h : l' = l
  · rw [h,joint_set_self hl,joint_of hl,hb]
  · exact joint_set_ne h node' k

/-- A lab that gets a reservation more: those there were are as they were. -/
theorem joint_push (hl : labs[l]? = some node) (kept : List H) {l' k : ℕ}
    (hsome : (labs.joint l' k).isSome) :
    (labs.push l node kept).joint l' k = labs.joint l' k := by
  by_cases hll : l' = l
  · subst hll
    rw [joint_of hl] at hsome
    rw [Labs.push,joint_set_self hl,joint_of hl]
    obtain ⟨a,ha⟩ := Option.isSome_iff_exists.mp hsome
    rw [ha]
    exact getElem?_append_of ha _
  · exact joint_set_ne hll _ k

theorem joint_new (labs : Labs H) (name : String) (pool : Bool) (l k : ℕ) :
    (labs.new name pool).joint l k = labs.joint l k := by
  ext a
  simp only [Labs.joint,Option.bind_eq_some_iff]
  constructor
  · rintro ⟨n,hn,hk⟩
    obtain hold | ⟨-,rfl⟩ := getElem?_snoc hn
    · exact ⟨n,hold,hk⟩
    · cases hk
  · rintro ⟨n,hn,hk⟩
    exact ⟨n,getElem?_append_of hn _,hk⟩

theorem insertVm_joint {name : String} {vm : ℕ} (hl : labs[l]? = some node)
    (h : labs.insertVm l node name vm = .ok labs') (l' k : ℕ) :
    labs'.joint l' k = labs.joint l' k := by
  unfold Labs.insertVm at h
  split at h
  · cases h
  · cases h
    apply joint_set hl
    rfl

theorem includeVm_joint {name : String} {vm : ℕ} (hl : labs[l]? = some node)
    (h : labs.includeVm l node name vm = .ok labs') (l' k : ℕ) :
    labs'.joint l' k = labs.joint l' k :=
  insertVm_joint hl (checked_ok h) l' k

theorem subLab_joint {name : String} (hl : labs[l]? = some node)
    (h : labs.subLab l node name = .ok labs') (l' k : ℕ) :
    labs'.joint l' k = labs.joint l' k := by
  rw [subLab_ok h,joint_new]
  apply joint_set hl
  rfl

end Members
end Provium.Lab
