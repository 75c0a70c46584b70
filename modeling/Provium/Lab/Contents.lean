import Provium.Lab.Tree

/-! What a lab tree holds, place by place: where there is a lab, and the VMs and the bridges by name.
The order in which the maps list their entries is no part of it. -/
namespace Provium.Lab
variable {B V : Type}

@[ext] structure Contents (B V : Type) where
  labs : Set (List String)
  vms : List String → String → Option V
  bridges : List String → String → Option B

namespace Contents

/-- With the labs on the way to a place. -/
def withLabs (c : Contents B V) (path : List String) : Contents B V :=
  { c with labs := c.labs ∪ {q | q <+: path} }

def withVm (c : Contents B V) (path : List String) (name : String) (vm : V) : Contents B V :=
  { c with vms := fun q n => if q = path ∧ n = name then some vm else c.vms q n }

/-- With a bridge in the root. -/
def withBridge (c : Contents B V) (name : String) (bridge : B) : Contents B V :=
  { c with bridges := fun q n => if q = [] ∧ n = name then some bridge else c.bridges q n }

/-- Labs that are there need not be made. -/
theorem withLabs_of_mem {c : Contents B V} {path : List String} (h : ∀ q, q <+: path → q ∈ c.labs) :
    c.withLabs path = c := by
  ext1
  · exact Set.union_eq_left.mpr h
  · rfl
  · rfl

end Contents

namespace LabTree

def contents (t : LabTree B V) : Contents B V := ⟨{path | (t.labAt path).isSome},t.vmAt,t.bridgeAt⟩

theorem labAt_cons (t : LabTree B V) (p : String) (ps : List String) :
    t.labAt (p::ps) = (t.getSubLab p).bind (labAt ps) := rfl

theorem labAt_empty_isSome (path : List String) : ((empty : LabTree B V).labAt path).isSome ↔ path = [] := by
  cases path with
  | nil => simp [labAt]
  | cons p ps => simp [labAt_cons,getSubLab,empty]

/-- The labs on the way to a lab are there. -/
theorem labAt_isSome_of_prefix {t : LabTree B V} {q path : List String} (hbefore : q <+: path)
    (hpath : (t.labAt path).isSome) : (t.labAt q).isSome := by
  induction q generalizing t path with
  | nil => rfl
  | cons p qs ih =>
    obtain ⟨rest,rfl⟩ := hbefore
    rw [List.cons_append,labAt_cons] at hpath
    rw [labAt_cons]
    cases hsub : t.getSubLab p with
    | none =>
      rw [hsub] at hpath
      cases hpath
    | some s =>
      rw [hsub,Option.bind_some] at hpath
      exact ih (List.prefix_append qs rest) hpath

section AtPath
variable {f : LabTree B V → LabTree B V} (hsub : ∀ t p, (f t).getSubLab p = t.getSubLab p)
include hsub

/-- A walk makes the labs on its way and no others. -/
theorem labAt_atPath_isSome (t : LabTree B V) (path q : List String) :
    ((t.atPath f path).labAt q).isSome ↔ (t.labAt q).isSome ∨ q <+: path := by
  induction path generalizing t q with
  | nil =>
    cases q with
    | nil => simp [labAt]
    | cons r rs => simp [atPath,labAt_cons,hsub]
  | cons p ps ih =>
    cases q with
    | nil => simp [labAt]
    | cons r rs =>
      rw [atPath,labAt_cons,getSubLab_setSubLab,labAt_cons,List.cons_prefix_cons]
      by_cases hr : r = p
      · subst hr
        rw [if_pos rfl,Option.bind_some,ih]
        cases t.getSubLab r with
        | none =>
          have hnil : rs = [] → rs <+: ps := by
            rintro rfl
            exact List.nil_prefix
          simpa [labAt_empty_isSome] using hnil
        | some s => simp
      · simp [hr]

theorem bridgeAt_atPath (hbridges : ∀ t, (f t).bridges = t.bridges) (t : LabTree B V)
    (path q : List String) (name : String) : (t.atPath f path).bridgeAt q name = t.bridgeAt q name := by
  induction path generalizing t q with
  | nil =>
    cases q with
    | nil => simp [atPath,bridgeAt,labAt,hbridges]
    | cons r rs => simp [atPath,bridgeAt,labAt_cons,hsub]
  | cons p ps ih =>
    cases q with
    | nil =>
      cases t
      rfl
    | cons r rs =>
      rw [atPath,bridgeAt,labAt_cons,getSubLab_setSubLab,bridgeAt,labAt_cons]
      by_cases hr : r = p
      · subst hr
        rw [if_pos rfl,Option.bind_some]
        refine (ih _ rs).trans ?_
        cases t.getSubLab r with
        | none =>
          cases rs with
          | nil => rfl
          | cons s ss => rfl
        | some s => rfl
      · rw [if_neg hr]

end AtPath

theorem contents_descendOrCreate (t : LabTree B V) (path : List String) :
    (t.descendOrCreate path).contents = t.contents.withLabs path := by
  ext1
  · ext q
    exact labAt_atPath_isSome (fun _ _ => rfl) t path q
  · funext q name
    exact vmAt_descendOrCreate t path q name
  · funext q name
    exact bridgeAt_atPath (fun _ _ => rfl) (fun _ => rfl) t path q name

theorem contents_putVm (t : LabTree B V) (path : List String) (name : String) (vm : V) :
    (t.atPath (putVm name vm) path).contents = (t.contents.withLabs path).withVm path name vm := by
  have hsub : ∀ (t : LabTree B V) p, (putVm name vm t).getSubLab p = t.getSubLab p := fun t p =>
    getSubLab_putVm t name vm p
  have hbridges : ∀ t : LabTree B V, (putVm name vm t).bridges = t.bridges := by
    intro t
    cases t
    rfl
  ext1
  · ext q
    exact labAt_atPath_isSome hsub t path q
  · funext q n
    exact vmAt_putVm_atPath t path q name n vm
  · funext q n
    exact bridgeAt_atPath hsub hbridges t path q n

theorem contents_putBridge (t : LabTree B V) (name : String) (bridge : B) :
    (t.putBridge name bridge).contents = t.contents.withBridge name bridge := by
  ext1
  · ext q
    cases q with
    | nil => rfl
    | cons p ps =>
      change ((t.putBridge name bridge).labAt (p::ps)).isSome ↔ (t.labAt (p::ps)).isSome
      rw [labAt_putBridge_cons]
  · funext q n
    exact vmAt_putBridge t name bridge q n
  · funext q n
    cases q with
    | nil =>
      change (t.putBridge name bridge).bridges.lookup n = if [] = [] ∧ n = name then some bridge else t.bridgeAt [] n
      rw [bridges_putBridge]
      by_cases hn : n = name
      · subst hn
        simp
      · rw [AList.lookup_insert_ne hn,if_neg fun h => hn h.2]
        rfl
    | cons p ps => simp [contents,Contents.withBridge,bridgeAt,labAt_putBridge_cons]

end LabTree
end Provium.Lab
