import Provium.Lab.Members

/-! A lab and its sub-labs as the tree they form where no lab is below two others. What a VM and a
bridge are is open. The maps list their entries in any order. -/
namespace Provium.Lab
open Lib

/-- A lab with its VMs, its bridges and its sub-labs, each by name. -/
inductive LabTree (B V : Type) where
  | node (vms : Table String V) (bridges : Table String B) (names : List String)
      (distinct : names.Nodup) (below : {p // p ∈ names} → LabTree B V)

variable {B V : Type}

namespace LabTree

def vms : LabTree B V → Table String V
  | .node vms _ _ _ _ => vms

def bridges : LabTree B V → Table String B
  | .node _ bridges _ _ _ => bridges

/-- `Lab::new`. -/
def empty : LabTree B V := .node ∅ ∅ [] List.nodup_nil fun p => absurd p.2 List.not_mem_nil

def getSubLab (name : String) : LabTree B V → Option (LabTree B V)
  | .node _ _ names _ below => if h : name ∈ names then some (below ⟨name,h⟩) else none

/-- The lab at a path of sub-labs. -/
def labAt : List String → LabTree B V → Option (LabTree B V)
  | [],t => some t
  | p::ps,t => (t.getSubLab p).bind (labAt ps)

def vmAt (t : LabTree B V) (path : List String) (name : String) : Option V :=
  (t.labAt path).bind fun lab => lab.vms.lookup name

def bridgeAt (t : LabTree B V) (path : List String) (name : String) : Option B :=
  (t.labAt path).bind fun lab => lab.bridges.lookup name

/-- `format!("{prefix}/{name}")`, or the name alone where the prefix is empty. -/
def joinName (above name : String) : String := if above = "" then name else above++"/"++name

def gatherInto : LabTree B V → String → List (String × V)
  | .node vms _ names _ below,above =>
    vms.entries.map (fun e => (joinName above e.1,e.2))++
      names.attach.flatMap fun p => gatherInto (below p) (joinName above p)

/-- The VMs of a lab and of all labs below it, with their flat names. -/
def collectAllVms (t : LabTree B V) : List (String × V) := t.gatherInto ""

/-- The sub-lab of this name replaced, or made where there is none. -/
def setSubLab : LabTree B V → String → LabTree B V → LabTree B V
  | .node vms bridges names distinct below,name,sub =>
    .node vms bridges (names.insert name) (distinct.insert) fun p =>
      if p.1 = name then sub else if h : p.1 ∈ names then below ⟨p,h⟩ else sub

/-- What `f` makes of the lab that `descend_or_create` ends at: the sub-labs on the way are made
where they are missing. -/
def atPath (f : LabTree B V → LabTree B V) : List String → LabTree B V → LabTree B V
  | [],t => f t
  | p::ps,t => t.setSubLab p (atPath f ps ((t.getSubLab p).getD empty))

def descendOrCreate (path : List String) (t : LabTree B V) : LabTree B V := t.atPath id path

def putVm (name : String) (vm : V) : LabTree B V → LabTree B V
  | .node vms bridges names distinct below => .node (vms.insert name vm) bridges names distinct below

def putBridge (name : String) (bridge : B) : LabTree B V → LabTree B V
  | .node vms bridges names distinct below => .node vms (bridges.insert name bridge) names distinct below

/-- The name a VM at this place of the tree is gathered under. -/
def flatName (above : String) (k : List String × String) : String :=
  (k.1++[k.2]).foldl joinName above

/-- The file that `lab_snapshot` writes of a VM: each slash of its flat name is replaced. -/
def snapshotPath (dir flat : String) : String :=
  dir++"/"++String.ofList (flat.toList.map fun c => if c = '/' then '_' else c)++".snap"

/-- The VMs with their places in the tree, in the order in which they are gathered. -/
def entries : LabTree B V → List ((List String × String) × V)
  | .node vms _ names _ below =>
    vms.entries.map (fun e => (([],e.1),e.2))++
      names.attach.flatMap fun p => (entries (below p)).map fun e => ((p.1::e.1.1,e.1.2),e.2)

/-- The bridges with their places in the tree. -/
def bridgeEntries : LabTree B V → List ((List String × String) × B)
  | .node _ bridges names _ below =>
    bridges.entries.map (fun e => (([],e.1),e.2))++
      names.attach.flatMap fun p => (bridgeEntries (below p)).map fun e => ((p.1::e.1.1,e.1.2),e.2)

theorem gatherInto_eq (t : LabTree B V) (above : String) :
    t.gatherInto above = t.entries.map fun e => (flatName above e.1,e.2) := by
  induction t generalizing above with
  | node vms bridges names distinct below ih =>
    simp only [gatherInto,entries,List.map_append,List.map_map,List.map_flatMap,ih]
    rfl

theorem collectAllVms_eq (t : LabTree B V) :
    t.collectAllVms = t.entries.map fun e => (flatName "" e.1,e.2) := t.gatherInto_eq ""

theorem vmAt_nil (t : LabTree B V) (name : String) : t.vmAt [] name = t.vms.lookup name := rfl

theorem vmAt_cons (t : LabTree B V) (p : String) (ps : List String) (name : String) :
    t.vmAt (p::ps) name = (t.getSubLab p).bind fun s => s.vmAt ps name := by
  simp only [vmAt,labAt,Option.bind_assoc]

theorem mem_entries {t : LabTree B V} {path : List String} {name : String} {vm : V} :
    ((path,name),vm) ∈ t.entries ↔ t.vmAt path name = some vm := by
  induction t generalizing path with
  | node vms bridges names distinct below ih =>
    simp only [entries,List.mem_append,List.mem_map,List.mem_flatMap,List.mem_attach,true_and]
    cases path with
    | nil =>
      rw [vmAt_nil]
      constructor
      · rintro (⟨⟨n,v⟩,hmem,heq⟩ | ⟨p,e,-,heq⟩)
        · cases heq
          exact AList.mem_lookup_iff.mpr hmem
        · cases heq
      · intro h
        exact .inl ⟨⟨name,vm⟩,AList.mem_lookup_iff.mp h,rfl⟩
    | cons q qs =>
      rw [vmAt_cons]
      constructor
      · rintro (⟨e,-,heq⟩ | ⟨p,⟨⟨path,n⟩,v⟩,hmem,heq⟩)
        · cases heq
        · cases heq
          rw [getSubLab,dif_pos p.2,Option.bind_some]
          exact (ih p).mp hmem
      · intro h
        obtain ⟨s,hs,hv⟩ := Option.bind_eq_some_iff.mp h
        simp only [getSubLab] at hs
        split at hs
        · next hq =>
          cases hs
          exact .inr ⟨⟨q,hq⟩,((qs,name),vm),(ih _).mpr hv,rfl⟩
        · cases hs

/-- No two VMs are at one place. -/
theorem places_nodup (t : LabTree B V) : (t.entries.map Prod.fst).Nodup := by
  induction t with
  | node vms bridges names distinct below ih =>
    simp only [entries,List.map_append,List.map_map,List.map_flatMap,List.nodup_append]
    refine ⟨?_,?_,?_⟩
    · have hkeys : (vms.entries.map Sigma.fst).Nodup := vms.nodupKeys
      have hmap := hkeys.map (f := fun n => (([] : List String),n)) fun a b h => congrArg Prod.snd h
      rw [List.map_map] at hmap
      exact hmap
    · refine List.nodup_flatMap.mpr ⟨?_,?_⟩
      · intro p _
        have hmap := (ih p).map (f := fun k : List String × String => (p.1::k.1,k.2)) (by
          rintro ⟨a,b⟩ ⟨c,d⟩ h
          simp only [Prod.mk.injEq,List.cons.injEq,true_and] at h
          rw [h.1,h.2])
        rw [List.map_map] at hmap
        exact hmap
      · refine (List.nodup_attach.mpr distinct).imp ?_
        rintro p q hpq
        rw [Function.onFun,List.disjoint_left]
        intro k hp hq
        obtain ⟨e,-,rfl⟩ := List.mem_map.mp hp
        obtain ⟨e',-,he⟩ := List.mem_map.mp hq
        apply hpq
        simp only [Function.comp_apply,Prod.mk.injEq,List.cons.injEq] at he
        exact Subtype.ext he.1.1.symm
    · rintro k hk k' hk' rfl
      obtain ⟨e,-,rfl⟩ := List.mem_map.mp hk
      obtain ⟨p,-,hp⟩ := List.mem_flatMap.mp hk'
      obtain ⟨e',-,he⟩ := List.mem_map.mp hp
      cases he

theorem getSubLab_setSubLab (t s : LabTree B V) (p q : String) :
    (t.setSubLab p s).getSubLab q = if q = p then some s else t.getSubLab q := by
  cases t with
  | node vms bridges names distinct below =>
    simp only [setSubLab,getSubLab]
    by_cases hq : q = p
    · subst hq
      simp
    · by_cases hn : q ∈ names
      · simp [hq,hn,List.mem_insert_iff]
      · simp [hq,hn,List.mem_insert_iff]

@[simp] theorem vms_setSubLab (t s : LabTree B V) (p : String) : (t.setSubLab p s).vms = t.vms := by
  cases t
  rfl

@[simp] theorem vms_putVm (t : LabTree B V) (name : String) (vm : V) :
    (t.putVm name vm).vms = t.vms.insert name vm := by
  cases t
  rfl

@[simp] theorem getSubLab_putVm (t : LabTree B V) (name : String) (vm : V) (p : String) :
    (t.putVm name vm).getSubLab p = t.getSubLab p := by
  cases t
  rfl

@[simp] theorem bridges_putBridge (t : LabTree B V) (name : String) (bridge : B) :
    (t.putBridge name bridge).bridges = t.bridges.insert name bridge := by
  cases t
  rfl

/-- The lab itself apart, a bridge changes nothing. -/
theorem labAt_putBridge_cons (t : LabTree B V) (name : String) (bridge : B) (p : String)
    (ps : List String) : (t.putBridge name bridge).labAt (p::ps) = t.labAt (p::ps) := by
  cases t
  rfl

@[simp] theorem vmAt_putBridge (t : LabTree B V) (name : String) (bridge : B) (path : List String)
    (n : String) : (t.putBridge name bridge).vmAt path n = t.vmAt path n := by
  cases path with
  | nil =>
    cases t
    rfl
  | cons p ps => rw [vmAt,labAt_putBridge_cons,vmAt]

@[simp] theorem vmAt_empty (path : List String) (name : String) :
    (empty : LabTree B V).vmAt path name = none := by
  cases path with
  | nil => rfl
  | cons p ps =>
    rw [vmAt_cons]
    rfl

/-- The labs that are missing have no VM. -/
theorem vmAt_getD (t : LabTree B V) (p : String) (ps : List String) (name : String) :
    ((t.getSubLab p).getD empty).vmAt ps name = t.vmAt (p::ps) name := by
  rw [vmAt_cons]
  cases t.getSubLab p with
  | none => exact vmAt_empty ps name
  | some s => rfl

theorem vmAt_descendOrCreate (t : LabTree B V) (path q : List String) (name : String) :
    (t.descendOrCreate path).vmAt q name = t.vmAt q name := by
  induction path generalizing t q with
  | nil => rfl
  | cons p ps ih =>
    cases q with
    | nil => simp [descendOrCreate,atPath,vmAt_nil]
    | cons r rs =>
      rw [descendOrCreate,atPath,vmAt_cons,getSubLab_setSubLab]
      split
      · next h =>
        subst h
        rw [Option.bind_some,← vmAt_getD]
        exact ih _ rs
      · rw [vmAt_cons]

/-- The one place that changes. -/
theorem vmAt_putVm_atPath (t : LabTree B V) (path q : List String) (leaf name : String) (vm : V) :
    (t.atPath (putVm leaf vm) path).vmAt q name =
      if q = path ∧ name = leaf then some vm else t.vmAt q name := by
  induction path generalizing t q with
  | nil =>
    cases q with
    | nil =>
      rw [atPath,vmAt_nil,vms_putVm]
      by_cases hn : name = leaf
      · subst hn
        simp
      · simp [hn,vmAt_nil,AList.lookup_insert_ne hn]
    | cons r rs => simp [atPath,vmAt_cons]
  | cons p ps ih =>
    cases q with
    | nil => simp [atPath,vmAt_nil]
    | cons r rs =>
      rw [atPath,vmAt_cons,getSubLab_setSubLab]
      by_cases hr : r = p
      · subst hr
        rw [if_pos rfl,Option.bind_some,ih,vmAt_getD]
        simp
      · rw [if_neg hr,vmAt_cons,if_neg]
        rintro ⟨h,-⟩
        exact hr (List.cons.inj h).1

end LabTree

/-- The parts of a flat name between its slashes. -/
def nameParts (flat : String) : List String := (flat.toList.splitOn '/').map String.ofList

/-- `split_sub_lab_path`: the last part apart. -/
def splitSubLabPath (flat : String) : List String × String :=
  ((nameParts flat).dropLast,(nameParts flat).getLastD "")

namespace LabTree

/-- A VM restored under its flat name: `descend_or_create`, and the insertion that `restore_vm`
ends with. -/
def place (t : LabTree B V) (flat : String) (vm : V) : Except LabError (LabTree B V) :=
  let q := splitSubLabPath flat
  let t := t.descendOrCreate q.1
  if (t.vmAt q.1 q.2).isSome then .error (.duplicateVmName q.2) else .ok (t.atPath (putVm q.2 vm) q.1)

def placeAll : LabTree B V → List (String × V) → Except LabError (LabTree B V)
  | t,[] => .ok t
  | t,e::rest => (t.place e.1 e.2).bind fun t => t.placeAll rest

end LabTree
end Provium.Lab
