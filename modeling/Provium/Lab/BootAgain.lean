import Provium.Lab.Reservations

/-! A lab that is booted again. What `boot_with_pool` asks the pool for is counted over the members in
Created, but its batch goes to every member, and one that has booted before refuses. -/
namespace Provium.Lab
open Lib Provium.Host Provium.Scheduler
variable {I C : Type}

namespace FileHolds

/-- The members are in Created or live; each would be launched, and what is asked for those in Created is
within the types. -/
structure BootsAgain (s : FileHolds I C) (members : List ℕ)
    (launches : ℕ → Except VmError (Launched I C)) : Prop where
  known : ∀ v ∈ members, ∃ vm, s.vms[v]? = some vm ∧ (vm.inner.state = .created ∨ vm.inner.state.Live)
  launched : ∀ v ∈ members, ∃ r, launches v = .ok r
  fits : ∀ x, ((members.filter s.isCreated).map (s.cost x)).sum ≤ x.max

/-- The boot succeeds; it boots the members in Created, no other VM, and keeps a hold of what they cost. -/
structure BootsCreated (s : FileHolds I C) (l : ℕ) (members : List ℕ)
    (q : FileHolds I C × Except FileError Unit) : Prop where
  ok : q.2 = .ok ()
  booted : ∀ v ∈ members, s.isCreated v = true →
    ∃ vm, q.1.vms[v]? = some vm ∧ vm.inner.state = .booted ∧ vm.alive = true
  left : ∀ v, ¬(v ∈ members ∧ s.isCreated v = true) → q.1.vms[v]? = s.vms[v]?
  reserved : ∃ node kept, s.labs[l]? = some node ∧ q.1.labs = s.labs.push l node kept ∧
    ∀ x, (kept.map fun h => h.amount.on x).sum = ((members.filter s.isCreated).map (s.cost x)).sum

end FileHolds

section BootAgain
variable {s : FileHolds I C} {l fuel : ℕ} {node : LabInner Hold} {members : List ℕ} {v : ℕ}
  {vm : LabVm I C} {launches : ℕ → Except VmError (Launched I C)}

/-- A member whose operation fails is among the failures. -/
theorem mem_batch_error {op : ℕ → LabVm I C → LabVm I C × Except VmError Unit} {vms : List (LabVm I C)}
    {e : VmError} (hv : v ∈ members) (hvm : vms[v]? = some vm) (he : (op v vm).2 = .error e) :
    (v,e) ∈ (batch op vms members).2 := by
  induction members generalizing vms with
  | nil => cases hv
  | cons u members ih =>
    by_cases hne : u = v
    · subst hne
      simp only [batch,hvm,he]
      exact List.mem_cons_self
    · obtain rfl | hv := List.mem_cons.mp hv
      · exact absurd rfl hne
      cases hvu : vms[u]? with
      | none =>
        simp only [batch,hvu]
        exact ih hv hvm
      | some vmu =>
        have hmem := ih hv ((List.getElem?_set_ne hne).trans hvm : (vms.set u (op u vmu).1)[v]? = _)
        simp only [batch,hvu]
        cases (op u vmu).2 with
        | ok _ => exact hmem
        | error e' => exact List.mem_cons_of_mem _ hmem

/-- A lab with reservations more has the same members. -/
theorem graph_push (hl : s.labs[l]? = some node) (kept : List Hold) :
    (s.labs.push l node kept).graph = s.labs.graph := by
  have hbelow : (s.labs.push l node kept).graph.below = s.labs.graph.below := by
    funext k
    rw [Labs.push,graph_set_below hl]
    split
    · next hk => rw [hk,graph_below_of hl]
    · rfl
  have hitems : (s.labs.push l node kept).graph.items = s.labs.graph.items := by
    funext k
    rw [Labs.push,graph_set_items hl]
    split
    · next hk => rw [hk,graph_items_of hl]
    · rfl
  exact Nesting.ext hbelow hitems

/-- A member that is not in Created fails the batch. -/
theorem batch_boot_refused {vms : List (LabVm I C)} {charged : Option HoldRef} (hm : v ∈ members)
    (hv : vms[v]? = some vm) (hstate : vm.inner.state ≠ .created) :
    (batch (fun v vm => vm.boot (.ok none) charged (launches v)) vms members).2 ≠ [] := by
  apply List.ne_nil_of_mem
  apply mem_batch_error hm hv (e := .wrongState vm.name vm.inner.state "boot")
  unfold LabVm.boot
  rw [if_neg hstate]

/-- A boot that succeeds leaves the VM Booted. -/
theorem boot_booted {charged : Option HoldRef} {launch : Except VmError (Launched I C)}
    (hok : (vm.boot (.ok none) charged launch).2 = .ok ()) :
    (vm.boot (.ok none) charged launch).1.inner.state = .booted := by
  unfold LabVm.boot at hok ⊢
  split at hok
  · next hstate =>
    rw [if_pos hstate]
    cases launch with
    | error e => cases hok
    | ok r => simp [VmInner.boot,hstate]
  · cases hok

/-- So does one that is listed twice: its second turn finds it Booted. -/
theorem batch_boot_nodup {vms : List (LabVm I C)} {charged : Option HoldRef}
    (hknown : ∀ v ∈ members, v < vms.length)
    (hok : (batch (fun v vm => vm.boot (.ok none) charged (launches v)) vms members).2 = []) :
    members.Nodup := by
  induction members generalizing vms with
  | nil => exact List.nodup_nil
  | cons u members ih =>
    have hlt := hknown u List.mem_cons_self
    have hu : vms[u]? = some vms[u] := List.getElem?_eq_getElem hlt
    simp only [batch,hu] at hok
    cases hboot : (vms[u].boot (.ok none) charged (launches u)).2 with
    | error e =>
      rw [hboot] at hok
      cases hok
    | ok _ =>
      rw [hboot] at hok
      refine List.nodup_cons.mpr ⟨?_,?_⟩
      · intro hmem
        refine batch_boot_refused hmem (List.getElem?_set_self hlt) ?_ hok
        rw [boot_booted hboot]
        decide
      · refine ih ?_ hok
        intro v hv
        rw [List.length_set]
        exact hknown v (List.mem_cons_of_mem _ hv)

namespace FileHolds.BootsAgain

/-- Where all members are in Created they all boot. -/
theorem whole (h : s.BootsAgain members launches) (hn : members.Nodup)
    (hc : ∀ v ∈ members, s.isCreated v = true) : s.BootsWhole members launches := by
  refine ⟨hn,hc,h.launched,?_⟩
  have hfits := h.fits
  rwa [List.filter_eq_self.mpr hc] at hfits

/-- A boot with the pool's consent gets to its batch. -/
theorem reserves (members : List ℕ) (b : Bool) : ∃ hold, s.reserveJointly members (.ok b) = .ok hold ∧
    ∀ x, (hold.toList.map fun h => h.amount.on x).sum = (s.needed members).on x := by
  unfold FileHolds.reserveJointly
  split
  · next hz => exact ⟨none,rfl,fun x => (ResourceAmount.isZero_iff.mp hz x).symm⟩
  · exact ⟨_,rfl,fun x => by simp⟩

/-- The boot of a lab whose members are all in Created, and different VMs. -/
theorem boots (h : s.BootsAgain members launches) (hl : s.labs[l]? = some node) (hn : members.Nodup)
    (hc : ∀ v ∈ members, s.isCreated v = true) (b : Bool) :
    s.BootsCreated l members (s.bootWithPool l node members (.ok b) launches) := by
  have hw := h.whole hn hc
  obtain ⟨hold,hres,hsum⟩ := reserves (s := s) members b
  have hall : (s.bootMembers l node members launches).2 = [] := by
    apply batch_ok hn
    intro v hm vm hv
    obtain ⟨r,hr⟩ := boot_whole (some (.joint l node.bootReservations.length)) hw hm hv
    rw [hr]
  rw [FileHolds.bootWithPool,hres]
  dsimp only
  rw [hall]
  refine ⟨rfl,?_,?_,node,hold.toList,hl,rfl,?_⟩
  · intro v hm _
    obtain ⟨vm,hv,-⟩ := isCreated_iff.mp (hc v hm)
    obtain ⟨r,hr⟩ := boot_whole (some (.joint l node.bootReservations.length)) hw hm hv
    refine ⟨vm.launched r none (some (.joint l node.bootReservations.length)),?_,rfl,rfl⟩
    rw [FileHolds.bootMembers,batch_get,hv,List.count_eq_one_of_mem hn hm,Option.map_some,
      Function.iterate_one,hr]
  · intro v hno
    have hm : v ∉ members := fun hm => hno ⟨hm,hc v hm⟩
    rw [FileHolds.bootMembers,batch_get,List.count_eq_zero_of_not_mem hm,Function.iterate_zero,
      Option.map_id_fun,id]
  · intro x
    rw [hsum,needed_on hw,List.filter_eq_self.mpr hc]

/-- A boot that succeeds has failed for no member. -/
theorem batch_of_ok {b : Bool} (hok : (s.bootWithPool l node members (.ok b) launches).2 = .ok ()) :
    (s.bootMembers l node members launches).2 = [] := by
  obtain ⟨hold,hres,-⟩ := reserves (s := s) members b
  rw [FileHolds.bootWithPool,hres] at hok
  dsimp only at hok
  rw [batchResult] at hok
  split at hok
  · assumption
  · cases hok

theorem boots_iff (h : s.BootsAgain members launches) (hl : s.labs[l]? = some node) (b : Bool) :
    s.BootsCreated l members (s.bootWithPool l node members (.ok b) launches) ↔
      members.Nodup ∧ ∀ v ∈ members, s.isCreated v = true := by
  constructor
  · intro hboots
    have hall := batch_of_ok hboots.ok
    constructor
    · refine batch_boot_nodup ?_ hall
      intro v hv
      obtain ⟨vm,hvm,-⟩ := h.known v hv
      exact (List.getElem?_eq_some_iff.mp hvm).1
    · intro v hv
      obtain ⟨vm,hvm,-⟩ := h.known v hv
      by_contra hc
      exact batch_boot_refused hv hvm (fun hstate => hc (isCreated_iff.mpr ⟨vm,hvm,hstate⟩)) hall
  · rintro ⟨hn,hc⟩
    exact h.boots hl hn hc b

end FileHolds.BootsAgain

/-- Once its members have booted, a lab with any of them fails to boot. -/
theorem bootWithPool_again {t : FileHolds I C}
    (hbooted : ∀ v ∈ members, ∃ vm, t.vms[v]? = some vm ∧ vm.inner.state = .booted) (hne : members ≠ [])
    (answer : Except String Bool) : (t.bootWithPool l node members answer launches).2 ≠ .ok () := by
  obtain ⟨v,hm⟩ := List.exists_mem_of_ne_nil _ hne
  obtain ⟨vm,hv,hstate⟩ := hbooted v hm
  unfold FileHolds.bootWithPool
  split
  · intro hok
    cases hok
  · have hfailed : (t.bootMembers l node members launches).2 ≠ [] := by
      apply batch_boot_refused hm hv
      rw [hstate]
      decide
    dsimp only
    rw [batchResult,if_neg hfailed]
    intro hok
    cases hok

/-- A lab without VMs boots and stays as it is. -/
theorem bootWithPool_nil {t : FileHolds I C} (hl : t.labs[l]? = some node) (answer : Except String Bool) :
    t.bootWithPool l node [] answer launches = (t,.ok ()) := by
  have hset : t.labs.push l node [] = t.labs := by
    rw [Labs.push,List.append_nil]
    exact set_of_getElem? hl
  have hres : t.reserveJointly [] answer = .ok none := by
    unfold FileHolds.reserveJointly
    exact if_pos (ResourceAmount.isZero_iff.mpr ResourceAmount.default_on)
  rw [FileHolds.bootWithPool,hres]
  show (FileHolds.mk (t.labs.push l node []) t.vms,_) = _
  rw [hset]
  rfl

/-- The first boot does what it is for exactly where every member is in Created and listed once; and the
second after it changes nothing and succeeds exactly where the lab has no VM. -/
theorem lab_boots_again_iff (hl : s.labs[l]? = some node) (hm : s.collectAllVms fuel l = some members)
    (h : s.BootsAgain members launches) (b : Bool) (answer : Except String Bool)
    (again : ℕ → Except VmError (Launched I C)) :
    ∃ q q', s.step (.bootLab l fuel (.ok b) launches) = some q ∧
      q.1.step (.bootLab l fuel answer again) = some q' ∧
      (s.BootsCreated l members q ↔ members.Nodup ∧ ∀ v ∈ members, s.isCreated v = true) ∧
      (s.BootsCreated l members q ∧ q' = (q.1,.ok ()) ↔ members = []) := by
  obtain ⟨hold,hres,-⟩ := FileHolds.BootsAgain.reserves (s := s) members b
  -- the lab after the first boot, with the same members
  obtain ⟨kept,hlabs⟩ : ∃ kept, (s.bootWithPool l node members (.ok b) launches).1.labs =
      s.labs.push l node kept := by
    rw [FileHolds.bootWithPool,hres]
    exact ⟨_,rfl⟩
  have hnode : (s.bootWithPool l node members (.ok b) launches).1.labs[l]? =
      some { node with bootReservations := node.bootReservations++kept } := by
    rw [hlabs]
    exact List.getElem?_set_self (List.getElem?_eq_some_iff.mp hl).1
  have hmembers : (s.bootWithPool l node members (.ok b) launches).1.collectAllVms fuel l = some members := by
    rw [← hm]
    unfold FileHolds.collectAllVms
    rw [hlabs,graph_push hl]
  refine ⟨s.bootWithPool l node members (.ok b) launches,
    (s.bootWithPool l node members (.ok b) launches).1.bootWithPool l
      { node with bootReservations := node.bootReservations++kept } members answer again,
    ?_,?_,h.boots_iff hl b,?_⟩
  · rw [FileHolds.step,hl,Option.bind_some,hm,Option.map_some]
  · rw [FileHolds.step,hnode,Option.bind_some,hmembers,Option.map_some]
  · constructor
    · rintro ⟨hboots,hagain⟩
      by_contra hne
      refine bootWithPool_again ?_ hne answer (congrArg Prod.snd hagain)
      intro v hv
      obtain ⟨vm,hvm,hstate,-⟩ := hboots.booted v hv (((h.boots_iff hl b).mp hboots).2 v hv)
      exact ⟨vm,hvm,hstate⟩
    · rintro rfl
      exact ⟨(h.boots_iff hl b).mpr ⟨List.nodup_nil,List.forall_mem_nil _⟩,bootWithPool_nil hnode answer⟩

theorem lab_boots_again_two : ∃ (s q q' : FileHolds Unit Unit) (r r' : Except FileError Unit),
    s.vms.length = 2 ∧ s.step (.bootLab 0 1 (.ok false) fun _ => .ok someMachine) = some (q,r) ∧
    q.step (.bootLab 0 1 (.ok false) fun _ => .ok someMachine) = some (q',r') ∧
    s.BootsCreated 0 [1,0] (q,r) ∧ (q',r') ≠ (q,.ok ()) := by
  let s : FileHolds Unit Unit := ((holdMachine Unit Unit).run .start
    [.createVm 0 "a" ⟨none,none⟩,.createVm 0 "b" ⟨none,none⟩]).elim .start Prod.fst
  have h : s.BootsAgain [1,0] fun _ => .ok someMachine := by
    refine ⟨?_,fun _ _ => ⟨_,rfl⟩,?_⟩
    · intro v hv
      obtain rfl | rfl := List.mem_pair.mp hv
      · exact ⟨_,rfl,.inl rfl⟩
      · exact ⟨_,rfl,.inl rfl⟩
    · intro x
      cases x <;> decide
  obtain ⟨q,q',hq,hq',hfirst,hboth⟩ := lab_boots_again_iff (l := 0) rfl
    (rfl : s.collectAllVms 1 0 = some [1,0]) h false (.ok false) fun _ => .ok someMachine
  have hboots := hfirst.mpr ⟨by decide,by decide⟩
  exact ⟨s,q.1,q'.1,q.2,q'.2,rfl,hq,hq',hboots,fun heq => by cases hboth.mp ⟨hboots,heq⟩⟩

/-- A VM that has booted fails the boot of its lab: beside one that is in Created, and on its own. So does
one in Created that two labs have. -/
theorem booted_member_fails_boot :
    (∃ s os, (holdMachine Unit Unit).run .start [.createVm 0 "a" ⟨none,none⟩,
        .bootVm 0 (.ok false) (.ok someMachine),.createVm 0 "b" ⟨none,none⟩,
        .bootLab 0 1 (.ok false) fun _ => .ok someMachine] = some (s,os) ∧ s.running = {0,1} ∧
      os.getLast? = some (.error (.batchFailed "boot" [(0,.wrongState "a" .booted "boot")])) ∧
      s.hold (.joint 0 0) = none) ∧
    (∃ s os, (holdMachine Unit Unit).run .start [.createVm 0 "a" ⟨none,none⟩,
        .bootLab 0 1 (.ok false) fun _ => .ok someMachine,
        .bootLab 0 1 (.ok false) fun _ => .ok someMachine] = some (s,os) ∧
      os = [.ok (),.ok (),.error (.batchFailed "boot" [(0,.wrongState "a" .booted "boot")])]) ∧
    ∃ s os, (holdMachine Unit Unit).run .start [.createVm 0 "a" ⟨none,none⟩,.subLab 0 "s",.includeVm 1 0,
        .bootLab 0 2 (.ok false) fun _ => .ok someMachine] = some (s,os) ∧
      os.getLast? = some (.error (.batchFailed "boot" [(0,.wrongState "a" .booted "boot")])) := by
  refine ⟨⟨_,_,rfl,?_,rfl,rfl⟩,⟨_,_,rfl,rfl⟩,⟨_,_,rfl,rfl⟩⟩
  decide

end BootAgain
end Provium.Lab
