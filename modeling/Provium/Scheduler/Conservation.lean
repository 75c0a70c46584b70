import Provium.Scheduler.Ledger

/-! Conservation: in every interleaving the pool's four linked tables say exactly what the
live reservations and the parked acquires determine, and each step has the outcome it has in
exact arithmetic. Every critical section gets one lemma about the invariant; a step of the
system is a composition of them. -/
namespace Provium.Scheduler
open Lib

/-- The pool's books agree with the reservations that are out and the acquires that wait. -/
structure Conserved (s : System) : Prop where
  available : ∀ x, s.pool.available.on x+sumOn x s.live = s.pool.total.on x
  held : ∀ o x, s.pool.owners.weight (fun w => w.held.on x) o = sumOn x (ownedBy o s.live)
  waiting : ∀ o, s.pool.owners.weight OwnerState.waiting o =
    s.parked.countP fun p => decide (p.owner = some o)
  tickets : s.pool.waiting.entries.Perm (s.parked.map fun p => ⟨p.ticket,p.amount⟩)
  entries : ∀ o ∈ s.pool.owners,
    (∃ r ∈ s.live, r.owner = some o) ∨ ∃ p ∈ s.parked, p.owner = some o

/-- The sums and counts alone, with what makes them inductive: the owners' holdings add up, and
tickets stay ahead. -/
structure Books (s : System) : Prop where
  available : ∀ x, s.pool.available.on x+sumOn x s.live = s.pool.total.on x
  held : ∀ o x, s.pool.owners.weight (fun w => w.held.on x) o = sumOn x (ownedBy o s.live)
  owned : ∀ x, s.pool.owners.total (fun w => w.held.on x) = sumOn x (attributed s.live)
  waiting : ∀ o, s.pool.owners.weight OwnerState.waiting o =
    s.parked.countP fun p => decide (p.owner = some o)
  tickets : s.pool.waiting.entries.Perm (s.parked.map fun p => ⟨p.ticket,p.amount⟩)
  fresh : ∀ p ∈ s.parked, p.ticket ≤ s.pool.nextId

/-- The owner has some business with the pool. -/
def Involved (s : System) (o : OwnerId) : Prop :=
  (∃ r ∈ s.live, r.owner = some o) ∨ ∃ p ∈ s.parked, p.owner = some o

structure Inv (s : System) : Prop extends Books s where
  entries : ∀ o ∈ s.pool.owners, Involved s o

theorem Inv.conserved {s : System} (h : Inv s) : Conserved s :=
  ⟨h.available,h.held,h.waiting,h.tickets,h.entries⟩

namespace PoolState
variable (q : PoolState) (o o' : OwnerId) (f : OwnerState → OwnerState) (g : OwnerState → ℕ)

@[simp] theorem ownerMut_total : (q.ownerMut o f).total = q.total := rfl
@[simp] theorem ownerMut_available : (q.ownerMut o f).available = q.available := rfl
@[simp] theorem ownerMut_waiting : (q.ownerMut o f).waiting = q.waiting := rfl
@[simp] theorem ownerMut_nextId : (q.ownerMut o f).nextId = q.nextId := rfl
@[simp] theorem prune_total : (q.prune o).total = q.total := by unfold prune; split <;> rfl
@[simp] theorem prune_available : (q.prune o).available = q.available := by
  unfold prune; split <;> rfl
@[simp] theorem prune_waiting : (q.prune o).waiting = q.waiting := by unfold prune; split <;> rfl
@[simp] theorem prune_nextId : (q.prune o).nextId = q.nextId := by unfold prune; split <;> rfl

theorem owner_weight (hg : g default = 0) : g (q.owner o) = q.owners.weight g o := by
  unfold owner Table.weight
  cases q.owners.lookup o <;> simp [hg]

theorem ownerMut_weight : (q.ownerMut o f).owners.weight g o' =
    if o' = o then g (f (q.owner o)) else q.owners.weight g o' := by
  split
  · next h => subst h; exact Table.weight_insert_self g q.owners o' _
  · next h => exact Table.weight_insert_ne g q.owners _ h

theorem ownerMut_sum (hg : g default = 0) :
    (q.ownerMut o f).owners.total g+g (q.owner o) = q.owners.total g+g (f (q.owner o)) := by
  rw [q.owner_weight o g hg]
  exact Table.total_insert g q.owners o _

/-- An update that a measure does not see changes no weight of it. -/
theorem ownerMut_weight_eq (hg : g default = 0) (h : g (f (q.owner o)) = g (q.owner o)) :
    (q.ownerMut o f).owners.weight g o' = q.owners.weight g o' := by
  rw [ownerMut_weight]
  split
  · next he => rw [he,h,q.owner_weight o g hg]
  · rfl

theorem mem_ownerMut : o' ∈ (q.ownerMut o f).owners ↔ o' = o ∨ o' ∈ q.owners :=
  AList.mem_insert _

/-- Pruning forgets an entry only when it says nothing. -/
theorem prune_weight (hg : ∀ w : OwnerState, w.isIdle → g w = 0) :
    (q.prune o).owners.weight g o' = q.owners.weight g o' := by
  unfold prune
  split
  · next h =>
    obtain ⟨w,hw,hi⟩ := (Option.any_eq_true _ _).mp h
    by_cases he : o' = o
    · subst he
      simp [Table.weight,hw,hg w (of_decide_eq_true hi)]
    · exact Table.weight_erase_ne g q.owners he
  · rfl

theorem prune_sum (hg : ∀ w : OwnerState, w.isIdle → g w = 0) :
    (q.prune o).owners.total g = q.owners.total g := by
  have h := Table.total_erase g q.owners o
  unfold prune
  split
  · next hp =>
    obtain ⟨w,hw,hi⟩ := (Option.any_eq_true _ _).mp hp
    have h0 : q.owners.weight g o = 0 := by simp [Table.weight,hw,hg w (of_decide_eq_true hi)]
    rw [h0] at h
    exact h
  · rfl

/-- What pruning leaves behind is an old entry, and not an idle one of this owner. -/
theorem mem_of_mem_prune (h : o' ∈ (q.prune o).owners) :
    o' ∈ q.owners ∧ (o' = o → ¬ (q.owner o).isIdle) := by
  unfold prune at h
  split at h
  · obtain ⟨hne,hm⟩ := AList.mem_erase.mp h
    exact ⟨hm,fun he => absurd he hne⟩
  · next hi =>
    refine ⟨h,?_⟩
    rintro rfl hw
    apply hi
    obtain ⟨w,hl⟩ := Option.isSome_iff_exists.mp (AList.lookup_isSome.mpr h)
    simpa [owner,hl] using hw

end PoolState

theorem held_default (x : Axis) : (default : OwnerState).held.on x = 0 := by cases x <;> rfl

theorem held_idle (x : Axis) (w : OwnerState) (h : w.isIdle) : w.held.on x = 0 :=
  ResourceAmount.isZero_iff.mp h.1 x

theorem waiting_idle (w : OwnerState) (h : w.isIdle) : w.waiting = 0 := h.2

/-- An owner whose entry is not idle holds or waits. -/
theorem Books.involved {s : System} (h : Books s) {o : OwnerId} (hi : ¬ (s.pool.owner o).isIdle) :
    Involved s o := by
  by_contra hc
  rw [Involved] at hc
  push Not at hc
  apply hi
  constructor
  · rw [ResourceAmount.isZero_iff]
    intro x
    rw [PoolState.owner_weight _ o (fun w => w.held.on x) (held_default x),h.held o x,sumOn_eq_zero]
    intro r hr
    obtain ⟨hm,ho⟩ := List.mem_filter.mp hr
    exact absurd (of_decide_eq_true ho) (hc.1 r hm)
  · rw [PoolState.owner_weight _ o OwnerState.waiting rfl,h.waiting o,List.countP_eq_zero]
    intro p hp
    simpa using hc.2 p hp

/-- Pruning restores the rule that entries are there for a reason. -/
theorem Books.prune {q : PoolState} {live : List Reservation} {parked : List Parked}
    (h : Books ⟨q,live,parked⟩) {o : OwnerId}
    (he : ∀ o' ∈ q.owners, o' ≠ o → Involved ⟨q,live,parked⟩ o') :
    Inv ⟨q.prune o,live,parked⟩ := by
  refine ⟨⟨fun x => ?_,fun o' x => ?_,fun x => ?_,fun o' => ?_,?_,?_⟩,fun o' ho => ?_⟩
  · simpa using h.available x
  · exact (PoolState.prune_weight _ _ _ _ (held_idle x)).trans (h.held o' x)
  · exact (PoolState.prune_sum _ _ _ (held_idle x)).trans (h.owned x)
  · exact (PoolState.prune_weight _ _ _ _ waiting_idle).trans (h.waiting o')
  · simpa using h.tickets
  · simpa using h.fresh
  · obtain ⟨hm,hidle⟩ := PoolState.mem_of_mem_prune _ _ _ ho
    by_cases heq : o' = o
    · subst heq
      exact h.involved (hidle rfl)
    · exact he o' hm heq

/-- What identifies a parked acquire to the pool. -/
def Parked.request (p : Parked) : ℕ × Option OwnerId × ResourceAmount :=
  (p.ticket,p.owner,p.amount)

/-- Who waits for what is all that counts; whether a wake-up is owed is not the pool's business. -/
theorem Inv.congr_parked {q : PoolState} {live : List Reservation} {parked parked' : List Parked}
    (h : Inv ⟨q,live,parked⟩) (hp : parked'.map Parked.request = parked.map Parked.request) :
    Inv ⟨q,live,parked'⟩ := by
  have hcount (o : OwnerId) : (parked'.countP fun p => decide (p.owner = some o)) =
      parked.countP fun p => decide (p.owner = some o) := by
    have := congrArg (List.countP fun k => decide (k.2.1 = some o)) hp
    rw [List.countP_map,List.countP_map] at this
    exact this
  have hkeys : (parked'.map fun p => (⟨p.ticket,p.amount⟩ : Σ _ : ℕ, ResourceAmount)) =
      parked.map fun p => ⟨p.ticket,p.amount⟩ := by
    have := congrArg (List.map fun k => (⟨k.1,k.2.2⟩ : Σ _ : ℕ, ResourceAmount)) hp
    rw [List.map_map,List.map_map] at this
    exact this
  have hmem {p : Parked} (hm : p ∈ parked) : ∃ p' ∈ parked', p'.request = p.request := by
    have := List.mem_map_of_mem (f := Parked.request) hm
    rw [← hp] at this
    exact List.mem_map.mp this
  refine ⟨⟨h.available,h.held,h.owned,fun o => (h.waiting o).trans (hcount o).symm,
    by simpa only [hkeys] using h.tickets,?_⟩,?_⟩
  · intro p' hm'
    have := List.mem_map_of_mem (f := Parked.request) hm'
    rw [hp] at this
    obtain ⟨p,hm,he⟩ := List.mem_map.mp this
    have ht : p.ticket = p'.ticket := congrArg (·.1) he
    exact ht ▸ h.fresh p hm
  · intro o ho
    obtain hr | ⟨p,hm,hpo⟩ := h.entries o ho
    · exact .inl hr
    · obtain ⟨p',hm',he⟩ := hmem hm
      exact .inr ⟨p',hm',(congrArg (·.2.1) he).trans hpo⟩

theorem Inv.mint {s : System} (h : Inv s) : Inv ⟨s.pool.mint.2,s.live,s.parked⟩ :=
  ⟨⟨h.available,h.held,h.owned,h.waiting,h.tickets,
    fun p hp => (h.fresh p hp).trans (Nat.le_succ _)⟩,h.entries⟩

theorem Inv.tickets_nodup {s : System} (h : Inv s) : (s.parked.map Parked.ticket).Nodup := by
  have hp := h.tickets.map Sigma.fst
  rw [List.map_map] at hp
  exact hp.nodup_iff.mp s.pool.waiting.nodupKeys

/-- Joining the waiting set. -/
theorem Inv.enqueue {s : System} (h : Inv s) (owner : Option OwnerId) (amount : ResourceAmount) :
    Inv ⟨(s.pool.enqueue owner amount none).2,s.live,
      ⟨s.pool.nextId+1,owner,amount,false⟩::s.parked⟩ := by
  have hnew : s.pool.nextId+1 ∉ s.pool.waiting := by
    intro hm
    have := (h.tickets.map Sigma.fst).mem_iff.mp hm
    simp only [List.map_map,List.mem_map,Function.comp_apply] at this
    obtain ⟨p,hp,ht⟩ := this
    have := h.fresh p hp
    omega
  have htickets : (s.pool.waiting.insert (s.pool.nextId+1) amount).entries.Perm
      (⟨s.pool.nextId+1,amount⟩::s.parked.map fun p => ⟨p.ticket,p.amount⟩) := by
    rw [AList.entries_insert_of_notMem hnew]
    exact h.tickets.cons _
  have hfresh : ∀ p ∈ (⟨s.pool.nextId+1,owner,amount,false⟩::s.parked : List Parked),
      p.ticket ≤ s.pool.nextId+1 := by
    intro p hp
    rcases List.mem_cons.mp hp with rfl | hp
    · exact le_rfl
    · exact (h.fresh p hp).trans (Nat.le_succ _)
  cases owner with
  | none =>
    refine ⟨⟨h.available,h.held,h.owned,fun o => ?_,htickets,hfresh⟩,fun o ho => ?_⟩
    · exact (h.waiting o).trans (by simp)
    · exact (h.entries o ho).imp id fun ⟨p,hp,he⟩ => ⟨p,List.mem_cons_of_mem _ hp,he⟩
  | some o =>
    let q : PoolState := { s.pool.mint.2 with
      waiting := s.pool.waiting.insert (s.pool.nextId+1) amount }
    let f : OwnerState → OwnerState := fun w => { w with waiting := w.waiting+1 }
    refine ⟨⟨h.available,fun o' x => ?_,fun x => ?_,fun o' => ?_,htickets,hfresh⟩,fun o' ho => ?_⟩
    · exact (PoolState.ownerMut_weight_eq q o o' f _ (held_default x) rfl).trans (h.held o' x)
    · have := PoolState.ownerMut_sum q o f (fun w => w.held.on x) (held_default x)
      exact (Nat.add_right_cancel this).trans (h.owned x)
    · refine (PoolState.ownerMut_weight q o o' f _).trans ?_
      rw [List.countP_cons]
      by_cases he : o' = o
      · subst he
        simp only [if_true,decide_true]
        rw [← h.waiting o']
        exact congrArg (·+1) (PoolState.owner_weight q o' OwnerState.waiting rfl)
      · have hne : ¬ o = o' := fun hc => he hc.symm
        simp only [he,hne,if_false,Option.some.injEq,decide_false,Bool.false_eq_true,Nat.add_zero]
        exact h.waiting o'
    · rcases (PoolState.mem_ownerMut q o o' f).mp ho with rfl | ho
      · exact .inr ⟨_,List.mem_cons_self,rfl⟩
      · exact (h.entries o' ho).imp id fun ⟨p,hp,he⟩ => ⟨p,List.mem_cons_of_mem _ hp,he⟩

theorem leave_eq_self {parked : List Parked} {t : ℕ} (h : ∀ p ∈ parked, p.ticket ≠ t) :
    leave parked (some t) = parked :=
  List.filter_eq_self.mpr fun p hp => decide_eq_true (h p hp)

/-- A ticket names one parked acquire. -/
theorem perm_leave {parked : List Parked} {p : Parked} (hn : (parked.map Parked.ticket).Nodup)
    (hp : p ∈ parked) : parked.Perm (p::leave parked (some p.ticket)) := by
  induction parked with
  | nil => cases hp
  | cons a as ih =>
    obtain ⟨ha,hn⟩ := List.nodup_cons.mp hn
    rcases List.mem_cons.mp hp with rfl | hp
    · have hl : leave (p::as) (some p.ticket) = as := by
        simp only [leave,List.filter_cons,ne_eq,not_true_eq_false,decide_false]
        exact leave_eq_self fun b hb he => ha (he ▸ List.mem_map_of_mem hb)
      rw [hl]
    · have hne : a.ticket ≠ p.ticket := fun he => ha (he ▸ List.mem_map_of_mem hp)
      have hl : leave (a::as) (some p.ticket) = a::leave as (some p.ticket) := by
        simp [leave,hne]
      rw [hl]
      exact ((ih hn hp).cons a).trans (List.Perm.swap p a _)

/-- Leaving the waiting set, whether granted or refused. -/
theorem Inv.withdraw {s : System} (h : Inv s) {p : Parked} (hp : p ∈ s.parked) :
    Inv ⟨s.pool.withdraw p.owner (some p.ticket),s.live,leave s.parked (some p.ticket)⟩ := by
  have hperm := perm_leave h.tickets_nodup hp
  have htickets : (s.pool.waiting.erase p.ticket).entries.Perm
      ((leave s.parked (some p.ticket)).map fun p => ⟨p.ticket,p.amount⟩) := by
    have := List.Perm.kerase (a := p.ticket) s.pool.waiting.nodupKeys
      (h.tickets.trans (hperm.map _))
    exact this.trans (by rw [List.map_cons,List.kerase_cons_eq (by rfl)])
  have hfresh : ∀ p' ∈ leave s.parked (some p.ticket), p'.ticket ≤ s.pool.nextId :=
    fun p' hp' => h.fresh p' (List.mem_of_mem_filter hp')
  have hcount (o : OwnerId) := h.waiting o
  simp only [hperm.countP_eq,List.countP_cons] at hcount
  have hentries : ∀ o ∈ s.pool.owners, p.owner ≠ some o →
      Involved ⟨s.pool,s.live,leave s.parked (some p.ticket)⟩ o := by
    intro o ho hne
    obtain hr | ⟨p',hp',he⟩ := h.entries o ho
    · exact .inl hr
    · rcases List.mem_cons.mp (hperm.mem_iff.mp hp') with rfl | hm
      · exact absurd he hne
      · exact .inr ⟨p',hm,he⟩
  cases hown : p.owner with
  | none =>
    rw [hown] at hcount hentries
    simp only [reduceCtorEq,decide_false,Bool.false_eq_true,if_false,Nat.add_zero] at hcount
    exact ⟨⟨h.available,h.held,h.owned,hcount,htickets,hfresh⟩,
      fun o ho => hentries o ho (by simp)⟩
  | some o =>
    rw [hown] at hcount hentries
    let q : PoolState := { s.pool with waiting := s.pool.waiting.erase p.ticket }
    let f : OwnerState → OwnerState := fun w => { w with waiting := w.waiting-1 }
    have hbooks : Books ⟨q.ownerMut o f,s.live,leave s.parked (some p.ticket)⟩ := by
      refine ⟨h.available,fun o' x => ?_,fun x => ?_,fun o' => ?_,htickets,hfresh⟩
      · exact (PoolState.ownerMut_weight_eq q o o' f _ (held_default x) rfl).trans (h.held o' x)
      · have := PoolState.ownerMut_sum q o f (fun w => w.held.on x) (held_default x)
        exact (Nat.add_right_cancel this).trans (h.owned x)
      · refine (PoolState.ownerMut_weight q o o' f _).trans ?_
        by_cases he : o' = o
        · subst he
          have hc := hcount o'
          simp only [if_true,decide_true] at hc ⊢
          change (q.owner o').waiting-1 = _
          rw [PoolState.owner_weight q o' OwnerState.waiting rfl]
          exact Nat.sub_eq_of_eq_add hc
        · have hne : ¬ o = o' := fun hc => he hc.symm
          simpa [he,hne] using hcount o'
    refine hbooks.prune fun o' ho hne => ?_
    rcases (PoolState.mem_ownerMut q o o' f).mp ho with he | hm
    · exact absurd he hne
    · exact hentries o' hm fun hc => hne (Option.some.inj hc).symm

/-- A grant moves an amount that is free into the books of its owner. -/
theorem Inv.grant {s : System} (h : Inv s) (owner : Option OwnerId) {amount : ResourceAmount}
    (hfit : amount.fitsIn s.pool.available) :
    Inv ⟨s.pool.grant owner amount,⟨amount,owner⟩::s.live,s.parked⟩ := by
  have hfit' := ResourceAmount.fitsIn_iff.mp hfit
  have havail (x : Axis) : (s.pool.available.saturatingSub amount).on x+
      sumOn x (⟨amount,owner⟩::s.live) = s.pool.total.on x := by
    have := h.available x
    have := hfit' x
    simp only [ResourceAmount.saturatingSub_on,sumOn_cons]
    omega
  have hentries : ∀ o ∈ s.pool.owners, Involved ⟨s.pool,⟨amount,owner⟩::s.live,s.parked⟩ o :=
    fun o ho => (h.entries o ho).imp (fun ⟨r,hr,he⟩ => ⟨r,List.mem_cons_of_mem _ hr,he⟩) id
  cases owner with
  | none =>
    refine ⟨⟨havail,fun o x => ?_,fun x => ?_,h.waiting,h.tickets,h.fresh⟩,hentries⟩
    · exact (h.held o x).trans (by simp [ownedBy])
    · exact (h.owned x).trans (by simp [attributed])
  | some o =>
    let q : PoolState := { s.pool with available := s.pool.available.saturatingSub amount }
    let f : OwnerState → OwnerState := fun w => { w with held := w.held.saturatingAdd amount }
    -- What `o` holds is part of what is out, and the grant still fits below the total.
    have hexact (x : Axis) : ((q.owner o).held.saturatingAdd amount).on x =
        (q.owner o).held.on x+amount.on x := by
      apply ResourceAmount.saturatingAdd_exact
      have hw := PoolState.owner_weight q o (fun w => w.held.on x) (held_default x)
      have hh : q.owners.weight (fun w => w.held.on x) o = _ := h.held o x
      have hle : sumOn x (ownedBy o s.live) ≤ sumOn x s.live := sumOn_filter_le x _ _
      have := h.available x
      have := hfit' x
      have := s.pool.total.on_le_max x
      omega
    refine ⟨⟨havail,fun o' x => ?_,fun x => ?_,fun o' => ?_,h.tickets,h.fresh⟩,fun o' ho => ?_⟩
    · refine (PoolState.ownerMut_weight q o o' f _).trans ?_
      by_cases he : o' = o
      · subst he
        have hw := PoolState.owner_weight q o' (fun w => w.held.on x) (held_default x)
        have hh : q.owners.weight (fun w => w.held.on x) o' = _ := h.held o' x
        simp only [if_true,ownedBy,List.filter_cons,decide_true,sumOn_cons]
        rw [hexact x,hw,hh]
        exact Nat.add_comm _ _
      · have hne : ¬ o = o' := fun hc => he hc.symm
        simpa [he,hne,ownedBy] using h.held o' x
    · have hsum := PoolState.ownerMut_sum q o f (fun w => w.held.on x) (held_default x)
      have ho : q.owners.total (fun w => w.held.on x) = _ := h.owned x
      have he : (f (q.owner o)).held.on x = _ := hexact x
      simp only [attributed,List.filter_cons,Option.isSome_some,if_true,sumOn_cons] at ho ⊢
      change (q.ownerMut o f).owners.total (fun w => w.held.on x) = _
      omega
    · exact (PoolState.ownerMut_weight_eq q o o' f _ rfl rfl).trans (h.waiting o')
    · rcases (PoolState.mem_ownerMut q o o' f).mp ho with rfl | ho
      · exact .inl ⟨_,List.mem_cons_self,rfl⟩
      · exact hentries o' ho

/-- A live reservation can be given back without clipping: neither the addition saturates nor
does the cap at the total apply. -/
theorem Books.release_exact {s : System} (h : Books s) {r : Reservation} (hr : r ∈ s.live)
    (x : Axis) : (s.pool.available.saturatingAdd r.amount).on x =
      s.pool.available.on x+r.amount.on x ∧
    s.pool.available.on x+r.amount.on x ≤ s.pool.total.on x := by
  have havail := h.available x
  have hle := on_le_sumOn (x := x) hr
  have hmax := s.pool.total.on_le_max x
  exact ⟨ResourceAmount.saturatingAdd_exact (by omega),by omega⟩

/-- Dropping a reservation. -/
theorem Inv.release {s : System} (h : Inv s) {r : Reservation} (hr : r ∈ s.live) :
    Inv ⟨s.pool.release r.amount r.owner,s.live.erase r,s.parked⟩ := by
  let q : PoolState := { s.pool with available := s.pool.available.saturatingAdd r.amount }
  have hcap : q.available.fitsIn q.total := by
    rw [ResourceAmount.fitsIn_iff]
    intro x
    obtain ⟨he,hle⟩ := h.release_exact hr x
    exact he.trans_le hle
  have hrel : s.pool.release r.amount r.owner = r.owner.elim q fun o =>
      (q.ownerMut o fun w => { w with held := w.held.saturatingSub r.amount }).prune o := by
    have hq : (if ¬ q.available.fitsIn q.total then { q with available := q.total } else q) = q :=
      if_neg (not_not_intro hcap)
    cases r.owner with
    | none => exact hq
    | some o => exact congrArg (fun p : PoolState =>
        (p.ownerMut o fun w => { w with held := w.held.saturatingSub r.amount }).prune o) hq
  have havail (x : Axis) : q.available.on x+sumOn x (s.live.erase r) = q.total.on x := by
    have hs := sumOn_erase (x := x) hr
    have ha := h.available x
    have he : q.available.on x = _ := (h.release_exact hr x).1
    change q.available.on x+_ = s.pool.total.on x
    omega
  have hheld (o : OwnerId) (x : Axis) := h.held o x
  have howned (x : Axis) := h.owned x
  simp only [ownedBy,attributed,sumOn_filter_erase hr] at hheld howned
  have hentries : ∀ o ∈ s.pool.owners, r.owner ≠ some o →
      Involved ⟨s.pool,s.live.erase r,s.parked⟩ o := by
    intro o ho hne
    refine (h.entries o ho).imp (fun ⟨r',hr',he⟩ => ⟨r',?_,he⟩) id
    have hr'' : r' ≠ r := by rintro rfl; exact hne he
    exact (List.mem_erase_of_ne hr'').mpr hr'
  rw [hrel]
  cases hown : r.owner with
  | none =>
    rw [hown] at hheld howned hentries
    refine ⟨⟨havail,fun o x => ?_,fun x => ?_,h.waiting,h.tickets,h.fresh⟩,
      fun o ho => hentries o ho (by simp)⟩
    · exact (hheld o x).trans (by simp [ownedBy])
    · exact (howned x).trans (by simp [attributed])
  | some o =>
    rw [hown] at hheld howned hentries
    let f : OwnerState → OwnerState := fun w => { w with held := w.held.saturatingSub r.amount }
    have howner (x : Axis) : (q.owner o).held.on x =
        r.amount.on x+sumOn x (ownedBy o (s.live.erase r)) := by
      rw [PoolState.owner_weight q o (fun w => w.held.on x) (held_default x)]
      exact (hheld o x).trans (by simp [ownedBy])
    have hbooks : Books ⟨q.ownerMut o f,s.live.erase r,s.parked⟩ := by
      refine ⟨havail,fun o' x => ?_,fun x => ?_,fun o' => ?_,h.tickets,h.fresh⟩
      · refine (PoolState.ownerMut_weight q o o' f _).trans ?_
        by_cases he : o' = o
        · subst he
          have hw := howner x
          simp only [if_true]
          change ((q.owner o').held.saturatingSub r.amount).on x = _
          rw [ResourceAmount.saturatingSub_on,hw]
          exact Nat.add_sub_cancel_left _ _
        · have hne : ¬ o = o' := fun hc => he hc.symm
          simp only [he,if_false]
          exact (hheld o' x).trans (by simp [hne,ownedBy])
      · have hsum := PoolState.ownerMut_sum q o f (fun w => w.held.on x) (held_default x)
        have ho : q.owners.total (fun w => w.held.on x) = _ := howned x
        have hf : (f (q.owner o)).held.on x = (q.owner o).held.on x-r.amount.on x :=
          ResourceAmount.saturatingSub_on _ _ _
        have hw := howner x
        simp only [Option.isSome_some,if_true] at ho
        change (q.ownerMut o f).owners.total (fun w => w.held.on x) =
          sumOn x ((s.live.erase r).filter fun r => r.owner.isSome)
        omega
      · exact (PoolState.ownerMut_weight_eq q o o' f _ rfl rfl).trans (h.waiting o')
    refine hbooks.prune fun o' ho hne => ?_
    rcases (PoolState.mem_ownerMut q o o' f).mp ho with he | hm
    · exact absurd he hne
    · exact hentries o' hm fun hc => hne (Option.some.inj hc).symm

/-- The free amount is what the ledger leaves. -/
theorem Books.fits_iff {s : System} (h : Books s) {amount : ResourceAmount} :
    s.ledger.Fits amount ↔ amount.fitsIn s.pool.available := by
  rw [ResourceAmount.fitsIn_iff]
  refine forall_congr' fun x => ?_
  have := h.available x
  change sumOn x s.live+amount.on x ≤ s.pool.total.on x ↔ _
  omega

theorem countHolders_eq_none {os : List OwnerState} {n : ℕ} :
    PoolState.countHolders os n = none ↔ ∃ w ∈ os, ¬ w.held.isZero ∧ w.waiting = 0 := by
  induction os generalizing n with
  | nil => simp [PoolState.countHolders]
  | cons w os ih =>
    unfold PoolState.countHolders
    split
    · next hz => simp [ih,hz]
    · next hz =>
      split
      · next hw => simp [hz,hw]
      · next hw => simp [ih,hw]

theorem countHolders_eq_some {os : List OwnerState} {n m : ℕ}
    (h : PoolState.countHolders os n = some m) :
    m = n+os.countP fun w => decide (¬ w.held.isZero) := by
  induction os generalizing n with
  | nil => simpa [PoolState.countHolders] using h.symm
  | cons w os ih =>
    unfold PoolState.countHolders at h
    split at h
    · next hz => simp [ih h,hz]
    · next hz =>
      split at h
      · cases h
      · rw [ih h,List.countP_cons,if_pos (decide_eq_true hz)]
        omega

/-- The verdict's three tests, as one condition on the tables. -/
theorem deadlock_isSome_iff {q : PoolState} {requested : ResourceAmount} :
    (q.deadlock requested).isSome ↔
      q.owners.values.foldl (fun acc o => acc.saturatingAdd o.held) default =
        q.total.saturatingSub q.available ∧
      (∃ w ∈ q.owners.values, ¬ w.held.isZero) ∧
      (∀ w ∈ q.owners.values, ¬ w.held.isZero → w.waiting ≠ 0) ∧
      ∀ a ∈ q.waiting.values, ¬ a.fitsIn q.available := by
  simp only [PoolState.deadlock]
  split
  · next h => simp [h]
  · next h =>
    rw [not_not] at h
    cases hc : PoolState.countHolders q.owners.values 0 with
    | none =>
      obtain ⟨w,hw,hz,h0⟩ := countHolders_eq_none.mp hc
      simp only [Option.isSome_none,Bool.false_eq_true,false_iff]
      rintro ⟨-,-,hp,-⟩
      exact hp w hw hz h0
    | some n =>
      have hn := countHolders_eq_some hc
      have hp : ∀ w ∈ q.owners.values, ¬ w.held.isZero → w.waiting ≠ 0 := by
        intro w hw hz h0
        have hnone := countHolders_eq_none (n := 0).mpr ⟨w,hw,hz,h0⟩
        rw [hc] at hnone
        cases hnone
      have hex : n ≠ 0 ↔ ∃ w ∈ q.owners.values, ¬ w.held.isZero := by
        rw [hn,Nat.zero_add,← Nat.pos_iff_ne_zero,List.countP_pos_iff]
        simp
      dsimp only
      split
      · next h0 => simp [← hex,h0]
      · next h0 =>
        split
        · next hf =>
          obtain ⟨a,ha,hfit⟩ := List.any_eq_true.mp hf
          simp only [Option.isSome_none,Bool.false_eq_true,false_iff]
          rintro ⟨-,-,-,hu⟩
          exact hu a ha (of_decide_eq_true hfit)
        · next hf =>
          simp only [Option.isSome_some,true_iff]
          refine ⟨h,hex.mp h0,hp,fun a ha hfit => hf ?_⟩
          exact List.any_eq_true.mpr ⟨a,ha,decide_eq_true hfit⟩

/-- The verdict's sum of what the owners hold is never clipped. -/
theorem Books.sum_held_on {s : System} (h : Books s) (x : Axis) :
    (s.pool.owners.values.foldl (fun (acc : ResourceAmount) o => acc.saturatingAdd o.held)
      default).on x = sumOn x (attributed s.live) := by
  have ho : (s.pool.owners.values.map fun w => w.held.on x).sum = _ := h.owned x
  have hle : sumOn x (attributed s.live) ≤ sumOn x s.live := sumOn_filter_le x _ _
  have := h.available x
  have := s.pool.total.on_le_max x
  rw [ResourceAmount.foldl_saturatingAdd_on,ResourceAmount.default_on,ho]
  omega

/-- What is not available is out. -/
theorem Books.out_on {s : System} (h : Books s) (x : Axis) :
    (s.pool.total.saturatingSub s.pool.available).on x = sumOn x s.live := by
  have := h.available x
  rw [ResourceAmount.saturatingSub_on]
  omega

/-- The comparison of the owned sum with what is out detects anonymous holders exactly. -/
theorem Books.owned_eq_iff {s : System} (h : Books s) :
    s.pool.owners.values.foldl (fun acc o => acc.saturatingAdd o.held) default =
        s.pool.total.saturatingSub s.pool.available ↔
      ∀ r ∈ s.live, r.owner = none → r.amount.isZero := by
  rw [ResourceAmount.ext_on_iff]
  simp only [h.sum_held_on,h.out_on,attributed,sumOn_filter_eq]
  constructor
  · intro he r hr hn
    rw [ResourceAmount.isZero_iff]
    exact fun x => he x r hr (by simp [hn])
  · intro he x r hr hn
    exact ResourceAmount.isZero_iff.mp (he r hr (by simpa using hn)) x

/-- The entry of an owner is not zero exactly when the owner holds something. -/
theorem Books.holds_iff {s : System} (h : Books s) {o : OwnerId} :
    s.ledger.Holds o ↔ ¬ (s.pool.owner o).held.isZero := by
  have hw (x : Axis) : (s.pool.owner o).held.on x = sumOn x (ownedBy o s.live) :=
    (PoolState.owner_weight _ o (fun w => w.held.on x) (held_default x)).trans (h.held o x)
  simp only [ResourceAmount.isZero_iff,hw,sumOn_eq_zero,ownedBy,List.mem_filter,decide_eq_true_eq]
  constructor
  · rintro ⟨r,hr,ho,hz⟩ hall
    exact hz (ResourceAmount.isZero_iff.mpr fun x => hall x r ⟨hr,ho⟩)
  · intro hall
    by_contra hc
    apply hall
    intro x r hr
    by_contra hne
    exact hc ⟨r,hr.1,hr.2,fun hz => hne (ResourceAmount.isZero_iff.mp hz x)⟩

/-- The parked count of an owner is zero exactly when no acquire of it waits. -/
theorem Books.waits_iff {s : System} (h : Books s) {o : OwnerId} :
    s.ledger.Waits o ↔ (s.pool.owner o).waiting ≠ 0 := by
  have hw : (s.pool.owner o).waiting = s.parked.countP fun p => decide (p.owner = some o) :=
    (PoolState.owner_weight _ o OwnerState.waiting rfl).trans (h.waiting o)
  rw [hw,← Nat.pos_iff_ne_zero,List.countP_pos_iff]
  simp [Ledger.Waits,System.ledger]

theorem Books.mem_waiting_values {s : System} (h : Books s) {a : ResourceAmount} :
    a ∈ s.pool.waiting.values ↔ ∃ p ∈ s.parked, p.amount = a := by
  have hp := (h.tickets.map Sigma.snd).mem_iff (a := a)
  rw [List.map_map,List.mem_map (l := s.parked)] at hp
  exact hp

/-- The verdict is given exactly in hold-and-wait. -/
theorem Books.deadlock_iff {s : System} (h : Books s) (requested : ResourceAmount) :
    (s.pool.deadlock requested).isSome ↔ s.ledger.Deadlocked := by
  rw [deadlock_isSome_iff,h.owned_eq_iff]
  have hval {w : OwnerState} (hw : w ∈ s.pool.owners.values) : ∃ o, s.pool.owner o = w := by
    obtain ⟨o,ho⟩ := Table.mem_values.mp hw
    exact ⟨o,by simp [PoolState.owner,ho]⟩
  have hentry {o : OwnerId} (ho : ¬ (s.pool.owner o).held.isZero) :
      s.pool.owner o ∈ s.pool.owners.values := by
    refine Table.mem_values.mpr ⟨o,?_⟩
    unfold PoolState.owner at ho ⊢
    cases hl : s.pool.owners.lookup o with
    | none => exact absurd (by rw [hl]; decide) ho
    | some w => rfl
  constructor
  · rintro ⟨hanon,⟨w,hw,hz⟩,hpark,hunfit⟩
    refine ⟨?_,fun r hr hrz => ?_,fun p hp => ?_⟩
    · obtain ⟨o,rfl⟩ := hval hw
      obtain ⟨r,hr,-,hrz⟩ := h.holds_iff.mpr hz
      exact ⟨r,hr,hrz⟩
    · cases ho : r.owner with
      | none => exact absurd (hanon r hr ho) hrz
      | some o =>
        have hz := h.holds_iff.mp ⟨r,hr,ho,hrz⟩
        exact ⟨o,rfl,h.waits_iff.mpr (hpark _ (hentry hz) hz)⟩
    · rw [h.fits_iff]
      exact hunfit _ (h.mem_waiting_values.mpr ⟨p,hp,rfl⟩)
  · rintro ⟨⟨r,hr,hrz⟩,hstuck,hunfit⟩
    refine ⟨fun r' hr' hn => ?_,?_,fun w hw hz => ?_,fun a ha => ?_⟩
    · by_contra hz
      obtain ⟨o,ho,-⟩ := hstuck r' hr' hz
      rw [hn] at ho
      cases ho
    · obtain ⟨o,ho,-⟩ := hstuck r hr hrz
      have hz := h.holds_iff.mp ⟨r,hr,ho,hrz⟩
      exact ⟨_,hentry hz,hz⟩
    · obtain ⟨o,rfl⟩ := hval hw
      obtain ⟨r',hr',ho',hrz'⟩ := h.holds_iff.mpr hz
      obtain ⟨o',ho'',hwait⟩ := hstuck r' hr' hrz'
      rw [ho'] at ho''
      cases ho''
      exact h.waits_iff.mp hwait
    · obtain ⟨p,hp,rfl⟩ := h.mem_waiting_values.mp ha
      rw [← h.fits_iff]
      exact hunfit p hp

namespace PoolState
variable (q : PoolState) (owner : Option OwnerId) (amount : ResourceAmount) (ticket : Option ℕ)

@[simp] theorem enqueue_total : (q.enqueue owner amount ticket).2.total = q.total := by
  cases ticket <;> cases owner <;> rfl
@[simp] theorem enqueue_nextId : (q.enqueue owner amount ticket).2.nextId =
    if ticket = none then q.nextId+1 else q.nextId := by
  cases ticket <;> cases owner <;> rfl
@[simp] theorem enqueue_ticket : (q.enqueue owner amount ticket).1 =
    ticket.getD (q.nextId+1) := by
  cases ticket <;> cases owner <;> rfl
@[simp] theorem withdraw_total : (q.withdraw owner ticket).total = q.total := by
  cases ticket <;> cases owner <;> simp [withdraw]
@[simp] theorem withdraw_available : (q.withdraw owner ticket).available = q.available := by
  cases ticket <;> cases owner <;> simp [withdraw]
@[simp] theorem withdraw_nextId : (q.withdraw owner ticket).nextId = q.nextId := by
  cases ticket <;> cases owner <;> simp [withdraw]
@[simp] theorem grant_total : (q.grant owner amount).total = q.total := by cases owner <;> rfl
@[simp] theorem grant_nextId : (q.grant owner amount).nextId = q.nextId := by cases owner <;> rfl
@[simp] theorem release_total : (q.release amount owner).total = q.total := by
  cases owner <;> simp only [release] <;> split <;> simp
@[simp] theorem release_nextId : (q.release amount owner).nextId = q.nextId := by
  cases owner <;> simp only [release] <;> split <;> simp

end PoolState

/-- The ticket an acquire brings to its next pass is its own. -/
def Registered (s : System) (owner : Option OwnerId) (amount : ResourceAmount) :
    Option ℕ → Prop
  | none => True
  | some t => ∃ p ∈ s.parked, p.ticket = t ∧ p.owner = owner ∧ p.amount = amount

section Pass
variable {s : System} {owner : Option OwnerId} {amount : ResourceAmount} {ticket : Option ℕ}

theorem Inv.leave (h : Inv s) (hr : Registered s owner amount ticket) :
    Inv ⟨s.pool.withdraw owner ticket,s.live,leave s.parked ticket⟩ := by
  cases ticket with
  | none => exact h
  | some t =>
    obtain ⟨p,hp,rfl,rfl,rfl⟩ := hr
    exact h.withdraw hp

theorem Inv.queued (h : Inv s) : Inv (s.queued owner amount ticket) := by
  cases ticket with
  | none => exact h.enqueue owner amount
  | some t =>
    refine h.congr_parked ?_
    simp only [wait,List.map_map]
    refine List.map_congr_left fun p _ => ?_
    simp only [Function.comp_apply]
    split <;> rfl

theorem queued_ledger (s : System) (owner : Option OwnerId) (amount : ResourceAmount)
    (ticket : Option ℕ) :
    (s.queued owner amount ticket).ledger = s.ledger.queued owner amount ticket := by
  simp [System.ledger,System.queued,Ledger.queued]

/-- A waiting acquire is found under its ticket. -/
theorem Registered.queued (hr : Registered s owner amount ticket) :
    Registered (s.queued owner amount ticket) owner amount
      (some (ticket.getD (s.pool.nextId+1))) := by
  cases ticket with
  | none => exact ⟨_,List.mem_cons_self,rfl,rfl,rfl⟩
  | some t =>
    obtain ⟨p,hp,rfl,rfl,rfl⟩ := hr
    exact ⟨_,List.mem_map_of_mem hp,by simp⟩

/-- Waiting and then leaving is leaving. -/
theorem leave_queued (h : Inv s) :
    leave (s.queued owner amount ticket).parked (some (ticket.getD (s.pool.nextId+1))) =
      leave s.parked ticket := by
  cases ticket with
  | none =>
    have hne : ∀ p ∈ s.parked, p.ticket ≠ s.pool.nextId+1 := by
      intro p hp
      have := h.fresh p hp
      omega
    simpa [System.queued,wait,leave] using leave_eq_self hne
  | some t =>
    simp only [System.queued,wait,leave,Option.getD_some]
    induction s.parked with
    | nil => rfl
    | cons p ps ih =>
      by_cases hp : p.ticket = t <;> simp [hp] <;> simpa using ih

/-- A pass that fits returns the reservation. -/
theorem settle_attempt_fits (hfit : amount.fitsIn s.pool.available) :
    s.settle owner amount ticket (s.pool.attempt owner amount ticket) =
      (⟨(s.pool.withdraw owner ticket).grant owner amount,⟨amount,owner⟩::s.live,
        leave s.parked ticket⟩,.granted ⟨amount,owner⟩) := by
  rw [PoolState.attempt,if_pos hfit]
  rfl

/-- An attributed pass that does not fit is refused when the verdict falls on the queued state. -/
theorem settle_attempt_refused {o : OwnerId} {d : Deadlock}
    (hfit : ¬ amount.fitsIn s.pool.available)
    (hd : (s.queued (some o) amount ticket).pool.deadlock amount = some d) :
    s.settle (some o) amount ticket (s.pool.attempt (some o) amount ticket) =
      (⟨(s.queued (some o) amount ticket).pool.withdraw (some o)
        (some (ticket.getD (s.pool.nextId+1))),s.live,leave s.parked ticket⟩,
        .refused (some o) (.deadlock d)) := by
  rw [PoolState.attempt,if_neg hfit]
  simp only [System.queued,PoolState.enqueue_ticket] at hd ⊢
  rw [hd]
  rfl

/-- Every other pass that does not fit waits. -/
theorem settle_attempt_waits (hfit : ¬ amount.fitsIn s.pool.available)
    (hd : owner = none ∨ (s.queued owner amount ticket).pool.deadlock amount = none) :
    s.settle owner amount ticket (s.pool.attempt owner amount ticket) =
      (s.queued owner amount ticket,.parked (ticket.getD (s.pool.nextId+1))) := by
  rw [PoolState.attempt,if_neg hfit]
  simp only [System.queued,PoolState.enqueue_ticket] at hd ⊢
  cases owner with
  | none => rfl
  | some o =>
    rw [hd.resolve_left (by simp)]
    rfl

/-- One pass over the acquire loop keeps the books and is the ledger's pass. -/
theorem Inv.attempt (h : Inv s) (hr : Registered s owner amount ticket) {s' : System} {e : Event}
    (hs : s.settle owner amount ticket (s.pool.attempt owner amount ticket) = (s',e)) :
    Inv s' ∧ s.ledger.attempt owner amount ticket = (s'.ledger,e.outcome) := by
  unfold Ledger.attempt
  by_cases hfit : amount.fitsIn s.pool.available
  · rw [settle_attempt_fits hfit] at hs
    rw [if_pos (h.fits_iff.mpr hfit)]
    cases hs
    exact ⟨(h.leave hr).grant owner (by simpa using hfit),by simp [System.ledger,Event.outcome]⟩
  · rw [if_neg (mt h.fits_iff.mp hfit),← queued_ledger]
    have hq : Inv (s.queued owner amount ticket) := h.queued
    have hdead := hq.deadlock_iff amount
    by_cases hv : owner ≠ none ∧ (s.queued owner amount ticket).ledger.Deadlocked
    · obtain ⟨ho,hv⟩ := hv
      obtain ⟨o,rfl⟩ := Option.ne_none_iff_exists'.mp ho
      obtain ⟨d,hd⟩ := Option.isSome_iff_exists.mp (hdead.mpr hv)
      rw [settle_attempt_refused hfit hd] at hs
      rw [if_pos ⟨ho,hv⟩]
      have hl := hq.leave hr.queued
      rw [leave_queued h] at hl
      cases hs
      exact ⟨hl,by simp [System.ledger,System.queued,Event.outcome]⟩
    · have hd : owner = none ∨ (s.queued owner amount ticket).pool.deadlock amount = none := by
        by_contra hc
        obtain ⟨ho,hd⟩ := not_or.mp hc
        exact hv ⟨ho,hdead.mp (Option.ne_none_iff_isSome.mp hd)⟩
      rw [settle_attempt_waits hfit hd] at hs
      rw [if_neg hv]
      cases hs
      exact ⟨hq,rfl⟩

end Pass

theorem find_ticket {parked : List Parked} {t : ℕ} {p : Parked}
    (h : (parked.find? fun p => decide (p.ticket = t)) = some p) :
    p ∈ parked ∧ p.ticket = t :=
  ⟨List.mem_of_find?_eq_some h,by simpa using List.find?_some h⟩

/-- Each step keeps the books and is the ledger's step. -/
theorem Inv.step {s s' : System} {a : Action} {e : Event} (h : Inv s)
    (hs : s.step a = some (s',e)) :
    Inv s' ∧ s.ledger.step a = some (s'.ledger,e.outcome) := by
  cases a with
  | newOwner =>
    cases hs
    exact ⟨h.mint,rfl⟩
  | acquire owner amount =>
    simp only [System.step,PoolState.acquireInner,Option.some.injEq] at hs
    simp only [Ledger.step]
    by_cases htot : amount.fitsIn s.pool.total
    · rw [if_neg (not_not_intro htot)] at hs
      rw [if_pos (by exact htot)]
      have hr : Registered s owner amount none := trivial
      obtain ⟨hi,hl⟩ := h.attempt hr hs
      exact ⟨hi,congrArg some hl⟩
    · rw [if_pos htot] at hs
      rw [if_neg (by exact htot)]
      cases hs
      exact ⟨h,rfl⟩
  | wake t =>
    simp only [System.step,Option.map_eq_some_iff] at hs
    obtain ⟨p,hp,hs⟩ := hs
    obtain ⟨hm,rfl⟩ := find_ticket hp
    have hr : Registered s p.owner p.amount (some p.ticket) := ⟨p,hm,rfl,rfl,rfl⟩
    obtain ⟨hi,hl⟩ := h.attempt hr hs
    have hp' : (s.ledger.parked.find? fun p' => decide (p'.ticket = p.ticket)) = some p := hp
    simp only [Ledger.step,hp',Option.map_some]
    exact ⟨hi,congrArg some hl⟩
  | tryAcquire owner amount =>
    simp only [System.step,PoolState.tryAcquireInner] at hs
    simp only [Ledger.step,h.fits_iff]
    by_cases hfit : amount.fitsIn s.pool.available
    · rw [if_neg (not_not_intro hfit)] at hs
      cases hs
      refine ⟨h.grant owner hfit,?_⟩
      simp [hfit,System.ledger,Event.outcome]
    · rw [if_pos hfit] at hs
      cases hs
      exact ⟨h,by simp [hfit,Event.outcome]⟩
  | drop r =>
    simp only [System.step] at hs
    split at hs
    · next hr =>
      cases hs
      refine ⟨(h.release hr).congr_parked ?_,?_⟩
      · rw [List.map_map]
        rfl
      · have hr' : r ∈ s.ledger.live := hr
        simp only [Ledger.step,hr',if_true]
        simp [System.ledger,Event.outcome]
    · cases hs

theorem inv_new (total : ResourceAmount) : Inv (System.new total) where
  available x := by simp [System.new,PoolState.new]
  held o x := rfl
  owned x := rfl
  waiting o := rfl
  tickets := List.Perm.nil
  fresh p hp := by cases hp
  entries o ho := absurd ho (AList.notMem_empty o)

/-- Every clipping operation a critical section could perform on this state is exact: the two
subtractions and the addition of a grant, the decrement of a withdrawal, the additions, the
subtraction and the cap of a release, and the sums the verdict compares. -/
structure Unclipped (s : System) : Prop where
  grant : ∀ amount, amount.fitsIn s.pool.available → ∀ x,
    (s.pool.available.saturatingSub amount).on x+amount.on x = s.pool.available.on x ∧
    ∀ o, ((s.pool.owner o).held.saturatingAdd amount).on x = (s.pool.owner o).held.on x+amount.on x
  withdraw : ∀ p ∈ s.parked, ∀ o, p.owner = some o →
    (s.pool.owner o).waiting-1+1 = (s.pool.owner o).waiting
  release : ∀ r ∈ s.live, (s.pool.available.saturatingAdd r.amount).fitsIn s.pool.total ∧ ∀ x,
    (s.pool.available.saturatingAdd r.amount).on x = s.pool.available.on x+r.amount.on x ∧
    ∀ o, r.owner = some o →
      ((s.pool.owner o).held.saturatingSub r.amount).on x+r.amount.on x = (s.pool.owner o).held.on x
  verdict : ∀ x,
    (s.pool.owners.values.foldl (fun (acc : ResourceAmount) o => acc.saturatingAdd o.held)
      default).on x = s.pool.owners.total (fun w => w.held.on x) ∧
    (s.pool.total.saturatingSub s.pool.available).on x+s.pool.available.on x = s.pool.total.on x

theorem Books.held_le {s : System} (h : Books s) (o : OwnerId) (x : Axis) :
    (s.pool.owner o).held.on x+s.pool.available.on x ≤ s.pool.total.on x := by
  have hw := PoolState.owner_weight s.pool o (fun w => w.held.on x) (held_default x)
  have hh := h.held o x
  have hle : sumOn x (ownedBy o s.live) ≤ sumOn x s.live := sumOn_filter_le x _ _
  have := h.available x
  omega

theorem Books.unclipped {s : System} (h : Books s) : Unclipped s where
  grant amount hfit x := by
    have hx := ResourceAmount.fitsIn_iff.mp hfit x
    refine ⟨by rw [ResourceAmount.saturatingSub_on]; omega,fun o => ?_⟩
    have := h.held_le o x
    have := s.pool.total.on_le_max x
    exact ResourceAmount.saturatingAdd_exact (by omega)
  withdraw p hp o ho := by
    have := h.waits_iff.mp ⟨p,hp,ho⟩
    omega
  release r hr := by
    refine ⟨ResourceAmount.fitsIn_iff.mpr fun x => ?_,fun x => ⟨(h.release_exact hr x).1,?_⟩⟩
    · obtain ⟨he,hle⟩ := h.release_exact hr x
      exact he.trans_le hle
    · intro o ho
      have hm : r ∈ ownedBy o s.live := List.mem_filter.mpr ⟨hr,decide_eq_true ho⟩
      have hle := on_le_sumOn (x := x) hm
      have hw := PoolState.owner_weight s.pool o (fun w => w.held.on x) (held_default x)
      have hh := h.held o x
      rw [ResourceAmount.saturatingSub_on]
      omega
  verdict x := by
    have := h.available x
    exact ⟨(h.sum_held_on x).trans (h.owned x).symm,by rw [h.out_on x]; omega⟩

/-- Every interleaving of the pool's steps keeps the books. Nothing clips: not on the states
between the critical sections, nor on the two a critical section passes through, with the acquire
queued and with it withdrawn; and every thread gets the outcome it gets in exact arithmetic. -/
theorem pool_conservation (total : ResourceAmount) (as : List Action) (s : System)
    (es : List Event) (h : poolMachine.run (System.new total) as = some (s,es)) :
    Conserved s ∧
    (Unclipped s ∧ ∀ owner amount ticket, Registered s owner amount ticket →
      Unclipped (s.queued owner amount ticket) ∧
      Unclipped ⟨s.pool.withdraw owner ticket,s.live,leave s.parked ticket⟩) ∧
    ledgerMachine.run (Ledger.new total) as = some (s.ledger,es.map Event.outcome) := by
  obtain ⟨hi,hl⟩ := poolMachine.run_simulation ledgerMachine System.ledger Event.outcome
    (fun _ _ _ _ hi hs => hi.step hs) (inv_new total) h
  refine ⟨hi.conserved,⟨hi.unclipped,fun owner amount ticket hr => ?_⟩,hl⟩
  exact ⟨hi.queued.unclipped,(hi.leave hr).unclipped⟩

/-- One file is served after it parked, on an anonymous reservation's way out. -/
theorem pool_conservation_served : ∃ s es,
    poolMachine.run (System.new (.mk 4 2)) [.newOwner,.tryAcquire none (.mk 1 1),
      .acquire (some ⟨1⟩) (.mk 3 2),.drop ⟨.mk 1 1,none⟩,.wake 2] = some (s,es) ∧
    Conserved s := by
  obtain ⟨⟨s,es⟩,hr⟩ := Option.isSome_iff_exists.mp (show (poolMachine.run (System.new (.mk 4 2))
    [.newOwner,.tryAcquire none (.mk 1 1),.acquire (some ⟨1⟩) (.mk 3 2),.drop ⟨.mk 1 1,none⟩,
      .wake 2]).isSome by decide)
  exact ⟨s,es,hr,(pool_conservation _ _ s es hr).1⟩

end Provium.Scheduler
