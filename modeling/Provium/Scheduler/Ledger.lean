import Provium.Scheduler.Pool

/-! What the pool is for, in exact arithmetic: a capacity, the reservations that are out and
the requests that wait. Nothing is stored that the reservations do not determine, no amount is
ever subtracted, and sums are natural numbers of any size. -/
namespace Provium.Scheduler
open Lib

/-- The exact sum of some reservations on one axis. -/
def sumOn (x : Axis) (rs : List Reservation) : ℕ := (rs.map fun r => r.amount.on x).sum

/-- The reservations of one owner. -/
def ownedBy (o : OwnerId) (rs : List Reservation) : List Reservation :=
  rs.filter fun r => decide (r.owner = some o)

/-- The reservations somebody answers for. -/
def attributed (rs : List Reservation) : List Reservation := rs.filter fun r => r.owner.isSome

structure Ledger where
  total : ResourceAmount
  nextId : ℕ
  live : List Reservation
  parked : List Parked

namespace Ledger

def new (total : ResourceAmount) : Ledger := ⟨total,0,[],[]⟩

/-- The request can be added to what is already out. -/
def Fits (L : Ledger) (amount : ResourceAmount) : Prop :=
  ∀ x, sumOn x L.live+amount.on x ≤ L.total.on x

/-- The owner has an acquire parked. -/
def Waits (L : Ledger) (o : OwnerId) : Prop := ∃ p ∈ L.parked, p.owner = some o

/-- The owner has something that could be released. -/
def Holds (L : Ledger) (o : OwnerId) : Prop := ∃ r ∈ L.live, r.owner = some o ∧ ¬ r.amount.isZero

/-- The hold-and-wait condition: something is out, whoever has it is known and waits for more,
and no waiting request fits. -/
structure Deadlocked (L : Ledger) : Prop where
  held : ∃ r ∈ L.live, ¬ r.amount.isZero
  stuck : ∀ r ∈ L.live, ¬ r.amount.isZero → ∃ o, r.owner = some o ∧ L.Waits o
  unfit : ∀ p ∈ L.parked, ¬ L.Fits p.amount

/-- Hold-and-wait carries over to a ledger with the same holders, where those that waited wait
and still nothing that waits fits. -/
theorem Deadlocked.transfer {L L' : Ledger} (h : L.Deadlocked)
    (hlive : ∀ r : Reservation, ¬ r.amount.isZero → (r ∈ L'.live ↔ r ∈ L.live))
    (hwaits : ∀ o, L.Holds o → L.Waits o → L'.Waits o)
    (hunfit : ∀ p ∈ L'.parked, ¬ L'.Fits p.amount) : L'.Deadlocked := by
  refine ⟨?_,fun r hr hz => ?_,hunfit⟩
  · obtain ⟨r,hr,hz⟩ := h.held
    exact ⟨r,(hlive r hz).mpr hr,hz⟩
  · have hr' := (hlive r hz).mp hr
    obtain ⟨o,ho,hw⟩ := h.stuck r hr' hz
    exact ⟨o,ho,hwaits o ⟨r,hr',ho,hz⟩ hw⟩

/-- What a thread learns from its step, the verdict's report left out. -/
inductive Outcome where
  | minted (o : OwnerId)
  | granted (r : Reservation)
  | exceedsTotal (owner : Option OwnerId)
  | deadlock (owner : Option OwnerId)
  | parked (ticket : ℕ)
  | wouldBlock
  | dropped

/-- The ledger once an acquire that does not fit waits, after its first pass over the loop or
after a later one. -/
def queued (L : Ledger) (owner : Option OwnerId) (amount : ResourceAmount)
    (ticket : Option ℕ) : Ledger where
  total := L.total
  nextId := if ticket = none then L.nextId+1 else L.nextId
  live := L.live
  parked := wait L.parked owner amount (ticket.getD (L.nextId+1)) ticket

open Classical in
/-- One pass over an acquire's loop. -/
noncomputable def attempt (L : Ledger) (owner : Option OwnerId) (amount : ResourceAmount)
    (ticket : Option ℕ) : Ledger × Outcome :=
  if L.Fits amount then
    (⟨L.total,L.nextId,⟨amount,owner⟩::L.live,leave L.parked ticket⟩,.granted ⟨amount,owner⟩)
  else if owner ≠ none ∧ (L.queued owner amount ticket).Deadlocked then
    ({ L.queued owner amount ticket with parked := leave L.parked ticket },.deadlock owner)
  else (L.queued owner amount ticket,.parked (ticket.getD (L.nextId+1)))

open Classical in
noncomputable def step (L : Ledger) : Action → Option (Ledger × Outcome)
  | .newOwner => some (⟨L.total,L.nextId+1,L.live,L.parked⟩,.minted ⟨L.nextId+1⟩)
  | .acquire owner amount =>
    if amount.fitsIn L.total then some (L.attempt owner amount none)
    else some (L,.exceedsTotal owner)
  | .wake t =>
    (L.parked.find? fun p => decide (p.ticket = t)).map fun p =>
      L.attempt p.owner p.amount (some t)
  | .tryAcquire owner amount =>
    if L.Fits amount then
      some (⟨L.total,L.nextId,⟨amount,owner⟩::L.live,L.parked⟩,.granted ⟨amount,owner⟩)
    else some (L,.wouldBlock)
  | .drop r =>
    if r ∈ L.live then
      some (⟨L.total,L.nextId,L.live.erase r,
        L.parked.map fun p => { p with notified := true }⟩,.dropped)
    else none

end Ledger

noncomputable def ledgerMachine : Machine Ledger Action Ledger.Outcome := ⟨Ledger.step⟩

/-- What an event says once the verdict's report is left out. -/
def Event.outcome : Event → Ledger.Outcome
  | .minted o => .minted o
  | .granted r => .granted r
  | .refused owner (.exceedsTotal _ _) => .exceedsTotal owner
  | .refused owner (.deadlock _) => .deadlock owner
  | .parked t => .parked t
  | .wouldBlock => .wouldBlock
  | .dropped => .dropped

/-- The ledger a state of the pool stands for. -/
def System.ledger (s : System) : Ledger := ⟨s.pool.total,s.pool.nextId,s.live,s.parked⟩

/-- The pool once an acquire that does not fit waits, no verdict having been given. -/
def System.queued (s : System) (owner : Option OwnerId) (amount : ResourceAmount)
    (ticket : Option ℕ) : System where
  pool := (s.pool.enqueue owner amount ticket).2
  live := s.live
  parked := wait s.parked owner amount (ticket.getD (s.pool.nextId+1)) ticket

@[simp] theorem sumOn_nil (x : Axis) : sumOn x [] = 0 := rfl

@[simp] theorem sumOn_cons (x : Axis) (r : Reservation) (rs : List Reservation) :
    sumOn x (r::rs) = r.amount.on x+sumOn x rs := by simp [sumOn]

theorem sumOn_perm {x : Axis} {rs ss : List Reservation} (h : rs.Perm ss) :
    sumOn x rs = sumOn x ss := (h.map _).sum_eq

/-- Taking one reservation out of a selection. -/
theorem sumOn_filter_erase {x : Axis} {r : Reservation} {rs : List Reservation} (h : r ∈ rs)
    (p : Reservation → Bool) :
    sumOn x (rs.filter p) =
      (if p r then r.amount.on x else 0)+sumOn x ((rs.erase r).filter p) := by
  rw [sumOn_perm ((List.perm_cons_erase h).filter p),List.filter_cons]
  split <;> simp

theorem sumOn_erase {x : Axis} {r : Reservation} {rs : List Reservation} (h : r ∈ rs) :
    sumOn x rs = r.amount.on x+sumOn x (rs.erase r) := by
  rw [sumOn_perm (List.perm_cons_erase h),sumOn_cons]

theorem on_le_sumOn {x : Axis} {r : Reservation} {rs : List Reservation} (h : r ∈ rs) :
    r.amount.on x ≤ sumOn x rs := by
  rw [sumOn_erase h]
  exact Nat.le_add_right _ _

theorem sumOn_filter_le (x : Axis) (p : Reservation → Bool) (rs : List Reservation) :
    sumOn x (rs.filter p) ≤ sumOn x rs := by
  induction rs with
  | nil => simp
  | cons r rs ih =>
    rw [List.filter_cons]
    split <;> simp <;> omega

/-- A selection carries the whole sum exactly when nothing outside it counts. -/
theorem sumOn_filter_eq {x : Axis} {p : Reservation → Bool} {rs : List Reservation} :
    sumOn x (rs.filter p) = sumOn x rs ↔ ∀ r ∈ rs, p r = false → r.amount.on x = 0 := by
  induction rs with
  | nil => simp
  | cons r rs ih =>
    have hle := sumOn_filter_le x p rs
    rw [List.filter_cons]
    cases hr : p r
    · simp only [Bool.false_eq_true,ite_false,sumOn_cons,List.forall_mem_cons,hr,forall_const,← ih]
      omega
    · simp only [ite_true,sumOn_cons,List.forall_mem_cons,hr,reduceCtorEq,false_implies,
        true_and,← ih]
      omega

theorem sumOn_eq_zero {x : Axis} {rs : List Reservation} :
    sumOn x rs = 0 ↔ ∀ r ∈ rs, r.amount.on x = 0 := by
  have h : sumOn x (rs.filter fun _ => false) = sumOn x rs ↔ _ := sumOn_filter_eq
  simp only [List.filter_false,sumOn_nil,forall_const] at h
  rw [← h]
  exact eq_comm

end Provium.Scheduler
