import Provium.Lib.Machine
import Provium.Lib.Table
import Provium.Scheduler.Amount

/-! The resource pool: reservation table with blocking acquire, owners, and the hold-and-wait
verdict. `PoolState` and its functions are the critical sections of `scheduler/pool.rs`, each
run under the pool's lock; `System` adds what lives outside the lock, the `Reservation` values
that callers hold and the acquires inside `Condvar::wait`, and lets them interleave freely. -/
namespace Provium.Scheduler
open Lib

/-- Who a reservation belongs to, one per test file. -/
structure OwnerId where
  raw : ℕ
  deriving DecidableEq, Repr

structure OwnerState where
  held : ResourceAmount := default
  waiting : ℕ := 0
  deriving DecidableEq, Repr, Inhabited

/-- The pool at the moment a deadlock was proven. -/
structure Deadlock where
  requested : ResourceAmount
  available : ResourceAmount
  total : ResourceAmount
  holders : ℕ
  waiters : ℕ
  deriving DecidableEq, Repr

inductive AcquireError where
  | exceedsTotal (requested total : ResourceAmount)
  | deadlock (d : Deadlock)
  deriving DecidableEq, Repr

def OwnerState.isIdle (o : OwnerState) : Prop := o.held.isZero ∧ o.waiting = 0

instance (o : OwnerState) : Decidable o.isIdle := inferInstanceAs (Decidable (_ ∧ _))

structure PoolState where
  total : ResourceAmount
  available : ResourceAmount
  owners : Table OwnerId OwnerState
  waiting : Table ℕ ResourceAmount
  nextId : ℕ

namespace PoolState

def new (total : ResourceAmount) : PoolState := ⟨total,total,∅,∅,0⟩

/-- `next_id`: owner ids and tickets come from one counter. It is a `u64` in the source; no
run lasts long enough to mint 2^64 ids. -/
def mint (s : PoolState) : ℕ × PoolState := (s.nextId+1,{ s with nextId := s.nextId+1 })

/-- The owner's entry, or the default `owner_mut` would insert. -/
def owner (s : PoolState) (o : OwnerId) : OwnerState := (s.owners.lookup o).getD default

def ownerMut (s : PoolState) (o : OwnerId) (f : OwnerState → OwnerState) : PoolState :=
  { s with owners := s.owners.insert o (f (s.owner o)) }

def prune (s : PoolState) (o : OwnerId) : PoolState :=
  if (s.owners.lookup o).any fun w => decide w.isIdle then { s with owners := s.owners.erase o }
  else s

/-- The verdict's pass over the owners: give up at a holder that is not parked, otherwise
count the holders. -/
def countHolders : List OwnerState → ℕ → Option ℕ
  | [],holders => some holders
  | o::os,holders =>
    if o.held.isZero then countHolders os holders
    else if o.waiting = 0 then none
    else countHolders os (holders+1)

/-- The verdict, taken under the lock. -/
def deadlock (s : PoolState) (requested : ResourceAmount) : Option Deadlock :=
  let owned := s.owners.values.foldl (fun acc o => acc.saturatingAdd o.held) default
  if owned ≠ s.total.saturatingSub s.available then none
  else match countHolders s.owners.values 0 with
    | none => none
    | some holders =>
      if holders = 0 then none
      else if s.waiting.values.any fun w => decide (w.fitsIn s.available) then none
      else some ⟨requested,s.available,s.total,holders,s.waiting.values.length⟩

/-- The head of the acquire loop's body: take a ticket, unless an earlier pass did. -/
def enqueue (s : PoolState) (owner : Option OwnerId) (amount : ResourceAmount) :
    Option ℕ → ℕ × PoolState
  | some t => (t,s)
  | none =>
    let (t,s) := s.mint
    let s := { s with waiting := s.waiting.insert t amount }
    match owner with
    | some o => (t,s.ownerMut o fun w => { w with waiting := w.waiting+1 })
    | none => (t,s)

/-- Leave the waiting set, if this acquire was ever in it. -/
def withdraw (s : PoolState) (owner : Option OwnerId) : Option ℕ → PoolState
  | none => s
  | some t =>
    let s := { s with waiting := s.waiting.erase t }
    match owner with
    | some o => (s.ownerMut o fun w => { w with waiting := w.waiting-1 }).prune o
    | none => s

/-- The bookkeeping of a grant, common to `acquire_inner` and `try_acquire_inner`. -/
def grant (s : PoolState) (owner : Option OwnerId) (amount : ResourceAmount) : PoolState :=
  let s := { s with available := s.available.saturatingSub amount }
  match owner with
  | some o => s.ownerMut o fun w => { w with held := w.held.saturatingAdd amount }
  | none => s

/-- How far an acquire got before it gave up the lock. -/
inductive Progress where
  | granted
  | refused (e : AcquireError)
  | parked (ticket : ℕ)
  deriving DecidableEq, Repr

/-- One pass of `acquire_inner`'s loop, from holding the lock to returning or waiting. -/
def attempt (s : PoolState) (owner : Option OwnerId) (amount : ResourceAmount)
    (ticket : Option ℕ) : Progress × PoolState :=
  if amount.fitsIn s.available then
    (.granted,(s.withdraw owner ticket).grant owner amount)
  else
    let (t,s) := s.enqueue owner amount ticket
    match owner with
    | none => (.parked t,s)
    | some o =>
      match s.deadlock amount with
      | some d => (.refused (.deadlock d),s.withdraw (some o) (some t))
      | none => (.parked t,s)

/-- `acquire_inner` from its entry to its first return or wait. -/
def acquireInner (s : PoolState) (owner : Option OwnerId) (amount : ResourceAmount) :
    Progress × PoolState :=
  if ¬ amount.fitsIn s.total then (.refused (.exceedsTotal amount s.total),s)
  else s.attempt owner amount none

def tryAcquireInner (s : PoolState) (owner : Option OwnerId) (amount : ResourceAmount) :
    Option PoolState :=
  if ¬ amount.fitsIn s.available then none
  else some (s.grant owner amount)

def release (s : PoolState) (amount : ResourceAmount) (owner : Option OwnerId) : PoolState :=
  let s := { s with available := s.available.saturatingAdd amount }
  -- Cap at total: defense against accidental double-release.
  let s := if ¬ s.available.fitsIn s.total then { s with available := s.total } else s
  match owner with
  | some o => (s.ownerMut o fun w => { w with held := w.held.saturatingSub amount }).prune o
  | none => s

end PoolState

/-- RAII handle for an active reservation. -/
structure Reservation where
  amount : ResourceAmount
  owner : Option OwnerId
  deriving DecidableEq, Repr

/-- An acquire inside `Condvar::wait`. `notified` records that a reservation has been dropped
since the acquire last ran its loop body, so that its wake-up is still to come. -/
structure Parked where
  ticket : ℕ
  owner : Option OwnerId
  amount : ResourceAmount
  notified : Bool
  deriving DecidableEq, Repr

/-- The pool, every reservation some caller still holds, and every parked acquire. -/
structure System where
  pool : PoolState
  live : List Reservation
  parked : List Parked

/-- The lock-protected steps. A `wake` runs a parked acquire's loop body again: after a
notification, or spuriously. -/
inductive Action where
  | newOwner
  | acquire (owner : Option OwnerId) (amount : ResourceAmount)
  | wake (ticket : ℕ)
  | tryAcquire (owner : Option OwnerId) (amount : ResourceAmount)
  | drop (r : Reservation)
  deriving DecidableEq, Repr

/-- What the thread that took the step sees. -/
inductive Event where
  | minted (o : OwnerId)
  | granted (r : Reservation)
  | refused (owner : Option OwnerId) (e : AcquireError)
  | parked (ticket : ℕ)
  | wouldBlock
  | dropped
  deriving DecidableEq, Repr

/-- The parked acquires once the one with this ticket has returned. -/
def leave (parked : List Parked) : Option ℕ → List Parked
  | none => parked
  | some t => parked.filter fun p => decide (p.ticket ≠ t)

/-- The parked acquires once this one has run its loop body and waits: a first pass joins
them, a later one is no longer owed a wake-up. -/
def wait (parked : List Parked) (owner : Option OwnerId) (amount : ResourceAmount) (t : ℕ) :
    Option ℕ → List Parked
  | none => ⟨t,owner,amount,false⟩::parked
  | some t => parked.map fun p => if p.ticket = t then { p with notified := false } else p

namespace System

def new (total : ResourceAmount) : System := ⟨PoolState.new total,[],[]⟩

/-- Hand the outcome of a pass over the loop to its caller, or leave the caller parked. -/
def settle (s : System) (owner : Option OwnerId) (amount : ResourceAmount) (ticket : Option ℕ) :
    PoolState.Progress × PoolState → System × Event
  | (.granted,pool) =>
    (⟨pool,⟨amount,owner⟩::s.live,leave s.parked ticket⟩,.granted ⟨amount,owner⟩)
  | (.refused e,pool) => (⟨pool,s.live,leave s.parked ticket⟩,.refused owner e)
  | (.parked t,pool) => (⟨pool,s.live,wait s.parked owner amount t ticket⟩,.parked t)

def step (s : System) : Action → Option (System × Event)
  | .newOwner => let (n,pool) := s.pool.mint; some (⟨pool,s.live,s.parked⟩,.minted ⟨n⟩)
  | .acquire owner amount =>
    some (s.settle owner amount none (s.pool.acquireInner owner amount))
  | .wake t =>
    (s.parked.find? fun p => decide (p.ticket = t)).map fun p =>
      s.settle p.owner p.amount (some t) (s.pool.attempt p.owner p.amount (some t))
  | .tryAcquire owner amount =>
    match s.pool.tryAcquireInner owner amount with
    | some pool => some (⟨pool,⟨amount,owner⟩::s.live,s.parked⟩,.granted ⟨amount,owner⟩)
    | none => some (s,.wouldBlock)
  | .drop r =>
    if r ∈ s.live then
      some (⟨s.pool.release r.amount r.owner,s.live.erase r,
        s.parked.map fun p => { p with notified := true }⟩,.dropped)
    else none

end System

/-- Every interleaving of the pool's steps, over any number of owners and threads. -/
def poolMachine : Machine System Action Event := ⟨System.step⟩

end Provium.Scheduler
