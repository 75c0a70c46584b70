import Provium.Scheduler.Pool

/-! Accounts and claims. A claim is a file's whole VM budget, one pool reservation out of which
every boot takes a slice. `Account` and its functions are the critical sections of
`scheduler/pool.rs` under the account's lock; `AccountSystem` puts one account over the pool,
with the slices that boots still hold, and lets the steps of both come in any order. -/
namespace Provium.Scheduler
open Lib

structure ClaimBudget where
  /-- The pool reservation behind the claim. -/
  reservation : Reservation
  total : ResourceAmount
  used : ResourceAmount
  deriving DecidableEq, Repr

structure AccountClaim where
  /-- Set by the first claim and never cleared. -/
  taken : Bool := false
  budget : Option ClaimBudget := none
  deriving DecidableEq, Repr

/-- A file's standing with the pool. -/
structure Account where
  owner : Option OwnerId
  claim : AccountClaim := {}
  deriving DecidableEq, Repr

/-- A boot asked for more than the file's claim has left. -/
structure ClaimExceeded where
  requested : ResourceAmount
  claimed : ResourceAmount
  inUse : ResourceAmount
  deriving DecidableEq, Repr

/-- Part of a file's claim, out on loan to one VM. -/
structure ClaimSlice where
  amount : ResourceAmount
  deriving DecidableEq, Repr

namespace Account

def markClaimTaken (a : Account) : Bool × Account :=
  if a.claim.taken then (false,a) else (true,{ a with claim := { a.claim with taken := true } })

def setClaim (a : Account) (reservation : Reservation) (amount : ResourceAmount) :
    Bool × Account :=
  if a.claim.taken then (false,a)
  else (true,{ a with claim := ⟨true,some ⟨reservation,amount,default⟩⟩ })

/-- Take the budget out. The caller is told its size; the reservation goes back to the pool. -/
def releaseClaim (a : Account) : Option ClaimBudget × Account :=
  (a.claim.budget,{ a with claim := { a.claim with budget := none } })

/-- `ok none` when there is no claim and the caller reserves from the pool instead. -/
def slice (a : Account) (amount : ResourceAmount) :
    Except ClaimExceeded (Option ClaimSlice) × Account :=
  match a.claim.budget with
  | none => (.ok none,a)
  | some b =>
    if ¬ (b.used.saturatingAdd amount).fitsIn b.total then (.error ⟨amount,b.total,b.used⟩,a)
    else (.ok (some ⟨amount⟩),{ a with claim := { a.claim with
      budget := some { b with used := b.used.saturatingAdd amount } } })

def returnSlice (a : Account) (amount : ResourceAmount) : Account :=
  match a.claim.budget with
  | none => a
  | some b => { a with claim := { a.claim with
      budget := some { b with used := b.used.saturatingSub amount } } }

end Account

/-- The pool, one account against it, and every slice a boot of the file still holds. -/
structure AccountSystem where
  pool : System
  account : Account
  slices : List ClaimSlice

inductive AccountAction where
  | pool (a : Action)
  | setClaim (r : Reservation) (amount : ResourceAmount)
  | markClaimTaken
  | slice (amount : ResourceAmount)
  | dropSlice (c : ClaimSlice)
  | releaseClaim
  deriving DecidableEq, Repr

inductive AccountEvent where
  | pool (e : Event)
  | claimed (ok : Bool)
  | sliced (r : Except ClaimExceeded (Option ClaimSlice))
  | returned
  | released (total : Option ResourceAmount)

/-- The claim was this call's to take. -/
def AccountEvent.took : AccountEvent → Bool
  | .claimed ok => ok
  | _ => false

namespace AccountSystem

def new (total : ResourceAmount) (owner : Option OwnerId) : AccountSystem :=
  ⟨System.new total,{ owner },[]⟩

/-- The reservations that are not behind the claim: their holders may drop them, or move them
into a claim. -/
def free (s : AccountSystem) : List Reservation :=
  match s.account.claim.budget with
  | none => s.pool.live
  | some b => s.pool.live.erase b.reservation

/-- Drop a reservation on the way to a new account state. -/
def dropThen (s : AccountSystem) (r : Reservation) (account : Account) (e : AccountEvent) :
    Option (AccountSystem × AccountEvent) :=
  (s.pool.step (.drop r)).map fun q => (⟨q.1,account,s.slices⟩,e)

def step (s : AccountSystem) : AccountAction → Option (AccountSystem × AccountEvent)
  | .pool (.drop r) =>
    if r ∈ s.free then s.dropThen r s.account (.pool .dropped) else none
  | .pool a => (s.pool.step a).map fun q => (⟨q.1,s.account,s.slices⟩,.pool q.2)
  | .setClaim r amount =>
    if r ∈ s.free then
      match s.account.setClaim r amount with
      | (true,account) => some (⟨s.pool,account,s.slices⟩,.claimed true)
      | (false,account) => s.dropThen r account (.claimed false)
    else none
  | .markClaimTaken =>
    let (ok,account) := s.account.markClaimTaken
    some (⟨s.pool,account,s.slices⟩,.claimed ok)
  | .slice amount =>
    match s.account.slice amount with
    | (.ok (some c),account) => some (⟨s.pool,account,c::s.slices⟩,.sliced (.ok (some c)))
    | (r,account) => some (⟨s.pool,account,s.slices⟩,.sliced r)
  | .dropSlice c =>
    if c ∈ s.slices then
      some (⟨s.pool,s.account.returnSlice c.amount,s.slices.erase c⟩,.returned)
    else none
  | .releaseClaim =>
    match s.account.releaseClaim with
    | (none,account) => some (⟨s.pool,account,s.slices⟩,.released none)
    | (some b,account) => s.dropThen b.reservation account (.released (some b.total))

end AccountSystem

def accountMachine : Machine AccountSystem AccountAction AccountEvent := ⟨AccountSystem.step⟩

/-- The exact sum of some slices on one axis. -/
def slicedOn (x : Axis) (cs : List ClaimSlice) : ℕ := (cs.map fun c => c.amount.on x).sum

@[simp] theorem slicedOn_nil (x : Axis) : slicedOn x [] = 0 := rfl

@[simp] theorem slicedOn_cons (x : Axis) (c : ClaimSlice) (cs : List ClaimSlice) :
    slicedOn x (c::cs) = c.amount.on x+slicedOn x cs := by simp [slicedOn]

theorem slicedOn_erase {x : Axis} {c : ClaimSlice} {cs : List ClaimSlice} (h : c ∈ cs) :
    slicedOn x cs = c.amount.on x+slicedOn x (cs.erase c) := (List.sum_map_erase _ h).symm

namespace AccountSystem
variable {s s' : AccountSystem} {e : AccountEvent}

theorem dropThen_eq {r : Reservation} {account : Account} {e' : AccountEvent}
    (h : s.dropThen r account e' = some (s',e)) :
    s'.account = account ∧ s'.slices = s.slices ∧ e = e' := by
  obtain ⟨q,-,hq⟩ := Option.map_eq_some_iff.mp h
  cases hq
  exact ⟨rfl,rfl,rfl⟩

/-- The pool's own steps leave the account alone. -/
theorem step_pool {a : Action} (h : s.step (.pool a) = some (s',e)) :
    s'.account = s.account ∧ s'.slices = s.slices ∧ e.took = false := by
  cases a with
  | drop r =>
    simp only [step] at h
    split at h
    · obtain ⟨ha,hc,rfl⟩ := dropThen_eq h
      exact ⟨ha,hc,rfl⟩
    · cases h
  | newOwner | acquire | wake | tryAcquire =>
    simp only [step] at h
    obtain ⟨q,-,hq⟩ := Option.map_eq_some_iff.mp h
    cases hq
    exact ⟨rfl,rfl,rfl⟩

theorem step_setClaim {r : Reservation} {amount : ResourceAmount}
    (h : s.step (.setClaim r amount) = some (s',e)) :
    s'.account = (s.account.setClaim r amount).2 ∧ s'.slices = s.slices ∧
      e = .claimed (!s.account.claim.taken) := by
  simp only [step] at h
  split at h
  · cases ht : s.account.claim.taken with
    | true =>
      simp only [Account.setClaim,ht,if_true] at h ⊢
      exact dropThen_eq h
    | false =>
      simp only [Account.setClaim,ht,Bool.false_eq_true,if_false] at h ⊢
      cases h
      exact ⟨rfl,rfl,rfl⟩
  · cases h

theorem step_releaseClaim (h : s.step .releaseClaim = some (s',e)) :
    s'.account = s.account.releaseClaim.2 ∧ s'.slices = s.slices ∧ e.took = false := by
  simp only [step] at h
  cases hb : s.account.releaseClaim.1 with
  | none =>
    have he : s.account.releaseClaim = (none,s.account.releaseClaim.2) := Prod.ext hb rfl
    rw [he] at h
    cases h
    exact ⟨rfl,rfl,rfl⟩
  | some b =>
    have he : s.account.releaseClaim = (some b,s.account.releaseClaim.2) := Prod.ext hb rfl
    rw [he] at h
    obtain ⟨ha,hc,rfl⟩ := dropThen_eq h
    exact ⟨ha,hc,rfl⟩

/-- A slice is accepted when the clipped sum fits. Otherwise nothing changes. -/
theorem step_slice {amount : ResourceAmount} (h : s.step (.slice amount) = some (s',e)) :
    s'.pool = s.pool ∧ e.took = false ∧ s'.account.claim.taken = s.account.claim.taken ∧
    ((s'.account = s.account ∧ s'.slices = s.slices) ∨
      ∃ b, s.account.claim.budget = some b ∧ (b.used.saturatingAdd amount).fitsIn b.total ∧
        s'.account.claim.budget = some { b with used := b.used.saturatingAdd amount } ∧
        s'.slices = ⟨amount⟩::s.slices) := by
  simp only [step,Account.slice] at h
  cases hb : s.account.claim.budget with
  | none =>
    simp only [hb] at h
    cases h
    exact ⟨rfl,rfl,rfl,.inl ⟨rfl,rfl⟩⟩
  | some b =>
    simp only [hb] at h
    by_cases hfit : (b.used.saturatingAdd amount).fitsIn b.total
    · simp only [hfit,not_true_eq_false,if_false] at h
      cases h
      exact ⟨rfl,rfl,rfl,.inr ⟨b,rfl,hfit,rfl,rfl⟩⟩
    · simp only [hfit,not_false_eq_true,if_true] at h
      cases h
      exact ⟨rfl,rfl,rfl,.inl ⟨rfl,rfl⟩⟩

theorem step_dropSlice {c : ClaimSlice} (h : s.step (.dropSlice c) = some (s',e)) :
    c ∈ s.slices ∧ s'.pool = s.pool ∧ s'.account = s.account.returnSlice c.amount ∧
      s'.slices = s.slices.erase c ∧ e.took = false := by
  simp only [step] at h
  split at h
  · next hc => cases h; exact ⟨hc,rfl,rfl,rfl,rfl⟩
  · cases h

end AccountSystem

/-- Neither axis is at its type's limit. -/
def ResourceAmount.BelowLimit (a : ResourceAmount) : Prop := ∀ x, a.on x < x.max

/-- The books of a held budget are exact and its claim is below the limits, and nothing is on loan before there is a
claim. -/
structure ClaimInv (account : Account) (slices : List ClaimSlice) : Prop where
  budget : ∀ b, account.claim.budget = some b → b.total.BelowLimit ∧
    ∀ x, b.used.on x = slicedOn x slices ∧ slicedOn x slices ≤ b.total.on x
  untaken : account.claim.taken = false → account.claim.budget = none ∧ slices = []

theorem claimInv_new (owner : Option OwnerId) : ClaimInv { owner } [] :=
  ⟨fun b hb => (by cases hb),fun _ => ⟨rfl,rfl⟩⟩

section ClaimInv
variable {amount : ResourceAmount} {account : Account} {slices : List ClaimSlice}

theorem ClaimInv.setClaim (h : ClaimInv account slices) (r : Reservation) (hamount : amount.BelowLimit) :
    ClaimInv (account.setClaim r amount).2 slices := by
  cases ht : account.claim.taken with
  | true => simpa only [Account.setClaim,ht,if_true] using h
  | false =>
    obtain ⟨-,rfl⟩ := h.untaken ht
    simp only [Account.setClaim,ht,Bool.false_eq_true,if_false]
    refine ⟨fun b hb => ?_,fun hc => by cases hc⟩
    cases hb
    exact ⟨hamount,fun x => by simp⟩

theorem ClaimInv.markClaimTaken (h : ClaimInv account slices) :
    ClaimInv account.markClaimTaken.2 slices := by
  cases ht : account.claim.taken with
  | true => simpa only [Account.markClaimTaken,ht,if_true] using h
  | false =>
    simp only [Account.markClaimTaken,ht,Bool.false_eq_true,if_false]
    exact ⟨h.budget,fun hc => by cases hc⟩

theorem ClaimInv.releaseClaim (h : ClaimInv account slices) :
    ClaimInv account.releaseClaim.2 slices :=
  ⟨fun b hb => (by cases hb),fun ht => ⟨rfl,(h.untaken ht).2⟩⟩

theorem ClaimInv.slice {account' : Account} {b : ClaimBudget} (h : ClaimInv account slices)
    (hb : account.claim.budget = some b)
    (hfit : (b.used.saturatingAdd amount).fitsIn b.total)
    (hb' : account'.claim.budget = some { b with used := b.used.saturatingAdd amount })
    (ht : account'.claim.taken = account.claim.taken) :
    ClaimInv account' (⟨amount⟩::slices) := by
  obtain ⟨hbelow,hused⟩ := h.budget b hb
  refine ⟨fun b' hb'' => ?_,fun hc => ?_⟩
  · cases hb'.symm.trans hb''
    refine ⟨hbelow,fun x => ?_⟩
    have hexact := ResourceAmount.saturatingAdd_on_of_fitsIn (hbelow x) hfit
    have hle := ResourceAmount.fitsIn_iff.mp hfit x
    obtain ⟨hx,-⟩ := hused x
    rw [slicedOn_cons]
    change (b.used.saturatingAdd amount).on x = amount.on x+slicedOn x slices ∧
      amount.on x+slicedOn x slices ≤ b.total.on x
    constructor <;> omega
  · have hn := (h.untaken (ht ▸ hc)).1
    rw [hb] at hn
    cases hn

theorem ClaimInv.returnSlice {c : ClaimSlice} (h : ClaimInv account slices) (hc : c ∈ slices) :
    ClaimInv (account.returnSlice c.amount) (slices.erase c) := by
  have htaken (ht : account.claim.taken = false) : False := by
    rw [(h.untaken ht).2] at hc
    cases hc
  cases hb : account.claim.budget with
  | none =>
    simp only [Account.returnSlice,hb]
    exact ⟨fun b hb' => (by rw [hb] at hb'; cases hb'),fun ht => (htaken ht).elim⟩
  | some b =>
    simp only [Account.returnSlice,hb]
    obtain ⟨hbelow,hused⟩ := h.budget b hb
    refine ⟨fun b' hb' => ?_,fun ht => (htaken ht).elim⟩
    cases hb'
    refine ⟨hbelow,fun x => ?_⟩
    obtain ⟨hx,hle⟩ := hused x
    rw [slicedOn_erase hc] at hx hle
    rw [ResourceAmount.saturatingSub_on]
    dsimp only
    constructor <;> omega

end ClaimInv

/-- What is claimed is of these amounts. -/
def Claims (ok : ResourceAmount → Prop) : AccountAction → Prop
  | .setClaim _ amount => ok amount
  | _ => True

theorem ClaimInv.step {s s' : AccountSystem} {a : AccountAction} {e : AccountEvent}
    (h : ClaimInv s.account s.slices) (hc : Claims ResourceAmount.BelowLimit a) (hs : s.step a = some (s',e)) :
    ClaimInv s'.account s'.slices := by
  cases a with
  | pool a =>
    obtain ⟨ha,hl,-⟩ := AccountSystem.step_pool hs
    rw [ha,hl]
    exact h
  | setClaim r amount =>
    obtain ⟨ha,hl,-⟩ := AccountSystem.step_setClaim hs
    rw [ha,hl]
    exact h.setClaim r hc
  | markClaimTaken =>
    cases hs
    exact h.markClaimTaken
  | slice amount =>
    obtain ⟨-,-,ht,⟨ha,hl⟩ | ⟨b,hb,hfit,hb',hl⟩⟩ := AccountSystem.step_slice hs
    · rw [ha,hl]
      exact h
    · rw [hl]
      exact h.slice hb hfit hb' ht
  | dropSlice c =>
    obtain ⟨hm,-,ha,hl,-⟩ := AccountSystem.step_dropSlice hs
    rw [ha,hl]
    exact h.returnSlice hm
  | releaseClaim =>
    obtain ⟨ha,hl,-⟩ := AccountSystem.step_releaseClaim hs
    rw [ha,hl]
    exact h.releaseClaim

theorem returnSlice_taken (a : Account) (amount : ResourceAmount) :
    (a.returnSlice amount).claim.taken = a.claim.taken := by
  unfold Account.returnSlice
  split <;> rfl

/-- A call takes the claim when nobody has, and from then on it is taken. -/
theorem AccountSystem.step_took {s s' : AccountSystem} {a : AccountAction} {e : AccountEvent}
    (hs : s.step a = some (s',e)) :
    (e.took = true → s.account.claim.taken = false) ∧
      s'.account.claim.taken = (s.account.claim.taken || e.took) := by
  cases a with
  | pool a =>
    obtain ⟨ha,-,he⟩ := AccountSystem.step_pool hs
    simp [ha,he]
  | setClaim r amount =>
    obtain ⟨ha,-,rfl⟩ := AccountSystem.step_setClaim hs
    cases ht : s.account.claim.taken <;> simp [ha,Account.setClaim,ht,AccountEvent.took]
  | markClaimTaken =>
    cases ht : s.account.claim.taken with
    | true =>
      simp only [AccountSystem.step,Account.markClaimTaken,ht,if_true] at hs
      cases hs
      exact ⟨fun hc => (by cases hc),ht⟩
    | false =>
      simp only [AccountSystem.step,Account.markClaimTaken,ht,Bool.false_eq_true,if_false] at hs
      cases hs
      exact ⟨fun _ => rfl,rfl⟩
  | slice amount =>
    obtain ⟨-,he,ht,-⟩ := AccountSystem.step_slice hs
    simp [ht,he]
  | dropSlice c =>
    obtain ⟨-,-,ha,-,he⟩ := AccountSystem.step_dropSlice hs
    simp [ha,he,returnSlice_taken]
  | releaseClaim =>
    obtain ⟨ha,-,he⟩ := AccountSystem.step_releaseClaim hs
    simp [ha,he,Account.releaseClaim]

/-- The claim is one-shot. -/
theorem countP_took_le {s t : AccountSystem} {as : List AccountAction} {es : List AccountEvent}
    (hr : accountMachine.run s as = some (t,es)) :
    es.countP AccountEvent.took ≤ if s.account.claim.taken then 0 else 1 := by
  induction as generalizing s es with
  | nil => cases hr; simp
  | cons a as ih =>
    obtain ⟨s',e,es',hs,hr',rfl⟩ := (Machine.run_cons accountMachine).mp hr
    obtain ⟨htook,htaken⟩ := AccountSystem.step_took hs
    have hih := ih hr'
    rw [htaken] at hih
    rw [List.countP_cons]
    cases he : e.took with
    | true => simpa [he,htook he] using hih
    | false => simpa [he] using hih

/-- What claim accounting means for the state a run ends in. -/
structure Accounted (s : AccountSystem) (es : List AccountEvent) : Prop where
  exact : ∀ b, s.account.claim.budget = some b → ∀ x,
    b.used.on x = slicedOn x s.slices ∧ slicedOn x s.slices ≤ b.total.on x
  once : es.countP AccountEvent.took ≤ 1
  late : s.account.claim.budget = none → ∀ c s' e, s.step (.dropSlice c) = some (s',e) →
    s'.account = s.account ∧ s'.pool = s.pool
  untouched : ∀ s' e, (∃ amount, s.step (.slice amount) = some (s',e)) ∨
    (∃ c, s.step (.dropSlice c) = some (s',e)) → s'.pool = s.pool

theorem ClaimInv.accounted {s : AccountSystem} {es : List AccountEvent}
    (h : ClaimInv s.account s.slices) (honce : es.countP AccountEvent.took ≤ 1) :
    Accounted s es where
  exact b hb := (h.budget b hb).2
  once := honce
  late hb c s' e hs := by
    obtain ⟨-,hp,ha,-⟩ := AccountSystem.step_dropSlice hs
    refine ⟨?_,hp⟩
    rw [ha,Account.returnSlice,hb]
  untouched s' e hs := by
    rcases hs with ⟨amount,hs⟩ | ⟨c,hs⟩
    · exact (AccountSystem.step_slice hs).1
    · exact (AccountSystem.step_dropSlice hs).2.1

/-- A claim at the type's limit lends out more than it has. -/
theorem claim_overdrawn (T : ResourceAmount) (x : Axis) (hT : T.on x = x.max) :
    ∃ s es, accountMachine.run (AccountSystem.new T none)
      [.pool (.tryAcquire none T),.setClaim ⟨T,none⟩ T,.slice T,.slice x.unit] = some (s,es) ∧
    ∃ b, s.account.claim.budget = some b ∧ b.used.on x = x.max ∧
      slicedOn x s.slices = x.max+1 := by
  let p : System := ⟨(PoolState.new T).grant none T,[⟨T,none⟩],[]⟩
  let b : ClaimBudget := ⟨⟨T,none⟩,T,T⟩
  have h₁ : (AccountSystem.new T none).step (.pool (.tryAcquire none T)) =
      some (⟨p,{ owner := none },[]⟩,.pool (.granted ⟨T,none⟩)) := by
    simp [AccountSystem.new,AccountSystem.step,System.step,System.new,PoolState.tryAcquireInner,
      PoolState.new,ResourceAmount.fitsIn_refl,p]
  have h₂ : (AccountSystem.mk p { owner := none } []).step (.setClaim ⟨T,none⟩ T) =
      some (⟨p,⟨none,⟨true,some ⟨⟨T,none⟩,T,default⟩⟩⟩,[]⟩,.claimed true) := by
    simp [AccountSystem.step,AccountSystem.free,Account.setClaim,p]
  have h₃ : (AccountSystem.mk p ⟨none,⟨true,some ⟨⟨T,none⟩,T,default⟩⟩⟩ []).step (.slice T) =
      some (⟨p,⟨none,⟨true,some b⟩⟩,[⟨T⟩]⟩,.sliced (.ok (some ⟨T⟩))) := by
    simp [AccountSystem.step,Account.slice,ResourceAmount.default_saturatingAdd,
      ResourceAmount.fitsIn_refl,b]
  have h₄ : (AccountSystem.mk p ⟨none,⟨true,some b⟩⟩ [⟨T⟩]).step (.slice x.unit) =
      some (⟨p,⟨none,⟨true,some b⟩⟩,[⟨x.unit⟩,⟨T⟩]⟩,.sliced (.ok (some ⟨x.unit⟩))) := by
    simp [AccountSystem.step,Account.slice,ResourceAmount.saturatingAdd_unit hT,
      ResourceAmount.fitsIn_refl,b]
  have hrun : accountMachine.run (AccountSystem.new T none)
      [.pool (.tryAcquire none T),.setClaim ⟨T,none⟩ T,.slice T,.slice x.unit] = some (_,_) :=
    Machine.run_of_step _ h₁ (Machine.run_of_step _ h₂
      (Machine.run_of_step _ h₃ (Machine.run_of_step _ h₄ rfl)))
  refine ⟨_,_,hrun,b,rfl,hT,?_⟩
  simp only [slicedOn_cons,slicedOn_nil,Axis.unit_on,if_true,hT]
  omega

/-- The accounting of a claim is right in every run whose claims are of some amounts exactly when each of these
amounts stays below the types' limits. At a limit the sum that is compared with the claim has been clipped to it. -/
theorem claim_accounting (ok : ResourceAmount → Prop) :
    (∀ total owner as s es, (∀ a ∈ as, Claims ok a) →
      accountMachine.run (AccountSystem.new total owner) as = some (s,es) → Accounted s es) ↔
    ∀ T, ok T → T.BelowLimit := by
  constructor
  · intro h T hok x
    by_contra hx
    have hT : T.on x = x.max := le_antisymm (T.on_le_max x) (not_lt.mp hx)
    obtain ⟨s,es,hr,b,hb,hused,hsum⟩ := claim_overdrawn T x hT
    have hclaims : ∀ a ∈ [AccountAction.pool (.tryAcquire none T),.setClaim ⟨T,none⟩ T,.slice T,.slice x.unit],
        Claims ok a := by simpa [Claims] using hok
    have := (h T none _ s es hclaims hr).exact b hb x
    omega
  · intro hT total owner as s es hclaims hr
    have hinv : ClaimInv s.account s.slices := by
      refine accountMachine.run_obeys (I := fun s => ClaimInv s.account s.slices)
        (fun s a s' e hi hc hs => hi.step hc hs) (claimInv_new owner) ?_ hr
      refine accountMachine.obeys_of_forall (fun a ha _ => ?_) _
      have hok := hclaims a ha
      cases a with
      | setClaim r amount => exact hT amount hok
      | _ => trivial
    exact hinv.accounted (countP_took_le hr)

/-- A claim of two vCPUs, two boots out of it, a second claim that is refused, and a boot that outlasts the first. -/
theorem claim_accounting_two_boots : ∃ s es, accountMachine.run (AccountSystem.new (.mk 4096 4) none)
      [.pool (.acquire none (.mk 2048 2)),.setClaim ⟨.mk 2048 2,none⟩ (.mk 2048 2),
        .slice (.mk 1024 1),.slice (.mk 1024 1),.pool (.acquire none (.mk 512 1)),
        .setClaim ⟨.mk 512 1,none⟩ (.mk 512 1),.dropSlice ⟨.mk 1024 1⟩,
        .releaseClaim,.dropSlice ⟨.mk 1024 1⟩] = some (s,es) ∧ Accounted s es := by
  obtain ⟨⟨s,es⟩,hr⟩ := Option.isSome_iff_exists.mp
    (show (accountMachine.run (AccountSystem.new (.mk 4096 4) none)
      [.pool (.acquire none (.mk 2048 2)),.setClaim ⟨.mk 2048 2,none⟩ (.mk 2048 2),
        .slice (.mk 1024 1),.slice (.mk 1024 1),.pool (.acquire none (.mk 512 1)),
        .setClaim ⟨.mk 512 1,none⟩ (.mk 512 1),.dropSlice ⟨.mk 1024 1⟩,
        .releaseClaim,.dropSlice ⟨.mk 1024 1⟩]).isSome by decide)
  refine ⟨s,es,hr,(claim_accounting ResourceAmount.BelowLimit).mpr (fun _ => id) _ _ _ s es ?_ hr⟩
  intro a ha
  simp only [List.mem_cons,List.not_mem_nil,or_false] at ha
  obtain rfl | rfl | rfl | rfl | rfl | rfl | rfl | rfl | rfl := ha
  all_goals first | trivial | exact fun x => by cases x <;> decide

/-- A claim of every vCPU there can be lends them all out to one boot and one more to the next. -/
theorem claim_accounting_at_limit : ¬ ∀ total owner as s es,
    accountMachine.run (AccountSystem.new total owner) as = some (s,es) → Accounted s es := by
  intro h
  obtain ⟨s,es,hr,b,hb,hused,hsum⟩ := claim_overdrawn (.mk 4096 4294967295) .cpus rfl
  have := (h _ _ _ s es hr).exact b hb .cpus
  omega

end Provium.Scheduler
