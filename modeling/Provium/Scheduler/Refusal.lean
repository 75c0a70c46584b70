import Provium.Scheduler.Deadlock

/-! A refused acquire against the other threads' steps alone. While the call is parked the pool is,
apart from the call's ticket and its owner's count of waiters, the pool those steps would have made
without it; the refusal takes exactly these two away. The wait sink of the calling thread is told of
a park when the ticket is taken and of an unpark when it is given up. -/
namespace Provium.Scheduler
open Lib

/-- What a thread tells its wait sink. -/
inductive SinkCall where
  | park
  | unpark
  deriving DecidableEq, Repr

/-- The owner with one more acquire waiting. -/
def OwnerState.oneMore (w : OwnerState) : OwnerState := { w with waiting := w.waiting+1 }

theorem OwnerState.oneMore_not_idle (w : OwnerState) : ¬ w.oneMore.isIdle :=
  fun h => Nat.succ_ne_zero w.waiting h.2

theorem OwnerState.eq_default_of_idle {w : OwnerState} (h : w.isIdle) : w = default := by
  obtain ⟨held,waiting⟩ := w
  obtain ⟨hz,rfl⟩ := h
  have hh : held = default := by
    ext x
    rw [ResourceAmount.default_on]
    exact ResourceAmount.isZero_iff.mp hz x
  rw [hh]
  rfl

namespace PoolState

/-- What another thread's step does to the pool, its outcome given. -/
def redo (s : PoolState) : Action → Event → PoolState
  | .newOwner,_ => s.mint.2
  | .acquire owner amount,.granted _ => s.grant owner amount
  | .acquire owner amount,.parked _ => (s.enqueue owner amount none).2
  | .acquire owner amount,.refused _ (.deadlock _) =>
    let (t,s) := s.enqueue owner amount none
    s.withdraw owner (some t)
  | .wake t,.granted r => (s.withdraw r.owner (some t)).grant r.owner r.amount
  | .wake t,.refused owner _ => s.withdraw owner (some t)
  | .tryAcquire owner amount,.granted _ => s.grant owner amount
  | .drop r,_ => s.release r.amount r.owner
  | _,_ => s

/-- The steps of a run without the passes of the call with ticket `t`. -/
def alone (t : ℕ) (s : PoolState) : List (Action × Event × List SinkCall) → PoolState
  | [] => s
  | (a,e,_)::steps => (if a = .wake t then s else s.redo a e).alone t steps

/-- The same capacity, free amount and counter, and the same contents of both maps. -/
structure Same (p q : PoolState) : Prop where
  total : p.total = q.total
  available : p.available = q.available
  nextId : p.nextId = q.nextId
  owners : ∀ o, p.owners.lookup o = q.owners.lookup o
  waiting : ∀ u, p.waiting.lookup u = q.waiting.lookup u

section Owners
variable (s : PoolState) {o o' : OwnerId} (f : OwnerState → OwnerState)

theorem lookup_ownerMut_self : (s.ownerMut o f).owners.lookup o = some (f (s.owner o)) :=
  AList.lookup_insert _

theorem lookup_ownerMut_ne (h : o' ≠ o) :
    (s.ownerMut o f).owners.lookup o' = s.owners.lookup o' := AList.lookup_insert_ne h

theorem ownerMut_owner_self : (s.ownerMut o f).owner o = f (s.owner o) := by
  rw [owner,lookup_ownerMut_self]
  rfl

theorem lookup_prune_ne (h : o' ≠ o) : (s.prune o).owners.lookup o' = s.owners.lookup o' := by
  unfold prune
  split
  · exact AList.lookup_erase_ne h
  · rfl

theorem lookup_prune_self :
    (s.prune o).owners.lookup o = (s.owners.lookup o).filter fun w => decide (¬ w.isIdle) := by
  unfold prune
  cases hl : s.owners.lookup o with
  | none => simp [hl]
  | some w =>
    rw [Option.filter_some]
    by_cases hw : w.isIdle
    · simp [hw]
    · simp [hl,hw]

/-- Pruning an entry changes nothing that it says. -/
@[simp] theorem prune_owner : (s.prune o).owner o' = s.owner o' := by
  by_cases h : o' = o
  · subst h
    unfold owner
    rw [lookup_prune_self]
    cases hl : s.owners.lookup o' with
    | none => rfl
    | some w =>
      rw [Option.filter_some]
      by_cases hw : w.isIdle
      · rw [if_neg (by simpa using hw),OwnerState.eq_default_of_idle hw]
        rfl
      · simp [hw]
  · rw [owner,lookup_prune_ne s h,owner]

end Owners

/-- `p` is `q` with one more acquire waiting, of this owner and under this ticket. -/
structure Beside (o : OwnerId) (t : ℕ) (amount : ResourceAmount) (p q : PoolState) : Prop where
  total : p.total = q.total
  available : p.available = q.available
  nextId : p.nextId = q.nextId
  taken : t ≤ q.nextId
  unlisted : q.waiting.lookup t = none
  waiting : ∀ u, p.waiting.lookup u = if u = t then some amount else q.waiting.lookup u
  others : ∀ o' ≠ o, p.owners.lookup o' = q.owners.lookup o'
  own : p.owners.lookup o = some (q.owner o).oneMore

namespace Beside
variable {o : OwnerId} {t : ℕ} {amount : ResourceAmount} {p q : PoolState}

theorem owner_self (h : Beside o t amount p q) : p.owner o = (q.owner o).oneMore := by
  rw [owner,h.own]
  rfl

theorem owner_ne (h : Beside o t amount p q) {o' : OwnerId} (ho : o' ≠ o) :
    p.owner o' = q.owner o' := by
  rw [owner,h.others o' ho,owner]

theorem mint (h : Beside o t amount p q) : Beside o t amount p.mint.2 q.mint.2 :=
  ⟨h.total,h.available,congrArg (·+1) h.nextId,h.taken.trans (Nat.le_succ _),h.unlisted,h.waiting,
    h.others,h.own⟩

/-- An update of an owner's entry that does not look at the count of waiters, or counts alike on
both sides. -/
theorem ownerMut (h : Beside o t amount p q) (o' : OwnerId) {f : OwnerState → OwnerState}
    (hf : o' = o → f (q.owner o).oneMore = (f (q.owner o)).oneMore) :
    Beside o t amount (p.ownerMut o' f) (q.ownerMut o' f) := by
  refine ⟨h.total,h.available,h.nextId,h.taken,h.unlisted,h.waiting,fun o₁ ho₁ => ?_,?_⟩
  · by_cases he : o₁ = o'
    · subst he
      rw [lookup_ownerMut_self,lookup_ownerMut_self,h.owner_ne ho₁]
    · rw [lookup_ownerMut_ne _ _ he,lookup_ownerMut_ne _ _ he]
      exact h.others o₁ ho₁
  · by_cases he : o' = o
    · subst he
      rw [lookup_ownerMut_self,ownerMut_owner_self,h.owner_self,hf rfl]
    · have hne : o ≠ o' := fun hc => he hc.symm
      have hq : (q.ownerMut o' f).owner o = q.owner o := by
        rw [owner,lookup_ownerMut_ne _ _ hne,owner]
      rw [lookup_ownerMut_ne _ _ hne,hq]
      exact h.own

/-- With the call waiting its owner's entry stays; any other is pruned on both sides or on none. -/
theorem prune (h : Beside o t amount p q) (o' : OwnerId) :
    Beside o t amount (p.prune o') (q.prune o') := by
  refine ⟨by simpa using h.total,by simpa using h.available,by simpa using h.nextId,
    by simpa using h.taken,by simpa using h.unlisted,by simpa using h.waiting,
    fun o₁ ho₁ => ?_,?_⟩
  · by_cases he : o₁ = o'
    · subst he
      rw [lookup_prune_self,lookup_prune_self,h.others o₁ ho₁]
    · rw [lookup_prune_ne _ he,lookup_prune_ne _ he]
      exact h.others o₁ ho₁
  · rw [prune_owner]
    by_cases he : o' = o
    · subst he
      rw [lookup_prune_self,h.own]
      simp [OwnerState.oneMore_not_idle]
    · rw [lookup_prune_ne _ fun hc => he hc.symm]
      exact h.own

theorem setAvailable (h : Beside o t amount p q) {a b : ResourceAmount} (hab : a = b) :
    Beside o t amount { p with available := a } { q with available := b } :=
  ⟨h.total,hab,h.nextId,h.taken,h.unlisted,h.waiting,h.others,h.own⟩

theorem grant (h : Beside o t amount p q) (owner : Option OwnerId) (a : ResourceAmount) :
    Beside o t amount (p.grant owner a) (q.grant owner a) := by
  have hset := h.setAvailable (congrArg (·.saturatingSub a) h.available)
  cases owner with
  | none => exact hset
  | some o' =>
    exact hset.ownerMut o' (f := fun w => { w with held := w.held.saturatingAdd a }) fun _ => rfl

theorem release (h : Beside o t amount p q) (owner : Option OwnerId) (a : ResourceAmount) :
    Beside o t amount (p.release a owner) (q.release a owner) := by
  have hback := h.setAvailable (congrArg (·.saturatingAdd a) h.available)
  have hfit : (p.available.saturatingAdd a).fitsIn p.total ↔
      (q.available.saturatingAdd a).fitsIn q.total := by rw [h.available,h.total]
  have hset : Beside o t amount
      (if ¬ (p.available.saturatingAdd a).fitsIn p.total then { p with available := p.total }
        else { p with available := p.available.saturatingAdd a })
      (if ¬ (q.available.saturatingAdd a).fitsIn q.total then { q with available := q.total }
        else { q with available := q.available.saturatingAdd a }) := by
    by_cases hcap : (q.available.saturatingAdd a).fitsIn q.total
    · rw [if_neg (not_not_intro (hfit.mpr hcap)),if_neg (not_not_intro hcap)]
      exact hback
    · rw [if_pos (mt hfit.mp hcap),if_pos hcap]
      exact h.setAvailable h.total
  cases owner with
  | none => exact hset
  | some o' =>
    refine Beside.prune ?_ o'
    exact hset.ownerMut o' (f := fun w => { w with held := w.held.saturatingSub a }) fun _ => rfl

theorem enqueue (h : Beside o t amount p q) (owner : Option OwnerId) (a : ResourceAmount) :
    Beside o t amount (p.enqueue owner a none).2 (q.enqueue owner a none).2 := by
  have hnew : t ≠ q.nextId+1 := by
    have := h.taken
    omega
  have hjoin : Beside o t amount { p.mint.2 with waiting := p.waiting.insert (p.nextId+1) a }
      { q.mint.2 with waiting := q.waiting.insert (q.nextId+1) a } := by
    refine ⟨h.total,h.available,congrArg (·+1) h.nextId,h.taken.trans (Nat.le_succ _),?_,fun u => ?_,
      h.others,h.own⟩
    · exact (AList.lookup_insert_ne hnew).trans h.unlisted
    · change AList.lookup u (p.waiting.insert (p.nextId+1) a) =
        if u = t then some amount else AList.lookup u (q.waiting.insert (q.nextId+1) a)
      rw [h.nextId]
      by_cases hu : u = q.nextId+1
      · subst hu
        rw [AList.lookup_insert,AList.lookup_insert,if_neg hnew.symm]
      · rw [AList.lookup_insert_ne hu,AList.lookup_insert_ne hu]
        exact h.waiting u
  cases owner with
  | none => exact hjoin
  | some o' => exact hjoin.ownerMut o' fun _ => rfl

/-- Another acquire leaves the waiting set. Where it is the same owner's, the count goes down on
both sides, since that acquire is counted on both. -/
theorem withdraw (h : Beside o t amount p q) {owner : Option OwnerId} {u : ℕ} (hu : u ≠ t)
    (hw : owner = some o → (q.owner o).waiting ≠ 0) :
    Beside o t amount (p.withdraw owner (some u)) (q.withdraw owner (some u)) := by
  have hleave : Beside o t amount { p with waiting := p.waiting.erase u }
      { q with waiting := q.waiting.erase u } := by
    refine ⟨h.total,h.available,h.nextId,h.taken,?_,fun u' => ?_,h.others,h.own⟩
    · exact (AList.lookup_erase_ne hu.symm).trans h.unlisted
    · change AList.lookup u' (p.waiting.erase u) =
        if u' = t then some amount else AList.lookup u' (q.waiting.erase u)
      by_cases hu' : u' = u
      · subst hu'
        rw [AList.lookup_erase,AList.lookup_erase,if_neg hu]
      · rw [AList.lookup_erase_ne hu',AList.lookup_erase_ne hu']
        exact h.waiting u'
  cases owner with
  | none => exact hleave
  | some o' =>
    refine (hleave.ownerMut o' fun ho => ?_).prune o'
    subst ho
    have hpos := hw rfl
    change (⟨(q.owner o').held,(q.owner o').waiting+1-1⟩ : OwnerState) =
      ⟨(q.owner o').held,(q.owner o').waiting-1+1⟩
    congr 1
    omega

/-- The call gives up: its ticket and its count go, and the rule for entries is applied. -/
theorem leave (h : Beside o t amount p q) : (p.withdraw (some o) (some t)).Same (q.prune o) := by
  have hfold (w : OwnerState) : ({ w.oneMore with waiting := w.oneMore.waiting-1 } : OwnerState) = w :=
    rfl
  have hown : (p.withdraw (some o) (some t)).owners.lookup o =
      (some (q.owner o)).filter fun w => decide (¬ w.isIdle) := by
    refine (lookup_prune_self _).trans ?_
    rw [lookup_ownerMut_self]
    change (some { p.owner o with waiting := (p.owner o).waiting-1 }).filter _ = _
    rw [h.owner_self,hfold]
  refine ⟨?_,?_,?_,fun o' => ?_,fun u => ?_⟩
  · simpa using h.total
  · simpa using h.available
  · simpa using h.nextId
  · by_cases ho : o' = o
    · subst ho
      rw [hown,lookup_prune_self,owner]
      cases q.owners.lookup o' with
      | none => rfl
      | some w => rfl
    · refine (lookup_prune_ne _ ho).trans ?_
      rw [lookup_prune_ne _ ho,lookup_ownerMut_ne _ _ ho]
      exact h.others o' ho
  · simp only [PoolState.withdraw,prune_waiting,ownerMut_waiting]
    by_cases hu : u = t
    · subst hu
      rw [AList.lookup_erase,h.unlisted]
    · rw [AList.lookup_erase_ne hu,h.waiting u,if_neg hu]

end Beside
end PoolState

/-- Everything one pass over the acquire loop can do. -/
inductive Pass (s : System) (owner : Option OwnerId) (amount : ResourceAmount) (ticket : Option ℕ) :
    System → Event → Prop
  | granted {s' : System} (pool : s'.pool = (s.pool.withdraw owner ticket).grant owner amount)
      (parked : s'.parked = leave s.parked ticket) : Pass s owner amount ticket s' (.granted ⟨amount,owner⟩)
  | refused {s' : System} {o : OwnerId} {d : Deadlock} (who : owner = some o)
      (pool : s'.pool = (s.pool.enqueue owner amount ticket).2.withdraw owner
        (some (s.pool.enqueue owner amount ticket).1))
      (parked : s'.parked = leave s.parked ticket) :
      Pass s owner amount ticket s' (.refused owner (.deadlock d))
  | waits : Pass s owner amount ticket (s.queued owner amount ticket)
      (.parked (s.pool.enqueue owner amount ticket).1)

theorem pass_of_attempt {s s' : System} {owner : Option OwnerId} {amount : ResourceAmount}
    {ticket : Option ℕ} {e : Event}
    (hs : s.settle owner amount ticket (s.pool.attempt owner amount ticket) = (s',e)) :
    Pass s owner amount ticket s' e := by
  by_cases hfit : amount.fitsIn s.pool.available
  · rw [settle_attempt_fits hfit] at hs
    cases hs
    exact .granted rfl rfl
  · by_cases hd : owner = none ∨ (s.queued owner amount ticket).pool.deadlock amount = none
    · rw [settle_attempt_waits hfit hd,← PoolState.enqueue_ticket s.pool owner amount ticket] at hs
      cases hs
      exact .waits
    · obtain ⟨ho,hd⟩ := not_or.mp hd
      obtain ⟨o,rfl⟩ := Option.ne_none_iff_exists'.mp ho
      obtain ⟨d,hd⟩ := Option.ne_none_iff_exists'.mp hd
      rw [settle_attempt_refused hfit hd,← PoolState.enqueue_ticket s.pool (some o) amount ticket] at hs
      cases hs
      exact .refused rfl rfl rfl

/-- An acquire's first pass, if its amount is within the total at all. -/
theorem acquire_pass {s s' : System} {owner : Option OwnerId} {amount : ResourceAmount} {e : Event}
    (hs : s.step (.acquire owner amount) = some (s',e)) :
    (s' = s ∧ e = .refused owner (.exceedsTotal amount s.pool.total)) ∨
      Pass s owner amount none s' e := by
  simp only [System.step,PoolState.acquireInner,Option.some.injEq] at hs
  split at hs
  · cases hs
    exact .inl ⟨rfl,rfl⟩
  · exact .inr (pass_of_attempt hs)

theorem wake_pass {s s' : System} {t : ℕ} {e : Event} (hs : s.step (.wake t) = some (s',e)) :
    ∃ p ∈ s.parked, p.ticket = t ∧ Pass s p.owner p.amount (some t) s' e := by
  simp only [System.step,Option.map_eq_some_iff] at hs
  obtain ⟨p,hp,hs⟩ := hs
  obtain ⟨hm,ht⟩ := find_ticket hp
  exact ⟨p,hm,ht,pass_of_attempt hs⟩

section Call
variable {s s' : System} {t : ℕ} {a : Action} {e : Event}

/-- The ticket is not among the parked ones, and no later acquire will get it. -/
def Gone (s : System) (t : ℕ) : Prop := (∀ p ∈ s.parked, p.ticket ≠ t) ∧ t ≤ s.pool.nextId

theorem mem_wait_ticket {parked : List Parked} {owner : Option OwnerId} {amount : ResourceAmount}
    {u : ℕ} {ticket : Option ℕ} {p : Parked} (hp : p ∈ wait parked owner amount u ticket) :
    (ticket = none ∧ p.ticket = u) ∨ ∃ p' ∈ parked, p'.ticket = p.ticket := by
  cases ticket with
  | none =>
    rcases List.mem_cons.mp hp with rfl | hp
    · exact .inl ⟨rfl,rfl⟩
    · exact .inr ⟨p,hp,rfl⟩
  | some v =>
    obtain ⟨p',hp',rfl⟩ := List.mem_map.mp hp
    refine .inr ⟨p',hp',?_⟩
    split <;> rfl

theorem Pass.nextId_le {owner : Option OwnerId} {amount : ResourceAmount} {ticket : Option ℕ}
    (h : Pass s owner amount ticket s' e) : s.pool.nextId ≤ s'.pool.nextId := by
  cases h with
  | granted pool =>
    rw [pool]
    simp
  | refused _ pool =>
    rw [pool]
    simp only [PoolState.withdraw_nextId,PoolState.enqueue_nextId]
    split <;> omega
  | waits =>
    simp only [System.queued,PoolState.enqueue_nextId]
    split <;> omega

theorem step_nextId_le (hs : s.step a = some (s',e)) : s.pool.nextId ≤ s'.pool.nextId := by
  cases a with
  | newOwner =>
    cases hs
    exact Nat.le_succ _
  | acquire owner amount =>
    obtain ⟨rfl,-⟩ | hp := acquire_pass hs
    · exact le_rfl
    · exact hp.nextId_le
  | wake u =>
    obtain ⟨p,-,-,hp⟩ := wake_pass hs
    exact hp.nextId_le
  | tryAcquire owner amount =>
    simp only [System.step,PoolState.tryAcquireInner] at hs
    by_cases hfit : amount.fitsIn s.pool.available
    · rw [if_neg (not_not_intro hfit)] at hs
      cases hs
      exact (PoolState.grant_nextId _ _ _).ge
    · rw [if_pos hfit] at hs
      cases hs
      exact le_rfl
  | drop r =>
    simp only [System.step] at hs
    split at hs
    · cases hs
      exact (PoolState.release_nextId _ _ _).ge
    · cases hs

/-- A ticket that was given up does not come back. -/
theorem Gone.step (hi : Inv s) (hg : Gone s t) (hs : s.step a = some (s',e)) : Gone s' t := by
  refine ⟨?_,hg.2.trans (step_nextId_le hs)⟩
  cases hi.effect hs with
  | idle live parked =>
    rw [parked]
    exact hg.1
  | @granted s' owner amount ticket asks fits live parked =>
    rw [parked]
    cases ticket with
    | none => exact hg.1
    | some u => exact fun p hp => hg.1 p (List.mem_of_mem_filter hp)
  | @refused s' o amount ticket d asks unfit dead live parked =>
    rw [parked]
    cases ticket with
    | none => exact hg.1
    | some u => exact fun p hp => hg.1 p (List.mem_of_mem_filter hp)
  | @waits owner amount ticket u asks unfit spared =>
    intro p hp ht
    obtain ⟨rfl,hnew⟩ | ⟨p',hp',he⟩ := mem_wait_ticket hp
    · have := hg.2
      rw [ht] at hnew
      simp only [Option.getD_none] at hnew
      omega
    · exact hg.1 p' hp' (he.trans ht)
  | dropped act mem live parked =>
    rw [parked]
    intro p hp
    obtain ⟨p',hp',rfl⟩ := List.mem_map.mp hp
    exact hg.1 p' hp'

/-- Only the acquire itself takes its ticket out of the waiting set. -/
theorem Registered.step {owner : Option OwnerId} {amount : ResourceAmount} (hi : Inv s)
    (hr : Registered s owner amount (some t)) (hs : s.step a = some (s',e)) (ha : a ≠ .wake t) :
    Registered s' owner amount (some t) := by
  obtain ⟨p,hp,ht,ho,hamount⟩ := hr
  have hleave {ticket : Option ℕ} (hne : ticket ≠ some t) : p ∈ leave s.parked ticket := by
    cases ticket with
    | none => exact hp
    | some u =>
      refine List.mem_filter.mpr ⟨hp,decide_eq_true ?_⟩
      rintro rfl
      exact hne (congrArg some ht)
  have hasks {o' : Option OwnerId} {amount' : ResourceAmount} {ticket : Option ℕ}
      (asks : Asks s a o' amount' ticket) : ticket ≠ some t := by
    rintro rfl
    exact ha asks.1
  cases hi.effect hs with
  | idle live parked =>
    refine ⟨p,?_,ht,ho,hamount⟩
    rw [parked]
    exact hp
  | granted asks fits live parked =>
    refine ⟨p,?_,ht,ho,hamount⟩
    rw [parked]
    exact hleave (hasks asks)
  | refused asks unfit dead live parked =>
    refine ⟨p,?_,ht,ho,hamount⟩
    rw [parked]
    exact hleave (hasks asks)
  | @waits owner' amount' ticket u asks unfit spared =>
    cases ticket with
    | none => exact ⟨p,List.mem_cons_of_mem _ hp,ht,ho,hamount⟩
    | some u =>
      have hne : p.ticket ≠ u := fun hc => hasks asks (congrArg some (hc.symm.trans ht))
      refine ⟨p,List.mem_map.mpr ⟨p,hp,?_⟩,ht,ho,hamount⟩
      rw [if_neg hne]
  | dropped act mem live parked =>
    refine ⟨{ p with notified := true },?_,ht,ho,hamount⟩
    rw [parked]
    exact List.mem_map.mpr ⟨p,hp,rfl⟩

end Call

/-- `attempt` with what the thread tells its wait sink on the way. -/
def PoolState.attemptTold (s : PoolState) (owner : Option OwnerId) (amount : ResourceAmount)
    (ticket : Option ℕ) : (Progress × PoolState) × List SinkCall :=
  if amount.fitsIn s.available then
    ((.granted,(s.withdraw owner ticket).grant owner amount),
      if ticket.isSome then [.unpark] else [])
  else
    let told := if ticket.isNone then [SinkCall.park] else []
    let (t,s) := s.enqueue owner amount ticket
    match owner with
    | none => ((.parked t,s),told)
    | some o =>
      match s.deadlock amount with
      | some d => ((.refused (.deadlock d),s.withdraw (some o) (some t)),told++[.unpark])
      | none => ((.parked t,s),told)

/-- What the thread that takes a step tells its wait sink. -/
def System.told (s : System) : Action → List SinkCall
  | .acquire owner amount =>
    if ¬ amount.fitsIn s.pool.total then [] else (s.pool.attemptTold owner amount none).2
  | .wake t =>
    ((s.parked.find? fun p => decide (p.ticket = t)).map fun p =>
      (s.pool.attemptTold p.owner p.amount (some t)).2).getD []
  | _ => []

/-- The pool with the wait sinks listening. -/
def toldMachine : Machine System Action (Event × List SinkCall) :=
  ⟨fun s a => (s.step a).map fun q => (q.1,q.2,s.told a)⟩

theorem toldMachine_step {s s' : System} {a : Action} {e : Event} {calls : List SinkCall} :
    toldMachine.step s a = some (s',e,calls) ↔ s.step a = some (s',e) ∧ calls = s.told a := by
  simp only [toldMachine,Option.map_eq_some_iff,Prod.mk.injEq,Prod.exists]
  constructor
  · rintro ⟨s₁,e₁,hs,rfl,rfl,rfl⟩
    exact ⟨hs,rfl⟩
  · rintro ⟨hs,rfl⟩
    exact ⟨s',e,hs,rfl,rfl,rfl⟩

theorem toldMachine_inv {total : ResourceAmount} {as : List Action}
    {os : List (Event × List SinkCall)} {s : System}
    (h : toldMachine.run (System.new total) as = some (s,os)) : Inv s := by
  refine toldMachine.run_invariant (fun s a s' o hi hs => ?_) (inv_new total) h
  obtain ⟨e,calls⟩ := o
  exact (hi.step (toldMachine_step.mp hs).1).1

/-- What a call with this ticket has told its sink before a pass. -/
def toldBefore (ticket : Option ℕ) : List SinkCall := if ticket.isSome then [.park] else []

namespace PoolState
variable (s : PoolState) (owner : Option OwnerId) (amount : ResourceAmount) (ticket : Option ℕ)

/-- Each way out of a pass: a call that goes on waiting has told its sink of one park, and one that
returns of nothing at all or of one park and the unpark. -/
theorem attemptTold_calls :
    ((∃ t, (s.attempt owner amount ticket).1 = .parked t) ∧
      toldBefore ticket++(s.attemptTold owner amount ticket).2 = [.park]) ∨
    ((∀ t, (s.attempt owner amount ticket).1 ≠ .parked t) ∧
      (toldBefore ticket++(s.attemptTold owner amount ticket).2 = [.park,.unpark] ∨
        (ticket = none ∧ (s.attemptTold owner amount ticket).2 = []))) := by
  unfold attemptTold attempt
  by_cases hfit : amount.fitsIn s.available
  · rw [if_pos hfit,if_pos hfit]
    refine .inr ⟨by simp,?_⟩
    cases ticket with
    | none => exact .inr ⟨rfl,rfl⟩
    | some t => exact .inl rfl
  · rw [if_neg hfit,if_neg hfit]
    cases owner with
    | none =>
      refine .inl ⟨⟨_,rfl⟩,?_⟩
      cases ticket <;> rfl
    | some o =>
      dsimp only
      cases (s.enqueue (some o) amount ticket).2.deadlock amount with
      | some d =>
        refine .inr ⟨by simp,.inl ?_⟩
        cases ticket <;> rfl
      | none =>
        refine .inl ⟨⟨_,rfl⟩,?_⟩
        cases ticket <;> rfl

end PoolState

theorem settle_parked (s : System) (owner : Option OwnerId) (amount : ResourceAmount)
    (ticket : Option ℕ) (r : PoolState.Progress × PoolState) (u : ℕ) :
    (s.settle owner amount ticket r).2 = .parked u ↔ r.1 = .parked u := by
  obtain ⟨_ | _ | _,_⟩ := r <;> simp [System.settle]

/-- The first pass of a call: it tells of a park if it stays. -/
theorem told_acquire {s s' : System} {owner : Option OwnerId} {amount : ResourceAmount} {e : Event}
    (hs : s.step (.acquire owner amount) = some (s',e)) :
    ((∃ t, e = .parked t) ∧ s.told (.acquire owner amount) = [.park]) ∨
    ((∀ t, e ≠ .parked t) ∧ (s.told (.acquire owner amount) = [.park,.unpark] ∨
      s.told (.acquire owner amount) = [])) := by
  simp only [System.step,PoolState.acquireInner,Option.some.injEq] at hs
  simp only [System.told]
  split at hs
  · next htotal =>
    cases hs
    rw [if_pos htotal]
    exact .inr ⟨by simp,.inr rfl⟩
  · next htotal =>
    rw [if_neg htotal]
    have he : (s.settle owner amount none (s.pool.attempt owner amount none)).2 = e := by rw [hs]
    obtain ⟨⟨t,ht⟩,hcalls⟩ | ⟨hout,hcalls⟩ := s.pool.attemptTold_calls owner amount none
    · exact .inl ⟨⟨t,he ▸ (settle_parked _ _ _ _ _ t).mpr ht⟩,hcalls⟩
    · refine .inr ⟨fun t hc => hout t ?_,hcalls.imp id And.right⟩
      exact (settle_parked s owner amount none _ t).mp (he.trans hc)

/-- A later pass: it tells of the unpark if it returns. -/
theorem told_wake {s s' : System} {t : ℕ} {e : Event} (hs : s.step (.wake t) = some (s',e)) :
    ((∃ u, e = .parked u) ∧ s.told (.wake t) = []) ∨
    ((∀ u, e ≠ .parked u) ∧ s.told (.wake t) = [.unpark]) := by
  simp only [System.step,Option.map_eq_some_iff] at hs
  obtain ⟨p,hp,hs⟩ := hs
  have htold : s.told (.wake t) = (s.pool.attemptTold p.owner p.amount (some t)).2 := by
    simp only [System.told,hp,Option.map_some,Option.getD_some]
  have he : (s.settle p.owner p.amount (some t) (s.pool.attempt p.owner p.amount (some t))).2 = e := by
    rw [hs]
  rw [htold]
  obtain ⟨⟨u,hu⟩,hcalls⟩ | ⟨hout,hcalls | ⟨hnone,-⟩⟩ :=
    s.pool.attemptTold_calls p.owner p.amount (some t)
  · exact .inl ⟨⟨u,he ▸ (settle_parked _ _ _ _ _ u).mpr hu⟩,(List.cons.inj hcalls).2⟩
  · refine .inr ⟨fun u hc => hout u ?_,(List.cons.inj hcalls).2⟩
    exact (settle_parked s p.owner p.amount (some t) _ u).mp (he.trans hc)
  · cases hnone

/-- What the call with ticket `t` tells its sink over these steps. -/
def ownCalls (t : ℕ) (steps : List (Action × Event × List SinkCall)) : List SinkCall :=
  steps.flatMap fun x => if x.1 = .wake t then x.2.2 else []

namespace PoolState.Same
variable {p q : PoolState}

theorem owner (h : p.Same q) (o : OwnerId) : p.owner o = q.owner o := by
  rw [PoolState.owner,h.owners,PoolState.owner]

end PoolState.Same

section Others
variable {s s' : System} {o : OwnerId} {t : ℕ} {amount : ResourceAmount} {q : PoolState} {a : Action}
  {e : Event}

/-- Where the same owner has another acquire parked, it is counted without the call too. -/
theorem waiting_beside (hb : PoolState.Beside o t amount s.pool q) (hi : Inv s)
    (hr : Registered s (some o) amount (some t)) {p : Parked} (hp : p ∈ s.parked)
    (hpt : p.ticket ≠ t) (hpo : p.owner = some o) : (q.owner o).waiting ≠ 0 := by
  obtain ⟨p₀,hp₀,rfl,hp₀o,-⟩ := hr
  have hleft := hi.withdraw hp₀
  rw [hp₀o] at hleft
  have hsame : (s.pool.withdraw (some o) (some p₀.ticket)).owner o = q.owner o :=
    (hb.leave.owner o).trans (q.prune_owner)
  rw [← hsame]
  exact hleft.waits_iff.mp ⟨p,List.mem_filter.mpr ⟨hp,decide_eq_true hpt⟩,hpo⟩

/-- A step of another thread does the same to both pools. -/
theorem PoolState.Beside.step (hb : PoolState.Beside o t amount s.pool q) (hi : Inv s)
    (hr : Registered s (some o) amount (some t)) (hs : s.step a = some (s',e)) (ha : a ≠ .wake t) :
    PoolState.Beside o t amount s'.pool (q.redo a e) := by
  cases a with
  | newOwner =>
    cases hs
    exact hb.mint
  | acquire owner amount' =>
    obtain ⟨rfl,rfl⟩ | hp := acquire_pass hs
    · exact hb
    · cases hp with
      | granted pool =>
        rw [pool]
        exact hb.grant owner amount'
      | @refused s' o' d who pool =>
        subst who
        rw [pool]
        have hjoin := hb.enqueue (some o') amount'
        have hticket : (s.pool.enqueue (some o') amount' none).1 =
            (q.enqueue (some o') amount' none).1 := by
          rw [PoolState.enqueue_ticket,PoolState.enqueue_ticket,hb.nextId]
        rw [hticket]
        refine hjoin.withdraw ?_ fun ho => ?_
        · have := hb.taken
          rw [PoolState.enqueue_ticket,Option.getD_none]
          omega
        · obtain rfl := Option.some.inj ho
          simp only [PoolState.enqueue]
          rw [PoolState.ownerMut_owner_self]
          exact Nat.succ_ne_zero _
      | waits => exact hb.enqueue owner amount'
  | wake u =>
    obtain ⟨p,hp,hpt,hpass⟩ := wake_pass hs
    have hu : u ≠ t := fun hc => ha (hc ▸ rfl)
    have hleave : PoolState.Beside o t amount (s.pool.withdraw p.owner (some u))
        (q.withdraw p.owner (some u)) :=
      hb.withdraw hu fun ho => waiting_beside hb hi hr hp (hpt ▸ hu) ho
    cases hpass with
    | granted pool =>
      rw [pool]
      exact hleave.grant p.owner p.amount
    | refused who pool =>
      rw [pool]
      exact hleave
    | waits => exact hb
  | tryAcquire owner amount' =>
    simp only [System.step,PoolState.tryAcquireInner] at hs
    by_cases hfit : amount'.fitsIn s.pool.available
    · rw [if_neg (not_not_intro hfit)] at hs
      cases hs
      exact hb.grant owner amount'
    · rw [if_pos hfit] at hs
      cases hs
      exact hb
  | drop r =>
    simp only [System.step] at hs
    split at hs
    · cases hs
      exact hb.release r.owner r.amount
    · cases hs

end Others

theorem registered_unique {s : System} (hi : Inv s) {owner : Option OwnerId}
    {amount : ResourceAmount} {t : ℕ} (hr : Registered s owner amount (some t)) {p : Parked}
    (hp : p ∈ s.parked) (ht : p.ticket = t) : p.owner = owner ∧ p.amount = amount := by
  obtain ⟨p₀,hp₀,ht₀,ho,ha⟩ := hr
  obtain rfl := List.inj_on_of_nodup_map hi.tickets_nodup hp hp₀ (ht.trans ht₀.symm)
  exact ⟨ho,ha⟩

/-- A call that is parked at both ends of a run has been parked all along: it has told its sink of
nothing more, and the pool is the one the others' steps make, with this call waiting. -/
theorem call_waits {s₁ s₂ : System} {as : List Action} {os : List (Event × List SinkCall)}
    {owner : Option OwnerId} {amount : ResourceAmount} {t : ℕ} {q : PoolState} (hi : Inv s₁)
    (hreg : Registered s₁ owner amount (some t)) (ht : t ≤ s₁.pool.nextId)
    (hb : ∀ o, owner = some o → PoolState.Beside o t amount s₁.pool q)
    (hrun : toldMachine.run s₁ as = some (s₂,os)) (hstill : ∃ p ∈ s₂.parked, p.ticket = t) :
    Inv s₂ ∧ Registered s₂ owner amount (some t) ∧ ownCalls t (as.zip os) = [] ∧
      ∀ o, owner = some o → PoolState.Beside o t amount s₂.pool (q.alone t (as.zip os)) := by
  induction as generalizing s₁ os q with
  | nil =>
    cases hrun
    exact ⟨hi,hreg,rfl,hb⟩
  | cons a as ih =>
    obtain ⟨s',⟨e,calls⟩,os',hstep,hrest,rfl⟩ := (toldMachine.run_cons).mp hrun
    obtain ⟨hs,rfl⟩ := toldMachine_step.mp hstep
    have hi' : Inv s' := (hi.step hs).1
    have ht' : t ≤ s'.pool.nextId := ht.trans (step_nextId_le hs)
    simp only [List.zip_cons_cons,ownCalls,List.flatMap_cons,PoolState.alone]
    by_cases ha : a = .wake t
    · subst ha
      rw [if_pos rfl,if_pos rfl]
      obtain ⟨p,hp,hpt,hpass⟩ := wake_pass hs
      obtain ⟨rfl,rfl⟩ := registered_unique hi hreg hp hpt
      -- A pass that returned would have taken the ticket away for good.
      have hback (hparked : s'.parked = leave s₁.parked (some t)) : False := by
        have hgone : Gone s' t := by
          refine ⟨fun p' hp' => ?_,ht'⟩
          rw [hparked] at hp'
          exact of_decide_eq_true (List.mem_filter.mp hp').2
        have hlast : Inv s₂ ∧ Gone s₂ t := by
          refine toldMachine.run_invariant (I := fun s => Inv s ∧ Gone s t)
            (fun s b s'' o hI hb => ?_) ⟨hi',hgone⟩ hrest
          obtain ⟨e'',calls''⟩ := o
          obtain ⟨hb,-⟩ := toldMachine_step.mp hb
          exact ⟨(hI.1.step hb).1,hI.2.step hI.1 hb⟩
        obtain ⟨p',hp',hpt'⟩ := hstill
        exact hlast.2.1 p' hp' hpt'
      obtain ⟨-,hcalls⟩ | ⟨hout,-⟩ := told_wake hs
      · cases hpass with
        | granted pool parked => exact (hback parked).elim
        | refused who pool parked => exact (hback parked).elim
        | waits =>
          rw [hcalls]
          exact ih hi' hreg.queued ht' hb hrest
      · cases hpass with
        | granted pool parked => exact (hback parked).elim
        | refused who pool parked => exact (hback parked).elim
        | waits => exact absurd rfl (hout _)
    · rw [if_neg ha,if_neg ha]
      refine ih hi' (hreg.step hi hs ha) ht' (fun o ho => ?_) hrest
      subst ho
      exact (hb o rfl).step hi hreg hs ha

/-- A call that takes its ticket stands beside the pool as it was, one number used up. -/
theorem Inv.beside_enqueue {s : System} (hi : Inv s) (o : OwnerId) (amount : ResourceAmount) :
    PoolState.Beside o (s.pool.nextId+1) amount (s.pool.enqueue (some o) amount none).2
      s.pool.mint.2 := by
  have hnew : s.pool.waiting.lookup (s.pool.nextId+1) = none := by
    apply AList.lookup_eq_none.mpr
    intro hm
    have hkeys := (hi.tickets.map Sigma.fst).mem_iff.mp hm
    simp only [List.map_map,List.mem_map,Function.comp_apply] at hkeys
    obtain ⟨p,hp,ht⟩ := hkeys
    have := hi.fresh p hp
    omega
  refine ⟨rfl,rfl,rfl,le_rfl,hnew,fun u => ?_,fun o' ho => ?_,?_⟩
  · change AList.lookup u (s.pool.waiting.insert (s.pool.nextId+1) amount) = _
    by_cases hu : u = s.pool.nextId+1
    · subst hu
      rw [AList.lookup_insert,if_pos rfl]
    · rw [AList.lookup_insert_ne hu,if_neg hu]
      rfl
  · exact PoolState.lookup_ownerMut_ne _ _ ho
  · exact PoolState.lookup_ownerMut_self _ _

/-- A refused acquire leaves nothing behind. From any state the pool can reach: a request above the
total changes nothing at all, and a call refused over a deadlock, at once or after any number of
passes among any steps of the other threads, leaves what those steps alone make, its ticket's number
used up and its owner's entry pruned. However the call ends it has told its thread's wait sink of
nothing, or of one park and then of the unpark. -/
theorem refused_acquire_leaves_nothing {total : ResourceAmount} {as₀ : List Action}
    {os₀ : List (Event × List SinkCall)} {s s₁ : System} {owner : Option OwnerId}
    {amount : ResourceAmount} {e₁ : Event} {calls₁ : List SinkCall}
    (h₀ : toldMachine.run (System.new total) as₀ = some (s,os₀))
    (h₁ : toldMachine.step s (.acquire owner amount) = some (s₁,e₁,calls₁)) :
    (∀ o r b, e₁ = .refused o (.exceedsTotal r b) → s₁.pool = s.pool) ∧
    (∀ o d, e₁ = .refused o (.deadlock d) →
      ∃ o', owner = some o' ∧ s₁.pool.Same (s.pool.mint.2.prune o')) ∧
    ((∀ t, e₁ ≠ .parked t) → calls₁ = [] ∨ calls₁ = [.park,.unpark]) ∧
    ∀ t, e₁ = .parked t → ∀ as os s₂, toldMachine.run s₁ as = some (s₂,os) →
      ∀ s₃ e₂ calls₂, toldMachine.step s₂ (.wake t) = some (s₃,e₂,calls₂) →
        (∀ o x, e₂ = .refused o x → ∃ o', owner = some o' ∧
          s₃.pool.Same ((s.pool.mint.2.alone t (as.zip os)).prune o')) ∧
        ((∀ u, e₂ ≠ .parked u) → calls₁++ownCalls t (as.zip os)++calls₂ = [.park,.unpark]) := by
  have hi : Inv s := toldMachine_inv h₀
  obtain ⟨hs,rfl⟩ := toldMachine_step.mp h₁
  refine ⟨fun o r b he => ?_,fun o d he => ?_,fun hout => ?_,fun t he as os s₂ hrun s₃ e₂ calls₂ h₂ => ?_⟩
  · obtain ⟨rfl,-⟩ | hp := acquire_pass hs
    · rfl
    · subst he
      cases hp
  · obtain ⟨-,he'⟩ | hp := acquire_pass hs
    · rw [he'] at he
      cases he
    · subst he
      cases hp with
      | @refused s' o' d' who pool =>
        subst who
        refine ⟨o',rfl,?_⟩
        rw [pool,PoolState.enqueue_ticket]
        exact (hi.beside_enqueue o' amount).leave
  · obtain ⟨⟨t,ht⟩,-⟩ | ⟨-,hcalls⟩ := told_acquire hs
    · exact absurd ht (hout t)
    · exact hcalls.symm
  · subst he
    have hfirst : s.told (.acquire owner amount) = [.park] := by
      obtain ⟨-,hcalls⟩ | ⟨hout,-⟩ := told_acquire hs
      · exact hcalls
      · exact absurd rfl (hout t)
    obtain ⟨-,he'⟩ | hp := acquire_pass hs
    · cases he'
    · cases hp
      obtain ⟨hlast,rfl⟩ := toldMachine_step.mp h₂
      obtain ⟨p,hp₂,hpt,hpass⟩ := wake_pass hlast
      have hreg : Registered (s.queued owner amount none) owner amount
          (some (s.pool.enqueue owner amount none).1) := by
        rw [PoolState.enqueue_ticket]
        exact Registered.queued trivial
      have ht : (s.pool.enqueue owner amount none).1 ≤ (s.queued owner amount none).pool.nextId := by
        simp [System.queued]
      have hb : ∀ o, owner = some o → PoolState.Beside o (s.pool.enqueue owner amount none).1 amount
          (s.queued owner amount none).pool s.pool.mint.2 := by
        rintro o rfl
        exact hi.beside_enqueue o amount
      obtain ⟨hi₂,hreg₂,hquiet,hbeside⟩ :=
        call_waits hi.queued hreg ht hb hrun ⟨p,hp₂,hpt⟩
      obtain ⟨rfl,rfl⟩ := registered_unique hi₂ hreg₂ hp₂ hpt
      refine ⟨fun o x he₂ => ?_,fun hout => ?_⟩
      · subst he₂
        cases hpass with
        | @refused s' o' d who pool =>
          refine ⟨o',who,?_⟩
          have hleft := (hbeside o' who).leave
          rw [← who] at hleft
          rw [pool]
          exact hleft
      · obtain ⟨⟨u,hu⟩,-⟩ | ⟨-,hcalls⟩ := told_wake hlast
        · exact absurd hu (hout u)
        · rw [hfirst,hquiet,hcalls]
          rfl

/-- A call waits while an anonymous reservation is out and another thread of its file gets one; it
is refused once the anonymous one is dropped. -/
theorem refused_acquire_leaves_nothing_woken : ∃ s os s₁ calls₁ os' s₂ s₃ x calls₂,
    toldMachine.run (System.new (.mk 4 2)) [.acquire none (.mk 1 0)] = some (s,os) ∧
    toldMachine.step s (.acquire (some ⟨2⟩) (.mk 4 0)) = some (s₁,.parked 1,calls₁) ∧
    toldMachine.run s₁ [.acquire (some ⟨2⟩) (.mk 2 2),.drop ⟨.mk 1 0,none⟩] = some (s₂,os') ∧
    toldMachine.step s₂ (.wake 1) = some (s₃,.refused (some ⟨2⟩) x,calls₂) ∧
    s₃.pool.Same ((s.pool.mint.2.alone 1
      ([.acquire (some ⟨2⟩) (.mk 2 2),.drop ⟨.mk 1 0,none⟩].zip os')).prune ⟨2⟩) ∧
    calls₁++ownCalls 1
      ([.acquire (some ⟨2⟩) (.mk 2 2),.drop ⟨.mk 1 0,none⟩].zip os')++calls₂ = [.park,.unpark] := by
  have hrun : ((toldMachine.run (System.new (.mk 4 2)) [.acquire none (.mk 1 0),
      .acquire (some ⟨2⟩) (.mk 4 0),.acquire (some ⟨2⟩) (.mk 2 2),.drop ⟨.mk 1 0,none⟩,
      .wake 1]).map Prod.snd) = some [(.granted ⟨.mk 1 0,none⟩,[]),(.parked 1,[.park]),
        (.granted ⟨.mk 2 2,some ⟨2⟩⟩,[]),(.dropped,[]),(.refused (some ⟨2⟩)
          (.deadlock ⟨.mk 4 0,.mk 2 0,.mk 4 2,1,1⟩),[.unpark])] := by decide
  obtain ⟨⟨s₃,_⟩,hrun,rfl⟩ := Option.map_eq_some_iff.mp hrun
  obtain ⟨s,_,_,h₀,hrun,he⟩ := (toldMachine.run_cons).mp hrun
  cases he
  obtain ⟨s₁,_,_,h₁,hrun,he⟩ := (toldMachine.run_cons).mp hrun
  cases he
  obtain ⟨s₁',_,_,ha,hrun,he⟩ := (toldMachine.run_cons).mp hrun
  cases he
  obtain ⟨s₂,_,_,hb,hrun,he⟩ := (toldMachine.run_cons).mp hrun
  cases he
  obtain ⟨s₃',_,_,hw,hend,he⟩ := (toldMachine.run_cons).mp hrun
  cases he
  cases hend
  have hend (s : System) : toldMachine.run s [] = some (s,[]) := rfl
  have hmid := toldMachine.run_of_step ha (toldMachine.run_of_step hb (hend s₂))
  obtain ⟨hsame,hcalls⟩ := (refused_acquire_leaves_nothing
    (toldMachine.run_of_step h₀ (hend s)) h₁).2.2.2 1 rfl _ _ _ hmid _ _ _ hw
  obtain ⟨o,ho,hsame⟩ := hsame _ _ rfl
  cases ho
  exact ⟨s,_,s₁,_,_,s₂,s₃,_,_,toldMachine.run_of_step h₀ (hend s),h₁,hmid,hw,hsame,
    hcalls fun u hu => by cases hu⟩

/-- The first owner has been granted nothing at all and has an entry that says so; the second holds
and waits. The refusal of the first owner's next request takes the entry away. -/
theorem refusal_prunes_idle_entry : ∃ s os s₁ d,
    poolMachine.run (System.new (.mk 4 2)) [.newOwner,.newOwner,.acquire (some ⟨1⟩) (.mk 0 0),
      .acquire none (.mk 1 0),.acquire (some ⟨2⟩) (.mk 2 2),.acquire (some ⟨2⟩) (.mk 3 0),
      .drop ⟨.mk 1 0,none⟩] = some (s,os) ∧
    s.step (.acquire (some ⟨1⟩) (.mk 3 1)) =
      some (s₁,.refused (some ⟨1⟩) (.deadlock d)) ∧
    ¬ ∀ o, s₁.pool.owners.lookup o = s.pool.owners.lookup o := by
  refine ⟨_,_,_,_,rfl,rfl,fun h => ?_⟩
  have h₁ := h ⟨1⟩
  revert h₁
  decide

end Provium.Scheduler
