import Provium.Scheduler.Conservation

/-! Hold-and-wait over whole runs with one thread per file. One inversion lemma says everything a
step can do to the reservations and the parked acquires; the invariants of such runs are case
analyses of it, and so is the main result, that only a drop can bring hold-and-wait about. -/
namespace Provium.Scheduler
open Lib

/-- One thread per file: an owner with an acquire parked takes no other step. -/
def Disciplined (s : System) : Action → Prop
  | .acquire (some o) _ => ∀ p ∈ s.parked, p.owner ≠ some o
  | .tryAcquire (some o) _ => ∀ p ∈ s.parked, p.owner ≠ some o
  | .drop ⟨_,some o⟩ => ∀ p ∈ s.parked, p.owner ≠ some o
  | _ => True

instance (s : System) (a : Action) : Decidable (Disciplined s a) := by
  unfold Disciplined
  split <;> infer_instance

/-- The pool as the scheduler uses it. -/
def fileMachine : Machine System Action Event := poolMachine.restrict Disciplined

/-- The request an action makes: a call brings no ticket, a parked acquire its own. -/
def Asks (s : System) (a : Action) (owner : Option OwnerId) (amount : ResourceAmount) :
    Option ℕ → Prop
  | none => a = .acquire owner amount ∨ a = .tryAcquire owner amount
  | some t => a = .wake t ∧ Registered s owner amount (some t)

/-- Everything a step can do to the reservations and the parked acquires. -/
inductive Effect (s : System) (a : Action) : System → Event → Prop
  | idle {s' : System} {e : Event} (live : s'.live = s.live) (parked : s'.parked = s.parked)
      (grants : ∀ r, e ≠ .granted r) (verdict : ∀ o d, e ≠ .refused o (.deadlock d)) :
      Effect s a s' e
  | granted {s' : System} {owner : Option OwnerId} {amount : ResourceAmount} {ticket : Option ℕ}
      (asks : Asks s a owner amount ticket) (fits : s.ledger.Fits amount)
      (live : s'.live = ⟨amount,owner⟩::s.live) (parked : s'.parked = leave s.parked ticket) :
      Effect s a s' (.granted ⟨amount,owner⟩)
  | refused {s' : System} {o : OwnerId} {amount : ResourceAmount} {ticket : Option ℕ}
      {d : Deadlock} (asks : Asks s a (some o) amount ticket) (unfit : ¬ s.ledger.Fits amount)
      (dead : (s.queued (some o) amount ticket).ledger.Deadlocked)
      (live : s'.live = s.live) (parked : s'.parked = leave s.parked ticket) :
      Effect s a s' (.refused (some o) (.deadlock d))
  | waits {owner : Option OwnerId} {amount : ResourceAmount} {ticket : Option ℕ} {t : ℕ}
      (asks : Asks s a owner amount ticket) (unfit : ¬ s.ledger.Fits amount)
      (spared : owner = none ∨ ¬ (s.queued owner amount ticket).ledger.Deadlocked) :
      Effect s a (s.queued owner amount ticket) (.parked t)
  | dropped {s' : System} {r : Reservation} (act : a = .drop r) (mem : r ∈ s.live)
      (live : s'.live = s.live.erase r)
      (parked : s'.parked = s.parked.map fun p => { p with notified := true }) :
      Effect s a s' .dropped

theorem Inv.attempt_effect {s s' : System} {a : Action} {e : Event} {owner : Option OwnerId}
    {amount : ResourceAmount} {ticket : Option ℕ} (h : Inv s) (ha : Asks s a owner amount ticket)
    (hs : s.settle owner amount ticket (s.pool.attempt owner amount ticket) = (s',e)) :
    Effect s a s' e := by
  by_cases hfit : amount.fitsIn s.pool.available
  · rw [settle_attempt_fits hfit] at hs
    cases hs
    exact .granted ha (h.fits_iff.mpr hfit) rfl rfl
  · have hunfit := mt h.fits_iff.mp hfit
    have hdead := h.queued.deadlock_iff (s := s.queued owner amount ticket) amount
    by_cases hv : owner ≠ none ∧ (s.queued owner amount ticket).ledger.Deadlocked
    · obtain ⟨ho,hv⟩ := hv
      obtain ⟨o,rfl⟩ := Option.ne_none_iff_exists'.mp ho
      obtain ⟨d,hd⟩ := Option.isSome_iff_exists.mp (hdead.mpr hv)
      rw [settle_attempt_refused hfit hd] at hs
      cases hs
      exact .refused ha hunfit hv rfl rfl
    · have hspared : owner = none ∨ ¬ (s.queued owner amount ticket).ledger.Deadlocked := by
        by_contra hc
        obtain ⟨ho,hd⟩ := not_or.mp hc
        exact hv ⟨ho,not_not.mp hd⟩
      have hd : owner = none ∨ (s.queued owner amount ticket).pool.deadlock amount = none :=
        hspared.imp id fun hn => by
          by_contra hc
          exact hn (hdead.mp (Option.ne_none_iff_isSome.mp hc))
      rw [settle_attempt_waits hfit hd] at hs
      cases hs
      exact .waits ha hunfit hspared

/-- The inversion of a step. -/
theorem Inv.effect {s s' : System} {a : Action} {e : Event} (h : Inv s)
    (hs : s.step a = some (s',e)) : Effect s a s' e := by
  cases a with
  | newOwner =>
    cases hs
    exact .idle rfl rfl (by simp) (by simp)
  | acquire owner amount =>
    simp only [System.step,PoolState.acquireInner,Option.some.injEq] at hs
    split at hs
    · cases hs
      exact .idle rfl rfl (by simp) (by simp)
    · have ha : Asks s (.acquire owner amount) owner amount none := .inl rfl
      exact h.attempt_effect ha hs
  | wake t =>
    simp only [System.step,Option.map_eq_some_iff] at hs
    obtain ⟨p,hp,hs⟩ := hs
    obtain ⟨hm,rfl⟩ := find_ticket hp
    have ha : Asks s (.wake p.ticket) p.owner p.amount (some p.ticket) := ⟨rfl,p,hm,rfl,rfl,rfl⟩
    exact h.attempt_effect ha hs
  | tryAcquire owner amount =>
    simp only [System.step,PoolState.tryAcquireInner] at hs
    by_cases hfit : amount.fitsIn s.pool.available
    · rw [if_neg (not_not_intro hfit)] at hs
      cases hs
      have ha : Asks s (.tryAcquire owner amount) owner amount none := .inr rfl
      exact .granted ha (h.fits_iff.mpr hfit) rfl rfl
    · rw [if_pos hfit] at hs
      cases hs
      exact .idle rfl rfl (by simp) (by simp)
  | drop r =>
    simp only [System.step] at hs
    split at hs
    · next hr =>
      cases hs
      exact .dropped rfl hr rfl rfl
    · cases hs

theorem drop_effect {s s' : System} {r : Reservation} {e : Event}
    (hs : s.step (.drop r) = some (s',e)) :
    r ∈ s.live ∧ s'.live = s.live.erase r ∧
      s'.parked = s.parked.map fun p => { p with notified := true } := by
  simp only [System.step] at hs
  split at hs
  · next hr => cases hs; exact ⟨hr,rfl,rfl⟩
  · cases hs

theorem settle_pool (s : System) (owner : Option OwnerId) (amount : ResourceAmount)
    (ticket : Option ℕ) (r : PoolState.Progress × PoolState) :
    (s.settle owner amount ticket r).1.pool = r.2 := by
  obtain ⟨p,q⟩ := r
  cases p <;> rfl

theorem attempt_total (q : PoolState) (owner : Option OwnerId) (amount : ResourceAmount)
    (ticket : Option ℕ) : (q.attempt owner amount ticket).2.total = q.total := by
  unfold PoolState.attempt
  split
  · simp
  · cases owner with
    | none => simp
    | some o => dsimp only; split <;> simp

/-- The capacity never changes. -/
theorem step_total {s s' : System} {a : Action} {e : Event} (hs : s.step a = some (s',e)) :
    s'.pool.total = s.pool.total := by
  cases a with
  | newOwner => cases hs; rfl
  | acquire owner amount =>
    simp only [System.step,Option.some.injEq] at hs
    rw [← congrArg (fun q => q.1.pool) hs,settle_pool]
    unfold PoolState.acquireInner
    split
    · rfl
    · exact attempt_total _ _ _ _
  | wake t =>
    simp only [System.step,Option.map_eq_some_iff] at hs
    obtain ⟨p,-,hs⟩ := hs
    rw [← congrArg (fun q => q.1.pool) hs,settle_pool]
    exact attempt_total _ _ _ _
  | tryAcquire owner amount =>
    simp only [System.step,PoolState.tryAcquireInner] at hs
    split at hs
    · next q hq =>
      cases hs
      split at hq
      · cases hq
      · cases hq; simp
    · cases hs; rfl
  | drop r =>
    simp only [System.step] at hs
    split at hs
    · cases hs; simp
    · cases hs

theorem Asks.registered {s : System} {a : Action} {owner : Option OwnerId}
    {amount : ResourceAmount} {ticket : Option ℕ} (h : Asks s a owner amount ticket) :
    Registered s owner amount ticket := by
  cases ticket with
  | none => trivial
  | some t => exact h.2

theorem mem_leave {parked : List Parked} {ticket : Option ℕ} {p : Parked} :
    p ∈ leave parked ticket ↔ p ∈ parked ∧ ticket ≠ some p.ticket := by
  cases ticket with
  | none => simp [leave]
  | some t =>
    simp only [leave,List.mem_filter,decide_eq_true_eq,ne_eq,Option.some.injEq]
    exact and_congr_right fun _ => not_congr eq_comm

/-- A parked acquire of the queued state is the one that asks, or one that was parked. -/
theorem mem_queued {s : System} {owner : Option OwnerId} {amount : ResourceAmount}
    {ticket : Option ℕ} {p : Parked} (hp : p ∈ (s.queued owner amount ticket).parked) :
    p.ticket = ticket.getD (s.pool.nextId+1) ∨ p ∈ leave s.parked ticket := by
  cases ticket with
  | none =>
    rcases List.mem_cons.mp hp with rfl | hp
    · exact .inl rfl
    · exact .inr hp
  | some t =>
    obtain ⟨p',hp',rfl⟩ := List.mem_map.mp hp
    by_cases ht : p'.ticket = t
    · exact .inl (by simp [ht])
    · simp only [ht,if_false]
      exact .inr (mem_leave.mpr ⟨hp',fun hc => ht (Option.some.inj hc).symm⟩)

/-- Queueing disturbs none of the others. -/
theorem mem_queued_of_leave {s : System} {owner : Option OwnerId} {amount : ResourceAmount}
    {ticket : Option ℕ} {p : Parked} (hp : p ∈ leave s.parked ticket) :
    p ∈ (s.queued owner amount ticket).parked := by
  obtain ⟨hm,ht⟩ := mem_leave.mp hp
  cases ticket with
  | none => exact List.mem_cons_of_mem _ hm
  | some t =>
    have hne : p.ticket ≠ t := fun hc => ht (by rw [hc])
    exact List.mem_map.mpr ⟨p,hm,by simp [hne]⟩

theorem Inv.ticket_inj {s : System} (h : Inv s) {p p' : Parked} (hp : p ∈ s.parked)
    (hp' : p' ∈ s.parked) (ht : p.ticket = p'.ticket) : p = p' :=
  List.inj_on_of_nodup_map h.tickets_nodup hp hp' ht

theorem queued_owner {s : System} (h : Inv s) {owner : Option OwnerId} {amount : ResourceAmount}
    {ticket : Option ℕ} (hr : Registered s owner amount ticket) {p : Parked}
    (hp : p ∈ (s.queued owner amount ticket).parked)
    (ht : p.ticket = ticket.getD (s.pool.nextId+1)) : p.owner = owner ∧ p.amount = amount := by
  obtain ⟨p',hp',ht',ho,ha⟩ := hr.queued
  have he := h.queued.ticket_inj hp hp' (ht.trans ht'.symm)
  exact ⟨he ▸ ho,he ▸ ha⟩

/-- The books, one parked acquire for each owner, and no parked request for nothing. -/
structure FileInv (s : System) : Prop extends Inv s where
  solo : ∀ p ∈ s.parked, ∀ p' ∈ s.parked, ∀ o, p.owner = some o → p'.owner = some o →
    p.ticket = p'.ticket
  nonzero : ∀ p ∈ s.parked, ¬ p.amount.isZero

/-- Nothing else of the asking owner is parked. -/
theorem FileInv.alone {s : System} (h : FileInv s) {a : Action} (hd : Disciplined s a)
    {o : OwnerId} {amount : ResourceAmount} {ticket : Option ℕ}
    (ha : Asks s a (some o) amount ticket) {p : Parked} (hp : p ∈ leave s.parked ticket) :
    p.owner ≠ some o := by
  obtain ⟨hm,ht⟩ := mem_leave.mp hp
  cases ticket with
  | none =>
    rcases ha with rfl | rfl
    · exact hd p hm
    · exact hd p hm
  | some t =>
    obtain ⟨-,p',hp',rfl,ho,-⟩ := ha
    intro hc
    exact ht (congrArg some (h.solo p' hp' p hm o ho hc))

theorem Books.fits_of_isZero {s : System} (h : Books s) {amount : ResourceAmount}
    (hz : amount.isZero) : s.ledger.Fits amount := by
  intro x
  have := h.available x
  have := ResourceAmount.isZero_iff.mp hz x
  change sumOn x s.live+amount.on x ≤ s.pool.total.on x
  omega

theorem fileInv_new (total : ResourceAmount) : FileInv (System.new total) where
  toInv := inv_new total
  solo p hp := by cases hp
  nonzero p hp := by cases hp

/-- Fewer parked acquires are still one for each owner. -/
theorem FileInv.of_sublist {s s' : System} (h : FileInv s) (hi : Inv s')
    (hsub : ∀ p ∈ s'.parked, p ∈ s.parked) : FileInv s' :=
  ⟨hi,fun p hp p' hp' => h.solo p (hsub p hp) p' (hsub p' hp'),fun p hp => h.nonzero p (hsub p hp)⟩

theorem FileInv.queued {s : System} {a : Action} {owner : Option OwnerId}
    {amount : ResourceAmount} {ticket : Option ℕ} (h : FileInv s) (hd : Disciplined s a)
    (asks : Asks s a owner amount ticket) (unfit : ¬ s.ledger.Fits amount) :
    FileInv (s.queued owner amount ticket) := by
  have hown {q : Parked} := queued_owner h.toInv asks.registered (p := q)
  refine ⟨h.toInv.queued,fun p hp p' hp' o ho ho' => ?_,fun p hp => ?_⟩
  · -- The waiting request is the only one of its owner, the others were there before.
    rcases mem_queued hp with ht | hl <;> rcases mem_queued hp' with ht' | hl'
    · exact ht.trans ht'.symm
    · have howner := (hown hp ht).1.symm.trans ho
      subst howner
      exact absurd ho' (h.alone hd asks hl')
    · have howner := (hown hp' ht').1.symm.trans ho'
      subst howner
      exact absurd ho (h.alone hd asks hl)
    · exact h.solo p (mem_leave.mp hl).1 p' (mem_leave.mp hl').1 o ho ho'
  · rcases mem_queued hp with ht | hl
    · rw [(hown hp ht).2]
      exact fun hz => unfit (h.fits_of_isZero hz)
    · exact h.nonzero p (mem_leave.mp hl).1

theorem FileInv.step {s s' : System} {a : Action} {e : Event} (h : FileInv s)
    (hd : Disciplined s a) (hs : s.step a = some (s',e)) : FileInv s' := by
  have hi := (h.toInv.step hs).1
  cases h.effect hs with
  | idle _ parked => exact h.of_sublist hi fun p hp => by rwa [parked] at hp
  | granted _ _ _ parked | refused _ _ _ _ parked =>
    refine h.of_sublist hi fun p hp => ?_
    rw [parked] at hp
    exact (mem_leave.mp hp).1
  | waits asks unfit => exact h.queued hd asks unfit
  | dropped _ _ _ parked =>
    refine ⟨hi,?_,?_⟩ <;> rw [parked]
    · intro p hp p' hp' o ho ho'
      obtain ⟨q,hq,rfl⟩ := List.mem_map.mp hp
      obtain ⟨q',hq',rfl⟩ := List.mem_map.mp hp'
      exact h.solo q hq q' hq' o ho ho'
    · intro p hp
      obtain ⟨q,hq,rfl⟩ := List.mem_map.mp hp
      exact h.nonzero q hq

theorem FileInv.of_reachable {total : ResourceAmount} {s : System}
    (h : fileMachine.Reachable (System.new total) s) : FileInv s := by
  refine Machine.Reachable.invariant fileMachine ?_ (fileInv_new total) h
  intro s a s' e hi hs
  obtain ⟨hd,hs⟩ := (Machine.restrict_step poolMachine).mp hs
  exact hi.step hd hs

theorem queued_fits {s : System} {owner : Option OwnerId} {amount a : ResourceAmount}
    {ticket : Option ℕ} : (s.queued owner amount ticket).ledger.Fits a ↔ s.ledger.Fits a := by
  rw [queued_ledger]
  rfl

/-- Deadlock at the queued state was there before, when it is not the asking owner's. -/
theorem deadlocked_of_queued {s : System} (h : Inv s) {owner : Option OwnerId}
    {amount : ResourceAmount} {ticket : Option ℕ} (hr : Registered s owner amount ticket)
    (ho : ∀ o, owner = some o → ¬ s.ledger.Holds o) (hunfit : ¬ s.ledger.Fits amount)
    (hd : (s.queued owner amount ticket).ledger.Deadlocked) : s.ledger.Deadlocked := by
  refine hd.transfer (fun r _ => Iff.rfl) ?_ fun p hp => ?_
  · rintro o hold ⟨p,hp,hpo⟩
    rcases mem_queued hp with ht | hl
    · exact absurd hold (ho o ((queued_owner h hr hp ht).1.symm.trans hpo))
    · exact ⟨p,(mem_leave.mp hl).1,hpo⟩
  · by_cases ht : ticket = some p.ticket
    · subst ht
      obtain ⟨p',hp',ht',-,ha⟩ := hr
      rw [h.ticket_inj hp hp' ht'.symm,ha]
      exact hunfit
    · exact mt queued_fits.mpr (hd.unfit p (mem_queued_of_leave (mem_leave.mpr ⟨hp,ht⟩)))

theorem fits_congr {s s' : System} {amount : ResourceAmount} (ht : s'.pool.total = s.pool.total)
    (hl : ∀ x, sumOn x s'.live = sumOn x s.live) :
    s'.ledger.Fits amount ↔ s.ledger.Fits amount := by
  refine forall_congr' fun x => ?_
  change sumOn x s'.live+_ ≤ s'.pool.total.on x ↔ sumOn x s.live+_ ≤ s.pool.total.on x
  rw [hl x,ht]

/-- A step after which the same nonzero reservations are out and the same acquires parked. -/
theorem deadlocked_congr {s s' : System} (ht : s'.pool.total = s.pool.total)
    (hl : ∀ x, sumOn x s'.live = sumOn x s.live)
    (hlive : ∀ r : Reservation, ¬ r.amount.isZero → (r ∈ s'.live ↔ r ∈ s.live))
    (hparked : s'.parked.map Parked.request = s.parked.map Parked.request) :
    s'.ledger.Deadlocked ↔ s.ledger.Deadlocked := by
  have hmem {ps ps' : List Parked} (he : ps'.map Parked.request = ps.map Parked.request)
      {p : Parked} (hp : p ∈ ps) : ∃ p' ∈ ps', p'.owner = p.owner ∧ p'.amount = p.amount := by
    have := List.mem_map_of_mem (f := Parked.request) hp
    rw [← he] at this
    obtain ⟨p',hp',hr⟩ := List.mem_map.mp this
    exact ⟨p',hp',congrArg (·.2.1) hr,congrArg (·.2.2) hr⟩
  constructor
  · intro h
    refine h.transfer (fun r hz => (hlive r hz).symm) ?_ fun p hp => ?_
    · rintro o - ⟨p,hp,hpo⟩
      obtain ⟨p',hp',ho,-⟩ := hmem hparked.symm hp
      exact ⟨p',hp',ho.trans hpo⟩
    · obtain ⟨p',hp',-,ha⟩ := hmem hparked hp
      rw [← ha]
      exact mt (fits_congr ht hl).mpr (h.unfit p' hp')
  · intro h
    refine h.transfer hlive ?_ fun p hp => ?_
    · rintro o - ⟨p,hp,hpo⟩
      obtain ⟨p',hp',ho,-⟩ := hmem hparked hp
      exact ⟨p',hp',ho.trans hpo⟩
    · obtain ⟨p',hp',-,ha⟩ := hmem hparked.symm hp
      rw [← ha]
      exact mt (fits_congr ht hl).mp (h.unfit p' hp')

theorem deadlocked_idle {s s' : System} (ht : s'.pool.total = s.pool.total)
    (hlive : s'.live = s.live) (hparked : s'.parked = s.parked) :
    s'.ledger.Deadlocked ↔ s.ledger.Deadlocked :=
  deadlocked_congr ht (fun x => by rw [hlive]) (fun r _ => by rw [hlive]) (by rw [hparked])

/-- A grant of nothing is never a parked request's, and leaves hold-and-wait as it was. -/
theorem FileInv.deadlocked_zero {s s' : System} {a : Action} {owner : Option OwnerId}
    {amount : ResourceAmount} {ticket : Option ℕ} (h : FileInv s)
    (ht : s'.pool.total = s.pool.total) (asks : Asks s a owner amount ticket)
    (hz : amount.isZero) (live : s'.live = ⟨amount,owner⟩::s.live)
    (parked : s'.parked = leave s.parked ticket) :
    s'.parked = s.parked ∧ (s'.ledger.Deadlocked ↔ s.ledger.Deadlocked) := by
  have hparked : s'.parked = s.parked := by
    cases ticket with
    | none => exact parked
    | some t =>
      obtain ⟨-,p,hp,-,-,rfl⟩ := asks
      exact absurd hz (h.nonzero p hp)
  refine ⟨hparked,deadlocked_congr ht (fun x => ?_) (fun r hrz => ?_) (by rw [hparked])⟩
  · rw [live,sumOn_cons,ResourceAmount.isZero_iff.mp hz x,Nat.zero_add]
  · rw [live,List.mem_cons]
    exact or_iff_right fun he => hrz (by rw [he]; exact hz)

/-- Only a drop can bring about hold-and-wait: after any other step it was there before, and the
attributed acquires that wait in it have not run since. -/
theorem FileInv.deadlocked_before {s s' : System} {a : Action} {e : Event} (h : FileInv s)
    (hd : Disciplined s a) (hs : s.step a = some (s',e)) (hnd : ∀ r, a ≠ .drop r)
    (hD : s'.ledger.Deadlocked) :
    s.ledger.Deadlocked ∧ ∀ p ∈ s'.parked, p.owner ≠ none → p ∈ s.parked := by
  have htotal := step_total hs
  cases h.effect hs with
  | idle live parked =>
    exact ⟨(deadlocked_idle htotal live parked).mp hD,fun p hp _ => by rwa [parked] at hp⟩
  | @granted _ owner amount ticket asks fits live parked =>
    by_cases hz : amount.isZero
    · obtain ⟨hparked,hiff⟩ := h.deadlocked_zero htotal asks hz live parked
      exact ⟨hiff.mp hD,fun p hp _ => by rwa [hparked] at hp⟩
    · -- The grantee holds something and is not parked.
      have hr : (⟨amount,owner⟩ : Reservation) ∈ s'.live := by rw [live]; exact List.mem_cons_self
      obtain ⟨o,rfl,p,hp,hpo⟩ := hD.stuck _ hr hz
      exact absurd hpo (h.alone hd asks (by rw [← parked]; exact hp))
  | @refused _ o amount ticket d asks unfit dead live parked =>
    have hnot : ¬ s.ledger.Holds o := by
      rintro ⟨r,hr,hro,hz⟩
      obtain ⟨o',ho',p,hp,hpo⟩ := hD.stuck r (show r ∈ s'.live by rw [live]; exact hr) hz
      cases hro.symm.trans ho'
      exact h.alone hd asks (by rw [← parked]; exact hp) hpo
    refine ⟨deadlocked_of_queued h.toInv asks.registered ?_ unfit dead,fun p hp _ => ?_⟩
    · rintro o' ho'
      cases ho'
      exact hnot
    · rw [parked] at hp
      exact (mem_leave.mp hp).1
  | @waits owner amount ticket t asks unfit spared =>
    have hnone : owner = none := spared.resolve_right (not_not_intro hD)
    subst hnone
    refine ⟨deadlocked_of_queued h.toInv asks.registered (by simp) unfit hD,fun p hp hown => ?_⟩
    rcases mem_queued hp with ht | hl
    · exact absurd (queued_owner h.toInv asks.registered hp ht).1 hown
    · exact (mem_leave.mp hl).1
  | dropped act => exact absurd act (hnd _)

/-- A step is quiet when it neither gives the verdict nor hands out anything. -/
def Quiet (e : Event) : Prop :=
  (∀ o d, e ≠ .refused o (.deadlock d)) ∧ ∀ r, e = .granted r → r.amount.isZero

/-- Hold-and-wait with the asking request added to those that wait. -/
theorem deadlocked_queued {s : System} (h : Inv s) {owner : Option OwnerId}
    {amount : ResourceAmount} {ticket : Option ℕ} (hr : Registered s owner amount ticket)
    (hunfit : ¬ s.ledger.Fits amount) (hD : s.ledger.Deadlocked) :
    (s.queued owner amount ticket).ledger.Deadlocked := by
  refine hD.transfer (fun r _ => Iff.rfl) ?_ fun p hp => mt queued_fits.mp ?_
  · rintro o - ⟨p,hp,hpo⟩
    by_cases ht : ticket = some p.ticket
    · obtain ⟨q,hq,-,hqo,-⟩ := hr.queued
      subst ht
      obtain ⟨p',hp',ht',ho',-⟩ := hr
      rw [h.ticket_inj hp hp' ht'.symm] at hpo
      exact ⟨q,hq,hqo.trans (ho'.symm.trans hpo)⟩
    · exact ⟨p,mem_queued_of_leave (mem_leave.mpr ⟨hp,ht⟩),hpo⟩
  · rcases mem_queued hp with ht | hl
    · rw [(queued_owner h hr hp ht).2]
      exact hunfit
    · exact hD.unfit p (mem_leave.mp hl).1

/-- Hold-and-wait outlasts every quiet step: its holders are parked, so nothing is released. -/
theorem FileInv.deadlocked_after {s s' : System} {a : Action} {e : Event} (h : FileInv s)
    (hd : Disciplined s a) (hs : s.step a = some (s',e)) (hq : Quiet e)
    (hD : s.ledger.Deadlocked) : s'.ledger.Deadlocked := by
  have htotal := step_total hs
  cases h.effect hs with
  | idle live parked => exact (deadlocked_idle htotal live parked).mpr hD
  | granted asks fits live parked =>
    exact (h.deadlocked_zero htotal asks (hq.2 _ rfl) live parked).2.mpr hD
  | refused => exact absurd rfl (hq.1 _ _)
  | waits asks unfit => exact deadlocked_queued h.toInv asks.registered unfit hD
  | @dropped _ r act mem live parked =>
    subst act
    have hz : r.amount.isZero := by
      by_contra hz
      obtain ⟨o,ho,p,hp,hpo⟩ := hD.stuck r mem hz
      obtain ⟨amount,owner⟩ := r
      cases ho
      exact hd p hp hpo
    refine (deadlocked_congr htotal (fun x => ?_) (fun r' hr' => ?_) ?_).mpr hD
    · rw [live,sumOn_erase mem,ResourceAmount.isZero_iff.mp hz x,Nat.zero_add]
    · rw [live]
      exact List.mem_erase_of_ne fun he => hr' (by rw [he]; exact hz)
    · rw [parked,List.map_map]
      rfl

end Provium.Scheduler
