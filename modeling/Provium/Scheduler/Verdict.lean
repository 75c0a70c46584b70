import Provium.Scheduler.Deadlock

/-! The deadlock verdict of `acquire_for`: what it proves about every continuation, when the pool
owes it, and on whom it falls. -/
namespace Provium.Scheduler
open Lib

/-- Some owner holds something, every such owner is parked, nothing is held anonymously, and no
parked request fits in what is available. -/
structure HoldAndWait (s : System) : Prop where
  holder : ∃ o, s.ledger.Holds o
  parked : ∀ o, s.ledger.Holds o → s.ledger.Waits o
  anonymous : ∀ r ∈ s.live, r.owner = none → r.amount.isZero
  unfit : ∀ p ∈ s.parked, ¬ p.amount.fitsIn s.pool.available

theorem Books.holdAndWait_iff {s : System} (h : Books s) :
    HoldAndWait s ↔ s.ledger.Deadlocked := by
  constructor
  · rintro ⟨⟨o,r,hr,-,hz⟩,hparked,hanon,hunfit⟩
    refine ⟨⟨r,hr,hz⟩,fun r' hr' hz' => ?_,fun p hp => mt h.fits_iff.mp (hunfit p hp)⟩
    cases ho' : r'.owner with
    | none => exact absurd (hanon r' hr' ho') hz'
    | some o' => exact ⟨o',rfl,hparked o' ⟨r',hr',ho',hz'⟩⟩
  · rintro ⟨⟨r,hr,hz⟩,hstuck,hunfit⟩
    refine ⟨?_,fun o ⟨r',hr',ho',hz'⟩ => ?_,fun r' hr' hn => ?_,
      fun p hp => mt h.fits_iff.mpr (hunfit p hp)⟩
    · obtain ⟨o,ho,-⟩ := hstuck r hr hz
      exact ⟨o,r,hr,ho,hz⟩
    · obtain ⟨o',ho'',hw⟩ := hstuck r' hr' hz'
      cases ho'.symm.trans ho''
      exact hw
    · by_contra hz'
      obtain ⟨o,ho,-⟩ := hstuck r' hr' hz'
      cases hn.symm.trans ho

/-- Nobody has a pending wake-up: each parked acquire has run its loop body since the last drop. -/
def Quiescent (s : System) : Prop := ∀ p ∈ s.parked, p.notified = false

/-- In hold-and-wait every attributed acquire that is parked is still owed a wake-up. -/
theorem notified_of_deadlocked {total : ResourceAmount} {s : System}
    (h : fileMachine.Reachable (System.new total) s) :
    FileInv s ∧ (s.ledger.Deadlocked → ∀ p ∈ s.parked, p.owner ≠ none → p.notified = true) := by
  refine Machine.Reachable.invariant fileMachine
    (I := fun s => FileInv s ∧ (s.ledger.Deadlocked →
      ∀ p ∈ s.parked, p.owner ≠ none → p.notified = true)) ?_
    ⟨fileInv_new total,fun _ p hp => by cases hp⟩ h
  rintro s a s' e ⟨hi,hn⟩ hs
  obtain ⟨hd,hs⟩ := (Machine.restrict_step poolMachine).mp hs
  refine ⟨hi.step hd hs,fun hD p hp ho => ?_⟩
  by_cases hdrop : ∃ r, a = .drop r
  · obtain ⟨r,rfl⟩ := hdrop
    obtain ⟨-,-,hparked⟩ := drop_effect hs
    rw [hparked] at hp
    obtain ⟨q,-,rfl⟩ := List.mem_map.mp hp
    rfl
  · obtain ⟨hD',hmem⟩ := hi.deadlocked_before hd hs (fun r hr => hdrop ⟨r,hr⟩) hD
    exact hn hD' p (hmem p hp ho) ho

theorem not_deadlocked_of_quiescent {total : ResourceAmount} {s : System}
    (h : fileMachine.Reachable (System.new total) s) (hq : Quiescent s) :
    ¬ s.ledger.Deadlocked := by
  intro hD
  obtain ⟨r,hr,hz⟩ := hD.held
  obtain ⟨o,-,p,hp,hpo⟩ := hD.stuck r hr hz
  have hn := (notified_of_deadlocked h).2 hD p hp (by simp [hpo])
  rw [hq p hp] at hn
  cases hn

/-- Hold-and-wait lasts through every run of quiet steps. -/
theorem deadlocked_run {s t : System} {as : List Action} {es : List Event} (h : FileInv s)
    (hD : s.ledger.Deadlocked) (hr : fileMachine.run s as = some (t,es))
    (hq : ∀ e ∈ es, Quiet e) : t.ledger.Deadlocked := by
  induction as generalizing s es with
  | nil => cases hr; exact hD
  | cons a as ih =>
    obtain ⟨s',e,es',hs,hr',rfl⟩ := (Machine.run_cons fileMachine).mp hr
    obtain ⟨hd,hs⟩ := (Machine.restrict_step poolMachine).mp hs
    obtain ⟨hqe,hqs⟩ := List.forall_mem_cons.mp hq
    exact ih (h.step hd hs) (h.deadlocked_after hd hs hqe hD) hr' hqs

theorem Inv.find_parked {s : System} (h : Inv s) {p : Parked} (hp : p ∈ s.parked) :
    (s.parked.find? fun p' => decide (p'.ticket = p.ticket)) = some p := by
  obtain ⟨q,hq⟩ := Option.isSome_iff_exists.mp
    (List.find?_isSome (p := fun p' => decide (p'.ticket = p.ticket)).mpr
      ⟨p,hp,decide_eq_true rfl⟩)
  obtain ⟨hm,ht⟩ := find_ticket hq
  rw [hq,h.ticket_inj hm hp ht]

/-- In hold-and-wait a pass of an attributed acquire over its loop ends with the verdict. -/
theorem Inv.attempt_refused {s : System} (h : Inv s) (hD : s.ledger.Deadlocked) {o : OwnerId}
    {amount : ResourceAmount} {ticket : Option ℕ} (hr : Registered s (some o) amount ticket)
    (hunfit : ¬ s.ledger.Fits amount) :
    ∃ s' d, s.settle (some o) amount ticket (s.pool.attempt (some o) amount ticket) =
      (s',.refused (some o) (.deadlock d)) := by
  have hdead := h.queued.deadlock_iff (s := s.queued (some o) amount ticket) amount
  obtain ⟨d,hd⟩ := Option.isSome_iff_exists.mp (hdead.mpr (deadlocked_queued h hr hunfit hD))
  exact ⟨_,d,settle_attempt_refused (mt h.fits_iff.mpr hunfit) hd⟩

theorem Inv.wake_refused {s : System} (h : Inv s) (hD : s.ledger.Deadlocked) {p : Parked}
    (hp : p ∈ s.parked) (ho : p.owner ≠ none) :
    ∃ s' d, fileMachine.step s (.wake p.ticket) = some (s',.refused p.owner (.deadlock d)) := by
  obtain ⟨o,ho⟩ := Option.ne_none_iff_exists'.mp ho
  have hr : Registered s (some o) p.amount (some p.ticket) := ⟨p,hp,rfl,ho,rfl⟩
  obtain ⟨s',d,hs⟩ := h.attempt_refused hD hr (hD.unfit p hp)
  refine ⟨s',d,(Machine.restrict_step poolMachine).mpr ⟨trivial,?_⟩⟩
  simp only [poolMachine,System.step,h.find_parked hp,Option.map_some,ho,hs]

/-- No silent deadlock. Once nobody has a pending wake-up there is no hold-and-wait. While there
is one, every attributed waiter is owed a wake-up and fails with `Deadlock` as soon as it runs; so
by the time no wake-up is pending one of them has failed, unless a newcomer was served out of what
was still free and thereby ended the hold-and-wait. -/
theorem no_silent_deadlock (total : ResourceAmount) (s : System)
    (h : fileMachine.Reachable (System.new total) s) :
    (Quiescent s → ¬ HoldAndWait s) ∧
    (HoldAndWait s → ∀ p ∈ s.parked, p.owner ≠ none → p.notified = true ∧
      ∃ s' d, fileMachine.step s (.wake p.ticket) = some (s',.refused p.owner (.deadlock d))) ∧
    ∀ as t es, HoldAndWait s → fileMachine.run s as = some (t,es) → Quiescent t →
      (∃ o d, .refused o (.deadlock d) ∈ es) ∨ ∃ r, .granted r ∈ es ∧ ¬ r.amount.isZero := by
  have hi := FileInv.of_reachable h
  refine ⟨fun hq hw => not_deadlocked_of_quiescent h hq (hi.holdAndWait_iff.mp hw),?_,?_⟩
  · intro hw p hp ho
    have hD := hi.holdAndWait_iff.mp hw
    exact ⟨(notified_of_deadlocked h).2 hD p hp ho,hi.wake_refused hD hp ho⟩
  · intro as t es hw hr hq
    by_contra hc
    push Not at hc
    obtain ⟨hrefused,hgranted⟩ := hc
    have hquiet : ∀ e ∈ es, Quiet e := by
      refine fun e he => ⟨?_,?_⟩
      · rintro o d rfl
        exact hrefused o d he
      · rintro r rfl
        exact hgranted r he
    exact not_deadlocked_of_quiescent (h.run fileMachine hr) hq
      (deadlocked_run hi (hi.holdAndWait_iff.mp hw) hr hquiet)

/-- Two files in a cycle that a third file's drop has just closed: nobody has run since, and the
first wake-up is the verdict. -/
theorem no_silent_deadlock_closed_by_drop : ∃ s, fileMachine.Reachable (System.new (.mk 0 2)) s ∧
    HoldAndWait s ∧ ¬ Quiescent s ∧
    ∃ s' d, fileMachine.step s (.wake 4) = some (s',.refused (some ⟨1⟩) (.deadlock d)) := by
  have hr : fileMachine.Reachable (System.new (.mk 0 2)) _ :=
    ⟨[.newOwner,.newOwner,.newOwner,.acquire (some ⟨1⟩) (.mk 0 1),.acquire (some ⟨2⟩) (.mk 0 1),
      .acquire (some ⟨1⟩) (.mk 0 2),.acquire (some ⟨3⟩) (.mk 0 2),.drop ⟨.mk 0 1,some ⟨2⟩⟩],_,rfl⟩
  have hi := FileInv.of_reachable hr
  have hw := hi.holdAndWait_iff.mpr ((hi.deadlock_iff default).mp (by decide))
  have h := no_silent_deadlock (.mk 0 2) _ hr
  refine ⟨_,hr,hw,fun hq => h.1 hq hw,?_⟩
  exact (h.2.1 hw ⟨4,some ⟨1⟩,.mk 0 2,true⟩ (by decide) (by decide)).2

/-- The state in which the acquire that this action runs waits, no verdict having been given. -/
def System.stayed (s : System) : Action → System
  | .acquire owner amount => s.queued owner amount none
  | .wake t =>
    match s.parked.find? fun p => decide (p.ticket = t) with
    | some p => s.queued p.owner p.amount (some t)
    | none => s
  | _ => s

theorem Inv.stayed_eq {s : System} {a : Action} {owner : Option OwnerId} {amount : ResourceAmount}
    {ticket : Option ℕ} (h : Inv s) (ha : Asks s a owner amount ticket)
    (hne : a ≠ .tryAcquire owner amount) : s.stayed a = s.queued owner amount ticket := by
  cases ticket with
  | none =>
    cases ha.resolve_right hne
    rfl
  | some t =>
    obtain ⟨rfl,p,hp,rfl,rfl,rfl⟩ := ha
    simp only [System.stayed,h.find_parked hp]

/-- What stays true of a continuation as long as no request of the deadlock is failed: they are
all parked, and whatever was held is held. -/
structure Frozen (u t : System) : Prop where
  inv : FileInv t
  total : t.pool.total = u.pool.total
  kept : ∀ p ∈ u.parked, Registered t p.owner p.amount (some p.ticket)
  held : (u.live.filter fun r => decide (¬ r.amount.isZero)).Subperm t.live

theorem sumOn_sublist {x : Axis} {rs ss : List Reservation} (h : rs.Sublist ss) :
    sumOn x rs ≤ sumOn x ss := by
  induction h with
  | slnil => exact le_rfl
  | cons r _ ih => exact ih.trans (by simp)
  | cons_cons r _ ih => simpa using ih

theorem sumOn_subperm {x : Axis} {rs ss : List Reservation} (h : rs.Subperm ss) :
    sumOn x rs ≤ sumOn x ss := by
  obtain ⟨l,hp,hs⟩ := h
  exact (sumOn_perm hp).symm.trans_le (sumOn_sublist hs)

theorem Frozen.unfit {u t : System} (h : Frozen u t) (hD : u.ledger.Deadlocked) {p : Parked}
    (hp : p ∈ u.parked) : ¬ t.ledger.Fits p.amount := by
  intro hfit
  refine hD.unfit p hp fun x => ?_
  have hx : sumOn x t.live+p.amount.on x ≤ t.pool.total.on x := hfit x
  have hle := sumOn_subperm (x := x) h.held
  have hall : sumOn x (u.live.filter fun r => decide (¬ r.amount.isZero)) = sumOn x u.live := by
    refine sumOn_filter_eq.mpr fun r _ hr => ?_
    exact ResourceAmount.isZero_iff.mp (by simpa using hr) x
  rw [h.total] at hx
  change sumOn x u.live+p.amount.on x ≤ u.pool.total.on x
  omega

theorem registered_leave {t t' : System} {owner : Option OwnerId} {amount : ResourceAmount}
    {τ : ℕ} {ticket : Option ℕ} (h : Registered t owner amount (some τ)) (hne : ticket ≠ some τ)
    (hp : t'.parked = leave t.parked ticket) : Registered t' owner amount (some τ) := by
  obtain ⟨p,hm,rfl,ho,ha⟩ := h
  exact ⟨p,by rw [hp]; exact mem_leave.mpr ⟨hm,hne⟩,rfl,ho,ha⟩

/-- Queueing leaves every parked acquire under its ticket. -/
theorem registered_queued {t : System} (h : Inv t) {owner o : Option OwnerId}
    {amount a : ResourceAmount} {ticket : Option ℕ} {τ : ℕ}
    (hr : Registered t owner amount ticket) (hk : Registered t o a (some τ)) :
    Registered (t.queued owner amount ticket) o a (some τ) := by
  by_cases ht : ticket = some τ
  · subst ht
    have hq := hr.queued
    obtain ⟨p,hp,hpt,rfl,rfl⟩ := hr
    obtain ⟨q,hm,hqt,rfl,rfl⟩ := hk
    cases h.ticket_inj hp hm (hpt.trans hqt.symm)
    exact hq
  · obtain ⟨p,hp,rfl,ho,ha⟩ := hk
    exact ⟨p,mem_queued_of_leave (mem_leave.mpr ⟨hp,ht⟩),rfl,ho,ha⟩

/-- One step of a continuation: a request of the deadlock is not granted, and unless one of them
is failed everything stays frozen. -/
theorem Frozen.step {u t t' : System} {a : Action} {e : Event} (h : Frozen u t)
    (hD : u.ledger.Deadlocked) (hd : Disciplined t a) (hs : t.step a = some (t',e)) :
    (∀ p ∈ u.parked, a = .wake p.ticket → ∀ r, e ≠ .granted r) ∧
    ((∀ p ∈ u.parked, a = .wake p.ticket → ∀ o d, e ≠ .refused o (.deadlock d)) →
      Frozen u t') := by
  have hinv := h.inv.step hd hs
  have htotal := (step_total hs).trans h.total
  -- A request of the deadlock asks for what it asked for then.
  have hsame {p : Parked} (hp : p ∈ u.parked) {owner : Option OwnerId} {amount : ResourceAmount}
      (ha : Asks t a owner amount (some p.ticket)) : amount = p.amount := by
    obtain ⟨q,hq,hqt,-,hqa⟩ := h.kept p hp
    obtain ⟨-,q',hq',hqt',-,rfl⟩ := ha
    rw [← hqa,h.inv.ticket_inj hq' hq (hqt'.trans hqt.symm)]
  cases h.inv.effect hs with
  | idle live parked grants =>
    refine ⟨fun p _ _ => grants,fun _ => ⟨hinv,htotal,fun p hp => ?_,by rw [live]; exact h.held⟩⟩
    obtain ⟨q,hq,hk⟩ := h.kept p hp
    exact ⟨q,by rwa [parked],hk⟩
  | @granted _ owner amount ticket asks fits live parked =>
    have hne : ∀ p ∈ u.parked, ticket ≠ some p.ticket := by
      rintro p hp rfl
      exact h.unfit hD hp (hsame hp asks ▸ fits)
    refine ⟨fun p hp hw => ?_,fun _ => ⟨hinv,htotal,fun p hp => ?_,?_⟩⟩
    · cases ticket with
      | none => rcases asks with rfl | rfl <;> cases hw
      | some τ =>
        cases asks.1.symm.trans hw
        exact absurd rfl (hne p hp)
    · exact registered_leave (h.kept p hp) (hne p hp) parked
    · rw [live]
      exact h.held.cons_right _
  | @refused _ o amount ticket d asks unfit dead live parked =>
    refine ⟨fun _ _ _ _ => by simp,
      fun hno => ⟨hinv,htotal,fun p hp => ?_,by rw [live]; exact h.held⟩⟩
    refine registered_leave (h.kept p hp) ?_ parked
    rintro rfl
    exact hno p hp asks.1 _ _ rfl
  | @waits owner amount ticket τ asks unfit =>
    refine ⟨fun _ _ _ _ => by simp,fun _ => ⟨hinv,htotal,fun p hp => ?_,h.held⟩⟩
    exact registered_queued h.inv.toInv asks.registered (h.kept p hp)
  | @dropped _ r act mem live parked =>
    refine ⟨fun _ _ _ _ => by simp,fun _ => ⟨hinv,htotal,fun p hp => ?_,?_⟩⟩
    · obtain ⟨q,hq,hk⟩ := h.kept p hp
      exact ⟨{ q with notified := true },by rw [parked]; exact List.mem_map.mpr ⟨q,hq,rfl⟩,hk⟩
    · -- What was held in the deadlock is held by parked owners, and those release nothing.
      have hr : r ∉ u.live.filter fun r => decide (¬ r.amount.isZero) := by
        intro hc
        obtain ⟨hm,hz⟩ := List.mem_filter.mp hc
        obtain ⟨o,ho,p,hp,hpo⟩ := hD.stuck r hm (of_decide_eq_true hz)
        obtain ⟨q,hq,-,hqo,-⟩ := h.kept p hp
        obtain ⟨amount,owner⟩ := r
        subst act
        cases ho
        exact hd q hq (hqo.trans hpo)
      rw [live,← List.erase_of_not_mem hr]
      exact h.held.erase r

/-- One of these parked acquires fails with `Deadlock` in the course of a run. -/
def Fails (ps : List Parked) (as : List Action) (es : List Event) : Prop :=
  ∃ p ∈ ps, ∃ o d, (Action.wake p.ticket,Event.refused o (.deadlock d)) ∈ as.zip es

theorem Frozen.run {u t t' : System} {as : List Action} {es : List Event} (h : Frozen u t)
    (hD : u.ledger.Deadlocked) (hr : fileMachine.run t as = some (t',es))
    (hno : ¬ Fails u.parked as es) : Frozen u t' := by
  induction as generalizing t es with
  | nil => cases hr; exact h
  | cons a as ih =>
    obtain ⟨t₁,e,es',hs,hr',rfl⟩ := (Machine.run_cons fileMachine).mp hr
    obtain ⟨hd,hs⟩ := (Machine.restrict_step poolMachine).mp hs
    refine ih ((h.step hD hd hs).2 ?_) hr' ?_
    · rintro p hp rfl o d rfl
      exact hno ⟨p,hp,o,d,by simp⟩
    · rintro ⟨p,hp,o,d,hm⟩
      exact hno ⟨p,hp,o,d,List.mem_cons_of_mem _ hm⟩

theorem refused_ne_tryAcquire {s s' : System} {a : Action} {o owner : Option OwnerId}
    {amount : ResourceAmount} {e : AcquireError} (hs : s.step a = some (s',.refused o e)) :
    a ≠ .tryAcquire owner amount := by
  rintro rfl
  simp only [System.step] at hs
  split at hs <;> simp at hs

/-- The verdict is sound. When an acquire fails with `Deadlock`, every owner that holds something
is parked and nothing is held anonymously; and had the request stayed parked instead, then no
matter who arrives, acquires and releases, none of the requests parked at that moment would be
granted before one of them is failed. -/
theorem verdict_sound (total : ResourceAmount) (s s' : System) (a : Action)
    (o : Option OwnerId) (d : Deadlock) (h : fileMachine.Reachable (System.new total) s)
    (hs : fileMachine.step s a = some (s',.refused o (.deadlock d))) :
    (∀ o', s.ledger.Holds o' → (s.stayed a).ledger.Waits o') ∧
    (∀ r ∈ s.live, r.owner = none → r.amount.isZero) ∧
    (∃ p ∈ (s.stayed a).parked, p.owner = o ∧
      (a = .acquire o p.amount ∨ a = .wake p.ticket)) ∧
    ∀ as t es, fileMachine.run (s.stayed a) as = some (t,es) →
      ¬ Fails (s.stayed a).parked as es →
      ∀ p ∈ (s.stayed a).parked, ∀ t' r, fileMachine.step t (.wake p.ticket) ≠
        some (t',.granted r) := by
  have hi := FileInv.of_reachable h
  obtain ⟨hd,hs⟩ := (Machine.restrict_step poolMachine).mp hs
  cases hi.effect hs with
  | idle _ _ _ verdict => exact absurd rfl (verdict _ _)
  | @refused _ o amount ticket d asks unfit dead live parked =>
    have hst := hi.stayed_eq asks (refused_ne_tryAcquire hs)
    have hw := hi.toInv.queued.holdAndWait_iff.mpr dead
    rw [hst]
    refine ⟨hw.parked,hw.anonymous,?_,fun as t es hr hno p hp t' r hstep => ?_⟩
    · obtain ⟨p,hp,ht,ho,rfl⟩ := asks.registered.queued
      refine ⟨p,hp,ho,?_⟩
      cases ticket with
      | none => exact .inl (asks.resolve_right (refused_ne_tryAcquire hs))
      | some t => exact .inr (asks.1.trans (congrArg _ ht.symm))
    · have hf : Frozen (s.queued (some o) amount ticket) (s.queued (some o) amount ticket) :=
        ⟨hi.queued hd asks unfit,rfl,fun p hp => ⟨p,hp,rfl,rfl,rfl⟩,
          (List.filter_sublist).subperm⟩
      have hft := hf.run dead hr hno
      obtain ⟨hdt,hstep⟩ := (Machine.restrict_step poolMachine).mp hstep
      exact (hft.step dead hdt hstep).1 p hp rfl r rfl

/-- Two files in a cycle. -/
theorem verdict_sound_two_files : ∃ s s' d, fileMachine.Reachable (System.new (.mk 0 3)) s ∧
    fileMachine.step s (.acquire (some ⟨2⟩) (.mk 0 2)) =
      some (s',.refused (some ⟨2⟩) (.deadlock d)) ∧
    ∀ o, s.ledger.Holds o → (s.stayed (.acquire (some ⟨2⟩) (.mk 0 2))).ledger.Waits o := by
  have hr : fileMachine.Reachable (System.new (.mk 0 3)) _ :=
    ⟨[.newOwner,.newOwner,.acquire (some ⟨1⟩) (.mk 0 1),.acquire (some ⟨2⟩) (.mk 0 1),
      .acquire (some ⟨1⟩) (.mk 0 2)],_,rfl⟩
  exact ⟨_,_,_,hr,rfl,(verdict_sound _ _ _ _ _ _ hr rfl).1⟩

/-- The failing request does not stay ungranted for good. Here the other file of the cycle, woken
by a newcomer's release, is given the verdict next, and what it then gives up serves the first. -/
theorem stayed_request_granted : ¬ ∀ (total : ResourceAmount) (s s' : System) (a : Action)
    (o : Option OwnerId) (d : Deadlock), fileMachine.Reachable (System.new total) s →
    fileMachine.step s a = some (s',.refused o (.deadlock d)) →
    ∀ as t es, fileMachine.run (s.stayed a) as = some (t,es) →
      ∀ p ∈ (s.stayed a).parked, ∀ t' r, fileMachine.step t (.wake p.ticket) ≠
        some (t',.granted r) := by
  intro h
  refine h (.mk 0 3) _ _ (.acquire (some ⟨2⟩) (.mk 0 2)) (some ⟨2⟩) _
    ⟨[.newOwner,.newOwner,.acquire (some ⟨1⟩) (.mk 0 1),.acquire (some ⟨2⟩) (.mk 0 1),
      .acquire (some ⟨1⟩) (.mk 0 2)],_,rfl⟩ rfl
    [.newOwner,.acquire (some ⟨5⟩) (.mk 0 1),.drop ⟨.mk 0 1,some ⟨5⟩⟩,.wake 3,
      .drop ⟨.mk 0 1,some ⟨1⟩⟩] _ _ rfl ⟨4,some ⟨2⟩,.mk 0 2,false⟩ List.mem_cons_self _ _ rfl

/-- The drop closes a cycle: with its reservation back, whatever is still out is held by parked
owners and no parked request fits. -/
def ClosesCycle (s : System) : Action → Prop
  | .drop r => (s.pool.release r.amount r.owner).deadlock r.amount ≠ none
  | _ => False

instance (s : System) (a : Action) : Decidable (ClosesCycle s a) := by
  unfold ClosesCycle
  split <;> infer_instance

theorem drop_closes {s s' : System} {r : Reservation} {e : Event} (h : Inv s)
    (hs : s.step (.drop r) = some (s',e)) : ClosesCycle s (.drop r) ↔ s'.ledger.Deadlocked := by
  have hi := (h.step hs).1
  simp only [System.step] at hs
  split at hs
  · cases hs
    exact Option.ne_none_iff_isSome.trans (hi.deadlock_iff r.amount)
  · cases hs

/-- The runs in which no drop closes a cycle. -/
def openMachine : Machine System Action Event := fileMachine.restrict fun s a => ¬ ClosesCycle s a

theorem openMachine_step {s s' : System} {a : Action} {e : Event}
    (hs : openMachine.step s a = some (s',e)) :
    ¬ ClosesCycle s a ∧ Disciplined s a ∧ s.step a = some (s',e) := by
  obtain ⟨hc,hs⟩ := (Machine.restrict_step fileMachine).mp hs
  exact ⟨hc,(Machine.restrict_step poolMachine).mp hs⟩

/-- With no drop that closes a cycle there is never a hold-and-wait between two steps. -/
theorem not_deadlocked_of_open {total : ResourceAmount} {s : System}
    (h : openMachine.Reachable (System.new total) s) : FileInv s ∧ ¬ s.ledger.Deadlocked := by
  refine Machine.Reachable.invariant openMachine (I := fun s => FileInv s ∧ ¬ s.ledger.Deadlocked)
    ?_ ⟨fileInv_new total,fun hD => by obtain ⟨r,hr,-⟩ := hD.held; cases hr⟩ h
  rintro s a s' e ⟨hi,hn⟩ hs
  obtain ⟨hc,hd,hs⟩ := openMachine_step hs
  refine ⟨hi.step hd hs,fun hD => ?_⟩
  by_cases hdrop : ∃ r, a = .drop r
  · obtain ⟨r,rfl⟩ := hdrop
    exact hc ((drop_closes hi.toInv hs).mpr hD)
  · exact hn (hi.deadlocked_before hd hs (fun r hr => hdrop ⟨r,hr⟩) hD).1

/-- Something that is out keeps the whole capacity from fitting. -/
theorem not_fits_total {s : System} (hD : s.ledger.Deadlocked) : ¬ s.ledger.Fits s.pool.total := by
  intro hfit
  obtain ⟨r,hr,hz⟩ := hD.held
  refine hz (ResourceAmount.isZero_iff.mpr fun x => ?_)
  have hx : sumOn x s.live+s.pool.total.on x ≤ s.pool.total.on x := hfit x
  have := on_le_sumOn (x := x) (show r ∈ s.live from hr)
  omega

/-- The verdict falls on a holder in every run in which no drop closes a cycle. Where one does,
an owner with no part in the cycle is failed for it: whoever asks for the whole capacity next. -/
theorem verdict_on_holder (total : ResourceAmount) :
    (∀ s s' a owner d, openMachine.Reachable (System.new total) s →
      openMachine.step s a = some (s',.refused owner (.deadlock d)) →
      ∃ o, owner = some o ∧ s.ledger.Holds o) ∧
    ∀ s s' r e, fileMachine.Reachable (System.new total) s →
      fileMachine.step s (.drop r) = some (s',e) → ClosesCycle s (.drop r) →
      ∀ o, ¬ s'.ledger.Holds o → ¬ s'.ledger.Waits o →
        ∃ t d, fileMachine.step s' (.acquire (some o) s'.pool.total) =
          some (t,.refused (some o) (.deadlock d)) := by
  constructor
  · intro s s' a owner d hr hs
    obtain ⟨hi,hn⟩ := not_deadlocked_of_open hr
    obtain ⟨-,-,hs⟩ := openMachine_step hs
    cases hi.effect hs with
    | idle _ _ _ verdict => exact absurd rfl (verdict _ _)
    | @refused _ o amount ticket d asks unfit dead =>
      refine ⟨o,rfl,?_⟩
      by_contra hc
      refine hn (deadlocked_of_queued hi.toInv asks.registered ?_ unfit dead)
      rintro o' ho'
      cases ho'
      exact hc
  · intro s s' r e hr hs hc o _ hw
    have hi := FileInv.of_reachable hr
    obtain ⟨hd,hs⟩ := (Machine.restrict_step poolMachine).mp hs
    have hD := (drop_closes hi.toInv hs).mp hc
    have hreg : Registered s' (some o) s'.pool.total none := trivial
    obtain ⟨t,d,ht⟩ := (hi.step hd hs).toInv.attempt_refused hD hreg (not_fits_total hD)
    refine ⟨t,d,(Machine.restrict_step poolMachine).mpr ⟨fun p hp hpo => hw ⟨p,hp,hpo⟩,?_⟩⟩
    have htot := ResourceAmount.fitsIn_refl s'.pool.total
    simp only [poolMachine,System.step,PoolState.acquireInner,not_not_intro htot,if_false,ht]

/-- In a run without drops the second of two files closes the cycle and is failed, a holder. -/
theorem verdict_on_holder_two_files : ∃ s s' d,
    openMachine.Reachable (System.new (.mk 0 3)) s ∧
    openMachine.step s (.acquire (some ⟨2⟩) (.mk 0 2)) =
      some (s',.refused (some ⟨2⟩) (.deadlock d)) ∧ s.ledger.Holds ⟨2⟩ := by
  have hr : openMachine.Reachable (System.new (.mk 0 3)) _ :=
    ⟨[.newOwner,.newOwner,.acquire (some ⟨1⟩) (.mk 0 1),.acquire (some ⟨2⟩) (.mk 0 1),
      .acquire (some ⟨1⟩) (.mk 0 2)],_,rfl⟩
  obtain ⟨o,ho,hh⟩ :=
    (verdict_on_holder (.mk 0 3)).1 _ _ (.acquire (some ⟨2⟩) (.mk 0 2)) _ _ hr rfl
  cases ho
  exact ⟨_,_,_,hr,rfl,hh⟩

/-- Files 1 and 2 hold one vCPU each and file 1 waits for a second one; file 3 waits for its first
two. When file 2 ends, only file 1 is left in a cycle with itself, but file 3 wakes first and is
failed although it holds nothing. -/
theorem verdict_on_bystander : ¬ ∀ (total : ResourceAmount) (s s' : System) (a : Action)
    (owner : Option OwnerId) (d : Deadlock), fileMachine.Reachable (System.new total) s →
    fileMachine.step s a = some (s',.refused owner (.deadlock d)) →
    ∃ o, owner = some o ∧ s.ledger.Holds o := by
  intro h
  obtain ⟨o,ho,r,hr,hro,-⟩ := h (.mk 0 2) _ _ (.wake 5) (some ⟨3⟩) _
    ⟨[.newOwner,.newOwner,.newOwner,.acquire (some ⟨1⟩) (.mk 0 1),.acquire (some ⟨2⟩) (.mk 0 1),
      .acquire (some ⟨1⟩) (.mk 0 2),.acquire (some ⟨3⟩) (.mk 0 2),.drop ⟨.mk 0 1,some ⟨2⟩⟩],
      _,rfl⟩ rfl
  cases ho
  rw [List.mem_singleton.mp hr] at hro
  cases hro

end Provium.Scheduler
