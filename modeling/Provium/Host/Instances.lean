import Provium.Lib.Splice
import Provium.Host.Transitions

/-! The instances behind a `Vm`: what `Vmm::launch` returned, what has been shut down, and what a
`boot` still holds on its way to the lock. `boot` launches without the lock, so several may be on
their way while the VM is booted or shut down by others. -/
namespace Provium.Host
open Lib

/-- A VM with a record of its instances. -/
structure Fleet (I C H : Type) where
  vm : Vm I C H
  /-- Every instance that a launch returned. -/
  launched : List I
  /-- The instances that were shut down. -/
  stopped : List I
  /-- What a `boot` has launched and not yet come to store, by its thread. -/
  ready : Table ℕ (Launched I C)

inductive FleetAction (I C H : Type) where
  | boot
  | shutdown
  | pause
  | resume
  /-- The launch of a `boot` returns. -/
  | launch (i : ℕ) (r : Launched I C)
  /-- A `boot` comes to its second section with what it launched. -/
  | install (i : ℕ) (reservation : Option H)
  /-- A `boot` fails before it launches. -/
  | refuse (i : ℕ) (e : VmError)

variable {I C H : Type}

/-- The instance that `shutdown` takes out and shuts down. -/
def VmInner.stops (v : VmInner I C H) : Option I :=
  match v.state with
  | .shutdown | .created => none
  | _ => v.vmInstance

/-- The instance that `boot` shuts down again because somebody was faster. -/
def VmInner.discards (v : VmInner I C H) (r : Launched I C) : Option I :=
  if v.state = .created then none else some r.vmInstance

def Pc.isBooting : Option Pc → Bool
  | some .booting => true
  | _ => false

namespace Fleet

def new : Fleet I C H := ⟨.new,[],[],∅⟩

/-- A section of the VM's. -/
def within (s : Fleet I C H) (name : String) (a : Action I C H) (stop : Option I)
    (ready : Table ℕ (Launched I C)) : Option (Fleet I C H × Obs) :=
  (s.vm.step name a).map fun q => (⟨q.1,s.launched,s.stopped++stop.toList,ready⟩,q.2)

/-- The backend answers every launch with a new instance and shuts every instance down. -/
def step [DecidableEq I] (name : String) (s : Fleet I C H) :
    FleetAction I C H → Option (Fleet I C H × Obs)
  | .boot => s.within name (.call .boot) none s.ready
  | .shutdown => s.within name (.call (.shutdown (.ok ()))) s.vm.inner.stops s.ready
  | .pause => s.within name (.call (.pause (.ok ()))) none s.ready
  | .resume => s.within name (.call (.resume (.ok ()))) none s.ready
  | .launch i r =>
    if (s.vm.threads[i]?).any Pc.isBooting ∧ (s.ready.lookup i).isNone ∧
        r.vmInstance ∉ s.launched then
      some ({ s with launched := s.launched++[r.vmInstance], ready := s.ready.insert i r },.pending)
    else none
  | .install i reservation => (s.ready.lookup i).bind fun r =>
    s.within name (.proceed i (.launched (.ok r) reservation)) (s.vm.inner.discards r)
      (s.ready.erase i)
  | .refuse i e =>
    if (s.ready.lookup i).isNone then
      s.within name (.proceed i (.launched (.error e) none)) none (s.ready.erase i)
    else none

/-- No call is in progress. -/
def Quiet (s : Fleet I C H) : Prop := ∀ t ∈ s.vm.threads, t.isNone

end Fleet

def fleetMachine [DecidableEq I] (name : String) : Machine (Fleet I C H) (FleetAction I C H) Obs :=
  ⟨Fleet.step name⟩

/-- Every instance is stored in a live VM, shut down, or with the `boot` that launched it. -/
structure FleetInv (s : Fleet I C H) : Prop where
  sound : s.vm.Sound
  booting : ∀ t ∈ s.vm.threads, t = none ∨ t = some .booting
  ready : ∀ i r, s.ready.lookup i = some r → s.vm.threads[i]? = some (some .booting)
  accounted : ∀ x ∈ s.launched, s.vm.inner.vmInstance = some x ∧ s.vm.inner.state.Live ∨
    x ∈ s.stopped ∨ ∃ i r, s.ready.lookup i = some r ∧ r.vmInstance = x

theorem fleetInv_new : FleetInv (Fleet.new : Fleet I C H) :=
  ⟨Vm.Fresh.sound (.inl rfl),by simp [Fleet.new,Vm.new],by simp [Fleet.new],by simp [Fleet.new]⟩

section Sections
variable {name : String} {s : Fleet I C H}

/-- Only a shutdown that fails loses an instance. -/
theorem keeps_of_not_fails {a : Action I C H} (h : a.failsShutdown = false) : Vm.Keeps s.vm a := by
  rintro ⟨-,hf⟩
  rw [h] at hf
  cases hf

/-- A call that ends in its first section. -/
theorem call_done (hs : s.vm.Sound) {op : Op} {v : VmInner I C H} {result : Except VmError Unit}
    (h : op.start name s.vm.inner = (v,.done result)) :
    s.vm.step name (.call op) = some (⟨v,false,s.vm.threads⟩,.returned result) := by
  simp only [Vm.step,hs.calm,Bool.false_and,Bool.false_eq_true,↓reduceIte,h,Vm.settle]
  rfl

/-- What a call that ends at once leaves of the record. -/
theorem FleetInv.call (h : FleetInv s) {op : Op} {v : VmInner I C H} {result : Except VmError Unit}
    (hop : op.start name s.vm.inner = (v,.done result)) (hk : Vm.Keeps s.vm (.call op))
    {stop : Option I} (hstop : ∀ x, s.vm.inner.vmInstance = some x → s.vm.inner.state.Live →
      v.vmInstance = some x ∧ v.state.Live ∨ stop = some x)
    {s' : Fleet I C H} {o : Obs} (hw : s.within name (.call op) stop s.ready = some (s',o)) :
    FleetInv s' := by
  have hstep := call_done h.sound hop
  have hsound := h.sound.step hk hstep
  simp only [Fleet.within,hstep,Option.map_some,Option.some.injEq,Prod.mk.injEq] at hw
  obtain ⟨rfl,-⟩ := hw
  refine ⟨hsound,h.booting,h.ready,?_⟩
  intro x hx
  obtain ⟨hi,hl⟩ | hst | hr := h.accounted x hx
  · obtain hkeep | rfl := hstop x hi hl
    · exact .inl hkeep
    · exact .inr (.inl (by simp))
  · exact .inr (.inl (List.mem_append_left _ hst))
  · exact .inr (.inr hr)

theorem FleetInv.boot (h : FleetInv s) {s' : Fleet I C H} {o : Obs}
    (hw : s.within name (.call .boot) none s.ready = some (s',o)) : FleetInv s' := by
  by_cases hc : s.vm.inner.state = .created
  · have hstep : s.vm.step name (.call .boot) =
        some (⟨s.vm.inner,false,s.vm.threads++[some .booting]⟩,.pending) := by
      simp only [Vm.step,h.sound.calm,Bool.false_and,Bool.false_eq_true,↓reduceIte,Op.start,
        VmInner.checkCreated,hc,Vm.settle]
      rfl
    simp only [Fleet.within,hstep,Option.map_some,Option.some.injEq,Prod.mk.injEq] at hw
    obtain ⟨rfl,-⟩ := hw
    refine ⟨⟨h.sound.whole,rfl⟩,?_,?_,?_⟩
    · intro t ht
      obtain ht | ht := List.mem_append.mp ht
      · exact h.booting t ht
      · exact .inr (List.mem_singleton.mp ht)
    · intro i r hq
      exact getElem?_append_of (h.ready i r hq) _
    · simpa using h.accounted
  · have hop : Op.start name s.vm.inner .boot =
        (s.vm.inner,.done (.error (.wrongState name s.vm.inner.state "boot"))) := if_neg hc
    exact h.call hop (keeps_of_not_fails rfl) (fun x hi hl => .inl ⟨hi,hl⟩) hw

theorem FleetInv.shutdown (h : FleetInv s) {s' : Fleet I C H} {o : Obs}
    (hw : s.within name (.call (.shutdown (.ok ()))) s.vm.inner.stops s.ready = some (s',o)) :
    FleetInv s' := by
  obtain ⟨v,hop⟩ : ∃ v, Op.start name s.vm.inner (.shutdown (.ok ())) = (v,.done (.ok ())) := by
    simp only [Op.start,VmInner.shutdown]
    split
    · exact ⟨_,rfl⟩
    · exact ⟨_,rfl⟩
    · cases s.vm.inner.vmInstance with
      | none => exact ⟨_,rfl⟩
      | some x => exact ⟨_,rfl⟩
  refine h.call hop (keeps_of_not_fails rfl) ?_ hw
  intro x hi hl
  right
  unfold VmInner.stops
  obtain hb | hp := hl
  · rw [hb]
    exact hi
  · rw [hp]
    exact hi

/-- `pause` and `resume`: from one live state to the other, or refused. -/
theorem FleetInv.turn (h : FleetInv s) {op : Op} {st st' : VmState} (hst : st.Live)
    (hst' : st'.Live) (hk : Vm.Keeps s.vm (.call op))
    (hturn : ∀ x, s.vm.inner.state = st → s.vm.inner.vmInstance = some x →
      op.start name s.vm.inner = ({ s.vm.inner with state := st' },.done (.ok ())))
    {e : VmError} (hrefused : s.vm.inner.state ≠ st →
      op.start name s.vm.inner = (s.vm.inner,.done (.error e)))
    {s' : Fleet I C H} {o : Obs} (hw : s.within name (.call op) none s.ready = some (s',o)) :
    FleetInv s' := by
  by_cases hb : s.vm.inner.state = st
  · obtain ⟨y,hy⟩ := Option.ne_none_iff_exists'.mp (h.sound.whole (hb ▸ hst))
    exact h.call (hturn y hb hy) hk (fun x hi _ => .inl ⟨hi,hst'⟩) hw
  · exact h.call (hrefused hb) hk (fun x hi hl => .inl ⟨hi,hl⟩) hw

theorem FleetInv.pause (h : FleetInv s) {s' : Fleet I C H} {o : Obs}
    (hw : s.within name (.call (.pause (.ok ()))) none s.ready = some (s',o)) : FleetInv s' := by
  have hrefused : s.vm.inner.state ≠ .booted → Op.start name s.vm.inner (.pause (.ok ())) =
      (s.vm.inner,.done (.error (.wrongState name s.vm.inner.state "pause"))) := fun hb => if_neg hb
  refine h.turn (.inl rfl) (.inr rfl) (keeps_of_not_fails rfl) ?_ hrefused hw
  intro x hb hx
  simp only [Op.start,VmInner.pause,hb,↓reduceIte,hx]

theorem FleetInv.resume (h : FleetInv s) {s' : Fleet I C H} {o : Obs}
    (hw : s.within name (.call (.resume (.ok ()))) none s.ready = some (s',o)) : FleetInv s' := by
  have hrefused : s.vm.inner.state ≠ .paused → Op.start name s.vm.inner (.resume (.ok ())) =
      (s.vm.inner,.done (.error (.wrongState name s.vm.inner.state "resume"))) := fun hb => if_neg hb
  refine h.turn (.inr rfl) (.inl rfl) (keeps_of_not_fails rfl) ?_ hrefused hw
  intro x hb hx
  simp only [Op.start,VmInner.resume,hb,↓reduceIte,hx]

theorem FleetInv.launch (h : FleetInv s) {i : ℕ} {r : Launched I C}
    (hb : (s.vm.threads[i]?).any Pc.isBooting) (hn : s.ready.lookup i = none) :
    FleetInv { s with launched := s.launched++[r.vmInstance], ready := s.ready.insert i r } := by
  refine ⟨h.sound,h.booting,?_,?_⟩
  · intro j q hq
    obtain ⟨rfl,rfl⟩ | hq := Table.lookup_insert_cases hq
    · obtain ⟨t,ht,hboot⟩ := (Option.any_eq_true _ _).mp hb
      obtain rfl | rfl := h.booting t (List.mem_of_getElem? ht)
      · cases hboot
      · exact ht
    · exact h.ready j q hq
  · intro x hx
    obtain hx | hx := List.mem_append.mp hx
    · refine (h.accounted x hx).imp_right (Or.imp_right ?_)
      rintro ⟨j,q,hq,hx⟩
      have hj : j ≠ i := by
        rintro rfl
        rw [hn] at hq
        cases hq
      exact ⟨j,q,by rw [AList.lookup_insert_ne hj,hq],hx⟩
    · rw [List.mem_singleton.mp hx]
      exact .inr (.inr ⟨i,r,AList.lookup_insert _,rfl⟩)

/-- The thread of a `boot` ends. -/
theorem proceed_done (hs : s.vm.Sound) {i : ℕ} (hi : s.vm.threads[i]? = some (some .booting))
    {event : Event I C H} {v : VmInner I C H} {result : Except VmError Unit}
    (h : Pc.booting.resume name s.vm.inner event = some (v,.done result)) :
    s.vm.step name (.proceed i event) =
      some (⟨v,false,s.vm.threads.set i none⟩,.returned result) := by
  simp only [Vm.step,hi,Option.join_some,Option.bind_some,h,Option.map_some,hs.calm,
    Bool.false_and,Bool.false_eq_true,↓reduceIte,Vm.settle]

/-- A `boot` comes to its end: what it launched is stored or shut down. -/
theorem FleetInv.finish (h : FleetInv s) {i : ℕ} (hi : s.vm.threads[i]? = some (some .booting))
    {event : Event I C H} {v : VmInner I C H} {result : Except VmError Unit}
    (hop : Pc.booting.resume name s.vm.inner event = some (v,.done result)) {stop : Option I}
    (hstop : ∀ x, (s.vm.inner.vmInstance = some x ∧ s.vm.inner.state.Live ∨
        ∃ r, s.ready.lookup i = some r ∧ r.vmInstance = x) →
      v.vmInstance = some x ∧ v.state.Live ∨ stop = some x)
    {s' : Fleet I C H} {o : Obs}
    (hw : s.within name (.proceed i event) stop (s.ready.erase i) = some (s',o)) : FleetInv s' := by
  have hstep := proceed_done h.sound hi hop
  have hsound := h.sound.step (keeps_of_not_fails rfl) hstep
  simp only [Fleet.within,hstep,Option.map_some,Option.some.injEq,Prod.mk.injEq] at hw
  obtain ⟨rfl,-⟩ := hw
  refine ⟨hsound,?_,?_,?_⟩
  · intro t ht
    obtain ht | rfl := List.mem_or_eq_of_mem_set ht
    · exact h.booting t ht
    · exact .inl rfl
  · intro j r hr
    rw [List.getElem?_set_ne (Ne.symm (Table.ne_of_lookup_erase hr))]
    exact h.ready j r (Table.lookup_of_erase hr)
  · intro x hx
    have hown (hx : s.vm.inner.vmInstance = some x ∧ s.vm.inner.state.Live ∨
        ∃ r, s.ready.lookup i = some r ∧ r.vmInstance = x) :
        v.vmInstance = some x ∧ v.state.Live ∨ x ∈ s.stopped++stop.toList := by
      obtain hkeep | rfl := hstop x hx
      · exact .inl hkeep
      · exact .inr (by simp)
    obtain hst | hst | ⟨j,r,hr,hrx⟩ := h.accounted x hx
    · exact (hown (.inl hst)).imp_right .inl
    · exact .inr (.inl (List.mem_append_left _ hst))
    · by_cases hj : j = i
      · subst hj
        exact (hown (.inr ⟨r,hr,hrx⟩)).imp_right .inl
      · exact .inr (.inr ⟨j,r,by rw [AList.lookup_erase_ne hj,hr],hrx⟩)

theorem FleetInv.install (h : FleetInv s) {i : ℕ} {r : Launched I C} {reservation : Option H}
    (hr : s.ready.lookup i = some r) {s' : Fleet I C H} {o : Obs}
    (hw : s.within name (.proceed i (.launched (.ok r) reservation)) (s.vm.inner.discards r)
      (s.ready.erase i) = some (s',o)) : FleetInv s' := by
  have hi := h.ready i r hr
  by_cases hc : s.vm.inner.state = .created
  · have hop : Pc.booting.resume name s.vm.inner (.launched (.ok r) reservation) =
        some (⟨.booted,some r.resources,reservation⟩,.done (.ok ())) := by
      simp only [Pc.resume,VmInner.boot,hc,↓reduceIte]
    refine h.finish hi hop ?_ hw
    rintro x (⟨-,hl⟩ | ⟨q,hq,rfl⟩)
    · exact absurd (hc ▸ hl) VmState.not_live_created
    · cases hr.symm.trans hq
      exact .inl ⟨rfl,.inl rfl⟩
  · have hop : Pc.booting.resume name s.vm.inner (.launched (.ok r) reservation) =
        some (s.vm.inner,.done (.error (.wrongState name s.vm.inner.state "boot"))) := by
      simp only [Pc.resume,VmInner.boot,hc,↓reduceIte,VmInner.wrongState]
    refine h.finish hi hop ?_ hw
    rintro x (hst | ⟨q,hq,rfl⟩)
    · exact .inl hst
    · cases hr.symm.trans hq
      exact .inr (if_neg hc)

/-- Only a thread in progress can go on, and here that is a `boot`. -/
theorem FleetInv.thread (h : FleetInv s) {i : ℕ} {event : Event I C H} {stop : Option I}
    {ready : Table ℕ (Launched I C)} {q : Fleet I C H × Obs}
    (hw : s.within name (.proceed i event) stop ready = some q) :
    s.vm.threads[i]? = some (some .booting) := by
  simp only [Fleet.within,Vm.step,Option.map_eq_some_iff,Option.bind_eq_some_iff] at hw
  obtain ⟨_,⟨pc,hpc,-⟩,-⟩ := hw
  have ht := Option.join_eq_some_iff.mp hpc
  obtain hnone | hboot := h.booting _ (List.mem_of_getElem? ht)
  · cases hnone
  · rw [ht,hboot]

theorem FleetInv.refuse (h : FleetInv s) {i : ℕ} {e : VmError} (hn : s.ready.lookup i = none)
    {s' : Fleet I C H} {o : Obs}
    (hw : s.within name (.proceed i (.launched (.error e) none)) none (s.ready.erase i) =
      some (s',o)) : FleetInv s' := by
  have hop : Pc.booting.resume name s.vm.inner (.launched (.error e) none) =
      some (s.vm.inner,.done (.error e)) := rfl
  refine h.finish (h.thread hw) hop ?_ hw
  rintro x (hst | ⟨q,hq,-⟩)
  · exact .inl hst
  · rw [hn] at hq
    cases hq

theorem FleetInv.step [DecidableEq I] (h : FleetInv s) {a : FleetAction I C H} {s' : Fleet I C H}
    {o : Obs} (hs : (fleetMachine name).step s a = some (s',o)) : FleetInv s' := by
  cases a with
  | boot => exact h.boot hs
  | shutdown => exact h.shutdown hs
  | pause => exact h.pause hs
  | resume => exact h.resume hs
  | launch i r =>
    simp only [fleetMachine,Fleet.step,Option.ite_none_right_eq_some] at hs
    obtain ⟨⟨hb,hn,-⟩,hs⟩ := hs
    cases hs
    exact h.launch hb (Option.isNone_iff_eq_none.mp hn)
  | install i reservation =>
    obtain ⟨r,hr,hw⟩ := Option.bind_eq_some_iff.mp hs
    exact h.install hr hw
  | refuse i e =>
    simp only [fleetMachine,Fleet.step,Option.ite_none_right_eq_some] at hs
    exact h.refuse (Option.isNone_iff_eq_none.mp hs.1) hs.2

end Sections

/-- When no call is in progress, every instance is the one in the Booted or Paused VM or has been
shut down; so one is alive at most, and none once the VM is in Shutdown. -/
theorem no_orphaned_instance [DecidableEq I] {name : String} {as : List (FleetAction I C H)}
    {os : List Obs} {s : Fleet I C H} (h : (fleetMachine name).run Fleet.new as = some (s,os))
    (hq : s.Quiet) :
    (∀ x ∈ s.launched, s.vm.inner.vmInstance = some x ∧
      (s.vm.inner.state = .booted ∨ s.vm.inner.state = .paused) ∨ x ∈ s.stopped) ∧
    (∀ x ∈ s.launched, ∀ y ∈ s.launched, x ∉ s.stopped → y ∉ s.stopped → x = y) ∧
    (s.vm.inner.state = .shutdown → ∀ x ∈ s.launched, x ∈ s.stopped) := by
  have hinv : FleetInv s :=
    Machine.run_invariant (I := FleetInv) _ (fun _ _ _ _ hi hs => FleetInv.step hi hs) fleetInv_new h
  have hall : ∀ x ∈ s.launched, s.vm.inner.vmInstance = some x ∧ s.vm.inner.state.Live ∨
      x ∈ s.stopped := by
    intro x hx
    obtain hst | hst | ⟨i,r,hr,-⟩ := hinv.accounted x hx
    · exact .inl hst
    · exact .inr hst
    · have hdone := hq _ (List.mem_of_getElem? (hinv.ready i r hr))
      cases hdone
  refine ⟨hall,?_,?_⟩
  · intro x hx y hy hxs hys
    obtain ⟨hxi,-⟩ := (hall x hx).resolve_right hxs
    obtain ⟨hyi,-⟩ := (hall y hy).resolve_right hys
    exact Option.some.inj (hxi.symm.trans hyi)
  · intro hst x hx
    refine (hall x hx).resolve_left ?_
    rintro ⟨-,hl⟩
    rw [hst] at hl
    exact VmState.not_live_shutdown hl

/-- Two boots cross, and a shutdown comes between their launches and the lock. -/
def crossedBoots : List (FleetAction ℕ Unit Unit) :=
  [.boot,.boot,.launch 0 ⟨3,0,(),none,none⟩,.launch 1 ⟨4,1,(),none,none⟩,.install 1 none,.shutdown,
    .install 0 none]

/-- What is left of them: both instances are shut down. -/
def crossedEnd : Fleet ℕ Unit Unit :=
  ⟨⟨⟨.shutdown,some ⟨4,none,(),none,none⟩,none⟩,false,[none,none]⟩,[0,1],[1,0],∅⟩

theorem no_orphaned_instance_crossed :
    (∃ os, (fleetMachine "vm").run Fleet.new crossedBoots = some (crossedEnd,os)) ∧
    ∀ x ∈ crossedEnd.launched, x ∈ crossedEnd.stopped := by
  have hrun : ∃ os, (fleetMachine "vm").run Fleet.new crossedBoots = some (crossedEnd,os) :=
    ⟨_,rfl⟩
  obtain ⟨os,hr⟩ := hrun
  exact ⟨⟨os,hr⟩,(no_orphaned_instance hr (by simp [Fleet.Quiet,crossedEnd])).2.2 rfl⟩

end Provium.Host
