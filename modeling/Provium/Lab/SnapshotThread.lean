import Provium.Lab.SnapshotCall

/-! One thread of `lab_snapshot`: the steps together are the snapshot of the VM, and what each kind of VM is
left as. -/
namespace Provium.Lab
open Lib Provium.Host LabTree

variable {I C H : Type} {flat leaf dir : String} {a : SnapshotAnswers} {vm : SnapshotVm I C H}

/-- What a snapshot comes to: it changes nothing by itself. -/
inductive SnapshotEnds (v : VmInner I C H) (openFiles : ℕ) (streams : List String)
    (answer : Except VmmError Unit) : Ended → Prop
  | taken (hstate : v.state ∈ [.booted,.paused]) (hinst : v.vmInstance ≠ none)
      (hopen : openFiles = 0 ∧ streams = []) (ha : answer = .ok ()) : SnapshotEnds v openFiles streams answer (.done (.ok ()))
  | refused (e : VmError) (h : v.state ∉ [.booted,.paused] ∨ ¬(openFiles = 0 ∧ streams = []) ∨
      ∃ e, answer = .error e ∧ isQmpDeadSignal e = false) : SnapshotEnds v openFiles streams answer (.done (.error e))
  | dead (e : VmmError) (hstate : v.state ∈ [.booted,.paused]) (hinst : v.vmInstance ≠ none)
      (hopen : openFiles = 0 ∧ streams = []) (ha : answer = .error e) (hdead : isQmpDeadSignal e = true) :
      SnapshotEnds v openFiles streams answer (.goOn (.markDead e))
  | panic (hinst : v.vmInstance = none) : SnapshotEnds v openFiles streams answer .panic

theorem snapshot_ends (v : VmInner I C H) (name : String) (openFiles : ℕ) (streams : List String)
    (answer : Except VmmError Unit) : (v.snapshot name openFiles streams answer).1 = v ∧
      SnapshotEnds v openFiles streams answer (v.snapshot name openFiles streams answer).2 := by
  unfold VmInner.snapshot VmInner.backendOp
  split
  · next hopen =>
    split
    · next hstate =>
      split
      · next hinst => exact ⟨rfl,.panic hinst⟩
      · next i hinst =>
        have hinst : v.vmInstance ≠ none := by rw [hinst]; exact Option.some_ne_none i
        refine ⟨rfl,?_⟩
        rcases answer with e | u
        · by_cases hdead : isQmpDeadSignal e = true
          · simp only [VmInner.afterBackend,hdead,if_true]
            exact .dead e hstate hinst hopen rfl hdead
          · simp only [VmInner.afterBackend,hdead]
            exact .refused _ (.inr (.inr ⟨e,rfl,by simpa using hdead⟩))
        · exact .taken hstate hinst hopen rfl
    · next hstate => exact ⟨rfl,.refused _ (.inl hstate)⟩
  · next hopen => exact ⟨rfl,.refused _ (.inr (.inl hopen))⟩

/-- A step of a thread, or none at its end. -/
def SnapshotCell.pass (flat leaf dir : String) (a : SnapshotAnswers) (c : SnapshotCell I C H) :
    SnapshotCell I C H := (c.advance flat leaf dir a).getD c

theorem pass_of_some {c c' : SnapshotCell I C H} (h : c.advance flat leaf dir a = some c') :
    c.pass flat leaf dir a = c' := by rw [SnapshotCell.pass,h]; rfl

/-- What is left once the VM has been paused, or not. -/
theorem advance_saving (vm : SnapshotVm I C H) :
    (SnapshotCell.pass flat leaf dir a)^[3] ⟨vm,.saving⟩ =
      match (vm.inner.snapshot leaf vm.openFiles vm.streams a.snapshot).2 with
      | .done (.ok ()) => ⟨{ vm with inner := (vm.inner.resume leaf a.resume).1 },
          .over (match (vm.inner.resume leaf a.resume).2 with
            | .panic => .error .panicked
            | _ => .ok ⟨flat,vm.profile,snapshotPath dir flat⟩)⟩
      | .done (.error e) => ⟨vm,.over (.error (.restoreFailed flat e))⟩
      | .goOn (.markDead e) =>
        ⟨{ vm with inner := { vm.inner with state := .dead } },.over (.error (.restoreFailed flat (.vmm e)))⟩
      | _ => ⟨vm,.over (.error .panicked)⟩ := by
  simp only [Function.iterate_succ,Function.comp_apply,Function.iterate_zero,id_eq,SnapshotCell.pass]
  obtain ⟨hsame,hends⟩ := snapshot_ends vm.inner leaf vm.openFiles vm.streams a.snapshot
  rcases hs : vm.inner.snapshot leaf vm.openFiles vm.streams a.snapshot with ⟨v,e⟩
  rw [hs] at hsame hends
  obtain rfl : v = vm.inner := hsame
  cases hends with
  | taken =>
    rcases hr : vm.inner.resume leaf a.resume with ⟨v',e'⟩
    cases e' <;> simp [SnapshotCell.advance,hs,hr]
  | refused e => simp [SnapshotCell.advance,hs]
  | dead e hstate => simp [SnapshotCell.advance,hs,VmInner.markDead,hstate]
  | panic => simp [SnapshotCell.advance,hs]

/-- The rest of the snapshot. -/
theorem snapshot_of_pause (flat dir : String) {v : VmInner I C H} {e : Ended} (hp : vm.inner.pause leaf a.pause = (v,e))
    (he : e ≠ .panic) : (SnapshotCell.pass flat leaf dir a)^[3] ⟨{ vm with inner := v },.saving⟩ =
      ⟨(vm.snapshot flat leaf dir a).1,.over (vm.snapshot flat leaf dir a).2⟩ := by
  have hends := (snapshot_ends v leaf vm.openFiles vm.streams a.snapshot).2
  have hsame := (snapshot_ends v leaf vm.openFiles vm.streams a.snapshot).1
  rw [advance_saving,SnapshotVm.snapshot,hp]
  dsimp only
  rcases hs : v.snapshot leaf vm.openFiles vm.streams a.snapshot with ⟨v₂,e₂⟩
  rw [hs] at hsame hends
  obtain rfl : v₂ = v := hsame
  cases e with
  | panic => exact absurd rfl he
  | done _ | goOn _ =>
    cases hends with
    | taken =>
      dsimp only
      cases (v₂.resume leaf a.resume).2 <;> rfl
    | refused e => rfl
    | dead e => rfl
    | panic => rfl

/-- A thread from its start to its end is the snapshot of the VM. -/
theorem advance_snapshot (flat leaf dir : String) (a : SnapshotAnswers) (vm : SnapshotVm I C H) :
    (SnapshotCell.pass flat leaf dir a)^[4] ⟨vm,.pausing⟩ =
      ⟨(vm.snapshot flat leaf dir a).1,.over (vm.snapshot flat leaf dir a).2⟩ := by
  rw [Function.iterate_succ_apply]
  rcases hp : vm.inner.pause leaf a.pause with ⟨v,e⟩
  cases e with
  | panic =>
    have hpass : SnapshotCell.pass flat leaf dir a ⟨vm,.pausing⟩ =
        ⟨{ vm with inner := v },.over (.error .panicked)⟩ := by
      simp [SnapshotCell.pass,SnapshotCell.advance,hp]
    rw [hpass,Function.iterate_fixed rfl,SnapshotVm.snapshot,hp]
  | done r =>
    rw [← snapshot_of_pause _ _ hp (by simp)]
    simp [SnapshotCell.pass,SnapshotCell.advance,hp]
  | goOn pc =>
    rw [← snapshot_of_pause _ _ hp (by simp)]
    simp [SnapshotCell.pass,SnapshotCell.advance,hp]

/-- What a pause comes to. -/
inductive PauseEnds (v : VmInner I C H) (answer : Except VmmError Unit) : VmInner I C H → Ended → Prop
  | paused (hstate : v.state = .booted) (hinst : v.vmInstance ≠ none) (ha : answer = .ok ()) :
      PauseEnds v answer { v with state := .paused } (.done (.ok ()))
  | refused (e : VmError) (h : v.state ≠ .booted ∨ ∃ e, answer = .error e ∧ isQmpDeadSignal e = false) :
      PauseEnds v answer v (.done (.error e))
  | dead (e : VmError) (hstate : v.state = .booted) (h : ∃ e, answer = .error e ∧ isQmpDeadSignal e = true) :
      PauseEnds v answer { v with state := .dead } (.done (.error e))
  | panic (hstate : v.state = .booted) (hinst : v.vmInstance = none) : PauseEnds v answer v .panic

theorem pause_ends (v : VmInner I C H) (name : String) (answer : Except VmmError Unit) :
    PauseEnds v answer (v.pause name answer).1 (v.pause name answer).2 := by
  unfold VmInner.pause
  split
  · next hstate =>
    cases hinst : v.vmInstance with
    | none => exact .panic hstate hinst
    | some i =>
      have hinst : v.vmInstance ≠ none := by rw [hinst]; exact Option.some_ne_none i
      rcases answer with e | u
      · dsimp only
        split
        · next hdead => exact .dead _ hstate ⟨e,rfl,hdead⟩
        · next hdead => exact .refused _ (.inr ⟨e,rfl,by simpa using hdead⟩)
      · exact .paused hstate hinst rfl
  · next hstate => exact .refused _ (.inl hstate)

/-- What is resumed where it can be. -/
theorem resume_paused {v : VmInner I C H} (hstate : v.state = .paused) (hinst : v.vmInstance ≠ none)
    (ha : a.resume = .ok ()) : v.resume leaf a.resume = ({ v with state := .booted },.done (.ok ())) := by
  obtain ⟨i,hi⟩ := Option.ne_none_iff_exists'.mp hinst
  simp [VmInner.resume,hstate,hi,ha]

theorem resume_no_panic {v : VmInner I C H} (hinst : v.vmInstance ≠ none) (answer : Except VmmError Unit) :
    (v.resume leaf answer).2 ≠ .panic := by
  obtain ⟨i,hi⟩ := Option.ne_none_iff_exists'.mp hinst
  unfold VmInner.resume
  rw [hi]
  split
  · rcases answer with e | u <;> simp
  · simp [VmInner.wrongState]

/-- A VM that has been paused, or not, is saved where its snapshot is taken. -/
theorem snapshot_ok_of_pause {v : VmInner I C H} {p : Ended} (hp : vm.inner.pause leaf a.pause = (v,p))
    (hne : p ≠ .panic) : (∃ e, (vm.snapshot flat leaf dir a).2 = .ok e) ↔
      v.state ∈ [.booted,.paused] ∧ v.vmInstance ≠ none ∧ (vm.openFiles = 0 ∧ vm.streams = []) ∧
        a.snapshot = .ok () := by
  have hsaving := snapshot_of_pause flat dir hp hne
  rw [advance_saving] at hsaving
  dsimp only at hsaving
  have hends := (snapshot_ends v leaf vm.openFiles vm.streams a.snapshot).2
  generalize (v.snapshot leaf vm.openFiles vm.streams a.snapshot).2 = ended at hsaving hends
  cases hends with
  | taken hstate hinst hopen ha =>
    refine iff_of_true ?_ ⟨hstate,hinst,hopen,ha⟩
    have hpc := SnapshotPc.over.inj (SnapshotCell.mk.inj hsaving).2
    rw [← hpc]
    split
    · next h => exact absurd h (resume_no_panic hinst a.resume)
    · exact ⟨_,rfl⟩
  | refused e h =>
    have hpc := SnapshotPc.over.inj (SnapshotCell.mk.inj hsaving).2
    rw [← hpc]
    refine iff_of_false (by simp) ?_
    rintro ⟨hstate,-,hopen,ha⟩
    obtain h | h | ⟨e,he,-⟩ := h
    · exact h hstate
    · exact h hopen
    · rw [ha] at he
      cases he
  | dead e hstate hinst hopen he =>
    have hpc := SnapshotPc.over.inj (SnapshotCell.mk.inj hsaving).2
    rw [← hpc]
    refine iff_of_false (by simp) ?_
    rintro ⟨-,-,-,ha⟩
    rw [ha] at he
    cases he
  | panic hinst =>
    have hpc := SnapshotPc.over.inj (SnapshotCell.mk.inj hsaving).2
    rw [← hpc]
    exact iff_of_false (by simp) fun h => h.2.1 hinst

/-- The snapshot succeeds where it is taken. -/
theorem snapshot_ok_iff : (∃ e, (vm.snapshot flat leaf dir a).2 = .ok e) ↔ vm.Saves a := by
  rcases hp : vm.inner.pause leaf a.pause with ⟨v,p⟩
  have hpause := pause_ends vm.inner leaf a.pause
  rw [hp] at hpause
  dsimp only at hpause
  unfold SnapshotVm.Saves
  cases hpause with
  | paused hstate hinst ha =>
    rw [snapshot_ok_of_pause hp (by simp)]
    constructor
    · rintro ⟨-,-,hopen,hs⟩
      exact ⟨hinst,hopen.1,hopen.2,hs,.inr ⟨hstate,fun e he => by rw [ha] at he; cases he⟩⟩
    · rintro ⟨-,hfiles,hstreams,hs,-⟩
      exact ⟨by simp,hinst,⟨hfiles,hstreams⟩,hs⟩
  | refused e h =>
    rw [snapshot_ok_of_pause hp (by simp)]
    constructor
    · rintro ⟨hstate,hinst,hopen,hs⟩
      refine ⟨hinst,hopen.1,hopen.2,hs,?_⟩
      simp only [List.mem_cons,List.not_mem_nil,or_false] at hstate
      obtain hstate | hstate := hstate
      · obtain h | ⟨e',he',hdead⟩ := h
        · exact absurd hstate h
        · refine .inr ⟨hstate,fun e'' he'' => ?_⟩
          rw [he'] at he''
          cases he''
          exact hdead
      · exact .inl hstate
    · rintro ⟨hinst,hfiles,hstreams,hs,hstate⟩
      refine ⟨?_,hinst,⟨hfiles,hstreams⟩,hs⟩
      obtain hstate | ⟨hstate,-⟩ := hstate
      · simp [hstate]
      · simp [hstate]
  | dead e hstate h =>
    rw [snapshot_ok_of_pause hp (by simp)]
    refine iff_of_false (fun h => by simp at h) ?_
    rintro ⟨-,-,-,-,hno⟩
    obtain ⟨e',he',hdead⟩ := h
    obtain hp | ⟨-,hno⟩ := hno
    · rw [hstate] at hp
      cases hp
    · rw [hno e' he'] at hdead
      cases hdead
  | panic hstate hinst =>
    refine iff_of_false ?_ fun h => h.1 hinst
    rw [SnapshotVm.snapshot,hp]
    rintro ⟨e,he⟩
    cases he

/-- A snapshot that is neither taken nor gives the VM up. -/
def SnapshotVm.Fails (vm : SnapshotVm I C H) (leaf : String) (a : SnapshotAnswers) : Prop :=
  (vm.inner.snapshot leaf vm.openFiles vm.streams a.snapshot).2 ≠ .done (.ok ()) ∧
    ∀ e, (vm.inner.snapshot leaf vm.openFiles vm.streams a.snapshot).2 ≠ .goOn (.markDead e)

/-- A thread that does not pause its VM and fails at the snapshot changes nothing. -/
theorem vm_stays (hpause : (vm.inner.pause leaf a.pause).1 = vm.inner) (hfails : vm.Fails leaf a) (n : ℕ) :
    ((SnapshotCell.pass flat leaf dir a)^[n] ⟨vm,.pausing⟩).vm = vm := by
  have hinv := Cells.iterate_pass_invariant (fun _ => SnapshotCell.advance flat leaf dir a) 0 ⟨vm,.pausing⟩
    (fun c => c.vm = vm ∧ (c.pc = .pausing ∨ c.pc = .saving ∨ ∃ r, c.pc = .over r)) ?_ ⟨rfl,.inl rfl⟩ n
  · exact hinv.1
  rintro ⟨vm',pc⟩ c' ⟨rfl,hpc⟩ hadv
  dsimp only at hpc hpause hfails
  obtain rfl | rfl | ⟨r,rfl⟩ := hpc
  · cases hadv
    refine ⟨by rw [hpause],?_⟩
    dsimp only
    split
    · exact .inr (.inr ⟨_,rfl⟩)
    · exact .inr (.inl rfl)
  · cases hadv
    obtain ⟨hsame,hends⟩ := snapshot_ends vm'.inner leaf vm'.openFiles vm'.streams a.snapshot
    refine ⟨by rw [hsame],.inr (.inr ?_)⟩
    obtain ⟨hok,hmark⟩ := hfails
    dsimp only
    generalize (vm'.inner.snapshot leaf vm'.openFiles vm'.streams a.snapshot).2 = ended at hends hok hmark
    cases hends with
    | taken => exact absurd rfl hok
    | refused e h => exact ⟨_,rfl⟩
    | dead e => exact absurd rfl (hmark e)
    | panic => exact ⟨_,rfl⟩
  · cases hadv

/-- How a thread leaves a VM that it has found Booted and paused. -/
theorem pause_booted (hpa : a.pause = .ok ()) (hinst : vm.inner.vmInstance ≠ none)
    (hstate : vm.inner.state = .booted) :
    vm.inner.pause leaf a.pause = ({ vm.inner with state := .paused },.done (.ok ())) := by
  obtain ⟨i,hi⟩ := Option.ne_none_iff_exists'.mp hinst
  simp [VmInner.pause,hstate,hi,hpa]

/-- What the snapshot makes of a VM that is Paused, or has been paused. -/
theorem saving_state {v : VmInner I C H} {p : Ended} (hp : vm.inner.pause leaf a.pause = (v,p)) (hne : p ≠ .panic)
    (hra : a.resume = .ok ()) (hstate : v.state = .paused) (hinst : v.vmInstance ≠ none) :
    (vm.snapshot flat leaf dir a).1.inner.state =
      if vm.openFiles = 0 ∧ vm.streams = [] then
        match a.snapshot with
        | .ok () => .booted
        | .error e => if isQmpDeadSignal e then .dead else .paused
      else .paused := by
  have hsaving := snapshot_of_pause flat dir hp hne
  obtain ⟨i,hi⟩ := Option.ne_none_iff_exists'.mp hinst
  rw [advance_saving] at hsaving
  have hvm := congrArg SnapshotVm.inner (SnapshotCell.mk.inj hsaving).1
  dsimp only at hvm
  rw [← hvm]
  by_cases hopen : vm.openFiles = 0 ∧ vm.streams = []
  · rw [if_pos hopen]
    rcases hs : a.snapshot with e | u
    · by_cases hdead : isQmpDeadSignal e = true
      · have hends : (v.snapshot leaf vm.openFiles vm.streams (.error e)).2 = .goOn (.markDead e) := by
          simp [VmInner.snapshot,VmInner.backendOp,hopen,hstate,hi,VmInner.afterBackend,hdead]
        rw [hends]
        simp [hdead]
      · have hends : (v.snapshot leaf vm.openFiles vm.streams (.error e)).2 = .done (.error (.vmm e)) := by
          simp [VmInner.snapshot,VmInner.backendOp,hopen,hstate,hi,VmInner.afterBackend,hdead]
        rw [hends]
        simp [hdead,hstate]
    · have hends : (v.snapshot leaf vm.openFiles vm.streams (.ok u)).2 = .done (.ok ()) := by
        simp [VmInner.snapshot,VmInner.backendOp,hopen,hstate,hi,VmInner.afterBackend]
      rw [hends]
      dsimp only
      rw [resume_paused hstate hinst hra]
  · have hends : (v.snapshot leaf vm.openFiles vm.streams a.snapshot).2 =
        .done (.error (.openResources leaf vm.openFiles vm.streams.length vm.streams)) := by
      rw [VmInner.snapshot,if_neg hopen]
    rw [if_neg hopen,hends]
    exact hstate

/-- A VM that runs runs again where it is saved, and only there. -/
theorem booted_iff (ha : a.Answered) (hinst : vm.inner.vmInstance ≠ none) (hstate : vm.inner.state = .booted) :
    (vm.snapshot flat leaf dir a).1.inner.state = .booted ↔ vm.Saves a := by
  rw [saving_state (pause_booted ha.1 hinst hstate) (by simp) ha.2 rfl hinst]
  have hpause : ∀ e, a.pause = .error e → isQmpDeadSignal e = false := by
    intro e he
    rw [ha.1] at he
    cases he
  have hsaves : vm.Saves a ↔ (vm.openFiles = 0 ∧ vm.streams = []) ∧ a.snapshot = .ok () :=
    ⟨fun h => ⟨⟨h.2.1,h.2.2.1⟩,h.2.2.2.1⟩,fun h => ⟨hinst,h.1.1,h.1.2,h.2,.inr ⟨hstate,hpause⟩⟩⟩
  rw [hsaves]
  split
  · next hopen =>
    rcases a.snapshot with e | u
    · dsimp only
      split <;> simp
    · simp [hopen]
  · next hopen => simp [hopen]

/-- One that is paused stays so where it is refused, and only there. -/
theorem paused_iff (ha : a.Answered) (hinst : vm.inner.vmInstance ≠ none) (hstate : vm.inner.state = .paused)
    (hstreams : vm.streams = []) : (vm.snapshot flat leaf dir a).1.inner.state = .paused ↔ vm.Refuses a := by
  have hp : vm.inner.pause leaf a.pause = (vm.inner,.done (.error (.wrongState leaf .paused "pause"))) := by
    simp [VmInner.pause,VmInner.wrongState,hstate]
  rw [saving_state hp (by simp) ha.2 hstate hinst,SnapshotVm.Refuses]
  split
  · next hopen =>
    rcases a.snapshot with e | u
    · simp [hopen.1]
    · simp [hopen.1]
  · next hopen =>
    have hfiles : 0 < vm.openFiles := Nat.pos_of_ne_zero fun h => hopen ⟨h,hstreams⟩
    exact iff_of_true rfl (.inl hfiles)

theorem path_of_snapshot {e : LabSnapshotEntry} (h : (vm.snapshot flat leaf dir a).2 = .ok e) :
    e.snapshotPath = snapshotPath dir flat := by
  simp only [SnapshotVm.snapshot] at h
  split at h
  · cases h
  · split at h
    · split at h
      · cases h
      · cases h
        rfl
    · cases h
    · cases h
    · cases h

end Provium.Lab
