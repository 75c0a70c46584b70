import Provium.Lab.SnapshotThread

/-! Which VMs `lab_snapshot` leaves as they were, and which files it writes. -/
namespace Provium.Lab
open Lib Provium.Host LabTree

variable {I C H : Type} {flat leaf dir : String} {a : SnapshotAnswers} {vm : SnapshotVm I C H}

section Call
variable {t : SnapshotLab I C H} {host : SnapshotHost} {s s' : SnapshotCall I C H} {i : ℕ}
  {k : List String × String}

theorem pass_eq (he : t.entries[i]? = some (k,vm)) : Cells.pass (SnapshotCall.advance t host) i =
    SnapshotCell.pass (flatName "" k) k.2 host.path (host.answers k) := by
  funext c
  simp [Cells.pass,SnapshotCall.advance,he,SnapshotCell.pass]

/-- A thread and its VM after so many steps. -/
theorem cell_after (n : ℕ → ℕ) (he : t.entries[i]? = some (k,vm)) :
    (Cells.after (SnapshotCall.advance t host) n (SnapshotCall.start t).cells)[i]? =
      some ((SnapshotCell.pass (flatName "" k) k.2 host.path (host.answers k))^[n i] ⟨vm,.pausing⟩) := by
  rw [Cells.getElem?_after,pass_eq he,SnapshotCall.start,List.getElem?_map,he]
  rfl

/-- A thread that is over has made the snapshot. -/
theorem over_final {n : ℕ} {c : SnapshotCell I C H} {r : Except SnapshotError LabSnapshotEntry}
    (hc : (SnapshotCell.pass flat leaf dir a)^[n] ⟨vm,.pausing⟩ = c) (hr : c.pc = .over r) :
    c = ⟨(vm.snapshot flat leaf dir a).1,.over (vm.snapshot flat leaf dir a).2⟩ := by
  rw [← advance_snapshot,← hc]
  refine @Cells.ends_unique _ (fun _ => SnapshotCell.advance flat leaf dir a) 0 ⟨vm,.pausing⟩ n 4 ?_ ?_
  · change SnapshotCell.advance flat leaf dir a ((SnapshotCell.pass flat leaf dir a)^[n] ⟨vm,.pausing⟩) = none
    rw [hc,SnapshotCell.advance,hr]
  · change SnapshotCell.advance flat leaf dir a ((SnapshotCell.pass flat leaf dir a)^[4] ⟨vm,.pausing⟩) = none
    rw [advance_snapshot]
    rfl

/-- These threads, from the first on, are over and have succeeded. -/
def JoinedUpTo (cells : List (SnapshotCell I C H)) (entries : List LabSnapshotEntry) : Prop :=
  (cells.take entries.length).map SnapshotCell.pc = entries.map fun e => .over (.ok e)

/-- How the call returns when it has joined these threads. -/
inductive Stopped (t : SnapshotLab I C H) (host : SnapshotHost) (cells : List (SnapshotCell I C H))
    (entries : List LabSnapshotEntry) : Except SnapshotFailure LabSnapshotMeta → Prop
  | failed (c : SnapshotCell I C H) (e : SnapshotError) (hc : cells[entries.length]? = some c)
      (hpc : c.pc = .over (.error e)) : Stopped t host cells entries (.error (.vms e))
  | unwritten (e : String) (hnone : cells[entries.length]? = none) (hw : host.written = .error e) :
      Stopped t host cells entries (.error (.written e))
  | done (hnone : cells[entries.length]? = none) (hw : host.written = .ok ()) :
      Stopped t host cells entries (.ok ⟨entries,t.bridges.entries.map fun e => .capture e.1 e.2.inner⟩)

/-- Where the call is, by its phase. -/
inductive Phased (t : SnapshotLab I C H) (host : SnapshotHost) (cells : List (SnapshotCell I C H)) :
    Bool → SnapshotPhase → Prop
  | starting : Phased t host cells false .starting
  | joining (entries : List LabSnapshotEntry) (h : JoinedUpTo cells entries) :
      Phased t host cells true (.joining entries)
  | refused (e : SnapshotFailure) : Phased t host cells false (.returned (.error e))
  | returned (entries : List LabSnapshotEntry) (r : Except SnapshotFailure LabSnapshotMeta)
      (h : JoinedUpTo cells entries) (hr : Stopped t host cells entries r) :
      Phased t host cells true (.returned r)

structure SnapshotInv (t : SnapshotLab I C H) (host : SnapshotHost) (s : SnapshotCall I C H) : Prop where
  cells : ∃ n, s.cells = Cells.after (SnapshotCall.advance t host) n (SnapshotCall.start t).cells ∧
    (s.spawned = false → n = fun _ => 0)
  spawned : s.spawned = true → host.dir = .ok () ∧ openStreamTotal t host.captures = 0
  phased : Phased t host s.cells s.spawned s.phase

theorem snapshotInv_start (t : SnapshotLab I C H) (host : SnapshotHost) :
    SnapshotInv t host (.start t) := by
  refine ⟨⟨fun _ => 0,?_,fun _ => rfl⟩,(by intro h; cases h),.starting⟩
  rw [Cells.after_zero]

/-- The threads that have been joined are not the one that moves. -/
theorem JoinedUpTo.move {cells : List (SnapshotCell I C H)} {entries : List LabSnapshotEntry}
    (h : JoinedUpTo cells entries) {c c' : SnapshotCell I C H} (hc : cells[i]? = some c)
    (hadv : SnapshotCall.advance t host i c = some c') :
    entries.length ≤ i ∧ JoinedUpTo (cells.set i c') entries := by
  have hle : entries.length ≤ i := by
    by_contra hlt
    have hget := congrArg (·[i]?) h
    rw [List.getElem?_map,List.getElem?_take_of_lt (by omega),hc,List.getElem?_map,
      List.getElem?_eq_getElem (by omega)] at hget
    have hpc : c.pc = .over (.ok _) := Option.some.inj hget
    obtain ⟨e,-,hadv⟩ := Option.bind_eq_some_iff.mp hadv
    rw [SnapshotCell.advance,hpc] at hadv
    cases hadv
  refine ⟨hle,?_⟩
  rw [JoinedUpTo,List.take_set_of_le hle]
  exact h

theorem JoinedUpTo.snoc {cells : List (SnapshotCell I C H)} {entries : List LabSnapshotEntry}
    (h : JoinedUpTo cells entries) {c : SnapshotCell I C H} {e : LabSnapshotEntry}
    (hc : cells[entries.length]? = some c) (hpc : c.pc = .over (.ok e)) : JoinedUpTo cells (entries++[e]) := by
  rw [JoinedUpTo,List.length_append,List.length_singleton,List.take_add_one,hc,List.map_append,List.map_append,h]
  simp [hpc]

theorem Stopped.move {cells : List (SnapshotCell I C H)} {entries : List LabSnapshotEntry}
    {r : Except SnapshotFailure LabSnapshotMeta} (h : Stopped t host cells entries r) {c c' : SnapshotCell I C H}
    (hc : cells[i]? = some c) (hadv : SnapshotCall.advance t host i c = some c') :
    Stopped t host (cells.set i c') entries r := by
  have hnone : cells[entries.length]? = none → (cells.set i c')[entries.length]? = none := by
    intro h
    rw [List.getElem?_eq_none_iff] at h ⊢
    rwa [List.length_set]
  cases h with
  | failed c₀ e hc₀ hpc =>
    by_cases hi : i = entries.length
    · subst hi
      obtain rfl : c₀ = c := Option.some.inj (hc₀.symm.trans hc)
      obtain ⟨e',-,hadv⟩ := Option.bind_eq_some_iff.mp hadv
      rw [SnapshotCell.advance,hpc] at hadv
      cases hadv
    · exact .failed c₀ e (by rw [List.getElem?_set_ne hi]; exact hc₀) hpc
  | unwritten e h hw => exact .unwritten e (hnone h) hw
  | done h hw => exact .done (hnone h) hw

theorem SnapshotInv.thread (h : SnapshotInv t host s) (hs : (SnapshotCall.machine t host).step s (.thread i) =
    some (s',())) : SnapshotInv t host s' := by
  simp only [SnapshotCall.machine,SnapshotCall.step] at hs
  split at hs
  · next hspawned =>
    obtain ⟨cells,hmove,heq⟩ := Option.map_eq_some_iff.mp hs
    cases heq
    obtain ⟨⟨n,hn,-⟩,hsp,hphased⟩ := h
    have hn' : cells = Cells.after (SnapshotCall.advance t host) (Function.update n i (n i+1))
        (SnapshotCall.start t).cells := by
      rw [hn] at hmove
      exact Cells.move_after hmove
    obtain ⟨c,hc,hset⟩ := Option.bind_eq_some_iff.mp hmove
    obtain ⟨c',hadv,rfl⟩ := Option.map_eq_some_iff.mp hset
    refine ⟨⟨_,hn',fun hno => ?_⟩,hsp,?_⟩
    · dsimp only at hno
      rw [hspawned] at hno
      cases hno
    · dsimp only
      rw [hspawned] at hphased ⊢
      generalize s.phase = phase at hphased
      cases hphased with
      | joining entries hj => exact .joining entries (hj.move hc hadv).2
      | returned entries r hj hr => exact .returned entries r (hj.move hc hadv).2 (hr.move hc hadv)
  · cases hs

theorem SnapshotInv.caller (h : SnapshotInv t host s) (hs : (SnapshotCall.machine t host).step s .caller =
    some (s',())) : SnapshotInv t host s' := by
  obtain ⟨s₁,hs,heq⟩ := Option.map_eq_some_iff.mp hs
  cases heq
  obtain ⟨⟨n,hn,hzero⟩,hsp,hphased⟩ := h
  obtain ⟨cells,spawned,phase⟩ := s
  simp only [SnapshotCall.caller] at hs
  cases hphased with
  | starting =>
    dsimp only at hs
    split at hs
    · cases hs
      exact ⟨⟨n,hn,hzero⟩,hsp,.refused _⟩
    · next hdir =>
      split at hs
      · cases hs
        exact ⟨⟨n,hn,hzero⟩,hsp,.refused _⟩
      · next htotal =>
        cases hs
        exact ⟨⟨n,hn,fun hno => by cases hno⟩,fun _ => ⟨hdir,by omega⟩,.joining [] rfl⟩
  | joining entries hj =>
    dsimp only at hs
    split at hs
    · next hnone =>
      split at hs
      · next e hw =>
        cases hs
        exact ⟨⟨n,hn,hzero⟩,hsp,.returned entries _ hj (.unwritten e hnone hw)⟩
      · next hw =>
        cases hs
        exact ⟨⟨n,hn,hzero⟩,hsp,.returned entries _ hj (.done hnone hw)⟩
    · next c hc =>
      split at hs
      · next e hpc =>
        cases hs
        exact ⟨⟨n,hn,hzero⟩,hsp,.joining _ (hj.snoc hc hpc)⟩
      · next e hpc =>
        cases hs
        exact ⟨⟨n,hn,hzero⟩,hsp,.returned entries _ hj (.failed c e hc hpc)⟩
      · cases hs
  | refused e => cases hs
  | returned entries r hj hr => cases hs

theorem run_inv {as : List SnapshotAction} {os : List Unit}
    (h : (SnapshotCall.machine t host).run (.start t) as = some (s,os)) : SnapshotInv t host s := by
  refine Machine.run_invariant _ ?_ (snapshotInv_start t host) h
  intro s a s' o hs hstep
  cases a with
  | caller => exact hs.caller hstep
  | thread i => exact hs.thread hstep

/-- What has become of a thread and its VM. -/
theorem SnapshotInv.cell (h : SnapshotInv t host s) (he : t.entries[i]? = some (k,vm)) : ∃ n,
    s.cells[i]? = some ((SnapshotCell.pass (flatName "" k) k.2 host.path (host.answers k))^[n] ⟨vm,.pausing⟩) ∧
      (s.spawned = false → n = 0) := by
  obtain ⟨n,hn,hzero⟩ := h.cells
  refine ⟨n i,?_,fun hno => by rw [hzero hno]⟩
  rw [hn]
  exact cell_after n he

theorem SnapshotInv.over (h : SnapshotInv t host s) (he : t.entries[i]? = some (k,vm)) {c : SnapshotCell I C H}
    {r : Except SnapshotError LabSnapshotEntry} (hc : s.cells[i]? = some c) (hr : c.pc = .over r) :
    c = ⟨(vm.snapshot (flatName "" k) k.2 host.path (host.answers k)).1,
      .over (vm.snapshot (flatName "" k) k.2 host.path (host.answers k)).2⟩ := by
  obtain ⟨n,hn,-⟩ := h.cell he
  exact over_final (Option.some.inj (hn.symm.trans hc)) hr

/-- A thread that has been joined. -/
theorem SnapshotInv.joined (h : SnapshotInv t host s) {entries : List LabSnapshotEntry}
    (hj : JoinedUpTo s.cells entries) (hi : i < entries.length) (he : t.entries[i]? = some (k,vm)) :
    s.cells[i]? = some ⟨(vm.snapshot (flatName "" k) k.2 host.path (host.answers k)).1,.over (.ok entries[i])⟩ ∧
      (vm.snapshot (flatName "" k) k.2 host.path (host.answers k)).2 = .ok entries[i] := by
  have hget := congrArg (·[i]?) hj
  rw [List.getElem?_map,List.getElem?_take_of_lt hi,List.getElem?_map,List.getElem?_eq_getElem hi] at hget
  obtain ⟨c,hc,hpc⟩ := Option.map_eq_some_iff.mp hget
  have hover := h.over he hc hpc
  have hout : (vm.snapshot (flatName "" k) k.2 host.path (host.answers k)).2 = .ok entries[i] := by
    rw [hover] at hpc
    exact SnapshotPc.over.inj hpc
  rw [hc,hover,hout]
  exact ⟨rfl,rfl⟩

/-- A thread whose VM is not there to be paused, or is paused and refused, changes nothing. -/
theorem idle_stays (ha : (host.answers k).Answered)
    (hbooted : vm.inner.vmInstance ≠ none → vm.inner.state ≠ .booted)
    (hpaused : vm.inner.vmInstance ≠ none → vm.inner.state = .paused → vm.Refuses (host.answers k)) (n : ℕ) :
    ((SnapshotCell.pass flat leaf dir (host.answers k))^[n] ⟨vm,.pausing⟩).vm = vm := by
  apply vm_stays
  · have hends := pause_ends vm.inner leaf (host.answers k).pause
    generalize vm.inner.pause leaf (host.answers k).pause = q at hends
    obtain ⟨v,p⟩ := q
    cases hends with
    | paused hstate hinst => exact absurd hstate (hbooted hinst)
    | refused e h => rfl
    | dead e hstate h =>
      obtain ⟨e',he',-⟩ := h
      rw [ha.1] at he'
      cases he'
    | panic => rfl
  · have hends := (snapshot_ends vm.inner leaf vm.openFiles vm.streams (host.answers k).snapshot).2
    -- a snapshot that comes to the backend is of a paused VM, which it refuses
    have hno : vm.inner.state ∈ [.booted,.paused] → vm.inner.vmInstance ≠ none → vm.openFiles = 0 →
        ∃ e, (host.answers k).snapshot = .error e ∧ isQmpDeadSignal e = false := by
      intro hstate hinst hfiles
      have hstate : vm.inner.state = .paused := by
        simpa [hbooted hinst] using hstate
      obtain h | h := hpaused hinst hstate
      · omega
      · exact h
    unfold SnapshotVm.Fails
    generalize (vm.inner.snapshot leaf vm.openFiles vm.streams (host.answers k).snapshot).2 = ended at hends
    cases hends with
    | taken hstate hinst hopen hok =>
      obtain ⟨e,he,-⟩ := hno hstate hinst hopen.1
      rw [hok] at he
      cases he
    | refused e h => exact ⟨by simp,by simp⟩
    | dead e hstate hinst hopen he hdead =>
      obtain ⟨e',he',halive⟩ := hno hstate hinst hopen.1
      rw [he] at he'
      cases he'
      rw [hdead] at halive
      cases halive
    | panic => exact ⟨by simp,by simp⟩

theorem streams_nil (htotal : openStreamTotal t host.captures = 0) (he : t.entries[i]? = some (k,vm)) :
    vm.streams = [] := by
  have hmem := List.mem_of_getElem? he
  have hzero := List.sum_eq_zero_iff.mp (Nat.add_eq_zero_iff.mp htotal).1 _ (List.mem_map_of_mem hmem)
  exact List.eq_nil_of_length_eq_zero hzero

/-- A thread that has failed is of a VM that is not saved. -/
theorem SnapshotInv.failed (h : SnapshotInv t host s) {c : SnapshotCell I C H} {e : SnapshotError}
    (hc : s.cells[i]? = some c) (hpc : c.pc = .over (.error e)) :
    ∃ k vm, t.entries[i]? = some (k,vm) ∧ ¬vm.Saves (host.answers k) := by
  cases he : t.entries[i]? with
  | none =>
    obtain ⟨n,hn,-⟩ := h.cells
    rw [hn,Cells.getElem?_after,SnapshotCall.start,List.getElem?_map,he] at hc
    cases hc
  | some entry =>
    obtain ⟨k,vm⟩ := entry
    refine ⟨k,vm,rfl,fun hs => ?_⟩
    obtain ⟨e',hok⟩ := snapshot_ok_iff.mpr hs
    rw [h.over he hc hpc,hok] at hpc
    cases hpc

/-- A VM that runs is joined, where it is snapshotted and all before it are. -/
theorem booted_joined (h : SnapshotInv t host s) {entries : List LabSnapshotEntry}
    {r : Except SnapshotFailure LabSnapshotMeta} (hr : Stopped t host s.cells entries r)
    (he : t.entries[i]? = some (k,vm))
    (hall : ∀ j k' vm', j ≤ i → t.entries[j]? = some (k',vm') → vm'.Saves (host.answers k')) :
    i < entries.length := by
  by_contra hle
  have hle : entries.length ≤ i := by omega
  obtain ⟨n,hi,-⟩ := h.cell he
  have hlen : ∀ {cells : List (SnapshotCell I C H)}, cells[entries.length]? = none → cells[i]? = none := by
    intro cells hnone
    rw [List.getElem?_eq_none_iff] at hnone ⊢
    omega
  cases hr with
  | failed c e hc hpc =>
    obtain ⟨k',vm',he',hno⟩ := h.failed hc hpc
    exact hno (hall _ k' vm' hle he')
  | unwritten e hnone => rw [hlen hnone] at hi; cases hi
  | done hnone => rw [hlen hnone] at hi; cases hi

/-- A call that succeeds has snapshotted all VMs, each into its file. -/
theorem SnapshotInv.taken (h : SnapshotInv t host s) {m : LabSnapshotMeta} (hphase : s.phase = .returned (.ok m)) :
    host.written = .ok () ∧ (∀ k vm, (k,vm) ∈ t.entries → vm.Saves (host.answers k)) ∧
      m.vms.map LabSnapshotEntry.snapshotPath =
        t.entries.map fun e => snapshotPath host.path (flatName "" e.1) := by
  have hphased := h.phased
  rw [hphase] at hphased
  generalize s.spawned = spawned at hphased
  cases hphased with
  | returned entries r hj hr =>
    cases hr with
    | done hnone hw =>
      -- as many entries as VMs
      have hlen : entries.length = t.entries.length := by
        obtain ⟨n,hn,-⟩ := h.cells
        have hcells : s.cells.length = t.entries.length := by
          rw [hn,Cells.after,List.length_mapIdx,SnapshotCall.start,List.length_map]
        have hle := congrArg List.length hj
        rw [List.length_map,List.length_take,List.length_map] at hle
        have hge := List.getElem?_eq_none_iff.mp hnone
        omega
      refine ⟨hw,?_,?_⟩
      · intro k vm hmem
        obtain ⟨i,hi⟩ := List.getElem?_of_mem hmem
        have hlt : i < entries.length := hlen ▸ (List.getElem?_eq_some_iff.mp hi).1
        exact snapshot_ok_iff.mp ⟨_,(h.joined hj hlt hi).2⟩
      · apply List.ext_getElem
        · simp [hlen]
        · intro i hi hi'
          simp only [List.length_map] at hi hi'
          have he : t.entries[i]? = some (t.entries[i].1,t.entries[i].2) := List.getElem?_eq_getElem hi'
          rw [List.getElem_map,List.getElem_map]
          exact path_of_snapshot (h.joined hj hi he).2

/-- Where the condition holds nothing is disturbed. -/
theorem Spares.undisturbed (h : host.dir = .ok () → openStreamTotal t host.captures = 0 → Spares t host) :
    Undisturbed t host := by
  constructor
  · intro as s os r hrun hphase i k vm c he hc ha
    have hinv := run_inv hrun
    obtain ⟨n,hn,hzero⟩ := hinv.cell he
    obtain rfl := Option.some.inj (hn.symm.trans hc)
    have hphased := hinv.phased
    cases hspawned : s.spawned with
    | false =>
      rw [hzero hspawned]
      rfl
    | true =>
      obtain ⟨hdir,htotal⟩ := hinv.spawned hspawned
      have hsp := h hdir htotal
      by_cases hb : vm.inner.vmInstance ≠ none ∧ vm.inner.state = .booted
      · have hall := hsp.booted i k vm he ha hb.1 hb.2
        rw [hspawned,hphase] at hphased
        cases hphased with
        | returned entries r hj hr =>
          have hi := booted_joined hinv hr he hall
          rw [(hinv.joined hj hi he).1] at hc
          obtain hc := Option.some.inj hc
          rw [← hc,hb.2]
          exact (booted_iff ha hb.1 hb.2).mpr (hall i k vm le_rfl he)
      · rw [idle_stays ha (fun hinst hstate => hb ⟨hinst,hstate⟩) (hsp.paused i k vm he ha)]
  · intro as s os m hrun hphase
    have hinv := run_inv hrun
    cases hspawned : s.spawned with
    | false =>
      have hphased := hinv.phased
      rw [hspawned,hphase] at hphased
      cases hphased
    | true =>
      obtain ⟨hdir,htotal⟩ := hinv.spawned hspawned
      obtain ⟨hw,hall,hpaths⟩ := hinv.taken hphase
      rw [hpaths]
      exact (h hdir htotal).paths hw hall

/-- The steps of the threads, one after the other. -/
theorem run_threads {cells cells' : List (SnapshotCell I C H)} {is : List ℕ} (phase : SnapshotPhase)
    (h : Cells.moves (SnapshotCall.advance t host) cells is = some cells') : ∃ os,
      (SnapshotCall.machine t host).run ⟨cells,true,phase⟩ (is.map .thread) = some (⟨cells',true,phase⟩,os) := by
  induction is generalizing cells with
  | nil =>
    cases h
    exact ⟨[],rfl⟩
  | cons i is ih =>
    obtain ⟨cells₁,hm,h⟩ := Option.bind_eq_some_iff.mp h
    obtain ⟨os,hrun⟩ := ih h
    refine ⟨()::os,Machine.run_of_step _ ?_ hrun⟩
    simp [SnapshotCall.machine,SnapshotCall.step,hm]

/-- The first thread that has failed, or the end of them. -/
def FirstFailed (cells : List (SnapshotCell I C H)) (f : ℕ) : Prop :=
  (∀ j < f, ∃ c e, cells[j]? = some c ∧ c.pc = .over (.ok e)) ∧
    (cells[f]? = none ∨ ∃ c e, cells[f]? = some c ∧ c.pc = .over (.error e))

variable (t host) in
/-- The caller joins the threads up to there and returns. -/
theorem run_joins {cells : List (SnapshotCell I C H)} {f : ℕ} (hf : FirstFailed cells f) (d : ℕ)
    (entries : List LabSnapshotEntry) (hd : entries.length+d = f) : ∃ as os r,
      (SnapshotCall.machine t host).run ⟨cells,true,.joining entries⟩ as =
        some (⟨cells,true,.returned r⟩,os) := by
  induction d generalizing entries with
  | zero =>
    obtain rfl : entries.length = f := hd
    obtain hnone | ⟨c,e,hc,hpc⟩ := hf.2
    · rcases hw : host.written with e | u
      · exact ⟨[.caller],[()],.error (.written e),by
          simp [Machine.run,SnapshotCall.machine,SnapshotCall.step,SnapshotCall.caller,hnone,hw]⟩
      · exact ⟨[.caller],[()],_,by
          simp only [Machine.run,SnapshotCall.machine,SnapshotCall.step,SnapshotCall.caller,hnone,hw]
          rfl⟩
    · exact ⟨[.caller],[()],.error (.vms e),by
        simp [Machine.run,SnapshotCall.machine,SnapshotCall.step,SnapshotCall.caller,hc,hpc]⟩
  | succ d ih =>
    obtain ⟨c,e,hc,hpc⟩ := hf.1 entries.length (by omega)
    obtain ⟨as,os,r,hrun⟩ := ih (entries++[e]) (by rw [List.length_append,List.length_singleton]; omega)
    refine ⟨.caller::as,()::os,r,Machine.run_of_step _ ?_ hrun⟩
    simp [SnapshotCall.machine,SnapshotCall.step,SnapshotCall.caller,hc,hpc]

/-- The threads can have come to any place when the call returns, if the first that fails has done so. -/
theorem run_to_return (hdir : host.dir = .ok ()) (htotal : openStreamTotal t host.captures = 0) (n : ℕ → ℕ) {f : ℕ}
    (hf : FirstFailed (Cells.after (SnapshotCall.advance t host) n (SnapshotCall.start t).cells) f) :
    ∃ as os r, (SnapshotCall.machine t host).run (.start t) as = some (⟨Cells.after
      (SnapshotCall.advance t host) n (SnapshotCall.start t).cells,true,.returned r⟩,os) := by
  obtain ⟨is,his⟩ := Cells.exists_moves (SnapshotCall.advance t host) n (SnapshotCall.start t).cells
  obtain ⟨os,hthreads⟩ := run_threads (.joining []) his
  obtain ⟨as,os',r,hjoins⟩ := run_joins t host hf f [] (by simp)
  refine ⟨.caller::(is.map .thread++as),()::(os++os'),r,Machine.run_of_step _ ?_
    ((Machine.run_append _).mpr ⟨_,os,os',hthreads,hjoins,rfl⟩)⟩
  simp [SnapshotCall.machine,SnapshotCall.step,SnapshotCall.caller,SnapshotCall.start,hdir,htotal]

/-- A VM's thread at its end. -/
theorem cell_end {n : ℕ → ℕ} (hn : n i = 4) (he : t.entries[i]? = some (k,vm)) :
    (Cells.after (SnapshotCall.advance t host) n (SnapshotCall.start t).cells)[i]? =
      some ⟨(vm.snapshot (flatName "" k) k.2 host.path (host.answers k)).1,
        .over (vm.snapshot (flatName "" k) k.2 host.path (host.answers k)).2⟩ := by
  rw [cell_after n he,hn,advance_snapshot]

variable (t host) in
/-- The first thread that fails, where the threads up to one that does or the end of them are over. -/
theorem exists_firstFailed {n : ℕ → ℕ} (m : ℕ) (hn : ∀ j ≤ m, n j = 4)
    (hm : ∀ k vm, t.entries[m]? = some (k,vm) → ¬vm.Saves (host.answers k)) :
    ∃ f, FirstFailed (Cells.after (SnapshotCall.advance t host) n (SnapshotCall.start t).cells) f := by
  classical
  have hex : ∃ f, ∀ k (vm : SnapshotVm I C H), t.entries[f]? = some (k,vm) → ¬vm.Saves (host.answers k) :=
    ⟨m,hm⟩
  have hle : Nat.find hex ≤ m := Nat.find_min' hex hm
  refine ⟨Nat.find hex,?_,?_⟩
  · intro j hj
    have hsaves := Nat.find_min hex hj
    push Not at hsaves
    obtain ⟨k,vm,he,hs⟩ := hsaves
    obtain ⟨e,hok⟩ := snapshot_ok_iff.mpr hs
    exact ⟨_,e,cell_end (hn j (by omega)) he,by rw [hok]⟩
  · cases he : t.entries[Nat.find hex]? with
    | none =>
      left
      rw [Cells.getElem?_after,SnapshotCall.start,List.getElem?_map,he]
      rfl
    | some e =>
      right
      obtain ⟨k,vm⟩ := e
      have hno := Nat.find_spec hex k vm he
      rcases hout : (vm.snapshot (flatName "" k) k.2 host.path (host.answers k)).2 with err | entry
      · exact ⟨_,err,cell_end (hn _ hle) he,by rw [hout]⟩
      · exact absurd (snapshot_ok_iff.mp ⟨entry,hout⟩) hno

/-- Where nothing is disturbed the condition holds. -/
theorem Undisturbed.spares (h : Undisturbed t host) (hdir : host.dir = .ok ())
    (htotal : openStreamTotal t host.captures = 0) : Spares t host := by
  -- the VMs when all threads but one have come to their end
  have hend : ∀ (i : ℕ) k vm, t.entries[i]? = some (k,vm) → (host.answers k).Answered → ∀ n : ℕ → ℕ,
      (∃ f, FirstFailed (Cells.after (SnapshotCall.advance t host) n (SnapshotCall.start t).cells) f) →
        ∀ c, (Cells.after (SnapshotCall.advance t host) n (SnapshotCall.start t).cells)[i]? = some c →
          c.vm.inner.state = vm.inner.state := by
    rintro i k vm he ha n ⟨f,hf⟩ c hc
    obtain ⟨as,os,r,hrun⟩ := run_to_return hdir htotal n hf
    exact h.states as _ os r hrun rfl i k vm c he hc ha
  refine ⟨?_,?_,?_⟩
  · intro i k vm he ha hinst hstate j k' vm' hj he'
    by_contra hno
    by_cases hs : vm.Saves (host.answers k)
    · -- the thread of an earlier VM has failed while this one is at its snapshot
      have hlt : j < i := by
        refine lt_of_le_of_ne hj ?_
        rintro rfl
        rw [he] at he'
        cases he'
        exact hno hs
      have hn : ∀ x ≤ j, (if x = i then 1 else 4) = 4 := fun x hx => if_neg (by omega)
      have hstill := hend i k vm he ha (fun x => if x = i then 1 else 4)
        (exists_firstFailed t host j hn fun k₁ vm₁ he₁ => by rw [he'] at he₁; cases he₁; exact hno) _
        (cell_after _ he)
      rw [if_pos rfl,Function.iterate_one,hstate] at hstill
      have hpass : SnapshotCell.pass (flatName "" k) k.2 host.path (host.answers k) ⟨vm,.pausing⟩ =
          ⟨{ vm with inner := { vm.inner with state := .paused } },.saving⟩ := by
        rw [SnapshotCell.pass,SnapshotCell.advance,pause_booted ha.1 hinst hstate]
        rfl
      rw [hpass] at hstill
      cases hstill
    · have hstill := hend i k vm he ha (fun _ => 4)
        (exists_firstFailed t host i (fun _ _ => rfl) fun k₁ vm₁ he₁ => by rw [he] at he₁; cases he₁; exact hs) _
        (cell_end rfl he)
      rw [hstate] at hstill
      exact hs ((booted_iff ha hinst hstate).mp hstill)
  · intro i k vm he ha hinst hstate
    have hstill := hend i k vm he ha (fun _ => 4)
      (exists_firstFailed t host t.entries.length (fun _ _ => rfl) fun k₁ vm₁ he₁ => by simp at he₁) _
      (cell_end rfl he)
    rw [hstate] at hstill
    exact (paused_iff ha hinst hstate (streams_nil htotal he)).mp hstill
  · intro hw hall
    obtain ⟨f,hf⟩ := exists_firstFailed t host (n := fun _ => 4) t.entries.length
      (fun _ _ => rfl) fun k₁ vm₁ he₁ => by simp at he₁
    obtain ⟨as,os,r,hrun⟩ := run_to_return hdir htotal _ hf
    have hinv := run_inv hrun
    -- no thread has failed, and so the call has not
    have hok : ∃ m, r = .ok m := by
      cases hinv.phased with
      | returned entries r hj hr =>
        cases hr with
        | failed c e hc hpc =>
          obtain ⟨k,vm,he,hno⟩ := hinv.failed hc hpc
          exact absurd (hall k vm (List.mem_of_getElem? he)) hno
        | unwritten e hnone hw' =>
          rw [hw] at hw'
          cases hw'
        | done hnone hw' => exact ⟨_,rfl⟩
    obtain ⟨m,rfl⟩ := hok
    rw [← (hinv.taken rfl).2.2]
    exact h.paths as _ os m hrun rfl

/-- Nothing is disturbed exactly where no thread is started, or all VMs that run are snapshotted, with all
VMs before them, all that are paused are refused, and no two files are one. -/
theorem lab_snapshot_undisturbed_iff (t : SnapshotLab I C H) (host : SnapshotHost) :
    Undisturbed t host ↔ (host.dir = .ok () → openStreamTotal t host.captures = 0 → Spares t host) :=
  ⟨Undisturbed.spares,Spares.undisturbed⟩

end Call

/-- A VM of this state with nothing open. -/
def quietVm (state : VmState) : SnapshotVm Unit Unit Unit :=
  ⟨"p",⟨state,some ⟨3,some (),(),none,none⟩,none⟩,0,[],[],∅⟩

def onePaused : SnapshotLab Unit Unit Unit := putVm "a" (quietVm .paused) .empty

def oneBooted : SnapshotLab Unit Unit Unit := putVm "a" (quietVm .booted) .empty

/-- The VMs a/b and a_b. -/
def twoNames : SnapshotLab Unit Unit Unit :=
  atPath (putVm "b" (quietVm .booted)) ["a"] (putVm "a_b" (quietVm .booted) .empty)

/-- A host on which all snapshots come to this. -/
def snapshotHost (snapshot : Except VmmError Unit) : SnapshotHost :=
  ⟨"/snaps",.ok (),noCaptures,fun _ => ⟨.ok (),snapshot,.ok ()⟩,.ok ()⟩

/-- A paused VM is resumed, one that runs is left paused where its snapshot fails, and two VMs get one file. -/
theorem lab_snapshot_disturbs :
    (∀ t ∈ [onePaused,oneBooted,twoNames], ∀ e ∈ t.entries, e.2.inner.state ∈ [.booted,.paused]) ∧
      ¬Undisturbed onePaused (snapshotHost (.ok ())) ∧
      ¬Undisturbed oneBooted (snapshotHost (.error (.io .other))) ∧
      ¬Undisturbed twoNames (snapshotHost (.ok ())) := by
  refine ⟨by decide +kernel,fun h => ?_,fun h => ?_,fun h => ?_⟩
  · have hs := (h.spares rfl rfl).paused 0 ([],"a") (quietVm .paused) rfl ⟨rfl,rfl⟩ (by decide) rfl
    obtain h | ⟨e,he,-⟩ := hs
    · exact absurd h (by decide)
    · cases he
  · have hs := (h.spares rfl rfl).booted 0 ([],"a") (quietVm .booted) rfl ⟨rfl,rfl⟩ (by decide) rfl
      0 ([],"a") (quietVm .booted) le_rfl rfl
    cases hs.2.2.2.1
  · have hs := (h.spares rfl rfl).paths rfl ?_
    · revert hs
      decide +kernel
    · intro k vm hmem
      have hentries : twoNames.entries = [(([],"a_b"),quietVm .booted),((["a"],"b"),quietVm .booted)] := rfl
      have hvm : vm = quietVm .booted := by
        rw [hentries] at hmem
        simp only [List.mem_cons,Prod.mk.injEq,List.not_mem_nil,or_false] at hmem
        exact hmem.elim And.right And.right
      rw [hvm]
      exact ⟨by decide,rfl,rfl,rfl,.inr ⟨rfl,fun e he => by cases he⟩⟩

end Provium.Lab
