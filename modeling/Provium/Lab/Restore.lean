import Provium.Lab.Snapshot
import Provium.Lab.FlatNames

/-! A lab restored from its snapshot. A restored VM is Booted as `from_running` makes it, and the last
step of `lab_restore` resumes it, which is legal on a paused one only. -/
namespace Provium.Lab
open Lib Provium.Host LabTree

theorem except_bind_eq_ok {α β ε : Type} {x : Except ε α} {f : α → Except ε β} {b : β}
    (h : x.bind f = .ok b) : ∃ a, x = .ok a ∧ f a = .ok b := by
  cases x with
  | error e => cases h
  | ok a => exact ⟨a,rfl,h⟩

/-- The threads have all succeeded. -/
theorem joinAll_ok {α ε : Type} {l : List (Except ε α)} {as : List α} (h : joinAll l = .ok as) :
    l = as.map .ok := by
  induction l generalizing as with
  | nil =>
    cases h
    rfl
  | cons r rest ih =>
    obtain ⟨a,hr,h⟩ := except_bind_eq_ok h
    cases hrest : joinAll rest with
    | error e =>
      rw [hrest] at h
      cases h
    | ok bs =>
      rw [hrest] at h
      cases h
      rw [hr,ih hrest]
      rfl

variable {I C H : Type} {host : RestoreHost I C}

theorem vmName_of_snapshot {vm : SnapshotVm I C H} {flat leaf dir : String} {a : SnapshotAnswers}
    {e : LabSnapshotEntry} (h : (vm.snapshot flat leaf dir a).2 = .ok e) : e.vmName = flat := by
  simp only [SnapshotVm.snapshot] at h
  split at h
  · cases h
  · split at h
    · split at h
      · cases h
      · cases h
        rfl
    · cases h
    · cases h
    · cases h

/-- A snapshot has an entry for each VM, under its flat name, and nothing but the lab's own bridges. -/
theorem labSnapshot_ok {t : SnapshotLab I C H} {captures : List String × String → ℕ} {dir : String}
    {answers : List String × String → SnapshotAnswers} {m : LabSnapshotMeta}
    (h : labSnapshot t captures dir answers = .ok m) :
    List.Forall₂ (fun e k => e.vmName = LabTree.flatName "" k.1) m.vms t.entries ∧
      m.bridges = t.bridges.entries.map fun e => .capture e.1 e.2.inner := by
  simp only [labSnapshot] at h
  split at h
  · cases h
  · cases hj : joinAll ((snapshotVms t dir answers).map fun e => e.2.2) with
    | error e =>
      rw [hj] at h
      cases h
    | ok entries =>
      rw [hj] at h
      cases h
      refine ⟨?_,rfl⟩
      have hall := (joinAll_ok hj).symm
      rw [snapshotVms,List.map_map,← List.forall₂_eq_eq_eq,List.forall₂_map_left_iff,
        List.forall₂_map_right_iff] at hall
      exact hall.imp fun e k hek => vmName_of_snapshot hek.symm

namespace SnapshotLab
variable {t t' : SnapshotLab I C H} {bridges : List LabSnapshotBridge}

theorem vmAt_attachBridge {m : LabSnapshotBridge} (h : attachBridge t m = .ok t')
    (path : List String) (name : String) : LabTree.vmAt t' path name = LabTree.vmAt t path name := by
  unfold attachBridge at h
  split at h
  · cases h
    exact vmAt_putBridge ..
  · split at h
    · cases h
    · cases h
      exact vmAt_putBridge ..

theorem vmAt_attachBridges (h : attachBridges t bridges = .ok t') (path : List String)
    (name : String) : LabTree.vmAt t' path name = LabTree.vmAt t path name := by
  induction bridges generalizing t with
  | nil =>
    cases h
    rfl
  | cons m rest ih =>
    obtain ⟨t₁,h₁,h⟩ := except_bind_eq_ok h
    rw [ih h,vmAt_attachBridge h₁]

theorem vmAt_reapplyBridges (t : SnapshotLab I C H) (bridges : List LabSnapshotBridge)
    (path : List String) (name : String) :
    LabTree.vmAt (reapplyBridges t bridges) path name = LabTree.vmAt t path name := by
  induction bridges generalizing t with
  | nil => rfl
  | cons m rest ih =>
    rw [reapplyBridges,List.foldl_cons]
    refine (ih _).trans ?_
    unfold reapplyBridge
    split
    · rfl
    · exact vmAt_putBridge ..

theorem restoreVm_booted {e : LabSnapshotEntry} {vm : SnapshotVm I C H}
    (h : restoreVm host bridges e = .ok vm) : vm.inner.state = .booted := by
  unfold restoreVm at h
  split at h
  · split at h
    · cases h
    · cases h
      rfl
  · cases h

/-- The VMs that are there stay, and those restored are Booted. -/
theorem restoreVms_ok {l : List LabSnapshotEntry} (h : restoreVms host bridges t l = .ok t') :
    (∀ path name vm, LabTree.vmAt t path name = some vm → LabTree.vmAt t' path name = some vm) ∧
      ∀ e ∈ l, ∃ vm, LabTree.vmAt t' (splitSubLabPath e.vmName).1 (splitSubLabPath e.vmName).2 =
        some vm ∧ vm.inner.state = .booted := by
  induction l generalizing t with
  | nil =>
    cases h
    exact ⟨fun _ _ _ hvm => hvm,by simp⟩
  | cons e rest ih =>
    obtain ⟨vm,hvm,h⟩ := except_bind_eq_ok h
    obtain ⟨hnone,t₁,hplace,hat⟩ | ⟨-,err,hplace⟩ := place_cases t e.vmName vm
    · rw [hplace] at h
      obtain ⟨hkeep,hrest⟩ := ih h
      refine ⟨?_,?_⟩
      · intro path name v hv
        apply hkeep
        rw [hat,if_neg]
        · exact hv
        · intro heq
          obtain ⟨rfl,rfl⟩ := Prod.ext_iff.mp heq
          rw [hnone] at hv
          cases hv
      · intro e' he'
        obtain rfl | he' := List.mem_cons.mp he'
        · refine ⟨vm,?_,restoreVm_booted hvm⟩
          apply hkeep
          rw [hat]
          exact if_pos rfl
        · exact hrest e' he'
    · rw [hplace] at h
      cases h

/-- A VM that is Booted is not resumed. -/
theorem resumeVms_booted {e : LabSnapshotEntry} {rest : List LabSnapshotEntry}
    {vm : SnapshotVm I C H}
    (hvm : LabTree.vmAt t (splitSubLabPath e.vmName).1 (splitSubLabPath e.vmName).2 = some vm)
    (hstate : vm.inner.state = .booted) : resumeVms host t (e::rest) =
      .error (.resumeFailed (.wrongState (splitSubLabPath e.vmName).2 .booted "resume")) := by
  have hres : vm.inner.resume (splitSubLabPath e.vmName).2 (host.resume e) =
      (vm.inner,.done (.error (.wrongState (splitSubLabPath e.vmName).2 .booted "resume"))) := by
    simp [VmInner.resume,hstate,VmInner.wrongState]
  simp only [resumeVms,hvm,hres]

/-- A restore succeeds of a snapshot without VMs only, and it leaves the VMs alone then. -/
theorem labRestore_ok {m : LabSnapshotMeta} (h : labRestore host t m = .ok t') : m.vms = [] ∧
    ∀ path name, LabTree.vmAt t' path name = LabTree.vmAt t path name := by
  obtain ⟨t₁,h₁,h⟩ := except_bind_eq_ok h
  obtain ⟨t₂,h₂,h⟩ := except_bind_eq_ok h
  obtain ⟨t₃,h₃,h⟩ := except_bind_eq_ok h
  cases hm : m.vms with
  | nil =>
    rw [hm] at h₁ h₃ h
    cases h₁
    cases h₃
    cases h
    refine ⟨rfl,?_⟩
    intro path name
    rw [vmAt_reapplyBridges,vmAt_attachBridges h₂]
  | cons e rest =>
    exfalso
    rw [hm] at h₃ h
    obtain ⟨vm,hvm,hstate⟩ := (restoreVms_ok h₃).2 e List.mem_cons_self
    rw [← vmAt_reapplyBridges t₃ m.bridges] at hvm
    rw [resumeVms_booted hvm hstate] at h
    cases h

theorem attachBridges_of_accepted (hb : ∀ m ∈ bridges, m.name ∉ reservedLabNames) :
    ∃ t', attachBridges t bridges = .ok t' := by
  induction bridges generalizing t with
  | nil => exact ⟨t,rfl⟩
  | cons m rest ih =>
    have hone : ∃ t₁, attachBridge t m = .ok t₁ := by
      unfold attachBridge
      split
      · exact ⟨_,rfl⟩
      · rw [checkReservedName,if_neg (hb m List.mem_cons_self)]
        exact ⟨_,rfl⟩
    obtain ⟨t₁,h₁⟩ := hone
    obtain ⟨t',h'⟩ := ih (t := t₁) fun m' hm' => hb m' (List.mem_cons_of_mem m hm')
    exact ⟨t',by rw [attachBridges,h₁]; exact h'⟩

theorem labRestore_of_no_vms (host : RestoreHost I C) (t : SnapshotLab I C H) {m : LabSnapshotMeta}
    (hm : m.vms = []) (hb : ∀ b ∈ m.bridges, b.name ∉ reservedLabNames) :
    ∃ t', labRestore host t m = .ok t' := by
  obtain ⟨t₁,h₁⟩ := attachBridges_of_accepted (t := t) hb
  refine ⟨reapplyBridges t₁ m.bridges,?_⟩
  rw [labRestore,hm,preflight,Except.bind,h₁]
  rfl

end SnapshotLab

/-- The VMs are those of the lab the snapshot is of, with their profiles, and all are Booted. -/
def Restored (t t' : SnapshotLab I C H) : Prop :=
  ∀ path name, (LabTree.vmAt t' path name).map (·.profile) = (LabTree.vmAt t path name).map (·.profile) ∧
    ∀ vm, LabTree.vmAt t' path name = some vm → vm.inner.state = .booted

/-- The snapshot can be restored into the lab as it is later, and into one that is empty. -/
def Undoes (host : RestoreHost I C) (t later : SnapshotLab I C H) (m : LabSnapshotMeta) : Prop :=
  (∃ t', SnapshotLab.labRestore host later m = .ok t' ∧ Restored t t') ∧
    ∃ t', SnapshotLab.labRestore host LabTree.empty m = .ok t' ∧ Restored t t'

def NoVms (t : SnapshotLab I C H) : Prop := ∀ path name, LabTree.vmAt t path name = none

theorem noVms_iff_entries {t : SnapshotLab I C H} : NoVms t ↔ LabTree.entries t = [] := by
  constructor
  · intro h
    apply List.eq_nil_iff_forall_not_mem.mpr
    rintro ⟨⟨path,name⟩,vm⟩ he
    have := mem_entries.mp he
    rw [h path name] at this
    cases this
  · intro h path name
    apply Option.eq_none_iff_forall_not_mem.mpr
    intro vm hvm
    have := mem_entries.mpr hvm
    rw [h] at this
    cases this

theorem restored_of_noVms {t t' : SnapshotLab I C H} (ht : NoVms t) (ht' : NoVms t') :
    Restored t t' := by
  intro path name
  rw [ht path name,ht' path name]
  exact ⟨rfl,by simp⟩

/-- Whatever the backend answers, restoring undoes a snapshot exactly where there was no VM at the
snapshot, and there is none later. -/
theorem labRestore_undoes_iff {t later : SnapshotLab I C H} {captures : List String × String → ℕ}
    {dir : String}
    {answers : List String × String → SnapshotAnswers} {m : LabSnapshotMeta}
    (hsnap : labSnapshot t captures dir answers = .ok m) (hnames : ∀ n ∈ t.bridges, n ∉ reservedLabNames)
    (host : RestoreHost I C) : Undoes host t later m ↔ NoVms t ∧ NoVms later := by
  obtain ⟨hentries,hbridges⟩ := labSnapshot_ok hsnap
  have hlen := hentries.length_eq
  constructor
  · rintro ⟨⟨t',ht',hres⟩,-⟩
    obtain ⟨hm,hsame⟩ := SnapshotLab.labRestore_ok ht'
    have hno : NoVms t := by
      apply noVms_iff_entries.mpr
      rw [hm] at hlen
      exact List.length_eq_zero_iff.mp hlen.symm
    refine ⟨hno,?_⟩
    intro path name
    have hp := (hres path name).1
    rw [hsame,hno path name,Option.map_none] at hp
    exact Option.map_eq_none_iff.mp hp
  · rintro ⟨hno,hlater⟩
    have hm : m.vms = [] := by
      rw [noVms_iff_entries.mp hno] at hlen
      exact List.length_eq_zero_iff.mp hlen
    have haccepted : ∀ b ∈ m.bridges, b.name ∉ reservedLabNames := by
      intro b hb
      rw [hbridges] at hb
      obtain ⟨e,he,rfl⟩ := List.mem_map.mp hb
      exact hnames e.1 (AList.mem_keys.mpr (List.mem_map_of_mem he))
    constructor
    · obtain ⟨t',ht'⟩ := SnapshotLab.labRestore_of_no_vms host later hm haccepted
      refine ⟨t',ht',restored_of_noVms hno ?_⟩
      intro path name
      rw [(SnapshotLab.labRestore_ok ht').2]
      exact hlater path name
    · obtain ⟨t',ht'⟩ := SnapshotLab.labRestore_of_no_vms host (LabTree.empty : SnapshotLab I C H) hm
        haccepted
      refine ⟨t',ht',restored_of_noVms hno ?_⟩
      intro path name
      rw [(SnapshotLab.labRestore_ok ht').2]
      exact vmAt_empty path name

/-- A lab with one Booted VM and nothing open. -/
def oneVm : SnapshotLab Unit Unit Unit :=
  LabTree.putVm "a" ⟨"p",⟨.booted,some ⟨3,some (),(),none,none⟩,none⟩,0,[],[],∅⟩ .empty

/-- A backend that takes every snapshot, and restores and resumes every VM. -/
def willing : RestoreHost Unit Unit := ⟨fun _ => true,fun _ => .ok ⟨3,(),(),none,none⟩,fun _ => .ok ()⟩

/-- No bridge is captured. -/
def noCaptures (_ : List String × String) : ℕ := 0

def willingAnswers (_ : List String × String) : SnapshotAnswers := ⟨.ok (),.ok (),.ok ()⟩

def oneVmMeta : LabSnapshotMeta := ⟨[⟨"a","p","/snaps/a.snap"⟩],[]⟩

theorem labSnapshot_oneVm : labSnapshot oneVm noCaptures "/snaps" willingAnswers = .ok oneVmMeta := by rfl

theorem labRestore_undoes_iff_oneVm :
    Undoes willing oneVm oneVm oneVmMeta ↔ NoVms oneVm ∧ NoVms oneVm :=
  labRestore_undoes_iff labSnapshot_oneVm (by decide) willing

/-- Its snapshot is refused by the lab itself for its name, and fails in an empty lab at the resume. -/
theorem oneVm_not_undone :
    labSnapshot oneVm noCaptures "/snaps" willingAnswers = .ok oneVmMeta ∧
      SnapshotLab.labRestore willing oneVm oneVmMeta = .error (.lab (.duplicateVmName "a")) ∧
      SnapshotLab.labRestore willing (LabTree.empty : SnapshotLab Unit Unit Unit) oneVmMeta =
        .error (.resumeFailed (.wrongState "a" .booted "resume")) ∧
      ¬Undoes willing oneVm oneVm oneVmMeta := by
  have hsame : SnapshotLab.labRestore willing oneVm oneVmMeta =
      .error (.lab (.duplicateVmName "a")) := by rfl
  have hfresh : SnapshotLab.labRestore willing (LabTree.empty : SnapshotLab Unit Unit Unit) oneVmMeta =
      .error (.resumeFailed (.wrongState "a" .booted "resume")) := by rfl
  refine ⟨labSnapshot_oneVm,hsame,hfresh,?_⟩
  rintro ⟨⟨t',ht',-⟩,-⟩
  rw [hsame] at ht'
  cases ht'

end Provium.Lab
