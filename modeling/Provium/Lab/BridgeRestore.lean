import Provium.Lab.Restore
import Provium.Lab.BridgeRebuild

/-! The bridges after a restore. The snapshot writes down the lab's own bridges, and knows a VM by its
flat name where a bridge knows it by the name it has in its lab. Which bridges a VM is attached to, the VM
itself keeps, and the snapshot does not ask it. -/
namespace Provium.Lab
open Lib Provium.Host LabTree

variable {I C H : Type}

namespace SnapshotLab

theorem attachBridge_new {t t' : SnapshotLab I C H} {m : LabSnapshotBridge}
    (hnew : t.bridges.lookup m.name = none) (h : attachBridge t m = .ok t') :
    t' = t.putBridge m.name (Bridge.new.applyAll m.attachOps) := by
  unfold attachBridge at h
  rw [hnew] at h
  simp only at h
  split at h
  · cases h
  · cases h
    rfl

/-- Bridges that were missing are made, one for each entry. -/
theorem attachBridges_new {t t' : SnapshotLab I C H} {bridges : List LabSnapshotBridge}
    (hnames : (bridges.map LabSnapshotBridge.name).Nodup)
    (hnew : ∀ m ∈ bridges, t.bridges.lookup m.name = none) (h : attachBridges t bridges = .ok t') :
    (∀ m ∈ bridges, t'.bridges.lookup m.name = some (Bridge.new.applyAll m.attachOps)) ∧
      (∀ n ∉ bridges.map LabSnapshotBridge.name, t'.bridges.lookup n = t.bridges.lookup n) ∧
      ∀ p ps, t'.labAt (p::ps) = t.labAt (p::ps) := by
  induction bridges generalizing t with
  | nil =>
    cases h
    simp
  | cons m rest ih =>
    obtain ⟨hm,hnames⟩ := List.nodup_cons.mp hnames
    obtain ⟨t₁,h₁,h⟩ := except_bind_eq_ok h
    obtain rfl := attachBridge_new (hnew m List.mem_cons_self) h₁
    have hne : ∀ m' ∈ rest, m'.name ≠ m.name := by
      intro m' hm' heq
      exact hm (List.mem_map.mpr ⟨m',hm',heq⟩)
    obtain ⟨hin,hout,hbelow⟩ := ih hnames (by
      intro m' hm'
      rw [bridges_putBridge,AList.lookup_insert_ne (hne m' hm')]
      exact hnew m' (List.mem_cons_of_mem m hm')) h
    refine ⟨?_,?_,?_⟩
    · intro m' hm'
      obtain rfl | hm' := List.mem_cons.mp hm'
      · rw [hout _ hm,bridges_putBridge,AList.lookup_insert]
      · exact hin m' hm'
    · intro n hn
      rw [List.map_cons,List.mem_cons,not_or] at hn
      rw [hout n hn.2,bridges_putBridge,AList.lookup_insert_ne hn.1]
    · intro p ps
      rw [hbelow,labAt_putBridge_cons]

/-- Each bridge is called for its own entry only. -/
theorem reapplyBridges_each {t : SnapshotLab I C H} {bridges : List LabSnapshotBridge}
    {made : LabSnapshotBridge → Bridge} (hnames : (bridges.map LabSnapshotBridge.name).Nodup)
    (hmade : ∀ m ∈ bridges, t.bridges.lookup m.name = some (made m)) :
    (∀ m ∈ bridges, (reapplyBridges t bridges).bridges.lookup m.name =
        some ((made m).applyAll m.reapplyOps)) ∧
      (∀ n ∉ bridges.map LabSnapshotBridge.name,
        (reapplyBridges t bridges).bridges.lookup n = t.bridges.lookup n) ∧
      ∀ p ps, (reapplyBridges t bridges).labAt (p::ps) = t.labAt (p::ps) := by
  induction bridges generalizing t with
  | nil => exact ⟨by simp,fun _ _ => rfl,fun _ _ => rfl⟩
  | cons m rest ih =>
    obtain ⟨hm,hnames⟩ := List.nodup_cons.mp hnames
    have hone : reapplyBridge t m = t.putBridge m.name ((made m).applyAll m.reapplyOps) := by
      rw [reapplyBridge,hmade m List.mem_cons_self]
    have hne : ∀ m' ∈ rest, m'.name ≠ m.name := by
      intro m' hm' heq
      exact hm (List.mem_map.mpr ⟨m',hm',heq⟩)
    obtain ⟨hin,hout,hbelow⟩ := ih (t := reapplyBridge t m) hnames (by
      intro m' hm'
      rw [hone,bridges_putBridge,AList.lookup_insert_ne (hne m' hm')]
      exact hmade m' (List.mem_cons_of_mem m hm'))
    rw [reapplyBridges,List.foldl_cons]
    refine ⟨?_,?_,?_⟩
    · intro m' hm'
      obtain rfl | hm' := List.mem_cons.mp hm'
      · refine (hout _ hm).trans ?_
        rw [hone,bridges_putBridge,AList.lookup_insert]
      · exact hin m' hm'
    · intro n hn
      rw [List.map_cons,List.mem_cons,not_or] at hn
      refine (hout n hn.2).trans ?_
      rw [hone,bridges_putBridge,AList.lookup_insert_ne hn.1]
    · intro p ps
      refine (hbelow p ps).trans ?_
      rw [hone,labAt_putBridge_cons]

end SnapshotLab

/-- The VM of this name is attached to the bridge of the lab at the path: it holds the bridge, and has not
been detached from it. -/
def AttachedTo (t : SnapshotLab I C H) (path : List String) (bridge name : String)
    (vm : SnapshotVm I C H) : Prop :=
  vm.bridgeAttachments.lookup bridge = some (.ofLab path) ∧
    ∃ b, t.bridgeAt path bridge = some b ∧ name ∈ b.inner.attached

/-- The VM of this name is attached to a bridge that is in no lab of the tree. -/
def AttachedElsewhere (name : String) (vm : SnapshotVm I C H) : Prop :=
  ∃ bridge b, vm.bridgeAttachments.lookup bridge = some (.elsewhere b) ∧ name ∈ b.attached

/-- The VM restored from the entry gets a card for the bridge of the lab at the path: the bridges
that `lab_restore` looks up are those of the lab itself. -/
def HasNic (m : LabSnapshotMeta) (e : LabSnapshotEntry) (path : List String) (bridge : String) : Prop :=
  path = [] ∧ bridge ∈ (nicAttachments m.bridges e.vmName (splitSubLabPath e.vmName).2).map
    NicAttachment.bridgeName

/-- In an empty lab the bridge steps build the bridges of the lab and of its sub-labs as they were,
and each VM gets a card for exactly the bridges it was attached to. -/
structure BridgesSurvive (t : SnapshotLab I C H) (m : LabSnapshotMeta) : Prop where
  bridges : ∃ t₁ : SnapshotLab I C H, SnapshotLab.attachBridges LabTree.empty m.bridges = .ok t₁ ∧
    ∀ path name, Option.Rel (fun b b' : Bridge => SameObservations b.inner b'.inner)
      (t.bridgeAt path name) ((SnapshotLab.reapplyBridges t₁ m.bridges).bridgeAt path name)
  nics : List.Forall₂ (fun e k => (∀ path bridge,
    HasNic m e path bridge ↔ AttachedTo t path bridge k.1.2 k.2) ∧ ¬AttachedElsewhere k.1.2 k.2) m.vms t.entries

/-- All bridges are the lab's own and have to do with their members only; a VM's flat name is among the
members of just the bridges that it is attached to, and it is attached to none elsewhere. -/
structure RootBridges (t : SnapshotLab I C H) : Prop where
  own : ∀ path name b, t.bridgeAt path name = some b → path = [] ∧ b.inner.AmongMembers
  members : ∀ k ∈ t.entries, ∀ name b, t.bridgeAt [] name = some b →
    (flatName "" k.1 ∈ b.inner.attached ↔ AttachedTo t [] name k.1.2 k.2)
  inside : ∀ k ∈ t.entries, ¬AttachedElsewhere k.1.2 k.2

theorem nicAttachments_names (bridges : List LabSnapshotBridge) (vmName leaf name : String) :
    name ∈ (nicAttachments bridges vmName leaf).map NicAttachment.bridgeName ↔
      ∃ m ∈ bridges, m.name = name ∧ vmName ∈ m.members := by
  simp only [nicAttachments,List.mem_map,List.mem_filterMap]
  constructor
  · rintro ⟨nic,⟨m,hm,hnic⟩,rfl⟩
    split at hnic
    · next hmem =>
      cases hnic
      exact ⟨m,hm,rfl,hmem⟩
    · cases hnic
  · rintro ⟨m,hm,rfl,hmem⟩
    exact ⟨_,⟨m,hm,if_pos hmem⟩,rfl⟩

/-- Entries that are paired off already. -/
theorem forall₂_right_iff {α β : Type} {S R : α → β → Prop} {P : β → Prop} {l : List α} {l' : List β}
    (hS : List.Forall₂ S l l') (h : ∀ a b, S a b → (R a b ↔ P b)) :
    List.Forall₂ R l l' ↔ ∀ b ∈ l', P b := by
  induction hS with
  | nil => simp
  | cons hab _ ih => rw [List.forall₂_cons,ih,h _ _ hab,List.forall_mem_cons]

section Root
variable {t : SnapshotLab I C H} {m : LabSnapshotMeta}

/-- The entries of a snapshot are the lab's own bridges. -/
theorem mem_captured (hm : m.bridges = t.bridges.entries.map fun e => .capture e.1 e.2.inner)
    {b : LabSnapshotBridge} : b ∈ m.bridges ↔
      ∃ bridge, t.bridgeAt [] b.name = some bridge ∧ b = .capture b.name bridge.inner := by
  rw [hm,List.mem_map]
  constructor
  · rintro ⟨e,he,rfl⟩
    exact ⟨e.2,AList.mem_lookup_iff.mpr he,rfl⟩
  · rintro ⟨bridge,hb,heq⟩
    exact ⟨⟨b.name,bridge⟩,AList.mem_lookup_iff.mp hb,heq.symm⟩

theorem hasNic_iff (hm : m.bridges = t.bridges.entries.map fun e => .capture e.1 e.2.inner)
    {e : LabSnapshotEntry} {path : List String} {bridge : String} :
    HasNic m e path bridge ↔ path = [] ∧ ∃ b, t.bridgeAt [] bridge = some b ∧ e.vmName ∈ b.inner.attached := by
  rw [HasNic,nicAttachments_names]
  refine and_congr_right fun _ => ?_
  constructor
  · rintro ⟨b,hb,rfl,hmem⟩
    obtain ⟨br,hbr,heq⟩ := (mem_captured hm).mp hb
    rw [heq] at hmem
    exact ⟨br,hbr,hmem⟩
  · rintro ⟨br,hbr,hmem⟩
    exact ⟨.capture bridge br.inner,(mem_captured hm).mpr ⟨br,hbr,rfl⟩,rfl,hmem⟩

/-- What the bridge steps build in an empty lab: the lab's own bridges, rebuilt from their entries. -/
theorem bridgeSteps (hm : m.bridges = t.bridges.entries.map fun e => .capture e.1 e.2.inner)
    (hnames : ∀ n ∈ t.bridges, n ∉ reservedLabNames) :
    ∃ t₁ : SnapshotLab I C H, SnapshotLab.attachBridges LabTree.empty m.bridges = .ok t₁ ∧
      (∀ name, ((SnapshotLab.reapplyBridges t₁ m.bridges).bridgeAt [] name).map Bridge.inner =
        (t.bridgeAt [] name).map fun b => BridgeInner.rebuilt (.capture name b.inner)) ∧
      ∀ p ps name, (SnapshotLab.reapplyBridges t₁ m.bridges).bridgeAt (p::ps) name = none := by
  have hkeys : (m.bridges.map LabSnapshotBridge.name).Nodup := by
    rw [hm,List.map_map]
    exact t.bridges.nodupKeys
  obtain ⟨t₁,h₁⟩ := @SnapshotLab.attachBridges_of_accepted I C H LabTree.empty
    m.bridges (by
      intro b hb
      obtain ⟨br,hbr,-⟩ := (mem_captured hm).mp hb
      exact hnames b.name (AList.lookup_isSome.mp (Option.isSome_of_eq_some hbr)))
  obtain ⟨hin,hout,hbelow⟩ := SnapshotLab.attachBridges_new hkeys (fun _ _ => rfl) h₁
  obtain ⟨hin',hout',hbelow'⟩ := SnapshotLab.reapplyBridges_each hkeys hin
  refine ⟨t₁,h₁,?_,?_⟩
  · intro name
    change ((SnapshotLab.reapplyBridges t₁ m.bridges).bridges.lookup name).map Bridge.inner = _
    cases hl : t.bridgeAt [] name with
    | some b =>
      have hmem := (mem_captured hm (b := .capture name b.inner)).mpr ⟨b,hl,rfl⟩
      rw [show name = (LabSnapshotBridge.capture name b.inner).name from rfl,hin' _ hmem]
      rfl
    | none =>
      have hno : name ∉ m.bridges.map LabSnapshotBridge.name := by
        intro hmem
        obtain ⟨b,hb,rfl⟩ := List.mem_map.mp hmem
        obtain ⟨br,hbr,-⟩ := (mem_captured hm).mp hb
        rw [hl] at hbr
        cases hbr
      rw [hout' _ hno,hout _ hno]
      rfl
  · intro p ps name
    rw [bridgeAt,hbelow',hbelow]
    rfl

end Root

/-- The bridges survive exactly where all are the lab's own and name members only, and where the members'
names, read as flat names, are those of the VMs that are attached. -/
theorem bridgesSurvive_iff {t : SnapshotLab I C H} {captures : List String × String → ℕ} {dir : String}
    {answers : List String × String → SnapshotAnswers} {m : LabSnapshotMeta}
    (hsnap : labSnapshot t captures dir answers = .ok m) (hnames : ∀ n ∈ t.bridges, n ∉ reservedLabNames) :
    BridgesSurvive t m ↔ RootBridges t := by
  obtain ⟨hentries,hm⟩ := labSnapshot_ok hsnap
  obtain ⟨t₁,h₁,hroot,hbelow⟩ := bridgeSteps hm hnames
  have hcards := forall₂_right_iff (R := fun e k => (∀ path bridge,
      HasNic m e path bridge ↔ AttachedTo t path bridge k.1.2 k.2) ∧ ¬AttachedElsewhere k.1.2 k.2)
    (P := fun k => (∀ path bridge,
      (path = [] ∧ ∃ b, t.bridgeAt [] bridge = some b ∧ flatName "" k.1 ∈ b.inner.attached) ↔
        AttachedTo t path bridge k.1.2 k.2) ∧ ¬AttachedElsewhere k.1.2 k.2) hentries (by
      intro e k hname
      simp only [hasNic_iff hm,hname])
  constructor
  · intro h
    obtain ⟨t₂,h₂,hsame⟩ := h.bridges
    obtain rfl : t₁ = t₂ := Except.ok.inj (h₁.symm.trans h₂)
    constructor
    · intro path name b hb
      have hrel := hsame path name
      cases path with
      | cons p ps =>
        rw [hb,hbelow] at hrel
        cases hrel
      | nil =>
        refine ⟨rfl,?_⟩
        have heq := hroot name
        rw [hb] at hrel heq
        cases hr : (SnapshotLab.reapplyBridges t₁ m.bridges).bridgeAt [] name with
        | none =>
          rw [hr] at heq
          cases heq
        | some b' =>
          rw [hr] at hrel heq
          cases hrel with
          | some hobs =>
            rw [Option.some.inj heq] at hobs
            exact (BridgeInner.rebuilt_same_iff b.sound name).mp hobs
    · intro k hk name b hb
      have hnic := (hcards.mp h.nics k hk).1 [] name
      simpa [hb] using hnic
    · intro k hk
      exact (hcards.mp h.nics k hk).2
  · intro h
    constructor
    · refine ⟨t₁,h₁,?_⟩
      intro path name
      cases path with
      | cons p ps =>
        rw [hbelow]
        cases hb : t.bridgeAt (p::ps) name with
        | none => exact .none
        | some b => exact absurd (h.own _ _ _ hb).1 (List.cons_ne_nil p ps)
      | nil =>
        have heq := hroot name
        cases hb : t.bridgeAt [] name with
        | none =>
          rw [hb] at heq
          rw [Option.map_eq_none_iff.mp heq]
          exact .none
        | some b =>
          rw [hb] at heq
          obtain ⟨b',hb',hinner⟩ := Option.map_eq_some_iff.mp heq
          rw [hb']
          refine .some ?_
          rw [hinner]
          exact (BridgeInner.rebuilt_same_iff b.sound name).mpr (h.own _ _ _ hb).2
    · apply hcards.mpr
      intro k hk
      refine ⟨?_,h.inside k hk⟩
      intro path name
      constructor
      · rintro ⟨rfl,b,hb,hmem⟩
        exact (h.members k hk name b hb).mp hmem
      · intro hattached
        obtain ⟨b,hb,-⟩ := hattached.2
        obtain rfl := (h.own _ _ _ hb).1
        exact ⟨rfl,b,hb,(h.members k hk name b hb).mpr hattached⟩

/-- A VM that holds the bridge "net" of the root lab, or none. -/
def netVm (held : Bool) : SnapshotVm Unit Unit Unit :=
  ⟨"p",⟨.booted,some ⟨3,some (),(),none,none⟩,none⟩,0,[],[],
    if held then (∅ : Table String BridgeHandle).insert "net" (.ofLab []) else ∅⟩

/-- A lab and a sub-lab, each with a VM "x"; those that hold the lab's bridge have been attached to it. -/
def twoX (above below : Bool) : SnapshotLab Unit Unit Unit :=
  .node ((∅ : Table String (SnapshotVm Unit Unit Unit)).insert "x" (netVm above))
    ((∅ : Table String Bridge).insert "net" (Bridge.new.applyAll [.attach "x"])) ["s"]
    (List.nodup_singleton "s") fun _ => LabTree.putVm "x" (netVm below) .empty

def twoXMeta : LabSnapshotMeta :=
  ⟨[⟨"x","p","/snaps/x.snap"⟩,⟨"s/x","p","/snaps/s_x.snap"⟩],
    [.capture "net" (Bridge.new.applyAll [.attach "x"]).inner]⟩

theorem labSnapshot_twoX (above below : Bool) :
    labSnapshot (twoX above below) noCaptures "/snaps" willingAnswers = .ok twoXMeta := by
  cases above <;> cases below <;> rfl

/-- Where only the VM of the lab is attached, the names say so. -/
theorem rootBridges_twoX : RootBridges (twoX true false) := by
  have hbridge : ∀ path name b, (twoX true false).bridgeAt path name = some b →
      path = [] ∧ name = "net" ∧ b = Bridge.new.applyAll [.attach "x"] := by
    intro path name b hb
    cases path with
    | nil =>
      refine ⟨rfl,?_⟩
      change ((∅ : Table String Bridge).insert "net" _).lookup name = some b at hb
      by_cases hname : name = "net"
      · rw [hname,AList.lookup_insert] at hb
        exact ⟨hname,(Option.some.inj hb).symm⟩
      · rw [AList.lookup_insert_ne hname] at hb
        cases hb
    | cons p ps =>
      exfalso
      rw [bridgeAt,labAt] at hb
      by_cases hp : p = "s"
      · subst hp
        cases ps with
        | nil => cases hb
        | cons q qs => cases hb
      · simp [twoX,getSubLab,hp] at hb
  have hentries : ∀ k ∈ (twoX true false).entries, k = (([],"x"),netVm true) ∨ k = ((["s"],"x"),netVm false) := by
    intro k hk
    rw [show (twoX true false).entries = [(([],"x"),netVm true),((["s"],"x"),netVm false)] from rfl] at hk
    exact List.mem_pair.mp hk
  constructor
  · intro path name b hb
    obtain ⟨hpath,-,rfl⟩ := hbridge path name b hb
    refine ⟨hpath,?_,?_⟩
    · intro vm hvm
      cases hvm
    · intro _ k hk
      cases hk
  · intro k hk name b hb
    obtain ⟨-,rfl,rfl⟩ := hbridge [] name b hb
    obtain rfl | rfl := hentries k hk
    · exact iff_of_true (by decide) ⟨rfl,_,rfl,by decide⟩
    · refine iff_of_false (by decide) ?_
      rintro ⟨hheld,-⟩
      cases hheld
  · rintro k hk ⟨bridge,b,hheld,-⟩
    obtain rfl | rfl := hentries k hk
    · by_cases hname : bridge = "net"
      · rw [hname] at hheld
        cases hheld
      · rw [netVm,if_pos rfl,AList.lookup_insert_ne hname] at hheld
        cases hheld
    · cases hheld

theorem bridgesSurvive_iff_twoX : RootBridges (twoX true false) ∧ BridgesSurvive (twoX true false) twoXMeta :=
  ⟨rootBridges_twoX,(bridgesSurvive_iff (labSnapshot_twoX true false) (by decide)).mpr rootBridges_twoX⟩

/-- The VM of the sub-lab is restored without a card where it was attached, and the one of the lab with a
card that it did not have. -/
theorem twoX_loses_card :
    labSnapshot (twoX false true) noCaptures "/snaps" willingAnswers = .ok twoXMeta ∧
      AttachedTo (twoX false true) [] "net" "x" (netVm true) ∧
      nicAttachments twoXMeta.bridges "s/x" "x" = [] ∧
      nicAttachments twoXMeta.bridges "x" "x" = [⟨"net","x-net"⟩] ∧
      ¬BridgesSurvive (twoX false true) twoXMeta := by
  have hattached : AttachedTo (twoX false true) [] "net" "x" (netVm true) :=
    ⟨rfl,Bridge.new.applyAll [.attach "x"],rfl,by decide⟩
  have hnone : nicAttachments twoXMeta.bridges "s/x" "x" = [] := by decide
  refine ⟨labSnapshot_twoX false true,hattached,hnone,by decide,?_⟩
  intro h
  have hnics := h.nics
  rw [show (twoX false true).entries = [(([],"x"),netVm false),((["s"],"x"),netVm true)] from rfl] at hnics
  cases hnics with
  | cons _ hnics =>
    cases hnics with
    | cons hnic _ =>
      obtain ⟨-,hmem⟩ := (hnic.1 [] "net").mpr hattached
      rw [show splitSubLabPath "s/x" = (["s"],"x") by decide,hnone] at hmem
      cases hmem

end Provium.Lab
