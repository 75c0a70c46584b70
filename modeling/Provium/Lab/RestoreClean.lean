import Provium.Lab.RestoreCall

/-! What a failed `lab_restore` leaves behind: the sub-labs and the bridges that its caller has made on
the way, and the VMs of the threads that succeed. -/
namespace Provium.Lab
open Lib Provium.Host LabTree
variable {I C H : Type}

/-! ## What the caller makes -/

/-- A bridge of the snapshot in the lab it is restored to. -/
def joinBridge (bridges : String → Option Bridge) (b : LabSnapshotBridge) : String → Option Bridge :=
  Function.update bridges b.name (some (((bridges b.name).getD .new).applyAll b.attachOps))

/-- The bridge is there and has all the members. -/
def Joined (bridges : String → Option Bridge) (b : LabSnapshotBridge) : Prop :=
  ∃ bridge, bridges b.name = some bridge ∧ ∀ vm ∈ b.members, vm ∈ bridge.inner.attached

namespace BridgeInner

theorem attached_attach (b : BridgeInner) (members : List String) (vm : String) :
    vm ∈ (b.applyAll (members.map .attach)).attached ↔ vm ∈ members ∨ vm ∈ b.attached := by
  induction members generalizing b with
  | nil => simp [applyAll]
  | cons x members ih =>
    refine (ih (b.apply (.attach x))).trans ?_
    simp only [apply,List.mem_insert_iff,List.mem_cons]
    tauto

/-- Members are not attached twice. -/
theorem attach_of_attached {b : BridgeInner} {members : List String} (h : ∀ vm ∈ members, vm ∈ b.attached) :
    b.applyAll (members.map .attach) = b := by
  induction members with
  | nil => rfl
  | cons x members ih =>
    have hx : b.apply (.attach x) = b := by
      simp [apply,List.insert_of_mem (h x List.mem_cons_self)]
    rw [List.map_cons,applyAll,List.foldl_cons,hx]
    exact ih fun vm hvm => h vm (List.mem_cons_of_mem x hvm)

end BridgeInner

theorem joinBridge_of_joined {bridges : String → Option Bridge} {b : LabSnapshotBridge}
    (h : Joined bridges b) : joinBridge bridges b = bridges := by
  obtain ⟨bridge,hbridge,hmembers⟩ := h
  have hsame : bridge.applyAll b.attachOps = bridge := by
    obtain ⟨inner,made⟩ := bridge
    simp only [Bridge.applyAll,Bridge.mk.injEq]
    exact BridgeInner.attach_of_attached hmembers
  rw [joinBridge,hbridge,Option.getD_some,hsame,← hbridge]
  exact Function.update_eq_self b.name bridges

theorem joined_joinBridge (bridges : String → Option Bridge) (b : LabSnapshotBridge) :
    Joined (joinBridge bridges b) b := by
  refine ⟨_,Function.update_self ..,?_⟩
  intro vm hvm
  exact (BridgeInner.attached_attach _ b.members vm).mpr (.inl hvm)

/-- Nobody leaves a bridge. -/
theorem Joined.joinBridge {bridges : String → Option Bridge} {b : LabSnapshotBridge} (h : Joined bridges b)
    (c : LabSnapshotBridge) : Joined (joinBridge bridges c) b := by
  obtain ⟨bridge,hbridge,hmembers⟩ := h
  by_cases hname : b.name = c.name
  · refine ⟨bridge.applyAll c.attachOps,?_,?_⟩
    · rw [Lab.joinBridge,hname,Function.update_self,← hname,hbridge,Option.getD_some]
    · intro vm hvm
      exact (BridgeInner.attached_attach _ c.members vm).mpr (.inr (hmembers vm hvm))
  · refine ⟨bridge,?_,hmembers⟩
    rw [Lab.joinBridge,Function.update_of_ne hname,hbridge]

theorem joined_foldl {bridges : String → Option Bridge} {done : List LabSnapshotBridge} {b : LabSnapshotBridge}
    (h : b ∈ done ∨ Joined bridges b) : Joined (done.foldl joinBridge bridges) b := by
  induction done generalizing bridges with
  | nil =>
    obtain h | h := h
    · cases h
    · exact h
  | cons c done ih =>
    rw [List.foldl_cons]
    apply ih
    obtain h | h := h
    · obtain rfl | h := List.mem_cons.mp h
      · exact .inr (joined_joinBridge bridges b)
      · exact .inl h
    · exact .inr (h.joinBridge c)

/-- Nothing changes if and only if all was there. -/
theorem foldl_joinBridge_eq_iff (bridges : String → Option Bridge) (done : List LabSnapshotBridge) :
    done.foldl joinBridge bridges = bridges ↔ ∀ b ∈ done, Joined bridges b := by
  constructor
  · intro h b hb
    have hjoined : Joined (done.foldl joinBridge bridges) b := joined_foldl (.inl hb)
    rw [h] at hjoined
    exact hjoined
  · intro h
    induction done with
    | nil => rfl
    | cons b done ih =>
      rw [List.foldl_cons,joinBridge_of_joined (h b List.mem_cons_self)]
      exact ih fun c hc => h c (List.mem_cons_of_mem b hc)

/-- The caller has walked to these labs and has joined these bridges. -/
structure Made (t lab : SnapshotLab I C H) (walked : List (List String)) (joined : List LabSnapshotBridge) :
    Prop where
  labs : lab.contents.labs = t.contents.labs ∪ {q | ∃ path ∈ walked, q <+: path}
  bridges : ∀ q name, lab.bridgeAt q name =
    if q = [] then joined.foldl joinBridge (t.bridgeAt []) name else t.bridgeAt q name

/-- All that the caller has made was there before. -/
def Untouched (t : SnapshotLab I C H) (walked : List (List String)) (joined : List LabSnapshotBridge) : Prop :=
  (∀ path ∈ walked, (t.labAt path).isSome) ∧ ∀ b ∈ joined, Joined (t.bridgeAt []) b

section Made
variable {t lab : SnapshotLab I C H} {walked : List (List String)} {joined : List LabSnapshotBridge}

theorem Made.start (t : SnapshotLab I C H) : Made t t [] [] := by
  refine ⟨by simp,?_⟩
  intro q name
  split
  · next hq => rw [hq,List.foldl_nil]
  · rfl

theorem Made.walk (h : Made t lab walked joined) (path : List String) :
    Made t (lab.descendOrCreate path) (walked++[path]) joined := by
  have hcontents := contents_descendOrCreate lab path
  refine ⟨?_,?_⟩
  · rw [hcontents,Contents.withLabs,h.labs]
    ext q
    simp [or_and_right,exists_or,or_assoc]
  · intro q name
    rw [← h.bridges q name]
    exact congrFun (congrFun (congrArg Contents.bridges hcontents) q) name

/-- A second walk to the same place makes nothing. -/
theorem Made.walk_again (h : Made t lab walked joined) {path : List String} (hpath : path ∈ walked) :
    (lab.contents.withLabs path) = lab.contents := by
  apply Contents.withLabs_of_mem
  intro q hq
  rw [h.labs]
  exact .inr ⟨path,hpath,hq⟩

/-- What has the labs and the bridges of a lab that was made is made. -/
theorem Made.of_contents (h : Made t lab walked joined) {lab' : SnapshotLab I C H}
    (hlabs : lab'.contents.labs = lab.contents.labs) (hbridges : lab'.contents.bridges = lab.contents.bridges) :
    Made t lab' walked joined := by
  refine ⟨hlabs.trans h.labs,?_⟩
  intro q name
  rw [← h.bridges q name]
  exact congrFun (congrFun hbridges q) name

/-- A bridge with a reserved name is accepted where it is there. -/
def Accepted (t : SnapshotLab I C H) (b : LabSnapshotBridge) : Prop :=
  (t.bridgeAt [] b.name).isSome ∨ b.name ∉ reservedLabNames

theorem bridgeAt_nil (lab : SnapshotLab I C H) (name : String) :
    lab.bridgeAt [] name = lab.bridges.lookup name := rfl

theorem attachBridge_cases (lab : SnapshotLab I C H) (b : LabSnapshotBridge) :
    (∃ e, SnapshotLab.attachBridge lab b = .error e ∧ ¬Accepted lab b) ∨
      Accepted lab b ∧ SnapshotLab.attachBridge lab b =
        .ok (lab.putBridge b.name (((lab.bridgeAt [] b.name).getD .new).applyAll b.attachOps)) := by
  unfold SnapshotLab.attachBridge Accepted
  rw [bridgeAt_nil]
  cases lab.bridges.lookup b.name with
  | some bridge => exact .inr ⟨.inl rfl,rfl⟩
  | none =>
    by_cases hname : b.name ∈ reservedLabNames
    · refine .inl ⟨_,by simp only [checkReservedName,if_pos hname]; rfl,?_⟩
      rintro (h | h)
      · cases h
      · exact h hname
    · refine .inr ⟨.inr hname,?_⟩
      simp only [checkReservedName,if_neg hname]
      rfl

theorem Made.join (h : Made t lab walked joined) (b : LabSnapshotBridge) :
    Made t (lab.putBridge b.name (((lab.bridgeAt [] b.name).getD .new).applyAll b.attachOps)) walked
      (joined++[b]) := by
  have hroot : lab.bridgeAt [] b.name = joined.foldl joinBridge (t.bridgeAt []) b.name := by
    rw [h.bridges,if_pos rfl]
  refine ⟨?_,?_⟩
  · rw [contents_putBridge]
    exact h.labs
  · intro q name
    refine (congrFun (congrFun (congrArg Contents.bridges (contents_putBridge lab b.name _)) q) name).trans ?_
    change (if q = [] ∧ name = b.name then _ else lab.bridgeAt q name) = _
    rw [hroot,h.bridges q,List.foldl_append,List.foldl_cons,List.foldl_nil,joinBridge]
    by_cases hq : q = []
    · simp [hq,Function.update_apply]
    · simp [hq]

theorem foldl_joinBridge_isSome (bridges : String → Option Bridge) (joined : List LabSnapshotBridge)
    (name : String) : (joined.foldl joinBridge bridges name).isSome ↔
      (bridges name).isSome ∨ ∃ b ∈ joined, b.name = name := by
  induction joined generalizing bridges with
  | nil => simp
  | cons b joined ih =>
    rw [List.foldl_cons,ih,joinBridge]
    by_cases hname : name = b.name
    · subst hname
      simp
    · simp [Function.update_of_ne hname,Ne.symm hname]

/-- No bridge gets a reserved name. -/
theorem Made.accepted_iff (h : Made t lab walked joined) (haccepted : ∀ b ∈ joined, Accepted t b)
    (b : LabSnapshotBridge) : Accepted lab b ↔ Accepted t b := by
  unfold Accepted
  rw [h.bridges,if_pos rfl,foldl_joinBridge_isSome]
  constructor
  · rintro ((hthere | ⟨c,hc,hname⟩) | hname)
    · exact .inl hthere
    · rw [← hname]
      exact haccepted c hc
    · exact .inr hname
  · rintro (hthere | hname)
    · exact .inl (.inl hthere)
    · exact .inr hname

/-- Where the VMs are the same, nothing has changed if and only if all was there before. -/
theorem Made.contents_iff (h : Made t lab walked joined) (hvms : lab.contents.vms = t.contents.vms) :
    lab.contents = t.contents ↔ Untouched t walked joined := by
  have hlabs : lab.contents.labs = t.contents.labs ↔ ∀ path ∈ walked, (t.labAt path).isSome := by
    rw [h.labs,Set.union_eq_left]
    constructor
    · intro hsub path hpath
      exact hsub ⟨path,hpath,List.prefix_refl path⟩
    · rintro hthere q ⟨path,hpath,hq⟩
      exact labAt_isSome_of_prefix hq (hthere path hpath)
  have hbridges : lab.contents.bridges = t.contents.bridges ↔ ∀ b ∈ joined, Joined (t.bridgeAt []) b := by
    rw [← foldl_joinBridge_eq_iff]
    constructor
    · intro heq
      funext name
      have hname := h.bridges [] name
      rw [if_pos rfl] at hname
      rw [← hname]
      exact congrFun (congrFun heq []) name
    · intro heq
      funext q name
      refine (h.bridges q name).trans ?_
      split
      · next hq => rw [hq,heq]; rfl
      · rfl
  rw [Contents.ext_iff,Untouched,← hlabs,← hbridges]
  simp [hvms]

end Made

/-! ## The threads -/

/-- The thread of an entry puts a VM into the lab, if there is room. -/
def Succeeds (host : RestoreHost I C) (e : LabSnapshotEntry) : Prop :=
  host.known e.profile ∧ ∃ r, host.restore e = .ok r

theorem restoreVm_cases (host : RestoreHost I C) (bridges : List LabSnapshotBridge) (e : LabSnapshotEntry) :
    (∃ err, (restoreVm host bridges e : Except SnapshotError (SnapshotVm I C H)) = .error err ∧
        ¬Succeeds host e) ∨
      ∃ vm : SnapshotVm I C H, restoreVm host bridges e = .ok vm ∧ Succeeds host e ∧ vm.inner.state = .booted := by
  unfold restoreVm Succeeds
  by_cases hknown : host.known e.profile
  · rw [if_pos hknown]
    cases hanswer : host.restore e with
    | error err => exact .inl ⟨_,rfl,by simp⟩
    | ok r => exact .inr ⟨_,rfl,⟨hknown,r,rfl⟩,rfl⟩
  · rw [if_neg hknown]
    exact .inl ⟨_,rfl,fun h => hknown h.1⟩

/-- The thread of this entry has put its VM into the lab. -/
def RestoredBy (m : LabSnapshotMeta) (threads : List (RestoreThread I C H)) (i : ℕ) (e : LabSnapshotEntry) :
    Prop := m.vms[i]? = some e ∧ threads[i]? = some (.over (.ok ()))

section Threads
variable (links : Links) (hosts : ℕ → RestoreHost I C) (m : LabSnapshotMeta) (lab : SnapshotLab I C H)
  (threads : List (RestoreThread I C H))

/-- How the thread of an entry stands. -/
def RestoreThread.Sound (i : ℕ) (e : LabSnapshotEntry) : RestoreThread I C H → Prop
  | .spawned => True
  | .launched vm => Succeeds (hosts i) e ∧ vm.inner.state = .booted
  | .over (.ok ()) =>
    Succeeds (hosts i) e ∧ ∃ vm, lab.vmAt (e.placeIn links).1 (e.placeIn links).2 = some vm ∧
      vm.inner.state = .booted
  | .over (.error _) => ¬Succeeds (hosts i) e ∨ ∃ j e', j ≠ i ∧ RestoredBy m threads j e' ∧
      e'.placeIn links = e.placeIn links

/-- The lab with the threads at work on it, once the caller has made all that it makes. -/
structure Working (t : SnapshotLab I C H) : Prop where
  made : Made t lab (m.vms.map fun e => (e.placeIn links).1) m.bridges
  absent : ∀ e ∈ m.vms, t.vmAt (e.placeIn links).1 (e.placeIn links).2 = none
  kept : ∀ q name, (∀ i e, RestoredBy m threads i e → e.placeIn links ≠ (q,name)) → lab.vmAt q name = t.vmAt q name
  sound : ∀ (i : ℕ) (e : LabSnapshotEntry) (thread : RestoreThread I C H), m.vms[i]? = some e →
    threads[i]? = some thread → thread.Sound links hosts m lab threads i e
  apart : ∀ i j e e', RestoredBy m threads i e → RestoredBy m threads j e' →
    e.placeIn links = e'.placeIn links → i = j
  length : threads.length ≤ m.vms.length

variable {links hosts m lab threads} {t : SnapshotLab I C H} {s s' : RestoreCall I C H} {i : ℕ}
  {e : LabSnapshotEntry}

/-- What a thread can do. -/
theorem thread_cases (hs : s.thread links hosts m i = some s') : ∃ e, m.vms[i]? = some e ∧
    ((s.threads[i]? = some .spawned ∧ ∃ thread : RestoreThread I C H,
      s' = { s with threads := s.threads.set i thread } ∧
        ((∃ err, thread = .over (.error err) ∧ ¬Succeeds (hosts i) e) ∨
          ∃ vm, thread = .launched vm ∧ Succeeds (hosts i) e ∧ vm.inner.state = .booted)) ∨
      ∃ vm, s.threads[i]? = some (.launched vm) ∧
        (((s.lab.vmAt (e.placeIn links).1 (e.placeIn links).2).isSome ∧
            ∃ err, s' = { s with threads := s.threads.set i (.over (.error err)) }) ∨
          s.lab.vmAt (e.placeIn links).1 (e.placeIn links).2 = none ∧ s' = { s with
            lab := s.lab.atPath (putVm (e.placeIn links).2 vm) (e.placeIn links).1
            threads := s.threads.set i (.over (.ok ())) })) := by
  unfold RestoreCall.thread at hs
  split at hs
  · next e hthread he =>
    refine ⟨e,he,.inl ⟨hthread,?_⟩⟩
    obtain ⟨err,hrestore,hfails⟩ | ⟨vm,hrestore,hsucceeds,hbooted⟩ :=
      restoreVm_cases (H := H) (hosts i) m.bridges e
    · rw [hrestore] at hs
      cases hs
      exact ⟨_,rfl,.inl ⟨err,rfl,hfails⟩⟩
    · rw [hrestore] at hs
      cases hs
      exact ⟨_,rfl,.inr ⟨vm,rfl,hsucceeds,hbooted⟩⟩
  · next vm e hthread he =>
    refine ⟨e,he,.inr ⟨vm,hthread,?_⟩⟩
    split_ifs at hs with hthere
    · cases hs
      exact .inl ⟨hthere,_,rfl⟩
    · cases hs
      exact .inr ⟨Option.not_isSome_iff_eq_none.mp hthere,rfl⟩
  · cases hs

/-- Only a thread that is not over goes on. -/
theorem thread_pending (hs : s.thread links hosts m i = some s') :
    ∃ old, s.threads[i]? = some old ∧ ∀ outcome, old ≠ .over outcome := by
  obtain ⟨e,he,⟨hthread,-⟩ | ⟨vm,hthread,-⟩⟩ := thread_cases hs
  · exact ⟨_,hthread,by simp⟩
  · exact ⟨_,hthread,by simp⟩

theorem restoredBy_set {new : RestoreThread I C H} (hold : threads[i]? ≠ some (.over (.ok ())))
    (hnew : new ≠ .over (.ok ())) (j : ℕ) (e : LabSnapshotEntry) :
    RestoredBy m (threads.set i new) j e ↔ RestoredBy m threads j e := by
  unfold RestoredBy
  refine and_congr_right fun _ => ?_
  by_cases hj : i = j
  · subst hj
    rw [List.getElem?_set_self']
    refine iff_of_false ?_ hold
    intro h
    obtain ⟨_,-,h⟩ := Option.map_eq_some_iff.mp h
    exact hnew h
  · rw [List.getElem?_set_ne hj]

theorem restoredBy_insert (hi : i < threads.length) (he : m.vms[i]? = some e) (j : ℕ) (e' : LabSnapshotEntry) :
    RestoredBy m (threads.set i (.over (.ok ()))) j e' ↔ RestoredBy m threads j e' ∨ j = i ∧ e' = e := by
  unfold RestoredBy
  by_cases hj : i = j
  · subst hj
    rw [List.getElem?_set_self hi]
    simp only [and_true,true_and,he,Option.some.injEq]
    constructor
    · intro h
      exact .inr h.symm
    · rintro (h | h)
      · exact h.1
      · exact h.symm
  · rw [List.getElem?_set_ne hj]
    simp [Ne.symm hj]

/-- A thread that puts no VM into the lab. -/
theorem Working.set (h : Working links hosts m lab threads t) (he : m.vms[i]? = some e)
    (hold : threads[i]? ≠ some (.over (.ok ()))) {new : RestoreThread I C H} (hnew : new ≠ .over (.ok ()))
    (hsound : new.Sound links hosts m lab threads i e) : Working links hosts m lab (threads.set i new) t := by
  have hiff := restoredBy_set (m := m) hold hnew
  refine ⟨h.made,h.absent,?_,?_,?_,?_⟩
  · intro q name hfree
    exact h.kept q name fun j e' hj => hfree j e' ((hiff j e').mpr hj)
  · intro j e' thread he' hthread
    have hsame : thread.Sound links hosts m lab threads j e' := by
      obtain ⟨rfl,rfl⟩ | ⟨-,hthread⟩ := getElem?_set_some hthread
      · rw [he] at he'
        cases he'
        exact hsound
      · exact h.sound j e' thread he' hthread
    unfold RestoreThread.Sound at hsame ⊢
    simp only [hiff]
    exact hsame
  · intro j k e' e'' hj hk
    exact h.apart j k e' e'' ((hiff j e').mp hj) ((hiff k e'').mp hk)
  · rw [List.length_set]
    exact h.length

/-- A place that is taken was taken by a thread. -/
theorem Working.taken (h : Working links hosts m lab threads t) (he : e ∈ m.vms)
    (hthere : (lab.vmAt (e.placeIn links).1 (e.placeIn links).2).isSome) :
    ∃ j e', RestoredBy m threads j e' ∧ e'.placeIn links = e.placeIn links := by
  by_contra hnone
  push Not at hnone
  rw [h.kept (e.placeIn links).1 (e.placeIn links).2 hnone,h.absent e he] at hthere
  cases hthere

/-- The VM of a thread that has succeeded is in its place. -/
theorem Working.restored (h : Working links hosts m lab threads t) (hi : RestoredBy m threads i e) :
    Succeeds (hosts i) e ∧ ∃ vm, lab.vmAt (e.placeIn links).1 (e.placeIn links).2 = some vm ∧
      vm.inner.state = .booted :=
  h.sound i e _ hi.1 hi.2

/-- A VM is put into a free place. -/
theorem Working.insert (h : Working links hosts m lab threads t) (he : m.vms[i]? = some e) {vm : SnapshotVm I C H}
    (hthread : threads[i]? = some (.launched vm))
    (hfree : lab.vmAt (e.placeIn links).1 (e.placeIn links).2 = none) :
    Working links hosts m (lab.atPath (putVm (e.placeIn links).2 vm) (e.placeIn links).1)
      (threads.set i (.over (.ok ()))) t := by
  have hi : i < threads.length := (List.getElem?_eq_some_iff.mp hthread).1
  have hiff := restoredBy_insert (m := m) hi he
  obtain ⟨hsucceeds,hbooted⟩ := h.sound i e _ he hthread
  have hpath : (e.placeIn links).1 ∈ m.vms.map fun e => (e.placeIn links).1 :=
    List.mem_map_of_mem (List.mem_of_getElem? he)
  have hcontents : (lab.atPath (putVm (e.placeIn links).2 vm) (e.placeIn links).1).contents =
      lab.contents.withVm (e.placeIn links).1 (e.placeIn links).2 vm := by
    rw [contents_putVm,h.made.walk_again hpath]
  have hat : ∀ q name, (lab.atPath (putVm (e.placeIn links).2 vm) (e.placeIn links).1).vmAt q name =
      if q = (e.placeIn links).1 ∧ name = (e.placeIn links).2 then some vm else lab.vmAt q name := fun q name =>
    vmAt_putVm_atPath lab (e.placeIn links).1 q (e.placeIn links).2 name vm
  -- the other threads have theirs in other places
  have hother : ∀ j e', RestoredBy m threads j e' → e'.placeIn links ≠ e.placeIn links := by
    intro j e' hj heq
    obtain ⟨-,vm',hvm',-⟩ := h.restored hj
    rw [heq,hfree] at hvm'
    cases hvm'
  have hkeep : ∀ j e', RestoredBy m threads j e' →
      (lab.atPath (putVm (e.placeIn links).2 vm) (e.placeIn links).1).vmAt (e'.placeIn links).1
        (e'.placeIn links).2 =
        lab.vmAt (e'.placeIn links).1 (e'.placeIn links).2 := by
    intro j e' hj
    rw [hat,if_neg]
    rintro ⟨hq,hname⟩
    exact hother j e' hj (Prod.ext hq hname)
  refine ⟨?_,h.absent,?_,?_,?_,?_⟩
  · apply h.made.of_contents
    · rw [hcontents]
      rfl
    · rw [hcontents]
      rfl
  · intro q name hnone
    rw [hat,if_neg]
    · exact h.kept q name fun j e' hj => hnone j e' ((hiff j e').mpr (.inl hj))
    · rintro ⟨rfl,rfl⟩
      exact hnone i e ((hiff i e).mpr (.inr ⟨rfl,rfl⟩)) rfl
  · intro j e' thread he' hthread'
    obtain ⟨rfl,rfl⟩ | ⟨hj,hthread'⟩ := getElem?_set_some hthread'
    · rw [he] at he'
      cases he'
      exact ⟨hsucceeds,vm,by rw [hat,if_pos ⟨rfl,rfl⟩],hbooted⟩
    · have hsame := h.sound j e' thread he' hthread'
      match thread,hthread',hsame with
      | .spawned,_,_ => trivial
      | .launched vm',_,hsame => exact hsame
      | .over (.ok ()),hthread',hsame =>
        obtain ⟨hsucceeds',vm',hvm',hbooted'⟩ := hsame
        exact ⟨hsucceeds',vm',by rw [hkeep j e' ⟨he',hthread'⟩]; exact hvm',hbooted'⟩
      | .over (.error err),_,hsame =>
        refine hsame.imp_right ?_
        rintro ⟨k,e'',hk,hrestored,hplace⟩
        exact ⟨k,e'',hk,(hiff k e'').mpr (.inl hrestored),hplace⟩
  · intro j k e' e'' hj hk heq
    obtain hold | ⟨rfl,rfl⟩ := (hiff j e').mp hj
    · obtain hold' | ⟨rfl,rfl⟩ := (hiff k e'').mp hk
      · exact h.apart j k e' e'' hold hold' heq
      · exact absurd heq (hother j e' hold)
    · obtain hold' | ⟨rfl,-⟩ := (hiff k e'').mp hk
      · exact absurd heq.symm (hother k e'' hold')
      · rfl
  · rw [List.length_set]
    exact h.length

theorem Working.thread (h : Working links hosts m s.lab s.threads t) (hs : s.thread links hosts m i = some s') :
    Working links hosts m s'.lab s'.threads t := by
  obtain ⟨old,hold,hpending⟩ := thread_pending hs
  have hnot : s.threads[i]? ≠ some (.over (.ok ())) := by
    rw [hold]
    exact fun heq => hpending _ (Option.some.inj heq)
  obtain ⟨e,he,⟨-,new,rfl,hnew⟩ | ⟨vm,hthread,⟨hthere,err,rfl⟩ | ⟨hfree,rfl⟩⟩⟩ := thread_cases hs
  · obtain ⟨err,rfl,hfails⟩ | ⟨vm,rfl,hsucceeds,hbooted⟩ := hnew
    · exact h.set he hnot (by simp) (.inl hfails)
    · exact h.set he hnot (by simp) ⟨hsucceeds,hbooted⟩
  · obtain ⟨j,e',hj,hplace⟩ := h.taken (List.mem_of_getElem? he) hthere
    refine h.set he hnot (by simp) (.inr ⟨j,e',?_,hj,hplace⟩)
    rintro rfl
    exact hnot hj.2
  · exact h.insert he hthread hfree

/-- The caller and the threads that are over are left alone. -/
theorem thread_keeps (hs : s.thread links hosts m i = some s') : s'.phase = s.phase ∧
    s'.threads.length = s.threads.length ∧ ∀ (k : ℕ) (outcome : Except SnapshotError Unit),
      s.threads[k]? = some (.over outcome) → s'.threads[k]? = some (.over outcome) := by
  obtain ⟨old,hold,hpending⟩ := thread_pending hs
  have hset : ∀ (new : RestoreThread I C H) (k : ℕ) (outcome : Except SnapshotError Unit),
      s.threads[k]? = some (.over outcome) → (s.threads.set i new)[k]? = some (.over outcome) := by
    intro new k outcome hk
    rw [List.getElem?_set_ne]
    · exact hk
    · rintro rfl
      rw [hold] at hk
      exact hpending outcome (Option.some.inj hk)
  obtain ⟨e,he,⟨-,new,rfl,-⟩ | ⟨vm,-,⟨-,err,rfl⟩ | ⟨-,rfl⟩⟩⟩ := thread_cases hs
  · exact ⟨rfl,List.length_set,hset _⟩
  · exact ⟨rfl,List.length_set,hset _⟩
  · exact ⟨rfl,List.length_set,hset _⟩

theorem restoredBy_spawn (j : ℕ) (e : LabSnapshotEntry) :
    RestoredBy m (threads++[.spawned]) j e ↔ RestoredBy m threads j e := by
  unfold RestoredBy
  refine and_congr_right fun _ => ?_
  constructor
  · intro h
    obtain hold | ⟨-,hnew⟩ := getElem?_snoc h
    · exact hold
    · cases hnew
  · intro h
    exact getElem?_append_of h _

/-- The caller starts the next thread. -/
theorem Working.spawn (h : Working links hosts m lab threads t) (he : m.vms[threads.length]? = some e) :
    Working links hosts m (lab.descendOrCreate (e.placeIn links).1) (threads++[.spawned]) t := by
  have hpath : (e.placeIn links).1 ∈ m.vms.map fun e => (e.placeIn links).1 :=
    List.mem_map_of_mem (List.mem_of_getElem? he)
  have hcontents : (lab.descendOrCreate (e.placeIn links).1).contents = lab.contents := by
    rw [contents_descendOrCreate,h.made.walk_again hpath]
  have hat : ∀ q name, (lab.descendOrCreate (e.placeIn links).1).vmAt q name = lab.vmAt q name :=
    vmAt_descendOrCreate lab (e.placeIn links).1
  have hiff : ∀ j e, RestoredBy m (threads++[.spawned]) j e ↔ RestoredBy m threads j e := restoredBy_spawn
  refine ⟨?_,h.absent,?_,?_,?_,?_⟩
  · exact h.made.of_contents (congrArg Contents.labs hcontents) (congrArg Contents.bridges hcontents)
  · intro q name hfree
    rw [hat]
    exact h.kept q name fun j e' hj => hfree j e' ((hiff j e').mpr hj)
  · intro j e' thread he' hthread
    have hsame : thread.Sound links hosts m lab threads j e' := by
      obtain hold | ⟨-,rfl⟩ := getElem?_snoc hthread
      · exact h.sound j e' thread he' hold
      · trivial
    unfold RestoreThread.Sound at hsame ⊢
    simp only [hiff,hat]
    exact hsame
  · intro j k e' e'' hj hk
    exact h.apart j k e' e'' ((hiff j e').mp hj) ((hiff k e'').mp hk)
  · rw [List.length_append,List.length_singleton]
    exact (List.getElem?_eq_some_iff.mp he).1

end Threads

/-! ## The run -/

section Run
variable (links : Links) (hosts : ℕ → RestoreHost I C) (t : SnapshotLab I C H) (m : LabSnapshotMeta)

instance (t : SnapshotLab I C H) (b : LabSnapshotBridge) : Decidable (Accepted t b) :=
  inferInstanceAs (Decidable (_ ∨ _))

/-- No VM is there yet, and no bridge is refused for its name. -/
def Enters : Prop :=
  (∀ e ∈ m.vms, t.vmAt (e.placeIn links).1 (e.placeIn links).2 = none) ∧ ∀ b ∈ m.bridges, Accepted t b

/-- The labs that the caller walks to before it meets a VM that is there. -/
def walkedTo : List (List String) :=
  (m.vms.takeWhile fun e => (t.vmAt (e.placeIn links).1 (e.placeIn links).2).isNone).map
    fun e => (e.placeIn links).1

/-- The bridges that it joins before one is refused. -/
def joinedTo : List LabSnapshotBridge :=
  if m.vms.all fun e => (t.vmAt (e.placeIn links).1 (e.placeIn links).2).isNone then
    m.bridges.takeWhile fun b => Accepted t b
  else []

/-- How a restore stands that has returned an error. -/
inductive RestoreCall.Failed (s : RestoreCall I C H) : Prop
  /-- The caller was refused. -/
  | refused (enters : ¬Enters links t m) (threads : s.threads = [])
      (contents : s.lab.contents = t.contents ↔ Untouched t (walkedTo links t m) (joinedTo links t m))
  /-- A thread has failed. -/
  | failed (enters : Enters links t m) (working : Working links hosts m s.lab s.threads t)
      (length : s.threads.length = m.vms.length)
      (thread : ∃ (i : ℕ) (err : SnapshotError), s.threads[i]? = some (.over (.error err)))
  /-- All VMs were restored, and one is not resumed. -/
  | notResumed (enters : Enters links t m) (vms : m.vms ≠ []) (length : s.threads.length = m.vms.length)
      (threads : ∀ i < m.vms.length, s.threads[i]? = some (.over (.ok ())))
      (succeed : ∀ i e, m.vms[i]? = some e → Succeeds (hosts i) e)
      (places : (m.vms.map (LabSnapshotEntry.placeIn links)).Nodup)

/-- How a restore stands between its steps. -/
def RestoreCall.Inv (s : RestoreCall I C H) : Prop :=
  match s.phase with
  | .checking left => s.threads = [] ∧ s.lab.contents.vms = t.contents.vms ∧ ∃ done, m.vms = done++left ∧
      (∀ e ∈ done, t.vmAt (e.placeIn links).1 (e.placeIn links).2 = none) ∧
      Made t s.lab (done.map fun e => (e.placeIn links).1) []
  | .bridging left => s.threads = [] ∧ s.lab.contents.vms = t.contents.vms ∧
      (∀ e ∈ m.vms, t.vmAt (e.placeIn links).1 (e.placeIn links).2 = none) ∧ ∃ done, m.bridges = done++left ∧
      (∀ b ∈ done, Accepted t b) ∧ Made t s.lab (m.vms.map fun e => (e.placeIn links).1) done
  | .spawning left => Enters links t m ∧ Working links hosts m s.lab s.threads t ∧
      left = m.vms.drop s.threads.length
  | .joining i => Enters links t m ∧ Working links hosts m s.lab s.threads t ∧ s.threads.length = m.vms.length ∧
      ∀ k < i, s.threads[k]? = some (.over (.ok ()))
  | .returned (.ok ()) => True
  | .returned (.error _) => s.Failed links hosts t m

variable {links hosts t m} {s s' : RestoreCall I C H}

theorem inv_start : (RestoreCall.start m t).Inv links hosts t m := by
  refine ⟨rfl,rfl,[],rfl,?_,Made.start t⟩
  simp

/-- The pre-flight meets a VM that is there. -/
theorem refused_duplicate {lab : SnapshotLab I C H} {done left : List LabSnapshotEntry} {e : LabSnapshotEntry}
    (hvms : lab.contents.vms = t.contents.vms) (hm : m.vms = done++e::left)
    (habsent : ∀ e ∈ done, t.vmAt (e.placeIn links).1 (e.placeIn links).2 = none)
    (hmade : Made t lab (done.map (fun e => (e.placeIn links).1)++[(e.placeIn links).1]) [])
    (hthere : (t.vmAt (e.placeIn links).1 (e.placeIn links).2).isSome) (err : SnapshotError) :
    (⟨lab,[],.returned (.error err)⟩ : RestoreCall I C H).Failed links hosts t m := by
  have hne : t.vmAt (e.placeIn links).1 (e.placeIn links).2 ≠ none := Option.isSome_iff_ne_none.mp hthere
  have hwalked : walkedTo links t m = done.map fun e => (e.placeIn links).1 := by
    rw [walkedTo,hm,List.takeWhile_append_of_pos fun e he => by rw [habsent e he]; rfl,List.takeWhile_cons_of_neg,
      List.append_nil]
    simp [hne]
  have hjoined : joinedTo links t m = [] := by
    rw [joinedTo,if_neg]
    rw [hm]
    simp [hne]
  -- the lab of that VM is there, too
  have hlab : (t.labAt (e.placeIn links).1).isSome := by
    obtain ⟨vm,hvm⟩ := Option.isSome_iff_exists.mp hthere
    obtain ⟨lab',hlab',-⟩ := Option.bind_eq_some_iff.mp hvm
    rw [hlab']
    rfl
  refine .refused ?_ rfl ?_
  · intro henters
    exact hne (henters.1 e (by rw [hm]; exact List.mem_append_right _ List.mem_cons_self))
  · rw [hmade.contents_iff hvms,hwalked,hjoined]
    simp [Untouched,hlab,or_imp,forall_and]

theorem refused_bridge {lab : SnapshotLab I C H} {done left : List LabSnapshotBridge} {b : LabSnapshotBridge}
    (hvms : lab.contents.vms = t.contents.vms)
    (habsent : ∀ e ∈ m.vms, t.vmAt (e.placeIn links).1 (e.placeIn links).2 = none)
    (hm : m.bridges = done++b::left) (haccepted : ∀ b ∈ done, Accepted t b)
    (hmade : Made t lab (m.vms.map fun e => (e.placeIn links).1) done) (hrefused : ¬Accepted t b)
    (err : SnapshotError) :
    (⟨lab,[],.returned (.error err)⟩ : RestoreCall I C H).Failed links hosts t m := by
  have hall : m.vms.all (fun e => (t.vmAt (e.placeIn links).1 (e.placeIn links).2).isNone) = true :=
    List.all_eq_true.mpr fun e he => by rw [habsent e he]; rfl
  have hwalked : walkedTo links t m = m.vms.map fun e => (e.placeIn links).1 := by
    rw [walkedTo,List.takeWhile_eq_self_iff.mpr fun e he => List.all_eq_true.mp hall e he]
  have hjoined : joinedTo links t m = done := by
    rw [joinedTo,if_pos hall,hm,List.takeWhile_append_of_pos fun b hb => decide_eq_true (haccepted b hb),
      List.takeWhile_cons_of_neg (by simpa using hrefused),List.append_nil]
  refine .refused ?_ rfl ?_
  · intro henters
    exact hrefused (henters.2 b (by rw [hm]; exact List.mem_append_right _ List.mem_cons_self))
  · rw [hmade.contents_iff hvms,hwalked,hjoined]

/-- No thread has been started yet. -/
theorem working_start {lab : SnapshotLab I C H}
    (hmade : Made t lab (m.vms.map fun e => (e.placeIn links).1) m.bridges)
    (hvms : lab.contents.vms = t.contents.vms)
    (habsent : ∀ e ∈ m.vms, t.vmAt (e.placeIn links).1 (e.placeIn links).2 = none) :
    Working links hosts m lab [] t := by
  refine ⟨hmade,habsent,?_,?_,?_,Nat.zero_le _⟩
  · intro q name _
    exact congrFun (congrFun hvms q) name
  · intro i e thread _ hthread
    cases hthread
  · intro i j e e' hi
    cases hi.2

/-- All have succeeded, so their places differ. -/
theorem failed_joined {lab : SnapshotLab I C H} {phase : RestorePhase} (henters : Enters links t m)
    (h : Working links hosts m s.lab s.threads t)
    (hlength : s.threads.length = m.vms.length)
    (hover : ∀ i < m.vms.length, s.threads[i]? = some (.over (.ok ()))) (hvms : m.vms ≠ []) :
    (⟨lab,s.threads,phase⟩ : RestoreCall I C H).Failed links hosts t m := by
  have hrestored : ∀ i e, m.vms[i]? = some e → RestoredBy m s.threads i e := fun i e he =>
    ⟨he,hover i (List.getElem?_eq_some_iff.mp he).1⟩
  refine .notResumed henters hvms hlength hover (fun i e he => (h.restored (hrestored i e he)).1) ?_
  rw [List.nodup_iff_getElem?_ne_getElem?]
  intro i j hij hj heq
  rw [List.length_map] at hj
  obtain ⟨e,he⟩ : ∃ e, m.vms[i]? = some e := ⟨_,List.getElem?_eq_getElem (hij.trans hj)⟩
  obtain ⟨e',he'⟩ : ∃ e', m.vms[j]? = some e' := ⟨_,List.getElem?_eq_getElem hj⟩
  rw [List.getElem?_map,List.getElem?_map,he,he'] at heq
  exact hij.ne (h.apart i j e e' (hrestored i e he) (hrestored j e' he') (Option.some.inj heq))

theorem RestoreCall.Inv.caller (h : s.Inv links hosts t m) (hs : s.caller links hosts m = some s') :
    s'.Inv links hosts t m := by
  unfold RestoreCall.Inv at h
  unfold RestoreCall.caller at hs
  split at hs
  · next hphase =>
    rw [hphase] at h
    obtain ⟨hthreads,hvms,done,hm,habsent,hmade⟩ := h
    cases hs
    rw [List.append_nil] at hm
    subst hm
    exact ⟨hthreads,hvms,habsent,[],rfl,by simp,hmade⟩
  · next e left hphase =>
    rw [hphase] at h
    obtain ⟨hthreads,hvms,done,hm,habsent,hmade⟩ := h
    have hmade' := hmade.walk (e.placeIn links).1
    have hvms' : (s.lab.descendOrCreate (e.placeIn links).1).contents.vms = t.contents.vms := by
      rw [contents_descendOrCreate]
      exact hvms
    have hat : (s.lab.descendOrCreate (e.placeIn links).1).vmAt (e.placeIn links).1 (e.placeIn links).2 =
        t.vmAt (e.placeIn links).1 (e.placeIn links).2 :=
      congrFun (congrFun hvms' _) _
    simp only [hat] at hs
    split_ifs at hs with hthere
    · cases hs
      rw [hthreads]
      exact refused_duplicate hvms' hm habsent hmade' hthere _
    · cases hs
      refine ⟨hthreads,hvms',done++[e],by rw [hm]; simp,?_,by simpa using hmade'⟩
      intro e' he'
      obtain he' | he' := List.mem_append.mp he'
      · exact habsent e' he'
      · rw [List.mem_singleton.mp he']
        exact Option.not_isSome_iff_eq_none.mp hthere
  · next hphase =>
    rw [hphase] at h
    obtain ⟨hthreads,hvms,habsent,done,hm,haccepted,hmade⟩ := h
    cases hs
    rw [List.append_nil] at hm
    subst hm
    refine ⟨⟨habsent,haccepted⟩,?_,?_⟩
    · rw [hthreads]
      exact working_start hmade hvms habsent
    · rw [hthreads]
      rfl
  · next b left hphase =>
    rw [hphase] at h
    obtain ⟨hthreads,hvms,habsent,done,hm,haccepted,hmade⟩ := h
    have hiff := hmade.accepted_iff haccepted b
    obtain ⟨err,hattach,hrefused⟩ | ⟨hok,hattach⟩ := attachBridge_cases s.lab b
    · rw [hattach] at hs
      cases hs
      rw [hthreads]
      exact refused_bridge hvms habsent hm haccepted hmade (mt hiff.mpr hrefused) err
    · rw [hattach] at hs
      cases hs
      refine ⟨hthreads,?_,habsent,done++[b],by rw [hm]; simp,?_,hmade.join b⟩
      · rw [contents_putBridge]
        exact hvms
      · intro c hc
        obtain hc | hc := List.mem_append.mp hc
        · exact haccepted c hc
        · rw [List.mem_singleton.mp hc]
          exact hiff.mp hok
  · next hphase =>
    rw [hphase] at h
    obtain ⟨henters,hworking,hleft⟩ := h
    cases hs
    refine ⟨henters,hworking,?_,by simp⟩
    exact le_antisymm hworking.length (List.drop_eq_nil_iff.mp hleft.symm)
  · next e left hphase =>
    rw [hphase] at h
    obtain ⟨henters,hworking,hleft⟩ := h
    have he : m.vms[s.threads.length]? = some e := by
      have hhead := congrArg (fun l => l[0]?) hleft
      simpa using hhead.symm
    cases hs
    refine ⟨henters,hworking.spawn he,?_⟩
    rw [List.length_append,List.length_singleton,← List.drop_drop,← hleft,List.drop_one,List.tail_cons]
  · next i hphase =>
    rw [hphase] at h
    obtain ⟨henters,hworking,hlength,hover⟩ := h
    split at hs
    · next hnone =>
      have hall : ∀ k < m.vms.length, s.threads[k]? = some (.over (.ok ())) := by
        intro k hk
        rw [List.getElem?_eq_none_iff] at hnone
        exact hover k (by omega)
      cases hs
      unfold RestoreCall.Inv
      cases hresult : (resumeAll links hosts 0 (SnapshotLab.reapplyBridges s.lab m.bridges) m.vms).2 with
      | ok u => trivial
      | error err =>
        have hvms : m.vms ≠ [] := by
          intro hnil
          rw [hnil] at hresult
          cases hresult
        exact failed_joined henters hworking hlength hall hvms
    · next hok =>
      cases hs
      refine ⟨henters,hworking,hlength,?_⟩
      intro k hk
      obtain hk | rfl := Nat.lt_succ_iff_lt_or_eq.mp hk
      · exact hover k hk
      · exact hok
    · next err herr =>
      cases hs
      exact .failed henters hworking hlength ⟨i,err,herr⟩
    · cases hs
  · cases hs

theorem RestoreCall.Failed.thread {i : ℕ} (h : s.Failed links hosts t m) (hs : s.thread links hosts m i = some s') :
    s'.Failed links hosts t m := by
  obtain ⟨hphase,hlength',hkeeps⟩ := thread_keeps hs
  obtain ⟨old,hold,hpending⟩ := thread_pending hs
  cases h with
  | refused enters threads contents =>
    rw [threads] at hold
    cases hold
  | failed enters working length thread =>
    obtain ⟨k,err,hk⟩ := thread
    exact .failed enters (working.thread hs) (hlength'.trans length) ⟨k,err,hkeeps k _ hk⟩
  | notResumed enters vms length threads succeed places =>
    rw [threads i (length ▸ (List.getElem?_eq_some_iff.mp hold).1)] at hold
    exact absurd (Option.some.inj hold).symm (hpending _)

theorem RestoreCall.Inv.thread {i : ℕ} (h : s.Inv links hosts t m) (hs : s.thread links hosts m i = some s') :
    s'.Inv links hosts t m := by
  obtain ⟨hphase',hlength',hkeeps⟩ := thread_keeps hs
  obtain ⟨old,hold,-⟩ := thread_pending hs
  unfold RestoreCall.Inv at h ⊢
  rw [hphase']
  split
  · next left hphase =>
    rw [hphase] at h
    rw [h.1] at hold
    cases hold
  · next left hphase =>
    rw [hphase] at h
    rw [h.1] at hold
    cases hold
  · next left hphase =>
    rw [hphase] at h
    obtain ⟨henters,hworking,hleft⟩ := h
    exact ⟨henters,hworking.thread hs,by rw [hlength']; exact hleft⟩
  · next k hphase =>
    rw [hphase] at h
    obtain ⟨henters,hworking,hlength,hover⟩ := h
    exact ⟨henters,hworking.thread hs,hlength'.trans hlength,fun j hj => hkeeps j _ (hover j hj)⟩
  · trivial
  · next err hphase =>
    rw [hphase] at h
    exact RestoreCall.Failed.thread h hs

theorem RestoreCall.Inv.step {a : RestoreAction} {o : Unit} (h : s.Inv links hosts t m)
    (hs : s.step links hosts m a = some (s',o)) : s'.Inv links hosts t m := by
  cases a with
  | caller =>
    obtain ⟨s'',hs'',hq⟩ := Option.map_eq_some_iff.mp hs
    cases hq
    exact h.caller hs''
  | thread i =>
    obtain ⟨s'',hs'',hq⟩ := Option.map_eq_some_iff.mp hs
    cases hq
    exact h.thread hs''

/-- A restore that has returned stays so, with what its threads go on to do. -/
theorem step_returned {a : RestoreAction} {o : Unit} {result : Except SnapshotError Unit}
    (hreturned : s.phase = .returned result) (hs : s.step links hosts m a = some (s',o)) :
    s'.phase = .returned result := by
  cases a with
  | caller =>
    obtain ⟨s'',hs'',hq⟩ := Option.map_eq_some_iff.mp hs
    unfold RestoreCall.caller at hs''
    rw [hreturned] at hs''
    cases hs''
  | thread i =>
    obtain ⟨s'',hs'',hq⟩ := Option.map_eq_some_iff.mp hs
    cases hq
    rw [(thread_keeps hs'').1,hreturned]

/-! ## The threads that are left come to an end -/

/-- How many steps a thread has before it. -/
def RestoreThread.left : RestoreThread I C H → ℕ
  | .spawned => 2
  | .launched _ => 1
  | .over _ => 0

theorem sum_set_lt {α : Type} (f : α → ℕ) {l : List α} {i : ℕ} {old new : α} (hold : l[i]? = some old)
    (hlt : f new < f old) : ((l.set i new).map f).sum < (l.map f).sum := by
  induction l generalizing i with
  | nil => cases hold
  | cons a l ih =>
    cases i with
    | zero =>
      obtain rfl : a = old := Option.some.inj hold
      simp only [List.set_cons_zero,List.map_cons,List.sum_cons]
      omega
    | succ i =>
      have hrest := ih (i := i) hold
      simp only [List.set_cons_succ,List.map_cons,List.sum_cons]
      omega

/-- A thread that is not over can go on. -/
theorem thread_goes_on (hosts : ℕ → RestoreHost I C) {i : ℕ} {old : RestoreThread I C H}
    (hlength : s.threads.length ≤ m.vms.length)
    (hold : s.threads[i]? = some old) (hpending : ∀ outcome, old ≠ .over outcome) :
    ∃ s', s.thread links hosts m i = some s' ∧
      (s'.threads.map RestoreThread.left).sum < (s.threads.map RestoreThread.left).sum := by
  obtain ⟨e,he⟩ : ∃ e, m.vms[i]? = some e :=
    ⟨_,List.getElem?_eq_getElem ((List.getElem?_eq_some_iff.mp hold).1.trans_le hlength)⟩
  unfold RestoreCall.thread
  rw [hold,he]
  cases old with
  | spawned =>
    obtain ⟨err,hrestore,-⟩ | ⟨vm,hrestore,-⟩ := restoreVm_cases (H := H) (hosts i) m.bridges e
    · simp only [hrestore]
      exact ⟨_,rfl,sum_set_lt _ hold (by simp [RestoreThread.left])⟩
    · simp only [hrestore]
      exact ⟨_,rfl,sum_set_lt _ hold (by simp [RestoreThread.left])⟩
  | launched vm =>
    simp only
    split
    · exact ⟨_,rfl,sum_set_lt _ hold (by simp [RestoreThread.left])⟩
    · exact ⟨_,rfl,sum_set_lt _ hold (by simp [RestoreThread.left])⟩
  | _ => exact absurd rfl (hpending _)

/-- All threads are over. -/
def RestoreCall.Quiet (s : RestoreCall I C H) : Prop :=
  ∀ (i : ℕ) (thread : RestoreThread I C H), s.threads[i]? = some thread → ∃ outcome, thread = .over outcome

theorem runs_quiet (links : Links) (hosts : ℕ → RestoreHost I C) (s : RestoreCall I C H)
    (hlength : s.threads.length ≤ m.vms.length) :
    ∃ (as : List RestoreAction) (s' : RestoreCall I C H) (os : List Unit),
      (restoreMachine links hosts m H).run s as = some (s',os) ∧ s'.Quiet := by
  by_cases hquiet : s.Quiet
  · exact ⟨[],s,[],rfl,hquiet⟩
  · unfold RestoreCall.Quiet at hquiet
    push Not at hquiet
    obtain ⟨i,old,hold,hpending⟩ := hquiet
    obtain ⟨s₁,hs₁,hlt⟩ := thread_goes_on hosts hlength hold hpending
    obtain ⟨as,s',os,hrun,hquiet⟩ := runs_quiet links hosts s₁ ((thread_keeps hs₁).2.1.trans_le hlength)
    exact ⟨.thread i::as,s',()::os,Machine.run_of_step _ (Option.map_eq_some_iff.mpr ⟨s₁,hs₁,rfl⟩) hrun,hquiet⟩
termination_by (s.threads.map RestoreThread.left).sum

/-! ## The exact condition -/

/-- What a restore that has failed may leave: nothing, where no VM was restored, and no VM that it has
restored, where another one has failed. -/
structure Clean (links : Links) (t : SnapshotLab I C H) (m : LabSnapshotMeta) (s : RestoreCall I C H) : Prop where
  unchanged : (∀ i e, ¬RestoredBy m s.threads i e) → s.lab.contents = t.contents
  none_left : (∃ (i : ℕ) (err : SnapshotError), s.threads[i]? = some (.over (.error err))) →
    ∀ i e, RestoredBy m s.threads i e → ∀ vm, s.lab.vmAt (e.placeIn links).1 (e.placeIn links).2 = some vm →
      vm.inner.state ∉ [.booted,.paused]

/-- What the caller makes was there, and no thread succeeds; or all of them do, each in a place of its own. -/
def CleanWhen (links : Links) (hosts : ℕ → RestoreHost I C) (t : SnapshotLab I C H) (m : LabSnapshotMeta) : Prop :=
  Untouched t (walkedTo links t m) (joinedTo links t m) ∧
      (Enters links t m → ∀ i e, m.vms[i]? = some e → ¬Succeeds (hosts i) e) ∨
    Enters links t m ∧ (∀ i e, m.vms[i]? = some e → Succeeds (hosts i) e) ∧
      (m.vms.map (LabSnapshotEntry.placeIn links)).Nodup

theorem Enters.made (h : Enters links t m) :
    walkedTo links t m = (m.vms.map fun e => (e.placeIn links).1) ∧ joinedTo links t m = m.bridges := by
  have hall : m.vms.all (fun e => (t.vmAt (e.placeIn links).1 (e.placeIn links).2).isNone) = true :=
    List.all_eq_true.mpr fun e he => by rw [h.1 e he]; rfl
  refine ⟨?_,?_⟩
  · rw [walkedTo,List.takeWhile_eq_self_iff.mpr fun e he => List.all_eq_true.mp hall e he]
  · rw [joinedTo,if_pos hall,List.takeWhile_eq_self_iff.mpr fun b hb => decide_eq_true (h.2 b hb)]

/-- As long as no thread has succeeded, the lab is what the caller has made of it. -/
theorem Working.contents_iff (h : Working links hosts m s.lab s.threads t) (henters : Enters links t m)
    (hnone : ∀ i e, ¬RestoredBy m s.threads i e) :
    s.lab.contents = t.contents ↔ Untouched t (walkedTo links t m) (joinedTo links t m) := by
  have hvms : s.lab.contents.vms = t.contents.vms := by
    funext q name
    exact h.kept q name fun i e hi => absurd hi (hnone i e)
  rw [h.made.contents_iff hvms,henters.made.1,henters.made.2]

/-- A thread that fails where all could succeed meets another with its place. -/
theorem Working.not_nodup (h : Working links hosts m s.lab s.threads t) (hlength : s.threads.length = m.vms.length)
    {i : ℕ} {err : SnapshotError} (hi : s.threads[i]? = some (.over (.error err)))
    (hsucceed : ∀ i e, m.vms[i]? = some e → Succeeds (hosts i) e) :
    ¬(m.vms.map (LabSnapshotEntry.placeIn links)).Nodup := by
  intro hnodup
  have hlt : i < m.vms.length := hlength ▸ (List.getElem?_eq_some_iff.mp hi).1
  obtain ⟨e,he⟩ : ∃ e, m.vms[i]? = some e := ⟨_,List.getElem?_eq_getElem hlt⟩
  obtain hfails | ⟨j,e',hj,hrestored,hplace⟩ := h.sound i e _ he hi
  · exact hfails (hsucceed i e he)
  · have hlt' : i < (m.vms.map (LabSnapshotEntry.placeIn links)).length := by rwa [List.length_map]
    have hsame : (m.vms.map (LabSnapshotEntry.placeIn links))[i]? =
        (m.vms.map (LabSnapshotEntry.placeIn links))[j]? := by
      rw [List.getElem?_map,List.getElem?_map,he,hrestored.1,Option.map_some,Option.map_some,hplace]
    exact hj ((List.getElem?_inj hlt' hnodup).mp hsame).symm

theorem RestoreCall.Failed.length_le (h : s.Failed links hosts t m) : s.threads.length ≤ m.vms.length := by
  cases h with
  | refused enters threads contents =>
    rw [threads]
    exact Nat.zero_le _
  | failed enters working length thread => exact length.le
  | notResumed enters vms length threads succeed places => exact length.le

theorem RestoreCall.Failed.clean (h : s.Failed links hosts t m) (hwhen : CleanWhen links hosts t m) :
    Clean links t m s := by
  cases h with
  | refused enters threads contents =>
    have huntouched : Untouched t (walkedTo links t m) (joinedTo links t m) := by
      obtain ⟨huntouched,-⟩ | ⟨henters,-⟩ := hwhen
      · exact huntouched
      · exact absurd henters enters
    refine ⟨fun _ => contents.mpr huntouched,?_⟩
    rintro ⟨i,err,hi⟩
    rw [threads] at hi
    cases hi
  | failed enters working length thread =>
    obtain ⟨huntouched,hfail⟩ | ⟨-,hsucceed,hnodup⟩ := hwhen
    · have hnone : ∀ i e, ¬RestoredBy m s.threads i e := fun i e hi =>
        hfail enters i e hi.1 (working.restored hi).1
      exact ⟨fun _ => (working.contents_iff enters hnone).mpr huntouched,fun _ i e hi => absurd hi (hnone i e)⟩
    · obtain ⟨i,err,hi⟩ := thread
      exact absurd hnodup (working.not_nodup length hi hsucceed)
  | notResumed enters vms length threads succeed places =>
    have hpos : 0 < m.vms.length := List.length_pos_iff.mpr vms
    refine ⟨?_,?_⟩
    · intro hnone
      exact absurd ⟨List.getElem?_eq_getElem hpos,threads 0 hpos⟩ (hnone 0 _)
    · rintro ⟨i,err,hi⟩
      rw [threads i (length ▸ (List.getElem?_eq_some_iff.mp hi).1)] at hi
      cases hi

theorem RestoreCall.Failed.cleanWhen (h : s.Failed links hosts t m) (hquiet : s.Quiet)
    (hclean : Clean links t m s) :
    CleanWhen links hosts t m := by
  cases h with
  | refused enters threads contents =>
    refine .inl ⟨contents.mp (hclean.unchanged ?_),fun henters => absurd henters enters⟩
    intro i e hi
    rw [RestoredBy,threads] at hi
    cases hi.2
  | failed enters working length thread =>
    have hnone : ∀ i e, ¬RestoredBy m s.threads i e := by
      intro i e hi
      obtain ⟨-,vm,hvm,hbooted⟩ := working.restored hi
      exact hclean.none_left thread i e hi vm hvm (by rw [hbooted]; decide)
    refine .inl ⟨(working.contents_iff enters hnone).mp (hclean.unchanged hnone),?_⟩
    intro _ i e he
    obtain ⟨thread,hthread⟩ : ∃ thread, s.threads[i]? = some thread :=
      ⟨_,List.getElem?_eq_getElem (length ▸ (List.getElem?_eq_some_iff.mp he).1)⟩
    obtain ⟨outcome,rfl⟩ := hquiet i thread hthread
    have hsound := working.sound i e _ he hthread
    cases outcome with
    | ok u => exact absurd ⟨he,hthread⟩ (hnone i e)
    | error err =>
      obtain hfails | ⟨j,e',-,hj,-⟩ := hsound
      · exact hfails
      · exact absurd hj (hnone j e')
  | notResumed enters vms length threads succeed places =>
    exact .inr ⟨enters,succeed,places⟩

end Run

/-- A restore that has returned an error is clean, whatever its threads go on to do, if and only if what its
caller makes was there and no thread succeeds, or all of them do, each in a place of its own. -/
theorem failed_restore_clean_iff (hosts : ℕ → RestoreHost I C) (g : LinkedLab I C H) (m : LabSnapshotMeta)
    (as : List RestoreAction) (s : RestoreCall I C H) (os : List Unit) (err : SnapshotError)
    (hrun : (restoreMachine g.links hosts m H).run (.start m g.tree) as = some (s,os))
    (hreturned : s.phase = .returned (.error err)) :
    (∀ (later : List RestoreAction) (s' : RestoreCall I C H) (os' : List Unit),
      (restoreMachine g.links hosts m H).run s later = some (s',os') → Clean g.links g.tree m s') ↔
        CleanWhen g.links hosts g.tree m := by
  have hinv : s.Inv g.links hosts g.tree m :=
    Machine.run_invariant _ (fun _ _ _ _ hi hs => hi.step hs) inv_start hrun
  have hlater : ∀ (later : List RestoreAction) (s' : RestoreCall I C H) (os' : List Unit),
      (restoreMachine g.links hosts m H).run s later = some (s',os') → s'.Failed g.links hosts g.tree m := by
    intro later s' os' hrun'
    have hinv' : s'.Inv g.links hosts g.tree m ∧ s'.phase = .returned (.error err) :=
      Machine.run_invariant (I := fun s => s.Inv g.links hosts g.tree m ∧ s.phase = .returned (.error err)) _
        (fun _ _ _ _ hi hs => ⟨hi.1.step hs,step_returned hi.2 hs⟩) ⟨hinv,hreturned⟩ hrun'
    have hfailed := hinv'.1
    unfold RestoreCall.Inv at hfailed
    rw [hinv'.2] at hfailed
    exact hfailed
  constructor
  · intro hclean
    obtain ⟨later,s',os',hrun',hquiet⟩ := runs_quiet g.links hosts s (hlater [] s [] rfl).length_le
    exact (hlater later s' os' hrun').cleanWhen hquiet (hclean later s' os' hrun')
  · intro hwhen later s' os' hrun'
    exact (hlater later s' os' hrun').clean hwhen

/-- How a restore that has returned has failed. -/
def RestorePhase.failure : RestorePhase → Option SnapshotError
  | .returned (.error err) => some err
  | _ => none

theorem RestorePhase.failure_eq {phase : RestorePhase} {err : SnapshotError} (h : phase.failure = some err) :
    phase = .returned (.error err) := by
  unfold failure at h
  split at h
  · cases h
    rfl
  · cases h

/-- What has come of a thread: that it has failed, or that it has not. -/
def RestoreThread.result : RestoreThread I C H → Option (Option SnapshotError)
  | .over (.ok ()) => some none
  | .over (.error err) => some (some err)
  | _ => none

theorem RestoreThread.result_eq {thread : RestoreThread I C H} {r : Option SnapshotError}
    (h : thread.result = some r) : thread = .over (r.elim (.ok ()) .error) := by
  unfold result at h
  split at h
  · cases h
    rfl
  · cases h
    rfl
  · cases h

theorem over_of_result {threads : List (RestoreThread I C H)} {i : ℕ} {r : Option SnapshotError}
    (h : (threads.map RestoreThread.result)[i]? = some (some r)) :
    threads[i]? = some (.over (r.elim (.ok ()) .error)) := by
  rw [List.getElem?_map] at h
  obtain ⟨thread,hthread,hresult⟩ := Option.map_eq_some_iff.mp h
  rw [hthread,RestoreThread.result_eq hresult]

/-- A backend that restores the VMs of one profile. -/
def knowing (profile : String) : RestoreHost Unit Unit :=
  ⟨fun p => p = profile,fun _ => .ok ⟨3,(),(),none,none⟩,fun _ => .ok ()⟩

/-- Nothing is shared. -/
def LinkedLab.ofTree (t : SnapshotLab I C H) : LinkedLab I C H := ⟨t,fun _ _ => none,nofun⟩

/-- Two sub-labs, of which the one is a member of the other, too. -/
def sharedLab : LinkedLab Unit Unit Unit where
  tree := (LabTree.empty.setSubLab "a" .empty).setSubLab "b" .empty
  links := fun q name => if q = ["b"] ∧ name = "a" then some ["a"] else none
  linked := by
    intro q name q' hlink
    split_ifs at hlink with hname
    obtain ⟨rfl,rfl⟩ := hname
    cases hlink
    decide +kernel

/-- Its profile is not known. -/
def strangeMeta : LabSnapshotMeta := ⟨[⟨"b/a/x","q","/snaps/b_a_x.snap"⟩],[]⟩

theorem failed_restore_clean_iff_strange : ∃ (s : RestoreCall Unit Unit Unit) (os : List Unit),
    (restoreMachine sharedLab.links (fun _ => knowing "p") strangeMeta Unit).run (.start strangeMeta sharedLab.tree)
      [.caller,.caller,.caller,.caller,.caller,.thread 0,.caller] = some (s,os) ∧
    s.phase = .returned (.error (.unknownProfile "q")) ∧ Clean sharedLab.links sharedLab.tree strangeMeta s := by
  have hrun : ((restoreMachine sharedLab.links (fun _ => knowing "p") strangeMeta Unit).run
      (.start strangeMeta sharedLab.tree) [.caller,.caller,.caller,.caller,.caller,.thread 0,.caller]).map
      (fun q => q.1.phase.failure) = some (some (.unknownProfile "q")) := by
    decide +kernel
  obtain ⟨⟨s,os⟩,hrun,hfailure⟩ := Option.map_eq_some_iff.mp hrun
  have hreturned := RestorePhase.failure_eq hfailure
  refine ⟨s,os,hrun,hreturned,?_⟩
  refine (failed_restore_clean_iff (fun _ => knowing "p") sharedLab strangeMeta _ s os _ hrun hreturned).mpr
    (.inl ⟨⟨?_,?_⟩,?_⟩) [] s [] rfl
  · decide +kernel
  · rw [show joinedTo sharedLab.links sharedLab.tree strangeMeta = [] by decide +kernel]
    simp
  · intro _ i e he hsucceeds
    obtain ⟨rfl,rfl⟩ : i = 0 ∧ e = ⟨"b/a/x","q","/snaps/b_a_x.snap"⟩ := by
      cases i with
      | zero => exact ⟨rfl,(Option.some.inj he).symm⟩
      | succ i => cases he
    exact absurd hsucceeds.1 (by decide)

/-- One VM in a sub-lab, and one that is in the lab already. -/
def takenMeta : LabSnapshotMeta := ⟨[⟨"x/b","p","/snaps/x_b.snap"⟩,⟨"a","p","/snaps/a.snap"⟩],[]⟩

/-- One VM of a known profile, and one of another. -/
def mixedMeta : LabSnapshotMeta := ⟨[⟨"a","p","/snaps/a.snap"⟩,⟨"b","q","/snaps/b.snap"⟩],[]⟩

/-- One VM of a shared sub-lab, as it is seen from both labs. -/
def sharedMeta : LabSnapshotMeta := ⟨[⟨"a/x","p","/snaps/a_x.snap"⟩,⟨"b/a/x","p","/snaps/b_a_x.snap"⟩],[]⟩

/-- Two entries are restored, one after the other. -/
def oneByOne : List RestoreAction :=
  [.caller,.caller,.caller,.caller,.caller,.caller,.caller,.thread 0,.thread 0,.thread 1,.thread 1,.caller,.caller]

/-- The VM of the first entry stays where the second one has failed. -/
theorem not_clean_of_first {links : Links} {t : SnapshotLab I C H} {m : LabSnapshotMeta} {s : RestoreCall I C H}
    {e : LabSnapshotEntry} {err : SnapshotError} (he : m.vms[0]? = some e)
    (hthreads : s.threads.map RestoreThread.result = [some none,some (some err)])
    (hbooted : (s.lab.vmAt (e.placeIn links).1 (e.placeIn links).2).map (·.inner.state) = some .booted) :
    ¬Clean links t m s := by
  intro hclean
  obtain ⟨vm,hvm,hstate⟩ := Option.map_eq_some_iff.mp hbooted
  have hok : s.threads[0]? = some (.over (.ok ())) := over_of_result (r := none) (by rw [hthreads]; rfl)
  have herr : s.threads[1]? = some (.over (.error err)) := over_of_result (r := some _) (by rw [hthreads]; rfl)
  have hnot := hclean.none_left ⟨1,_,herr⟩ 0 e ⟨he,hok⟩ vm hvm
  rw [hstate] at hnot
  exact hnot List.mem_cons_self

/-- The pre-flight refuses the restore, and a sub-lab is left; a thread fails, for its profile or for the other
one's place, and the VM of that one is left running. -/
theorem failed_restore_leaves :
    (∃ (s : RestoreCall Unit Unit Unit) (os : List Unit),
      (restoreMachine (LinkedLab.ofTree oneVm).links (fun _ => knowing "p") takenMeta Unit).run
        (.start takenMeta oneVm) [.caller,.caller] = some (s,os) ∧
      s.phase = .returned (.error (.lab (.duplicateVmName "a"))) ∧ s.threads.length = 0 ∧
      s.lab.contents ≠ oneVm.contents ∧ ¬Clean (LinkedLab.ofTree oneVm).links oneVm takenMeta s) ∧
    (∃ (s : RestoreCall Unit Unit Unit) (os : List Unit),
      (restoreMachine (LinkedLab.ofTree .empty : LinkedLab Unit Unit Unit).links (fun _ => knowing "p") mixedMeta
        Unit).run (.start mixedMeta .empty) (oneByOne.eraseIdx 10) = some (s,os) ∧
      s.phase = .returned (.error (.unknownProfile "q")) ∧
      (s.lab.vmAt [] "a").map (·.inner.state) = some .booted ∧
      ¬Clean (LinkedLab.ofTree .empty : LinkedLab Unit Unit Unit).links .empty mixedMeta s) ∧
    ∃ (s : RestoreCall Unit Unit Unit) (os : List Unit),
      (restoreMachine sharedLab.links (fun _ => knowing "p") sharedMeta Unit).run (.start sharedMeta sharedLab.tree)
        oneByOne = some (s,os) ∧
      s.phase = .returned (.error (.lab (.duplicateVmName "x"))) ∧
      (s.lab.vmAt ["a"] "x").map (·.inner.state) = some .booted ∧
      ¬Clean sharedLab.links sharedLab.tree sharedMeta s := by
  refine ⟨?_,?_,?_⟩
  · have hrun : ((restoreMachine (LinkedLab.ofTree oneVm).links (fun _ => knowing "p") takenMeta Unit).run
        (.start takenMeta oneVm) [.caller,.caller]).map
        (fun q => (q.1.phase.failure,q.1.threads.length,(q.1.lab.labAt ["x"]).isSome)) =
        some (some (.lab (.duplicateVmName "a")),0,true) := by
      decide +kernel
    obtain ⟨⟨s,os⟩,hrun,hs⟩ := Option.map_eq_some_iff.mp hrun
    simp only [Prod.mk.injEq] at hs
    obtain ⟨hfailure,hthreads,hlab⟩ := hs
    have hchanged : s.lab.contents ≠ oneVm.contents := by
      intro heq
      have hthere : ["x"] ∈ s.lab.contents.labs := hlab
      rw [heq] at hthere
      revert hthere
      change ¬(oneVm.labAt ["x"]).isSome = true
      decide +kernel
    refine ⟨s,os,hrun,RestorePhase.failure_eq hfailure,hthreads,hchanged,?_⟩
    intro hclean
    refine hchanged (hclean.unchanged ?_)
    intro i e hi
    have hnil := List.length_eq_zero_iff.mp hthreads
    rw [RestoredBy,hnil] at hi
    cases hi.2
  · have hrun : ((restoreMachine (LinkedLab.ofTree .empty : LinkedLab Unit Unit Unit).links (fun _ => knowing "p")
        mixedMeta Unit).run (.start mixedMeta .empty) (oneByOne.eraseIdx 10)).map
        (fun q => (q.1.phase.failure,q.1.threads.map RestoreThread.result,
          (q.1.lab.vmAt [] "a").map (·.inner.state))) =
        some (some (.unknownProfile "q"),[some none,some (some (.unknownProfile "q"))],some .booted) := by
      decide +kernel
    obtain ⟨⟨s,os⟩,hrun,hs⟩ := Option.map_eq_some_iff.mp hrun
    simp only [Prod.mk.injEq] at hs
    obtain ⟨hfailure,hthreads,hstate⟩ := hs
    have hplace : (⟨"a","p","/snaps/a.snap"⟩ : LabSnapshotEntry).placeIn
        (LinkedLab.ofTree .empty : LinkedLab Unit Unit Unit).links = ([],"a") := by decide +kernel
    exact ⟨s,os,hrun,RestorePhase.failure_eq hfailure,hstate,
      not_clean_of_first rfl hthreads (by rw [hplace]; exact hstate)⟩
  · have hrun : ((restoreMachine sharedLab.links (fun _ => knowing "p") sharedMeta Unit).run
        (.start sharedMeta sharedLab.tree) oneByOne).map
        (fun q => (q.1.phase.failure,q.1.threads.map RestoreThread.result,
          (q.1.lab.vmAt ["a"] "x").map (·.inner.state))) =
        some (some (.lab (.duplicateVmName "x")),[some none,some (some (.lab (.duplicateVmName "x")))],
          some .booted) := by
      decide +kernel
    obtain ⟨⟨s,os⟩,hrun,hs⟩ := Option.map_eq_some_iff.mp hrun
    simp only [Prod.mk.injEq] at hs
    obtain ⟨hfailure,hthreads,hstate⟩ := hs
    have hplace : (⟨"a/x","p","/snaps/a_x.snap"⟩ : LabSnapshotEntry).placeIn sharedLab.links = (["a"],"x") := by
      decide +kernel
    exact ⟨s,os,hrun,RestorePhase.failure_eq hfailure,hstate,
      not_clean_of_first rfl hthreads (by rw [hplace]; exact hstate)⟩

end Provium.Lab
