import Provium.Agent.Tables

/-! Handles. Ids come from one counter, an id is filed once and in one table, and an operation changes no
entry but the one that it names. -/
namespace Provium.Agent
open Lib

def Note.drawnId : Note → Option ℕ
  | drawn id => some id
  | _ => none

def Note.issuedId : Note → Option ℕ
  | issued id => some id
  | _ => none

/-- The ids that have been drawn, in order. -/
def drawnIds (seen : List Note) : List ℕ := seen.filterMap Note.drawnId

/-- The handles that have been replied, in order. -/
def issuedIds (seen : List Note) : List ℕ := seen.filterMap Note.issuedId

inductive TableName where
  | files
  | processes
  | workers
  | workerProcesses
  deriving DecidableEq, Repr

section
variable {F P W : Type}

/-- A table has an entry under an id. -/
def AgentState.Has (s : AgentState F P W) : TableName → ℕ → Prop
  | .files,k => k ∈ s.files
  | .processes,k => k ∈ s.processes
  | .workers,k => k ∈ s.workers
  | .workerProcesses,k => k ∈ s.workerProcesses

/-- The table that an operation that has drawn its id is going to file it in. -/
def Op.table : Op F P W → TableName
  | .insertProcess _ _ => .processes
  | .insertWorker _ _ => .workers
  | .insertOuter _ _ _ => .workerProcesses
  | _ => .files

/-- The counter after so many draws. -/
structure Counted (seen : List Note) (s : AgentState F P W) : Prop where
  next : s.nextHandle = ((drawnIds seen).length+1)%2^64
  ids : drawnIds seen = (List.range (drawnIds seen).length).map fun i => (i+1)%2^64

/-- The first 2^64 ids are distinct. -/
theorem ids_nodup {n : ℕ} (hn : n ≤ 2^64) : ((List.range n).map fun i => (i+1)%2^64).Nodup := by
  apply List.Nodup.map_on _ List.nodup_range
  intro i hi j hj h
  have hi := List.mem_range.mp hi
  have hj := List.mem_range.mp hj
  omega

/-- What befalls the tables in a step, as far as ids are concerned. -/
inductive Filing (s : AgentState F P W) (p p' : Op F P W) (s' : AgentState F P W) : Note → Prop
  | keep {o : Note} (ho : o.drawnId = none ∧ o.issuedId = none) (hp : p.held = none) (hp' : p'.held = none)
      (hnext : s'.nextHandle = s.nextHandle) (hhas : ∀ T k, s'.Has T k → s.Has T k) : Filing s p p' s' o
  | draw (hp : p.held = none) (hp' : p'.held = some s.nextHandle)
      (hnext : s'.nextHandle = (s.nextHandle+1)%2^64) (hhas : ∀ T k, s'.Has T k → s.Has T k) :
      Filing s p p' s' (.drawn s.nextHandle)
  | issue {id : ℕ} (hp : p.held = some id) (hp' : p'.held = none) (hnext : s'.nextHandle = s.nextHandle)
      (hhas : ∀ T k, s'.Has T k → s.Has T k ∨ T = p.table ∧ k = id) : Filing s p p' s' (.issued id)

theorem Effect.filing {s s' : AgentState F P W} {p p' : Op F P W} {o : Note} (h : Effect s p p' s' o) :
    Filing s p p' s' o := by
  cases h with
  | keep hp hp' => exact .keep ⟨rfl,rfl⟩ hp hp' rfl fun _ _ hk => hk
  | draw hp hp' => exact .draw hp hp' rfl fun T _ hk => by cases T <;> exact hk
  | insertFile id f =>
    refine .issue rfl rfl rfl fun T k hk => ?_
    cases T with
    | files => exact ((AList.mem_insert _).mp hk).symm.imp_right fun h => ⟨rfl,h⟩
    | processes | workers | workerProcesses => exact .inl hk
  | takeFile k =>
    refine .keep ⟨rfl,rfl⟩ rfl rfl rfl fun T _ hk => ?_
    cases T with
    | files => exact Table.mem_of_mem_erase hk
    | processes | workers | workerProcesses => exact hk
  | withFileMut k g hp' =>
    refine .keep ⟨rfl,rfl⟩ rfl hp' rfl fun T _ hk => ?_
    cases T with
    | files => exact Table.mem_change.mp hk
    | processes | workers | workerProcesses => exact hk
  | insertProcess id c =>
    refine .issue rfl rfl rfl fun T k hk => ?_
    cases T with
    | processes => exact ((AList.mem_insert _).mp hk).symm.imp_right fun h => ⟨rfl,h⟩
    | files | workers | workerProcesses => exact .inl hk
  | takeProcess k =>
    refine .keep ⟨rfl,rfl⟩ rfl rfl rfl fun T _ hk => ?_
    cases T with
    | processes => exact Table.mem_of_mem_erase hk
    | files | workers | workerProcesses => exact hk
  | withProcessMut k g hp' =>
    refine .keep ⟨rfl,rfl⟩ rfl hp' rfl fun T _ hk => ?_
    cases T with
    | processes => exact Table.mem_change.mp hk
    | files | workers | workerProcesses => exact hk
  | insertWorker id c =>
    refine .issue rfl rfl rfl fun T k hk => ?_
    cases T with
    | workers => exact ((AList.mem_insert _).mp hk).symm.imp_right fun h => ⟨rfl,h⟩
    | files | processes | workerProcesses => exact .inl hk
  | removeWorker w =>
    refine .keep ⟨rfl,rfl⟩ rfl rfl rfl fun T _ hk => ?_
    cases T with
    | workers => exact Table.mem_of_mem_erase hk
    | files | processes | workerProcesses => exact hk
  | sweep w =>
    refine .keep ⟨rfl,rfl⟩ rfl rfl rfl fun T _ hk => ?_
    cases T with
    | workerProcesses => exact Table.mem_of_mem_retain hk
    | files | processes | workers => exact hk
  | joined w => exact .keep ⟨rfl,rfl⟩ rfl rfl rfl fun _ _ hk => hk
  | insertOuter id w inner =>
    refine .issue rfl rfl rfl fun T k hk => ?_
    cases T with
    | workerProcesses => exact ((AList.mem_insert _).mp hk).symm.imp_right fun h => ⟨rfl,h⟩
    | files | processes | workers => exact .inl hk
  | dropOuter outer =>
    refine .keep ⟨rfl,rfl⟩ rfl rfl rfl fun T _ hk => ?_
    cases T with
    | workerProcesses => exact Table.mem_of_mem_erase hk
    | files | processes | workers => exact hk

theorem Filing.counted {seen : List Note} {s s' : AgentState F P W} {p p' : Op F P W} {o : Note}
    (h : Filing s p p' s' o) (hc : Counted seen s) : Counted (seen++[o]) s' := by
  cases h with
  | keep ho _ _ hnext =>
    have hdrawn : drawnIds (seen++[o]) = drawnIds seen := by
      simp [drawnIds,ho.1]
    exact ⟨by rw [hdrawn,hnext]; exact hc.next,by rw [hdrawn]; exact hc.ids⟩
  | draw _ _ hnext =>
    have hdrawn : drawnIds (seen++[.drawn s.nextHandle]) = drawnIds seen++[s.nextHandle] := by
      simp [drawnIds,Note.drawnId]
    refine ⟨?_,?_⟩
    · rw [hdrawn,hnext,hc.next,List.length_append,List.length_singleton]
      omega
    · rw [hdrawn,List.length_append,List.length_singleton,List.range_succ,List.map_append,← hc.ids,hc.next]
      rfl
  | issue _ _ hnext =>
    have hdrawn : ∀ id, drawnIds (seen++[.issued id]) = drawnIds seen := by
      intro id
      simp [drawnIds,Note.drawnId]
    exact ⟨by rw [hdrawn,hnext]; exact hc.next,by rw [hdrawn]; exact hc.ids⟩

theorem Counted.nodup {seen : List Note} {s : AgentState F P W} (h : Counted seen s)
    (hfew : (drawnIds seen).length < 2^64) : (drawnIds seen).Nodup := by
  rw [h.ids]
  exact ids_nodup hfew.le

/-- An id that is drawn is new. -/
theorem Counted.fresh {seen : List Note} {s : AgentState F P W} (h : Counted seen s)
    (hfew : (drawnIds seen).length < 2^64) : s.nextHandle ∉ drawnIds seen := by
  have hnodup : ((List.range ((drawnIds seen).length+1)).map fun i => (i+1)%2^64).Nodup := ids_nodup hfew
  rw [List.range_succ,List.map_append,← h.ids] at hnodup
  have hdisjoint := List.disjoint_of_nodup_append hnodup
  intro hmem
  exact hdisjoint hmem (by simp [h.next])

/-- Ids that are held are not yet issued, by one operation each; ids are issued once; and every entry is
filed under an id that has been issued, in one table. -/
structure Disciplined (seen : List Note) (c : Connections F P W) : Prop where
  held : ∀ t id, (c.op t).held = some id → id ∈ drawnIds seen ∧ id ∉ issuedIds seen
  apart : ∀ t t' id, (c.op t).held = some id → (c.op t').held = some id → t = t'
  issued : (issuedIds seen).Nodup
  drawn : issuedIds seen ⊆ drawnIds seen
  filed : ∀ T k, c.state.Has T k → k ∈ issuedIds seen
  exclusive : ∀ T T' k, c.state.Has T k → c.state.Has T' k → T = T'

theorem Disciplined.step {seen : List Note} {c : Connections F P W} {t : ℕ} {s' : AgentState F P W}
    {p' : Op F P W} {o : Note} (hd : Disciplined seen c) (hc : Counted seen c.state)
    (hfew : (drawnIds seen).length < 2^64) (h : Filing c.state (c.op t) p' s' o) :
    Disciplined (seen++[o]) ⟨s',Function.update c.op t p'⟩ := by
  have hother : ∀ t', t' ≠ t → Function.update c.op t p' t' = c.op t' := fun t' ht =>
    Function.update_of_ne ht ..
  have hself : Function.update c.op t p' t = p' := Function.update_self ..
  cases h with
  | keep ho hp hp' hnext hhas =>
    have hdrawn : drawnIds (seen++[o]) = drawnIds seen := by simp [drawnIds,ho.1]
    have hissued : issuedIds (seen++[o]) = issuedIds seen := by simp [issuedIds,ho.2]
    have hheld : ∀ t' id, (Function.update c.op t p' t').held = some id → (c.op t').held = some id := by
      intro t' id hid
      by_cases ht : t' = t
      · subst ht
        rw [hself,hp'] at hid
        cases hid
      · rwa [hother t' ht] at hid
    refine ⟨?_,?_,by rw [hissued]; exact hd.issued,by rw [hissued,hdrawn]; exact hd.drawn,?_,?_⟩
    · intro t' id hid
      rw [hdrawn,hissued]
      exact hd.held t' id (hheld t' id hid)
    · exact fun t₁ t₂ id h₁ h₂ => hd.apart t₁ t₂ id (hheld _ _ h₁) (hheld _ _ h₂)
    · intro T k hk
      rw [hissued]
      exact hd.filed T k (hhas T k hk)
    · exact fun T T' k h₁ h₂ => hd.exclusive T T' k (hhas _ _ h₁) (hhas _ _ h₂)
  | draw hp hp' hnext hhas =>
    have hdrawn : drawnIds (seen++[.drawn c.state.nextHandle]) = drawnIds seen++[c.state.nextHandle] := by
      simp [drawnIds,Note.drawnId]
    have hissued : issuedIds (seen++[.drawn c.state.nextHandle]) = issuedIds seen := by
      simp [issuedIds,Note.issuedId]
    have hnew := hc.fresh hfew
    -- what is held is what was held, or the new id, which nobody else holds
    have hheld : ∀ t' id, (Function.update c.op t p' t').held = some id →
        t' = t ∧ id = c.state.nextHandle ∨ t' ≠ t ∧ (c.op t').held = some id := by
      intro t' id hid
      by_cases ht : t' = t
      · subst ht
        rw [hself,hp'] at hid
        exact .inl ⟨rfl,(Option.some.inj hid).symm⟩
      · rw [hother t' ht] at hid
        exact .inr ⟨ht,hid⟩
    refine ⟨?_,?_,by rw [hissued]; exact hd.issued,?_,?_,?_⟩
    · intro t' id hid
      rw [hdrawn,hissued]
      obtain ⟨-,rfl⟩ | ⟨-,hid⟩ := hheld t' id hid
      · exact ⟨List.mem_append_right _ List.mem_cons_self,fun hi => hnew (hd.drawn hi)⟩
      · exact ⟨List.mem_append_left _ (hd.held t' id hid).1,(hd.held t' id hid).2⟩
    · intro t₁ t₂ id h₁ h₂
      obtain ⟨rfl,rfl⟩ | ⟨-,h₁⟩ := hheld t₁ id h₁
      · obtain ⟨rfl,-⟩ | ⟨-,h₂⟩ := hheld t₂ _ h₂
        · rfl
        · exact absurd (hd.held t₂ _ h₂).1 hnew
      · obtain ⟨-,rfl⟩ | ⟨-,h₂⟩ := hheld t₂ id h₂
        · exact absurd (hd.held t₁ _ h₁).1 hnew
        · exact hd.apart t₁ t₂ id h₁ h₂
    · rw [hissued,hdrawn]
      exact fun id hid => List.mem_append_left _ (hd.drawn hid)
    · intro T k hk
      rw [hissued]
      exact hd.filed T k (hhas T k hk)
    · exact fun T T' k h₁ h₂ => hd.exclusive T T' k (hhas _ _ h₁) (hhas _ _ h₂)
  | @issue id hp hp' hnext hhas =>
    have hdrawn : drawnIds (seen++[.issued id]) = drawnIds seen := by simp [drawnIds,Note.drawnId]
    have hissued : issuedIds (seen++[.issued id]) = issuedIds seen++[id] := by
      simp [issuedIds,Note.issuedId]
    obtain ⟨hid,hnew⟩ := hd.held t id hp
    have hheld : ∀ t' i, (Function.update c.op t p' t').held = some i → t' ≠ t ∧ (c.op t').held = some i := by
      intro t' i hi
      by_cases ht : t' = t
      · subst ht
        rw [hself,hp'] at hi
        cases hi
      · rw [hother t' ht] at hi
        exact ⟨ht,hi⟩
    refine ⟨?_,?_,?_,?_,?_,?_⟩
    · intro t' i hi
      obtain ⟨ht,hi⟩ := hheld t' i hi
      rw [hdrawn,hissued]
      refine ⟨(hd.held t' i hi).1,fun hmem => ?_⟩
      rcases List.mem_append.mp hmem with hmem | hmem
      · exact (hd.held t' i hi).2 hmem
      · obtain rfl := List.mem_singleton.mp hmem
        exact ht (hd.apart t' t i hi hp)
    · exact fun t₁ t₂ i h₁ h₂ => hd.apart t₁ t₂ i (hheld _ _ h₁).2 (hheld _ _ h₂).2
    · rw [hissued]
      exact List.nodup_append.mpr ⟨hd.issued,List.nodup_singleton id,fun a ha b hb hab =>
        hnew (List.mem_singleton.mp hb ▸ hab ▸ ha)⟩
    · rw [hissued,hdrawn]
      refine List.append_subset.mpr ⟨hd.drawn,?_⟩
      exact fun i hi => List.mem_singleton.mp hi ▸ hid
    · intro T k hk
      rw [hissued]
      obtain hk | ⟨-,rfl⟩ := hhas T k hk
      · exact List.mem_append_left _ (hd.filed T k hk)
      · exact List.mem_append_right _ List.mem_cons_self
    · intro T T' k h₁ h₂
      obtain h₁ | ⟨rfl,rfl⟩ := hhas T k h₁
      · obtain h₂ | ⟨-,rfl⟩ := hhas T' k h₂
        · exact hd.exclusive T T' k h₁ h₂
        · exact absurd (hd.filed T _ h₁) hnew
      · obtain h₂ | ⟨rfl,-⟩ := hhas T' _ h₂
        · exact absurd (hd.filed T' _ h₂) hnew
        · rfl

theorem Counted.start : Counted [] (Connections.start : Connections F P W).state := ⟨rfl,rfl⟩

theorem Disciplined.start : Disciplined [] (Connections.start : Connections F P W) := by
  have hempty : ∀ T k, ¬(Connections.start : Connections F P W).state.Has T k := by
    intro T k hk
    cases T <;> exact AList.notMem_empty k hk
  exact ⟨nofun,nofun,List.nodup_nil,List.nil_subset _,fun T k hk => absurd hk (hempty T k),
    fun T _ k hk => absurd hk (hempty T k)⟩

theorem drawn_before {seen : List Note} {o : Note} {n : ℕ} (h : (drawnIds (seen++[o])).length < n) :
    (drawnIds seen).length < n := by
  rw [drawnIds,List.filterMap_append,List.length_append] at h
  exact lt_of_le_of_lt (Nat.le_add_right _ _) h

/-- In a run that draws fewer than 2^64 ids. -/
theorem run_disciplined {as : List (ℕ × Event F P W)} {seen : List Note} {c : Connections F P W}
    (h : (Connections.machine F P W).run .start as = some (c,seen))
    (hfew : (drawnIds seen).length < 2^64) : Disciplined seen c := by
  have hboth := @Machine.run_history _ _ _ (Connections.machine F P W)
    (fun _ seen c => Counted seen c.state ∧ ((drawnIds seen).length < 2^64 → Disciplined seen c)) (by
      intro _ seen c a c' o ⟨hc,hd⟩ hs
      obtain ⟨s',p',rfl,heffect⟩ := Connections.step_effect hs
      refine ⟨heffect.filing.counted hc,fun hfew => ?_⟩
      have hless := drawn_before hfew
      exact (hd hless).step hc hless heffect.filing) [] as [] seen .start c
    ⟨Counted.start,fun _ => Disciplined.start⟩ h
  exact hboth.2 hfew

/-- Under an id `k` nothing has changed, unless a join was removing the entry of one of its worker's
processes. -/
structure Untouched (p : Op F P W) (k : ℕ) (s s' : AgentState F P W) : Prop where
  files : ∀ f, s.files.lookup k = some f → s'.files.lookup k = some f
  processes : ∀ x, s.processes.lookup k = some x → s'.processes.lookup k = some x
  workers : ∀ x, s.workers.lookup k = some x → s'.workers.lookup k = some x
  workerProcesses : ∀ w inner, s.workerProcesses.lookup k = some (w,inner) → p.sweeping ≠ some w →
    s'.workerProcesses.lookup k = some (w,inner)

theorem Untouched.refl (p : Op F P W) (k : ℕ) (s : AgentState F P W) : Untouched p k s s :=
  ⟨fun _ h => h,fun _ h => h,fun _ h => h,fun _ _ h _ => h⟩

theorem ne_of_not_mem {V : Type} {m : Table ℕ V} {k id : ℕ} {v : V} (hk : m.lookup k = some v)
    (hid : id ∉ m) : k ≠ id := by
  rintro rfl
  exact hid (AList.lookup_isSome.mp (Option.isSome_of_eq_some hk))

/-- An access changes nothing but the entry that its operation names, or files a new one. -/
theorem Effect.untouched {s s' : AgentState F P W} {p p' : Op F P W} {o : Note} (h : Effect s p p' s' o)
    (hnew : ∀ id, p.held = some id → ∀ T, ¬s.Has T id) {k : ℕ} (hk : p.named ≠ some k) :
    Untouched p k s s' := by
  have hself := Untouched.refl p k s
  have hne : ∀ {j : ℕ}, p.named = some j → k ≠ j := by
    rintro j hj rfl
    exact hk hj
  cases h with
  | keep | joined w => exact hself
  | draw => exact ⟨hself.files,hself.processes,hself.workers,hself.workerProcesses⟩
  | insertFile id f =>
    refine ⟨fun x hx => ?_,hself.processes,hself.workers,hself.workerProcesses⟩
    exact (AList.lookup_insert_ne (ne_of_not_mem hx (hnew id rfl .files))).trans hx
  | takeFile j =>
    refine ⟨fun x hx => ?_,hself.processes,hself.workers,hself.workerProcesses⟩
    exact (AList.lookup_erase_ne (hne rfl)).trans hx
  | withFileMut j g =>
    refine ⟨fun x hx => ?_,hself.processes,hself.workers,hself.workerProcesses⟩
    exact (Table.lookup_change_ne g s.files (hne rfl)).trans hx
  | insertProcess id c =>
    refine ⟨hself.files,fun x hx => ?_,hself.workers,hself.workerProcesses⟩
    exact (AList.lookup_insert_ne (ne_of_not_mem hx (hnew id rfl .processes))).trans hx
  | takeProcess j =>
    refine ⟨hself.files,fun x hx => ?_,hself.workers,hself.workerProcesses⟩
    exact (AList.lookup_erase_ne (hne rfl)).trans hx
  | withProcessMut j g =>
    refine ⟨hself.files,fun x hx => ?_,hself.workers,hself.workerProcesses⟩
    exact (Table.lookup_change_ne g s.processes (hne rfl)).trans hx
  | insertWorker id c =>
    refine ⟨hself.files,hself.processes,fun x hx => ?_,hself.workerProcesses⟩
    exact (AList.lookup_insert_ne (ne_of_not_mem hx (hnew id rfl .workers))).trans hx
  | removeWorker w =>
    refine ⟨hself.files,hself.processes,fun x hx => ?_,hself.workerProcesses⟩
    exact (AList.lookup_erase_ne (hne rfl)).trans hx
  | sweep w =>
    refine ⟨hself.files,hself.processes,hself.workers,fun v inner hx hv => ?_⟩
    exact Table.lookup_retain.mpr ⟨hx,decide_eq_true fun hvw : v = w => hv (by rw [hvw]; rfl)⟩
  | insertOuter id w inner =>
    refine ⟨hself.files,hself.processes,hself.workers,fun v i hx _ => ?_⟩
    exact (AList.lookup_insert_ne (ne_of_not_mem hx (hnew id rfl .workerProcesses))).trans hx
  | dropOuter outer =>
    refine ⟨hself.files,hself.processes,hself.workers,fun v i hx _ => ?_⟩
    exact (AList.lookup_erase_ne (hne rfl)).trans hx

/-- A join leaves no entry of its worker's processes. -/
theorem Effect.swept {s s' : AgentState F P W} {p p' : Op F P W} {o : Note} (h : Effect s p p' s' o) {w : ℕ}
    (hp : p.sweeping = some w) (k inner : ℕ) : s'.workerProcesses.lookup k ≠ some (w,inner) := by
  cases h with
  | sweep v =>
    cases hp
    intro hk
    exact absurd (Table.lookup_retain.mp hk).2 (by simp)
  | keep _ _ hs | draw _ _ hs =>
    cases p <;> cases hp
    cases hs
  | insertFile | takeFile | withFileMut | insertProcess | takeProcess | withProcessMut | insertWorker
  | removeWorker | joined | insertOuter | dropOuter => cases hp

/-- Handles are issued once and filed in one table, an access changes no entry under another id than the
one its operation names, and a join removes the entries of exactly its worker's processes. -/
theorem handle_discipline {as : List (ℕ × Event F P W)} {seen : List Note} {c : Connections F P W}
    (hrun : (Connections.machine F P W).run .start as = some (c,seen))
    (hfew : (drawnIds seen).length < 2^64) :
    (issuedIds seen).Nodup ∧ (∀ T T' k, c.state.Has T k → c.state.Has T' k → T = T') ∧
      ∀ a c' o, (Connections.machine F P W).step c a = some (c',o) →
        (∀ k, (c.op a.1).named ≠ some k → Untouched (c.op a.1) k c.state c'.state) ∧
          ∀ w, (c.op a.1).sweeping = some w → ∀ k inner,
            c'.state.workerProcesses.lookup k ≠ some (w,inner) := by
  have hd := run_disciplined hrun hfew
  refine ⟨hd.issued,hd.exclusive,?_⟩
  intro a c' o hs
  obtain ⟨s',p',rfl,heffect⟩ := Connections.step_effect hs
  refine ⟨fun k hk => heffect.untouched ?_ hk,fun w hw => heffect.swept hw⟩
  intro id hid T hT
  exact (hd.held a.1 id hid).2 (hd.filed T id hT)

end

/-- A worker is spawned, a process is started in it, and the worker is joined. -/
def joinedRun : List (ℕ × Event Unit Unit Unit) :=
  [(0,.ask .spawnWorker),(0,.conn ()),(0,.go),(0,.ask (.workerRunAsync 1)),(0,.go),(0,.inner 7),(0,.go),
    (0,.go),(1,.ask (.workerJoin 1)),(1,.go),(1,.go),(1,.go)]

theorem handle_discipline_joined : ∃ c seen,
    (Connections.machine Unit Unit Unit).run .start joinedRun = some (c,seen) ∧ issuedIds seen = [1,2] ∧
      (issuedIds seen).Nodup :=
  ⟨_,_,rfl,rfl,(@handle_discipline Unit Unit Unit joinedRun _ _ rfl (by decide)).1⟩

end Provium.Agent
