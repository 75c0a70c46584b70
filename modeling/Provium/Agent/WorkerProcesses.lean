import Provium.Agent.Handles

/-! The processes that workers have spawned. A join takes its worker out of the table and then removes its
processes; one that is filed after that has no worker any more. -/
namespace Provium.Agent
open Lib

section
variable {F P W : Type}

/-- A worker is in its table, or a join that has taken it out is still to remove its processes. -/
def Connections.Known (c : Connections F P W) (w : ℕ) : Prop :=
  w ∈ c.state.workers ∨ ∃ t, (c.op t).sweeping = some w

/-- A process that a worker has spawned is filed while the worker is known. -/
def Connections.FilesKnown (c : Connections F P W) (a : ℕ × Event F P W) : Prop :=
  match c.op a.1 with
  | .insertOuter _ w _ => c.Known w
  | _ => True

/-- No operation is in progress. -/
def Connections.Quiet (c : Connections F P W) : Prop := ∀ t, c.op t = .idle

/-- What becomes of a worker in a step. -/
theorem Effect.workers {s s' : AgentState F P W} {p p' : Op F P W} {o : Note} (h : Effect s p p' s' o)
    {w : ℕ} (hw : w ∈ s.workers) : w ∈ s'.workers ∨ p'.sweeping = some w := by
  cases h with
  | insertWorker id c => exact .inl ((AList.mem_insert _).mpr (.inr hw))
  | removeWorker v =>
    by_cases hv : w = v
    · exact .inr (by rw [hv]; rfl)
    · exact .inl (AList.mem_erase.mpr ⟨hv,hw⟩)
  | keep | draw | insertFile | takeFile | withFileMut | insertProcess | takeProcess | withProcessMut | sweep
  | joined | insertOuter | dropOuter => exact .inl hw

/-- Where an entry of a worker's process comes from. -/
theorem Effect.entries {s s' : AgentState F P W} {p p' : Op F P W} {o : Note} (h : Effect s p p' s' o)
    {k w inner : ℕ} (hk : s'.workerProcesses.lookup k = some (w,inner)) :
    s.workerProcesses.lookup k = some (w,inner) ∧ p.sweeping ≠ some w ∨ p = .insertOuter k w inner := by
  have hswept := fun hp => h.swept hp k inner hk
  cases h with
  | sweep v => exact .inl ⟨(Table.lookup_retain.mp hk).1,hswept⟩
  | insertOuter id v i =>
    obtain ⟨rfl,he⟩ | hk := Table.lookup_insert_cases hk
    · cases he
      exact .inr rfl
    · exact .inl ⟨hk,hswept⟩
  | dropOuter outer => exact .inl ⟨Table.lookup_of_erase hk,hswept⟩
  | keep | draw | insertFile | takeFile | withFileMut | insertProcess | takeProcess | withProcessMut
  | insertWorker | removeWorker | joined => exact .inl ⟨hk,hswept⟩

/-- A worker stays known until a join has removed its processes. -/
theorem Connections.Known.step {c : Connections F P W} {t : ℕ} {s' : AgentState F P W} {p' : Op F P W}
    {o : Note} {w : ℕ} (hknown : c.Known w) (h : Effect c.state (c.op t) p' s' o)
    (hsweep : (c.op t).sweeping ≠ some w) : Connections.Known ⟨s',Function.update c.op t p'⟩ w := by
  obtain hw | ⟨t',ht'⟩ := hknown
  · obtain hw | hp' := h.workers hw
    · exact .inl hw
    · refine .inr ⟨t,?_⟩
      change (Function.update c.op t p' t).sweeping = _
      rwa [Function.update_self]
  · have hne : t' ≠ t := by
      rintro rfl
      exact hsweep ht'
    refine .inr ⟨t',?_⟩
    change (Function.update c.op t p' t').sweeping = _
    rwa [Function.update_of_ne hne]

/-- Every process of a worker is one of a worker that is known. -/
def Connections.Attached (c : Connections F P W) : Prop :=
  ∀ k w inner, c.state.workerProcesses.lookup k = some (w,inner) → c.Known w

theorem Connections.Attached.step {c c' : Connections F P W} {a : ℕ × Event F P W} {o : Note}
    (h : c.Attached) (hfiles : c.FilesKnown a) (hs : (machine F P W).step c a = some (c',o)) :
    c'.Attached := by
  obtain ⟨s',p',rfl,heffect⟩ := step_effect hs
  intro k w inner hk
  obtain ⟨hk,hsweep⟩ | hp := heffect.entries hk
  · exact (h k w inner hk).step heffect hsweep
  · unfold FilesKnown at hfiles
    rw [hp] at hfiles
    refine Known.step hfiles heffect ?_
    rw [hp]
    exact nofun

/-- What a step means for the joins. -/
inductive Joining (s : AgentState F P W) (p p' : Op F P W) (s' : AgentState F P W) : Note → Prop
  | other {o : Note} (hp : p.joining = none) (hp' : p'.joining = none) (ho : ∀ w, o ≠ .joined w)
      (hnew : ∀ w, w ∈ s'.workers → w ∈ s.workers ∨ p.held = some w) : Joining s p p' s' o
  | removed (w : ℕ) (hp : p.joining = none) (hp' : p'.joining = some w) (hw : w ∈ s.workers)
      (hleft : ∀ v, v ∈ s'.workers → v ≠ w ∧ v ∈ s.workers) : Joining s p p' s' .quiet
  | swept (w : ℕ) (hp : p.joining = some w) (hp' : p'.joining = some w) (hsame : s'.workers = s.workers) :
      Joining s p p' s' .quiet
  | ended (w : ℕ) (hp : p.joining = some w) (hp' : p'.joining = none) (hsame : s'.workers = s.workers) :
      Joining s p p' s' (.joined w)

theorem Effect.joins {s s' : AgentState F P W} {p p' : Op F P W} {o : Note} (h : Effect s p p' s' o) :
    Joining s p p' s' o := by
  cases h with
  | keep _ _ hs hs' | draw _ _ hs hs' => exact .other hs hs' nofun fun _ hw => .inl hw
  | withFileMut _ _ _ hs' | withProcessMut _ _ _ hs' => exact .other rfl hs' nofun fun _ hw => .inl hw
  | insertFile | takeFile | insertProcess | takeProcess | insertOuter | dropOuter =>
    exact .other rfl rfl nofun fun _ hw => .inl hw
  | insertWorker id c =>
    exact .other rfl rfl nofun fun w hw => ((AList.mem_insert _).mp hw).symm.imp_right fun h => by rw [h]; rfl
  | removeWorker w hw => exact .removed w rfl rfl hw fun v hv => AList.mem_erase.mp hv
  | sweep w => exact .swept w rfl rfl rfl
  | joined w => exact .ended w rfl rfl rfl

/-- A worker that is being joined or has been joined was issued and has left its table; one connection
joins it, and once. -/
structure Joins (seen : List Note) (c : Connections F P W) : Prop where
  gone : ∀ w, (∃ t, (c.op t).joining = some w) ∨ .joined w ∈ seen →
    w ∈ issuedIds seen ∧ w ∉ c.state.workers
  one : ∀ t t' w, (c.op t).joining = some w → (c.op t').joining = some w → t = t'
  done : ∀ w t, .joined w ∈ seen → (c.op t).joining ≠ some w

theorem issuedIds_append (seen : List Note) (o : Note) : issuedIds seen ⊆ issuedIds (seen++[o]) := by
  unfold issuedIds
  rw [List.filterMap_append]
  exact List.subset_append_left _ _

theorem Joins.step {seen : List Note} {c : Connections F P W} {t : ℕ} {s' : AgentState F P W}
    {p' : Op F P W} {o : Note} (hj : Joins seen c) (hd : Disciplined seen c)
    (h : Joining c.state (c.op t) p' s' o) : Joins (seen++[o]) ⟨s',Function.update c.op t p'⟩ := by
  have hsub := issuedIds_append seen o
  have hcases : ∀ t' w, (Function.update c.op t p' t').joining = some w →
      t' = t ∧ p'.joining = some w ∨ t' ≠ t ∧ (c.op t').joining = some w := by
    intro t' w hw
    by_cases ht : t' = t
    · subst ht
      rw [Function.update_self] at hw
      exact .inl ⟨rfl,hw⟩
    · rw [Function.update_of_ne ht] at hw
      exact .inr ⟨ht,hw⟩
  cases h with
  | other hp hp' ho hnew =>
    have hold : ∀ t' w, (Function.update c.op t p' t').joining = some w → (c.op t').joining = some w := by
      intro t' w hw
      obtain ⟨-,hw⟩ | ⟨-,hw⟩ := hcases t' w hw
      · rw [hp'] at hw
        cases hw
      · exact hw
    have hseen : ∀ w, .joined w ∈ seen++[o] → .joined w ∈ seen := by
      intro w hw
      rcases List.mem_append.mp hw with hw | hw
      · exact hw
      · exact absurd (List.mem_singleton.mp hw).symm (ho w)
    refine ⟨?_,fun t₁ t₂ w h₁ h₂ => hj.one t₁ t₂ w (hold _ _ h₁) (hold _ _ h₂),
      fun w t' hw hjoin => hj.done w t' (hseen w hw) (hold _ _ hjoin)⟩
    intro w hw
    obtain ⟨hissued,hout⟩ := hj.gone w (hw.imp (fun ⟨t',ht'⟩ => ⟨t',hold t' w ht'⟩) (hseen w))
    refine ⟨hsub hissued,fun hin => ?_⟩
    obtain hin | hheld := hnew w hin
    · exact hout hin
    · exact (hd.held t w hheld).2 hissued
  | removed v hp hp' hv hleft =>
    have hfresh : ¬((∃ t, (c.op t).joining = some v) ∨ .joined v ∈ seen) := fun h => (hj.gone v h).2 hv
    have hseen : ∀ w, .joined w ∈ seen++[Note.quiet] → .joined w ∈ seen := by
      intro w hw
      rcases List.mem_append.mp hw with hw | hw
      · exact hw
      · cases List.mem_singleton.mp hw
    refine ⟨?_,?_,?_⟩
    · intro w hw
      by_cases hwv : w = v
      · subst hwv
        exact ⟨hsub (hd.filed .workers w hv),fun hin => (hleft w hin).1 rfl⟩
      · have hold : (∃ t, (c.op t).joining = some w) ∨ .joined w ∈ seen := by
          refine hw.imp (fun ⟨t',ht'⟩ => ?_) (hseen w)
          obtain ⟨-,ht'⟩ | ⟨-,ht'⟩ := hcases t' w ht'
          · rw [hp'] at ht'
            exact absurd (Option.some.inj ht').symm hwv
          · exact ⟨t',ht'⟩
        exact ⟨hsub (hj.gone w hold).1,fun hin => (hj.gone w hold).2 (hleft w hin).2⟩
    · intro t₁ t₂ w h₁ h₂
      obtain ⟨ht₁,hw₁⟩ | ⟨-,hold₁⟩ := hcases t₁ w h₁
      · obtain ⟨ht₂,-⟩ | ⟨-,hold₂⟩ := hcases t₂ w h₂
        · rw [ht₁,ht₂]
        · obtain rfl : v = w := Option.some.inj (hp'.symm.trans hw₁)
          exact absurd (.inl ⟨t₂,hold₂⟩) hfresh
      · obtain ⟨-,hw₂⟩ | ⟨-,hold₂⟩ := hcases t₂ w h₂
        · obtain rfl : v = w := Option.some.inj (hp'.symm.trans hw₂)
          exact absurd (.inl ⟨t₁,hold₁⟩) hfresh
        · exact hj.one t₁ t₂ w hold₁ hold₂
    · intro w t' hw hjoin
      obtain ⟨-,hw'⟩ | ⟨-,hjoin⟩ := hcases t' w hjoin
      · rw [hp'] at hw'
        cases hw'
        exact hfresh (.inr (hseen _ hw))
      · exact hj.done w t' (hseen w hw) hjoin
  | swept v hp hp' hsame =>
    have hold : ∀ t' w, (Function.update c.op t p' t').joining = some w → (c.op t').joining = some w := by
      intro t' w hw
      obtain ⟨rfl,hw'⟩ | ⟨-,hw'⟩ := hcases t' w hw
      · exact hp.trans (hp'.symm.trans hw')
      · exact hw'
    have hseen : ∀ w, .joined w ∈ seen++[Note.quiet] → .joined w ∈ seen := by
      intro w hw
      rcases List.mem_append.mp hw with hw | hw
      · exact hw
      · cases List.mem_singleton.mp hw
    refine ⟨?_,fun t₁ t₂ w h₁ h₂ => hj.one t₁ t₂ w (hold _ _ h₁) (hold _ _ h₂),
      fun w t' hw hjoin => hj.done w t' (hseen w hw) (hold _ _ hjoin)⟩
    intro w hw
    obtain ⟨hissued,hout⟩ := hj.gone w (hw.imp (fun ⟨t',ht'⟩ => ⟨t',hold t' w ht'⟩) (hseen w))
    exact ⟨hsub hissued,by rw [hsame]; exact hout⟩
  | ended v hp hp' hsame =>
    have hold : ∀ t' w, (Function.update c.op t p' t').joining = some w → t' ≠ t ∧ (c.op t').joining = some w := by
      intro t' w hw
      obtain ⟨-,hw⟩ | hw := hcases t' w hw
      · rw [hp'] at hw
        cases hw
      · exact hw
    have hseen : ∀ w, .joined w ∈ seen++[Note.joined v] → .joined w ∈ seen ∨ w = v := by
      intro w hw
      rcases List.mem_append.mp hw with hw | hw
      · exact .inl hw
      · cases List.mem_singleton.mp hw
        exact .inr rfl
    refine ⟨?_,fun t₁ t₂ w h₁ h₂ => hj.one t₁ t₂ w (hold _ _ h₁).2 (hold _ _ h₂).2,?_⟩
    · intro w hw
      have hbefore : (∃ t, (c.op t).joining = some w) ∨ .joined w ∈ seen := by
        rcases hw with ⟨t',ht'⟩ | hw
        · exact .inl ⟨t',(hold t' w ht').2⟩
        · rcases hseen w hw with hw | rfl
          · exact .inr hw
          · exact .inl ⟨t,hp⟩
      exact ⟨hsub (hj.gone w hbefore).1,by rw [hsame]; exact (hj.gone w hbefore).2⟩
    · intro w t' hw hjoin
      obtain ⟨hne,hjoin⟩ := hold t' w hjoin
      rcases hseen w hw with hw | rfl
      · exact hj.done w t' hw hjoin
      · exact hne (hj.one t' t w hjoin hp)

theorem run_joins {as : List (ℕ × Event F P W)} {seen : List Note} {c : Connections F P W}
    (h : (Connections.machine F P W).run .start as = some (c,seen))
    (hfew : (drawnIds seen).length < 2^64) : Joins seen c := by
  have hboth := @Machine.run_history _ _ _ (Connections.machine F P W)
    (fun _ seen c => Counted seen c.state ∧
      ((drawnIds seen).length < 2^64 → Disciplined seen c ∧ Joins seen c)) (by
      intro _ seen c a c' o ⟨hc,hd⟩ hs
      obtain ⟨s',p',rfl,heffect⟩ := Connections.step_effect hs
      refine ⟨heffect.filing.counted hc,fun hfew => ?_⟩
      have hless := drawn_before hfew
      exact ⟨(hd hless).1.step hc hless heffect.filing,(hd hless).2.step (hd hless).1 heffect.joins⟩)
    [] as [] seen .start c ⟨Counted.start,fun _ => ⟨Disciplined.start,nofun,nofun,nofun⟩⟩ h
  exact (hboth.2 hfew).2

/-- In a run that files processes only under workers that are known, every process of a worker is one of a
worker in the table whenever no operation is in progress, and one that has been joined has no process. -/
theorem no_dangling {as : List (ℕ × Event F P W)} {seen : List Note} {c : Connections F P W}
    (hok : (Connections.machine F P W).Obeys Connections.FilesKnown .start as)
    (hrun : (Connections.machine F P W).run .start as = some (c,seen)) :
    (c.Quiet → ∀ k w inner, c.state.workerProcesses.lookup k = some (w,inner) → w ∈ c.state.workers) ∧
      ((drawnIds seen).length < 2^64 → ∀ w, .joined w ∈ seen → ∀ k inner,
        c.state.workerProcesses.lookup k ≠ some (w,inner)) := by
  have hattached : c.Attached := Machine.run_obeys (Connections.machine F P W)
    (fun _ _ _ _ h hf hs => h.step hf hs) (fun k w inner hk => by cases hk) hok hrun
  refine ⟨fun hquiet k w inner hk => ?_,fun hfew w hw k inner hk => ?_⟩
  · obtain hw | ⟨t,ht⟩ := hattached k w inner hk
    · exact hw
    · rw [hquiet t] at ht
      cases ht
  · have hj := run_joins hrun hfew
    obtain hin | ⟨t,ht⟩ := hattached k w inner hk
    · exact (hj.gone w (.inr hw)).2 hin
    · have hjoin : (c.op t).joining = some w := by
        cases hop : c.op t <;> rw [hop] at ht <;> cases ht
        rfl
      exact hj.done w t hw hjoin

end

/-- A worker is joined after a process has been started in it. -/
theorem no_dangling_joined : ∃ c seen,
    (Connections.machine Unit Unit Unit).run .start joinedRun = some (c,seen) ∧ .joined 1 ∈ seen ∧
      ∀ k inner, c.state.workerProcesses.lookup k ≠ some (1,inner) := by
  have hok : (Connections.machine Unit Unit Unit).Obeys Connections.FilesKnown .start joinedRun := by
    refine .cons _ rfl trivial (.cons _ rfl trivial (.cons _ rfl trivial (.cons _ rfl trivial ?_)))
    refine .cons _ rfl trivial (.cons _ rfl trivial (.cons _ rfl trivial (.cons _ rfl (.inl ?_) ?_)))
    · decide
    · exact .cons _ rfl trivial (.cons _ rfl trivial (.cons _ rfl trivial (.cons _ rfl trivial trivial)))
  exact ⟨_,_,rfl,by decide,(no_dangling hok rfl).2 (by decide) 1 (by decide)⟩

/-- The worker is joined while a process is being started in it: when all is over the process is still
filed, under a worker that is not there. -/
def lateFiling : List (ℕ × Event Unit Unit Unit) :=
  [(0,.ask .spawnWorker),(0,.conn ()),(0,.go),(0,.ask (.workerRunAsync 1)),(0,.go),
    (1,.ask (.workerJoin 1)),(1,.go),(1,.go),(0,.inner 7),(0,.go),(0,.go),(1,.go)]

theorem late_filing_dangles :
    (∃ c seen, (Connections.machine Unit Unit Unit).run .start lateFiling = some (c,seen) ∧ c.Quiet ∧
      .joined 1 ∈ seen ∧ c.state.workerProcesses.lookup 2 = some (1,7) ∧ 1 ∉ c.state.workers) ∧
    ¬∀ as (c : Connections Unit Unit Unit) seen,
      (Connections.machine Unit Unit Unit).run .start as = some (c,seen) → c.Quiet →
        ∀ k w inner, c.state.workerProcesses.lookup k = some (w,inner) → w ∈ c.state.workers := by
  have hquiet : ∀ c seen, (Connections.machine Unit Unit Unit).run .start lateFiling = some (c,seen) →
      c.Quiet := by
    intro c seen h t
    cases h
    rcases t with _ | _ | t
    · rfl
    · rfl
    · rfl
  refine ⟨⟨_,_,rfl,hquiet _ _ rfl,by decide,by decide,by decide⟩,?_⟩
  intro h
  exact absurd (h lateFiling _ _ rfl (hquiet _ _ rfl) 2 1 7 (by decide)) (by decide)

end Provium.Agent
