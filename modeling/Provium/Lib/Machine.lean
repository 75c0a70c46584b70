import Mathlib

/-! Deterministic labelled machines. An action either is not enabled in a state or leads to
one next state with one observation, so the nondeterminism of a system (which thread moves,
what a caller asks for, what the host answers) is carried by the list of actions of a run. -/
namespace Lib

/-- A machine is its step function. -/
structure Machine (S A O : Type*) where
  step : S → A → Option (S × O)

namespace Machine
variable {S A O : Type*} (M : Machine S A O)

/-- Perform the actions in order, collecting the observations. -/
def run : S → List A → Option (S × List O)
  | s, [] => some (s,[])
  | s, a::as => (M.step s a).bind fun q => (run q.1 as).map fun r => (r.1,q.2::r.2)

theorem run_cons {s t : S} {a : A} {as : List A} {os : List O} :
    M.run s (a::as) = some (t,os) ↔
      ∃ s' o os', M.step s a = some (s',o) ∧ M.run s' as = some (t,os') ∧ os = o::os' := by
  constructor
  · intro h
    simp only [run,Option.bind_eq_some_iff,Option.map_eq_some_iff,Prod.mk.injEq] at h
    obtain ⟨⟨s',o⟩,hs,⟨t',os'⟩,hr,rfl,rfl⟩ := h
    exact ⟨s',o,os',hs,hr,rfl⟩
  · rintro ⟨s',o,os',hs,hr,rfl⟩
    simp [run,hs,hr]

/-- A run is built from its first step and the rest. -/
theorem run_of_step {s s' t : S} {a : A} {as : List A} {o : O} {os : List O}
    (hs : M.step s a = some (s',o)) (hr : M.run s' as = some (t,os)) :
    M.run s (a::as) = some (t,o::os) :=
  (run_cons M).mpr ⟨s',o,os,hs,hr,rfl⟩

/-- Runs compose. -/
theorem run_append {s t : S} {as bs : List A} {os : List O} :
    M.run s (as++bs) = some (t,os) ↔
      ∃ m os₁ os₂, M.run s as = some (m,os₁) ∧ M.run m bs = some (t,os₂) ∧ os = os₁++os₂ := by
  induction as generalizing s os with
  | nil =>
    constructor
    · intro h; exact ⟨s,[],os,rfl,h,rfl⟩
    · rintro ⟨m,os₁,os₂,h₁,h₂,rfl⟩; cases h₁; exact h₂
  | cons a as ih =>
    simp only [List.cons_append,run_cons,ih]
    constructor
    · rintro ⟨s',o,os',hs,⟨m,os₁,os₂,h₁,h₂,rfl⟩,rfl⟩
      exact ⟨m,o::os₁,os₂,⟨s',o,os₁,hs,h₁,rfl⟩,h₂,rfl⟩
    · rintro ⟨m,os₁,os₂,⟨s',o,os',hs,h₁,rfl⟩,h₂,rfl⟩
      exact ⟨s',o,os'++os₂,hs,⟨m,os',os₂,h₁,h₂,rfl⟩,rfl⟩

/-- What some run from `s₀` ends in. -/
def Reachable (s₀ s : S) : Prop := ∃ as os, M.run s₀ as = some (s,os)

theorem Reachable.refl (s : S) : M.Reachable s s := ⟨[],[],rfl⟩

theorem Reachable.run {s₀ s t : S} {as : List A} {os : List O} (h : M.Reachable s₀ s)
    (hr : M.run s as = some (t,os)) : M.Reachable s₀ t := by
  obtain ⟨as₀,os₀,hr₀⟩ := h
  exact ⟨as₀++as,os₀++os,(run_append M).mpr ⟨s,os₀,os,hr₀,hr,rfl⟩⟩

/-- The invariant rule: what one step preserves, every run preserves. -/
theorem run_invariant {I : S → Prop}
    (hstep : ∀ s a s' o, I s → M.step s a = some (s',o) → I s')
    {s t : S} {as : List A} {os : List O} (h₀ : I s) (h : M.run s as = some (t,os)) : I t := by
  induction as generalizing s os with
  | nil => cases h; exact h₀
  | cons a as ih =>
    obtain ⟨s',o,os',hs,hr,-⟩ := (run_cons M).mp h
    exact ih (hstep s a s' o h₀ hs) hr

theorem Reachable.invariant {I : S → Prop}
    (hstep : ∀ s a s' o, I s → M.step s a = some (s',o) → I s')
    {s t : S} (h₀ : I s) (h : M.Reachable s t) : I t := by
  obtain ⟨as,os,hr⟩ := h
  exact run_invariant M hstep h₀ hr

/-- The invariant rule with a memory: the property may speak of all actions and observations
so far. -/
theorem run_history {J : List A → List O → S → Prop}
    (hstep : ∀ past seen s a s' o, J past seen s → M.step s a = some (s',o) →
      J (past++[a]) (seen++[o]) s')
    {past as : List A} {seen os : List O} {s t : S} (h₀ : J past seen s)
    (h : M.run s as = some (t,os)) : J (past++as) (seen++os) t := by
  induction as generalizing past seen s os with
  | nil =>
    cases h
    simpa using h₀
  | cons a as ih =>
    obtain ⟨s',o,os',hs,hr,rfl⟩ := (run_cons M).mp h
    have hrest := ih (hstep past seen s a s' o h₀ hs) hr
    simpa using hrest

/-- The same where only the actions matter. -/
theorem run_past {J : List A → S → Prop}
    (hstep : ∀ past s a s' o, J past s → M.step s a = some (s',o) → J (past++[a]) s')
    {past as : List A} {os : List O} {s t : S} (h₀ : J past s) (h : M.run s as = some (t,os)) :
    J (past++as) t :=
  @run_history _ _ _ M (fun past _ s => J past s) (fun past _ => hstep past) past as [] os s t h₀ h

/-- The machine that takes only the steps a discipline allows. -/
def restrict (ok : S → A → Prop) [∀ s a, Decidable (ok s a)] : Machine S A O :=
  ⟨fun s a => if ok s a then M.step s a else none⟩

theorem restrict_step {ok : S → A → Prop} [∀ s a, Decidable (ok s a)] {s s' : S} {a : A} {o : O} :
    (M.restrict ok).step s a = some (s',o) ↔ ok s a ∧ M.step s a = some (s',o) := by
  by_cases h : ok s a <;> simp [restrict,h]

/-- A property holds in every state that these actions lead through, as far as they are enabled. -/
def Along (P : S → Prop) : S → List A → Prop
  | s, [] => P s
  | s, a::as => P s ∧ ∀ q, M.step s a = some q → Along P q.1 as

/-- Every step that these actions take is one that a discipline allows. -/
def Obeys (ok : S → A → Prop) : S → List A → Prop
  | _, [] => True
  | s, a::as => ∀ q, M.step s a = some q → ok s a ∧ Obeys ok q.1 as

theorem Along.head {P : S → Prop} {s : S} {as : List A} (h : M.Along P s as) : P s := by
  cases as with
  | nil => exact h
  | cons a as => exact h.1

/-- The invariant rule under a discipline that need not be decidable. -/
theorem run_obeys {I : S → Prop} {ok : S → A → Prop}
    (hstep : ∀ s a s' o, I s → ok s a → M.step s a = some (s',o) → I s') {s t : S} {as : List A}
    {os : List O} (h₀ : I s) (hok : M.Obeys ok s as) (h : M.run s as = some (t,os)) : I t := by
  induction as generalizing s os with
  | nil =>
    cases h
    exact h₀
  | cons a as ih =>
    obtain ⟨s',o,os',hs,hr,-⟩ := (run_cons M).mp h
    obtain ⟨ha,hrest⟩ := hok (s',o) hs
    exact ih (hstep s a s' o h₀ ha hs) hrest hr

/-- The rule with a memory under a discipline. -/
theorem run_history_obeys {J : List A → List O → S → Prop} {ok : S → A → Prop}
    (hstep : ∀ past seen s a s' o, J past seen s → ok s a → M.step s a = some (s',o) →
      J (past++[a]) (seen++[o]) s')
    {past as : List A} {seen os : List O} {s t : S} (h₀ : J past seen s) (hok : M.Obeys ok s as)
    (h : M.run s as = some (t,os)) : J (past++as) (seen++os) t := by
  induction as generalizing past seen s os with
  | nil =>
    cases h
    simpa using h₀
  | cons a as ih =>
    obtain ⟨s',o,os',hs,hr,rfl⟩ := (run_cons M).mp h
    obtain ⟨ha,hok⟩ := hok (s',o) hs
    have hrest := ih (hstep past seen s a s' o h₀ ha hs) hok hr
    simpa using hrest

theorem Obeys.cons {ok : S → A → Prop} {s : S} {a : A} {as : List A} {q : S × O}
    (hs : M.step s a = some q) (ha : ok s a) (hr : M.Obeys ok q.1 as) : M.Obeys ok s (a::as) := by
  intro q' hq'
  rw [hs] at hq'
  cases hq'
  exact ⟨ha,hr⟩

/-- A discipline that allows these actions in every state is obeyed by them. -/
theorem obeys_of_forall {ok : S → A → Prop} {as : List A} (h : ∀ a ∈ as, ∀ s, ok s a) (s : S) :
    M.Obeys ok s as := by
  induction as generalizing s with
  | nil => trivial
  | cons a as ih =>
    intro q _
    exact ⟨h a List.mem_cons_self s,ih (fun b hb => h b (List.mem_cons_of_mem _ hb)) q.1⟩

/-- Whether a decidable discipline is obeyed can be found out by taking the steps. -/
instance decidableObeys {ok : S → A → Prop} [∀ s a, Decidable (ok s a)] :
    (s : S) → (as : List A) → Decidable (M.Obeys ok s as)
  | _, [] => .isTrue trivial
  | s, a::as =>
    match hstep : M.step s a with
    | none => .isTrue fun q hq => by rw [hstep] at hq; cases hq
    | some q =>
      have : Decidable (M.Obeys ok q.1 as) := decidableObeys q.1 as
      decidable_of_iff (ok s a ∧ M.Obeys ok q.1 as) ⟨fun h => Obeys.cons M hstep h.1 h.2,fun h => h q hstep⟩

/-- Two disciplines that an invariant makes one, where keeping either keeps the invariant, are obeyed
together. -/
theorem obeys_congr {I : S → Prop} {ok ok' : S → A → Prop} (hiff : ∀ s a, I s → (ok s a ↔ ok' s a))
    (hstep : ∀ s a s' o, I s → ok' s a → M.step s a = some (s',o) → I s') {s : S} (h₀ : I s)
    (as : List A) : M.Obeys ok s as ↔ M.Obeys ok' s as := by
  induction as generalizing s with
  | nil => exact Iff.rfl
  | cons a as ih =>
    constructor
    · intro h q hq
      obtain ⟨hok,hrest⟩ := h q hq
      have hok' := (hiff s a h₀).mp hok
      exact ⟨hok',(ih (hstep s a q.1 q.2 h₀ hok' hq)).mp hrest⟩
    · intro h q hq
      obtain ⟨hok',hrest⟩ := h q hq
      exact ⟨(hiff s a h₀).mpr hok',(ih (hstep s a q.1 q.2 h₀ hok' hq)).mpr hrest⟩

/-- The exactness rule: under an invariant that the allowed steps keep and that gives the property,
and where every other step breaks the property at once, the property holds all along exactly when
the discipline is obeyed. -/
theorem along_iff_obeys {I P : S → Prop} {ok : S → A → Prop} (hI : ∀ s, I s → P s)
    (hstep : ∀ s a s' o, I s → ok s a → M.step s a = some (s',o) → I s')
    (hbad : ∀ s a s' o, I s → ¬ok s a → M.step s a = some (s',o) → ¬P s')
    {s : S} (h₀ : I s) (as : List A) : M.Along P s as ↔ M.Obeys ok s as := by
  induction as generalizing s with
  | nil => exact iff_of_true (hI s h₀) trivial
  | cons a as ih =>
    constructor
    · intro h q hq
      by_cases hok : ok s a
      · exact ⟨hok,(ih (hstep s a q.1 q.2 h₀ hok hq)).mp (h.2 q hq)⟩
      · exact absurd (h.2 q hq).head (hbad s a q.1 q.2 h₀ hok hq)
    · intro h
      refine ⟨hI s h₀,?_⟩
      intro q hq
      obtain ⟨hok,hrest⟩ := h q hq
      exact (ih (hstep s a q.1 q.2 h₀ hok hq)).mpr hrest

variable {T P : Type*} (N : Machine T A P)

/-- The simulation rule: an invariant under which each step of `M` is, through `abs` on states
and `obs` on observations, the step of `N`, makes every run of `M` the run of `N`. -/
theorem run_simulation (abs : S → T) (obs : O → P) {I : S → Prop}
    (hstep : ∀ s a s' o, I s → M.step s a = some (s',o) →
      I s' ∧ N.step (abs s) a = some (abs s',obs o))
    {s t : S} {as : List A} {os : List O} (h₀ : I s) (h : M.run s as = some (t,os)) :
    I t ∧ N.run (abs s) as = some (abs t,os.map obs) := by
  induction as generalizing s os with
  | nil => cases h; exact ⟨h₀,rfl⟩
  | cons a as ih =>
    obtain ⟨s',o,os',hs,hr,rfl⟩ := (run_cons M).mp h
    obtain ⟨hi,hn⟩ := hstep s a s' o h₀ hs
    obtain ⟨ht,hn'⟩ := ih hi hr
    exact ⟨ht,(run_cons N).mpr ⟨abs s',obs o,os'.map obs,hn,hn',rfl⟩⟩

/-- The refinement rule for machines that never refuse an action: every list of actions is a run,
and it is the run of `N`. -/
theorem run_refines (abs : S → T) (obs : O → P) {I : S → Prop}
    (hstep : ∀ s a, I s → ∃ s' o, M.step s a = some (s',o) ∧ I s' ∧
      N.step (abs s) a = some (abs s',obs o))
    {s : S} (h₀ : I s) (as : List A) :
    ∃ t os, M.run s as = some (t,os) ∧ I t ∧ N.run (abs s) as = some (abs t,os.map obs) := by
  induction as generalizing s with
  | nil => exact ⟨s,[],rfl,h₀,rfl⟩
  | cons a as ih =>
    obtain ⟨s',o,hs,hi,hn⟩ := hstep s a h₀
    obtain ⟨t,os,hr,ht,hn'⟩ := ih hi
    exact ⟨t,o::os,run_of_step M hs hr,ht,run_of_step N hn hn'⟩

end Machine
end Lib
