import Provium.Lib.Machine

/-! `--watch`, `watch_loop` of `bin/provium.rs`: the modification times are looked at one by one and remembered
after a run, while files are edited, created and deleted at any moment. -/
namespace Provium.Cli
open Lib

/-- What the loop asks of the file system: the test files that are there, as often as the roots lead to them,
and the order in which times are remembered. -/
structure Scan (α : Type) where
  discover : (α → Option ℕ) → List α
  mem_discover : ∀ world p, p ∈ discover world ↔ (world p).isSome
  le : α × ℕ → α × ℕ → Bool

inductive WatchPhase (α : Type) where
  | top
  /-- The times of the discovered files are being looked at. -/
  | now (pending : List α) (acc : List (α × ℕ))
  | starting
  /-- The run has discovered its files, and has not yet read these. -/
  | running (pending : List α)
  /-- After the run, and before the first tick: the times to remember are being looked at. -/
  | post (pending : List α) (acc : List (α × ℕ))

/-- `watch_loop` and the modification times of the files that are there. Of each path it is known besides whether
a run has looked at it, and whether it was edited since the last run that did. -/
structure Watch (α : Type) where
  world : α → Option ℕ
  last : List (α × ℕ)
  phase : WatchPhase α
  read : α → Bool
  edited : α → Bool

inductive WatchAction (α : Type) where
  /-- A file is written, created or deleted. -/
  | edit (p : α) (v : Option ℕ)
  | tick
  | stat
  | compare
  /-- The run discovers its files, and finds that the others are not there. -/
  | begin
  /-- The run ends in an error before its discovery: in the config or the preflight. -/
  | fail
  | read (p : α)
  /-- The run is over, whatever it has read. -/
  | finish
  | record

/-- The step of `mtimes_of` for one path. -/
def mtimeOf {α : Type} (world : α → Option ℕ) (p : α) : List (α × ℕ) :=
  match world p with
  | some t => [(p,t)]
  | none => []

section Loop
variable {α : Type} [DecidableEq α] (W : Scan α)

/-- `mtimes_of` of what is discovered, of a world that stands still. -/
def mtimesOf (world : α → Option ℕ) : List (α × ℕ) := 
  ((W.discover world).flatMap (mtimeOf world)).insertionSort fun a b => W.le a b

namespace Watch

def edit (s : Watch α) (p : α) (v : Option ℕ) : Watch α :=
  { s with
    world := Function.update s.world p v
    edited := Function.update s.edited p (s.edited p || s.read p) }

def step (s : Watch α) : WatchAction α → Option (Watch α × Unit)
  | .edit p v => if s.world p = v then none else some (s.edit p v,())
  | .tick => match s.phase with
    | .top => some ({ s with phase := .now (W.discover s.world) [] },())
    | _ => none
  | .stat => match s.phase with
    | .now (p::pending) acc => some ({ s with phase := .now pending (acc++mtimeOf s.world p) },())
    | .post (p::pending) acc => some ({ s with phase := .post pending (acc++mtimeOf s.world p) },())
    | _ => none
  | .compare => match s.phase with
    | .now [] acc => some ({ s with phase := if acc.insertionSort (fun a b => W.le a b) = s.last then .top
      else .starting },())
    | _ => none
  | .begin => match s.phase with
    | .starting => some ({ s with
        phase := .running (W.discover s.world)
        read := fun p => s.read p || (s.world p).isNone
        edited := fun p => s.edited p && (s.world p).isSome },())
    | _ => none
  | .fail => match s.phase with
    | .starting => some ({ s with phase := .post (W.discover s.world) [] },())
    | _ => none
  | .read p => match s.phase with
    | .running pending => if p ∈ pending then some ({ s with
        phase := .running (pending.erase p)
        read := Function.update s.read p true
        edited := Function.update s.edited p false },()) else none
    | _ => none
  | .finish => match s.phase with
    | .running _ => some ({ s with phase := .post (W.discover s.world) [] },())
    | _ => none
  | .record => match s.phase with
    | .post [] acc => some ({ s with last := acc.insertionSort fun a b => W.le a b, phase := .top },())
    | _ => none

/-- The loop is entered with the paths that were discovered before, and no run has looked at any file. -/
def start (world : α → Option ℕ) (initialPaths : List α) : Watch α :=
  ⟨world,[],.post initialPaths [],fun _ => false,fun _ => false⟩

end Watch

def watchMachine : Machine (Watch α) (WatchAction α) Unit := ⟨Watch.step W⟩

/-- Where a file was edited after the last run that looked at it, what is remembered is not what is there, and a
tick without edits starts a run. -/
def Watch.Detects (s : Watch α) : Prop :=
  ∀ p, s.edited p → s.last ≠ mtimesOf W s.world ∧
    (watchMachine W).run s (.tick::(List.replicate (W.discover s.world).length .stat++[.compare])) =
      some ({ s with phase := .starting },List.replicate ((W.discover s.world).length+2) ())

/-- A list of times shows this time of a path, or shows that there is none. -/
def Shown (times : List (α × ℕ)) (p : α) (v : Option ℕ) : Prop := ∀ t, (p,t) ∈ times ↔ v = some t

/-- No edit of a file that was read goes unread into the times that are remembered, and none gives it the time
that is remembered of it. -/
def Watch.Spares (s : Watch α) : WatchAction α → Prop
  | .edit p v => s.read p → match s.phase with
    | .top | .now _ _ => ¬Shown s.last p v
    | .starting | .running _ => True
    | .post pending acc => p ∉ pending ∧ ¬Shown acc p v
  | .fail | .finish => ∀ p, ¬s.edited p
  | _ => True

/-! ## What is remembered -/

/-- What the times that are remembered, or are going to be, do not show of edited files. -/
def WatchPhase.Unshown (last : List (α × ℕ)) (edited : α → Bool) (world : α → Option ℕ) : WatchPhase α → Prop
  | .top | .now _ _ => ∀ p, edited p → ¬Shown last p (world p)
  | .starting | .running _ => True
  | .post pending acc => ∀ p, edited p → p ∉ pending ∧ ¬Shown acc p (world p)

/-- What holds of the edits that no run has seen. -/
structure Watch.Inv (s : Watch α) : Prop where
  read : ∀ p, s.edited p → s.read p
  unshown : s.phase.Unshown s.last s.edited s.world

variable {W}

section Times
omit [DecidableEq α]

theorem mem_mtimeOf {world : α → Option ℕ} {p q : α} {t : ℕ} :
    (q,t) ∈ mtimeOf world p ↔ q = p ∧ world p = some t := by
  unfold mtimeOf
  split
  · next t' h => simp [h,eq_comm]
  · next h => simp [h]

theorem shown_mtimesOf (world : α → Option ℕ) (p : α) : Shown (mtimesOf W world) p (world p) := by
  intro t
  simp only [mtimesOf,List.mem_insertionSort,List.mem_flatMap,mem_mtimeOf]
  constructor
  · rintro ⟨q,-,rfl,h⟩
    exact h
  · intro h
    exact ⟨p,(W.mem_discover world p).mpr (by simp [h]),rfl,h⟩

/-- A look at another file shows nothing of this one. -/
theorem shown_append_mtimeOf {acc : List (α × ℕ)} {world : α → Option ℕ} {p q : α} (h : q ≠ p) (v : Option ℕ) :
    Shown (acc++mtimeOf world p) q v ↔ Shown acc q v := by
  simp [Shown,mem_mtimeOf,h]

theorem shown_insertionSort {acc : List (α × ℕ)} {p : α} {v : Option ℕ} :
    Shown (acc.insertionSort fun a b => W.le a b) p v ↔ Shown acc p v := by
  simp [Shown]

end Times

theorem Watch.Inv.edit {s : Watch α} (h : s.Inv) {p : α} {v : Option ℕ} (hs : s.Spares (.edit p v)) :
    (s.edit p v).Inv := by
  -- the path itself was read, so that the discipline speaks of it, and the others are as before
  have hedited : ∀ q, (s.edit p v).edited q → (q = p ∧ s.read p) ∨ (q ≠ p ∧ s.edited q) := by
    intro q hq
    by_cases hqp : q = p
    · subst hqp
      simp only [Watch.edit,Function.update_self,Bool.or_eq_true] at hq
      exact .inl ⟨rfl,hq.elim (h.read q) id⟩
    · simp only [Watch.edit,Function.update_of_ne hqp] at hq
      exact .inr ⟨hqp,hq⟩
  have hworld : ∀ q, (s.edit p v).world q = if q = p then v else s.world q := by
    intro q
    simp [Watch.edit,Function.update_apply]
  have hread : ∀ q, (s.edit p v).edited q → (s.edit p v).read q := by
    intro q hq
    obtain ⟨rfl,hr⟩ | ⟨-,hq⟩ := hedited q hq
    · exact hr
    · exact h.read q hq
  have hunshown := h.unshown
  unfold Watch.Spares at hs
  refine ⟨hread,?_⟩
  change s.phase.Unshown s.last (s.edit p v).edited (s.edit p v).world
  cases hphase : s.phase with
  | top | now pending acc =>
    simp only [hphase] at hs
    rw [hphase] at hunshown
    intro q hq
    rw [hworld]
    obtain ⟨rfl,hr⟩ | ⟨hne,hq⟩ := hedited q hq
    · rw [if_pos rfl]
      exact hs hr
    · rw [if_neg hne]
      exact hunshown q hq
  | starting | running pending => trivial
  | post pending acc =>
    simp only [hphase] at hs
    rw [hphase] at hunshown
    intro q hq
    rw [hworld]
    obtain ⟨rfl,hr⟩ | ⟨hne,hq⟩ := hedited q hq
    · rw [if_pos rfl]
      exact hs hr
    · rw [if_neg hne]
      exact hunshown q hq

/-- Every step keeps the invariant. -/
theorem Watch.Inv.step {s s' : Watch α} {a : WatchAction α} {o : Unit} (h : s.Inv) (hs : s.Spares a)
    (hstep : (watchMachine W).step s a = some (s',o)) : s'.Inv := by
  have hread := h.read
  have hunshown := h.unshown
  change s.step W a = some (s',o) at hstep
  cases a with
  | edit p v =>
    simp only [Watch.step] at hstep
    split at hstep
    · cases hstep
    · cases hstep
      exact h.edit hs
  | tick =>
    simp only [Watch.step] at hstep
    split at hstep
    · next hphase =>
      cases hstep
      rw [hphase] at hunshown
      exact ⟨hread,hunshown⟩
    · cases hstep
  | stat =>
    simp only [Watch.step] at hstep
    split at hstep
    · next p pending acc hphase =>
      cases hstep
      rw [hphase] at hunshown
      exact ⟨hread,hunshown⟩
    · next p pending acc hphase =>
      cases hstep
      rw [hphase] at hunshown
      refine ⟨hread,fun q hq => ?_⟩
      obtain ⟨hnot,hq⟩ := hunshown q hq
      rw [List.mem_cons,not_or] at hnot
      exact ⟨hnot.2,fun hs => hq ((shown_append_mtimeOf hnot.1 _).mp hs)⟩
    · cases hstep
  | compare =>
    simp only [Watch.step] at hstep
    split at hstep
    · next acc hphase =>
      cases hstep
      rw [hphase] at hunshown
      refine ⟨hread,?_⟩
      simp only
      split
      · exact hunshown
      · trivial
    · cases hstep
  | begin =>
    simp only [Watch.step] at hstep
    split at hstep
    · cases hstep
      refine ⟨fun p hp => ?_,trivial⟩
      simp only [Bool.and_eq_true] at hp
      simp only [Bool.or_eq_true]
      exact .inl (hread p hp.1)
    · cases hstep
  | fail =>
    simp only [Watch.step] at hstep
    split at hstep
    · cases hstep
      exact ⟨hread,fun p hp => absurd hp (hs p)⟩
    · cases hstep
  | read p =>
    simp only [Watch.step] at hstep
    split at hstep
    · split at hstep
      · cases hstep
        refine ⟨fun q hq => ?_,trivial⟩
        by_cases hqp : q = p
        · subst hqp
          simp
        · simp only [Function.update_of_ne hqp] at hq ⊢
          exact hread q hq
      · cases hstep
    · cases hstep
  | finish =>
    simp only [Watch.step] at hstep
    split at hstep
    · cases hstep
      exact ⟨hread,fun p hp => absurd hp (hs p)⟩
    · cases hstep
  | record =>
    simp only [Watch.step] at hstep
    split at hstep
    · next acc hphase =>
      cases hstep
      rw [hphase] at hunshown
      exact ⟨hread,fun p hp hs => (hunshown p hp).2 (shown_insertionSort.mp hs)⟩
    · cases hstep

/-! ## What is detected -/

/-- The looks of a tick without edits. -/
theorem run_stats (s : Watch α) (pending : List α) (acc : List (α × ℕ)) (h : s.phase = .now pending acc) :
    (watchMachine W).run s (List.replicate pending.length .stat) =
      some ({ s with phase := .now [] (acc++pending.flatMap (mtimeOf s.world)) },
        List.replicate pending.length ()) := by
  induction pending generalizing s acc with
  | nil =>
    rw [List.flatMap_nil,List.append_nil,← h]
    rfl
  | cons p pending ih =>
    have hstep : (watchMachine W).step s .stat =
        some ({ s with phase := .now pending (acc++mtimeOf s.world p) },()) := by
      change s.step W .stat = _
      simp only [Watch.step,h]
    have hnext := ih { s with phase := .now pending (acc++mtimeOf s.world p) } (acc++mtimeOf s.world p) rfl
    rw [List.append_assoc] at hnext
    exact Machine.run_of_step _ hstep hnext

/-- A tick without edits starts a run if the times are not those that are remembered. -/
theorem run_tick {s : Watch α} (htop : s.phase = .top) (hlast : s.last ≠ mtimesOf W s.world) :
    (watchMachine W).run s (.tick::(List.replicate (W.discover s.world).length .stat++[.compare])) =
      some ({ s with phase := .starting },List.replicate ((W.discover s.world).length+2) ()) := by
  have htick : (watchMachine W).step s .tick = some ({ s with phase := .now (W.discover s.world) [] },()) := by
    change s.step W .tick = _
    simp only [Watch.step,htop]
  have hstats := run_stats (W := W) { s with phase := .now (W.discover s.world) [] } (W.discover s.world) [] rfl
  have hcompare : (watchMachine W).run
      { s with phase := .now [] ([]++(W.discover s.world).flatMap (mtimeOf s.world)) } [.compare] =
        some ({ s with phase := .starting },[()]) := by
    have hstep : (watchMachine W).step
        { s with phase := .now [] ([]++(W.discover s.world).flatMap (mtimeOf s.world)) } .compare =
          some ({ s with phase := .starting },()) := by
      simp only [watchMachine,Watch.step,List.nil_append]
      rw [if_neg]
      exact fun heq => hlast heq.symm
    exact Machine.run_of_step _ hstep rfl
  refine Machine.run_of_step _ htick ((Machine.run_append _).mpr ⟨_,_,_,hstats,hcompare,?_⟩)
  rw [← List.replicate_succ']

theorem Watch.Inv.detects {s : Watch α} (h : s.Inv) (htop : s.phase = .top) : s.Detects W := by
  intro p hp
  have hunshown := h.unshown
  rw [htop] at hunshown
  have hlast : s.last ≠ mtimesOf W s.world := by
    intro heq
    refine hunshown p hp ?_
    rw [heq]
    exact shown_mtimesOf s.world p
  exact ⟨hlast,run_tick htop hlast⟩

/-- In a run whose edits spare what is remembered, every edit that no run has read is detected. -/
theorem watch_detects (W : Scan α) (world : α → Option ℕ) (initialPaths : List α) (as : List (WatchAction α))
    (s : Watch α) (os : List Unit) (hok : (watchMachine W).Obeys Watch.Spares (.start world initialPaths) as)
    (hrun : (watchMachine W).run (.start world initialPaths) as = some (s,os)) (htop : s.phase = .top) :
    s.Detects W := by
  have hstart : (Watch.start world initialPaths).Inv := by
    refine ⟨fun p hp => ?_,fun p hp => ?_⟩
    · cases hp
    · cases hp
  have hinv : s.Inv := (watchMachine W).run_obeys (fun _ _ _ _ h hs hstep => h.step hs hstep) hstart hok hrun
  exact hinv.detects htop

end Loop

/-- One file. -/
def oneScan : Scan Unit where
  discover world := if (world ()).isSome then [()] else []
  mem_discover world p := by simp
  le _ _ := true

/-- The file is edited, read by a run, and edited again after the run. -/
def sparingRun : List (WatchAction Unit) :=
  [.stat,.record,.edit () (some 2),.tick,.stat,.compare,.begin,.read (),.finish,.stat,.record,.edit () (some 3)]

theorem sparingRun_obeys :
    (watchMachine oneScan).Obeys Watch.Spares (.start (fun _ => some 1) [()]) sparingRun := by
  refine .cons _ rfl trivial (.cons _ rfl trivial (.cons _ rfl ?_ (.cons _ rfl trivial (.cons _ rfl trivial
    (.cons _ rfl trivial (.cons _ rfl trivial (.cons _ rfl trivial (.cons _ rfl ?_ (.cons _ rfl trivial
      (.cons _ rfl trivial (.cons _ rfl ?_ trivial)))))))))))
  · intro hread
    cases hread
  · rintro ⟨⟩
    exact Bool.false_ne_true
  · intro _ hshown
    exact absurd ((hshown 2).mp (by decide +kernel)) (by decide)

theorem watch_detects_one : ∃ s os, (watchMachine oneScan).run (.start (fun _ => some 1) [()]) sparingRun =
    some (s,os) ∧ s.edited () = true ∧ s.Detects oneScan := by
  refine ⟨_,_,rfl,?_,?_⟩
  · rfl
  · exact watch_detects oneScan (fun _ => some 1) [()] sparingRun _ _ sparingRun_obeys rfl rfl

/-- The file is edited once more while the run goes on, after it was read. -/
def hastyRun : List (WatchAction Unit) :=
  [.stat,.record,.edit () (some 2),.tick,.stat,.compare,.begin,.read (),.edit () (some 3),.finish,.stat,.record]

/-- An edit between the run's reading of the file and the end of the run is not detected. -/
theorem edit_during_run_missed : ¬∀ (α : Type) (_ : DecidableEq α) (W : Scan α) (world : α → Option ℕ)
    (initialPaths : List α) (as : List (WatchAction α)) (s : Watch α) (os : List Unit),
    (watchMachine W).run (.start world initialPaths) as = some (s,os) → s.phase = .top → s.Detects W := by
  intro h
  obtain ⟨s,os,hrun,htop,hedited,hlast⟩ : ∃ s os,
      (watchMachine oneScan).run (.start (fun _ => some 1) [()]) hastyRun = some (s,os) ∧ s.phase = .top ∧
        s.edited () = true ∧ s.last = mtimesOf oneScan s.world := by
    refine ⟨_,_,rfl,?_,?_,?_⟩
    all_goals rfl
  exact (h Unit inferInstance oneScan _ _ hastyRun s os hrun htop () hedited).1 hlast

end Provium.Cli
