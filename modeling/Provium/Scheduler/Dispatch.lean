import Provium.Lib.Machine

/-! The dispatcher of `dispatch.rs`: one thread for each file, a stop flag for `--fail-fast`, and
the results in the order of the paths. What the pressure gauge, the pool and the file's own run
answer is part of the actions. The stop flag is read once, before `run_one_file`; a thread may be
throttled or parked in the pool for any time after that. -/
namespace Provium.Scheduler
open Lib

inductive TestStatus where
  | passed
  | failed
  | skipped
  deriving DecidableEq, Repr

/-- `FileOutcome`, of its tests only the status. -/
structure FileOutcome where
  path : String
  chunkError : Option String
  tests : List TestStatus
  deriving DecidableEq, Repr

/-- The chunk ran cleanly and every test passed or was skipped. -/
def FileOutcome.allSucceeded (o : FileOutcome) : Bool :=
  o.chunkError.isNone && o.tests.all fun t => t = .passed || t = .skipped

inductive FileTimeoutOutcome where
  | inTime
  | timedOut
  deriving DecidableEq, Repr

structure DispatchedFile where
  path : String
  timeout : FileTimeoutOutcome
  outcome : FileOutcome
  deriving DecidableEq, Repr

namespace DispatchedFile

def passed (f : DispatchedFile) : Bool := f.timeout = .inTime && f.outcome.allSucceeded

/-- A file that ended before anything of it ran. -/
def notRun (path chunkError : String) : DispatchedFile := ⟨path,.inTime,⟨path,some chunkError,[]⟩⟩

def skipped (path : String) : DispatchedFile := notRun path "skipped: --fail-fast"

end DispatchedFile

/-- What the join makes of a worker thread that panicked itself. The file's own run is caught. -/
def panicToDispatched : DispatchedFile := .notRun "<unknown>" "dispatcher worker thread panicked"

/-- Where the thread of a file stands. -/
inductive FilePhase where
  /-- It has not looked at the stop flag. -/
  | spawned
  /-- It is in `run_one_file` and polls the pressure gauge, and may have announced that. -/
  | throttled (announced : Bool)
  | acquiring
  | parked
  /-- It has its overhead and is about to emit `FileDispatched`. -/
  | reserved
  | running
  /-- `run_one_file` has returned this. -/
  | finishing (file : DispatchedFile)
  /-- It is in `on_complete`. -/
  | reporting (file : DispatchedFile)
  | returned (file : DispatchedFile)
  | panicked
  deriving DecidableEq, Repr

/-- The thread has looked at the stop flag and not yet emitted `FileDispatched`. -/
def FilePhase.entering : FilePhase → Bool
  | .throttled _ | .acquiring | .parked | .reserved => true
  | _ => false

/-- What the join gives for the thread, or will give if it does not panic. -/
def FilePhase.result : FilePhase → Option DispatchedFile
  | .finishing file | .reporting file | .returned file => some file
  | .panicked => some panicToDispatched
  | _ => none

theorem FilePhase.result_of_entering {phase : FilePhase} (h : phase.entering = true) :
    phase.result = none := by
  cases phase <;> first | rfl | cases h

/-- The thread can be joined. -/
def FilePhase.ended : FilePhase → Bool
  | .returned _ | .panicked => true
  | _ => false

structure FileThread where
  path : String
  phase : FilePhase
  deriving DecidableEq, Repr

/-- The thread reports its file as skipped. -/
def FileThread.Skips (t : FileThread) : Prop :=
  t.phase = .reporting (.skipped t.path) ∨ t.phase = .returned (.skipped t.path)

inductive FileStep where
  | check
  | poll (pressured : Bool)
  | tryAcquire (granted : Bool)
  | granted
  /-- The pool fails the request; the message is that of its error. -/
  | refused (message : String)
  | dispatch
  | finish (timeout : FileTimeoutOutcome) (outcome : FileOutcome)
  | record
  | report
  /-- A panic outside the catch around the file's run: of a lock, of an event sink, of the spawn of
  the watchdog or of `on_complete`. -/
  | panic
  deriving DecidableEq, Repr

/-- What a thread does that others can see, by its number. -/
inductive DispatchEvent where
  | fileBlocked (i : ℕ) (reason : String)
  | overheadReserved (i : ℕ)
  | fileDispatched (i : ℕ)
  /-- It stores the stop flag. -/
  | failureRecorded (i : ℕ)
  deriving DecidableEq, Repr

def DispatchEvent.starts : DispatchEvent → Bool
  | .overheadReserved _ | .fileDispatched _ => true
  | _ => false

def DispatchEvent.records : DispatchEvent → Bool
  | .failureRecorded _ => true
  | _ => false

structure Dispatch where
  failFast : Bool
  stop : Bool
  threads : List FileThread
  events : List DispatchEvent
  deriving DecidableEq, Repr

namespace Dispatch

/-- Every thread is spawned at once; where the system refuses one, `dispatch_files` unwinds. -/
def start (failFast : Bool) (paths : List String) : Dispatch :=
  ⟨failFast,false,paths.map fun path => ⟨path,.spawned⟩,[]⟩

def setPhase (s : Dispatch) (i : ℕ) (phase : FilePhase) (events : List DispatchEvent) : Dispatch :=
  { s with threads := s.threads.modify i fun t => { t with phase }, events := s.events++events }

/-- A thread stores the stop flag if its file failed. -/
def record (s : Dispatch) (i : ℕ) (file : DispatchedFile) : Dispatch :=
  if s.failFast && !file.passed then
    { s with stop := true }.setPhase i (.reporting file) [.failureRecorded i]
  else s.setPhase i (.reporting file) []

def proceed (s : Dispatch) (i : ℕ) (t : FileThread) (step : FileStep) : Option Dispatch :=
  match t.phase,step with
  | .spawned,.check =>
    if s.failFast && s.stop then some (s.setPhase i (.reporting (.skipped t.path)) [])
    else some (s.setPhase i (.throttled false) [])
  | .throttled announced,.poll pressured =>
    if pressured then
      some (s.setPhase i (.throttled true) (if announced then [] else [.fileBlocked i "psi_pressure"]))
    else some (s.setPhase i .acquiring [])
  | .acquiring,.tryAcquire granted =>
    if granted then some (s.setPhase i .reserved [.overheadReserved i])
    else some (s.setPhase i .parked [.fileBlocked i "pool_full"])
  | .parked,.granted => some (s.setPhase i .reserved [.overheadReserved i])
  | .parked,.refused message => some (s.setPhase i (.finishing (.notRun t.path message)) [])
  | .reserved,.dispatch => some (s.setPhase i .running [.fileDispatched i])
  | .running,.finish timeout outcome =>
    some (s.setPhase i (.finishing ⟨t.path,timeout,outcome⟩) [])
  | .finishing file,.record => some (s.record i file)
  | .reporting file,.report => some (s.setPhase i (.returned file) [])
  | .throttled _,.panic | .acquiring,.panic | .parked,.panic | .reserved,.panic | .running,.panic
  | .reporting _,.panic => some (s.setPhase i .panicked [])
  | _,_ => none

def step (s : Dispatch) (i : ℕ) (step : FileStep) : Option Dispatch :=
  (s.threads[i]?).bind fun t => s.proceed i t step

/-- What `dispatch_files` returns, once it has joined every thread. -/
def results (s : Dispatch) : Option (List DispatchedFile) :=
  s.threads.mapM fun t => if t.phase.ended then t.phase.result else none

end Dispatch

/-- The threads of all files, in any order of their steps. -/
def dispatchMachine : Machine Dispatch (ℕ × FileStep) Unit :=
  ⟨fun s a => (s.step a.1 a.2).map (·,())⟩

/-- What `--fail-fast` promises. -/
structure FailFast (paths : List String) (s : Dispatch) : Prop where
  /-- Once a failure is recorded, no file reserves its overhead or is dispatched. -/
  quiet : s.events.Pairwise fun a b => a.records → ¬b.starts
  /-- A file not dispatched by then is skipped, at the latest when its thread comes to look. -/
  skipped : ∀ pre post i, s.events = pre++.failureRecorded i::post → ∀ (j : ℕ) (t : FileThread),
    s.threads[j]? = some t → .fileDispatched j ∉ pre → t.phase = .spawned ∨ t.Skips
  /-- There is one result for each path, in their order. -/
  results : ∀ files, s.results = some files → files.map DispatchedFile.path = paths

/-- The thread is about to store the stop flag. -/
def FileThread.fails (t : FileThread) : Bool :=
  match t.phase with
  | .finishing file => !file.passed
  | _ => false

/-- A thread that stores the stop flag finds no other between its look at the flag and its
dispatch, the pool refuses no file its overhead, and no thread panics. -/
def Prompt (s : Dispatch) : ℕ × FileStep → Prop
  | (i,.record) => (s.threads[i]?).any FileThread.fails → ∀ t ∈ s.threads, t.phase.entering = false
  | (_,.refused _) | (_,.panic) => False
  | _ => True

instance (s : Dispatch) : ∀ a, Decidable (Prompt s a)
  | (_,.record) => inferInstanceAs (Decidable (_ → _))
  | (_,.refused _) | (_,.panic) => inferInstanceAs (Decidable False)
  | (_,.check) | (_,.poll _) | (_,.tryAcquire _) | (_,.granted) | (_,.dispatch) | (_,.finish _ _)
  | (_,.report) => inferInstanceAs (Decidable True)

structure DispatchInv (paths : List String) (s : Dispatch) : Prop where
  failFast : s.failFast = true
  paths : s.threads.map FileThread.path = paths
  named : ∀ t ∈ s.threads, ∀ file, t.phase.result = some file → file.path = t.path
  quiet : s.events.Pairwise fun a b => a.records → ¬b.starts
  unset : s.stop = false → ∀ e ∈ s.events, e.records = false
  /-- Once the flag is set, no thread is between its look at it and its dispatch. -/
  settled : s.stop = true → ∀ t ∈ s.threads, t.phase.entering = false
  dispatched : ∀ (j : ℕ) (t : FileThread), s.threads[j]? = some t →
    t.phase = .spawned ∨ t.phase.entering ∨ t.Skips ∨ .fileDispatched j ∈ s.events

theorem dispatchInv_start (paths : List String) : DispatchInv paths (.start true paths) := by
  refine ⟨rfl,?_,?_,.nil,by simp [Dispatch.start],by simp [Dispatch.start],?_⟩
  · rw [Dispatch.start,List.map_map]
    exact List.map_id _
  · intro t ht file hf
    obtain ⟨path,-,rfl⟩ := List.mem_map.mp ht
    cases hf
  · intro j t ht
    obtain ⟨path,-,rfl⟩ := List.mem_map.mp (List.mem_of_getElem? ht)
    exact .inl rfl

section Steps
variable {paths : List String} {s s' : Dispatch} {i : ℕ} {t : FileThread}

theorem getElem?_setPhase (s : Dispatch) (i j : ℕ) (phase : FilePhase) (es : List DispatchEvent) :
    (s.setPhase i phase es).threads[j]? =
      if i = j then s.threads[j]?.map (fun t => { t with phase }) else s.threads[j]? := by
  rw [Dispatch.setPhase,List.getElem?_modify]
  split <;> simp

/-- A thread of the next state is the one that moved or was there before. -/
theorem setPhase_cases {phase : FilePhase} {es : List DispatchEvent} (ht : s.threads[i]? = some t)
    {j : ℕ} {u : FileThread} (hu : (s.setPhase i phase es).threads[j]? = some u) :
    j = i ∧ u = { t with phase } ∨ j ≠ i ∧ s.threads[j]? = some u := by
  rw [getElem?_setPhase] at hu
  split at hu
  · next hij =>
    subst hij
    rw [ht] at hu
    exact .inl ⟨rfl,(Option.some.inj hu).symm⟩
  · next hij => exact .inr ⟨Ne.symm hij,hu⟩

theorem mem_setPhase {phase : FilePhase} {es : List DispatchEvent} (ht : s.threads[i]? = some t)
    {u : FileThread} (hu : u ∈ (s.setPhase i phase es).threads) :
    u = { t with phase } ∨ u ∈ s.threads := by
  obtain ⟨j,hj⟩ := List.mem_iff_getElem?.mp hu
  obtain ⟨-,rfl⟩ | ⟨-,hj⟩ := setPhase_cases ht hj
  · exact .inl rfl
  · exact .inr (List.mem_of_getElem? hj)

theorem paths_setPhase (s : Dispatch) (i : ℕ) (phase : FilePhase) (es : List DispatchEvent) :
    (s.setPhase i phase es).threads.map FileThread.path = s.threads.map FileThread.path := by
  apply List.ext_getElem?
  intro j
  rw [List.getElem?_map,List.getElem?_map,getElem?_setPhase]
  split
  · cases s.threads[j]? <;> rfl
  · rfl

/-- A thread moves on and shows one event at most. -/
theorem DispatchInv.move (h : DispatchInv paths s) (ht : s.threads[i]? = some t) (stop : Bool)
    {phase : FilePhase} {es : List DispatchEvent} (hes : es.length ≤ 1)
    (hname : ∀ file, phase.result = some file → file.path = t.path)
    (hstart : ∀ e ∈ es, e.starts → s.stop = false)
    (hunset : stop = false → s.stop = false ∧ ∀ e ∈ es, e.records = false)
    (hsettled : stop = true → phase.entering = false ∧ ∀ u ∈ s.threads, u.phase.entering = false)
    (hphase : phase = .spawned ∨ phase.entering ∨ { t with phase }.Skips ∨
      .fileDispatched i ∈ s.events ∨ .fileDispatched i ∈ es) :
    DispatchInv paths ({ s with stop := stop }.setPhase i phase es) := by
  have ht' : ({ s with stop := stop } : Dispatch).threads[i]? = some t := ht
  refine ⟨h.failFast,?_,?_,?_,?_,?_,?_⟩
  · rw [paths_setPhase]
    exact h.paths
  · intro u hu file hf
    obtain rfl | hu := mem_setPhase ht' hu
    · exact hname file hf
    · exact h.named u hu file hf
  · apply List.pairwise_append.mpr
    refine ⟨h.quiet,?_,?_⟩
    · match es,hes with
      | [],_ => exact .nil
      | [e],_ => exact List.pairwise_singleton _ _
    · intro a ha b hb hrec hst
      have hnot := h.unset (hstart b hb hst) a ha
      rw [hrec] at hnot
      cases hnot
  · intro hst e he
    obtain ⟨hold,hnew⟩ := hunset hst
    obtain he | he := List.mem_append.mp he
    · exact h.unset hold e he
    · exact hnew e he
  · intro hst u hu
    obtain ⟨hself,hothers⟩ := hsettled hst
    obtain rfl | hu := mem_setPhase ht' hu
    · exact hself
    · exact hothers u hu
  · intro j u hu
    obtain ⟨rfl,rfl⟩ | ⟨-,hu⟩ := setPhase_cases ht' hu
    · refine hphase.imp_right (Or.imp_right (Or.imp_right ?_))
      intro hmem
      exact List.mem_append.mpr hmem
    · refine (h.dispatched j u hu).imp_right (Or.imp_right (Or.imp_right ?_))
      exact List.mem_append_left _

/-- A thread before its dispatch, while the flag is not set. -/
theorem DispatchInv.enter (h : DispatchInv paths s) (ht : s.threads[i]? = some t)
    (hstop : s.stop = false) {phase : FilePhase} (hp : phase.entering = true)
    {es : List DispatchEvent} (hes : es.length ≤ 1) (hrec : ∀ e ∈ es, e.records = false) :
    DispatchInv paths (s.setPhase i phase es) := by
  refine h.move ht s.stop hes ?_ ?_ ?_ ?_ (.inr (.inl hp))
  · intro file hf
    rw [FilePhase.result_of_entering hp] at hf
    cases hf
  · intro e _ _
    exact hstop
  · intro _
    exact ⟨hstop,hrec⟩
  · intro hst
    rw [hstop] at hst
    cases hst

/-- A thread after its dispatch; it leaves the flag as it is. -/
theorem DispatchInv.proceeds (h : DispatchInv paths s) (ht : s.threads[i]? = some t)
    {phase : FilePhase} (hp : phase.entering = false)
    (hname : ∀ file, phase.result = some file → file.path = t.path)
    (hd : { t with phase }.Skips ∨ .fileDispatched i ∈ s.events) :
    DispatchInv paths (s.setPhase i phase []) := by
  refine h.move ht s.stop (Nat.zero_le _) hname (by simp) ?_ ?_ ?_
  · intro hst
    exact ⟨hst,by simp⟩
  · intro hst
    exact ⟨hp,h.settled hst⟩
  · exact .inr (.inr (hd.imp_right .inl))

/-- A thread that is entering finds the flag not set. -/
theorem DispatchInv.stop_eq_false (h : DispatchInv paths s) (ht : s.threads[i]? = some t)
    (hp : t.phase.entering = true) : s.stop = false := by
  cases hstop : s.stop with
  | false => rfl
  | true =>
    have := h.settled hstop t (List.mem_of_getElem? ht)
    rw [hp] at this
    cases this

/-- The thread of a file that has run was dispatched. -/
theorem DispatchInv.was_dispatched (h : DispatchInv paths s) (ht : s.threads[i]? = some t)
    (hp : t.phase = .running ∨ ∃ file, t.phase = .finishing file) :
    .fileDispatched i ∈ s.events := by
  obtain hs | he | hr | hd := h.dispatched i t ht
  · obtain hp | ⟨file,hp⟩ := hp <;> rw [hp] at hs <;> cases hs
  · obtain hp | ⟨file,hp⟩ := hp <;> rw [hp] at he <;> cases he
  · obtain hr | hr := hr <;> obtain hp | ⟨file,hp⟩ := hp <;> rw [hp] at hr <;> cases hr
  · exact hd

theorem DispatchInv.record (h : DispatchInv paths s) (ht : s.threads[i]? = some t)
    {file : DispatchedFile} (hp : t.phase = .finishing file) (hok : Prompt s (i,.record)) :
    DispatchInv paths (s.record i file) := by
  have hname : ∀ g, (FilePhase.reporting file).result = some g → g.path = t.path := by
    intro g hg
    apply h.named t (List.mem_of_getElem? ht)
    rw [hp]
    exact hg
  have hd := h.was_dispatched ht (.inr ⟨file,hp⟩)
  have hff := h.failFast
  unfold Dispatch.record
  split
  · next hfail =>
    rw [hff,Bool.true_and] at hfail
    have hall : ∀ u ∈ s.threads, u.phase.entering = false := by
      apply hok
      rw [ht,Option.any_some,FileThread.fails,hp]
      exact hfail
    refine h.move ht true (List.length_singleton).le hname ?_ (by simp) ?_ ?_
    · intro e he hst
      rw [List.mem_singleton.mp he] at hst
      cases hst
    · intro _
      exact ⟨rfl,hall⟩
    · exact .inr (.inr (.inr (.inl hd)))
  · exact h.proceeds ht rfl hname (.inr hd)

/-- The thread has come back from `on_complete`. -/
theorem DispatchInv.report (h : DispatchInv paths s) (ht : s.threads[i]? = some t)
    {file : DispatchedFile} (hp : t.phase = .reporting file) :
    DispatchInv paths (s.setPhase i (.returned file) []) := by
  refine h.proceeds ht rfl ?_ ?_
  · intro g hg
    apply h.named t (List.mem_of_getElem? ht)
    rw [hp]
    exact hg
  · obtain hs | he | hr | hd := h.dispatched i t ht
    · rw [hp] at hs
      cases hs
    · rw [hp] at he
      cases he
    · rw [FileThread.Skips,hp] at hr
      obtain hr | hr := hr
      · cases hr
        exact .inl (.inr rfl)
      · cases hr
    · exact .inr hd

theorem DispatchInv.proceed (h : DispatchInv paths s) (ht : s.threads[i]? = some t)
    {step : FileStep} (hok : Prompt s (i,step)) (hs : s.proceed i t step = some s') :
    DispatchInv paths s' := by
  obtain ⟨path,phase⟩ := t
  unfold Dispatch.proceed at hs
  split at hs
  · next hp =>
    -- The look at the flag: a set one skips the file.
    rw [h.failFast,Bool.true_and] at hs
    cases hstop : s.stop with
    | true =>
      simp only [hstop,if_true,Option.some.injEq] at hs
      subst hs
      refine h.proceeds ht rfl ?_ (.inl (.inl rfl))
      intro g hg
      cases hg
      rfl
    | false =>
      simp only [hstop,Bool.false_eq_true,if_false,Option.some.injEq] at hs
      subst hs
      exact h.enter ht hstop rfl (Nat.zero_le _) (by simp)
  · next announced pressured hp =>
    have hstop := h.stop_eq_false ht (by rw [hp]; rfl)
    split at hs
    · cases hs
      refine h.enter ht hstop rfl ?_ ?_
      · cases announced <;> simp
      · cases announced <;> simp [DispatchEvent.records]
    · cases hs
      exact h.enter ht hstop rfl (Nat.zero_le _) (by simp)
  · next granted hp =>
    have hstop := h.stop_eq_false ht (by rw [hp]; rfl)
    split at hs
    · cases hs
      exact h.enter ht hstop rfl (Nat.le_refl 1) (by simp [DispatchEvent.records])
    · cases hs
      exact h.enter ht hstop rfl (Nat.le_refl 1) (by simp [DispatchEvent.records])
  · next hp =>
    have hstop := h.stop_eq_false ht (by rw [hp]; rfl)
    cases hs
    exact h.enter ht hstop rfl (Nat.le_refl 1) (by simp [DispatchEvent.records])
  · exact hok.elim
  · next hp =>
    have hstop := h.stop_eq_false ht (by rw [hp]; rfl)
    cases hs
    refine h.move ht s.stop (List.length_singleton).le (by simp [FilePhase.result]) ?_ ?_ ?_ ?_
    · intro e _ _
      exact hstop
    · intro hst
      exact ⟨hst,by simp [DispatchEvent.records]⟩
    · intro hst
      rw [hstop] at hst
      cases hst
    · exact .inr (.inr (.inr (.inr (List.mem_singleton.mpr rfl))))
  · next timeout outcome hp =>
    cases hs
    refine h.proceeds ht rfl ?_ (.inr (h.was_dispatched ht (.inl hp)))
    intro g hg
    cases hg
    rfl
  · next file hp =>
    cases hs
    exact h.record ht hp hok
  · next file hp =>
    cases hs
    exact h.report ht hp
  iterate 6 exact hok.elim
  · cases hs

theorem DispatchInv.step (h : DispatchInv paths s) {a : ℕ × FileStep} {o : Unit}
    (hs : (dispatchMachine.restrict Prompt).step s a = some (s',o)) : DispatchInv paths s' := by
  obtain ⟨hok,hstep⟩ := (Machine.restrict_step _).mp hs
  obtain ⟨i,step⟩ := a
  obtain ⟨q,hq,he⟩ := Option.map_eq_some_iff.mp hstep
  cases he
  obtain ⟨t,ht,hp⟩ := Option.bind_eq_some_iff.mp hq
  exact h.proceed ht hok hp

/-- Every thread that has ended did so for its own path. -/
theorem path_of_results {ts : List FileThread} {files : List DispatchedFile}
    (hnamed : ∀ t ∈ ts, ∀ file, t.phase.result = some file → file.path = t.path)
    (h : (ts.mapM fun t => if t.phase.ended then t.phase.result else none) = some files) :
    files.map DispatchedFile.path = ts.map FileThread.path := by
  induction ts generalizing files with
  | nil =>
    cases h
    rfl
  | cons t ts ih =>
    rw [List.mapM_cons] at h
    obtain ⟨file,hfile,h⟩ := Option.bind_eq_some_iff.mp h
    obtain ⟨rest,hrest,h⟩ := Option.bind_eq_some_iff.mp h
    cases h
    have hp : t.phase.result = some file := by
      split at hfile
      · exact hfile
      · cases hfile
    rw [List.map_cons,List.map_cons,hnamed t List.mem_cons_self file hp,
      ih (fun u hu => hnamed u (List.mem_cons_of_mem _ hu)) hrest]

theorem DispatchInv.failFast_holds (h : DispatchInv paths s) : FailFast paths s := by
  refine ⟨h.quiet,?_,?_⟩
  · intro pre post i hev j u hu hnot
    have hmem : DispatchEvent.failureRecorded i ∈ s.events := by
      rw [hev]
      exact List.mem_append_right _ List.mem_cons_self
    have hstop : s.stop = true := by
      cases hst : s.stop with
      | true => rfl
      | false => cases h.unset hst _ hmem
    obtain hs | he | hr | hd := h.dispatched j u hu
    · exact .inl hs
    · have := h.settled hstop u (List.mem_of_getElem? hu)
      rw [he] at this
      cases this
    · exact .inr hr
    · -- Dispatched, and not by then: after the failure, which nothing starts after.
      rw [hev] at hd
      obtain hd | hd := List.mem_append.mp hd
      · exact absurd hd hnot
      · obtain hd | hd := List.mem_cons.mp hd
        · cases hd
        · have hq := h.quiet
          rw [hev] at hq
          have hpost := (List.pairwise_cons.mp (List.pairwise_append.mp hq).2.1).1 _ hd
          exact absurd rfl (hpost rfl)
  · intro files hf
    rw [path_of_results h.named hf]
    exact h.paths

end Steps

/-- In every run in which each failure is recorded while no other thread is on its way to its
dispatch, no file is refused its overhead and no worker thread panics, the dispatcher fails fast. -/
theorem prompt_dispatch_fails_fast {paths : List String} {as : List (ℕ × FileStep)} {os : List Unit}
    {s : Dispatch} (h : (dispatchMachine.restrict Prompt).run (.start true paths) as = some (s,os)) :
    FailFast paths s := by
  have hinv : DispatchInv paths s :=
    Machine.run_invariant (I := DispatchInv paths) _ (fun _ _ _ _ hi hs => DispatchInv.step hi hs)
      (dispatchInv_start paths) h
  exact hinv.failFast_holds

/-- The first file fails before the thread of the second comes to look at the flag. -/
def promptFailure : List (ℕ × FileStep) :=
  [(0,.check),(0,.poll false),(0,.tryAcquire true),(0,.dispatch),
    (0,.finish .inTime ⟨"a.lua",none,[.failed]⟩),(0,.record),(0,.report),(1,.check),(1,.report)]

theorem prompt_dispatch_fails_fast_skipping : ∃ s os,
    (dispatchMachine.restrict Prompt).run (.start true ["a.lua","b.lua"]) promptFailure = some (s,os) ∧
    s.results.map (·.map DispatchedFile.passed) = some [false,false] ∧
    FailFast ["a.lua","b.lua"] s := by
  have hrun : ∃ os, (dispatchMachine.restrict Prompt).run (.start true ["a.lua","b.lua"])
      promptFailure = some (⟨true,true,
        [⟨"a.lua",.returned ⟨"a.lua",.inTime,⟨"a.lua",none,[.failed]⟩⟩⟩,
          ⟨"b.lua",.returned (.skipped "b.lua")⟩],
        [.overheadReserved 0,.fileDispatched 0,.failureRecorded 0]⟩,os) := ⟨_,rfl⟩
  obtain ⟨os,hr⟩ := hrun
  exact ⟨_,os,hr,by decide,prompt_dispatch_fails_fast hr⟩

/-- The thread of the second file has looked at the flag when the first file fails, and reserves
and dispatches after that. -/
def lateDispatch : List (ℕ × FileStep) :=
  [(0,.check),(0,.poll false),(0,.tryAcquire true),(0,.dispatch),(1,.check),
    (0,.finish .inTime ⟨"a.lua",none,[.failed]⟩),(0,.record),
    (1,.poll false),(1,.tryAcquire true),(1,.dispatch)]

/-- The file has passed, and `on_complete` panics on the thread: its result has another path. -/
def panickedReport : List (ℕ × FileStep) :=
  [(0,.check),(0,.poll false),(0,.tryAcquire true),(0,.dispatch),
    (0,.finish .inTime ⟨"a.lua",none,[.passed]⟩),(0,.record),(0,.panic)]

theorem file_dispatched_after_the_failure :
    (∃ s os, dispatchMachine.run (.start true ["a.lua","b.lua"]) lateDispatch = some (s,os) ∧
      s.events = [.overheadReserved 0,.fileDispatched 0,.failureRecorded 0,.overheadReserved 1,
        .fileDispatched 1] ∧ ¬FailFast ["a.lua","b.lua"] s) ∧
    ∃ s os, dispatchMachine.run (.start true ["a.lua"]) panickedReport = some (s,os) ∧
      s.results = some [panicToDispatched] ∧ ¬FailFast ["a.lua"] s := by
  constructor
  · have hrun : ∃ os, dispatchMachine.run (.start true ["a.lua","b.lua"]) lateDispatch =
        some (⟨true,true,[⟨"a.lua",.reporting ⟨"a.lua",.inTime,⟨"a.lua",none,[.failed]⟩⟩⟩,
          ⟨"b.lua",.running⟩],
          [.overheadReserved 0,.fileDispatched 0,.failureRecorded 0,.overheadReserved 1,
            .fileDispatched 1]⟩,os) := ⟨_,rfl⟩
    obtain ⟨os,hr⟩ := hrun
    refine ⟨_,os,hr,rfl,?_⟩
    intro hf
    have hq := hf.quiet
    revert hq
    decide
  · have hrun : ∃ os, dispatchMachine.run (.start true ["a.lua"]) panickedReport =
        some (⟨true,false,[⟨"a.lua",.panicked⟩],[.overheadReserved 0,.fileDispatched 0]⟩,os) :=
      ⟨_,rfl⟩
    obtain ⟨os,hr⟩ := hrun
    refine ⟨_,os,hr,rfl,?_⟩
    intro hf
    have hpaths := hf.results _ rfl
    revert hpaths
    decide

end Provium.Scheduler
