import Provium.Fixture.BuildLock

/-! The events of one call of `vm_fixture` or of `lab_fixture`. What the call finds in the cache, what the
lock does and what the build and the restores come to are answers from outside, which are its input. -/
namespace Provium.Fixture

inductive FixtureEvent where
  | started (path : String)
  | done (path : String) (durationNs snapshotBytes : UInt64)
  | waiting (path heldByFile : String)
  | cacheHit (path : String)
  deriving DecidableEq, Repr

/-- What a call comes to, with the events it has emitted by then. They stay where it fails. -/
structure Emits (α : Type) where
  result : Except String α
  events : List FixtureEvent

namespace Emits
variable {α β : Type}

instance : Monad Emits where
  pure a := ⟨.ok a,[]⟩
  bind m f :=
    match m.result with
    | .ok a => ⟨(f a).result,m.events++(f a).events⟩
    | .error e => ⟨.error e,m.events⟩

def lift (r : Except String α) : Emits α := ⟨r,[]⟩

def emit (e : FixtureEvent) : Emits Unit := ⟨.ok (),[e]⟩

@[simp] theorem events_pure (a : α) : (pure a : Emits α).events = [] := rfl

@[simp] theorem events_lift (r : Except String α) : (lift r).events = [] := rfl

@[simp] theorem events_emit (e : FixtureEvent) : (emit e).events = [e] := rfl

@[simp] theorem result_emit (e : FixtureEvent) : (emit e).result = .ok () := rfl

@[simp] theorem result_pure (a : α) : (pure a : Emits α).result = .ok a := rfl

@[simp] theorem result_lift (r : Except String α) : (lift r).result = r := rfl

theorem events_bind_ok {m : Emits α} {a : α} (h : m.result = .ok a) (f : α → Emits β) :
    (m >>= f).events = m.events++(f a).events := by
  change (match m.result with | .ok a => _ | .error e => _ : Emits β).events = _
  rw [h]

theorem bind_error {m : Emits α} {e : String} (h : m.result = .error e) (f : α → Emits β) :
    m >>= f = ⟨.error e,m.events⟩ := by
  change (match m.result with | .ok a => _ | .error e => _ : Emits β) = _
  rw [h]

end Emits
open Emits

/-- `u64::try_from(nanos).unwrap_or(u64::MAX)`. -/
def clampNanos (nanos : ℕ) : UInt64 := if nanos < 2^64 then .ofNat nanos else .ofNat (2^64-1)

/-- The lock: if its file can be opened, if it is free at once, else who holds it and how the wait ends. -/
structure LockAnswers where
  opened : Except String Unit
  free : Bool
  holder : Option String
  waited : Except String Unit

/-- `acquire_build_lock_observed_notify`, which says if it has had to wait. -/
def LockAnswers.acquire (a : LockAnswers) (path : String) : Emits Bool := do
  lift a.opened
  if a.free then pure false
  else do
    emit (.waiting path (a.holder.getD ""))
    lift a.waited
    pure true

/-- A snapshot, which may have to be decompressed, and its restore into the lab. -/
structure RestoreAnswers (α : Type) where
  zstd : Bool
  decompressed : Except String Unit
  restored : Except String α

def RestoreAnswers.run {α : Type} (a : RestoreAnswers α) : Except String α := do
  if a.zstd then a.decompressed
  a.restored

structure VmAnswers (α : Type) where
  /-- The fixture is found and read, its key computed, and the cache directory there. -/
  prepared : Except String Unit
  cached : Bool
  resumed : RestoreAnswers α
  lock : LockAnswers
  /-- The snapshot is there when the lock is held. -/
  there : Bool
  outcome : Except String Built
  compressed : Bool
  renamed : Bool
  copied : Except String Unit
  waitNanos : ℕ
  buildNanos : ℕ
  snapshotBytes : Option UInt64
  restored : RestoreAnswers α

namespace VmAnswers
variable {α : Type} (a : VmAnswers α)

def done (path : String) (nanos : ℕ) : FixtureEvent := .done path (clampNanos nanos) (a.snapshotBytes.getD 0)

/-- The build, and the placing of what it has built. -/
def build (path : String) : Except String Unit := do
  match ← a.outcome with
  | .vm =>
    if a.compressed then pure ()
    else if a.renamed then pure ()
    else a.copied
  | .lab => throw ("vm_fixture `"++path++"` returned a lab snapshot; use lab_fixture instead")

/-- What is done under the lock. -/
def underLock (path : String) (wasContended : Bool) : Emits α := do
  if !a.there then
    emit (.started path)
    lift (a.build path)
    emit (a.done path a.buildNanos)
  else if wasContended then emit (a.done path a.waitNanos)
  lift a.restored.run

def miss (path : String) : Emits α := do
  let wasContended ← a.lock.acquire path
  a.underLock path wasContended

/-- `build_or_resume_fixture`. -/
def buildOrResumeFixture (path : String) : Emits α := do
  lift a.prepared
  if a.cached then
    match a.resumed.run with
    | .ok vm => do
      emit (.cacheHit path)
      pure vm
    | .error _ => a.miss path
  else a.miss path

end VmAnswers

structure LabAnswers (α : Type) where
  prepared : Except String Unit
  /-- `lab.json` is there. -/
  cached : Bool
  resumed : Except String α
  lock : LockAnswers
  /-- The second restore of an entry that was corrupt, under the lock. -/
  rechecked : Except String α
  there : Bool
  outcome : Except String Built
  installed : Except String Unit
  waitNanos : ℕ
  buildNanos : ℕ
  dirSizeBytes : UInt64
  restored : Except String α

namespace LabAnswers
variable {α : Type} (a : LabAnswers α)

def done (path : String) (nanos : ℕ) : FixtureEvent := .done path (clampNanos nanos) a.dirSizeBytes

def build (path : String) : Except String Unit := do
  match ← a.outcome with
  | .lab => a.installed
  | .vm => throw ("lab_fixture `"++path++"` returned a single-VM snapshot; expected provium:snapshot()")

/-- What is done under the lock when no corrupt entry is left. -/
def underLock (path : String) (wasContended : Bool) : Emits α := do
  if a.there then
    if wasContended then emit (a.done path a.waitNanos)
    lift a.restored
  else
    emit (.started path)
    lift (a.build path)
    emit (a.done path a.buildNanos)
    lift a.restored

def miss (path : String) (corruptToEvict : Bool) : Emits α := do
  let wasContended ← a.lock.acquire path
  if corruptToEvict then
    match a.rechecked with
    | .ok lab => pure lab
    | .error _ => a.underLock path wasContended
  else a.underLock path wasContended

/-- `build_or_resume_lab_fixture`. -/
def buildOrResumeLabFixture (path : String) : Emits α := do
  lift a.prepared
  if a.cached then
    match a.resumed with
    | .ok lab => do
      emit (.cacheHit path)
      pure lab
    | .error _ => a.miss path true
  else a.miss path false

end LabAnswers

/-- A hit alone; or a wait, a start, or one and then the other, each at most once, and the end of them,
which nothing else has. -/
def PairUp (events : List FixtureEvent) : Prop :=
  (∃ path, events = [.cacheHit path]) ∨
    ∃ waitings starts dones : List FixtureEvent, events = waitings++starts++dones ∧
      (waitings = [] ∨ ∃ path holder, waitings = [.waiting path holder]) ∧
      (starts = [] ∨ ∃ path, starts = [.started path]) ∧
      (waitings = [] ∧ starts = [] ∧ dones = [] ∨
        (waitings ≠ [] ∨ starts ≠ []) ∧ ∃ path nanos bytes, dones = [.done path nanos bytes])

/-- The lock's file is opened, but the lock is not free. -/
def LockAnswers.Contended (a : LockAnswers) : Prop := a.opened.isOk ∧ a.free = false

/-- The lock is had, at once or after a wait. -/
def LockAnswers.Held (a : LockAnswers) : Prop := a.opened.isOk ∧ (a.free = true ∨ a.waited.isOk)

/-- The entry is not resumed from the cache. -/
def VmAnswers.Misses {α : Type} (a : VmAnswers α) : Prop :=
  a.prepared.isOk ∧ ¬(a.cached = true ∧ a.resumed.run.isOk)

/-- The build has come to a snapshot of one machine, and it is in its place. -/
def VmAnswers.Builds {α : Type} (a : VmAnswers α) : Prop :=
  a.outcome = .ok .vm ∧ (a.compressed = true ∨ a.renamed = true ∨ a.copied.isOk)

/-- A wait for the lock does not fail, and neither does a build. -/
def VmAnswers.Smooth {α : Type} (a : VmAnswers α) : Prop :=
  a.Misses → (a.lock.Contended → a.lock.waited.isOk) ∧ (a.lock.Held → a.there = false → a.Builds)

def LabAnswers.Misses {α : Type} (a : LabAnswers α) : Prop :=
  a.prepared.isOk ∧ ¬(a.cached = true ∧ a.resumed.isOk)

def LabAnswers.Builds {α : Type} (a : LabAnswers α) : Prop := a.outcome = .ok .lab ∧ a.installed.isOk

/-- A peer has replaced a corrupt entry by a good one before the lock was had. -/
def LabAnswers.Replaced {α : Type} (a : LabAnswers α) : Prop := a.cached = true ∧ a.rechecked.isOk

/-- As of one machine, and there is no wait for the lock of an entry that is good then and was not before. -/
def LabAnswers.Smooth {α : Type} (a : LabAnswers α) : Prop :=
  a.Misses → (a.lock.Contended → a.lock.waited.isOk ∧ ¬a.Replaced) ∧
    (a.lock.Held → ¬a.Replaced → a.there = false → a.Builds)

section PairUp
variable {path path' holder : String} {nanos bytes : UInt64} {es : List FixtureEvent}

theorem pairUp_nil : PairUp [] := .inr ⟨[],[],[],rfl,.inl rfl,.inl rfl,.inl ⟨rfl,rfl,rfl⟩⟩

theorem pairUp_hit : PairUp [.cacheHit path] := .inl ⟨path,rfl⟩

theorem pairUp_waited : PairUp [.waiting path holder,.done path' nanos bytes] :=
  .inr ⟨[_],[],[_],rfl,.inr ⟨_,_,rfl⟩,.inl rfl,.inr ⟨.inl (List.cons_ne_nil _ _),_,_,_,rfl⟩⟩

theorem pairUp_built : PairUp [.started path,.done path' nanos bytes] :=
  .inr ⟨[],[_],[_],rfl,.inl rfl,.inr ⟨_,rfl⟩,.inr ⟨.inr (List.cons_ne_nil _ _),_,_,_,rfl⟩⟩

theorem pairUp_waited_built : PairUp [.waiting path holder,.started path,.done path' nanos bytes] :=
  .inr ⟨[_],[_],[_],rfl,.inr ⟨_,_,rfl⟩,.inr ⟨_,rfl⟩,.inr ⟨.inl (List.cons_ne_nil _ _),_,_,_,rfl⟩⟩

/-- What pairs up and is no hit is empty, or ends. -/
theorem PairUp.ends (h : PairUp es) :
    es = [] ∨ (∃ path, es = [.cacheHit path]) ∨ ∃ path nanos bytes, .done path nanos bytes ∈ es := by
  obtain hit | ⟨ws,ss,ds,rfl,-,-,⟨rfl,rfl,rfl⟩ | ⟨-,path,nanos,bytes,rfl⟩⟩ := h
  · exact .inr (.inl hit)
  · exact .inl rfl
  · exact .inr (.inr ⟨path,nanos,bytes,by simp⟩)

theorem not_pairUp_waiting : ¬PairUp [.waiting path holder] := fun h => by simpa using h.ends

theorem not_pairUp_started : ¬PairUp [.started path] := fun h => by simpa using h.ends

theorem not_pairUp_waiting_started : ¬PairUp [.waiting path holder,.started path'] := fun h => by
  simpa using h.ends

end PairUp

/-- How the lock can come, and what is emitted by then. -/
theorem LockAnswers.acquire_cases (a : LockAnswers) (path : String) :
    (¬a.opened.isOk ∧ ∃ e, a.acquire path = ⟨.error e,[]⟩) ∨
    (a.opened.isOk ∧ a.free = true ∧ a.acquire path = ⟨.ok false,[]⟩) ∨
    (a.opened.isOk ∧ a.free = false ∧ a.waited.isOk ∧
      a.acquire path = ⟨.ok true,[.waiting path (a.holder.getD "")]⟩) ∨
    (a.opened.isOk ∧ a.free = false ∧ ¬a.waited.isOk ∧
      ∃ e, a.acquire path = ⟨.error e,[.waiting path (a.holder.getD "")]⟩) := by
  obtain ⟨opened,free,holder,waited⟩ := a
  cases opened with
  | error e => exact .inl ⟨Bool.false_ne_true,e,rfl⟩
  | ok u =>
    cases free with
    | true => exact .inr (.inl ⟨rfl,rfl,rfl⟩)
    | false =>
      cases waited with
      | ok u => exact .inr (.inr (.inl ⟨rfl,rfl,rfl,rfl⟩))
      | error e => exact .inr (.inr (.inr ⟨rfl,rfl,Bool.false_ne_true,e,rfl⟩))

theorem exists_ok_of_isOk {α : Type} {r : Except String α} (h : r.isOk) : ∃ a, r = .ok a := by
  cases r with
  | ok a => exact ⟨a,rfl⟩
  | error e => cases h

theorem exists_error_of_not_isOk {α : Type} {r : Except String α} (h : ¬r.isOk) : ∃ e, r = .error e := by
  cases r with
  | ok a => exact absurd rfl h
  | error e => exact ⟨e,rfl⟩

/-- A build with its two events around it, and what comes after. -/
theorem events_built {α : Type} {path : String} {b : Except String Unit} (e : FixtureEvent) (rest : Except String α) :
    (do emit (.started path); lift b; emit e; lift rest : Emits α).events =
      if b.isOk then [.started path,e] else [.started path] := by
  cases b with
  | ok u => rfl
  | error _ => rfl

namespace VmAnswers
variable {α : Type} (a : VmAnswers α) (path : String)

theorem build_isOk : (a.build path).isOk ↔ a.Builds := by
  obtain ⟨_,_,_,_,_,outcome,compressed,renamed,copied,_⟩ := a
  cases outcome with
  | error e => exact ⟨fun h => (nomatch h),fun h => nomatch h.1⟩
  | ok built =>
    cases built with
    | lab => exact ⟨fun h => (nomatch h),fun h => nomatch h.1⟩
    | vm => cases compressed <;> cases renamed <;> simp [build,Builds,Except.isOk] <;> rfl

theorem underLock_there (h : a.there = true) (c : Bool) :
    (a.underLock path c).events = if c then [a.done path a.waitNanos] else [] := by
  rw [underLock,h]
  cases c <;> rfl

theorem underLock_builds (h : a.there = false) (c : Bool) : (a.underLock path c).events =
    if (a.build path).isOk then [.started path,a.done path a.buildNanos] else [.started path] := by
  rw [underLock,h]
  exact events_built _ _

theorem misses_events (h : a.Misses) : (a.buildOrResumeFixture path).events = (a.miss path).events := by
  obtain ⟨hprep,hnot⟩ := h
  obtain ⟨u,hu⟩ := exists_ok_of_isOk hprep
  rw [buildOrResumeFixture,hu,events_bind_ok (result_lift _),events_lift,List.nil_append]
  cases hc : a.cached with
  | false => rfl
  | true =>
    obtain ⟨e,he⟩ := exists_error_of_not_isOk fun hok => hnot ⟨hc,hok⟩
    rw [he]
    rfl

theorem not_misses_pairUp (h : ¬a.Misses) : PairUp (a.buildOrResumeFixture path).events := by
  by_cases hprep : a.prepared.isOk
  · obtain ⟨u,hu⟩ := exists_ok_of_isOk hprep
    obtain ⟨hc,hok⟩ := not_not.mp fun hnot => h ⟨hprep,hnot⟩
    obtain ⟨vm,hvm⟩ := exists_ok_of_isOk hok
    rw [buildOrResumeFixture,hu,hc,hvm]
    exact pairUp_hit
  · obtain ⟨e,he⟩ := exists_error_of_not_isOk hprep
    rw [buildOrResumeFixture,he]
    exact pairUp_nil

/-- One path at a time: how the lock comes, if the snapshot is there then, and if the build ends well. -/
theorem pairUp_iff : PairUp (a.buildOrResumeFixture path).events ↔ a.Smooth := by
  by_cases hm : a.Misses
  swap
  · exact ⟨fun _ h => absurd h hm,fun _ => a.not_misses_pairUp path hm⟩
  rw [a.misses_events path hm,Smooth,imp_iff_right hm,miss]
  obtain ⟨ho,e,he⟩ | ⟨ho,hf,he⟩ | ⟨ho,hf,hw,he⟩ | ⟨ho,hf,hw,e,he⟩ := a.lock.acquire_cases path
  · rw [he]
    exact ⟨fun _ => ⟨fun h => absurd h.1 ho,fun h => absurd h.1 ho⟩,fun _ => pairUp_nil⟩
  · rw [events_bind_ok (congrArg Emits.result he),he,List.nil_append]
    have hheld : a.lock.Held := ⟨ho,.inl hf⟩
    have hfree : a.lock.Contended → a.lock.waited.isOk := fun h => absurd (hf.symm.trans h.2) (by decide)
    cases ht : a.there with
    | true =>
      rw [a.underLock_there path ht]
      exact ⟨fun _ => ⟨hfree,fun _ h => nomatch h⟩,fun _ => pairUp_nil⟩
    | false =>
      rw [a.underLock_builds path ht,← a.build_isOk path]
      split
      · rename_i hb
        exact ⟨fun _ => ⟨hfree,fun _ _ => hb⟩,fun _ => pairUp_built⟩
      · rename_i hb
        exact ⟨fun h => absurd h not_pairUp_started,fun h => absurd (h.2 hheld rfl) hb⟩
  · rw [events_bind_ok (congrArg Emits.result he),he]
    have hheld : a.lock.Held := ⟨ho,.inr hw⟩
    cases ht : a.there with
    | true =>
      rw [a.underLock_there path ht]
      exact ⟨fun _ => ⟨fun _ => hw,fun _ h => nomatch h⟩,fun _ => pairUp_waited⟩
    | false =>
      rw [a.underLock_builds path ht,← a.build_isOk path]
      split
      · rename_i hb
        exact ⟨fun _ => ⟨fun _ => hw,fun _ _ => hb⟩,fun _ => pairUp_waited_built⟩
      · rename_i hb
        exact ⟨fun h => absurd h not_pairUp_waiting_started,fun h => absurd (h.2 hheld rfl) hb⟩
  · rw [bind_error (congrArg Emits.result he),he]
    exact ⟨fun h => absurd h not_pairUp_waiting,fun h => absurd (h.1 ⟨ho,hf⟩) hw⟩

end VmAnswers

namespace LabAnswers
variable {α : Type} (a : LabAnswers α) (path : String)

theorem build_isOk : (a.build path).isOk ↔ a.Builds := by
  obtain ⟨_,_,_,_,_,_,outcome,installed,_⟩ := a
  cases outcome with
  | error e => exact ⟨fun h => (nomatch h),fun h => nomatch h.1⟩
  | ok built =>
    cases built with
    | vm => exact ⟨fun h => (nomatch h),fun h => nomatch h.1⟩
    | lab => exact ⟨fun h => ⟨rfl,h⟩,And.right⟩

theorem underLock_there (h : a.there = true) (c : Bool) :
    (a.underLock path c).events = if c then [a.done path a.waitNanos] else [] := by
  rw [underLock,h]
  cases c <;> rfl

theorem underLock_builds (h : a.there = false) (c : Bool) : (a.underLock path c).events =
    if (a.build path).isOk then [.started path,a.done path a.buildNanos] else [.started path] := by
  rw [underLock,h]
  exact events_built _ _

/-- What is done with the lock held. -/
def locked (c : Bool) : Emits α :=
  if a.cached then
    match a.rechecked with
    | .ok lab => pure lab
    | .error _ => a.underLock path c
  else a.underLock path c

theorem locked_replaced (h : a.Replaced) (c : Bool) : (a.locked path c).events = [] := by
  obtain ⟨lab,hlab⟩ := exists_ok_of_isOk h.2
  rw [locked,if_pos h.1,hlab]
  rfl

theorem locked_not_replaced (h : ¬a.Replaced) (c : Bool) : a.locked path c = a.underLock path c := by
  rw [locked]
  split
  · rename_i hc
    obtain ⟨e,he⟩ := exists_error_of_not_isOk fun hok => h ⟨hc,hok⟩
    rw [he]
  · rfl

theorem misses_events (h : a.Misses) : (a.buildOrResumeLabFixture path).events =
    (a.lock.acquire path >>= a.locked path).events := by
  obtain ⟨hprep,hnot⟩ := h
  obtain ⟨u,hu⟩ := exists_ok_of_isOk hprep
  rw [buildOrResumeLabFixture,hu,events_bind_ok (result_lift _),events_lift,List.nil_append]
  unfold locked
  cases hc : a.cached with
  | false => rfl
  | true =>
    obtain ⟨e,he⟩ := exists_error_of_not_isOk fun hok => hnot ⟨hc,hok⟩
    rw [he]
    rfl

theorem not_misses_pairUp (h : ¬a.Misses) : PairUp (a.buildOrResumeLabFixture path).events := by
  by_cases hprep : a.prepared.isOk
  · obtain ⟨u,hu⟩ := exists_ok_of_isOk hprep
    obtain ⟨hc,hok⟩ := not_not.mp fun hnot => h ⟨hprep,hnot⟩
    obtain ⟨lab,hlab⟩ := exists_ok_of_isOk hok
    rw [buildOrResumeLabFixture,hu,hc,hlab]
    exact pairUp_hit
  · obtain ⟨e,he⟩ := exists_error_of_not_isOk hprep
    rw [buildOrResumeLabFixture,he]
    exact pairUp_nil

/-- As for one machine, but for the entry that is good when the lock has come: nothing is emitted for it,
whether there has been a wait or not. -/
theorem pairUp_iff : PairUp (a.buildOrResumeLabFixture path).events ↔ a.Smooth := by
  by_cases hm : a.Misses
  swap
  · exact ⟨fun _ h => absurd h hm,fun _ => a.not_misses_pairUp path hm⟩
  rw [a.misses_events path hm,Smooth,imp_iff_right hm]
  obtain ⟨ho,e,he⟩ | ⟨ho,hf,he⟩ | ⟨ho,hf,hw,he⟩ | ⟨ho,hf,hw,e,he⟩ := a.lock.acquire_cases path
  · rw [he]
    exact ⟨fun _ => ⟨fun h => absurd h.1 ho,fun h => absurd h.1 ho⟩,fun _ => pairUp_nil⟩
  · rw [events_bind_ok (congrArg Emits.result he),he,List.nil_append]
    have hheld : a.lock.Held := ⟨ho,.inl hf⟩
    have hfree : ¬a.lock.Contended := fun h => absurd (hf.symm.trans h.2) (by decide)
    by_cases hr : a.Replaced
    · rw [a.locked_replaced path hr]
      exact ⟨fun _ => ⟨fun h => absurd h hfree,fun _ h => absurd hr h⟩,fun _ => pairUp_nil⟩
    rw [a.locked_not_replaced path hr]
    cases ht : a.there with
    | true =>
      rw [a.underLock_there path ht]
      exact ⟨fun _ => ⟨fun h => absurd h hfree,fun _ _ h => nomatch h⟩,fun _ => pairUp_nil⟩
    | false =>
      rw [a.underLock_builds path ht,← a.build_isOk path]
      split
      · rename_i hb
        exact ⟨fun _ => ⟨fun h => absurd h hfree,fun _ _ _ => hb⟩,fun _ => pairUp_built⟩
      · rename_i hb
        exact ⟨fun h => absurd h not_pairUp_started,fun h => absurd (h.2 hheld hr rfl) hb⟩
  · rw [events_bind_ok (congrArg Emits.result he),he]
    have hheld : a.lock.Held := ⟨ho,.inr hw⟩
    by_cases hr : a.Replaced
    · rw [a.locked_replaced path hr]
      exact ⟨fun h => absurd h not_pairUp_waiting,fun h => absurd hr (h.1 ⟨ho,hf⟩).2⟩
    rw [a.locked_not_replaced path hr]
    cases ht : a.there with
    | true =>
      rw [a.underLock_there path ht]
      exact ⟨fun _ => ⟨fun _ => ⟨hw,hr⟩,fun _ _ h => nomatch h⟩,fun _ => pairUp_waited⟩
    | false =>
      rw [a.underLock_builds path ht,← a.build_isOk path]
      split
      · rename_i hb
        exact ⟨fun _ => ⟨fun _ => ⟨hw,hr⟩,fun _ _ _ => hb⟩,fun _ => pairUp_waited_built⟩
      · rename_i hb
        exact ⟨fun h => absurd h not_pairUp_waiting_started,fun h => absurd (h.2 hheld hr rfl) hb⟩
  · rw [bind_error (congrArg Emits.result he),he]
    exact ⟨fun h => absurd h not_pairUp_waiting,fun h => absurd (h.1 ⟨ho,hf⟩).1 hw⟩

end LabAnswers

/-- The events of a call pair up exactly where no wait and no build that it comes to fails, and, of a lab,
no entry that was corrupt is good after a wait. -/
theorem fixture_events_pair_up_iff {α β : Type} (path : String) :
    (∀ a : VmAnswers α, PairUp (a.buildOrResumeFixture path).events ↔ a.Smooth) ∧
      ∀ a : LabAnswers β, PairUp (a.buildOrResumeLabFixture path).events ↔ a.Smooth :=
  ⟨fun a => a.pairUp_iff path,fun a => a.pairUp_iff path⟩

/-- The fixture's file raises an error. -/
def failingFixture : VmAnswers Unit where
  prepared := .ok ()
  cached := false
  resumed := ⟨false,.ok (),.error ""⟩
  lock := ⟨.ok (),true,none,.ok ()⟩
  there := false
  outcome := .error "boom"
  compressed := false
  renamed := false
  copied := .ok ()
  waitNanos := 0
  buildNanos := 0
  snapshotBytes := none
  restored := ⟨false,.ok (),.error ""⟩

/-- A peer has built the lab again while this file waited for it. -/
def replacedLab : LabAnswers Unit where
  prepared := .ok ()
  cached := true
  resumed := .error "EOF while parsing a value"
  lock := ⟨.ok (),false,some "pid=7",.ok ()⟩
  rechecked := .ok ()
  there := true
  outcome := .ok .lab
  installed := .ok ()
  waitNanos := 0
  buildNanos := 0
  dirSizeBytes := 0
  restored := .ok ()

theorem fixture_events_unpaired :
    (failingFixture.buildOrResumeFixture "web").events = [.started "web"] ∧
      ¬PairUp (failingFixture.buildOrResumeFixture "web").events ∧
      (replacedLab.buildOrResumeLabFixture "web").events = [.waiting "web" "pid=7"] ∧
      ¬PairUp (replacedLab.buildOrResumeLabFixture "web").events :=
  ⟨rfl,not_pairUp_started,rfl,not_pairUp_waiting⟩

end Provium.Fixture
