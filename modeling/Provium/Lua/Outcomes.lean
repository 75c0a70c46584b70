import Provium.Lua.Runner

/-! The outcomes that a run of a file returns, against the events that it emits. -/
namespace Provium.Lua
open Lib Provium.Fixture

variable {V F : Type}

/-- The name and the status that a terminal event tells. -/
def Event.terminal : Event F → Option (Bytes × TestStatus)
  | .testSkipped _ name _ _ => some (name,.skipped)
  | .testPassed _ name _ _ => some (name,.passed)
  | .testFailed _ name _ _ _ _ => some (name,.failed)
  | .testStarted _ _ _ => none
  | .vm _ => none

def Event.started : Event F → Option Bytes
  | .testStarted _ name _ => some name
  | _ => none

/-- The events of one test: one terminal event, and one start before it if the body ran. -/
structure EventsOf (ran : Bool) (name : Bytes) (status : TestStatus) (events : List (Event F)) : Prop where
  split : ∃ before e after, events = before++e::after ∧ e.terminal = some (name,status) ∧
    before.filterMap Event.terminal = [] ∧ after.filterMap Event.terminal = [] ∧
    before.filterMap Event.started = (if ran then [name] else []) ∧ after.filterMap Event.started = []

/-- Each test has an outcome of its name, and the stream tells of them one after the other. -/
inductive Matches (conv : Conversions F) (ran : Test V F → Bool) :
    List (Test V F) → List NamedOutcome → List (Event F) → Prop
  | nil : Matches conv ran [] [] []
  | cons {test : Test V F} {o : NamedOutcome} {es : List (Event F)} {tests : List (Test V F)}
      {outcomes : List NamedOutcome} {events : List (Event F)} (name : test.name.asString conv = some o.1)
      (tells : EventsOf (ran test) o.1 o.2.status es) (rest : Matches conv ran tests outcomes events) :
      Matches conv ran (test::tests) (o::outcomes) (es++events)

section
variable {conv : Conversions F} {ran : Test V F → Bool}

theorem Matches.snoc {tests : List (Test V F)} {outcomes : List NamedOutcome}
    {events es : List (Event F)} {test : Test V F} {o : NamedOutcome} (h : Matches conv ran tests outcomes events)
    (name : test.name.asString conv = some o.1) (tells : EventsOf (ran test) o.1 o.2.status es) :
    Matches conv ran (tests++[test]) (outcomes++[o]) (events++es) := by
  induction h with
  | nil => simpa using Matches.cons name tells .nil
  | cons name' tells' _ ih =>
    rw [List.append_assoc]
    exact .cons name' tells' ih

theorem Matches.names {tests : List (Test V F)} {outcomes : List NamedOutcome}
    {events : List (Event F)} (h : Matches conv ran tests outcomes events) :
    tests.map (·.name.asString conv) = outcomes.map fun o => some o.1 := by
  induction h with
  | nil => rfl
  | cons name _ _ ih => rw [List.map_cons,List.map_cons,name,ih]

end

def Called.panics : Called V → Bool
  | .ended _ => false
  | .panicked _ => true

section
variable [DecidableEq F] (lua : Values V) (rust : Rust F) (conv : Conversions F)

/-- The name is a text or a number, and the tables of the metadata are not too deep. -/
def Test.Readable (test : Test V F) : Prop :=
  (test.name.asString conv).isSome ∧ NestedWithin test.heap conv.depth test.metadata

/-- The test can be read, and where it is not skipped, its deadline can be worked out and watched, and its body
does not panic. -/
def Test.Calm (filter : TestFilter) (fileDefault : Option ℕ) (test : Test V F) : Prop :=
  test.Readable conv ∧ ∀ fields, test.fields conv = some fields → filter.shouldSkip rust fields = none →
    ∃ own, testTimeoutFromMeta rust fields = some own ∧ ((own <|> fileDefault).isSome → test.spawned) ∧
      test.called.panics = false

/-- Every test can be read, and nothing that runs panics: not the deadline of the file, and where there is no
`todo`, no test. -/
def File.Calm (filter : TestFilter) (file : File V F) : Prop :=
  ∃ fileDefault, fileDefaultTimeout rust file.timeout = some fileDefault ∧
    (∀ test ∈ file.tests, test.Readable conv) ∧
    (file.todo = none → ∀ test ∈ file.tests, test.Calm rust conv filter fileDefault)

variable {rust conv} {filter : TestFilter} {fileDefault : Option ℕ} {test : Test V F}

/-- A test that can be read has a name and fields. -/
theorem Test.Readable.read (h : test.Readable conv) : ∃ name fields, test.name.asString conv = some name ∧
    test.fields conv = some fields := by
  obtain ⟨name,hname⟩ := Option.isSome_iff_exists.mp h.1
  obtain ⟨fields,hfields⟩ := Option.isSome_iff_exists.mp ((metaMapWalk_isSome_iff _ _ _).mpr h.2)
  exact ⟨name,fields,hname,hfields⟩

end

end Provium.Lua
