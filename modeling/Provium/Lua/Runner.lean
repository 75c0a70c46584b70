import Provium.Lua.Metadata
import Provium.Lua.Verdict

/-! The runner's loop over the tests of a file: what it returns for each test, and what it emits. -/
namespace Provium.Lua
open Lib Provium.Fixture

/-- What the runner takes from Rust: the numbers `f64`, `Duration::from_secs_f64`, which panics on a number
that is no duration, the parser of duration texts, and two debug formats. -/
structure Rust (F : Type) where
  ofInt : ℤ → F
  positive : F → Bool
  fromSecs : F → Option ℕ
  parseDuration : Bytes → Option F
  showList : List Bytes → Bytes
  showDuration : ℕ → Bytes

/-- `TestFilter` -/
structure TestFilter where
  includeSlow : Bool
  tag : List Bytes
  noTag : List Bytes
  tagMeta : List (Bytes × Bytes)
  noTagMeta : List (Bytes × Bytes)

def collectTags {F : Type} (fields : MetaMap F) : List Bytes :=
  match fields.lookup (bytesOf "tags") with
  | some (.str s) => [s]
  | some (.array items) => items.filterMap fun
    | .str s => some s
    | _ => none
  | _ => []

def metaFieldContains {F : Type} (fields : MetaMap F) (key wanted : Bytes) : Bool :=
  match fields.lookup key with
  | some (.str s) => s == wanted
  | some (.array items) => items.any fun
    | .str s => s == wanted
    | _ => false
  | _ => false

/-- `(k, v)` in the texts of the filter. -/
def keyValue (p : Bytes × Bytes) : Bytes := p.1++bytesOf "="++p.2

section
variable {F : Type} (rust : Rust F)

def skipReason (fields : MetaMap F) : Option Bytes :=
  match fields.lookup (bytesOf "skip") with
  | some (.bool true) => some (bytesOf "skipped (meta.skip)")
  | some (.int n) => if n ≠ 0 then some (bytesOf "skipped (meta.skip)") else none
  | some (.str s) => some (bytesOf "skipped: "++s)
  | _ => none

def slowReason (fields : MetaMap F) : Option Bytes :=
  match fields.lookup (bytesOf "slow") with
  | some (.bool true) => some (bytesOf "filtered: slow tests skipped (pass --include-slow)")
  | some (.int n) =>
    if n ≠ 0 then some (bytesOf "filtered: slow tests skipped (pass --include-slow)") else none
  | _ => none

namespace TestFilter
variable (filter : TestFilter)

def noTagReason (tags : List Bytes) : Option Bytes :=
  if filter.noTag ≠ [] ∧ tags.any (filter.noTag.contains ·) then
    some (bytesOf "filtered: matched --no-tag ("++rust.showList filter.noTag++bytesOf ")")
  else none

def tagReason (tags : List Bytes) : Option Bytes :=
  if filter.tag ≠ [] ∧ ¬tags.any (filter.tag.contains ·) then
    some (bytesOf "filtered: did not match --tag ("++rust.showList filter.tag++bytesOf ")")
  else none

def noTagMetaReason (fields : MetaMap F) : Option Bytes :=
  (filter.noTagMeta.find? fun p => metaFieldContains fields p.1 p.2).map fun p =>
    bytesOf "filtered: matched --no-tag-meta ("++keyValue p++bytesOf ")"

/-- The keys of `tag_meta`, each once, in the order of the set that they are put into. -/
def tagMetaKeys : List Bytes := (filter.tagMeta.map Prod.fst).dedup.mergeSort fun a b => decide (a ≤ b)

def tagMetaReason (fields : MetaMap F) : Option Bytes :=
  (filter.tagMetaKeys.find? fun k =>
    !(filter.tagMeta.filter (·.1 == k)).any fun p => metaFieldContains fields k p.2).map fun k =>
    bytesOf "filtered: did not match any --tag-meta "++k++bytesOf "=…"

/-- `TestFilter::should_skip` -/
def shouldSkip (fields : MetaMap F) : Option Bytes :=
  let tags := collectTags fields
  skipReason fields <|>
    (if filter.includeSlow then none else slowReason fields) <|>
    filter.noTagReason rust tags <|> filter.tagReason rust tags <|>
    filter.noTagMetaReason fields <|> filter.tagMetaReason fields

end TestFilter

/-- A deadline, if there is to be one; `none` where working it out panics. -/
abbrev Deadline := Option (Option ℕ)

/-- `test_timeout_from_meta` -/
def testTimeoutFromMeta (fields : MetaMap F) : Deadline :=
  match fields.lookup (bytesOf "timeout") with
  | some (.int n) => if 0 < n then (rust.fromSecs (rust.ofInt n)).map some else some none
  | some (.float x) => if rust.positive x then (rust.fromSecs x).map some else some none
  | some (.str s) =>
    match rust.parseDuration s with
    | some x => (rust.fromSecs x).map some
    | none => some none
  | _ => some none

/-- The deadline of `provium.timeout`. -/
def fileDefaultTimeout (timeout : Option (MetaValue F)) : Deadline :=
  match timeout with
  | some (.int n) => some (if 0 < n then some (n.toNat*10^9) else none)
  | some (.float x) => if rust.positive x then (rust.fromSecs x).map some else some none
  | some (.str s) =>
    match rust.parseDuration s with
    | some x => (rust.fromSecs x).map some
    | none => some none
  | _ => some none

end

inductive VmEvent where
  | spawned (file vmName profile : String) (memory cid : ℕ)
  | shutdown (file vmName : String) (duration : ℕ)
  deriving DecidableEq, Repr

inductive Event (F : Type) where
  | testStarted (path name : Bytes) (fields : MetaMap F)
  | testSkipped (path name reason : Bytes) (fields : MetaMap F)
  | testPassed (path name : Bytes) (duration : ℕ) (fields : MetaMap F)
  | testFailed (path name : Bytes) (duration : ℕ) (reason console : Bytes) (fields : MetaMap F)
  | vm (e : VmEvent)

/-- What calling a test's function comes to. -/
inductive Called (V : Type) where
  | ended (r : Except V Unit)
  | panicked (payload : Bytes)

/-- What the conversions of a registered test rest on: the text that Lua makes of a number, and how deep the tables
of its metadata may be nested before the stack overflows. -/
structure Conversions (F : Type) where
  showNumber : F → Bytes
  depth : ℕ

/-- `get::<String>` -/
def LuaRef.asString {F : Type} {n : ℕ} (conv : Conversions F) : LuaRef F n → Option Bytes
  | .string s => if (ofUtf8 s).isSome then some s else none
  | .integer i => some (bytesOf (toString i))
  | .number x => some (conv.showNumber x)
  | _ => none

/-- A registered test as its turn finds it, among the tables of the file, with what happens when its body runs:
whether a thread can be had for its watchdog, how the call ends and what it leaves in `t`, whether the watchdog
fires where there is one, the VM events of the body and those of its scope's teardown. -/
structure Test (V F : Type) where
  tables : ℕ
  heap : LuaHeap F tables
  name : LuaRef F tables
  metadata : LuaRef F tables
  called : Called V
  context : TestContext V
  spawned : Bool
  lapsed : Bool
  duration : ℕ
  console : Bytes
  during : List VmEvent
  teardown : List VmEvent

inductive Baseline where
  | unasked
  | taken
  | refused (message : Bytes)
  | noDirectory
  deriving DecidableEq

/-- A test file: what its chunk comes to, and what the chunk leaves for the runner. The registry is read as
the loop goes, so that a test which a body registers is one of the tests. -/
structure File (V F : Type) where
  path : Bytes
  chunk : Except Bytes Unit
  timeout : Option (MetaValue F)
  baseline : Baseline
  todo : Option Bytes
  tests : List (Test V F)

abbrev NamedOutcome := Bytes × TestOutcome

structure FileOutcome where
  path : Bytes
  chunkError : Option Bytes
  tests : List NamedOutcome
  deriving DecidableEq

/-- How a run of a file ends: with an outcome, with an error of the bindings, with a panic, or with the process. -/
inductive Ended where
  | returned (o : FileOutcome)
  | bubbled
  | unwound
  | overflowed
  deriving DecidableEq

section
variable {V F : Type} [DecidableEq F] (lua : Values V) (rust : Rust F) (conv : Conversions F)

/-- `lua_value_to_meta_map` of the test's metadata; there is nothing where the stack overflows. -/
def Test.fields (test : Test V F) : Option (MetaMap F) := metaMapWalk test.heap conv.depth test.metadata

/-- A test that is skipped before it starts. -/
def skipped (path name reason : Bytes) (fields : MetaMap F) : NamedOutcome × List (Event F) :=
  ((name,⟨.skipped,some reason,[]⟩),[.testSkipped path name reason fields])

/-- The outcomes of a panic: the test's own, and those of the tests that come after it. -/
def poisoned (registered : List (Test V F)) (outcomes : List NamedOutcome) (name payload : Bytes)
    (log : List Bytes) : List NamedOutcome :=
  let own : NamedOutcome := (name,⟨.failed,some (bytesOf "Rust panic: "++payload),log⟩)
  own::(registered.drop (outcomes++[own]).length).map fun test => ((test.name.asString conv).getD [],
    ⟨.failed,some (bytesOf "failed-due-to-poisoned-state (earlier test panicked)"),[]⟩)

end

end Provium.Lua
