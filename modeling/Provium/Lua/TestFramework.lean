import Mathlib

/-! The test context `t` of the Lua framework, the bodies that are written with it, and how the runner
makes an outcome of what a body comes to. -/
namespace Provium.Lua

abbrev Bytes := List UInt8

def bytesOf (s : String) : Bytes := s.toUTF8.toList

/-- What the framework needs of Lua's values: truth, `==`, `tostring` and `..` (each of the last three may
run a metamethod that raises), strings, what the runner reads where it asks for a `String`, and how an
error that nobody has caught is shown. -/
structure Values (V : Type) where
  truthy : V → Bool
  eq : V → V → Except V Bool
  tostring : V → Except V Bytes
  concat : V → Bytes → Except V V
  str : Bytes → V
  asString : V → Option Bytes
  asText : V → Option Bytes
  shown : V → Bytes

/-- The fields of `t` that the runner reads. -/
structure TestContext (V : Type) where
  skipped : Bool
  skipReason : Option V
  failed : Bool
  failedMsg : Option V
  log : List Bytes

/-- `_provium_make_t` -/
def makeT {V : Type} : TestContext V := ⟨false,none,false,none,[]⟩

/-- A test body: the calls that it makes, and what it goes on with. What a body does besides (its locals,
its loops, its branches, the VMs that it talks to) is what it goes on with. A call that raises knows its
`place`, the text that `error` puts before a message. -/
inductive Body (V : Type) where
  | finish
  | error (place : Bytes) (v : V)
  | assert (place : Bytes) (cond msg : V) (k : Body V)
  | assertEq (place : Bytes) (a b msg : V) (k : Body V)
  | assertNeq (place : Bytes) (a b msg : V) (k : Body V)
  | assertContains (place : Bytes) (haystack needle msg : V) (k : Body V)
  | assertRaises (place : Bytes) (fn : Body V) (msg : V) (k : V → Body V)
  | fail (place : Bytes) (msg : V)
  | skip (place : Bytes) (reason : V)
  | log (msg : V) (k : Body V)
  | pcall (fn : Body V) (k : Except V Unit → Body V)

/-- `SKIP_SENTINEL` -/
def skipSentinel : Bytes := bytesOf "__PROVIUM_SKIP__"

section
variable {V : Type} (lua : Values V)

/-- `v or s` -/
def orText (v : V) (s : String) : V := if lua.truthy v then v else lua.str (bytesOf s)

/-- What `error` raises for a value: a string gets the place before it. -/
def located (place : Bytes) (v : V) : V :=
  match lua.asString v with
  | some s => lua.str (place++s)
  | none => v

/-- `_mark_fail` -/
def TestContext.markFail (t : TestContext V) (m : V) : TestContext V :=
  if t.failed then t else { t with failed := true, failedMsg := some m }

/-- The message of an assertion that has failed, which may raise while it is made. -/
def assertMessage (msg : V) : V := orText lua msg "assertion failed"

def comparison (verb sign : String) (a b msg : V) : Except V V := do
  let ta ← lua.tostring a
  let tb ← lua.tostring b
  lua.concat (orText lua msg verb) (bytesOf ": "++ta++bytesOf sign++tb)

def assertEqMessage (a b msg : V) : Except V V := comparison lua "assert_eq failed" " ~= " a b msg

def assertNeqMessage (a b msg : V) : Except V V := comparison lua "assert_neq failed" " == " a b msg

def assertContainsMessage (haystack needle : Bytes) (msg : V) : Except V V :=
  lua.concat (orText lua msg "assert_contains failed")
    (bytesOf ": "++needle++bytesOf " not found in: "++haystack)

def assertRaisesMessage (msg : V) : Except V V :=
  lua.concat (orText lua msg "assert_raises") (bytesOf ": expected to raise")

/-- How an assertion comes out: it holds, it raises before it is decided, or it has failed, with its message
or with the error that making the message raised. -/
inductive Check (V : Type) where
  | holds
  | raises (e : V)
  | fails (message : Except V V)

def checkAssert (cond msg : V) : Check V :=
  if lua.truthy cond then .holds else .fails (.ok (assertMessage lua msg))

def checkAssertEq (a b msg : V) : Check V :=
  match lua.eq a b with
  | .error e => .raises e
  | .ok true => .holds
  | .ok false => .fails (assertEqMessage lua a b msg)

def checkAssertNeq (a b msg : V) : Check V :=
  match lua.eq a b with
  | .error e => .raises e
  | .ok true => .fails (assertNeqMessage lua a b msg)
  | .ok false => .holds

def checkAssertContains (haystack needle msg : V) : Check V :=
  match lua.asString haystack,lua.asString needle with
  | some h,some n => if n <:+: h then .holds else .fails (assertContainsMessage lua h n msg)
  | _,_ => .fails (.ok (lua.str (bytesOf "assert_contains: both arguments must be strings (slice 2 limit)")))

def checkFail (msg : V) : Check V := .fails (.ok (orText lua msg "explicit failure (t:fail)"))

/-- What raises when an assertion has failed: the message is made, then marked, then raised. -/
def TestContext.raiseFailed (t : TestContext V) (place : Bytes) : Except V V → V × TestContext V
  | .ok m => (located lua place m,t.markFail m)
  | .error e => (e,t)

/-- A body, run on its context. -/
def run : Body V → TestContext V → Except V Unit × TestContext V
  | .finish,t => (.ok (),t)
  | .error place v,t => (.error (located lua place v),t)
  | .assert place cond msg k,t => after place (checkAssert lua cond msg) (run k) t
  | .assertEq place a b msg k,t => after place (checkAssertEq lua a b msg) (run k) t
  | .assertNeq place a b msg k,t => after place (checkAssertNeq lua a b msg) (run k) t
  | .assertContains place h n msg k,t => after place (checkAssertContains lua h n msg) (run k) t
  | .assertRaises place fn msg k,t =>
    match run fn t with
    | (.ok (),t₁) => after place (.fails (assertRaisesMessage lua msg)) (fun t => (.ok (),t)) t₁
    -- the flags that were saved before `fn` are put back
    | (.error e,t₁) => run (k e) { t₁ with failed := t.failed, failedMsg := t.failedMsg }
  | .fail place msg,t => after place (checkFail lua msg) (fun t => (.ok (),t)) t
  | .skip place reason,t =>
    (.error (located lua place (lua.str skipSentinel)),{ t with skipped := true, skipReason := some reason })
  | .log msg k,t =>
    match lua.tostring msg with
    | .error e => (.error e,t)
    | .ok text => run k { t with log := t.log++[text] }
  | .pcall fn k,t =>
    let (r,t) := run fn t
    run (k r) t
where
  /-- What comes after an assertion. -/
  after (place : Bytes) (c : Check V) (k : TestContext V → Except V Unit × TestContext V)
      (t : TestContext V) : Except V Unit × TestContext V :=
    match c with
    | .holds => k t
    | .raises e => (.error e,t)
    | .fails m =>
      let (e,t) := t.raiseFailed lua place m
      (.error e,t)

inductive TestStatus where
  | passed
  | failed
  | skipped
  deriving DecidableEq, Repr

/-- `TestOutcome`, without the name. -/
structure TestOutcome where
  status : TestStatus
  message : Option Bytes
  log : List Bytes
  deriving DecidableEq, Repr

/-- `classify_failure` -/
def classifyFailure (t : TestContext V) (e : V) : TestOutcome :=
  if t.skipped = true ∨ skipSentinel <:+: lua.shown e then ⟨.skipped,t.skipReason.bind lua.asText,t.log⟩
  else ⟨.failed,some (lua.shown e),t.log⟩

/-- How the runner classifies a body that has come to its end before any deadline. -/
def classify (r : Except V Unit) (t : TestContext V) : TestOutcome :=
  match r with
  | .error e => classifyFailure lua t e
  | .ok () =>
    if t.skipped then ⟨.skipped,t.skipReason.bind lua.asText,t.log⟩
    else if t.failed then
      ⟨.failed,some ((t.failedMsg.bind lua.asText).getD (bytesOf "assertion failed (caught by pcall)")),t.log⟩
    else ⟨.passed,none,t.log⟩

/-- The outcome of a test. -/
def outcome (b : Body V) : TestOutcome :=
  let (r,t) := run lua b makeT
  classify lua r t

end

end Provium.Lua
