import Provium.Lua.TestFramework

/-! What happens while a body runs, told without the context's flags, and the verdict that this calls for. -/
namespace Provium.Lua

/-- How a body ends. -/
inductive Ending (V : Type) where
  | returns
  | skip (place : Bytes)
  | raised (v : V)

/-- What has happened: an assertion has failed outside every `assert_raises` that ended satisfied, and
either its message was made or making it raised; `t:skip` was called. -/
structure Happened where
  marked : Bool
  unmade : Bool
  skips : Bool
  deriving DecidableEq, Repr

def Happened.nothing : Happened := ⟨false,false,false⟩

def Happened.and (h h' : Happened) : Happened :=
  ⟨h.marked || h'.marked,h.unmade || h'.unmade,h.skips || h'.skips⟩

/-- What is left of the happenings inside an `assert_raises` that ends satisfied. -/
def Happened.excused (h : Happened) : Happened := ⟨false,false,h.skips⟩

@[simp] theorem Happened.nothing_and (h : Happened) : Happened.nothing.and h = h := by
  simp [Happened.nothing,Happened.and]

@[simp] theorem Happened.and_marked (h h' : Happened) : (h.and h').marked = (h.marked || h'.marked) := rfl
@[simp] theorem Happened.and_skips (h h' : Happened) : (h.and h').skips = (h.skips || h'.skips) := rfl

section
variable {V : Type} (lua : Values V)

/-- What a `pcall` around the body gives. -/
def Ending.result : Ending V → Except V Unit
  | .returns => .ok ()
  | .skip place => .error (located lua place (lua.str skipSentinel))
  | .raised v => .error v

/-- An assertion that has failed. -/
def failing (place : Bytes) : Except V V → Ending V × Happened
  | .ok m => (.raised (located lua place m),⟨true,false,false⟩)
  | .error e => (.raised e,⟨false,true,false⟩)

def happensAfter (place : Bytes) (c : Check V) (k : Ending V × Happened) : Ending V × Happened :=
  match c with
  | .holds => k
  | .raises e => (.raised e,Happened.nothing)
  | .fails m => failing lua place m

/-- How a body ends, and what happens in it. -/
def happens : Body V → Ending V × Happened
  | .finish => (.returns,Happened.nothing)
  | .error place v => (.raised (located lua place v),Happened.nothing)
  | .assert place cond msg k => happensAfter lua place (checkAssert lua cond msg) (happens k)
  | .assertEq place a b msg k => happensAfter lua place (checkAssertEq lua a b msg) (happens k)
  | .assertNeq place a b msg k => happensAfter lua place (checkAssertNeq lua a b msg) (happens k)
  | .assertContains place h n msg k => happensAfter lua place (checkAssertContains lua h n msg) (happens k)
  | .assertRaises place fn msg k =>
    match (happens fn).1.result lua with
    | .ok () =>
      let own := failing lua place (assertRaisesMessage lua msg)
      (own.1,(happens fn).2.and own.2)
    | .error e => ((happens (k e)).1,(happens fn).2.excused.and (happens (k e)).2)
  | .fail place msg => happensAfter lua place (checkFail lua msg) (.returns,Happened.nothing)
  | .skip place _ => (.skip place,⟨false,false,true⟩)
  | .log msg k =>
    match lua.tostring msg with
    | .error e => (.raised e,Happened.nothing)
    | .ok _ => happens k
  | .pcall fn k =>
    let rest := happens (k ((happens fn).1.result lua))
    (rest.1,(happens fn).2.and rest.2)

/-- `(r,t')` is what the happenings make of a context with these flags. -/
def Tells (t : TestContext V) (w : Ending V × Happened) (r : Except V Unit × TestContext V) : Prop :=
  r.1 = w.1.result lua ∧ r.2.failed = (t.failed || w.2.marked) ∧ r.2.skipped = (t.skipped || w.2.skips)

theorem failed_markFail (t : TestContext V) (m : V) : (t.markFail m).failed = true := by
  unfold TestContext.markFail
  split
  · assumption
  · rfl

theorem skipped_markFail (t : TestContext V) (m : V) : (t.markFail m).skipped = t.skipped := by
  unfold TestContext.markFail
  split <;> rfl

theorem tells_after (place : Bytes) (c : Check V) (k : TestContext V → Except V Unit × TestContext V)
    (w : Ending V × Happened) (t : TestContext V) (hk : Tells lua t w (k t)) :
    Tells lua t (happensAfter lua place c w) (run.after lua place c k t) := by
  cases c with
  | holds => exact hk
  | raises e => simp [Tells,run.after,happensAfter,Ending.result,Happened.nothing]
  | fails m =>
    cases m with
    | error e =>
      simp [Tells,run.after,happensAfter,failing,TestContext.raiseFailed,Ending.result]
    | ok m =>
      simp [Tells,run.after,happensAfter,failing,TestContext.raiseFailed,Ending.result,failed_markFail,
        skipped_markFail]

/-- The context that a part of the body leaves is the one that the rest of the body starts from. -/
theorem Tells.trans {t t₁ : TestContext V} {h : Happened} {w : Ending V × Happened}
    {r : Except V Unit × TestContext V} (hf : t₁.failed = (t.failed || h.marked))
    (hs : t₁.skipped = (t.skipped || h.skips)) (hr : Tells lua t₁ w r) :
    Tells lua t (w.1,h.and w.2) r := by
  obtain ⟨he,hrf,hrs⟩ := hr
  refine ⟨he,?_,?_⟩
  · rw [hrf,hf,Happened.and_marked,Bool.or_assoc]
  · rw [hrs,hs,Happened.and_skips,Bool.or_assoc]

/-- Running a body raises what the body ends with, and leaves the flags of what happened in it. -/
theorem run_tells (b : Body V) (t : TestContext V) : Tells lua t (happens lua b) (run lua b t) := by
  induction b generalizing t with
  | finish => simp [Tells,run,happens,Ending.result,Happened.nothing]
  | error place v => simp [Tells,run,happens,Ending.result,Happened.nothing]
  | assert place cond msg k ih => exact tells_after lua place _ _ _ t (ih t)
  | assertEq place a b msg k ih => exact tells_after lua place _ _ _ t (ih t)
  | assertNeq place a b msg k ih => exact tells_after lua place _ _ _ t (ih t)
  | assertContains place h n msg k ih => exact tells_after lua place _ _ _ t (ih t)
  | fail place msg =>
    refine tells_after lua place _ _ _ t ?_
    simp [Tells,Ending.result,Happened.nothing]
  | skip place reason => simp [Tells,run,happens,Ending.result]
  | log msg k ih =>
    unfold run happens
    cases hm : lua.tostring msg with
    | error e => simp [Tells,Ending.result,Happened.nothing]
    | ok text => exact ih _
  | pcall fn k ihf ihk =>
    obtain ⟨he,hf,hs⟩ := ihf t
    have hk := ihk ((happens lua fn).1.result lua) (run lua fn t).2
    have hrun : run lua (.pcall fn k) t = run lua (k ((happens lua fn).1.result lua)) (run lua fn t).2 := by
      rw [← he]
      rfl
    rw [hrun]
    exact Tells.trans lua hf hs hk
  | assertRaises place fn msg k ihf ihk =>
    obtain ⟨he,hf,hs⟩ := ihf t
    rcases hr : run lua fn t with ⟨r,t₁⟩
    simp only [hr] at he hf hs
    unfold run happens
    rw [hr,← he]
    cases r with
    | ok u =>
      have hown := tells_after lua place (.fails (assertRaisesMessage lua msg)) (fun t => (.ok (),t))
        (.returns,Happened.nothing) t₁ (by simp [Tells,Ending.result,Happened.nothing])
      exact Tells.trans lua hf hs hown
    | error e =>
      -- satisfied: the failures of `fn` are forgotten, its skips are not
      refine Tells.trans lua ?_ ?_ (ihk e _)
      · simp [Happened.excused]
      · exact hs

/-- A body that ends with a skip has called `t:skip`. -/
theorem skips_of_ends_skip (b : Body V) {place : Bytes} (h : (happens lua b).1 = .skip place) :
    (happens lua b).2.skips = true := by
  have after (place' : Bytes) (c : Check V) (w : Ending V × Happened) (hw : w.1 = .skip place → w.2.skips = true)
      (h : (happensAfter lua place' c w).1 = .skip place) : (happensAfter lua place' c w).2.skips = true := by
    cases c with
    | holds => exact hw h
    | raises e => cases h
    | fails m => cases m <;> cases h
  induction b with
  | finish => cases h
  | error p v => cases h
  | assert p cond msg k ih => exact after _ _ _ ih h
  | assertEq p a b msg k ih => exact after _ _ _ ih h
  | assertNeq p a b msg k ih => exact after _ _ _ ih h
  | assertContains p a b msg k ih => exact after _ _ _ ih h
  | fail p msg => exact after _ _ _ (by simp) h
  | skip p reason => rfl
  | log msg k ih =>
    unfold happens at h ⊢
    cases hm : lua.tostring msg with
    | error e => rw [hm] at h; cases h
    | ok text => rw [hm] at h; exact ih h
  | pcall fn k _ ihk =>
    unfold happens at h ⊢
    rw [Happened.and_skips,ihk _ h,Bool.or_true]
  | assertRaises p fn msg k _ ihk =>
    unfold happens at h ⊢
    cases hr : (happens lua fn).1.result lua with
    | ok u =>
      rw [hr] at h
      cases hm : assertRaisesMessage lua msg <;> simp [failing,hm] at h
    | error e =>
      rw [hr] at h
      rw [Happened.and_skips,ihk e h,Bool.or_true]

/-- The body ends with an error that nobody has caught and that is not one of `t:skip`. Where `t:skip` was
called, an error that the body raises again may be counted as the one of `t:skip` that it had caught:
`again` says which are. -/
def EndsFailing (again : V → Prop) (b : Body V) : Prop :=
  ∃ v, (happens lua b).1 = .raised v ∧ ((happens lua b).2.skips = true → ¬again v)

/-- The body has failed: an assertion in it has, or its end is a failure. -/
def HasFailed (again : V → Prop) (b : Body V) : Prop :=
  (happens lua b).2.marked = true ∨ (happens lua b).2.unmade = true ∨ EndsFailing lua again b

/-- The verdict that a body deserves. -/
def Deserves (again : V → Prop) (b : Body V) : TestStatus → Prop
  | .failed => HasFailed lua again b
  | .skipped => ¬HasFailed lua again b ∧ (happens lua b).2.skips = true
  | .passed => ¬HasFailed lua again b ∧ (happens lua b).2.skips = false

/-- Where `t:skip` was called nothing has failed; where it was not, a failed assertion that the body goes on
from has made its message, and an error at the end does not show the sentinel. -/
def FlagsSuffice (again : V → Prop) (b : Body V) : Prop :=
  if (happens lua b).2.skips then ¬HasFailed lua again b
  else match (happens lua b).1 with
    | .raised v => ¬skipSentinel <:+: lua.shown v
    | _ => (happens lua b).2.unmade = true → (happens lua b).2.marked = true

/-- The status, from the ending and the flags. -/
theorem status_outcome (b : Body V) : (outcome lua b).status =
    if (happens lua b).2.skips then .skipped
    else match (happens lua b).1 with
      | .raised v => if skipSentinel <:+: lua.shown v then .skipped else .failed
      | _ => if (happens lua b).2.marked then .failed else .passed := by
  obtain ⟨he,hf,hs⟩ := run_tells lua b makeT
  have hskip := @skips_of_ends_skip _ lua b
  unfold outcome
  rcases hr : run lua b makeT with ⟨r,t⟩
  simp only [hr] at he hf hs
  change t.failed = (happens lua b).2.marked at hf
  change t.skipped = (happens lua b).2.skips at hs
  simp only
  rw [← hs,← hf,he]
  cases hend : (happens lua b).1 with
  | returns => cases hs' : t.skipped <;> cases hf' : t.failed <;> simp [classify,Ending.result,hs',hf']
  | skip place =>
    have hs' : t.skipped = true := hs.trans (hskip hend)
    simp [classify,classifyFailure,Ending.result,hs']
  | raised v =>
    cases hs' : t.skipped
    · by_cases hv : skipSentinel <:+: lua.shown v <;>
        simp [classify,classifyFailure,Ending.result,hs',hv]
    · simp [classify,classifyFailure,Ending.result,hs']

/-- The runner gives a body the verdict that it deserves exactly when the flags suffice to tell it. -/
theorem verdict_sound_iff (again : V → Prop) (b : Body V) :
    Deserves lua again b (outcome lua b).status ↔ FlagsSuffice lua again b := by
  rw [status_outcome]
  unfold FlagsSuffice
  cases hs : (happens lua b).2.skips with
  | true => simp [Deserves,hs]
  | false =>
    cases hend : (happens lua b).1 with
    | raised v =>
      have hfailed : HasFailed lua again b := Or.inr (Or.inr ⟨v,hend,by simp [hs]⟩)
      by_cases hv : skipSentinel <:+: lua.shown v <;> simp [Deserves,hfailed,hv]
    | returns =>
      have hends : ¬EndsFailing lua again b := by simp [EndsFailing,hend]
      cases hm : (happens lua b).2.marked <;> cases hu : (happens lua b).2.unmade <;>
        simp [Deserves,HasFailed,hends,hm,hu,hs]
    | skip place =>
      have hends : ¬EndsFailing lua again b := by simp [EndsFailing,hend]
      cases hm : (happens lua b).2.marked <;> cases hu : (happens lua b).2.unmade <;>
        simp [Deserves,HasFailed,hends,hm,hu,hs]

end

/-- Values that are nil or a string. -/
def plainValues : Values (Option Bytes) where
  truthy := Option.isSome
  eq a b := .ok (a == b)
  tostring v := .ok (v.getD (bytesOf "nil"))
  concat
    | some p,s => .ok (some (p++s))
    | none,_ => .error (some (bytesOf "attempt to concatenate a nil value"))
  str := some
  asString := id
  asText := id
  shown v := v.getD (bytesOf "nil")

/-- `pcall(function() t:fail("x") end); t:skip("y")` -/
def failsThenSkips : Body (Option Bytes) :=
  .pcall (.fail (bytesOf "a.lua:2: ") (some (bytesOf "x")))
    fun _ => .skip (bytesOf "a.lua:3: ") (some (bytesOf "y"))

/-- The assertion has failed, and the verdict is `Skipped`. -/
theorem skip_hides_failure : HasFailed plainValues (fun _ => False) failsThenSkips ∧
    ¬Deserves plainValues (fun _ => False) failsThenSkips (outcome plainValues failsThenSkips).status := by
  have hmarked : (happens plainValues failsThenSkips).2.marked = true := by decide +kernel
  have hstatus : (outcome plainValues failsThenSkips).status = .skipped := by decide +kernel
  have hfailed : HasFailed plainValues (fun _ => False) failsThenSkips := Or.inl hmarked
  refine ⟨hfailed,?_⟩
  rw [hstatus]
  exact fun h => h.1 hfailed

end Provium.Lua
