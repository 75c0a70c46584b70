import Mathlib

/-! Histories of concurrent calls. Each call is stamped with the steps at which it began and
returned; a history is linearizable when its calls, put into some order that agrees with real time,
did what they would have done one after the other. -/
namespace Lib

/-- A call with the steps at which it began and, once it has, returned. -/
structure Timed (α : Type*) where
  call : α
  called : ℕ
  returned : Option ℕ
  deriving DecidableEq, Repr

namespace Timed
variable {α : Type*}

/-- `a` had returned before `b` was called. -/
def Precedes (a b : Timed α) : Prop := ∃ r ∈ a.returned, r < b.called

instance (a b : Timed α) : Decidable (a.Precedes b) :=
  inferInstanceAs (Decidable (∃ r ∈ a.returned, r < b.called))

/-- The call that began at `called` returns, with what it learned. -/
def finish (called now : ℕ) (learn : α → α) (e : Timed α) : Timed α :=
  if e.called = called then ⟨learn e.call,e.called,some now⟩ else e

@[simp] theorem finish_called (called now : ℕ) (learn : α → α) (e : Timed α) :
    (e.finish called now learn).called = e.called := by
  unfold finish
  split <;> rfl

/-- The other calls are left alone. -/
theorem map_finish {called : ℕ} {log : List (Timed α)} (h : ∀ e ∈ log, e.called ≠ called)
    (now : ℕ) (learn : α → α) : log.map (finish called now learn) = log := by
  rw [List.map_congr_left (g := id)]
  · exact List.map_id log
  · intro e he
    exact if_neg (h e he)

end Timed

/-- An order of the calls that agrees with real time and whose events, taken one after the other,
are legal. A call without an event has not taken effect. -/
structure Linearization {α ε : Type*} (event : α → Option ε) (Legal : List ε → Prop)
    (log order : List (Timed α)) : Prop where
  perm : order.Perm log
  realTime : order.Pairwise fun a b => ¬b.Precedes a
  legal : Legal (order.filterMap fun e => event e.call)

/-- The calls up to step `now`, in the order they began. -/
structure CallOrder {α : Type*} (now : ℕ) (log : List (Timed α)) : Prop where
  sorted : log.Pairwise fun a b => a.called < b.called
  begun : ∀ e ∈ log, e.called < now
  forward : ∀ e ∈ log, ∀ r, e.returned = some r → e.called ≤ r

namespace CallOrder
variable {α : Type*} {now : ℕ} {log : List (Timed α)}

theorem nil (now : ℕ) : CallOrder now ([] : List (Timed α)) :=
  ⟨List.Pairwise.nil,by simp,by simp⟩

theorem tick (h : CallOrder now log) : CallOrder (now+1) log :=
  ⟨h.sorted,fun e he => Nat.lt_succ_of_lt (h.begun e he),h.forward⟩

/-- A call begins. -/
theorem begin (h : CallOrder now log) (call : α) {returned : Option ℕ}
    (hr : ∀ r, returned = some r → now ≤ r) : CallOrder (now+1) (log++[⟨call,now,returned⟩]) := by
  refine ⟨?_,?_,?_⟩
  · apply List.pairwise_append.mpr
    refine ⟨h.sorted,List.pairwise_singleton _ _,?_⟩
    intro a ha b hb
    rw [List.mem_singleton] at hb
    subst hb
    exact h.begun a ha
  · intro e he
    rw [List.mem_append,List.mem_singleton] at he
    obtain he | rfl := he
    · exact Nat.lt_succ_of_lt (h.begun e he)
    · exact Nat.lt_succ_self now
  · intro e he r her
    rw [List.mem_append,List.mem_singleton] at he
    obtain he | rfl := he
    · exact h.forward e he r her
    · exact hr r her

/-- A call returns. -/
theorem finish (h : CallOrder now log) (called : ℕ) (learn : α → α) :
    CallOrder (now+1) (log.map (Timed.finish called now learn)) := by
  refine ⟨?_,?_,?_⟩
  · simpa [List.pairwise_map] using h.sorted
  · intro e he
    obtain ⟨a,ha,rfl⟩ := List.mem_map.mp he
    rw [Timed.finish_called]
    exact Nat.lt_succ_of_lt (h.begun a ha)
  · intro e he r her
    obtain ⟨a,ha,rfl⟩ := List.mem_map.mp he
    unfold Timed.finish at her ⊢
    split at her
    · cases her
      rw [if_pos (by assumption)]
      exact (h.begun a ha).le
    · rw [if_neg (by assumption)]
      exact h.forward a ha r her

/-- The order in which calls began agrees with real time. -/
theorem realTime (h : CallOrder now log) : log.Pairwise fun a b => ¬b.Precedes a := by
  refine h.sorted.imp_of_mem ?_
  rintro a b - hb hab ⟨r,hr,hra⟩
  have hbr := h.forward b hb r hr
  omega

/-- So it linearizes the history as soon as the events are legal in it. -/
theorem linearization {ε : Type*} {event : α → Option ε} {Legal : List ε → Prop}
    (h : CallOrder now log) (hl : Legal (log.filterMap fun e => event e.call)) :
    Linearization event Legal log log :=
  ⟨List.Perm.refl log,h.realTime,hl⟩

end CallOrder
/-- Wherever `b` stands in the log, `a` stands before it. -/
def Before {ε : Type*} (a b : ε) (log : List ε) : Prop :=
  ∀ pre post, log = pre++b::post → a ∈ pre

section Before
variable {ε : Type*} {a b : ε} {log : List ε}

/-- What has happened comes before what has not. -/
theorem before_of_mem (ha : a ∈ log) (hb : b ∉ log) (later : List ε) : Before a b (log++later) := by
  intro pre post h
  obtain ⟨mid,rfl,-⟩ | ⟨mid,hlog,hmid⟩ := List.append_eq_append_iff.mp h
  · exact List.mem_append_left _ ha
  · cases mid with
    | nil =>
      rw [List.append_nil] at hlog
      rwa [← hlog]
    | cons x mid =>
      obtain ⟨rfl,-⟩ := List.cons.inj hmid
      exfalso
      apply hb
      rw [hlog]
      simp

theorem before_of_not_mem (hb : b ∉ log) : Before a b log := by
  rintro pre post rfl
  exact absurd (by simp) hb

/-- The order of two events stays when the log goes on. -/
theorem Before.append (h : Before a b log) (ha : a ∈ log) (later : List ε) :
    Before a b (log++later) := by
  intro pre post heq
  obtain ⟨mid,rfl,-⟩ | ⟨mid,hlog,hmid⟩ := List.append_eq_append_iff.mp heq
  · exact List.mem_append_left _ ha
  · cases mid with
    | nil =>
      rw [List.append_nil] at hlog
      rwa [← hlog]
    | cons x mid =>
      obtain ⟨rfl,-⟩ := List.cons.inj hmid
      exact h pre mid hlog

end Before
end Lib
