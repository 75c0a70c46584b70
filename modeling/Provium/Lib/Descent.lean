import Mathlib

/-! Recursion along the references of a graph, with the children of a node one after the other, that ends at the
first error. It ends if and only if it comes to no cycle and to nothing that aborts it, and then it is no deeper than
there are nodes. -/
namespace Lib

/-- What a recursion finds at a place of a node: an error, what it does not return from, nothing to follow, or a
node. -/
inductive Step (α : Type*) where
  | stop
  | abort
  | leaf
  | node (a : α)

namespace Step
variable {α : Type*}

/-- The steps of a node: whether all went well, `none` where a visit has not ended. -/
def run (visit : α → Option Bool) : List (Step α) → Option Bool
  | [] => some true
  | .stop::_ => some false
  | .abort::_ => none
  | .leaf::rest => run visit rest
  | .node a::rest => match visit a with
    | some true => run visit rest
    | r => r

variable (steps : α → List (Step α))

/-- The recursion from a node, to a depth. -/
def descend : ℕ → α → Option Bool
  | 0,_ => none
  | d+1,a => run (descend d) (steps a)

/-- No error is below the node, nothing that aborts, and no cycle. -/
inductive Clean : α → Prop
  | intro {a : α} (hstop : .stop ∉ steps a) (habort : .abort ∉ steps a) (hnode : ∀ b, .node b ∈ steps a → Clean b) :
    Clean a

def Fine (s : Step α) : Prop := s ≠ .stop ∧ s ≠ .abort ∧ ∀ a, s = .node a → Clean steps a

/-- The recursion comes from the one node to the other: it goes on over all that is in front of it. -/
def Comes (a b : α) : Prop := ∃ before after, steps a = before++.node b::after ∧ ∀ s ∈ before, Fine steps s

/-- It comes to a place of the node where it is aborted. -/
def Aborts (a : α) : Prop := ∃ before after, steps a = before++.abort::after ∧ ∀ s ∈ before, Fine steps s

variable {steps} {visit : α → Option Bool} {l : List (Step α)} {a b : α} {d : ℕ}

/-- All went well if there was no error and all went well below. -/
theorem run_eq_true :
    run visit l = some true ↔ .stop ∉ l ∧ .abort ∉ l ∧ ∀ a, .node a ∈ l → visit a = some true := by
  induction l with
  | nil => simp [run]
  | cons s l ih =>
    cases s with
    | stop => simp [run]
    | abort => simp [run]
    | leaf => simp [run,ih]
    | node a =>
      rw [run]
      cases ha : visit a with
      | none => simp [ha]
      | some v =>
        cases v with
        | false => simp [ha]
        | true =>
          simp only [ih,List.mem_cons,reduceCtorEq,false_or,node.injEq]
          constructor
          · rintro ⟨hstop,habort,hnode⟩
            refine ⟨hstop,habort,?_⟩
            rintro b (rfl | hb)
            · exact ha
            · exact hnode b hb
          · exact fun h => ⟨h.1,h.2.1,fun b hb => h.2.2 b (.inr hb)⟩

theorem run_ne_false (hstop : .stop ∉ l) (hnode : ∀ b, .node b ∈ l → visit b ≠ some false) :
    run visit l ≠ some false := by
  induction l with
  | nil => simp [run]
  | cons s l ih =>
    have hrest := ih (fun h => hstop (List.mem_cons_of_mem _ h)) fun b hb => hnode b (List.mem_cons_of_mem _ hb)
    cases s with
    | stop => exact absurd List.mem_cons_self hstop
    | abort => exact (Option.some_ne_none _).symm
    | leaf => exact hrest
    | node b =>
      have hb := hnode b List.mem_cons_self
      rw [run]
      cases hv : visit b with
      | none => simp
      | some v =>
        cases v with
        | false => exact absurd hv hb
        | true => exact hrest

theorem isSome_iff_eq_true {r : Option Bool} (h : r ≠ some false) : r.isSome ↔ r = some true := by
  rcases r with _ | (_ | _)
  · simp
  · exact absurd rfl h
  · simp

/-- Steps that have no error and are not aborted end if all visits do. -/
theorem run_isSome_iff (hstop : .stop ∉ l) (habort : .abort ∉ l) (hnode : ∀ b, .node b ∈ l → visit b ≠ some false) :
    (run visit l).isSome ↔ ∀ b, .node b ∈ l → (visit b).isSome := by
  rw [isSome_iff_eq_true (run_ne_false hstop hnode),run_eq_true,and_iff_right hstop,and_iff_right habort]
  exact forall₂_congr fun b hb => (isSome_iff_eq_true (hnode b hb)).symm

theorem descend_ne_false (h : ∀ a, .stop ∉ steps a) (d : ℕ) (a : α) : descend steps d a ≠ some false := by
  induction d generalizing a with
  | zero => exact (Option.some_ne_none _).symm
  | succ d ih => exact run_ne_false (h a) fun b _ => ih b

theorem Clean.descend_ne_false (h : Clean steps a) : descend steps d a ≠ some false := by
  induction h generalizing d with
  | @intro a hstop _ hnode ih =>
    cases d with
    | zero => exact (Option.some_ne_none _).symm
    | succ d => exact run_ne_false hstop fun b hb => ih b hb

/-- A recursion without errors and aborts ends in a depth if no chain of nodes below its own is as long. -/
theorem descend_isSome_iff_chain (hstop : ∀ a, .stop ∉ steps a) (habort : ∀ a, .abort ∉ steps a) (d : ℕ) (a : α) :
    (descend steps d a).isSome ↔ ∀ l, List.IsChain (fun a b => .node b ∈ steps a) (a::l) → l.length < d := by
  induction d generalizing a with
  | zero => exact iff_of_false Bool.false_ne_true fun h => absurd (h [] (List.isChain_singleton a)) (Nat.lt_irrefl 0)
  | succ d ih =>
    rw [descend,run_isSome_iff (hstop a) (habort a) fun b _ => descend_ne_false hstop d b]
    constructor
    · intro h l hl
      cases l with
      | nil => exact Nat.succ_pos d
      | cons b l =>
        obtain ⟨hb,hl⟩ := List.isChain_cons_cons.mp hl
        exact Nat.succ_lt_succ ((ih b).mp (h b hb) l hl)
    · intro h b hb
      refine (ih b).mpr fun l hl => ?_
      exact Nat.lt_of_succ_lt_succ (h (b::l) (List.isChain_cons_cons.mpr ⟨hb,hl⟩))

/-- Steps that have ended have gone on behind what is in front. -/
theorem isSome_of_run {before after : List (Step α)} (h : (run visit (before++after)).isSome)
    (hbefore : ∀ s ∈ before, s ≠ .stop ∧ ∀ c, s = .node c → visit c ≠ some false) : (run visit after).isSome := by
  induction before with
  | nil => exact h
  | cons s before ih =>
    obtain ⟨hs,hrest⟩ := List.forall_mem_cons.mp hbefore
    rw [List.cons_append] at h
    cases s with
    | stop => exact absurd rfl hs.1
    | abort => cases h
    | leaf => exact ih h hrest
    | node c =>
      rw [run] at h
      cases hv : visit c with
      | none =>
        rw [hv] at h
        cases h
      | some v =>
        cases v with
        | false => exact absurd hv (hs.2 c rfl)
        | true =>
          rw [hv] at h
          exact ih h hrest

theorem Fine.goes_on {s : Step α} (h : Fine steps s) : s ≠ .stop ∧ ∀ c, s = .node c → descend steps d c ≠ some false :=
  ⟨h.1,fun c hc => (h.2.2 c hc).descend_ne_false⟩

theorem Comes.descend (h : Comes steps a b) (ha : (descend steps (d+1) a).isSome) : (descend steps d b).isSome := by
  obtain ⟨before,after,hl,hbefore⟩ := h
  rw [Step.descend,hl] at ha
  have hb := isSome_of_run ha fun s hs => (hbefore s hs).goes_on
  rw [run] at hb
  cases hv : Step.descend steps d b with
  | none =>
    rw [hv] at hb
    cases hb
  | some v => rfl

theorem Aborts.descend (h : Aborts steps a) : ¬(descend steps d a).isSome := by
  obtain ⟨before,after,hl,hbefore⟩ := h
  cases d with
  | zero => exact Bool.false_ne_true
  | succ d =>
    rw [Step.descend,hl]
    intro ha
    cases isSome_of_run ha fun s hs => (hbefore s hs).goes_on

end Step
end Lib
