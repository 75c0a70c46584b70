import Mathlib

/-! Cells that move on their own. Which of them moves next is up to the run, and where they are tells only
how far each has come. -/
namespace Lib.Cells
variable {σ : Type*} (advance : ℕ → σ → Option σ)

/-- One cell takes its next step. -/
def move (cells : List σ) (i : ℕ) : Option (List σ) :=
  (cells[i]?).bind fun c => (advance i c).map (cells.set i)

def moves : List σ → List ℕ → Option (List σ)
  | cells,[] => some cells
  | cells,i::is => (move advance cells i).bind fun cells => moves cells is

/-- A step, or none where there is none. -/
def pass (i : ℕ) (c : σ) : σ := (advance i c).getD c

/-- Each cell after so many steps of its own. -/
def after (n : ℕ → ℕ) (cells : List σ) : List σ := cells.mapIdx fun i c => (pass advance i)^[n i] c

variable {advance} {n : ℕ → ℕ} {cells cells' : List σ} {i : ℕ} {c : σ}

theorem pass_of_some {c' : σ} (h : advance i c = some c') : pass advance i c = c' := by rw [pass,h]; rfl

theorem pass_of_none (h : advance i c = none) : pass advance i c = c := by rw [pass,h]; rfl

/-- At its end a cell stays. -/
theorem iterate_pass_of_none (h : advance i c = none) (k : ℕ) : (pass advance i)^[k] c = c :=
  Function.iterate_fixed (pass_of_none h) k

variable (advance i c) in
/-- What a step keeps holds of a cell however far it has come. -/
theorem iterate_pass_invariant (P : σ → Prop) (hstep : ∀ c c', P c → advance i c = some c' → P c') (h : P c)
    (k : ℕ) : P ((pass advance i)^[k] c) := by
  induction k with
  | zero => exact h
  | succ k ih =>
    rw [Function.iterate_succ_apply']
    cases ha : advance i ((pass advance i)^[k] c) with
    | none => rwa [pass_of_none ha]
    | some c' =>
      rw [pass_of_some ha]
      exact hstep _ c' ih ha

/-- Two places at which a cell is at its end are one. -/
theorem ends_unique {k m : ℕ} (hk : advance i ((pass advance i)^[k] c) = none)
    (hm : advance i ((pass advance i)^[m] c) = none) : (pass advance i)^[k] c = (pass advance i)^[m] c := by
  obtain ⟨d,rfl⟩ | ⟨d,rfl⟩ := (le_total k m).imp Nat.exists_eq_add_of_le' Nat.exists_eq_add_of_le'
  · rw [Function.iterate_add_apply,iterate_pass_of_none hk]
  · rw [Function.iterate_add_apply,iterate_pass_of_none hm]

@[simp] theorem getElem?_after (n : ℕ → ℕ) (cells : List σ) (i : ℕ) :
    (after advance n cells)[i]? = (cells[i]?).map (pass advance i)^[n i] := by
  rw [after,List.getElem?_mapIdx]

@[simp] theorem after_zero (cells : List σ) : after advance (fun _ => 0) cells = cells := by
  apply List.ext_getElem?
  intro i
  simp

/-- Cells that have come equally far are the same. -/
theorem after_congr {m : ℕ → ℕ} (h : ∀ i < cells.length, n i = m i) :
    after advance n cells = after advance m cells := by
  apply List.ext_getElem?
  intro i
  rw [getElem?_after,getElem?_after]
  cases hc : cells[i]? with
  | none => rfl
  | some c => rw [h i (List.getElem?_eq_some_iff.mp hc).1]

theorem after_update (n : ℕ → ℕ) (hc : cells[i]? = some c) :
    after advance (Function.update n i (n i+1)) cells =
      (after advance n cells).set i (pass advance i ((pass advance i)^[n i] c)) := by
  apply List.ext_getElem?
  intro j
  rw [getElem?_after]
  by_cases hj : j = i
  · subst hj
    have hlt : j < (after advance n cells).length := by
      rw [after,List.length_mapIdx]
      exact (List.getElem?_eq_some_iff.mp hc).1
    rw [List.getElem?_set_self hlt,Function.update_self,hc,Option.map_some,Function.iterate_succ_apply']
  · rw [List.getElem?_set_ne (Ne.symm hj),getElem?_after,Function.update_of_ne hj]

/-- A move is one step more of one cell. -/
theorem move_after (h : move advance (after advance n cells) i = some cells') :
    cells' = after advance (Function.update n i (n i+1)) cells := by
  obtain ⟨c',hc',h⟩ := Option.bind_eq_some_iff.mp h
  obtain ⟨c'',hc'',rfl⟩ := Option.map_eq_some_iff.mp h
  rw [getElem?_after] at hc'
  obtain ⟨c,hc,rfl⟩ := Option.map_eq_some_iff.mp hc'
  rw [after_update n hc,pass_of_some hc'']

variable (advance) in
/-- One cell can go one step farther. -/
theorem moves_one (n : ℕ → ℕ) (cells : List σ) (i : ℕ) : ∃ is, moves advance (after advance n cells) is =
    some (after advance (Function.update n i (n i+1)) cells) := by
  cases hc : cells[i]? with
  | none =>
    refine ⟨[],congrArg some (after_congr fun j hj => ?_)⟩
    have hne : j ≠ i := by
      rintro rfl
      rw [List.getElem?_eq_getElem hj] at hc
      cases hc
    rw [Function.update_of_ne hne]
  | some c =>
    have hget : (after advance n cells)[i]? = some ((pass advance i)^[n i] c) := by
      rw [getElem?_after,hc,Option.map_some]
    cases ha : advance i ((pass advance i)^[n i] c) with
    | none =>
      refine ⟨[],congrArg some ?_⟩
      obtain ⟨hlt,heq⟩ := List.getElem?_eq_some_iff.mp hget
      rw [after_update n hc,pass_of_none ha,← heq,List.set_getElem_self]
    | some c' =>
      refine ⟨[i],?_⟩
      rw [moves,move,hget,Option.bind_some,ha,Option.map_some,Option.bind_some,moves,after_update n hc,
        pass_of_some ha]

theorem moves_append {cells cells' : List σ} {is js : List ℕ} (h : moves advance cells is = some cells') :
    moves advance cells (is++js) = moves advance cells' js := by
  induction is generalizing cells with
  | nil =>
    cases h
    rfl
  | cons i is ih =>
    obtain ⟨cells₁,hm,h⟩ := Option.bind_eq_some_iff.mp h
    rw [List.cons_append,moves,hm,Option.bind_some,ih h]

variable (advance) in
/-- Each cell can come as far as one likes. -/
theorem exists_moves (n : ℕ → ℕ) (cells : List σ) :
    ∃ is, moves advance cells is = some (after advance n cells) := by
  -- the cells before `k` have gone, and `k` itself has taken `m` steps
  have hgo : ∀ k m, ∃ is, moves advance cells is =
      some (after advance (fun j => if j < k then n j else if j = k then m else 0) cells) := by
    intro k
    induction k with
    | zero =>
      intro m
      induction m with
      | zero =>
        refine ⟨[],congrArg some ?_⟩
        simp
      | succ m ih =>
        obtain ⟨is,his⟩ := ih
        obtain ⟨js,hjs⟩ := moves_one advance
          (fun j => if j < 0 then n j else if j = 0 then m else 0) cells 0
        refine ⟨is++js,?_⟩
        rw [moves_append his,hjs]
        refine congrArg some (after_congr fun j _ => ?_)
        by_cases hj : j = 0
        · simp [hj]
        · simp [hj]
    | succ k ihk =>
      intro m
      induction m with
      | zero =>
        obtain ⟨is,his⟩ := ihk (n k)
        refine ⟨is,his.trans (congrArg some (after_congr fun j _ => ?_))⟩
        obtain hj | rfl | hj := lt_trichotomy j k
        · simp [hj,Nat.lt_succ_of_lt hj]
        · simp
        · have h₁ : ¬j < k := by omega
          have h₂ : ¬j < k+1 := by omega
          simp [h₁,h₂,hj.ne']
      | succ m ih =>
        obtain ⟨is,his⟩ := ih
        obtain ⟨js,hjs⟩ := moves_one advance
          (fun j => if j < k+1 then n j else if j = k+1 then m else 0) cells (k+1)
        refine ⟨is++js,?_⟩
        rw [moves_append his,hjs]
        refine congrArg some (after_congr fun j _ => ?_)
        by_cases hj : j = k+1
        · simp [hj]
        · simp [hj]
  obtain ⟨is,his⟩ := hgo cells.length 0
  refine ⟨is,his.trans (congrArg some (after_congr fun j hj => ?_))⟩
  rw [if_pos hj]

end Lib.Cells
