import Mathlib

/-! Paths and the places that they lead to. Of a file system nothing is known but where its root is, and where
one gets from a place by a name: into a directory, along a link, up, or nowhere. -/
namespace Lib

structure Places (δ : Type*) where
  root : δ
  enter : δ → List Char → δ

/-- The names along a path. Empty ones and single dots lead nowhere. -/
def steps (path : List Char) : List (List Char) := (path.splitOn '/').filter fun c => c ≠ [] ∧ c ≠ ['.']

def rooted (path : List Char) : Bool := path.head? == some '/'

namespace Places
variable {δ : Type*} (w : Places δ)

/-- Where a path leads from a place. -/
def walk (here : δ) (path : List Char) : δ :=
  (steps path).foldl w.enter (if rooted path then w.root else here)

/-- The file system in which every path leads to a place of its own. -/
def spelled : Places (Bool × List (List Char)) where
  root := (true,[])
  enter p c := (p.1,p.2++[c])

end Places

@[simp] theorem steps_nil : steps [] = [] := rfl

theorem steps_append_slash (a b : List Char) : steps (a++ '/' :: b) = steps a++steps b := by
  simp [steps,List.splitOn_append_cons_self]

theorem steps_slash (a : List Char) : steps (a++['/']) = steps a := by
  rw [steps_append_slash,steps_nil,List.append_nil]

/-- A name by itself. -/
theorem steps_name {name : List Char} (hne : name ≠ []) (hdot : name ≠ ['.']) (hplain : '/' ∉ name) :
    steps name = [name] := by
  simp [steps,List.splitOn_eq_singleton hplain,hne,hdot]

theorem rooted_append {a : List Char} (ha : a ≠ []) (b : List Char) : rooted (a++b) = rooted a := by
  cases a with
  | nil => exact absurd rfl ha
  | cons c a => rfl

namespace Places
variable {δ : Type*} {w : Places δ} {here there : δ} {p q : List Char}

theorem walk_rooted (h : rooted p) : w.walk here p = w.walk there p := by
  simp only [walk,h,if_true]

/-- Paths of the same steps lead to the same place. -/
theorem walk_congr (hroot : rooted p = rooted q) (hsteps : steps p = steps q) :
    w.walk here p = w.walk here q := by
  simp only [walk,hroot,hsteps]

theorem walk_slash (hp : p ≠ []) : w.walk here (p++['/']) = w.walk here p :=
  walk_congr (rooted_append hp _) (steps_slash p)

/-- A path below another. -/
theorem walk_append_slash (hq : ¬rooted q) :
    w.walk here (p++ '/' :: q) = w.walk (w.walk here (p++['/'])) q := by
  have hroot : rooted (p++ '/' :: q) = rooted (p++['/']) := by
    cases p with
    | nil => rfl
    | cons c p => rfl
  simp only [walk,hq,hroot,steps_append_slash,List.foldl_append]
  rfl

theorem spelled_foldl (cs : List (List Char)) (place : Bool × List (List Char)) :
    cs.foldl spelled.enter place = (place.1,place.2++cs) := by
  induction cs generalizing place with
  | nil => simp
  | cons c cs ih =>
    rw [List.foldl_cons,ih]
    simp [spelled]

theorem walk_spelled (place : Bool × List (List Char)) (p : List Char) :
    spelled.walk place p = if rooted p then (true,steps p) else (place.1,place.2++steps p) := by
  unfold walk
  rw [spelled_foldl]
  split
  · rfl
  · rfl

theorem walk_spelled_steps (b : Bool) (p : List Char) : (spelled.walk (b,[]) p).2 = steps p := by
  rw [walk_spelled]
  split
  · rfl
  · exact List.nil_append _

theorem walk_spelled_rooted (p : List Char) : (spelled.walk (false,[]) p).1 = rooted p := by
  rw [walk_spelled]
  split
  · next h => exact h.symm
  · next h => simpa using h

end Places

end Lib
