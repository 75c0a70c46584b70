import Mathlib

/-! Memory and CPU amounts of the resource pool, with the saturating arithmetic of
`scheduler/pool.rs`. Both axes obey the same laws at different widths, so every law is stated
once, for an arbitrary axis. -/
namespace Provium.Scheduler

/-- The two gated resources. -/
inductive Axis where
  | memory
  | cpus
  deriving DecidableEq, Repr

/-- The largest value of the axis's machine type: `u64` bytes, `u32` vCPUs. -/
def Axis.max : Axis → ℕ
  | .memory => 2^64-1
  | .cpus => 2^32-1

/-- Memory + CPU pair. -/
structure ResourceAmount where
  memoryBytes : ℕ
  cpus : ℕ
  memoryBytes_le : memoryBytes ≤ Axis.memory.max := by decide
  cpus_le : cpus ≤ Axis.cpus.max := by decide
  deriving DecidableEq, Repr

namespace ResourceAmount

instance : Inhabited ResourceAmount := ⟨⟨0,0,Nat.zero_le _,Nat.zero_le _⟩⟩

/-- The amount on one axis. -/
def on (a : ResourceAmount) : Axis → ℕ
  | .memory => a.memoryBytes
  | .cpus => a.cpus

/-- Both axes are zero. -/
def isZero (a : ResourceAmount) : Prop := a.memoryBytes = 0 ∧ a.cpus = 0

/-- `a` fits within `budget` along both axes. -/
def fitsIn (a budget : ResourceAmount) : Prop :=
  a.memoryBytes ≤ budget.memoryBytes ∧ a.cpus ≤ budget.cpus

instance (a : ResourceAmount) : Decidable a.isZero := inferInstanceAs (Decidable (_ ∧ _))
instance (a b : ResourceAmount) : Decidable (a.fitsIn b) := inferInstanceAs (Decidable (_ ∧ _))

/-- Saturating addition along both axes. -/
def saturatingAdd (a b : ResourceAmount) : ResourceAmount where
  memoryBytes := min (a.memoryBytes+b.memoryBytes) Axis.memory.max
  cpus := min (a.cpus+b.cpus) Axis.cpus.max
  memoryBytes_le := Nat.min_le_right _ _
  cpus_le := Nat.min_le_right _ _

/-- Saturating subtraction along both axes. -/
def saturatingSub (a b : ResourceAmount) : ResourceAmount where
  memoryBytes := a.memoryBytes-b.memoryBytes
  cpus := a.cpus-b.cpus
  memoryBytes_le := Nat.le_trans (Nat.sub_le _ _) a.memoryBytes_le
  cpus_le := Nat.le_trans (Nat.sub_le _ _) a.cpus_le

theorem on_le_max (a : ResourceAmount) (x : Axis) : a.on x ≤ x.max := by
  cases x
  · exact a.memoryBytes_le
  · exact a.cpus_le

@[simp] theorem default_on (x : Axis) : (default : ResourceAmount).on x = 0 := by
  cases x <;> rfl

@[ext] theorem ext_on {a b : ResourceAmount} (h : ∀ x, a.on x = b.on x) : a = b := by
  have hm : a.memoryBytes = b.memoryBytes := h .memory
  have hc : a.cpus = b.cpus := h .cpus
  cases a; cases b
  subst hm hc
  rfl

theorem isZero_iff {a : ResourceAmount} : a.isZero ↔ ∀ x, a.on x = 0 := by
  constructor
  · rintro ⟨hm,hc⟩ x
    cases x
    · exact hm
    · exact hc
  · intro h; exact ⟨h .memory,h .cpus⟩

theorem fitsIn_iff {a b : ResourceAmount} : a.fitsIn b ↔ ∀ x, a.on x ≤ b.on x := by
  constructor
  · rintro ⟨hm,hc⟩ x
    cases x
    · exact hm
    · exact hc
  · intro h; exact ⟨h .memory,h .cpus⟩

@[simp] theorem saturatingAdd_on (a b : ResourceAmount) (x : Axis) :
    (a.saturatingAdd b).on x = min (a.on x+b.on x) x.max := by cases x <;> rfl

@[simp] theorem saturatingSub_on (a b : ResourceAmount) (x : Axis) :
    (a.saturatingSub b).on x = a.on x-b.on x := by cases x <;> rfl

/-- Adding within the type's range is exact. -/
theorem saturatingAdd_exact {a b : ResourceAmount} {x : Axis} (h : a.on x+b.on x ≤ x.max) :
    (a.saturatingAdd b).on x = a.on x+b.on x := by
  rw [saturatingAdd_on,Nat.min_eq_left h]

/-- A fold of saturating additions is the clipped sum, in whatever order it is taken. -/
theorem foldl_saturatingAdd_on {α : Type*} (f : α → ResourceAmount) (l : List α)
    (a : ResourceAmount) (x : Axis) :
    (l.foldl (fun acc o => acc.saturatingAdd (f o)) a).on x =
      min (a.on x+(l.map fun o => (f o).on x).sum) x.max := by
  induction l generalizing a with
  | nil => simpa using (Nat.min_eq_left (a.on_le_max x)).symm
  | cons o l ih =>
    simp only [List.foldl_cons,ih,saturatingAdd_on,List.map_cons,List.sum_cons]
    omega

theorem fitsIn_refl (a : ResourceAmount) : a.fitsIn a := ⟨le_rfl,le_rfl⟩

theorem default_saturatingAdd (a : ResourceAmount) :
    (default : ResourceAmount).saturatingAdd a = a := by
  apply ext_on
  intro x
  have := a.on_le_max x
  simp only [saturatingAdd_on,default_on]
  omega

/-- Below the type's limit the clipped sum fits only if the exact one does. -/
theorem saturatingAdd_on_of_fitsIn {a b budget : ResourceAmount} {x : Axis}
    (hlt : budget.on x < x.max) (hfit : (a.saturatingAdd b).fitsIn budget) :
    (a.saturatingAdd b).on x = a.on x+b.on x := by
  have hx := fitsIn_iff.mp hfit x
  rw [saturatingAdd_on] at hx ⊢
  omega

end ResourceAmount

/-- The least amount on one axis. -/
def Axis.unit : Axis → ResourceAmount
  | .memory => .mk 1 0
  | .cpus => .mk 0 1

theorem Axis.unit_on (x y : Axis) : x.unit.on y = if y = x then 1 else 0 := by
  cases x <;> cases y <;> rfl

/-- At the type's limit one more is nothing more. -/
theorem ResourceAmount.saturatingAdd_unit {T : ResourceAmount} {x : Axis} (hT : T.on x = x.max) :
    T.saturatingAdd x.unit = T := by
  apply ext_on
  intro y
  have := T.on_le_max y
  rw [saturatingAdd_on,Axis.unit_on]
  by_cases hy : y = x
  · subst hy
    simp only [if_true]
    omega
  · simp only [hy,if_false]
    omega

end Provium.Scheduler
