import Mathlib

/-! Looking for the first hit in a log that only grows. A searcher that comes back later need not
look again at what it has ruled out: it keeps a cursor, and searching from the cursor finds what
searching from the start would find. -/
namespace Lib
variable {α : Type*}

/-- The first element at or after this position that is a hit. -/
def FirstFrom (hit : α → Bool) (since : ℕ) (log : List α) (a : α) : Prop :=
  ∃ i, since ≤ i ∧ log[i]? = some a ∧ hit a = true ∧
    ∀ j b, since ≤ j → j < i → log[j]? = some b → hit b = false

/-- There is no hit at or after this position. -/
def NoneFrom (hit : α → Bool) (since : ℕ) (log : List α) : Prop :=
  ∀ i b, since ≤ i → log[i]? = some b → hit b = false

/-- The cursor has passed no hit, and only what the log has had. -/
structure Cleared (hit : α → Bool) (since : ℕ) (log : List α) (cursor : ℕ) : Prop where
  start_le : since ≤ cursor
  within : cursor ≤ max since log.length
  passed : ∀ i b, since ≤ i → i < cursor → log[i]? = some b → hit b = false

variable {hit : α → Bool} {since cursor : ℕ} {log log' : List α} {a : α}

theorem FirstFrom.not_noneFrom (h : FirstFrom hit since log a) : ¬NoneFrom hit since log := by
  obtain ⟨i,hi,ha,hhit,-⟩ := h
  intro hnone
  have hmiss := hnone i a hi ha
  rw [hhit] at hmiss
  cases hmiss

theorem FirstFrom.unique {b : α} (ha : FirstFrom hit since log a) (hb : FirstFrom hit since log b) :
    a = b := by
  obtain ⟨i,hi,hai,hhita,hbefore⟩ := ha
  obtain ⟨j,hj,hbj,hhitb,hbefore'⟩ := hb
  rcases Nat.lt_trichotomy i j with hlt | rfl | hlt
  · have hmiss := hbefore' i a hi hlt hai
    rw [hhita] at hmiss
    cases hmiss
  · rw [hai] at hbj
    exact Option.some.inj hbj
  · have hmiss := hbefore j b hj hlt hbj
    rw [hhitb] at hmiss
    cases hmiss

/-- What the log has, it keeps. -/
theorem getElem?_of_isPrefix (h : log <+: log') {i : ℕ} (hi : i < log.length) :
    log'[i]? = log[i]? := by
  obtain ⟨more,rfl⟩ := h
  exact List.getElem?_append_left hi

theorem FirstFrom.mono (h : FirstFrom hit since log a) (hlog : log <+: log') :
    FirstFrom hit since log' a := by
  obtain ⟨i,hi,ha,hhit,hbefore⟩ := h
  have hlen : i < log.length := (List.getElem?_eq_some_iff.mp ha).1
  refine ⟨i,hi,(getElem?_of_isPrefix hlog hlen).trans ha,hhit,fun j b hj hji hb => ?_⟩
  rw [getElem?_of_isPrefix hlog (hji.trans hlen)] at hb
  exact hbefore j b hj hji hb

namespace Cleared

theorem start (hit : α → Bool) (since : ℕ) (log : List α) : Cleared hit since log since :=
  ⟨le_rfl,Nat.le_max_left _ _,fun _ _ hi hlt => absurd hlt (Nat.not_lt.mpr hi)⟩

/-- New arrivals lie behind the cursor. -/
theorem mono (h : Cleared hit since log cursor) (hlog : log <+: log') :
    Cleared hit since log' cursor := by
  have hlen := hlog.length_le
  refine ⟨h.start_le,h.within.trans (max_le_max le_rfl hlen),fun i b hi hlt hb => ?_⟩
  have hwithin := h.within
  rw [getElem?_of_isPrefix hlog (by omega)] at hb
  exact h.passed i b hi hlt hb

theorem firstFrom_of_find (h : Cleared hit since log cursor)
    (hfind : (log.drop cursor).find? hit = some a) : FirstFrom hit since log a := by
  obtain ⟨hhit,i,hi,ha,hbefore⟩ := List.find?_eq_some_iff_getElem.mp hfind
  have hstart := h.start_le
  refine ⟨cursor+i,by omega,?_,hhit,fun j b hj hlt hb => ?_⟩
  · rw [← List.getElem?_drop,List.getElem?_eq_getElem hi,ha]
  · by_cases hcursor : j < cursor
    · exact h.passed j b hj hcursor hb
    · obtain ⟨d,rfl⟩ := Nat.exists_eq_add_of_le (Nat.not_lt.mp hcursor)
      have hd : d < i := by omega
      rw [← List.getElem?_drop,List.getElem?_eq_getElem (hd.trans hi)] at hb
      cases hb
      simpa using hbefore d hd

theorem noneFrom_of_find (h : Cleared hit since log cursor)
    (hfind : (log.drop cursor).find? hit = none) : NoneFrom hit since log := by
  intro i b hi hb
  by_cases hcursor : i < cursor
  · exact h.passed i b hi hcursor hb
  · obtain ⟨d,rfl⟩ := Nat.exists_eq_add_of_le (Nat.not_lt.mp hcursor)
    rw [← List.getElem?_drop] at hb
    have hmiss := List.find?_eq_none.mp hfind b (List.mem_of_getElem? hb)
    simpa using hmiss

/-- A search that finds nothing takes the cursor to the end. -/
theorem advance (h : Cleared hit since log cursor) (hnone : NoneFrom hit since log) :
    Cleared hit since log (max cursor log.length) := by
  refine ⟨h.start_le.trans (Nat.le_max_left _ _),?_,fun i b hi _ hb => hnone i b hi hb⟩
  exact max_le h.within (Nat.le_max_right _ _)

/-- Searching from the cursor is searching from the start. -/
theorem find_eq_some_iff (h : Cleared hit since log cursor) :
    (log.drop cursor).find? hit = some a ↔ FirstFrom hit since log a := by
  refine ⟨h.firstFrom_of_find,fun hfirst => ?_⟩
  cases hfind : (log.drop cursor).find? hit with
  | none => exact absurd (h.noneFrom_of_find hfind) hfirst.not_noneFrom
  | some b => rw [hfirst.unique (h.firstFrom_of_find hfind)]

end Cleared

/-- The first hit behind the end of a log is the first hit among what has been appended since. -/
theorem firstFrom_length_iff (more : List α) :
    FirstFrom hit log.length (log++more) a ↔ more.find? hit = some a := by
  have h := (Cleared.start hit log.length (log++more)).find_eq_some_iff (a := a)
  rw [List.drop_left] at h
  exact h.symm

end Lib
