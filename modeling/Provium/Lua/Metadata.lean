import Provium.Lib.Descent
import Provium.Lib.Table
import Provium.Lua.Json

/-! The metadata of a test, and its conversion from the tables of the test's file. The tables are those of a heap,
where one may hold another or itself; the conversion is followed to a depth. -/
namespace Provium.Lua
open Lib Provium.Fixture

inductive MetaValue (F : Type) where
  | null
  | bool (b : Bool)
  | int (n : ℤ)
  | float (x : F)
  | str (s : Bytes)
  | bytes (b : Bytes)
  | array (items : List (MetaValue F))
  | map (fields : List (Bytes × MetaValue F))

abbrev MetaMap (F : Type) := Table Bytes (MetaValue F)

/-- A Lua value, a table by its reference among `n`. -/
inductive LuaRef (φ : Type) (n : ℕ) where
  | nil
  | boolean (b : Bool)
  | integer (i : ℤ)
  | number (f : φ)
  | string (s : Bytes)
  | table (r : Fin n)
  | other (typeName : String)

/-- A table as it is read: what `pairs` lists, its border, which `raw_len` returns, and what
`pairs::<String, Value>` lists, whose keys are converted. -/
structure TableView (φ : Type) (n : ℕ) where
  entries : List (LuaKey φ × LuaRef φ n)
  rawLen : ℕ
  named : List (Bytes × LuaRef φ n)
  listed : ∀ e ∈ named, ∃ k, (k,e.2) ∈ entries

abbrev LuaHeap (φ : Type) (n : ℕ) := Fin n → TableView φ n

variable {φ : Type} {n : ℕ} [DecidableEq φ]

/-- `raw_get` -/
def TableView.rawGet (t : TableView φ n) (i : ℕ) : LuaRef φ n := (t.entries.lookup (.integer i)).getD .nil

variable (heap : LuaHeap φ n)

/-- The insertion into a nested map. -/
def putField (k : Bytes) (v : MetaValue φ) : List (Bytes × MetaValue φ) → List (Bytes × MetaValue φ)
  | [] => [(k,v)]
  | (k',v')::fields =>
    if k < k' then (k,v)::(k',v')::fields else if k = k' then (k,v)::fields else (k',v')::putField k v fields

/-- `lua_value_to_meta_value`, which is followed to a depth. -/
def metaValueWalk : ℕ → LuaRef φ n → Option (MetaValue φ)
  | _,.nil => some .null
  | _,.boolean b => some (.bool b)
  | _,.integer i => some (.int i)
  | _,.number f => some (.float f)
  | _,.string s => some (if (ofUtf8 s).isSome then .str s else .bytes s)
  | 0,.table _ => none
  | d+1,.table r =>
    if 0 < (heap r).rawLen then
      ((List.range (heap r).rawLen).mapM fun i => metaValueWalk d ((heap r).rawGet (i+1))).map .array
    else ((heap r).named.foldlM (fun fields e => (metaValueWalk d e.2).map fun v => putField e.1 v fields) []).map .map
  | _,.other _ => some .null

/-- `lua_value_to_meta_map` -/
def metaMapWalk (d : ℕ) : LuaRef φ n → Option (MetaMap φ)
  | .table r => (heap r).named.foldlM
      (fun (fields : MetaMap φ) e => (metaValueWalk heap d e.2).map fun v => fields.insert e.1 v) ∅
  | _ => some ∅

def metaStep : LuaRef φ n → Step (Fin n)
  | .table r => .node r
  | _ => .leaf

/-- What `lua_value_to_meta_value` does at a table. -/
def metaSteps (r : Fin n) : List (Step (Fin n)) :=
  if 0 < (heap r).rawLen then (List.range (heap r).rawLen).map fun i => metaStep ((heap r).rawGet (i+1))
  else (heap r).named.map fun e => metaStep e.2

/-! ## The conversion of metadata -/

section Meta
variable {heap}

theorem mapM_isSome {α β : Type} {f : α → Option β} {l : List α} : (l.mapM f).isSome ↔ ∀ a ∈ l, (f a).isSome := by
  induction l with
  | nil => simp
  | cons a l ih =>
    rw [List.mapM_cons,List.forall_mem_cons,← ih]
    cases f a with
    | none => simp
    | some b => cases l.mapM f <;> simp

theorem foldlM_isSome {α β γ : Type} {f : α → Option β} {put : α → γ → β → γ} {l : List α} (s : γ) :
    (l.foldlM (fun s a => (f a).map (put a s)) s).isSome ↔ ∀ a ∈ l, (f a).isSome := by
  induction l generalizing s with
  | nil => simp
  | cons a l ih =>
    rw [List.foldlM_cons,List.forall_mem_cons]
    cases f a with
    | none => simp
    | some b =>
      rw [Option.map_some,Option.bind_eq_bind,Option.bind_some,ih]
      simp

omit [DecidableEq φ] in
theorem metaStep_ne_stop (v : LuaRef φ n) : metaStep v ≠ .stop := by
  cases v <;> simp [metaStep]

theorem metaSteps_ne_stop (r : Fin n) : .stop ∉ metaSteps heap r := by
  unfold metaSteps
  split_ifs
  · rw [List.mem_map]
    rintro ⟨i,-,hi⟩
    exact metaStep_ne_stop _ hi
  · rw [List.mem_map]
    rintro ⟨e,-,he⟩
    exact metaStep_ne_stop _ he

theorem metaSteps_ne_abort (r : Fin n) : .abort ∉ metaSteps heap r := by
  have hstep : ∀ v : LuaRef φ n, metaStep v ≠ .abort := fun v => by cases v <;> simp [metaStep]
  unfold metaSteps
  split_ifs
  · rw [List.mem_map]
    rintro ⟨i,-,hi⟩
    exact hstep _ hi
  · rw [List.mem_map]
    rintro ⟨e,-,he⟩
    exact hstep _ he

theorem forall_node {l : List (Step (Fin n))} {P : Fin n → Prop} :
    (∀ s ∈ l, ∀ b, s = .node b → P b) ↔ ∀ b, .node b ∈ l → P b :=
  ⟨fun h b hb => h _ hb b rfl,fun h _ hs b hsb => h b (hsb ▸ hs)⟩

/-- The conversion of a value ends if those of the tables that it comes to do. -/
theorem metaValueWalk_isSome (d : ℕ) (v : LuaRef φ n) :
    (metaValueWalk heap d v).isSome ↔ ∀ r, metaStep v = .node r → (Step.descend (metaSteps heap) d r).isSome := by
  induction d generalizing v with
  | zero =>
    cases v with
    | table r => simp [metaValueWalk,metaStep,Step.descend]
    | _ => simp [metaValueWalk,metaStep]
  | succ d ih =>
    cases v with
    | table r =>
      have hnode : (Step.descend (metaSteps heap) (d+1) r).isSome ↔
          ∀ b, .node b ∈ metaSteps heap r → (Step.descend (metaSteps heap) d b).isSome :=
        Step.run_isSome_iff (metaSteps_ne_stop r) (metaSteps_ne_abort r) fun b _ =>
          Step.descend_ne_false metaSteps_ne_stop d b
      simp only [metaStep,Step.node.injEq,forall_eq',hnode]
      unfold metaValueWalk metaSteps
      split_ifs
      · rw [Option.isSome_map,mapM_isSome,← forall_node,List.forall_mem_map]
        exact forall₂_congr fun i _ => ih _
      · rw [Option.isSome_map,← forall_node,List.forall_mem_map]
        refine (foldlM_isSome _).trans ?_
        exact forall₂_congr fun e _ => ih _
    | _ => simp [metaValueWalk,metaStep]

omit [DecidableEq φ] in
theorem metaStep_eq_node {v : LuaRef φ n} {r : Fin n} (h : metaStep v = .node r) : v = .table r := by
  cases v with
  | table r' => exact congrArg _ (Step.node.inj h)
  | _ => cases h

/-- The one table is converted for the other: its elements if it has a length, and its named fields if not. -/
def HoldsIn (heap : LuaHeap φ n) (a b : Fin n) : Prop :=
  if 0 < (heap a).rawLen then ∃ i < (heap a).rawLen, (heap a).rawGet (i+1) = .table b
  else ∃ k, (k,.table b) ∈ (heap a).named

/-- Below the fields of the metadata, tables are nested no deeper than this. -/
def NestedWithin (heap : LuaHeap φ n) (d : ℕ) (v : LuaRef φ n) : Prop :=
  ∀ r k b l, v = .table r → (k,.table b) ∈ (heap r).named → List.IsChain (HoldsIn heap) (b::l) → l.length < d

omit [DecidableEq φ] in
theorem metaStep_eq_node_iff {v : LuaRef φ n} {r : Fin n} : metaStep v = .node r ↔ v = .table r :=
  ⟨metaStep_eq_node,fun h => by rw [h]; rfl⟩

theorem mem_metaSteps {a b : Fin n} : .node b ∈ metaSteps heap a ↔ HoldsIn heap a b := by
  unfold metaSteps HoldsIn
  split_ifs
  · simp [metaStep_eq_node_iff]
  · simp [metaStep_eq_node_iff]

/-- The conversion of metadata goes as deep as its tables are nested. -/
theorem metaMapWalk_isSome_iff (heap : LuaHeap φ n) (d : ℕ) (v : LuaRef φ n) :
    (metaMapWalk heap d v).isSome ↔ NestedWithin heap d v := by
  have hchain : (fun a b => .node b ∈ metaSteps heap a) = HoldsIn heap := by
    funext a b
    exact propext mem_metaSteps
  cases v with
  | table r =>
    have hfields : (metaMapWalk heap d (.table r)).isSome ↔
        ∀ e ∈ (heap r).named, (metaValueWalk heap d e.2).isSome := foldlM_isSome _
    rw [hfields]
    constructor
    · rintro h r' k b l hr hk hl
      obtain rfl := LuaRef.table.inj hr
      have hb := (metaValueWalk_isSome d _).mp (h _ hk) b rfl
      rw [Step.descend_isSome_iff_chain metaSteps_ne_stop metaSteps_ne_abort,hchain] at hb
      exact hb l hl
    · intro h e he
      rw [metaValueWalk_isSome]
      intro b hb
      rw [Step.descend_isSome_iff_chain metaSteps_ne_stop metaSteps_ne_abort,hchain]
      have hk : (e.1,.table b) ∈ (heap r).named := by
        rw [← metaStep_eq_node hb]
        exact he
      exact fun l hl => h r e.1 b l rfl hk hl
  | _ => exact iff_of_true rfl nofun

end Meta

end Provium.Lua
