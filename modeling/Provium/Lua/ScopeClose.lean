import Provium.Lib.Buckets

/-! The resources of a test file: `_provium_register_resource` puts them into the scope that the runner's flag
selects, and the end of a scope closes them, `lua/test_framework.rs`. -/
namespace Provium.Lua
open Lib

/-- An entry of a scope: what was registered, whether it is a userdata, and its kind. -/
structure ScopeEntry where
  ud : ℕ
  userdata : Bool
  kind : String
  deriving DecidableEq, Repr

/-- `_close_order`, or 99. -/
def closeOrder (kind : String) : ℕ :=
  if kind = "stream" then 1 else if kind = "proc" then 2 else if kind = "file" then 3 else if kind = "worker" then 4
  else if kind = "bridge" then 5 else if kind = "vm" then 6 else 99

/-- The two lists, the flag that selects one of them, and the userdata whose `close` has been called. -/
structure Scopes where
  inTest : Bool
  test : List ScopeEntry
  file : List ScopeEntry
  calls : List ℕ
  deriving Repr

namespace Scopes

def start : Scopes := ⟨false,[],[],[]⟩

/-- `_provium_register_resource` -/
def registerResource (s : Scopes) (r : ScopeEntry) : Scopes :=
  if s.inTest then { s with test := s.test++[r] } else { s with file := s.file++[r] }

/-- `ud:close()`, which may raise. -/
def callClose (raises : ℕ → Bool) (calls : List ℕ) (ud : ℕ) : Except Unit Unit × List ℕ :=
  (if raises ud then .error () else .ok (),calls++[ud])

/-- The walk of `_close_scope`, which goes on whatever `pcall` gives. -/
def closeEntries (raises : ℕ → Bool) : List ScopeEntry → List ℕ → List ℕ
  | [],calls => calls
  | r::rs,calls =>
    if r.userdata then
      match callClose raises calls r.ud with
      | (.ok (),calls) => closeEntries raises rs calls
      | (.error (),calls) => closeEntries raises rs calls
    else closeEntries raises rs calls

/-- The entries of a scope, sorted by kind and then by place. -/
def sorted (list : List ScopeEntry) : List ScopeEntry :=
  ((Buckets.placed (fun r => closeOrder r.kind) list).mergeSort Buckets.Placed.le).map Buckets.Placed.value

/-- `_close_scope` -/
def closeScope (raises : ℕ → Bool) (list : List ScopeEntry) (calls : List ℕ) : List ℕ :=
  closeEntries raises (sorted list) calls

/-- `_provium_close_test_scope` -/
def closeTestScope (raises : ℕ → Bool) (s : Scopes) : Scopes :=
  { s with test := [], calls := closeScope raises s.test s.calls }

/-- `_provium_close_file_scope` -/
def closeFileScope (raises : ℕ → Bool) (s : Scopes) : Scopes :=
  { s with test := [], file := [], calls := closeScope raises s.file (closeScope raises s.test s.calls) }

end Scopes

/-- What happens to the scopes: a registration, the runner's flag, and the two ends with the userdata whose `close`
raises. -/
inductive ScopeAction where
  | register (r : ScopeEntry)
  | setInTest (b : Bool)
  | closeTest (raises : ℕ → Bool)
  | closeFile (raises : ℕ → Bool)

namespace Scopes

def act (s : Scopes) : ScopeAction → Scopes
  | .register r => s.registerResource r
  | .setInTest b => { s with inTest := b }
  | .closeTest raises => s.closeTestScope raises
  | .closeFile raises => s.closeFileScope raises

def run (acts : List ScopeAction) : Scopes := acts.foldl act start

end Scopes

/-! ## The order of the calls -/

/-- The userdata among the entries. -/
def userdataOf (list : List ScopeEntry) : List ℕ := (list.filter fun r => r.userdata).map ScopeEntry.ud

def kinds : List String := ["stream","proc","file","worker","bridge","vm"]

/-- The userdata of a scope: kind after kind, each in the order of registration, and what is of no such kind last. -/
def byKind (list : List ScopeEntry) : List ℕ :=
  (kinds.flatMap fun k => userdataOf (list.filter fun r => r.kind = k))++
    userdataOf (list.filter fun r => r.kind ∉ kinds)

@[simp] theorem userdataOf_append (l l' : List ScopeEntry) : userdataOf (l++l') = userdataOf l++userdataOf l' := by
  simp [userdataOf]

theorem userdataOf_flatMap {β : Type} (bs : List β) (f : β → List ScopeEntry) :
    userdataOf (bs.flatMap f) = bs.flatMap fun b => userdataOf (f b) := by
  rw [userdataOf,List.filter_flatMap,List.map_flatMap]
  rfl

theorem Scopes.closeEntries_eq (raises : ℕ → Bool) (list : List ScopeEntry) (calls : List ℕ) :
    closeEntries raises list calls = calls++userdataOf list := by
  induction list generalizing calls with
  | nil => exact (List.append_nil calls).symm
  | cons r list ih =>
    unfold closeEntries
    cases hr : r.userdata with
    | false =>
      rw [if_neg (by decide),ih]
      simp [userdataOf,hr]
    | true =>
      rw [if_pos rfl]
      have hcall : closeEntries raises list (calls++[r.ud]) = calls++userdataOf (r::list) := by
        rw [ih]
        simp [userdataOf,hr]
      cases hraise : raises r.ud <;> simpa [callClose,hraise] using hcall

def ranks : List ℕ := [1,2,3,4,5,6,99]

theorem closeOrder_mem_ranks (kind : String) : closeOrder kind ∈ ranks := by
  unfold closeOrder
  split_ifs <;> decide

/-- The kinds have the first ranks, and what is of no such kind the last. -/
theorem closeOrder_iff (kind : String) : (closeOrder kind = 1 ↔ kind = "stream") ∧ (closeOrder kind = 2 ↔ kind = "proc") ∧
    (closeOrder kind = 3 ↔ kind = "file") ∧ (closeOrder kind = 4 ↔ kind = "worker") ∧
    (closeOrder kind = 5 ↔ kind = "bridge") ∧ (closeOrder kind = 6 ↔ kind = "vm") ∧
    (closeOrder kind = 99 ↔ kind ∉ kinds) := by
  unfold closeOrder kinds
  split_ifs <;> simp_all

theorem buckets_eq (list : List ScopeEntry) : Buckets.buckets (fun r => closeOrder r.kind) ranks list =
    (kinds.flatMap fun k => list.filter fun r => r.kind = k)++list.filter fun r => r.kind ∉ kinds := by
  have hfilter : ∀ {n : ℕ} {p : String → Prop} [DecidablePred p], (∀ k, closeOrder k = n ↔ p k) →
      (list.filter fun r => closeOrder r.kind = n) = list.filter fun r => p r.kind := by
    intro n p _ hp
    refine List.filter_congr fun r _ => ?_
    rw [decide_eq_decide]
    exact hp r.kind
  simp only [Buckets.buckets,ranks,kinds,List.flatMap_cons,List.flatMap_nil,List.append_nil,List.append_assoc]
  rw [hfilter fun k => (closeOrder_iff k).1,hfilter fun k => (closeOrder_iff k).2.1,
    hfilter fun k => (closeOrder_iff k).2.2.1,hfilter fun k => (closeOrder_iff k).2.2.2.1,
    hfilter fun k => (closeOrder_iff k).2.2.2.2.1,hfilter fun k => (closeOrder_iff k).2.2.2.2.2.1,
    hfilter fun k => (closeOrder_iff k).2.2.2.2.2.2]
  rfl

theorem Scopes.userdataOf_sorted (list : List ScopeEntry) : userdataOf (sorted list) = byKind list := by
  have hranks : ranks.Pairwise (· < ·) := by decide
  rw [sorted,Buckets.map_value_mergeSort hranks fun r _ => closeOrder_mem_ranks r.kind,buckets_eq,userdataOf_append,
    userdataOf_flatMap,byKind]

theorem Scopes.closeScope_eq (raises : ℕ → Bool) (list : List ScopeEntry) (calls : List ℕ) :
    closeScope raises list calls = calls++byKind list := by
  rw [closeScope,closeEntries_eq,userdataOf_sorted]

/-- Each userdata once. -/
theorem byKind_perm (list : List ScopeEntry) : (byKind list).Perm (userdataOf list) := by
  have hperm : (Buckets.buckets (fun r => closeOrder r.kind) ranks list).Perm list :=
    Buckets.buckets_perm (by decide) fun r _ => closeOrder_mem_ranks r.kind
  rw [byKind,← userdataOf_flatMap,← userdataOf_append,← buckets_eq]
  exact (hperm.filter _).map _

/-! ## Runs -/

namespace Scopes

/-- What an end of a scope calls, whatever raises: of the test's scope its userdata by kind, of the file's scope
first what the test's scope still holds; and a second end nothing. -/
structure Closes (s : Scopes) : Prop where
  test : ∀ raises, (s.closeTestScope raises).calls = s.calls++byKind s.test
  testAgain : ∀ raises raises',
    ((s.closeTestScope raises).closeTestScope raises').calls = (s.closeTestScope raises).calls
  file : ∀ raises, (s.closeFileScope raises).calls = s.calls++byKind s.test++byKind s.file
  fileAgain : ∀ raises raises',
    ((s.closeFileScope raises).closeFileScope raises').calls = (s.closeFileScope raises).calls

/-- The userdata that are registered. -/
def registered (acts : List ScopeAction) : List ℕ :=
  userdataOf (acts.filterMap fun
    | .register r => some r
    | _ => none)

/-- Every userdata that was registered is closed or held. -/
def Accounted (s : Scopes) (uds : List ℕ) : Prop := (s.calls++userdataOf s.test++userdataOf s.file).Perm uds

theorem closes (s : Scopes) : s.Closes where
  test raises := closeScope_eq raises _ _
  testAgain raises raises' := by
    rw [closeTestScope,closeScope_eq]
    exact List.append_nil _
  file raises := by rw [closeFileScope,closeScope_eq,closeScope_eq]
  fileAgain raises raises' := by
    rw [closeFileScope,closeScope_eq,closeScope_eq]
    exact (List.append_nil _).trans (List.append_nil _)

theorem act_accounted {s : Scopes} {uds : List ℕ} (h : s.Accounted uds) (a : ScopeAction) :
    (s.act a).Accounted (uds++registered [a]) := by
  unfold Accounted at h ⊢
  cases a with
  | register r =>
    have hr : registered [.register r] = userdataOf [r] := rfl
    rw [hr]
    simp only [act,registerResource]
    split
    · rw [userdataOf_append,List.append_assoc,List.append_assoc]
      refine List.Perm.trans ?_ (h.append_right _)
      rw [List.append_assoc,List.append_assoc]
      exact (List.perm_append_comm.append_left _).append_left _
    · rw [userdataOf_append,← List.append_assoc]
      exact h.append_right _
  | setInTest b => simpa [registered,userdataOf,act] using h
  | closeTest raises =>
    have hnone : registered [.closeTest raises] = [] := rfl
    rw [hnone,List.append_nil]
    simp only [act,closeTestScope,closeScope_eq]
    refine List.Perm.trans ?_ h
    rw [List.append_assoc,List.append_assoc,List.append_assoc]
    exact ((byKind_perm s.test).append_right _).append_left _
  | closeFile raises =>
    have hnone : registered [.closeFile raises] = [] := rfl
    rw [hnone,List.append_nil]
    simp only [act,closeFileScope,closeScope_eq]
    refine List.Perm.trans ?_ h
    have hempty : userdataOf [] = [] := rfl
    rw [hempty,List.append_nil,List.append_nil]
    exact ((byKind_perm s.test).append_left _).append (byKind_perm s.file)

theorem run_accounted (acts : List ScopeAction) : (run acts).Accounted (registered acts) := by
  induction acts using List.reverseRecOn with
  | nil => exact .nil
  | append_singleton acts a ih =>
    have hregistered : registered (acts++[a]) = registered acts++registered [a] := by
      rw [registered,List.filterMap_append,userdataOf_append]
      rfl
    rw [run,List.foldl_append,hregistered]
    exact act_accounted ih a

end Scopes

/-- After any run: the ends of the scopes call what they hold, by kind, whatever raises, and nothing twice; and once
the file's scope is closed every userdata that was registered has been closed, each as often as it was registered. -/
theorem scopes_close_once_in_order (acts : List ScopeAction) :
    (Scopes.run acts).Closes ∧ (Scopes.run acts).Accounted (Scopes.registered acts) ∧
      ∀ raises, ((Scopes.run acts).closeFileScope raises).calls.Perm (Scopes.registered acts) := by
  refine ⟨Scopes.closes _,Scopes.run_accounted acts,fun raises => ?_⟩
  rw [(Scopes.closes _).file]
  have hperm := ((byKind_perm (Scopes.run acts).test).append_left (Scopes.run acts).calls).append
    (byKind_perm (Scopes.run acts).file)
  exact hperm.trans (Scopes.run_accounted acts)

end Provium.Lua
