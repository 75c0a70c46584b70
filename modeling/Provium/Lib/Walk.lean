import Mathlib

/-! The depth-first walk of nested nodes with a stack of nodes still to visit. The graph may be another
at each visit, so the lemmas are about one visit of one graph: what is still to be found stays to
be found or is found, and where the graph is well founded the walk of it ends. -/
namespace Lib

/-- For each node the nodes below it and the items it lists. -/
@[ext]
structure Nesting (α β : Type*) where
  below : α → List α
  items : α → List β

namespace Nesting
variable {α β : Type*} (G : Nesting α β)

def Sub (a b : α) : Prop := a ∈ G.below b

/-- A node, or one below it. -/
def Reach : α → α → Prop := Relation.ReflTransGen fun a b => G.Sub b a

/-- The item is listed at one of these nodes or below. -/
def Within (pending : List α) (v : β) : Prop := ∃ a ∈ pending, ∃ b, G.Reach a b ∧ v ∈ G.items b

/-- One visit: the nodes below go to the front, the items to the end of the list. -/
def visit : List α × List β → List α × List β
  | ([],out) => ([],out)
  | (a::rest,out) => (G.below a++rest,out++G.items a)

variable {G}

/-- An item still to be found is found by a visit or is still to be found after it. -/
theorem Within.visit {pending : List α} {out : List β} {v : β}
    (h : v ∈ out ∨ G.Within pending v) :
    v ∈ (G.visit (pending,out)).2 ∨ G.Within (G.visit (pending,out)).1 v := by
  cases pending with
  | nil => exact h
  | cons a rest =>
    obtain h | ⟨c,hc,b,hreach,hb⟩ := h
    · exact .inl (List.mem_append_left _ h)
    · obtain rfl | hc := List.mem_cons.mp hc
      · obtain rfl | ⟨d,hd,hreach⟩ := Relation.ReflTransGen.cases_head hreach
        · exact .inl (List.mem_append_right _ hb)
        · exact .inr ⟨d,List.mem_append_left _ hd,b,hreach,hb⟩
      · exact .inr ⟨c,List.mem_append_right _ hc,b,hreach,hb⟩

theorem not_within_nil {v : β} : ¬G.Within [] v := by
  rintro ⟨a,ha,-⟩
  cases ha

/-- A graph with more below and more listed at each node. -/
structure Grows (G G' : Nesting α β) : Prop where
  below : ∀ a, G.below a ⊆ G'.below a
  items : ∀ a, G.items a ⊆ G'.items a

theorem Grows.trans {G' G'' : Nesting α β} (h : Grows G G') (h' : Grows G' G'') : Grows G G'' :=
  ⟨fun a => List.Subset.trans (h.below a) (h'.below a),
    fun a => List.Subset.trans (h.items a) (h'.items a)⟩

theorem Within.mono {G' : Nesting α β} (hg : Grows G G') {pending : List α} {v : β}
    (h : G.Within pending v) : G'.Within pending v := by
  obtain ⟨a,ha,b,hreach,hb⟩ := h
  exact ⟨a,ha,b,hreach.lift id fun x _ hxy => hg.below x hxy,hg.items b hb⟩

/-- The visits of a node below which the graph is well founded, and of all below it, end. -/
theorem visit_node {a : α} (ha : Acc G.Sub a) (rest : List α) (out : List β) :
    ∃ n out', G.visit^[n] (a::rest,out) = (rest,out') := by
  induction ha generalizing rest out with
  | intro a _ ih =>
    -- the nodes below, one after the other
    have hlist : ∀ l ⊆ G.below a, ∀ out, ∃ n out', G.visit^[n] (l++rest,out) = (rest,out') := by
      intro l
      induction l with
      | nil =>
        intro _ out
        exact ⟨0,out,rfl⟩
      | cons b l ihl =>
        intro hl out
        obtain ⟨hb,hl⟩ := List.cons_subset.mp hl
        obtain ⟨n,out₁,hn⟩ := ih b hb (l++rest) out
        obtain ⟨m,out₂,hm⟩ := ihl hl out₁
        refine ⟨m+n,out₂,?_⟩
        rw [Function.iterate_add_apply,List.cons_append,hn,hm]
    obtain ⟨n,out',hn⟩ := hlist (G.below a) (List.Subset.refl _) (out++G.items a)
    exact ⟨n+1,out',hn⟩

/-- The walk of a well-founded graph ends. -/
theorem visit_ends (hG : WellFounded G.Sub) (pending : List α) (out : List β) :
    ∃ n out', G.visit^[n] (pending,out) = ([],out') := by
  induction pending generalizing out with
  | nil => exact ⟨0,out,rfl⟩
  | cons a rest ih =>
    obtain ⟨n,out₁,hn⟩ := visit_node (hG.apply a) rest out
    obtain ⟨m,out₂,hm⟩ := ih out₁
    refine ⟨m+n,out₂,?_⟩
    rw [Function.iterate_add_apply,hn,hm]

/-- A walk has one end. -/
theorem visit_end_unique {n m : ℕ} {p : List α × List β} {out out' : List β}
    (h : G.visit^[n] p = ([],out)) (h' : G.visit^[m] p = ([],out')) : out = out' := by
  have hmore : ∀ {n k o}, G.visit^[n] p = ([],o) → G.visit^[k+n] p = ([],o) := by
    intro n k o hn
    rw [Function.iterate_add_apply,hn,Function.iterate_fixed rfl]
  have heq := (hmore (k := m) h).symm.trans (Nat.add_comm n m ▸ hmore (k := n) h')
  exact (Prod.mk.inj heq).2

/-- With one edge more, whose lower end does not reach its upper end, a graph stays well founded. -/
theorem wellFounded_add {G' : Nesting α β} {a b : α} (hG : WellFounded G.Sub)
    (hsub : ∀ x y, G'.Sub x y → G.Sub x y ∨ x = a ∧ y = b) (hno : ¬G.Reach a b) :
    WellFounded G'.Sub := by
  -- below `a` nothing has changed
  have hbelow : ∀ x, G.Reach a x → Acc G'.Sub x := by
    intro x
    induction x using hG.induction with
    | _ x ih =>
      intro hx
      refine ⟨x,?_⟩
      intro y hy
      obtain hy | ⟨-,rfl⟩ := hsub y x hy
      · exact ih y hy (hx.tail hy)
      · exact absurd hx hno
  refine ⟨?_⟩
  intro x
  induction x using hG.induction with
  | _ x ih =>
    refine ⟨x,?_⟩
    intro y hy
    obtain hy | ⟨rfl,-⟩ := hsub y x hy
    · exact ih y hy
    · exact hbelow y .refl

end Nesting
end Lib
