import Mathlib

/-! The depth-first survey of what is referred to, with one list of the marks of what has been met.
What is met again is passed over, so where a node stands in the forest of the visits depends on the
order of the references; that it stands somewhere does not, as long as no two references share a
mark. -/
namespace Lib

/-- A forest: the first node with what is below it, and the rest. -/
inductive Forest (α : Type*) where
  | nil
  | cons (a : α) (below rest : Forest α)
  deriving DecidableEq, Repr

namespace Forest
variable {α β γ : Type*}

/-- From the leaves to the top, where the nodes below one another are known by what came of them. -/
def fold (emit : α → List β → List β) : Forest α → List β
  | nil => []
  | cons a below rest => emit a (below.fold emit)++rest.fold emit

def map (f : α → γ) : Forest α → Forest γ
  | nil => nil
  | cons a below rest => cons (f a) (below.map f) (rest.map f)

def nodes : Forest α → List α
  | nil => []
  | cons a below rest => a::(below.nodes++rest.nodes)

/-- Where each node emits something of its own before what is below it, all of it comes out. -/
theorem mem_fold_append {own : α → List β} {b : β} {F : Forest α} :
    b ∈ F.fold (fun a l => own a++l) ↔ ∃ a ∈ F.nodes, b ∈ own a := by
  induction F with
  | nil => simp [fold,nodes]
  | cons c below rest ihb ihr =>
    simp only [fold,nodes,List.mem_append,List.mem_cons,ihb,ihr,or_and_right,exists_or,
      exists_eq_left,or_assoc]

end Forest

/-- Nodes by reference. A reference that leads nowhere has no node. -/
structure Survey (ρ κ α : Type*) where
  mark : ρ → κ
  load : ρ → Option α
  refs : α → List ρ

namespace Survey
variable {ρ κ α β γ : Type*} (S : Survey ρ κ α)

/-- What is below a node is visited before what comes next. Without fuel nothing is returned. -/
def walk [DecidableEq κ] (emit : α → List β → List β) : ℕ → List ρ → List κ → Option (List β × List κ)
  | 0,_,_ => none
  | _+1,[],seen => some ([],seen)
  | n+1,r::rs,seen =>
    if S.mark r ∈ seen then walk emit n rs seen
    else match S.load r with
      | none => walk emit n rs (seen++[S.mark r])
      | some a => do
        let (nested,seen) ← walk emit n (S.refs a) (seen++[S.mark r])
        let (out,seen) ← walk emit n rs seen
        some (emit a nested++out,seen)

/-- The walk, with the forest of its visits. -/
inductive Walks : List ρ → List κ → Forest α → List κ → Prop
  | nil (seen) : Walks [] seen .nil seen
  | again {r rs seen F s} : S.mark r ∈ seen → Walks rs seen F s → Walks (r::rs) seen F s
  | nowhere {r rs seen F s} : S.mark r ∉ seen → S.load r = none →
      Walks rs (seen++[S.mark r]) F s → Walks (r::rs) seen F s
  | visit {r rs seen a F G s t} : S.mark r ∉ seen → S.load r = some a →
      Walks (S.refs a) (seen++[S.mark r]) F s → Walks rs s G t → Walks (r::rs) seen (.cons a F G) t

/-- What is referred to, at once or by what is reached. -/
inductive Reach (rs : List ρ) : ρ → Prop
  | root {r} : r ∈ rs → Reach rs r
  | step {r a r'} : Reach rs r → S.load r = some a → r' ∈ S.refs a → Reach rs r'

variable {S}

theorem Reach.of_cons {r r' : ρ} {rs : List ρ} (h : S.Reach rs r') : S.Reach (r::rs) r' := by
  induction h with
  | root hmem => exact .root (List.mem_cons_of_mem r hmem)
  | step _ hload hmem ih => exact .step ih hload hmem

theorem Reach.of_refs {r r' : ρ} {rs : List ρ} {a : α} (hload : S.load r = some a)
    (h : S.Reach (S.refs a) r') : S.Reach (r::rs) r' := by
  induction h with
  | root hmem => exact .step (.root List.mem_cons_self) hload hmem
  | step _ hload' hmem ih => exact .step ih hload' hmem

theorem Reach.subset {rs rs' : List ρ} (hsub : rs ⊆ rs') {r : ρ} (h : S.Reach rs r) : S.Reach rs' r := by
  induction h with
  | root hmem => exact .root (hsub hmem)
  | step _ hload hmem ih => exact .step ih hload hmem

section Walk
variable [DecidableEq κ] {emit : α → List β → List β}

/-- What a walk emits is of the forest of its visits, whatever it emits for each. -/
theorem walk_walks (emit' : α → List γ → List γ) {n : ℕ} {rs : List ρ} {seen s : List κ} {out : List β}
    (h : S.walk emit n rs seen = some (out,s)) :
    ∃ F, S.Walks rs seen F s ∧ out = F.fold emit ∧ S.walk emit' n rs seen = some (F.fold emit',s) := by
  induction n generalizing rs seen s out with
  | zero => cases h
  | succ n ih =>
    cases rs with
    | nil =>
      cases h
      exact ⟨.nil,.nil _,rfl,rfl⟩
    | cons r rs =>
      rw [walk] at h ⊢
      split at h
      · next hmem =>
        obtain ⟨F,hF,hout,hother⟩ := ih h
        rw [if_pos hmem]
        exact ⟨F,.again hmem hF,hout,hother⟩
      · next hmem =>
        rw [if_neg hmem]
        split at h
        · next hload =>
          obtain ⟨F,hF,hout,hother⟩ := ih h
          exact ⟨F,.nowhere hmem hload hF,hout,hother⟩
        · next a hload =>
          obtain ⟨⟨nested,s₁⟩,hnested,h⟩ := Option.bind_eq_some_iff.mp h
          obtain ⟨⟨out₁,s₂⟩,hrest,h⟩ := Option.bind_eq_some_iff.mp h
          obtain ⟨F,hF,rfl,hF'⟩ := ih hnested
          obtain ⟨G,hG,rfl,hG'⟩ := ih hrest
          cases h
          refine ⟨.cons a F G,.visit hmem hload hF hG,rfl,?_⟩
          simp only [hF',hG',Option.bind_eq_bind,Option.bind_some]
          rfl

/-- Any fuel that is enough gives the same. -/
theorem Walks.walk (emit : α → List β → List β) {rs : List ρ} {seen s : List κ} {F : Forest α} (h : S.Walks rs seen F s) :
    ∃ n, ∀ m, n ≤ m → S.walk emit m rs seen = some (F.fold emit,s) := by
  induction h with
  | nil seen =>
    refine ⟨1,?_⟩
    intro m hm
    obtain ⟨m,rfl⟩ := Nat.exists_eq_add_of_le' hm
    rfl
  | again hmem _ ih =>
    obtain ⟨n,hn⟩ := ih
    refine ⟨n+1,?_⟩
    intro m hm
    obtain ⟨m,rfl⟩ := Nat.exists_eq_add_of_le' (show 1 ≤ m by omega)
    rw [Survey.walk,if_pos hmem]
    exact hn m (by omega)
  | nowhere hmem hload _ ih =>
    obtain ⟨n,hn⟩ := ih
    refine ⟨n+1,?_⟩
    intro m hm
    obtain ⟨m,rfl⟩ := Nat.exists_eq_add_of_le' (show 1 ≤ m by omega)
    rw [Survey.walk,if_neg hmem,hload]
    exact hn m (by omega)
  | visit hmem hload _ _ ihF ihG =>
    obtain ⟨n,hn⟩ := ihF
    obtain ⟨n',hn'⟩ := ihG
    refine ⟨n+n'+1,?_⟩
    intro m hm
    obtain ⟨m,rfl⟩ := Nat.exists_eq_add_of_le' (show 1 ≤ m by omega)
    rw [Survey.walk,if_neg hmem,hload]
    simp only [hn m (by omega),hn' m (by omega),Option.bind_eq_bind,Option.bind_some]
    rfl

/-- What is emitted does not depend on the fuel. -/
theorem walk_unique {n n' : ℕ} {rs : List ρ} {seen : List κ} {r r' : List β × List κ}
    (h : S.walk emit n rs seen = some r) (h' : S.walk emit n' rs seen = some r') : r = r' := by
  obtain ⟨F,hF,hr,-⟩ := walk_walks emit h
  obtain ⟨F',hF',hr',-⟩ := walk_walks emit h'
  obtain ⟨m,hm⟩ := hF.walk emit
  obtain ⟨m',hm'⟩ := hF'.walk emit
  have hsame := (hm (max m m') (le_max_left m m')).symm.trans (hm' (max m m') (le_max_right m m'))
  rw [← hr,← hr'] at hsame
  exact Option.some.inj hsame

end Walk

theorem Walks.subset {rs : List ρ} {seen s : List κ} {F : Forest α} (h : S.Walks rs seen F s) :
    seen ⊆ s := by
  induction h with
  | nil seen => exact List.Subset.refl _
  | again _ _ ih => exact ih
  | nowhere _ _ _ ih => exact List.Subset.trans (List.subset_append_left _ _) ih
  | visit _ _ _ _ ihF ihG =>
    exact List.Subset.trans (List.subset_append_left _ _) (List.Subset.trans ihF ihG)

theorem Walks.mark_mem {rs : List ρ} {seen s : List κ} {F : Forest α} (h : S.Walks rs seen F s) :
    ∀ r ∈ rs, S.mark r ∈ s := by
  induction h with
  | nil seen => simp
  | again hmem hwalk ih => exact List.forall_mem_cons.mpr ⟨hwalk.subset hmem,ih⟩
  | nowhere _ _ hwalk ih =>
    exact List.forall_mem_cons.mpr ⟨hwalk.subset (List.mem_append_right _ List.mem_cons_self),ih⟩
  | visit _ _ hF hG _ ihG =>
    refine List.forall_mem_cons.mpr ⟨hG.subset (hF.subset ?_),ihG⟩
    exact List.mem_append_right _ List.mem_cons_self

/-- What has been marked on the way has been visited, with all that it refers to. -/
theorem Walks.closed {rs : List ρ} {seen s : List κ} {F : Forest α} (h : S.Walks rs seen F s) :
    ∀ k ∈ s, k ∈ seen ∨ ∃ r, S.Reach rs r ∧ S.mark r = k ∧
      ∀ a, S.load r = some a → a ∈ F.nodes ∧ ∀ r' ∈ S.refs a, S.mark r' ∈ s := by
  induction h with
  | nil seen => exact fun k hk => .inl hk
  | again _ _ ih =>
    intro k hk
    obtain hk | ⟨r,hr,hmark,hall⟩ := ih k hk
    · exact .inl hk
    · exact .inr ⟨r,hr.of_cons,hmark,hall⟩
  | @nowhere r _ _ _ _ _ hload _ ih =>
    intro k hk
    obtain hk | ⟨r',hr,hmark,hall⟩ := ih k hk
    · obtain hk | hk := List.mem_append.mp hk
      · exact .inl hk
      · refine .inr ⟨r,.root List.mem_cons_self,(List.mem_singleton.mp hk).symm,?_⟩
        intro a ha
        rw [hload] at ha
        cases ha
    · exact .inr ⟨r',hr.of_cons,hmark,hall⟩
  | @visit r _ _ a _ _ _ _ _ hload hF hG ihF ihG =>
    intro k hk
    obtain hk | ⟨r',hr,hmark,hall⟩ := ihG k hk
    · obtain hk | ⟨r',hr,hmark,hall⟩ := ihF k hk
      · obtain hk | hk := List.mem_append.mp hk
        · exact .inl hk
        · refine .inr ⟨r,.root List.mem_cons_self,(List.mem_singleton.mp hk).symm,?_⟩
          intro a' ha'
          obtain rfl : a = a' := Option.some.inj (hload.symm.trans ha')
          exact ⟨List.mem_cons_self,fun r' hr' => hG.subset (hF.mark_mem r' hr')⟩
      · refine .inr ⟨r',hr.of_refs hload,hmark,?_⟩
        intro a' ha'
        obtain ⟨hnode,hrefs⟩ := hall a' ha'
        exact ⟨List.mem_cons_of_mem _ (List.mem_append_left _ hnode),
          fun r' hr' => hG.subset (hrefs r' hr')⟩
    · refine .inr ⟨r',hr.of_cons,hmark,?_⟩
      intro a' ha'
      obtain ⟨hnode,hrefs⟩ := hall a' ha'
      exact ⟨List.mem_cons_of_mem _ (List.mem_append_right _ hnode),hrefs⟩

/-- What is visited is reached. -/
theorem Walks.reach {rs : List ρ} {seen s : List κ} {F : Forest α} (h : S.Walks rs seen F s) :
    ∀ a ∈ F.nodes, ∃ r, S.Reach rs r ∧ S.load r = some a := by
  induction h with
  | nil seen =>
    intro a ha
    cases ha
  | again _ _ ih | nowhere _ _ _ ih =>
    intro a ha
    obtain ⟨r,hr,hload⟩ := ih a ha
    exact ⟨r,hr.of_cons,hload⟩
  | visit _ hload _ _ ihF ihG =>
    intro a ha
    obtain rfl | ha := List.mem_cons.mp ha
    · exact ⟨_,.root List.mem_cons_self,hload⟩
    · obtain ha | ha := List.mem_append.mp ha
      · obtain ⟨r,hr,hload'⟩ := ihF a ha
        exact ⟨r,hr.of_refs hload,hload'⟩
      · obtain ⟨r,hr,hload'⟩ := ihG a ha
        exact ⟨r,hr.of_cons,hload'⟩

/-- Where no two references that are reached share a mark, all that is reached is visited. -/
theorem Walks.covers {rs : List ρ} {s : List κ} {F : Forest α} (h : S.Walks rs [] F s)
    (hmark : Set.InjOn S.mark {r | S.Reach rs r}) {r : ρ} (hr : S.Reach rs r) :
    S.mark r ∈ s ∧ ∀ a, S.load r = some a → a ∈ F.nodes := by
  have hclosed : ∀ r, S.Reach rs r → S.mark r ∈ s →
      ∀ a, S.load r = some a → a ∈ F.nodes ∧ ∀ r' ∈ S.refs a, S.mark r' ∈ s := by
    intro r hr hmem
    obtain hk | ⟨r',hr',hsame,hall⟩ := h.closed _ hmem
    · cases hk
    · rw [← hmark hr' hr hsame]
      exact hall
  have hmem : S.mark r ∈ s := by
    induction hr with
    | root hroot => exact h.mark_mem _ hroot
    | step hr hload hrefs ih => exact (hclosed _ hr ih _ hload).2 _ hrefs
  exact ⟨hmem,fun a ha => (hclosed r hr hmem a ha).1⟩

/-- Two surveys whose forests bear the same labels have found the same under every mark, where the
label of a node tells what it refers to. -/
theorem Walks.agree {S S' : Survey ρ κ α} {label : α → γ} (hmark : S'.mark = S.mark)
    (hnone : ∀ r, S.load r = none ↔ S'.load r = none)
    (hrefs : ∀ a a', label a = label a' → S.refs a = S'.refs a') {rs : List ρ} {seen s s' : List κ}
    {F F' : Forest α} (h : S.Walks rs seen F s) (h' : S'.Walks rs seen F' s')
    (hsame : F.map label = F'.map label) : s = s' ∧
      ∀ k ∈ s, k ∈ seen ∨ ∃ r, S.Reach rs r ∧ S.mark r = k ∧
        (S.load r).map label = (S'.load r).map label := by
  induction h generalizing F' s' with
  | nil seen =>
    cases h'
    exact ⟨rfl,fun k hk => .inl hk⟩
  | @again r rs seen _ _ hmem _ ih =>
    have h'' : S'.Walks rs seen F' s' := by
      cases h' with
      | again _ h' => exact h'
      | nowhere hno _ _ => exact absurd (hmark ▸ hmem) hno
      | visit hno _ _ _ => exact absurd (hmark ▸ hmem) hno
    obtain ⟨hs,hall⟩ := ih h'' hsame
    refine ⟨hs,?_⟩
    intro k hk
    obtain hk | ⟨r,hr,hk,hload⟩ := hall k hk
    · exact .inl hk
    · exact .inr ⟨r,hr.of_cons,hk,hload⟩
  | @nowhere r rs seen _ _ hmem hload _ ih =>
    have h'' : S'.Walks rs (seen++[S.mark r]) F' s' := by
      cases h' with
      | again hmem' _ => exact absurd (hmark ▸ hmem') hmem
      | nowhere _ _ h' => exact hmark ▸ h'
      | visit _ hload' _ _ =>
        rw [(hnone r).mp hload] at hload'
        cases hload'
    obtain ⟨hs,hall⟩ := ih h'' hsame
    refine ⟨hs,?_⟩
    intro k hk
    obtain hk | ⟨r',hr,hk,hload'⟩ := hall k hk
    · obtain hk | hk := List.mem_append.mp hk
      · exact .inl hk
      · refine .inr ⟨r,.root List.mem_cons_self,(List.mem_singleton.mp hk).symm,?_⟩
        rw [hload,(hnone r).mp hload]
    · exact .inr ⟨r',hr.of_cons,hk,hload'⟩
  | @visit r rs seen a F G s₁ t hmem hload _ _ ihF ihG =>
    cases h' with
    | again hmem' _ => exact absurd (hmark ▸ hmem') hmem
    | nowhere _ hload' _ =>
      rw [(hnone r).mpr hload'] at hload
      cases hload
    | @visit _ _ _ a' F' G' s₁' t' _ hload' hF' hG' =>
      simp only [Forest.map,Forest.cons.injEq] at hsame
      obtain ⟨hlabel,hbelow,hrest⟩ := hsame
      rw [← hrefs a a' hlabel,hmark] at hF'
      obtain ⟨rfl,hallF⟩ := ihF hF' hbelow
      obtain ⟨hs,hallG⟩ := ihG hG' hrest
      refine ⟨hs,?_⟩
      intro k hk
      obtain hk | ⟨r',hr,hk,hl⟩ := hallG k hk
      · obtain hk | ⟨r',hr,hk,hl⟩ := hallF k hk
        · obtain hk | hk := List.mem_append.mp hk
          · exact .inl hk
          · refine .inr ⟨r,.root List.mem_cons_self,(List.mem_singleton.mp hk).symm,?_⟩
            rw [hload,hload',Option.map_some,Option.map_some,hlabel]
        · exact .inr ⟨r',hr.of_refs hload,hk,hl⟩
      · exact .inr ⟨r',hr.of_cons,hk,hl⟩

/-- Where the references bear finitely many marks, the walk ends. -/
theorem exists_walks {K : Set κ} (hfin : K.Finite)
    (hK : ∀ r a, S.load r = some a → ∀ r' ∈ S.refs a, S.mark r' ∈ K) (rs : List ρ) (seen : List κ)
    (hrs : ∀ r ∈ rs, S.mark r ∈ K) : ∃ F s, S.Walks rs seen F s := by
  -- the marks not yet met become fewer, or the references left do
  induction hc : (K \ {k | k ∈ seen}).ncard using Nat.strong_induction_on generalizing rs seen with
  | _ c ihc =>
    induction rs generalizing seen c with
    | nil => exact ⟨.nil,seen,.nil seen⟩
    | cons r rs ih =>
      obtain ⟨hr,hrs⟩ := List.forall_mem_cons.mp hrs
      have hsmaller : ∀ s : List κ, seen++[S.mark r] ⊆ s → S.mark r ∉ seen →
          (K \ {k | k ∈ s}).ncard < c := by
        intro s hs hmem
        rw [← hc]
        refine Set.ncard_lt_ncard ?_ (hfin.subset Set.sdiff_subset)
        refine ⟨?_,?_⟩
        · rintro k ⟨hk,hno⟩
          exact ⟨hk,fun hmem => hno (hs (List.mem_append_left _ hmem))⟩
        · intro hall
          exact (hall ⟨hr,hmem⟩).2 (hs (List.mem_append_right _ List.mem_cons_self))
      by_cases hmem : S.mark r ∈ seen
      · obtain ⟨F,s,h⟩ := ih c ihc seen hrs hc
        exact ⟨F,s,.again hmem h⟩
      · cases hload : S.load r with
        | none =>
          obtain ⟨F,s,h⟩ := ihc _ (hsmaller _ (List.Subset.refl _) hmem) rs (seen++[S.mark r]) hrs rfl
          exact ⟨F,s,.nowhere hmem hload h⟩
        | some a =>
          obtain ⟨F,s,h⟩ := ihc _ (hsmaller _ (List.Subset.refl _) hmem) (S.refs a)
            (seen++[S.mark r]) (hK r a hload) rfl
          obtain ⟨G,t,h'⟩ := ihc _ (hsmaller _ h.subset hmem) rs s hrs rfl
          exact ⟨.cons a F G,t,.visit hmem hload h h'⟩

end Survey
end Lib
