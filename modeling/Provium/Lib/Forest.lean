import Provium.Lib.Walk

/-! Nested nodes that form a forest: below no node is another met in two ways, and so a walk lists each
item once. What may be added is what no node above the place has below it already. -/
namespace Lib.Nesting
variable {α β : Type*} {G G' : Nesting α β} {a b c l sub : α} {v : β}

/-- The item is listed at the node or below it. -/
def Holds (G : Nesting α β) (a : α) (v : β) : Prop := ∃ b, G.Reach a b ∧ v ∈ G.items b

structure Forest (G : Nesting α β) : Prop where
  ends : WellFounded G.Sub
  apart : ∀ a, (G.below a).Pairwise fun c d => ∀ b, G.Reach c b → ¬G.Reach d b
  once : ∀ a v b b', G.Reach a b → G.Reach a b' → v ∈ G.items b → v ∈ G.items b' → b = b'
  listed : ∀ a, (G.items a).Nodup

theorem Reach.head (h : G.Sub b a) (hr : G.Reach b c) : G.Reach a c := Relation.ReflTransGen.head h hr

/-- What is below a node does not have it below. -/
theorem not_reach_of_sub (hG : WellFounded G.Sub) (h : G.Sub c a) : ¬G.Reach c a := by
  induction a using hG.induction generalizing c with
  | _ a ih =>
    intro hr
    obtain rfl | ⟨d,hd,hda⟩ := Relation.ReflTransGen.cases_head hr
    · exact ih c h h .refl
    · exact ih c h hd (hda.tail h)

/-- What a walk lists, in its order. -/
noncomputable def gathered (hG : WellFounded G.Sub) : α → List β :=
  hG.fix fun a rec => G.items a++(G.below a).attach.flatMap fun b => rec b.1 b.2

theorem gathered_eq (hG : WellFounded G.Sub) (a : α) :
    gathered hG a = G.items a++(G.below a).flatMap (gathered hG) := by
  rw [gathered,WellFounded.fix_eq]
  congr 1
  have hattach := List.flatMap_subtype (l := (G.below a).attach) (f := fun b => gathered hG b.1)
    (g := gathered hG) fun _ _ => rfl
  rwa [List.unattach_attach] at hattach

theorem mem_gathered (hG : WellFounded G.Sub) : v ∈ gathered hG a ↔ G.Holds a v := by
  induction a using hG.induction with
  | _ a ih =>
    rw [gathered_eq,List.mem_append,List.mem_flatMap]
    constructor
    · rintro (hv | ⟨c,hc,hv⟩)
      · exact ⟨a,.refl,hv⟩
      · obtain ⟨b,hb,hv⟩ := (ih c hc).mp hv
        exact ⟨b,hb.head hc,hv⟩
    · rintro ⟨b,hb,hv⟩
      obtain rfl | ⟨c,hc,hcb⟩ := Relation.ReflTransGen.cases_head hb
      · exact .inl hv
      · exact .inr ⟨c,hc,(ih c hc).mpr ⟨b,hcb,hv⟩⟩

/-- The visits of a node and all below it. -/
theorem visit_gathered (hG : WellFounded G.Sub) (a : α) (rest : List α) (out : List β) :
    ∃ n, G.visit^[n] (a::rest,out) = (rest,out++gathered hG a) := by
  induction a using hG.induction generalizing rest out with
  | _ a ih =>
    -- the nodes below, one after the other
    have hlist : ∀ cs ⊆ G.below a, ∀ out, ∃ n,
        G.visit^[n] (cs++rest,out) = (rest,out++cs.flatMap (gathered hG)) := by
      intro cs
      induction cs with
      | nil =>
        intro _ out
        exact ⟨0,by simp⟩
      | cons c cs ihcs =>
        intro hcs out
        obtain ⟨hc,hcs⟩ := List.cons_subset.mp hcs
        obtain ⟨n,hn⟩ := ih c hc (cs++rest) out
        obtain ⟨m,hm⟩ := ihcs hcs (out++gathered hG c)
        refine ⟨m+n,?_⟩
        rw [Function.iterate_add_apply,List.cons_append,hn,hm,List.flatMap_cons,List.append_assoc]
    obtain ⟨n,hn⟩ := hlist (G.below a) (List.Subset.refl _) (out++G.items a)
    refine ⟨n+1,?_⟩
    rw [Function.iterate_succ_apply]
    show G.visit^[n] (G.below a++rest,out++G.items a) = _
    rw [hn,gathered_eq,List.append_assoc]

/-- In a forest each item is listed once. -/
theorem Forest.nodup_gathered (h : G.Forest) (a : α) : (gathered h.ends a).Nodup := by
  induction a using h.ends.induction with
  | _ a ih =>
    rw [gathered_eq]
    refine List.Nodup.append (h.listed a) (List.nodup_flatMap.mpr ⟨ih,?_⟩) ?_
    · refine (h.apart a).imp_of_mem fun hc hd hapart v hv hv' => ?_
      obtain ⟨b,hb,hvb⟩ := (mem_gathered h.ends).mp hv
      obtain ⟨b',hb',hvb'⟩ := (mem_gathered h.ends).mp hv'
      obtain rfl := h.once a v b b' (hb.head hc) (hb'.head hd) hvb hvb'
      exact hapart b hb hb'
    · intro v hv hv'
      obtain ⟨c,hc,hvc⟩ := List.mem_flatMap.mp hv'
      obtain ⟨b,hb,hvb⟩ := (mem_gathered h.ends).mp hvc
      obtain rfl := h.once a v a b .refl (hb.head hc) hv hvb
      exact not_reach_of_sub h.ends hc hb

/-- With less below and less listed it stays a forest. -/
theorem Forest.mono (h : G.Forest) (hb : ∀ a, (G'.below a).Sublist (G.below a))
    (hi : ∀ a, (G'.items a).Sublist (G.items a)) : G'.Forest := by
  have hreach : ∀ {a b}, G'.Reach a b → G.Reach a b := fun hr => hr.lift id fun _ _ hs => (hb _).subset hs
  refine ⟨Subrelation.wf (fun hs => (hb _).subset hs) h.ends,?_,?_,?_⟩
  · intro a
    refine ((h.apart a).sublist (hb a)).imp fun hapart b hc hd => ?_
    exact hapart b (hreach hc) (hreach hd)
  · intro a v b b' hr hr' hv hv'
    exact h.once a v b b' (hreach hr) (hreach hr') ((hi b).subset hv) ((hi b').subset hv')
  · intro a
    exact (h.listed a).sublist (hi a)

/-- A node more below another: what is in it is in no node above that. -/
theorem Forest.add_sub (h : G.Forest) (hself : G'.below l = sub::G.below l)
    (hothers : ∀ a, a ≠ l → G'.below a = G.below a) (hitems : G'.items = G.items)
    (hno : ∀ a b, G.Reach a l → G.Reach a b → ¬G.Reach sub b)
    (hlisted : ∀ a v, G.Reach a l → G.Holds a v → ¬G.Holds sub v) : G'.Forest := by
  have hcycle : ¬G.Reach sub l := fun hr => hno sub sub hr .refl .refl
  have hsub : ∀ x y, G'.Sub x y → G.Sub x y ∨ x = sub ∧ y = l := by
    intro x y hxy
    by_cases hy : y = l
    · rw [Sub,hy,hself] at hxy
      obtain rfl | hx := List.mem_cons.mp hxy
      · exact .inr ⟨rfl,hy⟩
      · exact .inl (hy ▸ hx)
    · rw [Sub,hothers y hy] at hxy
      exact .inl hxy
  have hreach : ∀ {a b}, G'.Reach a b → G.Reach a b ∨ G.Reach a l ∧ G.Reach sub b := by
    intro a b hr
    induction hr with
    | refl => exact .inl .refl
    | @tail b c _ hbc ih =>
      obtain hbc | ⟨rfl,rfl⟩ := hsub c b hbc
      · exact ih.imp (fun hb => hb.tail hbc) fun hb => ⟨hb.1,hb.2.tail hbc⟩
      · obtain hb | ⟨-,hb⟩ := ih
        · exact .inr ⟨hb,.refl⟩
        · exact absurd hb hcycle
  -- what is below `l` already does not see the new node
  have hbelow : ∀ {c b}, G.Sub c l → G'.Reach c b → G.Reach c b := by
    intro c b hc hr
    exact (hreach hr).resolve_right fun hb => not_reach_of_sub h.ends hc hb.1
  refine ⟨wellFounded_add h.ends hsub hcycle,?_,?_,?_⟩
  · intro a
    by_cases ha : a = l
    · subst ha
      rw [hself]
      refine List.pairwise_cons.mpr ⟨?_,(h.apart a).imp_of_mem fun hc hd hapart b hcb hdb =>
        hapart b (hbelow hc hcb) (hbelow hd hdb)⟩
      intro d hd b hsb hdb
      have hsb' := (hreach hsb).resolve_right fun hb => hcycle hb.1
      exact hno a b .refl ((hbelow hd hdb).head hd) hsb'
    · rw [hothers a ha]
      refine (h.apart a).imp_of_mem fun {c d} hc hd hapart b hcb hdb => ?_
      obtain hcb | ⟨hcl,hsb⟩ := hreach hcb <;> obtain hdb | ⟨hdl,hsb'⟩ := hreach hdb
      · exact hapart b hcb hdb
      · exact hno a b (hdl.head hd) (hcb.head hc) hsb'
      · exact hno a b (hcl.head hc) (hdb.head hd) hsb
      · exact hapart l hcl hdl
  · intro a v b b' hr hr' hv hv'
    rw [hitems] at hv hv'
    obtain hb | ⟨hl,hb⟩ := hreach hr <;> obtain hb' | ⟨hl',hb'⟩ := hreach hr'
    · exact h.once a v b b' hb hb' hv hv'
    · exact absurd ⟨b',hb',hv'⟩ (hlisted a v hl' ⟨b,hb,hv⟩)
    · exact absurd ⟨b,hb,hv⟩ (hlisted a v hl ⟨b',hb',hv'⟩)
    · exact h.once sub v b b' hb hb' hv hv'
  · rw [hitems]
    exact h.listed

/-- An item more at a node: no node above it has the item. -/
theorem Forest.add_item (h : G.Forest) (hbelow : G'.below = G.below) (hself : G'.items l = v::G.items l)
    (hothers : ∀ a, a ≠ l → G'.items a = G.items a) (hno : ∀ a, G.Reach a l → ¬G.Holds a v) : G'.Forest := by
  have hsub : G'.Sub = G.Sub := by
    funext x y
    rw [Sub,Sub,hbelow]
  have hreach : G'.Reach = G.Reach := by
    unfold Reach
    rw [hsub]
  have hitem : ∀ {b w}, w ∈ G'.items b → w ∈ G.items b ∨ w = v ∧ b = l := by
    intro b w hw
    by_cases hb : b = l
    · rw [hb,hself] at hw
      obtain rfl | hw := List.mem_cons.mp hw
      · exact .inr ⟨rfl,hb⟩
      · exact .inl (hb ▸ hw)
    · rw [hothers b hb] at hw
      exact .inl hw
  refine ⟨hsub ▸ h.ends,?_,?_,?_⟩
  · rw [hreach,hbelow]
    exact h.apart
  · rw [hreach]
    intro a w b b' hr hr' hw hw'
    obtain hw | ⟨rfl,rfl⟩ := hitem hw <;> obtain hw' | ⟨hwv,hbl⟩ := hitem hw'
    · exact h.once a w b b' hr hr' hw hw'
    · subst hwv hbl
      exact absurd ⟨b,hr,hw⟩ (hno a hr')
    · exact absurd ⟨b',hr',hw'⟩ (hno a hr)
    · exact hbl.symm
  · intro a
    by_cases ha : a = l
    · rw [ha,hself]
      exact List.nodup_cons.mpr ⟨fun hv => hno l .refl ⟨l,.refl,hv⟩,h.listed l⟩
    · rw [hothers a ha]
      exact h.listed a

/-- A node with nothing above or below it and items of its own is new to every other place. -/
theorem unshared_of_alone (hbelow : G.below sub = []) (habove : ∀ c, sub ∉ G.below c) (hne : sub ≠ l)
    (hitems : ∀ v ∈ G.items sub, ∀ b, v ∈ G.items b → b = sub) :
    (∀ a b, G.Reach a l → G.Reach a b → ¬G.Reach sub b) ∧
      ∀ a v, G.Reach a l → G.Holds a v → ¬G.Holds sub v := by
  have hdown : ∀ b, G.Reach sub b → b = sub := by
    intro b hb
    obtain heq | ⟨c,hc,-⟩ := Relation.ReflTransGen.cases_head hb
    · exact heq.symm
    · rw [Sub,hbelow] at hc
      cases hc
  have halone : ∀ a, G.Reach a l → ¬G.Reach a sub := by
    intro a ha hsub
    obtain heq | ⟨c,-,hc⟩ := Relation.ReflTransGen.cases_tail hsub
    · exact hne (hdown l (heq ▸ ha)).symm
    · exact habove c hc
  constructor
  · intro a b ha hab hb
    rw [hdown b hb] at hab
    exact halone a ha hab
  · rintro a v ha ⟨b,hb,hv⟩ ⟨b',hb',hv'⟩
    rw [hdown b' hb'] at hv'
    rw [hitems v hv' b hv] at hb
    exact halone a ha hb

end Lib.Nesting
