import Provium.Lab.Calls

/-! Members that a lab has taken in and never put out. All maps but that of the sub-labs are checked
for the name first; a sub-lab made under a name that is there already takes its place. -/
namespace Provium.Lab
open Lib

variable {H : Type}

/-- The member was taken in at this slot, and nothing has been put out of the slot since. -/
def Standing (h : List MemberEvent) (slot : MemberSlot) (v : ℕ) : Prop :=
  ∃ pre post, h = pre++.added slot v::post ∧ .removed slot ∉ post

/-- The last event decides. -/
theorem standing_snoc {h : List MemberEvent} {e : MemberEvent} {slot : MemberSlot} {v : ℕ}
    (hs : Standing (h++[e]) slot v) : e = .added slot v ∨ e ≠ .removed slot ∧ Standing h slot v := by
  obtain ⟨pre,post,heq,hpost⟩ := hs
  obtain rfl | ⟨post',e',rfl⟩ := List.eq_nil_or_concat post
  · obtain ⟨-,h'⟩ := List.append_inj' heq rfl
    exact .inl (List.cons.inj h').1
  · rw [List.concat_eq_append,← List.cons_append,← List.append_assoc] at heq
    obtain ⟨rfl,h'⟩ := List.append_inj' heq rfl
    obtain rfl := (List.cons.inj h').1
    rw [List.concat_eq_append,List.mem_append,not_or,List.mem_singleton] at hpost
    exact .inr ⟨fun h => hpost.2 h.symm,pre,post',rfl,hpost.1⟩

theorem not_standing_nil {slot : MemberSlot} {v : ℕ} : ¬Standing [] slot v := by
  rintro ⟨pre,post,heq,-⟩
  simp at heq

/-- What stands is where it was put. -/
def InPlace (h : List MemberEvent) (s : FileLabs H) : Prop :=
  ∀ slot v, Standing h slot v → s.member slot = some v

/-- What is below a lab is a member of it. -/
theorem sub_iff_member {s : FileLabs H} {l v : ℕ} :
    s.labs.graph.Sub v l ↔ ∃ name, s.member ⟨l,.subLab,name⟩ = some v := by
  simp only [FileLabs.member,FileLabs.mapOf,Nesting.Sub]
  cases hl : s.labs[l]? with
  | none => simp [Labs.graph,hl]
  | some node =>
    rw [graph_below_of hl]
    exact Table.mem_values

theorem items_of_member {s : FileLabs H} {l v : ℕ} {name : String}
    (h : s.member ⟨l,.vm,name⟩ = some v) : v ∈ s.labs.graph.items l := by
  simp only [FileLabs.member,FileLabs.mapOf] at h
  cases hl : s.labs[l]? with
  | none => simp [hl] at h
  | some node =>
    rw [graph_items_of hl]
    rw [hl] at h
    exact Table.mem_values.mpr ⟨name,h⟩

/-- Members come and go one by one, none takes the place of another, and no sub-lab that comes has the
lab below it. -/
inductive Adds : FileLabs H → List MemberEvent → FileLabs H → Prop where
  | same {s s' : FileLabs H} (hsame : ∀ slot, s'.member slot = s.member slot) : Adds s [] s'
  | added {s s₁ s' : FileLabs H} {slot : MemberSlot} {v : ℕ} {es : List MemberEvent}
      (hfree : s.member slot = none) (hno : slot.kind = .subLab → ¬s.labs.graph.Reach v slot.lab)
      (hput : ∀ slot', s₁.member slot' = if slot' = slot then some v else s.member slot')
      (hrest : Adds s₁ es s') : Adds s (.added slot v::es) s'
  | removed {s s₁ s' : FileLabs H} {slot : MemberSlot} {es : List MemberEvent}
      (hgone : s₁.member slot = none)
      (hput : ∀ slot', slot' ≠ slot → s₁.member slot' = s.member slot')
      (hrest : Adds s₁ es s') : Adds s (.removed slot::es) s'

namespace Adds

theorem refl (s : FileLabs H) : Adds s [] s := .same fun _ => rfl

/-- States with the same members are alike. -/
theorem congr_left {s₀ s s' : FileLabs H} {es : List MemberEvent}
    (hsame : ∀ slot, s.member slot = s₀.member slot) (h : Adds s es s') : Adds s₀ es s' := by
  cases h with
  | same h' => exact .same fun slot => (h' slot).trans (hsame slot)
  | added hfree hno hput hrest =>
    refine .added ?_ ?_ ?_ hrest
    · rw [← hsame]
      exact hfree
    · intro hk hreach
      refine hno hk (hreach.lift id ?_)
      intro a b hab
      obtain ⟨name,hab⟩ := sub_iff_member.mp hab
      exact sub_iff_member.mpr ⟨name,(hsame _).trans hab⟩
    · intro slot'
      rw [hput,hsame]
  | removed hgone hput hrest =>
    refine .removed hgone ?_ hrest
    intro slot' hne
    rw [hput slot' hne,hsame]

theorem append {s s₁ s' : FileLabs H} {es es' : List MemberEvent} (h : Adds s es s₁)
    (h' : Adds s₁ es' s') : Adds s (es++es') s' := by
  induction h with
  | same hsame => exact h'.congr_left hsame
  | added hfree hno hput _ ih => exact .added hfree hno hput (ih h')
  | removed hgone hput _ ih => exact .removed hgone hput (ih h')

/-- So what stands is kept. -/
theorem kept {s s' : FileLabs H} {es h : List MemberEvent} (hadds : Adds s es s') (hk : InPlace h s) :
    InPlace (h++es) s' := by
  induction hadds generalizing h with
  | same hsame =>
    intro slot v hs
    rw [List.append_nil] at hs
    rw [hsame]
    exact hk slot v hs
  | @added s s₁ s' slot w es hfree hno hput _ ih =>
    rw [List.append_cons]
    apply ih
    intro slot' v hs
    rw [hput]
    obtain heq | ⟨-,hs⟩ := standing_snoc hs
    · cases heq
      exact if_pos rfl
    · rw [if_neg]
      · exact hk slot' v hs
      · intro heq
        rw [← heq,hk slot' v hs] at hfree
        cases hfree
  | @removed s s₁ s' slot es hgone hput _ ih =>
    rw [List.append_cons]
    apply ih
    intro slot' v hs
    obtain heq | ⟨hne,hs⟩ := standing_snoc hs
    · cases heq
    · rw [hput slot' fun h => hne (by rw [h])]
      exact hk slot' v hs

/-- And no lab gets below itself. -/
theorem acyclic {s s' : FileLabs H} {es : List MemberEvent} (hadds : Adds s es s')
    (ha : Acyclic s.labs) : Acyclic s'.labs := by
  induction hadds with
  | same hsame =>
    refine Subrelation.wf ?_ ha
    intro a b hab
    obtain ⟨name,hab⟩ := sub_iff_member.mp hab
    exact sub_iff_member.mpr ⟨name,(hsame _).symm.trans hab⟩
  | @added s s₁ s' slot w es hfree hno hput _ ih =>
    apply ih
    by_cases hk : slot.kind = .subLab
    · refine Nesting.wellFounded_add (a := w) (b := slot.lab) ha ?_ (hno hk)
      intro a b hab
      obtain ⟨name,hab⟩ := sub_iff_member.mp hab
      rw [hput] at hab
      split at hab
      · next heq =>
        cases hab
        exact .inr ⟨rfl,congrArg MemberSlot.lab heq⟩
      · exact .inl (sub_iff_member.mpr ⟨name,hab⟩)
    · refine Subrelation.wf ?_ ha
      intro a b hab
      obtain ⟨name,hab⟩ := sub_iff_member.mp hab
      rw [hput,if_neg] at hab
      · exact sub_iff_member.mpr ⟨name,hab⟩
      · intro heq
        exact hk (congrArg MemberSlot.kind heq.symm)
  | @removed s s₁ s' slot es hgone hput _ ih =>
    apply ih
    refine Subrelation.wf ?_ ha
    intro a b hab
    obtain ⟨name,hab⟩ := sub_iff_member.mp hab
    by_cases heq : (⟨b,.subLab,name⟩ : MemberSlot) = slot
    · rw [heq,hgone] at hab
      cases hab
    · rw [hput _ heq] at hab
      exact sub_iff_member.mpr ⟨name,hab⟩

end Adds

/-- The call takes in and puts out what it logs, and replaces nothing. -/
def CallOutcome.Sound (s : FileLabs H) (q : CallOutcome H) : Prop := Adds s q.log q.state

namespace CallOutcome

theorem Sound.andThen {s : FileLabs H} {q : CallOutcome H} {next : FileLabs H → CallOutcome H}
    (h : q.Sound s) (hnext : (next q.state).Sound q.state) : (q.andThen next).Sound s := by
  unfold CallOutcome.andThen
  split
  · exact Adds.append h hnext
  · exact h

theorem Sound.orElse {s : FileLabs H} {q : CallOutcome H} {next : FileLabs H → CallOutcome H}
    (h : q.Sound s) (hnext : (next q.state).Sound q.state) : (q.orElse next).Sound s := by
  unfold CallOutcome.orElse
  split
  · exact h
  · exact Adds.append h hnext

end CallOutcome
namespace FileLabs
open CallOutcome
variable {s s' : FileLabs H} {l : ℕ} {node : LabInner H}

theorem refused_sound (s : FileLabs H) : s.refused.Sound s := Adds.refl s

theorem withLab_sound {f : LabInner H → CallOutcome H}
    (h : ∀ node, s.labs[l]? = some node → (f node).Sound s) : (s.withLab l f).Sound s := by
  unfold withLab
  split
  · exact s.refused_sound
  · next node hl => exact h node hl

/-- One lab is rewritten, and its bridges stay. -/
theorem mapOf_set (hl : s.labs[l]? = some node) (node' : LabInner H) (names : List String) (l' : ℕ)
    (kind : MemberKind) : mapOf ⟨s.labs.set l node',s.bridges,names,s.bridgeNames⟩ l' kind =
      if l' = l then some (match kind with
        | .vm => node'.vms
        | .bridge => s.bridges l
        | .subLab => node'.subLabs)
      else s.mapOf l' kind := by
  have hlt := (List.getElem?_eq_some_iff.mp hl).1
  unfold mapOf
  dsimp only
  by_cases h : l' = l
  · rw [if_pos h,h,List.getElem?_set_self hlt]
    rfl
  · rw [if_neg h,List.getElem?_set_ne (Ne.symm h)]

/-- A member is taken in under a name that its map has not. -/
theorem adds_insert {kind : MemberKind} {m : Table String ℕ} {name : String} {v : ℕ}
    (hm : s.mapOf l kind = some m) (hfree : name ∉ m)
    (hno : kind = .subLab → ¬s.labs.graph.Reach v l)
    (hput : s'.mapOf l kind = some (m.insert name v))
    (hothers : ∀ l' k name, ¬(l' = l ∧ k = kind) → s'.member ⟨l',k,name⟩ = s.member ⟨l',k,name⟩) :
    Adds s [.added ⟨l,kind,name⟩ v] s' := by
  refine .added ?_ hno ?_ (Adds.refl _)
  · rw [member,hm]
    exact AList.lookup_eq_none.mpr hfree
  · rintro ⟨l',k,name'⟩
    by_cases h : l' = l ∧ k = kind
    · obtain ⟨rfl,rfl⟩ := h
      rw [member,hput,Option.bind_some]
      by_cases hn : name' = name
      · rw [hn,AList.lookup_insert,if_pos rfl]
      · rw [AList.lookup_insert_ne hn,if_neg (by simp [hn]),member,hm]
        rfl
    · rw [if_neg (by simpa using fun h₁ h₂ => absurd ⟨h₁,h₂⟩ h),hothers l' k name' h]

/-- A name is put out of its map. -/
theorem adds_erase {kind : MemberKind} {m : Table String ℕ} {name : String}
    (hm : s.mapOf l kind = some m) (hput : s'.mapOf l kind = some (m.erase name))
    (hothers : ∀ l' k name, ¬(l' = l ∧ k = kind) → s'.member ⟨l',k,name⟩ = s.member ⟨l',k,name⟩) :
    Adds s [.removed ⟨l,kind,name⟩] s' := by
  refine .removed ?_ ?_ (Adds.refl _)
  · rw [member,hput]
    exact AList.lookup_erase name m
  · rintro ⟨l',k,name'⟩ hne
    by_cases h : l' = l ∧ k = kind
    · obtain ⟨rfl,rfl⟩ := h
      have hn : name' ≠ name := by
        rintro rfl
        exact hne rfl
      rw [member,hput,Option.bind_some,AList.lookup_erase_ne hn,member,hm]
      rfl
    · exact hothers l' k name' h

/-- The map of one kind is rewritten in one lab. -/
theorem member_set_others (hl : s.labs[l]? = some node) {node' : LabInner H} {names : List String}
    {kind : MemberKind} (hvm : kind ≠ .vm → node'.vms = node.vms)
    (hsub : kind ≠ .subLab → node'.subLabs = node.subLabs) (l' : ℕ) (k : MemberKind) (name : String)
    (h : ¬(l' = l ∧ k = kind)) : member ⟨s.labs.set l node',s.bridges,names,s.bridgeNames⟩ ⟨l',k,name⟩ =
      s.member ⟨l',k,name⟩ := by
  unfold member
  rw [mapOf_set hl]
  by_cases hl' : l' = l
  · subst hl'
    have hk : kind ≠ k := fun hk => h ⟨rfl,hk.symm⟩
    rw [if_pos rfl,mapOf,hl]
    cases k with
    | vm => rw [hvm hk]; rfl
    | bridge => rfl
    | subLab => rw [hsub hk]; rfl
  · rw [if_neg hl']

theorem mapOf_of (hl : s.labs[l]? = some node) (kind : MemberKind) :
    s.mapOf l kind = some (match kind with
      | .vm => node.vms
      | .bridge => s.bridges l
      | .subLab => node.subLabs) := by
  rw [mapOf,hl]
  rfl

theorem insertVm_adds {labs : Labs H} {name : String} {v : ℕ} (names : List String)
    (hl : s.labs[l]? = some node) (h : s.labs.insertVm l node name v = .ok labs) :
    Adds s [.added ⟨l,.vm,name⟩ v] ⟨labs,s.bridges,names,s.bridgeNames⟩ := by
  unfold Labs.insertVm at h
  split at h
  · cases h
  · next hfree =>
    cases h
    refine adds_insert (mapOf_of hl .vm) hfree nofun ?_ ?_
    · rw [mapOf_set hl,if_pos rfl]
    · exact member_set_others hl (fun h => absurd rfl h) fun _ => rfl

theorem takeVm_sound {name : String} {taken : Except LabError (Labs H)}
    (h : ∀ labs, taken = .ok labs → s.labs.insertVm l node name s.vmNames.length = .ok labs)
    (hl : s.labs[l]? = some node) : (s.takeVm l name taken).Sound s := by
  unfold takeVm
  split
  · exact s.refused_sound
  · next labs => exact insertVm_adds _ hl (h labs rfl)

theorem createVm_sound (s : FileLabs H) (l : ℕ) (name : String) (known : Bool) :
    (s.createVm l name known).Sound s := by
  apply withLab_sound
  intro node hl
  split
  · exact takeVm_sound (fun labs h => checked_ok h) hl
  · exact s.refused_sound

theorem restoreVm_sound (s : FileLabs H) (l : ℕ) (name : String) (restored : Bool) :
    (s.restoreVm l name restored).Sound s := by
  apply withLab_sound
  intro node hl
  split
  · exact takeVm_sound (fun labs h => h) hl
  · exact s.refused_sound

theorem includeVm_sound (s : FileLabs H) (l : ℕ) (name : String) (v : ℕ) :
    (s.includeVm l name v).Sound s := by
  apply withLab_sound
  intro node hl
  split
  · exact s.refused_sound
  · next labs h => exact insertVm_adds _ hl (checked_ok h)

theorem member_update_others (l : ℕ) (m : Table String ℕ) (l' : ℕ) (k : MemberKind) (name : String)
    (h : ¬(l' = l ∧ k = .bridge)) :
    member { s with bridges := Function.update s.bridges l m } ⟨l',k,name⟩ = s.member ⟨l',k,name⟩ := by
  unfold member mapOf
  cases k with
  | vm => rfl
  | bridge =>
    have hl' : l' ≠ l := fun hl' => h ⟨hl',rfl⟩
    simp only [Function.update_of_ne hl']
  | subLab => rfl

theorem includeBridge_sound (s : FileLabs H) (l : ℕ) (name : String) (b : ℕ) :
    (s.includeBridge l name b).Sound s := by
  apply withLab_sound
  intro node hl
  split
  · exact s.refused_sound
  · next h =>
    refine adds_insert (mapOf_of hl .bridge) (fun hmem => h (.inr hmem)) nofun ?_ ?_
    · simp [mapOf,insertBridge,hl]
    · exact member_update_others l _

theorem createBridge_sound (s : FileLabs H) (l : ℕ) (name : String) :
    (s.createBridge l name).Sound s := by
  have h := includeBridge_sound { s with bridgeNames := s.bridgeNames++[name] } l name
    s.bridgeNames.length
  refine Adds.congr_left ?_ h
  intro slot
  rfl

/-- The new lab has no members. -/
theorem member_new (s : FileLabs H) (name : String) (pool : Bool) (slot : MemberSlot) :
    member { s with
      labs := s.labs.new name pool
      bridges := Function.update s.bridges s.labs.length ∅ } slot = s.member slot := by
  obtain ⟨l,k,n⟩ := slot
  unfold member mapOf Labs.new
  dsimp only
  obtain h | rfl | h := lt_trichotomy l s.labs.length
  · rw [List.getElem?_append_left h,Function.update_of_ne h.ne]
  · rw [List.getElem?_append_right le_rfl,List.getElem?_eq_none le_rfl,Function.update_self]
    cases k <;> simp
  · rw [List.getElem?_eq_none (by simpa using h),List.getElem?_eq_none h.le]
    rfl

/-- A sub-lab under a name that is free. -/
theorem subLab_sound {name : String} (hfree : s.member ⟨l,.subLab,name⟩ = none) :
    (s.subLab l name).Sound s := by
  apply withLab_sound
  intro node hl
  rw [member,mapOf_of hl] at hfree
  have hset : Adds s [.added ⟨l,.subLab,name⟩ s.labs.length]
      { s with labs := s.labs.set l { node with subLabs := node.subLabs.insert name s.labs.length } } := by
    refine adds_insert (mapOf_of hl .subLab) (AList.lookup_eq_none.mp hfree) ?_ ?_ ?_
    · exact fun _ => not_reach_length hl
    · rw [mapOf_set hl,if_pos rfl]
    · exact member_set_others hl (fun _ => rfl) fun h => absurd rfl h
  have hnew := member_new (H := H)
    { s with labs := s.labs.set l { node with subLabs := node.subLabs.insert name s.labs.length } }
    name false
  simp only [List.length_set] at hnew
  exact hset.append (.same hnew)

theorem subLabChecked_sound {name : String}
    (hfree : checkReservedName name = .ok () → s.member ⟨l,.subLab,name⟩ = none) :
    (s.subLabChecked l name).Sound s := by
  unfold subLabChecked
  split
  · exact s.refused_sound
  · next h => exact subLab_sound (hfree h)

/-- A sub-lab that is taken in does not have the lab below it, unless it is refused for its name. -/
def NotAbove (s : FileLabs H) (l sub : ℕ) : Prop :=
  ∀ node below, s.labs[l]? = some node → s.labs[sub]? = some below →
    below.name ∉ reservedLabNames → below.name ∉ node.subLabs → ¬s.labs.graph.Reach sub l

theorem includeSubLab_sound {sub : ℕ} (hno : s.NotAbove l sub) : (s.includeSubLab l sub).Sound s := by
  apply withLab_sound
  intro node hl
  apply withLab_sound
  intro below hsub
  split
  · exact s.refused_sound
  · next labs h =>
    have hname := checked_allowed h
    have h := checked_ok h
    split at h
    · cases h
    · next hfree =>
      cases h
      refine adds_insert (mapOf_of hl .subLab) hfree ?_ ?_ ?_
      · exact fun _ => hno node below hl hsub hname hfree
      · rw [mapOf_set hl,if_pos rfl]
      · exact member_set_others hl (fun _ => rfl) fun h => absurd rfl h

theorem remove_sound (s : FileLabs H) (slot : MemberSlot) : (s.remove slot).Sound s := by
  obtain ⟨l,k,name⟩ := slot
  apply withLab_sound
  intro node hl
  cases k with
  | vm =>
    refine adds_erase (mapOf_of hl .vm) ?_ ?_
    · exact (mapOf_set hl _ _ _ _).trans (if_pos rfl)
    · exact member_set_others hl (fun h => absurd rfl h) fun _ => rfl
  | bridge =>
    refine adds_erase (mapOf_of hl .bridge) ?_ ?_
    · simp [mapOf,hl]
    · exact member_update_others l _
  | subLab =>
    refine adds_erase (mapOf_of hl .subLab) ?_ ?_
    · exact (mapOf_set hl _ _ _ _).trans (if_pos rfl)
    · exact member_set_others hl (fun _ => rfl) fun h => absurd rfl h

theorem descendOrCreate_sound (s : FileLabs H) (l : ℕ) (path : List String) :
    (s.descendOrCreate l path).1.Sound s := by
  induction path generalizing s l with
  | nil => exact Adds.refl s
  | cons p ps ih =>
    rw [descendOrCreate]
    split
    · next sub _ => exact ih s sub
    · next hfree => exact Adds.append (subLab_sound hfree) (ih _ _)

theorem preflight_sound (s : FileLabs H) (l : ℕ) (entries : List LabSnapshotEntry) :
    (s.preflight l entries).Sound s := by
  induction entries generalizing s with
  | nil => exact Adds.refl s
  | cons e rest ih =>
    have hdescend := s.descendOrCreate_sound l (splitSubLabPath e.vmName).1
    rw [preflight]
    dsimp only
    split
    · exact hdescend
    · exact hdescend.andThen (ih _)

theorem restoreBridges_sound (s : FileLabs H) (l : ℕ) (bridges : List LabSnapshotBridge) :
    (s.restoreBridges l bridges).Sound s := by
  induction bridges generalizing s with
  | nil => exact Adds.refl s
  | cons b rest ih =>
    rw [restoreBridges]
    split
    · exact ih s
    · exact (s.createBridge_sound l b.name).andThen (ih _)

theorem restoreVms_sound (s : FileLabs H) (l : ℕ) (restored : LabSnapshotEntry → Bool)
    (entries : List LabSnapshotEntry) : (s.restoreVms l restored entries).Sound s := by
  induction entries generalizing s with
  | nil => exact Adds.refl s
  | cons e rest ih =>
    have hdescend := s.descendOrCreate_sound l (splitSubLabPath e.vmName).1
    exact (hdescend.append (restoreVm_sound _ _ _ _)).append (ih _)

theorem labRestore_sound (s : FileLabs H) (l : ℕ) (input : RestoreInput) :
    (s.labRestore l input).Sound s := by
  apply Sound.andThen
  · apply Sound.andThen
    · exact (s.preflight_sound l _).andThen (restoreBridges_sound _ _ _)
    · exact restoreVms_sound _ _ _ _
  · exact Adds.refl _

theorem restoreIntoLab_sound (s : FileLabs H) (l : ℕ) (fixture : String) (restored : Bool) :
    (s.restoreIntoLab l fixture restored).Sound s :=
  withLab_sound fun _ _ => restoreVm_sound _ _ _ _

theorem vmFixture_sound (s : FileLabs H) (l : ℕ) (fixture : String) (cached built : Option Bool) :
    (s.vmFixture l fixture cached built).Sound s := by
  have hlast : ∀ s : FileLabs H, CallOutcome.Sound s
      (built.elim s.refused fun restored => s.restoreIntoLab l fixture restored) := by
    intro s
    cases built with
    | none => exact s.refused_sound
    | some restored => exact s.restoreIntoLab_sound l fixture restored
  cases cached with
  | none => exact hlast s
  | some restored => exact (s.restoreIntoLab_sound l fixture restored).orElse (hlast _)

theorem restoreLabFromDir_sound {fixture : String} {pid : ℕ}
    (hfree : s.member ⟨l,.subLab,fixture++"-"++toString pid⟩ = none) (input : RestoreInput) :
    (s.restoreLabFromDir l fixture pid input).Sound s :=
  (subLab_sound hfree).andThen (labRestore_sound _ _ _)

/-- Where the fixture is restored at most once. -/
theorem labFixture_sound {fixture : String} {pid : ℕ} {cached : Option (Option RestoreInput)}
    {relocked built : Option RestoreInput}
    (hfree : s.member ⟨l,.subLab,fixture++"-"++toString pid⟩ = none)
    (honce : ([cached.join,relocked,built].filter Option.isSome).length ≤ 1) :
    (s.labFixture l fixture pid cached relocked built).Sound s := by
  have hone : ∀ entry : Option RestoreInput, CallOutcome.Sound s
      (entry.elim s.refused fun input => s.restoreLabFromDir l fixture pid input) := by
    intro entry
    cases entry with
    | none => exact s.refused_sound
    | some input => exact restoreLabFromDir_sound hfree input
  have hnone : ∀ s : FileLabs H, CallOutcome.Sound s s.refused := refused_sound
  cases cached with
  | none => exact hone built
  | some entry =>
    simp only [labFixture]
    cases entry with
    | some input =>
      obtain ⟨rfl,rfl⟩ : relocked = none ∧ built = none := by
        cases relocked <;> cases built <;> simp at honce ⊢
      exact ((hone (some input)).orElse (hnone _)).orElse (hnone _)
    | none =>
      cases relocked with
      | some input =>
        obtain rfl : built = none := by
          cases built <;> simp at honce ⊢
        refine ((hone none).orElse ?_).orElse ?_
        · exact hone (some input)
        · exact hnone _
      | none =>
        refine ((hone none).orElse ?_).orElse ?_
        · exact hone none
        · exact hone built

/-- A call that makes a sub-lab makes it under a name that is free, a fixture is restored at most once by
it, and no lab is taken into itself or into a lab below it. -/
def Fresh (s : FileLabs H) : LabCall → Prop
  | .subLab l name => checkReservedName (s.chosenName l name) = .ok () →
      s.member ⟨l,.subLab,s.chosenName l name⟩ = none
  | .labFixture l fixture pid cached relocked built =>
    s.member ⟨l,.subLab,fixture++"-"++toString pid⟩ = none ∧
      ([cached.join,relocked,built].filter Option.isSome).length ≤ 1
  | .includeSubLab l sub => s.NotAbove l sub
  | _ => True

theorem call_sound {a : LabCall} (ha : s.Fresh a) : (s.call a).Sound s := by
  cases a with
  | createVm l name known => exact s.createVm_sound l name known
  | restoreVm l name restored => exact s.restoreVm_sound l name restored
  | createBridge l name => exact s.createBridge_sound l name
  | subLab l name => exact subLabChecked_sound ha
  | includeVm l v =>
    rw [call]
    cases s.vmNames[v]? with
    | none => exact s.refused_sound
    | some name => exact s.includeVm_sound l name v
  | includeBridge l b =>
    rw [call]
    cases s.bridgeNames[b]? with
    | none => exact s.refused_sound
    | some name => exact s.includeBridge_sound l name b
  | includeSubLab l sub => exact includeSubLab_sound ha
  | remove slot => exact s.remove_sound slot
  | vmFixture l fixture cached built => exact s.vmFixture_sound l fixture cached built
  | labFixture l fixture pid cached relocked built => exact labFixture_sound ha.1 ha.2
  | labRestore l input => exact s.labRestore_sound l input

end FileLabs

/-- The lab is below the other by sub-labs that stand. -/
def StandingBelow (h : List MemberEvent) : ℕ → ℕ → Prop :=
  Relation.ReflTransGen fun l sub => ∃ name, Standing h ⟨l,.subLab,name⟩ sub

/-- What stands below the root lab is reached from it: the sub-labs, their members, and the VMs by the
walk that a shutdown takes, which ends. -/
structure NothingLost (h : List MemberEvent) (s : FileLabs H) : Prop where
  labs : ∀ l, StandingBelow h 0 l → s.labs.graph.Reach 0 l
  members : ∀ slot v, StandingBelow h 0 slot.lab → Standing h slot v → s.member slot = some v
  shutdown : ∃ fuel out, s.labs.graph.visit^[fuel] ([0],[]) = ([],out) ∧
    ∀ l name v, StandingBelow h 0 l → Standing h ⟨l,.vm,name⟩ v → v ∈ out

/-- What is to be found is in the list when the walk has ended. -/
theorem visits_find {G : Nesting ℕ ℕ} {v : ℕ} (fuel : ℕ) {p q : List ℕ × List ℕ}
    (h : v ∈ p.2 ∨ G.Within p.1 v) (hvisit : G.visit^[fuel] p = q) : v ∈ q.2 ∨ G.Within q.1 v := by
  induction fuel generalizing p with
  | zero =>
    subst hvisit
    exact h
  | succ fuel ih => exact ih (Nesting.Within.visit h) hvisit

theorem InPlace.nothingLost {h : List MemberEvent} {s : FileLabs H} (hk : InPlace h s)
    (ha : Acyclic s.labs) : NothingLost h s := by
  have hlabs : ∀ l, StandingBelow h 0 l → s.labs.graph.Reach 0 l := by
    intro l hl
    refine hl.lift id ?_
    rintro a b ⟨name,hs⟩
    exact sub_iff_member.mpr ⟨name,hk _ _ hs⟩
  obtain ⟨fuel,out,hwalk⟩ := Nesting.visit_ends ha [0] []
  refine ⟨hlabs,fun slot v _ hs => hk slot v hs,fuel,out,hwalk,?_⟩
  intro l name v hl hs
  have hwithin : s.labs.graph.Within [0] v :=
    ⟨0,List.mem_singleton_self 0,l,hlabs l hl,items_of_member (hk _ _ hs)⟩
  obtain hv | hv := visits_find fuel (p := ([0],[])) (.inr hwithin) hwalk
  · exact hv
  · exact absurd hv Nesting.not_within_nil

/-- In a run whose calls make sub-labs under free names only and take no lab into itself or into a lab
below it, nothing that has been taken in and not put out is lost. -/
theorem nothing_lost {calls : List LabCall} {logs : List (List MemberEvent)} {s : FileLabs H}
    (hfresh : (FileLabs.machine H).Obeys FileLabs.Fresh .start calls)
    (hrun : (FileLabs.machine H).run .start calls = some (s,logs)) : NothingLost logs.flatten s := by
  have hstart : InPlace ([] : List (List MemberEvent)).flatten (FileLabs.start : FileLabs H) :=
    fun slot v hs => absurd hs not_standing_nil
  have hkept := @Machine.run_history_obeys _ _ _ (FileLabs.machine H)
    (fun _ seen s => InPlace seen.flatten s ∧ Acyclic s.labs) FileLabs.Fresh (by
      rintro _ seen s a s' o ⟨hk,hacyclic⟩ ha hs
      cases hs
      have hsound := FileLabs.call_sound ha
      rw [List.flatten_append,List.flatten_singleton]
      exact ⟨Adds.kept hsound hk,Adds.acyclic hsound hacyclic⟩)
    [] calls [] logs .start s ⟨hstart,acyclic_new _ _⟩ hfresh hrun
  exact hkept.1.nothingLost hkept.2

/-- A sub-lab with a VM, which another sub-lab takes in too. -/
theorem nothing_lost_example : NothingLost
    [[MemberEvent.added ⟨0,.subLab,"a"⟩ 1],[.added ⟨1,.vm,"db"⟩ 0],[.added ⟨0,.subLab,"b"⟩ 2],
      [.added ⟨2,.subLab,"a"⟩ 1]].flatten
    (((((FileLabs.start : FileLabs Unit).call (.subLab 0 (some "a"))).state.call
      (.createVm 1 "db" true)).state.call (.subLab 0 (some "b"))).state.call (.includeSubLab 2 1)).state := by
  have hobeys : (FileLabs.machine Unit).Obeys FileLabs.Fresh .start [.subLab 0 (some "a"),
      .createVm 1 "db" true,.subLab 0 (some "b"),.includeSubLab 2 1] := by
    refine .cons _ rfl (fun _ => by decide) (.cons _ rfl trivial (.cons _ rfl (fun _ => by decide)
      (.cons _ rfl ?_ trivial)))
    intro node below _ _ _ _ hreach
    obtain heq | ⟨c,hc,-⟩ := Relation.ReflTransGen.cases_head hreach
    · cases heq
    · cases hc
  exact @nothing_lost Unit _ _ _ hobeys rfl

/-- Two sub-labs without a name, the first of which is removed; the third takes the place of the second. -/
def thirdAutoLab : List LabCall :=
  [.subLab 0 none,.subLab 0 none,.createVm 2 "db" true,.remove ⟨0,.subLab,"__lab_0"⟩,.subLab 0 none]

def thirdAutoLogs : List (List MemberEvent) :=
  [[.added ⟨0,.subLab,"__lab_0"⟩ 1],[.added ⟨0,.subLab,"__lab_1"⟩ 2],[.added ⟨2,.vm,"db"⟩ 0],
    [.removed ⟨0,.subLab,"__lab_0"⟩],[.added ⟨0,.subLab,"__lab_1"⟩ 3]]

theorem thirdAutoLab_loses_vm : ∃ s, (FileLabs.machine Unit).run .start thirdAutoLab =
      some (s,thirdAutoLogs) ∧ StandingBelow thirdAutoLogs.flatten 0 2 ∧
      Standing thirdAutoLogs.flatten ⟨2,.vm,"db"⟩ 0 ∧
      s.labs.graph.visit^[2] ([0],[]) = ([],[]) ∧ ¬NothingLost thirdAutoLogs.flatten s := by
  have hbelow : StandingBelow thirdAutoLogs.flatten 0 2 := by
    refine .single ⟨"__lab_1",thirdAutoLogs.flatten.take 1,thirdAutoLogs.flatten.drop 2,rfl,?_⟩
    decide
  have hvm : Standing thirdAutoLogs.flatten ⟨2,.vm,"db"⟩ 0 := by
    refine ⟨thirdAutoLogs.flatten.take 2,thirdAutoLogs.flatten.drop 3,rfl,?_⟩
    decide
  refine ⟨_,rfl,hbelow,hvm,by decide,?_⟩
  intro h
  obtain ⟨fuel,out,hwalk,hfound⟩ := h.shutdown
  have hout := hfound 2 "db" 0 hbelow hvm
  have hempty : out = [] := Nesting.visit_end_unique (m := 2) hwalk (by decide)
  rw [hempty] at hout
  cases hout

end Provium.Lab
