import Provium.Lib.Forest
import Provium.Lab.Calls

/-! The walks down a lab. `gather_into` copies the members under the lab's lock and goes on without it;
`open_stream_total` goes on with the lock held, so that it blocks on a lab that is above. No call looks
at what is above a lab or at what it takes in. -/
namespace Provium.Lab
open Lib Nesting
variable {H : Type}

namespace FileLabs

/-- `collect_all_vms`: the walk of `gather_into`, where the fuel is enough for it. -/
def collectAllVms (s : FileLabs H) (fuel l : ℕ) : Option (List ℕ) :=
  match s.labs.graph.visit^[fuel] ([l],[]) with
  | ([],members) => some members
  | (_::_,_) => none

/-- The sum over the VMs, the bridges and the sub-labs, with the locks that are held: none where the fuel
is not enough or a lock is waited for that is held already. -/
def openStreamTotal (s : FileLabs H) (streams captures : ℕ → ℕ) : ℕ → List ℕ → ℕ → Option ℕ
  | 0,_,_ => none
  | fuel+1,held,l =>
    if l ∈ held then none
    else (s.labs[l]?).bind fun node =>
      (node.subLabs.values.mapM (s.openStreamTotal streams captures fuel (l::held))).map fun fromSubs =>
        (node.vms.values.map streams).sum+((s.bridges l).values.map captures).sum+fromSubs.sum

/-- Both walks of the lab end; the first lists each of its VMs once, the second counts just these. -/
def WalksOnce (s : FileLabs H) (l : ℕ) : Prop :=
  ∃ out : List ℕ, out.Nodup ∧ (∀ v, v ∈ out ↔ s.labs.graph.Holds l v) ∧
    (∃ fuel, s.collectAllVms fuel l = some out) ∧
    ∃ bridges : List ℕ, ∀ streams captures, ∃ fuel, s.openStreamTotal streams captures fuel [] l =
      some ((out.map streams).sum+(bridges.map captures).sum)

/-- A lab or a VM that is taken in is new to every lab above the place, unless it is refused for its
name: nothing that is below a lab that is taken in is there already. -/
def Unshared (s : FileLabs H) : LabCall → Prop
  | .includeVm l v => ∀ node name, s.labs[l]? = some node → s.vmNames[v]? = some name →
    name ∉ reservedLabNames → name ∉ node.vms → ∀ a, s.labs.graph.Reach a l → ¬s.labs.graph.Holds a v
  | .includeSubLab l sub => ∀ node below, s.labs[l]? = some node → s.labs[sub]? = some below →
    below.name ∉ reservedLabNames → below.name ∉ node.subLabs →
    (∀ a b, s.labs.graph.Reach a l → s.labs.graph.Reach a b → ¬s.labs.graph.Reach sub b) ∧
      ∀ a v, s.labs.graph.Reach a l → s.labs.graph.Holds a v → ¬s.labs.graph.Holds sub v
  | _ => True

/-- The labs form a forest of labs and VMs that have been made. -/
structure Wooded (s : FileLabs H) : Prop where
  forest : s.labs.graph.Forest
  labs : ∀ a b, s.labs.graph.Sub b a → b < s.labs.length
  vms : ∀ a v, v ∈ s.labs.graph.items a → v < s.vmNames.length

section Walks
variable {s : FileLabs H} {l : ℕ} {node : LabInner H}

/-- The bridges that the labs have. -/
def bridgeGraph (s : FileLabs H) : Nesting ℕ ℕ := ⟨s.labs.graph.below,fun l => (s.bridges l).values⟩

/-- Children that are all counted with fuel enough are counted with the same fuel. -/
theorem mapM_enough {f : ℕ → ℕ → Option ℕ} {g : ℕ → ℕ} {cs : List ℕ}
    (h : ∀ c ∈ cs, ∃ n, ∀ fuel, n ≤ fuel → f fuel c = some (g c)) :
    ∃ n, ∀ fuel, n ≤ fuel → cs.mapM (f fuel) = some (cs.map g) := by
  induction cs with
  | nil => exact ⟨0,fun _ _ => rfl⟩
  | cons c cs ih =>
    obtain ⟨n,hn⟩ := h c List.mem_cons_self
    obtain ⟨m,hm⟩ := ih fun d hd => h d (List.mem_cons_of_mem _ hd)
    refine ⟨max n m,?_⟩
    intro fuel hfuel
    rw [List.mapM_cons,hn fuel ((le_max_left n m).trans hfuel),hm fuel ((le_max_right n m).trans hfuel)]
    rfl

/-- A sum over a walk is that over its parts. -/
theorem sum_gathered {G : Nesting ℕ ℕ} (hG : WellFounded G.Sub) (f : ℕ → ℕ) (a : ℕ) :
    ((gathered hG a).map f).sum =
      ((G.items a).map f).sum+((G.below a).map fun b => ((gathered hG b).map f).sum).sum := by
  rw [gathered_eq,List.map_append,List.sum_append,List.map_flatMap]
  congr 1
  induction G.below a with
  | nil => rfl
  | cons b bs ih => rw [List.flatMap_cons,List.sum_append,ih,List.map_cons,List.sum_cons]

/-- No lock is waited for that is held, where no lab is below itself. -/
theorem Wooded.openStreamTotal (h : s.Wooded) (streams captures : ℕ → ℕ) (hl : l < s.labs.length)
    (held : List ℕ) (hheld : ∀ b, s.labs.graph.Reach l b → b ∉ held) : ∃ n, ∀ fuel, n ≤ fuel →
      s.openStreamTotal streams captures fuel held l = some (((gathered h.forest.ends l).map streams).sum+
        ((gathered (G := s.bridgeGraph) h.forest.ends l).map captures).sum) := by
  induction l using h.forest.ends.induction generalizing held with
  | _ l ih =>
    have hnode : s.labs[l]? = some s.labs[l] := List.getElem?_eq_getElem hl
    have hbelow : s.labs.graph.below l = s.labs[l].subLabs.values := graph_below_of hnode
    have hitems : s.labs.graph.items l = s.labs[l].vms.values := graph_items_of hnode
    have hsubs : ∀ c ∈ s.labs[l].subLabs.values, ∃ n, ∀ fuel, n ≤ fuel →
        s.openStreamTotal streams captures fuel (l::held) c =
          some (((gathered h.forest.ends c).map streams).sum+
            ((gathered (G := s.bridgeGraph) h.forest.ends c).map captures).sum) := by
      intro c hc
      rw [← hbelow] at hc
      apply ih c hc (h.labs l c hc)
      intro b hb hmem
      obtain rfl | hmem := List.mem_cons.mp hmem
      · exact not_reach_of_sub h.forest.ends hc hb
      · exact hheld b (hb.head hc) hmem
    obtain ⟨n,hn⟩ := mapM_enough hsubs
    refine ⟨n+1,?_⟩
    intro fuel hfuel
    obtain ⟨fuel,rfl⟩ := Nat.exists_eq_succ_of_ne_zero (Nat.ne_of_gt (Nat.lt_of_lt_of_le n.succ_pos hfuel))
    rw [FileLabs.openStreamTotal,if_neg (hheld l .refl),hnode,Option.bind_some,
      hn fuel (Nat.succ_le_succ_iff.mp hfuel),Option.map_some,Option.some_inj,List.sum_map_add]
    have hvms := sum_gathered h.forest.ends streams l
    have hbridges := sum_gathered (G := s.bridgeGraph) h.forest.ends captures l
    have hbelow' : s.bridgeGraph.below l = s.labs[l].subLabs.values := hbelow
    rw [hitems,hbelow] at hvms
    have hitems' : s.bridgeGraph.items l = (s.bridges l).values := rfl
    rw [hbelow',hitems'] at hbridges
    rw [hvms,hbridges]
    omega

theorem Wooded.walksOnce (h : s.Wooded) (hl : l < s.labs.length) : s.WalksOnce l := by
  refine ⟨gathered h.forest.ends l,h.forest.nodup_gathered l,fun v => mem_gathered h.forest.ends,?_,
    gathered (G := s.bridgeGraph) h.forest.ends l,?_⟩
  · obtain ⟨n,hn⟩ := visit_gathered h.forest.ends l [] []
    refine ⟨n,?_⟩
    rw [collectAllVms,hn]
    rfl
  · intro streams captures
    obtain ⟨n,hn⟩ := h.openStreamTotal streams captures hl [] fun _ _ => List.not_mem_nil
    exact ⟨n,hn n le_rfl⟩

end Walks

section Wooded
variable {s s' : FileLabs H} {labs : Labs H} {l : ℕ} {node : LabInner H}

/-- A lab with members less. -/
theorem Wooded.less (h : s.Wooded) (hl : s.labs[l]? = some node) (node' : LabInner H)
    (hsubs : node'.subLabs.values.Sublist node.subLabs.values)
    (hvms : node'.vms.values.Sublist node.vms.values) : Wooded { s with labs := s.labs.set l node' } := by
  have hbelow : ∀ a, ((Labs.graph (s.labs.set l node')).below a).Sublist (s.labs.graph.below a) := by
    intro a
    rw [graph_set_below hl]
    split
    · next ha =>
      rw [ha,graph_below_of hl]
      exact hsubs
    · exact .refl _
  have hitems : ∀ a, ((Labs.graph (s.labs.set l node')).items a).Sublist (s.labs.graph.items a) := by
    intro a
    rw [graph_set_items hl]
    split
    · next ha =>
      rw [ha,graph_items_of hl]
      exact hvms
    · exact .refl _
  refine ⟨h.forest.mono hbelow hitems,?_,?_⟩
  · intro a b hb
    rw [List.length_set]
    exact h.labs a b ((hbelow a).subset hb)
  · intro a v hv
    exact h.vms a v ((hitems a).subset hv)

/-- A VM is taken in that no lab above has. -/
theorem Wooded.insertVm (h : s.Wooded) (hl : s.labs[l]? = some node) {name : String} {v : ℕ}
    {names : List String} (hnames : s.vmNames.length ≤ names.length) (hv : v < names.length)
    (hno : ∀ a, s.labs.graph.Reach a l → ¬s.labs.graph.Holds a v)
    (hput : s.labs.insertVm l node name v = .ok labs) : Wooded { s with labs, vmNames := names } := by
  unfold Labs.insertVm at hput
  split at hput
  · cases hput
  · next hn =>
    cases hput
    have hbelow : (Labs.graph (s.labs.set l { node with vms := node.vms.insert name v })).below =
        s.labs.graph.below := by
      funext a
      rw [graph_set_below hl]
      split
      · next ha => rw [ha,graph_below_of hl]
      · rfl
    have hself : (Labs.graph (s.labs.set l { node with vms := node.vms.insert name v })).items l =
        v::s.labs.graph.items l := by
      rw [graph_set_items hl,if_pos rfl,graph_items_of hl]
      exact Table.values_insert_new hn v
    have hothers : ∀ a, a ≠ l → (Labs.graph (s.labs.set l { node with vms := node.vms.insert name v })).items a =
        s.labs.graph.items a := by
      intro a ha
      rw [graph_set_items hl,if_neg ha]
    refine ⟨h.forest.add_item hbelow hself hothers hno,?_,?_⟩
    · intro a b hb
      rw [Nesting.Sub,hbelow] at hb
      rw [List.length_set]
      exact h.labs a b hb
    · intro a w hw
      by_cases ha : a = l
      · rw [ha,hself] at hw
        obtain rfl | hw := List.mem_cons.mp hw
        · exact hv
        · exact (h.vms l w hw).trans_le hnames
      · rw [hothers a ha] at hw
        exact (h.vms a w hw).trans_le hnames

/-- A lab is taken in with nothing in it that a lab above has. -/
theorem Wooded.insertSub (h : s.Wooded) (hl : s.labs[l]? = some node) {name : String} (sub : ℕ)
    (hn : name ∉ node.subLabs)
    (hno : ∀ a b, s.labs.graph.Reach a l → s.labs.graph.Reach a b → ¬s.labs.graph.Reach sub b)
    (hlisted : ∀ a v, s.labs.graph.Reach a l → s.labs.graph.Holds a v → ¬s.labs.graph.Holds sub v) :
    (Labs.graph (s.labs.set l { node with subLabs := node.subLabs.insert name sub })).Forest ∧
      ∀ a b, (Labs.graph (s.labs.set l { node with subLabs := node.subLabs.insert name sub })).Sub b a →
        b < s.labs.length ∨ b = sub := by
  have hself : (Labs.graph (s.labs.set l { node with subLabs := node.subLabs.insert name sub })).below l =
      sub::s.labs.graph.below l := by
    rw [graph_set_below hl,if_pos rfl,graph_below_of hl]
    exact Table.values_insert_new hn sub
  have hothers : ∀ a, a ≠ l →
      (Labs.graph (s.labs.set l { node with subLabs := node.subLabs.insert name sub })).below a =
        s.labs.graph.below a := by
    intro a ha
    rw [graph_set_below hl,if_neg ha]
  have hitems : (Labs.graph (s.labs.set l { node with subLabs := node.subLabs.insert name sub })).items =
      s.labs.graph.items := by
    funext a
    rw [graph_set_items hl]
    split
    · next ha => rw [ha,graph_items_of hl]
    · rfl
  refine ⟨h.forest.add_sub hself hothers hitems hno hlisted,?_⟩
  intro a b hb
  by_cases ha : a = l
  · rw [Nesting.Sub,ha,hself] at hb
    obtain rfl | hb := List.mem_cons.mp hb
    · exact .inr rfl
    · exact .inl (h.labs l b hb)
  · rw [Nesting.Sub,hothers a ha] at hb
    exact .inl (h.labs a b hb)

theorem graph_new (labs : Labs H) (name : String) (pool : Bool) : (labs.new name pool).graph = labs.graph := by
  have hget : ∀ a : ℕ, (labs.new name pool)[a]? = labs[a]? ∨
      labs[a]? = none ∧ (labs.new name pool)[a]? = some (⟨name,pool,∅,∅,[]⟩ : LabInner H) := by
    intro a
    unfold Labs.new
    obtain ha | rfl | ha := lt_trichotomy a labs.length
    · exact .inl (List.getElem?_append_left ha)
    · exact .inr ⟨List.getElem?_eq_none le_rfl,List.getElem?_concat_length⟩
    · left
      rw [List.getElem?_eq_none ha.le,List.getElem?_eq_none (by simpa using ha)]
  apply Nesting.ext
  · funext a
    obtain ha | ⟨ha,ha'⟩ := hget a
    · simp [Labs.graph,ha]
    · simp [Labs.graph,ha,ha',Table.values]
  · funext a
    obtain ha | ⟨ha,ha'⟩ := hget a
    · simp [Labs.graph,ha]
    · simp [Labs.graph,ha,ha',Table.values]

/-- Nothing is above or below the number of the next lab. -/
theorem Wooded.fresh_lab (h : s.Wooded) :
    (∀ a, s.labs.graph.Reach a s.labs.length → a = s.labs.length) ∧
      ∀ b, s.labs.graph.Reach s.labs.length b → b = s.labs.length := by
  constructor
  · intro a hr
    obtain heq | ⟨c,-,hc⟩ := Relation.ReflTransGen.cases_tail hr
    · exact heq.symm
    · exact absurd (h.labs _ _ hc) (Nat.lt_irrefl _)
  · intro b hr
    obtain heq | ⟨c,hc,-⟩ := Relation.ReflTransGen.cases_head hr
    · exact heq.symm
    · simp [Nesting.Sub,Labs.graph] at hc

/-- `sub_lab`, also where it takes the place of another. -/
theorem Wooded.subLab (h : s.Wooded) (l : ℕ) (name : String) : (s.subLab l name).state.Wooded := by
  unfold FileLabs.subLab withLab
  split
  · exact h
  · next node hl =>
    have hlt := (List.getElem?_eq_some_iff.mp hl).1
    -- what has the name goes first
    have hless := h.less hl { node with subLabs := node.subLabs.erase name }
      (Table.values_erase_sublist _ _) (.refl _)
    obtain ⟨habove,hbelow⟩ := hless.fresh_lab
    simp only [List.length_set] at habove hbelow
    obtain ⟨hforest,hlabs⟩ := hless.insertSub (List.getElem?_set_self hlt) s.labs.length
      (fun hmem => (AList.mem_erase.mp hmem).1 rfl) (by
        intro a b hal hab hb
        rw [hbelow b hb] at hab
        rw [habove a hab] at hal
        exact hlt.ne (hbelow l hal)) (by
        rintro a v - - ⟨b,hb,hv⟩
        rw [hbelow b hb] at hv
        simp [Labs.graph] at hv)
    have hset : (s.labs.set l { node with subLabs := node.subLabs.erase name }).set l
        { node with subLabs := (node.subLabs.erase name).insert name s.labs.length } =
        s.labs.set l { node with subLabs := node.subLabs.insert name s.labs.length } := by
      rw [List.set_set,Table.insert_erase]
    rw [hset] at hforest hlabs
    refine ⟨?_,?_,?_⟩
    · rw [graph_new]
      exact hforest
    · intro a b hb
      rw [graph_new] at hb
      simp only [Labs.new,List.length_append,List.length_set,List.length_singleton]
      obtain hb | rfl := hlabs a b hb
      · rw [List.length_set] at hb
        omega
      · omega
    · intro a v hv
      rw [graph_new,graph_set_items hl] at hv
      apply h.vms a
      split at hv
      · next ha => rwa [ha,graph_items_of hl]
      · exact hv

/-- What has not been made is in no lab. -/
theorem Wooded.fresh_vm (h : s.Wooded) (a : ℕ) : ¬s.labs.graph.Holds a s.vmNames.length := by
  rintro ⟨b,-,hb⟩
  exact Nat.lt_irrefl _ (h.vms b _ hb)

theorem Wooded.withLab (h : s.Wooded) {f : LabInner H → CallOutcome H}
    (hf : ∀ node, s.labs[l]? = some node → (f node).state.Wooded) : (s.withLab l f).state.Wooded := by
  unfold FileLabs.withLab
  split
  · exact h
  · next node hl => exact hf node hl

theorem Wooded.andThen {q : CallOutcome H} {next : FileLabs H → CallOutcome H} (h : q.state.Wooded)
    (hnext : q.state.Wooded → (next q.state).state.Wooded) : (q.andThen next).state.Wooded := by
  unfold CallOutcome.andThen
  split
  · exact hnext h
  · exact h

theorem Wooded.orElse {q : CallOutcome H} {next : FileLabs H → CallOutcome H} (h : q.state.Wooded)
    (hnext : q.state.Wooded → (next q.state).state.Wooded) : (q.orElse next).state.Wooded := by
  unfold CallOutcome.orElse
  split
  · exact h
  · exact hnext h

theorem Wooded.takeVm (h : s.Wooded) (hl : s.labs[l]? = some node) {name : String}
    {taken : Except LabError (Labs H)}
    (ht : ∀ labs, taken = .ok labs → s.labs.insertVm l node name s.vmNames.length = .ok labs) :
    (s.takeVm l name taken).state.Wooded := by
  unfold FileLabs.takeVm
  split
  · exact h
  · next labs =>
    refine h.insertVm hl ?_ ?_ (fun a _ => h.fresh_vm a) (ht labs rfl)
    · simp
    · simp

theorem Wooded.restoreVm (h : s.Wooded) (l : ℕ) (name : String) (restored : Bool) :
    (s.restoreVm l name restored).state.Wooded := by
  refine h.withLab fun node hl => ?_
  split
  · exact h.takeVm hl fun _ ht => ht
  · exact h

theorem Wooded.bridges (h : s.Wooded) (bridges : ℕ → Table String ℕ) (names : List String) :
    Wooded { s with bridges, bridgeNames := names } := ⟨h.forest,h.labs,h.vms⟩

theorem Wooded.includeBridge (h : s.Wooded) (l : ℕ) (name : String) (b : ℕ) :
    (s.includeBridge l name b).state.Wooded := by
  refine h.withLab fun node hl => ?_
  split
  · exact h
  · exact h.bridges _ _

theorem Wooded.createBridge (h : s.Wooded) (l : ℕ) (name : String) : (s.createBridge l name).state.Wooded :=
  (h.bridges s.bridges (s.bridgeNames++[name])).includeBridge l name _

theorem Wooded.remove (h : s.Wooded) (slot : MemberSlot) : (s.remove slot).state.Wooded := by
  refine h.withLab fun node hl => ?_
  obtain ⟨l,kind,name⟩ := slot
  cases kind with
  | vm => exact h.less hl _ (.refl _) (Table.values_erase_sublist _ _)
  | bridge => exact h.bridges _ _
  | subLab => exact h.less hl _ (Table.values_erase_sublist _ _) (.refl _)

theorem Wooded.descendOrCreate (h : s.Wooded) (l : ℕ) (path : List String) :
    (s.descendOrCreate l path).1.state.Wooded := by
  induction path generalizing s l with
  | nil => exact h
  | cons p ps ih =>
    rw [FileLabs.descendOrCreate]
    split
    · exact ih h _
    · exact ih (h.subLab l p) _

theorem Wooded.preflight (h : s.Wooded) (l : ℕ) (entries : List LabSnapshotEntry) :
    (s.preflight l entries).state.Wooded := by
  induction entries generalizing s with
  | nil => exact h
  | cons e rest ih =>
    have hdescend := h.descendOrCreate l (splitSubLabPath e.vmName).1
    rw [FileLabs.preflight]
    dsimp only
    split
    · exact hdescend
    · exact hdescend.andThen ih

theorem Wooded.restoreBridges (h : s.Wooded) (l : ℕ) (bridges : List LabSnapshotBridge) :
    (s.restoreBridges l bridges).state.Wooded := by
  induction bridges generalizing s with
  | nil => exact h
  | cons b rest ih =>
    rw [FileLabs.restoreBridges]
    split
    · exact ih h
    · exact (h.createBridge l b.name).andThen ih

theorem Wooded.restoreVms (h : s.Wooded) (l : ℕ) (restored : LabSnapshotEntry → Bool)
    (entries : List LabSnapshotEntry) : (s.restoreVms l restored entries).state.Wooded := by
  induction entries generalizing s with
  | nil => exact h
  | cons e rest ih => exact ih ((h.descendOrCreate l _).restoreVm _ _ _)

theorem Wooded.labRestore (h : s.Wooded) (l : ℕ) (input : RestoreInput) :
    (s.labRestore l input).state.Wooded := by
  apply Wooded.andThen
  · apply Wooded.andThen
    · exact (h.preflight l _).andThen fun h => h.restoreBridges l _
    · exact fun h => h.restoreVms l _ _
  · exact id

theorem Wooded.restoreIntoLab (h : s.Wooded) (l : ℕ) (fixture : String) (restored : Bool) :
    (s.restoreIntoLab l fixture restored).state.Wooded := h.withLab fun _ _ => h.restoreVm _ _ _

theorem Wooded.vmFixture (h : s.Wooded) (l : ℕ) (fixture : String) (cached built : Option Bool) :
    (s.vmFixture l fixture cached built).state.Wooded := by
  have hlast : ∀ {s : FileLabs H}, s.Wooded →
      (built.elim s.refused fun restored => s.restoreIntoLab l fixture restored).state.Wooded := by
    intro s h
    cases built with
    | none => exact h
    | some restored => exact h.restoreIntoLab l fixture restored
  cases cached with
  | none => exact hlast h
  | some restored => exact (h.restoreIntoLab l fixture restored).orElse hlast

theorem Wooded.restoreLabFromDir (h : s.Wooded) (l : ℕ) (fixture : String) (pid : ℕ) (input : RestoreInput) :
    (s.restoreLabFromDir l fixture pid input).state.Wooded :=
  (h.subLab l _).andThen fun h => h.labRestore _ input

theorem Wooded.labFixture (h : s.Wooded) (l : ℕ) (fixture : String) (pid : ℕ)
    (cached : Option (Option RestoreInput)) (relocked built : Option RestoreInput) :
    (s.labFixture l fixture pid cached relocked built).state.Wooded := by
  have hone : ∀ (entry : Option RestoreInput) {s : FileLabs H}, s.Wooded →
      (entry.elim s.refused fun input => s.restoreLabFromDir l fixture pid input).state.Wooded := by
    intro entry s h
    cases entry with
    | none => exact h
    | some input => exact h.restoreLabFromDir l fixture pid input
  cases cached with
  | none => exact hone built h
  | some entry => exact ((hone entry h).orElse (hone relocked)).orElse (hone built)

theorem Wooded.includeVm (h : s.Wooded) {l v : ℕ} (hok : s.Unshared (.includeVm l v)) {name : String}
    (hv : s.vmNames[v]? = some name) : (s.includeVm l name v).state.Wooded := by
  refine h.withLab fun node hl => ?_
  split
  · exact h
  · next labs hput =>
    have hput' := checked_ok hput
    refine h.insertVm hl le_rfl (List.getElem?_eq_some_iff.mp hv).1 ?_ hput'
    apply hok node name hl hv (checked_allowed hput)
    intro hmem
    rw [Labs.insertVm,if_pos hmem] at hput'
    cases hput'

theorem Wooded.includeSubLab (h : s.Wooded) {l sub : ℕ} (hok : s.Unshared (.includeSubLab l sub)) :
    (s.includeSubLab l sub).state.Wooded := by
  refine h.withLab fun node hl => h.withLab fun below hsub => ?_
  split
  · exact h
  · next labs hput =>
    have hput' := checked_ok hput
    split at hput'
    · cases hput'
    · next hn =>
      cases hput'
      obtain ⟨hno,hlisted⟩ := hok node below hl hsub (checked_allowed hput) hn
      obtain ⟨hforest,hlabs⟩ := h.insertSub hl sub hn hno hlisted
      refine ⟨hforest,?_,?_⟩
      · intro a b hb
        rw [List.length_set]
        obtain hb | rfl := hlabs a b hb
        · exact hb
        · exact (List.getElem?_eq_some_iff.mp hsub).1
      · intro a v hv
        apply h.vms a
        rw [graph_set_items hl] at hv
        split at hv
        · next ha => rwa [ha,graph_items_of hl]
        · exact hv

/-- What every call keeps that takes in nothing that is there already. -/
theorem Wooded.call (h : s.Wooded) {a : LabCall} (hok : s.Unshared a) : (s.call a).state.Wooded := by
  cases a with
  | createVm l name known =>
    refine h.withLab fun node hl => ?_
    split
    · exact h.takeVm hl fun _ ht => checked_ok ht
    · exact h
  | restoreVm l name restored => exact h.restoreVm l name restored
  | createBridge l name => exact h.createBridge l name
  | subLab l name =>
    rw [FileLabs.call,FileLabs.subLabChecked]
    split
    · exact h
    · exact h.subLab l _
  | includeVm l v =>
    rw [FileLabs.call]
    cases hv : s.vmNames[v]? with
    | none => exact h
    | some name => exact h.includeVm hok hv
  | includeBridge l b =>
    rw [FileLabs.call]
    cases s.bridgeNames[b]? with
    | none => exact h
    | some name => exact h.includeBridge l name b
  | includeSubLab l sub => exact h.includeSubLab hok
  | remove slot => exact h.remove slot
  | vmFixture l fixture cached built => exact h.vmFixture l fixture cached built
  | labFixture l fixture pid cached relocked built => exact h.labFixture l fixture pid cached relocked built
  | labRestore l input => exact h.labRestore l input

theorem wooded_start : (start : FileLabs H).Wooded := by
  have hbelow : ∀ a, (start : FileLabs H).labs.graph.below a = [] := by
    rintro (_ | a) <;> rfl
  have hitems : ∀ a, (start : FileLabs H).labs.graph.items a = [] := by
    rintro (_ | a) <;> rfl
  refine ⟨⟨acyclic_new _ _,?_,?_,?_⟩,?_,?_⟩
  · intro a
    rw [hbelow]
    exact .nil
  · intro a v b b' _ _ hv
    rw [hitems] at hv
    cases hv
  · intro a
    rw [hitems]
    exact .nil
  · intro a b hb
    rw [Nesting.Sub,hbelow] at hb
    cases hb
  · intro a v hv
    rw [hitems] at hv
    cases hv

end Wooded
end FileLabs

/-- In a run that takes in no lab and no VM that a lab above has already, the walks of every lab end and
visit each VM once. -/
theorem lab_walks_once {as : List LabCall} {s : FileLabs H} {os : List (List MemberEvent)}
    (hok : (FileLabs.machine H).Obeys FileLabs.Unshared .start as)
    (h : (FileLabs.machine H).run .start as = some (s,os)) : ∀ l < s.labs.length, s.WalksOnce l := by
  have hwooded : s.Wooded := by
    refine Machine.run_obeys _ ?_ FileLabs.wooded_start hok h
    rintro s a s' o hs ha hstep
    cases hstep
    exact hs.call ha
  exact fun l hl => hwooded.walksOnce hl

/-- A lab that has been put out of one lab and is taken into another. -/
theorem lab_walks_once_moved : ∃ (s : FileLabs Unit) (os : List (List MemberEvent)),
    (FileLabs.machine Unit).run .start [.subLab 0 (some "a"),.subLab 0 (some "b"),.createVm 1 "x" true,
      .remove ⟨0,.subLab,"a"⟩,.includeSubLab 2 1] = some (s,os) ∧ s.collectAllVms 3 0 = some [0] ∧
      s.WalksOnce 0 := by
  have hok : (FileLabs.machine Unit).Obeys FileLabs.Unshared .start [.subLab 0 (some "a"),
      .subLab 0 (some "b"),.createVm 1 "x" true,.remove ⟨0,.subLab,"a"⟩,.includeSubLab 2 1] := by
    refine .cons _ rfl trivial (.cons _ rfl trivial (.cons _ rfl trivial (.cons _ rfl trivial
      (.cons _ rfl ?_ trivial))))
    intro node below _ _ _ _
    refine unshared_of_alone rfl ?_ (by decide) ?_
    · rintro (_ | _ | _ | c) hc
      · cases List.mem_singleton.mp hc
      · cases hc
      · cases hc
      · cases hc
    · rintro v - (_ | _ | _ | b) hb
      · cases hb
      · rfl
      · cases hb
      · cases hb
  exact ⟨_,_,rfl,rfl,lab_walks_once hok rfl 0 (by decide)⟩

/-- A walk has one end. -/
theorem collectAllVms_unique {s : FileLabs H} {l : ℕ} {fuel fuel' : ℕ} {out out' : List ℕ}
    (h : s.collectAllVms fuel l = some out) (h' : s.collectAllVms fuel' l = some out') : out = out' := by
  have hvisit : ∀ {n o}, s.collectAllVms n l = some o → s.labs.graph.visit^[n] ([l],[]) = ([],o) := by
    intro n o hn
    unfold FileLabs.collectAllVms at hn
    split at hn
    · next heq =>
      cases hn
      exact heq
    · cases hn
  exact Nesting.visit_end_unique (hvisit h) (hvisit h')

/-- A lab may be taken into itself, and into two labs. -/
theorem shared_lab_breaks_walks :
    (∃ (s : FileLabs Unit) (os : List (List MemberEvent)),
      (FileLabs.machine Unit).run .start [.includeSubLab 0 0] = some (s,os) ∧
      (∀ fuel, s.collectAllVms fuel 0 = none ∧
        ∀ streams captures, s.openStreamTotal streams captures fuel [] 0 = none) ∧ ¬s.WalksOnce 0) ∧
    ∃ (s : FileLabs Unit) (os : List (List MemberEvent)),
      (FileLabs.machine Unit).run .start [.subLab 0 (some "a"),.subLab 0 (some "b"),.createVm 1 "x" true,
        .includeSubLab 2 1] = some (s,os) ∧ s.collectAllVms 4 0 = some [0,0] ∧ ¬s.WalksOnce 0 := by
  constructor
  · have hnone : ∀ fuel, FileLabs.collectAllVms (H := Unit)
        ((FileLabs.start : FileLabs Unit).call (.includeSubLab 0 0)).state fuel 0 = none := by
      intro fuel
      rw [FileLabs.collectAllVms,Function.iterate_fixed rfl]
    refine ⟨_,_,rfl,fun fuel => ⟨hnone fuel,?_⟩,?_⟩
    · intro streams captures
      obtain _ | _ | fuel := fuel <;> rfl
    · rintro ⟨out,-,-,⟨fuel,hout⟩,-⟩
      rw [hnone fuel] at hout
      cases hout
  · refine ⟨_,_,rfl,rfl,?_⟩
    rintro ⟨out,hnodup,-,⟨fuel,hout⟩,-⟩
    rw [collectAllVms_unique hout (rfl : FileLabs.collectAllVms _ 4 0 = some [0,0])] at hnodup
    exact absurd hnodup (by decide)

end Provium.Lab
