import Provium.Lab.Barrier

/-! The calls of a barrier fall into rounds. An invariant ties the counters under the lock to the
calls that wait, round by round, and another the rounds to the order of the log. -/
namespace Provium.Lab
open Lib

/-- The call, where it is one of this name. -/
def Barriers.named (s : Barriers) (n : String) (i : ℕ) : Option BarrierCall :=
  (s.calls[i]?).filter fun call => call.name = n

theorem Barriers.named_eq_some {s : Barriers} {n : String} {i : ℕ} {call : BarrierCall} :
    s.named n i = some call ↔ s.calls[i]? = some call ∧ call.name = n := by
  simp [named,Option.filter_eq_some_iff]

theorem Barriers.named_leave {s : Barriers} {i : ℕ} {call : BarrierCall}
    (hcall : s.calls[i]? = some call) (r : BarrierInner × BarrierOutcome) :
    (s.leave i call r).named call.name =
      Function.update (s.named call.name) i (some { call with phase := r.2.phase }) := by
  have hi : i < s.calls.length := (List.getElem?_eq_some_iff.mp hcall).1
  funext j
  by_cases hj : j = i
  · subst hj
    rw [Function.update_self,named_eq_some]
    exact ⟨List.getElem?_set_self hi,rfl⟩
  · rw [Function.update_of_ne hj,named,leave,List.getElem?_set_ne (Ne.symm hj),named]

theorem Barriers.named_leave_ne {s : Barriers} {i : ℕ} {call : BarrierCall} {n : String}
    (hcall : s.calls[i]? = some call) (hn : n ≠ call.name) (r : BarrierInner × BarrierOutcome) :
    (s.leave i call r).named n = s.named n := by
  have hi : i < s.calls.length := (List.getElem?_eq_some_iff.mp hcall).1
  funext j
  by_cases hj : j = i
  · subst hj
    rw [named,leave,List.getElem?_set_self hi,named,hcall]
    simp [Option.filter,Ne.symm hn]
  · rw [named,leave,List.getElem?_set_ne (Ne.symm hj),named]

theorem Barriers.named_enter (s : Barriers) (t : Table String BarrierInner) (c : BarrierCall)
    (n : String) : (Barriers.mk t (s.calls++[c])).named n =
      if c.name = n then Function.update (s.named n) s.calls.length (some c) else s.named n := by
  funext j
  have hout : s.named n s.calls.length = none := by simp [named]
  by_cases hj : j = s.calls.length
  · subst hj
    by_cases hn : c.name = n
    · simp [named,hn,Option.filter]
    · rw [if_neg hn,hout]
      simp [named,hn,Option.filter]
  · have hsame : (s.calls++[c])[j]? = s.calls[j]? := by
      by_cases hlt : j < s.calls.length
      · exact List.getElem?_append_left hlt
      · rw [List.getElem?_eq_none (by simp; omega),List.getElem?_eq_none (by omega)]
    split
    · rw [Function.update_of_ne hj,named,hsame,named]
    · rw [named,hsame,named]

/-- The calls of one barrier: those of the rounds completed, and those that count in the round to
come. -/
structure Members (g : BarrierInner) (calls : ℕ → Option BarrierCall) (rounds : List (List ℕ))
    (here : List ℕ) : Prop where
  arrived : g.arrived = here.length
  generation : g.generation = rounds.length
  fresh : g.expected = none → rounds = [] ∧ here = []
  full : ∀ c, g.expected = some c → (∀ r ∈ rounds, r.length = max c 1) ∧ here.length < max c 1
  distinct : (rounds.flatten++here).Nodup
  here : ∀ i, i ∈ here ↔ ∃ call, calls i = some call ∧ call.phase = .waiting rounds.length
  passed : ∀ (k : ℕ) (r : List ℕ), rounds[k]? = some r → ∀ i ∈ r, ∃ call, calls i = some call ∧
    (call.phase = .waiting k ∨ call.phase = .returned true)
  waiting : ∀ i call k, calls i = some call → call.phase = .waiting k →
    k = rounds.length ∨ ∃ r, rounds[k]? = some r ∧ i ∈ r
  returned : ∀ i call, calls i = some call → call.phase = .returned true → i ∈ rounds.flatten

namespace Members
variable {g : BarrierInner} {calls : ℕ → Option BarrierCall} {rounds : List (List ℕ)} {here : List ℕ}
  {i : ℕ} {call c : BarrierCall}

theorem init : Members .new (fun _ => none) [] [] := by
  constructor <;> simp [BarrierInner.new]

theorem mem_flatten (h : Members g calls rounds here) (hi : i ∈ rounds.flatten) :
    ∃ k r, rounds[k]? = some r ∧ i ∈ r ∧ ∃ call, calls i = some call ∧
      (call.phase = .waiting k ∨ call.phase = .returned true) := by
  obtain ⟨r,hr,hir⟩ := List.mem_flatten.mp hi
  obtain ⟨k,hk⟩ := List.mem_iff_getElem?.mp hr
  exact ⟨k,r,hk,hir,h.passed k r hk i hir⟩

/-- A call that neither waits nor has passed is nowhere. -/
theorem not_mem (h : Members g calls rounds here)
    (hno : ∀ call, calls i = some call → (∀ k, call.phase ≠ .waiting k) ∧
      call.phase ≠ .returned true) : i ∉ rounds.flatten++here := by
  intro hi
  obtain hi | hi := List.mem_append.mp hi
  · obtain ⟨k,r,-,-,call,hcall,hw | hp⟩ := h.mem_flatten hi
    · exact (hno call hcall).1 k hw
    · exact (hno call hcall).2 hp
  · obtain ⟨call,hcall,hw⟩ := (h.here i).mp hi
    exact (hno call hcall).1 _ hw

/-- What is found after one call has changed. -/
theorem of_update {j : ℕ} {d : BarrierCall} (h : Function.update calls i (some c) j = some d) :
    j = i ∧ d = c ∨ j ≠ i ∧ calls j = some d := by
  by_cases hj : j = i
  · subst hj
    rw [Function.update_self] at h
    exact .inl ⟨rfl,(Option.some.inj h).symm⟩
  · rw [Function.update_of_ne hj] at h
    exact .inr ⟨hj,h⟩

/-- One call changes its phase and stays where it is. -/
theorem update (h : Members g calls rounds here)
    (hhere : i ∈ here ↔ c.phase = .waiting rounds.length)
    (hpassed : ∀ (k : ℕ) (r : List ℕ), rounds[k]? = some r → i ∈ r →
      c.phase = .waiting k ∨ c.phase = .returned true)
    (hwait : ∀ k, c.phase = .waiting k → k = rounds.length ∨ ∃ r, rounds[k]? = some r ∧ i ∈ r)
    (hret : c.phase = .returned true → i ∈ rounds.flatten) :
    Members g (Function.update calls i (some c)) rounds here := by
  refine ⟨h.arrived,h.generation,h.fresh,h.full,h.distinct,?_,?_,?_,?_⟩
  · intro j
    by_cases hj : j = i
    · subst hj
      simpa using hhere
    · rw [Function.update_of_ne hj]
      exact h.here j
  · intro k r hr j hjr
    by_cases hj : j = i
    · subst hj
      exact ⟨c,Function.update_self ..,hpassed k r hr hjr⟩
    · rw [Function.update_of_ne hj]
      exact h.passed k r hr j hjr
  · intro j d k hd hk
    obtain ⟨rfl,rfl⟩ | ⟨hj,hd⟩ := of_update hd
    · exact hwait k hk
    · exact h.waiting j d k hd hk
  · intro j d hd hp
    obtain ⟨rfl,rfl⟩ | ⟨hj,hd⟩ := of_update hd
    · exact hret hp
    · exact h.returned j d hd hp

/-- A call that is nowhere, and stays so. -/
theorem update_out (h : Members g calls rounds here) (hi : i ∉ rounds.flatten++here)
    (hw : ∀ k, c.phase ≠ .waiting k) (hp : c.phase ≠ .returned true) :
    Members g (Function.update calls i (some c)) rounds here := by
  rw [List.mem_append,not_or] at hi
  apply h.update
  · exact iff_of_false hi.2 (hw _)
  · intro k r hr hir
    exact absurd (List.mem_flatten.mpr ⟨r,List.mem_of_getElem? hr,hir⟩) hi.1
  · intro k hk
    exact absurd hk (hw k)
  · intro hr
    exact absurd hr hp

/-- The count is laid down. -/
theorem expect (h : Members g calls rounds here) {target : ℕ}
    (hc : ∀ c, g.expected = some c → c = target) :
    Members { g with expected := some target } calls rounds here := by
  refine ⟨h.arrived,h.generation,by simp,?_,h.distinct,h.here,h.passed,h.waiting,h.returned⟩
  intro c hc'
  cases hc'
  cases he : g.expected with
  | none =>
    obtain ⟨rfl,rfl⟩ := h.fresh he
    simp
  | some c =>
    rw [← hc c he]
    exact h.full c he

/-- A call that arrives waits for the round to come. -/
theorem enter (h : Members g calls rounds here) {target : ℕ} (he : g.expected = some target)
    (hlt : g.arrived+1 < target) (hi : i ∉ rounds.flatten++here)
    (hc : c.phase = .waiting g.generation) :
    Members { g with arrived := g.arrived+1 } (Function.update calls i (some c)) rounds
      (here++[i]) := by
  have hsplit := hi
  rw [List.mem_append,not_or] at hsplit
  rw [h.generation] at hc
  refine ⟨?_,h.generation,?_,?_,?_,?_,?_,?_,?_⟩
  · simp [h.arrived]
  · intro hn
    rw [he] at hn
    cases hn
  · intro c' hc'
    rw [he] at hc'
    cases hc'
    refine ⟨(h.full target he).1,?_⟩
    have := h.arrived
    simp only [List.length_append,List.length_singleton]
    omega
  · rw [← List.append_assoc,List.nodup_append]
    refine ⟨h.distinct,List.nodup_singleton i,?_⟩
    rintro a ha b hb rfl
    rw [List.mem_singleton] at hb
    subst hb
    exact hi ha
  · intro j
    by_cases hj : j = i
    · subst hj
      simp [hc]
    · rw [Function.update_of_ne hj,← h.here j]
      simp [hj]
  · intro k r hr j hjr
    have hj : j ≠ i := by
      rintro rfl
      exact hsplit.1 (List.mem_flatten.mpr ⟨r,List.mem_of_getElem? hr,hjr⟩)
    rw [Function.update_of_ne hj]
    exact h.passed k r hr j hjr
  · intro j d k hd hk
    obtain ⟨rfl,rfl⟩ | ⟨hj,hd⟩ := of_update hd
    · rw [hc] at hk
      cases hk
      exact .inl rfl
    · exact h.waiting j d k hd hk
  · intro j d hd hp
    obtain ⟨rfl,rfl⟩ | ⟨hj,hd⟩ := of_update hd
    · rw [hc] at hp
      cases hp
    · exact h.returned j d hd hp

/-- The call that completes the round. -/
theorem release (h : Members g calls rounds here) {target : ℕ} (he : g.expected = some target)
    (hle : target ≤ g.arrived+1) (hi : i ∉ rounds.flatten++here)
    (hc : c.phase = .returned true) (hbound : rounds.length+1 < 2^64) :
    Members { g with arrived := 0, generation := (g.generation+1)%2^64 }
      (Function.update calls i (some c)) (rounds++[here++[i]]) [] := by
  have hsplit := hi
  rw [List.mem_append,not_or] at hsplit
  have hround : ∀ (k : ℕ) (r : List ℕ), (rounds++[here++[i]])[k]? = some r →
      rounds[k]? = some r ∨ k = rounds.length ∧ r = here++[i] := fun k r hr => getElem?_snoc hr
  refine ⟨rfl,?_,?_,?_,?_,?_,?_,?_,?_⟩
  · simp only [List.length_append,List.length_singleton,h.generation]
    exact Nat.mod_eq_of_lt hbound
  · intro hn
    rw [he] at hn
    cases hn
  · intro c' hc'
    rw [he] at hc'
    cases hc'
    obtain ⟨hfull,hlt⟩ := h.full target he
    have := h.arrived
    refine ⟨?_,by simp⟩
    intro r hr
    obtain hr | hr := List.mem_append.mp hr
    · exact hfull r hr
    · rw [List.mem_singleton] at hr
      subst hr
      simp only [List.length_append,List.length_singleton]
      omega
  · rw [List.append_nil,List.flatten_append,List.flatten_singleton,← List.append_assoc,
      List.nodup_append]
    refine ⟨h.distinct,List.nodup_singleton i,?_⟩
    rintro a ha b hb rfl
    rw [List.mem_singleton] at hb
    subst hb
    exact hi ha
  · intro j
    refine iff_of_false List.not_mem_nil ?_
    rintro ⟨d,hd,hk⟩
    -- nobody waits for a round after the one that is over
    rw [List.length_append,List.length_singleton] at hk
    obtain ⟨rfl,rfl⟩ | ⟨hj,hd⟩ := of_update hd
    · rw [hc] at hk
      cases hk
    · obtain heq | ⟨r,hr,-⟩ := h.waiting j d _ hd hk
      · omega
      · have := (List.getElem?_eq_some_iff.mp hr).1
        omega
  · intro k r hr j hjr
    by_cases hj : j = i
    · subst hj
      exact ⟨c,Function.update_self ..,.inr hc⟩
    · rw [Function.update_of_ne hj]
      obtain hr | ⟨rfl,rfl⟩ := hround k r hr
      · exact h.passed k r hr j hjr
      · have hjh : j ∈ here := by simpa [hj] using hjr
        obtain ⟨d,hd,hk⟩ := (h.here j).mp hjh
        exact ⟨d,hd,.inl hk⟩
  · intro j d k hd hk
    obtain ⟨rfl,rfl⟩ | ⟨hj,hd⟩ := of_update hd
    · rw [hc] at hk
      cases hk
    · right
      obtain rfl | ⟨r,hr,hjr⟩ := h.waiting j d k hd hk
      · refine ⟨here++[i],by simp,?_⟩
        exact List.mem_append_left _ ((h.here j).mpr ⟨d,hd,hk⟩)
      · exact ⟨r,getElem?_append_of hr _,hjr⟩
  · intro j d hd hp
    rw [List.flatten_append,List.flatten_singleton]
    by_cases hj : j = i
    · subst hj
      simp
    · rw [Function.update_of_ne hj] at hd
      exact List.mem_append_left _ (h.returned j d hd hp)

/-- A call that waits for the round to come gives up. -/
theorem expire (h : Members g calls rounds here) (hcall : calls i = some call)
    (hw : call.phase = .waiting g.generation) (hc : c.phase = .returned false) :
    Members (g.rollBack g.generation) (Function.update calls i (some c)) rounds (here.erase i) := by
  have hi : i ∈ here := by
    rw [h.generation] at hw
    exact (h.here i).mpr ⟨call,hcall,hw⟩
  have hnodup := h.distinct
  rw [List.nodup_append] at hnodup
  obtain ⟨-,hhere,hdis⟩ := hnodup
  have hpos := List.length_pos_of_mem hi
  have hlen := List.length_erase_of_mem hi
  have harr := h.arrived
  have hg : g.rollBack g.generation = { g with arrived := g.arrived-1 } := by
    rw [BarrierInner.rollBack,if_pos ⟨rfl,by omega⟩]
  have hne : ∀ r ∈ rounds, i ∉ r := by
    intro r hr hir
    exact hdis i (List.mem_flatten.mpr ⟨r,hr,hir⟩) i hi rfl
  rw [hg]
  refine ⟨?_,h.generation,?_,?_,?_,?_,?_,?_,?_⟩
  · change g.arrived-1 = _
    omega
  · intro hn
    obtain ⟨-,rfl⟩ := h.fresh hn
    cases hi
  · intro c' hc'
    refine ⟨(h.full c' hc').1,?_⟩
    have := (h.full c' hc').2
    omega
  · exact h.distinct.sublist (List.Sublist.append_left List.erase_sublist _)
  · intro j
    by_cases hj : j = i
    · subst hj
      simp [hc,hhere.not_mem_erase]
    · rw [Function.update_of_ne hj,← h.here j,List.mem_erase_of_ne hj]
  · intro k r hr j hjr
    have hj : j ≠ i := by
      rintro rfl
      exact hne r (List.mem_of_getElem? hr) hjr
    rw [Function.update_of_ne hj]
    exact h.passed k r hr j hjr
  · intro j d k hd hk
    obtain ⟨rfl,rfl⟩ | ⟨hj,hd⟩ := of_update hd
    · rw [hc] at hk
      cases hk
    · exact h.waiting j d k hd hk
  · intro j d hd hp
    obtain ⟨rfl,rfl⟩ | ⟨hj,hd⟩ := of_update hd
    · rw [hc] at hp
      cases hp
    · exact h.returned j d hd hp

end Members

/-- The rounds follow one another, and each is complete before a call of it returns. -/
structure Ordered (es : List BarrierEvent) (rounds : List (List ℕ)) (here : List ℕ) : Prop where
  log : ∀ i ∈ rounds.flatten++here, .arrived i ∈ es
  successive : (rounds++[here]).Pairwise fun r r' =>
    ∀ i ∈ r, ∀ j ∈ r', Before (.arrived i) (.arrived j) es
  together : ∀ r ∈ rounds, ∀ i ∈ r, ∀ j ∈ r, Before (.arrived i) (.returned j true) es

namespace Ordered
variable {es : List BarrierEvent} {rounds : List (List ℕ)} {here : List ℕ} {i : ℕ}

theorem init : Ordered [] [] [] := by
  constructor <;> simp

theorem append (h : Ordered es rounds here) (new : List BarrierEvent) :
    Ordered (es++new) rounds here := by
  have hmem : ∀ r ∈ rounds++[here], ∀ i ∈ r, .arrived i ∈ es := by
    intro r hr i hi
    apply h.log
    obtain hr | hr := List.mem_append.mp hr
    · exact List.mem_append_left _ (List.mem_flatten.mpr ⟨r,hr,hi⟩)
    · rw [List.mem_singleton] at hr
      subst hr
      exact List.mem_append_right _ hi
  refine ⟨?_,?_,?_⟩
  · intro i hi
    exact List.mem_append_left _ (h.log i hi)
  · refine h.successive.imp_of_mem ?_
    intro r r' hr _ hb i hi j hj
    exact (hb i hi j hj).append (hmem r hr i hi) new
  · intro r hr i hi j hj
    exact (h.together r hr i hi j hj).append (hmem r (List.mem_append_left _ hr) i hi) new

/-- A call arrives after those of the rounds completed. -/
theorem enter (h : Ordered es rounds here) (hi : .arrived i ∉ es) :
    Ordered (es++[.arrived i]) rounds (here++[i]) := by
  have h' := h.append [.arrived i]
  refine ⟨?_,?_,h'.together⟩
  · intro j hj
    rw [← List.append_assoc] at hj
    obtain hj | hj := List.mem_append.mp hj
    · exact h'.log j hj
    · rw [List.mem_singleton] at hj
      subst hj
      simp
  · obtain ⟨hr,-,hh⟩ := List.pairwise_append.mp h'.successive
    refine List.pairwise_append.mpr ⟨hr,List.pairwise_singleton _ _,?_⟩
    intro r hr' r' hr'' a ha b hb
    rw [List.mem_singleton] at hr''
    subst hr''
    obtain hb | hb := List.mem_append.mp hb
    · exact hh r hr' here (List.mem_singleton_self _) a ha b hb
    · rw [List.mem_singleton] at hb
      subst hb
      refine before_of_mem (h.log a ?_) hi _
      exact List.mem_append_left _ (List.mem_flatten.mpr ⟨r,hr',ha⟩)

/-- The round to come is completed before any call of it has returned. -/
theorem close (h : Ordered es rounds here) (hr : ∀ j ∈ here, .returned j true ∉ es) :
    Ordered es (rounds++[here]) [] := by
  refine ⟨?_,?_,?_⟩
  · intro j hj
    rw [List.append_nil,List.flatten_append,List.flatten_singleton] at hj
    exact h.log j hj
  · refine List.pairwise_append.mpr ⟨h.successive,List.pairwise_singleton _ _,?_⟩
    intro r _ r' hr' _ _ b hb
    rw [List.mem_singleton] at hr'
    subst hr'
    cases hb
  · intro r hr' i hi j hj
    obtain hr' | hr' := List.mem_append.mp hr'
    · exact h.together r hr' i hi j hj
    · rw [List.mem_singleton] at hr'
      subst hr'
      exact before_of_not_mem (hr j hj)

/-- A call leaves the round to come. -/
theorem erase (h : Ordered es rounds here) (i : ℕ) : Ordered es rounds (here.erase i) := by
  refine ⟨?_,?_,h.together⟩
  · intro j hj
    apply h.log
    obtain hj | hj := List.mem_append.mp hj
    · exact List.mem_append_left _ hj
    · exact List.mem_append_right _ (List.mem_of_mem_erase hj)
  · obtain ⟨hr,-,hh⟩ := List.pairwise_append.mp h.successive
    refine List.pairwise_append.mpr ⟨hr,List.pairwise_singleton _ _,?_⟩
    intro r hr' r' hr'' a ha b hb
    rw [List.mem_singleton] at hr''
    subst hr''
    exact hh r hr' here (List.mem_singleton_self _) a ha b (List.mem_of_mem_erase hb)

end Ordered

/-- The calls of a name, as the barrier and the log know them. -/
structure Rounds (n : String) (es : List BarrierEvent) (s : Barriers) (rounds : List (List ℕ))
    (here : List ℕ) : Prop where
  members : Members (s.get n) (s.named n) rounds here
  ordered : Ordered es rounds here
  accepted : ∀ i call, s.named n i = some call → .arrived i ∈ es →
    (s.get n).expected = some call.count
  counted : es.count (.notified n) = rounds.length

namespace Rounds
variable {n : String} {es new : List BarrierEvent} {s s' : Barriers} {rounds : List (List ℕ)}
  {here : List ℕ} {i : ℕ} {call : BarrierCall} {r : BarrierInner × BarrierOutcome}

theorem init (n : String) : Rounds n [] .init [] [] :=
  ⟨Members.init,Ordered.init,by simp,rfl⟩

/-- A step of another barrier's call. -/
theorem other (h : Rounds n es s rounds here) (hcall : s.calls[i]? = some call)
    (hn : n ≠ call.name) (hnew : ∀ e ∈ new, e = .arrived i ∨ e = .notified call.name ∨
      ∃ b, e = .returned i b) : Rounds n (es++new) (s.leave i call r) rounds here := by
  have hnamed := Barriers.named_leave_ne hcall hn r
  have hget : (s.leave i call r).get n = s.get n := by rw [Barriers.get_leave,if_neg hn]
  refine ⟨?_,h.ordered.append new,?_,?_⟩
  · rw [hget,hnamed]
    exact h.members
  · intro j d hd ha
    rw [hnamed] at hd
    rw [hget]
    obtain ha | ha := List.mem_append.mp ha
    · exact h.accepted j d hd ha
    · -- only the call of the other barrier can arrive here
      obtain ha | ha | ⟨b,ha⟩ := hnew _ ha
      · cases ha
        obtain ⟨hd,hdn⟩ := Barriers.named_eq_some.mp hd
        rw [hcall] at hd
        cases hd
        exact absurd hdn.symm hn
      · cases ha
      · cases ha
  · rw [List.count_append,h.counted,List.count_eq_zero_of_not_mem,Nat.add_zero]
    intro hmem
    obtain he | he | ⟨b,he⟩ := hnew _ hmem
    · cases he
    · cases he
      exact hn rfl
    · cases he

/-- What a section of a call of this barrier has to show. -/
theorem own {rounds' : List (List ℕ)} {here' : List ℕ} (h : Rounds call.name es s rounds here)
    (hcall : s.calls[i]? = some call)
    (hm : Members r.1 (Function.update (s.named call.name) i
      (some { call with phase := r.2.phase })) rounds' here')
    (ho : Ordered (es++new) rounds' here')
    (hkeep : ∀ c, (s.get call.name).expected = some c → r.1.expected = some c)
    (hnew : ∀ j, .arrived j ∈ new → j = i)
    (hacc : .arrived i ∈ new → r.1.expected = some call.count)
    (hcount : (es++new).count (.notified call.name) = rounds'.length) :
    Rounds call.name (es++new) (s.leave i call r) rounds' here' := by
  have hget : (s.leave i call r).get call.name = r.1 := by rw [Barriers.get_leave,if_pos rfl]
  have hnamed := Barriers.named_leave hcall r
  refine ⟨?_,ho,?_,hcount⟩
  · rw [hget,hnamed]
    exact hm
  · intro j d hd ha
    rw [hget]
    rw [hnamed] at hd
    obtain hold | hadd := List.mem_append.mp ha
    · by_cases hj : j = i
      · subst hj
        rw [Function.update_self] at hd
        cases hd
        exact hkeep _ (h.accepted j call (Barriers.named_eq_some.mpr ⟨hcall,rfl⟩) hold)
      · rw [Function.update_of_ne hj] at hd
        exact hkeep _ (h.accepted j d hd hold)
    · obtain rfl := hnew j hadd
      rw [Function.update_self] at hd
      cases hd
      exact hacc hadd

theorem arrive (h : Rounds call.name es s rounds here) (hl : Logged es s)
    (hcall : s.calls[i]? = some call) (hphase : call.phase = .entered) (late : Bool)
    (hr : r = (s.get call.name).arrive call.count late)
    (hnew : new = (if r.2 = .refused then [] else [.arrived i])++r.2.events call.name i)
    (hb : (es++new).count (.notified call.name) < 2^64) :
    ∃ rounds' here', Rounds call.name (es++new) (s.leave i call r) rounds' here' := by
  have hlog := hl.phase i call hcall
  rw [hphase] at hlog
  obtain ⟨hna,hnr⟩ := hlog
  have hi : i ∉ rounds.flatten++here := by
    apply h.members.not_mem
    intro d hd
    obtain ⟨hd,-⟩ := Barriers.named_eq_some.mp hd
    rw [hcall] at hd
    cases hd
    simp [hphase]
  obtain ⟨prev,hprev,-,he⟩ | ⟨hexp,⟨hle,he⟩ | ⟨hlt,he⟩ | ⟨hlt,he⟩⟩ :=
    BarrierInner.arrive_cases (s.get call.name) call.count late
  · rw [he] at hr
    subst hr
    subst hnew
    refine ⟨rounds,here,h.own hcall ?_ (h.ordered.append _) (fun c hc => hc) ?_ ?_ ?_⟩
    · exact h.members.update_out hi (by simp [BarrierOutcome.phase]) (by simp [BarrierOutcome.phase])
    · simp [BarrierOutcome.events]
    · simp [BarrierOutcome.events]
    · simp [BarrierOutcome.events,h.counted]
  · rw [he] at hr
    subst hr
    have hexpect := h.members.expect hexp
    have hlen : (es++new).count (.notified call.name) = rounds.length+1 := by
      subst hnew
      simp [BarrierOutcome.events,h.counted]
    rw [hlen] at hb
    have hnot : ∀ j ∈ here++[i], .returned j true ∉ es++[.arrived i] := by
      intro j hj hret
      replace hret : .returned j true ∈ es := by simpa using hret
      obtain hj | hj := List.mem_append.mp hj
      · obtain ⟨d,hd,hw⟩ := (h.members.here j).mp hj
        have hld := hl.phase j d (Barriers.named_eq_some.mp hd).1
        rw [hw] at hld
        exact hld.2 true hret
      · rw [List.mem_singleton] at hj
        subst hj
        exact hnr true hret
    refine ⟨rounds++[here++[i]],[],h.own hcall ?_ ?_ ?_ ?_ ?_ ?_⟩
    · exact hexpect.release rfl hle hi rfl hb
    · have hclosed := ((h.ordered.enter hna).close hnot).append
        (BarrierOutcome.released.events call.name i)
      subst hnew
      simpa [BarrierOutcome.events] using hclosed
    · intro c hc
      rw [hexp c hc]
    · subst hnew
      simp [BarrierOutcome.events]
    · intro _
      rfl
    · rw [hlen,List.length_append,List.length_singleton]
  · rw [he] at hr
    subst hr
    have hexpect := h.members.expect hexp
    refine ⟨rounds,here++[i],h.own hcall ?_ ?_ ?_ ?_ ?_ ?_⟩
    · exact hexpect.enter rfl hlt hi rfl
    · subst hnew
      simpa [BarrierOutcome.events] using h.ordered.enter hna
    · intro c hc
      rw [hexp c hc]
    · subst hnew
      simp [BarrierOutcome.events]
    · intro _
      rfl
    · subst hnew
      simp [BarrierOutcome.events,h.counted]
  · rw [he] at hr
    subst hr
    have hexpect := h.members.expect hexp
    refine ⟨rounds,here,h.own hcall ?_ (h.ordered.append _) ?_ ?_ ?_ ?_⟩
    · exact hexpect.update_out hi (by simp [BarrierOutcome.phase]) (by simp [BarrierOutcome.phase])
    · intro c hc
      rw [hexp c hc]
    · subst hnew
      simp [BarrierOutcome.events]
    · intro _
      rfl
    · subst hnew
      simp [BarrierOutcome.events,h.counted]

theorem wake (h : Rounds call.name es s rounds here) (hcall : s.calls[i]? = some call)
    {my : ℕ} (hphase : call.phase = .waiting my) (timedOut late : Bool)
    (hr : r = (s.get call.name).wake my timedOut late) (hnew : new = r.2.events call.name i) :
    ∃ rounds' here', Rounds call.name (es++new) (s.leave i call r) rounds' here' := by
  have hnamed : s.named call.name i = some call := Barriers.named_eq_some.mpr ⟨hcall,rfl⟩
  have hgen := h.members.generation
  obtain ⟨hne,he⟩ | ⟨rfl,he | he⟩ := BarrierInner.wake_cases (s.get call.name) my timedOut late
  · rw [he] at hr
    subst hr
    subst hnew
    rw [hgen] at hne
    -- it waits for a round that is over
    obtain heq | ⟨r,hround,hir⟩ := h.members.waiting i call my hnamed hphase
    · exact absurd heq.symm hne
    have hflat : i ∈ rounds.flatten := List.mem_flatten.mpr ⟨r,List.mem_of_getElem? hround,hir⟩
    refine ⟨rounds,here,h.own hcall ?_ (h.ordered.append _) (fun c hc => hc) ?_ ?_ ?_⟩
    · apply h.members.update
      · refine iff_of_false ?_ (by simp [BarrierOutcome.phase])
        intro hhere
        exact (List.nodup_append.mp h.members.distinct).2.2 i hflat i hhere rfl
      · intro k r' _ _
        exact .inr rfl
      · intro k hk
        cases hk
      · intro _
        exact hflat
    · simp [BarrierOutcome.events]
    · simp [BarrierOutcome.events]
    · simp [BarrierOutcome.events,h.counted]
  · rw [he] at hr
    subst hr
    subst hnew
    have hexp : ((s.get call.name).rollBack (s.get call.name).generation).expected =
        (s.get call.name).expected := by
      unfold BarrierInner.rollBack
      split <;> rfl
    refine ⟨rounds,here.erase i,h.own hcall ?_ ?_ ?_ ?_ ?_ ?_⟩
    · exact h.members.expire hnamed hphase rfl
    · exact (h.ordered.erase i).append _
    · intro c hc
      rw [hexp]
      exact hc
    · simp [BarrierOutcome.events]
    · simp [BarrierOutcome.events]
    · simp [BarrierOutcome.events,h.counted]
  · rw [he] at hr
    subst hr
    subst hnew
    have hsame : Function.update (s.named call.name) i
        (some { call with phase := .waiting (s.get call.name).generation }) = s.named call.name := by
      rw [← hphase]
      exact Function.update_eq_self_iff.mpr hnamed.symm
    refine ⟨rounds,here,h.own hcall ?_ (h.ordered.append _) (fun c hc => hc) ?_ ?_ ?_⟩
    · simp only [BarrierOutcome.phase]
      rw [hsame]
      exact h.members
    · simp [BarrierOutcome.events]
    · simp [BarrierOutcome.events]
    · simp [BarrierOutcome.events,h.counted]

end Rounds

namespace Barriers
variable {n : String} {es : List BarrierEvent} {s : Barriers} {rounds : List (List ℕ)}
  {here : List ℕ}

/-- A call begins. -/
theorem Rounds.begin (h : Rounds n es s rounds here) (hl : Logged es s) (name : String)
    (count : ℕ) : Rounds n es ⟨s.barriers.insert name (s.get name),s.calls++[⟨name,count,.entered⟩]⟩
      rounds here := by
  have hout : s.named n s.calls.length = none := by simp [named]
  have hi : s.calls.length ∉ rounds.flatten++here := by
    apply h.members.not_mem
    intro d hd
    rw [hout] at hd
    cases hd
  refine ⟨?_,h.ordered,?_,h.counted⟩
  · rw [get_enter,named_enter]
    split
    · exact h.members.update_out hi (by simp) (by simp)
    · exact h.members
  · intro j d hd ha
    rw [get_enter]
    rw [named_enter] at hd
    split at hd
    · obtain ⟨rfl,-⟩ | ⟨-,hd⟩ := Members.of_update hd
      · exact absurd (hl.known _ ha _ rfl) (lt_irrefl _)
      · exact h.accepted j d hd ha
    · exact h.accepted j d hd ha

theorem step_rounds {s' : Barriers} {a : BarrierAction} {new : List BarrierEvent}
    (h : Rounds n es s rounds here) (hl : Logged es s) (hs : machine.step s a = some (s',new))
    (hb : (es++new).count (.notified n) < 2^64) :
    ∃ rounds' here', Rounds n (es++new) s' rounds' here' := by
  obtain ⟨name,count,rfl,rfl⟩ | ⟨i,late,call,hcall,hphase,rfl,hnew⟩ |
    ⟨i,timedOut,late,call,my,hcall,hphase,rfl,hnew⟩ := step_cases hs
  · rw [List.append_nil]
    exact ⟨rounds,here,Rounds.begin h hl name count⟩
  · by_cases hn : n = call.name
    · subst hn
      exact h.arrive hl hcall hphase late rfl hnew hb
    · refine ⟨rounds,here,h.other hcall hn ?_⟩
      subst hnew
      cases ho : ((s.get call.name).arrive call.count late).2 <;> simp [BarrierOutcome.events]
  · by_cases hn : n = call.name
    · subst hn
      exact h.wake hcall hphase timedOut late rfl hnew
    · refine ⟨rounds,here,h.other hcall hn ?_⟩
      subst hnew
      cases ho : ((s.get call.name).wake my timedOut late).2 <;> simp [BarrierOutcome.events]

theorem run_rounds {as : List BarrierAction} {os : List (List BarrierEvent)}
    (hrun : machine.run .init as = some (s,os)) (n : String) :
    Logged os.flatten s ∧ (os.flatten.count (.notified n) < 2^64 →
      ∃ rounds here, Rounds n os.flatten s rounds here) := by
  refine @Machine.run_history _ _ _ machine (fun _ seen s => Logged seen.flatten s ∧
    (seen.flatten.count (.notified n) < 2^64 → ∃ rounds here, Rounds n seen.flatten s rounds here))
    ?_ [] as [] os .init s ?_ hrun
  · rintro past seen s a s' new ⟨hl,h⟩ hs
    rw [List.flatten_append,List.flatten_singleton]
    refine ⟨step_logged hl hs,?_⟩
    intro hb
    have hbefore : seen.flatten.count (.notified n) < 2^64 := by
      rw [List.count_append] at hb
      omega
    obtain ⟨rounds,here,hr⟩ := h hbefore
    exact step_rounds hr hl hs hb
  · refine ⟨⟨by simp,by simp [init]⟩,?_⟩
    intro _
    exact ⟨[],[],Rounds.init n⟩

end Barriers

/-- The calls of one name have been let through in these rounds, and the others have left no
trace. -/
structure Exact (n : String) (es : List BarrierEvent) (s : Barriers) (rounds : List (List ℕ)) :
    Prop where
  distinct : rounds.flatten.Nodup
  /-- A round has as many calls as each of its calls has asked for. -/
  full : ∀ r ∈ rounds, ∀ i ∈ r, ∃ call, s.calls[i]? = some call ∧ call.name = n ∧
    (1 ≤ call.count → r.length = call.count)
  /-- A call of a round has returned true, or will do so when it next wakes, timed out or not. -/
  passes : ∀ i ∈ rounds.flatten, .returned i true ∈ es ∨
    ∀ timedOut late, ∃ s', s.step (.wake i timedOut late) = some (s',[.returned i true])
  true_of : ∀ (i : ℕ) (call : BarrierCall), s.calls[i]? = some call → call.name = n →
    .returned i true ∈ es → i ∈ rounds.flatten
  false_of : ∀ i, .returned i false ∈ es → i ∉ rounds.flatten
  together : ∀ r ∈ rounds, ∀ i ∈ r, ∀ j ∈ r, Before (.arrived i) (.returned j true) es
  successive : rounds.Pairwise fun r r' => ∀ i ∈ r, ∀ j ∈ r', Before (.arrived i) (.arrived j) es
  /-- What the barrier counts is the calls that wait for a round to come. -/
  left : ∃ here : List ℕ, here.Nodup ∧ (s.get n).arrived = here.length ∧
    ∀ i, i ∈ here ↔ i ∉ rounds.flatten ∧
      ∃ call k, s.calls[i]? = some call ∧ call.name = n ∧ call.phase = .waiting k
  /-- A call whose count is not the one of a call that has arrived. -/
  mismatch : ∀ (i j : ℕ) (call first : BarrierCall), s.calls[i]? = some call →
    s.calls[j]? = some first → call.name = n → first.name = n → .arrived j ∈ es →
    call.phase = .entered → call.count ≠ first.count → ∀ late, ∃ s',
      s.step (.arrive i late) = some (s',[.returned i false]) ∧ (∀ m, s'.get m = s.get m) ∧
        s'.calls = s.calls.set i { call with phase := .returned false }

theorem Rounds.exact {n : String} {es : List BarrierEvent} {s : Barriers} {rounds : List (List ℕ)}
    {here : List ℕ} (h : Rounds n es s rounds here) (hl : Logged es s) : Exact n es s rounds := by
  have hnodup := List.nodup_append.mp h.members.distinct
  refine ⟨hnodup.1,?_,?_,?_,?_,h.ordered.together,(List.pairwise_append.mp h.ordered.successive).1,
    ⟨here,hnodup.2.1,h.members.arrived,?_⟩,?_⟩
  · intro r hr i hi
    obtain ⟨k,hk⟩ := List.mem_iff_getElem?.mp hr
    obtain ⟨call,hcall,-⟩ := h.members.passed k r hk i hi
    have hlog := h.ordered.log i (List.mem_append_left _ (List.mem_flatten.mpr ⟨r,hr,hi⟩))
    have hlen := (h.members.full _ (h.accepted i call hcall hlog)).1 r hr
    obtain ⟨hcall,hn⟩ := Barriers.named_eq_some.mp hcall
    refine ⟨call,hcall,hn,?_⟩
    intro hpos
    rw [hlen,max_eq_left hpos]
  · intro i hi
    obtain ⟨k,r,hk,-,call,hcall,hw | hp⟩ := h.members.mem_flatten hi
    · right
      obtain ⟨-,rfl⟩ := Barriers.named_eq_some.mp hcall
      have hlt := (List.getElem?_eq_some_iff.mp hk).1
      have hne : (s.get call.name).generation ≠ k := by
        rw [h.members.generation]
        omega
      intro timedOut late
      have hwake : (s.get call.name).wake k timedOut late = (s.get call.name,.passed) := by
        rw [BarrierInner.wake,if_pos hne]
      refine ⟨s.leave i call (s.get call.name,.passed),?_⟩
      rw [Barriers.step_wake (Barriers.named_eq_some.mp hcall).1 hw,hwake]
      rfl
    · left
      have hlog := hl.phase i call (Barriers.named_eq_some.mp hcall).1
      rw [hp] at hlog
      exact hlog.1
  · intro i call hcall hn hret
    have hlog := hl.phase i call hcall
    cases hp : call.phase with
    | entered =>
      rw [hp] at hlog
      exact absurd hret (hlog.2 true)
    | waiting k =>
      rw [hp] at hlog
      exact absurd hret (hlog.2 true)
    | returned b =>
      rw [hp] at hlog
      cases b with
      | true => exact h.members.returned i call (Barriers.named_eq_some.mpr ⟨hcall,hn⟩) hp
      | false => exact absurd hret hlog.2
  · intro i hret hi
    obtain ⟨k,r,-,-,call,hcall,hw | hp⟩ := h.members.mem_flatten hi
    · have hlog := hl.phase i call (Barriers.named_eq_some.mp hcall).1
      rw [hw] at hlog
      exact hlog.2 false hret
    · have hlog := hl.phase i call (Barriers.named_eq_some.mp hcall).1
      rw [hp] at hlog
      exact hlog.2 hret
  · intro i
    constructor
    · intro hi
      obtain ⟨call,hcall,hw⟩ := (h.members.here i).mp hi
      obtain ⟨hcall,hn⟩ := Barriers.named_eq_some.mp hcall
      exact ⟨fun hflat => hnodup.2.2 i hflat i hi rfl,call,_,hcall,hn,hw⟩
    · rintro ⟨hno,call,k,hcall,hn,hw⟩
      have hnamed := Barriers.named_eq_some.mpr ⟨hcall,hn⟩
      obtain rfl | ⟨r,hr,hir⟩ := h.members.waiting i call k hnamed hw
      · exact (h.members.here i).mpr ⟨call,hnamed,hw⟩
      · exact absurd (List.mem_flatten.mpr ⟨r,List.mem_of_getElem? hr,hir⟩) hno
  · rintro i j call first hcall hfirst rfl hn hlog hphase hne late
    have hexp := h.accepted j first (Barriers.named_eq_some.mpr ⟨hfirst,hn⟩) hlog
    have harrive : (s.get call.name).arrive call.count late = (s.get call.name,.refused) := by
      simp [BarrierInner.arrive,hexp,Ne.symm hne]
    refine ⟨s.leave i call (s.get call.name,.refused),?_,?_,rfl⟩
    · rw [Barriers.step_arrive hcall hphase,harrive]
      rfl
    · intro m
      rw [Barriers.get_leave]
      split
      · next hm => rw [hm]
      · rfl

/-- Whatever the order of the sections of the calls, and whenever they time out or wake, those of
one name that return true are let through in rounds. -/
theorem barrier_exact {as : List BarrierAction} {s : Barriers} {os : List (List BarrierEvent)}
    (hrun : Barriers.machine.run .init as = some (s,os)) (n : String)
    (hfew : os.flatten.count (.notified n) < 2^64) : ∃ rounds, Exact n os.flatten s rounds := by
  obtain ⟨hl,h⟩ := Barriers.run_rounds hrun n
  obtain ⟨rounds,here,hr⟩ := h hfew
  exact ⟨rounds,hr.exact hl⟩

/-- Two calls meet after a third has given up, and one with another count is refused. -/
theorem barrier_exact_example : ∃ s os,
    Barriers.machine.run .init [.barrier "go" 2,.arrive 0 false,.wake 0 true true,.barrier "go" 2,
      .barrier "go" 3,.arrive 1 false,.arrive 2 false,.barrier "go" 2,.arrive 3 false,
      .wake 1 true true] = some (s,os) ∧
    os.flatten = [.arrived 0,.returned 0 false,.arrived 1,.returned 2 false,.arrived 3,
      .notified "go",.returned 3 true,.returned 1 true] ∧
    ∃ rounds, Exact "go" os.flatten s rounds := by
  obtain ⟨⟨s,os⟩,hrun,hos⟩ : ∃ q, Barriers.machine.run .init [.barrier "go" 2,.arrive 0 false,
      .wake 0 true true,.barrier "go" 2,.barrier "go" 3,.arrive 1 false,.arrive 2 false,
      .barrier "go" 2,.arrive 3 false,.wake 1 true true] = some q ∧
      q.2.flatten = [.arrived 0,.returned 0 false,.arrived 1,.returned 2 false,.arrived 3,
        .notified "go",.returned 3 true,.returned 1 true] :=
    Option.map_eq_some_iff.mp (by decide)
  refine ⟨s,os,hrun,hos,barrier_exact hrun "go" ?_⟩
  rw [hos]
  decide

end Provium.Lab
