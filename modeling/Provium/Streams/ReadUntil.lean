import Provium.Streams.Conservation

/-! What `read_until` and `expect` of a tail find does not depend on how the stream is cut: it is the
shortest that ends with the pattern. What is left for the next call does, once a call gives up. -/
namespace Provium.Streams

/-- The pattern of a call that waits for one. -/
def Call.pattern : Call → Option (List UInt8)
  | .readUntil p _ => some p
  | .expect p _ => some p
  | _ => none

/-- What a call that succeeds returns or consumes. -/
def Result.found : Result → Option (List UInt8)
  | .bytes b => some b
  | .passed b => some b
  | _ => none

/-- The shortest beginning of the bytes that ends with the pattern. -/
structure Shortest (pattern b whole : List UInt8) : Prop where
  begins : b <+: whole
  ends : pattern <:+ b
  least : ∀ b', b' <+: whole → pattern <:+ b' → b.length ≤ b'.length

/-- What a call that has found its pattern has done to the stream. -/
structure Splits (pattern b : List UInt8) (s s' : StreamState) : Prop where
  shortest : Shortest pattern b (s.pending++s.unread)
  /-- What has been read is given out, and what is behind it is pending. -/
  rest : ∃ read, s.unread = read++s'.unread ∧ s.pending++read = b++s'.pending

theorem Shortest.unique {pattern b b' whole : List UInt8} (h : Shortest pattern b whole)
    (h' : Shortest pattern b' whole) : b = b' :=
  (List.prefix_of_prefix_length_le h.begins h'.begins (h.least b' h'.begins h'.ends)).eq_of_length
    (le_antisymm (h.least b' h'.begins h'.ends) (h'.least b h.begins h.ends))

/-- The search finds the first occurrence. -/
theorem search_spec {pattern hay : List UInt8} {i : ℕ} (h : search pattern hay = some i) :
    pattern <+: hay.drop i ∧ ∀ b, b <+: hay → pattern <:+ b → i+pattern.length ≤ b.length := by
  induction hay generalizing i with
  | nil =>
    unfold search at h
    split at h
    · obtain rfl := Option.some.inj h
      next hnil =>
        subst hnil
        exact ⟨List.nil_prefix,fun b _ _ => Nat.zero_le _⟩
    · cases h
  | cons c hay ih =>
    unfold search at h
    split at h
    · next hbefore =>
      obtain rfl := Option.some.inj h
      refine ⟨List.isPrefixOf_iff_prefix.mp hbefore,fun b _ hends => ?_⟩
      rw [Nat.zero_add]
      exact hends.length_le
    · next hbefore =>
      obtain ⟨j,hj,rfl⟩ := Option.map_eq_some_iff.mp h
      obtain ⟨hat,hleast⟩ := ih hj
      refine ⟨hat,fun b hb hends => ?_⟩
      cases b with
      | nil =>
        have hnil : pattern = [] := List.suffix_nil.mp hends
        exact absurd (List.isPrefixOf_iff_prefix.mpr (hnil ▸ List.nil_prefix)) hbefore
      | cons d b =>
        obtain ⟨rfl,hb'⟩ := List.cons_prefix_cons.mp hb
        obtain heq | hends' := List.suffix_cons_iff.mp hends
        · -- the pattern is all of it, and would stand at the very beginning
          exact absurd (List.isPrefixOf_iff_prefix.mpr (heq ▸ hb)) hbefore
        · have := hleast b hb' hends'
          rw [List.length_cons]
          omega

/-- What a call has to work with before it gives up. -/
def StreamState.inHand (limit : Limit) (s : StreamState) : List UInt8 :=
  s.pending++if s.connected then arriving nextFrame limit.reads s else []

/-- How many bytes a call loses, as far as its arguments, what is pending and what comes tell: all that it
has in hand without its pattern. -/
def Call.loses (c : Call) (s : StreamState) : ℕ :=
  match c with
  | .readUntil p limit | .expect p limit =>
    if text p = true ∧ limit.tooLong = false ∧ s.poisoned = false ∧ ¬p <:+: s.inHand limit then
      (s.inHand limit).length
    else 0
  | _ => 0

/-- The same call. How many reads are answered before its deadline is up to the framing. -/
inductive SameCall : Call → Call → Prop
  | readUntil (p : List UInt8) (l l' : Limit) : SameCall (.readUntil p l) (.readUntil p l')
  | expect (p : List UInt8) (l l' : Limit) : SameCall (.expect p l) (.expect p l')

/-- In two runs each call loses equally much. -/
def EqualLosses : List Call → List Call → StreamState → StreamState → Prop
  | c::cs,c'::cs',s,s' =>
    c.loses s = c'.loses s' ∧ EqualLosses cs cs' (call .tail c s).2 (call .tail c' s').2
  | _,_,_,_ => True

/-- What the search cuts off is the shortest also of what is still to come. -/
theorem shortest_of_search {pattern acc rest : List UInt8} {i : ℕ} (h : search pattern acc = some i) :
    Shortest pattern (acc.take (i+pattern.length)) (acc++rest) := by
  obtain ⟨⟨after,hafter⟩,hleast⟩ := search_spec h
  have hacc : acc = acc.take i++(pattern++after) := by rw [hafter,List.take_append_drop]
  have hi : i ≤ acc.length := by
    have := hleast acc (List.prefix_refl acc)
    by_contra hlt
    rw [List.drop_eq_nil_of_le (by omega)] at hafter
    have hnil := (List.append_eq_nil_iff.mp hafter).1
    subst hnil
    have := this List.nil_suffix
    simp only [List.length_nil] at this
    omega
  have hlen : i+pattern.length ≤ acc.length := by
    have := congrArg List.length hacc
    simp only [List.length_append,List.length_take] at this
    omega
  have hcut : acc.take (i+pattern.length) = acc.take i++pattern := by
    conv_lhs => rw [hacc]
    rw [List.take_append,List.length_take,Nat.min_eq_left hi,Nat.add_sub_cancel_left,List.take_left',
      List.take_of_length_le (by rw [List.length_take]; omega)]
    rfl
  refine ⟨(List.take_prefix _ _).trans (List.prefix_append _ _),?_,?_⟩
  · rw [hcut]
    exact List.suffix_append _ _
  · intro b hb hends
    rw [List.length_take,Nat.min_eq_left hlen]
    by_cases hle : b.length ≤ acc.length
    · exact hleast b (List.prefix_of_prefix_length_le hb (List.prefix_append _ _) hle) hends
    · omega

section Gather
variable {read : StreamState → Got × StreamState} {pattern b : List UInt8} {give : List UInt8 → Result}

theorem gather_found (hread : ReadLaw read) (hgive : ∀ b, (give b).found = some b) (k : ℕ) {acc : List UInt8}
    {s : StreamState} (hfound : (gather read pattern give k acc s).1.found = some b) :
    Shortest pattern b (acc++s.unread) ∧ ∃ got, s.unread = got++(gather read pattern give k acc s).2.unread ∧
      acc++got = b++(gather read pattern give k acc s).2.pending := by
  induction k generalizing acc s with
  | zero =>
    rw [gather] at hfound
    cases hfound
  | succ k ih =>
    have hu := hread.unread s
    rcases hr : read s with ⟨got,s'⟩
    rw [hr] at hu
    simp only at hu
    rw [gather] at hfound ⊢
    split at hfound
    · cases hfound
    · rename_i hconnected
      rw [if_neg hconnected]
      rw [hr] at hfound ⊢
      cases got with
      | ended => cases hfound
      | fault last => cases hfound
      | data d =>
        rw [Got.bytes] at hu
        simp only at hfound ⊢
        cases hsearch : search pattern (acc++d) with
        | some i =>
          rw [hsearch] at hfound
          simp only [hgive,Option.some.injEq] at hfound
          subst hfound
          refine ⟨?_,d,hu,?_⟩
          · rw [hu,← List.append_assoc]
            exact shortest_of_search hsearch
          · simp only [List.take_append_drop]
        | none =>
          rw [hsearch] at hfound
          simp only at hfound ⊢
          obtain ⟨hshort,more,hmore,hsplit⟩ := ih hfound
          refine ⟨?_,d++more,?_,?_⟩
          · rw [hu,← List.append_assoc]
            exact hshort
          · rw [hu,List.append_assoc]
            exact congrArg (d++·) hmore
          · rw [← List.append_assoc]
            exact hsplit

/-- What has been gathered in vain is nowhere any more. -/
theorem gather_lost (hread : ReadLaw read) (hgive : ∀ b, (give b).found = some b) (k : ℕ) {acc : List UInt8}
    {s : StreamState} (hpending : s.pending = []) (hacc : ¬pattern <:+: acc)
    (hfound : (gather read pattern give k acc s).1.found = none) :
    ¬pattern <:+: acc++(if s.connected then arriving read k s else []) ∧
      (gather read pattern give k acc s).2.pending = [] ∧
      s.unread = (if s.connected then arriving read k s else [])++(gather read pattern give k acc s).2.unread := by
  induction k generalizing acc s with
  | zero => simpa [gather,arriving,hpending] using hacc
  | succ k ih =>
    have hp := hread.pending s
    have hc := hread.connected s
    have hu := hread.unread s
    rcases hr : read s with ⟨got,s'⟩
    rw [hr] at hp hc hu
    simp only at hp hc hu
    cases hconnected : s.connected with
    | false => simpa [gather,hconnected,hpending] using hacc
    | true =>
      rw [hconnected] at hc
      simp only [gather,hconnected,Bool.not_true,Bool.false_eq_true,if_false,if_true,hr,arriving] at hfound ⊢
      cases got with
      | ended => exact ⟨by simpa using hacc,hp.trans hpending,hu⟩
      | fault last => exact ⟨by simpa using hacc,hp.trans hpending,hu⟩
      | data d =>
        simp only at hfound ⊢
        cases hsearch : search pattern (acc++d) with
        | some i =>
          rw [hsearch] at hfound
          simp only [hgive] at hfound
          cases hfound
        | none =>
          rw [hsearch] at hfound
          simp only at hfound ⊢
          obtain ⟨hno,hempty,hrest⟩ := ih (hp.trans hpending) (search_eq_none.mp hsearch) hfound
          rw [hc,if_pos rfl] at hno hrest
          refine ⟨by rwa [← List.append_assoc],hempty,?_⟩
          rw [hu,Got.bytes,List.append_assoc]
          exact congrArg (d++·) hrest

theorem take_found (hread : ReadLaw read) (hgive : ∀ b, (give b).found = some b) (k : ℕ) {s : StreamState}
    (hfound : (take read pattern give k s).1.found = some b) :
    Splits pattern b s (take read pattern give k s).2 := by
  rw [take] at hfound ⊢
  cases hsearch : search pattern s.pending with
  | some i =>
    rw [hsearch] at hfound
    simp only [hgive,Option.some.injEq] at hfound
    subst hfound
    refine ⟨shortest_of_search hsearch,[],rfl,?_⟩
    simp only [List.append_nil,List.take_append_drop]
  | none =>
    rw [hsearch] at hfound
    simp only at hfound ⊢
    obtain ⟨hshort,got,hgot,hsplit⟩ := gather_found hread hgive k hfound
    exact ⟨hshort,got,hgot,hsplit⟩

end Gather

section Calls
variable {c c' : Call} {cs cs' : List Call} {pattern b : List UInt8} {s s' : StreamState}

/-- A tail's call loses what it has in hand, or nothing. -/
theorem await_lost {give : List UInt8 → Result} (hgive : ∀ b, (give b).found = some b) {limit : Limit}
    (hfound : (Tail.await pattern give limit s).1.found = none) : ∃ lost : List UInt8,
    lost.length = (if text pattern = true ∧ limit.tooLong = false ∧ s.poisoned = false ∧
      ¬pattern <:+: s.inHand limit then (s.inHand limit).length else 0) ∧
    s.pending++s.unread =
      lost++((Tail.await pattern give limit s).2.pending++(Tail.await pattern give limit s).2.unread) := by
  by_cases htext : text pattern = true
  swap
  · exact ⟨[],by simp [htext],by simp [Tail.await,htext]⟩
  by_cases hlong : limit.tooLong = true
  · exact ⟨[],by simp [hlong],by simp [Tail.await,htext,hlong]⟩
  by_cases hpoisoned : s.poisoned = true
  · exact ⟨[],by simp [hpoisoned],by simp [Tail.await,htext,hlong,hpoisoned]⟩
  have hawait : Tail.await pattern give limit s = take nextFrame pattern give limit.reads s := by
    simp [Tail.await,htext,hlong,hpoisoned]
  rw [hawait] at hfound ⊢
  cases hsearch : search pattern s.pending with
  | some i =>
    rw [take,hsearch] at hfound
    simp only [hgive] at hfound
    cases hfound
  | none =>
    rw [take,hsearch] at hfound ⊢
    simp only at hfound ⊢
    obtain ⟨hno,hempty,hrest⟩ := gather_lost (s := { s with pending := [] }) nextFrame_law hgive limit.reads rfl
      (search_eq_none.mp hsearch) hfound
    rw [arriving_pending nextFrame_law] at hno hrest
    refine ⟨s.inHand limit,?_,?_⟩
    · rw [if_pos ⟨htext,by simpa using hlong,by simpa using hpoisoned,hno⟩]
    · rw [hempty,StreamState.inHand,List.append_assoc]
      exact congrArg (s.pending++·) hrest

theorem await_found {give : List UInt8 → Result} (hgive : ∀ b, (give b).found = some b) {limit : Limit}
    (hfound : (Tail.await pattern give limit s).1.found = some b) :
    Splits pattern b s (Tail.await pattern give limit s).2 := by
  unfold Tail.await at hfound ⊢
  split at hfound
  · cases hfound
  · split at hfound
    · cases hfound
    · split at hfound
      · cases hfound
      · next htext hlong hpoisoned =>
        rw [if_neg htext,if_neg hlong,if_neg hpoisoned]
        exact take_found nextFrame_law hgive limit.reads hfound

theorem call_found (hc : c.pattern = some pattern) (hfound : (call .tail c s).1.found = some b) :
    Splits pattern b s (call .tail c s).2 := by
  cases c with
  | readUntil p limit =>
    obtain rfl := Option.some.inj hc
    exact await_found (fun _ => rfl) hfound
  | expect p limit =>
    obtain rfl := Option.some.inj hc
    exact await_found (fun _ => rfl) hfound
  | next _ | drain _ | eof | close => cases hc

theorem call_lost (hc : c.pattern = some pattern) (hfound : (call .tail c s).1.found = none) :
    ∃ lost : List UInt8, lost.length = c.loses s ∧
      s.pending++s.unread = lost++((call .tail c s).2.pending++(call .tail c s).2.unread) := by
  cases c with
  | readUntil p limit => exact await_lost (fun _ => rfl) hfound
  | expect p limit => exact await_lost (fun _ => rfl) hfound
  | next _ | drain _ | eof | close => cases hc

theorem SameCall.patterns (h : SameCall c c') : ∃ p, c.pattern = some p ∧ c'.pattern = some p := by
  cases h with
  | readUntil p l l' => exact ⟨p,rfl,rfl⟩
  | expect p l l' => exact ⟨p,rfl,rfl⟩

/-- The bytes behind what a call that succeeds has found. -/
theorem Splits.behind (h : Splits pattern b s s') : s.pending++s.unread = b++(s'.pending++s'.unread) := by
  obtain ⟨read,hread,hsplit⟩ := h.rest
  rw [hread,← List.append_assoc,hsplit,List.append_assoc]

/-- Two runs go through the same bytes as long as their calls succeed alike and lose equally much. -/
theorem calls_found_eq (hcs : List.Forall₂ SameCall cs cs') (hbytes : s.pending++s.unread = s'.pending++s'.unread)
    (hsucceed : (calls .tail cs s).1.map (fun r => r.found.isSome) =
      (calls .tail cs' s').1.map (fun r => r.found.isSome)) (hlosses : EqualLosses cs cs' s s') :
    (calls .tail cs s).1.map Result.found = (calls .tail cs' s').1.map Result.found := by
  induction hcs generalizing s s' with
  | nil => rfl
  | @cons c c' cs cs' hsame _ ih =>
    obtain ⟨p,hc,hc'⟩ := hsame.patterns
    simp only [calls,List.map_cons,List.cons.injEq] at hsucceed ⊢
    obtain ⟨hhead,htail⟩ := hsucceed
    obtain ⟨hloss,hlosses⟩ := hlosses
    cases hfound : (call .tail c s).1.found with
    | some b =>
      rw [hfound,Option.isSome_some] at hhead
      obtain ⟨b',hfound'⟩ := Option.isSome_iff_exists.mp hhead.symm
      have h := call_found hc hfound
      have h' := call_found hc' hfound'
      obtain rfl : b = b' := by
        have hshort := h.shortest
        rw [hbytes] at hshort
        exact hshort.unique h'.shortest
      refine ⟨hfound'.symm,ih ?_ htail hlosses⟩
      refine @List.append_cancel_left _ b _ _ ?_
      rw [← h.behind,← h'.behind,hbytes]
    | none =>
      rw [hfound,Option.isSome_none] at hhead
      have hfound' : (call .tail c' s').1.found = none :=
        Option.isNone_iff_eq_none.mp (Option.isSome_eq_false_iff.mp hhead.symm)
      obtain ⟨lost,hlen,heq⟩ := call_lost hc hfound
      obtain ⟨lost',hlen',heq'⟩ := call_lost hc' hfound'
      refine ⟨hfound'.symm,ih ?_ htail hlosses⟩
      rw [hbytes,heq'] at heq
      exact (List.append_inj heq (by omega)).2.symm

end Calls

/-- A call that succeeds finds the shortest, however the stream is cut, and two runs of the same calls over
the same bytes find the same if each call succeeds in both or in neither, and loses equally much. -/
theorem read_until_framing (s s' : StreamState) :
    (∀ (c : Call) (pattern b : List UInt8), c.pattern = some pattern →
      (call .tail c s).1.found = some b → Splits pattern b s (call .tail c s).2) ∧
    ∀ cs cs' : List Call, List.Forall₂ SameCall cs cs' → s.pending++s.unread = s'.pending++s'.unread →
      (calls .tail cs s).1.map (fun r => r.found.isSome) = (calls .tail cs' s').1.map (fun r => r.found.isSome) →
      EqualLosses cs cs' s s' →
      (calls .tail cs s).1.map Result.found = (calls .tail cs' s').1.map Result.found :=
  ⟨fun _ _ _ hc hfound => call_found hc hfound,
    fun _ _ hcs hbytes hsucceed hlosses => calls_found_eq hcs hbytes hsucceed hlosses⟩

/-- One stream cut in two ways, and calls that time out when two of its bytes have come. -/
theorem read_until_framing_two :
    Splits [99] [97,98,99] (.opened [.piece [97],.piece [98,99,100]])
        (call .tail (.readUntil [99] ⟨2,false⟩) (.opened [.piece [97],.piece [98,99,100]])).2 ∧
      (calls .tail [.expect [122] ⟨1,false⟩,.readUntil [100] ⟨2,false⟩]
          (.opened [.piece [97,98],.piece [99,100]])).1.map Result.found =
        (calls .tail [.expect [122] ⟨2,false⟩,.readUntil [100] ⟨1,false⟩]
          (.opened [.piece [97],.piece [98],.piece [99,100]])).1.map Result.found :=
  ⟨(read_until_framing (.opened [.piece [97],.piece [98,99,100]]) (.opened [])).1 (.readUntil [99] ⟨2,false⟩)
      [99] [97,98,99] rfl (by decide),
    (read_until_framing (.opened [.piece [97,98],.piece [99,100]])
        (.opened [.piece [97],.piece [98],.piece [99,100]])).2 _ _
      (.cons (.expect ..) (.cons (.readUntil ..) .nil)) (by decide) (by decide) ⟨by decide,by decide,trivial⟩⟩

/-- The first call times out in both runs, with two bytes in hand in one and three in the other. -/
theorem timeout_depends_on_framing :
    (calls .tail [.readUntil [10] ⟨1,false⟩,.readUntil [10] ⟨1,false⟩]
        (.opened [.piece [97,98],.piece [99,100,10]])).1 = [.error .timedOut,.bytes [99,100,10]] ∧
      (calls .tail [.readUntil [10] ⟨1,false⟩,.readUntil [10] ⟨1,false⟩]
        (.opened [.piece [97,98,99],.piece [100,10]])).1 = [.error .timedOut,.bytes [100,10]] ∧
      ¬∀ (cs cs' : List Call) (s s' : StreamState), List.Forall₂ SameCall cs cs' →
        s.pending++s.unread = s'.pending++s'.unread →
        (calls .tail cs s).1.map (fun r => r.found.isSome) = (calls .tail cs' s').1.map (fun r => r.found.isSome) →
        (calls .tail cs s).1.map Result.found = (calls .tail cs' s').1.map Result.found := by
  refine ⟨by decide,by decide,fun h => ?_⟩
  have := h [.readUntil [10] ⟨1,false⟩,.readUntil [10] ⟨1,false⟩] [.readUntil [10] ⟨1,false⟩,.readUntil [10] ⟨1,false⟩]
    (.opened [.piece [97,98],.piece [99,100,10]]) (.opened [.piece [97,98,99],.piece [100,10]])
    (.cons (.readUntil ..) (.cons (.readUntil ..) .nil)) (by decide) (by decide)
  exact absurd this (by decide)

end Provium.Streams
