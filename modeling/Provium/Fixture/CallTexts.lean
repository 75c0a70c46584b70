import Provium.Fixture.ScanPlaces

/-! What a text of `push_file` has to look like for the scan to close it, to take it for opted out, and to
go on behind it. -/
namespace Provium.Fixture

/-- What stands between two quotation marks; a backslash keeps the byte behind it. -/
inductive Quoted (q : UInt8) : Bytes → Prop
  | nil : Quoted q []
  | escaped {b t} (h : Quoted q t) : Quoted q (92::b::t)
  | plain {b t} (hescape : b ≠ 92) (hmark : b ≠ q) (h : Quoted q t) : Quoted q (b::t)

/-- Every quotation mark is closed, and outside of the strings every parenthesis. Comments and long brackets
are a text like any other. -/
inductive Balanced : Bytes → Prop
  | nil : Balanced []
  | plain {b t} (hmark : quote b = false) (hopen : b ≠ 40) (hclose : b ≠ 41) (h : Balanced t) : Balanced (b::t)
  | string {q s t} (hmark : quote q) (hs : Quoted q s) (ht : Balanced t) : Balanced (q::(s++q::t))
  | parens {s t} (hs : Balanced s) (ht : Balanced t) : Balanced (40::(s++41::t))

/-- The text goes on so behind the first place of a marker. -/
def FirstAt (marker args behind : Bytes) : Prop :=
  ∃ u, args = u++(marker++behind) ∧ ∀ u' v', args = u'++(marker++v') → u.length ≤ u'.length

/-- Behind the first `auto_dep`, in a string or not, there is `= false`. -/
def LooksOptedOut (args : Bytes) : Prop :=
  ∃ (w w' : List Bytes) (rest : Bytes), (∀ x ∈ w, x ∈ spaces) ∧ (∀ x ∈ w', x ∈ spaces) ∧ ¬rest.head?.any wordByte ∧
    FirstAt (utf8 "auto_dep") args (w.flatten++61::(w'.flatten++(utf8 "false"++rest)))

/-- The text begins with a quotation mark, behind white space. -/
def Literal (args : Bytes) : Prop :=
  ∃ (w : List Bytes) (q : UInt8) (t : Bytes), (∀ x ∈ w, x ∈ spaces) ∧ quote q ∧ args = w.flatten++q::t

/-- Behind the name there are these arguments, up to a parenthesis so many bytes on. -/
def ClosedAt (after args : Bytes) (close : ℕ) : Prop :=
  ∃ (w : List Bytes) (rest : Bytes), (∀ x ∈ w, x ∈ spaces) ∧ after = w.flatten++40::(args++41::rest) ∧ Balanced args ∧
    close = w.flatten.length+1+args.length

/-- A text of a call that the scan passes over when it comes to it: a word with its arguments, which are
literal or look like the option. -/
def PassedOver (before after : Bytes) (close : ℕ) : Prop :=
  ¬before.getLast?.any wordByte ∧ ∃ args, ClosedAt after args close ∧ (LooksOptedOut args ∨ Literal args)

/-- The place is not within a call that is passed over and is itself reached. -/
def Reached (source : Bytes) (p : ℕ) : Prop :=
  ∀ u v close, source = u++(utf8 "push_file"++v) → (h : u.length < p) → Reached source u.length →
    PassedOver u v close → u.length+(utf8 "push_file").length+close ≤ p
termination_by p
decreasing_by exact h

section Parens
variable {q : UInt8} {d n : ℕ} {s : Bytes}

theorem quote_ne (hq : quote q) : q ≠ 92 ∧ q ≠ 40 ∧ q ≠ 41 := by
  have hcases : q = 34 ∨ q = 39 := by simpa [quote] using hq
  obtain rfl | rfl := hcases <;> decide

theorem findMatchingCloseParen_some (d : ℕ) (q c : UInt8) (s : Bytes) :
    findMatchingCloseParen d (some q) (c::s) =
      if c = 92 then match s with
        | [] => none
        | _::s => (findMatchingCloseParen d (some q) s).map (·+2)
      else (findMatchingCloseParen d (if c = q then none else some q) s).map (·+1) := by
  rw [findMatchingCloseParen.eq_def]
  rfl

theorem findMatchingCloseParen_quoted (hq : quote q) (hs : Quoted q s) (d : ℕ) (rest : Bytes) :
    findMatchingCloseParen d (some q) (s++q::rest) =
      (findMatchingCloseParen d none rest).map (·+(s.length+1)) := by
  induction hs with
  | nil =>
    rw [List.nil_append,findMatchingCloseParen_some,if_neg (quote_ne hq).1,if_pos rfl]
    rfl
  | @escaped b t _ ih =>
    rw [List.cons_append,List.cons_append,findMatchingCloseParen_some,if_pos rfl]
    dsimp only
    rw [ih,Option.map_map]
    rfl
  | @plain b t hescape hmark _ ih =>
    rw [List.cons_append,findMatchingCloseParen_some,if_neg hescape,if_neg hmark,ih,Option.map_map]
    rfl

theorem findMatchingCloseParen_balanced (hs : Balanced s) (hd : d ≠ 0) (rest : Bytes) :
    findMatchingCloseParen d none (s++rest) = (findMatchingCloseParen d none rest).map (·+s.length) := by
  induction hs generalizing d rest with
  | nil => exact Option.map_id'.symm
  | @plain b t hmark hopen hclose _ ih =>
    rw [List.cons_append,findMatchingCloseParen,if_neg (by simp [hmark]),if_neg hopen,if_neg hclose,
      ih hd,Option.map_map]
    rfl
  | @string q s t hmark hs _ ih =>
    have heq : q::(s++q::t)++rest = q::(s++q::(t++rest)) := by simp
    rw [heq,findMatchingCloseParen,if_pos hmark,findMatchingCloseParen_quoted hmark hs,ih hd,
      Option.map_map,Option.map_map]
    congr 1
    funext n
    simp only [Function.comp_apply,List.length_cons,List.length_append]
    omega
  | @parens s t _ _ ihs iht =>
    have heq : 40::(s++41::t)++rest = 40::(s++41::(t++rest)) := by simp
    have hdeep : d+1 ≠ 1 := by omega
    rw [heq,findMatchingCloseParen,if_neg (by decide),if_pos rfl,ihs (Nat.succ_ne_zero d),
      findMatchingCloseParen,if_neg (by decide),if_neg (by decide),if_pos rfl,if_neg hdeep,
      Nat.succ_sub_one,iht hd,Option.map_map,Option.map_map,Option.map_map]
    congr 1
    funext n
    simp only [Function.comp_apply,List.length_cons,List.length_append]
    omega

/-- A string that is left is closed first. -/
theorem quoted_of_find (h : findMatchingCloseParen d (some q) s = some n) :
    ∃ x rest m, s = x++q::rest ∧ Quoted q x ∧ findMatchingCloseParen d none rest = some m ∧
      n = x.length+1+m := by
  induction hlen : s.length using Nat.strong_induction_on generalizing s n with
  | _ len ih =>
    match s with
    | [] => cases h
    | c::s =>
      rw [findMatchingCloseParen_some] at h
      split_ifs at h with hescape hmark
      · match s with
        | [] => cases h
        | b::s =>
          obtain ⟨m,hm,rfl⟩ := Option.map_eq_some_iff.mp h
          obtain ⟨x,rest,k,rfl,hx,hk,rfl⟩ := ih s.length (by rw [← hlen]; simp) hm rfl
          refine ⟨92::b::x,rest,k,by rw [hescape]; rfl,.escaped hx,hk,?_⟩
          rw [List.length_cons,List.length_cons]
          omega
      · obtain ⟨m,hm,rfl⟩ := Option.map_eq_some_iff.mp h
        refine ⟨[],s,m,by rw [hmark]; rfl,.nil,hm,?_⟩
        rw [List.length_nil]
        omega
      · obtain ⟨m,hm,rfl⟩ := Option.map_eq_some_iff.mp h
        obtain ⟨x,rest,k,rfl,hx,hk,rfl⟩ := ih s.length (by rw [← hlen]; simp) hm rfl
        refine ⟨c::x,rest,k,rfl,.plain hescape hmark hx,hk,?_⟩
        rw [List.length_cons]
        omega

/-- From within one parenthesis more, a text that is balanced leads to where it closes. -/
theorem balanced_of_find (h : findMatchingCloseParen (d+1) none s = some n) :
    ∃ args rest, s = args++41::rest ∧ Balanced args ∧ if d = 0 then n = args.length
      else ∃ m, findMatchingCloseParen d none rest = some m ∧ n = args.length+1+m := by
  induction hlen : s.length using Nat.strong_induction_on generalizing s n d with
  | _ len ih =>
    match s with
    | [] => cases h
    | c::s =>
      have hs : s.length < len := by rw [← hlen]; simp
      -- a balanced text in front of what is left
      have hgo : ∀ {x t : Bytes} {m : ℕ}, c::s = x++t → t.length < len →
          (∀ {u}, Balanced u → Balanced (x++u)) → findMatchingCloseParen (d+1) none t = some m →
          n = x.length+m → ∃ args rest, c::s = args++41::rest ∧ Balanced args ∧
            if d = 0 then n = args.length
            else ∃ m, findMatchingCloseParen d none rest = some m ∧ n = args.length+1+m := by
        intro x t m heq hlt hx hm hn
        obtain ⟨args,rest,rfl,hargs,hclose⟩ := ih t.length hlt hm rfl
        refine ⟨x++args,rest,by rw [heq,List.append_assoc],hx hargs,?_⟩
        rw [List.length_append]
        split_ifs at hclose ⊢ with hd
        · omega
        · obtain ⟨k,hk,rfl⟩ := hclose
          exact ⟨k,hk,by omega⟩
      rw [findMatchingCloseParen] at h
      split_ifs at h with hmark hopen hclose hdeep
      · obtain ⟨m,hm,rfl⟩ := Option.map_eq_some_iff.mp h
        obtain ⟨x,rest,k,rfl,hx,hk,rfl⟩ := quoted_of_find hm
        refine hgo (x := c::(x++[c])) (by simp) ?_ (fun hu => ?_) hk ?_
        · refine Nat.lt_trans ?_ hs
          simp
          omega
        · have := Balanced.string hmark hx hu
          simpa using this
        · simp
          omega
      · obtain ⟨m,hm,rfl⟩ := Option.map_eq_some_iff.mp h
        obtain ⟨x,rest,rfl,hx,hclose⟩ := ih s.length hs hm rfl
        rw [if_neg (Nat.succ_ne_zero d)] at hclose
        obtain ⟨k,hk,rfl⟩ := hclose
        refine hgo (x := 40::(x++[41])) (by simp [hopen]) ?_ (fun hu => ?_) hk ?_
        · refine Nat.lt_trans ?_ hs
          simp
          omega
        · have := Balanced.parens hx hu
          simpa using this
        · simp
          omega
      · cases h
        have hzero : d = 0 := by omega
        exact ⟨[],s,by rw [hclose]; rfl,.nil,by rw [if_pos hzero]; rfl⟩
      · obtain ⟨m,hm,rfl⟩ := Option.map_eq_some_iff.mp h
        have hpos : d ≠ 0 := by omega
        rw [Nat.add_sub_cancel] at hm
        refine ⟨[],s,by rw [hclose]; rfl,.nil,?_⟩
        rw [if_neg hpos]
        refine ⟨m,hm,?_⟩
        rw [List.length_nil]
        omega
      · obtain ⟨m,hm,rfl⟩ := Option.map_eq_some_iff.mp h
        refine hgo (x := [c]) rfl hs (fun hu => ?_) hm ?_
        · exact .plain (by simpa using hmark) hopen hclose hu
        · rw [List.length_singleton]
          omega

/-- The parenthesis that is found is the one behind a balanced text. -/
theorem findMatchingCloseParen_eq_some_iff :
    findMatchingCloseParen 1 none s = some n ↔
      ∃ args rest, s = args++41::rest ∧ Balanced args ∧ n = args.length := by
  constructor
  · intro h
    obtain ⟨args,rest,hs,hargs,hn⟩ := balanced_of_find h
    exact ⟨args,rest,hs,hargs,hn⟩
  · rintro ⟨args,rest,rfl,hargs,rfl⟩
    rw [findMatchingCloseParen_balanced hargs one_ne_zero,findMatchingCloseParen,if_neg (by decide),
      if_neg (by decide),if_pos rfl,if_pos rfl,Option.map_some,Nat.zero_add]

end Parens

section Options

theorem firstAt_unique {marker args v w : Bytes} (hv : FirstAt marker args v) (hw : FirstAt marker args w) :
    v = w := by
  obtain ⟨u,hu,hfirst⟩ := hv
  obtain ⟨u',hu',hfirst'⟩ := hw
  have hlen : u.length = u'.length := Nat.le_antisymm (hfirst _ _ hu') (hfirst' _ _ hu)
  obtain ⟨-,h⟩ := List.append_inj (hu.symm.trans hu') hlen
  exact List.append_cancel_left h

theorem afterFirst_eq_some_iff {marker args v : Bytes} (hmarker : marker ≠ []) :
    afterFirst marker args = some v ↔ FirstAt marker args v := by
  have hfind : ∀ w, afterFirst marker args = some w → FirstAt marker args w := by
    intro w h
    induction args with
    | nil => cases h
    | cons c s ih =>
      rw [afterFirst] at h
      split_ifs at h with hbefore
      · cases h
        refine ⟨[],?_,fun _ _ _ => Nat.zero_le _⟩
        obtain ⟨t,ht⟩ := List.isPrefixOf_iff_prefix.mp hbefore
        rw [← ht,List.drop_left]
        rfl
      · obtain ⟨u,hu,hfirst⟩ := ih h
        refine ⟨c::u,by rw [hu]; rfl,?_⟩
        intro u' v' hu'
        cases u' with
        | nil =>
          refine absurd (List.isPrefixOf_iff_prefix.mpr ?_) hbefore
          exact ⟨v',hu'.symm⟩
        | cons b u' =>
          obtain ⟨-,hs⟩ := List.cons.inj hu'
          exact Nat.succ_le_succ (hfirst u' v' hs)
  refine ⟨hfind v,fun h => ?_⟩
  cases hsome : afterFirst marker args with
  | some w => rw [firstAt_unique h (hfind w hsome)]
  | none =>
    exfalso
    obtain ⟨u,rfl,-⟩ := h
    clear hfind
    induction u with
    | nil =>
      obtain ⟨b,t,rfl⟩ := List.exists_cons_of_ne_nil hmarker
      rw [List.nil_append,List.cons_append,afterFirst,if_pos] at hsome
      · cases hsome
      · exact List.isPrefixOf_iff_prefix.mpr ⟨v,rfl⟩
    | cons c u ih =>
      rw [List.cons_append,afterFirst] at hsome
      split_ifs at hsome
      exact ih hsome

theorem trimStart_eq (s : Bytes) : ∃ w : List Bytes, (∀ x ∈ w, x ∈ spaces) ∧ s = w.flatten++trimStart s :=
  trimSpaces_eq s.length s

theorem hasAutoDepFalse_iff (args : Bytes) : hasAutoDepFalse args = true ↔ LooksOptedOut args := by
  have hmarker : utf8 "auto_dep" ≠ [] := by decide +kernel
  have hfalse : utf8 "false" = [102,97,108,115,101] := by decide +kernel
  unfold hasAutoDepFalse
  constructor
  · intro h
    cases hfirst : afterFirst (utf8 "auto_dep") args with
    | none =>
      rw [hfirst] at h
      cases h
    | some v =>
      rw [hfirst,Option.map_some] at h
      split at h
      · next c rest htrim =>
        obtain ⟨w,hw,hv⟩ := trimStart_eq v
        obtain ⟨w',hw',hrest⟩ := trimStart_eq rest
        rw [Option.some.inj htrim] at hv
        simp only [Bool.and_eq_true,beq_iff_eq,Bool.not_eq_true'] at h
        obtain ⟨⟨rfl,hbefore⟩,hend⟩ := h
        obtain ⟨t,ht⟩ := List.isPrefixOf_iff_prefix.mp hbefore
        have hdrop : (trimStart rest).drop 5 = t := by
          rw [← ht,hfalse]
          rfl
        rw [hdrop] at hend
        refine ⟨w,w',t,hw,hw',by rw [hend]; decide,?_⟩
        rw [ht,← hrest,← hv]
        exact (afterFirst_eq_some_iff hmarker).mp hfirst
      · cases h
  · rintro ⟨w,w',t,hw,hw',hend,hfirst⟩
    have htrim : trimStart (w'.flatten++(utf8 "false"++t)) = utf8 "false"++t := by
      rw [hfalse]
      exact trimStart_flatten hw' (by decide) (by decide)
    rw [(afterFirst_eq_some_iff hmarker).mpr hfirst,Option.map_some,
      trimStart_flatten hw (by decide) (by decide)]
    dsimp only
    rw [htrim]
    have hbefore : (utf8 "false").isPrefixOf (utf8 "false"++t) = true :=
      List.isPrefixOf_iff_prefix.mpr (List.prefix_append _ _)
    have hdrop : (utf8 "false"++t).drop 5 = t := by
      rw [hfalse]
      rfl
    rw [hbefore,hdrop]
    simpa using hend

end Options

section Passing

/-- What the scan makes of a call that is closed. -/
theorem pushedFile_closedAt {prev : Option UInt8} (hprev : ¬prev.any wordByte) {after args : Bytes} {close : ℕ}
    (h : ClosedAt after args close) (hpass : LooksOptedOut args ∨ Literal args) :
    (pushedFile prev after).2 = close := by
  obtain ⟨w,rest,hw,rfl,hargs,rfl⟩ := h
  have hfind := findMatchingCloseParen_eq_some_iff.mpr ⟨args,rest,rfl,hargs,rfl⟩
  have hlen : (w.flatten++40::(args++41::rest)).length-(args++41::rest).length+args.length =
      w.flatten.length+1+args.length := by
    simp
    omega
  rw [pushedFile,if_neg hprev,openCall_flatten hw]
  dsimp only
  rw [hfind]
  dsimp only
  rw [List.take_left,hlen]
  split_ifs with hopted
  · rfl
  · obtain hlooks | ⟨w',q,t,hw',hq,rfl⟩ := hpass
    · exact absurd ((hasAutoDepFalse_iff args).mpr hlooks) hopted
    · rw [List.append_assoc,List.cons_append,openQuote_flatten hw' hq]

/-- A quotation mark that stands first stands in the arguments: the parenthesis is neither one nor space. -/
theorem literal_of_quote {args rest t : Bytes} {w : List Bytes} {q : UInt8} (hw : ∀ x ∈ w, x ∈ spaces)
    (hq : quote q) (h : args++41::rest = w.flatten++q::t) : Literal args := by
  have hspace : ∀ x ∈ spaces, 41 ∉ x := by decide
  have hmark : q ≠ 41 := (quote_ne hq).2.2
  obtain ⟨u,hu,ht⟩ | ⟨u,hu,ht⟩ := List.append_eq_append_iff.mp h
  · cases u with
    | nil => exact absurd (List.cons.inj ht).1.symm hmark
    | cons b u =>
      obtain ⟨rfl,-⟩ := List.cons.inj ht
      have hmem : (41 : UInt8) ∈ w.flatten := by rw [hu]; simp
      obtain ⟨x,hx,h41⟩ := List.mem_flatten.mp hmem
      exact absurd h41 (hspace x (hw x hx))
  · cases u with
    | nil => exact absurd (List.cons.inj ht).1 hmark
    | cons b u =>
      obtain ⟨rfl,-⟩ := List.cons.inj ht
      exact ⟨w,q,u,hw,hq,hu⟩

/-- It goes on behind the marker else. -/
theorem pushedFile_or (before after : Bytes) : (pushedFile before.getLast? after).2 = 0 ∨
    PassedOver before after (pushedFile before.getLast? after).2 := by
  by_cases hprev : before.getLast?.any wordByte
  · rw [pushedFile,if_pos hprev]
    exact .inl rfl
  cases hcall : openCall after with
  | none =>
    rw [pushedFile,if_neg hprev,hcall]
    exact .inl rfl
  | some body =>
    cases hfind : findMatchingCloseParen 1 none body with
    | none =>
      rw [pushedFile,if_neg hprev,hcall]
      dsimp only
      rw [hfind]
      exact .inl rfl
    | some n =>
      obtain ⟨w,hw,rfl⟩ := openCall_eq_some hcall
      obtain ⟨args,rest,rfl,hargs,rfl⟩ := findMatchingCloseParen_eq_some_iff.mp hfind
      have hclosed : ClosedAt (w.flatten++40::(args++41::rest)) args (w.flatten.length+1+args.length) :=
        ⟨w,rest,hw,rfl,hargs,rfl⟩
      by_cases hpass : LooksOptedOut args ∨ Literal args
      · rw [pushedFile_closedAt hprev hclosed hpass]
        exact .inr ⟨hprev,args,hclosed,hpass⟩
      · have hopted : ¬hasAutoDepFalse args = true := fun h => hpass (.inl ((hasAutoDepFalse_iff args).mp h))
        have hquote : openQuote (args++41::rest) = none := by
          cases hq : openQuote (args++41::rest) with
          | none => rfl
          | some e =>
            obtain ⟨w',hw',hmark,heq⟩ := @openQuote_eq_some _ e.2 e.1 hq
            exact absurd (.inr (literal_of_quote hw' hmark heq)) hpass
        rw [pushedFile,if_neg hprev,hcall]
        dsimp only
        rw [hfind]
        dsimp only
        rw [List.take_left,if_neg hopted,hquote]
        exact .inl rfl

/-- A call that is passed over ends in one place. -/
theorem PassedOver.close_eq {before after : Bytes} {close : ℕ} (h : PassedOver before after close) :
    (pushedFile before.getLast? after).2 = close := by
  obtain ⟨hword,args,hclosed,hpass⟩ := h
  exact pushedFile_closedAt hword hclosed hpass

/-- The name does not begin within itself. -/
theorem pushFile_apart {source u v before after : Bytes} (hu : source = u++(utf8 "push_file"++v))
    (hs : source = before++(utf8 "push_file"++after)) (hlt : u.length < before.length) :
    u.length+(utf8 "push_file").length ≤ before.length := by
  have hname : utf8 "push_file" = [112,117,115,104,95,102,105,108,101] := by decide +kernel
  have hborder : ∀ k < 9, 0 < k → ([112,117,115,104,95,102,105,108,101] : Bytes)[k]? ≠ some 112 := by decide
  by_contra hover
  rw [hname] at hover hu hs
  have hat : source[before.length]? = some 112 := by
    rw [hs,List.getElem?_append_right le_rfl,Nat.sub_self]
    rfl
  have hlen : before.length-u.length < 9 := by
    simp only [List.length_cons,List.length_nil] at hover
    omega
  rw [hu,List.getElem?_append_right hlt.le,List.getElem?_append_left hlen] at hat
  exact hborder _ hlen (by omega) hat

/-- The scan comes to the places that are reached. -/
theorem comes_iff_reached {source before after : Bytes} (hs : source = before++(utf8 "push_file"++after)) :
    Comes (utf8 "push_file") pushedFile source before.length ↔ Reached source before.length := by
  induction hlen : before.length using Nat.strong_induction_on generalizing before after with
  | _ p ih =>
    subst hlen
    rw [Comes,Reached]
    constructor
    · intro h u v close hu hlt hreached hpassed
      rw [← hpassed.close_eq]
      exact h u v hu hlt ((ih u.length hlt hu rfl).mpr hreached)
    · intro h u v hu hlt hcomes
      obtain hzero | hpassed := pushedFile_or u v
      · rw [hzero,Nat.add_zero]
        exact pushFile_apart hu hs hlt
      · exact h u v _ hu hlt ((ih u.length hlt hu rfl).mp hcomes) hpassed

end Passing

end Provium.Fixture
