import Provium.Fixture.ScanPlaces

/-! The scanners with the byte offsets that they compute, `fixture.rs`. Nothing comes of one that cuts a text
outside it or where no character begins, or that takes more steps than its fuel. -/
namespace Provium.Fixture.Offsets
open Lib.ByteText

/-- The check of the byte before a marker. -/
def withinWord (source : Bytes) (abs : ℕ) : Option Bool :=
  if 0 < abs then source[abs-1]?.map wordByte else some false

/-- `body.find(quote)` and what is cut there. -/
def literal (q : UInt8) (body : Bytes) : Option (Option Bytes) :=
  match find [q] body with
  | some n => (sliceTo body n).map some
  | none => some none

/-- The `while let` of the scanners: what a call at a place names, and the offset from which it goes on. -/
def scanLoop (marker : Bytes) (call : Bytes → ℕ → Option (Option Bytes × ℕ)) (source : Bytes) :
    ℕ → ℕ → Option (List (ℕ × Bytes))
  | 0,_ => none
  | fuel+1,idx => (sliceFrom source idx).bind fun rest =>
    match find marker rest with
    | none => some []
    | some found => (call source (idx+found)).bind fun r =>
      (scanLoop marker call source fuel r.2).map (r.1.toList.map (idx+found,·)++·)

def quotedArg (marker source : Bytes) (abs : ℕ) : Option (Option Bytes × ℕ) :=
  (withinWord source abs).bind fun word =>
    if word then some (none,abs+marker.length)
    else (sliceFrom source (abs+marker.length)).bind fun after =>
      match (openCall after).bind openQuote with
      | none => some (none,abs+marker.length)
      | some (q,body) => (literal q body).map (·,abs+marker.length)

/-- `scan_quoted_arg_with_pos` -/
def scanQuotedArgWithPos (fuel : ℕ) (source : Bytes) (marker : String) : Option (List (ℕ × Bytes)) :=
  scanLoop (utf8 marker) (quotedArg (utf8 marker)) source fuel 0

/-- The inner loop of `find_matching_close_paren`, up to behind the string. -/
def skipString (source : Bytes) (q : UInt8) : ℕ → ℕ → Option ℕ
  | 0,_ => none
  | fuel+1,i => match source[i]? with
    | none => some i
    | some c =>
      if c = 92 then skipString source q fuel (i+2)
      else if c = q then some (i+1)
      else skipString source q fuel (i+1)

/-- The depth is an `i32`. -/
def findMatchingCloseParen (source : Bytes) : ℕ → Int32 → ℕ → Option (Option ℕ)
  | 0,_,_ => none
  | fuel+1,depth,i => match source[i]? with
    | none => some none
    | some c =>
      if quote c then (skipString source c fuel (i+1)).bind (findMatchingCloseParen source fuel depth)
      else if c = 40 then findMatchingCloseParen source fuel (depth+1) (i+1)
      else if c = 41 then
        if depth-1 = 0 then some (some i) else findMatchingCloseParen source fuel (depth-1) (i+1)
      else findMatchingCloseParen source fuel depth (i+1)

/-- What follows `=`, without the space around it. -/
def assigned (rest : Bytes) : Option Bytes :=
  match trimStart rest with
  | c::rest => if c = 61 then some (trimStart rest) else none
  | [] => none

def hasAutoDepFalse (args : Bytes) : Option Bool :=
  match find (utf8 "auto_dep") args with
  | none => some false
  | some idx => (sliceFrom args (idx+(utf8 "auto_dep").length)).bind fun rest =>
    match assigned rest with
    | none => some false
    | some rest =>
      if (utf8 "false").isPrefixOf rest then (sliceFrom rest 5).map fun behind => !behind.head?.any wordByte
      else some false

def pushedFile (fuel : ℕ) (marker source : Bytes) (abs : ℕ) : Option (Option Bytes × ℕ) :=
  (withinWord source abs).bind fun word =>
    if word then some (none,abs+marker.length)
    else (sliceFrom source (abs+marker.length)).bind fun after =>
      match openCall after with
      | none => some (none,abs+marker.length)
      | some afterOpen =>
        -- the difference of the pointers, as what follows the parenthesis is the end of the source
        let callBodyStart := source.length-afterOpen.length
        (findMatchingCloseParen source fuel 1 callBodyStart).bind fun p =>
          match p with
          | none => some (none,abs+marker.length)
          | some close => (slice source callBodyStart close).bind fun callArgs =>
            (hasAutoDepFalse callArgs).bind fun optOut =>
              if optOut then some (none,close)
              else match openQuote afterOpen with
                | none => some (none,abs+marker.length)
                | some (q,body) => (literal q body).map (·,close)

def scanPushFileCalls (fuel : ℕ) (source : Bytes) : Option (List (ℕ × Bytes)) :=
  scanLoop (utf8 "push_file") (pushedFile fuel (utf8 "push_file")) source fuel 0

/-- `sort_by_key`, and the names by themselves. -/
def inOrder (hits : List (ℕ × Bytes)) : List Bytes :=
  (hits.insertionSort fun a b => a.1 ≤ b.1).map Prod.snd

def scanFixtureDeps (fuel : ℕ) (source : Bytes) : Option (List Bytes) :=
  (scanQuotedArgWithPos fuel source "vm_fixture").bind fun vm =>
    (scanQuotedArgWithPos fuel source "lab_fixture").map fun lab => inOrder (vm++lab)

def scanRequireDeps (fuel : ℕ) (source : Bytes) : Option (List Bytes) :=
  (scanQuotedArgWithPos fuel source "require").map fun hits => hits.map Prod.snd

def scanExternalFileDeps (fuel : ℕ) (source : Bytes) : Option (List Bytes) :=
  (scanPushFileCalls fuel source).bind fun pushed =>
    (scanQuotedArgWithPos fuel source "depends_on_file").map fun depends => inOrder (pushed++depends)

/-! ## What the helpers cut off -/

/-- The string up to the next mark like the one that opens it. -/
theorem literal_total {q : UInt8} (hq : quote q) (body : Bytes) :
    ∃ r, literal q body = some r ∧ ∀ x ∈ r, q ∉ x ∧ ∃ rest, body = x++q::rest := by
  unfold literal
  cases hfind : find [q] body with
  | none => exact ⟨none,rfl,fun x hx => by cases hx⟩
  | some n =>
    obtain ⟨rest,hbody,hno,hle⟩ := find_byte hfind
    have hlen : (body.take n).length = n := List.length_take_of_le hle
    have hcut : sliceTo (body.take n++q::rest) (body.take n).length = some (body.take n) :=
      sliceTo_append (boundary_ascii (quote_ascii hq))
    rw [← hbody,hlen] at hcut
    dsimp only
    rw [hcut]
    refine ⟨some (body.take n),rfl,?_⟩
    intro x hx
    cases hx
    exact ⟨hno,rest,hbody⟩

theorem withinWord_append (u v : Bytes) : withinWord (u++v) u.length = some (u.getLast?.any wordByte) := by
  obtain rfl | ⟨front,b,rfl⟩ := List.eq_nil_or_concat' u
  · rfl
  · have hlen : (front++[b]).length = front.length+1 := by simp
    rw [withinWord,hlen,if_pos (Nat.succ_pos _),Nat.add_sub_cancel,List.getLast?_concat,List.append_assoc,
      List.getElem?_append_right le_rfl,Nat.sub_self]
    rfl

/-! ## The matching parenthesis -/

section Paren
variable (source : Bytes)

/-- The offset may be one behind the end, as two bytes are skipped at a backslash. -/
theorem skipString_total (q : UInt8) (i : ℕ) :
    ∃ j, i ≤ j ∧ ∀ fuel > source.length-i, skipString source q fuel i = some j := by
  induction hleft : source.length-i using Nat.strong_induction_on generalizing i with
  | _ left ih =>
    obtain hend | hlt := Nat.lt_or_ge i source.length |>.symm
    · refine ⟨i,le_rfl,fun fuel hfuel => ?_⟩
      obtain ⟨fuel,rfl⟩ : ∃ m, fuel = m+1 := ⟨fuel-1,by omega⟩
      rw [skipString,List.getElem?_eq_none hend]
    · -- each branch goes on at an offset further on, or stops there
      have hstep : ∀ next, (∀ fuel, skipString source q (fuel+1) i = skipString source q fuel next) → i < next →
          ∃ j, i ≤ j ∧ ∀ fuel > left, skipString source q fuel i = some j := by
        intro next heq hnext
        obtain ⟨j,hj,hrun⟩ := ih (source.length-next) (by omega) next rfl
        refine ⟨j,by omega,fun fuel hfuel => ?_⟩
        obtain ⟨fuel,rfl⟩ : ∃ m, fuel = m+1 := ⟨fuel-1,by omega⟩
        rw [heq]
        exact hrun fuel (by omega)
      have hget := List.getElem?_eq_getElem hlt
      by_cases hslash : source[i] = 92
      · exact hstep (i+2) (fun fuel => by rw [skipString,hget]; exact if_pos hslash) (by omega)
      · by_cases hclose : source[i] = q
        · refine ⟨i+1,Nat.le_succ i,fun fuel hfuel => ?_⟩
          obtain ⟨fuel,rfl⟩ : ∃ m, fuel = m+1 := ⟨fuel-1,by omega⟩
          rw [skipString,hget]
          exact (if_neg hslash).trans (if_pos hclose)
        · exact hstep (i+1) (fun fuel => by rw [skipString,hget]; exact (if_neg hslash).trans (if_neg hclose))
            (Nat.lt_succ_self i)

/-- What is found is a parenthesis, however deep the count has gone. -/
theorem findMatchingCloseParen_total (depth : Int32) (i : ℕ) :
    ∃ r, (∀ fuel > source.length-i, findMatchingCloseParen source fuel depth i = some r) ∧
      ∀ j ∈ r, i ≤ j ∧ source[j]? = some 41 := by
  induction hleft : source.length-i using Nat.strong_induction_on generalizing depth i with
  | _ left ih =>
    obtain hend | hlt := Nat.lt_or_ge i source.length |>.symm
    · refine ⟨none,fun fuel hfuel => ?_,fun j hj => by cases hj⟩
      obtain ⟨fuel,rfl⟩ : ∃ m, fuel = m+1 := ⟨fuel-1,by omega⟩
      rw [findMatchingCloseParen,List.getElem?_eq_none hend]
    · have hstep : ∀ depth' next, i < next → (∀ fuel ≥ left, findMatchingCloseParen source (fuel+1) depth i =
          findMatchingCloseParen source fuel depth' next) →
          ∃ r, (∀ fuel > left, findMatchingCloseParen source fuel depth i = some r) ∧
            ∀ j ∈ r, i ≤ j ∧ source[j]? = some 41 := by
        intro depth' next hnext heq
        obtain ⟨r,hrun,hr⟩ := ih (source.length-next) (by omega) depth' next rfl
        refine ⟨r,fun fuel hfuel => ?_,fun j hj => ⟨by have := (hr j hj).1; omega,(hr j hj).2⟩⟩
        obtain ⟨fuel,rfl⟩ : ∃ m, fuel = m+1 := ⟨fuel-1,by omega⟩
        rw [heq fuel (by omega)]
        exact hrun fuel (by omega)
      have hget := List.getElem?_eq_getElem hlt
      by_cases hquote : quote source[i]
      · obtain ⟨j,hj,hskip⟩ := skipString_total source source[i] (i+1)
        refine hstep depth j (by omega) fun fuel hfuel => ?_
        rw [findMatchingCloseParen,hget]
        dsimp only
        rw [if_pos hquote,hskip fuel (by omega)]
        rfl
      · by_cases hopen : source[i] = 40
        · refine hstep (depth+1) (i+1) (Nat.lt_succ_self i) fun fuel _ => ?_
          rw [findMatchingCloseParen,hget]
          exact (if_neg hquote).trans (if_pos hopen)
        · by_cases hclose : source[i] = 41
          · by_cases hzero : depth-1 = 0
            · refine ⟨some i,fun fuel hfuel => ?_,?_⟩
              · obtain ⟨fuel,rfl⟩ : ∃ m, fuel = m+1 := ⟨fuel-1,by omega⟩
                rw [findMatchingCloseParen,hget]
                dsimp only
                rw [if_neg hquote,if_neg hopen,if_pos hclose,if_pos hzero]
              · intro j hj
                cases hj
                exact ⟨le_rfl,by rw [hget,hclose]⟩
            · refine hstep (depth-1) (i+1) (Nat.lt_succ_self i) fun fuel _ => ?_
              rw [findMatchingCloseParen,hget]
              dsimp only
              rw [if_neg hquote,if_neg hopen,if_pos hclose,if_neg hzero]
          · refine hstep depth (i+1) (Nat.lt_succ_self i) fun fuel _ => ?_
            rw [findMatchingCloseParen,hget]
            dsimp only
            rw [if_neg hquote,if_neg hopen,if_neg hclose]

end Paren

/-! ## One place -/

theorem assigned_suffix {s t : Bytes} (h : assigned s = some t) : ∃ a, s = a++t := by
  obtain ⟨w,-,heq⟩ := trimSpaces_eq s.length s
  unfold assigned at h
  split at h
  · next c rest htrim =>
    split_ifs at h with hc
    obtain ⟨w',-,heq'⟩ := trimSpaces_eq rest.length rest
    rw [trimStart] at htrim
    rw [trimStart] at h
    obtain rfl := Option.some.inj h
    refine ⟨w.flatten++c::w'.flatten,?_⟩
    rw [List.append_assoc,List.cons_append,← heq',← htrim,← heq]
  · cases h

theorem hasAutoDepFalse_total {args : Bytes} (hwhole : Whole args) : ∃ b, hasAutoDepFalse args = some b := by
  unfold hasAutoDepFalse
  cases hfind : find (utf8 "auto_dep") args with
  | none => exact ⟨false,rfl⟩
  | some idx =>
    obtain ⟨⟨v,hv⟩,hle,-⟩ := find_spec hfind
    have hlen : (args.take idx).length = idx := List.length_take_of_le hle
    have hwhole' := hwhole
    rw [hv] at hwhole'
    have hcut := sliceFrom_behind (by decide +kernel) (by decide +kernel) hwhole'
    rw [← hv,hlen] at hcut
    dsimp only
    rw [hcut,Option.bind_some]
    cases hassigned : assigned v with
    | none => exact ⟨false,rfl⟩
    | some rest =>
      dsimp only
      split_ifs with hfalse
      · obtain ⟨behind,rfl⟩ := List.isPrefixOf_iff_prefix.mp hfalse
        obtain ⟨a,rfl⟩ := assigned_suffix hassigned
        have hcut := @sliceFrom_behind [] behind (utf8 "false") (by decide +kernel) (by decide +kernel)
          hwhole'.suffix.suffix.suffix
        have hfive : ([] : Bytes).length+(utf8 "false").length = 5 := by decide +kernel
        rw [hfive,List.nil_append] at hcut
        rw [hcut]
        exact ⟨_,rfl⟩
      · exact ⟨false,rfl⟩

/-- What may be told of a place of the marker, and where the scan may go on. -/
structure Told (marker source : String) (before : Bytes) (r : Option Bytes × ℕ) : Prop where
  ahead : before.length < r.2
  inside : r.2 ≤ (utf8 source).length
  boundary : isCharBoundary (utf8 source) r.2
  named : ∀ x ∈ r.1, ∃ name args, utf8 name = x ∧ LiteralCall marker before args name (utf8 source)

section Place
variable {marker source : String} {u v : Bytes}

/-- The scan may go on behind the marker. -/
theorem told_behind (hmarker : utf8 marker ≠ [] ∧ ∀ b ∈ utf8 marker, b < 128)
    (h : utf8 source = u++(utf8 marker++v)) {r : Option Bytes}
    (hr : ∀ x ∈ r, ∃ name args, utf8 name = x ∧ LiteralCall marker u args name (utf8 source)) :
    Told marker source u (r,u.length+(utf8 marker).length) := by
  have hpos := List.length_pos_iff.mpr hmarker.1
  refine ⟨Nat.lt_add_of_pos_right hpos,?_,?_,hr⟩
  · rw [h,List.length_append,List.length_append]
    exact Nat.add_le_add_left (Nat.le_add_right _ _) _
  · have hwhole := whole_utf8 source
    change Whole (utf8 source) at hwhole
    obtain ⟨front,q,hlast⟩ := List.eq_nil_or_concat' (utf8 marker) |>.resolve_left hmarker.1
    have heq : utf8 source = (u++front)++q::v := by rw [h,hlast]; simp
    rw [heq] at hwhole
    have hb := boundary_behind hwhole (hmarker.2 q (by simp [hlast]))
    rw [← heq] at hb
    rw [hlast,List.length_append,List.length_singleton,← Nat.add_assoc,← List.length_append]
    exact hb

theorem sliceFrom_marker (hmarker : utf8 marker ≠ [] ∧ ∀ b ∈ utf8 marker, b < 128)
    (h : utf8 source = u++(utf8 marker++v)) : sliceFrom (utf8 source) (u.length+(utf8 marker).length) = some v := by
  have hwhole := whole_utf8 source
  change Whole (utf8 source) at hwhole
  rw [h] at hwhole ⊢
  exact sliceFrom_behind hmarker.2 hmarker.1 hwhole

/-- A literal in the call is the argument that the marker is called with. -/
theorem literalCall_of_cut {afterOpen body x : Bytes} {q : UInt8} (h : utf8 source = u++(utf8 marker++v))
    (hword : ¬u.getLast?.any wordByte) (hcall : openCall v = some afterOpen)
    (hquote : openQuote afterOpen = some (q,body)) (hx : q ∉ x ∧ ∃ rest, body = x++q::rest) :
    ∃ name args, utf8 name = x ∧ LiteralCall marker u args name (utf8 source) := by
  obtain ⟨hno,rest,rfl⟩ := hx
  obtain ⟨w,hw,rfl⟩ := openCall_eq_some hcall
  obtain ⟨w',hw',hq,rfl⟩ := openQuote_eq_some hquote
  obtain ⟨name,rfl⟩ := @utf8_between source (u++(utf8 marker++(w.flatten++40::w'.flatten))) x rest q hq
    (by rw [h]; simp)
  exact ⟨name,_,rfl,hword,⟨w,hw,h⟩,⟨w',q,rest,hw',hq,hno,rfl⟩⟩

theorem quotedArg_told (hmarker : utf8 marker ≠ [] ∧ ∀ b ∈ utf8 marker, b < 128)
    (h : utf8 source = u++(utf8 marker++v)) :
    ∃ r, quotedArg (utf8 marker) (utf8 source) u.length = some r ∧ Told marker source u r := by
  have hnothing := told_behind hmarker h (r := none) fun x hx => by cases hx
  have hword := withinWord_append u (utf8 marker++v)
  rw [← h] at hword
  rw [quotedArg,hword,Option.bind_some]
  by_cases hw : u.getLast?.any wordByte
  · exact ⟨_,if_pos hw,hnothing⟩
  · rw [if_neg hw,sliceFrom_marker hmarker h,Option.bind_some]
    cases hcall : openCall v with
    | none => exact ⟨_,rfl,hnothing⟩
    | some afterOpen =>
      rw [Option.bind_some]
      cases hquote : openQuote afterOpen with
      | none => exact ⟨_,rfl,hnothing⟩
      | some e =>
        obtain ⟨q,body⟩ := e
        obtain ⟨-,-,hq,-⟩ := openQuote_eq_some hquote
        obtain ⟨r,hr,hcut⟩ := literal_total hq body
        dsimp only
        rw [hr]
        exact ⟨_,rfl,told_behind hmarker h fun x hx => literalCall_of_cut h hw hcall hquote (hcut x hx)⟩

/-- So it is with files, where the scan may also go on at the end of the call. -/
theorem pushedFile_told (hmarker : utf8 marker ≠ [] ∧ ∀ b ∈ utf8 marker, b < 128)
    (h : utf8 source = u++(utf8 marker++v)) : ∃ r, (∀ fuel > (utf8 source).length,
      pushedFile fuel (utf8 marker) (utf8 source) u.length = some r) ∧ Told marker source u r := by
  have hnothing := told_behind hmarker h (r := none) fun x hx => by cases hx
  have hword := withinWord_append u (utf8 marker++v)
  have hsource : Whole (utf8 source) := whole_utf8 source
  rw [← h] at hword
  simp only [pushedFile,hword,Option.bind_some]
  by_cases hw : u.getLast?.any wordByte
  · exact ⟨_,fun fuel _ => if_pos hw,hnothing⟩
  · simp only [if_neg hw,sliceFrom_marker hmarker h,Option.bind_some]
    cases hcall : openCall v with
    | none => exact ⟨_,fun fuel _ => rfl,hnothing⟩
    | some afterOpen =>
      dsimp only
      obtain ⟨w,-,hv⟩ := openCall_eq_some hcall
      have heq : utf8 source = (u++(utf8 marker++w.flatten))++40::afterOpen := by rw [h,hv]; simp
      have hstart : (utf8 source).length-afterOpen.length = (u++(utf8 marker++w.flatten)).length+1 := by
        rw [heq,List.length_append,List.length_cons]
        omega
      have hlower : u.length < (u++(utf8 marker++w.flatten)).length+1 := by
        rw [List.length_append]
        omega
      generalize u++(utf8 marker++w.flatten) = front at heq hstart hlower
      obtain ⟨p,hp,hclose⟩ := findMatchingCloseParen_total (utf8 source) 1 (front.length+1)
      have hrun : ∀ fuel > (utf8 source).length,
          findMatchingCloseParen (utf8 source) fuel 1 (front.length+1) = some p := fun fuel hfuel => hp fuel (by omega)
      cases p with
      | none =>
        refine ⟨_,fun fuel hfuel => ?_,hnothing⟩
        rw [hstart,hrun fuel hfuel]
        rfl
      | some close =>
        obtain ⟨hge,hparen⟩ := hclose close rfl
        rw [heq] at hparen hsource
        obtain ⟨args,hcut,hwhole,hboundary⟩ := slice_between hsource (by decide) (by decide) hge hparen
        obtain ⟨hinside,-⟩ := List.getElem?_eq_some_iff.mp hparen
        rw [← heq] at hcut hboundary hinside
        have hto : ∀ r, (∀ x ∈ r, ∃ name args, utf8 name = x ∧ LiteralCall marker u args name (utf8 source)) →
            Told marker source u (r,close) := fun r hr => ⟨hlower.trans_le hge,hinside.le,hboundary,hr⟩
        obtain ⟨optOut,hoptOut⟩ := hasAutoDepFalse_total hwhole
        cases optOut with
        | true =>
          refine ⟨_,fun fuel hfuel => ?_,hto none fun x hx => by cases hx⟩
          rw [hstart,hrun fuel hfuel,Option.bind_some]
          dsimp only
          rw [hcut,Option.bind_some,hoptOut,Option.bind_some,if_pos rfl]
        | false =>
          cases hquote : openQuote afterOpen with
          | none =>
            refine ⟨_,fun fuel hfuel => ?_,hnothing⟩
            rw [hstart,hrun fuel hfuel,Option.bind_some]
            dsimp only
            rw [hcut,Option.bind_some,hoptOut,Option.bind_some,if_neg (by decide)]
          | some e =>
            obtain ⟨q,body⟩ := e
            obtain ⟨-,-,hq,-⟩ := openQuote_eq_some hquote
            obtain ⟨r,hr,hx⟩ := literal_total hq body
            refine ⟨_,fun fuel hfuel => ?_,hto r fun x hmem => literalCall_of_cut h hw hcall hquote (hx x hmem)⟩
            rw [hstart,hrun fuel hfuel,Option.bind_some]
            dsimp only
            rw [hcut,Option.bind_some,hoptOut,Option.bind_some,if_neg (by decide),hr]
            rfl

end Place

/-! ## The scans -/

/-- The places that are reported from an offset on, whatever fuel is left. -/
structure Reports (marker source : String) (idx : ℕ) (hits : List (ℕ × String)) : Prop where
  increasing : hits.Pairwise fun a b => a.1 < b.1
  called : ∀ h ∈ hits, idx ≤ h.1 ∧ ∃ before args, before.length = h.1 ∧
    LiteralCall marker before args h.2 (utf8 source)

/-- A place, and then what is reported behind it. -/
theorem Reports.cons {marker source : String} {u : Bytes} {r : Option Bytes × ℕ} {idx : ℕ} {hits : List (ℕ × String)}
    (htold : Told marker source u r) (hidx : idx ≤ u.length) (h : Reports marker source r.2 hits) :
    ∃ hits', Reports marker source idx hits' ∧ r.1.toList.map (u.length,·)++hits.map (fun h => (h.1,utf8 h.2)) =
      hits'.map fun h => (h.1,utf8 h.2) := by
  have hlater : ∀ h ∈ hits, idx ≤ h.1 ∧ ∃ before args, before.length = h.1 ∧
      LiteralCall marker before args h.2 (utf8 source) := fun e he =>
    ⟨by have := (h.called e he).1; have := htold.ahead; omega,(h.called e he).2⟩
  obtain ⟨named,next⟩ := r
  cases named with
  | none => exact ⟨hits,⟨h.increasing,hlater⟩,rfl⟩
  | some x =>
    obtain ⟨name,args,rfl,hcall⟩ := htold.named x rfl
    refine ⟨(u.length,name)::hits,⟨List.pairwise_cons.mpr ⟨fun e he => ?_,h.increasing⟩,?_⟩,rfl⟩
    · exact htold.ahead.trans_le (h.called e he).1
    · exact List.forall_mem_cons.mpr ⟨⟨hidx,u,args,rfl,hcall⟩,hlater⟩

/-- The loop, with fuel for each call and for itself. -/
theorem scanLoop_total {marker source : String} {call : ℕ → Bytes → ℕ → Option (Option Bytes × ℕ)}
    (hcall : ∀ u v, utf8 source = u++(utf8 marker++v) →
      ∃ r, (∀ n > (utf8 source).length, call n (utf8 source) u.length = some r) ∧ Told marker source u r) (idx : ℕ)
    (hidx : idx ≤ (utf8 source).length) (hboundary : isCharBoundary (utf8 source) idx) :
    ∃ hits, Reports marker source idx hits ∧ ∀ n > (utf8 source).length, ∀ fuel > (utf8 source).length-idx,
      scanLoop (utf8 marker) (call n) (utf8 source) fuel idx = some (hits.map fun h => (h.1,utf8 h.2)) := by
  induction hleft : (utf8 source).length-idx using Nat.strong_induction_on generalizing idx with
  | _ left ih =>
    have hsplit := List.take_append_drop idx (utf8 source)
    have hlen : ((utf8 source).take idx).length = idx := List.length_take_of_le hidx
    have hcut : sliceFrom (utf8 source) idx = some ((utf8 source).drop idx) := by
      have h := @sliceFrom_append ((utf8 source).take idx) ((utf8 source).drop idx) (by rwa [hsplit,hlen])
      rwa [hsplit,hlen] at h
    cases hfind : find (utf8 marker) ((utf8 source).drop idx) with
    | none =>
      refine ⟨[],⟨.nil,fun h hh => by cases hh⟩,fun n _ fuel hfuel => ?_⟩
      obtain ⟨fuel,rfl⟩ : ∃ m, fuel = m+1 := ⟨fuel-1,by omega⟩
      rw [scanLoop,hcut,Option.bind_some,hfind]
      rfl
    | some found =>
      obtain ⟨⟨v,hv⟩,hle,-⟩ := find_spec hfind
      obtain ⟨u,hu,hulen⟩ : ∃ u, utf8 source = u++(utf8 marker++v) ∧ u.length = idx+found := by
        refine ⟨(utf8 source).take idx++((utf8 source).drop idx).take found,?_,?_⟩
        · rw [List.append_assoc,← hv,hsplit]
        · rw [List.length_append,hlen,List.length_take_of_le hle]
      obtain ⟨r,hr,htold⟩ := hcall u v hu
      have hahead := htold.ahead
      have hinside := htold.inside
      obtain ⟨hits,hhits,hrun⟩ := ih ((utf8 source).length-r.2) (by omega) r.2 htold.inside htold.boundary rfl
      obtain ⟨hits',hhits',heq⟩ := hhits.cons htold (by omega : idx ≤ u.length)
      refine ⟨hits',hhits',fun n hn fuel hfuel => ?_⟩
      obtain ⟨fuel,rfl⟩ : ∃ m, fuel = m+1 := ⟨fuel-1,by omega⟩
      rw [scanLoop,hcut,Option.bind_some,hfind]
      dsimp only
      rw [← hulen,hr n hn,Option.bind_some,hrun n hn fuel (by omega),Option.map_some,heq]

theorem ascii_marker : ∀ marker ∈ ["vm_fixture","lab_fixture","require","push_file","depends_on_file"],
    utf8 marker ≠ [] ∧ ∀ b ∈ utf8 marker, b < 128 := fun marker hmarker =>
  ⟨(wordByte_marker marker hmarker).1,fun b hb => wordByte_ascii ((wordByte_marker marker hmarker).2 b hb)⟩

theorem scanQuotedArg_total {marker : String} (hmarker : utf8 marker ≠ [] ∧ ∀ b ∈ utf8 marker, b < 128)
    (source : String) : ∃ hits, Reports marker source 0 hits ∧ ∀ fuel > (utf8 source).length,
      scanQuotedArgWithPos fuel (utf8 source) marker = some (hits.map fun h => (h.1,utf8 h.2)) := by
  obtain ⟨hits,hhits,hrun⟩ := @scanLoop_total marker source (fun _ => quotedArg (utf8 marker)) (fun u v h => by
    obtain ⟨r,hr,htold⟩ := quotedArg_told hmarker h
    exact ⟨r,fun _ _ => hr,htold⟩) 0 (Nat.zero_le _) boundary_zero
  exact ⟨hits,hhits,fun fuel hfuel => hrun fuel hfuel fuel hfuel⟩

theorem scanPushFileCalls_total (source : String) : ∃ hits, Reports "push_file" source 0 hits ∧
    ∀ fuel > (utf8 source).length, scanPushFileCalls fuel (utf8 source) = some (hits.map fun h => (h.1,utf8 h.2)) := by
  obtain ⟨hits,hhits,hrun⟩ := @scanLoop_total "push_file" source (fun n => pushedFile n (utf8 "push_file"))
    (fun u v h => pushedFile_told (ascii_marker _ (by simp)) h) 0 (Nat.zero_le _) boundary_zero
  exact ⟨hits,hhits,fun fuel hfuel => hrun fuel hfuel fuel hfuel⟩

section Merge
variable {marker marker' source : String} {hits hits' : List (ℕ × String)}

/-- No two markers begin at one place, as they do not begin alike. -/
theorem Reports.apart (h : Reports marker source 0 hits) (h' : Reports marker' source 0 hits')
    (hhead : (utf8 marker).head? ≠ (utf8 marker').head?) (hne : utf8 marker ≠ []) (hne' : utf8 marker' ≠ []) :
    ∀ e ∈ hits, ∀ e' ∈ hits', e.1 ≠ e'.1 := by
  intro e he e' he' heq
  obtain ⟨-,before,args,hlen,hcall⟩ := h.called e he
  obtain ⟨-,before',args',hlen',hcall'⟩ := h'.called e' he'
  obtain ⟨w,-,hs⟩ := hcall.eq
  obtain ⟨w',-,hs'⟩ := hcall'.eq
  have hrest := (List.append_inj (hs.symm.trans hs') (by rw [hlen,hlen',heq])).2
  have hfirst := congrArg List.head? hrest
  rw [List.head?_append_of_ne_nil _ hne,List.head?_append_of_ne_nil _ hne'] at hfirst
  exact hhead hfirst

theorem Reports.merge (h : Reports marker source 0 hits) (h' : Reports marker' source 0 hits')
    (hhead : (utf8 marker).head? ≠ (utf8 marker').head?) (hne : utf8 marker ≠ []) (hne' : utf8 marker' ≠ []) :
    ∃ merged : List (ℕ × String), inOrder (hits.map (fun h => (h.1,utf8 h.2))++hits'.map (fun h => (h.1,utf8 h.2))) =
        merged.map (fun h => utf8 h.2) ∧ merged.Pairwise (fun a b => a.1 < b.1) ∧
      ∀ h ∈ merged, h ∈ hits ∨ h ∈ hits' := by
  have hperm := List.perm_insertionSort (fun a b : ℕ × String => a.1 ≤ b.1) (hits++hits')
  refine ⟨(hits++hits').insertionSort fun a b => a.1 ≤ b.1,?_,?_,fun e he => ?_⟩
  · rw [inOrder,← List.map_append,← List.map_insertionSort (fun a b : ℕ × String => a.1 ≤ b.1)
      (fun a b : ℕ × Bytes => a.1 ≤ b.1) (fun h : ℕ × String => (h.1,utf8 h.2)) _ (fun a _ b _ => Iff.rfl),List.map_map]
    rfl
  · have : Std.Total fun a b : ℕ × String => a.1 ≤ b.1 := ⟨fun a b => Nat.le_total a.1 b.1⟩
    have : IsTrans (ℕ × String) fun a b => a.1 ≤ b.1 := ⟨fun _ _ _ h h' => Nat.le_trans h h'⟩
    have hsorted := List.pairwise_insertionSort (fun a b : ℕ × String => a.1 ≤ b.1) (hits++hits')
    have hdistinct : (hits++hits').Pairwise fun a b => a.1 ≠ b.1 :=
      List.pairwise_append.mpr ⟨h.increasing.imp fun hlt => hlt.ne,h'.increasing.imp fun hlt => hlt.ne,
        h.apart h' hhead hne hne'⟩
    exact (hsorted.and (hperm.symm.pairwise hdistinct Ne.symm)).imp fun hle => hle.1.lt_of_ne hle.2
  · exact List.mem_append.mp (hperm.mem_iff.mp he)

end Merge

/-- What a scanner is to do with any source: it comes to an end, cuts nothing where it may not, and reports the
strings of calls of its markers by where they stand. -/
def TotalAndOrdered (scan : ℕ → Bytes → Option (List Bytes)) (markers : List String) : Prop :=
  ∀ source : String, ∃ hits : List (ℕ × String),
    (∀ fuel > (utf8 source).length, scan fuel (utf8 source) = some (hits.map fun h => utf8 h.2)) ∧
    hits.Pairwise (fun a b => a.1 < b.1) ∧
    ∀ h ∈ hits, ∃ marker ∈ markers, ∃ before args, before.length = h.1 ∧
      LiteralCall marker before args h.2 (utf8 source)

/-- A scanner that puts the places of two markers in order. -/
theorem totalAndOrdered_merge {marker marker' : String} {scan : ℕ → Bytes → Option (List Bytes)}
    {first second : ℕ → Bytes → Option (List (ℕ × Bytes))}
    (hscan : ∀ fuel source, scan fuel source = (first fuel source).bind fun a => (second fuel source).map fun b =>
      inOrder (a++b))
    (hfirst : ∀ source : String, ∃ hits, Reports marker source 0 hits ∧ ∀ fuel > (utf8 source).length,
      first fuel (utf8 source) = some (hits.map fun h => (h.1,utf8 h.2)))
    (hsecond : ∀ source : String, ∃ hits, Reports marker' source 0 hits ∧ ∀ fuel > (utf8 source).length,
      second fuel (utf8 source) = some (hits.map fun h => (h.1,utf8 h.2)))
    (hhead : (utf8 marker).head? ≠ (utf8 marker').head?) (hne : utf8 marker ≠ []) (hne' : utf8 marker' ≠ []) :
    TotalAndOrdered scan [marker,marker'] := by
  intro source
  obtain ⟨hits,hhits,hrun⟩ := hfirst source
  obtain ⟨hits',hhits',hrun'⟩ := hsecond source
  obtain ⟨merged,heq,hordered,hmem⟩ := hhits.merge hhits' hhead hne hne'
  refine ⟨merged,fun fuel hfuel => ?_,hordered,fun e he => ?_⟩
  · rw [hscan,hrun fuel hfuel,hrun' fuel hfuel,Option.bind_some,Option.map_some,heq]
  · obtain hleft | hright := hmem e he
    · exact ⟨marker,by simp,(hhits.called e hleft).2⟩
    · exact ⟨marker',by simp,(hhits'.called e hright).2⟩

theorem totalAndOrdered_require : TotalAndOrdered scanRequireDeps ["require"] := by
  intro source
  obtain ⟨hits,hhits,hrun⟩ := scanQuotedArg_total (ascii_marker "require" (by simp)) source
  refine ⟨hits,fun fuel hfuel => ?_,hhits.increasing,fun e he => ⟨_,by simp,(hhits.called e he).2⟩⟩
  rw [scanRequireDeps,hrun fuel hfuel,Option.map_some,List.map_map]
  rfl

theorem scanners_total_and_ordered : TotalAndOrdered scanFixtureDeps ["vm_fixture","lab_fixture"] ∧
    TotalAndOrdered scanRequireDeps ["require"] ∧
    TotalAndOrdered scanExternalFileDeps ["push_file","depends_on_file"] := by
  refine ⟨?_,totalAndOrdered_require,?_⟩
  · exact totalAndOrdered_merge (fun _ _ => rfl) (scanQuotedArg_total (ascii_marker _ (by simp)))
      (scanQuotedArg_total (ascii_marker _ (by simp))) (by decide +kernel) (by decide +kernel) (by decide +kernel)
  · exact totalAndOrdered_merge (fun _ _ => rfl) scanPushFileCalls_total
      (scanQuotedArg_total (ascii_marker _ (by simp))) (by decide +kernel) (by decide +kernel) (by decide +kernel)

end Provium.Fixture.Offsets
