import Provium.Fixture.Scan
import Provium.Lib.Slices

/-! The places that a scan comes to. It finds its marker at each place but those that it has passed over
with a call that it came to before. -/
namespace Provium.Fixture

/-- No call that the scan comes to before goes on behind this place. -/
def Comes (marker : Bytes) (call : Option UInt8 → Bytes → Option Bytes × ℕ) (source : Bytes) (p : ℕ) : Prop :=
  ∀ u v, source = u++(marker++v) → (h : u.length < p) → Comes marker call source u.length →
    u.length+marker.length+(call u.getLast? v).2 ≤ p
termination_by p
decreasing_by exact h

section Places
variable {marker : Bytes} {call : Option UInt8 → Bytes → Option Bytes × ℕ} {source : Bytes}

/-- What stands at one place is one. -/
theorem place_unique {u v done s : Bytes} (h : source = u++(marker++v)) (hs : source = done++s)
    (hlen : u.length = done.length) : u = done ∧ s = marker++v := by
  obtain ⟨hu,hv⟩ := List.append_inj (h.symm.trans hs) hlen
  exact ⟨hu,hv.symm⟩

theorem mem_scanCalls_iff_of_done (hmarker : marker ≠ []) {p : ℕ} {x : Bytes} (done s : Bytes) (skip : ℕ)
    (hs : source = done++s)
    (hskip : ∀ q, done.length ≤ q → q < done.length+skip → ¬Comes marker call source q)
    (hends : ∀ u v, source = u++(marker++v) → u.length < done.length → Comes marker call source u.length →
      u.length+marker.length+(call u.getLast? v).2 ≤ done.length+skip) :
    (p,x) ∈ scanCalls marker call done.getLast? skip done.length s ↔
      done.length ≤ p ∧ ∃ u v, source = u++(marker++v) ∧ u.length = p ∧ Comes marker call source p ∧
        (call u.getLast? v).1 = some x := by
  have hpos := List.length_pos_iff.mpr hmarker
  induction s generalizing done skip with
  | nil =>
    constructor
    · intro h
      cases skip <;> cases h
    · rintro ⟨hle,u,v,hu,rfl,-⟩
      have hlen := congrArg List.length (hu.symm.trans hs)
      simp only [List.length_append,List.length_nil] at hlen
      omega
  | cons c s ih =>
    have hs' : source = (done++[c])++s := by rw [hs,List.append_assoc]; rfl
    have hlast : (done++[c]).getLast? = some c := List.getLast?_concat
    have hlen : (done++[c]).length = done.length+1 := by rw [List.length_append]; rfl
    -- from here on the next byte
    have hnext : ∀ skip, (∀ q, done.length+1 ≤ q → q < done.length+1+skip → ¬Comes marker call source q) →
        (∀ u v, source = u++(marker++v) → u.length < done.length+1 → Comes marker call source u.length →
          u.length+marker.length+(call u.getLast? v).2 ≤ done.length+1+skip) →
        ((p,x) ∈ scanCalls marker call (some c) skip (done.length+1) s ↔
          done.length+1 ≤ p ∧ ∃ u v, source = u++(marker++v) ∧ u.length = p ∧ Comes marker call source p ∧
            (call u.getLast? v).1 = some x) := by
      intro skip hskip hends
      have hgo := ih (done++[c]) skip hs'
      rw [hlast,hlen] at hgo
      exact hgo hskip hends
    cases skip with
    | succ skip =>
      have hhere : ¬Comes marker call source done.length := hskip _ le_rfl (by omega)
      rw [scanCalls,hnext skip]
      · constructor
        · rintro ⟨hle,h⟩
          exact ⟨by omega,h⟩
        · rintro ⟨hle,u,v,hu,rfl,hcomes,hx⟩
          refine ⟨?_,u,v,hu,rfl,hcomes,hx⟩
          refine Nat.lt_of_le_of_ne hle ?_
          intro heq
          rw [← heq] at hcomes
          exact hhere hcomes
      · intro q hq hlt
        exact hskip q (by omega) (by omega)
      · intro u v hu hlt hcomes
        obtain heq | hlt := Nat.lt_succ_iff_lt_or_eq.mp hlt |>.symm
        · rw [heq] at hcomes
          exact absurd hcomes hhere
        · have := hends u v hu hlt hcomes
          omega
    | zero =>
      have hcomes : Comes marker call source done.length := by
        rw [Comes]
        intro u v hu hlt hc
        exact hends u v hu hlt hc
      rw [scanCalls]
      split
      · next hbefore =>
        obtain ⟨v,hv⟩ := List.isPrefixOf_iff_prefix.mp hbefore
        have hdone : source = done++(marker++v) := by rw [hs,hv]
        rw [← hv,List.drop_left]
        dsimp only
        rw [List.mem_append,hnext]
        · constructor
          · rintro (hmem | ⟨hle,h⟩)
            · obtain ⟨y,hy,heq⟩ := List.mem_map.mp hmem
              cases heq
              exact ⟨le_rfl,done,v,hdone,rfl,hcomes,Option.mem_toList.mp hy⟩
            · exact ⟨by omega,h⟩
          · rintro ⟨hle,u,w,hu,rfl,hc,hx⟩
            obtain heq | hlt := Nat.eq_or_lt_of_le hle
            · obtain ⟨rfl,hw⟩ := place_unique hu hdone heq.symm
              rw [List.append_cancel_left hw]
              exact .inl (List.mem_map.mpr ⟨x,Option.mem_toList.mpr hx,rfl⟩)
            · exact .inr ⟨hlt,u,w,hu,rfl,hc,hx⟩
        · intro q hq hlt hc
          rw [Comes] at hc
          have := hc done v hdone (by omega) hcomes
          omega
        · intro u w hu hlt hc
          obtain heq | hlt := Nat.lt_succ_iff_lt_or_eq.mp hlt |>.symm
          · obtain ⟨rfl,hw⟩ := place_unique hu hdone heq
            rw [List.append_cancel_left hw]
            omega
          · have := hends u w hu hlt hc
            omega
      · next hbefore =>
        have hhere : ∀ u v, source = u++(marker++v) → u.length ≠ done.length := by
          intro u v hu heq
          obtain ⟨-,hv⟩ := place_unique hu hs heq
          apply hbefore
          rw [hv]
          exact List.isPrefixOf_iff_prefix.mpr (List.prefix_append _ _)
        rw [hnext 0]
        · constructor
          · rintro ⟨hle,h⟩
            exact ⟨by omega,h⟩
          · rintro ⟨hle,u,v,hu,rfl,h⟩
            exact ⟨Nat.lt_of_le_of_ne hle (hhere u v hu).symm,u,v,hu,rfl,h⟩
        · intro q hq hlt
          omega
        · intro u v hu hlt hc
          have hne := hhere u v hu
          have := hends u v hu (by omega) hc
          omega

/-- What the scan finds is what it is told of at the places it comes to. -/
theorem mem_scanCalls_iff (hmarker : marker ≠ []) {p : ℕ} {x : Bytes} :
    (p,x) ∈ scanCalls marker call none 0 0 source ↔ ∃ u v, source = u++(marker++v) ∧ u.length = p ∧
      Comes marker call source p ∧ (call u.getLast? v).1 = some x := by
  have h := @mem_scanCalls_iff_of_done marker call source hmarker p x [] source 0 rfl
    (fun q hle hlt => absurd hlt (by simp)) (fun u v _ hlt => absurd hlt (by simp))
  simpa using h

/-- A scan that never goes on behind its marker comes to every place behind a byte that is not of a word. -/
theorem comes_of_apart (hword : ∀ b ∈ marker, wordByte b) (hzero : ∀ prev after, (call prev after).2 = 0)
    {before after : Bytes} (hbefore : ¬before.getLast?.any wordByte) (hs : source = before++(marker++after)) :
    Comes marker call source before.length := by
  rw [Comes]
  intro u v hu hlt _
  rw [hzero,Nat.add_zero]
  exact marker_apart hword hbefore (hs.symm.trans hu) hlt

end Places

/-- Between two places of a text at which characters begin there is a text. -/
theorem utf8_extract {s : String} {a b c : Bytes} (h : utf8 s = a++(b++c))
    (ha : String.Pos.Raw.IsValid s ⟨a.length⟩) (hb : String.Pos.Raw.IsValid s ⟨a.length+b.length⟩) :
    ∃ t, utf8 t = b := by
  have hsize : s.toByteArray.size = a.length+(b.length+c.length) := by
    have := congrArg List.length h
    simpa [utf8] using this
  have hvalid : (s.toByteArray.extract a.length (a.length+b.length)).IsValidUTF8 := by
    refine (String.Pos.Raw.isValidUTF8_extract_iff ⟨a.length⟩ ⟨a.length+b.length⟩ ?_ ?_).mpr (.inr ⟨ha,hb⟩)
    · simp [String.Pos.Raw.le_iff]
    · simp only [String.Pos.Raw.le_iff,String.byteIdx_rawEndPos,← String.size_toByteArray,hsize]
      omega
  refine ⟨String.ofByteArray _ hvalid,?_⟩
  have hlist : s.toByteArray.data.toList = a++(b++c) := h
  simp [utf8,hlist]

theorem quote_ascii {q : UInt8} (hq : quote q) : q < 128 := by
  have hcases : q = 34 ∨ q = 39 := by simpa [quote] using hq
  obtain rfl | rfl := hcases <;> decide

/-- What stands between two quotation marks of a text is a text. -/
theorem utf8_between {s : String} {a b c : Bytes} {q : UInt8} (hq : quote q)
    (h : utf8 s = a++q::(b++q::c)) : ∃ t, utf8 t = b := by
  have hopen := Lib.ByteText.isValid_behind_ascii (quote_ascii hq) h
  have h' : utf8 s = (a++[q])++(b++q::c) := by rw [h,List.append_assoc]; rfl
  have hclose := Lib.ByteText.isValid_of_ascii (quote_ascii hq) (h'.trans (List.append_assoc _ _ _).symm)
  rw [List.length_append,List.length_append,List.length_singleton] at hclose
  refine utf8_extract h' ?_ ?_
  · rwa [List.length_append,List.length_singleton]
  · rwa [List.length_append,List.length_singleton]

end Provium.Fixture
