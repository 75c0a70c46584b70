import Mathlib

/-! UTF-8 as bytes: which byte may follow which, the bytes that are a text, and the conversion that puts U+FFFD in
place of what is none. -/
namespace Lib.Utf8

def between (lo hi b : UInt8) : Bool := lo ≤ b && b ≤ hi

/-- A byte that can stand only within a character. -/
def continues (b : UInt8) : Bool := between 128 191 b

/-- What has to follow a byte for it to begin a character. -/
def trailers (b : UInt8) : Option (List (UInt8 → Bool)) :=
  if b < 128 then some []
  else if between 194 223 b then some [continues]
  else if b = 224 then some [between 160 191,continues]
  else if b = 237 then some [between 128 159,continues]
  else if between 225 239 b then some [continues,continues]
  else if b = 240 then some [between 144 191,continues,continues]
  else if between 241 243 b then some [continues,continues,continues]
  else if b = 244 then some [between 128 143,continues,continues]
  else none

/-- If the bytes are as they have to be, and how many of them are. -/
def follow : List (UInt8 → Bool) → List UInt8 → Bool × ℕ
  | [],_ => (true,0)
  | _::_,[] => (false,0)
  | f::fs,c::rest => if f c then ((follow fs rest).1,(follow fs rest).2+1) else (false,0)

/-- If a byte begins a character, and how many more bytes go with it. -/
def readChar (b : UInt8) (rest : List UInt8) : Bool × ℕ :=
  match trailers b with
  | some fs => follow fs rest
  | none => (false,0)

/-- `String::from_utf8_lossy`, from behind so many bytes that are dealt with. -/
def lossy : ℕ → List UInt8 → List UInt8
  | _,[] => []
  | k+1,_::rest => lossy k rest
  | 0,b::rest => (if (readChar b rest).1 then b::rest.take (readChar b rest).2 else [239,191,189])++
      lossy (readChar b rest).2 rest

def wellFormed : ℕ → List UInt8 → Bool
  | _,[] => true
  | k+1,_::rest => wellFormed k rest
  | 0,b::rest => (readChar b rest).1 && wellFormed (readChar b rest).2 rest

variable {b : UInt8} {fs : List (UInt8 → Bool)} {front rest tail p s : List UInt8} {k : ℕ}

/-- All that follows the first byte of a character stands within it. -/
theorem continues_of_trailers (h : trailers b = some fs) : ∀ f ∈ fs, ∀ c, f c = true → continues c = true := by
  have hsub : ∀ lo hi : UInt8, 128 ≤ lo → hi ≤ 191 → ∀ c, between lo hi c = true → continues c = true := by
    intro lo hi hlo hhi c hc
    simp only [between,continues,Bool.and_eq_true,decide_eq_true_eq] at hc ⊢
    exact ⟨UInt8.le_trans hlo hc.1,UInt8.le_trans hc.2 hhi⟩
  have hsame : ∀ c, continues c = true → continues c = true := fun _ => id
  unfold trailers at h
  split_ifs at h
  · obtain rfl := Option.some.inj h
    exact fun f hf => absurd hf List.not_mem_nil
  all_goals
    obtain rfl := Option.some.inj h
    simp only [List.forall_mem_cons,List.not_mem_nil,false_imp_iff,implies_true,and_true]
  · exact hsame
  · exact ⟨hsub 160 191 (by decide) (by decide),hsame⟩
  · exact ⟨hsub 128 159 (by decide) (by decide),hsame⟩
  · exact ⟨hsame,hsame⟩
  · exact ⟨hsub 144 191 (by decide) (by decide),hsame,hsame⟩
  · exact ⟨hsame,hsame,hsame⟩
  · exact ⟨hsub 128 143 (by decide) (by decide),hsame,hsame⟩

theorem trailers_of_continues (h : continues b = true) : trailers b = none := by
  have hall : ∀ b : UInt8, continues b = true → (trailers b).isNone = true := by decide +kernel
  exact Option.isNone_iff_eq_none.mp (hall b h)

/-- What is read does not go on into what begins with a character. -/
theorem follow_append_le (hfs : ∀ f ∈ fs, ∀ c, f c = true → continues c = true)
    (htail : ∀ c, tail.head? = some c → continues c = false) :
    (follow fs (front++tail)).2 ≤ front.length := by
  induction fs generalizing front with
  | nil => exact Nat.zero_le _
  | cons f fs ih =>
    obtain ⟨hf,hfs⟩ := List.forall_mem_cons.mp hfs
    cases front with
    | nil =>
      cases tail with
      | nil => exact le_rfl
      | cons c tail =>
        have hc : f c = false := by
          by_contra hne
          have := hf c (by simpa using hne)
          rw [htail c rfl] at this
          cases this
        simp [follow,hc]
    | cons c front =>
      rw [List.cons_append,follow]
      split
      · exact Nat.succ_le_succ (ih hfs)
      · exact Nat.zero_le _

theorem follow_append (h : (follow fs rest).1 = true) :
    follow fs (rest++tail) = follow fs rest ∧ (follow fs rest).2 ≤ rest.length := by
  induction fs generalizing rest with
  | nil => exact ⟨rfl,Nat.zero_le _⟩
  | cons f fs ih =>
    cases rest with
    | nil => cases h
    | cons c rest =>
      rw [follow] at h
      rw [List.cons_append,follow,follow]
      split
      · rename_i hc
        rw [if_pos hc] at h
        obtain ⟨heq,hle⟩ := ih h
        exact ⟨by rw [heq],Nat.succ_le_succ hle⟩
      · exact ⟨rfl,Nat.zero_le _⟩

theorem readChar_append_le (htail : ∀ c, tail.head? = some c → continues c = false) :
    (readChar b (front++tail)).2 ≤ front.length := by
  unfold readChar
  split
  · next fs h => exact follow_append_le (continues_of_trailers h) htail
  · exact Nat.zero_le _

theorem readChar_append (h : (readChar b rest).1 = true) :
    readChar b (rest++tail) = readChar b rest ∧ (readChar b rest).2 ≤ rest.length := by
  unfold readChar at h ⊢
  split
  · next fs hfs =>
    rw [hfs] at h
    exact follow_append h
  · next hnone =>
    rw [hnone] at h
    cases h

/-- Whatever stands in front of a character, the character is decoded from its beginning. -/
theorem lossy_front (htail : ∀ c, tail.head? = some c → continues c = false) (hk : k ≤ front.length) :
    ∃ decoded, lossy k (front++tail) = decoded++lossy 0 tail := by
  induction front generalizing k with
  | nil =>
    obtain rfl : k = 0 := Nat.le_zero.mp hk
    exact ⟨[],rfl⟩
  | cons b front ih =>
    cases k with
    | succ k => exact ih (Nat.le_of_succ_le_succ hk)
    | zero =>
      obtain ⟨decoded,hdecoded⟩ := ih (readChar_append_le htail (b := b))
      exact ⟨_,by rw [List.cons_append,lossy,hdecoded,← List.append_assoc]⟩

/-- What is well formed is decoded to itself. -/
theorem lossy_wellFormed (hp : wellFormed k p = true) (hk : k ≤ p.length) :
    lossy k (p++tail) = p.drop k++lossy 0 tail := by
  induction p generalizing k with
  | nil =>
    obtain rfl : k = 0 := Nat.le_zero.mp hk
    rfl
  | cons b p ih =>
    cases k with
    | succ k => exact ih hp (Nat.le_of_succ_le_succ hk)
    | zero =>
      rw [wellFormed,Bool.and_eq_true] at hp
      obtain ⟨hread,hle⟩ := @readChar_append b p tail hp.1
      rw [List.cons_append,lossy,hread,if_pos hp.1,ih hp.2 hle,List.take_append_of_le_length hle,
        ← List.append_assoc,List.cons_append,List.take_append_drop,List.drop_zero]

/-- What follows a byte is taken whole. -/
theorem follow_take (h : (follow fs rest).1 = true) (tail : List UInt8) :
    follow fs (rest.take (follow fs rest).2++tail) = follow fs rest := by
  induction fs generalizing rest with
  | nil => rfl
  | cons f fs ih =>
    cases rest with
    | nil => cases h
    | cons c rest =>
      rw [follow] at h
      split_ifs at h with hc
      rw [follow,if_pos hc,List.take_succ_cons,List.cons_append,follow,if_pos hc,ih h]

theorem readChar_take (h : (readChar b rest).1 = true) (tail : List UInt8) :
    readChar b (rest.take (readChar b rest).2++tail) = readChar b rest := by
  unfold readChar at h ⊢
  split at h
  · next fs _ => exact follow_take h tail
  · cases h

theorem wellFormed_skip (hk : k = front.length) : wellFormed k (front++tail) = wellFormed 0 tail := by
  subst hk
  induction front with
  | nil => rfl
  | cons b front ih => exact ih

/-- What the conversion gives is a text. -/
theorem wellFormed_lossy (k : ℕ) (s : List UInt8) : wellFormed 0 (lossy k s) = true := by
  induction s generalizing k with
  | nil => cases k <;> rfl
  | cons b rest ih =>
    cases k with
    | succ k => exact ih k
    | zero =>
      rw [lossy]
      split_ifs with hread
      · have hle := (@readChar_append b rest [] hread).2
        rw [List.cons_append,wellFormed,readChar_take hread,hread,Bool.true_and,
          wellFormed_skip (List.length_take_of_le hle).symm]
        exact ih _
      · exact ih _

/-- It leaves as they are the bytes that are a text, and no others. -/
theorem lossy_eq_self_iff : lossy 0 s = s ↔ wellFormed 0 s = true := by
  constructor
  · intro h
    rw [← h]
    exact wellFormed_lossy 0 s
  · intro h
    have := @lossy_wellFormed [] s 0 h (Nat.zero_le _)
    simpa [lossy] using this

theorem mem_lossy {c : UInt8} (h : c ∈ lossy k s) : c ∈ s ∨ c ∈ [239,191,189] := by
  induction s generalizing k with
  | nil => cases k <;> cases h
  | cons b rest ih =>
    cases k with
    | succ k => exact (ih h).imp_left (List.mem_cons_of_mem _)
    | zero =>
      rw [lossy] at h
      obtain h | h := List.mem_append.mp h
      · split_ifs at h
        · refine .inl ?_
          obtain rfl | h := List.mem_cons.mp h
          · exact List.mem_cons_self
          · exact List.mem_cons_of_mem _ (List.mem_of_mem_take h)
        · exact .inr h
      · exact (ih h).imp_left (List.mem_cons_of_mem _)

end Lib.Utf8
