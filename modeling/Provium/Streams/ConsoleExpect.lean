import Provium.Lib.Utf8

/-! `console:expect`, which looks for its pattern in the console's log. Of each poll it decodes only what has
come since the last one, and on its own. -/
namespace Provium.Streams.ConsoleLog
open Lib.Utf8

/-- A Rust `String`. -/
structure Text where
  bytes : List UInt8
  valid : wellFormed 0 bytes = true

inductive ExpectError where
  | os (message : String)
  | timedOut
  deriving DecidableEq, Repr

/-- The polls until the deadline, from behind so many bytes. -/
def expect (pattern : Text) : ℕ → List (Except String (List UInt8)) → Except ExpectError (List UInt8)
  | _,[] => .error .timedOut
  | _,.error e::_ => .error (.os e)
  | lastLen,.ok bytes::polls =>
    if lastLen ≤ bytes.length then
      if pattern.bytes <:+: lossy 0 (bytes.drop lastLen) then .ok pattern.bytes
      else expect pattern bytes.length polls
    else expect pattern lastLen polls

/-- The log at each poll, when a piece has been appended to it before each. -/
def growth : List UInt8 → List (List UInt8) → List (List UInt8)
  | _,[] => []
  | log,piece::pieces => (log++piece)::growth (log++piece) pieces

/-- A poll after each piece. -/
def expectOver (pattern : Text) (pieces : List (List UInt8)) : Except ExpectError (List UInt8) :=
  expect pattern 0 ((growth [] pieces).map .ok)

/-- A text that stands in a piece is found in it. -/
theorem infix_lossy (pattern : Text) {piece : List UInt8} (h : pattern.bytes <:+: piece) :
    pattern.bytes <:+: lossy 0 piece := by
  obtain ⟨front,tail,rfl⟩ := h
  obtain ⟨bytes,valid⟩ := pattern
  cases bytes with
  | nil => exact List.nil_infix
  | cons b p =>
    have hstart : ∀ c, (b::p++tail).head? = some c → continues c = false := by
      intro c hc
      obtain rfl : b = c := Option.some.inj hc
      by_contra hcontinues
      rw [wellFormed,readChar,trailers_of_continues (by simpa using hcontinues)] at valid
      cases valid
    obtain ⟨decoded,hdecoded⟩ := lossy_front hstart (Nat.zero_le front.length)
    rw [List.append_assoc,hdecoded,lossy_wellFormed valid (Nat.zero_le _)]
    exact ⟨decoded,lossy 0 tail,by rw [List.drop_zero,List.append_assoc]⟩

/-- The call succeeds where one of the pieces has the pattern. -/
theorem expect_growth (pattern : Text) (log : List UInt8) (pieces : List (List UInt8)) :
    expect pattern log.length ((growth log pieces).map .ok) =
      if ∃ piece ∈ pieces, pattern.bytes <:+: lossy 0 piece then .ok pattern.bytes else .error .timedOut := by
  induction pieces generalizing log with
  | nil => simp [growth,expect]
  | cons piece pieces ih =>
    rw [growth,List.map_cons,expect,if_pos (by simp),List.drop_left,ih]
    by_cases hpiece : pattern.bytes <:+: lossy 0 piece
    · rw [if_pos hpiece,if_pos ⟨piece,List.mem_cons_self,hpiece⟩]
    · rw [if_neg hpiece]
      refine if_congr ?_ rfl rfl
      simp only [List.exists_mem_cons_iff,hpiece,false_or]

theorem expectOver_eq (pattern : Text) (pieces : List (List UInt8)) : expectOver pattern pieces =
    if ∃ piece ∈ pieces, pattern.bytes <:+: lossy 0 piece then .ok pattern.bytes else .error .timedOut :=
  expect_growth pattern [] pieces

/-- What comes between two polls is found. -/
theorem expectOver_piece (pattern : Text) {pieces : List (List UInt8)} {piece : List UInt8}
    (hmem : piece ∈ pieces) (hin : pattern.bytes <:+: piece) : expectOver pattern pieces = .ok pattern.bytes := by
  rw [expectOver_eq]
  exact if_pos ⟨piece,hmem,infix_lossy pattern hin⟩

/-- The call finds what is in the log exactly where it is in the log at no poll, or in one of the pieces that
come between two polls, decoded on its own. -/
theorem console_expect_finds_iff (pattern : Text) (pieces : List (List UInt8)) :
    ((∃ log ∈ growth [] pieces, pattern.bytes <:+: log) → expectOver pattern pieces = .ok pattern.bytes) ↔
      (∀ log ∈ growth [] pieces, ¬pattern.bytes <:+: log) ∨
        ∃ piece ∈ pieces, pattern.bytes <:+: lossy 0 piece := by
  rw [expectOver_eq]
  constructor
  · intro h
    by_cases hlog : ∃ log ∈ growth [] pieces, pattern.bytes <:+: log
    · refine .inr ?_
      by_contra hno
      have := h hlog
      rw [if_neg hno] at this
      cases this
    · exact .inl fun log hmem hin => hlog ⟨log,hmem,hin⟩
  · rintro (hno | hpiece) ⟨log,hmem,hin⟩
    · exact absurd hin (hno log hmem)
    · exact if_pos hpiece

/-- `login` in two pieces, and the two bytes of `é`. -/
theorem console_expect_misses :
    ((∃ log ∈ growth [] [[108,111],[103,105,110]], [108,111,103,105,110] <:+: log) ∧
      expectOver ⟨[108,111,103,105,110],by decide⟩ [[108,111],[103,105,110]] = .error .timedOut) ∧
    (∃ log ∈ growth [] [[195],[169]], [195,169] <:+: log) ∧
      expectOver ⟨[195,169],by decide⟩ [[195],[169]] = .error .timedOut :=
  ⟨⟨⟨_,List.mem_cons_of_mem _ List.mem_cons_self,by decide⟩,by decide⟩,
    ⟨_,List.mem_cons_of_mem _ List.mem_cons_self,by decide⟩,by decide⟩

end Provium.Streams.ConsoleLog
