import Mathlib

/-! The words of a text between its breaks, and what trimming does to them. -/
namespace Lib.Words
variable {α : Type} (brk : α → Bool)

/-- The words of a text, of the first of which there is something already. -/
def wordsFrom (acc : List α) : List α → List (List α)
  | [] => if acc.isEmpty then [] else [acc]
  | a::text =>
    if brk a then (if acc.isEmpty then [] else [acc])++wordsFrom [] text else wordsFrom (acc++[a]) text

def words (text : List α) : List (List α) := wordsFrom brk [] text

variable {brk}

theorem wordsFrom_append_break {a : α} (ha : brk a = true) (acc text rest : List α) :
    wordsFrom brk acc (text++a::rest) = wordsFrom brk acc text++words brk rest := by
  induction text generalizing acc with
  | nil => simp [wordsFrom,ha,words]
  | cons b text ih =>
    rw [List.cons_append,wordsFrom,wordsFrom]
    split
    · rw [ih,List.append_assoc]
    · exact ih _

/-- Words split at a break. -/
theorem words_append_break {a : α} (ha : brk a = true) (text rest : List α) :
    words brk (text++a::rest) = words brk text++words brk rest := wordsFrom_append_break ha [] text rest

theorem words_cons_break {a : α} (ha : brk a = true) (text : List α) : words brk (a::text) = words brk text :=
  words_append_break ha [] text

theorem words_append_breaks {text breaks : List α} (h : ∀ a ∈ breaks, brk a = true) :
    words brk (text++breaks) = words brk text := by
  have hnil : ∀ breaks : List α, (∀ a ∈ breaks, brk a = true) → words brk breaks = [] := by
    intro breaks
    induction breaks with
    | nil => exact fun _ => rfl
    | cons a breaks ih =>
      intro h
      rw [words_cons_break (h a List.mem_cons_self)]
      exact ih fun b hb => h b (List.mem_cons_of_mem a hb)
  cases breaks with
  | nil => rw [List.append_nil]
  | cons a breaks =>
    rw [words_append_break (h a List.mem_cons_self),hnil breaks fun b hb => h b (List.mem_cons_of_mem a hb),
      List.append_nil]

theorem words_breaks_append {text breaks : List α} (h : ∀ a ∈ breaks, brk a = true) :
    words brk (breaks++text) = words brk text := by
  induction breaks with
  | nil => rfl
  | cons a breaks ih =>
    rw [List.cons_append,words_cons_break (h a List.mem_cons_self)]
    exact ih fun b hb => h b (List.mem_cons_of_mem a hb)

/-- The words have all that is no break. -/
theorem flatten_words (text : List α) : (words brk text).flatten = text.filter fun a => !brk a := by
  have hfrom : ∀ (text acc : List α), (wordsFrom brk acc text).flatten = acc++text.filter fun a => !brk a := by
    intro text
    induction text with
    | nil =>
      intro acc
      cases acc <;> simp [wordsFrom]
    | cons a text ih =>
      intro acc
      rw [wordsFrom]
      split
      · next ha =>
        rw [List.flatten_append,ih,List.filter_cons_of_neg (by simp [ha])]
        cases acc <;> simp
      · next ha =>
        rw [ih,List.filter_cons_of_pos (by simpa using ha),List.append_assoc]
        rfl
  exact hfrom text []

/-- A text with breaks trimmed off its end has the same words. -/
theorem words_rdropWhile {p : α → Bool} {text : List α} (h : ∀ a ∈ text.rtakeWhile p, brk a = true) :
    words brk (text.rdropWhile p) = words brk text := by
  have hall := @List.rdropWhile_append_rtakeWhile α p text
  conv_rhs => rw [← hall]
  exact (words_append_breaks h).symm

/-- What is counted of a text and is no break is counted of its words. -/
theorem countP_words {q : α → Bool} (hq : ∀ a, q a = true → brk a = false) (text : List α) :
    ((words brk text).map (List.countP q)).sum = text.countP q := by
  have hsum : ((words brk text).map (List.countP q)).sum = (words brk text).flatten.countP q := by
    rw [List.countP_flatten]
  rw [hsum,flatten_words,List.countP_filter]
  refine List.countP_congr fun a _ => ?_
  rw [Bool.and_eq_true,and_iff_left_iff_imp]
  intro ha
  simp [hq a ha]

theorem countP_rdropWhile (q p : α → Bool) (text : List α) :
    (text.rdropWhile p).countP q+(text.rtakeWhile p).countP q = text.countP q := by
  rw [← List.countP_append,List.rdropWhile_append_rtakeWhile]

end Lib.Words
