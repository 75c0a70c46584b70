import Provium.Lib.ShellWords
import Provium.Lib.Utf8

/-! The line that `--print-command` prints, as a shell reads it. -/
namespace Provium.Host
open Lib.Shell Lib.Utf8

/-- The bytes that are printed as they are: letters, digits and ten more. -/
def printable (c : UInt8) : Bool := alphanumeric c || c ∈ [95,64,37,43,61,58,44,46,47,45]

def renderText (s : List UInt8) : List UInt8 := if s ≠ [] ∧ s.all printable then s else singleQuoted s

/-- An argument is an `OsStr`, any bytes; what is printed is its `to_string_lossy`. -/
def renderArg (arg : List UInt8) : List UInt8 := renderText (lossy 0 arg)

/-- `render_command` -/
def renderCommand (program : List UInt8) (args : List (List UInt8)) : List UInt8 :=
  [32].intercalate ((program::args).map renderArg)

/-- The word that a text is read as. -/
def argWord (s : List UInt8) : Word := if s ≠ [] ∧ s.all printable then s.map .bare else s.map .quoted

/-- Where a command begins the word would be something else. -/
def Misread (reserved : List (List UInt8)) (program : List UInt8) : Prop :=
  program.all printable ∧ (assignment program ∨ program ≠ [] ∧ program ∈ reserved)

instance (reserved : List (List UInt8)) (program : List UInt8) : Decidable (Misread reserved program) :=
  decidable_of_iff (program.all printable ∧ (assignment program ∨ program ≠ [] ∧ reserved.contains program))
    (by rw [List.contains_iff_mem,Misread])

variable {s t program : List UInt8} {args : List (List UInt8)} {reserved : List (List UInt8)}

theorem literal_of_printable {c : UInt8} (h : printable c) : literal c := by
  have hspecial : special.all (fun c => !printable c) = true := rfl
  refine decide_eq_true fun hc => ?_
  have hnot := List.all_eq_true.1 hspecial c hc
  rw [h] at hnot
  cases hnot

theorem read_renderText (h : 0 ∉ s) :
    read (.plain none) (renderText s++t) = read (.plain (some (argWord s))) t := by
  unfold renderText argWord
  split_ifs with hs
  · exact read_word (fun c hc => literal_of_printable (List.all_eq_true.1 hs.2 c hc)) hs.1
  · exact read_singleQuoted h

theorem zero_not_mem_lossy (h : 0 ∉ s) : 0 ∉ lossy 0 s := by
  intro hmem
  obtain hmem | hmem := mem_lossy hmem
  · exact h hmem
  · revert hmem
    decide

theorem read_renderCommand (h : ∀ s ∈ program::args, 0 ∉ s) : read (.plain none) (renderCommand program args) =
    some ((program::args).map fun arg => argWord (lossy 0 arg)) := by
  have hzero := zero_not_mem_lossy (h program List.mem_cons_self)
  induction args generalizing program with
  | nil =>
    have hone : renderCommand program [] = renderText (lossy 0 program)++[] := by simp [renderCommand,renderArg]
    rw [hone,read_renderText hzero]
    rfl
  | cons arg args ih =>
    have hcons : renderCommand program (arg::args) =
        renderText (lossy 0 program)++32::renderCommand arg args := by
      simp [renderCommand,renderArg]
    have hargs : ∀ s ∈ arg::args, 0 ∉ s := fun s hs => h s (List.mem_cons_of_mem _ hs)
    rw [hcons,read_renderText hzero,read_space,ih hargs (zero_not_mem_lossy (hargs arg List.mem_cons_self))]
    rfl

theorem text_argWord (s : List UInt8) : (argWord s).text = s := by
  unfold argWord Word.text
  split_ifs
  · rw [List.map_map]
    exact List.map_id s
  · rw [List.map_map]
    exact List.map_id s

theorem not_expands_argWord (s : List UInt8) : (argWord s).any Piece.expands = false := by
  refine List.any_eq_false.2 fun e he => Bool.eq_false_iff.1 ?_
  unfold argWord at he
  split_ifs at he with hs
  · obtain ⟨c,hc,rfl⟩ := List.mem_map.1 he
    exact not_expands_literal (literal_of_printable (List.all_eq_true.1 hs.2 c hc))
  · obtain ⟨c,-,rfl⟩ := List.mem_map.1 he
    rfl

theorem assigns_argWord (s : List UInt8) : (argWord s).assigns = true ↔ s.all printable ∧ assignment s := by
  unfold argWord Word.assigns
  split_ifs with hs
  · rw [List.map_map]
    change assignment (s.map id) = true ↔ _
    rw [List.map_id]
    exact (and_iff_right hs.2).symm
  · refine iff_of_false ?_ ?_
    · have hquote : nameByte 39 = false := rfl
      cases s <;> simp [assignment,Piece.face,hquote]
    · rintro ⟨hall,hassign⟩
      cases s with
      | nil => cases hassign
      | cons c s => exact hs ⟨List.cons_ne_nil _ _,hall⟩

theorem isReserved_argWord (s : List UInt8) :
    (argWord s).isReserved reserved = true ↔ s.all printable ∧ s ≠ [] ∧ s ∈ reserved := by
  unfold Word.isReserved
  rw [text_argWord]
  unfold argWord
  split_ifs with hs
  · simp [hs.1,hs.2,Piece.isBare]
  · cases s with
    | nil => simp
    | cons c s => simp_all [Piece.isBare]

theorem text_argWords (words : List (List UInt8)) :
    (words.map fun arg => argWord (lossy 0 arg)).map Word.text = words.map (lossy 0) := by
  rw [List.map_map]
  exact List.map_congr_left fun arg _ => text_argWord (lossy 0 arg)

theorem renderCommand_eq (program : List UInt8) (args : List (List UInt8)) :
    renderCommand program args = [32].intercalate (((program::args).map (lossy 0)).map renderText) := by
  rw [List.map_map]
  rfl

/-- What the shell makes of the printed line. -/
theorem simpleCommand_renderCommand (h : ∀ s ∈ program::args, 0 ∉ s) :
    simpleCommand reserved (renderCommand program args) = some ⟨[],(program::args).map (lossy 0)⟩ ↔
      ¬Misread reserved (lossy 0 program) := by
  unfold simpleCommand Misread
  rw [read_renderCommand h,Option.bind_some]
  have hexpands : ((program::args).map fun arg => argWord (lossy 0 arg)).any (·.any Piece.expands) = false := by
    refine List.any_eq_false.2 fun w hw => ?_
    obtain ⟨s,-,rfl⟩ := List.mem_map.1 hw
    rw [not_expands_argWord]
    exact Bool.false_ne_true
  have hcond : ((lossy 0 program).all printable ∧ (assignment (lossy 0 program) ∨
      lossy 0 program ≠ [] ∧ lossy 0 program ∈ reserved)) ↔
        (argWord (lossy 0 program)).assigns = true ∨ (argWord (lossy 0 program)).isReserved reserved = true := by
    rw [assigns_argWord,isReserved_argWord,and_or_left]
  have htexts := text_argWords (program::args)
  rw [List.map_cons,List.map_cons] at htexts
  rw [hcond,hexpands,Bool.false_or,List.map_cons,List.head?_cons,Option.any_some,List.takeWhile_cons,
    List.dropWhile_cons]
  cases hr : (argWord (lossy 0 program)).isReserved reserved <;>
    cases ha : (argWord (lossy 0 program)).assigns
  · simp only [Bool.false_eq_true,if_false,List.map_nil,or_self,not_false_eq_true,iff_true]
    rw [List.map_cons,htexts,List.map_cons]
  · simp
  · simp
  · simp

/-- The printed line is read as the program and its arguments, with nothing expanded, exactly where they are all
UTF-8 and the program's name is not printed bare while it is an assignment or a word that the shell reserves. Two
commands print the same only where they are the same but for bytes that are not UTF-8. -/
theorem render_command_reads_back (reserved : List (List UInt8)) (program : List UInt8) (args : List (List UInt8))
    (h : ∀ s ∈ program::args, 0 ∉ s) :
    (simpleCommand reserved (renderCommand program args) = some ⟨[],program::args⟩ ↔
      (∀ s ∈ program::args, wellFormed 0 s = true) ∧ ¬Misread reserved program) ∧
    ∀ program' args', (∀ s ∈ program'::args', 0 ∉ s) →
      (renderCommand program' args' = renderCommand program args ↔
        (program'::args').map (lossy 0) = (program::args).map (lossy 0)) := by
  constructor
  · constructor
    · intro hread
      obtain ⟨ws,hws,htext⟩ := words_of_simpleCommand hread
      rw [read_renderCommand h] at hws
      rw [← Option.some.inj hws,text_argWords] at htext
      have hsame : ∀ s ∈ program::args, lossy 0 s = s := by
        have hid := htext.trans (List.map_id (program::args)).symm
        exact fun s hs => List.map_inj_left.1 hid s hs
      refine ⟨fun s hs => lossy_eq_self_iff.1 (hsame s hs),?_⟩
      rw [← hsame program List.mem_cons_self]
      refine (simpleCommand_renderCommand h).1 ?_
      rw [htext]
      exact hread
    · rintro ⟨hutf8,hmis⟩
      have hsame : (program::args).map (lossy 0) = program::args := by
        rw [List.map_congr_left fun s hs => lossy_eq_self_iff.2 (hutf8 s hs)]
        exact List.map_id _
      have hread := (@simpleCommand_renderCommand program args reserved h).2
      rw [hsame,lossy_eq_self_iff.2 (hutf8 program List.mem_cons_self)] at hread
      exact hread hmis
  · intro program' args' h'
    constructor
    · intro heq
      have hread := (read_renderCommand h').symm.trans ((congrArg _ heq).trans (read_renderCommand h))
      have htext := congrArg (List.map Word.text) (Option.some.inj hread)
      rw [text_argWords,text_argWords] at htext
      exact htext
    · intro heq
      rw [renderCommand_eq,renderCommand_eq,heq]

/-- An empty argument and one with a quote are read back. A program named `a=b` is not, nor one of another byte than
those of a text. -/
theorem render_command_reads_back_quote :
    simpleCommand [[105,102]] (renderCommand [113] [[],[97,39,98]]) = some ⟨[],[[113],[],[97,39,98]]⟩ ∧
    simpleCommand [] (renderCommand [97,61,98] []) ≠ some ⟨[],[[97,61,98]]⟩ ∧
    simpleCommand [] (renderCommand [113,255] []) ≠ some ⟨[],[[113,255]]⟩ := by
  refine ⟨?_,?_,?_⟩
  · exact (render_command_reads_back [[105,102]] [113] [[],[97,39,98]] (by decide)).1.2 (by decide)
  · exact fun h => ((render_command_reads_back [] [97,61,98] [] (by decide)).1.1 h).2 (by decide)
  · exact fun h => absurd (((render_command_reads_back [] [113,255] [] (by decide)).1.1 h).1 [113,255] (by decide))
      (by decide)

end Provium.Host
