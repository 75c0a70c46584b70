import Mathlib

/-! One simple command as a POSIX shell reads its bytes: blanks, comments, quotes of one kind, backslashes,
assignments and reserved words. Where a line has something else that a shell knows, an operator, an expansion or
a double quote, nothing is read. -/
namespace Lib.Shell

/-- A byte of a word, quoted or not. -/
inductive Piece where
  | bare (c : UInt8)
  | quoted (c : UInt8)
  deriving DecidableEq, Repr

abbrev Word := List Piece

namespace Piece

def byte : Piece → UInt8
  | .bare c | .quoted c => c

/-- What a name may be made of is seen only where it is not quoted. -/
def face : Piece → UInt8
  | .bare c => c
  | .quoted _ => 39

def isBare : Piece → Bool
  | .bare _ => true
  | .quoted _ => false

/-- Patterns, and the tilde of a home directory. -/
def expands : Piece → Bool
  | .bare c => c ∈ [42,63,91,126]
  | .quoted _ => false

end Piece

/-- Space and tab. -/
def blank (c : UInt8) : Bool := c = 32 || c = 9

/-- What ends a command or begins an expansion: a newline, the operators, the dollar, the back quote and the double
quote. No text has the last one. -/
def breaks (c : UInt8) : Bool := c ∈ [10,59,38,124,40,41,60,62,36,96,34,0]

/-- Where a line is read: outside quotes, with the word begun if there is one, in quotes, behind a backslash, or in a
comment. -/
inductive At where
  | plain (w : Option Word)
  | quote (w : Word)
  | escape (w : Option Word)
  | comment
  deriving DecidableEq, Repr

/-- The word that a byte ends, and where it leads. The quote is 39, the backslash 92, and a comment begins with 35. -/
def At.next : At → UInt8 → Option (Option Word × At)
  | .plain w, c =>
    if blank c then some (w,.plain none)
    else if c = 39 then some (none,.quote (w.getD []))
    else if c = 92 then some (none,.escape w)
    else if c = 35 ∧ w = none then some (none,.comment)
    else if breaks c then none
    else some (none,.plain (some (w.getD []++[.bare c])))
  | .quote w, c =>
    if c = 0 then none
    else if c = 39 then some (none,.plain (some w))
    else some (none,.quote (w++[.quoted c]))
  | .escape w, c =>
    if c = 0 then none
    else if c = 10 then some (none,.plain w)
    else some (none,.plain (some (w.getD []++[.quoted c])))
  | .comment, c => if c = 10 ∨ c = 0 then none else some (none,.comment)

/-- The words of a line. -/
def read : At → List UInt8 → Option (List Word)
  | .plain w, [] => some w.toList
  | .comment, [] => some []
  | .quote _, [] | .escape _, [] => none
  | p, c::s => (p.next c).bind fun e => (read e.2 s).map (e.1.toList++·)

def digit (c : UInt8) : Bool := 48 ≤ c && c ≤ 57

def alphanumeric (c : UInt8) : Bool := digit c || (65 ≤ c && c ≤ 90) || (97 ≤ c && c ≤ 122)

def nameByte (c : UInt8) : Bool := alphanumeric c || c = 95

/-- A name and an equals sign. -/
def assignment (s : List UInt8) : Bool :=
  (s.takeWhile nameByte).head?.any (!digit ·) && (s.dropWhile nameByte).head? = some 61

namespace Word

/-- What is left when the quotes are removed. -/
def text (w : Word) : List UInt8 := w.map Piece.byte

def assigns (w : Word) : Bool := assignment (w.map Piece.face)

/-- A reserved word is recognised when none of it is quoted. -/
def isReserved (reserved : List (List UInt8)) (w : Word) : Bool :=
  w.all Piece.isBare && !w.isEmpty && reserved.contains w.text

end Word

structure SimpleCommand where
  assigns : List (List UInt8)
  words : List (List UInt8)
  deriving DecidableEq, Repr

/-- The command of a line that is a simple one with no expansions, for a shell with these reserved words. -/
def simpleCommand (reserved : List (List UInt8)) (line : List UInt8) : Option SimpleCommand :=
  (read (.plain none) line).bind fun ws =>
    if ws.any (·.any Piece.expands) || ws.head?.any (Word.isReserved reserved) then none
    else some ⟨(ws.takeWhile Word.assigns).map Word.text,(ws.dropWhile Word.assigns).map Word.text⟩

/-- A text in quotes, where a quote is written outside of them. -/
def singleQuoted (s : List UInt8) : List UInt8 :=
  39::s.flatMap (fun c => if c = 39 then [39,92,39,39] else [c])++[39]

/-- The bytes that may mean something outside quotes. -/
def special : List UInt8 := [32,9,39,92,35,10,59,38,124,40,41,60,62,36,96,34,0,42,63,91,126]

/-- A byte that is itself wherever it stands. -/
def literal (c : UInt8) : Bool := c ∉ special

variable {s t : List UInt8} {w : Word} {c : UInt8}

theorem read_cons (p : At) (c : UInt8) (s : List UInt8) :
    read p (c::s) = (p.next c).bind fun e => (read e.2 s).map (e.1.toList++·) := by
  cases p <;> rfl

/-- No word ends here. -/
theorem read_of_next {p q : At} (h : p.next c = some (none,q)) : read p (c::s) = read q s := by
  rw [read_cons,h]
  cases hq : read q s <;> simp [hq]

theorem next_literal (h : literal c) (w : Option Word) :
    (At.plain w).next c = some (none,.plain (some (w.getD []++[.bare c]))) := by
  simp only [literal,special,List.mem_cons,List.not_mem_nil,or_false,not_or,decide_eq_true_eq] at h
  simp [At.next,blank,breaks,h]

theorem not_expands_literal (h : literal c) : (Piece.bare c).expands = false := by
  simp only [literal,special,List.mem_cons,List.not_mem_nil,or_false,not_or,decide_eq_true_eq] at h
  simp [Piece.expands,h]

theorem read_bare (h : ∀ c ∈ s, literal c) :
    read (.plain (some w)) (s++t) = read (.plain (some (w++s.map .bare))) t := by
  induction s generalizing w with
  | nil => simp
  | cons c s ih =>
    rw [List.cons_append,read_of_next (next_literal (h c List.mem_cons_self) _),Option.getD_some,
      ih fun d hd => h d (List.mem_cons_of_mem _ hd),List.append_assoc]
    rfl

/-- A word that is not quoted. -/
theorem read_word (h : ∀ c ∈ s, literal c) (hs : s ≠ []) :
    read (.plain none) (s++t) = read (.plain (some (s.map .bare))) t := by
  cases s with
  | nil => exact absurd rfl hs
  | cons c s =>
    rw [List.cons_append,read_of_next (next_literal (h c List.mem_cons_self) _),
      read_bare fun d hd => h d (List.mem_cons_of_mem _ hd)]
    rfl

theorem read_in_quotes (h : 0 ∉ s) :
    read (.quote w) (s.flatMap (fun c => if c = 39 then [39,92,39,39] else [c])++39::t) =
      read (.plain (some (w++s.map .quoted))) t := by
  induction s generalizing w with
  | nil =>
    rw [List.map_nil,List.append_nil]
    exact read_of_next rfl
  | cons c s ih =>
    have hc : c ≠ 0 := fun hc => h (hc ▸ List.mem_cons_self)
    have ih := @ih (w++[.quoted c]) fun hs => h (List.mem_cons_of_mem _ hs)
    rw [List.flatMap_cons]
    split_ifs with hquote
    · subst hquote
      -- The quotes end, the quote stands behind a backslash, and they begin again.
      refine (read_of_next rfl).trans ((read_of_next rfl).trans ?_)
      refine (read_of_next rfl).trans ((read_of_next rfl).trans ?_)
      refine ih.trans ?_
      rw [List.append_assoc]
      rfl
    · refine (read_of_next (q := .quote (w++[.quoted c])) (by simp [At.next,hc,hquote])).trans (ih.trans ?_)
      rw [List.append_assoc]
      rfl

/-- A word in quotes. -/
theorem read_singleQuoted (h : 0 ∉ s) :
    read (.plain none) (singleQuoted s++t) = read (.plain (some (s.map .quoted))) t := by
  rw [singleQuoted,List.append_assoc,List.cons_append,read_of_next (q := .quote []) rfl]
  exact read_in_quotes h

theorem read_space (w : Word) (t : List UInt8) :
    read (.plain (some w)) (32::t) = (read (.plain none) t).map (w::·) := by
  rw [read_cons]
  rfl

/-- Where there is no assignment the words are all that is read. -/
theorem words_of_simpleCommand {reserved words : List (List UInt8)} {line : List UInt8}
    (h : simpleCommand reserved line = some ⟨[],words⟩) :
    ∃ ws, read (.plain none) line = some ws ∧ ws.map Word.text = words := by
  obtain ⟨ws,hws,h⟩ := Option.bind_eq_some_iff.1 h
  split_ifs at h
  obtain ⟨htake,hdrop⟩ := SimpleCommand.mk.inj (Option.some.inj h)
  refine ⟨ws,hws,?_⟩
  have happend := @List.takeWhile_append_dropWhile _ Word.assigns ws
  rw [List.map_eq_nil_iff.1 htake,List.nil_append] at happend
  rw [← hdrop,happend]

end Lib.Shell
