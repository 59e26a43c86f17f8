import VibeSsh.Lib.Text

/-! # Words of a simple command

How a POSIX shell recognises the words of one simple command and removes their quotes, one character
at a time: blanks separate words, single quotes keep every character, double quotes keep all but the
start of an expansion, a backslash keeps the next character, and a `#` between words starts a
comment. A character that starts an expansion, a pattern, a redirection or another command, and a
word that is a keyword or an assignment, leave this fragment; what the shell does from there is a
parameter, `beyond`. -/

namespace Lib.Shell

open Lib List

/-- Where the reader stands. A word is `plain` while no part of it was quoted. -/
inductive Mode where
  | between
  | word (plain : Bool) (w : Text)
  | single (w : Text)
  | double (w : Text)
  | doubleEscape (w : Text)
  | escape (back : Mode)
  | comment
  deriving DecidableEq

def Mode.current : Mode → Text
  | .word _ w => w
  | .single w => w
  | .double w => w
  | .doubleEscape w => w
  | .escape back => back.current
  | _ => []

def Mode.isPlain : Mode → Bool
  | .between => true
  | .word plain _ => plain
  | _ => false

/-- What the shell does from a character on that is outside the fragment. -/
abbrev Beyond := List Text → Mode → Text → Option (List Text)

def stop : Beyond := fun _ _ _ => none

def blank (c : Char) : Bool := c == ' ' || c == '\t'

/-- Unquoted characters outside the fragment: operators, expansions, patterns, and the braces some
shells expand. -/
def special (c : Char) : Bool :=
  ['|', '&', ';', '<', '>', '(', ')', '$', '`', '\n', '*', '?', '[', '~', '{', '}'].contains c

def keywords : List Text :=
  ["!", "case", "do", "done", "elif", "else", "esac", "fi", "for", "if", "in", "then", "until",
    "while"].map String.toList

/-- A first word the grammar reads as a keyword: only when no part of it is quoted. -/
def isKeyword (done : List Text) (plain : Bool) (w : Text) : Bool :=
  plain && done.isEmpty && keywords.contains w

/-- One unquoted character. -/
def bareStep (done : List Text) (mode : Mode) (c : Char) : Option (List Text × Mode) :=
  if blank c then
    match mode with
    | .word plain w => if isKeyword done plain w then none else some (done ++ [w], .between)
    | _ => some (done, .between)
  else if c = '\'' then some (done, .single mode.current)
  else if c = '"' then some (done, .double mode.current)
  else if c = '\\' then some (done, .escape mode)
  else if c = '#' ∧ mode = .between then some (done, .comment)
  else if special c then none
  -- a first word with an unquoted name before the sign is an assignment
  else if c = '=' ∧ done = [] ∧ mode.isPlain = true then none
  else some (done, .word mode.isPlain (mode.current ++ [c]))

/-- One character; `none` if it leads outside the fragment. -/
def step (done : List Text) (mode : Mode) (c : Char) : Option (List Text × Mode) :=
  match mode with
  | .single w => some (done, if c = '\'' then .word false w else .single (w ++ [c]))
  | .double w =>
    if c = '"' then some (done, .word false w)
    else if c = '\\' then some (done, .doubleEscape w)
    else if c = '$' ∨ c = '`' then none
    else some (done, .double (w ++ [c]))
  | .doubleEscape w =>
    some (done, .double (if c = '\n' then w
      else if ['$', '`', '"', '\\'].contains c then w ++ [c] else w ++ ['\\', c]))
  | .escape back => some (done, if c = '\n' then back else .word false (back.current ++ [c]))
  | .comment => if c = '\n' then none else some (done, .comment)
  | .between => bareStep done .between c
  | .word plain w => bareStep done (.word plain w) c

/-- The end of the line; `none` inside quotes, where the shell reads on. -/
def finish (done : List Text) : Mode → Option (List Text)
  | .between => some done
  | .comment => some done
  | .word plain w => if isKeyword done plain w then none else some (done ++ [w])
  | _ => none

def readWords (beyond : Beyond) (done : List Text) (mode : Mode) : Text → Option (List Text)
  | [] =>
    match finish done mode with
    | some words => some words
    | none => beyond done mode []
  | c :: cs =>
    match step done mode c with
    | some next => readWords beyond next.1 next.2 cs
    | none => beyond done mode (c :: cs)

/-- The words of a command line. A line with a NUL is never handed to a shell whole. -/
def words (beyond : Beyond) (line : Text) : Option (List Text) :=
  if line.contains '\x00' then beyond [] .between line else readWords beyond [] .between line

/-- The argument vector of a line inside the fragment. -/
def argv (command : Text) : Option (List Text) :=
  readWords stop [] .between command

/-- Single-quote escaping: an embedded quote closes, is written escaped, and reopens. -/
def escape : Text → Text
  | [] => []
  | c :: cs => if c = '\'' then '\'' :: '\\' :: '\'' :: '\'' :: escape cs else c :: escape cs

/-! ## Reading back what was quoted -/

variable (beyond : Beyond)

/-- An escaped body and its closing quote add exactly the original characters to the word. -/
theorem readWords_escape (done : List Text) (v rest : Text) (w : Text) :
    readWords beyond done (.single w) (escape v ++ '\'' :: rest) =
      readWords beyond done (.word false (w ++ v)) rest := by
  induction v generalizing w with
  | nil => simp [escape, readWords, step]
  | cons c cs ih =>
    by_cases hc : c = '\''
    · subst hc
      simp [escape, readWords, step, bareStep, blank, Mode.current, ih]
    · simp [escape, hc, readWords, step, ih]

theorem readWords_space {done : List Text} {plain : Bool} {w : Text}
    (hw : isKeyword done plain w = false) (rest : Text) :
    readWords beyond done (.word plain w) (' ' :: rest) =
      readWords beyond (done ++ [w]) .between rest := by
  simp [readWords, step, bareStep, blank, hw]

/-- Characters that mean nothing to the shell wherever they stand in a word. -/
def isBare (c : Char) : Bool :=
  !blank c && !special c && !(['\'', '"', '\\', '#', '='] : Text).contains c

/-- All other characters. -/
def marks : Text :=
  [' ', '\t', '|', '&', ';', '<', '>', '(', ')', '$', '`', '\n', '*', '?', '[', '~', '{', '}', '\'',
    '"', '\\', '#', '=']

theorem isBare_of_not_mem_marks {c : Char} (h : c ∉ marks) : isBare c = true := by
  simp only [marks, mem_cons, not_mem_nil, or_false, not_or] at h
  simp [isBare, blank, special, h]

theorem bareStep_isBare {c : Char} (h : isBare c = true) (done : List Text) (mode : Mode) :
    bareStep done mode c = some (done, .word mode.isPlain (mode.current ++ [c])) := by
  simp only [isBare, Bool.and_eq_true, Bool.not_eq_true', contains_eq_mem, mem_cons,
    not_mem_nil, or_false, decide_eq_false_iff_not, not_or] at h
  simp only [bareStep, h, Bool.false_eq_true, if_false, false_and]

theorem readWords_bare {t : Text} (h : ∀ c ∈ t, isBare c = true) (done : List Text) (plain : Bool)
    (w rest : Text) :
    readWords beyond done (.word plain w) (t ++ rest) =
      readWords beyond done (.word plain (w ++ t)) rest := by
  induction t generalizing w with
  | nil => simp
  | cons c t ih =>
    obtain ⟨hc, ht⟩ := forall_mem_cons.mp h
    rw [cons_append, readWords]
    simp only [step, bareStep_isBare hc, Mode.isPlain, Mode.current]
    rw [ih ht]
    simp

/-- An unquoted word. -/
theorem readWords_word {t : Text} (hne : t ≠ []) (h : ∀ c ∈ t, isBare c = true) (done : List Text)
    (rest : Text) :
    readWords beyond done .between (t ++ rest) = readWords beyond done (.word true t) rest := by
  obtain ⟨c, t, rfl⟩ := exists_cons_of_ne_nil hne
  obtain ⟨hc, ht⟩ := forall_mem_cons.mp h
  rw [cons_append, readWords]
  simp only [step, bareStep_isBare hc, Mode.isPlain, Mode.current]
  rw [readWords_bare beyond ht]
  simp

end Lib.Shell
