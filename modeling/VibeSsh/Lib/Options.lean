import VibeSsh.Lib.Text

/-! # Options before positional arguments

A program that reads options up to the first argument that does not begin with a dash. What an
argument with a dash means is the program's own table. A list rendered from options the table knows
is read back as those options, and the argument after them ends the options exactly if it has no
dash. -/

namespace Lib.Options
open List Option

/-- What an argument that begins with a dash is to the program. -/
inductive Reading where
  | flag
  | attached (name value : Text)
  | takesNext
  | ends
  | unknown
  deriving DecidableEq

abbrev Table := Text → Reading

abbrev Setting := Text × Option Text

structure Seen where
  options : List Setting
  positional : List Text
  deriving DecidableEq

def Seen.after (options : List Setting) (seen : Seen) : Seen :=
  { seen with options := options ++ seen.options }

def isDashed (argument : Text) : Bool := argument.head? = some '-'

/-- None where the program refuses the arguments. -/
def parse (table : Table) : List Text → Option Seen
  | [] => some ⟨[], []⟩
  | argument :: rest =>
    if !isDashed argument then some ⟨[], argument :: rest⟩
    else
      match table argument, rest with
      | .flag, rest => (parse table rest).map (Seen.after [(argument, none)])
      | .attached name value, rest => (parse table rest).map (Seen.after [(name, some value)])
      | .takesNext, value :: rest => (parse table rest).map (Seen.after [(argument, some value)])
      | .takesNext, [] => none
      | .ends, rest => some ⟨[], rest⟩
      | .unknown, _ => none

def render (setting : Setting) : List Text := setting.1 :: setting.2.toList

/-- The table reads an option as it was meant. -/
structure Known (table : Table) (setting : Setting) : Prop where
  dashed : isDashed setting.1 = true
  reading : table setting.1 = if setting.2.isSome then .takesNext else .flag

variable {table : Table}

theorem parse_render {setting : Setting} (h : Known table setting) (rest : List Text) :
    parse table (render setting ++ rest) = (parse table rest).map (Seen.after [setting]) := by
  obtain ⟨name, value⟩ := setting
  cases value with
  | none =>
    have hreading : table name = .flag := h.reading
    simp [render, parse, h.dashed, hreading]
  | some value =>
    have hreading : table name = .takesNext := h.reading
    simp [render, parse, h.dashed, hreading]

variable {settings : List Setting}

theorem parse_flatMap_render (h : ∀ setting ∈ settings, Known table setting) (rest : List Text) :
    parse table (settings.flatMap render ++ rest) =
      (parse table rest).map (Seen.after settings) := by
  induction settings with
  | nil =>
    rw [flatMap_nil, nil_append]
    cases parse table rest <;> rfl
  | cons setting settings ih =>
    rw [flatMap_cons, append_assoc, parse_render (h setting mem_cons_self),
      ih fun s hs => h s (mem_cons_of_mem _ hs), Option.map_map]
    rfl

/-- The positional arguments are the end of what was given. -/
theorem positional_suffix {arguments : List Text} {seen : Seen}
    (h : parse table arguments = some seen) : seen.positional <:+ arguments := by
  fun_induction parse table arguments generalizing seen with
  | case1 | case2 argument rest _ =>
    cases h
    exact suffix_rfl
  | case3 argument _ rest _ ih | case4 argument _ _ _ rest _ ih =>
    obtain ⟨inner, hinner, rfl⟩ := map_eq_some_iff.mp h
    exact (ih hinner).trans (suffix_cons argument rest)
  | case5 argument _ value rest _ ih =>
    obtain ⟨inner, hinner, rfl⟩ := map_eq_some_iff.mp h
    exact (ih hinner).trans ((suffix_cons value rest).trans (suffix_cons argument _))
  | case7 argument _ rest =>
    cases h
    exact suffix_cons argument rest
  | case6 | case8 => cases h

theorem positional_suffix_of_dashed {argument : Text}
    (hdash : isDashed argument = true) {rest : List Text} {seen : Seen}
    (h : parse table (argument :: rest) = some seen) : seen.positional <:+ rest := by
  unfold parse at h
  rw [if_neg (by simp [hdash])] at h
  split at h
  next =>
    obtain ⟨inner, hinner, rfl⟩ := map_eq_some_iff.mp h
    exact (positional_suffix hinner :)
  next =>
    obtain ⟨inner, hinner, rfl⟩ := map_eq_some_iff.mp h
    exact (positional_suffix hinner :)
  next =>
    obtain ⟨inner, hinner, rfl⟩ := map_eq_some_iff.mp h
    exact (positional_suffix hinner).trans (suffix_cons _ _)
  next => cases h
  next =>
    cases h
    exact suffix_rfl
  next => cases h

/-- **Where the options end.** After options the table knows, an argument and what follows it are
positional exactly if it has no dash. -/
theorem parse_eq_iff (h : ∀ setting ∈ settings, Known table setting) (argument : Text)
    (rest : List Text) :
    parse table (settings.flatMap render ++ argument :: rest) =
      some ⟨settings, argument :: rest⟩ ↔ isDashed argument = false := by
  rw [parse_flatMap_render h]
  constructor
  · intro heq
    obtain ⟨seen, hseen, hafter⟩ := map_eq_some_iff.mp heq
    rw [Bool.eq_false_iff]
    intro hdash
    have hpositional : seen.positional = argument :: rest := congrArg Seen.positional hafter
    have hlength := (positional_suffix_of_dashed hdash hseen).length_le
    rw [hpositional, length_cons] at hlength
    omega
  · intro hdash
    unfold parse
    simp [hdash, Seen.after]

end Lib.Options
