import VibeSsh.Lib.Text

/-! # Rules of a sudoers file

The part of the sudoers language that names commands: one rule a line, for one user, to run a list
of commands as some account without a password. A command without arguments allows any arguments; a
pattern of arguments is matched against the arguments joined by blanks, and its `*` matches any text,
blanks included, so the pattern does not see where one argument ends. -/

open List

namespace Lib

/-- `fnmatch` without flags, for patterns whose only special character is `*`. -/
def Glob.accepts : Text → Text → Bool
  | [], text => text.isEmpty
  | c :: pattern, text =>
    if c = '*' then text.tails.any (Glob.accepts pattern)
    else text.head? = some c && Glob.accepts pattern text.tail

namespace Glob

theorem accepts_star (text : Text) : accepts ['*'] text = true := by
  have hnil : [] ∈ text.tails := (mem_tails _ _).mpr nil_suffix
  rw [accepts, if_pos rfl, any_eq_true]
  exact ⟨[], hnil, rfl⟩

variable {literal text : Text}

section

variable (h : '*' ∉ literal)
include h

/-- Text without `*` stands for itself. -/
theorem accepts_append {pattern : Text} :
    accepts (literal ++ pattern) text = true ↔
      ∃ rest, text = literal ++ rest ∧ accepts pattern rest = true := by
  induction literal generalizing text with
  | nil => simp
  | cons c literal ih =>
    obtain ⟨hc, hliteral⟩ := not_or.mp (mt mem_cons.mpr h)
    rw [cons_append, accepts, if_neg (Ne.symm hc), Bool.and_eq_true, ih hliteral]
    cases text with
    | nil => simp
    | cons d text =>
      constructor
      · rintro ⟨hd, rest, rfl, hrest⟩
        obtain rfl : d = c := by simpa using hd
        exact ⟨rest, rfl, hrest⟩
      · rintro ⟨rest, heq, hrest⟩
        obtain ⟨rfl, rfl⟩ := List.cons.inj heq
        exact ⟨by simp, rest, rfl, hrest⟩

theorem accepts_literal_iff : accepts literal text = true ↔ text = literal := by
  have := @accepts_append literal text h []
  simpa [accepts] using this

theorem accepts_below_iff : accepts (literal ++ ['*']) text = true ↔ literal <+: text := by
  rw [accepts_append h]
  constructor
  · rintro ⟨rest, rfl, -⟩
    exact prefix_append ..
  · rintro ⟨rest, rfl⟩
    exact ⟨rest, rfl, accepts_star rest⟩

theorem accepts_above_iff : accepts ('*' :: literal) text = true ↔ literal <:+ text := by
  rw [accepts, if_pos rfl, any_eq_true]
  constructor
  · rintro ⟨rest, hrest, haccepts⟩
    rw [← (accepts_literal_iff h).mp haccepts]
    exact (mem_tails _ _).mp hrest
  · intro hsuffix
    exact ⟨literal, (mem_tails _ _).mpr hsuffix, (accepts_literal_iff h).mpr rfl⟩

end

end Glob

namespace Sudo

inductive Runas where
  | all
  | account (name : Text)
  | group (name : Text)
  deriving DecidableEq

inductive Command where
  | all
  | program (path : Text) (arguments : Option Text)
  deriving DecidableEq

structure Rule where
  user : Text
  runas : Runas
  commands : List Command
  deriving DecidableEq

/-- `user` asks to run a program as the account `runas`. -/
structure Request where
  user : Text
  runas : Text
  path : Text
  arguments : List Text
  deriving DecidableEq

def Request.line (request : Request) : Text := Text.join [' '] request.arguments

/-! ## What a rule permits -/

def Runas.permits (inGroup : Text → Text → Bool) (target : Text) : Runas → Bool
  | .all => true
  | .account name => target == name
  | .group name => inGroup target name

def Command.permits (request : Request) : Command → Bool
  | .all => true
  | .program path none => request.path == path
  | .program path (some pattern) => request.path == path && Glob.accepts pattern request.line

def Rule.permits (inGroup : Text → Text → Bool) (request : Request) (rule : Rule) : Bool :=
  request.user == rule.user && rule.runas.permits inGroup request.runas &&
    rule.commands.any (Command.permits request)

/-! ## Rules as text -/

def Runas.text : Runas → Text
  | .all => "ALL"
  | .account name => name
  | .group name => '%' :: name

def Command.text : Command → Text
  | .all => "ALL"
  | .program path none => path
  | .program path (some pattern) => path ++ ' ' :: pattern

def Rule.text (rule : Rule) : Text :=
  rule.user ++ " ALL=(" ++ rule.runas.text ++ ") NOPASSWD: " ++
    Text.join ", " (rule.commands.map Command.text)

def parseRunas (t : Text) : Runas :=
  if t = "ALL" then .all
  else if t.head? = some '%' then .group t.tail
  else .account t

def parseCommand (t : Text) : Command :=
  if t = "ALL" then .all
  else match Text.splitOnce ' ' t with
    | none => .program t none
    | some (path, pattern) => .program path (some pattern)

/-- One line of the file; a comment is no rule. -/
def parseRule (line : Text) : Option Rule := do
  let (user, rest) ← Text.splitOnce ' ' line
  let (host, rest) ← Text.splitOnce '(' rest
  let (runas, rest) ← Text.splitOnce ')' rest
  let (tag, commands) ← Text.splitOnce ':' rest
  if user.head? = some '#' || host ≠ "ALL=" || tag ≠ " NOPASSWD" then none
  else some ⟨user, parseRunas runas, (commands.splitOn ',').map fun c => parseCommand (Text.trim c)⟩

/-- A command that is read back from its text, between commas. -/
def Command.Readable (c : Command) : Prop :=
  ',' ∉ c.text ∧ Text.trim c.text = c.text ∧ parseCommand c.text = c

/-- A rule whose fields hold none of the characters that end them. -/
structure Rule.Readable (rule : Rule) : Prop where
  user : ' ' ∉ rule.user ∧ '#' ∉ rule.user
  runas : ')' ∉ rule.runas.text ∧ parseRunas rule.runas.text = rule.runas
  nonempty : rule.commands ≠ []
  commands : ∀ c ∈ rule.commands, c.Readable

/-- Text without blanks and commas. -/
abbrev IsWord (t : Text) : Prop := (t.all fun c => !Text.isWhitespace c && c != ',') = true

theorem isWord_iff {t : Text} : IsWord t ↔ ∀ c ∈ t, Text.isWhitespace c = false ∧ c ≠ ',' := by
  simp [IsWord]

theorem IsWord.blank_not_mem {t : Text} (h : IsWord t) : ' ' ∉ t := fun hmem =>
  absurd (isWord_iff.mp h _ hmem).1 (by decide)

/-- A pattern of arguments a rule can hold: no comma, no blank at its end. -/
abbrev IsPattern (t : Text) : Prop :=
  t ≠ [] ∧ ',' ∉ t ∧ (t.getLast?.all fun c => !Text.isWhitespace c) = true

theorem IsPattern.append {t s : Text} (h : IsPattern t) (hs : ',' ∉ s) : IsPattern (s ++ t) := by
  obtain ⟨hne, hcomma, hlast⟩ := h
  refine ⟨by simp [hne], by simp [hs, hcomma], ?_⟩
  rw [List.getLast?_append_of_ne_nil s hne]
  exact hlast

theorem readable_program {path pattern : Text} (hpath : IsWord path) (hne : path ≠ [])
    (hpattern : IsPattern pattern) : (Command.program path (some pattern)).Readable := by
  obtain ⟨hsome, hcomma, hlast⟩ := hpattern
  have hall : path ++ ' ' :: pattern ≠ "ALL" := fun heq =>
    absurd (heq ▸ mem_append_right path (mem_cons_self ..) : ' ' ∈ "ALL".toList)
      (by decide)
  refine ⟨?_, ?_, ?_⟩
  · intro hmem
    rcases mem_append.mp hmem with hmem | hmem
    · exact (isWord_iff.mp hpath _ hmem).2 rfl
    · rcases mem_cons.mp hmem with hmem | hmem
      · cases hmem
      · exact hcomma hmem
  · refine Text.trim_eq_self_of_ends (fun c hc => ?_) fun c hc => ?_
    · rw [Command.text, List.head?_append_of_ne_nil _ hne] at hc
      exact (isWord_iff.mp hpath c (mem_of_head? hc)).1
    · rw [Command.text, List.getLast?_append_of_ne_nil _ (by simp),
        List.getLast?_cons_of_ne_nil hsome, Option.mem_def] at hc
      simpa [hc] using hlast
  · simp only [Command.text, parseCommand, if_neg hall, Text.splitOnce_append hpath.blank_not_mem]

theorem blank_join_commas (a : Text) (rest : List Text) :
    ' ' :: Text.join ", " (a :: rest) = Text.join [','] ((a :: rest).map (' ' :: ·)) := by
  induction rest generalizing a with
  | nil => rfl
  | cons b rest ih =>
    have hb := ih b
    unfold Text.join at *
    rw [intercalate_cons_cons, map_cons, map_cons, intercalate_cons_cons,
      ← map_cons, ← hb]
    simp

/-- Commands written with commas are read back one by one. -/
theorem trim_splitOn_commas {parts : List Text} (hne : parts ≠ [])
    (h : ∀ p ∈ parts, ',' ∉ p ∧ Text.trim p = p) :
    ((' ' :: Text.join ", " parts).splitOn ',').map Text.trim = parts := by
  obtain ⟨a, rest, rfl⟩ := exists_cons_of_ne_nil hne
  have hcut : ∀ p ∈ (a :: rest).map (' ' :: ·), ',' ∉ p := by
    intro p hp
    obtain ⟨q, hq, rfl⟩ := mem_map.mp hp
    simpa using (h q hq).1
  have htrim : ∀ q ∈ a :: rest, (Text.trim ∘ (' ' :: ·)) q = id q := by
    intro q hq
    rw [Function.comp_apply, Text.trim, dropWhile_cons_of_pos (by decide)]
    exact (h q hq).2
  rw [blank_join_commas, Text.join, splitOn_intercalate ',' hcut (by simp), map_map,
    map_congr_left htrim, map_id]

/-- **A readable rule written to the file is the rule sudo reads.** -/
theorem parseRule_text {rule : Rule} (h : rule.Readable) : parseRule rule.text = some rule := by
  obtain ⟨user, runas, commands⟩ := rule
  obtain ⟨⟨hblank, hhash⟩, ⟨hparen, hrunas⟩, hne, hcommands⟩ := h
  have hcomment : user.head? ≠ some '#' := fun h => hhash (mem_of_head? h)
  have htexts := @trim_splitOn_commas (commands.map Command.text) (by simpa using hne)
    fun p hp => by
      obtain ⟨c, hc, rfl⟩ := mem_map.mp hp
      exact ⟨(hcommands c hc).1, (hcommands c hc).2.1⟩
  have hread : ((' ' :: Text.join ", ".toList (commands.map Command.text)).splitOn ',').map
      (fun c => parseCommand (Text.trim c)) = commands := by
    have hid : ∀ c ∈ commands, (parseCommand ∘ Command.text) c = id c := fun c hc =>
      (hcommands c hc).2.2
    rw [← Function.comp_def, ← map_map, htexts, map_map, map_congr_left hid,
      map_id]
  have htext : Rule.text ⟨user, runas, commands⟩ = user ++ ' ' :: ("ALL=".toList ++
      '(' :: (runas.text ++ ')' :: (" NOPASSWD".toList ++
        ':' :: (' ' :: Text.join ", ".toList (commands.map Command.text))))) := by
    simp [Rule.text]
  have hhost : '(' ∉ "ALL=".toList := by decide
  have htag : ':' ∉ " NOPASSWD".toList := by decide
  generalize hh : "ALL=".toList = host at *
  generalize ht : " NOPASSWD".toList = tag at *
  rw [htext, parseRule, hh, ht, Text.splitOnce_append hblank]
  simp only [Option.bind_eq_bind, Option.bind_some, Text.splitOnce_append hhost,
    Text.splitOnce_append hparen, Text.splitOnce_append htag, hread, hrunas]
  simp [hcomment]

/-- Whether the file lets the request through. -/
def permits (inGroup : Text → Text → Bool) (file : List Text) (request : Request) : Bool :=
  (file.filterMap parseRule).any (Rule.permits inGroup request)

theorem permits_iff {inGroup : Text → Text → Bool} {file : List Text} {request : Request} :
    permits inGroup file request = true ↔
      ∃ line ∈ file, ∃ rule, parseRule line = some rule ∧ rule.permits inGroup request = true := by
  simp only [permits, any_eq_true, mem_filterMap]
  constructor
  · rintro ⟨rule, ⟨line, hline, hparse⟩, h⟩
    exact ⟨line, hline, rule, hparse, h⟩
  · rintro ⟨line, hline, rule, hparse, h⟩
    exact ⟨rule, ⟨line, hline, hparse⟩, h⟩

/-! ## The words of a command line -/

end Sudo

end Lib
