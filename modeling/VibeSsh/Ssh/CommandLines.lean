import VibeSsh.Firewall.DockerUser

/-! # Command lines

The lines sent over SSH are a fixed start followed by quoted arguments: `sudo docker …` for the
container runtime, `sudo -u <account> <helper> …` for an application's files, `sudo <helper> …` for
the container firewall. -/

namespace VibeSsh.Command

open Lib List

/-- `line.push(' '); line.push_str(&quote(arg))` for each argument. -/
def pushArguments (line : Text) (args : List Text) : Text :=
  args.foldl (fun line arg => line ++ ' ' :: quote arg) line

/-- `DockerCommandRunner::docker` over SSH. -/
def dockerLine (args : List Text) : Text := pushArguments "sudo docker" args

def helperPath : Text := "/usr/local/lib/vibessh/file-helper.sh"

def runHelperLine (username root op : Text) (args : List Text) : Text :=
  pushArguments ("sudo -u " ++ (quote username ++ ' ' :: (quote helperPath ++
    ' ' :: (quote root ++ ' ' :: quote op)))) args

def helperCommand (arguments : List Text) : Text :=
  "sudo " ++ (quote Firewall.helperPath ++ ' ' :: Text.join [' '] (arguments.map quote))

/-! ## Reading the arguments back -/

theorem pushArguments_eq (line : Text) (args : List Text) :
    pushArguments line args = line ++ args.flatMap fun arg => ' ' :: quote arg := by
  unfold pushArguments
  induction args generalizing line with
  | nil => simp
  | cons arg args ih => simp [ih]

theorem join_quotes (arg : Text) (args : List Text) :
    Text.join [' '] ((arg :: args).map quote) =
      quote arg ++ args.flatMap fun arg => ' ' :: quote arg := by
  induction args generalizing arg with
  | nil => simp [Text.join]
  | cons next args ih =>
    have h := ih next
    simp only [Text.join, map_cons] at h ⊢
    simp [intercalate_cons_cons, h]

variable (beyond : Shell.Beyond)

/-- Arguments pushed after a word that is not quoted end that word and are the words after it. -/
theorem readWords_arguments {done : List Text} {plain : Bool} {w : Text}
    (hw : Shell.isKeyword done plain w = false) (args : List Text) :
    Shell.readWords beyond done (.word plain w) (args.flatMap fun arg => ' ' :: quote arg) =
      some (done ++ w :: args) := by
  induction args generalizing done plain w with
  | nil => simp [Shell.readWords, Shell.finish, hw]
  | cons arg args ih =>
    rw [flatMap_cons, cons_append, Shell.readWords_space beyond hw, readWords_quote,
      ih (by simp [Shell.isKeyword])]
    simp

theorem mem_quote {value : Text} {c : Char} (h : c ∈ quote value) :
    c = '\'' ∨ c = '\\' ∨ c ∈ value := by
  have hbody : ∀ v : Text, c ∈ Shell.escape v → c = '\'' ∨ c = '\\' ∨ c ∈ v := by
    intro v hc
    induction v with
    | nil => cases hc
    | cons x xs ih =>
      unfold Shell.escape at hc
      split at hc <;> simp only [mem_cons] at hc ⊢ <;> grind
  simp only [quote, mem_cons, mem_append, not_mem_nil, or_false] at h
  rcases h with h | h | h
  · exact .inl h
  · exact hbody value h
  · exact .inl h

theorem nul_not_mem_quote {value : Text} (h : '\x00' ∉ value) : '\x00' ∉ quote value := by
  intro hmem
  rcases mem_quote hmem with hc | hc | hc
  · exact absurd hc (by decide)
  · exact absurd hc (by decide)
  · exact h hc

theorem nul_not_mem_quotes {args : List Text} (h : ∀ arg ∈ args, '\x00' ∉ arg) :
    '\x00' ∉ Text.join [' '] (args.map quote) := by
  intro hmem
  rcases Text.mem_join hmem with hsep | ⟨part, hpart, hc⟩
  · revert hsep
    decide
  · obtain ⟨arg, harg, rfl⟩ := mem_map.mp hpart
    exact nul_not_mem_quote (h arg harg) hc

/-- **Quoted arguments survive the shell.** The shell never meets an expansion, a pattern or an
operator in them. -/
theorem quoted_arguments_read_back (args : List Text) (h : ∀ arg ∈ args, '\x00' ∉ arg) :
    Shell.words beyond (Text.join [' '] (args.map quote)) = some args := by
  have hnul : (Text.join [' '] (args.map quote)).contains '\x00' = false := by
    simpa using nul_not_mem_quotes h
  rw [Shell.words, hnul]
  cases args with
  | nil => rfl
  | cons arg args =>
    rw [join_quotes]
    simp only [Bool.false_eq_true, if_false]
    rw [readWords_quote, readWords_arguments beyond rfl]
    simp

def hostileArguments : List Text :=
  ["", "it's", "a b\t\n", "$(id)`id`;*", "\\"].map String.toList

theorem hostile_arguments_read_back :
    (∀ arg ∈ hostileArguments, '\x00' ∉ arg) ∧
    Text.join [' '] (hostileArguments.map quote) =
      "'' 'it'\\''s' 'a b\t\n' '$(id)`id`;*' '\\'" ∧
    Shell.words Shell.stop (Text.join [' '] (hostileArguments.map quote)) = some hostileArguments := by
  have hnul : ∀ arg ∈ hostileArguments, '\x00' ∉ arg := by decide
  exact ⟨hnul, by decide, quoted_arguments_read_back Shell.stop hostileArguments hnul⟩

/-! ## The lines themselves -/

/-- Quoted arguments behind a fixed start, which has no NUL and ends in the word `w`. -/
theorem words_arguments {start : Text} (done : List Text) (plain : Bool) (w : Text)
    (hstart : '\x00' ∉ start) (hw : Shell.isKeyword done plain w = false)
    (hread : ∀ rest, Shell.readWords beyond [] .between (start ++ rest) =
      Shell.readWords beyond done (.word plain w) rest)
    {args : List Text} (h : ∀ arg ∈ args, '\x00' ∉ arg) :
    Shell.words beyond (start ++ args.flatMap fun arg => ' ' :: quote arg) =
      some (done ++ w :: args) := by
  have hnul : '\x00' ∉ start ++ args.flatMap fun arg => ' ' :: quote arg := by
    simp only [mem_append, mem_flatMap, mem_cons, not_or, not_exists, not_and]
    exact ⟨hstart, fun arg harg => ⟨by decide, nul_not_mem_quote (h arg harg)⟩⟩
  rw [Shell.words, if_neg (by simpa using hnul), hread]
  exact readWords_arguments beyond hw args

theorem words_dockerLine {args : List Text} (h : ∀ arg ∈ args, '\x00' ∉ arg) :
    Shell.words beyond (dockerLine args) = some ("sudo".toList :: "docker".toList :: args) := by
  rw [dockerLine, pushArguments_eq]
  exact words_arguments beyond ["sudo"] true "docker" (by decide) rfl (fun _ => rfl) h

theorem hostile_words_dockerLine :
    Shell.words Shell.stop (dockerLine hostileArguments) =
      some ("sudo".toList :: "docker".toList :: hostileArguments) :=
  words_dockerLine Shell.stop (by decide)

theorem words_runHelperLine {username root op : Text} {args : List Text}
    (h : ∀ word ∈ username :: root :: op :: args, '\x00' ∉ word) :
    Shell.words beyond (runHelperLine username root op args) =
      some ("sudo".toList :: "-u".toList :: username :: helperPath :: root :: op :: args) := by
  have hline : runHelperLine username root op args = "sudo -u".toList ++
      (username :: helperPath :: root :: op :: args).flatMap fun arg => ' ' :: quote arg := by
    rw [runHelperLine, pushArguments_eq]
    simp
  rw [hline]
  rw [forall_mem_cons] at h
  exact words_arguments beyond ["sudo"] true "-u" (by decide) rfl (fun _ => rfl)
    (forall_mem_cons.mpr ⟨h.1, forall_mem_cons.mpr ⟨by decide, h.2⟩⟩)

theorem hostile_words_runHelperLine :
    Shell.words Shell.stop (runHelperLine "app" "/srv/a b" "write" hostileArguments) =
      some ("sudo".toList :: "-u".toList :: "app".toList :: helperPath :: "/srv/a b".toList ::
        "write".toList :: hostileArguments) :=
  words_runHelperLine Shell.stop (by decide)

theorem words_helperCommand {argument : Text} {arguments : List Text}
    (h : ∀ word ∈ argument :: arguments, '\x00' ∉ word) :
    Shell.words beyond (helperCommand (argument :: arguments)) =
      some ("sudo".toList :: Firewall.helperPath :: argument :: arguments) := by
  have hline : helperCommand (argument :: arguments) = "sudo".toList ++
      (Firewall.helperPath :: argument :: arguments).flatMap fun arg => ' ' :: quote arg := by
    rw [helperCommand, join_quotes]
    simp
  rw [hline]
  exact words_arguments beyond [] true "sudo" (by decide) rfl (fun _ => rfl)
    (forall_mem_cons.mpr ⟨by decide, h⟩)

theorem hostile_words_helperCommand :
    Shell.words Shell.stop (helperCommand hostileArguments) =
      some ("sudo".toList :: Firewall.helperPath :: hostileArguments) :=
  words_helperCommand Shell.stop (by decide)

end VibeSsh.Command
