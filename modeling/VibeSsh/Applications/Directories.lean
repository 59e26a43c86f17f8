import VibeSsh.Ssh.Command

/-! # Working directories

The commands that act on an application's working directory as root: emptying it before a clean
reinstall, removing it with the application, and handing it to the application's account on every
start. What a command is aimed at is read off its argument vector: an absolute operand denotes its
lexical components. -/

namespace VibeSsh.Directories

open Lib Command

def username (application : Uuid) : Text := "vibessh-app-" ++ application.simple.take 12

/-- `validate_remote_working_directory`: a local application may live anywhere. -/
def validateRemoteWorkingDirectory (server : Option Uuid) (workingDirectory : Text) :
    AppResult Unit :=
  match server with
  | none => .ok ()
  | some _ => validateApplicationDirectory workingDirectory

/-- The remote half of `clear_working_directory`: the command it sends, once re-validated. -/
def clearWorkingDirectory (workingDirectory : Text) : AppResult Text := do
  validateApplicationDirectory workingDirectory
  .ok ("sudo find " ++ (quote workingDirectory ++ " -mindepth 1 -delete"))

def removeWorkingDirectory (workingDirectory : Text) : AppResult Text := do
  validateApplicationDirectory workingDirectory
  .ok ("sudo rm -rf " ++ quote workingDirectory)

/-- `ensure_working_directory_owned_by_dedicated_user`, run on every start and restart. -/
def chownWorkingDirectory (application : Uuid) (workingDirectory : Text) : Text :=
  "sudo chown -R " ++ (quote (username application) ++ (" " ++ quote workingDirectory))

/-! ## What the remote shell makes of them -/

theorem argv_clear {wd command : Text} (h : clearWorkingDirectory wd = .ok command) :
    Shell.argv command =
      some ["sudo".toList, "find".toList, wd, "-mindepth".toList, "1".toList, "-delete".toList] := by
  obtain ⟨_, -, hc⟩ := try_ok_iff.mp h
  cases hc
  exact readWords_quote Shell.stop ["sudo".toList, "find".toList] wd " -mindepth 1 -delete".toList

theorem argv_chown (application : Uuid) (wd : Text) :
    Shell.argv (chownWorkingDirectory application wd) =
      some ["sudo".toList, "chown".toList, "-R".toList, username application, wd] := by
  have h1 := readWords_quote Shell.stop ["sudo".toList, "chown".toList, "-R".toList] (username application)
    (" ".toList ++ quote wd)
  have h2 := readWords_quote Shell.stop
    ["sudo".toList, "chown".toList, "-R".toList, username application] wd []
  rw [List.append_nil] at h2
  exact h1.trans h2

/-! ## Shared directories -/

/-- A directory no single application owns: listed, or fewer than two components deep. -/
def Shared (p : List Text) : Prop :=
  p ∈ forbiddenDirectories.map Text.lexical ∨ p.length < 2

instance (p : List Text) : Decidable (Shared p) := by unfold Shared; infer_instance

/-- The directory an absolute operand denotes lexically. -/
def denotes (argument : Text) : Option (List Text) :=
  if Text.startsWith ['/'] argument then some (Text.lexical argument) else none

/-- Some operand of the command is a shared directory. -/
def AimedAtShared (command : Text) : Prop :=
  ∃ args, Shell.argv command = some args ∧ ∃ a ∈ args, ∃ p, denotes a = some p ∧ Shared p

theorem shared_iff {p : List Text} : Shared p ↔ p.length < 2 := by
  refine ⟨?_, .inr⟩
  rintro (h | h)
  · revert p
    decide
  · exact h

/-- An accepted path of two or more segments of which at most one is not `.`. -/
def DotSpelled (value : Text) : Prop :=
  IsAbsolutePath value ∧ 2 ≤ (Text.segments (Text.trim value)).length ∧
    (Text.segments (Text.trim value)).length ≤
      (Text.segments (Text.trim value)).count ['.'] + 1

instance (value : Text) : Decidable (DotSpelled value) := by unfold DotSpelled; infer_instance

theorem shared_lexical_iff {value : Text} (h : validateApplicationDirectory value = .ok ()) :
    Shared (Text.lexical (Text.trim value)) ↔ DotSpelled value := by
  obtain ⟨habs, hdepth⟩ := validateApplicationDirectory_ok_iff.mp h
  have hlen := Text.length_segments_eq (Text.trim value)
  rw [shared_iff]
  constructor
  · intro hs
    exact ⟨habs, hdepth, by omega⟩
  · rintro ⟨-, -, hdots⟩
    omega

/-- Trailing blanks left on an accepted operand never make it shallower. -/
theorem not_shared_of_denotes {value : Text} {p : List Text} (hp : denotes value = some p)
    (h : ¬Shared (Text.lexical (Text.trim value))) : ¬Shared p := by
  unfold denotes at hp
  split at hp
  · next hslash =>
    cases hp
    obtain ⟨c, rest, rfl⟩ : ∃ c rest, value = c :: rest := by
      cases value with
      | nil => simp [Text.startsWith] at hslash
      | cons c rest => exact ⟨c, rest, rfl⟩
    obtain rfl : '/' = c := by simpa [Text.startsWith] using hslash
    obtain ⟨w, hw, hblank⟩ := Text.trim_append_of_not_isWhitespace (c := '/') (by decide) rest
    have hnoSlash : '/' ∉ w := fun hmem => by
      have := hblank _ hmem
      revert this
      decide
    have hle := Text.length_lexical_append hnoSlash (Text.trim ('/' :: rest))
    rw [← hw] at hle
    rw [shared_iff] at h ⊢
    omega
  · cases hp

/-- Of a command's words only the working directory can denote a directory. -/
theorem not_aimedAtShared {command value : Text} {words : List Text}
    (hargv : Shell.argv command = some words)
    (hwords : ∀ w ∈ words, w = value ∨ Text.startsWith ['/'] w = false)
    (h : ¬Shared (Text.lexical (Text.trim value))) : ¬AimedAtShared command := by
  rintro ⟨args, hargs, a, ha, p, hp, hshared⟩
  rw [hargv] at hargs
  cases hargs
  rcases hwords a ha with rfl | hw
  · exact not_shared_of_denotes hp h hshared
  · simp [denotes, hw] at hp

/-- **An accepted directory is the application's own, except when it is spelled with dots.** The
segment count takes `.` for a component, so `/etc/.` passes and reaches `find -delete` as `/etc`. -/
theorem accepted_directory_private_iff (value : Text) (application : Uuid) :
    (validateApplicationDirectory value = .ok () →
      ¬Shared (Text.lexical (Text.trim value)) ∧
      (∀ command, clearWorkingDirectory value = .ok command → ¬AimedAtShared command) ∧
      ¬AimedAtShared (chownWorkingDirectory application value)) ↔ ¬DotSpelled value := by
  constructor
  · rintro h hdots
    have hok := validateApplicationDirectory_ok_iff.mpr ⟨hdots.1, hdots.2.1⟩
    exact (h hok).1 ((shared_lexical_iff hok).mpr hdots)
  · intro hdots hok
    have hprivate : ¬Shared (Text.lexical (Text.trim value)) :=
      mt (shared_lexical_iff hok).mp hdots
    refine ⟨hprivate, fun command hc => ?_, ?_⟩
    · refine not_aimedAtShared (argv_clear hc) (fun w hw => ?_) hprivate
      simp only [List.mem_cons, List.not_mem_nil, or_false] at hw
      rcases hw with rfl | rfl | rfl | rfl | rfl | rfl
      on_goal 3 => exact .inl rfl
      all_goals exact .inr rfl
    · refine not_aimedAtShared (argv_chown application value) (fun w hw => ?_) hprivate
      simp only [List.mem_cons, List.not_mem_nil, or_false] at hw
      rcases hw with rfl | rfl | rfl | rfl | rfl
      on_goal 5 => exact .inl rfl
      all_goals exact .inr rfl

theorem etc_dot_accepted :
    validateApplicationDirectory "/etc/.".toList = .ok () ∧
      Text.lexical (Text.trim "/etc/.".toList) = ["etc".toList] ∧
      clearWorkingDirectory "/etc/.".toList =
        .ok "sudo find '/etc/.' -mindepth 1 -delete".toList ∧
      AimedAtShared "sudo find '/etc/.' -mindepth 1 -delete".toList := by
  have hclear : clearWorkingDirectory "/etc/.".toList =
      .ok "sudo find '/etc/.' -mindepth 1 -delete".toList := by decide
  refine ⟨by decide, by decide, hclear, _, argv_clear hclear, "/etc/.".toList, by simp, ?_⟩
  exact ⟨["etc".toList], by decide, by decide⟩

end VibeSsh.Directories
