import VibeSsh.Files.ReadOnly
import VibeSsh.Team.MemberAccount

/-! # A grant to read an application's files

The rules of a read-only grant name the helper, the application's directory and a reading operation;
whatever follows is matched by `*`. The operations that copy a file out take the place to copy it to
from there, and the script only looks at how that path starts. -/

namespace VibeSsh.ReadOnlyGrant

open Lib Lib.Posix Command MemberSudoers MemberAccount FileHelper List

/-! ## The rule -/

variable {grant : ApplicationGrant} {rule : FileRule} {fs : Fs}

theorem files_of_grant (h : (applicationRules grant).files = some rule) :
    ruleSafeDirectory grant.workingDirectory = some rule.root ∧
      rule.account = Directories.username grant.applicationId := by
  have hruntime : (runtimeRules grant).files = none := by
    unfold runtimeRules
    dsimp only
    split <;> rfl
  unfold applicationRules at h
  dsimp only at h
  split at h
  · split at h
    · next root hroot =>
      obtain rfl := Option.some.inj h
      exact ⟨hroot, rfl⟩
    · rw [hruntime] at h
      cases h
  · rw [hruntime] at h
    cases h

theorem not_mem_root {directory root : Text} (h : ruleSafeDirectory directory = some root)
    {c : Char} (hc : isRuleSafe c = false) : c ∉ root := fun hmem => by
  unfold ruleSafeDirectory at h
  dsimp only at h
  split at h
  · next hsafe =>
    obtain rfl := Option.some.inj h
    rw [all_eq_true.mp (Bool.and_eq_true_iff.mp hsafe).2 c hmem] at hc
    cases hc
  · cases h

/-- The entries of an application's file rule, as sudo reads them back. -/
theorem parseRule_fileLine {username : Text}
    (hname : validateLinuxUsername username "the member's account name" = .ok ())
    (hrule : (applicationRules grant).files = some rule) :
    Sudo.parseRule (fileLine username rule) =
      some ⟨username, .account rule.account, rule.entries⟩ := by
  obtain ⟨hroot, haccount⟩ := files_of_grant hrule
  have hcomma : ',' ∉ rule.root := not_mem_root hroot (by decide)
  have hpatterns : ∀ op ∈ readOnlyFileOperations,
      Sudo.IsPattern (' ' :: op) ∧ Sudo.IsPattern (' ' :: op ++ " *") := by decide
  have hread : ∀ {pattern : Text}, Sudo.IsPattern pattern →
      (Sudo.Command.program fileHelperPath (some (rule.root ++ pattern))).Readable :=
    fun h => Sudo.readable_program (by decide) (by decide) (h.append hcomma)
  refine @Sudo.parseRule_text ⟨username, .account rule.account, rule.entries⟩
    ⟨user_readable hname, ?_, ?_, fun c hc => ?_⟩
  · -- an application's account is a plain name to sudo, neither a group nor `ALL`
    rw [haccount]
    refine ⟨fun hmem => ?_, rfl⟩
    rcases mem_append.mp hmem with hmem | hmem
    · exact absurd hmem (by decide)
    · exact absurd (all_eq_true.mp grant.applicationId.wf.2 _ (mem_of_mem_take hmem)) (by decide)
  · cases hwrite : rule.write <;> simp [FileRule.entries, hwrite, readOnlyFileOperations]
  · unfold FileRule.entries at hc
    split at hc
    · obtain rfl := mem_singleton.mp hc
      exact hread (by decide)
    · obtain ⟨op, hop, hc⟩ := mem_flatMap.mp hc
      rcases mem_cons.mp hc with rfl | hc
      · exact hread (hpatterns op hop).1
      · obtain rfl := mem_singleton.mp hc
        rw [append_assoc]
        exact hread (hpatterns op hop).2

variable {request : Sudo.Request}

section

variable {username : Text} {inGroup : Text → Text → Bool}

end

/-! ## What it changes -/

/-- Copies everything from a range, has no server and nothing on standard input. -/
def plainTools : Tools :=
  ⟨40, fun contents _ _ => (contents, true), fun fs _ _ => (fs, false), fun fs _ _ => (fs, false),
    fun _ => .error 1, "x", []⟩

def appGrant : ApplicationGrant :=
  ⟨Uuid.nil, .docker, "/srv/app", ["applications.files.read"]⟩

def appRule : FileRule :=
  ⟨Uuid.nil, Directories.username Uuid.nil, "/srv/app", false⟩

/-- An application with two files, and its staging directory. -/
def appNode : Fs := Fs.ofEntries
  [([], .dir ⟨0o755, false⟩),
    (["srv"], .dir ⟨0o755, false⟩),
    (["srv", "app"], .dir ⟨0o750, true⟩),
    (["srv", "app", "a"], .file "new" ⟨0o640, true⟩),
    (["srv", "app", "b"], .file "old" ⟨0o640, true⟩),
    (["run"], .dir ⟨0o755, false⟩),
    (["run", "vibessh"], .dir ⟨0o755, false⟩),
    (stagingPath, .dir ⟨0o755, false⟩),
    (stagingPath ++ [Uuid.nil.display], .dir ⟨0o701, true⟩)] (by decide)

end VibeSsh.ReadOnlyGrant
