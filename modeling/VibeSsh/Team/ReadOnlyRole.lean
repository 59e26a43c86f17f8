import VibeSsh.Team.ReadOnlyGrant

/-! # A role that may read files

The file helper is opened to a role by naming it without arguments, as any account of the
applications' group. Such a rule says nothing about the operation. -/

namespace VibeSsh.ReadOnlyRole

open Lib Lib.Posix Command MemberSudoers MemberAccount FileHelper ReadOnlyGrant

/-- May read files, may not write them, neither by role nor by grant, and is not root. -/
structure ReadsOnly (permissions : List Text) (grants : List ApplicationGrant) : Prop where
  read : "applications.files.read".toList ∈ permissions
  not_write : "applications.files.write".toList ∉ permissions
  narrow : Narrow permissions
  not_grant : ∀ grant ∈ grants, "applications.files.write".toList ∉ grant.permissions

/-- An application that runs as an account of its own, and where it keeps its files. -/
structure Application (node : MemberAccount.Node) where
  id : Uuid
  directory : Path
  isolated : node.inGroup (Directories.username id) applicationGroup = true

/-- The files after a request, as the account it runs as may change them. Programs other than the
helper are given by `other`. -/
def run (other : Sudo.Request → Fs → Fs) (tools : Tools) (request : Sudo.Request) (fs : Fs) : Fs :=
  if request.path = fileHelperPath then (helper tools fs request.arguments).fs else other request fs

/-- Whatever the member's rules let through, no application's files change. -/
def KeepsFiles (other : Sudo.Request → Fs → Fs) (node : MemberAccount.Node) (username : Text)
    (permissions : List Text) (grants : List ApplicationGrant) : Prop :=
  ∀ file, sudoersFile node username permissions grants = .ok file →
    ∀ request, Sudo.permits node.inGroup file request = true →
      ∀ (application : Application node) (tools : Tools) (fs : Fs) (p : Path),
        application.directory <+: p → (run other tools request fs).get p = fs.get p

/-- The helper is open to every role that may read or write files, with any arguments. -/
theorem permits_helper {node : MemberAccount.Node} {username : Text} {permissions : List Text}
    {grants : List ApplicationGrant} {file : List Text}
    (hread : "applications.files.read".toList ∈ permissions) (hnarrow : Narrow permissions)
    (hfile : sudoersFile node username permissions grants = .ok file)
    (application : Application node) (arguments : List Text) :
    Sudo.permits node.inGroup file
      ⟨username, Directories.username application.id, fileHelperPath, arguments⟩ = true := by
  obtain ⟨hname, hlines⟩ := mem_sudoersFile hnarrow hfile
  have hmay : mayUseTheFileHelper permissions = true :=
    List.any_eq_true.mpr ⟨_, hread, by simp⟩
  have hheader : (helperRule username).text ∈ helperHeader username permissions := by
    rw [helperHeader, if_pos hmay]
    simp [helperRule, Sudo.Rule.text, Sudo.Runas.text, Sudo.Command.text, Text.join]
  refine Sudo.permits_iff.mpr
    ⟨_, (hlines _).mpr (.inl hheader), _, parseRule_helperHeader hname hheader, ?_⟩
  simp [helperRule, Sudo.Rule.permits, Sudo.Runas.permits, Sudo.Command.permits,
    application.isolated]

def deleteArguments : List Text :=
  ["/srv/app", "delete", "/srv/app/b"]

theorem helper_deletes :
    (appNode.get ["srv", "app", "b"]).isSome = true ∧
      (helper plainTools appNode deleteArguments).fs.get ["srv", "app", "b"] = none := by
  decide +kernel

/-- **A role that may read files may delete them.** On a Node with an isolated application, files are
safe from the role only if its account name is refused and no rules are written. -/
theorem read_only_role_keeps_files_iff {permissions : List Text} {grants : List ApplicationGrant}
    (hrole : ReadsOnly permissions grants) (other : Sudo.Request → Fs → Fs)
    (node : MemberAccount.Node) (application : Application node) (username : Text) :
    KeepsFiles other node username permissions grants ↔
      validateLinuxUsername username "the member's account name" ≠ .ok () := by
  constructor
  · intro hkeeps hname
    -- the script is refused for its account name only
    obtain ⟨script, hscript⟩ :
        ∃ script, sudoersScript username permissions (grants.map applicationRules) = .ok script := by
      unfold sudoersScript
      rw [hname]
      simp only [bind, Except.bind]
      split
      · exact ⟨_, rfl⟩
      · exact ⟨_, rfl⟩
    obtain ⟨file, hfile⟩ : ∃ file, sudoersFile node username permissions grants = .ok file :=
      ⟨_, try_ok_iff.mpr ⟨script, hscript, rfl⟩⟩
    have hpermits := permits_helper hrole.read hrole.narrow hfile application deleteArguments
    have hsame := hkeeps file hfile _ hpermits
      { application with directory := ["srv", "app"] } plainTools appNode
      ["srv", "app", "b"] ⟨["b"], rfl⟩
    obtain ⟨hbefore, hafter⟩ := helper_deletes
    rw [run, if_pos rfl, hafter] at hsame
    rw [← hsame] at hbefore
    cases hbefore
  · intro hname file hfile
    obtain ⟨script, hscript, -⟩ := try_ok_iff.mp hfile
    obtain ⟨⟨⟩, haccepted, -⟩ := try_ok_iff.mp hscript
    exact absurd haccepted hname

/-- A Node with one isolated application. -/
def isolatedNode : MemberAccount.Node where
  path := ["/usr/bin"]
  executable := fun _ => false
  hasAccount := fun account => account == Directories.username Uuid.nil
  inGroup := fun account group =>
    account == Directories.username Uuid.nil && group == applicationGroup
  path_wf := usrBin_isWord

theorem readsOnly_files : ReadsOnly ["applications.files.read"] [appGrant] :=
  ⟨by decide, by decide, by decide, by decide⟩

theorem refused_name_keeps_files :
    ReadsOnly ["applications.files.read"] [appGrant] ∧
      KeepsFiles (fun _ fs => fs) isolatedNode "Alice" ["applications.files.read"] [appGrant] := by
  refine ⟨readsOnly_files, (read_only_role_keeps_files_iff readsOnly_files _ isolatedNode
    ⟨Uuid.nil, ["srv", "app"], by decide⟩ "Alice").mpr fun hname => ?_⟩
  have hrefused : (validateLinuxUsername "Alice" "the member's account name").isOk =
      false := by decide
  rw [hname] at hrefused
  cases hrefused

/-- Under the rule of a role that may read, `delete` runs and the file is gone. -/
theorem reader_deletes_file :
    ReadsOnly ["applications.files.read"] [] ∧
      sudoersFile isolatedNode "alice" ["applications.files.read"] [] =
        .ok [(helperRule "alice").text] ∧
      Sudo.permits isolatedNode.inGroup [(helperRule "alice").text]
        ⟨"alice", Directories.username Uuid.nil, fileHelperPath, deleteArguments⟩ = true ∧
      (appNode.get ["srv", "app", "b"]).isSome = true ∧
      (helper plainTools appNode deleteArguments).fs.get ["srv", "app", "b"] = none := by
  refine ⟨⟨by decide, by decide, by decide, by decide⟩, by rfl, by decide, ?_⟩
  exact helper_deletes

end VibeSsh.ReadOnlyRole
