import VibeSsh.Applications.Directories
import VibeSsh.Lib.Run
import VibeSsh.Models

/-! # Applications of one Node and their files

Creating an application by hand or by importing a panel server, reinstalling it and deleting it, as
far as they touch files on the Node. The Node's files are a map from lexical paths to contents. A
blueprint's provisioning and the copied volume write below the working directory; the two delete
commands take away files of the tree they name. How far commands got is part of the label. -/

namespace VibeSsh.Lifecycle

open Lib Command Directories List

abbrev Path := List Text

abbrev Files := Path → Option Text

/-- Contents written at paths relative to a directory. -/
abbrev Writes := List (Path × Text)

structure Node where
  applications : List Application
  files : Files

def dir (application : Application) : Path := Text.lexical application.workingDirectory

def writeBelow (d : Path) (writes : Writes) (files : Files) : Files :=
  writes.foldl (fun files w => Function.update files (d ++ w.1) (some w.2)) files

def deleteBelow (d : Path) (gone : Path → Bool) (files : Files) : Files :=
  fun p => if d <+: p ∧ gone p = true then none else files p

def workingDirectoryFor (name : Text) : Text :=
  let dashed := name.map fun c => if c.isAlphanum then c.toLower else '-'
  let slug := (dashed.dropWhile (· == '-')).rdropWhile (· == '-')
  let slug := Text.join ['-'] ((slug.splitOn '-').filter fun part => !part.isEmpty)
  "/home/container/".toList ++ if slug.isEmpty then "imported".toList else slug

structure CreateInput where
  name : Text
  workingDirectory : Text
  runtimeType : RuntimeType
  ports : List ApplicationPort

/-- `create_application` on a Node: the files provisioning wrote stay even when a later step fails. -/
def createApplication (node : Node) (id : Uuid) (input : CreateInput) (writes : Writes)
    (failure : Option AppError) : AppResult Unit × Node :=
  let name := Text.trim input.name
  let workingDirectory := Text.trim input.workingDirectory
  if name.isEmpty then (.error (.invalidInput "a name is required"), node)
  else if workingDirectory.isEmpty then
    (.error (.invalidInput "a working directory is required"), node)
  else
    match validateApplicationDirectory workingDirectory with
    | .error e => (.error e, node)
    | .ok _ =>
      let provisioned :=
        { node with files := writeBelow (Text.lexical workingDirectory) writes node.files }
      match failure with
      | some e => (.error e, provisioned)
      | none =>
        if node.applications.any (·.id = id) then
          (.error (.storage "failed to insert application"), provisioned)
        else
          (.ok (), { provisioned with
            applications := node.applications ++
              [⟨id, name, input.runtimeType, workingDirectory, input.ports⟩] })

/-- `import_server`: creates the application in the directory its name gives, then copies the
volume into it. -/
def importServer (node : Node) (id : Uuid) (name : Text) (writes copied : Writes)
    (failure : Option AppError) : AppResult Unit × Node :=
  match createApplication node id ⟨name, workingDirectoryFor name, .docker, []⟩ writes failure with
  | (.error e, node') => (.error e, node')
  | (.ok _, node') =>
    (.ok (), { node' with
      files := writeBelow (Text.lexical (workingDirectoryFor name)) copied node'.files })

def findApplication (node : Node) (id : Uuid) : AppResult Application :=
  match node.applications.find? (·.id = id) with
  | some application => .ok application
  | none => .error (.notFound ("application " ++ id.display))

/-- `reinstall_application`; `wiped` is how far `find -delete` got, with the error it ended in. -/
def reinstallApplication (node : Node) (id : Uuid) (wipeFiles : Bool) (gone : Path → Bool)
    (wiped : Option AppError) (writes : Writes) : AppResult Unit × Node :=
  match findApplication node id with
  | .error e => (.error e, node)
  | .ok application =>
    if application.runtimeType ≠ .docker then
      (.error (.invalidInput "reinstalling is only available for Docker applications"), node)
    else if !wipeFiles then
      (.ok (), { node with files := writeBelow (dir application) writes node.files })
    else
      match clearWorkingDirectory application.workingDirectory with
      | .error e => (.error e, node)
      | .ok _ =>
        let cleared := deleteBelow (dir application)
          (fun p => gone p && decide (p ≠ dir application)) node.files
        match wiped with
        | some e => (.error e, { node with files := cleared })
        | none => (.ok (), { node with files := writeBelow (dir application) writes cleared })

/-- `delete_application`: the row goes first, then, if asked, the files. -/
def deleteApplication (node : Node) (id : Uuid) (removeFiles : Bool) (gone : Path → Bool) :
    AppResult Unit × Node :=
  match findApplication node id with
  | .error e => (.error e, node)
  | .ok application =>
    let rest := { node with applications := node.applications.filter (·.id ≠ id) }
    if !removeFiles then (.ok (), rest)
    else
      match removeWorkingDirectory application.workingDirectory with
      | .error _ => (.ok (), rest)
      | .ok _ => (.ok (), { rest with files := deleteBelow (dir application) gone node.files })

inductive Op where
  | create (id : Uuid) (input : CreateInput) (writes : Writes) (failure : Option AppError)
  | importServer (id : Uuid) (name : Text) (writes copied : Writes) (failure : Option AppError)
  | reinstall (id : Uuid) (wipeFiles : Bool) (gone : Path → Bool) (wiped : Option AppError)
      (writes : Writes)
  | delete (id : Uuid) (removeFiles : Bool) (gone : Path → Bool)

def Op.target : Op → Uuid
  | .create id _ _ _ => id
  | .importServer id _ _ _ _ => id
  | .reinstall id _ _ _ _ => id
  | .delete id _ _ => id

def exec (node : Node) : Op → AppResult Unit × Node
  | .create id input writes failure => createApplication node id input writes failure
  | .importServer id name writes copied failure => importServer node id name writes copied failure
  | .reinstall id wipeFiles gone wiped writes =>
    reinstallApplication node id wipeFiles gone wiped writes
  | .delete id removeFiles gone => deleteApplication node id removeFiles gone

def next (node : Node) (op : Op) : Node := (exec node op).2

/-! ## What an operation leaves alone -/

def SameOutside (d : Path) (before after : Files) : Prop := ∀ p, ¬d <+: p → after p = before p

theorem SameOutside.refl (d : Path) (files : Files) : SameOutside d files files := fun _ _ => rfl

variable {d : Path} {node : Node} {id : Uuid}

theorem SameOutside.trans {a b c : Files} (h1 : SameOutside d a b)
    (h2 : SameOutside d b c) : SameOutside d a c := fun p hp => (h2 p hp).trans (h1 p hp)

theorem sameOutside_writeBelow (d : Path) (writes : Writes) (files : Files) :
    SameOutside d files (writeBelow d writes files) := by
  induction writes generalizing files with
  | nil => exact .refl d files
  | cons w rest ih =>
    refine SameOutside.trans (fun p hp => ?_) (ih (Function.update files (d ++ w.1) (some w.2)))
    have hne : p ≠ d ++ w.1 := by
      rintro rfl
      exact hp (prefix_append d w.1)
    exact Function.update_of_ne hne _ _

theorem sameOutside_deleteBelow (d : Path) (gone : Path → Bool) (files : Files) :
    SameOutside d files (deleteBelow d gone files) :=
  fun _ hp => if_neg fun h => hp h.1

/-! ## Separate directories -/

/-- Neither directory is the other or lies inside it. -/
def Apart (a b : Path) : Prop := ¬a <+: b ∧ ¬b <+: a

instance (a b : Path) : Decidable (Apart a b) := by unfold Apart; infer_instance

def Separate (node : Node) : Prop :=
  ∀ a ∈ node.applications, ∀ b ∈ node.applications, a.id ≠ b.id → Apart (dir a) (dir b)

/-- The step touches the files of `d` only, and `d` is apart from every other application. -/
structure Confined (node : Node) (target : Uuid) (d : Path) (after : Node) : Prop where
  files : SameOutside d node.files after.files
  apart : ∀ b ∈ node.applications, b.id ≠ target → Apart d (dir b)
  separate : Separate after

/-- The files of every application but the target are as they were. -/
structure Keeps (node : Node) (target : Uuid) (after : Node) : Prop where
  others : ∀ b ∈ node.applications, b.id ≠ target →
    ∀ p, dir b <+: p → after.files p = node.files p
  separate : Separate after

theorem Keeps.refl (h : Separate node) (target : Uuid) : Keeps node target node :=
  ⟨fun _ _ _ _ _ => rfl, h⟩

variable {target : Uuid} {after : Node}

theorem Confined.keeps (h : Confined node target d after) : Keeps node target after :=
  ⟨fun b hb hne p hp => h.files p fun hd => (List.prefix_or_prefix_of_prefix hd hp).elim
    (h.apart b hb hne).1 (h.apart b hb hne).2, h.separate⟩

/-- The directory an accepted creation works in. -/
theorem createApplication_confined (h : Separate node)
    {input : CreateInput} {writes : Writes} {failure : Option AppError}
    (hd : ∀ b ∈ node.applications, Apart (Text.lexical (Text.trim input.workingDirectory)) (dir b)) :
    Confined node id (Text.lexical (Text.trim input.workingDirectory))
      (createApplication node id input writes failure).2 := by
  have hother : ∀ b ∈ node.applications, b.id ≠ id →
      Apart (Text.lexical (Text.trim input.workingDirectory)) (dir b) := fun b hb _ => hd b hb
  have hunchanged : Confined node id (Text.lexical (Text.trim input.workingDirectory)) node :=
    ⟨.refl _ _, hother, h⟩
  have hwrites := sameOutside_writeBelow (Text.lexical (Text.trim input.workingDirectory)) writes
    node.files
  unfold createApplication
  dsimp only
  split
  · exact hunchanged
  split
  · exact hunchanged
  split
  · exact hunchanged
  split
  · exact ⟨hwrites, hother, h⟩
  split
  · exact ⟨hwrites, hother, h⟩
  · refine ⟨hwrites, hother, fun a ha b hb hne => ?_⟩
    -- the new row is the last one; it is apart from each of the others
    rcases mem_append.mp ha with ha | ha <;> rcases mem_append.mp hb with hb | hb
    · exact h a ha b hb hne
    · obtain rfl := mem_singleton.mp hb
      exact ⟨(hd a ha).2, (hd a ha).1⟩
    · obtain rfl := mem_singleton.mp ha
      exact hd b hb
    · rw [mem_singleton.mp ha, mem_singleton.mp hb] at hne
      exact absurd rfl hne

theorem Confined.write (h : Confined node target d after) (writes : Writes) :
    Confined node target d { after with files := writeBelow d writes after.files } :=
  ⟨h.files.trans (sameOutside_writeBelow d writes after.files), h.apart, h.separate⟩

/-- An imported directory has no blank to trim: it is made of letters, digits, `-` and slashes. -/
theorem trim_workingDirectoryFor (name : Text) :
    Text.trim (workingDirectoryFor name) = workingDirectoryFor name := by
  refine Text.trim_eq_self fun c hmem => ?_
  rcases mem_append.mp hmem with hc | hc
  · exact Text.isWhitespace_of_mem_all (by decide) hc
  split at hc
  · exact Text.isWhitespace_of_mem_all (by decide) hc
  · rcases Text.mem_join hc with hc | ⟨part, hpart, hc⟩
    · obtain rfl := mem_singleton.mp hc
      decide
    · have hslug := Text.mem_of_mem_splitOn (mem_of_mem_filter hpart) hc
      have hdashed := (dropWhile_suffix _).subset ((List.rdropWhile_prefix _ _).subset hslug)
      obtain ⟨x, -, rfl⟩ := mem_map.mp hdashed
      split
      · next halnum => exact Text.isWhitespace_toLower halnum
      · decide

/-- A found application's directory is apart from those of the others. -/
theorem Separate.apart_found (h : Separate node)
    {application : Application} (hf : findApplication node id = .ok application) :
    ∀ b ∈ node.applications, b.id ≠ id → Apart (dir application) (dir b) := by
  unfold findApplication at hf
  split at hf
  · next found hfound =>
    cases hf
    have hid : application.id = id := by simpa using List.find?_some hfound
    exact fun b hb hne => h _ (mem_of_find?_eq_some hfound) b hb fun he => hne (he ▸ hid)
  · cases hf

theorem reinstallApplication_keeps (h : Separate node) (id : Uuid)
    (wipeFiles : Bool) (gone : Path → Bool) (wiped : Option AppError) (writes : Writes) :
    Keeps node id (reinstallApplication node id wipeFiles gone wiped writes).2 := by
  unfold reinstallApplication
  split
  · exact .refl h id
  · next application hf =>
    have hsame : Confined node id (dir application) node :=
      ⟨.refl _ _, h.apart_found hf, h⟩
    split
    · exact .refl h id
    split
    · exact (hsame.write writes).keeps
    split
    · exact .refl h id
    · have hcleared : Confined node id (dir application) { node with
          files := deleteBelow (dir application)
            (fun p => gone p && decide (p ≠ dir application)) node.files } :=
        ⟨sameOutside_deleteBelow _ _ _, hsame.apart, h⟩
      dsimp only
      split
      · exact hcleared.keeps
      · exact (hcleared.write writes).keeps

theorem deleteApplication_keeps (h : Separate node) (id : Uuid)
    (removeFiles : Bool) (gone : Path → Bool) :
    Keeps node id (deleteApplication node id removeFiles gone).2 := by
  unfold deleteApplication
  split
  · exact .refl h id
  · next application hf =>
    have hrest : ∀ files, Separate ⟨node.applications.filter (·.id ≠ id), files⟩ :=
      fun _ a ha b hb => h a (mem_of_mem_filter ha) b (mem_of_mem_filter hb)
    have hgone : Confined node id (dir application)
        ⟨node.applications.filter (·.id ≠ id), deleteBelow (dir application) gone node.files⟩ :=
      ⟨sameOutside_deleteBelow _ _ _, h.apart_found hf, hrest _⟩
    dsimp only
    split
    · exact ⟨fun _ _ _ _ _ => rfl, hrest _⟩
    split
    · exact ⟨fun _ _ _ _ _ => rfl, hrest _⟩
    · exact hgone.keeps

/-! ## Every sequence of operations -/

def Op.directory : Op → Option Path
  | .create _ input _ _ => some (Text.lexical (Text.trim input.workingDirectory))
  | .importServer _ name _ _ _ => some (Text.lexical (workingDirectoryFor name))
  | .reinstall _ _ _ _ _ => none
  | .delete _ _ _ => none

/-- A creation takes a directory that is not, holds or lies in an existing application's. -/
def TakesFreeDirectory (node : Node) (op : Op) : Prop :=
  ∀ d ∈ op.directory, ∀ b ∈ node.applications, Apart d (dir b)

instance (node : Node) (op : Op) : Decidable (TakesFreeDirectory node op) := by
  unfold TakesFreeDirectory; infer_instance

theorem next_keeps (h : Separate node) {op : Op} (hok : TakesFreeDirectory node op) :
    Keeps node op.target (next node op) := by
  cases op with
  | create id input writes failure => exact (createApplication_confined h (hok _ rfl)).keeps
  | importServer id name writes copied failure =>
    have hcreate := @createApplication_confined node id h
      ⟨name, workingDirectoryFor name, .docker, []⟩ writes failure
    rw [trim_workingDirectoryFor] at hcreate
    have hcreate := hcreate (hok _ rfl)
    simp only [next, exec, importServer]
    split
    · next he =>
      rw [he] at hcreate
      exact hcreate.keeps
    · next he =>
      rw [he] at hcreate
      exact (hcreate.write copied).keeps
  | reinstall id wipeFiles gone wiped writes =>
    exact reinstallApplication_keeps h id wipeFiles gone wiped writes
  | delete id removeFiles gone => exact deleteApplication_keeps h id removeFiles gone

/-- **Applications keep to their own files in every run that creates each one in a free directory.**
Nothing checks that at creation. -/
theorem applications_never_share_files {files : Files} {trace : List (Transition Node Op)}
    {final : Node} (hrun : Run (fun n op n' => n' = next n op) ⟨[], files⟩ trace final)
    (hok : ∀ x ∈ trace, TakesFreeDirectory x.pre x.label) :
    ∀ x ∈ trace, ∀ b ∈ x.pre.applications, b.id ≠ x.label.target →
      ∀ p, dir b <+: p → x.post.files p = x.pre.files p := by
  obtain ⟨-, hall⟩ := hrun.invariant Separate TakesFreeDirectory
    (fun hs hok hnext => by subst hnext; exact (next_keeps hs hok).separate) (fun a ha => by cases ha) hok
  intro x hx b hb hne p hp
  obtain ⟨hpre, hpost, -⟩ := hall x hx
  rw [hpost]
  exact (next_keeps hpre (hok x hx)).others b hb hne p hp

def world (content : Text) : Writes := [(["level.dat"], content)]

/-- Two servers with directories of their own; the first is wiped, then deleted with its files. -/
def lobbyAndSurvival : List Op :=
  [.importServer .nil "Lobby" [] (world "lobby") none,
    .importServer .max "Survival" [] (world "survival") none,
    .reinstall .nil true (fun _ => true) none [],
    .delete .nil true fun _ => true]

theorem lobbyAndSurvival_keep_files :
    (∀ x ∈ traceOf next ⟨[], fun _ => none⟩ lobbyAndSurvival, TakesFreeDirectory x.pre x.label) ∧
      ∀ x ∈ traceOf next ⟨[], fun _ => none⟩ lobbyAndSurvival, ∀ b ∈ x.pre.applications,
        b.id ≠ x.label.target → ∀ p, dir b <+: p → x.post.files p = x.pre.files p := by
  have hok : ∀ x ∈ traceOf next ⟨[], fun _ => none⟩ lobbyAndSurvival,
      TakesFreeDirectory x.pre x.label := by
    decide
  exact ⟨hok, applications_never_share_files (run_traceOf next _ lobbyAndSurvival) hok⟩

def sameSlug : List Op :=
  [.importServer .nil "My Server" [] (world "first") none,
    .importServer .max "my-server" [] (world "second") none]

theorem same_slug_files_lost :
    let imported := sameSlug.foldl next ⟨[], fun _ => none⟩
    let level := ["home".toList, "container".toList, "my-server".toList, "level.dat".toList]
    imported.applications.map (·.id) = [.nil, .max] ∧
      imported.applications.map dir = [level.take 3, level.take 3] ∧
      ((sameSlug.take 1).foldl next ⟨[], fun _ => none⟩).files level = some "first".toList ∧
      imported.files level = some "second".toList ∧
      (next imported (.delete .nil true fun _ => true)).applications.map (·.id) = [.max] ∧
      (next imported (.delete .nil true fun _ => true)).files level = none := by
  decide

end VibeSsh.Lifecycle
