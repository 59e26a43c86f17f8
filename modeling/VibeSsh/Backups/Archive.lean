import VibeSsh.Backups.Records
import VibeSsh.Files.Sandbox
import VibeSsh.Lib.FileTree
import VibeSsh.Lib.Loop

/-! # Archives of a working directory

`files::archive` and the parts of `application_backup_service` that make an archive of a working
directory and put it back. The directory is seen through a file provider, whose paths are texts; an
archive is the list of its entries, which the zip library writes and reads back unchanged. Only what
a successful call leaves is kept. -/

namespace VibeSsh.Backups

open Lib

/-! ## The file provider -/

structure Stat where
  isDir : Bool
  isSymlink : Bool
  deriving DecidableEq

/-- An entry of a listing, by its own type: a directory holds only names. -/
structure Listed where
  name : Text
  isDir : Bool
  isSymlink : Bool
  name_wf : IsEntryName name
  deriving DecidableEq

/-- `ApplicationFileProvider`, over the states of what it gives access to. -/
structure Provider (σ : Type) where
  listDirectory : σ → Text → AppResult (List Listed)
  metadata : σ → Text → AppResult Stat
  readFile : σ → Text → AppResult (List UInt8)
  writeFile : σ → Text → List UInt8 → AppResult σ
  createDirectory : σ → Text → AppResult σ
  delete : σ → Text → AppResult σ

/-! ## The zip library -/

structure ZipEntry where
  name : Text
  contents : List UInt8
  deriving DecidableEq

abbrev Archive := List ZipEntry

/-- `ZipFile::is_dir`: told by the last character of the name. -/
def ZipEntry.isDir (entry : ZipEntry) : Bool :=
  entry.name.getLast? = some '/' || entry.name.getLast? = some '\\'

/-- What the writer refuses, with its words: an entry it will not start, contents it will not take,
an archive it cannot finish. -/
structure ZipWriter where
  start : Archive → Text → Option Text
  writeAll : List UInt8 → Option Text
  finish : Archive → Option Text

/-- Whether a path never climbs above where it starts. -/
def staysInside : Nat → List Text → Bool
  | _, [] => true
  | depth, component :: rest =>
    if component = [] ∨ component = ['.'] then staysInside depth rest
    else if component = ['.', '.'] then depth ≠ 0 && staysInside (depth - 1) rest
    else staysInside (depth + 1) rest

/-- `ZipFile::enclosed_name`: none for a name that is absolute, leaves the directory it is extracted
to, or holds a zero byte. -/
def enclosedName (name : Text) : Option Text :=
  if name.contains '\x00' || name.head? = some '/' || !staysInside 0 (name.splitOn '/') then none
  else some name

/-! ## Writing an archive -/

def maxArchiveDepth : Nat := 64

def addDirectory (zip : ZipWriter) (archive : Archive) (name : Text) : AppResult Archive :=
  match zip.start archive (name ++ ['/']) with
  | some err =>
    .error (.internal ("couldn't add '" ++ name ++ "' to the archive: " ++ err))
  | none => .ok (archive ++ [⟨name ++ ['/'], []⟩])

def addFile (zip : ZipWriter) (archive : Archive) (name : Text) (contents : List UInt8) :
    AppResult Archive :=
  match zip.start archive name with
  | some err =>
    .error (.internal ("couldn't add '" ++ name ++ "' to the archive: " ++ err))
  | none =>
    match zip.writeAll contents with
    | some err =>
      .error (.internal ("couldn't write '" ++ name ++ "' into the archive: " ++ err))
    | none => .ok (archive ++ [⟨name, contents⟩])

def childPath (path name : Text) : Text := Text.trimEndMatches '/' path ++ '/' :: name

section Create

variable {σ : Type} (zip : ZipWriter) (p : Provider σ) (s : σ)

/-- `write_into_zip`, with as many levels left as the depth is from going past its limit. -/
def writeIntoZip : Nat → Text → Text → Archive → AppResult Archive
  | 0, _, name, _ => .error (.invalidInput ("'" ++ name ++ "' is nested more than " ++
      Text.ofNat maxArchiveDepth ++
      " levels deep - archiving stopped in case this is a symlink loop"))
  | levels + 1, path, name, archive => do
    let stat ← p.metadata s path
    if stat.isSymlink then .ok archive
    else if stat.isDir then do
      let archive ← addDirectory zip archive name
      let entries ← p.listDirectory s path
      entries.foldlM (fun archive entry =>
        if entry.isSymlink then .ok archive
        else writeIntoZip levels (childPath path entry.name) (name ++ '/' :: entry.name) archive)
        archive
    else do
      let contents ← p.readFile s path
      addFile zip archive name contents

def zipName (path : Text) : Text :=
  match Text.baseName path with
  | some name => if name.isEmpty then path else name
  | none => path

def createZip (paths : List Text) : AppResult Archive := do
  let archive ← paths.foldlM
    (fun archive path => writeIntoZip zip p s (maxArchiveDepth + 1) path (zipName path) archive) []
  match zip.finish archive with
  | some err => .error (.internal ("couldn't finalize the archive: " ++ err))
  | none => .ok archive

end Create

def backupsDir : Text := ".vibessh-backups"

/-- VibeSSH's own entries of a working directory. -/
def isHousekeeping (name : Text) : Bool := Text.startsWith ".vibessh-" name

/-- The archive `create_backup` makes; what follows is uploading and recording it. -/
def backupArchive {σ : Type} (zip : ZipWriter) (p : Provider σ) (s : σ) : AppResult Archive := do
  let entries ← p.listDirectory s "."
  let paths := (entries.filter fun e => !isHousekeeping e.name).map (·.name)
  let s := (p.createDirectory s backupsDir).toOption.getD s
  createZip zip p s paths

/-! ## Extracting one -/

def maxEntryBytes : Nat := 2 * 1024 * 1024 * 1024
def maxTotalBytes : Nat := 8 * 1024 * 1024 * 1024
def maxEntries : Nat := 20000

def underPath (path name : Text) : Text := if path.isEmpty then name else path ++ '/' :: name

def slashes (t : Text) : Text := t.map fun c => if c = '\\' then '/' else c

section Extract

variable {σ : Type} (p : Provider σ)

/-- `create_directory_all_cached` from the part of the path that is dealt with. -/
def createDirectories : Text → List Text → List Text → σ → AppResult (List Text × σ)
  | _, [], known, s => .ok (known, s)
  | built, segment :: rest, known, s =>
    let built := underPath built segment
    if built ∈ known then createDirectories built rest known s
    else
      match p.metadata s built with
      | .ok stat =>
        if stat.isDir then createDirectories built rest (built :: known) s
        else .error (.invalidInput
          ("'" ++ built ++ "' already exists and isn't a directory"))
      | .error _ => do
        let s ← p.createDirectory s built
        createDirectories built rest (built :: known) s

def createDirectoryAllCached (path : Text) (known : List Text) (s : σ) :
    AppResult (List Text × σ) :=
  createDirectories p [] (Text.segments path) known s

structure Extraction (σ : Type) where
  extracted : Nat
  totalBytes : Nat
  known : List Text
  state : σ

/-- The checks of one file against the limits: the bytes counted so far. -/
def checkSize (totalBytes : Nat) (relative : Text) (declared : Nat) : AppResult Nat :=
  if maxEntryBytes < declared then
    .error (.invalidInput ("'" ++ relative ++ "' claims to be " ++
      Text.ofNat declared ++ " bytes, larger than the " ++ Text.ofNat maxEntryBytes ++
      "-byte limit for a single file"))
  else if maxTotalBytes < totalBytes + declared then
    .error (.invalidInput ("this archive expands to more than the " ++
      Text.ofNat maxTotalBytes ++ "-byte total extraction limit"))
  else .ok (totalBytes + declared)

def targetIn (destination relative : Text) : Text :=
  if destination.isEmpty || destination = "." then relative
  else Text.trimEndMatches '/' destination ++ '/' :: relative

/-- `rsplit_once('/')`: the text before the last slash, if there is one. -/
def parentText (t : Text) : Option Text :=
  let parts := t.splitOn '/'
  if parts.length < 2 then none else some (Text.join ['/'] parts.dropLast)

def createParents (target : Text) (known : List Text) (s : σ) : AppResult (List Text × σ) :=
  match parentText target with
  | some parent => createDirectoryAllCached p parent known s
  | none => .ok (known, s)

def writeEntry (target : Text) (contents : List UInt8) (x : Extraction σ) :
    AppResult (Extraction σ) := do
  let (known, s) ← createParents p target x.known x.state
  let s ← p.writeFile s target contents
  .ok { x with extracted := x.extracted + 1, known := known, state := s }

def extractEntry (destination : Text) (x : Extraction σ) (entry : ZipEntry) :
    AppResult (Extraction σ) :=
  match enclosedName entry.name with
  | none => .ok x
  | some name =>
    let relative := slashes name
    let target := targetIn destination relative
    if entry.isDir then do
      let (known, s) ← createDirectoryAllCached p target x.known x.state
      .ok { x with known := known, state := s }
    else do
      let totalBytes ← checkSize x.totalBytes relative entry.contents.length
      writeEntry p target entry.contents { x with totalBytes := totalBytes }

def extractZipFrom (archive : Archive) (destination : Text) (s : σ) : AppResult (Nat × σ) :=
  if maxEntries < archive.length then
    .error (.invalidInput ("this archive contains " ++ Text.ofNat archive.length ++
      " entries, more than the " ++ Text.ofNat maxEntries ++
      " VibeSSH will extract at once"))
  else do
    let x ← archive.foldlM (extractEntry p destination) ⟨0, 0, [], s⟩
    .ok (x.extracted, x.state)

end Extract

/-! ## Restoring -/

/-- A path and everything above it, stopping after `fuel` steps up. -/
def withParents : Nat → Text → List Text
  | 0, _ => []
  | fuel + 1, current =>
    if current.isEmpty then [] else current :: withParents fuel ((parentText current).getD [])

/-- Every path an archive puts on disk. -/
def entryPaths (archive : Archive) : List Text :=
  archive.flatMap fun entry =>
    match enclosedName entry.name with
    | none => []
    | some name =>
      let current := Text.trimEndMatches '/' (slashes name)
      withParents current.length current

section Restore

variable {σ : Type} (p : Provider σ)

/-- `remove_entries_not_in`, with the levels left before it stops looking; the number counts what it
removed. -/
def removeEntriesNotIn (keep : List Text) : Nat → Text → Text → σ × Nat → AppResult (σ × Nat)
  | 0, _, _, x => .ok x
  | levels + 1, path, relative, x => do
    let entries ← p.listDirectory x.1 path
    entries.foldlM (fun x entry =>
      if entry.isSymlink || (relative.isEmpty && isHousekeeping entry.name) then .ok x
      else
        let entryRelative := underPath relative entry.name
        if entryRelative ∉ keep then do
          let s ← p.delete x.1 entryRelative
          .ok (s, x.2 + 1)
        else if entry.isDir then removeEntriesNotIn keep levels entryRelative entryRelative x
        else .ok x) x

def restoreFrom (archive : Archive) (s : σ) : AppResult (Nat × σ) := do
  let (written, s) ← extractZipFrom p archive "." s
  match removeEntriesNotIn p (entryPaths archive) (maxArchiveDepth + 1) "." [] (s, 0) with
  | .error err => .error (.connection
      (("the backup was written back, but files created after it couldn't all be removed: ").toList ++
        err.display))
  | .ok (s, _) => .ok (written, s)

inductive ApplicationStatus where
  | unknown
  | starting
  | running
  | stopping
  | stopped
  | failed
  deriving DecidableEq

/-- `restore_backup`: `status` is the refreshed one, `fetched` the archive as it comes from the Node
or, if that copy is gone, from the backup destination. -/
def restoreBackup (w : World) (application backup : Uuid) (status : AppResult ApplicationStatus)
    (fetched : AppResult Archive) (s : σ) : AppResult (Nat × σ) :=
  match w.get backup with
  | none => .error (.notFound ("backup " ++ backup.display))
  | some row =>
    if row.applicationId ≠ application then
      .error (.notFound ("backup " ++ backup.display))
    else do
      let status ← status
      if status ∈ [.running, .starting, .stopping] then
        .error (.invalidInput "stop the application before restoring a backup")
      else do
        let archive ← fetched
        restoreFrom p archive s

end Restore

end VibeSsh.Backups
