import VibeSsh.Files.Sandbox

/-! # Writing through the Local and the SFTP provider

`files::local` and `files::sftp`: how each turns a caller's path into the path it hands to the
system, and the three operations that write there. Local is the Unix build. The SFTP server is only
known by what `REALPATH` promises: the path it returns leads through no link, and at most its last
name is missing. -/

namespace VibeSsh.Files

open Lib Lib.Posix Sandbox

/-- The file tree a process sees, and the directory it is in. -/
structure Host where
  fs : Fs
  cwd : Path
  cwd_dir : fs.isDir cwd = true

/-! ## Resolving a path -/

namespace Local

def canonicalize (host : Host) (t : Text) : Option Path :=
  match resolve host.fs maxLinks host.cwd t with
  | .found p => some p
  | _ => none

def pathExists (host : Host) (t : Text) : Bool := (canonicalize host t).isSome

def joinPath (root relative : Text) : Text :=
  if root.isEmpty || root.getLast? = some '/' then root ++ relative else root ++ '/' :: relative

/-- The components of a `Path` up to the last that counts: slashes at the end and `.` do not,
except for a `.` the path starts with. -/
def components (parts : List Text) : List Text :=
  let kept := parts.rdropWhile fun c => c == [] || c == ['.']
  if kept.isEmpty && parts.head? == some ['.'] then [['.']] else kept

/-- `Path::parent` and `Path::file_name`. -/
def parentAndName (t : Text) : Option (Text × Text) :=
  let parts := components (t.splitOn '/')
  let name := parts.getLast?.getD []
  if IsName name then
    let parent := components parts.dropLast
    some (if parent.isEmpty then if t.head? = some '/' then ['/'] else []
      else Text.join ['/'] parent, name)
  else none

def canonicalRoot (host : Host) (root : Text) : AppResult Path :=
  match canonicalize host root with
  | some p => .ok p
  | none => .error (.invalidInput "the application's working directory doesn't exist")

def canonicalizeExistingOrParent (host : Host) (candidate : Text) : AppResult Path :=
  if pathExists host candidate then
    match canonicalize host candidate with
    | some p => .ok p
    | none => .error (.internal ("couldn't resolve " ++ candidate))
  else
    match parentAndName candidate with
    | none => .error (.invalidInput "invalid path")
    | some (parent, name) =>
      match canonicalize host parent with
      | some p => .ok (p ++ [name])
      | none => .error (.invalidInput "the containing directory doesn't exist")

def pathKey (p : Path) : Text := (render p).map fun c => if c = '\\' then '/' else c

def resolvePath (host : Host) (root relative : Text) : AppResult Path := do
  let relative ← sanitizeRelativePath relative
  let root' ← canonicalRoot host root
  let canonical ← canonicalizeExistingOrParent host (joinPath root relative)
  if !isWithinRoot (pathKey canonical) (pathKey root') then
    .error (.invalidInput "path escapes the application directory")
  else .ok canonical

end Local

namespace Sftp

/-- The server on a host, by its answers to `REALPATH`. -/
structure Server (host : Host) where
  realpath : Text → Option Path
  realpath_sound : ∀ t p, realpath t = some p →
    Settled host.fs p ∨ ∃ d n, p = d ++ [n] ∧ Missing host.fs d n

def splitParent (path : Text) : AppResult (Text × Text) :=
  let parts := path.splitOn '/'
  let name := (Text.baseName path).getD []
  if parts.length < 2 || name.isEmpty then .error (.invalidInput "invalid path")
  else
    let parent := Text.join ['/'] parts.dropLast
    .ok (if parent.isEmpty then ['/'] else parent, name)

def canonicalRoot {host : Host} (server : Server host) (root : Text) : AppResult Path :=
  match server.realpath root with
  | some p => .ok p
  | none =>
    .error (.invalidInput
      "the application's working directory doesn't exist on the remote host")

def canonicalizeExistingOrParent {host : Host} (server : Server host) (candidate : Text) :
    AppResult Path :=
  match server.realpath candidate with
  | some p => .ok p
  | none => do
    let (parent, name) ← splitParent candidate
    match server.realpath parent with
    | some p => .ok (p ++ [name])
    | none => .error (.invalidInput "the containing directory doesn't exist")

def resolvePath {host : Host} (server : Server host) (root relative : Text) : AppResult Path := do
  let relative ← sanitizeRelativePath relative
  let candidate :=
    if relative.isEmpty then root else Text.trimEndMatches '/' root ++ '/' :: relative
  let root' ← canonicalRoot server root
  let canonical ← canonicalizeExistingOrParent server candidate
  if !isWithinRoot (render canonical) (render root') then
    .error (.invalidInput "path escapes the application directory")
  else .ok canonical

end Sftp

/-! ## The operations -/

/-- What is asked of a provider; an upload brings the local file's contents, if it can be opened. -/
inductive Op where
  | writeFile (contents : Text)
  | createDirectory
  | uploadFile (source : Option Text)

/-- The entry the operation makes or changes when the resolved path is handed to the system. -/
def Op.change (host : Host) (p : Path) : Op → Option (Path × Node)
  | .writeFile contents | .uploadFile (some contents) =>
    host.fs.written contents 0o644 (resolve host.fs maxLinks host.cwd (render p))
  | .createDirectory => host.fs.made 0o755 (entry host.fs maxLinks host.cwd (render p))
  | .uploadFile none => none

/-- The error of an operation the system refuses, up to the system's own words. -/
def Local.refused (localSource p : Text) : Op → AppError
  | .writeFile _ => .internal ("couldn't write " ++ p)
  | .createDirectory => .internal ("couldn't create directory " ++ p)
  | .uploadFile none => .internal ("couldn't open " ++ localSource)
  | .uploadFile (some _) => .internal ("couldn't create " ++ p)

def Sftp.refused (localSource p : Text) : Op → AppError
  | .writeFile _ | .uploadFile (some _) =>
    .connection ("couldn't open " ++ p ++ " for writing")
  | .createDirectory => .connection ("couldn't create directory " ++ p)
  | .uploadFile none => .internal ("couldn't open " ++ localSource)

/-- The operation on a path the provider has resolved. -/
def perform (host : Host) (refused : Text → Op → AppError) (resolved : AppResult Path) (op : Op) :
    AppResult Unit × Fs :=
  match resolved with
  | .error e => (.error e, host.fs)
  | .ok p =>
    match host.fs.putAt (op.change host p) with
    | some fs => (.ok (), fs)
    | none => (.error (refused (render p) op), host.fs)

def Local.run (host : Host) (root localSource path : Text) (op : Op) : AppResult Unit × Fs :=
  perform host (Local.refused localSource) (Local.resolvePath host root path) op

def Sftp.run {host : Host} (server : Server host) (root localSource path : Text) (op : Op) :
    AppResult Unit × Fs :=
  perform host (Sftp.refused localSource) (Sftp.resolvePath server root path) op

end VibeSsh.Files
