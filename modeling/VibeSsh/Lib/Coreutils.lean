import VibeSsh.Lib.Posix.Write

/-! # Tools a shell script works on files with

GNU `basename`, `dirname`, `realpath`, `cp`, `chmod`, `mkdir`, `rm -rf` and the tests of `[`, on a
file tree. A tool that fails leaves the tree as it is, but for `rm -rf`, which removes what it can.
`limit` is how many links the kernel follows in a path and `cwd` the directory the script is in. -/

namespace Lib.Coreutils

open Posix Option

def substitution (output : Text) : Text := Text.trimEndMatches '\n' output

def basename (t : Text) : Text :=
  let trimmed := Text.trimEndMatches '/' t
  if t.isEmpty then [] else if trimmed.isEmpty then ['/'] else (Text.baseName trimmed).getD []

def dirname (t : Text) : Text :=
  let trimmed := Text.trimEndMatches '/' t
  let parts := trimmed.splitOn '/'
  let parent := Text.trimEndMatches '/' (Text.join ['/'] parts.dropLast)
  if t.isEmpty then ['.']
  else if trimmed.isEmpty then ['/']
  else if parts.length < 2 then ['.']
  else if parent.isEmpty then ['/'] else parent

section

variable (limit : Nat) (cwd : Path) (fs : Fs)

variable (t : Text)

/-- `realpath -e`: every component has to exist. -/
def realpathE : Option Text :=
  match resolve fs limit cwd t with
  | .found p => some (render p)
  | _ => none

/-- `realpath`: the last component may be missing. -/
def realpath : Option Text := (resolve fs limit cwd t).place.map render

/-- What a path leads to: `stat`. -/
def stat : Option (Path × Node) :=
  match resolve fs limit cwd t with
  | .found p => (fs.get p).map fun node => (p, node)
  | _ => none

/-- `[ -e t ]`. -/
def testE : Bool := (stat limit cwd fs t).isSome

/-- `[ -d t ]`. -/
def testD : Bool := (stat limit cwd fs t).any fun e => e.2.isDir

/-- `[ -f t ]`. -/
def testF : Bool :=
  (stat limit cwd fs t).any fun e => !e.2.isDir && !e.2.isLink

/-- `[ -L t ]`. -/
def testL : Bool :=
  match entry fs limit cwd t with
  | .found p => (fs.get p).any Node.isLink
  | _ => false

/-- Where `cp` copies to: into a directory under the source's name. -/
def cpTarget (source target : Text) : Text :=
  if testD limit cwd fs target then
    if target.getLast? = some '/' then target ++ basename source
    else target ++ '/' :: basename source
  else target

/-- What `cp source target` leaves, and where, with the mask `umask`. A file that is there keeps its
mode. Nothing is created through a link that leads nowhere, and a file is not copied to itself. -/
def cpChange (umask : Nat) (source target : Text) : Option (Path × Node) :=
  match stat limit cwd fs source with
  | some (p, .file contents attr) =>
    let target := cpTarget limit cwd fs source target
    match resolve fs limit cwd target, entry fs limit cwd target with
    | .found q, _ =>
      if q = p then none
      else match fs.get q with
        | some (.file _ old) => if old.mine then some (q, .file contents old) else none
        | _ => none
    | .absent _ _, .absent d n =>
      if fs.mine d then some (d ++ [n], .file contents ⟨attr.mode &&& (0o777 ^^^ umask), true⟩)
      else none
    | _, _ => none
  | _ => none

def cp (umask : Nat) (source target : Text) : Option Fs :=
  fs.putAt (cpChange limit cwd fs umask source target)

/-- What `chmod mode t` leaves, and where. -/
def chmodChange (mode : Nat) (t : Text) : Option (Path × Node) :=
  match stat limit cwd fs t with
  | some (p, node) => if fs.mine p then some (p, node.withMode mode) else none
  | none => none

def chmod (mode : Nat) (t : Text) : Option Fs := fs.putAt (chmodChange limit cwd fs mode t)

/-- `> t`: the shell opens `t`, made empty or created, and `contents` is written. -/
def redirect (umask : Nat) (t contents : Text) : Option Fs :=
  fs.openTrunc limit cwd t contents (0o666 &&& (0o777 ^^^ umask))

/-- `rm -f t`: a directory is left alone. -/
def rmFile : Fs × Bool :=
  match entry fs limit cwd t with
  | .found p =>
    if hp : p ≠ [] ∧ fs.isDir p = false ∧ fs.mine p.dropLast = true then
      (fs.removeTree p hp.1, true)
    else (fs, false)
  | _ => (fs, true)

/-- `mktemp`: an empty file under a new name. -/
def mktemp : Option Fs :=
  match entry fs limit cwd t with
  | .absent d n => if fs.mine d then fs.put (d ++ [n]) (.file [] ⟨0o600, true⟩) else none
  | _ => none

/-- `mv -f source target` of a file within a directory. -/
def mvFile (source target : Text) : Option Fs :=
  match entry fs limit cwd source, (entry fs limit cwd target).place with
  | .found p, some q =>
    if hp : p ≠ [] ∧ fs.mine p.dropLast = true ∧ fs.mine q.dropLast = true then
      (fs.get p).bind fun node => (fs.removeTree p hp.1).put q node
    else none
  | _, _ => none

/-- `rm -rf t`: the tree it leaves, and whether it got everything. -/
def rmRf : Fs × Bool :=
  match entry fs limit cwd t with
  | .found p => if hp : p ≠ [] then (fs.removeTree p hp, fs.removable p) else (fs, false)
  | _ => (fs, true)

end

/-! ## The change a tool makes fits the tree -/

section

variable {limit : Nat} {cwd : Path} {fs : Fs}

variable {t source target : Text} {e : Path × Node} {umask : Nat}

end

end Lib.Coreutils
