import VibeSsh.Basic
import VibeSsh.Lib.Coreutils

/-! # The file helper

`files::sudo_user::helper_script`, the shell script a Node runs as an application's account. Only its
exit status and what it does to the file tree are modelled, not what it prints. The script starts
with `cd /` and `umask 077`. What comes from outside the tree and the tools that move or copy whole
trees are parameters. -/

namespace VibeSsh.FileHelper

open Lib Lib.Posix Lib.Coreutils

def stagingRoot : Text := "/run/vibessh/stage"

def umask : Nat := 0o077

structure Tools where
  /-- How many links `realpath` follows. -/
  links : Nat
  /-- What `tail | head` write of a file for an offset and a length, and whether `head` succeeds. -/
  range : Text → Option Text → Text → Text × Bool
  /-- `cp -r`. -/
  copyTree : Fs → Text → Text → Fs × Bool
  /-- `mv -T`. -/
  moveEntry : Fs → Text → Text → Fs × Bool
  /-- `fetch_to`: the download, or the exit status. -/
  fetch : Text → Except Nat Text
  /-- What `mktemp` puts for the `X`s. -/
  suffix : Text
  stdin : Text

structure Result where
  exit : Nat
  fs : Fs

inductive Operation where
  | realpath | list | stat | read | readrange | write | mkdir | delete | rename | copy | chmod
  | readsmall | writein | fetchurl | cleanup
  deriving DecidableEq

def Operation.name : Operation → Text
  | .realpath => "realpath"
  | .list => "list"
  | .stat => "stat"
  | .read => "read"
  | .readrange => "readrange"
  | .write => "write"
  | .mkdir => "mkdir"
  | .delete => "delete"
  | .rename => "rename"
  | .copy => "copy"
  | .chmod => "chmod"
  | .readsmall => "readsmall"
  | .writein => "writein"
  | .fetchurl => "fetchurl"
  | .cleanup => "cleanup"

def Operation.all : List Operation :=
  [.realpath, .list, .stat, .read, .readrange, .write, .mkdir, .delete, .rename, .copy, .chmod,
    .readsmall, .writein, .fetchurl, .cleanup]

def Operation.ofName (t : Text) : Option Operation := Operation.all.find? fun op => op.name == t

section

variable (tools : Tools) (fs : Fs)

def pathExists (t : Text) : Bool := testE maxLinks [] fs t || testL maxLinks [] fs t

def canonical (t : Text) : Option Text := (realpathE tools.links [] fs t).map substitution

def withinRoot (canonRoot t : Text) : Bool :=
  t == canonRoot || Text.startsWith (canonRoot ++ ['/']) t

/-- The last name kept as written, in the directory resolved in full. -/
def inParent (t : Text) : Option Text :=
  (canonical tools fs (substitution (dirname t))).map fun parent =>
    substitution (parent ++ '/' :: substitution (basename t))

def resolveTarget (t : Text) : Option Text :=
  if pathExists fs t then (realpath tools.links [] fs t).map substitution else inParent tools fs t

def resolveEntry (t : Text) : Option Text :=
  if [['.'], ['.', '.'], ['/']].contains (substitution (basename t)) then canonical tools fs t
  else inParent tools fs t

def requireStaging (t : Text) : Bool := Text.startsWith (stagingRoot ++ ['/']) t

/-- The argument resolved and held to the root; the script goes on with what it resolves to. -/
def withPath (resolver : Text → Option Text) (canonRoot : Text) (argument : Option Text)
    (next : Text → Result) : Result :=
  match argument.bind resolver with
  | none => ⟨4, fs⟩
  | some target => if withinRoot canonRoot target then next target else ⟨5, fs⟩

/-- The staging argument; a missing one ends the script. -/
def withStaging (argument : Option Text) (next : Text → Result) : Result :=
  match argument with
  | none => ⟨2, fs⟩
  | some staging => if requireStaging staging then next staging else ⟨8, fs⟩

def finish (done : Option Fs) : Result :=
  match done with
  | some after => ⟨0, after⟩
  | none => ⟨1, fs⟩

def contentsOf (t : Text) : Text :=
  match stat maxLinks [] fs t with
  | some (_, .file contents _) => contents
  | _ => []

def read (target staging : Text) : Result :=
  match cp maxLinks [] fs umask target staging with
  | none => ⟨1, fs⟩
  | some copied => finish copied (chmod maxLinks [] copied 0o600 staging)

def readrange (target staging : Text) (offset length : Option Text) : Result :=
  match length with
  | none => ⟨2, fs⟩
  | some length =>
    let (bytes, ok) := tools.range (contentsOf fs target) offset length
    match redirect maxLinks [] fs umask staging bytes with
    | none => ⟨2, fs⟩
    | some written =>
      if ok then finish written (chmod maxLinks [] written 0o600 staging) else ⟨1, written⟩

def readsmall (target : Text) (limit : Option Text) : Result :=
  let digits := limit.getD []
  if !testF maxLinks [] fs target then ⟨4, fs⟩
  else if digits.isEmpty || !digits.all Char.isDigit then ⟨6, fs⟩
  else if Nat.ofDigitChars 10 digits 0 < (contentsOf fs target).length then ⟨9, fs⟩
  else ⟨0, fs⟩

def write (target staging : Text) : Result :=
  finish fs (cp maxLinks [] fs umask staging target)

def delete (canonRoot target : Text) : Result :=
  if target == canonRoot then ⟨6, fs⟩
  else
    let (after, ok) := rmRf maxLinks [] fs target
    ⟨if ok then 0 else 1, after⟩

def rename (canonRoot source : Text) (target : Option Text) : Result :=
  if !pathExists fs source then ⟨4, fs⟩
  else withPath fs (resolveEntry tools fs) canonRoot target fun target =>
    if pathExists fs target then ⟨11, fs⟩
    else
      let (after, ok) := tools.moveEntry fs source target
      ⟨if ok then 0 else 1, after⟩

def copy (source target : Text) : Result :=
  let (after, ok) := tools.copyTree fs source target
  ⟨if ok then 0 else 1, after⟩

def chmodTo (target : Text) (mode : Option Text) : Result :=
  match mode with
  | none => ⟨2, fs⟩
  | some mode =>
    if mode.isEmpty || !mode.all fun c => '0' ≤ c && c ≤ '7' then ⟨7, fs⟩
    else if 0o7777 < Nat.ofDigitChars 8 mode 0 then ⟨1, fs⟩
    else finish fs (chmod maxLinks [] fs (Nat.ofDigitChars 8 mode 0) target)

/-- The loop of `make_dirs_within_root`: the tree it leaves, and whether it got to the end. -/
def makeDirs (canonRoot : Text) (fs : Fs) (cur : Text) : List Text → Fs × Bool
  | [] => (fs, true)
  | part :: rest =>
    if part = [] ∨ part = ['.'] then makeDirs canonRoot fs cur rest
    else if part = ['.', '.'] then (fs, false)
    else
      let next := cur ++ '/' :: part
      if pathExists fs next then
        match canonical tools fs next with
        | none => (fs, false)
        | some real =>
          if withinRoot canonRoot real && testD maxLinks [] fs real then
            makeDirs canonRoot fs real rest
          else (fs, false)
      else match fs.mkdir maxLinks [] next 0o700 with
        | none => (fs, false)
        | some made => makeDirs canonRoot made next rest

def makeDirsWithinRoot (canonRoot rootArg t : Text) : Fs × Bool :=
  if Text.startsWith (canonRoot ++ ['/']) t then
    makeDirs tools canonRoot fs canonRoot ((t.drop (canonRoot.length + 1)).splitOn '/')
  else if Text.startsWith (rootArg ++ ['/']) t then
    makeDirs tools canonRoot fs canonRoot ((t.drop (rootArg.length + 1)).splitOn '/')
  else (fs, false)

/-- The version `writein` is about to replace, kept under the backup path. -/
def keepBackup (canonRoot rootArg target backup : Text) : Result :=
  let dir := substitution (dirname backup)
  let (made, ok) :=
    if testD maxLinks [] fs dir then (fs, true)
    else makeDirsWithinRoot tools fs canonRoot rootArg dir
  if !ok then ⟨10, made⟩
  else match resolveTarget tools made backup with
    | none => ⟨10, made⟩
    | some backup =>
      if !withinRoot canonRoot backup then ⟨5, made⟩
      else match cp maxLinks [] made umask target backup with
        | none => ⟨10, made⟩
        | some after => ⟨0, after⟩

/-- A temporary file beside the target, for the script to go on with. -/
def withTemporary (target : Text) (stem : String) (next : Fs → Text → Result) : Result :=
  let tmp := substitution (dirname target) ++ '/' :: stem.toList ++ tools.suffix
  match mktemp maxLinks [] fs tmp with
  | none => ⟨1, fs⟩
  | some made => next made tmp

def discard (exit : Nat) (tmp : Text) : Result := ⟨exit, (rmFile maxLinks [] fs tmp).1⟩

def moveOver (tmp target : Text) : Result :=
  match mvFile maxLinks [] fs tmp target with
  | none => discard fs 1 tmp
  | some after => ⟨0, after⟩

/-- The new contents from stdin, with the mode of the file they replace. -/
def saveStdin (target : Text) : Result :=
  withTemporary tools fs target ".vibessh-save." fun made tmp =>
    match redirect maxLinks [] made umask tmp tools.stdin with
    | none => discard made 1 tmp
    | some filled =>
      match stat maxLinks [] filled target with
      | some (_, .file _ attr) =>
        moveOver ((chmod maxLinks [] filled attr.mode tmp).getD filled) tmp target
      | _ => moveOver filled tmp target

def writein (canonRoot rootArg target : Text) (backup : Option Text) : Result :=
  let backup := backup.getD []
  if testD maxLinks [] fs target then ⟨4, fs⟩
  else if backup.isEmpty || !testF maxLinks [] fs target then saveStdin tools fs target
  else
    let kept := keepBackup tools fs canonRoot rootArg target backup
    if kept.exit ≠ 0 then kept else saveStdin tools kept.fs target

def fetchurl (target : Text) (url : Option Text) : Result :=
  if testD maxLinks [] fs target then ⟨4, fs⟩
  else withTemporary tools fs target ".vibessh-fetch." fun made tmp =>
    match url.map tools.fetch with
    | none => ⟨2, made⟩
    | some (.error code) => discard made code tmp
    | some (.ok contents) =>
      match redirect maxLinks [] made umask tmp contents with
      | none => discard made 1 tmp
      | some filled =>
        match chmod maxLinks [] filled 0o644 tmp with
        | none => ⟨1, filled⟩
        | some moded => moveOver moded tmp target

def cleanup (staging : Text) : Result :=
  let (after, ok) := rmFile maxLinks [] fs staging
  ⟨if ok then 0 else 1, after⟩

/-- One operation with the arguments after its name. -/
def perform (rootArg canonRoot : Text) (arguments : List Text) : Operation → Result
  | .realpath => withPath fs (resolveTarget tools fs) canonRoot arguments[0]? fun _ => ⟨0, fs⟩
  | .list | .stat =>
    withPath fs (resolveTarget tools fs) canonRoot arguments[0]? fun target =>
      ⟨if pathExists fs target then 0 else 1, fs⟩
  | .read =>
    withPath fs (resolveTarget tools fs) canonRoot arguments[0]? fun target =>
      withStaging fs arguments[1]? (read fs target)
  | .readrange =>
    withPath fs (resolveTarget tools fs) canonRoot arguments[0]? fun target =>
      withStaging fs arguments[1]? fun staging =>
        readrange tools fs target staging arguments[2]? arguments[3]?
  | .write =>
    withPath fs (resolveTarget tools fs) canonRoot arguments[0]? fun target =>
      withStaging fs arguments[1]? (write fs target)
  | .mkdir =>
    withPath fs (resolveTarget tools fs) canonRoot arguments[0]? fun target =>
      finish fs (fs.mkdir maxLinks [] target 0o700)
  | .delete => withPath fs (resolveEntry tools fs) canonRoot arguments[0]? (delete fs canonRoot)
  | .rename =>
    withPath fs (resolveEntry tools fs) canonRoot arguments[0]? fun source =>
      rename tools fs canonRoot source arguments[1]?
  | .copy =>
    withPath fs (resolveTarget tools fs) canonRoot arguments[0]? fun source =>
      withPath fs (resolveTarget tools fs) canonRoot arguments[1]? (copy tools fs source)
  | .chmod =>
    withPath fs (resolveTarget tools fs) canonRoot arguments[0]? fun target =>
      chmodTo fs target arguments[1]?
  | .readsmall =>
    withPath fs (resolveTarget tools fs) canonRoot arguments[0]? fun target =>
      readsmall fs target arguments[1]?
  | .writein =>
    withPath fs (resolveTarget tools fs) canonRoot arguments[0]? fun target =>
      writein tools fs canonRoot rootArg target arguments[1]?
  | .fetchurl =>
    withPath fs (resolveTarget tools fs) canonRoot arguments[0]? fun target =>
      fetchurl tools fs target arguments[1]?
  | .cleanup => withStaging fs arguments[0]? (cleanup fs)

/-- The script on its command line. -/
def helper : List Text → Result
  | rootArg :: op :: arguments =>
    match canonical tools fs rootArg with
    | none => ⟨3, fs⟩
    | some canonRoot =>
      match Operation.ofName op with
      | none => ⟨2, fs⟩
      | some op => perform tools fs rootArg canonRoot arguments op
  | _ => ⟨2, fs⟩

end

end VibeSsh.FileHelper
