import VibeSsh.Files.HelperScript

/-! # What the helper's reading operations change

`realpath`, `list`, `stat` and `readsmall` change nothing. `read` and `readrange` write a copy to the
staging path and set its mode: two entries at most, wherever that path leads. What the copy leaves
alone is told from the tree and the arguments. -/

namespace VibeSsh.FileHelper

open Lib Lib.Posix Lib.Coreutils Option

/-- The entries a change leaves, with the mode set on the staging path after it. -/
def thenChmod (fs : Fs) (staging : Text) (change : Option (Path × Node)) : List (Path × Node) :=
  match change, fs.putAt change with
  | some e, some changed => (chmodChange maxLinks [] changed 0o600 staging).toList ++ [e]
  | _, _ => []

def copyEntries (fs : Fs) (target staging : Text) : List (Path × Node) :=
  thenChmod fs staging (cpChange maxLinks [] fs umask target staging)

/-- What opening the staging path and writing `bytes` leaves. -/
def redirectChange (fs : Fs) (staging bytes : Text) : Option (Path × Node) :=
  fs.written bytes (0o666 &&& (0o777 ^^^ umask)) (resolve fs maxLinks [] staging)

def rangeEntries (tools : Tools) (fs : Fs) (target staging : Text) (offset length : Option Text) :
    List (Path × Node) :=
  match length with
  | none => []
  | some length =>
    let (bytes, ok) := tools.range (contentsOf fs target) offset length
    if ok then thenChmod fs staging (redirectChange fs staging bytes)
    else (redirectChange fs staging bytes).toList

/-- The entries of a copy, if the script accepts the path and the staging path. -/
def ifAccepted (tools : Tools) (fs : Fs) (canonRoot : Text) (path staging : Option Text)
    (entries : Text → Text → List (Path × Node)) : List (Path × Node) :=
  match path.bind (resolveTarget tools fs), staging with
  | some target, some staging =>
    if withinRoot canonRoot target && requireStaging staging then entries target staging else []
  | _, _ => []

/-- The entries a command line with a reading operation leaves in the tree. -/
def staged (tools : Tools) (fs : Fs) : List Text → List (Path × Node)
  | rootArg :: op :: arguments =>
    match canonical tools fs rootArg, Operation.ofName op with
    | some canonRoot, some .read =>
      ifAccepted tools fs canonRoot arguments[0]? arguments[1]? (copyEntries fs)
    | some canonRoot, some .readrange =>
      ifAccepted tools fs canonRoot arguments[0]? arguments[1]? fun target staging =>
        rangeEntries tools fs target staging arguments[2]? arguments[3]?
    | _, _ => []
  | _ => []

section

variable {tools : Tools} {fs : Fs}

variable {staging canonRoot : Text}

variable {change : Option (Path × Node)}

variable {entries : Text → Text → List (Path × Node)}

variable {arguments : List Text}

def stagingPath : Path := ["run", "vibessh", "stage"]

section

variable {id : Uuid} {e : Path × Node} {contents : Text} {s : Path}

variable {change : Option (Path × Node)}

end

end

end VibeSsh.FileHelper
