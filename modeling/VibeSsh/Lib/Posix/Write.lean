import VibeSsh.Lib.Posix.Walk

/-! # Writing through a path

What `open` for writing and `mkdir` leave, and where: one entry, at the end of the walk. -/

namespace Lib.Posix.Fs

/-- What `open` with `O_CREAT | O_TRUNC` followed by writing `contents` leaves, and where. -/
def written (fs : Fs) (contents : Text) (mode : Nat) : Walk → Option (Path × Node)
  | .found p =>
    match fs.get p with
    | some (.file _ attr) => if attr.mine then some (p, .file contents attr) else none
    | _ => none
  | .absent d n => if fs.mine d then some (d ++ [n], .file contents ⟨mode, true⟩) else none
  | .failed => none

variable {fs : Fs} {contents : Text} {mode : Nat} {w : Walk} {e : Path × Node}

theorem fits_missing {d : Path} {n : Text} (h : Missing fs d n) (node : Node) :
    fs.Fits (d ++ [n]) node := by
  refine ⟨.inr (by simpa using ⟨h.1, h.2.2⟩), fun hdir => ?_⟩
  rw [isDir, h.2.1] at hdir
  cases hdir

theorem fits_written
    (hends : Ends fs w) (h : fs.written contents mode w = some e) : fs.Fits e.1 e.2 := by
  cases w with
  | found p =>
    unfold written at h
    dsimp only at h
    split at h
    · next old attr hget =>
      split at h
      · obtain rfl := Option.some.inj h
        exact fits_of_get hget fun hdir => by cases hdir
      · cases h
    · cases h
  | absent d n =>
    unfold written at h
    dsimp only at h
    split at h
    · obtain rfl := Option.some.inj h
      exact fits_missing hends _
    · cases h
  | failed => cases h

def made (fs : Fs) (mode : Nat) : Walk → Option (Path × Node)
  | .absent d n => if fs.mine d then some (d ++ [n], .dir ⟨mode, true⟩) else none
  | _ => none

theorem made_place (h : fs.made mode w = some e) : ∃ d n, w = .absent d n ∧ e.1 = d ++ [n] := by
  unfold made at h
  split at h
  · next d n =>
    split at h
    · obtain rfl := Option.some.inj h
      exact ⟨d, n, rfl, rfl⟩
    · cases h
  · cases h

theorem putAt_written {limit : Nat} {cwd : Path} (hcwd : fs.isDir cwd = true) {t : Text}
    (h : fs.written contents mode (resolve fs limit cwd t) = some e) :
    ∃ fs', fs.putAt (fs.written contents mode (resolve fs limit cwd t)) = some fs' ∧
      ∀ q, fs'.get q = if q = e.1 then some e.2 else fs.get q := by
  rw [h]
  exact putAt_some (fits_written (resolve_ends hcwd t) h)

theorem putAt_made {limit : Nat} {cwd : Path} (hcwd : fs.isDir cwd = true) {t : Text}
    (h : fs.made mode (entry fs limit cwd t) = some e) :
    ∃ fs', fs.putAt (fs.made mode (entry fs limit cwd t)) = some fs' ∧
      ∀ q, fs'.get q = if q = e.1 then some e.2 else fs.get q := by
  have hfits : fs.Fits e.1 e.2 := by
    match hentry : entry fs limit cwd t with
    | .found _ | .failed =>
      rw [hentry] at h
      cases h
    | .absent d n =>
      rw [hentry, made] at h
      split at h
      · obtain rfl := Option.some.inj h
        exact fits_missing (missing_of_entry hcwd hentry) _
      · cases h
  rw [h]
  exact putAt_some hfits

/-- `open` for writing, made empty or created, and `contents` written. -/
def openTrunc (fs : Fs) (limit : Nat) (cwd : Path) (t contents : Text) (mode : Nat) : Option Fs :=
  fs.putAt (fs.written contents mode (resolve fs limit cwd t))

def mkdir (fs : Fs) (limit : Nat) (cwd : Path) (t : Text) (mode : Nat) : Option Fs :=
  fs.putAt (fs.made mode (entry fs limit cwd t))

end Lib.Posix.Fs
