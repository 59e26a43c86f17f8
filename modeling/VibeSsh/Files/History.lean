import VibeSsh.Lib.Assoc
import VibeSsh.Lib.Calendar
import VibeSsh.Lib.Run

/-! # The versions an editor's save keeps

`save_file` with its backup. The version replaced is copied to an entry of the file's history named
by the second of the save; a copy onto an entry that exists replaces it, and a copy that fails does
not stop the save. What the provider's calls do is part of the input. -/

namespace VibeSsh.Files.History

open Lib

def historyDirFor (path : Text) : Text := ".vibessh/history/" ++ path.dropWhile (· = '/')

/-- `format("%Y-%m-%dT%H-%M-%SZ")`. -/
def timestamp (seconds : Nat) : Text :=
  let date := Calendar.yearAndDay (seconds / 86400) 1970 (seconds / 86400)
  let day := Calendar.monthAndDay (Calendar.monthLengths date.1) date.2
  let second := seconds % 86400
  Calendar.yearText date.1 ++ "-" ++ Calendar.padded 2 (day.1 + 1) ++ "-" ++
    Calendar.padded 2 (day.2 + 1) ++ "T" ++ Calendar.padded 2 (second / 3600) ++ "-" ++
    Calendar.padded 2 (second / 60 % 60) ++ "-" ++ Calendar.padded 2 (second % 60) ++ "Z"

def historyEntryPath (path : Text) (seconds : Nat) : Text :=
  historyDirFor path ++ "/" ++ timestamp seconds

abbrev Bytes := List UInt8

/-- How a copy ends: one that fails may leave part of the file. -/
inductive Copy where
  | made
  | failed (left : Option Bytes)

/-- How `atomic_write_via_temp` ends. -/
inductive Write where
  | tempFailed
  | renamed
  | direct
  | directFailed (left : Option Bytes)

/-- A save, and what the calls it makes come to. `oneCall`, where the provider has
`save_in_one_call`, tells how the copy ended and whether the file was replaced. -/
structure Save where
  seconds : Nat
  contents : Bytes
  backup : Bool
  oneCall : Option (Copy × Bool)
  copy : Copy
  createHistory : Bool
  copyAgain : Copy
  write : Write

/-- The file, its history, and every version that a save with a backup has replaced. -/
structure State where
  content : Option Bytes
  history : List (Text × Bytes)
  replaced : List Bytes

/-- The history once the file has been copied to an entry of it. -/
def keep (entry : Text) (s : State) (history : List (Text × Bytes)) :
    Copy → List (Text × Bytes)
  | .made => (s.content.map (Assoc.insert history entry)).getD history
  | .failed left => (left.map (Assoc.insert history entry)).getD history

def backUpInPlace (entry : Text) (save : Save) (s : State) : List (Text × Bytes) :=
  match save.copy with
  | .made => keep entry s s.history .made
  | .failed left =>
    let history := keep entry s s.history (.failed left)
    if save.createHistory then keep entry s history save.copyAgain else history

def replace (save : Save) (s : State) (content : Option Bytes) : State :=
  { s with
    content
    replaced := if save.backup then s.replaced ++ s.content.toList else s.replaced }

def atomicWriteViaTemp (save : Save) (s : State) : State :=
  match save.write with
  | .tempFailed => s
  | .renamed | .direct => replace save s (some save.contents)
  | .directFailed left => replace save s left

def backUp (path : Text) (save : Save) (s : State) : List (Text × Bytes) :=
  let entry := historyEntryPath path save.seconds
  match save.backup, save.oneCall with
  | false, _ => s.history
  | true, some (copy, _) => keep entry s s.history copy
  | true, none => backUpInPlace entry save s

def write (save : Save) (s : State) : State :=
  match save.oneCall with
  | some (_, wrote) => if wrote then replace save s (some save.contents) else s
  | none => atomicWriteViaTemp save s

/-- One call, or two, first copies and then writes. -/
def saveFile (path : Text) (s : State) (save : Save) : State :=
  write save { s with history := backUp path save s }

/-- Every version replaced is the content of an entry. -/
def Recoverable (s : State) : Prop := ∀ v ∈ s.replaced, ∃ e ∈ s.history, e.2 = v

def Copy.isMade : Copy → Bool
  | .made => true
  | .failed _ => false

/-- Whether the version replaced was copied. -/
def Save.copied (save : Save) : Bool :=
  match save.oneCall with
  | some (copy, _) => copy.isMade
  | none => save.copy.isMade || save.createHistory && save.copyAgain.isMade

/-- The save's entry is not taken, and the copy is made. -/
def Kept (path : Text) (s : State) (save : Save) : Prop :=
  save.backup = true →
    (∀ e ∈ s.history, e.1 ≠ historyEntryPath path save.seconds) ∧
      (s.content ≠ none → save.copied = true)

/-- The other entries are kept, and a copy that is made keeps the current version. -/
structure Keeps (entry : Text) (s : State) (made : Bool) (history history' : List (Text × Bytes)) :
    Prop where
  others : ∀ e ∈ history, e.1 ≠ entry → e ∈ history'
  current : made = true → ∀ old, s.content = some old → (entry, old) ∈ history'

variable {path : Text} {s : State} {save : Save}

theorem keeps_keep (entry : Text) (s : State) (history : List (Text × Bytes)) (copy : Copy) :
    Keeps entry s copy.isMade history (keep entry s history copy) := by
  have hothers : ∀ (content : Option Bytes) (e : Text × Bytes), e ∈ history → e.1 ≠ entry →
      e ∈ (content.map (Assoc.insert history entry)).getD history := by
    intro content e he hne
    cases content with
    | none => exact he
    | some content => exact List.mem_cons_of_mem _ (List.mem_filter.mpr ⟨he, by simpa using hne⟩)
  cases copy with
  | made => exact ⟨hothers _, fun _ old hold => by simp [keep, hold, Assoc.insert]⟩
  | failed left => exact ⟨hothers left, nofun⟩

theorem keeps_backUpInPlace (entry : Text) (s : State) (save : Save) :
    Keeps entry s (save.copy.isMade || save.createHistory && save.copyAgain.isMade) s.history
      (backUpInPlace entry save s) := by
  unfold backUpInPlace
  cases save.copy with
  | made => exact keeps_keep entry s s.history .made
  | failed left =>
    have hfirst := keeps_keep entry s s.history (.failed left)
    cases save.createHistory with
    | false => exact hfirst
    | true =>
      have hsecond := keeps_keep entry s (keep entry s s.history (.failed left)) save.copyAgain
      exact ⟨fun e he hne => hsecond.others e (hfirst.others e he hne) hne, hsecond.current⟩

theorem keeps_backUp (h : save.backup = true) :
    Keeps (historyEntryPath path save.seconds) s save.copied s.history (backUp path save s) := by
  unfold backUp Save.copied
  rw [h]
  cases save.oneCall with
  | some answer => exact keeps_keep _ s s.history answer.1
  | none => exact keeps_backUpInPlace _ s save

theorem write_eq (save : Save) (s : State) :
    write save s = s ∨ ∃ content, write save s = replace save s content := by
  unfold write atomicWriteViaTemp
  split
  · split
    · exact .inr ⟨_, rfl⟩
    · exact .inl rfl
  · split
    · exact .inl rfl
    all_goals exact .inr ⟨_, rfl⟩

theorem recoverable_saveFile (h : Recoverable s) (hkept : Kept path s save) :
    Recoverable (saveFile path s save) := by
  have hold : ∀ v ∈ s.replaced, ∃ e ∈ backUp path save s, e.2 = v := by
    intro v hv
    obtain ⟨e, he, hv⟩ := h v hv
    refine ⟨e, ?_, hv⟩
    cases hbackup : save.backup with
    | false => simpa [backUp, hbackup] using he
    | true => exact (keeps_backUp hbackup).others e he ((hkept hbackup).1 e he)
  unfold saveFile Recoverable
  rcases write_eq save { s with history := backUp path save s } with hwrite | ⟨content, hwrite⟩ <;>
    rw [hwrite]
  · exact hold
  unfold replace
  cases hbackup : save.backup with
  | false => exact hold
  | true =>
    intro v hv
    rcases List.mem_append.mp hv with hv | hv
    · exact hold v hv
    · have hcurrent : s.content = some v := by simpa using hv
      have hcopied := (hkept hbackup).2 (by simp [hcurrent])
      exact ⟨_, (keeps_backUp hbackup).current hcopied v hcurrent, rfl⟩

/-- **While every copy is made, to an entry that is free, every version replaced can be restored.** -/
theorem versions_recoverable (path : Text) (s : State) (saves : List Save) (hs : s.replaced = [])
    (h : ∀ x ∈ traceOf (saveFile path) s saves, Kept path x.pre x.label) :
    ∀ x ∈ traceOf (saveFile path) s saves, Recoverable x.post := by
  have hstart : Recoverable s := by simp [Recoverable, hs]
  have hrun := (run_traceOf (saveFile path) s saves).invariant Recoverable (Kept path) (by
    rintro s save t hinv hok rfl
    exact recoverable_saveFile hinv hok) hstart h
  exact fun x hx => (hrun.2 x hx).2.2

/-- A save in which every call succeeds. -/
def plainSave (seconds : Nat) (contents : Bytes) : Save :=
  ⟨seconds, contents, true, none, .made, true, .made, .renamed⟩

def oneVersion : State := ⟨some [0], [], []⟩

def savesApart : List Save := [plainSave 0 [1], plainSave 1 [2]]

theorem saves_apart_recoverable :
    (savesApart.foldl (saveFile "a") oneVersion).replaced = [[0], [1]] ∧
      ∀ x ∈ traceOf (saveFile "a") oneVersion savesApart, Recoverable x.post := by
  refine ⟨by decide, versions_recoverable "a" oneVersion savesApart rfl fun x hx => ?_⟩
  simp only [savesApart, traceOf, List.mem_cons, List.not_mem_nil, or_false] at hx
  rcases hx with rfl | rfl
  · exact fun _ => ⟨nofun, fun _ => rfl⟩
  · exact fun _ => ⟨by decide, fun _ => rfl⟩

/-- Two saves within a second: the first version is nowhere. -/
theorem second_save_replaces_entry :
    ¬ Recoverable ([plainSave 0 [1], plainSave 0 [2]].foldl (saveFile "a") oneVersion) := by
  unfold Recoverable
  decide

end VibeSsh.Files.History
