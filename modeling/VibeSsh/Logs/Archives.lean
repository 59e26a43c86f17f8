import VibeSsh.Lib.Assoc
import VibeSsh.Lib.Calendar
import VibeSsh.Lib.Run
import VibeSsh.Logs.Capture

/-! # Putting the captured history aside

`archive_and_clear` beside `append`. Both hold the application's lock from start to end, so calls at
once run one after the other. The archive is named by the second it is made in, and the rename
replaces what stands under that name. -/

namespace VibeSsh.Logs.Archives

open Lib List

structure Line where
  text : Text
  plain : Plain text

inductive Op where
  | append (lines : List Line)
  | clear (seconds : Nat)

/-- The files of one application, every line it was given, and those compactions have dropped. -/
structure State where
  live : Text
  archives : List (Text × Text)
  appended : List Text
  dropped : List Text

def archiveName (application : Uuid) (seconds : Nat) : Text :=
  application.display ++ "-" ++ Calendar.stamp seconds ++ ".log"

def next (application : Uuid) (s : State) : Op → State
  | .append lines =>
    let lines := lines.map (·.text)
    { s with
      live := append s.live lines
      appended := s.appended ++ lines
      dropped := s.dropped ++ (readAll s.live ++ lines).take (droppedBy s.live lines) }
  | .clear seconds =>
    if s.live.isEmpty then s
    else
      { s with
        live := []
        archives := Assoc.insert s.archives (archiveName application seconds) s.live }

def start : State := ⟨[], [], [], []⟩

/-- How often the archives hold a line. -/
def archived (archives : List (Text × Text)) (line : Text) : Nat :=
  (archives.map fun a => (readAll a.2).count line).sum

/-- Every line is stored as often as it was appended, or was dropped by a compaction. -/
def Kept (s : State) : Prop := ∀ line, s.appended.count line =
  (readAll s.live).count line + archived s.archives line + s.dropped.count line

/-- A clear that has something to put aside finds its name free. -/
def Fresh (application : Uuid) (s : State) : Op → Prop
  | .append _ => True
  | .clear seconds => s.live ≠ [] → ∀ a ∈ s.archives, a.1 ≠ archiveName application seconds

/-- A file of whole lines. -/
def IsLog (file : Text) : Prop := ∃ lines, file = unlines lines ∧ ∀ l ∈ lines, Plain l

structure Files (s : State) : Prop where
  live : IsLog s.live
  archives : ∀ a ∈ s.archives, IsLog a.2 ∧ a.2 ≠ []

variable {application : Uuid} {s : State}

theorem append_lines {file : Text} (h : IsLog file) (lines : List Line) :
    IsLog (append file (lines.map (·.text))) ∧
      readAll (append file (lines.map (·.text))) =
        (readAll file ++ lines.map (·.text)).drop (droppedBy file (lines.map (·.text))) := by
  obtain ⟨old, rfl, hold⟩ := h
  have hnew : ∀ l ∈ lines.map (·.text), Plain l := by
    simp only [mem_map, forall_exists_index, and_imp, forall_apply_eq_imp_iff₂]
    exact fun l _ => l.plain
  have hkept : ∀ l ∈ (old ++ lines.map (·.text)).drop (droppedBy (unlines old) (lines.map (·.text))),
      Plain l := fun l hl => (mem_append.mp (mem_of_mem_drop hl)).elim (hold l) (hnew l)
  rw [append_eq hold hnew, readAll_unlines hkept, readAll_unlines hold]
  exact ⟨⟨_, rfl, hkept⟩, rfl⟩

theorem files_next (h : Files s) (op : Op) : Files (next application s op) := by
  cases op with
  | append lines => exact ⟨(append_lines h.live lines).1, h.archives⟩
  | clear seconds =>
    simp only [next]
    split
    · exact h
    next hlive =>
    refine ⟨⟨[], rfl, nofun⟩, fun a ha => ?_⟩
    rcases mem_cons.mp ha with rfl | ha
    · exact ⟨h.live, by simpa using hlive⟩
    · exact h.archives a (mem_filter.mp ha).1

/-- A name that is taken loses the lines under it. -/
theorem archived_remove (archives : List (Text × Text)) (name line : Text) :
    archived archives line = archived (Assoc.remove archives name) line +
      archived (archives.filter (·.1 = name)) line := by
  unfold archived Assoc.remove
  induction archives with
  | nil => rfl
  | cons a archives ih =>
    by_cases ha : a.1 = name
    · simp [ha, ih]
      omega
    · simp [ha, ih]
      omega

theorem exists_line {file : Text} (h : IsLog file) (hne : file ≠ []) :
    ∃ line, 0 < (readAll file).count line := by
  obtain ⟨lines, rfl, hplain⟩ := h
  rw [readAll_unlines hplain]
  cases lines with
  | nil => exact absurd rfl hne
  | cons line _ => exact ⟨line, count_pos_iff.mpr mem_cons_self⟩

theorem kept_next_iff (h : Files s) (hkept : Kept s) (op : Op) :
    Kept (next application s op) ↔ Fresh application s op := by
  cases op with
  | append lines =>
    refine iff_of_true (fun line => ?_) trivial
    have hlines := congrArg (List.count line) (take_append_drop
      (droppedBy s.live (lines.map (·.text))) (readAll s.live ++ lines.map (·.text)))
    have hold := hkept line
    simp only [count_append] at hlines
    simp only [next, (append_lines h.live lines).2, count_append]
    omega
  | clear seconds =>
    simp only [next, Fresh]
    split
    · next hlive => exact iff_of_true hkept fun hne => absurd (isEmpty_iff.mp hlive) hne
    next hlive =>
    have hcount : ∀ line, archived
        (Assoc.insert s.archives (archiveName application seconds) s.live) line =
        (readAll s.live).count line +
          archived (Assoc.remove s.archives (archiveName application seconds)) line :=
      fun _ => rfl
    have hempty : ∀ line, (readAll []).count line = 0 := fun _ => rfl
    have hsplit := archived_remove s.archives (archiveName application seconds)
    constructor
    · intro hnext _ a ha hname
      obtain ⟨line, hline⟩ := exists_line (h.archives a ha).1 (h.archives a ha).2
      have hlost : (readAll a.2).count line ≤
          archived (s.archives.filter (·.1 = archiveName application seconds)) line :=
        single_le_sum (fun _ _ => Nat.zero_le _) _
          (mem_map_of_mem (mem_filter.mpr ⟨ha, by simpa using hname⟩))
      have hbefore := hkept line
      have hafter := hnext line
      rw [hsplit] at hbefore
      simp only [hcount, hempty] at hafter
      omega
    · intro hfresh line
      have hnone : s.archives.filter (·.1 = archiveName application seconds) = [] :=
        filter_eq_nil_iff.mpr fun a ha => by
          simpa using hfresh (by simpa using hlive) a ha
      have hbefore := hkept line
      rw [hsplit, hnone] at hbefore
      simp only [hcount, hempty]
      simp only [archived, map_nil, sum_nil] at hbefore ⊢
      omega

/-- **Every line is kept, unless two archives are made in one second**: the second takes the name,
and the lines of the first are gone. -/
theorem archives_keep_iff (application : Uuid) (ops : List Op) :
    (∀ x ∈ traceOf (next application) start ops, Kept x.post) ↔
      ∀ x ∈ traceOf (next application) start ops, Fresh application x.pre x.label := by
  have hstart : Files start ∧ Kept start := ⟨⟨⟨[], rfl, nofun⟩, nofun⟩, fun _ => rfl⟩
  refine (run_traceOf (next application) start ops).forall_iff (fun s => Files s ∧ Kept s) _
    (fun _ _ t => Kept t) ?_ ?_ hstart
  · rintro s op t ⟨hfiles, hkept⟩ rfl
    exact kept_next_iff hfiles hkept op
  · rintro s op t ⟨hfiles, -⟩ rfl hkept
    exact ⟨files_next hfiles op, hkept⟩

def hello : Line := ⟨"hello", by decide⟩

def goodbye : Line := ⟨"goodbye", by decide⟩

/-- Two clears of one second: the line put aside first is gone. -/
theorem second_archive_replaces_first : ¬ Kept
    ([.append [hello], .clear 0, .append [goodbye], .clear 0].foldl (next Uuid.nil) start) := by
  intro h
  have hlost := h hello.text
  revert hlost
  decide

end VibeSsh.Logs.Archives
