import VibeSsh.Lib.Run
import VibeSsh.Logs.Capture

/-! # The history is a piece of the output

One container that writes lines and is polled. The overlap search compares the end of the history
with the start of the window, so it finds the place of a window that starts inside the history. A
window that starts before the first captured line has no such place and is appended whole. -/

namespace VibeSsh.Logs

open Lib List

structure State where
  output : List Text
  file : Text
  deriving DecidableEq

section

variable (s : State)

def State.history : List Text := readAll s.file

def State.window (maxLines : UInt32) : List Text := liveWindow s.output maxLines

/-- The container writes a line; the application is polled, and the Node can be reached or not. -/
inductive Op where
  | emit (line : Text)
  | poll (maxLines : UInt32) (reached : Bool)
  deriving DecidableEq

def next : Op → State
  | .emit line => { s with output := s.output ++ [line] }
  | .poll maxLines reached =>
    { s with
      file := (applicationLogs s.file maxLines
        (if reached then some (s.window maxLines) else none)).2 }

/-- The window reaches back to the last captured line. -/
def Reaches (maxLines : UInt32) : Prop :=
  ∀ last ∈ s.history.getLast?, last ∈ s.window maxLines

/-- The window starts at a captured line, if anything is captured. -/
def StartsInside (maxLines : UInt32) : Prop :=
  s.history = [] ∨ ∀ first ∈ (s.window maxLines).head?, first ∈ s.history

/-- No line is written twice, and every window reaches back to the last captured line. -/
def Watched : Op → Prop
  | .emit line => line ∉ s.output ∧ '\n' ∉ line
  | .poll maxLines _ => Reaches s maxLines

/-- Lines do not end with a carriage return, which reading the file would drop, and no window
reaches back beyond what is captured. -/
def Safe : Op → Prop
  | .emit line => line.getLast? ≠ some '\r'
  | .poll maxLines _ => StartsInside s maxLines

/-- The history is an end of the output, each line once. -/
def Faithful : Prop := s.history <:+ s.output ∧ s.history.Nodup

instance (s : State) : Decidable (Faithful s) := inferInstanceAs (Decidable (_ ∧ _))

theorem tail_eq (n : Nat) : tail s.file n = s.history.rtake n := rfl

end

/-! ## One poll -/

structure Inv (s : State) : Prop where
  nodup : s.output.Nodup
  plain : ∀ l ∈ s.output, Plain l
  captured : ∃ history old new, s.output = old ++ new ∧ s.file = unlines history ∧ history <:+ old

variable {s : State} {maxLines : UInt32}

/-- A window that starts inside the history brings exactly the lines written since. -/
theorem newLines_eq (hinv : Inv s) {history old new : List Text}
    (hout : s.output = old ++ new) (hhistory : s.history = history) (hsuffix : history <:+ old)
    (hne : history ≠ []) (hreach : Reaches s maxLines) (hstart : StartsInside s maxLines) :
    mergeNewLogLines (tail s.file (anchor maxLines)) (s.window maxLines) = new := by
  have hnodup : (old ++ new).Nodup := hout ▸ hinv.nodup
  have hwindow : s.window maxLines <:+ old ++ new := hout ▸ rtake_suffix _ _
  have hwlen : (s.window maxLines).length ≤ maxLines.toNat := by
    unfold State.window liveWindow
    rw [length_rtake]
    omega
  -- the last captured line is in the window and not among the new ones
  obtain ⟨last, hlast⟩ : ∃ last, history.getLast? = some last :=
    Option.isSome_iff_exists.mp (List.getLast?_isSome.mpr hne)
  have hlastOld : last ∈ old := hsuffix.subset (mem_of_getLast? hlast)
  have hlong : new.length < (s.window maxLines).length := by
    by_contra hshort
    have hmem := hreach last (by rw [hhistory]; exact hlast)
    have hnew : s.window maxLines <:+ new := by
      have hle := not_lt.mp hshort
      exact suffix_of_suffix_length_le hwindow (suffix_append old new) hle
    exact disjoint_of_nodup_append hnodup hlastOld (hnew.subset hmem)
  obtain ⟨u, hu, hw⟩ := reaches_back hwindow hlong.le
  have hune : u ≠ [] := by
    rintro rfl
    rw [hw] at hlong
    exact absurd hlong (by simp)
  -- the window's first line is captured, so it reaches back no further than the history
  have hulen : u.length ≤ history.length := by
    obtain ⟨first, rest, rfl⟩ := exists_cons_of_ne_nil hune
    have hfirst : first ∈ history := by
      rcases hstart with hempty | hstart
      · exact absurd (hhistory ▸ hempty) hne
      · rw [← hhistory]
        exact hstart first (by rw [hw]; rfl)
    by_contra hlonger
    have hinside : history <:+ rest := by
      have hle : history.length ≤ rest.length := by
        rw [length_cons] at hlonger
        omega
      exact suffix_of_suffix_length_le hsuffix ((suffix_cons first rest).trans hu) hle
    have hnodupU : (first :: rest).Nodup :=
      (nodup_append'.mp hnodup).1.sublist hu.sublist
    exact (nodup_cons.mp hnodupU).1 (hinside.subset hfirst)
  rw [hw, tail_eq, hhistory]
  refine mergeNewLogLines_eq hnodup ((rtake_suffix _ _).trans hsuffix) hu hune ?_
  have hu' : u.length ≤ (s.window maxLines).length := by
    rw [hw, length_append]
    omega
  rw [length_rtake]
  unfold anchor
  omega

/-- **One poll** of a history that is an end of what was there before. -/
theorem poll_spec (hinv : Inv s) (hreach : Reaches s maxLines) (hstart : StartsInside s maxLines) :
    ∃ history, (next s (.poll maxLines true)).file = unlines history ∧ history <:+ s.output ∧
      (0 < maxLines → s.output ≠ [] → history ≠ []) := by
  obtain ⟨history, old, new, hout, hfile, hsuffix⟩ := hinv.captured
  have hhistory : s.history = history := by
    rw [State.history, hfile, readAll_unlines]
    exact fun l hl => hinv.plain l (hout ▸ mem_append_left new (hsuffix.subset hl))
  have hplain : ∀ {l : List Text}, l ⊆ s.output → ∀ x ∈ l, Plain x := fun h x hx =>
    hinv.plain x (h hx)
  by_cases hne : history = []
  · subst hne
    have hmerge : mergeNewLogLines (tail s.file (anchor maxLines)) (s.window maxLines) =
        s.window maxLines := by
      rw [tail_eq, hhistory, rtake_nil, mergeNewLogLines_nil]
    have hwindow : s.window maxLines <:+ s.output := rtake_suffix _ _
    obtain ⟨kept, hkept, hend, hsome⟩ := @append_unlines [] (s.window maxLines) (by simp)
      (hplain hwindow.subset)
    refine ⟨kept, ?_, hend.trans hwindow, fun hpos hout => hsome ?_⟩
    · rw [← hkept, ← hfile]
      exact congrArg (append s.file) hmerge
    · have hlen : 0 < (s.window maxLines).length := by
        have hout := length_pos_iff.mpr hout
        have hpos : 0 < maxLines.toNat := UInt32.lt_iff_toNat_lt.mp hpos
        unfold State.window liveWindow
        rw [length_rtake]
        omega
      exact length_pos_iff.mp hlen
  · have hmerge := newLines_eq hinv hout hhistory hsuffix hne hreach hstart
    have hall : history ++ new <:+ s.output := by
      obtain ⟨before, rfl⟩ := hsuffix
      exact ⟨before, by rw [hout, append_assoc]⟩
    obtain ⟨kept, hkept, hend, hsome⟩ := @append_unlines history new
      (hplain fun x hx => hall.subset (mem_append_left new hx))
      (hplain fun x hx => hall.subset (mem_append_right history hx))
    refine ⟨kept, ?_, hend.trans hall, fun _ _ => hsome (by simp [hne])⟩
    rw [← hkept, ← hfile]
    exact congrArg (append s.file) hmerge

/-! ## Every run -/

theorem inv_emit (hinv : Inv s) {line : Text} (hwatched : Watched s (.emit line))
    (hsafe : Safe s (.emit line)) : Inv (next s (.emit line)) where
  nodup := nodup_append'.mpr ⟨hinv.nodup, by simp, by simpa using hwatched.1⟩
  plain := by
    intro l hl
    rcases mem_append.mp hl with hl | hl
    · exact hinv.plain l hl
    · obtain rfl := mem_singleton.mp hl
      exact ⟨hwatched.2, hsafe⟩
  captured := by
    obtain ⟨history, old, new, hout, hfile, hsuffix⟩ := hinv.captured
    exact ⟨history, old, new ++ [line], by simp [next, hout], hfile, hsuffix⟩

/-- **The history is always an end of the output**, each line once and in order, after every poll of
every run whose windows start at a captured line or find nothing captured. -/
theorem captured_history_is_faithful {s : State} {trace : List (Transition State Op)}
    (hrun : Run (fun s op s' => s' = next s op) ⟨[], []⟩ trace s)
    (hwatched : ∀ x ∈ trace, Watched x.pre x.label) (hsafe : ∀ x ∈ trace, Safe x.pre x.label) :
    ∀ x ∈ trace, ∀ maxLines, x.label = .poll maxLines true →
      Faithful x.post ∧ (0 < maxLines → x.post.history.getLast? = x.post.output.getLast?) := by
  have hinv₀ : Inv ⟨[], []⟩ := ⟨by simp, by simp, [], [], [], rfl, rfl, by simp⟩
  obtain ⟨-, hall⟩ := hrun.invariant Inv (fun s op => Watched s op ∧ Safe s op)
    (fun {s op s'} hinv hok hstep => by
      subst hstep
      cases op with
      | emit line => exact inv_emit hinv hok.1 hok.2
      | poll maxLines reached =>
        cases reached with
        | false => exact hinv
        | true =>
          obtain ⟨history, hfile, hend, -⟩ := poll_spec hinv hok.1 hok.2
          exact ⟨hinv.nodup, hinv.plain, history, s.output, [], by simp [next], hfile, hend⟩) hinv₀
    fun x hx => ⟨hwatched x hx, hsafe x hx⟩
  intro x hx maxLines hlabel
  obtain ⟨hinv, hstep, -⟩ := hall x hx
  have hw := hwatched x hx
  have hs := hsafe x hx
  rw [hlabel] at hstep hw hs
  rw [hstep]
  obtain ⟨history, hfile, hend, hsome⟩ := poll_spec hinv hw hs
  have hhistory : (next x.pre (.poll maxLines true)).history = history := by
    unfold State.history
    rw [hfile, readAll_unlines fun l hl => hinv.plain l (hend.subset hl)]
  unfold Faithful
  rw [hhistory]
  refine ⟨⟨hend, hinv.nodup.sublist hend.sublist⟩, fun hpos => ?_⟩
  change history.getLast? = x.pre.output.getLast?
  by_cases hout : x.pre.output = []
  · rw [hout] at hend ⊢
    rw [suffix_nil.mp hend]
  · obtain ⟨before, hbefore⟩ := hend
    rw [← hbefore, List.getLast?_append_of_ne_nil before (hsome hpos hout)]

/-! ## A window that grows -/

instance (s : State) (maxLines : UInt32) : Decidable (Reaches s maxLines) :=
  inferInstanceAs (Decidable (∀ last ∈ s.history.getLast?, last ∈ s.window maxLines))

instance (s : State) (maxLines : UInt32) : Decidable (StartsInside s maxLines) :=
  inferInstanceAs (Decidable (_ ∨ ∀ first ∈ (s.window maxLines).head?, first ∈ s.history))

instance (s : State) (op : Op) : Decidable (Watched s op) :=
  match op with
  | .emit line => inferInstanceAs (Decidable (line ∉ s.output ∧ '\n' ∉ line))
  | .poll maxLines _ => inferInstanceAs (Decidable (Reaches s maxLines))

instance (s : State) (op : Op) : Decidable (Safe s op) :=
  match op with
  | .emit line => inferInstanceAs (Decidable (line.getLast? ≠ some '\r'))
  | .poll maxLines _ => inferInstanceAs (Decidable (StartsInside s maxLines))

/-- Three lines, two polls, a fourth line and a third poll. -/
def threePolls (first second third : UInt32) : List Op :=
  [.emit ['a'], .emit ['b'], .emit ['c'], .poll first true, .poll second true, .emit ['d'],
    .poll third true]

theorem same_window_is_faithful :
    (∀ x ∈ traceOf next ⟨[], []⟩ (threePolls 3 2 3), Watched x.pre x.label ∧ Safe x.pre x.label) ∧
      ∀ x ∈ traceOf next ⟨[], []⟩ (threePolls 3 2 3), ∀ maxLines, x.label = .poll maxLines true →
        Faithful x.post ∧ (0 < maxLines → x.post.history.getLast? = x.post.output.getLast?) :=
  ⟨by decide, captured_history_is_faithful (run_traceOf next ⟨[], []⟩ (threePolls 3 2 3))
    (by decide) (by decide)⟩

/-- The third poll asks for more lines than are captured, and gets those once more. -/
theorem wider_window_repeats_lines :
    let s := (threePolls 1 1 4).foldl next ⟨[], []⟩
    (∀ x ∈ traceOf next ⟨[], []⟩ (threePolls 1 1 4), Watched x.pre x.label) ∧
      s.history = [['c'], ['a'], ['b'], ['c'], ['d']] ∧ ¬ Faithful s := by
  decide

end VibeSsh.Logs
