import VibeSsh.Basic
import VibeSsh.Lib.Window

/-! # Captured log history

`LogCaptureStore` and what one poll of `application_logs` does to the file of an application. The
file is text, one line after the other, and is read back with `lines`; a missing file reads as an
empty one. -/

namespace VibeSsh.Logs

open Lib List

def maxStoredLines : Nat := 5000

def compactAboveBytes : Nat := 2 * 1024 * 1024

def logOverlapAnchorLines : Nat := 32

def utf8Length (t : Text) : Nat := (t.map Char.utf8Size).sum

/-- Each line with a newline after it. -/
def unlines (lines : List Text) : Text := lines.flatMap (· ++ ['\n'])

variable (file : Text)

def readAll : List Text := Text.lines file

def tail (maxLines : Nat) : List Text :=
  let all := readAll file
  all.drop (all.length - maxLines)

def compact : Text :=
  let all := readAll file
  if all.length ≤ maxStoredLines then file
  else Text.join ['\n'] (all.drop (all.length - maxStoredLines)) ++ ['\n']

def write (newLines : List Text) : Text := file ++ unlines newLines

def compactIfTooBig : Text :=
  if compactAboveBytes < utf8Length file then compact file else file

def append (newLines : List Text) : Text :=
  if newLines.isEmpty then file else compactIfTooBig (write file newLines)

/-- The oldest lines an append drops: a file that has grown too big keeps the newest 5000. -/
def droppedBy (newLines : List Text) : Nat :=
  if newLines.isEmpty ∨ utf8Length (write file newLines) ≤ compactAboveBytes then 0
  else (readAll file ++ newLines).length - maxStoredLines

/-- The loop over the overlaps from `overlap` down to one line. -/
def mergeFrom (previousTail liveLines : List Text) : Nat → List Text
  | 0 => liveLines
  | overlap + 1 =>
    if previousTail.drop (previousTail.length - (overlap + 1)) = liveLines.take (overlap + 1) then
      liveLines.drop (overlap + 1)
    else mergeFrom previousTail liveLines overlap

def mergeNewLogLines (previousTail liveLines : List Text) : List Text :=
  mergeFrom previousTail liveLines (min previousTail.length liveLines.length)

def anchor (maxLines : UInt32) : Nat := max maxLines.toNat logOverlapAnchorLines

/-- The file after a fetch, or as it was if the Node could not be asked. -/
def capture (maxLines : UInt32) (liveFetch : Option (List Text)) : Text :=
  match liveFetch with
  | some liveLines => append file (mergeNewLogLines (tail file (anchor maxLines)) liveLines)
  | none => file

/-- `application_logs`: the answer, and the file it leaves. -/
def applicationLogs (maxLines : UInt32) (liveFetch : Option (List Text)) :
    List Text × Text :=
  let file := capture file maxLines liveFetch
  (tail file maxLines.toNat, file)

/-- The last lines of what a container has written: `docker logs --tail`. -/
def liveWindow (output : List Text) (maxLines : UInt32) : List Text := output.rtake maxLines.toNat

/-! ## The file as a list of lines -/

/-- A line that is read back as it was written. -/
def Plain (line : Text) : Prop := '\n' ∉ line ∧ line.getLast? ≠ some '\r'

instance (line : Text) : Decidable (Plain line) := inferInstanceAs (Decidable (_ ∧ _))

variable {lines : List Text}

theorem splitOn_unlines (h : ∀ l ∈ lines, '\n' ∉ l) :
    (unlines lines).splitOn '\n' = lines ++ [[]] := by
  induction lines with
  | nil => rfl
  | cons l lines ih =>
    have hl := Text.splitOn_of_notMem (h l mem_cons_self)
    have htext : unlines (l :: lines) = l ++ '\n' :: unlines lines := by simp [unlines]
    rw [htext, splitOn_append_cons_self, hl, ih fun l hl => h l (mem_cons_of_mem _ hl)]
    rfl

theorem readAll_unlines_chomp (h : ∀ l ∈ lines, '\n' ∉ l) :
    readAll (unlines lines) = lines.map Text.chomp := by
  unfold readAll Text.lines
  rw [splitOn_unlines h]
  dsimp only
  rw [getLast?_concat, dropLast_concat]
  exact append_nil _

/-- What was written is what is read. -/
theorem readAll_unlines (h : ∀ l ∈ lines, Plain l) : readAll (unlines lines) = lines := by
  rw [readAll_unlines_chomp fun l hl => (h l hl).1, Text.map_chomp fun l hl => (h l hl).2]

theorem unlines_append (l l' : List Text) : unlines (l ++ l') = unlines l ++ unlines l' := by
  simp [unlines]

theorem join_newline (h : lines ≠ []) : Text.join ['\n'] lines ++ ['\n'] = unlines lines := by
  induction lines with
  | nil => exact absurd rfl h
  | cons l lines ih =>
    cases lines with
    | nil => simp [Text.join, unlines]
    | cons l' lines =>
      have ih := ih (by simp)
      rw [Text.join, intercalate_cons_cons, ← Text.join, append_assoc, ih]
      simp [unlines]

theorem append_eq {old new : List Text} (hold : ∀ l ∈ old, Plain l) (hnew : ∀ l ∈ new, Plain l) :
    append (unlines old) new = unlines ((old ++ new).drop (droppedBy (unlines old) new)) := by
  have hall : ∀ l ∈ old ++ new, Plain l := fun l hl =>
    (mem_append.mp hl).elim (hold l) (hnew l)
  have hfile : write (unlines old) new = unlines (old ++ new) := (unlines_append old new).symm
  unfold append droppedBy
  rw [hfile, readAll_unlines hold]
  split
  · next hempty => simp [isEmpty_iff.mp hempty]
  next hsome =>
  unfold compactIfTooBig compact
  dsimp only
  rw [readAll_unlines hall]
  split
  · next hbig =>
    rw [if_neg (not_or.mpr ⟨hsome, Nat.not_le.mpr hbig⟩)]
    split
    · next hfew => rw [Nat.sub_eq_zero_of_le hfew, drop_zero]
    · next hmany =>
      refine join_newline ?_
      rw [Ne, drop_eq_nil_iff]
      unfold maxStoredLines at hmany ⊢
      omega
  · next hsmall => rw [if_pos (.inr (Nat.not_lt.mp hsmall)), drop_zero]

/-- The lines of the file are an end of what was written, and some are left if there were any. -/
theorem append_unlines {old new : List Text} (hold : ∀ l ∈ old, Plain l) (hnew : ∀ l ∈ new, Plain l) :
    ∃ kept, append (unlines old) new = unlines kept ∧ kept <:+ old ++ new ∧
      (old ++ new ≠ [] → kept ≠ []) := by
  refine ⟨_, append_eq hold hnew, drop_suffix _ _, fun hne hnil => ?_⟩
  have hpos := length_pos_iff.mpr hne
  rw [drop_eq_nil_iff, droppedBy, readAll_unlines hold, maxStoredLines] at hnil
  split at hnil <;> omega

/-! ## The overlap -/

theorem mergeFrom_eq {previousTail liveLines : List Text} {k n : Nat} (hpos : 0 < k) (hk : k ≤ n)
    (hmatch : ∀ j, 0 < j → j ≤ n →
      (previousTail.drop (previousTail.length - j) = liveLines.take j ↔ j = k)) :
    mergeFrom previousTail liveLines n = liveLines.drop k := by
  induction n with
  | zero => omega
  | succ n ih =>
    rw [mergeFrom]
    split
    next h => rw [(hmatch (n + 1) (by omega) le_rfl).mp h]
    next h =>
      have hne : k ≠ n + 1 := fun heq => h ((hmatch (n + 1) (by omega) le_rfl).mpr heq.symm)
      exact ih (by omega) fun j hj hjn => hmatch j hj (by omega)

/-- What a window brings that the history does not have. -/
theorem mergeNewLogLines_eq {old new p u : List Text} (hnodup : (old ++ new).Nodup) (hp : p <:+ old)
    (hu : u <:+ old) (hne : u ≠ []) (hlen : u.length ≤ p.length) :
    mergeNewLogLines p (u ++ new) = new := by
  unfold mergeNewLogLines
  have hpos : 0 < u.length := length_pos_iff.mpr hne
  rw [mergeFrom_eq hpos (by rw [length_append]; omega) fun j hj hjn =>
    overlap_iff hnodup hp hu hj (by omega), drop_left]

theorem mergeNewLogLines_nil (liveLines : List Text) : mergeNewLogLines [] liveLines = liveLines := by
  simp [mergeNewLogLines, mergeFrom]

/-! ## Polls of any windows -/

/-- What is added brings the history up to the window, and is of the window. -/
theorem mergeFrom_spec (previousTail liveLines : List Text) (n : Nat) :
    liveLines <:+ previousTail ++ mergeFrom previousTail liveLines n ∧
      mergeFrom previousTail liveLines n <:+ liveLines := by
  induction n with
  | zero => exact ⟨suffix_append .., suffix_rfl⟩
  | succ n ih =>
    rw [mergeFrom]
    split
    next hmatch =>
      refine ⟨⟨previousTail.take (previousTail.length - (n + 1)), ?_⟩, drop_suffix ..⟩
      nth_rewrite 1 [← take_append_drop (n + 1) liveLines]
      rw [← hmatch, ← append_assoc, take_append_drop]
    next => exact ih

/-- Lines that read back, in a file that is small or as short as a compaction leaves it. -/
structure Bounded (lines : List Text) : Prop where
  plain : ∀ l ∈ lines, Plain l
  size : lines.length ≤ maxStoredLines ∨ utf8Length (unlines lines) ≤ compactAboveBytes

variable {new window : List Text}

theorem bounded_append (h : Bounded lines) (hnew : ∀ l ∈ new, Plain l) :
    ∃ kept, append (unlines lines) new = unlines kept ∧ Bounded kept ∧
      ∀ window, window <:+ lines ++ new → window.length ≤ maxStoredLines → window <:+ kept := by
  have hsuffix := drop_suffix (droppedBy (unlines lines) new) (lines ++ new)
  refine ⟨_, append_eq h.plain hnew, ⟨fun l hl => ?_, ?_⟩, fun window hwindow hshort =>
    suffix_of_suffix_length_le hwindow hsuffix ?_⟩
  · exact (mem_append.mp (hsuffix.subset hl)).elim (h.plain l) (hnew l)
  · rw [droppedBy, readAll_unlines h.plain, write, ← unlines_append]
    split
    next hkept =>
      rw [drop_zero]
      rcases hkept with hempty | hsmall
      · rw [isEmpty_iff.mp hempty, append_nil]
        exact h.size
      · exact .inr hsmall
    next => exact .inl (by rw [length_drop]; omega)
  · have hlength := hwindow.length_le
    rw [length_drop, droppedBy, readAll_unlines h.plain]
    split <;> omega

theorem bounded_capture (h : Bounded lines) (maxLines : UInt32) (hplain : ∀ l ∈ window, Plain l) :
    ∃ kept, capture (unlines lines) maxLines (some window) = unlines kept ∧ Bounded kept ∧
      (window.length ≤ maxStoredLines → window <:+ kept) := by
  obtain ⟨hends, hnew⟩ := mergeFrom_spec (tail (unlines lines) (anchor maxLines)) window _
  obtain ⟨older, holder⟩ : tail (unlines lines) (anchor maxLines) <:+ lines := by
    rw [tail, readAll_unlines h.plain]
    exact drop_suffix ..
  obtain ⟨kept, hkept, hbounded, hkeeps⟩ := bounded_append h fun l hl => hplain l (hnew.subset hl)
  refine ⟨kept, hkept, hbounded, hkeeps window (hends.trans ⟨older, ?_⟩)⟩
  rw [← append_assoc, holder]

/-- **The history is never behind and never grows without bound.** After any polls it ends with the
last window, and is small or as short as a compaction leaves it. -/
theorem history_keeps_up (polls : List (UInt32 × List Text))
    (hplain : ∀ poll ∈ polls, ∀ l ∈ poll.2, Plain l) :
    ∃ lines, polls.foldl (fun file poll => capture file poll.1 (some poll.2)) [] = unlines lines ∧
      Bounded lines ∧
      ∀ poll ∈ polls.getLast?, poll.2.length ≤ maxStoredLines → poll.2 <:+ lines := by
  induction polls using List.reverseRecOn with
  | nil => exact ⟨[], rfl, ⟨by simp, .inl (Nat.zero_le _)⟩, by simp⟩
  | append_singleton polls poll ih =>
    obtain ⟨lines, hlines, hbounded, -⟩ := ih fun p hp => hplain p (mem_append_left _ hp)
    obtain ⟨kept, hkept, hbounded, hends⟩ :=
      bounded_capture hbounded poll.1 (hplain poll (by simp))
    rw [foldl_append, hlines, getLast?_concat]
    refine ⟨kept, hkept, hbounded, ?_⟩
    rintro _ ⟨⟩
    exact hends

/-- A container made anew prints a line the history has already. -/
theorem repeated_line_kept : ∃ lines, capture (capture [] 2 (some [['a'], ['b']])) 2
    (some [['b'], ['b']]) = unlines lines ∧ [['b'], ['b']] <:+ lines := by
  obtain ⟨lines, hlines, -, hends⟩ := history_keeps_up
    [(2, [['a'], ['b']]), (2, [['b'], ['b']])] (by decide)
  exact ⟨lines, hlines, hends _ rfl (by decide)⟩

end VibeSsh.Logs
