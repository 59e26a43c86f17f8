import VibeSsh.Logs.Capture

/-! # The size of the captured log

A compaction is set off by the size of the file and keeps a number of lines, so what it leaves is
only as small as the lines are short. Every operation here is one that succeeds. -/

namespace VibeSsh.Logs

open Lib List

variable {file line : Text} {lines new : List Text} {limit : Nat}

/-- The file after a sequence of appends to a missing one. -/
def liveFile (batches : List (List Text)) : Text := batches.foldl append []

/-! ## Sizes of texts -/

theorem utf8Length_append (a b : Text) : utf8Length (a ++ b) = utf8Length a + utf8Length b := by
  simp [utf8Length]

theorem utf8Length_unlines (lines : List Text) :
    utf8Length (unlines lines) = (lines.map fun l => utf8Length l + 1).sum := by
  induction lines with
  | nil => rfl
  | cons l lines ih =>
    have htext : unlines (l :: lines) = (l ++ ['\n']) ++ unlines lines := rfl
    rw [htext, utf8Length_append, utf8Length_append, ih]
    rfl

theorem utf8Length_lt_unlines (h : line ∈ lines) : utf8Length line < utf8Length (unlines lines) := by
  rw [utf8Length_unlines]
  have hmem : utf8Length line + 1 ∈ lines.map fun l => utf8Length l + 1 :=
    mem_map.mpr ⟨line, h, rfl⟩
  exact le_sum_of_mem hmem

theorem utf8Length_unlines_le (h : ∀ l ∈ lines, utf8Length l ≤ limit) :
    utf8Length (unlines lines) ≤ lines.length * (limit + 1) := by
  have hsum : (lines.map fun l => utf8Length l + 1).sum ≤ _ := sum_le_card_nsmul _ (limit + 1) <| by
    intro n hn
    obtain ⟨l, hl, rfl⟩ := mem_map.mp hn
    exact Nat.succ_le_succ (h l hl)
  rwa [length_map, smul_eq_mul, ← utf8Length_unlines] at hsum

theorem utf8Length_le_of_sublist {a b : Text} (h : a <+ b) : utf8Length a ≤ utf8Length b :=
  (h.map Char.utf8Size).sum_le_sum fun _ _ => Nat.zero_le _

/-! ## Whole lines of a bounded length -/

/-- The file is whole lines of at most `limit` bytes. -/
def LinesWithin (limit : Nat) (file : Text) : Prop :=
  ∃ lines, file = unlines lines ∧ ∀ l ∈ lines, '\n' ∉ l ∧ utf8Length l ≤ limit

/-- A line handed over with newlines in it is several lines of the file. -/
theorem unlines_splitOn (line : Text) : unlines (line.splitOn '\n') = line ++ ['\n'] := by
  have hne : line.splitOn '\n' ≠ [] := splitOnP_ne_nil _ line
  rw [← join_newline hne, Text.join, intercalate_splitOn]

theorem linesWithin_unlines (h : ∀ l ∈ new, utf8Length l ≤ limit) : LinesWithin limit (unlines new) := by
  refine ⟨new.flatMap (·.splitOn '\n'), ?_, fun part hpart => ?_⟩
  · unfold unlines
    rw [flatMap_assoc]
    exact flatMap_congr fun line _ => (unlines_splitOn line).symm
  · obtain ⟨line, hline, hpart⟩ := mem_flatMap.mp hpart
    refine ⟨fun hnewline => ?_, ?_⟩
    · exact absurd (Text.exists_mem_splitOnP.mp ⟨part, hpart, hnewline⟩).2 (by decide)
    · have hlt := utf8Length_lt_unlines hpart
      rw [unlines_splitOn, utf8Length_append] at hlt
      exact (Nat.lt_succ_iff.mp hlt).trans (h line hline)

theorem LinesWithin.write (h : LinesWithin limit file) (hnew : ∀ l ∈ new, utf8Length l ≤ limit) :
    LinesWithin limit (write file new) := by
  obtain ⟨old, rfl, hold⟩ := h
  obtain ⟨added, hadded, hwithin⟩ := linesWithin_unlines hnew
  refine ⟨old ++ added, ?_, fun l hl => (mem_append.mp hl).elim (hold l) (hwithin l)⟩
  rw [Logs.write, hadded, unlines_append]

theorem chomp_sublist (line : Text) : Text.chomp line <+ line := by
  unfold Text.chomp
  split
  · exact dropLast_sublist line
  · exact Sublist.refl line

/-- A compaction leaves at most 5000 lines, none of them longer than it was. -/
theorem LinesWithin.compact (h : LinesWithin limit file) :
    LinesWithin limit (compact file) ∧
      utf8Length (Logs.compact file) ≤ maxStoredLines * (limit + 1) := by
  obtain ⟨lines, rfl, hlines⟩ := h
  have hsize : ∀ kept : List Text, kept.length ≤ maxStoredLines →
      (∀ l ∈ kept, '\n' ∉ l ∧ utf8Length l ≤ limit) →
      LinesWithin limit (unlines kept) ∧
        utf8Length (unlines kept) ≤ maxStoredLines * (limit + 1) := fun kept hfew hkept =>
    ⟨⟨kept, rfl, hkept⟩, (utf8Length_unlines_le fun l hl => (hkept l hl).2).trans
      (Nat.mul_le_mul_right _ hfew)⟩
  unfold Logs.compact
  dsimp only
  rw [readAll_unlines_chomp fun l hl => (hlines l hl).1, length_map]
  split
  · next hfew => exact hsize lines hfew hlines
  · next hmany =>
    rw [join_newline fun hnil => ?_]
    · refine hsize _ (by rw [length_drop, length_map]; omega) fun l hl => ?_
      obtain ⟨line, hline, rfl⟩ := mem_map.mp (mem_of_mem_drop hl)
      have hsub := chomp_sublist line
      exact ⟨fun hnewline => (hlines line hline).1 (hsub.subset hnewline),
        (utf8Length_le_of_sublist hsub).trans (hlines line hline).2⟩
    · rw [drop_eq_nil_iff, length_map] at hnil
      unfold maxStoredLines at hmany hnil
      omega

/-! ## The bound -/

theorem append_within (hlimit : maxStoredLines * (limit + 1) ≤ compactAboveBytes)
    (h : LinesWithin limit file ∧ utf8Length file ≤ compactAboveBytes)
    (hnew : ∀ l ∈ new, utf8Length l ≤ limit) :
    LinesWithin limit (append file new) ∧ utf8Length (append file new) ≤ compactAboveBytes := by
  unfold append compactIfTooBig
  split
  · exact h
  have hwrite := h.1.write hnew
  split
  · exact ⟨hwrite.compact.1, hwrite.compact.2.trans hlimit⟩
  · next hsmall => exact ⟨hwrite, Nat.not_lt.mp hsmall⟩

theorem liveFile_within (hlimit : maxStoredLines * (limit + 1) ≤ compactAboveBytes)
    {batches : List (List Text)} (h : ∀ batch ∈ batches, ∀ l ∈ batch, utf8Length l ≤ limit) :
    LinesWithin limit (liveFile batches) ∧ utf8Length (liveFile batches) ≤ compactAboveBytes := by
  induction batches using List.reverseRecOn with
  | nil => exact ⟨⟨[], rfl, by simp⟩, Nat.zero_le _⟩
  | append_singleton batches batch ih =>
    rw [liveFile, foldl_append]
    exact append_within hlimit (ih fun b hb => h b (mem_append_left _ hb)) (h batch (by simp))

/-- Up to 5000 lines are kept, however long they are. -/
theorem append_of_few (hold : ∀ l ∈ lines, Plain l) (hnew : ∀ l ∈ new, Plain l)
    (hfew : (lines ++ new).length ≤ maxStoredLines) :
    append (unlines lines) new = unlines (lines ++ new) := by
  have hnone : droppedBy (unlines lines) new = 0 := by
    rw [droppedBy, readAll_unlines hold]
    split <;> omega
  rw [append_eq hold hnew, hnone, drop_zero]

theorem plain_replicate (n : Nat) : Plain (replicate n 'x') := by
  refine ⟨fun h => absurd (eq_of_mem_replicate h) (by decide), fun h => ?_⟩
  exact absurd (eq_of_mem_replicate (mem_of_getLast? h)) (by decide)

theorem utf8Length_replicate (n : Nat) : utf8Length (replicate n 'x') = n := by
  simp [utf8Length, show Char.utf8Size 'x' = 1 from rfl]

/-- Long lines, and then an empty one. -/
theorem utf8Length_liveFile_long (n length : Nat) (h : n < maxStoredLines) :
    utf8Length (liveFile [replicate n (replicate length 'x'), [[]]]) = n * (length + 1) + 1 := by
  have hplain : ∀ l ∈ replicate n (replicate length 'x'), Plain l := fun l hl =>
    eq_of_mem_replicate hl ▸ plain_replicate length
  have hempty : append (unlines []) (replicate n (replicate length 'x')) = unlines _ :=
    append_of_few (by simp) hplain (by rw [nil_append, length_replicate]; exact h.le)
  have hlast : append (unlines (replicate n (replicate length 'x'))) [[]] = unlines _ :=
    append_of_few hplain (by decide) (by rw [length_append, length_replicate]; exact h)
  have hnil : ([] : Text) = unlines [] := rfl
  rw [liveFile, foldl_cons, foldl_cons, foldl_nil, hnil, hempty, nil_append, ← hnil, hlast,
    unlines_append, utf8Length_append, utf8Length_unlines, map_replicate, sum_replicate,
    utf8Length_replicate, smul_eq_mul]
  rfl

/-- **The live file stays within the threshold and the last batch exactly for short lines.** The
bound holds after every append of every sequence of batches with lines of at most `limit` bytes if
and only if 5000 such lines fit into the threshold. -/
theorem live_file_bounded_iff (limit : Nat) :
    (∀ batches batch, (∀ b ∈ batches ++ [batch], ∀ line ∈ b, utf8Length line ≤ limit) →
      utf8Length (liveFile (batches ++ [batch])) ≤
        compactAboveBytes + utf8Length (unlines batch)) ↔
    maxStoredLines * (limit + 1) ≤ compactAboveBytes := by
  constructor
  · intro hbound
    -- One line fewer than a compaction keeps, each as long as allowed, and then an empty one.
    have hsize := hbound [replicate 4999 (replicate limit 'x')] [[]] <| by
      intro b hb l hl
      rcases mem_cons.mp hb with rfl | hb
      · rw [eq_of_mem_replicate hl, utf8Length_replicate]
      · obtain rfl := mem_singleton.mp hb
        obtain rfl := mem_singleton.mp hl
        exact Nat.zero_le limit
    have hlast : utf8Length (unlines [[]]) = 1 := rfl
    rw [singleton_append, utf8Length_liveFile_long 4999 limit (by decide), hlast] at hsize
    unfold compactAboveBytes at hsize ⊢
    unfold maxStoredLines
    omega
  · intro hlimit batches batch h
    exact (liveFile_within hlimit h).2.trans (Nat.le_add_right _ _)

/-- One line as long as the threshold, and an empty one. -/
theorem long_line_stays :
    ¬utf8Length (liveFile [[replicate compactAboveBytes 'x'], [[]]]) ≤
      compactAboveBytes + utf8Length (unlines [[]]) := by
  have hsize := utf8Length_liveFile_long 1 compactAboveBytes (by decide)
  have hlast : utf8Length (unlines [[]]) = 1 := rfl
  rw [replicate_one] at hsize
  rw [hsize, hlast]
  omega

end VibeSsh.Logs
