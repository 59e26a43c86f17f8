import VibeSsh.Lib.Text

/-! # Line editing with `sed`

A file is cut into pieces, a line each with the newline that ends it; only the last piece may lack
one, and `sed` prints a piece as it found it. `deleteRange` is the command `/first/,/last/d`: the line
that starts a range is not asked whether it ends it, and a range that nothing ends runs to the end of
the file. -/

namespace Lib.Sed
open List

def pieces : Text → List Text
  | [] => []
  | c :: cs =>
    if c = '\n' then ['\n'] :: pieces cs
    else match pieces cs with
      | [] => [[c]]
      | p :: ps => (c :: p) :: ps

def content (piece : Text) : Text :=
  if piece.getLast? = some '\n' then piece.dropLast else piece

def contents (file : Text) : List Text := (pieces file).map content

/-- Nothing, or a text whose last line is ended. -/
def Ended (file : Text) : Prop := file = [] ∨ file.getLast? = some '\n'

instance (file : Text) : Decidable (Ended file) := inferInstanceAs (Decidable (_ ∨ _))

section

variable {α β : Type}

/-- The pieces left by `/first/,/last/d`; `inside` says whether a range is open. -/
def deleteRange (first last : α → Bool) : (inside : Bool) → List α → List α
  | _, [] => []
  | false, l :: ls =>
    if first l then deleteRange first last true ls else l :: deleteRange first last false ls
  | true, l :: ls => deleteRange first last (!last l) ls

theorem deleteRange_map (first last : β → Bool) (f : α → β) (inside : Bool) (ls : List α) :
    (deleteRange (first ∘ f) (last ∘ f) inside ls).map f =
      deleteRange first last inside (ls.map f) := by
  induction ls generalizing inside with
  | nil => cases inside <;> rfl
  | cons l ls ih =>
    cases inside with
    | true => exact ih _
    | false =>
      simp only [deleteRange, map_cons, Function.comp_apply]
      split
      · exact ih true
      · rw [map_cons, ih false]

/-- No line that would start a range is left. -/
theorem not_first_of_mem_deleteRange {first last : α → Bool} {inside : Bool} {ls : List α} {l : α}
    (h : l ∈ deleteRange first last inside ls) : first l = false := by
  induction ls generalizing inside with
  | nil => cases inside <;> cases h
  | cons x ls ih =>
    cases inside with
    | true => exact ih h
    | false =>
      simp only [deleteRange] at h
      split at h
      · exact ih h
      · next hx =>
        rcases mem_cons.mp h with rfl | h
        · exact Bool.eq_false_iff.mpr hx
        · exact ih h

theorem deleteRange_sublist (first last : α → Bool) (inside : Bool) (ls : List α) :
    (deleteRange first last inside ls).Sublist ls := by
  induction ls generalizing inside with
  | nil => cases inside <;> exact List.Sublist.slnil
  | cons l ls ih =>
    cases inside with
    | true => exact (ih _).cons l
    | false =>
      simp only [deleteRange]
      split
      · exact (ih true).cons l
      · exact (ih false).cons_cons l

end

/-- What `sed "/first/,/last/d"` prints for a file. -/
def sedDelete (first last : Text → Bool) (file : Text) : Text :=
  (deleteRange (first ∘ content) (last ∘ content) false (pieces file)).flatten

/-! ## Pieces and texts -/

/-- Pieces of some file: every one a line with its newline, but for the last. -/
inductive Lines : List Text → Prop where
  | nil : Lines []
  | unended {line : Text} (hne : line ≠ []) (h : '\n' ∉ line) : Lines [line]
  | cons {line : Text} {ls : List Text} (h : '\n' ∉ line) (hs : Lines ls) :
    Lines ((line ++ ['\n']) :: ls)

theorem lines_pieces (file : Text) : Lines (pieces file) := by
  induction file with
  | nil => exact .nil
  | cons c cs ih =>
    simp only [pieces]
    by_cases hc : c = '\n'
    · rw [if_pos hc]
      exact @Lines.cons [] _ not_mem_nil ih
    · rw [if_neg hc]
      have hnot : ∀ {line : Text}, '\n' ∉ line → '\n' ∉ c :: line := fun h hmem =>
        (mem_cons.mp hmem).elim (fun he => hc he.symm) h
      generalize hps : pieces cs = ps at ih
      cases ih with
      | nil => exact .unended (by simp) (hnot not_mem_nil)
      | unended hne h => exact .unended (by simp) (hnot h)
      | @cons line ls h hs => exact @Lines.cons (c :: line) _ (hnot h) hs

theorem pieces_line {line : Text} (h : '\n' ∉ line) (hne : line ≠ []) : pieces line = [line] := by
  induction line with
  | nil => exact absurd rfl hne
  | cons c cs ih =>
    simp only [mem_cons, not_or] at h
    rw [pieces, if_neg (Ne.symm h.1)]
    cases cs with
    | nil => rfl
    | cons d ds => rw [ih h.2 (by simp)]

/-- **An ended text in front** keeps its pieces. -/
theorem pieces_append {front : Text} (h : Ended front) (rest : Text) :
    pieces (front ++ rest) = pieces front ++ pieces rest := by
  induction front with
  | nil => rfl
  | cons c cs ih =>
    have hcs : cs = [] → c = '\n' := by
      rintro rfl
      rcases h with h | h
      · cases h
      · exact Option.some.inj h
    have hended : Ended cs := by
      cases cs with
      | nil => exact .inl rfl
      | cons d ds =>
        rcases h with h | h
        · cases h
        · exact .inr (by simpa [List.getLast?_cons_cons] using h)
    simp only [cons_append, pieces]
    by_cases hc : c = '\n'
    · rw [if_pos hc, if_pos hc, ih hended, cons_append]
    · rw [if_neg hc, if_neg hc, ih hended]
      cases hp : pieces cs with
      | nil =>
        exfalso
        cases cs with
        | nil => exact hc (hcs rfl)
        | cons d ds =>
          simp only [pieces] at hp
          split_ifs at hp
          · split at hp <;> cases hp
      | cons p ps => rfl

theorem ended_line (line : Text) : Ended (line ++ ['\n']) := .inr (by simp)

theorem Lines.pieces_flatten {ls : List Text} (h : Lines ls) : pieces ls.flatten = ls := by
  induction h with
  | nil => rfl
  | unended hne h => simpa using pieces_line h hne
  | @cons line ls h hs ih =>
    rw [flatten_cons, pieces_append (ended_line line), ih]
    have hline : pieces (line ++ ['\n']) = [line ++ ['\n']] := by
      clear ih hs
      induction line with
      | nil => rfl
      | cons c cs ih =>
        simp only [mem_cons, not_or] at h
        rw [cons_append, pieces, if_neg (Ne.symm h.1), ih h.2]
    rw [hline, singleton_append]

theorem Lines.sublist {ls ms : List Text} (h : Lines ls) (hs : ms.Sublist ls) : Lines ms := by
  induction h generalizing ms with
  | nil => rw [sublist_nil.mp hs]; exact .nil
  | @unended line hne h =>
    rcases sublist_cons_iff.mp hs with hs | ⟨r, rfl, hr⟩
    · rw [sublist_nil.mp hs]; exact .nil
    · rw [sublist_nil.mp hr]; exact .unended hne h
  | @cons line ls h _ ih =>
    rcases sublist_cons_iff.mp hs with hs | ⟨r, rfl, hr⟩
    · exact ih hs
    · exact .cons h (ih hr)

/-- **What `sed` prints**, line by line: what the range deletion leaves of the lines. -/
theorem contents_sedDelete (first last : Text → Bool) (file : Text) :
    contents (sedDelete first last file) = deleteRange first last false (contents file) := by
  have hlines : Lines (deleteRange (first ∘ content) (last ∘ content) false (pieces file)) :=
    (lines_pieces file).sublist (deleteRange_sublist ..)
  rw [contents, sedDelete, hlines.pieces_flatten, deleteRange_map]
  rfl

theorem contents_append {front : Text} (h : Ended front) (rest : Text) :
    contents (front ++ rest) = contents front ++ contents rest := by
  simp [contents, pieces_append h]

theorem content_line {line : Text} : content (line ++ ['\n']) = line := by
  simp [content]

theorem newline_notMem_contents {file line : Text} (h : line ∈ contents file) : '\n' ∉ line := by
  obtain ⟨piece, hpiece, rfl⟩ := mem_map.mp h
  have hlines := lines_pieces file
  generalize pieces file = ls at hlines hpiece
  induction hlines with
  | nil => cases hpiece
  | @unended line hne hline =>
    obtain rfl := mem_singleton.mp hpiece
    have hlast : piece.getLast? ≠ some '\n' := fun hl => hline (mem_of_getLast? hl)
    rwa [content, if_neg hlast]
  | @cons line ls hline _ ih =>
    rcases mem_cons.mp hpiece with rfl | hpiece
    · rwa [content_line]
    · exact ih hpiece

/-- Lines written out, each ended. -/
def unlines (ls : List Text) : Text := ls.flatMap (· ++ ['\n'])

theorem contents_unlines {ls : List Text} (h : ∀ l ∈ ls, '\n' ∉ l) : contents (unlines ls) = ls := by
  induction ls with
  | nil => rfl
  | cons l ls ih =>
    obtain ⟨hl, hls⟩ := forall_mem_cons.mp h
    have hone : contents (l ++ ['\n']) = [l] := by
      have := (Lines.cons hl .nil).pieces_flatten
      simp only [flatten_cons, flatten_nil, append_nil] at this
      simp only [contents, this, map_cons, map_nil, content_line]
    rw [unlines, flatMap_cons, contents_append (ended_line l), hone, ← unlines, ih hls]
    rfl

end Lib.Sed
