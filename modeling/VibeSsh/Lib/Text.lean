import Mathlib

/-! # Text

A string is the list of its Unicode scalar values. The operations are those of Rust's standard
library that the code calls on `&str`: `trim`, `trim_end_matches`, `split`, `split_once`, `parse`.
`segments` is what a path is to a splitting validator, its non-empty parts between slashes, and
`lexical` what it is to the kernel when no link is involved: `.` goes too. -/

open List

open Option

namespace Lib

abbrev Text := List Char

/-- A literal is the text of its characters. -/
instance : Coe String Text := ⟨String.toList⟩

instance : LawfulBEq Text := inferInstance

namespace Text

/-- `char::is_whitespace`: the Unicode property `White_Space`. -/
def isWhitespace (c : Char) : Bool :=
  (9 ≤ c.toNat && c.toNat ≤ 13) || (0x2000 ≤ c.toNat && c.toNat ≤ 0x200A) ||
    [0x20, 0x85, 0xA0, 0x1680, 0x2028, 0x2029, 0x202F, 0x205F, 0x3000].contains c.toNat

def trim (t : Text) : Text := (t.dropWhile isWhitespace).rdropWhile isWhitespace

def trimEndMatches (c : Char) (t : Text) : Text := t.rdropWhile (· == c)

/-- `split_once`: the text before and after the first `c`. -/
def splitOnce (c : Char) : Text → Option (Text × Text)
  | [] => none
  | x :: xs => if x == c then some ([], xs) else (splitOnce c xs).map fun p => (x :: p.1, p.2)

/-- `find`: the text before and after the first occurrence of `pattern`. -/
def breakOn (pattern : Text) : Text → Option (Text × Text)
  | [] => if pattern.isEmpty then some ([], []) else none
  | c :: cs =>
    if pattern.isPrefixOf (c :: cs) then some ([], (c :: cs).drop pattern.length)
    else (breakOn pattern cs).map fun p => (c :: p.1, p.2)

def startsWith (pre t : Text) : Bool := pre.isPrefixOf t

def join (sep : Text) (parts : List Text) : Text := sep.intercalate parts

def endsWith (suf t : Text) : Bool := suf.isSuffixOf t

def includes (pattern t : Text) : Bool := (breakOn pattern t).isSome

/-- `split_whitespace`: the maximal runs of non-blank characters. -/
def words (t : Text) : List Text := (t.splitOnP isWhitespace).filter fun w => !w.isEmpty

/-- A line without the carriage return at its end. -/
def chomp (line : Text) : Text := if line.getLast? = some '\r' then line.dropLast else line

/-- `lines`: cut at newlines, with a carriage return before one taken off too; text after the last
newline is a line, as it is, only if there is some. -/
def lines (t : Text) : List Text :=
  let parts := t.splitOn '\n'
  parts.dropLast.map chomp ++ parts.getLast?.toList.filter fun line => !line.isEmpty

/-- A decimal numeral as Rust's unsigned `parse` reads it: an optional `+`, then digits only, with
a value of at most `max`. -/
def parseUnsigned (max : Nat) (t : Text) : Option Nat :=
  let digits := if t.head? = some '+' then t.tail else t
  if digits.isEmpty || !digits.all Char.isDigit then none
  else if Nat.ofDigitChars 10 digits 0 ≤ max then some (Nat.ofDigitChars 10 digits 0)
  else none

def ofNat (n : Nat) : Text := Nat.toDigits 10 n

/-- `char::to_lowercase`: Unicode's table, of which only the ASCII part is fixed. -/
structure Lowercase where
  map : Char → Text
  ascii : ∀ c : Char, c.toNat < 128 → map c = [c.toLower]

/-- The table cut off after ASCII. -/
def Lowercase.asciiOnly : Lowercase := ⟨fun c => [c.toLower], fun _ _ => rfl⟩

variable {n : Nat} {c : Char} {t part : Text}

theorem isDigit_of_mem_ofNat (h : c ∈ ofNat n) : c.isDigit = true :=
  Nat.isDigit_of_mem_toDigits (by decide) (by decide) h

theorem ofNat_ne_nil (n : Nat) : ofNat n ≠ [] := Nat.toDigits_ne_nil

theorem head?_ofNat_ne_plus (n : Nat) : (ofNat n).head? ≠ some '+' := by
  intro h
  have := isDigit_of_mem_ofNat (mem_of_head? h)
  revert this
  decide

theorem all_isDigit_ofNat (n : Nat) : (ofNat n).all Char.isDigit = true :=
  all_eq_true.mpr fun _ => isDigit_of_mem_ofNat

theorem ofDigitChars_ofNat (n : Nat) : Nat.ofDigitChars 10 (ofNat n) 0 = n :=
  Nat.ofDigitChars_ten_toDigits

/-- A number written out is read back, if it fits. -/
theorem parseUnsigned_ofNat {max : Nat} (h : n ≤ max) : parseUnsigned max (ofNat n) = some n := by
  simp only [parseUnsigned, head?_ofNat_ne_plus, if_false, ofDigitChars_ofNat, all_isDigit_ofNat]
  simp [ofNat_ne_nil, h]

/-- What is read is what the digits say, within the bound. -/
theorem parseUnsigned_le {max : Nat} (h : parseUnsigned max t = some n) :
    n ≤ max ∧ ∀ bound, n ≤ bound → parseUnsigned bound t = some n := by
  unfold parseUnsigned at h ⊢
  dsimp only at h ⊢
  generalize (if t.head? = some '+' then t.tail else t) = digits at h ⊢
  split at h
  · cases h
  next hdigits =>
    split at h
    next hmax =>
      obtain rfl := some.inj h
      exact ⟨hmax, fun bound hbound => by rw [if_neg hdigits, if_pos hbound]⟩
    next => cases h

theorem trim_append_of_not_isWhitespace (hc : isWhitespace c = false) (t : Text) :
    ∃ w, c :: t = trim (c :: t) ++ w ∧ ∀ x ∈ w, isWhitespace x = true := by
  refine ⟨(c :: t).rtakeWhile isWhitespace, ?_, fun x => mem_rtakeWhile_imp⟩
  rw [trim, dropWhile_cons_of_neg (by simp [hc])]
  exact rdropWhile_append_rtakeWhile.symm

theorem trim_eq_self_of_ends (hhead : ∀ c ∈ t.head?, isWhitespace c = false)
    (hlast : ∀ c ∈ t.getLast?, isWhitespace c = false) : trim t = t := by
  have h1 : t.dropWhile isWhitespace = t := by
    cases t with
    | nil => rfl
    | cons c rest => exact dropWhile_cons_of_neg (by simp [hhead c rfl])
  rw [trim, h1]
  exact rdropWhile_eq_self_iff.mpr fun hne => by
    simp [hlast _ (List.getLast?_eq_some_getLast hne)]

theorem trim_trim (t : Text) : trim (trim t) = trim t := by
  refine trim_eq_self_of_ends (fun c hc => ?_) fun c hc => ?_
  · obtain ⟨rest, hrest⟩ := rdropWhile_prefix isWhitespace (t.dropWhile isWhitespace)
    have htrim : ((t.dropWhile isWhitespace).rdropWhile isWhitespace).head? = some c := hc
    have hhead : (t.dropWhile isWhitespace).head? = some c := by
      rw [← hrest, List.head?_append, htrim]
      rfl
    have hnot := List.head?_dropWhile_not isWhitespace t
    rw [hhead] at hnot
    exact hnot
  · have hne : trim t ≠ [] := fun hnil => by simp [hnil] at hc
    have hlast := rdropWhile_last_not isWhitespace (t.dropWhile isWhitespace) hne
    rw [List.getLast?_eq_some_getLast hne, mem_some_iff] at hc
    rw [← hc]
    exact Bool.eq_false_iff.mpr hlast

theorem trim_eq_self (h : ∀ c ∈ t, isWhitespace c = false) : trim t = t :=
  trim_eq_self_of_ends (fun c hc => h c (mem_of_head? hc))
    fun c hc => h c (mem_of_getLast? hc)

theorem isWhitespace_eq_false (h1 : 33 ≤ c.toNat) (h2 : c.toNat ≤ 126) :
    isWhitespace c = false := by
  unfold isWhitespace
  generalize c.toNat = n at *
  simp
  omega

/-- For a literal, the hypothesis is decided. -/
theorem isWhitespace_of_mem_all {value : Text} (h : (value.all fun c => !isWhitespace c) = true)
    (hc : c ∈ value) : isWhitespace c = false := by
  simpa using all_eq_true.mp h c hc

theorem isWhitespace_toLower (h : c.isAlphanum = true) : isWhitespace c.toLower = false := by
  have hb : 33 ≤ c.toLower.toNat ∧ c.toLower.toNat ≤ 126 := by
    simp only [Char.isAlphanum, Char.isAlpha, Char.isUpper, Char.isLower, Char.isDigit,
      Bool.or_eq_true, Bool.and_eq_true, decide_eq_true_eq] at h
    unfold Char.toLower
    split
    · next hu =>
      obtain ⟨n, hn⟩ := c
      change 33 ≤ (n + 32).toNat ∧ (n + 32).toNat ≤ 126
      have := hu.1
      have := hu.2
      simp only [ge_iff_le, UInt32.le_iff_toNat_le] at *
      simp at *
      omega
    · obtain ⟨n, hn⟩ := c
      change 33 ≤ n.toNat ∧ n.toNat ≤ 126
      simp only [ge_iff_le, UInt32.le_iff_toNat_le] at *
      simp at *
      omega
  exact isWhitespace_eq_false hb.1 hb.2

theorem splitOnce_eq_none (h : c ∉ t) : splitOnce c t = none := by
  induction t with
  | nil => rfl
  | cons x xs ih =>
    rw [mem_cons, not_or] at h
    simp [splitOnce, Ne.symm h.1, ih h.2]

theorem splitOnce_append {l : Text} (h : c ∉ l) (r : Text) :
    splitOnce c (l ++ c :: r) = some (l, r) := by
  induction l with
  | nil => simp [splitOnce]
  | cons x l ih =>
    obtain ⟨hx, hl⟩ := not_or.mp (mt mem_cons.mpr h)
    simp [splitOnce, Ne.symm hx, ih hl]

theorem breakOn_eq {pattern before after : Text} (h : breakOn pattern t = some (before, after)) :
    t = before ++ (pattern ++ after) := by
  induction t generalizing before with
  | nil =>
    unfold breakOn at h
    split at h
    · next hp =>
      cases h
      simpa using hp
    · cases h
  | cons c cs ih =>
    unfold breakOn at h
    split at h
    · next hp =>
      cases h
      obtain ⟨rest, hrest⟩ := isPrefixOf_iff_prefix.mp hp
      rw [← hrest]
      simp
    · cases hcs : breakOn pattern cs with
      | none => simp [hcs] at h
      | some p =>
        simp only [hcs, map_some, some.injEq, Prod.mk.injEq] at h
        obtain ⟨rfl, rfl⟩ := h
        simpa using ih hcs

theorem length_breakOn {pattern before after : Text}
    (h : breakOn pattern t = some (before, after)) :
    before.length + pattern.length + after.length = t.length := by
  rw [breakOn_eq h]
  simp only [length_append]
  omega

theorem mem_join {sep : Text} {parts : List Text} (h : c ∈ join sep parts) :
    c ∈ sep ∨ ∃ t ∈ parts, c ∈ t := by
  unfold join at h
  induction parts with
  | nil => simp at h
  | cons a rest ih =>
    cases rest with
    | nil => exact .inr ⟨a, by simp, by simpa using h⟩
    | cons b rest =>
      rw [intercalate_cons_cons, append_assoc] at h
      rcases mem_append.mp h with h | h
      · exact .inr ⟨a, by simp, h⟩
      · rcases mem_append.mp h with h | h
        · exact .inl h
        · rcases ih h with h | ⟨t, ht, hc⟩
          · exact .inl h
          · exact .inr ⟨t, mem_cons_of_mem _ ht, hc⟩

/-- The parts hold the characters that are no separators. -/
theorem exists_mem_splitOnP {sep : Char → Bool} :
    (∃ part ∈ t.splitOnP sep, c ∈ part) ↔ c ∈ t ∧ sep c = false := by
  induction t with
  | nil => simp
  | cons x t ih =>
    obtain ⟨a, rest, hsplit⟩ := exists_cons_of_ne_nil (splitOnP_ne_nil sep t)
    rw [splitOnP_cons_eq_if_modifyHead]
    rw [hsplit] at ih ⊢
    split
    · next hx =>
      simp only [exists_mem_cons_iff] at ih ⊢
      grind
    · next hx =>
      simp only [modifyHead_cons, exists_mem_cons_iff] at ih ⊢
      grind

theorem splitOn_of_notMem (h : c ∉ t) : t.splitOn c = [t] :=
  splitOnP_eq_singleton fun _ hx => beq_eq_false_iff_ne.mpr fun heq => h (heq ▸ hx)

/-- Parts without separators are read back from between separators. -/
theorem splitOnP_join {sep : Char → Bool} (hc : sep c = true) {parts : List Text} (hne : parts ≠ [])
    (h : ∀ part ∈ parts, ∀ x ∈ part, sep x = false) : (join [c] parts).splitOnP sep = parts := by
  induction parts with
  | nil => exact absurd rfl hne
  | cons part rest ih =>
    have hpart := splitOnP_eq_singleton (h part mem_cons_self)
    cases rest with
    | nil => rwa [join, intercalate_singleton]
    | cons next rest =>
      rw [join, intercalate_cons_cons, append_assoc, singleton_append, splitOnP_append_cons _ _ hc,
        hpart, ← join, ih (cons_ne_nil _ _) fun part hp => h part (mem_cons_of_mem _ hp)]
      rfl

theorem mem_of_mem_splitOn {sep : Char} (hp : part ∈ t.splitOn sep) (hc : c ∈ part) : c ∈ t :=
  (exists_mem_splitOnP.mp ⟨part, hp, hc⟩).1

theorem chomp_of_ne {line : Text} (h : line.getLast? ≠ some '\r') : chomp line = line := if_neg h

theorem map_chomp {ls : List Text} (h : ∀ l ∈ ls, l.getLast? ≠ some '\r') : ls.map chomp = ls :=
  calc ls.map chomp = ls.map id := map_congr_left fun l hl => chomp_of_ne (h l hl)
    _ = ls := map_id ls

/-- Lines with newlines between them are read back, if the last one has something in it. -/
theorem lines_join {ls : List Text} (hne : ls ≠ [])
    (h : ∀ l ∈ ls, '\n' ∉ l ∧ l.getLast? ≠ some '\r') (hlast : ls.getLast? ≠ some []) :
    lines (join ['\n'] ls) = ls := by
  have hsplit : (join ['\n'] ls).splitOn '\n' = ls :=
    splitOn_intercalate '\n' (fun l hl => (h l hl).1) hne
  obtain ⟨start, last, rfl⟩ := (eq_nil_or_concat' ls).resolve_left hne
  have hstart : start.map chomp = start :=
    map_chomp fun l hl => (h l (mem_append_left _ hl)).2
  have hempty : last ≠ [] := by simpa using hlast
  unfold lines
  dsimp only
  rw [hsplit, dropLast_concat, getLast?_concat, hstart]
  simp [hempty]

/-- Texts that end in a newline are read line by line, one after the other. -/
theorem lines_append_newline (a b : Text) :
    lines (a ++ '\n' :: b) = lines (a ++ ['\n']) ++ lines b := by
  have hsplit : ∀ r : Text, (a ++ '\n' :: r).splitOn '\n' = a.splitOn '\n' ++ r.splitOn '\n' :=
    fun r => splitOnP_append_cons a r (by decide)
  have hne : b.splitOn '\n' ≠ [] := splitOnP_ne_nil _ b
  have hnil : ([] : Text).splitOn '\n' = [[]] := rfl
  unfold lines
  dsimp only
  rw [hsplit b, hsplit [], hnil, List.getLast?_append_of_ne_nil _ hne,
    dropLast_append_of_ne_nil hne, dropLast_concat, getLast?_concat, map_append, append_assoc]
  simp

theorem rdropWhile_chomp {p : Char → Bool} (hp : p '\r' = true) (line : Text) :
    (chomp line).rdropWhile p = line.rdropWhile p := by
  unfold chomp
  split
  next h =>
    obtain ⟨start, rfl⟩ := List.getLast?_eq_some_iff.mp h
    rw [dropLast_concat, rdropWhile_concat_pos _ _ _ hp]
  next => rfl

theorem lines_line {line : Text} (h : '\n' ∉ line) : lines (line ++ ['\n']) = [chomp line] := by
  have happend : (line ++ ['\n']).splitOn '\n' = line.splitOn '\n' ++ ([] : Text).splitOn '\n' :=
    splitOnP_append_cons _ _ (by decide)
  unfold lines
  rw [happend, splitOn_of_notMem h]
  rfl

theorem includes_append (before pattern after : Text) :
    includes pattern (before ++ (pattern ++ after)) = true := by
  unfold includes
  induction before with
  | nil =>
    rw [nil_append]
    cases hp : pattern ++ after with
    | nil => simp [breakOn, (append_eq_nil_iff.mp hp).1]
    | cons c cs =>
      have hprefix : pattern.isPrefixOf (c :: cs) = true := by
        rw [← hp]
        exact isPrefixOf_iff_prefix.mpr (prefix_append _ _)
      simp [breakOn, hprefix]
  | cons c before ih =>
    rw [cons_append, breakOn]
    split
    · rfl
    · rw [isSome_map]
      exact ih

theorem words_append_blank {b : Char} (hb : isWhitespace b = true) (l r : Text) :
    words (l ++ b :: r) = words l ++ words r := by
  simp [words, splitOnP_append_cons l r hb]

theorem words_of_noBlank (hne : t ≠ []) (h : ∀ c ∈ t, isWhitespace c = false) : words t = [t] := by
  rw [words, splitOnP_eq_singleton h]
  simp [hne]

theorem isWhitespace_of_mem_ofNat (h : c ∈ ofNat n) : isWhitespace c = false := by
  have hd := isDigit_of_mem_ofNat h
  simp only [Char.isDigit, Bool.and_eq_true, decide_eq_true_eq, ge_iff_le,
    UInt32.le_iff_toNat_le] at hd
  exact isWhitespace_eq_false (le_trans (by decide) hd.1) (le_trans hd.2 (by decide))

/-! ## Paths as text -/

def segments (t : Text) : List Text := (t.splitOn '/').filter fun s => !s.isEmpty

/-- The components a path denotes lexically: empty and `.` segments are dropped. -/
def lexical (t : Text) : List Text := (segments t).filter fun s => s != ['.']

/-- No part holds a separator. -/
theorem of_mem_splitOnP {sep : Char → Bool} (h : part ∈ t.splitOnP sep) :
    ∀ c ∈ part, sep c = false := fun _ hc => (exists_mem_splitOnP.mp ⟨part, h, hc⟩).2

theorem not_mem_of_mem_splitOn (h : part ∈ t.splitOn c) : c ∉ part := by
  rw [splitOn_eq_splitOnP] at h
  intro hc
  simpa using of_mem_splitOnP h c hc

/-- The part of a path after its last slash. -/
def baseName (t : Text) : Option Text := (t.splitOn '/').getLast?

theorem baseName_append_slash (l r : Text) : baseName (l ++ '/' :: r) = baseName r := by
  unfold baseName
  rw [splitOn_append_cons_self, List.getLast?_append,
    List.getLast?_eq_some_getLast (splitOn_ne_nil _ r), some_or]

theorem segments_append_slash (l r : Text) :
    segments (l ++ '/' :: r) = segments l ++ segments r := by
  simp [segments, splitOn_append_cons_self]

@[simp] theorem segments_nil : segments [] = [] := rfl

theorem segments_trimEndMatches (t : Text) : segments (trimEndMatches '/' t) = segments t := by
  unfold trimEndMatches
  induction t using List.reverseRecOn with
  | nil => rfl
  | append_singleton l c ih =>
    by_cases hc : c = '/'
    · subst hc
      rw [rdropWhile_concat_pos _ _ _ (by simp), ih, segments_append_slash]
      simp
    · rw [rdropWhile_concat_neg _ _ _ (by simpa using hc)]

theorem lexical_append_slash (l r : Text) : lexical (l ++ '/' :: r) = lexical l ++ lexical r := by
  simp [lexical, segments_append_slash]

/-- A text without a slash is at most one component. -/
theorem lexical_of_noSlash (h : '/' ∉ t) :
    lexical t = if t = [] ∨ t = ['.'] then [] else [t] := by
  unfold lexical segments
  rw [splitOn_of_notMem h]
  by_cases h0 : t = []
  · simp [h0]
  · by_cases h1 : t = ['.'] <;> simp [h0, h1]

/-- Text put after a path's last slash only lengthens its last component. -/
theorem length_lexical_append {w : Text} (hw : '/' ∉ w) (t : Text) :
    (lexical t).length ≤ (lexical (t ++ w)).length := by
  by_cases ht : '/' ∈ t
  · -- split at the first slash; the part after it is shorter
    obtain ⟨a, b, rfl, -⟩ := eq_append_cons_of_mem ht
    have ih := length_lexical_append hw b
    rw [lexical_append_slash, append_assoc, cons_append, lexical_append_slash]
    simpa using ih
  · have htw : '/' ∉ t ++ w := by simp [ht, hw]
    rw [lexical_of_noSlash ht, lexical_of_noSlash htw]
    by_cases hc : t = [] ∨ t = ['.']
    · simp [hc]
    · have : ¬(t ++ w = [] ∨ t ++ w = ['.']) := by
        rintro (h | h)
        · simp_all
        · rcases append_eq_singleton_iff.mp h with ⟨rfl, -⟩ | ⟨rfl, -⟩ <;> simp at hc
      rw [if_neg hc, if_neg this]
      rfl
termination_by t.length

/-- Dropping the dots leaves everything else a path names. -/
theorem length_segments_eq (t : Text) :
    (segments t).length = (lexical t).length + (segments t).count ['.'] := by
  have h := length_eq_length_filter_add (l := segments t) fun s => s != ['.']
  rw [lexical, count_eq_length_filter]
  refine h.trans ?_
  congr 2
  refine filter_congr fun s _ => ?_
  simp [bne]

end Text

end Lib
