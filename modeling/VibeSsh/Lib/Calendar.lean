import VibeSsh.Lib.Text

/-! # Civil time

The Gregorian date and the time of day of a second since 1970, and its rendering as `%Y%m%d-%H%M%S`.
The rendering determines the second. -/

namespace Lib.Calendar

open Lib List

def isLeap (year : Nat) : Bool := year % 4 == 0 && (year % 100 != 0 || year % 400 == 0)

def yearLength (year : Nat) : Nat := if isLeap year then 366 else 365

def monthLengths (year : Nat) : List Nat :=
  [31, if isLeap year then 29 else 28, 31, 30, 31, 30, 31, 31, 30, 31, 30, 31]

/-- The year a day falls in and its place there, counting off at most `fuel` years. -/
def yearAndDay : Nat → Nat → Nat → Nat × Nat
  | 0, year, day => (year, day)
  | fuel + 1, year, day =>
    if day < yearLength year then (year, day)
    else yearAndDay fuel (year + 1) (day - yearLength year)

/-- The month, counted from zero, a day of the year falls in and its place there. -/
def monthAndDay : List Nat → Nat → Nat × Nat
  | [], day => (0, day)
  | length :: lengths, day =>
    if day < length then (0, day)
    else ((monthAndDay lengths (day - length)).1 + 1, (monthAndDay lengths (day - length)).2)

def padded (width n : Nat) : Text :=
  List.replicate (width - (Text.ofNat n).length) '0' ++ Text.ofNat n

/-- `%Y`: four digits, with a sign past them. -/
def yearText (year : Nat) : Text := if year < 10000 then padded 4 year else '+' :: Text.ofNat year

/-- `%m%d-%H%M%S`, from the day of the year and the second of the day. -/
def restText (year dayOfYear second : Nat) : Text :=
  padded 2 ((monthAndDay (monthLengths year) dayOfYear).1 + 1) ++
    (padded 2 ((monthAndDay (monthLengths year) dayOfYear).2 + 1) ++
      ('-' :: (padded 2 (second / 3600) ++
        (padded 2 (second / 60 % 60) ++ padded 2 (second % 60)))))

/-- `format("%Y%m%d-%H%M%S")` of a time in seconds since 1970. -/
def stamp (seconds : Nat) : Text :=
  let days := seconds / 86400
  let date := yearAndDay days 1970 days
  yearText date.1 ++ restText date.1 date.2 (seconds % 86400)

/-! ## Nothing is lost -/

/-- The days from year zero to the first of January of a year. -/
def daysBefore : Nat → Nat
  | 0 => 0
  | year + 1 => daysBefore year + yearLength year

theorem yearLength_pos (year : Nat) : 0 < yearLength year := by
  unfold yearLength
  split <;> decide

theorem daysBefore_yearAndDay (fuel year day : Nat) :
    daysBefore (yearAndDay fuel year day).1 + (yearAndDay fuel year day).2 =
      daysBefore year + day := by
  fun_induction yearAndDay fuel year day with
  | case1 => rfl
  | case2 => rfl
  | case3 fuel year day h ih =>
    rw [ih, daysBefore]
    omega

variable {year day a b second : Nat}

theorem yearAndDay_lt {fuel : Nat} (h : day ≤ fuel) :
    (yearAndDay fuel year day).2 < yearLength (yearAndDay fuel year day).1 := by
  fun_induction yearAndDay fuel year day with
  | case1 year day =>
    obtain rfl : day = 0 := by omega
    exact yearLength_pos year
  | case2 fuel year day hlt => exact hlt
  | case3 fuel year day hlt ih =>
    have := yearLength_pos year
    exact ih (by omega)

theorem monthAndDay_inj {lengths : List Nat}
    (h : monthAndDay lengths a = monthAndDay lengths b) : a = b := by
  induction lengths generalizing a b with
  | nil => exact (Prod.mk.inj h).2
  | cons length lengths ih =>
    unfold monthAndDay at h
    split at h <;> split at h <;> simp only [Prod.mk.injEq] at h
    · exact h.2
    · omega
    · omega
    · have := ih (Prod.ext (Nat.succ.inj h.1) h.2)
      omega

theorem monthAndDay_lt {lengths : List Nat} {bound : Nat} (hday : day < lengths.sum)
    (hbound : ∀ length ∈ lengths, length ≤ bound) :
    (monthAndDay lengths day).1 < lengths.length ∧ (monthAndDay lengths day).2 < bound := by
  induction lengths generalizing day with
  | nil => simp at hday
  | cons length lengths ih =>
    have hlength := hbound length mem_cons_self
    rw [sum_cons] at hday
    unfold monthAndDay
    split
    · exact ⟨by simp, by omega⟩
    · have hlt : day - length < lengths.sum := by omega
      have hrest := ih hlt fun l hl => hbound l (mem_cons_of_mem length hl)
      rw [length_cons]
      exact ⟨by omega, hrest.2⟩

theorem sum_monthLengths (year : Nat) : (monthLengths year).sum = yearLength year := by
  unfold monthLengths yearLength
  split <;> rfl

theorem monthLengths_le (year : Nat) : ∀ length ∈ monthLengths year, length ≤ 31 := by
  unfold monthLengths
  split <;> decide

/-! ## Fields of fixed width -/

theorem ofDigitChars_padded (width n : Nat) : Nat.ofDigitChars 10 (padded width n) 0 = n := by
  have hzeros : ∀ k : Nat, ∀ t : Text,
      Nat.ofDigitChars 10 (List.replicate k '0' ++ t) 0 = Nat.ofDigitChars 10 t 0 := by
    intro k t
    induction k with
    | zero => rfl
    | succ k ih => simpa [replicate_succ, Nat.ofDigitChars_cons] using ih
  rw [padded, hzeros, Text.ofDigitChars_ofNat]

theorem padded_inj {width m n : Nat} (h : padded width m = padded width n) : m = n := by
  rw [← ofDigitChars_padded width m, h, ofDigitChars_padded]

theorem length_padded_two {n : Nat} (h : n < 100) : (padded 2 n).length = 2 := by
  revert n
  decide

theorem yearText_inj (h : yearText a = yearText b) : a = b := by
  have hplus : ∀ n m : Nat, padded 4 n ≠ '+' :: Text.ofNat m := by
    intro n m heq
    have hmem : '+' ∈ padded 4 n := by rw [heq]; exact mem_cons_self
    rcases mem_append.mp hmem with hmem | hmem
    · exact absurd (eq_of_mem_replicate hmem) (by decide)
    · exact absurd (Text.isDigit_of_mem_ofNat hmem) (by decide)
  unfold yearText at h
  split at h <;> split at h
  · exact padded_inj h
  · exact absurd h (hplus a b)
  · exact absurd h.symm (hplus b a)
  · have hdigits := (List.cons.inj h).2
    rw [← Text.ofDigitChars_ofNat a, hdigits, Text.ofDigitChars_ofNat]

/-- The bounds under which the rest of a stamp has its eleven characters. -/
structure InRange (year dayOfYear second : Nat) : Prop where
  day : dayOfYear < yearLength year
  second : second < 86400

theorem InRange.month {dayOfYear : Nat} (h : InRange year dayOfYear second) :
    (monthAndDay (monthLengths year) dayOfYear).1 + 1 < 100 ∧
      (monthAndDay (monthLengths year) dayOfYear).2 + 1 < 100 := by
  have hlt := monthAndDay_lt (sum_monthLengths year ▸ h.day) (monthLengths_le year)
  have hlen : (monthLengths year).length = 12 := rfl
  omega

theorem length_restText {dayOfYear : Nat} (h : InRange year dayOfYear second) :
    (restText year dayOfYear second).length = 11 := by
  have hsecond := h.second
  simp only [restText, length_append, length_cons, length_padded_two h.month.1,
    length_padded_two h.month.2, length_padded_two (show second / 3600 < 100 by omega),
    length_padded_two (show second / 60 % 60 < 100 by omega),
    length_padded_two (show second % 60 < 100 by omega)]

theorem restText_inj {day' second' : Nat} (h : InRange year day second)
    (h' : InRange year day' second') (heq : restText year day second = restText year day' second') :
    day = day' ∧ second = second' := by
  have hs := h.second
  have hs' := h'.second
  unfold restText at heq
  obtain ⟨hmonth, heq⟩ := append_inj heq
    (by rw [length_padded_two h.month.1, length_padded_two h'.month.1])
  obtain ⟨hday, heq⟩ := append_inj heq
    (by rw [length_padded_two h.month.2, length_padded_two h'.month.2])
  obtain ⟨hhour, heq⟩ := append_inj (List.cons.inj heq).2
    (by rw [length_padded_two (by omega), length_padded_two (by omega)])
  obtain ⟨hminute, hsecond⟩ := append_inj heq
    (by rw [length_padded_two (by omega), length_padded_two (by omega)])
  have hmonth := padded_inj hmonth
  have hday := padded_inj hday
  have hhour := padded_inj hhour
  have hminute := padded_inj hminute
  have hsecond := padded_inj hsecond
  have hdate : monthAndDay (monthLengths year) day = monthAndDay (monthLengths year) day' :=
    Prod.ext (by omega) (by omega)
  exact ⟨monthAndDay_inj hdate, by omega⟩

theorem inRange_stamp (seconds : Nat) :
    InRange (yearAndDay (seconds / 86400) 1970 (seconds / 86400)).1
      (yearAndDay (seconds / 86400) 1970 (seconds / 86400)).2 (seconds % 86400) :=
  ⟨yearAndDay_lt le_rfl, Nat.mod_lt _ (by decide)⟩

/-- **A stamp tells its second.** -/
theorem stamp_inj (h : stamp a = stamp b) : a = b := by
  unfold stamp at h
  dsimp only at h
  have ha := inRange_stamp a
  have hb := inRange_stamp b
  have hda := daysBefore_yearAndDay (a / 86400) 1970 (a / 86400)
  have hdb := daysBefore_yearAndDay (b / 86400) 1970 (b / 86400)
  generalize yearAndDay (a / 86400) 1970 (a / 86400) = p at *
  generalize yearAndDay (b / 86400) 1970 (b / 86400) = q at *
  obtain ⟨hyear, hrest⟩ := append_inj' h
    (by rw [length_restText ha, length_restText hb])
  have hyear := yearText_inj hyear
  rw [hyear] at ha hda hrest
  obtain ⟨hday, hsecond⟩ := restText_inj ha hb hrest
  omega

example : stamp 1767225599 = "20251231-235959" := by decide

end Lib.Calendar
