import Mathlib

/-! # Maps as association lists

Insertion replaces what stood under a key, removal takes every entry of it away; `List.lookup` reads
the first entry. -/

namespace Lib.Assoc

variable {κ α : Type} [DecidableEq κ] [BEq κ] [LawfulBEq κ]

def remove (m : List (κ × α)) (key : κ) : List (κ × α) := m.filter (·.1 ≠ key)

def insert (m : List (κ × α)) (key : κ) (value : α) : List (κ × α) := (key, value) :: remove m key

/-- `extend`: the entries of `new` win over those of `m`. -/
def extend (m new : List (κ × α)) : List (κ × α) :=
  new ++ m.filter fun entry => (new.lookup entry.1).isNone

theorem lookup_remove (m : List (κ × α)) (key k : κ) :
    (remove m key).lookup k = if k = key then none else m.lookup k := by
  induction m with
  | nil => simp [remove]
  | cons entry m ih =>
    obtain ⟨j, v⟩ := entry
    unfold remove at ih ⊢
    rw [List.filter_cons]
    by_cases hj : j = key
    · subst hj
      rw [if_neg (by simp), ih, List.lookup_cons]
      by_cases hk : k = j
      · simp [hk]
      · simp [hk, beq_eq_false_iff_ne.mpr hk]
    · rw [if_pos (by simpa using hj), List.lookup_cons, List.lookup_cons, ih]
      by_cases hk : k = j
      · simp [hk, hj]
      · simp [beq_eq_false_iff_ne.mpr hk]

theorem lookup_insert (m : List (κ × α)) (key k : κ) (value : α) :
    (insert m key value).lookup k = if k = key then some value else m.lookup k := by
  unfold insert
  rw [List.lookup_cons, lookup_remove]
  by_cases hk : k = key
  · simp [hk]
  · simp [hk, beq_eq_false_iff_ne.mpr hk]

end Lib.Assoc
