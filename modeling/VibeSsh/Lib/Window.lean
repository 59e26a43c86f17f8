import Mathlib

/-! # Windows onto a list

The last elements of a growing list without repetitions. Two windows that end at different moments
overlap, the end of the older one with the start of the newer one, in exactly one way: by what the
newer one reaches back. -/

namespace Lib
open List

variable {α : Type}

theorem rtake_suffix (l : List α) (n : Nat) : l.rtake n <:+ l := drop_suffix _ _

theorem length_rtake (l : List α) (n : Nat) : (l.rtake n).length = min n l.length := by
  rw [List.rtake, length_drop]
  omega

theorem eq_of_suffix {l p q : List α} (hp : p <:+ l) (hq : q <:+ l) (h : p.length = q.length) :
    p = q := by
  rw [suffix_iff_eq_drop.mp hp, suffix_iff_eq_drop.mp hq, h]

/-- A window that is longer than what was added last reaches back. -/
theorem reaches_back {old new w : List α} (hw : w <:+ old ++ new) (h : new.length ≤ w.length) :
    ∃ u, u <:+ old ∧ w = u ++ new := by
  have hlen := hw.length_le
  rw [length_append] at hlen
  refine ⟨old.drop ((old ++ new).length - w.length), drop_suffix _ _, ?_⟩
  rw [← drop_append_of_le_length (by rw [length_append]; omega)]
  exact suffix_iff_eq_drop.mp hw

/-- **Where two windows overlap.** -/
theorem overlap_iff {old new p u : List α} (hnodup : (old ++ new).Nodup) (hp : p <:+ old)
    (hu : u <:+ old) {k : Nat} (hpos : 0 < k) (hk : k ≤ p.length) :
    p.drop (p.length - k) = (u ++ new).take k ↔ k = u.length := by
  have hplen := hp.length_le
  have hulen := hu.length_le
  have hend : p.drop (p.length - k) = old.drop (old.length - k) := by
    refine eq_of_suffix ((drop_suffix _ _).trans hp) (drop_suffix _ _) ?_
    rw [length_drop, length_drop]
    omega
  constructor
  · -- the first element of the overlap is at one place of the list
    intro h
    rw [hend] at h
    have hfirst := congrArg (fun l : List α => l[0]?) h
    have hwindow : u ++ new = (old ++ new).drop (old.length - u.length) := by
      rw [drop_append_of_le_length (by omega), ← suffix_iff_eq_drop.mp hu]
    simp only [List.getElem?_drop, Nat.add_zero, List.getElem?_take_of_lt hpos, hwindow] at hfirst
    have hleft : (old ++ new)[old.length - k]? = old[old.length - k]? :=
      List.getElem?_append_left (by omega)
    have hin : old.length - k < (old ++ new).length := by
      rw [length_append]
      omega
    rw [← hleft] at hfirst
    have hplace := (List.getElem?_inj hin hnodup).mp hfirst
    omega
  · rintro rfl
    rw [hend, take_left, ← suffix_iff_eq_drop.mp hu]

end Lib
