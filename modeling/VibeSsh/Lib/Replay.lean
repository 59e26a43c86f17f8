import Mathlib

/-! # Logs of writes

A log of writes under keys, replayed on a store. Each key sees only its own writes, and a field that
every write either sets or leaves alone ends as the last write that sets it says. -/

namespace Lib.Replay
open List

variable {κ ω β φ : Type}

/-- The last value a log sets a field to. -/
def last (set : ω → Option φ) (log : List ω) : Option φ := (log.filterMap set).getLast?

@[simp] theorem last_nil (set : ω → Option φ) : last set [] = none := rfl

theorem last_append (set : ω → Option φ) (xs ys : List ω) :
    last set (xs ++ ys) = (last set ys).or (last set xs) := by
  simp [last, filterMap_append, List.getLast?_append]

theorem last_cons (set : ω → Option φ) (w : ω) (log : List ω) :
    last set (w :: log) = (last set log).or (set w) := by
  rw [← singleton_append, last_append]
  cases h : set w <;> simp [last, h]

/-- Of the blocks that set the field, the last counts. -/
theorem last_flatMap_filter {α : Type} {set : ω → Option φ} {block : α → List ω} {p : α → Bool}
    (value : α → φ) (h : ∀ x, last set (block x) = if p x then some (value x) else none)
    (xs : List α) : last set (xs.flatMap block) = (xs.filter p).getLast?.map value := by
  induction xs using List.reverseRecOn with
  | nil => rfl
  | append_singleton xs x ih =>
    rw [flatMap_append, last_append, flatMap_singleton, h, ih, filter_append]
    cases hp : p x <;> simp [hp]

theorem last_flatMap {α : Type} {set : ω → Option φ} {block : α → List ω} (value : α → φ)
    (h : ∀ x, last set (block x) = some (value x)) (xs : List α) :
    last set (xs.flatMap block) = xs.getLast?.map value := by
  simpa using last_flatMap_filter (p := fun _ => true) value (by simpa using h) xs

section

variable (apply : ω → β → β)

def applyAll (log : List ω) (x : β) : β := log.foldl (fun x w => apply w x) x

@[simp] theorem applyAll_nil (x : β) : applyAll apply [] x = x := rfl

@[simp] theorem applyAll_cons (w : ω) (log : List ω) (x : β) :
    applyAll apply (w :: log) x = applyAll apply log (apply w x) := rfl

theorem applyAll_append (xs ys : List ω) (x : β) :
    applyAll apply (xs ++ ys) x = applyAll apply ys (applyAll apply xs x) :=
  foldl_append

variable {apply}

/-- Where every write sets the field or leaves it alone, the last one that sets it counts. -/
theorem field_applyAll (good : β → Prop) {field : β → φ} {set : ω → Option φ}
    (hgood : ∀ w x, good x → good (apply w x))
    (hset : ∀ w x, good x → field (apply w x) = (set w).getD (field x)) :
    ∀ (log : List ω) {x : β}, good x → field (applyAll apply log x) = (last set log).getD (field x)
  | [], _, _ => rfl
  | w :: log, x, hx => by
    rw [applyAll_cons, field_applyAll good hgood hset log (hgood w x hx), hset w x hx, last_cons]
    cases last set log <;> rfl

end

/-! ## Under keys -/

section

variable [DecidableEq κ] (apply : ω → β → β)

/-- The writes under one key. -/
def under (k : κ) (log : List (κ × ω)) : List ω := (log.filter (·.1 = k)).map Prod.snd

@[simp] theorem under_append (k : κ) (xs ys : List (κ × ω)) :
    under k (xs ++ ys) = under k xs ++ under k ys := by
  simp [under]

theorem under_map_self (k : κ) (log : List ω) : under k (log.map (Prod.mk k)) = log := by
  simp [under, filter_map, Function.comp_def]

theorem under_map_of_ne {k l : κ} (h : l ≠ k) (log : List ω) :
    under k (log.map (Prod.mk l)) = [] := by
  simp [under, filter_map, Function.comp_def, h]

theorem under_flatMap {α : Type} (k : κ) (key : α → κ) (block : α → List ω) (xs : List α) :
    under k (xs.flatMap fun x => (block x).map (Prod.mk (key x))) =
      (xs.filter (key · = k)).flatMap block := by
  induction xs with
  | nil => rfl
  | cons x xs ih =>
    rw [flatMap_cons, under_append, ih]
    by_cases h : key x = k
    · rw [h, under_map_self, filter_cons_of_pos (by simpa using h), flatMap_cons]
    · rw [under_map_of_ne h, filter_cons_of_neg (by simpa using h), nil_append]

def replay (log : List (κ × ω)) (s : κ → β) : κ → β :=
  log.foldl (fun s e => Function.update s e.1 (apply e.2 (s e.1))) s

/-- A key sees its own writes, in their order. -/
theorem replay_apply (log : List (κ × ω)) (s : κ → β) (k : κ) :
    replay apply log s k = applyAll apply (under k log) (s k) := by
  induction log generalizing s with
  | nil => rfl
  | cons e log ih =>
    rw [replay, foldl_cons, ← replay, ih]
    by_cases h : e.1 = k
    · subst h
      simp [under]
    · rw [Function.update_of_ne (Ne.symm h)]
      simp [under, h]

end

end Lib.Replay
