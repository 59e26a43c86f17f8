import Mathlib

/-! # Fallible loops

`foldlM` in `Except`, with an invariant that may speak of the part of the list gone through. One
rule is for a loop known to have returned, the other shows that it returns. -/

namespace Lib

variable {α β ε : Type} {f : β → α → Except ε β}

variable {l : List α}

theorem foldlM_cons_ok {b r : β} {x : α} :
    (x :: l).foldlM f b = .ok r ↔ ∃ b', f b x = .ok b' ∧ l.foldlM f b' = .ok r := by
  rw [List.foldlM_cons]
  cases h : f b x <;> simp [bind, Except.bind]

/-- What every step that returns keeps, a loop that returns keeps. -/
theorem foldlM_invariant (inv : List α → β → Prop) {b r : β} (hloop : l.foldlM f b = .ok r)
    (hstart : inv [] b)
    (hstep : ∀ done x rest b b', l = done ++ x :: rest → inv done b → f b x = .ok b' →
      inv (done ++ [x]) b') : inv l r := by
  suffices h : ∀ done rest b, l = done ++ rest → inv done b → rest.foldlM f b = .ok r → inv l r from
    h [] l b rfl hstart hloop
  intro done rest
  induction rest generalizing done with
  | nil =>
    intro b hl hinv hloop
    obtain rfl : b = r := by simpa [pure, Except.pure] using hloop
    rw [hl, List.append_nil]
    exact hinv
  | cons x rest ih =>
    intro b hl hinv hloop
    obtain ⟨b', hx, hrest⟩ := foldlM_cons_ok.mp hloop
    exact ih (done ++ [x]) b' (by simp [hl]) (hstep done x rest b b' hl hinv hx) hrest

/-- A loop that has returned came to each element, and what its steps keep from there on holds. -/
theorem foldlM_visits {x : α} (hx : x ∈ l) {b r : β} (hloop : l.foldlM f b = .ok r) :
    ∃ c c', f c x = .ok c' ∧ ∀ inv : β → Prop,
      (∀ b y b', f b y = .ok b' → inv b → inv b') → inv c' → inv r := by
  induction l generalizing b with
  | nil => cases hx
  | cons y l ih =>
    obtain ⟨b', hy, hrest⟩ := foldlM_cons_ok.mp hloop
    rcases List.mem_cons.mp hx with rfl | hx
    · refine ⟨b, b', hy, fun inv hstep hstart => ?_⟩
      exact foldlM_invariant (fun _ => inv) hrest hstart fun _ y _ b b' _ h hb => hstep b y b' hb h
    · exact ih hx hrest

/-- A loop returns if every step does from a state that satisfies the invariant. -/
theorem foldlM_returns (inv : List α → β → Prop) {b : β} (hstart : inv [] b)
    (hstep : ∀ done x rest b, l = done ++ x :: rest → inv done b →
      ∃ b', f b x = .ok b' ∧ inv (done ++ [x]) b') : ∃ r, l.foldlM f b = .ok r ∧ inv l r := by
  suffices h : ∀ done rest b, l = done ++ rest → inv done b →
      ∃ r, rest.foldlM f b = .ok r ∧ inv l r from h [] l b rfl hstart
  intro done rest
  induction rest generalizing done with
  | nil =>
    intro b hl hinv
    exact ⟨b, rfl, by rwa [hl, List.append_nil]⟩
  | cons x rest ih =>
    intro b hl hinv
    obtain ⟨b', hx, hinv'⟩ := hstep done x rest b hl hinv
    obtain ⟨r, hrest, hr⟩ := ih (done ++ [x]) b' (by simp [hl]) hinv'
    exact ⟨r, foldlM_cons_ok.mpr ⟨b', hx, hrest⟩, hr⟩

theorem foldl_eq_self {f : β → α → β} {b : β} (h : ∀ x ∈ l, f b x = b) : l.foldl f b = b := by
  induction l with
  | nil => rfl
  | cons x l ih =>
    rw [List.foldl_cons, h x List.mem_cons_self]
    exact ih fun y hy => h y (List.mem_cons_of_mem x hy)

end Lib
