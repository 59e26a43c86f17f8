import VibeSsh.Lib.Run

/-! # What every schedule comes to

`Inevitably step p s`: however the steps from `s` are chosen, `p` comes to hold, as long as the
system does not stand still where it could go on. A measure that every step lowers reduces it to the
states that no step leaves; a set of states that misses `p` and that no step leaves refutes it. -/

namespace Lib

variable {σ α : Type} {step : σ → α → σ → Prop} {p : σ → Prop}

def Stuck (step : σ → α → σ → Prop) (s : σ) : Prop := ∀ a t, ¬ step s a t

inductive Inevitably (step : σ → α → σ → Prop) (p : σ → Prop) : σ → Prop where
  | now {s : σ} : p s → Inevitably step p s
  | later {s t : σ} {a : α} : step s a t → (∀ a t, step s a t → Inevitably step p t) →
    Inevitably step p s

/-- **Progress by a measure.** -/
theorem inevitably_of_measure (inv : σ → Prop) (measure : σ → Nat)
    (hinv : ∀ {s a t}, inv s → step s a t → inv t)
    (hless : ∀ {s a t}, inv s → step s a t → measure t < measure s)
    (hstuck : ∀ {s}, inv s → Stuck step s → p s) {s : σ} (hs : inv s) : Inevitably step p s := by
  induction hn : measure s using Nat.strong_induction_on generalizing s with
  | _ n ih =>
    subst hn
    by_cases h : Stuck step s
    · exact .now (hstuck hs h)
    · obtain ⟨a, t, hst⟩ : ∃ a t, step s a t := by simpa [Stuck] using h
      exact .later hst fun a t hst => ih _ (hless hs hst) (hinv hs hst) rfl

theorem Inevitably.mono {q : σ → Prop} {s : σ} (h : Inevitably step p s) (hpq : ∀ {s}, p s → q s) :
    Inevitably step q s := by
  induction h with
  | now hp => exact .now (hpq hp)
  | later hst _ ih => exact .later hst ih

/-- What is inevitable and stays once it holds is inevitable after any step. -/
theorem Inevitably.next (hstable : ∀ {s a t}, p s → step s a t → p t) {s t : σ} {a : α}
    (h : Inevitably step p s) (hst : step s a t) : Inevitably step p t := by
  cases h with
  | now hp => exact .now (hstable hp hst)
  | later _ hall => exact hall a t hst

/-- **Refutation by a trap.** -/
theorem not_inevitably_of_trap (trap : σ → Prop) (hstep : ∀ {s a t}, trap s → step s a t → trap t)
    (hmiss : ∀ {s}, trap s → ¬ p s) {s : σ} (hs : trap s) : ¬ Inevitably step p s := by
  intro h
  induction h with
  | now hp => exact hmiss hs hp
  | later hst _ ih => exact ih _ _ hst (hstep hs hst)

end Lib
