import Mathlib

/-! # Runs of a labelled transition system

A run keeps the transitions it went through, so that a property may speak of every state reached, of
every label taken and of what a step did. -/

namespace Lib
open List

variable {σ α : Type}

structure Transition (σ α : Type) where
  pre : σ
  label : α
  post : σ

inductive Run (step : σ → α → σ → Prop) : σ → List (Transition σ α) → σ → Prop where
  | nil (s : σ) : Run step s [] s
  | cons {s t u : σ} {a : α} {trace : List (Transition σ α)} :
    step s a t → Run step t trace u → Run step s (⟨s, a, t⟩ :: trace) u

/-- The run of a deterministic system along a list of labels. -/
def traceOf (next : σ → α → σ) : σ → List α → List (Transition σ α)
  | _, [] => []
  | s, a :: labels => ⟨s, a, next s a⟩ :: traceOf next (next s a) labels

theorem run_traceOf (next : σ → α → σ) (s : σ) (labels : List α) :
    Run (fun s a t => t = next s a) s (traceOf next s labels) (labels.foldl next s) := by
  induction labels generalizing s with
  | nil => exact .nil s
  | cons a labels ih => exact .cons rfl (ih (next s a))

variable {step : σ → α → σ → Prop} {s u : σ} {trace : List (Transition σ α)}

theorem run_of_traceOf {next : σ → α → σ} {labels : List α}
    (h : ∀ x ∈ traceOf next s labels, step x.pre x.label x.post) :
    Run step s (traceOf next s labels) (labels.foldl next s) := by
  induction labels generalizing s with
  | nil => exact .nil s
  | cons a labels ih =>
    exact .cons (h _ mem_cons_self) (ih fun x hx => h x (mem_cons_of_mem _ hx))

/-- The transitions of a partial step function, up to the first label it refuses. -/
def stepsOf (step : σ → α → Option σ) : σ → List α → List (Transition σ α)
  | _, [] => []
  | s, a :: labels =>
    match step s a with
    | some t => ⟨s, a, t⟩ :: stepsOf step t labels
    | none => []

theorem run_stepsOf {step : σ → α → Option σ} {t : σ} {labels : List α}
    (h : labels.foldlM step s = some t) :
    Run (fun s a t => step s a = some t) s (stepsOf step s labels) t := by
  induction labels generalizing s with
  | nil =>
    obtain rfl := Option.some.inj h
    exact .nil s
  | cons a labels ih =>
    obtain ⟨u, hu, hrest⟩ := Option.bind_eq_some_iff.mp h
    unfold stepsOf
    rw [hu]
    exact .cons hu (ih hrest)

/-- **Invariants along a conditioned run.** The invariant holds at the end and on both sides of every
transition taken. -/
theorem Run.invariant (inv : σ → Prop) (ok : σ → α → Prop)
    (hstep : ∀ {s a t}, inv s → ok s a → step s a t → inv t) (h : Run step s trace u) (hs : inv s)
    (hok : ∀ x ∈ trace, ok x.pre x.label) :
    inv u ∧ ∀ x ∈ trace, inv x.pre ∧ step x.pre x.label x.post ∧ inv x.post := by
  induction h with
  | nil s => exact ⟨hs, by simp⟩
  | cons hst _ ih =>
    have ht := hstep hs (hok _ mem_cons_self) hst
    obtain ⟨hu, hall⟩ := ih ht fun x hx => hok x (mem_cons_of_mem _ hx)
    refine ⟨hu, fun x hx => ?_⟩
    rcases mem_cons.mp hx with rfl | hx
    · exact ⟨hs, hst, ht⟩
    · exact hall x hx

theorem Run.append {t : σ} {before after : List (Transition σ α)}
    (h : Run step s before t) (h' : Run step t after u) : Run step s (before ++ after) u := by
  induction h with
  | nil s => exact h'
  | cons hst _ ih => exact .cons hst (ih h')

/-- A run up to one of its transitions, that transition, and the run from there. -/
theorem Run.split {before after : List (Transition σ α)}
    {x : Transition σ α} (h : Run step s (before ++ x :: after) u) :
    Run step s before x.pre ∧ step x.pre x.label x.post ∧ Run step x.post after u := by
  induction before generalizing s with
  | nil =>
    cases h with
    | cons hst hrest => exact ⟨.nil _, hst, hrest⟩
  | cons y before ih =>
    cases h with
    | cons hst hrest =>
      obtain ⟨hbefore, hx, hafter⟩ := ih hrest
      exact ⟨.cons hst hbefore, hx, hafter⟩

/-- What holds at the end of a run and not at its start began to hold in one of its steps. -/
theorem Run.exists_begin (p : σ → Prop) (h : Run step s trace u) (hs : ¬ p s) (hu : p u) :
    ∃ before x after, trace = before ++ x :: after ∧ Run step s before x.pre ∧
      step x.pre x.label x.post ∧ ¬ p x.pre ∧ p x.post := by
  induction h with
  | nil s => exact absurd hu hs
  | @cons s t u a trace hst hrest ih =>
    by_cases ht : p t
    · exact ⟨[], ⟨s, a, t⟩, trace, rfl, .nil s, hst, hs, ht⟩
    · obtain ⟨before, x, after, rfl, hbefore, hx⟩ := ih ht hu
      exact ⟨⟨s, a, t⟩ :: before, x, after, rfl, .cons hst hbefore, hx⟩

/-- **Exact conditions.** Where a step from inside the invariant does as it should exactly under `ok`,
and then stays inside, all steps of a run do so exactly when each meets `ok`. -/
theorem Run.forall_iff (inv : σ → Prop) (ok : σ → α → Prop) (should : σ → α → σ → Prop)
    (hstep : ∀ {s a t}, inv s → step s a t → (should s a t ↔ ok s a))
    (hinv : ∀ {s a t}, inv s → step s a t → should s a t → inv t) (h : Run step s trace u) (hs : inv s) :
    (∀ x ∈ trace, should x.pre x.label x.post) ↔ ∀ x ∈ trace, ok x.pre x.label := by
  induction h with
  | nil s => simp
  | cons hst _ ih =>
    simp only [forall_mem_cons]
    constructor
    · rintro ⟨hfirst, hrest⟩
      exact ⟨(hstep hs hst).mp hfirst, (ih (hinv hs hst hfirst)).mp hrest⟩
    · rintro ⟨hok, hrest⟩
      have hfirst := (hstep hs hst).mpr hok
      exact ⟨hfirst, (ih (hinv hs hst hfirst)).mpr hrest⟩

/-- Where a step from inside the invariant stays inside exactly under `ok`, a run stays inside exactly
when each of its steps meets `ok`. -/
theorem Run.invariant_iff (inv : σ → Prop) (ok : σ → α → Prop)
    (hstep : ∀ {s a t}, inv s → step s a t → (inv t ↔ ok s a)) (h : Run step s trace u) (hs : inv s) :
    (∀ x ∈ trace, inv x.post) ↔ ∀ x ∈ trace, ok x.pre x.label :=
  Run.forall_iff inv ok (fun _ _ t => inv t) hstep (fun _ _ ht => ht) h hs

/-- **What was done leaves its mark.** Where steps keep the mark of what was done, and only what comes
after it is done where the mark is, a run does things in that order. -/
theorem Run.pairwise {κ : Type} (inv : σ → Prop) (ok : σ → α → Prop)
    (hstep : ∀ {s a t}, inv s → ok s a → step s a t → inv t)
    (does : κ → σ → α → Prop) (mark : κ → σ → Prop) (before : κ → κ → Prop)
    (hmarks : ∀ {k s a t}, inv s → step s a t → does k s a → mark k t)
    (hkeeps : ∀ {k s a t}, ok s a → step s a t → mark k s → mark k t)
    (hafter : ∀ {k l s a}, inv s → ok s a → mark k s → does l s a → before k l)
    (h : Run step s trace u) (hs : inv s) (hok : ∀ x ∈ trace, ok x.pre x.label) :
    trace.Pairwise fun x y => ∀ k l, does k x.pre x.label → does l y.pre y.label → before k l := by
  have hmarked : ∀ {k s u} {trace : List (Transition σ α)}, Run step s trace u → mark k s →
      (∀ x ∈ trace, ok x.pre x.label) → ∀ y ∈ trace, mark k y.pre := by
    intro k s u trace h hmark hok
    induction h with
    | nil s => simp
    | cons hst _ ih =>
      rw [forall_mem_cons] at hok ⊢
      exact ⟨hmark, ih (hkeeps hok.1 hst hmark) hok.2⟩
  induction h with
  | nil s => exact .nil
  | @cons s t u a trace hst hrest ih =>
    have hok' : ∀ x ∈ trace, ok x.pre x.label := fun x hx => hok x (mem_cons_of_mem _ hx)
    have ht := hstep hs (hok _ mem_cons_self) hst
    refine .cons (fun y hy k l hdoes => ?_) (ih ht hok')
    have hy' := (Run.invariant inv ok hstep hrest ht hok').2 y hy
    exact hafter hy'.1 (hok' y hy) (hmarked hrest (hmarks hs hst hdoes) hok' y hy)

end Lib
