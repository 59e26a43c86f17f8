import Mathlib

/-! # Fallible programs over a state that others can observe

A program runs from a state to a value or an error and records every state it passes through, so a
safety property can be asked of the middle of a run and not of its end alone. -/

namespace Lib

variable {σ ε α β : Type}

structure Outcome (σ ε α : Type) where
  value : Except ε α
  visited : List σ
  final : σ

def Exec (σ ε α : Type) := σ → Outcome σ ε α

namespace Exec

def ret (a : α) : Exec σ ε α := fun s => ⟨.ok a, [], s⟩

def seq (m : Exec σ ε α) (f : α → Exec σ ε β) : Exec σ ε β := fun s =>
  match (m s).value with
  | .error e => ⟨.error e, (m s).visited, (m s).final⟩
  | .ok a => ⟨(f a (m s).final).value, (m s).visited ++ (f a (m s).final).visited,
      (f a (m s).final).final⟩

instance : Monad (Exec σ ε) where
  pure := ret
  bind := seq

def fail (e : ε) : Exec σ ε α := fun s => ⟨.error e, [], s⟩

def get : Exec σ ε σ := fun s => ⟨.ok s, [], s⟩

def modify (f : σ → σ) : Exec σ ε Unit := fun s => ⟨.ok (), [f s], f s⟩

/-- Runs `m`; on an error `e`, runs `handler e` from where `m` stopped. -/
def recover (m : Exec σ ε α) (handler : ε → Exec σ ε α) : Exec σ ε α := fun s =>
  match (m s).value with
  | .ok _ => m s
  | .error e => ⟨(handler e (m s).final).value, (m s).visited ++ (handler e (m s).final).visited,
      (handler e (m s).final).final⟩

end Exec

/-- `I` throughout, and `Q` on return. -/
def Always (I P : σ → Prop) (m : Exec σ ε α) (Q : α → σ → Prop) : Prop :=
  ∀ s, I s → P s → (∀ v ∈ (m s).visited, I v) ∧ I (m s).final ∧
    ∀ a, (m s).value = .ok a → Q a (m s).final

namespace Always

variable {I P : σ → Prop} {m : Exec σ ε α} {f : α → Exec σ ε β} {Q : α → σ → Prop}
  {R : β → σ → Prop}

theorem pure {a : α} (h : ∀ s, I s → P s → Q a s) : Always I P (Pure.pure a : Exec σ ε α) Q := by
  intro s hI hP
  refine ⟨by simp [Pure.pure, Exec.ret], hI, ?_⟩
  rintro b ⟨⟩
  exact h s hI hP

theorem fail {e : ε} : Always I P (Exec.fail e : Exec σ ε α) Q :=
  fun _ hI _ => ⟨by simp [Exec.fail], hI, by simp [Exec.fail]⟩

theorem get {Q : σ → σ → Prop} (h : ∀ s, I s → P s → Q s s) :
    Always I P (Exec.get : Exec σ ε σ) Q := by
  intro s hI hP
  refine ⟨by simp [Exec.get], hI, ?_⟩
  rintro t ⟨⟩
  exact h s hI hP

theorem modify {g : σ → σ} {Q : Unit → σ → Prop} (h : ∀ s, I s → P s → I (g s) ∧ Q () (g s)) :
    Always I P (Exec.modify g : Exec σ ε Unit) Q := by
  intro s hI hP
  obtain ⟨hI', hQ⟩ := h s hI hP
  exact ⟨by simpa [Exec.modify] using hI', hI', fun _ _ => hQ⟩

theorem bind (hm : Always I P m Q) (hf : ∀ a, Always I (Q a) (f a) R) : Always I P (m >>= f) R := by
  intro s hI hP
  obtain ⟨hvisited, hfinal, hQ⟩ := hm s hI hP
  show (∀ v ∈ (Exec.seq m f s).visited, I v) ∧ I (Exec.seq m f s).final ∧
    ∀ b, (Exec.seq m f s).value = .ok b → R b (Exec.seq m f s).final
  unfold Exec.seq
  split
  · exact ⟨hvisited, hfinal, by simp⟩
  · next a ha =>
    obtain ⟨hvisited', hfinal', hR⟩ := hf a _ hfinal (hQ a ha)
    refine ⟨fun v hv => ?_, hfinal', hR⟩
    exact (List.mem_append.mp hv).elim (hvisited v) (hvisited' v)

/-- Recovery starts from a state with `I` only: an error says nothing more. -/
theorem recover {handler : ε → Exec σ ε α} (hm : Always I P m Q)
    (hh : ∀ e, Always I (fun _ => True) (handler e) Q) : Always I P (m.recover handler) Q := by
  intro s hI hP
  obtain ⟨hvisited, hfinal, hQ⟩ := hm s hI hP
  unfold Exec.recover
  split
  · exact ⟨hvisited, hfinal, hQ⟩
  · next e _ =>
    obtain ⟨hvisited', hfinal', hR⟩ := hh e _ hfinal trivial
    refine ⟨fun v hv => ?_, hfinal', hR⟩
    exact (List.mem_append.mp hv).elim (hvisited v) (hvisited' v)

/-- Weakens both ends, and trades the invariant for one the precondition establishes. -/
theorem weaken {J P' : σ → Prop} {Q' : α → σ → Prop} (hm : Always J P' m Q')
    (hpre : ∀ s, I s → P s → J s ∧ P' s) (hinv : ∀ s, J s → I s)
    (hpost : ∀ a s, J s → Q' a s → Q a s) : Always I P m Q := by
  intro s hI hP
  obtain ⟨hJ, hP'⟩ := hpre s hI hP
  obtain ⟨hvisited, hfinal, hQ⟩ := hm s hJ hP'
  exact ⟨fun v hv => hinv v (hvisited v hv), hinv _ hfinal,
    fun a ha => hpost a _ hfinal (hQ a ha)⟩

theorem ite {c : Prop} [Decidable c] {m' : Exec σ ε α} (hm : c → Always I P m Q)
    (hm' : ¬c → Always I P m' Q) : Always I P (if c then m else m') Q := by
  split
  · next hc => exact hm hc
  · next hc => exact hm' hc

end Always

/-! ## Programs that return -/

/-- From `s` the program returns `a` and leaves `t`. -/
def Returns (m : Exec σ ε α) (s : σ) (a : α) (t : σ) : Prop :=
  (m s).value = .ok a ∧ (m s).final = t

namespace Returns

variable {m : Exec σ ε α} {f : α → Exec σ ε β} {s t u : σ} {a : α} {b : β}

theorem pure (a : α) (s : σ) : Returns (Pure.pure a : Exec σ ε α) s a s := ⟨rfl, rfl⟩

theorem get (s : σ) : Returns (Exec.get : Exec σ ε σ) s s s := ⟨rfl, rfl⟩

theorem modify (g : σ → σ) (s : σ) : Returns (Exec.modify g : Exec σ ε Unit) s () (g s) :=
  ⟨rfl, rfl⟩

theorem bind (hm : Returns m s a t) (hf : Returns (f a) t b u) : Returns (m >>= f) s b u := by
  obtain ⟨hvalue, hfinal⟩ := hm
  show (Exec.seq m f s).value = .ok b ∧ (Exec.seq m f s).final = u
  unfold Exec.seq
  rw [hvalue, hfinal]
  exact hf

theorem recover {handler : ε → Exec σ ε α} (hm : Returns m s a t) :
    Returns (m.recover handler) s a t := by
  unfold Returns Exec.recover
  rw [hm.1]
  exact hm

end Returns

end Lib
