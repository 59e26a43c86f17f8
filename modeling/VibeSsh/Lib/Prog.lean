import VibeSsh.Lib.Run

/-! # Programs of atomic statements

A program runs one statement at a time against a state it shares with others, and may end with an
error between two of them. Alone it runs to its end (`exec`). Among others, any of their statements
may come between two of its own: `Keeps` asks of each of its statements to keep an invariant from
every state with it. -/

namespace Lib

inductive Prog (σ ε α : Type) where
  | ret (a : α)
  | fail (e : ε)
  | stmt (run : σ → σ) (next : σ → Prog σ ε α)

namespace Prog

variable {σ ε α β : Type}

protected def bind : Prog σ ε α → (α → Prog σ ε β) → Prog σ ε β
  | .ret a, f => f a
  | .fail e, _ => .fail e
  | .stmt run next, f => .stmt run fun s => (next s).bind f

instance : Monad (Prog σ ε) where
  pure := .ret
  bind := .bind

def select (f : σ → α) : Prog σ ε α := .stmt id fun s => .ret (f s)

/-- A transaction, seen at the moment it commits or is refused. -/
def transact (f : σ → Except ε (σ × α)) : Prog σ ε α :=
  .stmt (fun s => match f s with
      | .ok (t, _) => t
      | .error _ => s)
    fun s => match f s with
      | .ok (_, a) => .ret a
      | .error e => .fail e

def ofExcept : Except ε α → Prog σ ε α
  | .ok a => .ret a
  | .error e => .fail e

def require (c : Bool) (e : ε) : Prog σ ε Unit := if c then .ret () else .fail e

/-! ## Running alone -/

def exec : Prog σ ε α → σ → Except ε α × σ
  | .ret a, s => (.ok a, s)
  | .fail e, s => (.error e, s)
  | .stmt run next, s => (next s).exec (run s)

theorem exec_bind (p : Prog σ ε α) (f : α → Prog σ ε β) (s : σ) :
    (p >>= f).exec s = match p.exec s with
      | (.ok a, t) => (f a).exec t
      | (.error e, t) => (.error e, t) := by
  change (p.bind f).exec s = _
  induction p generalizing s with
  | ret a => rfl
  | fail e => rfl
  | stmt run next ih => exact ih s (run s)

/-! ## Running among others -/

/-- Every statement keeps the invariant, and what the program returns satisfies `Q`. -/
def Keeps (inv : σ → Prop) (Q : α → Prop) : Prog σ ε α → Prop
  | .ret a => Q a
  | .fail _ => True
  | .stmt run next => ∀ s, inv s → inv (run s) ∧ (next s).Keeps inv Q

variable {f : α → Prog σ ε β}

namespace Keeps

variable {inv : σ → Prop} {Q : α → Prop} {R : β → Prop}

theorem bind {p : Prog σ ε α} (hp : p.Keeps inv Q)
    (hf : ∀ a, Q a → (f a).Keeps inv R) : (p >>= f).Keeps inv R := by
  change (p.bind f).Keeps inv R
  induction p with
  | ret a => exact hf a hp
  | fail e => trivial
  | stmt run next ih =>
    intro s hs
    exact ⟨(hp s hs).1, ih s (hp s hs).2⟩

theorem pure {a : α} (h : Q a) : (Pure.pure a : Prog σ ε α).Keeps inv Q := h

theorem fail {e : ε} : (.fail e : Prog σ ε α).Keeps inv Q := trivial

theorem select {f : σ → α} (h : ∀ s, inv s → Q (f s)) : (select f : Prog σ ε α).Keeps inv Q :=
  fun s hs => ⟨hs, h s hs⟩

theorem require {c : Bool} {e : ε} {Q : Unit → Prop} (h : c = true → Q ()) :
    (require c e : Prog σ ε Unit).Keeps inv Q := by
  unfold Prog.require
  split
  · next hc => exact h hc
  · trivial

theorem ofExcept {r : Except ε α} (h : ∀ a, r = .ok a → Q a) :
    (ofExcept r : Prog σ ε α).Keeps inv Q := by
  cases r with
  | ok a => exact h a rfl
  | error e => trivial

theorem transact {f : σ → Except ε (σ × α)} (h : ∀ s t a, inv s → f s = .ok (t, a) → inv t ∧ Q a) :
    (transact f : Prog σ ε α).Keeps inv Q := by
  intro s hs
  match hf : f s with
  | .ok (t, a) =>
    simp only [hf]
    exact h s t a hs hf
  | .error e =>
    simp only [hf]
    exact ⟨hs, trivial⟩

theorem exec {p : Prog σ ε α} (hp : p.Keeps inv Q) {s : σ} (hs : inv s) : inv (p.exec s).2 := by
  induction p generalizing s with
  | ret a => exact hs
  | fail e => exact hs
  | stmt run next ih => exact ih s (hp s hs).2 (hp s hs).1

end Keeps

/-- Whatever holds stays: no statement writes. -/
def Reads (p : Prog σ ε α) : Prop := ∀ inv : σ → Prop, p.Keeps inv fun _ => True

theorem reads_ret (a : α) : (Pure.pure a : Prog σ ε α).Reads := fun _ => trivial

theorem reads_fail (e : ε) : (.fail e : Prog σ ε α).Reads := fun _ => trivial

theorem reads_select (f : σ → α) : (select f : Prog σ ε α).Reads := fun _ => .select fun _ _ => trivial

theorem reads_require (c : Bool) (e : ε) : (require c e : Prog σ ε Unit).Reads :=
  fun _ => .require fun _ => trivial

theorem reads_ofExcept (r : Except ε α) : (ofExcept r : Prog σ ε α).Reads :=
  fun _ => .ofExcept fun _ _ => trivial

variable {p : Prog σ ε α} {s t : σ}

theorem Reads.bind (hp : p.Reads) (hf : ∀ a, (f a).Reads) : (p >>= f).Reads :=
  fun inv => (hp inv).bind fun a _ => hf a inv

theorem Reads.exec (hp : p.Reads) (s : σ) : (p.exec s).2 = s := (hp (· = s)).exec rfl

theorem Keeps.read {inv : σ → Prop} {R : β → Prop} (hp : p.Reads)
    (hf : ∀ a, (f a).Keeps inv R) : (p >>= f).Keeps inv R :=
  (hp inv).bind fun a _ => hf a

/-! ## What a program that runs alone changes -/

/-- Running alone from `s` the program leaves another state `t`. -/
def Changes (p : Prog σ ε α) (s t : σ) : Prop := (p.exec s).2 = t ∧ t ≠ s

theorem Reads.not_changes (hp : p.Reads) : ¬p.Changes s t :=
  fun h => h.2 (h.1.symm.trans (hp.exec s))

/-- What reads come first have returned when something changes. -/
theorem Changes.of_bind (hp : p.Reads)
    (h : (p >>= f).Changes s t) : ∃ a, (p.exec s).1 = .ok a ∧ (f a).Changes s t := by
  obtain ⟨ht, hne⟩ := h
  have hs := hp.exec s
  rw [exec_bind] at ht
  match hexec : p.exec s with
  | (.ok a, u) =>
    rw [hexec] at ht hs
    obtain rfl : u = s := hs
    exact ⟨a, rfl, ht, hne⟩
  | (.error e, u) =>
    rw [hexec] at ht hs
    exact absurd (ht.symm.trans hs) hne

variable {g : α → Prog σ ε β}

theorem Changes.of_select {f : σ → α} (h : (select f >>= g).Changes s t) :
    (g (f s)).Changes s t := by
  obtain ⟨a, ha, h⟩ := h.of_bind (reads_select f)
  obtain rfl : f s = a := Except.ok.inj ha
  exact h

theorem Changes.of_require {c : Bool} {e : ε} {g : Unit → Prog σ ε β}
    (h : (require c e >>= g).Changes s t) : c = true ∧ (g ()).Changes s t := by
  obtain ⟨⟨⟩, ha, h⟩ := h.of_bind (reads_require c e)
  refine ⟨?_, h⟩
  by_contra hc
  rw [require, if_neg hc] at ha
  cases ha

theorem Changes.of_transact {f : σ → Except ε (σ × α)}
    (h : (transact f).Changes s t) : ∃ a, f s = .ok (t, a) := by
  obtain ⟨ht, hne⟩ := h
  match hf : f s with
  | .ok (u, a) =>
    simp only [transact, exec, hf] at ht
    exact ⟨a, by rw [ht]⟩
  | .error e =>
    simp only [transact, exec, hf] at ht
    exact absurd ht.symm hne

/-- A transaction with only reads after it. -/
theorem Changes.of_transact_bind {f : σ → Except ε (σ × α)} (hg : ∀ a, (g a).Reads)
    (h : (transact f >>= g).Changes s t) : ∃ a, f s = .ok (t, a) := by
  obtain ⟨ht, hne⟩ := h
  rw [exec_bind] at ht
  match hf : f s with
  | .ok (u, a) =>
    simp only [transact, exec, hf] at ht
    exact ⟨a, by rw [← ht, (hg a).exec u]⟩
  | .error e =>
    simp only [transact, exec, hf] at ht
    exact absurd ht.symm hne

/-- A program whose value is dropped. -/
theorem Changes.of_drop (h : (p >>= fun _ => Pure.pure ()).Changes s t) : p.Changes s t := by
  obtain ⟨ht, hne⟩ := h
  rw [exec_bind] at ht
  refine ⟨?_, hne⟩
  match hexec : p.exec s with
  | (.ok a, u) =>
    rw [hexec] at ht
    exact ht
  | (.error e, u) =>
    rw [hexec] at ht
    exact ht

/-- One statement of a program: the state it leaves and what remains to be run. -/
def advance : Prog σ ε α → σ → σ × Prog σ ε α
  | .stmt run next, s => (run s, next s)
  | p, s => (s, p)

theorem Keeps.advance {inv : σ → Prop} {Q : α → Prop} (hp : p.Keeps inv Q)
    (hs : inv s) : inv (p.advance s).1 ∧ (p.advance s).2.Keeps inv Q := by
  cases p with
  | ret a => exact ⟨hs, hp⟩
  | fail e => exact ⟨hs, hp⟩
  | stmt run next => exact hp s hs

end Prog

end Lib
