import VibeSsh.Ai.Sanitizer

/-! # The passes over free text

What each pass of `sanitize_text` takes out of a text, and what it leaves. -/

namespace VibeSsh.Ai

open Lib List

/-! ## Key blocks -/

/-- The first place a marker stands at. -/
structure First (marker text before after : Text) : Prop where
  eq : text = before ++ (marker ++ after)
  least : ∀ {before' after' : Text}, text = before' ++ (marker ++ after') →
    before.length ≤ before'.length

section

variable {marker text before before' after after' : Text}

theorem First.unique (h : First marker text before after) (h' : First marker text before' after') :
    before = before' ∧ after = after' := by
  have hlength := le_antisymm (h.least h'.eq) (h'.least h.eq)
  obtain ⟨hbefore, hrest⟩ := append_inj (h.eq.symm.trans h'.eq) hlength
  exact ⟨hbefore, append_cancel_left hrest⟩

end

/-- What is kept before each block with the block, and what is kept behind the last one. -/
abbrev Cuts := List (Text × Text) × Text

def render (cuts : Cuts) : Text := cuts.1.flatMap (fun cut => cut.1 ++ redacted) ++ cuts.2

/-- An END marker with its label, and the dashes that close it on the same line. -/
def Whole (after body label rest : Text) : Prop :=
  ∃ tail, after = body ++ ("-----END" ++ tail) ∧ First "-----" tail label rest ∧ '\n' ∉ label

/-- A block goes on to the first whole END marker. -/
def Closes (after block rest : Text) : Prop :=
  ∃ body label, block = body ++ ("-----END" ++ (label ++ "-----")) ∧ Whole after body label rest ∧
    ∀ {body' label' rest' : Text}, Whole after body' label' rest' → body.length ≤ body'.length

section

variable {after body body' tail tail' label label' rest rest' : Text}

end

end VibeSsh.Ai
