import VibeSsh.Models

/-! # Names of containers

The container of an application and the name the others on its networks know it by:
`naming::dns_label`, `runtime::docker::{container_name, network_alias}` and the check every
container reference passes. -/

namespace VibeSsh.Docker

open Lib List

def containerName (id : Uuid) : Text := "vibessh-app-" ++ id.display

def isRefChar (c : Char) : Bool := c.isAlphanum || c == '_' || c == '.' || c == '-'

def validateContainerRef (name : Text) : AppResult Unit :=
  let startsOk := name.head?.any Char.isAlphanum
  let charsOk := name.all isRefChar
  if !startsOk || !charsOk || 128 < name.length then
    .error (.invalidInput ("'" ++ name ++
      "' isn't a valid Docker container name or ID"))
  else .ok ()

def maxLabelLength : Nat := 63

def labelStep (s : Text × Bool) (c : Char) : Text × Bool :=
  if maxLabelLength ≤ s.1.length then s
  else if c.isAlphanum then (s.1 ++ [c], false)
  else if !s.2 && !s.1.isEmpty then (s.1 ++ ['-'], true)
  else s

/-- `naming::dns_label`: none if nothing of the input is usable. -/
def dnsLabel (lower : Text.Lowercase) (input : Text) : Option Text :=
  let result := ((input.flatMap lower.map).foldl labelStep ([], false)).1
  let result := Text.trimEndMatches '-' result
  if result.isEmpty then none else some result

def networkAlias (lower : Text.Lowercase) (application : Application) : Text :=
  (dnsLabel lower application.name).getD (containerName application.id)

theorem length_display (id : Uuid) : id.display.length = 36 := by
  simp [Uuid.display, Text.join, List.intercalate, List.intersperse, id.wf.1]

theorem display_chars {id : Uuid} {c : Char} (hc : c ∈ id.display) :
    c = '-' ∨ c.isDigit = true ∨ ('a' ≤ c ∧ c ≤ 'f') := by
  unfold Uuid.display at hc
  rcases Text.mem_join hc with hdash | ⟨part, hpart, hc⟩
  · exact .inl (mem_singleton.mp hdash)
  · have hid : c ∈ id.simple := by
      simp only [mem_cons, not_mem_nil, or_false] at hpart
      rcases hpart with rfl | rfl | rfl | rfl | rfl
      · exact mem_of_mem_take hc
      iterate 3 exact mem_of_mem_drop (mem_of_mem_take hc)
      exact mem_of_mem_drop hc
    have hhex := all_eq_true.mp id.wf.2 c hid
    simp only [Bool.or_eq_true, Bool.and_eq_true, decide_eq_true_eq] at hhex
    exact .inr hhex

theorem isRefChar_of_mem_display {id : Uuid} {c : Char} (hc : c ∈ id.display) :
    isRefChar c = true := by
  rcases display_chars hc with rfl | hdigit | ⟨hlo, hhi⟩
  · decide
  · simp [isRefChar, Char.isAlphanum, hdigit]
  · have hlower : c.isLower = true := by
      simp only [Char.isLower, Bool.and_eq_true, decide_eq_true_eq]
      exact ⟨hlo, le_trans hhi (by decide)⟩
    simp [isRefChar, Char.isAlphanum, Char.isAlpha, hlower]

/-- The name of a container is always a valid reference to it. -/
theorem validateContainerRef_containerName (id : Uuid) :
    validateContainerRef (containerName id) = .ok () := by
  have hstart : ("vibessh-app-".toList).all isRefChar = true := by decide
  have hchars : (containerName id).all isRefChar = true := by
    unfold containerName
    rw [all_append, hstart, Bool.true_and, all_eq_true]
    exact fun c hc => isRefChar_of_mem_display hc
  have hlength : ¬ 128 < (containerName id).length := by
    unfold containerName
    rw [length_append, length_display]
    decide
  have hhead : (containerName id).head?.any Char.isAlphanum = true := rfl
  unfold validateContainerRef
  dsimp only
  rw [hhead, hchars]
  simp [hlength]

end VibeSsh.Docker
