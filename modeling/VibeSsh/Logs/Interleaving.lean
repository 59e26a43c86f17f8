import VibeSsh.Logs.History

/-! # Polls that overlap

Several `application_logs` calls at once, at the granularity of their awaits: the window is fetched,
the end of the history is read and compared with it, the new lines are written under the lock of the
application, and the file is compacted before the lock is released. Only the writing is locked, so a
call may act on a history that another has changed since. -/

open List

namespace VibeSsh.Logs

open Lib

/-- What every application has written, and what is stored of it. -/
structure Store where
  output : Uuid → List Text
  file : Uuid → Text

/-! ## One call after the other -/

namespace Sequential

inductive Op where
  | emit (application : Uuid) (line : Text)
  | poll (application : Uuid) (maxLines : UInt32)
  deriving DecidableEq

def next (s : Store) : Op → Store
  | .emit application line =>
    { s with output := Function.update s.output application (s.output application ++ [line]) }
  | .poll application maxLines =>
    { s with file := Function.update s.file application (applicationLogs (s.file application) maxLines
        (some (liveWindow (s.output application) maxLines))).2 }

end Sequential

/-! ## Calls at once -/

/-- Where a call is: it has its window, it knows the new lines, or it has written them and holds the
lock. -/
inductive Stage where
  | fetched (liveLines : List Text)
  | merged (newLines : List Text)
  | written
  deriving DecidableEq

structure Running where
  application : Uuid
  maxLines : UInt32
  stage : Stage
  deriving DecidableEq

structure World where
  store : Store
  calls : List Running

inductive Step where
  | emit (application : Uuid) (line : Text)
  | fetch (application : Uuid) (maxLines : UInt32)
  | resume (call : Running)
  deriving DecidableEq

def World.locked (w : World) (application : Uuid) : Bool :=
  w.calls.any fun r => r.application = application ∧ r.stage = .written

def World.setFile (w : World) (application : Uuid) (file : Text) : World :=
  { w with store := { w.store with file := Function.update w.store.file application file } }

/-- A call goes on to its next await. With nothing new it neither locks nor writes; while the lock is
held it waits. -/
def World.resume (w : World) (call : Running) : World :=
  let rest := w.calls.erase call
  match call.stage with
  | .fetched liveLines =>
    let newLines := mergeNewLogLines
      (tail (w.store.file call.application) (anchor call.maxLines)) liveLines
    if newLines.isEmpty then { w with calls := rest }
    else { w with calls := { call with stage := .merged newLines } :: rest }
  | .merged newLines =>
    if w.locked call.application then w
    else { w.setFile call.application (write (w.store.file call.application) newLines) with
      calls := { call with stage := .written } :: rest }
  | .written =>
    { w.setFile call.application (compactIfTooBig (w.store.file call.application)) with calls := rest }

def World.next (w : World) : Step → World
  | .emit application line => { w with store := Sequential.next w.store (.emit application line) }
  | .fetch application maxLines =>
    { w with calls := ⟨application, maxLines,
        .fetched (liveWindow (w.store.output application) maxLines)⟩ :: w.calls }
  | .resume call => if call ∈ w.calls then w.resume call else w

/-- The call a step of the system starts, or the line it writes. -/
def Step.sequential : Step → Option Sequential.Op
  | .emit application line => some (.emit application line)
  | .fetch application maxLines => some (.poll application maxLines)
  | .resume _ => none

/-- A window is fetched only while no other call of the application is between its fetch and the end
of its append. -/
def Exclusive (w : World) : Step → Prop
  | .fetch application _ => ∀ r ∈ w.calls, r.application ≠ application
  | _ => True

instance (w : World) (step : Step) : Decidable (Exclusive w step) :=
  match step with
  | .fetch application _ => inferInstanceAs (Decidable (∀ r ∈ w.calls, r.application ≠ application))
  | .emit _ _ | .resume _ => inferInstanceAs (Decidable True)

/-! ## What a running call will leave -/

/-- The file once the call is done, if no other call interferes. -/
def Running.complete (call : Running) (file : Text) : Text :=
  match call.stage with
  | .fetched liveLines => capture file call.maxLines (some liveLines)
  | .merged newLines => append file newLines
  | .written => compactIfTooBig file

/-- At most one call of an application runs, and one that waits for the lock has something to
write. -/
structure Single (w : World) : Prop where
  apart : (w.calls.map (·.application)).Nodup
  some : ∀ r ∈ w.calls, ∀ newLines, r.stage = .merged newLines → newLines ≠ []

/-- What is stored with every running call completed. -/
def World.settled (w : World) : Store where
  output := w.store.output
  file application :=
    match w.calls.find? (·.application = application) with
    | some call => call.complete (w.store.file application)
    | none => w.store.file application

variable {w : World} {call : Running} {application : Uuid}

theorem find?_call (h : Single w) (hmem : call ∈ w.calls) :
    w.calls.find? (·.application = call.application) = some call := by
  obtain ⟨found, hfound⟩ : ∃ found, w.calls.find? (·.application = call.application) = some found :=
    Option.isSome_iff_exists.mp (List.find?_isSome.mpr ⟨call, hmem, by simp⟩)
  have happlication : found.application = call.application := by simpa using List.find?_some hfound
  rw [hfound, inj_on_of_nodup_map h.apart (mem_of_find?_eq_some hfound) hmem happlication]

theorem settled_call (h : Single w) (hmem : call ∈ w.calls) :
    w.settled.file call.application = call.complete (w.store.file call.application) := by
  unfold World.settled
  dsimp only
  rw [find?_call h hmem]

theorem settled_idle (h : ∀ r ∈ w.calls, r.application ≠ application) :
    w.settled.file application = w.store.file application := by
  have hnone : w.calls.find? (·.application = application) = none :=
    List.find?_eq_none.mpr fun r hr => by simpa using h r hr
  unfold World.settled
  dsimp only
  rw [hnone]

/-- What an application will have stored depends on its own call and file only. -/
theorem settled_congr {w' : World} (h : Single w) (h' : Single w')
    (hcalls : ∀ r : Running, r.application = application → (r ∈ w'.calls ↔ r ∈ w.calls))
    (hfile : w'.store.file application = w.store.file application) :
    w'.settled.file application = w.settled.file application := by
  by_cases hcall : ∃ r ∈ w.calls, r.application = application
  · obtain ⟨r, hr, rfl⟩ := hcall
    rw [settled_call h hr, settled_call h' ((hcalls r rfl).mpr hr), hfile]
  · have hidle : ∀ r ∈ w.calls, r.application ≠ application := fun r hr heq => hcall ⟨r, hr, heq⟩
    have hidle' : ∀ r ∈ w'.calls, r.application ≠ application := fun r hr heq =>
      hidle r ((hcalls r heq).mp hr) heq
    rw [settled_idle hidle, settled_idle hidle', hfile]

/-! ## One step -/

/-- A call's last await, or a new stage in the place of its old one. -/
theorem Single.erase (h : Single w) (call : Running) (store : Store) :
    Single ⟨store, w.calls.erase call⟩ :=
  ⟨h.apart.sublist (erase_sublist.map _), fun r hr => h.some r (mem_of_mem_erase hr)⟩

theorem Single.replace (h : Single w) (hmem : call ∈ w.calls)
    (store : Store) {stage : Stage} (hstage : ∀ newLines, stage = .merged newLines → newLines ≠ []) :
    Single ⟨store, { call with stage := stage } :: w.calls.erase call⟩ := by
  refine ⟨?_, fun r hr => ?_⟩
  · have hperm := (perm_cons_erase hmem).map (·.application)
    exact hperm.nodup_iff.mp h.apart
  · rcases mem_cons.mp hr with rfl | hr
    · exact hstage
    · exact h.some r (mem_of_mem_erase hr)

theorem idle_of_erase (h : Single w) (hmem : call ∈ w.calls) :
    ∀ r ∈ w.calls.erase call, r.application ≠ call.application := by
  have hperm := (perm_cons_erase hmem).map (·.application)
  have hnodup := hperm.nodup_iff.mp h.apart
  rw [map_cons, nodup_cons] at hnodup
  exact fun r hr heq => hnodup.1 (mem_map.mpr ⟨r, hr, heq⟩)

theorem mem_erase_other {r : Running} (h : r.application ≠ call.application) :
    r ∈ w.calls.erase call ↔ r ∈ w.calls :=
  mem_erase_of_ne fun heq => h (heq ▸ rfl)

section

variable (h : Single w)
include h

theorem single_resume (hmem : call ∈ w.calls) : Single (w.resume call) := by
  unfold World.resume
  dsimp only
  split
  · split
    · exact h.erase call _
    next hsome =>
      refine h.replace hmem _ fun newLines heq => ?_
      cases heq
      simpa using hsome
  · split
    · exact h
    · exact h.replace hmem _ fun newLines heq => by cases heq
  · exact h.erase call _

/-- The file of the resumed call's application will be what it would have been. -/
theorem settled_resume_self (hmem : call ∈ w.calls) :
    (w.resume call).settled.file call.application = w.settled.file call.application := by
  have hsingle := single_resume h hmem
  have hidle := idle_of_erase h hmem
  rw [settled_call h hmem]
  unfold World.resume Running.complete at *
  dsimp only at *
  cases hstage : call.stage with
  | fetched liveLines =>
    rw [hstage] at hsingle
    dsimp only at hsingle ⊢
    split at hsingle
    next hnone =>
      rw [if_pos hnone, settled_idle hidle, capture, append, if_pos hnone]
    next hsome =>
      rw [if_neg hsome]
      exact settled_call hsingle mem_cons_self
  | merged newLines =>
    rw [hstage] at hsingle
    dsimp only at hsingle ⊢
    split at hsingle
    next hlocked =>
      rw [if_pos hlocked, settled_call h hmem, Running.complete, hstage]
    next hfree =>
      have hne : newLines.isEmpty = false := by simpa using h.some call hmem newLines hstage
      rw [if_neg hfree]
      refine (settled_call hsingle mem_cons_self).trans ?_
      simp [Running.complete, World.setFile, append, hne]
  | written =>
    dsimp only
    rw [settled_idle hidle]
    exact Function.update_self ..

theorem settled_resume_other (hmem : call ∈ w.calls) (hother : application ≠ call.application) :
    (w.resume call).settled.file application = w.settled.file application := by
  refine settled_congr h (single_resume h hmem) (fun r hr => ?_) ?_
  · have hr' : r.application ≠ call.application := hr ▸ hother
    have hreplaced : ∀ stage, r ≠ { call with stage := stage } := fun stage heq =>
      hr' (by rw [heq])
    unfold World.resume
    dsimp only
    split
    · split
      · exact mem_erase_other hr'
      · rw [mem_cons, mem_erase_other hr']
        exact or_iff_right (hreplaced _)
    · split
      · exact Iff.rfl
      · rw [mem_cons, mem_erase_other hr']
        exact or_iff_right (hreplaced _)
    · exact mem_erase_other hr'
  · unfold World.resume
    dsimp only
    split
    · split <;> rfl
    · split
      · rfl
      · exact Function.update_of_ne hother ..
    · exact Function.update_of_ne hother ..

theorem settled_resume (hmem : call ∈ w.calls) : (w.resume call).settled = w.settled := by
  have hout : (w.resume call).settled.output = w.settled.output := by
    unfold World.resume World.settled
    dsimp only
    split
    · split <;> rfl
    · split <;> rfl
    · rfl
  have hfile : (w.resume call).settled.file = w.settled.file := by
    funext application
    by_cases happ : application = call.application
    · subst happ
      exact settled_resume_self h hmem
    · exact settled_resume_other h hmem happ
  calc (w.resume call).settled
      = ⟨(w.resume call).settled.output, (w.resume call).settled.file⟩ := rfl
    _ = w.settled := by rw [hout, hfile]

theorem single_next {step : Step} (hsafe : Exclusive w step) : Single (w.next step) := by
  cases step with
  | emit application line => exact ⟨h.apart, h.some⟩
  | fetch application maxLines =>
    refine ⟨?_, fun r hr newLines heq => ?_⟩
    · refine nodup_cons.mpr ⟨fun hmem => ?_, h.apart⟩
      obtain ⟨r, hr, heq⟩ := mem_map.mp hmem
      exact hsafe r hr heq
    · rcases mem_cons.mp hr with rfl | hr
      · cases heq
      · exact h.some r hr newLines heq
  | resume call =>
    unfold World.next
    dsimp only
    split
    next hmem => exact single_resume h hmem
    next => exact h

/-- **One step** settles in what the sequential system does with it: a fetch is the whole poll, and
what follows of the call changes nothing any more. -/
theorem settled_next {step : Step} (hsafe : Exclusive w step) :
    (w.next step).settled = (step.sequential.map (Sequential.next w.settled)).getD w.settled := by
  have hsingle := single_next h hsafe
  cases step with
  | emit application line => rfl
  | fetch application maxLines =>
    have hidle : ∀ r ∈ w.calls, r.application ≠ application := hsafe
    have hfile : (w.next (.fetch application maxLines)).settled.file =
        (Sequential.next w.settled (.poll application maxLines)).file := by
      funext other
      by_cases hother : other = application
      · subst hother
        refine (settled_call hsingle mem_cons_self).trans ?_
        unfold Sequential.next
        dsimp only
        rw [Function.update_self, settled_idle hidle]
        rfl
      · unfold Sequential.next
        dsimp only
        rw [Function.update_of_ne hother]
        refine settled_congr h hsingle (fun r hr => ?_) rfl
        refine mem_cons.trans (or_iff_right fun heq => hother ?_)
        rw [← hr, heq]
    exact congrArg (Store.mk w.store.output) hfile
  | resume call =>
    unfold World.next
    dsimp only
    split
    next hmem => exact settled_resume h hmem
    next => rfl

end

/-! ## Every run -/

/-- **Polls that do not overlap are sequential**: what is stored is what the calls leave one after
the other, in the order of their fetches. -/
theorem stored_history_is_sequential {w₀ w : World} {trace : List (Transition World Step)}
    (hidle : w₀.calls = []) (hrun : Run (fun w step w' => w' = w.next step) w₀ trace w)
    (hsafe : ∀ x ∈ trace, Exclusive x.pre x.label) (hdone : w.calls = []) :
    w.store = (trace.filterMap fun x => x.label.sequential).foldl Sequential.next w₀.store := by
  have hsettled : ∀ {v : World}, v.calls = [] → v.settled = v.store := by
    intro v hv
    unfold World.settled
    rw [hv]
    rfl
  suffices h : ∀ {w₀ w : World} {trace : List (Transition World Step)}, Single w₀ →
      Run (fun w step w' => w' = w.next step) w₀ trace w →
      (∀ x ∈ trace, Exclusive x.pre x.label) →
      w.settled = (trace.filterMap fun x => x.label.sequential).foldl Sequential.next w₀.settled by
    rw [← hsettled hdone, ← hsettled hidle]
    exact h ⟨by simp [hidle], by simp [hidle]⟩ hrun hsafe
  intro w₀ w trace hsingle hrun
  induction hrun with
  | nil w => exact fun _ => rfl
  | @cons s t u step trace hstep _ ih =>
    intro hsafe
    subst hstep
    have hfirst := hsafe _ mem_cons_self
    rw [ih (single_next hsingle hfirst) fun x hx => hsafe x (mem_cons_of_mem _ hx),
      settled_next hsingle hfirst, filterMap_cons]
    cases step.sequential <;> rfl

/-! ## Two polls at once -/

def quiet : World := ⟨⟨fun _ => [], fun _ => []⟩, []⟩

def polling (stage : Stage) : Step := .resume ⟨Uuid.nil, 200, stage⟩

/-- One line, and two polls one after the other; another application is polled in between. -/
def oneAfterTheOther : List Step :=
  [.emit Uuid.nil ['a'], .fetch Uuid.nil 200, .fetch Uuid.max 200, polling (.fetched [['a']]),
    polling (.merged [['a']]), polling .written, .fetch Uuid.nil 200,
    .resume ⟨Uuid.max, 200, .fetched []⟩, polling (.fetched [['a']])]

theorem one_after_the_other_sequential :
    (oneAfterTheOther.foldl World.next quiet).store =
        ((traceOf World.next quiet oneAfterTheOther).filterMap fun x =>
          x.label.sequential).foldl Sequential.next quiet.store ∧
      readAll ((oneAfterTheOther.foldl World.next quiet).store.file Uuid.nil) = [['a']] := by
  have hsafe : ∀ x ∈ traceOf World.next quiet oneAfterTheOther, Exclusive x.pre x.label := by
    decide
  have hdone : (oneAfterTheOther.foldl World.next quiet).calls = [] := by decide
  exact ⟨stored_history_is_sequential rfl (run_traceOf World.next quiet oneAfterTheOther) hsafe hdone,
    by decide⟩

/-- Both polls read the history before either writes. -/
def overlapping : List Step :=
  [.emit Uuid.nil ['a'], .fetch Uuid.nil 200, .fetch Uuid.nil 200, polling (.fetched [['a']]),
    polling (.fetched [['a']]), polling (.merged [['a']]), polling .written,
    polling (.merged [['a']]), polling .written]

/-- The line is stored twice, which no order of the two calls does. -/
theorem overlapping_polls_repeat_line :
    (overlapping.foldl World.next quiet).calls = [] ∧
      readAll ((overlapping.foldl World.next quiet).store.file Uuid.nil) = [['a'], ['a']] ∧
      ∀ ops : List Sequential.Op, ops.Perm (overlapping.filterMap Step.sequential) →
        readAll ((ops.foldl Sequential.next quiet.store).file Uuid.nil) ≠ [['a'], ['a']] := by
  have hall : ∀ ops ∈ (overlapping.filterMap Step.sequential).permutations',
      readAll ((ops.foldl Sequential.next quiet.store).file Uuid.nil) ≠ [['a'], ['a']] := by
    decide
  exact ⟨by decide, by decide,
    fun ops hperm => hall ops (mem_permutations'.mpr hperm)⟩

end VibeSsh.Logs
