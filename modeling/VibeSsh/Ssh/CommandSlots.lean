import VibeSsh.Lib.Progress

/-! # The command slots of a session

Every SSH session lets six commands run at once. `execute_command_with_timeout` takes one slot of
its session and gives up when its time is over, also while it waits for the slot; `pipe_into` takes
a slot of the session it reads from, then one of the session it writes to, and waits for both as
long as it takes. The slots of a session are handed out in the order in which they were asked for. -/

namespace VibeSsh.CommandSlots

open Lib List

variable {ι : Type} [DecidableEq ι]

def maxConcurrentCommands : Nat := 6

inductive Call (ι : Type) where
  | execute (session : ι)
  | pipe (source target : ι)
  deriving DecidableEq

/-- A call that was made and has not returned: where it waits, or what it holds. -/
inductive Active (ι : Type) where
  | executeWaiting (session : ι)
  | executeRunning (session : ι)
  | pipeWaiting (source target : ι)
  | pipeHolding (source target : ι)
  | pipeWaitingTarget (source target : ι)
  | pipeRunning (source target : ι)

def Active.call : Active ι → Call ι
  | .executeWaiting s | .executeRunning s => .execute s
  | .pipeWaiting s t | .pipeHolding s t | .pipeWaitingTarget s t | .pipeRunning s t => .pipe s t

def Active.asks : Active ι → Option ι
  | .executeWaiting s | .pipeWaiting s _ => some s
  | .pipeWaitingTarget _ t => some t
  | _ => none

def Active.slots : Active ι → List ι
  | .executeRunning s | .pipeHolding s _ | .pipeWaitingTarget s _ => [s]
  | .pipeRunning s t => [s, t]
  | _ => []

def Active.granted : Active ι → Active ι
  | .executeWaiting s => .executeRunning s
  | .pipeWaiting s t => .pipeHolding s t
  | .pipeWaitingTarget s t => .pipeRunning s t
  | a => a

/-- Whether the call can return: its commands end, or its time is over. -/
def Active.ends : Active ι → Bool
  | .executeWaiting _ | .executeRunning _ | .pipeRunning _ _ => true
  | _ => false

def Call.begin : Call ι → Active ι
  | .execute s => .executeWaiting s
  | .pipe s t => .pipeWaiting s t

/-- The calls to be made, those on their way, in the order in which they asked for a slot, and those
that returned. -/
structure State (ι : Type) where
  calls : List (Call ι)
  active : List (Active ι)
  finished : List (Call ι)

def State.held (st : State ι) (session : ι) : Nat := (st.active.flatMap Active.slots).count session

inductive Event where
  | arrive (i : Nat)
  | grant (i : Nat)
  | askTarget (i : Nat)
  | finish (i : Nat)

def step (st : State ι) : Event → Option (State ι)
  | .arrive i =>
    st.calls[i]?.map fun call =>
      { st with calls := st.calls.eraseIdx i, active := st.active ++ [call.begin] }
  | .grant i =>
    st.active[i]?.bind fun a =>
      a.asks.bind fun session =>
        if st.held session < maxConcurrentCommands ∧
            (st.active.take i).all (fun b => b.asks ≠ some session) then
          some { st with active := st.active.eraseIdx i ++ [a.granted] }
        else none
  | .askTarget i =>
    match st.active[i]? with
    | some (.pipeHolding s t) =>
      some { st with active := st.active.eraseIdx i ++ [.pipeWaitingTarget s t] }
    | _ => none
  | .finish i =>
    st.active[i]?.bind fun a =>
      if a.ends then
        some { st with active := st.active.eraseIdx i, finished := a.call :: st.finished }
      else none

abbrev Steps (st : State ι) (e : Event) (st' : State ι) : Prop := step st e = some st'

def State.start (calls : List (Call ι)) : State ι := ⟨calls, [], []⟩

def Finished (calls : List (Call ι)) (st : State ι) : Prop := calls.Subperm st.finished

/-- A pipe that reads from the session and writes to one of `sessions`. -/
def Call.pipesWithin (sessions : Finset ι) (session : ι) : Call ι → Bool
  | .execute _ => false
  | .pipe s t => s = session && t ∈ sessions

/-- Sessions each of which may have all its slots taken by pipes into one another. -/
def Circular (calls : List (Call ι)) (sessions : Finset ι) : Prop :=
  sessions.Nonempty ∧
    ∀ session ∈ sessions, maxConcurrentCommands ≤ calls.countP (Call.pipesWithin sessions session)

/-! ## Steps -/

inductive Step (st : State ι) : Event → State ι → Prop where
  | arrive {i : Nat} {call : Call ι} : st.calls[i]? = some call →
    Step st (.arrive i)
      { st with calls := st.calls.eraseIdx i, active := st.active ++ [call.begin] }
  | grant {i : Nat} {a : Active ι} {session : ι} : st.active[i]? = some a → a.asks = some session →
    st.held session < maxConcurrentCommands →
    Step st (.grant i) { st with active := st.active.eraseIdx i ++ [a.granted] }
  | askTarget {i : Nat} {s t : ι} : st.active[i]? = some (.pipeHolding s t) →
    Step st (.askTarget i) { st with active := st.active.eraseIdx i ++ [.pipeWaitingTarget s t] }
  | finish {i : Nat} {a : Active ι} : st.active[i]? = some a → a.ends = true →
    Step st (.finish i)
      { st with active := st.active.eraseIdx i, finished := a.call :: st.finished }

variable {st st' : State ι} {e : Event} {calls : List (Call ι)}

theorem step_cases (h : Steps st e st') : Step st e st' := by
  cases e with
  | arrive i =>
    obtain ⟨call, hcall, rfl⟩ := Option.map_eq_some_iff.mp h
    exact .arrive hcall
  | grant i =>
    obtain ⟨a, ha, h⟩ := Option.bind_eq_some_iff.mp h
    obtain ⟨session, hasks, h⟩ := Option.bind_eq_some_iff.mp h
    split at h
    · next hfree =>
      obtain rfl := Option.some.inj h
      exact .grant ha hasks hfree.1
    · cases h
  | askTarget i =>
    simp only [Steps, step] at h
    split at h
    · next ha =>
      obtain rfl := Option.some.inj h
      exact .askTarget ha
    · cases h
  | finish i =>
    obtain ⟨a, ha, h⟩ := Option.bind_eq_some_iff.mp h
    split at h
    · next hends =>
      obtain rfl := Option.some.inj h
      exact .finish ha hends
    · cases h

omit [DecidableEq ι] in
@[simp] theorem call_begin (call : Call ι) : call.begin.call = call := by cases call <;> rfl

omit [DecidableEq ι] in
@[simp] theorem call_granted (a : Active ι) : a.granted.call = a.call := by cases a <;> rfl

variable {i : Nat} {all : List (Call ι)} {session : ι} {sessions : Finset ι}
  {active : List (Active ι)}

/-- Taking an entry out of a list, and putting it back at its head. -/
theorem cons_eraseIdx_perm {α : Type} {l : List α} {x : α} (h : l[i]? = some x) :
    (x :: l.eraseIdx i).Perm l := by
  obtain ⟨hi, rfl⟩ := List.getElem?_eq_some_iff.mp h
  exact getElem_cons_eraseIdx_perm hi

theorem eraseIdx_append_perm {α β : Type} {l : List α} {x y : α} {f : α → β}
    (h : l[i]? = some x) (hxy : f y = f x) : ((l.eraseIdx i ++ [y]).map f).Perm (l.map f) := by
  rw [map_append, map_singleton, hxy]
  exact (perm_append_singleton _ _).trans ((cons_eraseIdx_perm h).map f)

/-- Every call is still to be made, on its way, or has returned. -/
def State.Accounts (st : State ι) (calls : List (Call ι)) : Prop :=
  (st.calls ++ st.active.map Active.call ++ st.finished).Perm calls

theorem step_accounts (h : Steps st e st') (hst : st.Accounts calls) : st'.Accounts calls := by
  refine List.Perm.trans ?_ hst
  cases step_cases h with
  | @arrive i call hcall =>
    have hperm := cons_eraseIdx_perm hcall
    simp only [map_append, map_singleton, call_begin, ← append_assoc]
    refine List.Perm.append_right _ ((perm_append_singleton _ _).trans ?_)
    exact hperm.append_right _
  | grant ha _ _ =>
    exact ((eraseIdx_append_perm ha (call_granted _)).append_left _).append_right _
  | @askTarget i s t ha =>
    have hcall : (Active.pipeWaitingTarget s t).call = (Active.pipeHolding s t).call := rfl
    exact ((eraseIdx_append_perm ha hcall).append_left _).append_right _
  | @finish i a ha _ =>
    have hperm := ((cons_eraseIdx_perm ha).map Active.call).append_left st.calls
    refine perm_middle.trans (List.Perm.trans ?_ (hperm.append_right _))
    exact (perm_middle.append_right _).symm

theorem finished_step (hst : Finished all st) (h : Steps st e st') : Finished all st' := by
  cases step_cases h with
  | finish => exact hst.trans (sublist_cons_self _ _).subperm
  | _ => exact hst

/-! ## Progress -/

def Active.weight : Active ι → Nat
  | .pipeWaiting _ _ => 4
  | .pipeHolding _ _ => 3
  | .executeWaiting _ | .pipeWaitingTarget _ _ => 2
  | .executeRunning _ | .pipeRunning _ _ => 1

def State.measure (st : State ι) : Nat :=
  5 * st.calls.length + (st.active.map Active.weight).sum

theorem step_measure (h : Steps st e st') : st'.measure < st.measure := by
  have hsum : ∀ {i : Nat} {a : Active ι}, st.active[i]? = some a →
      a.weight + ((st.active.eraseIdx i).map Active.weight).sum =
        (st.active.map Active.weight).sum := by
    intro i a ha
    simpa using ((cons_eraseIdx_perm ha).map Active.weight).sum_eq
  unfold State.measure
  cases step_cases h with
  | @arrive i call hcall =>
    have hlength := (cons_eraseIdx_perm hcall).length_eq
    have hweight : call.begin.weight ≤ 4 := by cases call <;> simp [Call.begin, Active.weight]
    simp only [length_cons, map_append, map_singleton, sum_append,
      sum_singleton] at hlength ⊢
    omega
  | @grant i a session ha hasks _ =>
    have := hsum ha
    have hweight : a.granted.weight < a.weight := by
      cases a <;> simp [Active.asks] at hasks <;> simp [Active.granted, Active.weight]
    simp only [map_append, map_singleton, sum_append, sum_singleton]
    omega
  | askTarget ha =>
    have := hsum ha
    simp only [Active.weight, map_append, map_singleton, sum_append,
      sum_singleton] at this ⊢
    omega
  | @finish i a ha hends =>
    have := hsum ha
    have hweight : 0 < a.weight := by cases a <;> simp [Active.weight]
    simp only
    omega

/-! ## Where no step is left -/

variable {a : Active ι}

/-- The first call that waits for a slot is given it if there is one. -/
theorem full_of_asked (h : Stuck Steps st) (ha : a ∈ st.active)
    (hasks : a.asks = some session) : maxConcurrentCommands ≤ st.held session := by
  by_contra hfree
  let i := st.active.findIdx (fun b => b.asks = some session)
  have hi : i < st.active.length := findIdx_lt_length.mpr ⟨a, ha, by simpa using hasks⟩
  have hfirst : st.active[i].asks = some session := by
    simpa using findIdx_getElem (w := hi)
  have hbefore : (st.active.take i).all (fun b => b.asks ≠ some session) = true := by
    rw [all_eq_true]
    intro b hb
    obtain ⟨j, hj, rfl⟩ := getElem_of_mem hb
    have hlt : j < i := hj.trans_le (length_take_le _ _)
    rw [getElem_take]
    simpa using not_of_lt_findIdx hlt
  refine h (.grant i) { st with active := st.active.eraseIdx i ++ [st.active[i].granted] } ?_
  simp only [Steps, step, List.getElem?_eq_getElem hi, Option.bind_some, hfirst, hbefore,
    Nat.lt_of_not_le hfree, and_self, if_true]

/-- What is left when no step is: pipes that wait for a slot. -/
theorem stuck_active (h : Stuck Steps st) :
    st.calls = [] ∧ ∀ a ∈ st.active,
      (∃ s t, a = .pipeWaiting s t) ∨ ∃ s t, a = .pipeWaitingTarget s t := by
  constructor
  · cases hcalls : st.calls with
    | nil => rfl
    | cons call rest => exact absurd (by simp [Steps, step, hcalls]; rfl) (h (.arrive 0) _)
  · intro a ha
    obtain ⟨i, hi⟩ := List.getElem?_of_mem ha
    have hends : a.ends = false := by
      cases hends : a.ends with
      | false => rfl
      | true => exact absurd (by simp [Steps, step, hi, hends]; rfl) (h (.finish i) _)
    cases a with
    | pipeWaiting s t => exact .inl ⟨s, t, rfl⟩
    | pipeWaitingTarget s t => exact .inr ⟨s, t, rfl⟩
    | pipeHolding s t => exact absurd (by simp [Steps, step, hi]; rfl) (h (.askTarget i) _)
    | _ => cases hends

def State.asked (st : State ι) : Finset ι := (st.active.filterMap Active.asks).toFinset

theorem held_le_pipes (h : ∀ a ∈ active, (a.slots.count session) ≤
      if a.call.pipesWithin sessions session then 1 else 0) :
    (active.flatMap Active.slots).count session ≤
      (active.map Active.call).countP (Call.pipesWithin sessions session) := by
  induction active with
  | nil => simp
  | cons a active ih =>
    have hhead := h a mem_cons_self
    have htail := ih fun b hb => h b (mem_cons_of_mem _ hb)
    rw [flatMap_cons, count_append, map_cons, countP_cons]
    omega

/-- Calls that are left over wait for sessions whose slots are taken by pipes into one another. -/
theorem circular_of_stuck (h : Stuck Steps st) (haccounts : st.Accounts calls)
    (hactive : st.active ≠ []) : Circular calls st.asked := by
  obtain ⟨hcalls, hwaiting⟩ := stuck_active h
  have hmem : ∀ {session}, session ∈ st.asked ↔ ∃ a ∈ st.active, a.asks = some session := by
    simp [State.asked]
  constructor
  · obtain ⟨a, ha⟩ := exists_mem_of_ne_nil _ hactive
    rcases hwaiting a ha with ⟨s, t, rfl⟩ | ⟨s, t, rfl⟩
    · exact ⟨s, hmem.mpr ⟨_, ha, rfl⟩⟩
    · exact ⟨t, hmem.mpr ⟨_, ha, rfl⟩⟩
  · intro session hsession
    obtain ⟨a, ha, hasks⟩ := hmem.mp hsession
    have hpipes : st.held session ≤
        (st.active.map Active.call).countP (Call.pipesWithin st.asked session) := by
      refine held_le_pipes fun b hb => ?_
      rcases hwaiting b hb with ⟨s, t, rfl⟩ | ⟨s, t, rfl⟩
      · simp [Active.slots]
      · have ht : t ∈ st.asked := hmem.mpr ⟨_, hb, rfl⟩
        by_cases hs : s = session <;> simp [Active.slots, Active.call, Call.pipesWithin, hs, ht]
    have hsub : (st.active.map Active.call).Subperm calls := by
      refine List.Subperm.trans ?_ haccounts.subperm
      rw [hcalls, nil_append]
      exact (sublist_append_left _ _).subperm
    exact (full_of_asked h ha hasks).trans (hpipes.trans (hsub.countP_le _))

/-- Without such a circle, every call returns. -/
theorem inevitably_finished (h : ¬ ∃ sessions, Circular calls sessions) :
    Inevitably Steps (Finished calls) (State.start calls) := by
  refine inevitably_of_measure (fun st => st.Accounts calls) State.measure
    (fun hst hstep => step_accounts hstep hst) (fun _ hstep => step_measure hstep) ?_
    (by simp [State.Accounts, State.start])
  intro st haccounts hstuck
  have hactive : st.active = [] := by
    by_contra hactive
    exact h ⟨_, circular_of_stuck hstuck haccounts hactive⟩
  unfold State.Accounts at haccounts
  rw [(stuck_active hstuck).1, hactive, map_nil, append_nil, nil_append] at haccounts
  exact haccounts.symm.subperm

/-! ## A circle that closes -/

/-- A pipe that reads from the session, holds its slot there and needs one of `sessions`. -/
def Active.caught (sessions : Finset ι) (session : ι) : Active ι → Bool
  | .pipeHolding s t | .pipeWaitingTarget s t => s = session && t ∈ sessions
  | _ => false

/-- All slots of the sessions are held by pipes that need another one of them. -/
structure Deadlocked (calls : List (Call ι)) (sessions : Finset ι) (st : State ι) : Prop where
  nonempty : sessions.Nonempty
  caught : ∀ session ∈ sessions,
    maxConcurrentCommands ≤ st.active.countP (Active.caught sessions session)
  accounts : st.Accounts calls

theorem caught_le_held (sessions : Finset ι) (session : ι) (active : List (Active ι)) :
    active.countP (Active.caught sessions session) ≤
      (active.flatMap Active.slots).count session := by
  induction active with
  | nil => simp
  | cons a active ih =>
    rw [flatMap_cons, count_append, countP_cons]
    have hhead : (if a.caught sessions session then 1 else 0) ≤ a.slots.count session := by
      cases a with
      | pipeHolding s t | pipeWaitingTarget s t =>
        by_cases hs : s = session
        · subst hs
          simp only [Active.slots, count_singleton_self]
          split <;> omega
        · simp [Active.caught, hs]
      | _ => simp [Active.caught]
    omega

omit [DecidableEq ι] in
theorem countP_eraseIdx {p : Active ι → Bool} (ha : st.active[i]? = some a) :
    st.active.countP p = (st.active.eraseIdx i).countP p + if p a then 1 else 0 := by
  rw [← (cons_eraseIdx_perm ha).countP_eq, countP_cons]

theorem deadlocked_step (hst : Deadlocked calls sessions st)
    (h : Steps st e st') : Deadlocked calls sessions st' := by
  refine ⟨hst.nonempty, fun session hsession => ?_, step_accounts h hst.accounts⟩
  have hcaught := hst.caught session hsession
  cases step_cases h with
  | arrive => exact hcaught.trans ((sublist_append_left _ _).countP_le)
  | @grant i a asked ha hasks hfree =>
    -- the slot that is given is none of theirs
    have hout : asked ∉ sessions := by
      intro hin
      have := hst.caught asked hin
      have := caught_le_held sessions asked st.active
      unfold State.held at hfree
      omega
    have hnot : a.caught sessions session = false := by
      cases a with
      | pipeWaitingTarget s t =>
        obtain rfl : t = asked := Option.some.inj hasks
        simp [Active.caught, hout]
      | pipeHolding s t => cases hasks
      | _ => rfl
    rw [countP_eraseIdx ha, hnot] at hcaught
    rw [countP_append]
    simp only [Bool.false_eq_true, if_false] at hcaught
    omega
  | @askTarget i s t ha =>
    rw [countP_eraseIdx ha] at hcaught
    rw [countP_append, countP_singleton]
    exact hcaught
  | @finish i a ha hends =>
    have hnot : a.caught sessions session = false := by
      cases a with
      | pipeHolding | pipeWaitingTarget => cases hends
      | _ => rfl
    rw [countP_eraseIdx ha, hnot] at hcaught
    simpa using hcaught

theorem deadlocked_not_finished (hst : Deadlocked calls sessions st) : ¬ Finished calls st := by
  intro hfinished
  obtain ⟨session, hsession⟩ := hst.nonempty
  have hcaught := hst.caught session hsession
  have hactive : st.active.countP (Active.caught sessions session) ≤ st.active.length :=
    countP_le_length
  have hlength := hst.accounts.length_eq
  have hle := hfinished.length_le
  simp only [length_append, length_map] at hlength
  unfold maxConcurrentCommands at hcaught
  omega

/-- The slots that pipes hold which have not asked for the second one yet. -/
theorem held_eq_caught (h : ∀ a ∈ active, ∃ s, ∃ t ∈ sessions, a = .pipeHolding s t) :
    (active.flatMap Active.slots).count session =
      active.countP (Active.caught sessions session) := by
  induction active with
  | nil => simp
  | cons a active ih =>
    obtain ⟨s, t, ht, rfl⟩ := h a mem_cons_self
    rw [flatMap_cons, count_append, countP_cons,
      ih fun b hb => h b (mem_cons_of_mem _ hb), Nat.add_comm]
    simp [Active.slots, Active.caught, ht, count_singleton]

variable {finished : List (Call ι)}

/-- A pipe may take the slot of the session it reads from before anything else happens. -/
theorem take_source {s t : ι} (hcall : calls[i]? = some (.pipe s t))
    (hactive : ∀ a ∈ active, a.asks = none)
    (hfree : (active.flatMap Active.slots).count s < maxConcurrentCommands)
    (h : Inevitably Steps (Finished all) ⟨calls, active, finished⟩) :
    Inevitably Steps (Finished all) ⟨calls.eraseIdx i, active ++ [.pipeHolding s t], finished⟩ := by
  have harrive : Steps ⟨calls, active, finished⟩ (.arrive i)
      ⟨calls.eraseIdx i, active ++ [.pipeWaiting s t], finished⟩ := by
    simp [Steps, step, hcall, Call.begin]
  have hgrant : Steps ⟨calls.eraseIdx i, active ++ [.pipeWaiting s t], finished⟩
      (.grant active.length) ⟨calls.eraseIdx i, active ++ [.pipeHolding s t], finished⟩ := by
    have hheld : State.held ⟨calls.eraseIdx i, active ++ [.pipeWaiting s t], finished⟩ s <
        maxConcurrentCommands := by
      simpa [State.held, Active.slots] using hfree
    have hbefore : active.all (fun b => b.asks ≠ some s) = true := by
      simp only [all_eq_true]
      intro b hb
      simp [hactive b hb]
    have hasks : (Active.pipeWaiting s t).asks = some s := rfl
    have hlast : (active ++ [Active.pipeWaiting s t])[active.length]? =
        some (.pipeWaiting s t) := by simp
    have herase : (active ++ [Active.pipeWaiting s t]).eraseIdx active.length = active := by
      simp [eraseIdx_append_of_length_le]
    simp only [Steps, step, hlast, Option.bind_some, hasks, take_left, hheld, hbefore,
      and_self, if_true, herase, Active.granted]
  exact (h.next finished_step harrive).next finished_step hgrant

/-- **The circle closes.** Pipes take the slots of the sessions they read from one after the other,
until those of all the sessions are gone. The induction is on the calls that are left. -/
theorem circle_closes (hnonempty : sessions.Nonempty)
    (hactive : ∀ a ∈ active, ∃ s, ∃ t ∈ sessions, a = .pipeHolding s t)
    (henough : ∀ session ∈ sessions, maxConcurrentCommands ≤
      active.countP (Active.caught sessions session) +
        calls.countP (Call.pipesWithin sessions session))
    (haccounts : State.Accounts ⟨calls, active, finished⟩ all) :
    ¬ Inevitably Steps (Finished all) ⟨calls, active, finished⟩ := by
  induction hn : calls.length using Nat.strong_induction_on generalizing calls active with
  | _ n ih =>
    subst hn
    by_cases hfull : ∀ session ∈ sessions,
        maxConcurrentCommands ≤ active.countP (Active.caught sessions session)
    · exact not_inevitably_of_trap (Deadlocked all sessions) deadlocked_step
        deadlocked_not_finished ⟨hnonempty, hfull, haccounts⟩
    · obtain ⟨session, hsession, hfree⟩ : ∃ session ∈ sessions,
          active.countP (Active.caught sessions session) < maxConcurrentCommands := by
        simpa using hfull
      have hpos : 0 < calls.countP (Call.pipesWithin sessions session) := by
        have := henough session hsession
        omega
      obtain ⟨call, hmem, hpipes⟩ := countP_pos_iff.mp hpos
      obtain ⟨i, hcall⟩ := List.getElem?_of_mem hmem
      cases call with
      | execute => cases hpipes
      | pipe s t =>
        obtain ⟨rfl, ht⟩ : s = session ∧ t ∈ sessions := by
          simpa [Call.pipesWithin] using hpipes
        have hperm := cons_eraseIdx_perm hcall
        intro h
        have hnone : ∀ a ∈ active, a.asks = none := by
          intro a ha
          obtain ⟨_, _, _, rfl⟩ := hactive a ha
          rfl
        have hnext := take_source hcall hnone (by rwa [held_eq_caught hactive]) h
        refine ih _ ?_ ?_ ?_ ?_ rfl hnext
        · have := hperm.length_eq
          rw [length_cons] at this
          omega
        · intro a ha
          rcases mem_append.mp ha with ha | ha
          · exact hactive a ha
          · exact ⟨s, t, ht, mem_singleton.mp ha⟩
        · intro other hother
          have := henough other hother
          rw [← hperm.countP_eq, countP_cons] at this
          rw [countP_append, countP_singleton]
          have hsame : (Active.pipeHolding s t).caught sessions other =
              (Call.pipe s t).pipesWithin sessions other := rfl
          rw [hsame]
          omega
        · refine List.Perm.trans ?_ haccounts
          simp only [map_append, map_singleton, ← append_assoc]
          refine List.Perm.append_right _ ((perm_append_singleton _ _).trans ?_)
          exact hperm.append_right _

/-- **Slots without deadlock.** Whatever the schedule, every call returns, exactly when there are no
sessions among which pipes can take all slots and wait for one another. -/
theorem calls_return_iff (calls : List (Call ι)) :
    Inevitably Steps (Finished calls) (State.start calls) ↔
      ¬ ∃ sessions, Circular calls sessions := by
  constructor
  · rintro h ⟨sessions, hnonempty, hcircular⟩
    refine circle_closes hnonempty (by simp) ?_ ?_ h
    · simpa using hcircular
    · simp [State.Accounts]
  · exact inevitably_finished

/-- Six pipes each way between two sessions. -/
theorem opposite_pipes_deadlock :
    ¬ Inevitably Steps
      (Finished (List.replicate 6 (.pipe 0 1) ++ List.replicate 6 (.pipe 1 0)))
      (State.start (List.replicate 6 (.pipe 0 1) ++ List.replicate 6 (.pipe (1 : Fin 2) 0))) := by
  have hnonempty : (Finset.univ : Finset (Fin 2)).Nonempty := ⟨0, Finset.mem_univ 0⟩
  refine circle_closes hnonempty (by simp) ?_ (by simp [State.Accounts])
  decide

end VibeSsh.CommandSlots
