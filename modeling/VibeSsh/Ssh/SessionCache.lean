import VibeSsh.Basic
import VibeSsh.Lib.Run

/-! # The session cache of one Node

`ssh_service::{get_or_connect, retry_on_connection_failure}` and `SshSessionManager`, for any number of
callers on one Node that interleave at their await points. Sessions are numbered in the order they are
opened. A caller knows the session it runs over, but `remove` is told only the server and takes
whatever is cached by then. `failed`, `inserted` and what a failed caller keeps are the history the
properties speak of; no step reads them. -/

namespace VibeSsh.SessionCache

open Lib List Option

/-- The first attempt, and the one after the reconnect. -/
inductive Try where
  | first
  | second
  deriving DecidableEq

inductive Phase where
  /-- Before the look into the cache. -/
  | looking (t : Try)
  /-- Waiting for the connect lock. -/
  | queued (t : Try)
  /-- Holding it, before the second look. -/
  | checking (t : Try)
  | connecting (t : Try)
  /-- Connected, before the session is cached. -/
  | inserting (t : Try) (session : Nat)
  | running (t : Try) (session : Nat)
  /-- A transport failure, before the cached session is removed. No session numbered below `newest`
  was opened after what the caller failed on. -/
  | failed (newest : Nat)
  /-- Taken out of the cache, and not yet closed. -/
  | closing (session : Nat)
  | done
  deriving DecidableEq

/-- A caller, under `retry_on_connection_failure` or not. -/
structure Caller where
  retries : Bool
  phase : Phase
  deriving DecidableEq

structure State where
  cache : Option Nat
  lock : Option Nat
  serial : Nat
  unclosed : List Nat
  callers : List Caller
  inserted : Nat
  failed : List Nat
  deriving DecidableEq

inductive Event where
  | spawn (retries : Bool)
  | look (i : Nat)
  | acquire (i : Nat)
  | check (i : Nat)
  | connect (i : Nat) (result : AppResult Unit)
  | insert (i : Nat) (record : AppResult Unit)
  | finish (i : Nat) (result : AppResult Unit)
  | remove (i : Nat)
  | closed (i : Nat)

section

variable (s : State)

def State.become (i : Nat) (phase : Phase) : State :=
  { s with callers := s.callers.modify i fun caller => { caller with phase := phase } }

@[simp] theorem State.become_cache (i : Nat) (phase : Phase) :
    (s.become i phase).cache = s.cache := rfl

def afterError (caller : Caller) (t : Try) (e : AppError) (newest : Nat) : Phase :=
  if caller.retries = true ∧ t = .first ∧ e.isTransportFailure = true then .failed newest else .done

/-- The operation ended over its session. -/
def State.ran (session : Nat) : AppResult Unit → State
  | .error e => if e.isTransportFailure then { s with failed := session :: s.failed } else s
  | .ok _ => s

def afterRun (caller : Caller) (t : Try) (session : Nat) : AppResult Unit → Phase
  | .error e => afterError caller t e (session + 1)
  | .ok _ => .done

/-- One step of one caller, between two await points. -/
def step : Event → Option State
  | .spawn retries => some { s with callers := s.callers ++ [⟨retries, .looking .first⟩] }
  | .look i =>
    match s.callers[i]?.map Caller.phase, s.cache with
    | some (.looking t), some session => some (s.become i (.running t session))
    | some (.looking t), none => some (s.become i (.queued t))
    | _, _ => none
  | .acquire i =>
    match s.callers[i]?.map Caller.phase, s.lock with
    | some (.queued t), none => some { s.become i (.checking t) with lock := some i }
    | _, _ => none
  | .check i =>
    match s.callers[i]?.map Caller.phase, s.cache with
    | some (.checking t), some session =>
      some { s.become i (.running t session) with lock := none }
    | some (.checking t), none => some (s.become i (.connecting t))
    | _, _ => none
  | .connect i result =>
    match s.callers[i]? with
    | some ⟨retries, .connecting t⟩ =>
      match result with
      | .ok _ =>
        some { s.become i (.inserting t s.serial) with
          serial := s.serial + 1, unclosed := s.serial :: s.unclosed }
      | .error e =>
        some { s.become i (afterError ⟨retries, .connecting t⟩ t e s.inserted) with lock := none }
    | _ => none
  | .insert i record =>
    match s.callers[i]? with
    | some ⟨retries, .inserting t session⟩ =>
      match record with
      | .ok _ =>
        some { s.become i (.running t session) with
          cache := some session, lock := none, inserted := session + 1 }
      -- the only reference to the session goes
      | .error e =>
        some { s.become i (afterError ⟨retries, .inserting t session⟩ t e s.inserted) with
          lock := none, unclosed := s.unclosed.erase session }
    | _ => none
  | .finish i result =>
    match s.callers[i]? with
    | some ⟨retries, .running t session⟩ =>
      some ((s.ran session result).become i (afterRun ⟨retries, .running t session⟩ t session result))
    | _ => none
  | .remove i =>
    match s.callers[i]?.map Caller.phase, s.cache with
    | some (.failed _), some session => some { s.become i (.closing session) with cache := none }
    | some (.failed _), none => some (s.become i (.looking .second))
    | _, _ => none
  | .closed i =>
    match s.callers[i]?.map Caller.phase with
    | some (.closing session) =>
      some { s.become i (.looking .second) with unclosed := s.unclosed.erase session }
    | _ => none

def State.start : State := ⟨none, none, 0, [], [], 0, []⟩

abbrev Step (e : Event) (t : State) : Prop := step s e = some t

/-! ## What is asked -/

/-- The step takes this session out of the cache to close it. -/
def Closes (e : Event) (session : Nat) : Prop :=
  ∃ i n, e = .remove i ∧ s.callers[i]?.map Caller.phase = some (.failed n) ∧ s.cache = some session

def Phase.connects : Phase → Bool
  | .connecting _ => true
  | .inserting _ _ => true
  | _ => false

def State.Connecting : Prop := ∃ caller ∈ s.callers, caller.phase.connects = true

def Phase.closes : Phase → Bool
  | .closing _ => true
  | _ => false

/-- A caller's removal finds no session newer than the one it failed on, and a connect succeeds only
while no session is still being closed. -/
def orderly : Event → Bool
  | .remove i =>
    match s.callers[i]?.map Caller.phase, s.cache with
    | some (.failed n), some session => session < n
    | _, _ => true
  | .connect _ (.ok _) => s.callers.all fun caller => !caller.phase.closes
  | _ => true

/-! ## The invariant -/

/-- What holds of a caller in each phase. -/
def Fits (i : Nat) : Phase → Prop
  | .checking _ => s.lock = some i
  | .connecting _ => s.lock = some i ∧ s.cache = none
  | .inserting _ session =>
    s.lock = some i ∧ s.cache = none ∧ s.inserted ≤ session ∧ session < s.serial
  | .running _ session => session < s.inserted
  | .failed n => n ≤ s.inserted ∧ ∀ c, s.cache = some c → c < n → c ∈ s.failed
  | _ => True

end

def Phase.holds (session : Nat) : Phase → Prop
  | .inserting _ u => u = session
  | .closing u => u = session
  | _ => False

structure Coherent (s : State) : Prop where
  fits : ∀ (i : Nat) (caller : Caller), s.callers[i]? = some caller → Fits s i caller.phase
  cached : ∀ c, s.cache = some c → c + 1 = s.inserted
  bound : s.inserted ≤ s.serial
  held : ∀ u ∈ s.unclosed, s.cache = some u ∨
    ∃ (i : Nat) (caller : Caller), s.callers[i]? = some caller ∧ caller.phase.holds u
  one : s.unclosed.length ≤ 1

theorem coherent_start : Coherent State.start where
  fits _ _ h := by cases h
  cached _ h := by cases h
  bound := le_refl 0
  held _ h := by cases h
  one := Nat.zero_le 1

variable {s t : State} {i j : Nat} {phase : Phase} {caller : Caller}

theorem callers_become (h : (s.become i phase).callers[j]? = some caller) :
    j = i ∧ caller.phase = phase ∨ j ≠ i ∧ s.callers[j]? = some caller := by
  unfold State.become at h
  rw [List.getElem?_modify] at h
  by_cases heq : i = j
  · subst heq
    obtain ⟨old, -, hold⟩ := map_eq_some_iff.mp h
    simp only [if_true] at hold
    exact .inl ⟨rfl, by rw [← hold]⟩
  · simp only [heq, if_false, Option.map_eq_map, Option.map_id'] at h
    exact .inr ⟨Ne.symm heq, h⟩

theorem callers_become_of_ne (h : j ≠ i) : (s.become i phase).callers[j]? = s.callers[j]? := by
  unfold State.become
  rw [List.getElem?_modify]
  simp [Ne.symm h]

/-- One caller moves on. -/
theorem Coherent.become (h : Coherent s)
    (hi : s.callers[i]? = some caller) (hcallers : t.callers = (s.become i phase).callers)
    (hnew : Fits t i phase)
    (hothers : ∀ j other, j ≠ i → s.callers[j]? = some other → Fits s j other.phase →
      Fits t j other.phase)
    (hcached : ∀ c, t.cache = some c → c + 1 = t.inserted) (hbound : t.inserted ≤ t.serial)
    (hheld : ∀ u ∈ t.unclosed, t.cache = some u ∨ phase.holds u ∨
      u ∈ s.unclosed ∧ (s.cache = some u → t.cache = some u ∨ phase.holds u) ∧
        ¬ caller.phase.holds u)
    (hone : t.unclosed.length ≤ 1) : Coherent t where
  fits j other hj := by
    rw [hcallers] at hj
    rcases callers_become hj with ⟨rfl, hphase⟩ | ⟨hne, hold⟩
    · rw [hphase]
      exact hnew
    · exact hothers j other hne hold (h.fits j other hold)
  cached := hcached
  bound := hbound
  held u hu := by
    have hself : t.cache = some u ∨ phase.holds u → t.cache = some u ∨
        ∃ (i : Nat) (caller : Caller), t.callers[i]? = some caller ∧ caller.phase.holds u :=
      Or.imp_right fun hphase => ⟨i, { caller with phase := phase },
        by simp [hcallers, State.become, hi], hphase⟩
    rcases hheld u hu with hcache | hphase | ⟨hold, hcache, hnot⟩
    · exact .inl hcache
    · exact hself (.inr hphase)
    · rcases h.held u hold with hc | ⟨j, other, hj, hholds⟩
      · exact hself (hcache hc)
      · have hne : j ≠ i := by
          rintro rfl
          rw [hi] at hj
          exact hnot (some.inj hj ▸ hholds)
        exact .inr ⟨j, other, by rw [hcallers, callers_become_of_ne hne]; exact hj, hholds⟩
  one := hone

theorem phase_some (h : s.callers[i]?.map Caller.phase = some phase) :
    ∃ caller, s.callers[i]? = some caller ∧ caller.phase = phase :=
  map_eq_some_iff.mp h

theorem Coherent.move (h : Coherent s) (hi : s.callers[i]? = some caller) (hnew : Fits s i phase)
    (hold : ∀ u, ¬ caller.phase.holds u) : Coherent (s.become i phase) := by
  refine h.become hi rfl ?_ (fun j other _ _ hfits => ?_) h.cached h.bound
    (fun u hu => .inr (.inr ⟨hu, .inl, hold u⟩)) h.one
  · cases phase <;> exact hnew
  · cases hp : other.phase <;> rw [hp] at hfits <;> exact hfits

theorem coherent_spawn (h : Coherent s) (retries : Bool) :
    Coherent { s with callers := s.callers ++ [⟨retries, .looking .first⟩] } := by
  refine ⟨fun i caller hi => ?_, h.cached, h.bound, fun u hu => ?_, h.one⟩
  · dsimp only at hi
    rcases Nat.lt_or_ge i s.callers.length with hlt | hge
    · rw [List.getElem?_append_left hlt] at hi
      have hfits := h.fits i caller hi
      cases hp : caller.phase <;> rw [hp] at hfits <;> exact hfits
    · rw [List.getElem?_append_right hge] at hi
      have hmem := mem_of_getElem? hi
      obtain rfl := mem_singleton.mp hmem
      trivial
  · rcases h.held u hu with hc | ⟨j, other, hj, hholds⟩
    · exact .inl hc
    · refine .inr ⟨j, other, ?_, hholds⟩
      obtain ⟨hlt, -⟩ := List.getElem?_eq_some_iff.mp hj
      rw [List.getElem?_append_left hlt]
      exact hj

theorem not_holds (hp : caller.phase = phase) (h : phase.connects = false ∧ phase.closes = false)
    (u : Nat) : ¬ caller.phase.holds u := by
  rw [hp]
  cases phase <;> simp_all [Phase.connects, Phase.closes, Phase.holds]

/-- Only the holder of the connect lock is in a phase that needs it. -/
theorem Fits.not_locked (h : Fits s j phase) (hlock : s.lock = some i) (hne : j ≠ i) :
    (∀ t, phase ≠ .checking t) ∧ (∀ t, phase ≠ .connecting t) ∧
      ∀ t session, phase ≠ .inserting t session := by
  have hother : s.lock ≠ some j := by
    rw [hlock]
    exact fun heq => hne (some.inj heq).symm
  refine ⟨fun t heq => ?_, fun t heq => ?_, fun t session heq => ?_⟩ <;> subst heq
  · exact hother h
  · exact hother h.1
  · exact hother h.1

theorem Fits.release (h : Fits s j phase)
    (hlock : s.lock = some i) (hne : j ≠ i) (hcache : t.cache = s.cache)
    (hinserted : t.inserted = s.inserted) (hfailed : t.failed = s.failed) : Fits t j phase := by
  obtain ⟨hchecking, hconnecting, hinserting⟩ := h.not_locked hlock hne
  cases phase with
  | checking t => exact absurd rfl (hchecking t)
  | connecting t => exact absurd rfl (hconnecting t)
  | inserting t session => exact absurd rfl (hinserting t session)
  | running t session =>
    unfold Fits at h ⊢
    rwa [hinserted]
  | failed n =>
    unfold Fits at h ⊢
    rw [hinserted, hcache, hfailed]
    exact h
  | _ => trivial

theorem coherent_look (h : Coherent s) (hstep : step s (.look i) = some t) : Coherent t := by
  unfold step at hstep
  dsimp only at hstep
  split at hstep
  · next t' session hphase hcache =>
    obtain rfl := some.inj hstep
    obtain ⟨caller, hi, hp⟩ := phase_some hphase
    have := h.cached session hcache
    exact h.move hi (by change session < s.inserted; omega)
      (not_holds hp ⟨rfl, rfl⟩)
  · next t' hphase hcache =>
    obtain rfl := some.inj hstep
    obtain ⟨caller, hi, hp⟩ := phase_some hphase
    exact h.move hi trivial (not_holds hp ⟨rfl, rfl⟩)
  · cases hstep

theorem coherent_acquire (h : Coherent s) (hstep : step s (.acquire i) = some t) : Coherent t := by
  unfold step at hstep
  dsimp only at hstep
  split at hstep
  · next t' hphase hlock =>
    obtain rfl := some.inj hstep
    obtain ⟨caller, hi, hp⟩ := phase_some hphase
    refine h.become hi rfl rfl (fun j other hne hj hfits => ?_) h.cached h.bound
      (fun u hu => .inr (.inr ⟨hu, .inl, not_holds hp ⟨rfl, rfl⟩ u⟩)) h.one
    -- the lock was free, so nobody was in a phase that needs it
    cases hother : other.phase with
    | checking _ => rw [hother, Fits, hlock] at hfits; cases hfits
    | connecting _ | inserting _ _ => rw [hother, Fits, hlock] at hfits; cases hfits.1
    | running _ _ | failed _ => rw [hother] at hfits; exact hfits
    | _ => trivial
  · cases hstep

theorem coherent_check (h : Coherent s) (hstep : step s (.check i) = some t) : Coherent t := by
  unfold step at hstep
  dsimp only at hstep
  split at hstep
  · next t' session hphase hcache =>
    obtain rfl := some.inj hstep
    obtain ⟨caller, hi, hp⟩ := phase_some hphase
    have hlock : s.lock = some i := by
      have := h.fits i caller hi
      rwa [hp] at this
    have hnewest := h.cached session hcache
    refine h.become hi rfl (by change session < s.inserted; omega)
      (fun j other hne hj hfits => hfits.release hlock hne rfl rfl rfl) h.cached h.bound
      (fun u hu => .inr (.inr ⟨hu, .inl, not_holds hp ⟨rfl, rfl⟩ u⟩)) h.one
  · next t' hphase hcache =>
    obtain rfl := some.inj hstep
    obtain ⟨caller, hi, hp⟩ := phase_some hphase
    have hlock : s.lock = some i := by
      have := h.fits i caller hi
      rwa [hp] at this
    exact h.move hi ⟨hlock, hcache⟩ (not_holds hp ⟨rfl, rfl⟩)
  · cases hstep

/-- What an attempt that failed keeps is in order when nothing is cached. -/
theorem fits_afterError {t : Try} {e : AppError} {n : Nat}
    (hn : n ≤ s.inserted) (hcache : ∀ c, s.cache = some c → c < n → c ∈ s.failed) :
    Fits s i (afterError caller t e n) := by
  unfold afterError
  split
  · exact ⟨hn, hcache⟩
  · trivial

theorem coherent_connect {result : AppResult Unit} (h : Coherent s)
    (hok : orderly s (.connect i result) = true) (hstep : step s (.connect i result) = some t) :
    Coherent t := by
  unfold step at hstep
  dsimp only at hstep
  split at hstep
  · next retries t' hi =>
    obtain ⟨hlock, hcache⟩ : s.lock = some i ∧ s.cache = none := h.fits i _ hi
    split at hstep
    · -- nothing was open: not cached, not being closed, and nobody else connects
      have hnone : s.unclosed = [] := by
        refine eq_nil_iff_forall_not_mem.mpr fun u hu => ?_
        rcases h.held u hu with hc | ⟨j, other, hj, hholds⟩
        · rw [hcache] at hc
          cases hc
        · have hmem := all_eq_true.mp hok other (mem_of_getElem? hj)
          cases hother : other.phase with
          | inserting t'' u' =>
            have hfits := h.fits j other hj
            rw [hother] at hfits
            have hji : j = i := some.inj (hfits.1.symm.trans hlock)
            subst hji
            rw [hi] at hj
            obtain rfl := some.inj hj
            cases hother
          | closing u' => rw [hother] at hmem; cases hmem
          | _ => rw [hother] at hholds; cases hholds
      obtain rfl := some.inj hstep
      refine h.become hi rfl ⟨hlock, hcache, h.bound, Nat.lt_succ_self _⟩
        (fun j other hne hj hfits => hfits.release hlock hne rfl rfl rfl) h.cached
        (Nat.le_succ_of_le h.bound) (fun u hu => ?_) ?_
      · rw [hnone] at hu
        obtain rfl := mem_singleton.mp hu
        exact .inr (.inl rfl)
      · rw [hnone]
        exact le_refl 1
    · next e =>
      obtain rfl := some.inj hstep
      exact h.become hi rfl (fits_afterError (le_refl _) fun c hc _ => absurd hc (by simp [hcache]))
        (fun j other hne hj hfits => hfits.release hlock hne rfl rfl rfl) h.cached h.bound
        (fun u hu => .inr (.inr ⟨hu, by simp [hcache], id⟩)) h.one
  · cases hstep

theorem mem_erase_of_length {l : List Nat} {u v : Nat} (hl : l.length ≤ 1) (h : u ∈ l.erase v) :
    u ∈ l ∧ v ≠ u := by
  refine ⟨mem_of_mem_erase h, ?_⟩
  rintro rfl
  have hlength := length_erase_of_mem (mem_of_mem_erase h)
  have hpos := length_pos_of_mem h
  omega

theorem length_erase_le {l : List Nat} (v : Nat) (hl : l.length ≤ 1) : (l.erase v).length ≤ 1 :=
  le_trans List.length_erase_le hl

section

variable (h : Coherent s)
include h

theorem coherent_insert {record : AppResult Unit} (hstep : step s (.insert i record) = some t) :
    Coherent t := by
  unfold step at hstep
  dsimp only at hstep
  split at hstep
  · next retries t' session hi =>
    obtain ⟨hlock, hcache, hnew, hbound⟩ : s.lock = some i ∧ s.cache = none ∧
        s.inserted ≤ session ∧ session < s.serial := h.fits i _ hi
    split at hstep
    · obtain rfl := some.inj hstep
      refine h.become hi rfl (Nat.lt_succ_self session) (fun j other hne hj hfits => ?_)
        (fun c hc => by rw [some.inj hc]) hbound (fun u hu => ?_) h.one
      · obtain ⟨hchecking, hconnecting, hinserting⟩ := hfits.not_locked hlock hne
        cases hother : other.phase with
        | checking t => exact absurd hother (hchecking t)
        | connecting t => exact absurd hother (hconnecting t)
        | inserting t session => exact absurd hother (hinserting t session)
        | running t r =>
          rw [hother] at hfits
          exact Nat.lt_succ_of_lt (Nat.lt_of_lt_of_le hfits hnew)
        | failed n =>
          -- it failed before this session was cached
          rw [hother] at hfits
          have hn := le_trans hfits.1 hnew
          refine ⟨Nat.le_succ_of_le hn, fun c hc hlt => ?_⟩
          have heq := some.inj hc
          omega
        | _ => trivial
      · by_cases hu' : session = u
        · exact .inl (congrArg some hu')
        · exact .inr (.inr ⟨hu, by simp [hcache], hu'⟩)
    · next e =>
      obtain rfl := some.inj hstep
      refine h.become hi rfl (fits_afterError (le_refl _) fun c hc _ => absurd hc (by simp [hcache]))
        (fun j other hne hj hfits => hfits.release hlock hne rfl rfl rfl) h.cached h.bound
        (fun u hu => ?_) (length_erase_le session h.one)
      obtain ⟨hu, hne⟩ := mem_erase_of_length h.one hu
      exact .inr (.inr ⟨hu, by simp [hcache], hne⟩)
  · cases hstep

theorem Coherent.fail (session : Nat) : Coherent { s with failed := session :: s.failed } := by
  refine ⟨fun i caller hi => ?_, h.cached, h.bound, h.held, h.one⟩
  have hfits := h.fits i caller hi
  cases hp : caller.phase with
  | failed n =>
    rw [hp] at hfits
    exact ⟨hfits.1, fun c hc hlt => mem_cons_of_mem _ (hfits.2 c hc hlt)⟩
  | _ => rw [hp] at hfits; exact hfits

theorem coherent_finish {result : AppResult Unit} (hstep : step s (.finish i result) = some t) :
    Coherent t := by
  unfold step at hstep
  dsimp only at hstep
  split at hstep
  · next retries t' session hi =>
    obtain rfl := some.inj hstep
    have hrunning : session < s.inserted := h.fits i _ hi
    have hold : ∀ u, ¬ (Phase.running t' session).holds u := fun _ => id
    cases result with
    | ok _ => exact h.move hi trivial hold
    | error e =>
      unfold State.ran afterRun
      dsimp only
      split
      · refine (h.fail session).move hi (fits_afterError hrunning fun c hc hlt => ?_) hold
        have hnewest := h.cached c hc
        obtain rfl : c = session := by omega
        exact mem_cons_self
      · next hkind =>
        have hdone : afterError ⟨retries, .running t' session⟩ t' e (session + 1) = .done := by
          unfold afterError
          rw [if_neg fun hcond => hkind hcond.2.2]
        rw [hdone]
        exact h.move hi trivial hold
  · cases hstep

theorem coherent_remove (hstep : step s (.remove i) = some t) : Coherent t := by
  unfold step at hstep
  dsimp only at hstep
  split at hstep
  · next n session hphase hcache =>
    obtain rfl := some.inj hstep
    obtain ⟨caller, hi, hp⟩ := phase_some hphase
    refine h.become hi rfl trivial (fun j other hne hj hfits => ?_) (fun c hc => by cases hc)
      h.bound (fun u hu => .inr (.inr ⟨hu, fun hc => .inr (some.inj (hcache.symm.trans hc)),
        not_holds hp ⟨rfl, rfl⟩ u⟩)) h.one
    cases hother : other.phase with
    | connecting _ => rw [hother] at hfits; exact ⟨hfits.1, rfl⟩
    | inserting _ _ => rw [hother] at hfits; exact ⟨hfits.1, rfl, hfits.2.2⟩
    | failed n => rw [hother] at hfits; exact ⟨hfits.1, fun c hc => by cases hc⟩
    | checking _ | running _ _ => rw [hother] at hfits; exact hfits
    | _ => trivial
  · next n hphase hcache =>
    obtain rfl := some.inj hstep
    obtain ⟨caller, hi, hp⟩ := phase_some hphase
    exact h.move hi trivial (not_holds hp ⟨rfl, rfl⟩)
  · cases hstep

theorem coherent_closed (hstep : step s (.closed i) = some t) : Coherent t := by
  unfold step at hstep
  dsimp only at hstep
  split at hstep
  · next session hphase =>
    obtain rfl := some.inj hstep
    obtain ⟨caller, hi, hp⟩ := phase_some hphase
    refine h.become hi rfl trivial (fun j other hne hj hfits => ?_) h.cached h.bound
      (fun u hu => ?_) (length_erase_le session h.one)
    · cases hother : other.phase <;> rw [hother] at hfits <;> exact hfits
    · obtain ⟨hu, hne⟩ := mem_erase_of_length h.one hu
      exact .inr (.inr ⟨hu, .inl, by rw [hp]; exact hne⟩)
  · cases hstep

theorem coherent_step {e : Event} (hok : orderly s e = true) (hstep : Step s e t) : Coherent t := by
  cases e with
  | spawn retries =>
    obtain rfl := some.inj hstep
    exact coherent_spawn h retries
  | look i => exact coherent_look h hstep
  | acquire i => exact coherent_acquire h hstep
  | check i => exact coherent_check h hstep
  | connect i result => exact coherent_connect h hok hstep
  | insert i record => exact coherent_insert h hstep
  | finish i result => exact coherent_finish h hstep
  | remove i => exact coherent_remove h hstep
  | closed i => exact coherent_closed h hstep

end

/-- **Only a session that failed is closed**, and one at most is open while nobody connects, in
every orderly interleaving. -/
theorem only_failed_session_closed {s : State} {trace : List (Transition State Event)}
    (h : Run Step State.start trace s) (hok : ∀ x ∈ trace, orderly x.pre x.label = true) :
    (∀ x ∈ trace, ∀ session, Closes x.pre x.label session → session ∈ x.pre.failed) ∧
      ∀ x ∈ trace, ¬ x.post.Connecting → x.post.unclosed.length ≤ 1 := by
  obtain ⟨-, hall⟩ := Run.invariant Coherent (fun s e => orderly s e = true)
    (fun hs => coherent_step hs) h coherent_start hok
  refine ⟨fun x hx session hcloses => ?_, fun x hx _ => (hall x hx).2.2.one⟩
  obtain ⟨i, n, hlabel, hphase, hcache⟩ := hcloses
  obtain ⟨caller, hi, hp⟩ := phase_some hphase
  have hlt : session < n := by
    have horderly := hok x hx
    rw [hlabel, orderly, hphase, hcache] at horderly
    exact of_decide_eq_true horderly
  have hfits := (hall x hx).1.fits i caller hi
  rw [hp] at hfits
  exact hfits.2 session hcache hlt

def lost : AppResult Unit := .error (.connection "SSH connection lost")

/-- A caller that finds nothing cached opens a session. -/
def opens (i : Nat) : List Event :=
  [.look i, .acquire i, .check i, .connect i (.ok ()), .insert i (.ok ())]

/-- Two callers fail on one session; the second goes on before the first has reconnected, and then
runs on its session. -/
def bothReconnect : List Event :=
  .spawn true :: opens 0 ++ [.spawn true, .look 1, .finish 0 lost, .finish 1 lost, .remove 0,
    .closed 0, .remove 1] ++ opens 0 ++ [.look 1, .finish 0 (.ok ()), .finish 1 (.ok ())]

theorem reconnect_closes_failed :
    ∃ s, Run Step State.start (stepsOf step State.start bothReconnect) s ∧ s.failed = [0, 0] ∧
      s.cache = some 1 ∧
      (∀ x ∈ stepsOf step State.start bothReconnect, ∀ session, Closes x.pre x.label session →
        session ∈ x.pre.failed) ∧
      ∀ x ∈ stepsOf step State.start bothReconnect, ¬ x.post.Connecting →
        x.post.unclosed.length ≤ 1 := by
  have hrun : bothReconnect.foldlM step State.start = some ⟨some 1, none, 2, [1],
      [⟨true, .done⟩, ⟨true, .done⟩], 2, [0, 0]⟩ := by decide
  exact ⟨_, run_stepsOf hrun, rfl, rfl,
    only_failed_session_closed (run_stepsOf hrun) (by decide)⟩

/-- Two callers fail on one session; the first has reconnected when the second goes on. -/
def lateRetry : List Event :=
  .spawn true :: opens 0 ++ [.spawn true, .look 1, .finish 0 lost, .finish 1 lost, .remove 0,
    .closed 0] ++ opens 0

/-- One caller has taken the session out of the cache and waits for its close; another connects. -/
def slowClose : List Event :=
  .spawn true :: opens 0 ++ [.finish 0 lost, .remove 0, .spawn true] ++ opens 1

/-- The second caller closes the new session, on which nothing failed and the first one runs; and
after the slow close two sessions are open while nobody connects. -/
theorem late_retry_closes_healthy :
    (∃ s, Run Step State.start (stepsOf step State.start lateRetry) s ∧
      s.callers[0]? = some ⟨true, .running .second 1⟩ ∧ Closes s (.remove 1) 1 ∧ 1 ∉ s.failed) ∧
    ∃ s, Run Step State.start (stepsOf step State.start slowClose) s ∧ ¬ s.Connecting ∧
      s.unclosed = [1, 0] := by
  have hlate : lateRetry.foldlM step State.start = some ⟨some 1, none, 2, [1],
      [⟨true, .running .second 1⟩, ⟨true, .failed 1⟩], 2, [0, 0]⟩ := by decide
  have hslow : slowClose.foldlM step State.start = some ⟨some 1, none, 2, [1, 0],
      [⟨true, .closing 0⟩, ⟨true, .running .first 1⟩], 2, [0]⟩ := by decide
  refine ⟨⟨_, run_stepsOf hlate, rfl, ⟨1, 1, rfl, rfl, rfl⟩, by decide⟩,
    ⟨_, run_stepsOf hslow, ?_, rfl⟩⟩
  rintro ⟨caller, hmem, hconnects⟩
  have hnone : ∀ caller ∈ ([⟨true, .closing 0⟩, ⟨true, .running .first 1⟩] : List Caller),
      caller.phase.connects = false := by decide
  rw [hnone caller hmem] at hconnects
  cases hconnects

end VibeSsh.SessionCache
