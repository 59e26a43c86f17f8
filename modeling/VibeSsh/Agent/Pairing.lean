import VibeSsh.Agent.Client

/-! # Pairing with an agent

The agent's side of a handshake: `transport::connection::perform_handshake` with `authenticate`, the
pending code of `pairing::PairingRegistry`, and the credential file of `pairing::credential`. Any
number of handshakes run at once. The pending code is behind a lock; the credential file is not: it
is read when a token comes in, emptied when a credential is to be stored, and written after that,
with steps of other handshakes in between. What the clock and the disk do is part of the event. -/

namespace VibeSsh.Pairing

open Lib Agent List

deriving instance DecidableEq for ProtocolErrorCode

/-! ## The pending code -/

def maxFailedAttempts : Nat := 10

/-- `PAIRING_CODE_TTL`, in seconds. -/
def pairingCodeTtl : Int := 300

structure PendingCode where
  code : Text
  expiresAt : Int
  failedAttempts : Nat
  deriving DecidableEq

def bytes (t : Text) : List UInt8 := (String.ofList t).toByteArray.data.toList

def constantTimeEq (a b : List UInt8) : Bool :=
  if a.length ≠ b.length then false
  else (a.zip b).foldl (fun diff pair => diff ||| (pair.1 ^^^ pair.2)) 0 == 0

/-- `PairingRegistry::try_consume`: what is pending afterwards, and whether the candidate was it. -/
def tryConsume (pending : Option PendingCode) (now : Int) (candidate : Text) :
    Option PendingCode × Bool :=
  match pending with
  | none => (none, false)
  | some p =>
    if now > p.expiresAt then (none, false)
    else if constantTimeEq (bytes p.code) (bytes candidate) then (none, true)
    else if p.failedAttempts + 1 ≥ maxFailedAttempts then (none, false)
    else (some { p with failedAttempts := p.failedAttempts + 1 }, false)

/-! ## The credential file -/

/-- SHA-256 in hexadecimal, and the JSON of a record: its hash and when it was stored. -/
structure Codec where
  hash : Text → Text
  render : Text → Text → Text
  parse : Text → Option Text
  parse_nil : parse [] = none

variable (c : Codec)

/-- The hash of the credential that a file stores. -/
def storedIn (file : Option Text) : Option Text := file.bind c.parse

def verifyCredential (file : Option Text) (candidate : Text) : Bool :=
  match storedIn c file with
  | none => false
  | some stored => constantTimeEq (bytes stored) (bytes (c.hash candidate))

/-- Text written at the start of a file, over what is there. -/
def overwrite (text file : Text) : Text := text ++ file.drop text.length

/-! ## Handshakes -/

/-- What the first message of a connection turns out to be. -/
inductive FirstMessage where
  | none
  | malformed
  | request (protocolVersion : Nat) (authToken : Option Text)

inductive Outcome where
  | dropped
  | refused (error : ProtocolErrorCode)
  | alreadyPaired
  | newlyPaired (raw : Text)
  deriving DecidableEq

def Outcome.accepted : Outcome → Bool
  | .alreadyPaired => true
  | .newlyPaired _ => true
  | _ => false

/-- How far a handshake has come. An opened file is one that has been emptied; what was stored in it
is kept here for the history only. -/
inductive Phase where
  | connected
  | checked (token : Text)
  | consumed
  | opened (lost : Option Text)
  | done (outcome : Outcome)
  deriving DecidableEq

structure Agent where
  pending : Option PendingCode
  file : Option Text
  phase : Nat → Phase

def Agent.stored (a : Agent) : Option Text := storedIn c a.file

def Agent.enter (a : Agent) (client : Nat) (phase : Phase) : Agent :=
  { a with phase := Function.update a.phase client phase }

inductive Event where
  | register (code : Text) (now : Int)
  | first (client : Nat) (message : FirstMessage)
  | consume (client : Nat) (now : Int)
  | openFile (client : Nat) (opens : Bool)
  /-- `fails` is how much was written before the write failed. -/
  | writeFile (client : Nat) (raw pairedAt : Text) (fails : Option Nat)

def Event.client : Event → Option Nat
  | .register _ _ => none
  | .first client _ => some client
  | .consume client _ => some client
  | .openFile client _ => some client
  | .writeFile client _ _ _ => some client

/-- `perform_handshake` up to the credential check of `authenticate`. -/
def greet (file : Option Text) : FirstMessage → Phase
  | .none => .done .dropped
  | .malformed => .done (.refused .invalidMessage)
  | .request version token =>
    if version ≠ protocolVersion then .done (.refused .versionMismatch)
    else
      match token with
      | none => .done (.refused .unauthorized)
      | some token =>
        if verifyCredential c file token then .done .alreadyPaired else .checked token

/-- The file after the record of a credential was written to it, as far as it was. -/
def Agent.write (a : Agent) (raw pairedAt : Text) (fails : Option Nat) : Text :=
  let record := c.render (c.hash raw) pairedAt
  overwrite (match fails with
    | none => record
    | some n => record.take n) (a.file.getD [])

def step (a : Agent) : Event → Option Agent
  | .register code now => some { a with pending := some ⟨code, now + pairingCodeTtl, 0⟩ }
  | .first client message =>
    match a.phase client with
    | .connected => some (a.enter client (greet c a.file message))
    | _ => none
  | .consume client now =>
    match a.phase client with
    | .checked token =>
      let consumed := tryConsume a.pending now token
      some ({ a with pending := consumed.1 }.enter client
        (if consumed.2 then .consumed else .done (.refused .unauthorized)))
    | _ => none
  | .openFile client opens =>
    match a.phase client with
    | .consumed =>
      if opens then some ({ a with file := some [] }.enter client (.opened (a.stored c)))
      else some (a.enter client (.done (.refused .internal)))
    | _ => none
  | .writeFile client raw pairedAt fails =>
    match a.phase client with
    | .opened _ =>
      some ({ a with file := some (a.write c raw pairedAt fails) }.enter client
        (.done (match fails with
          | none => .newlyPaired raw
          | some _ => .refused .internal)))
    | _ => none

def Agent.Fresh (a : Agent) : Prop := a.pending = none ∧ ∀ client, a.phase client = .connected

abbrev Trace := List (Transition Agent Event)

abbrev Runs (s : Agent) (trace : Trace) (u : Agent) : Prop :=
  Run (fun a e b => step c a e = some b) s trace u

/-! ## What the results speak of -/

def Event.registers : Event → Bool
  | .register _ _ => true
  | _ => false

/-- A credential is issued: its record was written whole. -/
def Event.issues : Event → Bool
  | .writeFile _ _ _ none => true
  | _ => false

/-- Wrong tokens since the last registration, after `n` of them before the trace. -/
def wrongSince : Nat → Trace → Nat
  | n, [] => n
  | n, x :: trace =>
    match x.label with
    | .register _ _ => wrongSince 0 trace
    | .consume client _ =>
      wrongSince (if x.post.phase client = .consumed then n else n + 1) trace
    | _ => wrongSince n trace

/-- The handshake presented the credential that was stored when it was looked up. -/
def PresentedCredential (trace : Trace) (client : Nat) : Prop :=
  ∃ x ∈ trace, ∃ token, x.label = .first client (.request protocolVersion (some token)) ∧
    x.pre.stored c = some (c.hash token)

/-- The handshake presented the code that was pending, and not expired, when it was consumed. -/
def PresentedCode (trace : Trace) (client : Nat) : Prop :=
  ∃ token, (∃ y ∈ trace, y.label = .first client (.request protocolVersion (some token))) ∧
    ∃ x ∈ trace, ∃ now p, x.label = .consume client now ∧ x.pre.pending = some p ∧
      p.code = token ∧ now ≤ p.expiresAt

/-- A handshake that was not accepted has left the stored credential alone in all its steps. -/
def RejectionsHarmless (trace : Trace) (u : Agent) : Prop :=
  ∀ client outcome, u.phase client = .done outcome → outcome.accepted = false →
    ∀ x ∈ trace, x.label.client = some client → x.post.stored c = x.pre.stored c

/-- The write of a record fails only if nothing was stored when the file was opened for it, and the
first `n` characters of the record, over what is in the file by then, read as the file did without
them. -/
def FailuresLoseNothing (trace : Trace) : Prop :=
  ∀ x ∈ trace, ∀ client raw pairedAt n lost, x.label = .writeFile client raw pairedAt (some n) →
    x.pre.phase client = .opened lost →
      lost = none ∧ c.parse (overwrite ((c.render (c.hash raw) pairedAt).take n)
        (x.pre.file.getD [])) = x.pre.file.bind c.parse

/-! ## Comparisons -/

theorem bytes_inj {s t : Text} : bytes s = bytes t ↔ s = t := by
  unfold bytes
  rw [Array.toList_inj]
  constructor
  · intro h
    exact String.ofList_injective (String.toByteArray_inj.mp (ByteArray.ext h))
  · rintro rfl
    rfl

theorem foldl_or_eq_zero (pairs : List (UInt8 × UInt8)) (diff : UInt8) :
    pairs.foldl (fun diff pair => diff ||| (pair.1 ^^^ pair.2)) diff = 0 ↔
      diff = 0 ∧ ∀ pair ∈ pairs, pair.1 = pair.2 := by
  induction pairs generalizing diff with
  | nil => simp
  | cons pair pairs ih =>
    rw [foldl_cons, ih, UInt8.or_eq_zero_iff, UInt8.xor_eq_zero_iff, forall_mem_cons,
      and_assoc]

theorem constantTimeEq_iff {a b : List UInt8} : constantTimeEq a b = true ↔ a = b := by
  unfold constantTimeEq
  by_cases hlength : a.length = b.length
  · rw [if_neg (not_not.mpr hlength), beq_iff_eq, foldl_or_eq_zero]
    constructor
    · rintro ⟨-, hpairs⟩
      refine ext_getElem hlength fun i ha hb => ?_
      exact hpairs (a[i], b[i]) (mem_iff_getElem.mpr ⟨i, by simp [ha, hb], by simp⟩)
    · rintro rfl
      refine ⟨rfl, fun pair hpair => ?_⟩
      obtain ⟨i, hi, rfl⟩ := getElem_of_mem hpair
      simp
  · rw [if_pos hlength]
    constructor
    · intro h
      cases h
    · rintro rfl
      exact absurd rfl hlength

variable {pending : Option PendingCode} {candidate : Text} {now : Int}

theorem tryConsume_true (h : (tryConsume pending now candidate).2 = true) :
    (tryConsume pending now candidate).1 = none ∧
      ∃ p, pending = some p ∧ p.code = candidate ∧ now ≤ p.expiresAt := by
  unfold tryConsume at h ⊢
  split at h
  · cases h
  · next p =>
    split at h
    · cases h
    · next hlive =>
      split at h
      · next heq =>
        simp only [if_neg hlive, if_pos heq]
        exact ⟨trivial, p, rfl, bytes_inj.mp (constantTimeEq_iff.mp heq), not_lt.mp hlive⟩
      · split at h <;> cases h

/-- A miss takes away an attempt or the code. -/
theorem tryConsume_false (h : (tryConsume pending now candidate).2 = false) {q : PendingCode}
    (hq : (tryConsume pending now candidate).1 = some q) :
    ∃ p, pending = some p ∧ q.failedAttempts = p.failedAttempts + 1 ∧
      q.failedAttempts < maxFailedAttempts := by
  unfold tryConsume at h hq
  split at h
  · cases hq
  · next p =>
    split at h
    · next hlate =>
      simp only [if_pos hlate] at hq
      cases hq
    · next hlive =>
      split at h
      · cases h
      · next hne =>
        simp only [if_neg hlive, if_neg hne] at hq
        split at hq
        · cases hq
        · next hfew =>
          cases hq
          exact ⟨p, rfl, rfl, not_le.mp hfew⟩

theorem greet_cases (file : Option Text) (message : FirstMessage) :
    (∃ outcome, greet c file message = .done outcome ∧ outcome.accepted = false) ∨
      ∃ token, message = .request protocolVersion (some token) ∧
        (greet c file message = .done .alreadyPaired ∧ storedIn c file = some (c.hash token) ∨
          greet c file message = .checked token) := by
  cases message with
  | none | malformed => exact .inl ⟨_, rfl, rfl⟩
  | request version token =>
    by_cases hversion : version = protocolVersion
    · subst hversion
      cases token with
      | none => exact .inl ⟨_, rfl, rfl⟩
      | some token =>
        refine .inr ⟨token, rfl, ?_⟩
        by_cases hverify : verifyCredential c file token = true
        · refine .inl ⟨if_pos hverify, ?_⟩
          unfold verifyCredential at hverify
          split at hverify
          · cases hverify
          · next hstored => rw [hstored, bytes_inj.mp (constantTimeEq_iff.mp hverify)]
        · exact .inr (if_neg hverify)
    · exact .inl ⟨_, if_pos hversion, rfl⟩

/-! ## Steps -/

/-- What a step can be, case by case. -/
inductive Step (a : Agent) : Event → Agent → Prop where
  | register (code : Text) (now : Int) :
    Step a (.register code now) { a with pending := some ⟨code, now + pairingCodeTtl, 0⟩ }
  | first (client : Nat) (message : FirstMessage) (h : a.phase client = .connected) :
    Step a (.first client message) (a.enter client (greet c a.file message))
  | hit (client : Nat) (now : Int) (token : Text) (h : a.phase client = .checked token)
      (hhit : (tryConsume a.pending now token).2 = true) :
    Step a (.consume client now) ({ a with pending := none }.enter client .consumed)
  | miss (client : Nat) (now : Int) (token : Text) (h : a.phase client = .checked token)
      (hmiss : (tryConsume a.pending now token).2 = false) :
    Step a (.consume client now) ({ a with pending := (tryConsume a.pending now token).1 }.enter
      client (.done (.refused .unauthorized)))
  | opens (client : Nat) (h : a.phase client = .consumed) :
    Step a (.openFile client true)
      ({ a with file := some [] }.enter client (.opened (a.stored c)))
  | shut (client : Nat) (h : a.phase client = .consumed) :
    Step a (.openFile client false) (a.enter client (.done (.refused .internal)))
  | issues (client : Nat) (raw pairedAt : Text) (lost : Option Text)
      (h : a.phase client = .opened lost) :
    Step a (.writeFile client raw pairedAt none)
      ({ a with file := some (a.write c raw pairedAt none) }.enter client
        (.done (.newlyPaired raw)))
  | fails (client : Nat) (raw pairedAt : Text) (n : Nat) (lost : Option Text)
      (h : a.phase client = .opened lost) :
    Step a (.writeFile client raw pairedAt (some n))
      ({ a with file := some (a.write c raw pairedAt (some n)) }.enter client
        (.done (.refused .internal)))

section

variable {c} {a b : Agent} {e : Event}

theorem step_cases (h : step c a e = some b) : Step c a e b := by
  cases e with
  | register code now =>
    cases h
    exact .register code now
  | first client message =>
    simp only [step] at h
    split at h
    · next hphase =>
      cases h
      exact .first client message hphase
    · cases h
  | consume client now =>
    simp only [step] at h
    split at h
    · next token hphase =>
      cases h
      by_cases hhit : (tryConsume a.pending now token).2 = true
      · rw [(tryConsume_true hhit).1, if_pos hhit]
        exact .hit client now token hphase hhit
      · rw [if_neg hhit]
        exact .miss client now token hphase (Bool.not_eq_true _ ▸ hhit)
    · cases h
  | openFile client opens =>
    simp only [step] at h
    split at h
    · next hphase =>
      cases opens with
      | true =>
        cases h
        exact .opens client hphase
      | false =>
        cases h
        exact .shut client hphase
    · cases h
  | writeFile client raw pairedAt fails =>
    simp only [step] at h
    split at h
    · next lost hphase =>
      cases h
      cases fails with
      | none => exact .issues client raw pairedAt lost hphase
      | some n => exact .fails client raw pairedAt n lost hphase
    · cases h

@[simp] theorem phase_enter (client : Nat) (phase : Phase) :
    (a.enter client phase).phase client = phase := Function.update_self ..

@[simp] theorem pending_enter (client : Nat) (phase : Phase) :
    (a.enter client phase).pending = a.pending := rfl

variable {client : Nat} {outcome : Outcome} {trace : Trace} {s u : Agent}

theorem phase_enter_of_ne {other : Nat} (h : other ≠ client) (phase : Phase) :
    (a.enter client phase).phase other = a.phase other := Function.update_of_ne h ..

/-- A handshake goes on only by its own steps. -/
theorem phase_step (h : step c a e = some b) (hclient : e.client ≠ some client) :
    b.phase client = a.phase client := by
  have hne : ∀ other, some other ≠ some client → client ≠ other :=
    fun other h heq => h (congrArg some heq.symm)
  cases step_cases h with
  | register => rfl
  | first other | hit other | miss other | opens other | shut other | issues other
  | fails other =>
    exact phase_enter_of_ne (hne other hclient) _

theorem client_ne_of_done (h : step c a e = some b)
    (hdone : a.phase client = .done outcome) : e.client ≠ some client := by
  intro hclient
  cases step_cases h with
  | register => cases hclient
  | first _ _ hphase | hit _ _ _ hphase | miss _ _ _ hphase | opens _ hphase | shut _ hphase
  | issues _ _ _ _ hphase | fails _ _ _ _ _ hphase =>
    cases hclient; rw [hphase] at hdone; cases hdone

theorem done_run (h : Runs c s trace u) (hdone : s.phase client = .done outcome) :
    u.phase client = .done outcome :=
  (h.invariant (fun a => a.phase client = .done outcome) (fun _ _ => True)
    (fun ha _ hst => (phase_step hst (client_ne_of_done hst ha)).trans ha) hdone fun _ _ => trivial).1

/-! ## Where a phase begins -/

theorem acts (h : step c a e = some b) (hne : b.phase client ≠ a.phase client) :
    e.client = some client := by
  by_contra hclient
  exact hne (phase_step h hclient)

/-- What the step was, if a phase began with it. -/
def Origin (c : Codec) (a : Agent) (e : Event) (client : Nat) : Phase → Prop
  | .connected => False
  | .checked token => e = .first client (.request protocolVersion (some token))
  | .consumed => ∃ now token p, e = .consume client now ∧ a.phase client = .checked token ∧
      a.pending = some p ∧ p.code = token ∧ now ≤ p.expiresAt
  | .opened lost => e = .openFile client true ∧ a.phase client = .consumed ∧ lost = a.stored c
  | .done .alreadyPaired => ∃ token, e = .first client (.request protocolVersion (some token)) ∧
      a.stored c = some (c.hash token)
  | .done (.newlyPaired raw) => ∃ pairedAt lost, e = .writeFile client raw pairedAt none ∧
      a.phase client = .opened lost
  | .done _ => True

theorem origin_of_step (h : step c a e = some b)
    (hne : b.phase client ≠ a.phase client) : Origin c a e client (b.phase client) := by
  have hclient := acts h hne
  cases step_cases h with
  | register => cases hclient
  | first _ message =>
    cases hclient
    rw [phase_enter]
    rcases greet_cases c a.file message with ⟨outcome, hgreet, hrefused⟩ | ⟨token, rfl, hgreet⟩
    · rw [hgreet]
      cases outcome with
      | dropped | refused => trivial
      | alreadyPaired | newlyPaired => cases hrefused
    · rcases hgreet with ⟨hgreet, hstored⟩ | hgreet
      · rw [hgreet]
        exact ⟨token, rfl, hstored⟩
      · rw [hgreet]
        rfl
  | hit _ now token hphase hhit =>
    cases hclient
    obtain ⟨-, p, hp, hcode, hlive⟩ := tryConsume_true hhit
    rw [phase_enter]
    exact ⟨now, token, p, rfl, hphase, hp, hcode, hlive⟩
  | miss | shut | fails =>
    cases hclient
    rw [phase_enter]
    trivial
  | opens _ hphase =>
    cases hclient
    rw [phase_enter]
    exact ⟨rfl, hphase, rfl⟩
  | issues _ raw pairedAt lost hphase =>
    cases hclient
    rw [phase_enter]
    exact ⟨pairedAt, lost, rfl, hphase⟩

/-- A phase that a handshake is in after a run, and was not in before, began in the run. -/
theorem origin_of_run (h : Runs c s trace u) (client : Nat)
    (hne : u.phase client ≠ s.phase client) :
    ∃ before x after, trace = before ++ x :: after ∧ Runs c s before x.pre ∧
      Origin c x.pre x.label client (u.phase client) := by
  obtain ⟨before, x, after, rfl, hbefore, hstep, hpre, hpost⟩ :=
    h.exists_begin (fun a => a.phase client = u.phase client) (Ne.symm hne) rfl
  refine ⟨before, x, after, rfl, hbefore, ?_⟩
  rw [← hpost]
  exact origin_of_step hstep fun heq => hpre (heq ▸ hpost)

section

variable {trace : Trace} {s u : Agent} {client : Nat}

theorem presented_code (h : Runs c s trace u) (hs : s.phase client = .connected) {raw : Text}
    (hu : u.phase client = .done (.newlyPaired raw)) : PresentedCode trace client := by
  -- back from the write to the opening, to the consuming, to the first message
  obtain ⟨t₃, x₃, r₃, rfl, h₃, horigin⟩ := origin_of_run h client (by simp [hs, hu])
  rw [hu] at horigin
  obtain ⟨pairedAt, lost, -, hopened⟩ := horigin
  obtain ⟨t₂, x₂, r₂, rfl, h₂, horigin⟩ := origin_of_run h₃ client (by simp [hs, hopened])
  rw [hopened] at horigin
  obtain ⟨-, hconsumed, -⟩ := horigin
  obtain ⟨t₁, x₁, r₁, rfl, h₁, horigin⟩ := origin_of_run h₂ client (by simp [hs, hconsumed])
  rw [hconsumed] at horigin
  obtain ⟨now, token, p, hlabel, hchecked, hp, hcode, hlive⟩ := horigin
  obtain ⟨t₀, x₀, r₀, rfl, -, horigin⟩ := origin_of_run h₁ client (by simp [hs, hchecked])
  rw [hchecked] at horigin
  exact ⟨token, ⟨x₀, by simp, horigin⟩, x₁, by simp, now, p, hlabel, hp, hcode, hlive⟩

end

/-! ## One credential a code -/

/-- A code was consumed and its credential is neither issued nor given up. -/
def Phase.holds : Phase → Bool
  | .consumed => true
  | .opened _ => true
  | _ => false

def codes (pending : Option PendingCode) : Nat := if pending.isSome then 1 else 0

/-- The handshakes that hold a code, listed. -/
def Holders (a : Agent) (holders : Finset Nat) : Prop :=
  ∀ client, client ∈ holders ↔ (a.phase client).holds = true

section

variable {holders : Finset Nat} {client : Nat} {phase : Phase}

theorem Holders.keep (h : Holders a holders) (hphase : phase.holds = (a.phase client).holds) :
    Holders (a.enter client phase) holders := by
  intro other
  by_cases hother : other = client
  · subst hother
    rw [phase_enter, h, hphase]
  · rw [phase_enter_of_ne hother, h]

theorem Holders.insert (h : Holders a holders) (hphase : phase.holds = true) :
    Holders (a.enter client phase) (insert client holders) := by
  intro other
  by_cases hother : other = client
  · subst hother
    simp [hphase]
  · rw [phase_enter_of_ne hother, Finset.mem_insert, h]
    simp [hother]

theorem Holders.erase (h : Holders a holders) (hphase : phase.holds = false) :
    Holders (a.enter client phase) (holders.erase client) := by
  intro other
  by_cases hother : other = client
  · subst hother
    simp [hphase]
  · rw [phase_enter_of_ne hother, Finset.mem_erase, h]
    simp [hother]

end

theorem codes_tryConsume (h : (tryConsume pending now candidate).2 = false) :
    codes (tryConsume pending now candidate).1 ≤ codes pending := by
  cases hq : (tryConsume pending now candidate).1 with
  | none => simp [codes]
  | some q =>
    obtain ⟨p, rfl, -⟩ := tryConsume_false h hq
    simp [codes]

/-- A registration brings in one code, an issued credential uses one up. -/
theorem codes_step (h : step c a e = some b) {holders : Finset Nat} (hholders : Holders a holders) :
    ∃ holders', Holders b holders' ∧
      holders'.card + codes b.pending + e.issues.toNat ≤
        holders.card + codes a.pending + e.registers.toNat := by
  cases step_cases h with
  | register => exact ⟨holders, hholders, by simp [codes, Event.issues, Event.registers]⟩
  | first client message hphase =>
    refine ⟨holders, hholders.keep ?_, le_refl _⟩
    rw [hphase]
    rcases greet_cases c a.file message with ⟨_, hgreet, -⟩ | ⟨_, -, ⟨hgreet, -⟩ | hgreet⟩
    all_goals rw [hgreet]; rfl
  | hit client now token hphase hhit =>
    obtain ⟨-, p, hp, -⟩ := tryConsume_true hhit
    have hcard := Finset.card_insert_le client holders
    refine ⟨insert client holders, Holders.insert hholders rfl, ?_⟩
    simpa [codes, hp, Event.issues, Event.registers] using hcard
  | miss client now token hphase hmiss =>
    have hcodes := codes_tryConsume hmiss
    refine ⟨holders, Holders.keep hholders (by rw [hphase]; rfl), ?_⟩
    simpa [Event.issues, Event.registers] using hcodes
  | opens client hphase =>
    exact ⟨holders, Holders.keep hholders (by rw [hphase]; rfl), le_refl _⟩
  | shut client hphase | issues client _ _ _ hphase | fails client _ _ _ _ hphase =>
    have hcard := Finset.card_erase_add_one ((hholders client).mpr (by rw [hphase]; rfl))
    refine ⟨holders.erase client, Holders.erase hholders rfl, ?_⟩
    simp only [Event.issues, Event.registers, pending_enter, Bool.toNat_false, Bool.toNat_true]
    omega

theorem codes_run (h : Runs c s trace u) {holders : Finset Nat} (hholders : Holders s holders) :
    trace.countP (·.label.issues) ≤
      trace.countP (·.label.registers) + holders.card + codes s.pending := by
  induction h generalizing holders with
  | nil s => simp
  | cons hst _ ih =>
    obtain ⟨holders', hholders', hstep⟩ := codes_step hst hholders
    have hrest := ih hholders'
    rw [countP_cons, countP_cons]
    simp only [Bool.toNat, Bool.cond_eq_ite] at hstep ⊢
    omega

/-! ## Ten wrong tokens -/

/-- The attempts of the pending code are those counted, and fewer than ten. -/
def Counted (a : Agent) (wrong : Nat) : Prop :=
  ∀ p, a.pending = some p → p.failedAttempts = wrong ∧ wrong < maxFailedAttempts

theorem counted_step {wrong : Nat} (h : step c a e = some b) (hcounted : Counted a wrong) :
    ∃ wrong', Counted b wrong' ∧
      wrongSince wrong (⟨a, e, b⟩ :: trace) = wrongSince wrong' trace := by
  cases step_cases h with
  | register code now =>
    refine ⟨0, fun p hp => ?_, rfl⟩
    cases hp
    exact ⟨rfl, by decide⟩
  | first | opens | shut | issues | fails => exact ⟨wrong, hcounted, rfl⟩
  | hit client =>
    refine ⟨wrong, fun p hp => (nomatch hp), ?_⟩
    rw [wrongSince]
    simp
  | miss client now token hphase hmiss =>
    refine ⟨wrong + 1, fun q hq => ?_, ?_⟩
    · obtain ⟨p, hp, hfailed, hfew⟩ := tryConsume_false hmiss hq
      obtain ⟨hwrong, -⟩ := hcounted p hp
      omega
    · rw [wrongSince]
      simp

theorem counted_run (h : Runs c s trace u) {wrong : Nat}
    (hcounted : Counted s wrong) : Counted u (wrongSince wrong trace) := by
  induction h generalizing wrong with
  | nil s => exact hcounted
  | @cons s t u e trace hst _ ih =>
    obtain ⟨wrong', hcounted', heq⟩ := counted_step hst hcounted
    rw [heq]
    exact ih hcounted'

/-! ## Rejected handshakes -/

section

variable {trace : Trace} {s u : Agent} {client : Nat}

/-- A handshake that emptied the file and was not accepted had its write fail. -/
theorem fails_of_opened (h : Runs c s trace u) {lost : Option Text} {outcome : Outcome}
    (hs : s.phase client = .opened lost) (hu : u.phase client = .done outcome)
    (hrefused : outcome.accepted = false) :
    ∃ x ∈ trace, ∃ raw pairedAt n, x.label = .writeFile client raw pairedAt (some n) ∧
      x.pre.phase client = .opened lost := by
  obtain ⟨before, x, after, rfl, -, hstep, hpre, hpost⟩ :=
    h.exists_begin (fun a => a.phase client ≠ .opened lost) (not_not.mpr hs) (by simp [hu])
  rw [not_not] at hpre
  have hafter := h.split.2.2
  have hclient := acts hstep (hpre ▸ hpost)
  obtain ⟨pre, label, post⟩ := x
  dsimp only at hstep hpre hpost hafter hclient
  cases step_cases hstep with
  | register => cases hclient
  | first _ _ hphase | hit _ _ _ hphase | miss _ _ _ hphase | opens _ hphase | shut _ hphase =>
    cases hclient; rw [hphase] at hpre; cases hpre
  | issues _ raw =>
    cases hclient
    rw [done_run hafter (phase_enter client _)] at hu
    cases hu
    cases hrefused
  | fails _ raw pairedAt n =>
    cases hclient
    exact ⟨_, mem_append_right _ mem_cons_self, raw, pairedAt, n, rfl, hpre⟩

theorem harmless_of_failures (h : Runs c s trace u) (hfailures : FailuresLoseNothing c trace) :
    RejectionsHarmless c trace u := by
  intro client outcome hu hrefused x hx hclient
  obtain ⟨before, after, rfl⟩ := append_of_mem hx
  obtain ⟨-, hstep, hafter⟩ := h.split
  obtain ⟨pre, label, post⟩ := x
  dsimp only at hstep hafter hclient
  cases step_cases hstep with
  | register | first | hit | miss | shut => rfl
  | opens _ hphase =>
    cases hclient
    obtain ⟨y, hy, raw, pairedAt, n, hlabel, hlost⟩ :=
      fails_of_opened hafter (phase_enter client _) hu hrefused
    have hnone := (hfailures y (by simp [hy]) client raw pairedAt n _ hlabel hlost).1
    exact c.parse_nil.trans hnone.symm
  | issues =>
    cases hclient
    rw [done_run hafter (phase_enter client _)] at hu
    cases hu
    cases hrefused
  | fails _ raw pairedAt n lost hphase =>
    exact (hfailures _ hx _ raw pairedAt n lost rfl hphase).2

theorem failures_of_harmless (h : Runs c s trace u) (hs : ∀ client, s.phase client = .connected)
    (hharmless : RejectionsHarmless c trace u) : FailuresLoseNothing c trace := by
  intro x hx client raw pairedAt n lost hlabel hlost
  obtain ⟨before, after, rfl⟩ := append_of_mem hx
  obtain ⟨hbefore, hstep, hafter⟩ := h.split
  obtain ⟨pre, label, post⟩ := x
  dsimp only at hlabel hlost hstep hbefore
  subst hlabel
  -- the handshake is over with this step, so all its steps were harmless
  have hdone : post.phase client = .done (.refused .internal) := by
    cases step_cases hstep with
    | fails => exact phase_enter client _
  have hsteps := hharmless client _ (done_run hafter hdone) rfl
  constructor
  · obtain ⟨front, y, back, rfl, -, horigin⟩ := origin_of_run hbefore client (by simp [hs, hlost])
    rw [hlost] at horigin
    obtain ⟨hopen, -, hstored⟩ := horigin
    obtain ⟨-, hy, -⟩ := hbefore.split
    have hunchanged := hsteps y (by simp) (by rw [hopen]; rfl)
    rw [hopen] at hy
    rw [hstored, ← hunchanged]
    generalize y.post = b at hy
    cases step_cases hy with
    | opens => exact c.parse_nil
  · have hunchanged := hsteps _ hx rfl
    cases step_cases hstep with
    | fails => exact hunchanged

end

/-- **Agent authentication.** An accepted handshake presented the stored credential or the pending
code in time, no more credentials are issued than codes were registered, and no code is accepted
after ten wrong tokens; one that is not accepted leaves the stored credential alone exactly if no
failing write was begun over one. -/
theorem authentication_sound_iff {s u : Agent} {trace : Trace} (hs : s.Fresh)
    (h : Runs c s trace u) :
    (∀ client, u.phase client = .done .alreadyPaired → PresentedCredential c trace client) ∧
      (∀ client raw, u.phase client = .done (.newlyPaired raw) → PresentedCode trace client) ∧
      trace.countP (·.label.issues) ≤ trace.countP (·.label.registers) ∧
      (∀ before x after client now, trace = before ++ x :: after → x.label = .consume client now →
        x.post.phase client = .consumed → wrongSince 0 before < maxFailedAttempts) ∧
      (RejectionsHarmless c trace u ↔ FailuresLoseNothing c trace) := by
  obtain ⟨hpending, hphase⟩ := hs
  refine ⟨fun client hu => ?_, fun client raw => presented_code h (hphase client), ?_, ?_,
    failures_of_harmless h hphase, harmless_of_failures h⟩
  · obtain ⟨before, x, after, rfl, -, horigin⟩ := origin_of_run h client (by simp [hphase, hu])
    rw [hu] at horigin
    obtain ⟨token, hlabel, hstored⟩ := horigin
    exact ⟨x, by simp, token, hlabel, hstored⟩
  · have hnobody : Holders s ∅ := by
      intro client
      simp [hphase, Phase.holds]
    have hcodes := codes_run h hnobody
    simpa [hpending, codes] using hcodes
  · rintro before ⟨pre, label, post⟩ after client now rfl hlabel hpost
    obtain ⟨hbefore, hstep, -⟩ := h.split
    have hcounted : Counted s 0 := fun p hp => by rw [hpending] at hp; cases hp
    dsimp only at hlabel hpost hstep
    subst hlabel
    cases step_cases hstep with
    | hit _ _ token _ hhit =>
      obtain ⟨-, p, hp, -⟩ := tryConsume_true hhit
      exact (counted_run hbefore hcounted p hp).2
    | miss => rw [phase_enter] at hpost; cases hpost

end

/-! ### Two runs -/

def plainCodec : Codec where
  hash t := t
  render hash _ := 'r' :: hash
  parse
    | 'r' :: hash => some hash
    | _ => none
  parse_nil := rfl

def Agent.start (file : Option Text) : Agent := ⟨none, file, fun _ => .connected⟩

/-- A desktop pairs, and comes back with the credential. -/
def pairsAndReturns : List Event :=
  [.register "CODE" 0, .first 0 (.request 1 (some "CODE")), .consume 0 60,
    .openFile 0 true, .writeFile 0 "new" [] none,
    .first 1 (.request 1 (some "new"))]

theorem paired_run_sound :
    ∃ trace u, Runs plainCodec (Agent.start none) trace u ∧
      u.phase 0 = .done (.newlyPaired "new") ∧ PresentedCode trace 0 ∧
      u.phase 1 = .done .alreadyPaired ∧ PresentedCredential plainCodec trace 1 := by
  have hrun : Runs plainCodec (Agent.start none)
      (stepsOf (step plainCodec) (Agent.start none) pairsAndReturns) _ := run_stepsOf rfl
  obtain ⟨hcredential, hcode, -⟩ := authentication_sound_iff ⟨rfl, fun _ => rfl⟩ hrun
  exact ⟨_, _, hrun, rfl, hcode 0 _ rfl, rfl, hcredential 1 rfl⟩

/-- A desktop is paired; another presents the code of a new registration and the disk is full. -/
def diskFull : List Event :=
  [.register "CODE" 0, .first 0 (.request 1 (some "CODE")), .consume 0 60,
    .openFile 0 true, .writeFile 0 "new" [] (some 0)]

theorem refused_handshake_loses_credential :
    ∃ trace u, Runs plainCodec (Agent.start (some "rold".toList)) trace u ∧
      (Agent.start (some "rold".toList)).stored plainCodec = some "old".toList ∧
      u.phase 0 = .done (.refused .internal) ∧ u.stored plainCodec = none ∧
      ¬ RejectionsHarmless plainCodec trace u := by
  have hrun : Runs plainCodec (Agent.start (some "rold".toList))
      (stepsOf (step plainCodec) (Agent.start (some "rold".toList)) diskFull) _ := run_stepsOf rfl
  refine ⟨_, _, hrun, rfl, rfl, rfl, fun hharmless => ?_⟩
  have hopen := hharmless 0 _ rfl rfl _ (.tail _ (.tail _ (.tail _ (.head _)))) rfl
  cases hopen

end VibeSsh.Pairing
