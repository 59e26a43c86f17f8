import VibeSsh.Backend.Schema

/-! # The daily allowance of the hosted model

The `ai_usage` rows of one account, with its requests to `ai::chat` between their statements: a
question is reserved, the provider answers or fails, and a failure is refunded. -/

namespace VibeSsh.Backend.AiQuota

open Lib

def defaultDailyLimit : Nat := 20

def maxPromptChars : Nat := 60000

/-- `AI_DAILY_QUESTION_LIMIT`, or the default where it is no positive `i32`. -/
def dailyLimit (raw : Option Text) : Nat :=
  ((raw.bind (Text.parseUnsigned 2147483647)).filter (0 < ·)).getD defaultDailyLimit

/-- The checks of `chat` before it reserves; the characters of the prompt. -/
def promptChars (messages : List Text) : ApiResult Nat :=
  let chars := (messages.map List.length).sum
  if messages.isEmpty then
    .error (.invalidInput (.new "ai_empty_question" "there is nothing to ask"))
  else if chars > maxPromptChars then
    .error (.invalidInput ⟨"ai_question_too_large",
      "the question is too large for the included model (" ++ Text.ofNat chars ++
        " characters, limit " ++ Text.ofNat maxPromptChars ++ [')'],
      [("characters", Text.ofNat chars), ("limit", Text.ofNat maxPromptChars)]⟩)
  else .ok chars

/-- What a row counts: questions and characters. -/
abbrev Usage := Nat × Nat

/-- The upsert: a day's first question is inserted, any other counted below the limit. -/
def reserveQuestion (limit chars : Nat) : Option Usage → ApiResult Usage
  | none => .ok (1, chars)
  | some (used, sent) =>
    if used < limit then .ok (used + 1, sent + chars)
    else .error (.tooManyRequests ⟨"ai_daily_limit_used",
      "the daily limit of " ++ Text.ofNat limit ++ " questions has been used",
      [("limit", Text.ofNat limit)]⟩)

def refundQuestion (chars : Nat) (row : Usage) : Usage := (row.1 - 1, row.2 - chars)

/-- A reserved question: the day it was reserved on and its characters. -/
abbrev Question := Nat × Nat

structure State where
  today : Nat
  usage : Nat → Option Usage
  /-- The provider has been asked. -/
  waiting : Multiset Question
  /-- It has failed, and the refund is about to run. -/
  failing : Multiset Question
  answered : Multiset Question

inductive Event where
  | midnight
  | ask (messages : List Text)
  | answer (q : Question)
  | fail (q : Question)
  /-- A statement the database refuses is only logged. -/
  | refund (q : Question) (accepted : Bool)

def next (limit : Nat) (s : State) : Event → State
  | .midnight => { s with today := s.today + 1 }
  | .ask messages =>
    match promptChars messages with
    | .error _ => s
    | .ok chars =>
      match reserveQuestion limit chars (s.usage s.today) with
      | .error _ => s
      | .ok row => { s with
          usage := Function.update s.usage s.today (some row)
          waiting := (s.today, chars) ::ₘ s.waiting }
  | .answer q =>
    if q ∈ s.waiting then
      { s with waiting := s.waiting.erase q, answered := q ::ₘ s.answered }
    else s
  | .fail q =>
    if q ∈ s.waiting then { s with waiting := s.waiting.erase q, failing := q ::ₘ s.failing } else s
  | .refund q accepted =>
    if q ∈ s.failing then
      { s with
        failing := s.failing.erase q
        usage :=
          if accepted then
            Function.update s.usage s.today ((s.usage s.today).map (refundQuestion q.2))
          else s.usage }
    else s

def start (today : Nat) : State := ⟨today, fun _ => none, 0, 0, 0⟩

/-! ## What the rows should count -/

/-- What some questions take of a day. -/
def spent (d : Nat) (questions : Multiset Question) : Usage :=
  (questions.map fun q => if q.1 = d then (1, q.2) else 0).sum

def State.charged (s : State) : Multiset Question := s.waiting + s.failing + s.answered

/-- The rows count every question but those that failed and are done with. -/
def Counted (s : State) : Prop := ∀ d, (s.usage d).getD 0 = spent d s.charged

/-- And the answers of each day keep to the limit. -/
def Fair (limit : Nat) (s : State) : Prop := Counted s ∧ ∀ d, (spent d s.answered).1 ≤ limit

/-- A refund is accepted, on the day of its question. -/
def Timely (s : State) : Event → Prop
  | .refund q accepted => q ∈ s.failing → accepted = true ∧ q.1 = s.today
  | _ => True

def Bounded (limit : Nat) (s : State) : Prop := ∀ d, ((s.usage d).getD 0).1 ≤ limit

@[simp] theorem spent_cons (d : Nat) (q : Question) (m : Multiset Question) :
    spent d (q ::ₘ m) = (if q.1 = d then (1, q.2) else 0) + spent d m := by
  simp [spent]

@[simp] theorem spent_add (d : Nat) (m m' : Multiset Question) :
    spent d (m + m') = spent d m + spent d m' := by
  simp [spent]

theorem dailyLimit_pos (raw : Option Text) : 0 < dailyLimit raw := by
  unfold dailyLimit
  cases h : (raw.bind (Text.parseUnsigned 2147483647)).filter (0 < ·) with
  | none => decide
  | some n => simpa using (Option.filter_eq_some_iff.mp h).2

theorem reserveQuestion_ok {limit chars : Nat} {row : Option Usage} {after : Usage}
    (h : reserveQuestion limit chars row = .ok after) :
    after = (1, chars) + row.getD 0 ∧ (0 < limit → after.1 ≤ limit) := by
  rcases row with _ | ⟨used, sent⟩
  · cases h
    exact ⟨rfl, id⟩
  · simp only [reserveQuestion] at h
    split at h
    · next hused =>
      cases h
      exact ⟨by simp [add_comm], fun _ => hused⟩
    · cases h

/-- What a step does to the rows and to the questions they should count. -/
inductive Step (limit : Nat) (s t : State) : Event → Prop where
  | other {e : Event} : t.usage = s.usage → t.charged = s.charged → Timely s e → Step limit s t e
  | reserve {messages : List Text} {chars : Nat} {row : Usage} :
    reserveQuestion limit chars (s.usage s.today) = .ok row →
    t.usage = Function.update s.usage s.today (some row) →
    t.charged = (s.today, chars) ::ₘ s.charged → Step limit s t (.ask messages)
  | refund {q : Question} {accepted : Bool} : q ∈ s.failing →
    (t.usage = if accepted then
      Function.update s.usage s.today ((s.usage s.today).map (refundQuestion q.2)) else s.usage) →
    s.charged = q ::ₘ t.charged → Step limit s t (.refund q accepted)

theorem step_next (limit : Nat) (s : State) (e : Event) : Step limit s (next limit s e) e := by
  cases e with
  | midnight => exact .other rfl rfl trivial
  | ask messages =>
    simp only [next]
    split
    · exact .other rfl rfl trivial
    · split
      · exact .other rfl rfl trivial
      · next h => exact .reserve h rfl (by simp [State.charged])
  | answer q | fail q =>
    simp only [next]
    split
    · next hq =>
      refine .other rfl ?_ trivial
      conv_rhs => rw [State.charged, ← Multiset.cons_erase hq]
      simp [State.charged]
    · exact .other rfl rfl trivial
  | refund q accepted =>
    simp only [next]
    split
    · next hq =>
      refine .refund hq rfl ?_
      rw [State.charged, ← Multiset.cons_erase hq]
      simp [State.charged]
    · next hq => exact .other rfl rfl fun hq' => absurd hq' hq

theorem Step.bounded {limit : Nat} {s t : State} {e : Event} (h : Step limit s t e)
    (hlimit : 0 < limit) (hs : Bounded limit s) : Bounded limit t := by
  intro d
  cases h with
  | other husage => exact husage ▸ hs d
  | reserve hrow husage =>
    rw [husage, Function.update_apply]
    split
    · exact (reserveQuestion_ok hrow).2 hlimit
    · exact hs d
  | @refund q accepted _ husage =>
    rw [husage]
    cases accepted
    · exact hs d
    · rw [if_pos rfl, Function.update_apply]
      split
      · next hd =>
        subst hd
        have hrow := hs s.today
        cases hu : s.usage s.today with
        | none => simp
        | some row => exact (Nat.sub_le ..).trans (by simpa [hu] using hrow)
      · exact hs d

theorem Step.counted_iff {limit : Nat} {s t : State} {e : Event} (h : Step limit s t e)
    (hs : Counted s) : Counted t ↔ Timely s e := by
  cases h with
  | other husage hcharged htimely =>
    refine iff_of_true (fun d => ?_) htimely
    rw [husage, hcharged, hs d]
  | reserve hrow husage hcharged =>
    refine iff_of_true (fun d => ?_) trivial
    rw [husage, hcharged, spent_cons, ← hs d, Function.update_apply]
    by_cases hd : d = s.today
    · simp [hd, (reserveQuestion_ok hrow).1]
    · simp [hd, Ne.symm hd]
  | @refund q accepted hq husage hcharged =>
    have hrow := hs q.1
    rw [hcharged, spent_cons, if_pos rfl] at hrow
    constructor
    · intro ht _
      -- the row of the question's day has to change
      by_contra hlate
      have hsame : t.usage q.1 = s.usage q.1 := by
        rw [husage]
        cases accepted
        · rfl
        · rw [if_pos rfl, Function.update_of_ne (by simpa using hlate)]
      have := congrArg Prod.fst (hrow.symm.trans (hsame ▸ ht q.1))
      simp at this
    · intro h d
      obtain ⟨rfl, hday⟩ := h hq
      rw [husage, if_pos rfl, Function.update_apply]
      by_cases hd : d = s.today
      · rw [if_pos hd, hd, ← hday]
        cases hu : s.usage q.1 with
        | none =>
          rw [hu] at hrow
          have hcount : 0 = 1 + (spent q.1 t.charged).1 := congrArg Prod.fst hrow
          omega
        | some row =>
          rw [hu, Option.getD_some] at hrow
          simp [refundQuestion, hrow]
      · rw [if_neg hd, hs d, hcharged, spent_cons, if_neg (by omega), zero_add]

/-- **The allowance is kept exactly by the runs whose refunds are all accepted on the day of their
question.** -/
theorem fair_iff_timely (raw : Option Text) (today : Nat) (events : List Event) :
    (∀ x ∈ traceOf (next (dailyLimit raw)) (start today) events, Fair (dailyLimit raw) x.post) ↔
      ∀ x ∈ traceOf (next (dailyLimit raw)) (start today) events, Timely x.pre x.label := by
  have hfair : ∀ {s}, Counted s → Bounded (dailyLimit raw) s → Fair (dailyLimit raw) s := by
    intro s hs hb
    refine ⟨hs, fun d => (le_trans ?_ (hb d))⟩
    rw [hs d, State.charged, spent_add]
    exact Nat.le_add_left ..
  refine Run.forall_iff (fun s => Counted s ∧ Bounded (dailyLimit raw) s) Timely
    (fun _ _ t => Fair (dailyLimit raw) t) ?_ ?_ (run_traceOf ..) ?_
  · rintro s e t ⟨hs, hb⟩ rfl
    have hstep := step_next (dailyLimit raw) s e
    rw [← hstep.counted_iff hs]
    exact ⟨And.left, fun ht => hfair ht (hstep.bounded (dailyLimit_pos raw) hb)⟩
  · rintro s e t ⟨-, hb⟩ rfl ht
    exact ⟨ht.1, (step_next _ s e).bounded (dailyLimit_pos raw) hb⟩
  · exact ⟨fun _ => rfl, fun _ => Nat.zero_le _⟩

/-- A question fails after midnight, when another is being asked. -/
def failsAfterMidnight : List Event :=
  [.ask ["why?"], .midnight, .fail (0, 4), .ask ["how?"], .refund (0, 4) true,
    .answer (1, 4), .ask ["who?"], .answer (1, 4)]

theorem two_answers_of_one :
    dailyLimit (some ['1']) = 1 ∧
      (spent 1 (failsAfterMidnight.foldl (next 1) (start 0)).answered).1 = 2 ∧
      (failsAfterMidnight.foldl (next 1) (start 0)).usage 0 = some (1, 4) := by
  decide

end VibeSsh.Backend.AiQuota
