import VibeSsh.Lib.Text

/-! # The rate limiter

`rate_limit.rs`: the attempts of each key in the last five minutes, in a table that is pruned when it
has grown large. An attempt that was refused does not count, nor one a whole window old. -/

namespace VibeSsh.Backend.RateLimit

open Lib List

def maxAttempts : Nat := 10

/-- Five minutes, in nanoseconds. -/
def window : Nat := 5 * 60 * 10 ^ 9

def maxTrackedKeys : Nat := 50000

inductive Decision where
  | allow
  | retryAfter (seconds : Nat)
  deriving DecidableEq

/-- The attempts of each key, oldest first. -/
abbrev RateLimiter := Std.HashMap Text (List Nat)

/-- `now.duration_since(seen) < WINDOW`. -/
def recent (now seen : Nat) : Bool := now - seen < window

def prune (attempts : RateLimiter) (now : Nat) : RateLimiter :=
  if maxTrackedKeys < attempts.size then attempts.filter fun _ seen => seen.any (recent now)
  else attempts

def check (limiter : RateLimiter) (key : Text) (now : Nat) : Decision × RateLimiter :=
  let attempts := prune limiter now
  let seen := (attempts.getD key []).filter (recent now)
  if maxAttempts ≤ seen.length then
    let elapsed := now - seen.head?.getD now
    (.retryAfter (max ((window - elapsed) / 10 ^ 9) 1), attempts.insert key seen)
  else (.allow, attempts.insert key (seen ++ [now]))

/-! ## Sequences of calls -/

/-- The limiter, and the attempts it has allowed. -/
structure State where
  limiter : RateLimiter
  allowed : List (Text × Nat)

def State.next (s : State) (call : Text × Nat) : State :=
  match check s.limiter call.1 call.2 with
  | (.allow, limiter) => ⟨limiter, s.allowed ++ [call]⟩
  | (.retryAfter _, limiter) => ⟨limiter, s.allowed⟩

/-- When the attempts of a key were allowed. -/
def State.times (s : State) (key : Text) : List Nat := (s.allowed.filter (·.1 = key)).map (·.2)

def within (start seen : Nat) : Bool := start ≤ seen && seen < start + window

/-- The table holds every allowed attempt that still counts at `now` or later. -/
structure Inv (s : State) (now : Nat) : Prop where
  past : ∀ key, ∀ seen ∈ s.times key, seen ≤ now
  kept : ∀ key later, now ≤ later →
    (s.limiter.getD key []).filter (recent later) = (s.times key).filter (recent later)
  bound : ∀ key start, ((s.times key).filter (within start)).length ≤ maxAttempts

variable {now later : Nat}

theorem recent_of_le {seen : Nat} (h : now ≤ later) (hseen : recent later seen = true) :
    recent now seen = true := by
  simp only [recent, decide_eq_true_eq] at hseen ⊢
  omega

theorem filter_recent (h : now ≤ later) (seen : List Nat) :
    (seen.filter (recent now)).filter (recent later) = seen.filter (recent later) := by
  rw [filter_filter]
  refine filter_congr fun t _ => ?_
  rw [Bool.and_eq_left_iff_imp]
  exact recent_of_le h

/-- Pruning drops no attempt that still counts. -/
theorem recent_prune (limiter : RateLimiter) (h : now ≤ later) (key : Text) :
    ((prune limiter now).getD key []).filter (recent later) =
      (limiter.getD key []).filter (recent later) := by
  unfold prune
  split
  · rw [Std.HashMap.getD_filter', Std.HashMap.getD_eq_getD_getElem?]
    cases limiter[key]? with
    | none => rfl
    | some seen =>
      by_cases hany : seen.any (recent now) = true
      · simp [Option.filter, hany]
      · have hnone : seen.filter (recent later) = [] := by
          refine filter_eq_nil_iff.mpr fun t ht hlater => hany ?_
          exact any_eq_true.mpr ⟨t, ht, recent_of_le h hlater⟩
        simp [Option.filter, hany, hnone]
  · rfl

variable {s : State} {call : Text × Nat}

/-- What a call adds to the attempts of a key: its own, if it is about the key and fewer than ten
count. -/
theorem next_spec (s : State) (call : Text × Nat) (key : Text) : ∃ new,
    (new = [] ∨ new = [call.2] ∧
      ((s.limiter.getD key []).filter (recent call.2)).length < maxAttempts) ∧
    (s.next call).times key = s.times key ++ new ∧
    ∀ later, call.2 ≤ later → ((s.next call).limiter.getD key []).filter (recent later) =
      (s.limiter.getD key []).filter (recent later) ++ new.filter (recent later) := by
  obtain ⟨k, now⟩ := call
  have hkept := fun later (h : now ≤ later) => recent_prune s.limiter h key
  unfold State.next check
  dsimp only
  split
  · next hallow =>
    split at hallow
    · cases hallow
    next hfew =>
    cases hallow
    by_cases hk : k = key
    · subst hk
      refine ⟨[now], .inr ⟨rfl, ?_⟩, by simp [State.times], fun later h => ?_⟩
      · rw [← hkept now le_rfl]
        omega
      · rw [Std.HashMap.getD_insert_self, filter_append, filter_recent h, hkept later h]
    · refine ⟨[], .inl rfl, by simp [State.times, hk], fun later h => ?_⟩
      rw [Std.HashMap.getD_insert, if_neg (by simpa using hk), hkept later h]
      simp
  · next hrefuse =>
    split at hrefuse
    · cases hrefuse
      refine ⟨[], .inl rfl, by simp [State.times], fun later h => ?_⟩
      rw [Std.HashMap.getD_insert, ← hkept later h]
      split
      · next hk => simp [filter_recent h, eq_of_beq hk]
      · simp
    · cases hrefuse

theorem Inv.next (hinv : Inv s now) (h : now ≤ call.2) : Inv (s.next call) call.2 := by
  refine ⟨fun key seen hseen => ?_, fun key later hlater => ?_, fun key start => ?_⟩
  all_goals obtain ⟨new, hnew, htimes, hkept⟩ := next_spec s call key
  · rw [htimes] at hseen
    rcases mem_append.mp hseen with hseen | hseen
    · exact (hinv.past key seen hseen).trans h
    · rcases hnew with rfl | ⟨rfl, -⟩ <;> simp_all
  · rw [hkept later hlater, htimes, filter_append, hinv.kept key later (h.trans hlater)]
  · rw [htimes, filter_append]
    by_cases hin : new.filter (within start) = []
    · rw [hin, append_nil]
      exact hinv.bound key start
    -- every earlier attempt of the window still counts at this one
    obtain rfl | ⟨rfl, hfew⟩ := hnew
    · exact absurd rfl hin
    have hnow : within start call.2 = true := by
      by_contra hout
      simp [hout] at hin
    have hsub : (s.times key).filter (within start) <+ (s.times key).filter (recent call.2) := by
      refine monotone_filter_right _ fun seen hseen => ?_
      simp only [within, recent, Bool.and_eq_true, decide_eq_true_eq] at hnow hseen ⊢
      omega
    rw [hinv.kept key call.2 h] at hfew
    simp only [filter_cons, hnow, if_true, filter_nil, length_append, length_singleton]
    exact hsub.length_le.trans_lt hfew

/-- **At most ten attempts in any window.** -/
theorem allowed_within_window (calls : List (Text × Nat)) (hclock : calls.Pairwise (·.2 ≤ ·.2))
    (key : Text) (start : Nat) :
    (((calls.foldl State.next ⟨∅, []⟩).times key).filter (within start)).length ≤ maxAttempts := by
  have hrun : ∀ (calls : List (Text × Nat)) (s : State) (now : Nat), Inv s now →
      (∀ call ∈ calls, now ≤ call.2) → calls.Pairwise (·.2 ≤ ·.2) →
      ∃ now, Inv (calls.foldl State.next s) now := by
    intro calls
    induction calls with
    | nil => exact fun s now hinv _ _ => ⟨now, hinv⟩
    | cons call calls ih =>
      intro s now hinv hafter hclock
      obtain ⟨hfirst, hrest⟩ := pairwise_cons.mp hclock
      exact ih _ _ (hinv.next (hafter call mem_cons_self)) hfirst hrest
  obtain ⟨now, hinv⟩ := hrun calls ⟨∅, []⟩ 0 ⟨by simp [State.times], by simp [State.times],
    by simp [State.times]⟩ (fun _ _ => Nat.zero_le _) hclock
  exact hinv.bound key start

theorem eleven_attempts_bounded :
    ((((replicate 11 ("ip:a".toList, 0)).foldl State.next ⟨∅, []⟩).times "ip:a").filter
      (within 0)).length ≤ maxAttempts :=
  allowed_within_window _ (by decide) "ip:a" 0

end VibeSsh.Backend.RateLimit
