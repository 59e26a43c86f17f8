import VibeSsh.Backend.Auth

/-! # The reset codes of one account

`password_reset.rs` with the two statements of a request apart, as `READ COMMITTED` shows them: the
`UPDATE` picks the codes that are committed and unused, and what it writes appears together with the
new code, at the commit. The statements of a confirmation are those of `Auth`. -/

namespace VibeSsh.Backend.ResetCodes

open Lib Auth List

/-- A request between its two statements. -/
structure Issuing where
  resetId : Uuid
  code : Text
  now : Int
  retires : List Uuid
  deriving DecidableEq

def retire (db : Accounts) (userId resetId : Uuid) (code : Text) (now : Int) : Issuing :=
  ⟨resetId, code, now,
    (db.passwordResets.filter fun reset => reset.userId = userId ∧ reset.usedAt = none).map (·.id)⟩

def Issuing.retired (r : Issuing) (reset : PasswordReset) : PasswordReset :=
  if reset.id ∈ r.retires ∧ reset.usedAt = none then { reset with usedAt := some r.now } else reset

def commitReset (env : Env) (db : Accounts) (userId : Uuid) (r : Issuing) : Accounts :=
  if db.passwordResets.any (·.id = r.resetId) ∨ (db.userById userId).isNone then db
  else
    { db with
      passwordResets :=
        ⟨r.resetId, userId, env.hashCode (normalizeCode r.code), r.now, r.now + codeLifetime, 0,
          none⟩ :: db.passwordResets.map r.retired }

/-- With nothing between the two statements, a request does what it does in `Auth`. -/
theorem commitReset_retire (env : Env) (db : Accounts) (userId resetId : Uuid) (code : Text)
    (now : Int) (hids : (db.passwordResets.map (·.id)).Nodup) :
    commitReset env db userId (retire db userId resetId code now) =
      (insertReset env now db userId resetId code).1 := by
  rw [commitReset, insertReset, apply_ite Prod.fst]
  refine ite_congr rfl (fun _ => rfl) fun _ => ?_
  congr 2
  refine map_congr_left fun reset hreset => ?_
  have hmem : reset.id ∈ (retire db userId resetId code now).retires ∧ reset.usedAt = none ↔
      reset.userId = userId ∧ reset.usedAt = none := by
    refine and_congr_left fun hunused => ⟨fun h => ?_, fun h => ?_⟩
    · obtain ⟨other, hother, hid⟩ := mem_map.mp h
      obtain ⟨hother, hfits⟩ := mem_filter.mp hother
      obtain rfl := inj_on_of_nodup_map hids hother hreset hid
      exact (of_decide_eq_true hfits).1
    · exact mem_map_of_mem (mem_filter.mpr ⟨hreset, by simp [h, hunused]⟩)
  exact if_congr hmem rfl rfl

/-- Wrong guesses by the code they were compared with, codes that reset the password, and those of
them that did so after a later request. -/
structure Past where
  guessed : List Uuid
  succeeded : List Uuid
  outdated : List Uuid

/-- The tables, with the latest code first, and the calls between their statements. -/
structure State where
  db : Accounts
  issuing : List Issuing
  counting : List Uuid
  resetting : List (Uuid × Text)
  past : Past

inductive Event where
  | retire (resetId : Uuid) (code : Text) (now : Int)
  | commit (r : Issuing)
  | find (code newHash : Text) (now : Int)
  | count (resetId : Uuid)
  | spend (resetId : Uuid) (newHash : Text) (now : Int)

def next (env : Env) (userId : Uuid) (s : State) : Event → State
  | .retire resetId code now =>
    { s with issuing := retire s.db userId resetId code now :: s.issuing }
  | .commit r =>
    if r ∈ s.issuing then
      { s with db := commitReset env s.db userId r, issuing := s.issuing.erase r }
    else s
  | .find code newHash now =>
    match findReset env now s.db userId code newHash with
    | .more (.countingAttempt resetId) =>
      { s with
        counting := resetId :: s.counting
        past := { s.past with guessed := resetId :: s.past.guessed } }
    | .more (.resetting resetId _ newHash) =>
      { s with resetting := (resetId, newHash) :: s.resetting }
    | _ => s
  | .count resetId =>
    if resetId ∈ s.counting then
      { s with db := countAttempt s.db resetId, counting := s.counting.erase resetId }
    else s
  | .spend resetId newHash now =>
    if (resetId, newHash) ∈ s.resetting then
      let s := { s with resetting := s.resetting.erase (resetId, newHash) }
      if (spendReset now s.db resetId userId newHash).2 = .refused invalidCode then s
      else
        { s with
          db := (spendReset now s.db resetId userId newHash).1
          past := { s.past with
            succeeded := resetId :: s.past.succeeded
            outdated :=
              if s.db.passwordResets.head?.any (·.id = resetId) then s.past.outdated
              else resetId :: s.past.outdated } }
    else s

def start (db : Accounts) : State := ⟨{ db with passwordResets := [] }, [], [], [], ⟨[], [], []⟩⟩

/-- Each code at most once, at most five wrong guesses, and none after a later request. -/
structure Safe (past : Past) : Prop where
  once : past.succeeded.Nodup
  guesses : ∀ resetId, past.guessed.count resetId ≤ maxAttempts
  latest : past.outdated = []

/-- A request starts only while no other is between its statements, and a code is compared only while
no wrong guess is still to be counted. -/
def InTurn (s : State) : Event → Prop
  | .retire .. => s.issuing = []
  | .find .. => s.counting = []
  | _ => True

/-! ## The invariant -/

/-- What every statement leaves of the rows there are. -/
structure Keeps (f : PasswordReset → PasswordReset) : Prop where
  id : ∀ reset, (f reset).id = reset.id
  userId : ∀ reset, (f reset).userId = reset.userId
  used : ∀ reset, (f reset).usedAt = none → reset.usedAt = none

/-- Only the latest code may be unused, a request in flight is alone and will retire it, and every
wrong guess is counted or about to be. -/
structure Inv (userId : Uuid) (rows : List PasswordReset) (issuing : List Issuing)
    (counting : List Uuid) (past : Past) : Prop where
  safe : Safe past
  owned : ∀ reset ∈ rows, reset.userId = userId
  unused : ∀ reset ∈ rows, reset.usedAt = none → rows.head? = some reset
  issuing : ∀ r ∈ issuing, issuing = [r] ∧
    ∀ reset ∈ rows, reset.usedAt = none → reset.id ∈ r.retires
  known : ∀ resetId ∈ past.guessed ++ past.succeeded, resetId ∈ rows.map (·.id)
  uncounted : ∀ resetId, counting.count resetId ≤ past.guessed.count resetId
  counted : ∀ reset ∈ rows, past.guessed.count reset.id = reset.attempts + counting.count reset.id
  spent : ∀ reset ∈ rows, reset.id ∈ past.succeeded → reset.usedAt ≠ none

section

variable {env : Env} {userId : Uuid} {s : State} {rows : List PasswordReset}
  {issuing : List Issuing} {counting : List Uuid} {past : Past} {f : PasswordReset → PasswordReset}

theorem Inv.map (h : Inv userId rows issuing counting past) (hf : Keeps f) {counting' : List Uuid}
    (hle : ∀ resetId, counting'.count resetId ≤ counting.count resetId)
    (hattempts : ∀ reset ∈ rows,
      (f reset).attempts + counting'.count reset.id = reset.attempts + counting.count reset.id) :
    Inv userId (rows.map f) issuing counting' past := by
  refine ⟨h.safe, ?_, ?_, fun r hr => ⟨(h.issuing r hr).1, ?_⟩, ?_,
    fun resetId => (hle resetId).trans (h.uncounted resetId), ?_, ?_⟩
  · simpa [hf.userId] using h.owned
  · refine forall_mem_map.mpr fun reset hreset hunused => ?_
    rw [List.head?_map, h.unused reset hreset (hf.used reset hunused)]
    rfl
  · refine forall_mem_map.mpr fun reset hreset hunused => ?_
    rw [hf.id]
    exact (h.issuing r hr).2 reset hreset (hf.used reset hunused)
  · simpa [hf.id] using h.known
  · refine forall_mem_map.mpr fun reset hreset => ?_
    rw [hf.id, hattempts reset hreset]
    exact h.counted reset hreset
  · refine forall_mem_map.mpr fun reset hreset hspent hunused => ?_
    rw [hf.id] at hspent
    exact h.spent reset hreset hspent (hf.used reset hunused)

theorem Inv.cons (h : Inv userId rows [] counting past) (hused : ∀ reset ∈ rows, reset.usedAt ≠ none)
    {new : PasswordReset} (hfree : new.id ∉ rows.map (·.id)) (howned : new.userId = userId)
    (hattempts : new.attempts = 0) : Inv userId (new :: rows) [] counting past := by
  refine ⟨h.safe, forall_mem_cons.mpr ⟨howned, h.owned⟩, ?_, by simp, ?_, h.uncounted, ?_, ?_⟩
  · exact forall_mem_cons.mpr
      ⟨fun _ => rfl, fun reset hreset hunused => absurd hunused (hused reset hreset)⟩
  · exact fun resetId hpast => mem_cons_of_mem _ (h.known resetId hpast)
  · refine forall_mem_cons.mpr ⟨?_, h.counted⟩
    have hnone : past.guessed.count new.id = 0 :=
      count_eq_zero.mpr fun hmem => hfree (h.known _ (mem_append_left _ hmem))
    have := h.uncounted new.id
    omega
  · refine forall_mem_cons.mpr ⟨fun hmem => ?_, h.spent⟩
    exact absurd (h.known _ (mem_append_right _ hmem)) hfree

theorem keeps_retired (r : Issuing) : Keeps r.retired := by
  constructor <;> intro reset <;> unfold Issuing.retired <;> split <;> simp_all

variable {db : Accounts}

theorem inv_commit {r : Issuing} (h : Inv userId db.passwordResets issuing counting past)
    (hr : r ∈ issuing) :
    Inv userId (commitReset env db userId r).passwordResets (issuing.erase r) counting past := by
  obtain ⟨halone, hretires⟩ := h.issuing r hr
  have hnone : Inv userId db.passwordResets [] counting past := { h with issuing := by simp }
  rw [halone, erase_cons_head]
  unfold commitReset
  split
  · exact hnone
  next hfree =>
  refine (hnone.map (keeps_retired r) (fun _ => le_rfl) fun reset _ => ?_).cons ?_ ?_ rfl rfl
  · unfold Issuing.retired
    split <;> rfl
  · refine forall_mem_map.mpr fun reset hreset hunused => ?_
    have hold := (keeps_retired r).used reset hunused
    simp [Issuing.retired, hretires reset hreset hold, hold] at hunused
  · simpa [(keeps_retired r).id] using (not_or.mp hfree).1

theorem findReset_wrong {code newHash : Text} {now : Int} {resetId : Uuid}
    (h : findReset env now db userId code newHash = .more (.countingAttempt resetId)) :
    ∃ reset ∈ db.passwordResets, reset.id = resetId ∧ reset.attempts < maxAttempts := by
  unfold findReset at h
  split at h
  · cases h
  next reset hpending =>
  have hmem := mem_of_mem_head? hpending
  rw [mem_insertionSort] at hmem
  split at h
  · cases h
  next hattempts =>
  split at h <;> cases h
  exact ⟨reset, mem_of_mem_filter hmem, rfl, by omega⟩

variable {reset : PasswordReset}

theorem inv_guess (h : Inv userId rows issuing [] past) (hreset : reset ∈ rows)
    (hattempts : reset.attempts < maxAttempts) :
    Inv userId rows issuing [reset.id] { past with guessed := reset.id :: past.guessed } := by
  have hcounted := h.counted reset hreset
  rw [count_nil] at hcounted
  refine ⟨⟨h.safe.once, fun id => ?_, h.safe.latest⟩, h.owned, h.unused, h.issuing, ?_, fun id => ?_,
    fun other hother => ?_, h.spent⟩
  · have := h.safe.guesses id
    rw [count_cons]
    split
    · next hid =>
      obtain rfl : reset.id = id := by simpa using hid
      omega
    · exact this
  · exact forall_mem_cons.mpr ⟨mem_map_of_mem hreset, h.known⟩
  · simp only [count_cons, count_nil]
    omega
  · have := h.counted other hother
    simp only [count_cons, count_nil] at this ⊢
    omega

theorem inv_count {resetId : Uuid}
    (h : Inv userId db.passwordResets issuing counting past) (hmem : resetId ∈ counting) :
    Inv userId (countAttempt db resetId).passwordResets issuing (counting.erase resetId) past := by
  refine h.map (by constructor <;> intro reset <;> split <;> simp)
    (fun id => erase_sublist.count_le id) fun reset _ => ?_
  have hpos := count_pos_iff.mpr hmem
  split
  · next hid =>
    rw [hid, count_erase_self]
    dsimp only
    omega
  · next hid => rw [count_erase_of_ne hid]

def usedBy (now : Int) (resetId : Uuid) (reset : PasswordReset) : PasswordReset :=
  if reset.id = resetId ∧ reset.usedAt = none then { reset with usedAt := some now } else reset

theorem inv_spend (h : Inv userId rows issuing counting past) (hreset : reset ∈ rows)
    (hunused : reset.usedAt = none) (now : Int) :
    Inv userId (rows.map (usedBy now reset.id)) issuing counting
      { past with succeeded := reset.id :: past.succeeded } := by
  have hkeeps : Keeps (usedBy now reset.id) := by
    constructor <;> intro reset <;> unfold usedBy <;> split <;> simp_all
  have hmap := h.map hkeeps (fun _ => le_rfl) fun old _ => by
    unfold usedBy
    split <;> rfl
  refine { hmap with safe := ⟨?_, h.safe.guesses, h.safe.latest⟩, known := ?_, spent := ?_ }
  · exact nodup_cons.mpr ⟨fun hmem => h.spent reset hreset hmem hunused, h.safe.once⟩
  · intro id hid
    rcases mem_append.mp hid with hid | hid
    · exact hmap.known id (mem_append_left _ hid)
    rcases mem_cons.mp hid with rfl | hid
    · rw [map_map]
      exact mem_map.mpr ⟨reset, hreset, hkeeps.id reset⟩
    · exact hmap.known id (mem_append_right _ hid)
  · intro other hother hmem
    rcases mem_cons.mp hmem with hid | hmem
    · obtain ⟨old, hold, rfl⟩ := mem_map.mp hother
      rw [hkeeps.id] at hid
      intro hnone
      simp [usedBy, hid, hkeeps.used old hnone] at hnone
    · exact hmap.spent other hother hmem

theorem inv_next (h : Inv userId s.db.passwordResets s.issuing s.counting s.past) {e : Event}
    (hturn : InTurn s e) :
    Inv userId (next env userId s e).db.passwordResets (next env userId s e).issuing
      (next env userId s e).counting (next env userId s e).past := by
  cases e with
  | retire resetId code now =>
    refine { h with issuing := fun r hr => ?_ }
    simp only [next, show s.issuing = [] from hturn, mem_singleton] at hr ⊢
    subst hr
    refine ⟨rfl, fun reset hreset hunused => mem_map_of_mem ?_⟩
    simpa using ⟨hreset, h.owned reset hreset, hunused⟩
  | commit r =>
    simp only [next]
    split
    · next hr => exact inv_commit h hr
    · exact h
  | find code newHash now =>
    simp only [next]
    split
    · next resetId hfind =>
      obtain ⟨reset, hreset, rfl, hattempts⟩ := findReset_wrong hfind
      rw [show s.counting = [] from hturn] at h ⊢
      exact inv_guess h hreset hattempts
    · exact h
    · exact h
  | count resetId =>
    simp only [next]
    split
    · next hmem => exact inv_count h hmem
    · exact h
  | spend resetId newHash now =>
    simp only [next]
    split
    · split
      · exact h
      · next hdone =>
        simp only [spendReset] at hdone ⊢
        split at hdone
        · next hany =>
          obtain ⟨reset, hreset, rfl, hunused⟩ := by simpa using hany
          rw [if_pos hany, h.unused reset hreset hunused, if_pos (by simp)]
          exact inv_spend h hreset hunused now
        · exact absurd rfl hdone
    · exact h

end

/-- **Where requests and guesses take their turns, a code resets the password once, outlives five wrong
guesses at most, and works only while no later request has completed.** -/
theorem codes_safe (env : Env) (userId : Uuid) (db : Accounts) (events : List Event)
    (hturns : ∀ x ∈ traceOf (next env userId) (start db) events, InTurn x.pre x.label) :
    ∀ x ∈ traceOf (next env userId) (start db) events, Safe x.post.past := by
  intro x hx
  refine (((run_traceOf (next env userId) (start db) events).invariant
    (fun s => Inv userId s.db.passwordResets s.issuing s.counting s.past) InTurn ?_ ?_
    hturns).2 x hx).2.2.safe
  · rintro s e t hs hturn rfl
    exact inv_next hs hturn
  · constructor <;> simp [start]
    exact ⟨nodup_nil, by simp, rfl⟩

def account : Uuid := .repeated 1

def oneAccount : Accounts :=
  ⟨[⟨account, "ada@example.org", "secret", false, none, none, none, none, 0⟩], [], [], []⟩

def first : Issuing := ⟨.repeated 2, "AAAA", 0, []⟩

def second : Issuing := ⟨.repeated 3, "BBBB", 1, []⟩

/-- The later of two requests that overlap resets the password, and then the earlier one does. -/
def overlapping : List Event :=
  [.retire first.resetId first.code 0, .retire second.resetId second.code 1, .commit first,
    .commit second, .find "BBBB" "new" 2, .spend second.resetId "new" 2, .find "AAAA" "newer" 3,
    .spend first.resetId "newer" 3]

theorem earlier_code_resets :
    ¬ ∀ x ∈ traceOf (next .plain account) (start oneAccount) overlapping, Safe x.post.past := by
  intro h
  have hlast := h _ (getLast_mem (by decide))
  exact absurd hlast.latest (by decide)

def oneRequest : List Event :=
  [.retire first.resetId first.code 0, .commit first, .find "BBBB" "new" 1,
    .count first.resetId, .find "AAAA" "new" 2, .spend first.resetId "new" 2]

theorem single_request_is_safe :
    (∀ x ∈ traceOf (next .plain account) (start oneAccount) oneRequest, InTurn x.pre x.label) ∧
      ∀ x ∈ traceOf (next .plain account) (start oneAccount) oneRequest, Safe x.post.past := by
  have hturns : ∀ x ∈ traceOf (next .plain account) (start oneAccount) oneRequest,
      InTurn x.pre x.label := by
    simp only [oneRequest, traceOf, forall_mem_cons, InTurn, not_mem_nil, IsEmpty.forall_iff,
      implies_true, true_and, and_true]
    decide
  exact ⟨hturns, codes_safe _ _ _ _ hturns⟩

end VibeSsh.Backend.ResetCodes
