import VibeSsh.Firewall.Added
import VibeSsh.Firewall.Lockout

/-! # Rules made by hand

Runs of everything the program does to a Node's firewall, with an administrator at the Node's own
shell. Beside the world a run carries the rules the administrator made and has not deleted. The
program knows its own rules by their comment alone: asking for a rule that is there already puts the
comment on it, and a later sync that no longer wants it revokes it. -/

namespace VibeSsh.Firewall

open Lib Command List

/-- The world, and the rules made by hand. -/
structure Watched where
  world : World
  byHand : List FirewallRule

inductive HandOp where
  | program (op : Op)
  | allow (rule : FirewallRule) (spelled : rule.Spelled)
  | delete (rule : FirewallRule)

/-- `ufw allow` without a comment: a rule that is there already is left as it is. -/
def Ufw.allowByHand (rule : FirewallRule) (u : Ufw) : Ufw :=
  if u.rules.any (·.rule = rule) then u else { u with rules := u.rules ++ [⟨rule, false⟩] }

def Watched.next (serverId : Uuid) (s : Watched) : HandOp → Watched
  | .program op => { s with world := Firewall.next serverId s.world op }
  | .allow rule _ =>
    if s.world.ufw.rules.any (·.rule = rule) then s
    else ⟨onUfw (Ufw.allowByHand rule) s.world, rule :: s.byHand⟩
  | .delete rule => ⟨onUfw (Ufw.delete rule) s.world, s.byHand.filter (· ≠ rule)⟩

/-- What the administrator made is there. -/
def HandMade (byHand : List FirewallRule) (w : World) : Prop := Present byHand w

/-- Neither the rule nor what ufw shows of it was made by hand. -/
def Apart (byHand : List FirewallRule) (r : FirewallRule) : Prop := r ∉ byHand ∧ r.shown ∉ byHand

instance (byHand : List FirewallRule) (r : FirewallRule) : Decidable (Apart byHand r) :=
  inferInstanceAs (Decidable (_ ∧ _))

/-- No rule wanted on these rows is one made by hand. -/
def WantsApart (serverId : Uuid) (rows : NodeRows) (byHand : List FirewallRule) : Prop :=
  match desiredRules rows serverId with
  | .ok desired => ∀ r ∈ desired, Apart byHand r
  | .error _ => True

instance (serverId : Uuid) (rows : NodeRows) (byHand : List FirewallRule) :
    Decidable (WantsApart serverId rows byHand) :=
  decidable_of_iff (∀ desired ∈ (desiredRules rows serverId).toOption, ∀ r ∈ desired, Apart byHand r)
    (by unfold WantsApart; cases desiredRules rows serverId <;> simp [Except.toOption])

def Op.appliesTo (rows : NodeRows) (op : Op) : Option NodeRows :=
  match op with
  | .enable _ _ => some rows
  | op => op.edit.map fun edit => edit.1 rows

/-- The condition on a step: the program asks for no rule made by hand, and the administrator makes
none that ufw shows one of the program's as. -/
def KeepsApart (serverId : Uuid) (s : Watched) : HandOp → Prop
  | .program op => ∀ rows ∈ op.appliesTo s.world.rows, WantsApart serverId rows s.byHand
  | .allow rule _ => ∀ e ∈ s.world.ufw.rules, e.marked = true → e.rule.shown ≠ rule
  | .delete _ => True

/-! ## Commands -/

/-- What every command keeps: sources are words, rules made by hand are there, marked rules are
others. -/
structure Owned (byHand : List FirewallRule) (w : World) : Prop where
  spelled : w.ufw.Spelled
  present : HandMade byHand w
  marked : ∀ e ∈ w.ufw.rules, e.marked = true → Apart byHand e.rule

section

variable {byHand : List FirewallRule} {w : World} {rule : FirewallRule}

theorem Owned.onUfw_allow (h : Owned byHand w) (hspelled : rule.Spelled)
    (hapart : Apart byHand rule) : Owned byHand (onUfw (Ufw.allow rule) w) := by
  have hcases : ∀ e ∈ (w.ufw.allow rule).rules, e.rule = rule ∨ e ∈ w.ufw.rules := by
    intro e he
    unfold Ufw.allow at he
    dsimp only at he
    split at he
    · obtain ⟨old, hold, rfl⟩ := mem_map.mp he
      split
      · exact .inl rfl
      · exact .inr hold
    · rcases mem_append.mp he with he | he
      · exact .inr he
      · exact .inl (by rw [mem_singleton.mp he])
  refine ⟨fun e he => ?_, fun r hr => Ufw.mem_allow_of_mem (h.present r hr), fun e he hm => ?_⟩
  · rcases hcases e he with heq | he
    · exact heq ▸ hspelled
    · exact h.spelled e he
  · rcases hcases e he with heq | he
    · exact heq ▸ hapart
    · exact h.marked e he hm

theorem Owned.onUfw_delete (h : Owned byHand w) (hrule : rule ∉ byHand) :
    Owned byHand (onUfw (Ufw.delete rule) w) := by
  refine ⟨fun e he => h.spelled e (mem_of_mem_filter he), fun r hr => ?_,
    fun e he => h.marked e (mem_of_mem_filter he)⟩
  exact Ufw.mem_delete_of_ne (h.present r hr) fun heq => hrule (heq ▸ hr)

end

/-! ## Programs -/

section

variable {byHand : List FirewallRule} {P : World → Prop}

theorem applyRules_owned (a : Answers) (rules : List FirewallRule) (failures : List Text)
    (h : ∀ r ∈ rules, r.Spelled ∧ Apart byHand r) :
    Always (Owned byHand) P (applyRules a rules failures) fun _ _ => True :=
  applyRules_keeps (fun r hr _ hw => hw.onUfw_allow (h r hr).1 (h r hr).2) failures

theorem revokeRules_owned (a : Answers) (rules : List FirewallRule) (h : ∀ r ∈ rules, r ∉ byHand) :
    Always (Owned byHand) P (revokeRules a rules) fun _ _ => True :=
  revokeRules_keeps fun r hr _ hw => hw.onUfw_delete (h r hr)

theorem query_owned (answer : Answer) (stdout : World → Text) {α : Type} (f : Text → α) :
    Always (Owned byHand) P (do let out ← query answer stdout; pure (f out) : Remote α)
      fun _ _ => True :=
  .bind query_always fun _ => .pure fun _ _ _ => trivial

theorem finishSync_owned (a : Answers) (desired : List FirewallRule) :
    Always (Owned byHand) P (finishSync a desired) fun _ _ => True := by
  refine .bind (Q := fun _ _ => True) ?_ fun removed =>
    .bind (query_owned a.status _ _) fun _ => .pure fun _ _ _ => trivial
  refine .bind (Q := fun owned _ => ∀ r ∈ owned, r ∉ byHand) ?_ fun owned => ?_
  · refine .bind query_always fun out => .pure fun w hw hout r hr => ?_
    rcases hout with rfl | rfl
    · cases hr
    · rw [parseAddedRules_showAdded hw.spelled, mem_map] at hr
      obtain ⟨e, he, rfl⟩ := hr
      obtain ⟨he, hm⟩ := mem_filter.mp he
      exact (hw.marked e he hm).2
  · by_cases howned : ∀ r ∈ owned, r ∉ byHand
    · exact .bind (revokeRules_owned a _ fun r hr => howned r (mem_of_mem_filter hr))
        fun _ => .pure fun _ _ _ => trivial
    · exact fun w _ hP => absurd hP howned

variable (serverId : Uuid) (a : Answers) (desired : List FirewallRule)

theorem getOrConnect_owned : Always (Owned byHand) P (getOrConnect serverId a) fun _ _ => True :=
  getOrConnect_keeps serverId fun _ _ hw => ⟨hw.spelled, hw.present, hw.marked⟩

/-- Both attempts: connect, look for ufw, apply in one way or the other, and revoke. -/
theorem attempt_owned {applied : Remote Unit}
    (happlied : Always (Owned byHand) (fun _ => True) applied fun _ _ => True) :
    Always (Owned byHand) P (do
      getOrConnect serverId a
      if !(← detect a) then pure unenforcedResult
      else
        applied
        finishSync a desired) fun _ _ => True := by
  refine .bind (getOrConnect_owned serverId a) fun _ => ?_
  refine .bind (query_owned a.detect _ _) fun found => ?_
  refine .ite (fun _ => .pure fun _ _ _ => trivial) fun _ => ?_
  exact .bind happlied fun _ => finishSync_owned a desired

theorem enableUfw_owned {desired : List FirewallRule}
    (h : ∀ r ∈ desired, r.Spelled ∧ Apart byHand r) :
    Always (Owned byHand) P (enableUfw a desired) fun _ _ => True := by
  refine .bind (liveSshPort_always a) fun live => ?_
  refine .ite (fun _ => .fail) fun _ => ?_
  refine .bind (applyRules_owned a desired [] h) fun _ => ?_
  refine .bind (execute_always (Q := fun _ => True) fun w hw _ =>
    ⟨⟨hw.spelled, hw.present, hw.marked⟩, trivial⟩) fun stderr => ?_
  cases stderr with
  | none => exact .pure fun _ _ _ => trivial
  | some stderr => exact .fail

theorem dropSession_owned : Always (Owned byHand) P dropSession fun _ _ => True :=
  .modify fun _ hw _ => ⟨⟨hw.spelled, hw.present, hw.marked⟩, trivial⟩

theorem withDesiredRules_owned (first second : Answers)
    {attempt : List FirewallRule → Answers → Remote FirewallSyncResult}
    (hattempt : ∀ desired a, (∀ r ∈ desired, r.Spelled ∧ Apart byHand r) →
      Always (Owned byHand) (fun _ => True) (attempt desired a) fun _ _ => True) :
    Always (Owned byHand) (fun w => WantsApart serverId w.rows byHand)
      (withDesiredRules serverId attempt first second) fun _ _ => True := by
  refine .bind (.get (Q := fun w _ => WantsApart serverId w.rows byHand)
    fun _ _ hP => hP) fun w => ?_
  split
  next => exact .fail
  next desired hdesired =>
    by_cases hwants : WantsApart serverId w.rows byHand
    · have hrules : ∀ r ∈ desired, r.Spelled ∧ Apart byHand r := by
        unfold WantsApart at hwants
        rw [hdesired] at hwants
        exact fun r hr => ⟨spelled_of_desiredRules hdesired r hr, hwants r hr⟩
      refine .recover ?_ fun e => .ite (fun _ => ?_) fun _ => .fail
      · exact (hattempt desired first hrules).weaken (fun _ hw _ => ⟨hw, trivial⟩) (fun _ h => h)
          fun _ _ _ h => h
      · refine .bind dropSession_owned fun _ => ?_
        exact hattempt desired second hrules
    · exact fun _ _ hP => absurd hP hwants

theorem reconcileNode_owned (first second : Answers) :
    Always (Owned byHand) (fun w => WantsApart serverId w.rows byHand)
      (reconcileNode serverId first second) fun _ _ => True :=
  withDesiredRules_owned serverId first second fun desired a h =>
    attempt_owned serverId a desired (applyRules_owned a desired [] h)

theorem editRows_owned {Q : World → Prop} (edit : NodeRows → NodeRows)
    (h : ∀ w, P w → Q { w with rows := edit w.rows }) :
    Always (Owned byHand) P (editRows edit) fun _ w => Q w :=
  .modify fun w hw hP => ⟨⟨hw.spelled, hw.present, hw.marked⟩, h w hP⟩

theorem editThenSync_owned (edit : NodeRows → NodeRows) (first second : Answers) :
    Always (Owned byHand) (fun w => WantsApart serverId (edit w.rows) byHand)
      (editThenSync serverId edit first second) fun _ _ => True := by
  refine .bind (editRows_owned (Q := fun w => WantsApart serverId w.rows byHand) edit
    fun w hP => hP) fun _ => ?_
  exact .recover (.bind (reconcileNode_owned serverId first second)
    fun _ => .pure fun _ _ _ => trivial) fun _ => .pure fun _ _ _ => trivial

theorem program_owned (op : Op) :
    Always (Owned byHand)
      (fun w => ∀ rows ∈ op.appliesTo w.rows, WantsApart serverId rows byHand)
      (program serverId op) fun _ _ => True := by
  have hedit : ∀ edit first second, (∀ rows, edit rows ∈ op.appliesTo rows) →
      Always (Owned byHand)
        (fun w => ∀ rows ∈ op.appliesTo w.rows, WantsApart serverId rows byHand)
        (editThenSync serverId edit first second) fun _ _ => True := fun edit first second he =>
    (editThenSync_owned serverId edit first second).weaken
      (fun w hw hP => ⟨hw, hP _ (he w.rows)⟩) (fun _ h => h) fun _ _ _ h => h
  cases op with
  | enable first second =>
    refine .bind (Q := fun _ _ => True) ?_ fun _ => .pure fun _ _ _ => trivial
    exact (withDesiredRules_owned serverId first second fun desired a h =>
      attempt_owned serverId a desired (enableUfw_owned a h)).weaken
      (fun w hw hP => ⟨hw, hP _ rfl⟩) (fun _ h => h) fun _ _ _ h => h
  | sync first second =>
    refine .bind (Q := fun _ _ => True) ?_ fun _ => .pure fun _ _ _ => trivial
    exact (reconcileNode_owned serverId first second).weaken
      (fun w hw hP => ⟨hw, hP _ rfl⟩) (fun _ h => h) fun _ _ _ h => h
  | addCustomRule id input first second =>
    unfold program
    dsimp only
    split
    next => exact .fail
    next rule hrule => exact hedit _ first second fun rows => by simp [Op.appliesTo, Op.edit, hrule]
  | removeCustomRule id first second | addPort application port first second
  | removePort application name first second =>
    exact hedit _ first second fun _ => rfl
  | editSshPort port => exact editRows_owned _ fun _ _ => trivial
  | connect answers => exact getOrConnect_owned serverId answers
  | closeSession => exact dropSession_owned

end

/-! ## Every run -/

/-- What a run keeps. -/
def Watched.Owned (s : Watched) : Prop := Firewall.Owned s.byHand s.world

theorem Watched.owned_allow {s : Watched} {rule : FirewallRule} (h : s.Owned)
    (hspelled : rule.Spelled)
    (hapart : ∀ e ∈ s.world.ufw.rules, e.marked = true → e.rule.shown ≠ rule)
    (hnew : ¬ s.world.ufw.rules.any (·.rule = rule) = true) :
    Firewall.Owned (rule :: s.byHand) (onUfw (Ufw.allowByHand rule) s.world) := by
  have hrules : (s.world.ufw.allowByHand rule).rules = s.world.ufw.rules ++ [⟨rule, false⟩] := by
    unfold Ufw.allowByHand
    rw [if_neg hnew]
  have hother : ∀ e ∈ s.world.ufw.rules, e.rule ≠ rule := by simpa using hnew
  refine ⟨fun e he => ?_, fun r hr => ?_, fun e he hm => ?_⟩
  · rw [onUfw, hrules, mem_append, mem_singleton] at he
    rcases he with he | rfl
    · exact h.spelled e he
    · exact hspelled
  · show ∃ e ∈ (s.world.ufw.allowByHand rule).rules, e.rule = r
    rw [hrules]
    rcases mem_cons.mp hr with rfl | hr
    · exact ⟨_, mem_append_right _ mem_cons_self, rfl⟩
    · obtain ⟨e, he, heq⟩ := h.present r hr
      exact ⟨e, mem_append_left _ he, heq⟩
  · rw [onUfw, hrules, mem_append, mem_singleton] at he
    rcases he with he | rfl
    · obtain ⟨hrule, hshown⟩ := h.marked e he hm
      refine ⟨fun hmem => ?_, fun hmem => ?_⟩
      · rcases mem_cons.mp hmem with heq | hmem
        · exact hother e he heq
        · exact hrule hmem
      · rcases mem_cons.mp hmem with heq | hmem
        · exact hapart e he hm heq
        · exact hshown hmem
    · cases hm

theorem Watched.owned_delete {s : Watched} (h : s.Owned) (rule : FirewallRule) :
    Firewall.Owned (s.byHand.filter (· ≠ rule)) (onUfw (Ufw.delete rule) s.world) := by
  refine ⟨fun e he => h.spelled e (mem_of_mem_filter he), fun r hr => ?_, fun e he hm => ?_⟩
  · obtain ⟨hr, hne⟩ := mem_filter.mp hr
    exact Ufw.mem_delete_of_ne (h.present r hr) (by simpa using hne)
  · obtain ⟨hrule, hshown⟩ := h.marked e (mem_of_mem_filter he) hm
    exact ⟨fun hmem => hrule (mem_of_mem_filter hmem),
      fun hmem => hshown (mem_of_mem_filter hmem)⟩

theorem Watched.owned_next {serverId : Uuid} {s t : Watched} {op : HandOp} (h : s.Owned)
    (hok : KeepsApart serverId s op) (hnext : t = s.next serverId op) : t.Owned := by
  subst hnext
  cases op with
  | program op => exact (program_owned serverId op s.world h hok).2.1
  | allow rule spelled =>
    unfold Watched.next
    dsimp only
    split
    next => exact h
    next hnew => exact Watched.owned_allow h spelled hok hnew
  | delete rule => exact Watched.owned_delete h rule

def Watched.during (serverId : Uuid) (s : Watched) : HandOp → List World
  | .program op => (program serverId op s.world).visited
  | _ => []

/-- **Rules made by hand stay**, in every run in which the program never asks for one of them, and in
the middle of its operations too. -/
theorem rules_by_hand_stay {serverId : Uuid} {start final : Watched}
    {trace : List (Transition Watched HandOp)} (hstart : start.Owned)
    (hrun : Run (fun s op t => t = s.next serverId op) start trace final)
    (hok : ∀ x ∈ trace, KeepsApart serverId x.pre x.label) :
    ∀ x ∈ trace, (∀ w ∈ x.pre.during serverId x.label, HandMade x.pre.byHand w) ∧
      HandMade x.post.byHand x.post.world := by
  obtain ⟨-, hall⟩ := hrun.invariant Watched.Owned (KeepsApart serverId) Watched.owned_next hstart hok
  intro x hx
  obtain ⟨hpre, -, hpost⟩ := hall x hx
  refine ⟨fun w hw => ?_, hpost.present⟩
  have hcond := hok x hx
  obtain ⟨pre, op, post⟩ := x
  cases op with
  | program op => exact ((program_owned serverId op pre.world hpre hcond).1 w hw).present
  | allow rule spelled => cases hw
  | delete rule => cases hw

/-! ## A rule both asked for -/

theorem spelled_open (port : UInt16) (protocol : PortProtocol) :
    FirewallRule.Spelled ⟨port, protocol, none⟩ := by
  intro cidr hcidr
  cases hcidr

def watchedNode : Watched := ⟨nodeOn22, []⟩

theorem watchedNode_owned : watchedNode.Owned :=
  ⟨by simp [watchedNode, nodeOn22, Ufw.Spelled], by simp [watchedNode, HandMade, Present],
    by simp [watchedNode, nodeOn22]⟩

/-- A rule made by hand, and then another port published and unpublished. -/
def otherPort : List HandOp :=
  [.allow ⟨8080, .tcp, none⟩ (spelled_open 8080 .tcp),
    .program (.addCustomRule .nil ⟨none, 9090, .tcp, none⟩ (answersOn 22) (answersOn 22)),
    .program (.removeCustomRule .nil (answersOn 22) (answersOn 22))]

theorem otherPort_leaves_rule :
    (∀ x ∈ traceOf (.next .nil) watchedNode otherPort,
      HandMade x.post.byHand x.post.world) ∧
      (otherPort.foldl (.next .nil) watchedNode).byHand = [⟨8080, .tcp, none⟩] := by
  refine ⟨fun x hx => (rules_by_hand_stay watchedNode_owned (run_traceOf _ _ _) ?_ x hx).2,
    by decide⟩
  simp only [otherPort, traceOf, forall_mem_cons]
  refine ⟨?_, ?_, ?_, by simp⟩
  · exact fun e he => absurd he (by simp [watchedNode, nodeOn22])
  · exact fun rows hrows => Option.mem_unique rfl hrows ▸ (by decide)
  · exact fun rows hrows => Option.mem_unique rfl hrows ▸ (by decide)

/-- The rule made by hand is published and unpublished as well: it is gone. -/
theorem unpublishing_removes_rule_by_hand :
    let s := [HandOp.allow ⟨8080, .tcp, none⟩ (spelled_open 8080 .tcp),
      .program (.addCustomRule .nil ⟨none, 8080, .tcp, none⟩ (answersOn 22) (answersOn 22)),
      .program (.removeCustomRule .nil (answersOn 22) (answersOn 22))].foldl
        (.next .nil) watchedNode
    s.byHand = [⟨8080, .tcp, none⟩] ∧ s.world.ufw.rules = [⟨⟨22, .tcp, none⟩, true⟩] := by
  decide

end VibeSsh.Firewall
