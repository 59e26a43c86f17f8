import VibeSsh.Firewall.Added
import VibeSsh.Firewall.Lockout
import VibeSsh.Lib.Loop

/-! # A second sync finds nothing to do

Two syncs of a Node whose rows do not change, every command of which succeeds. ufw may show a rule
as another one than was asked for. -/

namespace VibeSsh.Firewall

open Lib Command List

/-! ## ufw under a sync -/

def Ufw.allowAll (rules : List FirewallRule) (u : Ufw) : Ufw := rules.foldl (fun u r => u.allow r) u

def Ufw.deleteAll (rules : List FirewallRule) (u : Ufw) : Ufw := rules.foldl (fun u r => u.delete r) u

def Ufw.obsolete (desired : List FirewallRule) (u : Ufw) : List FirewallRule :=
  (parseAddedRules u.showAdded).filter fun rule => !desired.contains rule

def Ufw.synced (desired : List FirewallRule) (u : Ufw) : Ufw :=
  (u.allowAll desired).deleteAll ((u.allowAll desired).obsolete desired)

variable {e : UfwRule} {rule : FirewallRule}

theorem Ufw.mem_allow {u : Ufw} :
    e ∈ (u.allow rule).rules ↔ e = ⟨rule, true⟩ ∨ e.rule ≠ rule ∧ e ∈ u.rules := by
  unfold Ufw.allow
  dsimp only
  split
  next hany =>
    obtain ⟨old, hold, heq⟩ := any_eq_true.mp hany
    rw [mem_map]
    constructor
    · rintro ⟨e', he', rfl⟩
      split
      next => exact .inl rfl
      next hne => exact .inr ⟨hne, he'⟩
    · rintro (rfl | ⟨hne, he⟩)
      · exact ⟨old, hold, if_pos (by simpa using heq)⟩
      · exact ⟨e, he, if_neg hne⟩
  next hnone =>
    have hother : ∀ e ∈ u.rules, e.rule ≠ rule := by simpa using hnone
    rw [mem_append, mem_singleton]
    constructor
    · rintro (he | rfl)
      · exact .inr ⟨hother e he, he⟩
      · exact .inl rfl
    · rintro (rfl | ⟨_, he⟩)
      · exact .inr rfl
      · exact .inl he

theorem Ufw.mem_allowAll {desired : List FirewallRule} {u : Ufw} :
    e ∈ (u.allowAll desired).rules ↔
      e.rule ∈ desired ∧ e.marked = true ∨ e.rule ∉ desired ∧ e ∈ u.rules := by
  induction desired generalizing u with
  | nil => simp [Ufw.allowAll]
  | cons rule desired ih =>
    show e ∈ ((u.allow rule).allowAll desired).rules ↔ _
    rw [ih, Ufw.mem_allow, mem_cons]
    have hmark : e = ⟨rule, true⟩ ↔ e.rule = rule ∧ e.marked = true := by
      cases e
      simp
    rw [hmark]
    by_cases hrule : e.rule = rule
    · by_cases hdesired : e.rule ∈ desired
      · simp [hdesired]
      · simp [hrule, hrule ▸ hdesired]
    · simp [hrule]

theorem Ufw.mem_deleteAll {rules : List FirewallRule} {u : Ufw} :
    e ∈ (u.deleteAll rules).rules ↔ e ∈ u.rules ∧ e.rule ∉ rules := by
  induction rules generalizing u with
  | nil => simp [Ufw.deleteAll]
  | cons rule rules ih =>
    show e ∈ ((u.delete rule).deleteAll rules).rules ↔ _
    rw [ih, Ufw.delete, mem_filter, mem_cons]
    simp only [ne_eq, decide_not, Bool.not_eq_true', decide_eq_false_iff_not, not_or]
    exact and_assoc

theorem Ufw.installed_synced (desired : List FirewallRule) (u : Ufw) :
    (u.synced desired).installed = u.installed := by
  have hdelete : ∀ (rules : List FirewallRule) (u : Ufw),
      (u.deleteAll rules).installed = u.installed := by
    intro rules
    induction rules with
    | nil => exact fun u => rfl
    | cons rule rules ih => exact fun u => ih (u.delete rule)
  have hallow : ∀ (rules : List FirewallRule) (u : Ufw),
      (u.allowAll rules).installed = u.installed := by
    intro rules
    induction rules with
    | nil => exact fun u => rfl
    | cons rule rules ih => exact fun u => ih (u.allow rule)
  exact (hdelete _ _).trans (hallow _ _)

section

variable {desired : List FirewallRule} {u : Ufw}

theorem Ufw.Spelled.allowAll (h : u.Spelled) (hdesired : ∀ r ∈ desired, r.Spelled) :
    (u.allowAll desired).Spelled := by
  intro e he
  rcases Ufw.mem_allowAll.mp he with ⟨hr, _⟩ | ⟨_, he⟩
  · exact hdesired _ hr
  · exact h e he

theorem Ufw.Spelled.synced (h : u.Spelled) (hdesired : ∀ r ∈ desired, r.Spelled) :
    (u.synced desired).Spelled := fun e he =>
  h.allowAll hdesired e (Ufw.mem_deleteAll.mp he).1

theorem Ufw.mem_obsolete (h : u.Spelled) {r : FirewallRule} :
    r ∈ u.obsolete desired ↔ r ∉ desired ∧ ∃ e ∈ u.rules, e.marked = true ∧ e.rule.shown = r := by
  unfold Ufw.obsolete
  rw [parseAddedRules_showAdded h, mem_filter, mem_map]
  simp only [mem_filter, contains_eq_mem, Bool.not_eq_true', decide_eq_false_iff_not]
  constructor
  · rintro ⟨⟨e, ⟨he, hmarked⟩, hr⟩, hnot⟩
    exact ⟨hnot, e, he, hmarked, hr⟩
  · rintro ⟨hnot, e, he, hmarked, hr⟩
    exact ⟨⟨e, ⟨he, hmarked⟩, hr⟩, hnot⟩

theorem shown_shown (r : FirewallRule) : r.shown.shown = r.shown := by
  unfold FirewallRule.shown
  by_cases h : r.sourceCidr = some "0.0.0.0/0".toList
  · rw [if_pos h]
    exact if_neg (by simp)
  · rw [if_neg h, if_neg h]

/-- A wanted rule is never revoked. -/
theorem Ufw.mem_synced :
    e ∈ (u.synced desired).rules ↔ e.rule ∈ desired ∧ e.marked = true ∨
      e.rule ∉ desired ∧ e ∈ u.rules ∧ e.rule ∉ (u.allowAll desired).obsolete desired := by
  have hwanted : e.rule ∈ (u.allowAll desired).obsolete desired → e.rule ∉ desired := by
    intro h
    simpa using (mem_filter.mp h).2
  unfold Ufw.synced
  rw [Ufw.mem_deleteAll, Ufw.mem_allowAll]
  constructor
  · rintro ⟨⟨hr, hmarked⟩ | ⟨hr, he⟩, hkept⟩
    · exact .inl ⟨hr, hmarked⟩
    · exact .inr ⟨hr, he, hkept⟩
  · rintro (⟨hr, hmarked⟩ | ⟨hr, he, hkept⟩)
    · exact ⟨.inl ⟨hr, hmarked⟩, fun h => hwanted h hr⟩
    · exact ⟨.inr ⟨hr, he⟩, hkept⟩

/-- The marked rules are the wanted ones, unless one is left over that ufw shows as another. -/
theorem Ufw.marked_synced_iff (h : u.Spelled) (hdesired : ∀ r ∈ desired, r.Spelled) :
    (∀ r, ⟨r, true⟩ ∈ (u.synced desired).rules ↔ r ∈ desired) ↔
      ∀ e ∈ u.rules, e.marked = true → e.rule ∉ desired → e.rule.shown = e.rule := by
  constructor
  · rintro hall ⟨r, marked⟩ he hmarked hr
    dsimp only at hmarked hr ⊢
    subst hmarked
    by_contra hshown
    refine hr ((hall r).mp (Ufw.mem_synced.mpr (.inr ⟨hr, he, fun hobsolete => ?_⟩)))
    obtain ⟨_, e', _, _, heq⟩ := (Ufw.mem_obsolete (h.allowAll hdesired)).mp hobsolete
    have hr' : e'.rule.shown = r := heq
    exact hshown (hr' ▸ shown_shown e'.rule)
  · intro hleft r
    rw [Ufw.mem_synced]
    constructor
    · rintro (⟨hr, _⟩ | ⟨hr, he, hkept⟩)
      · exact hr
      · refine absurd ((Ufw.mem_obsolete (h.allowAll hdesired)).mpr ?_) hkept
        exact ⟨hr, ⟨r, true⟩, Ufw.mem_allowAll.mpr (.inr ⟨hr, he⟩), rfl, hleft _ he rfl hr⟩
    · exact fun hr => .inl ⟨hr, rfl⟩

theorem Ufw.allow_eq_self (hmem : ⟨rule, true⟩ ∈ u.rules)
    (hmarked : ∀ e ∈ u.rules, e.rule = rule → e.marked = true) : u.allow rule = u := by
  have hany : u.rules.any (·.rule = rule) = true := any_eq_true.mpr ⟨_, hmem, by simp⟩
  have hmap : u.rules.map (fun e => if e.rule = rule then ⟨rule, true⟩ else e) = u.rules := by
    refine (map_congr_left fun e he => ?_).trans (map_id u.rules)
    split
    next heq =>
      have hm := hmarked e he heq
      cases e
      simp_all
    next => rfl
  unfold Ufw.allow
  rw [if_pos hany, hmap]

theorem Ufw.allowAll_synced : (u.synced desired).allowAll desired = u.synced desired := by
  refine foldl_eq_self fun r hr => Ufw.allow_eq_self (Ufw.mem_synced.mpr (.inl ⟨hr, rfl⟩))
    fun e he heq => ?_
  rcases Ufw.mem_synced.mp he with ⟨_, hmarked⟩ | ⟨hnot, _⟩
  · exact hmarked
  · exact absurd (heq ▸ hr) hnot

/-- A second sync has nothing to revoke exactly if what ufw shows of each wanted rule is wanted. -/
theorem Ufw.obsolete_synced_iff (h : u.Spelled) (hdesired : ∀ r ∈ desired, r.Spelled)
    (hmarked : ∀ r, ⟨r, true⟩ ∈ (u.synced desired).rules ↔ r ∈ desired) :
    (u.synced desired).obsolete desired = [] ↔ ∀ r ∈ desired, r.shown ∈ desired := by
  rw [eq_nil_iff_forall_not_mem]
  constructor
  · intro hnone r hr
    by_contra hshown
    exact hnone r.shown ((Ufw.mem_obsolete (h.synced hdesired)).mpr
      ⟨hshown, ⟨r, true⟩, (hmarked r).mpr hr, rfl, rfl⟩)
  · intro hshown r hr
    obtain ⟨hnot, ⟨q, marked⟩, he, hm, rfl⟩ := (Ufw.mem_obsolete (h.synced hdesired)).mp hr
    dsimp only at hm hnot
    subst hm
    exact hnot (hshown q ((hmarked q).mp he))

end

/-! ## A sync, whatever is answered -/

section

variable {I : World → Prop} {P : World → Prop} {a : Answers} {serverId : Uuid}
  {desired : List FirewallRule}

end

/-- Every command of a sync succeeds. -/
structure Answers.Succeed (a : Answers) : Prop where
  detect : a.detect = .ok
  showAdded : a.showAdded = .ok
  status : a.status = .ok
  apply : ∀ rule, a.apply rule = .ok
  revoke : ∀ rule, a.revoke rule = .ok

section

variable {a : Answers} {w : World} {serverId : Uuid}

theorem execute_returns {answer : Answer} (h : answer = .ok) (effect : Ufw → Ufw) (w : World) :
    Returns (execute answer effect) w none (onUfw effect w) := by
  subst h
  exact (Returns.modify (onUfw effect) w).bind (Returns.pure none _)

theorem query_returns {answer : Answer} (h : answer = .ok) (stdout : World → Text) (w : World) :
    Returns (query answer stdout) w (stdout w) w := by
  subst h
  exact (Returns.get w).bind (Returns.pure _ w)

theorem applyRules_returns (ha : a.Succeed) (rules : List FirewallRule) (w : World) :
    Returns (applyRules a rules []) w () (onUfw (Ufw.allowAll rules) w) := by
  induction rules generalizing w with
  | nil => exact .pure () w
  | cons rule rules ih =>
    exact (execute_returns (ha.apply rule) (Ufw.allow rule) w).bind (ih _)

theorem revokeRules_returns (ha : a.Succeed) (rules : List FirewallRule) (w : World) :
    Returns (revokeRules a rules) w () (onUfw (Ufw.deleteAll rules) w) := by
  induction rules generalizing w with
  | nil => exact .pure () w
  | cons rule rules ih =>
    exact (execute_returns (ha.revoke rule) (Ufw.delete rule) w).bind (ih _)

theorem finishSync_returns (ha : a.Succeed) (desired : List FirewallRule) (w : World) :
    ∃ result, result.rulesRemoved = (w.ufw.obsolete desired).length ∧
      Returns (finishSync a desired) w result
        (onUfw (Ufw.deleteAll (w.ufw.obsolete desired)) w) := by
  have howned : Returns (vibesshOwnedRules a) w (parseAddedRules w.ufw.showAdded) w :=
    (query_returns ha.showAdded (fun w => w.ufw.showAdded) w).bind (.pure _ w)
  have hrevoke : Returns (revokeObsoleteRules a desired) w (w.ufw.obsolete desired).length
      (onUfw (Ufw.deleteAll (w.ufw.obsolete desired)) w) :=
    howned.bind ((revokeRules_returns ha (w.ufw.obsolete desired) w).bind (.pure _ _))
  have hactive : ∀ v : World, Returns (isActive a) v (parseIsActive v.ufw.status) v := fun v =>
    (query_returns ha.status (fun w => w.ufw.status) v).bind (.pure _ v)
  let active := parseIsActive (w.ufw.deleteAll (w.ufw.obsolete desired)).status
  exact ⟨⟨some "ufw", active, desired.length, (w.ufw.obsolete desired).length, !active⟩, rfl,
    hrevoke.bind ((hactive _).bind (.pure _ _))⟩

theorem getOrConnect_returns (h : (getOrConnect serverId a w).value = .ok ()) :
    ∃ port, Returns (getOrConnect serverId a) w () { w with session := some port } := by
  have hbind (f : World → Remote Unit) : (Exec.get >>= f) w = f w w := rfl
  unfold getOrConnect at h ⊢
  unfold Returns
  rw [hbind] at h ⊢
  cases hsession : w.session with
  | some port =>
    refine ⟨port, rfl, ?_⟩
    show w = _
    rw [← hsession]
  | none =>
    rw [hsession] at h
    cases hserver : w.rows.server with
    | none =>
      rw [hserver] at h
      cases h
    | some server =>
      rw [hserver] at h
      cases hconnect : a.connect with
      | some e =>
        rw [hconnect] at h
        cases h
      | none =>
        rw [hconnect] at h
        dsimp only at h ⊢
        split at h
        · cases h
        next hadmitted =>
          rw [if_neg hadmitted]
          exact ⟨a.arrival, rfl, rfl⟩

theorem reconcileNode_returns (ha : a.Succeed) (retry : Answers) {desired : List FirewallRule}
    (hdesired : desiredRules w.rows serverId = .ok desired) (hufw : w.ufw.installed = true)
    {port : UInt16} (hconnect : Returns (getOrConnect serverId a) w () { w with session := some port }) :
    ∃ result, result.rulesRemoved = ((w.ufw.allowAll desired).obsolete desired).length ∧
      Returns (reconcileNode serverId a retry) w result
        { w with session := some port, ufw := w.ufw.synced desired } := by
  obtain ⟨result, hremoved, hfinish⟩ := finishSync_returns ha desired
    (onUfw (Ufw.allowAll desired) { w with session := some port })
  have hdetect : Returns (detect a) { w with session := some port } true
      { w with session := some port } := by
    refine (query_returns ha.detect _ _).bind ?_
    rw [if_pos hufw]
    exact Returns.pure true _
  have hattempt : Returns (reconcileAttempt serverId desired a) w result
      { w with session := some port, ufw := w.ufw.synced desired } :=
    hconnect.bind (hdetect.bind ((applyRules_returns ha desired _).bind hfinish))
  refine ⟨result, hremoved, (Returns.get w).bind ?_⟩
  rw [hdesired]
  exact hattempt.recover

end

/-- After a sync the marked rules are the wanted ones, and a second sync removes none and leaves the
rules as they are. -/
def Settles (serverId : Uuid) (w : World) (desired : List FirewallRule)
    (first retry again retryAgain : Answers) : Prop :=
  let w1 := (reconcileNode serverId first retry w).final
  let second := reconcileNode serverId again retryAgain w1
  (∀ r, ⟨r, true⟩ ∈ w1.ufw.rules ↔ r ∈ desired) ∧
    (∃ result, second.value = .ok result ∧ result.rulesRemoved = 0) ∧
    second.final.ufw.rules = w1.ufw.rules

/-- **When a sync settles.** For any rules ufw starts with and any rows, if every command succeeds. -/
theorem reconcile_settles_iff {serverId : Uuid} {w : World} {desired : List FirewallRule}
    {first again : Answers} (retry retryAgain : Answers)
    (hdesired : desiredRules w.rows serverId = .ok desired) (hufw : w.ufw.installed = true)
    (hspelled : w.ufw.Spelled) (hconnect : (getOrConnect serverId first w).value = .ok ())
    (hfirst : first.Succeed) (hagain : again.Succeed) :
    Settles serverId w desired first retry again retryAgain ↔
      (∀ r ∈ desired, r.shown ∈ desired) ∧
        ∀ e ∈ w.ufw.rules, e.marked = true → e.rule ∉ desired → e.rule.shown = e.rule := by
  have hwords := spelled_of_desiredRules hdesired
  obtain ⟨port, hsession⟩ := getOrConnect_returns hconnect
  obtain ⟨_, _, _, hfinal⟩ := reconcileNode_returns hfirst retry hdesired hufw hsession
  let synced : World := { w with session := some port, ufw := w.ufw.synced desired }
  have hcached : Returns (getOrConnect serverId again) synced () synced := ⟨rfl, rfl⟩
  have hinstalled : synced.ufw.installed = true :=
    (Ufw.installed_synced desired w.ufw).trans hufw
  obtain ⟨result, hremoved, hvalue, hfinal'⟩ :=
    reconcileNode_returns hagain retryAgain (w := synced) hdesired hinstalled hcached
  have hagain : (synced.ufw.allowAll desired) = synced.ufw := Ufw.allowAll_synced
  unfold Settles
  dsimp only
  rw [hfinal, hvalue, hfinal', ← Ufw.marked_synced_iff hspelled hwords]
  refine Iff.trans ?_ and_comm
  refine and_congr_right fun hmarked => ?_
  rw [← Ufw.obsolete_synced_iff hspelled hwords hmarked]
  rw [hagain] at hremoved
  constructor
  · rintro ⟨⟨_, hresult, hzero⟩, _⟩
    cases hresult
    exact eq_nil_of_length_eq_zero (hremoved.symm.trans hzero)
  · intro hnil
    refine ⟨⟨result, rfl, hremoved.trans (length_eq_zero_iff.mpr hnil)⟩, ?_⟩
    show ((synced.ufw.allowAll desired).deleteAll
      ((synced.ufw.allowAll desired).obsolete desired)).rules = synced.ufw.rules
    rw [hagain, show synced.ufw.obsolete desired = [] from hnil]
    rfl

/-- A Node with one custom rule for port 8080, and a marked rule of a port no longer published. -/
def nodeWithSource (source : Text) : World where
  rows :=
    { server := some ⟨"Production", "203.0.113.10", 22, "root", .password, none,
        none⟩
      isMeshMember := false
      applications := []
      customRules := [⟨.nil, none, 8080, .tcp, some source⟩] }
  ufw := ⟨true, false, [⟨⟨9000, .tcp, none⟩, true⟩]⟩
  session := some 22

theorem answersOn_succeed (port : UInt16) : (answersOn port).Succeed :=
  ⟨rfl, rfl, rfl, fun _ => rfl, fun _ => rfl⟩

theorem network_source_settles :
    Settles .nil (nodeWithSource "198.51.100.0/24")
      [⟨22, .tcp, none⟩, ⟨8080, .tcp, some "198.51.100.0/24"⟩] (answersOn 22) (answersOn 22)
      (answersOn 22) (answersOn 22) := by
  refine (reconcile_settles_iff (answersOn 22) (answersOn 22) rfl rfl ?_ rfl (answersOn_succeed 22)
    (answersOn_succeed 22)).mpr (by decide)
  intro e he cidr hcidr
  rw [mem_singleton.mp he] at hcidr
  cases hcidr

/-- A source every check lets through: each sync reads its rule back as the open one, which is not
wanted, and revokes that. -/
theorem any_source_never_settles :
    let w := nodeWithSource "0.0.0.0/0"
    let desired := [⟨22, .tcp, none⟩, ⟨8080, .tcp, some "0.0.0.0/0"⟩]
    let sync := reconcileNode .nil (answersOn 22) (answersOn 22)
    canonicalIpv4Source "0.0.0.0/0" "The source" = .ok "0.0.0.0/0" ∧
      desiredRules w.rows .nil = .ok desired ∧
      (∃ result, (sync (sync w).final).value = .ok result ∧ result.rulesRemoved = 1) ∧
      ¬ Settles .nil w desired (answersOn 22) (answersOn 22) (answersOn 22) (answersOn 22) := by
  refine ⟨rfl, rfl, ⟨_, rfl, rfl⟩, ?_⟩
  rintro ⟨_, ⟨result, hvalue, hzero⟩, _⟩
  cases hvalue
  exact absurd hzero (by decide)

end VibeSsh.Firewall
