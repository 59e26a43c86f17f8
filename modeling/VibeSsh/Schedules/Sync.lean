import VibeSsh.Schedules.Service

/-! # The Node holds what the rows say

Where two calls of one application change rows at a time, the older of two files may land last. -/

namespace VibeSsh.Schedules

open Lib List

variable (registry : Registry)

/-- The Node's file is the one made from the enabled schedules and the disk check. -/
def Synced (s : State) (application : Uuid) : Prop :=
  ∃ disk, diskCheckFor registry application = .ok disk ∧
    s.cron application = cronFile application (s.table.list application) disk

/-- With no call left and the last one successful, the file is as it should be. -/
def Agrees (s : State) (application : Uuid) : Prop :=
  (∀ i r, s.running i = some r → r.change.application ≠ application) →
    s.lastResult application = some (.ok ()) → Synced registry s application

/-! ## What a change of the rows touches -/

def Owned (t : Table) (id application : Uuid) : Prop :=
  ∀ row ∈ t.rows, row.id = id → row.applicationId = application

/-- Only rows of one application change, and no row changes hands. -/
structure Touches (t t' : Table) (id application : Uuid) : Prop where
  others : ∀ other, other ≠ application → t'.list other = t.list other
  rows : ∀ row' ∈ t'.rows, row'.id = id ∧ row'.applicationId = application ∨
    ∃ row ∈ t.rows, row.id = row'.id ∧ row.applicationId = row'.applicationId

theorem Touches.refl (t : Table) (id application : Uuid) : Touches t t id application :=
  ⟨fun _ _ => rfl, fun row hrow => .inr ⟨row, hrow, rfl, rfl⟩⟩

variable {t t' : Table} {application id : Uuid} {change : Change} {s s₁ : State} {i j : Nat}
  {r r₁ : Running}

theorem list_congr (h : t'.rows.filter (·.applicationId = application) =
      t.rows.filter (·.applicationId = application)) : t'.list application = t.list application := by
  unfold Table.list
  rw [h]

theorem touches_insert {row : ApplicationSchedule} (h : t.insert row = .ok t') :
    Touches t t' row.id row.applicationId := by
  unfold Table.insert at h
  split at h
  · cases h
  cases h
  refine ⟨fun other hne => list_congr ?_, fun row' hrow' => ?_⟩
  · simp [filter_append, hne.symm]
  · rcases mem_append.mp hrow' with hrow' | hrow'
    · exact .inr ⟨row', hrow', rfl, rfl⟩
    · rw [mem_singleton.mp hrow']
      exact .inl ⟨rfl, rfl⟩

theorem touches_delete (h : Owned t id application) : Touches t (t.delete id) id application := by
  refine ⟨fun other hne => list_congr ?_, fun row' hrow' => ?_⟩
  · rw [Table.delete, filter_filter]
    refine filter_congr fun row hrow => ?_
    have himp : row.applicationId = other → row.id ≠ id := fun happ hid =>
      hne (happ.symm.trans (h row hrow hid))
    by_cases happ : row.applicationId = other
    · simp [happ, himp happ]
    · simp [happ]
  · exact .inr ⟨row', mem_of_mem_filter hrow', rfl, rfl⟩

theorem touches_update {input : ScheduleInput}
    (h : Owned t id application) (hupdate : t.update id input = .ok t') :
    Touches t t' id application := by
  unfold Table.update at hupdate
  split at hupdate
  · cases hupdate
    refine ⟨fun other hne => list_congr ?_, fun row' hrow' => ?_⟩
    · rw [filter_map]
      have hsame : ((fun row : ApplicationSchedule => decide (row.applicationId = other)) ∘
          Table.setColumns id input) = fun row => decide (row.applicationId = other) := by
        funext row
        simp [Table.setColumns_applicationId]
      rw [hsame]
      refine (map_congr_left fun row hrow => ?_).trans (map_id _)
      obtain ⟨hrow, happ⟩ := mem_filter.mp hrow
      refine if_neg fun hid => hne ?_
      exact (of_decide_eq_true happ).symm.trans (h row hrow hid)
    · obtain ⟨row, hrow, rfl⟩ := mem_map.mp hrow'
      exact .inr ⟨row, hrow, (Table.setColumns_id id input row).symm,
        (Table.setColumns_applicationId id input row).symm⟩
  · cases hupdate

theorem touches_apply
    (h : Owned t change.row.id change.application) (happly : change.apply t = .ok t') :
    Touches t t' change.row.id change.application := by
  cases change with
  | create row => exact touches_insert happly
  | update before input => exact touches_update h happly
  | delete before =>
    cases happly
    exact touches_delete h

theorem touches_undo (h : Owned t change.row.id change.application) :
    Touches t (change.undo t) change.row.id change.application := by
  cases change with
  | create row => exact touches_delete h
  | update before input =>
    rcases hupdate : t.update before.id before.toScheduleInput with e | t'
    · simp only [Change.undo, hupdate]
      exact .refl t _ _
    · simp only [Change.undo, hupdate]
      exact touches_update h hupdate
  | delete before =>
    rcases hinsert : t.insert before with e | t'
    · simp only [Change.undo, hinsert]
      exact .refl t _ _
    · simp only [Change.undo, hinsert]
      exact touches_insert hinsert

theorem Touches.owned (h : Touches t t' id application)
    {id' application' : Uuid} (howned : Owned t id' application')
    (hagree : id' = id → application' = application) : Owned t' id' application' := by
  intro row' hrow' hid
  rcases h.rows row' hrow' with ⟨hid', happ⟩ | ⟨row, hrow, hid', happ⟩
  · rw [happ, hagree (hid.symm.trans hid')]
  · rw [← happ]
    exact howned row hrow (hid'.trans hid)

theorem Touches.trans {t'' : Table}
    (h1 : Touches t t' id application) (h2 : Touches t' t'' id application) :
    Touches t t'' id application := by
  refine ⟨fun other hne => (h2.others other hne).trans (h1.others other hne), fun row'' hrow'' => ?_⟩
  rcases h2.rows row'' hrow'' with hself | ⟨row', hrow', hid, happ⟩
  · exact .inl hself
  · rcases h1.rows row' hrow' with ⟨hid', happ'⟩ | ⟨row, hrow, hid', happ'⟩
    · exact .inl ⟨hid.symm.trans hid', happ.symm.trans happ'⟩
    · exact .inr ⟨row, hrow, hid'.trans hid, happ'.trans happ⟩

theorem owned_of_get {before : ApplicationSchedule}
    (h : t.get id = some before) : Owned t before.id before.applicationId := by
  intro row hrow hid
  rw [inj_on_of_nodup_map t.ids hrow (mem_of_find?_eq_some h) hid]

/-! ## The invariant -/

/-- A call past its change of the rows. -/
def Running.changed (r : Running) : Bool :=
  match r.phase with
  | .connecting => false
  | _ => true

structure Inv (s : State) : Prop where
  owned : ∀ i r, s.running i = some r → Owned s.table r.change.row.id r.change.application
  agree : ∀ i j r r', s.running i = some r → s.running j = some r' →
    r.change.row.id = r'.change.row.id → r.change.application = r'.change.application
  alone : ∀ i j r r', s.running i = some r → s.running j = some r' → r.changed = true →
    r'.changed = true → r.change.application = r'.change.application → i = j
  syncing : ∀ i r file, s.running i = some r → r.phase = .syncing file →
    syncNode registry s.table r.change.application = .ok file
  landed : ∀ i r, s.running i = some r → r.phase = .landed →
    Synced registry s r.change.application
  settled : ∀ application,
    (∀ i r, s.running i = some r → r.changed = true → r.change.application ≠ application) →
    s.lastResult application = some (.ok ()) → Synced registry s application

variable {registry}

theorem Synced.congr {s' : State} (h : Synced registry s application)
    (hcron : s'.cron application = s.cron application)
    (hlist : s'.table.list application = s.table.list application) :
    Synced registry s' application := by
  obtain ⟨disk, hdisk, heq⟩ := h
  exact ⟨disk, hdisk, by rw [hcron, hlist, heq]⟩

theorem syncNode_congr (h : t'.list application = t.list application) :
    syncNode registry t' application = syncNode registry t application := by
  unfold syncNode
  rw [h]

theorem running_finish {application : Option Uuid} {result : AppResult Unit}
    (h : (s.finish i application result).running j = some r) :
    j ≠ i ∧ s.running j = some r := by
  by_cases hj : j = i
  · subst hj
    simp [State.finish] at h
  · exact ⟨hj, by simpa [State.finish, hj] using h⟩

theorem running_set {r' : Running} (h : (s.set i r).running j = some r') :
    j = i ∧ r' = r ∨ j ≠ i ∧ s.running j = some r' := by
  by_cases hj : j = i
  · subst hj
    exact .inl ⟨rfl, by simpa [State.set] using h.symm⟩
  · exact .inr ⟨hj, by simpa [State.set, hj] using h⟩

theorem lastResult_finish (s : State) (i : Nat) (application : Option Uuid)
    (result : AppResult Unit) (other : Uuid) :
    (s.finish i application result).lastResult other =
      if application = some other then some result else s.lastResult other := by
  by_cases h : application = some other <;> simp [State.lastResult, State.finish, h]

/-- A call ends; where it reports success, the Node holds the right file. -/
theorem Inv.finish (hinv : Inv registry s) {application : Option Uuid} {result : AppResult Unit}
    (hi : ∀ r, s.running i = some r → application = some r.change.application)
    (hresult : ∀ other, application = some other → result = .ok () → Synced registry s other) :
    Inv registry (s.finish i application result) := by
  refine ⟨fun j r hj => ?_, fun j k r r' hj hk => ?_, fun j k r r' hj hk => ?_,
    fun j r file hj => ?_, fun j r hj => ?_, fun other hquiet hlast => ?_⟩
  · exact hinv.owned j r (running_finish hj).2
  · exact hinv.agree j k r r' (running_finish hj).2 (running_finish hk).2
  · exact hinv.alone j k r r' (running_finish hj).2 (running_finish hk).2
  · exact hinv.syncing j r file (running_finish hj).2
  · exact hinv.landed j r (running_finish hj).2
  · rw [lastResult_finish] at hlast
    split at hlast
    · next happ => exact hresult other happ (Option.some.inj hlast)
    · next happ =>
      refine hinv.settled other (fun j r hj hchanged heq => ?_) hlast
      by_cases hji : j = i
      · subst hji
        exact happ (heq ▸ hi r hj)
      · exact hquiet j r (by simpa [State.finish, hji] using hj) hchanged heq

/-- The rows of an application change while no call of it is past its own change. -/
theorem Inv.touch (hinv : Inv registry s) (htouch : Touches s.table t id application)
    (hagree : ∀ j r, s.running j = some r → r.change.row.id = id → r.change.application = application)
    (hidle : ∀ j r, s.running j = some r → r.changed = true → r.change.application ≠ application)
    (hlast : s.lastResult application ≠ some (.ok ())) : Inv registry { s with table := t } := by
  refine ⟨fun j r hj => ?_, hinv.agree, hinv.alone, fun j r file hj hphase => ?_,
    fun j r hj hphase => ?_, fun other hquiet hok => ?_⟩
  · exact htouch.owned (hinv.owned j r hj) (hagree j r hj)
  · have hne := hidle j r hj (by simp [Running.changed, hphase])
    exact (syncNode_congr (htouch.others _ hne)).trans (hinv.syncing j r file hj hphase)
  · have hne := hidle j r hj (by simp [Running.changed, hphase])
    exact (hinv.landed j r hj hphase).congr rfl (htouch.others _ hne)
  · have hne : other ≠ application := fun heq => hlast (heq ▸ hok)
    exact (hinv.settled other hquiet hok).congr rfl (htouch.others other hne)

/-! ## Every step -/

theorem inv_beginChange (hinv : Inv registry s) (hi : s.running i = none)
    (howned : Owned s.table change.row.id change.application)
    (hagree : ∀ j r, s.running j = some r → r.change.row.id = change.row.id →
      r.change.application = change.application) : Inv registry (beginChange registry s i change) := by
  unfold beginChange
  split
  · exact hinv.finish (by simp [hi]) (by simp)
  refine ⟨fun j r hj => ?_, fun j k r r' hj hk => ?_, fun j k r r' hj hk hr hr' => ?_,
    fun j r file hj hphase => ?_, fun j r hj hphase => ?_, fun other hquiet hok => ?_⟩
  · rcases running_set hj with ⟨-, rfl⟩ | ⟨-, hj⟩
    · exact howned
    · exact hinv.owned j r hj
  · rcases running_set hj with ⟨-, rfl⟩ | ⟨-, hj⟩ <;> rcases running_set hk with ⟨-, rfl⟩ | ⟨-, hk⟩
    · exact fun _ => rfl
    · exact fun hid => (hagree k r' hk hid.symm).symm
    · exact fun hid => hagree j r hj hid
    · exact hinv.agree j k r r' hj hk
  · rcases running_set hj with ⟨-, rfl⟩ | ⟨-, hj⟩
    · cases hr
    rcases running_set hk with ⟨-, rfl⟩ | ⟨-, hk⟩
    · cases hr'
    exact hinv.alone j k r r' hj hk hr hr'
  · rcases running_set hj with ⟨-, rfl⟩ | ⟨-, hj⟩
    · cases hphase
    · exact hinv.syncing j r file hj hphase
  · rcases running_set hj with ⟨-, rfl⟩ | ⟨-, hj⟩
    · cases hphase
    · exact hinv.landed j r hj hphase
  · refine hinv.settled other (fun j r hj => ?_) hok
    have hji : j ≠ i := by
      rintro rfl
      simp [hi] at hj
    exact hquiet j r (by simpa [State.set, hji] using hj)

theorem inv_start (hinv : Inv registry s) (hi : s.running i = none)
    {request : Request} (hfresh : (Op.start i request).Fresh s) :
    Inv registry (start registry s i request) := by
  have hfound : ∀ {id before}, s.table.get id = some before → ∀ j r, s.running j = some r →
      r.change.row.id = before.id → r.change.application = before.applicationId :=
    fun hget j r hj hid =>
      (hinv.owned j r hj _ (mem_of_find?_eq_some hget) hid.symm).symm
  cases request with
  | create application input newId createdAt =>
    obtain ⟨hrows, hcalls⟩ := hfresh
    dsimp only [start]
    split
    · exact hinv.finish (by simp [hi]) (by simp)
    · exact inv_beginChange hinv hi (fun row hrow hid => absurd hid (hrows row hrow))
        fun j r hj hid => absurd hid (hcalls j r hj)
  | update schedule input =>
    dsimp only [start]
    split
    · exact hinv.finish (by simp [hi]) (by simp)
    · split
      · exact hinv.finish (by simp [hi]) (by simp)
      next hget => exact inv_beginChange hinv hi (owned_of_get hget) (hfound hget)
  | delete schedule =>
    dsimp only [start]
    split
    · exact hinv.finish (by simp [hi]) (by simp)
    next hget => exact inv_beginChange hinv hi (owned_of_get hget) (hfound hget)

/-- No other call of the application is between its change of the rows and its end. -/
def Exclusive (s : State) (i : Nat) (application : Uuid) : Prop :=
  ∀ j r, j ≠ i → s.running j = some r → r.changed = true → r.change.application ≠ application

section

variable (hinv : Inv registry s)
include hinv

theorem Inv.exclusive (hi : s.running i = some r) (hchanged : r.changed = true) :
    Exclusive s i r.change.application := fun j r' hne hj hchanged' heq =>
  hne (hinv.alone j i r' r hj hi hchanged' hchanged heq)

/-- A call goes on to its next phase, and changes rows and the file of its own application only. -/
theorem Inv.moved {server : Uuid} {before phase : Phase}
    (hi : s.running i = some ⟨change, server, before⟩)
    (hchanged : Running.changed ⟨change, server, phase⟩ = true)
    (hexcl : Exclusive s i change.application)
    (htouch : Touches s.table t change.row.id change.application) {cron : Uuid → Option Text}
    (hcron : ∀ other, other ≠ change.application → cron other = s.cron other)
    (hsyncing : ∀ file, phase = .syncing file → syncNode registry t change.application = .ok file)
    (hlanded : phase = .landed →
      Synced registry { s with table := t, cron := cron } change.application) :
    Inv registry ({ s with table := t, cron := cron }.set i ⟨change, server, phase⟩) := by
  have howned := hinv.owned i _ hi
  have hagree := fun j r hj => hinv.agree j i r _ hj hi
  refine ⟨fun j r hj => ?_, fun j k r r' hj hk => ?_, fun j k r r' hj hk hr hr' heq => ?_,
    fun j r file hj hphase => ?_, fun j r hj hphase => ?_, fun other hquiet hok => ?_⟩
  · rcases running_set hj with ⟨-, rfl⟩ | ⟨-, hj⟩
    · exact htouch.owned howned fun _ => rfl
    · exact htouch.owned (hinv.owned j r hj) (hagree j r hj)
  · rcases running_set hj with ⟨-, rfl⟩ | ⟨-, hj⟩ <;> rcases running_set hk with ⟨-, rfl⟩ | ⟨-, hk⟩
    · exact fun _ => rfl
    · exact fun hid => (hagree k r' hk hid.symm).symm
    · exact hagree j r hj
    · exact hinv.agree j k r r' hj hk
  · rcases running_set hj with ⟨hji, rfl⟩ | ⟨hji, hj⟩ <;>
      rcases running_set hk with ⟨hki, rfl⟩ | ⟨hki, hk⟩
    · exact hji.trans hki.symm
    · exact absurd heq.symm (hexcl k r' hki hk hr')
    · exact absurd heq (hexcl j r hji hj hr)
    · exact hinv.alone j k r r' hj hk hr hr' heq
  · rcases running_set hj with ⟨-, rfl⟩ | ⟨hji, hj⟩
    · exact hsyncing file hphase
    · have hne := hexcl j r hji hj (by simp [Running.changed, hphase])
      exact (syncNode_congr (htouch.others _ hne)).trans (hinv.syncing j r file hj hphase)
  · rcases running_set hj with ⟨-, rfl⟩ | ⟨hji, hj⟩
    · exact hlanded hphase
    · have hne := hexcl j r hji hj (by simp [Running.changed, hphase])
      exact (hinv.landed j r hj hphase).congr (hcron _ hne) (htouch.others _ hne)
  · have hne : change.application ≠ other := hquiet i _ (by simp [State.set]) hchanged
    refine (hinv.settled other (fun j r hj hr => ?_) hok).congr (hcron _ hne.symm)
      (htouch.others _ hne.symm)
    by_cases hji : j = i
    · subst hji
      obtain rfl := Option.some.inj (hi.symm.trans hj)
      exact hne
    · exact hquiet j r (by simpa [State.set, hji] using hj) hr

/-- A call fails and leaves rows of its application changed. -/
theorem Inv.finish_touched (hi : s.running i = some r)
    (htouch : Touches s.table t r.change.row.id r.change.application)
    (hexcl : Exclusive s i r.change.application) (error : AppError) :
    Inv registry ({ s with table := t }.finish i (some r.change.application) (.error error)) := by
  have hended : Inv registry (s.finish i (some r.change.application) (.error error)) :=
    hinv.finish (fun r' hi' => by rw [Option.some.inj (hi.symm.trans hi')]) (by simp)
  refine hended.touch htouch (fun j r' hj hid => ?_) (fun j r' hj => ?_) ?_
  · exact hinv.agree j i r' r (running_finish hj).2 hi hid
  · exact hexcl j r' (running_finish hj).1 (running_finish hj).2
  · simp [lastResult_finish]

theorem inv_giveUp (hi : s.running i = some r) (hchanged : r.changed = true) (error : AppError) :
    Inv registry (giveUp s i r.change error) :=
  hinv.finish_touched hi (touches_undo (hinv.owned i r hi)) (hinv.exclusive hi hchanged) error

theorem inv_connected {server : Uuid} (hi : s.running i = some ⟨change, server, .connecting⟩)
    (hexcl : Exclusive s i change.application) :
    Inv registry (connected registry s i change server) := by
  have howned : Owned s.table change.row.id change.application := hinv.owned i _ hi
  have hself : ∀ r, s.running i = some r → some change.application = some r.change.application :=
    fun r hr => by rw [← Option.some.inj (hi.symm.trans hr)]
  unfold connected
  split
  · exact hinv.finish hself (by simp)
  next t happly =>
  have htouch := touches_apply howned happly
  have howned' : Owned t change.row.id change.application := htouch.owned howned fun _ => rfl
  split
  · exact hinv.finish_touched hi (htouch.trans (touches_undo howned')) hexcl _
  next file hfile =>
  exact hinv.moved hi rfl hexcl htouch (fun _ _ => rfl) (by rintro _ ⟨⟩; exact hfile) nofun

end

/-! ## Every interleaving -/

/-- A call changes rows only while no other call of its application is between its own change and
its end. -/
def Safe (s : State) : Op → Prop
  | .connect i none => ∀ r, s.running i = some r → Exclusive s i r.change.application
  | _ => True

theorem inv_step {s' : State} {op : Op} (hinv : Inv registry s) (hsafe : Safe s op)
    (hstep : Step registry s op s') : Inv registry s' := by
  obtain ⟨hfresh, rfl⟩ := hstep
  cases op with
  | start i request =>
    simp only [next]
    split
    · exact hinv
    next hi => exact inv_start hinv (by simpa using hi) hfresh
  | connect i error =>
    simp only [next]
    split
    next change server hi =>
      cases error with
      | some e =>
        exact hinv.finish (fun r hr => by rw [← Option.some.inj (hi.symm.trans hr)]) (by simp)
      | none => exact inv_connected hinv hi (hsafe _ hi)
    · exact hinv
  | land i =>
    simp only [next]
    split
    next hi =>
      obtain ⟨disk, hdisk, hfile⟩ := try_ok_iff.mp (hinv.syncing i _ _ hi rfl)
      exact hinv.moved hi rfl (hinv.exclusive hi rfl) (.refl _ _ _)
        (fun other hne => Function.update_of_ne hne _ _) nofun fun _ =>
          ⟨disk, hdisk, by simp [← Except.ok.inj hfile]⟩
    · exact hinv
  | answer i failure =>
    simp only [next]
    split
    next change server hi =>
      refine hinv.finish (fun r hr => by rw [← Option.some.inj (hi.symm.trans hr)])
        fun other happ _ => ?_
      rw [← Option.some.inj happ]
      exact hinv.landed i _ hi rfl
    next hi => exact inv_giveUp hinv hi rfl _
    next hi => exact inv_giveUp hinv hi rfl _
    · exact hinv

/-- **The Node's cron file is the one the rows ask for** once the calls on an application have ended
and the last one succeeded, in every interleaving in which the calls of one application change rows
one at a time. -/
theorem cron_file_matches_rows {s₀ s : State} {trace : List (Transition State Op)}
    (hidle : ∀ i, s₀.running i = none) (hlog : s₀.log = [])
    (hrun : Run (Step registry) s₀ trace s) (hsafe : ∀ x ∈ trace, Safe x.pre x.label) :
    (∀ application, Agrees registry s application) ∧
      ∀ x ∈ trace, ∀ application, Agrees registry x.post application := by
  have hinv₀ : Inv registry s₀ := by
    constructor <;> simp [hidle, State.lastResult, hlog]
  have hagrees : ∀ {s}, Inv registry s → ∀ application, Agrees registry s application :=
    fun hinv application hquiet => hinv.settled application fun i r hi _ => hquiet i r hi
  obtain ⟨hinv, hall⟩ := hrun.invariant (Inv registry) Safe inv_step hinv₀ hsafe
  exact ⟨hagrees hinv, fun x hx => hagrees (hall x hx).2.2⟩

/-! ## A step moves its own call only -/

def Op.call : Op → Nat
  | .start i _ => i
  | .connect i _ => i
  | .land i => i
  | .answer i _ => i

theorem running_set_of_ne (h : j ≠ i) (r : Running) : (s.set i r).running j = s.running j := by
  simp [State.set, h]

theorem running_finish_of_ne (h : j ≠ i) (application : Option Uuid)
    (result : AppResult Unit) : (s.finish i application result).running j = s.running j := by
  simp [State.finish, h]

theorem running_next_of_ne {op : Op} (h : j ≠ op.call) :
    (next registry s op).running j = s.running j := by
  cases op with
  | start i request =>
    simp only [next]
    split
    · rfl
    · unfold start beginChange
      repeat' split
      all_goals first
        | exact running_finish_of_ne h _ _
        | exact running_set_of_ne h _
  | connect i error =>
    simp only [next]
    split
    · split
      · exact running_finish_of_ne h _ _
      · unfold connected
        split
        · exact running_finish_of_ne h _ _
        · split
          · exact running_finish_of_ne h _ _
          · exact running_set_of_ne h _
    · rfl
  | land i =>
    simp only [next]
    split
    · exact running_set_of_ne h _
    · rfl
  | answer i failure =>
    simp only [next]
    split
    · exact running_finish_of_ne h _ _
    · exact running_finish_of_ne h _ _
    · exact running_finish_of_ne h _ _
    · rfl

theorem running_foldl_of_ne (ops : List Op) (h : ∀ op ∈ ops, j ≠ op.call) :
    (ops.foldl (next registry) s).running j = s.running j := by
  induction ops generalizing s with
  | nil => rfl
  | cons op ops ih =>
    rw [foldl_cons, ih fun op' hop' => h op' (mem_cons_of_mem op hop')]
    exact running_next_of_ne (h op mem_cons_self)

/-! ## Two schedules at once -/

def node : Registry where
  application _ := some ⟨.docker, some Uuid.nil, "/srv/lobby", none⟩
  connectionMode _ := some .ssh

def noSchedules : State where
  table := ⟨[], nodup_nil⟩
  cron _ := none
  running _ := none
  log := []

def nightly (cron : String) : ScheduleInput :=
  ⟨"nightly", cron.toList, .restart, true⟩

/-- Two calls, each creating a schedule of one application, have started. -/
def bothStarted : List Op :=
  [.start 0 (.create Uuid.nil (nightly "0 4 * * *") Uuid.nil "2026-01-01T00:00:00+00:00"),
    .start 1 (.create Uuid.nil (nightly "0 5 * * *") Uuid.max "2026-01-01T00:00:01+00:00")]

/-- The second call changes the rows after the first one has ended. -/
def oneByOne : List Op :=
  bothStarted ++ [.connect 0 none, .land 0, .answer 0 none, .connect 1 none, .land 1, .answer 1 none]

/-- Both change the rows, and the file of the first lands after that of the second. -/
def overtaken : List Op :=
  bothStarted ++ [.connect 0 none, .connect 1 none, .land 1, .answer 1 none, .land 0, .answer 0 none]

/-- Of a run of calls 0 and 1, those two are looked at, and there are no others. -/
theorem all_running (ops : List Op) (hcalls : (ops.all (·.call < 2)) = true) (p : Running → Bool)
    (h : ∀ j < 2, ((ops.foldl (next node) noSchedules).running j).all p = true)
    (hj : (ops.foldl (next node) noSchedules).running j = some r) : p r = true := by
  rcases Nat.lt_or_ge j 2 with hlt | hge
  · have hall := h j hlt
    rwa [hj] at hall
  · have hnone : (ops.foldl (next node) noSchedules).running j = none :=
      running_foldl_of_ne ops fun op hop heq => by
        have hlt := of_decide_eq_true (all_eq_true.mp hcalls op hop)
        omega
    rw [hj] at hnone
    cases hnone

/-- Both schedules are in the file, one call after the other having changed the rows. -/
theorem oneByOne_matches :
    (∀ application, Agrees node (oneByOne.foldl (next node) noSchedules) application) ∧
      (oneByOne.foldl (next node) noSchedules).lastResult Uuid.nil = some (.ok ()) := by
  refine ⟨(cron_file_matches_rows (fun _ => rfl) rfl (run_of_traceOf fun x hx => ?_)
    fun x hx => ?_).1, by decide⟩
  · simp only [oneByOne, bothStarted, cons_append, nil_append, traceOf, mem_cons,
      not_mem_nil, or_false] at hx
    rcases hx with rfl | rfl | rfl | rfl | rfl | rfl | rfl | rfl
    · exact ⟨⟨by simp [noSchedules], by simp [noSchedules]⟩, rfl⟩
    · refine ⟨⟨by decide, fun i r hi => ?_⟩, rfl⟩
      have hid := all_running (bothStarted.take 1) (by decide)
        (fun r => decide (r.change.row.id ≠ Uuid.max)) (by decide) hi
      exact of_decide_eq_true hid
    all_goals exact ⟨trivial, rfl⟩
  · simp only [oneByOne, bothStarted, cons_append, nil_append, traceOf, mem_cons,
      not_mem_nil, or_false] at hx
    rcases hx with rfl | rfl | rfl | rfl | rfl | rfl | rfl | rfl
    · trivial
    · trivial
    · intro _ _ j r _ hj hchanged
      have hidle := all_running bothStarted (by decide) (fun r => !r.changed)
        (by decide) hj
      simp [hchanged] at hidle
    · trivial
    · trivial
    · intro _ _ j r _ hj hchanged
      have hidle := all_running (oneByOne.take 5) (by decide) (fun r => !r.changed)
        (by decide) hj
      simp [hchanged] at hidle
    · trivial
    · trivial

/-- Both calls succeed, both schedules are stored and enabled, and the file has only the first. -/
theorem overtaken_file_is_stale :
    let s := overtaken.foldl (next node) noSchedules
    (∀ i, s.running i = none) ∧ s.log = [(some Uuid.nil, .ok ()), (some Uuid.nil, .ok ())] ∧
      s.table.rows.map (fun row => (row.id, row.enabled)) = [(Uuid.nil, true), (Uuid.max, true)] ∧
      s.cron Uuid.nil = cronFile Uuid.nil (s.table.rows.take 1) none ∧
      ¬ Agrees node s Uuid.nil := by
  have hdone : ∀ i, (overtaken.foldl (next node) noSchedules).running i = none := fun i =>
    Option.eq_none_iff_forall_ne_some.mpr fun r hi => Bool.false_ne_true
      (all_running overtaken (by decide) (fun _ => false) (by decide) hi)
  refine ⟨hdone, by decide +kernel, by decide +kernel, by decide +kernel, fun h => ?_⟩
  obtain ⟨disk, hdisk, hfile⟩ := h (fun i r hi => by simp [hdone i] at hi) (by decide)
  have hnone : disk = none := by
    cases hdisk
    rfl
  subst hnone
  exact absurd hfile (by decide +kernel)

end VibeSsh.Schedules
