import VibeSsh.Backups.Records

/-! # Archive names

A name keeps the kind and the second, so two backups of one kind made within a second share their
archive, and deleting one takes the other's. Scheduled backups cannot collide: the schedule waits
for hours after the last backup of any kind. -/

namespace VibeSsh.Backups

open Lib List

/-! ## What a name tells -/

variable {kind : BackupKind} {t now : Nat} {w w' : World} {application : Uuid} {fileName : Text}
  {a : CreateAnswers} {r : ApplicationBackup} {schedule : BackupSchedule}

theorem BackupKind.eq_of_append {kind' : BackupKind} {x y : Text}
    (h : kind.asStr ++ x = kind'.asStr ++ y) : kind = kind' := by
  have hne : ∀ kind : BackupKind, kind.asStr ≠ [] := by
    intro kind
    cases kind <;> decide
  have hhead := congrArg List.head? h
  rw [List.head?_append_of_ne_nil _ (hne kind), List.head?_append_of_ne_nil _ (hne kind')] at hhead
  cases kind <;> cases kind' <;> first | rfl | exact absurd hhead (by decide)

theorem backupFileName_inj {kind' : BackupKind} {t' : Nat}
    (h : backupFileName kind t = backupFileName kind' t') : kind = kind' ∧ second t = second t' := by
  unfold backupFileName at h
  obtain rfl := BackupKind.eq_of_append h
  have hstamp := (List.cons.inj (append_cancel_left h)).2
  exact ⟨rfl, Calendar.stamp_inj (append_cancel_right hstamp)⟩

/-- Distinct records of one application name distinct archives. -/
def NamesDistinct (w : World) : Prop :=
  ∀ r ∈ w.records, ∀ r' ∈ w.records, r.applicationId = r'.applicationId → r.id ≠ r'.id →
    r.fileName ≠ r'.fileName

/-- No record that stays loses its archive or has it replaced. -/
def KeepsArchives (w w' : World) : Prop :=
  ∀ r ∈ w.records, r.id ∈ w'.records.map (·.id) →
    w'.archives r.applicationId r.fileName = w.archives r.applicationId r.fileName

/-- The invariant: identifiers are keys, names are distinct, and a record was named no later than
it was created, after the reading it keeps. -/
structure Inv (w : World) : Prop where
  ids : (w.records.map (·.id)).Nodup
  distinct : NamesDistinct w
  named : ∀ r ∈ w.records, r.createdAt ≤ w.clock ∧ r.namedAt ≤ r.createdAt ∧
    r.fileName = backupFileName r.kind r.namedAt

/-- A reading names a new archive unless a backup of the kind was named in its second. -/
theorem Inv.name_fresh (h : Inv w) (kind : BackupKind)
    (hnew : ∀ r ∈ w.records, r.applicationId = application → r.kind = kind →
      second r.namedAt ≠ second t) :
    ∀ r ∈ w.records, r.applicationId = application → r.fileName ≠ backupFileName kind t := by
  intro r hr happ heq
  obtain ⟨hkind, hsecond⟩ := backupFileName_inj ((h.named r hr).2.2.symm.trans heq)
  exact hnew r hr happ hkind hsecond

/-! ## The pieces of an operation -/

theorem archives_writeArchive_of_ne {app : Uuid} {name content : Text}
    (h : app = application → name ≠ fileName) :
    (w.writeArchive application fileName content).archives app name = w.archives app name := by
  by_cases happ : app = application
  · subst happ
    simp [World.writeArchive, h rfl]
  · simp [World.writeArchive, happ]

theorem Inv.of_sublist (h : Inv w) (hrecords : w'.records.Sublist w.records)
    (hclock : w.clock ≤ w'.clock) : Inv w' where
  ids := h.ids.sublist (hrecords.map _)
  distinct := fun r hr r' hr' => h.distinct r (hrecords.subset hr) r' (hrecords.subset hr')
  named := fun r hr =>
    ⟨(h.named r (hrecords.subset hr)).1.trans hclock, (h.named r (hrecords.subset hr)).2⟩

/-- The fields the invariant speaks of; the rest of a record may change. -/
def ApplicationBackup.core (r : ApplicationBackup) : Uuid × Uuid × Text × BackupKind × Nat × Nat :=
  (r.id, r.applicationId, r.fileName, r.kind, r.createdAt, r.namedAt)

theorem Inv.of_core (h : Inv w)
    (hrecords : w'.records.map ApplicationBackup.core = w.records.map ApplicationBackup.core)
    (hclock : w'.clock = w.clock) : Inv w' := by
  have hmem : ∀ r ∈ w'.records, ∃ r₀ ∈ w.records, r₀.core = r.core := fun r hr =>
    mem_map.mp (hrecords ▸ mem_map_of_mem hr)
  refine ⟨?_, fun r hr r' hr' happ hid => ?_, fun r hr => ?_⟩
  · have hids : w'.records.map (·.id) = w.records.map (·.id) := by
      simpa [Function.comp_def, ApplicationBackup.core] using congrArg (List.map Prod.fst) hrecords
    rw [hids]
    exact h.ids
  · obtain ⟨r₀, hr₀, hcore⟩ := hmem r hr
    obtain ⟨r₀', hr₀', hcore'⟩ := hmem r' hr'
    simp only [ApplicationBackup.core, Prod.mk.injEq] at hcore hcore'
    have := h.distinct r₀ hr₀ r₀' hr₀'
    grind
  · obtain ⟨r₀, hr₀, hcore⟩ := hmem r hr
    simp only [ApplicationBackup.core, Prod.mk.injEq] at hcore
    obtain ⟨-, -, hname, hkind, hcreated, hnamed⟩ := hcore
    have := h.named r₀ hr₀
    rwa [hname, hkind, hcreated, hnamed, ← hclock] at this

/-! ## Making one -/

/-- What making a backup changes: at most one record is added, under the new name, and only the
archive of that name is written. -/
structure Creates (application : Uuid) (kind : BackupKind) (a : CreateAnswers) (w w' : World) :
    Prop where
  clock : w'.clock = a.created
  records : w'.records.map ApplicationBackup.core = w.records.map ApplicationBackup.core ∨
    (a.id ∉ w.records.map (·.id) ∧
      w'.records.map ApplicationBackup.core = w.records.map ApplicationBackup.core ++
        [(a.id, application, backupFileName kind a.named, kind, a.created, a.named)])
  archives : ∀ app name, (app = application → name ≠ backupFileName kind a.named) →
    w'.archives app name = w.archives app name

theorem creates_recordBackup (application : Uuid) (kind : BackupKind) (content : Text)
    (hclock : w.clock = a.created) :
    Creates application kind a w (recordBackup w application kind a content).2 := by
  unfold recordBackup World.create
  dsimp only
  by_cases hid : w.records.any (·.id = a.id) = true
  · rw [if_pos hid]
    exact ⟨hclock, .inl rfl, fun _ _ _ => rfl⟩
  · rw [if_neg hid]
    have hnew : a.id ∉ w.records.map (·.id) := by simpa using hid
    have happend : (w.records ++ [(⟨a.id, application, backupFileName kind a.named, content.length,
        kind, none, a.created, a.named⟩ : ApplicationBackup)]).map ApplicationBackup.core =
        w.records.map ApplicationBackup.core ++
          [(a.id, application, backupFileName kind a.named, kind, a.created, a.named)] := by
      rw [map_append]
      rfl
    cases a.remote with
    | unconfigured | failed e => exact ⟨hclock, .inr ⟨hnew, happend⟩, fun _ _ _ => rfl⟩
    | uploaded =>
      refine ⟨hclock, .inr ⟨hnew, ?_⟩, fun _ _ _ => rfl⟩
      rw [← happend]
      unfold World.setS3Key
      rw [map_map]
      refine map_congr_left fun r _ => ?_
      simp only [Function.comp_apply]
      split <;> rfl

theorem creates_createBackup (w : World) (application : Uuid) (kind : BackupKind)
    (a : CreateAnswers) : Creates application kind a w (createBackup w application kind a).2 := by
  unfold createBackup
  dsimp only
  split
  · exact ⟨rfl, .inl rfl, fun _ _ _ => rfl⟩
  · exact ⟨rfl, .inl rfl, fun _ _ h => archives_writeArchive_of_ne h⟩
  · next content _ =>
    have hclock : (World.writeArchive { w with clock := a.created } application
      (backupFileName kind a.named) content).clock = a.created := rfl
    have hrec := creates_recordBackup application kind content hclock
    refine ⟨hrec.clock, hrec.records, fun app name h => ?_⟩
    rw [hrec.archives app name h]
    exact archives_writeArchive_of_ne h

theorem Creates.inv (h : Creates application kind a w w') (hw : Inv w) (hnamed : w.clock ≤ a.named)
    (hcreated : a.named ≤ a.created) (hfresh : ∀ r ∈ w.records, r.applicationId = application →
      r.fileName ≠ backupFileName kind a.named) : Inv w' := by
  have hclock : w.clock ≤ w'.clock := by rw [h.clock]; exact hnamed.trans hcreated
  rcases h.records with hsame | ⟨hid, hnew⟩
  · have hlater : Inv { w with clock := w'.clock } := hw.of_sublist (.refl _) hclock
    exact hlater.of_core hsame rfl
  · have hmem : ∀ r ∈ w'.records, (∃ r₀ ∈ w.records, r₀.core = r.core) ∨
        r.core = (a.id, application, backupFileName kind a.named, kind, a.created, a.named) := by
      intro r hr
      have hcore := mem_map_of_mem (f := ApplicationBackup.core) hr
      rw [hnew] at hcore
      rcases mem_append.mp hcore with hcore | hcore
      · exact .inl (mem_map.mp hcore)
      · exact .inr (mem_singleton.mp hcore)
    refine ⟨?_, fun r hr r' hr' happ hne => ?_, fun r hr => ?_⟩
    · have hids : w'.records.map (·.id) = w.records.map (·.id) ++ [a.id] := by
        simpa [Function.comp_def, ApplicationBackup.core] using congrArg (List.map Prod.fst) hnew
      rw [hids]
      exact nodup_append.mpr ⟨hw.ids, by simp, by
        rintro x hx y hy rfl
        exact hid (mem_singleton.mp hy ▸ hx)⟩
    · rcases hmem r hr with ⟨r₀, hr₀, hcore⟩ | hcore <;>
        rcases hmem r' hr' with ⟨r₀', hr₀', hcore'⟩ | hcore' <;>
        simp only [ApplicationBackup.core, Prod.mk.injEq] at hcore hcore'
      · have := hw.distinct r₀ hr₀ r₀' hr₀'
        grind
      · have := hfresh r₀ hr₀
        grind
      · have := hfresh r₀' hr₀'
        grind
      · exact absurd (hcore.1.trans hcore'.1.symm) hne
    · rcases hmem r hr with ⟨r₀, hr₀, hcore⟩ | hcore <;>
        simp only [ApplicationBackup.core, Prod.mk.injEq] at hcore <;>
        obtain ⟨-, -, hname, hkind, hcreatedAt, hnamedAt⟩ := hcore
      · have hr₀ := hw.named r₀ hr₀
        rw [hname, hkind, hcreatedAt, hnamedAt] at hr₀
        exact ⟨hr₀.1.trans hclock, hr₀.2⟩
      · exact ⟨by rw [hcreatedAt, h.clock], by rwa [hcreatedAt, hnamedAt], by rw [hname, hkind, hnamedAt]⟩

theorem Creates.keeps (h : Creates application kind a w w')
    (hfresh : ∀ r ∈ w.records, r.applicationId = application →
      r.fileName ≠ backupFileName kind a.named) :
    ∀ r ∈ w.records, w'.archives r.applicationId r.fileName = w.archives r.applicationId r.fileName :=
  fun r hr => h.archives _ _ fun happ => hfresh r hr happ

/-! ## Removing some -/

/-- Records go, and of the archives of those that stay none changes. -/
structure Removes (w w' : World) : Prop where
  records : w'.records.Sublist w.records
  clock : w.clock ≤ w'.clock
  archives : ∀ r ∈ w'.records,
    w'.archives r.applicationId r.fileName = w.archives r.applicationId r.fileName

theorem Removes.refl (w : World) : Removes w w := ⟨.refl _, le_rfl, fun _ _ => rfl⟩

theorem Removes.trans {w'' : World} (h1 : Removes w w') (h2 : Removes w' w'') : Removes w w'' :=
  ⟨h2.records.trans h1.records, h1.clock.trans h2.clock,
    fun r hr => (h2.archives r hr).trans (h1.archives r (h2.records.subset hr))⟩

theorem Removes.inv (h : Removes w w') (hw : Inv w) : Inv w' :=
  hw.of_sublist h.records h.clock

theorem Removes.keeps (h : Removes w w') (hw : Inv w) : KeepsArchives w w' := by
  intro r hr hid
  obtain ⟨r', hr', heq⟩ := mem_map.mp hid
  refine h.archives r ?_
  rwa [inj_on_of_nodup_map hw.ids hr (h.records.subset hr') heq.symm]

/-- A record and its archive go, or only the record; no other record has that archive. -/
theorem removes_one {id : Uuid}
    (hold : ∀ r ∈ w.records, r.applicationId = application → r.id ≠ id → r.fileName ≠ fileName)
    (stays : Bool) :
    Removes w (if stays then w.deleteRecord id
      else (w.deleteRecord id).deleteArchive application fileName) := by
  have hrecords : (w.records.filter (·.id ≠ id)).Sublist w.records := filter_sublist
  split
  · exact ⟨hrecords, le_rfl, fun _ _ => rfl⟩
  · refine ⟨hrecords, le_rfl, fun r hr => ?_⟩
    obtain ⟨hmem, hid⟩ := mem_filter.mp hr
    have hne := fun happ => hold r hmem happ (by simpa using hid)
    by_cases happ : r.applicationId = application
    · subst happ
      simp [World.deleteArchive, World.deleteRecord, hne rfl]
    · simp [World.deleteArchive, World.deleteRecord, happ]

theorem removes_deleteObject (w : World) (key : Text) : Removes w (w.deleteObject key) :=
  ⟨.refl _, le_rfl, fun _ _ => rfl⟩

theorem removes_foldl_pruneOne {a : PruneAnswers} {olds : List ApplicationBackup}
    (hold : ∀ old ∈ olds, ∀ r ∈ w.records, r.applicationId = application → r.id ≠ old.id →
      r.fileName ≠ old.fileName) : Removes w (olds.foldl (pruneOne application a) w) := by
  induction olds generalizing w with
  | nil => exact .refl w
  | cons old olds ih =>
    have hone : Removes w (pruneOne application a w old) := by
      have hone := removes_one (hold old mem_cons_self) (a.fileStays old.fileName)
      unfold pruneOne
      dsimp only
      split
      · exact hone
      · split
        · exact hone.trans (removes_deleteObject _ _)
        · exact hone
    refine hone.trans (ih fun old' hold' r hr => ?_)
    exact hold old' (mem_cons_of_mem old hold') r (hone.records.subset hr)

theorem mem_pruneLoop {index kept : Nat} {backups : List ApplicationBackup} {b : ApplicationBackup}
    (h : b ∈ pruneLoop schedule now index kept backups) : b ∈ backups := by
  fun_induction pruneLoop schedule now index kept backups with
  | case1 => exact h
  | case2 kept backup rest ih | case4 index kept backup rest _ _ _ _ ih =>
    exact mem_cons_of_mem _ (ih h)
  | case3 index kept backup rest _ _ _ _ ih =>
    rcases mem_cons.mp h with rfl | h
    · exact mem_cons_self
    · exact mem_cons_of_mem _ (ih h)

theorem mem_list : r ∈ w.list application ↔ r ∈ w.records ∧ r.applicationId = application := by
  simp [World.list, mem_insertionSort]

theorem removes_pruneOldBackups (application : Uuid) (schedule : BackupSchedule)
    {a : PruneAnswers} (hw : Inv w) (hclock : w.clock ≤ a.now) :
    Removes w (pruneOldBackups w application schedule a).2 := by
  have hlater : Removes w { w with clock := a.now } := ⟨.refl _, hclock, fun _ _ => rfl⟩
  unfold pruneOldBackups
  dsimp only
  split
  · exact hlater
  · split
    · exact hlater
    · refine hlater.trans (removes_foldl_pruneOne fun old hmem r hr happ hne => ?_)
      have hold := mem_list.mp (mem_of_mem_filter (mem_pruneLoop hmem))
      exact hw.distinct r hr old hold.1 (happ.trans hold.2.symm) hne

/-! ## The schedule waits -/

theorem createdAt_le_latest (hr : r ∈ w.records) :
    ∃ last, w.latestBackupAt r.applicationId = some last ∧ r.createdAt ≤ last := by
  have hmem : r ∈ w.list r.applicationId := mem_list.mpr ⟨hr, rfl⟩
  have hsorted : (w.list r.applicationId).Pairwise fun a b => b.createdAt ≤ a.createdAt :=
    pairwise_insertionSort _ _
  unfold World.latestBackupAt
  generalize w.list r.applicationId = l at *
  match l, hmem, hsorted with
  | newest :: rest, hmem, hsorted =>
    refine ⟨newest.createdAt, rfl, ?_⟩
    rcases mem_cons.mp hmem with rfl | hmem
    · exact le_rfl
    · exact (pairwise_cons.mp hsorted).1 r hmem

theorem due_second_ne (hw : Inv w) (hdue : isDue w application schedule now = true) (ht : now ≤ t) :
    ∀ r ∈ w.records, r.applicationId = application → second r.namedAt ≠ second t := by
  rintro r hr rfl
  obtain ⟨last, hlast, hle⟩ := createdAt_le_latest hr
  obtain ⟨-, hnamed, -⟩ := hw.named r hr
  rw [isDue, hlast, Option.all_some] at hdue
  have hwait := of_decide_eq_true hdue
  have hpos := schedule.interval_pos
  unfold hours at hwait
  have hlater : r.namedAt + 10 ^ 9 ≤ t := by omega
  have hnext := Nat.div_le_div_right (c := 10 ^ 9) hlater
  rw [Nat.add_div_right _ (by decide)] at hnext
  exact Nat.ne_of_lt hnext

/-! ## Every operation -/

/-- Where the archives are safe: a backup by hand is not named in a second in which another one by
hand that is still recorded was named, and a backup is deleted as its own application's. -/
def Safe (w : World) : Op → Prop
  | .createManual application a => ∀ r ∈ w.records, r.applicationId = application →
      r.kind = .manual → second r.namedAt ≠ second a.named
  | .delete application backup _ _ => ∀ r ∈ w.records, r.id = backup → r.applicationId = application
  | _ => True

theorem keeps_runDueBackup {a : DueAnswers} (hw : Inv w)
    (hclock : (w.clock :: (Op.runDue application a).readings).Pairwise (· ≤ ·)) :
    Inv (runDueBackup w application a) ∧ KeepsArchives w (runDueBackup w application a) := by
  simp only [Op.readings, pairwise_cons, mem_cons, not_mem_nil, or_false,
    forall_eq_or_imp, forall_eq] at hclock
  obtain ⟨⟨hnow, -⟩, ⟨hnamed, -⟩, ⟨hcreated, -⟩, hprune, -⟩ := hclock
  unfold runDueBackup
  split
  · exact ⟨hw, fun _ _ _ => rfl⟩
  next schedule _ =>
  dsimp only
  have hlater : Inv { w with clock := a.now } := hw.of_sublist (.refl _) hnow
  split
  · exact ⟨hlater, fun _ _ _ => rfl⟩
  next hdue =>
  have hdue : isDue { w with clock := a.now } application schedule a.now = true := by
    simpa using (not_or.mp (mt Bool.or_eq_true_iff.mpr hdue)).2
  have hfresh := hlater.name_fresh .scheduled
    fun r hr happ _ => due_second_ne hlater hdue hnamed r hr happ
  have hcreates := creates_createBackup { w with clock := a.now } application .scheduled a.create
  have hinv := hcreates.inv hlater hnamed hcreated hfresh
  have hkept := hcreates.keeps hfresh
  split
  · next hresult =>
    rw [hresult] at hinv hkept
    exact ⟨hinv, fun r hr _ => hkept r hr⟩
  · next w' hresult =>
    rw [hresult] at hcreates hinv hkept
    have hremoves := removes_pruneOldBackups application schedule hinv
      (show w'.clock ≤ a.prune.now by rw [hcreates.clock]; exact hprune)
    refine ⟨hremoves.inv hinv, fun r hr hid => ?_⟩
    -- the record is still there after the new one was made, with the same archive
    obtain ⟨r', hr', hcore⟩ : ∃ r' ∈ w'.records, r'.core = r.core := by
      have hmem := mem_map_of_mem (f := ApplicationBackup.core) hr
      rcases hcreates.records with hsame | ⟨-, hnew⟩
      · exact mem_map.mp (hsame ▸ hmem)
      · exact mem_map.mp (hnew ▸ mem_append_left _ hmem)
    simp only [ApplicationBackup.core, Prod.mk.injEq] at hcore
    obtain ⟨hid', happ', hname', -⟩ := hcore
    have hpruned := hremoves.keeps hinv r' hr' (hid' ▸ hid)
    rw [happ', hname'] at hpruned
    exact hpruned.trans (hkept r hr)

theorem keeps_deleteBackup {backup : Uuid} (fileError remoteError : Option AppError) (hw : Inv w)
    (hsafe : ∀ r ∈ w.records, r.id = backup → r.applicationId = application) :
    Removes w (deleteBackup w application backup fileError remoteError).2 := by
  unfold deleteBackup
  split
  · exact .refl w
  next row hrow =>
  have hmem : row ∈ w.records := mem_of_find?_eq_some hrow
  have hid : row.id = backup := by simpa using List.find?_some hrow
  have hothers : ∀ r ∈ w.records, r.applicationId = application → r.id ≠ backup →
      r.fileName ≠ row.fileName := fun r hr happ hne =>
    hw.distinct r hr row hmem (happ.trans (hsafe row hmem hid).symm) (hid ▸ hne)
  have hone := removes_one hothers fileError.isSome
  dsimp only
  split
  · exact hone
  · split
    · exact hone
    · exact hone.trans (removes_deleteObject _ _)

theorem keeps_step {op : Op} (hw : Inv w) (hsafe : Safe w op) (hstep : Step w op w') :
    Inv w' ∧ KeepsArchives w w' := by
  obtain ⟨hclock, rfl⟩ := hstep
  cases op with
  | createManual application a =>
    simp only [Op.readings, pairwise_cons, mem_cons, not_mem_nil, or_false,
      forall_eq_or_imp, forall_eq] at hclock
    obtain ⟨⟨hnamed, -⟩, hcreated, -⟩ := hclock
    have hfresh := hw.name_fresh .manual hsafe
    have hcreates := creates_createBackup w application .manual a
    exact ⟨hcreates.inv hw hnamed hcreated hfresh, fun r hr _ => hcreates.keeps hfresh r hr⟩
  | runDue application a => exact keeps_runDueBackup hw hclock
  | delete application backup fileError remoteError =>
    have hremoves := keeps_deleteBackup fileError remoteError hw hsafe
    exact ⟨hremoves.inv hw, hremoves.keeps hw⟩
  | setSchedule application input =>
    simp only [next, setBackupSchedule]
    split
    · exact ⟨hw, fun _ _ _ => rfl⟩
    · split
      · exact ⟨hw, fun _ _ _ => rfl⟩
      · exact ⟨hw.of_sublist (.refl _) le_rfl, fun _ _ _ => rfl⟩

/-- **Records of one application keep separate archives** in every run whose steps are `Safe`. -/
theorem archives_stay_apart {w₀ w : World} {trace : List (Transition World Op)}
    (hstart : w₀.records = []) (hrun : Run Step w₀ trace w)
    (hsafe : ∀ x ∈ trace, Safe x.pre x.label) :
    NamesDistinct w ∧ ∀ x ∈ trace, NamesDistinct x.post ∧ KeepsArchives x.pre x.post := by
  have hinv₀ : Inv w₀ := ⟨by simp [hstart], by simp [NamesDistinct, hstart], by simp [hstart]⟩
  obtain ⟨hinv, hall⟩ := hrun.invariant Inv Safe (fun hw hs hstep => (keeps_step hw hs hstep).1)
    hinv₀ hsafe
  refine ⟨hinv.distinct, fun x hx => ?_⟩
  obtain ⟨hpre, hstep, hpost⟩ := hall x hx
  exact ⟨hpost.distinct, (keeps_step hpre (hsafe x hx) hstep).2⟩

/-! ## Two backups in one second -/

def noBackups : World := ⟨[], fun _ => none, fun _ _ => none, fun _ => none, 0⟩

/-- A backup by hand, named at `now` and recorded 200 ms later. -/
def byHand (id : Uuid) (now : Nat) : Op :=
  .createManual Uuid.nil ⟨now, now + 200000000, id, .done "PK", .unconfigured⟩

/-- Two backups by hand, the second named in the second in which the first was recorded, and the
first one deleted. -/
def secondApart : List Op :=
  [byHand Uuid.nil 1900000000, byHand Uuid.max 2500000000, .delete Uuid.nil Uuid.nil none none]

theorem secondApart_keep_archives :
    NamesDistinct (secondApart.foldl next noBackups) ∧
      ∀ x ∈ traceOf next noBackups secondApart, NamesDistinct x.post ∧ KeepsArchives x.pre x.post := by
  have hok : ∀ x ∈ traceOf next noBackups secondApart,
      Step x.pre x.label x.post ∧ Safe x.pre x.label := by
    intro x hx
    simp only [secondApart, traceOf, mem_cons, not_mem_nil, or_false] at hx
    rcases hx with rfl | rfl | rfl
    · exact ⟨⟨by decide, rfl⟩, by simp [Safe, byHand, noBackups]⟩
    · exact ⟨⟨by decide, rfl⟩, by unfold Safe byHand; decide⟩
    · exact ⟨⟨by decide, rfl⟩, by unfold Safe; decide⟩
  exact archives_stay_apart rfl (run_of_traceOf fun x hx => (hok x hx).1) fun x hx => (hok x hx).2

/-- Half a second apart both records name one archive, and deleting the first backup removes the
archive of the second. -/
theorem same_second_archive_lost :
    let w := [byHand Uuid.nil 1000000000, byHand Uuid.max 1500000000].foldl next noBackups
    let w' := next w (.delete Uuid.nil Uuid.nil none none)
    w.records.map (fun r => (r.id, r.fileName)) =
        [(Uuid.nil, "manual-19700101-000001.zip".toList),
          (Uuid.max, "manual-19700101-000001.zip".toList)] ∧
      w.archives Uuid.nil "manual-19700101-000001.zip".toList = some "PK".toList ∧
      w'.records.map (fun r => (r.id, r.fileName)) =
        [(Uuid.max, "manual-19700101-000001.zip".toList)] ∧
      w'.archives Uuid.nil "manual-19700101-000001.zip".toList = none := by
  decide

end VibeSsh.Backups
