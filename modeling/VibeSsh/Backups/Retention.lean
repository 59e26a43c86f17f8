import VibeSsh.Backups.Names

/-! # Retention

What `backups_to_prune` leaves of a list newest first: the newest scheduled backup whatever its
size, and behind it only what keeps within all three limits. -/

namespace VibeSsh.Backups

open Lib List

/-- What the limits ask of the scheduled backups that are left. -/
structure WithinRetention (schedule : BackupSchedule) (now : Nat) (newest : ApplicationBackup)
    (left : List ApplicationBackup) : Prop where
  count : left.length ≤ max 1 schedule.retentionCount
  size : ∀ limit ∈ schedule.retentionMaxTotalBytes,
    (left.map (·.sizeBytes)).sum ≤ max limit newest.sizeBytes
  age : ∀ n ∈ schedule.retentionMaxAgeDays, ∀ b ∈ left, b ≠ newest → now ≤ b.createdAt + days n

/-- What the loop leaves behind the newest, from a position and a number of bytes kept. -/
structure Leaves (schedule : BackupSchedule) (now index kept : Nat)
    (left : List ApplicationBackup) : Prop where
  count : left.length + index ≤ max index schedule.retentionCount
  size : ∀ limit ∈ schedule.retentionMaxTotalBytes,
    kept + (left.map (·.sizeBytes)).sum ≤ max limit kept
  age : ∀ n ∈ schedule.retentionMaxAgeDays, ∀ b ∈ left, now ≤ b.createdAt + days n
  again : ∀ i < index, pruneLoop schedule now (i + 1) kept left = []

variable {schedule : BackupSchedule} {now index kept : Nat} {backups : List ApplicationBackup}

theorem leaves_pruneLoop (h : backups.Nodup) : Leaves schedule now (index + 1) kept
    (backups.filter (· ∉ pruneLoop schedule now (index + 1) kept backups)) := by
  induction backups generalizing index kept with
  | nil => exact ⟨by simp, by simp, by simp, fun _ _ => rfl⟩
  | cons b rest ih =>
    obtain ⟨hb, hrest⟩ := nodup_cons.mp h
    unfold pruneLoop
    dsimp only
    split
    · -- Pruned: the rest is judged as if it had not been there, one position later.
      obtain ⟨hcount, hsize, hage, hagain⟩ : Leaves schedule now (index + 2) kept
        (rest.filter (· ∉ pruneLoop schedule now (index + 2) kept rest)) := ih hrest
      have hleft : ∀ pruned, (b :: rest).filter (· ∉ b :: pruned) = rest.filter (· ∉ pruned) := by
        intro pruned
        rw [filter_cons_of_neg (by simp)]
        refine filter_congr fun x hx => ?_
        have hne : x ≠ b := fun heq => hb (heq ▸ hx)
        simp [hne]
      rw [hleft]
      exact ⟨by omega, hsize, hage, fun i hi => hagain i (by omega)⟩
    next hkept =>
      obtain ⟨hcount, hsize, hage, hagain⟩ : Leaves schedule now (index + 2) (kept + b.sizeBytes)
        (rest.filter (· ∉ pruneLoop schedule now (index + 2) (kept + b.sizeBytes) rest)) := ih hrest
      have hnot : b ∉ pruneLoop schedule now (index + 2) (kept + b.sizeBytes) rest :=
        fun hmem => hb (mem_pruneLoop hmem)
      simp only [Bool.or_eq_true, not_or, decide_eq_true_eq, Option.any_eq_true, not_exists,
        not_and, Nat.not_le, Nat.not_lt] at hkept
      obtain ⟨⟨hkeptCount, hkeptAge⟩, hkeptSize⟩ := hkept
      rw [filter_cons_of_pos (by simpa using hnot)]
      refine ⟨?_, fun limit hlimit => ?_, fun n hn => ?_, fun i hi => ?_⟩
      · rw [length_cons]
        omega
      · have := hsize limit hlimit
        have := hkeptSize limit hlimit
        rw [map_cons, sum_cons]
        omega
      · exact forall_mem_cons.mpr ⟨hkeptAge n hn, hage n hn⟩
      · unfold pruneLoop
        dsimp only
        rw [if_neg, hagain (i + 1) (by omega)]
        simp only [Bool.or_eq_true, not_or, decide_eq_true_eq, Option.any_eq_true, not_exists,
          not_and, Nat.not_le, Nat.not_lt]
        exact ⟨⟨by omega, hkeptAge⟩, hkeptSize⟩

/-- **What is left keeps within the limits**, of a list newest first without repetitions: no manual
backup and never the newest scheduled one is pruned, and a second pass finds nothing. -/
theorem pruned_keeps_retention (backups : List ApplicationBackup) (schedule : BackupSchedule)
    (now : Nat) (hsorted : backups.Pairwise fun a b => b.createdAt ≤ a.createdAt)
    (hnodup : backups.Nodup) :
    (∀ b ∈ backupsToPrune backups schedule now, b ∈ backups ∧ b.kind = .scheduled) ∧
      (∀ newest ∈ (backups.filter (·.kind = .scheduled)).head?,
        (∀ b ∈ backups, b.kind = .scheduled → b.createdAt ≤ newest.createdAt) ∧
        newest ∉ backupsToPrune backups schedule now ∧
        WithinRetention schedule now newest
          ((backups.filter (· ∉ backupsToPrune backups schedule now)).filter
            (·.kind = .scheduled))) ∧
      backupsToPrune (backups.filter (· ∉ backupsToPrune backups schedule now)) schedule now = [] := by
  refine ⟨fun b hb => by simpa using mem_filter.mp (mem_pruneLoop hb), ?_⟩
  cases hscheduled : backups.filter (·.kind = .scheduled) with
  | nil =>
    have hnone : backupsToPrune backups schedule now = [] := by
      rw [backupsToPrune, hscheduled, pruneLoop]
    exact ⟨by simp, by simp [hnone]⟩
  | cons newest rest =>
    have hpruned : backupsToPrune backups schedule now =
        pruneLoop schedule now 1 newest.sizeBytes rest := by
      rw [backupsToPrune, hscheduled, pruneLoop, Nat.zero_add]
    obtain ⟨hnew, hrest⟩ := nodup_cons.mp (hscheduled ▸ hnodup.filter _)
    have hnot : newest ∉ backupsToPrune backups schedule now :=
      fun hmem => hnew (mem_pruneLoop (hpruned ▸ hmem))
    have hleft : (backups.filter (· ∉ backupsToPrune backups schedule now)).filter
        (·.kind = .scheduled) =
          newest :: rest.filter (· ∉ backupsToPrune backups schedule now) := by
      rw [filter_comm, hscheduled, filter_cons_of_pos (by simpa using hnot)]
    obtain ⟨hcount, hsize, hage, hagain⟩ :=
      hpruned ▸ @leaves_pruneLoop schedule now 0 newest.sizeBytes rest hrest
    constructor
    · intro first hfirst
      obtain rfl : newest = first := Option.some.inj hfirst
      refine ⟨fun b hb hkind => ?_, hnot, hleft ▸ ⟨by simpa using hcount, ?_, ?_⟩⟩
      · have hmem : b ∈ newest :: rest := hscheduled ▸ mem_filter.mpr ⟨hb, by simpa using hkind⟩
        have hordered : (newest :: rest).Pairwise fun a b => b.createdAt ≤ a.createdAt :=
          hscheduled ▸ hsorted.filter _
        rcases mem_cons.mp hmem with rfl | hmem
        · exact le_rfl
        · exact rel_of_pairwise_cons hordered hmem
      · simpa using hsize
      · intro n hn b hb hne
        exact hage n hn b ((mem_cons.mp hb).resolve_left hne)
    · rw [backupsToPrune, hleft, pruneLoop, Nat.zero_add]
      exact hagain 0 (by omega)

def keepOne : BackupSchedule := ⟨true, 24, 1, none, none, by decide⟩

def olderBackup : ApplicationBackup :=
  ⟨.nil, .nil, "scheduled-1.zip", 10, .scheduled, none, days 1, days 1⟩

def newerBackup : ApplicationBackup :=
  ⟨.max, .nil, "scheduled-2.zip", 10, .scheduled, none, days 2, days 2⟩

theorem older_pruned : backupsToPrune [newerBackup, olderBackup] keepOne (days 3) = [olderBackup] ∧
    newerBackup ∉ backupsToPrune [newerBackup, olderBackup] keepOne (days 3) := by
  refine ⟨by decide, ?_⟩
  exact ((pruned_keeps_retention [newerBackup, olderBackup] keepOne (days 3) (by decide)
    (by decide)).2.1 newerBackup rfl).2.1

/-- Oldest first, the newest is pruned. -/
theorem newest_pruned_out_of_order :
    newerBackup ∈ backupsToPrune [olderBackup, newerBackup] keepOne (days 3) ∧
      ∀ b ∈ [olderBackup, newerBackup], b.createdAt ≤ newerBackup.createdAt := by
  decide

end VibeSsh.Backups
