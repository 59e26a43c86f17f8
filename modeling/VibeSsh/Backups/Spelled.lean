import VibeSsh.Backups.Extract

/-! # Names with a backslash in a restore

A provider cuts a path at backslashes, so a name that has one is taken for a path of several names.
The removal after a restore lists such a name, does not find it among the paths of the archive, and
deletes what it is taken for instead. -/

namespace VibeSsh.Backups

open Lib List Option Sandbox

variable {root : Text} {t s s' : FileTree} {archive : Archive} {q d r : List Text} {n : Text}

variable {item : Item} {keep : List Text}

theorem housekeeping_above (h : r <+: q) (hq : housekeeping q = false) :
    housekeeping r = false := by
  by_cases hr : r = []
  · subst hr
    rfl
  · rwa [← housekeeping_of_below hr h]

/-- The first name on a path that has a backslash. -/
theorem exists_backslash_of_not_allPlain (h : ¬ AllPlain t) :
    ∃ d n, housekeeping (d ++ [n]) = false ∧ Plain d ∧ '\\' ∈ n ∧
      (t.get (d ++ [n])).isSome = true := by
  unfold AllPlain at h
  push Not at h
  obtain ⟨p, item, hget, hhouse, hplain⟩ := h
  induction p using List.reverseRecOn generalizing item with
  | nil => exact absurd (fun n hn => by cases hn) hplain
  | append_singleton d n ih =>
    by_cases hd : Plain d
    · refine ⟨d, n, hhouse, hd, ?_, by simp [hget]⟩
      by_contra hn
      exact hplain (Plain.concat.mpr ⟨hd, FileTree.names_of_get hget n (by simp), hn⟩)
    · exact ih .dir (FileTree.get_of_append (by simp) hget)
        (housekeeping_above (prefix_append ..) hhouse) hd

/-! ## The paths of an archive have no backslash -/

theorem mem_of_mem_parentText {x : Text} {c : Char} (hc : c ∈ (parentText x).getD []) : c ∈ x := by
  unfold parentText at hc
  dsimp only at hc
  split at hc
  · cases hc
  · next hlong =>
    rcases Text.mem_join hc with hslash | ⟨part, hpart, hc⟩
    · rw [mem_singleton.mp hslash]
      by_contra hnone
      rw [Text.splitOn_of_notMem hnone] at hlong
      exact hlong (by simp)
    · exact Text.mem_of_mem_splitOn (mem_of_mem_dropLast hpart) hc

theorem mem_of_mem_withParents {fuel : Nat} {x k : Text} (hk : k ∈ withParents fuel x) {c : Char}
    (hc : c ∈ k) : c ∈ x := by
  induction fuel generalizing x with
  | zero => cases hk
  | succ fuel ih =>
    rw [withParents] at hk
    split at hk
    · cases hk
    · rcases mem_cons.mp hk with rfl | hk
      · exact hc
      · exact mem_of_mem_parentText (ih hk)

theorem backslash_not_mem_entryPaths {k : Text} (hk : k ∈ entryPaths archive) : '\\' ∉ k := by
  intro hc
  obtain ⟨entry, -, hk⟩ := mem_flatMap.mp hk
  split at hk
  · cases hk
  · have htrimmed := mem_of_mem_withParents hk hc
    rw [Text.trimEndMatches] at htrimmed
    obtain ⟨c, -, heq⟩ := mem_map.mp (( rdropWhile_prefix _ _).subset htrimmed)
    split at heq
    · cases heq
    · next hne => exact hne heq

/-! ## What the removal deletes -/

/-- Nothing was added, and what is gone was deleted under a path of plain names. -/
def Shrunk (s s' : FileTree) : Prop :=
  ∀ q, s'.get q = s.get q ∨ s'.get q = none ∧ ∃ r, Plain r ∧ r <+: q ∧ s'.get r = none

theorem Shrunk.refl (s : FileTree) : Shrunk s s := fun _ => .inl rfl

theorem Shrunk.get_eq_none (h : Shrunk s s') (hget : s.get q = none) : s'.get q = none := by
  rcases h q with hsame | ⟨hnone, -⟩
  · rw [hsame, hget]
  · exact hnone

theorem Shrunk.get_eq_some (h : Shrunk s s') (hget : s'.get q = some item) :
    s.get q = some item := by
  rcases h q with hsame | ⟨hnone, -⟩
  · rw [← hsame, hget]
  · cases hnone.symm.trans hget

theorem Shrunk.trans {s'' : FileTree} (h : Shrunk s s') (h' : Shrunk s' s'') : Shrunk s s'' := by
  intro q
  rcases h' q with hsame | hgone
  · rcases h q with hsame' | ⟨hnone, r, hr, hrq, hget⟩
    · exact .inl (hsame.trans hsame')
    · exact .inr ⟨hsame.trans hnone, r, hr, hrq, h'.get_eq_none hget⟩
  · exact .inr hgone

theorem shrunk_delete {path : Text} (h : (treeProvider root).delete s path = .ok s') :
    Shrunk s s' ∧ ∃ r, relativeSegments path = .ok r ∧ s'.get r = none := by
  obtain ⟨r, hr, h⟩ := try_ok_iff.mp h
  split_ifs at h with hnil
  cases h
  have hplain : Plain r := fun n hn =>
    let ⟨hname, hnul, hslash⟩ := accepted_of_relativeSegments hr n hn
    ⟨⟨hname, hnul⟩, hslash⟩
  have hgone : (s.remove r).get r = none := by rw [FileTree.get_remove hnil, if_pos prefix_rfl]
  refine ⟨fun q => ?_, r, hr, hgone⟩
  rw [FileTree.get_remove hnil]
  split_ifs with hrq
  · exact .inr ⟨rfl, r, hplain, hrq, hgone⟩
  · exact .inl rfl

variable {levels : Nat} {relative : Text} {x y : FileTree × Nat}

theorem shrunk_entry {e : Listed}
    (hbelow : ∀ path relative x y, removeEntriesNotIn (treeProvider root) keep levels path relative
      x = .ok y → Shrunk x.1 y.1)
    (h : (if e.isSymlink || (relative.isEmpty && isHousekeeping e.name) then .ok x
      else
        if underPath relative e.name ∉ keep then do
          let s ← (treeProvider root).delete x.1 (underPath relative e.name)
          .ok (s, x.2 + 1)
        else if e.isDir then
          removeEntriesNotIn (treeProvider root) keep levels (underPath relative e.name)
            (underPath relative e.name) x
        else .ok x : AppResult (FileTree × Nat)) = .ok y) : Shrunk x.1 y.1 := by
  split at h
  · cases h
    exact .refl x.1
  split at h
  · obtain ⟨s, hdelete, heq⟩ := try_ok_iff.mp h
    cases heq
    exact (shrunk_delete hdelete).1
  split at h
  · exact hbelow _ _ _ _ h
  · cases h
    exact .refl x.1

theorem shrunk_removeEntriesNotIn {path : Text}
    (h : removeEntriesNotIn (treeProvider root) keep levels path relative x = .ok y) :
    Shrunk x.1 y.1 := by
  induction levels generalizing path relative x y with
  | zero =>
    cases h
    exact .refl x.1
  | succ levels ih =>
    obtain ⟨entries, -, h⟩ := try_ok_iff.mp h
    exact foldlM_invariant (fun _ z => Shrunk x.1 z.1) h (.refl x.1)
      fun _ _ _ _ _ _ hdone hstep => hdone.trans (shrunk_entry (fun _ _ _ _ => ih) hstep)

/-- The test the removal makes for VibeSSH's own entries. -/
theorem isHousekeeping_child (hd : ∀ m ∈ d, IsEntryName m)
    (hhouse : housekeeping d = false) :
    ((pathText d).isEmpty && isHousekeeping n) = housekeeping (d ++ [n]) := by
  by_cases hnil : d = []
  · subst hnil
    rfl
  · rw [housekeeping_of_below hnil (prefix_append ..), hhouse,
      isEmpty_eq_false_iff.mpr (pathText_ne_nil hd hnil), Bool.false_and]

theorem exists_listed (h : s.get (d ++ [n]) = some item) :
    ∃ e ∈ Tree.listed s d, e.name = n ∧ e.isDir = item.isDir ∧ e.isSymlink = false := by
  rcases below_cases (prefix_append d [n]) (by rw [h]; rfl) with heq | ⟨e, he, hle⟩
  · simp at heq
  · have hname : e.name = n := by simpa using hle.eq_of_length (by simp)
    obtain ⟨item', hitem, hdir, hlink⟩ := mem_listed he
    rw [hname, h] at hitem
    cases hitem
    exact ⟨e, he, hname, hdir, hlink⟩

/-- **Where a name with a backslash is left in a directory the archive has, what it is taken for has
been deleted.** -/
theorem spelled_gone {path : Text} {m : List Text} (hkeep : ∀ k ∈ keep, '\\' ∉ k)
    (h : removeEntriesNotIn (treeProvider root) keep levels path (pathText d) x = .ok y)
    (hlist : (treeProvider root).listDirectory x.1 path = .ok (Tree.listed x.1 d))
    (hlevels : m.length < levels) (hplain : Plain (d ++ m))
    (hkept : ∀ c, c ≠ [] → c <+: m → pathText (d ++ c) ∈ keep) (hn : '\\' ∈ n)
    (hhouse : housekeeping (d ++ m ++ [n]) = false)
    (hthere : (y.1.get (d ++ m ++ [n])).isSome = true) :
    ∃ r, relativeSegments (pathText (d ++ m ++ [n])) = .ok r ∧ y.1.get r = none := by
  induction levels generalizing d path x y m with
  | zero => cases hlevels
  | succ levels ih =>
    have hd : ∀ m ∈ d, IsEntryName m := (hplain.of_above (prefix_append ..)).names
    have hhouse' : housekeeping d = false :=
      housekeeping_above ((prefix_append ..).trans (prefix_append ..)) hhouse
    have hshrunk := shrunk_removeEntriesNotIn h
    unfold removeEntriesNotIn at h
    dsimp only at h
    rw [hlist] at h
    obtain ⟨item, hitem⟩ := isSome_iff_exists.mp hthere
    cases m with
    | nil =>
      rw [append_nil] at hitem hhouse ⊢
      obtain ⟨e, he, rfl, -, hlink⟩ := exists_listed (hshrunk.get_eq_some hitem)
      obtain ⟨z, z', hstep, hrest⟩ := foldlM_visits he h
      have hafter : Shrunk z'.1 y.1 := hrest (fun z => Shrunk z'.1 z.1) (fun b e b' hstep h =>
        h.trans (shrunk_entry (fun _ _ _ _ => shrunk_removeEntriesNotIn) hstep)) (.refl _)
      have hnot : pathText (d ++ [e.name]) ∉ keep := fun hmem => by
        refine hkeep _ hmem ?_
        by_cases hnil : d = []
        · simpa [hnil, pathText, Text.join] using hn
        · rw [pathText_concat hnil]
          simp [hn]
      rw [hlink, Bool.false_or, isHousekeeping_child hd hhouse', hhouse, if_neg (by simp),
        underPath_pathText hd, if_pos hnot] at hstep
      obtain ⟨s, hdelete, heq⟩ := try_ok_iff.mp hstep
      cases heq
      obtain ⟨-, r, hr, hgone⟩ := shrunk_delete hdelete
      exact ⟨r, hr, hafter.get_eq_none hgone⟩
    | cons a m =>
      have hassoc : d ++ a :: m = d ++ [a] ++ m := by simp
      rw [hassoc] at hitem hplain hhouse hthere ⊢
      have habove : d ++ [a] <+: d ++ [a] ++ m ++ [n] :=
        (prefix_append ..).trans (prefix_append ..)
      have hdir : y.1.get (d ++ [a]) = some .dir := by
        refine FileTree.get_of_above habove (fun heq => ?_) hitem
        simpa using congrArg length heq
      have hhouse'' := housekeeping_above habove hhouse
      obtain ⟨e, he, rfl, hisDir, hlink⟩ := exists_listed (hshrunk.get_eq_some hdir)
      obtain ⟨z, z', hstep, hrest⟩ := foldlM_visits he h
      have hafter : Shrunk z'.1 y.1 := hrest (fun z => Shrunk z'.1 z.1) (fun b e b' hstep h =>
        h.trans (shrunk_entry (fun _ _ _ _ => shrunk_removeEntriesNotIn) hstep)) (.refl _)
      have hmem := hkept [e.name] (by simp) ⟨m, rfl⟩
      rw [hlink, Bool.false_or, isHousekeeping_child hd hhouse', hhouse'', if_neg (by simp),
        underPath_pathText hd, if_neg (not_not.mpr hmem), hisDir, Item.isDir, if_pos rfl] at hstep
      have hz : z.1.get (d ++ [e.name]) = some .dir :=
        (shrunk_removeEntriesNotIn hstep).get_eq_some (hafter.get_eq_some hdir)
      obtain ⟨r, hr, hgone⟩ := ih hstep
        (listDirectory_pathText (hplain.of_above (prefix_append ..)) hz)
        (Nat.lt_of_succ_lt_succ hlevels) hplain
        (fun c hc hcm => by
          have hkept := hkept (e.name :: c) (by simp) ((prefix_cons_inj _).mpr hcm)
          rwa [append_assoc, singleton_append]) hhouse
        (by rw [hafter.get_eq_some hitem]; rfl)
      exact ⟨r, hr, hafter.get_eq_none hgone⟩

end VibeSsh.Backups
