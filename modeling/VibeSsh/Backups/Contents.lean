import VibeSsh.Backups.Limits

/-! # What the archive of a tree holds

Of a tree whose names have no backslash, an archive holds every entry outside VibeSSH's own, under
its path. -/

namespace VibeSsh.Backups

open Lib List Except

/-- VibeSSH's own entries at the top of a working directory, and what is below them. -/
def housekeeping (p : List Text) : Bool := p.head?.any isHousekeeping

variable {p q : List Text} {t : FileTree} {levels : Nat} {archive : Archive}

theorem housekeeping_of_below (hp : p ≠ []) (h : p <+: q) : housekeeping q = housekeeping p := by
  obtain ⟨x, rfl⟩ := h
  unfold housekeeping
  rw [List.head?_append_of_ne_nil _ hp]

/-- Every entry outside VibeSSH's own can be reached by its path. -/
def AllPlain (t : FileTree) : Prop :=
  ∀ p item, t.get p = some item → housekeeping p = false → Plain p

def zipOf (p : List Text) : Item → ZipEntry
  | .dir => ⟨pathText p ++ ['/'], []⟩
  | .file contents => ⟨pathText p, contents⟩

/-! ## Making the archive -/

/-- The archive has got everything at and below some paths, which is not too deep. -/
structure Covers (t : FileTree) (tops : List (List Text)) (levels : Nat) (before after : Archive) :
    Prop where
  entries : ∀ e, e ∈ after ↔ e ∈ before ∨
    ∃ p ∈ tops, ∃ q item, p <+: q ∧ t.get q = some item ∧ e = zipOf q item
  depth : ∀ p ∈ tops, ∀ q, p <+: q → (t.get q).isSome = true → q.length < p.length + levels

theorem Covers.refl (t : FileTree) (levels : Nat) (archive : Archive) :
    Covers t [] levels archive archive := ⟨by simp, by simp⟩

theorem Covers.trans {tops tops' : List (List Text)}
    {a b c : Archive} (h1 : Covers t tops levels a b) (h2 : Covers t tops' levels b c) :
    Covers t (tops ++ tops') levels a c := by
  refine ⟨fun e => ?_, fun p hp => ?_⟩
  · rw [h2.entries, h1.entries]
    simp only [mem_append, or_and_right, exists_or, or_assoc]
  · rcases mem_append.mp hp with hp | hp
    · exact h1.depth p hp
    · exact h2.depth p hp

/-- What is below a directory is in it, or below an entry of it. -/
theorem below_cases (h : p <+: q) (hsome : (t.get q).isSome = true) :
    q = p ∨ ∃ e ∈ Tree.listed t p, p ++ [e.name] <+: q := by
  obtain ⟨x, rfl⟩ := h
  cases x with
  | nil => exact .inl (append_nil p)
  | cons n x =>
    have hbelow : p ++ [n] <+: p ++ n :: x := ⟨x, by simp⟩
    obtain ⟨item, hitem⟩ := Option.isSome_iff_exists.mp (FileTree.isSome_of_above hbelow hsome)
    obtain ⟨e, he, rfl⟩ : ∃ e ∈ Tree.listed t p, e.name = n :=
      ⟨_, mem_map.mpr ⟨⟨(n, item), FileTree.mem_list.mpr hitem⟩, mem_attach _ _, rfl⟩, rfl⟩
    exact .inr ⟨e, he, hbelow⟩

/-- A path is covered by its own entry and what covers the entries listed there. -/
theorem Covers.step {item : Item} {archive' : Archive} (hget : t.get p = some item)
    (h : Covers t ((Tree.listed t p).map fun e => p ++ [e.name]) levels
      (archive ++ [zipOf p item]) archive') : Covers t [p] (levels + 1) archive archive' := by
  refine ⟨fun e => ?_, fun p' hp' q hq hsome => ?_⟩
  · rw [h.entries, mem_append, mem_singleton, or_assoc]
    refine or_congr_right ⟨?_, ?_⟩
    · rintro (rfl | ⟨_, htop, q, item, hq, hitem, rfl⟩)
      · exact ⟨p, mem_singleton_self p, p, item, prefix_rfl, hget, rfl⟩
      · obtain ⟨c, -, rfl⟩ := mem_map.mp htop
        exact ⟨p, mem_singleton_self p, q, item, (prefix_append ..).trans hq, hitem, rfl⟩
    · rintro ⟨p', hp', q, item, hq, hitem, rfl⟩
      obtain rfl := mem_singleton.mp hp'
      rcases below_cases hq (Option.isSome_iff_exists.mpr ⟨item, hitem⟩) with rfl | ⟨c, hc, hbelow⟩
      · obtain rfl := Option.some.inj (hget.symm.trans hitem)
        exact .inl rfl
      · exact .inr ⟨_, mem_map.mpr ⟨c, hc, rfl⟩, q, item, hbelow, hitem, rfl⟩
  · obtain rfl := mem_singleton.mp hp'
    rcases below_cases hq hsome with rfl | ⟨c, hc, hbelow⟩
    · omega
    · have hdepth := h.depth _ (mem_map.mpr ⟨c, hc, rfl⟩) q hbelow hsome
      rw [length_append, length_singleton] at hdepth
      omega

theorem listed_of_file {contents : List UInt8} (hget : t.get p = some (.file contents)) :
    Tree.listed t p = [] := by
  refine eq_nil_iff_forall_not_mem.mpr fun e he => ?_
  obtain ⟨item, hitem, -⟩ := mem_listed he
  cases hget.symm.trans (FileTree.get_of_append (by simp) hitem)

section

variable {zip : ZipWriter} {root : Text} {t : FileTree}

theorem covers_writeIntoZip (ht : AllPlain t) {levels : Nat} {p : List Text} (hp : p ≠ [])
    (hhouse : housekeeping p = false) {item : Item} (hget : t.get p = some item)
    {archive archive' : Archive}
    (h : writeIntoZip zip (treeProvider root) t levels (pathText p) (pathText p) archive =
      .ok archive') : Covers t [p] levels archive archive' := by
  induction levels generalizing p item archive archive' with
  | zero => cases h
  | succ levels ih =>
    have hplain := ht p item hget hhouse
    unfold writeIntoZip at h
    obtain ⟨stat, hstat, h⟩ := try_ok_iff.mp h
    obtain rfl : stat = ⟨item.isDir, false⟩ :=
      ok.inj (hstat.symm.trans (metadata_pathText hplain hget))
    cases item with
    | dir =>
      change (addDirectory zip archive (pathText p) >>= _) = _ at h
      obtain ⟨archive₁, hadd, h⟩ := try_ok_iff.mp h
      obtain ⟨entries, hlist, h⟩ := try_ok_iff.mp h
      obtain rfl := ok.inj ((listDirectory_pathText hplain hget).symm.trans hlist)
      obtain rfl : archive₁ = archive ++ [zipOf p .dir] := by
        unfold addDirectory at hadd
        split at hadd
        · cases hadd
        · exact (ok.inj hadd).symm
      refine .step hget (foldlM_invariant (fun done after => Covers t (done.map fun e => p ++ [e.name])
        levels (archive ++ [zipOf p .dir]) after) h (.refl t levels _) ?_)
      intro done e rest b b' hl hdone hstep
      obtain ⟨item, hitem, -, hlink⟩ := mem_listed (t := t) (d := p) (e := e) (by simp [hl])
      rw [map_append]
      refine hdone.trans (ih (by simp) ?_ hitem ?_)
      · rwa [housekeeping_of_below hp (prefix_append ..)]
      · rw [if_neg (by simp [hlink]), childPath_pathText hp hplain.names,
          ← pathText_concat hp] at hstep
        exact hstep
    | file contents =>
      change ((treeProvider root).readFile t (pathText p) >>= _) = _ at h
      obtain ⟨contents', hread, h⟩ := try_ok_iff.mp h
      obtain rfl := ok.inj ((readFile_pathText hplain hget).symm.trans hread)
      unfold addFile at h
      split at h
      · cases h
      · split at h
        · cases h
        · cases h
          exact .step hget (listed_of_file hget ▸ .refl t levels _)

theorem get_backupsDir (root : Text) (t : FileTree) {q : List Text} (hq : housekeeping q = false) :
    (((treeProvider root).createDirectory t backupsDir).toOption.getD t).get q = t.get q := by
  cases h : (treeProvider root).createDirectory t backupsDir with
  | error e => rfl
  | ok t' =>
    obtain ⟨p, hp, hput⟩ := try_ok_iff.mp h
    have hname : pathText [backupsDir] = backupsDir := by simp [pathText, Text.join]
    have hplain : Plain [backupsDir] := by
      unfold Plain
      rw [forall_mem_singleton]
      decide
    obtain rfl := resolve_ok hplain (hname ▸ hp)
    split at hput
    · next hfits =>
      cases hput
      refine (FileTree.get_put hfits.2 q).trans (if_neg ?_)
      rintro rfl
      cases hq
    · cases hput

/-- The loop that writes the archive, over a tree that may have got the directory for backups. -/
theorem backupArchive_loop {archive : Archive}
    (h : backupArchive zip (treeProvider root) t = .ok archive) :
    ∃ s : FileTree, (∀ q, housekeeping q = false → s.get q = t.get q) ∧
      ((Tree.listed t []).filter fun e => !isHousekeeping e.name).foldlM (fun archive e =>
        writeIntoZip zip (treeProvider root) s (maxArchiveDepth + 1) (pathText [e.name])
          (pathText [e.name]) archive) [] = .ok archive := by
  unfold backupArchive at h
  obtain ⟨entries, hlist, h⟩ := try_ok_iff.mp h
  obtain rfl := ok.inj (listDirectory_dot.symm.trans hlist)
  obtain ⟨archive₁, hloop, h⟩ := try_ok_iff.mp h
  obtain rfl : archive₁ = archive := by
    split at h
    · cases h
    · exact ok.inj h
  rw [foldlM_map] at hloop
  refine ⟨_, fun q hq => get_backupsDir root t hq, ?_⟩
  have hname : ∀ e : Listed, pathText [e.name] = e.name := fun e => by simp [pathText, Text.join]
  simpa only [hname, zipName_of_name (Listed.name_wf _)] using hloop

/-- The first name of a path is one of those archived. -/
theorem exists_top (hq : q ≠ []) (hhouse : housekeeping q = false)
    (hsome : (t.get q).isSome = true) :
    ∃ e ∈ (Tree.listed t []).filter fun e => !isHousekeeping e.name, [e.name] <+: q := by
  rcases below_cases (List.nil_prefix (l := q)) hsome with rfl | ⟨e, he, hbelow⟩
  · exact absurd rfl hq
  · rw [nil_append] at hbelow
    have hown : isHousekeeping e.name = false := by
      rw [housekeeping_of_below (by simp) hbelow] at hhouse
      simpa [housekeeping] using hhouse
    exact ⟨e, mem_filter.mpr ⟨he, by simp [hown]⟩, hbelow⟩

theorem get_of_top {s : FileTree} (hsame : ∀ q, housekeeping q = false → s.get q = t.get q)
    {e : Listed} (he : e ∈ (Tree.listed t []).filter fun e => !isHousekeeping e.name) :
    housekeeping [e.name] = false ∧ ∃ item, s.get [e.name] = some item := by
  obtain ⟨hlisted, hhouse⟩ := mem_filter.mp he
  obtain ⟨item, hitem, -⟩ := mem_listed hlisted
  have hhouse : housekeeping [e.name] = false := by simpa [housekeeping] using hhouse
  exact ⟨hhouse, item, (hsame _ hhouse).trans hitem⟩

/-- **What the archive of a tree holds**: the entries outside VibeSSH's own, none of them deeper than
65 names. -/
theorem mem_backupArchive (ht : AllPlain t) {archive : Archive}
    (h : backupArchive zip (treeProvider root) t = .ok archive) :
    (∀ e, e ∈ archive ↔ ∃ q item, q ≠ [] ∧ housekeeping q = false ∧ t.get q = some item ∧
      e = zipOf q item) ∧
    ∀ q, housekeeping q = false → (t.get q).isSome = true → q.length ≤ maxArchiveDepth + 1 := by
  obtain ⟨s, hsame, hloop⟩ := backupArchive_loop h
  have hsplain : AllPlain s := fun q item hitem hq => ht q item ((hsame q hq) ▸ hitem) hq
  have hcovers : Covers s (((Tree.listed t []).filter fun e => !isHousekeeping e.name).map
      fun e => [e.name]) (maxArchiveDepth + 1) [] archive := by
    refine foldlM_invariant (fun done after => Covers s (done.map fun e => [e.name])
      (maxArchiveDepth + 1) [] after) hloop (.refl s _ _) ?_
    intro done e rest b b' hl hdone hstep
    obtain ⟨hhouse, item, hitem⟩ := get_of_top hsame (show e ∈ _ by rw [hl]; simp)
    rw [map_append]
    exact hdone.trans (covers_writeIntoZip hsplain (by simp) hhouse hitem hstep)
  refine ⟨fun e => ?_, fun q hhouse hsome => ?_⟩
  · rw [hcovers.entries, or_iff_right (not_mem_nil)]
    constructor
    · rintro ⟨p, hp, q, item, hq, hitem, rfl⟩
      obtain ⟨e, he, rfl⟩ := mem_map.mp hp
      have hhouse : housekeeping q = false := by
        rw [housekeeping_of_below (by simp) hq]
        exact (get_of_top hsame he).1
      refine ⟨q, item, ?_, hhouse, (hsame q hhouse) ▸ hitem, rfl⟩
      rintro rfl
      simpa using hq.length_le
    · rintro ⟨q, item, hq, hhouse, hitem, rfl⟩
      obtain ⟨e, he, hbelow⟩ := exists_top (t := t) hq hhouse (by simp [hitem])
      exact ⟨_, mem_map.mpr ⟨e, he, rfl⟩, q, item, hbelow, (hsame q hhouse).trans hitem, rfl⟩
  · by_cases hq : q = []
    · simp [hq]
    · obtain ⟨e, he, hbelow⟩ := exists_top hq hhouse hsome
      have hdepth := hcovers.depth _ (mem_map.mpr ⟨e, he, rfl⟩) q hbelow
        ((hsame q hhouse).symm ▸ hsome)
      rw [length_singleton] at hdepth
      omega

/-! ## Names with a backslash -/

/-- The part of a tree at and below `p` has been archived: what can be reached is in the archive, and
a name with a backslash, in a directory that can be reached, is read as a path that leads somewhere. -/
structure Zipped (t : FileTree) (levels : Nat) (archive : Archive) (p : List Text) : Prop where
  plain : ∀ q item, p <+: q → Plain q → t.get q = some item → zipOf q item ∈ archive
  spelled : ∀ d n, p <+: d ++ [n] → Plain d → '\\' ∈ n → (t.get (d ++ [n])).isSome = true →
    d.length + 1 < p.length + levels ∧
      ∃ r, Sandbox.relativeSegments (pathText (d ++ [n])) = .ok r ∧ (t.get r).isSome = true

theorem Zipped.mono {archive archive' : Archive} (h : Zipped t levels archive p)
    (hsub : archive ⊆ archive') : Zipped t levels archive' p :=
  ⟨fun q item hq hplain hget => hsub (h.plain q item hq hplain hget), h.spelled⟩

theorem Zipped.step {item : Item} (hplain : Plain p) (hget : t.get p = some item)
    (hmem : zipOf p item ∈ archive)
    (h : ∀ e ∈ Tree.listed t p, Zipped t levels archive (p ++ [e.name])) :
    Zipped t (levels + 1) archive p := by
  refine ⟨fun q item' hq hplain' hitem => ?_, fun d n hd hplain' hn hsome => ?_⟩
  · rcases below_cases (t := t) hq (by simp [hitem]) with rfl | ⟨e, he, hbelow⟩
    · rwa [← Option.some.inj (hget.symm.trans hitem)]
    · exact (h e he).plain q item' hbelow hplain' hitem
  · rcases below_cases hd hsome with heq | ⟨e, he, hbelow⟩
    · exact absurd hn (hplain n (by simp [← heq])).2
    · obtain ⟨hdepth, hread⟩ := (h e he).spelled d n hbelow hplain' hn hsome
      rw [length_append, length_singleton] at hdepth
      exact ⟨by omega, hread⟩

theorem Added.subset {before after : Archive} {sizes : List (Option Nat)}
    (h : Added before after sizes) : before ⊆ after := by
  obtain ⟨added, rfl, -⟩ := h.entries
  exact subset_append_left ..

theorem zipped_writeIntoZip {levels : Nat} {p : List Text} (hp : p ≠ []) {item : Item}
    (hget : t.get p = some item) {archive archive' : Archive}
    (h : writeIntoZip zip (treeProvider root) t levels (pathText p) (pathText p) archive =
      .ok archive') : Zipped t levels archive' p := by
  induction levels generalizing p item archive archive' with
  | zero => cases h
  | succ levels ih =>
    have hnames := FileTree.names_of_get hget
    unfold writeIntoZip at h
    obtain ⟨stat, hstat, h⟩ := try_ok_iff.mp h
    by_cases hplain : Plain p
    · obtain rfl : stat = ⟨item.isDir, false⟩ :=
        ok.inj (hstat.symm.trans (metadata_pathText hplain hget))
      cases item with
      | dir =>
        change (addDirectory zip archive (pathText p) >>= _) = _ at h
        obtain ⟨archive₁, hadd, h⟩ := try_ok_iff.mp h
        obtain ⟨entries, hlist, h⟩ := try_ok_iff.mp h
        obtain rfl := ok.inj ((listDirectory_pathText hplain hget).symm.trans hlist)
        have hdone := foldlM_invariant (fun done after => zipOf p .dir ∈ after ∧
          ∀ e ∈ done, Zipped t levels after (p ++ [e.name])) h ⟨?_, by simp⟩ ?_
        · exact .step hplain hget hdone.1 hdone.2
        · unfold addDirectory at hadd
          split at hadd
          · cases hadd
          · cases hadd
            exact mem_append_right _ (mem_singleton_self _)
        · intro done e rest b b' hl hdone hstep
          obtain ⟨item, hitem, -, hlink⟩ := mem_listed (t := t) (d := p) (e := e) (by simp [hl])
          rw [if_neg (by simp [hlink]), childPath_pathText hp hnames, ← pathText_concat hp] at hstep
          have hsub := (added_writeIntoZip (by simp) (FileTree.names_of_get hitem) hstep).subset
          refine ⟨hsub hdone.1, fun e' he' => ?_⟩
          rcases mem_append.mp he' with he' | he'
          · exact (hdone.2 e' he').mono hsub
          · obtain rfl := mem_singleton.mp he'
            exact ih (by simp) hitem hstep
      | file contents =>
        change ((treeProvider root).readFile t (pathText p) >>= _) = _ at h
        obtain ⟨contents', hread, h⟩ := try_ok_iff.mp h
        obtain rfl := ok.inj ((readFile_pathText hplain hget).symm.trans hread)
        unfold addFile at h
        split at h
        · cases h
        · split at h
          · cases h
          · cases h
            exact .step hplain hget (mem_append_right _ (mem_singleton_self _))
              (by simp [listed_of_file hget])
    · refine ⟨fun q _ hq hq' _ => absurd (hq'.of_above hq) hplain, fun d n hd hd' _ _ => ?_⟩
      -- the name with the backslash is the last one, and the script asks what it leads to
      rcases prefix_concat_iff.mp hd with rfl | hd
      · refine ⟨by simp, ?_⟩
        obtain ⟨r, hr, hstat⟩ := try_ok_iff.mp hstat
        obtain ⟨segments, hsegments, hr⟩ := try_ok_iff.mp hr
        split at hr
        · cases hr
          split at hstat
          · next item hitem => exact ⟨r, hsegments, by simp [hitem]⟩
          · cases hstat
        · cases hr
      · exact absurd (hd'.of_above hd) hplain

theorem zipped_backupArchive {archive : Archive}
    (h : backupArchive zip (treeProvider root) t = .ok archive) :
    ∃ s : FileTree, (∀ q, housekeeping q = false → s.get q = t.get q) ∧
      ∀ q, q ≠ [] → housekeeping q = false → (t.get q).isSome = true →
        ∃ p, p <+: q ∧ p.length = 1 ∧ Zipped s (maxArchiveDepth + 1) archive p := by
  obtain ⟨s, hsame, hloop⟩ := backupArchive_loop h
  refine ⟨s, hsame, fun q hq hhouse hsome => ?_⟩
  obtain ⟨e, he, hbelow⟩ := exists_top hq hhouse hsome
  refine ⟨[e.name], hbelow, rfl, foldlM_invariant (fun done after => ∀ e ∈ done,
    Zipped s (maxArchiveDepth + 1) after [e.name]) hloop (by simp) ?_ e he⟩
  intro done e rest b b' hl hdone hstep e' he'
  obtain ⟨-, item, hitem⟩ := get_of_top hsame (show e ∈ _ by rw [hl]; simp)
  rcases mem_append.mp he' with he' | he'
  · exact (hdone e' he').mono (added_writeIntoZip (by simp) (FileTree.names_of_get hitem) hstep).subset
  · obtain rfl := mem_singleton.mp he'
    exact zipped_writeIntoZip (by simp) hitem hstep

end

/-! ## The paths of an archive -/

theorem parentText_pathText {d : List Text} {n : Text} (h : ∀ m ∈ d ++ [n], IsEntryName m) :
    (parentText (pathText (d ++ [n]))).getD [] = pathText d := by
  unfold parentText
  dsimp only
  rw [splitOn_pathText h (by simp), dropLast_concat]
  cases d with
  | nil => rfl
  | cons m d => simp [pathText]

theorem length_pathText_concat {d : List Text} {n : Text} (hn : n ≠ []) :
    (pathText d).length < (pathText (d ++ [n])).length := by
  have hpos := length_pos_iff.mpr hn
  by_cases hd : d = []
  · subst hd
    simpa [pathText, Text.join] using hpos
  · rw [pathText_concat hd]
    simp

/-- The loop goes up through every directory above. -/
theorem mem_withParents (hq : ∀ n ∈ q, IsEntryName n) {fuel : Nat}
    (hfuel : (pathText q).length ≤ fuel) {x : Text} :
    x ∈ withParents fuel (pathText q) ↔ ∃ r, r ≠ [] ∧ r <+: q ∧ x = pathText r := by
  induction q using List.reverseRecOn generalizing fuel with
  | nil =>
    have hnone : withParents fuel (pathText []) = [] := by cases fuel <;> rfl
    rw [hnone]
    simp
  | append_singleton d n ih =>
    have hn : n ≠ [] := (hq n (by simp)).1.1
    have hlt := length_pathText_concat (d := d) hn
    obtain ⟨fuel, rfl⟩ : ∃ k, fuel = k + 1 := ⟨fuel - 1, by omega⟩
    have hne : (pathText (d ++ [n])).isEmpty = false := by
      simpa using pathText_ne_nil hq (by simp)
    rw [withParents, if_neg (by simp [hne]), parentText_pathText hq, mem_cons,
      ih (fun m hm => hq m (mem_append_left _ hm)) (by omega)]
    constructor
    · rintro (rfl | ⟨r, hr, hrd, rfl⟩)
      · exact ⟨d ++ [n], by simp, prefix_rfl, rfl⟩
      · exact ⟨r, hr, hrd.trans (prefix_append ..), rfl⟩
    · rintro ⟨r, hr, hrd, rfl⟩
      rcases prefix_concat_iff.mp hrd with rfl | hrd
      · exact .inl rfl
      · exact .inr ⟨r, hr, hrd, rfl⟩

theorem zipOf_name (hq : q ≠ []) (h : Plain q) (item : Item) :
    enclosedName (zipOf q item).name = some (zipOf q item).name ∧
      Text.trimEndMatches '/' (slashes (zipOf q item).name) = pathText q := by
  cases item with
  | dir =>
    refine ⟨enclosedName_of_splitOn hq h.names (.inr rfl), ?_⟩
    have hslashes : slashes (pathText q ++ ['/']) = pathText q ++ ['/'] := by
      rw [slashes, map_append, ← slashes, slashes_pathText h]
      rfl
    show Text.trimEndMatches '/' (slashes (pathText q ++ ['/'])) = _
    rw [hslashes, Text.trimEndMatches, rdropWhile_concat_pos _ _ _ (by decide)]
    exact trimEndMatches_pathText h.names
  | file contents =>
    refine ⟨enclosedName_of_splitOn hq h.names (.inl rfl), ?_⟩
    show Text.trimEndMatches '/' (slashes (pathText q)) = _
    rw [slashes_pathText h, trimEndMatches_pathText h.names]

theorem pathText_mem_entryPaths {item : Item} (hq : q ≠ []) (hplain : Plain q)
    (h : zipOf q item ∈ archive) : pathText q ∈ entryPaths archive := by
  obtain ⟨hname, htrim⟩ := zipOf_name hq hplain item
  refine mem_flatMap.mpr ⟨zipOf q item, h, ?_⟩
  rw [hname]
  dsimp only
  rw [htrim, mem_withParents hplain.names le_rfl]
  exact ⟨q, hq, prefix_rfl, rfl⟩

/-- The archive is said to hold exactly the paths of the tree. -/
theorem mem_entryPaths (ht : AllPlain t)
    (harchive : ∀ e, e ∈ archive ↔ ∃ q item, q ≠ [] ∧ housekeeping q = false ∧
      t.get q = some item ∧ e = zipOf q item) (hq : q ≠ [])
    (hhouse : housekeeping q = false) (hnames : ∀ n ∈ q, IsEntryName n) :
    pathText q ∈ entryPaths archive ↔ (t.get q).isSome = true := by
  constructor
  · intro hmem
    obtain ⟨e, he, hmem⟩ := mem_flatMap.mp hmem
    obtain ⟨q', item, hq', hhouse', hitem, rfl⟩ := (harchive e).mp he
    have hplain := ht q' item hitem hhouse'
    obtain ⟨hname, htrim⟩ := zipOf_name hq' hplain item
    rw [hname] at hmem
    dsimp only at hmem
    rw [htrim, mem_withParents hplain.names le_rfl] at hmem
    obtain ⟨r, -, hr, heq⟩ := hmem
    obtain rfl := pathText_inj hnames (hplain.of_above hr).names heq
    exact FileTree.isSome_of_above hr (by simp [hitem])
  · intro hsome
    obtain ⟨item, hitem⟩ := Option.isSome_iff_exists.mp hsome
    exact pathText_mem_entryPaths hq (ht q item hitem hhouse)
      ((harchive _).mpr ⟨q, item, hq, hhouse, hitem, rfl⟩)

end VibeSsh.Backups
