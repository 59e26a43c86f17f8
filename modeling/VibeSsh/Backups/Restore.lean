import VibeSsh.Backups.Spelled

/-! # Restoring a backup

A restore writes the archive over what is there and then removes what the archive does not have. -/

namespace VibeSsh.Backups

open Lib List Option

variable {root : Text} {t t' : FileTree} {archive : Archive}

/-! ## Writing the archive over a tree -/

/-- No file has taken the place of a directory, nor a directory that of a file. -/
def NoClash (t t' : FileTree) : Prop :=
  ∀ q, housekeeping q = false → ∀ item item', t.get q = some item → t'.get q = some item' →
    item.isDir = item'.isDir

/-- An archive of the tree: what `mem_backupArchive` says of it. -/
structure ArchiveOf (t : FileTree) (archive : Archive) : Prop where
  plain : AllPlain t
  entries : ∀ e, e ∈ archive ↔ ∃ q item, q ≠ [] ∧ housekeeping q = false ∧ t.get q = some item ∧
    e = zipOf q item
  depth : ∀ q, housekeeping q = false → (t.get q).isSome = true → q.length ≤ maxArchiveDepth + 1

/-- Some entries of the archive have been written over `t'`. -/
structure Written (t t' : FileTree) (done : Archive) (x : Extraction FileTree) : Prop where
  known : Known x.known x.state
  either : ∀ q, x.state.get q = t'.get q ∨
    housekeeping q = false ∧ (t.get q).isSome = true ∧ x.state.get q = t.get q
  written : ∀ q item, q ≠ [] → housekeeping q = false → t.get q = some item →
    zipOf q item ∈ done → x.state.get q = t.get q
  stays : ∀ q old, t'.get q = some old → ∃ new, x.state.get q = some new ∧ new.isDir = old.isDir

variable {q c : List Text} {item : Item} {s s' : FileTree} {depth : Nat} {part : List Text → Prop}

variable {r : List Text}

theorem zipOf_inj (hq : q ≠ []) (hr : r ≠ []) (hplain : Plain q) (hplain' : Plain r)
    {item' : Item} (h : zipOf q item = zipOf r item') : q = r := by
  have hpath := (zipOf_name hq hplain item).2
  rw [h, (zipOf_name hr hplain' item').2] at hpath
  exact (pathText_inj hplain'.names hplain.names hpath).symm

theorem written_start (t t' : FileTree) : Written t t' [] ⟨0, 0, [], t'⟩ :=
  ⟨by simp [Known], fun _ => .inl rfl, by simp, fun _ old hold => ⟨old, hold, rfl⟩⟩

/-- One more entry: its place and those above it are as in the archived tree. -/
theorem Written.step {done : Archive} {x y : Extraction FileTree}
    (h : Written t t' done x) (ht : AllPlain t) (hq : q ≠ []) (hhouse : housekeeping q = false)
    (hitem : t.get q = some item)
    (hstep : extractEntry (treeProvider root) "." x (zipOf q item) = .ok y) :
    Written t t' (done ++ [zipOf q item]) y := by
  have hplain := ht q item hitem hhouse
  obtain ⟨hknown, hputs⟩ := puts_extractEntry hq hplain h.known hstep
  have hcases : ∀ r, y.state.get r = x.state.get r ∨
      housekeeping r = false ∧ (t.get r).isSome = true ∧ y.state.get r = t.get r := by
    intro r
    by_cases hr : r <+: q
    · refine .inr ⟨housekeeping_above hr hhouse, ?_⟩
      by_cases hne : r = q
      · subst hne
        exact ⟨by simp [hitem], hputs.here.trans hitem.symm⟩
      · have hdir := FileTree.get_of_above hr hne hitem
        exact ⟨by simp [hdir], (hputs.get_above hr hne).trans hdir.symm⟩
    · exact .inl (hputs.frame r hr)
  refine ⟨hknown, fun r => ?_, fun r old hr hhouse' hold hmem => ?_, fun r old hold => ?_⟩
  · rcases hcases r with hsame | hnew
    · rw [hsame]
      exact h.either r
    · exact .inr hnew
  · rcases mem_append.mp hmem with hmem | hmem
    · rcases hcases r with hsame | ⟨-, -, hnew⟩
      · exact hsame.trans (h.written r old hr hhouse' hold hmem)
      · exact hnew
    · obtain rfl := zipOf_inj hr hq (ht r old hold hhouse') hplain (mem_singleton.mp hmem)
      exact hputs.here.trans hitem.symm
  · obtain ⟨mid, hmid, hkind⟩ := h.stays r old hold
    obtain ⟨new, hnew, hkind'⟩ := hputs.stays hmid
    exact ⟨new, hnew, hkind'.trans hkind⟩

/-- The archived tree laid over another one. -/
def Overlaid (t t' s : FileTree) : Prop :=
  ∀ q, s.get q = if housekeeping q = true then t'.get q else (t.get q).or (t'.get q)

/-- **An archive that was extracted lies over what was there**, and nothing was of another kind. -/
theorem overlaid_of_extract (h : ArchiveOf t archive) {n : Nat}
    (hextract : extractZipFrom (treeProvider root) archive "." t' = .ok (n, s)) :
    Overlaid t t' s ∧ NoClash t t' := by
  unfold extractZipFrom at hextract
  split_ifs at hextract
  obtain ⟨x, hloop, heq⟩ := try_ok_iff.mp hextract
  cases heq
  have hdone : Written t t' archive x := foldlM_invariant (Written t t') hloop (written_start t t') <| by
    intro done entry rest x y hl hdone hstep
    obtain ⟨q, item, hq, hhouse, hitem, rfl⟩ := (h.entries entry).mp (by simp [hl])
    exact hdone.step h.plain hq hhouse hitem hstep
  have hhere : ∀ q item, housekeeping q = false → t.get q = some item → x.state.get q = some item := by
    intro q item hhouse hitem
    by_cases hq : q = []
    · subst hq
      rwa [FileTree.get_nil] at hitem ⊢
    · rw [hdone.written q item hq hhouse hitem ((h.entries _).mpr ⟨q, item, hq, hhouse, hitem, rfl⟩),
        hitem]
  refine ⟨fun q => ?_, fun q hhouse item item' hitem hitem' => ?_⟩
  · split
    · next hhouse =>
      rcases hdone.either q with hsame | ⟨hhouse', -⟩
      · exact hsame
      · rw [hhouse] at hhouse'
        cases hhouse'
    · next hhouse =>
      cases hitem : t.get q with
      | some item => exact hhere q item (Bool.eq_false_of_not_eq_true hhouse) hitem
      | none =>
        rcases hdone.either q with hsame | ⟨-, hsome, -⟩
        · exact hsame
        · rw [hitem] at hsome
          cases hsome
  · obtain ⟨new, hnew, hkind⟩ := hdone.stays q item' hitem'
    rw [hhere q item hhouse hitem] at hnew
    cases hnew
    exact hkind

/-- Within the limits and with nothing of another kind in the way, it can be extracted. -/
theorem extract_returns (root : Text) (h : ArchiveOf t archive) (hclash : NoClash t t')
    (hlimits : WithinLimits (archive.map (·.declared))) :
    ∃ r, extractZipFrom (treeProvider root) archive "." t' = .ok r := by
  unfold extractZipFrom
  rw [if_neg (by simpa using hlimits.entries)]
  obtain ⟨x, hloop, -⟩ := foldlM_returns (f := extractEntry (treeProvider root) ".")
    (fun done x => Written t t' done x ∧ x.totalBytes = (done.map (·.declared)).reduceOption.sum)
    (b := ⟨0, 0, [], t'⟩) (l := archive) ⟨written_start t t', rfl⟩ <| by
      rintro done entry rest x hl ⟨hdone, hsum⟩
      obtain ⟨q, item, hq, hhouse, hitem, rfl⟩ := (h.entries entry).mp (by simp [hl])
      have hplain := h.plain q item hitem hhouse
      obtain ⟨heach, htotal⟩ := hlimits.room hl
      rw [← hsum] at htotal
      -- what is there is what was there or what was archived, and both are of the archived kind
      have hkind : ∀ r item, housekeeping r = false → t.get r = some item → ∀ old,
          x.state.get r = some old → old.isDir = item.isDir := by
        intro r item hr hitem old hold
        rcases hdone.either r with hsame | ⟨-, -, hsame⟩
        · exact (hclash r hr item old hitem (hsame.symm.trans hold)).symm
        · rw [hsame, hitem] at hold
          cases hold
          rfl
      have habove : ∀ r, r <+: q → r ≠ q → ∀ old, x.state.get r = some old → old = .dir := by
        intro r hr hne old hold
        exact Item.eq_dir (hkind r .dir (housekeeping_above hr hhouse)
          (FileTree.get_of_above hr hne hitem) old hold)
      obtain ⟨y, hstep⟩ := extractEntry_returns root hq hplain hdone.known habove
        (hkind q item hhouse hitem) heach htotal
      obtain ⟨-, hbytes, -⟩ := extractEntry_ok (zipOf_name hq hplain item).1 hstep
      refine ⟨y, hstep, hdone.step h.plain hq hhouse hitem hstep, ?_⟩
      rw [hbytes, hsum, sizes_concat, sum_append, sum_toList]
  exact ⟨_, by rw [hloop]; rfl⟩

/-! ## Removing what the archive does not have -/

/-- What the archived tree does not have, as far as a removal looks that goes `depth` names deep. -/
def extra (t : FileTree) (depth : Nat) (q : List Text) : Bool :=
  !housekeeping q && (t.get (q.take depth)).isNone

/-- Of the paths in some part of the tree, those that are extra are gone; all others are as before. -/
structure Pruned (t : FileTree) (depth : Nat) (part : List Text → Prop) (s s' : FileTree) : Prop where
  gone : ∀ q, part q → extra t depth q = true → s'.get q = none
  kept : ∀ q, (part q → extra t depth q = false) → s'.get q = s.get q

theorem Pruned.sub (h : Pruned t depth part s s') (hget : s'.get q = some item) :
    s.get q = some item := by
  by_cases hq : part q ∧ extra t depth q = true
  · rw [h.gone q hq.1 hq.2] at hget
    cases hget
  · rw [← h.kept q fun hpart => Bool.eq_false_of_not_eq_true fun hextra => hq ⟨hpart, hextra⟩, hget]

variable {part' : List Text → Prop}

theorem Pruned.trans {s₁ s₂ : FileTree}
    (h1 : Pruned t depth part s s₁) (h2 : Pruned t depth part' s₁ s₂) :
    Pruned t depth (fun q => part q ∨ part' q) s s₂ := by
  refine ⟨fun q hq hextra => ?_, fun q hq => ?_⟩
  · cases hget : s₂.get q with
    | none => rfl
    | some item =>
      rcases hq with hq | hq
      · have hmid := h2.sub hget
        rw [h1.gone q hq hextra] at hmid
        cases hmid
      · rw [h2.gone q hq hextra] at hget
        cases hget
  · rw [h2.kept q fun hpart => hq (.inr hpart), h1.kept q fun hpart => hq (.inl hpart)]

theorem Pruned.congr (h : Pruned t depth part s s') (hpart : ∀ q, part q ↔ part' q) :
    Pruned t depth part' s s' :=
  ⟨fun q hq => h.gone q ((hpart q).mpr hq), fun q hq => h.kept q fun hp => hq ((hpart q).mp hp)⟩

theorem extra_of_above (hc : c ≠ []) (hdepth : c.length ≤ depth)
    (hhouse : housekeeping c = false) (hget : t.get c = none) (h : c <+: q) :
    extra t depth q = true := by
  have hnone : t.get (q.take depth) = none := by
    by_contra hsome
    have habove := FileTree.isSome_of_above (prefix_take_iff.mpr ⟨h, hdepth⟩)
      (isSome_iff_ne_none.mpr hsome)
    rw [hget] at habove
    cases habove
  simp [extra, housekeeping_of_below hc h, hhouse, hnone]

/-- Nothing to remove at or below an entry of VibeSSH's own. -/
theorem pruned_housekeeping (hc : c ≠ [])
    (hhouse : housekeeping c = true) (s : FileTree) : Pruned t depth (c <+: ·) s s := by
  refine ⟨fun q hq hextra => ?_, fun _ _ => rfl⟩
  simp [extra, housekeeping_of_below hc hq, hhouse] at hextra

/-- A directory the archive has is left as it is, whatever happens below it. -/
theorem Pruned.dir (hdepth : c.length ≤ depth)
    (hkept : (t.get c).isSome = true) (h : Pruned t depth (fun q => c <+: q ∧ q ≠ c) s s') :
    Pruned t depth (c <+: ·) s s' := by
  refine ⟨fun q hq hextra => h.gone q ⟨hq, fun heq => ?_⟩ hextra, fun q hq => h.kept q (hq ·.1)⟩
  rw [heq, extra, take_of_length_le hdepth] at hextra
  simp [isNone_iff_eq_none.not.mpr (isSome_iff_ne_none.mp hkept)] at hextra

theorem pruned_file {contents : List UInt8}
    (hdepth : c.length ≤ depth) (hkept : (t.get c).isSome = true)
    (hget : s.get c = some (.file contents)) : Pruned t depth (c <+: ·) s s :=
  .dir hdepth hkept ⟨fun _ hq _ => FileTree.get_below_eq_none hq.1 hq.2.symm (by simp [hget]),
    fun _ _ => rfl⟩

/-- An entry the archive does not have goes with everything below it. -/
theorem pruned_remove (hc : c ≠ []) (hdepth : c.length ≤ depth)
    (hhouse : housekeeping c = false) (hget : t.get c = none) (s : FileTree) :
    Pruned t depth (c <+: ·) s (s.remove c) := by
  refine ⟨fun q hq _ => ?_, fun q hq => ?_⟩
  · rw [FileTree.get_remove hc, if_pos hq]
  · have hnot : ¬ c <+: q := fun hle => by
      have hextra := extra_of_above hc hdepth hhouse hget hle
      rw [hq hle] at hextra
      cases hextra
    rw [FileTree.get_remove hc, if_neg hnot]

/-- No name with a backslash is left in a directory the archive has. -/
def Reached (t s : FileTree) : Prop :=
  ∀ d n, housekeeping (d ++ [n]) = false → (t.get d).isSome = true →
    (s.get (d ++ [n])).isSome = true → '\\' ∉ n

variable {d : List Text}

/-- **The removal leaves nothing extra below a directory**, as deep as it looks. -/
theorem pruned_removeEntriesNotIn (root : Text) (h : ArchiveOf t archive) {levels : Nat}
    (count : Nat) {path : Text} (hs : Reached t s)
    (hlist : (treeProvider root).listDirectory s path = .ok (Tree.listed s d))
    (hhouse : housekeeping d = false) (hd : (t.get d).isSome = true) :
    ∃ x, removeEntriesNotIn (treeProvider root) (entryPaths archive) levels path (pathText d)
        (s, count) = .ok x ∧ Pruned t (d.length + levels) (fun q => d <+: q ∧ q ≠ d) s x.1 := by
  induction levels generalizing d path s count with
  | zero =>
    refine ⟨_, rfl, fun q hq hextra => ?_, fun _ _ => rfl⟩
    rw [extra, Nat.add_zero, ← prefix_iff_eq_take.mp hq.1] at hextra
    simp [isNone_iff_eq_none.not.mpr (isSome_iff_ne_none.mp hd)] at hextra
  | succ levels ih =>
    obtain ⟨found, hfound⟩ := isSome_iff_exists.mp hd
    have hnames := FileTree.names_of_get hfound
    unfold removeEntriesNotIn
    dsimp only
    rw [hlist]
    obtain ⟨x, hloop, hx⟩ := foldlM_returns (fun done (x : FileTree × Nat) =>
      Pruned t (d.length + (levels + 1)) (fun q => ∃ e ∈ done, d ++ [e.name] <+: q) s x.1)
      (b := (s, count)) (l := Tree.listed s d) ⟨by simp, fun _ _ => rfl⟩ <| by
        intro done e rest x hl hdone
        suffices hstep : ∃ x', (if e.isSymlink || ((pathText d).isEmpty && isHousekeeping e.name) then
              .ok x
            else
              if underPath (pathText d) e.name ∉ entryPaths archive then do
                let s ← (treeProvider root).delete x.1 (underPath (pathText d) e.name)
                .ok (s, x.2 + 1)
              else if e.isDir then
                removeEntriesNotIn (treeProvider root) (entryPaths archive) levels
                  (underPath (pathText d) e.name) (underPath (pathText d) e.name) x
              else .ok x : AppResult (FileTree × Nat)) = .ok x' ∧
            Pruned t (d.length + (levels + 1)) (d ++ [e.name] <+: ·) x.1 x'.1 by
          obtain ⟨x', hx', hpruned⟩ := hstep
          refine ⟨x', hx', (hdone.trans hpruned).congr fun q => ?_⟩
          simp [or_and_right, exists_or]
        have hc : d ++ [e.name] ≠ [] := by simp
        have hdepth : (d ++ [e.name]).length ≤ d.length + (levels + 1) := by simp
        obtain ⟨item, hitem, hisDir, hlink⟩ := mem_listed (show e ∈ Tree.listed s d by simp [hl])
        have hthere : x.1.get (d ++ [e.name]) = some item := by
          rw [hdone.kept _ ?_, hitem]
          rintro ⟨e', he', hle⟩
          have heq : e'.name = e.name := by simpa using hle.eq_of_length (by simp)
          have hnodup := nodup_listed s d
          rw [hl, map_append, map_cons] at hnodup
          exact absurd heq ((nodup_append.mp hnodup).2.2 _ (mem_map_of_mem he') _ (by simp))
        rw [hlink, Bool.false_or, isHousekeeping_child hnames hhouse, underPath_pathText hnames]
        by_cases hhouse' : housekeeping (d ++ [e.name]) = true
        · exact ⟨x, if_pos hhouse', pruned_housekeeping hc hhouse' x.1⟩
        rw [if_neg hhouse']
        replace hhouse' := Bool.eq_false_of_not_eq_true hhouse'
        have hplain : Plain (d ++ [e.name]) := Plain.concat.mpr
          ⟨h.plain d found hfound hhouse, e.name_wf, hs d _ hhouse' hd (by rw [hitem]; rfl)⟩
        have hkeep := mem_entryPaths h.plain h.entries hc hhouse' hplain.names
        by_cases hkept : pathText (d ++ [e.name]) ∈ entryPaths archive
        · rw [if_neg (not_not.mpr hkept)]
          have hsome := hkeep.mp hkept
          cases item with
          | dir =>
            have hs' : Reached t x.1 := fun d n hhouse hd hsome => by
              obtain ⟨item, hitem⟩ := isSome_iff_exists.mp hsome
              exact hs d n hhouse hd (by rw [hdone.sub hitem]; rfl)
            obtain ⟨x', hx', hpruned⟩ := ih x.2 hs'
              (listDirectory_pathText hplain hthere) hhouse' hsome
            rw [length_append, length_singleton, Nat.add_assoc, Nat.add_comm 1] at hpruned
            exact ⟨x', (if_pos hisDir).trans hx', hpruned.dir hdepth hsome⟩
          | file contents =>
            exact ⟨x, if_neg (by simp [hisDir, Item.isDir]), pruned_file hdepth hsome hthere⟩
        · rw [if_pos hkept]
          have hnone : t.get (d ++ [e.name]) = none := by simpa using fun hsome => hkept (hkeep.mpr hsome)
          have hdelete : (treeProvider root).delete x.1 (pathText (d ++ [e.name])) =
            .ok (x.1.remove (d ++ [e.name])) := delete_pathText hplain hc (by simp [hthere])
          exact ⟨_, by rw [hdelete]; rfl, pruned_remove hc hdepth hhouse' hnone x.1⟩
    refine ⟨x, hloop, fun q hq hextra => ?_, fun q hq => hx.kept q ?_⟩
    · cases hget : x.1.get q with
      | none => rfl
      | some item =>
        rcases below_cases hq.1 (by rw [hx.sub hget]; rfl) with heq | ⟨e, he, hle⟩
        · exact absurd heq hq.2
        · exact hget.symm.trans (hx.gone q ⟨e, he, hle⟩ hextra)
    · rintro ⟨e, -, hle⟩
      refine hq ⟨(prefix_append ..).trans hle, fun heq => ?_⟩
      rw [heq] at hle
      simpa using hle.length_le

/-! ## The whole restore -/

/-- Nothing is below the deepest directories an archive can have, where the removal does not look. -/
def NothingBelow (t t' : FileTree) : Prop :=
  ∀ d, housekeeping d = false → t.get d = some .dir → d.length = maxArchiveDepth + 1 →
    ∀ x, x ≠ [] → t'.get (d ++ x) = none

/-- No name in a directory of the archived tree has a backslash, then or now. -/
def PlainNames (t t' : FileTree) : Prop :=
  ∀ d n, housekeeping (d ++ [n]) = false → t.get d = some .dir →
    (t.get (d ++ [n])).isSome = true ∨ (t'.get (d ++ [n])).isSome = true → '\\' ∉ n

/-- No path outside VibeSSH's own entries is taken for one of them. -/
def NoDisguise (t : FileTree) : Prop :=
  ∀ q r, housekeeping q = false → (t.get q).isSome = true →
    Sandbox.relativeSegments (pathText q) = .ok r → housekeeping r = false

theorem PlainNames.allPlain (h : PlainNames t t') : AllPlain t := by
  by_contra hplain
  obtain ⟨d, n, hhouse, -, hn, hsome⟩ := exists_backslash_of_not_allPlain hplain
  obtain ⟨item, hitem⟩ := isSome_iff_exists.mp hsome
  exact h d n hhouse (FileTree.get_of_append (by simp) hitem) (.inl hsome) hn

theorem PlainNames.reached (h : PlainNames t t') (hover : Overlaid t t' s) : Reached t s := by
  intro d n hhouse hd hsome
  obtain ⟨item, hitem⟩ := isSome_iff_exists.mp hsome
  have hget : ∀ q, housekeeping q = false → s.get q = (t.get q).or (t'.get q) := fun q hq => by
    rw [hover q, if_neg (by simp [hq])]
  have hdir : t.get d = some .dir := by
    obtain ⟨found, hfound⟩ := isSome_iff_exists.mp hd
    have hparent := FileTree.get_of_append (by simp) hitem
    rw [hget d (housekeeping_above (prefix_append ..) hhouse), hfound, some_or] at hparent
    rw [hfound, hparent]
  rw [hget _ hhouse] at hsome
  exact h d n hhouse hdir (by simpa using hsome)

theorem restoreFrom_shrunk {n : Nat} (h : restoreFrom (treeProvider root) archive t' = .ok (n, s')) :
    ∃ s count, extractZipFrom (treeProvider root) archive "." t' = .ok (n, s) ∧
      removeEntriesNotIn (treeProvider root) (entryPaths archive) (maxArchiveDepth + 1) "." []
        (s, 0) = .ok (s', count) := by
  obtain ⟨⟨m, s⟩, hextract, h⟩ := try_ok_iff.mp h
  dsimp only at h
  split at h
  · cases h
  · next s'' count hremove =>
    cases h
    exact ⟨s, count, hextract, hremove⟩

theorem restoreFrom_ok (h : ArchiveOf t archive) (hnames : PlainNames t t') {n : Nat}
    (hextract : extractZipFrom (treeProvider root) archive "." t' = .ok (n, s)) :
    ∃ s', restoreFrom (treeProvider root) archive t' = .ok (n, s') ∧
      Pruned t (maxArchiveDepth + 1) (· ≠ []) s s' := by
  obtain ⟨hover, -⟩ := overlaid_of_extract h hextract
  have hremoved : ∃ x, removeEntriesNotIn (treeProvider root) (entryPaths archive)
      (maxArchiveDepth + 1) "." [] (s, 0) = .ok x ∧
      Pruned t (0 + (maxArchiveDepth + 1)) (fun q => [] <+: q ∧ q ≠ []) s x.1 :=
    pruned_removeEntriesNotIn root h 0 (hnames.reached hover) listDirectory_dot rfl rfl
  obtain ⟨⟨s', m⟩, hremove, hpruned⟩ := hremoved
  refine ⟨s', try_ok_iff.mpr ⟨(n, s), hextract, ?_⟩, ?_⟩
  · dsimp only
    rw [hremove]
  · rw [Nat.zero_add] at hpruned
    exact hpruned.congr fun q => by simp

section

variable {zip : ZipWriter} {n : Nat}
  (hrestore : restoreFrom (treeProvider root) archive t' = .ok (n, s'))
  (hall : ∀ q, housekeeping q = false → s'.get q = t.get q)

include hrestore hall

/-- A name with a backslash in the archived tree is taken for another entry of it, which the removal
deletes. -/
theorem allPlain_of_restored (h : backupArchive zip (treeProvider root) t = .ok archive)
    (hdisguise : NoDisguise t) : AllPlain t := by
  by_contra hplain
  obtain ⟨d, n, hhouse, hd, hn, hsome⟩ := exists_backslash_of_not_allPlain hplain
  obtain ⟨s₀, hsame, hzipped⟩ := zipped_backupArchive h
  obtain ⟨p, hp, hone, hz⟩ := hzipped (d ++ [n]) (by simp) hhouse hsome
  obtain ⟨hdepth, r, hr, hthere⟩ := hz.spelled d n hp hd hn (by rwa [hsame _ hhouse])
  have hr' : housekeeping r = false := hdisguise _ r hhouse hsome hr
  rw [hsame r hr', ← hall r hr'] at hthere
  obtain ⟨s, count, -, hremove⟩ := restoreFrom_shrunk hrestore
  obtain ⟨item, hitem⟩ := isSome_iff_exists.mp hsome
  have hkept : ∀ c, c ≠ [] → c <+: d → pathText ([] ++ c) ∈ entryPaths archive := by
    intro c hc hcd
    have hbelow : c <+: d ++ [n] := hcd.trans (prefix_append ..)
    have hdir : t.get c = some .dir :=
      FileTree.get_of_above hbelow (fun heq => by simpa [heq] using hcd.length_le) hitem
    have hhouse' := housekeeping_above hbelow hhouse
    obtain ⟨p, hp, -, hz⟩ := hzipped c hc hhouse' (by rw [hdir]; rfl)
    exact pathText_mem_entryPaths hc (hd.of_above hcd)
      (hz.plain c .dir hp (hd.of_above hcd) ((hsame c hhouse').trans hdir))
  obtain ⟨r', hr'', hgone⟩ := spelled_gone (d := []) (m := d) (n := n)
    (fun k hk => backslash_not_mem_entryPaths hk) hremove listDirectory_dot (by omega) hd hkept hn
    hhouse (by rwa [nil_append, hall _ hhouse])
  rw [nil_append, hr] at hr''
  cases hr''
  rw [hgone] at hthere
  cases hthere

/-- A name with a backslash that was put into a directory of the archived tree stays, unless the
directory goes with it. -/
theorem plainNames_of_restored (h : ArchiveOf t archive) : PlainNames t t' := by
  intro d n hhouse hdir hsome hn
  have hnot : ∀ {item}, t.get (d ++ [n]) ≠ some item := fun hitem =>
    (h.plain _ _ hitem hhouse n (by simp)).2 hn
  have hnone : t.get (d ++ [n]) = none := by
    cases hget : t.get (d ++ [n]) with
    | none => rfl
    | some item => exact absurd hget hnot
  rw [hnone, isSome_none, Bool.false_eq_true, false_or] at hsome
  obtain ⟨s, count, hextract, hremove⟩ := restoreFrom_shrunk hrestore
  obtain ⟨hover, -⟩ := overlaid_of_extract h hextract
  have hthere : s.get (d ++ [n]) = t'.get (d ++ [n]) := by
    rw [hover, if_neg (by simp [hhouse]), hnone, none_or]
  rcases shrunk_removeEntriesNotIn hremove (d ++ [n]) with hsame | ⟨-, r, hr, hrq, hgone⟩
  · rw [hall _ hhouse, hnone, hthere] at hsame
    rw [← hsame] at hsome
    cases hsome
  · rcases prefix_concat_iff.mp hrq with rfl | hrd
    · exact (hr n (by simp)).2 hn
    · have hstays : (s'.get d).isSome = true := by
        rw [hall d (housekeeping_above (prefix_append ..) hhouse), hdir]
        rfl
      rw [isSome_iff_ne_none] at hstays
      exact absurd (FileTree.isSome_of_above hrd (isSome_iff_ne_none.mpr hstays)) (by simp [hgone])

end

/-- What is left after a restore is the archived tree, except below the deepest directories. -/
theorem restored_iff (h : ArchiveOf t archive) (hover : Overlaid t t' s)
    (hpruned : Pruned t (maxArchiveDepth + 1) (· ≠ []) s s') :
    (∀ q, housekeeping q = false → s'.get q = t.get q) ↔ NothingBelow t t' := by
  have hget : ∀ q, housekeeping q = false → s.get q = (t.get q).or (t'.get q) := fun q hq => by
    rw [hover q, if_neg (by simp [hq])]
  -- a path that is not extra is left as the archive put it
  have hkept : ∀ q, housekeeping q = false → (t.get (q.take (maxArchiveDepth + 1))).isSome = true →
      s'.get q = (t.get q).or (t'.get q) := by
    intro q hq hsome
    rw [hpruned.kept q fun _ => by simpa [extra] using fun _ => hsome, hget q hq]
  constructor
  · intro hall d hd hdir hlength x hx
    have hhouse : housekeeping (d ++ x) = false := by
      rw [housekeeping_of_below (fun hnil => by simp [hnil] at hlength) (prefix_append ..), hd]
    have htake : (d ++ x).take (maxArchiveDepth + 1) = d := take_left' hlength
    have hnone : t.get (d ++ x) = none := by
      cases hsome : t.get (d ++ x) with
      | none => rfl
      | some item =>
        have hdepth := h.depth _ hhouse (by rw [hsome]; rfl)
        have hpos := length_pos_of_ne_nil hx
        rw [length_append] at hdepth
        omega
    have hleft := hkept _ hhouse (by rw [htake, hdir]; rfl)
    rwa [hall _ hhouse, hnone, none_or, eq_comm] at hleft
  · intro hnothing q hq
    cases hsome : t.get q with
    | some item =>
      have hdepth := h.depth q hq (by rw [hsome]; rfl)
      rw [hkept q hq (by rw [take_of_length_le hdepth, hsome]; rfl), hsome, some_or]
    | none =>
      have hnil : q ≠ [] := fun hnil => by simp [hnil] at hsome
      cases htop : t.get (q.take (maxArchiveDepth + 1)) with
      | none => exact hpruned.gone q hnil (by simp [extra, hq, htop])
      | some item =>
        have hleft := hkept q hq (by rw [htop]; rfl)
        rw [hleft, hsome, none_or]
        have hlong : ¬ q.length ≤ maxArchiveDepth + 1 := fun hshort => by
          rw [take_of_length_le hshort, hsome] at htop
          cases htop
        have htopHouse := housekeeping_above (List.take_prefix (maxArchiveDepth + 1) q) hq
        cases item with
        | dir =>
          rw [← take_append_drop (maxArchiveDepth + 1) q]
          exact hnothing _ htopHouse htop (by rw [length_take]; omega) _
            fun hdrop => hlong (drop_eq_nil_iff.mp hdrop)
        | file contents =>
          -- a file lies over it, so nothing is below
          have hfile : s.get (q.take (maxArchiveDepth + 1)) = some (.file contents) := by
            rw [hget _ htopHouse, htop, some_or]
          have hbelow := FileTree.get_below_eq_none (List.take_prefix (maxArchiveDepth + 1) q)
            (fun heq => by rw [heq, hsome] at htop; cases htop) (by rw [hfile]; simp)
          rwa [hget q hq, hsome, none_or] at hbelow

/-- What a restore that gives back the archived tree asks of it and of the tree it finds: the archive
can be extracted, no file has taken the place of a directory or the other way round, nothing was put
below a directory 65 names deep, and no name in an archived directory has a backslash. -/
def Restorable (root : Text) (t t' : FileTree) : Prop :=
  WithinLimits (foundInRoot (treeProvider root) t) ∧ NoClash t t' ∧ NothingBelow t t' ∧
    PlainNames t t'

/-- **A restore gives back the archived tree exactly if the two trees are `Restorable`.** Only for a
name that is taken for one of VibeSSH's own entries the converse is left open. -/
theorem restore_gives_back_iff {zip : ZipWriter} (w : World) {application backup : Uuid}
    {row : ApplicationBackup} {status : ApplicationStatus} (hrow : w.get backup = some row)
    (hown : row.applicationId = application)
    (hstopped : status ∉ [.running, .starting, .stopping])
    (h : backupArchive zip (treeProvider root) t = .ok archive) :
    (Restorable root t t' →
      ∃ n s, restoreBackup (treeProvider root) w application backup (.ok status) (.ok archive) t' =
        .ok (n, s) ∧ ∀ q, housekeeping q = false → s.get q = t.get q) ∧
    ((∃ n s, restoreBackup (treeProvider root) w application backup (.ok status) (.ok archive) t' =
        .ok (n, s) ∧ ∀ q, housekeeping q = false → s.get q = t.get q) →
      NoDisguise t → Restorable root t t') := by
  have harchive : AllPlain t → ArchiveOf t archive := fun ht =>
    ⟨ht, (mem_backupArchive ht h).1, (mem_backupArchive ht h).2⟩
  have hrun : restoreBackup (treeProvider root) w application backup (.ok status) (.ok archive) t' =
      restoreFrom (treeProvider root) archive t' := by
    unfold restoreBackup
    rw [hrow]
    dsimp only
    rw [if_neg (not_not.mpr hown)]
    exact if_neg hstopped
  obtain ⟨added, hadded, hsizes, hnames⟩ := (added_backupArchive h).entries
  rw [nil_append] at hadded
  subst hadded
  rw [hrun, Restorable, ← hsizes]
  constructor
  · rintro ⟨hlimits, hclash, hnothing, hplain⟩
    have harchive := harchive hplain.allPlain
    obtain ⟨⟨n, s⟩, hextract⟩ := extract_returns root harchive hclash hlimits
    obtain ⟨hover, -⟩ := overlaid_of_extract harchive hextract
    obtain ⟨s', hrestore, hpruned⟩ := restoreFrom_ok harchive hplain hextract
    exact ⟨n, s', hrestore, (restored_iff harchive hover hpruned).mpr hnothing⟩
  · rintro ⟨n, s, hrestore, hall⟩ hdisguise
    have harchive := harchive (allPlain_of_restored hrestore hall h hdisguise)
    have hplain := plainNames_of_restored hrestore hall harchive
    obtain ⟨⟨m, s₁⟩, hextract, -⟩ := try_ok_iff.mp hrestore
    obtain ⟨hover, hclash⟩ := overlaid_of_extract harchive hextract
    obtain ⟨s', hrestore', hpruned⟩ := restoreFrom_ok harchive hplain hextract
    rw [hrestore'] at hrestore
    cases hrestore
    exact ⟨withinLimits_of_extract hnames hextract, hclash,
      (restored_iff harchive hover hpruned).mp hall, hplain⟩

/-! ## A file replaced by a directory -/

/-- A working directory with a plugin directory and one file in it. -/
def withPlugin (more : List (List Text × Item)) (plugin : Item) : List (List Text × Item) :=
  (["plugins"], .dir) :: (["plugins", "a.yml"], plugin) :: more

def archivedTree : FileTree where
  entries := withPlugin [] (.file [1, 2])
  keys := by decide
  names := by decide
  parents := by decide

/-- The file edited and another one created. -/
def editedTree : FileTree where
  entries := withPlugin [(["notes.txt"], .file [7])] (.file [3])
  keys := by decide
  names := by decide
  parents := by decide

/-- A directory with the name of the file. -/
def replacedTree : FileTree where
  entries := withPlugin [] .dir
  keys := by decide
  names := by decide
  parents := by decide

def oneBackup : World :=
  ⟨[⟨Uuid.nil, Uuid.nil, "manual-19700101-000001.zip", 2, .manual, none, 0, 0⟩],
    fun _ => none, fun _ _ => none, fun _ => none, 0⟩

theorem edited_restored :
    ∃ archive n s, backupArchive zipWriter (treeProvider "/srv") archivedTree = .ok archive ∧
      restoreBackup (treeProvider "/srv") oneBackup Uuid.nil Uuid.nil (.ok .stopped)
        (.ok archive) editedTree = .ok (n, s) ∧
      ∀ q, housekeeping q = false → s.get q = archivedTree.get q := by
  have hclash : NoClash archivedTree editedTree := by
    intro q _ item item' hitem hitem'
    by_cases hq : q = []
    · subst hq
      cases hitem
      cases hitem'
      rfl
    · have hsame : ∀ e ∈ archivedTree.entries, ∀ e' ∈ editedTree.entries, e.1 = e'.1 →
          e.2.isDir = e'.2.isDir := by decide
      exact hsame _ ((FileTree.get_eq_some_iff hq).mp hitem) _
        ((FileTree.get_eq_some_iff hq).mp hitem') rfl
  have hnothing : NothingBelow archivedTree editedTree := by
    intro d _ hdir hlength
    have hd : d ≠ [] := fun hd => by simp [hd] at hlength
    have hshort : ∀ e ∈ archivedTree.entries, e.1.length ≠ maxArchiveDepth + 1 := by decide
    exact absurd hlength (hshort _ ((FileTree.get_eq_some_iff hd).mp hdir))
  have hlimits : WithinLimits (foundInRoot (treeProvider "/srv") archivedTree) := by
    have hfound : foundInRoot (treeProvider "/srv") archivedTree = [none, some 2] := by
      decide
    rw [hfound]
    exact ⟨by simp [maxEntries], by simp [List.reduceOption, maxEntryBytes],
      by simp [List.reduceOption, maxTotalBytes]⟩
  have hmade : backupArchive zipWriter (treeProvider "/srv") archivedTree =
      .ok [⟨"plugins/", []⟩, ⟨"plugins/a.yml", [1, 2]⟩] := rfl
  have hrow : oneBackup.get Uuid.nil =
    some ⟨Uuid.nil, Uuid.nil, "manual-19700101-000001.zip", 2, .manual, none, 0, 0⟩ := rfl
  have hstopped : ApplicationStatus.stopped ∉ [.running, .starting, .stopping] := by decide
  have hplain : PlainNames archivedTree editedTree := by
    intro d n _ _ hsome
    have hnames : ∀ e ∈ archivedTree.entries ++ editedTree.entries, ∀ m ∈ e.1, '\\' ∉ m := by decide
    rcases hsome with hsome | hsome <;> obtain ⟨item, hitem⟩ := isSome_iff_exists.mp hsome <;>
      have hmem := (FileTree.get_eq_some_iff (by simp)).mp hitem
    · exact hnames _ (mem_append_left _ hmem) n (by simp)
    · exact hnames _ (mem_append_right _ hmem) n (by simp)
  obtain ⟨n, s, hrestore, hall⟩ := (restore_gives_back_iff oneBackup hrow rfl hstopped hmade).1
    ⟨hlimits, hclash, hnothing, hplain⟩
  exact ⟨_, n, s, hmade, hrestore, hall⟩

/-- With a directory in the place of the archived file the restore fails. -/
theorem replaced_not_restored :
    ∃ archive err, backupArchive zipWriter (treeProvider "/srv") archivedTree = .ok archive ∧
      restoreBackup (treeProvider "/srv") oneBackup Uuid.nil Uuid.nil (.ok .stopped)
        (.ok archive) replacedTree = .error err :=
  ⟨[⟨"plugins/", []⟩, ⟨"plugins/a.yml", [1, 2]⟩], _, rfl, rfl⟩

end VibeSsh.Backups
