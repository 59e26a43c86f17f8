import VibeSsh.Backups.Contents

/-! # Extracting one entry over a tree

An entry that can be extracted ends up in its place below directories, and nothing else changes; it
can be extracted exactly where everything in its way is of its kind. -/

namespace VibeSsh.Backups

open Lib List

variable {root : Text}

/-! ## The directories above -/

/-- Directories the extractor takes for granted are there. -/
def Known (known : List Text) (s : FileTree) : Prop :=
  ∀ r, Plain r → pathText r ∈ known → s.get r = some .dir

variable {known q d : List Text} {s s' : FileTree} {item : Item} {n : Text}
  {x y : Extraction FileTree}

theorem Known.cons (h : Known known s) {p : List Text}
    (hp : ∀ n ∈ p, IsEntryName n) (hget : s.get p = some .dir) : Known (pathText p :: known) s := by
  intro r hr hmem
  rcases mem_cons.mp hmem with heq | hmem
  · rw [pathText_inj hr.names hp heq, hget]
  · exact h r hr hmem

/-- An entry was put in place: what was there was of its kind, what was above it were directories,
and nothing else has changed. -/
structure Puts (s s' : FileTree) (q : List Text) (item : Item) : Prop where
  here : s'.get q = some item
  kind : ∀ old, s.get q = some old → old.isDir = item.isDir
  above : ∀ r, r <+: q → r ≠ q → s.get r = none ∨ s.get r = some .dir
  frame : ∀ r, ¬ r <+: q → s'.get r = s.get r

theorem Item.eq_dir (h : item.isDir = true) : item = .dir := by
  cases item with
  | dir => rfl
  | file contents => cases h

theorem Puts.get_above {r : List Text} (h : Puts s s' q item)
    (hr : r <+: q) (hne : r ≠ q) : s'.get r = some .dir := FileTree.get_of_above hr hne h.here

/-- What was there stays there, as what it was. -/
theorem Puts.stays {r : List Text} {old : Item} (h : Puts s s' q item)
    (hold : s.get r = some old) : ∃ new, s'.get r = some new ∧ new.isDir = old.isDir := by
  by_cases hr : r <+: q
  · by_cases hne : r = q
    · subst hne
      exact ⟨item, h.here, (h.kind old hold).symm⟩
    · refine ⟨.dir, h.get_above hr hne, ?_⟩
      rcases h.above r hr hne with hnone | hdir
      · rw [hnone] at hold
        cases hold
      · rw [hdir] at hold
        cases hold
        rfl
  · exact ⟨old, (h.frame r hr).trans hold, rfl⟩

theorem underPath_pathText (hd : ∀ m ∈ d, IsEntryName m) :
    underPath (pathText d) n = pathText (d ++ [n]) := by
  unfold underPath
  by_cases hnil : d = []
  · subst hnil
    simp [pathText, Text.join]
  · rw [if_neg (by simpa using pathText_ne_nil hd hnil), pathText_concat hnil]

/-- The next directory is there or is made, unless a file is in its place. -/
theorem createDirectories_cons (root : Text) (rest : List Text) (hchild : Plain (d ++ [n]))
    (hknown : Known known s) (hd : s.get d = some .dir) :
    (∃ known₁ s₁, createDirectories (treeProvider root) (pathText d) (n :: rest) known s =
        createDirectories (treeProvider root) (pathText (d ++ [n])) rest known₁ s₁ ∧
      Known known₁ s₁ ∧ (∀ r, s₁.get r = if r = d ++ [n] then some .dir else s.get r) ∧
      ∀ old, s.get (d ++ [n]) = some old → old = .dir) ∨
    ∃ e contents, createDirectories (treeProvider root) (pathText d) (n :: rest) known s = .error e ∧
      s.get (d ++ [n]) = some (.file contents) := by
  have hthere : s.get (d ++ [n]) = some .dir →
      ∀ r, s.get r = if r = d ++ [n] then some .dir else s.get r := by
    intro hget r
    split
    · next heq => rw [heq, hget]
    · rfl
  rw [createDirectories, underPath_pathText (hchild.of_above (prefix_append ..)).names]
  split
  · next hmem =>
    have hget := hknown _ hchild hmem
    exact .inl ⟨known, s, rfl, hknown, hthere hget, fun old hold => by rw [hget] at hold; cases hold; rfl⟩
  cases hget : s.get (d ++ [n]) with
  | none =>
    split
    · next stat hstat =>
      obtain ⟨item, hitem, -⟩ := metadata_ok hchild hstat
      rw [hget] at hitem
      cases hitem
    · obtain ⟨s₁, hmade, hget₁⟩ := createDirectory_pathText root hchild (by simp)
        (by rw [dropLast_concat, hd]) hget
      have hstill : Known known s₁ := fun r hr hmem => by
        rw [hget₁ r]
        split
        · rfl
        · exact hknown r hr hmem
      refine .inl ⟨_, s₁, ?_, hstill.cons hchild.names ((hget₁ _).trans (if_pos rfl)), hget₁,
        fun old hold => by cases hold⟩
      exact congrArg (· >>= _) hmade
  | some item =>
    rw [show (treeProvider root).metadata s (pathText (d ++ [n])) = .ok ⟨item.isDir, false⟩ from
      metadata_pathText hchild hget]
    cases item with
    | dir =>
      exact .inl ⟨_, s, rfl, hknown.cons hchild.names hget, hthere hget, fun old hold => by
        cases hold; rfl⟩
    | file contents => exact .inr ⟨_, contents, rfl, rfl⟩

theorem createDirectories_ok {rest known' : List Text}
    (hplain : Plain (d ++ rest)) (hknown : Known known s) (hd : s.get d = some .dir)
    (h : createDirectories (treeProvider root) (pathText d) rest known s = .ok (known', s')) :
    Known known' s' ∧ Puts s s' (d ++ rest) .dir := by
  induction rest generalizing d known s with
  | nil =>
    cases h
    rw [append_nil]
    refine ⟨hknown, hd, fun old hold => ?_, fun r hr hne => .inr (FileTree.get_of_above hr hne hd),
      fun _ _ => rfl⟩
    rw [hd] at hold
    cases hold
    rfl
  | cons n rest ih =>
    rw [append_cons] at hplain ⊢
    have hchild : Plain (d ++ [n]) := hplain.of_above (prefix_append ..)
    rcases createDirectories_cons root rest hchild hknown hd with
      ⟨known₁, s₁, hrun, hknown₁, hget, hbefore⟩ | ⟨e, _, hrun, -⟩ <;> rw [hrun] at h
    · obtain ⟨hknown', hputs⟩ := ih hplain hknown₁ ((hget _).trans (if_pos rfl)) h
      refine ⟨hknown', hputs.here, fun old hold => ?_, fun r hr hne => ?_, fun r hr => ?_⟩
      · by_cases hrn : d ++ [n] ++ rest = d ++ [n]
        · rw [hrn] at hold
          rw [hbefore old hold]
        · exact hputs.kind old ((hget _).trans ((if_neg hrn).trans hold))
      · by_cases hrn : r = d ++ [n]
        · subst hrn
          cases hold : s.get (d ++ [n]) with
          | none => exact .inl rfl
          | some old => exact .inr (by rw [hbefore old hold])
        · have habove := hputs.above r hr hne
          rwa [hget r, if_neg hrn] at habove
      · rw [hputs.frame r hr, hget r, if_neg]
        rintro rfl
        exact hr (prefix_append ..)
    · cases h

theorem createDirectories_returns (root : Text) {rest : List Text}
    (hplain : Plain (d ++ rest)) (hknown : Known known s) (hd : s.get d = some .dir)
    (hfree : ∀ r, r <+: d ++ rest → ∀ item, s.get r = some item → item = .dir) :
    ∃ r, createDirectories (treeProvider root) (pathText d) rest known s = .ok r := by
  induction rest generalizing d known s with
  | nil => exact ⟨_, rfl⟩
  | cons n rest ih =>
    rw [append_cons] at hplain hfree
    have hchild : Plain (d ++ [n]) := hplain.of_above (prefix_append ..)
    rcases createDirectories_cons root rest hchild hknown hd with
      ⟨known₁, s₁, hrun, hknown₁, hget, -⟩ | ⟨_, _, -, hfile⟩
    · rw [hrun]
      refine ih hplain hknown₁ ((hget _).trans (if_pos rfl)) fun r hr item hitem => ?_
      rw [hget r] at hitem
      split at hitem
      · cases hitem
        rfl
      · exact hfree r hr item hitem
    · cases hfree _ (prefix_append ..) _ hfile

/-! ## The entry itself -/

theorem zipOf_isDir (hq : q ≠ []) (h : Plain q) (item : Item) :
    (zipOf q item).isDir = item.isDir := by
  cases item with
  | dir => simp [zipOf, ZipEntry.isDir, Item.isDir]
  | file contents =>
    obtain ⟨d, n, rfl⟩ := (eq_nil_or_concat q).resolve_left hq
    rw [concat_eq_append] at h ⊢
    obtain ⟨-, hname, hback⟩ := Plain.concat.mp h
    have hlast := getLast?_pathText_concat d hname.1.1
    simp only [zipOf, ZipEntry.isDir, Item.isDir, hlast, Bool.or_eq_false_iff, decide_eq_false_iff_not]
    exact ⟨fun heq => hname.1.2.1 (mem_of_getLast? heq), fun heq => hback (mem_of_getLast? heq)⟩

theorem extractEntry_dir (hq : q ≠ []) (h : Plain q) :
    extractEntry (treeProvider root) "." x (zipOf q .dir) = .ok y ↔
      ∃ known s, createDirectories (treeProvider root) (pathText []) q x.known x.state =
        .ok (known, s) ∧ y = { x with known := known, state := s } := by
  have hslashes : slashes (pathText q ++ ['/']) = pathText q ++ ['/'] := by
    rw [slashes, map_append, ← slashes, slashes_pathText h]
    rfl
  have hsegments : Text.segments (targetIn "." (slashes (zipOf q .dir).name)) = q := by
    show Text.segments (slashes (pathText q ++ ['/'])) = q
    rw [hslashes, Text.segments_append_slash, segments_pathText h.names]
    simp [Text.segments]
  have hdir : (zipOf q .dir).isDir = true := zipOf_isDir hq h .dir
  unfold extractEntry
  rw [(zipOf_name hq h .dir).1]
  dsimp only
  rw [if_pos hdir, try_ok_iff]
  unfold createDirectoryAllCached
  rw [hsegments]
  constructor
  · rintro ⟨⟨known, s⟩, hmade, heq⟩
    exact ⟨known, s, hmade, (Except.ok.inj heq).symm⟩
  · rintro ⟨known, s, hmade, rfl⟩
    exact ⟨(known, s), hmade, rfl⟩

theorem createParents_pathText (h : ∀ m ∈ d ++ [n], IsEntryName m)
    (known : List Text) (s : FileTree) :
    createParents (treeProvider root) (pathText (d ++ [n])) known s =
      createDirectories (treeProvider root) (pathText []) d known s := by
  unfold createParents parentText
  dsimp only
  rw [splitOn_pathText h (by simp), dropLast_concat]
  cases d with
  | nil => rfl
  | cons m d =>
    rw [if_neg (by simp)]
    show createDirectories _ [] (Text.segments (pathText (m :: d))) known s = _
    rw [segments_pathText fun k hk => h k (mem_append_left _ hk)]
    rfl

theorem extractEntry_file (h : Plain (d ++ [n])) {contents : List UInt8} :
    extractEntry (treeProvider root) "." x (zipOf (d ++ [n]) (.file contents)) = .ok y ↔
      ∃ total known s s', checkSize x.totalBytes (pathText (d ++ [n])) contents.length = .ok total ∧
        createDirectories (treeProvider root) (pathText []) d x.known x.state = .ok (known, s) ∧
        (treeProvider root).writeFile s (pathText (d ++ [n])) contents = .ok s' ∧
        y = ⟨x.extracted + 1, total, known, s'⟩ := by
  have hfile : (zipOf (d ++ [n]) (.file contents)).isDir ≠ true := by
    rw [zipOf_isDir (by simp) h]
    exact Bool.false_ne_true
  unfold extractEntry
  rw [(zipOf_name (by simp) h _).1]
  dsimp only
  rw [if_neg hfile]
  show (checkSize x.totalBytes (slashes (pathText (d ++ [n]))) contents.length >>= fun totalBytes =>
    writeEntry (treeProvider root) (slashes (pathText (d ++ [n]))) contents _) = _ ↔ _
  rw [slashes_pathText h, try_ok_iff]
  constructor
  · rintro ⟨total, htotal, hwrite⟩
    obtain ⟨⟨known, s⟩, hparents, hwrite⟩ := try_ok_iff.mp hwrite
    obtain ⟨s', hwrite, heq⟩ := try_ok_iff.mp hwrite
    rw [createParents_pathText h.names] at hparents
    exact ⟨total, known, s, s', htotal, hparents, hwrite, (Except.ok.inj heq).symm⟩
  · rintro ⟨total, known, s, s', htotal, hparents, hwrite, rfl⟩
    rw [← createParents_pathText h.names] at hparents
    exact ⟨total, htotal, try_ok_iff.mpr ⟨(known, s), hparents, try_ok_iff.mpr ⟨s', hwrite, rfl⟩⟩⟩

theorem Puts.write {s₁ s₂ : FileTree} {contents : List UInt8}
    (h : Puts s s₁ d .dir) (hfits : s₁.Fits (d ++ [n]) (.file contents))
    (hs₂ : s₂ = s₁.put (d ++ [n]) (.file contents) hfits) :
    Puts s s₂ (d ++ [n]) (.file contents) := by
  have hget : ∀ r, s₂.get r = if r = d ++ [n] then some (.file contents) else s₁.get r :=
    fun r => hs₂ ▸ FileTree.get_put hfits r
  have hlonger : ¬ d ++ [n] <+: d := fun hle => by simpa using hle.length_le
  refine ⟨(hget _).trans (if_pos rfl), fun old hold => ?_, fun r hr hne => ?_, fun r hr => ?_⟩
  · rw [← h.frame _ hlonger] at hold
    cases old with
    | dir => cases hfits.2.2.2 hold
    | file _ => rfl
  · rcases prefix_concat_iff.mp hr with heq | hr
    · exact absurd heq hne
    by_cases hrd : r = d
    · subst hrd
      cases hold : s.get r with
      | none => exact .inl rfl
      | some old => exact .inr (by rw [Item.eq_dir (h.kind old hold)])
    · exact h.above r hr hrd
  · rw [hget r, if_neg (show r ≠ d ++ [n] from fun heq => hr (by rw [heq]))]
    exact h.frame r fun hle => hr (hle.trans (prefix_append ..))

/-- **An entry that was extracted is in its place**, and nothing else has changed. -/
theorem puts_extractEntry (hq : q ≠ []) (h : Plain q) (hknown : Known x.known x.state)
    (hstep : extractEntry (treeProvider root) "." x (zipOf q item) = .ok y) :
    Known y.known y.state ∧ Puts x.state y.state q item := by
  cases item with
  | dir =>
    obtain ⟨known, s, hmade, rfl⟩ := (extractEntry_dir hq h).mp hstep
    exact createDirectories_ok (d := []) h hknown rfl hmade
  | file contents =>
    obtain ⟨d, n, rfl⟩ := (eq_nil_or_concat q).resolve_left hq
    rw [concat_eq_append] at h hstep ⊢
    obtain ⟨total, known, s, s', -, hmade, hwrite, rfl⟩ := (extractEntry_file h).mp hstep
    obtain ⟨hknown', hputs⟩ := createDirectories_ok (d := []) (Plain.concat.mp h).1 hknown rfl hmade
    obtain ⟨p, hp, hwrite⟩ := try_ok_iff.mp hwrite
    obtain rfl := resolve_ok h hp
    split at hwrite
    · next hfits =>
      have hfile := hputs.write hfits (Except.ok.inj hwrite).symm
      refine ⟨fun r hr hmem => ?_, hfile⟩
      obtain rfl := Except.ok.inj hwrite
      refine (FileTree.get_put hfits r).trans ?_
      split
      · next heq => cases hfits.2.2.2 (heq ▸ hknown' r hr hmem)
      · exact hknown' r hr hmem
    · cases hwrite

/-- It can be extracted where everything in its way is of its kind. -/
theorem extractEntry_returns (root : Text) (hq : q ≠ []) (h : Plain q) (hknown : Known x.known x.state)
    (habove : ∀ r, r <+: q → r ≠ q → ∀ old, x.state.get r = some old → old = .dir)
    (hkind : ∀ old, x.state.get q = some old → old.isDir = item.isDir)
    (heach : ∀ n ∈ (zipOf q item).declared, n ≤ maxEntryBytes)
    (htotal : x.totalBytes + (zipOf q item).declared.getD 0 ≤ maxTotalBytes) :
    ∃ y, extractEntry (treeProvider root) "." x (zipOf q item) = .ok y := by
  cases item with
  | dir =>
    have hfree : ∀ r, r <+: [] ++ q → ∀ old, x.state.get r = some old → old = .dir := by
      intro r hr old hold
      by_cases hrq : r = q
      · exact Item.eq_dir (hkind old (hrq ▸ hold))
      · exact habove r hr hrq old hold
    obtain ⟨⟨known, s⟩, hmade⟩ := createDirectories_returns root (d := []) h hknown rfl hfree
    exact ⟨_, (extractEntry_dir hq h).mpr ⟨known, s, hmade, rfl⟩⟩
  | file contents =>
    obtain ⟨d, n, rfl⟩ := (eq_nil_or_concat q).resolve_left hq
    rw [concat_eq_append] at *
    have hd := (Plain.concat.mp h).1
    have hlonger : ¬ d ++ [n] <+: d := fun hle => by simpa using hle.length_le
    have hfree : ∀ r, r <+: [] ++ d → ∀ old, x.state.get r = some old → old = .dir :=
      fun r hr => habove r (List.IsPrefix.trans hr (prefix_append ..))
        fun heq => hlonger (heq ▸ hr)
    obtain ⟨⟨known, s⟩, hmade⟩ := createDirectories_returns root (d := []) hd hknown rfl hfree
    obtain ⟨-, hputs⟩ := createDirectories_ok (d := []) hd hknown rfl hmade
    have hnotdir : s.get (d ++ [n]) ≠ some .dir := by
      rw [hputs.frame _ hlonger]
      exact fun hdir => by cases hkind .dir hdir
    obtain ⟨s', hwrite, -⟩ := writeFile_pathText root h (by simp) contents
      (by rw [dropLast_concat]; exact hputs.here) hnotdir
    have hdeclared : (zipOf (d ++ [n]) (.file contents)).declared = some contents.length := by
      rw [ZipEntry.declared, zipOf_isDir (by simp) h]
      rfl
    rw [hdeclared] at heach htotal
    exact ⟨_, (extractEntry_file h).mpr
      ⟨_, known, s, s', checkSize_ok.mpr ⟨heach _ rfl, htotal, rfl⟩, hmade, hwrite, rfl⟩⟩

end VibeSsh.Backups
