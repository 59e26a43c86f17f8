import VibeSsh.Backups.TreeProvider

/-! # Which archives can be extracted

Making an archive stops only at directories nested too deep; extracting one also stops at too many
entries, at a file too large and at too many bytes in all. -/

namespace VibeSsh.Backups

open Lib List

variable {σ : Type}

/-! ## What is in a directory -/

section Found

variable (p : Provider σ) (s : σ)

/-- What archiving comes across at and below a path, links left out: nothing for a directory, the
size of a file. The zip library takes a name that ends in a backslash for a directory's. -/
def found : Nat → Text → List (Option Nat)
  | 0, _ => []
  | levels + 1, path =>
    match p.metadata s path with
    | .error _ => []
    | .ok stat =>
      if stat.isSymlink then []
      else if stat.isDir then
        none :: match p.listDirectory s path with
          | .error _ => []
          | .ok entries => (entries.filter fun e => !e.isSymlink).flatMap fun e =>
              found levels (childPath path e.name)
      else
        match p.readFile s path with
        | .error _ => []
        | .ok contents => [if path.getLast? = some '\\' then none else some contents.length]

def foundInRoot : List (Option Nat) :=
  match p.listDirectory s "." with
  | .error _ => []
  | .ok entries => (entries.filter fun e => !isHousekeeping e.name).flatMap fun e =>
      found p ((p.createDirectory s backupsDir).toOption.getD s) (maxArchiveDepth + 1) e.name

end Found

structure WithinLimits (sizes : List (Option Nat)) : Prop where
  entries : sizes.length ≤ maxEntries
  each : ∀ n ∈ sizes.reduceOption, n ≤ maxEntryBytes
  total : sizes.reduceOption.sum ≤ maxTotalBytes

/-! ## What an archive holds -/

def ZipEntry.declared (entry : ZipEntry) : Option Nat :=
  if entry.isDir then none else some entry.contents.length

variable {names : List Text} {zip : ZipWriter} {archive archive' : Archive} {p : Provider σ} {s : σ}
  {destination : Text} {entry : ZipEntry}

theorem staysInside_of_names (h : ∀ n ∈ names, n ≠ ['.', '.']) (depth : Nat) :
    staysInside depth names = true := by
  induction names generalizing depth with
  | nil => rfl
  | cons n names ih =>
    have hrest := ih fun m hm => h m (mem_cons_of_mem n hm)
    unfold staysInside
    split
    · exact hrest depth
    · rw [if_neg (h n mem_cons_self)]
      exact hrest (depth + 1)

/-- A name the extractor takes, for a file or, with a slash, for a directory. -/
theorem enclosedName_of_splitOn {name : Text} (hp : names ≠ [])
    (hnames : ∀ n ∈ names, IsEntryName n) (hname : name = pathText names ∨ name = pathText names ++ ['/']) :
    enclosedName name = some name := by
  have hzero : '\x00' ∉ pathText names := by
    intro hmem
    rcases Text.mem_join hmem with hmem | ⟨n, hn, hmem⟩
    · simp at hmem
    · exact (hnames n hn).2 hmem
  have hhead : (pathText names).head? ≠ some '/' := by
    match names, hp, hnames with
    | n :: rest, _, hnames =>
      obtain ⟨⟨hne, hslash, -⟩, -⟩ := hnames n mem_cons_self
      have hstart : ∃ tail, pathText (n :: rest) = n ++ tail := by
        cases rest with
        | nil => exact ⟨[], by simp [pathText, Text.join]⟩
        | cons m rest => exact ⟨_, by rw [pathText, Text.join, intercalate_cons_cons,
            append_assoc]⟩
      obtain ⟨tail, htail⟩ := hstart
      rw [htail, List.head?_append_of_ne_nil _ hne]
      exact fun h => hslash (mem_of_head? h)
  have hsplit := splitOn_pathText hnames hp
  have hinside : ∀ n ∈ names, n ≠ ['.', '.'] := fun n hn => (hnames n hn).1.2.2.2
  unfold enclosedName
  rcases hname with rfl | rfl
  · rw [hsplit, staysInside_of_names hinside, if_neg]
    simpa using ⟨hzero, hhead⟩
  · rw [splitOn_append_cons_self, hsplit, splitOn_nil, staysInside_of_names, if_neg]
    · rw [List.head?_append_of_ne_nil _ (pathText_ne_nil hnames hp)]
      simpa using ⟨hzero, hhead⟩
    · intro n hn
      rcases mem_append.mp hn with hn | hn
      · exact hinside n hn
      · rw [mem_singleton.mp hn]
        decide

/-- Some entries have been added, of these sizes and with names the extractor takes. -/
structure Added (before after : Archive) (sizes : List (Option Nat)) : Prop where
  entries : ∃ added, after = before ++ added ∧ added.map (·.declared) = sizes ∧
    ∀ e ∈ added, enclosedName e.name = some e.name

theorem Added.refl (archive : Archive) : Added archive archive [] := ⟨[], by simp⟩

theorem Added.trans {a b c : Archive} {sizes sizes' : List (Option Nat)} (h1 : Added a b sizes)
    (h2 : Added b c sizes') : Added a c (sizes ++ sizes') := by
  obtain ⟨x, rfl, rfl, hx⟩ := h1
  obtain ⟨y, rfl, rfl, hy⟩ := h2
  refine ⟨x ++ y, by simp, by simp, fun e he => ?_⟩
  rcases mem_append.mp he with he | he
  · exact hx e he
  · exact hy e he

section

variable (hp : names ≠ [])
include hp

theorem added_addDirectory (hnames : ∀ n ∈ names, IsEntryName n)
    (h : addDirectory zip archive (pathText names) = .ok archive') :
    Added archive archive' [none] := by
  unfold addDirectory at h
  split at h
  · cases h
  · cases h
    refine ⟨[⟨pathText names ++ ['/'], []⟩], rfl, ?_, fun e he => ?_⟩
    · simp [ZipEntry.declared, ZipEntry.isDir]
    · rw [mem_singleton.mp he]
      exact enclosedName_of_splitOn hp hnames (.inr rfl)

theorem getLast?_pathText_ne_slash (hnames : ∀ n ∈ names, IsEntryName n) :
    (pathText names).getLast? ≠ some '/' := by
  obtain ⟨d, n, rfl⟩ := (eq_nil_or_concat names).resolve_left hp
  rw [concat_eq_append] at hnames ⊢
  obtain ⟨⟨hne, hslash, -⟩, -⟩ := hnames n (by simp)
  rw [getLast?_pathText_concat d hne]
  exact fun h => hslash (mem_of_getLast? h)

theorem added_addFile {contents : List UInt8} (hnames : ∀ n ∈ names, IsEntryName n)
    (h : addFile zip archive (pathText names) contents = .ok archive') :
    Added archive archive'
      [if (pathText names).getLast? = some '\\' then none else some contents.length] := by
  unfold addFile at h
  split at h
  · cases h
  · split at h
    · cases h
    · cases h
      refine ⟨[⟨pathText names, contents⟩], rfl, ?_, fun e he => ?_⟩
      · simp [ZipEntry.declared, ZipEntry.isDir, getLast?_pathText_ne_slash hp hnames]
      · rw [mem_singleton.mp he]
        exact enclosedName_of_splitOn hp hnames (.inl rfl)

theorem childPath_pathText (hnames : ∀ n ∈ names, IsEntryName n) (n : Text) :
    childPath (pathText names) n = pathText (names ++ [n]) := by
  rw [childPath, trimEndMatches_pathText hnames, pathText_concat hp]

/-- Archiving adds an entry for everything it comes across. -/
theorem added_writeIntoZip {levels : Nat} (hnames : ∀ n ∈ names, IsEntryName n)
    (h : writeIntoZip zip p s levels (pathText names) (pathText names) archive = .ok archive') :
    Added archive archive' (found p s levels (pathText names)) := by
  induction levels generalizing names archive archive' with
  | zero => cases h
  | succ levels ih =>
    unfold writeIntoZip at h
    obtain ⟨stat, hstat, h⟩ := try_ok_iff.mp h
    unfold found
    rw [hstat]
    dsimp only
    split at h
    · next hlink =>
      cases h
      rw [if_pos hlink]
      exact .refl archive
    next hlink =>
    rw [if_neg hlink]
    split at h
    · next hdir =>
      obtain ⟨archive₁, hadd, h⟩ := try_ok_iff.mp h
      obtain ⟨entries, hlist, h⟩ := try_ok_iff.mp h
      rw [if_pos hdir, hlist, ← singleton_append]
      refine (added_addDirectory hp hnames hadd).trans ?_
      refine foldlM_invariant (fun done archive => Added archive₁ archive
        ((done.filter fun e => !e.isSymlink).flatMap fun e =>
          found p s levels (childPath (pathText names) e.name))) h (.refl archive₁) ?_
      intro done entry rest b b' _ hdone hstep
      rw [filter_append, flatMap_append]
      refine hdone.trans ?_
      split at hstep
      · next hentry =>
        cases hstep
        simpa [hentry] using Added.refl b
      · next hentry =>
        have hnames' : ∀ n ∈ names ++ [entry.name], IsEntryName n := by
          intro n hn
          rcases mem_append.mp hn with hn | hn
          · exact hnames n hn
          · rw [mem_singleton.mp hn]
            exact entry.name_wf
        have hchild := childPath_pathText hp hnames entry.name
        rw [hchild, ← pathText_concat hp] at hstep
        have hentry' : [entry].filter (fun e => !e.isSymlink) = [entry] := by simp [hentry]
        rw [hentry', flatMap_singleton, hchild]
        exact ih (by simp) hnames' hstep
    · next hfile =>
      obtain ⟨contents, hread, h⟩ := try_ok_iff.mp h
      rw [if_neg hfile, hread]
      exact added_addFile hp hnames h

end

theorem zipName_of_name {n : Text} (h : IsEntryName n) : zipName n = n := by
  have hsplit : n.splitOn '/' = [n] := by
    simpa [pathText, Text.join] using
      splitOn_pathText (p := [n]) (fun m hm => by rwa [mem_singleton.mp hm]) (by simp)
  unfold zipName Text.baseName
  simp [hsplit]

/-- A backup's archive has an entry for everything in the working directory. -/
theorem added_backupArchive
    (h : backupArchive zip p s = .ok archive) : Added [] archive (foundInRoot p s) := by
  unfold backupArchive at h
  obtain ⟨entries, hlist, h⟩ := try_ok_iff.mp h
  unfold createZip at h
  obtain ⟨archive₁, hloop, h⟩ := try_ok_iff.mp h
  obtain rfl : archive₁ = archive := by
    split at h
    · cases h
    · exact Except.ok.inj h
  unfold foundInRoot
  rw [hlist]
  dsimp only at hloop ⊢
  rw [foldlM_map] at hloop
  refine foldlM_invariant (fun done archive => Added [] archive (done.flatMap fun e =>
    found p ((p.createDirectory s backupsDir).toOption.getD s) (maxArchiveDepth + 1) e.name)) hloop
    (.refl []) ?_
  intro done entry rest b b' _ hdone hstep
  rw [flatMap_append, flatMap_singleton]
  refine hdone.trans ?_
  have hname : pathText [entry.name] = entry.name := by simp [pathText, Text.join]
  rw [zipName_of_name entry.name_wf] at hstep
  rw [← hname] at hstep ⊢
  exact added_writeIntoZip (by simp) (fun n hn => mem_singleton.mp hn ▸ entry.name_wf) hstep

/-! ## What the extractor takes -/

/-- A provider that takes every directory and every file. -/
structure Willing (p : Provider σ) : Prop where
  metadata : ∀ s path stat, p.metadata s path = .ok stat → stat.isDir = true
  createDirectory : ∀ s path, ∃ s', p.createDirectory s path = .ok s'
  writeFile : ∀ s path contents, ∃ s', p.writeFile s path contents = .ok s'

/-- Nothing but the provider could keep an archive from being extracted: none of the extractor's own
checks stops it, and no file is passed over. -/
def Accepted (archive : Archive) : Prop :=
  ∀ (σ : Type) (p : Provider σ), Willing p → ∀ s, ∃ s',
    extractZipFrom p archive "." s =
      .ok ((archive.map (·.declared)).reduceOption.length, s')

theorem checkSize_ok {total n total' : Nat} {relative : Text} :
    checkSize total relative n = .ok total' ↔
      n ≤ maxEntryBytes ∧ total + n ≤ maxTotalBytes ∧ total' = total + n := by
  unfold checkSize
  split
  · next h => simp [Nat.not_le.mpr h]
  next h =>
  split
  · next h' => simp [Nat.not_le.mpr h']
  · next h' =>
    rw [Except.ok.injEq]
    exact ⟨fun heq => ⟨Nat.not_lt.mp h, Nat.not_lt.mp h', heq.symm⟩, fun hall => hall.2.2.symm⟩

/-- An entry that was extracted kept within the limits. -/
theorem extractEntry_ok {x y : Extraction σ} (hname : enclosedName entry.name = some entry.name)
    (h : extractEntry p destination x entry = .ok y) :
    (∀ n ∈ entry.declared, n ≤ maxEntryBytes) ∧
      y.totalBytes = x.totalBytes + entry.declared.getD 0 ∧
      (x.totalBytes ≤ maxTotalBytes → y.totalBytes ≤ maxTotalBytes) := by
  unfold extractEntry at h
  rw [hname] at h
  dsimp only at h
  split at h
  · next hdir =>
    obtain ⟨r, -, h⟩ := try_ok_iff.mp h
    cases h
    simp [ZipEntry.declared, hdir]
  · next hfile =>
    obtain ⟨total, htotal, h⟩ := try_ok_iff.mp h
    obtain ⟨heach, hall, rfl⟩ := checkSize_ok.mp htotal
    unfold writeEntry at h
    obtain ⟨r, -, h⟩ := try_ok_iff.mp h
    obtain ⟨s', -, h⟩ := try_ok_iff.mp h
    cases h
    simpa [ZipEntry.declared, hfile] using ⟨heach, fun _ => hall⟩

theorem sizes_concat (done : Archive) (entry : ZipEntry) :
    ((done ++ [entry]).map (·.declared)).reduceOption =
      (done.map (·.declared)).reduceOption ++ entry.declared.toList := by
  rw [map_append, map_singleton, ← concat_eq_append, reduceOption_concat]

theorem sum_toList (n : Option Nat) : n.toList.sum = n.getD 0 := by
  cases n <;> simp

theorem withinLimits_of_extract
    {r : Nat × σ} (hnames : ∀ e ∈ archive, enclosedName e.name = some e.name)
    (h : extractZipFrom p archive destination s = .ok r) :
    WithinLimits (archive.map (·.declared)) := by
  unfold extractZipFrom at h
  split_ifs at h
  next hcount =>
  obtain ⟨x, hloop, -⟩ := try_ok_iff.mp h
  obtain ⟨heach, htotal, hmax⟩ := foldlM_invariant (fun done x =>
    (∀ n ∈ (done.map (·.declared)).reduceOption, n ≤ maxEntryBytes) ∧
      x.totalBytes = (done.map (·.declared)).reduceOption.sum ∧ x.totalBytes ≤ maxTotalBytes)
    hloop ⟨by simp [List.reduceOption], by simp [List.reduceOption], Nat.zero_le _⟩ <| by
      intro done entry rest x y hl hdone hstep
      obtain ⟨heach, htotal, hmax⟩ := hdone
      obtain ⟨hentry, hsum, hbound⟩ := extractEntry_ok (hnames entry (by simp [hl])) hstep
      rw [sizes_concat]
      refine ⟨fun n hn => ?_, ?_, hbound hmax⟩
      · rcases mem_append.mp hn with hn | hn
        · exact heach n hn
        · exact hentry n (Option.mem_toList.mp hn)
      · rw [hsum, htotal, sum_append, sum_toList]
  exact ⟨by simpa using hcount, heach, htotal ▸ hmax⟩

theorem createDirectories_willing (hp : Willing p) (built : Text)
    (segments known : List Text) (s : σ) :
    ∃ r, createDirectories p built segments known s = .ok r := by
  induction segments generalizing built known s with
  | nil => exact ⟨_, rfl⟩
  | cons segment rest ih =>
    unfold createDirectories
    dsimp only
    split
    · exact ih ..
    · split
      · next stat hstat =>
        rw [if_pos (hp.metadata _ _ stat hstat)]
        exact ih ..
      · obtain ⟨s', hs'⟩ := hp.createDirectory s (underPath built segment)
        rw [hs']
        exact ih ..

theorem extractEntry_willing (hp : Willing p)
    {x : Extraction σ} (hname : enclosedName entry.name = some entry.name)
    (heach : ∀ n ∈ entry.declared, n ≤ maxEntryBytes)
    (htotal : x.totalBytes + entry.declared.getD 0 ≤ maxTotalBytes) :
    ∃ y, extractEntry p destination x entry = .ok y ∧
      y.totalBytes = x.totalBytes + entry.declared.getD 0 ∧
      y.extracted = x.extracted + entry.declared.toList.length := by
  unfold extractEntry
  rw [hname]
  dsimp only
  by_cases hdir : entry.isDir = true
  · obtain ⟨⟨known, s'⟩, hmade⟩ := createDirectories_willing hp []
      (Text.segments (targetIn destination (slashes entry.name))) x.known x.state
    rw [if_pos hdir, createDirectoryAllCached, hmade]
    exact ⟨_, rfl, by simp [ZipEntry.declared, hdir], by simp [ZipEntry.declared, hdir]⟩
  · have hdeclared : entry.declared = some entry.contents.length := if_neg hdir
    rw [hdeclared] at heach htotal ⊢
    rw [if_neg hdir, checkSize_ok.mpr ⟨heach _ rfl, htotal, rfl⟩]
    generalize targetIn destination (slashes entry.name) = target
    have hparents : ∃ r, createParents p target x.known x.state = .ok r := by
      unfold createParents
      split
      · exact createDirectories_willing hp ..
      · exact ⟨_, rfl⟩
    obtain ⟨⟨known, s'⟩, hparents⟩ := hparents
    obtain ⟨s'', hwrite⟩ := hp.writeFile s' target entry.contents
    refine ⟨⟨x.extracted + 1, x.totalBytes + entry.contents.length, known, s''⟩, ?_, rfl, rfl⟩
    refine try_ok_iff.mpr ⟨_, rfl, ?_⟩
    exact try_ok_iff.mpr ⟨_, hparents, try_ok_iff.mpr ⟨s'', hwrite, rfl⟩⟩

/-- Within the limits there is room for each entry after those before it. -/
theorem WithinLimits.room {done rest : Archive}
    (h : WithinLimits (archive.map (·.declared))) (hl : archive = done ++ entry :: rest) :
    (∀ n ∈ entry.declared, n ≤ maxEntryBytes) ∧
      (done.map (·.declared)).reduceOption.sum + entry.declared.getD 0 ≤ maxTotalBytes := by
  have hsplit : (archive.map (·.declared)).reduceOption =
      (done.map (·.declared)).reduceOption ++ entry.declared.toList ++
        (rest.map (·.declared)).reduceOption := by
    rw [hl, ← sizes_concat, ← reduceOption_append, ← map_append, append_assoc,
      singleton_append]
  refine ⟨fun n hn => h.each n (by simp [hsplit, Option.mem_def.mp hn]), ?_⟩
  have hall := h.total
  rw [hsplit, sum_append, sum_append, sum_toList] at hall
  omega

theorem accepted_of_withinLimits (hnames : ∀ e ∈ archive, enclosedName e.name = some e.name)
    (h : WithinLimits (archive.map (·.declared))) : Accepted archive := by
  intro σ p hp s
  unfold extractZipFrom
  rw [if_neg (by simpa using h.entries)]
  obtain ⟨x, hloop, -, hcount⟩ := foldlM_returns (f := extractEntry p ".") (fun done x =>
    x.totalBytes = (done.map (·.declared)).reduceOption.sum ∧
      x.extracted = (done.map (·.declared)).reduceOption.length)
    (b := ⟨0, 0, [], s⟩) (l := archive) ⟨rfl, rfl⟩ <| by
      intro done entry rest x hl hdone
      obtain ⟨heach, htotal⟩ := h.room hl
      rw [← hdone.1] at htotal
      obtain ⟨y, hstep, hbytes, hextracted⟩ :=
        extractEntry_willing hp (hnames entry (by simp [hl])) heach htotal
      rw [sizes_concat]
      refine ⟨y, hstep, ?_, ?_⟩
      · rw [hbytes, hdone.1, sum_append, sum_toList]
      · rw [hextracted, hdone.2, length_append]
  exact ⟨x.state, by rw [hloop, ← hcount]; rfl⟩

/-- A provider that only counts what it is asked to do. -/
def counter : Provider Nat where
  listDirectory _ _ := .ok []
  metadata _ path := .error (.notFound path)
  readFile _ path := .error (.notFound path)
  writeFile s _ _ := .ok (s + 1)
  createDirectory s _ := .ok (s + 1)
  delete s _ := .ok (s + 1)

theorem willing_counter : Willing counter where
  metadata := by
    intro _ _ _ h
    cases h
  createDirectory s _ := ⟨s + 1, rfl⟩
  writeFile s _ _ := ⟨s + 1, rfl⟩

/-- **An archive is accepted exactly if the working directory keeps within the limits**: at most 20
000 entries, no file above 2 GiB, no more than 8 GiB in all. -/
theorem backup_archive_accepted_iff {zip : ZipWriter} {p : Provider σ} {s : σ} {archive : Archive}
    (h : backupArchive zip p s = .ok archive) :
    Accepted archive ↔ WithinLimits (foundInRoot p s) := by
  obtain ⟨added, rfl, hsizes, hnames⟩ := added_backupArchive h
  rw [← hsizes]
  constructor
  · intro haccepted
    obtain ⟨s', hextract⟩ := haccepted Nat counter willing_counter 0
    exact withinLimits_of_extract hnames hextract
  · exact accepted_of_withinLimits hnames

/-! ## A working directory with one file -/

/-- A writer that takes files below 4 GiB, as the library does without its option for larger ones. -/
def zipWriter : ZipWriter where
  start archive name :=
    if archive.any (·.name = name) then some "Duplicate filename" else none
  writeAll contents :=
    if contents.length < 2 ^ 32 then none else some "Large file option has not been set"
  finish _ := none

def oneFile (contents : List UInt8) : FileTree where
  entries := [(["world.db"], .file contents)]
  keys := by simp
  names := by
    simp only [forall_mem_singleton]
    decide
  parents := by simp

theorem backupArchive_oneFile (contents : List UInt8) (h : contents.length < 2 ^ 32) :
    backupArchive zipWriter (treeProvider "/srv") (oneFile contents) =
      .ok [⟨"world.db", contents⟩] := by
  have hwrite : zipWriter.writeAll contents = none := if_pos h
  have hadd : addFile zipWriter [] "world.db" contents =
      .ok [⟨"world.db", contents⟩] := by
    have hstart : zipWriter.start [] "world.db" = none := rfl
    simp only [addFile, hstart, hwrite, nil_append]
  refine try_ok_iff.mpr ⟨_, rfl, try_ok_iff.mpr ⟨_, foldlM_cons_ok.mpr ⟨_, hadd, rfl⟩, rfl⟩⟩

theorem small_file_accepted :
    backupArchive zipWriter (treeProvider "/srv") (oneFile [1, 2, 3]) =
        .ok [⟨"world.db", [1, 2, 3]⟩] ∧ Accepted [⟨"world.db", [1, 2, 3]⟩] := by
  have hmade := backupArchive_oneFile [1, 2, 3] (by decide)
  refine ⟨hmade, (backup_archive_accepted_iff hmade).mpr ?_⟩
  change WithinLimits [some _]
  exact ⟨by simp [maxEntries], by simp [List.reduceOption, maxEntryBytes],
    by simp [List.reduceOption, maxTotalBytes]⟩

theorem not_accepted_of_large {contents : List UInt8} (h : maxEntryBytes < contents.length) :
    ¬ Accepted [⟨"world.db", contents⟩] := by
  intro haccepted
  obtain ⟨s', hextract⟩ := haccepted Nat counter willing_counter 0
  have hname : enclosedName "world.db" = some "world.db" := by decide
  have hlimits := withinLimits_of_extract (fun e he => by rwa [mem_singleton.mp he]) hextract
  have hmem : contents.length ∈ ([some contents.length] : List (Option Nat)).reduceOption := by
    simp [List.reduceOption]
  exact absurd (hlimits.each contents.length hmem) (Nat.not_le.mpr h)

/-- A file one byte above 2 GiB is archived, and the archive cannot be restored. -/
theorem large_file_refused :
    ∃ contents : List UInt8, contents.length = 2 * 1024 * 1024 * 1024 + 1 ∧
      ∃ archive, backupArchive zipWriter (treeProvider "/srv") (oneFile contents) =
        .ok archive ∧ ¬ Accepted archive := by
  obtain ⟨contents, hlength⟩ : ∃ contents : List UInt8, contents.length = maxEntryBytes + 1 :=
    ⟨List.replicate (maxEntryBytes + 1) 0, length_replicate⟩
  refine ⟨contents, hlength, _, backupArchive_oneFile contents ?_, not_accepted_of_large ?_⟩
  · rw [hlength]
    decide
  · rw [hlength]
    exact Nat.lt_succ_self _

end VibeSsh.Backups
