import VibeSsh.Backups.Archive

/-! # A provider of a tree without links

What the Local provider makes of a working directory that holds regular files and directories only:
a path is cut at slashes and at backslashes, and what is left names an entry. So an entry with a
backslash in its name is listed but cannot be reached. Errors of the system are reported without its
own words. -/

open List

namespace VibeSsh.Backups

open Lib Sandbox

namespace Tree

theorem isEntryName_of_mem_list {t : FileTree} {d : List Text} {e : Text × Item}
    (h : e ∈ t.list d) : IsEntryName e.1 :=
  FileTree.names_of_get (FileTree.mem_list.mp h) e.1 (by simp)

def listed (t : FileTree) (d : List Text) : List Listed :=
  (t.list d).attach.map fun e => ⟨e.1.1, e.1.2.isDir, false, isEntryName_of_mem_list e.2⟩

section

variable (root : Text)

/-- A resolved path, as the errors show it. -/
def shown (p : List Text) : Text := root ++ '/' :: pathText p

/-- `resolve`: the entry a path names, which is there or at least has a containing one. -/
def resolve (t : FileTree) (path : Text) : AppResult (List Text) := do
  let p ← relativeSegments path
  if (t.get p).isSome || (t.get p.dropLast).isSome then .ok p
  else .error (.invalidInput "the containing directory doesn't exist")

def listDirectory (t : FileTree) (path : Text) : AppResult (List Listed) := do
  let p ← resolve t path
  if t.get p = some .dir then .ok (listed t p)
  else .error (.internal ("couldn't list " ++ shown root p))

def metadata (t : FileTree) (path : Text) : AppResult Stat := do
  let p ← resolve t path
  match t.get p with
  | some item => .ok ⟨item.isDir, false⟩
  | none => .error (.notFound path)

def readFile (t : FileTree) (path : Text) : AppResult (List UInt8) := do
  let p ← resolve t path
  match t.get p with
  | some (.file contents) => .ok contents
  | _ => .error (.internal ("couldn't read " ++ shown root p))

def writeFile (t : FileTree) (path : Text) (contents : List UInt8) : AppResult FileTree := do
  let p ← resolve t path
  if h : t.Fits p (.file contents) then .ok (t.put p (.file contents) h)
  else .error (.internal ("couldn't write " ++ shown root p))

def createDirectory (t : FileTree) (path : Text) : AppResult FileTree := do
  let p ← resolve t path
  if h : t.get p = none ∧ t.Fits p .dir then .ok (t.put p .dir h.2)
  else .error (.internal ("couldn't create directory " ++ shown root p))

def delete (t : FileTree) (path : Text) : AppResult FileTree := do
  let p ← relativeSegments path
  if p = [] then .error (.invalidInput "refusing to delete the root itself")
  else if (t.get p.dropLast).isNone then
    .error (.invalidInput "the containing directory doesn't exist")
  else if (t.get p).isNone then .error (.notFound path)
  else .ok (t.remove p)

end

end Tree

def treeProvider (root : Text) : Provider FileTree where
  listDirectory := Tree.listDirectory root
  metadata := Tree.metadata
  readFile := Tree.readFile root
  writeFile := Tree.writeFile root
  createDirectory := Tree.createDirectory root
  delete := Tree.delete

/-! ## Paths without a backslash -/

/-- Names a path can reach. -/
def Plain (p : List Text) : Prop := ∀ n ∈ p, IsEntryName n ∧ '\\' ∉ n

variable {p : List Text}

theorem Plain.names (h : Plain p) : ∀ n ∈ p, IsEntryName n := fun n hn => (h n hn).1

theorem Plain.concat {n : Text} : Plain (p ++ [n]) ↔ Plain p ∧ IsEntryName n ∧ '\\' ∉ n := by
  unfold Plain
  rw [forall_mem_append, forall_mem_singleton]

theorem Plain.of_above {q : List Text} (hq : Plain q) (h : p <+: q) : Plain p :=
  fun n hn => hq n (h.subset hn)

theorem relativeSegments_pathText (h : Plain p) : relativeSegments (pathText p) = .ok p :=
  relativeSegments_join fun n hn => ⟨(h n hn).1.1, (h n hn).1.2, (h n hn).2⟩

theorem slashes_pathText (h : Plain p) : slashes (pathText p) = pathText p := by
  refine (map_congr_left fun c hc => ?_).trans (map_id _)
  refine if_neg fun heq => ?_
  rcases Text.mem_join hc with hc | ⟨n, hn, hc⟩
  · simp [heq] at hc
  · exact (h n hn).2 (heq ▸ hc)

/-! ## What the provider answers -/

section

variable {root : Text} {t : FileTree} {p : List Text}

section

variable (h : Plain p)
include h

theorem resolve_of_get (hget : (t.get p).isSome = true) : Tree.resolve t (pathText p) = .ok p := by
  unfold Tree.resolve
  rw [relativeSegments_pathText h]
  exact if_pos (by simp [hget])

theorem resolve_of_parent (hget : t.get p.dropLast = some .dir) :
    Tree.resolve t (pathText p) = .ok p := by
  unfold Tree.resolve
  rw [relativeSegments_pathText h]
  exact if_pos (by simp [hget])

theorem resolve_ok {q : List Text} (hq : Tree.resolve t (pathText p) = .ok q) : q = p := by
  obtain ⟨segments, hsegments, hq⟩ := try_ok_iff.mp hq
  rw [relativeSegments_pathText h] at hsegments
  cases hsegments
  split at hq
  · exact (Except.ok.inj hq).symm
  · cases hq

theorem metadata_pathText {item : Item} (hget : t.get p = some item) :
    Tree.metadata t (pathText p) = .ok ⟨item.isDir, false⟩ := by
  unfold Tree.metadata
  rw [resolve_of_get h (by simp [hget])]
  show (match t.get p with | some item => _ | none => _) = _
  rw [hget]

theorem metadata_ok {stat : Stat} (hstat : Tree.metadata t (pathText p) = .ok stat) :
    ∃ item, t.get p = some item ∧ stat = ⟨item.isDir, false⟩ := by
  obtain ⟨q, hq, hstat⟩ := try_ok_iff.mp hstat
  obtain rfl := resolve_ok h hq
  split at hstat
  · next item hitem => exact ⟨item, hitem, (Except.ok.inj hstat).symm⟩
  · cases hstat

theorem listDirectory_pathText (hget : t.get p = some .dir) :
    Tree.listDirectory root t (pathText p) = .ok (Tree.listed t p) := by
  unfold Tree.listDirectory
  rw [resolve_of_get h (by simp [hget])]
  exact if_pos hget

end

theorem listDirectory_dot : Tree.listDirectory root t "." = .ok (Tree.listed t []) := by
  unfold Tree.listDirectory Tree.resolve
  have hdot : relativeSegments "." = .ok [] := by decide
  rw [hdot]
  rfl

theorem readFile_pathText (h : Plain p) {contents : List UInt8}
    (hget : t.get p = some (.file contents)) :
    Tree.readFile root t (pathText p) = .ok contents := by
  unfold Tree.readFile
  rw [resolve_of_get h (by simp [hget])]
  show (match t.get p with | some (.file contents) => _ | _ => _) = _
  rw [hget]

/-- A file is written over a file, or where nothing is yet. -/
theorem writeFile_pathText (root : Text) (h : Plain p) (hp : p ≠ []) (contents : List UInt8)
    (hparent : t.get p.dropLast = some .dir) (hget : t.get p ≠ some .dir) :
    ∃ t', Tree.writeFile root t (pathText p) contents = .ok t' ∧
      ∀ q, t'.get q = if q = p then some (.file contents) else t.get q := by
  have hfits : t.Fits p (.file contents) := ⟨hp, h.names, hparent, fun hdir => absurd hdir hget⟩
  refine ⟨t.put p (.file contents) hfits, ?_, fun q => FileTree.get_put hfits q⟩
  unfold Tree.writeFile
  rw [resolve_of_parent h hparent]
  exact dif_pos hfits

theorem createDirectory_pathText (root : Text) (h : Plain p) (hp : p ≠ [])
    (hparent : t.get p.dropLast = some .dir) (hget : t.get p = none) :
    ∃ t', Tree.createDirectory root t (pathText p) = .ok t' ∧
      ∀ q, t'.get q = if q = p then some .dir else t.get q := by
  have hfits : t.Fits p .dir := ⟨hp, h.names, hparent, fun _ => rfl⟩
  refine ⟨t.put p .dir hfits, ?_, fun q => FileTree.get_put hfits q⟩
  unfold Tree.createDirectory
  rw [resolve_of_parent h hparent]
  exact dif_pos ⟨hget, hfits⟩

theorem delete_pathText (h : Plain p) (hp : p ≠ []) (hget : (t.get p).isSome = true) :
    Tree.delete t (pathText p) = .ok (t.remove p) := by
  obtain ⟨item, hitem⟩ := Option.isSome_iff_exists.mp hget
  unfold Tree.delete
  rw [relativeSegments_pathText h]
  show (if p = [] then _ else _) = _
  rw [if_neg hp, if_neg (by simp [FileTree.get_dropLast hp hitem]), if_neg (by simp [hitem])]

theorem mem_listed {d : List Text} {e : Listed} (h : e ∈ Tree.listed t d) :
    ∃ item, t.get (d ++ [e.name]) = some item ∧ e.isDir = item.isDir ∧ e.isSymlink = false := by
  obtain ⟨⟨⟨n, item⟩, hmem⟩, -, rfl⟩ := mem_map.mp h
  exact ⟨item, FileTree.mem_list.mp hmem, rfl, rfl⟩

theorem nodup_listed (t : FileTree) (d : List Text) : ((Tree.listed t d).map (·.name)).Nodup := by
  have hmap : (Tree.listed t d).map (·.name) = (t.list d).map (·.1) := by
    rw [Tree.listed, map_map]
    exact attach_map_val (f := fun e : Text × Item => e.1)
  exact hmap ▸ FileTree.nodup_list t d

end

end VibeSsh.Backups
