import VibeSsh.Lib.Text

/-! # File trees

A file tree maps canonical paths, the names from the root down, to directories, regular files and
symbolic links. `mine` says whether the account at hand may change a file or the entries of a
directory. -/

open List

namespace Lib.Posix

abbrev Path := List Text

structure Attr where
  mode : Nat
  mine : Bool
  deriving DecidableEq

inductive Node where
  | dir (attr : Attr)
  | file (contents : Text) (attr : Attr)
  | link (target : Text)
  deriving DecidableEq

def Node.isDir : Node → Bool
  | .dir _ => true
  | _ => false

def Node.isLink : Node → Bool
  | .link _ => true
  | _ => false

theorem Node.isLink_eq_false {node : Node} (h : ∀ target, node = .link target → False) :
    node.isLink = false := by
  cases node with
  | dir attr => rfl
  | file contents attr => rfl
  | link target => exact absurd rfl (h target)

def Node.withMode (mode : Nat) : Node → Node
  | .dir attr => .dir { attr with mode }
  | .file contents attr => .file contents { attr with mode }
  | .link target => .link target

/-- A name a directory can hold. -/
abbrev IsName (n : Text) : Prop := n ≠ [] ∧ '/' ∉ n ∧ n ≠ ['.'] ∧ n ≠ ['.', '.']

/-- Every entry lies in a directory, and the root is one. -/
structure Fs where
  entries : List (Path × Node)
  root : (entries.lookup []).any Node.isDir = true
  parents : ∀ p n, (entries.lookup (p ++ [n])).isSome = true →
    (entries.lookup p).any Node.isDir = true
  names : ∀ p, (entries.lookup p).isSome = true → ∀ n ∈ p, IsName n

namespace Fs

def get (fs : Fs) (p : Path) : Option Node := fs.entries.lookup p

def isDir (fs : Fs) (p : Path) : Bool := (fs.get p).any Node.isDir

def mine (fs : Fs) (p : Path) : Bool :=
  match fs.get p with
  | some (.dir attr) => attr.mine
  | some (.file _ attr) => attr.mine
  | _ => false

/-! ## Trees given by their entries -/

/-- What has to be checked of a list of entries. -/
def wellFormed (entries : List (Path × Node)) : Bool :=
  (entries.lookup []).any Node.isDir &&
  entries.all fun e =>
    (e.1.isEmpty || (entries.lookup e.1.dropLast).any Node.isDir) &&
    e.1.all fun n => decide (IsName n)

theorem wellFormed_entry {entries : List (Path × Node)} (h : wellFormed entries = true) {p : Path}
    (hp : (entries.lookup p).isSome = true) :
    (p = [] ∨ (entries.lookup p.dropLast).any Node.isDir = true) ∧ ∀ n ∈ p, IsName n := by
  obtain ⟨e, he, heq⟩ := lookup_isSome_iff.mp hp
  obtain rfl := eq_of_beq heq
  have hentry := all_eq_true.mp (Bool.and_eq_true_iff.mp h).2 e he
  simpa [all_eq_true] using hentry

def ofEntries (entries : List (Path × Node)) (h : wellFormed entries = true) : Fs where
  entries := entries
  root := (Bool.and_eq_true_iff.mp h).1
  parents := fun p n hp => by simpa using (wellFormed_entry h hp).1
  names := fun _ hp => (wellFormed_entry h hp).2

/-! ## What the invariant gives -/

variable {fs : Fs} {p q : Path} {n : Text}

theorem isDir_nil (fs : Fs) : fs.isDir [] = true := fs.root

theorem isDir_parent (h : (fs.get (p ++ [n])).isSome = true) : fs.isDir p = true :=
  fs.parents p n h

theorem get_isSome_of_isDir (h : fs.isDir p = true) : (fs.get p).isSome = true := by
  unfold isDir at h
  cases hget : fs.get p with
  | none => simp [hget] at h
  | some node => rfl

/-- Everything above an entry is a directory. -/
theorem isDir_of_append (h : (fs.get (p ++ n :: q)).isSome = true) : fs.isDir p = true := by
  induction q using List.reverseRecOn with
  | nil => exact isDir_parent h
  | append_singleton q m ih =>
    rw [← cons_append, ← append_assoc] at h
    exact ih (get_isSome_of_isDir (isDir_parent h))

/-! ## Changing one entry -/

/-- Whether an entry may become `node`: its parent is a directory, and a directory stays one. -/
def Fits (fs : Fs) (p : Path) (node : Node) : Prop :=
  (p = [] ∨ fs.isDir p.dropLast = true ∧ (p.getLast?.all fun n => decide (IsName n)) = true) ∧
    (fs.isDir p = true → node.isDir = true)

instance (fs : Fs) (p : Path) (node : Node) : Decidable (fs.Fits p node) :=
  inferInstanceAs (Decidable ((_ ∨ _ ∧ _) ∧ (_ → _)))

theorem fits_of_get {old node : Node} (hget : fs.get p = some old)
    (hdir : old.isDir = true → node.isDir = true) : fs.Fits p node := by
  refine ⟨?_, fun h => hdir ?_⟩
  · rcases eq_nil_or_concat p with rfl | ⟨d, n, rfl⟩
    · exact .inl rfl
    · refine .inr ?_
      have hsome : (fs.get (d ++ [n])).isSome = true := by simp [← concat_eq_append, hget]
      simpa using ⟨isDir_parent hsome, fs.names _ hsome n (by simp)⟩
  · simpa [isDir, hget] using h

theorem lookup_cons_entry (entries : List (Path × Node)) (node : Node) :
    ((p, node) :: entries).lookup q = if q = p then some node else entries.lookup q := by
  by_cases h : q = p
  · rw [if_pos h, h, lookup_cons_self]
  · rw [if_neg h, lookup_cons, beq_false_of_ne h]

def set (fs : Fs) (p : Path) (node : Node) (h : fs.Fits p node) : Fs where
  entries := (p, node) :: fs.entries
  root := by
    rw [lookup_cons_entry]
    split
    · next hp =>
      rw [← hp] at h
      exact h.2 fs.isDir_nil
    · exact fs.root
  parents := by
    intro d n hsome
    rw [lookup_cons_entry] at hsome ⊢
    have hdir : fs.isDir d = true := by
      split at hsome
      · next hp =>
        rcases h.1 with hnil | ⟨hparent, -⟩
        · rw [hnil] at hp
          simp at hp
        · rwa [← hp, dropLast_concat] at hparent
      · exact fs.parents d n hsome
    split
    · next hd =>
      rw [hd] at hdir
      exact h.2 hdir
    · exact hdir
  names := by
    intro q hsome m hm
    rw [lookup_cons_entry] at hsome
    split at hsome
    · next hq =>
      subst hq
      rcases h.1 with rfl | ⟨hparent, hname⟩
      · cases hm
      · rcases eq_nil_or_concat q with rfl | ⟨d, n, rfl⟩
        · cases hm
        · rw [concat_eq_append] at hparent hname hm
          rw [dropLast_concat] at hparent
          rcases mem_append.mp hm with hm | hm
          · exact fs.names d (get_isSome_of_isDir hparent) m hm
          · rw [mem_singleton.mp hm]
            simpa using hname
    · exact fs.names q hsome m hm

@[simp] theorem get_set {node : Node} (h : fs.Fits p node) :
    (fs.set p node h).get q = if q = p then some node else fs.get q :=
  lookup_cons_entry fs.entries node

/-! ## Changing an entry -/

/-- The entry changed as far as the tree allows it. -/
def put (fs : Fs) (p : Path) (node : Node) : Option Fs :=
  if h : fs.Fits p node then some (fs.set p node h) else none

def putAt (fs : Fs) (change : Option (Path × Node)) : Option Fs :=
  change.bind fun e => fs.put e.1 e.2

theorem putAt_some {fs : Fs} {e : Path × Node} (hfits : fs.Fits e.1 e.2) :
    ∃ fs', fs.putAt (some e) = some fs' ∧
      ∀ q, fs'.get q = if q = e.1 then some e.2 else fs.get q := by
  rw [putAt, Option.bind_some, put, dif_pos hfits]
  exact ⟨_, rfl, fun q => get_set hfits⟩

/-- Whether everything at and below an entry can be taken out of its directory. -/
def removable (fs : Fs) (p : Path) : Bool :=
  fs.entries.all fun e => !p.isPrefixOf e.1 || fs.mine e.1.dropLast

theorem lookup_filter_path (entries : List (Path × Node)) (keep : Path → Bool) (q : Path) :
    (entries.filter fun e => keep e.1).lookup q = if keep q then entries.lookup q else none := by
  induction entries with
  | nil => simp
  | cons e entries ih =>
    obtain ⟨p, node⟩ := e
    rw [lookup_cons_entry, filter_cons]
    by_cases hq : q = p
    · subst hq
      by_cases hkeep : keep q = true
      · simp [hkeep]
      · simp [hkeep, ih]
    · by_cases hkeep : keep p = true
      · rw [if_pos hkeep, lookup_cons_entry, if_neg hq, if_neg hq, ih]
      · rw [if_neg hkeep, if_neg hq, ih]

/-- Whether `rm -rf p` leaves the entry `q`. -/
def kept (fs : Fs) (p q : Path) : Bool := !(p.isPrefixOf q && fs.removable q)

theorem kept_parent {fs : Fs} {p d : Path} {n : Text} (h : fs.kept p (d ++ [n]) = true) :
    fs.kept p d = true := by
  unfold kept at *
  rw [Bool.not_eq_true', Bool.and_eq_false_iff] at *
  by_contra hgone
  obtain ⟨hbelow, hremovable⟩ : p.isPrefixOf d = true ∧ fs.removable d = true := by
    simpa using hgone
  rcases h with h | h
  · have : p <+: d ++ [n] := (List.isPrefixOf_iff_prefix.mp hbelow).trans (prefix_append ..)
    rw [List.isPrefixOf_iff_prefix.mpr this] at h
    cases h
  · have hall : fs.removable (d ++ [n]) = true := by
      refine all_eq_true.mpr fun e he => ?_
      have hd := all_eq_true.mp hremovable e he
      by_cases hbelow : (d ++ [n]).isPrefixOf e.1 = true
      · have : d <+: e.1 := (prefix_append ..).trans (List.isPrefixOf_iff_prefix.mp hbelow)
        simpa [List.isPrefixOf_iff_prefix.mpr this, hbelow] using hd
      · simp [hbelow]
    rw [hall] at h
    cases h

/-- The tree `rm -rf` leaves: whatever can be removed at and below `p` is gone. -/
def removeTree (fs : Fs) (p : Path) (hp : p ≠ []) : Fs where
  entries := fs.entries.filter fun e => fs.kept p e.1
  root := by
    rw [lookup_filter_path]
    have hkept : fs.kept p [] = true := by
      cases p with
      | nil => exact absurd rfl hp
      | cons n p => rfl
    rw [if_pos hkept]
    exact fs.root
  parents := by
    intro d n h
    rw [lookup_filter_path] at h ⊢
    split at h
    · next hkept =>
      rw [if_pos (kept_parent hkept)]
      exact fs.parents d n h
    · cases h
  names := by
    intro q h
    rw [lookup_filter_path] at h
    split at h
    · exact fs.names q h
    · cases h

end Fs

end Lib.Posix
