import VibeSsh.Lib.Posix.Tree

/-! # Trees of files and directories

A directory's contents by path: the names from the directory down, each leading to a directory or to
the bytes of a file. The root is a directory and is not listed. -/

open List

namespace Lib

/-- What a directory can hold: not empty, no separator, not a dot name, no zero byte. -/
abbrev IsEntryName (n : Text) : Prop := Posix.IsName n ∧ '\x00' ∉ n

inductive Item where
  | dir
  | file (contents : List UInt8)
  deriving DecidableEq

def Item.isDir : Item → Bool
  | .dir => true
  | .file _ => false

structure FileTree where
  entries : List (List Text × Item)
  keys : (entries.map (·.1)).Nodup
  names : ∀ e ∈ entries, e.1 ≠ [] ∧ ∀ n ∈ e.1, IsEntryName n
  parents : ∀ e ∈ entries, e.1.dropLast = [] ∨ (e.1.dropLast, Item.dir) ∈ entries

namespace FileTree

variable {t : FileTree} {p q d : List Text} {n : Text} {item : Item}

def get (t : FileTree) (p : List Text) : Option Item :=
  if p = [] then some .dir else t.entries.lookup p

/-- The names in a directory, with what they lead to. -/
def list (t : FileTree) (d : List Text) : List (Text × Item) :=
  t.entries.filterMap fun e => if e.1.dropLast = d then e.1.getLast?.map (·, e.2) else none

/-! ## What the invariant gives -/

@[simp] theorem get_nil (t : FileTree) : t.get [] = some .dir := rfl

theorem lookup_cons_item (entries : List (List Text × Item)) :
    ((p, item) :: entries).lookup q = if q = p then some item else entries.lookup q := by
  by_cases h : q = p
  · rw [if_pos h, h, lookup_cons_self]
  · rw [if_neg h, lookup_cons, beq_false_of_ne h]

theorem lookup_eq_some_iff {entries : List (List Text × Item)} (hkeys : (entries.map (·.1)).Nodup) :
    entries.lookup p = some item ↔ (p, item) ∈ entries := by
  induction entries with
  | nil => simp
  | cons e entries ih =>
    obtain ⟨q, item'⟩ := e
    rw [map_cons, nodup_cons] at hkeys
    rw [lookup_cons_item]
    by_cases h : p = q
    · subst h
      have hother : (p, item) ∉ entries := fun hmem =>
        hkeys.1 (mem_map.mpr ⟨(p, item), hmem, rfl⟩)
      simp [hother, eq_comm]
    · simp [h, ih hkeys.2]

theorem get_eq_some_iff (hp : p ≠ []) : t.get p = some item ↔ (p, item) ∈ t.entries := by
  rw [get, if_neg hp, lookup_eq_some_iff t.keys]

theorem names_of_get (h : t.get p = some item) : ∀ n ∈ p, IsEntryName n := by
  by_cases hp : p = []
  · simp [hp]
  · exact (t.names _ ((get_eq_some_iff hp).mp h)).2

theorem get_dropLast (hp : p ≠ []) (h : t.get p = some item) : t.get p.dropLast = some .dir := by
  rcases t.parents _ ((get_eq_some_iff hp).mp h) with hroot | hparent
  · rw [hroot]
    rfl
  · by_cases hnil : p.dropLast = []
    · rw [hnil]
      rfl
    · exact (get_eq_some_iff hnil).mpr hparent

/-- Everything above an entry is a directory. -/
theorem get_of_append (hq : q ≠ []) (h : t.get (p ++ q) = some item) : t.get p = some .dir := by
  induction q using List.reverseRecOn generalizing item with
  | nil => exact absurd rfl hq
  | append_singleton q n ih =>
    rw [← append_assoc] at h
    have hparent := get_dropLast (by simp) h
    rw [dropLast_concat] at hparent
    by_cases hnil : q = []
    · rwa [hnil, append_nil] at hparent
    · exact ih hnil hparent

theorem get_of_above (hp : p <+: q) (hne : p ≠ q) (h : t.get q = some item) :
    t.get p = some .dir := by
  obtain ⟨x, rfl⟩ := hp
  exact get_of_append (fun hx => hne (by rw [hx, append_nil])) h

theorem isSome_of_above (hp : p <+: q) (h : (t.get q).isSome = true) : (t.get p).isSome = true := by
  obtain ⟨item, hitem⟩ := Option.isSome_iff_exists.mp h
  by_cases hne : p = q
  · rwa [hne]
  · rw [get_of_above hp hne hitem]
    rfl

theorem get_below_eq_none (hp : p <+: q) (hne : p ≠ q) (h : t.get p ≠ some .dir) :
    t.get q = none := by
  cases hget : t.get q with
  | none => rfl
  | some item => exact absurd (get_of_above hp hne hget) h

theorem mem_list : (n, item) ∈ t.list d ↔ t.get (d ++ [n]) = some item := by
  rw [get_eq_some_iff (by simp), list, mem_filterMap]
  constructor
  · rintro ⟨⟨p, item'⟩, hmem, heq⟩
    split at heq
    · next hd =>
      obtain ⟨m, hlast, hpair⟩ := Option.map_eq_some_iff.mp heq
      obtain ⟨rfl, rfl⟩ := Prod.mk.inj hpair
      have hp := dropLast_append_getLast? m hlast
      rw [hd] at hp
      rwa [hp]
    · cases heq
  · intro hmem
    exact ⟨_, hmem, by simp⟩

theorem nodup_list (t : FileTree) (d : List Text) : ((t.list d).map (·.1)).Nodup := by
  have hsub : ∀ entries : List (List Text × Item),
      ((entries.filterMap fun e => if e.1.dropLast = d then e.1.getLast?.map (·, e.2) else none).map
        fun x => d ++ [x.1]).Sublist (entries.map (·.1)) := by
    intro entries
    induction entries with
    | nil => simp
    | cons e entries ih =>
      rw [map_cons, filterMap_cons]
      split
      · exact ih.cons _
      · next x heq =>
        split at heq
        · next hd =>
          obtain ⟨m, hlast, rfl⟩ := Option.map_eq_some_iff.mp heq
          have hp := dropLast_append_getLast? m hlast
          rw [hd] at hp
          rw [map_cons, hp]
          exact ih.cons_cons _
        · cases heq
  have hnodup := t.keys.sublist (hsub t.entries)
  have hmap : (t.list d).map (fun x => d ++ [x.1]) = ((t.list d).map (·.1)).map (d ++ [·]) := by
    rw [map_map]
    rfl
  exact (hmap ▸ hnodup).of_map

/-! ## Changing a tree -/

/-- Whether an entry may become `item`: its name is one, its parent is a directory, and a directory
stays one. -/
def Fits (t : FileTree) (p : List Text) (item : Item) : Prop :=
  p ≠ [] ∧ (∀ n ∈ p, IsEntryName n) ∧ t.get p.dropLast = some .dir ∧
    (t.get p = some .dir → item = .dir)

instance (t : FileTree) (p : List Text) (item : Item) : Decidable (t.Fits p item) :=
  inferInstanceAs (Decidable (_ ∧ _ ∧ _ ∧ (_ → _)))

theorem mem_parent_put (h : t.Fits p item) (hmem : d = [] ∨ (d, Item.dir) ∈ t.entries) :
    d = [] ∨ (d, Item.dir) ∈ (p, item) :: t.entries.filter (·.1 ≠ p) := by
  refine hmem.imp_right fun hmem => ?_
  by_cases hd : d = p
  · subst hd
    rw [h.2.2.2 ((get_eq_some_iff h.1).mpr hmem)]
    exact mem_cons_self
  · exact mem_cons_of_mem _ (mem_filter.mpr ⟨hmem, by simpa using hd⟩)

def put (t : FileTree) (p : List Text) (item : Item) (h : t.Fits p item) : FileTree where
  entries := (p, item) :: t.entries.filter (·.1 ≠ p)
  keys := by
    rw [map_cons, nodup_cons]
    refine ⟨fun hmem => ?_, t.keys.sublist (filter_sublist.map _)⟩
    obtain ⟨e, he, heq⟩ := mem_map.mp hmem
    simpa [heq] using (mem_filter.mp he).2
  names := by
    intro e he
    rcases mem_cons.mp he with rfl | he
    · exact ⟨h.1, h.2.1⟩
    · exact t.names e (mem_of_mem_filter he)
  parents := by
    intro e he
    refine mem_parent_put h ?_
    rcases mem_cons.mp he with rfl | he
    · by_cases hnil : p.dropLast = []
      · exact .inl hnil
      · exact .inr ((get_eq_some_iff hnil).mp h.2.2.1)
    · exact t.parents e (mem_of_mem_filter he)

theorem get_put (h : t.Fits p item) (q : List Text) :
    (t.put p item h).get q = if q = p then some item else t.get q := by
  have hlookup : ∀ entries : List (List Text × Item), q ≠ p →
      (entries.filter (·.1 ≠ p)).lookup q = entries.lookup q := by
    intro entries hne
    induction entries with
    | nil => rfl
    | cons e entries ih =>
      obtain ⟨r, item'⟩ := e
      rw [lookup_cons_item]
      by_cases hr : r = p
      · subst hr
        simpa [hne] using ih
      · rw [filter_cons, if_pos (by simpa using hr), lookup_cons_item, ih]
  unfold get put
  by_cases hq : q = []
  · subst hq
    simp [Ne.symm h.1]
  · by_cases hqp : q = p
    · simp [hqp, h.1]
    · rw [if_neg hq, if_neg hqp, if_neg hq, lookup_cons_item, if_neg hqp]
      exact hlookup t.entries hqp

/-- The tree without an entry and everything below it. -/
def remove (t : FileTree) (p : List Text) : FileTree where
  entries := t.entries.filter fun e => !p.isPrefixOf e.1
  keys := t.keys.sublist (filter_sublist.map _)
  names := fun e he => t.names e (mem_of_mem_filter he)
  parents := by
    intro e he
    obtain ⟨hmem, hkept⟩ := mem_filter.mp he
    refine (t.parents e hmem).imp_right fun hparent => mem_filter.mpr ⟨hparent, ?_⟩
    rw [Bool.not_eq_true', ← Bool.not_eq_true, isPrefixOf_iff_prefix] at hkept ⊢
    exact fun hbelow => hkept (hbelow.trans (List.dropLast_prefix e.1))

theorem get_remove (hp : p ≠ []) (q : List Text) :
    (t.remove p).get q = if p <+: q then none else t.get q := by
  have hlookup : ∀ entries : List (List Text × Item),
      (entries.filter fun e => !p.isPrefixOf e.1).lookup q =
        if p <+: q then none else entries.lookup q := by
    intro entries
    induction entries with
    | nil => simp
    | cons e entries ih =>
      obtain ⟨r, item'⟩ := e
      by_cases hr : p <+: r
      · have hkept : (!p.isPrefixOf r) = false := by simpa using hr
        rw [filter_cons, if_neg (by simp [hkept]), ih]
        by_cases hq : p <+: q
        · simp [hq]
        · have hne : q ≠ r := fun heq => hq (heq ▸ hr)
          rw [if_neg hq, if_neg hq, lookup_cons_item, if_neg hne]
      · have hkept : (!p.isPrefixOf r) = true := by
          rwa [Bool.not_eq_true', ← Bool.not_eq_true, isPrefixOf_iff_prefix]
        rw [filter_cons, if_pos hkept, lookup_cons_item, lookup_cons_item, ih]
        by_cases hqr : q = r
        · subst hqr
          simp [hr]
        · simp [hqr]
  unfold get remove
  by_cases hq : q = []
  · subst hq
    rw [if_pos rfl, if_neg (by simpa using hp), if_pos rfl]
  · rw [if_neg hq, if_neg hq]
    exact hlookup t.entries

end FileTree

/-! ## Paths as texts -/

/-- The names with slashes between them. -/
def pathText (p : List Text) : Text := Text.join ['/'] p

theorem pathText_concat {p : List Text} (hp : p ≠ []) (n : Text) :
    pathText (p ++ [n]) = pathText p ++ '/' :: n := by
  unfold pathText Text.join
  induction p with
  | nil => exact absurd rfl hp
  | cons a p ih =>
    cases p with
    | nil => simp [intercalate_cons_cons]
    | cons b p =>
      rw [cons_append, cons_append, intercalate_cons_cons, intercalate_cons_cons,
        ← cons_append, ih (by simp)]
      simp

theorem getLast?_pathText_concat (d : List Text) {n : Text} (hne : n ≠ []) :
    (pathText (d ++ [n])).getLast? = n.getLast? := by
  by_cases hd : d = []
  · subst hd
    simp [pathText, Text.join]
  · rw [pathText_concat hd, List.getLast?_append_of_ne_nil _ (by simp), List.getLast?_cons,
      List.getLast?_eq_some_getLast hne]
    rfl

section

variable {p : List Text} (hnames : ∀ n ∈ p, IsEntryName n)

include hnames

theorem splitOn_pathText (hp : p ≠ []) : (pathText p).splitOn '/' = p :=
  splitOn_intercalate '/' (fun n hn => (hnames n hn).1.2.1) hp

theorem segments_pathText : Text.segments (pathText p) = p := by
  by_cases hp : p = []
  · subst hp
    decide
  · rw [Text.segments, splitOn_pathText hnames hp, filter_eq_self]
    intro n hn
    simpa using (hnames n hn).1.1

theorem pathText_inj {q : List Text} (hq : ∀ n ∈ q, IsEntryName n) (h : pathText p = pathText q) :
    p = q := by
  rw [← segments_pathText hnames, h, segments_pathText hq]

theorem pathText_ne_nil (hp : p ≠ []) : pathText p ≠ [] := by
  intro h
  have hsplit := splitOn_pathText hnames hp
  rw [h, splitOn_nil] at hsplit
  exact (hnames [] (by simp [← hsplit])).1.1 rfl

theorem trimEndMatches_pathText : Text.trimEndMatches '/' (pathText p) = pathText p := by
  rcases eq_nil_or_concat p with rfl | ⟨d, n, rfl⟩
  · decide
  rw [concat_eq_append] at hnames ⊢
  obtain ⟨⟨hne, hslash, -⟩, -⟩ := hnames n (by simp)
  rw [Text.trimEndMatches, rdropWhile_eq_self_iff]
  intro htext hlast
  have hend := getLast?_pathText_concat d hne
  rw [List.getLast?_eq_some_getLast htext, beq_iff_eq.mp hlast] at hend
  exact hslash (mem_of_getLast? hend.symm)

end

end Lib
