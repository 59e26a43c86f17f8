import VibeSsh.Lib.Posix.Tree

/-! # Walking a path

A path given as text is walked the way the kernel does: component by component, following each link
it meets, up to a number of links. The last name of a path may be missing, which is what `open` with
`O_CREAT` makes use of. -/

namespace Lib.Posix
open List

/-- Where a walk ends: at an entry that is no link, at a missing last name, or nowhere. -/
inductive Walk where
  | found (p : Path)
  | absent (d : Path) (n : Text)
  | failed
  deriving DecidableEq

def Walk.place : Walk → Option Path
  | .found p => some p
  | .absent d n => some (d ++ [n])
  | .failed => none

/-- One walk up to the first link, which `follow` takes over. -/
def walkWith (fs : Fs) (follow : Path → List Text → Walk) : Path → List Text → Walk
  | cur, [] => .found cur
  | cur, n :: rest =>
    if !fs.isDir cur then .failed
    else if n = [] ∨ n = ['.'] then walkWith fs follow cur rest
    else if n = ['.', '.'] then walkWith fs follow cur.dropLast rest
    else match fs.get (cur ++ [n]) with
      | none => if rest.isEmpty then .absent cur n else .failed
      | some (.link target) =>
        if target.isEmpty then .failed
        else follow (if target.head? = some '/' then [] else cur) (target.splitOn '/' ++ rest)
      | some _ => walkWith fs follow (cur ++ [n]) rest

/-- How many links Linux follows in one path. -/
def maxLinks : Nat := 40

/-- A walk that follows at most `limit` links. -/
def walk (fs : Fs) : Nat → Path → List Text → Walk
  | 0 => walkWith fs fun _ _ => .failed
  | limit + 1 => walkWith fs (walk fs limit)

/-- The path `t`, seen from the directory `cwd`. -/
def resolve (fs : Fs) (limit : Nat) (cwd : Path) (t : Text) : Walk :=
  if t.isEmpty then .failed
  else walk fs limit (if t.head? = some '/' then [] else cwd) (t.splitOn '/')

/-- An entry that is no link: a place where walks end. -/
def Settled (fs : Fs) (p : Path) : Prop := ∃ node, fs.get p = some node ∧ node.isLink = false

/-- A name that could be created. -/
def Missing (fs : Fs) (d : Path) (n : Text) : Prop :=
  fs.isDir d = true ∧ fs.get (d ++ [n]) = none ∧ IsName n

/-- What is known of a walk's end. -/
def Ends (fs : Fs) : Walk → Prop
  | .found p => Settled fs p
  | .absent d n => Missing fs d n
  | .failed => True

section

variable {fs : Fs} {follow : Path → List Text → Walk} {cur : Path} {n : Text}
  {comps rest : List Text}

theorem settled_of_isDir {p : Path} (h : fs.isDir p = true) : Settled fs p := by
  unfold Fs.isDir at h
  match hget : fs.get p with
  | none => simp [hget] at h
  | some (.dir attr) => exact ⟨.dir attr, hget, rfl⟩
  | some (.file contents attr) => simp [hget, Node.isDir] at h
  | some (.link target) => simp [hget, Node.isDir] at h

theorem settled_dropLast (h : fs.isDir cur = true) : Settled fs cur.dropLast := by
  rcases eq_nil_or_concat cur with rfl | ⟨d, n, rfl⟩
  · exact settled_of_isDir fs.isDir_nil
  · rw [concat_eq_append] at h ⊢
    rw [dropLast_concat]
    exact settled_of_isDir (Fs.isDir_parent (Fs.get_isSome_of_isDir h))

/-! One step of a walk, by the component it takes. -/

theorem walkWith_skip (hdir : fs.isDir cur = true) (hn : n = [] ∨ n = ['.']) :
    walkWith fs follow cur (n :: rest) = walkWith fs follow cur rest := by
  rw [walkWith, if_neg (by simp [hdir]), if_pos hn]

/-- A component that is looked up. -/
def IsLookedUp (n : Text) : Prop := ¬(n = [] ∨ n = ['.']) ∧ n ≠ ['.', '.']

theorem IsName.isLookedUp (h : IsName n) : IsLookedUp n :=
  ⟨not_or.mpr ⟨h.1, h.2.2.1⟩, h.2.2.2⟩

theorem walkWith_down (hdir : fs.isDir cur = true) (hn : IsLookedUp n) {node : Node}
    (hget : fs.get (cur ++ [n]) = some node) (hlink : node.isLink = false) :
    walkWith fs follow cur (n :: rest) = walkWith fs follow (cur ++ [n]) rest := by
  rw [walkWith, if_neg (by simp [hdir]), if_neg hn.1, if_neg hn.2, hget]
  cases node with
  | link target => cases hlink
  | dir attr => rfl
  | file contents attr => rfl

theorem walkWith_link (hdir : fs.isDir cur = true) (hn : IsLookedUp n) {target : Text}
    (hget : fs.get (cur ++ [n]) = some (.link target)) (hne : ¬target.isEmpty = true) :
    walkWith fs follow cur (n :: rest) =
      follow (if target.head? = some '/' then [] else cur) (target.splitOn '/' ++ rest) := by
  rw [walkWith, if_neg (by simp [hdir]), if_neg hn.1, if_neg hn.2, hget]
  exact if_neg hne

theorem walkWith_absent (hdir : fs.isDir cur = true) (hn : IsLookedUp n)
    (hget : fs.get (cur ++ [n]) = none) : walkWith fs follow cur [n] = .absent cur n := by
  rw [walkWith, if_neg (by simp [hdir]), if_neg hn.1, if_neg hn.2, hget]
  rfl

theorem walkWith_ends
    (hfollow : ∀ cur comps, Settled fs cur → (∀ c ∈ comps, '/' ∉ c) → Ends fs (follow cur comps))
    (hcur : Settled fs cur) (hcomps : ∀ c ∈ comps, '/' ∉ c) :
    Ends fs (walkWith fs follow cur comps) := by
  fun_induction walkWith fs follow cur comps with
  | case1 => exact hcur
  | case2 | case6 | case7 => exact trivial
  | case3 cur n rest hdir hn ih =>
    exact ih hcur fun c hc => hcomps c (mem_cons_of_mem n hc)
  | case4 cur rest hdir hn ih =>
    exact ih (settled_dropLast (by simpa using hdir)) fun c hc =>
      hcomps c (mem_cons_of_mem _ hc)
  | case5 cur n rest hdir hn hn' hget hrest =>
    exact ⟨by simpa using hdir, hget, fun h => hn (.inl h), hcomps n (mem_cons_self ..),
      fun h => hn (.inr h), hn'⟩
  | case8 cur n rest hdir hn hn' target hget hne =>
    refine hfollow _ _ ?_ fun c hc => ?_
    · split
      · exact settled_of_isDir fs.isDir_nil
      · exact hcur
    · rcases mem_append.mp hc with hc | hc
      · exact Text.not_mem_of_mem_splitOn hc
      · exact hcomps c (mem_cons_of_mem n hc)
  | case9 cur n rest hdir hn hn' node hnotlink hget ih =>
    exact ih ⟨node, hget, Node.isLink_eq_false hnotlink⟩ fun c hc =>
      hcomps c (mem_cons_of_mem n hc)

theorem walk_ends (limit : Nat) (hcur : Settled fs cur) (hcomps : ∀ c ∈ comps, '/' ∉ c) :
    Ends fs (walk fs limit cur comps) := by
  induction limit generalizing cur comps with
  | zero => exact walkWith_ends (fun _ _ _ _ => trivial) hcur hcomps
  | succ limit ih => exact walkWith_ends (fun _ _ => ih) hcur hcomps

theorem resolve_ends {limit : Nat} {cwd : Path} (hcwd : fs.isDir cwd = true) (t : Text) :
    Ends fs (resolve fs limit cwd t) := by
  unfold resolve
  split
  · exact trivial
  · refine walk_ends limit ?_ fun c hc => Text.not_mem_of_mem_splitOn hc
    split
    · exact settled_of_isDir fs.isDir_nil
    · exact settled_of_isDir hcwd

/-- Walking down to an entry that is there. -/
theorem walkWith_append {d p : Path} (h : Settled fs (d ++ p)) :
    walkWith fs follow d (p ++ rest) = walkWith fs follow (d ++ p) rest := by
  induction p generalizing d with
  | nil => simp
  | cons n p ih =>
    obtain ⟨node, hget, hlink⟩ := h
    have hsome : (fs.get (d ++ n :: p)).isSome = true := by simp [hget]
    have hname : IsName n := fs.names _ hsome n (by simp)
    have hnext : Settled fs (d ++ [n]) := by
      cases p with
      | nil => exact ⟨node, hget, hlink⟩
      | cons m p =>
        rw [← singleton_append, ← append_assoc] at hsome
        exact settled_of_isDir (Fs.isDir_of_append hsome)
    obtain ⟨nextNode, hnextGet, hnextLink⟩ := hnext
    have hih := @ih (d ++ [n]) ⟨node, by simpa using hget, hlink⟩
    rw [cons_append,
      walkWith_down (Fs.isDir_of_append hsome) hname.isLookedUp hnextGet hnextLink]
    simpa using hih

end

/-! ## Canonical paths as text -/

/-- A canonical path written out. -/
def render (p : Path) : Text := '/' :: Text.join ['/'] p

variable {p cwd d : Path} {fs : Fs} {limit : Nat} {n : Text}

theorem splitOn_render (h : ∀ n ∈ p, '/' ∉ n) :
    (render p).splitOn '/' = [] :: if p.isEmpty then [[]] else p := by
  have hcut := @splitOn_append_cons_self Char _ _ '/' [] (Text.join ['/'] p)
  rw [nil_append] at hcut
  rw [render, hcut]
  cases p with
  | nil => rfl
  | cons n p =>
    rw [Text.join, splitOn_intercalate '/' h (by simp)]
    rfl

/-- A canonical path without the slash the root is written with. -/
def spelled (p : Path) : Text := p.flatMap ('/' :: ·)

theorem render_eq_spelled (h : p ≠ []) : render p = spelled p := by
  obtain ⟨n, p, rfl⟩ := exists_cons_of_ne_nil h
  clear h
  induction p generalizing n with
  | nil => simp [render, spelled, Text.join]
  | cons m p ih =>
    have hm := ih m
    unfold render spelled Text.join at *
    rw [intercalate_cons_cons, flatMap_cons, ← hm]
    simp

theorem splitOn_spelled (h : ∀ n ∈ p, '/' ∉ n) : (spelled p).splitOn '/' = [] :: p := by
  cases p with
  | nil => rfl
  | cons n p =>
    rw [← render_eq_spelled (by simp), splitOn_render h]
    rfl

section

variable {fs : Fs} {limit : Nat} {cwd d p : Path} {n : Text} {rest : List Text}

theorem walk_eq_walkWith (fs : Fs) (limit : Nat) :
    ∃ follow, walk fs limit = walkWith fs follow := by
  cases limit with
  | zero => exact ⟨_, rfl⟩
  | succ limit => exact ⟨_, rfl⟩

theorem noSlash_of_settled (h : Settled fs p) : ∀ n ∈ p, '/' ∉ n := by
  obtain ⟨node, hget, -⟩ := h
  have hsome : (fs.get p).isSome = true := by simp [hget]
  exact fun n hn => (fs.names p hsome n hn).2.1

/-- The empty component before a path's first slash. -/
theorem walkWith_root (fs : Fs) (follow : Path → List Text → Walk) (comps : List Text) :
    walkWith fs follow [] ([] :: comps) = walkWith fs follow [] comps :=
  walkWith_skip fs.isDir_nil (.inl rfl)

/-- A canonical path is walked without a link down to the entries that are there. -/
theorem resolve_render_append (hd : Settled fs d) (hrest : ∀ n ∈ rest, '/' ∉ n)
    (hne : rest ≠ []) : resolve fs limit cwd (render (d ++ rest)) = walk fs limit d rest := by
  have hslash : ∀ n ∈ d ++ rest, '/' ∉ n := fun n hn =>
    (mem_append.mp hn).elim (noSlash_of_settled hd n) (hrest n)
  have hsplit : (render (d ++ rest)).splitOn '/' = [] :: (d ++ rest) := by
    rw [splitOn_render hslash]
    simp [hne]
  obtain ⟨follow, hwalk⟩ := walk_eq_walkWith fs limit
  have hdown := @walkWith_append fs follow rest [] d hd
  rw [resolve, if_neg (by simp [render]), if_pos (by simp [render]), hsplit, hwalk, walkWith_root,
    hdown, nil_append]

theorem resolve_render (h : Settled fs p) : resolve fs limit cwd (render p) = .found p := by
  obtain ⟨follow, hwalk⟩ := walk_eq_walkWith fs limit
  rcases eq_nil_or_concat p with rfl | ⟨d, n, rfl⟩
  · have hsplit : (render []).splitOn '/' = [[], []] := by decide
    rw [resolve, hsplit, hwalk]
    simp [render, walkWith, fs.isDir_nil]
  · rw [concat_eq_append] at h ⊢
    obtain ⟨node, hget, hlink⟩ := h
    have hsome : (fs.get (d ++ [n])).isSome = true := by simp [hget]
    have hd := settled_of_isDir (Fs.isDir_parent hsome)
    have hn : ∀ m ∈ [n], '/' ∉ m := fun m hm =>
      noSlash_of_settled ⟨node, hget, hlink⟩ m (mem_append_right d hm)
    have hlast := @walkWith_append fs follow [] d [n] ⟨node, hget, hlink⟩
    rw [resolve_render_append hd hn (by simp), hwalk]
    rw [append_nil] at hlast
    rw [hlast, walkWith]

theorem walk_missing (h : Missing fs d n) : walk fs limit d [n] = .absent d n := by
  obtain ⟨follow, hwalk⟩ := walk_eq_walkWith fs limit
  rw [hwalk, walkWith_absent h.1 h.2.2.isLookedUp h.2.1]

theorem walk_of_not_isDir (hdir : fs.isDir d = false) : walk fs limit d [n] = .failed := by
  obtain ⟨follow, hwalk⟩ := walk_eq_walkWith fs limit
  rw [hwalk, walkWith, hdir]
  rfl

theorem walk_below_missing (h : Missing fs d n) (hne : rest ≠ []) :
    walk fs limit d (n :: rest) = .failed := by
  obtain ⟨follow, hwalk⟩ := walk_eq_walkWith fs limit
  obtain ⟨hdir, hget, hempty, -, hdot, hdots⟩ := h
  rw [hwalk, walkWith, hdir]
  simp [hempty, hdot, hdots, hget, hne]

end

/-! ## The entry itself -/

/-- The entry a path names, without following it if it is a link. -/
def entry (fs : Fs) (limit : Nat) (cwd : Path) (t : Text) : Walk :=
  let n := (t.splitOn '/').getLast?.getD []
  if IsName n then
    match walk fs limit (if t.head? = some '/' then [] else cwd) (t.splitOn '/').dropLast with
    | .found d =>
      if !fs.isDir d then .failed
      else match fs.get (d ++ [n]) with
        | none => .absent d n
        | some _ => .found (d ++ [n])
    | _ => .failed
  else resolve fs limit cwd t

theorem missing_of_entry {t : Text}
    (hcwd : fs.isDir cwd = true) (h : entry fs limit cwd t = .absent d n) : Missing fs d n := by
  unfold entry at h
  dsimp only at h
  split at h
  · next hname =>
    split at h
    · next parent _ =>
      split at h
      · cases h
      next hdir =>
      split at h
      · next hget =>
        cases h
        exact ⟨by simpa using hdir, hget, hname⟩
      · cases h
    · cases h
  · have hends := @resolve_ends fs limit cwd hcwd t
    rw [h] at hends
    exact hends

theorem entry_render (hd : Settled fs d)
    (hname : IsName n) : entry fs limit cwd (render (d ++ [n])) =
      if !fs.isDir d then .failed
      else match fs.get (d ++ [n]) with
        | none => .absent d n
        | some _ => .found (d ++ [n]) := by
  have hslash : ∀ m ∈ d ++ [n], '/' ∉ m := fun m hm => by
    rcases mem_append.mp hm with hm | hm
    · exact noSlash_of_settled hd m hm
    · rw [mem_singleton.mp hm]
      exact hname.2.1
  have hsplit : (render (d ++ [n])).splitOn '/' = [] :: d ++ [n] := by
    rw [splitOn_render hslash]
    simp
  obtain ⟨follow, hwalk⟩ := walk_eq_walkWith fs limit
  have hdown := @walkWith_append fs follow [] [] d hd
  have hroot : walkWith fs follow [] ([] :: d) = .found d := by
    rw [append_nil] at hdown
    rw [walkWith_root, hdown, walkWith, nil_append]
  have hhead : (render (d ++ [n])).head? = some '/' := rfl
  simp only [entry, hsplit, dropLast_concat, List.getLast?_concat, Option.getD_some, hhead,
    if_true, hwalk, hroot]
  rw [if_pos hname]

theorem entry_below_missing {m : Text} (h : Missing fs d m) (hname : IsName n) :
    entry fs limit cwd (render (d ++ [m, n])) = .failed := by
  have hd := settled_of_isDir h.1
  have hslash : ∀ x ∈ d ++ [m, n], '/' ∉ x := fun x hx => by
    rcases mem_append.mp hx with hx | hx
    · exact noSlash_of_settled hd x hx
    · rcases mem_cons.mp hx with rfl | hx
      · exact h.2.2.2.1
      · rw [mem_singleton.mp hx]
        exact hname.2.1
  have hsplit : (render (d ++ [m, n])).splitOn '/' = ([] :: d ++ [m]) ++ [n] := by
    rw [splitOn_render hslash]
    simp
  have hmissing := @walk_missing fs limit d m h
  obtain ⟨follow, hwalk⟩ := walk_eq_walkWith fs limit
  have hdown := @walkWith_append fs follow [m] [] d hd
  have hroot : walkWith fs follow [] ([] :: d ++ [m]) = .absent d m := by
    rw [hwalk] at hmissing
    rw [cons_append, walkWith_root, hdown, nil_append, hmissing]
  have hhead : (render (d ++ [m, n])).head? = some '/' := rfl
  simp only [entry, hsplit, dropLast_concat, List.getLast?_concat, Option.getD_some, hhead,
    if_true, hwalk, hroot]
  rw [if_pos hname]

/-! ## Walks to a file -/

section

variable {fs fs' : Fs} {p q : Path} {node : Node}

end

end Lib.Posix
