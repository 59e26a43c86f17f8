import VibeSsh.Files.Providers

/-! # Where a provider's writes end up

The path a provider has resolved is checked against the root; what is opened is whatever that path
leads to. The two differ when the resolved path ends in a link, which happens when resolving the
whole path failed and only the directory was resolved. -/

open List

namespace VibeSsh.Files

open Lib Lib.Posix Sandbox

/-- A path a provider may come up with: an entry that is no link, or a name in a place without
links, or a name below a missing one. -/
def Located (fs : Fs) (c : Path) : Prop :=
  Settled fs c ∨ (∃ d n, c = d ++ [n] ∧ Settled fs d ∧ IsName n) ∨
    ∃ d m n, c = d ++ [m, n] ∧ Missing fs d m ∧ IsName n

variable {host : Host} {p c root : Path} {op : Op} {refused : Text → Op → AppError}

variable {t : Text}

theorem settled_of_canonicalize (h : Local.canonicalize host t = some p) : Settled host.fs p := by
  unfold Local.canonicalize at h
  split at h
  · next found hresolve =>
    obtain rfl := Option.some.inj h
    have hends := @resolve_ends host.fs maxLinks host.cwd host.cwd_dir t
    rwa [hresolve] at hends
  · cases h

theorem isName_of_parentAndName {parent name : Text}
    (h : Local.parentAndName t = some (parent, name)) : IsName name := by
  unfold Local.parentAndName at h
  dsimp only at h
  split at h
  · next hname =>
    obtain ⟨-, rfl⟩ := Prod.mk.inj (Option.some.inj h)
    exact hname
  · cases h

variable {R : Path}

/-- A path that as a whole leads nowhere, with the directory before its last name. -/
def Unresolved (realpath : Text → Option Path) (split : Text → Option (Text × Text)) (path : Text)
    (d : Path) (n : Text) : Prop :=
  realpath path = none ∧ ∃ parent, split path = some (parent, n) ∧ realpath parent = some d

/-- What is made of a path: where it leads, or its last name in the directory before. -/
inductive Resolved (realpath : Text → Option Path) (split : Text → Option (Text × Text))
    (path : Text) (c : Path) : Prop
  | whole : realpath path = some c → Resolved realpath split path c
  | last {d : Path} {n : Text} : Unresolved realpath split path d n → c = d ++ [n] →
    Resolved realpath split path c

namespace Local

theorem resolved_iff {host : Host} {path : Text} {c : Path} :
    canonicalizeExistingOrParent host path = .ok c ↔
      Resolved (canonicalize host) parentAndName path c := by
  unfold canonicalizeExistingOrParent pathExists
  cases hpath : canonicalize host path with
  | some p =>
    rw [if_pos (Option.isSome_some (a := p))]
    constructor
    · rintro ⟨⟩
      exact .whole hpath
    · rintro (h | ⟨h, -⟩)
      · rw [hpath] at h
        exact congrArg _ (Option.some.inj h)
      · cases hpath.symm.trans h.1
  | none =>
    rw [if_neg (by simp)]
    constructor
    · intro h
      split at h
      · cases h
      next parent name hsplit =>
      split at h <;> cases h
      next p hp => exact .last ⟨hpath, parent, hsplit, hp⟩ rfl
    · rintro (h | ⟨⟨-, parent, hsplit, hd⟩, rfl⟩)
      · simp [hpath] at h
      · simp only [hsplit, hd]

theorem located_of_resolved {host : Host} {path : Text} {c : Path}
    (h : Resolved (canonicalize host) parentAndName path c) : Located host.fs c := by
  rcases h with h | ⟨⟨-, parent, hsplit, hd⟩, rfl⟩
  · exact .inl (settled_of_canonicalize h)
  · exact .inr (.inl ⟨_, _, rfl, settled_of_canonicalize hd, isName_of_parentAndName hsplit⟩)

theorem canonicalRoot_ok {host : Host} {root : Text} (h : canonicalRoot host root = .ok R) :
    Settled host.fs R := by
  unfold canonicalRoot at h
  split at h <;> cases h
  next hp => exact settled_of_canonicalize hp

end Local

namespace Sftp

variable {host : Host} {server : Server host}

theorem toOption_eq_some {α : Type} {r : AppResult α} {a : α} (h : r.toOption = some a) :
    r = .ok a := by
  cases r <;> cases h
  rfl

/-- `split_parent`, where it gives something. -/
def parentAndName (path : Text) : Option (Text × Text) := (splitParent path).toOption

theorem resolved_iff {path : Text} {c : Path} :
    canonicalizeExistingOrParent server path = .ok c ↔
      Resolved server.realpath parentAndName path c := by
  unfold canonicalizeExistingOrParent
  cases hpath : server.realpath path with
  | some p =>
    constructor
    · rintro ⟨⟩
      exact .whole hpath
    · rintro (h | ⟨h, -⟩)
      · rw [hpath] at h
        exact congrArg _ (Option.some.inj h)
      · cases hpath.symm.trans h.1
  | none =>
    dsimp only
    constructor
    · intro h
      obtain ⟨⟨parent, name⟩, hsplit, h⟩ := try_ok_iff.mp h
      dsimp only at h
      split at h <;> cases h
      next p hp => exact .last ⟨hpath, parent, by rw [parentAndName, hsplit]; rfl, hp⟩ rfl
    · rintro (h | ⟨⟨-, parent, hsplit, hd⟩, rfl⟩)
      · simp [hpath] at h
      · refine try_ok_iff.mpr ⟨_, toOption_eq_some hsplit, ?_⟩
        dsimp only
        rw [hd]

theorem located_of_realpath {p : Path} (h : server.realpath t = some p) : Located host.fs p := by
  rcases server.realpath_sound t p h with h | ⟨d, n, rfl, hmissing⟩
  · exact .inl h
  · exact .inr (.inl ⟨d, n, rfl, settled_of_isDir hmissing.1, hmissing.2.2⟩)

theorem located_of_canonicalRoot {root : Text} (h : canonicalRoot server root = .ok R) :
    Located host.fs R := by
  unfold canonicalRoot at h
  split at h
  · next p hp =>
    obtain rfl := Except.ok.inj h
    exact located_of_realpath hp
  · cases h

theorem ne_link_of_realpath {p : Path} (target : Text) (h : server.realpath t = some p) :
    host.fs.get p ≠ some (.link target) := by
  intro hget
  rcases server.realpath_sound t p h with ⟨node, hnode, hlink⟩ | ⟨d, n, rfl, hmissing⟩
  · cases hnode.symm.trans hget
    cases hlink
  · cases hmissing.2.1.symm.trans hget

theorem located_append {name : Text} {p : Path} (h : server.realpath t = some p)
    (hname : IsName name) : Located host.fs (p ++ [name]) := by
  rcases server.realpath_sound t p h with h | ⟨d, n, rfl, hmissing⟩
  · exact .inr (.inl ⟨p, name, rfl, h, hname⟩)
  · exact .inr (.inr ⟨d, n, name, by simp, hmissing, hname⟩)

theorem splitParent_name {path parent name : Text} (h : splitParent path = .ok (parent, name)) :
    name = (Text.baseName path).getD [] := by
  unfold splitParent at h
  dsimp only at h
  split at h
  · cases h
  · exact (Prod.mk.inj (Except.ok.inj h)).2.symm

/-- Where the path with the sanitized part behind the root is looked for. -/
theorem located_of_resolved {root path : Text} {segments : List Text} {c : Path}
    (hsegments : relativeSegments path = .ok segments) (hR : canonicalRoot server root = .ok R)
    (h : Resolved server.realpath parentAndName (if (Text.join ['/'] segments).isEmpty then root
      else Text.trimEndMatches '/' root ++ '/' :: Text.join ['/'] segments) c) :
    Located host.fs c := by
  rcases h with h | ⟨⟨hnone, parent, hsplit, hd⟩, rfl⟩
  · exact located_of_realpath h
  · refine located_append hd ?_
    unfold parentAndName at hsplit
    split at hnone
    · -- the root itself has just been resolved
      rw [canonicalRoot, hnone] at hR
      cases hR
    · next hrelative =>
      have hne : segments ≠ [] := fun hnil => hrelative (by rw [hnil]; rfl)
      have hnames := accepted_of_relativeSegments hsegments
      rw [if_neg hrelative] at hsplit
      rw [splitParent_name (toOption_eq_some hsplit), Text.baseName_append_slash, Text.baseName,
        Text.join, splitOn_intercalate '/' (fun s hs => (hnames s hs).1.2.1) hne,
        List.getLast?_eq_some_getLast hne]
      exact (hnames _ (getLast_mem hne)).1

end Sftp

/-! ## Where the change is made -/

/-- Opening a resolved path ends at that path, unless it is a link. -/
theorem resolve_located (hc : Located host.fs c)
    (hlink : ∀ target, host.fs.get c ≠ some (.link target))
    (h : (resolve host.fs maxLinks host.cwd (render c)).place = some p) : p = c := by
  rcases hc with hsettled | ⟨d, n, rfl, hd, hname⟩ | ⟨d, m, n, rfl, hmissing, hname⟩
  · rw [resolve_render hsettled] at h
    exact (Option.some.inj h).symm
  · match hget : host.fs.get (d ++ [n]) with
    | some node =>
      have hsettled : Settled host.fs (d ++ [n]) := by
        cases node with
        | dir attr | file contents attr => exact ⟨_, hget, rfl⟩
        | link target => exact absurd hget (hlink target)
      rw [resolve_render hsettled] at h
      exact (Option.some.inj h).symm
    | none =>
      have hslash : ∀ x ∈ [n], '/' ∉ x := fun x hx => mem_singleton.mp hx ▸ hname.2.1
      rw [resolve_render_append hd hslash (by simp)] at h
      cases hdir : host.fs.isDir d with
      | false =>
        rw [walk_of_not_isDir hdir] at h
        cases h
      | true =>
        rw [walk_missing ⟨hdir, hget, hname⟩] at h
        exact (Option.some.inj h).symm
  · have hslash : ∀ x ∈ [m, n], '/' ∉ x := fun x hx => by
      rcases mem_cons.mp hx with rfl | hx
      · exact hmissing.2.2.2.1
      · exact mem_singleton.mp hx ▸ hname.2.1
    rw [resolve_render_append (settled_of_isDir hmissing.1) hslash (by simp),
      walk_below_missing hmissing (by simp)] at h
    cases h

/-- A directory is made at the resolved path or not at all. -/
theorem entry_located {d : Path} {n : Text} (hc : Located host.fs c)
    (h : entry host.fs maxLinks host.cwd (render c) = .absent d n) : d ++ [n] = c := by
  have hnamed : ∀ {e : Path} {m : Text}, Settled host.fs e → IsName m →
      entry host.fs maxLinks host.cwd (render (e ++ [m])) = .absent d n → d ++ [n] = e ++ [m] := by
    intro e m he hm h
    rw [entry_render he hm] at h
    split_ifs at h
    · split at h
      · cases h
        rfl
      · cases h
  rcases hc with hsettled | ⟨e, m, rfl, he, hm⟩ | ⟨e, l, m, rfl, hmissing, hm⟩
  · obtain ⟨node, hget, hlink⟩ := hsettled
    have hsome : (host.fs.get c).isSome = true := by simp [hget]
    rcases eq_nil_or_concat c with rfl | ⟨e, m, rfl⟩
    · have hroot : entry host.fs maxLinks host.cwd (render []) = .found [] :=
        resolve_render ⟨node, hget, hlink⟩
      rw [hroot] at h
      cases h
    · rw [concat_eq_append] at hsome h ⊢
      exact hnamed (settled_of_isDir (Fs.isDir_parent hsome)) (host.fs.names _ hsome m (by simp)) h
  · exact hnamed he hm h
  · rw [entry_below_missing hmissing hm] at h
    cases h

theorem isName_of_located {fs : Fs} (hc : Located fs c) : ∀ n ∈ c, IsName n := by
  have hsettled : ∀ {p : Path}, Settled fs p → ∀ n ∈ p, IsName n := fun ⟨node, hget, _⟩ =>
    fs.names _ (show (fs.get _).isSome = true by simp [hget])
  rcases hc with h | ⟨d, n, rfl, hd, hname⟩ | ⟨d, m, n, rfl, hmissing, hname⟩
  · exact hsettled h
  · intro x hx
    rcases mem_append.mp hx with hx | hx
    · exact hsettled hd x hx
    · exact mem_singleton.mp hx ▸ hname
  · intro x hx
    rcases mem_append.mp hx with hx | hx
    · exact hsettled (settled_of_isDir hmissing.1) x hx
    · rcases mem_cons.mp hx with rfl | hx
      · exact hmissing.2.2
      · exact mem_singleton.mp hx ▸ hname

/-! ## What is changed, and where -/

/-- A name that can be made: it is missing in a directory of this account. -/
def Creatable (fs : Fs) (q : Path) : Prop :=
  fs.get q = none ∧ ∃ attr, fs.get q.dropLast = some (.dir attr) ∧ attr.mine = true

/-- A write of `contents` makes the file `q` or changes it. -/
def Writable (fs : Fs) (contents : Text) (q : Path) : Prop :=
  Creatable fs q ∨
    ∃ old attr, fs.get q = some (.file old attr) ∧ attr.mine = true ∧ old ≠ contents

/-- The operation changes something at a place that is no link. -/
def Op.Changes (fs : Fs) (q : Path) : Op → Prop
  | .writeFile contents | .uploadFile (some contents) => Writable fs contents q
  | .createDirectory => Creatable fs q
  | .uploadFile none => False

/-- Where the target of a link in the directory `d` leads. -/
def leadsTo (fs : Fs) (d : Path) (target : Text) : Option Path :=
  if target.isEmpty then none
  else (walk fs (maxLinks - 1) (if target.head? = some '/' then [] else d)
    (target.splitOn '/')).place

theorem exists_written_iff {fs : Fs} {contents : Text} {mode : Nat} {w : Walk} (hends : Ends fs w)
    (P : Path → Prop) :
    (∃ e, fs.written contents mode w = some e ∧ fs.get e.1 ≠ some e.2 ∧ P e.1) ↔
      ∃ q, w.place = some q ∧ Writable fs contents q ∧ P q := by
  cases w with
  | failed => simp [Fs.written, Walk.place]
  | absent d n =>
    obtain ⟨hdir, hget, -⟩ : Missing fs d n := hends
    have hwritable : Writable fs contents (d ++ [n]) ↔ fs.mine d = true := by
      unfold Fs.isDir at hdir
      unfold Writable Creatable Fs.mine
      rw [dropLast_concat, hget]
      cases hd : fs.get d with
      | none => simp [hd] at hdir
      | some node => cases node <;> simp_all [Node.isDir]
    simp only [Fs.written, Walk.place, Option.some.injEq, exists_eq_left', hwritable]
    by_cases hmine : fs.mine d = true <;> simp [hmine, hget]
  | found p =>
    obtain ⟨node, hget, hlink⟩ : Settled fs p := hends
    simp only [Fs.written, Walk.place, Option.some.injEq, exists_eq_left', Writable, Creatable, hget]
    cases node with
    | dir attr => simp
    | link target => cases hlink
    | file old attr => by_cases hmine : attr.mine = true <;> simp [hmine, hget]

theorem Creatable.missing {fs : Fs} (hnames : ∀ n ∈ c, IsName n) (h : Creatable fs c) :
    ∃ d n, c = d ++ [n] ∧ Missing fs d n := by
  obtain ⟨hget, attr, hparent, -⟩ := h
  rcases eq_nil_or_concat c with rfl | ⟨d, n, rfl⟩
  · have hroot := Fs.get_isSome_of_isDir fs.isDir_nil
    rw [hget] at hroot
    cases hroot
  · rw [concat_eq_append] at hget hparent hnames ⊢
    rw [dropLast_concat] at hparent
    exact ⟨d, n, rfl, by rw [Fs.isDir, hparent]; rfl, hget, hnames n (by simp)⟩

theorem place_of_writable {contents : Text} (hnames : ∀ n ∈ c, IsName n)
    (h : Writable host.fs contents c) :
    (resolve host.fs maxLinks host.cwd (render c)).place = some c := by
  rcases h with hcreatable | ⟨old, attr, hget, -⟩
  · obtain ⟨d, n, rfl, hmissing⟩ := hcreatable.missing hnames
    have hslash : ∀ x ∈ [n], '/' ∉ x := fun x hx => mem_singleton.mp hx ▸ hmissing.2.2.2.1
    rw [resolve_render_append (settled_of_isDir hmissing.1) hslash (by simp), walk_missing hmissing]
    rfl
  · rw [resolve_render ⟨_, hget, rfl⟩]
    rfl

variable {P : Path → Prop}

theorem exists_made_iff (hc : Located host.fs c) :
    (∃ e, Op.createDirectory.change host c = some e ∧ host.fs.get e.1 ≠ some e.2 ∧ P e.1) ↔
      Creatable host.fs c ∧ P c := by
  unfold Op.change
  dsimp only
  constructor
  · rintro ⟨e, hmade, -, hP⟩
    obtain ⟨d, n, hentry, he⟩ := Fs.made_place hmade
    rw [he, entry_located hc hentry] at hP
    rw [hentry, Fs.made] at hmade
    obtain ⟨hdir, hget, -⟩ := missing_of_entry host.cwd_dir hentry
    rw [← entry_located hc hentry] at hP ⊢
    split at hmade
    · next hmine =>
      refine ⟨⟨hget, ?_⟩, hP⟩
      rw [dropLast_concat]
      unfold Fs.isDir at hdir
      unfold Fs.mine at hmine
      cases hd : host.fs.get d with
      | none => simp [hd] at hdir
      | some node => cases node <;> simp_all [Node.isDir]
    · cases hmade
  · rintro ⟨hcreatable, hP⟩
    obtain ⟨d, n, rfl, hdir, hget, hname⟩ := hcreatable.missing (isName_of_located hc)
    obtain ⟨-, attr, hattr, hmine⟩ := hcreatable
    rw [dropLast_concat] at hattr
    refine ⟨(d ++ [n], .dir ⟨0o755, true⟩), ?_, by simp [hget], hP⟩
    rw [entry_render (settled_of_isDir hdir) hname, hdir, hget]
    simp [Fs.made, Fs.mine, hattr, hmine]

/-- At a path that is no link, what is changed is changed there. -/
theorem exists_change_iff (hc : Located host.fs c)
    (hlink : ∀ target, host.fs.get c ≠ some (.link target)) :
    (∃ e, op.change host c = some e ∧ host.fs.get e.1 ≠ some e.2 ∧ P e.1) ↔
      op.Changes host.fs c ∧ P c := by
  have hwrite : ∀ contents, (∃ e, host.fs.written contents 0o644
      (resolve host.fs maxLinks host.cwd (render c)) = some e ∧ host.fs.get e.1 ≠ some e.2 ∧ P e.1) ↔
      Writable host.fs contents c ∧ P c := by
    intro contents
    rw [exists_written_iff (resolve_ends host.cwd_dir _)]
    constructor
    · rintro ⟨q, hplace, hq⟩
      obtain rfl := resolve_located hc hlink hplace
      exact hq
    · exact fun h => ⟨c, place_of_writable (isName_of_located hc) h.1, h⟩
  match op with
  | .writeFile contents | .uploadFile (some contents) => exact hwrite contents
  | .createDirectory => exact exists_made_iff hc
  | .uploadFile none => simp [Op.change, Op.Changes]

/-- At a link, it is changed where the target leads, and no directory is made. -/
theorem exists_change_link_iff {d : Path} {n target : Text} (hd : Settled host.fs d)
    (hname : IsName n) (hget : host.fs.get (d ++ [n]) = some (.link target)) :
    (∃ e, op.change host (d ++ [n]) = some e ∧ host.fs.get e.1 ≠ some e.2 ∧ P e.1) ↔
      op ≠ .createDirectory ∧
        ∃ q, leadsTo host.fs d target = some q ∧ op.Changes host.fs q ∧ P q := by
  have hdir : host.fs.isDir d = true := Fs.isDir_parent (n := n) (by rw [hget]; rfl)
  have hplace : (resolve host.fs maxLinks host.cwd (render (d ++ [n]))).place =
      leadsTo host.fs d target := by
    have hslash : ∀ x ∈ [n], '/' ∉ x := fun x hx => mem_singleton.mp hx ▸ hname.2.1
    rw [resolve_render_append hd hslash (by simp)]
    change (walkWith host.fs (walk host.fs (maxLinks - 1)) d [n]).place = _
    unfold leadsTo
    split
    · next hempty =>
      obtain ⟨hskip, hup⟩ := hname.isLookedUp
      rw [walkWith, if_neg (by simp [hdir]), if_neg hskip, if_neg hup, hget]
      simp only [hempty, if_true, Walk.place]
    · next hne => rw [walkWith_link hdir hname.isLookedUp hget hne, append_nil]
  have hwrite : ∀ contents, (∃ e, host.fs.written contents 0o644
      (resolve host.fs maxLinks host.cwd (render (d ++ [n]))) = some e ∧
        host.fs.get e.1 ≠ some e.2 ∧ P e.1) ↔
      ∃ q, leadsTo host.fs d target = some q ∧ Writable host.fs contents q ∧ P q := by
    intro contents
    rw [exists_written_iff (resolve_ends host.cwd_dir _), hplace]
  cases op with
  | writeFile contents => exact (hwrite contents).trans (and_iff_right (by simp)).symm
  | uploadFile contents =>
    cases contents with
    | some contents => exact (hwrite contents).trans (and_iff_right (by simp)).symm
    | none => simp [Op.change, Op.Changes]
  | createDirectory => simp [Op.change, entry_render hd hname, hdir, hget, Fs.made]

/-! ## Staying inside the root -/

/-- An error that changed nothing, or changes below the root only. -/
def StaysInside (fs : Fs) (rootOf : AppResult Path) (out : AppResult Unit × Fs) : Prop :=
  (∃ e, out = (.error e, fs)) ∨
    ∃ root, rootOf = .ok root ∧ ∀ q, out.2.get q ≠ fs.get q → root <+: q

/-- The last name in `d` is a link, and it leads out of the root to where the operation changes
something. -/
def LeadsOut (fs : Fs) (root d : Path) (n : Text) (op : Op) : Prop :=
  ∃ target q, fs.get (d ++ [n]) = some (.link target) ∧ leadsTo fs d target = some q ∧
    ¬ root <+: q ∧ op ≠ .createDirectory ∧ op.Changes fs q

/-- The Local check takes a path outside the root for one inside because of a name with a backslash,
and the operation changes something there. -/
def Lookalike (host : Host) (root : Path) (path : Text) (op : Op) : Prop :=
  ∃ c, Resolved (Local.canonicalize host) Local.parentAndName path c ∧
    (∀ target, host.fs.get c ≠ some (.link target)) ∧
    isWithinRoot (Local.pathKey c) (Local.pathKey root) = true ∧ ¬ root <+: c ∧
    (∃ n ∈ root ++ c, '\\' ∈ n) ∧ op.Changes host.fs c

theorem perform_some (refused : Text → Op → AppError) {e : Path × Node}
    (h : op.change host c = some e) :
    ∃ fs', perform host refused (.ok c) op = (.ok (), fs') ∧
      ∀ q, fs'.get q = if q = e.1 then some e.2 else host.fs.get q := by
  have hput : ∃ fs', host.fs.putAt (op.change host c) = some fs' ∧
      ∀ q, fs'.get q = if q = e.1 then some e.2 else host.fs.get q := by
    match op, h with
    | .writeFile contents, h => exact Fs.putAt_written host.cwd_dir h
    | .uploadFile (some contents), h => exact Fs.putAt_written host.cwd_dir h
    | .createDirectory, h => exact Fs.putAt_made host.cwd_dir h
  obtain ⟨fs', hfs', hget⟩ := hput
  exact ⟨fs', by simp [perform, hfs'], hget⟩

theorem staysInside_iff {rootOf : AppResult Path} (hroot : rootOf = .ok root) :
    StaysInside host.fs rootOf (perform host refused (.ok c) op) ↔
      ∀ e, op.change host c = some e → host.fs.get e.1 ≠ some e.2 → root <+: e.1 := by
  cases hchange : op.change host c with
  | none =>
    simp only [perform, hchange, Fs.putAt]
    constructor
    · intro _ e he
      cases he
    · intro _
      exact .inl ⟨_, rfl⟩
  | some e =>
    obtain ⟨fs', hperform, hget⟩ := perform_some refused hchange
    rw [hperform]
    constructor
    · rintro (⟨err, herr⟩ | ⟨root', hroot', hinside⟩) e' he' hne
      · cases (Prod.mk.inj herr).1
      · cases he'
        obtain rfl := Except.ok.inj (hroot.symm.trans hroot')
        refine hinside e.1 ?_
        rw [hget, if_pos rfl]
        exact fun h => hne h.symm
    · intro hinside
      refine .inr ⟨root, hroot, fun q hq => ?_⟩
      rw [hget] at hq
      split at hq
      · next heq =>
        rw [heq] at hq ⊢
        exact hinside e rfl fun h => hq h.symm
      · exact absurd rfl hq

theorem pathKey_of_noBackslash (h : ∀ n ∈ p, '\\' ∉ n) : Local.pathKey p = render p := by
  have hchar : ∀ c ∈ render p, (if c = '\\' then '/' else c) = id c := by
    intro c hc
    rw [if_neg, id]
    rintro rfl
    rcases mem_cons.mp hc with hc | hc
    · cases hc
    · rcases Text.mem_join hc with hc | ⟨n, hn, hc⟩
      · cases mem_singleton.mp hc
      · exact h n hn hc
  rw [Local.pathKey, map_congr_left hchar, map_id]

/-- The Local check compares what it means to, as long as no name holds a backslash. -/
theorem exists_backslash (hroot : ∀ n ∈ root, IsName n) (hc : ∀ n ∈ c, IsName n)
    (hwithin : isWithinRoot (Local.pathKey c) (Local.pathKey root) = true)
    (hout : ¬root <+: c) : ∃ n ∈ root ++ c, '\\' ∈ n := by
  by_contra hnone
  have hno : ∀ n ∈ root ++ c, '\\' ∉ n := fun n hn hmem => hnone ⟨n, hn, hmem⟩
  rw [pathKey_of_noBackslash fun n hn => hno n (mem_append_right root hn),
    pathKey_of_noBackslash fun n hn => hno n (mem_append_left c hn),
    isWithinRoot_render hc hroot] at hwithin
  exact hout hwithin

theorem staysInside_resolved {rootOf : AppResult Path} (hroot : rootOf = .ok root)
    (hc : Located host.fs c) :
    StaysInside host.fs rootOf (perform host refused (.ok c) op) ↔
      ((∀ target, host.fs.get c ≠ some (.link target)) → op.Changes host.fs c → root <+: c) ∧
        ∀ d n, c = d ++ [n] → ¬ LeadsOut host.fs root d n op := by
  have hnone : StaysInside host.fs rootOf (perform host refused (.ok c) op) ↔
      ¬ ∃ e, op.change host c = some e ∧ host.fs.get e.1 ≠ some e.2 ∧ ¬ root <+: e.1 := by
    rw [staysInside_iff hroot]
    simp only [not_exists, not_and, not_not]
  rw [hnone]
  by_cases hlink : ∃ target, host.fs.get c = some (.link target)
  · obtain ⟨target, hget⟩ := hlink
    obtain ⟨d, n, rfl, hd, hname⟩ : ∃ d n, c = d ++ [n] ∧ Settled host.fs d ∧ IsName n := by
      rcases hc with ⟨node, hnode, hlink⟩ | h | ⟨d, m, n, rfl, hmissing, -⟩
      · cases hnode.symm.trans hget
        cases hlink
      · exact h
      · have hdir : host.fs.isDir (d ++ [m]) = true :=
          Fs.isDir_parent (n := n) (by simp [hget])
        rw [Fs.isDir, hmissing.2.1] at hdir
        cases hdir
    rw [exists_change_link_iff (P := fun q => ¬ root <+: q) hd hname hget]
    constructor
    · refine fun h => ⟨fun hnot => absurd hget (hnot target), ?_⟩
      rintro d' n' heq ⟨target', q, hget', hleads, hout, hop, hchanges⟩
      obtain ⟨rfl, hn⟩ := append_inj' heq rfl
      cases hn
      cases hget.symm.trans hget'
      exact h ⟨hop, q, hleads, hchanges, hout⟩
    · rintro ⟨-, h⟩ ⟨hop, q, hleads, hchanges, hout⟩
      exact h d n rfl ⟨target, q, hget, hleads, hout, hop, hchanges⟩
  · have hlink : ∀ target, host.fs.get c ≠ some (.link target) := fun t ht => hlink ⟨t, ht⟩
    rw [exists_change_iff (P := fun q => ¬ root <+: q) hc hlink]
    refine ⟨fun h => ⟨fun _ hchanges => not_not.mp fun hout => h ⟨hchanges, hout⟩, ?_⟩,
      fun h hc => hc.2 (h.1 hlink hc.1)⟩
    rintro d n rfl ⟨target, q, hget, -⟩
    exact hlink target hget

/-- What is refused changes nothing. -/
theorem staysInside_error (e : AppError) (rootOf : AppResult Path) :
    StaysInside host.fs rootOf (perform host refused (.error e) op) := .inl ⟨e, rfl⟩

section

variable {realpath : Text → Option Path} {split : Text → Option (Text × Text)} {path : Text}

theorem staysInside_checked {canonical rootOf : AppResult Path} {within : Path → Bool}
    (error : AppError) (hroot : rootOf = .ok root)
    (hcanonical : ∀ c, canonical = .ok c ↔ Resolved realpath split path c)
    (hlocated : ∀ c, Resolved realpath split path c → Located host.fs c)
    (hwhole : ∀ c target, realpath path = some c → host.fs.get c ≠ some (.link target)) :
    StaysInside host.fs rootOf (perform host refused
        (canonical >>= fun c => if !within c then .error error else .ok c) op) ↔
      (∀ c, Resolved realpath split path c → within c = true →
        (∀ target, host.fs.get c ≠ some (.link target)) → op.Changes host.fs c → root <+: c) ∧
      ∀ d n, Unresolved realpath split path d n → within (d ++ [n]) = true →
        ¬ LeadsOut host.fs root d n op := by
  cases hcase : canonical with
  | error e =>
    have hnone : ∀ c, ¬ Resolved realpath split path c := fun c h => by
      cases hcase.symm.trans ((hcanonical c).mpr h)
    exact iff_of_true (staysInside_error e _)
      ⟨fun c h => absurd h (hnone c), fun d n h => absurd (.last h rfl) (hnone _)⟩
  | ok c =>
    have hc : Resolved realpath split path c := (hcanonical c).mp hcase
    have honly : ∀ c', Resolved realpath split path c' → c' = c := fun c' h =>
      Except.ok.inj (((hcanonical c').mpr h).symm.trans hcase)
    show StaysInside host.fs rootOf (perform host refused
      (if !within c then .error error else .ok c) op) ↔ _
    cases hwithin : within c with
    | false =>
      refine iff_of_true (staysInside_error error _) ⟨fun c' h hin => ?_, fun d n h hin => ?_⟩
      · rw [honly c' h, hwithin] at hin
        cases hin
      · rw [honly _ (.last h rfl), hwithin] at hin
        cases hin
    | true =>
      refine (staysInside_resolved hroot (hlocated c hc)).trans (and_congr ?_ ?_)
      · refine ⟨fun h c' hc' _ => ?_, fun h => h c hc hwithin⟩
        rw [honly c' hc']
        exact h
      · constructor
        · exact fun h d n hd _ => h d n (honly _ (.last hd rfl)).symm
        · rintro h d n rfl hout
          rcases hc with hc | ⟨hd, heq⟩
          · obtain ⟨target, q, hget, -⟩ := hout
            exact hwhole _ target hc hget
          · obtain ⟨rfl, hn⟩ := append_inj' heq rfl
            cases hn
            exact h d n hd hwithin hout

end

theorem Local.lookalike_iff {path : Text} (hR : Settled host.fs root) :
    (∀ c, Resolved (canonicalize host) parentAndName path c →
        isWithinRoot (pathKey c) (pathKey root) = true →
        (∀ target, host.fs.get c ≠ some (.link target)) → op.Changes host.fs c → root <+: c) ↔
      ¬ Lookalike host root path op := by
  constructor
  · rintro h ⟨c, hc, hlink, hwithin, hout, -, hchanges⟩
    exact hout (h c hc hwithin hlink hchanges)
  · intro h c hc hwithin hlink hchanges
    by_contra hout
    exact h ⟨c, hc, hlink, hwithin, hout, exists_backslash (isName_of_located (.inl hR))
      (isName_of_located (located_of_resolved hc)) hwithin hout, hchanges⟩

/-- **A provider's writes stay inside the root, unless the path as a whole leads nowhere and its last
name is a link that leads out**; for Local also unless a name with a backslash makes a path outside
look like one inside. A directory is never made through a link. -/
theorem writes_stay_inside_iff (host : Host) (root localSource path : Text) (op : Op) :
    (StaysInside host.fs (Local.canonicalRoot host root)
        (Local.run host root localSource path op) ↔
      ∀ R relative, Local.canonicalRoot host root = .ok R →
        sanitizeRelativePath path = .ok relative →
        ¬ Lookalike host R (Local.joinPath root relative) op ∧
        ∀ d n, Unresolved (Local.canonicalize host) Local.parentAndName
            (Local.joinPath root relative) d n →
          isWithinRoot (Local.pathKey (d ++ [n])) (Local.pathKey R) = true →
            ¬ LeadsOut host.fs R d n op) ∧
    ∀ server : Sftp.Server host,
      StaysInside host.fs (Sftp.canonicalRoot server root)
        (Sftp.run server root localSource path op) ↔
      ∀ R relative, Sftp.canonicalRoot server root = .ok R →
        sanitizeRelativePath path = .ok relative →
        ∀ d n, Unresolved server.realpath Sftp.parentAndName (if relative.isEmpty then root
            else Text.trimEndMatches '/' root ++ '/' :: relative) d n →
          R <+: d ++ [n] → ¬ LeadsOut host.fs R d n op := by
  have hall : ∀ {R : Path} {relative : Text} (p : Path → Text → Prop),
      (∀ R' relative', (.ok R : AppResult Path) = .ok R' →
        (.ok relative : AppResult Text) = .ok relative' → p R' relative') ↔ p R relative :=
    fun p => ⟨fun h => h _ _ rfl rfl, by rintro h _ _ ⟨⟩ ⟨⟩; exact h⟩
  constructor
  · unfold Local.run Local.resolvePath
    cases hrelative : sanitizeRelativePath path with
    | error e => exact iff_of_true (staysInside_error e _) fun _ _ _ h => by cases h
    | ok relative =>
    cases hR : Local.canonicalRoot host root with
    | error e => exact iff_of_true (staysInside_error e _) fun _ _ h => by cases h
    | ok R =>
    have hsettled := Local.canonicalRoot_ok hR
    rw [hall, ← Local.lookalike_iff hsettled]
    refine staysInside_checked _ rfl (fun c => Local.resolved_iff)
      (fun c => Local.located_of_resolved) fun c target hc hget => ?_
    obtain ⟨node, hnode, hlink⟩ := settled_of_canonicalize hc
    cases hnode.symm.trans hget
    cases hlink
  · intro server
    unfold Sftp.run Sftp.resolvePath
    cases hsegments : relativeSegments path with
    | error e =>
      simp only [sanitizeRelativePath, hsegments]
      exact iff_of_true (staysInside_error e _) fun _ _ _ h => by cases h
    | ok segments =>
    have hrelative : sanitizeRelativePath path = .ok (Text.join ['/'] segments) := by
      rw [sanitizeRelativePath, hsegments]
      rfl
    rw [hrelative]
    cases hR : Sftp.canonicalRoot server root with
    | error e => exact iff_of_true (staysInside_error e _) fun _ _ h => by cases h
    | ok R =>
    have hlocated := fun c => Sftp.located_of_resolved (c := c) hsegments hR
    have hwithin : ∀ c, Located host.fs c →
        (isWithinRoot (render c) (render R) = true ↔ R <+: c) := fun c hc =>
      isWithinRoot_render (isName_of_located hc)
        (isName_of_located (Sftp.located_of_canonicalRoot hR))
    rw [hall]
    refine (staysInside_checked _ rfl (fun c => Sftp.resolved_iff) hlocated
      fun c target => Sftp.ne_link_of_realpath target).trans ?_
    constructor
    · exact fun h d n hd hin => h.2 d n hd ((hwithin _ (hlocated _ (.last hd rfl))).mpr hin)
    · exact fun h => ⟨fun c hc hin _ _ => (hwithin c (hlocated c hc)).mp hin,
        fun d n hd hin => h d n hd ((hwithin _ (hlocated _ (.last hd rfl))).mp hin)⟩

/-- Below the root, a link to a name that does not exist yet. -/
def danglingLink : Host where
  fs := Fs.ofEntries
    [([], .dir ⟨0o755, false⟩),
      (["srv"], .dir ⟨0o755, false⟩),
      (["srv", "app"], .dir ⟨0o755, true⟩),
      (["srv", "app", "latest.log"], .link "/home/user/.bashrc"),
      (["home"], .dir ⟨0o755, false⟩),
      (["home", "user"], .dir ⟨0o755, true⟩)] (by decide)
  cwd := []
  cwd_dir := by decide

theorem write_follows_dangling_link :
    let out := Local.run danglingLink "/srv/app".toList [] "latest.log".toList
      (.writeFile "echo hello".toList)
    let bashrc := ["home".toList, "user".toList, ".bashrc".toList]
    Local.canonicalRoot danglingLink "/srv/app".toList = .ok ["srv".toList, "app".toList] ∧
      out.1 = .ok () ∧ danglingLink.fs.get bashrc = none ∧
      out.2.get bashrc = some (.file "echo hello".toList ⟨0o644, true⟩) := by
  decide +kernel

end VibeSsh.Files
