import VibeSsh.Basic
import VibeSsh.Lib.Posix.Write

/-! # The path sandbox

`files::sandbox`: the lexical check every provider makes of a caller's path, and the comparison of a
resolved path with the root. -/

namespace VibeSsh.Sandbox

open Lib Lib.Posix List

/-- The loop of `sanitize_relative_path` over the segments; `kept` is what it has pushed. -/
def sanitizeSegments (kept : List Text) : List Text → AppResult (List Text)
  | [] => .ok kept
  | segment :: rest =>
    if segment = [] ∨ segment = ['.'] then sanitizeSegments kept rest
    else if segment = ['.', '.'] then .error (.invalidInput "path can't contain '..'")
    else if segment.contains '\x00' then
      .error (.invalidInput "path contains a null byte")
    else sanitizeSegments (kept ++ [segment]) rest

def relativeSegments (path : Text) : AppResult (List Text) :=
  sanitizeSegments [] (path.splitOnP fun c => c == '/' || c == '\\')

def sanitizeRelativePath (path : Text) : AppResult Text := do
  let segments ← relativeSegments path
  return Text.join ['/'] segments

def isWithinRoot (candidate root : Text) : Bool :=
  let root := Text.trimEndMatches '/' root
  candidate == root || Text.startsWith (root ++ ['/']) candidate

def relativize (path root : Text) : Text :=
  let root := Text.trimEndMatches '/' root
  if path = root then "."
  else if Text.startsWith (root ++ ['/']) path then path.drop (root.length + 1) else path

/-- Where a sanitized path is looked for, before it is resolved. -/
def candidate (root relative : Text) : Text :=
  if relative.isEmpty then root else Text.trimEndMatches '/' root ++ '/' :: relative

/-! ## Accepted segments are names -/

def isSeparator (c : Char) : Bool := c == '/' || c == '\\'

theorem sanitizeSegments_ok_iff {kept parts segments : List Text} :
    sanitizeSegments kept parts = .ok segments ↔ (∀ s ∈ parts, s ≠ ['.', '.'] ∧ '\x00' ∉ s) ∧
      segments = kept ++ parts.filter fun s => s ≠ [] ∧ s ≠ ['.'] := by
  fun_induction sanitizeSegments kept parts with
  | case1 kept => simp [eq_comm]
  | case2 kept segment rest hdot ih =>
    have hclean : segment ≠ ['.', '.'] ∧ '\x00' ∉ segment := by
      rcases hdot with rfl | rfl <;> decide
    rw [ih, forall_mem_cons, filter_cons_of_neg (by simp; tauto)]
    simp [hclean]
  | case3 kept rest => simp
  | case4 kept segment rest hdot hdots hnul =>
    have : '\x00' ∈ segment := by simpa using hnul
    simp [this]
  | case5 kept segment rest hdot hdots hnul ih =>
    rw [ih, forall_mem_cons, filter_cons_of_pos (by simp; tauto), append_assoc, singleton_append]
    simp_all

theorem relativeSegments_ok_iff {path : Text} {segments : List Text} :
    relativeSegments path = .ok segments ↔
      (∀ s ∈ path.splitOnP isSeparator, s ≠ ['.', '.'] ∧ '\x00' ∉ s) ∧
        segments = (path.splitOnP isSeparator).filter fun s => s ≠ [] ∧ s ≠ ['.'] :=
  @sanitizeSegments_ok_iff [] _ _

/-- What is accepted as a name. -/
def Accepted (s : Text) : Prop := IsName s ∧ '\x00' ∉ s ∧ '\\' ∉ s

theorem accepted_of_relativeSegments {path : Text} {segments : List Text}
    (h : relativeSegments path = .ok segments) : ∀ s ∈ segments, Accepted s := by
  obtain ⟨hclean, rfl⟩ := relativeSegments_ok_iff.mp h
  intro s hs
  obtain ⟨hpart, hkept⟩ := mem_filter.mp hs
  obtain ⟨hne, hdot⟩ := of_decide_eq_true hkept
  have hsep : ∀ c ∈ s, isSeparator c = false := Text.of_mem_splitOnP hpart
  exact ⟨⟨hne, fun hc => absurd (hsep _ hc) (by decide), hdot, (hclean s hpart).1⟩,
    (hclean s hpart).2, fun hc => absurd (hsep _ hc) (by decide)⟩

theorem relativeSegments_join {segments : List Text} (h : ∀ s ∈ segments, Accepted s) :
    relativeSegments (Text.join ['/'] segments) = .ok segments := by
  rcases eq_or_ne segments [] with rfl | hne
  · decide
  have hsep : ∀ s ∈ segments, ∀ c ∈ s, isSeparator c = false := by
    intro s hs c hc
    have hslash : c ≠ '/' := fun heq => (h s hs).1.2.1 (heq ▸ hc)
    have hback : c ≠ '\\' := fun heq => (h s hs).2.2 (heq ▸ hc)
    simp [isSeparator, hslash, hback]
  rw [relativeSegments_ok_iff, Text.splitOnP_join (by decide) hne hsep]
  refine ⟨fun s hs => ⟨(h s hs).1.2.2.2, (h s hs).2.1⟩, (filter_eq_self.mpr fun s hs => ?_).symm⟩
  exact decide_eq_true ⟨(h s hs).1.1, (h s hs).1.2.2.1⟩

/-! ## The root boundary -/

theorem trimEndMatches_render {root : Path} (hroot : ∀ n ∈ root, IsName n) :
    Text.trimEndMatches '/' (render root) = spelled root := by
  rcases eq_nil_or_concat root with rfl | ⟨d, n, rfl⟩
  · decide
  · rw [concat_eq_append] at hroot ⊢
    obtain ⟨hne, hslash, -⟩ := hroot n (by simp)
    rw [render_eq_spelled (by simp), Text.trimEndMatches, rdropWhile_eq_self_iff]
    intro _ hlast
    have hspelled : spelled (d ++ [n]) = (spelled d ++ ['/']) ++ n := by simp [spelled]
    simp only [hspelled, getLast_append_of_ne_nil _ hne, beq_iff_eq] at hlast
    exact hslash (hlast ▸ getLast_mem hne)

/-- On canonical paths the comparison is that of the components. -/
theorem isWithinRoot_render {p root : Path} (hp : ∀ n ∈ p, IsName n)
    (hroot : ∀ n ∈ root, IsName n) : isWithinRoot (render p) (render root) = true ↔ root <+: p := by
  have hps : ∀ n ∈ p, '/' ∉ n := fun n hn => (hp n hn).2.1
  have hrs : ∀ n ∈ root, '/' ∉ n := fun n hn => (hroot n hn).2.1
  rw [isWithinRoot, trimEndMatches_render hroot, Bool.or_eq_true, beq_iff_eq, Text.startsWith,
    isPrefixOf_iff_prefix]
  constructor
  · rintro (heq | ⟨x, heq⟩)
    · have hsplit := congrArg (List.splitOn '/') heq
      rw [splitOn_render hps, splitOn_spelled hrs] at hsplit
      have hcomps := (List.cons.inj hsplit).2
      split at hcomps
      · exact absurd rfl (hroot [] (by simp [← hcomps])).1
      · subst hcomps
        exact prefix_rfl
    · have hsplit := congrArg (List.splitOn '/') heq
      rw [append_assoc, singleton_append, splitOn_append_cons_self,
        splitOn_spelled hrs, splitOn_render hps] at hsplit
      have hcomps := (List.cons.inj hsplit).2
      split at hcomps
      · next hempty =>
        -- only the root directory itself is written with a slash at its end
        cases root with
        | nil => exact nil_prefix
        | cons m root =>
          rw [append_eq, cons_append] at hcomps
          exact absurd (List.cons.inj hcomps).1 (hroot m (by simp)).1
      · exact ⟨_, hcomps⟩
  · rintro ⟨q, rfl⟩
    cases q with
    | nil =>
      rw [append_nil]
      by_cases hnil : root = []
      · rw [hnil]
        decide
      · exact .inl (render_eq_spelled hnil)
    | cons m q =>
      refine .inr ⟨m ++ spelled q, ?_⟩
      rw [render_eq_spelled (by simp)]
      simp [spelled]

/-! ## Laws of the check -/

theorem sanitizeRelativePath_result {path result : Text}
    (h : sanitizeRelativePath path = .ok result) : sanitizeRelativePath result = .ok result := by
  obtain ⟨segments, hsegments, hresult⟩ := try_ok_iff.mp h
  cases hresult
  rw [sanitizeRelativePath, relativeSegments_join (accepted_of_relativeSegments hsegments)]
  rfl

theorem sanitizeRelativePath_error_iff {path : Text} :
    (∃ e, sanitizeRelativePath path = .error e) ↔
      ['.', '.'] ∈ path.splitOnP isSeparator ∨ '\x00' ∈ path := by
  have hnul : (∃ s ∈ path.splitOnP isSeparator, '\x00' ∈ s) ↔ '\x00' ∈ path :=
    Text.exists_mem_splitOnP.trans (and_iff_left (by decide))
  rw [← hnul, sanitizeRelativePath]
  cases h : relativeSegments path with
  | ok segments =>
    obtain ⟨hclean, -⟩ := relativeSegments_ok_iff.mp h
    refine iff_of_false (fun ⟨e, he⟩ => nomatch he) ?_
    rintro (hdots | ⟨s, hs, hc⟩)
    · exact (hclean _ hdots).1 rfl
    · exact (hclean s hs).2 hc
  | error e =>
    refine iff_of_true ⟨e, rfl⟩ (by_contra fun hnone => ?_)
    obtain ⟨hdots, hnul⟩ := not_or.mp hnone
    rw [relativeSegments_ok_iff.mpr ⟨fun s hs => ⟨fun heq => hdots (heq ▸ hs),
      fun hc => hnul ⟨s, hs, hc⟩⟩, rfl⟩] at h
    cases h

theorem isWithinRoot_child (root rest : Text) :
    isWithinRoot (Text.trimEndMatches '/' root ++ '/' :: rest) root = true := by
  rw [isWithinRoot, Bool.or_eq_true]
  exact .inr <| isPrefixOf_iff_prefix.mpr ⟨rest, by simp⟩

/-- What is cut off a root starts with a slash. -/
theorem isWithinRoot_self (root : Text) : isWithinRoot root root = true := by
  have hroot : Text.trimEndMatches '/' root ++ root.rtakeWhile (· == '/') = root := by
    rw [Text.trimEndMatches, rdropWhile, rtakeWhile, ← reverse_append, takeWhile_append_dropWhile,
      reverse_reverse]
  cases hslashes : root.rtakeWhile (· == '/') with
  | nil =>
    rw [hslashes, append_nil] at hroot
    rw [isWithinRoot, hroot]
    simp
  | cons c slashes =>
    obtain rfl : c = '/' :=
      eq_of_beq (mem_rtakeWhile_imp (p := (· == '/')) (hslashes ▸ mem_cons_self))
    rw [hslashes] at hroot
    nth_rewrite 1 [← hroot]
    exact isWithinRoot_child root slashes

/-- **A lexical sandbox**: exactly the paths with a `..` or a null byte are refused; a result is its
own, stays within any root and comes back from there; the root itself comes back as a dot, or as the
slashes behind the first if it is written with slashes at its end. -/
theorem sanitized_stays_within (path root : Text) :
    ((∃ e, sanitizeRelativePath path = .error e) ↔
      ['.', '.'] ∈ path.splitOnP isSeparator ∨ '\x00' ∈ path) ∧
    ∀ result, sanitizeRelativePath path = .ok result →
      sanitizeRelativePath result = .ok result ∧ isWithinRoot (candidate root result) root ∧
      (result ≠ [] → relativize (candidate root result) root = result) ∧
      (result = [] → (Text.trimEndMatches '/' root = root →
          relativize (candidate root result) root = ['.']) ∧
        ∀ slashes, root = Text.trimEndMatches '/' root ++ '/' :: slashes →
          relativize (candidate root result) root = slashes) := by
  refine ⟨sanitizeRelativePath_error_iff, fun result h => ?_⟩
  refine ⟨sanitizeRelativePath_result h, ?_⟩
  cases result with
  | nil =>
    refine ⟨isWithinRoot_self root, fun hne => absurd rfl hne, fun _ => ⟨fun hroot =>
      if_pos hroot.symm, fun slashes hroot => ?_⟩⟩
    have hunder : Text.startsWith (Text.trimEndMatches '/' root ++ ['/']) root = true :=
      isPrefixOf_iff_prefix.mpr ⟨slashes, by simpa using hroot.symm⟩
    have hne : root ≠ Text.trimEndMatches '/' root := by
      intro heq
      have := congrArg length (heq.symm.trans hroot)
      simp at this
    change relativize root root = slashes
    rw [relativize, if_neg hne, if_pos hunder]
    generalize Text.trimEndMatches '/' root = trimmed at hroot
    rw [hroot]
    simp
  | cons c rest =>
    have hne : Text.trimEndMatches '/' root ++ '/' :: c :: rest ≠ Text.trimEndMatches '/' root := by
      simp
    have hunder : Text.startsWith (Text.trimEndMatches '/' root ++ ['/'])
        (Text.trimEndMatches '/' root ++ '/' :: c :: rest) = true :=
      isPrefixOf_iff_prefix.mpr ⟨c :: rest, by simp⟩
    exact ⟨isWithinRoot_child root _, fun _ => by simp [candidate, relativize, hne, hunder], nofun⟩

theorem root_comes_back_as_dot :
    sanitizeRelativePath "" = .ok [] ∧ relativize (candidate "/srv/app" []) "/srv/app" = ['.'] := by
  decide

end VibeSsh.Sandbox
