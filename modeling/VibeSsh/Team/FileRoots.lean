import VibeSsh.Team.ReadOnlyGrant

/-! # The root of a file rule

A file rule fixes the directory its helper works in. `rule_safe_directory` refuses `/` and any `..`
by the letter; a spelling of the root with `.` segments in it passes, and the helper resolves it to
the root. -/

namespace VibeSsh.FileRoots

open Lib Lib.Posix Coreutils MemberSudoers FileHelper ReadOnlyGrant List

theorem ruleSafeDirectory_some {directory root : Text} (h : ruleSafeDirectory directory = some root) :
    root = Text.trimEndMatches '/' directory ∧ ['.', '.'] ∉ root.splitOn '/' := by
  unfold ruleSafeDirectory at h
  dsimp only at h
  split at h
  next hsafe =>
    obtain rfl := Option.some.inj h
    simp only [Bool.and_eq_true, Bool.not_eq_true', any_eq_false, beq_iff_eq] at hsafe
    exact ⟨rfl, fun hup => hsafe.1.2 _ hup rfl⟩
  next => cases h

/-! ## What the helper makes of it -/

def LinkFree (fs : Fs) : Prop := ∀ p target, fs.get p ≠ some (.link target)

/-- Without links and `..`, a walk goes down the names it is given. -/
theorem walkWith_linkFree {fs : Fs} (hfs : LinkFree fs) {follow : Path → List Text → Walk}
    {cur p : Path} {comps : List Text} (hup : ['.', '.'] ∉ comps)
    (h : walkWith fs follow cur comps = .found p) :
    p = cur ++ comps.filter fun n => n ≠ [] ∧ n ≠ ['.'] := by
  fun_induction walkWith fs follow cur comps with
  | case1 cur =>
    cases h
    simp
  | case2 | case5 | case6 | case7 => cases h
  | case3 cur n rest hdir hn ih =>
    rw [ih (fun hmem => hup (mem_cons_of_mem n hmem)) h]
    rcases hn with rfl | rfl <;> simp
  | case4 => exact absurd mem_cons_self hup
  | case8 cur n rest hdir hn hn' target hget => exact absurd hget (hfs _ target)
  | case9 cur n rest hdir hn hn' node hnotlink hget ih =>
    rw [ih (fun hmem => hup (mem_cons_of_mem n hmem)) h]
    simp [not_or.mp hn]

theorem lexical_eq_filter (t : Text) :
    Text.lexical t = (t.splitOn '/').filter fun n => n ≠ [] ∧ n ≠ ['.'] := by
  unfold Text.lexical Text.segments
  rw [filter_filter]
  congr 1
  funext n
  rw [Bool.eq_iff_iff]
  simp [and_comm]

/-- The helper does not take the directory for the root of the machine. -/
theorem canonical_ne_root {directory root : Text} (hroot : ruleSafeDirectory directory = some root)
    (hne : Text.lexical root ≠ []) (tools : Tools) {fs : Fs} (hfs : LinkFree fs) :
    canonical tools fs root ≠ some ['/'] := by
  intro h
  obtain ⟨-, hup⟩ := ruleSafeDirectory_some hroot
  obtain ⟨r, hr, hsub⟩ := Option.map_eq_some_iff.mp h
  unfold realpathE at hr
  split at hr
  next p hresolve =>
    obtain rfl := Option.some.inj hr
    have hp : p = Text.lexical root := by
      rw [resolve, ite_self] at hresolve
      split_ifs at hresolve
      · obtain ⟨follow, hwalk⟩ := walk_eq_walkWith fs tools.links
        rw [hwalk] at hresolve
        rw [walkWith_linkFree hfs hup hresolve, lexical_eq_filter, nil_append]
    rw [← hp] at hne
    have hnewline : '\n' ∉ render p := by
      rw [render_eq_spelled hne]
      intro hmem
      obtain ⟨n, hn, hc⟩ := mem_flatMap.mp hmem
      rw [hp, lexical_eq_filter] at hn
      rcases mem_cons.mp hc with hc | hc
      · cases hc
      · exact not_mem_root hroot (by decide) (Text.mem_of_mem_splitOn (mem_of_mem_filter hn) hc)
    have hkept : substitution (render p) = render p := by
      unfold substitution Text.trimEndMatches
      rw [rdropWhile_eq_self_iff]
      intro hl hlast
      exact hnewline (beq_iff_eq.mp hlast ▸ getLast_mem hl)
    rw [hkept, render_eq_spelled hne] at hsub
    obtain ⟨n, rest, rfl⟩ := exists_cons_of_ne_nil hne
    have hn : n ∈ Text.lexical root := hp ▸ mem_cons_self
    rw [lexical_eq_filter] at hn
    have hempty : n = [] := by
      have := congrArg List.tail hsub
      simp only [spelled, flatMap_cons, cons_append, tail_cons] at this
      exact (append_eq_nil_iff.mp this).1
    simp [hempty] at hn
  next => cases hr

/-- **The root of a file rule is not the root of the machine exactly when the working directory names
something below it.** -/
theorem file_rule_below_root_iff {grant : ApplicationGrant} {rule : FileRule}
    (hrule : (applicationRules grant).files = some rule) :
    (Text.lexical rule.root ≠ [] ∧ ['.', '.'] ∉ rule.root.splitOn '/' ∧
      ∀ tools fs, LinkFree fs → canonical tools fs rule.root ≠ some ['/']) ↔
      ∃ part ∈ grant.workingDirectory.splitOn '/', part ≠ [] ∧ part ≠ ['.'] := by
  obtain ⟨hroot, -⟩ := files_of_grant hrule
  obtain ⟨htrimmed, hup⟩ := ruleSafeDirectory_some hroot
  have hsame : Text.lexical rule.root = Text.lexical grant.workingDirectory := by
    rw [htrimmed, Text.lexical, Text.segments_trimEndMatches, Text.lexical]
  have hnamed : Text.lexical rule.root ≠ [] ↔
      ∃ part ∈ grant.workingDirectory.splitOn '/', part ≠ [] ∧ part ≠ ['.'] := by
    rw [hsame, lexical_eq_filter, Ne, filter_eq_nil_iff]
    simp
  rw [← hnamed]
  exact ⟨fun h => h.1, fun h => ⟨h, hup, fun tools _ hfs => canonical_ne_root hroot h tools hfs⟩⟩

theorem appRule_below_root :
    (applicationRules appGrant).files = some appRule ∧
      Text.lexical appRule.root = ["srv".toList, "app".toList] ∧
      ∀ tools fs, LinkFree fs → canonical tools fs appRule.root ≠ some ['/'] :=
  ⟨rfl, by decide, ((@file_rule_below_root_iff appGrant appRule rfl).mpr
    ⟨"srv".toList, by decide, by decide⟩).2.2⟩

/-- A working directory that is the root, spelled with a dot. -/
def dottedGrant : ApplicationGrant :=
  ⟨Uuid.nil, .docker, "/.", ["applications.files.write"]⟩

/-- The rule is written, with a root that its helper resolves to the root of the machine. -/
theorem dotted_root_resolves_to_machine_root :
    (applicationRules dottedGrant).files.map (·.root) = some "/.".toList ∧
      Text.lexical "/.".toList = [] ∧ canonical plainTools appNode "/.".toList = some ['/'] := by
  decide

end VibeSsh.FileRoots
