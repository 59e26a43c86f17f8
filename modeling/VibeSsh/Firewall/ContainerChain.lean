import VibeSsh.Firewall.Added
import VibeSsh.Firewall.DockerUser

/-! # Reconciling `DOCKER-USER`

`docker_user::reconcile` on a chain it shares with other tools. It knows its own rules by reading
`iptables -S` back: a line that mentions the marker, cut into words. `iptables` prints a source in
its own spelling, and another tool's rule may mention the marker too. -/

open List

namespace VibeSsh.Firewall

open Lib Command

/-! ## Reading the chain -/

def marker : Text := "vibessh"

def wordAfter (tokens : List Text) (flag : Text) : Option Text :=
  (tokens.findIdx? (· = flag)).bind fun i => tokens[i + 1]?

def parseOwnedLine (line : Text) : Option ContainerRule := do
  let tokens := Text.words line
  let protocol ← (wordAfter tokens "-p").bind parseProtocol
  let port ← (wordAfter tokens "--dport").bind parsePort
  let cidr ← wordAfter tokens "-s"
  some ⟨port, protocol, cidr⟩

def parseOwnedRules (output : Text) : List ContainerRule :=
  ((Text.lines output).filter fun line =>
    Text.includes ("--comment " ++ marker) line ||
      Text.includes ("--comment \"" ++ marker ++ "\"") line).filterMap parseOwnedLine

/-! ## The tool -/

/-- What `iptables` makes of the words it is given. It prints a source it accepts in one spelling,
which it accepts and keeps, made of the characters of addresses; and it may quote the comment. -/
structure Iptables where
  source : Text → Option Text
  source_source : ∀ {given spelled}, source given = some spelled → source spelled = some spelled
  source_accepted : ∀ {given spelled}, source given = some spelled → sourceAccepted spelled = true
  quotes : Bool
  /-- What a failed run of the helper leaves on `stderr`. -/
  stderr : List Text → Text

/-- A restriction as the chain holds it. -/
structure Drop (ip : Iptables) where
  rule : ContainerRule
  port : rule.port ≠ 0
  spelled : ip.source rule.sourceCidr = some rule.sourceCidr
  deriving DecidableEq

/-- A rule of the chain: one this module writes, or any other, by its text in `iptables -S`. -/
inductive Rule (ip : Iptables) where
  | established
  | drop (d : Drop ip)
  | other (text : Text)
  deriving DecidableEq

section

variable {ip : Iptables}

def commentWord (ip : Iptables) : Text :=
  if ip.quotes then "\"" ++ marker ++ "\"" else marker

def establishedWords (ip : Iptables) : List Text :=
  ["-A", "DOCKER-USER", "-m", "conntrack", "--ctstate",
    "RELATED,ESTABLISHED", "-m", "comment", "--comment", commentWord ip,
    "-j", "RETURN"]

def Drop.words (d : Drop ip) : List Text :=
  ["-A", "DOCKER-USER", "!", "-s", d.rule.sourceCidr, "-p",
    d.rule.protocol.str, "-m", d.rule.protocol.str, "--dport",
    Text.ofNat d.rule.port.toNat, "-m", "comment", "--comment", commentWord ip,
    "-j", "DROP"]

def Rule.render : Rule ip → Text
  | .established => Text.join [' '] (establishedWords ip)
  | .drop d => Text.join [' '] d.words
  | .other text => text

/-- `iptables -S DOCKER-USER`. -/
def listing (chain : List (Rule ip)) : Text :=
  "-N DOCKER-USER\n" ++ chain.flatMap fun rule => rule.render ++ ['\n']

end

namespace Iptables

variable (ip : Iptables)

/-- The restriction an insert or a delete names. -/
def accept (protocol port source : Text) : Option (Drop ip) := do
  let protocol ← parseProtocol protocol
  let port ← parsePort port
  if hport : port ≠ 0 then
    match hsource : ip.source source with
    | none => none
    | some spelled => some ⟨⟨port, protocol, spelled⟩, hport, ip.source_source hsource⟩
  else none

/-- `none` is a non-zero exit, with the chain as it was. -/
def apply : IptablesCall → List (Rule ip) → Option (List (Rule ip))
  | .check, chain => some chain
  | .list, chain => some chain
  | .drop true protocol port source, chain =>
    (ip.accept protocol port source).map fun d => .drop d :: chain
  | .drop false protocol port source, chain =>
    (ip.accept protocol port source).bind fun d =>
      if .drop d ∈ chain then some (chain.erase (.drop d)) else none
  | .established true, chain => some (.established :: chain)
  | .established false, chain =>
    if .established ∈ chain then some (chain.erase .established) else none

/-- `sudo <helper> <arguments…>`. -/
def run (arguments : List Text) (chain : List (Rule ip)) : Option (List (Rule ip)) :=
  (helper arguments).bind (ip.apply · chain)

end Iptables

/-! ## The loop -/

def deleteArguments (rule : ContainerRule) : List Text :=
  ["drop", "del", rule.protocol.str, Text.ofNat rule.port.toNat, rule.sourceCidr]

def conntrackReturnArguments : List Text := ["established", "add"]

def conntrackDeleteArguments : List Text := ["established", "del"]

section

variable (ip : Iptables)

def failure (arguments : List Text) : Text :=
  let detail := Text.trim (ip.stderr arguments)
  if detail.isEmpty then "iptables failed" else detail

/-- Deletes a rule that is not wanted any more; a failure is only logged. -/
def removeUnwanted (wanted : List ContainerRule) (state : List (Rule ip) × Nat)
    (rule : ContainerRule) : List (Rule ip) × Nat :=
  if wanted.contains rule then state
  else match ip.run (deleteArguments rule) state.1 with
    | some chain => (chain, state.2 + 1)
    | none => state

def removeStale (wanted owned : List ContainerRule) (chain : List (Rule ip)) :
    List (Rule ip) × Nat :=
  owned.foldl (removeUnwanted ip wanted) (chain, 0)

def addMissing (owned : List ContainerRule) :
    List ContainerRule → List (Rule ip) × Nat → AppResult (List (Rule ip) × Nat)
  | [], state => .ok state
  | rule :: wanted, state =>
    if owned.contains rule then addMissing owned wanted state
    else match ip.run (dropArguments rule) state.1 with
      | some chain => addMissing owned wanted (chain, state.2 + 1)
      | none => .error (.connection ("couldn't restrict container traffic on " ++
          Text.ofNat rule.port.toNat ++ "/" ++ rule.protocol.str ++ ": " ++
          failure ip (dropArguments rule)))

/-- The return of established flows, put back at the top. -/
def returnEstablished (wanted : List ContainerRule) (chain : List (Rule ip)) :
    AppResult (List (Rule ip)) :=
  if wanted.isEmpty then .ok chain
  else
    let chain := (ip.run conntrackDeleteArguments chain).getD chain
    match ip.run conntrackReturnArguments chain with
    | some chain => .ok chain
    | none => .error (.connection ("couldn't allow established container traffic back: " ++
        failure ip conntrackReturnArguments))

/-- The chain, if the Node has one, afterwards, and how many rules were added and removed. -/
def reconcile (desired : List ContainerRule) :
    Option (List (Rule ip)) → AppResult (Option (List (Rule ip)) × Nat × Nat)
  | none => .ok (none, 0, 0)
  | some chain => do
    let owned := parseOwnedRules (listing chain)
    let wanted := dedupe desired
    let (chain, removed) := removeStale ip wanted owned chain
    let (chain, added) ← addMissing ip owned wanted (chain, 0)
    let chain ← returnEstablished ip wanted chain
    .ok (some chain, added, removed)

end

/-! ## Whose rules are whose -/

section

variable {ip : Iptables}

variable {rule : ContainerRule}

section

variable (chain : List (Rule ip))

/-- The rules this module did not write. -/
def foreign : List Text :=
  chain.filterMap fun
    | .other text => some text
    | _ => none

/-- The restrictions read out of other rules' lines. -/
def misread : List ContainerRule :=
  (foreign chain).flatMap fun text => parseOwnedRules (text ++ ['\n'])

/-- The restriction the helper makes of a rule, if it and `iptables` accept it. -/
def written (ip : Iptables) (rule : ContainerRule) : Option (Drop ip) :=
  (helper (dropArguments rule)).bind fun
    | .drop _ protocol port source => ip.accept protocol port source
    | _ => none

theorem parseOwnedRules_append (a b : Text) :
    parseOwnedRules (a ++ '\n' :: b) = parseOwnedRules (a ++ ['\n']) ++ parseOwnedRules b := by
  unfold parseOwnedRules
  rw [Text.lines_append_newline, filter_append, filterMap_append]

/-! ### What a line is read as -/

/-- A word: something, without blanks. -/
def IsWord (w : Text) : Prop := w ≠ [] ∧ ∀ c ∈ w, Text.isWhitespace c = false

theorem isWord_literal {w : Text} (hne : w ≠ []) (h : (w.all fun c => !Text.isWhitespace c) = true) :
    IsWord w := ⟨hne, fun _ => Text.isWhitespace_of_mem_all h⟩

theorem words_join {ws : List Text} (h : ∀ w ∈ ws, IsWord w) : Text.words (Text.join [' '] ws) = ws := by
  by_cases hne : ws = []
  · rw [hne]
    rfl
  rw [Text.words, Text.splitOnP_join (by decide) hne fun w hw => (h w hw).2, filter_eq_self]
  exact fun w hw => by simpa using (h w hw).1

/-- A line of words is one line. -/
theorem lines_join_words {ws : List Text} (h : ∀ w ∈ ws, IsWord w) :
    Text.lines (Text.join [' '] ws ++ ['\n']) = [Text.join [' '] ws] := by
  have hclean : ∀ c ∈ Text.join [' '] ws, c = ' ' ∨ Text.isWhitespace c = false := by
    intro c hc
    rcases Text.mem_join hc with hblank | ⟨w, hw, hc⟩
    · exact .inl (mem_singleton.mp hblank)
    · exact .inr ((h w hw).2 c hc)
  have hnewline : '\n' ∉ Text.join [' '] ws := fun hc =>
    (hclean _ hc).elim (by decide) (by decide)
  have hreturn : (Text.join [' '] ws).getLast? ≠ some '\r' := fun hc =>
    (hclean _ (mem_of_getLast? hc)).elim (by decide) (by decide)
  rw [Text.lines_line hnewline, Text.chomp_of_ne hreturn]

theorem isWord_of_sourceAccepted {source : Text} (h : sourceAccepted source = true) :
    IsWord source ∧ '-' ∉ source := by
  simp only [sourceAccepted, Bool.and_eq_true, Bool.not_eq_true', isEmpty_eq_false_iff,
    all_eq_true] at h
  obtain ⟨⟨hne, -⟩, hall⟩ := h
  have hrange : ∀ c ∈ source, 46 ≤ c.toNat ∧ c.toNat ≤ 102 := by
    intro c hc
    have hc' := hall c hc
    simp only [Bool.or_eq_true, Bool.and_eq_true, decide_eq_true_eq, beq_iff_eq, Char.isDigit,
      ge_iff_le] at hc'
    rcases hc' with ((((h | h) | h) | rfl) | rfl) | rfl
    iterate 3 exact ⟨le_trans (by decide) h.1, le_trans h.2 (by decide)⟩
    all_goals decide
  refine ⟨⟨hne, fun c hc => ?_⟩, fun hdash => ?_⟩
  · have hc' := hrange c hc
    exact Text.isWhitespace_eq_false (by omega) (by omega)
  · have hdash' := hrange '-' hdash
    revert hdash'
    decide

theorem isWord_commentWord (ip : Iptables) : IsWord (commentWord ip) := by
  unfold commentWord
  split <;> exact isWord_literal (by decide) (by decide)

theorem Drop.isWord (d : Drop ip) : ∀ w ∈ d.words, IsWord w := by
  have hsource := (isWord_of_sourceAccepted (ip.source_accepted d.spelled)).1
  have hport : IsWord (Text.ofNat d.rule.port.toNat) :=
    ⟨Text.ofNat_ne_nil _, fun _ => Text.isWhitespace_of_mem_ofNat⟩
  have hliteral : ∀ w ∈ ["-A", "DOCKER-USER", "!", "-s", "-p",
      "-m", "--dport", "comment", "--comment", "-j",
      "DROP"], IsWord w := by
    intro w hw
    refine isWord_literal ?_ ?_ <;> revert w <;> decide
  intro w hw
  simp only [Drop.words, mem_cons, not_mem_nil, or_false] at hw
  rcases hw with rfl | rfl | rfl | rfl | rfl | rfl | rfl | rfl | rfl | rfl | rfl | rfl | rfl | rfl |
    rfl | rfl | rfl
  all_goals first
    | exact hsource
    | exact hport
    | exact ⟨str_ne_nil _, isWhitespace_str _⟩
    | exact isWord_commentWord ip
    | exact hliteral _ (by decide)

theorem wordAfter_cons (w : Text) (tokens : List Text) (flag : Text) :
    wordAfter (w :: tokens) flag = if w = flag then tokens.head? else wordAfter tokens flag := by
  unfold wordAfter
  rw [List.findIdx?_cons]
  by_cases h : w = flag
  · simp [h, List.head?_eq_getElem?]
  · simp only [h, decide_false, Bool.false_eq_true, if_false]
    cases tokens.findIdx? (· = flag) <;> rfl

/-- A restriction's line is read as the restriction, in the spelling it has in the chain. -/
theorem Drop.parseOwnedLine (d : Drop ip) : parseOwnedLine (Text.join [' '] d.words) = some d.rule := by
  have hdash := (isWord_of_sourceAccepted (ip.source_accepted d.spelled)).2
  have hne : ∀ flag : Text, '-' ∈ flag → d.rule.sourceCidr ≠ flag := by
    rintro flag hflag rfl
    exact hdash hflag
  have hstr : ∀ flag : Text, '-' ∈ flag → d.rule.protocol.str ≠ flag := by
    rintro flag hflag rfl
    have hno : ∀ p : PortProtocol, '-' ∉ p.str := fun p => by cases p <;> decide
    exact hno _ hflag
  unfold Firewall.parseOwnedLine
  rw [words_join d.isWord]
  simp [Drop.words, wordAfter_cons, hne, hstr, parseProtocol_str, parsePort_ofNat]

/-- The test `parse_owned_rules` makes of a line. -/
def mentionsMarker (line : Text) : Bool :=
  Text.includes ("--comment " ++ marker) line ||
    Text.includes ("--comment \"" ++ marker ++ "\"") line

theorem Drop.mentionsMarker (d : Drop ip) : mentionsMarker (Text.join [' '] d.words) = true := by
  have hline : Text.join [' '] (d.words.take 13) ++ [' '] ++
      ("--comment " ++ commentWord ip ++ " -j DROP") = Text.join [' '] d.words := by
    simp [Drop.words, Text.join, intercalate_cons_cons]
  rw [← hline]
  unfold Firewall.mentionsMarker commentWord
  rw [Bool.or_eq_true]
  split
  · exact .inr (Text.includes_append _ ("--comment \"" ++ marker ++ "\"") " -j DROP")
  · exact .inl (Text.includes_append _ ("--comment " ++ marker) " -j DROP")

theorem parseOwnedRules_drop (d : Drop ip) :
    parseOwnedRules ((Rule.drop d).render ++ ['\n']) = [d.rule] := by
  have hmarked := d.mentionsMarker
  unfold Firewall.mentionsMarker at hmarked
  unfold parseOwnedRules Rule.render
  rw [lines_join_words d.isWord, filter_cons, if_pos hmarked, filter_nil,
    filterMap_cons, d.parseOwnedLine, filterMap_nil]

/-- The listing has the line of the restriction, as the helper has it written. -/
def Listed (ip : Iptables) (output : Text) (rule : ContainerRule) : Prop :=
  ∃ d : Drop ip, d.rule = rule ∧ Text.join [' '] d.words ∈ Text.lines output

/-- What the scan looks for in a line. The target, the rest of the comment and the sense of the
source are not among it. -/
structure Resembles (line : Text) (rule : ContainerRule) : Prop where
  marker : mentionsMarker line = true
  protocol : (wordAfter (Text.words line) "-p").bind parseProtocol = some rule.protocol
  port : (wordAfter (Text.words line) "--dport").bind parsePort = some rule.port
  source : wordAfter (Text.words line) "-s" = some rule.sourceCidr

theorem parseOwnedLine_eq_some {line : Text} :
    parseOwnedLine line = some rule ↔
      (wordAfter (Text.words line) "-p").bind parseProtocol = some rule.protocol ∧
      (wordAfter (Text.words line) "--dport").bind parsePort = some rule.port ∧
      wordAfter (Text.words line) "-s" = some rule.sourceCidr := by
  obtain ⟨port, protocol, source⟩ := rule
  unfold parseOwnedLine
  simp only [Option.bind_eq_bind]
  constructor
  · intro h
    obtain ⟨protocol', hprotocol, h⟩ := Option.bind_eq_some_iff.mp h
    obtain ⟨port', hport, h⟩ := Option.bind_eq_some_iff.mp h
    obtain ⟨source', hsource, h⟩ := Option.bind_eq_some_iff.mp h
    cases h
    exact ⟨hprotocol, hport, hsource⟩
  · rintro ⟨hprotocol, hport, hsource⟩
    rw [hprotocol, hport, hsource]
    rfl

theorem mem_parseOwnedRules {output : Text} :
    rule ∈ parseOwnedRules output ↔ ∃ line ∈ Text.lines output, Resembles line rule := by
  unfold parseOwnedRules
  simp only [mem_filterMap, mem_filter, parseOwnedLine_eq_some]
  constructor
  · rintro ⟨line, ⟨hline, hmarker⟩, hprotocol, hport, hsource⟩
    exact ⟨line, hline, hmarker, hprotocol, hport, hsource⟩
  · rintro ⟨line, hline, hmarker, hprotocol, hport, hsource⟩
    exact ⟨line, ⟨hline, hmarker⟩, hprotocol, hport, hsource⟩

/-- **Exactly its own rules are recognised** in a listing where nothing else resembles one that is
not there. -/
theorem own_rules_recognised_iff (ip : Iptables) (output : Text) :
    (∀ rule, rule ∈ parseOwnedRules output ↔ Listed ip output rule) ↔
      ∀ line ∈ Text.lines output, ∀ rule, Resembles line rule → Listed ip output rule := by
  constructor
  · intro h line hline rule hresembles
    exact (h rule).mp (mem_parseOwnedRules.mpr ⟨line, hline, hresembles⟩)
  · intro h rule
    rw [mem_parseOwnedRules]
    constructor
    · rintro ⟨line, hline, hresembles⟩
      exact h line hline rule hresembles
    · rintro ⟨d, rfl, hline⟩
      obtain ⟨hprotocol, hport, hsource⟩ := parseOwnedLine_eq_some.mp d.parseOwnedLine
      exact ⟨_, hline, d.mentionsMarker, hprotocol, hport, hsource⟩

theorem parseOwnedRules_established :
    parseOwnedRules ((Rule.established : Rule ip).render ++ ['\n']) = [] := by
  have hwords : ∀ w ∈ establishedWords ip, IsWord w := by
    intro w hw
    simp only [establishedWords, mem_cons, not_mem_nil, or_false] at hw
    rcases hw with rfl | rfl | rfl | rfl | rfl | rfl | rfl | rfl | rfl | rfl | rfl | rfl
    all_goals first
      | exact isWord_commentWord ip
      | exact isWord_literal (by decide) (by decide)
  have hnone : parseOwnedLine (Text.join [' '] (establishedWords ip)) = none := by
    have hprotocol : wordAfter (establishedWords ip) "-p" = none := by
      unfold establishedWords commentWord
      split <;> decide
    unfold parseOwnedLine
    simp only [words_join hwords, hprotocol, Option.bind_none, Option.bind_eq_bind]
  unfold parseOwnedRules Rule.render
  rw [lines_join_words hwords, filterMap_eq_nil_iff]
  intro line hline
  rw [mem_singleton.mp (mem_of_mem_filter hline)]
  exact hnone

theorem parseOwnedRules_listing : parseOwnedRules (listing chain) =
    chain.flatMap fun r => parseOwnedRules (r.render ++ ['\n']) := by
  have hrules : ∀ rest : List (Rule ip),
      parseOwnedRules (rest.flatMap fun r => r.render ++ ['\n']) =
        rest.flatMap fun r => parseOwnedRules (r.render ++ ['\n']) := by
    intro rest
    induction rest with
    | nil => rfl
    | cons r rest ih =>
      rw [flatMap_cons, flatMap_cons, ← ih, append_assoc]
      exact parseOwnedRules_append _ _
  have hheader : parseOwnedRules ("-N DOCKER-USER" ++ ['\n']) = [] := by decide
  have hsplit := parseOwnedRules_append "-N DOCKER-USER"
    (chain.flatMap fun r => r.render ++ ['\n'])
  rw [hheader, nil_append, hrules] at hsplit
  exact hsplit

/-- **What is read back**: the restrictions in the chain, and whatever other lines are taken for. -/
theorem mem_owned {chain : List (Rule ip)} :
    rule ∈ parseOwnedRules (listing chain) ↔
      (∃ d, .drop d ∈ chain ∧ d.rule = rule) ∨ rule ∈ misread chain := by
  rw [parseOwnedRules_listing, mem_flatMap]
  unfold misread foreign
  constructor
  · rintro ⟨r, hr, hrule⟩
    cases r with
    | established =>
      rw [parseOwnedRules_established] at hrule
      cases hrule
    | drop d =>
      rw [parseOwnedRules_drop, mem_singleton] at hrule
      exact .inl ⟨d, hr, hrule.symm⟩
    | other text =>
      exact .inr (mem_flatMap.mpr ⟨text, mem_filterMap.mpr ⟨_, hr, rfl⟩, hrule⟩)
  · rintro (⟨d, hd, rfl⟩ | hrule)
    · exact ⟨.drop d, hd, by rw [parseOwnedRules_drop]; exact mem_singleton_self _⟩
    · obtain ⟨text, htext, hrule⟩ := mem_flatMap.mp hrule
      obtain ⟨r, hr, hother⟩ := mem_filterMap.mp htext
      cases r with
      | other text' =>
        cases hother
        exact ⟨_, hr, hrule⟩
      | established => cases hother
      | drop d => cases hother

/-! ### What a command does -/

theorem helper_drop (rule : ContainerRule) (flag : Text) :
    helper ["drop", flag, rule.protocol.str, Text.ofNat rule.port.toNat, rule.sourceCidr] =
      if portAccepted (Text.ofNat rule.port.toNat) ∧ sourceAccepted rule.sourceCidr then
        (addOrDel flag).map fun add =>
          .drop add rule.protocol.str (Text.ofNat rule.port.toNat) rule.sourceCidr
      else none := by
  have hstr : rule.protocol.str = "tcp" ∨ rule.protocol.str = "udp" := by
    cases rule.protocol
    · exact .inl rfl
    · exact .inr rfl
  simp only [helper, hstr, true_and]

theorem run_drop_and_delete (rule : ContainerRule) (chain : List (Rule ip)) :
    ip.run (dropArguments rule) chain = (written ip rule).map (.drop · :: chain) ∧
      ip.run (deleteArguments rule) chain = (written ip rule).bind fun d =>
        if .drop d ∈ chain then some (chain.erase (.drop d)) else none := by
  unfold Iptables.run written dropArguments deleteArguments
  rw [helper_drop, helper_drop]
  split <;> exact ⟨rfl, rfl⟩

theorem run_conntrackDelete :
    (ip.run conntrackDeleteArguments chain).getD chain = chain.erase .established := by
  have hhelper : helper conntrackDeleteArguments = some (.established false) := by decide
  unfold Iptables.run
  rw [hhelper, Option.bind_some]
  change (if .established ∈ chain then some (chain.erase .established) else none).getD chain = _
  split
  · rfl
  · next habsent => exact (erase_of_not_mem habsent).symm

theorem run_conntrackReturn :
    ip.run conntrackReturnArguments chain = some (.established :: chain) := by
  have hhelper : helper conntrackReturnArguments = some (.established true) := by decide
  unfold Iptables.run
  rw [hhelper, Option.bind_some]
  rfl

end

theorem written_rule (d : Drop ip) : written ip d.rule = some d := by
  have hport : portAccepted (Text.ofNat d.rule.port.toNat) = true := by
    rw [portAccepted_ofNat]
    exact decide_eq_true d.port
  have hadd : addOrDel "add" = some true := by decide
  unfold written dropArguments
  rw [helper_drop, if_pos ⟨hport, ip.source_accepted d.spelled⟩]
  simp only [hadd, Option.map_some, Option.bind_some, Iptables.accept, parseProtocol_str,
    parsePort_ofNat, Option.bind_eq_bind]
  rw [dif_pos d.port]
  split
  · next hnone =>
    rw [d.spelled] at hnone
    cases hnone
  · next spelled hsome =>
    have heq : spelled = d.rule.sourceCidr := by
      rw [d.spelled] at hsome
      exact (Option.some.inj hsome).symm
    subst heq
    rfl

variable {d : Drop ip}

/-- A rule that is read back and writes a restriction is the restriction's own, or misread. -/
theorem eq_or_misread {chain : List (Rule ip)} (h : rule ∈ parseOwnedRules (listing chain))
    (hwritten : written ip rule = some d) : rule = d.rule ∨ rule ∈ misread chain := by
  rcases mem_owned.mp h with ⟨d', -, rfl⟩ | hmisread
  · rw [written_rule] at hwritten
    exact .inl (congrArg Drop.rule (Option.some.inj hwritten))
  · exact .inr hmisread

/-! ### The loops -/

def drops (ip : Iptables) (rules : List ContainerRule) : List (Rule ip) :=
  rules.filterMap fun rule => (written ip rule).map .drop

theorem mem_drops {rules : List ContainerRule} {r : Rule ip} :
    r ∈ drops ip rules ↔ ∃ rule ∈ rules, ∃ d, written ip rule = some d ∧ .drop d = r := by
  simp [drops]

theorem foreign_erase {r : Rule ip} (hr : ∀ text, r ≠ .other text) (chain : List (Rule ip)) :
    foreign (chain.erase r) = foreign chain := by
  induction chain with
  | nil => rfl
  | cons x rest ih =>
    rw [erase_cons]
    split
    · next heq =>
      rw [beq_iff_eq] at heq
      subst heq
      cases x with
      | other text => exact absurd rfl (hr text)
      | established => rfl
      | drop d => rfl
    · unfold foreign at ih ⊢
      rw [filterMap_cons, filterMap_cons, ih]

theorem foreign_diff (rules : List ContainerRule) (chain : List (Rule ip)) :
    foreign (chain.diff (drops ip rules)) = foreign chain := by
  have hdrop : ∀ r ∈ drops ip rules, ∀ text, r ≠ .other text := by
    intro r hr text
    obtain ⟨_, -, _, -, rfl⟩ := mem_drops.mp hr
    simp
  generalize drops ip rules = rs at hdrop
  induction rs generalizing chain with
  | nil => rfl
  | cons r rs ih =>
    rw [forall_mem_cons] at hdrop
    rw [diff_cons, ih _ hdrop.2, foreign_erase hdrop.1]

/-- **What is read back and not wanted is deleted**, a copy for each time it is read, where there
is one. -/
theorem removeAll_eq (wanted owned : List ContainerRule) (state : List (Rule ip) × Nat) :
    owned.foldl (removeUnwanted ip wanted) state =
      (state.1.diff (drops ip (owned.filter (· ∉ wanted))), state.2 +
        (state.1.length - (state.1.diff (drops ip (owned.filter (· ∉ wanted)))).length)) := by
  induction owned generalizing state with
  | nil => simp [drops]
  | cons rule owned ih =>
    rw [foldl_cons, ih]
    unfold removeUnwanted
    by_cases hwanted : rule ∈ wanted
    · simp [hwanted]
    rw [if_neg (mt contains_iff_mem.mp hwanted), (run_drop_and_delete rule state.1).2,
      filter_cons_of_pos (by simpa using hwanted)]
    cases hwritten : written ip rule with
    | none => simp [drops, hwritten]
    | some d =>
      have hdrops : drops ip (rule :: owned.filter (· ∉ wanted)) =
          .drop d :: drops ip (owned.filter (· ∉ wanted)) := by
        simp [drops, hwritten]
      rw [hdrops, diff_cons, Option.bind_some]
      by_cases hmem : .drop d ∈ state.1
      · have hle := (diff_sublist (state.1.erase (.drop d))
          (drops ip (owned.filter (· ∉ wanted)))).length_le
        have hlen := length_erase_of_mem hmem
        have hpos := length_pos_of_mem hmem
        simp only [if_pos hmem, Prod.mk.injEq, true_and]
        omega
      · rw [if_neg hmem, erase_of_not_mem hmem]

theorem diff_eq_self {chain rs : List (Rule ip)} (h : ∀ r ∈ rs, r ∉ chain) :
    chain.diff rs = chain := by
  induction rs with
  | nil => rfl
  | cons r rs ih =>
    rw [forall_mem_cons] at h
    rw [diff_cons, erase_of_not_mem h.1, ih h.2]

/-- Nothing is deleted exactly where nothing that would be is there. -/
theorem diff_length_iff {chain rs : List (Rule ip)} :
    chain.length - (chain.diff rs).length = 0 ↔ ∀ r ∈ rs, r ∉ chain := by
  have hle := (diff_sublist chain rs).length_le
  constructor
  · intro hlen r hr hmem
    have hsame : chain.diff rs = chain := (diff_sublist chain rs).eq_of_length (by omega)
    have hcount := congrArg (List.count r) hsame
    rw [count_diff] at hcount
    have h₁ := count_pos_iff.mpr hr
    have h₂ := count_pos_iff.mpr hmem
    omega
  · intro h
    rw [diff_eq_self h]
    omega

theorem addMissing_ok (owned : List ContainerRule) {wanted : List ContainerRule}
    (h : ∀ rule ∈ wanted, (written ip rule).isSome = true) (state : List (Rule ip) × Nat) :
    addMissing ip owned wanted state =
      .ok ((drops ip (wanted.filter (· ∉ owned))).reverse ++ state.1,
        state.2 + (wanted.filter (· ∉ owned)).length) := by
  induction wanted generalizing state with
  | nil => rfl
  | cons rule wanted ih =>
    have hrest : ∀ r ∈ wanted, (written ip r).isSome = true :=
      fun r hr => h r (mem_cons_of_mem _ hr)
    unfold addMissing
    by_cases howned : rule ∈ owned
    · rw [if_pos (contains_iff_mem.mpr howned), ih hrest]
      simp [howned]
    · obtain ⟨d, hd⟩ := Option.isSome_iff_exists.mp (h rule mem_cons_self)
      rw [if_neg (mt contains_iff_mem.mp howned), (run_drop_and_delete rule state.1).1, hd]
      simp only [Option.map_some, ih hrest]
      have hfilter : (rule :: wanted).filter (· ∉ owned) = rule :: wanted.filter (· ∉ owned) := by
        simp [howned]
      rw [hfilter]
      simp [drops, hd, Nat.add_assoc, Nat.add_comm 1]

theorem foreign_drops (ip : Iptables) (rules : List ContainerRule) (chain : List (Rule ip)) :
    foreign ((drops ip rules).reverse ++ chain) = foreign chain := by
  have hnone : foreign (drops ip rules).reverse = [] := by
    unfold foreign
    rw [filterMap_eq_nil_iff]
    intro r hr
    obtain ⟨_, -, d, -, rfl⟩ := mem_drops.mp (mem_reverse.mp hr)
    rfl
  unfold foreign at hnone ⊢
  rw [filterMap_append, hnone, nil_append]

theorem nodup_dedupe (rules : List ContainerRule) : (dedupe rules).Nodup := by
  have key : ∀ (rest out : List ContainerRule), out.Nodup →
      (rest.foldl (fun out rule => if out.contains rule then out else out ++ [rule]) out).Nodup := by
    intro rest
    induction rest with
    | nil => exact fun out hout => hout
    | cons rule rest ih =>
      intro out hout
      rw [foldl_cons]
      refine ih _ ?_
      split
      · exact hout
      · next hnew =>
        rw [contains_iff_mem] at hnew
        exact nodup_append'.mpr ⟨hout, nodup_singleton _, by simpa using hnew⟩
  exact key rules [] nodup_nil

/-! ## One run -/

def missing (desired : List ContainerRule) (chain : List (Rule ip)) : List ContainerRule :=
  (dedupe desired).filter (· ∉ parseOwnedRules (listing chain))

/-- The chain a run of accepted rules leaves. -/
def reconciled (desired : List ContainerRule) (chain : List (Rule ip)) : List (Rule ip) :=
  let changed := (drops ip (missing desired chain)).reverse ++
    (removeStale ip (dedupe desired) (parseOwnedRules (listing chain)) chain).1
  if (dedupe desired).isEmpty then changed else .established :: changed.erase .established

section

variable {desired : List ContainerRule} {chain : List (Rule ip)}

theorem reconcile_eq (haccepted : ∀ rule ∈ desired, (written ip rule).isSome = true) :
    reconcile ip desired (some chain) = .ok (some (reconciled desired chain),
      (missing desired chain).length,
      (removeStale ip (dedupe desired) (parseOwnedRules (listing chain)) chain).2) := by
  have hreturn : ∀ changed : List (Rule ip), returnEstablished ip (dedupe desired) changed =
      .ok (if (dedupe desired).isEmpty then changed
        else .established :: changed.erase .established) := by
    intro changed
    unfold returnEstablished
    split
    · rfl
    · dsimp only
      rw [run_conntrackDelete, run_conntrackReturn]
  have hadd := addMissing_ok (parseOwnedRules (listing chain))
    (fun rule hrule => haccepted rule (mem_dedupe.mp hrule))
    ((removeStale ip (dedupe desired) (parseOwnedRules (listing chain)) chain).1, 0)
  simp only [reconcile, hadd, hreturn, bind, Except.bind, Nat.zero_add]
  rfl

/-- The chain with what is stale removed and what is missing added. -/
def changed (desired : List ContainerRule) (chain : List (Rule ip)) : List (Rule ip) :=
  (drops ip (missing desired chain)).reverse ++
    (removeStale ip (dedupe desired) (parseOwnedRules (listing chain)) chain).1

theorem reconciled_eq : reconciled desired chain = if (dedupe desired).isEmpty
    then changed desired chain else .established :: (changed desired chain).erase .established := rfl

/-- The restrictions of the rules that are read back and not wanted. -/
def stale (desired : List ContainerRule) (chain : List (Rule ip)) : List (Rule ip) :=
  drops ip ((parseOwnedRules (listing chain)).filter (· ∉ dedupe desired))

theorem drop_mem_stale : .drop d ∈ stale desired chain ↔
    ∃ rule ∈ parseOwnedRules (listing chain), rule ∉ desired ∧ written ip rule = some d := by
  simp [stale, mem_drops, mem_dedupe, and_assoc]

theorem removeStale_eq : removeStale ip (dedupe desired) (parseOwnedRules (listing chain)) chain =
    (chain.diff (stale desired chain), chain.length - (chain.diff (stale desired chain)).length) := by
  unfold removeStale
  rw [removeAll_eq, Nat.zero_add]
  rfl

/-- **Other rules stay, in their order.** -/
theorem foreign_reconciled : foreign (reconciled desired chain) = foreign chain := by
  have hchanged : foreign (changed desired chain) = foreign chain :=
    (foreign_drops ip _ _).trans (by rw [removeStale_eq]; exact foreign_diff ..)
  rw [reconciled_eq]
  split
  · exact hchanged
  · have hcons : ∀ rest : List (Rule ip), foreign (.established :: rest) = foreign rest :=
      fun rest => rfl
    rw [hcons, foreign_erase (by simp), hchanged]

theorem misread_reconciled : misread (reconciled desired chain) = misread chain := by
  unfold misread
  rw [foreign_reconciled]

theorem count_reconciled (d : Drop ip) : (reconciled desired chain).count (.drop d) =
    chain.count (.drop d) - (stale desired chain).count (.drop d) +
      (drops ip (missing desired chain)).count (.drop d) := by
  have hcount : (reconciled desired chain).count (.drop d) =
      (changed desired chain).count (.drop d) := by
    rw [reconciled_eq]
    split
    · rfl
    · rw [count_cons_of_ne (by simp), count_erase_of_ne (by simp)]
  rw [hcount, changed, count_append, count_reverse, removeStale_eq, count_diff]
  exact Nat.add_comm _ _

/-- A restriction nothing desired asks for is gone. -/
theorem count_reconciled_undesired (h : ∀ rule ∈ desired, written ip rule ≠ some d) :
    (reconciled desired chain).count (.drop d) = 0 := by
  have hnew : .drop d ∉ drops ip (missing desired chain) := by
    intro hmem
    obtain ⟨rule, hrule, _, hd, heq⟩ := mem_drops.mp hmem
    cases heq
    exact h rule (mem_dedupe.mp (mem_of_mem_filter hrule)) hd
  have hundesired : d.rule ∉ dedupe desired := fun hmem =>
    h d.rule (mem_dedupe.mp hmem) (written_rule d)
  -- Every copy in the chain is read back, and each takes one away.
  have hall : chain.count (.drop d) ≤ (stale desired chain).count (.drop d) := by
    unfold stale
    rw [parseOwnedRules_listing]
    clear hnew
    induction chain with
    | nil => exact Nat.zero_le _
    | cons r rest ih =>
      unfold drops at ih ⊢
      rw [flatMap_cons, filter_append, filterMap_append, count_append]
      by_cases hr : r = .drop d
      · subst hr
        rw [count_cons_self, parseOwnedRules_drop]
        simp only [filter_singleton, hundesired, not_false_iff, decide_true, cond_true,
          filterMap_cons, written_rule, Option.map_some, filterMap_nil,
          count_singleton_self]
        omega
      · rw [count_cons_of_ne hr]
        omega
  rw [count_reconciled, count_eq_zero_of_not_mem hnew]
  omega

/-! ## Two runs -/

/-- What a reconcile is for: other rules stay in their order, each restriction wanted is in the chain
once and no other is, established flows return ahead of them, and a second run changes nothing. -/
def ChainSettles (desired : List ContainerRule) (chain : List (Rule ip)) : Prop :=
  ∃ final added removed, reconcile ip desired (some chain) = .ok (some final, added, removed) ∧
    foreign final = foreign chain ∧
    (∀ d : Drop ip, final.count (.drop d) =
      if ∃ rule ∈ desired, written ip rule = some d then 1 else 0) ∧
    (desired ≠ [] → ∃ rest, final = .established :: rest) ∧
    reconcile ip desired (some final) = .ok (some final, 0, 0)

/-- Of the spellings of a restriction, those desired are the one the chain has for it and those other
rules' lines are taken for; and it is in the chain once, or not at all with no line taken for it. -/
def ReadsBack (desired : List ContainerRule) (chain : List (Rule ip)) : Prop :=
  ∀ rule ∈ desired, ∀ d, written ip rule = some d →
    (∀ spelling, written ip spelling = some d →
      (spelling ∈ desired ↔ spelling = d.rule ∨ spelling ∈ misread chain)) ∧
    (chain.count (.drop d) = 1 ∨ chain.count (.drop d) = 0 ∧ d.rule ∉ misread chain)

/-- A run changes nothing when the chain is led by the return of established flows, every rule wanted
is read back, and no unwanted one that is read back has its restriction there. -/
theorem reconcile_eq_self_iff (haccepted : ∀ rule ∈ desired, (written ip rule).isSome = true)
    (hlead : desired ≠ [] → ∃ rest, chain = .established :: rest) :
    reconcile ip desired (some chain) = .ok (some chain, 0, 0) ↔
      (∀ rule ∈ desired, rule ∈ parseOwnedRules (listing chain)) ∧
      ∀ rule ∈ parseOwnedRules (listing chain), rule ∉ desired → ∀ d, written ip rule = some d →
        .drop d ∉ chain := by
  have hnone : (missing desired chain).length = 0 ↔
      ∀ rule ∈ desired, rule ∈ parseOwnedRules (listing chain) := by
    unfold missing
    rw [length_eq_zero_iff, filter_eq_nil_iff]
    simp only [mem_dedupe, decide_eq_true_eq, not_not]
  rw [reconcile_eq haccepted]
  constructor
  · intro heq
    injection heq with heq
    simp only [Prod.mk.injEq] at heq
    refine ⟨hnone.mp heq.2.1, fun rule hrule hundesired => ?_⟩
    intro d hd
    rw [removeStale_eq] at heq
    exact diff_length_iff.mp heq.2.2 _ (drop_mem_stale.mpr ⟨rule, hrule, hundesired, hd⟩)
  · rintro ⟨hread, hgone⟩
    have hremoved : removeStale ip (dedupe desired) (parseOwnedRules (listing chain)) chain =
        (chain, 0) := by
      have habsent : ∀ r ∈ stale desired chain, r ∉ chain := by
        intro r hr
        obtain ⟨_, -, d, -, rfl⟩ := mem_drops.mp hr
        obtain ⟨rule, hrule, hunwanted, hd⟩ := drop_mem_stale.mp hr
        exact hgone rule hrule hunwanted d hd
      rw [removeStale_eq, diff_eq_self habsent, Nat.sub_self]
    have hmissing : missing desired chain = [] := length_eq_zero_iff.mp (hnone.mpr hread)
    have hsame : reconciled desired chain = chain := by
      unfold reconciled
      dsimp only
      rw [hremoved, hmissing]
      split
      · rfl
      · next hsome =>
        have hne : desired ≠ [] := by
          rintro rfl
          exact hsome rfl
        obtain ⟨rest, rfl⟩ := hlead hne
        simp [drops]
    rw [hsame, hmissing, hremoved]
    rfl

theorem reconciled_lead (hne : desired ≠ []) :
    ∃ rest, reconciled desired chain = .established :: rest := by
  unfold reconciled
  dsimp only
  rw [if_neg]
  · exact ⟨_, rfl⟩
  · intro hempty
    obtain ⟨rule, hrule⟩ := exists_mem_of_ne_nil desired hne
    have hmem := mem_dedupe.mpr hrule
    rw [isEmpty_iff.mp hempty] at hmem
    cases hmem

/-- Where the spellings agree, one copy is added to those there are, unless one is read back. -/
theorem count_reconciled_desired (hspelled : ∀ spelling, written ip spelling = some d →
      (spelling ∈ desired ↔ spelling = d.rule ∨ spelling ∈ misread chain)) :
    (reconciled desired chain).count (.drop d) = chain.count (.drop d) +
      if d.rule ∈ parseOwnedRules (listing chain) then 0 else 1 := by
  have hdesired : d.rule ∈ desired := (hspelled d.rule (written_rule d)).mpr (.inl rfl)
  have hkept : .drop d ∉ stale desired chain := by
    intro hmem
    obtain ⟨rule, hrule, hnot, hwritten⟩ := drop_mem_stale.mp hmem
    exact hnot ((hspelled rule hwritten).mpr (eq_or_misread hrule hwritten))
  have hadded : (drops ip (missing desired chain)).count (.drop d) =
      (missing desired chain).count d.rule := by
    rw [drops, count_filterMap]
    refine countP_congr fun rule hrule => ?_
    obtain ⟨hwanted, hunread⟩ := mem_filter.mp hrule
    simp only [beq_iff_eq, Option.map_eq_some_iff, Rule.drop.injEq, exists_eq_right]
    constructor
    · intro hwritten
      rcases (hspelled rule hwritten).mp (mem_dedupe.mp hwanted) with heq | hmisread
      · exact heq
      · exact absurd (mem_owned.mpr (.inr hmisread)) (by simpa using hunread)
    · rintro rfl
      exact written_rule d
  rw [count_reconciled, count_eq_zero_of_not_mem hkept, hadded, Nat.sub_zero]
  congr 1
  unfold missing
  split
  · next hread => exact count_eq_zero_of_not_mem (by simp [hread])
  · next hunread =>
    exact count_eq_one_of_mem ((nodup_dedupe desired).filter _)
      (mem_filter.mpr ⟨mem_dedupe.mpr hdesired, by simpa using hunread⟩)

theorem ReadsBack.settles (h : ReadsBack desired chain)
    (haccepted : ∀ rule ∈ desired, (written ip rule).isSome = true) : ChainSettles desired chain := by
  have hone : ∀ rule ∈ desired, ∀ d, written ip rule = some d →
      (reconciled desired chain).count (.drop d) = 1 := by
    intro rule hrule d hd
    obtain ⟨hspelled, hcount⟩ := h rule hrule d hd
    rw [count_reconciled_desired hspelled]
    rcases hcount with hcount | ⟨hcount, hunread⟩
    · have hmem : .drop d ∈ chain := count_pos_iff.mp (by omega)
      rw [hcount, if_pos (mem_owned.mpr (.inl ⟨d, hmem, rfl⟩))]
    · have habsent : d.rule ∉ parseOwnedRules (listing chain) := by
        rw [mem_owned]
        rintro (⟨d', hmem, heq⟩ | hmisread)
        · obtain rfl : d' = d := by
            have hwritten := written_rule d'
            rw [heq, written_rule] at hwritten
            exact (Option.some.inj hwritten).symm
          exact absurd (count_pos_iff.mpr hmem) (by omega)
        · exact hunread hmisread
      rw [hcount, if_neg habsent]
  refine ⟨_, _, _, reconcile_eq haccepted, foreign_reconciled, fun d => ?_, reconciled_lead, ?_⟩
  · split
    · next hdesired =>
      obtain ⟨rule, hrule, hd⟩ := hdesired
      exact hone rule hrule d hd
    · next hundesired =>
      exact count_reconciled_undesired fun rule hrule hd => hundesired ⟨rule, hrule, hd⟩
  refine (reconcile_eq_self_iff haccepted reconciled_lead).mpr ⟨fun rule hrule => ?_,
    fun rule hread hundesired d hd hmem => ?_⟩
  · obtain ⟨d, hd⟩ := Option.isSome_iff_exists.mp (haccepted rule hrule)
    refine mem_owned.mpr ?_
    rcases ((h rule hrule d hd).1 rule hd).mp hrule with heq | hmisread
    · exact .inl ⟨d, count_pos_iff.mp (by rw [hone rule hrule d hd]; decide), heq.symm⟩
    · exact .inr (by rwa [misread_reconciled])
  -- The restriction of an unwanted rule is one somebody desires in another spelling.
  · have hdesired : ∃ wanted ∈ desired, written ip wanted = some d := by
      by_contra hnone
      have hzero := @count_reconciled_undesired ip d desired chain
        fun wanted hwanted hd' => hnone ⟨wanted, hwanted, hd'⟩
      exact absurd (count_pos_iff.mpr hmem) (by omega)
    obtain ⟨wanted, hwanted, hd'⟩ := hdesired
    have hspelled := eq_or_misread hread hd
    rw [misread_reconciled] at hspelled
    exact hundesired (((h wanted hwanted d hd').1 rule hd).mpr hspelled)

theorem ChainSettles.readsBack (h : ChainSettles desired chain)
    (haccepted : ∀ rule ∈ desired, (written ip rule).isSome = true) : ReadsBack desired chain := by
  obtain ⟨final, added, removed, hrun, -, hcounts, hlead, hagain⟩ := h
  rw [reconcile_eq haccepted] at hrun
  injection hrun with hrun
  obtain rfl : reconciled desired chain = final := Option.some.inj (Prod.mk.inj hrun).1
  obtain ⟨hread, hgone⟩ := (reconcile_eq_self_iff haccepted hlead).mp hagain
  intro rule hrule d hd
  have hcount : (reconciled desired chain).count (.drop d) = 1 := by
    rw [hcounts d, if_pos ⟨rule, hrule, hd⟩]
  have hmem : .drop d ∈ reconciled desired chain := count_pos_iff.mp (by omega)
  -- Whatever is read back as this restriction must be desired: it would be deleted otherwise.
  have hdesired : ∀ spelling, written ip spelling = some d →
      spelling ∈ parseOwnedRules (listing (reconciled desired chain)) → spelling ∈ desired := by
    intro spelling hwritten hback
    by_contra hundesired
    exact hgone spelling hback hundesired d hwritten hmem
  have hspelled : ∀ spelling, written ip spelling = some d →
      (spelling ∈ desired ↔ spelling = d.rule ∨ spelling ∈ misread chain) := by
    intro spelling hwritten
    constructor
    · intro hwanted
      have hcases := eq_or_misread (hread spelling hwanted) hwritten
      rwa [misread_reconciled] at hcases
    · rintro (rfl | hmisread)
      · exact hdesired d.rule hwritten (mem_owned.mpr (.inl ⟨d, hmem, rfl⟩))
      · exact hdesired spelling hwritten (mem_owned.mpr (.inr (by rwa [misread_reconciled])))
  refine ⟨hspelled, ?_⟩
  rw [count_reconciled_desired hspelled] at hcount
  split at hcount
  · exact .inl (by omega)
  · next hunread =>
    exact .inr ⟨by omega, fun hmisread => hunread (mem_owned.mpr (.inr hmisread))⟩

end

end

/-- **A reconcile does what it is for exactly when what it wants reads back.** For every chain and all
rules that the helper and `iptables` accept. -/
theorem container_chain_settles_iff (ip : Iptables) (desired : List ContainerRule)
    (chain : List (Rule ip)) (haccepted : ∀ rule ∈ desired, (written ip rule).isSome = true) :
    ChainSettles desired chain ↔ ReadsBack desired chain :=
  ⟨fun h => h.readsBack haccepted, fun h => h.settles haccepted⟩

/-! ## A chain shared with an operator -/

def Iptables.ipv4 : Iptables where
  source given := (Ipv4.parseNetwork given).map Ipv4.Network.render
  source_source := by
    intro given spelled h
    obtain ⟨n, hn, rfl⟩ := Option.map_eq_some_iff.mp h
    rw [Ipv4.parseNetwork_render (Ipv4.bits_le_of_parseNetwork hn), Option.map_some,
      Ipv4.render_masked]
  source_accepted := by
    intro given spelled h
    obtain ⟨n, hn, rfl⟩ := Option.map_eq_some_iff.mp h
    have hbits := Ipv4.bits_le_of_parseNetwork hn
    have hlen : (Text.ofNat n.bits).length ≤ 2 :=
      (Nat.length_toDigits_le_iff (by decide) (by decide)).mpr (by omega)
    have haddress := Ipv4.length_render_le (n.base &&& Ipv4.mask n.bits)
    unfold sourceAccepted Ipv4.Network.render
    simp only [Bool.and_eq_true, Bool.not_eq_true', isEmpty_eq_false_iff, decide_eq_true_eq,
      all_eq_true, length_append, length_cons]
    refine ⟨⟨by simp, by omega⟩, fun c hc => ?_⟩
    rcases mem_append.mp hc with hc | hc
    · rcases Ipv4.isDigit_or_dot_of_render hc with hdigit | rfl
      · simp [hdigit]
      · decide
    · rcases mem_cons.mp hc with rfl | hc
      · decide
      · simp [Text.isDigit_of_mem_ofNat hc]
  quotes := false
  stderr _ := []

/-- The database port, for the mesh only. -/
def meshDatabase : ContainerRule := ⟨3306, .tcp, meshCidr⟩

/-- Docker's own rule, and an operator's for addresses of their own. -/
def operatorChain : List (Rule .ipv4) :=
  [.other "-A DOCKER-USER -s 192.168.0.0/16 -j ACCEPT", .other "-A DOCKER-USER -j RETURN"]

/-- The same, where the operator's rule lets the mesh in and says so in words that begin like the
marker. -/
def mentioningChain : List (Rule .ipv4) :=
  [.other ("-A DOCKER-USER -s 10.77.0.0/16 -p tcp -m tcp --dport 3306 " ++
      "-m comment --comment vibessh-peers -j ACCEPT").toList,
    .other "-A DOCKER-USER -j RETURN"]

theorem meshDatabase_written :
    (written .ipv4 meshDatabase).map Drop.rule = some meshDatabase := by decide

theorem meshDatabase_accepted :
    ∀ rule ∈ [meshDatabase], (written .ipv4 rule).isSome = true := by decide

theorem operatorChain_settles :
    (∀ rule ∈ [meshDatabase], (written .ipv4 rule).isSome = true) ∧
      ChainSettles [meshDatabase] operatorChain := by
  refine ⟨meshDatabase_accepted,
    (container_chain_settles_iff .ipv4 _ _ meshDatabase_accepted).mpr ?_⟩
  have hmisread : misread operatorChain = [] := by decide
  intro rule hrule d hd
  have hrule' : d.rule = meshDatabase := by
    have hwritten := meshDatabase_written
    rw [← mem_singleton.mp hrule, hd] at hwritten
    exact Option.some.inj hwritten |>.trans (mem_singleton.mp hrule)
  refine ⟨fun spelling _ => by simp [hmisread, hrule'], .inr ⟨?_, by simp [hmisread]⟩⟩
  simp [operatorChain]

/-- The operator's `ACCEPT` is taken for the restriction, which is never written: the port stays
open. -/
theorem mentioned_marker_leaves_port_open :
    (∀ rule ∈ [meshDatabase], (written .ipv4 rule).isSome = true) ∧
      (∀ final added removed, reconcile .ipv4 [meshDatabase] (some mentioningChain) =
        .ok (some final, added, removed) → ∀ d, .drop d ∉ final) ∧
      ¬ ChainSettles [meshDatabase] mentioningChain := by
  have hfinal : reconciled [meshDatabase] mentioningChain = .established :: mentioningChain := by
    decide +kernel
  have hopen : ∀ final added removed, reconcile .ipv4 [meshDatabase] (some mentioningChain) =
      .ok (some final, added, removed) → ∀ d, .drop d ∉ final := by
    intro final added removed hrun d
    rw [reconcile_eq meshDatabase_accepted, hfinal] at hrun
    injection hrun with hrun
    obtain rfl := Option.some.inj (Prod.mk.inj hrun).1
    simp [mentioningChain]
  refine ⟨meshDatabase_accepted, hopen, ?_⟩
  rintro ⟨final, added, removed, hrun, -, hcounts, -, -⟩
  obtain ⟨d, hd⟩ := Option.isSome_iff_exists.mp (meshDatabase_accepted _ mem_cons_self)
  have hone := hcounts d
  rw [if_pos ⟨_, mem_cons_self, hd⟩] at hone
  exact hopen final added removed hrun d (count_pos_iff.mp (by omega))

/-- The operator's `ACCEPT` counts as the restriction, of which there is no rule. -/
theorem accept_counted_as_drop : meshDatabase ∈ parseOwnedRules (listing mentioningChain) ∧
    ¬ Listed .ipv4 (listing mentioningChain) meshDatabase := by
  refine ⟨by decide, ?_⟩
  rintro ⟨d, hd, hline⟩
  have hlines : Text.lines (listing mentioningChain) = "-N DOCKER-USER".toList ::
      mentioningChain.map Rule.render := by decide
  have hdrop : (Text.words (Text.join [' '] d.words)).getLast? = some "DROP".toList := by
    rw [words_join d.isWord]
    rfl
  rw [hlines] at hline
  have hnone : ∀ line ∈ "-N DOCKER-USER".toList :: mentioningChain.map Rule.render,
      (Text.words line).getLast? ≠ some "DROP".toList := by decide
  exact hnone _ hline hdrop

end VibeSsh.Firewall
