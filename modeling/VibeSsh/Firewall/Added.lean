import VibeSsh.Firewall.Service
import VibeSsh.Ssh.Sources

/-! # Reading ufw's rules back

What `vibessh_owned_rules` makes of `ufw show added`: each marked rule in the form ufw prints it in.
A rule whose source is spelled `0.0.0.0/0` is printed without one and comes back as another rule. -/

namespace VibeSsh.Firewall

open Lib Command List Option Text

/-- The form a rule comes back in. -/
def FirewallRule.shown (r : FirewallRule) : FirewallRule :=
  if r.sourceCidr = some "0.0.0.0/0".toList then { r with sourceCidr := none } else r

/-- A source is one word. -/
def FirewallRule.Spelled (r : FirewallRule) : Prop :=
  ∀ cidr ∈ r.sourceCidr, cidr ≠ [] ∧ ∀ c ∈ cidr, isWhitespace c = false

def Ufw.Spelled (u : Ufw) : Prop := ∀ e ∈ u.rules, e.rule.Spelled

/-! ## One line -/

theorem words_cons_word {w rest : Text} (hne : w ≠ []) (h : ∀ c ∈ w, isWhitespace c = false) :
    words (w ++ ' ' :: rest) = w :: words rest := by
  rw [words_append_blank (by decide), words_of_noBlank hne h, singleton_append]

theorem isWhitespace_str (p : PortProtocol) : ∀ c ∈ p.str, isWhitespace c = false := by
  intro c
  cases p <;> exact isWhitespace_of_mem_all (by decide)

theorem str_ne_nil (p : PortProtocol) : p.str ≠ [] := by
  cases p <;> decide

theorem parseProtocol_str (p : PortProtocol) : parseProtocol p.str = some p := by
  cases p <;> rfl

theorem parsePort_ofNat (port : UInt16) : parsePort (ofNat port.toNat) = some port := by
  have hlt := port.toNat_lt
  unfold parsePort
  rw [parseUnsigned_ofNat (by omega)]
  simp

/-- The third word of the short form. -/
theorem short_word (r : FirewallRule) :
    (∀ c ∈ ofNat r.port.toNat ++ '/' :: r.protocol.str, isWhitespace c = false) ∧
      splitOnce '/' (ofNat r.port.toNat ++ '/' :: r.protocol.str) =
        some (ofNat r.port.toNat, r.protocol.str) := by
  constructor
  · intro c hc
    rcases mem_append.mp hc with hc | hc
    · exact isWhitespace_of_mem_ofNat hc
    · rcases mem_cons.mp hc with rfl | hc
      · decide
      · exact isWhitespace_str r.protocol c hc
  · refine splitOnce_append (fun hc => ?_) _
    have hdigit := isDigit_of_mem_ofNat hc
    exact absurd hdigit (by decide)

def commentWords (marked : Bool) : List Text :=
  if marked then ["comment".toList, "'vibessh'".toList] else []

theorem words_comment {w : Text} (hne : w ≠ []) (h : ∀ c ∈ w, isWhitespace c = false)
    (marked : Bool) :
    words (w ++ if marked then " comment 'vibessh'".toList else []) =
      w :: commentWords marked := by
  cases marked with
  | false =>
    rw [if_neg (by decide), append_nil]
    exact words_of_noBlank hne h
  | true => exact words_cons_word hne h

theorem words_cons_literal {w : Text} (hne : w ≠ []) (h : (w.all fun c => !isWhitespace c) = true)
    (rest : Text) : words (w ++ ' ' :: rest) = w :: words rest :=
  words_cons_word hne fun _ => isWhitespace_of_mem_all h

theorem words_allow (rest : Text) :
    words ("ufw allow ".toList ++ rest) = "ufw".toList :: "allow".toList :: words rest := by
  show words ("ufw".toList ++ ' ' :: ("allow".toList ++ ' ' :: rest)) = _
  rw [words_cons_literal (by decide) (by decide), words_cons_literal (by decide) (by decide)]

/-- A rule as ufw prints it. -/
def FirewallRule.line (r : FirewallRule) (marked : Bool) : Text :=
  "ufw allow ".toList ++
    (match r.sourceCidr with
    | none => ofNat r.port.toNat ++ "/".toList ++ r.protocol.str
    | some cidr => "from ".toList ++ cidr ++ " to any port ".toList ++ ofNat r.port.toNat ++
        " proto ".toList ++ r.protocol.str) ++
    (if marked then " comment 'vibessh'".toList else [])

theorem render_eq_line (e : UfwRule) : e.render = e.rule.shown.line e.marked := by
  obtain ⟨⟨port, protocol, source⟩, marked⟩ := e
  unfold UfwRule.render FirewallRule.shown
  dsimp only
  by_cases hany : source = some "0.0.0.0/0".toList
  · rw [if_pos (.inr hany), if_pos hany]
    rfl
  · rw [if_neg hany]
    cases source with
    | none => rfl
    | some cidr =>
      rw [if_neg (not_or.mpr ⟨some_ne_none cidr, hany⟩)]
      rfl

theorem FirewallRule.Spelled.shown {r : FirewallRule} (h : r.Spelled) : r.shown.Spelled := by
  unfold FirewallRule.shown
  split
  · exact fun cidr hcidr => absurd hcidr (by simp)
  · exact h

variable {r : FirewallRule}

theorem words_line_short (h : r.sourceCidr = none) (marked : Bool) :
    words (r.line marked) = "ufw".toList :: "allow".toList ::
      (ofNat r.port.toNat ++ '/' :: r.protocol.str) :: commentWords marked := by
  unfold FirewallRule.line
  rw [h, append_assoc, words_allow]
  congr 2
  rw [show ofNat r.port.toNat ++ "/".toList ++ r.protocol.str =
    ofNat r.port.toNat ++ '/' :: r.protocol.str by simp]
  exact words_comment (by simp) (short_word r).1 marked

theorem words_line_scoped {cidr : Text} (h : r.sourceCidr = some cidr) (hspelled : r.Spelled)
    (marked : Bool) :
    words (r.line marked) = ["ufw".toList, "allow".toList, "from".toList, cidr, "to".toList,
      "any".toList, "port".toList, ofNat r.port.toNat, "proto".toList, r.protocol.str] ++
        commentWords marked := by
  obtain ⟨hne, hblank⟩ := hspelled cidr h
  unfold FirewallRule.line
  rw [h]
  simp only [append_assoc, words_allow]
  show _ :: _ :: words ("from".toList ++ ' ' :: (cidr ++ ' ' :: ("to".toList ++ ' ' ::
    ("any".toList ++ ' ' :: ("port".toList ++ ' ' :: (ofNat r.port.toNat ++ ' ' ::
      ("proto".toList ++ ' ' :: (r.protocol.str ++
        if marked then " comment 'vibessh'".toList else [])))))))) = _
  rw [words_cons_literal (by decide) (by decide), words_cons_word hne hblank,
    words_cons_literal (by decide) (by decide), words_cons_literal (by decide) (by decide),
    words_cons_literal (by decide) (by decide),
    words_cons_word (ofNat_ne_nil _) fun c => isWhitespace_of_mem_ofNat,
    words_cons_literal (by decide) (by decide),
    words_comment (str_ne_nil _) (isWhitespace_str _) marked]
  rfl

theorem parseAddedLine_line (h : r.Spelled) (marked : Bool) :
    parseAddedLine (r.line marked) = some r := by
  obtain ⟨port, protocol, source⟩ := r
  unfold parseAddedLine
  dsimp only
  cases source with
  | none =>
    have hfrom : some (ofNat port.toNat ++ '/' :: protocol.str) ≠ some "from".toList := by
      intro heq
      have hmem : '/' ∈ "from".toList := some.inj heq ▸ (by simp)
      exact absurd hmem (by decide)
    rw [words_line_short rfl]
    simp only [List.getElem?_cons_zero, List.getElem?_cons_succ]
    rw [if_neg (by simp), if_neg hfrom, bind_some, (short_word ⟨port, protocol, none⟩).2]
    simp only [bind_eq_bind, bind_some, parsePort_ofNat, parseProtocol_str]
  | some cidr =>
    rw [words_line_scoped rfl h]
    simp only [cons_append, nil_append, List.getElem?_cons_zero, List.getElem?_cons_succ]
    rw [if_neg (by simp), if_pos trivial]
    simp only [bind_eq_bind, bind_some, parsePort_ofNat, parseProtocol_str]
    rw [if_neg (by simp)]

/-! ## The whole listing -/

theorem line_eq (r : FirewallRule) (marked : Bool) : ∃ body, r.line marked =
    body ++ r.protocol.str ++ if marked then " comment 'vibessh'".toList else [] := by
  unfold FirewallRule.line
  split
  · exact ⟨"ufw allow ".toList ++ (ofNat r.port.toNat ++ "/".toList), by
      simp only [append_assoc]⟩
  next cidr _ =>
    exact ⟨"ufw allow ".toList ++ ("from ".toList ++ cidr ++ " to any port ".toList ++
      ofNat r.port.toNat ++ " proto ".toList), by simp only [append_assoc]⟩

theorem rdropWhile_append {a b : Text} (hb : b ≠ []) (h : isWhitespace (b.getLast hb) = false) :
    (a ++ b).rdropWhile isWhitespace = a ++ b := by
  rw [rdropWhile_eq_self_iff]
  intro hne hlast
  rw [getLast_append_of_ne_nil hne hb, h] at hlast
  cases hlast

/-- The test `parse_added_rules` makes of a line. -/
def carriesMarker (line : Text) : Bool :=
  endsWith "comment 'vibessh'".toList (line.rdropWhile isWhitespace)

theorem parseAddedRules_eq (output : Text) : parseAddedRules output =
    ((lines output).filter carriesMarker).filterMap parseAddedLine := rfl

theorem carriesMarker_line (r : FirewallRule) (marked : Bool) :
    carriesMarker (r.line marked) = marked := by
  obtain ⟨body, hbody⟩ := line_eq r marked
  unfold carriesMarker
  rw [hbody]
  cases marked with
  | true =>
    rw [if_pos rfl, rdropWhile_append (by decide) (by decide)]
    exact isSuffixOf_iff_suffix.mpr ⟨body ++ r.protocol.str ++ [' '], by simp⟩
  | false =>
    rw [if_neg (by decide), append_nil, rdropWhile_append (str_ne_nil _) (by
      cases r.protocol <;> decide)]
    rw [Bool.eq_false_iff]
    intro hsuffix
    obtain ⟨start, hstart⟩ := isSuffixOf_iff_suffix.mp hsuffix
    have hlast := congrArg List.getLast? hstart
    rw [List.getLast?_append_of_ne_nil _ (by decide),
      List.getLast?_append_of_ne_nil _ (str_ne_nil _)] at hlast
    cases hprotocol : r.protocol <;> rw [hprotocol] at hlast <;> exact absurd hlast (by decide)

theorem newline_notMem_line (h : r.Spelled) (marked : Bool) : '\n' ∉ r.line marked := by
  have hblank : isWhitespace '\n' = true := by decide
  have hport : '\n' ∉ ofNat r.port.toNat := fun hc =>
    absurd (hblank.symm.trans (isWhitespace_of_mem_ofNat hc)) (by decide)
  have hprotocol : '\n' ∉ r.protocol.str := fun hc =>
    absurd (hblank.symm.trans (isWhitespace_str _ _ hc)) (by decide)
  unfold FirewallRule.line
  simp only [mem_append, not_or]
  refine ⟨⟨by decide, ?_⟩, ?_⟩
  · split
    · simp only [mem_append, not_or]
      exact ⟨⟨hport, by decide⟩, hprotocol⟩
    next cidr hcidr =>
      have hsource : '\n' ∉ cidr := fun hc =>
        absurd (hblank.symm.trans ((h cidr hcidr).2 _ hc)) (by decide)
      simp only [mem_append, not_or]
      exact ⟨⟨⟨⟨⟨by decide, hsource⟩, by decide⟩, hport⟩, by decide⟩, hprotocol⟩
  · split
    · decide
    · simp

/-- A line counts by what it ends in, its carriage return apart. -/
theorem parseAddedRules_line {line : Text} (h : '\n' ∉ line) : parseAddedRules (line ++ ['\n']) =
    if carriesMarker line then (parseAddedLine (chomp line)).toList else [] := by
  have hmarker : carriesMarker (chomp line) = carriesMarker line := by
    unfold carriesMarker
    rw [rdropWhile_chomp (by decide)]
  rw [parseAddedRules_eq, lines_line h, filter_cons, hmarker]
  cases carriesMarker line with
  | true => cases hparse : parseAddedLine (chomp line) <;> simp [hparse]
  | false => rfl

theorem getLast?_line (r : FirewallRule) (marked : Bool) :
    ∃ c ∈ (r.line marked).getLast?, isWhitespace c = false := by
  obtain ⟨body, hbody⟩ := line_eq r marked
  rw [hbody]
  cases marked with
  | true =>
    rw [if_pos rfl, List.getLast?_append_of_ne_nil _ (by decide)]
    exact ⟨'\'', by decide⟩
  | false =>
    rw [if_neg (by decide), append_nil, List.getLast?_append_of_ne_nil _ (str_ne_nil _)]
    cases r.protocol <;> exact ⟨'p', by decide⟩

theorem getLast?_line_ne (r : FirewallRule) (marked : Bool) :
    (r.line marked).getLast? ≠ some '\r' ∧ r.line marked ≠ [] := by
  obtain ⟨c, hc, hblank⟩ := getLast?_line r marked
  refine ⟨fun hlast => ?_, fun hnil => ?_⟩
  · rw [hlast] at hc
    cases hc
    exact absurd hblank (by decide)
  · rw [hnil] at hc
    cases hc

/-- **What comes back**: the marked rules, each as it is shown. -/
theorem parseAddedRules_showAdded {u : Ufw} (h : u.Spelled) :
    parseAddedRules u.showAdded = (u.rules.filter (·.marked)).map (·.rule.shown) := by
  have hlines : lines u.showAdded =
      "Added user rules (see 'ufw status' for running firewall):".toList ::
        u.rules.map (·.render) := by
    refine lines_join (by simp) (fun l hl => ?_) fun hlast => ?_
    · rcases mem_cons.mp hl with rfl | hl
      · decide
      · obtain ⟨e, he, rfl⟩ := mem_map.mp hl
        rw [render_eq_line]
        exact ⟨newline_notMem_line (h e he).shown _, (getLast?_line_ne _ _).1⟩
    · rcases mem_cons.mp (mem_of_getLast? hlast) with hl | hl
      · exact absurd hl (by decide)
      · obtain ⟨e, he, hnil⟩ := mem_map.mp hl
        exact (getLast?_line_ne _ _).2 ((render_eq_line e).symm.trans hnil)
  rw [parseAddedRules_eq, hlines, filter_cons_of_neg (by decide)]
  clear hlines
  replace h : ∀ e ∈ u.rules, e.rule.Spelled := h
  generalize u.rules = rules at h
  induction rules with
  | nil => rfl
  | cons e rules ih =>
    obtain ⟨he, hrest⟩ := forall_mem_cons.mp h
    rw [map_cons, filter_cons, filter_cons, render_eq_line, carriesMarker_line]
    cases e.marked with
    | true =>
      rw [if_pos rfl, if_pos rfl, filterMap_cons, parseAddedLine_line he.shown, map_cons,
        ih hrest]
    | false => exact ih hrest

/-- **Round trip**: a listing of allow commands as the shell hands them to ufw, mixed with lines
that do not carry the marker, is read as the rules of those commands, in their order. -/
theorem parseAddedRules_listing (entries : List (FirewallRule ⊕ Text))
    (hrules : ∀ r, .inl r ∈ entries → r.Spelled)
    (hforeign : ∀ line, .inr line ∈ entries → '\n' ∉ line ∧ carriesMarker line = false) :
    (∀ r : FirewallRule, allowCommand r = "sudo ".toList ++
      ({ r with sourceCidr := r.sourceCidr.map quote } : FirewallRule).line true) ∧
    parseAddedRules (entries.flatMap fun e => e.elim (·.line true) id ++ ['\n']) =
      entries.filterMap (·.getLeft?) := by
  refine ⟨fun r => ?_, ?_⟩
  · unfold allowCommand FirewallRule.line
    cases r.sourceCidr <;> simp [append_assoc]
  induction entries with
  | nil => rfl
  | cons e entries ih =>
    have hrest := ih (fun r hr => hrules r (.tail _ hr)) fun line hl => hforeign line (.tail _ hl)
    rw [flatMap_cons, append_assoc, singleton_append, parseAddedRules_eq, lines_append_newline,
      filter_append, filterMap_append, ← parseAddedRules_eq, ← parseAddedRules_eq, hrest]
    cases e with
    | inl r =>
      have hspelled := hrules r (.head _)
      rw [Sum.elim_inl, parseAddedRules_line (newline_notMem_line hspelled true),
        carriesMarker_line, chomp_of_ne (getLast?_line_ne r true).1,
        parseAddedLine_line hspelled]
      rfl
    | inr line =>
      obtain ⟨hnewline, hmarker⟩ := hforeign line (.head _)
      rw [Sum.elim_inr, id, parseAddedRules_line hnewline, hmarker]
      rfl

theorem spelled_meshCidr : meshCidr ≠ [] ∧ ∀ c ∈ meshCidr, isWhitespace c = false :=
  ⟨by decide, fun _ => isWhitespace_of_mem_all (by decide)⟩

theorem rule_behind_foreign_line : parseAddedRules
    ("ufw allow 22/tcp\nufw allow from 10.77.0.0/16 to any port 80 proto tcp comment 'vibessh'\n".toList) =
      [⟨80, .tcp, some meshCidr⟩] :=
  (parseAddedRules_listing [.inr "ufw allow 22/tcp".toList, .inl ⟨80, .tcp, some meshCidr⟩]
    (fun r hr => by
      simp only [mem_cons, reduceCtorEq, Sum.inl.injEq, not_mem_nil, or_false,
        false_or] at hr
      subst hr
      exact fun cidr hcidr => some.inj hcidr ▸ spelled_meshCidr)
    (fun line hl => by
      simp only [mem_cons, reduceCtorEq, Sum.inr.injEq, not_mem_nil, or_false] at hl
      subst hl
      decide)).2

/-! ## The wanted rules are spelled in one word -/

theorem mem_foldl_pushNew {views new : List FirewallRuleView} {view : FirewallRuleView}
    (h : view ∈ new.foldl pushNew views) : view ∈ views ∨ view ∈ new := by
  induction new generalizing views with
  | nil => exact .inl h
  | cons v new ih =>
    rcases ih h with h | h
    · unfold pushNew at h
      split at h
      · exact .inl h
      · rcases mem_append.mp h with h | h
        · exact .inl h
        · exact .inr (mem_cons.mpr (.inl (mem_singleton.mp h)))
    · exact .inr (mem_cons_of_mem _ h)

theorem applicable_spelled {view : FirewallRuleView} (h : applicable view = true)
    (hmesh : (∀ rule label, view.origin ≠ .custom rule label) →
      ∀ cidr ∈ view.rule.sourceCidr, cidr = meshCidr) : view.rule.Spelled := by
  intro cidr hcidr
  unfold applicable at h
  split at h
  next rule label source horigin hsource =>
    rw [hsource] at hcidr
    cases hcidr
    split at h
    next canonical hcanonical =>
      rw [← beq_iff_eq.mp h]
      obtain ⟨n, -, -, rfl⟩ := canonicalIpv4Source_ok_iff.mp hcanonical
      exact spelled_word n
    next => cases h
  next hother =>
    rw [hmesh (fun rule label horigin => hother rule label cidr horigin hcidr) cidr hcidr]
    exact spelled_meshCidr

/-- Every wanted rule has no source or one that is a single word. -/
theorem spelled_of_desiredRules {rows : NodeRows} {serverId : Uuid} {desired : List FirewallRule}
    (h : desiredRules rows serverId = .ok desired) : ∀ r ∈ desired, r.Spelled := by
  obtain ⟨views, hviews, h⟩ := try_ok_iff.mp h
  cases h
  intro r hr
  obtain ⟨view, hview, rfl⟩ := mem_map.mp hr
  obtain ⟨hmem, happlicable⟩ := mem_filter.mp hview
  refine applicable_spelled happlicable fun horigin cidr hcidr => ?_
  unfold desiredRulesWithOrigin at hviews
  cases hserver : rows.server with
  | none =>
    rw [hserver] at hviews
    cases hviews
  | some server =>
    rw [hserver] at hviews
    cases hviews
    rcases mem_foldl_pushNew hmem with hmem | hmem
    · rcases mem_foldl_pushNew hmem with hmem | hmem
      · have hnone : view.rule.sourceCidr = none := by
          split at hmem
          · simp only [mem_cons, not_mem_nil, or_false] at hmem
            rcases hmem with rfl | rfl <;> rfl
          · rw [mem_singleton.mp hmem]
        rw [hnone] at hcidr
        cases hcidr
      · obtain ⟨application, _, hport⟩ := mem_flatMap.mp hmem
        obtain ⟨port, _, hport⟩ := mem_filterMap.mp hport
        obtain ⟨externalPort, _, rfl⟩ := map_eq_some_iff.mp hport
        dsimp only at hcidr
        split at hcidr
        · cases hcidr
          rfl
        · cases hcidr
    · obtain ⟨custom, _, rfl⟩ := mem_map.mp hmem
      exact absurd rfl (horigin custom.id custom.label)

end VibeSsh.Firewall
