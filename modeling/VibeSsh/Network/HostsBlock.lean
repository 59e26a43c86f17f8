import VibeSsh.Docker.Create
import VibeSsh.Lib.Sed

/-! # The managed block of `/etc/hosts`

`services::dns_service::push_fragment` in two commands: the first writes the fragment to one fixed
file, the second takes a lock, lets `sed` delete the old block from a copy of `/etc/hosts`, appends
that file and renames the copy over. Any number of runs interleave, from this installation or
others: the lock holds for the second command only. Writing the fragment is an `open` that truncates
and one `write`. -/

namespace VibeSsh.Dns

open Lib Lib.Sed List

def beginMarker : Text := "# BEGIN VIBESSH-MANAGED-DNS"

def endMarker : Text := "# END VIBESSH-MANAGED-DNS"

/-! ## Names and the fragment -/

def validateDnsSuffix (suffix : Text) : AppResult Unit :=
  if !Text.startsWith ['.'] suffix || suffix.length < 2 then
    .error (.invalidInput
      "the DNS suffix must start with '.' and have at least one character after it")
  else if 32 < (suffix.map Char.utf8Size).sum then .error (.invalidInput "the DNS suffix is too long")
  else if !suffix.all fun c => c.isLower || c.isDigit || c == '.' || c == '-' then
    .error (.invalidInput
      "the DNS suffix can only contain lowercase letters, digits, '.', and '-'")
  else .ok ()

def slugify (lower : Text.Lowercase) (input : Text) : Text :=
  (Docker.dnsLabel lower input).getD "node"

def nodeAlias (lower : Text.Lowercase) (suffix serverName : Text) : Text :=
  slugify lower serverName ++ suffix

def normalizeAlias (lower : Text.Lowercase) (suffix input : Text) : Text :=
  let trimmed := (Text.trim input).map Char.toLower
  let base := if Text.endsWith suffix trimmed then trimmed.take (trimmed.length - suffix.length)
    else trimmed
  slugify lower base ++ suffix

/-- The part of a `DnsView` that is rendered. -/
structure DnsView where
  hostname : Text
  ip : Text
  deriving DecidableEq

def shellMetacharacters : Text := ['$', Char.ofNat 96, '\\', '\n', '\r', '\x00']

def rejectShellMetacharacters (value field : Text) : AppResult Unit :=
  match value.find? (shellMetacharacters.contains ·) with
  | none => .ok ()
  | some found =>
    let rendered := if found = '\n' then "a newline".toList
      else if found = '\r' then "a carriage return".toList
      else if found = '\x00' then "a null byte".toList
      else ['\'', found, '\'']
    .error (.invalidInput (field ++ " can't contain ".toList ++ rendered))

def rejectUnsafe (value : Text) : AppResult Unit :=
  if Text.includes "VIBESSH_DNS_EOF" value then
    .error (.invalidInput
      "that value contains characters that aren't allowed in a DNS alias")
  else do
    Docker.rejectNewlines value "a DNS alias"
    rejectShellMetacharacters value "a DNS alias"

/-- `reject_duplicate_hostnames`; `seen` are the names met so far, each with its first address. -/
def rejectDuplicateHostnames (seen : List (Text × Text)) : List DnsView → AppResult Unit
  | [] => .ok ()
  | view :: views =>
    match seen.lookup view.hostname with
    | some existing =>
      if existing ≠ view.ip then
        .error (.invalidInput ("'" ++ view.hostname ++
          "' resolves to two different Nodes (" ++ existing ++ " and " ++ view.ip ++
          ") - rename one of them so each name is unique, then sync again"))
      else rejectDuplicateHostnames seen views
    | none => rejectDuplicateHostnames ((view.hostname, view.ip) :: seen) views

def DnsView.entry (view : DnsView) : Text := view.ip ++ ' ' :: view.hostname

def renderHostsFragment (views : List DnsView) : AppResult Text := do
  rejectDuplicateHostnames [] views
  views.forM fun view => do
    rejectUnsafe view.hostname
    rejectUnsafe view.ip
  .ok (unlines (beginMarker :: views.map DnsView.entry ++ [endMarker]))

/-! ## Runs on one Node -/

/-- `push_fragment` with what `sync_dns` renders, or `clear_hosts_block`. -/
inductive Job where
  | push (views : List DnsView)
  | clear
  deriving DecidableEq

def Job.fragment : Job → AppResult Text
  | .push views => renderHostsFragment views
  | .clear => .ok []

inductive Phase where
  | started
  /-- `tee` has opened the fragment file. -/
  | truncated
  /-- The first command is done. -/
  | staged
  | locked
  /-- `sed` has printed this to the copy. -/
  | filtered (copy : Text)
  /-- And `cat` has appended the fragment. -/
  | appended (copy : Text)
  | done
  | failed
  deriving DecidableEq

structure Caller where
  job : Job
  fragment : Text
  phase : Phase
  deriving DecidableEq

structure State where
  hosts : Text
  /-- The fragment file, if there is one. -/
  fragment : Option Text
  lock : Option Nat
  callers : List Caller
  deriving DecidableEq

inductive Event where
  | start (job : Job)
  | truncate (i : Nat)
  | write (i : Nat)
  | lock (i : Nat)
  | filter (i : Nat)
  | append (i : Nat)
  | replace (i : Nat)
  /-- A command fails, or its connection is lost. -/
  | fail (i : Nat)
  deriving DecidableEq

def carries (marker line : Text) : Bool := Text.includes marker line

/-- `sed "/BEGIN/,/END/d"`. -/
def withoutBlock (hosts : Text) : Text := sedDelete (carries beginMarker) (carries endMarker) hosts

def State.at (s : State) (i : Nat) (caller : Caller) (phase : Phase) : State :=
  { s with callers := s.callers.set i { caller with phase := phase } }

def step (s : State) : Event → Option State
  | .start job =>
    match job.fragment with
    | .ok fragment => some { s with callers := s.callers ++ [⟨job, fragment, .started⟩] }
    | .error _ => none
  | .truncate i => do
    let caller ← s.callers[i]?
    if caller.phase = .started then
      some { s.at i caller .truncated with fragment := some [] }
    else none
  | .write i => do
    let caller ← s.callers[i]?
    if caller.phase = .truncated then
      some { s.at i caller .staged with fragment := some caller.fragment }
    else none
  | .lock i => do
    let caller ← s.callers[i]?
    if caller.phase = .staged ∧ s.lock = none then
      some { s.at i caller .locked with lock := some i }
    else none
  | .filter i => do
    let caller ← s.callers[i]?
    if caller.phase = .locked then some (s.at i caller (.filtered (withoutBlock s.hosts)))
    else none
  | .append i => do
    let caller ← s.callers[i]?
    match caller.phase, s.fragment with
    | .filtered copy, some fragment => some (s.at i caller (.appended (copy ++ fragment)))
    | _, _ => none
  | .replace i => do
    let caller ← s.callers[i]?
    match caller.phase with
    | .appended copy => some { s.at i caller .done with hosts := copy, lock := none }
    | _ => none
  | .fail i => do
    let caller ← s.callers[i]?
    if caller.phase = .done ∨ caller.phase = .failed then none
    else some { s.at i caller .failed with lock := if s.lock = some i then none else s.lock }

def Step (s : State) (e : Event) (t : State) : Prop := step s e = some t

/-! ## Lines inside and outside -/

/-- The lines outside the managed block. A block is a begin marker up to the next end marker; a begin
marker that nothing ends opens none. -/
def outsideFrom : (inside : Bool) → List Text → List Text
  | _, [] => []
  | false, line :: lines =>
    if line = beginMarker then outsideFrom (lines.contains endMarker) lines
    else line :: outsideFrom false lines
  | true, line :: lines => outsideFrom (line != endMarker) lines

def outside (hosts : Text) : List Text := outsideFrom false (contents hosts)

/-- The blocks; `block` is the part read so far of the one that is open. -/
def blocksFrom : (block : Option (List Text)) → List Text → List (List Text)
  | _, [] => []
  | none, line :: lines =>
    if line = beginMarker then
      blocksFrom (if lines.contains endMarker then some [line] else none) lines
    else blocksFrom none lines
  | some block, line :: lines =>
    if line = endMarker then (block ++ [line]) :: blocksFrom none lines
    else blocksFrom (some (block ++ [line])) lines

def blocks (hosts : Text) : List (List Text) := blocksFrom none (contents hosts)

/-- What the file shows of the block once a run has replaced it: one complete block and no other
begin marker, or none at all. -/
def Shows (hosts : Text) : Job → Prop
  | .push _ => (blocks hosts).length = 1 ∧ (contents hosts).count beginMarker = 1
  | .clear => blocks hosts = [] ∧ beginMarker ∉ contents hosts

instance (hosts : Text) (job : Job) : Decidable (Shows hosts job) := by
  cases job <;> exact inferInstanceAs (Decidable (_ ∧ _))

/-- Every line that carries a marker where `sed` looks for it is that marker, and every block is
ended. -/
def tidyFrom : (inside : Bool) → List Text → Bool
  | inside, [] => !inside
  | false, line :: lines =>
    if carries beginMarker line then line == beginMarker && tidyFrom true lines
    else tidyFrom false lines
  | true, line :: lines =>
    if carries endMarker line then line == endMarker && tidyFrom false lines
    else tidyFrom true lines

def tidy (hosts : Text) : Bool := tidyFrom false (contents hosts)

def complete (fragment : Text) : Bool :=
  match contents fragment with
  | [] => false
  | first :: rest =>
    first == beginMarker && rest.getLast? == some endMarker &&
      rest.dropLast.all (fun entry => !carries beginMarker entry && !carries endMarker entry) &&
      fragment == unlines (first :: rest)

/-- The fragment `cat` finds is of the caller's kind, and what `sed` left for a block to follow ends
its last line. -/
def orderly (s : State) : Event → Bool
  | .append i =>
    match s.callers[i]? with
    | some ⟨.push _, _, .filtered copy⟩ => s.fragment.any complete && decide (Ended copy)
    | some ⟨.clear, _, .filtered _⟩ => s.fragment == some []
    | _ => true
  | _ => true

/-! ## What `sed` and `cat` make of a tidy file -/

section

variable {hosts fragment : Text} {lines entries : List Text}

theorem carries_beginMarker : carries beginMarker beginMarker = true := by decide

theorem carries_endMarker : carries endMarker endMarker = true := by decide

theorem endMarker_mem_of_tidyFrom (h : tidyFrom true lines = true) : endMarker ∈ lines := by
  induction lines with
  | nil => cases h
  | cons line lines ih =>
    simp only [tidyFrom] at h
    split at h
    · simp only [Bool.and_eq_true, beq_iff_eq] at h
      exact h.1 ▸ mem_cons_self
    · exact mem_cons_of_mem _ (ih h)

/-- **In a tidy file `sed` deletes the block and nothing else.** -/
theorem deleteRange_eq_outsideFrom {inside : Bool} (h : tidyFrom inside lines = true) :
    deleteRange (carries beginMarker) (carries endMarker) inside lines =
      outsideFrom inside lines := by
  induction lines generalizing inside with
  | nil => cases inside <;> rfl
  | cons line lines ih =>
    cases inside with
    | false =>
      simp only [tidyFrom] at h
      simp only [deleteRange, outsideFrom]
      by_cases hcarries : carries beginMarker line = true
      · rw [if_pos hcarries, Bool.and_eq_true, beq_iff_eq] at h
        have hend : lines.contains endMarker = true :=
          contains_iff_mem.mpr (endMarker_mem_of_tidyFrom h.2)
        rw [if_pos hcarries, if_pos h.1, hend]
        exact ih h.2
      · rw [if_neg hcarries] at h
        have hne : line ≠ beginMarker := fun he => hcarries (he ▸ carries_beginMarker)
        rw [if_neg hcarries, if_neg hne, ih h]
    | true =>
      simp only [tidyFrom] at h
      simp only [deleteRange, outsideFrom]
      by_cases hcarries : carries endMarker line = true
      · rw [if_pos hcarries, Bool.and_eq_true, beq_iff_eq] at h
        rw [hcarries, h.1, bne_self_eq_false]
        exact ih h.2
      · rw [if_neg hcarries] at h
        have hne : line ≠ endMarker := fun he => hcarries (he ▸ carries_endMarker)
        rw [Bool.eq_false_iff.mpr hcarries, bne_iff_ne.mpr hne]
        exact ih h

theorem contents_withoutBlock (h : tidy hosts = true) :
    contents (withoutBlock hosts) = outside hosts := by
  rw [withoutBlock, contents_sedDelete]
  exact deleteRange_eq_outsideFrom h

theorem not_carries_of_mem_withoutBlock {line : Text}
    (h : line ∈ contents (withoutBlock hosts)) : carries beginMarker line = false := by
  rw [withoutBlock, contents_sedDelete] at h
  exact not_first_of_mem_deleteRange h

/-- No begin marker in front: the lines count as outside, and the rest as if it stood alone. -/
theorem from_append {front : List Text} (h : ∀ line ∈ front, carries beginMarker line = false)
    (rest : List Text) :
    outsideFrom false (front ++ rest) = front ++ outsideFrom false rest ∧
      blocksFrom none (front ++ rest) = blocksFrom none rest ∧
      tidyFrom false (front ++ rest) = tidyFrom false rest := by
  induction front with
  | nil => exact ⟨rfl, rfl, rfl⟩
  | cons line front ih =>
    obtain ⟨hline, hfront⟩ := forall_mem_cons.mp h
    obtain ⟨houtside, hblocks, htidy⟩ := ih hfront
    have hne : line ≠ beginMarker := by
      rintro rfl
      rw [carries_beginMarker] at hline
      cases hline
    refine ⟨?_, ?_, ?_⟩
    · rw [cons_append, outsideFrom, if_neg hne, houtside, cons_append]
    · rw [cons_append, blocksFrom, if_neg hne, hblocks]
    · rw [cons_append, tidyFrom, if_neg (by simp [hline]), htidy]

/-- A block that is open is read up to its end marker. -/
theorem from_block (h : ∀ entry ∈ entries, carries endMarker entry = false) (block : List Text) :
    outsideFrom true (entries ++ [endMarker]) = [] ∧
      blocksFrom (some block) (entries ++ [endMarker]) = [block ++ entries ++ [endMarker]] ∧
      tidyFrom true (entries ++ [endMarker]) = true := by
  induction entries generalizing block with
  | nil =>
    refine ⟨?_, ?_, ?_⟩
    · simp [outsideFrom]
    · simp [blocksFrom]
    · simp [tidyFrom, carries_endMarker]
  | cons entry entries ih =>
    obtain ⟨hentry, hentries⟩ := forall_mem_cons.mp h
    obtain ⟨houtside, hblocks, htidy⟩ := ih hentries (block ++ [entry])
    have hne : entry ≠ endMarker := by
      rintro rfl
      rw [carries_endMarker] at hentry
      cases hentry
    refine ⟨?_, ?_, ?_⟩
    · rw [cons_append, outsideFrom, bne_iff_ne.mpr hne, houtside]
    · rw [cons_append, blocksFrom, if_neg hne, hblocks]
      simp
    · rw [cons_append, tidyFrom, if_neg (by simp [hentry]), htidy]

/-- A whole block, taken apart. -/
structure IsBlock (entries : List Text) : Prop where
  newline : ∀ entry ∈ entries, '\n' ∉ entry
  noBegin : ∀ entry ∈ entries, carries beginMarker entry = false
  noEnd : ∀ entry ∈ entries, carries endMarker entry = false

theorem contents_fragment (h : IsBlock entries) :
    contents (unlines (beginMarker :: entries ++ [endMarker])) =
      beginMarker :: entries ++ [endMarker] := by
  refine contents_unlines fun line hline => ?_
  simp only [cons_append, mem_cons, mem_append, not_mem_nil, or_false] at hline
  rcases hline with rfl | hentry | rfl
  · decide
  · exact h.newline line hentry
  · decide

theorem complete_iff : complete fragment = true ↔ ∃ entries, IsBlock entries ∧
    fragment = unlines (beginMarker :: entries ++ [endMarker]) := by
  constructor
  · intro h
    unfold complete at h
    split at h
    · cases h
    · next first rest hcontents =>
      simp only [Bool.and_eq_true, beq_iff_eq, all_eq_true, Bool.not_eq_true'] at h
      obtain ⟨⟨⟨rfl, hlast⟩, hentries⟩, hfragment⟩ := h
      have hrest : rest = rest.dropLast ++ [endMarker] := 
        (dropLast_append_getLast? _ hlast).symm
      refine ⟨rest.dropLast, ⟨fun entry he => ?_, fun entry he => (hentries entry he).1,
        fun entry he => (hentries entry he).2⟩, by rw [cons_append, ← hrest, ← hfragment]⟩
      refine @newline_notMem_contents fragment _ ?_
      rw [hcontents]
      exact mem_cons_of_mem _ (dropLast_subset _ he)
  · rintro ⟨entries, h, rfl⟩
    unfold complete
    rw [contents_fragment h]
    have hentries : entries.all (fun e => !carries beginMarker e && !carries endMarker e) = true :=
      all_eq_true.mpr fun e he => by simp [h.noBegin e he, h.noEnd e he]
    simp [hentries]

/-- What a replaced file is to be: tidy, the same outside, and with the block the job asks for. -/
structure Replaced (lines : List Text) (job : Job) (hosts : Text) : Prop where
  tidy : tidy hosts = true
  same : outside hosts = lines
  shows : Shows hosts job

/-- **A push**, where `sed` left an ended text. -/
theorem replaced_push (h : tidy hosts = true) (hended : Ended (withoutBlock hosts))
    (hfragment : complete fragment = true) (views : List DnsView) :
    Replaced (outside hosts) (.push views) (withoutBlock hosts ++ fragment) := by
  obtain ⟨entries, hentries, rfl⟩ := complete_iff.mp hfragment
  have hcontents : contents (withoutBlock hosts ++ unlines (beginMarker :: entries ++ [endMarker])) =
      contents (withoutBlock hosts) ++ (beginMarker :: entries ++ [endMarker]) := by
    rw [contents_append hended, contents_fragment hentries]
  have hfront : ∀ line ∈ contents (withoutBlock hosts), carries beginMarker line = false :=
    fun line => not_carries_of_mem_withoutBlock
  obtain ⟨houtside, hblocks, htidy⟩ := from_append hfront (beginMarker :: entries ++ [endMarker])
  obtain ⟨houtsideIn, hblocksIn, htidyIn⟩ :=
    from_block hentries.noEnd [beginMarker]
  have hend : (entries ++ [endMarker]).contains endMarker = true := by simp
  refine ⟨?_, ?_, ?_, ?_⟩
  · rw [tidy, hcontents, htidy, cons_append, tidyFrom, if_pos carries_beginMarker, htidyIn]
    rfl
  · rw [outside, hcontents, houtside, cons_append, outsideFrom, if_pos rfl, hend, houtsideIn,
      append_nil, contents_withoutBlock h]
  · rw [blocks, hcontents, hblocks, cons_append, blocksFrom, if_pos rfl, hend, if_pos rfl,
      hblocksIn]
    rfl
  · have hnone : ∀ {ls : List Text}, (∀ l ∈ ls, carries beginMarker l = false) →
        ls.count beginMarker = 0 := fun hls => count_eq_zero.mpr fun hmem => by
      have := hls _ hmem
      rw [carries_beginMarker] at this
      cases this
    rw [hcontents, count_append, hnone hfront, cons_append, count_cons_self,
      count_append, hnone hentries.noBegin]
    decide

/-- **A clear**, ended or not. -/
theorem replaced_clear (h : tidy hosts = true) :
    Replaced (outside hosts) .clear (withoutBlock hosts ++ []) := by
  have hfront : ∀ line ∈ contents (withoutBlock hosts), carries beginMarker line = false :=
    fun line => not_carries_of_mem_withoutBlock
  obtain ⟨houtside, hblocks, htidy⟩ := from_append hfront []
  rw [append_nil] at houtside hblocks htidy ⊢
  refine ⟨htidy, ?_, hblocks, fun hmem => ?_⟩
  · rw [outside, houtside, outsideFrom, append_nil, contents_withoutBlock h]
  · have := hfront _ hmem
    rw [carries_beginMarker] at this
    cases this

end

/-! ## Every interleaving -/

/-- What a phase says about the lock and the file. -/
def Fits (lock : Option Nat) (hosts : Text) (i : Nat) (caller : Caller) : Prop :=
  match caller.phase with
  | .locked => lock = some i
  | .filtered copy => lock = some i ∧ copy = withoutBlock hosts
  | .appended copy => lock = some i ∧ Replaced (outside hosts) caller.job copy
  | _ => True

variable {i : Nat} {caller : Caller} {lines : List Text} {s : State}

structure Kept (lines : List Text) (s : State) : Prop where
  tidy : tidy s.hosts = true
  same : outside s.hosts = lines
  fits : ∀ i caller, s.callers[i]? = some caller → Fits s.lock s.hosts i caller

theorem fits_set {lock lock' : Option Nat} {hosts hosts' : Text} {callers : List Caller} {caller' : Caller}
    (h : ∀ j caller, callers[j]? = some caller → Fits lock hosts j caller)
    (hi : Fits lock' hosts' i caller')
    (hothers : (lock' = lock ∧ hosts' = hosts) ∨ ∀ j, lock = some j → j = i) :
    ∀ j caller, (callers.set i caller')[j]? = some caller → Fits lock' hosts' j caller := by
  intro j caller hj
  by_cases hji : i = j
  · subst hji
    rw [List.getElem?_set_self'] at hj
    obtain ⟨-, -, rfl⟩ := Option.map_eq_some_iff.mp hj
    exact hi
  · rw [List.getElem?_set_ne hji] at hj
    rcases hothers with ⟨rfl, rfl⟩ | hothers
    · exact h j caller hj
    · -- a caller that does not hold the lock is not in the middle of anything
      have hother := h j caller hj
      have hne : lock ≠ some j := fun hlock => hji (hothers j hlock).symm
      unfold Fits at hother ⊢
      split at hother
      · exact absurd hother hne
      · exact absurd hother.1 hne
      · exact absurd hother.1 hne
      · trivial

theorem kept_start (h : Kept lines s)
    (hphase : caller.phase = .started) : Kept lines { s with callers := s.callers ++ [caller] } := by
  refine ⟨h.tidy, h.same, fun i other hi => ?_⟩
  rcases Nat.lt_or_ge i s.callers.length with hlt | hge
  · rw [List.getElem?_append_left hlt] at hi
    exact h.fits i other hi
  · rw [List.getElem?_append_right hge] at hi
    obtain rfl : caller = other := by
      simpa using mem_of_getElem? hi |> mem_singleton.mp |>.symm
    unfold Fits
    rw [hphase]
    trivial

/-- **One statement of one run** keeps the lines outside. -/
theorem kept_step {t : State} {e : Event} (h : Kept lines s)
    (hstep : Step s e t) (hok : orderly s e = true) : Kept lines t := by
  cases e with
  | start job =>
    simp only [Step, step] at hstep
    split at hstep
    · cases hstep
      exact kept_start h rfl
    · cases hstep
  | truncate i | write i =>
    obtain ⟨caller, hi, hstep⟩ := Option.bind_eq_some_iff.mp hstep
    split at hstep
    · cases hstep
      exact ⟨h.tidy, h.same, fits_set h.fits trivial (.inl ⟨rfl, rfl⟩)⟩
    · cases hstep
  | lock i =>
    obtain ⟨caller, hi, hstep⟩ := Option.bind_eq_some_iff.mp hstep
    split at hstep
    · next hphase =>
      cases hstep
      refine ⟨h.tidy, h.same, fits_set h.fits rfl (.inr fun j hj => ?_)⟩
      rw [hphase.2] at hj
      cases hj
    · cases hstep
  | filter i =>
    obtain ⟨caller, hi, hstep⟩ := Option.bind_eq_some_iff.mp hstep
    split at hstep
    · next hphase =>
      cases hstep
      have hfits := h.fits i caller hi
      rw [Fits, hphase] at hfits
      exact ⟨h.tidy, h.same, fits_set h.fits ⟨hfits, rfl⟩ (.inl ⟨rfl, rfl⟩)⟩
    · cases hstep
  | append i =>
    obtain ⟨caller, hi, hstep⟩ := Option.bind_eq_some_iff.mp hstep
    split at hstep
    · next copy fragment hphase hfragment =>
      cases hstep
      have hfits := h.fits i caller hi
      rw [Fits, hphase] at hfits
      obtain ⟨hlock, rfl⟩ := hfits
      obtain ⟨job, own, phase⟩ := caller
      subst hphase
      simp only [orderly, hi] at hok
      refine ⟨h.tidy, h.same, fits_set h.fits ⟨hlock, ?_⟩ (.inl ⟨rfl, rfl⟩)⟩
      cases job with
      | push views =>
        simp only [hfragment, Option.any_some, Bool.and_eq_true, decide_eq_true_eq] at hok
        exact replaced_push h.tidy hok.2 hok.1 views
      | clear =>
        obtain rfl : fragment = [] := by simpa [hfragment] using hok
        exact replaced_clear h.tidy
    · cases hstep
  | replace i =>
    obtain ⟨caller, hi, hstep⟩ := Option.bind_eq_some_iff.mp hstep
    split at hstep
    · next copy hphase =>
      cases hstep
      have hfits := h.fits i caller hi
      rw [Fits, hphase] at hfits
      obtain ⟨hlock, hreplaced⟩ := hfits
      refine ⟨hreplaced.tidy, hreplaced.same.trans h.same,
        fits_set h.fits trivial (.inr fun j hj => ?_)⟩
      exact Option.some.inj (hj.symm.trans hlock)
    · cases hstep
  | fail i =>
    obtain ⟨caller, hi, hstep⟩ := Option.bind_eq_some_iff.mp hstep
    split at hstep
    · cases hstep
    · cases hstep
      refine ⟨h.tidy, h.same, fits_set h.fits trivial ?_⟩
      by_cases hlock : s.lock = some i
      · exact .inr fun j hj => Option.some.inj (hj.symm.trans hlock)
      · exact .inl ⟨if_neg hlock, rfl⟩

/-- **The lines outside the block survive every interleaving** of pushes and clears on a tidy file,
and each one that replaces the file leaves a single complete block, or none after a clear: provided
the fragment file, when a run reads it, holds a fragment of the kind the run has staged, and a block
is appended to a text whose last line is ended. -/
theorem hosts_lines_kept {s t : State} {trace : List (Transition State Event)}
    (h : Run Step s trace t) (hcallers : s.callers = []) (htidy : tidy s.hosts = true)
    (hok : ∀ x ∈ trace, orderly x.pre x.label = true) :
    (∀ x ∈ trace, outside x.post.hosts = outside s.hosts) ∧
      ∀ x ∈ trace, ∀ i caller, x.label = .replace i → x.pre.callers[i]? = some caller →
        Shows x.post.hosts caller.job := by
  have hstart : Kept (outside s.hosts) s := ⟨htidy, rfl, fun i caller hi => by simp [hcallers] at hi⟩
  obtain ⟨-, hall⟩ := Run.invariant (Kept (outside s.hosts))
    (fun s e => orderly s e = true) (fun hk hok hstep => kept_step hk hstep hok) h hstart hok
  refine ⟨fun x hx => (hall x hx).2.2.same, fun x hx i caller hlabel hi => ?_⟩
  obtain ⟨hkept, hstep, -⟩ := hall x hx
  rw [hlabel] at hstep
  obtain ⟨found, hfound, hstep⟩ := Option.bind_eq_some_iff.mp hstep
  obtain rfl : found = caller := Option.some.inj (hfound.symm.trans hi)
  split at hstep
  · next copy hphase =>
    have hfits := hkept.fits i found hi
    rw [Fits, hphase] at hfits
    rw [← Option.some.inj hstep]
    exact hfits.2.shows
  · cases hstep

/-! ## Rendered fragments -/

theorem not_carries_of_not_mem {marker line : Text} {c : Char} (hc : c ∈ marker) (h : c ∉ line) :
    carries marker line = false := by
  unfold carries Text.includes
  cases hbreak : Text.breakOn marker line with
  | none => rfl
  | some parts =>
    obtain ⟨before, after⟩ := parts
    exact absurd (Text.breakOn_eq hbreak ▸ by simp [hc]) h

/-- What a name is made of. -/
def inAlias (c : Char) : Bool := c.isAlphanum || c == '-' || c == '.'

theorem slugify_inAlias (lower : Text.Lowercase) (input : Text) :
    ∀ c ∈ slugify lower input, inAlias c = true := by
  have hlabel : ∀ (cs : Text) (s : Text × Bool), (∀ c ∈ s.1, inAlias c = true) →
      ∀ c ∈ (cs.foldl Docker.labelStep s).1, inAlias c = true := by
    intro cs
    induction cs with
    | nil => exact fun s h => h
    | cons x cs ih =>
      refine fun s h => ih _ ?_
      unfold Docker.labelStep
      split_ifs with _ hx
      · exact h
      · exact forall_mem_append.mpr ⟨h, by simp [inAlias, hx]⟩
      · exact forall_mem_append.mpr ⟨h, by simp [inAlias]⟩
      · exact h
  unfold slugify Docker.dnsLabel
  dsimp only
  split
  · exact all_eq_true.mp rfl
  · exact fun c hc => hlabel _ ([], false) (by simp) c (( rdropWhile_prefix _ _).subset hc)

theorem rejectUnsafe_of_inAlias {name : Text} (h : ∀ c ∈ name, inAlias c = true) :
    rejectUnsafe name = .ok () ∧ '#' ∉ name := by
  have hnot : ∀ c, inAlias c = false → c ∉ name := fun c hc hmem => by simp [h c hmem] at hc
  have heof : Text.includes "VIBESSH_DNS_EOF" name = false :=
    not_carries_of_not_mem (mem_of_elem_eq_true (a := '_') rfl) (hnot '_' rfl)
  have hnewlines : Docker.rejectNewlines name "a DNS alias" = .ok () := by
    refine guard_ok_iff.mpr fun hany => ?_
    obtain ⟨c, hmem, hc⟩ := any_eq_true.mp hany
    simp only [Bool.or_eq_true, beq_iff_eq] at hc
    rcases hc with (rfl | rfl) | rfl <;> exact hnot _ rfl hmem
  have hfind : name.find? (shellMetacharacters.contains ·) = none := by
    refine find?_eq_none.mpr fun c hmem hc => hnot c ?_ hmem
    have hbad : shellMetacharacters.all (!inAlias ·) = true := by decide
    simpa using all_eq_true.mp hbad c (by simpa using hc)
  refine ⟨?_, hnot '#' rfl⟩
  rw [rejectUnsafe, heof, if_neg Bool.false_ne_true, hnewlines]
  simp only [rejectShellMetacharacters, hfind]
  rfl

/-- **Every name a push renders is accepted**, whatever was typed. -/
theorem alias_accepted {lower : Text.Lowercase} {suffix : Text}
    (h : validateDnsSuffix suffix = .ok ()) (name : Text) :
    ∀ hostname ∈ [nodeAlias lower suffix name, normalizeAlias lower suffix name],
      rejectUnsafe hostname = .ok () ∧ '#' ∉ hostname := by
  have hsuffix : ∀ c ∈ suffix, inAlias c = true := by
    unfold validateDnsSuffix at h
    split_ifs at h with _ _ hall
    simp only [Bool.not_eq_true', Bool.not_eq_false, all_eq_true] at hall
    exact fun c hc => by grind [hall c hc, inAlias, Char.isAlphanum, Char.isAlpha]
  refine forall_mem_cons.mpr ⟨?_, forall_mem_singleton.mpr ?_⟩
  all_goals
    exact rejectUnsafe_of_inAlias (forall_mem_append.mpr ⟨slugify_inAlias _ _, hsuffix⟩)

theorem vibe_alias_accepted : validateDnsSuffix ".vibe" = .ok () ∧
    rejectUnsafe (nodeAlias .asciiOnly ".vibe" "db 1") = .ok () :=
  ⟨rfl, (alias_accepted (h := rfl) "db 1" _ (.head _)).1⟩

/-! ## Runs -/

/-- A run from start to end with nothing in between. -/
def whole (i : Nat) (job : Job) : List Event :=
  [.start job, .truncate i, .write i, .lock i, .filter i, .append i, .replace i]

def State.fresh (hosts : Text) : State := ⟨hosts, none, none, []⟩

def webView : DnsView := ⟨"web.vibe", "10.77.0.2"⟩

/-- A file as distributions ship it, with a line of the operator's. -/
def shipped : Text := "127.0.0.1 localhost\n10.0.0.9 db\n"

/-- A push, a second one and a clear: the operator's lines are what they were. -/
theorem shipped_lines_kept :
    ∃ t, Run Step (State.fresh shipped) (stepsOf step (State.fresh shipped)
        (whole 0 (.push [webView]) ++ whole 1 (.push []) ++ whole 2 .clear)) t ∧
      (∀ x ∈ stepsOf step (State.fresh shipped)
          (whole 0 (.push [webView]) ++ whole 1 (.push []) ++ whole 2 .clear),
        outside x.post.hosts = ["127.0.0.1 localhost".toList, "10.0.0.9 db".toList]) ∧
      t.hosts = shipped := by
  have hrun : ((whole 0 (.push [webView]) ++ whole 1 (.push []) ++ whole 2 .clear).foldlM step
      (State.fresh shipped)).map State.hosts = some shipped := by decide
  obtain ⟨t, ht, hhosts⟩ := Option.map_eq_some_iff.mp hrun
  have hkept := (hosts_lines_kept (run_stepsOf ht) rfl (by decide) (by decide)).1
  refine ⟨t, run_stepsOf ht, fun x hx => ?_, hhosts⟩
  rw [hkept x hx]
  decide

def hostsAfter (hosts : Text) (events : List Event) : Option Text :=
  (events.foldlM step (State.fresh hosts)).map State.hosts

/-- The operator's last line has no newline: the begin marker joins it, and the next push deletes
both. -/
def unended : Text := "127.0.0.1 localhost\n10.0.0.9 db"

/-- The end marker was lost, and the operator wrote a line below. -/
def damaged : Text :=
  "127.0.0.1 localhost\n# BEGIN VIBESSH-MANAGED-DNS\n10.77.0.2 web.vibe\n10.0.0.9 db\n"

/-- A clear and a push: both stage, then the push replaces the file, then the clear does. -/
def overlapping : List Event :=
  [.start .clear, .start (.push [webView]), .truncate 0, .write 0, .truncate 1, .write 1,
    .lock 1, .filter 1, .append 1, .replace 1, .lock 0, .filter 0, .append 0, .replace 0]

theorem hosts_lines_lost :
    (∃ after, hostsAfter unended (whole 0 (.push [webView])) = some after ∧
      "10.0.0.9 db".toList ∉ contents after ∧ ¬ Shows after (.push [webView])) ∧
    (∃ after, hostsAfter unended (whole 0 (.push [webView]) ++ whole 1 (.push [webView])) =
      some after ∧ outside after = ["127.0.0.1 localhost".toList]) ∧
    (outside damaged = ["127.0.0.1 localhost".toList, "10.77.0.2 web.vibe".toList,
        "10.0.0.9 db".toList] ∧
      ∃ after, hostsAfter damaged (whole 0 (.push [webView])) = some after ∧
        outside after = ["127.0.0.1 localhost".toList]) ∧
    ∃ after, hostsAfter shipped overlapping = some after ∧ ¬ Shows after .clear := by
  refine ⟨⟨_, rfl, ?_, ?_⟩, ⟨_, rfl, ?_⟩, ⟨?_, _, rfl, ?_⟩, ⟨_, rfl, ?_⟩⟩ <;> decide

end VibeSsh.Dns
