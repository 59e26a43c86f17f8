import VibeSsh.Basic
import VibeSsh.Lib.Ipv4
import VibeSsh.Lib.Shell

/-! # Pieces of a remote command

`ssh::command`: quoting a value into one argument, and the validators that decide whether a value
may be used at all. Each validator returns `ok` or the `InvalidInput` text the operator sees. -/

namespace VibeSsh.Command

open Lib

def quote (value : Text) : Text := '\'' :: (Shell.escape value ++ ['\''])

/-- A quoted value read back by the shell is one word, the value itself. -/
theorem readWords_quote (beyond : Shell.Beyond) (done : List Text) (value rest : Text) :
    Shell.readWords beyond done .between (quote value ++ rest) =
      Shell.readWords beyond done (.word false value) rest := by
  simpa [quote, Shell.readWords, Shell.step, Shell.bareStep, Shell.blank, Shell.Mode.current] using
    Shell.readWords_escape beyond done value rest []

variable (value field : Text)

def validateAbsolutePath : AppResult Unit :=
  let trimmed := Text.trim value
  if !Text.startsWith ['/'] trimmed then
    .error (.invalidInput (field ++ " must be an absolute path starting with '/'"))
  else if trimmed.contains '\x00' then
    .error (.invalidInput (field ++ " can't contain a null byte"))
  else if (trimmed.splitOn '/').any (· == ['.', '.']) then
    .error (.invalidInput (field ++ " can't contain '..'"))
  else .ok ()

def forbiddenDirectories : List Text :=
  ["/", "/bin", "/boot", "/dev", "/etc", "/home", "/lib", "/lib32", "/lib64", "/media", "/mnt",
    "/opt", "/proc", "/root", "/run", "/sbin", "/srv", "/sys", "/tmp", "/usr", "/var"].map
    String.toList

/-- The spelling `validate_application_directory` compares with the denylist. -/
def normalized (value : Text) : Text :=
  let trimmed := Text.trimEndMatches '/' (Text.trim value)
  if trimmed.isEmpty then ['/'] else trimmed

def validateApplicationDirectory (value : Text) : AppResult Unit := do
  validateAbsolutePath value "the working directory"
  let depth := (Text.segments (normalized value)).length
  if forbiddenDirectories.contains (normalized value) || depth < 2 then
    let suggestion :=
      if depth == 0 then "/srv/my-app".toList else normalized value ++ "/my-app".toList
    .error (.invalidInput ("'" ++ normalized value ++
      "' is a shared system directory - this application needs its own directory, e.g. '" ++
      suggestion ++ "'"))
  else .ok ()

def validateLinuxUsername : AppResult Unit :=
  let firstOk := value.head?.any fun c => c.isLower || c == '_'
  let restOk := value.tail.all fun c => c.isLower || c.isDigit || c == '_' || c == '-'
  if !firstOk || !restOk || 32 < value.length then
    .error (.invalidInput (field ++ " isn't a valid Linux account name"))
  else .ok ()

def validateIpv4 : AppResult Unit :=
  if (Ipv4.parse (Text.trim value)).isNone then
    .error (.invalidInput (field ++ " isn't a valid IPv4 address"))
  else .ok ()

def validateIpv4Cidr : AppResult Unit :=
  match Text.splitOnce '/' (Text.trim value) with
  | none => .error (.invalidInput (field ++ " must be in CIDR form, e.g. 10.77.0.0/16"))
  | some (address, bits) => do
    validateIpv4 address field
    match Text.parseUnsigned 255 bits with
    | some n =>
      if n ≤ 32 then .ok ()
      else .error (.invalidInput (field ++ " has an invalid CIDR prefix length"))
    | none => .error (.invalidInput (field ++ " has an invalid CIDR prefix length"))

/-- A rule's source in the one spelling `ufw show added` prints back. -/
def canonicalIpv4Source : AppResult Text :=
  let trimmed := Text.trim value
  match Text.splitOnce '/' trimmed with
  | none => do
    validateIpv4 trimmed field
    .ok trimmed
  | some (address, bits) => do
    validateIpv4Cidr trimmed field
    match Text.parseUnsigned (2 ^ 32 - 1) bits with
    | none => .error (.invalidInput (field ++ " has an invalid CIDR prefix length"))
    | some n =>
      match Ipv4.parse address with
      | none => .error (.invalidInput (field ++ " isn't a valid IPv4 address"))
      | some a =>
        if n = 32 then .ok (Ipv4.render a)
        else if a &&& ~~~Ipv4.mask n ≠ 0 then
          .error (.invalidInput (field ++ " has host bits set - did you mean " ++
            Ipv4.render (a &&& Ipv4.mask n) ++ "/" ++ Text.ofNat n ++ "?"))
        else .ok (Ipv4.render a ++ "/" ++ Text.ofNat n)

/-! ## What the path validators accept -/

/-- An absolute path without a NUL or a `..` segment, after trimming. -/
def IsAbsolutePath (value : Text) : Prop :=
  Text.startsWith ['/'] (Text.trim value) = true ∧ '\x00' ∉ Text.trim value ∧
    ['.', '.'] ∉ (Text.trim value).splitOn '/'

instance (value : Text) : Decidable (IsAbsolutePath value) := by
  unfold IsAbsolutePath; infer_instance

theorem validateAbsolutePath_ok_iff {value field : Text} :
    validateAbsolutePath value field = .ok () ↔ IsAbsolutePath value := by
  unfold validateAbsolutePath IsAbsolutePath
  dsimp only
  split
  · next h1 => simp_all
  split
  · next h2 => simp_all
  split
  · next h3 => simp_all
  · simp_all

theorem segments_normalized (value : Text) :
    Text.segments (normalized value) = Text.segments (Text.trim value) := by
  rw [← Text.segments_trimEndMatches (Text.trim value)]
  unfold normalized
  dsimp only
  split
  · next h => rw [List.isEmpty_iff.mp h]; rfl
  · rfl

/-- The depth rule subsumes the denylist. -/
theorem validateApplicationDirectory_ok_iff {value : Text} :
    validateApplicationDirectory value = .ok () ↔
      IsAbsolutePath value ∧ 2 ≤ (Text.segments (Text.trim value)).length := by
  unfold validateApplicationDirectory
  rw [try_ok_iff]
  constructor
  · rintro ⟨_, hp, hd⟩
    simp only [guard_ok_iff, segments_normalized] at hd
    refine ⟨validateAbsolutePath_ok_iff.mp hp, ?_⟩
    simp at hd
    omega
  · rintro ⟨hp, hd⟩
    refine ⟨(), validateAbsolutePath_ok_iff.mpr hp, ?_⟩
    have hf : normalized value ∉ forbiddenDirectories := fun hf => by
      have hall : ∀ d ∈ forbiddenDirectories, (Text.segments d).length < 2 := by decide
      have := hall _ hf
      rw [segments_normalized] at this
      omega
    rw [guard_ok_iff, segments_normalized, Bool.or_eq_true, List.contains_iff_mem,
      decide_eq_true_eq]
    rintro (hmem | hshallow)
    · exact hf hmem
    · omega

theorem mem_of_validateLinuxUsername {value field : Text}
    (h : validateLinuxUsername value field = .ok ()) {c : Char} (hc : c ∈ value) :
    (c.isLower || c.isDigit || c == '_' || c == '-') = true := by
  unfold validateLinuxUsername at h
  dsimp only at h
  rw [guard_ok_iff] at h
  simp only [Bool.or_eq_true, Bool.not_eq_true', not_or, Bool.not_eq_false] at h
  obtain ⟨⟨hfirst, hrest⟩, -⟩ := h
  cases value with
  | nil => cases hc
  | cons d rest =>
    rcases List.mem_cons.mp hc with rfl | hc
    · have : (c.isLower || c == '_') = true := by simpa using hfirst
      rcases Bool.or_eq_true_iff.mp this with h | h <;> simp [h]
    · exact List.all_eq_true.mp hrest c hc

theorem not_mem_of_validateLinuxUsername {value field : Text}
    (h : validateLinuxUsername value field = .ok ()) {c : Char}
    (hc : (c.isLower || c.isDigit || c == '_' || c == '-') = false) : c ∉ value := fun hmem => by
  rw [mem_of_validateLinuxUsername h hmem] at hc
  cases hc

end VibeSsh.Command
