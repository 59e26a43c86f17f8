import VibeSsh.Basic

/-! # Removing secrets before the assistant sees them

`ai::sanitizer`: which names read as secret, the three passes over free text, and the traversal of a
JSON value. The Unicode classes of a character are Rust's tables, of which only the ASCII part is
fixed here. -/

namespace VibeSsh.Ai

open Lib List

/-- `char::is_alphanumeric` and the predicates beside it. -/
structure CharClass where
  isAlphanumeric : Char → Bool
  isUppercase : Char → Bool
  isLowercase : Char → Bool
  isNumeric : Char → Bool
  ascii : ∀ c : Char, c.toNat < 128 → isAlphanumeric c = c.isAlphanum ∧
    isUppercase c = c.isUpper ∧ isLowercase c = c.isLower ∧ isNumeric c = c.isDigit

def CharClass.asciiOnly : CharClass where
  isAlphanumeric := Char.isAlphanum
  isUppercase := Char.isUpper
  isLowercase := Char.isLower
  isNumeric := Char.isDigit
  ascii := fun _ _ => ⟨rfl, rfl, rfl, rfl⟩

def redacted : Text := "***"

def secretSubstrings : List Text :=
  ["password", "passwd", "secret", "token", "apikey", "privatekey", "passphrase", "requirepass",
    "credential", "auth", "pwd"].map String.toList

def secretSegments : List Text :=
  ["key", "pass", "auth", "token", "secret", "pwd", "salt", "cookie", "session"].map String.toList

section

variable (u : CharClass)

/-! ## Names that read as secret -/

/-- The locals of the loop in `segments`. -/
structure SegmentState where
  out : List Text
  current : Text
  previousLower : Bool

/-- `if !current.is_empty() { out.push(take(&mut current)) }`. -/
def SegmentState.flush (s : SegmentState) : SegmentState :=
  if s.current.isEmpty then s else { s with out := s.out ++ [s.current], current := [] }

def segmentStep (s : SegmentState) (c : Char) : SegmentState :=
  if !u.isAlphanumeric c then { s.flush with previousLower := false }
  else
    let s := if u.isUppercase c && s.previousLower then s.flush else s
    { s with
      previousLower := u.isLowercase c || u.isNumeric c
      current := s.current ++ [c.toLower] }

def segments (key : Text) : List Text :=
  (key.foldl (segmentStep u) ⟨[], [], false⟩).flush.out

def isSecretKey (key : Text) : Bool :=
  let key := key.dropWhile (· == '-')
  let normalised := (key.filter u.isAlphanumeric).map Char.toLower
  secretSubstrings.any (fun needle => (Text.breakOn needle normalised).isSome) ||
    (segments u key).any secretSegments.contains

/-! ## Free text -/

/-- `redact_pem_blocks`, its loop; `out` is what has been written. -/
def pemLoop (out rest : Text) : Text :=
  match _h : Text.breakOn "-----BEGIN" rest with
  | none => out ++ rest
  | some (before, after) =>
    match _h2 : Text.breakOn "-----END" after with
    | none => out ++ before ++ redacted
    | some (_, tail) =>
      match _h3 : Text.breakOn "-----" tail with
      | none => out ++ before ++ redacted
      | some (_, rest') => pemLoop (out ++ before ++ redacted) rest'
termination_by rest.length
decreasing_by
  have h1 := Text.length_breakOn _h
  have h2 := Text.length_breakOn _h2
  have h3 := Text.length_breakOn _h3
  simp only [String.length_toList] at h1 h2 h3
  have : "-----".length = 5 := rfl
  omega

def redactPemBlocks (text : Text) : Text := pemLoop [] text

def endsAuthority (c : Char) : Bool := ['/', ' ', '"', '\n', '\t', '\''].contains c

def urlLoop (out rest : Text) : Text :=
  match _h : Text.breakOn "://" rest with
  | none => out ++ rest
  | some (before, authority) =>
    let host := authority.takeWhile (!endsAuthority ·)
    match Text.splitOnce '@' host with
    | some (userinfo, _) =>
      let kept := match Text.splitOnce ':' userinfo with
        | some (user, _) => user ++ ':' :: redacted
        | none => userinfo
      urlLoop (out ++ before ++ "://" ++ kept ++ ['@']) (authority.drop (userinfo.length + 1))
    | none => urlLoop (out ++ before ++ "://" ++ host) (authority.drop host.length)
termination_by rest.length
decreasing_by
  all_goals
    have h1 := Text.length_breakOn _h
    simp only [String.length_toList] at h1
    have : "://".length = 3 := rfl
    simp only [length_drop]
    omega

def redactUrlUserinfo (text : Text) : Text := urlLoop [] text

def isKeyChar (c : Char) : Bool := u.isAlphanumeric c || c == '_' || c == '-' || c == '.'

def isQuote (c : Char) : Bool := c == '"' || c == '\''

/-- The key that ends where `out` ends, one closing quote stepped over. -/
def keyBefore (out : Text) : Text :=
  let backwards := out.reverse
  let backwards := if backwards.head?.any isQuote then backwards.tail else backwards
  (backwards.takeWhile (isKeyChar u)).reverse

/-- The text after a value that starts `rest` and was introduced by `separator`. -/
def afterValue (separator : Char) (rest : Text) : Text :=
  match rest with
  | [] => []
  | c :: cs =>
    if isQuote c then
      let tail := cs.dropWhile fun d => d != c && d != '\n'
      if tail.head? = some c then tail.tail else tail
    else if separator = ':' then rest.dropWhile fun d => d != '\n' && d != '\r'
    else rest.dropWhile (!Text.isWhitespace ·)

theorem length_afterValue (separator : Char) (rest : Text) :
    (afterValue separator rest).length ≤ rest.length := by
  unfold afterValue
  split
  · exact le_rfl
  next c cs =>
  dsimp only
  have hdrop := (dropWhile_suffix (l := cs) fun d => d != c && d != '\n').length_le
  split
  · split
    · simp only [length_tail, length_cons]
      omega
    · simp only [length_cons]
      omega
  · split <;> exact (dropWhile_suffix _).length_le

def pairLoop (out : Text) : Text → Text
  | [] => out
  | c :: cs =>
    if c != '=' && c != ':' then pairLoop (out ++ [c]) cs
    else
      let key := keyBefore u out
      if key.isEmpty || !isSecretKey u key then pairLoop (out ++ [c]) cs
      else
        let spaces := cs.takeWhile fun d => d == ' ' || d == '\t'
        let rest := cs.dropWhile fun d => d == ' ' || d == '\t'
        let out := out ++ [c] ++ spaces
        if rest.head?.all fun d => d == '\n' || d == '\r' then pairLoop out rest
        else pairLoop (out ++ redacted) (afterValue c rest)
termination_by rest => rest.length
decreasing_by
  all_goals
    have h1 := (dropWhile_suffix (l := cs) fun d => d == ' ' || d == '\t').length_le
    have h2 := length_afterValue c (cs.dropWhile fun d => d == ' ' || d == '\t')
    simp only [length_cons]
    omega

def redactKeyValuePairs (text : Text) : Text := pairLoop u [] text

def sanitizeText (text : Text) : Text :=
  redactKeyValuePairs u (redactUrlUserinfo (redactPemBlocks text))

theorem pairLoop_plain {t : Text} (h : t.all (fun c => c != '=' && c != ':') = true)
    (out rest : Text) : pairLoop u out (t ++ rest) = pairLoop u (out ++ t) rest := by
  induction t generalizing out with
  | nil => simp
  | cons c cs ih =>
    simp only [all_cons, Bool.and_eq_true] at h
    rw [cons_append, pairLoop, if_pos (by simpa using h.1), ih h.2]
    simp

/-- A text without a separator, a URL or a key block is left as it is. -/
theorem sanitizeText_plain {t : Text} (hpem : Text.breakOn "-----BEGIN" t = none)
    (hurl : Text.breakOn "://" t = none)
    (hpair : t.all (fun c => c != '=' && c != ':') = true) : sanitizeText u t = t := by
  have h1 : redactPemBlocks t = t := by
    unfold redactPemBlocks pemLoop
    split
    · rfl
    · next h => rw [hpem] at h; cases h
  have h2 : redactUrlUserinfo t = t := by
    unfold redactUrlUserinfo urlLoop
    split
    · rfl
    · next h => rw [hurl] at h; cases h
  have h3 := pairLoop_plain u hpair [] []
  rw [append_nil, nil_append, pairLoop] at h3
  rw [sanitizeText, h1, h2, redactKeyValuePairs, h3]

end

/-! ## JSON -/

/-- `serde_json::Value`; an object's members stand in the order of its map, a number is its
literal. -/
inductive Json where
  | null
  | bool (b : Bool)
  | num (literal : Text)
  | str (text : Text)
  | arr (items : List Json)
  | obj (members : List (Text × Json))

section

variable (u : CharClass)

/-- An array element that arms the next one: a bare flag whose name reads as secret. -/
def isSecretFlag : Json → Bool
  | .str text => Text.startsWith ['-'] text && !text.contains '=' && isSecretKey u text
  | _ => false

mutual

def sanitizeJson : Json → Json
  | .obj members => .obj (sanitizeMembers members)
  | .arr items => .arr (sanitizeItems false items)
  | .str text => .str (sanitizeText u text)
  | .null => .null
  | .bool b => .bool b
  | .num literal => .num literal

/-- The loop over an array; `redactNext` is its flag. -/
def sanitizeItems (redactNext : Bool) : List Json → List Json
  | [] => []
  | item :: rest =>
    if redactNext then .str redacted :: sanitizeItems false rest
    else sanitizeJson item :: sanitizeItems (isSecretFlag u item) rest

def sanitizeMembers : List (Text × Json) → List (Text × Json)
  | [] => []
  | (key, child) :: rest =>
    (key, if isSecretKey u key then .str redacted else sanitizeJson child) :: sanitizeMembers rest

end

end

end VibeSsh.Ai
