import VibeSsh.Lib.Text

/-! # IPv4 addresses and networks

Dotted-quad text as Rust's `Ipv4Addr` parses and prints it, and networks as a base address with a
prefix length. An address is in a network when the two agree on the masked bits. -/

namespace Lib.Ipv4

open Lib List Option Text

abbrev Addr := BitVec 32

/-- One octet: one to three digits without a leading zero, at most 255. -/
def parseOctet (t : Text) : Option Nat :=
  if t.isEmpty || 3 < t.length || !t.all Char.isDigit || (1 < t.length && t.head? == some '0') then
    none
  else if Nat.ofDigitChars 10 t 0 ≤ 255 then some (Nat.ofDigitChars 10 t 0) else none

def parse (t : Text) : Option Addr :=
  match t.splitOn '.' with
  | [a, b, c, d] => do
    let a ← parseOctet a
    let b ← parseOctet b
    let c ← parseOctet c
    let d ← parseOctet d
    some (BitVec.ofNat 32 (((a * 256 + b) * 256 + c) * 256 + d))
  | _ => none

def render (a : Addr) : Text :=
  Text.join ['.'] [ofNat (a.toNat / 2 ^ 24), ofNat (a.toNat / 2 ^ 16 % 256),
    ofNat (a.toNat / 2 ^ 8 % 256), ofNat (a.toNat % 256)]

def mask (bits : Nat) : Addr := BitVec.allOnes 32 <<< (32 - bits)

/-- A network: the first `bits` bits of `base`. -/
structure Network where
  base : Addr
  bits : Nat
  deriving DecidableEq

def Network.contains (n : Network) (a : Addr) : Bool := a &&& mask n.bits == n.base &&& mask n.bits

/-- An address or `address/bits`, as a packet filter reads a source. -/
def parseNetwork (t : Text) : Option Network :=
  match splitOnce '/' t with
  | none => (parse t).map fun a => ⟨a, 32⟩
  | some (address, bits) => do
    let a ← parse address
    let n ← parseUnsigned 32 bits
    some ⟨a, n⟩

/-! ## Reading back what was printed -/

theorem parseOctet_ofNat {n : Nat} (h : n ≤ 255) : parseOctet (ofNat n) = some n := by
  have hall : ∀ m < 256, parseOctet (ofNat m) = some m := by decide +kernel
  exact hall n (Nat.lt_succ_of_le h)

/-- Four octets joined by dots read back as the address they make up. -/
theorem parse_dotted {a b c d : Nat} (ha : a ≤ 255) (hb : b ≤ 255) (hc : c ≤ 255) (hd : d ≤ 255) :
    parse (Text.join ['.'] [ofNat a, ofNat b, ofNat c, ofNat d]) =
      some (BitVec.ofNat 32 (((a * 256 + b) * 256 + c) * 256 + d)) := by
  have hdot : ∀ n, '.' ∉ ofNat n := fun n h => by
    have hdigit := isDigit_of_mem_ofNat h
    revert hdigit
    decide
  have hsplit : (Text.join ['.'] [ofNat a, ofNat b, ofNat c, ofNat d]).splitOn '.' =
      [ofNat a, ofNat b, ofNat c, ofNat d] := by
    refine splitOn_intercalate '.' (fun t ht => ?_) (by simp)
    simp only [mem_cons, not_mem_nil, or_false] at ht
    rcases ht with rfl | rfl | rfl | rfl <;> exact hdot _
  unfold parse
  rw [hsplit]
  simp [parseOctet_ofNat, ha, hb, hc, hd]

theorem parse_render (a : Addr) : parse (render a) = some a := by
  have hlt := a.isLt
  unfold render
  rw [parse_dotted (by omega) (by omega) (by omega) (by omega)]
  congr 1
  apply BitVec.eq_of_toNat_eq
  rw [BitVec.toNat_ofNat]
  omega

/-- A network as packet filters print it: the masked base with its prefix length. -/
def Network.render (n : Network) : Text :=
  Ipv4.render (n.base &&& mask n.bits) ++ '/' :: ofNat n.bits

variable {t : Text} {n : Network} {a : Addr} {c : Char}

theorem bits_le_of_parseNetwork (h : parseNetwork t = some n) : n.bits ≤ 32 := by
  unfold parseNetwork at h
  split at h
  · obtain ⟨a, -, rfl⟩ := map_eq_some_iff.mp h
    exact le_rfl
  · obtain ⟨a, -, h⟩ := bind_eq_some_iff.mp h
    obtain ⟨bits, hbits, h⟩ := bind_eq_some_iff.mp h
    cases h
    exact (parseUnsigned_le hbits).1

/-! ## The characters of an address -/

theorem isDigit_of_parseOctet {n : Nat} (h : parseOctet t = some n) :
    ∀ c ∈ t, c.isDigit = true := by
  unfold parseOctet at h
  split at h
  · cases h
  next hbad =>
    simp only [Bool.or_eq_true, not_or, Bool.not_eq_true', Bool.not_eq_false] at hbad
    exact all_eq_true.mp hbad.1.2

theorem isDigit_or_dot_of_parse (h : parse t = some a)
    (hc : c ∈ t) : c.isDigit = true ∨ c = '.' := by
  unfold parse at h
  split at h
  next w x y z hsplit =>
    obtain ⟨_, hw, h⟩ := bind_eq_some_iff.mp h
    obtain ⟨_, hx, h⟩ := bind_eq_some_iff.mp h
    obtain ⟨_, hy, h⟩ := bind_eq_some_iff.mp h
    obtain ⟨_, hz, _⟩ := bind_eq_some_iff.mp h
    have ht : t = Text.join ['.'] [w, x, y, z] := by
      rw [← hsplit]
      exact (intercalate_splitOn '.').symm
    rw [ht] at hc
    rcases mem_join hc with hdot | ⟨part, hpart, hmem⟩
    · exact .inr (mem_singleton.mp hdot)
    · simp only [mem_cons, not_mem_nil, or_false] at hpart
      rcases hpart with rfl | rfl | rfl | rfl
      · exact .inl (isDigit_of_parseOctet hw c hmem)
      · exact .inl (isDigit_of_parseOctet hx c hmem)
      · exact .inl (isDigit_of_parseOctet hy c hmem)
      · exact .inl (isDigit_of_parseOctet hz c hmem)
  next => cases h

theorem isDigit_or_dot_of_render (hc : c ∈ render a) : c.isDigit = true ∨ c = '.' := by
  rcases mem_join hc with hdot | ⟨part, hpart, hc⟩
  · exact .inr (mem_singleton.mp hdot)
  · simp only [mem_cons, not_mem_nil, or_false] at hpart
    rcases hpart with rfl | rfl | rfl | rfl <;> exact .inl (isDigit_of_mem_ofNat hc)

theorem render_ne_nil (a : Addr) : render a ≠ [] := by
  simp [render, Text.join, intercalate_cons_cons, Text.ofNat_ne_nil]

/-- A printed network is read as the masked one. -/
theorem parseNetwork_render (h : n.bits ≤ 32) :
    parseNetwork n.render = some ⟨n.base &&& mask n.bits, n.bits⟩ := by
  have hslash : '/' ∉ Ipv4.render (n.base &&& mask n.bits) := fun hc =>
    (isDigit_or_dot_of_render hc).elim (by decide) (by decide)
  unfold parseNetwork Network.render
  rw [splitOnce_append hslash]
  simp [parse_render, parseUnsigned_ofNat h]

theorem render_masked : (⟨n.base &&& mask n.bits, n.bits⟩ : Network).render = n.render := by
  unfold Network.render
  rw [BitVec.and_assoc, BitVec.and_self]

theorem length_render_le (a : Addr) : (render a).length ≤ 15 := by
  have hlt := a.isLt
  have hoctet : ∀ n ≤ 255, (ofNat n).length ≤ 3 := fun n hn =>
    (Nat.length_toDigits_le_iff (by decide) (by decide)).mpr (by omega)
  have h1 := hoctet (a.toNat / 2 ^ 24) (by omega)
  have h2 := hoctet (a.toNat / 2 ^ 16 % 256) (by omega)
  have h3 := hoctet (a.toNat / 2 ^ 8 % 256) (by omega)
  have h4 := hoctet (a.toNat % 256) (by omega)
  simp only [render, Text.join, intercalate_cons_cons, intercalate_singleton,
    length_append, length_cons, length_nil]
  omega

/-! ## One spelling for each address -/

theorem ofNat_digit (h : c.isDigit = true) :
    ofNat (c.toNat - '0'.toNat) = [c] ∧ c.toNat - '0'.toNat < 10 := by
  have hall : ∀ n ≤ 57, 48 ≤ n →
      (n - '0'.toNat).digitChar.toNat = n ∧ n - '0'.toNat < 10 := by decide
  simp only [Char.isDigit, ge_iff_le, Bool.and_eq_true, decide_eq_true_eq] at h
  obtain ⟨hchar, hlt⟩ := hall c.toNat h.2 h.1
  rw [ofNat, Nat.toDigits_of_lt_base hlt, Char.toNat_inj.mp hchar]
  exact ⟨rfl, hlt⟩

/-- Digits without a needless zero in front are the spelling of their value. -/
theorem ofNat_ofDigitChars (hne : t ≠ []) (hdigits : ∀ c ∈ t, c.isDigit = true)
    (hzero : t.head? = some '0' → t.length = 1) : ofNat (Nat.ofDigitChars 10 t 0) = t := by
  induction t using List.reverseRecOn with
  | nil => exact absurd rfl hne
  | append_singleton t c ih =>
    obtain ⟨hc, hlt⟩ := ofNat_digit (hdigits c (by simp))
    rw [Nat.ofDigitChars_append, Nat.ofDigitChars_cons, Nat.ofDigitChars_nil]
    by_cases ht : t = []
    · subst ht
      simpa using hc
    · have hhead : t.head? ≠ some '0' := fun h => by
        have hlength := hzero (by rw [List.head?_append_of_ne_nil _ ht, h])
        exact ht (length_eq_zero_iff.mp (by simpa using hlength))
      have hvalue := ih ht (fun d hd => hdigits d (by simp [hd])) fun h => absurd h hhead
      have hpos : 0 < Nat.ofDigitChars 10 t 0 := Nat.pos_of_ne_zero fun h => by
        rw [h] at hvalue
        exact hhead (hvalue ▸ rfl)
      unfold ofNat at hc hvalue ⊢
      rw [← Nat.toDigits_append_toDigits (by decide) hpos hlt, hvalue, hc]

theorem ofNat_of_parseOctet {n : Nat} (h : parseOctet t = some n) : ofNat n = t := by
  have hdigits := isDigit_of_parseOctet h
  unfold parseOctet at h
  split at h
  · cases h
  next hbad =>
    obtain rfl : Nat.ofDigitChars 10 t 0 = n := by
      split at h
      · exact some.inj h
      · cases h
    simp only [Bool.or_eq_true, not_or, List.isEmpty_iff, Bool.and_eq_true, decide_eq_true_eq,
      beq_iff_eq] at hbad
    have hpos := List.length_pos_iff.mpr hbad.1.1.1
    exact ofNat_ofDigitChars hbad.1.1.1 hdigits fun hzero => by
      have := mt (And.intro · hzero) hbad.2
      omega

/-- An address has one spelling. -/
theorem render_of_parse (h : parse t = some a) : render a = t := by
  unfold parse at h
  split at h
  next w x y z hsplit =>
    obtain ⟨i, hw, h⟩ := bind_eq_some_iff.mp h
    obtain ⟨j, hx, h⟩ := bind_eq_some_iff.mp h
    obtain ⟨k, hy, h⟩ := bind_eq_some_iff.mp h
    obtain ⟨l, hz, h⟩ := bind_eq_some_iff.mp h
    cases h
    have hle : ∀ {t n}, parseOctet t = some n → n ≤ 255 := by
      intro t n h
      unfold parseOctet at h
      split_ifs at h with _ hle
      exact some.inj h ▸ hle
    have h1 := hle hw
    have h2 := hle hx
    have h3 := hle hy
    have h4 := hle hz
    have ht : t = Text.join ['.'] [w, x, y, z] := by
      rw [← hsplit]
      exact (intercalate_splitOn '.').symm
    rw [ht, ← ofNat_of_parseOctet hw, ← ofNat_of_parseOctet hx, ← ofNat_of_parseOctet hy,
      ← ofNat_of_parseOctet hz, render, BitVec.toNat_ofNat, Nat.mod_eq_of_lt (by omega)]
    congr <;> omega
  next => cases h

/-! ## Networks as sets of addresses -/

def Network.addresses (n : Network) : Set Addr := {a | n.contains a = true}

/-- A prefix length, and no bit set behind it. -/
def Network.Masked (n : Network) : Prop := n.bits ≤ 32 ∧ n.base &&& ~~~mask n.bits = 0

theorem getLsbD_mask (bits i : Nat) :
    (mask bits).getLsbD i = (decide (i < 32) && decide (32 - bits ≤ i)) := by
  unfold mask
  rw [BitVec.getLsbD_shiftLeft, BitVec.getLsbD_allOnes]
  grind

theorem Network.Masked.base_and (h : n.Masked) : n.base &&& mask n.bits = n.base := by
  have hsplit : n.base &&& mask n.bits ||| n.base &&& ~~~mask n.bits = n.base := by
    rw [← BitVec.and_or_distrib_left, BitVec.or_not_self, BitVec.and_allOnes]
  simpa [h.2] using hsplit

theorem Network.mem_addresses : a ∈ n.addresses ↔ a &&& mask n.bits = n.base &&& mask n.bits := by
  simp [addresses, contains]

/-- What is in both networks agrees with itself, changed at a bit only the wider one leaves open. -/
theorem Network.bits_le_of_subset {m : Network} (hm : m.bits ≤ 32)
    (h : n.addresses ⊆ m.addresses) : m.bits ≤ n.bits := by
  by_contra hlt
  have hbase : n.base ∈ n.addresses := mem_addresses.mpr rfl
  have hflip : n.base ^^^ BitVec.twoPow 32 (31 - n.bits) ∈ n.addresses := by
    rw [mem_addresses]
    apply BitVec.eq_of_getLsbD_eq
    intro i hi
    simp only [BitVec.getLsbD_and, BitVec.getLsbD_xor, BitVec.getLsbD_twoPow, getLsbD_mask]
    grind
  have heq := (mem_addresses.mp (h hflip)).trans (mem_addresses.mp (h hbase)).symm
  have hbit := congrArg (·.getLsbD (31 - n.bits)) heq
  simp only [BitVec.getLsbD_and, BitVec.getLsbD_xor, BitVec.getLsbD_twoPow, getLsbD_mask] at hbit
  grind

/-- **A network is told by its addresses.** -/
theorem Network.eq_of_addresses {m : Network} (hn : n.Masked) (hm : m.Masked)
    (h : n.addresses = m.addresses) : n = m := by
  have hbits : n.bits = m.bits :=
    le_antisymm (bits_le_of_subset hn.1 h.ge) (bits_le_of_subset hm.1 h.le)
  have hbase : n.base ∈ m.addresses := h ▸ mem_addresses.mpr rfl
  have hsame := mem_addresses.mp hbase
  rw [← hbits, hn.base_and, hbits, hm.base_and] at hsame
  cases n
  cases m
  simp_all

end Lib.Ipv4
