import VibeSsh.Ssh.Command

/-! # Sources of firewall rules

`canonical_ipv4_source` accepts the spellings of a network without host bits, however its prefix
length is written, and returns one of them. -/

namespace VibeSsh.Command

open Lib Option Text

/-- A network in the one spelling: a single address without a prefix length. -/
def spelled (n : Ipv4.Network) : Text :=
  if n.bits = 32 then Ipv4.render n.base
  else Ipv4.render n.base ++ "/" ++ ofNat n.bits

/-- The addresses a source denotes, if it is one. -/
def sourceAddresses (source : Text) : Option (Set Ipv4.Addr) :=
  (Ipv4.parseNetwork (trim source)).map (·.addresses)

theorem isWhitespace_of_digit_or_dot {c : Char} (h : c.isDigit = true ∨ c = '.') :
    isWhitespace c = false := by
  rcases h with hdigit | rfl
  · simp only [Char.isDigit, Bool.and_eq_true, decide_eq_true_eq, ge_iff_le,
      UInt32.le_iff_toNat_le] at hdigit
    exact isWhitespace_eq_false (le_trans (by decide) hdigit.1) (le_trans hdigit.2 (by decide))
  · decide

/-- The canonical spelling is one word. -/
theorem spelled_word (n : Ipv4.Network) :
    spelled n ≠ [] ∧ ∀ c ∈ spelled n, isWhitespace c = false := by
  have hbase : ∀ c ∈ Ipv4.render n.base, isWhitespace c = false := fun c hc =>
    isWhitespace_of_digit_or_dot (Ipv4.isDigit_or_dot_of_render hc)
  unfold spelled
  split
  · exact ⟨Ipv4.render_ne_nil _, hbase⟩
  · refine ⟨by simp [Ipv4.render_ne_nil], fun c hc => ?_⟩
    simp only [List.mem_append] at hc
    rcases hc with (hc | hc) | hc
    · exact hbase c hc
    · exact isWhitespace_of_mem_all (by decide) hc
    · exact isWhitespace_of_mem_ofNat hc

theorem parseNetwork_spelled {n : Ipv4.Network} (h : n.bits ≤ 32) :
    Ipv4.parseNetwork (spelled n) = some n := by
  have hslash : '/' ∉ Ipv4.render n.base := fun hc =>
    (Ipv4.isDigit_or_dot_of_render hc).elim (by decide) (by decide)
  unfold spelled
  split
  · next hbits =>
    rw [Ipv4.parseNetwork, splitOnce_eq_none hslash, Ipv4.parse_render]
    exact congrArg some (by rw [← hbits])
  · rw [List.append_assoc, Ipv4.parseNetwork]
    simp [splitOnce_append hslash, Ipv4.parse_render, parseUnsigned_ofNat h]

theorem validateIpv4_ok_iff {value field : Text} :
    validateIpv4 value field = .ok () ↔ ∃ a, Ipv4.parse (trim value) = some a := by
  unfold validateIpv4
  rw [guard_ok_iff, isNone_iff_eq_none, ← ne_eq, ne_none_iff_exists']

theorem trim_address {t : Text} {a : Ipv4.Addr} (h : Ipv4.parse t = some a) : trim t = t :=
  trim_eq_self fun _ hc => isWhitespace_of_digit_or_dot (Ipv4.isDigit_or_dot_of_parse h hc)

theorem validateIpv4Cidr_bits {value field address bits : Text} {n max : Nat}
    (hsplit : splitOnce '/' (trim value) = some (address, bits))
    (h : validateIpv4Cidr (trim value) field = .ok ())
    (hn : parseUnsigned max bits = some n) : n ≤ 32 := by
  unfold validateIpv4Cidr at h
  rw [trim_trim, hsplit] at h
  obtain ⟨⟨⟩, -, h⟩ := try_ok_iff.mp h
  split at h
  next m hm =>
    split at h
    next hle =>
      have hmax := (parseUnsigned_le hm).2 (2 ^ 32 + n) (by omega)
      rw [(parseUnsigned_le hn).2 (2 ^ 32 + n) (by omega)] at hmax
      exact some.inj hmax ▸ hle
    next => cases h
  next => cases h

theorem validateIpv4Cidr_ok {value field address bits : Text} {a : Ipv4.Addr} {n : Nat}
    (hsplit : splitOnce '/' (trim value) = some (address, bits))
    (ha : Ipv4.parse address = some a) (hn : parseUnsigned 255 bits = some n) (hle : n ≤ 32) :
    validateIpv4Cidr (trim value) field = .ok () := by
  unfold validateIpv4Cidr
  rw [trim_trim, hsplit]
  refine try_ok_iff.mpr ⟨(), validateIpv4_ok_iff.mpr ⟨a, by rwa [trim_address ha]⟩, ?_⟩
  rw [hn]
  exact if_pos hle

theorem masked_address (a : Ipv4.Addr) : (⟨a, 32⟩ : Ipv4.Network).Masked :=
  ⟨le_rfl, by simp [Ipv4.mask]⟩

/-- **What is accepted, and as what**: the networks without host bits, in their one spelling. -/
theorem canonicalIpv4Source_ok_iff {value field result : Text} :
    canonicalIpv4Source value field = .ok result ↔
      ∃ n, Ipv4.parseNetwork (trim value) = some n ∧ n.Masked ∧ result = spelled n := by
  unfold canonicalIpv4Source Ipv4.parseNetwork
  dsimp only
  cases hsplit : splitOnce '/' (trim value) with
  | none =>
    constructor
    · intro h
      obtain ⟨⟨⟩, hvalid, h⟩ := try_ok_iff.mp h
      obtain ⟨a, ha⟩ := validateIpv4_ok_iff.mp hvalid
      rw [trim_trim] at ha
      refine ⟨⟨a, 32⟩, by simp [ha], masked_address a, ?_⟩
      rw [spelled, if_pos rfl, Ipv4.render_of_parse ha]
      exact (Except.ok.inj h).symm
    · rintro ⟨n, hn, -, rfl⟩
      obtain ⟨a, ha, rfl⟩ := map_eq_some_iff.mp hn
      rw [spelled, if_pos rfl, Ipv4.render_of_parse ha]
      exact try_ok_iff.mpr ⟨(), validateIpv4_ok_iff.mpr ⟨a, by rwa [trim_trim]⟩, rfl⟩
  | some parts =>
    obtain ⟨address, bits⟩ := parts
    constructor
    · intro h
      obtain ⟨⟨⟩, hcidr, h⟩ := try_ok_iff.mp h
      split at h
      · cases h
      next n hn =>
        split at h
        · cases h
        next a ha =>
          have hle := (validateIpv4Cidr_bits hsplit hcidr hn)
          refine ⟨⟨a, n⟩, by simp [ha, (parseUnsigned_le hn).2 32 hle], ?_⟩
          unfold spelled
          dsimp only
          split at h
          next h32 =>
            subst h32
            exact ⟨masked_address a, by rw [if_pos rfl]; exact (Except.ok.inj h).symm⟩
          next h32 =>
            split at h
            · cases h
            next hhost =>
              exact ⟨⟨hle, not_not.mp hhost⟩, by rw [if_neg h32]; exact (Except.ok.inj h).symm⟩
    · rintro ⟨n, hn, ⟨hle, hhost⟩, rfl⟩
      obtain ⟨a, ha, hn⟩ := bind_eq_some_iff.mp hn
      obtain ⟨m, hm, hn⟩ := bind_eq_some_iff.mp hn
      cases hn
      have hbits := (parseUnsigned_le hm).2
      have hm32 : m ≤ 32 := hle
      refine try_ok_iff.mpr ⟨(), validateIpv4Cidr_ok hsplit ha (hbits 255 (by omega)) hle, ?_⟩
      rw [hbits (2 ^ 32 - 1) (by omega), ha]
      simp [spelled, hhost, apply_ite]

/-- **A canonical form.** What is returned is accepted, returned unchanged and denotes the same
addresses, and two accepted sources have one result exactly when they denote the same addresses. -/
theorem canonicalIpv4Source_canonical {value field result : Text}
    (h : canonicalIpv4Source value field = .ok result) :
    (∀ field', canonicalIpv4Source result field' = .ok result) ∧
      (∃ addresses, sourceAddresses value = some addresses ∧
        sourceAddresses result = some addresses) ∧
      ∀ other field' result', canonicalIpv4Source other field' = .ok result' →
        (result = result' ↔ sourceAddresses value = sourceAddresses other) := by
  obtain ⟨n, hn, hmasked, rfl⟩ := canonicalIpv4Source_ok_iff.mp h
  have hread : ∀ {m : Ipv4.Network}, m.Masked →
      Ipv4.parseNetwork (trim (spelled m)) = some m := fun hm => by
    rw [trim_eq_self (spelled_word _).2, parseNetwork_spelled hm.1]
  refine ⟨fun field' => canonicalIpv4Source_ok_iff.mpr ⟨n, hread hmasked, hmasked, rfl⟩,
    ⟨n.addresses, by simp [sourceAddresses, hn], by simp [sourceAddresses, hread hmasked]⟩, ?_⟩
  intro other field' result' hother
  obtain ⟨m, hm, hmasked', rfl⟩ := canonicalIpv4Source_ok_iff.mp hother
  simp only [sourceAddresses, hn, hm, map_some, some.injEq]
  constructor
  · intro heq
    have hsame := hread hmasked
    rw [heq, hread hmasked', some.injEq] at hsame
    rw [hsame]
  · intro heq
    rw [Ipv4.Network.eq_of_addresses hmasked hmasked' heq]

/-- A prefix length with a sign and a zero in front. -/
theorem signed_prefix_canonical :
    canonicalIpv4Source " 10.0.0.0/+08 " "the source" = .ok "10.0.0.0/8" ∧
      canonicalIpv4Source "10.0.0.0/8" "the source" = .ok "10.0.0.0/8" := by
  have h : canonicalIpv4Source " 10.0.0.0/+08 " "the source" =
      .ok "10.0.0.0/8" := by decide
  exact ⟨h, (canonicalIpv4Source_canonical h).1 _⟩

end VibeSsh.Command
