import VibeSsh.Basic
import VibeSsh.Lib.Ipv4

/-! # Addresses of the Vibe Network

`node_network_repository`: the ledger of which Node holds which address of 10.77.0.0/16. A join takes
the first address that nobody holds and a leave gives it back. -/

open List

namespace VibeSsh.Network

open Lib

structure NodeNetworkMember where
  serverId : Uuid
  wireguardIp : Text
  wireguardPublicKey : Text
  joinedAt : Nat
  deriving DecidableEq

/-- `node_network_members`, with its primary key, its unique column and the reference to
`servers`. -/
structure Ledger where
  servers : List Uuid
  members : List NodeNetworkMember
  ids : (members.map (·.serverId)).Nodup
  ips : (members.map (·.wireguardIp)).Nodup
  known : ∀ m ∈ members, m.serverId ∈ servers

namespace Ledger

def meshCidrSecondOctet : Nat := 77

def candidateIp (candidate : Nat) : Text :=
  "10." ++ (Text.ofNat meshCidrSecondOctet ++ '.' ::
    (Text.ofNat ((candidate >>> 8) &&& 0xFF) ++ '.' :: Text.ofNat (candidate &&& 0xFF)))

def candidates : List Nat := List.range' 1 65534

variable (l : Ledger)

def get (server : Uuid) : Option NodeNetworkMember :=
  l.members.find? (·.serverId = server)

def taken : List Text := l.members.map (·.wireguardIp)

def allocateIp : AppResult Text :=
  match candidates.find? fun candidate => !l.taken.contains (candidateIp candidate) with
  | some candidate => .ok (candidateIp candidate)
  | none => .error (.invalidInput "the Vibe Network address range is exhausted")

/-- The row an insert may add. -/
def Fits (m : NodeNetworkMember) : Prop :=
  m.serverId ∈ l.servers ∧ m.serverId ∉ l.members.map (·.serverId) ∧ m.wireguardIp ∉ l.taken

instance (l : Ledger) (m : NodeNetworkMember) : Decidable (l.Fits m) :=
  inferInstanceAs (Decidable (_ ∧ _ ∧ _))

def insert (m : NodeNetworkMember) (h : l.Fits m) : Ledger where
  servers := l.servers
  members := l.members ++ [m]
  ids := by
    rw [map_append, nodup_append']
    exact ⟨l.ids, by simp, by simpa [disjoint_left] using h.2.1⟩
  ips := by
    rw [map_append, nodup_append']
    exact ⟨l.ips, by simp, by simpa [disjoint_left, taken] using h.2.2⟩
  known := forall_mem_append.mpr ⟨l.known, forall_mem_singleton.mpr h.1⟩

def join (server : Uuid) (publicKey : Text) (now : Nat) :
    AppResult (NodeNetworkMember × Ledger) := do
  let ip ← l.allocateIp
  let member : NodeNetworkMember := ⟨server, ip, publicKey, now⟩
  if h : l.Fits member then .ok (member, l.insert member h)
  else .error (.storage "failed to record network membership: constraint failed")

def remove (server : Uuid) : Ledger where
  servers := l.servers
  members := l.members.filter (·.serverId ≠ server)
  ids := l.ids.sublist (filter_sublist.map _)
  ips := l.ips.sublist (filter_sublist.map _)
  known := fun m hm => l.known m (mem_of_mem_filter hm)

def leave (server : Uuid) : AppResult Ledger :=
  if l.members.any (·.serverId = server) then .ok (l.remove server)
  else .error (.notFound ("network membership for server " ++ server.display))

end Ledger

inductive Op where
  | join (server : Uuid) (publicKey : Text) (now : Nat)
  | leave (server : Uuid)
  deriving DecidableEq

/-- A call that fails leaves the ledger as it was. -/
def next (l : Ledger) : Op → Ledger
  | .join server publicKey now =>
    match l.join server publicKey now with
    | .ok (_, l) => l
    | .error _ => l
  | .leave server =>
    match l.leave server with
    | .ok l => l
    | .error _ => l

/-! ## The addresses -/

def firstAddress : Ipv4.Addr := 0x0A4D0001

def lastAddress : Ipv4.Addr := 0x0A4DFFFE

/-- 10.77.0.1 to 10.77.255.254. -/
def InRange (a : Ipv4.Addr) : Prop := firstAddress ≤ a ∧ a ≤ lastAddress

def InUse (l : Ledger) (a : Ipv4.Addr) : Prop :=
  ∃ m ∈ l.members, Ipv4.parse m.wireguardIp = some a

def numbered (candidate : Nat) : Ipv4.Addr := BitVec.ofNat 32 (0x0A4D0000 + candidate)

variable {candidate : Nat} {l : Ledger}

theorem parse_candidateIp (h : candidate < 65536) :
    Ipv4.parse (Ledger.candidateIp candidate) = some (numbered candidate) := by
  have hlow : candidate &&& 0xFF = candidate % 256 := Nat.and_two_pow_sub_one_eq_mod candidate 8
  have hhigh : (candidate >>> 8) &&& 0xFF = candidate / 256 := by
    rw [Nat.and_two_pow_sub_one_eq_mod _ 8, Nat.shiftRight_eq_div_pow]
    omega
  have htext : Ledger.candidateIp candidate = Text.join ['.'] [Text.ofNat 10, Text.ofNat 77,
      Text.ofNat (candidate / 256), Text.ofNat (candidate % 256)] := by
    have hten : Text.ofNat 10 = "10" := by decide
    unfold Ledger.candidateIp
    rw [hlow, hhigh, hten]
    simp [Text.join, List.intercalate, List.intersperse, Ledger.meshCidrSecondOctet]
  rw [htext, Ipv4.parse_dotted (by omega) (by omega) (by omega) (by omega)]
  unfold numbered
  congr 2
  omega

theorem toNat_numbered (h : candidate < 65536) :
    (numbered candidate).toNat = 0x0A4D0000 + candidate := by
  unfold numbered
  rw [BitVec.toNat_ofNat]
  omega

theorem mem_candidates : candidate ∈ Ledger.candidates ↔ 1 ≤ candidate ∧ candidate ≤ 65534 := by
  unfold Ledger.candidates
  rw [mem_range'_1]
  omega

theorem inRange_iff {a : Ipv4.Addr} :
    InRange a ↔ ∃ candidate ∈ Ledger.candidates, a = numbered candidate := by
  have hfirst : firstAddress.toNat = 0x0A4D0001 := rfl
  have hlast : lastAddress.toNat = 0x0A4DFFFE := rfl
  unfold InRange
  rw [BitVec.le_def, BitVec.le_def, hfirst, hlast]
  constructor
  · rintro ⟨hlo, hhi⟩
    refine ⟨a.toNat - 0x0A4D0000, mem_candidates.mpr (by omega), ?_⟩
    apply BitVec.eq_of_toNat_eq
    rw [toNat_numbered (by omega)]
    omega
  · rintro ⟨candidate, hmem, rfl⟩
    have hbounds := mem_candidates.mp hmem
    rw [toNat_numbered (by omega)]
    omega

/-! ## Joining -/

/-- Every address handed out is the text of a candidate. -/
def Numbered (l : Ledger) : Prop :=
  ∀ m ∈ l.members, ∃ candidate ∈ Ledger.candidates, m.wireguardIp = Ledger.candidateIp candidate

theorem mem_taken_iff (hl : Numbered l) (h : candidate ∈ Ledger.candidates) :
    Ledger.candidateIp candidate ∈ l.taken ↔ InUse l (numbered candidate) := by
  have hbounds := mem_candidates.mp h
  unfold Ledger.taken
  rw [mem_map]
  constructor
  · rintro ⟨m, hm, heq⟩
    exact ⟨m, hm, by rw [heq, parse_candidateIp (by omega)]⟩
  · rintro ⟨m, hm, hparse⟩
    obtain ⟨other, hother, hip⟩ := hl m hm
    have hbounds' := mem_candidates.mp hother
    rw [hip, parse_candidateIp (by omega)] at hparse
    have hsame := congrArg BitVec.toNat (Option.some.inj hparse)
    rw [toNat_numbered (by omega), toNat_numbered (by omega)] at hsame
    obtain rfl : other = candidate := by omega
    exact ⟨m, hm, hip⟩

/-- What a join that succeeds hands out: the first candidate nobody holds. -/
theorem join_ok {l' : Ledger} {server : Uuid} {publicKey : Text} {now : Nat}
    {m : NodeNetworkMember} (h : l.join server publicKey now = .ok (m, l')) :
    l'.members = l.members ++ [m] ∧ ∃ candidate ∈ Ledger.candidates,
      m.wireguardIp = Ledger.candidateIp candidate ∧ Ledger.candidateIp candidate ∉ l.taken ∧
        ∀ other ∈ Ledger.candidates, other < candidate → Ledger.candidateIp other ∈ l.taken := by
  obtain ⟨ip, hip, h⟩ := try_ok_iff.mp h
  dsimp only at h
  split at h
  · next hfits =>
    cases h
    refine ⟨rfl, ?_⟩
    unfold Ledger.allocateIp at hip
    split at hip
    · next candidate hfind =>
      cases hip
      obtain ⟨hfree, before, after, hsplit, hbefore⟩ := List.find?_eq_some_iff_append.mp hfind
      refine ⟨candidate, mem_of_find?_eq_some hfind, rfl, by simpa using hfree, ?_⟩
      intro other hother hlt
      have hsorted : Ledger.candidates.Pairwise (· < ·) := pairwise_lt_range'
      rw [hsplit, pairwise_append] at hsorted
      rw [hsplit, mem_append, mem_cons] at hother
      rcases hother with hother | rfl | hother
      · simpa using hbefore other hother
      · exact absurd hlt (Nat.lt_irrefl _)
      · have hgt := (pairwise_cons.mp hsorted.2.1).1 other hother
        omega
    · cases hip
  · cases h

/-- A join that fails for a Node that is stored and no member found every address taken. -/
theorem join_error {server : Uuid} {publicKey : Text} {now : Nat} {e : AppError}
    (h : l.join server publicKey now = .error e) (hserver : server ∈ l.servers)
    (hmember : server ∉ l.members.map (·.serverId)) :
    ∀ candidate ∈ Ledger.candidates, Ledger.candidateIp candidate ∈ l.taken := by
  intro candidate hcandidate
  by_contra hfree
  obtain ⟨first, hfirst⟩ : ∃ first,
      Ledger.candidates.find? (fun c => !l.taken.contains (Ledger.candidateIp c)) = some first :=
    Option.isSome_iff_exists.mp (List.find?_isSome.mpr ⟨candidate, hcandidate, by simpa using hfree⟩)
  have halloc : l.allocateIp = .ok (Ledger.candidateIp first) := by
    unfold Ledger.allocateIp
    rw [hfirst]
  have hfits : l.Fits ⟨server, Ledger.candidateIp first, publicKey, now⟩ :=
    ⟨hserver, hmember, by simpa using List.find?_some hfirst⟩
  unfold Ledger.join at h
  rw [halloc] at h
  simp only [bind, Except.bind, dif_pos hfits] at h
  cases h

theorem numbered_next (hl : Numbered l) (op : Op) : Numbered (next l op) := by
  cases op with
  | join server publicKey now =>
    unfold next
    dsimp only
    split
    · next m l' hjoin =>
      obtain ⟨hmembers, candidate, hmem, hip, -⟩ := join_ok hjoin
      intro m' hm'
      rw [hmembers, mem_append, mem_singleton] at hm'
      rcases hm' with hm' | rfl
      · exact hl m' hm'
      · exact ⟨candidate, hmem, hip⟩
    · exact hl
  | leave server =>
    unfold next Ledger.leave
    dsimp only
    split_ifs
    · exact fun m hm => hl m (mem_of_mem_filter hm)
    · exact hl

theorem servers_next (l : Ledger) (op : Op) : (next l op).servers = l.servers := by
  cases op with
  | join server publicKey now =>
    unfold next
    dsimp only
    split
    · next m l' hjoin =>
      obtain ⟨ip, -, hjoin⟩ := try_ok_iff.mp hjoin
      dsimp only at hjoin
      split at hjoin <;> cases hjoin
      rfl
    · rfl
  | leave server =>
    unfold next Ledger.leave
    dsimp only
    split_ifs <;> rfl

def Ledger.empty (servers : List Uuid) : Ledger := ⟨servers, [], by simp, by simp, by simp⟩

theorem reached {servers : List Uuid} (ops : List Op) :
    Numbered (ops.foldl next (.empty servers)) ∧
      (ops.foldl next (.empty servers)).servers = servers := by
  suffices h : ∀ l, Numbered l → l.servers = servers →
      Numbered (ops.foldl next l) ∧ (ops.foldl next l).servers = servers from
    h _ (by simp [Numbered, Ledger.empty]) rfl
  induction ops with
  | nil => exact fun l hl hs => ⟨hl, hs⟩
  | cons op ops ih =>
    exact fun l hl hs => ih (next l op) (numbered_next hl op) ((servers_next l op).trans hs)

/-- **Over any sequence of joins and leaves** the addresses are distinct and in range, a join hands
out the lowest one that is free, and it fails for a stored Node that is no member only when none
is. -/
theorem addresses_handed_out_in_order (servers : List Uuid) (ops : List Op) :
    let l := ops.foldl next (.empty servers)
    (∀ m ∈ l.members, ∃ a, Ipv4.parse m.wireguardIp = some a ∧ InRange a) ∧
    (∀ m ∈ l.members, ∀ m' ∈ l.members,
      Ipv4.parse m.wireguardIp = Ipv4.parse m'.wireguardIp → m = m') ∧
    (∀ server publicKey now m l', l.join server publicKey now = .ok (m, l') →
      ∃ a, Ipv4.parse m.wireguardIp = some a ∧ InRange a ∧ ¬ InUse l a ∧
        ∀ b, InRange b → ¬ InUse l b → a ≤ b) ∧
    (∀ server publicKey now e, l.join server publicKey now = .error e → server ∈ servers →
      (∀ m ∈ l.members, m.serverId ≠ server) → ∀ a, InRange a → InUse l a) := by
  intro l
  obtain ⟨hl, hservers⟩ : Numbered l ∧ l.servers = servers := reached ops
  have hparse : ∀ m ∈ l.members, ∃ candidate ∈ Ledger.candidates,
      m.wireguardIp = Ledger.candidateIp candidate ∧
        Ipv4.parse m.wireguardIp = some (numbered candidate) := by
    intro m hm
    obtain ⟨candidate, hmem, hip⟩ := hl m hm
    have hbounds := mem_candidates.mp hmem
    exact ⟨candidate, hmem, hip, by rw [hip, parse_candidateIp (by omega)]⟩
  refine ⟨fun m hm => ?_, fun m hm m' hm' heq => ?_, ?_, ?_⟩
  · obtain ⟨candidate, hmem, -, hp⟩ := hparse m hm
    exact ⟨_, hp, inRange_iff.mpr ⟨candidate, hmem, rfl⟩⟩
  · obtain ⟨c, hc, hip, hp⟩ := hparse m hm
    obtain ⟨c', hc', hip', hp'⟩ := hparse m' hm'
    rw [hp, hp'] at heq
    have hsame := congrArg BitVec.toNat (Option.some.inj heq)
    have hb := mem_candidates.mp hc
    have hb' := mem_candidates.mp hc'
    rw [toNat_numbered (by omega), toNat_numbered (by omega)] at hsame
    obtain rfl : c = c' := by omega
    exact inj_on_of_nodup_map l.ips hm hm' (hip.trans hip'.symm)
  · intro server publicKey now m l' hjoin
    obtain ⟨-, candidate, hmem, hip, hfree, hlowest⟩ := join_ok hjoin
    have hbounds := mem_candidates.mp hmem
    refine ⟨numbered candidate, by rw [hip, parse_candidateIp (by omega)],
      inRange_iff.mpr ⟨candidate, hmem, rfl⟩, fun huse => hfree ((mem_taken_iff hl hmem).mpr huse), ?_⟩
    intro b hb hbfree
    obtain ⟨other, hother, rfl⟩ := inRange_iff.mp hb
    have hbounds' := mem_candidates.mp hother
    rw [BitVec.le_def, toNat_numbered (by omega), toNat_numbered (by omega)]
    by_contra hlt
    exact hbfree ((mem_taken_iff hl hother).mp (hlowest other hother (by omega)))
  · intro server publicKey now e hjoin hserver hmember a ha
    obtain ⟨candidate, hmem, rfl⟩ := inRange_iff.mp ha
    refine (mem_taken_iff hl hmem).mp (join_error hjoin (hservers ▸ hserver) ?_ candidate hmem)
    rw [mem_map]
    rintro ⟨m, hm, heq⟩
    exact hmember m hm heq

/-- Two Nodes join and the first one leaves. -/
def firstLeaves : List Op :=
  [.join Uuid.nil "key1" 1, .join Uuid.max "key2" 2, .leave Uuid.nil]

/-- The address given back is the next one handed out. -/
theorem freed_address_handed_out :
    let l := firstLeaves.foldl next (.empty [Uuid.nil, Uuid.max])
    l.taken = ["10.77.0.2".toList] ∧
      ∃ m l', l.join Uuid.nil "key1".toList 3 = .ok (m, l') ∧
        m.wireguardIp = "10.77.0.1".toList ∧
        ∃ a, Ipv4.parse m.wireguardIp = some a ∧ InRange a ∧ ¬ InUse l a ∧
          ∀ b, InRange b → ¬ InUse l b → a ≤ b := by
  intro l
  have htaken : l.taken = ["10.77.0.2".toList] := by decide
  have hip : ((l.join Uuid.nil "key1".toList 3).toOption.map (·.1.wireguardIp)) =
      some "10.77.0.1".toList := by decide
  cases hjoin : l.join Uuid.nil "key1".toList 3 with
  | error e =>
    rw [hjoin] at hip
    cases hip
  | ok r =>
    rw [hjoin] at hip
    exact ⟨htaken, r.1, r.2, rfl, Option.some.inj hip,
      (addresses_handed_out_in_order [Uuid.nil, Uuid.max] firstLeaves).2.2.1 _ _ _ _ _ hjoin⟩

end VibeSsh.Network
