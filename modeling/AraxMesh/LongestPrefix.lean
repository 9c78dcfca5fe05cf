import AraxMesh.Lib.Checked
import AraxMesh.Lib.FirstMax
import AraxMesh.Symbolic

/-!
# Longest-prefix match

`find_best_peer_idx` is a search for the greatest matching prefix length (`findBestPeerIdx_eq`), and
a subnet matches an address when the two have the same top bits (`Ipv4Subnet.contains_iff`).
`longest_prefix_match` puts the two together.

`contains?` and `findBestPeerIdx?` are the same functions with their arithmetic checked for
overflow.
-/

namespace AraxMesh

open FirstMax WordBits

variable {S : Snow}

/-! ### Top bits -/

/-- The number that the top `n` bits of an address make. -/
def Ipv4Addr.top (ip : Ipv4Addr) (n : ℕ) : ℕ := ip.toNat >>> (32 - n)

namespace Ipv4Subnet

/-- The address has the top bits of the subnet's. -/
def Matches (s : Ipv4Subnet) (ip : Ipv4Addr) : Prop :=
  s.addr.top s.prefixLen.toNat = ip.top s.prefixLen.toNat

/-- `contains`, undefined where an operation overflows. -/
def contains? (s : Ipv4Subnet) (ip : Ipv4Addr) : Option Bool :=
  if s.prefixLen = 0 then some true
  else do
    let shift ← Checked.sub 32 s.prefixLen
    let mask ← Checked.shl (~~~0) shift.toUInt32
    return s.addr &&& mask == ip &&& mask

/-- A subnet that parses has at most 32 bits of prefix. -/
theorem prefixLen_le_of_fromStr {text : Str} {s : Ipv4Subnet} (h : fromStr text = some s) :
    s.prefixLen ≤ 32 := by
  unfold fromStr at h
  split at h
  · obtain ⟨ip, -, rfl⟩ := Option.map_eq_some_iff.mp h
    exact UInt8.le_refl 32
  · simp only [Option.bind_eq_bind, Option.bind_eq_some_iff] at h
    obtain ⟨ip, -, len, -, h⟩ := h
    by_cases h_len : 32 < len
    · rw [if_pos h_len] at h
      cases h
    · rw [if_neg h_len] at h
      obtain rfl := Option.some.inj h
      exact UInt8.not_lt.mp h_len
  · cases h

variable {s : Ipv4Subnet} {ip : Ipv4Addr}

/-- The shift of a mask is less than the width, unless the prefix is empty. -/
theorem hostBits_lt (h : s.prefixLen ≤ 32) (h_zero : s.prefixLen ≠ 0) :
    (32 - s.prefixLen).toUInt32.toNat < 32 := by
  have h_pos : s.prefixLen.toNat ≠ 0 := fun h => h_zero (UInt8.toNat_inj.mp h)
  rw [toNat_hostBits h]
  omega

theorem contains?_eq (h : s.prefixLen ≤ 32) : s.contains? ip = some (s.contains ip) := by
  unfold contains? contains
  by_cases h_zero : s.prefixLen = 0
  · rw [if_pos h_zero, if_pos h_zero]
  · rw [if_neg h_zero, if_neg h_zero, Checked.sub_of_le (UInt8.le_iff_toNat_le.mp h)]
    simp only [Option.bind_eq_bind, Option.bind_some]
    rw [Checked.shl_of_lt (hostBits_lt h h_zero)]
    rfl

/-- **A subnet contains the addresses with its top bits.** -/
theorem contains_iff (h : s.prefixLen ≤ 32) : s.contains ip = true ↔ s.Matches ip := by
  unfold contains Matches Ipv4Addr.top
  by_cases h_zero : s.prefixLen = 0
  · -- there are no top bits
    have h_none : ∀ x : Ipv4Addr, x.toNat >>> (32 - (0 : UInt8).toNat) = 0 := by
      intro x
      rw [Nat.shiftRight_eq_div_pow]
      exact Nat.div_eq_of_lt x.toNat_lt
    rw [if_pos h_zero, h_zero, h_none, h_none]
    exact iff_of_true rfl rfl
  · -- the masked addresses are the top bits, shifted back
    have h_shift := hostBits_lt h h_zero
    rw [if_neg h_zero, beq_iff_eq, ← UInt32.toNat_inj, toNat_and_ones_shift _ h_shift,
      toNat_and_ones_shift _ h_shift, toNat_hostBits h, Nat.shiftLeft_eq, Nat.shiftLeft_eq]
    exact Nat.mul_left_inj (Nat.two_pow_pos _).ne'

end Ipv4Subnet

/-! ### The search -/

/-- The prefix lengths of the peer's subnets that contain an address. -/
def Peer.matches (p : Peer S) (ip : Ipv4Addr) : List ℕ :=
  (p.allowedIps.filter (·.contains ip)).map (·.prefixLen.toNat)

theorem Peer.matches_eq_nil {p : Peer S} {ip : Ipv4Addr} :
    p.matches ip = [] ↔ p.allowedIps.any (·.contains ip) = false := by
  rw [Peer.matches, List.map_eq_nil_iff, List.filter_eq_nil_iff, List.any_eq_false]

namespace PeerManager

/-- **`find_best_peer_idx` is a search for the greatest matching prefix.** -/
theorem findBestPeerIdx_eq (pm : PeerManager S) (dst : Ipv4Addr) :
    pm.findBestPeerIdx dst = firstMax (fun p => p.matches dst) pm.peers := by
  -- the inner loop keeps the greatest of one peer's matching prefixes
  have h_peer : ∀ (idx : ℕ) (subnets : List Ipv4Subnet) (best : Option ℕ × ℤ),
      subnets.foldl (fun (best : Option ℕ × ℤ) subnet =>
        if subnet.contains dst ∧ best.2 < subnet.prefixLen.toNat then
          (some idx, subnet.prefixLen.toNat)
        else best) best =
      ((subnets.filter (·.contains dst)).map (·.prefixLen.toNat)).foldl (keep idx) best := by
    intro idx subnets
    induction subnets with
    | nil => exact fun best => rfl
    | cons subnet subnets ih =>
      intro best
      rw [List.foldl_cons, ih, List.filter_cons]
      by_cases h : subnet.contains dst = true
      · simp only [h, true_and, if_true, List.map_cons, List.foldl_cons, keep]
      · -- a subnet that does not contain the address changes nothing
        rw [if_neg fun h' => h h'.1, if_neg h]
  unfold findBestPeerIdx firstMax
  simp only [h_peer]
  rfl

/-- `find_best_peer_idx`, undefined where an operation overflows. -/
def findBestPeerIdx? (pm : PeerManager S) (dst : Ipv4Addr) : Option (Option ℕ) := do
  let best ← pm.peers.zipIdx.foldlM (fun best (peer, idx) =>
    peer.allowedIps.foldlM (fun (best : Option ℕ × ℤ) (subnet : Ipv4Subnet) => do
      let hit ← subnet.contains? dst
      if hit ∧ best.2 < (subnet.prefixLen.toNat : ℤ) then
        return (some idx, (subnet.prefixLen.toNat : ℤ))
      else return best) best) (none, -1)
  return best.1

/-- All prefixes of the table have at most 32 bits. -/
def ShortPrefixes (pm : PeerManager S) : Prop :=
  ∀ p ∈ pm.peers, ∀ s ∈ p.allowedIps, s.prefixLen ≤ 32

variable {pm : PeerManager S} {dst : Ipv4Addr}

theorem findBestPeerIdx?_eq (h : pm.ShortPrefixes) :
    pm.findBestPeerIdx? dst = some (pm.findBestPeerIdx dst) := by
  unfold findBestPeerIdx? findBestPeerIdx
  rw [Checked.foldlM_eq_some (g := fun best (peer, idx) =>
    peer.allowedIps.foldl (fun (best : Option ℕ × ℤ) subnet =>
      if subnet.contains dst ∧ best.2 < subnet.prefixLen.toNat then
        (some idx, subnet.prefixLen.toNat)
      else best) best)]
  · rfl
  rintro ⟨peer, idx⟩ h_peer best
  refine Checked.foldlM_eq_some ?_ best
  intro subnet h_subnet best
  -- the peer is one of the table
  have h_len := h peer (List.fst_mem_of_mem_zipIdx h_peer) subnet h_subnet
  rw [Ipv4Subnet.contains?_eq h_len]
  simp only [Option.bind_eq_bind, Option.bind_some]
  split_ifs <;> rfl

/-- The peer at index `i` has a matching subnet, and no matching subnet of the table is longer. -/
def HasLongest (pm : PeerManager S) (dst : Ipv4Addr) (i : ℕ) : Prop :=
  ∃ p s, pm.peers[i]? = some p ∧ s ∈ p.allowedIps ∧ s.Matches dst ∧
    ∀ q ∈ pm.peers, ∀ t ∈ q.allowedIps, t.Matches dst → t.prefixLen ≤ s.prefixLen

/-- The matching prefix lengths are those of the matching subnets. -/
theorem mem_matches (h : pm.ShortPrefixes) {p : Peer S} (hp : p ∈ pm.peers) {n : ℕ} :
    n ∈ p.matches dst ↔ ∃ s ∈ p.allowedIps, s.Matches dst ∧ s.prefixLen.toNat = n := by
  rw [Peer.matches, List.mem_map]
  simp only [List.mem_filter, and_assoc]
  refine exists_congr fun s => and_congr_right fun hs => ?_
  rw [Ipv4Subnet.contains_iff (h p hp s hs)]

end PeerManager

/-- **Longest-prefix match.** In a table whose prefixes have at most 32 bits, `find_best_peer_idx`
finds nobody exactly if no subnet of any peer matches the address. Otherwise it returns the least
index of a peer that owns a matching subnet of the greatest prefix length. No operation
overflows. -/
theorem longest_prefix_match {pm : PeerManager S} (h : pm.ShortPrefixes) (dst : Ipv4Addr) :
    (pm.findBestPeerIdx dst = none ↔ ∀ p ∈ pm.peers, ∀ s ∈ p.allowedIps, ¬ s.Matches dst) ∧
    (∀ i, pm.findBestPeerIdx dst = some i ↔ IsLeast {j | pm.HasLongest dst j} i) ∧
    pm.findBestPeerIdx? dst = some (pm.findBestPeerIdx dst) := by
  refine ⟨?_, ?_, PeerManager.findBestPeerIdx?_eq h⟩
  · rw [PeerManager.findBestPeerIdx_eq, firstMax_eq_none_iff]
    refine forall₂_congr fun p hp => ?_
    rw [List.eq_nil_iff_forall_not_mem]
    constructor
    · exact fun h_none s hs h_match =>
        h_none _ ((PeerManager.mem_matches h hp).mpr ⟨s, hs, h_match, rfl⟩)
    · intro h_none n hn
      obtain ⟨s, hs, h_match, -⟩ := (PeerManager.mem_matches h hp).mp hn
      exact h_none s hs h_match
  · intro i
    rw [PeerManager.findBestPeerIdx_eq, firstMax_eq_some_iff]
    constructor
    · rintro ⟨p, n, hi, hn, h_best⟩
      have hp := List.mem_of_getElem? hi
      obtain ⟨s, hs, h_match, rfl⟩ := (PeerManager.mem_matches h hp).mp hn
      -- what the scan says of the lengths, said of the subnets
      have h_best' : ∀ j q t, pm.peers[j]? = some q → t ∈ q.allowedIps → t.Matches dst →
          t.prefixLen.toNat ≤ s.prefixLen.toNat ∧
            (j < i → t.prefixLen.toNat < s.prefixLen.toNat) :=
        fun j q t hj ht h_t => h_best j q _ hj
          ((PeerManager.mem_matches h (List.mem_of_getElem? hj)).mpr ⟨t, ht, h_t, rfl⟩)
      refine ⟨⟨p, s, hi, hs, h_match, fun q hq t ht h_t => ?_⟩, ?_⟩
      · obtain ⟨j, hj⟩ := List.mem_iff_getElem?.mp hq
        exact UInt8.le_iff_toNat_le.mpr (h_best' j q t hj ht h_t).1
      · -- an earlier peer's longest match would be shorter than this one
        rintro j ⟨q, t, hj, ht, h_t, h_longest⟩
        by_contra h_lt
        have h_shorter := (h_best' j q t hj ht h_t).2 (Nat.lt_of_not_le h_lt)
        have h_le := UInt8.le_iff_toNat_le.mp (h_longest p hp s hs h_match)
        omega
    · rintro ⟨⟨p, s, hi, hs, h_match, h_longest⟩, h_least⟩
      have hp := List.mem_of_getElem? hi
      refine ⟨p, _, hi, (PeerManager.mem_matches h hp).mpr ⟨s, hs, h_match, rfl⟩, ?_⟩
      intro j q m hj hm
      have hq := List.mem_of_getElem? hj
      obtain ⟨t, ht, h_t, rfl⟩ := (PeerManager.mem_matches h hq).mp hm
      have h_le := UInt8.le_iff_toNat_le.mp (h_longest q hq t ht h_t)
      refine ⟨h_le, fun h_lt => ?_⟩
      -- an earlier match as long would be a longest one
      by_contra h_not
      have h_eq : t.prefixLen = s.prefixLen := UInt8.toNat_inj.mp (by omega)
      have h_j : pm.HasLongest dst j := ⟨q, t, hj, ht, h_t, h_eq ▸ h_longest⟩
      exact absurd (h_least h_j) (Nat.not_le_of_lt h_lt)

namespace Symbolic

/-- A host route, a subnet around it, and an exit node. -/
def threeRoutes : PeerManager symbolic :=
  PeerManager.new (key 0)
    [Peer.new (key 0xaa) none [⟨Ipv4Addr.ofOctets 10 0 99 5, 32⟩] 0,
      Peer.new (key 0xbb) none [⟨Ipv4Addr.ofOctets 10 0 99 0, 24⟩] 0,
      Peer.new (key 0xcc) none [⟨Ipv4Addr.ofOctets 0 0 0 0, 0⟩] 0] MagicConfig.default

/-- The prefixes are ones that parse. -/
theorem threeRoutes_short : threeRoutes.ShortPrefixes := by
  intro p hp s hs
  rcases List.mem_cons.mp hp with rfl | hp
  · obtain rfl := List.mem_singleton.mp hs
    exact Ipv4Subnet.prefixLen_le_of_fromStr
      (show Ipv4Subnet.fromStr "10.0.99.5/32".toList = some _ by decide +kernel)
  rcases List.mem_cons.mp hp with rfl | hp
  · obtain rfl := List.mem_singleton.mp hs
    exact Ipv4Subnet.prefixLen_le_of_fromStr
      (show Ipv4Subnet.fromStr "10.0.99.0/24".toList = some _ by decide +kernel)
  · obtain rfl := List.mem_singleton.mp hp
    obtain rfl := List.mem_singleton.mp hs
    exact Ipv4Subnet.prefixLen_le_of_fromStr
      (show Ipv4Subnet.fromStr "0.0.0.0/0".toList = some _ by decide +kernel)

end Symbolic

open Symbolic in
/-- An address of the subnet goes to its owner, past the exit node. -/
theorem longest_prefix_match_subnet :
    threeRoutes.findBestPeerIdx (Ipv4Addr.ofOctets 10 0 99 10) = some 1 ∧
      IsLeast {j | threeRoutes.HasLongest (Ipv4Addr.ofOctets 10 0 99 10) j} 1 := by
  have h := longest_prefix_match threeRoutes_short (Ipv4Addr.ofOctets 10 0 99 10)
  have h_one : threeRoutes.findBestPeerIdx (Ipv4Addr.ofOctets 10 0 99 10) = some 1 := by
    decide +kernel
  exact ⟨h_one, (h.2.1 1).mp h_one⟩

end AraxMesh
