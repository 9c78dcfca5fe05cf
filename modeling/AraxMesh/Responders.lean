import AraxMesh.Unauthentic
import AraxMesh.Sync

/-!
# Three responders

The responder's half of a handshake is in the source three times: in `handle_handshake_packet` of
the peer, in the UDP dispatcher and in the relay dispatcher. The peer takes its packet types from
itself and the dispatchers take theirs from the table; the peer compares the static key of the
initiation with its own, and the dispatchers look the peer up by it; and the UDP dispatcher notes
the sender's address before it has written the response.

`responders_agree` says that with the same randomness, at the same time, they do the same.
-/

namespace AraxMesh

open LTS FirstMatch

variable {S : Snow}

/-- A responder that has read an initiation can write its response. -/
def Snow.Answers (S : Snow) : Prop :=
  ∀ localPriv payload hs remote eph,
    Snow.readInitiation localPriv payload = some ((hs, remote) : S.HandshakeState × Bytes) →
      (Snow.writeResponse hs eph).isSome

namespace Peer

variable {p : Peer S} {localPriv payload : Bytes} {d : Draw S} {now : Instant}
  {hs : S.HandshakeState}

/-- The response, and the session it is the end of. -/
theorem respond_of_write {msg : Bytes} {t : S.Transport}
    (h_write : S.writeResponse hs d.eph = some (msg, t)) (p : Peer S) (magic : MagicConfig)
    (now : Instant) : p.respond hs magic d now =
      { result := some (magic.handshakeResp :: (msg ++ d.handshakePad.val))
        events := [.installed t]
        state := p.install t now } := by
  rw [respond, h_write]

/-- Bytes that are no initiation. -/
theorem handleInit_of_unread (h_read : S.readInitiation localPriv payload = none) :
    p.handleHandshakePacket localPriv p.magic.handshakeInit payload d now =
      { result := none, state := p } := by
  rw [handleHandshakePacket, if_pos rfl, h_read]

/-- The initiation of some node. -/
theorem handleInit_of_read {remote : Bytes}
    (h_read : S.readInitiation localPriv payload = some (hs, remote)) :
    p.handleHandshakePacket localPriv p.magic.handshakeInit payload d now =
      if remote ≠ p.pubkey then { result := none, state := p } else p.respond hs p.magic d now := by
  rw [handleHandshakePacket, if_pos rfl, h_read]

end Peer

namespace PeerManager

variable {pm : PeerManager S} {payload : Bytes} {addr : SocketAddr} {d : Draw S} {now : Instant}

/-- A turn on nobody. -/
theorem updatePeer_of_none {c : Peer S → Bool} (f : Peer S → Turn S (Peer S))
    (h : ∀ p ∈ pm.peers, c p = false) : pm.updatePeer c f = ([], pm) := by
  have h_update := updateFirst_append f h []
  rw [List.append_nil] at h_update
  unfold updatePeer
  rw [h_update]
  simp [updateFirst]

/-- A turn on the first peer that satisfies `c`. -/
theorem updatePeer_of_first {c : Peer S → Bool} (f : Peer S → Turn S (Peer S))
    {l₁ l₂ : List (Peer S)} {p : Peer S} (hl : pm.peers = l₁ ++ p :: l₂)
    (h : ∀ q ∈ l₁, c q = false) (hp : c p = true) :
    pm.updatePeer c f = ((f p).1, { pm with peers := l₁ ++ (f p).2 :: l₂ }) := by
  unfold updatePeer
  rw [hl, updateFirst_of_first f h hp]
  rfl

/-- All three responders reject the initiation, and nothing changes. -/
structure AllReject (pm : PeerManager S) (hasRelay : Bool) (payload fromKey : Bytes)
    (addr : SocketAddr) (d : Draw S) (now : Instant) : Prop where
  peer : ∀ p ∈ pm.peers,
    p.handleHandshakePacket pm.localPriv pm.magic.handshakeInit payload d now =
      { result := none, state := p }
  relayed : pm.step hasRelay now (.relayed fromKey (pm.magic.handshakeInit :: payload) d) = ([], pm)
  udp : pm.step hasRelay now (.udp (pm.magic.handshakeInit :: payload) addr d) = ([], pm)

/-- All three responders accept the initiation: `p`, the first peer with the initiator's key, gets
the session `t`, and the response is `packet`. The UDP dispatcher also notes where the initiation
came from. -/
structure AllAccept (pm : PeerManager S) (hasRelay : Bool) (payload fromKey : Bytes)
    (addr : SocketAddr) (d : Draw S) (now : Instant) (l₁ : List (Peer S)) (p : Peer S)
    (l₂ : List (Peer S)) (packet : Bytes) (t : S.Transport) : Prop where
  peers : pm.peers = l₁ ++ p :: l₂
  key : p.pubkey = fromKey
  first : ∀ q ∈ l₁, q.pubkey ≠ fromKey
  peer : p.handleHandshakePacket pm.localPriv pm.magic.handshakeInit payload d now =
    { result := some packet, events := [.installed t], state := p.install t now }
  relayed : pm.step hasRelay now (.relayed fromKey (pm.magic.handshakeInit :: payload) d) =
    ([.installed t, .sentHandshake packet (.relay fromKey)],
      { pm with peers := l₁ ++ p.install t now :: l₂ })
  udp : pm.step hasRelay now (.udp (pm.magic.handshakeInit :: payload) addr d) =
    ([.installed t, .sentHandshake packet (.udp addr)],
      { pm with peers :=
          l₁ ++ { p.install t now with endpoint := some addr, lastDirectRx := now } :: l₂ })

variable {hasRelay : Bool} {fromKey : Bytes}

/-- Bytes that no responder reads. -/
theorem allReject_of_unread (h_magic : ∀ p ∈ pm.peers, p.magic = pm.magic)
    (h_read : S.readInitiation pm.localPriv payload = none) :
    pm.AllReject hasRelay payload fromKey addr d now where
  peer p hp := by
    rw [← h_magic p hp]
    exact Peer.handleInit_of_unread h_read
  relayed := by
    simp only [step, relayedPacket, if_true, relayedInit]
    rw [h_read]
  udp := by
    rw [step_udp_init, udpInit, h_read]

variable {hs : S.HandshakeState}

/-- The initiation of a node that is no peer. -/
theorem allReject_of_stranger (h_magic : ∀ p ∈ pm.peers, p.magic = pm.magic)
    (h_read : S.readInitiation pm.localPriv payload = some (hs, fromKey))
    (h_stranger : ∀ p ∈ pm.peers, p.pubkey ≠ fromKey) :
    pm.AllReject hasRelay payload fromKey addr d now where
  peer p hp := by
    rw [← h_magic p hp, Peer.handleInit_of_read h_read, if_pos (h_stranger p hp).symm]
  relayed := by
    simp only [step, relayedPacket, if_true, relayedInit]
    rw [h_read]
    dsimp only
    rw [if_neg (not_not.mpr rfl)]
    exact updatePeer_of_none _ fun p hp => decide_eq_false (h_stranger p hp)
  udp := by
    rw [step_udp_init, udpInit, h_read]
    exact updatePeer_of_none _ fun p hp => decide_eq_false (h_stranger p hp)

/-- The initiation of a peer, whose response can be written. -/
theorem allAccept_of_read (h_magic : ∀ p ∈ pm.peers, p.magic = pm.magic)
    (h_read : S.readInitiation pm.localPriv payload = some (hs, fromKey)) {msg : Bytes}
    {t : S.Transport} (h_write : S.writeResponse hs d.eph = some (msg, t))
    {l₁ l₂ : List (Peer S)} {p : Peer S} (hl : pm.peers = l₁ ++ p :: l₂)
    (h_key : p.pubkey = fromKey) (h_first : ∀ q ∈ l₁, q.pubkey ≠ fromKey) :
    pm.AllAccept hasRelay payload fromKey addr d now l₁ p l₂
      (pm.magic.handshakeResp :: (msg ++ d.handshakePad.val)) t where
  peers := hl
  key := h_key
  first := h_first
  peer := by
    have hp : p.magic = pm.magic := h_magic p (by simp [hl])
    rw [← hp, Peer.handleInit_of_read h_read, if_neg (not_not.mpr h_key.symm)]
    exact Peer.respond_of_write h_write p p.magic now
  relayed := by
    simp only [step, relayedPacket, if_true, relayedInit]
    rw [h_read]
    dsimp only
    rw [if_neg (not_not.mpr rfl), updatePeer_of_first _ hl
      (fun q hq => decide_eq_false (h_first q hq)) (decide_eq_true h_key)]
    -- the type byte is the table's
    rw [Peer.respond_of_write h_write p pm.magic now]
    rfl
  udp := by
    rw [step_udp_init, udpInit, h_read]
    dsimp only
    rw [updatePeer_of_first _ hl (fun q hq => decide_eq_false (h_first q hq))
      (decide_eq_true h_key)]
    -- the address is noted first, and the session switch leaves it alone
    unfold Peer.respondTo
    rw [Peer.respond_of_write h_write _ pm.magic now]
    rfl

end PeerManager

/-- **The three responders agree.** In every state the daemon reaches, the peers have the packet
types of the table, and whatever the payload of an initiation packet: with the same randomness and
at the same time the UDP dispatcher, the relay dispatcher when the relay names the initiator, and
the peer with the initiator's key all reject it and change nothing, or all accept it. -/
theorem responders_agree (h_answers : S.Answers) {hasRelay : Bool} {pm : PeerManager S}
    (h_reach : Reachable (daemon S hasRelay) pm) {payload fromKey : Bytes}
    (h_key : ∀ hs remote, S.readInitiation pm.localPriv payload = some (hs, remote) →
      fromKey = remote) (addr : SocketAddr) (d : Draw S) (now : Instant) :
    (∀ p ∈ pm.peers, p.magic = pm.magic) ∧
    (pm.AllReject hasRelay payload fromKey addr d now ∨
      ∃ l₁ p l₂ packet t, pm.AllAccept hasRelay payload fromKey addr d now l₁ p l₂ packet t) := by
  have h_magic := peers_magic h_reach
  refine ⟨h_magic, ?_⟩
  cases h_read : S.readInitiation pm.localPriv payload with
  | none => exact Or.inl (PeerManager.allReject_of_unread h_magic h_read)
  | some read =>
    obtain ⟨hs, remote⟩ := read
    obtain rfl := h_key hs remote h_read
    cases h_lookup : pm.lookup fromKey with
    | none =>
      -- no peer has the key that the initiation carries
      have h_stranger : ∀ p ∈ pm.peers, p.pubkey ≠ fromKey := by
        intro p hp h
        exact PeerManager.lookup_eq_none.mp h_lookup (PeerManager.mem_keys.mpr ⟨p, hp, h⟩)
      exact Or.inl (PeerManager.allReject_of_stranger h_magic h_read h_stranger)
    | some p =>
      -- the first peer with the key answers
      obtain ⟨h_p, l₁, l₂, hl, h_first⟩ := List.find?_eq_some_iff_append.mp h_lookup
      obtain ⟨⟨msg, t⟩, h_write⟩ := Option.isSome_iff_exists.mp
        (h_answers pm.localPriv payload hs fromKey d.eph h_read)
      exact Or.inr ⟨l₁, p, l₂, _, t, PeerManager.allAccept_of_read h_magic h_read h_write hl
        (by simpa using h_p) (by simpa using h_first)⟩

/-! ### A node that is asked -/

namespace Symbolic

theorem answers : symbolic.Answers := by
  intro localPriv payload hs remote f h_read
  obtain ⟨hs₀, h_build, h_message, -⟩ := Snow.readInitiation_eq_some h_read
  obtain ⟨b, -, rfl⟩ := Option.map_eq_some_iff.mp h_build
  rcases readHandshake_cases (.responder b) (payload.take 96) with
    h_eq | ⟨_, _, _, _, h_not, -, -⟩ | ⟨a, _, e, -, -, h_eq⟩
  · cases h_message.symm.trans h_eq
  · cases h_not
  · -- it was asked, and a responder that was asked can write
    obtain rfl := (Prod.mk.inj (h_message.symm.trans h_eq)).2
    rfl

theorem readInitiation_node : symbolic.readInitiation node.localPriv (initiation 9 7 1) =
    some ((Handshake.asked 9 7 1, key 9) : symbolic.HandshakeState × Bytes) := by
  decide +kernel

end Symbolic

open Symbolic in
/-- The three responders of `node` accept what its peer asks. -/
theorem responders_agree_node : ∃ l₁ p l₂ packet t,
    node.AllAccept false (initiation 9 7 1) (key 9) peerAddr (draw 2) 1 l₁ p l₂ packet t := by
  have h_reach : Reachable (daemon symbolic false) node := ⟨node, [], node_initial, Exec.refl⟩
  have h_key : ∀ hs remote, symbolic.readInitiation node.localPriv (initiation 9 7 1) =
      some (hs, remote) → key 9 = remote := fun hs remote h_read =>
    congrArg Prod.snd (Option.some.inj (readInitiation_node.symm.trans h_read))
  rcases (responders_agree answers h_reach h_key peerAddr (draw 2) 1).2 with h_reject | h_accept
  · -- a rejection would record nothing
    have h_events : (node.step false 1 (.relayed (key 9)
        (node.magic.handshakeInit :: initiation 9 7 1) (draw 2))).1.length = 0 := by
      rw [h_reject.relayed]
      rfl
    exact absurd h_events (by decide +kernel)
  · exact h_accept

end AraxMesh
