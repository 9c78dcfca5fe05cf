import AraxMesh.Lib.KeyExchange
import AraxMesh.Turns
import Mathlib.Data.Multiset.ZeroCons

/-!
# Two nodes and the handshakes between them

Two nodes with one peer each, the other node, and the handshake packets on their way between them.
A node makes the turns of its timer and of its TUN reader, and takes in the packets that are on
their way to it, by UDP or through the relay. Packets are delayed without bound, and may get lost.

`HandshakeStep` says what the timer and the TUN reader do about handshakes: both begin one only
while none is pending, and send only initiations they have begun.
-/

namespace AraxMesh

open LTS

variable {S : Snow}

/-! ### The exchange, by the library -/

/-- The pending handshake `hs` sent the initiation `m`. -/
def Snow.Wrote (S : Snow) (hs : S.HandshakeState) (m : Bytes) : Prop :=
  ∃ localPriv remotePub hs₀ eph, S.buildInitiator localPriv remotePub = some hs₀ ∧
    S.writeHandshake hs₀ eph = some (m, hs)

/-- Some node answered the initiation of `hs` with the response `m`, and has the session `t`. -/
def Snow.Replied (S : Snow) (hs : S.HandshakeState) (m : Bytes) (t : S.Transport) : Prop :=
  ∃ m₀ localPriv hs' remote eph, S.Wrote hs m₀ ∧
    Snow.readInitiation localPriv m₀ = some (hs', remote) ∧ Snow.writeResponse hs' eph = some (m, t)

/-- Ideal IK handshakes: initiations have 96 bytes and responses 48; a pending handshake reads the
responses to its initiation and no other handshake does, and reading one makes the other end of the
responder's session. What one end seals, the other opens. -/
structure Snow.IdealIK (S : Snow) (ends : S.Transport → S.Transport → Prop) : Prop where
  restores : S.Restores
  binds : S.ResponseBinds
  length_initiation : ∀ hs m, S.Wrote hs m → m.length = 96
  length_response : ∀ hs m t, S.Replied hs m t → m.length = 48
  completes : ∀ hs m t, S.Replied hs m t → ∃ hs' t', S.readHandshake hs m = (true, hs') ∧
    S.intoTransport hs' = some t' ∧ ends t' t
  tag : ∀ t n pt c, S.writeMessage t n pt = some c → 16 ≤ c.length
  opens : ∀ t t', ends t t' ∨ ends t' t → ∀ n pt c, S.writeMessage t n pt = some c →
    S.readMessage t' n c = some pt

/-! ### The link -/

/-- The handshake packets a history handed to a socket. -/
def handshakesIn (es : List (Event S)) : List Bytes :=
  es.filterMap fun
    | .sentHandshake packet _ => some packet
    | _ => none

@[simp] theorem handshakesIn_append (es es' : List (Event S)) :
    handshakesIn (es ++ es') = handshakesIn es ++ handshakesIn es' := List.filterMap_append

/-- Two nodes, `false` and `true`, and the handshake packets on their way, each with the node it is
for. -/
structure Link (S : Snow) where
  node : Bool → PeerManager S
  flight : Multiset (Bool × Bytes)

/-- The packets a node sends to the other one. -/
def outgoing (x : Bool) (es : List (Event S)) : Multiset (Bool × Bytes) :=
  ↑((handshakesIn es).map fun packet => (!x, packet))

@[simp] theorem outgoing_append (x : Bool) (es es' : List (Event S)) :
    outgoing x (es ++ es') = outgoing x es + outgoing x es' := by
  simp [outgoing]

/-- The link after a turn of the node `x`, with `rest` still on its way. -/
def Link.turn (s : Link S) (hasRelay : Bool → Bool) (x : Bool) (now : Instant)
    (task : DaemonTask S) (rest : Multiset (Bool × Bytes)) : Link S where
  node := Function.update s.node x ((s.node x).step (hasRelay x) now task).2
  flight := rest + outgoing x ((s.node x).step (hasRelay x) now task).1

/-- The task is the timer's or the TUN reader's. -/
def DaemonTask.Own : DaemonTask S → Prop
  | .timer _ => True
  | .tun _ _ => True
  | _ => False

/-- What happens on a link, with the events of the turn. -/
inductive LinkLabel (S : Snow)
  | own (x : Bool) (es : List (Event S))
  | deliver (x : Bool) (packet : Bytes) (es : List (Event S))
  | lose (x : Bool) (packet : Bytes)

/-- The events of a label. -/
def LinkLabel.events : LinkLabel S → List (Event S)
  | .own _ es => es
  | .deliver _ _ es => es
  | .lose _ _ => []

inductive LinkStep (hasRelay : Bool → Bool) (s : Link S) : LinkLabel S → Link S → Prop
  | own (x : Bool) (now : Instant) (task : DaemonTask S) (ht : task.Own) :
      LinkStep hasRelay s (.own x ((s.node x).step (hasRelay x) now task).1)
        (s.turn hasRelay x now task s.flight)
  | deliver (x : Bool) (packet : Bytes) (now : Instant) (task : DaemonTask S)
      (ht : task.Delivers packet) (h : (x, packet) ∈ s.flight) :
      LinkStep hasRelay s (.deliver x packet ((s.node x).step (hasRelay x) now task).1)
        (s.turn hasRelay x now task (s.flight.erase (x, packet)))
  | lose (x : Bool) (packet : Bytes) (h : (x, packet) ∈ s.flight) :
      LinkStep hasRelay s (.lose x packet) { s with flight := s.flight.erase (x, packet) }

/-- Two nodes that know each other, with nothing on its way. -/
def Link.Initial (s : Link S) : Prop :=
  s.flight = 0 ∧ ∃ magic : MagicConfig, magic.handshakeResp ≠ magic.handshakeInit ∧
    ∀ x, ∃ localPriv pubkey endpoint allowedIps now, s.node x =
      PeerManager.new localPriv [Peer.new pubkey endpoint allowedIps now] magic

/-- All runs of a link. -/
def link (S : Snow) (hasRelay : Bool → Bool) : System (Link S) (LinkLabel S) where
  init := Link.Initial
  step := LinkStep hasRelay

/-- An initiation may be taken in: no response that a pending handshake would read is on its way,
and some handshake is pending. -/
def Link.Open (s : Link S) : Prop :=
  (∀ x payload, (x, (s.node x).magic.handshakeResp :: payload) ∈ s.flight →
    ∀ p ∈ (s.node x).peers, ∀ hs, p.handshake = some hs →
      (S.readHandshake hs (payload.take 48)).1 = false) ∧
  ∃ x, ∃ p ∈ (s.node x).peers, p.handshake.isSome

/-- The runs of a link in which handshakes do not overlap. -/
def orderlyLink (S : Snow) (hasRelay : Bool → Bool) : System (Link S) (LinkLabel S) :=
  (link S hasRelay).restrict fun s l => ∀ x packet es, l = .deliver x packet es →
    packet.head? = some (s.node x).magic.handshakeInit → s.Open

/-- Nothing is pending and nothing on its way. -/
def Link.Quiet (s : Link S) : Prop :=
  s.flight = 0 ∧ ∀ x, ∀ p ∈ (s.node x).peers, p.handshake = none

/-! ### What a node does of its own -/

namespace Peer

/-- The transport state of the active session. -/
def activeState (p : Peer S) : Option S.Transport := p.active.map (·.state)

/-- The two peers are the same as far as handshakes go. -/
structure SameHandshake (p p' : Peer S) : Prop where
  magic : p'.magic = p.magic
  activeState : p'.activeState = p.activeState
  handshake : p'.handshake = p.handshake
  lastHandshakePacket : p'.lastHandshakePacket = p.lastHandshakePacket

theorem SameHandshake.refl (p : Peer S) : p.SameHandshake p := ⟨rfl, rfl, rfl, rfl⟩

theorem noted_sameHandshake (p : Peer S) (source : Option SocketAddr) (now : Instant) :
    p.SameHandshake (p.noted source now) := by
  cases source <;> exact ⟨rfl, rfl, rfl, rfl⟩

end Peer

/-- An event in which no handshake is begun and no handshake packet sent. -/
def Event.NoHandshake : Event S → Prop
  | .initiated _ | .sentHandshake _ _ => False
  | _ => True

/-- What the timer and the TUN reader do about handshakes. -/
inductive HandshakeStep : Peer S → List (Event S) → Peer S → Prop
  | quiet {p p' : Peer S} {es : List (Event S)} (h : p.SameHandshake p')
      (hes : ∀ e ∈ es, e.NoHandshake) : HandshakeStep p es p'
  | initiate {p p' : Peer S} (hs : S.HandshakeState) (m pad : Bytes) (h : p.handshake = none)
      (hw : S.Wrote hs m) (h_magic : p'.magic = p.magic)
      (h_active : p'.activeState = p.activeState) (h_handshake : p'.handshake = some hs)
      (h_last : p'.lastHandshakePacket = some (p.magic.handshakeInit :: (m ++ pad))) :
      HandshakeStep p [.initiated hs] p'
  | send (p : Peer S) (packet : Bytes) (dest : OutboundDest)
      (h : p.lastHandshakePacket = some packet) : HandshakeStep p [.sentHandshake packet dest] p
  | clear (p : Peer S) : HandshakeStep p [] { p with active := none, previous := none }

/-- The handshake steps of one peer. -/
def handshakeSystem (S : Snow) : System (Peer S) (List (Event S)) where
  init _ := True
  step := HandshakeStep

namespace Peer

theorem SameHandshake.emits {p p' : Peer S} (h : p.SameHandshake p') :
    Emits (handshakeSystem S) p [] p' :=
  .single (.quiet h (by simp))

/-- The packet last prepared, if it has a way to go. -/
theorem sendHandshake_steps (p : Peer S) (dest : Option OutboundDest) :
    Emits (handshakeSystem S) p (sendHandshake p.lastHandshakePacket dest) p := by
  cases h : p.lastHandshakePacket with
  | none => exact .refl p
  | some packet =>
    cases dest with
    | none => exact .refl p
    | some dest => exact .single (.send p packet dest h)

theorem initiateAndSend_steps (p : Peer S) (localPriv : Bytes) (hasRelay : Bool) (d : Draw S)
    (now : Instant) (h : p.handshake = none) :
    Emits (handshakeSystem S) p (p.initiateAndSend localPriv hasRelay d now).1
      (p.initiateAndSend localPriv hasRelay d now).2 := by
  unfold initiateAndSend
  have h_init := p.initiated localPriv d now
  generalize p.initiateHandshake localPriv d now = out at h_init ⊢
  cases h_init with
  | failed => exact .refl p
  | begun hs₀ hs msg hb hw =>
    have h_begin : Emits (handshakeSystem S) p [.initiated hs] { p with
        handshake := some hs
        lastHandshakeAttempt := some now
        lastHandshakePacket := some (p.magic.handshakeInit :: (msg ++ d.handshakePad.val))
        lastTx := now } :=
      .single (.initiate hs msg d.handshakePad.val h ⟨_, _, hs₀, _, hb, hw⟩ rfl rfl rfl rfl)
    exact h_begin.trans (sendHandshake_steps _ _)

theorem encryptAndSend_steps (p : Peer S) (payload : Bytes) (hasRelay : Bool) (d : Draw S)
    (now : Instant) :
    Emits (handshakeSystem S) p (p.encryptAndSend payload hasRelay d now).2.1
      (p.encryptAndSend payload hasRelay d now).2.2 := by
  unfold encryptAndSend
  have h_enc := p.encrypted payload d now
  generalize p.encryptPacket payload d now = out at h_enc ⊢
  cases h_enc with
  | inactive => exact .refl p
  | failed s h hw =>
    refine .single (.quiet ⟨rfl, ?_, rfl, rfl⟩ (by simp [Event.NoHandshake]))
    simp [activeState, setSlot, h]
  | sent s ciphertext h hw =>
    refine .single (.quiet ⟨rfl, ?_, rfl, rfl⟩ ?_)
    · simp [activeState, setSlot, h]
    · dsimp only
      split <;> simp [Event.NoHandshake]

/-- The handshake steps make the parts of a node's own turns. -/
theorem makes_handshakes : Makes (handshakeSystem S) where
  forget p := SameHandshake.emits ⟨rfl, rfl, rfl, rfl⟩
  clear p := .single (.clear p)
  initiate := initiateAndSend_steps
  encrypt := encryptAndSend_steps
  resend p dest now := by
    have h_touch : Emits (handshakeSystem S) p [] { p with lastHandshakeAttempt := some now } :=
      SameHandshake.emits ⟨rfl, rfl, rfl, rfl⟩
    exact h_touch.trans (sendHandshake_steps _ dest)

end Peer

/-- **A node's own turn**, with one peer: it takes handshake steps of that peer. -/
theorem PeerManager.own_steps {pm : PeerManager S} {p : Peer S} (h_peers : pm.peers = [p])
    (hasRelay : Bool) (now : Instant) {task : DaemonTask S} (ht : task.Own) :
    ∃ p', (pm.step hasRelay now task).2 = { pm with peers := [p'] } ∧
      Emits (handshakeSystem S) p (pm.step hasRelay now task).1 p' := by
  cases task with
  | timer draws =>
    refine ⟨(p.timer pm.localPriv hasRelay (draws 0).1 (draws 0).2 now).2, ?_, ?_⟩
    · simp [step, timerTick, timerPeers, h_peers]
    · have h := Peer.makes_handshakes.timer p pm.localPriv hasRelay (draws 0).1 (draws 0).2 now
      simpa [step, timerTick, timerPeers, h_peers] using h
  | tun packet d =>
    -- a packet for nobody leaves the only peer alone
    have h_none : ∃ p', pm = { pm with peers := [p'] } ∧ Emits (handshakeSystem S) p [] p' :=
      ⟨p, by rw [← h_peers], .refl p⟩
    simp only [step, tunPacket]
    split
    · exact h_none
    split
    · exact h_none
    · next idx _ =>
      cases hidx : pm.peers[idx]? with
      | none => exact h_none
      | some q =>
        rw [h_peers] at hidx ⊢
        obtain ⟨hlt, rfl⟩ := List.getElem?_eq_some_iff.mp hidx
        obtain rfl : idx = 0 := by simpa using hlt
        exact ⟨_, rfl, Peer.makes_handshakes.sendPacket p pm.localPriv packet hasRelay d now⟩
  | udp | relayed | poll => exact ht.elim

end AraxMesh
