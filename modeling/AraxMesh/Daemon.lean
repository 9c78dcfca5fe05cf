import AraxMesh.PeerManager

/-!
# The daemon

The tasks of `daemon.rs` that act on the peer table: the timer, the TUN reader, the UDP dispatcher,
the relay dispatcher and the coordinator poll. Each turn of a task holds the lock of the table from
its first access to its last one, so a turn is one step; what it hands to a socket or to the TUN
device after it gave up the lock is recorded as an event of the step.

`PeerManager.step` is the turn of any task, `daemon` the system of all their interleavings. The
clock is part of the label and not assumed to be monotone, and so is what the random source gives.
-/

namespace AraxMesh

open LTS FirstMatch

variable {S : Snow}

/-- Events of a turn, and what it leaves. -/
abbrev Turn (S : Snow) (σ : Type) := List (Event S) × σ

namespace Peer

/-- Encrypt a packet and hand it to where the peer is reached. -/
def encryptAndSend (p : Peer S) (payload : Bytes) (hasRelay : Bool) (d : Draw S) (now : Instant) :
    Option (Sealed S) × Turn S (Peer S) :=
  let out := p.encryptPacket payload d now
  -- without a destination the packet is lost, and its nonce used
  let sent := match out.result, out.state.determineDest hasRelay now with
    | some c, some dest => [.sentData c dest]
    | _, _ => []
  (out.result, out.events ++ sent, out.state)

/-- A handshake packet on its way, if there is one and there is a way. -/
def sendHandshake (packet : Option Bytes) (dest : Option OutboundDest) : List (Event S) :=
  match packet, dest with
  | some packet, some dest => [.sentHandshake packet dest]
  | _, _ => []

/-- Begin a handshake and hand the initiation to where the peer is reached. -/
def initiateAndSend (p : Peer S) (localPriv : Bytes) (hasRelay : Bool) (d : Draw S)
    (now : Instant) : Turn S (Peer S) :=
  let out := p.initiateHandshake localPriv d now
  (out.events ++ sendHandshake out.result (out.state.determineDest hasRelay now), out.state)

/-! ### The timer -/

/-- 1. Check rotation. -/
def timerRotate (p : Peer S) (localPriv : Bytes) (hasRelay : Bool) (d : Draw S) (now : Instant) :
    Turn S (Peer S) :=
  let (due, p) := p.checkRotation now
  if due ∧ p.handshake.isNone then p.initiateAndSend localPriv hasRelay d now else ([], p)

/-- 2. Dead session detection. -/
def timerClear (p : Peer S) (now : Instant) : Peer S :=
  if p.active.isSome ∧ 15 ≤ elapsedSecs now p.lastRx then
    { p with active := none, previous := none }
  else p

/-- 3. Keepalive. -/
def timerKeepalive (p : Peer S) (hasRelay : Bool) (d : Draw S) (now : Instant) : Turn S (Peer S) :=
  if p.active.isSome ∧ 10 ≤ elapsedSecs now p.lastTx then (p.encryptAndSend [] hasRelay d now).2
  else ([], p)

/-- 4. Retransmit, or initiate a handshake if there is no active session. -/
def timerHandshake (p : Peer S) (localPriv : Bytes) (hasRelay : Bool) (d : Draw S)
    (now : Instant) : Turn S (Peer S) :=
  if p.active.isNone ∧ p.handshake.isNone ∧ (p.endpoint.isSome ∨ hasRelay) then
    p.initiateAndSend localPriv hasRelay d now
  else
    match p.lastHandshakeAttempt with
    | some attempt =>
      -- the same packet again
      if 2 ≤ elapsedSecs now attempt then
        let p := { p with lastHandshakeAttempt := some now }
        (sendHandshake p.lastHandshakePacket (p.determineDest hasRelay now), p)
      else ([], p)
    | none => ([], p)

/-- One peer's share of a tick; `d` and `d'` are what its two handshakes may draw. -/
def timer (p : Peer S) (localPriv : Bytes) (hasRelay : Bool) (d d' : Draw S) (now : Instant) :
    Turn S (Peer S) :=
  -- the four parts one after the other, under one lock
  let (es₁, p) := p.timerRotate localPriv hasRelay d now
  let p := p.timerClear now
  let (es₂, p) := p.timerKeepalive hasRelay d now
  let (es₃, p) := p.timerHandshake localPriv hasRelay d' now
  (es₁ ++ es₂ ++ es₃, p)

/-! ### Outgoing and incoming packets -/

/-- A packet read from the TUN device, for this peer: encrypt it, or begin a handshake if there is
neither a session nor a handshake. -/
def sendPacket (p : Peer S) (localPriv payload : Bytes) (hasRelay : Bool) (d : Draw S)
    (now : Instant) : Turn S (Peer S) :=
  let (sent, es, p) := p.encryptAndSend payload hasRelay d now
  if sent.isNone ∧ p.active.isNone ∧ p.handshake.isNone then
    let (es', p) := p.initiateAndSend localPriv hasRelay d now
    (es ++ es', p)
  else (es, p)

/-- Decrypt a data packet and check the inner source address against the peer's subnets. -/
def acceptData (p : Peer S) (payload : Bytes) (now : Instant) : Outcome S (Option Bytes) (Peer S) :=
  let out := p.decryptPacket payload now
  match out.result with
  | none => out
  | some plaintext =>
    match parseIpv4Header plaintext with
    | some (src, _) =>
      -- the session has taken the nonce, whatever the source address is
      if out.state.allowedIps.any (·.contains src) then out else { out with result := none }
    | none => { out with result := none }

/-- The responder's turn on the UDP path: the sender's address becomes the endpoint. -/
def respondTo (p : Peer S) (hs : S.HandshakeState) (magic : MagicConfig) (addr : SocketAddr)
    (d : Draw S) (now : Instant) : Turn S (Peer S) :=
  let out := { p with endpoint := some addr, lastDirectRx := now }.respond hs magic d now
  (out.events ++ sendHandshake out.result (some (.udp addr)), out.state)

end Peer

/-- The write to the TUN device at the end of a data branch; a keepalive is not written. -/
def writeTun (result : Option Bytes) : List (Event S) :=
  match result with
  | some plaintext => if plaintext ≠ [] then [.written plaintext] else []
  | none => []

/-- Trial decryption over the peers whose endpoint is not `addr`, until one accepts: that peer has
roamed to `addr`. -/
def trialDecrypt (addr : SocketAddr) (payload : Bytes) (now : Instant) :
    List (Peer S) → Outcome S (Option Bytes) (List (Peer S))
  | [] => { result := none, state := [] }
  | p :: ps =>
    -- the peers at this address are left to the fast path
    if p.endpoint = some addr then
      let rest := trialDecrypt addr payload now ps
      { rest with state := p :: rest.state }
    else
      let out := p.acceptData payload now
      match out.result with
      | some plaintext =>
        { result := some plaintext
          events := out.events
          state := { out.state with endpoint := some addr, lastDirectRx := now } :: ps }
      | none =>
        -- the failed attempt may have changed the peer
        let rest := trialDecrypt addr payload now ps
        { rest with events := out.events ++ rest.events, state := out.state :: rest.state }

namespace PeerManager

/-- The timer's turn over the peers from the one at `idx` on. -/
def timerPeers (localPriv : Bytes) (hasRelay : Bool) (draws : ℕ → Draw S × Draw S) (now : Instant)
    (idx : ℕ) : List (Peer S) → Turn S (List (Peer S))
  | [] => ([], [])
  | p :: ps =>
    let (es, p) := p.timer localPriv hasRelay (draws idx).1 (draws idx).2 now
    let (es', ps) := timerPeers localPriv hasRelay draws now (idx + 1) ps
    (es ++ es', p :: ps)

/-- A turn of `spawn_timer_task`. -/
def timerTick (pm : PeerManager S) (hasRelay : Bool) (draws : ℕ → Draw S × Draw S)
    (now : Instant) : Turn S (PeerManager S) :=
  let (es, peers) := timerPeers pm.localPriv hasRelay draws now 0 pm.peers
  (es, { pm with peers := peers })

/-- A turn of `spawn_tun_to_udp_task`. -/
def tunPacket (pm : PeerManager S) (hasRelay : Bool) (packet : Bytes) (d : Draw S)
    (now : Instant) : Turn S (PeerManager S) :=
  match parseIpv4Header packet with
  | none => ([], pm)
  | some (_, dst) =>
    -- no peer has the destination in its subnets: dropped
    match pm.findBestPeerIdx dst with
    | none => ([], pm)
    | some idx =>
      match pm.peers[idx]? with
      | none => ([], pm)
      | some p =>
        let (es, p) := p.sendPacket pm.localPriv packet hasRelay d now
        (es, { pm with peers := pm.peers.set idx p })

/-- Run a turn on the first peer that satisfies `c`. -/
def updatePeer (pm : PeerManager S) (c : Peer S → Bool) (f : Peer S → Turn S (Peer S)) :
    Turn S (PeerManager S) :=
  let (es, peers) := updateFirst c f pm.peers
  (es.getD [], { pm with peers := peers })

/-- The initiation branch of `spawn_udp_to_tun_task`. -/
def udpInit (pm : PeerManager S) (payload : Bytes) (addr : SocketAddr) (d : Draw S)
    (now : Instant) : Turn S (PeerManager S) :=
  match S.readInitiation pm.localPriv payload with
  | none => ([], pm)
  | some (hs, remoteStatic) =>
    pm.updatePeer (·.pubkey = remoteStatic) fun p => p.respondTo hs pm.magic addr d now

/-- The response branch of `spawn_udp_to_tun_task`: `last_direct_rx` is set whatever came of the
response. -/
def udpResp (pm : PeerManager S) (packetType : UInt8) (payload : Bytes) (addr : SocketAddr)
    (d : Draw S) (now : Instant) : Turn S (PeerManager S) :=
  pm.updatePeer (·.endpoint = some addr) fun p =>
    let out := p.handleHandshakePacket pm.localPriv packetType payload d now
    (out.events, { out.state with lastDirectRx := now })

/-- The data branch of `spawn_udp_to_tun_task`: first the peer at the sender's address, then trial
decryption over the others. -/
def udpData (pm : PeerManager S) (payload : Bytes) (addr : SocketAddr) (now : Instant) :
    Turn S (PeerManager S) :=
  let (found, peers) := updateFirst (·.endpoint = some addr) (fun p =>
    let out := p.acceptData payload now
    let p := if out.result.isSome then { out.state with lastDirectRx := now } else out.state
    ((out.result, out.events), p)) pm.peers
  let (result, es) := found.getD (none, [])
  match result with
  | some plaintext => (es ++ writeTun (some plaintext), { pm with peers := peers })
  | none =>
    let out := trialDecrypt addr payload now peers
    (es ++ out.events ++ writeTun out.result, { pm with peers := out.state })

/-- A turn of `spawn_udp_to_tun_task` on what it received; an empty datagram, a probe and an unknown
packet type do nothing. -/
def udpPacket (pm : PeerManager S) (packet : Bytes) (addr : SocketAddr) (d : Draw S)
    (now : Instant) : Turn S (PeerManager S) :=
  match packet with
  | [] => ([], pm)
  | packetType :: payload =>
    if packetType = pm.magic.handshakeInit then pm.udpInit payload addr d now
    else if packetType = pm.magic.handshakeResp then pm.udpResp packetType payload addr d now
    else if packetType = pm.magic.data then pm.udpData payload addr now
    else ([], pm)

/-- The initiation branch of `process_relayed_packet`. The response goes back through the relay, and
neither the endpoint nor `last_direct_rx` is touched. -/
def relayedInit (pm : PeerManager S) (fromKey payload : Bytes) (d : Draw S) (now : Instant) :
    Turn S (PeerManager S) :=
  match S.readInitiation pm.localPriv payload with
  | none => ([], pm)
  | some (hs, remoteStatic) =>
    -- the relay names one node and the initiation another
    if remoteStatic ≠ fromKey then ([], pm)
    else
      pm.updatePeer (·.pubkey = remoteStatic) fun p =>
        let out := p.respond hs pm.magic d now
        (out.events ++ Peer.sendHandshake out.result (some (.relay fromKey)), out.state)

/-- `process_relayed_packet`. -/
def relayedPacket (pm : PeerManager S) (fromKey packet : Bytes) (d : Draw S) (now : Instant) :
    Turn S (PeerManager S) :=
  match packet with
  | [] => ([], pm)
  | packetType :: payload =>
    if packetType = pm.magic.handshakeInit then pm.relayedInit fromKey payload d now
    else if packetType = pm.magic.handshakeResp then
      pm.updatePeer (·.pubkey = fromKey) fun p =>
        let out := p.handleHandshakePacket pm.localPriv packetType payload d now
        (out.events, out.state)
    else if packetType = pm.magic.data then
      pm.updatePeer (·.pubkey = fromKey) fun p =>
        let out := p.acceptData payload now
        (out.events ++ writeTun out.result, out.state)
    else ([], pm)

end PeerManager

/-! ### The daemon as a system -/

/-- What `recv_from` leaves of a datagram in a buffer of 2048 bytes. -/
def recvFrom (datagram : Bytes) : Bytes := datagram.take 2048

/-- The bytes behind the type byte are cut after 2047. -/
@[simp] theorem recvFrom_cons (packetType : UInt8) (payload : Bytes) :
    recvFrom (packetType :: payload) = packetType :: payload.take 2047 := rfl

/-- A turn of one of the tasks, with what it draws from the random source. -/
inductive DaemonTask (S : Snow)
  | timer (draws : ℕ → Draw S × Draw S)
  | tun (packet : Bytes) (d : Draw S)
  | udp (datagram : Bytes) (addr : SocketAddr) (d : Draw S)
  | relayed (fromKey packet : Bytes) (d : Draw S)
  | poll (descriptors : List PeerDescriptor)

/-- These bytes are received of a datagram from `addr`. -/
def DaemonTask.Receives (packet : Bytes) (addr : SocketAddr) (d : Draw S) (task : DaemonTask S) :
    Prop :=
  ∃ datagram, task = .udp datagram addr d ∧ recvFrom datagram = packet

/-- The task brings these bytes, on either path. -/
def DaemonTask.Carries (packet : Bytes) (task : DaemonTask S) : Prop :=
  (∃ addr d, task.Receives packet addr d) ∨ ∃ fromKey d, task = .relayed fromKey packet d

/-- The network hands these bytes to the task, on either path. -/
def DaemonTask.Delivers (packet : Bytes) (task : DaemonTask S) : Prop :=
  (∃ addr d, task = .udp packet addr d) ∨ ∃ fromKey d, task = .relayed fromKey packet d

/-- The task brings a packet of this type with this payload. -/
def DaemonTask.Brings (packetType : UInt8) (payload : Bytes) (task : DaemonTask S) : Prop :=
  task.Carries (packetType :: payload)

/-- The task brings a packet. -/
def DaemonTask.Inbound (task : DaemonTask S) : Prop :=
  (∃ datagram addr d, task = .udp datagram addr d) ∨
    ∃ fromKey packet d, task = .relayed fromKey packet d

/-- A turn of any task. -/
def PeerManager.step (pm : PeerManager S) (hasRelay : Bool) (now : Instant) :
    DaemonTask S → Turn S (PeerManager S)
  | .timer draws => pm.timerTick hasRelay draws now
  | .tun packet d => pm.tunPacket hasRelay packet d now
  | .udp datagram addr d => pm.udpPacket (recvFrom datagram) addr d now
  | .relayed fromKey packet d => pm.relayedPacket fromKey packet d now
  | .poll descriptors => ([], (pm.syncPeers descriptors now).2)

/-- A datagram is handled as what is received of it. -/
theorem PeerManager.step_udp_received (pm : PeerManager S) (hasRelay : Bool) (now : Instant)
    {datagram packet : Bytes} (h_recv : recvFrom datagram = packet) (addr : SocketAddr)
    (d : Draw S) :
    pm.step hasRelay now (.udp datagram addr d) = pm.step hasRelay now (.udp packet addr d) := by
  subst h_recv
  simp only [step, recvFrom, List.take_take, min_self]

/-- A turn as a label: when, what, and the events it went through. -/
structure DaemonLabel (S : Snow) where
  now : Instant
  task : DaemonTask S
  events : List (Event S)

/-- A table as the daemon starts with: peers from specifications that parse, without sessions. -/
def PeerManager.Initial (pm : PeerManager S) : Prop :=
  ∃ (localPriv : Bytes) (parsed : List ParsedPeer) (magic : MagicConfig) (now : Instant),
    (∀ w ∈ parsed, ∃ spec, parsePeerArg spec = some w) ∧
    pm = PeerManager.new localPriv
      (parsed.map fun w => Peer.new w.pubkey w.endpoint w.allowedIps now) magic

/-- All interleavings of the daemon's tasks. -/
def daemon (S : Snow) (hasRelay : Bool) : System (PeerManager S) (DaemonLabel S) where
  init := PeerManager.Initial
  step pm l pm' := pm.step hasRelay l.now l.task = (l.events, pm')

/-- The events of a run, in order. -/
def eventsOf (ls : List (DaemonLabel S)) : List (Event S) := ls.flatMap (·.events)

end AraxMesh
