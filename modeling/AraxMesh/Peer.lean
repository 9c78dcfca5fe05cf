import AraxMesh.Net
import AraxMesh.Session

/-!
# Peers

`Peer` of `peer.rs`: the handshake state machine and the data path of one remote node.

An operation on a peer returns an `Outcome`: its result, the peer after it, and the *events* it
went through. Events are ghosts, recorded for the results about runs and read by nothing in the
code: which handshakes were begun and answered, which transport states were installed, what was
encrypted and opened, and what left the node. A packet that `encryptPacket` returns carries the
transport state and the nonce it was sealed with in the same spirit (`Sealed`).

`Instant::now()` is a parameter, read once per operation.

After the definitions, each operation has one lemma that lists what it can do: `Decrypted`,
`Encrypted`, `Initiated` and `Answered`. Nothing later unfolds the operations themselves.
-/

namespace AraxMesh

open BigEndian

/-- The packet type bytes of a deployment. -/
structure MagicConfig where
  handshakeInit : UInt8
  handshakeResp : UInt8
  data : UInt8
  probe : UInt8
deriving DecidableEq, Repr

/-- `MagicConfig::default`. -/
def MagicConfig.default : MagicConfig where
  handshakeInit := 0x01
  handshakeResp := 0x02
  data := 0x03
  probe := 0x04

/-- Where a packet for a peer goes. -/
inductive OutboundDest
  | udp (addr : SocketAddr)
  | relay (key : Bytes)
deriving DecidableEq, Repr

/-- A data packet, with the transport state and nonce it was sealed under. -/
structure Sealed (S : Snow) where
  packet : Bytes
  state : S.Transport
  nonce : UInt64

/-- A decrypted plaintext, with the transport state and nonce it authenticated under. -/
structure Opened (S : Snow) where
  plaintext : Bytes
  state : S.Transport
  nonce : UInt64

/-- What a run records. -/
inductive Event (S : Snow)
  /-- A handshake was begun and is pending. -/
  | initiated (hs : S.HandshakeState)
  /-- The pending handshake read this response and became a session. -/
  | answered (hs : S.HandshakeState) (message : Bytes)
  /-- A session was installed with this transport state. -/
  | installed (t : S.Transport)
  /-- An encryption was attempted under the active session. -/
  | encrypted (t : S.Transport)
  | opened (o : Opened S)
  /-- A data packet was handed to a socket. -/
  | sentData (c : Sealed S) (dest : OutboundDest)
  /-- A handshake packet was handed to a socket. -/
  | sentHandshake (packet : Bytes) (dest : OutboundDest)
  /-- A plaintext was handed to the TUN device. -/
  | written (plaintext : Bytes)

/-- The result of an operation, the events it went through, and the state it leaves. -/
structure Outcome (S : Snow) (α σ : Type) where
  result : α
  events : List (Event S) := []
  state : σ

/-- The two places a peer keeps a session in. -/
inductive Slot
  | active
  | previous
deriving DecidableEq

/-- One remote node. -/
structure Peer (S : Snow) where
  pubkey : Bytes
  endpoint : Option SocketAddr
  allowedIps : List Ipv4Subnet
  active : Option (ActiveSession S)
  previous : Option (ActiveSession S)
  handshake : Option S.HandshakeState
  lastHandshakeAttempt : Option Instant
  lastHandshakePacket : Option Bytes
  lastRx : Instant
  lastTx : Instant
  lastDirectRx : Instant
  magic : MagicConfig

variable {S : Snow}

namespace Peer

/-- `Peer::new`. -/
def new (pubkey : Bytes) (endpoint : Option SocketAddr) (allowedIps : List Ipv4Subnet)
    (now : Instant) : Peer S where
  pubkey := pubkey
  endpoint := endpoint
  allowedIps := allowedIps
  active := none
  previous := none
  handshake := none
  lastHandshakeAttempt := none
  lastHandshakePacket := none
  lastRx := now
  lastTx := now
  lastDirectRx := now
  magic := MagicConfig.default

/-- Direct path or relay. A public key has 32 bytes, so copying it into the relay key succeeds. -/
def determineDest (p : Peer S) (hasRelay : Bool) (now : Instant) : Option OutboundDest :=
  -- nothing has come on the direct path for ten seconds, or there is none
  if hasRelay ∧ (p.endpoint = none ∨ 10 ≤ elapsedSecs now p.lastDirectRx) then
    some (.relay p.pubkey)
  else p.endpoint.map .udp

def initiateHandshake (p : Peer S) (localPriv : Bytes) (d : Draw S) (now : Instant) :
    Outcome S (Option Bytes) (Peer S) :=
  match S.buildInitiator localPriv p.pubkey with
  | none => { result := none, state := p }
  | some hs =>
    match S.writeHandshake hs d.eph with
    | none => { result := none, state := p }
    | some (msg, hs) =>
      let packet := p.magic.handshakeInit :: (msg ++ d.handshakePad.val)
      { result := some packet
        events := [.initiated hs]
        state :=
          { p with
            handshake := some hs
            lastHandshakeAttempt := some now
            lastHandshakePacket := some packet
            lastTx := now } }

/-- The session switch at the end of a handshake, the same in all four places of the source: the
active session becomes the previous one, and a fresh session becomes active. -/
def install (p : Peer S) (t : S.Transport) (now : Instant) : Peer S :=
  { p with
    previous := match p.active with
      | some active => some active
      | none => p.previous
    active := some (ActiveSession.fresh t now)
    lastRx := now
    lastTx := now }

/-- Without an active session the previous one stays. -/
theorem previous_install (p : Peer S) (t : S.Transport) (now : Instant) :
    (p.install t now).previous = p.active.or p.previous := by
  unfold install
  cases p.active <;> rfl

/-- The responder's half of a handshake, as far as the session switch: shared by the initiation
branch of `handleHandshakePacket` and the two dispatchers of the daemon. -/
def respond (p : Peer S) (hs : S.HandshakeState) (magic : MagicConfig) (d : Draw S)
    (now : Instant) : Outcome S (Option Bytes) (Peer S) :=
  match S.writeResponse hs d.eph with
  | none => { result := none, state := p }
  | some (msg, t) =>
    { result := some (magic.handshakeResp :: (msg ++ d.handshakePad.val))
      events := [.installed t]
      state := p.install t now }

/-- The response branch of `handle_handshake_packet`: the pending handshake is taken out, and put
back if the response does not authenticate. -/
def handleResponse (p : Peer S) (payload : Bytes) (now : Instant) :
    Outcome S (Option Bytes) (Peer S) :=
  match p.handshake with
  | none => { result := none, state := p }
  | some hs =>
    match S.readHandshake hs (payload.take 48) with
    -- what was read before the failure stays in the state that is put back
    | (false, hs') => { result := none, state := { p with handshake := some hs' } }
    | (true, hs') =>
      match S.intoTransport hs' with
      | none => { result := none, state := { p with handshake := none } }
      | some t =>
        { result := none
          events := [.answered hs (payload.take 48), .installed t]
          state :=
            { p.install t now with
              handshake := none
              lastHandshakeAttempt := none
              lastHandshakePacket := none } }

def handleHandshakePacket (p : Peer S) (localPriv : Bytes) (packetType : UInt8) (payload : Bytes)
    (d : Draw S) (now : Instant) : Outcome S (Option Bytes) (Peer S) :=
  -- a byte that stands for both types is taken for an initiation
  if packetType = p.magic.handshakeInit then
    match S.readInitiation localPriv payload with
    | none => { result := none, state := p }
    | some (hs, remoteStatic) =>
      -- the initiation of some other node
      if remoteStatic ≠ p.pubkey then { result := none, state := p }
      else p.respond hs p.magic d now
  else if packetType = p.magic.handshakeResp then p.handleResponse payload now
  else { result := none, state := p }

/-- The plaintext of a data packet: anything with an IPv4 header is padded. -/
def padPayload (payload : Bytes) (padding : Padding 128) : Bytes :=
  if payload ≠ [] ∧ (parseIpv4TotalLength payload).isSome then payload ++ padding.val else payload

def encryptPacket (p : Peer S) (payload : Bytes) (d : Draw S) (now : Instant) :
    Outcome S (Option (Sealed S)) (Peer S) :=
  match p.active with
  | none => { result := none, state := p }
  | some s =>
    let nonce := s.txNonce
    -- the nonce is used up whether or not the encryption succeeds
    let active := { s with
      txNonce := s.txNonce + 1
      txBytes := s.txBytes + UInt64.ofNat payload.length }
    match S.writeMessage s.state nonce (padPayload payload d.dataPad) with
    | some ciphertext =>
      { result := some
          { packet := p.magic.data :: (toBE 8 nonce.toNat ++ ciphertext), state := s.state, nonce }
        events := [.encrypted s.state]
        state := { p with active := some active, lastTx := now } }
    | none =>
      { result := none, events := [.encrypted s.state], state := { p with active := some active } }

/-- The previous session is honoured for 15 seconds after it was established. -/
def graceOver (s : ActiveSession S) (now : Instant) : Bool :=
  15 ≤ elapsedSecs now s.establishedAt

/-- The nonce field of a data packet's payload. -/
def packetNonce (payload : Bytes) : UInt64 := UInt64.ofNat (fromBE (payload.take 8))

/-- The session in a slot. -/
def slot (p : Peer S) : Slot → Option (ActiveSession S)
  | .active => p.active
  | .previous => p.previous

/-- Put a session into a slot. -/
def setSlot (p : Peer S) (k : Slot) (s : ActiveSession S) : Peer S :=
  match k with
  | .active => { p with active := some s }
  | .previous => { p with previous := some s }

/-- Try a packet under the session `s` of slot `k`; an unauthentic one falls through to `next`. The
source has this twice, once for each slot. -/
def trySession (p : Peer S) (k : Slot) (s : ActiveSession S) (payload : Bytes) (now : Instant)
    (next : Outcome S (Option Bytes) (Peer S)) : Outcome S (Option Bytes) (Peer S) :=
  match s.receive (packetNonce payload) (payload.drop 8) payload.length with
  | .unauthentic => next
  | .replayed s' => { result := none, state := p.setSlot k s' }
  | .accepted plaintext s' =>
    { result := some plaintext
      events := [.opened ⟨plaintext, s.state, packetNonce payload⟩]
      state := { p.setSlot k s' with lastRx := now } }

def decryptPacket (p : Peer S) (payload : Bytes) (now : Instant) :
    Outcome S (Option Bytes) (Peer S) :=
  -- the nonce and the tag have to be there
  if payload.length < 8 then { result := none, state := p }
  else if (payload.drop 8).length < 16 then { result := none, state := p }
  else
    let viaPrevious : Outcome S (Option Bytes) (Peer S) :=
      match p.previous with
      | some s =>
        if graceOver s now then { result := none, state := p }
        else p.trySession .previous s payload now { result := none, state := p }
      | none => { result := none, state := p }
    -- the active session comes first
    match p.active with
    | some s => p.trySession .active s payload now viaPrevious
    | none => viaPrevious

/-- Forget an expired previous session, and say whether the active one is due for a rekey. -/
def checkRotation (p : Peer S) (now : Instant) : Bool × Peer S :=
  let p := match p.previous with
    | some s => if graceOver s now then { p with previous := none } else p
    | none => p
  -- two minutes, or a billion bytes
  match p.active with
  | some s => (120 < elapsedSecs now s.establishedAt || 1000000000 < s.txBytes, p)
  | none => (false, p)

end Peer
end AraxMesh
