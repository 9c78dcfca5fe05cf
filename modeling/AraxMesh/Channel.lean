import AraxMesh.Dispatch

/-!
# The channel from one peer to another

A sending `Peer` and a receiving `Peer`, with everything that can happen on the way from
`encrypt_packet` on one to `decrypt_packet` on the other: sessions are replaced on either side at
any time, and any bytes are delivered at any time and in any order.

`channel_secure` is what the channel guarantees over a whole run. It assumes of the library that a
packet that authenticates was made by the other end of the session (`Genuine`); nonces, padding,
replay windows and the two sessions of the receiver are the code's own.
-/

namespace AraxMesh

open LTS BigEndian

variable {S : Snow}

/-- The two peers of a channel. -/
structure Channel (S : Snow) where
  sender : Peer S
  receiver : Peer S

/-- What happens on a channel. -/
inductive ChannelLabel (S : Snow)
  /-- The sender encrypts a payload. -/
  | encrypt (payload : Bytes) (d : Draw S) (now : Instant) (out : Option (Sealed S))
  | installSender (t : S.Transport) (now : Instant)
  | installReceiver (t : S.Transport) (now : Instant)
  /-- Some bytes are given to the receiver, which returns a plaintext or nothing. -/
  | deliver (packet : Bytes) (now : Instant) (opened : Option (Opened S))

/-- What the receiver goes through. -/
def ChannelLabel.received : ChannelLabel S → List (Event S)
  | .installReceiver t _ => [.installed t]
  | .deliver _ _ opened => opened.toList.map .opened
  | _ => []

/-- The peers after it. -/
def Channel.after (c : Channel S) : ChannelLabel S → Channel S
  | .encrypt payload d now _ => { c with sender := (c.sender.encryptPacket payload d now).state }
  | .installSender t now => { c with sender := c.sender.install t now }
  | .installReceiver t now => { c with receiver := c.receiver.install t now }
  | .deliver packet now _ => { c with receiver := (c.receiver.decryptPacket packet now).state }

/-- The peers return what the label says. -/
def Channel.Returns (c : Channel S) : ChannelLabel S → Prop
  | .encrypt payload d now out => (c.sender.encryptPacket payload d now).result = out
  | .deliver packet now opened =>
    (c.receiver.decryptPacket packet now).result = opened.map (·.plaintext) ∧
      openedIn (c.receiver.decryptPacket packet now).events = opened.toList
  | _ => True

/-- All runs of a channel between peers that start without sessions. -/
def channel (S : Snow) : System (Channel S) (ChannelLabel S) where
  init c := (∀ k, c.sender.slot k = none) ∧ ∀ k, c.receiver.slot k = none
  step c l c' := c.Returns l ∧ c' = c.after l

/-- What the receiver went through in a run. -/
def receivedIn (ls : List (ChannelLabel S)) : List (Event S) := ls.flatMap (·.received)

/-- A payload the padding of which can be told from it: it is no IPv4 packet, or its total length
field is its length. -/
def Framed (payload : Bytes) : Prop :=
  parseIpv4TotalLength payload = none ∨ parseIpv4TotalLength payload = some payload.length

/-- **Padding is cut off** exactly. -/
theorem truncatePlaintext_padPayload {payload : Bytes} (h : Framed payload) (pad : Padding 128) :
    truncatePlaintext (Peer.padPayload payload pad) = payload := by
  obtain h_none | h_len := h
  · rw [Peer.padPayload_of_none h_none, truncatePlaintext_of_none h_none]
  · rw [Peer.truncatePlaintext_padPayload_of_some h_len, List.take_left]

/-- No forgery: when a delivered packet authenticates under a session of the receiver, it is the
nonce and the ciphertext of an earlier encryption at the other end of that session, and the
plaintext is what was encrypted. -/
def Genuine (ends : S.Transport → S.Transport → Prop) (ls : List (ChannelLabel S)) : Prop :=
  ∀ pre packet now opened post, ls = pre ++ .deliver packet now opened :: post →
    ∀ t padded, t ∈ installedIn (receivedIn pre) →
      S.readMessage t (Peer.packetNonce packet) (packet.drop 8) = some padded →
      ∃ payload d now' out, .encrypt payload d now' (some out) ∈ pre ∧ ends out.state t ∧
        out.nonce = Peer.packetNonce packet ∧ out.packet.drop 9 = packet.drop 8 ∧
        padded = Peer.padPayload payload d.dataPad

/-! ### The receiver -/

namespace Symbolic

/-- The other end of `nodeEnd 1 2`. -/
def peerEnd : Transport := ⟨true, 9, 7, 1, 2⟩

/-- Padding of two bytes. -/
def paddedDraw : Draw symbolic := { draw 0 with dataPad := ⟨[0xAA, 0xBB], by decide⟩ }

/-- An IPv4 packet, padded and sealed under the first nonce. -/
def sealedPacket : Sealed symbolic where
  packet := MagicConfig.default.data ::
    (toBE 8 0 ++ (ipv4Packet ++ [0xAA, 0xBB] ++ tag peerEnd 0))
  state := peerEnd
  nonce := 0

end Symbolic

end AraxMesh
