import AraxMesh.Unauthentic
import Mathlib.Algebra.BigOperators.Ring.List
import Mathlib.Algebra.Order.BigOperators.Group.List

/-!
# Replies

What a node sends because of what it was sent. A turn that brings a packet sends nothing, or one
handshake response, to where the packet came from, and only if the packet is an initiation with the
static key of a configured peer (`PeerManager.replies`). Everything else a node sends is the doing
of its own timer and of its own TUN device.

So an address that a third party forges gets at most one datagram for each one sent in its name, and
hardly more bytes: the sizes of the two handshake messages are assumed of the library
(`Snow.LongInitiations`, `Snow.ShortResponses`), the padding is bounded by the code, and over a run
the bytes sent to an address are at most 113/97 of those that came from it (`reflection_bound`).
-/

namespace AraxMesh

open LTS FirstMatch

variable {S : Snow}

namespace Snow

/-- An initiation that reads has its 96 bytes: an ephemeral key, an encrypted static key and a
tag. -/
def LongInitiations (S : Snow) : Prop :=
  ∀ localPriv payload hs remote,
    S.readInitiation localPriv payload = some (hs, remote) → 96 ≤ payload.length

/-- A response is an ephemeral key and a tag. -/
def ShortResponses (S : Snow) : Prop :=
  ∀ hs eph msg t, S.writeResponse hs eph = some (msg, t) → msg.length ≤ 48

end Snow

/-! ### What is received and what is sent -/

/-- What a socket was handed, and for whom. -/
def Event.sent : Event S → Option (Bytes × OutboundDest)
  | .sentData c dest => some (c.packet, dest)
  | .sentHandshake packet dest => some (packet, dest)
  | _ => none

/-- The packets that left the node in a turn. -/
def sentOf (es : List (Event S)) : List (Bytes × OutboundDest) := es.filterMap Event.sent

/-- The packet a task brings, as it is received, and the way back to its sender. -/
def DaemonTask.received : DaemonTask S → Option (Bytes × OutboundDest)
  | .udp datagram addr _ => some (recvFrom datagram, .udp addr)
  | .relayed fromKey packet _ => some (packet, .relay fromKey)
  | .timer _ | .tun _ _ | .poll _ => none

theorem DaemonTask.carries_of_received {task : DaemonTask S} {packet : Bytes}
    {sender : OutboundDest} (h : task.received = some (packet, sender)) : task.Carries packet := by
  cases task with
  | udp datagram addr d =>
    obtain ⟨rfl, rfl⟩ := Prod.mk.inj (Option.some.inj h)
    exact Or.inl ⟨addr, d, datagram, rfl, rfl⟩
  | relayed fromKey packet' d =>
    obtain ⟨rfl, rfl⟩ := Prod.mk.inj (Option.some.inj h)
    exact Or.inr ⟨fromKey, d, rfl⟩
  | timer | tun | poll => cases h

/-- What may be sent in answer to a packet: nothing, or a response to the initiation of a peer. -/
inductive Reply (pm : PeerManager S) (packet : Bytes) (sender : OutboundDest) :
    List (Bytes × OutboundDest) → Prop
  | silent : Reply pm packet sender []
  | response (payload : Bytes) (hp : packet = pm.magic.handshakeInit :: payload) (p : Peer S)
      (h_mem : p ∈ pm.peers) (hs : S.HandshakeState)
      (hr : S.readInitiation pm.localPriv payload = some (hs, p.pubkey)) (d : Draw S) (msg : Bytes)
      (t : S.Transport) (hw : S.writeResponse hs d.eph = some (msg, t)) :
      Reply pm packet sender [(pm.magic.handshakeResp :: (msg ++ d.handshakePad.val), sender)]

/-- A responder sends its response, if it can write one. -/
theorem Peer.Responded.sentOf_eq {p : Peer S} {hs : S.HandshakeState} {magic : MagicConfig}
    {d : Draw S} {now : Instant} {out : Outcome S (Option Bytes) (Peer S)}
    (h : p.Responded hs magic d now out) (dest : OutboundDest) :
    sentOf (out.events ++ sendHandshake out.result (some dest)) = [] ∨
      ∃ msg t, S.writeResponse hs d.eph = some (msg, t) ∧
        sentOf (out.events ++ sendHandshake out.result (some dest)) =
          [(magic.handshakeResp :: (msg ++ d.handshakePad.val), dest)] := by
  cases h with
  | failed => exact Or.inl rfl
  | installed msg t hw => exact Or.inr ⟨msg, t, hw, rfl⟩

namespace PeerManager

/-- The peer an initiation names answers to `sender`. -/
theorem updatePeer_reply (pm : PeerManager S) (now : Instant) {payload remoteStatic : Bytes}
    {hs : S.HandshakeState} {sender : OutboundDest} {f : Peer S → Turn S (Peer S)}
    (hr : S.readInitiation pm.localPriv payload = some (hs, remoteStatic))
    (hf : ∀ p, ∃ q d out, Peer.Responded q hs pm.magic d now out ∧
      (f p).1 = out.events ++ Peer.sendHandshake out.result (some sender)) :
    Reply pm (pm.magic.handshakeInit :: payload) sender
      (sentOf (pm.updatePeer (·.pubkey = remoteStatic) f).1) := by
  unfold updatePeer
  rcases updateFirst_cases (fun p : Peer S => p.pubkey = remoteStatic) f pm.peers
    with ⟨-, heq⟩ | ⟨l₁, p, l₂, hl, hkey, -, heq⟩
  · rw [heq]
    exact .silent
  · obtain ⟨q, d, out, h, hfp⟩ := hf p
    obtain rfl : p.pubkey = remoteStatic := by simpa using hkey
    rw [heq]
    show Reply pm _ sender (sentOf (f p).1)
    rw [hfp]
    rcases h.sentOf_eq sender with h_eq | ⟨msg, t, hw, h_eq⟩
    · rw [h_eq]
      exact .silent
    · rw [h_eq]
      exact .response payload rfl p (by simp [hl]) hs hr d msg t hw

/-- The initiation branches answer to where the packet came from. -/
theorem replies_init (pm : PeerManager S) (hasRelay : Bool) (now : Instant) {task : DaemonTask S}
    {payload : Bytes} {sender : OutboundDest}
    (h : task.received = some (pm.magic.handshakeInit :: payload, sender)) :
    Reply pm (pm.magic.handshakeInit :: payload) sender
      (sentOf (pm.step hasRelay now task).1) := by
  obtain ⟨addr, d, datagram, rfl, h_recv⟩ | ⟨fromKey, d, rfl⟩ := DaemonTask.carries_of_received h
  · obtain rfl : OutboundDest.udp addr = sender := (Prod.mk.inj (Option.some.inj h)).2
    simp only [step, h_recv, udpPacket, if_true, udpInit]
    cases hr : S.readInitiation pm.localPriv payload with
    | none => exact .silent
    | some hk =>
      refine pm.updatePeer_reply now hr fun p => ?_
      exact ⟨_, d, _, Peer.responded { p with endpoint := some addr, lastDirectRx := now } hk.1
        pm.magic d now, rfl⟩
  · obtain rfl : OutboundDest.relay fromKey = sender := (Prod.mk.inj (Option.some.inj h)).2
    simp only [step, relayedPacket, if_true, relayedInit]
    cases hr : S.readInitiation pm.localPriv payload with
    | none => exact .silent
    | some hk =>
      dsimp only
      split_ifs
      -- the relay vouches for some other key
      · exact .silent
      · exact pm.updatePeer_reply now hr fun p => ⟨_, d, _, p.responded hk.1 pm.magic d now, rfl⟩

end PeerManager

/-- The turn of a response sends nothing. -/
theorem RespTurn.sentOf_eq {pm : PeerManager S} {direct : Bool} {payload : Bytes} {now : Instant}
    {es : List (Event S)} {l' : List (Peer S)} (h : RespTurn pm direct payload now es l') :
    sentOf es = [] := by
  refine List.filterMap_eq_nil_iff.mpr fun e he => ?_
  obtain ⟨hs, t, rfl | rfl, -⟩ := h.mem_events he
  · rfl
  · rfl

/-- A data turn sends nothing: what it opens goes to the TUN device. -/
theorem DataTurn.sentOf_eq {P : Peer S → Prop} {payload : Bytes} {now : Instant}
    {l : List (Peer S)} {es : List (Event S)} {l' : List (Peer S)}
    (h : DataTurn P payload now l es l') : sentOf es = [] := by
  refine List.filterMap_eq_nil_iff.mpr fun e he => ?_
  obtain ⟨p, -, -, k, s, padded, -, rfl | ⟨rfl, -⟩⟩ := h.events e he
  · rfl
  · rfl

/-- **What is sent in answer to a packet**, on either path. -/
theorem PeerManager.replies (pm : PeerManager S) (hasRelay : Bool) (now : Instant)
    {task : DaemonTask S} {packet : Bytes} {sender : OutboundDest}
    (h_magic : ∀ p ∈ pm.peers, p.magic = pm.magic)
    (h : task.received = some (packet, sender)) :
    Reply pm packet sender (sentOf (pm.step hasRelay now task).1) := by
  cases pm.handled hasRelay now h_magic (DaemonTask.carries_of_received h) with
  | initiation payload hp =>
    subst hp
    exact pm.replies_init hasRelay now h
  | response payload hp h_type h_turn =>
    rw [h_turn.sentOf_eq]
    exact .silent
  | data payload hp h_data h_turn =>
    rw [h_turn.sentOf_eq]
    exact .silent
  | ignored h_nil =>
    rw [h_nil]
    exact .silent

/-! ### Sizes -/

/-- The bytes among `sent` that are for `dest`. -/
def bytesTo (dest : OutboundDest) (sent : List (Bytes × OutboundDest)) : ℕ :=
  ((sent.filter (·.2 = dest)).map (·.1.length)).sum

/-- The bytes a turn received from `dest`. -/
def DaemonLabel.receivedFrom (dest : OutboundDest) (l : DaemonLabel S) : ℕ :=
  bytesTo dest l.task.received.toList

/-- The bytes a turn sent to `dest` because of a packet it received, from whomever. -/
def DaemonLabel.repliedTo (dest : OutboundDest) (l : DaemonLabel S) : ℕ :=
  if l.task.received.isSome then bytesTo dest (sentOf l.events) else 0

/-- One packet sets off at most `113 / 97` times its size, and none of it for anyone else. -/
theorem Reply.bytesTo_le (h_long : S.LongInitiations) (h_short : S.ShortResponses)
    {pm : PeerManager S} {packet : Bytes} {sender : OutboundDest}
    {sent : List (Bytes × OutboundDest)} (h : Reply pm packet sender sent) (dest : OutboundDest) :
    97 * bytesTo dest sent ≤ 113 * bytesTo dest [(packet, sender)] := by
  cases h with
  | silent => exact Nat.zero_le _
  | response payload hp p h_mem hs hr d msg t hw =>
    have h_in := h_long _ _ _ _ hr
    have h_out := h_short _ _ _ _ hw
    have h_pad := d.handshakePad.property
    by_cases h_dest : sender = dest
    · -- one type byte, the response and at most 64 bytes of padding
      simp only [bytesTo, h_dest, hp, List.filter_cons, decide_true, if_true, List.filter_nil,
        List.map_cons, List.map_nil, List.sum_cons, List.sum_nil, List.length_cons,
        List.length_append]
      omega
    · simp [bytesTo, h_dest]

/-- In a run, what a turn sends is a reply of the table it started from. -/
theorem reply_of_exec {hasRelay : Bool} {pm₀ pm : PeerManager S} {l : DaemonLabel S}
    {pre post : List (DaemonLabel S)} (h_init : pm₀.Initial)
    (h_run : Exec (daemon S hasRelay) pm₀ (pre ++ l :: post) pm) {packet : Bytes}
    {sender : OutboundDest} (h : l.task.received = some (packet, sender)) :
    ∃ u, Exec (daemon S hasRelay) pm₀ pre u ∧ Reply u packet sender (sentOf l.events) := by
  obtain ⟨u, h_pre, h_rest⟩ := h_run.split
  obtain ⟨v, hl, -⟩ := h_rest.cut_first
  have h_events : (u.step hasRelay l.now l.task).1 = l.events := congrArg Prod.fst hl
  refine ⟨u, h_pre, ?_⟩
  rw [← h_events]
  exact u.replies hasRelay l.now (peers_magic ⟨pm₀, pre, h_init, h_pre⟩) h

/-- **No reflection beyond the handshake.** In every run, each packet that comes in is answered by
nothing, or by one handshake response to where it came from, if it is the initiation of a configured
peer; and to any address the node sends, in answer to packets, at most `113 / 97` of the bytes that
came from there. -/
theorem reflection_bound (h_long : S.LongInitiations) (h_short : S.ShortResponses)
    {hasRelay : Bool} {pm₀ pm : PeerManager S} {ls : List (DaemonLabel S)} (h_init : pm₀.Initial)
    (h_run : Exec (daemon S hasRelay) pm₀ ls pm) :
    (∀ pre l post packet sender, ls = pre ++ l :: post →
      l.task.received = some (packet, sender) →
      ∃ u, Exec (daemon S hasRelay) pm₀ pre u ∧ Reply u packet sender (sentOf l.events)) ∧
    ∀ dest, 97 * (ls.map (·.repliedTo dest)).sum ≤ 113 * (ls.map (·.receivedFrom dest)).sum := by
  have h_replies : ∀ pre l post packet sender, ls = pre ++ l :: post →
      l.task.received = some (packet, sender) →
      ∃ u, Exec (daemon S hasRelay) pm₀ pre u ∧ Reply u packet sender (sentOf l.events) := by
    rintro pre l post packet sender rfl h_in
    exact reply_of_exec h_init h_run h_in
  refine ⟨h_replies, fun dest => ?_⟩
  -- turn by turn
  have h_turn : ∀ l ∈ ls, 97 * l.repliedTo dest ≤ 113 * l.receivedFrom dest := by
    intro l hl
    obtain ⟨pre, post, h_eq⟩ := List.append_of_mem hl
    unfold DaemonLabel.repliedTo DaemonLabel.receivedFrom
    cases h_in : l.task.received with
    | none => simp
    | some ps =>
      obtain ⟨u, -, h⟩ := h_replies pre l post ps.1 ps.2 h_eq h_in
      exact h.bytesTo_le h_long h_short dest
  calc 97 * (ls.map (·.repliedTo dest)).sum
      = (ls.map fun l => 97 * l.repliedTo dest).sum := (List.sum_map_mul_left ..).symm
    _ ≤ (ls.map fun l => 113 * l.receivedFrom dest).sum := List.sum_le_sum h_turn
    _ = 113 * (ls.map (·.receivedFrom dest)).sum := List.sum_map_mul_left ..

namespace Symbolic

/-- The symbolic library has the message sizes of the real one. -/
theorem longInitiations : symbolic.LongInitiations := by
  intro localPriv payload hs remote h
  obtain ⟨hs₀, h_build, h_read, -⟩ := Snow.readInitiation_eq_some h
  obtain ⟨b, -, rfl⟩ := Option.map_eq_some_iff.mp h_build
  change readHandshake (.responder b) (payload.take 96) = (true, hs) at h_read
  rcases readHandshake_cases (.responder b) (payload.take 96)
    with heq | ⟨_, _, _, _, h', -, -⟩ | ⟨a, b', e, -, hm, -⟩
  · rw [heq] at h_read
    cases h_read
  · cases h'
  · calc 96 = (payload.take 96).length := by rw [hm, length_initiation]
      _ ≤ payload.length := List.length_take_le' 96 payload

theorem shortResponses : symbolic.ShortResponses := by
  intro hs eph msg t h
  cases hs with
  | asked a b e =>
    obtain ⟨rfl, -⟩ := Prod.mk.inj (Option.some.inj h)
    exact (length_response a b e eph).le
  | initiator | pending | responder | finished => cases h

end Symbolic

/-- An initiation and a probe, as node `7` gets them. -/
def Symbolic.unsolicited : List (Instant × DaemonTask symbolic) :=
  [(1, .udp (initiationPacket 5) peerAddr (draw 6)), (2, .udp [0x04] peerAddr (draw 7))]

/-- The initiation has 97 bytes and the probe one; the initiation is answered with 49 bytes. -/
theorem reflection_bound_handshake :
    ((Symbolic.node.runTasks false Symbolic.unsolicited).1.map
        (·.repliedTo (.udp Symbolic.peerAddr))).sum = 49 ∧
      97 * ((Symbolic.node.runTasks false Symbolic.unsolicited).1.map
        (·.repliedTo (.udp Symbolic.peerAddr))).sum ≤
      113 * ((Symbolic.node.runTasks false Symbolic.unsolicited).1.map
        (·.receivedFrom (.udp Symbolic.peerAddr))).sum :=
  ⟨by decide +kernel, (reflection_bound Symbolic.longInitiations Symbolic.shortResponses
    Symbolic.node_initial (PeerManager.exec_runTasks _ _ _)).2 (.udp Symbolic.peerAddr)⟩

end AraxMesh
