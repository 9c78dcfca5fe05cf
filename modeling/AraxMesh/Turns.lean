import AraxMesh.Dispatch

/-!
# The turn of a packet

What each branch of the two dispatchers does, as a whole: `InitTurn`, `RespTurn` and, from the last
module, `DataTurn`. `PeerManager.handled` says that every packet is handled by the branch of its
type, whichever path it came on.

A turn is a relation, with the peer that was reached and the parts of the table around it: what
holds of all packets is then a case analysis on what the one peer does (`Responded`, `Answered`),
and the paths differ in parameters only. By UDP the address a packet came from is noted, which
`source` and `direct` say, and of the packet only the first 2048 bytes are received. For handshakes
the second makes no difference (`step_init_delivered`, `step_resp_delivered`).
-/

namespace AraxMesh

open LTS FirstMatch

variable {S : Snow}

/-- The packet came by UDP. -/
def DaemonTask.direct : DaemonTask S → Bool
  | .udp _ _ _ => true
  | _ => false

/-- The address the packet came from by UDP. -/
def DaemonTask.source : DaemonTask S → Option SocketAddr
  | .udp _ addr _ => some addr
  | _ => none

/-! ### Initiations -/

/-- The peer with the address the packet came from noted, which only the UDP path does. -/
def Peer.noted (p : Peer S) (source : Option SocketAddr) (now : Instant) : Peer S :=
  match source with
  | some addr => { p with endpoint := some addr, lastDirectRx := now }
  | none => p

/-- The turn of an initiation: nobody answers it, or the peer with the static key it carries. -/
inductive InitTurn (pm : PeerManager S) (source : Option SocketAddr) (payload : Bytes)
    (now : Instant) : List (Event S) → List (Peer S) → Prop
  | nobody : InitTurn pm source payload now [] pm.peers
  | reached (l₁ l₂ : List (Peer S)) (p : Peer S) (hl : pm.peers = l₁ ++ p :: l₂)
      (hs : S.HandshakeState) (hr : S.readInitiation pm.localPriv payload = some (hs, p.pubkey))
      (d : Draw S) (out : Outcome S (Option Bytes) (Peer S))
      (h : (p.noted source now).Responded hs pm.magic d now out) (dest : OutboundDest) :
      InitTurn pm source payload now (out.events ++ Peer.sendHandshake out.result (some dest))
        (l₁ ++ out.state :: l₂)

namespace PeerManager

/-- Looking a peer up by the key in an initiation, and answering it. -/
theorem updatePeer_initTurn (pm : PeerManager S) {source : Option SocketAddr}
    {payload remoteStatic : Bytes} {now : Instant} {hs : S.HandshakeState}
    {f : Peer S → Turn S (Peer S)}
    (hr : S.readInitiation pm.localPriv payload = some (hs, remoteStatic))
    (hf : ∀ p, ∃ d out dest, (p.noted source now).Responded hs pm.magic d now out ∧
      f p = (out.events ++ Peer.sendHandshake out.result (some dest), out.state)) :
    InitTurn pm source payload now (pm.updatePeer (·.pubkey = remoteStatic) f).1
      (pm.updatePeer (·.pubkey = remoteStatic) f).2.peers := by
  unfold updatePeer
  rcases updateFirst_cases (fun p : Peer S => p.pubkey = remoteStatic) f pm.peers
    with ⟨-, heq⟩ | ⟨l₁, p, l₂, hl, hkey, -, heq⟩
  · rw [heq]
    exact .nobody
  · obtain ⟨d, out, dest, h, hfp⟩ := hf p
    obtain rfl : p.pubkey = remoteStatic := by simpa using hkey
    rw [heq, hfp]
    exact .reached l₁ l₂ p hl hs hr d out h dest

/-- **The initiation branches** of both dispatchers. -/
theorem step_init (pm : PeerManager S) (hasRelay : Bool) (now : Instant) {task : DaemonTask S}
    {payload : Bytes} (h : task.Brings pm.magic.handshakeInit payload) :
    InitTurn pm task.source payload now (pm.step hasRelay now task).1
      (pm.step hasRelay now task).2.peers := by
  obtain ⟨addr, d, datagram, rfl, h_recv⟩ | ⟨fromKey, d, rfl⟩ := h
  · -- by UDP the sender's address is noted before the handshake
    simp only [step, h_recv, udpPacket, if_true, udpInit]
    cases hr : S.readInitiation pm.localPriv payload with
    | none => exact .nobody
    | some hk =>
      refine pm.updatePeer_initTurn hr fun p => ?_
      have h_out := Peer.responded { p with endpoint := some addr, lastDirectRx := now } hk.1
        pm.magic d now
      exact ⟨d, _, _, h_out, rfl⟩
  · -- through the relay nothing is noted, and the sender's key is checked first
    simp only [step, relayedPacket, if_true, relayedInit]
    cases hr : S.readInitiation pm.localPriv payload with
    | none => exact .nobody
    | some hk =>
      dsimp only
      split_ifs
      · exact .nobody
      · refine pm.updatePeer_initTurn hr fun p => ?_
        exact ⟨d, _, _, p.responded hk.1 pm.magic d now, rfl⟩

end PeerManager

/-- What is sent for a handshake is handshake packets. -/
theorem Peer.mem_sendHandshake {packet : Option Bytes} {dest : Option OutboundDest} {e : Event S}
    (he : e ∈ (sendHandshake packet dest : List (Event S))) :
    ∃ packet dest, e = .sentHandshake packet dest := by
  unfold sendHandshake at he
  split at he
  · exact ⟨_, _, List.mem_singleton.mp he⟩
  · cases he

/-- The events of an initiation's turn: a session, and the answer to the initiation. -/
theorem InitTurn.mem_events {pm : PeerManager S} {source : Option SocketAddr} {payload : Bytes}
    {now : Instant} {es : List (Event S)} {l' : List (Peer S)}
    (h : InitTurn pm source payload now es l')
    {e : Event S} (he : e ∈ es) :
    (∃ t, e = .installed t) ∨ ∃ packet dest, e = .sentHandshake packet dest := by
  cases h with
  | nobody => cases he
  | reached l₁ l₂ p hl hs hr d out h dest =>
    rcases List.mem_append.mp he with he | he
    · cases h with
      | failed => cases he
      | installed msg t => exact Or.inl ⟨t, List.mem_singleton.mp he⟩
    · exact Or.inr (Peer.mem_sendHandshake he)

/-- The sessions and the times of traffic beside them, when an initiation is answered: as they were,
or with a fresh session, and the formerly active one as the previous one. -/
structure Peer.Renewed (p : Peer S) (t : S.Transport) (now : Instant) (p' : Peer S) : Prop where
  active : p'.active = some (ActiveSession.fresh t now)
  previous : p'.previous = p.active.or p.previous
  lastRx : p'.lastRx = now
  lastTx : p'.lastTx = now

/-- What answering an initiation makes of the peer it comes from. Its key, its subnets, the
handshake it has pending and its packet types stay. Its sessions and the times beside them are as
they were, or a fresh session is active. By UDP from `addr` it is at that address and was heard of
directly now; through the relay both stay. -/
structure Peer.AnsweredAt (p : Peer S) (source : Option SocketAddr) (now : Instant)
    (p' : Peer S) : Prop where
  pubkey : p'.pubkey = p.pubkey
  allowedIps : p'.allowedIps = p.allowedIps
  handshake : p'.handshake = p.handshake
  lastHandshakeAttempt : p'.lastHandshakeAttempt = p.lastHandshakeAttempt
  lastHandshakePacket : p'.lastHandshakePacket = p.lastHandshakePacket
  magic : p'.magic = p.magic
  sessions : p'.active = p.active ∧ p'.previous = p.previous ∧ p'.lastRx = p.lastRx ∧
      p'.lastTx = p.lastTx ∨ ∃ t, p.Renewed t now p'
  direct : ∀ addr, source = some addr → p'.endpoint = some addr ∧ p'.lastDirectRx = now
  relayed : source = none → p'.endpoint = p.endpoint ∧ p'.lastDirectRx = p.lastDirectRx

/-- Answering installs a session or leaves the sessions alone. The address is noted before it is
known whether the library can write the answer. -/
theorem Peer.Responded.answeredAt {p : Peer S} {source : Option SocketAddr} {now : Instant}
    {hs : S.HandshakeState} {magic : MagicConfig} {d : Draw S}
    {out : Outcome S (Option Bytes) (Peer S)}
    (h : (p.noted source now).Responded hs magic d now out) :
    p.AnsweredAt source now out.state := by
  have h_noted : p.AnsweredAt source now (p.noted source now) := by
    cases source with
    | none =>
      exact ⟨rfl, rfl, rfl, rfl, rfl, rfl, Or.inl ⟨rfl, rfl, rfl, rfl⟩, nofun, fun _ => ⟨rfl, rfl⟩⟩
    | some addr =>
      refine ⟨rfl, rfl, rfl, rfl, rfl, rfl, Or.inl ⟨rfl, rfl, rfl, rfl⟩, ?_, nofun⟩
      rintro _ ⟨⟩
      exact ⟨rfl, rfl⟩
  cases h with
  | failed => exact h_noted
  | installed msg t =>
    -- noting the address leaves both sessions as they were
    have h_same : (p.noted source now).active = p.active ∧
        (p.noted source now).previous = p.previous := by
      cases source <;> exact ⟨rfl, rfl⟩
    have h_previous : ((p.noted source now).install t now).previous =
        p.active.or p.previous := by
      rw [Peer.previous_install, h_same.1, h_same.2]
    exact { h_noted with sessions := Or.inr ⟨t, rfl, h_previous, rfl, rfl⟩ }

/-- Nobody changes but the peer whose key is in the initiation. -/
theorem InitTurn.frame {pm : PeerManager S} {source : Option SocketAddr} {payload : Bytes}
    {now : Instant} {es : List (Event S)} {l' : List (Peer S)}
    (h : InitTurn pm source payload now es l') :
    List.Forall₂ (fun p p' => p' = p ∨
      (∃ hs, S.readInitiation pm.localPriv payload = some (hs, p.pubkey)) ∧
        p.AnsweredAt source now p') pm.peers l' := by
  cases h with
  | nobody => exact List.forall₂_same.mpr fun _ _ => Or.inl rfl
  | reached l₁ l₂ p hl hs hr d out h dest =>
    rw [hl]
    refine forall₂_middle ?_ ?_ l₁ l₂
    · exact fun _ => Or.inl rfl
    · exact Or.inr ⟨⟨hs, hr⟩, h.answeredAt⟩

/-! ### Responses -/

/-- A response that does not authenticate leaves the peer as it was. -/
theorem Peer.answered_of_unauthentic (h_restores : S.Restores) {p : Peer S} {payload : Bytes}
    {now : Instant} {out : Outcome S (Option Bytes) (Peer S)} (h : p.Answered payload now out)
    (h_un : ∀ hs, p.handshake = some hs → (S.readHandshake hs (payload.take 48)).1 = false) :
    out.state = p ∧ out.events = [] := by
  cases h with
  | idle => exact ⟨rfl, rfl⟩
  | rejected hs hs' h hr =>
    have h_same := h_restores hs (payload.take 48) (h_un hs h)
    rw [hr] at h_same
    simp only at h_same
    refine ⟨?_, rfl⟩
    rw [h_same, ← h]
  -- in the other two cases the response was read
  | abandoned hs hs' h hr => exact absurd ((h_un hs h).symm.trans (by rw [hr])) (by simp)
  | completed hs hs' t h hr => exact absurd ((h_un hs h).symm.trans (by rw [hr])) (by simp)

/-- The turn of a response: it finds nobody, or one peer's response branch runs, after which the UDP
path sets `last_direct_rx` as well. -/
inductive RespTurn (pm : PeerManager S) (direct : Bool) (payload : Bytes) (now : Instant) :
    List (Event S) → List (Peer S) → Prop
  | nobody : RespTurn pm direct payload now [] pm.peers
  | reached (l₁ l₂ : List (Peer S)) (p : Peer S) (hl : pm.peers = l₁ ++ p :: l₂)
      (out : Outcome S (Option Bytes) (Peer S)) (h : p.Answered payload now out) (t : Instant)
      (ht : t = out.state.lastDirectRx ∨ direct = true ∧ t = now) :
      RespTurn pm direct payload now out.events
        (l₁ ++ { out.state with lastDirectRx := t } :: l₂)

/-- A response no pending handshake reads: at most `last_direct_rx` of one peer changes. -/
theorem RespTurn.idle (h_restores : S.Restores) {pm : PeerManager S} {direct : Bool}
    {payload : Bytes} {now : Instant} {es : List (Event S)} {l' : List (Peer S)}
    (h : RespTurn pm direct payload now es l')
    (h_un : ∀ p ∈ pm.peers, ∀ hs, p.handshake = some hs →
      (S.readHandshake hs (payload.take 48)).1 = false) :
    es = [] ∧ List.Forall₂ (fun p p' => ∃ t, p' = { p with lastDirectRx := t } ∧
      (t = p.lastDirectRx ∨ direct = true ∧ t = now)) pm.peers l' := by
  cases h with
  | nobody => exact ⟨rfl, List.forall₂_same.mpr fun p _ => ⟨p.lastDirectRx, rfl, Or.inl rfl⟩⟩
  | reached l₁ l₂ p hl out h t ht =>
    obtain ⟨h_state, h_events⟩ :=
      Peer.answered_of_unauthentic h_restores h (h_un p (by simp [hl]))
    rw [h_state] at ht ⊢
    refine ⟨h_events, ?_⟩
    rw [hl]
    -- only the peer that was reached may differ
    refine forall₂_middle ?_ ?_ l₁ l₂
    · exact fun q => ⟨q.lastDirectRx, rfl, Or.inl rfl⟩
    · exact ⟨t, rfl, ht⟩

namespace PeerManager

/-- Looking a peer up, and handing it the response. -/
theorem updatePeer_respTurn (pm : PeerManager S) {direct : Bool} {payload : Bytes} {now : Instant}
    {c : Peer S → Bool} {f : Peer S → Turn S (Peer S)}
    (hf : ∀ p ∈ pm.peers, ∃ out t, p.Answered payload now out ∧
      (t = out.state.lastDirectRx ∨ direct = true ∧ t = now) ∧
      f p = (out.events, { out.state with lastDirectRx := t })) :
    RespTurn pm direct payload now (pm.updatePeer c f).1 (pm.updatePeer c f).2.peers := by
  unfold updatePeer
  rcases updateFirst_cases c f pm.peers with ⟨-, heq⟩ | ⟨l₁, p, l₂, hl, -, -, heq⟩
  · rw [heq]
    exact .nobody
  · obtain ⟨out, t, hans, ht, hfp⟩ := hf p (by simp [hl])
    rw [heq, hfp]
    exact .reached l₁ l₂ p hl out hans t ht

/-- **The response branches** of both dispatchers. -/
theorem step_resp (pm : PeerManager S) (hasRelay : Bool) (now : Instant) {task : DaemonTask S}
    {payload : Bytes} (h_magic : ∀ p ∈ pm.peers, p.magic = pm.magic)
    (h_type : pm.magic.handshakeResp ≠ pm.magic.handshakeInit)
    (h : task.Brings pm.magic.handshakeResp payload) :
    RespTurn pm task.direct payload now (pm.step hasRelay now task).1
      (pm.step hasRelay now task).2.peers := by
  have h_ans : ∀ p ∈ pm.peers, ∀ d, p.Answered payload now
      (p.handleHandshakePacket pm.localPriv pm.magic.handshakeResp payload d now) := by
    intro p hp d
    have hans := p.answered pm.localPriv payload d now (by rwa [h_magic p hp])
    rwa [h_magic p hp] at hans
  obtain ⟨addr, d, datagram, rfl, h_recv⟩ | ⟨fromKey, d, rfl⟩ := h
  · -- by UDP `last_direct_rx` is set whatever becomes of the response
    simp only [step, h_recv, udpPacket, if_neg h_type, if_true, udpResp]
    exact pm.updatePeer_respTurn fun p hp => ⟨_, now, h_ans p hp d, Or.inr ⟨rfl, rfl⟩, rfl⟩
  · simp only [step, relayedPacket, if_neg h_type, if_true]
    exact pm.updatePeer_respTurn fun p hp => ⟨_, _, h_ans p hp d, Or.inl rfl, rfl⟩

end PeerManager

/-! ### Handshake packets from the network

The dispatchers read the first 96 bytes of an initiation and the first 48 of a response, which the
receive buffer has room for.
-/

/-- The buffer cuts nothing off the part of an initiation that is read. -/
theorem Snow.readInitiation_take (localPriv payload : Bytes) :
    S.readInitiation localPriv (payload.take 2047) = S.readInitiation localPriv payload := by
  simp only [readInitiation, List.take_take]
  rfl

theorem InitTurn.of_take {pm : PeerManager S} {source : Option SocketAddr} {payload : Bytes}
    {now : Instant} {es : List (Event S)} {l' : List (Peer S)}
    (h : InitTurn pm source (payload.take 2047) now es l') :
    InitTurn pm source payload now es l' := by
  cases h with
  | nobody => exact .nobody
  | reached l₁ l₂ p hl hs hr d out h dest =>
    rw [Snow.readInitiation_take] at hr
    exact .reached l₁ l₂ p hl hs hr d out h dest

/-- Only the first 48 bytes of a response count. -/
theorem Peer.Answered.congr {p : Peer S} {payload payload' : Bytes} {now : Instant}
    {out : Outcome S (Option Bytes) (Peer S)} (h_take : payload.take 48 = payload'.take 48)
    (h : p.Answered payload now out) : p.Answered payload' now out := by
  cases h with
  | idle h => exact .idle h
  | rejected hs hs' h hr => exact .rejected hs hs' h (by rwa [← h_take])
  | abandoned hs hs' h hr ht => exact .abandoned hs hs' h (by rwa [← h_take]) ht
  | completed hs hs' t h hr ht =>
    rw [h_take] at hr ⊢
    exact .completed hs hs' t h hr ht

theorem RespTurn.of_take {pm : PeerManager S} {direct : Bool} {payload : Bytes} {now : Instant}
    {es : List (Event S)} {l' : List (Peer S)}
    (h : RespTurn pm direct (payload.take 2047) now es l') :
    RespTurn pm direct payload now es l' := by
  cases h with
  | nobody => exact .nobody
  | reached l₁ l₂ p hl out h t ht =>
    have h_take : (payload.take 2047).take 48 = payload.take 48 := by
      rw [List.take_take]
      rfl
    exact .reached l₁ l₂ p hl out (h.congr h_take) t ht

/-- A packet from the network is received whole, or its first 2048 bytes are. -/
theorem DaemonTask.Delivers.brings {packetType : UInt8} {payload : Bytes} {task : DaemonTask S}
    (h : task.Delivers (packetType :: payload)) :
    task.Brings packetType payload ∨ task.Brings packetType (payload.take 2047) := by
  obtain ⟨addr, d, rfl⟩ | ⟨fromKey, d, rfl⟩ := h
  · exact Or.inr (Or.inl ⟨addr, d, _, rfl, recvFrom_cons packetType payload⟩)
  · exact Or.inl (Or.inr ⟨fromKey, d, rfl⟩)

namespace PeerManager

/-- The dispatcher's turn on an initiation by UDP. -/
theorem step_udp_init (pm : PeerManager S) (hasRelay : Bool) (now : Instant) (payload : Bytes)
    (addr : SocketAddr) (d : Draw S) :
    pm.step hasRelay now (.udp (pm.magic.handshakeInit :: payload) addr d) =
      pm.udpInit payload addr d now := by
  simp only [step, recvFrom_cons, udpPacket, if_true, udpInit, Snow.readInitiation_take]

/-- **The initiation branches**, for what was sent rather than what was received. -/
theorem step_init_delivered (pm : PeerManager S) (hasRelay : Bool) (now : Instant)
    {task : DaemonTask S} {payload : Bytes}
    (h : task.Delivers (pm.magic.handshakeInit :: payload)) :
    InitTurn pm task.source payload now (pm.step hasRelay now task).1
      (pm.step hasRelay now task).2.peers := by
  rcases h.brings with h | h
  · exact pm.step_init hasRelay now h
  · exact (pm.step_init hasRelay now h).of_take

/-- **The response branches**, for what was sent rather than what was received. -/
theorem step_resp_delivered (pm : PeerManager S) (hasRelay : Bool) (now : Instant)
    {task : DaemonTask S} {payload : Bytes} (h_magic : ∀ p ∈ pm.peers, p.magic = pm.magic)
    (h_type : pm.magic.handshakeResp ≠ pm.magic.handshakeInit)
    (h : task.Delivers (pm.magic.handshakeResp :: payload)) :
    RespTurn pm task.direct payload now (pm.step hasRelay now task).1
      (pm.step hasRelay now task).2.peers := by
  rcases h.brings with h | h
  · exact pm.step_resp hasRelay now h_magic h_type h
  · exact (pm.step_resp hasRelay now h_magic h_type h).of_take

end PeerManager

/-! ### The turn of any packet -/

/-- What becomes of a packet. -/
inductive Handled (pm : PeerManager S) (task : DaemonTask S) (now : Instant) (packet : Bytes)
    (es : List (Event S)) (l' : List (Peer S)) : Prop
  | initiation (payload : Bytes) (hp : packet = pm.magic.handshakeInit :: payload)
      (h : InitTurn pm task.source payload now es l')
  | response (payload : Bytes) (hp : packet = pm.magic.handshakeResp :: payload)
      (h_type : pm.magic.handshakeResp ≠ pm.magic.handshakeInit)
      (h : RespTurn pm task.direct payload now es l')
  | data (payload : Bytes) (hp : packet = pm.magic.data :: payload)
      (h_data : task.BringsData pm.magic payload)
      (h : DataTurn (·.SentBy task) payload now pm.peers es l')
  | ignored (h : es = []) (h_peers : l' = pm.peers)

/-- **Every packet is handled by the branch of its type**, on either path. -/
theorem PeerManager.handled (pm : PeerManager S) (hasRelay : Bool) (now : Instant)
    {task : DaemonTask S} {packet : Bytes} (h_magic : ∀ p ∈ pm.peers, p.magic = pm.magic)
    (h : task.Carries packet) :
    Handled pm task now packet (pm.step hasRelay now task).1
      (pm.step hasRelay now task).2.peers := by
  cases packet with
  | nil =>
    obtain ⟨addr, d, datagram, rfl, h_recv⟩ | ⟨fromKey, d, rfl⟩ := h
    · simp only [step, h_recv, udpPacket]
      exact .ignored rfl rfl
    · exact .ignored rfl rfl
  | cons packetType payload =>
    -- in the order the dispatchers look for the types
    by_cases h₁ : packetType = pm.magic.handshakeInit
    · subst h₁
      exact .initiation payload rfl (pm.step_init hasRelay now h)
    by_cases h₂ : packetType = pm.magic.handshakeResp
    · subst h₂
      exact .response payload rfl h₁ (pm.step_resp hasRelay now h_magic h₁ h)
    by_cases h₃ : packetType = pm.magic.data
    · subst h₃
      exact .data payload rfl ⟨h₁, h₂, h⟩ (pm.step_data hasRelay now ⟨h₁, h₂, h⟩)
    obtain ⟨addr, d, datagram, rfl, h_recv⟩ | ⟨fromKey, d, rfl⟩ := h
    · simp only [step, h_recv, udpPacket, if_neg h₁, if_neg h₂, if_neg h₃]
      exact .ignored rfl rfl
    · simp only [step, relayedPacket, if_neg h₁, if_neg h₂, if_neg h₃]
      exact .ignored rfl rfl

/-- The events of a response's turn: the pending handshake of some peer read it. -/
theorem RespTurn.mem_events {pm : PeerManager S} {direct : Bool} {payload : Bytes} {now : Instant}
    {es : List (Event S)} {l' : List (Peer S)} (h : RespTurn pm direct payload now es l')
    {e : Event S} (he : e ∈ es) :
    ∃ hs t, (e = .answered hs (payload.take 48) ∨ e = .installed t) ∧
      .answered hs (payload.take 48) ∈ es := by
  cases h with
  | nobody => cases he
  | reached l₁ l₂ p hl out h =>
    cases h with
    | idle => cases he
    | rejected => cases he
    | abandoned => cases he
    | completed hs hs' t =>
      refine ⟨hs, t, ?_, List.mem_cons_self⟩
      simpa using he

/-- Only a data packet is opened. -/
theorem Handled.of_opened {pm : PeerManager S} {task : DaemonTask S} {now : Instant}
    {packet : Bytes} {es : List (Event S)} {l' : List (Peer S)}
    (h : Handled pm task now packet es l') {o : Opened S} (ho : .opened o ∈ es) :
    ∃ payload, packet = pm.magic.data :: payload ∧ task.BringsData pm.magic payload ∧
      ∃ (p : Peer S) (k : Slot) (s : ActiveSession S) (padded : Bytes),
        p.Admits payload now k s padded ∧
          o = ⟨truncatePlaintext padded, s.state, Peer.packetNonce payload⟩ := by
  cases h with
  -- the turn of a handshake packet opens nothing
  | initiation payload hp h =>
    rcases h.mem_events ho with ⟨t, h⟩ | ⟨_, _, h⟩
    · cases h
    · cases h
  | response payload hp h_type h =>
    obtain ⟨_, _, h | h, -⟩ := h.mem_events ho
    · cases h
    · cases h
  | data payload hp h_data h =>
    obtain ⟨p, -, -, k, s, padded, hadm, h | ⟨h, -⟩⟩ := h.events _ ho
    · exact ⟨payload, hp, h_data, p, k, s, padded, hadm, Event.opened.inj h⟩
    · cases h
  | ignored h =>
    rw [h] at ho
    cases ho

/-- Only a response is read by a pending handshake. -/
theorem Handled.of_answered {pm : PeerManager S} {task : DaemonTask S} {now : Instant}
    {packet : Bytes} {es : List (Event S)} {l' : List (Peer S)}
    (h : Handled pm task now packet es l') {hs : S.HandshakeState} {m : Bytes}
    (ha : .answered hs m ∈ es) :
    ∃ payload, packet = pm.magic.handshakeResp :: payload ∧
      pm.magic.handshakeResp ≠ pm.magic.handshakeInit ∧
      ∃ hs', .answered hs' (payload.take 48) ∈ es := by
  cases h with
  | initiation payload hp h =>
    rcases h.mem_events ha with ⟨t, h⟩ | ⟨_, _, h⟩
    · cases h
    · cases h
  | response payload hp h_type h =>
    obtain ⟨hs', _, -, ha⟩ := h.mem_events ha
    exact ⟨payload, hp, h_type, hs', ha⟩
  -- the turn of a data packet reads no response
  | data payload hp h_data h =>
    obtain ⟨p, -, -, k, s, padded, -, h | ⟨h, -⟩⟩ := h.events _ ha
    · cases h
    · cases h
  | ignored h =>
    rw [h] at ha
    cases ha

/-- A session that no pending handshake became was installed by an initiation. -/
theorem Handled.of_installed {pm : PeerManager S} {task : DaemonTask S} {now : Instant}
    {packet : Bytes} {es : List (Event S)} {l' : List (Peer S)}
    (h : Handled pm task now packet es l') {t : S.Transport} (ht : .installed t ∈ es)
    (h_not : ∀ hs m, .answered hs m ∉ es) :
    ∃ payload, packet = pm.magic.handshakeInit :: payload := by
  cases h with
  | initiation payload hp h => exact ⟨payload, hp⟩
  | response payload hp h_type h =>
    obtain ⟨hs, _, -, ha⟩ := h.mem_events ht
    exact absurd ha (h_not hs _)
  | data payload hp h_data h =>
    obtain ⟨p, -, -, k, s, padded, -, h | ⟨h, -⟩⟩ := h.events _ ht
    · cases h
    · cases h
  | ignored h =>
    rw [h] at ht
    cases ht

end AraxMesh
