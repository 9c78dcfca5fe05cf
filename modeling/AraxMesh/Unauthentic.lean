import AraxMesh.Turns

/-!
# Unauthentic packets

What the dispatchers do with a packet that is neither a valid initiation of a configured peer, nor
a valid response to a pending handshake, nor a ciphertext that authenticates under a session.

They should do nothing, and on every path but one they do: the response branch of the UDP
dispatcher sets `last_direct_rx` of the peer at the sender's address without looking at what
became of the response. `unauthentic_no_effect_iff` is the exact condition.
-/

namespace AraxMesh

open LTS FirstMatch

variable {S : Snow}

/-! ### Packet types of the peers -/

/-- A session step keeps a peer's packet types. -/
theorem SessionStep.magic {p p' : Peer S} {es : List (Event S)} (h : SessionStep p es p') :
    p'.magic = p.magic := by
  cases h with
  | touch h => exact h.magic
  | encrypt => exact p.setSlot_magic _ _
  | send => exact p.setSlot_magic _ _
  | opened => exact p.setSlot_magic _ _
  | _ => rfl

/-- In every state the daemon reaches, the peers have the packet types of the table. -/
theorem peers_magic {hasRelay : Bool} {pm : PeerManager S} (h : Reachable (daemon S hasRelay) pm) :
    ∀ p ∈ pm.peers, p.magic = pm.magic := by
  obtain ⟨pm₀, ls, h_init, h_run⟩ := h
  obtain ⟨h_magic, h_emits⟩ := daemon_emits h_run
  rw [h_magic]
  refine h_emits.invariant (fun l => ∀ p ∈ l, p.magic = pm₀.magic)
    (fun p hp => (h_init.table p hp).2.2.2) ?_
  intro l es l' ih hs
  -- peers are added with the packet types of the table
  cases hs with
  | peer l₁ l₂ h =>
    intro q hq
    rcases List.mem_append.mp hq with hq | hq
    · exact ih q (by simp [hq])
    rcases List.mem_cons.mp hq with rfl | hq
    · exact h.magic.trans (ih _ (by simp))
    · exact ih q (by simp [hq])
  | quiet => exact ih
  | remove h => exact fun p hp => ih p (h.subset hp)
  | add _ p _ _ _ hm =>
    intro q hq
    rcases List.mem_append.mp hq with hq | hq
    · exact ih q hq
    · obtain rfl := List.mem_singleton.mp hq
      exact hm

/-! ### Authentic packets -/

/-- The packet the task brings is authentic: a valid initiation of a configured peer, a valid
response to a pending handshake, or a ciphertext that authenticates under a session. -/
inductive PeerManager.Authentic (pm : PeerManager S) (now : Instant) (task : DaemonTask S) : Prop
  | initiation (payload : Bytes) (h : task.Brings pm.magic.handshakeInit payload)
      (hs : S.HandshakeState) (p : Peer S) (hp : p ∈ pm.peers)
      (hr : S.readInitiation pm.localPriv payload = some (hs, p.pubkey))
  | response (payload : Bytes) (h : task.Brings pm.magic.handshakeResp payload)
      (p : Peer S) (hp : p ∈ pm.peers) (hs : S.HandshakeState) (hhs : p.handshake = some hs)
      (hr : (S.readHandshake hs (payload.take 48)).1 = true)
  | data (payload : Bytes) (h : task.Brings pm.magic.data payload) (p : Peer S)
      (hp : p ∈ pm.peers) (k : Slot) (s : ActiveSession S) (padded : Bytes)
      (hauth : p.Authenticates payload now k s padded)

/-- A response by UDP, from the endpoint of a peer that has last been heard of directly at some
other time: the response branch will say that it has been heard of now. -/
def PeerManager.TouchesDirect (pm : PeerManager S) (now : Instant) (task : DaemonTask S) : Prop :=
  pm.magic.handshakeResp ≠ pm.magic.handshakeInit ∧
    ∃ payload addr d p, task.Receives (pm.magic.handshakeResp :: payload) addr d ∧
      pm.peers.find? (·.endpoint = some addr) = some p ∧ p.lastDirectRx ≠ now

namespace PeerManager

/-- **The response branch of the UDP dispatcher**, for a response that does not authenticate: it
changes `last_direct_rx` of the first peer at the sender's address and nothing else. -/
theorem udpResp_peers {pm : PeerManager S} {payload : Bytes} {addr : SocketAddr} {d : Draw S}
    {now : Instant} (h_restores : S.Restores) (h_magic : ∀ p ∈ pm.peers, p.magic = pm.magic)
    (h_type : pm.magic.handshakeResp ≠ pm.magic.handshakeInit)
    (h_un : ∀ p ∈ pm.peers, ∀ hs, p.handshake = some hs →
      (S.readHandshake hs (payload.take 48)).1 = false) :
    (pm.udpResp pm.magic.handshakeResp payload addr d now).2.peers = pm.peers ↔
      ∀ p, pm.peers.find? (·.endpoint = some addr) = some p → p.lastDirectRx = now := by
  unfold udpResp updatePeer
  rcases updateFirst_cases (fun p : Peer S => p.endpoint = some addr) (fun p =>
      let out := p.handleHandshakePacket pm.localPriv pm.magic.handshakeResp payload d now
      ((out.events, { out.state with lastDirectRx := now }) : Turn S (Peer S))) pm.peers
    with ⟨hnone, heq⟩ | ⟨l₁, p, l₂, hl, hc, hpre, heq⟩
  · rw [heq]
    refine iff_of_true rfl fun p hp => ?_
    have hc : decide (p.endpoint = some addr) = true :=
      List.find?_some (p := fun p : Peer S => decide (p.endpoint = some addr)) hp
    rw [hnone p (List.mem_of_find?_eq_some hp)] at hc
    cases hc
  · -- the first peer at the address: its response branch runs, and does nothing else
    have hp : p ∈ pm.peers := by simp [hl]
    have hfind : pm.peers.find? (·.endpoint = some addr) = some p := by
      rw [hl, List.find?_append, List.find?_eq_none.mpr (by simpa using hpre)]
      simp [hc]
    have hans := p.answered pm.localPriv payload d now (by rwa [h_magic p hp])
    rw [h_magic p hp] at hans
    have hstate := (Peer.answered_of_unauthentic h_restores hans (h_un p hp)).1
    rw [heq]
    dsimp only
    rw [hfind, hstate, hl]
    -- what is left is whether `last_direct_rx` was now already
    constructor
    · intro h q hq
      obtain rfl := Option.some.inj hq
      have h := (List.cons.inj (List.append_cancel_left h)).1
      exact (congrArg Peer.lastDirectRx h).symm
    · intro h
      rw [← h p rfl]

/-- An initiation that is not authentic reaches nobody, on either path. -/
theorem init_peers (pm : PeerManager S) (hasRelay : Bool) {now : Instant} {task : DaemonTask S}
    {payload : Bytes} (hb : task.Brings pm.magic.handshakeInit payload)
    (h_un : ¬ pm.Authentic now task) : (pm.step hasRelay now task).2.peers = pm.peers := by
  have h := pm.step_init hasRelay now hb
  generalize (pm.step hasRelay now task).1 = es, (pm.step hasRelay now task).2.peers = l at h ⊢
  cases h with
  | nobody => rfl
  | reached l₁ l₂ p hl hs hr =>
    exact absurd (.initiation payload hb hs p (by simp [hl]) hr) h_un

/-- A response that is not authentic changes nobody when it comes through the relay. -/
theorem relayedResp_peers (pm : PeerManager S) (hasRelay : Bool) {now : Instant}
    {task : DaemonTask S} {payload : Bytes} (h_restores : S.Restores)
    (h_magic : ∀ p ∈ pm.peers, p.magic = pm.magic)
    (h_type : pm.magic.handshakeResp ≠ pm.magic.handshakeInit) (h_direct : task.direct = false)
    (hb : task.Brings pm.magic.handshakeResp payload)
    (h_un : ∀ p ∈ pm.peers, ∀ hs, p.handshake = some hs →
      (S.readHandshake hs (payload.take 48)).1 = false) :
    (pm.step hasRelay now task).2.peers = pm.peers := by
  have h := pm.step_resp hasRelay now h_magic h_type hb
  generalize (pm.step hasRelay now task).1 = es, (pm.step hasRelay now task).2.peers = l at h ⊢
  cases h with
  | nobody => rfl
  | reached l₁ l₂ p hl out h t ht =>
    obtain ⟨h_state, -⟩ := Peer.answered_of_unauthentic h_restores h (h_un p (by simp [hl]))
    obtain rfl : t = out.state.lastDirectRx := by simpa [h_direct] using ht
    rw [h_state, hl]

/-- A data packet that is not authentic changes nobody. -/
theorem data_peers (pm : PeerManager S) (hasRelay : Bool) {now : Instant} {task : DaemonTask S}
    {payload : Bytes} (hb : task.BringsData pm.magic payload) (h_un : ¬ pm.Authentic now task) :
    (pm.step hasRelay now task).2.peers = pm.peers := by
  refine ((pm.step_data hasRelay now hb).idle ?_).2
  rintro p hp ⟨k, s, padded, hadm⟩
  exact h_un (.data payload hb.2.2 p hp k s padded hadm.toAuthenticates)

end PeerManager

namespace PeerManager

/-- A packet that is not authentic is read by no pending handshake. -/
theorem unread_of_unauthentic {pm : PeerManager S} {now : Instant} {task : DaemonTask S}
    (h_un : ¬ pm.Authentic now task) {payload : Bytes}
    (h_brings : task.Brings pm.magic.handshakeResp payload) :
    ∀ p ∈ pm.peers, ∀ hs, p.handshake = some hs →
      (S.readHandshake hs (payload.take 48)).1 = false := by
  intro p hp hs hhs
  by_contra hr
  exact h_un (.response payload h_brings p hp hs hhs (by simpa using hr))

/-- Only the response branch touches anything. -/
theorem touchesDirect_udp_iff (pm : PeerManager S) (now : Instant) {datagram : Bytes}
    {packetType : UInt8} {payload : Bytes} (addr : SocketAddr) (d : Draw S)
    (h_recv : recvFrom datagram = packetType :: payload) :
    pm.TouchesDirect now (.udp datagram addr d) ↔
      packetType = pm.magic.handshakeResp ∧ packetType ≠ pm.magic.handshakeInit ∧
        ∃ p, pm.peers.find? (·.endpoint = some addr) = some p ∧ p.lastDirectRx ≠ now := by
  constructor
  · rintro ⟨h_ne, payload', addr', d', p, ⟨datagram', h_task, h_recv'⟩, hp⟩
    cases h_task
    obtain ⟨rfl, -⟩ := List.cons.inj (h_recv.symm.trans h_recv')
    exact ⟨rfl, h_ne, p, hp⟩
  · rintro ⟨rfl, h_ne, p, hp⟩
    exact ⟨h_ne, payload, addr, d, p, ⟨datagram, rfl, h_recv⟩, hp⟩

/-- The relay has no sender's address. -/
theorem not_touchesDirect_relayed (pm : PeerManager S) (now : Instant) (fromKey packet : Bytes)
    (d : Draw S) : ¬ pm.TouchesDirect now (.relayed fromKey packet d) := by
  rintro ⟨-, payload, addr, d', p, ⟨datagram, h_task, -⟩, -⟩
  cases h_task

/-- On the relay's path, a packet that is not authentic changes no peer. -/
theorem relayed_peers {hasRelay : Bool} {pm : PeerManager S} {now : Instant}
    {fromKey packet : Bytes} {d : Draw S} (h_restores : S.Restores)
    (h_magic : ∀ p ∈ pm.peers, p.magic = pm.magic)
    (h_un : ¬ pm.Authentic now (.relayed fromKey packet d)) :
    (pm.step hasRelay now (.relayed fromKey packet d)).2.peers = pm.peers := by
  cases packet with
  | nil => rfl
  | cons packetType payload =>
    by_cases h₁ : packetType = pm.magic.handshakeInit
    · subst h₁
      exact pm.init_peers hasRelay (Or.inr ⟨fromKey, d, rfl⟩) h_un
    by_cases h₂ : packetType = pm.magic.handshakeResp
    · subst h₂
      have hb : DaemonTask.Brings pm.magic.handshakeResp payload
          (.relayed fromKey (pm.magic.handshakeResp :: payload) d : DaemonTask S) :=
        Or.inr ⟨fromKey, d, rfl⟩
      exact pm.relayedResp_peers hasRelay h_restores h_magic h₁ rfl hb
        (unread_of_unauthentic h_un hb)
    by_cases h₃ : packetType = pm.magic.data
    · subst h₃
      exact pm.data_peers hasRelay ⟨h₁, h₂, Or.inr ⟨fromKey, d, rfl⟩⟩ h_un
    · -- a probe, or of no known type
      simp only [step, relayedPacket, if_neg h₁, if_neg h₂, if_neg h₃]

end PeerManager

/-- **Exactly when unauthentic traffic has no effect.** In every state the daemon reaches, a packet
that is not authentic leaves every field of every peer unchanged if and only if it is not a UDP
datagram of the response type from the endpoint of a peer whose `last_direct_rx` is not already
now. -/
theorem unauthentic_no_effect_iff {hasRelay : Bool} {pm : PeerManager S} {now : Instant}
    {task : DaemonTask S} (h_restores : S.Restores) (h_reach : Reachable (daemon S hasRelay) pm)
    (h_in : task.Inbound) (h_un : ¬ pm.Authentic now task) :
    (pm.step hasRelay now task).2.peers = pm.peers ↔ ¬ pm.TouchesDirect now task := by
  have h_magic := peers_magic h_reach
  obtain ⟨datagram, addr, d, rfl⟩ | ⟨fromKey, packet, d, rfl⟩ := h_in
  · cases h_recv : recvFrom datagram with
    | nil =>
      refine iff_of_true ?_ ?_
      · rw [PeerManager.step, h_recv]
        rfl
      · rintro ⟨-, payload, addr', d', p, ⟨datagram', h_task, h_recv'⟩, -⟩
        cases h_task
        cases h_recv.symm.trans h_recv'
    | cons packetType payload =>
      rw [pm.touchesDirect_udp_iff now addr d h_recv]
      have hb : DaemonTask.Brings packetType payload (.udp datagram addr d : DaemonTask S) :=
        Or.inl ⟨addr, d, datagram, rfl, h_recv⟩
      by_cases h₁ : packetType = pm.magic.handshakeInit
      · subst h₁
        exact iff_of_true (pm.init_peers hasRelay hb h_un) fun h => h.2.1 rfl
      by_cases h₂ : packetType = pm.magic.handshakeResp
      · -- the time is set, whatever it was
        subst h₂
        have h_step : pm.step hasRelay now (.udp datagram addr d) =
            pm.udpResp pm.magic.handshakeResp payload addr d now := by
          simp only [PeerManager.step, h_recv, PeerManager.udpPacket, if_neg h₁, if_true]
        have h_unread := PeerManager.unread_of_unauthentic h_un hb
        rw [h_step, PeerManager.udpResp_peers h_restores h_magic h₁ h_unread]
        simp only [true_and, ne_eq, h₁, not_false_eq_true, not_exists, not_and, not_not]
      refine iff_of_true ?_ fun h => h₂ h.1
      by_cases h₃ : packetType = pm.magic.data
      · subst h₃
        exact pm.data_peers hasRelay ⟨h₁, h₂, hb⟩ h_un
      · -- a probe, or of no known type
        simp only [PeerManager.step, h_recv, PeerManager.udpPacket, if_neg h₁, if_neg h₂,
          if_neg h₃]
  · exact iff_of_true (PeerManager.relayed_peers h_restores h_magic h_un)
      (pm.not_touchesDirect_relayed now fromKey packet d)

/-! ### A spoofed response -/

namespace Symbolic

/-- A datagram of the response type and nothing else, from the peer's address. -/
def spoofedResponse : DaemonTask symbolic :=
  .udp [MagicConfig.default.handshakeResp] peerAddr (draw 1)

theorem spoofedResponse_not_authentic (now : Instant) : ¬ node.Authentic now spoofedResponse := by
  -- it is of the type of a response
  have h_type : ∀ {packetType : UInt8} {payload : Bytes},
      spoofedResponse.Brings packetType payload →
        packetType = MagicConfig.default.handshakeResp := by
    rintro packetType payload (⟨addr, d, datagram, h_task, h_recv⟩ | ⟨fromKey, d, h_task⟩)
    · obtain ⟨rfl, -⟩ := DaemonTask.udp.inj h_task
      exact (List.cons.inj h_recv).1.symm
    · cases h_task
  rintro (⟨payload, h, -⟩ | ⟨payload, h, p, hp, hs, hhs, -⟩ | ⟨payload, h, -⟩)
  · exact absurd (h_type h) (by decide)
  · -- the peer has no handshake pending
    obtain rfl : p = _ := List.mem_singleton.mp hp
    cases hhs
  · exact absurd (h_type h) (by decide)

end Symbolic

open Symbolic in
/-- The condition at a spoofed response. -/
theorem unauthentic_no_effect_iff_spoofed :
    (node.step false 5 spoofedResponse).2.peers = node.peers ↔
      ¬ node.TouchesDirect 5 spoofedResponse :=
  unauthentic_no_effect_iff restores ⟨node, [], node_initial, Exec.refl⟩
    (Or.inl ⟨_, _, _, rfl⟩) (spoofedResponse_not_authentic 5)

open Symbolic in
/-- An unauthentic packet can have an effect: a spoofed response makes `last_direct_rx` now. -/
theorem unauthentic_has_effect :
    ¬ ∀ (pm : PeerManager symbolic) (now : Instant) (task : DaemonTask symbolic),
      Reachable (daemon symbolic false) pm → task.Inbound → ¬ pm.Authentic now task →
        (pm.step false now task).2.peers = pm.peers := by
  intro h
  have h_same := h node 5 spoofedResponse ⟨node, [], node_initial, Exec.refl⟩
    (Or.inl ⟨_, _, _, rfl⟩) (spoofedResponse_not_authentic 5)
  have h_direct := congrArg (List.map Peer.lastDirectRx) h_same
  exact absurd h_direct (by decide +kernel)

end AraxMesh
