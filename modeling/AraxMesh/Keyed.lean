import AraxMesh.PendingHandshakes

/-!
# Whose session it is

A session is made by a handshake between two static keys: that of the node and that of the peer it
is for. `Snow.Made` says which transport states such a handshake gives, on either side.

Neither `ActiveSession` nor the transport state names a key in the code, so nothing but the place a
session is kept in says whose it is. `keyed_of_reachable` is the invariant that makes the place
right: in every state the daemon reaches, the sessions of a peer are made with the key of that
peer, although a responder learns the key from the initiation and looks for the peer by it, an
initiator answers by endpoint on one path and by relay key on the other, and a poll moves peers
about.

Most of what happens to a peer makes no session. That is `Sheds`: the key stays, and a session that
is there afterwards was there before. It holds of all the node does of its own, as an instance of
`Makes`, and of data packets, as an instance of `Shares`. What is left are the two branches that
make one (`Responded.keyed`, `Answered.keyed`): the responder goes by the key it has read, and the
initiator by its pending handshake, which was begun to the key of the peer it is kept for
(`Peer.Sound`).
-/

namespace AraxMesh

open LTS FirstMatch

variable {S : Snow}

namespace Snow

/-- The node with this private key has the session `t` with the owner of the public key. -/
inductive Made (S : Snow) (localPriv remotePub : Bytes) : S.Transport → Prop
  /-- The node has read the key in an initiation, and has answered. -/
  | responder (payload : Bytes) (hs : S.HandshakeState) (eph : S.Eph) (msg : Bytes)
      (t : S.Transport) (h_read : S.readInitiation localPriv payload = some (hs, remotePub))
      (h_write : S.writeResponse hs eph = some (msg, t)) : Made S localPriv remotePub t
  /-- The node has begun a handshake to the key, and has read an answer. -/
  | initiator (msg : Bytes) (hs : S.HandshakeState) (m : Bytes) (hs' : S.HandshakeState)
      (t : S.Transport) (h_pending : S.Pending localPriv remotePub msg hs)
      (h_read : S.readHandshake hs m = (true, hs')) (h_into : S.intoTransport hs' = some t) :
      Made S localPriv remotePub t

end Snow

namespace Peer

/-- The sessions of the peer are made with its key. -/
def Keyed (localPriv : Bytes) (p : Peer S) : Prop :=
  ∀ t ∈ p.live, S.Made localPriv p.pubkey t

/-- Nothing is added to the sessions of a peer. -/
structure Sheds (p q : Peer S) : Prop where
  pubkey : q.pubkey = p.pubkey
  live : ∀ t ∈ q.live, t ∈ p.live

theorem Sheds.refl (p : Peer S) : p.Sheds p := ⟨rfl, fun _ h => h⟩

theorem Sheds.trans {p q r : Peer S} (h : p.Sheds q) (h' : q.Sheds r) : p.Sheds r :=
  ⟨h'.pubkey.trans h.pubkey, fun t ht => h.live t (h'.live t ht)⟩

/-- A peer that only loses sessions keeps those made with its key. -/
theorem Keyed.sheds {localPriv : Bytes} {p q : Peer S} (h : p.Keyed localPriv) (hq : p.Sheds q) :
    q.Keyed localPriv := by
  intro t ht
  rw [hq.pubkey]
  exact h t (hq.live t ht)

/-- A peer that survives a poll has the sessions it had. -/
theorem Survives.sheds {p q : Peer S} (h : p.Survives q) : p.Sheds q := by
  refine ⟨h.pubkey, fun t ht => ?_⟩
  rwa [Peer.live, h.active, h.previous] at ht

/-- The same sessions, with other counters. -/
theorem sheds_setSlot {p : Peer S} {k : Slot} {s s' : ActiveSession S} (h : p.slot k = some s)
    (hs : s'.state = s.state) : p.Sheds (p.setSlot k s') := by
  refine ⟨by cases k <;> rfl, fun t ht => ?_⟩
  rwa [live_setSlot h hs] at ht

/-! ### What the node does of its own -/

/-- The machine whose steps add nothing. -/
def shedding (S : Snow) : System (Peer S) (List (Event S)) where
  init _ := True
  step p _ q := p.Sheds q

/-- Along a run nothing is added either. -/
theorem sheds_of_emits {p q : Peer S} {es : List (Event S)} (h : Emits (shedding S) p es q) :
    p.Sheds q :=
  h.invariant (fun r => p.Sheds r) (.refl p) fun _ _ _ hp hs => hp.trans hs

/-- **Nothing a node does of its own makes a session**: what it begins is a handshake. -/
theorem makes_shedding : Makes (shedding S) where
  forget p := by
    refine .single ⟨rfl, fun t ht => ?_⟩
    exact Multiset.mem_add.mpr (Or.inl (by simpa [Peer.live] using ht))
  clear p := .single ⟨rfl, fun t ht => absurd ht (by simp [Peer.live])⟩
  initiate p localPriv hasRelay d now _ := by
    have h := p.initiated localPriv d now
    unfold initiateAndSend
    generalize p.initiateHandshake localPriv d now = out at h ⊢
    cases h with
    | failed => exact .single (.refl p)
    | begun => exact .single ⟨rfl, fun _ ht => ht⟩
  encrypt p payload hasRelay d now := by
    have h := p.encrypted payload d now
    unfold encryptAndSend
    generalize p.encryptPacket payload d now = out at h ⊢
    cases h with
    | inactive => exact .single (.refl p)
    | failed s h => exact .single (sheds_setSlot (k := .active) h (advance_state s _))
    | sent s ciphertext h =>
      have h_slot := sheds_setSlot (k := .active) h (advance_state s payload.length)
      exact .single (show p.Sheds _ from ⟨h_slot.pubkey, h_slot.live⟩)
  resend p dest now := .single ⟨rfl, fun _ ht => ht⟩

/-! ### What a packet does -/

/-- Opening a packet counts it in the session, and makes no other one. -/
theorem acceptData_sheds (p : Peer S) (payload : Bytes) (now : Instant) :
    p.Sheds (p.acceptData payload now).state := by
  have h := p.accepted payload now
  generalize p.acceptData payload now = out at h ⊢
  cases h with
  | ignored => exact .refl p
  | opened k s padded w h_admits =>
    have h_slot := sheds_setSlot h_admits.honours.1 (s.accept_state w payload.length)
    exact ⟨h_slot.pubkey, h_slot.live⟩

/-- A session switch to a session that is made with the key of the peer. -/
theorem Keyed.install {localPriv : Bytes} {p : Peer S} (h : p.Keyed localPriv) {t : S.Transport}
    (ht : S.Made localPriv p.pubkey t) (now : Instant) : (p.install t now).Keyed localPriv := by
  intro t' ht'
  show S.Made localPriv p.pubkey t'
  have h_mem := Multiset.mem_of_le (p.live_install_le t now) ht'
  rcases Multiset.mem_add.mp h_mem with h_new | h_old
  · rwa [Multiset.mem_singleton.mp h_new]
  · exact h t' h_old

/-- A responder that has read the key of the peer in the initiation. -/
theorem Responded.keyed {localPriv payload : Bytes} {p : Peer S} {hs : S.HandshakeState}
    {magic : MagicConfig} {d : Draw S} {now : Instant} {out : Outcome S (Option Bytes) (Peer S)}
    (h : p.Responded hs magic d now out) (h_keyed : p.Keyed localPriv)
    (hr : S.readInitiation localPriv payload = some (hs, p.pubkey)) :
    out.state.Keyed localPriv := by
  cases h with
  | failed => exact h_keyed
  | installed msg t hw => exact h_keyed.install (.responder payload hs d.eph msg t hr hw) now

/-- An initiator whose pending handshake is with the peer. -/
theorem Answered.keyed {localPriv payload : Bytes} {p : Peer S} {now : Instant}
    {out : Outcome S (Option Bytes) (Peer S)} (h : p.Answered payload now out)
    (h_sound : p.Sound localPriv) (h_keyed : p.Keyed localPriv) : out.state.Keyed localPriv := by
  cases h with
  | idle => exact h_keyed
  | rejected => exact h_keyed
  | abandoned => exact h_keyed
  | completed hs hs' t h_pending h_read h_into =>
    -- the handshake that pends was begun to the key of the peer
    rcases h_sound.handshake with h_idle | ⟨hs₁, attempt, packet, h_dials⟩
    · exact absurd (h_idle.handshake.symm.trans h_pending) nofun
    · obtain rfl := Option.some.inj (h_dials.handshake.symm.trans h_pending)
      obtain ⟨msg, -, h_written, -⟩ := h_dials.written
      exact h_keyed.install (.initiator msg _ _ hs' t h_written h_read h_into) now

end Peer

/-! ### The table -/

namespace PeerManager

variable {pm : PeerManager S}

/-- A turn in which no peer gets a session. -/
theorem keyed_of_forall₂ {localPriv : Bytes} {l l' : List (Peer S)}
    (h : List.Forall₂ Peer.Sheds l l') (h_keyed : ∀ p ∈ l, p.Keyed localPriv) :
    ∀ q ∈ l', q.Keyed localPriv := by
  intro q hq
  obtain ⟨p, hp, h_sheds⟩ := forall₂_mem_right h hq
  exact (h_keyed p hp).sheds h_sheds

/-- One peer of the table is replaced. -/
theorem keyed_replace {localPriv : Bytes} {l₁ l₂ : List (Peer S)} {p q : Peer S}
    (h_keyed : ∀ r ∈ l₁ ++ p :: l₂, r.Keyed localPriv) (hq : q.Keyed localPriv) :
    ∀ r ∈ l₁ ++ q :: l₂, r.Keyed localPriv := by
  intro r hr
  rcases List.mem_append.mp hr with hr | hr
  · exact h_keyed r (by simp [hr])
  rcases List.mem_cons.mp hr with rfl | hr
  · exact hq
  · exact h_keyed r (by simp [hr])

/-- A data packet adds nothing to the sessions of anybody, on either path. -/
theorem step_data_sheds (pm : PeerManager S) (hasRelay : Bool) (now : Instant)
    {task : DaemonTask S} {payload : Bytes} (h : task.BringsData pm.magic payload) :
    List.Forall₂ Peer.Sheds pm.peers (pm.step hasRelay now task).2.peers := by
  obtain ⟨h_init, h_resp, ⟨addr, d, datagram, rfl, h_recv⟩ | ⟨fromKey, d, rfl⟩⟩ := h
  · rw [step_received_data h_init h_resp hasRelay now h_recv]
    exact pm.udpData_forall₂ addr .refl (fun _ _ _ => .trans)
      (fun p => p.acceptData_sheds payload now) (fun _ => ⟨rfl, fun _ ht => ht⟩)
      (fun _ => ⟨rfl, fun _ ht => ht⟩)
  · rw [step_relayed_data h_init h_resp]
    exact pm.updatePeer_forall₂ .refl fun p _ => p.acceptData_sheds payload now

/-- An initiation is answered for the peer whose key it names. -/
theorem InitTurn.keyed {source : Option SocketAddr} {payload : Bytes} {now : Instant}
    {es : List (Event S)} {l' : List (Peer S)} (h : InitTurn pm source payload now es l')
    (h_keyed : ∀ p ∈ pm.peers, p.Keyed pm.localPriv) : ∀ q ∈ l', q.Keyed pm.localPriv := by
  cases h with
  | nobody => exact h_keyed
  | reached l₁ l₂ p hl hs hr d out h dest =>
    rw [hl] at h_keyed
    have hp : p.Keyed pm.localPriv := h_keyed p (by simp)
    -- noting the address of the peer leaves its key and its sessions alone
    have h_noted : (p.noted source now).Keyed pm.localPriv ∧
        (p.noted source now).pubkey = p.pubkey := by
      cases source with
      | none => exact ⟨hp, rfl⟩
      | some addr => exact ⟨fun t ht => hp t ht, rfl⟩
    exact keyed_replace h_keyed (h.keyed h_noted.1 (h_noted.2 ▸ hr))

/-- A response is read by the pending handshake of the peer it reaches, whoever sent it. -/
theorem RespTurn.keyed {direct : Bool} {payload : Bytes} {now : Instant} {es : List (Event S)}
    {l' : List (Peer S)} (h : RespTurn pm direct payload now es l')
    (h_sound : ∀ p ∈ pm.peers, p.Sound pm.localPriv)
    (h_keyed : ∀ p ∈ pm.peers, p.Keyed pm.localPriv) : ∀ q ∈ l', q.Keyed pm.localPriv := by
  cases h with
  | nobody => exact h_keyed
  | reached l₁ l₂ p hl out h t ht =>
    have h_out := h.keyed (h_sound p (by simp [hl])) (h_keyed p (by simp [hl]))
    rw [hl] at h_keyed
    exact keyed_replace h_keyed fun t ht => h_out t ht

/-- A packet that comes in, by either path. -/
theorem inbound_keyed (hasRelay : Bool) (now : Instant) {task : DaemonTask S} {packet : Bytes}
    (h : task.Carries packet) (h_magic : ∀ p ∈ pm.peers, p.magic = pm.magic)
    (h_sound : ∀ p ∈ pm.peers, p.Sound pm.localPriv)
    (h_keyed : ∀ p ∈ pm.peers, p.Keyed pm.localPriv) :
    ∀ q ∈ (pm.step hasRelay now task).2.peers, q.Keyed pm.localPriv := by
  cases pm.handled hasRelay now h_magic h with
  | initiation payload hp h => exact InitTurn.keyed h h_keyed
  | response payload hp h_type h => exact RespTurn.keyed h h_sound h_keyed
  | data payload hp h_data h =>
    exact keyed_of_forall₂ (pm.step_data_sheds hasRelay now h_data) h_keyed
  -- a packet of no known type
  | ignored h h_peers => rwa [h_peers]

/-- **A turn of any task keeps every session with the peer it was made for.** -/
theorem step_keyed (hasRelay : Bool) (now : Instant) (task : DaemonTask S)
    (h_magic : ∀ p ∈ pm.peers, p.magic = pm.magic)
    (h_sound : ∀ p ∈ pm.peers, p.Sound pm.localPriv)
    (h_keyed : ∀ p ∈ pm.peers, p.Keyed pm.localPriv) :
    ∀ q ∈ (pm.step hasRelay now task).2.peers, q.Keyed pm.localPriv := by
  cases task with
  | timer draws =>
    have h_share : ∀ (p : Peer S) d d', p.Sheds (p.timer pm.localPriv hasRelay d d' now).2 :=
      fun p d d' => Peer.sheds_of_emits
        (Peer.makes_shedding.timer p pm.localPriv hasRelay d d' now)
    exact keyed_of_forall₂ (timerPeers_forall₂ h_share draws 0 pm.peers) h_keyed
  | tun packet d =>
    simp only [step, tunPacket]
    split
    · exact h_keyed
    split
    · exact h_keyed
    split
    · exact h_keyed
    · next p hp =>
      refine keyed_of_forall₂ (forall₂_set .refl hp ?_) h_keyed
      exact Peer.sheds_of_emits
        (Peer.makes_shedding.sendPacket p pm.localPriv packet hasRelay d now)
  | udp datagram addr d =>
    exact inbound_keyed hasRelay now (Or.inl ⟨addr, d, datagram, rfl, rfl⟩) h_magic h_sound h_keyed
  | relayed fromKey packet d =>
    exact inbound_keyed hasRelay now (Or.inr ⟨fromKey, d, rfl⟩) h_magic h_sound h_keyed
  | poll descriptors =>
    intro q hq
    -- after a poll there are peers that have survived it, and new ones behind them
    obtain ⟨old, new, h_peers, h_old, h_new⟩ := pm.syncPeers_split descriptors now
    rw [show (pm.step hasRelay now (.poll descriptors)).2.peers = old ++ new from h_peers] at hq
    rcases List.mem_append.mp hq with hq | hq
    · obtain ⟨p, hp, h_survives⟩ := forall₂_mem_right h_old hq
      have hp : p ∈ pm.peers := List.mem_of_mem_filter hp
      exact (h_keyed p hp).sheds h_survives.sheds
    · -- a new peer has no session
      intro t ht
      have h_less := (h_new q hq).1
      rw [Peer.live, h_less.active, h_less.previous] at ht
      exact absurd ht (Multiset.notMem_zero t)

/-- **In every state the daemon reaches, a session is made with the key of the peer it is kept
for.** -/
theorem keyed_of_reachable (h_completes : S.Completes) {hasRelay : Bool} {pm : PeerManager S}
    (h : Reachable (daemon S hasRelay) pm) : ∀ p ∈ pm.peers, p.Keyed pm.localPriv := by
  obtain ⟨pm₀, ls, h_init, h_run⟩ := h
  have h_reached : ∀ {ms u}, Exec (daemon S hasRelay) pm₀ ms u → Reachable (daemon S hasRelay) u :=
    fun h => ⟨pm₀, _, h_init, h⟩
  refine h_run.induct (fun _ u => ∀ p ∈ u.peers, p.Keyed u.localPriv) ?_ ?_
  · intro p hp t ht
    obtain ⟨k, s, hs, -⟩ := Peer.mem_live.mp ht
    exact absurd ((slot_of_init h_init.table hp k).symm.trans hs) nofun
  · intro pre u l v h_pre h_keyed h_step
    obtain rfl : (u.step hasRelay l.now l.task).2 = v := congrArg Prod.snd h_step
    rw [(u.step_config hasRelay l.now l.task).1]
    exact step_keyed hasRelay l.now l.task (peers_magic (h_reached h_pre))
      (sound_of_reachable h_completes (h_reached h_pre)) h_keyed

end PeerManager
end AraxMesh
