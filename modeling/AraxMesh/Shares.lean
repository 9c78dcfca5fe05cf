import AraxMesh.DaemonSteps

/-!
# Each peer's share of a turn

A turn of any task but the poll leaves the peers where they are in the table. `PeerManager.Shares`
asks of a relation what each branch of the dispatchers does to one peer, and `Shares.step` says that
the relation then holds between each peer before the turn and the same peer after it: who goes
through the dispatchers peer by peer does it with this.

What a branch may assume is said there as well: which packet the task has brought, and of an
initiation that it names the key of the peer. Most branches go to the first peer that fits, and the
others are kept (`updatePeer_forall₂`). The data branch of the UDP dispatcher is asked as a whole,
since it may go over the table twice. A relation that is transitive is taken through it by
`udpData_forall₂`.
-/

namespace AraxMesh

open FirstMatch

variable {S : Snow}

/-- The relation holds of a peer and of what any branch for the task makes of it. -/
structure PeerManager.Shares (pm : PeerManager S) (hasRelay : Bool) (now : Instant)
    (task : DaemonTask S) (R : Peer S → Peer S → Prop) : Prop where
  refl : ∀ p, R p p
  timer : ∀ draws, task = .timer draws →
    ∀ p d d', R p (p.timer pm.localPriv hasRelay d d' now).2
  tun : ∀ packet d, task = .tun packet d →
    ∀ p, R p (p.sendPacket pm.localPriv packet hasRelay d now).2
  udpInit : ∀ payload addr d, task.Receives (pm.magic.handshakeInit :: payload) addr d →
    ∀ hs p, S.readInitiation pm.localPriv payload = some (hs, p.pubkey) →
      R p (p.respondTo hs pm.magic addr d now).2
  udpResp : ∀ packetType payload addr d, task.Receives (packetType :: payload) addr d →
    ∀ p, R p { (p.handleHandshakePacket pm.localPriv packetType payload d now).state with
      lastDirectRx := now }
  udpData : ∀ payload addr d, task.Receives (pm.magic.data :: payload) addr d →
    List.Forall₂ R pm.peers (pm.udpData payload addr now).2.peers
  relayedInit : ∀ fromKey packet d, task = .relayed fromKey packet d →
    ∀ hs p, R p (p.respond hs pm.magic d now).state
  relayedResp : ∀ fromKey packetType payload d, task = .relayed fromKey (packetType :: payload) d →
    ∀ p, R p (p.handleHandshakePacket pm.localPriv packetType payload d now).state
  relayedData : ∀ fromKey packetType payload d, task = .relayed fromKey (packetType :: payload) d →
    ∀ p, R p (p.acceptData payload now).state

namespace PeerManager

variable {pm : PeerManager S} {R : Peer S → Peer S → Prop}

/-- Only the peer that is found is changed. -/
theorem updatePeer_forall₂ (pm : PeerManager S) (h_refl : ∀ p, R p p) {c : Peer S → Bool}
    {f : Peer S → Turn S (Peer S)} (h : ∀ p, c p = true → R p (f p).2) :
    List.Forall₂ R pm.peers (pm.updatePeer c f).2.peers := by
  refine (updateFirst_forall₂ c f pm.peers).imp fun p q hpq => ?_
  rcases hpq with rfl | ⟨hc, rfl⟩
  · exact h_refl _
  · exact h p hc

/-- A tick goes over the whole table, and each peer has its share. -/
theorem timerPeers_forall₂ {localPriv : Bytes} {hasRelay : Bool} {now : Instant}
    (h : ∀ p d d', R p (p.timer localPriv hasRelay d d' now).2) (draws : ℕ → Draw S × Draw S)
    (idx : ℕ) (l : List (Peer S)) :
    List.Forall₂ R l (timerPeers localPriv hasRelay draws now idx l).2 := by
  induction l generalizing idx with
  | nil => exact .nil
  | cons p ps ih => exact .cons (h p _ _) (ih _)

/-- **Each peer's share of a turn.** -/
theorem Shares.step {hasRelay : Bool} {now : Instant} {task : DaemonTask S}
    (h : pm.Shares hasRelay now task R) (h_poll : ∀ descriptors, task ≠ .poll descriptors) :
    List.Forall₂ R pm.peers (pm.step hasRelay now task).2.peers := by
  have h_idle : List.Forall₂ R pm.peers pm.peers := List.forall₂_same.mpr fun p _ => h.refl p
  cases task with
  | timer draws => exact timerPeers_forall₂ (h.timer draws rfl) draws 0 pm.peers
  | tun packet d =>
    simp only [PeerManager.step, tunPacket]
    -- no IPv4 header, no route, or the peer with the longest prefix
    split
    · exact h_idle
    split
    · exact h_idle
    split
    · exact h_idle
    · next p hp => exact forall₂_set h.refl hp (h.tun packet d rfl p)
  | udp datagram addr d =>
    simp only [PeerManager.step]
    cases h_recv : recvFrom datagram with
    | nil => exact h_idle
    | cons packetType payload =>
      have h_task : (DaemonTask.udp datagram addr d).Receives (packetType :: payload) addr d :=
        ⟨datagram, rfl, h_recv⟩
      simp only [udpPacket]
      split_ifs with h_init h_resp h_data
      · subst h_init
        unfold PeerManager.udpInit
        split
        · exact h_idle
        · next hs remoteStatic h_read =>
          -- the peer that is found has the key of the initiation
          refine pm.updatePeer_forall₂ h.refl fun p hp => ?_
          obtain rfl : p.pubkey = remoteStatic := by simpa using hp
          exact h.udpInit payload addr d h_task hs p h_read
      · exact pm.updatePeer_forall₂ h.refl fun p _ => h.udpResp packetType payload addr d h_task p
      · subst h_data
        exact h.udpData payload addr d h_task
      · exact h_idle
  | relayed fromKey packet d =>
    cases packet with
    | nil => exact h_idle
    | cons packetType payload =>
      simp only [PeerManager.step, relayedPacket]
      split_ifs
      · unfold PeerManager.relayedInit
        split
        · exact h_idle
        split_ifs
        · exact h_idle
        · exact pm.updatePeer_forall₂ h.refl fun p _ => h.relayedInit fromKey _ d rfl _ p
      · exact pm.updatePeer_forall₂ h.refl fun p _ =>
          h.relayedResp fromKey packetType payload d rfl p
      · exact pm.updatePeer_forall₂ h.refl fun p _ =>
          h.relayedData fromKey packetType payload d rfl p
      · exact h_idle
  | poll descriptors => exact absurd rfl (h_poll descriptors)

end PeerManager

/-! ### Data packets by UDP -/

section Data

variable {R : Peer S → Peer S → Prop} {payload : Bytes} {now : Instant}

/-- The trial loop, for a relation that holds along what it does to a peer. -/
theorem trialDecrypt_forall₂ (addr : SocketAddr) (h_refl : ∀ p, R p p)
    (h_trans : ∀ p q r, R p q → R q r → R p r)
    (h_accept : ∀ p : Peer S, R p (p.acceptData payload now).state)
    (h_heard : ∀ p : Peer S, R p { p with endpoint := some addr, lastDirectRx := now })
    (l : List (Peer S)) : List.Forall₂ R l (trialDecrypt addr payload now l).state := by
  induction l with
  | nil => exact .nil
  | cons p ps ih =>
    unfold trialDecrypt
    split_ifs
    · -- a peer that is recorded at the address was tried before
      exact .cons (h_refl p) ih
    · dsimp only
      split
      · -- this peer accepts, and the others are left alone
        exact .cons (h_trans _ _ _ (h_accept p) (h_heard _))
          (List.forall₂_same.mpr fun q _ => h_refl q)
      · exact .cons (h_accept p) ih

/-- What the look by address makes of a peer: nothing, or what a data packet makes of it, with the
time if it is accepted. -/
def Peer.Looked (addr : SocketAddr) (payload : Bytes) (now : Instant) (p q : Peer S) : Prop :=
  q = p ∨ p.endpoint = some addr ∧ (q = (p.acceptData payload now).state ∨
    q = { (p.acceptData payload now).state with lastDirectRx := now })

/-- The data branch of the UDP dispatcher is the look by address, and the trial loop over what that
leaves unless somebody accepted. -/
theorem PeerManager.udpData_looked (pm : PeerManager S) (payload : Bytes) (addr : SocketAddr)
    (now : Instant) : ∃ peers, List.Forall₂ (Peer.Looked addr payload now) pm.peers peers ∧
      ((pm.udpData payload addr now).2.peers = peers ∨
        (pm.udpData payload addr now).2.peers = (trialDecrypt addr payload now peers).state) := by
  -- the look, as it stands in the definition
  have h_look := updateFirst_forall₂ (fun p : Peer S => p.endpoint = some addr) (fun p =>
    let out := p.acceptData payload now
    let p := if out.result.isSome then { out.state with lastDirectRx := now } else out.state
    ((out.result, out.events), p)) pm.peers
  have h_looked := h_look.imp (S := Peer.Looked addr payload now) fun p q h => by
    rcases h with rfl | ⟨h_ep, rfl⟩
    · exact Or.inl rfl
    · refine Or.inr ⟨by simpa using h_ep, ?_⟩
      dsimp only
      split_ifs
      · exact Or.inr rfl
      · exact Or.inl rfl
  unfold udpData
  generalize updateFirst _ _ pm.peers = out at h_looked ⊢
  obtain ⟨found, peers⟩ := out
  refine ⟨peers, h_looked, ?_⟩
  rcases found with _ | ⟨_ | plaintext, es⟩
  · -- nobody was found at the address
    exact Or.inr rfl
  · -- somebody was, and refused
    exact Or.inr rfl
  · -- somebody was, and accepted: the trial loop is not run
    exact Or.inl rfl

/-- **The data branch of the UDP dispatcher**, for a relation that holds along what it does to a
peer. -/
theorem PeerManager.udpData_forall₂ (pm : PeerManager S) (addr : SocketAddr)
    (h_refl : ∀ p, R p p) (h_trans : ∀ p q r, R p q → R q r → R p r)
    (h_accept : ∀ p : Peer S, R p (p.acceptData payload now).state)
    (h_direct : ∀ p : Peer S, R p { p with lastDirectRx := now })
    (h_heard : ∀ p : Peer S, R p { p with endpoint := some addr, lastDirectRx := now }) :
    List.Forall₂ R pm.peers (pm.udpData payload addr now).2.peers := by
  obtain ⟨peers, h_looked, h_eq⟩ := pm.udpData_looked payload addr now
  have h_first : List.Forall₂ R pm.peers peers := by
    refine h_looked.imp fun p q h => ?_
    rcases h with rfl | ⟨-, rfl | rfl⟩
    · exact h_refl _
    · exact h_accept p
    · exact h_trans _ _ _ (h_accept p) (h_direct _)
  rcases h_eq with h_eq | h_eq
  · rw [h_eq]
    exact h_first
  · -- a peer may be tried in both, and the relation holds along both
    rw [h_eq]
    exact forall₂_comp h_trans h_first
      (trialDecrypt_forall₂ addr h_refl h_trans h_accept h_heard peers)

end Data
end AraxMesh
