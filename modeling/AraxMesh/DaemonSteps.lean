import AraxMesh.Daemon

/-!
# The daemon refines session steps

`table` is the abstract machine of a peer table: its steps are the session steps of single peers,
and peers coming and going. `daemon_emits` connects it to the daemon: a turn of any task is a run of
session steps with the events of the turn, in order. `eventsOf_run` does the same for whole runs.

The dispatchers and the four places that install a session are gone through here, once; results
about runs of sessions are invariants of `table`.

## Proof sketch

1. Each operation of a peer is a run of `peerSystem`, read off the relation that says what the
   operation can do (`Peer.Initiated`, `Peer.Encrypted` and so on in `PeerSteps`). A write to a
   field that no session step is about is a `touch`.
2. The turns of the timer and of the TUN reader are put together from five moves. `Makes` lists
   these, and proves the turns for any machine that has them: other modules take their own machines
   through the same turns.
3. A run of one peer is a run of the table it stands in (`emits_inTable`), and a loop over the table
   is such runs one after the other. In the inductions `l₁` is the part of the table that the loop
   has behind it, as it left it.
-/

namespace AraxMesh

open LTS FirstMatch

variable {S : Snow}

/-! ### One peer -/

/-- The session steps of one peer. -/
def peerSystem (S : Snow) : System (Peer S) (List (Event S)) where
  init _ := True
  step := SessionStep

namespace Peer

/-- Whatever is written to the other fields is one step. -/
theorem SameSessions.emits {p p' : Peer S} (h : p.SameSessions p') : Emits (peerSystem S) p [] p' :=
  .single (.touch h (by simp))

/-- Events that involve no session do not change the peer. -/
theorem emits_quiet (p : Peer S) {es : List (Event S)} (hes : ∀ e ∈ es, e.Quiet) :
    Emits (peerSystem S) p es p :=
  .single (.touch ⟨rfl, rfl, rfl, rfl, rfl⟩ hes)

theorem quiet_sendHandshake (packet : Option Bytes) (dest : Option OutboundDest) :
    ∀ e ∈ (sendHandshake packet dest : List (Event S)), e.Quiet := by
  intro e he
  unfold sendHandshake at he
  split at he
  · obtain rfl : e = _ := by simpa using he
    trivial
  · cases he

theorem quiet_writeTun (result : Option Bytes) :
    ∀ e ∈ (writeTun result : List (Event S)), e.Quiet := by
  intro e he
  unfold writeTun at he
  split at he
  · split_ifs at he
    · obtain rfl : e = _ := by simpa using he
      trivial
    · cases he
  · cases he

/-- A handshake is begun, or the library refuses and nothing happens. -/
theorem initiateHandshake_emits (p : Peer S) (localPriv : Bytes) (d : Draw S) (now : Instant) :
    Emits (peerSystem S) p (p.initiateHandshake localPriv d now).events
      (p.initiateHandshake localPriv d now).state := by
  have h := p.initiated localPriv d now
  generalize p.initiateHandshake localPriv d now = out at h ⊢
  cases h with
  | failed => exact .refl p
  | begun hs₀ hs msg hb hw =>
    refine Emits.silent (.single (.initiate p hs)) (SameSessions.emits ?_)
    exact ⟨rfl, rfl, rfl, rfl, rfl⟩

theorem initiateAndSend_emits (p : Peer S) (localPriv : Bytes) (hasRelay : Bool) (d : Draw S)
    (now : Instant) :
    Emits (peerSystem S) p (p.initiateAndSend localPriv hasRelay d now).1
      (p.initiateAndSend localPriv hasRelay d now).2 :=
  (p.initiateHandshake_emits localPriv d now).trans (emits_quiet _ (quiet_sendHandshake _ _))

theorem encryptAndSend_emits (p : Peer S) (payload : Bytes) (hasRelay : Bool) (d : Draw S)
    (now : Instant) :
    Emits (peerSystem S) p (p.encryptAndSend payload hasRelay d now).2.1
      (p.encryptAndSend payload hasRelay d now).2.2 := by
  unfold encryptAndSend
  have h := p.encrypted payload d now
  generalize p.encryptPacket payload d now = out at h ⊢
  cases h with
  | inactive => exact .refl p
  -- the nonce is spent whether or not a packet comes of it
  | failed s h hw => exact .single (.encrypt p s payload.length h)
  | sent s ciphertext h hw =>
    dsimp only
    cases determineDest { p.setSlot .active (advance s payload.length) with lastTx := now }
      hasRelay now with
    | none =>
      refine Emits.silent (.single (.encrypt p s payload.length h)) (SameSessions.emits ?_)
      exact ⟨rfl, rfl, rfl, rfl, rfl⟩
    | some dest =>
      have h_send := SessionStep.send p s payload.length _ dest h (.of_framed hw p.magic.data)
      refine Emits.silent (.single h_send) (SameSessions.emits ?_)
      exact ⟨rfl, rfl, rfl, rfl, rfl⟩

/-- The responder's install, which the branch of `Peer` and the copies in the two dispatchers come
to. -/
theorem respond_emits (p : Peer S) (hs : S.HandshakeState) (magic : MagicConfig) (d : Draw S)
    (now : Instant) :
    Emits (peerSystem S) p (p.respond hs magic d now).events (p.respond hs magic d now).state := by
  have h := p.responded hs magic d now
  generalize p.respond hs magic d now = out at h ⊢
  cases h with
  | failed => exact .refl p
  | installed msg t => exact .single (.respond p t now)

/-- Either branch of the handshake handler, whatever the packet type. -/
theorem handleHandshakePacket_emits (p : Peer S) (localPriv : Bytes) (packetType : UInt8)
    (payload : Bytes) (d : Draw S) (now : Instant) :
    Emits (peerSystem S) p (p.handleHandshakePacket localPriv packetType payload d now).events
      (p.handleHandshakePacket localPriv packetType payload d now).state := by
  have h := p.handled localPriv packetType payload d now
  generalize p.handleHandshakePacket localPriv packetType payload d now = out at h ⊢
  cases h with
  | ignored => exact .refl p
  | responded hs => exact p.respond_emits hs p.magic d now
  | answered h =>
    cases h with
    | idle => exact .refl p
    | rejected hs hs' h hr => exact .single (.reject p hs hs' _ h hr)
    | abandoned => exact .single (.abandon p)
    | completed hs hs' t h hr ht =>
      -- the state the library leaves is the one the response was read with
      refine Emits.silent (.single (.answer p hs _ t now h (by rw [hr]))) (SameSessions.emits ?_)
      exact ⟨rfl, rfl, rfl, rfl, rfl⟩

/-- Only a packet that is new to the replay window leaves a trace. -/
theorem decryptPacket_emits (p : Peer S) (payload : Bytes) (now : Instant) :
    Emits (peerSystem S) p (p.decryptPacket payload now).events
      (p.decryptPacket payload now).state := by
  have h := p.decrypted payload now
  generalize p.decryptPacket payload now = out at h ⊢
  cases h with
  | unauthentic => exact .refl p
  | replayed => exact .refl p
  | opened k s padded w h hw =>
    refine Emits.silent (.single (.opened p k s w _ _ payload.length h.honours.1 hw))
      (SameSessions.emits ?_)
    exact ⟨rfl, rfl, rfl, rfl, rfl⟩

/-- The source check changes neither the events nor the peer. -/
theorem acceptData_events_state (p : Peer S) (payload : Bytes) (now : Instant) :
    (p.acceptData payload now).events = (p.decryptPacket payload now).events ∧
    (p.acceptData payload now).state = (p.decryptPacket payload now).state := by
  unfold acceptData
  dsimp only
  split
  · exact ⟨rfl, rfl⟩
  · split
    · split_ifs <;> exact ⟨rfl, rfl⟩
    · exact ⟨rfl, rfl⟩

theorem acceptData_emits (p : Peer S) (payload : Bytes) (now : Instant) :
    Emits (peerSystem S) p (p.acceptData payload now).events (p.acceptData payload now).state := by
  obtain ⟨he, hs⟩ := p.acceptData_events_state payload now
  rw [he, hs]
  exact p.decryptPacket_emits payload now

/-! ### The turns a node makes of its own -/

/-- An abstract machine of one peer that can make whatever the timer's and the TUN reader's turns
are put together from. -/
structure Makes (M : System (Peer S) (List (Event S))) : Prop where
  forget : ∀ p : Peer S, Emits M p [] { p with previous := none }
  clear : ∀ p : Peer S, Emits M p [] { p with active := none, previous := none }
  /-- A handshake is begun only while none is pending. -/
  initiate : ∀ (p : Peer S) (localPriv : Bytes) (hasRelay : Bool) (d : Draw S) (now : Instant),
    p.handshake = none → Emits M p (p.initiateAndSend localPriv hasRelay d now).1
      (p.initiateAndSend localPriv hasRelay d now).2
  encrypt : ∀ (p : Peer S) (payload : Bytes) (hasRelay : Bool) (d : Draw S) (now : Instant),
    Emits M p (p.encryptAndSend payload hasRelay d now).2.1
      (p.encryptAndSend payload hasRelay d now).2.2
  /-- The last initiation is sent again. -/
  resend : ∀ (p : Peer S) (dest : Option OutboundDest) (now : Instant),
    Emits M p (sendHandshake p.lastHandshakePacket dest) { p with lastHandshakeAttempt := some now }

namespace Makes

variable {M : System (Peer S) (List (Event S))}

/-- The check of the rotation forgets the previous session, or nothing. -/
theorem checkRotation (h : Makes M) (p : Peer S) (now : Instant) :
    Emits M p [] (p.checkRotation now).2 := by
  rcases p.checkRotation_cases now with h_eq | ⟨s, -, -, h_eq⟩
  · rw [h_eq]
    exact .refl p
  · rw [h_eq]
    exact h.forget p

theorem timerRotate (h : Makes M) (p : Peer S) (localPriv : Bytes) (hasRelay : Bool) (d : Draw S)
    (now : Instant) : Emits M p (p.timerRotate localPriv hasRelay d now).1
      (p.timerRotate localPriv hasRelay d now).2 := by
  have h_forget := h.checkRotation p now
  unfold Peer.timerRotate
  dsimp only
  split_ifs with h_due
  · -- the session is due for a rekey
    have h_idle : (p.checkRotation now).2.handshake = none := by simpa using h_due.2
    exact h_forget.trans (h.initiate _ localPriv hasRelay d now h_idle)
  · exact h_forget

theorem timerClear (h : Makes M) (p : Peer S) (now : Instant) :
    Emits M p [] (p.timerClear now) := by
  unfold Peer.timerClear
  split_ifs
  · exact h.clear p
  · exact .refl p

theorem timerKeepalive (h : Makes M) (p : Peer S) (hasRelay : Bool) (d : Draw S) (now : Instant) :
    Emits M p (p.timerKeepalive hasRelay d now).1 (p.timerKeepalive hasRelay d now).2 := by
  unfold Peer.timerKeepalive
  split_ifs
  · exact h.encrypt p [] hasRelay d now
  · exact .refl p

theorem timerHandshake (h : Makes M) (p : Peer S) (localPriv : Bytes) (hasRelay : Bool)
    (d : Draw S) (now : Instant) : Emits M p (p.timerHandshake localPriv hasRelay d now).1
      (p.timerHandshake localPriv hasRelay d now).2 := by
  unfold Peer.timerHandshake
  split_ifs with h_idle
  · exact h.initiate p localPriv hasRelay d now (by simpa using h_idle.2.1)
  · split
    · split_ifs
      · exact h.resend p _ now
      · exact .refl p
    · exact .refl p

/-- The four parts of a tick, one after the other. -/
theorem timer (h : Makes M) (p : Peer S) (localPriv : Bytes) (hasRelay : Bool) (d d' : Draw S)
    (now : Instant) : Emits M p (p.timer localPriv hasRelay d d' now).1
      (p.timer localPriv hasRelay d d' now).2 := by
  have h_rotate := h.timerRotate p localPriv hasRelay d now
  have h_clear := h.timerClear (p.timerRotate localPriv hasRelay d now).2 now
  exact ((h_rotate.silent h_clear).trans (h.timerKeepalive _ hasRelay d now)).trans
    (h.timerHandshake _ localPriv hasRelay d' now)

/-- The turn of the TUN reader on a peer: encrypt, and where that cannot be, begin a handshake. -/
theorem sendPacket (h : Makes M) (p : Peer S) (localPriv payload : Bytes) (hasRelay : Bool)
    (d : Draw S) (now : Instant) : Emits M p (p.sendPacket localPriv payload hasRelay d now).1
      (p.sendPacket localPriv payload hasRelay d now).2 := by
  have h_encrypt := h.encrypt p payload hasRelay d now
  unfold Peer.sendPacket
  dsimp only
  split_ifs with h_idle
  · -- there was no session to encrypt under
    have h_none : (p.encryptAndSend payload hasRelay d now).2.2.handshake = none := by
      simpa using h_idle.2.2
    exact h_encrypt.trans (h.initiate _ localPriv hasRelay d now h_none)
  · exact h_encrypt

end Makes

/-- The session steps make them all. -/
theorem makes_sessions : Makes (peerSystem S) where
  forget p := .single (.forget p)
  clear p := .single (.clear p)
  initiate p localPriv hasRelay d now _ := p.initiateAndSend_emits localPriv hasRelay d now
  encrypt := encryptAndSend_emits
  resend p dest now := by
    have h_touch : Emits (peerSystem S) p [] { p with lastHandshakeAttempt := some now } :=
      SameSessions.emits ⟨rfl, rfl, rfl, rfl, rfl⟩
    exact h_touch.trans (emits_quiet _ (quiet_sendHandshake _ _))

/-- The UDP path notes the address before it answers. -/
theorem respondTo_emits (p : Peer S) (hs : S.HandshakeState) (magic : MagicConfig)
    (addr : SocketAddr) (d : Draw S) (now : Instant) :
    Emits (peerSystem S) p (p.respondTo hs magic addr d now).1
      (p.respondTo hs magic addr d now).2 := by
  have h_touch : Emits (peerSystem S) p [] { p with endpoint := some addr, lastDirectRx := now } :=
    SameSessions.emits ⟨rfl, rfl, rfl, rfl, rfl⟩
  exact (h_touch.trans (respond_emits _ hs magic d now)).trans
    (emits_quiet _ (quiet_sendHandshake _ _))

end Peer

/-! ### The table -/

/-- What can happen to a table of peers whose packet types are `magic`. -/
inductive TableStep (magic : MagicConfig) : List (Peer S) → List (Event S) → List (Peer S) → Prop
  | peer (l₁ l₂ : List (Peer S)) {p p' : Peer S} {es : List (Event S)} (h : SessionStep p es p') :
      TableStep magic (l₁ ++ p :: l₂) es (l₁ ++ p' :: l₂)
  | quiet (l : List (Peer S)) {es : List (Event S)} (hes : ∀ e ∈ es, e.Quiet) :
      TableStep magic l es l
  | remove {l l' : List (Peer S)} (h : l'.Sublist l) : TableStep magic l [] l'
  /-- A peer without sessions is added. -/
  | add (l : List (Peer S)) (p : Peer S) (ha : p.active = none) (hp : p.previous = none)
      (hh : p.handshake = none) (hm : p.magic = magic) : TableStep magic l [] (l ++ [p])

/-- The abstract machine of a peer table. -/
def table (S : Snow) (magic : MagicConfig) : System (List (Peer S)) (List (Event S)) where
  init l := ∀ p ∈ l, p.active = none ∧ p.previous = none ∧ p.handshake = none ∧ p.magic = magic
  step := TableStep magic

/-- A run of one peer is a run of the table. -/
theorem emits_inTable (magic : MagicConfig) {p p' : Peer S} {es : List (Event S)}
    (h : Emits (peerSystem S) p es p') (l₁ l₂ : List (Peer S)) :
    Emits (table S magic) (l₁ ++ p :: l₂) es (l₁ ++ p' :: l₂) :=
  h.map (fun p => l₁ ++ p :: l₂) fun _ _ _ hs => TableStep.peer l₁ l₂ hs

/-- A turn on the first peer that satisfies `c` is a run of the table. -/
theorem updateFirst_emits (magic : MagicConfig) {β : Type} (c : Peer S → Bool)
    (f : Peer S → β × Peer S) (events : β → List (Event S))
    (hf : ∀ p, Emits (peerSystem S) p (events (f p).1) (f p).2) (l : List (Peer S)) :
    Emits (table S magic) l ((updateFirst c f l).1.elim [] events) (updateFirst c f l).2 := by
  rcases updateFirst_cases c f l with ⟨-, heq⟩ | ⟨l₁, p, l₂, rfl, -, -, heq⟩
  · rw [heq]
    exact .refl l
  · rw [heq]
    exact emits_inTable magic (hf p) l₁ l₂

/-- The trial loop: the peers before the one it stops at have been tried, too. -/
theorem trialDecrypt_emits (magic : MagicConfig) (addr : SocketAddr) (payload : Bytes)
    (now : Instant) (l₁ l : List (Peer S)) :
    Emits (table S magic) (l₁ ++ l) (trialDecrypt addr payload now l).events
      (l₁ ++ (trialDecrypt addr payload now l).state) := by
  induction l generalizing l₁ with
  | nil => exact .refl _
  | cons p ps ih =>
    have hrest := fun q : Peer S => ih (l₁ ++ [q])
    simp only [List.append_assoc, List.cons_append, List.nil_append] at hrest
    unfold trialDecrypt
    split_ifs
    · exact hrest p
    · have hp := emits_inTable magic (p.acceptData_emits payload now) l₁ ps
      dsimp only
      split
      · refine hp.silent (emits_inTable magic (Peer.SameSessions.emits ?_) l₁ ps)
        exact ⟨rfl, rfl, rfl, rfl, rfl⟩
      · exact hp.trans (hrest _)

/-- The loop of the timer, which draws anew for each peer. -/
theorem timerPeers_emits (magic : MagicConfig) (localPriv : Bytes) (hasRelay : Bool)
    (draws : ℕ → Draw S × Draw S) (now : Instant) (idx : ℕ) (l₁ l : List (Peer S)) :
    Emits (table S magic) (l₁ ++ l)
      (PeerManager.timerPeers localPriv hasRelay draws now idx l).1
      (l₁ ++ (PeerManager.timerPeers localPriv hasRelay draws now idx l).2) := by
  induction l generalizing l₁ idx with
  | nil => exact .refl _
  | cons p ps ih =>
    have hp := emits_inTable magic
      (Peer.makes_sessions.timer p localPriv hasRelay (draws idx).1 (draws idx).2 now) l₁ ps
    have hrest := ih (idx + 1)
      (l₁ ++ [(p.timer localPriv hasRelay (draws idx).1 (draws idx).2 now).2])
    simp only [List.append_assoc, List.cons_append, List.nil_append] at hrest
    exact hp.trans hrest

/-- A peer of the list is found by its key and gets its endpoint and its subnets, or is added. -/
theorem syncPeer_emits (magic : MagicConfig) (now : Instant)
    (acc : List SocketAddr × List (Peer S)) (w : ParsedPeer) :
    Emits (table S magic) acc.2 [] (PeerManager.syncPeer magic now acc w).2 := by
  unfold PeerManager.syncPeer
  have h := updateFirst_emits magic (fun p => p.pubkey = w.pubkey)
    (fun p => ((), { p with endpoint := w.endpoint, allowedIps := w.allowedIps })) (fun _ => [])
    (fun p => Peer.SameSessions.emits ⟨rfl, rfl, rfl, rfl, rfl⟩) acc.2
  split
  · next hu =>
    rw [hu] at h
    exact h
  · next hu =>
    rw [hu] at h
    exact h.silent (.single (.add _ _ rfl rfl rfl rfl))

/-- Peers that are not in the list go first, then the list is gone through. -/
theorem syncPeers_emits (pm : PeerManager S) (descriptors : List PeerDescriptor) (now : Instant) :
    Emits (table S pm.magic) pm.peers [] (pm.syncPeers descriptors now).2.peers := by
  have h_fold : ∀ (ws : List ParsedPeer) (acc : List SocketAddr × List (Peer S)),
      Emits (table S pm.magic) acc.2 [] (ws.foldl (PeerManager.syncPeer pm.magic now) acc).2 := by
    intro ws
    induction ws with
    | nil => exact fun acc => .refl _
    | cons w ws ih => exact fun acc => (syncPeer_emits pm.magic now acc w).silent (ih _)
  exact Emits.silent (.single (TableStep.remove List.filter_sublist)) (h_fold _ ([], _))

/-! ### Turns and runs of the daemon -/

namespace PeerManager

theorem updatePeer_emits (pm : PeerManager S) (c : Peer S → Bool) (f : Peer S → Turn S (Peer S))
    (hf : ∀ p, Emits (peerSystem S) p (f p).1 (f p).2) :
    Emits (table S pm.magic) pm.peers (pm.updatePeer c f).1 (pm.updatePeer c f).2.peers := by
  have h := updateFirst_emits pm.magic c f id hf pm.peers
  unfold updatePeer
  generalize updateFirst c f pm.peers = out at h ⊢
  obtain ⟨_ | es, peers⟩ := out <;> exact h

/-- The look by address, the trial loop if that came to nothing, and the write. -/
theorem udpData_emits (pm : PeerManager S) (payload : Bytes) (addr : SocketAddr) (now : Instant) :
    Emits (table S pm.magic) pm.peers (pm.udpData payload addr now).1
      (pm.udpData payload addr now).2.peers := by
  have h_first := updateFirst_emits pm.magic (fun p : Peer S => p.endpoint = some addr) (fun p =>
    let out := p.acceptData payload now
    let p := if out.result.isSome then { out.state with lastDirectRx := now } else out.state
    ((out.result, out.events), p)) (fun r => r.2) (by
      intro p
      refine (p.acceptData_emits payload now).silent (Peer.SameSessions.emits ?_)
      dsimp only
      split_ifs <;> exact ⟨rfl, rfl, rfl, rfl, rfl⟩) pm.peers
  have h_write : ∀ (l : List (Peer S)) (result : Option Bytes),
      Emits (table S pm.magic) l (writeTun result) l := fun l result =>
    .single (TableStep.quiet l (Peer.quiet_writeTun result))
  have h_trial := fun l : List (Peer S) =>
    trialDecrypt_emits pm.magic addr payload now [] l
  unfold udpData
  generalize updateFirst _ _ pm.peers = out at h_first ⊢
  obtain ⟨found, peers⟩ := out
  rcases found with _ | ⟨_ | plaintext, es⟩
  · exact (h_first.trans (h_trial peers)).trans (h_write _ _)
  · exact (h_first.trans (h_trial peers)).trans (h_write _ _)
  · exact h_first.trans (h_write _ _)

/-- The UDP dispatcher, in the order in which it looks for the types. -/
theorem udpPacket_emits (pm : PeerManager S) (packet : Bytes) (addr : SocketAddr) (d : Draw S)
    (now : Instant) :
    Emits (table S pm.magic) pm.peers (pm.udpPacket packet addr d now).1
      (pm.udpPacket packet addr d now).2.peers := by
  unfold udpPacket
  cases packet with
  | nil => exact .refl _
  | cons packetType payload =>
    dsimp only
    split_ifs
    · unfold udpInit
      split
      · exact .refl _
      · exact pm.updatePeer_emits _ _ fun p => p.respondTo_emits _ _ addr d now
    · refine pm.updatePeer_emits _ _ fun p => ?_
      refine (p.handleHandshakePacket_emits _ _ payload d now).silent (Peer.SameSessions.emits ?_)
      exact ⟨rfl, rfl, rfl, rfl, rfl⟩
    · exact pm.udpData_emits payload addr now
    · exact .refl _

theorem relayedPacket_emits (pm : PeerManager S) (fromKey packet : Bytes) (d : Draw S)
    (now : Instant) :
    Emits (table S pm.magic) pm.peers (pm.relayedPacket fromKey packet d now).1
      (pm.relayedPacket fromKey packet d now).2.peers := by
  unfold relayedPacket
  cases packet with
  | nil => exact .refl _
  | cons packetType payload =>
    dsimp only
    split_ifs
    · unfold relayedInit
      split
      · exact .refl _
      · split_ifs
        · exact .refl _
        · refine pm.updatePeer_emits _ _ fun p => ?_
          exact (p.respond_emits _ _ d now).trans
            (Peer.emits_quiet _ (Peer.quiet_sendHandshake _ _))
    · exact pm.updatePeer_emits _ _ fun p => p.handleHandshakePacket_emits _ _ payload d now
    · refine pm.updatePeer_emits _ _ fun p => ?_
      exact (p.acceptData_emits payload now).trans (Peer.emits_quiet _ (Peer.quiet_writeTun _))
    · exact .refl _

theorem tunPacket_emits (pm : PeerManager S) (hasRelay : Bool) (packet : Bytes) (d : Draw S)
    (now : Instant) :
    Emits (table S pm.magic) pm.peers (pm.tunPacket hasRelay packet d now).1
      (pm.tunPacket hasRelay packet d now).2.peers := by
  unfold tunPacket
  split
  · exact .refl _
  split
  · exact .refl _
  · next idx _ =>
    cases hp : pm.peers[idx]? with
    | none => exact .refl _
    | some p =>
      obtain ⟨hlt, rfl⟩ := List.getElem?_eq_some_iff.mp hp
      -- the table is written at an index, which is a step between the parts before and after it
      have h := emits_inTable pm.magic
        (Peer.makes_sessions.sendPacket pm.peers[idx] pm.localPriv packet hasRelay d now)
        (pm.peers.take idx) (pm.peers.drop (idx + 1))
      have h_set := List.set_eq_take_append_cons_drop (l := pm.peers) (i := idx)
        (a := (pm.peers[idx].sendPacket pm.localPriv packet hasRelay d now).2)
      rw [if_pos hlt] at h_set
      rw [List.cons_getElem_drop_succ, List.take_append_drop, ← h_set] at h
      exact h

/-- **A turn of any task is a run of session steps**, with the events of the turn in order. -/
theorem step_emits (pm : PeerManager S) (hasRelay : Bool) (now : Instant) (task : DaemonTask S) :
    Emits (table S pm.magic) pm.peers (pm.step hasRelay now task).1
      (pm.step hasRelay now task).2.peers := by
  cases task with
  | timer draws => exact timerPeers_emits pm.magic pm.localPriv hasRelay draws now 0 [] pm.peers
  | tun packet d => exact pm.tunPacket_emits hasRelay packet d now
  | udp datagram addr d => exact pm.udpPacket_emits (recvFrom datagram) addr d now
  | relayed fromKey packet d => exact pm.relayedPacket_emits fromKey packet d now
  | poll descriptors => exact syncPeers_emits pm descriptors now

/-- No turn changes the node's own key or its packet types. -/
theorem step_config (pm : PeerManager S) (hasRelay : Bool) (now : Instant) (task : DaemonTask S) :
    (pm.step hasRelay now task).2.localPriv = pm.localPriv ∧
    (pm.step hasRelay now task).2.magic = pm.magic := by
  -- every branch gives the table back with other peers, or as it was
  cases task with
  | timer draws => exact ⟨rfl, rfl⟩
  | tun packet d =>
    simp only [step, tunPacket]
    split
    · exact ⟨rfl, rfl⟩
    split
    · exact ⟨rfl, rfl⟩
    split <;> exact ⟨rfl, rfl⟩
  | udp packet addr d =>
    simp only [step, udpPacket]
    split
    · exact ⟨rfl, rfl⟩
    split_ifs
    · unfold udpInit
      split <;> exact ⟨rfl, rfl⟩
    · exact ⟨rfl, rfl⟩
    · unfold udpData
      dsimp only
      split <;> exact ⟨rfl, rfl⟩
    · exact ⟨rfl, rfl⟩
  | relayed fromKey packet d =>
    simp only [step, relayedPacket]
    split
    · exact ⟨rfl, rfl⟩
    split_ifs
    · unfold relayedInit
      split
      · exact ⟨rfl, rfl⟩
      · split_ifs <;> exact ⟨rfl, rfl⟩
    · exact ⟨rfl, rfl⟩
    · exact ⟨rfl, rfl⟩
    · exact ⟨rfl, rfl⟩
  | poll descriptors => exact ⟨rfl, rfl⟩

/-- A turn that changes no peer changes nothing. -/
theorem eq_of_step {pm pm' : PeerManager S} {hasRelay : Bool} {now : Instant}
    {task : DaemonTask S} {es : List (Event S)} (h : pm.step hasRelay now task = (es, pm'))
    (h_peers : pm'.peers = pm.peers) : pm' = pm := by
  obtain ⟨h_priv, h_magic⟩ := pm.step_config hasRelay now task
  rw [h] at h_priv h_magic
  cases pm
  cases pm'
  simp only at h_priv h_magic h_peers
  rw [h_priv, h_magic, h_peers]

end PeerManager

/-- A daemon keeps its key and its packet types. -/
theorem config_of_exec {hasRelay : Bool} {pm₀ pm : PeerManager S} {ls : List (DaemonLabel S)}
    (h_run : Exec (daemon S hasRelay) pm₀ ls pm) :
    pm.localPriv = pm₀.localPriv ∧ pm.magic = pm₀.magic := by
  refine h_run.invariant (fun pm => pm.localPriv = pm₀.localPriv ∧ pm.magic = pm₀.magic)
    ⟨rfl, rfl⟩ ?_
  rintro pm l pm' ⟨h_priv, h_magic⟩ h_step
  obtain rfl : (pm.step hasRelay l.now l.task).2 = pm' := congrArg Prod.snd h_step
  obtain ⟨h_priv', h_magic'⟩ := pm.step_config hasRelay l.now l.task
  exact ⟨h_priv'.trans h_priv, h_magic'.trans h_magic⟩

/-- **The daemon refines session steps.** A run of the daemon is a run of the table of its peers,
with the same events. The induction is on the run, from its end: a turn more is a run of session
steps more. -/
theorem daemon_emits {hasRelay : Bool} {pm pm' : PeerManager S} {ls : List (DaemonLabel S)}
    (h : Exec (daemon S hasRelay) pm ls pm') :
    pm'.magic = pm.magic ∧ Emits (table S pm.magic) pm.peers (eventsOf ls) pm'.peers := by
  refine h.induct (fun ls pm' => pm'.magic = pm.magic ∧
    Emits (table S pm.magic) pm.peers (eventsOf ls) pm'.peers) ⟨rfl, .refl _⟩ ?_
  rintro ls t l u - ⟨hm, hrun⟩ hstep
  have hstep : t.step hasRelay l.now l.task = (l.events, u) := hstep
  have h_turn := t.step_emits hasRelay l.now l.task
  have h_magic := (t.step_config hasRelay l.now l.task).2
  rw [hstep] at h_turn h_magic
  rw [hm] at h_turn
  refine ⟨h_magic.trans hm, ?_⟩
  have h_events : eventsOf (ls ++ [l]) = eventsOf ls ++ l.events := by simp [eventsOf]
  rw [h_events]
  exact hrun.trans h_turn

/-- The table the daemon starts with is one the abstract machine starts with. -/
theorem PeerManager.Initial.table {pm : PeerManager S} (h : pm.Initial) :
    (AraxMesh.table S pm.magic).init pm.peers := by
  obtain ⟨localPriv, parsed, magic, now, -, rfl⟩ := h
  intro p hp
  obtain ⟨q, hq, rfl⟩ := List.mem_map.mp hp
  obtain ⟨w, -, rfl⟩ := List.mem_map.mp hq
  exact ⟨rfl, rfl, rfl, rfl⟩

end AraxMesh
