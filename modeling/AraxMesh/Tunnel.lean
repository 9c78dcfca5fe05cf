import AraxMesh.Lookup

/-!
# The two ends of a tunnel

What a turn seals and what a turn writes, without the sessions it goes through in between.

* `PeerManager.sealed_of_step` — a data packet is a keepalive of the timer, or the one packet that
  was read from the TUN device, sealed under the active session of the peer whose subnets match its
  destination best.
* `PeerManager.takes_of_step` — a turn writes at most one packet, and a peer of the table takes it:
  it opened it under one of its sessions, and owns its source address.

## Proof sketch

For sealing, each place that encrypts is followed to the event it leaves. Only `encrypt_packet`
emits data packets, and it is called for the keepalives of the timer and for the packet of the TUN
reader; what comes in is answered with handshake packets at most (`sentIn_of_carries`).

For writing it is the other way round. Nothing a node does of its own writes anything, which is one
more machine that `Makes` is about (`unwritten`). Of what comes in, only a data packet does: the
look-up and the trial loop each end at a peer that accepted it, and `Takes` is what accepting says.
-/

namespace AraxMesh

open LTS FirstMatch BigEndian

variable {S : Snow}

/-! ### Sealing -/

/-- `c` is the payload, padded and sealed under the active session of the peer. -/
structure Peer.Seals (p : Peer S) (payload : Bytes) (d : Draw S) (c : Sealed S) : Prop where
  session : ∃ s, p.active = some s ∧ s.state = c.state
  ciphertext : S.writeMessage c.state c.nonce (padPayload payload d.dataPad) =
    some (c.packet.drop 9)

/-- Nothing is sealed, or one packet is. -/
def Peer.SealsAtMost (p : Peer S) (payload : Bytes) (d : Draw S) (sent : List (Sealed S)) : Prop :=
  sent = [] ∨ ∃ c, sent = [c] ∧ p.Seals payload d c

namespace Peer

/-- A handshake packet is no data packet. -/
theorem sentIn_sendHandshake (packet : Option Bytes) (dest : Option OutboundDest) :
    sentIn (sendHandshake packet dest : List (Event S)) = [] := by
  unfold sendHandshake
  split <;> rfl

theorem sentIn_initiateAndSend (p : Peer S) (localPriv : Bytes) (hasRelay : Bool) (d : Draw S)
    (now : Instant) : sentIn (p.initiateAndSend localPriv hasRelay d now).1 = [] := by
  have h := p.initiated localPriv d now
  unfold initiateAndSend
  generalize p.initiateHandshake localPriv d now = out at h ⊢
  dsimp only
  rw [sentIn_append, sentIn_sendHandshake, List.append_nil]
  cases h with
  | failed => rfl
  | begun => rfl

/-- With a session that encrypts and a way to the peer one packet goes out, else none. -/
theorem encryptAndSend_seals (p : Peer S) (payload : Bytes) (hasRelay : Bool) (d : Draw S)
    (now : Instant) :
    p.SealsAtMost payload d (sentIn (p.encryptAndSend payload hasRelay d now).2.1) := by
  have h := p.encrypted payload d now
  unfold encryptAndSend
  generalize p.encryptPacket payload d now = out at h ⊢
  cases h with
  | inactive => exact Or.inl rfl
  | failed => exact Or.inl rfl
  | sent s ciphertext h_active h_write =>
    dsimp only
    split
    · next c dest h_some h_dest =>
      -- the packet is one type byte, the nonce and the ciphertext
      obtain rfl := Option.some.inj h_some
      refine Or.inr ⟨_, rfl, ⟨s, h_active, rfl⟩, ?_⟩
      rw [h_write, List.drop_succ_cons, List.drop_left' (length_toBE _ _)]
    · exact Or.inl rfl

/-- The turn of the TUN reader on the peer it chose. -/
theorem sendPacket_seals (p : Peer S) (localPriv payload : Bytes) (hasRelay : Bool) (d : Draw S)
    (now : Instant) :
    p.SealsAtMost payload d (sentIn (p.sendPacket localPriv payload hasRelay d now).1) := by
  have h := p.encryptAndSend_seals payload hasRelay d now
  unfold sendPacket
  dsimp only
  split_ifs
  · -- the handshake that is begun then adds no data packet
    rwa [sentIn_append, sentIn_initiateAndSend, List.append_nil]
  · exact h

/-- The timer seals keepalives. -/
theorem timer_seals (p : Peer S) (localPriv : Bytes) (hasRelay : Bool) (d d' : Draw S)
    (now : Instant) {c : Sealed S}
    (hc : c ∈ sentIn (p.timer localPriv hasRelay d d' now).1) :
    ∃ q : Peer S, q.Seals [] d c := by
  unfold timer at hc
  -- two of the four parts of a tick begin handshakes, and one sends nothing at all
  have h_rotate : sentIn (p.timerRotate localPriv hasRelay d now).1 = [] := by
    unfold timerRotate
    dsimp only
    split_ifs
    · exact sentIn_initiateAndSend _ localPriv hasRelay d now
    · rfl
  have h_handshake : ∀ q : Peer S, sentIn (q.timerHandshake localPriv hasRelay d' now).1 = [] := by
    intro q
    unfold timerHandshake
    split_ifs
    · exact q.sentIn_initiateAndSend localPriv hasRelay d' now
    · split
      · split_ifs
        · exact sentIn_sendHandshake _ _
        · rfl
      · rfl
  dsimp only at hc
  rw [sentIn_append, sentIn_append, h_rotate, h_handshake, List.nil_append, List.append_nil] at hc
  -- what is left is the keepalive
  unfold timerKeepalive at hc
  split_ifs at hc
  · rcases encryptAndSend_seals _ [] hasRelay d now with h_nil | ⟨c', h_one, h_seals⟩
    · rw [h_nil] at hc
      cases hc
    · rw [h_one] at hc
      obtain rfl := List.mem_singleton.mp hc
      exact ⟨_, h_seals⟩
  · cases hc

end Peer

namespace PeerManager

theorem timerPeers_seals {localPriv : Bytes} {hasRelay : Bool} {now : Instant}
    (draws : ℕ → Draw S × Draw S) (idx : ℕ) (l : List (Peer S)) {c : Sealed S}
    (hc : c ∈ sentIn (timerPeers localPriv hasRelay draws now idx l).1) :
    ∃ (q : Peer S) (d : Draw S), q.Seals [] d c := by
  induction l generalizing idx with
  | nil => cases hc
  | cons p ps ih =>
    unfold timerPeers at hc
    dsimp only at hc
    rw [sentIn_append] at hc
    rcases List.mem_append.mp hc with hc | hc
    · obtain ⟨q, h⟩ := p.timer_seals localPriv hasRelay _ _ now hc
      exact ⟨q, _, h⟩
    · exact ih (idx + 1) hc

/-- The peer a packet is routed to. -/
def Routes (pm : PeerManager S) (packet : Bytes) (q : Peer S) : Prop :=
  ∃ src dst idx, parseIpv4Header packet = some (src, dst) ∧ pm.findBestPeerIdx dst = some idx ∧
    pm.peers[idx]? = some q

/-- What is read from the TUN device goes to the peer its destination is routed to, or nowhere. -/
theorem tunPacket_seals (pm : PeerManager S) (hasRelay : Bool) (packet : Bytes) (d : Draw S)
    (now : Instant) : sentIn (pm.tunPacket hasRelay packet d now).1 = [] ∨
      ∃ q c, pm.Routes packet q ∧ sentIn (pm.tunPacket hasRelay packet d now).1 = [c] ∧
        q.Seals packet d c := by
  unfold tunPacket
  split
  · exact Or.inl rfl
  · next src dst h_header =>
    split
    · exact Or.inl rfl
    · next idx h_best =>
      cases h_at : pm.peers[idx]? with
      | none => exact Or.inl rfl
      | some q =>
        rcases q.sendPacket_seals pm.localPriv packet hasRelay d now with h_nil | ⟨c, h_one, h_seals⟩
        · exact Or.inl h_nil
        · exact Or.inr ⟨q, c, ⟨src, dst, idx, h_header, h_best, h_at⟩, h_one, h_seals⟩

/-- A packet that comes in makes no data packet go out. -/
theorem sentIn_of_carries (pm : PeerManager S) (hasRelay : Bool) (now : Instant)
    {task : DaemonTask S} {packet : Bytes} (h_magic : ∀ p ∈ pm.peers, p.magic = pm.magic)
    (h : task.Carries packet) : sentIn (pm.step hasRelay now task).1 = [] := by
  refine List.eq_nil_iff_forall_not_mem.mpr fun c hc => ?_
  obtain ⟨dest, he⟩ := mem_sentIn.mp hc
  -- the events of each kind of packet are known, and no data packet is among them
  cases pm.handled hasRelay now h_magic h with
  | initiation payload hp h_turn =>
    rcases h_turn.mem_events he with ⟨t, h_eq⟩ | ⟨_, _, h_eq⟩
    · cases h_eq
    · cases h_eq
  | response payload hp h_type h_turn =>
    obtain ⟨_, _, h_eq | h_eq, -⟩ := h_turn.mem_events he
    · cases h_eq
    · cases h_eq
  | data payload hp h_data h_turn =>
    obtain ⟨p, -, -, k, s, padded, -, h_eq | ⟨h_eq, -⟩⟩ := h_turn.events _ he
    · cases h_eq
    · cases h_eq
  | ignored h_nil =>
    rw [h_nil] at he
    cases he

/-- **What a turn seals**: keepalives, or the one packet it read. -/
theorem sealed_of_step (pm : PeerManager S) (hasRelay : Bool) (now : Instant)
    (h_magic : ∀ p ∈ pm.peers, p.magic = pm.magic) {task : DaemonTask S} {c : Sealed S}
    (hc : c ∈ sentIn (pm.step hasRelay now task).1) :
    (∃ (q : Peer S) (d : Draw S), q.Seals [] d c) ∨
      ∃ packet d q, task = .tun packet d ∧ pm.Routes packet q ∧
        sentIn (pm.step hasRelay now task).1 = [c] ∧ q.Seals packet d c := by
  cases task with
  | timer draws => exact Or.inl (timerPeers_seals draws 0 pm.peers hc)
  | tun packet d =>
    rcases pm.tunPacket_seals hasRelay packet d now with h_nil | ⟨q, c', h_route, h_one, h_seals⟩
    · rw [show sentIn (pm.step hasRelay now (.tun packet d)).1 = [] from h_nil] at hc
      cases hc
    · have h_sent : sentIn (pm.step hasRelay now (.tun packet d)).1 = [c'] := h_one
      rw [h_sent] at hc
      obtain rfl := List.mem_singleton.mp hc
      exact Or.inr ⟨packet, d, q, rfl, h_route, h_sent, h_seals⟩
  | udp datagram addr d =>
    rw [pm.sentIn_of_carries hasRelay now h_magic (Or.inl ⟨addr, d, datagram, rfl, rfl⟩)] at hc
    cases hc
  | relayed fromKey packet d =>
    rw [pm.sentIn_of_carries hasRelay now h_magic (Or.inr ⟨fromKey, d, rfl⟩)] at hc
    cases hc
  | poll descriptors => cases hc

end PeerManager

/-! ### Writing -/

/-- The peer opens the packet to `o`, and owns the source address of the plaintext. -/
def Peer.Takes (p : Peer S) (payload : Bytes) (now : Instant) (o : Opened S) : Prop :=
  ∃ k s padded, p.Admits payload now k s padded ∧
    o = ⟨truncatePlaintext padded, s.state, packetNonce payload⟩ ∧ p.Allows o.plaintext

@[simp] theorem writtenIn_append (es es' : List (Event S)) :
    writtenIn (es ++ es') = writtenIn es ++ writtenIn es' := List.filterMap_append

/-- An empty plaintext is not written. -/
theorem writtenIn_writeTun (result : Option Bytes) :
    writtenIn (writeTun result : List (Event S)) = [] ∨
      ∃ plaintext, result = some plaintext ∧
        writtenIn (writeTun result : List (Event S)) = [plaintext] := by
  cases result with
  | none => exact Or.inl rfl
  | some plaintext =>
    unfold writeTun
    dsimp only
    split_ifs
    · exact Or.inr ⟨plaintext, rfl, rfl⟩
    · exact Or.inl rfl

namespace Peer

/-- Accepting a packet opens it; the dispatchers write it, later. -/
theorem writtenIn_acceptData (p : Peer S) (payload : Bytes) (now : Instant) :
    writtenIn (p.acceptData payload now).events = [] := by
  have h := p.accepted payload now
  generalize p.acceptData payload now = out at h ⊢
  cases h with
  | ignored => rfl
  | opened => rfl

/-- A peer that accepts a packet takes it. -/
theorem takes_of_accepted {p : Peer S} {payload plaintext : Bytes} {now : Instant}
    (h : (p.acceptData payload now).result = some plaintext) :
    ∃ o, p.Takes payload now o ∧ o.plaintext = plaintext ∧
      .opened o ∈ (p.acceptData payload now).events := by
  have h_acc := p.accepted payload now
  generalize p.acceptData payload now = out at h h_acc ⊢
  cases h_acc with
  | ignored => cases h
  | opened k s padded w h_admits result h_res =>
    obtain ⟨rfl, h_allows⟩ := h_res plaintext h
    exact ⟨_, ⟨k, s, padded, h_admits, rfl, h_allows⟩, rfl, List.mem_singleton_self _⟩

end Peer

theorem writtenIn_trialDecrypt (addr : SocketAddr) (payload : Bytes) (now : Instant)
    (l : List (Peer S)) : writtenIn (trialDecrypt addr payload now l).events = [] := by
  induction l with
  | nil => rfl
  | cons p ps ih =>
    unfold trialDecrypt
    split_ifs
    · exact ih
    · dsimp only
      split
      · exact p.writtenIn_acceptData payload now
      · show writtenIn ((p.acceptData payload now).events ++ _) = []
        rw [writtenIn_append, p.writtenIn_acceptData, ih]
        rfl

/-- If the trial loop comes to a plaintext, it stopped at a peer that took it, and that is recorded
at another address. -/
theorem takes_of_trialDecrypt {addr : SocketAddr} {payload plaintext : Bytes} {now : Instant}
    {l : List (Peer S)} (h : (trialDecrypt addr payload now l).result = some plaintext) :
    ∃ p ∈ l, p.endpoint ≠ some addr ∧ ∃ o, p.Takes payload now o ∧ o.plaintext = plaintext ∧
      .opened o ∈ (trialDecrypt addr payload now l).events := by
  induction l with
  | nil => cases h
  | cons p ps ih =>
    unfold trialDecrypt at h ⊢
    split_ifs at h ⊢ with h_ep
    · -- the peer was tried before the loop, and is passed over
      obtain ⟨q, hq, h_taken⟩ := ih h
      exact ⟨q, List.mem_cons_of_mem _ hq, h_taken⟩
    · dsimp only at h ⊢
      cases h_result : (p.acceptData payload now).result with
      | some pt =>
        rw [h_result] at h
        obtain rfl : pt = plaintext := Option.some.inj h
        exact ⟨p, List.mem_cons_self, h_ep, Peer.takes_of_accepted h_result⟩
      | none =>
        rw [h_result] at h
        obtain ⟨q, hq, h_ne, o, h_takes, h_pt, h_mem⟩ := ih h
        exact ⟨q, List.mem_cons_of_mem _ hq, h_ne, o, h_takes, h_pt,
          List.mem_append_right _ h_mem⟩

namespace PeerManager

/-- The data branch of the UDP dispatcher: somebody took what is decrypted. -/
theorem takes_of_udpDecrypt {pm : PeerManager S} {payload plaintext : Bytes} {addr : SocketAddr}
    {now : Instant} (h : (pm.udpDecrypt payload addr now).result = some plaintext) :
    ∃ p ∈ pm.peers, ∃ o, p.Takes payload now o ∧ o.plaintext = plaintext ∧
      .opened o ∈ (pm.udpDecrypt payload addr now).events := by
  unfold udpDecrypt at h ⊢
  rcases updateFirst_cases (fun p : Peer S => p.endpoint = some addr)
    (Peer.firstLook payload now) pm.peers with ⟨-, h_eq⟩ | ⟨l₁, p, l₂, hl, h_ep, -, h_eq⟩
  · -- nobody is at the address
    rw [show updateFirst _ _ pm.peers = _ from h_eq] at h ⊢
    obtain ⟨q, hq, -, o, h_takes, h_pt, h_mem⟩ := takes_of_trialDecrypt h
    exact ⟨q, hq, o, h_takes, h_pt, h_mem⟩
  · rw [show updateFirst _ _ pm.peers = _ from h_eq] at h ⊢
    have h_self : p ∈ pm.peers := by simp [hl]
    have h_kept := p.acceptData_endpoint payload now
    dsimp only [Peer.firstLook, Option.getD_some] at h ⊢
    cases h_result : (p.acceptData payload now).result with
    | some pt =>
      rw [h_result] at h
      obtain rfl : pt = plaintext := Option.some.inj h
      obtain ⟨o, h_takes, h_pt, h_mem⟩ := Peer.takes_of_accepted h_result
      exact ⟨p, h_self, o, h_takes, h_pt, h_mem⟩
    | none =>
      rw [h_result] at h
      obtain ⟨q, hq, h_ne, o, h_takes, h_pt, h_mem⟩ := takes_of_trialDecrypt h
      -- the peer at the address is passed over, so `q` is as it was
      have hq' : q ∈ pm.peers := by
        rw [hl]
        rcases List.mem_append.mp hq with hq | hq
        · exact List.mem_append_left _ hq
        rcases List.mem_cons.mp hq with rfl | hq
        · exact absurd (h_kept.trans (by simpa using h_ep)) h_ne
        · exact List.mem_append_right _ (List.mem_cons_of_mem _ hq)
      exact ⟨q, hq', o, h_takes, h_pt, List.mem_append_right _ h_mem⟩

theorem writtenIn_udpDecrypt (pm : PeerManager S) (payload : Bytes) (addr : SocketAddr)
    (now : Instant) : writtenIn (pm.udpDecrypt payload addr now).events = [] := by
  unfold udpDecrypt
  rcases updateFirst_cases (fun p : Peer S => p.endpoint = some addr)
    (Peer.firstLook payload now) pm.peers with ⟨-, h_eq⟩ | ⟨l₁, p, l₂, -, -, -, h_eq⟩
  · rw [show updateFirst _ _ pm.peers = _ from h_eq]
    exact writtenIn_trialDecrypt addr payload now pm.peers
  · rw [show updateFirst _ _ pm.peers = _ from h_eq]
    dsimp only [Peer.firstLook, Option.getD_some]
    cases (p.acceptData payload now).result with
    | some pt => exact p.writtenIn_acceptData payload now
    | none =>
      show writtenIn ((p.acceptData payload now).events ++ _) = []
      rw [writtenIn_append, p.writtenIn_acceptData, writtenIn_trialDecrypt]
      rfl

end PeerManager

/-! ### The turns that write nothing -/

/-- The machine of one peer whose steps write nothing. It is an instance of `Makes`, which spares
the timer and the TUN reader a walk through their branches. -/
def unwritten (S : Snow) : System (Peer S) (List (Event S)) where
  init _ := True
  step _ es _ := writtenIn es = []

theorem writtenIn_of_emits {p q : Peer S} {es : List (Event S)} (h : Emits (unwritten S) p es q) :
    writtenIn es = [] := by
  have h_init : writtenIn ([] : List (Event S)) = [] := rfl
  refine h.induct (fun es _ => writtenIn es = []) h_init ?_
  intro past _ es _ h_past h_step
  rw [writtenIn_append, h_past, h_step, List.append_nil]

theorem writtenIn_of_quietly {es : List (Event S)} (h : ∀ pt, .written pt ∉ es) :
    writtenIn es = [] :=
  List.eq_nil_iff_forall_not_mem.mpr fun pt hpt => h pt (mem_writtenIn.mp hpt)

namespace Peer

theorem writtenIn_sendHandshake (packet : Option Bytes) (dest : Option OutboundDest) :
    writtenIn (sendHandshake packet dest : List (Event S)) = [] := by
  unfold sendHandshake
  split <;> rfl

/-- The turns a node makes of its own are such steps. -/
theorem makes_unwritten : Makes (unwritten S) where
  forget _ := .single rfl
  clear _ := .single rfl
  initiate p localPriv hasRelay d now _ := by
    have h := p.initiated localPriv d now
    unfold initiateAndSend
    generalize p.initiateHandshake localPriv d now = out at h ⊢
    refine .single ?_
    show writtenIn (out.events ++ sendHandshake _ _) = []
    rw [writtenIn_append, writtenIn_sendHandshake, List.append_nil]
    cases h with
    | failed => rfl
    | begun => rfl
  encrypt p payload hasRelay d now := by
    have h := p.encrypted payload d now
    unfold encryptAndSend
    generalize p.encryptPacket payload d now = out at h ⊢
    refine .single ?_
    cases h with
    | inactive => rfl
    | failed => rfl
    | sent =>
      show writtenIn (_ ++ _) = []
      split <;> rfl
  resend _ dest _ := .single (writtenIn_sendHandshake _ dest)

end Peer

namespace PeerManager

theorem writtenIn_timerPeers {localPriv : Bytes} {hasRelay : Bool} {now : Instant}
    (draws : ℕ → Draw S × Draw S) (idx : ℕ) (l : List (Peer S)) :
    writtenIn (timerPeers localPriv hasRelay draws now idx l).1 = [] := by
  induction l generalizing idx with
  | nil => rfl
  | cons p ps ih =>
    unfold timerPeers
    dsimp only
    rw [writtenIn_append, ih]
    rw [writtenIn_of_emits (Peer.makes_unwritten.timer p localPriv hasRelay _ _ now)]
    rfl

theorem writtenIn_tunPacket (pm : PeerManager S) (hasRelay : Bool) (packet : Bytes) (d : Draw S)
    (now : Instant) : writtenIn (pm.tunPacket hasRelay packet d now).1 = [] := by
  unfold tunPacket
  split
  · rfl
  split
  · rfl
  split
  · rfl
  · next q _ =>
    exact writtenIn_of_emits (Peer.makes_unwritten.sendPacket q pm.localPriv packet hasRelay d now)

/-! ### What a turn writes -/

/-- One packet is written, and some peer of the table took it. -/
def TakesOne (pm : PeerManager S) (now : Instant) (task : DaemonTask S) (es : List (Event S)) :
    Prop :=
  ∃ payload p o, task.BringsData pm.magic payload ∧ p ∈ pm.peers ∧ p.Takes payload now o ∧
    .opened o ∈ es ∧ writtenIn es = [o.plaintext]

/-- The UDP dispatcher hands on what the look-up and the trial loop came to. -/
theorem udpData_takes (pm : PeerManager S) {payload : Bytes} {addr : SocketAddr} {now : Instant}
    {task : DaemonTask S} (h : task.BringsData pm.magic payload) :
    writtenIn (pm.udpData payload addr now).1 = [] ∨
      pm.TakesOne now task (pm.udpData payload addr now).1 := by
  rw [pm.udpData_eq]
  dsimp only
  rcases writtenIn_writeTun (S := S) (pm.udpDecrypt payload addr now).result with
    h_nil | ⟨plaintext, h_result, h_one⟩
  · left
    rw [writtenIn_append, pm.writtenIn_udpDecrypt, h_nil]
    rfl
  · obtain ⟨p, hp, o, h_takes, rfl, h_mem⟩ := takes_of_udpDecrypt h_result
    refine Or.inr ⟨payload, p, o, h, hp, h_takes, List.mem_append_left _ h_mem, ?_⟩
    rw [writtenIn_append, pm.writtenIn_udpDecrypt, h_one]
    rfl

/-- Through the relay there is one peer to try, the one whose key the packet came with. -/
theorem relayedData_takes (pm : PeerManager S) (fromKey : Bytes) {payload : Bytes} {now : Instant}
    {task : DaemonTask S} (h : task.BringsData pm.magic payload) {es : List (Event S)}
    (h_es : es = (pm.updatePeer (·.pubkey = fromKey) (relayedLook payload now)).1) :
    writtenIn es = [] ∨ pm.TakesOne now task es := by
  subst h_es
  unfold updatePeer
  rcases updateFirst_cases (fun p : Peer S => p.pubkey = fromKey) (relayedLook payload now) pm.peers
    with ⟨-, h_eq⟩ | ⟨l₁, p, l₂, hl, -, -, h_eq⟩
  · rw [h_eq]
    exact Or.inl rfl
  · rw [h_eq]
    dsimp only [Option.getD_some]
    rcases writtenIn_writeTun (S := S) (p.acceptData payload now).result with
      h_nil | ⟨plaintext, h_result, h_one⟩
    · left
      rw [writtenIn_append, p.writtenIn_acceptData, h_nil]
      rfl
    · obtain ⟨o, h_takes, rfl, h_mem⟩ := Peer.takes_of_accepted h_result
      refine Or.inr ⟨payload, p, o, h, by simp [hl], h_takes, List.mem_append_left _ h_mem, ?_⟩
      rw [writtenIn_append, p.writtenIn_acceptData, h_one]
      rfl

/-- A handshake packet, or one of no known type, writes nothing. -/
theorem writtenIn_of_not_data (pm : PeerManager S) (hasRelay : Bool) (now : Instant)
    {task : DaemonTask S} {packet : Bytes} (h_magic : ∀ p ∈ pm.peers, p.magic = pm.magic)
    (h : task.Carries packet) (h_not : ∀ payload, ¬ task.BringsData pm.magic payload) :
    writtenIn (pm.step hasRelay now task).1 = [] := by
  refine writtenIn_of_quietly fun pt he => ?_
  cases pm.handled hasRelay now h_magic h with
  | initiation payload hp h_turn =>
    rcases h_turn.mem_events he with ⟨t, h_eq⟩ | ⟨_, _, h_eq⟩
    · cases h_eq
    · cases h_eq
  | response payload hp h_type h_turn =>
    obtain ⟨_, _, h_eq | h_eq, -⟩ := h_turn.mem_events he
    · cases h_eq
    · cases h_eq
  | data payload hp h_data => exact h_not payload h_data
  | ignored h_nil =>
    rw [h_nil] at he
    cases he

/-- **What a turn writes**: nothing, or the one packet that somebody took. -/
theorem takes_of_step (pm : PeerManager S) (hasRelay : Bool) (now : Instant)
    (h_magic : ∀ p ∈ pm.peers, p.magic = pm.magic) (task : DaemonTask S) :
    writtenIn (pm.step hasRelay now task).1 = [] ∨
      pm.TakesOne now task (pm.step hasRelay now task).1 := by
  have h_inbound : ∀ packet, task.Carries packet →
      writtenIn (pm.step hasRelay now task).1 = [] ∨
        pm.TakesOne now task (pm.step hasRelay now task).1 := by
    intro packet h
    -- the two dispatchers have their data branch each, and the other branches write nothing
    by_cases h_data : ∃ payload, task.BringsData pm.magic payload
    · obtain ⟨payload, h_data⟩ := h_data
      obtain ⟨h_init, h_resp, ⟨addr, d, datagram, rfl, h_recv⟩ | ⟨fromKey, d, rfl⟩⟩ := id h_data
      · rw [step_received_data h_init h_resp hasRelay now h_recv]
        exact pm.udpData_takes h_data
      · refine pm.relayedData_takes fromKey h_data ?_
        rw [step_relayed_data h_init h_resp]
    · exact Or.inl (pm.writtenIn_of_not_data hasRelay now h_magic h fun payload hp =>
        h_data ⟨payload, hp⟩)
  cases task with
  | timer draws => exact Or.inl (writtenIn_timerPeers draws 0 pm.peers)
  | tun packet d => exact Or.inl (pm.writtenIn_tunPacket hasRelay packet d now)
  | udp datagram addr d => exact h_inbound _ (Or.inl ⟨addr, d, datagram, rfl, rfl⟩)
  | relayed fromKey packet d => exact h_inbound packet (Or.inr ⟨fromKey, d, rfl⟩)
  | poll descriptors => exact Or.inl rfl

end PeerManager
end AraxMesh
