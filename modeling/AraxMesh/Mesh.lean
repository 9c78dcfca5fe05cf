import AraxMesh.Loading
import AraxMesh.Overlay
import AraxMesh.Routing

/-!
# A coordinated network

The coordinator and the overlay at once. The registry goes through a run of its own, the nodes go
through theirs, and between the two go lists of descriptors: the one a node starts with, and one for
every poll. A list is what the registry had for the node at some moment of its run (`Listed`), so
the tables of different nodes can be old and disagree with each other.

`mesh_secure` says that they never disagree about an address. Addresses are not given up and not
given twice, so whoever a table has at an address is its owner in the end, and with that the
sessions of `Overlay` are between addresses: a packet a node writes to its TUN device carries the
address of the node that read it, and was sent to the address of the node that writes it.
`mesh_converges` adds who is in a table: whoever a list had stays, and can be reached.

## Proof sketch

1. `Owns` says that a key is registered with an address, and no call undoes it (`Called.owns`). So
   what was listed at some moment is true of the registry in the end, however old the list is
   (`Listed.owns`).
2. A table is `Placed` if each peer has one route, to an address its key owns in the end. Only polls
   and the start write routes (`shares_route`, an instance of `Shares`), and what they write is
   listed. So every table is placed at every moment (`Coordinated.placed`, by induction on the run
   of the overlay).
3. In a placed table routing is ownership, as addresses have one owner (`Placed.agrees`).
4. `overlay_secure` has the packet written go back to a packet read. The sender routed it by its
   destination, the receiver checked its source, and both tables agree with the registry. Padding
   and truncating leave the two addresses as they are (`header_of_truncated`).
5. For convergence, a key stays in the table through every turn but a poll, and through a poll that
   lists it (`mem_keys_of_step`). So it is there at the end if every poll from one moment on lists
   it and one is made (`mem_keys_of_polls`).

The registry takes any text for a key. What is assumed is that the calls present keys as daemons
write them (`RegistryCall.Canonical`): otherwise one key could be registered twice, in two
spellings, as `one_address_broken` shows. Endpoints may be anything, but a list only gives the nodes
whose endpoints parse (`NodeRecord.Located`).
-/

namespace AraxMesh

open LTS Text FirstMatch Reconcile

variable {S : Snow} {N : Type}

/-! ### Who owns an address -/

/-- A key has one text, as it can be read back. -/
theorem hexEncode_injective : Function.Injective hexEncode := by
  intro key key' h
  have h_decode := congrArg hexDecode h
  rw [hexDecode_hexEncode, hexDecode_hexEncode] at h_decode
  exact Option.some.inj h_decode

namespace Registry

/-- The node with this key is registered, and has this address. -/
def Owns (r : Registry) (key : Bytes) (ip : Ipv4Addr) : Prop :=
  ∃ n, r.nodes.lookup (hexEncode key) = some n ∧ n.allowedIp = ip.display

variable {r r' : Registry} {key key' : Bytes} {ip ip' : Ipv4Addr}

/-- An address has one owner. -/
theorem Proper.owner_eq (h : r.Proper) (h_owns : r.Owns key ip) (h_owns' : r.Owns key' ip) :
    key = key' := by
  obtain ⟨n, hn, h_ip⟩ := h_owns
  obtain ⟨n', hn', h_ip'⟩ := h_owns'
  exact hexEncode_injective (h.distinct _ _ n n' hn hn' (h_ip.trans h_ip'.symm))

/-- An owner has one address. -/
theorem Owns.address_eq (h : r.Owns key ip) (h' : r.Owns key ip') : ip = ip' := by
  obtain ⟨n, hn, h_ip⟩ := h
  obtain ⟨n', hn', h_ip'⟩ := h'
  obtain rfl := Option.some.inj (hn.symm.trans hn')
  have h_parse := congrArg parseIpv4 (h_ip.symm.trans h_ip')
  rw [parseIpv4_display, parseIpv4_display] at h_parse
  exact Option.some.inj h_parse

/-- No call takes an address from its owner. -/
theorem Called.owns {c : RegistryCall} {file : Option FileWrite} (h_call : r.Called c r' file)
    (h : r.Owns key ip) : r'.Owns key ip := by
  obtain ⟨n, hn, h_ip⟩ := h
  cases h_call with
  | refused => exact ⟨n, hn, h_ip⟩
  | changed m m' hm h_key h_same =>
    by_cases h_eq : hexEncode key = c.publicKey
    · -- the record that is refreshed keeps its address
      rw [← h_eq] at hm ⊢
      obtain rfl := Option.some.inj (hm.symm.trans hn)
      exact ⟨m', Finmap.lookup_insert _, h_same.trans h_ip⟩
    · exact ⟨n, by rw [Finmap.lookup_insert_of_ne _ h_eq, hn], h_ip⟩
  | added h_adds =>
    -- the record that is added has another key
    have h_ne : hexEncode key ≠ c.publicKey := by
      intro h_eq
      exact h_adds.new (h_eq ▸ Finmap.mem_of_lookup_eq_some hn)
    exact ⟨n, by rw [Finmap.lookup_insert_of_ne _ h_ne, hn], h_ip⟩

/-- **Addresses are not given up**, in any run. -/
theorem owns_of_exec {storage : Storage} {alloc : IpAllocator} {calls : List RegistryCall}
    (h_run : Exec (registry storage alloc) r calls r') (h : r.Owns key ip) : r'.Owns key ip := by
  refine h_run.invariant (fun r => r.Owns key ip) h ?_
  rintro r c r' h rfl
  exact (r.called storage c).owns h

/-- A descriptor for a node asks for the host route of an address its key owns. -/
theorem Proper.owns_of_wanted (h : r.Proper) {y : Str} {ds : List PeerDescriptor}
    (h_ds : (ds : Multiset PeerDescriptor) = r.peersFor y) {w : ParsedPeer}
    (hw : w ∈ AraxMesh.wanted ds) : ∃ ip, r.Owns w.pubkey ip ∧ w.allowedIps = [⟨ip, 32⟩] := by
  obtain ⟨x, n, ip, hn, -, hx, h_ip, h_route⟩ := h.wanted h_ds hw
  obtain ⟨key, h_len, rfl⟩ := h.key x n hn
  obtain rfl := Option.some.inj ((identity_hexEncode h_len).symm.trans hx)
  exact ⟨ip, ⟨n, hn, h_ip⟩, h_route⟩

end Registry

/-- At some moment of the run from `r₀` to `r`, the registry had this list for the node that
registers as `x`. -/
def Listed (storage : Storage) (alloc : IpAllocator) (r₀ : Registry) (calls : List RegistryCall)
    (r : Registry) (x : Str) (ds : List PeerDescriptor) : Prop :=
  ∃ r' before after, before ++ after = calls ∧ Exec (registry storage alloc) r₀ before r' ∧
    Exec (registry storage alloc) r' after r ∧ (ds : Multiset PeerDescriptor) = r'.peersFor x

/-- Whatever a list asks for is as the registry has it in the end. -/
theorem Listed.owns {storage : Storage} {alloc : IpAllocator} {r₀ r : Registry}
    {calls : List RegistryCall} {x : Str} {ds : List PeerDescriptor}
    (h_init : (registry storage alloc).init r₀) (h_canonical : ∀ c ∈ calls, c.Canonical)
    (h : Listed storage alloc r₀ calls r x ds) {w : ParsedPeer} (hw : w ∈ wanted ds) :
    ∃ ip, r.Owns w.pubkey ip ∧ w.allowedIps = [⟨ip, 32⟩] := by
  obtain ⟨r', before, after, rfl, h_before, h_after, h_ds⟩ := h
  have h_proper : r'.Proper := Registry.proper_of_run h_init h_before fun c hc =>
    h_canonical c (List.mem_append_left _ hc)
  obtain ⟨ip, h_owns, h_route⟩ := h_proper.owns_of_wanted h_ds hw
  exact ⟨ip, Registry.owns_of_exec h_after h_owns, h_route⟩

/-! ### What a turn does to routes -/

namespace Peer

/-- The peer keeps its key and its subnets. -/
structure SameRoute (p q : Peer S) : Prop where
  pubkey : q.pubkey = p.pubkey
  allowedIps : q.allowedIps = p.allowedIps

/-! Every operation of a peer leaves its route alone. -/

theorem SameRoute.refl (p : Peer S) : p.SameRoute p := ⟨rfl, rfl⟩

theorem SameRoute.trans {p q r : Peer S} (h : p.SameRoute q) (h' : q.SameRoute r) :
    p.SameRoute r :=
  ⟨h'.pubkey.trans h.pubkey, h'.allowedIps.trans h.allowedIps⟩

theorem initiateAndSend_route (p : Peer S) (localPriv : Bytes) (hasRelay : Bool) (d : Draw S)
    (now : Instant) : p.SameRoute (p.initiateAndSend localPriv hasRelay d now).2 := by
  have h := p.initiated localPriv d now
  unfold initiateAndSend
  generalize p.initiateHandshake localPriv d now = out at h ⊢
  cases h with
  | failed => exact .refl p
  | begun => exact ⟨rfl, rfl⟩

theorem encryptAndSend_route (p : Peer S) (payload : Bytes) (hasRelay : Bool) (d : Draw S)
    (now : Instant) : p.SameRoute (p.encryptAndSend payload hasRelay d now).2.2 := by
  have h := p.encrypted payload d now
  unfold encryptAndSend
  generalize p.encryptPacket payload d now = out at h ⊢
  cases h with
  | inactive => exact .refl p
  | failed => exact ⟨rfl, rfl⟩
  | sent => exact ⟨rfl, rfl⟩

theorem respond_route (p : Peer S) (hs : S.HandshakeState) (magic : MagicConfig) (d : Draw S)
    (now : Instant) : p.SameRoute (p.respond hs magic d now).state := by
  have h := p.responded hs magic d now
  generalize p.respond hs magic d now = out at h ⊢
  cases h with
  | failed => exact .refl p
  | installed => exact ⟨rfl, rfl⟩

theorem handleHandshakePacket_route (p : Peer S) (localPriv : Bytes) (packetType : UInt8)
    (payload : Bytes) (d : Draw S) (now : Instant) :
    p.SameRoute (p.handleHandshakePacket localPriv packetType payload d now).state := by
  have h := p.handled localPriv packetType payload d now
  generalize p.handleHandshakePacket localPriv packetType payload d now = out at h ⊢
  cases h with
  | ignored => exact .refl p
  | responded hs => exact p.respond_route hs p.magic d now
  | answered h =>
    cases h with
    | idle => exact .refl p
    | rejected => exact ⟨rfl, rfl⟩
    | abandoned => exact ⟨rfl, rfl⟩
    | completed => exact ⟨rfl, rfl⟩

theorem acceptData_route (p : Peer S) (payload : Bytes) (now : Instant) :
    p.SameRoute (p.acceptData payload now).state := by
  have h := p.accepted payload now
  generalize p.acceptData payload now = out at h ⊢
  cases h with
  | ignored => exact .refl p
  | opened k s padded w => cases k <;> exact ⟨rfl, rfl⟩

/-- The machine whose steps leave routes alone. -/
def routeSystem (S : Snow) : System (Peer S) (List (Event S)) where
  init _ := True
  step p _ q := p.SameRoute q

theorem sameRoute_of_emits {p q : Peer S} {es : List (Event S)}
    (h : Emits (routeSystem S) p es q) : p.SameRoute q :=
  h.invariant p.SameRoute (.refl p) fun _ _ _ h_past h_step => h_past.trans h_step

theorem makes_route : Makes (routeSystem S) where
  forget _ := .single ⟨rfl, rfl⟩
  clear _ := .single ⟨rfl, rfl⟩
  initiate p localPriv hasRelay d now _ :=
    .single (p.initiateAndSend_route localPriv hasRelay d now)
  encrypt p payload hasRelay d now := .single (p.encryptAndSend_route payload hasRelay d now)
  resend _ _ _ := .single ⟨rfl, rfl⟩

end Peer

/-- **Only polls change routes.** -/
theorem PeerManager.shares_route (pm : PeerManager S) (hasRelay : Bool) (now : Instant)
    (task : DaemonTask S) : pm.Shares hasRelay now task Peer.SameRoute where
  refl := .refl
  timer _ _ p d d' :=
    Peer.sameRoute_of_emits (Peer.makes_route.timer p pm.localPriv hasRelay d d' now)
  tun packet d _ p :=
    Peer.sameRoute_of_emits (Peer.makes_route.sendPacket p pm.localPriv packet hasRelay d now)
  udpInit _ addr d _ hs p _ :=
    have h_resp := Peer.respond_route { p with endpoint := some addr, lastDirectRx := now } hs
      pm.magic d now
    ⟨h_resp.pubkey, h_resp.allowedIps⟩
  udpResp packetType payload _ d _ p :=
    (p.handleHandshakePacket_route pm.localPriv packetType payload d now).trans ⟨rfl, rfl⟩
  udpData payload addr _ _ :=
    pm.udpData_forall₂ addr .refl (fun _ _ _ => .trans) (fun p => p.acceptData_route payload now)
      (fun _ => ⟨rfl, rfl⟩) (fun _ => ⟨rfl, rfl⟩)
  relayedInit _ _ d _ hs p := p.respond_route hs pm.magic d now
  relayedResp _ packetType payload d _ p :=
    p.handleHandshakePacket_route pm.localPriv packetType payload d now
  relayedData _ _ payload _ _ p := p.acceptData_route payload now

/-! ### What the tables have -/

/-- Every peer of the table has one route, to an address its key owns. -/
def PeerManager.Placed (pm : PeerManager S) (r : Registry) : Prop :=
  ∀ p ∈ pm.peers, ∃ ip, r.Owns p.pubkey ip ∧ p.allowedIps = [⟨ip, 32⟩]

/-- The table agrees with the registry about addresses: what it routes goes to the owner, the owner
is found if it is in the table, and nobody else is accepted as the source. -/
structure PeerManager.Agrees (pm : PeerManager S) (r : Registry) : Prop where
  routed : ∀ d i q, pm.findBestPeerIdx d = some i → pm.peers[i]? = some q → r.Owns q.pubkey d
  found : ∀ p ∈ pm.peers, ∀ d, r.Owns p.pubkey d →
    ∃ i q, pm.findBestPeerIdx d = some i ∧ pm.peers[i]? = some q ∧ q.pubkey = p.pubkey
  accepted : ∀ p ∈ pm.peers, ∀ s, p.allowedIps.any (·.contains s) = true ↔ r.Owns p.pubkey s

namespace PeerManager

variable {r : Registry} {pm : PeerManager S}

/-- **A placed table agrees with the registry.** -/
theorem Placed.agrees (h : pm.Placed r) (h_proper : r.Proper) : pm.Agrees r := by
  have h_host : ∀ p ∈ pm.peers, ∀ d, p.matches d ≠ [] ↔ r.Owns p.pubkey d := by
    intro p hp d
    obtain ⟨ip, h_owns, h_route⟩ := h p hp
    rw [Peer.matches_host h_route]
    constructor
    · rintro rfl
      exact h_owns
    · exact fun h_owns' => h_owns'.address_eq h_owns
  have h_routed : ∀ d i q, pm.findBestPeerIdx d = some i → pm.peers[i]? = some q →
      r.Owns q.pubkey d := by
    intro d i q h_best hi
    exact (h_host q (List.mem_of_getElem? hi) d).mp
      ((findBestPeerIdx_eq_some_iff hi).mp h_best).1
  refine ⟨h_routed, ?_, ?_⟩
  · intro p hp d h_owns
    cases h_best : pm.findBestPeerIdx d with
    | none =>
      rw [findBestPeerIdx_eq, FirstMax.firstMax_eq_none_iff] at h_best
      exact absurd (h_best p hp) ((h_host p hp d).mpr h_owns)
    | some i =>
      -- whoever is found owns the address too
      obtain ⟨q, hi⟩ : ∃ q, pm.peers[i]? = some q := by
        rw [findBestPeerIdx_eq, FirstMax.firstMax_eq_some_iff] at h_best
        obtain ⟨q, _, hi, -⟩ := h_best
        exact ⟨q, hi⟩
      exact ⟨i, q, rfl, hi, h_proper.owner_eq (h_routed d i q h_best hi) h_owns⟩
  · intro p hp s
    rw [← h_host p hp s, ne_eq, Peer.matches_eq_nil, Bool.not_eq_false]

/-- A turn that changes no route leaves the table placed. -/
theorem Placed.forall₂ {pm' : PeerManager S} (h : pm.Placed r)
    (h_same : List.Forall₂ Peer.SameRoute pm.peers pm'.peers) : pm'.Placed r := by
  intro q hq
  obtain ⟨p, hp, h_route⟩ := forall₂_mem_right h_same hq
  obtain ⟨ip, h_owns, h_ip⟩ := h p hp
  exact ⟨ip, h_route.pubkey ▸ h_owns, h_route.allowedIps.trans h_ip⟩

/-- A peer after a poll has the route it had, or the route it was given. -/
theorem route_of_syncPeers {ds : List PeerDescriptor} {now : Instant} {q : Peer S}
    (hq : q ∈ (pm.syncPeers ds now).2.peers) :
    q ∈ pm.peers ∨ ∃ w ∈ wanted ds, q.pubkey = w.pubkey ∧ q.allowedIps = w.allowedIps := by
  have h_lookup := lookup_syncPeers pm ds now q.pubkey
  rw [syncPeers_eq] at hq h_lookup
  refine (Table.mem_reconcile hq).imp_right fun h_first => ?_
  obtain ⟨w, hw, h_eq⟩ := Option.map_eq_some_iff.mp (h_lookup.symm.trans h_first)
  obtain ⟨h_mem, h_key⟩ := advertised_eq_some hw
  refine ⟨w, h_mem, h_key.symm, ?_⟩
  rw [← h_eq]
  cases pm.lookup q.pubkey <;> rfl

end PeerManager

/-! ### The header of a packet on its way -/

/-- A packet with a header has a total length. -/
theorem exists_totalLength {packet : Bytes} {addrs : Ipv4Addr × Ipv4Addr}
    (h : parseIpv4Header packet = some addrs) :
    ∃ n, parseIpv4TotalLength packet = some n ∧ 20 ≤ packet.length := by
  have h_some : (parseIpv4TotalLength packet).isSome := by
    rw [parseIpv4TotalLength_isSome_iff, h]
    rfl
  obtain ⟨n, hn⟩ := Option.isSome_iff_exists.mp h_some
  exact ⟨n, hn, length_of_parseIpv4TotalLength hn⟩

/-- A packet that is padded and truncated keeps its header, if it has one at all afterwards. -/
theorem header_of_truncated {packet : Bytes} {addrs addrs' : Ipv4Addr × Ipv4Addr}
    {pad : Padding 128} (h : parseIpv4Header packet = some addrs)
    (h' : parseIpv4Header (truncatePlaintext (Peer.padPayload packet pad)) = some addrs') :
    parseIpv4Header packet = some addrs' := by
  obtain ⟨n, h_total, h_len⟩ := exists_totalLength h
  obtain ⟨-, -, h_len'⟩ := exists_totalLength h'
  rw [Peer.truncatePlaintext_padPayload_of_some h_total] at h' h_len'
  calc parseIpv4Header packet
      = parseIpv4Header (packet ++ pad.val) :=
        (parseIpv4Header_append h_len _).symm
    _ = parseIpv4Header ((packet ++ pad.val).take n ++ (packet ++ pad.val).drop n) := by
        rw [List.take_append_drop]
    _ = parseIpv4Header ((packet ++ pad.val).take n) :=
        parseIpv4Header_append h_len' _
    _ = some addrs' := h'

/-! ### Both at once -/

/-- The nodes start with lists of the registry, and poll for lists of the registry, under the keys
they handshake with. -/
structure Coordinated (storage : Storage) (alloc : IpAllocator) (r₀ : Registry)
    (calls : List RegistryCall) (r : Registry) (pub : Bytes → Bytes) (s₀ : N → PeerManager S)
    (ls : List (N × DaemonLabel S)) : Prop where
  started : ∀ x, ∃ ds now,
    Listed storage alloc r₀ calls r (hexEncode (pub (s₀ x).localPriv)) ds ∧
      s₀ x = PeerManager.loaded S (s₀ x).localPriv (s₀ x).magic ds now
  polled : ∀ x l ds, (x, l) ∈ ls → l.task = .poll ds →
    Listed storage alloc r₀ calls r (hexEncode (pub (s₀ x).localPriv)) ds

/-- The table a node starts with is one a daemon starts with. -/
theorem PeerManager.initial_loaded (S : Snow) (localPriv : Bytes) (magic : MagicConfig)
    (ds : List PeerDescriptor) (now : Instant) : (loaded S localPriv magic ds now).Initial := by
  refine ⟨localPriv, wanted ds, magic, now, fun w hw => ?_, rfl⟩
  obtain ⟨d, -, h_parse⟩ := List.mem_filterMap.mp hw
  exact ⟨d.toSpec, h_parse⟩

section Runs

variable {storage : Storage} {alloc : IpAllocator} {r₀ r : Registry} {calls : List RegistryCall}
  {pub : Bytes → Bytes} {hasRelay : N → Bool} {s₀ s : N → PeerManager S}
  {ls : List (N × DaemonLabel S)}

/-- A coordinated network starts as a network does. -/
theorem Coordinated.init (h : Coordinated storage alloc r₀ calls r pub s₀ ls) :
    (overlay S hasRelay).init s₀ := by
  intro x
  obtain ⟨ds, now, -, h_eq⟩ := h.started x
  rw [h_eq]
  exact PeerManager.initial_loaded S _ _ ds now

/-- **Every table is placed, at every moment of the run.** -/
theorem Coordinated.placed (h : Coordinated storage alloc r₀ calls r pub s₀ ls)
    (h_init : (registry storage alloc).init r₀) (h_canonical : ∀ c ∈ calls, c.Canonical)
    (h_run : Exec (overlay S hasRelay) s₀ ls s) : ∀ x, (s x).Placed r := by
  revert h
  refine h_run.induct (fun ls s => Coordinated storage alloc r₀ calls r pub s₀ ls →
    ∀ x, (s x).Placed r) ?_ ?_
  · intro h x p hp
    obtain ⟨ds, now, h_listed, h_eq⟩ := h.started x
    rw [h_eq, PeerManager.loaded_peers] at hp
    obtain ⟨w, hw, rfl⟩ := List.mem_map.mp hp
    exact h_listed.owns h_init h_canonical hw
  · rintro ls s ⟨y, l⟩ s' - ih ⟨h_step, h_rest⟩ h x
    have h_before : ∀ x, (s x).Placed r := ih ⟨h.started, fun x l ds hl =>
      h.polled x l ds (List.mem_append_left _ hl)⟩
    by_cases h_eq : x = y
    · subst h_eq
      obtain h_turn : ((s x).step (hasRelay x) l.now l.task).2 = s' x := congrArg Prod.snd h_step
      rw [← h_turn]
      by_cases h_poll : ∃ ds, l.task = .poll ds
      · obtain ⟨ds, h_task⟩ := h_poll
        rw [h_task]
        intro q hq
        rcases PeerManager.route_of_syncPeers hq with hq | ⟨w, hw, h_key, h_ips⟩
        · exact h_before x q hq
        · have h_listed := h.polled x l ds (by simp) h_task
          rw [h_key, h_ips]
          exact h_listed.owns h_init h_canonical hw
      · exact (h_before x).forall₂ (((s x).shares_route (hasRelay x) l.now l.task).step
          fun ds h_task => h_poll ⟨ds, h_task⟩)
    · rw [h_rest x h_eq]
      exact h_before x

/-- What a peer of a placed table takes comes from an address its key owns. -/
theorem Writes.source {i : ℕ} {x : N} {u : N → PeerManager S} {l : DaemonLabel S} {p : Peer S}
    {o : Opened S} (h : Writes hasRelay s₀ ls i x u l p o) (h_agrees : (u x).Agrees r) :
    ∃ src dst, parseIpv4Header o.plaintext = some (src, dst) ∧ r.Owns p.pubkey src := by
  obtain ⟨payload, -, k, a, padded, -, rfl, src, dst, h_header, h_allows⟩ := h.taken
  exact ⟨src, dst, h_header, (h_agrees.accepted p h.peer src).mp h_allows⟩

/-- What is read for a peer of a placed table goes to an address its key owns. -/
theorem Reads.destination {j : ℕ} {z : N} {v : N → PeerManager S} {l : DaemonLabel S} {q : Peer S}
    {packet : Bytes} {d : Draw S} {c : Sealed S}
    (h : Reads hasRelay s₀ ls j z v l q packet d c) (h_agrees : (v z).Agrees r) :
    ∃ src dst, parseIpv4Header packet = some (src, dst) ∧ r.Owns q.pubkey dst := by
  obtain ⟨src, dst, idx, h_header, h_best, h_at⟩ := h.routes
  exact ⟨src, dst, h_header, h_agrees.routed dst idx q h_best h_at⟩

/-- **A coordinated network delivers by address.** In every run of a network whose nodes get their
tables from one registry, however old the lists are that they got last:

* no two keys own one address;
* every table agrees with the registry, whatever node has it and whenever;
* what a node writes to its TUN device comes from an address that the key of its peer owns;
* if that is the key of a node, then this node owns the source address and read a packet with the
  same addresses, and the writing node owns the destination. -/
theorem mesh_secure [DecidableEq N] {ends : S.Transport → S.Transport → Prop}
    (h_paired : S.Paired ends pub) (h_completes : S.Completes)
    (h_init : (registry storage alloc).init r₀) (h_calls : Exec (registry storage alloc) r₀ calls r)
    (h_canonical : ∀ c ∈ calls, c.Canonical)
    (h_coordinated : Coordinated storage alloc r₀ calls r pub s₀ ls)
    (h_run : Exec (overlay S hasRelay) s₀ ls s) (h_fresh : (installs ls).Nodup)
    (h_forgery : NoForgery ends pub s₀ ls) :
    (∀ key key' ip, r.Owns key ip → r.Owns key' ip → key = key') ∧
    (∀ i u x, Exec (overlay S hasRelay) s₀ (ls.take i) u → (u x).Agrees r) ∧
    (∀ i x u l p o, Writes hasRelay s₀ ls i x u l p o →
      ∃ src dst, parseIpv4Header o.plaintext = some (src, dst) ∧ r.Owns p.pubkey src) ∧
    ∀ i x u l p o, Writes hasRelay s₀ ls i x u l p o → (∃ y, p.pubkey = pub (s₀ y).localPriv) →
      ∃ j z q packet src dst, Carries ends hasRelay s₀ ls i j x z p q o packet ∧
        parseIpv4Header packet = some (src, dst) ∧
        parseIpv4Header o.plaintext = some (src, dst) ∧
        r.Owns (pub (s₀ z).localPriv) src ∧ r.Owns (pub (s₀ x).localPriv) dst := by
  have h_proper : r.Proper := Registry.proper_of_run h_init h_calls h_canonical
  have h_agrees : ∀ i u x, Exec (overlay S hasRelay) s₀ (ls.take i) u → (u x).Agrees r := by
    intro i u x h_before
    have h_taken : Coordinated storage alloc r₀ calls r pub s₀ (ls.take i) :=
      ⟨h_coordinated.started, fun x l ds hl =>
        h_coordinated.polled x l ds (List.mem_of_mem_take hl)⟩
    exact (h_taken.placed h_init h_canonical h_before x).agrees h_proper
  refine ⟨fun key key' ip => h_proper.owner_eq, h_agrees, ?_, ?_⟩
  · intro i x u l p o h
    exact h.source (h_agrees i u x h.before)
  · rintro i x u l p o h ⟨y, h_key⟩
    obtain ⟨j, z, q, packet, h_carries, h_from, h_to, pad, h_plain⟩ :=
      h.origin h_paired h_completes h_coordinated.init h_run h_fresh h_forgery h_key
    obtain ⟨src, dst, h_header, h_source⟩ := h.source (h_agrees i u x h.before)
    have h_parts := h_carries
    obtain ⟨-, _, _, v, m, d, c, -, h_reads, -⟩ := h_parts
    obtain ⟨src', dst', h_header', h_dest⟩ := h_reads.destination (h_agrees j v z h_reads.before)
    -- what is written has the header of what was read
    rw [h_plain] at h_header
    obtain ⟨rfl, rfl⟩ := Prod.mk.inj (Option.some.inj
      ((header_of_truncated h_header' h_header).symm.trans h_header'))
    refine ⟨j, z, q, packet, _, _, h_carries, h_header', h_plain ▸ h_header, ?_, ?_⟩
    · exact h_from ▸ h_source
    · exact h_to ▸ h_dest

end Runs

/-! ### Who can be reached -/

/-- At some moment of the run when a node with this key was registered, with an endpoint that is
empty or parses, the registry had this list for the node that registers as `x`. -/
def ListedWith (storage : Storage) (alloc : IpAllocator) (r₀ : Registry)
    (calls : List RegistryCall) (key : Bytes) (x : Str) (ds : List PeerDescriptor) : Prop :=
  ∃ r' before after, before ++ after = calls ∧ Exec (registry storage alloc) r₀ before r' ∧
    (∃ n, r'.nodes.lookup (hexEncode key) = some n ∧ n.Located) ∧
    (ds : Multiset PeerDescriptor) = r'.peersFor x

section Reach

variable {storage : Storage} {alloc : IpAllocator} {r₀ r : Registry} {calls : List RegistryCall}
  {pub : Bytes → Bytes} {hasRelay : N → Bool} {s₀ s : N → PeerManager S}
  {ls : List (N × DaemonLabel S)} {key : Bytes}

/-- Such a list asks for the node. -/
theorem ListedWith.mem_wanted {x : Str} {ds : List PeerDescriptor}
    (h_init : (registry storage alloc).init r₀) (h_canonical : ∀ c ∈ calls, c.Canonical)
    (h : ListedWith storage alloc r₀ calls key x ds) (h_other : hexEncode key ≠ x) :
    ∃ w ∈ wanted ds, w.pubkey = key := by
  obtain ⟨r', before, after, rfl, h_before, ⟨n, hn, h_located⟩, h_ds⟩ := h
  have h_proper : r'.Proper := Registry.proper_of_run h_init h_before fun c hc =>
    h_canonical c (List.mem_append_left _ hc)
  obtain ⟨w, hw, h_key⟩ := h_proper.mem_wanted h_ds hn h_located h_other
  obtain ⟨key', h_len, h_eq⟩ := h_proper.key _ n hn
  obtain rfl := hexEncode_injective h_eq
  exact ⟨w, hw, (Option.some.inj ((identity_hexEncode h_len).symm.trans h_key)).symm⟩

/-- A turn keeps a key in the table, if it is no poll or one that lists the key. -/
theorem PeerManager.mem_keys_of_step {pm : PeerManager S} {hasRelay : Bool} {now : Instant}
    {task : DaemonTask S} (h : key ∈ pm.keys)
    (h_poll : ∀ ds, task = .poll ds → ∃ w ∈ wanted ds, w.pubkey = key) :
    key ∈ (pm.step hasRelay now task).2.keys := by
  by_cases h_task : ∃ ds, task = .poll ds
  · obtain ⟨ds, rfl⟩ := h_task
    exact mem_keys_syncPeers.mpr (h_poll ds rfl)
  · obtain ⟨p, hp, rfl⟩ := mem_keys.mp h
    have h_turn := (pm.shares_route hasRelay now task).step fun ds h => h_task ⟨ds, h⟩
    obtain ⟨q, hq, h_route⟩ := forall₂_mem_right h_turn.flip hp
    exact mem_keys.mpr ⟨q, hq, h_route.pubkey⟩

/-- **A key stays in the table** of a node from its poll at label `i` on, if that one and all later
ones list it. By induction on the label: only a turn of the node itself changes its table. -/
theorem mem_keys_of_polls [DecidableEq N] {x : N} {i : ℕ}
    (h_first : ∃ l ds, ls[i]? = some (x, l) ∧ l.task = .poll ds)
    (h_listed : ∀ j l ds, i ≤ j → ls[j]? = some (x, l) → l.task = .poll ds →
      ∃ w ∈ wanted ds, w.pubkey = key) :
    ∀ j u, i < j → Exec (overlay S hasRelay) s₀ (ls.take j) u → key ∈ (u x).keys := by
  intro j
  induction j with
  | zero => exact fun u h_lt => absurd h_lt (Nat.not_lt_zero _)
  | succ j ih =>
    intro u h_lt h_run
    cases h_at : ls[j]? with
    | none =>
      -- the run is over
      have h_len : ls.length ≤ j := List.getElem?_eq_none_iff.mp h_at
      have h_take : ls.take (j + 1) = ls.take j := by
        rw [List.take_of_length_le h_len, List.take_of_length_le (h_len.trans (Nat.le_succ j))]
      refine ih u ?_ (h_take ▸ h_run)
      obtain ⟨l, ds, h_poll, -⟩ := h_first
      exact (List.getElem?_eq_some_iff.mp h_poll).1.trans_le h_len
    | some yl =>
      obtain ⟨y, l⟩ := yl
      rw [List.take_add_one, h_at, Option.toList_some] at h_run
      obtain ⟨v, h_before, h_step, h_rest⟩ := h_run.cut_last
      by_cases h_eq : y = x
      · subst h_eq
        have h_now : ∀ ds, l.task = .poll ds → ∃ w ∈ wanted ds, w.pubkey = key :=
          fun ds h_task => h_listed j l ds (Nat.lt_succ_iff.mp h_lt) h_at h_task
        have h_turn : ((v y).step (hasRelay y) l.now l.task).2 = u y := congrArg Prod.snd h_step
        rw [← h_turn]
        rcases Nat.lt_succ_iff_lt_or_eq.mp h_lt with h_lt | rfl
        · exact PeerManager.mem_keys_of_step (ih v h_lt h_before) h_now
        · -- the first of the polls
          obtain ⟨l', ds, h_poll, h_task⟩ := h_first
          obtain ⟨-, rfl⟩ := Prod.mk.inj (Option.some.inj (h_at.symm.trans h_poll))
          rw [h_task]
          exact PeerManager.mem_keys_syncPeers.mpr (h_now ds h_task)
      · rw [h_rest x (Ne.symm h_eq)]
        refine ih v ?_ h_before
        rcases Nat.lt_succ_iff_lt_or_eq.mp h_lt with h_lt | rfl
        · exact h_lt
        · obtain ⟨l', ds, h_poll, -⟩ := h_first
          exact absurd (Prod.mk.inj (Option.some.inj (h_at.symm.trans h_poll))).1 h_eq

/-- **Who is listed stays reachable.** From the first poll on whose list is of a moment when a node
was registered with an endpoint that is empty or parses, and as long as the lists are of such
moments, the table has the node, and routes the address of the node to it. -/
theorem mesh_converges [DecidableEq N] (h_init : (registry storage alloc).init r₀)
    (h_calls : Exec (registry storage alloc) r₀ calls r) (h_canonical : ∀ c ∈ calls, c.Canonical)
    (h_coordinated : Coordinated storage alloc r₀ calls r pub s₀ ls) {x : N} {i : ℕ}
    (h_other : hexEncode key ≠ hexEncode (pub (s₀ x).localPriv))
    (h_first : ∃ l ds, ls[i]? = some (x, l) ∧ l.task = .poll ds)
    (h_later : ∀ j l ds, i ≤ j → ls[j]? = some (x, l) → l.task = .poll ds →
      ListedWith storage alloc r₀ calls key (hexEncode (pub (s₀ x).localPriv)) ds) :
    ∀ j u, i < j → Exec (overlay S hasRelay) s₀ (ls.take j) u →
      ∃ ip idx q, r.Owns key ip ∧ (u x).findBestPeerIdx ip = some idx ∧
        (u x).peers[idx]? = some q ∧ q.pubkey = key := by
  have h_proper : r.Proper := Registry.proper_of_run h_init h_calls h_canonical
  intro j u h_lt h_run
  have h_mem : key ∈ (u x).keys := by
    refine mem_keys_of_polls h_first (fun j l ds h_le h_at h_task => ?_) j u h_lt h_run
    exact (h_later j l ds h_le h_at h_task).mem_wanted h_init h_canonical h_other
  have h_taken : Coordinated storage alloc r₀ calls r pub s₀ (ls.take j) :=
    ⟨h_coordinated.started, fun x l ds hl =>
      h_coordinated.polled x l ds (List.mem_of_mem_take hl)⟩
  have h_placed := h_taken.placed h_init h_canonical h_run x
  obtain ⟨p, hp, rfl⟩ := PeerManager.mem_keys.mp h_mem
  obtain ⟨ip, h_owns, -⟩ := h_placed p hp
  obtain ⟨idx, q, h_best, h_idx, h_key⟩ := (h_placed.agrees h_proper).found p hp ip h_owns
  exact ⟨ip, idx, q, h_owns, h_best, h_idx, h_key⟩

end Reach

/-! ### A network of two -/

namespace Symbolic

/-- What the registry has about node `7`, and about node `9`. -/
def firstMember : PeerDescriptor := ⟨hexEncode (key 7), "10.0.99.1".toList, some []⟩

def secondMember : PeerDescriptor :=
  ⟨hexEncode (key 9), "10.0.99.2".toList, some "10.0.0.2:500".toList⟩

/-- Nodes `7` and `9`, each with the list it is given after both registered. -/
def members : Bool → PeerManager symbolic
  | false => PeerManager.loaded symbolic (key 7) MagicConfig.default [secondMember] 0
  | true => PeerManager.loaded symbolic (key 9) MagicConfig.default [firstMember] 0

/-- A packet of the first member to the second. -/
def memberPacket : Bytes :=
  [0x45, 0, 0, 20] ++ List.replicate 8 0 ++ [10, 0, 99, 1] ++ [10, 0, 99, 2]

/-- The session of node `9`. -/
def memberEnd : symbolic.Transport := Transport.mk false 7 9 1 2

def memberData : Sealed symbolic where
  packet := dataPacket memberEnd 0 memberPacket
  state := Transport.flip memberEnd
  nonce := 0

/-- Node `7` dials node `9`, gets its response, and has a packet for it. -/
def joined : List (Bool × DaemonLabel symbolic) × (Bool → PeerManager symbolic) :=
  runNodes members (fun _ => false)
    [(false, 1, .timer fun _ => (draw 1, draw 1)),
      (true, 1, .udp (MagicConfig.default.handshakeInit :: initiation 7 9 1) nodeAddr (draw 2)),
      (false, 1, .udp (MagicConfig.default.handshakeResp :: response 7 9 1 2) peerAddr (draw 3)),
      (false, 2, .tun memberPacket (draw 4))]

/-- The packet arrives. -/
def handed : List (Bool × DaemonLabel symbolic) × (Bool → PeerManager symbolic) :=
  runNodes joined.2 (fun _ => false) [(true, 3, .udp memberData.packet nodeAddr (draw 5))]

/-! The run, label by label: what the nodes send and install in it is evaluated. -/

theorem exec_handed :
    Exec (overlay symbolic fun _ => false) members (joined.1 ++ handed.1) handed.2 :=
  (exec_runNodes _ _ _).append (exec_runNodes _ _ _)

theorem tasks_handed : (joined.1 ++ handed.1).map (fun l => (l.1, l.2.task)) =
    [(false, .timer fun _ => (draw 1, draw 1)),
      (true, .udp (MagicConfig.default.handshakeInit :: initiation 7 9 1) nodeAddr (draw 2)),
      (false, .udp (MagicConfig.default.handshakeResp :: response 7 9 1 2) peerAddr (draw 3)),
      (false, .tun memberPacket (draw 4)),
      (true, .udp memberData.packet nodeAddr (draw 5))] := rfl

theorem sent_handed : ((joined.1 ++ handed.1)[3]?.map fun l => (l.1, sentIn l.2.events)) =
    some (false, [memberData]) := by
  decide +kernel

theorem installed_joined : installedIn (eventsAt true joined.1) = [memberEnd] := by
  decide +kernel

/-- The one data packet that arrives was sent. -/
theorem noForgery_handed : NoForgery (fun t t' : Transport => t' = t.flip) id members
    (joined.1 ++ handed.1) := by
  intro i x y l payload t padded hi h_data h_installed h_made h_read
  have h_at : ((joined.1 ++ handed.1).map fun l => (l.1, l.2.task))[i]? = some (x, l.task) := by
    rw [List.getElem?_map, hi]
    rfl
  rw [tasks_handed] at h_at
  have h_type : (members x).magic = MagicConfig.default := by cases x <;> rfl
  rw [h_type] at h_data
  obtain ⟨-, -, h_brings⟩ := h_data
  -- only the last label brings a data packet
  rcases i with _ | _ | _ | _ | _ | i
  iterate 4
    · obtain ⟨-, h_task⟩ := Prod.mk.inj (Option.some.inj h_at)
      rw [← h_task] at h_brings
      obtain ⟨_, _, _, h, h_recv⟩ | ⟨_, _, h⟩ := h_brings <;> cases h <;>
        exact absurd (List.cons.inj h_recv).1 (by decide)
  · obtain ⟨rfl, h_task⟩ := Prod.mk.inj (Option.some.inj h_at)
    rw [← h_task] at h_brings
    obtain rfl : payload = memberData.packet.tail := by
      have h_whole : recvFrom memberData.packet = memberData.packet := by decide +kernel
      obtain ⟨_, _, _, h, h_recv⟩ | ⟨_, _, h⟩ := h_brings <;> cases h
      exact congrArg List.tail (h_recv.symm.trans h_whole)
    have h_mem : t ∈ installedIn (eventsAt true joined.1) := mem_installedIn.mpr h_installed
    rw [installed_joined] at h_mem
    obtain rfl := List.mem_singleton.mp h_mem
    obtain ⟨⟨z, l'⟩, hz, h_sent⟩ := Option.map_eq_some_iff.mp sent_handed
    obtain ⟨rfl, h_sent⟩ := Prod.mk.inj h_sent
    refine ⟨3, false, l', memberData, by decide, hz, ?_, rfl, by decide +kernel, rfl⟩
    rw [h_sent]
    exact List.mem_singleton_self _
  · cases h_at

/-- What node `9` opens. -/
def memberOpened : Opened symbolic := ⟨memberPacket, memberEnd, 0⟩

/-- The turn in which it does. -/
def handedTurn : DaemonLabel symbolic :=
  let task := .udp memberData.packet nodeAddr (draw 5)
  ⟨3, task, ((joined.2 true).step false 3 task).1⟩

/-- Node `9` writes the packet, from the peer with the key of node `7`. -/
theorem writes_handed : ∃ p, p.pubkey = key 7 ∧
    Writes (fun _ => false) members (joined.1 ++ handed.1) 4 true joined.2 handedTurn p
      memberOpened := by
  obtain ⟨p, a, hp, h_admits⟩ := exists_admits (joined.2 true) 0 memberData.packet.tail
    memberPacket 3 (by decide +kernel)
  have h_peer : (joined.2 true).peers[0]?.map (fun p => (p.pubkey, p.active.map (·.state),
      p.allowedIps)) = some (key 7, some memberEnd, [⟨Ipv4Addr.ofOctets 10 0 99 1, 32⟩]) := by
    decide +kernel
  rw [hp] at h_peer
  obtain ⟨h_key, h_rest⟩ := Prod.mk.inj (Option.some.inj h_peer)
  obtain ⟨h_state, h_ips⟩ := Prod.mk.inj h_rest
  rw [show p.active = some a from h_admits.honours.1] at h_state
  obtain h_state : a.state = memberEnd := Option.some.inj h_state
  -- the address the packet comes from is the one the peer owns
  have h_allows : p.Allows memberPacket := by
    refine ⟨Ipv4Addr.ofOctets 10 0 99 1, Ipv4Addr.ofOctets 10 0 99 2, by decide +kernel, ?_⟩
    rw [h_ips]
    decide +kernel
  have h_opened : openedIn handedTurn.events = [memberOpened] := by decide +kernel
  have h_before : Exec (overlay symbolic fun _ => false) members joined.1 joined.2 :=
    exec_runNodes _ _ _
  refine ⟨p, h_key, rfl, h_before, List.mem_of_getElem? hp, ?_, ?_, by decide +kernel⟩
  · have h_data : handedTurn.task.BringsData (joined.2 true).magic memberData.packet.tail :=
      ⟨by decide, by decide, Or.inl ⟨nodeAddr, draw 5, _, rfl, by decide +kernel⟩⟩
    refine ⟨memberData.packet.tail, h_data, .active, a, _, h_admits, ?_, h_allows⟩
    rw [h_state]
    decide +kernel
  · apply mem_openedIn.mp
    rw [h_opened]
    exact List.mem_singleton_self _

/-- The registry after both have registered. -/
def memberRegistry : Registry :=
  twoNodes.foldl (fun r c => r.call (fun _ _ => .ok ()) c) smallRegistry

theorem exec_memberRegistry : Exec (registry (fun _ _ => .ok ()) smallRegistry.allocator)
    smallRegistry twoNodes memberRegistry :=
  (Exec.single rfl).tail rfl

theorem init_smallRegistry :
    (registry (fun _ _ => .ok ()) smallRegistry.allocator).init smallRegistry :=
  ⟨⟨_, smallRegistry, Or.inl smallRegistry_new, Or.inl rfl⟩, rfl⟩

theorem twoNodes_canonical : ∀ c ∈ twoNodes, c.Canonical :=
  fun c hc => (twoNodes_presented c hc).key

/-- The endpoint of node `9` parses. -/
theorem located_secondMember : ∃ n, memberRegistry.nodes.lookup (hexEncode (key 9)) = some n ∧
    n.Located := by
  have h_some : ((memberRegistry.nodes.lookup (hexEncode (key 9))).any
      fun n => (parseEndpoint (n.endpoint.getD [])).isSome) = true := by decide +kernel
  exact (Option.any_eq_true _ _).mp h_some

/-- The list for node `7`, from then on. -/
theorem listed_secondMember : Listed (fun _ _ => .ok ()) smallRegistry.allocator smallRegistry
    twoNodes memberRegistry (hexEncode (key 7)) [secondMember] :=
  ⟨_, twoNodes, [], rfl, exec_memberRegistry, Exec.refl, by decide +kernel⟩

/-- Both registered before they were given their lists, and node `7` polls for the same list. -/
theorem coordinated_members {ls : List (Bool × DaemonLabel symbolic)}
    (h_polls : ∀ x l ds, (x, l) ∈ ls → l.task = .poll ds → x = false ∧ ds = [secondMember]) :
    Coordinated (fun _ _ => .ok ()) smallRegistry.allocator smallRegistry twoNodes memberRegistry
      id members ls where
  started x := by
    cases x with
    | false => exact ⟨[secondMember], 0, listed_secondMember, rfl⟩
    | true =>
      exact ⟨[firstMember], 0,
        ⟨_, twoNodes, [], rfl, exec_memberRegistry, Exec.refl, by decide +kernel⟩, rfl⟩
  polled x l ds hl h_task := by
    obtain ⟨rfl, rfl⟩ := h_polls x l ds hl h_task
    exact listed_secondMember

theorem coordinated_handed : Coordinated (fun _ _ => .ok ()) smallRegistry.allocator smallRegistry
    twoNodes memberRegistry id members (joined.1 ++ handed.1) := by
  refine coordinated_members fun x l ds hl h_task => ?_
  -- nobody polls
  have h_mem : (x, l.task) ∈ (joined.1 ++ handed.1).map fun l => (l.1, l.2.task) :=
    List.mem_map.mpr ⟨(x, l), hl, rfl⟩
  rw [tasks_handed, h_task] at h_mem
  simp at h_mem

/-- Node `7` polls. -/
def refreshed : List (Bool × DaemonLabel symbolic) × (Bool → PeerManager symbolic) :=
  runNodes members (fun _ => false) [(false, 1, .poll [secondMember])]

end Symbolic

open Symbolic in
/-- The packet of node `7` is delivered to node `9`, which owns the address it is for. -/
theorem mesh_secure_members : ∃ p j z q packet src dst,
    Carries (fun t t' : Transport => t' = t.flip) (fun _ => false) members
      (joined.1 ++ handed.1) 4 j true z p q memberOpened packet ∧
    parseIpv4Header packet = some (src, dst) ∧ p.pubkey = key 7 ∧
    memberRegistry.Owns (members z).localPriv src ∧ memberRegistry.Owns (key 9) dst := by
  obtain ⟨p, h_key, h_writes⟩ := writes_handed
  obtain ⟨-, -, -, h_delivers⟩ := mesh_secure symbolic_paired completes init_smallRegistry
    exec_memberRegistry twoNodes_canonical coordinated_handed exec_handed (by decide +kernel)
    noForgery_handed
  obtain ⟨j, z, q, packet, src, dst, h_carries, h_header, -, h_from, h_to⟩ :=
    h_delivers 4 true joined.2 handedTurn p memberOpened h_writes ⟨false, h_key⟩
  exact ⟨p, j, z, q, packet, src, dst, h_carries, h_header, h_key, h_from, h_to⟩

open Symbolic in
/-- After its poll, node `7` routes the address of node `9` to it. -/
theorem mesh_converges_refreshed : ∃ ip idx q, memberRegistry.Owns (key 9) ip ∧
    (refreshed.2 false).findBestPeerIdx ip = some idx ∧
    (refreshed.2 false).peers[idx]? = some q ∧ q.pubkey = key 9 := by
  have h_labels : refreshed.1.map (fun l => (l.1, l.2.task)) = [(false, .poll [secondMember])] := rfl
  have h_polls : ∀ x l ds, (x, l) ∈ refreshed.1 → l.task = .poll ds →
      x = false ∧ ds = [secondMember] := by
    intro x l ds hl h_task
    have h_mem : (x, l.task) ∈ refreshed.1.map fun l => (l.1, l.2.task) :=
      List.mem_map.mpr ⟨(x, l), hl, rfl⟩
    rw [h_labels, h_task] at h_mem
    simpa using h_mem
  have h_run : Exec (overlay symbolic fun _ => false) members refreshed.1 refreshed.2 :=
    exec_runNodes _ _ _
  have h_reached : ∀ j u, 0 < j →
      Exec (overlay symbolic fun _ => false) members (refreshed.1.take j) u →
      ∃ ip idx q, memberRegistry.Owns (key 9) ip ∧ (u false).findBestPeerIdx ip = some idx ∧
        (u false).peers[idx]? = some q ∧ q.pubkey = key 9 := by
    refine mesh_converges init_smallRegistry exec_memberRegistry twoNodes_canonical
      (coordinated_members h_polls) (by decide) ⟨_, _, rfl, rfl⟩ ?_
    intro j l ds _ hj h_task
    obtain ⟨-, rfl⟩ := h_polls false l ds (List.mem_of_getElem? hj) h_task
    exact ⟨_, twoNodes, [], rfl, exec_memberRegistry, located_secondMember, by decide +kernel⟩
  exact h_reached 1 refreshed.2 (by decide) h_run

end AraxMesh
