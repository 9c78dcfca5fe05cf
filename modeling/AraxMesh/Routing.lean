import AraxMesh.Cryptokey
import AraxMesh.Sync

/-!
# Routing in a coordinated network

The control plane hands out overlay addresses, the data plane routes by them, and between the two
the addresses travel as text: the registry prints them into its records, a node parses them out of
the descriptors it is given. `routing_agrees` carries an address the whole way: after a node has
applied the list the registry has for it, an address is routed to a peer exactly if the registry
assigned it to that peer's node.
-/

namespace AraxMesh

open LTS Text Reconcile

variable {S : Snow}

/-! ### Keys as the daemon sends them -/

/-- `hex::encode`, as the crate documents it: two lower-case digits for each byte. -/
def hexEncode (bytes : Bytes) : Str :=
  bytes.flatMap fun b => [Nat.digitChar (b.toNat / 16), Nat.digitChar (b.toNat % 16)]

theorem toDigit_digitChar : ∀ n : Fin 16, toDigit 16 (Nat.digitChar n) = some n.val := by
  decide

/-- **The round trip of a key.** -/
theorem hexDecode_hexEncode (bytes : Bytes) : hexDecode (hexEncode bytes) = some bytes := by
  induction bytes with
  | nil => rfl
  | cons b bytes ih =>
    have h_hi := toDigit_digitChar ⟨b.toNat / 16, by have := b.toNat_lt; omega⟩
    have h_lo := toDigit_digitChar ⟨b.toNat % 16, Nat.mod_lt _ (by decide)⟩
    rw [hexEncode, List.flatMap_cons]
    change hexDecode (_ :: _ :: hexEncode bytes) = _
    rw [hexDecode, h_hi, h_lo, ih]
    have h_byte : UInt8.ofNat (b.toNat / 16 * 16 + b.toNat % 16) = b := by
      rw [Nat.div_add_mod', UInt8.ofNat_toNat]
    exact congrArg (fun b => some (b :: bytes)) h_byte

theorem identity_hexEncode {key : Bytes} (h : key.length = 32) :
    identity (hexEncode key) = some key :=
  identity_eq_some.mpr ⟨hexDecode_hexEncode key, h⟩

/-! ### Addresses on their way -/

theorem isWhitespace_of_addrChar {c : Char} (h : AddrChar c) : isWhitespace c = false := by
  rcases h with h | h
  · have h_range : 48 ≤ c.toNat ∧ c.toNat ≤ 122 := by
      unfold toDigit at h
      dsimp only at h
      split_ifs at h <;> first | omega | cases h
    simp only [isWhitespace, Bool.or_eq_false_iff, Bool.and_eq_false_iff, decide_eq_false_iff_not,
      beq_eq_false_iff_ne]
    omega
  · have h_marks : (['.', ':', '%', '[', ']'].all fun m => !isWhitespace m) = true := by decide
    simpa using List.all_eq_true.mp h_marks c h

/-- An address the registry prints is parsed to the host route of that address. -/
theorem parseAllowedIps_display (ip : Ipv4Addr) : parseAllowedIps ip.display = some [⟨ip, 32⟩] := by
  have h_chars := addrChar_of_parseIpv4 (parseIpv4_display ip)
  have h_comma : ',' ∉ ip.display := fun hc => absurd (h_chars _ hc) (by decide)
  have h_slash : '/' ∉ ip.display := fun hc => absurd (h_chars _ hc) (by decide)
  have h_trim : trim ip.display = ip.display :=
    trim_eq_self fun c hc => isWhitespace_of_addrChar (h_chars c hc)
  have h_route : Ipv4Subnet.fromStr ip.display = some ⟨ip, 32⟩ := by
    rw [Ipv4Subnet.fromStr, List.splitOn_eq_singleton h_slash]
    dsimp only
    rw [parseIpv4_display]
    rfl
  rw [parseAllowedIps, List.splitOn_eq_singleton h_comma, List.mapM_cons, h_trim, h_route]
  rfl

/-- A host route contains its address only. -/
theorem Ipv4Subnet.contains_host (ip d : Ipv4Addr) :
    (⟨ip, 32⟩ : Ipv4Subnet).contains d = true ↔ d = ip := by
  have h_mask : (~~~0 <<< ((32 : UInt8) - 32).toUInt32 : UInt32) = -1 := by decide
  rw [contains, if_neg (show ¬ (32 : UInt8) = 0 by decide)]
  dsimp only
  rw [h_mask, UInt32.and_neg_one, UInt32.and_neg_one, beq_iff_eq, eq_comm]

/-! ### The registry of a coordinated network -/

/-- The call presents the text of a key, as a daemon writes it. -/
def RegistryCall.Canonical (c : RegistryCall) : Prop :=
  ∃ key : Bytes, key.length = 32 ∧ c.publicKey = hexEncode key

/-- The call presents the text of a key, and an endpoint that is empty or parses. -/
structure RegistryCall.Presented (c : RegistryCall) : Prop where
  key : c.Canonical
  endpoint : c.endpoint = [] ∨ (parseSocketAddr c.endpoint).isSome

/-- What the registry has as the endpoint of the node is empty or parses. -/
def NodeRecord.Located (n : NodeRecord) : Prop := (parseEndpoint (n.endpoint.getD [])).isSome

theorem RegistryCall.Presented.located {c : RegistryCall} (h : c.Presented) {n : NodeRecord}
    (hn : n.endpoint = some c.endpoint) : n.Located := by
  rw [NodeRecord.Located, hn, Option.getD_some, parseEndpoint]
  split_ifs with h_nil
  · rfl
  · rw [Option.isSome_map]
    exact h.endpoint.resolve_left h_nil

namespace Registry

/-- The records of nodes that present keys as a daemon writes them: keys and addresses parse, and no
two records have one address. -/
structure Proper (r : Registry) : Prop where
  keyed : r.Keyed
  key : ∀ x n, r.nodes.lookup x = some n → ∃ key : Bytes, key.length = 32 ∧ x = hexEncode key
  address : ∀ x n, r.nodes.lookup x = some n → ∃ ip : Ipv4Addr, n.allowedIp = ip.display
  distinct : ∀ x x' n n', r.nodes.lookup x = some n → r.nodes.lookup x' = some n' →
    n.allowedIp = n'.allowedIp → x = x'

theorem Proper.of_empty {r : Registry} (h : r.nodes = ∅) : r.Proper := by
  have h_none : ∀ x n, r.nodes.lookup x ≠ some n := by
    intro x n hn
    rw [h, Finmap.lookup_empty] at hn
    cases hn
  exact ⟨fun x n hn => absurd hn (h_none x n), fun x n hn => absurd hn (h_none x n),
    fun x n hn => absurd hn (h_none x n), fun x _ n _ hn => absurd hn (h_none x n)⟩

/-- The address of a new record is not in use. -/
theorem ne_of_nextFree {r : Registry} {ip : Ipv4Addr}
    (h : r.allocator.nextFree (· ∈ r.usedIps) = some ip) {x : Str} {n : NodeRecord}
    (hn : r.nodes.lookup x = some n) : n.allowedIp ≠ ip.display := by
  intro h_eq
  have h_free := List.find?_some h
  refine absurd ?_ (by simpa using h_free)
  rw [usedIps, Multiset.mem_filterMap]
  exact ⟨n, mem_values.mpr ⟨x, hn⟩, by rw [h_eq, parseIpv4_display]⟩

/-- **A call keeps the records proper.** -/
theorem Called.proper {r r' : Registry} {c : RegistryCall} {file : Option FileWrite}
    (h_call : r.Called c r' file) (h_canonical : c.Canonical) (h : r.Proper) : r'.Proper where
  keyed := h_call.keyed h.keyed
  key x m hm := by
    rcases h_call.record hm with ⟨m', hm', -⟩ | h_added
    · exact h.key x m' hm'
    · rw [h_added.stored]
      exact h_canonical
  address x m hm := by
    rcases h_call.record hm with ⟨m', hm', -, h_same, -⟩ | h_added
    · rw [h_same]
      exact h.address x m' hm'
    · obtain ⟨ip, -, h_display⟩ := h_added.address
      exact ⟨ip, h_display⟩
  distinct x x' m m' hm hm' h_eq := by
    -- two old records, an old and a new one, or twice the new one
    rcases h_call.record hm with ⟨m₀, hm₀, -, h_same, -⟩ | h_added <;>
      rcases h_call.record hm' with ⟨m₀', hm₀', -, h_same', -⟩ | h_added'
    · exact h.distinct x x' m₀ m₀' hm₀ hm₀' (h_same.symm.trans (h_eq.trans h_same'))
    · -- the address of the new record was free
      obtain ⟨ip, h_ip, h_display⟩ := h_added'.address
      exact absurd (h_same.symm.trans (h_eq.trans h_display)) (ne_of_nextFree h_ip hm₀)
    · obtain ⟨ip, h_ip, h_display⟩ := h_added.address
      exact absurd (h_same'.symm.trans (h_eq.symm.trans h_display)) (ne_of_nextFree h_ip hm₀')
    · -- the new record is stored under the key that was presented
      rw [h_added.stored, h_added'.stored]

/-- In every registry reached by calls with keys as a daemon writes them, the records are proper. -/
theorem proper_of_run {storage : Storage} {alloc : IpAllocator} {r₀ r : Registry}
    {calls : List RegistryCall} (h_init : (registry storage alloc).init r₀)
    (h_run : Exec (registry storage alloc) r₀ calls r) (h_canonical : ∀ c ∈ calls, c.Canonical) :
    r.Proper := by
  revert h_canonical
  refine h_run.induct (fun calls r => (∀ c ∈ calls, c.Canonical) → r.Proper)
    (fun _ => Proper.of_empty h_init.1.nodes) ?_
  rintro calls r c _ - ih rfl h_canonical
  refine (r.called storage c).proper (h_canonical c (by simp)) (ih fun c' hc' => ?_)
  exact h_canonical c' (List.mem_append_left _ hc')

/-- If all calls present endpoints that parse, all records have such endpoints. -/
theorem located_of_run {storage : Storage} {alloc : IpAllocator} {r₀ r : Registry}
    {calls : List RegistryCall} (h_init : (registry storage alloc).init r₀)
    (h_run : Exec (registry storage alloc) r₀ calls r) (h_presented : ∀ c ∈ calls, c.Presented) :
    ∀ x n, r.nodes.lookup x = some n → n.Located := by
  revert h_presented
  refine h_run.induct (fun calls r => (∀ c ∈ calls, c.Presented) →
    ∀ x n, r.nodes.lookup x = some n → n.Located) ?_ ?_
  · intro _ x n hn
    rw [h_init.1.nodes, Finmap.lookup_empty] at hn
    cases hn
  · rintro calls r c _ - ih rfl h_presented x n hn
    have h_given := (h_presented c (by simp)).located (n := n)
    have h_old := ih fun c' hc' => h_presented c' (List.mem_append_left _ hc')
    rcases (r.called storage c).record hn with ⟨n', hn', -, -, h_same | h_new⟩ | h_added
    · rw [NodeRecord.Located, h_same]
      exact h_old x n' hn'
    · exact h_given h_new
    · exact h_given h_added.endpoint

variable {r : Registry}

/-- Nodes with one key are one node. -/
theorem Proper.eq_of_identity (h : r.Proper) {x x' : Str} {n n' : NodeRecord}
    (hn : r.nodes.lookup x = some n) (hn' : r.nodes.lookup x' = some n') {key : Bytes}
    (hx : identity x = some key) (hx' : identity x' = some key) : x = x' := by
  obtain ⟨k, h_len, rfl⟩ := h.key x n hn
  obtain ⟨k', h_len', rfl⟩ := h.key x' n' hn'
  obtain rfl := Option.some.inj ((identity_hexEncode h_len).symm.trans hx)
  obtain rfl := Option.some.inj ((identity_hexEncode h_len').symm.trans hx')
  rfl

/-- The descriptor of a node is parsed to its key, its endpoint and the host route of its address,
if the endpoint parses. -/
theorem Proper.parsed (h : r.Proper) {x : Str} {n : NodeRecord}
    (hn : r.nodes.lookup x = some n) : ∃ key ip, identity x = some key ∧
      n.allowedIp = Ipv4Addr.display ip ∧
      parsePeerArg n.descriptor.toSpec =
        (parseEndpoint (n.endpoint.getD [])).map fun e => ⟨key, e, [⟨ip, 32⟩]⟩ := by
  obtain ⟨key, h_len, hx⟩ := h.key x n hn
  obtain ⟨ip, h_ip⟩ := h.address x n hn
  have h_key : identity n.publicKey = some key := by
    rw [h.keyed x n hn, hx, identity_hexEncode h_len]
  refine ⟨key, ip, ?_, h_ip, ?_⟩
  · rw [hx, identity_hexEncode h_len]
  · rw [parsePeerArg_toSpec]
    simp only [PeerDescriptor.parsed, NodeRecord.descriptor, h_key, h_ip, parseAllowedIps_display]
    cases parseEndpoint (n.endpoint.getD []) <;> rfl

/-- What the list for a node asks for: the host routes of other nodes. -/
theorem Proper.wanted (h : r.Proper) {y : Str} {ds : List PeerDescriptor}
    (h_ds : (ds : Multiset PeerDescriptor) = r.peersFor y) {w : ParsedPeer} (hw : w ∈ wanted ds) :
    ∃ x n ip, r.nodes.lookup x = some n ∧ x ≠ y ∧ identity x = some w.pubkey ∧
      n.allowedIp = ip.display ∧ w.allowedIps = [⟨ip, 32⟩] := by
  obtain ⟨d, hd, h_parse⟩ := List.mem_filterMap.mp hw
  have h_mem : d ∈ r.peersFor y := by
    rw [← h_ds]
    exact hd
  obtain ⟨x, n, hn, h_other, rfl⟩ := mem_peersFor.mp h_mem
  obtain ⟨key, ip, hx, h_ip, h_spec⟩ := h.parsed hn
  rw [h_spec] at h_parse
  obtain ⟨e, -, rfl⟩ := Option.map_eq_some_iff.mp h_parse
  exact ⟨x, n, ip, hn, h.keyed x n hn ▸ h_other, hx, h_ip, rfl⟩

/-- Every other node whose endpoint parses is asked for. -/
theorem Proper.mem_wanted (h : r.Proper) {y : Str} {ds : List PeerDescriptor}
    (h_ds : (ds : Multiset PeerDescriptor) = r.peersFor y) {x : Str} {n : NodeRecord}
    (hn : r.nodes.lookup x = some n) (h_located : n.Located) (hx : x ≠ y) :
    ∃ w ∈ AraxMesh.wanted ds, identity x = some w.pubkey := by
  obtain ⟨key, ip, h_key, -, h_spec⟩ := h.parsed hn
  obtain ⟨e, he⟩ := Option.isSome_iff_exists.mp h_located
  rw [he, Option.map_some] at h_spec
  have h_mem : n.descriptor ∈ r.peersFor y :=
    mem_peersFor.mpr ⟨x, n, hn, (h.keyed x n hn).symm ▸ hx, rfl⟩
  rw [← h_ds] at h_mem
  exact ⟨_, List.mem_filterMap.mpr ⟨n.descriptor, h_mem, h_spec⟩, h_key⟩

end Registry

/-! ### The table of a node -/

/-- A peer of the table that was reconciled with the list for a node is one of the other nodes, with
the host route of its address. -/
theorem PeerManager.peer_of_syncPeers {r : Registry} (h : r.Proper) {y : Str}
    {ds : List PeerDescriptor} (h_ds : (ds : Multiset PeerDescriptor) = r.peersFor y)
    {pm : PeerManager S} (h_keys : pm.keys.Nodup) {now : Instant} {p : Peer S}
    (hp : p ∈ (pm.syncPeers ds now).2.peers) :
    ∃ x n ip, r.nodes.lookup x = some n ∧ x ≠ y ∧ identity x = some p.pubkey ∧
      n.allowedIp = ip.display ∧ p.allowedIps = [⟨ip, 32⟩] := by
  have h_lookup := lookup_syncPeers pm ds now p.pubkey
  rw [lookup_of_mem (nodup_syncPeers h_keys) hp] at h_lookup
  obtain ⟨w, hw, h_eq⟩ := Option.map_eq_some_iff.mp h_lookup.symm
  obtain ⟨h_mem, h_key⟩ := advertised_eq_some hw
  obtain ⟨x, n, ip, hn, hx, h_id, h_ip, h_route⟩ := h.wanted h_ds h_mem
  refine ⟨x, n, ip, hn, hx, h_key ▸ h_id, h_ip, ?_⟩
  rw [← h_route, ← h_eq]
  cases pm.lookup p.pubkey <;> rfl

/-- A peer with one host route matches its address. -/
theorem Peer.matches_host {p : Peer S} {ip : Ipv4Addr} (h : p.allowedIps = [⟨ip, 32⟩])
    (d : Ipv4Addr) : p.matches d ≠ [] ↔ d = ip := by
  rw [ne_eq, Peer.matches_eq_nil, h, List.any_cons, List.any_nil, Bool.or_false,
    Bool.not_eq_false, Ipv4Subnet.contains_host]

/-- A key has one place in a table with distinct keys. -/
theorem PeerManager.index_eq_of_pubkey {pm : PeerManager S} (h : pm.keys.Nodup) {i j : ℕ}
    {p q : Peer S} (hp : pm.peers[i]? = some p) (hq : pm.peers[j]? = some q)
    (h_eq : q.pubkey = p.pubkey) : j = i := by
  have h_i : pm.keys[i]? = some p.pubkey := by simp [keys, hp]
  have h_j : pm.keys[j]? = some p.pubkey := by simp [keys, hq, h_eq]
  have h_lt : j < pm.keys.length := (List.getElem?_eq_some_iff.mp h_j).1
  exact (List.getElem?_inj h_lt h).mp (h_j.trans h_i.symm)

/-- Every peer of the table is one of the nodes other than `y`, with the host route of its
address. -/
def PeerManager.RoutesHosts (pm : PeerManager S) (r : Registry) (y : Str) : Prop :=
  ∀ p ∈ pm.peers, ∃ x n ip, r.nodes.lookup x = some n ∧ x ≠ y ∧ identity x = some p.pubkey ∧
    n.allowedIp = ip.display ∧ p.allowedIps = [⟨ip, 32⟩]

section Hosts

variable {pm : PeerManager S} {r : Registry} {y : Str}

/-- An address is routed to a node, and accepted as a source from it, exactly if it is its own. -/
theorem PeerManager.RoutesHosts.routed_iff (h_hosts : pm.RoutesHosts r y) (h : r.Proper)
    (h_nodup : pm.keys.Nodup) {x : Str} {n : NodeRecord} {i : ℕ} {p : Peer S}
    (hn : r.nodes.lookup x = some n) (hi : pm.peers[i]? = some p)
    (h_key : identity x = some p.pubkey) : ∃ ip : Ipv4Addr, n.allowedIp = ip.display ∧
      ∀ d, (pm.findBestPeerIdx d = some i ↔ d = ip) ∧
        (p.allowedIps.any (·.contains d) = true ↔ d = ip) := by
  obtain ⟨x', n', ip, hn', -, h_key', h_ip, h_route⟩ := h_hosts p (List.mem_of_getElem? hi)
  obtain rfl := h.eq_of_identity hn hn' h_key h_key'
  obtain rfl := Option.some.inj (hn.symm.trans hn')
  refine ⟨ip, h_ip, fun d => ⟨?_, ?_⟩⟩
  · rw [PeerManager.findBestPeerIdx_eq_some_iff hi, Peer.matches_host h_route]
    refine and_iff_left_of_imp ?_
    rintro rfl ⟨p', j, q, m, -, h_ne, hj, hm, -⟩
    -- whoever matches the address has it, and is this node
    obtain ⟨x', n', ip', hn', -, h_key', h_ip', h_route'⟩ := h_hosts q (List.mem_of_getElem? hj)
    obtain rfl := (Peer.matches_host h_route' d).mp (List.ne_nil_of_mem hm)
    obtain rfl := h.distinct x x' n n' hn hn' (h_ip.trans h_ip'.symm)
    exact h_ne (PeerManager.index_eq_of_pubkey h_nodup hi hj
      (Option.some.inj (h_key'.symm.trans h_key)))
  · rw [h_route, List.any_cons, List.any_nil, Bool.or_false, Ipv4Subnet.contains_host]

/-- An address that no other node has is not routed. -/
theorem PeerManager.RoutesHosts.unrouted (h_hosts : pm.RoutesHosts r y) {d : Ipv4Addr}
    (h_none : ∀ x n, r.nodes.lookup x = some n → x ≠ y → n.allowedIp ≠ d.display) :
    pm.findBestPeerIdx d = none := by
  rw [PeerManager.findBestPeerIdx_eq, FirstMax.firstMax_eq_none_iff]
  intro p hp
  obtain ⟨x, n, ip, hn, hx, -, h_ip, h_route⟩ := h_hosts p hp
  by_contra h_match
  obtain rfl := (Peer.matches_host h_route d).mp h_match
  exact h_none x n hn hx h_ip

end Hosts

/-- **Control plane and data plane agree on routing.** Take any registry reached by calls in which
every node presents what a daemon sends, any registered node `y`, any table of it with distinct keys
and the list the registry has for it, in any order. After `y` applied the list:

* its table has exactly one peer for every other node, and no other peers;
* for every other node `x` with address `ip`, at index `i` of the table, an address is routed to `x`
  exactly if it is `ip`, and that is also exactly when it is accepted as a source from `x`;
* an address that no other node has is not routed. -/
theorem routing_agrees {storage : Storage} {alloc : IpAllocator} {r₀ r : Registry}
    {calls : List RegistryCall} (h_init : (registry storage alloc).init r₀)
    (h_run : Exec (registry storage alloc) r₀ calls r) (h_presented : ∀ c ∈ calls, c.Presented)
    {y : Str} {ds : List PeerDescriptor} (h_ds : (ds : Multiset PeerDescriptor) = r.peersFor y)
    {pm : PeerManager S} (h_keys : pm.keys.Nodup) (now : Instant) {pm' : PeerManager S}
    (h_sync : (pm.syncPeers ds now).2 = pm') :
    (∀ x ∈ r.nodes, x ≠ y →
      ∃! i : ℕ, ∃ p : Peer S, pm'.peers[i]? = some p ∧ identity x = some p.pubkey) ∧
    (∀ p ∈ pm'.peers, ∃ x ∈ r.nodes, x ≠ y ∧ identity x = some p.pubkey) ∧
    (∀ x n (i : ℕ) (p : Peer S), r.nodes.lookup x = some n → pm'.peers[i]? = some p →
      identity x = some p.pubkey → ∃ ip : Ipv4Addr, n.allowedIp = ip.display ∧
        ∀ d, (pm'.findBestPeerIdx d = some i ↔ d = ip) ∧
          (p.allowedIps.any (·.contains d) = true ↔ d = ip)) ∧
    ∀ d : Ipv4Addr, (∀ x n, r.nodes.lookup x = some n → x ≠ y → n.allowedIp ≠ d.display) →
      pm'.findBestPeerIdx d = none := by
  have h := Registry.proper_of_run h_init h_run fun c hc => (h_presented c hc).key
  have h_located := Registry.located_of_run h_init h_run h_presented
  have h_nodup : pm'.keys.Nodup := h_sync ▸ PeerManager.nodup_syncPeers h_keys
  have h_hosts : pm'.RoutesHosts r y := by
    intro p hp
    rw [← h_sync] at hp
    exact PeerManager.peer_of_syncPeers h h_ds h_keys hp
  refine ⟨?_, ?_, ?_, fun d h_none => h_hosts.unrouted h_none⟩
  · intro x hx h_ne
    obtain ⟨n, hn⟩ := Finmap.mem_iff.mp hx
    -- the list has a descriptor that parses for every other node
    obtain ⟨w, hw, h_key⟩ := h.mem_wanted h_ds hn (h_located x n hn) h_ne
    have h_mem : w.pubkey ∈ pm'.keys := by
      rw [← h_sync]
      exact PeerManager.mem_keys_syncPeers.mpr ⟨w, hw, rfl⟩
    obtain ⟨p, hp, h_pubkey⟩ := PeerManager.mem_keys.mp h_mem
    obtain ⟨i, hi⟩ := List.mem_iff_getElem?.mp hp
    refine ⟨i, ⟨p, hi, h_pubkey ▸ h_key⟩, ?_⟩
    rintro j ⟨q, hq, hq_key⟩
    exact PeerManager.index_eq_of_pubkey h_nodup hi hq
      (Option.some.inj (hq_key.symm.trans (h_pubkey ▸ h_key)))
  · intro p hp
    obtain ⟨x, n, -, hn, hx, h_key, -⟩ := h_hosts p hp
    exact ⟨x, Finmap.mem_of_lookup_eq_some hn, hx, h_key⟩
  · exact fun x n i p hn hi h_key => h_hosts.routed_iff h h_nodup hn hi h_key

/-! ### A network of two -/

namespace Symbolic

/-- The registry of a `/30` after the nodes `7` and `9` registered. -/
def twoNodes : List RegistryCall :=
  [.register (hexEncode (key 7)) [] none none,
    .register (hexEncode (key 9)) "10.0.0.2:500".toList none none]

theorem twoNodes_presented : ∀ c ∈ twoNodes, c.Presented := by
  intro c hc
  rcases List.mem_cons.mp hc with rfl | hc
  · exact ⟨⟨key 7, rfl, rfl⟩, Or.inl rfl⟩
  · obtain rfl := List.mem_singleton.mp hc
    exact ⟨⟨key 9, rfl, rfl⟩, Or.inr (by decide +kernel)⟩

end Symbolic

open Symbolic in
/-- Node `7`, that knew nobody, routes the second address of the network to node `9` and to nobody
else. -/
theorem routing_agrees_two :
    let storage : Storage := fun _ _ => .ok ()
    let r := twoNodes.foldl (fun r c => r.call storage c) smallRegistry
    let ds : List PeerDescriptor :=
      [⟨hexEncode (key 9), "10.0.99.2".toList, some "10.0.0.2:500".toList⟩]
    let pm := ((PeerManager.new (S := symbolic) (key 7) [] MagicConfig.default).syncPeers ds 0).2
    ∀ n, r.nodes.lookup (hexEncode (key 9)) = some n → ∃ ip : Ipv4Addr, n.allowedIp = ip.display ∧
      ∀ d, pm.findBestPeerIdx d = some 0 ↔ d = ip := by
  intro storage r ds pm n hn
  have h_init : (registry storage smallRegistry.allocator).init smallRegistry :=
    ⟨⟨_, smallRegistry, Or.inl smallRegistry_new, Or.inl rfl⟩, rfl⟩
  have h_run : Exec (registry storage smallRegistry.allocator) smallRegistry twoNodes r :=
    (Exec.single rfl).tail rfl
  have h_ds : (ds : Multiset PeerDescriptor) = r.peersFor (hexEncode (key 7)) := by
    decide +kernel
  have h_keys : (PeerManager.new (S := symbolic) (key 7) [] MagicConfig.default).keys.Nodup :=
    List.nodup_nil
  obtain ⟨-, -, h_route, -⟩ :=
    routing_agrees h_init h_run twoNodes_presented h_ds h_keys 0 rfl
  obtain ⟨p, hp, h_key⟩ : ∃ p : Peer symbolic, pm.peers[0]? = some p ∧ p.pubkey = key 9 :=
    ⟨_, rfl, by decide +kernel⟩
  obtain ⟨ip, h_ip, h⟩ := h_route _ n 0 p hn hp (by rw [h_key]; exact identity_hexEncode rfl)
  exact ⟨ip, h_ip, fun d => (h d).1⟩

end AraxMesh
