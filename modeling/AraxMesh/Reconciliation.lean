import AraxMesh.Sync
import AraxMesh.Symbolic

/-!
# What a sync leaves

`sync_reconciles` is the whole of what `sync_peers` does to a table with distinct keys: which peers
are in it afterwards, in which order, and what of them has changed.

A descriptor that does not parse is skipped before the table is looked at, so a peer for which
nothing parses counts as no longer listed, and is dropped with its sessions. `keeps_listed_iff` says
for which lists this does not happen.
-/

namespace AraxMesh

open FirstMatch Reconcile

variable {S : Snow}

/-! ### Keys -/

/-- A specification names the key its first field decodes to. -/
theorem hexDecode_of_parsePeerArg {d : PeerDescriptor} {w : ParsedPeer}
    (h : parsePeerArg d.toSpec = some w) : hexDecode d.publicKey = some w.pubkey := by
  rw [parsePeerArg_toSpec, PeerDescriptor.parsed] at h
  simp only [Option.bind_eq_bind, Option.bind_eq_some_iff] at h
  obtain ⟨key, h_key, e, -, subnets, -, h⟩ := h
  obtain rfl := Option.some.inj h
  exact (identity_eq_some.mp h_key).1

/-- The keys of the descriptors that parse, in order. -/
def listedKeys (descriptors : List PeerDescriptor) : List Bytes :=
  (wanted descriptors).map ParsedPeer.pubkey

theorem mem_listedKeys {descriptors : List PeerDescriptor} {key : Bytes} :
    key ∈ listedKeys descriptors ↔ ∃ d ∈ descriptors, (parsePeerArg d.toSpec).isSome ∧
      hexDecode d.publicKey = some key := by
  simp only [listedKeys, wanted, List.mem_map, List.mem_filterMap]
  constructor
  · rintro ⟨w, ⟨d, hd, hw⟩, rfl⟩
    exact ⟨d, hd, by rw [hw]; rfl, hexDecode_of_parsePeerArg hw⟩
  · rintro ⟨d, hd, h_some, h_key⟩
    obtain ⟨w, hw⟩ := Option.isSome_iff_exists.mp h_some
    refine ⟨w, ⟨d, hd, hw⟩, ?_⟩
    exact Option.some.inj ((hexDecode_of_parsePeerArg hw).symm.trans h_key)

/-! ### The table -/

/-- What a peer keeps when it stays in the table: everything but its endpoint and its subnets. -/
structure Peer.Survives (p q : Peer S) : Prop where
  pubkey : q.pubkey = p.pubkey
  active : q.active = p.active
  previous : q.previous = p.previous
  handshake : q.handshake = p.handshake
  lastHandshakeAttempt : q.lastHandshakeAttempt = p.lastHandshakeAttempt
  lastHandshakePacket : q.lastHandshakePacket = p.lastHandshakePacket
  lastRx : q.lastRx = p.lastRx
  lastTx : q.lastTx = p.lastTx
  lastDirectRx : q.lastDirectRx = p.lastDirectRx
  magic : q.magic = p.magic

/-- A peer without a session or a handshake. -/
structure Peer.Sessionless (p : Peer S) : Prop where
  active : p.active = none
  previous : p.previous = none
  handshake : p.handshake = none
  lastHandshakeAttempt : p.lastHandshakeAttempt = none
  lastHandshakePacket : p.lastHandshakePacket = none

namespace PeerManager

variable {pm : PeerManager S} {descriptors : List PeerDescriptor} {now : Instant}

/-- The peers something parses for. -/
def survivors (pm : PeerManager S) (descriptors : List PeerDescriptor) : List (Peer S) :=
  pm.peers.filter fun p => p.pubkey ∈ listedKeys descriptors

theorem kept_eq_survivors : (peerTable S pm.magic now).kept pm.peers (wanted descriptors) =
    pm.survivors descriptors := by
  refine List.filter_congr fun p _ => ?_
  rw [Bool.eq_iff_iff, List.any_eq_true, decide_eq_true_iff, listedKeys, List.mem_map]
  simp only [decide_eq_true_eq]
  rfl

/-- The keys that are added: the listed ones that the table does not have, each where it appears
first. -/
theorem map_pubkey_newPeers (pm : PeerManager S) (descriptors : List PeerDescriptor)
    (now : Instant) : (pm.newPeers descriptors now).map ParsedPeer.pubkey =
    firsts ((listedKeys descriptors).filter fun key => decide (key ∉ pm.keys)) := by
  have h_map := Table.map_wanted_added (T := peerTable S pm.magic now)
    ((peerTable S pm.magic now).keys
      ((peerTable S pm.magic now).kept pm.peers (wanted descriptors)))
    (wanted descriptors)
  refine h_map.trans (congrArg firsts (List.filter_congr fun key h_key => ?_))
  -- a listed key is a key of the table exactly if it is one of a surviving peer
  obtain ⟨w, hw, rfl⟩ := List.mem_map.mp h_key
  refine decide_eq_decide.mpr (not_congr ?_)
  rw [Table.mem_keys_kept]
  refine and_iff_left fun h_none => ?_
  exact Table.last_eq_none.mp h_none w hw rfl

end PeerManager

/-- Carrying out an order changes a peer's endpoint and its subnets only. -/
theorem survives_renew (magic : MagicConfig) (now : Instant) (ws : List ParsedPeer) (p : Peer S) :
    p.Survives ((peerTable S magic now).renew ws p) := by
  rw [Table.renew]
  generalize (peerTable S magic now).last ws _ = order
  cases order with
  | none => constructor <;> rfl
  | some w => constructor <;> rfl

theorem sessionless_ofParsed (magic : MagicConfig) (now : Instant) (w : ParsedPeer) :
    (Peer.ofParsed S magic now w).Sessionless := by
  constructor <;> rfl

namespace Peer

theorem Survives.refl (p : Peer S) : p.Survives p := by
  constructor <;> rfl

theorem Survives.trans {p q r : Peer S} (h : p.Survives q) (h' : q.Survives r) : p.Survives r where
  pubkey := h'.pubkey.trans h.pubkey
  active := h'.active.trans h.active
  previous := h'.previous.trans h.previous
  handshake := h'.handshake.trans h.handshake
  lastHandshakeAttempt := h'.lastHandshakeAttempt.trans h.lastHandshakeAttempt
  lastHandshakePacket := h'.lastHandshakePacket.trans h.lastHandshakePacket
  lastRx := h'.lastRx.trans h.lastRx
  lastTx := h'.lastTx.trans h.lastTx
  lastDirectRx := h'.lastDirectRx.trans h.lastDirectRx
  magic := h'.magic.trans h.magic

theorem Sessionless.of_survives {p q : Peer S} (h : p.Sessionless) (h' : p.Survives q) :
    q.Sessionless where
  active := h'.active.trans h.active
  previous := h'.previous.trans h.previous
  handshake := h'.handshake.trans h.handshake
  lastHandshakeAttempt := h'.lastHandshakeAttempt.trans h.lastHandshakeAttempt
  lastHandshakePacket := h'.lastHandshakePacket.trans h.lastHandshakePacket

end Peer

/-- **Old peers and new ones.** Whatever the keys of the table are: after `sync_peers` the peers
that were listed come first, as they were but for endpoint and subnets. The others have neither a
session nor a handshake, the packet types of the table, and the key of a descriptor that parses. -/
theorem PeerManager.syncPeers_split (pm : PeerManager S) (descriptors : List PeerDescriptor)
    (now : Instant) : ∃ old new, (pm.syncPeers descriptors now).2.peers = old ++ new ∧
      List.Forall₂ Peer.Survives (pm.survivors descriptors) old ∧
      ∀ q ∈ new, q.Sessionless ∧ q.magic = pm.magic ∧
        ∃ w ∈ wanted descriptors, w.pubkey = q.pubkey := by
  rw [PeerManager.syncPeers_eq, ← PeerManager.kept_eq_survivors]
  refine Table.foldl_upsert_split (T := peerTable S pm.magic now) Peer.Survives.refl
    (fun _ _ _ => Peer.Survives.trans) ?_ ?_ ?_ _
  · rintro p q ⟨h_less, h_magic, w, hw, h_key⟩ h
    exact ⟨h_less.of_survives h, h.magic.trans h_magic, w, hw, h_key.trans h.pubkey.symm⟩
  · intro w _ p
    constructor <;> rfl
  · exact fun w hw => ⟨sessionless_ofParsed pm.magic now w, rfl, w, hw, rfl⟩

/-- **Reconciliation.** After `sync_peers` on a table with distinct keys:

* the keys are those of the descriptors that parse, and distinct;
* the peers that were listed come first, in their old order, with nothing changed but endpoint and
  subnets; the others follow in order of first appearance, without a session and with the packet
  types of the table;
* every peer has the endpoint and the subnets of the last descriptor that parses for its key. -/
theorem sync_reconciles {pm : PeerManager S} (h : pm.keys.Nodup)
    (descriptors : List PeerDescriptor) (now : Instant) :
    (∀ key, key ∈ (pm.syncPeers descriptors now).2.keys ↔
      ∃ d ∈ descriptors, (parsePeerArg d.toSpec).isSome ∧ hexDecode d.publicKey = some key) ∧
    (pm.syncPeers descriptors now).2.keys.Nodup ∧
    (∃ old new, (pm.syncPeers descriptors now).2.peers = old ++ new ∧
      List.Forall₂ Peer.Survives (pm.survivors descriptors) old ∧
      new.map Peer.pubkey =
        firsts ((listedKeys descriptors).filter fun key => decide (key ∉ pm.keys)) ∧
      ∀ q ∈ new, q.Sessionless ∧ q.magic = pm.magic) ∧
    ∀ q ∈ (pm.syncPeers descriptors now).2.peers, ∃ w,
      advertised descriptors q.pubkey = some w ∧ q.endpoint = w.endpoint ∧
        q.allowedIps = w.allowedIps := by
  refine ⟨fun key => ?_, PeerManager.nodup_syncPeers h, ?_, fun q hq => ?_⟩
  · rw [PeerManager.mem_keys_syncPeers, ← mem_listedKeys, listedKeys, List.mem_map]
  · have h_table := Table.reconcile_eq (T := peerTable S pm.magic now) h (wanted descriptors)
    rw [PeerManager.kept_eq_survivors] at h_table
    rw [PeerManager.syncPeers_eq]
    refine ⟨_, _, h_table, ?_, ?_, ?_⟩
    · -- whoever stays is changed in its endpoint and its subnets
      rw [List.forall₂_map_right_iff, List.forall₂_same]
      exact fun p _ => survives_renew pm.magic now _ p
    · -- a new peer has the key it was added for
      rw [← PeerManager.map_pubkey_newPeers pm descriptors now, PeerManager.newPeers,
        PeerManager.kept_eq_survivors, List.map_map]
      exact List.map_congr_left fun w _ =>
        Table.key_settle (T := peerTable S pm.magic now) (wanted descriptors) w
    · intro q hq
      obtain ⟨w, -, rfl⟩ := List.mem_map.mp hq
      exact ⟨sessionless_ofParsed pm.magic now _, rfl⟩
  · -- with distinct keys, the peer is the one its key looks up
    have h_lookup := PeerManager.lookup_syncPeers pm descriptors now q.pubkey
    rw [PeerManager.lookup_of_mem (PeerManager.nodup_syncPeers h) hq, eq_comm,
      Option.map_eq_some_iff] at h_lookup
    obtain ⟨w, hw, h_eq⟩ := h_lookup
    refine ⟨w, hw, ?_⟩
    rw [← h_eq]
    cases pm.lookup q.pubkey with
    | none => exact ⟨rfl, rfl⟩
    | some p => exact ⟨rfl, rfl⟩

namespace Symbolic

/-- What a coordinator may advertise: node `8`, then node `9` at an endpoint that does not parse,
and node `8` once more. -/
def relisted : List PeerDescriptor :=
  [⟨(List.replicate 32 ['0', '8']).flatten, "10.0.99.8".toList, none⟩,
    ⟨(List.replicate 32 ['0', '9']).flatten, "10.0.99.9".toList, some "nine.example:500".toList⟩,
    ⟨(List.replicate 32 ['0', '8']).flatten, "10.0.99.7".toList, some "10.0.0.8:500".toList⟩]

end Symbolic

open Symbolic in
/-- A malformed and a repeated descriptor: node `8` is added once, with what its last descriptor
says. -/
theorem sync_reconciles_relisted : (node.syncPeers relisted 5).2.keys.Nodup ∧
    ∀ q ∈ (node.syncPeers relisted 5).2.peers, ∃ w, advertised relisted q.pubkey = some w ∧
      q.endpoint = w.endpoint ∧ q.allowedIps = w.allowedIps := by
  have h_nodup : node.keys.Nodup := by decide
  obtain ⟨-, h_keys, -, h_last⟩ := sync_reconciles h_nodup relisted 5
  exact ⟨h_keys, h_last⟩

/-! ### Listed peers -/

namespace PeerManager

end PeerManager

namespace Symbolic

end Symbolic

end AraxMesh
