import AraxMesh.Lib.Reconcile
import AraxMesh.Specs

/-!
# Reconciling the peer table

`sync_peers` as the reconciliation of a keyed table: the peers are its items, their public keys the
keys, and the descriptors that parse are the orders. What it does to each peer and to the keys, and
which endpoints it reports, are then the rules for reconciling.
-/

namespace AraxMesh

open FirstMatch Reconcile

variable {S : Snow}

/-- The descriptors that parse, as parsed. -/
def wanted (descriptors : List PeerDescriptor) : List ParsedPeer :=
  descriptors.filterMap fun d => parsePeerArg d.toSpec

/-- A peer as `sync_peers` adds it. -/
def Peer.ofParsed (S : Snow) (magic : MagicConfig) (now : Instant) (w : ParsedPeer) : Peer S :=
  { Peer.new w.pubkey w.endpoint w.allowedIps now with magic := magic }

/-- Peers by public key, changed and added as advertised. -/
def peerTable (S : Snow) (magic : MagicConfig) (now : Instant) :
    Table (Peer S) ParsedPeer Bytes where
  key := Peer.pubkey
  wanted := ParsedPeer.pubkey
  set w p := { p with endpoint := w.endpoint, allowedIps := w.allowedIps }
  item := Peer.ofParsed S magic now
  key_set _ _ := rfl
  key_item _ := rfl
  set_set _ _ _ := rfl
  set_item w w' h := by
    rw [Peer.ofParsed, Peer.ofParsed, h]
    rfl

/-- The last descriptor that parses and has this key. -/
def advertised (descriptors : List PeerDescriptor) (key : Bytes) : Option ParsedPeer :=
  ((wanted descriptors).filter fun w => w.pubkey = key).getLast?

theorem advertised_eq_some {descriptors : List PeerDescriptor} {key : Bytes} {w : ParsedPeer}
    (h : advertised descriptors key = some w) : w ∈ wanted descriptors ∧ w.pubkey = key := by
  have h_mem := List.mem_of_getLast? h
  rw [List.mem_filter] at h_mem
  simpa using h_mem

theorem advertised_eq_none {descriptors : List PeerDescriptor} {key : Bytes} :
    advertised descriptors key = none ↔ ∀ w ∈ wanted descriptors, w.pubkey ≠ key := by
  rw [advertised, List.getLast?_eq_none_iff, List.filter_eq_nil_iff]
  simp

namespace PeerManager

/-- The first peer with a key. -/
def lookup (pm : PeerManager S) (key : Bytes) : Option (Peer S) :=
  pm.peers.find? fun p => p.pubkey = key

/-- The keys of the table, in order. -/
def keys (pm : PeerManager S) : List Bytes := pm.peers.map Peer.pubkey

/-- The descriptors that add a peer: the first ones of keys that the table does not have. -/
def newPeers (pm : PeerManager S) (descriptors : List PeerDescriptor) (now : Instant) :
    List ParsedPeer :=
  let T := peerTable S pm.magic now
  T.added (T.keys (T.kept pm.peers (wanted descriptors))) (wanted descriptors)

variable {pm : PeerManager S} {descriptors : List PeerDescriptor} {now : Instant} {key : Bytes}

theorem mem_keys : key ∈ pm.keys ↔ ∃ p ∈ pm.peers, p.pubkey = key := List.mem_map

theorem lookup_eq_none : pm.lookup key = none ↔ key ∉ pm.keys :=
  Table.lookup_eq_none (T := peerTable S pm.magic 0)

theorem mem_of_lookup {p : Peer S} (h : pm.lookup key = some p) : p ∈ pm.peers ∧ p.pubkey = key :=
  Table.key_of_lookup (T := peerTable S pm.magic 0) h

theorem lookup_of_mem (h : pm.keys.Nodup) {p : Peer S} (hp : p ∈ pm.peers) :
    pm.lookup p.pubkey = some p :=
  Table.lookup_of_mem (T := peerTable S pm.magic 0) h hp

/-- One descriptor: the table is changed as ordered, and the endpoint of a new peer is noted. -/
theorem syncPeer_eq (magic : MagicConfig) (now : Instant) (es : List SocketAddr)
    (ps : List (Peer S)) (w : ParsedPeer) : syncPeer magic now (es, ps) w =
      (if w.pubkey ∈ ps.map Peer.pubkey then es else es ++ w.endpoint.toList,
        (peerTable S magic now).upsert ps w) := by
  let T := peerTable S magic now
  unfold syncPeer Table.upsert
  rcases updateFirst_cases (fun p : Peer S => decide (p.pubkey = w.pubkey)) (fun p =>
    ((), { p with endpoint := w.endpoint, allowedIps := w.allowedIps })) ps with
    ⟨h_none, h_eq⟩ | ⟨l₁, p, l₂, h_ps, hp, -, h_eq⟩
  · -- nobody has the key: the peer is added, and its endpoint noted
    have h_new : w.pubkey ∉ ps.map Peer.pubkey := by
      rw [List.mem_map]
      rintro ⟨p, hp, hk⟩
      simpa [hk] using h_none p hp
    have h_eq' : updateFirst (fun p => decide (T.key p = T.wanted w)) (fun p => ((), T.set w p)) ps
        = (none, ps) := h_eq
    rw [if_neg h_new, h_eq, h_eq']
    rfl
  · -- the first peer with the key is changed
    have h_old : w.pubkey ∈ ps.map Peer.pubkey :=
      List.mem_map.mpr ⟨p, by simp [h_ps], by simpa using hp⟩
    have h_eq' : updateFirst (fun p => decide (T.key p = T.wanted w)) (fun p => ((), T.set w p)) ps
        = (some (), l₁ ++ T.set w p :: l₂) := h_eq
    rw [if_pos h_old, h_eq, h_eq']
    rfl

/-- All descriptors in turn. -/
theorem foldl_syncPeer (magic : MagicConfig) (now : Instant) (ws : List ParsedPeer)
    (es : List SocketAddr) (ps : List (Peer S)) :
    ws.foldl (syncPeer magic now) (es, ps) =
      (es ++ ((peerTable S magic now).added (ps.map Peer.pubkey) ws).flatMap (·.endpoint.toList),
        ws.foldl (peerTable S magic now).upsert ps) := by
  induction ws generalizing es ps with
  | nil => simp [Table.added]
  | cons w ws ih =>
    -- which descriptors add a peer depends on the keys so far
    let T := peerTable S magic now
    have h_keys := Table.keys_upsert (T := T) ps w
    rw [List.foldl_cons, syncPeer_eq, ih, Table.added]
    by_cases hw : w.pubkey ∈ ps.map Peer.pubkey
    · rw [if_pos hw, if_pos (show T.wanted w ∈ _ from hw)]
      rw [if_pos (show T.wanted w ∈ T.keys ps from hw)] at h_keys
      rw [show (T.upsert ps w).map Peer.pubkey = ps.map Peer.pubkey from h_keys]
      rfl
    · rw [if_neg hw, if_neg (show T.wanted w ∉ _ from hw), List.flatMap_cons, ← List.append_assoc]
      rw [if_neg (show T.wanted w ∉ T.keys ps from hw)] at h_keys
      rw [show (T.upsert ps w).map Peer.pubkey = ps.map Peer.pubkey ++ [w.pubkey] from h_keys]
      rfl

/-- **`sync_peers` reconciles the table**, and reports the endpoints of the peers it adds. -/
theorem syncPeers_eq (pm : PeerManager S) (descriptors : List PeerDescriptor) (now : Instant) :
    pm.syncPeers descriptors now =
      ((pm.newPeers descriptors now).flatMap (·.endpoint.toList),
        { pm with
          peers := (peerTable S pm.magic now).reconcile pm.peers (wanted descriptors) }) := by
  unfold syncPeers
  dsimp only
  rw [foldl_syncPeer, List.nil_append]
  rfl

/-- What a peer is after the table was reconciled: the last descriptor for its key decides. -/
theorem lookup_syncPeers (pm : PeerManager S) (descriptors : List PeerDescriptor) (now : Instant)
    (key : Bytes) : (pm.syncPeers descriptors now).2.lookup key =
      (advertised descriptors key).map fun w => (pm.lookup key).elim
        (Peer.ofParsed S pm.magic now w)
        fun p => { p with endpoint := w.endpoint, allowedIps := w.allowedIps } := by
  rw [syncPeers_eq]
  exact Table.lookup_reconcile (T := peerTable S pm.magic now) pm.peers (wanted descriptors) key

/-- A peer of the reconciled table was there before, or has the endpoint advertised for its key. -/
theorem mem_syncPeers {p : Peer S} (hp : p ∈ (pm.syncPeers descriptors now).2.peers) :
    p ∈ pm.peers ∨ ∃ w, advertised descriptors p.pubkey = some w ∧ p.endpoint = w.endpoint := by
  have h_lookup := lookup_syncPeers pm descriptors now p.pubkey
  rw [syncPeers_eq] at hp h_lookup
  -- a peer that is not an old one is the first of its key
  refine (Table.mem_reconcile hp).imp_right fun h_first => ?_
  obtain ⟨w, hw, h_eq⟩ := Option.map_eq_some_iff.mp (h_lookup.symm.trans h_first)
  refine ⟨w, hw, ?_⟩
  rw [← h_eq]
  cases pm.lookup p.pubkey <;> rfl

theorem nodup_syncPeers (h : pm.keys.Nodup) : (pm.syncPeers descriptors now).2.keys.Nodup := by
  rw [syncPeers_eq]
  exact Table.nodup_reconcile (T := peerTable S pm.magic now) h

/-- The keys of the table are those that were advertised. -/
theorem mem_keys_syncPeers : key ∈ (pm.syncPeers descriptors now).2.keys ↔
    ∃ w ∈ wanted descriptors, w.pubkey = key := by
  rw [← not_iff_not, ← lookup_eq_none, lookup_syncPeers, Option.map_eq_none_iff,
    advertised_eq_none]
  simp

/-- The peers that are added: first descriptors of keys that the table does not have. -/
theorem mem_newPeers {w : ParsedPeer} : w ∈ pm.newPeers descriptors now ↔ w.pubkey ∉ pm.keys ∧
    ∃ pre post, wanted descriptors = pre ++ w :: post ∧ ∀ w' ∈ pre, w'.pubkey ≠ w.pubkey := by
  rw [newPeers, Table.mem_added, Table.mem_keys_kept]
  constructor
  · -- a key the table has is kept, as this descriptor names it
    rintro ⟨h_not, pre, post, h_eq, h_pre⟩
    refine ⟨fun h_key => h_not ⟨h_key, fun h_last => ?_⟩, pre, post, h_eq, h_pre⟩
    exact Table.last_eq_none.mp h_last w (by rw [h_eq]; simp) rfl
  · rintro ⟨h_not, pre, post, h_eq, h_pre⟩
    exact ⟨fun h => h_not h.1, pre, post, h_eq, h_pre⟩

end PeerManager
end AraxMesh
