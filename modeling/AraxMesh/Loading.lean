import AraxMesh.Punching
import AraxMesh.Reconciliation

/-!
# The first table

The table of a coordinated daemon is built twice over: from the registration response by
`resolve_network_setup`, and from every poll by `sync_peers`. The first makes a peer of every
descriptor that parses, the second merges the descriptors of one key. `loads_as_synced_iff` says for
which lists the two agree.
-/

namespace AraxMesh

open Reconcile

variable {S : Snow}

/-- What the coordinator decides about a peer. -/
def Peer.advertisement (p : Peer S) : ParsedPeer where
  pubkey := p.pubkey
  endpoint := p.endpoint
  allowedIps := p.allowedIps

namespace PeerManager

/-- The table a daemon starts with, from the registration response. -/
def loaded (S : Snow) (localPriv : Bytes) (magic : MagicConfig) (descriptors : List PeerDescriptor)
    (now : Instant) : PeerManager S :=
  new localPriv (resolveNetworkSetup S descriptors now) magic

/-- The table `loaded` is the one that `sync_peers` makes of the empty table, has distinct keys, and
is left as it is by a poll that returns the same list. -/
structure LoadsAsSynced (S : Snow) (localPriv : Bytes) (magic : MagicConfig)
    (descriptors : List PeerDescriptor) (now : Instant) : Prop where
  same : ∀ later, (loaded S localPriv magic descriptors now).peers.map Peer.advertisement =
    (((new localPriv [] magic : PeerManager S).syncPeers descriptors later).2.peers).map
      Peer.advertisement
  distinct : (loaded S localPriv magic descriptors now).keys.Nodup
  steady : ∀ later, (loaded S localPriv magic descriptors now).syncPeers descriptors later =
    ([], loaded S localPriv magic descriptors now)

variable {localPriv : Bytes} {magic : MagicConfig} {descriptors : List PeerDescriptor}
  {now : Instant}

/-- One peer for each descriptor that parses. -/
theorem loaded_peers : (loaded S localPriv magic descriptors now).peers =
    (wanted descriptors).map (peerTable S magic now).item := by
  rw [loaded, new, resolveNetworkSetup, List.map_map]
  rfl

theorem keys_loaded : (loaded S localPriv magic descriptors now).keys = listedKeys descriptors := by
  rw [keys, loaded_peers, List.map_map]
  exact List.map_congr_left fun w _ => (peerTable S magic now).key_item w

end PeerManager

/-- The keys are distinct if those of the descriptors that parse are. -/
theorem nodup_listedKeys_iff {descriptors : List PeerDescriptor} : (listedKeys descriptors).Nodup ↔
    (descriptors.filter fun d => (parsePeerArg d.toSpec).isSome).Pairwise
      fun d d' => hexDecode d.publicKey ≠ hexDecode d'.publicKey := by
  rw [listedKeys, wanted, List.Nodup, List.pairwise_map, List.pairwise_filterMap,
    List.pairwise_filter]
  refine List.Pairwise.iff fun d d' => ?_
  constructor
  · intro h h_some h_some' h_eq
    obtain ⟨w, hw⟩ := Option.isSome_iff_exists.mp h_some
    obtain ⟨w', hw'⟩ := Option.isSome_iff_exists.mp h_some'
    rw [hexDecode_of_parsePeerArg hw, hexDecode_of_parsePeerArg hw'] at h_eq
    exact h w hw w' hw' (Option.some.inj h_eq)
  · intro h w hw w' hw' h_eq
    refine h (by rw [hw]; rfl) (by rw [hw']; rfl) ?_
    rw [hexDecode_of_parsePeerArg hw, hexDecode_of_parsePeerArg hw', h_eq]

/-- **Exactly when the initial load is a sync.** The table a daemon builds from the registration
response is the one `sync_peers` builds from the same list, with distinct keys, and stays as it is
when the first poll returns that list, if and only if no two descriptors that parse have the same
key. -/
theorem loads_as_synced_iff (localPriv : Bytes) (magic : MagicConfig)
    (descriptors : List PeerDescriptor) (now : Instant) :
    PeerManager.LoadsAsSynced S localPriv magic descriptors now ↔
      (descriptors.filter fun d => (parsePeerArg d.toSpec).isSome).Pairwise
        fun d d' => hexDecode d.publicKey ≠ hexDecode d'.publicKey := by
  rw [← nodup_listedKeys_iff]
  constructor
  · intro h
    -- a table that was synced has distinct keys, and this one has those of the descriptors
    have h_distinct := h.distinct
    rwa [PeerManager.keys_loaded] at h_distinct
  · intro h
    refine ⟨fun later => ?_, PeerManager.keys_loaded (S := S) ▸ h, fun later => ?_⟩
    · -- both make a peer of every descriptor
      have h_synced : ((PeerManager.new localPriv [] magic : PeerManager S).syncPeers descriptors
          later).2.peers = (wanted descriptors).map (peerTable S magic later).item := by
        rw [PeerManager.syncPeers_eq]
        exact Table.reconcile_nil (T := peerTable S magic later) h
      rw [PeerManager.loaded_peers, h_synced, List.map_map, List.map_map]
      exact List.map_congr_left fun w _ => rfl
    · -- every peer is as its descriptor says already
      obtain ⟨h_same, h_added⟩ := Table.reconcile_of_ordered (T := peerTable S magic later)
        (f := (peerTable S magic now).item) (fun w => rfl) (fun w => rfl) h
      rw [← PeerManager.loaded_peers] at h_same h_added
      calc (PeerManager.loaded S localPriv magic descriptors now).syncPeers descriptors later
          = (([] : List ParsedPeer).flatMap (·.endpoint.toList),
              { PeerManager.loaded S localPriv magic descriptors now with
                peers := (PeerManager.loaded S localPriv magic descriptors now).peers }) := by
            rw [PeerManager.syncPeers_eq]
            exact congrArg₂ (fun ws ps => (ws.flatMap (·.endpoint.toList),
              { PeerManager.loaded S localPriv magic descriptors now with peers := ps }))
              h_added h_same
        _ = ([], PeerManager.loaded S localPriv magic descriptors now) := rfl

namespace Symbolic

/-- One key under two spellings, which the registry has two nodes for. -/
def twoSpellings : List PeerDescriptor :=
  [⟨(List.replicate 32 ['a', 'b']).flatten, "10.0.99.1".toList, none⟩,
    ⟨(List.replicate 32 ['A', 'B']).flatten, "10.0.99.2".toList, some "10.0.0.2:500".toList⟩]

end Symbolic

open Symbolic in
/-- A repeated key is loaded twice, and would be synced once. -/
theorem loaded_twice :
    (PeerManager.loaded symbolic (key 7) MagicConfig.default twoSpellings 0).keys =
      [key 0xab, key 0xab] ∧
    ((PeerManager.new (key 7) [] MagicConfig.default : PeerManager symbolic).syncPeers
      twoSpellings 0).2.keys = [key 0xab] ∧
    ¬ PeerManager.LoadsAsSynced symbolic (key 7) MagicConfig.default twoSpellings 0 := by
  have h_loaded : (PeerManager.loaded symbolic (key 7) MagicConfig.default twoSpellings 0).keys =
      [key 0xab, key 0xab] := by decide +kernel
  have h_synced : ((PeerManager.new (key 7) [] MagicConfig.default :
      PeerManager symbolic).syncPeers twoSpellings 0).2.keys = [key 0xab] := by decide +kernel
  refine ⟨h_loaded, h_synced, fun h => ?_⟩
  have h_distinct := h.distinct
  rw [h_loaded] at h_distinct
  exact absurd h_distinct (by decide)

end AraxMesh
