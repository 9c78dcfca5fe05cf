import AraxMesh.Lib.FirstMatch
import AraxMesh.PeerSteps

/-!
# The peer table

`PeerManager` of `peer.rs`, with the parser of peer specifications (`config.rs`, `types.rs`) that
`sync_peers` reads the coordinator's answer with.

The daemon reaches a peer by a search of the table for the first peer with some property and
changes it there: `updateFirst` is that access.
-/

namespace AraxMesh

open Text FirstMatch

/-! ### Peer specifications -/

/-- One peer as the coordinator advertises it. -/
structure PeerDescriptor where
  publicKey : Str
  allowedIp : Str
  endpoint : Option Str
deriving DecidableEq, Repr

/-- `PeerDescriptor::to_spec`: `pubkey;[endpoint];allowed_ip`. -/
def PeerDescriptor.toSpec (d : PeerDescriptor) : Str :=
  d.publicKey ++ ';' :: (d.endpoint.getD [] ++ ';' :: d.allowedIp)

/-- `Ipv4Subnet::from_str`. -/
def Ipv4Subnet.fromStr (s : Str) : Option Ipv4Subnet :=
  match s.splitOn '/' with
  | [addr] => (parseIpv4 addr).map fun ip => ⟨ip, 32⟩
  | [addr, len] => do
    let ip ← parseIpv4 addr
    let len ← parseU8 len
    if 32 < len then none else some ⟨ip, len⟩
  | _ => none

/-- What a peer specification says. -/
structure ParsedPeer where
  pubkey : Bytes
  endpoint : Option SocketAddr
  allowedIps : List Ipv4Subnet
deriving DecidableEq, Repr

def parsePeerArg (s : Str) : Option ParsedPeer :=
  match s.splitOn ';' with
  | [pubkeyHex, endpointStr, allowedIpStr] => do
    let pubkey ← hexDecode pubkeyHex
    if pubkey.length ≠ 32 then none
    else
      let endpoint ← (if endpointStr = [] then some none
        else (parseSocketAddr endpointStr).map some)
      let allowedIps ← (allowedIpStr.splitOn ',').mapM fun part => Ipv4Subnet.fromStr (trim part)
      return { pubkey, endpoint, allowedIps }
  | _ => none

/-- A specification that parses names a key of 32 bytes. -/
theorem length_pubkey_of_parsePeerArg {s : Str} {w : ParsedPeer} (h : parsePeerArg s = some w) :
    w.pubkey.length = 32 := by
  unfold parsePeerArg at h
  split at h
  · simp only [Option.bind_eq_bind, Option.bind_eq_some_iff] at h
    obtain ⟨pubkey, -, h⟩ := h
    by_cases hlen : pubkey.length ≠ 32
    · rw [if_pos hlen] at h
      cases h
    rw [if_neg hlen] at h
    simp only [Option.bind_eq_some_iff] at h
    obtain ⟨_, -, _, -, h⟩ := h
    obtain rfl := Option.some.inj h
    simpa using hlen
  · cases h

/-! ### The table -/

/-- The peers of a node. -/
structure PeerManager (S : Snow) where
  localPriv : Bytes
  peers : List (Peer S)
  magic : MagicConfig

variable {S : Snow}

namespace PeerManager

/-- `PeerManager::new`. -/
def new (localPriv : Bytes) (peers : List (Peer S)) (magic : MagicConfig) : PeerManager S where
  localPriv := localPriv
  peers := peers.map fun p => { p with magic := magic }
  magic := magic

/-- Reconcile the table with one advertised peer: update the first peer with its key in place, or
add a new one and note its endpoint. -/
def syncPeer (magic : MagicConfig) (now : Instant) (acc : List SocketAddr × List (Peer S))
    (w : ParsedPeer) : List SocketAddr × List (Peer S) :=
  match updateFirst (fun p => p.pubkey = w.pubkey)
      (fun p => ((), { p with endpoint := w.endpoint, allowedIps := w.allowedIps })) acc.2 with
  | (some (), peers) => (acc.1, peers)
  | (none, peers) =>
    (acc.1 ++ w.endpoint.toList,
      peers ++ [{ Peer.new w.pubkey w.endpoint w.allowedIps now with magic := magic }])

/-- Reconcile the table with the peers the coordinator advertises. Malformed descriptors are
skipped, and peers that are no longer listed are dropped. Returns the endpoints of the peers it
added. -/
def syncPeers (pm : PeerManager S) (descriptors : List PeerDescriptor) (now : Instant) :
    List SocketAddr × PeerManager S :=
  let wanted := descriptors.filterMap fun d => parsePeerArg d.toSpec
  let kept := pm.peers.filter fun p => wanted.any fun w => w.pubkey = p.pubkey
  let (newEndpoints, peers) := wanted.foldl (syncPeer pm.magic now) ([], kept)
  (newEndpoints, { pm with peers := peers })

/-- Longest-prefix match over all peers' subnets; the first of equally long matches wins. -/
def findBestPeerIdx (pm : PeerManager S) (dst : Ipv4Addr) : Option ℕ :=
  (pm.peers.zipIdx.foldl (fun best (peer, idx) =>
    peer.allowedIps.foldl (fun (best : Option ℕ × ℤ) subnet =>
      if subnet.contains dst ∧ best.2 < subnet.prefixLen.toNat then
        (some idx, subnet.prefixLen.toNat)
      else best) best) (none, -1)).1

end PeerManager
end AraxMesh
