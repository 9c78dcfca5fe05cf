import AraxMesh.Sync
import AraxMesh.Symbolic

/-!
# Hole punching

A daemon of a coordinated network learns its peers from the response to its registration and from
every poll after that. Only `sync_peers` reports endpoints to punch holes to, and only those of
peers it adds: the peers of the registration response and changed endpoints are passed over.

`polling` is a daemon's dealings with the coordinator. `punching_covers_iff` says in which of its
runs every endpoint the coordinator gives a peer is punched to.
-/

namespace AraxMesh

open LTS

variable {S : Snow}

/-- The endpoints in the table, with the keys of the peers they belong to. -/
def PeerManager.endpoints (pm : PeerManager S) : List (Bytes × SocketAddr) :=
  pm.peers.filterMap fun p => p.endpoint.map fun ep => (p.pubkey, ep)

theorem PeerManager.mem_endpoints {pm : PeerManager S} {key : Bytes} {ep : SocketAddr} :
    (key, ep) ∈ pm.endpoints ↔ ∃ p ∈ pm.peers, p.pubkey = key ∧ p.endpoint = some ep := by
  simp [endpoints, and_comm]

/-- A daemon between two polls. -/
structure Polling (S : Snow) where
  pm : PeerManager S
  /-- The addresses a burst of probes was started to. -/
  punched : List SocketAddr
  /-- The endpoints that peers had from the coordinator before its latest list. -/
  had : List (Bytes × SocketAddr)

/-- The coordinator branch of `resolve_network_setup`: the peers of the registration response, less
the malformed ones. -/
def resolveNetworkSetup (S : Snow) (descriptors : List PeerDescriptor) (now : Instant) :
    List (Peer S) :=
  (wanted descriptors).map fun w => Peer.new w.pubkey w.endpoint w.allowedIps now

namespace Polling

/-- A successful poll, `spawn_poll_task`: reconcile, and start a burst to each endpoint reported. -/
def poll (s : Polling S) (now : Instant) (descriptors : List PeerDescriptor) : Polling S :=
  let (newEndpoints, pm) := s.pm.syncPeers descriptors now
  { pm := pm, punched := s.punched ++ newEndpoints, had := s.had ++ s.pm.endpoints }

/-- A daemon that has registered, with the peers of the response. -/
def Registered (s : Polling S) : Prop :=
  ∃ localPriv descriptors magic now, s =
    { pm := PeerManager.new localPriv (resolveNetworkSetup S descriptors now) magic
      punched := []
      had := [] }

end Polling

/-- Registration and then polls, each with the list it brings. -/
def polling (S : Snow) : System (Polling S) (Instant × List PeerDescriptor) where
  init := Polling.Registered
  step s l s' := s.poll l.1 l.2 = s'

namespace Polling

/-- Every endpoint that the coordinator's latest list gave a peer, and that the peer did not have
from it before, has been punched to. -/
def Covered (s : Polling S) : Prop :=
  ∀ key ep, (key, ep) ∈ s.pm.endpoints → (key, ep) ∉ s.had → ep ∈ s.punched

/-- Every endpoint the list gives a peer for the first time has been punched to before, or the list
introduces a peer with it. -/
def Introduces (s : Polling S) (l : Instant × List PeerDescriptor) : Prop :=
  ∀ key w ep, advertised l.2 key = some w → w.endpoint = some ep →
    (key, ep) ∉ s.had → (key, ep) ∉ s.pm.endpoints →
    ep ∈ s.punched ∨ ∃ w' pre post, w'.endpoint = some ep ∧ w'.pubkey ∉ s.pm.keys ∧
      wanted l.2 = pre ++ w' :: post ∧ ∀ v ∈ pre, v.pubkey ≠ w'.pubkey

theorem mem_punched_poll {s : Polling S} {now : Instant} {descriptors : List PeerDescriptor}
    {ep : SocketAddr} : ep ∈ (s.poll now descriptors).punched ↔
      ep ∈ s.punched ∨ ∃ w pre post, w.endpoint = some ep ∧ w.pubkey ∉ s.pm.keys ∧
        wanted descriptors = pre ++ w :: post ∧ ∀ v ∈ pre, v.pubkey ≠ w.pubkey := by
  -- a poll punches to the endpoints of the peers it adds
  have h_new : (s.poll now descriptors).punched =
      s.punched ++ (s.pm.newPeers descriptors now).flatMap (·.endpoint.toList) := by
    rw [poll, PeerManager.syncPeers_eq]
  rw [h_new, List.mem_append, List.mem_flatMap]
  refine or_congr_right ⟨?_, ?_⟩
  · rintro ⟨w, hw, h_ep⟩
    obtain ⟨h_key, pre, post, h_eq, h_pre⟩ := PeerManager.mem_newPeers.mp hw
    exact ⟨w, pre, post, by simpa using h_ep, h_key, h_eq, h_pre⟩
  · rintro ⟨w, pre, post, h_ep, h_key, h_eq, h_pre⟩
    exact ⟨w, PeerManager.mem_newPeers.mpr ⟨h_key, pre, post, h_eq, h_pre⟩, by simp [h_ep]⟩

/-- **One poll.** Afterwards all new endpoints are covered exactly if the list introduces them. -/
theorem covered_poll_iff (s : Polling S) (now : Instant) (descriptors : List PeerDescriptor) :
    s.Introduces (now, descriptors) ↔ (s.poll now descriptors).Covered := by
  have h_pm : (s.poll now descriptors).pm = (s.pm.syncPeers descriptors now).2 := rfl
  have h_had : (s.poll now descriptors).had = s.had ++ s.pm.endpoints := rfl
  constructor
  · -- whatever endpoint the table has was there before, or comes from the list
    intro h key ep h_ep h_not
    rw [h_had, List.mem_append, not_or] at h_not
    rw [h_pm, PeerManager.mem_endpoints] at h_ep
    obtain ⟨p, hp, rfl, h_ep⟩ := h_ep
    rw [mem_punched_poll]
    rcases PeerManager.mem_syncPeers hp with h_old | ⟨w, hw, h_eq⟩
    · exact absurd (PeerManager.mem_endpoints.mpr ⟨p, h_old, rfl, h_ep⟩) h_not.2
    · exact h p.pubkey w ep hw (h_eq.symm.trans h_ep) h_not.1 h_not.2
  · intro h key w ep hw h_ep h_had' h_now
    -- the poll gives the peer the endpoint of its descriptor
    have h_given : (key, ep) ∈ (s.poll now descriptors).pm.endpoints := by
      have h_lookup := PeerManager.lookup_syncPeers s.pm descriptors now key
      rw [hw, Option.map_some] at h_lookup
      obtain ⟨h_mem, h_key⟩ := PeerManager.mem_of_lookup h_lookup
      rw [h_pm, PeerManager.mem_endpoints]
      refine ⟨_, h_mem, h_key, ?_⟩
      rw [← h_ep]
      cases s.pm.lookup key <;> rfl
    refine mem_punched_poll.mp (h key ep h_given ?_)
    rw [h_had, List.mem_append, not_or]
    exact ⟨h_had', h_now⟩

end Polling

/-- **When hole punching covers every advertised endpoint.** In a daemon's dealings with the
coordinator, every endpoint that its latest list gives a peer for the first time has been punched
to, after the registration and after every poll, exactly if the registration response gives no peer
an endpoint and every poll introduces what is new in its list. -/
theorem punching_covers_iff {s₀ s : Polling S} {ls : List (Instant × List PeerDescriptor)}
    (h_init : (polling S).init s₀) :
    (s₀.pm.endpoints = [] ∧ Exec ((polling S).restrict Polling.Introduces) s₀ ls s) ↔
      s₀.Covered ∧ Exec ((polling S).within Polling.Covered) s₀ ls s := by
  -- nothing is punched to at the registration
  have h_start : s₀.pm.endpoints = [] ↔ s₀.Covered := by
    obtain ⟨localPriv, descriptors, magic, now, rfl⟩ := h_init
    rw [List.eq_nil_iff_forall_not_mem]
    constructor
    · exact fun h key ep h_ep => absurd h_ep (h _)
    · exact fun h ⟨key, ep⟩ h_ep => absurd (h key ep h_ep List.not_mem_nil) List.not_mem_nil
  rw [h_start]
  refine and_congr_right fun h_covered => ?_
  refine Exec.restrict_iff_within (I := fun _ => True) (fun _ _ _ _ _ => trivial) ?_ trivial
    h_covered
  rintro s ⟨now, descriptors⟩ _ - - rfl
  exact s.covered_poll_iff now descriptors

/-! ### Two nodes -/

namespace Symbolic

/-- The node that registers first, as the coordinator lists it to the second. -/
def firstNode : PeerDescriptor where
  publicKey := (List.replicate 32 ['0', '9']).flatten
  allowedIp := "10.0.99.1".toList
  endpoint := some "192.0.2.1:51820".toList

/-- The node that registers second, with `firstNode` in the response. -/
def secondRegisters : Polling symbolic where
  pm := PeerManager.new (key 7) (resolveNetworkSetup symbolic [firstNode] 0) MagicConfig.default
  punched := []
  had := []

theorem secondRegisters_registered : (polling symbolic).init secondRegisters :=
  ⟨key 7, [firstNode], MagicConfig.default, 0, rfl⟩

end Symbolic

open Symbolic in
/-- The condition for the second of two nodes, after a poll. -/
theorem punching_covers_iff_second :
    (secondRegisters.pm.endpoints = [] ∧
      Exec ((polling symbolic).restrict Polling.Introduces) secondRegisters [(1, [firstNode])]
        (secondRegisters.poll 1 [firstNode])) ↔
    secondRegisters.Covered ∧
      Exec ((polling symbolic).within Polling.Covered) secondRegisters [(1, [firstNode])]
        (secondRegisters.poll 1 [firstNode]) :=
  punching_covers_iff secondRegisters_registered

open Symbolic in
/-- An advertised endpoint can be passed over: the second of two nodes does not punch to the first,
which it learns of when it registers. -/
theorem endpoint_not_punched :
    ¬ ∀ (s₀ s : Polling symbolic) (ls : List (Instant × List PeerDescriptor)),
      (polling symbolic).init s₀ → Exec (polling symbolic) s₀ ls s → s.Covered := by
  intro h
  have h_covered := h secondRegisters secondRegisters [] secondRegisters_registered Exec.refl
  have h_given : (key 9, SocketAddr.v4 (Ipv4Addr.ofOctets 192 0 2 1) 51820) ∈
      secondRegisters.pm.endpoints := by
    decide +kernel
  cases h_covered _ _ h_given List.not_mem_nil

end AraxMesh
