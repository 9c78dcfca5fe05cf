import AraxMesh.Shares
import AraxMesh.Sync
import AraxMesh.Unauthentic

/-!
# Roaming and polling

A peer's endpoint has three writers: an accepted initiation and a roamed data packet set it to the
address the traffic came from, and a poll sets it to what the coordinator advertises. `Roamed` is
the history of a peer whose endpoint was last set by traffic; no other turn of the daemon changes it
(`step_follows`). The next poll does: `roaming_kept_iff` says that an unchanged descriptor leaves
the endpoint as learned only if it advertises that very address.
-/

namespace AraxMesh

open LTS FirstMatch

variable {S : Snow}

/-! ### What keeps an endpoint -/

namespace Peer

/-- The peer keeps its key and its endpoint. -/
structure SameAddress (p p' : Peer S) : Prop where
  pubkey : p'.pubkey = p.pubkey
  endpoint : p'.endpoint = p.endpoint

theorem SameAddress.refl (p : Peer S) : p.SameAddress p := ⟨rfl, rfl⟩

theorem SameAddress.trans {p q r : Peer S} (h : p.SameAddress q) (h' : q.SameAddress r) :
    p.SameAddress r :=
  ⟨h'.pubkey.trans h.pubkey, h'.endpoint.trans h.endpoint⟩

theorem sameAddress_setSlot (p : Peer S) (k : Slot) (s : ActiveSession S) :
    p.SameAddress (p.setSlot k s) := by
  cases k <;> exact ⟨rfl, rfl⟩

theorem initiateAndSend_address (p : Peer S) (localPriv : Bytes) (hasRelay : Bool) (d : Draw S)
    (now : Instant) : p.SameAddress (p.initiateAndSend localPriv hasRelay d now).2 := by
  have h := p.initiated localPriv d now
  unfold initiateAndSend
  generalize p.initiateHandshake localPriv d now = out at h ⊢
  cases h with
  | failed => exact .refl p
  | begun => exact ⟨rfl, rfl⟩

theorem encryptAndSend_address (p : Peer S) (payload : Bytes) (hasRelay : Bool) (d : Draw S)
    (now : Instant) : p.SameAddress (p.encryptAndSend payload hasRelay d now).2.2 := by
  have h := p.encrypted payload d now
  unfold encryptAndSend
  generalize p.encryptPacket payload d now = out at h ⊢
  cases h with
  | inactive => exact .refl p
  | failed => exact ⟨rfl, rfl⟩
  | sent => exact ⟨rfl, rfl⟩

theorem respond_address (p : Peer S) (hs : S.HandshakeState) (magic : MagicConfig) (d : Draw S)
    (now : Instant) : p.SameAddress (p.respond hs magic d now).state := by
  have h := p.responded hs magic d now
  generalize p.respond hs magic d now = out at h ⊢
  cases h with
  | failed => exact .refl p
  | installed => exact ⟨rfl, rfl⟩

theorem handleHandshakePacket_address (p : Peer S) (localPriv : Bytes) (packetType : UInt8)
    (payload : Bytes) (d : Draw S) (now : Instant) :
    p.SameAddress (p.handleHandshakePacket localPriv packetType payload d now).state := by
  have h := p.handled localPriv packetType payload d now
  generalize p.handleHandshakePacket localPriv packetType payload d now = out at h ⊢
  cases h with
  | ignored => exact .refl p
  | responded hs => exact p.respond_address hs p.magic d now
  | answered h =>
    cases h with
    | idle => exact .refl p
    | rejected => exact ⟨rfl, rfl⟩
    | abandoned => exact ⟨rfl, rfl⟩
    | completed => exact ⟨rfl, rfl⟩

theorem acceptData_address (p : Peer S) (payload : Bytes) (now : Instant) :
    p.SameAddress (p.acceptData payload now).state := by
  have h := p.accepted payload now
  generalize p.acceptData payload now = out at h ⊢
  cases h with
  | ignored => exact .refl p
  | opened k s padded w =>
    exact (p.sameAddress_setSlot k (s.accept w payload.length)).trans ⟨rfl, rfl⟩

/-- The machine whose steps leave the address alone. -/
def addressSystem (S : Snow) : System (Peer S) (List (Event S)) where
  init _ := True
  step p _ p' := p.SameAddress p'

theorem sameAddress_of_emits {p p' : Peer S} {es : List (Event S)}
    (h : Emits (addressSystem S) p es p') : p.SameAddress p' :=
  h.invariant p.SameAddress (.refl p) fun _ _ _ h_past h_step => h_past.trans h_step

theorem makes_address : Makes (addressSystem S) where
  forget _ := .single ⟨rfl, rfl⟩
  clear _ := .single ⟨rfl, rfl⟩
  initiate p localPriv hasRelay d now _ :=
    .single (p.initiateAndSend_address localPriv hasRelay d now)
  encrypt p payload hasRelay d now := .single (p.encryptAndSend_address payload hasRelay d now)
  resend _ _ _ := .single ⟨rfl, rfl⟩

theorem timer_address (p : Peer S) (localPriv : Bytes) (hasRelay : Bool) (d d' : Draw S)
    (now : Instant) : p.SameAddress (p.timer localPriv hasRelay d d' now).2 :=
  sameAddress_of_emits (makes_address.timer p localPriv hasRelay d d' now)

theorem sendPacket_address (p : Peer S) (localPriv payload : Bytes) (hasRelay : Bool) (d : Draw S)
    (now : Instant) : p.SameAddress (p.sendPacket localPriv payload hasRelay d now).2 :=
  sameAddress_of_emits (makes_address.sendPacket p localPriv payload hasRelay d now)

end Peer

/-! ### What sets an endpoint -/

/-- Authentic traffic of the peer comes by UDP from `addr`: an initiation with its static key, or a
data packet that it admits. -/
def PeerManager.HearsFrom (pm : PeerManager S) (now : Instant) (task : DaemonTask S) (p : Peer S)
    (addr : SocketAddr) : Prop :=
  ∃ d payload, (task.Receives (pm.magic.handshakeInit :: payload) addr d ∧
      ∃ hs, S.readInitiation pm.localPriv payload = some (hs, p.pubkey)) ∨
    task.Receives (pm.magic.data :: payload) addr d ∧ p.AdmitsSome payload now

/-- A peer before and after a turn: it keeps its key, and has a new endpoint only if authentic
traffic came from there. -/
def PeerManager.Follows (pm : PeerManager S) (now : Instant) (task : DaemonTask S)
    (p p' : Peer S) : Prop :=
  p'.pubkey = p.pubkey ∧
    (p'.endpoint = p.endpoint ∨ ∃ addr, p'.endpoint = some addr ∧ pm.HearsFrom now task p addr)

/-- What the trial loop and the look-up by endpoint do to the address of a peer. -/
def Peer.MovesTo (addr : SocketAddr) (payload : Bytes) (now : Instant) (p p' : Peer S) : Prop :=
  p'.pubkey = p.pubkey ∧
    (p'.endpoint = p.endpoint ∨ p'.endpoint = some addr ∧ p.AdmitsSome payload now)

theorem trialDecrypt_address (addr : SocketAddr) (payload : Bytes) (now : Instant)
    (l : List (Peer S)) :
    List.Forall₂ (Peer.MovesTo addr payload now) l (trialDecrypt addr payload now l).state := by
  induction l with
  | nil => exact .nil
  | cons p ps ih =>
    unfold trialDecrypt
    split_ifs
    · exact .cons ⟨rfl, Or.inl rfl⟩ ih
    · -- a peer that is tried moves only if it accepts, and then the loop ends
      have h_same := p.acceptData_address payload now
      have h_acc := p.accepted payload now
      generalize p.acceptData payload now = out at h_same h_acc ⊢
      obtain ⟨_ | plaintext, es, q⟩ := out
      · exact .cons ⟨h_same.pubkey, Or.inl h_same.endpoint⟩ ih
      · refine .cons ⟨h_same.pubkey, Or.inr ⟨rfl, ?_⟩⟩
          (List.forall₂_same.mpr fun _ _ => ⟨rfl, Or.inl rfl⟩)
        cases h_acc with
        | opened k s padded w h => exact ⟨k, s, padded, h⟩

namespace PeerManager

theorem udpData_address (pm : PeerManager S) (payload : Bytes) (addr : SocketAddr)
    (now : Instant) :
    List.Forall₂ (Peer.MovesTo addr payload now) pm.peers
      (pm.udpData payload addr now).2.peers := by
  obtain ⟨peers, h_looked, h_eq⟩ := pm.udpData_looked payload addr now
  -- the look changes a peer at the sender's address only, and not its address
  have h_look : List.Forall₂ (fun p q => p.SameAddress q ∧ (q = p ∨ p.endpoint = some addr))
      pm.peers peers := by
    refine h_looked.imp fun p q h => ?_
    rcases h with rfl | ⟨h_ep, rfl | rfl⟩
    · exact ⟨.refl _, Or.inl rfl⟩
    · exact ⟨p.acceptData_address payload now, Or.inr h_ep⟩
    · exact ⟨(p.acceptData_address payload now).trans ⟨rfl, rfl⟩, Or.inr h_ep⟩
  rcases h_eq with h_eq | h_eq
  · rw [h_eq]
    exact h_look.imp fun p q h => ⟨h.1.pubkey, Or.inl h.1.endpoint⟩
  · rw [h_eq]
    refine forall₂_comp ?_ h_look (trialDecrypt_address addr payload now peers)
    rintro p q r ⟨h_same, h_or⟩ ⟨h_key, h_ep⟩
    refine ⟨h_key.trans h_same.pubkey, ?_⟩
    rcases h_or with rfl | h_at
    · exact h_ep
    · -- found at the address, it has that address already when the trial loop moves it there
      refine Or.inl ?_
      rcases h_ep with h_ep | ⟨h_ep, -⟩
      · exact h_ep.trans h_same.endpoint
      · exact h_ep.trans h_at.symm

/-- What traffic and the node itself do to the address of a peer, branch by branch. -/
theorem shares_follows (pm : PeerManager S) (hasRelay : Bool) (now : Instant)
    (task : DaemonTask S) : pm.Shares hasRelay now task (pm.Follows now task) := by
  have h_same : ∀ {p p' : Peer S}, p.SameAddress p' → pm.Follows now task p p' := fun h =>
    ⟨h.pubkey, Or.inl h.endpoint⟩
  constructor
  case refl => exact fun p => h_same (.refl p)
  case timer => exact fun _ _ p d d' => h_same (p.timer_address _ _ d d' _)
  case tun => exact fun _ d _ p => h_same (p.sendPacket_address _ _ _ d _)
  case udpInit =>
    -- the peer with the key of the initiation is given the sender's address
    intro payload addr d h_task hs p h_read
    have h_resp := Peer.respond_address { p with endpoint := some addr, lastDirectRx := now }
      hs pm.magic d now
    exact ⟨h_resp.pubkey, Or.inr ⟨addr, h_resp.endpoint, d, payload,
      Or.inl ⟨h_task, hs, h_read⟩⟩⟩
  case udpResp =>
    intro _ payload _ d _ p
    exact h_same ((p.handleHandshakePacket_address _ _ payload d _).trans ⟨rfl, rfl⟩)
  case udpData =>
    -- the peer that accepts the packet is given the sender's address
    intro payload addr d h_task
    refine (pm.udpData_address payload addr now).imp fun p q h => ⟨h.1, h.2.imp_right ?_⟩
    exact fun h => ⟨addr, h.1, d, payload, Or.inr ⟨h_task, h.2⟩⟩
  -- what comes by the relay says nothing about addresses
  case relayedInit => exact fun _ _ d _ hs p => h_same (p.respond_address hs _ d _)
  case relayedResp => exact fun _ _ _ d _ p => h_same (p.handleHandshakePacket_address _ _ _ d _)
  case relayedData => exact fun _ _ payload _ _ p => h_same (p.acceptData_address payload _)

/-- **Only authentic traffic and polls move a peer.** -/
theorem step_follows (pm : PeerManager S) (hasRelay : Bool) (now : Instant) {task : DaemonTask S}
    (h_poll : ∀ descriptors, task ≠ .poll descriptors) :
    List.Forall₂ (pm.Follows now task) pm.peers (pm.step hasRelay now task).2.peers :=
  (pm.shares_follows hasRelay now task).step h_poll

end PeerManager

/-! ### A peer that has roamed -/

namespace PeerManager

/-- The peer with this key is given the endpoint `addr` by authentic traffic from there: an accepted
initiation, or a data packet. -/
structure Learns (pm : PeerManager S) (l : DaemonLabel S) (pm' : PeerManager S) (key : Bytes)
    (addr : SocketAddr) : Prop where
  heard : ∃ p, pm.lookup key = some p ∧ pm.HearsFrom l.now l.task p addr
  endpoint : ∃ p, pm'.lookup key = some p ∧ p.endpoint = some addr

end PeerManager

/-- Since the last poll, whose list was `descriptors`, the peer with this key was given an endpoint
by authentic traffic, last from `addr`. -/
inductive Roamed (hasRelay : Bool) (key : Bytes) (descriptors : List PeerDescriptor) :
    SocketAddr → PeerManager S → Prop
  | learn {pm₀ pm pm' : PeerManager S} {ls₁ ls₂ : List (DaemonLabel S)} {l : DaemonLabel S}
      {t : Instant} {es : List (Event S)} {addr : SocketAddr} (h_init : pm₀.Initial)
      (h_run : Exec (daemon S hasRelay) pm₀ (ls₁ ++ ⟨t, .poll descriptors, es⟩ :: ls₂) pm)
      (h_polls : ∀ l ∈ ls₂, ∀ ds, l.task ≠ .poll ds) (h_step : (daemon S hasRelay).step pm l pm')
      (h : pm.Learns l pm' key addr) : Roamed hasRelay key descriptors addr pm'
  | later {pm pm' : PeerManager S} {l : DaemonLabel S} {addr : SocketAddr}
      (h : Roamed hasRelay key descriptors addr pm) (h_step : (daemon S hasRelay).step pm l pm')
      (h_poll : ∀ ds, l.task ≠ .poll ds) (h_not : ∀ addr', ¬ pm.Learns l pm' key addr') :
      Roamed hasRelay key descriptors addr pm'

/-- The endpoint of a roamed peer is where it was last heard from. -/
theorem Roamed.endpoint {hasRelay : Bool} {key : Bytes} {descriptors : List PeerDescriptor}
    {addr : SocketAddr} {pm : PeerManager S} (h : Roamed hasRelay key descriptors addr pm) :
    ∃ p, pm.lookup key = some p ∧ p.endpoint = some addr := by
  induction h with
  | learn h_init h_run h_polls h_step h => exact h.endpoint
  | @later pm pm' l addr _ h_step h_poll h_not ih =>
    obtain ⟨p, hp, h_ep⟩ := ih
    -- a step that is not a poll moves the peer only to where it is heard from
    have h_turn := pm.step_follows hasRelay l.now h_poll
    rw [show pm.step hasRelay l.now l.task = _ from h_step] at h_turn
    obtain ⟨p', hp', -, h_ends⟩ : ∃ p', pm'.lookup key = some p' ∧ pm.Follows l.now l.task p p' :=
      forall₂_find? (fun p q h => by rw [h.1]) h_turn hp
    rcases h_ends with h_same | ⟨addr', h_new, h_hears⟩
    · exact ⟨p', hp', h_same.trans h_ep⟩
    · -- and the peer has not been heard from
      exact absurd ⟨⟨p, hp, h_hears⟩, p', hp', h_new⟩ (h_not addr')

/-- The last descriptor in the list that parses and names the key. -/
def descriptorFor (descriptors : List PeerDescriptor) (key : Bytes) : Option PeerDescriptor :=
  (descriptors.filter fun d =>
    (parsePeerArg d.toSpec).any fun w => w.pubkey = key).getLast?

/-- What is advertised for a key is what its descriptor says. -/
theorem advertised_eq (descriptors : List PeerDescriptor) (key : Bytes) :
    advertised descriptors key =
      (descriptorFor descriptors key).bind fun d => parsePeerArg d.toSpec := by
  unfold advertised descriptorFor wanted
  induction descriptors using List.reverseRecOn with
  | nil => rfl
  | append_singleton ds d ih =>
    rw [List.filterMap_append, List.filter_append, List.filter_append]
    cases h_parse : parsePeerArg d.toSpec with
    | none => simpa [h_parse] using ih
    | some w =>
      by_cases h_key : w.pubkey = key
      · -- the last descriptor names the key: it is the one on both sides
        simp [h_parse, h_key]
      · simpa [h_parse, h_key] using ih

/-- **Exactly when a poll leaves a roamed peer where it is.** Let the peer with some key have been
given its endpoint `addr` by authentic traffic since the last poll. After a poll in which its
descriptor is the same as before, its endpoint is still `addr` if and only if that is the endpoint
the descriptor advertises. -/
theorem roaming_kept_iff {hasRelay : Bool} {key : Bytes} {descriptors : List PeerDescriptor}
    {addr : SocketAddr} {pm pm' : PeerManager S} {l : DaemonLabel S}
    (h_roamed : Roamed hasRelay key descriptors addr pm)
    (h_step : (daemon S hasRelay).step pm l pm') {descriptors' : List PeerDescriptor}
    (h_poll : l.task = .poll descriptors') {d : PeerDescriptor}
    (h_before : descriptorFor descriptors key = some d)
    (h_same : descriptorFor descriptors' key = descriptorFor descriptors key) :
    (∃ p, pm'.lookup key = some p ∧ p.endpoint = some addr) ↔
      ∃ w, parsePeerArg d.toSpec = some w ∧ w.endpoint = some addr := by
  obtain ⟨p, hp, h_ep⟩ := h_roamed.endpoint
  -- the step is a reconciliation with the list
  obtain rfl : (pm.syncPeers descriptors' l.now).2 = pm' := by
    have h_turn : pm.step hasRelay l.now l.task = (l.events, pm') := h_step
    rw [h_poll] at h_turn
    exact congrArg Prod.snd h_turn
  -- which gives the peer what its descriptor says, wherever it was
  have h_after : (pm.syncPeers descriptors' l.now).2.lookup key =
      (parsePeerArg d.toSpec).map fun w =>
        { p with endpoint := w.endpoint, allowedIps := w.allowedIps } := by
    rw [PeerManager.lookup_syncPeers, advertised_eq, h_same, h_before, hp]
    rfl
  rw [h_after]
  cases parsePeerArg d.toSpec with
  | none => simp
  | some w => simp

/-! ### A roamed peer is polled -/

namespace Symbolic

/-- Where the peer of `node` has roamed to. -/
def newAddr : SocketAddr := .v4 (Ipv4Addr.ofOctets 10 0 0 3) 600

/-- The peer of `node`, as the coordinator advertises it. -/
def peerDescriptor : PeerDescriptor where
  publicKey := (List.replicate 32 ['0', '9']).flatten
  allowedIp := "10.0.99.0/24".toList
  endpoint := some "10.0.0.2:500".toList

/-- `node` after a poll. -/
def polled : PeerManager symbolic :=
  (node.step false 0 (.poll [peerDescriptor])).2

/-- Its peer's initiation, from the new address. -/
def moved : DaemonTask symbolic :=
  .udp (polled.magic.handshakeInit :: initiation 9 7 1) newAddr (draw 2)

/-- `polled` after that. -/
def roamed : PeerManager symbolic := (polled.step false 1 moved).2

theorem roamed_roamed : Roamed false (key 9) [peerDescriptor] newAddr roamed := by
  have h_key : (polled.lookup (key 9)).isSome := by decide +kernel
  have h_end : (roamed.lookup (key 9)).bind Peer.endpoint = some newAddr := by decide +kernel
  have h_read : Snow.readInitiation polled.localPriv (initiation 9 7 1) =
      some ((Handshake.asked 9 7 1, key 9) : symbolic.HandshakeState × Bytes) := by
    decide +kernel
  obtain ⟨p, hp⟩ := Option.isSome_iff_exists.mp h_key
  have h_run : Exec (daemon symbolic false) node ([] ++ [⟨0, .poll [peerDescriptor], []⟩]) polled :=
    Exec.tail Exec.refl rfl
  have h_step : (daemon symbolic false).step polled ⟨1, moved, (polled.step false 1 moved).1⟩
      roamed := rfl
  -- the peer learns by an initiation with its own key
  refine .learn node_initial h_run nofun h_step
    ⟨⟨p, hp, draw 2, initiation 9 7 1,
        Or.inl ⟨⟨_, rfl, by decide +kernel⟩, Handshake.asked 9 7 1, ?_⟩⟩,
      Option.bind_eq_some_iff.mp h_end⟩
  rw [(PeerManager.mem_of_lookup hp).2]
  exact h_read

end Symbolic

open Symbolic in
/-- The condition at a poll after the peer has roamed. -/
theorem roaming_kept_iff_roamed :
    (∃ p, (roamed.step false 2 (.poll [peerDescriptor])).2.lookup (key 9) = some p ∧
        p.endpoint = some newAddr) ↔
      ∃ w, parsePeerArg peerDescriptor.toSpec = some w ∧ w.endpoint = some newAddr :=
  roaming_kept_iff (l := ⟨2, .poll [peerDescriptor], _⟩) roamed_roamed rfl rfl
    (by decide +kernel) rfl

open Symbolic in
/-- A poll can undo roaming: the unchanged descriptor puts the peer back where it was. -/
theorem roaming_undone :
    ¬ ∀ (k : Bytes) (ds ds' : List PeerDescriptor) (addr : SocketAddr)
      (pm pm' : PeerManager symbolic) (l : DaemonLabel symbolic) (d : PeerDescriptor),
      Roamed false k ds addr pm → (daemon symbolic false).step pm l pm' → l.task = .poll ds' →
      descriptorFor ds k = some d → descriptorFor ds' k = descriptorFor ds k →
      ∃ p, pm'.lookup k = some p ∧ p.endpoint = some addr := by
  intro h
  obtain ⟨p, hp, h_ep⟩ := h (key 9) [peerDescriptor] [peerDescriptor] newAddr roamed
    (roamed.step false 2 (.poll [peerDescriptor])).2 ⟨2, .poll [peerDescriptor], []⟩ peerDescriptor
    roamed_roamed rfl rfl (by decide +kernel) rfl
  have h_back : ((roamed.step false 2 (.poll [peerDescriptor])).2.lookup (key 9)).bind
      Peer.endpoint = some peerAddr := by
    decide +kernel
  rw [hp, Option.bind_some, h_ep] at h_back
  exact absurd h_back (by decide)

end AraxMesh
