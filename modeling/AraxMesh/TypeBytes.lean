import AraxMesh.Responders
import AraxMesh.Settings

/-!
# Type bytes

The first byte of a packet says what it is: each of the four emitters writes the byte configured for
its kind of packet, and each dispatcher compares the byte with the configured ones, one after the
other. `framing_unambiguous_iff` says for which settings a packet reaches the branch for its kind.

A dispatcher is a `select` from its tests in their order (`FirstMatch`), so a byte reaches its
branch if no test before has the same byte. The branches are then shown to be those of the
dispatchers (`udpPacket_eq`, `relayedPacket_eq`), and the first byte of each packet that is built to
be that of its kind (`Builds.typeByte`).
-/

namespace AraxMesh

open LTS FirstMatch

variable {S : Snow}

/-- The kinds of packets. -/
inductive PacketKind
  | init
  | resp
  | data
  | probe
deriving DecidableEq, Repr

namespace MagicConfig

/-- The type byte of a kind of packet. -/
def typeByte (magic : MagicConfig) : PacketKind → UInt8
  | .init => magic.handshakeInit
  | .resp => magic.handshakeResp
  | .data => magic.data
  | .probe => magic.probe

/-! ### Dispatching -/

/-- The branch that `spawn_udp_to_tun_task` takes for a packet type; `none` is the last one, for
unknown packet types. -/
def udpBranch (magic : MagicConfig) (packetType : UInt8) : Option PacketKind :=
  if packetType = magic.handshakeInit then some .init
  else if packetType = magic.handshakeResp then some .resp
  else if packetType = magic.data then some .data
  else if packetType = magic.handshakeInit ∨ packetType = magic.handshakeResp ∨
      packetType = magic.data ∨ packetType = magic.probe then
    -- of the four only the last can get here
    if packetType = magic.probe then some .probe else none
  else none

/-- The branch that `process_relayed_packet` takes for a packet type; `none` is to do nothing. -/
def relayedBranch (magic : MagicConfig) (packetType : UInt8) : Option PacketKind :=
  if packetType = magic.handshakeInit then some .init
  else if packetType = magic.handshakeResp then some .resp
  else if packetType = magic.data then some .data
  else none

/-- The byte of this kind is none of those that are compared before it. -/
def Apart (magic : MagicConfig) : PacketKind → Prop
  | .init => True
  | .resp => magic.handshakeResp ≠ magic.handshakeInit
  | .data => magic.data ≠ magic.handshakeInit ∧ magic.data ≠ magic.handshakeResp
  | .probe => magic.probe ≠ magic.handshakeInit ∧ magic.probe ≠ magic.handshakeResp ∧
      magic.probe ≠ magic.data

/-- The tests of the dispatchers, in their order. -/
def chain (magic : MagicConfig) : List (UInt8 × PacketKind) :=
  [(magic.handshakeInit, .init), (magic.handshakeResp, .resp), (magic.data, .data),
    (magic.probe, .probe)]

/-- The UDP dispatcher asks for the known types once more before probes, which changes nothing. -/
theorem udpBranch_eq_select (magic : MagicConfig) (packetType : UInt8) :
    magic.udpBranch packetType = select magic.chain packetType := by
  simp only [udpBranch, chain, select]
  by_cases h_probe : packetType = magic.probe
  · have h_known : packetType = magic.handshakeInit ∨ packetType = magic.handshakeResp ∨
        packetType = magic.data ∨ packetType = magic.probe := Or.inr (Or.inr (Or.inr h_probe))
    rw [if_pos h_known]
  · rw [if_neg h_probe, ite_self]

/-- The three kinds that both dispatchers look for, whatever they look for after that. -/
theorem select_typeByte_iff (magic : MagicConfig) {kind : PacketKind} (h : kind ≠ .probe)
    (after : List (UInt8 × PacketKind)) :
    select ((magic.handshakeInit, .init) :: (magic.handshakeResp, .resp) ::
      (magic.data, .data) :: after) (magic.typeByte kind) = some kind ↔ magic.Apart kind := by
  cases kind with
  | init => exact iff_of_true (select_self _ _ _) trivial
  | resp =>
    rw [select_cons_iff (by decide), typeByte, select_self]
    exact and_iff_left rfl
  | data =>
    rw [select_cons_iff (by decide), select_cons_iff (by decide), typeByte, select_self]
    exact and_congr_right' (and_iff_left rfl)
  | probe => exact absurd rfl h

/-- The relay dispatcher sends the byte of a kind to the branch of the kind exactly if it is none of
those that are compared before. -/
theorem relayedBranch_typeByte_iff (magic : MagicConfig) {kind : PacketKind} (h : kind ≠ .probe) :
    magic.relayedBranch (magic.typeByte kind) = some kind ↔ magic.Apart kind :=
  magic.select_typeByte_iff h []

/-- And so does the UDP dispatcher, probes included. -/
theorem udpBranch_typeByte_iff (magic : MagicConfig) (kind : PacketKind) :
    magic.udpBranch (magic.typeByte kind) = some kind ↔ magic.Apart kind := by
  rw [udpBranch_eq_select, chain]
  by_cases h : kind = .probe
  · subst h
    rw [select_cons_iff (by decide), select_cons_iff (by decide), select_cons_iff (by decide),
      typeByte, select_self]
    exact and_congr_right' (and_congr_right' (and_iff_left rfl))
  · exact magic.select_typeByte_iff h _

/-- **All kinds are told apart** exactly if the four bytes are distinct. -/
theorem forall_apart_iff (magic : MagicConfig) : (∀ kind, magic.Apart kind) ↔
    [magic.handshakeInit, magic.handshakeResp, magic.data, magic.probe].Nodup := by
  have h_branches : (magic.chain.map Prod.snd).Nodup :=
    show [PacketKind.init, .resp, .data, .probe].Nodup by decide
  calc (∀ kind, magic.Apart kind)
      ↔ ∀ kind, select magic.chain (magic.typeByte kind) = some kind := by
        simp only [← udpBranch_typeByte_iff, udpBranch_eq_select]
    _ ↔ ∀ t ∈ magic.chain, select magic.chain t.1 = some t.2 := by
        constructor
        · intro h t ht
          have h_t : t.1 = magic.typeByte t.2 := by
            simp only [chain, List.mem_cons, List.not_mem_nil, or_false] at ht
            rcases ht with rfl | rfl | rfl | rfl <;> rfl
          rw [h_t]
          exact h t.2
        · intro h kind
          refine h (magic.typeByte kind, kind) ?_
          cases kind <;> simp [chain, typeByte]
    _ ↔ _ := select_all_iff h_branches

end MagicConfig

/-! ### Where a packet ends up -/

namespace PeerManager

/-- The branches of `spawn_udp_to_tun_task`. -/
def udpTurn (pm : PeerManager S) (branch : Option PacketKind) (packetType : UInt8)
    (payload : Bytes) (addr : SocketAddr) (d : Draw S) (now : Instant) : Turn S (PeerManager S) :=
  match branch with
  | some .init => pm.udpInit payload addr d now
  | some .resp => pm.udpResp packetType payload addr d now
  | some .data => pm.udpData payload addr now
  | some .probe => ([], pm)
  | none => ([], pm)

/-- The branches of `process_relayed_packet`. -/
def relayedTurn (pm : PeerManager S) (branch : Option PacketKind) (fromKey : Bytes)
    (packetType : UInt8) (payload : Bytes) (d : Draw S) (now : Instant) : Turn S (PeerManager S) :=
  match branch with
  | some .init => pm.relayedInit fromKey payload d now
  | some .resp => pm.updatePeer (·.pubkey = fromKey) fun p =>
      let out := p.handleHandshakePacket pm.localPriv packetType payload d now
      (out.events, out.state)
  | some .data => pm.updatePeer (·.pubkey = fromKey) fun p =>
      let out := p.acceptData payload now
      (out.events ++ writeTun out.result, out.state)
  | some .probe => ([], pm)
  | none => ([], pm)

/-- **The UDP dispatcher takes the branch of `udpBranch`.** -/
theorem udpPacket_eq (pm : PeerManager S) (packetType : UInt8) (payload : Bytes)
    (addr : SocketAddr) (d : Draw S) (now : Instant) :
    pm.udpPacket (packetType :: payload) addr d now =
      pm.udpTurn (pm.magic.udpBranch packetType) packetType payload addr d now := by
  unfold udpPacket MagicConfig.udpBranch
  dsimp only
  split_ifs <;> rfl

/-- **The relay dispatcher takes the branch of `relayedBranch`.** -/
theorem relayedPacket_eq (pm : PeerManager S) (fromKey : Bytes) (packetType : UInt8)
    (payload : Bytes) (d : Draw S) (now : Instant) :
    pm.relayedPacket fromKey (packetType :: payload) d now =
      pm.relayedTurn (pm.magic.relayedBranch packetType) fromKey packetType payload d now := by
  unfold relayedPacket MagicConfig.relayedBranch
  dsimp only
  split_ifs <;> rfl

/-- A packet that comes by UDP is handled in the branch for its kind, as far as it is received. -/
def TakesUdp (pm : PeerManager S) (kind : PacketKind) (packet : Bytes) : Prop :=
  ∃ packetType payload, packet = packetType :: payload ∧
    pm.magic.udpBranch packetType = some kind ∧
    ∀ hasRelay addr d now, pm.step hasRelay now (.udp packet addr d) =
      pm.udpTurn (some kind) packetType (payload.take 2047) addr d now

/-- A packet that comes through the relay is handled in the branch for its kind. -/
def TakesRelayed (pm : PeerManager S) (kind : PacketKind) (packet : Bytes) : Prop :=
  ∃ packetType payload, packet = packetType :: payload ∧
    pm.magic.relayedBranch packetType = some kind ∧
    ∀ fromKey d now, pm.relayedPacket fromKey packet d now =
      pm.relayedTurn (some kind) fromKey packetType payload d now

variable {pm : PeerManager S} {kind : PacketKind} {packetType : UInt8} {payload : Bytes}

/-- It is the byte that decides, whatever the payload. -/
theorem takesUdp_iff : pm.TakesUdp kind (packetType :: payload) ↔
    pm.magic.udpBranch packetType = some kind := by
  constructor
  · rintro ⟨_, _, h_packet, h_branch, -⟩
    obtain ⟨rfl, rfl⟩ := List.cons.inj h_packet
    exact h_branch
  · intro h_branch
    refine ⟨packetType, payload, rfl, h_branch, fun hasRelay addr d now => ?_⟩
    rw [step, recvFrom_cons, udpPacket_eq, h_branch]

/-- So it is through the relay. -/
theorem takesRelayed_iff : pm.TakesRelayed kind (packetType :: payload) ↔
    pm.magic.relayedBranch packetType = some kind := by
  constructor
  · rintro ⟨_, _, h_packet, h_branch, -⟩
    obtain ⟨rfl, rfl⟩ := List.cons.inj h_packet
    exact h_branch
  · intro h_branch
    refine ⟨packetType, payload, rfl, h_branch, fun fromKey d now => ?_⟩
    rw [relayedPacket_eq, h_branch]

end PeerManager

/-! ### Where packets come from -/

/-- The packets of `punch_hole`: three probes of one byte. -/
def punchHole (probeByte : UInt8) : List Bytes := List.replicate 3 [probeByte]

/-- The packets that a node builds in a state of its table. -/
inductive PeerManager.Builds (pm : PeerManager S) : PacketKind → Bytes → Prop
  /-- By `initiate_handshake`. -/
  | initiation (p : Peer S) (hp : p ∈ pm.peers) (d : Draw S) (now : Instant) (packet : Bytes)
      (h : (p.initiateHandshake pm.localPriv d now).result = some packet) : Builds pm .init packet
  | response (p : Peer S) (hp : p ∈ pm.peers) (packetType : UInt8) (payload : Bytes) (d : Draw S)
      (now : Instant) (packet : Bytes)
      (h : (p.handleHandshakePacket pm.localPriv packetType payload d now).result = some packet) :
      Builds pm .resp packet
  /-- The dispatchers answer an initiation themselves, and write the byte of the table. -/
  | udpResponse (payload : Bytes) (addr : SocketAddr) (d : Draw S) (now : Instant) (packet : Bytes)
      (dest : OutboundDest) (h : .sentHandshake packet dest ∈ (pm.udpInit payload addr d now).1) :
      Builds pm .resp packet
  | relayedResponse (fromKey payload : Bytes) (d : Draw S) (now : Instant) (packet : Bytes)
      (dest : OutboundDest)
      (h : .sentHandshake packet dest ∈ (pm.relayedInit fromKey payload d now).1) :
      Builds pm .resp packet
  | data (p : Peer S) (hp : p ∈ pm.peers) (payload : Bytes) (d : Draw S) (now : Instant)
      (c : Sealed S) (h : (p.encryptPacket payload d now).result = some c) :
      Builds pm .data c.packet
  | probe (packet : Bytes) (h : packet ∈ punchHole pm.magic.probe) : Builds pm .probe packet

/-- The table `run_with_settings` starts with. -/
structure DaemonSettings.Starts (settings : DaemonSettings) (pm : PeerManager S) : Prop where
  initial : pm.Initial
  key : hexDecode settings.privateKeyHex = some pm.localPriv
  length : pm.localPriv.length = 32
  magic : pm.magic = settings.magicConfig

/-- A state of a daemon that was started with these arguments. -/
def DaemonArgs.Runs (env : Environment) (args : DaemonArgs) (settings : DaemonSettings)
    (pm : PeerManager S) : Prop :=
  resolveSettings env args = .ok settings ∧
    ∃ pm₀ ls, settings.Starts pm₀ ∧ Exec (daemon S settings.relayAddr.isSome) pm₀ ls pm

/-! ### The bytes that are written -/

/-- An answer begins with the byte for responses. -/
theorem Peer.respond_typeByte {p : Peer S} {hs : S.HandshakeState} {magic : MagicConfig}
    {d : Draw S} {now : Instant} {packet : Bytes}
    (h : (p.respond hs magic d now).result = some packet) :
    ∃ payload, packet = magic.handshakeResp :: payload := by
  have h_out := p.responded hs magic d now
  generalize p.respond hs magic d now = out at h h_out
  cases h_out with
  | failed => cases h
  | installed msg t => exact ⟨_, (Option.some.inj h).symm⟩

/-- What a dispatcher sends in the turn of an initiation is a response. -/
theorem InitTurn.sent {pm : PeerManager S} {source : Option SocketAddr} {payload : Bytes}
    {now : Instant} {es : List (Event S)} {l' : List (Peer S)}
    (h : InitTurn pm source payload now es l') {packet : Bytes} {dest : OutboundDest}
    (he : .sentHandshake packet dest ∈ es) :
    ∃ payload, packet = pm.magic.handshakeResp :: payload := by
  cases h with
  | nobody => cases he
  | reached l₁ l₂ p hl hs hr d out h_out dest' =>
    cases h_out with
    | failed => cases he
    | installed msg t =>
      rcases List.mem_append.mp he with he | he
      · cases List.mem_singleton.mp he
      · obtain ⟨rfl, -⟩ := Event.sentHandshake.inj (List.mem_singleton.mp he)
        exact ⟨_, rfl⟩

/-- **Every packet begins with the byte of its kind.** -/
theorem PeerManager.Builds.typeByte {pm : PeerManager S}
    (h_magic : ∀ p ∈ pm.peers, p.magic = pm.magic) {kind : PacketKind} {packet : Bytes}
    (h : pm.Builds kind packet) : ∃ payload, packet = pm.magic.typeByte kind :: payload := by
  cases h with
  | initiation p hp d now packet h =>
    have h_out := p.initiated pm.localPriv d now
    generalize p.initiateHandshake pm.localPriv d now = out at h h_out
    cases h_out with
    | failed => cases h
    | begun hs₀ hs msg =>
      rw [← h_magic p hp]
      exact ⟨_, (Option.some.inj h).symm⟩
  | response p hp packetType payload d now packet h =>
    have h_out := p.handled pm.localPriv packetType payload d now
    generalize p.handleHandshakePacket pm.localPriv packetType payload d now = out at h h_out
    cases h_out with
    | ignored => cases h
    | responded hs =>
      rw [← h_magic p hp]
      exact Peer.respond_typeByte h
    -- reading a response sends nothing
    | answered h_answered => cases h_answered <;> cases h
  -- the dispatchers send what their own branch for initiations does
  | udpResponse payload addr d now packet dest h =>
    rw [← pm.step_udp_init false now payload addr d] at h
    exact (pm.step_init_delivered false now (Or.inl ⟨addr, d, rfl⟩)).sent h
  | relayedResponse fromKey payload d now packet dest h =>
    have h_step : pm.relayedInit fromKey payload d now =
        pm.step false now (.relayed fromKey (pm.magic.handshakeInit :: payload) d) :=
      (if_pos rfl).symm
    rw [h_step] at h
    exact (pm.step_init false now (Or.inr ⟨fromKey, d, rfl⟩)).sent h
  | data p hp payload d now c h =>
    have h_out := p.encrypted payload d now
    generalize p.encryptPacket payload d now = out at h h_out
    cases h_out with
    | inactive => cases h
    | failed => cases h
    | sent s ciphertext =>
      obtain rfl := Option.some.inj h
      rw [← h_magic p hp]
      exact ⟨_, rfl⟩
  | probe packet h => exact ⟨[], (List.mem_replicate.mp h).2⟩

/-- The packet types of a running daemon are those of its settings, in the table and its peers. -/
theorem DaemonArgs.Runs.magic {env : Environment} {args : DaemonArgs} {settings : DaemonSettings}
    {pm : PeerManager S} (h : args.Runs env settings pm) :
    pm.magic = settings.magicConfig ∧ ∀ p ∈ pm.peers, p.magic = pm.magic := by
  obtain ⟨-, pm₀, ls, h_starts, h_run⟩ := h
  exact ⟨(daemon_emits h_run).1.trans h_starts.magic,
    peers_magic ⟨pm₀, ls, h_starts.initial, h_run⟩⟩

/-- **Exactly when framing is unambiguous.** Let a node and a receiver run with settings that
`resolve_settings` accepted, and with the same packet types. A packet that the node builds is
handled in the branch for its kind by the UDP dispatcher of the receiver, and unless it is a probe
by the relay dispatcher, if and only if the byte of its kind is none of those that are compared
before it. That is so for all kinds if and only if the four bytes are distinct. -/
theorem framing_unambiguous_iff {env env' : Environment} {args args' : DaemonArgs}
    {settings settings' : DaemonSettings} {pm receiver : PeerManager S}
    (h_node : args.Runs env settings pm) (h_receiver : args'.Runs env' settings' receiver)
    (h_same : settings'.magicConfig = settings.magicConfig) {kind : PacketKind} {packet : Bytes}
    (h_builds : pm.Builds kind packet) :
    ((receiver.TakesUdp kind packet ∧ (kind ≠ .probe → receiver.TakesRelayed kind packet)) ↔
      settings.magicConfig.Apart kind) ∧
    ((∀ kind, settings.magicConfig.Apart kind) ↔
      [settings.magicHandshakeInit, settings.magicHandshakeResp, settings.magicData,
        settings.magicProbe].Nodup) := by
  refine ⟨?_, settings.magicConfig.forall_apart_iff⟩
  obtain ⟨h_magic, h_peers⟩ := h_node.magic
  have h_types : receiver.magic = settings.magicConfig := h_receiver.magic.1.trans h_same
  obtain ⟨payload, rfl⟩ := h_builds.typeByte h_peers
  rw [PeerManager.takesUdp_iff, PeerManager.takesRelayed_iff, h_types, h_magic,
    MagicConfig.udpBranch_typeByte_iff]
  constructor
  · exact And.left
  · intro h_apart
    exact ⟨h_apart, fun h_kind => (MagicConfig.relayedBranch_typeByte_iff _ h_kind).mpr h_apart⟩

/-! ### Two configurations -/

namespace Symbolic

/-- No file, and no coordinator. -/
def noEnvironment : Environment where
  readToString _ := .error "No such file or directory (os error 2)".toList
  fromToml _ := .error []
  hostStr _ := none

/-- The flags of node `7`, with this byte for responses. -/
def respArgs (resp : Option UInt8) : DaemonArgs where
  tunName := "arax0".toList
  tunIp := some "10.0.99.1".toList
  tunNetmask := "255.255.255.0".toList
  localUdp := .v4 (Ipv4Addr.ofOctets 0 0 0 0) 50001
  peer := [peerText]
  privateKey := some (List.replicate 32 ['0', '7']).flatten
  config := none
  coordinatorUrl := none
  authKey := none
  hostname := none
  publicEndpoint := none
  relayAddr := none
  magicHandshakeInit := none
  magicHandshakeResp := resp
  magicData := none
  magicProbe := none

/-- Node `7` with one peer and the byte for responses that the flags give. -/
def respNode (resp : Option UInt8) : PeerManager symbolic :=
  PeerManager.new (key 7)
    [Peer.new peerSpec.pubkey peerSpec.endpoint peerSpec.allowedIps 0]
    (.ofOptions none resp none none)

/-- Every byte is accepted, so the node runs with it. -/
theorem respArgs_runs (resp : Option UInt8) :
    ∃ settings, settings.magicConfig = .ofOptions none resp none none ∧
      (respArgs resp).Runs noEnvironment settings (respNode resp) := by
  obtain ⟨h_key, h_length⟩ : hexDecode (List.replicate 32 ['0', '7']).flatten = some (key 7) ∧
      (key 7).length = 32 := by
    decide +kernel
  exact ⟨_, rfl, rfl, respNode resp, [],
    ⟨initial_of_peerSpec (key 7) _, h_key, h_length, rfl⟩, Exec.refl⟩

/-- What the peer of the node is answered. -/
theorem respNode_builds (resp : Option UInt8) : ∃ packet, (respNode resp).Builds .resp packet := by
  have h_peer : ∃ p, p ∈ (respNode resp).peers ∧ p.pubkey = key 9 :=
    ⟨_, List.mem_singleton.mpr rfl, rfl⟩
  obtain ⟨p, hp, h_key⟩ := h_peer
  have h_write : symbolic.writeResponse (Handshake.asked 9 7 1) (draw 2).eph =
      some (response 9 7 1 2, Transport.mk false 9 7 1 2) := rfl
  have h_handle : p.handleHandshakePacket (respNode resp).localPriv p.magic.handshakeInit
      (initiation 9 7 1) (draw 2) 1 = _ := Peer.handleInit_of_read readInitiation_node
  rw [if_neg (not_not.mpr h_key.symm), Peer.respond_of_write h_write] at h_handle
  exact ⟨_, .response p hp _ _ (draw 2) 1 _ (congrArg Outcome.result h_handle)⟩

end Symbolic

open Symbolic in
/-- The condition at the default packet types. -/
theorem framing_unambiguous_iff_default :
    ∃ packet, (respNode none).Builds .resp packet ∧
      ((respNode none).TakesUdp .resp packet ∧
        (PacketKind.resp ≠ .probe → (respNode none).TakesRelayed .resp packet)) := by
  obtain ⟨settings, h_magic, h_runs⟩ := respArgs_runs none
  obtain ⟨packet, h_builds⟩ := respNode_builds none
  refine ⟨packet, h_builds, (framing_unambiguous_iff h_runs h_runs rfl h_builds).1.mpr ?_⟩
  rw [h_magic]
  exact (by decide : (2 : UInt8) ≠ 1)

open Symbolic in
/-- Framing can be ambiguous: with the flag that makes the byte of responses `0x01`, every response
is taken for an initiation. -/
theorem framing_ambiguous :
    ¬ ∀ (env : Environment) (args : DaemonArgs) (settings : DaemonSettings)
      (pm receiver : PeerManager symbolic) (kind : PacketKind) (packet : Bytes),
      args.Runs env settings pm → args.Runs env settings receiver → pm.Builds kind packet →
        receiver.TakesUdp kind packet ∧ (kind ≠ .probe → receiver.TakesRelayed kind packet) := by
  intro h
  obtain ⟨settings, -, h_runs⟩ := respArgs_runs (some 0x01)
  obtain ⟨packet, h_builds⟩ := respNode_builds (some 0x01)
  have h_takes := (h _ _ _ _ _ _ _ h_runs h_runs h_builds).1
  obtain ⟨payload, rfl⟩ := h_builds.typeByte h_runs.magic.2
  rw [PeerManager.takesUdp_iff] at h_takes
  exact absurd h_takes (by decide)

end AraxMesh
