import AraxMesh.Reconciliation
import AraxMesh.Roaming
import AraxMesh.Symbolic
import Mathlib.Data.Option.Basic
import Mathlib.Logic.Relation

/-!
# Pending handshakes

Three fields of a peer belong to its pending handshake, and two to its sessions. They are written in
ten places of two files. `Peer.Sound` is what all of these preserve: the three are there together or
not at all, the packet is the initiation the handshake wrote, and there is no previous session
without an active one.

A turn of the daemon does one of three things to the handshake of a peer (`Peer.Moves`): nothing,
begin one where none is pending, or complete the one that is. The timer's own part of it is that a
peer that can be reached has a session afterwards, or a handshake, and that it goes on sending the
initiation of the handshake.

Two things are assumed of the library: that a node can write an initiation to any 32 bytes
(`Snow.Initiates`), and that a pending handshake that has read a response is finished
(`Snow.Completes`). Where a failed read leaves a handshake does not matter.
-/

namespace AraxMesh

open LTS FirstMatch Relation

variable {S : Snow}

namespace Snow

/-- The handshake failed to read a message, which left it as `hs'`. -/
def Unread (S : Snow) (hs hs' : S.HandshakeState) : Prop :=
  ∃ m, S.readHandshake hs m = (false, hs')

/-- The handshake of a node with this private key towards this public key: it wrote the initiation
`msg`, and has read no response since. -/
def Pending (S : Snow) (localPriv remotePub msg : Bytes) (hs : S.HandshakeState) : Prop :=
  ∃ hs₀ eph hs₁, S.buildInitiator localPriv remotePub = some hs₀ ∧
    S.writeHandshake hs₀ eph = some (msg, hs₁) ∧ ReflTransGen S.Unread hs₁ hs

/-- An initiation can be built and written. -/
def Initiates (S : Snow) (localPriv : Bytes) : Prop :=
  ∀ remotePub : Bytes, remotePub.length = 32 → ∀ eph, ∃ hs₀ msg hs,
    S.buildInitiator localPriv remotePub = some hs₀ ∧ S.writeHandshake hs₀ eph = some (msg, hs)

/-- A pending handshake that reads a response can enter transport mode. -/
def Completes (S : Snow) : Prop :=
  ∀ localPriv remotePub msg hs m hs', S.Pending localPriv remotePub msg hs →
    S.readHandshake hs m = (true, hs') → (S.intoTransport hs').isSome

/-- Where failed reads are undone, the pending handshake is the very one that wrote its message. -/
theorem Pending.wrote (h_restores : S.Restores) {localPriv remotePub msg : Bytes}
    {hs : S.HandshakeState} (h : S.Pending localPriv remotePub msg hs) :
    ∃ hs₀ eph, S.buildInitiator localPriv remotePub = some hs₀ ∧
      S.writeHandshake hs₀ eph = some (msg, hs) := by
  obtain ⟨hs₀, eph, hs₁, h_build, h_write, h_unread⟩ := h
  have h_same : hs₁ = hs := by
    induction h_unread with
    | refl => rfl
    | tail _ h_last ih =>
      obtain ⟨m, h_read⟩ := h_last
      have h_undone := h_restores _ m (congrArg Prod.fst h_read)
      rw [h_read] at h_undone
      exact ih.trans h_undone.symm
  exact ⟨hs₀, eph, h_build, h_same ▸ h_write⟩

end Snow

namespace Peer

/-! ### The state of a peer -/

/-- No handshake is pending. -/
structure Idle (p : Peer S) : Prop where
  handshake : p.handshake = none
  lastHandshakeAttempt : p.lastHandshakeAttempt = none
  lastHandshakePacket : p.lastHandshakePacket = none

/-- The handshake `hs` is pending, and its initiation is in `packet`. -/
structure Dials (localPriv : Bytes) (p : Peer S) (hs : S.HandshakeState) (attempt : Instant)
    (packet : Bytes) : Prop where
  handshake : p.handshake = some hs
  lastHandshakeAttempt : p.lastHandshakeAttempt = some attempt
  lastHandshakePacket : p.lastHandshakePacket = some packet
  written : ∃ msg padding, S.Pending localPriv p.pubkey msg hs ∧ padding.length ≤ 64 ∧
    packet = p.magic.handshakeInit :: (msg ++ padding)

/-- The invariant of a peer of the node with this private key. -/
structure Sound (localPriv : Bytes) (p : Peer S) : Prop where
  pubkey : p.pubkey.length = 32
  previous : p.previous.isSome → p.active.isSome
  handshake : p.Idle ∨ ∃ hs attempt packet, p.Dials localPriv hs attempt packet

/-- `determineDest` with the copy of the key into 32 bytes; `none` is its panic. -/
def determineDest? (p : Peer S) (hasRelay : Bool) (now : Instant) : Option (Option OutboundDest) :=
  if hasRelay ∧ (p.endpoint = none ∨ 10 ≤ elapsedSecs now p.lastDirectRx) then
    if p.pubkey.length = 32 then some (some (.relay p.pubkey)) else none
  else some (p.endpoint.map .udp)

/-- With a key of 32 bytes, determining the destination does not panic. -/
theorem determineDest?_eq {p : Peer S} (h : p.pubkey.length = 32) (hasRelay : Bool)
    (now : Instant) : p.determineDest? hasRelay now = some (p.determineDest hasRelay now) := by
  unfold determineDest? determineDest
  rw [if_pos h]
  split_ifs <;> rfl

/-- A peer with an endpoint or a relay has a destination. -/
theorem exists_determineDest {p : Peer S} {hasRelay : Bool} (h : p.endpoint.isSome ∨ hasRelay)
    (now : Instant) : ∃ dest, p.determineDest hasRelay now = some dest := by
  unfold determineDest
  split_ifs with h_relay
  · exact ⟨_, rfl⟩
  · cases h_ep : p.endpoint with
    | some addr => exact ⟨_, rfl⟩
    | none =>
      -- then there is a relay, and it is the way to go
      rw [h_ep] at h h_relay
      exact absurd ⟨h.resolve_left Bool.false_ne_true, Or.inl rfl⟩ h_relay

/-! ### What may happen to it -/

/-- Nothing happens to the handshake, nor to where the peer is reached. -/
structure SameDial (p p' : Peer S) : Prop where
  pubkey : p'.pubkey = p.pubkey
  magic : p'.magic = p.magic
  endpoint : p'.endpoint = p.endpoint
  lastDirectRx : p'.lastDirectRx = p.lastDirectRx
  handshake : p'.handshake = p.handshake
  lastHandshakeAttempt : p'.lastHandshakeAttempt = p.lastHandshakeAttempt
  lastHandshakePacket : p'.lastHandshakePacket = p.lastHandshakePacket
  previous : (p.previous.isSome → p.active.isSome) → p'.previous.isSome → p'.active.isSome

/-- The handshake goes on: at most it failed to read something. -/
structure KeepsHandshake (p p' : Peer S) : Prop where
  pubkey : p'.pubkey = p.pubkey
  magic : p'.magic = p.magic
  handshake : Option.Rel (ReflTransGen S.Unread) p.handshake p'.handshake
  lastHandshakeAttempt : p'.lastHandshakeAttempt.isSome = p.lastHandshakeAttempt.isSome
  lastHandshakePacket : p'.lastHandshakePacket = p.lastHandshakePacket
  previous : (p.previous.isSome → p.active.isSome) → p'.previous.isSome → p'.active.isSome

/-- A handshake is begun, and none was pending. -/
structure Begins (localPriv : Bytes) (p p' : Peer S) : Prop where
  pubkey : p'.pubkey = p.pubkey
  magic : p'.magic = p.magic
  idle : p.handshake = none
  dials : ∃ hs attempt packet, p'.Dials localPriv hs attempt packet
  previous : (p.previous.isSome → p.active.isSome) → p'.previous.isSome → p'.active.isSome

/-- The pending handshake becomes a session. -/
structure Finishes (p p' : Peer S) : Prop where
  pubkey : p'.pubkey = p.pubkey
  magic : p'.magic = p.magic
  pending : p.handshake.isSome
  idle : p'.Idle
  active : p'.active.isSome

/-- What a turn may do to the handshake of a peer. -/
inductive Moves (localPriv : Bytes) (p p' : Peer S) : Prop
  | keeps (h : p.KeepsHandshake p')
  | begins (h : p.Begins localPriv p')
  | finishes (h : p.Finishes p')

/-- What a node may do to it of its own. -/
def OwnMove (localPriv : Bytes) (p p' : Peer S) : Prop :=
  p.KeepsHandshake p' ∨ p.Begins localPriv p'

/-! ### What these moves preserve -/

variable {localPriv : Bytes} {p q r : Peer S}

theorem SameDial.refl (p : Peer S) : p.SameDial p := ⟨rfl, rfl, rfl, rfl, rfl, rfl, rfl, id⟩

theorem SameDial.trans (h : p.SameDial q) (h' : q.SameDial r) : p.SameDial r where
  pubkey := h'.pubkey.trans h.pubkey
  magic := h'.magic.trans h.magic
  endpoint := h'.endpoint.trans h.endpoint
  lastDirectRx := h'.lastDirectRx.trans h.lastDirectRx
  handshake := h'.handshake.trans h.handshake
  lastHandshakeAttempt := h'.lastHandshakeAttempt.trans h.lastHandshakeAttempt
  lastHandshakePacket := h'.lastHandshakePacket.trans h.lastHandshakePacket
  previous h₀ := h'.previous (h.previous h₀)

/-- The peer is reached the same way. -/
theorem SameDial.determineDest (h : p.SameDial q) (hasRelay : Bool) (now : Instant) :
    q.determineDest hasRelay now = p.determineDest hasRelay now := by
  unfold Peer.determineDest
  rw [h.endpoint, h.lastDirectRx, h.pubkey]

/-- What is the same has read nothing more. -/
theorem rel_of_eq {α : Type} {R : α → α → Prop} {a b : Option α} (h : b = a) :
    Option.Rel (ReflTransGen R) a b := by
  subst h
  cases b with
  | none => exact .none
  | some x => exact .some .refl

theorem SameDial.keeps (h : p.SameDial q) : p.KeepsHandshake q where
  pubkey := h.pubkey
  magic := h.magic
  handshake := rel_of_eq h.handshake
  lastHandshakeAttempt := congrArg Option.isSome h.lastHandshakeAttempt
  lastHandshakePacket := h.lastHandshakePacket
  previous := h.previous

theorem KeepsHandshake.trans (h : p.KeepsHandshake q) (h' : q.KeepsHandshake r) :
    p.KeepsHandshake r where
  pubkey := h'.pubkey.trans h.pubkey
  magic := h'.magic.trans h.magic
  handshake := by
    have h_on := h.handshake
    have h_on' := h'.handshake
    generalize p.handshake = a, q.handshake = b, r.handshake = c at h_on h_on' ⊢
    -- what it failed to read is added up
    cases h_on with
    | none => exact h_on'
    | some h_ab =>
      cases h_on' with
      | some h_bc => exact .some (h_ab.trans h_bc)
  lastHandshakeAttempt := h'.lastHandshakeAttempt.trans h.lastHandshakeAttempt
  lastHandshakePacket := h'.lastHandshakePacket.trans h.lastHandshakePacket
  previous h₀ := h'.previous (h.previous h₀)

/-- A handshake that goes on is pending afterwards exactly if it was before. -/
theorem KeepsHandshake.eq_none_iff (h : p.KeepsHandshake q) :
    q.handshake = none ↔ p.handshake = none := by
  have h_on := h.handshake
  generalize p.handshake = a, q.handshake = b at h_on ⊢
  cases h_on with
  | none => exact Iff.rfl
  | some => exact iff_of_false nofun nofun

/-- Where none is pending, none goes on. -/
theorem Idle.keeps (h_idle : p.Idle) (h : p.KeepsHandshake q) : q.Idle where
  handshake := h.eq_none_iff.mpr h_idle.handshake
  lastHandshakeAttempt := by
    rw [← Option.not_isSome_iff_eq_none, h.lastHandshakeAttempt, h_idle.lastHandshakeAttempt]
    exact Bool.false_ne_true
  lastHandshakePacket := h.lastHandshakePacket.trans h_idle.lastHandshakePacket

/-- A handshake that goes on is still the one that wrote the packet. -/
theorem Dials.keeps {hs : S.HandshakeState} {attempt : Instant} {packet : Bytes}
    (h_dials : p.Dials localPriv hs attempt packet) (h : p.KeepsHandshake q) :
    ∃ hs' attempt', q.Dials localPriv hs' attempt' packet := by
  have h_on := h.handshake
  rw [h_dials.handshake] at h_on
  obtain ⟨hs', h_hs', h_later⟩ : ∃ hs', q.handshake = some hs' ∧
      ReflTransGen S.Unread hs hs' := by
    generalize q.handshake = b at h_on ⊢
    cases h_on with
    | some h_later => exact ⟨_, rfl, h_later⟩
  -- the attempt may be a later one
  have h_attempt : q.lastHandshakeAttempt.isSome := by
    rw [h.lastHandshakeAttempt, h_dials.lastHandshakeAttempt]
    rfl
  obtain ⟨attempt', h_attempt'⟩ := Option.isSome_iff_exists.mp h_attempt
  obtain ⟨msg, padding, ⟨hs₀, eph, hs₁, h_build, h_write, h_unread⟩, h_pad, h_packet⟩ :=
    h_dials.written
  refine ⟨hs', attempt', h_hs', h_attempt',
    h.lastHandshakePacket.trans h_dials.lastHandshakePacket, msg, padding, ?_, h_pad, ?_⟩
  · rw [h.pubkey]
    exact ⟨hs₀, eph, hs₁, h_build, h_write, h_unread.trans h_later⟩
  · rw [h.magic]
    exact h_packet

/-- **The invariant of a peer is preserved.** -/
theorem Sound.moves (h : p.Sound localPriv) (h_moves : p.Moves localPriv q) :
    q.Sound localPriv := by
  cases h_moves with
  | keeps h_keeps =>
    refine ⟨h_keeps.pubkey ▸ h.pubkey, h_keeps.previous h.previous, ?_⟩
    rcases h.handshake with h_idle | ⟨hs, attempt, packet, h_dials⟩
    · exact Or.inl (h_idle.keeps h_keeps)
    · obtain ⟨hs', attempt', h_dials'⟩ := h_dials.keeps h_keeps
      exact Or.inr ⟨hs', attempt', packet, h_dials'⟩
  -- where one is begun, the three fields are written together
  | begins h_begins =>
    exact ⟨h_begins.pubkey ▸ h.pubkey, h_begins.previous h.previous, Or.inr h_begins.dials⟩
  -- where it is finished, they are cleared together
  | finishes h_fin =>
    exact ⟨h_fin.pubkey ▸ h.pubkey, fun _ => h_fin.active, Or.inl h_fin.idle⟩

/-- What a node does of its own finishes nothing. -/
theorem OwnMove.moves (h : p.OwnMove localPriv q) : p.Moves localPriv q := by
  rcases h with h_keeps | h_begins
  · exact .keeps h_keeps
  · exact .begins h_begins

theorem SameDial.ownMove (h : p.SameDial q) : p.OwnMove localPriv q := Or.inl h.keeps

/-- Beginning after something that left it alone is beginning, -/
theorem KeepsHandshake.begins (h : p.KeepsHandshake q) (h' : q.Begins localPriv r) :
    p.Begins localPriv r where
  pubkey := h'.pubkey.trans h.pubkey
  magic := h'.magic.trans h.magic
  idle := h.eq_none_iff.mp h'.idle
  dials := h'.dials
  previous h₀ := h'.previous (h.previous h₀)

/-- and so it is if it is left alone afterwards. -/
theorem Begins.keeps (h : p.Begins localPriv q) (h' : q.KeepsHandshake r) :
    p.Begins localPriv r where
  pubkey := h'.pubkey.trans h.pubkey
  magic := h'.magic.trans h.magic
  idle := h.idle
  dials := by
    obtain ⟨hs, attempt, packet, h_dials⟩ := h.dials
    obtain ⟨hs', attempt', h_dials'⟩ := h_dials.keeps h'
    exact ⟨hs', attempt', packet, h_dials'⟩
  previous h₀ := h'.previous (h.previous h₀)

/-- Of two moves one after the other at most one begins a handshake. -/
theorem OwnMove.trans (h : p.OwnMove localPriv q) (h' : q.OwnMove localPriv r) :
    p.OwnMove localPriv r := by
  rcases h with h_keeps | h_begins
  · rcases h' with h_keeps' | h_begins'
    · exact Or.inl (h_keeps.trans h_keeps')
    · exact Or.inr (h_keeps.begins h_begins')
  · rcases h' with h_keeps' | h_begins'
    · exact Or.inr (h_begins.keeps h_keeps')
    · -- the first began one, and the second would have found none
      obtain ⟨hs, attempt, packet, h_dials⟩ := h_begins.dials
      exact absurd (h_begins'.idle.symm.trans h_dials.handshake) nofun

/-! ### The operations, one by one -/

/-- The check of the rotation forgets a session at most. -/
theorem checkRotation_sameDial (p : Peer S) (now : Instant) :
    p.SameDial (p.checkRotation now).2 := by
  rcases p.checkRotation_cases now with h_eq | ⟨s, -, -, h_eq⟩
  · rw [h_eq]
    exact .refl p
  · rw [h_eq]
    exact ⟨rfl, rfl, rfl, rfl, rfl, rfl, rfl, fun _ h => absurd h Bool.false_ne_true⟩

/-- Clearing a dead session leaves the handshake that may be pending. -/
theorem timerClear_sameDial (p : Peer S) (now : Instant) : p.SameDial (p.timerClear now) := by
  unfold timerClear
  split_ifs
  · -- the previous session goes with the active one
    exact ⟨rfl, rfl, rfl, rfl, rfl, rfl, rfl, fun _ h => absurd h Bool.false_ne_true⟩
  · exact .refl p

/-- Data packets are no part of a handshake, whether they go out -/
theorem encryptAndSend_sameDial (p : Peer S) (payload : Bytes) (hasRelay : Bool) (d : Draw S)
    (now : Instant) : p.SameDial (p.encryptAndSend payload hasRelay d now).2.2 := by
  have h := p.encrypted payload d now
  unfold encryptAndSend
  generalize p.encryptPacket payload d now = out at h ⊢
  cases h with
  | inactive => exact .refl p
  | failed => exact ⟨rfl, rfl, rfl, rfl, rfl, rfl, rfl, fun _ _ => rfl⟩
  | sent => exact ⟨rfl, rfl, rfl, rfl, rfl, rfl, rfl, fun _ _ => rfl⟩

/-- A keepalive is an empty data packet. -/
theorem timerKeepalive_sameDial (p : Peer S) (hasRelay : Bool) (d : Draw S) (now : Instant) :
    p.SameDial (p.timerKeepalive hasRelay d now).2 := by
  unfold timerKeepalive
  split_ifs
  · exact p.encryptAndSend_sameDial [] hasRelay d now
  · exact .refl p

/-- A session that a peer establishes as the responder leaves its own handshake pending. -/
theorem respond_sameDial (p : Peer S) (hs : S.HandshakeState) (magic : MagicConfig) (d : Draw S)
    (now : Instant) : p.SameDial (p.respond hs magic d now).state := by
  have h := p.responded hs magic d now
  generalize p.respond hs magic d now = out at h ⊢
  cases h with
  | failed => exact .refl p
  | installed => exact ⟨rfl, rfl, rfl, rfl, rfl, rfl, rfl, fun _ _ => rfl⟩

/-- or come in. -/
theorem acceptData_sameDial (p : Peer S) (payload : Bytes) (now : Instant) :
    p.SameDial (p.acceptData payload now).state := by
  have h := p.accepted payload now
  generalize p.acceptData payload now = out at h ⊢
  cases h with
  | ignored => exact .refl p
  | opened k s padded w h_admits =>
    cases k with
    | active => exact ⟨rfl, rfl, rfl, rfl, rfl, rfl, rfl, fun _ _ => rfl⟩
    | previous =>
      -- there was a session in the slot, so there is an active one
      have h_slot : p.previous = some s := h_admits.honours.1
      refine ⟨rfl, rfl, rfl, rfl, rfl, rfl, rfl, fun h₀ _ => h₀ ?_⟩
      rw [h_slot]
      rfl

/-- **The only way to begin a handshake.** All its callers have found none pending. -/
theorem initiateAndSend_ownMove (p : Peer S) (localPriv : Bytes) (hasRelay : Bool) (d : Draw S)
    (now : Instant) (h_idle : p.handshake = none) :
    p.OwnMove localPriv (p.initiateAndSend localPriv hasRelay d now).2 := by
  have h := p.initiated localPriv d now
  unfold initiateAndSend
  generalize p.initiateHandshake localPriv d now = out at h ⊢
  cases h with
  | failed => exact (SameDial.refl p).ownMove
  | begun hs₀ hs msg h_build h_write =>
    refine Or.inr ⟨rfl, rfl, h_idle, ⟨hs, now, _, rfl, rfl, rfl, ?_⟩, id⟩
    exact ⟨msg, d.handshakePad.val, ⟨hs₀, d.eph, hs, h_build, h_write, .refl⟩,
      d.handshakePad.property, rfl⟩

/-- The first part of a tick begins a handshake only if none is pending. -/
theorem timerRotate_ownMove (p : Peer S) (localPriv : Bytes) (hasRelay : Bool) (d : Draw S)
    (now : Instant) : p.OwnMove localPriv (p.timerRotate localPriv hasRelay d now).2 := by
  have h_check : p.OwnMove localPriv (p.checkRotation now).2 :=
    (p.checkRotation_sameDial now).ownMove
  unfold timerRotate
  dsimp only
  split_ifs with h_due
  · have h_idle : (p.checkRotation now).2.handshake = none := by simpa using h_due.2
    exact h_check.trans (initiateAndSend_ownMove _ localPriv hasRelay d now h_idle)
  · exact h_check

/-- So does the fourth part; what it sends again is what is pending. -/
theorem timerHandshake_ownMove (p : Peer S) (localPriv : Bytes) (hasRelay : Bool) (d : Draw S)
    (now : Instant) : p.OwnMove localPriv (p.timerHandshake localPriv hasRelay d now).2 := by
  unfold timerHandshake
  split_ifs with h_stuck
  · exact p.initiateAndSend_ownMove localPriv hasRelay d now (by simpa using h_stuck.2.1)
  · cases h_attempt : p.lastHandshakeAttempt with
    | none => exact (SameDial.refl p).ownMove
    | some attempt =>
      dsimp only
      split_ifs
      · -- sent again: only the time of the attempt is new
        refine Or.inl ⟨rfl, rfl, rel_of_eq rfl, ?_, rfl, id⟩
        show true = p.lastHandshakeAttempt.isSome
        rw [h_attempt]
        rfl
      · exact (SameDial.refl p).ownMove

/-- What the timer does to a handshake. -/
theorem timer_ownMove (p : Peer S) (localPriv : Bytes) (hasRelay : Bool) (d d' : Draw S)
    (now : Instant) : p.OwnMove localPriv (p.timer localPriv hasRelay d d' now).2 := by
  have h_quiet := (timerClear_sameDial (p.timerRotate localPriv hasRelay d now).2 now).trans
    (timerKeepalive_sameDial _ hasRelay d now)
  apply (p.timerRotate_ownMove localPriv hasRelay d now).trans
  apply h_quiet.ownMove.trans
  exact timerHandshake_ownMove _ localPriv hasRelay d' now

/-- What an outgoing packet does to it. -/
theorem sendPacket_ownMove (p : Peer S) (localPriv payload : Bytes) (hasRelay : Bool) (d : Draw S)
    (now : Instant) : p.OwnMove localPriv (p.sendPacket localPriv payload hasRelay d now).2 := by
  have h_encrypt : p.OwnMove localPriv (p.encryptAndSend payload hasRelay d now).2.2 :=
    (p.encryptAndSend_sameDial payload hasRelay d now).ownMove
  unfold sendPacket
  dsimp only
  split_ifs with h_idle
  · have h_none : (p.encryptAndSend payload hasRelay d now).2.2.handshake = none := by
      simpa using h_idle.2.2
    exact h_encrypt.trans (initiateAndSend_ownMove _ localPriv hasRelay d now h_none)
  · exact h_encrypt

/-- What a handshake packet does to it, where the library completes what it has read. -/
theorem handleHandshakePacket_moves {localPriv : Bytes} {p : Peer S} (h_completes : S.Completes)
    (h_sound : p.Sound localPriv) (priv : Bytes) (packetType : UInt8) (payload : Bytes)
    (d : Draw S) (now : Instant) :
    p.Moves localPriv (p.handleHandshakePacket priv packetType payload d now).state := by
  have h := p.handled priv packetType payload d now
  generalize p.handleHandshakePacket priv packetType payload d now = out at h ⊢
  cases h with
  | ignored => exact .keeps (SameDial.refl p).keeps
  | responded hs => exact .keeps (p.respond_sameDial hs p.magic d now).keeps
  | answered h_answered =>
    cases h_answered with
    | idle => exact .keeps (SameDial.refl p).keeps
    | rejected hs hs' h_pending h_read =>
      -- it is put back as the failed read left it
      refine .keeps ⟨rfl, rfl, ?_, rfl, rfl, id⟩
      rw [h_pending]
      exact .some (.single ⟨_, h_read⟩)
    | abandoned hs hs' h_pending h_read h_into =>
      -- it was pending, so it completes
      rcases h_sound.handshake with h_idle | ⟨hs₁, attempt, packet, h_dials⟩
      · exact absurd (h_idle.handshake.symm.trans h_pending) nofun
      · obtain rfl := Option.some.inj (h_dials.handshake.symm.trans h_pending)
        obtain ⟨msg, -, h_written, -⟩ := h_dials.written
        have h_some := h_completes _ _ _ _ _ _ h_written h_read
        rw [h_into] at h_some
        exact absurd h_some Bool.false_ne_true
    | completed hs hs' t h_pending =>
      refine .finishes ⟨rfl, rfl, ?_, ⟨rfl, rfl, rfl⟩, rfl⟩
      rw [h_pending]
      rfl

/-- Noting that a peer was heard directly makes no other move of it. -/
theorem Moves.heard {localPriv : Bytes} {p q : Peer S} (h : p.Moves localPriv q) (now : Instant) :
    p.Moves localPriv { q with lastDirectRx := now } := by
  have h_same : q.KeepsHandshake { q with lastDirectRx := now } :=
    ⟨rfl, rfl, rel_of_eq rfl, rfl, rfl, id⟩
  -- the time a peer was last heard directly is no part of its handshake
  cases h with
  | keeps h_keeps => exact .keeps (h_keeps.trans h_same)
  | begins h_begins => exact .begins (h_begins.keeps h_same)
  | finishes h => exact .finishes ⟨h.pubkey, h.magic, h.pending, h.idle.keeps h_same, h.active⟩

/-- A peer as it is built. -/
theorem Sessionless.sound {p : Peer S} (h : p.Sessionless) (h_key : p.pubkey.length = 32)
    (localPriv : Bytes) : p.Sound localPriv where
  pubkey := h_key
  previous := by
    rw [h.previous]
    exact fun h_some => absurd h_some Bool.false_ne_true
  handshake := Or.inl ⟨h.handshake, h.lastHandshakeAttempt, h.lastHandshakePacket⟩

end Peer

/-! ### The table -/

namespace PeerManager

/-- The peers that a turn leaves in the table: all of them, except that a poll removes those for
which nothing parses. -/
def staying (pm : PeerManager S) : DaemonTask S → List (Peer S)
  | .poll descriptors => pm.survivors descriptors
  | _ => pm.peers

/-- Whoever stays was there. -/
theorem staying_sublist (pm : PeerManager S) (task : DaemonTask S) :
    (pm.staying task).Sublist pm.peers := by
  cases task with
  | poll descriptors => exact List.filter_sublist
  | _ => exact .refl _

/-- What a turn does to the handshakes of the table: each peer that stays makes one of its moves,
and those that are added have no handshake. -/
def Moves (pm : PeerManager S) (task : DaemonTask S) (pm' : PeerManager S) : Prop :=
  ∃ old new, pm'.peers = old ++ new ∧
    List.Forall₂ (Peer.Moves pm.localPriv) (pm.staying task) old ∧
    ∀ q ∈ new, q.Sessionless ∧ q.pubkey.length = 32

/-- Every branch of every dispatcher makes a move of a sound peer. -/
theorem shares_moves (h_completes : S.Completes) (pm : PeerManager S) (hasRelay : Bool)
    (now : Instant) (task : DaemonTask S) : pm.Shares hasRelay now task fun p q =>
      p.Sound pm.localPriv → p.Moves pm.localPriv q := by
  constructor
  case refl => exact fun p _ => .keeps (Peer.SameDial.refl p).keeps
  case timer => exact fun _ _ p d d' _ => (p.timer_ownMove _ _ d d' _).moves
  case tun => exact fun _ d _ p _ => (p.sendPacket_ownMove _ _ _ d _).moves
  case udpInit =>
    intro payload addr d _ hs p _ _
    -- the endpoint is no part of a handshake
    have h_touch : p.KeepsHandshake { p with endpoint := some addr, lastDirectRx := now } :=
      ⟨rfl, rfl, Peer.rel_of_eq rfl, rfl, rfl, id⟩
    exact .keeps (h_touch.trans (Peer.respond_sameDial _ hs pm.magic d now).keeps)
  case udpResp =>
    intro packetType payload addr d _ p h_sound
    have h_moves := Peer.handleHandshakePacket_moves h_completes h_sound pm.localPriv packetType
      payload d now
    exact h_moves.heard now
  case udpData =>
    intro payload addr d _
    have h_keeps : List.Forall₂ Peer.KeepsHandshake pm.peers
        (pm.udpData payload addr now).2.peers :=
      pm.udpData_forall₂ addr (fun p => (Peer.SameDial.refl p).keeps)
        (fun _ _ _ => Peer.KeepsHandshake.trans)
        (fun p => (p.acceptData_sameDial payload now).keeps)
        (fun _ => ⟨rfl, rfl, Peer.rel_of_eq rfl, rfl, rfl, id⟩)
        (fun _ => ⟨rfl, rfl, Peer.rel_of_eq rfl, rfl, rfl, id⟩)
    exact h_keeps.imp fun p q h _ => .keeps h
  case relayedInit => exact fun _ _ d _ hs p _ => .keeps (p.respond_sameDial hs _ d _).keeps
  case relayedResp =>
    exact fun _ packetType payload d _ p h_sound =>
      Peer.handleHandshakePacket_moves h_completes h_sound _ packetType payload d now
  case relayedData =>
    exact fun _ _ payload _ _ p _ => .keeps (p.acceptData_sameDial payload now).keeps

/-- The moves of sound peers, peer by peer. -/
theorem forall₂_moves {localPriv : Bytes} {l l' : List (Peer S)}
    (h_sound : ∀ p ∈ l, p.Sound localPriv)
    (h : List.Forall₂ (fun p q => p.Sound localPriv → p.Moves localPriv q) l l') :
    List.Forall₂ (Peer.Moves localPriv) l l' := by
  induction h with
  | nil => exact .nil
  | cons h_moves _ ih =>
    rw [List.forall_mem_cons] at h_sound
    exact .cons (h_moves h_sound.1) (ih h_sound.2)

/-- Where the poll is not the task, nobody comes or goes. -/
theorem moves_of_forall₂ {pm pm' : PeerManager S} {task : DaemonTask S}
    (h_stay : pm.staying task = pm.peers)
    (h : List.Forall₂ (Peer.Moves pm.localPriv) pm.peers pm'.peers) : pm.Moves task pm' := by
  refine ⟨pm'.peers, [], (List.append_nil _).symm, ?_, fun q hq => absurd hq List.not_mem_nil⟩
  rw [h_stay]
  exact h

/-- **A poll** leaves the handshakes of those that stay alone, and the others have none. -/
theorem syncPeers_moves (pm : PeerManager S) (descriptors : List PeerDescriptor) (now : Instant) :
    pm.Moves (.poll descriptors) (pm.syncPeers descriptors now).2 := by
  obtain ⟨old, new, h_peers, h_old, h_new⟩ := pm.syncPeers_split descriptors now
  refine ⟨old, new, h_peers, h_old.imp fun p q h => ?_, fun q hq => ?_⟩
  · -- a poll does not touch the handshakes of the peers that stay
    refine .keeps ⟨h.pubkey, h.magic, Peer.rel_of_eq h.handshake, ?_, h.lastHandshakePacket, ?_⟩
    · rw [h.lastHandshakeAttempt]
    · rw [h.previous, h.active]
      exact id
  · obtain ⟨h_less, -, w, hw, h_key⟩ := h_new q hq
    obtain ⟨descriptor, -, h_parse⟩ := List.mem_filterMap.mp hw
    exact ⟨h_less, h_key ▸ length_pubkey_of_parsePeerArg h_parse⟩

/-- **What a turn of any task does to the handshakes of sound peers.** -/
theorem step_moves (h_completes : S.Completes) {pm : PeerManager S}
    (h_sound : ∀ p ∈ pm.peers, p.Sound pm.localPriv) (hasRelay : Bool) (now : Instant)
    (task : DaemonTask S) : pm.Moves task (pm.step hasRelay now task).2 := by
  have h_other (h_poll : ∀ descriptors, task ≠ .poll descriptors) :
      List.Forall₂ (Peer.Moves pm.localPriv) pm.peers (pm.step hasRelay now task).2.peers :=
    forall₂_moves h_sound ((pm.shares_moves h_completes hasRelay now task).step h_poll)
  cases task with
  | poll descriptors => exact pm.syncPeers_moves descriptors now
  | _ => exact moves_of_forall₂ rfl (h_other nofun)

/-- The invariant of all peers is preserved. -/
theorem Moves.sound {pm pm' : PeerManager S} {task : DaemonTask S} (h : pm.Moves task pm')
    (h_sound : ∀ p ∈ pm.peers, p.Sound pm.localPriv) :
    ∀ q ∈ pm'.peers, q.Sound pm.localPriv := by
  obtain ⟨old, new, h_peers, h_old, h_new⟩ := h
  intro q hq
  rw [h_peers] at hq
  rcases List.mem_append.mp hq with hq | hq
  · obtain ⟨p, hp, h_moves⟩ := forall₂_mem_right h_old hq
    exact (h_sound p ((pm.staying_sublist task).subset hp)).moves h_moves
  · exact (h_new q hq).1.sound (h_new q hq).2 _

/-- The daemon starts with peers that have no handshake. -/
theorem Initial.sound {pm : PeerManager S} (h : pm.Initial) :
    ∀ p ∈ pm.peers, p.Sound pm.localPriv := by
  obtain ⟨localPriv, parsed, magic, now, h_parsed, rfl⟩ := h
  intro p hp
  obtain ⟨q, hq, rfl⟩ := List.mem_map.mp hp
  obtain ⟨w, hw, rfl⟩ := List.mem_map.mp hq
  obtain ⟨spec, h_parse⟩ := h_parsed w hw
  apply Peer.Sessionless.sound
  · constructor <;> rfl
  · exact length_pubkey_of_parsePeerArg h_parse

/-- **In every state the daemon reaches, all peers are sound.** -/
theorem sound_of_reachable (h_completes : S.Completes) {hasRelay : Bool} {pm : PeerManager S}
    (h : Reachable (daemon S hasRelay) pm) : ∀ p ∈ pm.peers, p.Sound pm.localPriv := by
  refine h.invariant (fun pm => ∀ p ∈ pm.peers, p.Sound pm.localPriv)
    (fun pm h_init => h_init.sound) ?_
  intro pm l pm' h_sound h_step
  obtain rfl : (pm.step hasRelay l.now l.task).2 = pm' := congrArg Prod.snd h_step
  rw [(pm.step_config hasRelay l.now l.task).1]
  exact (step_moves h_completes h_sound hasRelay l.now l.task).sound h_sound

end PeerManager

/-! ### What the timer owes a peer -/

namespace Peer

variable {localPriv : Bytes} {p : Peer S} {hasRelay : Bool} {now : Instant}

/-- Where initiations can be written, one is. -/
theorem initiateAndSend_pending (h_init : S.Initiates localPriv) (h_key : p.pubkey.length = 32)
    (hasRelay : Bool) (d : Draw S) (now : Instant) :
    (p.initiateAndSend localPriv hasRelay d now).2.handshake.isSome := by
  obtain ⟨hs₀, msg, hs, h_build, h_write⟩ := h_init p.pubkey h_key d.eph
  unfold initiateAndSend initiateHandshake
  rw [h_build]
  dsimp only
  rw [h_write]
  rfl

/-- After the fourth part of a tick, a peer that can be reached is not stuck. -/
theorem timerHandshake_busy (h_init : S.Initiates localPriv) (h_key : p.pubkey.length = 32)
    (h_way : p.endpoint.isSome ∨ hasRelay) (d : Draw S) (now : Instant) :
    let q := (p.timerHandshake localPriv hasRelay d now).2
    q.active.isSome ∨ q.handshake.isSome := by
  unfold timerHandshake
  split_ifs with h_stuck
  · exact Or.inr (initiateAndSend_pending h_init h_key hasRelay d now)
  · have h_busy : p.active.isSome ∨ p.handshake.isSome := by
      by_contra h_none
      rw [not_or, Option.not_isSome_iff_eq_none, Option.not_isSome_iff_eq_none] at h_none
      exact h_stuck ⟨by rw [h_none.1]; rfl, by rw [h_none.2]; rfl, h_way⟩
    -- sending it again changes neither
    split
    · split_ifs
      · exact h_busy
      · exact h_busy
    · exact h_busy

/-- After a tick, a peer that can be reached is not stuck. -/
theorem timer_busy (h_init : S.Initiates localPriv) (h_sound : p.Sound localPriv) {d d' : Draw S}
    (h_way : (p.timer localPriv hasRelay d d' now).2.endpoint.isSome ∨ hasRelay) :
    let q := (p.timer localPriv hasRelay d d' now).2
    q.active.isSome ∨ q.handshake.isSome := by
  -- the peer as the fourth part finds it
  have h_rotate := p.timerRotate_ownMove localPriv hasRelay d now
  have h_quiet := (timerClear_sameDial (p.timerRotate localPriv hasRelay d now).2 now).trans
    (timerKeepalive_sameDial _ hasRelay d now)
  have h_key := (h_sound.moves (h_rotate.trans h_quiet.ownMove).moves).pubkey
  rw [(p.timer_address localPriv hasRelay d d' now).endpoint] at h_way
  have h_address := sameAddress_of_emits (makes_address.timerRotate p localPriv hasRelay d now)
  rw [← h_address.endpoint, ← h_quiet.endpoint] at h_way
  exact timerHandshake_busy h_init h_key h_way d' now

/-- A peer with a pending handshake is not rekeyed. -/
theorem timerRotate_of_pending (h : p.handshake.isSome) (d : Draw S) :
    p.timerRotate localPriv hasRelay d now = ([], (p.checkRotation now).2) := by
  have h_same := (p.checkRotation_sameDial now).handshake
  unfold timerRotate
  dsimp only
  rw [if_neg]
  rw [h_same, Option.isNone_iff_eq_none]
  exact fun h_due => absurd h (h_due.2 ▸ Bool.false_ne_true)

/-- **Retransmission.** A tick sends the packet of a pending handshake again if two seconds have
passed since the last time, to where the peer is reached. -/
theorem timer_resends {hs : S.HandshakeState} {attempt : Instant} {packet : Bytes}
    {dest : OutboundDest} (h_dials : p.Dials localPriv hs attempt packet)
    (h_due : 2 ≤ elapsedSecs now attempt) (h_dest : p.determineDest hasRelay now = some dest)
    (d d' : Draw S) :
    Event.sentHandshake packet dest ∈ (p.timer localPriv hasRelay d d' now).1 := by
  -- nothing happens to the handshake in the first three parts
  have h_pending : p.handshake.isSome := by
    rw [h_dials.handshake]
    rfl
  have h_clear := (p.checkRotation_sameDial now).trans (timerClear_sameDial _ now)
  have h_same := h_clear.trans (timerKeepalive_sameDial _ hasRelay d now)
  unfold timer
  rw [timerRotate_of_pending h_pending]
  apply List.mem_append_right
  generalize (timerKeepalive _ hasRelay d now).2 = q at h_same ⊢
  -- in the fourth it is sent
  unfold timerHandshake
  rw [if_neg (by rw [h_same.handshake, h_dials.handshake]; simp), h_same.lastHandshakeAttempt,
    h_dials.lastHandshakeAttempt]
  dsimp only
  rw [if_pos h_due]
  have h_there : ({ q with lastHandshakeAttempt := some now } : Peer S).determineDest hasRelay now =
      some dest := (h_same.determineDest hasRelay now).trans h_dest
  show _ ∈ sendHandshake q.lastHandshakePacket _
  rw [h_there, h_same.lastHandshakePacket, h_dials.lastHandshakePacket]
  exact List.mem_singleton_self _

end Peer

namespace PeerManager

variable {localPriv : Bytes} {hasRelay : Bool} {now : Instant}

/-- Every peer has its share of a tick. -/
theorem timerPeers_events (draws : ℕ → Draw S × Draw S) (idx : ℕ) {l : List (Peer S)} {p : Peer S}
    (hp : p ∈ l) : ∃ d d', ∀ e ∈ (p.timer localPriv hasRelay d d' now).1,
      e ∈ (timerPeers localPriv hasRelay draws now idx l).1 := by
  induction l generalizing idx with
  | nil => cases hp
  | cons q qs ih =>
    rcases List.mem_cons.mp hp with rfl | hp
    · exact ⟨_, _, fun e he => List.mem_append_left _ he⟩
    · obtain ⟨d, d', h⟩ := ih (idx + 1) hp
      exact ⟨d, d', fun e he => List.mem_append_right _ (h e he)⟩

theorem mem_timerPeers (draws : ℕ → Draw S × Draw S) (l : List (Peer S)) {q : Peer S}
    (hq : q ∈ (timerPeers localPriv hasRelay draws now 0 l).2) :
    ∃ p ∈ l, ∃ d d', (p.timer localPriv hasRelay d d' now).2 = q := by
  have h_shares := timerPeers_forall₂
    (R := fun p q : Peer S => ∃ d d', (p.timer localPriv hasRelay d d' now).2 = q)
    (fun p d d' => ⟨d, d', rfl⟩) draws 0 l
  exact forall₂_mem_right h_shares hq

/-- What the timer owes the peers, whatever else it does in a tick. -/
structure Dialled (pm : PeerManager S) (hasRelay : Bool) (l : DaemonLabel S)
    (pm' : PeerManager S) : Prop where
  /-- Nobody who can be reached is stuck with neither a session nor a handshake. -/
  busy : ∀ q ∈ pm'.peers, (q.endpoint.isSome ∨ hasRelay) →
    q.active.isSome ∨ ∃ hs attempt packet, q.Dials pm.localPriv hs attempt packet
  /-- The initiations of the pending handshakes are sent again when they are due. -/
  resent : ∀ p ∈ pm.peers, ∀ hs attempt packet, p.Dials pm.localPriv hs attempt packet →
    2 ≤ elapsedSecs l.now attempt → (p.endpoint.isSome ∨ hasRelay) →
    ∃ dest, p.determineDest hasRelay l.now = some dest ∧ .sentHandshake packet dest ∈ l.events

theorem dialled_of_timer {pm pm' : PeerManager S} {l : DaemonLabel S}
    {draws : ℕ → Draw S × Draw S} (h_init : S.Initiates pm.localPriv)
    (h_sound : ∀ p ∈ pm.peers, p.Sound pm.localPriv) (h_sound' : ∀ q ∈ pm'.peers,
      q.Sound pm.localPriv) (h_timer : l.task = .timer draws)
    (h_step : (daemon S hasRelay).step pm l pm') : pm.Dialled hasRelay l pm' := by
  have h_turn : pm.step hasRelay l.now l.task = (l.events, pm') := h_step
  rw [h_timer] at h_turn
  constructor
  case busy =>
    intro q hq h_way
    obtain rfl : (pm.timerTick hasRelay draws l.now).2 = pm' := congrArg Prod.snd h_turn
    obtain ⟨p, hp, d, d', rfl⟩ := mem_timerPeers draws pm.peers hq
    refine (Peer.timer_busy h_init (h_sound p hp) h_way).imp_right fun h_pending => ?_
    -- a handshake that is pending has all three fields
    rcases (h_sound' _ hq).handshake with h_idle | h_dials
    · rw [h_idle.handshake] at h_pending
      exact absurd h_pending Bool.false_ne_true
    · exact h_dials
  case resent =>
    intro p hp hs attempt packet h_dials h_due h_way
    obtain ⟨dest, h_dest⟩ := Peer.exists_determineDest h_way l.now
    obtain ⟨d, d', h_events⟩ := timerPeers_events draws 0 hp
    have h_tick : (pm.timerTick hasRelay draws l.now).1 = l.events := congrArg Prod.fst h_turn
    rw [← h_tick]
    exact ⟨dest, h_dest, h_events _ (Peer.timer_resends h_dials h_due h_dest d d')⟩

end PeerManager

/-- **The state machine of a peer.** Let the library complete the pending handshakes that read a
response, and write initiations. In every state the daemon reaches:

* every peer is sound: its handshake, the time of its last attempt and its packet are all there or
  all absent, the packet is the initiation the handshake wrote, a previous session comes with an
  active one, and the key has 32 bytes, so that no destination panics;
* every turn goes on with a pending handshake, completes it, or removes its peer, and begins one
  only where none is pending;
* after every tick of the timer each peer that can be reached has a session or a pending handshake,
  and the initiations of the handshakes that were pending for two seconds were sent again. -/
theorem peer_state_machine (h_completes : S.Completes) {hasRelay : Bool} {pm : PeerManager S}
    (h_init : S.Initiates pm.localPriv) (h_reach : Reachable (daemon S hasRelay) pm) :
    (∀ p ∈ pm.peers, p.Sound pm.localPriv ∧
      ∀ now, p.determineDest? hasRelay now = some (p.determineDest hasRelay now)) ∧
    ∀ l pm', (daemon S hasRelay).step pm l pm' → pm.Moves l.task pm' ∧
      ∀ draws, l.task = .timer draws → pm.Dialled hasRelay l pm' := by
  have h_sound := PeerManager.sound_of_reachable h_completes h_reach
  refine ⟨fun p hp => ⟨h_sound p hp, fun now => ?_⟩, fun l pm' h_step => ?_⟩
  · exact Peer.determineDest?_eq (h_sound p hp).pubkey hasRelay now
  · have h_moves : pm.Moves l.task pm' := by
      obtain rfl : (pm.step hasRelay l.now l.task).2 = pm' := congrArg Prod.snd h_step
      exact PeerManager.step_moves h_completes h_sound hasRelay l.now l.task
    exact ⟨h_moves, fun draws h_timer => PeerManager.dialled_of_timer h_init h_sound
      (h_moves.sound h_sound) h_timer h_step⟩

/-! ### A node that dials -/

namespace Symbolic

/-- The symbolic library, without the check of the keys. -/
def unchecked : Snow :=
  { symbolic with
    buildInitiator := fun localPriv remotePub =>
      some (.initiator (localPriv.headD 0) (remotePub.headD 0)) }

theorem unchecked_initiates (localPriv : Bytes) : unchecked.Initiates localPriv :=
  fun _ _ _ => ⟨_, _, _, rfl, rfl⟩

/-- A pending handshake of this library knows what it waits for. -/
theorem pending_of_unchecked {localPriv remotePub msg : Bytes}
    {hs : unchecked.HandshakeState} (h : unchecked.Pending localPriv remotePub msg hs) :
    ∃ a b e, hs = Handshake.pending a b e := by
  obtain ⟨_, eph, h_build, h_write⟩ := h.wrote (show unchecked.Restores from restores)
  obtain rfl := Option.some.inj h_build
  obtain ⟨-, rfl⟩ := Prod.mk.inj (Option.some.inj h_write)
  exact ⟨_, _, _, rfl⟩

theorem unchecked_completes : unchecked.Completes := by
  intro localPriv remotePub msg hs m hs' h_pending h_read
  obtain ⟨a, b, e, rfl⟩ := pending_of_unchecked h_pending
  change readHandshake (.pending a b e) m = (true, hs') at h_read
  rcases readHandshake_cases (.pending a b e) m with h_eq | ⟨_, _, _, _, -, -, h_eq⟩ |
    ⟨_, _, _, h_eq, -⟩
  · rw [h_eq] at h_read
    exact absurd (congrArg Prod.fst h_read) Bool.false_ne_true
  · rw [h_eq] at h_read
    obtain ⟨-, rfl⟩ := Prod.mk.inj h_read
    rfl
  · exact absurd h_eq nofun

/-- What `draw` draws, for this library. -/
def uncheckedDraw (e : UInt16) : Draw unchecked :=
  ⟨(draw e).eph, (draw e).handshakePad, (draw e).dataPad⟩

/-- Node `7` and its peer, with this library, after its first tick. -/
def dialling : PeerManager unchecked :=
  ((PeerManager.new (key 7)
    [Peer.new peerSpec.pubkey peerSpec.endpoint peerSpec.allowedIps 0] MagicConfig.default).runTasks
      false [(1, .timer fun _ => (uncheckedDraw 3, uncheckedDraw 4))]).2

theorem dialling_reachable : Reachable (daemon unchecked false) dialling :=
  ⟨_, _, initial_of_peerSpec (key 7) MagicConfig.default, PeerManager.exec_runTasks _ _ _⟩

end Symbolic

open Symbolic in
/-- The state machine of a peer that is dialled. -/
theorem peer_state_machine_dialling :
    (∀ p ∈ dialling.peers, p.Sound dialling.localPriv ∧
      ∀ now, p.determineDest? false now = some (p.determineDest false now)) ∧
    ∀ l pm', (daemon unchecked false).step dialling l pm' → dialling.Moves l.task pm' ∧
      ∀ draws, l.task = .timer draws → dialling.Dialled false l pm' :=
  peer_state_machine unchecked_completes (unchecked_initiates _) dialling_reachable

end AraxMesh
