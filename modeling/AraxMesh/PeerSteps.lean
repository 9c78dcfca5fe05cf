import AraxMesh.Lib.Trans
import AraxMesh.Peer

/-!
# What an operation does to a peer

One lemma for each operation of `Peer`, listing everything the operation can do, and over them a
step relation `SessionStep` that says what can happen to a peer's sessions and pending handshake.
Every operation is a sequence of such steps, so an invariant of sessions is checked once, against
`SessionStep`.

The list of an operation (`Decrypted`, `Encrypted`, `Initiated`, `Responded`, `Answered`, `Handled`)
has a constructor for each way through it, with what the library has answered on that way and the
whole outcome: the result, the events and the peer. From then on the operation is not unfolded any
more.

`decryptPacket` is the one operation in which two sessions have a say. Which of them decides is
`Reads`: the active session is asked first, and the previous one only about a packet that the active
one cannot read. A packet that the replay window refuses has been decided, though: the other session
does not get to see it.
-/

namespace AraxMesh

open LTS BigEndian

variable {S : Snow}

namespace Peer

/-! ### Sessions by slot -/

@[simp] theorem slot_setSlot (p : Peer S) (k k' : Slot) (s : ActiveSession S) :
    (p.setSlot k s).slot k' = if k' = k then some s else p.slot k' := by
  cases k <;> cases k' <;> rfl

@[simp] theorem setSlot_magic (p : Peer S) (k : Slot) (s : ActiveSession S) :
    (p.setSlot k s).magic = p.magic := by
  cases k <;> rfl

@[simp] theorem setSlot_handshake (p : Peer S) (k : Slot) (s : ActiveSession S) :
    (p.setSlot k s).handshake = p.handshake := by
  cases k <;> rfl

/-- The session in slot `k` is tried for a packet that arrives at `now`. -/
def Honours (p : Peer S) (now : Instant) (k : Slot) (s : ActiveSession S) : Prop :=
  p.slot k = some s ∧ (k = .previous → graceOver s now = false)

/-- A data packet authenticates under the session in slot `k`, with this (padded) plaintext. -/
structure Authenticates (p : Peer S) (payload : Bytes) (now : Instant) (k : Slot)
    (s : ActiveSession S) (padded : Bytes) : Prop where
  honours : p.Honours now k s
  length : 24 ≤ payload.length
  read : S.readMessage s.state (packetNonce payload) (payload.drop 8) = some padded

/-! ### Receiving data -/

/-- What `decryptPacket` can do. -/
inductive Decrypted (p : Peer S) (payload : Bytes) (now : Instant) :
    Outcome S (Option Bytes) (Peer S) → Prop
  /-- Too short, or read by no session that is tried. -/
  | unauthentic (h : ∀ k s padded, ¬ p.Authenticates payload now k s padded) :
      Decrypted p payload now { result := none, state := p }
  /-- Read, with a nonce that the window of the session has seen or left behind. -/
  | replayed (k : Slot) (s : ActiveSession S) (padded : Bytes)
      (h : p.Authenticates payload now k s padded)
      (hw : (s.replay.checkAndUpdate (packetNonce payload)).1 = false) :
      Decrypted p payload now { result := none, state := p }
  | opened (k : Slot) (s : ActiveSession S) (padded : Bytes) (w : ReplayWindow)
      (h : p.Authenticates payload now k s padded)
      (hw : s.replay.checkAndUpdate (packetNonce payload) = (true, w)) :
      Decrypted p payload now
        { result := some (truncatePlaintext padded)
          events := [.opened ⟨truncatePlaintext padded, s.state, packetNonce payload⟩]
          state := { p.setSlot k (s.accept w payload.length) with lastRx := now } }

/-- Putting back the session that was there changes nothing. -/
theorem setSlot_slot {p : Peer S} {k : Slot} {s : ActiveSession S} (h : p.slot k = some s) :
    p.setSlot k s = p := by
  cases k with
  | active => rw [setSlot, ← show p.active = some s from h]
  | previous => rw [setSlot, ← show p.previous = some s from h]

/-- The packet authenticates under the session in slot `k`, and under no session that is tried
before. -/
structure Reads (p : Peer S) (payload : Bytes) (now : Instant) (k : Slot) (s : ActiveSession S)
    (padded : Bytes) : Prop extends p.Authenticates payload now k s padded where
  first : k = .previous → ∀ a, p.active = some a →
    S.readMessage a.state (packetNonce payload) (payload.drop 8) = none

section Deciding

variable {p : Peer S} {payload : Bytes} {now : Instant} {k : Slot} {s : ActiveSession S}
  {padded : Bytes}

/-- The active session is always tried. -/
theorem honours_active (now : Instant) (h : p.active = some s) : p.Honours now .active s := by
  refine ⟨h, fun h_slot => ?_⟩
  cases h_slot

/-- A packet that authenticates under one session only is decided by it. -/
theorem Authenticates.reads (h : p.Authenticates payload now k s padded)
    (h_only : ∀ k' s' padded', p.Authenticates payload now k' s' padded' → k' = k) :
    p.Reads payload now k s padded := by
  refine ⟨h, ?_⟩
  rintro rfl a ha
  refine Option.eq_none_iff_forall_ne_some.mpr fun padded' h_read => ?_
  cases h_only .active a padded' ⟨honours_active now ha, h.length, h_read⟩

/-- A packet that authenticates at all is decided by one of the sessions. -/
theorem Authenticates.exists_reads (h : p.Authenticates payload now k s padded) :
    ∃ k s padded, p.Reads payload now k s padded := by
  by_cases h_active : ∃ a padded', p.active = some a ∧
      S.readMessage a.state (packetNonce payload) (payload.drop 8) = some padded'
  · obtain ⟨a, padded', ha, h_read⟩ := h_active
    refine ⟨.active, a, padded', ⟨honours_active now ha, h.length, h_read⟩, fun h_slot => ?_⟩
    cases h_slot
  · -- the active session reads nothing
    refine ⟨k, s, padded, h, fun _ a ha => ?_⟩
    refine Option.eq_none_iff_forall_ne_some.mpr fun padded' h_read => ?_
    exact h_active ⟨a, padded', ha, h_read⟩

/-- What a session does with a packet it reads. -/
theorem trySession_of_read {next : Outcome S (Option Bytes) (Peer S)} (hs : p.slot k = some s)
    (h : S.readMessage s.state (packetNonce payload) (payload.drop 8) = some padded) :
    p.trySession k s payload now next =
      if (s.replay.checkAndUpdate (packetNonce payload)).1 then
        { result := some (truncatePlaintext padded)
          events := [.opened ⟨truncatePlaintext padded, s.state, packetNonce payload⟩]
          state := { p.setSlot k
            (s.accept (s.replay.checkAndUpdate (packetNonce payload)).2 payload.length) with
            lastRx := now } }
      else { result := none, state := p } := by
  unfold trySession
  split_ifs with h_ok
  · rw [ActiveSession.receive_accepted h (Prod.ext h_ok rfl)]
  · rw [ActiveSession.receive_replayed h (by simpa using h_ok)]
    dsimp only
    rw [setSlot_slot hs]

/-- A session that cannot read a packet leaves it to the next. -/
theorem trySession_of_unread {next : Outcome S (Option Bytes) (Peer S)}
    (h : S.readMessage s.state (packetNonce payload) (payload.drop 8) = none) :
    p.trySession k s payload now next = next := by
  unfold trySession
  rw [ActiveSession.receive_unauthentic h]

/-- **The deciding session decides.** -/
theorem decryptPacket_of_reads (h : p.Reads payload now k s padded) :
    p.decryptPacket payload now =
      if (s.replay.checkAndUpdate (packetNonce payload)).1 then
        { result := some (truncatePlaintext padded)
          events := [.opened ⟨truncatePlaintext padded, s.state, packetNonce payload⟩]
          state := { p.setSlot k
            (s.accept (s.replay.checkAndUpdate (packetNonce payload)).2 payload.length) with
            lastRx := now } }
      else { result := none, state := p } := by
  have h_length := h.length
  have h_long : ¬ payload.length < 8 := by omega
  have h_tag : ¬ (payload.drop 8).length < 16 := by
    rw [List.length_drop]
    omega
  unfold decryptPacket
  rw [if_neg h_long, if_neg h_tag]
  dsimp only
  cases k with
  | active =>
    have hs : p.active = some s := h.honours.1
    rw [hs]
    exact trySession_of_read h.honours.1 h.read
  | previous =>
    have hs : p.previous = some s := h.honours.1
    have h_grace : ¬ graceOver s now = true := by
      rw [h.honours.2 rfl]
      exact Bool.false_ne_true
    rw [hs]
    dsimp only
    rw [if_neg h_grace]
    -- the active session, if there is one, passes the packet on
    cases ha : p.active with
    | none => exact trySession_of_read h.honours.1 h.read
    | some a =>
      dsimp only
      rw [trySession_of_unread (h.first rfl a ha)]
      exact trySession_of_read h.honours.1 h.read

/-- **Nobody decides** a packet that authenticates under no session. -/
theorem decryptPacket_of_unauthentic
    (h : ∀ k s padded, ¬ p.Authenticates payload now k s padded) :
    p.decryptPacket payload now = { result := none, state := p } := by
  unfold decryptPacket
  by_cases h_short : payload.length < 8
  · rw [if_pos h_short]
  by_cases h_tag : (payload.drop 8).length < 16
  · rw [if_neg h_short, if_pos h_tag]
  rw [if_neg h_short, if_neg h_tag]
  have h_length : 24 ≤ payload.length := by
    rw [List.length_drop] at h_tag
    omega
  have h_unread : ∀ k s, p.Honours now k s →
      S.readMessage s.state (packetNonce payload) (payload.drop 8) = none := by
    intro k s hs
    refine Option.eq_none_iff_forall_ne_some.mpr fun padded h_read => ?_
    exact h k s padded ⟨hs, h_length, h_read⟩
  have h_active : ∀ a next, p.active = some a → p.trySession .active a payload now next = next :=
    fun a _ ha => trySession_of_unread (h_unread .active a (honours_active now ha))
  dsimp only
  cases hs : p.previous with
  | none =>
    cases ha : p.active with
    | none => rfl
    | some a => exact h_active a _ ha
  | some s =>
    -- the previous session is not tried, or cannot read the packet
    have h_previous : (if graceOver s now then { result := none, state := p }
        else p.trySession .previous s payload now { result := none, state := p }) =
        ({ result := none, state := p } : Outcome S (Option Bytes) (Peer S)) := by
      split_ifs with h_over
      · rfl
      · exact trySession_of_unread (h_unread .previous s ⟨hs, fun _ => by simpa using h_over⟩)
    dsimp only
    rw [h_previous]
    cases ha : p.active with
    | none => rfl
    | some a => exact h_active a _ ha

end Deciding

/-- Either some session decides, or none reads the packet. -/
theorem decrypted (p : Peer S) (payload : Bytes) (now : Instant) :
    p.Decrypted payload now (p.decryptPacket payload now) := by
  by_cases h_some : ∃ k s padded, p.Authenticates payload now k s padded
  · obtain ⟨_, _, _, h_auth⟩ := h_some
    obtain ⟨k, s, padded, h_reads⟩ := h_auth.exists_reads
    rw [decryptPacket_of_reads h_reads]
    split_ifs with h_ok
    · exact .opened k s padded _ h_reads.toAuthenticates (Prod.ext h_ok rfl)
    · exact .replayed k s padded h_reads.toAuthenticates (by simpa using h_ok)
  · have h_none : ∀ k s padded, ¬ p.Authenticates payload now k s padded :=
      fun k s padded h_auth => h_some ⟨k, s, padded, h_auth⟩
    rw [decryptPacket_of_unauthentic h_none]
    exact .unauthentic h_none

/-- A packet that is not returned leaves the peer as it was. -/
theorem decryptPacket_none {p : Peer S} {payload : Bytes} {now : Instant}
    (h : (p.decryptPacket payload now).result = none) :
    (p.decryptPacket payload now).state = p ∧ (p.decryptPacket payload now).events = [] := by
  have hd := p.decrypted payload now
  generalize p.decryptPacket payload now = out at hd h ⊢
  cases hd with
  | unauthentic => exact ⟨rfl, rfl⟩
  | replayed => exact ⟨rfl, rfl⟩
  | opened => cases h

/-- Checking the rotation forgets the previous session when its grace period is over, and changes
nothing else. -/
theorem checkRotation_cases (p : Peer S) (now : Instant) : (p.checkRotation now).2 = p ∨
    ∃ s, p.previous = some s ∧ graceOver s now = true ∧
      (p.checkRotation now).2 = { p with previous := none } := by
  cases h_previous : p.previous with
  | none =>
    refine Or.inl ?_
    simp only [checkRotation, h_previous]
    cases p.active <;> rfl
  | some s =>
    by_cases h_over : graceOver s now = true
    · refine Or.inr ⟨s, rfl, h_over, ?_⟩
      simp only [checkRotation, h_previous, if_pos h_over]
      cases p.active <;> rfl
    · refine Or.inl ?_
      simp only [checkRotation, h_previous, if_neg h_over]
      cases p.active <;> rfl

/-! ### Sending data -/

/-- The session after an encryption of `len` bytes was attempted under it. -/
def advance (s : ActiveSession S) (len : ℕ) : ActiveSession S :=
  { s with txNonce := s.txNonce + 1, txBytes := s.txBytes + UInt64.ofNat len }

@[simp] theorem advance_state (s : ActiveSession S) (len : ℕ) : (advance s len).state = s.state :=
  rfl

/-- Away from its end the send counter goes up by one. -/
theorem toNat_advance_txNonce {s : ActiveSession S} (h : s.txNonce.toNat < 2 ^ 64 - 1) (len : ℕ) :
    (advance s len).txNonce.toNat = s.txNonce.toNat + 1 := by
  change (s.txNonce + 1).toNat = _
  rw [UInt64.toNat_add]
  change (s.txNonce.toNat + 1) % 2 ^ 64 = _
  omega

/-- The nonce field of what is encrypted. -/
theorem packetNonce_toBE (n : UInt64) (ciphertext : Bytes) :
    packetNonce (toBE 8 n.toNat ++ ciphertext) = n := by
  rw [packetNonce, List.take_left' (length_toBE _ _), fromBE_toBE n.toNat_lt]
  exact UInt64.ofNat_toNat

/-- What has no length to read is not padded: a keepalive stays empty. -/
theorem padPayload_of_none {payload : Bytes} (h : parseIpv4TotalLength payload = none)
    (padding : Padding 128) : padPayload payload padding = payload := by
  refine if_neg fun ⟨_, h_some⟩ => ?_
  rw [h] at h_some
  cases h_some

theorem padPayload_of_some {payload : Bytes} {n : ℕ} (h : parseIpv4TotalLength payload = some n)
    (padding : Padding 128) : padPayload payload padding = payload ++ padding.val := by
  -- an empty payload has no length in it
  refine if_pos ⟨?_, by rw [h]; rfl⟩
  rintro rfl
  cases h

/-- **What is left of a padded payload**: the receiver cuts where the header says, which need not
be where the sender padded. -/
theorem truncatePlaintext_padPayload_of_some {payload : Bytes} {n : ℕ}
    (h : parseIpv4TotalLength payload = some n) (padding : Padding 128) :
    truncatePlaintext (padPayload payload padding) = (payload ++ padding.val).take n := by
  have h_long : 20 ≤ payload.length := length_of_parseIpv4TotalLength h
  rw [padPayload_of_some h]
  -- the receiver reads the length the sender has read, as the header is in front of the padding
  refine truncatePlaintext_of_some ?_
  rw [parseIpv4TotalLength_append h_long, h]

/-- What `encryptPacket` can do. -/
inductive Encrypted (p : Peer S) (payload : Bytes) (d : Draw S) (now : Instant) :
    Outcome S (Option (Sealed S)) (Peer S) → Prop
  /-- There is no session to encrypt under. -/
  | inactive (h : p.active = none) : Encrypted p payload d now { result := none, state := p }
  /-- The library refuses, and the nonce is spent all the same. -/
  | failed (s : ActiveSession S) (h : p.active = some s)
      (hw : S.writeMessage s.state s.txNonce (padPayload payload d.dataPad) = none) :
      Encrypted p payload d now
        { result := none
          events := [.encrypted s.state]
          state := p.setSlot .active (advance s payload.length) }
  | sent (s : ActiveSession S) (ciphertext : Bytes) (h : p.active = some s)
      (hw : S.writeMessage s.state s.txNonce (padPayload payload d.dataPad) = some ciphertext) :
      Encrypted p payload d now
        { result := some
            { packet := p.magic.data :: (toBE 8 s.txNonce.toNat ++ ciphertext)
              state := s.state
              nonce := s.txNonce }
          events := [.encrypted s.state]
          state := { p.setSlot .active (advance s payload.length) with lastTx := now } }

/-- The counters go on before the library is asked, so both outcomes have them advanced. -/
theorem encrypted (p : Peer S) (payload : Bytes) (d : Draw S) (now : Instant) :
    p.Encrypted payload d now (p.encryptPacket payload d now) := by
  unfold encryptPacket
  cases h : p.active with
  | none => exact .inactive h
  | some s =>
    dsimp only
    cases hw : S.writeMessage s.state s.txNonce (padPayload payload d.dataPad) with
    | none => exact .failed s h hw
    | some ciphertext => exact .sent s ciphertext h hw

/-! ### Handshakes -/

/-- What `initiateHandshake` can do. -/
inductive Initiated (p : Peer S) (localPriv : Bytes) (d : Draw S) (now : Instant) :
    Outcome S (Option Bytes) (Peer S) → Prop
  /-- The library builds no initiator, or no message: nothing is pending then that was not
  before. -/
  | failed : Initiated p localPriv d now { result := none, state := p }
  | begun (hs₀ hs : S.HandshakeState) (msg : Bytes)
      (hb : S.buildInitiator localPriv p.pubkey = some hs₀)
      (hw : S.writeHandshake hs₀ d.eph = some (msg, hs)) :
      Initiated p localPriv d now
        { result := some (p.magic.handshakeInit :: (msg ++ d.handshakePad.val))
          events := [.initiated hs]
          state :=
            { p with
              handshake := some hs
              lastHandshakeAttempt := some now
              lastHandshakePacket := some (p.magic.handshakeInit :: (msg ++ d.handshakePad.val))
              lastTx := now } }

/-- A handshake that was pending before is given up for the new one. -/
theorem initiated (p : Peer S) (localPriv : Bytes) (d : Draw S) (now : Instant) :
    p.Initiated localPriv d now (p.initiateHandshake localPriv d now) := by
  unfold initiateHandshake
  cases hb : S.buildInitiator localPriv p.pubkey with
  | none => exact .failed
  | some hs₀ =>
    dsimp only
    cases hw : S.writeHandshake hs₀ d.eph with
    | none => exact .failed
    | some mh =>
      obtain ⟨msg, hs⟩ := mh
      exact .begun hs₀ hs msg hb hw

/-- What `respond` can do. The handshake that the peer has pending itself is not touched. -/
inductive Responded (p : Peer S) (hs : S.HandshakeState) (magic : MagicConfig) (d : Draw S)
    (now : Instant) : Outcome S (Option Bytes) (Peer S) → Prop
  | failed (h : S.writeResponse hs d.eph = none) :
      Responded p hs magic d now { result := none, state := p }
  | installed (msg : Bytes) (t : S.Transport) (h : S.writeResponse hs d.eph = some (msg, t)) :
      Responded p hs magic d now
        { result := some (magic.handshakeResp :: (msg ++ d.handshakePad.val))
          events := [.installed t]
          state := p.install t now }

/-- The session is installed with the writing of the answer, before anything is heard under it. -/
theorem responded (p : Peer S) (hs : S.HandshakeState) (magic : MagicConfig) (d : Draw S)
    (now : Instant) : p.Responded hs magic d now (p.respond hs magic d now) := by
  unfold respond
  cases h : S.writeResponse hs d.eph with
  | none => exact .failed h
  | some mt =>
    obtain ⟨msg, t⟩ := mt
    exact .installed msg t h

/-- What `handleResponse` can do. -/
inductive Answered (p : Peer S) (payload : Bytes) (now : Instant) :
    Outcome S (Option Bytes) (Peer S) → Prop
  /-- No handshake is pending. -/
  | idle (h : p.handshake = none) : Answered p payload now { result := none, state := p }
  /-- The library cannot read the response. The handshake stays, as reading has left it. -/
  | rejected (hs hs' : S.HandshakeState) (h : p.handshake = some hs)
      (hr : S.readHandshake hs (payload.take 48) = (false, hs')) :
      Answered p payload now { result := none, state := { p with handshake := some hs' } }
  /-- The response was read, but does not complete the handshake. -/
  | abandoned (hs hs' : S.HandshakeState) (h : p.handshake = some hs)
      (hr : S.readHandshake hs (payload.take 48) = (true, hs')) (ht : S.intoTransport hs' = none) :
      Answered p payload now { result := none, state := { p with handshake := none } }
  /-- The handshake is done, and there is nothing left to send again. -/
  | completed (hs hs' : S.HandshakeState) (t : S.Transport) (h : p.handshake = some hs)
      (hr : S.readHandshake hs (payload.take 48) = (true, hs'))
      (ht : S.intoTransport hs' = some t) :
      Answered p payload now
        { result := none
          events := [.answered hs (payload.take 48), .installed t]
          state :=
            { p.install t now with
              handshake := none
              lastHandshakeAttempt := none
              lastHandshakePacket := none } }

/-- The pending handshake is taken out before the library reads, and put back if it cannot. -/
theorem handleResponse_answered (p : Peer S) (payload : Bytes) (now : Instant) :
    p.Answered payload now (p.handleResponse payload now) := by
  unfold handleResponse
  cases h : p.handshake with
  | none => exact .idle h
  | some hs =>
    dsimp only
    rcases hr : S.readHandshake hs (payload.take 48) with ⟨ok, hs'⟩
    cases ok with
    | false => exact .rejected hs hs' h hr
    | true =>
      dsimp only
      cases ht : S.intoTransport hs' with
      | none => exact .abandoned hs hs' h hr ht
      | some t => exact .completed hs hs' t h hr ht

/-- A packet of the response type is a response, unless the byte means an initiation as well. -/
theorem handleHandshakePacket_resp (p : Peer S) (localPriv payload : Bytes) (d : Draw S)
    (now : Instant) (h_type : p.magic.handshakeResp ≠ p.magic.handshakeInit) :
    p.handleHandshakePacket localPriv p.magic.handshakeResp payload d now =
      p.handleResponse payload now := by
  rw [handleHandshakePacket, if_neg h_type, if_pos rfl]

/-- Receiving a packet of the response type. -/
theorem answered (p : Peer S) (localPriv payload : Bytes) (d : Draw S) (now : Instant)
    (h_type : p.magic.handshakeResp ≠ p.magic.handshakeInit) :
    p.Answered payload now
      (p.handleHandshakePacket localPriv p.magic.handshakeResp payload d now) := by
  rw [p.handleHandshakePacket_resp localPriv payload d now h_type]
  exact p.handleResponse_answered payload now

/-- A response that its pending handshake reads completes it. -/
theorem answered_completed {p : Peer S} {payload : Bytes} {now : Instant}
    {out : Outcome S (Option Bytes) (Peer S)} (h : p.Answered payload now out)
    {hs hs' : S.HandshakeState} {t : S.Transport} (hp : p.handshake = some hs)
    (hr : S.readHandshake hs (payload.take 48) = (true, hs')) (ht : S.intoTransport hs' = some t) :
    out =
      { result := none
        events := [.answered hs (payload.take 48), .installed t]
        state :=
          { p.install t now with
            handshake := none
            lastHandshakeAttempt := none
            lastHandshakePacket := none } } := by
  -- the library gives one result for one message, so no other outcome is left
  cases h with
  | idle h => exact absurd (h.symm.trans hp) nofun
  | rejected _ _ h h_read =>
    obtain rfl := Option.some.inj (h.symm.trans hp)
    exact absurd (congrArg Prod.fst (h_read.symm.trans hr)) nofun
  | abandoned _ _ h h_read h_into =>
    obtain rfl := Option.some.inj (h.symm.trans hp)
    obtain rfl := congrArg Prod.snd (h_read.symm.trans hr)
    exact absurd (h_into.symm.trans ht) nofun
  | completed _ _ _ h h_read h_into =>
    obtain rfl := Option.some.inj (h.symm.trans hp)
    obtain rfl := congrArg Prod.snd (h_read.symm.trans hr)
    obtain rfl := Option.some.inj (h_into.symm.trans ht)
    rfl

/-- What `handleHandshakePacket` can do, whatever the packet type: nothing, answer an initiation, or
take a response. -/
inductive Handled (p : Peer S) (payload : Bytes) (d : Draw S) (now : Instant) :
    Outcome S (Option Bytes) (Peer S) → Prop
  | ignored : Handled p payload d now { result := none, state := p }
  | responded (hs : S.HandshakeState) : Handled p payload d now (p.respond hs p.magic d now)
  | answered {out : Outcome S (Option Bytes) (Peer S)} (h : p.Answered payload now out) :
      Handled p payload d now out

/-- The type is compared with that of initiations first, so it is an initiation if the two bytes are
the same. -/
theorem handled (p : Peer S) (localPriv : Bytes) (packetType : UInt8) (payload : Bytes)
    (d : Draw S) (now : Instant) :
    p.Handled payload d now (p.handleHandshakePacket localPriv packetType payload d now) := by
  by_cases h_init : packetType = p.magic.handshakeInit
  · unfold handleHandshakePacket
    rw [if_pos h_init]
    cases S.readInitiation localPriv payload with
    | none => exact .ignored
    | some hr =>
      dsimp only
      -- the initiation is read with the key of the node, and names the key of its sender
      split_ifs
      · -- the initiation of another node
        exact .ignored
      · exact .responded _
  by_cases h_resp : packetType = p.magic.handshakeResp
  · subst h_resp
    exact .answered (p.answered localPriv payload d now h_init)
  · -- not a handshake packet
    unfold handleHandshakePacket
    rw [if_neg h_init, if_neg h_resp]
    exact .ignored

/-! ### Session steps -/

/-- The two peers have the same keys, sessions and pending handshake. -/
structure SameSessions (p p' : Peer S) : Prop where
  pubkey : p'.pubkey = p.pubkey
  magic : p'.magic = p.magic
  active : p'.active = p.active
  previous : p'.previous = p.previous
  handshake : p'.handshake = p.handshake

end Peer

/-- An event that involves no session and no handshake state. -/
def Event.Quiet : Event S → Prop
  | .sentHandshake _ _ | .written _ => True
  | _ => False

/-- The packet is what its ghosts say: behind the type byte it carries the nonce, and behind that
what the library made of some plaintext under the transport state and that nonce. -/
structure Sealed.Genuine (c : Sealed S) : Prop where
  nonce : Peer.packetNonce (c.packet.drop 1) = c.nonce
  ciphertext : ∃ plaintext, S.writeMessage c.state c.nonce plaintext = some (c.packet.drop 9)

/-- A data packet is its type byte, its nonce and the ciphertext. -/
theorem Sealed.Genuine.of_framed {t : S.Transport} {n : UInt64} {plaintext ciphertext : Bytes}
    (h : S.writeMessage t n plaintext = some ciphertext) (packetType : UInt8) :
    Sealed.Genuine (S := S) ⟨packetType :: (toBE 8 n.toNat ++ ciphertext), t, n⟩ where
  nonce := Peer.packetNonce_toBE n ciphertext
  ciphertext := by
    refine ⟨plaintext, h.trans (congrArg some ?_)⟩
    exact (List.drop_left' (length_toBE 8 n.toNat)).symm

/-- What can happen to the sessions and the pending handshake of a peer, with the events it
records. The times of a peer are free: what they are is said by the lists above. -/
inductive SessionStep : Peer S → List (Event S) → Peer S → Prop
  /-- Anything that is not about sessions. -/
  | touch {p p' : Peer S} {es : List (Event S)} (h : p.SameSessions p')
      (hes : ∀ e ∈ es, e.Quiet) : SessionStep p es p'
  | initiate (p : Peer S) (hs : S.HandshakeState) :
      SessionStep p [.initiated hs] { p with handshake := some hs }
  | reject (p : Peer S) (hs hs' : S.HandshakeState) (m : Bytes) (h : p.handshake = some hs)
      (hr : S.readHandshake hs m = (false, hs')) : SessionStep p [] { p with handshake := some hs' }
  | abandon (p : Peer S) : SessionStep p [] { p with handshake := none }
  | respond (p : Peer S) (t : S.Transport) (now : Instant) :
      SessionStep p [.installed t] (p.install t now)
  | answer (p : Peer S) (hs : S.HandshakeState) (m : Bytes) (t : S.Transport) (now : Instant)
      (h : p.handshake = some hs) (hr : (S.readHandshake hs m).1 = true) :
      SessionStep p [.answered hs m, .installed t] { p.install t now with handshake := none }
  /-- The previous session is forgotten. -/
  | forget (p : Peer S) : SessionStep p [] { p with previous := none }
  /-- A dead peer's sessions are cleared. -/
  | clear (p : Peer S) : SessionStep p [] { p with active := none, previous := none }
  /-- An encryption that comes to nothing: a nonce of the session is spent. -/
  | encrypt (p : Peer S) (s : ActiveSession S) (len : ℕ) (h : p.active = some s) :
      SessionStep p [.encrypted s.state] (p.setSlot .active (Peer.advance s len))
  /-- An encryption whose packet is handed to a socket. -/
  | send (p : Peer S) (s : ActiveSession S) (len : ℕ) (packet : Bytes) (dest : OutboundDest)
      (h : p.active = some s) (h_genuine : Sealed.Genuine ⟨packet, s.state, s.txNonce⟩) :
      SessionStep p [.encrypted s.state, .sentData ⟨packet, s.state, s.txNonce⟩ dest]
        (p.setSlot .active (Peer.advance s len))
  /-- A packet that the window lets through. -/
  | opened (p : Peer S) (k : Slot) (s : ActiveSession S) (w : ReplayWindow) (n : UInt64)
      (plaintext : Bytes) (len : ℕ) (h : p.slot k = some s)
      (hw : s.replay.checkAndUpdate n = (true, w)) :
      SessionStep p [.opened ⟨plaintext, s.state, n⟩] (p.setSlot k (s.accept w len))

end AraxMesh
