import AraxMesh.Agreement

/-!
# Forged responses

A pending handshake is taken out of the peer, tried on a response, and put back if the response
does not authenticate. `forged_responses_harmless` is what this comes to over any sequence of forged
responses with a genuine one after it, and once more the genuine one.

## Proof sketch

1. What `handleResponse` can do is `Answered`. By `Snow.Restores` a response that is not read puts
   the same handshake back, so the peer is what it was (`handleResponses_forged`, induction on the
   sequence).
2. A response that is read finishes the handshake. What that makes of every field of the peer is
   `Finished`, which speaks of no operation of the code.
3. A finished peer awaits nothing, so step 1 applies to the second copy.

Two laws of the library are assumed: `Snow.Restores`, and that an initiator is finished once it has
read a response (`Snow.Finishes`).
-/

namespace AraxMesh

variable {S : Snow}

/-- A handshake that sent an initiation and has read a response is a session. -/
def Snow.Finishes (S : Snow) : Prop :=
  ∀ hs initiation message hs', S.Wrote hs initiation →
    S.readHandshake hs message = (true, hs') → (S.intoTransport hs').isSome

/-- What follows the type byte of a response packet, and when it is handled. -/
structure Response where
  payload : Bytes
  now : Instant

namespace Peer

/-- Handle one response after the other. -/
def handleResponses (p : Peer S) (responses : List Response) : Peer S :=
  responses.foldl (fun p r => (p.handleResponse r.payload r.now).state) p

/-- A handshake is pending, and has sent its initiation. -/
def Awaits (p : Peer S) (hs : S.HandshakeState) : Prop :=
  p.handshake = some hs ∧ ∃ initiation, S.Wrote hs initiation

/-- `q` is `p` after its handshake was finished with the transport state `t`: the session is
installed, the session that was active is the previous one, and the handshake is cleared. -/
structure Finished (p : Peer S) (t : S.Transport) (now : Instant) (q : Peer S) : Prop where
  active : q.active = some
    { state := t
      txNonce := 0
      establishedAt := now
      txBytes := 0
      rxBytes := 0
      replay := ReplayWindow.new }
  /-- Without an active session the previous one stays. -/
  previous : q.previous = p.active.or p.previous
  handshake : q.handshake = none
  lastHandshakeAttempt : q.lastHandshakeAttempt = none
  lastHandshakePacket : q.lastHandshakePacket = none
  lastRx : q.lastRx = now
  lastTx : q.lastTx = now
  lastDirectRx : q.lastDirectRx = p.lastDirectRx
  pubkey : q.pubkey = p.pubkey
  endpoint : q.endpoint = p.endpoint
  allowedIps : q.allowedIps = p.allowedIps
  magic : q.magic = p.magic

/-- Every initiation leaves a handshake that awaits its response. -/
theorem awaits_of_initiateHandshake {p : Peer S} {localPriv : Bytes} {d : Draw S} {now : Instant}
    (h : (p.initiateHandshake localPriv d now).result.isSome) :
    ∃ hs, (p.initiateHandshake localPriv d now).state.Awaits hs := by
  have h_initiated := p.initiated localPriv d now
  generalize p.initiateHandshake localPriv d now = out at h h_initiated ⊢
  cases h_initiated with
  | failed => cases h
  | begun hs₀ hs msg h_build h_write =>
    exact ⟨hs, rfl, msg, localPriv, p.pubkey, hs₀, d.eph, h_build, h_write⟩

theorem handleResponses_append (p : Peer S) (l l' : List Response) :
    p.handleResponses (l ++ l') = (p.handleResponses l).handleResponses l' :=
  List.foldl_append

variable {p : Peer S}

/-- Responses that no pending handshake reads do nothing. -/
theorem handleResponses_forged (h_restores : S.Restores) {forged : List Response}
    (h : ∀ r ∈ forged, ∀ hs, p.handshake = some hs →
      (S.readHandshake hs (r.payload.take 48)).1 = false) :
    p.handleResponses forged = p := by
  induction forged with
  | nil => rfl
  | cons r forged ih =>
    have h_answered := p.handleResponse_answered r.payload r.now
    have h_same := (answered_of_unauthentic h_restores h_answered (h r List.mem_cons_self)).1
    calc p.handleResponses (r :: forged)
        = (p.handleResponse r.payload r.now).state.handleResponses forged := rfl
      _ = p.handleResponses forged := by rw [h_same]
      _ = p := ih fun r' hr' => h r' (List.mem_cons_of_mem r hr')

/-- A response that the pending handshake reads finishes it, whatever follows the message. -/
theorem handleResponses_genuine {hs hs' : S.HandshakeState} {t : S.Transport} {message : Bytes}
    (hp : p.handshake = some hs) (h_length : message.length = 48)
    (h_read : S.readHandshake hs message = (true, hs')) (h_into : S.intoTransport hs' = some t)
    (padding : Bytes) (now : Instant) :
    p.Finished t now (p.handleResponses [⟨message ++ padding, now⟩]) := by
  have h_take : (message ++ padding).take 48 = message := List.take_left' h_length
  have h_answered := p.handleResponse_answered (message ++ padding) now
  have h_completed := answered_completed h_answered hp (by rw [h_take]; exact h_read) h_into
  have h_state : p.handleResponses [⟨message ++ padding, now⟩] =
      { p.install t now with
        handshake := none
        lastHandshakeAttempt := none
        lastHandshakePacket := none } := congrArg Outcome.state h_completed
  rw [h_state]
  exact ⟨rfl, p.previous_install t now, rfl, rfl, rfl, rfl, rfl, rfl, rfl, rfl, rfl, rfl⟩

/-- **Forged responses cannot abort a handshake.** Let a handshake be pending. Whatever the
responses that it does not read, handling them leaves the peer as it was. The 48 bytes of a genuine
response, with anything behind them, then install the session, keep the old one and clear the
handshake as they do without the forged ones, and once more the same changes nothing.

A packet of the response type comes to `handleResponse` unless the byte means an initiation as
well. -/
theorem forged_responses_harmless (h_restores : S.Restores) (h_finishes : S.Finishes)
    {hs : S.HandshakeState} (h_pending : p.Awaits hs) {forged : List Response}
    (h_forged : ∀ r ∈ forged, (S.readHandshake hs (r.payload.take 48)).1 = false)
    {message : Bytes} (h_length : message.length = 48)
    (h_genuine : (S.readHandshake hs message).1 = true) :
    (∀ (q : Peer S) (localPriv payload : Bytes) (d : Draw S) (now : Instant),
      q.magic.handshakeResp ≠ q.magic.handshakeInit →
        q.handleHandshakePacket localPriv q.magic.handshakeResp payload d now =
          q.handleResponse payload now) ∧
    p.handleResponses forged = p ∧
    ∃ t, S.intoTransport (S.readHandshake hs message).2 = some t ∧
      ∀ padding now, ∃ q, p.Finished t now q ∧
        p.handleResponses [⟨message ++ padding, now⟩] = q ∧
        p.handleResponses (forged ++ [⟨message ++ padding, now⟩]) = q ∧
        ∀ padding' now', p.handleResponses (forged ++
          [⟨message ++ padding, now⟩, ⟨message ++ padding', now'⟩]) = q := by
  obtain ⟨hp, initiation, h_wrote⟩ := h_pending
  have h_read : S.readHandshake hs message = (true, (S.readHandshake hs message).2) :=
    Prod.ext h_genuine rfl
  obtain ⟨t, h_into⟩ :=
    Option.isSome_iff_exists.mp (h_finishes hs initiation message _ h_wrote h_read)
  have h_before : p.handleResponses forged = p := by
    refine handleResponses_forged h_restores fun r hr hs₁ hs₁p => ?_
    obtain rfl := Option.some.inj (hs₁p.symm.trans hp)
    exact h_forged r hr
  refine ⟨handleHandshakePacket_resp, h_before, t, h_into, fun padding now => ?_⟩
  have h_finished := handleResponses_genuine hp h_length h_read h_into padding now
  refine ⟨_, h_finished, rfl, ?_, ?_⟩
  · rw [handleResponses_append, h_before]
  · intro padding' now'
    generalize hq : p.handleResponses [⟨message ++ padding, now⟩] = q at h_finished ⊢
    -- no handshake is pending for the second copy
    have h_second : q.handleResponses [⟨message ++ padding', now'⟩] = q := by
      refine handleResponses_forged h_restores fun r _ hs₁ hs₁q => ?_
      cases h_finished.handshake.symm.trans hs₁q
    calc p.handleResponses
          (forged ++ [⟨message ++ padding, now⟩, ⟨message ++ padding', now'⟩])
        = (p.handleResponses [⟨message ++ padding, now⟩]).handleResponses
            [⟨message ++ padding', now'⟩] := by
          rw [handleResponses_append, h_before]
          rfl
      _ = q := by rw [hq, h_second]

end Peer

namespace Symbolic

theorem finishes : symbolic.Finishes := by
  intro hs initiation message hs' h_wrote h_read
  obtain ⟨a, b, e, rfl, -⟩ := wrote h_wrote
  rcases readHandshake_cases (.pending a b e) message with
    h_eq | ⟨_, _, _, _, -, -, h_eq⟩ | ⟨_, _, _, h_not, -, -⟩
  · cases h_read.symm.trans h_eq
  · obtain rfl := (Prod.mk.inj (h_read.symm.trans h_eq)).2
    rfl
  · cases h_not

/-- A peer that awaits the response to its initiation. -/
def awaitingPeer : Peer symbolic :=
  ((Peer.new (key 9) none [] 0).initiateHandshake (key 7) (draw 1) 1).state

/-- Too few bytes, and the response to another initiation. -/
def forgedResponses : List Response :=
  [⟨[1, 2, 3], 2⟩, ⟨response 7 9 5 6, 3⟩]

end Symbolic

open Symbolic in
theorem Peer.forged_responses_harmless_pending :
    awaitingPeer.handleResponses forgedResponses = awaitingPeer ∧
      awaitingPeer.Finished (Transport.mk true 7 9 1 6) 4 (awaitingPeer.handleResponses
        (forgedResponses ++ [⟨response 7 9 1 6 ++ [0, 0], 4⟩])) := by
  obtain ⟨hs, h_pending⟩ : ∃ hs, awaitingPeer.Awaits hs := awaits_of_initiateHandshake rfl
  obtain rfl : Handshake.pending 7 9 1 = hs := Option.some.inj h_pending.1
  have h_read : symbolic.readHandshake (Handshake.pending 7 9 1) (response 7 9 1 6) =
      (true, .finished true 7 9 1 6) := readHandshake_response 7 9 1 6
  have h_forged : ∀ r ∈ forgedResponses,
      (symbolic.readHandshake (Handshake.pending 7 9 1) (r.payload.take 48)).1 = false := by
    decide +kernel
  obtain ⟨-, h_same, t, h_into, h_after⟩ := forged_responses_harmless restores finishes
    h_pending h_forged (length_response 7 9 1 6) (congrArg Prod.fst h_read)
  rw [h_read] at h_into
  obtain rfl := Option.some.inj h_into
  obtain ⟨q, h_finished, -, h_last, -⟩ := h_after [0, 0] 4
  rw [h_last]
  exact ⟨h_same, h_finished⟩

end AraxMesh
