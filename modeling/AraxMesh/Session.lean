import AraxMesh.Replay
import AraxMesh.Snow

/-!
# Sessions

`ActiveSession` of `session.rs`, and what receiving a data packet does to one session. The two
copies of the receive path in `Peer::decrypt_packet` (active and previous session) are the one
definition `ActiveSession.receive`, which consults the replay window only after the packet has
authenticated.

A time is a number of nanoseconds, and `elapsedSecs` is `Instant::elapsed().as_secs()`: whole
seconds, and zero for a time in the future.
-/

namespace AraxMesh

open BigEndian

/-- A point of the monotonic clock, in nanoseconds. -/
abbrev Instant := ℕ

/-- `t.elapsed().as_secs()` at time `now`. -/
def elapsedSecs (now t : Instant) : ℕ := (now - t) / 1000000000

/-- One end of an established session. -/
structure ActiveSession (S : Snow) where
  state : S.Transport
  txNonce : UInt64
  establishedAt : Instant
  txBytes : UInt64
  rxBytes : UInt64
  replay : ReplayWindow

variable {S : Snow}

/-- The session every handshake branch installs. -/
def ActiveSession.fresh (state : S.Transport) (now : Instant) : ActiveSession S where
  state := state
  txNonce := 0
  establishedAt := now
  txBytes := 0
  rxBytes := 0
  replay := ReplayWindow.new

@[simp] theorem ActiveSession.fresh_state (state : S.Transport) (now : Instant) :
    (ActiveSession.fresh state now).state = state := rfl

/-- Cut the padding off: an IPv4 packet is truncated to its total length. -/
def truncatePlaintext (plaintext : Bytes) : Bytes :=
  if plaintext ≠ [] then
    match parseIpv4TotalLength plaintext with
    | some totalLen => if totalLen ≤ plaintext.length then plaintext.take totalLen else plaintext
    | none => plaintext
  else plaintext

theorem truncatePlaintext_of_none {plaintext : Bytes}
    (h : parseIpv4TotalLength plaintext = none) : truncatePlaintext plaintext = plaintext := by
  rw [truncatePlaintext, h, ite_self]

/-- A total length beyond the end cuts nothing off, so an IPv4 packet is always cut there. -/
theorem truncatePlaintext_of_some {plaintext : Bytes} {totalLen : ℕ}
    (h : parseIpv4TotalLength plaintext = some totalLen) :
    truncatePlaintext plaintext = plaintext.take totalLen := by
  have h_ne : plaintext ≠ [] := by
    rintro rfl
    cases h
  rw [truncatePlaintext, if_pos h_ne, h]
  dsimp only
  split_ifs with h_le
  · rfl
  · exact (List.take_of_length_le (by omega)).symm

/-- What a session makes of a data packet. -/
inductive Receipt (S : Snow)
  /-- The ciphertext does not authenticate. -/
  | unauthentic
  /-- It does, but the nonce is a replay. -/
  | replayed (session : ActiveSession S)
  | accepted (plaintext : Bytes) (session : ActiveSession S)

/-- The session after it accepted a packet of `len` bytes. -/
def ActiveSession.accept (s : ActiveSession S) (replay : ReplayWindow) (len : ℕ) :
    ActiveSession S :=
  { s with replay := replay, rxBytes := s.rxBytes + UInt64.ofNat len }

@[simp] theorem ActiveSession.accept_state (s : ActiveSession S) (replay : ReplayWindow) (len : ℕ) :
    (s.accept replay len).state = s.state := rfl

/-- Try a packet of `len` bytes under one session. -/
def ActiveSession.receive (s : ActiveSession S) (nonce : UInt64) (ciphertext : Bytes) (len : ℕ) :
    Receipt S :=
  match S.readMessage s.state nonce ciphertext with
  | none => .unauthentic
  | some plaintext =>
    let (ok, replay) := s.replay.checkAndUpdate nonce
    if ¬ ok then .replayed { s with replay := replay }
    else .accepted (truncatePlaintext plaintext) (s.accept replay len)

/-- Receiving an unauthentic packet. -/
theorem ActiveSession.receive_unauthentic {s : ActiveSession S} {nonce : UInt64}
    {ciphertext : Bytes} {len : ℕ} (h : S.readMessage s.state nonce ciphertext = none) :
    s.receive nonce ciphertext len = .unauthentic := by
  simp [receive, h]

/-- Receiving an authentic packet whose nonce the window rejects: the session is unchanged. -/
theorem ActiveSession.receive_replayed {s : ActiveSession S} {nonce : UInt64}
    {ciphertext padded : Bytes} {len : ℕ} (h : S.readMessage s.state nonce ciphertext = some padded)
    (hw : (s.replay.checkAndUpdate nonce).1 = false) :
    s.receive nonce ciphertext len = .replayed s := by
  have hsame : (s.replay.checkAndUpdate nonce).2 = s.replay :=
    ReplayWindow.checkAndUpdate_of_rejected hw
  simp [receive, h, hw, hsame]

theorem ActiveSession.receive_accepted {s : ActiveSession S} {nonce : UInt64}
    {ciphertext padded : Bytes} {len : ℕ} {w : ReplayWindow}
    (h : S.readMessage s.state nonce ciphertext = some padded)
    (hw : s.replay.checkAndUpdate nonce = (true, w)) :
    s.receive nonce ciphertext len = .accepted (truncatePlaintext padded) (s.accept w len) := by
  simp [receive, h, hw]

end AraxMesh
