import AraxMesh.Packet

/-!
# The Noise library

What the daemon uses of `snow`: handshake states for `Noise_IK_25519_ChaChaPoly_BLAKE2s` and
stateless transport states. The library is a parameter `S : Snow` of everything above it; every
call is a function of its arguments, with the ephemeral key a handshake message draws from the
random source passed in.

The assumptions about it are predicates on `S`, each used by name where a result needs it:

* `Snow.Restores` — a handshake state that fails to read a message is left as it was;
* `Snow.KeyCommitting` — a ciphertext authenticates under at most one transport state (ideal AEAD
  and distinct keys);
* `Snow.ResponseBinds` — a handshake message is read by at most one handshake state (it is bound
  to the ephemeral keys and the transcript).

That ephemeral keys are fresh is not a law of the library but of a run: no two completed
handshakes of the run give one transport state, and no two initiations one handshake state.
-/

namespace AraxMesh

/-- The operations of the Noise library. -/
structure Snow where
  /-- A local ephemeral key, as drawn for one handshake message. -/
  Eph : Type
  /-- `snow::HandshakeState`. -/
  HandshakeState : Type
  /-- `snow::StatelessTransportState`. -/
  Transport : Type
  /-- `Builder::build_initiator` with a local private key and a remote public key. -/
  buildInitiator : Bytes → Bytes → Option HandshakeState
  /-- `Builder::build_responder` with a local private key. -/
  buildResponder : Bytes → Option HandshakeState
  /-- `HandshakeState::write_message` with an empty payload. -/
  writeHandshake : HandshakeState → Eph → Option (Bytes × HandshakeState)
  /-- `HandshakeState::read_message`: whether it succeeded, and the state after the call. -/
  readHandshake : HandshakeState → Bytes → Bool × HandshakeState
  /-- `HandshakeState::get_remote_static`. -/
  getRemoteStatic : HandshakeState → Option Bytes
  /-- `HandshakeState::into_stateless_transport_mode`. -/
  intoTransport : HandshakeState → Option Transport
  /-- `StatelessTransportState::write_message`: the ciphertext under a nonce. -/
  writeMessage : Transport → UInt64 → Bytes → Option Bytes
  /-- `StatelessTransportState::read_message`: the plaintext, when the ciphertext authenticates. -/
  readMessage : Transport → UInt64 → Bytes → Option Bytes

namespace Snow

variable (S : Snow)

/-- A failed `read_message` leaves the handshake state as it was. -/
def Restores : Prop :=
  ∀ h m, (S.readHandshake h m).1 = false → (S.readHandshake h m).2 = h

/-- A ciphertext authenticates under at most one transport state. -/
def KeyCommitting : Prop :=
  ∀ t t' n c, (S.readMessage t n c).isSome → (S.readMessage t' n c).isSome → t = t'

variable {S} in
/-- The two states that read one ciphertext are one. -/
theorem KeyCommitting.state_eq (h : S.KeyCommitting) {t t' : S.Transport} {n : UInt64}
    {c plaintext plaintext' : Bytes} (h_read : S.readMessage t n c = some plaintext)
    (h_read' : S.readMessage t' n c = some plaintext') : t' = t := by
  refine h t' t n c ?_ ?_
  · rw [h_read']
    rfl
  · rw [h_read]
    rfl

/-- A handshake message is read by at most one handshake state. -/
def ResponseBinds : Prop :=
  ∀ h h' m, (S.readHandshake h m).1 = true → (S.readHandshake h' m).1 = true → h = h'

end Snow

/-- Random bytes of length at most `bound`, as `gen_range(0..=bound)` and `fill_bytes` draw. -/
def Padding (bound : ℕ) : Type := { l : Bytes // l.length ≤ bound }

/-- What one operation may draw from the random source. -/
structure Draw (S : Snow) where
  eph : S.Eph
  handshakePad : Padding 64
  dataPad : Padding 128

namespace Snow

variable {S : Snow}

/-- The responder's first half: build it, read an initiation from the first 96 bytes of a payload,
and ask whose static key it carries. -/
def readInitiation (localPriv payload : Bytes) : Option (S.HandshakeState × Bytes) :=
  match S.buildResponder localPriv with
  | none => none
  | some hs =>
    match S.readHandshake hs (payload.take 96) with
    | (false, _) => none
    | (true, hs) => (S.getRemoteStatic hs).map fun remote => (hs, remote)

theorem readInitiation_eq_some {localPriv payload remote : Bytes} {hs : S.HandshakeState}
    (h : readInitiation localPriv payload = some (hs, remote)) :
    ∃ hs₀, S.buildResponder localPriv = some hs₀ ∧
      S.readHandshake hs₀ (payload.take 96) = (true, hs) ∧ S.getRemoteStatic hs = some remote := by
  unfold readInitiation at h
  cases h_build : S.buildResponder localPriv with
  | none =>
    rw [h_build] at h
    cases h
  | some hs₀ =>
    rw [h_build] at h
    dsimp only at h
    split at h
    · cases h
    · next hs₁ h_read =>
      obtain ⟨_, h_remote, h_eq⟩ := Option.map_eq_some_iff.mp h
      obtain ⟨rfl, rfl⟩ := Prod.mk.inj h_eq
      exact ⟨hs₀, rfl, h_read, h_remote⟩

/-- The responder's second half: write the response and enter transport mode. -/
def writeResponse (hs : S.HandshakeState) (eph : S.Eph) : Option (Bytes × S.Transport) :=
  match S.writeHandshake hs eph with
  | none => none
  | some (msg, hs) => (S.intoTransport hs).map fun t => (msg, t)

end Snow
end AraxMesh
