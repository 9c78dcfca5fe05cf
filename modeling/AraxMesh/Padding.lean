import AraxMesh.Channel
import AraxMesh.Decryption

/-!
# Padding

What `decrypt_packet` returns for a packet of `encrypt_packet`, whatever the payload and whatever
the padding. The sender pads every payload with an IPv4 header, the receiver cuts where the total
length of the header says.

The two agree on payloads that are as long as their header says. On a payload that is shorter, the
padding takes the place of what is missing, and goes to the TUN device: `padding_removed_iff` says
exactly when no padding does.
-/

namespace AraxMesh

open BigEndian

variable {S : Snow}

/-- What the transport state `t` writes `t'` reads, and a ciphertext is the plaintext and a tag. -/
def Snow.Opens (S : Snow) (t t' : S.Transport) : Prop :=
  ∀ n plaintext ciphertext, S.writeMessage t n plaintext = some ciphertext →
    ciphertext.length = plaintext.length + 16 ∧ S.readMessage t' n ciphertext = some plaintext

/-- The session `r` is the one of the receiver that is to read the packet: it is tried, no session
reads the packet before it, and it has not had the nonce. -/
structure Peer.Expects (q : Peer S) (c : Sealed S) (now : Instant) (k : Slot)
    (r : ActiveSession S) : Prop where
  honours : q.Honours now k r
  first : k = .previous → ∀ a, q.active = some a →
    S.readMessage a.state c.nonce (c.packet.drop 9) = none
  new : (r.replay.checkAndUpdate c.nonce).1 = true

/-- No padding is left of `payload`. -/
structure PaddingRemoved (payload plaintext : Bytes) : Prop where
  isPrefix : plaintext <+: payload
  eq_of_framed : Framed payload → plaintext = payload

/-- A prefix of a padded payload has none of the padding if it ends before the padding, or there is
no padding. -/
theorem take_append_isPrefix_iff {α : Type} (payload padding : List α) (n : ℕ) :
    (payload ++ padding).take n <+: payload ↔ n ≤ payload.length ∨ padding = [] := by
  constructor
  · intro h
    have h_le := h.length_le
    rw [List.length_take, List.length_append] at h_le
    rw [← List.length_eq_zero_iff]
    omega
  · rintro (h_le | rfl)
    · rw [List.take_append_of_le_length h_le]
      exact List.take_prefix n payload
    · rw [List.append_nil]
      exact List.take_prefix n payload

/-- The receiver decrypts what was sent to the padded payload, and cuts it. -/
theorem Peer.decryptPacket_encrypted {p q : Peer S} {payload : Bytes} {d : Draw S}
    {now now' : Instant} {c : Sealed S} {k : Slot} {r : ActiveSession S}
    (hc : (p.encryptPacket payload d now).result = some c) (h_opens : S.Opens c.state r.state)
    (h : q.Expects c now' k r) : (q.decryptPacket c.packet.tail now').result =
      some (truncatePlaintext (padPayload payload d.dataPad)) := by
  have h_encrypted := p.encrypted payload d now
  generalize p.encryptPacket payload d now = out at h_encrypted hc
  cases h_encrypted with
  | inactive => cases hc
  | failed => cases hc
  | sent s ciphertext hs h_write =>
    obtain rfl := Option.some.inj hc
    obtain ⟨h_length, h_read⟩ := h_opens _ _ _ h_write
    -- after the type byte come the nonce and the ciphertext
    have h_nonce : packetNonce (toBE 8 s.txNonce.toNat ++ ciphertext) = s.txNonce :=
      packetNonce_toBE s.txNonce ciphertext
    have h_drop : (toBE 8 s.txNonce.toNat ++ ciphertext).drop 8 = ciphertext :=
      List.drop_left' (length_toBE _ _)
    have h_reads : q.Reads (toBE 8 s.txNonce.toNat ++ ciphertext) now' k r
        (padPayload payload d.dataPad) := by
      refine ⟨⟨h.honours, ?_, ?_⟩, fun hk a ha => ?_⟩
      · rw [List.length_append, length_toBE]
        omega
      · rw [h_nonce, h_drop]
        exact h_read
      · rw [h_nonce]
        exact h.first hk a ha
    rw [List.tail_cons, decryptPacket_of_reads h_reads, h_nonce, if_pos h.new]

/-- **When padding is removed.** A packet of `encrypt_packet` is decrypted under the matching
session to a prefix of the payload, and to the payload itself if it is no IPv4 packet or as long as
its total length says, if and only if the total length is at most the length of the payload, or no
padding was drawn. -/
theorem padding_removed_iff {p q : Peer S} {payload : Bytes} {d : Draw S} {now now' : Instant}
    {c : Sealed S} {k : Slot} {r : ActiveSession S}
    (hc : (p.encryptPacket payload d now).result = some c) (h_opens : S.Opens c.state r.state)
    (h : q.Expects c now' k r) :
    ∃ plaintext, (q.decryptPacket c.packet.tail now').result = some plaintext ∧
      (PaddingRemoved payload plaintext ↔
        ∀ n, parseIpv4TotalLength payload = some n →
          n ≤ payload.length ∨ d.dataPad.val = []) := by
  refine ⟨_, Peer.decryptPacket_encrypted hc h_opens h, ?_⟩
  have h_framed : Framed payload →
      truncatePlaintext (Peer.padPayload payload d.dataPad) = payload :=
    fun h_framed => truncatePlaintext_padPayload h_framed d.dataPad
  cases h_parse : parseIpv4TotalLength payload with
  | none =>
    refine iff_of_true ⟨?_, h_framed⟩ fun n hn => ?_
    · rw [h_framed (Or.inl h_parse)]
    · cases hn
  | some n =>
    -- the payload and its padding up to the total length
    have h_cut := Peer.truncatePlaintext_padPayload_of_some h_parse d.dataPad
    have h_isPrefix := take_append_isPrefix_iff payload d.dataPad.val n
    rw [← h_cut] at h_isPrefix
    constructor
    · intro h_removed m hm
      obtain rfl := Option.some.inj hm
      exact h_isPrefix.mp h_removed.isPrefix
    · intro h_short
      exact ⟨h_isPrefix.mpr (h_short n rfl), h_framed⟩

/-! ### A short payload -/

namespace Symbolic

theorem opens_flip (t : Transport) : symbolic.Opens t.flip t := by
  rintro n plaintext ciphertext ⟨⟩
  refine ⟨?_, readMessage_of_flip rfl n plaintext⟩
  rw [List.length_append, length_tag]

/-- The peer at the other end of `connectedPeer`'s session. -/
def otherEnd : Peer symbolic :=
  { Peer.new (key 7) none [] 0 with active := some (.fresh (nodeEnd 1 2).flip 0) }

/-- A header of 20 bytes, with a total length of 40. -/
def shortPacket : Bytes := [0x45, 0, 0, 40] ++ List.replicate 16 0

/-- Three bytes of padding. -/
def drawPadding : Draw symbolic := { draw 0 with dataPad := ⟨[1, 2, 3], by decide⟩ }

/-- The first packet of `otherEnd` with this padding. -/
def paddedPacket (payload : Bytes) : Sealed symbolic where
  packet := dataPacket (nodeEnd 1 2) 0 (payload ++ [1, 2, 3])
  state := (nodeEnd 1 2).flip
  nonce := 0

theorem expects_paddedPacket (payload : Bytes) :
    connectedPeer.Expects (paddedPacket payload) 0 .active (.fresh (nodeEnd 1 2) 0) := by
  refine ⟨⟨rfl, ?_⟩, ?_, rfl⟩
  · intro h
    cases h
  · intro h
    cases h

end Symbolic

open Symbolic in
theorem padding_removed_iff_ipv4 : ∃ plaintext,
    (connectedPeer.decryptPacket (paddedPacket ipv4Packet).packet.tail 0).result = some plaintext ∧
      PaddingRemoved ipv4Packet plaintext := by
  have h_sent : (otherEnd.encryptPacket ipv4Packet drawPadding 0).result =
      some (paddedPacket ipv4Packet) := rfl
  have h_opens : symbolic.Opens (paddedPacket ipv4Packet).state
      (ActiveSession.fresh (nodeEnd 1 2) 0).state := opens_flip (nodeEnd 1 2)
  obtain ⟨plaintext, h_result, h_iff⟩ :=
    padding_removed_iff h_sent h_opens (expects_paddedPacket ipv4Packet)
  refine ⟨plaintext, h_result, h_iff.mpr fun n hn => Or.inl ?_⟩
  obtain rfl : 20 = n := Option.some.inj hn
  exact le_rfl

open Symbolic in
/-- The padding of a short payload comes out at the other end. -/
theorem padding_delivered :
    (otherEnd.encryptPacket shortPacket drawPadding 0).result = some (paddedPacket shortPacket) ∧
      symbolic.Opens (paddedPacket shortPacket).state (nodeEnd 1 2) ∧
      connectedPeer.Expects (paddedPacket shortPacket) 0 .active (.fresh (nodeEnd 1 2) 0) ∧
      (connectedPeer.decryptPacket (paddedPacket shortPacket).packet.tail 0).result =
        some (shortPacket ++ [1, 2, 3]) ∧
      ¬ PaddingRemoved shortPacket (shortPacket ++ [1, 2, 3]) := by
  refine ⟨rfl, opens_flip (nodeEnd 1 2), expects_paddedPacket shortPacket, by decide +kernel, ?_⟩
  intro h_removed
  exact absurd h_removed.isPrefix (by decide)

end AraxMesh
