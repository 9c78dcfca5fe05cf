import AraxMesh.PeerSteps
import AraxMesh.ReplayRuns
import AraxMesh.Symbolic

/-!
# Sequences of data packets

A data packet is decided by the first session it authenticates under (`Peer.Reads`). A payload that
was accepted is `Spent` from then on, because what a peer's sessions read does not change while
packets are only decrypted.

`inserted_invisible` compares two runs: one with forged and replayed payloads in between, and one
without them.
-/

namespace AraxMesh

variable {S : Snow}

namespace Peer

/-! ### The deciding session -/

variable {p : Peer S} {payload : Bytes} {now : Instant} {k : Slot} {s : ActiveSession S}
  {padded : Bytes}

/-- No two sessions decide a packet, not even at different times. -/
theorem Reads.slot_eq {now' : Instant} {k' : Slot} {s' : ActiveSession S} {padded' : Bytes}
    (h : p.Reads payload now k s padded) (h' : p.Reads payload now' k' s' padded') : k' = k := by
  cases k with
  | active =>
    cases k' with
    | active => rfl
    | previous =>
      have h_none := h'.first rfl s h.honours.1
      rw [h.read] at h_none
      cases h_none
  | previous =>
    cases k' with
    | active =>
      have h_none := h.first rfl s' h'.honours.1
      rw [h'.read] at h_none
      cases h_none
    | previous => rfl

/-- What reads a packet after another one was accepted read it before. -/
theorem Reads.of_accept {k' : Slot} {s' : ActiveSession S} {w : ReplayWindow} {len : ℕ}
    {t : Instant} (hs : p.slot k = some s)
    (h : Reads { p.setSlot k (s.accept w len) with lastRx := t } payload now k' s' padded) :
    (k' = k ∧ s' = s.accept w len ∧ p.Reads payload now k s padded) ∨
      k' ≠ k ∧ p.Reads payload now k' s' padded := by
  have h_slot : (p.setSlot k (s.accept w len)).slot k' = some s' := h.honours.1
  -- the active session has the transport state it had
  have h_first : k' = .previous → ∀ a, p.active = some a →
      S.readMessage a.state (packetNonce payload) (payload.drop 8) = none := by
    intro h_previous a ha
    cases k with
    | active =>
      obtain rfl : a = s := Option.some.inj (ha.symm.trans hs)
      exact h.first h_previous (a.accept w len) rfl
    | previous => exact h.first h_previous a ha
  rw [slot_setSlot] at h_slot
  by_cases hk : k' = k
  · subst hk
    rw [if_pos rfl] at h_slot
    obtain rfl := Option.some.inj h_slot
    exact Or.inl ⟨rfl, rfl, ⟨⟨hs, h.honours.2⟩, h.length, h.read⟩, h_first⟩
  · rw [if_neg hk] at h_slot
    exact Or.inr ⟨hk, ⟨⟨h_slot, h.honours.2⟩, h.length, h.read⟩, h_first⟩

/-- What is returned was decided by a session that had not had the nonce. -/
theorem exists_reads_of_result (h : (p.decryptPacket payload now).result.isSome) :
    ∃ k s padded, p.Reads payload now k s padded ∧
      (s.replay.checkAndUpdate (packetNonce payload)).1 = true := by
  have h_decrypted := p.decrypted payload now
  generalize h_out : p.decryptPacket payload now = out at h h_decrypted
  cases h_decrypted with
  | unauthentic => cases h
  | replayed => cases h
  | opened _ _ _ _ h_auth =>
    obtain ⟨k, s, padded, h_reads⟩ := h_auth.exists_reads
    refine ⟨k, s, padded, h_reads, ?_⟩
    by_contra h_not
    rw [← h_out, decryptPacket_of_reads h_reads, if_neg h_not] at h
    cases h

/-! ### Accepted payloads -/

/-- No session that may come to decide the payload accepts its nonce. -/
def Spent (p : Peer S) (payload : Bytes) : Prop :=
  ∀ now k s padded, p.Reads payload now k s padded → s.replay.Spent (packetNonce payload)

theorem Spent.result (h : p.Spent payload) (now : Instant) :
    (p.decryptPacket payload now).result = none := by
  by_contra h_some
  obtain ⟨k, s, padded, h_reads, h_ok⟩ :=
    exists_reads_of_result (Option.isSome_iff_ne_none.mpr h_some)
  cases h_ok.symm.trans (h now k s padded h_reads).rejected

/-- A payload that was accepted is spent. -/
theorem spent_of_result (h : (p.decryptPacket payload now).result.isSome) :
    (p.decryptPacket payload now).state.Spent payload := by
  obtain ⟨k, s, padded, h_reads, h_ok⟩ := exists_reads_of_result h
  rw [decryptPacket_of_reads h_reads, if_pos h_ok]
  intro now' k' s' padded' h_reads'
  rcases h_reads'.of_accept h_reads.honours.1 with ⟨-, rfl, -⟩ | ⟨h_other, h_before⟩
  · exact ReplayWindow.spent_of_accepted h_ok
  · -- the other session did not decide it before, and does not now
    exact absurd (h_reads.slot_eq h_before) h_other

/-- Whatever is decrypted, a spent payload stays spent. -/
theorem Spent.decryptPacket {payload' : Bytes} (h : p.Spent payload) (now : Instant) :
    (p.decryptPacket payload' now).state.Spent payload := by
  have h_decrypted := p.decrypted payload' now
  generalize p.decryptPacket payload' now = out at h_decrypted ⊢
  cases h_decrypted with
  | unauthentic => exact h
  | replayed => exact h
  | opened k s padded w h_auth h_ok =>
    intro now' k' s' padded' h_reads
    rcases h_reads.of_accept h_auth.honours.1 with ⟨-, rfl, h_before⟩ | ⟨-, h_before⟩
    · have h_spent := (h now' k s padded' h_before).checkAndUpdate (packetNonce payload')
      rw [h_ok] at h_spent
      exact h_spent
    · exact h now' k' s' padded' h_before

end Peer

/-! ### Runs with insertions -/

/-- A payload that arrives at some time: one of the original sequence, or an inserted one. -/
structure Input where
  payload : Bytes
  now : Instant
  inserted : Bool
deriving DecidableEq

namespace Peer

/-- Decrypt one payload after the other: what was returned for each, and the peer at the end. -/
def decryptAll (p : Peer S) (inputs : List Input) : List (Input × Option Bytes) × Peer S :=
  inputs.foldl (fun (returned, p) i =>
    let out := p.decryptPacket i.payload i.now
    (returned ++ [(i, out.result)], out.state)) ([], p)

theorem decryptAll_append_singleton (p : Peer S) (inputs : List Input) (i : Input) :
    p.decryptAll (inputs ++ [i]) =
      ((p.decryptAll inputs).1 ++
          [(i, ((p.decryptAll inputs).2.decryptPacket i.payload i.now).result)],
        ((p.decryptAll inputs).2.decryptPacket i.payload i.now).state) := by
  rw [decryptAll, List.foldl_append]
  rfl

/-- After these inputs, the payload authenticates under neither session, or it is one that was
accepted. -/
def Ignorable (p : Peer S) (before : List Input) (i : Input) : Prop :=
  (∀ k s padded, ¬ (p.decryptAll before).2.Authenticates i.payload i.now k s padded) ∨
    ∃ r ∈ (p.decryptAll before).1, r.1.payload = i.payload ∧ r.2.isSome

/-- What was accepted anywhere in a run is spent at its end. -/
theorem spent_of_mem {p : Peer S} {inputs : List Input} {r : Input × Option Bytes}
    (hr : r ∈ (p.decryptAll inputs).1) (h_some : r.2.isSome) :
    (p.decryptAll inputs).2.Spent r.1.payload := by
  induction inputs using List.reverseRecOn with
  | nil => cases hr
  | append_singleton inputs i ih =>
    rw [decryptAll_append_singleton] at hr ⊢
    rcases List.mem_append.mp hr with h_before | h_last
    · exact (ih h_before).decryptPacket i.now
    · obtain rfl := List.mem_singleton.mp h_last
      exact spent_of_result h_some

/-- An ignorable payload is not returned. -/
theorem Ignorable.result {p : Peer S} {before : List Input} {i : Input}
    (h : p.Ignorable before i) :
    ((p.decryptAll before).2.decryptPacket i.payload i.now).result = none := by
  rcases h with h_forged | ⟨r, hr, h_same, h_some⟩
  · rw [decryptPacket_of_unauthentic h_forged]
  · rw [← h_same]
    exact (spent_of_mem hr h_some).result i.now

/-- **Insertions are invisible.** Whatever the peer, insert payloads anywhere into a sequence, each
one that authenticates under neither session or that was accepted before it. Then the original
payloads are answered as they are without the insertions, the peer at the end is the same, and
nothing is returned for an inserted payload. -/
theorem inserted_invisible (p : Peer S) (inputs : List Input)
    (h : ∀ before i rest, inputs = before ++ i :: rest → i.inserted = true →
      p.Ignorable before i) :
    (p.decryptAll inputs).1.filter (fun r => !r.1.inserted) =
        (p.decryptAll (inputs.filter fun i => !i.inserted)).1 ∧
      (p.decryptAll inputs).2 = (p.decryptAll (inputs.filter fun i => !i.inserted)).2 ∧
      ∀ r ∈ (p.decryptAll inputs).1, r.1.inserted = true → r.2 = none := by
  induction inputs using List.reverseRecOn with
  | nil => exact ⟨rfl, rfl, fun r hr => absurd hr List.not_mem_nil⟩
  | append_singleton inputs i ih =>
    have h_before : ∀ before j rest, inputs = before ++ j :: rest → j.inserted = true →
        p.Ignorable before j := by
      intro before j rest h_eq
      refine h before j (rest ++ [i]) ?_
      rw [h_eq, List.append_assoc, List.cons_append]
    obtain ⟨ih_results, ih_state, ih_none⟩ := ih h_before
    rw [decryptAll_append_singleton, List.filter_append, List.filter_append]
    cases h_inserted : i.inserted with
    | true =>
      -- the inserted payload is not returned, so it has no effect
      have h_none := (h inputs i [] rfl h_inserted).result
      have h_same := (decryptPacket_none h_none).1
      have h_out : [i].filter (fun i => !i.inserted) = [] := by simp [h_inserted]
      rw [h_out, List.append_nil]
      refine ⟨?_, h_same.trans ih_state, fun r hr h_r => ?_⟩
      · rw [← ih_results, List.filter_cons_of_neg (by simp [h_inserted]), List.filter_nil,
          List.append_nil]
      · rcases List.mem_append.mp hr with h_old | h_new
        · exact ih_none r h_old h_r
        · obtain rfl := List.mem_singleton.mp h_new
          exact h_none
    | false =>
      -- an original payload finds the same peer in both runs
      have h_in : [i].filter (fun i => !i.inserted) = [i] := by simp [h_inserted]
      rw [h_in, decryptAll_append_singleton, ← ih_results, ← ih_state]
      refine ⟨?_, rfl, fun r hr h_r => ?_⟩
      · rw [List.filter_cons_of_pos (by simp [h_inserted]), List.filter_nil]
      · rcases List.mem_append.mp hr with h_old | h_new
        · exact ih_none r h_old h_r
        · obtain rfl := List.mem_singleton.mp h_new
          cases h_inserted.symm.trans h_r

end Peer

namespace Symbolic

/-- A peer with a session. -/
def connectedPeer : Peer symbolic :=
  { Peer.new (key 9) none [] 0 with active := some (.fresh (nodeEnd 1 2) 0) }

/-- A data packet, with a forged payload before it and a replay after it. -/
def insertions : List Input :=
  [⟨List.replicate 40 0xff, 1, true⟩, ⟨(dataPacket (nodeEnd 1 2) 0 ipv4Packet).tail, 2, false⟩,
    ⟨(dataPacket (nodeEnd 1 2) 0 ipv4Packet).tail, 3, true⟩]

end Symbolic

open Symbolic in
theorem Peer.inserted_invisible_around :
    (connectedPeer.decryptAll insertions).1.map Prod.snd = [none, some ipv4Packet, none] ∧
      (connectedPeer.decryptAll insertions).2 =
        (connectedPeer.decryptAll (insertions.filter fun i => !i.inserted)).2 := by
  refine ⟨by decide +kernel, (inserted_invisible connectedPeer insertions ?_).2.1⟩
  intro before i rest h_eq h_inserted
  rcases before with _ | ⟨a, _ | ⟨b, _ | ⟨c, before⟩⟩⟩
  · -- the forged payload
    obtain ⟨rfl, -⟩ := List.cons.inj h_eq
    refine Or.inl fun k s padded h_auth => ?_
    cases k with
    | active =>
      obtain rfl := Option.some.inj h_auth.honours.1
      have h_none : symbolic.readMessage (nodeEnd 1 2) (packetNonce (List.replicate 40 0xff))
          ((List.replicate 40 0xff).drop 8) = none := by decide +kernel
      cases h_none.symm.trans h_auth.read
    | previous => cases h_auth.honours.1
  · -- the original
    obtain ⟨-, h_eq⟩ := List.cons.inj h_eq
    obtain ⟨rfl, -⟩ := List.cons.inj h_eq
    cases h_inserted
  · -- the replay
    obtain ⟨h_first, h_eq⟩ := List.cons.inj h_eq
    obtain ⟨h_second, h_eq⟩ := List.cons.inj h_eq
    obtain ⟨rfl, -⟩ := List.cons.inj h_eq
    subst h_first h_second
    refine Or.inr ⟨(⟨(dataPacket (nodeEnd 1 2) 0 ipv4Packet).tail, 2, false⟩, some ipv4Packet),
      ?_, rfl, rfl⟩
    decide +kernel
  · simp [insertions] at h_eq

end AraxMesh
