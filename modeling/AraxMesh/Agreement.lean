import AraxMesh.Link
import AraxMesh.Replayed

/-!
# Session agreement

The link of two nodes refines the abstract two-message exchange: an exchange is named by the
handshake that began it, and its session by the responder's transport state. `Link.Represents` is
the relation; `represented_of_exec` says that every state a run reaches without overlapping
handshakes represents one the abstract exchange reaches in its orderly runs.

`sessions_agree` is the result: once such a run is quiet, the two active sessions are the two ends
of one exchange. Without the condition on the run they need not be (`sessions_disagree`): there is
no tie-break between two initiations that cross, and no confirmation.

## Proof sketch

The abstract exchange has two parties, each with a pending handshake and an active end, and messages
on their way. What the link adds to it is bytes, padding, retransmission and clocks.

1. `PartyOf` and `Carried` relate a peer to a party, and a packet to a message. A packet is a
   message whatever its padding, as the reader stops at the length of the Noise message.
2. What a node does of its own is a run of `HandshakeStep`s. Each is a step of the exchange or none
   (`Represented.step`): a handshake begun is new because its ephemeral key is, and an initiation
   sent again is a message the exchange may send again.
3. A packet that is delivered is handled in one turn (`InitTurn`, `RespTurn`). The node answers, or
   the handshake it has pending reads the answer, or the packet comes to nothing and is as good as
   lost.
4. An orderly run of the link takes an initiation in only where the exchange may (`PeersOf.open`): a
   response that no pending handshake reads is one that answers no pending handshake.
5. In a quiet state the exchange is quiet, too, and `agree_of_quiet` of the exchange says that the
   ends belong together. Ideal encryption makes them hear each other.
-/

namespace AraxMesh

open LTS KeyExchange BigEndian

variable {S : Snow}

/-- An exchange of the library. -/
abbrev Exchange (S : Snow) := KeyExchange.State S.HandshakeState S.Transport

/-- The packet carries the message. -/
inductive Carried (S : Snow) (magic : MagicConfig) :
    Bool × Bytes → KeyExchange.Message S.HandshakeState S.Transport → Prop
  | init (x : Bool) (hs : S.HandshakeState) (m pad : Bytes) (h : S.Wrote hs m) :
      Carried S magic (x, magic.handshakeInit :: (m ++ pad)) (.init x hs)
  | resp (x : Bool) (hs : S.HandshakeState) (t : S.Transport) (m pad : Bytes)
      (h : S.Replied hs m t) : Carried S magic (x, magic.handshakeResp :: (m ++ pad)) (.resp x hs t)

/-- The transport state is that end of the session. -/
def EndOf (ends : S.Transport → S.Transport → Prop) (t : S.Transport)
    (a : End S.HandshakeState S.Transport) : Prop :=
  if a.initiator then ends t a.f else t = a.f

/-- The peer is as the exchange has the party `x`. -/
structure Peer.PartyOf (ends : S.Transport → S.Transport → Prop) (magic : MagicConfig) (p : Peer S)
    (x : Bool) (a : Exchange S) : Prop where
  magic_eq : p.magic = magic
  pending : a.pending x = p.handshake
  active : Option.Rel (EndOf ends) p.activeState (a.active x)
  /-- The packet to be retransmitted is an initiation that was begun. -/
  last : ∀ packet, p.lastHandshakePacket = some packet →
    ∃ hs, hs ∈ a.begun ∧ Carried S magic (!x, packet) (.init (!x) hs)

/-- A session of the peer is an end the party has. -/
theorem Peer.PartyOf.endOf {ends : S.Transport → S.Transport → Prop} {magic : MagicConfig}
    {p : Peer S} {x : Bool} {a : Exchange S} (h : p.PartyOf ends magic x a) {s : ActiveSession S}
    (hs : p.active = some s) : ∃ e, a.active x = some e ∧ EndOf ends s.state e := by
  have h_active := h.active
  rw [Peer.activeState, hs, Option.map_some] at h_active
  generalize a.active x = o at h_active
  cases h_active with
  | some h_end => exact ⟨_, rfl, h_end⟩

/-- Two peers and the packets between them are as the exchange has it. -/
structure PeersOf (ends : S.Transport → S.Transport → Prop) (magic : MagicConfig)
    (peer : Bool → Peer S) (flight : Multiset (Bool × Bytes)) (a : Exchange S) : Prop where
  party : ∀ x, (peer x).PartyOf ends magic x a
  flight : Multiset.Rel (Carried S magic) flight a.flight

/-- After a history, the peers and packets are as some exchange has it that orderly runs reach, and
that has begun what the history has. -/
def Represented (ends : S.Transport → S.Transport → Prop) (magic : MagicConfig)
    (past : List (Event S)) (peer : Bool → Peer S) (flight : Multiset (Bool × Bytes)) : Prop :=
  ∃ a, Reachable (orderly S.HandshakeState S.Transport) a ∧ PeersOf ends magic peer flight a ∧
    ∀ hs, hs ∈ a.begun ↔ hs ∈ initiatedIn past

variable {ends : S.Transport → S.Transport → Prop} {magic : MagicConfig}

/-- A party that a step of the exchange leaves alone. -/
theorem Peer.PartyOf.congr {p p' : Peer S} {x : Bool} {a b : Exchange S}
    (h : p.PartyOf ends magic x a) (h_same : p.SameHandshake p')
    (h_pending : b.pending x = a.pending x) (h_active : b.active x = a.active x)
    (h_begun : a.begun ⊆ b.begun) : p'.PartyOf ends magic x b where
  magic_eq := h_same.magic.trans h.magic_eq
  pending := by rw [h_pending, h.pending, h_same.handshake]
  active := by rw [h_active, h_same.activeState]; exact h.active
  last := by
    intro packet hp
    rw [h_same.lastHandshakePacket] at hp
    obtain ⟨hs, h_mem, h_carried⟩ := h.last packet hp
    exact ⟨hs, h_begun h_mem, h_carried⟩

/-- One party changes, and the other one is left alone. -/
theorem PeersOf.update {peer : Bool → Peer S} {flight flight' : Multiset (Bool × Bytes)}
    {a b : Exchange S} (h : PeersOf ends magic peer flight a) (x : Bool) {p' : Peer S}
    (h_party : p'.PartyOf ends magic x b) (h_pending : b.pending (!x) = a.pending (!x))
    (h_active : b.active (!x) = a.active (!x)) (h_begun : a.begun ⊆ b.begun)
    (h_flight : Multiset.Rel (Carried S magic) flight' b.flight) :
    PeersOf ends magic (Function.update peer x p') flight' b where
  party y := by
    -- there is only one other party
    by_cases hyx : y = x
    · subst hyx
      rwa [Function.update_self]
    · obtain rfl : y = !x := by cases x <;> cases y <;> simp_all
      rw [Function.update_of_ne hyx]
      exact (h.party _).congr (.refl _) h_pending h_active h_begun
  flight := h_flight

/-- An unrestricted step of the exchange that takes in no initiation is an orderly one. -/
theorem orderly_step {a b : Exchange S} {l : Message S.HandshakeState S.Transport ⊕ Unit}
    (h : Step a l b) (hl : ∀ x e, l ≠ .inl (.init x e)) :
    (orderly S.HandshakeState S.Transport).step a l b :=
  ⟨h, fun x e he => absurd he (hl x e)⟩

/-! ### What a node does of its own -/

/-- Events in which no handshake is begun. -/
theorem initiatedIn_of_noHandshake {es : List (Event S)} (h : ∀ e ∈ es, e.NoHandshake) :
    initiatedIn es = [] := by
  refine List.filterMap_eq_nil_iff.mpr fun e he => ?_
  have := h e he
  cases e <;> simp_all [Event.NoHandshake]

/-- Events in which no handshake packet is sent. -/
theorem outgoing_of_noHandshake (x : Bool) {es : List (Event S)} (h : ∀ e ∈ es, e.NoHandshake) :
    outgoing x es = 0 := by
  have h_sent : handshakesIn es = [] := by
    refine List.filterMap_eq_nil_iff.mpr fun e he => ?_
    have := h e he
    cases e <;> simp_all [Event.NoHandshake]
  rw [outgoing, h_sent]
  rfl

section Moves

variable {past : List (Event S)} {peer : Bool → Peer S} {flight : Multiset (Bool × Bytes)}
  {x : Bool} {p' : Peer S}

/-- Events in which no handshake is begun are nothing to the exchange. -/
theorem Represented.idle (h : Represented ends magic past peer flight) {es : List (Event S)}
    (h_none : initiatedIn es = []) : Represented ends magic (past ++ es) peer flight := by
  obtain ⟨a, h_reach, h_peers, h_begun⟩ := h
  refine ⟨a, h_reach, h_peers, fun hs => ?_⟩
  rw [initiatedIn_append, h_none, List.append_nil, h_begun]

/-- Changing a peer in what does not matter to handshakes. -/
theorem Represented.same (h : Represented ends magic past peer flight)
    (h_same : (peer x).SameHandshake p') :
    Represented ends magic past (Function.update peer x p') flight := by
  obtain ⟨a, h_reach, h_peers, h_begun⟩ := h
  refine ⟨a, h_reach, ?_, h_begun⟩
  exact h_peers.update x ((h_peers.party x).congr h_same rfl rfl subset_rfl) rfl rfl subset_rfl
    h_peers.flight

/-- A handshake is begun that never was before. -/
theorem Represented.initiate (h : Represented ends magic past peer flight) {hs : S.HandshakeState}
    {m pad : Bytes} (h_idle : (peer x).handshake = none) (hw : S.Wrote hs m)
    (h_magic : p'.magic = (peer x).magic) (h_active : p'.activeState = (peer x).activeState)
    (h_handshake : p'.handshake = some hs)
    (h_last : p'.lastHandshakePacket = some ((peer x).magic.handshakeInit :: (m ++ pad)))
    (hf : (initiatedIn (past ++ [.initiated hs])).Nodup) :
    Represented ends magic (past ++ [.initiated hs]) (Function.update peer x p') flight := by
  obtain ⟨a, h_reach, h_peers, h_begun⟩ := h
  have h_party := h_peers.party x
  -- ephemeral keys are fresh, so the handshake state is a new one
  have h_new : hs ∉ a.begun := by
    rw [h_begun]
    intro h_old
    rw [initiatedIn_append, List.nodup_append] at hf
    exact hf.2.2 _ h_old _ (by simp [initiatedIn]) rfl
  have h_step := Step.initiate a x hs (h_party.pending.trans h_idle) h_new
  refine ⟨_, h_reach.step (orderly_step h_step fun _ _ h' => by cases h'), ?_, ?_⟩
  · refine h_peers.update x ?_ (by simp) rfl (Set.subset_insert _ _) h_peers.flight
    refine ⟨h_magic.trans h_party.magic_eq, by simp [h_handshake], ?_, ?_⟩
    · rw [h_active]
      exact h_party.active
    · -- what would be retransmitted from now on is this initiation
      intro packet hp
      rw [h_last] at hp
      obtain rfl := Option.some.inj hp
      refine ⟨hs, Set.mem_insert _ _, ?_⟩
      rw [h_party.magic_eq]
      exact .init _ hs m pad hw
  · intro k
    rw [initiatedIn_append, List.mem_append, ← h_begun]
    simp [initiatedIn, or_comm]

/-- The packet last prepared goes on its way, perhaps once more. -/
theorem Represented.send (h : Represented ends magic past peer flight) {packet : Bytes}
    (h_last : (peer x).lastHandshakePacket = some packet) :
    Represented ends magic past peer ((!x, packet) ::ₘ flight) := by
  obtain ⟨a, h_reach, h_peers, h_begun⟩ := h
  obtain ⟨hs, h_mem, h_carried⟩ := (h_peers.party x).last packet h_last
  have h_step := orderly_step (Step.send a (!x) hs h_mem) fun _ _ h' => by cases h'
  refine ⟨_, h_reach.step h_step, ⟨fun y => ?_, ?_⟩, h_begun⟩
  · exact (h_peers.party y).congr (.refl _) rfl rfl subset_rfl
  · exact Multiset.Rel.cons h_carried h_peers.flight

/-- A dead peer's sessions are cleared. -/
theorem Represented.clear (h : Represented ends magic past peer flight) (x : Bool) :
    Represented ends magic past
      (Function.update peer x { peer x with active := none, previous := none }) flight := by
  obtain ⟨a, h_reach, h_peers, h_begun⟩ := h
  have h_party := h_peers.party x
  have h_step := orderly_step (Step.clear a x) fun _ _ h' => by cases h'
  refine ⟨_, h_reach.step h_step, ?_, h_begun⟩
  refine h_peers.update x ?_ rfl (by simp) subset_rfl h_peers.flight
  refine ⟨h_party.magic_eq, h_party.pending, ?_, h_party.last⟩
  simp [Peer.activeState]

end Moves

/-- **A handshake step of one peer** is a step of the exchange, or none. -/
theorem Represented.step {past es : List (Event S)} {peer : Bool → Peer S}
    {flight : Multiset (Bool × Bytes)} (h : Represented ends magic past peer flight) {x : Bool}
    {p p' : Peer S} (hp : peer x = p) (hs : HandshakeStep p es p')
    (hf : (initiatedIn (past ++ es)).Nodup) :
    Represented ends magic (past ++ es) (Function.update peer x p') (flight + outgoing x es) := by
  subst hp
  cases hs with
  | quiet h_same hes =>
    rw [outgoing_of_noHandshake x hes, add_zero]
    exact (h.same h_same).idle (initiatedIn_of_noHandshake hes)
  | initiate hs m pad h_idle hw h_magic h_active h_handshake h_last =>
    -- it is not sent yet
    have h_out : outgoing x ([.initiated hs] : List (Event S)) = 0 := rfl
    rw [h_out, add_zero]
    exact h.initiate h_idle hw h_magic h_active h_handshake h_last hf
  | send packet dest h_last =>
    have h_out : flight + outgoing x ([.sentHandshake packet dest] : List (Event S))
        = (!x, packet) ::ₘ flight := by
      rw [add_comm]
      rfl
    rw [h_out, Function.update_eq_self]
    exact (h.send h_last).idle rfl
  | clear =>
    have h_out : outgoing x ([] : List (Event S)) = 0 := rfl
    rw [h_out, add_zero]
    exact (h.clear x).idle rfl

/-- A run of handshake steps of one peer. -/
theorem Represented.run {past es : List (Event S)} {peer : Bool → Peer S}
    {flight : Multiset (Bool × Bytes)} (h : Represented ends magic past peer flight) {x : Bool}
    {p p' : Peer S} (hp : peer x = p) (hrun : Emits (handshakeSystem S) p es p')
    (hf : (initiatedIn (past ++ es)).Nodup) :
    Represented ends magic (past ++ es) (Function.update peer x p') (flight + outgoing x es) := by
  -- along the run, the events of the peer so far
  have h_start : (initiatedIn past).Nodup → ∃ es', past = past ++ es' ∧
      Represented ends magic past (Function.update peer x p) (flight + outgoing x es') := by
    refine fun _ => ⟨[], by simp, ?_⟩
    subst hp
    rw [Function.update_eq_self]
    simpa [outgoing, handshakesIn] using h
  have h_run := hrun.induct (fun hist q => (initiatedIn hist).Nodup → ∃ es', hist = past ++ es' ∧
    Represented ends magic hist (Function.update peer x q) (flight + outgoing x es')) h_start ?_ hf
  · obtain ⟨es', h_eq, h_repr⟩ := h_run
    obtain rfl := List.append_cancel_left h_eq
    exact h_repr
  · intro hist q es' q' ih hs hf'
    obtain ⟨es₁, rfl, h_repr⟩ := ih (nodup_initiated_of_append hf')
    refine ⟨es₁ ++ es', by simp, ?_⟩
    have h_next := h_repr.step (Function.update_self ..) hs hf'
    rwa [Function.update_idem, add_assoc, ← outgoing_append] at h_next

/-! ### What a node does with a packet -/

/-- `Link.Open`, for two peers and the packets between them. -/
def OpenPeers (magic : MagicConfig) (peer : Bool → Peer S) (flight : Multiset (Bool × Bytes)) :
    Prop :=
  (∀ y payload, (y, magic.handshakeResp :: payload) ∈ flight →
    ∀ hs, (peer y).handshake = some hs → (S.readHandshake hs (payload.take 48)).1 = false) ∧
  ∃ y, (peer y).handshake.isSome

/-- An initiation may be taken in by a node only if one may be in the exchange. -/
theorem PeersOf.open (h_ik : S.IdealIK ends) {peer : Bool → Peer S}
    {flight : Multiset (Bool × Bytes)} {a : Exchange S} (h : PeersOf ends magic peer flight a)
    (h_open : OpenPeers magic peer flight) : a.Open := by
  obtain ⟨h_none, y, hy⟩ := h_open
  refine ⟨?_, y, by rw [(h.party y).pending]; exact hy⟩
  rintro m hm ⟨z, hs, t, rfl, hz⟩
  obtain ⟨packet, h_mem, h_carried⟩ :=
    Multiset.exists_mem_of_rel_of_mem (Multiset.rel_flip.mpr h.flight) hm
  cases h_carried with
  | resp _ _ _ m pad h_replied =>
    -- the pending handshake would read it
    obtain ⟨hs', t', h_read, -, -⟩ := h_ik.completes hs m t h_replied
    have h_take : (m ++ pad).take 48 = m := List.take_left' (h_ik.length_response hs m t h_replied)
    have h_false := h_none z _ h_mem hs ((h.party z).pending.symm.trans hz)
    rw [h_take, h_read] at h_false
    cases h_false

/-- A packet that is dropped is one that is lost. -/
theorem Represented.lose {past : List (Event S)} {peer : Bool → Peer S}
    {flight : Multiset (Bool × Bytes)} (h : Represented ends magic past peer flight)
    {packet : Bool × Bytes} (h_mem : packet ∈ flight) :
    Represented ends magic past peer (flight.erase packet) := by
  obtain ⟨a, h_reach, h_peers, h_begun⟩ := h
  have h_flight := h_peers.flight
  rw [← Multiset.cons_erase h_mem] at h_flight
  obtain ⟨m, rest, -, h_rest, h_a⟩ := Multiset.rel_cons_left.mp h_flight
  refine ⟨_, h_reach.step (orderly_step (Step.lose a m rest h_a) nofun), ⟨?_, h_rest⟩, h_begun⟩
  exact fun y => (h_peers.party y).congr (.refl _) rfl rfl subset_rfl

/-- The initiation of a pending handshake is read from a padded packet as it was written. -/
theorem readInitiation_padded (h_ik : S.IdealIK ends) {hs : S.HandshakeState} {m : Bytes}
    (h : S.Wrote hs m) (localPriv pad : Bytes) :
    Snow.readInitiation (S := S) localPriv (m ++ pad) = Snow.readInitiation localPriv m := by
  have h_len := h_ik.length_initiation hs m h
  unfold Snow.readInitiation
  rw [List.take_left' h_len, List.take_of_length_le h_len.le]

/-- The exchange a packet with the type byte of an initiation belongs to. -/
theorem Carried.initiation {x : Bool} {payload : Bytes}
    {c : KeyExchange.Message S.HandshakeState S.Transport}
    (h_type : magic.handshakeResp ≠ magic.handshakeInit)
    (h : Carried S magic (x, magic.handshakeInit :: payload) c) :
    ∃ hs m pad, payload = m ++ pad ∧ S.Wrote hs m ∧ c = .init x hs := by
  generalize hp : (x, magic.handshakeInit :: payload) = packet at h
  cases h with
  | init _ hs m pad hw =>
    simp only [Prod.mk.injEq, List.cons.injEq, true_and] at hp
    obtain ⟨rfl, rfl⟩ := hp
    exact ⟨hs, m, pad, rfl, hw, rfl⟩
  | resp _ hs t m pad hr =>
    exact absurd (List.cons.inj (Prod.ext_iff.mp hp).2).1.symm h_type

/-- The exchange a packet with the type byte of a response belongs to. -/
theorem Carried.response {x : Bool} {payload : Bytes}
    {c : KeyExchange.Message S.HandshakeState S.Transport}
    (h_type : magic.handshakeResp ≠ magic.handshakeInit)
    (h : Carried S magic (x, magic.handshakeResp :: payload) c) :
    ∃ hs f m pad, payload = m ++ pad ∧ S.Replied hs m f ∧ c = .resp x hs f := by
  generalize hp : (x, magic.handshakeResp :: payload) = packet at h
  cases h with
  | init _ hs m pad hw =>
    exact absurd (List.cons.inj (Prod.ext_iff.mp hp).2).1 h_type
  | resp _ hs f m pad hr =>
    simp only [Prod.mk.injEq, List.cons.injEq, true_and] at hp
    obtain ⟨rfl, rfl⟩ := hp
    exact ⟨hs, f, m, pad, rfl, hr, rfl⟩

/-- The message of a packet on its way, and the other ones. -/
theorem PeersOf.carried {peer : Bool → Peer S} {flight : Multiset (Bool × Bytes)} {a : Exchange S}
    (h : PeersOf ends magic peer flight a) {packet : Bool × Bytes} (h_mem : packet ∈ flight) :
    ∃ c rest, Carried S magic packet c ∧
      Multiset.Rel (Carried S magic) (flight.erase packet) rest ∧ a.flight = c ::ₘ rest := by
  have h_flight := h.flight
  rw [← Multiset.cons_erase h_mem] at h_flight
  exact Multiset.rel_cons_left.mp h_flight

/-- An initiation on its way is answered. -/
theorem Represented.answer (h_ik : S.IdealIK ends) {past : List (Event S)} {peer : Bool → Peer S}
    {flight : Multiset (Bool × Bytes)} {x : Bool} {payload : Bytes} {p' : Peer S}
    (h : Represented ends magic past peer flight)
    (h_mem : (x, magic.handshakeInit :: payload) ∈ flight) (h_open : OpenPeers magic peer flight)
    (h_type : magic.handshakeResp ≠ magic.handshakeInit) {localPriv remote msg pad : Bytes}
    {hs' : S.HandshakeState} {eph : S.Eph} {f : S.Transport}
    (hr : S.readInitiation localPriv payload = some (hs', remote))
    (hw : S.writeResponse hs' eph = some (msg, f)) (h_magic : p'.magic = (peer x).magic)
    (h_active : p'.activeState = some f) (h_handshake : p'.handshake = (peer x).handshake)
    (h_last : p'.lastHandshakePacket = (peer x).lastHandshakePacket) :
    Represented ends magic past (Function.update peer x p')
      ((!x, magic.handshakeResp :: (msg ++ pad)) ::ₘ
        flight.erase (x, magic.handshakeInit :: payload)) := by
  obtain ⟨a, h_reach, h_peers, h_begun⟩ := h
  obtain ⟨c, rest, h_carried, h_rest, h_a⟩ := h_peers.carried h_mem
  obtain ⟨hs, m, pad', rfl, h_wrote, rfl⟩ := h_carried.initiation h_type
  rw [readInitiation_padded h_ik h_wrote] at hr
  have h_replied : S.Replied hs msg f := ⟨m, _, hs', _, _, h_wrote, hr, hw⟩
  have h_answer := Step.answer a x hs f rest h_a
  refine ⟨_, h_reach.step ⟨h_answer, fun _ _ _ => h_peers.open h_ik h_open⟩, ?_, h_begun⟩
  refine h_peers.update x ?_ rfl (by simp) subset_rfl (.cons (.resp _ hs f msg _ h_replied) h_rest)
  -- the responder's end becomes active, and what is pending stays so
  have h_party := h_peers.party x
  refine ⟨h_magic.trans h_party.magic_eq, h_party.pending.trans h_handshake.symm, ?_, ?_⟩
  · rw [h_active]
    simp [EndOf]
  · rw [h_last]
    exact h_party.last

/-- **The turn of an initiation** on its way is an answer in the exchange, or the packet is lost. -/
theorem Represented.initTurn (h_ik : S.IdealIK ends) {past es : List (Event S)}
    {peer : Bool → Peer S} {flight : Multiset (Bool × Bytes)} {x : Bool} {pm : PeerManager S}
    {source : Option SocketAddr} {payload : Bytes} {now : Instant} {l' : List (Peer S)}
    (h : Represented ends magic past peer flight)
    (h_mem : (x, magic.handshakeInit :: payload) ∈ flight) (h_open : OpenPeers magic peer flight)
    (h_type : magic.handshakeResp ≠ magic.handshakeInit) (h_node : pm.peers = [peer x])
    (h_magic : pm.magic = magic) (h_turn : InitTurn pm source payload now es l') :
    ∃ p', l' = [p'] ∧ Represented ends magic (past ++ es) (Function.update peer x p')
      (flight.erase (x, magic.handshakeInit :: payload) + outgoing x es) := by
  have h_lost := h.lose h_mem
  cases h_turn with
  | nobody =>
    refine ⟨peer x, h_node, ?_⟩
    simpa [outgoing, handshakesIn] using h_lost
  | reached l₁ l₂ p hl hs' hr d out h_out dest =>
    rw [h_node] at hl
    -- the node has one peer
    obtain ⟨rfl, rfl, rfl⟩ : l₁ = [] ∧ p = peer x ∧ l₂ = [] := by
      cases l₁ <;> simp_all
    have h_same := (peer x).noted_sameHandshake source now
    cases h_out with
    | failed =>
      refine ⟨_, rfl, ?_⟩
      simpa [outgoing, handshakesIn, Peer.sendHandshake] using h_lost.same h_same
    | installed msg f hw =>
      refine ⟨_, rfl, ?_⟩
      have h_out : ∀ rest : Multiset (Bool × Bytes), rest + outgoing x
          ([.installed f] ++ Peer.sendHandshake
            (some (pm.magic.handshakeResp :: (msg ++ d.handshakePad.val))) (some dest))
          = (!x, magic.handshakeResp :: (msg ++ d.handshakePad.val)) ::ₘ rest := by
        intro rest
        rw [h_magic, add_comm]
        rfl
      rw [h_out]
      refine Represented.idle ?_ rfl
      exact h.answer h_ik h_mem h_open h_type hr hw h_same.magic rfl h_same.handshake
        h_same.lastHandshakePacket

/-- A response on its way is read by the pending handshake. -/
theorem Represented.accept (h_ik : S.IdealIK ends) {past : List (Event S)} {peer : Bool → Peer S}
    {flight : Multiset (Bool × Bytes)} {x : Bool} {payload : Bytes} {now t : Instant}
    {out : Outcome S (Option Bytes) (Peer S)} (h : Represented ends magic past peer flight)
    (h_mem : (x, magic.handshakeResp :: payload) ∈ flight)
    (h_type : magic.handshakeResp ≠ magic.handshakeInit)
    (h_out : (peer x).Answered payload now out) {hs : S.HandshakeState}
    (h_pending : (peer x).handshake = some hs)
    (h_read : (S.readHandshake hs (payload.take 48)).1 = true) :
    Represented ends magic (past ++ out.events)
      (Function.update peer x { out.state with lastDirectRx := t })
      (flight.erase (x, magic.handshakeResp :: payload) + outgoing x out.events) := by
  obtain ⟨a, h_reach, h_peers, h_begun⟩ := h
  obtain ⟨c, rest, h_carried, h_rest, h_a⟩ := h_peers.carried h_mem
  obtain ⟨hs₀, f, m, pad, rfl, h_replied, rfl⟩ := h_carried.response h_type
  have h_take : (m ++ pad).take 48 = m := List.take_left' (h_ik.length_response _ _ _ h_replied)
  obtain ⟨hs₁, t₁, h_reads, h_into, h_ends⟩ := h_ik.completes _ _ _ h_replied
  -- the handshake it is read by is the one it answers
  rw [h_take] at h_read
  obtain rfl := h_ik.binds hs hs₀ m h_read (by rw [h_reads])
  obtain rfl := Peer.answered_completed h_out h_pending (by rw [h_take]; exact h_reads) h_into
  have h_party := h_peers.party x
  have h_accept := Step.accept a x hs f rest h_a (h_party.pending.trans h_pending)
  refine ⟨_, h_reach.step (orderly_step h_accept fun _ _ h' => by cases h'), ?_, ?_⟩
  · refine h_peers.update x ⟨h_party.magic_eq, by simp, ?_, ?_⟩ (by simp) (by simp) subset_rfl ?_
    · simpa [Peer.activeState, Peer.install, ActiveSession.fresh, EndOf] using h_ends
    · intro packet h_last
      cases h_last
    · simpa [outgoing, handshakesIn] using h_rest
  · intro k
    rw [initiatedIn_append, List.mem_append, ← h_begun]
    simp [initiatedIn]

/-- **The turn of a response** on its way is the acceptance of an answer in the exchange, or the
packet is lost. -/
theorem Represented.respTurn (h_ik : S.IdealIK ends) {past es : List (Event S)}
    {peer : Bool → Peer S} {flight : Multiset (Bool × Bytes)} {x : Bool} {pm : PeerManager S}
    {direct : Bool} {payload : Bytes} {now : Instant} {l' : List (Peer S)}
    (h : Represented ends magic past peer flight)
    (h_mem : (x, magic.handshakeResp :: payload) ∈ flight)
    (h_type : magic.handshakeResp ≠ magic.handshakeInit) (h_node : pm.peers = [peer x])
    (h_turn : RespTurn pm direct payload now es l') :
    ∃ p', l' = [p'] ∧ Represented ends magic (past ++ es) (Function.update peer x p')
      (flight.erase (x, magic.handshakeResp :: payload) + outgoing x es) := by
  have h_lost := h.lose h_mem
  cases h_turn with
  -- nobody is at the address it came from
  | nobody =>
    refine ⟨peer x, h_node, ?_⟩
    simpa [outgoing, handshakesIn] using h_lost
  | reached l₁ l₂ p hl out h_out t ht =>
    rw [h_node] at hl
    obtain ⟨rfl, rfl, rfl⟩ : l₁ = [] ∧ p = peer x ∧ l₂ = [] := by
      cases l₁ <;> simp_all
    refine ⟨_, rfl, ?_⟩
    by_cases h_read : ∃ hs, (peer x).handshake = some hs ∧
        (S.readHandshake hs (payload.take 48)).1 = true
    · obtain ⟨hs, h_pending, h_read⟩ := h_read
      exact h.accept h_ik h_mem h_type h_out h_pending h_read
    · -- a response that is not read leaves the peer as it was
      obtain ⟨h_state, h_events⟩ := Peer.answered_of_unauthentic h_ik.restores h_out (by
        intro hs hhs
        by_contra h_not
        exact h_read ⟨hs, hhs, by simpa using h_not⟩)
      rw [h_state, h_events]
      have h_same : (peer x).SameHandshake { peer x with lastDirectRx := t } :=
        ⟨rfl, rfl, rfl, rfl⟩
      simpa [outgoing, handshakesIn] using h_lost.same h_same

/-! ### Runs -/

/-- The two nodes have these peers, and these packet types. -/
def Link.Peers (s : Link S) (magic : MagicConfig) (peer : Bool → Peer S) : Prop :=
  ∀ x, (s.node x).peers = [peer x] ∧ (s.node x).magic = magic

/-- After a history, the link is as some exchange has it that orderly runs reach. -/
def Link.Represents (ends : S.Transport → S.Transport → Prop) (magic : MagicConfig)
    (past : List (Event S)) (s : Link S) : Prop :=
  ∃ peer, s.Peers magic peer ∧ Represented ends magic past peer s.flight

/-- A turn leaves the other node as it was. -/
theorem Link.Peers.turn {s : Link S} {peer : Bool → Peer S} (h : s.Peers magic peer)
    (hasRelay : Bool → Bool) {x : Bool} (now : Instant) {task : DaemonTask S} {p' : Peer S}
    (h_turn : ((s.node x).step (hasRelay x) now task).2.peers = [p'])
    (rest : Multiset (Bool × Bytes)) :
    (s.turn hasRelay x now task rest).Peers magic (Function.update peer x p') := by
  intro y
  by_cases hyx : y = x
  · subst hyx
    simp only [Link.turn, Function.update_self]
    exact ⟨h_turn, ((s.node y).step_config (hasRelay y) now task).2.trans (h y).2⟩
  · simp only [Link.turn, Function.update_of_ne hyx]
    exact h y

/-- A link as it starts represents the exchange with nothing begun. -/
theorem Link.Represents.init {s : Link S} {localPriv pubkey : Bool → Bytes}
    {endpoint : Bool → Option SocketAddr} {allowedIps : Bool → List Ipv4Subnet}
    {now : Bool → Instant} (h_flight : s.flight = 0)
    (h_node : ∀ x, s.node x = PeerManager.new (localPriv x)
      [Peer.new (pubkey x) (endpoint x) (allowedIps x) (now x)] magic) :
    s.Represents ends magic [] := by
  -- the nodes have one peer each, and give it their packet types
  refine ⟨fun x => { Peer.new (pubkey x) (endpoint x) (allowedIps x) (now x) with magic := magic },
    ?_, ⟨fun _ => none, fun _ => none, 0, ∅⟩, ?_, ⟨?_, ?_⟩, ?_⟩
  · intro x
    rw [h_node x]
    exact ⟨rfl, rfl⟩
  · exact ⟨_, [], ⟨rfl, rfl, rfl, rfl⟩, .refl⟩
  · exact fun x => ⟨rfl, rfl, .none, nofun⟩
  · rw [h_flight]
    exact .zero
  · simp [initiatedIn]

/-- **The step lemma.** -/
theorem Link.Represents.step (h_ik : S.IdealIK ends)
    (h_type : magic.handshakeResp ≠ magic.handshakeInit) {hasRelay : Bool → Bool}
    {past : List (Event S)} {s s' : Link S} {l : LinkLabel S} (h : s.Represents ends magic past)
    (h_step : (orderlyLink S hasRelay).step s l s')
    (h_eph : (initiatedIn (past ++ l.events)).Nodup) :
    s'.Represents ends magic (past ++ l.events) := by
  obtain ⟨peer, h_peers, h_repr⟩ := h
  obtain ⟨h_step, h_orderly⟩ := h_step
  cases h_step with
  | own x now task ht =>
    -- the timer or the TUN reader
    obtain ⟨p', h_turn, h_run⟩ := PeerManager.own_steps (h_peers x).1 (hasRelay x) now ht
    have h_next := h_peers.turn hasRelay now (congrArg PeerManager.peers h_turn) s.flight
    exact ⟨_, h_next, h_repr.run rfl h_run h_eph⟩
  -- the network drops a packet of its own accord
  | lose x packet h_mem =>
    refine ⟨peer, h_peers, ?_⟩
    simpa [LinkLabel.events] using h_repr.lose h_mem
  | deliver x packet now task ht h_mem =>
    obtain ⟨a, -, h_of, -⟩ := id h_repr
    obtain ⟨c, -, h_carried, -, -⟩ := h_of.carried h_mem
    obtain ⟨h_node, h_magic⟩ := h_peers x
    -- it is an initiation or a response
    cases h_carried with
    | init _ hs m pad =>
      have h_open := h_orderly x _ _ rfl (by rw [h_magic]; rfl)
      -- what the nodes' peers are is what `peer` says
      have h_open : OpenPeers magic peer s.flight := by
        refine ⟨fun y payload h_resp hk h_pending => ?_, ?_⟩
        · refine h_open.1 y payload (by rw [(h_peers y).2]; exact h_resp) (peer y) ?_ hk h_pending
          simp [(h_peers y).1]
        · obtain ⟨y, p, hp, h_some⟩ := h_open.2
          rw [(h_peers y).1, List.mem_singleton] at hp
          exact ⟨y, hp ▸ h_some⟩
      have h_delivers : task.Delivers ((s.node x).magic.handshakeInit :: (m ++ pad)) := by
        rw [h_magic]
        exact ht
      have h_turn := (s.node x).step_init_delivered (hasRelay x) now h_delivers
      obtain ⟨p', hp', h_next⟩ := h_repr.initTurn h_ik h_mem h_open h_type h_node h_magic h_turn
      exact ⟨_, h_peers.turn hasRelay now hp' _, h_next⟩
    | resp _ hs f m pad =>
      have h_party := h_of.party x
      have h_delivers : task.Delivers ((s.node x).magic.handshakeResp :: (m ++ pad)) := by
        rw [h_magic]
        exact ht
      have h_turn := (s.node x).step_resp_delivered (hasRelay x) now
        (by simp [h_node, h_magic, h_party.magic_eq]) (by rwa [h_magic]) h_delivers
      obtain ⟨p', hp', h_next⟩ := h_repr.respTurn h_ik h_mem h_type h_node h_turn
      exact ⟨_, h_peers.turn hasRelay now hp' _, h_next⟩

/-- **The refinement.** Every state reached without overlapping handshakes represents one that the
abstract exchange reaches in an orderly run. -/
theorem represents_of_exec (h_ik : S.IdealIK ends) {hasRelay : Bool → Bool} {s₀ s : Link S}
    {ls : List (LinkLabel S)} (h_init : s₀.Initial) (h_run : Exec (orderlyLink S hasRelay) s₀ ls s)
    (h_eph : (initiatedIn (ls.flatMap (·.events))).Nodup) :
    ∃ magic, s.Represents ends magic (ls.flatMap (·.events)) := by
  obtain ⟨h_flight, magic, h_type, h_node⟩ := h_init
  choose localPriv pubkey endpoint allowedIps now h_node using h_node
  refine ⟨magic, h_run.induct (fun ls s => (initiatedIn (ls.flatMap (·.events))).Nodup →
    s.Represents ends magic (ls.flatMap (·.events))) ?_ ?_ h_eph⟩
  · exact fun _ => Link.Represents.init h_flight h_node
  · -- no handshake is begun twice in a part of the run either
    intro ls s l s' _ ih h_step h_eph
    rw [List.flatMap_append, List.flatMap_singleton] at h_eph ⊢
    exact (ih (nodup_initiated_of_append h_eph)).step h_ik h_type h_step h_eph

/-! ### Agreement -/

/-- Whatever `p` encrypts authenticates under the active session of `q`, at any time. -/
def Peer.HeardBy (p q : Peer S) : Prop :=
  ∀ payload d now c, (p.encryptPacket payload d now).result = some c →
    ∀ now', ∃ s padded, q.Authenticates c.packet.tail now' .active s padded

/-- The two ends of one session hear each other. -/
theorem Peer.heardBy_of_ends (h_ik : S.IdealIK ends) {p q : Peer S} {sp sq : ActiveSession S}
    (hp : p.active = some sp) (hq : q.active = some sq)
    (h : ends sp.state sq.state ∨ ends sq.state sp.state) : p.HeardBy q := by
  intro payload d now c hc now'
  have h_enc := p.encrypted payload d now
  generalize p.encryptPacket payload d now = out at h_enc hc
  cases h_enc with
  | inactive => cases hc
  | failed => cases hc
  | sent s ciphertext hs hw =>
    obtain rfl : s = sp := Option.some.inj (hs.symm.trans hp)
    obtain rfl := Option.some.inj hc
    have h_tag := h_ik.tag _ _ _ _ hw
    refine ⟨sq, padPayload payload d.dataPad, ⟨hq, nofun⟩, ?_, ?_⟩
    · simp only [List.tail_cons, List.length_append, length_toBE]
      omega
    · rw [List.tail_cons, packetNonce_toBE, List.drop_left' (length_toBE _ _)]
      exact h_ik.opens _ _ h _ _ _ hw

/-- **Session agreement.** In every state that a run without overlapping handshakes reaches and in
which nothing is pending and nothing on its way, two active sessions are the two ends of one Noise
exchange, and each side hears the other. -/
theorem sessions_agree {hasRelay : Bool → Bool} {s₀ s : Link S} {ls : List (LinkLabel S)}
    {a b : Peer S} {sa sb : ActiveSession S} (h_ik : S.IdealIK ends) (h_init : s₀.Initial)
    (h_run : Exec (orderlyLink S hasRelay) s₀ ls s)
    (h_eph : (initiatedIn (ls.flatMap (·.events))).Nodup) (h_quiet : s.Quiet)
    (ha : a ∈ (s.node false).peers) (hb : b ∈ (s.node true).peers) (hsa : a.active = some sa)
    (hsb : b.active = some sb) :
    (ends sa.state sb.state ∨ ends sb.state sa.state) ∧ a.HeardBy b ∧ b.HeardBy a := by
  obtain ⟨magic, peer, h_peers, e, h_reach, h_of, -⟩ := represents_of_exec h_ik h_init h_run h_eph
  rw [(h_peers false).1, List.mem_singleton] at ha
  rw [(h_peers true).1, List.mem_singleton] at hb
  subst ha hb
  -- the exchange is quiet too
  have h_pending : ∀ x, e.pending x = none := by
    intro x
    rw [(h_of.party x).pending]
    exact h_quiet.2 x _ (by rw [(h_peers x).1]; exact List.mem_singleton_self _)
  have h_flight : e.flight = 0 := by
    have h := h_of.flight
    rw [h_quiet.1] at h
    exact Multiset.rel_zero_left.mp h
  -- so the two parties have the two ends of one session
  obtain ⟨ea, h_ea, h_a⟩ := (h_of.party false).endOf hsa
  obtain ⟨eb, h_eb, h_b⟩ := (h_of.party true).endOf hsb
  obtain ⟨-, h_f, h_side⟩ := agree_of_quiet h_reach h_pending h_flight ea eb h_ea h_eb
  have h_ends : ends sa.state sb.state ∨ ends sb.state sa.state := by
    unfold EndOf at h_a h_b
    rw [h_side, h_f] at h_a
    -- one of the two is the responder's end
    cases h_eq : eb.initiator with
    | false =>
      rw [h_eq] at h_a h_b
      have h_b : sb.state = eb.f := h_b
      rw [h_b]
      exact Or.inl h_a
    | true =>
      rw [h_eq] at h_a h_b
      have h_a : sa.state = eb.f := h_a
      rw [h_a]
      exact Or.inr h_b
  exact ⟨h_ends, Peer.heardBy_of_ends h_ik hsa hsb h_ends,
    Peer.heardBy_of_ends h_ik hsb hsa h_ends.symm⟩

/-! ### Two runs of a link -/

namespace Symbolic

/-- An initiation says whose it is and to whom it is, and which ephemeral key it has. -/
theorem wrote {hs : Handshake} {m : Bytes} (h : symbolic.Wrote hs m) :
    ∃ a b e, hs = .pending a b e ∧ m = initiation a b e := by
  obtain ⟨localPriv, remotePub, hs₀, e, h_build, h_write⟩ := h
  -- the keys are those of symbolic parties
  obtain ⟨a, -, h_build⟩ := Option.bind_eq_some_iff.mp h_build
  obtain ⟨b, -, h_build⟩ := Option.bind_eq_some_iff.mp h_build
  obtain rfl : Handshake.initiator a b = hs₀ := Option.some.inj h_build
  obtain ⟨rfl, rfl⟩ := Prod.mk.inj (Option.some.inj h_write)
  exact ⟨a, b, e, rfl, rfl⟩

/-- A response repeats what the initiation said, with an ephemeral key of its own. -/
theorem replied {hs : Handshake} {m : Bytes} {t : Transport} (h : symbolic.Replied hs m t) :
    ∃ a b e f, hs = .pending a b e ∧ m = response a b e f ∧ t = ⟨false, a, b, e, f⟩ := by
  obtain ⟨m₀, localPriv, hs', remote, f, h_wrote, h_read, h_response⟩ := h
  obtain ⟨a, b, e, rfl, rfl⟩ := wrote h_wrote
  -- the responder has read this initiation
  have h_asked : hs' = .asked a b e := by
    obtain ⟨hs₁, h_build, h_read, -⟩ := Snow.readInitiation_eq_some h_read
    obtain ⟨c, -, rfl⟩ := Option.map_eq_some_iff.mp h_build
    rw [List.take_of_length_le (length_initiation a b e).le] at h_read
    rcases readHandshake_cases (.responder c) (initiation a b e) with
      heq | ⟨_, _, _, _, h_not, -, -⟩ | ⟨a', b', e', -, h_init, heq⟩
    · cases h_read.symm.trans heq
    · cases h_not
    · obtain ⟨rfl, rfl, rfl⟩ := initiation_inj h_init
      exact (Prod.mk.inj (h_read.symm.trans heq)).2
  subst h_asked
  obtain ⟨rfl, rfl⟩ := Prod.mk.inj (Option.some.inj h_response)
  exact ⟨a, b, e, f, rfl, rfl, rfl⟩

/-- The handshake a response answers reads it. -/
theorem readHandshake_response (a b : UInt8) (e f : UInt16) :
    readHandshake (.pending a b e) (response a b e f) = (true, .finished true a b e f) := by
  have h_field : UInt16.ofNat (fromBE (((response a b e f).drop 4).take 2)) = f := by
    have h_drop : (response a b e f).drop 4 = toBE 2 f.toNat ++ List.replicate 42 0 := by
      rw [response, List.append_assoc]
      exact List.drop_left' (by simp)
    rw [h_drop, List.take_left' (length_toBE _ _), fromBE_toBE f.toNat_lt]
    exact UInt16.ofNat_toNat
  unfold readHandshake
  dsimp only
  rw [h_field, if_pos rfl]

/-- The symbolic handshakes are ideal. -/
theorem idealIK : symbolic.IdealIK fun t t' : Transport => t' = t.flip where
  restores := restores
  binds := responseBinds
  length_initiation := by
    intro hs m h
    obtain ⟨a, b, e, -, rfl⟩ := wrote h
    exact length_initiation a b e
  length_response := by
    intro hs m t h
    obtain ⟨a, b, e, f, -, rfl, -⟩ := replied h
    exact length_response a b e f
  completes := by
    intro hs m t h
    obtain ⟨a, b, e, f, rfl, rfl, rfl⟩ := replied h
    exact ⟨_, ⟨true, a, b, e, f⟩, readHandshake_response a b e f, rfl, rfl⟩
  tag := by
    rintro (t : Transport) n pt c ⟨⟩
    rw [List.length_append, length_tag]
    exact Nat.le_add_left 16 pt.length
  opens := by
    rintro t t' h n pt c ⟨⟩
    have h_flip : t'.flip = t := by
      rcases h with rfl | rfl
      · cases t
        simp [Transport.flip]
      · rfl
    exact readMessage_of_flip h_flip n pt

/-- Only the other end hears what an end encrypts. -/
theorem flip_of_heardBy {p q : Peer symbolic} {t t' : Transport} (hp : p.activeState = some t)
    (hq : q.activeState = some t') (h : p.HeardBy q) : t' = t.flip := by
  obtain ⟨sp, h_sp, rfl⟩ := Option.map_eq_some_iff.mp hp
  obtain ⟨sq, h_sq, rfl⟩ := Option.map_eq_some_iff.mp hq
  have h_enc := p.encrypted [] (draw 0) 0
  generalize h_out : p.encryptPacket [] (draw 0) 0 = out at h_enc
  cases h_enc with
  | inactive h_none => exact absurd (h_none.symm.trans h_sp) nofun
  | failed s hs hw => cases hw
  | sent s ciphertext hs hw =>
    obtain rfl : s = sp := Option.some.inj (hs.symm.trans h_sp)
    -- the empty packet is heard by the active session
    obtain ⟨s', padded, h_auth⟩ := h [] (draw 0) 0 _ (by rw [h_out]) 0
    obtain rfl : s' = sq := Option.some.inj (h_auth.honours.1.symm.trans h_sq)
    have h_read := h_auth.read
    rw [List.tail_cons, Peer.packetNonce_toBE, List.drop_left' (length_toBE _ _)] at h_read
    refine keyCommitting _ _ s.txNonce ciphertext (by rw [h_read]; rfl) ?_
    rw [idealIK.opens s.state (Transport.flip s.state) (Or.inl rfl) _ _ _ hw]
    rfl

/-- A peer of the table has an active session with this transport state. -/
theorem exists_active {l : List (Peer symbolic)} {t : Transport}
    (h : some t ∈ l.map fun p => (p.activeState : Option Transport)) :
    ∃ p ∈ l, p.activeState = some t := by
  exact List.mem_map.mp h

/-- A node's own turn, or the arrival of a datagram. -/
inductive Move
  | timer (x : Bool) (now : Instant) (e : UInt16)
  | datagram (x : Bool) (packet : Bytes) (now : Instant) (e : UInt16)

def Move.Enabled (s : Link symbolic) : Move → Prop
  | .timer _ _ _ => True
  | .datagram x packet _ _ => (x, packet) ∈ s.flight

instance (s : Link symbolic) (m : Move) : Decidable (m.Enabled s) :=
  match m with
  | .timer _ _ _ => isTrue trivial
  | .datagram x packet _ _ => inferInstanceAs (Decidable ((x, packet) ∈ s.flight))

def Move.label (s : Link symbolic) : Move → LinkLabel symbolic
  | .timer x now e => .own x ((s.node x).step false now (.timer fun _ => (draw e, draw e))).1
  | .datagram x packet now e =>
    .deliver x packet ((s.node x).step false now (.udp packet peerAddr (draw e))).1

def Move.after (s : Link symbolic) : Move → Link symbolic
  | .timer x now e => s.turn (fun _ => false) x now (.timer fun _ => (draw e, draw e)) s.flight
  | .datagram x packet now e =>
    s.turn (fun _ => false) x now (.udp packet peerAddr (draw e)) (s.flight.erase (x, packet))

/-- A move that is enabled is a step of the link. -/
theorem Move.step {s : Link symbolic} {m : Move} (h : m.Enabled s) :
    (link symbolic fun _ => false).step s (m.label s) (m.after s) := by
  cases m with
  | timer x now e => exact .own x now _ trivial
  | datagram x packet now e => exact .deliver x packet now _ (Or.inl ⟨_, _, rfl⟩) h

/-- The labels of a run through the given moves. -/
def labels (s : Link symbolic) : List Move → List (LinkLabel symbolic)
  | [] => []
  | m :: ms => m.label s :: labels (m.after s) ms

/-- Each of the moves is enabled when it is made. -/
def Playable (s : Link symbolic) : List Move → Prop
  | [] => True
  | m :: ms => m.Enabled s ∧ Playable (m.after s) ms

instance decidablePlayable : (s : Link symbolic) → (ms : List Move) → Decidable (Playable s ms)
  | _, [] => isTrue trivial
  | s, m :: ms =>
    have := decidablePlayable (m.after s) ms
    inferInstanceAs (Decidable (m.Enabled s ∧ Playable (m.after s) ms))

theorem exec_moves {s : Link symbolic} {ms : List Move} (h : Playable s ms) :
    Exec (link symbolic fun _ => false) s (labels s ms) (ms.foldl Move.after s) := by
  induction ms generalizing s with
  | nil => exact .refl
  | cons m ms ih => exact .head (Move.step h.1) (ih h.2)

/-- The node `a` with the peer `b`. -/
def linkNode (a b : UInt8) : PeerManager symbolic :=
  PeerManager.new (key a) [Peer.new (key b) (some peerAddr) [] 0] MagicConfig.default

/-- Two nodes that know each other. -/
def idleLink : Link symbolic where
  node x := if x then linkNode 9 7 else linkNode 7 9
  flight := 0

theorem idleLink_initial : idleLink.Initial := by
  refine ⟨rfl, MagicConfig.default, by decide, fun x => ?_⟩
  cases x
  · exact ⟨key 7, key 9, some peerAddr, [], 0, rfl⟩
  · exact ⟨key 9, key 7, some peerAddr, [], 0, rfl⟩

/-- One node initiates, and the other one answers. -/
def sequential : List Move :=
  [.timer false 0 1, .datagram true (MagicConfig.default.handshakeInit :: initiation 7 9 1) 1 2,
    .datagram false (MagicConfig.default.handshakeResp :: response 7 9 1 2) 2 0]

/-- Both nodes initiate at the same time, and both answer. -/
def crossed : List Move :=
  [.timer false 0 1, .timer true 0 2,
    .datagram true (MagicConfig.default.handshakeInit :: initiation 7 9 1) 1 3,
    .datagram false (MagicConfig.default.handshakeInit :: initiation 9 7 2) 1 4,
    .datagram false (MagicConfig.default.handshakeResp :: response 7 9 1 3) 2 0,
    .datagram true (MagicConfig.default.handshakeResp :: response 9 7 2 4) 2 0]

end Symbolic

open Symbolic in
/-- After one handshake the two nodes hear each other. -/
theorem sessions_agree_sequential :
    let s := sequential.foldl Move.after idleLink
    ∃ a ∈ (s.node false).peers, ∃ b ∈ (s.node true).peers, a.HeardBy b ∧ b.HeardBy a := by
  intro s
  -- the initiation arrives while it is alone on its way
  have h_run :
      Exec (orderlyLink symbolic fun _ => false) idleLink (labels idleLink sequential) s := by
    refine .head ⟨Move.step trivial, nofun⟩ (.head ⟨Move.step (by decide +kernel), ?_⟩
      (.single ⟨Move.step (by decide +kernel), ?_⟩))
    · intro x packet es h h_type
      have h_flight : (Move.after idleLink (.timer false 0 1)).flight
          = {(true, MagicConfig.default.handshakeInit :: initiation 7 9 1)} := by
        decide +kernel
      refine ⟨fun y payload h_resp => ?_, false, ?_⟩
      · rw [h_flight, Multiset.mem_singleton] at h_resp
        have h_magic : ((Move.after idleLink (.timer false 0 1)).node y).magic
            = MagicConfig.default := by
          cases y <;> rfl
        rw [h_magic] at h_resp
        exact absurd (List.cons.inj (Prod.ext_iff.mp h_resp).2).1 (by decide)
      · decide +kernel
    · intro x packet es h h_type
      cases h
      exact absurd h_type (by decide +kernel)
  obtain ⟨a, ha, h_a⟩ := exists_active (l := (s.node false).peers) (t := ⟨true, 7, 9, 1, 2⟩)
    (by decide +kernel)
  obtain ⟨b, hb, h_b⟩ := exists_active (l := (s.node true).peers) (t := ⟨false, 7, 9, 1, 2⟩)
    (by decide +kernel)
  obtain ⟨sa, hsa, -⟩ := Option.map_eq_some_iff.mp h_a
  obtain ⟨sb, hsb, -⟩ := Option.map_eq_some_iff.mp h_b
  have h_quiet : s.Quiet := ⟨by decide +kernel, by decide +kernel⟩
  exact ⟨a, ha, b, hb, (sessions_agree idealIK idleLink_initial h_run (by decide +kernel) h_quiet
    ha hb hsa hsb).2⟩

open Symbolic in
/-- Without the condition on the run the two sessions need not belong together: after two
initiations that cross, each node has the initiator's end of its own exchange. -/
theorem sessions_disagree :
    let ls := labels idleLink crossed
    let s := crossed.foldl Move.after idleLink
    idleLink.Initial ∧ Exec (link symbolic fun _ => false) idleLink ls s ∧
      (initiatedIn (ls.flatMap (·.events))).Nodup ∧ (installedIn (ls.flatMap (·.events))).Nodup ∧
      s.Quiet ∧ ∃ a ∈ (s.node false).peers, ∃ b ∈ (s.node true).peers,
        a.activeState = some (⟨true, 7, 9, 1, 3⟩ : Transport) ∧
        b.activeState = some (⟨true, 9, 7, 2, 4⟩ : Transport) ∧ ¬ a.HeardBy b ∧ ¬ b.HeardBy a := by
  intro ls s
  have h_quiet : s.Quiet := ⟨by decide +kernel, by decide +kernel⟩
  -- each has the initiator's end of the exchange it began
  obtain ⟨a, ha, h_a⟩ := exists_active (l := (s.node false).peers) (t := ⟨true, 7, 9, 1, 3⟩)
    (by decide +kernel)
  obtain ⟨b, hb, h_b⟩ := exists_active (l := (s.node true).peers) (t := ⟨true, 9, 7, 2, 4⟩)
    (by decide +kernel)
  refine ⟨idleLink_initial, exec_moves (by decide +kernel), by decide +kernel, by decide +kernel,
    h_quiet, a, ha, b, hb, h_a, h_b, ?_, ?_⟩
  · exact fun h => absurd (flip_of_heardBy h_a h_b h) (by decide)
  · exact fun h => absurd (flip_of_heardBy h_b h_a h) (by decide)

end AraxMesh
