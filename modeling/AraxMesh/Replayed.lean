import AraxMesh.Unauthentic

/-!
# Replayed packets

What a node does with a packet it has already processed, from any address and on either path.

Data and responses are spent: a data packet is stopped by the replay window of the only session it
authenticates under (`step_data_replayed`), and a response by the handshake it answered being gone
(`Pending`). Initiations are not: the responder keeps no record of them, so a replayed one is
answered as a new one is. What that comes to is said for every field of the peer
(`Peer.AnsweredAt`): by UDP the endpoint becomes the address the replay came from, or nothing
changes at all.

`Pending` is to handshakes what `Owned` is to sessions. What pends was begun in the history, each
handshake once, and what has read an answer pends no more. That a failed read is undone
(`Snow.Restores`) is needed here, or a handshake might come to be one that has read an answer
already.
-/

namespace AraxMesh

open LTS FirstMatch

variable {S : Snow}

/-! ### Pending handshakes -/

/-- The handshake states begun in a history. -/
def initiatedIn (es : List (Event S)) : List S.HandshakeState :=
  es.filterMap fun
    | .initiated hs => some hs
    | _ => none

@[simp] theorem initiatedIn_append (es es' : List (Event S)) :
    initiatedIn (es ++ es') = initiatedIn es ++ initiatedIn es' := List.filterMap_append

/-- The pending handshakes of a table. -/
def pendingIn (l : List (Peer S)) : Multiset S.HandshakeState :=
  (l.map fun p => (↑p.handshake.toList : Multiset S.HandshakeState)).sum

@[simp] theorem pendingIn_append (l l' : List (Peer S)) :
    pendingIn (l ++ l') = pendingIn l + pendingIn l' := by
  simp [pendingIn]

@[simp] theorem pendingIn_cons (p : Peer S) (l : List (Peer S)) :
    pendingIn (p :: l) = ↑p.handshake.toList + pendingIn l := by
  simp [pendingIn]

/-- A handshake pends at some peer. -/
theorem mem_pendingIn {l : List (Peer S)} {hs : S.HandshakeState} :
    hs ∈ pendingIn l ↔ ∃ p ∈ l, p.handshake = some hs := by
  induction l with
  | nil => simp [pendingIn]
  | cons p l ih => simp [ih]

/-- With a peer its handshake goes. -/
theorem pendingIn_le_of_sublist {l l' : List (Peer S)} (h : l'.Sublist l) :
    pendingIn l' ≤ pendingIn l := by
  induction h with
  | slnil => rfl
  | cons p _ ih =>
    rw [pendingIn_cons]
    exact ih.trans (Multiset.le_add_left _ _)
  | cons_cons p _ ih =>
    rw [pendingIn_cons, pendingIn_cons]
    exact add_le_add le_rfl ih

/-- A step leaves pending what was pending or what it begins, and what it answers is no longer
pending at that peer. -/
theorem SessionStep.pending (h_restores : S.Restores) {p p' : Peer S} {es : List (Event S)}
    (h : SessionStep p es p') :
    ((↑p'.handshake.toList : Multiset S.HandshakeState)
      ≤ ↑(initiatedIn es) + ↑p.handshake.toList) ∧
    ∀ hs m, .answered hs m ∈ es → p.handshake = some hs ∧ p'.handshake = none ∧
      (S.readHandshake hs m).1 = true := by
  have h_same : ∀ {es : List (Event S)}, p'.handshake = p.handshake →
      (↑p'.handshake.toList : Multiset S.HandshakeState)
        ≤ ↑(initiatedIn es) + ↑p.handshake.toList := by
    intro es heq
    rw [heq]
    exact Multiset.le_add_left _ _
  cases h with
  | touch h hes => exact ⟨h_same h.handshake, fun hs m hm => (hes _ hm).elim⟩
  | initiate hs => exact ⟨Multiset.le_add_right _ _, by simp⟩
  | reject hs hs' m h hr =>
    -- what is put back is what was taken out
    have h_back := h_restores hs m (by rw [hr])
    rw [hr] at h_back
    exact ⟨h_same (by rw [h, ← h_back]), by simp⟩
  | abandon => exact ⟨Multiset.zero_le _, by simp⟩
  | respond => exact ⟨h_same rfl, by simp⟩
  | answer hs m t now h hr =>
    -- the handshake that read the response is gone afterwards
    refine ⟨Multiset.zero_le _, fun hs' m' hm => ?_⟩
    simp only [List.mem_cons, Event.answered.injEq, reduceCtorEq, List.not_mem_nil, or_false] at hm
    obtain ⟨rfl, rfl⟩ := hm
    exact ⟨h, rfl, hr⟩
  | forget => exact ⟨h_same rfl, by simp⟩
  | clear => exact ⟨h_same rfl, by simp⟩
  | encrypt => exact ⟨h_same (p.setSlot_handshake _ _), by simp⟩
  | send => exact ⟨h_same (p.setSlot_handshake _ _), by simp⟩
  | opened => exact ⟨h_same (p.setSlot_handshake _ _), by simp⟩

/-- Handshakes pend where the history began them, and those it answered pend no more. -/
structure Pending (past : List (Event S)) (l : List (Peer S)) : Prop where
  pending : pendingIn l ≤ ↑(initiatedIn past)
  answered : ∀ hs m, .answered hs m ∈ past →
    hs ∈ initiatedIn past ∧ hs ∉ pendingIn l ∧ (S.readHandshake hs m).1 = true

/-- What was not begun twice in a history was not begun twice before. -/
theorem nodup_initiated_of_append {past es : List (Event S)}
    (h : (initiatedIn (past ++ es)).Nodup) : (initiatedIn past).Nodup := by
  rw [initiatedIn_append] at h
  exact (List.nodup_append.mp h).1

/-- A step adds to the pending handshakes only what it begins. -/
theorem TableStep.pending_le {magic : MagicConfig} (h_restores : S.Restores)
    {es : List (Event S)} {l l' : List (Peer S)} (hs : TableStep magic l es l') :
    pendingIn l' ≤ ↑(initiatedIn es) + pendingIn l := by
  cases hs with
  | peer l₁ l₂ h =>
    simp only [pendingIn_append, pendingIn_cons]
    calc pendingIn l₁ + (_ + pendingIn l₂)
        ≤ pendingIn l₁ + ((↑(initiatedIn es) + _) + pendingIn l₂) :=
          add_le_add le_rfl (add_le_add (h.pending h_restores).1 le_rfl)
      _ = ↑(initiatedIn es) + (pendingIn l₁ + (_ + pendingIn l₂)) := by abel
  | quiet => exact Multiset.le_add_left _ _
  | remove h => exact (pendingIn_le_of_sublist h).trans (Multiset.le_add_left _ _)
  | add _ p _ _ hh =>
    -- a new peer has no handshake
    rw [pendingIn_append, pendingIn_cons, hh, add_comm]
    exact add_le_add (le_trans (le_of_eq (by simp [pendingIn])) (Multiset.zero_le _)) le_rfl

/-- **A step keeps what is said of the pending handshakes.** -/
theorem Pending.step {magic : MagicConfig} (h_restores : S.Restores) {past es : List (Event S)}
    {l l' : List (Peer S)} (h : Pending past l) (hf : (initiatedIn (past ++ es)).Nodup)
    (hs : TableStep magic l es l') : Pending (past ++ es) l' := by
  have h_le := hs.pending_le h_restores
  have h_nodup : (pendingIn l).Nodup := Multiset.nodup_of_le h.pending
    (Multiset.coe_nodup.mpr (nodup_initiated_of_append hf))
  refine ⟨?_, ?_⟩
  · rw [initiatedIn_append, ← Multiset.coe_add, add_comm]
    exact h_le.trans (add_le_add le_rfl h.pending)
  · intro hk m hm
    rw [initiatedIn_append, List.mem_append]
    rcases List.mem_append.mp hm with hm | hm
    · -- answered before: it is not begun a second time
      obtain ⟨h_mem, h_not, h_read⟩ := h.answered hk m hm
      refine ⟨Or.inl h_mem, fun h_pend => ?_, h_read⟩
      rcases Multiset.mem_add.mp (Multiset.mem_of_le h_le h_pend) with h_now | h_old
      · rw [initiatedIn_append, List.nodup_append] at hf
        exact hf.2.2 _ h_mem _ (Multiset.mem_coe.mp h_now) rfl
      · exact h_not h_old
    · -- answered now: it was pending at the peer that took the step
      cases hs with
      | @peer l₁ l₂ p p' _ h' =>
        obtain ⟨h_was, h_gone, h_read⟩ := (h'.pending h_restores).2 hk m hm
        have h_mem : hk ∈ pendingIn (l₁ ++ p :: l₂) := mem_pendingIn.mpr ⟨p, by simp, h_was⟩
        refine ⟨Or.inl (Multiset.mem_coe.mp (Multiset.mem_of_le h.pending h_mem)), ?_, h_read⟩
        -- it was pending in one place only
        rw [pendingIn_append, pendingIn_cons, h_was] at h_nodup
        rw [pendingIn_append, pendingIn_cons, h_gone]
        simp only [Option.toList_some, Option.toList_none, Multiset.coe_singleton,
          Multiset.coe_nil, zero_add] at h_nodup ⊢
        rw [add_left_comm, Multiset.singleton_add, Multiset.nodup_cons] at h_nodup
        exact h_nodup.1
      | quiet _ hes => exact (hes _ hm).elim
      | remove => cases hm
      | add => cases hm

/-- So does a run, -/
theorem Pending.run {magic : MagicConfig} (h_restores : S.Restores) {past es : List (Event S)}
    {l l' : List (Peer S)} (h : Pending past l) (hrun : Emits (table S magic) l es l')
    (hf : (initiatedIn (past ++ es)).Nodup) : Pending (past ++ es) l' := by
  refine hrun.induct (fun past l => (initiatedIn past).Nodup → Pending past l) (fun _ => h) ?_ hf
  intro past l es l' ih hs hf
  exact (ih (nodup_initiated_of_append hf)).step h_restores hf hs

/-- a table to begin with has none pending, -/
theorem Pending.init {magic : MagicConfig} {l : List (Peer S)} (h : (table S magic).init l) :
    Pending [] l where
  pending := by
    refine le_of_eq (Multiset.eq_zero_of_forall_notMem fun hs hm => ?_)
    obtain ⟨p, hp, hh⟩ := mem_pendingIn.mp hm
    exact absurd ((h p hp).2.2.1.symm.trans hh) (by simp)
  answered := by simp

/-- and the daemon makes runs of the table. -/
theorem pending_of_run {hasRelay : Bool} {pm₀ pm : PeerManager S} {ls : List (DaemonLabel S)}
    (h_restores : S.Restores) (h_init : pm₀.Initial) (h_run : Exec (daemon S hasRelay) pm₀ ls pm)
    (h_fresh : (initiatedIn (eventsOf ls)).Nodup) : Pending (eventsOf ls) pm.peers :=
  (Pending.init h_init.table).run h_restores (daemon_emits h_run).2 h_fresh

/-! ### What a replay may change -/

/-- The two peers have the same sessions, pending handshake, endpoint and times of traffic. -/
structure Peer.Untouched (p p' : Peer S) : Prop where
  active : p'.active = p.active
  previous : p'.previous = p.previous
  handshake : p'.handshake = p.handshake
  endpoint : p'.endpoint = p.endpoint
  lastRx : p'.lastRx = p.lastRx
  lastTx : p'.lastTx = p.lastTx
  lastDirectRx : p'.lastDirectRx = p.lastDirectRx

/-! ### Replays -/

/-- A data packet that was opened in the history is admitted by no session. -/
theorem not_admits_of_opened (h_key : S.KeyCommitting) {past : List (Event S)} {l : List (Peer S)}
    (h : Filtered past l) {p : Peer S} {payload : Bytes} {now : Instant} {k : Slot}
    {s : ActiveSession S} {padded : Bytes} (h_was : p.Admits payload now k s padded)
    (h_opened : .opened ⟨truncatePlaintext padded, s.state, Peer.packetNonce payload⟩ ∈ past)
    (now' : Instant) : ∀ q ∈ l, ¬ q.AdmitsSome payload now' := by
  rintro q hq ⟨k', s', padded', hadm⟩
  -- the session is the one that opened it, as no other can read it
  have hst : s'.state = s.state :=
    h_key.state_eq h_was.read hadm.read
  have h_seen : (Peer.packetNonce payload).toNat ∈ seenIn s'.state past :=
    mem_seenIn.mpr ⟨_, mem_openedIn.mpr h_opened, hst.symm, rfl⟩
  have h_rej := (h.window q hq k' s' hadm.honours.1).rejects h_seen
  rw [hadm.unspent] at h_rej
  cases h_rej

/-- A response that was read in the history is read by no pending handshake. -/
theorem not_read_of_answered (h_binds : S.ResponseBinds) {past : List (Event S)}
    {l : List (Peer S)} (h : Pending past l) {hk : S.HandshakeState} {m : Bytes}
    (h_answered : .answered hk m ∈ past) :
    ∀ q ∈ l, ∀ hs, q.handshake = some hs → (S.readHandshake hs m).1 = false := by
  intro q hq hs hhs
  obtain ⟨-, h_gone, h_read⟩ := h.answered hk m h_answered
  by_contra h_again
  obtain rfl := h_binds hs hk m (by simpa using h_again) h_read
  exact h_gone (mem_pendingIn.mpr ⟨q, hq, hhs⟩)

/-- The turn of a run in which a packet was processed, and what became of the packet then. -/
theorem handled_of_run {hasRelay : Bool} {pm₀ pm : PeerManager S} {ls : List (DaemonLabel S)}
    {l : DaemonLabel S} {packet : Bytes} (h_init : pm₀.Initial)
    (h_run : Exec (daemon S hasRelay) pm₀ ls pm) (h_past : l ∈ ls)
    (h_was : l.task.Carries packet) :
    ∃ pm₁ l', pm.magic = pm₁.magic ∧ Handled pm₁ l.task l.now packet l.events l' := by
  obtain ⟨ls₁, ls₂, rfl⟩ := List.append_of_mem h_past
  obtain ⟨pm₁, h_run₁, h_rest⟩ := h_run.split
  obtain ⟨pm₂, h_turn, h_run₂⟩ := h_rest.cut_first
  have h_turn : pm₁.step hasRelay l.now l.task = (l.events, pm₂) := h_turn
  have h_config := (pm₁.step_config hasRelay l.now l.task).2
  have h_first := pm₁.handled hasRelay l.now (peers_magic ⟨pm₀, ls₁, h_init, h_run₁⟩) h_was
  rw [h_turn] at h_config h_first
  exact ⟨pm₁, _, (daemon_emits h_run₂).1.trans h_config, h_first⟩

/-- **Replays.** A packet that a run of the daemon has processed arrives again, in any later state,
from any address and on either path.

* If it was a data packet that a session opened, nothing happens.
* If it was a response that a pending handshake read, nothing is sent or written, and nothing
  changes but, on the UDP path, `last_direct_rx`, which may be now.
* If it was an initiation that was answered, nothing is written and no peer changes but one with
  the static key it carries, which answers it as it would a new one (`Peer.AnsweredAt`). -/
theorem replay_effect {hasRelay : Bool} {pm₀ pm pm' : PeerManager S} {ls : List (DaemonLabel S)}
    {l : DaemonLabel S} {packet : Bytes} {now : Instant} {task : DaemonTask S}
    {es : List (Event S)} (h_restores : S.Restores) (h_key : S.KeyCommitting)
    (h_binds : S.ResponseBinds) (h_init : pm₀.Initial) (h_run : Exec (daemon S hasRelay) pm₀ ls pm)
    (h_fresh : (installedIn (eventsOf ls)).Nodup) (h_eph : (initiatedIn (eventsOf ls)).Nodup)
    (h_past : l ∈ ls) (h_was : l.task.Carries packet) (h_again : task.Carries packet)
    (h_step : pm.step hasRelay now task = (es, pm')) :
    ((∃ o, .opened o ∈ l.events) → es = [] ∧ pm' = pm) ∧
    ((∃ hs m, .answered hs m ∈ l.events) → es = [] ∧
      List.Forall₂ (fun p p' => ∃ t, p' = { p with lastDirectRx := t } ∧
        (t = p.lastDirectRx ∨ task.direct = true ∧ t = now)) pm.peers pm'.peers) ∧
    ((∃ t, .installed t ∈ l.events) → (∀ hs m, .answered hs m ∉ l.events) →
      writtenIn es = [] ∧
      List.Forall₂ (fun p p' => p' = p ∨
        (∃ hs, S.readInitiation pm.localPriv packet.tail = some (hs, p.pubkey)) ∧
          p.AnsweredAt task.source now p') pm.peers pm'.peers) := by
  have h_filtered := filtered_of_run h_init h_run h_fresh
  have h_pending := pending_of_run h_restores h_init h_run h_eph
  have h_magic := peers_magic ⟨pm₀, ls, h_init, h_run⟩
  obtain ⟨pm₁, l', h_same, h_first⟩ := handled_of_run h_init h_run h_past h_was
  have h_mem : ∀ {e : Event S}, e ∈ l.events → e ∈ eventsOf ls := fun he =>
    List.mem_flatMap.mpr ⟨l, h_past, he⟩
  refine ⟨?_, ?_, ?_⟩
  · -- the nonce is in the window of the session that opened it
    rintro ⟨o, ho⟩
    obtain ⟨payload, rfl, h_data, p, k, s, padded, hadm, rfl⟩ := h_first.of_opened ho
    have h_data' : task.BringsData pm.magic payload := by
      rw [h_same]
      exact ⟨h_data.1, h_data.2.1, h_again⟩
    have h_idle := pm.step_data hasRelay now h_data'
    rw [h_step] at h_idle
    obtain ⟨hes, hpeers⟩ := h_idle.idle
      (not_admits_of_opened h_key h_filtered hadm (h_mem ho) now)
    exact ⟨hes, PeerManager.eq_of_step h_step hpeers⟩
  · -- the handshake that read it pends no more
    rintro ⟨hs, m, ha⟩
    obtain ⟨payload, rfl, h_type, hs', ha'⟩ := h_first.of_answered ha
    rw [← h_same] at h_type h_again
    have h_resp := pm.step_resp hasRelay now h_magic h_type h_again
    rw [h_step] at h_resp
    exact h_resp.idle h_restores (not_read_of_answered h_binds h_pending (h_mem ha'))
  · -- an initiation is answered each time
    rintro ⟨t, ht⟩ h_not
    obtain ⟨payload, rfl⟩ := h_first.of_installed ht h_not
    rw [← h_same] at h_again
    have h_init' := pm.step_init hasRelay now h_again
    rw [h_step] at h_init'
    refine ⟨?_, h_init'.frame⟩
    -- none of its events is a write
    refine List.eq_nil_iff_forall_not_mem.mpr fun pt hpt => ?_
    rcases h_init'.mem_events (mem_writtenIn.mp hpt) with ⟨t, h⟩ | ⟨_, _, h⟩
    · cases h
    · cases h

namespace Symbolic

/-- Some other address. -/
def otherAddr : SocketAddr := .v4 (Ipv4Addr.ofOctets 10 0 0 66) 500

/-- The node answers an initiation and opens the first packet of the session. -/
def firstPacket : List (Instant × DaemonTask symbolic) :=
  [(0, .udp (initiationPacket 1) peerAddr (draw 2)),
    (1, .udp (dataPacket (nodeEnd 1 2) 0 ipv4Packet) peerAddr (draw 3))]

end Symbolic

open Symbolic in
/-- The data packet of a run, replayed from another address, does nothing. -/
theorem replay_effect_data :
    let after := (node.runTasks false firstPacket).2
    after.step false 2 (.udp (dataPacket (nodeEnd 1 2) 0 ipv4Packet) otherAddr (draw 4))
      = ([], after) := by
  intro after
  have h_opened : openedIn (node.runTasks false firstPacket).1[1].events ≠ [] := by decide +kernel
  obtain ⟨o, ho⟩ := List.exists_mem_of_ne_nil _ h_opened
  obtain ⟨hes, hpm⟩ := (replay_effect restores keyCommitting responseBinds node_initial
    (PeerManager.exec_runTasks node false firstPacket) (by decide +kernel) (by decide +kernel)
    (List.getElem_mem (n := 1) (by decide)) (Or.inl ⟨_, _, _, rfl, rfl⟩)
    (Or.inl ⟨otherAddr, draw 4, _, rfl, rfl⟩)
    (Prod.mk.eta.symm : after.step false 2 _ = _)).1 ⟨o, mem_openedIn.mp ho⟩
  exact Prod.ext hes hpm

open Symbolic in
/-- A replay can have an effect: a replayed initiation is answered again, and moves the endpoint to
where it came from. -/
theorem replay_has_effect :
    ¬ ∀ (pm₀ pm pm' : PeerManager symbolic) (ls : List (DaemonLabel symbolic))
      (l : DaemonLabel symbolic) (packet : Bytes) (now : Instant) (task : DaemonTask symbolic)
      (es : List (Event symbolic)), pm₀.Initial → Exec (daemon symbolic false) pm₀ ls pm →
      (installedIn (eventsOf ls)).Nodup → (initiatedIn (eventsOf ls)).Nodup → l ∈ ls →
      l.task.Carries packet → (∃ t, .installed t ∈ l.events) → task.Carries packet →
      pm.step false now task = (es, pm') →
      List.Forall₂ Peer.Untouched pm.peers pm'.peers ∧ writtenIn es = [] := by
  intro h
  let tasks := firstPacket.take 1
  have h_installed : installedIn (node.runTasks false tasks).1[0].events ≠ [] := by decide +kernel
  obtain ⟨t, ht⟩ := List.exists_mem_of_ne_nil _ h_installed
  obtain ⟨h_frame, -⟩ := h node (node.runTasks false tasks).2 _ (node.runTasks false tasks).1
    (node.runTasks false tasks).1[0] (initiationPacket 1) 1
    (.udp (initiationPacket 1) otherAddr (draw 3)) _ node_initial
    (PeerManager.exec_runTasks node false tasks) (by decide +kernel) (by decide +kernel)
    (List.getElem_mem (n := 0) (by decide)) (Or.inl ⟨_, _, _, rfl, rfl⟩)
    ⟨t, mem_installedIn.mp ht⟩ (Or.inl ⟨_, _, _, rfl, rfl⟩) Prod.mk.eta.symm
  have h_endpoints := List.forall₂_map_left_iff.mpr
    (List.forall₂_map_right_iff.mpr (h_frame.imp fun _ _ hp => hp.endpoint.symm))
  exact absurd (List.forall₂_eq_eq_eq ▸ h_endpoints) (by decide +kernel)

end AraxMesh
