import AraxMesh.Ledger
import AraxMesh.Symbolic

/-!
# Nonce uniqueness

No transport state of a run ever seals two packets with one nonce. The send counter of a session is
the number of encryptions attempted under its transport state (`Accounted.counter`), so it is above
every nonce that state has sealed with; a session that leaves the active slot never comes back to
it (`Retired`).

The assumptions are those on the run: no transport state is installed twice (completed handshakes
give fresh ones), and the counter does not come to its end.

1. An invariant of the history and the table, `Accounted`, is kept by every step. Each part asks
   where a session after the step comes from (`TableStep.origin`).
2. A nonce is not only a number in the history: `Sealed.Genuine` ties it to the bytes of the packet
   and to what the library was called with. That is a property of one step (`TableStep.genuine`).
3. The daemon is a run of the table (`daemon_emits`), so the run lemmas are about it as well.
-/

namespace AraxMesh

open LTS

variable {S : Snow} [DecidableEq S.Transport]

/-- The history accounts for the sessions of the table. -/
structure Accounted (past : List (Event S)) (l : List (Peer S)) : Prop extends Owned past l where
  counter : ∀ p ∈ l, ∀ k s, p.slot k = some s →
    s.txNonce.toNat = (encryptedIn past).count s.state
  sent : ∀ p ∈ l, ∀ k s, p.slot k = some s → ∀ c ∈ sentIn past, c.state = s.state →
    c.nonce < s.txNonce
  increasing : (sentIn past).Pairwise fun c c' => c.state = c'.state → c.nonce < c'.nonce

/-- Completed handshakes of the history gave fresh transport states, and none of these was used
for as many encryptions as there are nonces. -/
structure Disciplined (es : List (Event S)) : Prop where
  fresh : (installedIn es).Nodup
  bounded : ∀ t, (encryptedIn es).count t < 2 ^ 64 - 1

/-- What keeps to it later has kept to it before. -/
theorem Disciplined.of_append {es es' : List (Event S)} (h : Disciplined (es ++ es')) :
    Disciplined es where
  fresh := nodup_of_append h.fresh
  bounded := by
    intro t
    have := h.bounded t
    rw [encryptedIn_append, List.count_append] at this
    omega

/-! ### One step -/

/-- A step encrypts nothing under a transport state its events do not use. -/
theorem count_encryptedIn_of_not_uses {es : List (Event S)} {t : S.Transport}
    (h : ∀ e ∈ es, ¬ e.Uses t) : (encryptedIn es).count t = 0 := by
  rw [List.count_eq_zero]
  intro ht
  exact h _ (mem_encryptedIn.mp ht) rfl

omit [DecidableEq S.Transport] in
/-- Nor does it send anything under it. -/
theorem not_mem_sentIn_of_not_uses {es : List (Event S)} {t : S.Transport}
    (h : ∀ e ∈ es, ¬ e.Uses t) : ∀ c ∈ sentIn es, c.state ≠ t := by
  intro c hc hst
  obtain ⟨dest, he⟩ := mem_sentIn.mp hc
  exact h _ he hst

omit [DecidableEq S.Transport] in
/-- Quiet events encrypt nothing -/
theorem encryptedIn_of_quiet {es : List (Event S)} (h : ∀ e ∈ es, e.Quiet) :
    encryptedIn es = [] :=
  List.eq_nil_iff_forall_not_mem.mpr fun _ ht => h _ (mem_encryptedIn.mp ht)

omit [DecidableEq S.Transport] in
/-- and send nothing. -/
theorem sentIn_of_quiet {es : List (Event S)} (h : ∀ e ∈ es, e.Quiet) : sentIn es = [] := by
  refine List.eq_nil_iff_forall_not_mem.mpr fun c hc => ?_
  obtain ⟨dest, he⟩ := mem_sentIn.mp hc
  exact h _ he

omit [DecidableEq S.Transport] in
/-- A step encrypts at most once, under an active session, and sends at most what it encrypted,
with the send counter of that session. -/
theorem TableStep.encrypts {magic : MagicConfig} {l l' : List (Peer S)} {es : List (Event S)}
    (h : TableStep magic l es l') : (encryptedIn es = [] ∧ sentIn es = []) ∨
    ∃ p ∈ l, ∃ s, p.slot .active = some s ∧ encryptedIn es = [s.state] ∧
      (sentIn es = [] ∨ ∃ packet, sentIn es = [⟨packet, s.state, s.txNonce⟩]) := by
  cases h with
  | peer l₁ l₂ h =>
    cases h with
    | encrypt s len h => exact Or.inr ⟨_, by simp, s, h, rfl, Or.inl rfl⟩
    | send s len packet dest h _ => exact Or.inr ⟨_, by simp, s, h, rfl, Or.inr ⟨packet, rfl⟩⟩
    -- no other step encrypts
    | touch h hes => exact Or.inl ⟨encryptedIn_of_quiet hes, sentIn_of_quiet hes⟩
    | _ => exact Or.inl ⟨rfl, rfl⟩
  | quiet _ hes => exact Or.inl ⟨encryptedIn_of_quiet hes, sentIn_of_quiet hes⟩
  | remove => exact Or.inl ⟨rfl, rfl⟩
  | add => exact Or.inl ⟨rfl, rfl⟩

omit [DecidableEq S.Transport] in
/-- What a step sends is sealed by the library, under the nonce it carries. -/
theorem TableStep.genuine {magic : MagicConfig} {l l' : List (Peer S)} {es : List (Event S)}
    (h : TableStep magic l es l') : ∀ c ∈ sentIn es, c.Genuine := by
  have h_quiet : ∀ {es : List (Event S)}, sentIn es = [] → ∀ c ∈ sentIn es, c.Genuine := by
    intro es h_none c hc
    rw [h_none] at hc
    cases hc
  cases h with
  | peer l₁ l₂ h =>
    cases h with
    | send s len packet dest h h_genuine =>
      intro c hc
      obtain rfl : c = _ := List.mem_singleton.mp hc
      exact h_genuine
    -- no other step sends
    | touch h hes => exact h_quiet (sentIn_of_quiet hes)
    | _ => exact h_quiet rfl
  | quiet _ hes => exact h_quiet (sentIn_of_quiet hes)
  | remove => exact h_quiet rfl
  | add => exact h_quiet rfl

omit [DecidableEq S.Transport] in
/-- So is everything a run has sent. -/
theorem genuine_of_run {magic : MagicConfig} {l l' : List (Peer S)} {es : List (Event S)}
    (h_run : Emits (table S magic) l es l') : ∀ c ∈ sentIn es, c.Genuine := by
  have h_start : ∀ c ∈ sentIn ([] : List (Event S)), c.Genuine := by
    intro c hc
    cases hc
  refine h_run.induct (fun past _ => ∀ c ∈ sentIn past, c.Genuine) h_start ?_
  intro past l es l' ih h_step c hc
  rw [sentIn_append, List.mem_append] at hc
  exact hc.elim (ih c) (h_step.genuine c)

section Step

variable {magic : MagicConfig} {past es : List (Event S)} {l l' : List (Peer S)}

/-- The counter of a session that encrypts is not at its end. -/
theorem Accounted.room (h : Accounted past l) (hd : Disciplined (past ++ es)) {p : Peer S}
    (hp : p ∈ l) {k : Slot} {s : ActiveSession S} (hs : p.slot k = some s)
    (he : s.state ∈ encryptedIn es) : s.txNonce.toNat < 2 ^ 64 - 1 := by
  have h_bound := hd.bounded s.state
  have h_now := List.count_pos_iff.mpr he
  rw [encryptedIn_append, List.count_append, ← h.counter p hp k s hs] at h_bound
  omega

/-- A counter goes on counting the encryptions under its transport state. -/
theorem Accounted.step_counter (h : Accounted past l) (hd : Disciplined (past ++ es))
    (hs : TableStep magic l es l') : ∀ p ∈ l', ∀ k s, p.slot k = some s →
      s.txNonce.toNat = (encryptedIn (past ++ es)).count s.state := by
  intro p hp k s hps
  rw [encryptedIn_append, List.count_append]
  cases hs.origin (h.nodup hd.of_append.fresh) hp hps with
  | fresh t now ht hes =>
    -- a fresh session counts from zero, and its state was never used
    rw [ActiveSession.fresh_state,
      count_encryptedIn_of_not_uses (h.not_uses_of_fresh hd.fresh ht),
      count_encryptedIn_of_not_uses fun e he => hes e he t]
    rfl
  | kept hq k₀ _ s hq' hk hes =>
    rw [count_encryptedIn_of_not_uses hes, h.counter _ hq _ _ hq', add_zero]
  | encrypted hq s₀ len hq' hes =>
    have hone : (encryptedIn es).count s₀.state = 1 := by
      obtain rfl | ⟨packet, dest, rfl⟩ := hes <;> simp [encryptedIn]
    have hroom := h.room hd hq hq' (List.count_pos_iff.mp (by rw [hone]; exact one_pos))
    rw [Peer.toNat_advance_txNonce hroom, Peer.advance_state, hone, h.counter _ hq _ _ hq']
  | opened hq k₀ s₀ w n plaintext len hq' hw hes =>
    subst hes
    rw [ActiveSession.accept_state, ← h.counter _ hq _ _ hq']
    rfl

/-- It stays above the nonces that were sent under it. -/
theorem Accounted.step_sent (h : Accounted past l) (hd : Disciplined (past ++ es))
    (hs : TableStep magic l es l') : ∀ p ∈ l', ∀ k s, p.slot k = some s →
      ∀ c ∈ sentIn (past ++ es), c.state = s.state → c.nonce < s.txNonce := by
  intro p hp k s hps c hc hst
  rw [sentIn_append, List.mem_append] at hc
  cases hs.origin (h.nodup hd.of_append.fresh) hp hps with
  | fresh t now ht hes =>
    -- nothing was sent under what is installed now
    rcases hc with hc | hc
    · exact absurd hst (not_mem_sentIn_of_not_uses (h.not_uses_of_fresh hd.fresh ht) c hc)
    · exact absurd hst (not_mem_sentIn_of_not_uses (fun e he => hes e he t) c hc)
  | kept hq k₀ _ s hq' hk hes =>
    rcases hc with hc | hc
    · exact h.sent _ hq _ _ hq' c hc hst
    · exact absurd hst (not_mem_sentIn_of_not_uses hes c hc)
  | encrypted hq s₀ len hq' hes =>
    have hmem : s₀.state ∈ encryptedIn es := by
      obtain rfl | ⟨packet, dest, rfl⟩ := hes <;> simp [encryptedIn]
    -- the counter goes up by one, and does not wrap
    have hlt : s₀.txNonce < (Peer.advance s₀ len).txNonce := by
      rw [UInt64.lt_iff_toNat_lt, Peer.toNat_advance_txNonce (h.room hd hq hq' hmem)]
      exact Nat.lt_succ_self _
    rcases hc with hc | hc
    · exact UInt64.lt_trans (h.sent _ hq _ _ hq' c hc hst) hlt
    · obtain rfl | ⟨packet, dest, rfl⟩ := hes
      · cases hc
      · obtain rfl : c = _ := by simpa [sentIn] using hc
        exact hlt
  | opened hq k₀ s₀ w n plaintext len hq' hw hes =>
    subst hes
    rcases hc with hc | hc
    · exact h.sent _ hq _ _ hq' c hc hst
    · cases hc

/-- A packet sent now has the counter of its session, which is above all that was sent before. -/
theorem Accounted.step_increasing (h : Accounted past l) (hs : TableStep magic l es l') :
    (sentIn (past ++ es)).Pairwise fun c c' => c.state = c'.state → c.nonce < c'.nonce := by
  rw [sentIn_append, List.pairwise_append]
  refine ⟨h.increasing, ?_, ?_⟩
  · rcases hs.encrypts with ⟨-, hes⟩ | ⟨p, hp, s, hps, -, hes | ⟨packet, hes⟩⟩ <;> simp [hes]
  · intro c hc c' hc' hst
    rcases hs.encrypts with ⟨-, hes⟩ | ⟨p, hp, s, hps, -, hes | ⟨packet, hes⟩⟩
    · rw [hes] at hc'
      cases hc'
    · rw [hes] at hc'
      cases hc'
    · rw [hes, List.mem_singleton] at hc'
      subst hc'
      exact h.sent p hp _ s hps c hc hst

/-- **The step lemma.** -/
theorem Accounted.step (h : Accounted past l) (hd : Disciplined (past ++ es))
    (hs : TableStep magic l es l') : Accounted (past ++ es) l' where
  toOwned := h.toOwned.step hs
  counter := h.step_counter hd hs
  sent := h.step_sent hd hs
  increasing := h.step_increasing hs

end Step

/-! ### Runs -/

/-- A table without sessions is accounted for by the empty history. -/
theorem Accounted.init {magic : MagicConfig} {l : List (Peer S)} (h : (table S magic).init l) :
    Accounted [] l := by
  refine ⟨Owned.of_idle fun _ hp k => slot_of_init h hp k, ?_, ?_, List.Pairwise.nil⟩
  · intro p hp k s hs
    exact absurd ((slot_of_init h hp k).symm.trans hs) (by simp)
  · intro p hp k s hs
    exact absurd ((slot_of_init h hp k).symm.trans hs) (by simp)

/-- The run lemma. -/
theorem Accounted.run {magic : MagicConfig} {past es : List (Event S)} {l l' : List (Peer S)}
    (h : Accounted past l) (hrun : Emits (table S magic) l es l') (hd : Disciplined (past ++ es)) :
    Accounted (past ++ es) l' := by
  refine hrun.induct (fun past l => Disciplined past → Accounted past l) (fun _ => h) ?_ hd
  intro past l es l' ih hs hd
  exact (ih hd.of_append).step hd hs

/-- The transport state was in use, and is not active. -/
structure Retired (t : S.Transport) (past : List (Event S)) (l : List (Peer S)) : Prop where
  installed : t ∈ installedIn past
  inactive : ∀ p ∈ l, ∀ s, p.slot .active = some s → s.state ≠ t

/-- A step does not bring a retired transport state back: only what is installed becomes active. -/
theorem Retired.step {magic : MagicConfig} {t : S.Transport} {past es : List (Event S)}
    {l l' : List (Peer S)} (hr : Retired t past l) (h : Accounted past l)
    (hs : TableStep magic l es l') (hd : Disciplined (past ++ es)) :
    Retired t (past ++ es) l' ∧ t ∉ encryptedIn es ∧ ∀ c ∈ sentIn es, c.state ≠ t := by
  have hnd := h.nodup hd.of_append.fresh
  refine ⟨⟨?_, ?_⟩, ?_⟩
  · rw [installedIn_append]
    exact List.mem_append_left _ hr.installed
  · -- an active session after the step is fresh, or was active before
    intro p hp s hps
    generalize hk : Slot.active = k at hps
    cases hs.origin hnd hp hps with
    | fresh t' now ht hes =>
      rintro rfl
      exact not_installedIn_of_fresh hd.fresh ht hr.installed
    | kept hq k₀ _ s hq' hk' hes =>
      cases k₀ with
      | active => exact hr.inactive _ hq s hq'
      | previous => exact absurd (hk.trans (hk' rfl)) (by simp)
    | encrypted hq s₀ len hq' hes => exact hr.inactive _ hq s₀ hq'
    | opened hq k₀ s₀ w n plaintext len hq' hw hes =>
      subst hk
      exact hr.inactive _ hq s₀ hq'
  · -- only an active session encrypts
    rcases hs.encrypts with ⟨henc, hsent⟩ | ⟨p, hp, s, hps, henc, hsent⟩
    · simp [henc, hsent]
    · have hne := hr.inactive p hp s hps
      refine ⟨by simpa [henc] using hne.symm, ?_⟩
      rcases hsent with hsent | ⟨packet, hsent⟩ <;> simp [hsent, hne]

/-- **A retired transport state stays retired**, and encrypts nothing more. -/
theorem Retired.run {magic : MagicConfig} {t : S.Transport} {past es : List (Event S)}
    {l l' : List (Peer S)} (hr : Retired t past l) (h : Accounted past l)
    (hrun : Emits (table S magic) l es l') (hd : Disciplined (past ++ es)) :
    Retired t (past ++ es) l' ∧ t ∉ encryptedIn es ∧ ∀ c ∈ sentIn es, c.state ≠ t := by
  -- the whole history is accounted for along the way
  have h_init : Disciplined (past ++ []) → Accounted (past ++ []) l ∧ Retired t (past ++ []) l ∧
      t ∉ encryptedIn ([] : List (Event S)) ∧ ∀ c ∈ sentIn ([] : List (Event S)), c.state ≠ t := by
    intro _
    rw [List.append_nil]
    exact ⟨h, hr, by simp [encryptedIn], by simp [sentIn]⟩
  refine (hrun.induct (fun es l => Disciplined (past ++ es) →
    Accounted (past ++ es) l ∧ Retired t (past ++ es) l ∧ t ∉ encryptedIn es ∧
      ∀ c ∈ sentIn es, c.state ≠ t) h_init ?_ hd).2
  intro es l es' l' ih hs hd
  rw [← List.append_assoc] at hd ⊢
  obtain ⟨hacc, hret, henc, hsent⟩ := ih hd.of_append
  obtain ⟨hret', henc', hsent'⟩ := hret.step hacc hs hd
  refine ⟨hacc.step hd hs, hret', ?_, ?_⟩
  · rw [encryptedIn_append, List.mem_append]
    exact not_or.mpr ⟨henc, henc'⟩
  · intro c hc
    rw [sentIn_append, List.mem_append] at hc
    exact hc.elim (hsent c) (hsent' c)

/-- **Nonce uniqueness.** In a run of the daemon in which completed handshakes give fresh transport
states and none of these is used for `2 ^ 64 - 1` encryptions,

* a data packet carries its nonce behind the type byte, and behind the nonce what the library made
  of some plaintext under its transport state and that nonce;
* the data packets sent under one transport state carry strictly increasing nonces;
* a session that is a previous one at some point never encrypts afterwards and is never active
  again;
* a send counter only ever grows: wherever its transport state is found later. -/
theorem nonces_strictly_increase {hasRelay : Bool} {pm₀ pm₁ pm₂ : PeerManager S}
    {ls ms : List (DaemonLabel S)} (h_init : pm₀.Initial)
    (h₁ : Exec (daemon S hasRelay) pm₀ ls pm₁) (h₂ : Exec (daemon S hasRelay) pm₁ ms pm₂)
    (h_fresh : (installedIn (eventsOf (ls ++ ms))).Nodup)
    (h_bounded : ∀ t, (encryptedIn (eventsOf (ls ++ ms))).count t < 2 ^ 64 - 1) :
    (∀ c ∈ sentIn (eventsOf (ls ++ ms)), Peer.packetNonce (c.packet.drop 1) = c.nonce ∧
      ∃ plaintext, S.writeMessage c.state c.nonce plaintext = some (c.packet.drop 9)) ∧
    ((sentIn (eventsOf (ls ++ ms))).Pairwise fun c c' => c.state = c'.state → c.nonce < c'.nonce) ∧
    (∀ p ∈ pm₁.peers, ∀ s, p.previous = some s →
      s.state ∉ encryptedIn (eventsOf ms) ∧ (∀ c ∈ sentIn (eventsOf ms), c.state ≠ s.state) ∧
      ∀ q ∈ pm₂.peers, ∀ s', q.active = some s' → s'.state ≠ s.state) ∧
    (∀ p ∈ pm₁.peers, ∀ k s, p.slot k = some s → ∀ q ∈ pm₂.peers, ∀ k' s', q.slot k' = some s' →
      s'.state = s.state → s.txNonce ≤ s'.txNonce) := by
  have h_events : eventsOf (ls ++ ms) = eventsOf ls ++ eventsOf ms := List.flatMap_append
  rw [h_events] at h_fresh h_bounded ⊢
  have hd : Disciplined (eventsOf ls ++ eventsOf ms) := ⟨h_fresh, h_bounded⟩
  obtain ⟨hm₁, hrun₁⟩ := daemon_emits h₁
  obtain ⟨-, hrun₂⟩ := daemon_emits h₂
  have hacc₁ : Accounted (eventsOf ls) pm₁.peers := by
    have := (Accounted.init h_init.table).run hrun₁
    rw [List.nil_append] at this
    exact this hd.of_append
  have hacc₂ := hacc₁.run hrun₂ hd
  refine ⟨fun c hc => ?_, hacc₂.increasing, ?_, ?_⟩
  · -- the packet was sent before the moment of `pm₁`, or after it
    have h_genuine : c.Genuine := by
      rw [sentIn_append, List.mem_append] at hc
      exact hc.elim (genuine_of_run hrun₁ c) (genuine_of_run hrun₂ c)
    exact ⟨h_genuine.nonce, h_genuine.ciphertext⟩
  · intro p hp s hs
    have hnd := hacc₁.nodup hd.of_append.fresh
    -- the transport state of a previous session is no active session's
    have hret : Retired s.state (eventsOf ls) pm₁.peers := by
      refine ⟨?_, ?_⟩
      · have : s.state ∈ AraxMesh.live pm₁.peers := mem_live.mpr ⟨p, hp, .previous, s, hs, rfl⟩
        exact Multiset.mem_coe.mp (Multiset.mem_of_le hacc₁.live this)
      · intro q hq s' hs' hst
        obtain ⟨i, hi⟩ := List.mem_iff_getElem?.mp hp
        obtain ⟨j, hj⟩ := List.mem_iff_getElem?.mp hq
        have hk := (place_unique hnd hi hj (show p.slot .previous = some s from hs) hs' hst).2
        cases hk
    obtain ⟨hret', henc, hsent⟩ := hret.run hacc₁ hrun₂ hd
    exact ⟨henc, hsent, hret'.inactive⟩
  · -- a counter counts the encryptions of the history, which only grows
    intro p hp k s hs q hq k' s' hs' hst
    rw [UInt64.le_iff_toNat_le, hacc₁.counter p hp k s hs, hacc₂.counter q hq k' s' hs', hst,
      encryptedIn_append, List.count_append]
    exact Nat.le_add_right _ _

open Symbolic in
/-- A session is installed and used twice, a second one replaces it and is used once: the packets
sent are in order. -/
theorem nonces_strictly_increase_rekey :
    let before := node.runTasks false [(0, .udp (initiationPacket 1) peerAddr (draw 2)),
      (1, .tun ipv4Packet (draw 3)), (2, .tun ipv4Packet (draw 3)),
      (3, .udp (initiationPacket 4) peerAddr (draw 5))]
    let after := before.2.runTasks false [(4, .tun ipv4Packet (draw 6))]
    ((sentIn (eventsOf (before.1 ++ after.1))).map fun c => (c.state, c.nonce))
        = [(nodeEnd 1 2, 0), (nodeEnd 1 2, 1), (nodeEnd 4 5, 0)] ∧
      ((sentIn (eventsOf (before.1 ++ after.1))).Pairwise
        fun c c' => c.state = c'.state → c.nonce < c'.nonce) ∧
      ∀ c ∈ sentIn (eventsOf (before.1 ++ after.1)),
        Peer.packetNonce (c.packet.drop 1) = c.nonce := by
  refine ⟨by decide +kernel, ?_⟩
  obtain ⟨h_carried, h_increasing, -⟩ := nonces_strictly_increase node_initial
    (PeerManager.exec_runTasks node false [(0, .udp (initiationPacket 1) peerAddr (draw 2)),
      (1, .tun ipv4Packet (draw 3)), (2, .tun ipv4Packet (draw 3)),
      (3, .udp (initiationPacket 4) peerAddr (draw 5))])
    (PeerManager.exec_runTasks _ false [(4, .tun ipv4Packet (draw 6))]) (by decide +kernel)
    fun t => lt_of_le_of_lt List.count_le_length (by decide +kernel)
  exact ⟨h_increasing, fun c hc => (h_carried c hc).1⟩

end AraxMesh
