import AraxMesh.Nonces
import AraxMesh.PendingHandshakes

/-!
# What the timer keeps up

Every tick of the timer looks at the clocks of each peer: `last_rx` and `last_tx`, how old its
sessions are, when its handshake was last tried. `Peer.Upkept tick` is what holds of these after a
tick at time `tick`, and what the turns of all other tasks preserve until the next one
(`Tends.upkept`), as they never put a clock back. With ticks at most `D` apart this bounds the
clocks in every state of a run, whatever the other tasks do in between (`upkeep`).

A tick that finds `last_tx` ten seconds old seals a keepalive, which puts the clock on if the
library does seal it. The library refuses the last nonce there is and no other, and the nonce a
session is at is not ahead of the number of packets the run has encrypted under it
(`Peer.Counted`): a clock that is not put on belongs to a session that is worn out.

## Proof sketch

1. `Tends now p q` is what the turn of any other task can do to the clocks of a peer: each stays or
   is set to `now`, and a session is used or replaced, not lost. It is transitive, and each
   operation is an instance of it.
2. `Tends` keeps `Upkept tick` for a tick that is not in the future, field by field.
3. A tick has four parts. The first brings `Rekeyed` and `Forgot` about, the second `Heard`, the
   third `Spoke` and the last one `Tried`; the parts after it keep what a part has brought about,
   since they are turns like others (`timer_upkept`).
4. A run is ticks and other turns (`upkept_of_exec`, by induction on it). What is left is
   arithmetic: the clock is at most `D` ahead of the last tick (`Paced.clockOf_le`).
-/

namespace AraxMesh

open LTS FirstMatch

variable {S : Snow}

/-- A second of the clock. -/
def second : ℕ := 1000000000

theorem elapsedSecs_lt {now t n : ℕ} (hn : 0 < n) :
    elapsedSecs now t < n ↔ now < t + n * second := by
  rw [elapsedSecs, Nat.div_lt_iff_lt_mul (by decide), second]
  omega

theorem elapsedSecs_le {now t n : ℕ} :
    elapsedSecs now t ≤ n ↔ now < t + (n + 1) * second := by
  rw [← elapsedSecs_lt (Nat.succ_pos n), Nat.lt_succ_iff]

/-- A keepalive is sealed under every nonce but the last one. -/
def Snow.SealsKeepalives (S : Snow) : Prop :=
  ∀ t n, n.toNat < 2 ^ 64 - 1 → (S.writeMessage t n []).isSome

/-! ### What the send counters count -/

section Counters

variable [DecidableEq S.Transport]

namespace Peer

/-- No send counter is ahead of the encryptions of the history. -/
def Counted (past : List (Event S)) (p : Peer S) : Prop :=
  ∀ k s, p.slot k = some s → s.txNonce.toNat ≤ (encryptedIn past).count s.state

variable {past es : List (Event S)} {p p' : Peer S}

theorem Counted.of_none (h_active : p.active = none) (h_previous : p.previous = none)
    (past : List (Event S)) : p.Counted past := by
  intro k s hs
  cases k with
  | active => exact absurd (h_active.symm.trans hs) nofun
  | previous => exact absurd (h_previous.symm.trans hs) nofun

/-- A longer history has encrypted no less. -/
theorem Counted.mono (h : p.Counted past) (es : List (Event S)) : p.Counted (past ++ es) := by
  intro k s hs
  rw [encryptedIn_append, List.count_append]
  exact (h k s hs).trans (Nat.le_add_right _ _)

omit [DecidableEq S.Transport] in
/-- A counter goes up by one at most: at its end it wraps. -/
theorem toNat_advance_le (s : ActiveSession S) (len : ℕ) :
    (advance s len).txNonce.toNat ≤ s.txNonce.toNat + 1 := by
  change (s.txNonce + 1).toNat ≤ _
  rw [UInt64.toNat_add]
  exact Nat.mod_le _ _

theorem Counted.setSlot (h : p.Counted past) {k : Slot} {s : ActiveSession S}
    (hs : s.txNonce.toNat ≤ (encryptedIn past).count s.state) : (p.setSlot k s).Counted past := by
  intro k' s' hs'
  rw [slot_setSlot] at hs'
  split_ifs at hs' with hk
  · obtain rfl := Option.some.inj hs'
    exact hs
  · exact h k' s' hs'

/-- An encryption is counted, by the session and by the history. -/
theorem Counted.advance (h : p.Counted past) {s : ActiveSession S} (hs : p.active = some s)
    (len : ℕ) (h_es : encryptedIn es = [s.state]) :
    (p.setSlot .active (advance s len)).Counted (past ++ es) := by
  refine (h.mono es).setSlot ?_
  rw [advance_state, encryptedIn_append, h_es, List.count_append, List.count_singleton_self]
  exact (toNat_advance_le s len).trans (Nat.add_le_add_right (h .active s hs) 1)

/-- A new session has counted nothing. -/
theorem Counted.install (h : p.Counted past) (t : S.Transport) (now : Instant) :
    (p.install t now).Counted past := by
  intro k s hs
  cases k with
  | active =>
    obtain rfl := Option.some.inj hs
    exact Nat.zero_le _
  | previous =>
    have hs : (p.install t now).previous = some s := hs
    cases ha : p.active with
    | none =>
      rw [Peer.install, ha] at hs
      exact h .previous s hs
    | some a =>
      rw [Peer.install, ha] at hs
      exact h .active s (ha.trans hs)

/-- **A step keeps the counters behind the history.** -/
theorem Counted.step (h : p.Counted past) (h_step : SessionStep p es p') :
    p'.Counted (past ++ es) := by
  cases h_step with
  | touch h_same =>
    intro k s hs
    refine h.mono es k s ?_
    cases k with
    | active => exact h_same.active.symm.trans hs
    | previous => exact h_same.previous.symm.trans hs
  -- the sessions are as they were, or some of them are gone
  | initiate | reject | abandon => exact fun k s hs => h.mono _ k s (by cases k <;> exact hs)
  | forget =>
    intro k s hs
    cases k with
    | active => exact h.mono _ .active s hs
    | previous => cases hs
  | clear => exact fun k s hs => by cases k <;> cases hs
  -- the old session takes its counter along to the other slot
  | respond t now => exact (h.mono _).install t now
  | answer hs' m t now =>
    exact fun k s hs => (h.mono _).install t now k s (by cases k <;> exact hs)
  | encrypt s len hs => exact h.advance hs len rfl
  | send s len packet dest hs => exact h.advance hs len rfl
  | opened k s w n plaintext len hs => exact (h.mono _).setSlot (h.mono _ k s hs)

end Peer

/-- **No send counter of a run is ahead of what the run encrypted.** -/
theorem counted_of_run {magic : MagicConfig} {l l' : List (Peer S)} {es : List (Event S)}
    (h_init : (table S magic).init l) (h_run : Emits (table S magic) l es l') :
    ∀ p ∈ l', p.Counted es := by
  have h_start : ∀ p ∈ l, p.Counted [] := by
    intro p hp
    obtain ⟨h_active, h_previous, -⟩ := h_init p hp
    exact Peer.Counted.of_none h_active h_previous []
  refine h_run.induct (fun past l => ∀ p ∈ l, p.Counted past) h_start ?_
  intro past l es l' h h_step q hq
  cases h_step with
  | peer l₁ l₂ h_peer =>
    rcases List.mem_append.mp hq with hq | hq
    · exact (h q (List.mem_append_left _ hq)).mono es
    rcases List.mem_cons.mp hq with rfl | hq
    · exact (h _ (List.mem_append_right _ List.mem_cons_self)).step h_peer
    · exact (h q (List.mem_append_right _ (List.mem_cons_of_mem _ hq))).mono es
  | quiet => exact (h q hq).mono es
  | remove h_sub => exact (h q (h_sub.subset hq)).mono []
  | add _ p h_active h_previous =>
    rcases List.mem_append.mp hq with hq | hq
    · exact (h q hq).mono []
    · -- the peer that is added has no sessions
      obtain rfl := List.mem_singleton.mp hq
      exact Peer.Counted.of_none h_active h_previous _

/-- As many encryptions as there are nonces were made under the session. -/
def WornIn (past : List (Event S)) (t : S.Transport) : Prop :=
  2 ^ 64 - 1 ≤ (encryptedIn past).count t

theorem WornIn.mono {past : List (Event S)} {t : S.Transport} (h : WornIn past t)
    (es : List (Event S)) : WornIn (past ++ es) t := by
  unfold WornIn
  rw [encryptedIn_append, List.count_append]
  exact Nat.le_add_right_of_le h

/-- A session whose keepalive is not sealed is worn out. -/
theorem Peer.Counted.worn (h_seals : S.SealsKeepalives) {past : List (Event S)} {p : Peer S}
    (h : p.Counted past) {a : ActiveSession S} (ha : p.active = some a)
    (h_write : S.writeMessage a.state a.txNonce [] = none) : WornIn past a.state := by
  refine (Nat.le_of_not_lt fun h_room => ?_).trans (h .active a ha)
  have h_some := h_seals a.state a.txNonce h_room
  rw [h_write] at h_some
  cases h_some

end Counters

namespace Peer

/-! ### The clocks of a peer -/

/-- A peer with a session was heard in the last 15 seconds. -/
def Heard (tick : Instant) (p : Peer S) : Prop :=
  p.active.isSome → tick < p.lastRx + 15 * second

/-- The `last_tx` of a peer with a session is of the last 10 seconds, or the session is `worn`. -/
def Spoke (tick : Instant) (worn : S.Transport → Prop) (p : Peer S) : Prop :=
  ∀ a, p.active = some a → tick < p.lastTx + 10 * second ∨ worn a.state

/-- A session of more than 120 whole seconds is being replaced. -/
def Rekeyed (tick : Instant) (p : Peer S) : Prop :=
  ∀ a, p.active = some a → tick < a.establishedAt + 121 * second ∨ p.handshake.isSome

/-- The previous session is younger than 15 seconds, or was only just replaced. -/
def Forgot (tick : Instant) (p : Peer S) : Prop :=
  ∀ s, p.previous = some s → ∃ a, p.active = some a ∧
    (tick < s.establishedAt + 15 * second ∨ tick ≤ a.establishedAt)

/-- A pending handshake was tried in the last two seconds. -/
def Tried (tick : Instant) (p : Peer S) : Prop :=
  p.handshake.isSome → ∃ t, p.lastHandshakeAttempt = some t ∧ tick < t + 2 * second

/-- What a tick at this time leaves. -/
structure Upkept (tick : Instant) (worn : S.Transport → Prop) (p : Peer S) : Prop where
  heard : p.Heard tick
  spoke : p.Spoke tick worn
  rekeyed : p.Rekeyed tick
  forgot : p.Forgot tick
  tried : p.Tried tick

/-- What happens to the clocks of a peer between two ticks: each stays where it is or is set to
`now`, and sessions are used and replaced but not lost. -/
structure Tends (now : Instant) (p q : Peer S) : Prop where
  active : ∀ a, q.active = some a →
    (∃ b, p.active = some b ∧ a.state = b.state ∧ a.establishedAt = b.establishedAt) ∨
      a.establishedAt = now ∧ q.lastRx = now ∧ q.lastTx = now
  stays : p.active.isSome → q.active.isSome
  previous : ∀ s, q.previous = some s →
    (∃ s', p.previous = some s' ∧ s.establishedAt = s'.establishedAt) ∨
      ∃ a, q.active = some a ∧ a.establishedAt = now
  lastRx : q.lastRx = p.lastRx ∨ q.lastRx = now
  lastTx : q.lastTx = p.lastTx ∨ q.lastTx = now
  pending : p.handshake.isSome →
    q.handshake.isSome ∨ ∃ a, q.active = some a ∧ a.establishedAt = now
  attempt : q.handshake.isSome →
    p.handshake.isSome ∧ q.lastHandshakeAttempt = p.lastHandshakeAttempt ∨
      q.lastHandshakeAttempt = some now

variable {tick now : Instant} {worn worn' : S.Transport → Prop} {p q r : Peer S}

/-- A session that is worn may be taken for one that is. -/
theorem Upkept.mono (h : p.Upkept tick worn) (h_worn : ∀ t, worn t → worn' t) :
    p.Upkept tick worn' where
  heard := h.heard
  spoke a ha := (h.spoke a ha).imp_right (h_worn a.state)
  rekeyed := h.rekeyed
  forgot := h.forgot
  tried := h.tried

/-- A turn that keeps sessions, handshake and clocks. -/
theorem Tends.of_eq (now : Instant) (ha : q.active = p.active) (hp : q.previous = p.previous)
    (hh : q.handshake = p.handshake) (ht : q.lastHandshakeAttempt = p.lastHandshakeAttempt)
    (h_rx : q.lastRx = p.lastRx) (h_tx : q.lastTx = p.lastTx) : p.Tends now q where
  active a h := Or.inl ⟨a, ha.symm.trans h, rfl, rfl⟩
  stays h := ha.symm ▸ h
  previous s h := Or.inl ⟨s, hp.symm.trans h, rfl⟩
  lastRx := Or.inl h_rx
  lastTx := Or.inl h_tx
  pending h := Or.inl (hh.symm ▸ h)
  attempt h := Or.inl ⟨hh ▸ h, ht⟩

theorem Tends.refl (now : Instant) (p : Peer S) : p.Tends now p :=
  .of_eq now rfl rfl rfl rfl rfl rfl

/-- A session that is new stays new. -/
theorem Tends.active_new (h : p.Tends now q) {a : ActiveSession S} (ha : p.active = some a)
    (h_new : a.establishedAt = now) : ∃ b, q.active = some b ∧ b.establishedAt = now := by
  obtain ⟨b, hb⟩ := Option.isSome_iff_exists.mp (h.stays (by rw [ha]; rfl))
  refine ⟨b, hb, ?_⟩
  rcases h.active b hb with ⟨a', ha', -, h_est⟩ | ⟨h_est, -⟩
  · obtain rfl := Option.some.inj (ha.symm.trans ha')
    exact h_est.trans h_new
  · exact h_est

/-- Two operations of one turn. What the first has set to `now` the second may only set there
again. -/
theorem Tends.trans (h : p.Tends now q) (h' : q.Tends now r) : p.Tends now r where
  active a ha := by
    rcases h'.active a ha with ⟨b, hb, h_state, h_est⟩ | h_new
    · rcases h.active b hb with ⟨c, hc, h_state', h_est'⟩ | ⟨h_est', h_rx, h_tx⟩
      · exact Or.inl ⟨c, hc, h_state.trans h_state', h_est.trans h_est'⟩
      · -- the clocks are at `now` already
        refine Or.inr ⟨h_est.trans h_est', ?_, ?_⟩
        · exact h'.lastRx.elim (·.trans h_rx) id
        · exact h'.lastTx.elim (·.trans h_tx) id
    · exact Or.inr h_new
  stays ha := h'.stays (h.stays ha)
  previous s hs := by
    rcases h'.previous s hs with ⟨s', hs', h_est⟩ | h_new
    · rcases h.previous s' hs' with ⟨s'', hs'', h_est'⟩ | ⟨a, ha, h_new⟩
      · exact Or.inl ⟨s'', hs'', h_est.trans h_est'⟩
      · exact Or.inr (h'.active_new ha h_new)
    · exact Or.inr h_new
  lastRx := h'.lastRx.elim (fun h_eq => h.lastRx.imp h_eq.trans h_eq.trans) Or.inr
  lastTx := h'.lastTx.elim (fun h_eq => h.lastTx.imp h_eq.trans h_eq.trans) Or.inr
  pending hp := by
    rcases h.pending hp with hq | ⟨a, ha, h_new⟩
    · exact h'.pending hq
    · exact Or.inr (h'.active_new ha h_new)
  attempt hr := by
    rcases h'.attempt hr with ⟨hq, h_eq⟩ | h_now
    · exact (h.attempt hq).imp (fun h_old => ⟨h_old.1, h_eq.trans h_old.2⟩) h_eq.trans
    · exact Or.inr h_now

/-! ### Between two ticks -/

/-! Each of the five is kept for the same reason: a clock that moved is at `now`, which is not
before the tick. -/

theorem Tends.heard (h : p.Tends now q) (h_le : tick ≤ now) (hp : p.Heard tick) :
    q.Heard tick := by
  intro hq
  obtain ⟨a, ha⟩ := Option.isSome_iff_exists.mp hq
  rcases h.active a ha with ⟨b, hb, -⟩ | ⟨-, h_rx, -⟩
  · have h_before := hp (by rw [hb]; rfl)
    rcases h.lastRx with h_rx | h_rx
    · rwa [h_rx]
    · rw [h_rx]
      exact h_le.trans_lt (Nat.lt_add_of_pos_right (by decide))
  · rw [h_rx]
    exact h_le.trans_lt (Nat.lt_add_of_pos_right (by decide))

theorem Tends.spoke (h : p.Tends now q) (h_le : tick ≤ now) (hp : p.Spoke tick worn) :
    q.Spoke tick worn := by
  intro a ha
  rcases h.active a ha with ⟨b, hb, h_state, -⟩ | ⟨-, -, h_tx⟩
  · rw [h_state]
    -- the session is the same, and as worn as before
    refine (hp b hb).imp_left fun h_before => ?_
    rcases h.lastTx with h_tx | h_tx
    · rwa [h_tx]
    · rw [h_tx]
      exact h_le.trans_lt (Nat.lt_add_of_pos_right (by decide))
  · refine Or.inl ?_
    rw [h_tx]
    exact h_le.trans_lt (Nat.lt_add_of_pos_right (by decide))

theorem Tends.rekeyed (h : p.Tends now q) (h_le : tick ≤ now) (hp : p.Rekeyed tick) :
    q.Rekeyed tick := by
  intro a ha
  have h_new : a.establishedAt = now → tick < a.establishedAt + 121 * second := by
    intro h_est
    rw [h_est]
    exact h_le.trans_lt (Nat.lt_add_of_pos_right (by decide))
  rcases h.active a ha with ⟨b, hb, -, h_est⟩ | ⟨h_est, -⟩
  · rcases hp b hb with h_young | h_pending
    · exact Or.inl (by rwa [h_est])
    · -- the handshake goes on, or has just become the session
      refine (h.pending h_pending).symm.imp_left ?_
      rintro ⟨a', ha', h_est'⟩
      obtain rfl := Option.some.inj (ha.symm.trans ha')
      exact h_new h_est'
  · exact Or.inl (h_new h_est)

theorem Tends.forgot (h : p.Tends now q) (h_le : tick ≤ now) (hp : p.Forgot tick) :
    q.Forgot tick := by
  intro s hs
  rcases h.previous s hs with ⟨s', hs', h_est⟩ | ⟨a, ha, h_new⟩
  · -- it was the previous session before, beside an active one
    obtain ⟨b, hb, h_before⟩ := hp s' hs'
    obtain ⟨a, ha⟩ := Option.isSome_iff_exists.mp (h.stays (by rw [hb]; rfl))
    refine ⟨a, ha, ?_⟩
    rw [h_est]
    refine h_before.imp_right fun h_just => ?_
    rcases h.active a ha with ⟨b', hb', -, h_est'⟩ | ⟨h_est', -⟩
    · obtain rfl := Option.some.inj (hb.symm.trans hb')
      rwa [h_est']
    · rwa [h_est']
  · exact ⟨a, ha, Or.inr (h_new ▸ h_le)⟩

theorem Tends.tried (h : p.Tends now q) (h_le : tick ≤ now) (hp : p.Tried tick) :
    q.Tried tick := by
  intro hq
  rcases h.attempt hq with ⟨h_pending, h_eq⟩ | h_now
  · rw [h_eq]
    exact hp h_pending
  · exact ⟨now, h_now, h_le.trans_lt (Nat.lt_add_of_pos_right (by decide))⟩

/-- **Between two ticks** everything that the first of them left is kept. -/
theorem Tends.upkept (h : p.Tends now q) (h_le : tick ≤ now) (hp : p.Upkept tick worn) :
    q.Upkept tick worn where
  heard := h.heard h_le hp.heard
  spoke := h.spoke h_le hp.spoke
  rekeyed := h.rekeyed h_le hp.rekeyed
  forgot := h.forgot h_le hp.forgot
  tried := h.tried h_le hp.tried

/-- A peer without sessions and handshake has nothing to keep up. -/
theorem Sessionless.upkept (h : p.Sessionless) (tick : Instant) (worn : S.Transport → Prop) :
    p.Upkept tick worn where
  heard h_active := by
    rw [h.active] at h_active
    exact absurd h_active Bool.false_ne_true
  spoke a ha := absurd (h.active.symm.trans ha) nofun
  rekeyed a ha := absurd (h.active.symm.trans ha) nofun
  forgot s hs := absurd (h.previous.symm.trans hs) nofun
  tried h_pending := by
    rw [h.handshake] at h_pending
    exact absurd h_pending Bool.false_ne_true

/-! ### The operations, one by one -/

theorem checkRotation_tends (p : Peer S) (now : Instant) : p.Tends now (p.checkRotation now).2 := by
  rcases p.checkRotation_cases now with h_eq | ⟨s, -, -, h_eq⟩
  · rw [h_eq]
    exact .refl now p
  · rw [h_eq]
    exact ⟨fun a h => Or.inl ⟨a, h, rfl, rfl⟩, id, nofun, Or.inl rfl, Or.inl rfl, Or.inl,
      fun h => Or.inl ⟨h, rfl⟩⟩

/-- A packet that is sealed sets `last_tx`, one that is not leaves it. -/
theorem encryptAndSend_tends (p : Peer S) (payload : Bytes) (hasRelay : Bool) (d : Draw S)
    (now : Instant) : p.Tends now (p.encryptAndSend payload hasRelay d now).2.2 := by
  have h := p.encrypted payload d now
  unfold encryptAndSend
  generalize p.encryptPacket payload d now = out at h ⊢
  cases h with
  | inactive => exact .refl now p
  | failed s h =>
    refine ⟨?_, fun _ => rfl, fun s h => Or.inl ⟨s, h, rfl⟩, Or.inl rfl, Or.inl rfl, Or.inl,
      fun h => Or.inl ⟨h, rfl⟩⟩
    rintro _ ⟨⟩
    exact Or.inl ⟨s, h, rfl, rfl⟩
  | sent s ciphertext h =>
    refine ⟨?_, fun _ => rfl, fun s h => Or.inl ⟨s, h, rfl⟩, Or.inl rfl, Or.inr rfl, Or.inl,
      fun h => Or.inl ⟨h, rfl⟩⟩
    rintro _ ⟨⟩
    exact Or.inl ⟨s, h, rfl, rfl⟩

theorem initiateAndSend_tends (p : Peer S) (localPriv : Bytes) (hasRelay : Bool) (d : Draw S)
    (now : Instant) : p.Tends now (p.initiateAndSend localPriv hasRelay d now).2 := by
  have h := p.initiated localPriv d now
  unfold initiateAndSend
  generalize p.initiateHandshake localPriv d now = out at h ⊢
  cases h with
  | failed => exact .refl now p
  | begun =>
    exact ⟨fun a h => Or.inl ⟨a, h, rfl, rfl⟩, id, fun s h => Or.inl ⟨s, h, rfl⟩, Or.inl rfl,
      Or.inr rfl, fun _ => Or.inl rfl, fun _ => Or.inr rfl⟩

/-- The switch to a new session. -/
theorem install_tends (p : Peer S) (t : S.Transport) (now : Instant) :
    p.Tends now (p.install t now) := by
  refine ⟨?_, fun _ => rfl, fun _ _ => Or.inr ⟨_, rfl, rfl⟩, Or.inr rfl, Or.inr rfl, Or.inl,
    fun h => Or.inl ⟨h, rfl⟩⟩
  rintro _ ⟨⟩
  exact Or.inr ⟨rfl, rfl, rfl⟩

theorem respond_tends (p : Peer S) (hs : S.HandshakeState) (magic : MagicConfig) (d : Draw S)
    (now : Instant) : p.Tends now (p.respond hs magic d now).state := by
  have h := p.responded hs magic d now
  generalize p.respond hs magic d now = out at h ⊢
  cases h with
  | failed => exact .refl now p
  | installed msg t => exact p.install_tends t now

/-- A sound peer's handshake that has read a response is not given up. -/
theorem Sound.completes (h_completes : S.Completes) {localPriv m : Bytes}
    (h_sound : p.Sound localPriv) {hs hs' : S.HandshakeState} (h_pending : p.handshake = some hs)
    (h_read : S.readHandshake hs m = (true, hs')) : (S.intoTransport hs').isSome := by
  rcases h_sound.handshake with h_idle | ⟨hs₁, attempt, packet, h_dials⟩
  · exact absurd (h_idle.handshake.symm.trans h_pending) nofun
  · obtain rfl := Option.some.inj (h_dials.handshake.symm.trans h_pending)
    obtain ⟨msg, -, h_written, -⟩ := h_dials.written
    exact h_completes _ _ _ _ _ _ h_written h_read

/-- A handshake packet, where the library completes what it has read. -/
theorem handleHandshakePacket_tends (h_completes : S.Completes) {localPriv : Bytes}
    (h_sound : p.Sound localPriv) (priv : Bytes) (packetType : UInt8) (payload : Bytes)
    (d : Draw S) (now : Instant) :
    p.Tends now (p.handleHandshakePacket priv packetType payload d now).state := by
  have h := p.handled priv packetType payload d now
  generalize p.handleHandshakePacket priv packetType payload d now = out at h ⊢
  cases h with
  | ignored => exact .refl now p
  | responded hs => exact p.respond_tends hs p.magic d now
  | answered h_answered =>
    cases h_answered with
    | idle => exact .refl now p
    | rejected hs hs' h_pending =>
      refine ⟨fun a h => Or.inl ⟨a, h, rfl, rfl⟩, id, fun s h => Or.inl ⟨s, h, rfl⟩, Or.inl rfl,
        Or.inl rfl, fun _ => Or.inl rfl, fun _ => Or.inl ⟨?_, rfl⟩⟩
      rw [h_pending]
      rfl
    | abandoned hs hs' h_pending h_read h_into =>
      -- here a handshake would be lost without a session
      have h_some := h_sound.completes h_completes h_pending h_read
      rw [h_into] at h_some
      exact absurd h_some Bool.false_ne_true
    | completed hs hs' t =>
      have h_install := p.install_tends t now
      exact ⟨h_install.active, h_install.stays, h_install.previous, h_install.lastRx,
        h_install.lastTx, fun _ => Or.inr ⟨_, rfl, rfl⟩, nofun⟩

/-- A packet that is opened sets `last_rx`, under whichever session. -/
theorem acceptData_tends (p : Peer S) (payload : Bytes) (now : Instant) :
    p.Tends now (p.acceptData payload now).state := by
  have h := p.accepted payload now
  generalize p.acceptData payload now = out at h ⊢
  cases h with
  | ignored => exact .refl now p
  | opened k s padded w h_admits =>
    have h_slot : p.slot k = some s := h_admits.honours.1
    cases k with
    | active =>
      refine ⟨?_, fun _ => rfl, fun s h => Or.inl ⟨s, h, rfl⟩, Or.inr rfl, Or.inl rfl, Or.inl,
        fun h => Or.inl ⟨h, rfl⟩⟩
      rintro _ ⟨⟩
      exact Or.inl ⟨s, h_slot, rfl, rfl⟩
    | previous =>
      refine ⟨fun a h => Or.inl ⟨a, h, rfl, rfl⟩, id, ?_, Or.inr rfl, Or.inl rfl, Or.inl,
        fun h => Or.inl ⟨h, rfl⟩⟩
      rintro _ ⟨⟩
      exact Or.inl ⟨s, h_slot, rfl⟩

/-! ### A tick -/

/-- The active session is due for a rekey. -/
def due (p : Peer S) (now : Instant) : Bool :=
  p.active.any fun a => 120 < elapsedSecs now a.establishedAt || 1000000000 < a.txBytes

/-- The check of the rotation, in one piece. -/
theorem checkRotation_eq (p : Peer S) (now : Instant) : p.checkRotation now =
    (p.due now, { p with previous := p.previous.filter fun s => !graceOver s now }) := by
  unfold checkRotation due
  obtain ⟨pubkey, endpoint, allowedIps, active, previous⟩ := p
  cases previous with
  | none => cases active <;> rfl
  | some s =>
    rw [Option.filter_some]
    by_cases h_over : graceOver s now = true
    · cases active <;> simp [h_over]
    · cases active <;> simp [h_over]

/-- A session that does not seal a keepalive is worn. -/
def Wears (worn : S.Transport → Prop) (p : Peer S) : Prop :=
  ∀ a, p.active = some a → S.writeMessage a.state a.txNonce [] = none → worn a.state

theorem Wears.of_active (h : p.Wears worn) (h_active : q.active = p.active ∨ q.active = none) :
    q.Wears worn := by
  intro a ha
  rcases h_active with h_eq | h_none
  · exact h a (h_eq.symm.trans ha)
  · cases h_none.symm.trans ha

theorem initiateAndSend_active (p : Peer S) (localPriv : Bytes) (hasRelay : Bool) (d : Draw S)
    (now : Instant) : (p.initiateAndSend localPriv hasRelay d now).2.active = p.active := by
  have h := p.initiated localPriv d now
  unfold initiateAndSend
  generalize p.initiateHandshake localPriv d now = out at h ⊢
  cases h with
  | failed => rfl
  | begun => rfl

theorem timerRotate_active (p : Peer S) (localPriv : Bytes) (hasRelay : Bool) (d : Draw S)
    (now : Instant) : (p.timerRotate localPriv hasRelay d now).2.active = p.active := by
  unfold timerRotate
  rw [checkRotation_eq]
  dsimp only
  split_ifs
  · exact initiateAndSend_active _ localPriv hasRelay d now
  · rfl

theorem timerClear_active (p : Peer S) (now : Instant) :
    (p.timerClear now).active = p.active ∨ (p.timerClear now).active = none := by
  unfold timerClear
  split_ifs
  · exact Or.inr rfl
  · exact Or.inl rfl

/-- After the first part of a tick a session that is due is being replaced. -/
theorem timerRotate_rekeyed {localPriv : Bytes} (h_init : S.Initiates localPriv)
    (h_key : p.pubkey.length = 32) (hasRelay : Bool) (d : Draw S) (now : Instant) :
    (p.timerRotate localPriv hasRelay d now).2.Rekeyed now := by
  unfold timerRotate
  rw [checkRotation_eq]
  dsimp only
  split_ifs with h_due
  · intro a _
    refine Or.inr (initiateAndSend_pending h_init ?_ hasRelay d now)
    exact h_key
  · intro a ha
    have ha : p.active = some a := ha
    by_cases h_young : now < a.establishedAt + 121 * second
    · exact Or.inl h_young
    · -- it is due, so a handshake is pending already
      have h_old : 120 < elapsedSecs now a.establishedAt :=
        Nat.lt_of_not_le fun h_le => h_young (elapsedSecs_le.mp h_le)
      have h_is : p.due now = true := by simp [due, ha, h_old]
      refine Or.inr ?_
      rw [← Option.not_isNone, Bool.not_eq_true']
      exact Bool.eq_false_iff.mpr fun h_none => h_due ⟨h_is, h_none⟩

/-- After the first part of a tick an expired session is forgotten. -/
theorem timerRotate_forgot {localPriv : Bytes} (h_sound : p.Sound localPriv) (priv : Bytes)
    (hasRelay : Bool) (d : Draw S) (now : Instant) :
    (p.timerRotate priv hasRelay d now).2.Forgot now := by
  have h_check : (p.checkRotation now).2.Forgot now := by
    rw [checkRotation_eq]
    intro s hs
    obtain ⟨hs, h_grace⟩ := Option.filter_eq_some_iff.mp hs
    obtain ⟨a, ha⟩ := Option.isSome_iff_exists.mp (h_sound.previous (by rw [hs]; rfl))
    refine ⟨a, ha, Or.inl ?_⟩
    have h_young : elapsedSecs now s.establishedAt < 15 := by simpa [graceOver] using h_grace
    exact (elapsedSecs_lt (by decide)).mp h_young
  unfold timerRotate
  dsimp only
  split_ifs
  · exact (initiateAndSend_tends _ priv hasRelay d now).forgot le_rfl h_check
  · exact h_check

/-- After the second part a peer with a session was heard. -/
theorem timerClear_heard (p : Peer S) (now : Instant) : (p.timerClear now).Heard now := by
  unfold timerClear
  split_ifs with h_dead
  · exact fun h => absurd h Bool.false_ne_true
  · intro h_active
    by_contra h_late
    exact h_dead ⟨h_active, Nat.le_of_not_lt fun h => h_late ((elapsedSecs_lt (by decide)).mp h)⟩

/-! A peer that is cleared has no session, and nothing is claimed of it. -/

theorem timerClear_rekeyed (hp : p.Rekeyed tick) (now : Instant) :
    (p.timerClear now).Rekeyed tick := by
  unfold timerClear
  split_ifs
  · exact nofun
  · exact hp

theorem timerClear_forgot (hp : p.Forgot tick) (now : Instant) :
    (p.timerClear now).Forgot tick := by
  unfold timerClear
  split_ifs
  · exact nofun
  · exact hp

theorem timerKeepalive_tends (p : Peer S) (hasRelay : Bool) (d : Draw S) (now : Instant) :
    p.Tends now (p.timerKeepalive hasRelay d now).2 := by
  unfold timerKeepalive
  split_ifs
  · exact p.encryptAndSend_tends [] hasRelay d now
  · exact .refl now p

/-- After the third part `last_tx` is up to date, unless the session is so worn that it does not
seal a keepalive. -/
theorem timerKeepalive_spoke (h_wears : p.Wears worn) (hasRelay : Bool) (d : Draw S)
    (now : Instant) : (p.timerKeepalive hasRelay d now).2.Spoke now worn := by
  unfold timerKeepalive
  split_ifs with h_silent
  · have h := p.encrypted [] d now
    unfold encryptAndSend
    generalize p.encryptPacket [] d now = out at h ⊢
    cases h with
    | inactive h => exact fun a ha => absurd (h.symm.trans ha) nofun
    | failed s h hw =>
      -- the keepalive was lost, and its clock is not put on
      rintro _ ⟨⟩
      rw [padPayload_of_none rfl] at hw
      exact Or.inr (h_wears s h hw)
    | sent s ciphertext h =>
      rintro _ ⟨⟩
      exact Or.inl (Nat.lt_add_of_pos_right (by decide))
  · intro a ha
    refine Or.inl ?_
    by_contra h_late
    refine h_silent ⟨by rw [ha]; rfl, Nat.le_of_not_lt fun h => h_late ?_⟩
    exact (elapsedSecs_lt (by decide)).mp h

theorem timerHandshake_tends (p : Peer S) (localPriv : Bytes) (hasRelay : Bool) (d : Draw S)
    (now : Instant) : p.Tends now (p.timerHandshake localPriv hasRelay d now).2 := by
  unfold timerHandshake
  split_ifs
  · exact p.initiateAndSend_tends localPriv hasRelay d now
  · split
    · split_ifs
      · exact ⟨fun a h => Or.inl ⟨a, h, rfl, rfl⟩, id, fun s h => Or.inl ⟨s, h, rfl⟩, Or.inl rfl,
          Or.inl rfl, Or.inl, fun _ => Or.inr rfl⟩
      · exact .refl now p
    · exact .refl now p

/-- After the fourth part a pending handshake was tried. -/
theorem timerHandshake_tried {localPriv : Bytes} (h_sound : p.Sound localPriv) (priv : Bytes)
    (hasRelay : Bool) (d : Draw S) (now : Instant) :
    (p.timerHandshake priv hasRelay d now).2.Tried now := by
  unfold timerHandshake
  split_ifs with h_stuck
  · -- begun just now
    have h_none : p.handshake = none := by simpa using h_stuck.2.1
    intro h_pending
    rcases (p.initiateAndSend_tends priv hasRelay d now).attempt h_pending with ⟨h_old, -⟩ | h_now
    · rw [h_none] at h_old
      exact absurd h_old Bool.false_ne_true
    · exact ⟨now, h_now, Nat.lt_add_of_pos_right (by decide)⟩
  · split
    · next attempt h_attempt =>
      split_ifs with h_late
      · exact fun _ => ⟨now, rfl, Nat.lt_add_of_pos_right (by decide)⟩
      · exact fun _ => ⟨attempt, h_attempt, (elapsedSecs_lt (by decide)).mp (not_le.mp h_late)⟩
    · next h_attempt =>
      -- there is no handshake without an attempt
      intro h_pending
      rcases h_sound.handshake with h_idle | ⟨hs, attempt, packet, h_dials⟩
      · rw [h_idle.handshake] at h_pending
        exact absurd h_pending Bool.false_ne_true
      · exact absurd (h_attempt.symm.trans h_dials.lastHandshakeAttempt) nofun

/-- **What a tick leaves.** -/
theorem timer_upkept {localPriv : Bytes} (h_init : S.Initiates localPriv)
    (h_sound : p.Sound localPriv) (h_wears : p.Wears worn) (hasRelay : Bool) (d d' : Draw S)
    (now : Instant) :
    (p.timer localPriv hasRelay d d' now).2.Upkept now worn := by
  -- each part brings one of the clocks up to date, and the later parts leave it so
  have h_rekeyed := timerRotate_rekeyed h_init h_sound.pubkey hasRelay d now
  have h_forgot := timerRotate_forgot h_sound localPriv hasRelay d now
  have h_sound₁ := h_sound.moves (p.timerRotate_ownMove localPriv hasRelay d now).moves
  have h_wears₁ := h_wears.of_active (Or.inl (p.timerRotate_active localPriv hasRelay d now))
  unfold timer
  dsimp only
  generalize (p.timerRotate localPriv hasRelay d now).2 = p₁
    at h_rekeyed h_forgot h_sound₁ h_wears₁ ⊢
  have h_heard := p₁.timerClear_heard now
  have h_wears₂ := h_wears₁.of_active (p₁.timerClear_active now)
  have h_sound₂ := h_sound₁.moves (p₁.timerClear_sameDial now).ownMove.moves
  have h_rekeyed₂ := timerClear_rekeyed h_rekeyed now
  have h_forgot₂ := timerClear_forgot h_forgot now
  generalize p₁.timerClear now = p₂ at h_heard h_sound₂ h_rekeyed₂ h_forgot₂ h_wears₂ ⊢
  have h_keep := p₂.timerKeepalive_tends hasRelay d now
  have h_spoke := timerKeepalive_spoke h_wears₂ hasRelay d now
  have h_sound₃ := h_sound₂.moves (p₂.timerKeepalive_sameDial hasRelay d now).ownMove.moves
  generalize (p₂.timerKeepalive hasRelay d now).2 = p₃ at h_keep h_spoke h_sound₃ ⊢
  have h_last := p₃.timerHandshake_tends localPriv hasRelay d' now
  constructor
  case heard => exact h_last.heard le_rfl (h_keep.heard le_rfl h_heard)
  case spoke => exact h_last.spoke le_rfl h_spoke
  case rekeyed => exact h_last.rekeyed le_rfl (h_keep.rekeyed le_rfl h_rekeyed₂)
  case forgot => exact h_last.forgot le_rfl (h_keep.forgot le_rfl h_forgot₂)
  case tried => exact timerHandshake_tried h_sound₃ localPriv hasRelay d' now

end Peer

/-! ### Runs with a timer that ticks -/

/-- The task is a tick of the timer. -/
def DaemonTask.isTimer : DaemonTask S → Bool
  | .timer _ => true
  | _ => false

/-- When the timer last ticked in a run that begins at `start`. -/
def tickOf (start : Instant) (ls : List (DaemonLabel S)) : Instant :=
  ls.foldl (fun t l => if l.task.isTimer then l.now else t) start

/-- The time of the last turn of a run. -/
def clockOf (start : Instant) (ls : List (DaemonLabel S)) : Instant :=
  ls.foldl (fun _ l => l.now) start

/-- The clock does not go back, and the timer is never more than `D` behind. -/
def Paced (D : ℕ) (start : Instant) (ls : List (DaemonLabel S)) : Prop :=
  ∀ pre l post, ls = pre ++ l :: post →
    clockOf start pre ≤ l.now ∧ l.now ≤ tickOf start pre + D

section Paced

variable {D : ℕ} {start : Instant} {ls : List (DaemonLabel S)} {l : DaemonLabel S}

theorem tickOf_append (start : Instant) (ls : List (DaemonLabel S)) (l : DaemonLabel S) :
    tickOf start (ls ++ [l]) = if l.task.isTimer then l.now else tickOf start ls := by
  rw [tickOf, List.foldl_append, List.foldl_cons, List.foldl_nil, tickOf]

theorem clockOf_append (start : Instant) (ls : List (DaemonLabel S)) (l : DaemonLabel S) :
    clockOf start (ls ++ [l]) = l.now := by
  rw [clockOf, List.foldl_append, List.foldl_cons, List.foldl_nil]

theorem Paced.init (h : Paced D start (ls ++ [l])) : Paced D start ls := by
  rintro pre m post rfl
  exact h pre m (post ++ [l]) (by simp)

theorem Paced.last (h : Paced D start (ls ++ [l])) :
    clockOf start ls ≤ l.now ∧ l.now ≤ tickOf start ls + D := h ls l [] rfl

/-- The same, for every place of the run. -/
theorem Paced.of_forall (h : ∀ i : Fin ls.length, clockOf start (ls.take i) ≤ (ls.get i).now ∧
    (ls.get i).now ≤ tickOf start (ls.take i) + D) : Paced D start ls := by
  rintro pre l post rfl
  have h_lt : pre.length < (pre ++ l :: post).length := by
    rw [List.length_append, List.length_cons]
    omega
  have h_here := h ⟨pre.length, h_lt⟩
  simpa using h_here

theorem Paced.singleton (h : start ≤ l.now ∧ l.now ≤ start + D) : Paced D start [l] := by
  intro pre m post h_eq
  rcases List.append_eq_cons_iff.mp h_eq.symm with ⟨rfl, h_cons⟩ | ⟨pre', -, h_nil⟩
  · obtain rfl := (List.cons.inj h_cons).1
    exact h
  · exact absurd h_nil (by simp)

/-- The last tick is not in the future. -/
theorem Paced.tickOf_le (h : Paced D start ls) : tickOf start ls ≤ clockOf start ls := by
  induction ls using List.reverseRecOn with
  | nil => exact le_rfl
  | append_singleton ls l ih =>
    rw [tickOf_append, clockOf_append]
    split_ifs
    · exact le_rfl
    · exact (ih h.init).trans h.last.1

/-- And not far in the past. -/
theorem Paced.clockOf_le (h : Paced D start ls) : clockOf start ls ≤ tickOf start ls + D := by
  cases ls using List.reverseRecOn with
  | nil => exact Nat.le_add_right start D
  | append_singleton ls l =>
    rw [tickOf_append, clockOf_append]
    split_ifs
    · exact Nat.le_add_right l.now D
    · exact h.last.2

end Paced

namespace PeerManager

/-- **Each peer's share of a turn that is not a tick.** -/
theorem shares_tends (h_completes : S.Completes) (pm : PeerManager S) (hasRelay : Bool)
    (now : Instant) {task : DaemonTask S} (h_task : task.isTimer = false) :
    pm.Shares hasRelay now task fun p q => p.Sound pm.localPriv → p.Tends now q := by
  -- addresses and `last_direct_rx` are none of the clocks
  have h_touch : ∀ (p : Peer S) (endpoint : Option SocketAddr) (t : Instant),
      p.Tends now { p with endpoint := endpoint, lastDirectRx := t } :=
    fun p _ _ => .of_eq now rfl rfl rfl rfl rfl rfl
  constructor
  case refl => exact fun p _ => .refl now p
  case timer =>
    rintro draws rfl
    exact absurd h_task nofun
  case tun =>
    intro packet d _ p _
    have h_encrypt := p.encryptAndSend_tends packet hasRelay d now
    unfold Peer.sendPacket
    dsimp only
    split_ifs
    · exact h_encrypt.trans (Peer.initiateAndSend_tends _ pm.localPriv hasRelay d now)
    · exact h_encrypt
  case udpInit =>
    exact fun payload addr d _ hs p _ _ =>
      (h_touch p (some addr) now).trans (Peer.respond_tends _ hs pm.magic d now)
  case udpResp =>
    intro packetType payload addr d _ p h_sound
    exact (Peer.handleHandshakePacket_tends h_completes h_sound pm.localPriv packetType payload d
      now).trans (h_touch _ _ now)
  case udpData =>
    intro payload addr d _
    have h_tends : List.Forall₂ (Peer.Tends now) pm.peers (pm.udpData payload addr now).2.peers :=
      pm.udpData_forall₂ addr (fun p => .refl now p) (fun _ _ _ => Peer.Tends.trans)
        (fun p => p.acceptData_tends payload now) (fun p => h_touch p p.endpoint now)
        (fun p => h_touch p (some addr) now)
    refine h_tends.imp ?_
    exact fun p q h _ => h
  case relayedInit => exact fun _ _ d _ hs p _ => p.respond_tends hs pm.magic d now
  case relayedResp =>
    exact fun _ packetType payload d _ p h_sound =>
      Peer.handleHandshakePacket_tends h_completes h_sound pm.localPriv packetType payload d now
  case relayedData => exact fun _ _ payload _ _ p _ => p.acceptData_tends payload now

/-- A turn keeps the peers up, and a tick brings them up to date. -/
theorem step_upkept (h_completes : S.Completes) {pm : PeerManager S}
    (h_init : S.Initiates pm.localPriv) (h_sound : ∀ p ∈ pm.peers, p.Sound pm.localPriv)
    {worn : S.Transport → Prop} (h_wears : ∀ p ∈ pm.peers, p.Wears worn) {hasRelay : Bool}
    {tick now : Instant} {task : DaemonTask S} (h_le : tick ≤ now)
    (h : ∀ p ∈ pm.peers, p.Upkept tick worn) :
    ∀ q ∈ (pm.step hasRelay now task).2.peers,
      q.Upkept (if task.isTimer then now else tick) worn := by
  have h_other (h_poll : ∀ descriptors, task ≠ .poll descriptors) (h_task : task.isTimer = false) :
      ∀ q ∈ (pm.step hasRelay now task).2.peers, q.Upkept tick worn := by
    intro q hq
    have h_shares := (pm.shares_tends h_completes hasRelay now h_task).step h_poll
    obtain ⟨p, hp, h_tends⟩ := forall₂_mem_right h_shares hq
    exact (h_tends (h_sound p hp)).upkept h_le (h p hp)
  cases task with
  | timer draws =>
    intro q hq
    obtain ⟨p, hp, d, d', rfl⟩ := mem_timerPeers draws pm.peers hq
    exact Peer.timer_upkept h_init (h_sound p hp) (h_wears p hp) hasRelay d d' now
  | poll descriptors =>
    -- those that stay keep their clocks, and those that come have none
    intro q hq
    obtain ⟨old, new, h_peers, h_old, h_new⟩ := pm.syncPeers_split descriptors now
    have hq : q ∈ old ++ new := h_peers ▸ hq
    rcases List.mem_append.mp hq with hq | hq
    · obtain ⟨p, hp, h_same⟩ := forall₂_mem_right h_old hq
      have h_tends : p.Tends now q := .of_eq now h_same.active h_same.previous h_same.handshake
        h_same.lastHandshakeAttempt h_same.lastRx h_same.lastTx
      exact h_tends.upkept h_le (h p (List.mem_of_mem_filter hp))
    · exact (h_new q hq).1.upkept tick worn
  | _ => exact h_other nofun rfl

/-- A table as the daemon starts with has no sessions. -/
theorem Initial.sessionless {pm : PeerManager S} (h : pm.Initial) :
    ∀ p ∈ pm.peers, p.Sessionless := by
  obtain ⟨localPriv, parsed, magic, now, -, rfl⟩ := h
  intro p hp
  obtain ⟨q, hq, rfl⟩ := List.mem_map.mp hp
  obtain ⟨w, -, rfl⟩ := List.mem_map.mp hq
  constructor <;> rfl

/-- **Every reached peer is kept up**, if a session that does not seal a keepalive is worn by then
and stays so. What counts as worn may depend on the run so far. -/
theorem upkept_of_exec (h_completes : S.Completes) {hasRelay : Bool} {pm₀ pm : PeerManager S}
    (h_writes : S.Initiates pm₀.localPriv) {ls : List (DaemonLabel S)} (h_init : pm₀.Initial)
    (h_run : Exec (daemon S hasRelay) pm₀ ls pm) {D : ℕ} {start : Instant}
    (h_paced : Paced D start ls) (worn : List (DaemonLabel S) → S.Transport → Prop)
    (h_wears : ∀ ls pm, Exec (daemon S hasRelay) pm₀ ls pm → ∀ p ∈ pm.peers, p.Wears (worn ls))
    (h_mono : ∀ ls l t, worn ls t → worn (ls ++ [l]) t) :
    ∀ p ∈ pm.peers, p.Upkept (tickOf start ls) (worn ls) := by
  refine h_run.induct (fun ls pm => Paced D start ls →
      ∀ p ∈ pm.peers, p.Upkept (tickOf start ls) (worn ls))
    (fun _ p hp => (h_init.sessionless p hp).upkept start _) ?_ h_paced
  intro ls pm l pm' h_exec h_upkept h_step h_paced
  obtain rfl : (pm.step hasRelay l.now l.task).2 = pm' := congrArg Prod.snd h_step
  have h_priv := (config_of_exec h_exec).1
  have h_sound := sound_of_reachable h_completes ⟨pm₀, ls, h_init, h_exec⟩
  -- the last tick is not after this turn
  have h_le := h_paced.init.tickOf_le.trans h_paced.last.1
  rw [tickOf_append]
  intro q hq
  exact (step_upkept h_completes (h_priv ▸ h_writes) h_sound (h_wears ls pm h_exec) h_le
    (h_upkept h_paced.init) q hq).mono (h_mono ls l)

end PeerManager

/-- **What the timer keeps up.** Let the library complete the pending handshakes that read a
response, write initiations, and seal keepalives under all nonces but the last one. In every run of
the daemon in which the clock does not go back and the timer is never more than `D` behind, whatever
the other tasks do, every peer in the state reached:

* with a session was heard, or got the session, less than 15 seconds and `D` ago;
* with a session had a packet sealed or an initiation written for it, or got the session, less than
  10 seconds and `D` ago, unless the run has encrypted as many packets under that session as there
  are nonces;
* with a session of 121 seconds and `D` or more has a handshake pending that replaces it;
* has no previous session but one established less than 15 seconds and `D` ago, or replaced at most
  `D` ago;
* with a pending handshake tried it less than two seconds and `D` ago. -/
theorem upkeep [DecidableEq S.Transport] (h_completes : S.Completes)
    (h_seals : S.SealsKeepalives) {hasRelay : Bool} {pm₀ pm : PeerManager S}
    (h_writes : S.Initiates pm₀.localPriv) {ls : List (DaemonLabel S)}
    (h_init : (daemon S hasRelay).init pm₀) (h_run : Exec (daemon S hasRelay) pm₀ ls pm) {D : ℕ}
    {start : Instant} (h_paced : Paced D start ls) :
    ∀ p ∈ pm.peers,
      (p.active.isSome → clockOf start ls < p.lastRx + 15 * second + D) ∧
      (∀ a, p.active = some a → clockOf start ls < p.lastTx + 10 * second + D ∨
        2 ^ 64 - 1 ≤ (encryptedIn (eventsOf ls)).count a.state) ∧
      (∀ a, p.active = some a → clockOf start ls < a.establishedAt + 121 * second + D ∨
        p.handshake.isSome) ∧
      (∀ s, p.previous = some s → ∃ a, p.active = some a ∧
        (clockOf start ls < s.establishedAt + 15 * second + D ∨
          clockOf start ls ≤ a.establishedAt + D)) ∧
      (p.handshake.isSome → ∃ t, p.lastHandshakeAttempt = some t ∧
        clockOf start ls < t + 2 * second + D) := by
  intro p hp
  have h_late := h_paced.clockOf_le
  -- a session that does not seal a keepalive has used up its nonces in the run so far
  have h_wears : ∀ ls pm, Exec (daemon S hasRelay) pm₀ ls pm → ∀ p ∈ pm.peers,
      p.Wears (WornIn (eventsOf ls)) := fun ls pm h_exec p hp a ha h_write =>
    (counted_of_run h_init.table (daemon_emits h_exec).2 p hp).worn h_seals ha h_write
  have h_mono : ∀ (ls : List (DaemonLabel S)) (l : DaemonLabel S) (t : S.Transport),
      WornIn (eventsOf ls) t → WornIn (eventsOf (ls ++ [l])) t := by
    intro ls l t ht
    rw [show eventsOf (ls ++ [l]) = eventsOf ls ++ l.events by simp [eventsOf]]
    exact ht.mono l.events
  have h_up := PeerManager.upkept_of_exec h_completes h_writes h_init h_run h_paced
    (fun ls => WornIn (eventsOf ls)) h_wears h_mono p hp
  refine ⟨fun h => ?_, fun a ha => ?_, fun a ha => ?_, fun s hs => ?_, fun h => ?_⟩
  · exact h_late.trans_lt (Nat.add_lt_add_right (h_up.heard h) D)
  · exact (h_up.spoke a ha).imp_left fun h => h_late.trans_lt (Nat.add_lt_add_right h D)
  · exact (h_up.rekeyed a ha).imp_left fun h => h_late.trans_lt (Nat.add_lt_add_right h D)
  · obtain ⟨a, ha, h⟩ := h_up.forgot s hs
    exact ⟨a, ha, h.imp (fun h => h_late.trans_lt (Nat.add_lt_add_right h D))
      fun h => h_late.trans (Nat.add_le_add_right h D)⟩
  · obtain ⟨t, ht, h⟩ := h_up.tried h
    exact ⟨t, ht, h_late.trans_lt (Nat.add_lt_add_right h D)⟩

/-! ### A rekey and a tick -/

namespace Symbolic

instance : DecidableEq unchecked.Transport := inferInstanceAs (DecidableEq symbolic.Transport)

theorem unchecked_sealsKeepalives : unchecked.SealsKeepalives := fun _ _ _ => rfl

/-- Node `7` with its peer, before its first tick. -/
def unticked : PeerManager unchecked :=
  PeerManager.new (key 7) [Peer.new peerSpec.pubkey peerSpec.endpoint peerSpec.allowedIps 0]
    MagicConfig.default

/-- The peer calls, is sent a packet, calls again, and the timer ticks. -/
def rekeyed : List (Instant × DaemonTask unchecked) :=
  [(1, .udp (initiationPacket 1) peerAddr (uncheckedDraw 2)),
    (2, .tun ipv4Packet (uncheckedDraw 3)),
    (3, .udp (initiationPacket 4) peerAddr (uncheckedDraw 5)),
    (4, .timer fun _ => (uncheckedDraw 6, uncheckedDraw 7))]

end Symbolic

open Symbolic in
/-- The peer has a session and a previous one. -/
theorem upkeep_rekeyed : ∃ p ∈ (unticked.runTasks false rekeyed).2.peers,
    p.active.isSome ∧ p.previous.isSome ∧ 4 < p.lastRx + 15 * second + second ∧
    ∀ s, p.previous = some s → ∃ a, p.active = some a ∧
      (4 < s.establishedAt + 15 * second + second ∨ 4 ≤ a.establishedAt + second) := by
  have h_paced : Paced second 0 (unticked.runTasks false rekeyed).1 :=
    Paced.of_forall (by decide +kernel)
  have h_clock : clockOf 0 (unticked.runTasks false rekeyed).1 = 4 := by decide +kernel
  have h_init : (daemon unchecked false).init unticked :=
    initial_of_peerSpec (key 7) MagicConfig.default
  have h_peers := upkeep unchecked_completes unchecked_sealsKeepalives (unchecked_initiates _)
    h_init (PeerManager.exec_runTasks _ _ _) h_paced
  obtain ⟨p, hp, h_active, h_previous⟩ : ∃ p ∈ (unticked.runTasks false rekeyed).2.peers,
      p.active.isSome ∧ p.previous.isSome := by
    decide +kernel
  rw [h_clock] at h_peers
  obtain ⟨h_heard, -, -, h_forgot, -⟩ := h_peers p hp
  exact ⟨p, hp, h_active, h_previous, h_heard h_active, h_forgot⟩

end AraxMesh
