import AraxMesh.Dispatch

/-!
# The grace period of a replaced session

One peer against a clock that does not go back. `peerClock` runs any operations on the peer, the
methods of `Peer` and what the tasks of the daemon do to its fields.

A session that is replaced by a new handshake should be honoured for 15 seconds from there, so that
packets in flight are not lost. The code measures from the time the replaced session was
*established*, which rekeying puts 120 seconds before its replacement: `previous_decrypts` says
exactly what happens to a packet of the replaced session, and `grace_iff` when that is what it
should be.

1. `Applied` lists what an operation can do to the sessions: nothing, a switch, a use of one, the
   end of the previous one, the end of both.
2. After a switch the peer is `Replaced`: the old session is the previous one, unless it has
   expired, which it stays. Every operation keeps that, until the next switch or until the sessions
   are cleared.
3. A packet of the replaced session is then decided by the previous one, if that is still tried. The
   active one has another transport state and cannot read it (`Snow.KeyCommitting`), and to the
   window of the previous one the nonce is new.
-/

namespace AraxMesh

open LTS

variable {S : Snow}

/-! ### A peer and a clock -/

/-- What can be done to a peer. -/
inductive PeerOp (S : Snow)
  | initiateHandshake (localPriv : Bytes) (d : Draw S)
  | handleHandshakePacket (localPriv : Bytes) (packetType : UInt8) (payload : Bytes) (d : Draw S)
  /-- A dispatcher answers an initiation. -/
  | respond (hs : S.HandshakeState) (magic : MagicConfig) (d : Draw S)
  | encryptPacket (payload : Bytes) (d : Draw S)
  | decryptPacket (payload : Bytes)
  | checkRotation
  /-- The timer looks for a dead session. -/
  | clear
  /-- A field that is not about sessions is written. -/
  | touch (endpoint : Option SocketAddr) (allowedIps : List Ipv4Subnet) (lastDirectRx : Instant)
      (lastHandshakeAttempt : Option Instant)

namespace Peer

/-- Do it. -/
def apply (p : Peer S) (now : Instant) : PeerOp S → Turn S (Peer S)
  | .initiateHandshake localPriv d =>
    let out := p.initiateHandshake localPriv d now
    (out.events, out.state)
  | .handleHandshakePacket localPriv packetType payload d =>
    let out := p.handleHandshakePacket localPriv packetType payload d now
    (out.events, out.state)
  | .respond hs magic d =>
    let out := p.respond hs magic d now
    (out.events, out.state)
  | .encryptPacket payload d =>
    let out := p.encryptPacket payload d now
    (out.events, out.state)
  | .decryptPacket payload =>
    let out := p.decryptPacket payload now
    (out.events, out.state)
  | .checkRotation => ([], (p.checkRotation now).2)
  | .clear => ([], p.timerClear now)
  | .touch endpoint allowedIps lastDirectRx lastHandshakeAttempt =>
    ([], { p with
      endpoint := endpoint
      allowedIps := allowedIps
      lastDirectRx := lastDirectRx
      lastHandshakeAttempt := lastHandshakeAttempt })

/-- The dead-session check clears the sessions. -/
def Clears (p : Peer S) (now : Instant) (op : PeerOp S) : Prop :=
  op = .clear ∧ p.active.isSome ∧ 15 ≤ elapsedSecs now p.lastRx

theorem apply_emits (p : Peer S) (now : Instant) (op : PeerOp S) :
    Emits (peerSystem S) p (p.apply now op).1 (p.apply now op).2 := by
  cases op with
  | initiateHandshake localPriv d => exact p.initiateHandshake_emits localPriv d now
  | handleHandshakePacket localPriv packetType payload d =>
    exact p.handleHandshakePacket_emits localPriv packetType payload d now
  | respond hs magic d => exact p.respond_emits hs magic d now
  | encryptPacket payload d =>
    have h := p.encrypted payload d now
    simp only [apply]
    generalize p.encryptPacket payload d now = out at h ⊢
    cases h with
    | inactive => exact .refl p
    | failed s h => exact .single (.encrypt p s payload.length h)
    | sent s ciphertext h =>
      refine Emits.silent (.single (.encrypt p s payload.length h)) (SameSessions.emits ?_)
      exact ⟨rfl, rfl, rfl, rfl, rfl⟩
  | decryptPacket payload => exact p.decryptPacket_emits payload now
  | checkRotation => exact makes_sessions.checkRotation p now
  | clear => exact makes_sessions.timerClear p now
  | touch => exact SameSessions.emits ⟨rfl, rfl, rfl, rfl, rfl⟩

/-- What an operation can do to the sessions of a peer. -/
inductive Applied (p : Peer S) (now : Instant) (op : PeerOp S) (es : List (Event S))
    (p' : Peer S) : Prop
  | same (h : ∀ k, p'.slot k = p.slot k) (hes : installedIn es = [])
  | installed (t : S.Transport) (hes : installedIn es = [t])
      (ha : p'.slot .active = some (ActiveSession.fresh t now))
      (hp : p'.slot .previous = (p.install t now).slot .previous)
  /-- A session was used: its counters and its window may have changed. -/
  | used (k : Slot) (s s' : ActiveSession S) (hs : p.slot k = some s) (hstate : s'.state = s.state)
      (htime : s'.establishedAt = s.establishedAt)
      (h : ∀ k', p'.slot k' = if k' = k then some s' else p.slot k') (hes : installedIn es = [])
  | pruned (s : ActiveSession S) (hs : p.slot .previous = some s) (hg : graceOver s now = true)
      (ha : p'.slot .active = p.slot .active) (hp : p'.slot .previous = none)
      (hes : installedIn es = [])
  | cleared (h : p.Clears now op) (h' : ∀ k, p'.slot k = none) (hes : installedIn es = [])

theorem applied_respond (p : Peer S) (now : Instant) (op : PeerOp S) (hs : S.HandshakeState)
    (magic : MagicConfig) (d : Draw S) :
    p.Applied now op (p.respond hs magic d now).events (p.respond hs magic d now).state := by
  have h := p.responded hs magic d now
  generalize p.respond hs magic d now = out at h ⊢
  cases h with
  | failed => exact .same (fun _ => rfl) rfl
  | installed msg t => exact .installed t rfl rfl rfl

theorem applied (p : Peer S) (now : Instant) (op : PeerOp S) :
    p.Applied now op (p.apply now op).1 (p.apply now op).2 := by
  cases op with
  | initiateHandshake localPriv d =>
    have h := p.initiated localPriv d now
    simp only [apply]
    generalize p.initiateHandshake localPriv d now = out at h ⊢
    cases h with
    | failed => exact .same (fun _ => rfl) rfl
    | begun hs₀ hs msg => exact .same (fun k => by cases k <;> rfl) rfl
  | handleHandshakePacket localPriv packetType payload d =>
    simp only [apply]
    have h := p.handled localPriv packetType payload d now
    generalize p.handleHandshakePacket localPriv packetType payload d now = out at h ⊢
    cases h with
    | ignored => exact .same (fun _ => rfl) rfl
    | responded hs => exact p.applied_respond now _ hs p.magic d
    -- a response changes the sessions only where it completes the handshake
    | answered h =>
      cases h with
      | idle => exact .same (fun _ => rfl) rfl
      | rejected => exact .same (fun k => by cases k <;> rfl) rfl
      | abandoned => exact .same (fun k => by cases k <;> rfl) rfl
      | completed hs hs' t => exact .installed t rfl rfl rfl
  | respond hs magic d => exact p.applied_respond now _ hs magic d
  | encryptPacket payload d =>
    have h := p.encrypted payload d now
    simp only [apply]
    generalize p.encryptPacket payload d now = out at h ⊢
    cases h with
    | inactive => exact .same (fun _ => rfl) rfl
    | failed s h =>
      refine .used .active s (advance s payload.length) h rfl rfl (fun k' => ?_) rfl
      exact slot_setSlot p .active k' _
    | sent s ciphertext h =>
      refine .used .active s (advance s payload.length) h rfl rfl (fun k' => ?_) rfl
      cases k' <;> rfl
  | decryptPacket payload =>
    have h := p.decrypted payload now
    simp only [apply]
    generalize p.decryptPacket payload now = out at h ⊢
    cases h with
    | unauthentic => exact .same (fun _ => rfl) rfl
    | replayed => exact .same (fun _ => rfl) rfl
    -- the session that read the packet is put back, and the other is as it was
    | opened k s padded w h hw =>
      refine .used k s (s.accept w payload.length) h.honours.1 rfl rfl (fun k' => ?_) rfl
      cases k <;> cases k' <;> rfl
  -- the two ways to lose a session without a new one
  | checkRotation =>
    simp only [apply]
    rcases p.checkRotation_cases now with h | ⟨s, hps, hg, h⟩
    · rw [h]
      exact .same (fun _ => rfl) rfl
    · rw [h]
      exact .pruned s hps hg rfl rfl rfl
  | clear =>
    simp only [apply, timerClear]
    split_ifs with h
    · exact .cleared ⟨rfl, h⟩ (fun k => by cases k <;> rfl) rfl
    · exact .same (fun _ => rfl) rfl
  | touch => exact .same (fun k => by cases k <;> rfl) rfl

end Peer

/-- An operation on a peer: when, what, and the events it went through. -/
structure PeerLabel (S : Snow) where
  now : Instant
  op : PeerOp S
  events : List (Event S)

/-- A peer and the time of the last operation on it. -/
structure Clocked (S : Snow) where
  time : Instant
  peer : Peer S

/-- All runs of a peer against a clock that does not go back. -/
def peerClock (S : Snow) : System (Clocked S) (PeerLabel S) where
  init c := ∃ pubkey endpoint allowedIps magic,
    c.peer = { Peer.new pubkey endpoint allowedIps c.time with magic := magic }
  step c l c' := c.time ≤ l.now ∧ c'.time = l.now ∧ c.peer.apply l.now l.op = (l.events, c'.peer)

/-- The events of a run, in order. -/
def peerEvents (ls : List (PeerLabel S)) : List (Event S) := ls.flatMap (·.events)

/-! ### Invariants of all runs -/

theorem peerClock_emits {c c' : Clocked S} {ls : List (PeerLabel S)}
    (h : Exec (peerClock S) c ls c') :
    Emits (peerSystem S) c.peer (peerEvents ls) c'.peer ∧ c.time ≤ c'.time := by
  refine h.induct (fun ls c' => Emits (peerSystem S) c.peer (peerEvents ls) c'.peer ∧
    c.time ≤ c'.time) ⟨.refl _, le_rfl⟩ ?_
  rintro ls c₁ l c₂ - ⟨hrun, htime⟩ ⟨hle, hnow, happly⟩
  have h_turn := c₁.peer.apply_emits l.now l.op
  rw [happly] at h_turn
  have h_events : peerEvents (ls ++ [l]) = peerEvents ls ++ l.events := by simp [peerEvents]
  rw [h_events]
  exact ⟨hrun.trans h_turn, by rw [hnow]; exact htime.trans hle⟩

/-- A new peer holds no session. -/
theorem peerClock_slot_of_init {c : Clocked S} (h : (peerClock S).init c) (k : Slot) :
    c.peer.slot k = none := by
  obtain ⟨_, _, _, _, hp⟩ := h
  rw [hp]
  cases k <;> rfl

/-- The windows of the peer's sessions in every state of a run. -/
theorem peerClock_filtered {c c' : Clocked S} {ls : List (PeerLabel S)}
    (h_init : (peerClock S).init c) (h : Exec (peerClock S) c ls c')
    (h_fresh : (installedIn (peerEvents ls)).Nodup) : Filtered (peerEvents ls) [c'.peer] := by
  have h_idle : ∀ p ∈ [c.peer], ∀ k, p.slot k = none := by
    obtain ⟨_, _, _, _, hp⟩ := h_init
    intro p hpm k
    obtain rfl := List.mem_singleton.mp hpm
    rw [hp]
    cases k <;> rfl
  exact (Filtered.of_idle h_idle).run (emits_inTable c.peer.magic (peerClock_emits h).1 [] [])
    h_fresh

/-- No session was established later than the clock shows. -/
theorem peerClock_established {c c' : Clocked S} {ls : List (PeerLabel S)}
    (h_init : (peerClock S).init c) (h : Exec (peerClock S) c ls c') :
    ∀ k s, c'.peer.slot k = some s → s.establishedAt ≤ c'.time := by
  refine h.invariant (fun c => ∀ k s, c.peer.slot k = some s → s.establishedAt ≤ c.time) ?_ ?_
  · intro k s hs
    exact absurd ((peerClock_slot_of_init h_init k).symm.trans hs) (by simp)
  rintro c l c' ih ⟨hle, hnow, happly⟩ k s hs
  have h_app := c.peer.applied l.now l.op
  rw [happly] at h_app
  rw [hnow]
  -- time has not gone back, so what was there is no younger than now
  have h_old : ∀ k s, c.peer.slot k = some s → s.establishedAt ≤ l.now := fun k s hs =>
    (ih k s hs).trans hle
  cases h_app with
  | same h => exact h_old k s ((h k).symm.trans hs)
  | installed t hes ha hp =>
    cases k with
    | active =>
      obtain rfl := Option.some.inj (ha.symm.trans hs)
      exact le_rfl
    | previous =>
      rw [hp] at hs
      -- what was active before the switch is the previous session now
      cases h_act : c.peer.active with
      | none => exact h_old .previous s (by simpa [Peer.slot, Peer.install, h_act] using hs)
      | some a => exact h_old .active s (by simpa [Peer.slot, Peer.install, h_act] using hs)
  | used k₀ s₀ s' hs₀ hstate htime h =>
    rw [h] at hs
    split_ifs at hs with hk
    · obtain rfl := Option.some.inj hs
      rw [htime]
      exact h_old k₀ s₀ hs₀
    · exact h_old k s hs
  | pruned s₀ hs₀ hg ha hp =>
    cases k with
    | active => exact h_old .active s (ha.symm.trans hs)
    | previous => exact absurd (hp.symm.trans hs) (by simp)
  | cleared _ h' => exact absurd ((h' k).symm.trans hs) (by simp)

/-! ### A replaced session -/

/-- A run after a replacement: it installs no further session and clears none. -/
def Undisturbed (c : Clocked S) (l : PeerLabel S) : Prop :=
  installedIn l.events = [] ∧ ¬ c.peer.Clears l.now l.op

/-- The peer holds another active session, and the replaced session as its previous one until that
expires. -/
structure Replaced (s : ActiveSession S) (c : Clocked S) : Prop where
  active : ∃ a, c.peer.slot .active = some a ∧ a.state ≠ s.state
  previous : (∃ s', c.peer.slot .previous = some s' ∧ s'.state = s.state ∧
      s'.establishedAt = s.establishedAt) ∨
    c.peer.slot .previous = none ∧ 15 ≤ elapsedSecs c.time s.establishedAt

/-- Time passes for every moment that was. -/
theorem elapsedSecs_mono {a b t : Instant} (h : a ≤ b) : elapsedSecs a t ≤ elapsedSecs b t :=
  Nat.div_le_div_right (Nat.sub_le_sub_right h t)

/-- The handshake that replaces an active session makes it the previous one. -/
theorem Replaced.of_install {c c' : Clocked S} {l : PeerLabel S} {s : ActiveSession S}
    (h : (peerClock S).step c l c') (hs : c.peer.active = some s)
    (h_inst : installedIn l.events ≠ []) (h_new : s.state ∉ installedIn l.events) :
    Replaced s c' := by
  obtain ⟨-, -, happly⟩ := h
  have h_app := c.peer.applied l.now l.op
  rw [happly] at h_app
  cases h_app with
  | installed t hes ha hp =>
    rw [hes, List.mem_singleton] at h_new
    refine ⟨⟨_, ha, fun h => h_new h.symm⟩, Or.inl ⟨s, ?_, rfl, rfl⟩⟩
    simpa [Peer.slot, Peer.install, hs] using hp
  | same _ hes => exact absurd hes h_inst
  | used _ _ _ _ _ _ _ hes => exact absurd hes h_inst
  | pruned _ _ _ _ _ hes => exact absurd hes h_inst
  | cleared _ _ hes => exact absurd hes h_inst

/-- **An operation keeps the replaced session where it is**, or finds it expired. -/
theorem Replaced.step {c c' : Clocked S} {l : PeerLabel S} {s : ActiveSession S}
    (hr : Replaced s c) (h : (peerClock S).step c l c') (hu : Undisturbed c l) :
    Replaced s c' := by
  obtain ⟨hle, hnow, happly⟩ := h
  have h_app := c.peer.applied l.now l.op
  rw [happly] at h_app
  -- an expired session stays expired
  have h_gone : ∀ {p : Peer S}, p.slot .previous = none → 15 ≤ elapsedSecs l.now s.establishedAt →
      p.slot .previous = none ∧ 15 ≤ elapsedSecs c'.time s.establishedAt := by
    intro p hp he
    exact ⟨hp, by rwa [hnow]⟩
  obtain ⟨a, ha, hne⟩ := hr.active
  cases h_app with
  | same hsame =>
    refine ⟨⟨a, (hsame _).trans ha, hne⟩, ?_⟩
    rcases hr.previous with ⟨s', hs', hst⟩ | ⟨hnone, he⟩
    · exact Or.inl ⟨s', (hsame _).trans hs', hst⟩
    · exact Or.inr (h_gone ((hsame _).trans hnone) (he.trans (elapsedSecs_mono hle)))
  | installed t hes =>
    rw [hu.1] at hes
    cases hes
  | used k s₀ s' hs₀ hstate htime hslot =>
    refine ⟨?_, ?_⟩
    · rw [hslot]
      split_ifs with hk
      · subst hk
        obtain rfl := Option.some.inj (hs₀.symm.trans ha)
        exact ⟨s', rfl, by rwa [hstate]⟩
      · exact ⟨a, ha, hne⟩
    · rw [hslot]
      split_ifs with hk
      · subst hk
        rcases hr.previous with ⟨s₁, hs₁, hst, het⟩ | ⟨hnone, -⟩
        · obtain rfl := Option.some.inj (hs₀.symm.trans hs₁)
          exact Or.inl ⟨s', rfl, hstate.trans hst, htime.trans het⟩
        · exact absurd (hnone.symm.trans hs₀) (by simp)
      · rcases hr.previous with ⟨s₁, hs₁, hst⟩ | ⟨hnone, he⟩
        · exact Or.inl ⟨s₁, hs₁, hst⟩
        · exact Or.inr (h_gone hnone (he.trans (elapsedSecs_mono hle)))
  | pruned s₀ hs₀ hg ha' hp =>
    refine ⟨⟨a, ha'.trans ha, hne⟩, Or.inr (h_gone hp ?_)⟩
    rcases hr.previous with ⟨s₁, hs₁, -, het⟩ | ⟨hnone, -⟩
    · obtain rfl := Option.some.inj (hs₀.symm.trans hs₁)
      rw [← het]
      simpa [Peer.graceOver] using hg
    · exact absurd (hnone.symm.trans hs₀) (by simp)
  | cleared hc => exact absurd hc hu.2

/-- So does a run of operations. -/
theorem Replaced.run {c c' : Clocked S} {ls : List (PeerLabel S)} {s : ActiveSession S}
    (hr : Replaced s c) (h : Exec ((peerClock S).restrict Undisturbed) c ls c') :
    Replaced s c' :=
  h.invariant (Replaced s) hr fun _ _ _ hr hstep => hr.step hstep.1 hstep.2

/-- A run with the events `es` in which the session `s` was active, was replaced at time `r` by a
completed handshake, and no further session was installed or cleared. -/
def Rekeyed (s : ActiveSession S) (r : Instant) (es : List (Event S)) (c : Clocked S) : Prop :=
  ∃ c₀ ls c₁ l c₂ ms, (peerClock S).init c₀ ∧ Exec (peerClock S) c₀ ls c₁ ∧
    c₁.peer.active = some s ∧ (peerClock S).step c₁ l c₂ ∧ l.now = r ∧
    installedIn l.events ≠ [] ∧ Exec ((peerClock S).restrict Undisturbed) c₂ ms c ∧
    es = peerEvents (ls ++ l :: ms)

/-- A packet the other end sealed under the session `s` arrives at time `a`; its nonce is fresh and
inside the window. -/
structure Arrives (s : ActiveSession S) (es : List (Event S)) (c : Clocked S) (a : Instant)
    (payload padded : Bytes) : Prop where
  time : c.time ≤ a
  length : 24 ≤ payload.length
  read : S.readMessage s.state (Peer.packetNonce payload) (payload.drop 8) = some padded
  unseen : ∀ o ∈ openedIn es, o.state = s.state → o.nonce ≠ Peer.packetNonce payload
  inside : ∀ o ∈ openedIn es, o.state = s.state →
    o.nonce.toNat < (Peer.packetNonce payload).toNat + 1024

/-- The packet is returned if it arrives within 15 seconds of time `r`, and not later. -/
def DecryptedInGrace (c : Clocked S) (r a : Instant) (payload padded : Bytes) : Prop :=
  (elapsedSecs a r < 15 →
    (c.peer.decryptPacket payload a).result = some (truncatePlaintext padded)) ∧
  (15 ≤ elapsedSecs a r → (c.peer.decryptPacket payload a).result = none)

/-- Where a run leaves a replaced session. -/
theorem Rekeyed.replaced {s : ActiveSession S} {r : Instant} {es : List (Event S)} {c : Clocked S}
    (h : Rekeyed s r es c) (h_fresh : (installedIn es).Nodup) :
    Replaced s c ∧ Filtered es [c.peer] ∧ s.establishedAt ≤ r ∧ r ≤ c.time := by
  obtain ⟨c₀, ls, c₁, l, c₂, ms, h_init, h₁, hs, hstep, rfl, h_inst, h₂, rfl⟩ := h
  have h_tail := Exec.of_restrict h₂
  have h_all : Exec (peerClock S) c₀ (ls ++ l :: ms) c := h₁.append (Exec.head hstep h_tail)
  have h_events : peerEvents (ls ++ l :: ms) = peerEvents ls ++ (l.events ++ peerEvents ms) := by
    simp [peerEvents]
  have h_filtered := peerClock_filtered h_init h_all h_fresh
  rw [h_events] at h_fresh
  -- the replaced session was installed before, so it is not what is installed now
  have h_new : s.state ∉ installedIn l.events := by
    have h_own := (peerClock_filtered h_init h₁ (nodup_of_append h_fresh)).live
    have h_mem : s.state ∈ installedIn (peerEvents ls) :=
      Multiset.mem_coe.mp (Multiset.mem_of_le h_own
        (mem_live.mpr ⟨_, List.mem_singleton_self _, .active, s, hs, rfl⟩))
    intro h_now
    rw [← List.append_assoc] at h_fresh
    exact not_installedIn_of_fresh (nodup_of_append h_fresh) (mem_installedIn.mp h_now) h_mem
  refine ⟨(Replaced.of_install hstep hs h_inst h_new).run h₂, h_filtered, ?_, ?_⟩
  · exact (peerClock_established h_init h₁ .active s hs).trans hstep.1
  · exact hstep.2.1 ▸ (peerClock_emits h_tail).2

/-- **What becomes of a packet of the replaced session**: it is returned within 15 seconds of the
time that session was established. -/
theorem previous_decrypts {s : ActiveSession S} {es : List (Event S)} {c : Clocked S} {a : Instant}
    {payload padded : Bytes} (h_key : S.KeyCommitting) (hr : Replaced s c)
    (hf : Filtered es [c.peer]) (h : Arrives s es c a payload padded) :
    (c.peer.decryptPacket payload a).result =
      if elapsedSecs a s.establishedAt < 15 then some (truncatePlaintext padded) else none := by
  obtain ⟨act, hact, hne⟩ := hr.active
  -- only a session with the state of `s` authenticates the packet
  have h_only : ∀ k s₀ pt, c.peer.Authenticates payload a k s₀ pt → k = .previous := by
    intro k s₀ pt hauth
    have hst : s₀.state = s.state := h_key.state_eq h.read hauth.read
    cases k with
    | previous => rfl
    | active =>
      obtain rfl := Option.some.inj (hact.symm.trans hauth.honours.1)
      exact absurd hst hne
  rcases hr.previous with ⟨s', hs', hst', het'⟩ | ⟨hnone, hexp⟩
  · have h_grace : Peer.graceOver s' a = false ↔ elapsedSecs a s.establishedAt < 15 := by
      simp only [Peer.graceOver, het', decide_eq_false_iff_not, not_le]
    split_ifs with hlt
    · have h_adm : ReplayFilter.Admits 1024 (seenIn s.state es)
          (Peer.packetNonce payload).toNat := by
        refine ⟨fun hn => ?_, fun m hm => ?_⟩
        · obtain ⟨o, ho, hst, hn⟩ := mem_seenIn.mp hn
          exact h.unseen o ho hst (UInt64.toNat_inj.mp hn)
        · obtain ⟨o, ho, hst, rfl⟩ := mem_seenIn.mp hm
          exact h.inside o ho hst
      have h_win := hf.window _ (List.mem_singleton_self _) .previous s' hs'
      rw [hst'] at h_win
      have hauth : c.peer.Authenticates payload a .previous s' padded := by
        refine ⟨⟨hs', fun _ => h_grace.mpr hlt⟩, h.length, ?_⟩
        rw [hst']
        exact h.read
      rw [Peer.decryptPacket_of_reads (hauth.reads h_only), if_pos (h_win.accepts h_adm)]
    · -- the session is still there, but no longer honoured
      have h_not : ∀ k s₀ pt, ¬ c.peer.Authenticates payload a k s₀ pt := by
        intro k s₀ pt hauth
        obtain rfl := h_only k s₀ pt hauth
        obtain rfl := Option.some.inj (hs'.symm.trans hauth.honours.1)
        exact hlt (h_grace.mp (hauth.honours.2 rfl))
      rw [Peer.decryptPacket_of_unauthentic h_not]
  · have h_not : ∀ k s₀ pt, ¬ c.peer.Authenticates payload a k s₀ pt := by
      intro k s₀ pt hauth
      obtain rfl := h_only k s₀ pt hauth
      cases hnone.symm.trans hauth.honours.1
    rw [if_neg (not_lt.mpr (hexp.trans (elapsedSecs_mono h.time))),
      Peer.decryptPacket_of_unauthentic h_not]

/-- **Exactly when the grace period runs from the replacement.** After a run in which a session was
replaced at time `r`, a fresh packet of that session is returned if it arrives within 15 seconds
of `r` and not later, if and only if it arrives within 15 seconds of the time the session was
established, or 15 seconds or more after `r`. -/
theorem grace_iff {s : ActiveSession S} {r a : Instant} {es : List (Event S)} {c : Clocked S}
    {payload padded : Bytes} (h_key : S.KeyCommitting) (h_run : Rekeyed s r es c)
    (h_fresh : (installedIn es).Nodup) (h_arrives : Arrives s es c a payload padded) :
    DecryptedInGrace c r a payload padded ↔
      elapsedSecs a s.establishedAt < 15 ∨ 15 ≤ elapsedSecs a r := by
  obtain ⟨hr, hf, h_est, -⟩ := h_run.replaced h_fresh
  -- a session is replaced after it was established, so it expires before the time it should
  have h_later : elapsedSecs a r ≤ elapsedSecs a s.establishedAt :=
    Nat.div_le_div_right (Nat.sub_le_sub_left h_est a)
  rw [DecryptedInGrace, previous_decrypts h_key hr hf h_arrives]
  split_ifs with he
  · refine iff_of_true ⟨fun _ => rfl, fun h => ?_⟩ (Or.inl he)
    omega
  · constructor
    · rintro ⟨h, -⟩
      by_contra hcon
      rw [not_or, not_le] at hcon
      exact absurd (h hcon.2) (by simp)
    · rintro (h | h)
      · exact absurd h he
      · -- so late it should be lost, and is
        exact ⟨fun h' => absurd h' (not_lt.mpr h), fun _ => rfl⟩

/-! ### A rekey after 130 seconds -/

section Evaluation

/-- The peer after an operation. -/
def Clocked.after (c : Clocked S) (now : Instant) (op : PeerOp S) : Clocked S :=
  ⟨now, (c.peer.apply now op).2⟩

/-- The label of an operation. -/
def Clocked.label (c : Clocked S) (now : Instant) (op : PeerOp S) : PeerLabel S :=
  ⟨now, op, (c.peer.apply now op).1⟩

theorem Clocked.step_after (c : Clocked S) {now : Instant} (op : PeerOp S) (h : c.time ≤ now) :
    (peerClock S).step c (c.label now op) (c.after now op) :=
  ⟨h, rfl, rfl⟩

end Evaluation

namespace Symbolic

/-- The peer of `node`, new. -/
def newPeer : Clocked symbolic :=
  ⟨0, { Peer.new (key 9) none [] 0 with magic := MagicConfig.default }⟩

/-- Answer the peer's initiation with the ephemeral `e`. -/
def answer (e f : UInt16) : PeerOp symbolic :=
  .handleHandshakePacket (key 7) MagicConfig.default.handshakeInit (initiation 9 7 e) (draw f)

/-- A number of seconds. -/
def seconds (n : ℕ) : Instant := n * 1000000000

/-- The peer with its first session, established at time 0. -/
def sessionPeer : Clocked symbolic := newPeer.after 0 (answer 1 2)

/-- The peer after that session was replaced, at 130 seconds. -/
def rekeyedPeer : Clocked symbolic := sessionPeer.after (seconds 130) (answer 4 5)

def rekeyEvents : List (Event symbolic) :=
  peerEvents [newPeer.label 0 (answer 1 2), sessionPeer.label (seconds 130) (answer 4 5)]

/-- The run that leads there. -/
theorem rekeyedPeer_rekeyed :
    Rekeyed (ActiveSession.fresh (nodeEnd 1 2) 0) (seconds 130) rekeyEvents rekeyedPeer :=
  ⟨newPeer, [newPeer.label 0 (answer 1 2)], sessionPeer,
    sessionPeer.label (seconds 130) (answer 4 5), rekeyedPeer, [], ⟨key 9, none, [], _, rfl⟩,
    Exec.single (newPeer.step_after _ (Nat.zero_le _)), rfl,
    sessionPeer.step_after _ (Nat.zero_le _), rfl, by decide +kernel, Exec.refl, rfl⟩

/-- The other end's first packet under the replaced session, without its type byte. -/
def latePayload : Bytes := (dataPacket (nodeEnd 1 2) 0 ipv4Packet).tail

/-- Nothing was opened before it, so its nonce is new. -/
theorem latePayload_arrives : Arrives (ActiveSession.fresh (nodeEnd 1 2) 0) rekeyEvents rekeyedPeer
    (seconds 131) latePayload ipv4Packet := by
  have h_none : openedIn rekeyEvents = [] := by
    refine List.length_eq_zero_iff.mp ?_
    decide +kernel
  refine ⟨by decide +kernel, by decide +kernel, by decide +kernel, ?_, ?_⟩ <;> simp [h_none]

end Symbolic

open Symbolic in
/-- The condition, for a packet that arrives a second after the replacement. -/
theorem grace_iff_late :
    DecryptedInGrace rekeyedPeer (seconds 130) (seconds 131) latePayload ipv4Packet ↔
      elapsedSecs (seconds 131) 0 < 15 ∨ 15 ≤ elapsedSecs (seconds 131) (seconds 130) :=
  grace_iff keyCommitting rekeyedPeer_rekeyed (by decide +kernel) latePayload_arrives

open Symbolic in
/-- A packet that arrives a second after its session was replaced is not returned. -/
theorem grace_not_from_replacement :
    ¬ ∀ (s : ActiveSession symbolic) (r a : Instant) (es : List (Event symbolic))
      (c : Clocked symbolic) (payload padded : Bytes), Rekeyed s r es c →
      (installedIn es).Nodup → Arrives s es c a payload padded →
      DecryptedInGrace c r a payload padded := by
  intro h
  have h_late := (h _ _ _ _ _ _ _ rekeyedPeer_rekeyed (by decide +kernel) latePayload_arrives).1
    (by decide +kernel)
  have h_lost : (rekeyedPeer.peer.decryptPacket latePayload (seconds 131)).result = none := by
    decide +kernel
  rw [h_lost] at h_late
  cases h_late

end AraxMesh
