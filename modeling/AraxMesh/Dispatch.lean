import AraxMesh.Ledger
import AraxMesh.Symbolic

/-!
# Inbound data

What the two dispatchers make of a data packet, and the authenticity of what they hand to the TUN
device.

A peer `Admits` a packet when it authenticates under a session that is tried and its nonce passes
the replay window. `DataTurn` describes a data turn by this predicate alone: a peer that admits
nothing is not touched, and every event belongs to a peer that admits the packet. Both dispatchers
make data turns (`udpData_turn`, `relayedData_turn`), although the UDP dispatcher may have changed
a peer before it goes on to the trial loop: that peer has the sender's endpoint, and the loop skips
it.

`Filtered` is the invariant that goes with it along a run: the window of a session represents the
nonces that the history opened under its transport state. Only an opening moves a window, and it
adds its own nonce, so the window is always that of the history.
-/

namespace AraxMesh

open LTS FirstMatch

variable {S : Snow}

namespace Peer

/-- The packet authenticates under a session that is tried, and its nonce is accepted. -/
structure Admits (p : Peer S) (payload : Bytes) (now : Instant) (k : Slot) (s : ActiveSession S)
    (padded : Bytes) : Prop extends p.Authenticates payload now k s padded where
  unspent : (s.replay.checkAndUpdate (packetNonce payload)).1 = true

/-- Cryptokey routing: the inner source address lies in one of the peer's subnets. -/
def Allows (p : Peer S) (plaintext : Bytes) : Prop :=
  ∃ src dst, parseIpv4Header plaintext = some (src, dst) ∧
    p.allowedIps.any (·.contains src) = true

/-- What `acceptData` can do. -/
inductive Accepted (p : Peer S) (payload : Bytes) (now : Instant) :
    Outcome S (Option Bytes) (Peer S) → Prop
  /-- The packet does not authenticate, or is a replay. -/
  | ignored : Accepted p payload now { result := none, state := p }
  /-- It is opened, and what is handed on has a source address of the peer. The nonce is spent even
  if nothing is handed on. -/
  | opened (k : Slot) (s : ActiveSession S) (padded : Bytes) (w : ReplayWindow)
      (h : p.Admits payload now k s padded) (result : Option Bytes)
      (hres : ∀ pt, result = some pt → pt = truncatePlaintext padded ∧ p.Allows pt) :
      Accepted p payload now
        { result := result
          events := [.opened ⟨truncatePlaintext padded, s.state, packetNonce payload⟩]
          state := { p.setSlot k (s.accept w payload.length) with lastRx := now } }

/-- Decrypting, and the check of the source address after it. -/
theorem accepted (p : Peer S) (payload : Bytes) (now : Instant) :
    p.Accepted payload now (p.acceptData payload now) := by
  unfold acceptData
  have hd := p.decrypted payload now
  generalize p.decryptPacket payload now = out at hd ⊢
  cases hd with
  | unauthentic => exact .ignored
  | replayed => exact .ignored
  | opened k s padded w h hw =>
    have hadm : p.Admits payload now k s padded := ⟨h, by rw [hw]⟩
    have hips : (p.setSlot k (s.accept w payload.length)).allowedIps = p.allowedIps := by
      cases k <;> rfl
    -- the source check reads the subnets, which opening a packet leaves alone
    dsimp only
    split
    · next src dst hhead =>
      split_ifs with hany
      · refine .opened k s padded w hadm _ ?_
        rintro pt ⟨⟩
        exact ⟨rfl, src, dst, hhead, by rwa [hips] at hany⟩
      · exact .opened k s padded w hadm _ (by simp)
    · exact .opened k s padded w hadm _ (by simp)

/-- An event of a data turn: a session opened the packet, or its plaintext was written. -/
def DataEvent (p : Peer S) (payload : Bytes) (now : Instant) (e : Event S) : Prop :=
  ∃ k s padded, p.Admits payload now k s padded ∧
    (e = .opened ⟨truncatePlaintext padded, s.state, packetNonce payload⟩ ∨
      e = .written (truncatePlaintext padded) ∧ p.Allows (truncatePlaintext padded))

/-- The peer admits the packet under one of its sessions. -/
def AdmitsSome (p : Peer S) (payload : Bytes) (now : Instant) : Prop :=
  ∃ k s padded, p.Admits payload now k s padded

end Peer

/-- A data turn over the peers that satisfy `P`: the others, and those that do not admit the packet,
keep every field, and every event is one of an admitting peer. -/
structure DataTurn (P : Peer S → Prop) (payload : Bytes) (now : Instant) (l : List (Peer S))
    (es : List (Event S)) (l' : List (Peer S)) : Prop where
  frame : List.Forall₂ (fun p p' => p' = p ∨ P p ∧ p.AdmitsSome payload now) l l'
  events : ∀ e ∈ es, ∃ p ∈ l, P p ∧ p.DataEvent payload now e

/-- What one peer's share of a data turn comes to. -/
theorem Peer.Accepted.share {p : Peer S} {payload : Bytes} {now : Instant}
    {out : Outcome S (Option Bytes) (Peer S)} (h : p.Accepted payload now out) :
    (out.state = p ∧ out.events = [] ∧ out.result = none ∨ p.AdmitsSome payload now) ∧
    (∀ e ∈ out.events, p.DataEvent payload now e) ∧
    (∀ e ∈ (writeTun out.result : List (Event S)), p.DataEvent payload now e) ∧
    out.state.endpoint = p.endpoint := by
  cases h with
  | ignored => exact ⟨Or.inl ⟨rfl, rfl, rfl⟩, by simp, by simp [writeTun], rfl⟩
  | opened k s padded w h result hres =>
    refine ⟨Or.inr ⟨k, s, padded, h⟩, ?_, ?_, by cases k <;> rfl⟩
    · intro e he
      exact ⟨k, s, padded, h, Or.inl (List.mem_singleton.mp he)⟩
    · intro e he
      cases result with
      | none => cases he
      | some pt =>
        obtain ⟨rfl, hallows⟩ := hres pt rfl
        simp only [writeTun] at he
        split_ifs at he
        · exact ⟨k, s, padded, h, Or.inr ⟨List.mem_singleton.mp he, hallows⟩⟩
        · cases he

/-- The trial loop is a data turn over the peers whose endpoint is not the sender's address. -/
theorem trialDecrypt_turn (addr : SocketAddr) (payload : Bytes) (now : Instant)
    (l : List (Peer S)) :
    DataTurn (fun p => p.endpoint ≠ some addr) payload now l
      ((trialDecrypt addr payload now l).events ++
        writeTun (trialDecrypt addr payload now l).result)
      (trialDecrypt addr payload now l).state := by
  induction l with
  | nil => exact ⟨.nil, by simp [trialDecrypt, writeTun]⟩
  | cons p ps ih =>
    have h_rest : ∀ {e : Event S}, (∃ q ∈ ps, q.endpoint ≠ some addr ∧ q.DataEvent payload now e) →
        ∃ q ∈ p :: ps, q.endpoint ≠ some addr ∧ q.DataEvent payload now e := by
      rintro e ⟨q, hq, h⟩
      exact ⟨q, List.mem_cons_of_mem _ hq, h⟩
    unfold trialDecrypt
    by_cases hep : p.endpoint = some addr
    · -- a peer at the address is passed over
      rw [if_pos hep]
      exact ⟨.cons (Or.inl rfl) ih.frame, fun e he => h_rest (ih.events e he)⟩
    · rw [if_neg hep]
      obtain ⟨h_state, h_ev, h_write, -⟩ := (p.accepted payload now).share
      generalize p.acceptData payload now = out at h_state h_ev h_write ⊢
      have h_self : ∀ {e : Event S}, p.DataEvent payload now e →
          ∃ q ∈ p :: ps, q.endpoint ≠ some addr ∧ q.DataEvent payload now e := fun h =>
        ⟨p, List.mem_cons_self, hep, h⟩
      obtain ⟨result, events, q⟩ := out
      cases result with
      | some plaintext =>
        -- this peer accepts, and the loop stops
        refine ⟨.cons (Or.inr ⟨hep, ?_⟩) (List.forall₂_same.mpr fun _ _ => Or.inl rfl), ?_⟩
        · rcases h_state with ⟨-, -, hnone⟩ | h
          · cases hnone
          · exact h
        · intro e he
          rcases List.mem_append.mp he with he | he
          · exact h_self (h_ev e he)
          · exact h_self (h_write e he)
      -- this peer does not, and the loop goes on with it changed at most by a packet it admits
      | none =>
        refine ⟨.cons ?_ ih.frame, ?_⟩
        · rcases h_state with ⟨rfl, -⟩ | h
          · exact Or.inl rfl
          · exact Or.inr ⟨hep, h⟩
        · intro e he
          simp only [List.append_assoc, List.mem_append] at he
          rcases he with he | he
          · exact h_self (h_ev e he)
          · exact h_rest (ih.events e (List.mem_append.mpr he))

namespace PeerManager

/-- **The data branch of the UDP dispatcher is a data turn.** -/
theorem udpData_turn (pm : PeerManager S) (payload : Bytes) (addr : SocketAddr) (now : Instant) :
    DataTurn (fun _ => True) payload now pm.peers (pm.udpData payload addr now).1
      (pm.udpData payload addr now).2.peers := by
  unfold udpData
  rcases updateFirst_cases (fun p : Peer S => p.endpoint = some addr) (fun p =>
      let out := p.acceptData payload now
      let p := if out.result.isSome then { out.state with lastDirectRx := now } else out.state
      ((out.result, out.events), p)) pm.peers with ⟨-, heq⟩ | ⟨l₁, p, l₂, hl, hep, -, heq⟩
  · -- nobody is at the address
    rw [heq]
    have h := trialDecrypt_turn addr payload now pm.peers
    refine ⟨h.frame.imp fun p p' hp => hp.imp id fun hp => ⟨trivial, hp.2⟩, ?_⟩
    intro e he
    obtain ⟨q, hq, -, hev⟩ := h.events e he
    exact ⟨q, hq, trivial, hev⟩
  · rw [heq, hl]
    have hep : p.endpoint = some addr := by simpa using hep
    have hmem : p ∈ l₁ ++ p :: l₂ := by simp
    obtain ⟨h_state, h_ev, h_write, h_ep⟩ := (p.accepted payload now).share
    generalize p.acceptData payload now = out at h_state h_ev h_write h_ep ⊢
    obtain ⟨result, events, q⟩ := out
    cases result with
    -- the peer at the address accepts
    | some plaintext =>
      refine ⟨?_, ?_⟩
      · rcases h_state with ⟨-, -, hnone⟩ | h
        · cases hnone
        · refine forall₂_middle ?_ ?_ l₁ l₂
          · exact fun _ => Or.inl rfl
          · exact Or.inr ⟨trivial, h⟩
      · intro e he
        rcases List.mem_append.mp he with he | he
        · exact ⟨p, hmem, trivial, h_ev e he⟩
        · exact ⟨p, hmem, trivial, h_write e he⟩
    | none =>
      -- the peer tried first keeps its endpoint, so the loop does not come back to it
      have hq : q.endpoint = some addr := h_ep.trans hep
      have h_trial := trialDecrypt_turn addr payload now (l₁ ++ q :: l₂)
      have h_first : List.Forall₂ (fun a b => b = a ∨ b.endpoint = some addr ∧
          a.AdmitsSome payload now) (l₁ ++ p :: l₂) (l₁ ++ q :: l₂) := by
        refine forall₂_middle ?_ ?_ l₁ l₂
        · exact fun _ => Or.inl rfl
        · exact h_state.imp And.left fun h => ⟨hq, h⟩
      -- the two parts together: a peer is changed by one of them at most
      refine ⟨forall₂_comp ?_ h_first h_trial.frame, ?_⟩
      · rintro a b c hab hbc
        rcases hbc with rfl | ⟨hne, hb⟩
        · exact hab.imp id fun h => ⟨trivial, h.2⟩
        · rcases hab with rfl | ⟨he, -⟩
          · exact Or.inr ⟨trivial, hb⟩
          · exact absurd he hne
      · intro e he
        simp only [Option.getD_some, List.append_assoc, List.mem_append] at he
        rcases he with he | he
        · exact ⟨p, hmem, trivial, h_ev e he⟩
        · obtain ⟨b, hb, hne, hev⟩ := h_trial.events e (List.mem_append.mpr he)
          obtain ⟨a, ha, rfl | ⟨he, -⟩⟩ := forall₂_mem_right h_first hb
          · exact ⟨b, ha, trivial, hev⟩
          · exact absurd he hne

/-- The dispatcher's turn on a datagram of which a data packet is received. -/
theorem step_received_data {pm : PeerManager S} (h_init : pm.magic.data ≠ pm.magic.handshakeInit)
    (h_resp : pm.magic.data ≠ pm.magic.handshakeResp) (hasRelay : Bool) (now : Instant)
    {datagram payload : Bytes} (h_recv : recvFrom datagram = pm.magic.data :: payload)
    (addr : SocketAddr) (d : Draw S) :
    pm.step hasRelay now (.udp datagram addr d) = pm.udpData payload addr now := by
  simp only [step, h_recv, udpPacket, if_neg h_init, if_neg h_resp, if_true]

/-- What the relay dispatcher does with the peer it finds for a data packet. -/
abbrev relayedLook (payload : Bytes) (now : Instant) (p : Peer S) : Turn S (Peer S) :=
  let out := p.acceptData payload now
  (out.events ++ writeTun out.result, out.state)

/-- The dispatcher's turn on a data packet from the relay. -/
theorem step_relayed_data {pm : PeerManager S} (h_init : pm.magic.data ≠ pm.magic.handshakeInit)
    (h_resp : pm.magic.data ≠ pm.magic.handshakeResp) (hasRelay : Bool) (now : Instant)
    (fromKey payload : Bytes) (d : Draw S) :
    pm.step hasRelay now (.relayed fromKey (pm.magic.data :: payload) d) =
      pm.updatePeer (·.pubkey = fromKey) (relayedLook payload now) := by
  simp only [step, relayedPacket, if_neg h_init, if_neg h_resp, if_true]

/-- **The data branch of the relay dispatcher is a data turn** over the peers with the sender's
key. -/
theorem relayedData_turn (pm : PeerManager S) (fromKey payload : Bytes) (now : Instant) :
    DataTurn (fun p => p.pubkey = fromKey) payload now pm.peers
      (pm.updatePeer (·.pubkey = fromKey) (relayedLook payload now)).1
      (pm.updatePeer (·.pubkey = fromKey) (relayedLook payload now)).2.peers := by
  unfold updatePeer
  rcases updateFirst_cases (fun p : Peer S => p.pubkey = fromKey) (relayedLook payload now) pm.peers
    with ⟨-, heq⟩ | ⟨l₁, p, l₂, hl, hkey, -, heq⟩
  · rw [heq]
    exact ⟨List.forall₂_same.mpr fun _ _ => Or.inl rfl, by simp⟩
  · rw [heq, hl]
    have hkey : p.pubkey = fromKey := by simpa using hkey
    have hmem : p ∈ l₁ ++ p :: l₂ := by simp
    obtain ⟨h_state, h_ev, h_write, -⟩ := (p.accepted payload now).share
    dsimp only [relayedLook]
    generalize p.acceptData payload now = out at h_state h_ev h_write ⊢
    refine ⟨?_, ?_⟩
    · refine forall₂_middle ?_ ?_ l₁ l₂
      · exact fun _ => Or.inl rfl
      · exact h_state.imp And.left fun h => ⟨hkey, h⟩
    · intro e he
      rcases List.mem_append.mp he with he | he
      · exact ⟨p, hmem, hkey, h_ev e he⟩
      · exact ⟨p, hmem, hkey, h_write e he⟩

end PeerManager

/-- The task brings a data packet with this payload. The dispatchers look for the handshake types
first, so a configuration that gives one of them the byte of data packets has no data packets. -/
def DaemonTask.BringsData (magic : MagicConfig) (payload : Bytes) (task : DaemonTask S) : Prop :=
  magic.data ≠ magic.handshakeInit ∧ magic.data ≠ magic.handshakeResp ∧
    task.Brings magic.data payload

/-- The task is not a relayed packet, or the peer has the key it was relayed from. -/
def Peer.SentBy (p : Peer S) (task : DaemonTask S) : Prop :=
  ∀ fromKey packet d, task = .relayed fromKey packet d → p.pubkey = fromKey

namespace PeerManager

/-- **A data packet makes a data turn**, on either path. -/
theorem step_data (pm : PeerManager S) (hasRelay : Bool) (now : Instant) {task : DaemonTask S}
    {payload : Bytes} (h : task.BringsData pm.magic payload) :
    DataTurn (·.SentBy task) payload now pm.peers (pm.step hasRelay now task).1
      (pm.step hasRelay now task).2.peers := by
  obtain ⟨h_init, h_resp, ⟨addr, d, datagram, rfl, h_recv⟩ | ⟨fromKey, d, rfl⟩⟩ := h
  · -- by UDP the packet may be the work of any peer
    rw [step_received_data h_init h_resp hasRelay now h_recv]
    have h := pm.udpData_turn payload addr now
    have h_by : ∀ p : Peer S, p.SentBy (.udp datagram addr d) := by
      rintro p fromKey packet d ⟨⟩
    refine ⟨h.frame.imp fun p p' hp => hp.imp id fun hp => ⟨h_by p, hp.2⟩, ?_⟩
    intro e he
    obtain ⟨p, hp, -, hev⟩ := h.events e he
    exact ⟨p, hp, h_by p, hev⟩
  · -- the relay names the peer it is from
    rw [step_relayed_data h_init h_resp]
    have h := pm.relayedData_turn fromKey payload now
    have h_by : ∀ p : Peer S, p.pubkey = fromKey →
        p.SentBy (.relayed fromKey (pm.magic.data :: payload) d) := by
      rintro p hp fromKey packet d ⟨⟩
      exact hp
    refine ⟨h.frame.imp fun p p' hp => hp.imp id fun hp => ⟨h_by p hp.1, hp.2⟩, ?_⟩
    intro e he
    obtain ⟨p, hp, hkey, hev⟩ := h.events e he
    exact ⟨p, hp, h_by p hkey, hev⟩

end PeerManager

/-- A data turn in which no peer admits the packet does nothing. -/
theorem DataTurn.idle {P : Peer S → Prop} {payload : Bytes} {now : Instant} {l l' : List (Peer S)}
    {es : List (Event S)} (h : DataTurn P payload now l es l')
    (h_none : ∀ p ∈ l, ¬ p.AdmitsSome payload now) : es = [] ∧ l' = l := by
  -- every event and every change belongs to a peer that admits the packet
  constructor
  · refine List.eq_nil_iff_forall_not_mem.mpr fun e he => ?_
    obtain ⟨p, hp, -, k, s, padded, hadm, -⟩ := h.events e he
    exact h_none p hp ⟨k, s, padded, hadm⟩
  · refine List.ext_getElem? fun i => ?_
    cases hi : l[i]? with
    | none =>
      rw [List.getElem?_eq_none_iff] at hi ⊢
      exact h.frame.length_eq ▸ hi
    | some p =>
      obtain ⟨p', hp', rfl | hadm⟩ := forall₂_getElem? h.frame hi
      · exact hp'
      · exact absurd hadm.2 (h_none p (List.mem_of_getElem? hi))

/-! ### The history and the replay windows -/

open Classical in
/-- The nonces a history opened under a transport state. -/
noncomputable def seenIn (t : S.Transport) (es : List (Event S)) : Finset ℕ :=
  (((openedIn es).filter (·.state = t)).map (·.nonce.toNat)).toFinset

/-- A nonce was seen if some packet with it was opened. -/
theorem mem_seenIn {t : S.Transport} {es : List (Event S)} {n : ℕ} :
    n ∈ seenIn t es ↔ ∃ o ∈ openedIn es, o.state = t ∧ o.nonce.toNat = n := by
  simp [seenIn, and_assoc]

/-- Events that do not use a transport state open nothing under it. -/
theorem seenIn_append_of_not_uses {t : S.Transport} {past es : List (Event S)}
    (h : ∀ e ∈ es, ¬ e.Uses t) : seenIn t (past ++ es) = seenIn t past := by
  ext n
  simp only [mem_seenIn, openedIn_append, List.mem_append]
  constructor
  · rintro ⟨o, ho | ho, hst, hn⟩
    · exact ⟨o, ho, hst, hn⟩
    · exact absurd hst (h _ (mem_openedIn.mp ho))
  · rintro ⟨o, ho, hst⟩
    exact ⟨o, Or.inl ho, hst⟩

/-- One opened packet adds its nonce. -/
theorem seenIn_append_opened (past : List (Event S)) (o : Opened S) :
    seenIn o.state (past ++ [.opened o]) = insert o.nonce.toNat (seenIn o.state past) := by
  ext n
  simp only [mem_seenIn, openedIn_append, List.mem_append, Finset.mem_insert]
  constructor
  · rintro ⟨o', ho' | ho', hst, hn⟩
    · exact Or.inr ⟨o', ho', hst, hn⟩
    · obtain rfl : o' = o := by simpa [openedIn] using ho'
      exact Or.inl hn.symm
  · rintro (rfl | ⟨o', ho', hst, hn⟩)
    · exact ⟨o, Or.inr (by simp [openedIn]), rfl, rfl⟩
    · exact ⟨o', Or.inl ho', hst, hn⟩

/-- The replay window of every session of the table is that of the nonces the history opened
under its transport state. -/
structure Filtered (past : List (Event S)) (l : List (Peer S)) : Prop extends Owned past l where
  window : ∀ p ∈ l, ∀ k s, p.slot k = some s → s.replay.Represents (seenIn s.state past)

/-- A table without sessions has no windows. -/
theorem Filtered.of_idle {l : List (Peer S)} (h : ∀ p ∈ l, ∀ k, p.slot k = none) :
    Filtered [] l := by
  refine ⟨Owned.of_idle h, fun p hp k s hs => ?_⟩
  exact absurd ((h p hp k).symm.trans hs) (by simp)

/-- **A step keeps the windows those of the history.** -/
theorem Filtered.step {magic : MagicConfig} {past es : List (Event S)} {l l' : List (Peer S)}
    (h : Filtered past l) (hf : (installedIn (past ++ es)).Nodup) (hs : TableStep magic l es l') :
    Filtered (past ++ es) l' := by
  refine ⟨h.toOwned.step hs, ?_⟩
  intro p hp k s hps
  cases hs.origin (h.nodup (nodup_of_append hf)) hp hps with
  | fresh t now ht hes =>
    -- nothing was ever opened under what is installed now
    have h_none : seenIn t (past ++ es) = ∅ := by
      rw [seenIn_append_of_not_uses fun e he => hes e he t]
      refine Finset.eq_empty_of_forall_notMem fun n hn => ?_
      obtain ⟨o, ho, hst, -⟩ := mem_seenIn.mp hn
      exact h.not_uses_of_fresh hf ht _ (mem_openedIn.mp ho) hst
    rw [ActiveSession.fresh_state, h_none]
    exact ReplayWindow.Represents.new
  -- a session that was not used keeps its window
  | kept hq k₀ _ s hq' hk hes =>
    rw [seenIn_append_of_not_uses hes]
    exact h.window _ hq _ _ hq'
  -- sending opens nothing
  | encrypted hq s₀ len hq' hes =>
    have h_same : seenIn s₀.state (past ++ es) = seenIn s₀.state past := by
      ext n
      obtain rfl | ⟨packet, dest, rfl⟩ := hes <;> simp [mem_seenIn, openedIn]
    rw [Peer.advance_state, h_same]
    change s₀.replay.Represents _
    exact h.window _ hq _ _ hq'
  -- the window takes the nonce in
  | opened hq k₀ s₀ w n plaintext len hq' hw hes =>
    subst hes
    have h_seen : seenIn s₀.state (past ++ [.opened ⟨plaintext, s₀.state, n⟩])
        = insert n.toNat (seenIn s₀.state past) :=
      seenIn_append_opened past ⟨plaintext, s₀.state, n⟩
    rw [ActiveSession.accept_state, h_seen]
    rcases (h.window _ hq _ _ hq').checkAndUpdate n with ⟨-, -, hrep⟩ | ⟨-, hrej, -⟩
    · rwa [hw] at hrep
    · rw [hw] at hrej
      cases hrej

theorem Filtered.run {magic : MagicConfig} {past es : List (Event S)} {l l' : List (Peer S)}
    (h : Filtered past l) (hrun : Emits (table S magic) l es l')
    (hf : (installedIn (past ++ es)).Nodup) : Filtered (past ++ es) l' := by
  refine hrun.induct (fun past l => (installedIn past).Nodup → Filtered past l) (fun _ => h) ?_ hf
  intro past l es l' ih hs hf
  exact (ih (nodup_of_append hf)).step hf hs

/-- The invariant in every state the daemon reaches. -/
theorem filtered_of_run {hasRelay : Bool} {pm₀ pm : PeerManager S} {ls : List (DaemonLabel S)}
    (h_init : pm₀.Initial) (h_run : Exec (daemon S hasRelay) pm₀ ls pm)
    (h_fresh : (installedIn (eventsOf ls)).Nodup) : Filtered (eventsOf ls) pm.peers :=
  (Filtered.of_idle fun _ hp k => slot_of_init h_init.table hp k).run (daemon_emits h_run).2 h_fresh

/-- Under ideal encryption a packet authenticates under the sessions of one place at most. -/
theorem authenticates_unique (h_key : S.KeyCommitting) {l : List (Peer S)} (hnd : (live l).Nodup)
    {payload : Bytes} {now : Instant} {i j : ℕ} {p q : Peer S} (hp : l[i]? = some p)
    (hq : l[j]? = some q) {k k' : Slot} {s s' : ActiveSession S} {padded padded' : Bytes}
    (h : p.Authenticates payload now k s padded) (h' : q.Authenticates payload now k' s' padded') :
    j = i := by
  have hst : s'.state = s.state :=
    h_key.state_eq h.read h'.read
  exact (place_unique hnd hp hq h.honours.1 h'.honours.1 hst).1

/-- **Inbound authenticity and isolation.** In every state a run of the daemon reaches, for every
data packet on either path:

* what is written to the TUN device authenticates under a session of a peer that is tried for it,
  under a nonce that session has not opened before, and its source address lies in a subnet of
  that peer; on the relay path the peer has the sender's key;
* if the packet authenticates under a session, no peer other than its owner changes;
* if it authenticates under none, nothing happens. -/
theorem inbound_data_authentic {hasRelay : Bool} {pm₀ pm pm' : PeerManager S}
    {ls : List (DaemonLabel S)} {now : Instant} {task : DaemonTask S} {payload : Bytes}
    {es : List (Event S)} (h_key : S.KeyCommitting) (h_init : pm₀.Initial)
    (h_run : Exec (daemon S hasRelay) pm₀ ls pm) (h_fresh : (installedIn (eventsOf ls)).Nodup)
    (h_data : task.BringsData pm.magic payload)
    (h_step : pm.step hasRelay now task = (es, pm')) :
    (∀ pt, .written pt ∈ es → ∃ p ∈ pm.peers, ∃ k s padded,
      p.Authenticates payload now k s padded ∧ pt = truncatePlaintext padded ∧
      (∀ o ∈ openedIn (eventsOf ls), o.state = s.state → o.nonce ≠ Peer.packetNonce payload) ∧
      p.Allows pt ∧ p.SentBy task) ∧
    (∀ (i : ℕ) (p : Peer S) k s padded, pm.peers[i]? = some p →
      p.Authenticates payload now k s padded →
      ∀ j, j ≠ i → pm'.peers[j]? = pm.peers[j]?) ∧
    ((∀ p ∈ pm.peers, ∀ k s padded, ¬ p.Authenticates payload now k s padded) →
      es = [] ∧ pm' = pm) := by
  have h_filtered := filtered_of_run h_init h_run h_fresh
  have h_turn := pm.step_data hasRelay now h_data
  rw [h_step] at h_turn
  refine ⟨?_, ?_, ?_⟩
  · intro pt hpt
    obtain ⟨p, hp, hby, k, s, padded, hadm, hev | ⟨hev, hallows⟩⟩ := h_turn.events _ hpt
    · cases hev
    cases hev
    refine ⟨p, hp, k, s, padded, hadm.toAuthenticates, rfl, ?_, hallows, hby⟩
    -- an opened nonce is in the window, and rejected
    intro o ho hst hn
    have hrej := (h_filtered.window p hp k s hadm.honours.1).rejects
      (mem_seenIn.mpr ⟨o, ho, hst, congrArg _ hn⟩)
    rw [hadm.unspent] at hrej
    cases hrej
  · -- a peer that changed admits the packet, and only its owner does
    intro i p k s padded hp hauth j hj
    cases hq : pm.peers[j]? with
    | none =>
      rw [List.getElem?_eq_none_iff] at hq ⊢
      exact h_turn.frame.length_eq ▸ hq
    | some q =>
      obtain ⟨q', hq', rfl | ⟨-, k', s', padded', hadm⟩⟩ := forall₂_getElem? h_turn.frame hq
      · exact hq'
      · exact absurd (authenticates_unique h_key (h_filtered.nodup h_fresh) hp hq hauth
          hadm.toAuthenticates) hj
  · intro h_none
    obtain ⟨hes, hpeers⟩ := h_turn.idle fun p hp ⟨k, s, padded, hadm⟩ =>
      h_none p hp k s padded hadm.toAuthenticates
    exact ⟨hes, PeerManager.eq_of_step h_step hpeers⟩

open Symbolic in
/-- The first data packet of a fresh session is written to the TUN device, and is authentic. -/
theorem inbound_data_authentic_first :
    let before := node.runTasks false [(0, .udp (initiationPacket 1) peerAddr (draw 2))]
    let packet := dataPacket (nodeEnd 1 2) 0 ipv4Packet
    ∃ p ∈ before.2.peers, ∃ k s padded, p.Authenticates packet.tail 1 k s padded ∧
      ipv4Packet = truncatePlaintext padded ∧
      (∀ o ∈ openedIn (eventsOf before.1), o.state = s.state →
        o.nonce ≠ Peer.packetNonce packet.tail) ∧
      p.Allows ipv4Packet ∧ p.SentBy (.udp packet peerAddr (draw 3)) := by
  refine (inbound_data_authentic keyCommitting node_initial (PeerManager.exec_runTasks _ _ _)
    (by decide +kernel) ⟨by decide +kernel, by decide +kernel, Or.inl ⟨_, _, _, rfl, rfl⟩⟩
    Prod.mk.eta.symm).1 ipv4Packet (mem_writtenIn.mp ?_)
  decide +kernel

end AraxMesh
