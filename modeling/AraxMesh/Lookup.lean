import AraxMesh.Unauthentic

/-!
# Finding the peer of a datagram

The UDP dispatcher knows a datagram's source address and not whose it is. A response goes to the
first peer whose endpoint is that address and to nobody else; a data packet goes to the first such
peer, and then to every peer whose endpoint is another one. So a response from an address the peer
is not recorded at reaches nobody, and a peer that shares its endpoint with an earlier peer is
never tried at all: `response_installs_iff` and `data_written_iff` say exactly when a genuine packet
finds its peer, and `direct_path_tracked_iff` when it is recorded as heard over the direct path.

A response is read from its first 48 bytes, so the receive buffer cuts nothing off that counts. A
data packet has its tag at the end, and loses it if it is longer than the buffer.

## Proof sketch

1. Under ideal encryption and with fresh sessions, a data packet authenticates under one session of
   the table at most (`DecryptedBy`).
2. So all the other peers are idle in the look by address and in the trial loop, and the branch
   comes to what the one peer does, or to nothing if it is shadowed (`udpDecrypt_lone`).
3. A packet that was cut short authenticates nowhere (`Snow.CutUnread`), and comes to nothing
   (`udpDecrypt_idle`).
-/

namespace AraxMesh

open LTS FirstMatch

variable {S : Snow}

/-! ### The data branch, without the write -/

namespace PeerManager

/-- What the data branch decrypts a packet to, before the plaintext is handed to the TUN device.
`none` is what it reports as a failed decryption. -/
def udpDecrypt (pm : PeerManager S) (payload : Bytes) (addr : SocketAddr) (now : Instant) :
    Outcome S (Option Bytes) (PeerManager S) :=
  let (found, peers) := updateFirst (·.endpoint = some addr) (fun p =>
    let out := p.acceptData payload now
    let p := if out.result.isSome then { out.state with lastDirectRx := now } else out.state
    ((out.result, out.events), p)) pm.peers
  let (result, es) := found.getD (none, [])
  match result with
  | some plaintext => { result := some plaintext, events := es, state := { pm with peers := peers } }
  | none =>
    let out := trialDecrypt addr payload now peers
    { result := out.result, events := es ++ out.events, state := { pm with peers := out.state } }

/-- The data branch decrypts, and writes what it decrypted. -/
theorem udpData_eq (pm : PeerManager S) (payload : Bytes) (addr : SocketAddr) (now : Instant) :
    pm.udpData payload addr now =
      ((pm.udpDecrypt payload addr now).events ++ writeTun (pm.udpDecrypt payload addr now).result,
        (pm.udpDecrypt payload addr now).state) := by
  unfold udpData udpDecrypt
  generalize updateFirst _ _ pm.peers = out
  obtain ⟨_ | ⟨_ | plaintext, es⟩, peers⟩ := out <;> rfl

end PeerManager

/-! ### Peers that do not know the packet -/

namespace Peer

/-- The packet authenticates under some session of the peer. -/
def AuthenticatesSome (p : Peer S) (payload : Bytes) (now : Instant) : Prop :=
  ∃ k s padded, p.Authenticates payload now k s padded

theorem acceptData_idle {p : Peer S} {payload : Bytes} {now : Instant}
    (h : ¬ p.AuthenticatesSome payload now) :
    p.acceptData payload now = { result := none, state := p } := by
  have h_acc := p.accepted payload now
  generalize p.acceptData payload now = out at h_acc ⊢
  cases h_acc with
  | ignored => rfl
  | opened k s padded w hadm => exact absurd ⟨k, s, padded, hadm.toAuthenticates⟩ h

theorem acceptData_endpoint (p : Peer S) (payload : Bytes) (now : Instant) :
    (p.acceptData payload now).state.endpoint = p.endpoint :=
  (p.accepted payload now).share.2.2.2

/-- What the look by address does with the peer it finds. -/
abbrev firstLook (payload : Bytes) (now : Instant) (p : Peer S) :
    (Option Bytes × List (Event S)) × Peer S :=
  let out := p.acceptData payload now
  let p := if out.result.isSome then { out.state with lastDirectRx := now } else out.state
  ((out.result, out.events), p)

theorem firstLook_idle {p : Peer S} {payload : Bytes} {now : Instant}
    (h : ¬ p.AuthenticatesSome payload now) : p.firstLook payload now = ((none, []), p) := by
  dsimp only [firstLook]
  rw [acceptData_idle h]
  rfl

end Peer

theorem trialDecrypt_append (addr : SocketAddr) {payload : Bytes} {now : Instant}
    {l₁ : List (Peer S)} (h : ∀ q ∈ l₁, ¬ q.AuthenticatesSome payload now) (l : List (Peer S)) :
    trialDecrypt addr payload now (l₁ ++ l) =
      { trialDecrypt addr payload now l with
        state := l₁ ++ (trialDecrypt addr payload now l).state } := by
  induction l₁ with
  | nil => rfl
  | cons q l₁ ih =>
    rw [List.cons_append, trialDecrypt, ih fun q hq => h q (List.mem_cons_of_mem _ hq)]
    -- a peer at the sender's address is passed over, any other one cannot decrypt
    split_ifs
    · rfl
    · rw [Peer.acceptData_idle (h q List.mem_cons_self)]
      rfl

theorem trialDecrypt_idle (addr : SocketAddr) {payload : Bytes} {now : Instant}
    {l : List (Peer S)} (h : ∀ q ∈ l, ¬ q.AuthenticatesSome payload now) :
    trialDecrypt addr payload now l = { result := none, state := l } := by
  have h_append := trialDecrypt_append addr h []
  rw [List.append_nil] at h_append
  rw [h_append, trialDecrypt, List.append_nil]

/-! ### The one peer that does -/

/-- The peer after it accepted data from `addr`, or did not. -/
def Outcome.heardFrom (out : Outcome S (Option Bytes) (Peer S)) (addr : SocketAddr)
    (now : Instant) : Peer S :=
  if out.result.isSome then { out.state with endpoint := some addr, lastDirectRx := now }
  else out.state

/-- The trial loop tries the peer unless it has the sender's address. -/
theorem trialDecrypt_lone (p : Peer S) (addr : SocketAddr) {payload : Bytes} {now : Instant}
    {l₁ l₂ : List (Peer S)} (h₁ : ∀ q ∈ l₁, ¬ q.AuthenticatesSome payload now)
    (h₂ : ∀ q ∈ l₂, ¬ q.AuthenticatesSome payload now) :
    trialDecrypt addr payload now (l₁ ++ p :: l₂) =
      if p.endpoint = some addr then { result := none, state := l₁ ++ p :: l₂ }
      else
        { result := (p.acceptData payload now).result
          events := (p.acceptData payload now).events
          state := l₁ ++ (p.acceptData payload now).heardFrom addr now :: l₂ } := by
  rw [trialDecrypt_append addr h₁, trialDecrypt]
  split_ifs with h_ep
  · -- the peer is at the sender's address, so it was tried before
    rw [trialDecrypt_idle addr h₂]
  · generalize p.acceptData payload now = out
    obtain ⟨_ | plaintext, es, q⟩ := out
    · rw [trialDecrypt_idle addr h₂]
      simp [Outcome.heardFrom]
    · -- it accepts, and the loop ends
      rfl

namespace PeerManager

/-- The peer at index `i` has the endpoint `addr`, and so has a peer before it. -/
def Shadowed (pm : PeerManager S) (i : ℕ) (addr : SocketAddr) : Prop :=
  (∃ p, pm.peers[i]? = some p ∧ p.endpoint = some addr) ∧
    ∃ j q, j < i ∧ pm.peers[j]? = some q ∧ q.endpoint = some addr

theorem shadowed_iff {pm : PeerManager S} {l₁ l₂ : List (Peer S)} {p : Peer S}
    (hl : pm.peers = l₁ ++ p :: l₂) {addr : SocketAddr} :
    pm.Shadowed l₁.length addr ↔ p.endpoint = some addr ∧ ∃ q ∈ l₁, q.endpoint = some addr := by
  -- the peers before `p` are those of `l₁`, at the same places
  have h_at : ∀ j, j < l₁.length → pm.peers[j]? = l₁[j]? := by
    intro j hj
    rw [hl, List.getElem?_append_left hj]
  have h_self : pm.peers[l₁.length]? = some p := by simp [hl]
  constructor
  · rintro ⟨⟨p', hp', h_ep⟩, j, q, hj, hq, h_eq⟩
    obtain rfl := Option.some.inj (h_self.symm.trans hp')
    exact ⟨h_ep, q, List.mem_of_getElem? ((h_at j hj).symm.trans hq), h_eq⟩
  · rintro ⟨h_ep, q, hq, h_eq⟩
    obtain ⟨j, hj, rfl⟩ := List.mem_iff_getElem.mp hq
    refine ⟨⟨p, h_self, h_ep⟩, j, _, hj, ?_, h_eq⟩
    rw [h_at j hj, List.getElem?_eq_getElem hj]

variable {pm : PeerManager S} {payload : Bytes} {addr : SocketAddr} {now : Instant}

/-- A look by address that finds nobody, or somebody who cannot decrypt, leaves it all to the trial
loop. -/
theorem udpDecrypt_later {r : Option (Option Bytes × List (Event S))}
    (hr : r.getD (none, []) = (none, []))
    (h_first : updateFirst (fun q => decide (q.endpoint = some addr)) (Peer.firstLook payload now)
      pm.peers = (r, pm.peers)) :
    pm.udpDecrypt payload addr now =
      { result := (trialDecrypt addr payload now pm.peers).result
        events := (trialDecrypt addr payload now pm.peers).events
        state := { pm with peers := (trialDecrypt addr payload now pm.peers).state } } := by
  unfold udpDecrypt
  rw [show updateFirst _ _ pm.peers = _ from h_first]
  dsimp only
  rw [hr]
  rfl

variable {l₁ l₂ : List (Peer S)} {p : Peer S}

/-- The look by address finds the one peer that may decrypt the packet. -/
theorem udpDecrypt_first (hl : pm.peers = l₁ ++ p :: l₂)
    (h₁ : ∀ q ∈ l₁, ¬ q.AuthenticatesSome payload now)
    (h₂ : ∀ q ∈ l₂, ¬ q.AuthenticatesSome payload now)
    (h_pass : ∀ q ∈ l₁, q.endpoint ≠ some addr) (h_ep : p.endpoint = some addr) :
    pm.udpDecrypt payload addr now =
      { result := (p.acceptData payload now).result
        events := (p.acceptData payload now).events
        state := { pm with
          peers := l₁ ++ (p.acceptData payload now).heardFrom addr now :: l₂ } } := by
  have h_first : updateFirst (fun q => decide (q.endpoint = some addr))
      (Peer.firstLook payload now) pm.peers =
        (some (p.firstLook payload now).1, l₁ ++ (p.firstLook payload now).2 :: l₂) := by
    rw [hl]
    exact updateFirst_of_first _ (fun q hq => decide_eq_false (h_pass q hq))
      (decide_eq_true h_ep) l₂
  have h_kept : (p.acceptData payload now).state.endpoint = some addr :=
    (p.acceptData_endpoint payload now).trans h_ep
  unfold udpDecrypt
  rw [show updateFirst _ _ pm.peers = _ from h_first]
  dsimp only [Peer.firstLook, Option.getD_some]
  generalize p.acceptData payload now = out at h_kept ⊢
  obtain ⟨_ | plaintext, es, q⟩ := out
  · -- it refuses, and the trial loop does not ask it again
    have hq : q.endpoint = some addr := h_kept
    have h_skip := trialDecrypt_lone q addr h₁ h₂
    simp [h_skip, hq, Outcome.heardFrom]
  · -- it accepts, and the trial loop is not run
    have hq : q.endpoint = some addr := h_kept
    simp [Outcome.heardFrom, ← hq]

/-- **A packet that one peer at most can decrypt.** If that peer is shadowed it is not tried, and
otherwise it is, at its endpoint or in the trial loop. -/
theorem udpDecrypt_lone (addr : SocketAddr) (hl : pm.peers = l₁ ++ p :: l₂)
    (h₁ : ∀ q ∈ l₁, ¬ q.AuthenticatesSome payload now)
    (h₂ : ∀ q ∈ l₂, ¬ q.AuthenticatesSome payload now) :
    (pm.Shadowed l₁.length addr ∧
      pm.udpDecrypt payload addr now = { result := none, state := pm }) ∨
    ¬ pm.Shadowed l₁.length addr ∧ pm.udpDecrypt payload addr now =
      { result := (p.acceptData payload now).result
        events := (p.acceptData payload now).events
        state := { pm with
          peers := l₁ ++ (p.acceptData payload now).heardFrom addr now :: l₂ } } := by
  rw [shadowed_iff hl]
  have h_trial := trialDecrypt_lone p addr h₁ h₂
  rw [← hl] at h_trial
  by_cases h_before : ∃ q ∈ l₁, q.endpoint = some addr
  · -- the first peer at the address is another one, and cannot decrypt the packet
    have h_first : updateFirst (fun q => decide (q.endpoint = some addr))
        (Peer.firstLook payload now) pm.peers = (some (none, []), pm.peers) := by
      rw [hl]
      exact updateFirst_of_idle (fun q hq => Peer.firstLook_idle (h₁ q hq))
        (by simpa using h_before) _
    rw [udpDecrypt_later (r := some (none, [])) rfl h_first, h_trial]
    by_cases h_ep : p.endpoint = some addr
    · exact Or.inl ⟨⟨h_ep, h_before⟩, by simp only [if_pos h_ep]⟩
    · exact Or.inr ⟨fun h => h_ep h.1, by simp only [if_neg h_ep]⟩
  · have h_pass : ∀ q ∈ l₁, q.endpoint ≠ some addr := fun q hq h => h_before ⟨q, hq, h⟩
    refine Or.inr ⟨fun h => h_before h.2, ?_⟩
    by_cases h_ep : p.endpoint = some addr
    · exact udpDecrypt_first hl h₁ h₂ h_pass h_ep
    · -- the first peer at the address, if there is one, comes later
      have h_first : ∃ r, r.getD (none, []) = (none, []) ∧
          updateFirst (fun q => decide (q.endpoint = some addr)) (Peer.firstLook payload now)
            pm.peers = (r, pm.peers) := by
        have hp : ¬ decide (p.endpoint = some addr) = true := by simpa using h_ep
        rw [hl, updateFirst_append _ (fun q hq => decide_eq_false (h_pass q hq)), updateFirst,
          if_neg hp]
        rcases updateFirst_cases (fun q : Peer S => decide (q.endpoint = some addr))
          (Peer.firstLook payload now) l₂ with ⟨-, h_eq⟩ | ⟨m₁, q, m₂, h_eq₂, -, -, h_eq⟩
        · exact ⟨none, rfl, by rw [h_eq]⟩
        · have hq := Peer.firstLook_idle (h₂ q (by simp [h_eq₂]))
          exact ⟨some (none, []), rfl, by rw [h_eq, hq, ← h_eq₂]⟩
      obtain ⟨r, hr, h_first⟩ := h_first
      rw [udpDecrypt_later hr h_first, h_trial]
      simp only [if_neg h_ep]

/-- A packet that nobody can decrypt is reported as such. -/
theorem udpDecrypt_idle (addr : SocketAddr) (h_peers : pm.peers ≠ [])
    (h : ∀ q ∈ pm.peers, ¬ q.AuthenticatesSome payload now) :
    (pm.udpDecrypt payload addr now).result = none ∧
      (pm.udpDecrypt payload addr now).events = [] := by
  obtain ⟨p, l₂, hl⟩ := List.exists_cons_of_ne_nil h_peers
  have h_split : pm.peers = [] ++ p :: l₂ := hl
  rw [hl] at h
  have h₁ : ∀ q ∈ ([] : List (Peer S)), ¬ q.AuthenticatesSome payload now := by simp
  have h₂ : ∀ q ∈ l₂, ¬ q.AuthenticatesSome payload now :=
    fun q hq => h q (List.mem_cons_of_mem p hq)
  have h_lone := udpDecrypt_lone addr h_split h₁ h₂
  rw [Peer.acceptData_idle (h p List.mem_cons_self)] at h_lone
  rcases h_lone with ⟨-, h_eq⟩ | ⟨-, h_eq⟩
  · rw [h_eq]
    exact ⟨rfl, rfl⟩
  · rw [h_eq]
    exact ⟨rfl, rfl⟩

end PeerManager

/-! ### Packets longer than the buffer -/

/-- What is received of a payload that does not fit the buffer lacks the tag at its end, and is the
ciphertext of nothing. -/
def Snow.CutUnread (S : Snow) (payload : Bytes) : Prop :=
  2047 < payload.length →
    ∀ t, S.readMessage t (Peer.packetNonce payload) ((payload.take 2047).drop 8) = none

theorem Snow.CutUnread.of_le {payload : Bytes} (h : payload.length ≤ 2047) : S.CutUnread payload :=
  fun h_long => absurd h (by omega)

/-- The nonce is received of any payload. -/
theorem Peer.packetNonce_take (payload : Bytes) :
    packetNonce (payload.take 2047) = packetNonce payload := by
  simp only [packetNonce, List.take_take]
  rfl

theorem Peer.not_authenticatesSome_cut {payload : Bytes} (h_cut : S.CutUnread payload)
    (h_long : 2047 < payload.length) (p : Peer S) (now : Instant) :
    ¬ p.AuthenticatesSome (payload.take 2047) now := by
  rintro ⟨k, s, padded, h_auth⟩
  have h_read := h_auth.read
  rw [packetNonce_take, h_cut h_long] at h_read
  cases h_read

/-! ### Genuine data packets -/

/-- A packet the peer admits, when it authenticates under no other session of the peer: it is
opened, and handed on if its source address is allowed. -/
theorem Peer.acceptData_of_admits {p : Peer S} {payload : Bytes} {now : Instant} {k : Slot}
    {s : ActiveSession S} {padded : Bytes} (h : p.Admits payload now k s padded)
    (h_only : ∀ k' s' padded', p.Authenticates payload now k' s' padded' → k' = k) :
    (p.acceptData payload now).events =
      [.opened ⟨truncatePlaintext padded, s.state, packetNonce payload⟩] ∧
    ∀ pt, (p.acceptData payload now).result = some pt ↔
      pt = truncatePlaintext padded ∧ p.Allows pt := by
  unfold acceptData
  rw [decryptPacket_of_reads (h.reads h_only), if_pos h.unspent]
  -- the check reads the addresses of the peer after the session was used
  have h_ips : ∀ w, (p.setSlot k (s.accept w payload.length)).allowedIps = p.allowedIps := by
    intro w
    cases k <;> rfl
  dsimp only
  cases h_head : parseIpv4Header (truncatePlaintext padded) with
  | none =>
    -- no header: neither accepted nor allowed
    refine ⟨rfl, fun pt => ⟨nofun, ?_⟩⟩
    rintro ⟨rfl, src, dst, h_some, -⟩
    exact absurd (h_head.symm.trans h_some) (by simp)
  | some header =>
    obtain ⟨src, dst⟩ := header
    dsimp only
    rw [h_ips]
    split_ifs with h_any
    · refine ⟨rfl, fun pt => ⟨?_, fun ⟨h_pt, _⟩ => by rw [h_pt]⟩⟩
      rintro ⟨⟩
      exact ⟨rfl, src, dst, h_head, h_any⟩
    · refine ⟨rfl, fun pt => ⟨nofun, ?_⟩⟩
      rintro ⟨rfl, src', dst', h_some, h_allow⟩
      obtain ⟨rfl, -⟩ := Prod.mk.inj (Option.some.inj (h_head.symm.trans h_some))
      exact absurd h_allow h_any

namespace PeerManager

/-- The packet authenticates under the session in slot `k` of the peer at index `i`, with a fresh
nonce, and under no other session of the table. -/
structure DecryptedBy (pm : PeerManager S) (i : ℕ) (payload : Bytes) (now : Instant) (k : Slot)
    (p : Peer S) (s : ActiveSession S) (padded : Bytes) : Prop where
  peer : pm.peers[i]? = some p
  admits : p.Admits payload now k s padded
  only : ∀ j q k' s' padded', pm.peers[j]? = some q → q.Authenticates payload now k' s' padded' →
    j = i ∧ k' = k

/-- Sessions that are each other's only users decrypt no packet of one another. -/
theorem decryptedBy_of_admits (h_key : S.KeyCommitting) {pm : PeerManager S}
    (h_live : (live pm.peers).Nodup) {payload : Bytes} {now : Instant} {i : ℕ} {p : Peer S}
    (hi : pm.peers[i]? = some p) {k : Slot} {s : ActiveSession S} {padded : Bytes}
    (h : p.Admits payload now k s padded) : pm.DecryptedBy i payload now k p s padded := by
  refine ⟨hi, h, fun j q k' s' padded' hq h' => ?_⟩
  -- a packet that reads under two states has been made for one
  have h_state : s'.state = s.state :=
    h_key.state_eq h.read h'.read
  exact place_unique h_live hi hq h.honours.1 h'.honours.1 h_state

/-- **The data branch on a packet that one peer decrypts.** -/
theorem DecryptedBy.udpDecrypt {pm : PeerManager S} {payload : Bytes} {now : Instant} {i : ℕ}
    {p : Peer S} {k : Slot} {s : ActiveSession S} {padded : Bytes}
    (h : pm.DecryptedBy i payload now k p s padded) (addr : SocketAddr) :
    (pm.Shadowed i addr ∧
      pm.udpDecrypt payload addr now = { result := none, state := pm }) ∨
    ¬ pm.Shadowed i addr ∧
      (∀ pt, (pm.udpDecrypt payload addr now).result = some pt ↔
        pt = truncatePlaintext padded ∧ p.Allows pt) ∧
      (pm.udpDecrypt payload addr now).events =
        [.opened ⟨truncatePlaintext padded, s.state, Peer.packetNonce payload⟩] ∧
      ∃ p', (pm.udpDecrypt payload addr now).state.peers[i]? = some p' ∧
        (p.Allows (truncatePlaintext padded) →
          p'.endpoint = some addr ∧ p'.lastDirectRx = now) := by
  obtain ⟨l₁, l₂, hl, rfl, h₁, h₂⟩ :=
    exists_split (P := fun q : Peer S => q.AuthenticatesSome payload now) h.peer
      fun j q hq ⟨k', s', padded', h'⟩ => (h.only j q k' s' padded' hq h').1
  obtain ⟨h_events, h_result⟩ :=
    Peer.acceptData_of_admits h.admits fun k' s' padded' h' => (h.only _ p _ _ _ h.peer h').2
  -- the shadowed case is the lemma's, the other one says what the peer does
  refine (udpDecrypt_lone addr hl h₁ h₂).imp id fun ⟨h_not, h_eq⟩ => ⟨h_not, ?_⟩
  rw [h_eq]
  refine ⟨h_result, h_events, (p.acceptData payload now).heardFrom addr now, by simp, ?_⟩
  intro h_allows
  have h_some := (h_result _).mpr ⟨rfl, h_allows⟩
  rw [Outcome.heardFrom, h_some]
  exact ⟨rfl, rfl⟩

end PeerManager

/-! ### Genuine responses -/

/-- A valid response: the pending handshake reads it and turns into the transport state `t`. -/
def Peer.Completes (p : Peer S) (payload : Bytes) (t : S.Transport) : Prop :=
  ∃ hs hs', p.handshake = some hs ∧ S.readHandshake hs (payload.take 48) = (true, hs') ∧
    S.intoTransport hs' = some t

/-- The buffer has room for a response. -/
theorem Peer.Completes.take {p : Peer S} {payload : Bytes} {t : S.Transport}
    (h : p.Completes payload t) : p.Completes (payload.take 2047) t := by
  have h_take : (payload.take 2047).take 48 = payload.take 48 := by
    rw [List.take_take]
    rfl
  unfold Completes
  rw [h_take]
  exact h

theorem Peer.handleHandshakePacket_of_completes {p : Peer S} {payload : Bytes} {t : S.Transport}
    (localPriv : Bytes) (d : Draw S) (now : Instant) (h : p.Completes payload t)
    (h_type : p.magic.handshakeResp ≠ p.magic.handshakeInit) :
    (p.handleHandshakePacket localPriv p.magic.handshakeResp payload d now).state =
      { p.install t now with
        handshake := none
        lastHandshakeAttempt := none
        lastHandshakePacket := none } := by
  obtain ⟨hs, hs', h_pending, h_read, h_transport⟩ := h
  have h_answered := p.answered localPriv payload d now h_type
  rw [answered_completed h_answered h_pending h_read h_transport]

/-- An initiation leaves every pending handshake. -/
theorem InitTurn.handshake {pm : PeerManager S} {source : Option SocketAddr} {payload : Bytes}
    {now : Instant} {es : List (Event S)} {l' : List (Peer S)}
    (h : InitTurn pm source payload now es l') {i : ℕ} {p p' : Peer S}
    (hp : pm.peers[i]? = some p) (hp' : l'[i]? = some p') : p'.handshake = p.handshake := by
  obtain ⟨q, hq, h_frame⟩ := forall₂_getElem? h.frame hp
  obtain rfl := Option.some.inj (hq.symm.trans hp')
  -- only the peer that answers is touched, and not in its handshake
  rcases h_frame with rfl | ⟨-, h_answered⟩
  · rfl
  · exact h_answered.handshake

namespace PeerManager

/-- The response branch reaches the first peer at the sender's address. -/
theorem udpResp_getElem? (pm : PeerManager S) (packetType : UInt8) (payload : Bytes)
    (addr : SocketAddr) (d : Draw S) (now : Instant) {i : ℕ} {p : Peer S}
    (hi : pm.peers[i]? = some p) :
    ((p.endpoint = some addr ∧ ¬ pm.Shadowed i addr) ∧
      (pm.udpResp packetType payload addr d now).2.peers[i]? =
        some { (p.handleHandshakePacket pm.localPriv packetType payload d now).state with
          lastDirectRx := now }) ∨
    ¬ (p.endpoint = some addr ∧ ¬ pm.Shadowed i addr) ∧
      (pm.udpResp packetType payload addr d now).2.peers[i]? = some p := by
  unfold udpResp updatePeer
  rcases updateFirst_cases (fun p : Peer S => p.endpoint = some addr) (fun p =>
      let out := p.handleHandshakePacket pm.localPriv packetType payload d now
      ((out.events, { out.state with lastDirectRx := now }) : Turn S (Peer S))) pm.peers
    with ⟨h_none, h_eq⟩ | ⟨l₁, q, l₂, hl, hc, h_pass, h_eq⟩
  · -- nobody is at the address
    rw [h_eq]
    refine Or.inr ⟨fun h => ?_, hi⟩
    have := h_none p (List.mem_of_getElem? hi)
    simp [h.1] at this
  rw [h_eq]
  dsimp only
  have hc : q.endpoint = some addr := by simpa using hc
  have h_first : pm.peers[l₁.length]? = some q := by simp [hl]
  -- the peer is the first at the address, or comes after it, or before it
  rcases lt_trichotomy i l₁.length with h_lt | rfl | h_gt
  · -- before the first one at the address
    have h_at : l₁[i]? = some p := by rw [← hi, hl, List.getElem?_append_left h_lt]
    refine Or.inr ⟨fun h => ?_, by rw [List.getElem?_append_left h_lt, h_at]⟩
    have := h_pass p (List.mem_of_getElem? h_at)
    simp [h.1] at this
  · -- the first one itself
    obtain rfl := Option.some.inj (h_first.symm.trans hi)
    refine Or.inl ⟨⟨hc, fun h => ?_⟩, by simp⟩
    obtain ⟨-, r, hr, h_ep⟩ := (shadowed_iff hl).mp h
    have := h_pass r hr
    simp [h_ep] at this
  · -- after it, so shadowed if it has the address
    refine Or.inr ⟨fun h => h.2 ⟨⟨p, hi, h.1⟩, l₁.length, q, h_gt, h_first, hc⟩, ?_⟩
    obtain ⟨j, rfl⟩ : ∃ j, i = l₁.length + (j + 1) := ⟨i - l₁.length - 1, by omega⟩
    rw [← hi, hl, List.getElem?_append_right (by omega), List.getElem?_append_right (by omega)]
    simp

end PeerManager

/-- Only a data packet is written. -/
theorem Handled.of_written {pm : PeerManager S} {task : DaemonTask S} {now : Instant}
    {packet : Bytes} {es : List (Event S)} {l' : List (Peer S)}
    (h : Handled pm task now packet es l') {pt : Bytes} (h_pt : .written pt ∈ es) :
    ∃ payload, task.BringsData pm.magic payload := by
  cases h with
  | initiation payload hp h =>
    -- an initiation emits a session and an answer
    rcases h.mem_events h_pt with ⟨t, h⟩ | ⟨_, _, h⟩
    · cases h
    · cases h
  | response payload hp h_type h =>
    -- a response emits a session and a first packet
    obtain ⟨_, _, h | h, -⟩ := h.mem_events h_pt
    · cases h
    · cases h
  | data payload hp h_data h => exact ⟨payload, h_data⟩
  | ignored h =>
    rw [h] at h_pt
    cases h_pt

/-- The dispatcher's turn on a data packet by UDP, of which 2047 bytes are received. -/
theorem PeerManager.step_udp_data {pm : PeerManager S}
    (h_init : pm.magic.data ≠ pm.magic.handshakeInit)
    (h_resp : pm.magic.data ≠ pm.magic.handshakeResp) (hasRelay : Bool) (now : Instant)
    (payload : Bytes) (addr : SocketAddr) (d : Draw S) :
    pm.step hasRelay now (.udp (pm.magic.data :: payload) addr d) =
      ((pm.udpDecrypt (payload.take 2047) addr now).events ++
          writeTun (pm.udpDecrypt (payload.take 2047) addr now).result,
        (pm.udpDecrypt (payload.take 2047) addr now).state) := by
  rw [← udpData_eq]
  exact step_received_data h_init h_resp hasRelay now (recvFrom_cons _ payload) addr d

/-! ### What is found -/

/-- A genuine response installs the session of its peer. -/
def PeerManager.Installs (pm : PeerManager S) (hasRelay : Bool) (now : Instant)
    (task : DaemonTask S) (i : ℕ) (t : S.Transport) : Prop :=
  ∃ p', (pm.step hasRelay now task).2.peers[i]? = some p' ∧
    p'.active = some (ActiveSession.fresh t now) ∧ p'.handshake = none

/-- A valid response is found the peer that waits for it. -/
theorem response_installs_iff {hasRelay : Bool} {pm : PeerManager S}
    (h_magic : ∀ p ∈ pm.peers, p.magic = pm.magic) {i : ℕ} {p : Peer S}
    (hi : pm.peers[i]? = some p) {payload : Bytes} (addr : SocketAddr) (d : Draw S)
    (now : Instant) {t : S.Transport} (h_valid : p.Completes payload t) :
    pm.Installs hasRelay now (.udp (pm.magic.handshakeResp :: payload) addr d) i t ↔
      pm.magic.handshakeResp ≠ pm.magic.handshakeInit ∧ p.endpoint = some addr ∧
        ¬ pm.Shadowed i addr := by
  obtain ⟨hs, hs', h_pending, -⟩ := id h_valid
  by_cases h_type : pm.magic.handshakeResp = pm.magic.handshakeInit
  · -- the datagram is taken for an initiation, which ends no handshake
    refine iff_of_false ?_ fun h => h.1 h_type
    rintro ⟨p', hp', -, h_none⟩
    have h_brings : (DaemonTask.udp (pm.magic.handshakeResp :: payload) addr d).Brings
        pm.magic.handshakeInit (payload.take 2047) :=
      Or.inl ⟨addr, d, _, rfl, by rw [h_type, recvFrom_cons]⟩
    have h_turn := pm.step_init hasRelay now h_brings
    have h_same := h_turn.handshake hi hp'
    rw [h_none, h_pending] at h_same
    cases h_same
  · have h_step : pm.step hasRelay now (.udp (pm.magic.handshakeResp :: payload) addr d)
        = pm.udpResp pm.magic.handshakeResp (payload.take 2047) addr d now := by
      simp only [PeerManager.step, recvFrom_cons, PeerManager.udpPacket, if_neg h_type, if_true]
    -- it is taken for a response, and given to the first peer at the address
    have h_mem := List.mem_of_getElem? hi
    have h_done := Peer.handleHandshakePacket_of_completes pm.localPriv d now h_valid.take
      (by rwa [h_magic p h_mem])
    rw [h_magic p h_mem] at h_done
    unfold PeerManager.Installs
    rw [h_step]
    rcases pm.udpResp_getElem? pm.magic.handshakeResp (payload.take 2047) addr d now hi with
      ⟨h_found, h_at⟩ | ⟨h_lost, h_at⟩
    · rw [h_done] at h_at
      exact iff_of_true ⟨_, h_at, rfl, rfl⟩ ⟨h_type, h_found⟩
    · -- the handshake is still pending
      refine iff_of_false ?_ fun h => h_lost h.2
      rintro ⟨p', hp', -, h_none⟩
      obtain rfl := Option.some.inj (h_at.symm.trans hp')
      exact absurd (h_pending.symm.trans h_none) (by simp)

theorem Peer.Allows.ne_nil {p : Peer S} {pt : Bytes} (h : p.Allows pt) : pt ≠ [] := by
  rintro rfl
  obtain ⟨src, dst, h_head, -⟩ := h
  cases h_head

/-- A packet that is decrypted by one peer, from an allowed source, is written unless the peer is
shadowed or the packet does not fit the buffer. -/
theorem data_written_iff {hasRelay : Bool} {pm : PeerManager S}
    (h_magic : ∀ p ∈ pm.peers, p.magic = pm.magic) {i : ℕ} {p : Peer S} {payload : Bytes}
    {now : Instant} {k : Slot} {s : ActiveSession S} {padded : Bytes}
    (h : pm.DecryptedBy i payload now k p s padded) (h_allows : p.Allows (truncatePlaintext padded))
    (h_cut : S.CutUnread payload) (addr : SocketAddr) (d : Draw S) :
    .written (truncatePlaintext padded) ∈
        (pm.step hasRelay now (.udp (pm.magic.data :: payload) addr d)).1 ↔
      pm.magic.data ≠ pm.magic.handshakeInit ∧ pm.magic.data ≠ pm.magic.handshakeResp ∧
        payload.length ≤ 2047 ∧ ¬ pm.Shadowed i addr := by
  by_cases h_types : pm.magic.data ≠ pm.magic.handshakeInit ∧
      pm.magic.data ≠ pm.magic.handshakeResp
  · rw [PeerManager.step_udp_data h_types.1 h_types.2]
    by_cases h_length : payload.length ≤ 2047
    · rw [List.take_of_length_le h_length]
      -- a shadowed peer is not tried, and any other one opens the packet
      rcases h.udpDecrypt addr with ⟨h_shadow, h_eq⟩ | ⟨h_not, h_result, h_events, -⟩
      · rw [h_eq]
        exact iff_of_false (by simp [writeTun]) fun h => h.2.2.2 h_shadow
      · rw [h_events, (h_result _).mpr ⟨rfl, h_allows⟩]
        exact iff_of_true (by simp [writeTun, h_allows.ne_nil])
          ⟨h_types.1, h_types.2, h_length, h_not⟩
    · -- what is received of it is nobody's
      obtain ⟨h_result, h_events⟩ := PeerManager.udpDecrypt_idle addr
        (List.ne_nil_of_mem (List.mem_of_getElem? h.peer))
        fun q _ => q.not_authenticatesSome_cut h_cut (by omega) now
      rw [h_result, h_events]
      exact iff_of_false (by simp [writeTun]) fun h => h_length h.2.2.1
  · -- what is taken for a handshake packet is not written
    refine iff_of_false (fun h_written => ?_) fun h => h_types ⟨h.1, h.2.1⟩
    obtain ⟨payload', h_data, h_data', -⟩ := (pm.handled hasRelay now h_magic
      (Or.inl ⟨addr, d, _, rfl, rfl⟩)).of_written h_written
    exact h_types ⟨h_data, h_data'⟩

/-- **Exactly when a genuine packet is found its peer.** In every state the daemon reaches, for the
peer `p` at index `i` of the table and a datagram from `addr`:

* a valid response to the pending handshake of `p` installs the session if and only if the response
  type is not the initiation type, `p` is recorded at `addr` and no peer before it is;
* a data packet that `p` admits under its active session, from an allowed source, is written to the
  TUN device if and only if the data type is neither of the handshake types, the packet has at most
  2048 bytes with its type, and not both `p` and a peer before it are recorded at `addr`. -/
theorem genuine_packet_found_iff {hasRelay : Bool} {pm₀ pm : PeerManager S}
    {ls : List (DaemonLabel S)} (h_key : S.KeyCommitting) (h_init : pm₀.Initial)
    (h_run : Exec (daemon S hasRelay) pm₀ ls pm) (h_fresh : (installedIn (eventsOf ls)).Nodup)
    {i : ℕ} {p : Peer S} (hi : pm.peers[i]? = some p) (payload : Bytes)
    (h_cut : S.CutUnread payload) (addr : SocketAddr) (d : Draw S) (now : Instant) :
    (∀ t, p.Completes payload t →
      (pm.Installs hasRelay now (.udp (pm.magic.handshakeResp :: payload) addr d) i t ↔
        pm.magic.handshakeResp ≠ pm.magic.handshakeInit ∧ p.endpoint = some addr ∧
          ¬ pm.Shadowed i addr)) ∧
    ∀ s padded, p.Admits payload now .active s padded → p.Allows (truncatePlaintext padded) →
      (.written (truncatePlaintext padded) ∈
          (pm.step hasRelay now (.udp (pm.magic.data :: payload) addr d)).1 ↔
        pm.magic.data ≠ pm.magic.handshakeInit ∧ pm.magic.data ≠ pm.magic.handshakeResp ∧
          payload.length ≤ 2047 ∧ ¬ pm.Shadowed i addr) := by
  have h_magic := peers_magic ⟨pm₀, ls, h_init, h_run⟩
  -- no session state is held twice, so a packet has one receiver
  have h_live := (filtered_of_run h_init h_run h_fresh).nodup h_fresh
  constructor
  · intro t h_valid
    exact response_installs_iff h_magic hi addr d now h_valid
  · intro s padded h_admits h_allows
    exact data_written_iff h_magic (PeerManager.decryptedBy_of_admits h_key h_live hi h_admits)
      h_allows h_cut addr d

/-! ### Two peers at one address -/

namespace Symbolic

/-- Node `7`, with the peers `8` and `9` both configured at `peerAddr`. -/
def twins : PeerManager symbolic :=
  PeerManager.new (key 7)
    [Peer.new (key 8) (some peerAddr) [⟨Ipv4Addr.ofOctets 10 0 98 0, 24⟩] 0,
      Peer.new peerSpec.pubkey peerSpec.endpoint peerSpec.allowedIps 0] MagicConfig.default

theorem twins_initial : twins.Initial := by
  refine ⟨key 7, [⟨key 8, some peerAddr, [⟨Ipv4Addr.ofOctets 10 0 98 0, 24⟩]⟩, peerSpec],
    MagicConfig.default, 0, ?_, rfl⟩
  intro w hw
  rcases List.mem_cons.mp hw with rfl | hw
  · exact ⟨(List.replicate 32 ['0', '8']).flatten ++ ";10.0.0.2:500;10.0.98.0/24".toList,
      by decide +kernel⟩
  · obtain rfl := List.mem_singleton.mp hw
    exact ⟨(List.replicate 32 ['0', '9']).flatten ++ ";10.0.0.2:500;10.0.99.0/24".toList,
      by decide +kernel⟩

/-- Its peer `9` has completed a handshake. -/
def paired : List (DaemonLabel symbolic) × PeerManager symbolic :=
  twins.runTasks false [(0, .udp (initiationPacket 1) peerAddr (draw 2))]

/-- Whether a packet is admitted under an active session can be evaluated. -/
theorem exists_admits (pm : PeerManager symbolic) (i : ℕ) (payload padded : Bytes) (now : Instant)
    (h : ((pm.peers[i]?.bind Peer.active).any fun s => decide (24 ≤ payload.length ∧
      symbolic.readMessage s.state (Peer.packetNonce payload) (payload.drop 8) = some padded ∧
      (s.replay.checkAndUpdate (Peer.packetNonce payload)).1 = true)) = true) :
    ∃ p s, pm.peers[i]? = some p ∧ p.Admits payload now .active s padded := by
  rw [Option.any_eq_true] at h
  obtain ⟨s, hs, h⟩ := h
  -- the session is that of the peer's active slot
  obtain ⟨p, hp, h_active⟩ := Option.bind_eq_some_iff.mp hs
  obtain ⟨h_len, h_read, h_fresh⟩ := of_decide_eq_true h
  exact ⟨p, s, hp, ⟨⟨h_active, nofun⟩, h_len, h_read⟩, h_fresh⟩

/-- The first data packet of the session, without its type. -/
def firstPayload : Bytes := (dataPacket (nodeEnd 1 2) 0 ipv4Packet).tail

theorem ipv4Packet_header : parseIpv4Header (truncatePlaintext ipv4Packet) =
    some (Ipv4Addr.ofOctets 10 0 99 3, Ipv4Addr.ofOctets 10 0 99 3) := by
  decide +kernel

/-- A packet of that session that is padded beyond the end of the receive buffer. -/
def longPacket : Bytes := ipv4Packet ++ List.replicate 2048 1

def longPayload : Bytes := (dataPacket (nodeEnd 1 2) 0 longPacket).tail

theorem longPacket_header : parseIpv4Header (truncatePlaintext longPacket) =
    some (Ipv4Addr.ofOctets 10 0 99 3, Ipv4Addr.ofOctets 10 0 99 3) := by
  decide +kernel

/-- Every tag ends in a zero. -/
theorem readMessage_of_getLast? {ciphertext : Bytes}
    (h : (ciphertext.drop (ciphertext.length - 16)).getLast? ≠ some 0) (t : Transport)
    (n : UInt64) : symbolic.readMessage t n ciphertext = none := by
  refine if_neg fun h_tag => h ?_
  rw [h_tag.2]
  exact List.getLast?_concat

/-- What is received of it ends in padding. -/
theorem longPayload_cutUnread : symbolic.CutUnread longPayload :=
  fun _ t => readMessage_of_getLast? (by decide +kernel) t _

/-- The second of the two admits what its session reads. -/
theorem paired_admits (payload : Bytes) {plaintext : Bytes}
    (h : ((paired.2.peers[1]?.bind Peer.active).any fun s => decide (24 ≤ payload.length ∧
      symbolic.readMessage s.state (Peer.packetNonce payload) (payload.drop 8) = some plaintext ∧
      (s.replay.checkAndUpdate (Peer.packetNonce payload)).1 = true)) = true)
    (h_header : parseIpv4Header (truncatePlaintext plaintext) =
      some (Ipv4Addr.ofOctets 10 0 99 3, Ipv4Addr.ofOctets 10 0 99 3)) :
    ∃ p s, paired.2.peers[1]? = some p ∧ p.Admits payload 1 .active s plaintext ∧
      p.Allows (truncatePlaintext plaintext) := by
  obtain ⟨p, s, hp, h_admits⟩ := exists_admits paired.2 1 payload plaintext 1 h
  have h_allowed : paired.2.peers[1]?.any
      (·.allowedIps.any (·.contains (Ipv4Addr.ofOctets 10 0 99 3))) = true := by decide +kernel
  rw [hp] at h_allowed
  exact ⟨p, s, hp, h_admits, _, _, h_header, h_allowed⟩

/-- `twins` after both peers were sent an initiation. -/
def waiting : List (DaemonLabel symbolic) × PeerManager symbolic :=
  twins.runTasks false [(0, .timer fun _ => (draw 1, draw 2))]

theorem waiting_completes : ∃ p, waiting.2.peers[1]? = some p ∧
    p.Completes (response 7 9 2 5) (Transport.mk true 7 9 2 5) := by
  have h_pending : (waiting.2.peers[1]?.bind Peer.handshake : Option Handshake) =
      some (.pending 7 9 2) := by
    decide +kernel
  have h_read : readHandshake (Handshake.pending 7 9 2) ((response 7 9 2 5).take 48) =
      (true, Handshake.finished true 7 9 2 5) := by
    decide +kernel
  obtain ⟨p, hp, h_pending⟩ := Option.bind_eq_some_iff.mp h_pending
  exact ⟨p, hp, _, _, h_pending, h_read, rfl⟩

end Symbolic

open Symbolic in
/-- The conditions at a response to the second of two peers at one address, at its data, and at data
that does not fit the receive buffer. -/
theorem genuine_packet_found_iff_paired :
    (∃ p, waiting.2.peers[1]? = some p ∧
      (waiting.2.Installs false 1 (.udp (waiting.2.magic.handshakeResp :: response 7 9 2 5) peerAddr
          (draw 3)) 1 (Transport.mk true 7 9 2 5) ↔
        waiting.2.magic.handshakeResp ≠ waiting.2.magic.handshakeInit ∧
          p.endpoint = some peerAddr ∧ ¬ waiting.2.Shadowed 1 peerAddr)) ∧
    (Event.written (truncatePlaintext ipv4Packet) ∈ (paired.2.step false 1
        (.udp (paired.2.magic.data :: firstPayload) peerAddr (draw 3))).1 ↔
      paired.2.magic.data ≠ paired.2.magic.handshakeInit ∧
        paired.2.magic.data ≠ paired.2.magic.handshakeResp ∧
        firstPayload.length ≤ 2047 ∧ ¬ paired.2.Shadowed 1 peerAddr) ∧
    (Event.written (truncatePlaintext longPacket) ∈ (paired.2.step false 1
        (.udp (paired.2.magic.data :: longPayload) peerAddr (draw 3))).1 ↔
      paired.2.magic.data ≠ paired.2.magic.handshakeInit ∧
        paired.2.magic.data ≠ paired.2.magic.handshakeResp ∧
        longPayload.length ≤ 2047 ∧ ¬ paired.2.Shadowed 1 peerAddr) := by
  refine ⟨?_, ?_, ?_⟩
  · obtain ⟨p, hp, h_completes⟩ := waiting_completes
    -- the response reaches `waiting`, the data packet `paired`
    have h_run : Exec (daemon symbolic false) twins waiting.1 waiting.2 :=
      PeerManager.exec_runTasks _ _ _
    exact ⟨p, hp, (genuine_packet_found_iff keyCommitting twins_initial h_run (by decide +kernel) hp
      _ (.of_le (by decide)) peerAddr (draw 3) 1).1 _ h_completes⟩
  · obtain ⟨p, s, hp, h_admits, h_allows⟩ :=
      paired_admits firstPayload (by decide +kernel) ipv4Packet_header
    exact (genuine_packet_found_iff keyCommitting twins_initial (PeerManager.exec_runTasks _ _ _)
      (by decide +kernel) hp _ (.of_le (by decide)) peerAddr (draw 3) 1).2 s ipv4Packet h_admits
      h_allows
  · obtain ⟨p, s, hp, h_admits, h_allows⟩ :=
      paired_admits longPayload (by decide +kernel) longPacket_header
    exact (genuine_packet_found_iff keyCommitting twins_initial (PeerManager.exec_runTasks _ _ _)
      (by decide +kernel) hp _ longPayload_cutUnread peerAddr (draw 3) 1).2 s longPacket h_admits
      h_allows

open Symbolic in
/-- A genuine packet can be lost: of two peers at one address the second is never heard. -/
theorem genuine_packet_lost :
    ¬ ∀ (pm₀ pm : PeerManager symbolic) (ls : List (DaemonLabel symbolic)) (i : ℕ)
      (p : Peer symbolic) (payload : Bytes) (addr : SocketAddr) (d : Draw symbolic)
      (now : Instant), pm₀.Initial → Exec (daemon symbolic false) pm₀ ls pm →
      (installedIn (eventsOf ls)).Nodup → pm.peers[i]? = some p →
      (∀ t, p.Completes payload t →
        pm.Installs false now (.udp (pm.magic.handshakeResp :: payload) addr d) i t) ∧
      ∀ s padded, p.Admits payload now .active s padded → p.Allows (truncatePlaintext padded) →
        .written (truncatePlaintext padded) ∈
          (pm.step false now (.udp (pm.magic.data :: payload) addr d)).1 := by
  intro h
  obtain ⟨p, s, hp, h_admits, h_allows⟩ :=
    paired_admits firstPayload (by decide +kernel) ipv4Packet_header
  have h_written := (h twins paired.2 paired.1 1 p _ peerAddr (draw 3) 1 twins_initial
    (PeerManager.exec_runTasks _ _ _) (by decide +kernel) hp).2 s ipv4Packet h_admits h_allows
  exact absurd (mem_writtenIn.mpr h_written) (by decide +kernel)

/-! ### The direct path -/

/-- The peer has been heard of directly now, from this address: for the next ten seconds nothing is
sent to it by the relay. -/
structure Peer.HeardDirectly (p : Peer S) (addr : SocketAddr) (now : Instant) : Prop where
  direct : p.lastDirectRx = now
  endpoint : p.endpoint = some addr
  dest : ∀ hasRelay t, elapsedSecs t now < 10 → p.determineDest hasRelay t = some (.udp addr)

theorem Peer.HeardDirectly.mk' {p : Peer S} {addr : SocketAddr} {now : Instant}
    (h_direct : p.lastDirectRx = now) (h_endpoint : p.endpoint = some addr) :
    p.HeardDirectly addr now := by
  refine ⟨h_direct, h_endpoint, fun hasRelay t h_recent => ?_⟩
  unfold determineDest
  -- the relay is chosen for a peer without an endpoint, or one silent for ten seconds
  rw [if_neg, h_endpoint]
  · rfl
  · rw [h_endpoint, h_direct]
    rintro ⟨-, h | h⟩
    · cases h
    · omega

/-- A data packet by UDP is accepted from the peer at index `i`: for what is received of it the data
branch does not report a failed decryption, and the peer has been heard of directly. -/
structure PeerManager.TracksDirect (pm : PeerManager S) (hasRelay : Bool) (now : Instant)
    (payload : Bytes) (addr : SocketAddr) (d : Draw S) (i : ℕ) : Prop where
  data : pm.magic.data ≠ pm.magic.handshakeInit ∧ pm.magic.data ≠ pm.magic.handshakeResp
  decrypted : (pm.udpDecrypt (payload.take 2047) addr now).result.isSome
  heard : ∃ p',
    (pm.step hasRelay now (.udp (pm.magic.data :: payload) addr d)).2.peers[i]? = some p' ∧
      p'.HeardDirectly addr now

/-- **Exactly when the direct path is tracked.** In every state the daemon reaches, a data packet by
UDP that a peer admits under one of its sessions, and that is empty or comes from an allowed source,
is accepted and recorded as heard of directly if and only if the data type is neither of the
handshake types, the packet is not empty, it has at most 2048 bytes with its type, and not both the
peer and a peer before it are recorded at the sender's address. -/
theorem direct_path_tracked_iff {hasRelay : Bool} {pm₀ pm : PeerManager S}
    {ls : List (DaemonLabel S)} (h_key : S.KeyCommitting) (h_init : pm₀.Initial)
    (h_run : Exec (daemon S hasRelay) pm₀ ls pm) (h_fresh : (installedIn (eventsOf ls)).Nodup)
    {i : ℕ} {p : Peer S} (hi : pm.peers[i]? = some p) {payload : Bytes} {now : Instant} {k : Slot}
    {s : ActiveSession S} {padded : Bytes} (h_admits : p.Admits payload now k s padded)
    (h_kind : truncatePlaintext padded = [] ∨ p.Allows (truncatePlaintext padded))
    (h_cut : S.CutUnread payload) (addr : SocketAddr) (d : Draw S) :
    pm.TracksDirect hasRelay now payload addr d i ↔
      pm.magic.data ≠ pm.magic.handshakeInit ∧ pm.magic.data ≠ pm.magic.handshakeResp ∧
        truncatePlaintext padded ≠ [] ∧ payload.length ≤ 2047 ∧ ¬ pm.Shadowed i addr := by
  have h_live := (filtered_of_run h_init h_run h_fresh).nodup h_fresh
  constructor
  · rintro ⟨⟨h_init, h_resp⟩, h_some, -⟩
    have h_length : payload.length ≤ 2047 := by
      by_contra h_long
      -- what is received of it is nobody's
      have h_idle := PeerManager.udpDecrypt_idle addr
        (List.ne_nil_of_mem (List.mem_of_getElem? hi))
        fun q _ => q.not_authenticatesSome_cut h_cut (by omega) now
      rw [h_idle.1] at h_some
      cases h_some
    rw [List.take_of_length_le h_length] at h_some
    obtain ⟨pt, h_pt⟩ := Option.isSome_iff_exists.mp h_some
    rcases (PeerManager.decryptedBy_of_admits h_key h_live hi h_admits).udpDecrypt addr with
      ⟨-, h_eq⟩ | ⟨h_not, h_result, -⟩
    · -- shadowed: the branch reports a failure
      rw [h_eq] at h_pt
      cases h_pt
    · obtain ⟨rfl, h_allows⟩ := (h_result pt).mp h_pt
      exact ⟨h_init, h_resp, h_allows.ne_nil, h_length, h_not⟩
  · rintro ⟨h_init, h_resp, h_full, h_length, h_not⟩
    -- a packet that is not empty comes from an allowed source
    have h_allows := h_kind.resolve_left h_full
    rcases (PeerManager.decryptedBy_of_admits h_key h_live hi h_admits).udpDecrypt addr with
      ⟨h_shadow, -⟩ | ⟨-, h_result, -, p', hp', h_heard⟩
    · exact absurd h_shadow h_not
    · refine ⟨⟨h_init, h_resp⟩, ?_, p', ?_, ?_⟩
      · rw [List.take_of_length_le h_length, (h_result _).mpr ⟨rfl, h_allows⟩]
        rfl
      · rw [PeerManager.step_udp_data h_init h_resp, List.take_of_length_le h_length]
        exact hp'
      · exact .mk' (h_heard h_allows).2 (h_heard h_allows).1

/-! ### A keepalive -/

namespace Symbolic

/-- The peer of `node` has completed a handshake. -/
def connected : List (DaemonLabel symbolic) × PeerManager symbolic :=
  node.runTasks false [(0, .udp (initiationPacket 1) peerAddr (draw 2))]

/-- An empty packet of the session, without its type. -/
def keepalive : Bytes := (dataPacket (nodeEnd 1 2) 0 []).tail

theorem connected_admits : ∃ p s, connected.2.peers[0]? = some p ∧
    p.Admits keepalive 1 .active s [] :=
  exists_admits _ _ _ _ _ (by decide +kernel)

end Symbolic

open Symbolic in
/-- The condition at a keepalive. -/
theorem direct_path_tracked_iff_keepalive :
    connected.2.TracksDirect false 1 keepalive peerAddr (draw 3) 0 ↔
      connected.2.magic.data ≠ connected.2.magic.handshakeInit ∧
        connected.2.magic.data ≠ connected.2.magic.handshakeResp ∧
        truncatePlaintext [] ≠ [] ∧ keepalive.length ≤ 2047 ∧
        ¬ connected.2.Shadowed 0 peerAddr := by
  obtain ⟨p, s, hp, h_admits⟩ := connected_admits
  exact direct_path_tracked_iff keyCommitting node_initial (PeerManager.exec_runTasks _ _ _)
    (by decide +kernel) hp h_admits (Or.inl rfl) (.of_le (by decide)) peerAddr (draw 3)

open Symbolic in
/-- A keepalive is not tracked: it counts as a packet that failed to decrypt. -/
theorem direct_path_lost :
    ¬ ∀ (pm₀ pm : PeerManager symbolic) (ls : List (DaemonLabel symbolic)) (i : ℕ)
      (p : Peer symbolic) (payload : Bytes) (k : Slot) (s : ActiveSession symbolic)
      (padded : Bytes) (addr : SocketAddr) (d : Draw symbolic) (now : Instant), pm₀.Initial →
      Exec (daemon symbolic false) pm₀ ls pm → (installedIn (eventsOf ls)).Nodup →
      pm.peers[i]? = some p → p.Admits payload now k s padded →
      truncatePlaintext padded = [] ∨ p.Allows (truncatePlaintext padded) →
      pm.TracksDirect false now payload addr d i := by
  intro h
  obtain ⟨p, s, hp, h_admits⟩ := connected_admits
  have h_tracked := h node connected.2 connected.1 0 p _ _ s [] peerAddr (draw 3) 1 node_initial
    (PeerManager.exec_runTasks _ _ _) (by decide +kernel) hp h_admits (Or.inl rfl)
  exact absurd h_tracked.decrypted (by decide +kernel)

end AraxMesh
