import AraxMesh.Desktop
import AraxMesh.Display
import AraxMesh.Lib.Counters
import AraxMesh.Reflection
import AraxMesh.Replayed
import AraxMesh.Routing
import AraxMesh.Upkeep

/-!
# What the daemon reports

The counters of `metrics.rs`, which all tasks of the daemon share, and the status that the timer
task puts together every second from them and from the peer table.

A turn of a task holds the lock of the table, but most counting is done outside it: `metered` has
the additions as steps of their own, before the turn for what comes in and after it for what goes
out, interleaved with everything else. The attempts and successes are counted under the lock.

* `metered_accounts` — what the counters stand at in every state, in terms of what the daemon did;
* `reports_honest` — what a status says about the peers, in terms of when they were heard.

## Proof sketch

An addition that a task has begun is a debt until it is made. What a counter stands at is its value
and its debts together (`Ledger.standing`), and so a step adds just what it begins to count
(`Metered.standing_after`), whenever the additions themselves are made.

1. Bytes and packets. The additions of a step are those for what it has received and sent, so the
   sum over the history is the sum of the lengths (`amount_traffic`).
2. Attempts. A tick counts before it initiates, under the same conditions, in its first and in its
   fourth part. Where the library writes initiations the two lists have the same length
   (`Peer.attempts_timer`); initiations for packets of the TUN device are not counted.
3. Successes. They cannot be put down exactly: a responder counts each session it installs, an
   initiator only one where it had none. `Settles n l es l'` is what remains true of `n` successes
   between two tables, three inequalities that add up along a run (`Settles.trans`):
   * each peer that has a session now and had none was counted, `sessions l' ≤ sessions l + n`;
   * each success is an install, `n ≤ installs`;
   * an install that was not counted was an answer to an initiation of the node's own,
     `installs ≤ n + answers`.
   A turn is on one peer, whose `Settles` is read off `Responded` and `Answered`; the turns that
   install nothing (`Peer.Holds`) are settled with `n = 0`.
4. `Accounted` puts these together, as an invariant of the run.

For reports, both times of an entry count from the establishment of the session. `Aged` says that
`last_rx` and `last_tx` are no older, which every turn keeps as it keeps the clocks of `Upkeep`.
-/

namespace AraxMesh

open LTS FirstMatch Counters Text

variable {S : Snow}

/-! ### Metrics -/

/-- The counters of `Metrics`. -/
inductive Counter
  | totalRxBytes
  | totalTxBytes
  | totalRxPackets
  | totalTxPackets
  | handshakeAttempts
  | handshakeSuccesses
deriving DecidableEq

instance : Fintype Task where
  elems := {.timer, .tunToUdp, .udpToTun, .poll, .relay}
  complete := by
    intro task
    cases task <;> decide

namespace Metrics

/-- A counter has 64 bits, and `fetch_add` wraps. -/
def range : ℕ := 2 ^ 64

/-- The values of the counters. -/
def load (value : Counter → ℕ) : Metrics where
  totalRxBytes := value .totalRxBytes
  totalTxBytes := value .totalTxBytes
  totalRxPackets := value .totalRxPackets
  totalTxPackets := value .totalTxPackets
  handshakeAttempts := value .handshakeAttempts
  handshakeSuccesses := value .handshakeSuccesses

/-- `add_rx`: the additions it makes, in order. -/
def addRx (bytes : ℕ) : List (Counter × ℕ) := [(.totalRxBytes, bytes), (.totalRxPackets, 1)]

def addTx (bytes : ℕ) : List (Counter × ℕ) := [(.totalTxBytes, bytes), (.totalTxPackets, 1)]

def recordHandshakeAttempt : List (Counter × ℕ) := [(.handshakeAttempts, 1)]

def recordHandshakeSuccess : List (Counter × ℕ) := [(.handshakeSuccesses, 1)]

/-- No addition for a packet is one for a handshake. -/
theorem addRx_ne {n : ℕ} {a : Counter × ℕ} (h : a ∈ addRx n) :
    a.1 ≠ .handshakeAttempts ∧ a.1 ≠ .handshakeSuccesses := by
  simp only [addRx, List.mem_cons, List.not_mem_nil, or_false] at h
  rcases h with rfl | rfl <;> simp

theorem addTx_ne {n : ℕ} {a : Counter × ℕ} (h : a ∈ addTx n) :
    a.1 ≠ .handshakeAttempts ∧ a.1 ≠ .handshakeSuccesses := by
  simp only [addTx, List.mem_cons, List.not_mem_nil, or_false] at h
  rcases h with rfl | rfl <;> simp

/-- A record that is made on a condition is of its one counter. -/
theorem mem_ite {c : Prop} [Decidable c] {b a : Counter × ℕ} (h : a ∈ if c then [b] else []) :
    a.1 = b.1 := by
  split_ifs at h
  · rw [List.mem_singleton.mp h]
  · cases h

end Metrics

/-! ### What is counted under the lock -/

namespace Peer

/-- The attempts of one peer's share of a tick, in its first and its fourth part. -/
def timerRecords (p : Peer S) (localPriv : Bytes) (hasRelay : Bool) (d : Draw S) (now : Instant) :
    List (Counter × ℕ) :=
  let (due, checked) := p.checkRotation now
  let rotating := if due ∧ checked.handshake.isNone then Metrics.recordHandshakeAttempt else []
  let p := (p.timerRotate localPriv hasRelay d now).2
  let p := p.timerClear now
  let p := (p.timerKeepalive hasRelay d now).2
  rotating ++
    if p.active.isNone ∧ p.handshake.isNone ∧ (p.endpoint.isSome ∨ hasRelay) then
      Metrics.recordHandshakeAttempt
    else []

/-- A responder that has written its response has succeeded. -/
def initRecords (hs : S.HandshakeState) (d : Draw S) : List (Counter × ℕ) :=
  if (S.writeResponse hs d.eph).isSome then Metrics.recordHandshakeSuccess else []

/-- An initiator has succeeded if it has a session and had none: a rekey is not counted. -/
def respRecords (p : Peer S) (localPriv : Bytes) (packetType : UInt8) (payload : Bytes)
    (d : Draw S) (now : Instant) : List (Counter × ℕ) :=
  if p.active.isNone ∧
      (p.handleHandshakePacket localPriv packetType payload d now).state.active.isSome then
    Metrics.recordHandshakeSuccess
  else []

end Peer

namespace PeerManager

/-- The attempts of a tick, peer by peer. -/
def timerRecords (localPriv : Bytes) (hasRelay : Bool) (draws : ℕ → Draw S × Draw S)
    (now : Instant) (idx : ℕ) : List (Peer S) → List (Counter × ℕ)
  | [] => []
  | p :: ps =>
    p.timerRecords localPriv hasRelay (draws idx).1 now ++
      timerRecords localPriv hasRelay draws now (idx + 1) ps

/-- What is counted for the first peer that satisfies `c`. -/
def recordFirst (pm : PeerManager S) (c : Peer S → Bool) (f : Peer S → List (Counter × ℕ)) :
    List (Counter × ℕ) :=
  (pm.peers.find? c).elim [] f

/-- What a turn counts under the lock of the table. -/
def records (pm : PeerManager S) (hasRelay : Bool) (now : Instant) :
    DaemonTask S → List (Counter × ℕ)
  | .timer draws => timerRecords pm.localPriv hasRelay draws now 0 pm.peers
  | .tun _ _ | .poll _ => []
  | .udp datagram addr d =>
    match recvFrom datagram with
    | [] => []
    | packetType :: payload =>
      if packetType = pm.magic.handshakeInit then
        match S.readInitiation pm.localPriv payload with
        | none => []
        | some (hs, remoteStatic) =>
          pm.recordFirst (·.pubkey = remoteStatic) fun _ => Peer.initRecords hs d
      else if packetType = pm.magic.handshakeResp then
        pm.recordFirst (·.endpoint = some addr) fun p =>
          p.respRecords pm.localPriv packetType payload d now
      else []
  | .relayed fromKey packet d =>
    match packet with
    | [] => []
    | packetType :: payload =>
      if packetType = pm.magic.handshakeInit then
        match S.readInitiation pm.localPriv payload with
        | none => []
        | some (hs, remoteStatic) =>
          if remoteStatic ≠ fromKey then []
          else pm.recordFirst (·.pubkey = remoteStatic) fun _ => Peer.initRecords hs d
      else if packetType = pm.magic.handshakeResp then
        pm.recordFirst (·.pubkey = fromKey) fun p =>
          p.respRecords pm.localPriv packetType payload d now
      else []

end PeerManager

/-! ### The daemon with its counters -/

/-- The daemon with its counters, and what the two tasks that receive have read and not handled
yet. -/
structure Metered (S : Snow) where
  pm : PeerManager S
  counters : Counters.Ledger Task Counter
  datagram : Option (Bytes × SocketAddr)
  relayed : Option (Bytes × Bytes)

inductive MeterLabel (S : Snow)
  /-- A datagram arrives at the socket, and `recv_from` gives what the buffer takes of it. -/
  | datagram (datagram : Bytes) (addr : SocketAddr)
  /-- The relay connection gives a packet. -/
  | relayed (fromKey packet : Bytes)
  /-- A task makes the next of the additions it has begun. -/
  | added (task : Task)
  /-- A turn; `left` is whether the socket or the relay task took what the TUN task had for it. -/
  | turn (l : DaemonLabel S) (left : Bool)

/-- The packets that the TUN task counts after its turn. -/
def DaemonLabel.uploaded (l : DaemonLabel S) (left : Bool) : List Bytes :=
  match l.task with
  | .tun _ _ => if left then (sentOf l.events).map (·.1) else []
  | _ => []

namespace Metered

/-- A task is in the place for its turn: it has read the packet, and has counted what it read, or
sent, before. -/
def MayTurn (s : Metered S) : DaemonTask S → Prop
  | .timer _ | .poll _ => True
  | .tun _ _ => s.counters.owed .tunToUdp = []
  | .udp datagram addr _ => s.datagram = some (datagram, addr) ∧ s.counters.owed .udpToTun = []
  | .relayed fromKey packet _ =>
    s.relayed = some (fromKey, packet) ∧ s.counters.owed .relay = []

/-- What each step needs. An empty datagram is not looked at. -/
def Enabled (hasRelay : Bool) (s : Metered S) : MeterLabel S → Prop
  | .datagram datagram _ => s.datagram = none ∧ datagram ≠ []
  | .relayed _ _ => s.relayed = none
  | .added task => s.counters.owed task ≠ []
  | .turn l _ => s.MayTurn l.task ∧ (s.pm.step hasRelay l.now l.task).1 = l.events

/-- What each step does. -/
def after (hasRelay : Bool) (s : Metered S) : MeterLabel S → Metered S
  | .datagram datagram addr => { s with
      datagram := some (datagram, addr)
      counters := s.counters.owe .udpToTun (Metrics.addRx (recvFrom datagram).length) }
  | .relayed fromKey packet => { s with
      relayed := some (fromKey, packet)
      counters := s.counters.owe .relay (Metrics.addRx packet.length) }
  | .added task => { s with counters := s.counters.pay Metrics.range task }
  | .turn l left =>
    { pm := (s.pm.step hasRelay l.now l.task).2
      counters := (s.counters.run Metrics.range (s.pm.records hasRelay l.now l.task)).owe .tunToUdp
        ((l.uploaded left).flatMap fun packet => Metrics.addTx packet.length)
      datagram := match l.task with
        | .udp _ _ _ => none
        | _ => s.datagram
      relayed := match l.task with
        | .relayed _ _ _ => none
        | _ => s.relayed }

/-- The daemon as it starts. -/
def start (pm : PeerManager S) : Metered S := ⟨pm, .zero, none, none⟩

end Metered

/-- All interleavings of the daemon's turns with its counting. -/
def metered (S : Snow) (hasRelay : Bool) : System (Metered S) (MeterLabel S) where
  init s := ∃ pm : PeerManager S, pm.Initial ∧ s = Metered.start pm
  step s l s' := s.Enabled hasRelay l ∧ s.after hasRelay l = s'

/-! ### Reports -/

/-- The entry of a peer in the status: both times are counted from when its session was
established. -/
def Peer.status (p : Peer S) (now : Instant) : PeerStatus where
  pubkey := hexEncode p.pubkey
  endpoint := p.endpoint.map (·.display)
  allowedIps := p.allowedIps.map (·.display)
  lastRxSecsAgo := p.active.map fun s => elapsedSecs now s.establishedAt
  lastTxSecsAgo := p.active.map fun s => elapsedSecs now s.establishedAt
  isActive := p.active.isSome

/-- The status that the timer task puts together at the beginning of a tick. -/
def Metered.report (s : Metered S) (tunIp : Str) (now : Instant) : DaemonStatus :=
  .snapshot tunIp (.load s.counters.value) (s.pm.peers.map (·.status now))

/-! ### Reading a history -/

namespace MeterLabel

/-- The turns among the steps. -/
def turn? : MeterLabel S → Option (DaemonLabel S)
  | .turn l _ => some l
  | _ => none

/-- What a step has received. -/
def received : MeterLabel S → List Bytes
  | .datagram packet _ => [recvFrom packet]
  | .relayed _ packet => [packet]
  | _ => []

/-- What a step has sent for the TUN device. -/
def uploaded : MeterLabel S → List Bytes
  | .turn l left => l.uploaded left
  | _ => []

end MeterLabel

/-- The turns of a history. -/
def turnsOf (ls : List (MeterLabel S)) : List (DaemonLabel S) := ls.filterMap MeterLabel.turn?

theorem turnsOf_append (ls ms : List (MeterLabel S)) :
    turnsOf (ls ++ ms) = turnsOf ls ++ turnsOf ms := List.filterMap_append

/-- **The turns are a run of the daemon.** -/
theorem exec_turnsOf {hasRelay : Bool} {pm : PeerManager S} {ls : List (MeterLabel S)}
    {s : Metered S} (h_run : Exec (metered S hasRelay) (Metered.start pm) ls s) :
    Exec (daemon S hasRelay) pm (turnsOf ls) s.pm := by
  refine h_run.induct (fun ls s => Exec (daemon S hasRelay) pm (turnsOf ls) s.pm) .refl ?_
  rintro ls s l s' - h_exec ⟨h_on, rfl⟩
  rw [turnsOf_append]
  cases l with
  | turn l left =>
    refine h_exec.tail ?_
    show s.pm.step hasRelay l.now l.task = (l.events, _)
    rw [← h_on.2]
    rfl
  | datagram | relayed | added =>
    rw [show turnsOf [_] = [] from rfl, List.append_nil]
    exact h_exec

/-! ### Successes and sessions -/

/-- The number of peers with a session. -/
def sessions (l : List (Peer S)) : ℕ := l.countP (·.active.isSome)

/-- The number of responses that pending handshakes have read in a history. -/
def answersIn (es : List (Event S)) : ℕ :=
  es.countP fun
    | .answered _ _ => true
    | _ => false

/-- Where no peer gets a session there are no more of them. -/
theorem sessions_le_of_forall₂ {l l' : List (Peer S)}
    (h : List.Forall₂ (fun p q : Peer S => q.active.isSome → p.active.isSome) l l') :
    sessions l' ≤ sessions l := by
  induction h with
  | nil => exact le_rfl
  | @cons p q l l' hpq _ ih =>
    rw [sessions, sessions, List.countP_cons, List.countP_cons]
    refine Nat.add_le_add ih ?_
    split_ifs with hq hp
    · exact le_rfl
    · exact absurd (hpq hq) hp
    · exact Nat.zero_le _
    · exact le_rfl

/-- What a turn counts as successes, against what it does to the sessions: there are no more new
sessions than successes, every success is a session that was installed, and what was installed
without being counted was the answer to an initiation of the node's own. -/
structure Settles (n : ℕ) (l : List (Peer S)) (es : List (Event S)) (l' : List (Peer S)) :
    Prop where
  sessions : sessions l' ≤ sessions l + n
  installed : n ≤ (installedIn es).length
  missed : (installedIn es).length ≤ n + answersIn es

namespace Settles

variable {n m : ℕ} {l l' : List (Peer S)} {es : List (Event S)}

/-- Nothing is installed. -/
theorem idle (h : AraxMesh.sessions l' ≤ AraxMesh.sessions l) (h_none : installedIn es = []) :
    Settles 0 l es l' := by
  refine ⟨h, Nat.zero_le _, ?_⟩
  rw [h_none]
  exact Nat.zero_le _

theorem refl (l : List (Peer S)) : Settles 0 l [] l := .idle le_rfl rfl

/-- One turn after the other. -/
theorem trans {l'' : List (Peer S)} {es' : List (Event S)} (h : Settles n l es l')
    (h' : Settles m l' es' l'') : Settles (n + m) l (es ++ es') l'' where
  sessions := by
    have h_first := h.sessions
    have h_second := h'.sessions
    omega
  installed := by
    have h_first := h.installed
    have h_second := h'.installed
    rw [installedIn_append, List.length_append]
    omega
  missed := by
    have h_first := h.missed
    have h_second := h'.missed
    rw [installedIn_append, List.length_append]
    simp only [answersIn, List.countP_append] at h_first h_second ⊢
    omega

/-- One peer of a table. -/
theorem middle {p q : Peer S} (h : Settles n [p] es [q]) (l₁ l₂ : List (Peer S)) :
    Settles n (l₁ ++ p :: l₂) es (l₁ ++ q :: l₂) where
  sessions := by
    have h_one := h.sessions
    simp only [AraxMesh.sessions, List.countP_append, List.countP_cons, List.countP_nil] at h_one ⊢
    omega
  installed := h.installed
  missed := h.missed

/-- Only the active sessions matter. -/
theorem touch {p p' q q' : Peer S} (h : Settles n [p] es [q]) (hp : p'.active = p.active)
    (hq : q'.active = q.active) : Settles n [p'] es [q'] where
  sessions := by
    have h_one := h.sessions
    simp only [AraxMesh.sessions, List.countP_cons, List.countP_nil, hp, hq] at h_one ⊢
    exact h_one
  installed := h.installed
  missed := h.missed

end Settles

namespace Peer

variable {p : Peer S} {now : Instant}

/-- A responder counts the session it installs. -/
theorem respond_settles (p : Peer S) (hs : S.HandshakeState) (magic : MagicConfig) (d : Draw S)
    (now : Instant) (dest : OutboundDest) :
    Settles (amount .handshakeSuccesses (initRecords hs d)) [p]
      ((p.respond hs magic d now).events ++
        sendHandshake (p.respond hs magic d now).result (some dest))
      [(p.respond hs magic d now).state] := by
  have h := p.responded hs magic d now
  unfold initRecords
  generalize p.respond hs magic d now = out at h ⊢
  cases h with
  | failed h_write =>
    rw [h_write]
    exact .refl [p]
  | installed msg t h_write =>
    rw [h_write]
    -- one success, one install, and the peer has a session
    exact ⟨Nat.le_add_left 1 _, le_rfl, le_rfl⟩

/-- An initiator counts the session it gets, if it had none. -/
theorem handleHandshakePacket_settles (p : Peer S) (localPriv payload : Bytes) (d : Draw S)
    (now : Instant) (h_type : p.magic.handshakeResp ≠ p.magic.handshakeInit) :
    let out := p.handleHandshakePacket localPriv p.magic.handshakeResp payload d now
    Settles (amount .handshakeSuccesses
      (p.respRecords localPriv p.magic.handshakeResp payload d now)) [p] out.events
      [out.state] := by
  have h := p.answered localPriv payload d now h_type
  unfold respRecords
  generalize p.handleHandshakePacket localPriv p.magic.handshakeResp payload d now = out at h ⊢
  -- without a new session there is nothing to count
  have h_idle : out.state.active = p.active → out.events = [] →
      Settles (amount .handshakeSuccesses (if p.active.isNone ∧ out.state.active.isSome then
        Metrics.recordHandshakeSuccess else [])) [p] out.events [out.state] := by
    intro h_active h_events
    have h_not : ¬ (p.active.isNone ∧ out.state.active.isSome) := by
      rw [h_active]
      cases p.active <;> simp
    rw [if_neg h_not, h_events]
    refine .idle (le_of_eq ?_) rfl
    simp only [sessions, List.countP_cons, List.countP_nil, h_active]
  cases h with
  | idle => exact h_idle rfl rfl
  | rejected => exact h_idle rfl rfl
  | abandoned => exact h_idle rfl rfl
  | completed hs hs' t =>
    cases h_active : p.active with
    | none => exact ⟨Nat.le_add_left 1 _, le_rfl, Nat.le_add_right 1 _⟩
    | some s =>
      -- a rekey: a session is installed, and not counted
      refine ⟨le_of_eq ?_, Nat.zero_le _, le_rfl⟩
      simp only [sessions, List.countP_cons, List.countP_nil, h_active]
      rfl

/-! ### The other turns -/

/-- A peer that gets no session. -/
def Holds (p q : Peer S) : Prop := q.active.isSome → p.active.isSome

theorem Holds.trans {p q r : Peer S} (h : p.Holds q) (h' : q.Holds r) : p.Holds r := fun hr =>
  h (h' hr)

/-- The machine whose steps install nothing. -/
def holding (S : Snow) : System (Peer S) (List (Event S)) where
  init _ := True
  step p es q := installedIn es = [] ∧ p.Holds q

/-- Nor does a run of such steps. -/
theorem holds_of_emits {p q : Peer S} {es : List (Event S)} (h : Emits (holding S) p es q) :
    installedIn es = [] ∧ p.Holds q := by
  have h_start : installedIn ([] : List (Event S)) = [] ∧ p.Holds p := ⟨rfl, id⟩
  refine h.induct (fun past r => installedIn past = [] ∧ p.Holds r) h_start ?_
  rintro past r es q ⟨h_none, h_holds⟩ ⟨h_none', h_holds'⟩
  rw [installedIn_append, h_none, h_none']
  exact ⟨rfl, h_holds.trans h_holds'⟩

/-- Sending a handshake packet installs nothing yet. -/
theorem installedIn_sendHandshake (packet : Option Bytes) (dest : Option OutboundDest) :
    installedIn (sendHandshake packet dest : List (Event S)) = [] :=
  installedIn_of_quiet (quiet_sendHandshake packet dest)

/-- The turns a node makes of its own install nothing. -/
theorem makes_holding : Makes (holding S) where
  forget p := .single ⟨rfl, id⟩
  clear p := .single ⟨rfl, nofun⟩
  initiate p localPriv hasRelay d now _ := by
    refine .single ⟨?_, ?_⟩
    · have h := p.initiated localPriv d now
      unfold initiateAndSend
      rw [installedIn_append, installedIn_sendHandshake, List.append_nil]
      generalize p.initiateHandshake localPriv d now = out at h ⊢
      cases h with
      | failed => rfl
      | begun => rfl
    · intro hq
      have h := p.initiated localPriv d now
      unfold initiateAndSend at hq
      generalize p.initiateHandshake localPriv d now = out at h hq
      cases h with
      | failed => exact hq
      | begun => exact hq
  encrypt p payload hasRelay d now := by
    have h := p.encrypted payload d now
    unfold encryptAndSend
    generalize p.encryptPacket payload d now = out at h ⊢
    cases h with
    | inactive => exact .single ⟨rfl, id⟩
    | failed s h => exact .single ⟨rfl, fun _ => h ▸ rfl⟩
    | sent s ciphertext h =>
      refine .single ⟨?_, fun _ => h ▸ rfl⟩
      dsimp only
      split <;> rfl
  resend p dest now := .single ⟨installedIn_sendHandshake _ dest, id⟩

/-- A packet is opened under a session that is there. -/
theorem acceptData_holds (p : Peer S) (payload : Bytes) (now : Instant) :
    p.Holds (p.acceptData payload now).state := by
  have h := p.accepted payload now
  generalize p.acceptData payload now = out at h ⊢
  cases h with
  | ignored => exact id
  | opened k s padded w h_admits =>
    have h_slot : p.slot k = some s := h_admits.honours.1
    cases k with
    | active => exact fun _ => (show p.active = some s from h_slot) ▸ rfl
    | previous => exact id

end Peer

/-- A data turn installs nothing. -/
theorem DataTurn.installedIn_eq {P : Peer S → Prop} {payload : Bytes} {now : Instant}
    {l l' : List (Peer S)} {es : List (Event S)} (h : DataTurn P payload now l es l') :
    installedIn es = [] := by
  refine List.filterMap_eq_nil_iff.mpr fun e he => ?_
  obtain ⟨p, -, -, k, s, padded, -, rfl | ⟨rfl, -⟩⟩ := h.events e he
  · rfl
  · rfl

namespace PeerManager

/-- The peer that a turn is on, with what is counted for it. -/
theorem updatePeer_settles (pm : PeerManager S) {c : Peer S → Bool} {f : Peer S → Turn S (Peer S)}
    {g : Peer S → List (Counter × ℕ)}
    (h : ∀ p ∈ pm.peers, Settles (amount .handshakeSuccesses (g p)) [p] (f p).1 [(f p).2]) :
    Settles (amount .handshakeSuccesses (pm.recordFirst c g)) pm.peers (pm.updatePeer c f).1
      (pm.updatePeer c f).2.peers := by
  unfold updatePeer recordFirst
  rcases updateFirst_cases c f pm.peers with ⟨h_none, heq⟩ | ⟨l₁, p, l₂, hl, hp, h_pre, heq⟩
  · rw [heq, List.find?_eq_none.mpr fun p hp => by simp [h_none p hp]]
    exact .refl pm.peers
  · have h_find : pm.peers.find? c = some p := by
      rw [hl, List.find?_append, List.find?_eq_none.mpr fun q hq => by simp [h_pre q hq],
        List.find?_cons_of_pos hp]
      rfl
    have h_one := h p (by simp [hl])
    rw [heq, h_find, hl]
    exact h_one.middle l₁ l₂

/-- The timer records attempts only. -/
theorem mem_timerRecords {localPriv : Bytes} {hasRelay : Bool} {draws : ℕ → Draw S × Draw S}
    {now : Instant} {idx : ℕ} {l : List (Peer S)} {a : Counter × ℕ}
    (h : a ∈ timerRecords localPriv hasRelay draws now idx l) : a.1 = .handshakeAttempts := by
  induction l generalizing idx with
  | nil => cases h
  | cons p ps ih =>
    rcases List.mem_append.mp h with h | h
    · rcases List.mem_append.mp h with h | h
      · exact Metrics.mem_ite h
      · exact Metrics.mem_ite h
    · exact ih h

/-- What is counted for the peer that a turn is on. -/
theorem mem_recordFirst {pm : PeerManager S} {c : Peer S → Bool} {f : Peer S → List (Counter × ℕ)}
    {a : Counter × ℕ} (h : a ∈ pm.recordFirst c f) : ∃ p, a ∈ f p := by
  unfold recordFirst at h
  cases h_find : pm.peers.find? c with
  | none =>
    rw [h_find] at h
    cases h
  | some p =>
    rw [h_find] at h
    exact ⟨p, h⟩

/-- **The timer counts attempts and the dispatchers successes.** An initiation for a packet of the
TUN device is not counted. -/
theorem mem_records {pm : PeerManager S} {hasRelay : Bool} {now : Instant} {task : DaemonTask S}
    {a : Counter × ℕ} (h : a ∈ pm.records hasRelay now task) :
    a.1 = if task.isTimer then .handshakeAttempts else .handshakeSuccesses := by
  cases task with
  | timer draws => exact mem_timerRecords h
  | tun | poll => cases h
  | udp datagram addr d =>
    simp only [records] at h
    cases h_recv : recvFrom datagram with
    | nil =>
      rw [h_recv] at h
      cases h
    | cons packetType payload =>
      rw [h_recv] at h
      dsimp only at h
      split_ifs at h
      · -- an initiation, if the library can read it
        split at h
        · cases h
        · obtain ⟨_, h⟩ := mem_recordFirst h
          exact Metrics.mem_ite h
      · obtain ⟨_, h⟩ := mem_recordFirst h
        exact Metrics.mem_ite h
      · cases h
  | relayed fromKey packet d =>
    cases packet with
    | nil => cases h
    | cons packetType payload =>
      simp only [records] at h
      split_ifs at h
      · split at h
        · cases h
        · -- and if the relay names who it says it is from
          split_ifs at h
          · cases h
          · obtain ⟨_, h⟩ := mem_recordFirst h
            exact Metrics.mem_ite h
      · obtain ⟨_, h⟩ := mem_recordFirst h
        exact Metrics.mem_ite h
      · cases h

/-- The loop of the timer installs nothing. -/
theorem timerPeers_holds (localPriv : Bytes) (hasRelay : Bool) (draws : ℕ → Draw S × Draw S)
    (now : Instant) (idx : ℕ) (l : List (Peer S)) :
    installedIn (timerPeers localPriv hasRelay draws now idx l).1 = [] := by
  induction l generalizing idx with
  | nil => rfl
  | cons p ps ih =>
    have h_share := Peer.holds_of_emits
      (Peer.makes_holding.timer p localPriv hasRelay (draws idx).1 (draws idx).2 now)
    rw [timerPeers]
    dsimp only
    rw [installedIn_append, h_share.1, ih]
    rfl

/-- A packet that brings data. -/
theorem step_data_settles (pm : PeerManager S) (hasRelay : Bool) (now : Instant)
    {task : DaemonTask S} {payload : Bytes} (h : task.BringsData pm.magic payload) :
    Settles 0 pm.peers (pm.step hasRelay now task).1 (pm.step hasRelay now task).2.peers := by
  refine .idle (sessions_le_of_forall₂ ?_) (pm.step_data hasRelay now h).installedIn_eq
  obtain ⟨h_init, h_resp, ⟨addr, d, datagram, rfl, h_recv⟩ | ⟨fromKey, d, rfl⟩⟩ := h
  · rw [step_received_data h_init h_resp hasRelay now h_recv]
    exact pm.udpData_forall₂ addr (R := Peer.Holds) (fun _ => id)
      (fun _ _ _ => Peer.Holds.trans) (fun p => p.acceptData_holds payload now) (fun _ => id)
      (fun _ => id)
  · rw [step_relayed_data h_init h_resp]
    exact pm.updatePeer_forall₂ (R := Peer.Holds) (fun _ => id) fun p _ =>
      p.acceptData_holds payload now

/-- The timer installs nothing, and counts no success. -/
theorem timerTick_settles (pm : PeerManager S) (hasRelay : Bool) (draws : ℕ → Draw S × Draw S)
    (now : Instant) :
    Settles (amount .handshakeSuccesses (pm.records hasRelay now (.timer draws))) pm.peers
      (pm.timerTick hasRelay draws now).1 (pm.timerTick hasRelay draws now).2.peers := by
  have h_none : amount .handshakeSuccesses (pm.records hasRelay now (.timer draws)) = 0 := by
    refine amount_eq_zero fun a h_mem h_eq => ?_
    cases (mem_timerRecords h_mem).symm.trans h_eq
  rw [h_none]
  refine .idle (sessions_le_of_forall₂ ?_) (timerPeers_holds ..)
  exact timerPeers_forall₂ (R := Peer.Holds) (fun p d d' => (Peer.holds_of_emits
    (Peer.makes_holding.timer p pm.localPriv hasRelay d d' now)).2) draws 0 pm.peers

/-- A packet of the TUN device installs nothing. -/
theorem tunPacket_settles (pm : PeerManager S) (hasRelay : Bool) (packet : Bytes) (d : Draw S)
    (now : Instant) :
    Settles 0 pm.peers (pm.tunPacket hasRelay packet d now).1
      (pm.tunPacket hasRelay packet d now).2.peers := by
  unfold tunPacket
  split
  · exact .refl pm.peers
  split
  · exact .refl pm.peers
  split
  · exact .refl pm.peers
  · next p hp =>
    have h_share := Peer.holds_of_emits
      (Peer.makes_holding.sendPacket p pm.localPriv packet hasRelay d now)
    exact .idle (sessions_le_of_forall₂ (forall₂_set (R := Peer.Holds) (fun _ => id) hp
      h_share.2)) h_share.1

/-- A response, at the peer it is for. -/
theorem response_settles {pm : PeerManager S} (h_magic : ∀ p ∈ pm.peers, p.magic = pm.magic)
    (h_type : pm.magic.handshakeResp ≠ pm.magic.handshakeInit) (payload : Bytes) (d : Draw S)
    (now : Instant) {p : Peer S} (hp : p ∈ pm.peers) :
    let out := p.handleHandshakePacket pm.localPriv pm.magic.handshakeResp payload d now
    Settles (amount .handshakeSuccesses
      (p.respRecords pm.localPriv pm.magic.handshakeResp payload d now)) [p] out.events
      [out.state] := by
  have h_one := p.handleHandshakePacket_settles pm.localPriv payload d now (by rwa [h_magic p hp])
  rwa [h_magic p hp] at h_one

/-- A datagram, branch by branch: what is counted is looked up as the peer is. -/
theorem udpPacket_settles (pm : PeerManager S) (hasRelay : Bool) (now : Instant)
    (datagram : Bytes) (addr : SocketAddr) (d : Draw S)
    (h_magic : ∀ p ∈ pm.peers, p.magic = pm.magic) :
    Settles (amount .handshakeSuccesses (pm.records hasRelay now (.udp datagram addr d))) pm.peers
      (pm.step hasRelay now (.udp datagram addr d)).1
      (pm.step hasRelay now (.udp datagram addr d)).2.peers := by
  cases h_recv : recvFrom datagram with
  | nil =>
    simp only [records, step, h_recv, udpPacket]
    exact .refl pm.peers
  | cons packetType payload =>
    by_cases h_init : packetType = pm.magic.handshakeInit
    · simp only [records, step, h_recv, udpPacket, if_pos h_init, udpInit]
      cases S.readInitiation pm.localPriv payload with
      | none => exact .refl pm.peers
      | some hr =>
        -- the address is noted first, which is no session
        refine pm.updatePeer_settles fun p _ => ?_
        have h_one := Peer.respond_settles { p with endpoint := some addr, lastDirectRx := now }
          hr.1 pm.magic d now (.udp addr)
        exact h_one.touch rfl rfl
    by_cases h_resp : packetType = pm.magic.handshakeResp
    · subst h_resp
      simp only [records, step, h_recv, udpPacket, if_neg h_init, if_true, udpResp]
      exact pm.updatePeer_settles fun p hp =>
        (response_settles h_magic h_init payload d now hp).touch rfl rfl
    by_cases h_data : packetType = pm.magic.data
    · subst h_data
      have h_brings : (DaemonTask.udp datagram addr d).BringsData pm.magic payload :=
        ⟨h_init, h_resp, Or.inl ⟨addr, d, datagram, rfl, h_recv⟩⟩
      simp only [records, h_recv, if_neg h_init, if_neg h_resp]
      exact pm.step_data_settles hasRelay now h_brings
    · simp only [records, step, h_recv, udpPacket, if_neg h_init, if_neg h_resp, if_neg h_data]
      exact .refl pm.peers

/-- A relayed packet, which is looked up by the key it came with. -/
theorem relayedPacket_settles (pm : PeerManager S) (hasRelay : Bool) (now : Instant)
    (fromKey packet : Bytes) (d : Draw S) (h_magic : ∀ p ∈ pm.peers, p.magic = pm.magic) :
    Settles (amount .handshakeSuccesses (pm.records hasRelay now (.relayed fromKey packet d)))
      pm.peers (pm.relayedPacket fromKey packet d now).1
      (pm.relayedPacket fromKey packet d now).2.peers := by
  cases packet with
  | nil => exact .refl pm.peers
  | cons packetType payload =>
    by_cases h_init : packetType = pm.magic.handshakeInit
    · simp only [records, relayedPacket, if_pos h_init, relayedInit]
      cases S.readInitiation pm.localPriv payload with
      | none => exact .refl pm.peers
      | some hr =>
        dsimp only
        split_ifs
        · exact .refl pm.peers
        · exact pm.updatePeer_settles fun p _ =>
            p.respond_settles hr.1 pm.magic d now (.relay fromKey)
    by_cases h_resp : packetType = pm.magic.handshakeResp
    · subst h_resp
      simp only [records, relayedPacket, if_neg h_init, if_true]
      exact pm.updatePeer_settles fun p hp => response_settles h_magic h_init payload d now hp
    by_cases h_data : packetType = pm.magic.data
    · subst h_data
      simp only [records, if_neg h_init, if_neg h_resp]
      exact pm.step_data_settles hasRelay now ⟨h_init, h_resp, Or.inr ⟨fromKey, d, rfl⟩⟩
    · simp only [records, relayedPacket, if_neg h_init, if_neg h_resp, if_neg h_data]
      exact .refl pm.peers

/-- The peers that stay keep their sessions, and those that come have none. -/
theorem syncPeers_settles (pm : PeerManager S) (descriptors : List PeerDescriptor)
    (now : Instant) : Settles 0 pm.peers [] (pm.syncPeers descriptors now).2.peers := by
  obtain ⟨old, new, h_peers, h_old, h_new⟩ := pm.syncPeers_split descriptors now
  refine .idle ?_ rfl
  have h_none : sessions new = 0 := by
    refine List.countP_eq_zero.mpr fun q hq => ?_
    rw [(h_new q hq).1.active]
    exact Bool.false_ne_true
  have h_kept : sessions old ≤ sessions (pm.survivors descriptors) :=
    sessions_le_of_forall₂ (h_old.imp fun p q h hq => h.active ▸ hq)
  have h_fewer : sessions (pm.survivors descriptors) ≤ sessions pm.peers :=
    List.filter_sublist.countP_le
  rw [h_peers, sessions, List.countP_append]
  exact (Nat.add_le_add (h_kept.trans h_fewer) (le_of_eq h_none))

/-- **What a turn counts as successes**, against what it does to the sessions. -/
theorem step_settles (pm : PeerManager S) (hasRelay : Bool) (now : Instant) (task : DaemonTask S)
    (h_magic : ∀ p ∈ pm.peers, p.magic = pm.magic) :
    Settles (amount .handshakeSuccesses (pm.records hasRelay now task)) pm.peers
      (pm.step hasRelay now task).1 (pm.step hasRelay now task).2.peers := by
  cases task with
  | timer draws => exact pm.timerTick_settles hasRelay draws now
  | tun packet d => exact pm.tunPacket_settles hasRelay packet d now
  | udp datagram addr d => exact pm.udpPacket_settles hasRelay now datagram addr d h_magic
  | relayed fromKey packet d => exact pm.relayedPacket_settles hasRelay now fromKey packet d h_magic
  | poll descriptors => exact pm.syncPeers_settles descriptors now

end PeerManager

/-! ### Attempts and initiations -/

namespace Peer

variable {localPriv : Bytes} {p : Peer S}

/-- An initiation is an event of its own, before it is sent. -/
theorem initiatedIn_sendHandshake (packet : Option Bytes) (dest : Option OutboundDest) :
    initiatedIn (sendHandshake packet dest : List (Event S)) = [] := by
  refine List.filterMap_eq_nil_iff.mpr fun e he => ?_
  obtain ⟨packet, dest, rfl⟩ := mem_sendHandshake he
  rfl

/-- Where initiations can be written, an attempt begins one. -/
theorem initiatedIn_initiateAndSend (h_init : S.Initiates localPriv)
    (h_key : p.pubkey.length = 32) (hasRelay : Bool) (d : Draw S) (now : Instant) :
    (initiatedIn (p.initiateAndSend localPriv hasRelay d now).1).length = 1 := by
  obtain ⟨hs₀, msg, hs, h_build, h_write⟩ := h_init p.pubkey h_key d.eph
  unfold initiateAndSend
  rw [initiatedIn_append, initiatedIn_sendHandshake, List.append_nil]
  unfold initiateHandshake
  rw [h_build]
  dsimp only
  rw [h_write]
  rfl

/-- A keepalive begins no handshake. -/
theorem initiatedIn_timerKeepalive (p : Peer S) (hasRelay : Bool) (d : Draw S) (now : Instant) :
    initiatedIn (p.timerKeepalive hasRelay d now).1 = [] := by
  unfold timerKeepalive
  split_ifs
  · have h := p.encrypted [] d now
    unfold encryptAndSend
    generalize p.encryptPacket [] d now = out at h ⊢
    cases h with
    | inactive => rfl
    | failed => rfl
    | sent =>
      dsimp only
      split <;> rfl
  · rfl

/-- **A tick's attempts** are the initiations it begins. -/
theorem attempts_timer (h_init : S.Initiates localPriv) (h_sound : p.Sound localPriv)
    (hasRelay : Bool) (d d' : Draw S) (now : Instant) :
    amount .handshakeAttempts (p.timerRecords localPriv hasRelay d now) =
      (initiatedIn (p.timer localPriv hasRelay d d' now).1).length := by
  have h_rotate : amount .handshakeAttempts
      (if (p.checkRotation now).1 ∧ (p.checkRotation now).2.handshake.isNone then
        Metrics.recordHandshakeAttempt else []) =
      (initiatedIn (p.timerRotate localPriv hasRelay d now).1).length := by
    have h_key := (h_sound.moves (p.checkRotation_sameDial now).ownMove.moves).pubkey
    unfold timerRotate
    dsimp only
    split_ifs
    · exact (initiatedIn_initiateAndSend h_init h_key hasRelay d now).symm
    · rfl
  -- the peer as the fourth part finds it
  have h_moves := (p.timerRotate_ownMove localPriv hasRelay d now).trans
    ((timerClear_sameDial (p.timerRotate localPriv hasRelay d now).2 now).trans
      (timerKeepalive_sameDial _ hasRelay d now)).ownMove
  have h_key := (h_sound.moves h_moves.moves).pubkey
  unfold timerRecords timer
  dsimp only
  rw [amount_append, initiatedIn_append, initiatedIn_append, initiatedIn_timerKeepalive,
    List.append_nil, List.length_append, h_rotate]
  generalize (((p.timerRotate localPriv hasRelay d now).2.timerClear now).timerKeepalive hasRelay d
    now).2 = q at h_key ⊢
  congr 1
  unfold timerHandshake
  split_ifs
  · exact (initiatedIn_initiateAndSend h_init h_key hasRelay d' now).symm
  · -- the last initiation is sent again, or nothing is
    split
    · split_ifs
      · rw [initiatedIn_sendHandshake]
        rfl
      · rfl
    · rfl

end Peer

namespace PeerManager

/-- The attempts of a whole tick. -/
theorem attempts_timerPeers {localPriv : Bytes} (h_init : S.Initiates localPriv) (hasRelay : Bool)
    (draws : ℕ → Draw S × Draw S) (now : Instant) (idx : ℕ) {l : List (Peer S)}
    (h_sound : ∀ p ∈ l, p.Sound localPriv) :
    amount .handshakeAttempts (timerRecords localPriv hasRelay draws now idx l) =
      (initiatedIn (timerPeers localPriv hasRelay draws now idx l).1).length := by
  induction l generalizing idx with
  | nil => rfl
  | cons p ps ih =>
    rw [List.forall_mem_cons] at h_sound
    rw [timerRecords, timerPeers]
    dsimp only
    rw [amount_append, initiatedIn_append, List.length_append, ih (idx + 1) h_sound.2,
      Peer.attempts_timer h_init h_sound.1 hasRelay (draws idx).1 (draws idx).2 now]

end PeerManager

/-! ### The counters of a run -/

/-- The events of the ticks among the turns of a run. -/
def tickEvents (ls : List (DaemonLabel S)) : List (Event S) := eventsOf (ls.filter (·.task.isTimer))

namespace MeterLabel

/-- The additions for the packets a step receives and sends. -/
def traffic (l : MeterLabel S) : List (Counter × ℕ) :=
  (l.received.flatMap fun packet => Metrics.addRx packet.length) ++
    l.uploaded.flatMap fun packet => Metrics.addTx packet.length

/-- The additions for the handshakes of a step. -/
def handshakes (hasRelay : Bool) (pm : PeerManager S) : MeterLabel S → List (Counter × ℕ)
  | .turn l _ => pm.records hasRelay l.now l.task
  | _ => []

end MeterLabel

namespace Metered

variable {hasRelay : Bool} {s : Metered S} {l : MeterLabel S}

/-- **What a step begins to count.** -/
theorem standing_after (s : Metered S) (l : MeterLabel S) (c : Counter) :
    (s.after hasRelay l).counters.standing c ≡
      s.counters.standing c + (amount c l.traffic + amount c (l.handshakes hasRelay s.pm))
        [MOD Metrics.range] := by
  cases l with
  | datagram datagram addr =>
    rw [show (s.after hasRelay (.datagram datagram addr)).counters =
      s.counters.owe .udpToTun (Metrics.addRx (recvFrom datagram).length) from rfl,
      Ledger.standing_owe]
    exact Nat.ModEq.refl _
  | relayed fromKey packet =>
    rw [show (s.after hasRelay (.relayed fromKey packet)).counters =
      s.counters.owe .relay (Metrics.addRx packet.length) from rfl, Ledger.standing_owe]
    exact Nat.ModEq.refl _
  | added task => exact s.counters.standing_pay task c
  | turn l left =>
    show (Ledger.owe _ _ _).standing c ≡ _ [MOD Metrics.range]
    rw [Ledger.standing_owe, Nat.add_comm (amount c _), ← Nat.add_assoc]
    exact (s.counters.standing_run _ c).add_right _

/-- What tasks owe is for packets, and not for handshakes. -/
def Clean (s : Metered S) : Prop :=
  ∀ task, ∀ a ∈ s.counters.owed task, a.1 ≠ .handshakeAttempts ∧ a.1 ≠ .handshakeSuccesses

theorem Clean.owe {s : Metered S} (h : s.Clean) (i : Task) {adds : List (Counter × ℕ)}
    (h_adds : ∀ a ∈ adds, a.1 ≠ .handshakeAttempts ∧ a.1 ≠ .handshakeSuccesses) :
    ∀ task, ∀ a ∈ (s.counters.owe i adds).owed task,
      a.1 ≠ .handshakeAttempts ∧ a.1 ≠ .handshakeSuccesses := fun task a ha =>
  (Ledger.mem_owed_owe ha).elim (h task a) (h_adds a)

/-- A step leaves it so. -/
theorem Clean.after (h : s.Clean) (l : MeterLabel S) : (s.after hasRelay l).Clean := by
  cases l with
  | datagram packet addr => exact h.owe .udpToTun fun _ => Metrics.addRx_ne
  | relayed fromKey packet => exact h.owe .relay fun _ => Metrics.addRx_ne
  | added task => exact fun j a ha => h j a (Ledger.mem_owed_of_pay ha)
  | turn l left =>
    -- the handshakes are counted under the lock, and leave no debt
    have h_run : Clean { s with
        counters := s.counters.run Metrics.range (s.pm.records hasRelay l.now l.task) } := by
      intro task a ha
      rw [Ledger.owed_run] at ha
      exact h task a ha
    refine h_run.owe .tunToUdp fun a ha => ?_
    obtain ⟨packet, -, ha⟩ := List.mem_flatMap.mp ha
    exact Metrics.addTx_ne ha

/-- The counter stands at `n`, up to what tasks have begun to count and not added yet. -/
def Counts (s : Metered S) (c : Counter) (n : ℕ) : Prop :=
  s.counters.standing c ≡ n [MOD Metrics.range]

/-- A step adds to what the counter stands at. -/
theorem Counts.after {c : Counter} {n m : ℕ} (h : s.Counts c n)
    (h_news : amount c l.traffic + amount c (l.handshakes hasRelay s.pm) = m) :
    (s.after hasRelay l).Counts c (n + m) := by
  subst h_news
  exact (s.standing_after l c).trans (h.add_right _)

/-- What a history has counted: the packets received and sent, the attempts of the timer, and
successes that settle the sessions. -/
structure Accounted (pm : PeerManager S) (ls : List (MeterLabel S)) (s : Metered S) : Prop where
  traffic : ∀ c, c ≠ .handshakeAttempts → c ≠ .handshakeSuccesses →
    s.Counts c (amount c (ls.flatMap MeterLabel.traffic))
  attempts : s.Counts .handshakeAttempts (initiatedIn (tickEvents (turnsOf ls))).length
  successes : ∃ n, s.Counts .handshakeSuccesses n ∧
    Settles n pm.peers (eventsOf (turnsOf ls)) s.pm.peers
  clean : s.Clean
  bounded : s.counters.Bounded Metrics.range

/-- A daemon that starts has counted nothing. -/
theorem Accounted.start (pm : PeerManager S) : Accounted pm [] (Metered.start pm) where
  traffic c _ _ := by
    rw [Counts, show (Metered.start pm).counters = .zero from rfl, Ledger.standing_zero]
    rfl
  attempts := by
    rw [Counts, show (Metered.start pm).counters = .zero from rfl, Ledger.standing_zero]
    rfl
  successes := by
    refine ⟨0, ?_, .refl pm.peers⟩
    rw [Counts, show (Metered.start pm).counters = .zero from rfl, Ledger.standing_zero]
  clean task a ha := absurd ha List.not_mem_nil
  bounded _ := by
    show 0 < 2 ^ 64
    decide

end Metered

/-- No addition for a packet is one for a handshake. -/
theorem MeterLabel.amount_traffic (l : MeterLabel S) {c : Counter}
    (h : c = .handshakeAttempts ∨ c = .handshakeSuccesses) : amount c l.traffic = 0 := by
  have h_ne : ∀ a ∈ l.traffic, a.1 ≠ .handshakeAttempts ∧ a.1 ≠ .handshakeSuccesses := by
    intro a ha
    rcases List.mem_append.mp ha with ha | ha
    · obtain ⟨packet, -, ha⟩ := List.mem_flatMap.mp ha
      exact Metrics.addRx_ne ha
    · obtain ⟨packet, -, ha⟩ := List.mem_flatMap.mp ha
      exact Metrics.addTx_ne ha
  refine amount_eq_zero fun a ha h_eq => ?_
  rcases h with rfl | rfl
  · exact (h_ne a ha).1 h_eq
  · exact (h_ne a ha).2 h_eq

/-- No addition for a handshake is one for a packet. -/
theorem MeterLabel.amount_handshakes (hasRelay : Bool) (pm : PeerManager S) (l : MeterLabel S)
    {c : Counter} (h : c ≠ .handshakeAttempts) (h' : c ≠ .handshakeSuccesses) :
    amount c (l.handshakes hasRelay pm) = 0 := by
  refine amount_eq_zero fun a ha h_eq => ?_
  cases l with
  | turn l left =>
    have h_counter := PeerManager.mem_records ha
    split_ifs at h_counter
    · exact h (h_eq.symm.trans h_counter)
    · exact h' (h_eq.symm.trans h_counter)
  | datagram | relayed | added => cases ha

/-- The ticks of a history go on with it. -/
theorem tickEvents_append (ls ms : List (DaemonLabel S)) :
    tickEvents (ls ++ ms) = tickEvents ls ++ tickEvents ms := by
  rw [tickEvents, List.filter_append, eventsOf, List.flatMap_append]
  rfl

/-- The attempts of a step are the initiations of its tick. -/
theorem Metered.attempts_after {hasRelay : Bool} {s : Metered S} {l : MeterLabel S}
    (h_on : s.Enabled hasRelay l) (h_writes : S.Initiates s.pm.localPriv)
    (h_sound : ∀ p ∈ s.pm.peers, p.Sound s.pm.localPriv) :
    amount .handshakeAttempts (l.handshakes hasRelay s.pm) =
      (initiatedIn (tickEvents (turnsOf [l]))).length := by
  cases l with
  | turn l left =>
    obtain ⟨now, task, events⟩ := l
    obtain rfl : (s.pm.step hasRelay now task).1 = events := h_on.2
    by_cases h_task : task.isTimer = true
    · cases task with
      | timer draws =>
        have h_events : tickEvents (turnsOf [MeterLabel.turn ⟨now, .timer draws,
            (s.pm.step hasRelay now (.timer draws)).1⟩ left]) =
            (PeerManager.timerPeers s.pm.localPriv hasRelay draws now 0 s.pm.peers).1 :=
          List.append_nil _
        rw [h_events]
        exact PeerManager.attempts_timerPeers h_writes hasRelay draws now 0 h_sound
      | tun | udp | relayed | poll => cases h_task
    · -- the other tasks count no attempt
      have h_none : tickEvents (turnsOf [MeterLabel.turn
          ⟨now, task, (s.pm.step hasRelay now task).1⟩ left]) = [] := by
        show eventsOf (List.filter _ [_]) = []
        rw [List.filter_singleton, Bool.eq_false_iff.mpr h_task]
        rfl
      rw [h_none]
      refine amount_eq_zero fun a ha h_eq => ?_
      have h_counter := PeerManager.mem_records ha
      rw [if_neg h_task, h_eq] at h_counter
      cases h_counter
  | datagram | relayed | added => rfl

/-- The successes of a step settle its sessions. -/
theorem Metered.settles_after {hasRelay : Bool} {s : Metered S} {l : MeterLabel S}
    (h_on : s.Enabled hasRelay l) (h_magic : ∀ p ∈ s.pm.peers, p.magic = s.pm.magic) :
    Settles (amount .handshakeSuccesses (l.handshakes hasRelay s.pm)) s.pm.peers
      (eventsOf (turnsOf [l])) (s.after hasRelay l).pm.peers := by
  cases l with
  | turn l left =>
    have h_events : eventsOf (turnsOf [MeterLabel.turn l left]) =
        (s.pm.step hasRelay l.now l.task).1 := (List.append_nil _).trans h_on.2.symm
    rw [h_events]
    exact s.pm.step_settles hasRelay l.now l.task h_magic
  | datagram | relayed | added => exact .refl s.pm.peers

/-- **A step keeps the account.** -/
theorem Metered.Accounted.after {hasRelay : Bool} {pm : PeerManager S} {ls : List (MeterLabel S)}
    {s : Metered S} {l : MeterLabel S} (h : Metered.Accounted pm ls s)
    (h_on : s.Enabled hasRelay l) (h_writes : S.Initiates s.pm.localPriv)
    (h_sound : ∀ p ∈ s.pm.peers, p.Sound s.pm.localPriv)
    (h_magic : ∀ p ∈ s.pm.peers, p.magic = s.pm.magic) :
    Metered.Accounted pm (ls ++ [l]) (s.after hasRelay l) where
  traffic c hc hc' := by
    rw [List.flatMap_append, List.flatMap_singleton, amount_append]
    refine (h.traffic c hc hc').after ?_
    rw [l.amount_handshakes hasRelay s.pm hc hc', Nat.add_zero]
  attempts := by
    rw [turnsOf_append, tickEvents_append, initiatedIn_append, List.length_append]
    refine h.attempts.after ?_
    rw [l.amount_traffic (Or.inl rfl), Nat.zero_add]
    exact Metered.attempts_after h_on h_writes h_sound
  successes := by
    obtain ⟨n, h_counts, h_settles⟩ := h.successes
    refine ⟨n + amount .handshakeSuccesses (l.handshakes hasRelay s.pm), h_counts.after ?_, ?_⟩
    · rw [l.amount_traffic (Or.inr rfl), Nat.zero_add]
    · rw [turnsOf_append, eventsOf, List.flatMap_append]
      exact h_settles.trans (Metered.settles_after h_on h_magic)
  clean := h.clean.after l
  bounded := by
    cases l with
    | turn l left => exact h.bounded.run (s.pm.records hasRelay l.now l.task)
    | added task => exact h.bounded.pay task
    | datagram | relayed => exact h.bounded

/-! ### What the counters say -/

/-- What was received in a history, by UDP and through the relay. -/
def receivedOf (ls : List (MeterLabel S)) : List Bytes := ls.flatMap MeterLabel.received

/-- What was sent in a history for packets of the TUN device. -/
def uploadedOf (ls : List (MeterLabel S)) : List Bytes := ls.flatMap MeterLabel.uploaded

/-- The additions of a history for packets. -/
theorem amount_traffic (c : Counter) (ls : List (MeterLabel S)) :
    amount c (ls.flatMap MeterLabel.traffic) =
      ((receivedOf ls).map fun packet => amount c (Metrics.addRx packet.length)).sum +
        ((uploadedOf ls).map fun packet => amount c (Metrics.addTx packet.length)).sum := by
  induction ls with
  | nil => rfl
  | cons l ls ih =>
    rw [List.flatMap_cons, amount_append, ih, MeterLabel.traffic, amount_append, amount_flatMap,
      amount_flatMap, receivedOf, receivedOf, uploadedOf, uploadedOf, List.flatMap_cons,
      List.flatMap_cons, List.map_append, List.map_append, List.sum_append, List.sum_append]
    omega

/-- Nobody owes a counter of handshakes anything. -/
theorem Metered.Clean.debt_eq_zero {s : Metered S} (h : s.Clean) {c : Counter}
    (hc : c = .handshakeAttempts ∨ c = .handshakeSuccesses) : s.counters.debt c = 0 := by
  refine Finset.sum_eq_zero fun task _ => amount_eq_zero fun a ha h_eq => ?_
  rcases hc with rfl | rfl
  · exact (h task a ha).1 h_eq
  · exact (h task a ha).2 h_eq

/-- **What has been counted in every state of a run.** -/
theorem accounted_of_exec (h_completes : S.Completes) {hasRelay : Bool} {pm₀ : PeerManager S}
    (h_writes : S.Initiates pm₀.localPriv) (h_init : pm₀.Initial) {ls : List (MeterLabel S)}
    {s : Metered S} (h_run : Exec (metered S hasRelay) (Metered.start pm₀) ls s) :
    Metered.Accounted pm₀ ls s := by
  refine h_run.induct (fun ls s => Metered.Accounted pm₀ ls s) (.start pm₀) ?_
  rintro ls s l s' h_exec h_accounted ⟨h_on, rfl⟩
  have h_turns := exec_turnsOf h_exec
  have h_reach : Reachable (daemon S hasRelay) s.pm := ⟨pm₀, _, h_init, h_turns⟩
  have h_priv := (config_of_exec h_turns).1
  exact h_accounted.after h_on (h_priv ▸ h_writes)
    (PeerManager.sound_of_reachable h_completes h_reach) (peers_magic h_reach)

/-- **What the counters say.** Let the library complete the pending handshakes that read a response,
and write initiations. In every run of the daemon, whatever its tasks interleave with, modulo the
width of the counters:

* bytes and packets received are those of the datagrams, as the receive buffer has them, and of the
  relayed packets that came in, and bytes and packets sent those that left for packets of the TUN
  device, less what tasks have begun to count and not added yet: keepalives and what the timer and
  the dispatchers send are not counted;
* the attempts are the initiations of the timer, and no others;
* the successes are at least the peers that have a session and at most the sessions installed, and
  what they leave out are answers to initiations of the node's own. -/
theorem metered_accounts (h_completes : S.Completes) {hasRelay : Bool} {pm₀ : PeerManager S}
    (h_writes : S.Initiates pm₀.localPriv) (h_init : pm₀.Initial) {ls : List (MeterLabel S)}
    {s : Metered S} (h_run : Exec (metered S hasRelay) (Metered.start pm₀) ls s) :
    s.Counts .totalRxBytes ((receivedOf ls).map List.length).sum ∧
    s.Counts .totalRxPackets (receivedOf ls).length ∧
    s.Counts .totalTxBytes ((uploadedOf ls).map List.length).sum ∧
    s.Counts .totalTxPackets (uploadedOf ls).length ∧
    s.counters.value .handshakeAttempts =
      (initiatedIn (tickEvents (turnsOf ls))).length % Metrics.range ∧
    ∃ n, s.counters.value .handshakeSuccesses = n % Metrics.range ∧
      sessions s.pm.peers ≤ n ∧ n ≤ (installedIn (eventsOf (turnsOf ls))).length ∧
      (installedIn (eventsOf (turnsOf ls))).length ≤ n + answersIn (eventsOf (turnsOf ls)) := by
  have h := accounted_of_exec h_completes h_writes h_init h_run
  have h_traffic : ∀ c n, c ≠ .handshakeAttempts → c ≠ .handshakeSuccesses →
      ((receivedOf ls).map fun packet => amount c (Metrics.addRx packet.length)).sum +
        ((uploadedOf ls).map fun packet => amount c (Metrics.addTx packet.length)).sum = n →
      s.Counts c n := by
    rintro c n hc hc' rfl
    rw [← amount_traffic]
    exact h.traffic c hc hc'
  refine ⟨?_, ?_, ?_, ?_, ?_, ?_⟩
  · exact h_traffic _ _ (by decide) (by decide) (by simp [Metrics.addRx, Metrics.addTx])
  · exact h_traffic _ _ (by decide) (by decide) (by simp [Metrics.addRx, Metrics.addTx])
  · exact h_traffic _ _ (by decide) (by decide) (by simp [Metrics.addRx, Metrics.addTx])
  · exact h_traffic _ _ (by decide) (by decide) (by simp [Metrics.addRx, Metrics.addTx])
  · exact Ledger.value_of_standing h.attempts h.bounded (h.clean.debt_eq_zero (Or.inl rfl))
  · obtain ⟨n, h_counts, h_settles⟩ := h.successes
    refine ⟨n, Ledger.value_of_standing h_counts h.bounded (h.clean.debt_eq_zero (Or.inr rfl)), ?_,
      h_settles.installed, h_settles.missed⟩
    -- the daemon starts without sessions
    have h_none : sessions pm₀.peers = 0 := by
      refine List.countP_eq_zero.mpr fun p hp => ?_
      rw [(PeerManager.Initial.sessionless h_init p hp).active]
      exact Bool.false_ne_true
    have h_new := h_settles.sessions
    omega

/-! ### An initiation, counted -/

/-- Every step of the list is enabled when it comes. -/
def Metered.Plays (hasRelay : Bool) (s : Metered S) : List (MeterLabel S) → Prop
  | [] => True
  | l :: ls => s.Enabled hasRelay l ∧ (s.after hasRelay l).Plays hasRelay ls

theorem Metered.exec_of_plays {hasRelay : Bool} {s : Metered S} {ls : List (MeterLabel S)}
    (h : s.Plays hasRelay ls) :
    Exec (metered S hasRelay) s ls (ls.foldl (Metered.after hasRelay) s) := by
  induction ls generalizing s with
  | nil => exact .refl
  | cons l ls ih => exact .head ⟨h.1, rfl⟩ (ih h.2)

namespace Symbolic

/-- Node `7` answers an initiation of its peer. -/
def answering : DaemonLabel unchecked where
  now := 2
  task := .udp (initiationPacket 1) peerAddr (uncheckedDraw 2)
  events := (unticked.step false 2 (.udp (initiationPacket 1) peerAddr (uncheckedDraw 2))).1

/-- It has read and counted the datagram before. -/
def countedRun : List (MeterLabel unchecked) :=
  [.datagram (initiationPacket 1) peerAddr, .added .udpToTun, .added .udpToTun,
    .turn answering false]

def countedEnd : Metered unchecked :=
  countedRun.foldl (Metered.after false) (Metered.start unticked)

theorem exec_countedRun :
    Exec (metered unchecked false) (Metered.start unticked) countedRun countedEnd :=
  Metered.exec_of_plays ⟨⟨rfl, List.cons_ne_nil _ _⟩, List.cons_ne_nil _ _, List.cons_ne_nil _ _,
    ⟨⟨rfl, rfl⟩, rfl⟩, trivial⟩

theorem sessions_countedEnd : sessions countedEnd.pm.peers = 1 := by decide +kernel

end Symbolic

open Symbolic in
/-- A datagram of 97 bytes and a success. -/
theorem metered_accounts_answering : countedEnd.Counts .totalRxBytes 97 ∧
    countedEnd.counters.value .handshakeAttempts = 0 ∧
      countedEnd.counters.value .handshakeSuccesses = 1 := by
  obtain ⟨h_bytes, -, -, -, h_attempts, n, h_successes, h_sessions, h_installed, -⟩ :=
    metered_accounts unchecked_completes (unchecked_initiates _)
      (initial_of_peerSpec (key 7) MagicConfig.default) exec_countedRun
  have h_one : (installedIn (eventsOf (turnsOf countedRun))).length = 1 := by decide +kernel
  obtain rfl : n = 1 :=
    le_antisymm (h_installed.trans h_one.le) (sessions_countedEnd.ge.trans h_sessions)
  exact ⟨h_bytes, h_attempts, h_successes⟩

/-! ### What a report says -/

namespace Peer

/-- A session is no younger than what was last heard and last sent. -/
def Aged (clock : Instant) (p : Peer S) : Prop :=
  ∀ a, p.active = some a →
    a.establishedAt ≤ clock ∧ a.establishedAt ≤ p.lastRx ∧ a.establishedAt ≤ p.lastTx

variable {clock now : Instant} {p q : Peer S}

theorem Sessionless.aged (h : p.Sessionless) (clock : Instant) : p.Aged clock :=
  fun _ ha => absurd (h.active.symm.trans ha) nofun

theorem Aged.mono (h : p.Aged clock) (h_le : clock ≤ now) : p.Aged now :=
  fun _ ha => (h _ ha).imp_left fun h_est => h_est.trans h_le

/-- Clocks that are put on keep a session aged, and a new session sets them. -/
theorem Tends.aged (h : p.Tends now q) (hp : p.Aged now) : q.Aged now := by
  intro a ha
  rcases h.active a ha with ⟨b, hb, -, h_est⟩ | ⟨h_est, h_rx, h_tx⟩
  · obtain ⟨h_now, h_heard, h_sent⟩ := hp b hb
    rw [h_est]
    refine ⟨h_now, ?_, ?_⟩
    · rcases h.lastRx with h_rx | h_rx
      · exact h_heard.trans h_rx.ge
      · exact h_now.trans h_rx.ge
    · rcases h.lastTx with h_tx | h_tx
      · exact h_sent.trans h_tx.ge
      · exact h_now.trans h_tx.ge
  · exact ⟨h_est.le, h_est.le.trans h_rx.ge, h_est.le.trans h_tx.ge⟩

/-- The first part of a tick replaces no session yet. -/
theorem timerRotate_tends (p : Peer S) (localPriv : Bytes) (hasRelay : Bool) (d : Draw S)
    (now : Instant) : p.Tends now (p.timerRotate localPriv hasRelay d now).2 := by
  have h_check := p.checkRotation_tends now
  unfold timerRotate
  dsimp only
  split_ifs
  · exact h_check.trans (initiateAndSend_tends _ localPriv hasRelay d now)
  · exact h_check

/-- The second part takes sessions away, and is no `Tends`. -/
theorem timerClear_aged (h : p.Aged now) : (p.timerClear now).Aged now := by
  unfold timerClear
  split_ifs
  · exact nofun
  · exact h

/-- The four parts of a tick, one after the other. -/
theorem timer_aged (h : p.Aged now) (localPriv : Bytes) (hasRelay : Bool) (d d' : Draw S) :
    (p.timer localPriv hasRelay d d' now).2.Aged now := by
  have h_rotate := (p.timerRotate_tends localPriv hasRelay d now).aged h
  have h_keep := (timerKeepalive_tends _ hasRelay d now).aged (timerClear_aged h_rotate)
  exact (timerHandshake_tends _ localPriv hasRelay d' now).aged h_keep

end Peer

namespace PeerManager

/-- **A turn of any task keeps the sessions aged.** -/
theorem step_aged (h_completes : S.Completes) {pm : PeerManager S}
    (h_sound : ∀ p ∈ pm.peers, p.Sound pm.localPriv) {hasRelay : Bool} {now : Instant}
    {task : DaemonTask S} (h : ∀ p ∈ pm.peers, p.Aged now) :
    ∀ q ∈ (pm.step hasRelay now task).2.peers, q.Aged now := by
  have h_other (h_poll : ∀ descriptors, task ≠ .poll descriptors) (h_task : task.isTimer = false) :
      ∀ q ∈ (pm.step hasRelay now task).2.peers, q.Aged now := by
    intro q hq
    have h_shares := (pm.shares_tends h_completes hasRelay now h_task).step h_poll
    obtain ⟨p, hp, h_tends⟩ := forall₂_mem_right h_shares hq
    exact (h_tends (h_sound p hp)).aged (h p hp)
  cases task with
  | timer draws =>
    intro q hq
    obtain ⟨p, hp, d, d', rfl⟩ := mem_timerPeers draws pm.peers hq
    exact Peer.timer_aged (h p hp) pm.localPriv hasRelay d d'
  | poll descriptors =>
    intro q hq
    obtain ⟨old, new, h_peers, h_old, h_new⟩ := pm.syncPeers_split descriptors now
    have hq : q ∈ old ++ new := h_peers ▸ hq
    rcases List.mem_append.mp hq with hq | hq
    · obtain ⟨p, hp, h_same⟩ := forall₂_mem_right h_old hq
      unfold Peer.Aged
      rw [h_same.active, h_same.lastRx, h_same.lastTx]
      exact h p (List.mem_of_mem_filter hp)
    · exact (h_new q hq).1.aged now
  | _ => exact h_other nofun rfl

/-- **In every run whose clock does not go back**, what was heard and sent last is no older than the
session. -/
theorem aged_of_exec (h_completes : S.Completes) {hasRelay : Bool} {pm₀ pm : PeerManager S}
    {ls : List (DaemonLabel S)} (h_init : pm₀.Initial) (h_run : Exec (daemon S hasRelay) pm₀ ls pm)
    {D : ℕ} {start : Instant} (h_paced : Paced D start ls) :
    ∀ p ∈ pm.peers, p.Aged (clockOf start ls) := by
  refine h_run.induct (fun ls pm => Paced D start ls → ∀ p ∈ pm.peers, p.Aged (clockOf start ls))
    (fun _ p hp => (h_init.sessionless p hp).aged start) ?_ h_paced
  intro ls pm l pm' h_exec h_aged h_step h_paced
  obtain rfl : (pm.step hasRelay l.now l.task).2 = pm' := congrArg Prod.snd h_step
  rw [clockOf_append]
  exact step_aged h_completes (sound_of_reachable h_completes ⟨pm₀, ls, h_init, h_exec⟩)
    fun p hp => (h_aged h_paced.init p hp).mono h_paced.last.1

end PeerManager

/-- What an entry of a report at `now` says of its peer: whose it is, whether there is a session,
and times that are never shorter than those since `last_rx` and `last_tx`. Both are also set when a
session is installed, with nothing heard or sent: the times do not promise traffic. With the timer
at most `D` behind, a peer that is reported active was heard, or got the session, less than 15
seconds and `D` ago, whatever the times say. -/
structure PeerStatus.Honest (now : Instant) (D : ℕ) (p : Peer S) (e : PeerStatus) : Prop where
  pubkey : hexDecode e.pubkey = some p.pubkey
  isActive : e.isActive = p.active.isSome
  lastRx : ∀ secs, e.lastRxSecsAgo = some secs → elapsedSecs now p.lastRx ≤ secs
  lastTx : ∀ secs, e.lastTxSecsAgo = some secs → elapsedSecs now p.lastTx ≤ secs
  heard : e.isActive → now < p.lastRx + 15 * second + D

theorem elapsedSecs_anti {now t t' : ℕ} (h : t ≤ t') : elapsedSecs now t' ≤ elapsedSecs now t :=
  Nat.div_le_div_right (Nat.sub_le_sub_left h now)

/-- The entry of a peer that is kept up. -/
theorem Peer.honest_status {p : Peer S} {clock tick now : Instant} {D : ℕ} (h_aged : p.Aged clock)
    (h_heard : p.Heard tick) (h_late : now ≤ tick + D) : (p.status now).Honest now D p where
  pubkey := hexDecode_hexEncode p.pubkey
  isActive := rfl
  lastRx secs h := by
    obtain ⟨a, ha, rfl⟩ := Option.map_eq_some_iff.mp h
    exact elapsedSecs_anti (h_aged a ha).2.1
  lastTx secs h := by
    obtain ⟨a, ha, rfl⟩ := Option.map_eq_some_iff.mp h
    exact elapsedSecs_anti (h_aged a ha).2.2
  heard h := h_late.trans_lt (Nat.add_lt_add_right (h_heard h) D)

/-- **What a report says.** Let the library complete the pending handshakes that read a response,
and write initiations. In every run of the daemon in which the clock does not go back and the timer
is never more than `D` behind, a report made then says "Connected" exactly if some peer has a
session, it lists the peers of the table in order, and each entry is honest about its peer. -/
theorem reports_honest (h_completes : S.Completes) {hasRelay : Bool} {pm₀ : PeerManager S}
    (h_writes : S.Initiates pm₀.localPriv) (h_init : pm₀.Initial) {ls : List (MeterLabel S)}
    {s : Metered S} (h_run : Exec (metered S hasRelay) (Metered.start pm₀) ls s) {D : ℕ}
    {start now : Instant} (h_paced : Paced D start (turnsOf ls))
    (h_now : now ≤ tickOf start (turnsOf ls) + D) (tunIp : Str) :
    ((s.report tunIp now).connectionState = "Connected".toList ↔
      ∃ p ∈ s.pm.peers, p.active.isSome) ∧
    List.Forall₂ (PeerStatus.Honest now D) s.pm.peers (s.report tunIp now).peers := by
  have h_turns := exec_turnsOf h_run
  constructor
  · have h_any : (s.pm.peers.map (·.status now)).any (·.isActive) = true ↔
        ∃ p ∈ s.pm.peers, p.active.isSome := by
      rw [List.any_map, List.any_eq_true]
      rfl
    rw [← h_any]
    show (if _ then _ else _) = _ ↔ _
    split_ifs with h
    · exact iff_of_true rfl h
    · exact iff_of_false nofun h
  · have h_aged := PeerManager.aged_of_exec h_completes h_init h_turns h_paced
    -- which sessions are worn does not matter here
    have h_kept := PeerManager.upkept_of_exec h_completes h_writes h_init h_turns h_paced
      (fun _ _ => True) (fun _ _ _ _ _ _ _ _ => trivial) (fun _ _ _ h => h)
    refine List.forall₂_map_right_iff.mpr (List.forall₂_same.mpr fun p hp => ?_)
    exact Peer.honest_status (h_aged p hp) (h_kept p hp).heard h_now

open Symbolic in
/-- The report of a moment later. -/
theorem reports_honest_answering : (countedEnd.report [] 3).connectionState = "Connected".toList ∧
    List.Forall₂ (PeerStatus.Honest 3 second) countedEnd.pm.peers
      (countedEnd.report [] 3).peers := by
  have h_paced : Paced second 0 (turnsOf countedRun) :=
    Paced.singleton ⟨Nat.zero_le _, by decide⟩
  obtain ⟨h_state, h_peers⟩ := reports_honest unchecked_completes (unchecked_initiates _)
    (initial_of_peerSpec (key 7) MagicConfig.default) exec_countedRun h_paced
    (show 3 ≤ 0 + second by decide) []
  refine ⟨h_state.mpr ?_, h_peers⟩
  obtain ⟨p, hp, h_active⟩ := List.countP_pos_iff.mp sessions_countedEnd.ge
  exact ⟨p, hp, h_active⟩

end AraxMesh
