import Mathlib.Data.List.Infix
import AraxMesh.Routes

/-!
# Forwarding

What the relay does with packets between clients it has registered, with no others connecting. A
packet goes through three queues: the stream to the sender's handler (`Upstream`), that handler's
RX loop, and the channel and stream of the destination (`Downstream`). `Moves` is about the one in
the middle: what a handler has read for a destination has been put into its channel, or is the
packet at hand, as long as the destination has its route; afterwards nothing more is put there.

`relayed_faithfully` puts the three together.

1. Without registrations the table only loses routes, and a route goes with the handler that put it
   there (`SettledIn`): a client's packets are routed to it or nowhere.
2. `Moves` has two halves, since a route may go while a packet for it is on its way. What has been
   put into the channel is a prefix of what was read, always; with the packet at hand it is all of
   it as long as the route is there. One lemma for each step of an RX loop keeps them.
3. The packets of a channel come from several handlers, but carry the key of the client they come
   from, and the keys are different. So the packets with one key are those of one handler, in order.
4. With nothing in flight the prefixes are equalities, and what was sent has arrived.
-/

namespace AraxMesh

open BigEndian Framing LTS

/-! ### Packets by key -/

/-- The payloads of the packets with this key. -/
def payloads (key : RelayKey) (ps : List RelayPacket) : List Bytes :=
  (ps.filter fun p => p.key = key).map (·.payload)

@[simp] theorem payloads_append (key : RelayKey) (ps ps' : List RelayPacket) :
    payloads key (ps ++ ps') = payloads key ps ++ payloads key ps' := by
  simp [payloads]

/-- One packet has the key, or it does not count. -/
theorem payloads_singleton (key : RelayKey) (p : RelayPacket) :
    payloads key [p] = if p.key = key then [p.payload] else [] := by
  by_cases h : p.key = key <;> simp [payloads, h]

/-- What comes first stays first among the packets with the key. -/
theorem payloads_initial (key : RelayKey) {ps ps' : List RelayPacket} (h : ps <+: ps') :
    payloads key ps <+: payloads key ps' :=
  (h.filter _).map _

/-- A packet with the key is among them. -/
theorem mem_payloads {key : RelayKey} {ps : List RelayPacket} {p : RelayPacket} (h : p ∈ ps)
    (h_key : p.key = key) : p.payload ∈ payloads key ps :=
  List.mem_map.mpr ⟨p, List.mem_filter.mpr ⟨h, by simpa using h_key⟩, rfl⟩

/-! ### Registered clients -/

/-- A connection whose handler has just registered its route. -/
def RelayConn.registered (key : RelayKey) : RelayConn :=
  { RelayConn.new key with isOpen := true, phase := .running, identity := key }

/-- Some connections are registered, each with its own key, and no others are made. -/
structure Relay.Ready (s : Relay) : Prop where
  conn : ∀ c, (∃ key, s.conn c = RelayConn.new key) ∨
    ∃ key, s.conn c = .registered key ∧ s.routes key = some c
  routes : ∀ key c, s.routes key = some c → s.conn c = .registered key

/-- The connection is one of those registered. -/
def Relay.IsClient (s : Relay) (c : ConnId) : Prop := (s.conn c).phase = .running

/-- No other clients connect, and packets fit a frame. -/
def Relay.Settled (_ : Relay) (l : RelayLabel) : Prop :=
  (∀ c, l ≠ .conn c .connect) ∧ (∀ c key, l ≠ .register c key) ∧
    ∀ c p, l = .conn c (.send p) → p.Fits

/-- A client is registered with a key, and the table has it under that key. -/
theorem Relay.Ready.client {s : Relay} (h : s.Ready) {c : ConnId} (hc : s.IsClient c) :
    s.conn c = .registered (s.conn c).identity ∧ s.routes (s.conn c).identity = some c := by
  obtain ⟨key, h_new⟩ | ⟨key, h_reg, h_route⟩ := h.conn c
  · rw [IsClient, h_new] at hc
    cases hc
  · rw [h_reg]
    exact ⟨rfl, h_route⟩

/-- The clients have different keys. -/
theorem Relay.Ready.inj {s : Relay} (h : s.Ready) {a d : ConnId} (ha : s.IsClient a)
    (hd : s.IsClient d) (h_eq : (s.conn a).identity = (s.conn d).identity) : a = d := by
  have h_route := (h.client ha).2
  rw [h_eq, (h.client hd).2] at h_route
  exact (Option.some.inj h_route).symm

/-! ### The table, once settled -/

/-- Keys stay, nobody else comes, and routes only go away. -/
structure SettledIn (s₀ s : Relay) : Prop where
  identity : ∀ c, (s.conn c).identity = (s₀.conn c).identity
  waiting : ∀ c, ¬ s₀.IsClient c → (s.conn c).phase = .waiting
  routes : ∀ key c, s.routes key = some c → s₀.routes key = some c
  alive : ∀ key c, s.routes key = some c → (s.conn c).phase = .running ∨ (s.conn c).phase = .ended

/-- Without registrations, a route that is there was there before, and is not the one its own
handler cleans up. -/
theorem Relay.routes_of_after {s : Relay} {l : RelayLabel} (h : ∀ c key, l ≠ .register c key)
    {key : RelayKey} {c : ConnId} (h_route : (s.after l).routes key = some c) :
    s.routes key = some c ∧ (l = .cleanup c → (s.conn c).identity ≠ key) := by
  cases l with
  | register c' key' => exact absurd rfl (h c' key')
  | cleanup c' =>
    have h_upd : (s.after (.cleanup c')).routes
        = Function.update s.routes (s.conn c').identity none := rfl
    rw [h_upd] at h_route
    -- the route that is left is under another key than the one cleaned up
    have h_key : key ≠ (s.conn c').identity := by
      rintro rfl
      rw [Function.update_self] at h_route
      cases h_route
    rw [Function.update_of_ne h_key] at h_route
    refine ⟨h_route, fun h_eq => ?_⟩
    cases h_eq
    exact h_key.symm
  | _ => exact ⟨h_route, nofun⟩

/-- **A settled relay stays settled**, in every step in which nobody connects or registers. -/
theorem SettledIn.step {s₀ s : Relay} (h_ready : s₀.Ready) (h : SettledIn s₀ s) {l : RelayLabel}
    (hl : s.Enabled l) (h_settled : s.Settled l) : SettledIn s₀ (s.after l) := by
  -- nobody connects, and nobody registers
  obtain ⟨h_connect, h_register, -⟩ := h_settled
  have h_identity : ∀ c, ((s.after l).conn c).identity = (s.conn c).identity :=
    fun c => s.identity_after fun key => h_register c key
  refine ⟨fun c => (h_identity c).trans (h.identity c), fun c hc => ?_, fun key c h_route => ?_,
    fun key c h_route => ?_⟩
  · -- nobody else connects, so the rest goes on waiting
    have h_waiting := h.waiting c hc
    rcases Relay.phase_after hl c with h_same | ⟨-, h_eq⟩ | h' | ⟨h', -⟩ | ⟨h', -⟩ | h'
    · exact h_same.trans h_waiting
    · exact absurd h_eq (h_connect c)
    all_goals exact absurd (h_waiting.symm.trans h') nofun
  · exact h.routes key c (Relay.routes_of_after h_register h_route).1
  · obtain ⟨h_was, h_not⟩ := Relay.routes_of_after h_register h_route
    have h_alive := h.alive key c h_was
    rcases Relay.phase_after hl c with h_same | ⟨h', -⟩ | h' | ⟨-, h'⟩ | ⟨-, h_eq⟩ | h'
    · -- the handler has gone on, or it stands where it stood
      rwa [h_same]
    · exact absurd (h_alive.imp h'.symm.trans h'.symm.trans) (by simp)
    · exact absurd (h_alive.imp h'.symm.trans h'.symm.trans) (by simp)
    · exact Or.inr h'
    · -- the handler's own route goes with its cleanup
      refine absurd ?_ (h_not h_eq)
      rw [h.identity c, h_ready.routes key c (h.routes key c h_was)]
      rfl
    · exact absurd (h_alive.imp h'.symm.trans h'.symm.trans) (by simp)

/-! ### From the handler to the channel -/

/-- The payloads the handler of `a` has put into the channel of `d`. -/
def movedFrom (a d : ConnId) (ls : List RelayLabel) : List Bytes :=
  ls.flatMap fun
    | .enqueue a' d' p => if a' = a ∧ d' = d then [p.payload] else []
    | _ => []

@[simp] theorem movedFrom_append (a d : ConnId) (ls ls' : List RelayLabel) :
    movedFrom a d (ls ++ ls') = movedFrom a d ls ++ movedFrom a d ls' :=
  List.flatMap_append

@[simp] theorem movedFrom_conn (a d c : ConnId) (act : ConnAction) :
    movedFrom a d [.conn c act] = [] := rfl

/-- The packet an RX loop is sending to `d`. -/
def Rx.sendingTo (d : ConnId) : Rx → List Bytes
  | .sending d' payload => if d' = d then [payload] else []
  | _ => []

/-- The packet an RX loop has at hand for `d`, whose key is `key`. -/
def Rx.handFor (key : RelayKey) (d : ConnId) : Rx → List Bytes
  | .routing p => if p.key = key then [p.payload] else []
  | rx => rx.sendingTo d

@[simp] theorem Rx.sendingTo_reading (r : Reader) (d : ConnId) :
    (Rx.reading r).sendingTo d = [] := rfl

@[simp] theorem Rx.sendingTo_routing (p : RelayPacket) (d : ConnId) :
    (Rx.routing p).sendingTo d = [] := rfl

@[simp] theorem Rx.sendingTo_sending (d' : ConnId) (payload : Bytes) (d : ConnId) :
    (Rx.sending d' payload).sendingTo d = if d' = d then [payload] else [] := rfl

@[simp] theorem Rx.handFor_reading (r : Reader) (key : RelayKey) (d : ConnId) :
    (Rx.reading r).handFor key d = [] := rfl

@[simp] theorem Rx.handFor_routing (p : RelayPacket) (key : RelayKey) (d : ConnId) :
    (Rx.routing p).handFor key d = if p.key = key then [p.payload] else [] := rfl

@[simp] theorem Rx.handFor_sending (d' : ConnId) (payload : Bytes) (key : RelayKey) (d : ConnId) :
    (Rx.sending d' payload).handFor key d = if d' = d then [payload] else [] := rfl

/-- Reading comes to nothing that is being sent, -/
theorem Rx.sendingTo_ofRead (x : Reader × Option Bytes) (d : ConnId) :
    (Rx.ofRead x).sendingTo d = [] := by
  rcases x with ⟨r, _ | frame⟩ <;> rfl

/-- and what it comes to is at hand if it is for the destination. -/
theorem Rx.handFor_ofRead (x : Reader × Option Bytes) (key : RelayKey) (d : ConnId) :
    (Rx.ofRead x).handFor key d = payloads key (x.2.map RelayPacket.ofFrame).toList := by
  rcases x with ⟨r, _ | frame⟩
  · rfl
  · exact (payloads_singleton key _).symm

/-- What the handler of `a` has read for `d` has gone into the channel of `d` as far as it went, and
all of it but the packet at hand while `d` has its route. -/
structure Moves (s : Relay) (ls : List RelayLabel) (a d : ConnId) (key : RelayKey) : Prop where
  sent : movedFrom a d ls ++ (s.conn a).rx.sendingTo d <+: payloads key (readBy a ls)
  routed : s.routes key = some d →
    payloads key (readBy a ls) = movedFrom a d ls ++ (s.conn a).rx.handFor key d

section Moves

variable {s₀ s : Relay} {ls : List RelayLabel} {a d : ConnId} {key : RelayKey}

/-- A step that leaves the RX loop of `a` alone. -/
theorem Moves.carry (h : Moves s ls a d key) {l : RelayLabel}
    (h_register : ∀ c key, l ≠ .register c key) (h_rx : ((s.after l).conn a).rx = (s.conn a).rx)
    (h_read : readBy a [l] = []) (h_moved : movedFrom a d [l] = []) :
    Moves (s.after l) (ls ++ [l]) a d key := by
  have h_read_log : readBy a (ls ++ [l]) = readBy a ls := by
    rw [readBy, logOf_append, show logOf _ a [l] = [] from h_read, List.append_nil]
  have h_moved_log : movedFrom a d (ls ++ [l]) = movedFrom a d ls := by
    rw [movedFrom_append, h_moved, List.append_nil]
  refine ⟨?_, fun h_route => ?_⟩
  · rw [h_moved_log, h_rx, h_read_log]
    exact h.sent
  · rw [h_moved_log, h_rx, h_read_log]
    -- no step but a registration sets a route
    exact h.routed (Relay.routes_of_after h_register h_route).1

/-- The packet the handler of `a` reads is at hand. -/
theorem Moves.read (h : Moves s ls a d key) {n : ℕ} {out : Option RelayPacket}
    (hl : s.Enabled (.conn a (.read n out))) :
    Moves (s.after (.conn a (.read n out))) (ls ++ [.conn a (.read n out)]) a d key := by
  obtain ⟨-, r, h_rx, -, -, -, rfl⟩ := hl
  have h_conn : ∀ act, (s.after (.conn a act)).conn a = (s.conn a).after act :=
    fun act => by rw [Relay.after, Relay.modify_conn_self]
  have h_after : ((s.conn a).after (.read n
      ((r.read relayFormat ((s.conn a).up.take n)).2.map .ofFrame))).rx
      = .ofRead (r.read relayFormat ((s.conn a).up.take n)) := by
    simp only [RelayConn.after, h_rx]
  -- before, it was waiting for more of the stream
  have h_sent := h.sent
  have h_routed := h.routed
  rw [h_rx, Rx.sendingTo_reading, List.append_nil] at h_sent
  rw [h_rx, Rx.handFor_reading, List.append_nil] at h_routed
  refine ⟨?_, fun h_route => ?_⟩
  all_goals rw [h_conn, h_after, movedFrom_append, movedFrom_conn, List.append_nil, readBy,
    logOf_append, payloads_append, logOf_conn_self, ConnAction.arrived]
  · rw [Rx.sendingTo_ofRead, List.append_nil]
    exact h_sent.trans (List.prefix_append _ _)
  · rw [Rx.handFor_ofRead, h_routed h_route]

/-- The table has the connection of a key, or nothing. -/
theorem SettledIn.dest_iff (h_ready : s₀.Ready) (h_in : SettledIn s₀ s) (hd : s₀.IsClient d)
    {d' : ConnId} (h_route : s.routes key = some d') : key = (s₀.conn d).identity ↔ d' = d := by
  have h_first := h_in.routes _ _ h_route
  constructor
  · rintro rfl
    rw [(h_ready.client hd).2] at h_first
    exact (Option.some.inj h_first).symm
  · rintro rfl
    rw [h_ready.routes _ _ h_first]
    rfl

/-- The packet at hand is for `d` exactly if the table sends it there, while it sends anything
there. -/
theorem Moves.lookup (h_ready : s₀.Ready) (h_in : SettledIn s₀ s) (hd : s₀.IsClient d)
    (h : Moves s ls a d (s₀.conn d).identity) (hl : s.Enabled (.lookup a)) :
    Moves (s.after (.lookup a)) (ls ++ [.lookup a]) a d (s₀.conn d).identity := by
  -- a look-up puts nothing anywhere, so only the RX loop is another one
  obtain ⟨-, p, h_rx⟩ := hl
  have h_conn : (s.after (.lookup a)).conn a = { s.conn a with rx := s.route (s.conn a).rx } := by
    rw [Relay.after, Relay.modify_conn_self]
  have h_sent := h.sent
  have h_routed := h.routed
  rw [h_rx, Rx.sendingTo_routing, List.append_nil] at h_sent
  rw [h_rx, Rx.handFor_routing] at h_routed
  have h_logs : movedFrom a d (ls ++ [.lookup a]) = movedFrom a d ls ∧
      readBy a (ls ++ [.lookup a]) = readBy a ls := by simp [movedFrom]
  refine ⟨?_, fun h_route => ?_⟩
  all_goals rw [h_conn, h_logs.1, h_logs.2]
  all_goals simp only [h_rx, Relay.route]
  · cases h_found : s.routes p.key with
    | none =>
      rw [Rx.sendingTo_reading, List.append_nil]
      exact h_sent
    | some d' =>
      by_cases h_eq : d' = d
      · -- `d` has its route, so nothing before this packet was left out
        have h_key := (h_in.dest_iff h_ready hd h_found).mpr h_eq
        rw [h_eq, h_key] at h_found
        rw [Rx.sendingTo_sending, if_pos h_eq, h_routed h_found, if_pos h_key]
      · rw [Rx.sendingTo_sending, if_neg h_eq, List.append_nil]
        exact h_sent
  · have h_route : s.routes (s₀.conn d).identity = some d := h_route
    rw [h_routed h_route]
    cases h_found : s.routes p.key with
    | none =>
      -- the packet goes away, and it was not for `d`
      have h_ne : p.key ≠ (s₀.conn d).identity := by
        intro h_eq
        rw [h_eq, h_route] at h_found
        cases h_found
      rw [if_neg h_ne]
      rfl
    | some d' => simp only [Rx.handFor_sending, h_in.dest_iff h_ready hd h_found]

/-- The packet at hand goes into its channel. -/
theorem Moves.enqueue (h : Moves s ls a d key) {d' : ConnId} {p : RelayPacket}
    (hl : s.Enabled (.enqueue a d' p)) :
    Moves (s.after (.enqueue a d' p)) (ls ++ [.enqueue a d' p]) a d key := by
  obtain ⟨-, h_rx, -⟩ := hl
  have h_after : ((s.after (.enqueue a d' p)).conn a).rx = .reading .start := by
    rw [Relay.after]
    refine (Relay.modify_apply RelayConn.rx _ d' a ?_).trans ?_
    · exact fun _ => rfl
    · rw [Relay.modify_conn_self]
  have h_moved : movedFrom a d [.enqueue a d' p] = (s.conn a).rx.sendingTo d := by
    rw [h_rx]
    simp [movedFrom, Rx.sendingTo]
  have h_log : readBy a (ls ++ [.enqueue a d' p]) = readBy a ls := by simp
  refine ⟨?_, fun h_route => ?_⟩
  all_goals rw [h_after, movedFrom_append, h_moved, h_log]
  · rw [Rx.sendingTo_reading, List.append_nil]
    exact h.sent
  · rw [h.routed h_route, Rx.handFor_reading, List.append_nil, h_rx]
    rfl

/-- What is discarded was for a connection that has no route any more. -/
theorem Moves.discard (h_in : SettledIn s₀ s) (h : Moves s ls a d key)
    (hl : s.Enabled (.discard a)) :
    Moves (s.after (.discard a)) (ls ++ [.discard a]) a d key := by
  obtain ⟨-, d', payload, h_rx, h_finished⟩ := hl
  have h_conn : (s.after (.discard a)).conn a = { s.conn a with rx := .reading .start } := by
    rw [Relay.after, Relay.modify_conn_self]
  have h_logs : movedFrom a d (ls ++ [.discard a]) = movedFrom a d ls ∧
      readBy a (ls ++ [.discard a]) = readBy a ls := by simp [movedFrom]
  refine ⟨?_, fun h_route => ?_⟩
  all_goals rw [h_conn, h_logs.1, h_logs.2]
  · rw [Rx.sendingTo_reading, List.append_nil]
    exact (List.prefix_append _ _).trans h.sent
  · -- the channel of a connection with a route is not closed
    have h_route : s.routes key = some d := h_route
    have h_ne : d' ≠ d := by
      rintro rfl
      rcases h_in.alive _ _ h_route with h' | h'
      · cases h'.symm.trans h_finished
      · cases h'.symm.trans h_finished
    rw [h.routed h_route, h_rx, Rx.handFor_sending, if_neg h_ne]
    rfl

/-- **Every step keeps the queue in the middle.** The steps of other connections, and those of `a`
that are not about its RX loop, are carried over. -/
theorem Moves.step (h_ready : s₀.Ready) (h_in : SettledIn s₀ s) (hd : s₀.IsClient d)
    {l : RelayLabel} (h : Moves s ls a d (s₀.conn d).identity) (hl : s.Enabled l)
    (h_settled : s.Settled l) : Moves (s.after l) (ls ++ [l]) a d (s₀.conn d).identity := by
  have h_register := h_settled.2.1
  cases l with
  | conn c act =>
    by_cases hc : (RelayLabel.conn c act).About a
    swap
    · have h_rx := congrArg RelayConn.rx (Relay.frame (s := s) hc)
      exact h.carry h_register h_rx (logOf_conn_of_ne _ _ (Ne.symm hc)) rfl
    obtain rfl : a = c := hc
    have h_conn : (s.after (.conn a act)).conn a = (s.conn a).after act := by
      rw [Relay.after, Relay.modify_conn_self]
    cases act with
    | read n out => exact h.read hl
    | clientRead n =>
      -- the client has an RX loop of its own
      obtain ⟨-, r, h_rx, -⟩ := hl
      refine h.carry h_register ?_ (logOf_conn_self ..) rfl
      rw [h_conn]
      simp only [RelayConn.after, h_rx]
    | _ => exact h.carry h_register (by rw [h_conn]; rfl) (logOf_conn_self ..) rfl
  | register c key => exact absurd rfl (h_register c key)
  | lookup c =>
    by_cases hc : (RelayLabel.lookup c).About a
    · obtain rfl : a = c := hc
      exact h.lookup h_ready h_in hd hl
    · exact h.carry h_register (congrArg RelayConn.rx (Relay.frame hc)) rfl rfl
  | enqueue c d' p =>
    by_cases hc : a = c
    · subst hc
      exact h.enqueue hl
    · refine h.carry h_register ?_ rfl ?_
      · rw [Relay.after]
        refine (Relay.modify_apply RelayConn.rx _ d' a ?_).trans ?_
        · exact fun _ => rfl
        · rw [Relay.modify_conn_of_ne _ _ hc]
      · simp [movedFrom, Ne.symm hc]
  | discard c =>
    by_cases hc : (RelayLabel.discard c).About a
    · obtain rfl : a = c := hc
      exact h.discard h_in hl
    · exact h.carry h_register (congrArg RelayConn.rx (Relay.frame hc)) rfl rfl
  | txEnd c =>
    refine h.carry h_register ?_ rfl rfl
    rw [Relay.after]
    exact Relay.modify_apply RelayConn.rx s c a fun _ => rfl
  | cleanup c =>
    refine h.carry h_register ?_ rfl rfl
    change ((s.modify c fun k => { k with phase := .cleaned }).conn a).rx = _
    exact Relay.modify_apply RelayConn.rx s c a fun _ => rfl

end Moves

/-- The handler that puts a packet into a channel is a client's. -/
theorem SettledIn.client {s₀ s : Relay} (h : SettledIn s₀ s) {c : ConnId}
    (hc : (s.conn c).phase = .running) : s₀.IsClient c := by
  by_contra h_not
  exact absurd ((h.waiting c h_not).symm.trans hc) nofun

/-- The packet of a step, if it puts one into a channel, has the key of the client whose handler
does. -/
theorem SettledIn.enqueues {s₀ s : Relay} (h : SettledIn s₀ s) {l : RelayLabel} (hl : s.Enabled l)
    (d : ConnId) : enqueuedTo d [l] = [] ∧ (∀ a, movedFrom a d [l] = []) ∨
      ∃ c p, l = .enqueue c d p ∧ s₀.IsClient c ∧ p.key = (s₀.conn c).identity := by
  cases l with
  | enqueue c d' p =>
    by_cases hd : d' = d
    · subst hd
      obtain ⟨h_phase, -, h_key, -⟩ := hl
      exact Or.inr ⟨c, p, rfl, h.client h_phase, h_key.trans (h.identity c)⟩
    · refine Or.inl ⟨by simp [enqueuedTo, hd], fun a => by simp [movedFrom, hd]⟩
  | _ => exact Or.inl ⟨rfl, fun _ => rfl⟩

/-- No handler cleans up the route of another: the clients' keys are different. -/
theorem SettledIn.guarded {s₀ s : Relay} (h_ready : s₀.Ready) (h : SettledIn s₀ s) {l : RelayLabel}
    (hl : s.Enabled l) (h_settled : s.Settled l) : s.Guarded l := by
  refine ⟨?_, h_settled.2.2⟩
  rintro c d rfl h_route
  have h_phase : (s.conn c).phase = .ended := hl
  have hc : s₀.IsClient c := by
    by_contra h_not
    cases (h.waiting c h_not).symm.trans h_phase
  -- the entry under its key was its own to begin with
  have h_first := h.routes _ _ h_route
  rw [h.identity, (h_ready.client hc).2] at h_first
  exact (Option.some.inj h_first).symm

/-! ### Runs -/

/-- What a run from registered clients has established. -/
structure Forwarded (s₀ : Relay) (ls : List RelayLabel) (s : Relay) : Prop where
  settled : SettledIn s₀ s
  moves : ∀ a d, s₀.IsClient d → Moves s ls a d (s₀.conn d).identity
  /-- The packets in a channel carry the key of the connection they came on. -/
  enqueued : ∀ a d, s₀.IsClient a →
    payloads (s₀.conn a).identity (enqueuedTo d ls) = movedFrom a d ls
  source : ∀ d, ∀ p ∈ enqueuedTo d ls, ∃ a, s₀.IsClient a ∧ (s₀.conn a).identity = p.key
  routed : ∀ c, s₀.IsClient c → Routed s (s₀.conn c).identity c

/-- To begin with nothing has been read, and every client has its route. -/
theorem Forwarded.init {s₀ : Relay} (h_ready : s₀.Ready) : Forwarded s₀ [] s₀ where
  settled := by
    refine ⟨fun _ => rfl, fun c hc => ?_, fun _ _ h => h, fun key c h => ?_⟩
    · obtain ⟨key, h_new⟩ | ⟨key, h_reg, -⟩ := h_ready.conn c
      · rw [h_new]
        rfl
      · exact absurd (show s₀.IsClient c by rw [Relay.IsClient, h_reg]; rfl) hc
    · rw [h_ready.routes key c h]
      exact Or.inl rfl
  -- nothing was read, so nothing was moved
  moves a d hd := by
    have h_rx : (s₀.conn a).rx = .reading .start := by
      obtain ⟨key, h_new⟩ | ⟨key, h_reg, -⟩ := h_ready.conn a
      · rw [h_new]
        rfl
      · rw [h_reg]
        rfl
    refine ⟨?_, fun _ => ?_⟩
    · rw [h_rx]
      exact List.prefix_rfl
    · rw [h_rx]
      rfl
  enqueued _ _ _ := rfl
  source d p hp := by simp [enqueuedTo] at hp
  routed c hc := by
    obtain ⟨h_reg, h_route⟩ := h_ready.client hc
    refine ⟨?_, rfl, fun _ => ⟨h_route, hc⟩⟩
    exact .of_running hc

/-- **A step keeps what a run has established**, as long as no stream has failed: a handler whose
stream fails would end, and its route with it. -/
theorem Forwarded.step {s₀ s : Relay} {ls : List RelayLabel} (h_ready : s₀.Ready)
    (h : Forwarded s₀ ls s) {l : RelayLabel} (hl : s.Enabled l) (h_settled : s.Settled l)
    (h_fine : ∀ c, (s.conn c).rx ≠ .reading .failed) : Forwarded s₀ (ls ++ [l]) (s.after l) := by
  have h_register := h_settled.2.1
  have h_guard := h.settled.guarded h_ready hl h_settled
  refine ⟨h.settled.step h_ready hl h_settled, fun a d hd => ?_, fun a d ha => ?_, fun d p hp => ?_,
    fun c hc => ?_⟩
  · exact (h.moves a d hd).step h_ready h.settled hd hl h_settled
  · -- a step that puts a packet into a channel is one that moves it there
    rw [enqueuedTo_append, payloads_append, movedFrom_append, h.enqueued a d ha]
    obtain ⟨h_none, h_moved⟩ | ⟨c, p, rfl, hc, h_key⟩ := h.settled.enqueues hl d
    · rw [h_none, h_moved]
      rfl
    · have h_to : enqueuedTo d [.enqueue c d p] = [p] := by simp [enqueuedTo]
      have h_from : movedFrom a d [.enqueue c d p] = if c = a then [p.payload] else [] := by
        simp [movedFrom]
      -- clients with one key are one client
      have h_same : (s₀.conn c).identity = (s₀.conn a).identity ↔ c = a :=
        ⟨h_ready.inj hc ha, fun h_eq => by rw [h_eq]⟩
      rw [h_to, h_from, payloads_singleton, h_key]
      simp only [h_same]
  · rw [enqueuedTo_append, List.mem_append] at hp
    -- the packet was there before, or it is the one of this step
    rcases hp with hp | hp
    · exact h.source d p hp
    · obtain ⟨h_none, -⟩ | ⟨c, p', rfl, hc, h_key⟩ := h.settled.enqueues hl d
      · rw [h_none] at hp
        cases hp
      · obtain rfl : p = p' := by simpa [enqueuedTo] using hp
        exact ⟨c, hc, h_key.symm⟩
  · exact (h.routed c hc).step hl h_guard (h_fine c) fun c' => h_register c' _

/-- Nothing has gone through the connections of a ready relay. -/
theorem Relay.Ready.fresh {s₀ : Relay} (h_ready : s₀.Ready) (c : ConnId) :
    (s₀.conn c).Upstream [] [] ∧ (s₀.conn c).Downstream [] [] := by
  obtain ⟨key, h_eq⟩ | ⟨key, h_eq, -⟩ := h_ready.conn c
  · rw [h_eq]
    exact ⟨.new key, .new key⟩
  · rw [h_eq]
    refine ⟨⟨⟨[], [], rfl, rfl, .start⟩, nofun, fun _ => rfl⟩, ?_⟩
    exact ⟨⟨[], rfl, .start⟩, by simp [RelayConn.registered, RelayConn.new],
      Or.inr Reader.valid_start⟩

/-- Packets fit a frame in a settled run. -/
theorem fits_of_settled {s₀ s : Relay} {ls : List RelayLabel}
    (h_run : Exec (relay.restrict Relay.Settled) s₀ ls s) : SendsFit ls :=
  fits_of_restrict (fun _ _ h_settled => h_settled.2.2) h_run

/-- **The run lemma**, with the streams of the clients beside it, which say that none has failed. -/
theorem forwarded_of_exec {s₀ s : Relay} {ls : List RelayLabel} (h_ready : s₀.Ready)
    (h_run : Exec (relay.restrict Relay.Settled) s₀ ls s) : Forwarded s₀ ls s := by
  refine h_run.induct (fun ls s => SendsFit ls → Forwarded s₀ ls s) ?_ ?_ (fits_of_settled h_run)
  · exact fun _ => .init h_ready
  · -- the streams never fail, because only packets that fit a frame are sent
    rintro ls s l t h_pre ih ⟨⟨hl, rfl⟩, h_settled⟩ h_fits
    have h_up := upstream_of_exec (fun c => (h_ready.fresh c).1) h_pre.of_restrict h_fits.split.1
    exact (ih h_fits.split.1).step h_ready hl h_settled fun c => (h_up c).ne_failed

/-! ### Faithful relaying -/

/-- Nothing is in flight on the connection. -/
structure RelayConn.Idle (k : RelayConn) : Prop where
  outgoing : k.outgoing = []
  up : k.up = []
  rx : k.rx = .reading .start
  inbound : k.inbound = []
  pending : k.pending = []
  down : k.down = []
  clientRx : k.clientRx = .reading .start

/-- With nothing in flight, all that was sent has been read. -/
theorem RelayConn.Upstream.eq_of_idle {k : RelayConn} {sent read : List RelayPacket}
    (h : k.Upstream sent read) (h_idle : k.Idle) (h_reg : k.Registered) : sent = read := by
  obtain ⟨ps, bytes, h_sent, h_bytes, h_reads⟩ := h.stream
  rw [h_idle.up, h_idle.outgoing, h_reg.unread] at h_bytes
  obtain rfl : bytes = [] := h_bytes.symm
  rw [h_idle.rx] at h_reads
  obtain rfl := List.map_eq_nil_iff.mp h_reads.eq_nil
  rw [h_sent, List.append_nil]

/-- With nothing in flight, all that was put into the channel has been emitted. -/
theorem RelayConn.Downstream.eq_of_idle {k : RelayConn} {enqueued emitted : List RelayPacket}
    (h : k.Downstream enqueued emitted) (h_idle : k.Idle) : enqueued = emitted := by
  obtain ⟨ps, h_log, h_reads⟩ := h.stream
  rw [h_idle.clientRx, h_idle.down, h_idle.pending] at h_reads
  obtain rfl := List.map_eq_nil_iff.mp h_reads.eq_nil
  rw [h_log, h_idle.inbound, h_idle.clientRx]
  simp [ClientRx.held]

/-- What a client has emitted was put into its channel before. -/
theorem RelayConn.Downstream.emitted_initial {k : RelayConn} {enqueued emitted : List RelayPacket}
    (h : k.Downstream enqueued emitted) : emitted <+: enqueued := by
  obtain ⟨ps, h_log, -⟩ := h.stream
  rw [h_log, List.append_assoc, List.append_assoc]
  exact List.prefix_append _ _

/-- What the handler has read was sent before. -/
theorem RelayConn.Upstream.read_initial {k : RelayConn} {sent read : List RelayPacket}
    (h : k.Upstream sent read) : read <+: sent := by
  obtain ⟨ps, bytes, h_sent, -, -⟩ := h.stream
  rw [h_sent]
  exact List.prefix_append _ _

/-- **Faithful relaying.** From registered clients with different keys, in every run in which they
send packets that fit a frame and nobody else connects:

* what a client has emitted with the key of another is a prefix of what that one sent it;
* it is all of it once nothing is in flight and every client has its connection open;
* every packet a client emits carries the key of the client that sent it;
* a packet for an unknown key goes away, and changes nothing but the RX loop it is in;
* a frame that the server's TX loop begins is one the client's RX loop accepts. -/
theorem relayed_faithfully {s₀ s : Relay} {ls : List RelayLabel} (h_ready : s₀.Ready)
    (h_run : Exec (relay.restrict Relay.Settled) s₀ ls s) :
    (∀ a d, s₀.IsClient a → s₀.IsClient d →
      payloads (s₀.conn a).identity (emittedBy d ls)
        <+: payloads (s₀.conn d).identity (sentBy a ls)) ∧
    ((∀ c, s₀.IsClient c → (s.conn c).isOpen ∧ (s.conn c).Idle) →
      ∀ a d, s₀.IsClient a → s₀.IsClient d →
        payloads (s₀.conn a).identity (emittedBy d ls)
          = payloads (s₀.conn d).identity (sentBy a ls)) ∧
    (∀ d, s₀.IsClient d → ∀ p ∈ emittedBy d ls, ∃ a, s₀.IsClient a ∧
      p.key = (s₀.conn a).identity ∧
        p.payload ∈ payloads (s₀.conn d).identity (sentBy a ls)) ∧
    (∀ a p, (s.conn a).rx = .routing p → s.routes p.key = none →
      s.after (.lookup a) = s.modify a fun k => { k with rx := .reading .start }) ∧
    (∀ d p, s.Enabled (.conn d (.recv p)) →
      relayFormat.ok (fromBE (p.frame.take 4)) ∧ p.frame.length = 4 + fromBE (p.frame.take 4)) ∧
    ∀ d, (s.conn d).clientRx ≠ .reading .failed := by
  have h := forwarded_of_exec h_ready h_run
  have h_up := upstream_of_exec (fun c => (h_ready.fresh c).1) h_run.of_restrict
    (fits_of_settled h_run)
  have h_down := downstream_of_exec (fun c => (h_ready.fresh c).2) h_run.of_restrict
  have h_begin : ∀ a d, s₀.IsClient a → s₀.IsClient d →
      payloads (s₀.conn a).identity (emittedBy d ls)
        <+: payloads (s₀.conn d).identity (sentBy a ls) := by
    -- backwards: emitted, put into the channel, read by the handler, sent
    intro a d ha hd
    have h_read := (List.prefix_append _ _).trans (h.moves a d hd).sent
    rw [← h.enqueued a d ha] at h_read
    exact ((payloads_initial _ (h_down d).emitted_initial).trans h_read).trans
      (payloads_initial _ (h_up a).read_initial)
  refine ⟨h_begin, fun h_idle a d ha hd => ?_, fun d hd p hp => ?_, fun a p h_rx h_none => ?_,
    fun d p h_recv => ?_, fun d => (h_down d).ne_failed⟩
  · -- with nothing in flight the three prefixes are equalities
    obtain ⟨-, h_idle_a⟩ := h_idle a ha
    obtain ⟨h_open, h_idle_d⟩ := h_idle d hd
    have h_routed := (h.moves a d hd).routed ((h.routed d hd).open_route h_open).1
    rw [h_idle_a.rx, Rx.handFor_reading, List.append_nil, ← h.enqueued a d ha] at h_routed
    rw [(h_up a).eq_of_idle h_idle_a (h.routed a ha).registered, h_routed,
      (h_down d).eq_of_idle h_idle_d]
  · -- the packet is among those the client of its key sent
    obtain ⟨a, ha, h_key⟩ := h.source d p ((h_down d).emitted_initial.subset hp)
    refine ⟨a, ha, h_key.symm, (h_begin a d ha hd).subset ?_⟩
    exact mem_payloads hp h_key.symm
  · have h_route : s.route (s.conn a).rx = .reading .start := by rw [h_rx, Relay.route, h_none]
    rw [Relay.after, Relay.modify, Relay.modify, h_route]
  · -- the length field is that of the body, which fits
    obtain ⟨-, -, rest, h_inbound⟩ := h_recv
    have h_fits := (h_down d).fits p (by rw [h_inbound]; exact List.mem_cons_self)
    have h_ok := RelayPacket.ok_body.mpr h_fits
    have h_field : fromBE (p.frame.take 4) = p.body.length := by
      have h_width : (toBE relayFormat.width p.body.length).length = 4 := length_toBE ..
      rw [RelayPacket.frame_eq, Format.encode, List.take_left' h_width]
      exact fromBE_toBE (relayFormat.lt_of_ok _ h_ok)
    rw [h_field]
    refine ⟨h_ok, ?_⟩
    rw [RelayPacket.frame_eq, Format.encode, List.length_append, length_toBE]
    rfl

/-! ### A run of the relay -/

/-- Two clients, of the keys `1…1` and `2…2`. -/
def relayKey (b : UInt8) : RelayKey := ⟨List.replicate 32 b, by simp⟩

def twoClients : Relay where
  routes key := if key = relayKey 1 then some 0 else if key = relayKey 2 then some 1 else none
  conn c := if c = 0 then .registered (relayKey 1) else if c = 1 then .registered (relayKey 2)
    else .new .zero

theorem twoClients_ready : twoClients.Ready := by
  refine ⟨fun c => ?_, fun key c h => ?_⟩
  · by_cases h₀ : c = 0
    · subst h₀
      exact Or.inr ⟨relayKey 1, rfl, rfl⟩
    by_cases h₁ : c = 1
    · subst h₁
      exact Or.inr ⟨relayKey 2, rfl, by decide +kernel⟩
    exact Or.inl ⟨.zero, by simp [twoClients, h₀, h₁]⟩
  · simp only [twoClients] at h
    split_ifs at h with h₁ h₂
    · obtain rfl := Option.some.inj h
      rw [h₁]
      rfl
    · obtain rfl := Option.some.inj h
      rw [h₂]
      rfl

/-- The first client sends two bytes to the second one, whose client reads them in two chunks. -/
def onePacket : List RelayLabel :=
  let there : RelayPacket := ⟨relayKey 2, [5, 6]⟩
  let here : RelayPacket := ⟨relayKey 1, [5, 6]⟩
  [.conn 0 (.send there), .conn 0 (.flush 20), .conn 0 (.read 4 none), .conn 0 (.flush 18),
    .conn 0 (.read 34 (some there)), .lookup 0, .enqueue 0 1 here, .conn 1 (.recv here),
    .conn 1 (.write 38), .conn 1 (.clientRead 4), .conn 1 (.clientRead 34), .conn 1 (.emit here)]

theorem plays_onePacket : twoClients.Plays onePacket := by
  refine ⟨⟨rfl, rfl⟩, ⟨rfl, by decide, by decide⟩, ⟨rfl, .start, rfl, ?_⟩, ⟨rfl, by decide, ?_⟩,
    ⟨rfl, .body 34 [], ?_, ?_⟩, ⟨rfl, ⟨relayKey 2, [5, 6]⟩, ?_⟩, ⟨rfl, ?_⟩, ⟨rfl, rfl, [], rfl⟩,
    ⟨rfl, by decide, ?_⟩, ⟨rfl, .start, rfl, ?_⟩, ⟨rfl, .body 34 [], ?_, ?_⟩, ⟨rfl, ?_⟩, trivial⟩
  all_goals decide +kernel

/-- The packet is emitted with the key of the client that sent it, and nothing is left. -/
theorem relayed_faithfully_onePacket :
    payloads (relayKey 1) (emittedBy 1 onePacket) = payloads (relayKey 2) (sentBy 0 onePacket) := by
  have h_run : Exec (relay.restrict Relay.Settled) twoClients onePacket
      (onePacket.foldl Relay.after twoClients) := by
    refine (Relay.exec_of_plays plays_onePacket).restrict fun l hl s => ?_
    simp only [onePacket, List.mem_cons, List.not_mem_nil, or_false] at hl
    rcases hl with rfl | rfl | rfl | rfl | rfl | rfl | rfl | rfl | rfl | rfl | rfl | rfl
    · refine ⟨nofun, nofun, fun c p h => ?_⟩
      cases h
      exact (by decide : (2 : ℕ) ≤ 65504)
    all_goals exact ⟨nofun, nofun, nofun⟩
  refine (relayed_faithfully twoClients_ready h_run).2.1 (fun c hc => ?_) 0 1 rfl rfl
  by_cases h₀ : c = 0
  · subst h₀
    exact ⟨by decide +kernel, by decide +kernel, by decide +kernel, by decide +kernel,
      by decide +kernel, by decide +kernel, by decide +kernel, by decide +kernel⟩
  by_cases h₁ : c = 1
  · subst h₁
    exact ⟨by decide +kernel, by decide +kernel, by decide +kernel, by decide +kernel,
      by decide +kernel, by decide +kernel, by decide +kernel, by decide +kernel⟩
  · have h_new : twoClients.conn c = .new .zero := by simp [twoClients, h₀, h₁]
    rw [Relay.IsClient, h_new] at hc
    cases hc

end AraxMesh
