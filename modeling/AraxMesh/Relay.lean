import AraxMesh.Lib.Framing
import AraxMesh.Lib.Trans
import AraxMesh.Packet
import Mathlib.Logic.Function.Basic

/-!
# The relay

The relay server (`coordinatord.rs`, `handle_relay_client`) and its clients (`relay.rs`), from the
bytes up. A connection has a client with a TX and an RX loop, a byte stream each way, and a handler
with an RX and a TX loop and a channel of 64 packets; the handlers share the table of routes.

Bytes are written and read in chunks of any size, and every loop takes its steps in any order with
those of all others. What a loop does between two `await`s that others can see is one step.

* `ConnAction` — what happens on one connection alone;
* `RelayLabel` — the actions of connections, and the steps that involve the table of routes or
  another connection's channel;
* `relay` — all runs.

An entry of the table is the sender of a channel; it is modelled by the connection the channel
belongs to. A channel's receiver lives until its handler returns (`Phase.finished`), and a sender
lives in the table or in a handler that is sending (`Rx.sending`).
-/

namespace AraxMesh

open BigEndian Framing LTS

/-! ### Keys and packets -/

/-- `[u8; 32]`: a Noise public key. -/
abbrev RelayKey := { key : Bytes // key.length = 32 }

/-- `[0u8; 32]`. -/
def RelayKey.zero : RelayKey := ⟨List.replicate 32 0, by simp⟩

/-- `key.copy_from_slice(&bytes[..32])`, which every caller has bytes enough for. -/
def RelayKey.copyFrom (bytes : Bytes) : RelayKey :=
  if h : 32 ≤ bytes.length then ⟨bytes.take 32, by simp [h]⟩ else RelayKey.zero

/-- A packet of the relay. On its way to the server it is an `OutboundRelayPacket` and its key the
destination's; on its way from the server it is a `RelayedPacket` and its key the sender's. -/
structure RelayPacket where
  key : RelayKey
  payload : Bytes
deriving DecidableEq

namespace RelayPacket

/-- What follows the length field. -/
def body (p : RelayPacket) : Bytes := p.key.val ++ p.payload

/-- What either TX loop writes: `(32 + payload.len()) as u32`, the key and the payload. -/
def frame (p : RelayPacket) : Bytes := toBE 4 (32 + p.payload.length) ++ (p.key.val ++ p.payload)

/-- What either RX loop makes of a frame it has read. -/
def ofFrame (frame : Bytes) : RelayPacket := ⟨RelayKey.copyFrom frame, frame.drop 32⟩

/-- The bound both RX loops impose, on the payload. -/
def Fits (p : RelayPacket) : Prop := p.payload.length ≤ 65504

end RelayPacket

/-- `(32..=65536).contains(&frame_len)`: the frames of both directions. -/
def relayFormat : Format where
  width := 4
  ok n := 32 ≤ n ∧ n ≤ 65536
  width_pos := by omega
  pos_of_ok := by
    intro n h
    simp only [decide_eq_true_eq] at h
    omega
  lt_of_ok := by
    intro n h
    simp only [decide_eq_true_eq] at h
    omega

/-! ### One connection -/

/-- A connection, by the order of acceptance. -/
abbrev ConnId := ℕ

/-- How far `handle_relay_client` has come. -/
inductive Phase
  /-- The connection is not there yet. -/
  | waiting
  /-- It is reading the identity. -/
  | accepted
  /-- It has returned for want of an identity. -/
  | abandoned
  /-- It has registered the route, and its two loops run. -/
  | running
  /-- One of the loops has ended, and with it the other. -/
  | ended
  /-- It has removed the route. -/
  | cleaned
  /-- It has returned, and dropped the channel. -/
  | finished
deriving DecidableEq

/-- Where the handler's RX loop is. -/
inductive Rx
  | reading (r : Reader)
  /-- It has read a frame, and is about to look the destination up. -/
  | routing (p : RelayPacket)
  /-- It has the destination's sender, and waits for room in the channel. -/
  | sending (dest : ConnId) (payload : Bytes)
deriving DecidableEq

/-- Where it is after a read. -/
def Rx.ofRead : Reader × Option Bytes → Rx
  | (_, some frame) => .routing (.ofFrame frame)
  | (r, none) => .reading r

/-- Where the client's RX loop is. -/
inductive ClientRx
  | reading (r : Reader)
  /-- It has read a packet, and hands it on. -/
  | emitting (p : RelayPacket)
deriving DecidableEq

/-- Where it is after a read. -/
def ClientRx.ofRead : Reader × Option Bytes → ClientRx
  | (_, some frame) => .emitting (.ofFrame frame)
  | (r, none) => .reading r

/-- A connection: the client, the streams, and the handler. -/
structure RelayConn where
  localPubkey : RelayKey
  /-- The client has the connection open. -/
  isOpen : Bool
  /-- What the client's TX loop has still to write of what it is writing. -/
  outgoing : Bytes
  clientRx : ClientRx
  /-- The bytes from the client to the server. -/
  up : Bytes
  /-- The bytes from the server to the client. -/
  down : Bytes
  phase : Phase
  identity : RelayKey
  rx : Rx
  /-- The channel of packets for this client. -/
  inbound : List RelayPacket
  /-- What the handler's TX loop has still to write of what it is writing. -/
  pending : Bytes

namespace RelayConn

/-- A connection before it is made. -/
def new (localPubkey : RelayKey) : RelayConn where
  localPubkey := localPubkey
  isOpen := false
  outgoing := []
  clientRx := .reading .start
  up := []
  down := []
  phase := .waiting
  identity := RelayKey.zero
  rx := .reading .start
  inbound := []
  pending := []

end RelayConn

/-- What happens on one connection alone. -/
inductive ConnAction
  /-- The client connects, and is about to write its identity. -/
  | connect
  | close
  /-- The client's TX loop takes a packet. -/
  | send (p : RelayPacket)
  /-- The client's TX loop gets `n` bytes written. -/
  | flush (n : ℕ)
  /-- The handler's RX loop reads `n` bytes, which may complete a frame. -/
  | read (n : ℕ) (out : Option RelayPacket)
  /-- The handler's TX loop takes a packet from its channel. -/
  | recv (p : RelayPacket)
  /-- The handler's TX loop gets `n` bytes written. -/
  | write (n : ℕ)
  /-- The client's RX loop reads `n` bytes. -/
  | clientRead (n : ℕ)
  /-- The client's RX loop hands a packet on. -/
  | emit (p : RelayPacket)
  /-- The handler's RX loop ends: the stream does, or there is no going on after a bad length. -/
  | rxEnd
  /-- The handler returns for want of an identity. -/
  | abandon
  /-- The handler returns. -/
  | finish

namespace RelayConn

/-- The action is possible. -/
def Enabled (k : RelayConn) : ConnAction → Prop
  | .connect => k.phase = .waiting
  | .close => k.isOpen
  | .send _ => k.isOpen ∧ k.outgoing = []
  | .flush n => k.isOpen ∧ 0 < n ∧ n ≤ k.outgoing.length
  -- `read_exact` takes what it still needs, and no more than there is
  | .read n out => k.phase = .running ∧ ∃ r, k.rx = .reading r ∧ 0 < n ∧ n ≤ r.need relayFormat ∧
      n ≤ k.up.length ∧ out = (r.read relayFormat (k.up.take n)).2.map .ofFrame
  | .recv p => k.phase = .running ∧ k.pending = [] ∧ ∃ rest, k.inbound = p :: rest
  | .write n => k.phase = .running ∧ 0 < n ∧ n ≤ k.pending.length
  | .clientRead n => k.isOpen ∧ ∃ r, k.clientRx = .reading r ∧ 0 < n ∧ n ≤ r.need relayFormat ∧
      n ≤ k.down.length
  | .emit p => k.isOpen ∧ k.clientRx = .emitting p
  -- the stream is at its end, or the length was out of bounds
  | .rxEnd => k.phase = .running ∧ ∃ r, k.rx = .reading r ∧ (k.isOpen = false ∨ r = .failed)
  | .abandon => k.phase = .accepted ∧ k.isOpen = false
  | .finish => k.phase = .cleaned

/-- The connection after the action. -/
def after (k : RelayConn) : ConnAction → RelayConn
  -- the identity is the first thing a client writes
  | .connect => { k with isOpen := true, outgoing := k.localPubkey.val, phase := .accepted }
  | .close => { k with isOpen := false }
  | .send p => { k with outgoing := p.frame }
  | .flush n => { k with up := k.up ++ k.outgoing.take n, outgoing := k.outgoing.drop n }
  | .read n _ =>
    match k.rx with
    | .reading r =>
      { k with rx := .ofRead (r.read relayFormat (k.up.take n)), up := k.up.drop n }
    | _ => k
  | .recv p => { k with pending := p.frame, inbound := k.inbound.tail }
  | .write n => { k with down := k.down ++ k.pending.take n, pending := k.pending.drop n }
  | .clientRead n =>
    match k.clientRx with
    | .reading r =>
      { k with clientRx := .ofRead (r.read relayFormat (k.down.take n)), down := k.down.drop n }
    | _ => k
  | .emit _ => { k with clientRx := .reading .start }
  | .rxEnd => { k with phase := .ended }
  | .abandon => { k with phase := .abandoned }
  | .finish => { k with phase := .finished }

end RelayConn

/-! ### The server -/

/-- The connections, and `RelayRoutes`. -/
structure Relay where
  routes : RelayKey → Option ConnId
  conn : ConnId → RelayConn

/-- What happens at the relay. -/
inductive RelayLabel
  | conn (c : ConnId) (a : ConnAction)
  /-- The handler has read the identity, and registers the route. -/
  | register (c : ConnId) (key : RelayKey)
  /-- The handler's RX loop looks the destination of its frame up. -/
  | lookup (c : ConnId)
  /-- The handler of `c` puts a packet into the channel of `d`. -/
  | enqueue (c d : ConnId) (p : RelayPacket)
  /-- The handler finds the channel it is sending to closed. -/
  | discard (c : ConnId)
  /-- The handler's TX loop ends: no sender of its channel is left, or a write fails. -/
  | txEnd (c : ConnId)
  /-- The handler removes the route of its identity. -/
  | cleanup (c : ConnId)

/-- The step is about the connection, or puts a packet into its channel. -/
def RelayLabel.About (c : ConnId) : RelayLabel → Prop
  | .conn c' _ | .register c' _ | .lookup c' | .discard c' | .txEnd c' | .cleanup c' => c = c'
  | .enqueue c' d _ => c = c' ∨ c = d

namespace Relay

/-- Change one connection. -/
def modify (s : Relay) (c : ConnId) (f : RelayConn → RelayConn) : Relay :=
  { s with conn := Function.update s.conn c (f (s.conn c)) }

/-- Some sender of the channel of `c` is alive. -/
def HasSender (s : Relay) (c : ConnId) : Prop :=
  -- in the table, or cloned by a handler that is sending
  (∃ key, s.routes key = some c) ∨
    ∃ a payload, (s.conn a).phase = .running ∧ (s.conn a).rx = .sending c payload

/-- The step is possible. -/
def Enabled (s : Relay) : RelayLabel → Prop
  | .conn c a => (s.conn c).Enabled a
  | .register c key => (s.conn c).phase = .accepted ∧ 32 ≤ (s.conn c).up.length ∧
      key = .copyFrom (s.conn c).up
  | .lookup c => (s.conn c).phase = .running ∧ ∃ p, (s.conn c).rx = .routing p
  -- the packet goes on under the identity of its sender, once the channel has room
  | .enqueue c d p => (s.conn c).phase = .running ∧ (s.conn c).rx = .sending d p.payload ∧
      p.key = (s.conn c).identity ∧ (s.conn d).phase ≠ .finished ∧ (s.conn d).inbound.length < 64
  | .discard c => (s.conn c).phase = .running ∧
      ∃ d payload, (s.conn c).rx = .sending d payload ∧ (s.conn d).phase = .finished
  | .txEnd c => (s.conn c).phase = .running ∧
      ((s.conn c).pending = [] ∧ (s.conn c).inbound = [] ∧ ¬ s.HasSender c ∨
        (s.conn c).pending ≠ [] ∧ (s.conn c).isOpen = false)
  | .cleanup c => (s.conn c).phase = .ended

/-- Where the RX loop goes on once the destination is looked up. -/
def route (s : Relay) : Rx → Rx
  | .routing p =>
    match s.routes p.key with
    | some d => .sending d p.payload
    -- nobody has this key, and the packet is dropped
    | none => .reading .start
  | rx => rx

/-- The relay after the step. -/
def after (s : Relay) : RelayLabel → Relay
  | .conn c a => s.modify c (·.after a)
  -- the older entry of the identity is replaced, and its sender dropped
  | .register c key =>
    { s.modify c fun k => { k with phase := .running, identity := key, up := k.up.drop 32 } with
      routes := Function.update s.routes key (some c) }
  | .lookup c => s.modify c fun k => { k with rx := s.route k.rx }
  | .enqueue c d p =>
    (s.modify c fun k => { k with rx := .reading .start }).modify d fun k =>
      { k with inbound := k.inbound ++ [p] }
  | .discard c => s.modify c fun k => { k with rx := .reading .start }
  | .txEnd c => s.modify c fun k => { k with phase := .ended }
  -- whatever entry there is under the identity is removed
  | .cleanup c =>
    { s.modify c fun k => { k with phase := .cleaned } with
      routes := Function.update s.routes (s.conn c).identity none }

@[simp] theorem modify_conn_self (s : Relay) (c : ConnId) (f : RelayConn → RelayConn) :
    (s.modify c f).conn c = f (s.conn c) := Function.update_self ..

theorem modify_conn_of_ne (s : Relay) {c d : ConnId} (f : RelayConn → RelayConn) (h : d ≠ c) :
    (s.modify c f).conn d = s.conn d := Function.update_of_ne h ..

/-- What holds of every connection holds of them after a change of one, if the change keeps it. -/
theorem modify_of (P : RelayConn → Prop) {s : Relay} {c d : ConnId} {f : RelayConn → RelayConn}
    (h : P (s.conn d)) (h_f : d = c → P (f (s.conn d))) : P ((s.modify c f).conn d) := by
  by_cases hd : d = c
  · have h_at := h_f hd
    subst hd
    rwa [modify_conn_self]
  · rwa [modify_conn_of_ne _ _ hd]

/-- A change that leaves something of a connection alone leaves it alone at every connection. -/
theorem modify_apply {α : Type} (g : RelayConn → α) (s : Relay) (c d : ConnId)
    {f : RelayConn → RelayConn} (hf : ∀ k, g (f k) = g k) :
    g ((s.modify c f).conn d) = g (s.conn d) :=
  modify_of (fun k => g k = g (s.conn d)) rfl fun _ => hf _

/-- **The frame rule.** A step changes the connection it is about and, if it puts a packet into a
channel, the connection of the channel. -/
theorem frame {s : Relay} {l : RelayLabel} {c : ConnId} (h : ¬ l.About c) :
    (s.after l).conn c = s.conn c := by
  cases l with
  | enqueue c' d p =>
    obtain ⟨h₁, h₂⟩ := not_or.mp h
    rw [after, modify_conn_of_ne _ _ h₂, modify_conn_of_ne _ _ h₁]
  | _ => exact Function.update_of_ne h ..

/-- No connection has been made. -/
def Initial (s : Relay) : Prop :=
  s.routes = (fun _ => none) ∧ ∀ c, ∃ key, s.conn c = RelayConn.new key

end Relay

/-- No action changes the identity a handler has read. -/
@[simp] theorem RelayConn.after_identity (k : RelayConn) (a : ConnAction) :
    (k.after a).identity = k.identity := by
  cases a with
  | read n out =>
    simp only [after]
    split <;> rfl
  | clientRead n =>
    simp only [after]
    split <;> rfl
  | _ => rfl

/-- What a step can make of the phase of a connection. -/
theorem Relay.phase_after {s : Relay} {l : RelayLabel} (hl : s.Enabled l) (c : ConnId) :
    ((s.after l).conn c).phase = (s.conn c).phase ∨
    (s.conn c).phase = .waiting ∧ l = .conn c .connect ∨ (s.conn c).phase = .accepted ∨
    (s.conn c).phase = .running ∧ ((s.after l).conn c).phase = .ended ∨
    (s.conn c).phase = .ended ∧ l = .cleanup c ∨ (s.conn c).phase = .cleaned := by
  by_cases h_about : l.About c
  -- the phase of a connection the step is not about stays
  swap
  · exact Or.inl (by rw [frame h_about])
  cases l with
  | conn c' a =>
    obtain rfl : c = c' := h_about
    have h_conn : (s.after (.conn c a)).conn c = (s.conn c).after a := by
      rw [after, modify_conn_self]
    rw [h_conn]
    cases a with
    -- the actions that move a handler on
    | connect => exact Or.inr (Or.inl ⟨hl, rfl⟩)
    | abandon => exact Or.inr (Or.inr (Or.inl hl.1))
    | rxEnd => exact Or.inr (Or.inr (Or.inr (Or.inl ⟨hl.1, rfl⟩)))
    | finish => exact Or.inr (Or.inr (Or.inr (Or.inr (Or.inr hl))))
    -- the others leave the phase alone
    | read n out =>
      simp only [RelayConn.after]
      split <;> exact Or.inl rfl
    | clientRead n =>
      simp only [RelayConn.after]
      split <;> exact Or.inl rfl
    | _ => exact Or.inl rfl
  | register c' key =>
    obtain rfl : c = c' := h_about
    exact Or.inr (Or.inr (Or.inl hl.1))
  | lookup c' | discard c' =>
    refine Or.inl ?_
    rw [after]
    exact modify_apply RelayConn.phase s c' c fun _ => rfl
  | enqueue c' d p =>
    refine Or.inl ?_
    rw [after]
    refine (modify_apply RelayConn.phase _ d c ?_).trans (modify_apply RelayConn.phase s c' c ?_)
    all_goals exact fun _ => rfl
  | txEnd c' =>
    obtain rfl : c = c' := h_about
    refine Or.inr (Or.inr (Or.inr (Or.inl ⟨hl.1, ?_⟩)))
    rw [after, modify_conn_self]
  | cleanup c' =>
    obtain rfl : c = c' := h_about
    exact Or.inr (Or.inr (Or.inr (Or.inr (Or.inl ⟨hl, rfl⟩))))

/-- Only a registration changes the identity of a handler. -/
theorem Relay.identity_after (s : Relay) {l : RelayLabel} {c : ConnId}
    (h : ∀ key, l ≠ .register c key) :
    ((s.after l).conn c).identity = (s.conn c).identity := by
  cases l with
  | conn c' a =>
    rw [after]
    exact modify_apply RelayConn.identity s c' c fun k => k.after_identity a
  -- it registers another connection
  | register c' key =>
    have hc : ¬ (RelayLabel.register c' key).About c := by
      rintro rfl
      exact h key rfl
    rw [frame hc]
  | enqueue c' d p =>
    rw [after]
    refine (modify_apply RelayConn.identity _ d c ?_).trans
      (modify_apply RelayConn.identity s c' c ?_)
    all_goals exact fun _ => rfl
  | lookup c' | discard c' | txEnd c' =>
    rw [after]
    exact modify_apply RelayConn.identity s c' c fun _ => rfl
  | cleanup c' =>
    change ((s.modify c' fun k => { k with phase := .cleaned }).conn c).identity = _
    exact modify_apply RelayConn.identity s c' c fun _ => rfl

/-- All runs of the relay. -/
def relay : System Relay RelayLabel where
  init := Relay.Initial
  step s l t := s.Enabled l ∧ t = s.after l

/-- Every one of the steps is possible when it is made. -/
def Relay.Plays (s : Relay) : List RelayLabel → Prop
  | [] => True
  | l :: ls => s.Enabled l ∧ (s.after l).Plays ls

theorem Relay.exec_of_plays {s : Relay} {ls : List RelayLabel} (h : s.Plays ls) :
    Exec relay s ls (ls.foldl Relay.after s) := by
  induction ls generalizing s with
  | nil => exact .refl
  | cons l ls ih => exact .head ⟨h.1, rfl⟩ (ih h.2)

/-! ### Frames -/

namespace RelayPacket

theorem length_body (p : RelayPacket) : p.body.length = 32 + p.payload.length := by
  rw [body, List.length_append, p.key.property]

/-- Either TX loop writes a frame of the format. -/
theorem frame_eq (p : RelayPacket) : p.frame = relayFormat.encode p.body := by
  rw [frame, Format.encode, length_body]
  rfl

/-- Either RX loop takes a frame apart as it was put together. -/
@[simp] theorem ofFrame_body (p : RelayPacket) : ofFrame p.body = p := by
  obtain ⟨⟨key, h_key⟩, payload⟩ := p
  -- the key is there to be copied
  have h_len : 32 ≤ (key ++ payload).length := by
    rw [List.length_append]
    omega
  simp only [ofFrame, body, RelayKey.copyFrom, dif_pos h_len, List.take_left' h_key,
    List.drop_left' h_key]

theorem ok_body {p : RelayPacket} : relayFormat.ok p.body.length ↔ p.Fits := by
  rw [length_body]
  simp only [relayFormat, Fits, decide_eq_true_eq]
  omega

/-- A frame of an acceptable length holds a packet that fits. -/
theorem fits_ofFrame {frame : Bytes} (h : relayFormat.ok frame.length) : (ofFrame frame).Fits := by
  simp only [relayFormat, decide_eq_true_eq] at h
  simp only [Fits, ofFrame, List.length_drop]
  omega

end RelayPacket

/-- A chunk completes the first packet of a stream of frames or none. -/
theorem reads_packets {r : Reader} {chunk rest : Bytes} {ps : List RelayPacket}
    (h : Reads relayFormat r (chunk ++ rest) (ps.map RelayPacket.body))
    (h_need : chunk.length ≤ r.need relayFormat) :
    ∃ ps', ps = ((r.read relayFormat chunk).2.map RelayPacket.ofFrame).toList ++ ps' ∧
      Reads relayFormat (r.read relayFormat chunk).1 rest (ps'.map RelayPacket.body) := by
  obtain ⟨bodies, h_ps, h_rest⟩ := h.read h_need
  cases h_out : (r.read relayFormat chunk).2 with
  | none =>
    rw [h_out] at h_ps
    refine ⟨ps, rfl, ?_⟩
    rw [show ps.map RelayPacket.body = bodies from h_ps]
    exact h_rest
  | some body =>
    rw [h_out] at h_ps
    obtain ⟨p, ps', rfl, rfl, rfl⟩ := List.map_eq_cons_iff.mp h_ps
    exact ⟨ps', by simp, h_rest⟩

end AraxMesh
