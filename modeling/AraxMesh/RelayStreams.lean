import AraxMesh.Relay

/-!
# The streams of a connection

What a connection has under way in either direction, over whole runs of the relay.

* `Upstream` — what the client has sent is what the handler has read, and the frames in between;
* `Downstream` — what was put into the channel is what the client has emitted, what is in between
  as frames, and what is still in the channel.

Each is kept by every action of the connection and by every other step of the relay, so that it
holds along every run (`upstream_of_exec`, `downstream_of_exec`). The first takes clients whose
packets fit a frame; the second does not, as the handlers check what they read.

## Proof sketch

Both are an equation between logs and an instance of `Reads`, which says of a reader and of the
bytes before it which frames it will come to, however the bytes are cut into chunks. An action moves
packets or bytes along this line.

* `send` and `recv` put a whole frame behind the bytes (`Reads.write`).
* `flush` and `write` move bytes from the sender to the stream, which changes nothing of their
order.
* `read` and `clientRead` take a chunk from the front, which completes one frame at most
  (`reads_packets`).
* Upstream the identity comes first. It is ahead of the frames until the handler has read it
  (`unread`), and nothing is read of what follows it before (`Upstream.idle`).

The steps of the server change the phases and routes of connections, and the one channel a packet is
put into; `congr` says that the streams do not see the rest.
-/

namespace AraxMesh

open BigEndian Framing LTS

/-! ### Logs -/

/-- The packet the action takes from the client. -/
def ConnAction.sent : ConnAction → List RelayPacket
  | .send p => [p]
  | _ => []

/-- The packet the action completes at the handler. -/
def ConnAction.arrived : ConnAction → List RelayPacket
  | .read _ out => out.toList
  | _ => []

/-- The packet the action hands on at the client. -/
def ConnAction.emitted : ConnAction → List RelayPacket
  | .emit p => [p]
  | _ => []

/-- What the actions of one connection say. -/
def logOf (f : ConnAction → List RelayPacket) (c : ConnId) (ls : List RelayLabel) :
    List RelayPacket :=
  ls.flatMap fun
    | .conn c' a => if c' = c then f a else []
    | _ => []

/-- The packets the client of `c` has sent. -/
abbrev sentBy : ConnId → List RelayLabel → List RelayPacket := logOf ConnAction.sent

/-- The packets the handler of `c` has read. -/
abbrev readBy : ConnId → List RelayLabel → List RelayPacket := logOf ConnAction.arrived

/-- The packets the client of `c` has emitted. -/
abbrev emittedBy : ConnId → List RelayLabel → List RelayPacket := logOf ConnAction.emitted

/-- The packets put into the channel of `d`. -/
def enqueuedTo (d : ConnId) (ls : List RelayLabel) : List RelayPacket :=
  ls.flatMap fun
    | .enqueue _ d' p => if d' = d then [p] else []
    | _ => []

@[simp] theorem logOf_append (f : ConnAction → List RelayPacket) (c : ConnId)
    (ls ls' : List RelayLabel) : logOf f c (ls ++ ls') = logOf f c ls ++ logOf f c ls' :=
  List.flatMap_append

@[simp] theorem enqueuedTo_append (d : ConnId) (ls ls' : List RelayLabel) :
    enqueuedTo d (ls ++ ls') = enqueuedTo d ls ++ enqueuedTo d ls' :=
  List.flatMap_append

@[simp] theorem logOf_conn_self (f : ConnAction → List RelayPacket) (c : ConnId) (a : ConnAction) :
    logOf f c [.conn c a] = f a := by
  simp [logOf]

/-- The actions of another connection. -/
theorem logOf_conn_of_ne (f : ConnAction → List RelayPacket) {c c' : ConnId} (a : ConnAction)
    (h : c' ≠ c) : logOf f c [.conn c' a] = [] := by
  simp [logOf, h]

/-- The steps of the server are in no connection's log. -/
@[simp] theorem logOf_register (f : ConnAction → List RelayPacket) (c c' : ConnId)
    (key : RelayKey) : logOf f c [.register c' key] = [] := rfl

@[simp] theorem logOf_lookup (f : ConnAction → List RelayPacket) (c c' : ConnId) :
    logOf f c [.lookup c'] = [] := rfl

@[simp] theorem logOf_enqueue (f : ConnAction → List RelayPacket) (c c' d : ConnId)
    (p : RelayPacket) : logOf f c [.enqueue c' d p] = [] := rfl

@[simp] theorem logOf_discard (f : ConnAction → List RelayPacket) (c c' : ConnId) :
    logOf f c [.discard c'] = [] := rfl

@[simp] theorem logOf_txEnd (f : ConnAction → List RelayPacket) (c c' : ConnId) :
    logOf f c [.txEnd c'] = [] := rfl

@[simp] theorem logOf_cleanup (f : ConnAction → List RelayPacket) (c c' : ConnId) :
    logOf f c [.cleanup c'] = [] := rfl

/-! ### From the client to the handler -/

/-- The reader of an RX loop: between two frames while the loop deals with one. -/
def Rx.reader : Rx → Reader
  | .reading r => r
  | _ => .start

/-- A reader that has completed a frame is at the start of the next one. -/
theorem Rx.reader_ofRead {r : Reader} {chunk : Bytes} :
    (Rx.ofRead (r.read relayFormat chunk)).reader = (r.read relayFormat chunk).1 := by
  rcases h : r.read relayFormat chunk with ⟨r', _ | frame⟩
  · rfl
  · have h_start := Reader.start_of_read (F := relayFormat) (r := r) (by rw [h])
    rw [h] at h_start
    exact h_start.symm

namespace RelayConn

/-- The identity, as long as it has not been read. -/
def unread (k : RelayConn) : Bytes :=
  match k.phase with
  | .accepted | .abandoned => k.localPubkey.val
  | _ => []

/-- The handler has read the identity. -/
def Registered (k : RelayConn) : Prop :=
  match k.phase with
  | .waiting | .accepted | .abandoned => False
  | _ => True

theorem Registered.unread {k : RelayConn} (h : k.Registered) : k.unread = [] := by
  unfold Registered at h
  unfold RelayConn.unread
  split at h <;> simp_all

theorem Registered.of_running {k : RelayConn} (h : k.phase = .running) : k.Registered := by
  rw [Registered, h]
  trivial

/-- What the client has sent has been read, or is on its way in whole frames, the one being read
included. -/
structure Upstream (k : RelayConn) (sent read : List RelayPacket) : Prop where
  stream : ∃ ps bytes, sent = read ++ ps ∧ k.up ++ k.outgoing = k.unread ++ bytes ∧
    Reads relayFormat k.rx.reader bytes (ps.map RelayPacket.body)
  waiting : k.phase = .waiting → k.up = [] ∧ k.outgoing = [] ∧ k.isOpen = false
  idle : ¬ k.Registered → k.rx = .reading .start

/-- The RX loop of the handler meets no bad length. -/
theorem Upstream.ne_failed {k : RelayConn} {sent read : List RelayPacket}
    (h : k.Upstream sent read) : k.rx ≠ .reading .failed := by
  intro h_rx
  obtain ⟨ps, bytes, -, -, h_reads⟩ := h.stream
  rw [h_rx] at h_reads
  exact h_reads.ne_failed rfl

/-- Once the identity is read, only the streams and the reader matter. -/
theorem Upstream.congr {k k' : RelayConn} {sent read : List RelayPacket} (h : k.Upstream sent read)
    (h_was : k.Registered) (h_is : k'.Registered) (h_up : k'.up = k.up)
    (h_outgoing : k'.outgoing = k.outgoing) (h_reader : k'.rx.reader = k.rx.reader) :
    k'.Upstream sent read where
  stream := by
    rw [h_up, h_outgoing, h_reader, h_is.unread, ← h_was.unread]
    exact h.stream
  waiting h' := by
    rw [Registered, h'] at h_is
    exact h_is.elim
  idle h' := absurd h_is h'

/-- The identity is ahead of everything. -/
theorem Upstream.connect {k : RelayConn} {sent read : List RelayPacket} (h : k.Upstream sent read)
    (ha : k.phase = .waiting) : (k.after .connect).Upstream sent read := by
  obtain ⟨ps, bytes, h_sent, h_bytes, h_reads⟩ := h.stream
  obtain ⟨h_up, h_outgoing, -⟩ := h.waiting ha
  rw [unread, ha, h_up, h_outgoing] at h_bytes
  refine ⟨⟨ps, bytes, h_sent, ?_, h_reads⟩, (fun h' => by cases h'), fun _ => ?_⟩
  · obtain rfl : bytes = [] := h_bytes.symm
    simp [after, unread, h_up]
  · exact h.idle (by simp [Registered, ha])

/-- A whole frame is written. -/
theorem Upstream.send {k : RelayConn} {sent read : List RelayPacket} (h : k.Upstream sent read)
    {p : RelayPacket} (ha : k.Enabled (.send p)) (h_fit : p.Fits) :
    (k.after (.send p)).Upstream (sent ++ [p]) read := by
  obtain ⟨ps, bytes, h_sent, h_bytes, h_reads⟩ := h.stream
  obtain ⟨h_open, h_outgoing⟩ := ha
  rw [h_outgoing, List.append_nil] at h_bytes
  refine ⟨⟨ps ++ [p], bytes ++ p.frame, ?_, ?_, ?_⟩, fun h_phase => ?_, h.idle⟩
  · rw [h_sent, List.append_assoc]
  · simp only [after]
    rw [h_bytes, List.append_assoc]
    rfl
  · rw [List.map_append, p.frame_eq]
    exact h_reads.write (RelayPacket.ok_body.mpr h_fit)
  · obtain ⟨-, -, h_closed⟩ := h.waiting h_phase
    cases h_open.symm.trans h_closed

/-- The stream begins with the bytes the handler reads, and they complete one packet at most. -/
theorem Upstream.chunk {k : RelayConn} {sent read : List RelayPacket} (h : k.Upstream sent read)
    {n : ℕ} {out : Option RelayPacket} (ha : k.Enabled (.read n out)) :
    (k.after (.read n out)).Upstream sent (read ++ (ConnAction.read n out).arrived) := by
  obtain ⟨ps, bytes, h_sent, h_bytes, h_reads⟩ := h.stream
  obtain ⟨h_phase, r, h_rx, -, h_need, h_len, rfl⟩ := ha
  have h_reg : k.Registered := .of_running h_phase
  rw [h_reg.unread, List.nil_append] at h_bytes
  rw [h_rx, Rx.reader, ← h_bytes, ← List.take_append_drop n k.up, List.append_assoc] at h_reads
  -- the chunk completes the first packet or none
  obtain ⟨ps', rfl, h_rest⟩ := reads_packets h_reads (by rw [List.length_take]; omega)
  simp only [after, h_rx, ConnAction.arrived]
  refine ⟨⟨ps', k.up.drop n ++ k.outgoing, ?_, ?_, ?_⟩, fun h' => ?_, fun h' => ?_⟩
  · rw [h_sent, List.append_assoc]
  · change _ = k.unread ++ _
    rw [h_reg.unread, List.nil_append]
  · rwa [Rx.reader_ofRead]
  · cases h_phase.symm.trans h'
  · exact absurd h_reg h'

/-- **Upstream, one action** of the connection. -/
theorem Upstream.action {k : RelayConn} {sent read : List RelayPacket} (h : k.Upstream sent read)
    {a : ConnAction} (ha : k.Enabled a) (h_fits : ∀ p ∈ a.sent, p.Fits) :
    (k.after a).Upstream (sent ++ a.sent) (read ++ a.arrived) := by
  obtain ⟨ps, bytes, h_sent, h_bytes, h_reads⟩ := h.stream
  cases a with
  | connect =>
    simp only [ConnAction.sent, ConnAction.arrived, List.append_nil]
    exact h.connect ha
  | close =>
    simp only [ConnAction.sent, ConnAction.arrived, List.append_nil]
    refine ⟨h.stream, fun h_phase => ?_, h.idle⟩
    obtain ⟨h_up, h_outgoing, -⟩ := h.waiting h_phase
    exact ⟨h_up, h_outgoing, rfl⟩
  | send p =>
    simp only [ConnAction.sent, ConnAction.arrived, List.append_nil] at h_fits ⊢
    exact h.send ha (h_fits p (List.mem_singleton_self p))
  -- bytes move from the client to the stream
  | flush n =>
    simp only [ConnAction.sent, ConnAction.arrived, List.append_nil]
    refine ⟨⟨ps, bytes, h_sent, ?_, h_reads⟩, fun h_phase => ?_, h.idle⟩
    · simp only [after]
      rw [List.append_assoc, List.take_append_drop]
      exact h_bytes
    · obtain ⟨-, -, h_closed⟩ := h.waiting h_phase
      cases ha.1.symm.trans h_closed
  | read n out =>
    have h_none : (ConnAction.read n out).sent = [] := rfl
    rw [h_none, List.append_nil]
    exact h.chunk ha
  | recv p | write n | emit p =>
    simp only [ConnAction.sent, ConnAction.arrived, List.append_nil]
    exact ⟨⟨ps, bytes, h_sent, h_bytes, h_reads⟩, h.waiting, h.idle⟩
  | clientRead n =>
    obtain ⟨-, r, h_rx, -⟩ := ha
    simp only [after, h_rx, ConnAction.sent, ConnAction.arrived, List.append_nil]
    exact ⟨⟨ps, bytes, h_sent, h_bytes, h_reads⟩, h.waiting, h.idle⟩
  -- the handler ends, and what it has not read stays where it is
  | rxEnd =>
    simp only [ConnAction.sent, ConnAction.arrived, List.append_nil]
    exact h.congr (.of_running ha.1) trivial rfl rfl rfl
  | finish =>
    have ha : k.phase = .cleaned := ha
    simp only [ConnAction.sent, ConnAction.arrived, List.append_nil]
    exact h.congr (by simp [Registered, ha]) trivial rfl rfl rfl
  -- the identity never came
  | abandon =>
    have h_idle := h.idle (by simp [Registered, ha.1])
    rw [unread, ha.1] at h_bytes
    simp only [ConnAction.sent, ConnAction.arrived, List.append_nil]
    exact ⟨⟨ps, bytes, h_sent, h_bytes, h_reads⟩, (fun h' => by cases h'), fun _ => h_idle⟩

/-- A connection that has not been made has sent and read nothing. -/
theorem Upstream.new (key : RelayKey) : (new key).Upstream [] [] where
  stream := ⟨[], [], rfl, rfl, .start⟩
  waiting _ := ⟨rfl, rfl, rfl⟩
  idle _ := rfl

/-- The identity is read, and what follows it are frames. -/
theorem Upstream.register {k : RelayConn} {sent read : List RelayPacket} (h : k.Upstream sent read)
    (h_phase : k.phase = .accepted) (h_long : 32 ≤ k.up.length) (key : RelayKey) :
    ({ k with phase := .running, identity := key, up := k.up.drop 32 } : RelayConn).Upstream
      sent read := by
  obtain ⟨ps, bytes, h_sent, h_bytes, h_reads⟩ := h.stream
  have h_idle := h.idle (by simp [Registered, h_phase])
  refine ⟨⟨ps, bytes, h_sent, ?_, h_reads⟩, (fun h' => by cases h'), fun _ => h_idle⟩
  rw [unread, h_phase] at h_bytes
  have h_drop := congrArg (List.drop 32) h_bytes
  rwa [List.drop_append_of_le_length h_long, List.drop_left' k.localPubkey.property] at h_drop

end RelayConn

/-- **Upstream, one step** of the relay. -/
theorem RelayConn.Upstream.step {s : Relay} {ls : List RelayLabel} {c : ConnId}
    (h : (s.conn c).Upstream (sentBy c ls) (readBy c ls)) {l : RelayLabel} (hl : s.Enabled l)
    (h_fits : ∀ p ∈ sentBy c [l], p.Fits) :
    ((s.after l).conn c).Upstream (sentBy c (ls ++ [l])) (readBy c (ls ++ [l])) := by
  simp only [logOf_append]
  cases l with
  | conn c' a =>
    by_cases hc : c' = c
    · subst hc
      simp only [logOf_conn_self, Relay.after, Relay.modify_conn_self] at h_fits ⊢
      exact h.action hl h_fits
    · simp only [logOf_conn_of_ne _ _ hc, List.append_nil, Relay.after]
      rwa [Relay.modify_conn_of_ne _ _ (Ne.symm hc)]
  | register c' key =>
    obtain ⟨h_phase, h_long, -⟩ := hl
    simp only [logOf_register, List.append_nil, Relay.after]
    apply Relay.modify_of (·.Upstream (sentBy c ls) (readBy c ls)) h
    rintro rfl
    exact h.register h_phase h_long key
  | lookup c' =>
    obtain ⟨h_phase, p, h_rx⟩ := hl
    simp only [logOf_lookup, List.append_nil, Relay.after]
    apply Relay.modify_of (·.Upstream (sentBy c ls) (readBy c ls)) h
    rintro rfl
    refine h.congr (.of_running h_phase) (.of_running h_phase) rfl rfl ?_
    -- with or without a route, the loop is between two frames
    simp only [h_rx, Relay.route]
    cases s.routes p.key <;> rfl
  | enqueue c' d p =>
    obtain ⟨h_phase, h_rx, -⟩ := hl
    simp only [logOf_enqueue, List.append_nil, Relay.after]
    -- at most two connections change: the sender's RX loop and the other's channel
    have h_sender : (((s.modify c' fun k => { k with rx := .reading .start }).conn c).Upstream
        (sentBy c ls) (readBy c ls)) := by
      apply Relay.modify_of (·.Upstream (sentBy c ls) (readBy c ls)) h
      rintro rfl
      exact h.congr (.of_running h_phase) (.of_running h_phase) rfl rfl (by rw [h_rx]; rfl)
    apply Relay.modify_of (·.Upstream (sentBy c ls) (readBy c ls)) h_sender
    exact fun _ => ⟨h_sender.stream, h_sender.waiting, h_sender.idle⟩
  | discard c' =>
    obtain ⟨h_phase, d, payload, h_rx, -⟩ := hl
    simp only [logOf_discard, List.append_nil, Relay.after]
    apply Relay.modify_of (·.Upstream (sentBy c ls) (readBy c ls)) h
    rintro rfl
    exact h.congr (.of_running h_phase) (.of_running h_phase) rfl rfl (by rw [h_rx]; rfl)
  | txEnd c' =>
    simp only [logOf_txEnd, List.append_nil, Relay.after]
    apply Relay.modify_of (·.Upstream (sentBy c ls) (readBy c ls)) h
    rintro rfl
    exact h.congr (.of_running hl.1) trivial rfl rfl rfl
  | cleanup c' =>
    have hl : (s.conn c').phase = .ended := hl
    simp only [logOf_cleanup, List.append_nil, Relay.after]
    apply Relay.modify_of (·.Upstream (sentBy c ls) (readBy c ls)) h
    rintro rfl
    exact h.congr (by simp [Registered, hl]) trivial rfl rfl rfl

/-- The clients of a history send only packets that fit a frame. -/
def SendsFit (ls : List RelayLabel) : Prop := ∀ c, ∀ p ∈ sentBy c ls, p.Fits

/-- The parts of such a history are such histories. -/
theorem SendsFit.split {ls ls' : List RelayLabel} (h : SendsFit (ls ++ ls')) :
    SendsFit ls ∧ SendsFit ls' := by
  refine ⟨fun c p hp => h c p ?_, fun c p hp => h c p ?_⟩
  · simp [hp]
  · simp [hp]

/-- **Upstream, along runs.** -/
theorem upstream_of_exec {s₀ s : Relay} {ls : List RelayLabel}
    (h_init : ∀ c, (s₀.conn c).Upstream [] []) (h_run : Exec relay s₀ ls s) (h_fits : SendsFit ls)
    (c : ConnId) : (s.conn c).Upstream (sentBy c ls) (readBy c ls) := by
  refine h_run.induct
    (fun ls s => SendsFit ls → (s.conn c).Upstream (sentBy c ls) (readBy c ls)) ?_ ?_ h_fits
  · exact fun _ => h_init c
  · rintro ls s l t _ ih ⟨hl, rfl⟩ h_fits
    exact (ih h_fits.split.1).step hl (h_fits.split.2 c)

/-! ### From the channel to the client -/

/-- The reader of the client's RX loop. -/
def ClientRx.reader : ClientRx → Reader
  | .reading r => r
  | .emitting _ => .start

/-- The packet the client's RX loop has read, and not handed on. -/
def ClientRx.held : ClientRx → List RelayPacket
  | .reading _ => []
  | .emitting p => [p]

/-- What the handler's RX loop has passed the length check. -/
def Rx.Checked : Rx → Prop
  | .reading r => r = .failed ∨ r.Valid relayFormat
  | .routing p => p.Fits
  | .sending _ payload => payload.length ≤ 65504

/-- What a valid reader completes has passed the check of its length. -/
theorem Rx.checked_ofRead {r : Reader} {chunk : Bytes} (h : (Rx.reading r).Checked)
    (h_need : chunk.length ≤ r.need relayFormat) (h_pos : 0 < r.need relayFormat) :
    (Rx.ofRead (r.read relayFormat chunk)).Checked := by
  have h_next : (r.read relayFormat chunk).1 = .failed ∨ (r.read relayFormat chunk).1.Valid _ :=
    Reader.valid_read h
  obtain rfl | h := h
  · exact absurd h_pos (Nat.lt_irrefl 0)
  rcases h_read : r.read relayFormat chunk with ⟨r', _ | frame⟩
  · rwa [h_read] at h_next
  · exact RelayPacket.fits_ofFrame (Reader.ok_of_read h h_need (by rw [h_read]))

/-- The client's reader goes on, and what it has completed is held. -/
theorem ClientRx.ofRead_eq {r : Reader} {chunk : Bytes} :
    (ClientRx.ofRead (r.read relayFormat chunk)).reader = (r.read relayFormat chunk).1 ∧
    (ClientRx.ofRead (r.read relayFormat chunk)).held
      = ((r.read relayFormat chunk).2.map RelayPacket.ofFrame).toList := by
  rcases h : r.read relayFormat chunk with ⟨r', _ | frame⟩
  · exact ⟨rfl, rfl⟩
  · have h_start := Reader.start_of_read (F := relayFormat) (r := r) (by rw [h])
    rw [h] at h_start
    exact ⟨h_start.symm, rfl⟩

namespace RelayConn

/-- What was put into the channel has been emitted by the client, or is with its RX loop, or is on
its way in whole frames, or is still in the channel. -/
structure Downstream (k : RelayConn) (enqueued emitted : List RelayPacket) : Prop where
  stream : ∃ ps, enqueued = emitted ++ k.clientRx.held ++ ps ++ k.inbound ∧
    Reads relayFormat k.clientRx.reader (k.down ++ k.pending) (ps.map RelayPacket.body)
  fits : ∀ p ∈ k.inbound, p.Fits
  checked : k.rx.Checked

/-- The client meets no bad length. -/
theorem Downstream.ne_failed {k : RelayConn} {enqueued emitted : List RelayPacket}
    (h : k.Downstream enqueued emitted) : k.clientRx ≠ .reading .failed := by
  intro h_rx
  obtain ⟨ps, -, h_reads⟩ := h.stream
  rw [h_rx] at h_reads
  exact h_reads.ne_failed rfl

/-- **Downstream, one action** of the connection. -/
theorem Downstream.action {k : RelayConn} {enqueued emitted : List RelayPacket}
    (h : k.Downstream enqueued emitted) {a : ConnAction} (ha : k.Enabled a) :
    (k.after a).Downstream enqueued (emitted ++ a.emitted) := by
  obtain ⟨ps, h_log, h_reads⟩ := h.stream
  cases a with
  | recv p =>
    obtain ⟨-, h_pending, rest, h_inbound⟩ := ha
    have h_ok : relayFormat.ok p.body.length :=
      RelayPacket.ok_body.mpr (h.fits p (by rw [h_inbound]; exact List.mem_cons_self))
    simp only [after, h_inbound, List.tail_cons, ConnAction.emitted, List.append_nil]
    refine ⟨⟨ps ++ [p], ?_, ?_⟩, fun q hq => h.fits q ?_, h.checked⟩
    · -- the packet moves from the channel to the stream
      rw [h_log, h_inbound, List.append_cons, List.append_assoc _ ps]
    · rw [h_pending, List.append_nil] at h_reads
      rw [List.map_append, p.frame_eq]
      exact h_reads.write h_ok
    · rw [h_inbound]
      exact List.mem_cons_of_mem _ hq
  | write n =>
    simp only [after, ConnAction.emitted, List.append_nil]
    refine ⟨⟨ps, h_log, ?_⟩, h.fits, h.checked⟩
    rw [List.append_assoc, List.take_append_drop]
    exact h_reads
  | clientRead n =>
    obtain ⟨-, r, h_rx, -, h_need, h_len⟩ := ha
    rw [h_rx, ClientRx.reader, ← List.take_append_drop n k.down, List.append_assoc] at h_reads
    -- the chunk completes the first packet or none
    obtain ⟨ps', rfl, h_rest⟩ := reads_packets h_reads (by rw [List.length_take]; omega)
    simp only [after, h_rx, ConnAction.emitted, List.append_nil]
    refine ⟨⟨ps', ?_, ?_⟩, h.fits, h.checked⟩
    · have h_held : k.clientRx.held = [] := by rw [h_rx]; rfl
      simp only [h_log, h_held, ClientRx.ofRead_eq.2, List.append_nil, List.append_assoc]
    · rwa [ClientRx.ofRead_eq.1]
  -- what the client holds is emitted
  | emit p =>
    obtain ⟨-, h_rx⟩ := ha
    rw [h_rx] at h_log h_reads
    refine ⟨⟨ps, ?_, h_reads⟩, h.fits, h.checked⟩
    simpa [ClientRx.held, ConnAction.emitted, after] using h_log
  | read n out =>
    obtain ⟨-, r, h_rx, h_pos, h_need, h_len, -⟩ := ha
    have h_checked := h.checked
    rw [h_rx] at h_checked
    simp only [after, h_rx, ConnAction.emitted, List.append_nil]
    refine ⟨⟨ps, h_log, h_reads⟩, h.fits, Rx.checked_ofRead h_checked ?_ (by omega)⟩
    rw [List.length_take]
    omega
  | connect | close | send p | flush n | rxEnd | abandon | finish =>
    simp only [ConnAction.emitted, List.append_nil]
    exact ⟨⟨ps, h_log, h_reads⟩, h.fits, h.checked⟩

/-- A connection that has not been made was given nothing. -/
theorem Downstream.new (key : RelayKey) : (new key).Downstream [] [] where
  stream := ⟨[], rfl, .start⟩
  fits := by simp [RelayConn.new]
  checked := Or.inr Reader.valid_start

/-- A change of the server's side of a connection, without its channel. -/
theorem Downstream.congr {k k' : RelayConn} {enqueued emitted : List RelayPacket}
    (h : k.Downstream enqueued emitted) (h_client : k'.clientRx = k.clientRx)
    (h_down : k'.down = k.down) (h_pending : k'.pending = k.pending)
    (h_inbound : k'.inbound = k.inbound) (h_checked : k'.rx.Checked) :
    k'.Downstream enqueued emitted where
  stream := by
    rw [h_client, h_down, h_pending, h_inbound]
    exact h.stream
  fits := by
    rw [h_inbound]
    exact h.fits
  checked := h_checked

/-- A packet is put into the channel. -/
theorem Downstream.deliver {k : RelayConn} {enqueued emitted : List RelayPacket}
    (h : k.Downstream enqueued emitted) {p : RelayPacket} (h_fits : p.Fits) :
    ({ k with inbound := k.inbound ++ [p] } : RelayConn).Downstream (enqueued ++ [p]) emitted := by
  obtain ⟨ps, h_log, h_reads⟩ := h.stream
  refine ⟨⟨ps, ?_, h_reads⟩, ?_, h.checked⟩
  · rw [h_log, List.append_assoc]
  · intro q hq
    rcases List.mem_append.mp hq with hq | hq
    · exact h.fits q hq
    · rwa [List.mem_singleton.mp hq]

end RelayConn

/-- **Downstream, one step** of the relay. -/
theorem downstream_step {s : Relay} {ls : List RelayLabel}
    (h : ∀ c, (s.conn c).Downstream (enqueuedTo c ls) (emittedBy c ls)) {l : RelayLabel}
    (hl : s.Enabled l) (c : ConnId) :
    ((s.after l).conn c).Downstream (enqueuedTo c (ls ++ [l])) (emittedBy c (ls ++ [l])) := by
  simp only [logOf_append, enqueuedTo_append]
  -- a step of the server that touches one RX loop, and no channel
  have h_modify (c' : ConnId) (f : RelayConn → RelayConn)
      (h_f : (f (s.conn c)).Downstream (enqueuedTo c ls) (emittedBy c ls)) :
      ((s.modify c' f).conn c).Downstream (enqueuedTo c ls) (emittedBy c ls) :=
    Relay.modify_of (·.Downstream (enqueuedTo c ls) (emittedBy c ls)) (h c) fun _ => h_f
  cases l with
  | conn c' a =>
    have h_enqueued : enqueuedTo c [.conn c' a] = [] := rfl
    rw [h_enqueued, List.append_nil]
    by_cases hc : c' = c
    · subst hc
      simp only [logOf_conn_self, Relay.after, Relay.modify_conn_self]
      exact (h c').action hl
    · simp only [logOf_conn_of_ne _ _ hc, List.append_nil, Relay.after]
      rw [Relay.modify_conn_of_ne _ _ (Ne.symm hc)]
      exact h c
  | register c' key =>
    have h_enqueued : enqueuedTo c [.register c' key] = [] := rfl
    simp only [h_enqueued, logOf_register, List.append_nil, Relay.after]
    exact h_modify _ _ ((h c).congr rfl rfl rfl rfl (h c).checked)
  | lookup c' =>
    obtain ⟨-, p, h_rx⟩ := hl
    have h_enqueued : enqueuedTo c [.lookup c'] = [] := rfl
    simp only [h_enqueued, logOf_lookup, List.append_nil, Relay.after]
    apply Relay.modify_of (·.Downstream (enqueuedTo c ls) (emittedBy c ls)) (h c)
    rintro rfl
    refine (h c).congr rfl rfl rfl rfl ?_
    -- a packet for nobody is dropped, and one for somebody was checked when it was read
    have h_fits := (h c).checked
    rw [h_rx] at h_fits
    simp only [h_rx, Relay.route]
    cases s.routes p.key with
    | none => exact Or.inr Reader.valid_start
    | some d => exact h_fits
  | enqueue c' d p =>
    obtain ⟨-, h_rx, -⟩ := hl
    -- the sender's handler has checked the packet
    have h_fits : p.Fits := by
      have h_checked := (h c').checked
      rwa [h_rx] at h_checked
    have h_sender := h_modify c' (fun k => { k with rx := .reading .start })
      ((h c).congr rfl rfl rfl rfl (Or.inr Reader.valid_start))
    simp only [logOf_enqueue, List.append_nil, Relay.after]
    by_cases hd : d = c
    · subst hd
      have h_enqueued : enqueuedTo d [.enqueue c' d p] = [p] := by simp [enqueuedTo]
      rw [Relay.modify_conn_self, h_enqueued]
      exact h_sender.deliver h_fits
    · have h_enqueued : enqueuedTo c [.enqueue c' d p] = [] := by simp [enqueuedTo, hd]
      rwa [h_enqueued, List.append_nil, Relay.modify_conn_of_ne _ _ (Ne.symm hd)]
  | discard c' =>
    have h_enqueued : enqueuedTo c [.discard c'] = [] := rfl
    simp only [h_enqueued, logOf_discard, List.append_nil, Relay.after]
    exact h_modify _ _ ((h c).congr rfl rfl rfl rfl (Or.inr Reader.valid_start))
  | txEnd c' =>
    have h_enqueued : enqueuedTo c [.txEnd c'] = [] := rfl
    simp only [h_enqueued, logOf_txEnd, List.append_nil, Relay.after]
    exact h_modify _ _ ((h c).congr rfl rfl rfl rfl (h c).checked)
  | cleanup c' =>
    have h_enqueued : enqueuedTo c [.cleanup c'] = [] := rfl
    simp only [h_enqueued, logOf_cleanup, List.append_nil, Relay.after]
    exact h_modify _ _ ((h c).congr rfl rfl rfl rfl (h c).checked)

/-- **Downstream, along runs.** -/
theorem downstream_of_exec {s₀ s : Relay} {ls : List RelayLabel}
    (h_init : ∀ c, (s₀.conn c).Downstream [] []) (h_run : Exec relay s₀ ls s) (c : ConnId) :
    (s.conn c).Downstream (enqueuedTo c ls) (emittedBy c ls) := by
  refine h_run.induct
    (fun ls s => ∀ c, (s.conn c).Downstream (enqueuedTo c ls) (emittedBy c ls)) h_init ?_ c
  rintro ls s l t _ ih ⟨hl, rfl⟩
  exact downstream_step ih hl

end AraxMesh
