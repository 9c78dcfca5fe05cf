import AraxMesh.Forwarding

/-!
# Attribution

Whose packets a client of the relay emits, in every run: clients come and go, two of them may have
one key at a time, a handler removes the route of another, and packets are lost on the way.

None of it gives a packet to somebody else, or under another's name. A packet carries the key that
the client of its connection announced, and is emitted by a client of the key it was sent to; and
what one connection gets through to another is a part of what its client sent there, in the order in
which it was sent, each packet once (`attributed`).

* `Named` — handlers know their clients by the keys these announced, and so does the table;
* `Passes` — what a handler passes on is a part of what it has read.

Both are invariants of all steps, where `SettledIn` and `Moves` of `Forwarding` are for runs in
which nobody comes or goes. A packet that the table sends nowhere is dropped, and so is one for a
connection that has ended. What is passed on is therefore a subsequence and no longer a prefix, but
the order is that of the stream: an RX loop has one packet at hand at a time.
-/

namespace AraxMesh

open BigEndian Framing LTS

/-! ### Logs -/

/-- The packets put into the channel of `d`, each with the connection it came on. -/
def enqueuedFrom (d : ConnId) (ls : List RelayLabel) : List (ConnId × RelayPacket) :=
  ls.flatMap fun
    | .enqueue c d' p => if d' = d then [(c, p)] else []
    | _ => []

/-- Every entry is a step that put the packet there. -/
theorem mem_enqueuedFrom {d : ConnId} {ls : List RelayLabel} {t : ConnId × RelayPacket} :
    t ∈ enqueuedFrom d ls ↔ .enqueue t.1 d t.2 ∈ ls := by
  obtain ⟨c, p⟩ := t
  simp only [enqueuedFrom, List.mem_flatMap]
  constructor
  · rintro ⟨l, hl, h⟩
    cases l with
    | enqueue c' d' p' =>
      by_cases hd : d' = d
      · obtain ⟨rfl, rfl⟩ : c = c' ∧ p = p' := by simpa [hd] using h
        rwa [← hd]
      · simp [hd] at h
    | _ => cases h
  · exact fun hl => ⟨_, hl, by simp⟩

/-- Without the connections they are the packets of the channel. -/
theorem map_snd_enqueuedFrom (d : ConnId) (ls : List RelayLabel) :
    (enqueuedFrom d ls).map Prod.snd = enqueuedTo d ls := by
  rw [enqueuedFrom, List.map_flatMap]
  refine List.flatMap_congr fun l _ => ?_
  cases l with
  | enqueue c d' p => by_cases hd : d' = d <;> simp [hd]
  | _ => rfl

/-- Those of one connection are what its handler has put there. -/
theorem filter_enqueuedFrom (a d : ConnId) (ls : List RelayLabel) :
    ((enqueuedFrom d ls).filter (·.1 = a)).map (·.2.payload) = movedFrom a d ls := by
  rw [enqueuedFrom, List.filter_flatMap, List.map_flatMap]
  refine List.flatMap_congr fun l _ => ?_
  cases l with
  | enqueue c d' p => by_cases hd : d' = d <;> by_cases hc : c = a <;> simp [hd, hc]
  | _ => rfl

/-! ### Keys -/

/-- No action changes the key of the client. -/
@[simp] theorem RelayConn.after_localPubkey (k : RelayConn) (a : ConnAction) :
    (k.after a).localPubkey = k.localPubkey := by
  cases a with
  | read n out | clientRead n =>
    simp only [after]
    split <;> rfl
  | _ => rfl

/-- Nor does a step of the relay. -/
theorem Relay.localPubkey_after (s : Relay) (l : RelayLabel) (c : ConnId) :
    ((s.after l).conn c).localPubkey = (s.conn c).localPubkey := by
  cases l with
  | conn c' a =>
    rw [after]
    exact modify_apply RelayConn.localPubkey s c' c fun k => k.after_localPubkey a
  | enqueue c' d p =>
    rw [after]
    refine (modify_apply RelayConn.localPubkey _ d c ?_).trans
      (modify_apply RelayConn.localPubkey s c' c ?_)
    all_goals exact fun _ => rfl
  | lookup c' | discard c' | txEnd c' =>
    rw [after]
    exact modify_apply RelayConn.localPubkey s c' c fun _ => rfl
  | register c' key =>
    change ((s.modify c' fun k =>
      { k with phase := .running, identity := key, up := k.up.drop 32 }).conn c).localPubkey = _
    exact modify_apply RelayConn.localPubkey s c' c fun _ => rfl
  | cleanup c' =>
    change ((s.modify c' fun k => { k with phase := .cleaned }).conn c).localPubkey = _
    exact modify_apply RelayConn.localPubkey s c' c fun _ => rfl

/-- A handler begins to run by registering. -/
theorem Relay.running_of_after {s : Relay} {l : RelayLabel} {c : ConnId}
    (h_register : ∀ key, l ≠ .register c key) (h : ((s.after l).conn c).phase = .running) :
    (s.conn c).phase = .running := by
  by_cases h_about : l.About c
  swap
  · rwa [frame h_about] at h
  cases l with
  | conn c' a =>
    obtain rfl : c = c' := h_about
    rw [after, modify_conn_self] at h
    cases a with
    | read n out | clientRead n =>
      simp only [RelayConn.after] at h
      split at h <;> exact h
    -- these leave the phase alone, and the others make another one of it
    | close | send p | flush n | recv p | write n | emit p => exact h
    | connect | rxEnd | abandon | finish => cases h
  | register c' key =>
    obtain rfl : c = c' := h_about
    exact absurd rfl (h_register key)
  | lookup c' | discard c' =>
    rw [after] at h
    refine (modify_apply RelayConn.phase s c' c ?_).symm.trans h
    exact fun _ => rfl
  | enqueue c' d p =>
    rw [after] at h
    refine ((modify_apply RelayConn.phase _ d c ?_).trans
      (modify_apply RelayConn.phase s c' c ?_)).symm.trans h
    all_goals exact fun _ => rfl
  | txEnd c' =>
    obtain rfl : c = c' := h_about
    rw [after, modify_conn_self] at h
    cases h
  | cleanup c' =>
    obtain rfl : c = c' := h_about
    have h_conn : (s.after (.cleanup c)).conn c = { s.conn c with phase := .cleaned } :=
      Function.update_self ..
    rw [h_conn] at h
    cases h

/-- A handler reads the key its client has announced, which is the first thing in the stream. -/
theorem RelayConn.Upstream.announced {k : RelayConn} {sent read : List RelayPacket}
    (h : k.Upstream sent read) (h_phase : k.phase = .accepted) (h_long : 32 ≤ k.up.length) :
    RelayKey.copyFrom k.up = k.localPubkey := by
  obtain ⟨-, bytes, -, h_bytes, -⟩ := h.stream
  rw [unread, h_phase] at h_bytes
  have h_take := congrArg (List.take 32) h_bytes
  rw [List.take_append_of_le_length h_long, List.take_left' k.localPubkey.property] at h_take
  rw [RelayKey.copyFrom, dif_pos h_long]
  exact Subtype.ext h_take

/-- Handlers that run know their clients by the keys these announced, and the table has under a key
a connection of a client of that key. -/
structure Named (s₀ s : Relay) : Prop where
  localPubkey : ∀ c, (s.conn c).localPubkey = (s₀.conn c).localPubkey
  identity : ∀ c, (s.conn c).phase = .running → (s.conn c).identity = (s₀.conn c).localPubkey
  routes : ∀ key c, s.routes key = some c → (s₀.conn c).localPubkey = key

/-- To begin with no handler runs, and the table is empty. -/
theorem Named.init {s₀ : Relay} (h : s₀.Initial) : Named s₀ s₀ := by
  refine ⟨fun _ => rfl, fun c hc => ?_, fun key c h_route => ?_⟩
  · obtain ⟨key, h_new⟩ := h.2 c
    rw [h_new] at hc
    cases hc
  · rw [h.1] at h_route
    cases h_route

/-- **Names stay right.** Only a registration gives one, and it takes it from the stream of the
client, where the announced key comes first. -/
theorem Named.step {s₀ s : Relay} (h : Named s₀ s) {l : RelayLabel} (hl : s.Enabled l)
    (h_up : ∀ c, ∃ sent read, (s.conn c).Upstream sent read) : Named s₀ (s.after l) := by
  have h_local : ∀ c, ((s.after l).conn c).localPubkey = (s₀.conn c).localPubkey :=
    fun c => (s.localPubkey_after l c).trans (h.localPubkey c)
  by_cases h_register : ∀ c key, l ≠ .register c key
  · -- routes only go away, and no identity is read
    refine ⟨h_local, fun c hc => ?_, fun key c h_route => ?_⟩
    · rw [s.identity_after (h_register c)]
      exact h.identity c (Relay.running_of_after (h_register c) hc)
    · exact h.routes key c (Relay.routes_of_after h_register h_route).1
  · push Not at h_register
    obtain ⟨c', key', rfl⟩ := h_register
    -- the key it registers is that of its client
    obtain ⟨h_phase, h_long, rfl⟩ := hl
    obtain ⟨sent, read, h_stream⟩ := h_up c'
    have h_key := (h_stream.announced h_phase h_long).trans (h.localPubkey c')
    refine ⟨h_local, fun c hc => ?_, fun key c h_route => ?_⟩
    · by_cases h_eq : c = c'
      · subst h_eq
        have h_conn : (s.after (.register c (.copyFrom (s.conn c).up))).conn c
            = { s.conn c with
                phase := .running, identity := .copyFrom (s.conn c).up
                up := (s.conn c).up.drop 32 } := Function.update_self ..
        rw [h_conn]
        exact h_key
      · have h_frame := Relay.frame (s := s) (l := .register c' (.copyFrom (s.conn c').up)) h_eq
        rw [h_frame] at hc ⊢
        exact h.identity c hc
    · have h_routes : (s.after (.register c' (.copyFrom (s.conn c').up))).routes
          = Function.update s.routes (.copyFrom (s.conn c').up) (some c') := rfl
      rw [h_routes] at h_route
      by_cases h_eq : key = .copyFrom (s.conn c').up
      · rw [h_eq, Function.update_self] at h_route
        rw [← Option.some.inj h_route, h_eq, h_key]
      · rw [Function.update_of_ne h_eq] at h_route
        exact h.routes key c h_route

/-! ### From the handler to the channel -/

/-- What the handler of `a` has put into the channel of `d`, and what it has at hand for the key, is
a part of what it has read for the key, in the same order. -/
def Passes (s : Relay) (ls : List RelayLabel) (a d : ConnId) (key : RelayKey) : Prop :=
  (movedFrom a d ls ++ (s.conn a).rx.handFor key d).Sublist (payloads key (readBy a ls))

section Passes

variable {s₀ s : Relay} {ls : List RelayLabel} {a d : ConnId} {key : RelayKey}

/-- A step that reads nothing, and puts nothing into the channel of `d`, may drop what is at
hand. -/
theorem Passes.drop (h : Passes s ls a d key) {l : RelayLabel}
    (h_rx : (((s.after l).conn a).rx.handFor key d).Sublist ((s.conn a).rx.handFor key d))
    (h_read : readBy a [l] = []) (h_moved : movedFrom a d [l] = []) :
    Passes (s.after l) (ls ++ [l]) a d key := by
  rw [Passes, movedFrom_append, h_moved, List.append_nil, readBy, logOf_append,
    show logOf _ a [l] = [] from h_read, List.append_nil]
  exact ((List.Sublist.refl _).append h_rx).trans h

/-- A step that leaves the RX loop of `a` alone. -/
theorem Passes.carry (h : Passes s ls a d key) {l : RelayLabel}
    (h_rx : ((s.after l).conn a).rx = (s.conn a).rx) (h_read : readBy a [l] = [])
    (h_moved : movedFrom a d [l] = []) : Passes (s.after l) (ls ++ [l]) a d key := by
  refine h.drop ?_ h_read h_moved
  rw [h_rx]

/-- The packet the handler of `a` reads is at hand. -/
theorem Passes.read (h : Passes s ls a d key) {n : ℕ} {out : Option RelayPacket}
    (hl : s.Enabled (.conn a (.read n out))) :
    Passes (s.after (.conn a (.read n out))) (ls ++ [.conn a (.read n out)]) a d key := by
  obtain ⟨-, r, h_rx, -, -, -, rfl⟩ := hl
  have h_after : ((s.conn a).after (.read n
      ((r.read relayFormat ((s.conn a).up.take n)).2.map .ofFrame))).rx
      = .ofRead (r.read relayFormat ((s.conn a).up.take n)) := by
    simp only [RelayConn.after, h_rx]
  rw [Passes, h_rx, Rx.handFor_reading, List.append_nil] at h
  rw [Passes, Relay.after, Relay.modify_conn_self, h_after, movedFrom_append, movedFrom_conn,
    List.append_nil, readBy, logOf_append, payloads_append, logOf_conn_self, ConnAction.arrived,
    Rx.handFor_ofRead]
  exact h.append (List.Sublist.refl _)

/-- The packet at hand goes on to a client of its key, or nowhere. -/
theorem Passes.lookup (h_named : Named s₀ s) (h : Passes s ls a d (s₀.conn d).localPubkey)
    (hl : s.Enabled (.lookup a)) :
    Passes (s.after (.lookup a)) (ls ++ [.lookup a]) a d (s₀.conn d).localPubkey := by
  obtain ⟨-, p, h_rx⟩ := hl
  refine h.drop ?_ rfl rfl
  rw [Relay.after, Relay.modify_conn_self]
  simp only [h_rx, Relay.route]
  cases h_found : s.routes p.key with
  | none => exact List.nil_sublist _
  | some d' =>
    rw [Rx.handFor_sending, Rx.handFor_routing]
    by_cases h_eq : d' = d
    · -- the table has `d` under its own key
      have h_key := h_named.routes _ _ h_found
      rw [h_eq] at h_key
      rw [if_pos h_eq, if_pos h_key.symm]
    · rw [if_neg h_eq]
      exact List.nil_sublist _

/-- The packet at hand goes into its channel. -/
theorem Passes.enqueue (h : Passes s ls a d key) {d' : ConnId} {p : RelayPacket}
    (hl : s.Enabled (.enqueue a d' p)) :
    Passes (s.after (.enqueue a d' p)) (ls ++ [.enqueue a d' p]) a d key := by
  obtain ⟨-, h_rx, -⟩ := hl
  have h_after : ((s.after (.enqueue a d' p)).conn a).rx = .reading .start := by
    rw [Relay.after]
    refine (Relay.modify_apply RelayConn.rx _ d' a ?_).trans ?_
    · exact fun _ => rfl
    · rw [Relay.modify_conn_self]
  have h_moved : movedFrom a d [.enqueue a d' p] = (s.conn a).rx.handFor key d := by
    rw [h_rx]
    simp [movedFrom]
  have h_log : readBy a (ls ++ [.enqueue a d' p]) = readBy a ls := by simp
  rw [Passes, h_after, movedFrom_append, h_moved, h_log, Rx.handFor_reading, List.append_nil]
  exact h

/-- **Every step passes on a part**, case by case as in `Moves.step`, but with registrations. -/
theorem Passes.step (h_named : Named s₀ s) (h : Passes s ls a d (s₀.conn d).localPubkey)
    {l : RelayLabel} (hl : s.Enabled l) :
    Passes (s.after l) (ls ++ [l]) a d (s₀.conn d).localPubkey := by
  cases l with
  | conn c act =>
    by_cases hc : a = c
    swap
    · have h_rx := congrArg RelayConn.rx (Relay.frame (s := s) (l := .conn c act) hc)
      exact h.carry h_rx (logOf_conn_of_ne _ _ (Ne.symm hc)) rfl
    subst hc
    have h_conn : (s.after (.conn a act)).conn a = (s.conn a).after act := by
      rw [Relay.after, Relay.modify_conn_self]
    cases act with
    | read n out => exact h.read hl
    | clientRead n =>
      -- the client has an RX loop of its own
      obtain ⟨-, r, h_rx, -⟩ := hl
      refine h.carry ?_ (logOf_conn_self ..) rfl
      rw [h_conn]
      simp only [RelayConn.after, h_rx]
    | _ => exact h.carry (by rw [h_conn]; rfl) (logOf_conn_self ..) rfl
  | register c key =>
    refine h.carry ?_ rfl rfl
    change ((s.modify c fun k =>
      { k with phase := .running, identity := key, up := k.up.drop 32 }).conn a).rx = _
    exact Relay.modify_apply RelayConn.rx s c a fun _ => rfl
  | lookup c =>
    by_cases hc : a = c
    · subst hc
      exact h.lookup h_named hl
    · have h_rx := congrArg RelayConn.rx (Relay.frame (s := s) (l := .lookup c) hc)
      exact h.carry h_rx rfl rfl
  | enqueue c d' p =>
    by_cases hc : a = c
    · subst hc
      exact h.enqueue hl
    · refine h.carry ?_ rfl (by simp [movedFrom, Ne.symm hc])
      rw [Relay.after]
      refine (Relay.modify_apply RelayConn.rx _ d' a ?_).trans ?_
      · exact fun _ => rfl
      · rw [Relay.modify_conn_of_ne _ _ hc]
  | discard c =>
    by_cases hc : a = c
    · -- the connection it was for has ended, so it is lost
      subst hc
      refine h.drop ?_ rfl rfl
      rw [Relay.after, Relay.modify_conn_self, Rx.handFor_reading]
      exact List.nil_sublist _
    · have h_rx := congrArg RelayConn.rx (Relay.frame (s := s) (l := .discard c) hc)
      exact h.carry h_rx rfl rfl
  | txEnd c =>
    refine h.carry ?_ rfl rfl
    rw [Relay.after]
    exact Relay.modify_apply RelayConn.rx s c a fun _ => rfl
  | cleanup c =>
    refine h.carry ?_ rfl rfl
    change ((s.modify c fun k => { k with phase := .cleaned }).conn a).rx = _
    exact Relay.modify_apply RelayConn.rx s c a fun _ => rfl

end Passes

/-! ### Runs -/

/-- Nothing has gone through the connections to begin with. -/
theorem Relay.Initial.fresh {s₀ : Relay} (h : s₀.Initial) (c : ConnId) :
    (s₀.conn c).Upstream [] [] ∧ (s₀.conn c).Downstream [] [] := by
  obtain ⟨key, h_new⟩ := h.2 c
  rw [h_new]
  exact ⟨.new key, .new key⟩

/-- What a run has kept. -/
structure Kept (s₀ : Relay) (ls : List RelayLabel) (s : Relay) : Prop where
  named : Named s₀ s
  passes : ∀ a d, Passes s ls a d (s₀.conn d).localPubkey
  /-- The packets in a channel carry the key of the client they came from. -/
  source : ∀ c d p, .enqueue c d p ∈ ls → p.key = (s₀.conn c).localPubkey

/-- Before the first step there is nothing to keep. -/
theorem Kept.init {s₀ : Relay} (h : s₀.Initial) : Kept s₀ [] s₀ where
  named := .init h
  passes a d := by
    obtain ⟨key, h_new⟩ := h.2 a
    rw [Passes, h_new]
    exact List.nil_sublist _
  source c d p h := by cases h

/-- **The step lemma.** -/
theorem Kept.step {s₀ s : Relay} {ls : List RelayLabel} (h : Kept s₀ ls s) {l : RelayLabel}
    (hl : s.Enabled l) (h_up : ∀ c, ∃ sent read, (s.conn c).Upstream sent read) :
    Kept s₀ (ls ++ [l]) (s.after l) where
  named := h.named.step hl h_up
  passes a d := (h.passes a d).step h.named hl
  source c d p hp := by
    rcases List.mem_append.mp hp with hp | hp
    · exact h.source c d p hp
    · -- a handler that sends runs, and knows the key of its client
      obtain rfl := List.mem_singleton.mp hp
      obtain ⟨h_running, -, h_key, -⟩ := hl
      exact h_key.trans (h.named.identity c h_running)

/-- **The run lemma**, by induction on the run, with the streams to the handlers beside it. -/
theorem kept_of_exec {s₀ s : Relay} {ls : List RelayLabel} (h_init : s₀.Initial)
    (h_run : Exec relay s₀ ls s) (h_fits : SendsFit ls) : Kept s₀ ls s := by
  refine h_run.induct (fun ls s => SendsFit ls → Kept s₀ ls s) ?_ ?_ h_fits
  · exact fun _ => .init h_init
  · rintro ls s l t h_pre ih ⟨hl, rfl⟩ h_fits
    have h_up := upstream_of_exec (fun c => (h_init.fresh c).1) h_pre h_fits.split.1
    exact (ih h_fits.split.1).step hl fun c => ⟨_, _, h_up c⟩

/-- **Attribution.** In every run of the relay in which clients send packets that fit a frame, every
packet that a client emits has come on some connection, such that

* it carries the public key of the client of that connection;
* what has come on one connection is a part of what its client sent to the public key of the client
  that emits it, in the same order and nothing twice. -/
theorem attributed {s₀ s : Relay} {ls : List RelayLabel} (h_init : s₀.Initial)
    (h_run : Exec relay s₀ ls s) (h_fits : SendsFit ls) (d : ConnId) :
    ∃ ts : List (ConnId × RelayPacket), ts.map Prod.snd = emittedBy d ls ∧
      (∀ t ∈ ts, t.2.key = (s₀.conn t.1).localPubkey) ∧
      ∀ a, ((ts.filter (·.1 = a)).map (·.2.payload)).Sublist
        (payloads (s₀.conn d).localPubkey (sentBy a ls)) := by
  have h := kept_of_exec h_init h_run h_fits
  have h_up := upstream_of_exec (fun c => (h_init.fresh c).1) h_run h_fits
  have h_down := (downstream_of_exec (fun c => (h_init.fresh c).2) h_run d).emitted_initial
  -- what is emitted is the beginning of what was put into the channel
  refine ⟨(enqueuedFrom d ls).take (emittedBy d ls).length, ?_, fun t ht => ?_, fun a => ?_⟩
  · rw [List.map_take, map_snd_enqueuedFrom]
    exact (List.prefix_iff_eq_take.mp h_down).symm
  · exact h.source t.1 d t.2 (mem_enqueuedFrom.mp (List.mem_of_mem_take ht))
  · -- backwards: emitted, put into the channel, read by the handler, sent
    have h_moved := ((List.take_sublist (emittedBy d ls).length (enqueuedFrom d ls)).filter
      (·.1 = a)).map (·.2.payload)
    rw [filter_enqueuedFrom] at h_moved
    have h_read := (List.sublist_append_left _ _).trans (h.passes a d)
    exact (h_moved.trans h_read).trans (payloads_initial _ (h_up a).read_initial).sublist

/-! ### A run with two clients of one key -/

/-- Two clients of the key `1…1`, and one of the key `2…2`. -/
def twinClients : Relay where
  routes _ := none
  conn c := .new (if c = 2 then relayKey 2 else relayKey 1)

/-- A packet on its way to the third client, and the same from a client of the first key. -/
def there (b : UInt8) : RelayPacket := ⟨relayKey 2, [b]⟩

def here (b : UInt8) : RelayPacket := ⟨relayKey 1, [b]⟩

/-- All three connect, the second in place of the first; each of the two sends a packet to the
third, whose client emits the later one of them first. -/
def twinRun : List RelayLabel :=
  [.conn 0 .connect, .conn 0 (.flush 32), .register 0 (relayKey 1),
    .conn 2 .connect, .conn 2 (.flush 32), .register 2 (relayKey 2),
    .conn 0 (.send (there 5)), .conn 0 (.flush 37), .conn 0 (.read 4 none),
    .conn 0 (.read 33 (some (there 5))), .lookup 0,
    .conn 1 .connect, .conn 1 (.flush 32), .register 1 (relayKey 1),
    .conn 1 (.send (there 6)), .conn 1 (.flush 37), .conn 1 (.read 4 none),
    .conn 1 (.read 33 (some (there 6))), .lookup 1, .enqueue 1 2 (here 6), .enqueue 0 2 (here 5),
    .conn 2 (.recv (here 6)), .conn 2 (.write 37), .conn 2 (.clientRead 4),
    .conn 2 (.clientRead 33), .conn 2 (.emit (here 6))]

theorem plays_twinRun : twinClients.Plays twinRun := by
  refine ⟨rfl, ⟨rfl, by decide, ?_⟩, ⟨rfl, ?_, ?_⟩, rfl, ⟨rfl, by decide, ?_⟩, ⟨rfl, ?_, ?_⟩,
    ⟨rfl, rfl⟩, ⟨rfl, by decide, ?_⟩, ⟨rfl, .start, rfl, ?_⟩, ⟨rfl, .body 33 [], ?_, ?_⟩,
    ⟨rfl, there 5, ?_⟩, rfl, ⟨rfl, by decide, ?_⟩, ⟨rfl, ?_, ?_⟩,
    ⟨rfl, rfl⟩, ⟨rfl, by decide, ?_⟩, ⟨rfl, .start, rfl, ?_⟩, ⟨rfl, .body 33 [], ?_, ?_⟩,
    ⟨rfl, there 6, ?_⟩, ⟨rfl, ?_⟩, ⟨rfl, ?_⟩, ⟨rfl, rfl, [here 5], ?_⟩, ⟨rfl, by decide, ?_⟩,
    ⟨rfl, .start, rfl, ?_⟩, ⟨rfl, .body 33 [], ?_, ?_⟩, ⟨rfl, ?_⟩, trivial⟩
  all_goals decide +kernel

/-- The packet emitted came from a client of the key it carries, who sent it to the third. -/
theorem attributed_twinRun : emittedBy 2 twinRun = [here 6] ∧
    ∃ a, (twinClients.conn a).localPubkey = relayKey 1 ∧
      [6] ∈ payloads (relayKey 2) (sentBy a twinRun) := by
  have h_init : twinClients.Initial := ⟨rfl, fun _ => ⟨_, rfl⟩⟩
  have h_fits : SendsFit twinRun := by
    intro c p hp
    simp only [twinRun, logOf, List.mem_flatMap] at hp
    obtain ⟨l, hl, hp⟩ := hp
    -- two packets are sent, of one byte each
    have h_sends : ∀ l ∈ twinRun, ∀ c' p', l = .conn c' (.send p') → p'.Fits := by
      intro l hl c' p' h_eq
      subst h_eq
      simp only [twinRun, List.mem_cons, RelayLabel.conn.injEq, ConnAction.send.injEq, reduceCtorEq,
        and_false, false_or, List.not_mem_nil, or_false] at hl
      obtain ⟨-, rfl⟩ | ⟨-, rfl⟩ := hl
      all_goals exact (by decide : (1 : ℕ) ≤ 65504)
    obtain ⟨p', rfl, rfl⟩ := send_of_mem (c := c) (l := l) (p := p) (by simpa [logOf] using hp)
    exact h_sends _ hl c p rfl
  obtain ⟨ts, h_emitted, h_key, h_sent⟩ :=
    attributed h_init (Relay.exec_of_plays plays_twinRun) h_fits 2
  have h_out : emittedBy 2 twinRun = [here 6] := by decide +kernel
  rw [h_out] at h_emitted
  obtain ⟨⟨a, p⟩, rfl, rfl⟩ := List.map_eq_singleton_iff.mp h_emitted
  refine ⟨h_out, a, (h_key _ (List.mem_singleton_self _)).symm, (h_sent a).subset ?_⟩
  simp [here]

end AraxMesh
