import AraxMesh.Channel
import AraxMesh.Lib.Interleave
import AraxMesh.Keyed
import AraxMesh.Tunnel
import Mathlib.Data.List.Nodup

/-!
# The overlay network

Any number of nodes, each running its own daemon, with nothing assumed of what is between them: a
node may get any bytes from any address and any relay key at any time, and the coordinator may hand
out any descriptors.

`overlay_secure` is what the network is for. What a node writes to its TUN device came through one
of its peers that owns the source address, and if the key of that peer is the key of a node, then
that node read the packet from its TUN device before, its routing chose the peer that has the key of
the first node, and no other write goes back to that packet.

Of the library it is assumed that a session has one other end, which opens what it seals and is made
with the two keys exchanged (`Snow.Paired`); of the run, that no two handshakes give the same
transport state, and that what authenticates under a session between two nodes was sealed at the
other end (`NoForgery`). A peer whose key belongs to nobody in the network may do as it pleases.

A write is followed backwards (`Writes.origin`):

1. The peer that took the packet opened it under a session, which was made with the key of that peer
   (`keyed_of_reachable`) and installed at this node.
2. If the key is that of a node, what authenticates under the session was sealed before at its other
   end. The two ends are made with each other's keys, so the node that sealed it has the key of the
   peer, and sealed it for a peer with the key of the writing node.
3. Whoever seals a packet that is written has read it from the TUN device, and routed it: a
   keepalive is empty, and is not written (`sealed_of_step`).
4. That no two writes go back to one read is the replay window: a session is at one node, and opens
   a nonce once.
-/

namespace AraxMesh

open LTS

variable {S : Snow} {N : Type}

/-- `ends t t'`: what is sealed at `t` is for `t'`. There is one such end, it opens what was sealed,
and the two are made with each other's keys. -/
structure Snow.Paired (S : Snow) (ends : S.Transport → S.Transport → Prop) (pub : Bytes → Bytes) :
    Prop where
  unique : ∀ t t₁ t₂, ends t t₁ → ends t t₂ → t₁ = t₂
  opens : ∀ t t', ends t t' → ∀ n plaintext ciphertext,
    S.writeMessage t n plaintext = some ciphertext → S.readMessage t' n ciphertext = some plaintext
  keys : ∀ localPriv remotePub t localPriv' remotePub' t', S.Made localPriv remotePub t →
    S.Made localPriv' remotePub' t' → ends t t' →
    remotePub = pub localPriv' ∧ remotePub' = pub localPriv

/-- The nodes, side by side. -/
def overlay (S : Snow) (hasRelay : N → Bool) : System (N → PeerManager S) (N × DaemonLabel S) :=
  System.family fun x => daemon S (hasRelay x)

/-! ### What a run installs -/

/-- The transport states a run installs, wherever. -/
def installs (ls : List (N × DaemonLabel S)) : List S.Transport :=
  ls.flatMap fun l => installedIn l.2.events

/-- What was installed up to some moment is installed in the run. -/
theorem installs_take {ls : List (N × DaemonLabel S)} (h : (installs ls).Nodup) (i : ℕ) :
    (installs (ls.take i)).Nodup := by
  have h_sublist : (installs (ls.take i)).Sublist (installs ls) :=
    (List.take_sublist i ls).flatMap _
  exact h_sublist.nodup h

section Events

variable [DecidableEq N] {x y : N} {ls : List (N × DaemonLabel S)}

/-- What a node goes through in a run. -/
def eventsAt (x : N) (ls : List (N × DaemonLabel S)) : List (Event S) := eventsOf (labelsAt x ls)

/-- It is what happens at the turns of the node. -/
theorem mem_eventsAt {e : Event S} : e ∈ eventsAt x ls ↔ ∃ l, (x, l) ∈ ls ∧ e ∈ l.events := by
  simp only [eventsAt, eventsOf, List.mem_flatMap, mem_labelsAt]

/-- What a node has gone through up to some moment. -/
theorem eventsAt_take_subset {e : Event S} {i : ℕ} (h : e ∈ eventsAt x (ls.take i)) :
    e ∈ eventsAt x ls := by
  obtain ⟨l, hl, he⟩ := mem_eventsAt.mp h
  exact mem_eventsAt.mpr ⟨l, List.mem_of_mem_take hl, he⟩

/-- What one node installs is among what is installed anywhere. -/
theorem installedIn_eventsAt (x : N) (ls : List (N × DaemonLabel S)) :
    (installedIn (eventsAt x ls)).Sublist (installs ls) := by
  induction ls with
  | nil => exact List.Sublist.refl _
  | cons l ls ih =>
    obtain ⟨y, l⟩ := l
    have h_cons : installs ((y, l) :: ls) = installedIn l.events ++ installs ls := rfl
    rw [h_cons]
    by_cases h : y = x
    · subst h
      rw [eventsAt, labelsAt_self, eventsOf, List.flatMap_cons, installedIn_append]
      exact (List.Sublist.refl _).append ih
    · rw [eventsAt, labelsAt_ne h]
      exact ih.trans (List.sublist_append_right _ _)

/-- What is installed once is installed at one node. -/
theorem node_of_installed (h : (installs ls).Nodup) {t : S.Transport}
    (hx : .installed t ∈ eventsAt x ls) (hy : .installed t ∈ eventsAt y ls) : x = y := by
  obtain ⟨l, hl, hlt⟩ := mem_eventsAt.mp hx
  obtain ⟨m, hm, hmt⟩ := mem_eventsAt.mp hy
  by_contra h_ne
  have h_turns : ((x, l) : N × DaemonLabel S) ≠ (y, m) := fun h_eq => h_ne (congrArg Prod.fst h_eq)
  -- two turns that install it would be one
  have h_symm : Std.Symm (Function.onFun List.Disjoint
      fun l : N × DaemonLabel S => installedIn l.2.events) := ⟨fun _ _ => List.Disjoint.symm⟩
  have h_disjoint := (List.nodup_flatMap.mp h).2.forall hl hm h_turns
  exact h_disjoint (mem_installedIn.mpr hlt) (mem_installedIn.mpr hmt)

end Events

/-! ### The state of a node -/

section Node

variable {hasRelay : N → Bool} {s₀ u : N → PeerManager S} {ls : List (N × DaemonLabel S)}

/-- Each node runs its daemon, whatever the others do. -/
theorem reachable_at [DecidableEq N] (h_init : (overlay S hasRelay).init s₀)
    (h_run : Exec (overlay S hasRelay) s₀ ls u) (x : N) : Reachable (daemon S (hasRelay x)) (u x) :=
  ⟨s₀ x, labelsAt x ls, h_init x, h_run.at x⟩

/-- A node keeps its key and its packet types. -/
theorem config_at [DecidableEq N] (h_run : Exec (overlay S hasRelay) s₀ ls u) (x : N) :
    (u x).localPriv = (s₀ x).localPriv ∧ (u x).magic = (s₀ x).magic :=
  config_of_exec (h_run.at x)

/-- The sessions of a peer are made with its key, and were installed at the node. -/
theorem session_at [DecidableEq N] (h_completes : S.Completes)
    (h_init : (overlay S hasRelay).init s₀) (h_run : Exec (overlay S hasRelay) s₀ ls u)
    (h_fresh : (installs ls).Nodup) {x : N} {p : Peer S} (hp : p ∈ (u x).peers) {k : Slot}
    {r : ActiveSession S} (hr : p.slot k = some r) :
    S.Made (s₀ x).localPriv p.pubkey r.state ∧ .installed r.state ∈ eventsAt x ls ∧
      r.replay.Represents (seenIn r.state (eventsAt x ls)) := by
  have h_keyed := PeerManager.keyed_of_reachable h_completes (reachable_at h_init h_run x) p hp
  have h_filtered := filtered_of_run (h_init x) (h_run.at x)
    ((installedIn_eventsAt x ls).nodup h_fresh)
  rw [(config_at h_run x).1] at h_keyed
  refine ⟨h_keyed _ (Peer.state_mem_live hr), mem_installedIn.mp ?_, h_filtered.window p hp k r hr⟩
  have h_live : r.state ∈ live (u x).peers := mem_live.mpr ⟨p, hp, k, r, hr, rfl⟩
  exact Multiset.mem_coe.mp (Multiset.mem_of_le h_filtered.live h_live)

end Node

/-! ### Writes, reads, and what lies between -/

section Tunnels

variable (ends : S.Transport → S.Transport → Prop) (pub : Bytes → Bytes) (hasRelay : N → Bool)
  (s₀ : N → PeerManager S) (ls : List (N × DaemonLabel S))

/-- No forgery: what authenticates at a node under a session with the key of a node was sealed
before, for that session and under that nonce. -/
def NoForgery [DecidableEq N] : Prop :=
  ∀ (i : ℕ) (x y : N) (l : DaemonLabel S) (payload : Bytes) (t : S.Transport) (padded : Bytes),
    ls[i]? = some (x, l) → l.task.BringsData (s₀ x).magic payload →
    .installed t ∈ eventsAt x (ls.take i) → S.Made (s₀ x).localPriv (pub (s₀ y).localPriv) t →
    S.readMessage t (Peer.packetNonce payload) (payload.drop 8) = some padded →
    ∃ j z l' c, j < i ∧ ls[j]? = some (z, l') ∧ c ∈ sentIn l'.events ∧ ends c.state t ∧
      c.nonce = Peer.packetNonce payload ∧ c.packet.drop 9 = payload.drop 8

/-- At label `i` the node `x`, with the table `u x`, writes a packet: its peer `p` took it. -/
structure Writes (i : ℕ) (x : N) (u : N → PeerManager S) (l : DaemonLabel S) (p : Peer S)
    (o : Opened S) : Prop where
  label : ls[i]? = some (x, l)
  before : Exec (overlay S hasRelay) s₀ (ls.take i) u
  peer : p ∈ (u x).peers
  taken : ∃ payload, l.task.BringsData (u x).magic payload ∧ p.Takes payload l.now o
  opened : .opened o ∈ l.events
  written : writtenIn l.events = [o.plaintext]

/-- At label `j` the node `z`, with the table `v z`, reads a packet for its peer `q` and seals
it. -/
structure Reads (j : ℕ) (z : N) (v : N → PeerManager S) (l : DaemonLabel S) (q : Peer S)
    (packet : Bytes) (d : Draw S) (c : Sealed S) : Prop where
  label : ls[j]? = some (z, l)
  before : Exec (overlay S hasRelay) s₀ (ls.take j) v
  task : l.task = .tun packet d
  routes : (v z).Routes packet q
  seals : q.Seals packet d c
  sent : sentIn l.events = [c]

/-- What `x` writes at `i` from its peer `p` is what `z` read at `j` for its peer `q`. -/
def Carries (i j : ℕ) (x z : N) (p q : Peer S) (o : Opened S) (packet : Bytes) : Prop :=
  j < i ∧ ∃ u l v l' d c, Writes hasRelay s₀ ls i x u l p o ∧
    Reads hasRelay s₀ ls j z v l' q packet d c ∧ ends c.state o.state ∧ c.nonce = o.nonce

end Tunnels

section Runs

variable [DecidableEq N] {ends : S.Transport → S.Transport → Prop} {pub : Bytes → Bytes}
  {hasRelay : N → Bool} {s₀ s : N → PeerManager S} {ls : List (N × DaemonLabel S)}

/-- **Whatever is written was taken by a peer.** -/
theorem exists_writes (h_init : (overlay S hasRelay).init s₀)
    (h_run : Exec (overlay S hasRelay) s₀ ls s) {i : ℕ} {x : N} {l : DaemonLabel S}
    {plaintext : Bytes} (hi : ls[i]? = some (x, l)) (h : .written plaintext ∈ l.events) :
    ∃ u p o, Writes hasRelay s₀ ls i x u l p o ∧ o.plaintext = plaintext := by
  obtain ⟨u, v, h_before, h_step, -⟩ := h_run.cut hi
  have h_events : ((u x).step (hasRelay x) l.now l.task).1 = l.events := congrArg Prod.fst h_step
  have h_mem := mem_writtenIn.mpr h
  have h_turn := (u x).takes_of_step (hasRelay x) l.now
    (peers_magic (reachable_at h_init h_before x)) l.task
  rw [h_events] at h_turn
  rcases h_turn with h_nil | ⟨payload, p, o, h_data, hp, h_takes, h_opened, h_one⟩
  · rw [h_nil] at h_mem
    cases h_mem
  · rw [h_one] at h_mem
    exact ⟨u, p, o, ⟨hi, h_before, hp, ⟨payload, h_data, h_takes⟩, h_opened, h_one⟩,
      (List.mem_singleton.mp h_mem).symm⟩

/-- **Where it comes from**, if the key of the peer is the key of a node. -/
theorem Writes.origin (h_paired : S.Paired ends pub) (h_completes : S.Completes)
    (h_init : (overlay S hasRelay).init s₀) (h_run : Exec (overlay S hasRelay) s₀ ls s)
    (h_fresh : (installs ls).Nodup) (h_forgery : NoForgery ends pub s₀ ls) {i : ℕ} {x y : N}
    {u : N → PeerManager S} {l : DaemonLabel S} {p : Peer S} {o : Opened S}
    (h : Writes hasRelay s₀ ls i x u l p o) (h_key : p.pubkey = pub (s₀ y).localPriv) :
    ∃ j z q packet, Carries ends hasRelay s₀ ls i j x z p q o packet ∧
      p.pubkey = pub (s₀ z).localPriv ∧ q.pubkey = pub (s₀ x).localPriv ∧
      ∃ pad, o.plaintext = truncatePlaintext (Peer.padPayload packet pad) := by
  obtain ⟨payload, h_data, k, r, padded, h_admits, rfl, h_allows⟩ := h.taken
  obtain ⟨h_made, h_installed, -⟩ := session_at h_completes h_init h.before
    (installs_take h_fresh i) h.peer h_admits.honours.1
  rw [(config_at h.before x).2] at h_data
  -- somebody sealed it
  obtain ⟨j, z, l', c, hj, hz, hc, h_ends, h_nonce, h_cipher⟩ :=
    h_forgery i x y l payload r.state padded h.label h_data h_installed (h_key ▸ h_made)
      h_admits.read
  obtain ⟨v, w, h_before, h_step, -⟩ := h_run.cut hz
  have h_events : ((v z).step (hasRelay z) l'.now l'.task).1 = l'.events :=
    congrArg Prod.fst h_step
  have h_sealed := (v z).sealed_of_step (hasRelay z) l'.now
    (peers_magic (reachable_at h_init h_before z)) (h_events ▸ hc)
  -- what was sealed is what was opened
  have h_padded : ∀ {q : Peer S} {packet : Bytes} {d : Draw S}, q.Seals packet d c →
      padded = Peer.padPayload packet d.dataPad := by
    intro q packet d h_seals
    have h_read := h_paired.opens _ _ h_ends _ _ _ h_seals.ciphertext
    rw [h_nonce, h_cipher] at h_read
    exact Option.some.inj (h_admits.read.symm.trans h_read)
  rcases h_sealed with ⟨q, d, h_seals⟩ | ⟨packet, d, q, h_task, h_routes, h_sent, h_seals⟩
  · -- a keepalive is not written
    rw [h_padded h_seals] at h_allows
    exact absurd rfl h_allows.ne_nil
  · have h_reads : Reads hasRelay s₀ ls j z v l' q packet d c :=
      ⟨hz, h_before, h_task, h_routes, h_seals, h_events ▸ h_sent⟩
    have hq : q ∈ (v z).peers := by
      obtain ⟨_, _, _, -, -, h_at⟩ := h_routes
      exact List.mem_of_getElem? h_at
    -- the session it was sealed under is the sender's with `q`
    obtain ⟨a, ha, h_state⟩ := h_seals.session
    obtain ⟨h_made', -⟩ := session_at h_completes h_init h_before (installs_take h_fresh j) hq
      (k := .active) ha
    rw [h_state] at h_made'
    obtain ⟨h_to, h_from⟩ := h_paired.keys _ _ _ _ _ _ h_made' h_made h_ends
    refine ⟨j, z, q, packet, ⟨hj, u, l, v, l', d, c, h, h_reads, h_ends, h_nonce⟩, h_from, h_to,
      d.dataPad, ?_⟩
    show truncatePlaintext padded = _
    rw [h_padded h_seals]

/-- A nonce is opened once under a session. -/
theorem Writes.opened_once (h_completes : S.Completes) (h_init : (overlay S hasRelay).init s₀)
    (h_fresh : (installs ls).Nodup) {i i' : ℕ} {x : N} {u u' : N → PeerManager S}
    {l l' : DaemonLabel S} {p p' : Peer S} {o o' : Opened S}
    (h : Writes hasRelay s₀ ls i x u l p o) (h' : Writes hasRelay s₀ ls i' x u' l' p' o')
    (h_state : o.state = o'.state) (h_nonce : o.nonce = o'.nonce) : ¬ i < i' := by
  intro h_lt
  obtain ⟨payload, -, k, r, padded, h_admits, rfl, -⟩ := h'.taken
  obtain ⟨-, -, h_window⟩ := session_at h_completes h_init h'.before
    (installs_take h_fresh i') h'.peer h_admits.honours.1
  -- the earlier write opened it, so the window rejects it now
  have h_seen : .opened o ∈ eventsAt x (ls.take i') := by
    refine mem_eventsAt.mpr ⟨l, List.mem_of_getElem? (i := i) ?_, h.opened⟩
    rw [List.getElem?_take_of_lt h_lt, h.label]
  have h_rejected := h_window.rejects
    (mem_seenIn.mpr ⟨o, mem_openedIn.mpr h_seen, h_state, congrArg _ h_nonce⟩)
  rw [h_admits.unspent] at h_rejected
  cases h_rejected

/-- **At most once.** No two writes go back to one read. -/
theorem Carries.once (h_paired : S.Paired ends pub) (h_completes : S.Completes)
    (h_init : (overlay S hasRelay).init s₀) (h_fresh : (installs ls).Nodup) {i i' j : ℕ}
    {x x' z z' : N} {p p' q q' : Peer S} {o o' : Opened S} {packet packet' : Bytes}
    (h : Carries ends hasRelay s₀ ls i j x z p q o packet)
    (h' : Carries ends hasRelay s₀ ls i' j x' z' p' q' o' packet') : i = i' := by
  obtain ⟨-, u, l, v, m, d, c, h_writes, h_reads, h_ends, h_nonce⟩ := h
  obtain ⟨-, u', l', v', m', d', c', h_writes', h_reads', h_ends', h_nonce'⟩ := h'
  -- one turn reads one packet and seals it once
  obtain ⟨rfl, rfl⟩ := Prod.mk.inj (Option.some.inj (h_reads.label.symm.trans h_reads'.label))
  obtain rfl : c = c' := (List.cons.inj (h_reads.sent.symm.trans h_reads'.sent)).1
  have h_state : o.state = o'.state := h_paired.unique _ _ _ h_ends h_ends'
  have h_same : o.nonce = o'.nonce := h_nonce.symm.trans h_nonce'
  -- a session is at one node
  have h_at : ∀ {i x u l p} {o : Opened S}, Writes hasRelay s₀ ls i x u l p o →
      .installed o.state ∈ eventsAt x ls := by
    intro i x u l p o h
    obtain ⟨payload, -, k, r, padded, h_admits, rfl, -⟩ := h.taken
    exact eventsAt_take_subset (session_at h_completes h_init h.before
      (installs_take h_fresh i) h.peer h_admits.honours.1).2.1
  obtain rfl : x = x' := node_of_installed h_fresh (h_at h_writes) (h_state ▸ h_at h_writes')
  have h_le := h_writes.opened_once h_completes h_init h_fresh h_writes' h_state h_same
  have h_ge := h_writes'.opened_once h_completes h_init h_fresh h_writes h_state.symm h_same.symm
  exact Nat.le_antisymm (Nat.not_lt.mp h_ge) (Nat.not_lt.mp h_le)

/-- **The overlay is secure.** In every run of a network:

* whatever a node writes to its TUN device, it writes alone in its turn, and a peer of its table
  took it, which owns the source address;
* if that peer has the key of some node, then a node with this key read the packet before, its
  routing chose a peer with the key of the writing node, and what is written is what was read, cut
  to its total length if it was no proper packet;
* no two writes go back to one packet. -/
theorem overlay_secure (h_paired : S.Paired ends pub) (h_completes : S.Completes)
    (h_init : (overlay S hasRelay).init s₀) (h_run : Exec (overlay S hasRelay) s₀ ls s)
    (h_fresh : (installs ls).Nodup) (h_forgery : NoForgery ends pub s₀ ls) :
    (∀ i x l plaintext, ls[i]? = some (x, l) → .written plaintext ∈ l.events →
      ∃ u p o, Writes hasRelay s₀ ls i x u l p o ∧ o.plaintext = plaintext) ∧
    (∀ i x u l p o, Writes hasRelay s₀ ls i x u l p o →
      (∃ y, p.pubkey = pub (s₀ y).localPriv) →
      ∃ j z q packet, Carries ends hasRelay s₀ ls i j x z p q o packet ∧
        p.pubkey = pub (s₀ z).localPriv ∧ q.pubkey = pub (s₀ x).localPriv ∧
        (∃ pad, o.plaintext = truncatePlaintext (Peer.padPayload packet pad)) ∧
        (Framed packet → o.plaintext = packet)) ∧
    ∀ i i' j x x' z z' p p' q q' o o' packet packet',
      Carries ends hasRelay s₀ ls i j x z p q o packet →
      Carries ends hasRelay s₀ ls i' j x' z' p' q' o' packet' → i = i' := by
  refine ⟨?_, ?_, ?_⟩
  · intro i x l plaintext hi h
    exact exists_writes h_init h_run hi h
  · rintro i x u l p o h ⟨y, h_key⟩
    obtain ⟨j, z, q, packet, h_carries, h_from, h_to, pad, h_plain⟩ :=
      h.origin h_paired h_completes h_init h_run h_fresh h_forgery h_key
    refine ⟨j, z, q, packet, h_carries, h_from, h_to, ⟨pad, h_plain⟩, fun h_framed => ?_⟩
    rw [h_plain, truncatePlaintext_padPayload h_framed]
  · intro i i' j x x' z z' p p' q q' o o' packet packet' h h'
    exact h.once h_paired h_completes h_init h_fresh h'

end Runs

/-! ### A packet between two nodes -/

/-- The labels of a run through the given turns, and the network it ends with. -/
def runNodes [DecidableEq N] (s : N → PeerManager S) (hasRelay : N → Bool) :
    List (N × Instant × DaemonTask S) → List (N × DaemonLabel S) × (N → PeerManager S)
  | [] => ([], s)
  | (x, now, task) :: rest =>
    let turn := (s x).step (hasRelay x) now task
    let after := runNodes (Function.update s x turn.2) hasRelay rest
    ((x, ⟨now, task, turn.1⟩) :: after.1, after.2)

theorem exec_runNodes [DecidableEq N] (s : N → PeerManager S) (hasRelay : N → Bool)
    (tasks : List (N × Instant × DaemonTask S)) :
    Exec (overlay S hasRelay) s (runNodes s hasRelay tasks).1 (runNodes s hasRelay tasks).2 := by
  induction tasks generalizing s with
  | nil => exact Exec.refl
  | cons t rest ih =>
    obtain ⟨x, now, task⟩ := t
    refine Exec.head ⟨?_, fun y hy => Function.update_of_ne hy _ s⟩ (ih _)
    show (s x).step (hasRelay x) now task = (_, Function.update s x _ x)
    rw [Function.update_self]

namespace Symbolic

theorem eq_key {k : Bytes} {a : UInt8} (h : owner k = some a) : k = key a := by
  cases k with
  | nil => cases h
  | cons b k =>
    unfold owner at h
    dsimp only at h
    split_ifs at h with h_key
    obtain rfl := Option.some.inj h
    exact h_key

/-- A pending handshake names the two parties. -/
theorem pending {localPriv remotePub msg : Bytes} {hs : Handshake}
    (h : symbolic.Pending localPriv remotePub msg hs) :
    ∃ a b e, localPriv = key a ∧ remotePub = key b ∧ hs = .pending a b e := by
  obtain ⟨_, eph, h_build, h_write⟩ := h.wrote restores
  obtain ⟨a, ha, h_build⟩ := Option.bind_eq_some_iff.mp h_build
  obtain ⟨b, hb, h_build⟩ := Option.bind_eq_some_iff.mp h_build
  obtain rfl := Option.some.inj h_build
  obtain ⟨-, rfl⟩ := Prod.mk.inj (Option.some.inj h_write)
  exact ⟨a, b, eph, eq_key ha, eq_key hb, rfl⟩

theorem completes : symbolic.Completes := by
  intro localPriv remotePub msg hs m hs' h_pending h_read
  obtain ⟨a, b, e, -, -, rfl⟩ := pending h_pending
  change readHandshake (.pending a b e) m = (true, hs') at h_read
  rcases readHandshake_cases (.pending a b e) m with h_eq | ⟨_, _, _, _, -, -, h_eq⟩ |
    ⟨_, _, _, h_eq, -⟩
  · rw [h_eq] at h_read
    cases h_read
  · rw [h_eq] at h_read
    obtain ⟨-, rfl⟩ := Prod.mk.inj h_read
    rfl
  · cases h_eq

/-- The party whose end it is. -/
def Transport.own (t : Transport) : UInt8 := if t.initiator then t.a else t.b

/-- The other party. -/
def Transport.other (t : Transport) : UInt8 := if t.initiator then t.b else t.a

/-- A session names the two parties, and its side. -/
theorem made {localPriv remotePub : Bytes} {t : symbolic.Transport}
    (h : symbolic.Made localPriv remotePub t) :
    localPriv = key (Transport.own t) ∧ remotePub = key (Transport.other t) := by
  cases h with
  | responder payload hs eph msg t h_read h_write =>
    obtain ⟨_, h_build, h_read, h_remote⟩ := Snow.readInitiation_eq_some h_read
    obtain ⟨b, hb, rfl⟩ := Option.map_eq_some_iff.mp h_build
    change readHandshake (.responder b) (payload.take 96) = (true, hs) at h_read
    rcases readHandshake_cases (.responder b) (payload.take 96)
      with h_eq | ⟨_, _, _, _, h_eq, -⟩ | ⟨a, b', e, h_side, -, h_eq⟩
    · rw [h_eq] at h_read
      cases h_read
    · cases h_eq
    · cases h_side
      rw [h_eq] at h_read
      obtain ⟨-, rfl⟩ := Prod.mk.inj h_read
      obtain rfl := Option.some.inj h_remote
      obtain ⟨-, rfl⟩ := Prod.mk.inj (Option.some.inj h_write)
      exact ⟨eq_key hb, rfl⟩
  | initiator msg hs m hs' t h_pending h_read h_into =>
    obtain ⟨a, b, e, rfl, rfl, rfl⟩ := pending h_pending
    change readHandshake (.pending a b e) m = (true, hs') at h_read
    rcases readHandshake_cases (.pending a b e) m with h_eq | ⟨_, _, _, f, h_side, -, h_eq⟩ |
      ⟨_, _, _, h_eq, -⟩
    · rw [h_eq] at h_read
      cases h_read
    · cases h_side
      rw [h_eq] at h_read
      obtain ⟨-, rfl⟩ := Prod.mk.inj h_read
      obtain rfl := Option.some.inj h_into
      exact ⟨rfl, rfl⟩
    · cases h_eq

/-- Two ends of a symbolic session; a public key is its private key. -/
theorem symbolic_paired : symbolic.Paired (fun t t' : Transport => t' = t.flip) id where
  unique := by
    rintro t t₁ t₂ rfl rfl
    rfl
  opens := by
    rintro (t : Transport) t' rfl n plaintext ciphertext ⟨⟩
    refine readMessage_of_flip ?_ n plaintext
    cases t
    simp [Transport.flip]
  keys := by
    rintro k r (t : Transport) k' r' t' h h' rfl
    obtain ⟨rfl, rfl⟩ := made h
    obtain ⟨rfl, rfl⟩ := made h'
    -- the other end has the same parties, and the other side
    cases t with
    | mk initiator a b e f => cases initiator <;> exact ⟨rfl, rfl⟩

/-- The address of node `7`. -/
def nodeAddr : SocketAddr := .v4 (Ipv4Addr.ofOctets 10 0 0 1) 500

/-- What node `9` knows of node `7`. -/
def nodeSpec : ParsedPeer where
  pubkey := key 7
  endpoint := some nodeAddr
  allowedIps := [⟨Ipv4Addr.ofOctets 10 0 99 0, 24⟩]

def nodeText : Str := (List.replicate 32 ['0', '7']).flatten ++ ";10.0.0.1:500;10.0.99.0/24".toList

theorem parsePeerArg_nodeText : parsePeerArg nodeText = some nodeSpec := by decide +kernel

/-- Nodes `7` and `9`, which know each other. -/
def pair : Bool → PeerManager symbolic
  | false => node
  | true => PeerManager.new (key 9)
      [Peer.new nodeSpec.pubkey nodeSpec.endpoint nodeSpec.allowedIps 0] MagicConfig.default

theorem pair_initial : (overlay symbolic fun _ : Bool => false).init pair := by
  intro x
  cases x with
  | false => exact node_initial
  | true =>
    refine ⟨key 9, [nodeSpec], MagicConfig.default, 0, fun w hw => ?_, rfl⟩
    obtain rfl := List.mem_singleton.mp hw
    exact ⟨nodeText, parsePeerArg_nodeText⟩

/-- Node `9` dials node `7`, gets its response, and has a packet for it. -/
def introduced : List (Bool × DaemonLabel symbolic) × (Bool → PeerManager symbolic) :=
  runNodes pair (fun _ => false)
    [(true, 1, .timer fun _ => (draw 1, draw 1)),
      (false, 1, .udp (initiationPacket 1) peerAddr (draw 2)),
      (true, 1, .udp (MagicConfig.default.handshakeResp :: response 9 7 1 2) nodeAddr (draw 3)),
      (true, 2, .tun ipv4Packet paddedDraw)]

/-- The packet arrives, from an address nobody knows. -/
def courier : List (Bool × DaemonLabel symbolic) × (Bool → PeerManager symbolic) :=
  runNodes introduced.2 (fun _ => false)
    [(false, 3, .udp sealedPacket.packet nodeAddr (draw 5))]

theorem exec_courier :
    Exec (overlay symbolic fun _ => false) pair (introduced.1 ++ courier.1) courier.2 :=
  (exec_runNodes _ _ _).append (exec_runNodes _ _ _)

theorem tasks_courier : (introduced.1 ++ courier.1).map (fun l => (l.1, l.2.task)) =
    [(true, .timer fun _ => (draw 1, draw 1)),
      (false, .udp (initiationPacket 1) peerAddr (draw 2)),
      (true, .udp (MagicConfig.default.handshakeResp :: response 9 7 1 2) nodeAddr (draw 3)),
      (true, .tun ipv4Packet paddedDraw),
      (false, .udp sealedPacket.packet nodeAddr (draw 5))] := rfl

/-- The one packet that node `9` seals. -/
theorem sent_courier : ((introduced.1 ++ courier.1)[3]?.map fun l => (l.1, sentIn l.2.events)) =
    some (true, [sealedPacket]) := by
  decide +kernel

theorem installed_courier : installedIn (eventsAt false introduced.1) = [nodeEnd 1 2] := by
  decide +kernel

theorem noForgery_courier : NoForgery (fun t t' : Transport => t' = t.flip) id pair
    (introduced.1 ++ courier.1) := by
  intro i x y l payload t padded hi h_data h_installed h_made h_read
  have h_at : ((introduced.1 ++ courier.1).map fun l => (l.1, l.2.task))[i]? =
      some (x, l.task) := by
    rw [List.getElem?_map, hi]
    rfl
  rw [tasks_courier] at h_at
  have h_type : (pair x).magic = MagicConfig.default := by cases x <;> rfl
  rw [h_type] at h_data
  -- only the last label brings a data packet
  obtain ⟨-, -, h_brings⟩ := h_data
  rcases i with _ | _ | _ | _ | _ | i
  iterate 4
    · obtain ⟨-, h_task⟩ := Prod.mk.inj (Option.some.inj h_at)
      rw [← h_task] at h_brings
      obtain ⟨_, _, _, h, h_recv⟩ | ⟨_, _, h⟩ := h_brings <;> cases h <;>
        exact absurd (List.cons.inj h_recv).1 (by decide)
  · obtain ⟨rfl, h_task⟩ := Prod.mk.inj (Option.some.inj h_at)
    rw [← h_task] at h_brings
    obtain rfl : payload = sealedPacket.packet.tail := by
      have h_whole : recvFrom sealedPacket.packet = sealedPacket.packet := by decide +kernel
      obtain ⟨_, _, _, h, h_recv⟩ | ⟨_, _, h⟩ := h_brings <;> cases h
      exact congrArg List.tail (h_recv.symm.trans h_whole)
    -- the node has one session, and the packet was sealed for it
    have h_mem : t ∈ installedIn (eventsAt false introduced.1) := mem_installedIn.mpr h_installed
    rw [installed_courier] at h_mem
    obtain rfl := List.mem_singleton.mp h_mem
    obtain ⟨⟨z, l'⟩, hz, h_sent⟩ := Option.map_eq_some_iff.mp sent_courier
    obtain ⟨rfl, h_sent⟩ := Prod.mk.inj h_sent
    refine ⟨3, true, l', sealedPacket, by decide, hz, ?_, rfl, by decide +kernel, rfl⟩
    rw [h_sent]
    exact List.mem_singleton_self _
  · cases h_at

/-- What node `7` opens. -/
def openedCourier : Opened symbolic := ⟨ipv4Packet, nodeEnd 1 2, 0⟩

/-- The turn in which it does. -/
def lastTurn : DaemonLabel symbolic :=
  let task := .udp sealedPacket.packet nodeAddr (draw 5)
  ⟨3, task, ((introduced.2 false).step false 3 task).1⟩

theorem writes_courier : ∃ p, p.pubkey = key 9 ∧
    Writes (fun _ => false) pair (introduced.1 ++ courier.1) 4 false introduced.2 lastTurn p
      openedCourier := by
  obtain ⟨p, s, hp, h_admits⟩ := exists_admits (introduced.2 false) 0 sealedPacket.packet.tail
    (ipv4Packet ++ [0xAA, 0xBB]) 3 (by decide +kernel)
  have h_peer : (introduced.2 false).peers[0]?.map (fun p => (p.pubkey, p.active.map (·.state),
      p.allowedIps)) = some (key 9, some (nodeEnd 1 2), [⟨Ipv4Addr.ofOctets 10 0 99 0, 24⟩]) := by
    decide +kernel
  rw [hp] at h_peer
  obtain ⟨h_key, h_rest⟩ := Prod.mk.inj (Option.some.inj h_peer)
  obtain ⟨h_state, h_ips⟩ := Prod.mk.inj h_rest
  rw [show p.active = some s from h_admits.honours.1] at h_state
  obtain h_state : s.state = nodeEnd 1 2 := Option.some.inj h_state
  -- the address the packet comes from is one of the peer's
  have h_allows : p.Allows ipv4Packet := by
    refine ⟨Ipv4Addr.ofOctets 10 0 99 3, Ipv4Addr.ofOctets 10 0 99 3, by decide +kernel, ?_⟩
    rw [h_ips]
    decide +kernel
  have h_opened : openedIn lastTurn.events = [openedCourier] := by decide +kernel
  have h_before : Exec (overlay symbolic fun _ => false) pair introduced.1 introduced.2 :=
    exec_runNodes _ _ _
  refine ⟨p, h_key, rfl, h_before, List.mem_of_getElem? hp, ?_, ?_, by decide +kernel⟩
  · refine ⟨sealedPacket.packet.tail,
      ⟨by decide, by decide, Or.inl ⟨nodeAddr, draw 5, _, rfl, by decide +kernel⟩⟩,
      .active, s, _, h_admits, ?_, h_allows⟩
    rw [h_state]
    decide +kernel
  · apply mem_openedIn.mp
    rw [h_opened]
    exact List.mem_singleton_self _

end Symbolic

open Symbolic in
/-- Node `7` writes the packet, which node `9` read and sent to it. -/
theorem overlay_secure_courier : ∃ p j z q packet,
    Carries (fun t t' : Transport => t' = t.flip) (fun _ => false) pair
      (introduced.1 ++ courier.1) 4 j false z p q openedCourier packet ∧
    p.pubkey = key 9 ∧ p.pubkey = (pair z).localPriv ∧ q.pubkey = key 7 ∧
    (Framed packet → openedCourier.plaintext = packet) := by
  obtain ⟨p, h_key, h_writes⟩ := writes_courier
  obtain ⟨-, h_origin, -⟩ := overlay_secure symbolic_paired completes pair_initial exec_courier
    (by decide +kernel) noForgery_courier
  obtain ⟨j, z, q, packet, h_carries, h_from, h_to, -, h_framed⟩ :=
    h_origin 4 false introduced.2 lastTurn p openedCourier h_writes ⟨true, h_key⟩
  exact ⟨p, j, z, q, packet, h_carries, h_key, h_from, h_to, h_framed⟩

end AraxMesh
