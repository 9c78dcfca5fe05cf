import AraxMesh.Lib.RateLimit
import AraxMesh.Relay
import AraxMesh.Session
import Mathlib.Algebra.BigOperators.Group.List.Basic

/-!
# The uplink to the relay

`spawn_relay_task` (`daemon.rs`) keeps one connection to the relay up for as long as the daemon
runs, and what the other tasks send through the relay goes through it: from their channel of 128
packets through the hand of the forwarder into the connection's channel of 64, and from there to the
TX loop of `RelayClient::connect`, which writes it. After a connection that could not be made or
that has ended, the task waits for as long as `Backoff` says.

* `uplink_carries` — what is written is what was sent, in order and without repetition, and the
  packets that are missing are those that were on their way in a connection that ended;
* `uplink_retries` — how long the task waits before it connects again, how often it can connect, and
  that it never gives up.

The steps of the forwarder, of the connection and of the senders are interleaved in any order. The
clock is part of the label. The other direction, from the connection to the dispatcher, has no state
of the task's own.
-/

namespace AraxMesh

open LTS RateLimit

/-! ### Backoff -/

/-- `Backoff`: the next delay, in nanoseconds, and the longest one. -/
structure Backoff where
  current : ℕ
  max : ℕ
deriving DecidableEq

namespace Backoff

/-- `Backoff::INITIAL`: a second. -/
def initialDelay : ℕ := 1000000000

/-- `Backoff::MAX`. -/
def maxDelay : ℕ := 30 * initialDelay

/-- `Backoff::new`. -/
def new : Backoff := ⟨initialDelay, maxDelay⟩

def reset (b : Backoff) : Backoff := { b with current := initialDelay }

/-- The most jitter there can be: a quarter of the delay, in milliseconds. -/
def maxJitter (b : Backoff) : ℕ := b.current / 1000000 / 4

/-- `advance`, with the jitter that is drawn: how long to wait, and the delay for next time. -/
def advance (b : Backoff) (jitter : ℕ) : ℕ × Backoff :=
  (b.current + jitter * 1000000, { b with current := min (b.current * 2) b.max })

/-- The delay after `n` failures in a row. -/
def delay (n : ℕ) : ℕ := min (2 ^ n * initialDelay) maxDelay

theorem delay_zero : delay 0 = initialDelay := by
  unfold delay maxDelay
  omega

theorem delay_succ (n : ℕ) : min (delay n * 2) maxDelay = delay (n + 1) := by
  unfold delay
  rw [pow_succ, Nat.mul_right_comm]
  omega

theorem delay_mono {m n : ℕ} (h : m ≤ n) : delay m ≤ delay n := by
  have h_pow : 2 ^ m * initialDelay ≤ 2 ^ n * initialDelay :=
    Nat.mul_le_mul_right _ (Nat.pow_le_pow_right (by omega) h)
  unfold delay
  omega

/-- The backoff after `n` failures in a row. -/
def Counts (b : Backoff) (n : ℕ) : Prop := b.max = maxDelay ∧ b.current = delay n

theorem Counts.advance {b : Backoff} {n : ℕ} (h : b.Counts n) (jitter : ℕ) :
    (b.advance jitter).2.Counts (n + 1) := by
  refine ⟨h.1, ?_⟩
  show min (b.current * 2) b.max = delay (n + 1)
  rw [h.1, h.2, delay_succ]

/-- The wait is the delay, and at most a quarter more. -/
theorem Counts.wait {b : Backoff} {n jitter : ℕ} (h : b.Counts n)
    (h_jitter : jitter ≤ b.maxJitter) :
    delay n ≤ (b.advance jitter).1 ∧ (b.advance jitter).1 ≤ delay n + delay n / 4 := by
  unfold maxJitter at h_jitter
  rw [Backoff.advance, h.2] at *
  dsimp only
  omega

end Backoff

/-! ### The task and its connection -/

/-- The connection as the task sees it: the channel to its TX loop, and the packet the loop is
writing. -/
structure UplinkConn where
  channel : List RelayPacket
  writing : Option RelayPacket
deriving DecidableEq

/-- Where the task is. -/
inductive UplinkPhase
  | connecting
  /-- It has a connection, or had it until a moment ago, and runs the two forwarders. -/
  | running
  /-- It waits before it connects again. -/
  | waiting (since : Instant) (delay : ℕ)
  /-- It was cancelled. -/
  | stopped
deriving DecidableEq

/-- The relay task, with the channel the other tasks send to. -/
structure Uplink where
  queue : List RelayPacket
  /-- What the forwarder has taken from the channel, and has not handed on. -/
  hand : Option RelayPacket
  /-- The connection, while its task runs. -/
  conn : Option UplinkConn
  phase : UplinkPhase
  backoff : Backoff
deriving DecidableEq

inductive UplinkLabel
  /-- A task sends a packet through the relay. -/
  | queued (p : RelayPacket)
  | established
  | refused (now : Instant) (jitter : ℕ)
  | taken
  | handed
  /-- The TX loop takes a packet from its channel, and has written it. -/
  | begun
  | written (p : RelayPacket)
  /-- The connection's task is over, and what was in its channel with it. -/
  | ended
  /-- The task finds that the connection is over. -/
  | dropped (now : Instant) (jitter : ℕ)
  | resumed (now : Instant)
  | cancelled
deriving DecidableEq

namespace Uplink

/-- What each step needs. -/
def Enabled (s : Uplink) : UplinkLabel → Prop
  | .queued _ => s.phase ≠ .stopped ∧ s.queue.length < 128
  | .established => s.phase = .connecting
  | .refused _ jitter => s.phase = .connecting ∧ jitter ≤ s.backoff.maxJitter
  | .taken => s.phase = .running ∧ s.hand = none ∧ s.queue ≠ []
  | .handed => s.phase = .running ∧ s.hand.isSome ∧ s.conn.any (·.channel.length < 64)
  | .begun => s.conn.any fun k => k.writing.isNone && k.channel ≠ []
  | .written p => s.conn.any (·.writing = some p)
  | .ended => s.conn.isSome
  | .dropped _ jitter => s.phase = .running ∧ s.conn = none ∧ jitter ≤ s.backoff.maxJitter
  | .resumed now =>
    match s.phase with
    | .waiting since delay => since + delay ≤ now
    | _ => False
  | .cancelled => s.phase ≠ .stopped

instance (s : Uplink) (l : UplinkLabel) : Decidable (s.Enabled l) := by
  cases l <;> unfold Enabled <;> first | infer_instance | (dsimp only; split <;> infer_instance)

/-- `backoff.wait()`. -/
def pause (s : Uplink) (now : Instant) (jitter : ℕ) : Uplink :=
  { s with
    phase := .waiting now (s.backoff.advance jitter).1
    backoff := (s.backoff.advance jitter).2 }

/-- What each step does. -/
def after (s : Uplink) : UplinkLabel → Uplink
  | .queued p => { s with queue := s.queue ++ [p] }
  | .established =>
    { s with phase := .running, conn := some ⟨[], none⟩, backoff := s.backoff.reset }
  | .refused now jitter => s.pause now jitter
  | .taken => { s with hand := s.queue.head?, queue := s.queue.tail }
  | .handed =>
    { s with
      hand := none
      conn := s.conn.map fun k => { k with channel := k.channel ++ s.hand.toList } }
  | .begun =>
    { s with conn := s.conn.map fun k => { channel := k.channel.tail, writing := k.channel.head? } }
  | .written _ => { s with conn := s.conn.map fun k => { k with writing := none } }
  | .ended => { s with conn := none }
  -- what the forwarder still had is dropped with it
  | .dropped now jitter => { s.pause now jitter with hand := none }
  | .resumed _ => { s with phase := .connecting }
  -- the receiver of the channel is dropped, but a connection goes on until its channel is empty
  | .cancelled => { s with phase := .stopped, hand := none, queue := [] }

/-- The task as it is spawned. -/
def start : Uplink := ⟨[], none, none, .connecting, Backoff.new⟩

end Uplink

/-- The relay task, from its spawning on. -/
def uplink : System Uplink UplinkLabel where
  init s := s = Uplink.start
  step s l s' := s.Enabled l ∧ s.after l = s'

/-! ### Packets -/

namespace UplinkLabel

/-- What a step puts into the channel of the task. -/
def sent : UplinkLabel → List RelayPacket
  | .queued p => [p]
  | _ => []

/-- What a step has written to the connection. -/
def carried : UplinkLabel → List RelayPacket
  | .written p => [p]
  | _ => []

/-- How many packets a step loses at most: those in the channel of a connection and the one it is
writing, the one in the forwarder's hand, and in the end the whole channel of the task. -/
def loss : UplinkLabel → ℕ
  | .ended => 65
  | .dropped .. => 1
  | .cancelled => 129
  | _ => 0

end UplinkLabel

namespace Uplink

/-- The packets on their way, the oldest first. -/
def pending (s : Uplink) : List RelayPacket :=
  (s.conn.elim [] fun k => k.writing.toList ++ k.channel) ++ s.hand.toList ++ s.queue

/-- The channels have their bounds, and there is no connection before it is made. -/
structure Sound (s : Uplink) : Prop where
  queue : s.queue.length ≤ 128
  channel : ∀ k, s.conn = some k → k.channel.length ≤ 64
  detached : s.phase ≠ .running → s.phase ≠ .stopped → s.conn = none ∧ s.hand = none

variable {s : Uplink} {l : UplinkLabel}

theorem Sound.start : start.Sound := ⟨by decide, nofun, fun _ _ => ⟨rfl, rfl⟩⟩

/-- **A step keeps the bounds.** -/
theorem Sound.after (h : s.Sound) (h_on : s.Enabled l) : (s.after l).Sound := by
  cases l with
  | queued p =>
    refine ⟨?_, h.channel, h.detached⟩
    have h_room : s.queue.length < 128 := h_on.2
    rw [Uplink.after, List.length_append, List.length_singleton]
    omega
  | established =>
    refine ⟨h.queue, ?_, fun h_phase => absurd rfl h_phase⟩
    rintro k ⟨⟩
    exact Nat.zero_le _
  | refused now jitter =>
    have h_phase : s.phase = .connecting := h_on.1
    exact ⟨h.queue, h.channel, fun _ _ => h.detached (by simp [h_phase]) (by simp [h_phase])⟩
  | taken =>
    have h_phase : s.phase = .running := h_on.1
    refine ⟨?_, h.channel, fun h_not => absurd h_phase h_not⟩
    have h_tail : s.queue.tail.length ≤ s.queue.length := by simp
    exact h_tail.trans h.queue
  | handed =>
    have h_phase : s.phase = .running := h_on.1
    refine ⟨h.queue, ?_, fun h_not => absurd h_phase h_not⟩
    intro k hk
    obtain ⟨k₀, hk₀, rfl⟩ := Option.map_eq_some_iff.mp hk
    -- there was room for the packet in the hand
    have h_room : k₀.channel.length < 64 := by simpa [hk₀] using h_on.2.2
    have h_one : s.hand.toList.length ≤ 1 := by cases s.hand <;> simp
    rw [List.length_append]
    omega
  | begun =>
    refine ⟨h.queue, ?_, fun h_run h_stop => ?_⟩
    · intro k hk
      obtain ⟨k₀, hk₀, rfl⟩ := Option.map_eq_some_iff.mp hk
      have h_tail : k₀.channel.tail.length ≤ k₀.channel.length := by simp
      exact h_tail.trans (h.channel k₀ hk₀)
    · obtain ⟨h_conn, h_hand⟩ := h.detached h_run h_stop
      exact ⟨by rw [Uplink.after, h_conn]; rfl, h_hand⟩
  | written p =>
    refine ⟨h.queue, ?_, fun h_run h_stop => ?_⟩
    · intro k hk
      obtain ⟨k₀, hk₀, rfl⟩ := Option.map_eq_some_iff.mp hk
      exact h.channel k₀ hk₀
    · obtain ⟨h_conn, h_hand⟩ := h.detached h_run h_stop
      exact ⟨by rw [Uplink.after, h_conn]; rfl, h_hand⟩
  | ended => exact ⟨h.queue, nofun, fun h_run h_stop => ⟨rfl, (h.detached h_run h_stop).2⟩⟩
  | dropped now jitter =>
    have h_conn : s.conn = none := h_on.2.1
    exact ⟨h.queue, h.channel, fun _ _ => ⟨h_conn, rfl⟩⟩
  | resumed now =>
    have h_waits : ∃ since delay, s.phase = .waiting since delay := by
      unfold Enabled at h_on
      dsimp only at h_on
      split at h_on
      · next since delay h_phase => exact ⟨since, delay, h_phase⟩
      · cases h_on
    obtain ⟨since, delay, h_phase⟩ := h_waits
    exact ⟨h.queue, h.channel, fun _ _ => h.detached (by simp [h_phase]) (by simp [h_phase])⟩
  | cancelled => exact ⟨Nat.zero_le _, h.channel, fun _ h_stop => absurd rfl h_stop⟩

/-- A list that loses a few elements at its front. -/
theorem kept_of_front (lost : List RelayPacket) {old kept : List RelayPacket} {n : ℕ}
    (h : old = lost ++ kept) (h_lost : lost.length ≤ n) :
    kept.Sublist old ∧ old.length ≤ kept.length + n := by
  subst h
  refine ⟨List.sublist_append_right _ _, ?_⟩
  rw [List.length_append]
  omega

/-- A list that loses a few elements at its back. -/
theorem kept_of_back (lost : List RelayPacket) {old kept : List RelayPacket} {n : ℕ}
    (h : old = kept ++ lost) (h_lost : lost.length ≤ n) :
    kept.Sublist old ∧ old.length ≤ kept.length + n := by
  subst h
  refine ⟨List.sublist_append_left _ _, ?_⟩
  rw [List.length_append]
  omega

/-- Nothing is lost by a step, and nothing comes of it, but what it sends and writes. -/
theorem Sound.pending_after (h : s.Sound) (h_on : s.Enabled l) :
    (l.carried ++ (s.after l).pending).Sublist (s.pending ++ l.sent) ∧
      (s.pending ++ l.sent).length ≤ (l.carried ++ (s.after l).pending).length + l.loss := by
  have h_same : l.carried ++ (s.after l).pending = s.pending ++ l.sent →
      (l.carried ++ (s.after l).pending).Sublist (s.pending ++ l.sent) ∧
        (s.pending ++ l.sent).length ≤ (l.carried ++ (s.after l).pending).length + l.loss :=
    fun h_eq => kept_of_front [] h_eq.symm (Nat.zero_le _)
  have h_hand : s.hand.toList.length ≤ 1 := by cases s.hand <;> simp
  cases l with
  | queued p =>
    exact h_same (by simp [UplinkLabel.carried, UplinkLabel.sent, pending, Uplink.after])
  | established =>
    have h_phase : s.phase = .connecting := h_on
    obtain ⟨h_conn, -⟩ := h.detached (by simp [h_phase]) (by simp [h_phase])
    refine h_same ?_
    simp [UplinkLabel.carried, UplinkLabel.sent, pending, Uplink.after, h_conn]
  | refused now jitter =>
    exact h_same (by simp [UplinkLabel.carried, UplinkLabel.sent, pending, Uplink.after, pause])
  | taken =>
    -- the first of the queue goes to the hand
    obtain ⟨-, h_free, h_queue⟩ := h_on
    obtain ⟨p, ps, h_cons⟩ := List.exists_cons_of_ne_nil h_queue
    refine h_same ?_
    simp [UplinkLabel.carried, UplinkLabel.sent, pending, Uplink.after, h_free, h_cons]
  | handed =>
    -- the hand goes to the channel of the connection
    obtain ⟨-, -, h_room⟩ := h_on
    obtain ⟨k, hk, -⟩ := Option.any_eq_true _ _ |>.mp h_room
    refine h_same ?_
    simp [UplinkLabel.carried, UplinkLabel.sent, pending, Uplink.after, hk]
  | begun =>
    -- the first of the channel is being written
    obtain ⟨k, hk, h_next⟩ := Option.any_eq_true _ _ |>.mp h_on
    obtain ⟨h_idle, h_some⟩ : k.writing = none ∧ k.channel ≠ [] := by simpa using h_next
    obtain ⟨p, ps, h_cons⟩ := List.exists_cons_of_ne_nil h_some
    refine h_same ?_
    simp [UplinkLabel.carried, UplinkLabel.sent, pending, Uplink.after, hk, h_idle, h_cons]
  | written p =>
    obtain ⟨k, hk, h_done⟩ := Option.any_eq_true _ _ |>.mp h_on
    obtain h_done : k.writing = some p := by simpa using h_done
    refine h_same ?_
    simp [UplinkLabel.carried, UplinkLabel.sent, pending, Uplink.after, hk, h_done]
  | ended =>
    -- a connection loses what it holds, which is older than all the rest
    obtain ⟨k, hk⟩ := Option.isSome_iff_exists.mp h_on
    refine kept_of_front (k.writing.toList ++ k.channel) ?_ ?_
    · simp [UplinkLabel.carried, UplinkLabel.sent, pending, Uplink.after, hk]
    · have h_channel := h.channel k hk
      have h_one : k.writing.toList.length ≤ 1 := by cases k.writing <;> simp
      rw [UplinkLabel.loss, List.length_append]
      omega
  | dropped now jitter =>
    -- without a connection the hand is the oldest
    obtain ⟨-, h_conn, -⟩ := h_on
    refine kept_of_front s.hand.toList ?_ h_hand
    simp [UplinkLabel.carried, UplinkLabel.sent, pending, Uplink.after, pause, h_conn]
  | resumed now =>
    exact h_same (by simp [UplinkLabel.carried, UplinkLabel.sent, pending, Uplink.after])
  | cancelled =>
    -- a connection writes on what it holds
    have h_queue := h.queue
    refine kept_of_back (s.hand.toList ++ s.queue) ?_ ?_
    · simp [UplinkLabel.carried, UplinkLabel.sent, pending, Uplink.after]
    · rw [UplinkLabel.loss, List.length_append]
      omega

end Uplink

section Runs

variable {s₀ s : Uplink} {ls : List UplinkLabel}

theorem sound_of_exec (h_init : uplink.init s₀) (h_run : Exec uplink s₀ ls s) : s.Sound := by
  obtain rfl : s₀ = Uplink.start := h_init
  exact h_run.invariant Uplink.Sound .start fun _ _ _ h ⟨h_on, h_eq⟩ => h_eq ▸ h.after h_on

theorem Uplink.Sound.length_pending (h : s.Sound) : s.pending.length ≤ 194 := by
  have h_queue := h.queue
  have h_hand : s.hand.toList.length ≤ 1 := by cases s.hand <;> simp
  have h_conn : (s.conn.elim [] fun k => k.writing.toList ++ k.channel).length ≤ 65 := by
    cases hk : s.conn with
    | none => simp
    | some k =>
      have h_channel := h.channel k hk
      have h_writing : k.writing.toList.length ≤ 1 := by cases k.writing <;> simp
      show (k.writing.toList ++ k.channel).length ≤ 65
      rw [List.length_append]
      omega
  simp only [Uplink.pending, List.length_append]
  omega

/-- **The uplink carries what is sent.** In every run of the relay task, with whatever happens to
its connections:

* the packets that are written, and after them those on their way, are packets that were sent, in
  the order in which they were sent, and none twice;
* what is missing was lost with a connection, at most 66 packets with each, or when the task was
  cancelled; nothing is missing from a run without either;
* never more than 194 packets are on their way. -/
theorem uplink_carries (h_init : uplink.init s₀) (h_run : Exec uplink s₀ ls s) :
    (ls.flatMap UplinkLabel.carried ++ s.pending).Sublist (ls.flatMap UplinkLabel.sent) ∧
    (ls.flatMap UplinkLabel.sent).length ≤
      (ls.flatMap UplinkLabel.carried ++ s.pending).length + (ls.map UplinkLabel.loss).sum ∧
    ((∀ l ∈ ls, l.loss = 0) →
      ls.flatMap UplinkLabel.carried ++ s.pending = ls.flatMap UplinkLabel.sent) ∧
    s.pending.length ≤ 194 := by
  have h_both : (ls.flatMap UplinkLabel.carried ++ s.pending).Sublist
      (ls.flatMap UplinkLabel.sent) ∧ (ls.flatMap UplinkLabel.sent).length ≤
        (ls.flatMap UplinkLabel.carried ++ s.pending).length + (ls.map UplinkLabel.loss).sum := by
    refine h_run.induct (fun ls s => (ls.flatMap UplinkLabel.carried ++ s.pending).Sublist
      (ls.flatMap UplinkLabel.sent) ∧ (ls.flatMap UplinkLabel.sent).length ≤
        (ls.flatMap UplinkLabel.carried ++ s.pending).length +
          (ls.map UplinkLabel.loss).sum) ?_ ?_
    · obtain rfl : s₀ = Uplink.start := h_init
      exact ⟨.refl _, Nat.le_refl _⟩
    · rintro ls s l s' h_before ⟨h_sub, h_len⟩ ⟨h_on, rfl⟩
      obtain ⟨h_step, h_loss⟩ := (sound_of_exec h_init h_before).pending_after h_on
      -- what the step adds comes after everything before it
      have h_sub' := (h_step.append_left (ls.flatMap UplinkLabel.carried)).trans
        (List.append_assoc .. ▸ h_sub.append_right l.sent)
      simp only [List.flatMap_append, List.flatMap_singleton, List.map_append, List.map_singleton,
        List.sum_append, List.sum_singleton, List.append_assoc, List.length_append] at *
      exact ⟨h_sub', by omega⟩
  refine ⟨h_both.1, h_both.2, fun h_kept => ?_, (sound_of_exec h_init h_run).length_pending⟩
  -- a sublist of the same length
  have h_none : (ls.map UplinkLabel.loss).sum = 0 := by
    refine List.sum_eq_zero fun n hn => ?_
    obtain ⟨l, hl, rfl⟩ := List.mem_map.mp hn
    exact h_kept l hl
  exact h_both.1.eq_of_length_le (by have := h_both.2; omega)

end Runs

/-! ### Attempts -/

namespace UplinkLabel

/-- The time of a step that has one. -/
def time : UplinkLabel → Option Instant
  | .refused now _ => some now
  | .dropped now _ => some now
  | .resumed now => some now
  | _ => none

/-- The task begins to wait. -/
def Pauses (since : Instant) : UplinkLabel → Prop
  | .refused now _ => now = since
  | .dropped now _ => now = since
  | _ => False

/-- When the task connects again. -/
def resumedAt : UplinkLabel → Option Instant
  | .resumed now => some now
  | _ => none

/-- Connections that failed since there was one, after one more step. -/
def count (n : ℕ) : UplinkLabel → ℕ
  | .established => 0
  | .refused .. => n + 1
  | .dropped .. => n + 1
  | _ => n

end UplinkLabel

/-- How often in a row it failed: connections that were refused, and one that has ended. -/
def failures (ls : List UplinkLabel) : ℕ := ls.foldl UplinkLabel.count 0

@[simp] theorem failures_append (ls : List UplinkLabel) (l : UplinkLabel) :
    failures (ls ++ [l]) = l.count (failures ls) := by simp [failures]

/-- The wait goes back to a failure, and is as long as there were failures before it. -/
def Waits (ls : List UplinkLabel) (since : Instant) (delay : ℕ) : Prop :=
  ∃ pre l mid, ls = pre ++ l :: mid ∧ l.Pauses since ∧ (∀ m ∈ mid, m.time = none) ∧
    Backoff.delay (failures pre) ≤ delay ∧
      delay ≤ Backoff.delay (failures pre) + Backoff.delay (failures pre) / 4

/-- The backoff counts the failures of the history, and a wait is one that the history asks for. -/
structure Uplink.Paced (ls : List UplinkLabel) (s : Uplink) : Prop where
  backoff : s.backoff.Counts (failures ls)
  waits : ∀ since delay, s.phase = .waiting since delay → Waits ls since delay

theorem Waits.append {ls : List UplinkLabel} {since : Instant} {delay : ℕ} {l : UplinkLabel}
    (h : Waits ls since delay) (hl : l.time = none) : Waits (ls ++ [l]) since delay := by
  obtain ⟨pre, p, mid, rfl, h_pauses, h_mid, h_delay⟩ := h
  refine ⟨pre, p, mid ++ [l], by simp, h_pauses, fun m hm => ?_, h_delay⟩
  rcases List.mem_append.mp hm with hm | hm
  · exact h_mid m hm
  · rwa [List.mem_singleton.mp hm]

/-- A failure starts a wait. -/
theorem Uplink.Paced.pause {ls : List UplinkLabel} {s : Uplink} (h : s.Paced ls) {now : Instant}
    {jitter : ℕ} (h_jitter : jitter ≤ s.backoff.maxJitter) {l : UplinkLabel}
    (h_pauses : l.Pauses now) (h_count : ∀ n, l.count n = n + 1) {s' : Uplink}
    (h_phase : s'.phase = (s.pause now jitter).phase)
    (h_backoff : s'.backoff = (s.pause now jitter).backoff) : s'.Paced (ls ++ [l]) where
  backoff := by
    rw [h_backoff, failures_append, h_count]
    exact h.backoff.advance jitter
  waits since delay h_waits := by
    obtain ⟨rfl, rfl⟩ := UplinkPhase.waiting.inj (h_phase.symm.trans h_waits)
    exact ⟨ls, l, [], rfl, h_pauses, nofun, h.backoff.wait h_jitter⟩

/-- Any other step keeps the pace. -/
theorem Uplink.Paced.keep {ls : List UplinkLabel} {s s' : Uplink} (h : s.Paced ls) {l : UplinkLabel}
    (h_count : ∀ n, l.count n = n) (h_backoff : s'.backoff = s.backoff)
    (h_phase : ∀ since delay, s'.phase = .waiting since delay →
      s.phase = .waiting since delay ∧ l.time = none) : s'.Paced (ls ++ [l]) where
  backoff := by
    rw [h_backoff, failures_append, h_count]
    exact h.backoff
  waits since delay h_waits := by
    obtain ⟨h_was, h_time⟩ := h_phase since delay h_waits
    exact (h.waits since delay h_was).append h_time

theorem Uplink.Paced.after {ls : List UplinkLabel} {s : Uplink} (h : s.Paced ls) {l : UplinkLabel}
    (h_on : s.Enabled l) : (s.after l).Paced (ls ++ [l]) := by
  cases l with
  | established =>
    refine ⟨⟨h.backoff.1, ?_⟩, nofun⟩
    rw [failures_append]
    exact Backoff.delay_zero.symm
  | refused now jitter =>
    exact h.pause h_on.2 (show UplinkLabel.Pauses now (.refused now jitter) from rfl)
      (fun _ => rfl) rfl rfl
  | dropped now jitter =>
    exact h.pause h_on.2.2 (show UplinkLabel.Pauses now (.dropped now jitter) from rfl)
      (fun _ => rfl) rfl rfl
  | resumed now => exact h.keep (fun _ => rfl) rfl nofun
  | cancelled => exact h.keep (fun _ => rfl) rfl nofun
  | _ => exact h.keep (fun _ => rfl) rfl fun _ _ h_waits => ⟨h_waits, rfl⟩

section Retries

variable {s₀ s : Uplink} {ls : List UplinkLabel}

theorem paced_of_exec (h_init : uplink.init s₀) (h_run : Exec uplink s₀ ls s) : s.Paced ls := by
  obtain rfl : s₀ = Uplink.start := h_init
  exact h_run.induct (fun ls s => s.Paced ls) ⟨⟨rfl, rfl⟩, nofun⟩ fun _ _ _ _ _ h ⟨h_on, h_eq⟩ =>
    h_eq ▸ h.after h_on

theorem Uplink.waiting_of_resumed {now : Instant} (h : s.Enabled (.resumed now)) :
    ∃ since delay, s.phase = .waiting since delay ∧ since + delay ≤ now := by
  unfold Enabled at h
  dsimp only at h
  split at h
  · next since delay h_phase => exact ⟨since, delay, h_phase, h⟩
  · cases h

/-- The task connects again no sooner than the wait is over that its history asks for. -/
theorem waits_of_resumed (h_init : uplink.init s₀) {pre post : List UplinkLabel} {now : Instant}
    (h_run : Exec uplink s₀ (pre ++ .resumed now :: post) s) :
    ∃ since delay, Waits pre since delay ∧ since + delay ≤ now := by
  obtain ⟨u, h_pre, h_rest⟩ := h_run.split
  obtain ⟨v, ⟨h_on, -⟩, -⟩ := h_rest.cut_first
  obtain ⟨since, delay, h_phase, h_over⟩ := Uplink.waiting_of_resumed h_on
  exact ⟨since, delay, (paced_of_exec h_init h_pre).waits since delay h_phase, h_over⟩

/-- The attempts after the first, as passes of one key. -/
def attempts (ls : List UplinkLabel) : List (Pass Unit) :=
  (ls.filterMap UplinkLabel.resumedAt).map fun now => ((), now)

theorem attempts_append (ls ms : List UplinkLabel) :
    attempts (ls ++ ms) = attempts ls ++ attempts ms := by simp [attempts]

/-- An attempt is a step that has a time. -/
theorem mem_times_of_attempts {ls : List UplinkLabel} {p : Pass Unit} (h : p ∈ attempts ls) :
    ∃ l ∈ ls, l.time = some p.2 := by
  obtain ⟨now, h_now, rfl⟩ := List.mem_map.mp h
  obtain ⟨l, hl, h_at⟩ := List.mem_filterMap.mp h_now
  refine ⟨l, hl, ?_⟩
  cases l <;> cases h_at
  rfl

theorem UplinkLabel.Pauses.time {since : Instant} {l : UplinkLabel} (h : l.Pauses since) :
    l.time = some since := by
  cases l <;> first | exact congrArg some h | cases h

/-- **Attempts are spaced**, if the clock does not go back. -/
theorem spaced_attempts (h_init : uplink.init s₀) (h_run : Exec uplink s₀ ls s)
    (h_clock : (ls.filterMap UplinkLabel.time).Pairwise (· ≤ ·)) :
    Spaced Backoff.initialDelay (attempts ls) := by
  revert h_clock
  refine h_run.induct (fun ls _ => (ls.filterMap UplinkLabel.time).Pairwise (· ≤ ·) →
    Spaced Backoff.initialDelay (attempts ls)) (fun _ => List.Pairwise.nil) ?_
  intro ls u l v h_before ih h_step h_clock
  rw [List.filterMap_append, List.pairwise_append] at h_clock
  obtain ⟨h_clock, -, -⟩ := h_clock
  have h_spaced := ih h_clock
  cases h_at : l.resumedAt with
  | none => simpa [attempts, h_at] using h_spaced
  | some now =>
    obtain rfl : l = .resumed now := by
      cases l <;> cases h_at
      rfl
    -- an earlier attempt is before the failure, and the failure before the wait
    obtain ⟨since, delay, ⟨pre, p, mid, rfl, h_pauses, h_mid, h_ge, -⟩, h_over⟩ :=
      waits_of_resumed h_init (h_before.tail h_step)
    rw [attempts_append, Spaced, List.pairwise_append]
    refine ⟨h_spaced, List.pairwise_singleton _ _, ?_⟩
    rintro q hq q' hq' -
    obtain rfl := List.mem_singleton.mp hq'
    have h_first : Backoff.initialDelay ≤ delay := by
      rw [← Backoff.delay_zero]
      exact (Backoff.delay_mono (Nat.zero_le _)).trans h_ge
    have h_past : q.2 ≤ since := by
      obtain ⟨m, hm, h_time⟩ := mem_times_of_attempts hq
      rw [List.filterMap_append, List.pairwise_append] at h_clock
      rcases List.mem_append.mp hm with hm | hm
      · exact h_clock.2.2 q.2 (List.mem_filterMap.mpr ⟨m, hm, h_time⟩) since
          (List.mem_filterMap.mpr ⟨p, List.mem_cons_self, h_pauses.time⟩)
      · -- only the failure itself has a time
        rcases List.mem_cons.mp hm with rfl | hm
        · exact (Option.some.inj (h_time.symm.trans h_pauses.time)).le
        · exact absurd (h_time.symm.trans (h_mid m hm)) nofun
    exact (Nat.add_le_add h_past h_first).trans h_over

/-- A task that was not cancelled connects again, by steps that are always there to be taken. -/
theorem exists_attempt (h_phase : s.phase ≠ .stopped) :
    ∃ ms u, Exec uplink s ms u ∧ u.phase = .connecting := by
  have h_wait : ∀ {v since delay}, v.phase = .waiting since delay →
      ∃ u, Exec uplink v [.resumed (since + delay)] u ∧ u.phase = .connecting := by
    intro v since delay hv
    refine ⟨v.after (.resumed (since + delay)), Exec.single ⟨?_, rfl⟩, rfl⟩
    unfold Uplink.Enabled
    dsimp only
    rw [hv]
  have h_drop : ∀ {v}, v.phase = .running → v.conn = none →
      ∃ ms u, Exec uplink v ms u ∧ u.phase = .connecting := by
    intro v hv h_conn
    have h_on : v.Enabled (.dropped 0 0) := ⟨hv, h_conn, Nat.zero_le _⟩
    obtain ⟨u, h_exec, hu⟩ := h_wait (v := v.after (.dropped 0 0)) rfl
    exact ⟨_, u, Exec.head ⟨h_on, rfl⟩ h_exec, hu⟩
  cases h_at : s.phase with
  | connecting => exact ⟨[], s, Exec.refl, h_at⟩
  | waiting since delay =>
    obtain ⟨u, h_exec, hu⟩ := h_wait h_at
    exact ⟨_, u, h_exec, hu⟩
  | stopped => exact absurd h_at h_phase
  | running =>
    cases h_conn : s.conn with
    | none => exact h_drop h_at h_conn
    | some k =>
      -- the connection may end at any time
      have h_on : s.Enabled .ended := by
        show s.conn.isSome
        rw [h_conn]
        rfl
      obtain ⟨ms, u, h_exec, hu⟩ := h_drop (v := s.after .ended) h_at rfl
      exact ⟨_, u, Exec.head ⟨h_on, rfl⟩ h_exec, hu⟩

/-- **The uplink retries with backoff.** In every run of the relay task:

* it connects again no sooner after a failure than the delay for the failures there were in a row
  before that one, which doubles from one second to thirty, and it plans to wait no longer than a
  quarter more;
* if the clock does not go back, it connects again at most once a second, whatever the relay does;
* unless it is cancelled, it never gets to a state from which it cannot connect again. -/
theorem uplink_retries (h_init : uplink.init s₀) (h_run : Exec uplink s₀ ls s) :
    (∀ pre now post, ls = pre ++ .resumed now :: post →
      ∃ since delay, Waits pre since delay ∧ since + delay ≤ now) ∧
    ((ls.filterMap UplinkLabel.time).Pairwise (· ≤ ·) → ∀ a T,
      (window (attempts ls) () a T).length * Backoff.initialDelay < T + Backoff.initialDelay) ∧
    (s.phase ≠ .stopped → ∃ ms u, Exec uplink s ms u ∧ u.phase = .connecting) := by
  refine ⟨?_, fun h_clock a T => ?_, exists_attempt⟩
  · rintro pre now post rfl
    exact waits_of_resumed h_init h_run
  · exact (spaced_attempts h_init h_run h_clock).length_window (by decide) () a T

end Retries

/-! ### A connection that is lost -/

/-- The labels can be taken one after another. -/
def Uplink.Plays (s : Uplink) : List UplinkLabel → Prop
  | [] => True
  | l :: ls => s.Enabled l ∧ (s.after l).Plays ls

instance decidablePlays (s : Uplink) (ls : List UplinkLabel) : Decidable (s.Plays ls) :=
  match ls with
  | [] => isTrue trivial
  | l :: ls => @instDecidableAnd _ _ _ (decidablePlays (s.after l) ls)

theorem Uplink.exec_of_plays {s : Uplink} {ls : List UplinkLabel} (h : s.Plays ls) :
    Exec uplink s ls (ls.foldl Uplink.after s) := by
  induction ls generalizing s with
  | nil => exact Exec.refl
  | cons l ls ih => exact Exec.head ⟨h.1, rfl⟩ (ih h.2)

/-- A packet to nobody. -/
def numbered (b : UInt8) : RelayPacket := ⟨RelayKey.zero, [b]⟩

/-- The relay refuses once. Of four packets, the first is written, two are lost with the connection,
and the last is carried by the next one. -/
def lossyRun : List UplinkLabel :=
  [.queued (numbered 1), .refused 0 0, .queued (numbered 2), .resumed 1000000000, .established,
    .taken, .handed, .begun, .taken, .handed, .written (numbered 1), .queued (numbered 3),
    .taken, .ended, .queued (numbered 4), .dropped 1500000000 100, .resumed 2600000000,
    .established, .taken, .handed, .begun, .written (numbered 4)]

theorem plays_lossyRun : Uplink.start.Plays lossyRun := by decide

theorem uplink_carries_lossyRun :
    (lossyRun.flatMap UplinkLabel.sent).length ≤
      (lossyRun.flatMap UplinkLabel.carried ++
        (lossyRun.foldl Uplink.after Uplink.start).pending).length +
        (lossyRun.map UplinkLabel.loss).sum :=
  (uplink_carries rfl (Uplink.exec_of_plays plays_lossyRun)).2.1

example : lossyRun.flatMap UplinkLabel.carried = [numbered 1, numbered 4] := by decide

/-- The second connection comes a second after the first has ended. -/
theorem uplink_retries_lossyRun : ∃ since delay,
    Waits (lossyRun.take 16) since delay ∧ since + delay ≤ 2600000000 :=
  (uplink_retries rfl (Uplink.exec_of_plays plays_lossyRun)).1 _ _ (lossyRun.drop 17) rfl

end AraxMesh
