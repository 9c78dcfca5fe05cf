import AraxMesh.Desktop
import Mathlib.Data.Fintype.EquivFin

/-!
# Isolation of daemon instances

The lock makes sure that one `run_with_settings` is in progress at a time (`sole_of_reachable`), but
not that nothing of an earlier one is left. `isolated_iff` says exactly which completions are at
fault: those of an instance of which a task is still running, or a snapshot is still on its way.

In one direction, `Sole` and `Clean` are invariants. An instance that is not completed is the last
one, and of a completed one nothing is left, so what is live or may write a status is the last one.
In the other direction a completion that leaves something is followed by a run that shows it
(`exists_not_isolated`):

* if a task is left, the application is started again, on a device and a port of its own: with those
  of before, the new daemon finds them taken and does not come to run any task;
* if a snapshot is left, it is published, over the status that the completion handler has written.
-/

namespace AraxMesh

open LTS

/-! ### What is left of an instance -/

namespace Instance

/-- Nothing of the instance is left: no task runs, and no snapshot is on its way. -/
structure Quiet (d : Instance) : Prop where
  tasks : d.tasks = []
  helpers : d.helpers = []
  channel : d.reader = .waiting → d.channel = []
  reader : ∀ status, d.reader ≠ .holding status

/-- Quiet is more than not live: a snapshot may be on its way when all tasks have ended. -/
theorem not_live_of_quiet {d : Instance} (h : d.Quiet) : ¬ d.Live := by
  rintro (h_tasks | h_helpers)
  · exact h_tasks h.tasks
  · exact h_helpers h.helpers

/-- No step but the completion handler completes an instance. -/
theorem phase_act {d d' : Instance} {signalled blocked : Bool} {l : InstanceLabel}
    (h : d.act signalled blocked l = some d') : d'.phase = .completed ↔ d.phase = .completed := by
  -- each label either is refused or sets fields other than a completed phase
  cases l <;> simp only [act] at h <;> split at h <;> try split at h
  all_goals cases h
  all_goals simp_all

/-- **What is quiet stays quiet.** -/
theorem Quiet.act {d d' : Instance} {signalled blocked : Bool} {l : InstanceLabel} (hq : d.Quiet)
    (hc : d.phase = .completed) (h : d.act signalled blocked l = some d') : d'.Quiet := by
  cases l with
  | fail error | select task | shutdown =>
    -- `run_with_settings` has returned
    simp [Instance.act, hc] at h
  | setUp assignedIp =>
    simp only [Instance.act, hc] at h
    split at h <;> simp at h
  | tick metrics peers | spawn task | exit task why =>
    -- no task is left to take the step
    simp [Instance.act, hq.tasks] at h
  | send =>
    simp only [Instance.act, hq.tasks] at h
    split at h <;> simp at h
  | finish task => simp [Instance.act, hq.helpers] at h
  -- the channel is empty while the reader waits
  | receive =>
    simp only [Instance.act] at h
    split at h
    · split at h
      · rename_i h_channel h_waiting
        rw [hq.channel h_waiting] at h_channel
        cases h_channel
      · cases h
    · cases h
  | close =>
    simp only [Instance.act] at h
    split at h
    · cases h
      exact ⟨hq.tasks, hq.helpers, (nomatch ·), fun _ h => nomatch h⟩
    · cases h

end Instance

/-! ### The steps of the system -/

namespace Desktop

variable {host : Host} {s t : Desktop}

/-- The instance at a place, after one was set: it is that one, or one of before. -/
theorem mem_set {ds : List Instance} {i j : ℕ} {d e : Instance}
    (h : (ds.set i d)[j]? = some e) : j = i ∧ e = d ∨ j ≠ i ∧ ds[j]? = some e := by
  by_cases h_eq : j = i
  · -- the index is in range, or nothing would be there
    subst h_eq
    have h_lt : j < ds.length := by
      by_contra h_ge
      rw [List.getElem?_eq_none (by simpa using h_ge)] at h
      cases h
    rw [List.getElem?_set_self h_lt] at h
    exact Or.inl ⟨rfl, (Option.some.inj h).symm⟩
  · rw [List.getElem?_set_ne (Ne.symm h_eq)] at h
    exact Or.inr ⟨h_eq, h⟩

/-- A command that starts an instance finds none running. -/
theorem step_start {settings : FrontendSettings} (h : s.step host (.start settings) = some t) :
    t = s ∨ s.guard.running = false ∧ ∃ guard daemonSettings, guard.running = true ∧
      t = ⟨guard, s.instances ++ [.new daemonSettings]⟩ := by
  unfold step DaemonState.startVpn at h
  dsimp only at h
  by_cases h_running : s.guard.running = true
  · rw [if_pos h_running] at h
    exact Or.inl (Option.some.inj h).symm
  · rw [if_neg h_running] at h
    cases h_settings : toDaemonSettings settings with
    | error err =>
      rw [h_settings] at h
      exact Or.inl (Option.some.inj h).symm
    | ok daemonSettings =>
      rw [h_settings] at h
      exact Or.inr ⟨by simpa using h_running, _, daemonSettings, rfl, (Option.some.inj h).symm⟩

/-- Stopping sends the signal, and leaves the instance to act on it. -/
theorem step_stop (h : s.step host .stop = some t) :
    t.guard.running = s.guard.running ∧ t.instances = s.instances := by
  unfold step DaemonState.stopVpn at h
  dsimp only at h
  split at h <;> rename_i h_stop
  · split at h_stop
    · cases h_stop
    · split at h_stop
      · cases h_stop
        cases h
        exact ⟨rfl, rfl⟩
      · cases h_stop
  · cases h
    exact ⟨rfl, rfl⟩

/-- A step of an instance sees of the others only what they have open. -/
theorem step_act {i : ℕ} {l : InstanceLabel} : s.step host (.act i l) = some t ↔
    ∃ d d', s.instances[i]? = some d ∧
      d.act (s.guard.shutdownTx ≠ some i) (s.instances.any fun e => e.Blocks host d.settings) l
        = some d' ∧
      t = { s with instances := s.instances.set i d' } := by
  simp only [step, Option.bind_eq_bind, Option.bind_eq_some_iff, Option.some.injEq]
  constructor
  · rintro ⟨d, hd, d', hd', rfl⟩
    exact ⟨d, d', hd, hd', rfl⟩
  · rintro ⟨d, d', hd, hd', rfl⟩
    exact ⟨d, hd, d', hd', rfl⟩

/-- A status reader that has a snapshot writes it. Nothing in the code asks whose it is. -/
theorem step_publish {i : ℕ} : s.step host (.publish i) = some t ↔
    ∃ d status, s.instances[i]? = some d ∧ d.reader = .holding status ∧
      t = ⟨s.guard.publish status, s.instances.set i { d with reader := .waiting }⟩ := by
  simp only [step, Option.bind_eq_bind, Option.bind_eq_some_iff]
  constructor
  · rintro ⟨d, hd, h⟩
    split at h
    · exact ⟨d, _, hd, ‹_›, (Option.some.inj h).symm⟩
    · cases h
  · rintro ⟨d, status, hd, h_reader, rfl⟩
    refine ⟨d, hd, ?_⟩
    rw [h_reader]

/-- The completion handler runs when the function has returned, whatever its tasks do. -/
theorem step_complete {i : ℕ} : s.step host (.complete i) = some t ↔
    ∃ d error, s.instances[i]? = some d ∧ d.phase = .returned error ∧
      t = ⟨s.guard.complete error, s.instances.set i { d with phase := .completed }⟩ := by
  simp only [step, Option.bind_eq_bind, Option.bind_eq_some_iff]
  constructor
  · rintro ⟨d, hd, h⟩
    split at h
    · exact ⟨d, _, hd, ‹_›, (Option.some.inj h).symm⟩
    · cases h
  · rintro ⟨d, error, hd, h_phase, rfl⟩
    refine ⟨d, hd, ?_⟩
    rw [h_phase]

/-! ### One function in progress -/

/-- An instance that is not completed is the last, and the controller is running. -/
def Sole (s : Desktop) : Prop :=
  ∀ (i : ℕ) (d : Instance), s.instances[i]? = some d → d.phase ≠ .completed →
    s.guard.running = true ∧ i + 1 = s.instances.length

/-- **The lock works.** A start finds the controller idle, and a completion is that of the last
instance. -/
theorem Sole.step (h : s.Sole) {l : DesktopLabel} (h_step : s.step host l = some t) : t.Sole := by
  intro i d hd h_phase
  cases l with
  | start settings =>
    rcases step_start h_step with rfl | ⟨h_idle, guard, daemonSettings, h_running, rfl⟩
    · exact h i d hd h_phase
    · refine ⟨h_running, ?_⟩
      rw [List.length_append, List.length_singleton, Nat.add_right_cancel_iff]
      by_contra h_ne
      -- an older instance was completed, as the controller was idle
      have h_lt : i < s.instances.length := by
        obtain ⟨h_lt, -⟩ := List.getElem?_eq_some_iff.mp hd
        rw [List.length_append, List.length_singleton] at h_lt
        omega
      rw [List.getElem?_append_left h_lt] at hd
      exact absurd (h i d hd h_phase).1 (by simp [h_idle])
  | stop =>
    obtain ⟨h_running, h_instances⟩ := step_stop h_step
    rw [h_instances] at hd ⊢
    rw [h_running]
    exact h i d hd h_phase
  | status =>
    cases h_step
    exact h i d hd h_phase
  | act j l =>
    obtain ⟨e, e', he, h_act, rfl⟩ := step_act.mp h_step
    rw [List.length_set]
    rcases mem_set hd with ⟨rfl, rfl⟩ | ⟨-, hd⟩
    · -- a step of the instance itself does not undo its completion
      exact h i e he fun hc => h_phase ((Instance.phase_act h_act).mpr hc)
    · exact h i d hd h_phase
  | publish j =>
    obtain ⟨e, status, he, -, rfl⟩ := step_publish.mp h_step
    rw [List.length_set]
    rcases mem_set hd with ⟨rfl, rfl⟩ | ⟨-, hd⟩
    · exact h i e he h_phase
    · exact h i d hd h_phase
  | complete j =>
    obtain ⟨e, error, he, h_returned, rfl⟩ := step_complete.mp h_step
    rcases mem_set hd with ⟨rfl, rfl⟩ | ⟨h_ne, hd⟩
    · exact absurd rfl h_phase
    · -- the two would both be the last
      have hi := (h i d hd h_phase).2
      have hj := (h j e he (by rw [h_returned]; exact fun h => nomatch h)).2
      omega

/-! ### Isolation -/

/-- At most one instance has tasks that are still running, and a status is only overwritten by a
snapshot of the last instance, while it is running. -/
structure Isolated (host : Host) (s : Desktop) : Prop where
  one : ∀ (i j : ℕ) (d e : Instance), s.instances[i]? = some d → s.instances[j]? = some e →
    d.Live → e.Live → i = j
  status : ∀ i t, s.step host (.publish i) = some t →
    s.guard.running = true ∧ i + 1 = s.instances.length

/-- A completion handler runs when nothing of its instance is left. -/
def Settled (s : Desktop) : DesktopLabel → Prop
  | .complete i => ∀ d, s.instances[i]? = some d → d.Quiet
  | _ => True

/-- Nothing is left of the completed instances. -/
def Clean (s : Desktop) : Prop :=
  ∀ (i : ℕ) (d : Instance), s.instances[i]? = some d → d.phase = .completed → d.Quiet

/-- **The completed instances stay clean** if the completion is of one of which nothing is left. -/
theorem Clean.step (h : s.Clean) {l : DesktopLabel} (h_step : s.step host l = some t)
    (h_settled : s.Settled l) : t.Clean := by
  intro i d hd h_phase
  cases l with
  | start settings =>
    rcases step_start h_step with rfl | ⟨-, guard, daemonSettings, -, rfl⟩
    · exact h i d hd h_phase
    · by_cases h_lt : i < s.instances.length
      · rw [List.getElem?_append_left h_lt] at hd
        exact h i d hd h_phase
      · -- the new instance is not completed
        rw [List.getElem?_append_right (not_lt.mp h_lt)] at hd
        obtain rfl := List.mem_singleton.mp (List.mem_of_getElem? hd)
        cases h_phase
  | stop =>
    rw [(step_stop h_step).2] at hd
    exact h i d hd h_phase
  | status =>
    cases h_step
    exact h i d hd h_phase
  | act j l =>
    obtain ⟨e, e', he, h_act, rfl⟩ := step_act.mp h_step
    rcases mem_set hd with ⟨rfl, rfl⟩ | ⟨-, hd⟩
    · -- it was completed before the step, and quiet
      have hc := (Instance.phase_act h_act).mp h_phase
      exact (h i e he hc).act hc h_act
    · exact h i d hd h_phase
  | publish j =>
    obtain ⟨e, status, he, h_reader, rfl⟩ := step_publish.mp h_step
    rcases mem_set hd with ⟨rfl, rfl⟩ | ⟨-, hd⟩
    · -- a completed instance has nothing to publish
      exact absurd h_reader ((h i e he h_phase).reader status)
    · exact h i d hd h_phase
  | complete j =>
    obtain ⟨e, error, he, -, rfl⟩ := step_complete.mp h_step
    rcases mem_set hd with ⟨rfl, rfl⟩ | ⟨-, hd⟩
    · have hq := h_settled e he
      exact ⟨hq.tasks, hq.helpers, hq.channel, hq.reader⟩
    · exact h i d hd h_phase

/-- If nothing is left of the completed instances, the last one has the tasks and the snapshots. -/
theorem Isolated.of_clean (h_sole : s.Sole) (h : s.Clean) : s.Isolated host := by
  constructor
  · -- whoever has tasks is not completed, and only the last one is not
    intro i j d e hd he h_live h_live'
    have h_open : ∀ (k : ℕ) (f : Instance), s.instances[k]? = some f → f.Live →
        k + 1 = s.instances.length :=
      fun k f hf h_f => (h_sole k f hf fun hc => Instance.not_live_of_quiet (h k f hf hc) h_f).2
    exact Nat.add_right_cancel ((h_open i d hd h_live).trans (h_open j e he h_live').symm)
  · intro i t h_step
    obtain ⟨d, status, hd, h_reader, -⟩ := step_publish.mp h_step
    exact h_sole i d hd fun hc => (h i d hd hc).reader status h_reader

/-- An application that was just opened has no instance. -/
theorem sole_opened : opened.Sole := fun _ _ hd => nomatch hd

theorem clean_opened : opened.Clean := fun _ _ hd => nomatch hd

/-- What holds along a run whose completions find nothing left. -/
theorem clean_of_reachable (h : Reachable ((desktop host).restrict Settled) s) :
    s.Sole ∧ s.Clean := by
  refine h.invariant (fun s => s.Sole ∧ s.Clean) ?_ ?_
  · rintro s rfl
    exact ⟨sole_opened, clean_opened⟩
  · rintro s l t ⟨h_sole, h_clean⟩ ⟨h_step, h_settled⟩
    exact ⟨h_sole.step h_step, h_clean.step h_step h_settled⟩

/-! ### What goes wrong otherwise -/

end Desktop

/-- Settings with a key and an overlay address, for a daemon without a coordinator. -/
def plainSettings (tunName tunIp localUdp : Str) : FrontendSettings where
  privateKey := List.replicate 64 '1'
  tunName := some tunName
  tunIp := some tunIp
  tunNetmask := none
  localUdp := some localUdp
  coordinatorUrl := none
  authKey := none
  hostname := none
  publicEndpoint := none
  relayAddr := none
  peers := none
  magicHandshakeInit := none
  magicHandshakeResp := none
  magicData := none
  magicProbe := none

/-- The same, for the daemon. -/
def plainDaemon (tunName tunIp : Str) (localUdp : SocketAddr) : DaemonSettings where
  tunName := tunName
  tunIp := some tunIp
  tunNetmask := "255.255.255.0".toList
  localUdp := localUdp
  privateKeyHex := List.replicate 64 '1'
  peerSpecs := []
  coordinatorUrl := none
  relayAddr := none
  authKey := none
  hostname := none
  publicEndpoint := none
  magicHandshakeInit := 0x01
  magicHandshakeResp := 0x02
  magicData := 0x03
  magicProbe := 0x04

/-- The settings pass the checks of the frontend. -/
theorem toDaemonSettings_plain (tunName tunIp : Str) {text : Str} {localUdp : SocketAddr}
    (h_udp : parseSocketAddr text = some localUdp) :
    toDaemonSettings (plainSettings tunName tunIp text)
      = .ok (plainDaemon tunName tunIp localUdp) := by
  have h_key : ¬ (plainSettings tunName tunIp text).privateKey = [] := List.cons_ne_nil _ _
  unfold toDaemonSettings
  rw [if_neg h_key, show (plainSettings tunName tunIp text).localUdp.getD
    "0.0.0.0:50001".toList = text from rfl, h_udp]
  rfl

/-- They pass those of the daemon, too, and name the overlay address. -/
theorem resolve_plain (tunName tunIp : Str) (localUdp : SocketAddr) :
    (plainDaemon tunName tunIp localUdp).resolve [] = some tunIp := by
  have h_key : ((hexDecode (List.replicate 64 '1')).any (·.length = 32)) = true := by
    decide +kernel
  unfold DaemonSettings.resolve
  rw [show (plainDaemon tunName tunIp localUdp).privateKeyHex = List.replicate 64 '1' from rfl,
    if_pos h_key]
  rfl

namespace Desktop

variable {host : Host} {s t : Desktop}

/-- **A free device and a free port.** There is a name under which a new daemon on port 0 is not
kept from setting itself up, whatever the instances of before have open. -/
theorem exists_unblocked (h_host : host.Lawful) (instances : List Instance) (tunIp : Str) :
    ∃ name, ((instances ++ [Instance.new (plainDaemon name tunIp (.v4 0 0))]).any
      fun d => d.Blocks host (plainDaemon name tunIp (.v4 0 0))) = false := by
  obtain ⟨name, h_name⟩ := h_host.tun (instances.map (·.settings.tunName))
  refine ⟨name, ?_⟩
  rw [List.any_eq_false]
  intro d hd
  rw [decide_eq_true_eq]
  rintro (⟨h_holds, h_busy⟩ | ⟨-, h_busy⟩)
  · rcases List.mem_append.mp hd with hd | hd
    · exact Bool.false_ne_true ((h_name _ (List.mem_map_of_mem hd)).symm.trans h_busy)
    · -- the new instance has nothing open yet
      obtain rfl := List.mem_singleton.mp hd
      simp [Instance.HoldsTun, Instance.new] at h_holds
  · exact Bool.false_ne_true ((h_host.udp _).symm.trans h_busy)

/-- Nothing else keeps it from running its tasks. -/
theorem act_setUp_plain (tunName tunIp : Str) (localUdp : SocketAddr) (signalled : Bool) :
    (Instance.new (plainDaemon tunName tunIp localUdp)).act signalled false (.setUp []) =
      some { Instance.new (plainDaemon tunName tunIp localUdp) with
        phase := .selecting
        tunIp := tunIp
        tasks := (plainDaemon tunName tunIp localUdp).tasks } := by
  simp only [Instance.act]
  rw [show (Instance.new (plainDaemon tunName tunIp localUdp)).settings =
    plainDaemon tunName tunIp localUdp from rfl, resolve_plain]
  rfl

/-- An idle controller can start another instance, with its tasks. -/
theorem exists_second (h_host : host.Lawful) (h : s.guard.running = false) : ∃ ls u,
    Exec ((desktop host).restrict Settled) s ls u ∧
    (∀ (j : ℕ) (d : Instance), s.instances[j]? = some d → u.instances[j]? = some d) ∧
    ∃ e : Instance, u.instances[s.instances.length]? = some e ∧ e.Live := by
  obtain ⟨name, h_free⟩ := exists_unblocked h_host s.instances "10.0.99.2".toList
  let settings := plainSettings name "10.0.99.2".toList "0.0.0.0:0".toList
  let daemon := plainDaemon name "10.0.99.2".toList (.v4 0 0)
  have h_settings : toDaemonSettings settings = .ok daemon :=
    toDaemonSettings_plain name _ (by decide +kernel)
  -- `start_vpn` appends an instance, which sets itself up
  let v : Desktop := ⟨⟨some s.instances.length, some (.bare "Connecting".toList), true, none⟩,
    s.instances ++ [.new daemon]⟩
  have h_start : s.step host (.start settings) = some v := by
    unfold step DaemonState.startVpn
    dsimp only
    rw [h, if_neg Bool.false_ne_true, h_settings]
  have h_new : v.instances[s.instances.length]? = some (.new daemon) :=
    List.getElem?_concat_length
  let e : Instance := { Instance.new daemon with
    phase := .selecting, tunIp := "10.0.99.2".toList, tasks := daemon.tasks }
  have h_setUp : (Instance.new daemon).act (v.guard.shutdownTx ≠ some s.instances.length)
      (v.instances.any fun d => d.Blocks host daemon) (.setUp []) = some e := by
    rw [h_free]
    exact act_setUp_plain name _ _ _
  have h_second : v.step host (.act s.instances.length (.setUp [])) =
      some { v with instances := v.instances.set s.instances.length e } :=
    step_act.mpr ⟨_, e, h_new, h_setUp, rfl⟩
  have h_run : Exec ((desktop host).restrict Settled) s
      ([.start settings] ++ [.act s.instances.length (.setUp [])]) _ :=
    Exec.tail (Exec.single ⟨h_start, trivial⟩) ⟨h_second, trivial⟩
  refine ⟨_, _, h_run, ?_, e, ?_, ?_⟩
  · -- the instances of before are where they were
    intro j d hd
    have h_lt : j < s.instances.length := (List.getElem?_eq_some_iff.mp hd).1
    dsimp only
    rw [List.getElem?_set_ne h_lt.ne', List.getElem?_append_left h_lt, hd]
  · exact List.getElem?_set_self (List.getElem?_eq_some_iff.mp h_new).1
  · exact Or.inl (List.cons_ne_nil _ _)

/-- **Every completion that leaves something goes wrong**, at the next start or at once. -/
theorem exists_not_isolated (h_host : host.Lawful) {i : ℕ}
    (h_step : s.step host (.complete i) = some t) (h_settled : ¬ s.Settled (.complete i)) :
    ∃ ls u, Exec ((desktop host).restrict Settled) t ls u ∧ ¬ u.Isolated host := by
  obtain ⟨d, error, hd, h_returned, rfl⟩ := step_complete.mp h_step
  let d' : Instance := { d with phase := .completed }
  have hd' : (s.instances.set i d')[i]? = some d' :=
    List.getElem?_set_self (List.getElem?_eq_some_iff.mp hd).1
  have h_left : ¬ d.Quiet := fun hq => h_settled fun e he => by
    obtain rfl := Option.some.inj (hd.symm.trans he)
    exact hq
  by_cases h_live : d.Live
  · -- a task that is left runs beside those of the next instance
    obtain ⟨ls, u, h_run, h_kept, e, he, h_e⟩ :=
      exists_second (s := ⟨s.guard.complete error, s.instances.set i d'⟩) h_host rfl
    refine ⟨ls, u, h_run, fun h => ?_⟩
    have h_lt : i < (s.instances.set i d').length := (List.getElem?_eq_some_iff.mp hd').1
    exact h_lt.ne (h.one i _ d' e (h_kept i d' hd') he h_live h_e)
  by_cases h_reader : ∃ status, d.reader = .holding status
  · -- the reader waits for the lock
    obtain ⟨status, h_reader⟩ := h_reader
    refine ⟨[], _, Exec.refl, fun h => ?_⟩
    exact Bool.false_ne_true (h.status i _ (step_publish.mpr ⟨d', status, hd', h_reader, rfl⟩)).1
  · -- a snapshot waits in the channel
    have h_no_reader : ∀ status, d.reader ≠ .holding status := fun status h => h_reader ⟨status, h⟩
    have h_tasks : d.tasks = [] := by
      by_contra h
      exact h_live (Or.inl h)
    have h_helpers : d.helpers = [] := by
      by_contra h
      exact h_live (Or.inr h)
    have h_stuck : ¬ (d.reader = .waiting → d.channel = []) := fun h_channel =>
      h_left ⟨h_tasks, h_helpers, h_channel, h_no_reader⟩
    obtain ⟨h_waiting, h_channel⟩ := Classical.not_imp.mp h_stuck
    obtain ⟨status, channel, h_channel⟩ := List.exists_cons_of_ne_nil h_channel
    let e : Instance := { d' with channel := channel, reader := .holding status }
    have h_act (signalled blocked : Bool) : d'.act signalled blocked .receive = some e := by
      simp only [Instance.act, d', h_channel, h_waiting, if_true]
      rfl
    have h_receive : Desktop.step host ⟨s.guard.complete error, s.instances.set i d'⟩
        (.act i .receive) = some _ :=
      step_act.mpr ⟨d', e, hd', h_act _ _, rfl⟩
    have he : ((s.instances.set i d').set i e)[i]? = some e :=
      List.getElem?_set_self (List.getElem?_eq_some_iff.mp hd').1
    refine ⟨_, _, Exec.single ⟨h_receive, trivial⟩, fun h => ?_⟩
    exact Bool.false_ne_true (h.status i _ (step_publish.mpr ⟨e, status, he, rfl, rfl⟩)).1

/-- **When the controller isolates its instances.** In every run whose completion handlers run when
nothing of their instance is left, no two instances have tasks running and no status is overwritten
by an instance that has ended. A completion that leaves something is followed by a violation in some
run, even if from there on all completions leave nothing: where a task is left, one in which the
application is started again on another device and another port. -/
theorem isolated_iff (h_host : host.Lawful) (h : Reachable ((desktop host).restrict Settled) s) :
    s.Isolated host ∧ ∀ l t, (desktop host).step s l t → (s.Settled l ↔
      ∀ ls u, Exec ((desktop host).restrict Settled) t ls u → u.Isolated host) := by
  have h_isolated : ∀ {u}, Reachable ((desktop host).restrict Settled) u → u.Isolated host := by
    intro u hu
    obtain ⟨h_sole, h_clean⟩ := clean_of_reachable hu
    exact Isolated.of_clean h_sole h_clean
  refine ⟨h_isolated h, fun l t h_step => ⟨?_, ?_⟩⟩
  · intro h_settled ls u h_run
    exact h_isolated ((h.step (show ((desktop host).restrict Settled).step s l t from
      ⟨h_step, h_settled⟩)).exec h_run)
  · -- only a completion can be unsettled
    intro h_always
    by_contra h_settled
    cases l with
    | complete i =>
      obtain ⟨ls, u, h_run, h_not⟩ := exists_not_isolated h_host h_step h_settled
      exact h_not (h_always ls u h_run)
    | _ => exact h_settled trivial

end Desktop

/-! ### A daemon that outlives its completion -/

/-- A host on which two devices have different names, and two sockets different ports or different
addresses. -/
def plainHost : Host where
  tunBusy held name := held = name
  udpBusy
    | .v4 held port, .v4 ip port' => port = port' ∧ port' ≠ 0 ∧ (held = ip ∨ held = 0 ∨ ip = 0)
    | held, addr => held = addr

/-- Finitely many names are taken at a time. -/
theorem plainHost_lawful : plainHost.Lawful where
  tun names := by
    obtain ⟨name, h_name⟩ := Infinite.exists_notMem_finset names.toFinset
    refine ⟨name, fun held h_held => decide_eq_false fun h => h_name ?_⟩
    exact List.mem_toFinset.mpr (h ▸ h_held)
  udp held := by
    cases held with
    | v4 => exact decide_eq_false fun h => h.2.1 rfl
    | v6 => rfl

def firstSettings : FrontendSettings :=
  plainSettings "arax0".toList "10.0.99.1".toList "0.0.0.0:50001".toList

/-- Another device, another overlay address and another port. -/
def secondSettings : FrontendSettings :=
  plainSettings "arax1".toList "10.0.99.2".toList "0.0.0.0:50002".toList

/-- The TUN reader stops, which ends the daemon; the timer task goes on and takes a snapshot. -/
def lingering : List DesktopLabel :=
  [.start firstSettings, .act 0 (.setUp []), .act 0 (.exit .tunToUdp .zeroRead),
    .act 0 (.select .tunToUdp), .complete 0, .act 0 (.tick ⟨0, 0, 0, 0, 0, 0⟩ []), .act 0 .send,
    .act 0 .receive]

/-- The snapshot reaches the status, and the application is started again. -/
def restarted : List DesktopLabel :=
  [.publish 0, .start secondSettings, .act 1 (.setUp [])]

/-- Where labels lead. -/
def Desktop.after (s : Desktop) (ls : List DesktopLabel) : Desktop :=
  (ls.foldlM (Desktop.step plainHost) s).getD s

/-- The application is not running and shows that it is connecting. Started again with the same
settings, it finds the device taken; with others, the timer tasks of two daemons run. -/
theorem desktop_not_isolated : ∃ s u, Exec (desktop plainHost) Desktop.opened lingering s ∧
    s.guard.getVpnStatus = ⟨false, some (.bare "Disconnected".toList), none⟩ ∧
    (s.after [.publish 0]).guard.getVpnStatus =
      ⟨false, some (.snapshot "10.0.99.1".toList ⟨0, 0, 0, 0, 0, 0⟩ []), none⟩ ∧
    ¬ s.Isolated plainHost ∧
    (s.after [.start firstSettings]).step plainHost (.act 1 (.setUp [])) = none ∧
    Exec (desktop plainHost) s restarted u ∧
    u.instances.map (·.tasks) = [[.timer, .udpToTun], [.timer, .tunToUdp, .udpToTun]] ∧
    ¬ u.Isolated plainHost := by
  let s := Desktop.opened.after lingering
  refine ⟨s, s.after restarted, Exec.of_foldlM (by decide +kernel), by decide +kernel,
    by decide +kernel, ?_, by decide +kernel, Exec.of_foldlM (by decide +kernel),
    by decide +kernel, ?_⟩
  · -- a snapshot of an instance that has ended may be published
    intro h
    have h_step : s.step plainHost (.publish 0) = some (s.after [.publish 0]) := by decide +kernel
    exact absurd (h.status 0 _ h_step).1 (by decide +kernel)
  · intro h
    have h_live : ∀ i ∈ [0, 1], ((s.after restarted).instances[i]?.any fun d => d.Live) = true := by
      decide +kernel
    obtain ⟨d, hd, h_d⟩ := (Option.any_eq_true _ _).mp (h_live 0 (by simp))
    obtain ⟨e, he, h_e⟩ := (Option.any_eq_true _ _).mp (h_live 1 (by simp))
    exact absurd (h.one 0 1 d e hd he (of_decide_eq_true h_d) (of_decide_eq_true h_e)) (by simp)

/-- A daemon that is shut down, whose tasks see the token before its completion is handled. -/
def stopped : List DesktopLabel :=
  [.start firstSettings, .act 0 (.setUp []), .stop, .act 0 .shutdown,
    .act 0 (.exit .timer .cancelled), .act 0 (.exit .tunToUdp .cancelled),
    .act 0 (.exit .udpToTun .cancelled), .act 0 .close]

/-- Then the completion leaves nothing, and all is well from there. -/
theorem isolated_iff_stopped :
    (Desktop.opened.after stopped).Isolated plainHost ∧
    ∀ ls u, Exec ((desktop plainHost).restrict Desktop.Settled)
      ((Desktop.opened.after stopped).after [.complete 0]) ls u → u.Isolated plainHost := by
  have h_run : Exec (desktop plainHost) Desktop.opened stopped (Desktop.opened.after stopped) :=
    Exec.of_foldlM (by decide +kernel)
  have h_free : ∀ l ∈ stopped, ∀ s, Desktop.Settled s l := by
    intro l hl s
    cases l with
    | complete i => simp [stopped] at hl
    | _ => trivial
  obtain ⟨h_isolated, h_iff⟩ := Desktop.isolated_iff plainHost_lawful
    ⟨Desktop.opened, stopped, rfl, h_run.restrict h_free⟩
  have h_step : (desktop plainHost).step (Desktop.opened.after stopped) (.complete 0)
      ((Desktop.opened.after stopped).after [.complete 0]) := by
    show Desktop.step plainHost _ _ = some _
    decide +kernel
  refine ⟨h_isolated, (h_iff _ _ h_step).mp fun d hd => ?_⟩
  -- at the completion no task and no snapshot is left
  have h_left : ((Desktop.opened.after stopped).instances[0]?.all fun d =>
      d.tasks = [] ∧ d.helpers = [] ∧ d.reader = .closed) = true := by decide +kernel
  rw [hd] at h_left
  obtain ⟨h_tasks, h_helpers, h_reader⟩ := of_decide_eq_true h_left
  exact ⟨h_tasks, h_helpers, fun h => (nomatch h_reader.symm.trans h),
    fun status h => nomatch h_reader.symm.trans h⟩

end AraxMesh
