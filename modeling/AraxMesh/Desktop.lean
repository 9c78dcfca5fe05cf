import AraxMesh.PeerManager
import AraxMesh.Lib.Trans

/-!
# The desktop controller

The commands of the desktop application and the daemon instances it starts, as one system: every
interleaving of `start_vpn`, `stop_vpn`, `get_vpn_status`, the status readers, the completion
handlers and the tasks of the daemons is a run of `desktop`.

An instance is `run_with_settings` with what it spawned. The function returns when one of its tasks
ends or the shutdown signal arrives; a task whose handle is dropped is detached and goes on. Only
the shutdown cancels, and a cancelled task ends when it next looks at the token. What a task does to
the outside is left out, what it reads from there is up to its step.

The tasks share the TUN device and the UDP socket, which are closed when the last of their holders
is gone. Until then the operating system may refuse the next instance a device of that name or a
socket on that address: which names and addresses exclude each other is up to the `Host`.
-/

namespace AraxMesh

open LTS Text

/-! ### Settings -/

/-- The settings the frontend submits. -/
structure FrontendSettings where
  privateKey : Str
  tunName : Option Str
  tunIp : Option Str
  tunNetmask : Option Str
  localUdp : Option Str
  coordinatorUrl : Option Str
  authKey : Option Str
  hostname : Option Str
  publicEndpoint : Option Str
  relayAddr : Option Str
  peers : Option (List Str)
  magicHandshakeInit : Option UInt8
  magicHandshakeResp : Option UInt8
  magicData : Option UInt8
  magicProbe : Option UInt8
deriving DecidableEq

/-- The settings of the daemon. -/
structure DaemonSettings where
  tunName : Str
  tunIp : Option Str
  tunNetmask : Str
  localUdp : SocketAddr
  privateKeyHex : Str
  peerSpecs : List Str
  coordinatorUrl : Option Str
  relayAddr : Option Str
  authKey : Option Str
  hostname : Option Str
  publicEndpoint : Option Str
  magicHandshakeInit : UInt8
  magicHandshakeResp : UInt8
  magicData : UInt8
  magicProbe : UInt8
deriving DecidableEq

/-- `to_daemon_settings`. -/
def toDaemonSettings (fs : FrontendSettings) : Except Str DaemonSettings :=
  if fs.privateKey = [] then
    .error "Private key is required".toList
  else
    match parseSocketAddr (fs.localUdp.getD "0.0.0.0:50001".toList) with
    | none => .error "Invalid local UDP address: invalid socket address syntax".toList
    | some localUdp => .ok {
        tunName := fs.tunName.getD "arax0".toList
        tunIp := fs.tunIp
        tunNetmask := fs.tunNetmask.getD "255.255.255.0".toList
        localUdp := localUdp
        privateKeyHex := fs.privateKey
        peerSpecs := fs.peers.getD []
        coordinatorUrl := fs.coordinatorUrl
        relayAddr := fs.relayAddr
        authKey := fs.authKey
        hostname := fs.hostname
        publicEndpoint := fs.publicEndpoint
        magicHandshakeInit := fs.magicHandshakeInit.getD 0x01
        magicHandshakeResp := fs.magicHandshakeResp.getD 0x02
        magicData := fs.magicData.getD 0x03
        magicProbe := fs.magicProbe.getD 0x04 }

/-! ### Status snapshots -/

structure PeerStatus where
  pubkey : Str
  endpoint : Option Str
  allowedIps : List Str
  lastRxSecsAgo : Option ℕ
  lastTxSecsAgo : Option ℕ
  isActive : Bool
deriving DecidableEq

structure DaemonStatus where
  connectionState : Str
  assignedIp : Option Str
  totalUploaded : ℕ
  totalDownloaded : ℕ
  totalRxPackets : ℕ
  totalTxPackets : ℕ
  handshakeAttempts : ℕ
  handshakeSuccesses : ℕ
  peers : List PeerStatus
deriving DecidableEq

/-- The counters of an instance. -/
structure Metrics where
  totalRxBytes : ℕ
  totalTxBytes : ℕ
  totalRxPackets : ℕ
  totalTxPackets : ℕ
  handshakeAttempts : ℕ
  handshakeSuccesses : ℕ
deriving DecidableEq

/-- The status that the controller itself writes: a connection state and nothing else. -/
def DaemonStatus.bare (connectionState : Str) : DaemonStatus :=
  ⟨connectionState, none, 0, 0, 0, 0, 0, 0, []⟩

/-- The snapshot the timer task takes of its peers and counters. -/
def DaemonStatus.snapshot (tunIp : Str) (metrics : Metrics) (peers : List PeerStatus) :
    DaemonStatus where
  connectionState := if peers.any (·.isActive) then "Connected".toList else "Connecting".toList
  assignedIp := some tunIp
  totalUploaded := metrics.totalTxBytes
  totalDownloaded := metrics.totalRxBytes
  totalRxPackets := metrics.totalRxPackets
  totalTxPackets := metrics.totalTxPackets
  handshakeAttempts := metrics.handshakeAttempts
  handshakeSuccesses := metrics.handshakeSuccesses
  peers := peers

/-! ### The state behind the lock -/

/-- `DaemonState`. The sender of a shutdown channel is named by the number of its instance. -/
structure DaemonState where
  shutdownTx : Option ℕ
  latestStatus : Option DaemonStatus
  running : Bool
  lastError : Option Str
deriving DecidableEq

structure VpnStatusResponse where
  running : Bool
  status : Option DaemonStatus
  error : Option Str
deriving DecidableEq

namespace DaemonState

/-- `start_vpn`, up to the tasks it spawns for instance `n`. -/
def startVpn (guard : DaemonState) (n : ℕ) (settings : FrontendSettings) :
    Except Str (DaemonState × DaemonSettings) :=
  if guard.running then
    .error "VPN is already running".toList
  else
    match toDaemonSettings settings with
    | .error err => .error err
    | .ok daemonSettings => .ok
        ({ shutdownTx := some n
           running := true
           lastError := none
           latestStatus := some (.bare "Connecting".toList) }, daemonSettings)

/-- `stop_vpn`: the sender is used up. -/
def stopVpn (guard : DaemonState) : Except Str DaemonState :=
  if ¬ guard.running then
    .error "VPN is not running".toList
  else
    match guard.shutdownTx with
    | some _ => .ok { guard with
        shutdownTx := none
        latestStatus := some (.bare "Disconnecting".toList) }
    | none => .error "No shutdown channel available".toList

/-- `get_vpn_status`. -/
def getVpnStatus (guard : DaemonState) : VpnStatusResponse where
  running := guard.running
  status := guard.latestStatus
  error := guard.lastError

/-- What a status reader writes. -/
def publish (guard : DaemonState) (status : DaemonStatus) : DaemonState :=
  { guard with latestStatus := some status }

/-- The completion handler of a daemon that returned with `error`. -/
def complete (guard : DaemonState) (error : Option Str) : DaemonState :=
  { shutdownTx := none
    running := false
    lastError := error.orElse fun _ => guard.lastError
    latestStatus := some (.bare (if error.isSome then "Error".toList else "Disconnected".toList)) }

end DaemonState

/-! ### The host -/

/-- What the operating system refuses: a device with the second name while there is one with the
first, a socket on the second address while one is bound to the first. -/
structure Host where
  tunBusy : Str → Str → Bool
  udpBusy : SocketAddr → SocketAddr → Bool

/-- There is always a name that no device stands in the way of, and binding port 0 of all interfaces
gets a port that is free. -/
structure Host.Lawful (host : Host) : Prop where
  tun : ∀ names : List Str, ∃ name, ∀ held ∈ names, host.tunBusy held name = false
  udp : ∀ held, host.udpBusy held (.v4 0 0) = false

/-! ### An instance -/

/-- The tasks of a daemon. -/
inductive Task
  | timer
  | tunToUdp
  | udpToTun
  | poll
  | relay
deriving DecidableEq

/-- Where `run_with_settings` stands. It returns an error or nothing. -/
inductive DaemonPhase
  | starting
  | selecting
  | returned (error : Option Str)
  | completed
deriving DecidableEq

/-- The loop that drains the status channel: it waits for a snapshot, or has one and waits for the
lock. -/
inductive StatusReader
  | waiting
  | holding (status : DaemonStatus)
  | closed
deriving DecidableEq

/-- Why a task ends. -/
inductive Exit
  | cancelled
  | zeroRead
  | panicked
deriving DecidableEq

/-- A daemon instance. -/
structure Instance where
  settings : DaemonSettings
  phase : DaemonPhase
  /-- The overlay address, once there is one. -/
  tunIp : Str
  /-- Whether the token is cancelled. -/
  cancelled : Bool
  /-- The tasks that have not ended. -/
  tasks : List Task
  /-- The hole punching bursts and the relay connections that have not ended, each by the task that
  spawned it. -/
  helpers : List Task
  /-- The snapshot that the timer task is sending. -/
  outgoing : Option DaemonStatus
  /-- The status channel. -/
  channel : List DaemonStatus
  reader : StatusReader
deriving DecidableEq

/-- A step of an instance that does not take the lock. -/
inductive InstanceLabel
  | setUp (assignedIp : Str)
  | fail (error : Str)
  | tick (metrics : Metrics) (peers : List PeerStatus)
  | send
  | spawn (task : Task)
  | finish (task : Task)
  | exit (task : Task) (why : Exit)
  | select (task : Task)
  | shutdown
  | receive
  | close

/-- The tasks that `run_with_settings` spawns. Without a coordinator or a relay, `poll` and `relay`
are pending for ever and do nothing, so they are not tasks here. -/
def DaemonSettings.tasks (settings : DaemonSettings) : List Task :=
  [.timer, .tunToUdp, .udpToTun] ++ (if settings.coordinatorUrl.isSome then [.poll] else []) ++
    (if settings.relayAddr.isSome then [.relay] else [])

/-- The overlay address of `resolve_network_setup`, if the settings pass the checks:
`assignedIp` is what a coordinator answers. -/
def DaemonSettings.resolve (settings : DaemonSettings) (assignedIp : Str) : Option Str :=
  if (hexDecode settings.privateKeyHex).any (·.length = 32) then
    match settings.coordinatorUrl with
    | some _ => some assignedIp
    | none =>
      if settings.peerSpecs.all fun spec => (parsePeerArg spec).isSome then settings.tunIp else none
  else
    none

namespace Instance

/-- A new instance, with its status channel and the task that reads it. -/
def new (settings : DaemonSettings) : Instance where
  settings := settings
  phase := .starting
  tunIp := []
  cancelled := false
  tasks := []
  helpers := []
  outgoing := none
  channel := []
  reader := .waiting

/-- The status sender is held by `run_with_settings` and by the timer task. -/
def HasSender (d : Instance) : Prop := d.phase = .starting ∨ d.phase = .selecting ∨ .timer ∈ d.tasks

instance (d : Instance) : Decidable d.HasSender := by unfold HasSender; infer_instance

/-- A task may end: it looks at the token between two rounds, the TUN reader stops at an empty read,
and any task may panic. -/
def MayExit (d : Instance) (task : Task) : Exit → Prop
  | .cancelled => d.cancelled ∧ (task = .timer → d.outgoing = none)
  | .zeroRead => task = .tunToUdp
  | .panicked => True

instance (d : Instance) (task : Task) (why : Exit) : Decidable (d.MayExit task why) := by
  cases why <;> unfold MayExit <;> infer_instance

/-- The TUN device is open: `run_with_settings` has it until it returns, and the tasks that read
from it or write to it do. -/
def HoldsTun (d : Instance) : Prop :=
  d.phase = .selecting ∨ .tunToUdp ∈ d.tasks ∨ .udpToTun ∈ d.tasks ∨ .relay ∈ d.tasks

instance (d : Instance) : Decidable d.HoldsTun := by unfold HoldsTun; infer_instance

/-- The UDP socket is open: the bursts that `poll` spawned have it, too. -/
def HoldsUdp (d : Instance) : Prop :=
  d.phase = .selecting ∨ .timer ∈ d.tasks ∨ .tunToUdp ∈ d.tasks ∨ .udpToTun ∈ d.tasks ∨
    .poll ∈ d.tasks ∨ .poll ∈ d.helpers

instance (d : Instance) : Decidable d.HoldsUdp := by unfold HoldsUdp; infer_instance

/-- What the instance has open keeps a daemon with these settings from setting itself up. -/
def Blocks (host : Host) (d : Instance) (settings : DaemonSettings) : Prop :=
  d.HoldsTun ∧ host.tunBusy d.settings.tunName settings.tunName = true ∨
    d.HoldsUdp ∧ host.udpBusy d.settings.localUdp settings.localUdp = true

instance (host : Host) (d : Instance) (settings : DaemonSettings) :
    Decidable (d.Blocks host settings) := by unfold Blocks; infer_instance

/-- The steps of an instance; `signalled` is whether its shutdown channel is ready, `blocked`
whether its device or its address is taken. -/
def act (d : Instance) (signalled blocked : Bool) : InstanceLabel → Option Instance
  | .setUp assignedIp =>
    match d.settings.resolve assignedIp with
    | some tunIp =>
      if d.phase = .starting ∧ ¬ blocked then
        some { d with phase := .selecting, tunIp := tunIp, tasks := d.settings.tasks }
      else none
    | none => none
  | .fail error =>
    if d.phase = .starting then some { d with phase := .returned (some error) } else none
  | .tick metrics peers =>
    if .timer ∈ d.tasks ∧ d.outgoing = none then
      some { d with outgoing := some (.snapshot d.tunIp metrics peers) }
    else none
  | .send =>
    match d.outgoing with
    | some status =>
      -- the channel has eight places
      if .timer ∈ d.tasks ∧ d.channel.length < 8 then
        some { d with outgoing := none, channel := d.channel ++ [status] }
      else none
    | none => none
  | .spawn task =>
    if task ∈ d.tasks ∧ (task = .poll ∨ task = .relay) then
      some { d with helpers := task :: d.helpers }
    else none
  | .finish task =>
    if task ∈ d.helpers then some { d with helpers := d.helpers.erase task } else none
  | .exit task why =>
    if task ∈ d.tasks ∧ d.MayExit task why then
      some { d with
        tasks := d.tasks.erase task
        outgoing := if task = .timer then none else d.outgoing }
    else none
  | .select task =>
    -- a task has finished: the handles of the others are dropped, and nothing is cancelled
    if d.phase = .selecting ∧ task ∈ d.settings.tasks ∧ task ∉ d.tasks then
      some { d with phase := .returned none }
    else none
  | .shutdown =>
    if d.phase = .selecting ∧ signalled then
      some { d with phase := .returned none, cancelled := true }
    else none
  | .receive =>
    match d.channel with
    | status :: channel =>
      if d.reader = .waiting then some { d with channel := channel, reader := .holding status }
      else none
    | [] => none
  | .close =>
    if d.reader = .waiting ∧ d.channel = [] ∧ ¬ d.HasSender then some { d with reader := .closed }
    else none

/-- The instance has tasks that are still running. -/
def Live (d : Instance) : Prop := d.tasks ≠ [] ∨ d.helpers ≠ []

instance (d : Instance) : Decidable d.Live := by unfold Live; infer_instance

end Instance

/-! ### The system -/

/-- The state behind the lock and the instances, in the order they were started. -/
structure Desktop where
  guard : DaemonState
  instances : List Instance
deriving DecidableEq

inductive DesktopLabel
  | start (settings : FrontendSettings)
  | stop
  | status
  | act (i : ℕ) (l : InstanceLabel)
  | publish (i : ℕ)
  | complete (i : ℕ)

namespace Desktop

/-- What each command, reader, handler and task does. A command that fails changes nothing. -/
def step (host : Host) (s : Desktop) : DesktopLabel → Option Desktop
  | .start settings =>
    match s.guard.startVpn s.instances.length settings with
    | .ok (guard, daemonSettings) => some ⟨guard, s.instances ++ [.new daemonSettings]⟩
    | .error _ => some s
  | .stop =>
    match s.guard.stopVpn with
    | .ok guard => some { s with guard := guard }
    | .error _ => some s
  | .status => some s
  | .act i l => do
    let d ← s.instances[i]?
    -- the shutdown channel is ready once its sender is used or dropped
    let blocked := s.instances.any fun e => e.Blocks host d.settings
    let d' ← d.act (s.guard.shutdownTx ≠ some i) blocked l
    some { s with instances := s.instances.set i d' }
  | .publish i => do
    let d ← s.instances[i]?
    match d.reader with
    | .holding status => some {
        guard := s.guard.publish status
        instances := s.instances.set i { d with reader := .waiting } }
    | _ => none
  | .complete i => do
    let d ← s.instances[i]?
    match d.phase with
    | .returned error => some {
        guard := s.guard.complete error
        instances := s.instances.set i { d with phase := .completed } }
    | _ => none

/-- The state of an application that has just been opened. -/
def opened : Desktop := ⟨⟨none, none, false, none⟩, []⟩

end Desktop

/-- All interleavings. -/
def desktop (host : Host) : System Desktop DesktopLabel :=
  System.ofFun (· = Desktop.opened) (Desktop.step host)

end AraxMesh
