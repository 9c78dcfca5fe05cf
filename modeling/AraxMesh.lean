import AraxMesh.Lib.BigEndian
import AraxMesh.Lib.Bits
import AraxMesh.Lib.Checked
import AraxMesh.Lib.FirstMatch
import AraxMesh.Lib.ReplayFilter
import AraxMesh.Lib.Trans
import AraxMesh.Lib.Allocation
import AraxMesh.Lib.KeyExchange
import AraxMesh.Packet
import AraxMesh.Net
import AraxMesh.Replay
import AraxMesh.ReplayRuns
import AraxMesh.Snow
import AraxMesh.Session
import AraxMesh.Peer
import AraxMesh.PeerSteps
import AraxMesh.PeerManager
import AraxMesh.Daemon
import AraxMesh.Symbolic
import AraxMesh.DaemonSteps
import AraxMesh.Ledger
import AraxMesh.Nonces
import AraxMesh.Dispatch
import AraxMesh.Turns
import AraxMesh.Unauthentic
import AraxMesh.Decryption
import AraxMesh.Replayed
import AraxMesh.Grace
import AraxMesh.Channel
import AraxMesh.Link
import AraxMesh.Coordinator
import AraxMesh.HostRange
import AraxMesh.Registry
import AraxMesh.Coordinatord
import AraxMesh.Atomicity
import AraxMesh.Restart
import AraxMesh.Identity
import AraxMesh.Specs
import AraxMesh.Lib.Reconcile
import AraxMesh.Lib.FirstMax
import AraxMesh.Sync
import AraxMesh.Reconciliation
import AraxMesh.Agreement
import AraxMesh.Lib.Framing
import AraxMesh.Relay
import AraxMesh.RelayStreams
import AraxMesh.Routes
import AraxMesh.Forwarding
import AraxMesh.Lookup
import AraxMesh.Shares
import AraxMesh.Roaming
import AraxMesh.Punching
import AraxMesh.Loading
import AraxMesh.LongestPrefix
import AraxMesh.Cryptokey
import AraxMesh.Routing
import AraxMesh.Desktop
import AraxMesh.Isolation
import AraxMesh.Padding
import AraxMesh.Responses
import AraxMesh.Responders
import AraxMesh.SpecFields
import AraxMesh.Settings
import AraxMesh.TypeBytes
import AraxMesh.PendingHandshakes
import AraxMesh.Lib.RateLimit
import AraxMesh.Display
import AraxMesh.Handlers
import AraxMesh.Upkeep
import AraxMesh.Reflection
import AraxMesh.Lib.Interleave
import AraxMesh.Keyed
import AraxMesh.Tunnel
import AraxMesh.Overlay
import AraxMesh.Attribution
import AraxMesh.Recovery
import AraxMesh.Mesh
import AraxMesh.Uplink
import AraxMesh.Addresses
import AraxMesh.Startup
import AraxMesh.Lib.Counters
import AraxMesh.Status
