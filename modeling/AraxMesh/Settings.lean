import AraxMesh.Desktop

/-!
# Settings of the daemon

`resolve_settings` of `config.rs`: the configuration file if one is named, and otherwise the flags,
in one shape. The file system, the TOML reader and the URL parser are parameters, and an error is
its text.

Either way the four packet type bytes are what is configured, or their defaults. Nothing compares
them: `exists_resolveSettings` says that any four bytes are accepted.
-/

namespace AraxMesh

open Text

/-! ### The two sources -/

/-- `Args` of `config.rs`, less the flag that only prints a key pair. -/
structure DaemonArgs where
  tunName : Str
  tunIp : Option Str
  tunNetmask : Str
  localUdp : SocketAddr
  peer : List Str
  privateKey : Option Str
  config : Option Str
  coordinatorUrl : Option Str
  authKey : Option Str
  hostname : Option Str
  publicEndpoint : Option Str
  relayAddr : Option Str
  magicHandshakeInit : Option UInt8
  magicHandshakeResp : Option UInt8
  magicData : Option UInt8
  magicProbe : Option UInt8

/-- The configuration file, with the defaults of the fields that have one filled in. -/
structure FileConfig where
  privateKey : Str
  tunIp : Option Str
  tunName : Str
  tunNetmask : Str
  localUdp : Str
  peer : List PeerDescriptor
  coordinatorUrl : Option Str
  relayAddr : Option Str
  authKey : Option Str
  hostname : Option Str
  publicEndpoint : Option Str
  magicHandshakeInit : Option UInt8
  magicHandshakeResp : Option UInt8
  magicData : Option UInt8
  magicProbe : Option UInt8

/-- What is not the daemon's own: a failure comes with the text it is displayed as. -/
structure Environment where
  /-- `std::fs::read_to_string`. -/
  readToString : Str → Except Str Str
  /-- `toml::from_str`. -/
  fromToml : Str → Except Str FileConfig
  /-- `reqwest::Url::parse`, and the host of the result if it has one. -/
  hostStr : Str → Option Str

/-- The relay: as configured, or else on the coordinator's host. -/
def Environment.relay (env : Environment) (relayAddr coordinatorUrl : Option Str) : Option Str :=
  relayAddr.or (coordinatorUrl.bind fun url => (env.hostStr url).map (· ++ ":51821".toList))

/-- The settings from a configuration file that was read. -/
def FileConfig.settings (env : Environment) (cfg : FileConfig) : Except Str DaemonSettings :=
  match parseSocketAddr cfg.localUdp with
  | none => .error ("Invalid local_udp '".toList ++ cfg.localUdp ++
      "' in config: invalid socket address syntax".toList)
  | some localUdp => .ok {
      tunName := cfg.tunName
      tunIp := cfg.tunIp
      tunNetmask := cfg.tunNetmask
      localUdp := localUdp
      privateKeyHex := cfg.privateKey
      peerSpecs := cfg.peer.map PeerDescriptor.toSpec
      coordinatorUrl := cfg.coordinatorUrl
      relayAddr := env.relay cfg.relayAddr cfg.coordinatorUrl
      authKey := cfg.authKey
      hostname := cfg.hostname
      publicEndpoint := cfg.publicEndpoint
      magicHandshakeInit := cfg.magicHandshakeInit.getD 0x01
      magicHandshakeResp := cfg.magicHandshakeResp.getD 0x02
      magicData := cfg.magicData.getD 0x03
      magicProbe := cfg.magicProbe.getD 0x04 }

/-- The settings from the flags: an address comes from a flag or from the coordinator, and the key
always from a flag. -/
def DaemonArgs.settings (env : Environment) (args : DaemonArgs) : Except Str DaemonSettings :=
  if args.coordinatorUrl.isNone ∧ args.tunIp.isNone then
    .error "Missing required argument: --tun-ip (or use --config or --coordinator-url)".toList
  else
    match args.privateKey with
    | none => .error "Missing required argument: --private-key (or use --config)".toList
    | some privateKeyHex => .ok {
        tunName := args.tunName
        tunIp := args.tunIp
        tunNetmask := args.tunNetmask
        localUdp := args.localUdp
        privateKeyHex := privateKeyHex
        peerSpecs := args.peer
        coordinatorUrl := args.coordinatorUrl
        relayAddr := env.relay args.relayAddr args.coordinatorUrl
        authKey := args.authKey
        hostname := args.hostname
        publicEndpoint := args.publicEndpoint
        magicHandshakeInit := args.magicHandshakeInit.getD 0x01
        magicHandshakeResp := args.magicHandshakeResp.getD 0x02
        magicData := args.magicData.getD 0x03
        magicProbe := args.magicProbe.getD 0x04 }

/-- `resolve_settings`. -/
def resolveSettings (env : Environment) (args : DaemonArgs) : Except Str DaemonSettings :=
  match args.config with
  | some path =>
    match env.readToString path with
    | .error e => .error ("Failed to read config file ".toList ++ path ++ ": ".toList ++ e)
    | .ok text =>
      match env.fromToml text with
      | .error e => .error ("Failed to parse config file ".toList ++ path ++ ": ".toList ++ e)
      | .ok cfg => cfg.settings env
  | none => args.settings env

/-- The packet types `run_with_settings` gives the peer table. -/
def DaemonSettings.magicConfig (settings : DaemonSettings) : MagicConfig where
  handshakeInit := settings.magicHandshakeInit
  handshakeResp := settings.magicHandshakeResp
  data := settings.magicData
  probe := settings.magicProbe

/-! ### What the packet types are -/

/-- Packet types that may be left to their defaults. -/
def MagicConfig.ofOptions (init resp data probe : Option UInt8) : MagicConfig where
  handshakeInit := init.getD MagicConfig.default.handshakeInit
  handshakeResp := resp.getD MagicConfig.default.handshakeResp
  data := data.getD MagicConfig.default.data
  probe := probe.getD MagicConfig.default.probe

variable {env : Environment} {args : DaemonArgs} {settings : DaemonSettings}

/-- **Any four bytes are accepted**, with every other flag as it was. -/
theorem exists_resolveSettings (magic : MagicConfig) (h_config : args.config = none)
    (h_ok : resolveSettings env args = .ok settings) :
    ∃ settings', settings'.magicConfig = magic ∧ resolveSettings env { args with
      magicHandshakeInit := some magic.handshakeInit
      magicHandshakeResp := some magic.handshakeResp
      magicData := some magic.data
      magicProbe := some magic.probe } = .ok settings' := by
  unfold resolveSettings DaemonArgs.settings at h_ok ⊢
  rw [h_config] at h_ok ⊢
  dsimp only at h_ok ⊢
  split_ifs at h_ok ⊢
  split at h_ok
  · cases h_ok
  · exact ⟨_, rfl, rfl⟩

end AraxMesh
