import AraxMesh.Addresses
import AraxMesh.Handlers
import AraxMesh.Mesh
import AraxMesh.TypeBytes

/-!
# How a daemon starts

`run_with_settings` of `daemon.rs` up to its tasks: the key, the endpoint to advertise, and
`resolve_network_setup`, which registers with the coordinator or reads the peers of the settings.
What is not the daemon's own is `Outside`, and an error is its text. The TUN device and the socket,
which come last and can fail too, are left out.

* `DaemonSettings.Begins` — what a start that succeeds comes to (`begins_of_start`), and that it
  gives a table the daemon of `Daemon` begins with (`Begins.starts`);
* `readPeers_error` — a start that fails on a peer names the first one that is wrong;
* `fleet_located` — whatever calls the daemons of a network make, every one that applies a list of
  the registry has those of the others that advertise an endpoint that parses, or none at all, each
  where it advertises. The endpoint in the settings is text that nothing checks: a daemon that
  advertises a host name registers, and is skipped by all others.
-/

namespace AraxMesh

open LTS Text FirstMatch

variable {S : Snow}

/-! ### Errors -/

/-- The errors a daemon can start with. One that is not the daemon's own is its text. -/
inductive AraxError
  | io (e : Str)
  | config (e : Str)
  | http (e : Str)
deriving DecidableEq

def AraxError.display : AraxError → Str
  | .io e => "I/O error: ".toList ++ e
  | .config e => "Configuration error: ".toList ++ e
  | .http e => "HTTP error: ".toList ++ e

/-- What is outside of the daemon while it starts. -/
structure Outside where
  /-- How `hex::decode` displays its error on a string it rejects. -/
  hexError : Str → Str
  /-- The public key of a private key. -/
  publicKey : Bytes → Bytes
  length_publicKey : ∀ priv, (publicKey priv).length = 32
  /-- A request to a URL, and the response, or how the error is displayed. -/
  post : Str → RegisterRequest → Except Str RegisterResponse

/-- `Ipv4Subnet::from_str`, with its errors. -/
def Ipv4Subnet.fromStrResult (s : Str) : Except Str Ipv4Subnet :=
  match s.splitOn '/' with
  | [addr] =>
    match parseIpv4 addr with
    | none => .error "invalid IPv4 address: invalid IPv4 address syntax".toList
    | some ip => .ok ⟨ip, 32⟩
  | [addr, len] =>
    match parseIpv4 addr with
    | none => .error "invalid IPv4 address: invalid IPv4 address syntax".toList
    | some ip =>
      match parseU8 len with
      | none => .error ("invalid prefix length: ".toList ++ IpAllocator.parseIntError len)
      | some len =>
        if 32 < len then .error "Prefix length must be between 0 and 32".toList else .ok ⟨ip, len⟩
  | _ => .error "Invalid CIDR format: expected A.B.C.D[/prefix]".toList

/-- `parse_peer_arg`, with its errors. -/
def parsePeerArgResult (out : Outside) (s : Str) : Except AraxError ParsedPeer :=
  match s.splitOn ';' with
  | [pubkeyHex, endpointStr, allowedIpStr] =>
    match hexDecode pubkeyHex with
    | none => .error (.config ("Invalid public key hex '".toList ++ pubkeyHex ++ "': ".toList ++
        out.hexError pubkeyHex))
    | some pubkey =>
      if pubkey.length ≠ 32 then
        .error (.config ("Public key must be exactly 32 bytes (64 hex characters), got ".toList ++
          decimal pubkey.length ++ " bytes".toList))
      else
        match (if endpointStr = [] then some none else (parseSocketAddr endpointStr).map some) with
        | none => .error (.config ("Invalid endpoint address '".toList ++ endpointStr ++
            "': invalid socket address syntax".toList))
        | some endpoint =>
          match (allowedIpStr.splitOn ',').mapM fun part =>
            Ipv4Subnet.fromStrResult (trim part) with
          | .error e => .error (.config ("Invalid allowed IP(s) '".toList ++ allowedIpStr ++
              "': ".toList ++ e))
          | .ok allowedIps => .ok { pubkey, endpoint, allowedIps }
  | _ => .error (.config ("Invalid peer format: '".toList ++ s ++
      "'. Expected 'pubkey_hex;[endpoint];allowed_ip'".toList))

/-! ### The start -/

namespace DaemonSettings

/-- The endpoint the daemon advertises: as configured, or the socket it is going to bind. -/
def publicEndpointText (settings : DaemonSettings) : Str :=
  settings.publicEndpoint.getD settings.localUdp.display

/-- The request of `resolve_network_setup`. -/
def registerRequest (settings : DaemonSettings) (pubkeyHex : Str) : RegisterRequest where
  publicKey := pubkeyHex
  authKey := settings.authKey.getD []
  endpoint := settings.publicEndpointText
  hostname := settings.hostname

/-- The request of `spawn_poll_task`, every ten seconds. -/
def pollRequest (settings : DaemonSettings) (pubkeyHex : Str) : PollRequest where
  publicKey := pubkeyHex
  authKey := settings.authKey.getD []
  endpoint := settings.publicEndpointText

end DaemonSettings

/-- `str::trim_end_matches` on a character. -/
def trimEndMatches (c : Char) (s : Str) : Str := (s.reverse.dropWhile (· = c)).reverse

/-- The peers of the settings; the first that does not parse is the error. -/
def readPeers (out : Outside) (specs : List Str) : Except AraxError (List ParsedPeer) :=
  specs.mapM fun spec =>
    match parsePeerArgResult out spec with
    | .error e => .error (.config ("Invalid static peer '".toList ++ spec ++ "': ".toList ++
        e.display))
    | .ok w => .ok w

/-- `resolve_network_setup`: the address of the TUN device, and the peers. -/
def DaemonSettings.networkSetup (S : Snow) (out : Outside) (settings : DaemonSettings)
    (pubkeyHex : Str) (now : Instant) : Except AraxError (Str × List (Peer S)) :=
  match settings.coordinatorUrl with
  | some url =>
    match out.post (trimEndMatches '/' url ++ "/register".toList)
        (settings.registerRequest pubkeyHex) with
    | .error e => .error (.http e)
    | .ok resp => .ok (resp.assignedIp, resolveNetworkSetup S resp.peers now)
  | none =>
    match readPeers out settings.peerSpecs with
    | .error e => .error e
    | .ok ws =>
      match settings.tunIp with
      | none => .error (.config "tun_ip is required when no coordinator is used".toList)
      | some tunIp =>
        .ok (tunIp, ws.map fun w => Peer.new w.pubkey w.endpoint w.allowedIps now)

/-- `run_with_settings`, as far as the peer table: the address of the TUN device, and the table. -/
def DaemonSettings.start (S : Snow) (out : Outside) (settings : DaemonSettings) (now : Instant) :
    Except AraxError (Str × PeerManager S) :=
  match hexDecode settings.privateKeyHex with
  | none => .error (.io ("Invalid private-key hex: ".toList ++
      out.hexError settings.privateKeyHex))
  | some localPriv =>
    if localPriv.length ≠ 32 then
      .error (.io ("Private key must be exactly 32 bytes (64 hex characters), got ".toList ++
        decimal localPriv.length ++ " bytes".toList))
    else
      match settings.networkSetup S out (hexEncode (out.publicKey localPriv)) now with
      | .error e => .error e
      | .ok (tunIp, peers) => .ok (tunIp, PeerManager.new localPriv peers settings.magicConfig)

/-! ### Peers of the settings -/

section Pieces

variable {ε α β γ : Type}

/-- Without the errors, a list is read as before. -/
theorem toOption_mapM (f : α → Except ε β) (l : List α) :
    (l.mapM f).toOption = l.mapM fun a => (f a).toOption := by
  induction l with
  | nil => rfl
  | cons a l ih =>
    rw [List.mapM_cons, List.mapM_cons, ← ih]
    cases f a with
    | error e => rfl
    | ok b => cases l.mapM f <;> rfl

/-- The error of a list is that of the first piece that has one. -/
theorem mapM_eq_error {f : α → Except ε β} {l : List α} {e : ε} (h : l.mapM f = .error e) :
    ∃ pre a post, l = pre ++ a :: post ∧ (∀ a' ∈ pre, ∃ b, f a' = .ok b) ∧ f a = .error e := by
  induction l with
  | nil => cases h
  | cons a l ih =>
    rw [List.mapM_cons] at h
    cases h_head : f a with
    | error e' =>
      rw [h_head] at h
      obtain rfl := Except.error.inj h
      exact ⟨[], a, l, rfl, nofun, h_head⟩
    | ok b =>
      rw [h_head] at h
      cases h_tail : l.mapM f with
      | ok bs =>
        rw [h_tail] at h
        cases h
      | error e' =>
        rw [h_tail] at h
        obtain rfl := Except.error.inj h
        obtain ⟨pre, a', post, rfl, h_pre, h_first⟩ := ih h_tail
        refine ⟨a :: pre, a', post, rfl, fun a'' h_mem => ?_, h_first⟩
        rcases List.mem_cons.mp h_mem with rfl | h_mem
        · exact ⟨b, h_head⟩
        · exact h_pre a'' h_mem

end Pieces

/-- The errors of a subnet are beside what is accepted as one. -/
theorem Ipv4Subnet.toOption_fromStrResult (s : Str) : (fromStrResult s).toOption = fromStr s := by
  unfold fromStrResult fromStr
  generalize s.splitOn '/' = pieces
  rcases pieces with _ | ⟨addr, _ | ⟨len, _ | ⟨_, _⟩⟩⟩
  · rfl
  · dsimp only
    cases parseIpv4 addr <;> rfl
  · dsimp only
    cases parseIpv4 addr with
    | none => rfl
    | some ip =>
      cases parseU8 len with
      | none => rfl
      | some n =>
        change (if 32 < n then _ else _ : Except Str Ipv4Subnet).toOption =
          if 32 < n then none else some ⟨ip, n⟩
        split_ifs <;> rfl
  · rfl

/-- **The errors leave what is accepted as it was.** -/
theorem toOption_parsePeerArgResult (out : Outside) (s : Str) :
    (parsePeerArgResult out s).toOption = parsePeerArg s := by
  unfold parsePeerArgResult parsePeerArg
  generalize s.splitOn ';' = pieces
  rcases pieces with _ | ⟨key, _ | ⟨endpoint, _ | ⟨ips, _ | ⟨_, _⟩⟩⟩⟩
  · rfl
  · rfl
  · rfl
  · dsimp only
    cases hexDecode key with
    | none => rfl
    | some pubkey =>
      rw [Option.bind_eq_bind, Option.bind_some]
      by_cases h_len : pubkey.length ≠ 32
      · simp only [if_pos h_len]
        rfl
      · simp only [if_neg h_len]
        cases (if endpoint = [] then some none else (parseSocketAddr endpoint).map some) with
        | none => rfl
        | some e =>
          -- the subnets, with their errors and without
          have h_ips := toOption_mapM (fun part => Ipv4Subnet.fromStrResult (trim part))
            (ips.splitOn ',')
          simp only [Ipv4Subnet.toOption_fromStrResult] at h_ips
          change _ = ((ips.splitOn ',').mapM fun part => Ipv4Subnet.fromStr (trim part)).bind _
          rw [← h_ips]
          cases (ips.splitOn ',').mapM fun part => Ipv4Subnet.fromStrResult (trim part) <;> rfl
  · rfl

/-- The same for the list of peers in the settings. -/
theorem toOption_readPeers (out : Outside) (specs : List Str) :
    (readPeers out specs).toOption = specs.mapM parsePeerArg := by
  rw [readPeers, toOption_mapM]
  congr 1
  funext spec
  rw [← toOption_parsePeerArgResult out]
  cases parsePeerArgResult out spec <;> rfl

/-- **The error names the first peer that is wrong**, and says what is wrong with it. -/
theorem readPeers_error {out : Outside} {specs : List Str} {e : AraxError}
    (h : readPeers out specs = .error e) : ∃ pre spec post e', specs = pre ++ spec :: post ∧
      (∀ s ∈ pre, (parsePeerArg s).isSome) ∧ parsePeerArg spec = none ∧
      parsePeerArgResult out spec = .error e' ∧
      e = .config ("Invalid static peer '".toList ++ spec ++ "': ".toList ++ e'.display) := by
  obtain ⟨pre, spec, post, rfl, h_pre, h_first⟩ := mapM_eq_error h
  cases h_spec : parsePeerArgResult out spec with
  | ok w =>
    rw [h_spec] at h_first
    cases h_first
  | error e' =>
    rw [h_spec] at h_first
    refine ⟨pre, spec, post, e', rfl, fun s hs => ?_, ?_, h_spec, (Except.error.inj h_first).symm⟩
    · -- those before it were read
      obtain ⟨w, hw⟩ := h_pre s hs
      rw [← toOption_parsePeerArgResult out]
      cases h_s : parsePeerArgResult out s with
      | ok w' => rfl
      | error e'' =>
        rw [h_s] at hw
        cases hw
    · rw [← toOption_parsePeerArgResult out, h_spec]
      rfl

/-! ### What a start comes to -/

namespace DaemonSettings

variable {out : Outside} {settings : DaemonSettings} {now : Instant} {tunIp : Str}
  {pm : PeerManager S}

/-- A start that succeeds: the daemon registered, or has all its peers from the settings. -/
inductive Begins (out : Outside) (settings : DaemonSettings) (now : Instant) :
    Str → PeerManager S → Prop
  | registered (localPriv : Bytes) (url : Str) (resp : RegisterResponse)
      (h_key : hexDecode settings.privateKeyHex = some localPriv) (h_len : localPriv.length = 32)
      (h_url : settings.coordinatorUrl = some url)
      (h_post : out.post (trimEndMatches '/' url ++ "/register".toList)
        (settings.registerRequest (hexEncode (out.publicKey localPriv))) = .ok resp) :
      Begins out settings now resp.assignedIp
        (.loaded S localPriv settings.magicConfig resp.peers now)
  | configured (localPriv : Bytes) (ws : List ParsedPeer) (tunIp : Str)
      (h_key : hexDecode settings.privateKeyHex = some localPriv) (h_len : localPriv.length = 32)
      (h_url : settings.coordinatorUrl = none)
      (h_ws : settings.peerSpecs.mapM parsePeerArg = some ws)
      (h_ip : settings.tunIp = some tunIp) :
      Begins out settings now tunIp
        (.new localPriv (ws.map fun w => Peer.new w.pubkey w.endpoint w.allowedIps now)
          settings.magicConfig)

/-- **What a start that succeeds comes to.** The function is gone through once, here; what follows
is about `Begins`. -/
theorem begins_of_start (h : settings.start S out now = .ok (tunIp, pm)) :
    settings.Begins out now tunIp pm := by
  unfold start at h
  split at h
  · cases h
  · next localPriv h_key =>
    split_ifs at h with h_len
    rw [not_not] at h_len
    split at h
    · cases h
    · next ip peers h_setup =>
      obtain ⟨rfl, rfl⟩ := Prod.mk.inj (Except.ok.inj h)
      unfold networkSetup at h_setup
      split at h_setup
      · next url h_url =>
        -- with a coordinator
        split at h_setup
        · cases h_setup
        · next resp h_post =>
          obtain ⟨rfl, rfl⟩ := Prod.mk.inj (Except.ok.inj h_setup)
          exact .registered localPriv url resp h_key h_len h_url h_post
      · next h_url =>
        -- without one: the peers first, the address of the device after them
        split at h_setup
        · cases h_setup
        · next ws h_ws =>
          split at h_setup
          · cases h_setup
          · next ip' h_ip =>
            obtain ⟨rfl, rfl⟩ := Prod.mk.inj (Except.ok.inj h_setup)
            have h_all := toOption_readPeers out settings.peerSpecs
            rw [h_ws] at h_all
            exact .configured localPriv ws ip' h_key h_len h_url h_all.symm h_ip

/-- **A daemon that starts is one of `Daemon`'s**, with the key and the packet types of its
settings. -/
theorem Begins.starts (h : settings.Begins out now tunIp pm) : settings.Starts pm := by
  cases h with
  | registered localPriv url resp h_key h_len =>
    exact ⟨PeerManager.initial_loaded S localPriv settings.magicConfig resp.peers now, h_key, h_len,
      rfl⟩
  | configured localPriv ws tunIp h_key h_len h_url h_ws =>
    refine ⟨⟨localPriv, ws, settings.magicConfig, now, fun w hw => ?_, rfl⟩, h_key, h_len, rfl⟩
    obtain ⟨spec, -, h_spec⟩ := forall₂_mem_right (mapM_eq_some_iff.mp h_ws) hw
    exact ⟨spec, h_spec⟩

end DaemonSettings

/-! ### The daemons of a network -/

namespace DaemonSettings

/-- The public key of the daemon. -/
def key (out : Outside) (settings : DaemonSettings) : Option Bytes :=
  (hexDecode settings.privateKeyHex).map out.publicKey

/-- Where the daemon says it can be reached. -/
def Advertises (settings : DaemonSettings) (endpoint : Option SocketAddr) : Prop :=
  parseEndpoint settings.publicEndpointText = some endpoint

/-- What a daemon with these settings asks of the registry, when it starts and ever after. -/
inductive Calls (out : Outside) (settings : DaemonSettings) : RegistryCall → Prop
  | register (key : Bytes) (client : SocketAddr) (h : settings.key out = some key) :
      Calls out settings ((settings.registerRequest (hexEncode key)).call client)
  | poll (key : Bytes) (client : SocketAddr) (h : settings.key out = some key) :
      Calls out settings ((settings.pollRequest (hexEncode key)).call client)

variable {out : Outside} {settings : DaemonSettings} {c : RegistryCall}

/-- Both requests present the text of the daemon's key, and the endpoint it advertises. -/
theorem Calls.eq (h : settings.Calls out c) : ∃ key, settings.key out = some key ∧
    c.publicKey = hexEncode key ∧ c.endpoint = settings.publicEndpointText := by
  cases h with
  | register key client h_key => exact ⟨key, h_key, rfl, rfl⟩
  | poll key client h_key => exact ⟨key, h_key, rfl, rfl⟩

/-- A public key has 32 bytes, whatever the private one. -/
theorem length_key {key : Bytes} (h : settings.key out = some key) : key.length = 32 := by
  obtain ⟨priv, -, rfl⟩ := Option.map_eq_some_iff.mp h
  exact out.length_publicKey priv

/-- A daemon whose settings say nothing else advertises the socket it binds. -/
theorem advertises_localUdp (h : settings.publicEndpoint = none)
    (h_valid : settings.localUdp.Valid) : settings.Advertises (some settings.localUdp) := by
  have h_parse := parseSocketAddr_display h_valid
  have h_ne : settings.localUdp.display ≠ [] := by
    intro h_nil
    rw [h_nil] at h_parse
    cases h_parse
  rw [Advertises, publicEndpointText, h, Option.getD_none, parseEndpoint, if_neg h_ne, h_parse]
  rfl

/-- What a daemon sends presents the text of its key. -/
theorem Calls.canonical (h : settings.Calls out c) : c.Canonical := by
  obtain ⟨key, h_key, h_public, -⟩ := h.eq
  exact ⟨key, length_key h_key, h_public⟩

end DaemonSettings

/-- Daemons with keys of their own. -/
structure Fleet {N : Type} (out : Outside) (settings : N → DaemonSettings) (key : N → Bytes) :
    Prop where
  keyed : ∀ x, (settings x).key out = some (key x)
  distinct : Function.Injective key

/-- A record after a call was there before as it is, or is the one the call was about. -/
theorem Registry.Called.record_endpoint {r r' : Registry} {c : RegistryCall}
    {file : Option FileWrite} (h_call : r.Called c r' file) {j : Str} {m : NodeRecord}
    (hm : r'.nodes.lookup j = some m) :
    r.nodes.lookup j = some m ∨ j = c.publicKey ∧ m.endpoint = some c.endpoint := by
  cases h_call with
  | refused => exact Or.inl hm
  | changed n n' hk h_key h_ip h_endpoint =>
    rcases lookup_insert_cases hm with ⟨rfl, rfl⟩ | ⟨-, hm⟩
    · exact Or.inr ⟨rfl, h_endpoint⟩
    · exact Or.inl hm
  | added _ _ _ _ n _ _ h_endpoint =>
    rcases lookup_insert_cases hm with ⟨rfl, rfl⟩ | ⟨-, hm⟩
    · exact Or.inr ⟨rfl, h_endpoint⟩
    · exact Or.inl hm

section Fleet

variable {N : Type} {out : Outside} {settings : N → DaemonSettings} {key : N → Bytes}
  {storage : Storage} {alloc : IpAllocator} {r₀ r : Registry} {calls : List RegistryCall}

/-- Every record is of a daemon, with the text of the endpoint it advertises. -/
theorem Fleet.records (h : Fleet out settings key)
    (h_init : (registry storage alloc).init r₀) (h_run : Exec (registry storage alloc) r₀ calls r)
    (h_calls : ∀ c ∈ calls, ∃ x, (settings x).Calls out c) :
    ∀ j n, r.nodes.lookup j = some n →
      ∃ x, j = hexEncode (key x) ∧ n.endpoint = some (settings x).publicEndpointText := by
  revert h_calls
  refine h_run.induct (fun calls r => (∀ c ∈ calls, ∃ x, (settings x).Calls out c) →
    ∀ j n, r.nodes.lookup j = some n →
      ∃ x, j = hexEncode (key x) ∧ n.endpoint = some (settings x).publicEndpointText) ?_ ?_
  · intro _ j n hn
    rw [h_init.1.nodes, Finmap.lookup_empty] at hn
    cases hn
  · rintro calls r c _ - ih rfl h_calls j n hn
    rcases (r.called storage c).record_endpoint hn with h_old | ⟨rfl, h_new⟩
    · exact ih (fun c' hc' => h_calls c' (List.mem_append_left _ hc')) j n h_old
    · obtain ⟨x, hx⟩ := h_calls c (by simp)
      obtain ⟨key', h_key, h_public, h_text⟩ := hx.eq
      obtain rfl := Option.some.inj ((h.keyed x).symm.trans h_key)
      exact ⟨x, h_public, h_text ▸ h_new⟩

/-- The record of a daemon reads back as what the daemon advertises, if that parses. -/
theorem Fleet.parsed (h : Fleet out settings key)
    (h_init : (registry storage alloc).init r₀) (h_run : Exec (registry storage alloc) r₀ calls r)
    (h_calls : ∀ c ∈ calls, ∃ x, (settings x).Calls out c) (h_proper : r.Proper) {x : N}
    {n : NodeRecord} {ip : Ipv4Addr} (hn : r.nodes.lookup (hexEncode (key x)) = some n)
    (h_ip : n.allowedIp = ip.display) : parsePeerArg n.descriptor.toSpec =
      (parseEndpoint (settings x).publicEndpointText).map fun e => ⟨key x, e, [⟨ip, 32⟩]⟩ := by
  obtain ⟨x', h_eq, h_text⟩ := h.records h_init h_run h_calls _ n hn
  obtain rfl := h.distinct (hexEncode_injective h_eq)
  obtain ⟨key', ip', h_key, h_ip', h_spec⟩ := h_proper.parsed hn
  have h_id := identity_hexEncode (DaemonSettings.length_key (h.keyed x))
  obtain rfl := Option.some.inj (h_id.symm.trans h_key)
  -- the text of an address is that of one address
  have h_parse := congrArg parseIpv4 (h_ip.symm.trans h_ip')
  rw [parseIpv4_display, parseIpv4_display] at h_parse
  obtain rfl := Option.some.inj h_parse
  rw [h_spec, h_text, Option.getD_some]

/-- What the list for a daemon asks for: the other daemons that are registered and advertise an
endpoint that parses, each with its key, its endpoint and its address. -/
theorem Fleet.mem_wanted (h : Fleet out settings key)
    (h_init : (registry storage alloc).init r₀) (h_run : Exec (registry storage alloc) r₀ calls r)
    (h_calls : ∀ c ∈ calls, ∃ x, (settings x).Calls out c) {y : N} {ds : List PeerDescriptor}
    (h_ds : (ds : Multiset PeerDescriptor) = r.peersFor (hexEncode (key y))) {w : ParsedPeer} :
    w ∈ wanted ds ↔ ∃ x ip e, x ≠ y ∧ r.Owns (key x) ip ∧ (settings x).Advertises e ∧
      w = ⟨key x, e, [⟨ip, 32⟩]⟩ := by
  have h_proper : r.Proper := Registry.proper_of_run h_init h_run fun c hc => by
    obtain ⟨x, hx⟩ := h_calls c hc
    exact hx.canonical
  constructor
  · intro hw
    obtain ⟨d, hd, h_spec⟩ := List.mem_filterMap.mp hw
    have h_mem : d ∈ r.peersFor (hexEncode (key y)) := h_ds ▸ Multiset.mem_coe.mpr hd
    obtain ⟨j, n, hn, h_other, rfl⟩ := Registry.mem_peersFor.mp h_mem
    obtain ⟨x, rfl, -⟩ := h.records h_init h_run h_calls j n hn
    obtain ⟨ip, h_ip⟩ := h_proper.address _ n hn
    rw [h.parsed h_init h_run h_calls h_proper hn h_ip] at h_spec
    obtain ⟨e, he, rfl⟩ := Option.map_eq_some_iff.mp h_spec
    refine ⟨x, ip, e, ?_, ⟨n, hn, h_ip⟩, he, rfl⟩
    -- the list leaves out who asks
    rintro rfl
    exact h_other (h_proper.keyed _ n hn)
  · rintro ⟨x, ip, e, h_ne, ⟨n, hn, h_ip⟩, he, rfl⟩
    have h_other : n.publicKey ≠ hexEncode (key y) := by
      rw [h_proper.keyed _ n hn]
      exact fun h_eq => h_ne (h.distinct (hexEncode_injective h_eq))
    have h_mem : n.descriptor ∈ r.peersFor (hexEncode (key y)) :=
      Registry.mem_peersFor.mpr ⟨_, n, hn, h_other, rfl⟩
    have h_spec := h.parsed h_init h_run h_calls h_proper hn h_ip
    rw [DaemonSettings.Advertises] at he
    rw [he, Option.map_some] at h_spec
    rw [← h_ds] at h_mem
    exact List.mem_filterMap.mpr ⟨n.descriptor, Multiset.mem_coe.mp h_mem, h_spec⟩

end Fleet

namespace PeerManager

variable {ds : List PeerDescriptor} {w : ParsedPeer}

/-- A table that was reconciled with a list of distinct keys says what the list says. -/
theorem advertisement_syncPeers {pm : PeerManager S} (h_keys : pm.keys.Nodup) {now : Instant}
    (h_once : ∀ w ∈ wanted ds, ∀ w' ∈ wanted ds, w.pubkey = w'.pubkey → w = w') :
    (∃ p ∈ (pm.syncPeers ds now).2.peers, p.advertisement = w) ↔ w ∈ wanted ds := by
  have h_listed : ∀ p ∈ (pm.syncPeers ds now).2.peers, p.advertisement ∈ wanted ds := by
    intro p hp
    have h_lookup := lookup_syncPeers pm ds now p.pubkey
    rw [lookup_of_mem (nodup_syncPeers h_keys) hp] at h_lookup
    obtain ⟨w, hw, h_eq⟩ := Option.map_eq_some_iff.mp h_lookup.symm
    obtain ⟨h_mem, h_key⟩ := advertised_eq_some hw
    have h_given : p.endpoint = w.endpoint ∧ p.allowedIps = w.allowedIps := by
      rw [← h_eq]
      cases pm.lookup p.pubkey <;> exact ⟨rfl, rfl⟩
    rwa [Peer.advertisement, ← h_key, h_given.1, h_given.2]
  constructor
  · rintro ⟨p, hp, rfl⟩
    exact h_listed p hp
  · intro hw
    have h_mem : w.pubkey ∈ (pm.syncPeers ds now).2.keys := mem_keys_syncPeers.mpr ⟨w, hw, rfl⟩
    obtain ⟨p, hp, h_key⟩ := mem_keys.mp h_mem
    exact ⟨p, hp, h_once _ (h_listed p hp) w hw h_key⟩

/-- So does a table that was loaded from one. -/
theorem advertisement_loaded {localPriv : Bytes} {magic : MagicConfig} {now : Instant} :
    (∃ p ∈ (loaded S localPriv magic ds now).peers, p.advertisement = w) ↔ w ∈ wanted ds := by
  rw [loaded_peers]
  constructor
  · rintro ⟨p, hp, rfl⟩
    obtain ⟨w, hw, rfl⟩ := List.mem_map.mp hp
    exact hw
  · exact fun hw => ⟨_, List.mem_map.mpr ⟨w, hw, rfl⟩, rfl⟩

end PeerManager

/-- **Everybody is where they say.** In every run of the registry in which the calls are those of
daemons, each with a key of its own, take the list for one of them at any moment. Whatever table
with distinct keys is reconciled with it, and the table a daemon starts with that is given it, then
say the same: each of the other daemons that are registered by now and advertise nothing or an
endpoint that parses, under its key, at the endpoint it advertises, with the address it owns, and
nobody else. A daemon that has no endpoint configured advertises the socket address it binds. -/
theorem fleet_located {N : Type} {out : Outside} {settings : N → DaemonSettings} {key : N → Bytes}
    (h : Fleet out settings key) {storage : Storage} {alloc : IpAllocator} {r₀ r : Registry}
    {calls : List RegistryCall} (h_init : (registry storage alloc).init r₀)
    (h_run : Exec (registry storage alloc) r₀ calls r)
    (h_calls : ∀ c ∈ calls, ∃ x, (settings x).Calls out c) {y : N} {ds : List PeerDescriptor}
    (h_ds : (ds : Multiset PeerDescriptor) = r.peersFor (hexEncode (key y))) :
    (∀ (pm : PeerManager S) now w, pm.keys.Nodup →
      ((∃ p ∈ (pm.syncPeers ds now).2.peers, p.advertisement = w) ↔
        ∃ x ip e, x ≠ y ∧ r.Owns (key x) ip ∧ (settings x).Advertises e ∧
          w = ⟨key x, e, [⟨ip, 32⟩]⟩)) ∧
    (∀ localPriv magic now w,
      (∃ p ∈ (PeerManager.loaded S localPriv magic ds now).peers, p.advertisement = w) ↔
        ∃ x ip e, x ≠ y ∧ r.Owns (key x) ip ∧ (settings x).Advertises e ∧
          w = ⟨key x, e, [⟨ip, 32⟩]⟩) ∧
    ∀ x, (settings x).publicEndpoint = none → (settings x).localUdp.Valid →
      (settings x).Advertises (some (settings x).localUdp) := by
  have h_list : ∀ w, w ∈ wanted ds ↔ ∃ x ip e, x ≠ y ∧ r.Owns (key x) ip ∧
      (settings x).Advertises e ∧ w = ⟨key x, e, [⟨ip, 32⟩]⟩ :=
    fun w => h.mem_wanted h_init h_run h_calls h_ds
  refine ⟨fun pm now w h_keys => ?_, fun localPriv magic now w => ?_, fun x h_none h_valid =>
    DaemonSettings.advertises_localUdp h_none h_valid⟩
  · rw [← h_list w]
    refine PeerManager.advertisement_syncPeers h_keys fun w₁ h₁ w₂ h₂ h_eq => ?_
    -- a key is that of one daemon, which has one address and advertises one endpoint
    obtain ⟨x₁, ip₁, e₁, -, h_owns₁, h_adv₁, rfl⟩ := (h_list w₁).mp h₁
    obtain ⟨x₂, ip₂, e₂, -, h_owns₂, h_adv₂, rfl⟩ := (h_list w₂).mp h₂
    obtain rfl := h.distinct h_eq
    obtain rfl := Option.some.inj (h_adv₁.symm.trans h_adv₂)
    rw [h_owns₁.address_eq h_owns₂]
  · rw [← h_list w]
    exact PeerManager.advertisement_loaded

/-! ### Two daemons -/

namespace Symbolic

/-- Private and public keys are the same. -/
def sameKeys : Outside where
  hexError _ := []
  publicKey priv := if priv.length = 32 then priv else key 0
  length_publicKey priv := by
    split_ifs with h
    · exact h
    · rfl
  post _ _ := .error []

/-- Where the second daemon binds its socket. -/
def boundAddr : SocketAddr := .v6 [0x2001, 0xdb8, 0, 0, 0, 0, 0, 5] 50001 0 0

/-- A daemon with the private key `n` and the defaults of the flags otherwise. -/
def flagSettings (n : UInt8) (localUdp : SocketAddr) (publicEndpoint : Option Str) :
    DaemonSettings where
  tunName := "arax0".toList
  tunIp := none
  tunNetmask := "255.255.255.0".toList
  localUdp := localUdp
  privateKeyHex := hexEncode (key n)
  peerSpecs := []
  coordinatorUrl := some "http://10.0.0.1:8080".toList
  relayAddr := none
  authKey := none
  hostname := none
  publicEndpoint := publicEndpoint
  magicHandshakeInit := 0x01
  magicHandshakeResp := 0x02
  magicData := 0x03
  magicProbe := 0x04

/-- The first daemon says it cannot be dialled; the second one says nothing about it. -/
def fleetSettings : Bool → DaemonSettings
  | false => flagSettings 7 (.v4 0 50001) (some [])
  | true => flagSettings 9 boundAddr none

def fleetKey : Bool → Bytes
  | false => key 7
  | true => key 9

theorem fleet : Fleet sameKeys fleetSettings fleetKey where
  keyed x := by cases x <;> decide +kernel
  distinct := by decide +kernel

theorem advertises_bound : (fleetSettings true).Advertises (some boundAddr) :=
  DaemonSettings.advertises_localUdp rfl ⟨rfl, by decide, by decide, rfl, by decide⟩

/-- Both register. -/
def fleetCalls : List RegistryCall :=
  [((fleetSettings false).registerRequest (hexEncode (key 7))).call nodeAddr,
    ((fleetSettings true).registerRequest (hexEncode (key 9))).call boundAddr]

def fleetRegistry : Registry :=
  fleetCalls.foldl (fun r c => r.call (fun _ _ => .ok ()) c) smallRegistry

/-- The list for the first daemon. -/
def fleetList : List PeerDescriptor :=
  [⟨hexEncode (key 9), "10.0.99.2".toList, some "[2001:db8::5]:50001".toList⟩]

end Symbolic

open Symbolic in
/-- The second daemon is found at the IPv6 address its socket is bound to. -/
theorem fleet_located_bound :
    let pm := ((PeerManager.new (S := symbolic) (key 7) [] MagicConfig.default).syncPeers
      fleetList 0).2
    pm.peers.length = 1 ∧ ∀ p ∈ pm.peers, p.pubkey = key 9 ∧ p.endpoint = some boundAddr ∧
      ∃ ip, fleetRegistry.Owns (key 9) ip ∧ p.allowedIps = [⟨ip, 32⟩] := by
  intro pm
  have h_run : Exec (registry (fun _ _ => .ok ()) smallRegistry.allocator) smallRegistry fleetCalls
      fleetRegistry := (Exec.single rfl).tail rfl
  have h_calls : ∀ c ∈ fleetCalls, ∃ x, (fleetSettings x).Calls sameKeys c := by
    intro c hc
    rcases List.mem_cons.mp hc with rfl | hc
    · exact ⟨false, .register (key 7) nodeAddr (fleet.keyed false)⟩
    · obtain rfl := List.mem_singleton.mp hc
      exact ⟨true, .register (key 9) boundAddr (fleet.keyed true)⟩
  have h_ds : (fleetList : Multiset PeerDescriptor) =
      fleetRegistry.peersFor (hexEncode (fleetKey false)) := by
    decide +kernel
  obtain ⟨h_table, -⟩ := fleet_located (S := symbolic) fleet init_smallRegistry h_run h_calls h_ds
  refine ⟨by decide +kernel, fun p hp => ?_⟩
  have h_mem := (h_table (PeerManager.new (key 7) [] MagicConfig.default) 0 p.advertisement
    List.nodup_nil).mp ⟨p, hp, rfl⟩
  obtain ⟨x, ip, e, h_ne, h_owns, h_adv, h_eq⟩ := h_mem
  obtain rfl : x = true := Bool.eq_true_of_not_eq_false h_ne
  obtain rfl := Option.some.inj (h_adv.symm.trans advertises_bound)
  obtain ⟨h_key, h_endpoint, h_ips⟩ := ParsedPeer.mk.inj h_eq
  exact ⟨h_key, h_endpoint, ip, h_owns, h_ips⟩

end AraxMesh
