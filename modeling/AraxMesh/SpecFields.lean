import AraxMesh.Specs

/-!
# What a specification says

A peer specification against a grammar of its own: what each field of a descriptor may be, and what
it then says. `parsePeerArg_toSpec_iff` says that rendering a descriptor and parsing it again gives
exactly that, field by field, whatever the strings are. A node that registers chooses all three, and
no part of one is read as part of another.

That the fields are found again at all is `parsePeerArg_toSpec`: the key and the endpoint have no
semicolon in them if they can be read, and the last field may have as many as it likes. What is left
is one field at a time. A subnet is cut at a slash, which no address and no number has
(`fromStr_eq_some_iff`), and a list of subnets at its commas.

The key is read by the `hex` crate. `hexDecode` follows what its documentation says: two digits for
each byte, in either case, and nothing else.
-/

namespace AraxMesh

open Text

/-! ### The fields -/

/-- The text of a subnet: an address by itself, or with a prefix length behind a slash. -/
inductive Ipv4Subnet.Written : Str → Ipv4Subnet → Prop
  | host (s : Str) (addr : Ipv4Addr) (h : parseIpv4 s = some addr) : Written s ⟨addr, 32⟩
  | cidr (s len : Str) (addr : Ipv4Addr) (n : UInt8) (h : parseIpv4 s = some addr)
      (h_len : parseU8 len = some n) (h_le : n ≤ 32) : Written (s ++ '/' :: len) ⟨addr, n⟩

/-- The endpoint of a descriptor: it may be left out, or left empty. -/
inductive EndpointWritten : Option Str → Option SocketAddr → Prop
  | absent : EndpointWritten none none
  | empty : EndpointWritten (some []) none
  | given (s : Str) (addr : SocketAddr) (h : parseSocketAddr s = some addr) :
      EndpointWritten (some s) (some addr)

/-- What a descriptor says, each field read by itself. -/
structure PeerDescriptor.Says (d : PeerDescriptor) (w : ParsedPeer) : Prop where
  pubkey : hexDecode d.publicKey = some w.pubkey
  length : w.pubkey.length = 32
  endpoint : EndpointWritten d.endpoint w.endpoint
  allowedIps : List.Forall₂ (fun piece subnet => Ipv4Subnet.Written (trim piece) subnet)
    (d.allowedIp.splitOn ',') w.allowedIps

/-! ### Subnets -/

namespace Ipv4Subnet

variable {s : Str} {subnet : Ipv4Subnet}

/-- What is read was written so: put together again, the pieces between slashes are the text. -/
theorem written_of_fromStr (h : fromStr s = some subnet) : Written s subnet := by
  have h_pieces : List.intercalate ['/'] (s.splitOn '/') = s := List.intercalate_splitOn '/'
  unfold fromStr at h
  split at h
  · next addr h_split =>
    obtain ⟨ip, h_ip, rfl⟩ := Option.map_eq_some_iff.mp h
    rw [h_split] at h_pieces
    obtain rfl : addr = s := by simpa using h_pieces
    exact .host addr ip h_ip
  · next addr len h_split =>
    simp only [Option.bind_eq_bind, Option.bind_eq_some_iff] at h
    obtain ⟨ip, h_ip, n, h_n, h⟩ := h
    rw [h_split] at h_pieces
    obtain rfl : addr ++ '/' :: len = s := by simpa using h_pieces
    by_cases h_long : 32 < n
    · rw [if_pos h_long] at h
      cases h
    · rw [if_neg h_long] at h
      obtain rfl := Option.some.inj h
      exact .cidr addr len ip n h_ip h_n (UInt8.not_lt.mp h_long)
  · cases h

/-- A prefix has at most 32 bits. -/
theorem Written.prefixLen_le (h : Written s subnet) : subnet.prefixLen ≤ 32 := by
  cases h with
  | host => exact UInt8.le_refl 32
  | cidr _ _ _ _ _ _ h_le => exact h_le

/-- What is written is read: the one slash is the one that was put in. -/
theorem fromStr_of_written (h : Written s subnet) : fromStr s = some subnet := by
  have h_slash : ∀ {t : Str} {ip : Ipv4Addr}, parseIpv4 t = some ip → '/' ∉ t :=
    fun h_ip hc => absurd (addrChar_of_parseIpv4 h_ip _ hc) (by decide)
  cases h with
  | host _ addr h_ip =>
    unfold fromStr
    rw [List.splitOn_eq_singleton (h_slash h_ip)]
    simp [h_ip]
  | cidr t len addr n h_ip h_n h_le =>
    have h_digits : '/' ∉ len := notMem_of_parseU8 h_n (by decide) (by decide)
    unfold fromStr
    rw [List.splitOn_append_cons_self, List.splitOn_eq_singleton (h_slash h_ip),
      List.splitOn_eq_singleton h_digits]
    simp [h_ip, h_n, UInt8.not_lt.mpr h_le]

/-- **Subnets are read as they are written.** -/
theorem fromStr_eq_some_iff : fromStr s = some subnet ↔ Written s subnet :=
  ⟨written_of_fromStr, fromStr_of_written⟩

end Ipv4Subnet

/-! ### One field at a time -/

/-- What a list of pieces is read as, piece by piece. -/
theorem mapM_eq_some_iff {α β : Type} {f : α → Option β} {l : List α} {bs : List β} :
    l.mapM f = some bs ↔ List.Forall₂ (fun a b => f a = some b) l bs := by
  induction l generalizing bs with
  | nil =>
    rw [List.mapM_nil, List.forall₂_nil_left_iff]
    exact ⟨fun h => (Option.some.inj h).symm, fun h => congrArg some h.symm⟩
  | cons a l ih =>
    simp only [List.mapM_cons, Option.bind_eq_bind, Option.bind_eq_some_iff,
      List.forall₂_cons_left_iff, ih]
    constructor
    · rintro ⟨b, hb, bs', hbs, h⟩
      exact ⟨b, bs', hb, hbs, (Option.some.inj h).symm⟩
    · rintro ⟨b, bs', hb, hbs, rfl⟩
      exact ⟨b, hb, bs', hbs, rfl⟩

/-- A list can be read if every piece can. -/
theorem exists_forall₂_iff {α β : Type} {R : α → β → Prop} {l : List α} :
    (∃ bs, List.Forall₂ R l bs) ↔ ∀ a ∈ l, ∃ b, R a b := by
  induction l with
  | nil => exact iff_of_true ⟨[], .nil⟩ (by simp)
  | cons a l ih =>
    simp only [List.forall₂_cons_left_iff, List.forall_mem_cons, ← ih]
    constructor
    · rintro ⟨_, b, bs, hb, hbs, -⟩
      exact ⟨⟨b, hb⟩, bs, hbs⟩
    · rintro ⟨⟨b, hb⟩, bs, hbs⟩
      exact ⟨b :: bs, b, bs, hb, hbs, rfl⟩

/-- The allowed addresses are read between commas, each without the white space around it. -/
theorem parseAllowedIps_eq_some_iff {s : Str} {subnets : List Ipv4Subnet} :
    parseAllowedIps s = some subnets ↔
      List.Forall₂ (fun piece subnet => Ipv4Subnet.Written (trim piece) subnet) (s.splitOn ',')
        subnets := by
  rw [parseAllowedIps, mapM_eq_some_iff]
  simp only [Ipv4Subnet.fromStr_eq_some_iff]

/-- An endpoint that is left out is rendered as an empty one. -/
theorem parseEndpoint_eq_some_iff {e : Option Str} {a : Option SocketAddr} :
    parseEndpoint (e.getD []) = some a ↔ EndpointWritten e a := by
  constructor
  · intro h
    unfold parseEndpoint at h
    split_ifs at h with h_empty
    · obtain rfl := Option.some.inj h
      -- nothing between the semicolons: there was no endpoint, or an empty one
      cases e with
      | none => exact .absent
      | some s =>
        obtain rfl : s = [] := h_empty
        exact .empty
    · obtain ⟨addr, h_addr, rfl⟩ := Option.map_eq_some_iff.mp h
      cases e with
      | none => exact absurd rfl h_empty
      | some s => exact .given s addr h_addr
  · intro h
    cases h with
    | absent => rfl
    | empty => rfl
    | given s addr h_addr =>
      have h_ne : s ≠ [] := by
        rintro rfl
        cases h_addr
      rw [Option.getD_some, parseEndpoint, if_neg h_ne, h_addr]
      rfl

/-- Which endpoints can be read at all. -/
theorem exists_endpointWritten_iff {e : Option Str} : (∃ a, EndpointWritten e a) ↔
    e = none ∨ e = some [] ∨ ∃ s addr, e = some s ∧ parseSocketAddr s = some addr := by
  constructor
  · rintro ⟨a, h⟩
    cases h with
    | absent => exact Or.inl rfl
    | empty => exact Or.inr (Or.inl rfl)
    | given s addr h_addr => exact Or.inr (Or.inr ⟨s, addr, rfl, h_addr⟩)
  · rintro (rfl | rfl | ⟨s, addr, rfl, h_addr⟩)
    · exact ⟨none, .absent⟩
    · exact ⟨none, .empty⟩
    · exact ⟨some addr, .given s addr h_addr⟩

/-- **Rendering and parsing reads the fields.** -/
theorem parsePeerArg_eq_some_iff {d : PeerDescriptor} {w : ParsedPeer} :
    parsePeerArg d.toSpec = some w ↔ d.Says w := by
  rw [parsePeerArg_toSpec, PeerDescriptor.parsed]
  simp only [Option.bind_eq_bind, Option.bind_eq_some_iff, identity_eq_some,
    parseEndpoint_eq_some_iff, parseAllowedIps_eq_some_iff]
  constructor
  · rintro ⟨pubkey, ⟨h_hex, h_len⟩, endpoint, h_endpoint, allowedIps, h_ips, h⟩
    obtain rfl := Option.some.inj h
    exact ⟨h_hex, h_len, h_endpoint, h_ips⟩
  · rintro ⟨h_hex, h_len, h_endpoint, h_ips⟩
    exact ⟨w.pubkey, ⟨h_hex, h_len⟩, w.endpoint, h_endpoint, w.allowedIps, h_ips, rfl⟩

/-- There is at least one piece between commas. -/
theorem PeerDescriptor.Says.allowedIps_ne_nil {d : PeerDescriptor} {w : ParsedPeer}
    (h : d.Says w) : w.allowedIps ≠ [] := by
  intro h_nil
  have h_pieces := h.allowedIps
  rw [h_nil, List.forall₂_nil_right_iff] at h_pieces
  exact List.splitOn_ne_nil ',' d.allowedIp h_pieces

/-- **Specifications cannot be confused.** Whatever strings a descriptor is made of, separators
included: its specification parses if and only if its key is the hexadecimal form of 32 bytes, its
endpoint is left out, empty or a socket address, and every piece between the commas of its allowed
addresses is, without the white space around it, a subnet with at most 32 bits of prefix. And then
what is parsed is what the three fields say, each by itself, with at least one subnet. -/
theorem parsePeerArg_toSpec_iff (d : PeerDescriptor) :
    ((parsePeerArg d.toSpec).isSome ↔
      (∃ key, hexDecode d.publicKey = some key ∧ key.length = 32) ∧
      (d.endpoint = none ∨ d.endpoint = some [] ∨
        ∃ s addr, d.endpoint = some s ∧ parseSocketAddr s = some addr) ∧
      ∀ piece ∈ d.allowedIp.splitOn ',', ∃ subnet : Ipv4Subnet,
        Ipv4Subnet.Written (trim piece) subnet ∧ subnet.prefixLen ≤ 32) ∧
    ∀ w, parsePeerArg d.toSpec = some w ↔ d.Says w ∧ w.allowedIps ≠ [] := by
  have h_reading : ∀ w, parsePeerArg d.toSpec = some w ↔ d.Says w ∧ w.allowedIps ≠ [] := fun w =>
    parsePeerArg_eq_some_iff.trans ⟨fun h => ⟨h, h.allowedIps_ne_nil⟩, And.left⟩
  have h_subnets : (∀ piece ∈ d.allowedIp.splitOn ',', ∃ subnet : Ipv4Subnet,
      Ipv4Subnet.Written (trim piece) subnet ∧ subnet.prefixLen ≤ 32) ↔
        ∃ subnets, List.Forall₂ (fun piece subnet => Ipv4Subnet.Written (trim piece) subnet)
          (d.allowedIp.splitOn ',') subnets := by
    rw [exists_forall₂_iff]
    refine forall₂_congr fun piece _ => exists_congr fun subnet => ?_
    exact and_iff_left_of_imp Ipv4Subnet.Written.prefixLen_le
  refine ⟨?_, h_reading⟩
  rw [Option.isSome_iff_exists, h_subnets, ← exists_endpointWritten_iff]
  -- the three fields are parsed one by one, and the record is made of what they give
  constructor
  · rintro ⟨w, hw⟩
    have h := ((h_reading w).mp hw).1
    exact ⟨⟨w.pubkey, h.pubkey, h.length⟩, ⟨w.endpoint, h.endpoint⟩, w.allowedIps, h.allowedIps⟩
  · rintro ⟨⟨key, h_hex, h_len⟩, ⟨endpoint, h_endpoint⟩, subnets, h_ips⟩
    exact ⟨⟨key, endpoint, subnets⟩,
      parsePeerArg_eq_some_iff.mpr ⟨h_hex, h_len, h_endpoint, h_ips⟩⟩

end AraxMesh
