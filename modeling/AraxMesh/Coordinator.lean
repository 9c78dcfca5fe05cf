import AraxMesh.Lib.Allocation
import AraxMesh.Lib.Bits
import AraxMesh.Net
import Mathlib.Data.Finmap
import Mathlib.Order.Interval.Finset.Nat
import Mathlib.Data.Nat.Bitwise
import Mathlib.Tactic.NormNum

/-!
# The coordinator's registry

`IpAllocator` and `Registry` of `coordinator.rs`: which nodes are in the network and which overlay
address each has. The addresses are kept as text in the records and parsed again on every
registration.

What is proved here is the allocator's arithmetic: the host addresses are the numbers strictly
between the network and the broadcast address, and `next_free` finds the least of them that is not
used.
-/

namespace AraxMesh

open LTS Text

/-! ### The allocator -/

/-- The network mask of a prefix length. -/
def netmask (prefixLen : UInt8) : UInt32 :=
  if prefixLen = 0 then 0 else 0xFFFFFFFF <<< (32 - prefixLen).toUInt32

/-- `IpAllocator`; the last two fields are what `IpAllocator::new` establishes. -/
structure IpAllocator where
  network : UInt32
  prefixLen : UInt8
  prefixLen_le : prefixLen ≤ 30
  masked : network &&& netmask prefixLen = network

namespace IpAllocator

/-- How `u8::from_str` displays its error on a string it rejects. -/
def parseIntError (s : Str) : Str :=
  let ds := match s with
    | '+' :: rest => rest
    | _ => s
  if s = [] then "cannot parse integer from empty string".toList
  else if 256 ≤ digitsValue 10 (ds.takeWhile fun c => (toDigit 10 c).isSome) then
    "number too large to fit in target type".toList
  else "invalid digit found in string".toList

/-- `IpAllocator::new`: parse a `A.B.C.D/prefix` block. -/
def new (cidr : Str) : Except Str IpAllocator :=
  match splitOnce '/' cidr with
  | none => .error ("CIDR '".toList ++ cidr ++ "' must be in A.B.C.D/prefix form".toList)
  | some (addr, len) =>
    match parseIpv4 addr with
    | none =>
      .error ("invalid network address in '".toList ++ cidr ++
        "': invalid IPv4 address syntax".toList)
    | some addr =>
      match parseU8 len with
      | none => .error ("invalid prefix in '".toList ++ cidr ++ "': ".toList ++ parseIntError len)
      | some len =>
        if h : 30 < len then
          .error ("prefix /".toList ++ decimal len.toNat ++ " leaves no usable host range".toList)
        else
          .ok
            { network := addr &&& netmask len
              prefixLen := len
              prefixLen_le := UInt8.not_lt.mp h
              masked := by rw [UInt32.and_assoc, UInt32.and_self] }

/-- The usable host addresses, first and last. -/
def hostRange (a : IpAllocator) : UInt32 × UInt32 :=
  let size : UInt32 := 1 <<< (32 - a.prefixLen).toUInt32
  let broadcast := a.network ||| (size - 1)
  (a.network + 1, broadcast - 1)

/-- The lowest host address that is not used. -/
def nextFree (a : IpAllocator) (used : Ipv4Addr → Bool) : Option Ipv4Addr :=
  let (first, last) := a.hostRange
  ((List.range' first.toNat (last.toNat + 1 - first.toNat)).map UInt32.ofNat).find? (!used ·)

end IpAllocator

/-! ### The registry -/

/-- One registered node. -/
structure NodeRecord where
  publicKey : Str
  allowedIp : Str
  endpoint : Option Str
  hostname : Option Str
  observedEndpoint : Option Str
deriving DecidableEq, Repr

/-- The nodes by public key. -/
abbrev Nodes := Finmap fun _ : Str => NodeRecord

/-- What serializing the nodes and writing them to a file comes to. -/
abbrev Storage := Str → Nodes → Except Str Unit

/-- A file that is written over, and the nodes that are put into it. -/
structure FileWrite where
  path : Str
  nodes : Nodes

structure Registry where
  allocator : IpAllocator
  nodes : Nodes
  path : Option Str
  whitelist : Option (List Str)

namespace Registry

/-- `Registry::new`. -/
def new (cidr : Str) : Except Str Registry := do
  let allocator ← IpAllocator.new cidr
  return { allocator, nodes := ∅, path := none, whitelist := none }

/-- `Registry::load_or_new`; `file` is what reading and parsing the file comes to, if it exists. -/
def loadOrNew (cidr path : Str) (file : Option (Except Str Nodes)) : Except Str Registry := do
  let reg ← new cidr
  match file with
  | none => return { reg with path := some path }
  | some loaded =>
    let nodes ← loaded
    return { reg with nodes := nodes, path := some path }

/-- `Registry::persist`: what comes of it, and the file it writes, if there is one. -/
def persist (r : Registry) (storage : Storage) : Except Str Unit × Option FileWrite :=
  match r.path with
  | some path => (storage path r.nodes, some ⟨path, r.nodes⟩)
  | none => (.ok (), none)

def setWhitelist (r : Registry) (keys : List Str) : Registry :=
  { r with whitelist := some keys }

/-- The whitelist, if there is one, has the key. -/
def Permits (r : Registry) (publicKey : Str) : Prop :=
  ∀ whitelist, r.whitelist = some whitelist → publicKey ∈ whitelist

instance (r : Registry) (publicKey : Str) : Decidable (r.Permits publicKey) :=
  match h : r.whitelist with
  | none => isTrue fun _ hw => by rw [h] at hw; cases hw
  | some whitelist => decidable_of_iff (publicKey ∈ whitelist)
      ⟨fun hk _ hw => by rw [h] at hw; exact Option.some.inj hw ▸ hk, fun hp => hp whitelist h⟩

/-- The addresses in the records; one that does not parse is ignored. -/
def usedIps (r : Registry) : Multiset Ipv4Addr :=
  (r.nodes.entries.map Sigma.snd).filterMap fun n => parseIpv4 n.allowedIp

/-- `Registry::register`: the assigned address and the observed endpoint, the registry after the
call, and the file that was written. An existing record is changed in place. -/
def register (r : Registry) (storage : Storage) (publicKey endpoint : Str)
    (hostname observedEndpoint : Option Str) :
    Except Str (Str × Option Str) × Registry × Option FileWrite :=
  if ¬ r.Permits publicKey then
    (.error ("node ".toList ++ publicKey ++ " is not whitelisted".toList), r, none)
  else
    match r.nodes.lookup publicKey with
    | some existing =>
      let existing := { existing with
        endpoint := some endpoint
        hostname := if hostname.isSome then hostname else existing.hostname
        observedEndpoint := observedEndpoint }
      let r := { r with nodes := r.nodes.insert publicKey existing }
      let (written, file) := r.persist storage
      (written.map fun () => (existing.allowedIp, observedEndpoint), r, file)
    | none =>
      match r.allocator.nextFree (· ∈ r.usedIps) with
      | none => (.error "address pool exhausted".toList, r, none)
      | some ip =>
        let r := { r with
          nodes := r.nodes.insert publicKey
            { publicKey := publicKey
              allowedIp := ip.display
              endpoint := some endpoint
              hostname := hostname
              observedEndpoint := observedEndpoint } }
        let (written, file) := r.persist storage
        (written.map fun () => (ip.display, observedEndpoint), r, file)

/-- `Registry::poll`: refresh the endpoint of a registered node. -/
def poll (r : Registry) (storage : Storage) (publicKey endpoint : Str)
    (observedEndpoint : Option Str) : Except Str Unit × Registry × Option FileWrite :=
  match r.nodes.lookup publicKey with
  | none => (.error ("unknown node ".toList ++ publicKey), r, none)
  | some node =>
    let node := { node with endpoint := some endpoint, observedEndpoint := observedEndpoint }
    let r := { r with nodes := r.nodes.insert publicKey node }
    let (written, file) := r.persist storage
    (written, r, file)

end Registry

/-! ### The host addresses -/

namespace IpAllocator

/-- The number of addresses in the block. -/
def size (a : IpAllocator) : ℕ := 2 ^ (32 - a.prefixLen.toNat)

/-- The last address of the block. -/
def broadcast (a : IpAllocator) : ℕ := a.network.toNat + a.size - 1

variable {a : IpAllocator}

theorem toNat_prefixLen_le (a : IpAllocator) : a.prefixLen.toNat ≤ 30 :=
  UInt8.le_iff_toNat_le.mp a.prefixLen_le

theorem shift_eq (a : IpAllocator) :
    (32 - a.prefixLen).toUInt32.toNat = 32 - a.prefixLen.toNat :=
  toNat_hostBits (UInt8.le_trans a.prefixLen_le (by decide))

theorem shift_lt (h : 1 ≤ a.prefixLen.toNat) : (32 - a.prefixLen).toUInt32.toNat < 32 := by
  rw [shift_eq]
  omega

/-- Masking an address leaves its top bits. -/
theorem toNat_and_netmask (h : 1 ≤ a.prefixLen.toNat) (ip : Ipv4Addr) :
    (ip &&& netmask a.prefixLen).toNat =
      ip.toNat >>> (32 - a.prefixLen.toNat) <<< (32 - a.prefixLen.toNat) := by
  have hne : a.prefixLen ≠ 0 := by
    intro h0
    rw [h0] at h
    exact absurd h (by decide)
  rw [netmask, if_neg hne]
  calc (ip &&& 0xFFFFFFFF <<< (32 - a.prefixLen).toUInt32).toNat
      = ip.toNat >>> (32 - a.prefixLen).toUInt32.toNat <<< (32 - a.prefixLen).toUInt32.toNat :=
        WordBits.toNat_and_ones_shift ip (shift_lt h)
    _ = _ := by rw [shift_eq]

/-- The network address is a multiple of the size. -/
theorem size_dvd_network (h : 1 ≤ a.prefixLen.toNat) : a.size ∣ a.network.toNat := by
  rw [← a.masked, toNat_and_netmask h, Nat.shiftLeft_eq, size]
  exact Nat.dvd_mul_left _ _

theorem four_le_size (a : IpAllocator) : 4 ≤ a.size := by
  have h_le := a.toNat_prefixLen_le
  calc 4 = 2 ^ 2 := by norm_num
    _ ≤ 2 ^ (32 - a.prefixLen.toNat) := Nat.pow_le_pow_right (by norm_num) (by omega)

/-- The block ends inside the address space. -/
theorem broadcast_lt (h : 1 ≤ a.prefixLen.toNat) : a.network.toNat + a.size ≤ 2 ^ 32 := by
  obtain ⟨q, hq⟩ := size_dvd_network h
  have h_total : 2 ^ 32 = a.size * 2 ^ a.prefixLen.toNat := by
    have h_le := a.toNat_prefixLen_le
    rw [size, ← Nat.pow_add]
    congr 1
    omega
  have h_lt : a.size * q < a.size * 2 ^ a.prefixLen.toNat := by
    rw [← hq, ← h_total]
    exact a.network.toNat_lt
  rw [hq, h_total, ← Nat.mul_succ]
  exact Nat.mul_le_mul_left _ (Nat.lt_of_mul_lt_mul_left h_lt)

/-- The size, as the code computes it. -/
theorem toNat_size (h : 1 ≤ a.prefixLen.toNat) :
    (1 <<< (32 - a.prefixLen).toUInt32 : UInt32).toNat = a.size := by
  rw [UInt32.toNat_shiftLeft, Nat.mod_eq_of_lt (shift_lt h), shift_eq, UInt32.toNat_one,
    Nat.one_shiftLeft]
  exact Nat.mod_eq_of_lt (Nat.pow_lt_pow_right (by norm_num) (by omega))

/-- The broadcast address, as the code computes it. -/
theorem toNat_broadcast (h : 1 ≤ a.prefixLen.toNat) :
    (a.network ||| (1 <<< (32 - a.prefixLen).toUInt32 - 1)).toNat = a.broadcast := by
  have h_four := a.four_le_size
  have h_one : (1 : UInt32) ≤ 1 <<< (32 - a.prefixLen).toUInt32 := by
    rw [UInt32.le_iff_toNat_le, toNat_size h, UInt32.toNat_one]
    omega
  obtain ⟨q, hq⟩ := size_dvd_network h
  rw [UInt32.toNat_or, UInt32.toNat_sub_of_le _ _ h_one, toNat_size h, UInt32.toNat_one, broadcast,
    hq]
  have h_add : a.size * q + (a.size - 1) = a.size * q ||| (a.size - 1) :=
    Nat.two_pow_add_eq_or_of_lt (by rw [← size]; omega) q
  omega

/-- The host range leaves out the network and the broadcast address. -/
theorem hostRange_toNat (h : 1 ≤ a.prefixLen.toNat) :
    a.hostRange.1.toNat = a.network.toNat + 1 ∧ a.hostRange.2.toNat + 1 = a.broadcast := by
  have h_end := broadcast_lt h
  have h_four := a.four_le_size
  have h_last : (1 : UInt32) ≤ a.network ||| (1 <<< (32 - a.prefixLen).toUInt32 - 1) := by
    rw [UInt32.le_iff_toNat_le, toNat_broadcast h, UInt32.toNat_one, broadcast]
    omega
  constructor
  · change (a.network + 1).toNat = _
    rw [UInt32.toNat_add, UInt32.toNat_one]
    exact Nat.mod_eq_of_lt (by omega)
  · change ((a.network ||| (1 <<< (32 - a.prefixLen).toUInt32 - 1)) - 1).toNat + 1 = _
    rw [UInt32.toNat_sub_of_le _ _ h_last, toNat_broadcast h, UInt32.toNat_one, broadcast]
    omega

/-- The host addresses, as numbers. -/
def hosts (a : IpAllocator) : Finset ℕ := Finset.Ioo a.network.toNat a.broadcast

theorem card_hosts (a : IpAllocator) : a.hosts.card = a.size - 2 := by
  rw [hosts, Nat.card_Ioo, broadcast]
  omega

/-- The addresses `nextFree` goes through. -/
def candidates (a : IpAllocator) : List Ipv4Addr :=
  (List.range' a.hostRange.1.toNat (a.hostRange.2.toNat + 1 - a.hostRange.1.toNat)).map
    UInt32.ofNat

theorem toNat_ofNat_of_mem (h : 1 ≤ a.prefixLen.toNat) {n : ℕ} (hn : n < a.broadcast) :
    (UInt32.ofNat n).toNat = n := by
  have h_end := broadcast_lt h
  rw [broadcast] at hn
  exact UInt32.toNat_ofNat_of_lt' (by rw [UInt32.size]; omega)

/-- They are the host addresses. -/
theorem mem_candidates (h : 1 ≤ a.prefixLen.toNat) {ip : Ipv4Addr} :
    ip ∈ a.candidates ↔ ip.toNat ∈ a.hosts := by
  obtain ⟨h_first, h_last⟩ := hostRange_toNat h
  rw [candidates, h_last, h_first, hosts, Finset.mem_Ioo, List.mem_map]
  constructor
  · rintro ⟨n, hn, rfl⟩
    rw [List.mem_range'_1] at hn
    rw [toNat_ofNat_of_mem h (by omega)]
    omega
  · intro hip
    exact ⟨ip.toNat, List.mem_range'_1.mpr (by omega), UInt32.ofNat_toNat⟩

/-- They come in ascending order. -/
theorem pairwise_candidates (h : 1 ≤ a.prefixLen.toNat) :
    a.candidates.Pairwise fun ip ip' => ip.toNat < ip'.toNat := by
  obtain ⟨h_first, h_last⟩ := hostRange_toNat h
  rw [candidates, h_last, h_first, List.pairwise_map]
  refine List.Pairwise.imp_of_mem ?_ List.pairwise_lt_range'
  intro m n hm hn hmn
  rw [List.mem_range'_1] at hm hn
  rwa [toNat_ofNat_of_mem h (by omega), toNat_ofNat_of_mem h (by omega)]

/-- **The lowest free address** is what `nextFree` finds, if there is one. -/
theorem nextFree_eq_some (h : 1 ≤ a.prefixLen.toNat) {used : Ipv4Addr → Bool} {ip : Ipv4Addr}
    (h_ip : a.nextFree used = some ip) : ip.toNat ∈ a.hosts ∧ used ip = false ∧
      ∀ ip' : Ipv4Addr, ip'.toNat ∈ a.hosts → used ip' = false → ip.toNat ≤ ip'.toNat := by
  have h_find : a.candidates.find? (!used ·) = some ip := h_ip
  obtain ⟨h_free, as, bs, h_split, h_before⟩ := List.find?_eq_some_iff_append.mp h_find
  refine ⟨(mem_candidates h).mp (by simp [h_split]), by simpa using h_free, ?_⟩
  intro ip' h_host h_unused
  have h_mem : ip' ∈ as ++ ip :: bs := h_split ▸ (mem_candidates h).mpr h_host
  have h_order := pairwise_candidates h
  rw [h_split, List.pairwise_append, List.pairwise_cons] at h_order
  rcases List.mem_append.mp h_mem with h_mem | h_mem
  · -- everything before it is used
    have h_used := h_before ip' h_mem
    rw [h_unused] at h_used
    cases h_used
  · rcases List.mem_cons.mp h_mem with rfl | h_mem
    · exact le_rfl
    · exact (h_order.2.1.1 ip' h_mem).le

theorem nextFree_eq_none (h : 1 ≤ a.prefixLen.toNat) {used : Ipv4Addr → Bool}
    (h_none : a.nextFree used = none) (ip : Ipv4Addr) (h_host : ip.toNat ∈ a.hosts) :
    used ip = true := by
  have h_find : a.candidates.find? (!used ·) = none := h_none
  have h_all := List.find?_eq_none.mp h_find ip ((mem_candidates h).mpr h_host)
  simpa using h_all

end IpAllocator
end AraxMesh
