import AraxMesh.Lib.Checked
import AraxMesh.Coordinator
import Mathlib.Order.Bounds.Defs

/-!
# The allocator's arithmetic

`IpAllocator::new` guards its shift against the empty prefix and accepts it; `host_range` computes
the size of the block by a shift without that guard. `hostRange?` and `nextFree?` are `host_range`
and `next_free` with every operation checked for overflow, and `next_free_exact_iff` says that the
empty prefix is the one on which they are not defined.
-/

namespace AraxMesh

open Text

/-! ### Blocks -/

/-- The first address with the top `len` bits of `addr`. -/
def networkAddr (addr : Ipv4Addr) (len : ℕ) : ℕ := addr.toNat >>> (32 - len) <<< (32 - len)

/-- The last one. -/
def broadcastAddr (addr : Ipv4Addr) (len : ℕ) : ℕ := networkAddr addr len + 2 ^ (32 - len) - 1

/-- The address is strictly between the two. -/
def Inside (addr : Ipv4Addr) (len : ℕ) (ip : Ipv4Addr) : Prop :=
  networkAddr addr len < ip.toNat ∧ ip.toNat < broadcastAddr addr len

namespace IpAllocator

/-- What the text of a block says. -/
def Denotes (cidr : Str) (addr : Ipv4Addr) (len : UInt8) : Prop :=
  ∃ left right, splitOnce '/' cidr = some (left, right) ∧ parseIpv4 left = some addr ∧
    parseU8 right = some len

/-- Of a text it accepts, `new` keeps the prefix length and the masked address. -/
theorem denotes_of_new {cidr : Str} {a : IpAllocator} (h : new cidr = .ok a) :
    ∃ addr, Denotes cidr addr a.prefixLen ∧ a.network = addr &&& netmask a.prefixLen := by
  unfold new at h
  split at h
  · cases h
  next left right h_split =>
    split at h
    · cases h
    next addr h_addr =>
      split at h
      · cases h
      next len h_len =>
        by_cases h_long : 30 < len
        · rw [dif_pos h_long] at h
          cases h
        · rw [dif_neg h_long] at h
          obtain rfl := Except.ok.inj h
          exact ⟨addr, ⟨left, right, h_split, h_addr, h_len⟩, rfl⟩

/-! ### Checked arithmetic -/

/-- `host_range`, undefined where an operation overflows. -/
def hostRange? (a : IpAllocator) : Option (UInt32 × UInt32) := do
  let shift ← Checked.sub 32 a.prefixLen
  let size ← Checked.shl (1 : UInt32) shift.toUInt32
  let rest ← Checked.sub size 1
  let broadcast := a.network ||| rest
  let first ← Checked.add a.network 1
  let last ← Checked.sub broadcast 1
  return (first, last)

/-- `next_free`, undefined where an operation overflows. -/
def nextFree? (a : IpAllocator) (used : Ipv4Addr → Bool) : Option (Option Ipv4Addr) := do
  let (first, last) ← a.hostRange?
  return ((List.range' first.toNat (last.toNat + 1 - first.toNat)).map UInt32.ofNat).find?
    (!used ·)

/-- With the empty prefix the shift is by the width. -/
theorem hostRange?_eq_none {a : IpAllocator} (h : a.prefixLen = 0) : a.hostRange? = none := by
  have h_shift : Checked.shl (1 : UInt32) (32 - (0 : UInt8)).toUInt32 = none :=
    Checked.shl_of_le (show 32 ≤ (32 - (0 : UInt8)).toUInt32.toNat from le_rfl)
  unfold hostRange?
  rw [h, Checked.sub_of_le (show (0 : UInt8).toNat ≤ (32 : UInt8).toNat from Nat.zero_le _)]
  simp only [Option.bind_eq_bind, Option.bind_some]
  rw [h_shift]
  rfl

/-- With any other prefix nothing overflows. -/
theorem hostRange?_eq {a : IpAllocator} (h : 1 ≤ a.prefixLen.toNat) :
    a.hostRange? = some a.hostRange := by
  have h_four := a.four_le_size
  have h_end := broadcast_lt h
  have h_len : a.prefixLen.toNat ≤ (32 : UInt8).toNat := a.toNat_prefixLen_le.trans (by decide)
  have h_rest : (1 : UInt32).toNat ≤ (1 <<< (32 - a.prefixLen).toUInt32 : UInt32).toNat := by
    rw [toNat_size h, UInt32.toNat_one]
    omega
  have h_first : a.network.toNat + (1 : UInt32).toNat < 2 ^ 32 := by
    rw [UInt32.toNat_one]
    omega
  have h_last : (1 : UInt32).toNat ≤
      (a.network ||| (1 <<< (32 - a.prefixLen).toUInt32 - 1)).toNat := by
    rw [toNat_broadcast h, UInt32.toNat_one, broadcast]
    omega
  -- each operation is within its range, in the order of the source
  unfold hostRange?
  rw [Checked.sub_of_le h_len]
  simp only [Option.bind_eq_bind, Option.bind_some]
  rw [Checked.shl_of_lt (shift_lt h)]
  simp only [Option.bind_some]
  rw [Checked.sub_of_le h_rest, Checked.add_of_lt h_first]
  simp only [Option.bind_some]
  rw [Checked.sub_of_le h_last]
  rfl

theorem nextFree?_eq {a : IpAllocator} (h : 1 ≤ a.prefixLen.toNat) (used : Ipv4Addr → Bool) :
    a.nextFree? used = some (a.nextFree used) := by
  unfold nextFree?
  rw [hostRange?_eq h]
  rfl

/-! ### The result -/

/-- Both functions are defined, and `next_free` returns the least unused address strictly between
the two ends of the block, if there is one. -/
structure NextFreeExact (a : IpAllocator) (addr : Ipv4Addr) (len : ℕ) (used : Ipv4Addr → Bool) :
    Prop where
  range : a.hostRange?.isSome
  defined : (a.nextFree? used).isSome
  some_iff : ∀ ip, a.nextFree? used = some (some ip) ↔
    IsLeast {ip | Inside addr len ip ∧ used ip = false} ip
  none_iff : a.nextFree? used = some none ↔ ∀ ip, Inside addr len ip → used ip = true

/-- The hosts of an allocator are inside the block it was made from. -/
theorem inside_iff {a : IpAllocator} {addr : Ipv4Addr} (h : 1 ≤ a.prefixLen.toNat)
    (h_network : a.network = addr &&& netmask a.prefixLen) (ip : Ipv4Addr) :
    Inside addr a.prefixLen.toNat ip ↔ ip.toNat ∈ a.hosts := by
  have h_addr : a.network.toNat = networkAddr addr a.prefixLen.toNat := by
    rw [h_network, toNat_and_netmask h, networkAddr]
  rw [Inside, broadcastAddr, hosts, Finset.mem_Ioo, broadcast, size, h_addr]

/-- The allocator finds the least unused host, if there is one. -/
theorem nextFree_eq_some_iff {a : IpAllocator} (h : 1 ≤ a.prefixLen.toNat)
    {used : Ipv4Addr → Bool} {ip : Ipv4Addr} : a.nextFree used = some ip ↔
      IsLeast {ip | ip.toNat ∈ a.hosts ∧ used ip = false} ip := by
  constructor
  · intro h_some
    obtain ⟨h_host, h_free, h_least⟩ := nextFree_eq_some h h_some
    exact ⟨⟨h_host, h_free⟩, fun ip' h' => UInt32.le_iff_toNat_le.mpr (h_least ip' h'.1 h'.2)⟩
  · rintro ⟨⟨h_host, h_free⟩, h_least⟩
    cases h_next : a.nextFree used with
    | none =>
      rw [nextFree_eq_none h h_next ip h_host] at h_free
      cases h_free
    | some ip' =>
      -- there is one least address
      obtain ⟨h_host', h_free', h_least'⟩ := nextFree_eq_some h h_next
      have h_le : ip ≤ ip' := h_least ⟨h_host', h_free'⟩
      have h_ge : ip' ≤ ip := UInt32.le_iff_toNat_le.mpr (h_least' ip h_host h_free)
      rw [UInt32.le_antisymm h_le h_ge]

theorem nextFree_eq_none_iff {a : IpAllocator} (h : 1 ≤ a.prefixLen.toNat)
    {used : Ipv4Addr → Bool} :
    a.nextFree used = none ↔ ∀ ip : Ipv4Addr, ip.toNat ∈ a.hosts → used ip = true := by
  refine ⟨nextFree_eq_none h, fun h_used => ?_⟩
  cases h_next : a.nextFree used with
  | none => rfl
  | some ip =>
    obtain ⟨h_host, h_free, -⟩ := nextFree_eq_some h h_next
    rw [h_used ip h_host] at h_free
    cases h_free

end IpAllocator

/-- **Exactly when the allocator is right.** A text that `IpAllocator::new` accepts has an address
and a prefix length, and `host_range` and `next_free` evaluate without overflow, with `next_free`
returning the least unused address strictly between the network and the broadcast address of the
block or `None` if there is none, if and only if the prefix length is not 0. -/
theorem next_free_exact_iff {cidr : Str} {a : IpAllocator} (h : IpAllocator.new cidr = .ok a) :
    ∃ addr len, IpAllocator.Denotes cidr addr len ∧
      ∀ used, a.NextFreeExact addr len.toNat used ↔ len ≠ 0 := by
  obtain ⟨addr, h_denotes, h_network⟩ := IpAllocator.denotes_of_new h
  refine ⟨addr, a.prefixLen, h_denotes, fun used => ?_⟩
  constructor
  · intro h_exact h_zero
    have h_range := h_exact.range
    rw [IpAllocator.hostRange?_eq_none h_zero] at h_range
    cases h_range
  · intro h_len
    have h_pos : 1 ≤ a.prefixLen.toNat :=
      Nat.one_le_iff_ne_zero.mpr fun h_zero => h_len (UInt8.toNat_inj.mp h_zero)
    have h_inside := IpAllocator.inside_iff h_pos h_network
    refine ⟨?_, ?_, fun ip => ?_, ?_⟩
    · rw [IpAllocator.hostRange?_eq h_pos]
      rfl
    · rw [IpAllocator.nextFree?_eq h_pos]
      rfl
    · rw [IpAllocator.nextFree?_eq h_pos, Option.some_inj, IpAllocator.nextFree_eq_some_iff h_pos]
      simp only [h_inside]
    · rw [IpAllocator.nextFree?_eq h_pos, Option.some_inj, IpAllocator.nextFree_eq_none_iff h_pos]
      simp only [h_inside]

/-- The condition for `10.0.99.77/24`, a block with host bits set. -/
theorem next_free_exact_iff_hostBits : ∃ a addr len,
    IpAllocator.new "10.0.99.77/24".toList = .ok a ∧
      IpAllocator.Denotes "10.0.99.77/24".toList addr len ∧
      ∀ used, a.NextFreeExact addr len.toNat used ↔ len ≠ 0 := by
  have h_new : IpAllocator.new "10.0.99.77/24".toList =
      .ok ⟨0x0A006300, 24, by decide, by decide⟩ := rfl
  obtain ⟨addr, len, h⟩ := next_free_exact_iff h_new
  exact ⟨_, addr, len, h_new, h⟩

/-- `new` accepts a block on which `host_range` overflows. -/
theorem next_free_overflows : ∃ a, IpAllocator.new "0.0.0.0/0".toList = .ok a ∧
    a.hostRange? = none ∧ ∀ addr len used, ¬ a.NextFreeExact addr len used := by
  refine ⟨⟨0, 0, by decide, by decide⟩, rfl, IpAllocator.hostRange?_eq_none rfl, ?_⟩
  intro addr len used h
  have h_range := h.range
  rw [IpAllocator.hostRange?_eq_none rfl] at h_range
  cases h_range

end AraxMesh
