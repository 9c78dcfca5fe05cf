import AraxMesh.Lib.BigEndian
import Mathlib.Data.List.GetD
import Mathlib.Tactic.Common

/-!
# Packets and subnets

IP packet inspection and subnet membership (`packet.rs`): the addresses and the total-length
field of an IPv4 header, and `Ipv4Subnet.contains`.

A `u32` address is a `UInt32`; `octets` and `ofOctets` are its four bytes. Byte strings are lists
of bytes.
-/

namespace AraxMesh

open BigEndian

/-- Byte strings. -/
abbrev Bytes := List UInt8

/-- An IPv4 address, as the `u32` of its four octets. -/
abbrev Ipv4Addr := UInt32

/-- `Ipv4Addr::new`. -/
def Ipv4Addr.ofOctets (a b c d : UInt8) : Ipv4Addr := UInt32.ofNat (fromBE [a, b, c, d])

/-- The four octets of an address, first one first. -/
def Ipv4Addr.octets (ip : Ipv4Addr) : Bytes := toBE 4 ip.toNat

/-- Source and destination address of an IPv4 packet. -/
def parseIpv4Header (packet : Bytes) : Option (Ipv4Addr × Ipv4Addr) :=
  if packet.length < 20 then none
  else if packet.getD 0 0 >>> 4 ≠ 4 then none
  else
    some (Ipv4Addr.ofOctets (packet.getD 12 0) (packet.getD 13 0) (packet.getD 14 0)
        (packet.getD 15 0),
      Ipv4Addr.ofOctets (packet.getD 16 0) (packet.getD 17 0) (packet.getD 18 0)
        (packet.getD 19 0))

/-- The Total Length field of an IPv4 packet. -/
def parseIpv4TotalLength (packet : Bytes) : Option ℕ :=
  if packet.length < 20 then none
  else if packet.getD 0 0 >>> 4 ≠ 4 then none
  else some (fromBE [packet.getD 2 0, packet.getD 3 0])

/-- An IPv4 CIDR block. -/
structure Ipv4Subnet where
  addr : Ipv4Addr
  prefixLen : UInt8
deriving DecidableEq, Repr

/-- Whether an address falls within the subnet. -/
def Ipv4Subnet.contains (s : Ipv4Subnet) (ip : Ipv4Addr) : Bool :=
  if s.prefixLen = 0 then true
  else
    let mask : UInt32 := ~~~0 <<< (32 - s.prefixLen).toUInt32
    s.addr &&& mask == ip &&& mask

/-- The number of bits after a prefix. -/
theorem toNat_hostBits {prefixLen : UInt8} (h : prefixLen ≤ 32) :
    (32 - prefixLen).toUInt32.toNat = 32 - prefixLen.toNat := by
  rw [UInt8.toNat_toUInt32, UInt8.toNat_sub_of_le _ _ h]
  rfl

/-! ### The header of a padded packet -/

/-- The two header parsers accept the same packets. -/
theorem parseIpv4TotalLength_isSome_iff (packet : Bytes) :
    (parseIpv4TotalLength packet).isSome ↔ (parseIpv4Header packet).isSome := by
  unfold parseIpv4TotalLength parseIpv4Header
  split_ifs <;> simp

/-- A packet with a total length is at least a header long. -/
theorem length_of_parseIpv4TotalLength {packet : Bytes} {n : ℕ}
    (h : parseIpv4TotalLength packet = some n) : 20 ≤ packet.length := by
  unfold parseIpv4TotalLength at h
  split_ifs at h with h₁
  omega

/-- What follows a header does not change the total length read from it. -/
theorem parseIpv4TotalLength_append {packet : Bytes} (h : 20 ≤ packet.length) (rest : Bytes) :
    parseIpv4TotalLength (packet ++ rest) = parseIpv4TotalLength packet := by
  have hget : ∀ i < 20, (packet ++ rest).getD i 0 = packet.getD i 0 := fun i hi =>
    List.getD_append _ _ _ _ (by omega)
  unfold parseIpv4TotalLength
  rw [hget 0 (by omega), hget 2 (by omega), hget 3 (by omega), List.length_append,
    if_neg (show ¬ packet.length + rest.length < 20 by omega),
    if_neg (show ¬ packet.length < 20 by omega)]

/-- What follows a header does not change the addresses read from it. -/
theorem parseIpv4Header_append {packet : Bytes} (h : 20 ≤ packet.length) (rest : Bytes) :
    parseIpv4Header (packet ++ rest) = parseIpv4Header packet := by
  have h_get : ∀ i < 20, (packet ++ rest).getD i 0 = packet.getD i 0 := fun i hi =>
    List.getD_append _ _ _ _ (by omega)
  have h_len : ¬ (packet ++ rest).length < 20 := by simp; omega
  rw [parseIpv4Header, parseIpv4Header, if_neg h_len, if_neg (Nat.not_lt.mpr h)]
  simp only [h_get, Nat.reduceLT]

end AraxMesh
