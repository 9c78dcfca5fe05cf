import AraxMesh.Specs

/-!
# Addresses as they are displayed

`Display` of subnets (`packet.rs`) and of the standard library's socket addresses, the other way
round from the readers of `Net`.
-/

namespace AraxMesh

open Text

/-- `Ipv4Subnet::fmt`. -/
def Ipv4Subnet.display (s : Ipv4Subnet) : Str := s.addr.display ++ '/' :: decimal s.prefixLen.toNat

namespace Text

/-- `{:x}` of a number. -/
def lowerHex (n : ℕ) : Str := Nat.toDigits 16 n

/-- A run of segments. -/
structure Span where
  start : ℕ
  len : ℕ

/-- Extend the current run of zeros by one segment, and keep it if it is the longest. -/
def scanZeros (acc : Span × Span) (segment : ℕ × ℕ) : Span × Span :=
  let (longest, current) := acc
  if segment.1 = 0 then
    let current : Span := ⟨if current.len = 0 then segment.2 else current.start, current.len + 1⟩
    (if longest.len < current.len then current else longest, current)
  else (longest, ⟨0, 0⟩)

/-- The first of the longest runs of zeros. -/
def longestZeros (segments : List ℕ) : Span :=
  (segments.zipIdx.foldl scanZeros (⟨0, 0⟩, ⟨0, 0⟩)).1

/-- Segments separated by colons. -/
def displayGroups (segments : List ℕ) : Str := List.intercalate [':'] (segments.map lowerHex)

/-- `Ipv6Addr::fmt`. -/
def displayIpv6 (segments : List ℕ) : Str :=
  match segments with
  | [0, 0, 0, 0, 0, 0xFFFF, hi, lo] =>
    -- an IPv4 address in an IPv6 one
    "::ffff:".toList ++ Ipv4Addr.display (UInt32.ofNat (hi * 65536 + lo))
  | _ =>
    let zeros := longestZeros segments
    if 1 < zeros.len then
      displayGroups (segments.take zeros.start) ++ "::".toList ++
        displayGroups (segments.drop (zeros.start + zeros.len))
    else displayGroups segments

end Text

/-- `SocketAddr::to_string`. -/
def SocketAddr.display : SocketAddr → Str
  | .v4 ip port => ip.display ++ ':' :: decimal port
  | .v6 segments port _ scopeId =>
    let scope := if scopeId = 0 then [] else '%' :: decimal scopeId
    '[' :: (displayIpv6 segments ++ scope ++ ']' :: ':' :: decimal port)

/-- `IpAddr`. -/
inductive IpAddr
  | v4 (ip : Ipv4Addr)
  | v6 (segments : List ℕ)
deriving DecidableEq, Repr

/-- `SocketAddr::ip`. -/
def SocketAddr.ip : SocketAddr → IpAddr
  | .v4 ip _ => .v4 ip
  | .v6 segments _ _ _ => .v6 segments

end AraxMesh
