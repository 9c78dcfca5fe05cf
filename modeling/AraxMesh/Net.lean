import AraxMesh.Packet

/-!
# Addresses as text

The parts of the standard library and of the `hex` crate that read and write addresses and keys:
`str::split`, `str::trim`, `u8::from_str`, `Ipv4Addr` and `SocketAddr` parsing and display,
`hex::decode`. Strings are lists of characters.

The address parser follows the library's recursive descent: every reader either consumes a prefix
and returns the rest or fails and consumes nothing, and `from_str` accepts when the reader leaves
nothing. What is proved here is the round trip of a dotted-quad address (`parseIpv4_display`),
on which the address allocator relies.
-/

namespace AraxMesh

open BigEndian

/-- A string, as the list of its characters. -/
abbrev Str := List Char

namespace Text

/-- `str::split_once` on a character. -/
def splitOnce (c : Char) (s : Str) : Option (Str × Str) :=
  if c ∈ s then some (s.takeWhile (· ≠ c), (s.dropWhile (· ≠ c)).tail) else none

/-- `char::is_whitespace`: the `White_Space` property. -/
def isWhitespace (c : Char) : Bool :=
  let n := c.toNat
  (9 ≤ n && n ≤ 13) || n == 32 || n == 0x85 || n == 0xA0 || n == 0x1680 ||
    (0x2000 ≤ n && n ≤ 0x200A) || n == 0x2028 || n == 0x2029 || n == 0x202F || n == 0x205F ||
    n == 0x3000

/-- `str::trim`. -/
def trim (s : Str) : Str :=
  ((s.dropWhile isWhitespace).reverse.dropWhile isWhitespace).reverse

/-- `char::to_digit`. -/
def toDigit (radix : ℕ) (c : Char) : Option ℕ :=
  let n := c.toNat
  let d := if 48 ≤ n ∧ n ≤ 57 then n - 48
    else if 97 ≤ n ∧ n ≤ 122 then n - 87
    else if 65 ≤ n ∧ n ≤ 90 then n - 55
    else radix
  if d < radix then some d else none

/-- The value of a string of digits; a character that is not a digit counts zero. -/
def digitsValue (radix : ℕ) (s : Str) : ℕ :=
  s.foldl (fun acc c => acc * radix + (toDigit radix c).getD 0) 0

/-- `u8::from_str`: an optional plus sign and at least one decimal digit. -/
def parseU8 (s : Str) : Option UInt8 :=
  let ds := match s with
    | '+' :: rest => rest
    | _ => s
  if ds ≠ [] ∧ (ds.all fun c => (toDigit 10 c).isSome) ∧ digitsValue 10 ds < 256 then
    some (UInt8.ofNat (digitsValue 10 ds))
  else none

/-- The decimal digits of a number. -/
def decimal (n : ℕ) : Str := Nat.toDigits 10 n

/-! ### The address reader -/

/-- `Parser::read_number`: digits of the radix, at most `maxDigits` of them, no leading zero unless
allowed, and a value below `bound`. -/
def readNumber (radix : ℕ) (maxDigits : Option ℕ) (allowZeroPrefix : Bool) (bound : ℕ) (s : Str) :
    Option (ℕ × Str) :=
  let ds := s.takeWhile fun c => (toDigit radix c).isSome
  let rest := s.dropWhile fun c => (toDigit radix c).isSome
  if ds = [] then none
  else if maxDigits.any (· < ds.length) then none
  else if ¬ allowZeroPrefix ∧ ds.head? = some '0' ∧ 1 < ds.length then none
  else if digitsValue radix ds < bound then some (digitsValue radix ds, rest)
  else none

/-- `Parser::read_given_char`. -/
def readGivenChar (c : Char) : Str → Option Str
  | [] => none
  | d :: rest => if d = c then some rest else none

/-- `Parser::read_separator`: the separator is expected before every item but the first. -/
def readSeparator {α : Type} (sep : Char) (index : ℕ) (inner : Str → Option (α × Str)) (s : Str) :
    Option (α × Str) :=
  if index = 0 then inner s else (readGivenChar sep s).bind inner

/-- The readers of the `n` remaining octets of a dotted quad, from the octet at `index` on. -/
def readOctets (index : ℕ) : ℕ → Str → Option (Bytes × Str)
  | 0, s => some ([], s)
  | n + 1, s => do
    let (v, s) ← readSeparator '.' index (readNumber 10 (some 3) false 256) s
    let (vs, s) ← readOctets (index + 1) n s
    return (UInt8.ofNat v :: vs, s)

/-- `Parser::read_ipv4_addr`. -/
def readIpv4Addr (s : Str) : Option (Ipv4Addr × Str) := do
  let (octets, rest) ← readOctets 0 4 s
  return (UInt32.ofNat (fromBE octets), rest)

/-- `read_groups` of `Parser::read_ipv6_addr`: up to `limit` groups, `fuel` of them still unread,
the last two possibly written as a dotted quad. -/
def readGroups (limit : ℕ) : ℕ → List ℕ → Str → List ℕ × Bool × Str
  | 0, groups, s => (groups, false, s)
  | fuel + 1, groups, s =>
    let index := groups.length
    let embedded :=
      if index + 1 < limit then readSeparator ':' index readIpv4Addr s else none
    match embedded with
    | some (ip, rest) => (groups ++ [ip.toNat / 65536, ip.toNat % 65536], true, rest)
    | none =>
      match readSeparator ':' index (readNumber 16 (some 4) true 65536) s with
      | some (group, rest) => readGroups limit fuel (groups ++ [group]) rest
      | none => (groups, false, s)

/-- `Parser::read_ipv6_addr`: eight groups, or fewer around one `::`. -/
def readIpv6Addr (s : Str) : Option (List ℕ × Str) :=
  let (head, headIpv4, s) := readGroups 8 8 [] s
  if head.length = 8 then some (head, s)
  else if headIpv4 then none
  else do
    let s ← readGivenChar ':' s
    let s ← readGivenChar ':' s
    let limit := 8 - (head.length + 1)
    let (tail, _, s) := readGroups limit limit [] s
    return (head ++ List.replicate (8 - head.length - tail.length) 0 ++ tail, s)

/-- `Parser::read_port`. -/
def readPort (s : Str) : Option (ℕ × Str) := do
  let s ← readGivenChar ':' s
  readNumber 10 none true 65536 s

/-- `Parser::read_scope_id`. -/
def readScopeId (s : Str) : Option (ℕ × Str) := do
  let s ← readGivenChar '%' s
  readNumber 10 none true 4294967296 s

end Text

/-- A socket address. The IPv6 segments are given in order; the flow information is never set by
the parser. -/
inductive SocketAddr
  | v4 (ip : Ipv4Addr) (port : ℕ)
  | v6 (segments : List ℕ) (port flowinfo scopeId : ℕ)
deriving DecidableEq, Repr

namespace Text

/-- `Parser::read_socket_addr_v4`. -/
def readSocketAddrV4 (s : Str) : Option (SocketAddr × Str) := do
  let (ip, s) ← readIpv4Addr s
  let (port, s) ← readPort s
  return (.v4 ip port, s)

/-- `Parser::read_socket_addr_v6`. -/
def readSocketAddrV6 (s : Str) : Option (SocketAddr × Str) := do
  let s ← readGivenChar '[' s
  let (ip, s) ← readIpv6Addr s
  let (scope, s) := (readScopeId s).getD (0, s)
  let s ← readGivenChar ']' s
  let (port, s) ← readPort s
  return (.v6 ip port 0 scope, s)

/-- `Parser::parse_with`: the reader must consume the whole string. -/
def parseWith {α : Type} (reader : Str → Option (α × Str)) (s : Str) : Option α :=
  match reader s with
  | some (a, []) => some a
  | _ => none

end Text

open Text

/-- `Ipv4Addr::from_str`. -/
def parseIpv4 (s : Str) : Option Ipv4Addr :=
  if 15 < s.length then none else parseWith readIpv4Addr s

/-- `SocketAddr::from_str`. -/
def parseSocketAddr (s : Str) : Option SocketAddr :=
  parseWith (fun s => (readSocketAddrV4 s).orElse fun _ => readSocketAddrV6 s) s

/-- The `Display` form of a list of octets: decimal numbers separated by dots. -/
def displayOctets (octets : Bytes) : Str :=
  List.intercalate ['.'] (octets.map fun b => decimal b.toNat)

/-- `Ipv4Addr::to_string`. -/
def Ipv4Addr.display (ip : Ipv4Addr) : Str := displayOctets ip.octets

/-- `hex::decode`, as the crate documents it: a pair of hexadecimal digits in either case for each
byte, and nothing else. -/
def hexDecode : Str → Option Bytes
  | [] => some []
  | [_] => none
  | a :: b :: rest => do
    let hi ← toDigit 16 a
    let lo ← toDigit 16 b
    let bytes ← hexDecode rest
    return UInt8.ofNat (hi * 16 + lo) :: bytes

/-! ### The dotted quad round trip -/

namespace Text

/-- `s` does not go on with a decimal digit. -/
def NoDigit (s : Str) : Prop := ∀ c, s.head? = some c → (toDigit 10 c).isSome = false

/-- What `readNumber` asks of the decimal form of an octet. -/
theorem decimal_octet : ∀ b : Fin 256, decimal b ≠ [] ∧
    (decimal b).all (fun c => (toDigit 10 c).isSome) = true ∧ (decimal b).length ≤ 3 ∧
    ((decimal b).head? = some '0' → (decimal b).length = 1) ∧
    digitsValue 10 (decimal b) = b := by
  decide +kernel

theorem readNumber_decimal (b : UInt8) {rest : Str} (h : NoDigit rest) :
    readNumber 10 (some 3) false 256 (decimal b.toNat ++ rest) = some (b.toNat, rest) := by
  obtain ⟨h_ne, h_all, h_len, h_zero, h_val⟩ := decimal_octet ⟨b.toNat, b.toNat_lt⟩
  simp only at h_ne h_all h_len h_zero h_val
  rw [List.all_eq_true] at h_all
  have h_take : (decimal b.toNat ++ rest).takeWhile (fun c => (toDigit 10 c).isSome)
      = decimal b.toNat := by
    rw [List.takeWhile_append_of_pos h_all]
    cases rest with
    | nil => simp
    | cons c rest => simp [h c rfl]
  have h_drop : (decimal b.toNat ++ rest).dropWhile (fun c => (toDigit 10 c).isSome) = rest := by
    rw [List.dropWhile_append_of_pos h_all]
    cases rest with
    | nil => rfl
    | cons c rest => simp [h c rfl]
  have h_lead : ¬ ((decimal b.toNat).head? = some '0' ∧ 1 < (decimal b.toNat).length) :=
    fun hc => by have := h_zero hc.1; omega
  have hb : b.toNat < 256 := b.toNat_lt
  simp only [readNumber, h_take, h_drop, h_ne, h_val, if_false, Option.any_some, h_lead, hb,
    if_true, decide_eq_true_eq, Bool.false_eq_true, not_false_eq_true, true_and]
  rw [if_neg (by omega)]

/-- The octets after the first one, each with its dot. -/
def dotted (octets : Bytes) : Str := octets.flatMap fun b => '.' :: decimal b.toNat

theorem noDigit_dotted (octets : Bytes) {rest : Str} (h : NoDigit rest) :
    NoDigit (dotted octets ++ rest) := by
  intro c hc
  cases octets with
  | nil => exact h c hc
  | cons b octets =>
    obtain rfl : '.' = c := by simpa [dotted] using hc
    decide

theorem readOctets_dotted (index : ℕ) (hi : index ≠ 0) (octets : Bytes) {rest : Str}
    (h : NoDigit rest) :
    readOctets index octets.length (dotted octets ++ rest) = some (octets, rest) := by
  induction octets generalizing index with
  | nil => rfl
  | cons b octets ih =>
    have hsep : readSeparator '.' index (readNumber 10 (some 3) false 256)
        (dotted (b :: octets) ++ rest) = some (b.toNat, dotted octets ++ rest) := by
      simp only [readSeparator, hi, if_false, dotted, List.flatMap_cons, List.cons_append,
        List.append_assoc, readGivenChar, if_true, Option.bind_some]
      exact readNumber_decimal b (noDigit_dotted octets h)
    simp [readOctets, hsep, ih (index + 1) (by omega)]

theorem displayOctets_cons (b : UInt8) (octets : Bytes) :
    displayOctets (b :: octets) = decimal b.toNat ++ dotted octets := by
  induction octets generalizing b with
  | nil => simp [displayOctets, dotted, List.intercalate]
  | cons c octets ih =>
    have h := ih c
    simp only [displayOctets, List.map_cons, List.intercalate_cons_cons] at h ⊢
    rw [h]
    simp [dotted]

end Text

theorem Ipv4Addr.ofOctets_octets (ip : Ipv4Addr) : UInt32.ofNat (fromBE ip.octets) = ip := by
  have h : ip.toNat < 256 ^ 4 := ip.toNat_lt
  rw [Ipv4Addr.octets, fromBE_toBE h, UInt32.ofNat_toNat]

theorem Ipv4Addr.length_display (ip : Ipv4Addr) : ip.display.length ≤ 15 := by
  have h_len : ∀ b : UInt8, (decimal b.toNat).length ≤ 3 := fun b =>
    (decimal_octet ⟨b.toNat, b.toNat_lt⟩).2.2.1
  obtain ⟨a, b, c, d, h⟩ : ∃ a b c d, ip.octets = [a, b, c, d] := ⟨_, _, _, _, rfl⟩
  have := h_len a
  have := h_len b
  have := h_len c
  have := h_len d
  simp only [Ipv4Addr.display, h, displayOctets_cons, dotted, List.flatMap_cons, List.flatMap_nil,
    List.length_append, List.length_cons, List.append_nil]
  omega

/-- The display form of an address is read up to where it ends. -/
theorem readIpv4Addr_display (ip : Ipv4Addr) {rest : Str} (h_rest : NoDigit rest) :
    readIpv4Addr (ip.display ++ rest) = some (ip, rest) := by
  have h_len : ip.octets.length = 4 := length_toBE _ _
  obtain ⟨b, octets, h⟩ := List.exists_cons_of_length_eq_add_one h_len
  have h_oct : readOctets 0 4 (displayOctets (b :: octets) ++ rest)
      = some (b :: octets, rest) := by
    have hl : octets.length = 3 := by rw [h] at h_len; simpa using h_len
    have h_tail := readOctets_dotted 1 (by omega) octets h_rest
    rw [hl] at h_tail
    have h_head := readNumber_decimal b (noDigit_dotted octets h_rest)
    rw [displayOctets_cons, List.append_assoc]
    simp [readOctets.eq_def 0 4, readSeparator, h_head, h_tail]
  rw [Ipv4Addr.display, h, readIpv4Addr, h_oct]
  have hip := Ipv4Addr.ofOctets_octets ip
  rw [h] at hip
  simpa using hip

/-- **Round trip of a dotted quad.** The display form of an address parses back to it. -/
theorem parseIpv4_display (ip : Ipv4Addr) : parseIpv4 ip.display = some ip := by
  have h_read := readIpv4Addr_display ip (show NoDigit [] from nofun)
  rw [List.append_nil] at h_read
  rw [parseIpv4, if_neg (by have := Ipv4Addr.length_display ip; omega), parseWith, h_read]

end AraxMesh
