import AraxMesh.Identity
import Mathlib.Data.List.TakeWhile

/-!
# Peer specifications, field by field

A descriptor travels as `pubkey;[endpoint];allowed_ip` and is split again at the semicolons.
`parsePeerArg_toSpec` says that this is parsing its three fields one by one.

## Proof sketch

A field that has a semicolon makes four pieces or more of the specification, which is rejected for
their number. So what has to be shown is that such a field does not parse on its own either.

1. The readers of addresses go from the left and consume characters of addresses only (`Consumed`,
   one lemma for each reader). `parseWith` wants nothing left, so the whole text is such characters.
2. A key is hex digits, and a prefix length is decimal digits behind an optional sign.
3. The subnets are split at commas and trimmed, and an address at its slash: a semicolon would
   survive in one of the pieces (`exists_mem_splitOn`, `mem_trim`).
-/

namespace AraxMesh

open BigEndian

namespace Text

/-! ### What the readers go over -/

/-- A character of an address. -/
def AddrChar (c : Char) : Prop := (toDigit 16 c).isSome ∨ c ∈ ['.', ':', '%', '[', ']']

instance (c : Char) : Decidable (AddrChar c) := inferInstanceAs (Decidable (_ ∨ _))

/-- Reading went from `s` to `rest` over characters of addresses. -/
def Consumed (s rest : Str) : Prop := ∃ pre, s = pre ++ rest ∧ ∀ c ∈ pre, AddrChar c

theorem Consumed.refl (s : Str) : Consumed s s := ⟨[], rfl, by simp⟩

theorem Consumed.trans {s t u : Str} (h₁ : Consumed s t) (h₂ : Consumed t u) : Consumed s u := by
  obtain ⟨pre₁, rfl, hc₁⟩ := h₁
  obtain ⟨pre₂, rfl, hc₂⟩ := h₂
  refine ⟨pre₁ ++ pre₂, (List.append_assoc ..).symm, fun c hc => ?_⟩
  rcases List.mem_append.mp hc with hc | hc
  · exact hc₁ c hc
  · exact hc₂ c hc

/-- A reader that leaves nothing went over the whole string. -/
theorem Consumed.all {s : Str} (h : Consumed s []) : ∀ c ∈ s, AddrChar c := by
  obtain ⟨pre, rfl, hc⟩ := h
  rwa [List.append_nil]

/-- A decimal digit is a hexadecimal one. -/
theorem addrChar_of_digit {radix : ℕ} (h_radix : radix = 10 ∨ radix = 16) {c : Char}
    (h : (toDigit radix c).isSome) : AddrChar c := by
  refine Or.inl ?_
  rcases h_radix with rfl | rfl
  · unfold toDigit at h ⊢
    dsimp only at h ⊢
    split_ifs at h ⊢ <;> first | rfl | omega
  · exact h

/-- A number is the digits at the beginning, of which it is the value. -/
theorem consumed_readNumber {radix bound v : ℕ} {maxDigits : Option ℕ} {zero : Bool} {s rest : Str}
    (h_radix : radix = 10 ∨ radix = 16)
    (h : readNumber radix maxDigits zero bound s = some (v, rest)) : Consumed s rest := by
  unfold readNumber at h
  dsimp only at h
  split_ifs at h
  obtain ⟨-, rfl⟩ := Prod.mk.inj (Option.some.inj h)
  refine ⟨_, List.takeWhile_append_dropWhile.symm, fun c hc => ?_⟩
  have h_digit := List.mem_takeWhile_imp (p := fun c => (toDigit radix c).isSome) hc
  exact addrChar_of_digit h_radix h_digit

theorem consumed_readGivenChar {c : Char} (hc : AddrChar c) {s rest : Str}
    (h : readGivenChar c s = some rest) : Consumed s rest := by
  cases s with
  | nil => cases h
  | cons d s =>
    change (if d = c then some s else none) = some rest at h
    split_ifs at h with hd
    obtain rfl := Option.some.inj h
    exact ⟨[d], rfl, by simpa [hd] using hc⟩

/-- Behind the first item stands a separator, which is read with the item after it. -/
theorem consumed_readSeparator {α : Type} {sep : Char} (h_sep : AddrChar sep) {index : ℕ}
    {inner : Str → Option (α × Str)} {s rest : Str} {a : α}
    (h_inner : ∀ s a rest, inner s = some (a, rest) → Consumed s rest)
    (h : readSeparator sep index inner s = some (a, rest)) : Consumed s rest := by
  unfold readSeparator at h
  split_ifs at h
  · exact h_inner s a rest h
  · obtain ⟨t, ht, h⟩ := Option.bind_eq_some_iff.mp h
    exact (consumed_readGivenChar h_sep ht).trans (h_inner t a rest h)

/-- The octets of a dotted quad, by induction on how many there still are. -/
theorem consumed_readOctets {n index : ℕ} {s rest : Str} {octets : Bytes}
    (h : readOctets index n s = some (octets, rest)) : Consumed s rest := by
  induction n generalizing index s octets with
  | zero =>
    obtain ⟨-, rfl⟩ := Prod.mk.inj (Option.some.inj h)
    exact Consumed.refl _
  | succ n ih =>
    unfold readOctets at h
    simp only [Option.bind_eq_bind, Option.bind_eq_some_iff] at h
    obtain ⟨⟨v, t⟩, ht, ⟨vs, u⟩, hu, h⟩ := h
    obtain ⟨-, rfl⟩ := Prod.mk.inj (Option.some.inj h)
    have h_octet := consumed_readSeparator (by decide)
      (fun _ _ _ h => consumed_readNumber (Or.inl rfl) h) ht
    exact h_octet.trans (ih hu)

theorem consumed_readIpv4Addr {s rest : Str} {ip : Ipv4Addr}
    (h : readIpv4Addr s = some (ip, rest)) : Consumed s rest := by
  unfold readIpv4Addr at h
  simp only [Option.bind_eq_bind, Option.bind_eq_some_iff] at h
  obtain ⟨⟨octets, t⟩, ht, h⟩ := h
  obtain ⟨-, rfl⟩ := Prod.mk.inj (Option.some.inj h)
  exact consumed_readOctets ht

/-- However many groups are read: where reading stops is a suffix of what it was given. -/
theorem consumed_readGroups (limit fuel : ℕ) (groups : List ℕ) (s : Str) :
    Consumed s (readGroups limit fuel groups s).2.2 := by
  induction fuel generalizing groups s with
  | zero => exact Consumed.refl s
  | succ fuel ih =>
    unfold readGroups
    dsimp only
    split
    · next ip rest h_ip =>
      -- the last two groups are a dotted quad
      split_ifs at h_ip
      exact consumed_readSeparator (by decide) (fun _ _ _ h => consumed_readIpv4Addr h) h_ip
    · split
      · next group rest h_group =>
        have h_read := consumed_readSeparator (by decide)
          (fun _ _ _ h => consumed_readNumber (Or.inr rfl) h) h_group
        exact h_read.trans (ih _ _)
      · exact Consumed.refl s

theorem consumed_readIpv6Addr {s rest : Str} {segments : List ℕ}
    (h : readIpv6Addr s = some (segments, rest)) : Consumed s rest := by
  have h_head := consumed_readGroups 8 8 [] s
  unfold readIpv6Addr at h
  dsimp only at h
  split_ifs at h
  · -- eight groups, and nothing was left out
    obtain ⟨-, rfl⟩ := Prod.mk.inj (Option.some.inj h)
    exact h_head
  · -- groups, two colons for the zeros, and the groups behind them
    simp only [Option.bind_eq_bind, Option.bind_eq_some_iff] at h
    obtain ⟨t, ht, u, hu, h⟩ := h
    obtain ⟨-, rfl⟩ := Prod.mk.inj (Option.some.inj h)
    have h_colons := (consumed_readGivenChar (by decide) ht).trans
      (consumed_readGivenChar (by decide) hu)
    exact (h_head.trans h_colons).trans (consumed_readGroups _ _ _ u)

theorem consumed_readPort {s rest : Str} {port : ℕ} (h : readPort s = some (port, rest)) :
    Consumed s rest := by
  unfold readPort at h
  simp only [Option.bind_eq_bind, Option.bind_eq_some_iff] at h
  obtain ⟨t, ht, h⟩ := h
  exact (consumed_readGivenChar (by decide) ht).trans (consumed_readNumber (Or.inl rfl) h)

theorem consumed_readScopeId {s rest : Str} {scope : ℕ}
    (h : readScopeId s = some (scope, rest)) : Consumed s rest := by
  unfold readScopeId at h
  simp only [Option.bind_eq_bind, Option.bind_eq_some_iff] at h
  obtain ⟨t, ht, h⟩ := h
  exact (consumed_readGivenChar (by decide) ht).trans (consumed_readNumber (Or.inl rfl) h)

theorem consumed_readSocketAddrV4 {s rest : Str} {a : SocketAddr}
    (h : readSocketAddrV4 s = some (a, rest)) : Consumed s rest := by
  unfold readSocketAddrV4 at h
  simp only [Option.bind_eq_bind, Option.bind_eq_some_iff] at h
  obtain ⟨⟨ip, t⟩, ht, ⟨port, u⟩, hu, h⟩ := h
  obtain ⟨-, rfl⟩ := Prod.mk.inj (Option.some.inj h)
  exact (consumed_readIpv4Addr ht).trans (consumed_readPort hu)

theorem consumed_readSocketAddrV6 {s rest : Str} {a : SocketAddr}
    (h : readSocketAddrV6 s = some (a, rest)) : Consumed s rest := by
  unfold readSocketAddrV6 at h
  simp only [Option.bind_eq_bind, Option.bind_eq_some_iff] at h
  obtain ⟨s₁, h₁, ⟨ip, s₂⟩, h₂, s₃, h₃, ⟨port, s₄⟩, h₄, h⟩ := h
  obtain ⟨-, rfl⟩ := Prod.mk.inj (Option.some.inj h)
  -- the scope is optional
  have h_scope : Consumed s₂ ((readScopeId s₂).getD (0, s₂)).2 := by
    cases h_read : readScopeId s₂ with
    | none => exact Consumed.refl s₂
    | some p =>
      obtain ⟨scope, rest⟩ := p
      exact consumed_readScopeId h_read
  have h_addr := (consumed_readGivenChar (by decide) h₁).trans (consumed_readIpv6Addr h₂)
  have h_close := (consumed_readGivenChar (by decide) h₃).trans (consumed_readPort h₄)
  exact (h_addr.trans h_scope).trans h_close

/-- What is parsed to its end is characters of addresses all through. -/
theorem consumed_of_parseWith {α : Type} {reader : Str → Option (α × Str)} {s : Str} {a : α}
    (h_reader : ∀ s a rest, reader s = some (a, rest) → Consumed s rest)
    (h : parseWith reader s = some a) : ∀ c ∈ s, AddrChar c := by
  unfold parseWith at h
  split at h
  · next b h_read => exact (h_reader s b [] h_read).all
  · cases h

end Text

open Text

theorem addrChar_of_parseIpv4 {s : Str} {ip : Ipv4Addr} (h : parseIpv4 s = some ip) :
    ∀ c ∈ s, AddrChar c := by
  unfold parseIpv4 at h
  split_ifs at h
  exact consumed_of_parseWith (fun _ _ _ h => consumed_readIpv4Addr h) h

theorem addrChar_of_parseSocketAddr {s : Str} {a : SocketAddr} (h : parseSocketAddr s = some a) :
    ∀ c ∈ s, AddrChar c := by
  refine consumed_of_parseWith ?_ h
  intro s a rest h
  -- the other format is tried where the first one does not fit
  cases h_v4 : readSocketAddrV4 s with
  | some p =>
    rw [h_v4] at h
    obtain rfl : p = (a, rest) := Option.some.inj h
    exact consumed_readSocketAddrV4 h_v4
  | none =>
    rw [h_v4] at h
    exact consumed_readSocketAddrV6 h

/-- A key is hex digits, two for a byte. -/
theorem addrChar_of_hexDecode {s : Str} {bytes : Bytes} (h : hexDecode s = some bytes) :
    ∀ c ∈ s, AddrChar c := by
  induction s using hexDecode.induct generalizing bytes with
  | case1 => simp
  | case2 => cases h
  | case3 a b rest ih =>
    unfold hexDecode at h
    simp only [Option.bind_eq_bind, Option.bind_eq_some_iff] at h
    obtain ⟨hi, h_hi, lo, h_lo, bytes', h_rest, -⟩ := h
    intro c hc
    rcases List.mem_cons.mp hc with rfl | hc
    · exact Or.inl (by rw [h_hi]; rfl)
    · rcases List.mem_cons.mp hc with rfl | hc
      · exact Or.inl (by rw [h_lo]; rfl)
      · exact ih h_rest c hc

/-! ### Separators -/

namespace Text

/-- Only white space is trimmed. -/
theorem mem_trim {s : Str} {c : Char} (hc : c ∈ s) (h : isWhitespace c = false) : c ∈ trim s := by
  have h_drop : ∀ t : Str, c ∈ t → c ∈ t.dropWhile isWhitespace := by
    intro t ht
    rw [← t.takeWhile_append_dropWhile (p := isWhitespace)] at ht
    rcases List.mem_append.mp ht with ht | ht
    · rw [List.mem_takeWhile_imp ht] at h
      cases h
    · exact ht
  rw [trim, List.mem_reverse]
  exact h_drop _ (List.mem_reverse.mpr (h_drop s hc))

/-- Nothing is trimmed where no white space is. -/
theorem trim_eq_self {s : Str} (h : ∀ c ∈ s, isWhitespace c = false) : trim s = s := by
  have h_drop : ∀ t : Str, (∀ c ∈ t, isWhitespace c = false) → t.dropWhile isWhitespace = t := by
    intro t ht
    cases t with
    | nil => rfl
    | cons c t => rw [List.dropWhile_cons_of_neg (by simp [ht c])]
  rw [trim, h_drop s h, h_drop _ fun c hc => h c (List.mem_reverse.mp hc), List.reverse_reverse]

/-- Every character of a string but the separators is in one of the pieces. -/
theorem exists_mem_splitOn {c sep : Char} {s : Str} (hc : c ∈ s) (hne : c ≠ sep) :
    ∃ piece ∈ s.splitOn sep, c ∈ piece := by
  induction s with
  | nil => cases hc
  | cons d s ih =>
    rw [List.splitOn_cons_eq_if_modifyHead]
    obtain ⟨piece, pieces, h_pieces⟩ := List.exists_cons_of_ne_nil (List.splitOn_ne_nil sep s)
    rw [h_pieces] at ih ⊢
    rcases List.mem_cons.mp hc with rfl | hc
    · -- the first character begins the first piece
      rw [if_neg (by simpa using hne)]
      exact ⟨c :: piece, by simp, by simp⟩
    · obtain ⟨piece', h_mem, hc'⟩ := ih hc
      by_cases hd : d == sep
      · rw [if_pos hd]
        exact ⟨piece', List.mem_cons_of_mem _ h_mem, hc'⟩
      · rw [if_neg hd, List.modifyHead_cons]
        rcases List.mem_cons.mp h_mem with rfl | h_mem
        · exact ⟨d :: piece', List.mem_cons_self, List.mem_cons_of_mem _ hc'⟩
        · exact ⟨piece', List.mem_cons_of_mem _ h_mem, hc'⟩

/-- Even the empty string is one piece. -/
theorem one_le_length_splitOn (sep : Char) (s : Str) : 1 ≤ (s.splitOn sep).length :=
  List.length_pos_of_ne_nil (List.splitOn_ne_nil sep s)

theorem two_le_length_splitOn {sep : Char} {s : Str} (h : sep ∈ s) :
    2 ≤ (s.splitOn sep).length := by
  obtain ⟨pre, rest, rfl⟩ := List.append_of_mem h
  rw [List.splitOn_append_cons_self, List.length_append]
  have h_pre := one_le_length_splitOn sep pre
  have h_rest := one_le_length_splitOn sep rest
  omega

end Text

/-! ### The fields of a specification -/

/-- All members are mapped, or none. -/
theorem exists_of_mapM {α β : Type} {f : α → Option β} {l : List α} {bs : List β}
    (h : l.mapM f = some bs) : ∀ a ∈ l, ∃ b, f a = some b := by
  induction l generalizing bs with
  | nil => simp
  | cons a l ih =>
    rw [List.mapM_cons] at h
    simp only [Option.bind_eq_bind, Option.bind_eq_some_iff] at h
    obtain ⟨b, hb, bs', hbs, -⟩ := h
    intro a' ha'
    rcases List.mem_cons.mp ha' with rfl | ha'
    · exact ⟨b, hb⟩
    · exact ih hbs a' ha'

/-- The endpoint field: nothing, or an address. -/
def parseEndpoint (s : Str) : Option (Option SocketAddr) :=
  if s = [] then some none else (parseSocketAddr s).map some

/-- The field of the allowed addresses. -/
def parseAllowedIps (s : Str) : Option (List Ipv4Subnet) :=
  (s.splitOn ',').mapM fun part => Ipv4Subnet.fromStr (trim part)

/-- The three fields of a descriptor, parsed one by one. -/
def PeerDescriptor.parsed (d : PeerDescriptor) : Option ParsedPeer := do
  let pubkey ← identity d.publicKey
  let endpoint ← parseEndpoint (d.endpoint.getD [])
  let allowedIps ← parseAllowedIps d.allowedIp
  return { pubkey, endpoint, allowedIps }

/-! No field that parses has a semicolon. -/

theorem notMem_of_identity {s : Str} {key : Bytes} (h : identity s = some key) : ';' ∉ s :=
  fun hc => absurd (addrChar_of_hexDecode (identity_eq_some.mp h).1 _ hc) (by decide)

theorem notMem_of_parseEndpoint {s : Str} {e : Option SocketAddr} (h : parseEndpoint s = some e) :
    ';' ∉ s := by
  unfold parseEndpoint at h
  split_ifs at h with hs
  · simp [hs]
  · obtain ⟨a, ha, -⟩ := Option.map_eq_some_iff.mp h
    exact fun hc => absurd (addrChar_of_parseSocketAddr ha _ hc) (by decide)

/-- After a sign there are digits only. -/
theorem digits_of_parseU8 {s : Str} {n : UInt8} (h : parseU8 s = some n) :
    ∃ ds : Str, (s = ds ∨ s = '+' :: ds) ∧ ∀ c ∈ ds, (toDigit 10 c).isSome = true := by
  unfold parseU8 at h
  dsimp only at h
  split_ifs at h with h_ds
  refine ⟨_, ?_, List.all_eq_true.mp h_ds.2.1⟩
  split
  · exact Or.inr rfl
  · exact Or.inl rfl

theorem notMem_of_parseU8 {s : Str} {n : UInt8} (h : parseU8 s = some n) {c : Char}
    (h_plus : c ≠ '+') (h_digit : ¬ (toDigit 10 c).isSome) : c ∉ s := by
  intro hc
  obtain ⟨ds, h_s, h_digits⟩ := digits_of_parseU8 h
  have h_mem : c ∈ ds := by
    rcases h_s with rfl | rfl
    · exact hc
    · simpa [h_plus] using hc
  exact h_digit (h_digits c h_mem)

theorem notMem_of_fromStr {s : Str} {subnet : Ipv4Subnet} (h : Ipv4Subnet.fromStr s = some subnet) :
    ';' ∉ s := by
  intro hc
  -- it would be in the address or in the prefix length
  obtain ⟨piece, h_mem, hc'⟩ := exists_mem_splitOn hc (show ';' ≠ '/' by decide)
  unfold Ipv4Subnet.fromStr at h
  split at h
  · next addr h_split =>
    obtain rfl : piece = addr := by simpa [h_split] using h_mem
    obtain ⟨ip, h_ip, -⟩ := Option.map_eq_some_iff.mp h
    exact absurd (addrChar_of_parseIpv4 h_ip _ hc') (by decide)
  · next addr len h_split =>
    simp only [Option.bind_eq_bind, Option.bind_eq_some_iff] at h
    obtain ⟨ip, h_ip, n, h_len, -⟩ := h
    rw [h_split] at h_mem
    rcases List.mem_pair.mp h_mem with rfl | rfl
    · exact absurd (addrChar_of_parseIpv4 h_ip _ hc') (by decide)
    · exact notMem_of_parseU8 h_len (by decide) (by decide) hc'
  · cases h

theorem notMem_of_parseAllowedIps {s : Str} {subnets : List Ipv4Subnet}
    (h : parseAllowedIps s = some subnets) : ';' ∉ s := by
  intro hc
  obtain ⟨piece, h_mem, hc'⟩ := exists_mem_splitOn hc (show ';' ≠ ',' by decide)
  unfold parseAllowedIps at h
  obtain ⟨subnet, h_subnet⟩ := exists_of_mapM h piece h_mem
  exact notMem_of_fromStr h_subnet (mem_trim hc' (by decide))

/-- **A specification is read field by field.** The endpoint that a descriptor leaves out is an
empty field. -/
theorem parsePeerArg_toSpec (d : PeerDescriptor) : parsePeerArg d.toSpec = d.parsed := by
  have h_split : d.toSpec.splitOn ';' = d.publicKey.splitOn ';' ++
      ((d.endpoint.getD []).splitOn ';' ++ d.allowedIp.splitOn ';') := by
    rw [PeerDescriptor.toSpec, List.splitOn_append_cons_self, List.splitOn_append_cons_self]
  by_cases h_sep : ';' ∈ d.publicKey ∨ ';' ∈ d.endpoint.getD [] ∨ ';' ∈ d.allowedIp
  · -- there are more than three pieces, and a field that does not parse
    have h_arg : parsePeerArg d.toSpec = none := by
      have h_long : 4 ≤ (d.toSpec.splitOn ';').length := by
        rw [h_split, List.length_append, List.length_append]
        have h₁ := one_le_length_splitOn ';' d.publicKey
        have h₂ := one_le_length_splitOn ';' (d.endpoint.getD [])
        have h₃ := one_le_length_splitOn ';' d.allowedIp
        rcases h_sep with h | h | h <;> have := two_le_length_splitOn h <;> omega
      unfold parsePeerArg
      split
      · next h_three =>
        rw [h_three] at h_long
        simp at h_long
      · rfl
    rw [h_arg, eq_comm]
    -- parsed on their own, the fields would be without semicolons
    by_contra h_some
    obtain ⟨w, hw⟩ := Option.ne_none_iff_exists'.mp h_some
    simp only [PeerDescriptor.parsed, Option.bind_eq_bind, Option.bind_eq_some_iff] at hw
    obtain ⟨key, h_key, e, h_endpoint, subnets, h_ip, -⟩ := hw
    rcases h_sep with h | h | h
    · exact notMem_of_identity h_key h
    · exact notMem_of_parseEndpoint h_endpoint h
    · exact notMem_of_parseAllowedIps h_ip h
  · rw [not_or, not_or] at h_sep
    obtain ⟨h_key, h_endpoint, h_ip⟩ := h_sep
    rw [List.splitOn_eq_singleton h_key, List.splitOn_eq_singleton h_endpoint,
      List.splitOn_eq_singleton h_ip] at h_split
    unfold parsePeerArg PeerDescriptor.parsed identity
    -- the pieces are the three fields, each parsed on its own
    rw [h_split]
    simp only [List.singleton_append]
    cases h_hex : hexDecode d.publicKey with
    | none => rfl
    | some key =>
      by_cases h_len : key.length = 32
      · simp [h_len, Option.filter, parseEndpoint, parseAllowedIps]
      · simp [h_len, Option.filter]

end AraxMesh
