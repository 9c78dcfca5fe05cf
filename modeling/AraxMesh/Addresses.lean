import AraxMesh.Display
import AraxMesh.Routing
import AraxMesh.SpecFields

/-!
# Addresses there and back

What a node prints as an address, another node reads as the same address. The printer leaves out
the longest run of zeros of an IPv6 address and writes an embedded IPv4 address as a dotted quad;
the reader takes what it is given from the left, and tries a dotted quad wherever one may stand.
`parseSocketAddr_display` says that they meet, and `parsePeerArg_canonical` that every peer
specification that is accepted has a spelling of its own, in the format the registry gives out,
which says the same.

## Proof sketch

A reader goes on as long as it can, so each lemma about one has to say what stands behind the text
it is to read: no digit behind a number (`Ends`), no group behind groups (`NoGroup`), a bracket or a
scope behind an IPv6 address (`Behind`).

1. A number is read back from its digits (`readNumber_toDigits`, induction on the number).
2. Before a group the reader tries a dotted quad. A printed group has no dot before the next colon,
   so the try fails and the group is read (`readGroups_displayGroups`).
3. The two colons stand for the longest run of zeros. That the run is zeros at all is an invariant
   of the scan that finds it (`Scanned`). The groups around it are read one after the other, and
   what is missing to eight groups is as long as the run.
4. Behind the address come the scope and the port, which are numbers again.

For the converse, what is accepted is in range: each reader checks its bounds (`readNumber`), or
fills eight groups and no more (`readGroups_bounds`).
-/

namespace AraxMesh

open BigEndian FirstMatch Text

namespace Text

/-! ### Numbers -/

/-- `s` does not go on with a digit. -/
def Ends (radix : ℕ) (s : Str) : Prop := ∀ c, s.head? = some c → toDigit radix c = none

/-- It is the first character that counts. -/
theorem ends_cons {radix : ℕ} {c : Char} (h : toDigit radix c = none) (s : Str) :
    Ends radix (c :: s) := by
  intro d hd
  obtain rfl := Option.some.inj hd
  exact h

theorem toDigit_ten_of_sixteen {c : Char} (h : toDigit 16 c = none) : toDigit 10 c = none := by
  unfold toDigit at h ⊢
  dsimp only at h ⊢
  split_ifs at h ⊢ <;> first | rfl | omega

theorem Ends.decimal {s : Str} (h : Ends 16 s) : Ends 10 s :=
  fun c hc => toDigit_ten_of_sixteen (h c hc)

theorem Ends.noDigit {s : Str} (h : Ends 10 s) : NoDigit s := by
  intro c hc
  rw [h c hc]
  rfl

/-- The printer's digits and the reader's, for every radix there is. -/
theorem toDigit_digitChar_of_lt : ∀ radix : Fin 17, ∀ d : Fin 16, d.val < radix.val →
    toDigit radix (Nat.digitChar d) = some d.val := by
  decide

section Numbers

variable {radix : ℕ} (h_two : 2 ≤ radix) (h_sixteen : radix ≤ 16)
include h_two h_sixteen

/-- A number is written in digits, and they say it. -/
theorem digits_toDigits (n : ℕ) :
    (∀ c ∈ Nat.toDigits radix n, (toDigit radix c).isSome = true) ∧
      digitsValue radix (Nat.toDigits radix n) = n := by
  have h_digit : ∀ d < radix, toDigit radix (Nat.digitChar d) = some d := fun d hd =>
    toDigit_digitChar_of_lt ⟨radix, by omega⟩ ⟨d, by omega⟩ hd
  induction n using Nat.strong_induction_on with
  | h n ih =>
    by_cases h_lt : n < radix
    · rw [Nat.toDigits_of_lt_base h_lt]
      refine ⟨fun c hc => ?_, ?_⟩
      · obtain rfl := List.mem_singleton.mp hc
        rw [h_digit n h_lt]
        rfl
      · simp [digitsValue, h_digit n h_lt]
    · -- the last digit is read onto the others
      have h_mod : n % radix < radix := Nat.mod_lt _ (by omega)
      obtain ⟨h_all, h_value⟩ := ih (n / radix) (Nat.div_lt_self (by omega) h_two)
      rw [Nat.toDigits_of_base_le h_two (by omega)]
      refine ⟨fun c hc => ?_, ?_⟩
      · rcases List.mem_append.mp hc with hc | hc
        · exact h_all c hc
        · obtain rfl := List.mem_singleton.mp hc
          rw [h_digit _ h_mod]
          rfl
      · rw [digitsValue] at h_value ⊢
        rw [List.foldl_append, h_value]
        simp [h_digit _ h_mod, Nat.div_add_mod']

/-- A number is read up to where its digits end. -/
theorem readNumber_toDigits {maxDigits : Option ℕ} {bound n : ℕ} (h_bound : n < bound)
    (h_max : ∀ m, maxDigits = some m → (Nat.toDigits radix n).length ≤ m) {rest : Str}
    (h_rest : Ends radix rest) :
    readNumber radix maxDigits true bound (Nat.toDigits radix n ++ rest) = some (n, rest) := by
  obtain ⟨h_all, h_value⟩ := digits_toDigits h_two h_sixteen n
  have h_stop : rest.takeWhile (fun c => (toDigit radix c).isSome) = [] ∧
      rest.dropWhile (fun c => (toDigit radix c).isSome) = rest := by
    cases rest with
    | nil => exact ⟨rfl, rfl⟩
    | cons c rest => simp [h_rest c rfl]
  have h_take : (Nat.toDigits radix n ++ rest).takeWhile (fun c => (toDigit radix c).isSome)
      = Nat.toDigits radix n := by
    rw [List.takeWhile_append_of_pos h_all, h_stop.1, List.append_nil]
  have h_drop : (Nat.toDigits radix n ++ rest).dropWhile (fun c => (toDigit radix c).isSome)
      = rest := by
    rw [List.dropWhile_append_of_pos h_all, h_stop.2]
  have h_fits : ¬ maxDigits.any (· < (Nat.toDigits radix n).length) = true := by
    cases maxDigits with
    | none => exact Bool.false_ne_true
    | some m => simpa using h_max m rfl
  rw [readNumber, h_take, h_drop, if_neg Nat.toDigits_ne_nil, if_neg h_fits, if_neg (by simp),
    h_value, if_pos h_bound]

end Numbers

theorem readNumber_decimal_of_lt {bound n : ℕ} (h_bound : n < bound) {rest : Str}
    (h_rest : Ends 10 rest) :
    readNumber 10 none true bound (decimal n ++ rest) = some (n, rest) := by
  refine readNumber_toDigits (by decide) (by decide) h_bound ?_ h_rest
  exact nofun

/-- A group of an IPv6 address has four digits at most, since it is below `65536`. -/
theorem readNumber_lowerHex {n : ℕ} (h_bound : n < 65536) {rest : Str} (h_rest : Ends 16 rest) :
    readNumber 16 (some 4) true 65536 (lowerHex n ++ rest) = some (n, rest) := by
  refine readNumber_toDigits (by decide) (by decide) h_bound ?_ h_rest
  rintro m hm
  obtain rfl := Option.some.inj hm
  exact (Nat.length_toDigits_le_iff (by decide) (by decide)).mpr h_bound

/-- Where no digit is, no number is read. -/
theorem readNumber_eq_none {radix bound : ℕ} {maxDigits : Option ℕ} {zero : Bool} {s : Str}
    (h : Ends radix s) : readNumber radix maxDigits zero bound s = none := by
  have h_take : s.takeWhile (fun c => (toDigit radix c).isSome) = [] := by
    cases s with
    | nil => rfl
    | cons c s => simp [h c rfl]
  rw [readNumber, if_pos h_take]

/-! ### Groups -/

theorem readIpv4Addr_eq_none {s : Str} (h : Ends 10 s) : readIpv4Addr s = none := by
  simp [readIpv4Addr, readOctets, readSeparator, readNumber_eq_none h]

/-- Where no dot is, there is no dotted quad. -/
theorem readIpv4Addr_eq_none_of_notMem {s : Str} (h : '.' ∉ s) : readIpv4Addr s = none := by
  cases h_first : readNumber 10 (some 3) false 256 s with
  | none => simp [readIpv4Addr, readOctets, readSeparator, h_first]
  | some read =>
    obtain ⟨v, rest⟩ := read
    -- the second octet needs a dot before it
    obtain ⟨pre, rfl, -⟩ := consumed_readNumber (Or.inl rfl) h_first
    have h_dot : readGivenChar '.' rest = none := by
      cases rest with
      | nil => rfl
      | cons c rest => exact if_neg fun hc => h (by simp [hc])
    simp [readIpv4Addr, readOctets, readSeparator, h_first, h_dot]

/-- No group comes next, where `index` of them were read. -/
def NoGroup (index : ℕ) (s : Str) : Prop :=
  if index = 0 then Ends 16 s else ∀ t, s = ':' :: t → Ends 16 t

/-- Then no item is read either, whatever an item is, if it needs a digit. -/
theorem readSeparator_eq_none {α : Type} {index : ℕ} {inner : Str → Option (α × Str)} {s : Str}
    (h : NoGroup index s) (h_inner : ∀ t, Ends 16 t → inner t = none) :
    readSeparator ':' index inner s = none := by
  unfold NoGroup at h
  unfold readSeparator
  split_ifs at h ⊢ with h_index
  · exact h_inner s h
  · cases s with
    | nil => rfl
    | cons c s =>
      rw [readGivenChar]
      split_ifs with hc
      · exact h_inner s (h s (by rw [hc]))
      · rfl

/-- Reading stops where no group comes next. -/
theorem readGroups_of_noGroup {limit fuel : ℕ} {groups : List ℕ} {s : Str}
    (h : NoGroup groups.length s) : readGroups limit fuel groups s = (groups, false, s) := by
  cases fuel with
  | zero => rfl
  | succ fuel =>
    have h_quad : readSeparator ':' groups.length readIpv4Addr s = none :=
      readSeparator_eq_none h fun t ht => readIpv4Addr_eq_none ht.decimal
    have h_group : readSeparator ':' groups.length (readNumber 16 (some 4) true 65536) s = none :=
      readSeparator_eq_none h fun t ht => readNumber_eq_none ht
    simp [readGroups, h_quad, h_group]

/-- A group that is not the beginning of a dotted quad is read. -/
theorem readGroups_of_group {limit fuel : ℕ} {groups : List ℕ} {s rest : Str} {g : ℕ}
    (h_quad : readSeparator ':' groups.length readIpv4Addr s = none)
    (h : readSeparator ':' groups.length (readNumber 16 (some 4) true 65536) s = some (g, rest)) :
    readGroups limit (fuel + 1) groups s = readGroups limit fuel (groups ++ [g]) rest := by
  simp [readGroups, h_quad, h]

/-- The groups after the first one, each with its colon. -/
def coloned (groups : List ℕ) : Str := groups.flatMap fun g => ':' :: lowerHex g

/-- Groups are printed as the first one, and the others with their colons. -/
theorem displayGroups_cons (g : ℕ) (groups : List ℕ) :
    displayGroups (g :: groups) = lowerHex g ++ coloned groups := by
  induction groups generalizing g with
  | nil => simp [displayGroups, coloned, List.intercalate]
  | cons h groups ih =>
    have h_tail := ih h
    simp only [displayGroups, List.map_cons, List.intercalate_cons_cons] at h_tail ⊢
    rw [h_tail]
    simp [coloned]

theorem ends_coloned (groups : List ℕ) {rest : Str} (h : Ends 16 rest) :
    Ends 16 (coloned groups ++ rest) := by
  cases groups with
  | nil => exact h
  | cons g groups => exact ends_cons (by decide) _

/-! No dot is in printed groups, so that no dotted quad is read where a group begins. -/

theorem dot_notMem_lowerHex (n : ℕ) : '.' ∉ lowerHex n := by
  intro h
  have h_digit := (digits_toDigits (show 2 ≤ 16 by decide) (by decide) n).1 '.' h
  exact absurd h_digit (by decide)

theorem dot_notMem_coloned (groups : List ℕ) : '.' ∉ coloned groups := by
  rw [coloned, List.mem_flatMap]
  rintro ⟨g, -, h⟩
  rcases List.mem_cons.mp h with h | h
  · exact absurd h (by decide)
  · exact dot_notMem_lowerHex g h

theorem dot_notMem_displayGroups (groups : List ℕ) : '.' ∉ displayGroups groups := by
  cases groups with
  | nil => exact List.not_mem_nil
  | cons g groups =>
    rw [displayGroups_cons, List.mem_append]
    exact fun h => h.elim (dot_notMem_lowerHex g) (dot_notMem_coloned groups)

/-- The groups after the first one are read, one by one: in the induction they go from the text to
those that were read. -/
theorem readGroups_coloned {limit fuel : ℕ} {groups gs : List ℕ} (h_groups : groups ≠ [])
    (h_bound : ∀ g ∈ gs, g < 65536) {rest : Str} (h_dot : '.' ∉ rest) (h_rest : Ends 16 rest) :
    readGroups limit (gs.length + fuel) groups (coloned gs ++ rest) =
      readGroups limit fuel (groups ++ gs) rest := by
  induction gs generalizing groups with
  | nil => simp [coloned]
  | cons g gs ih =>
    have h_index : groups.length ≠ 0 := fun h => h_groups (List.eq_nil_of_length_eq_zero h)
    have h_text : coloned (g :: gs) ++ rest = ':' :: (lowerHex g ++ (coloned gs ++ rest)) := by
      simp [coloned]
    have h_free : '.' ∉ lowerHex g ++ (coloned gs ++ rest) := by
      simp only [List.mem_append, not_or]
      exact ⟨dot_notMem_lowerHex g, dot_notMem_coloned gs, h_dot⟩
    have h_quad : readSeparator ':' groups.length readIpv4Addr (coloned (g :: gs) ++ rest)
        = none := by
      rw [h_text, readSeparator, if_neg h_index, readGivenChar, if_pos rfl, Option.bind_some]
      exact readIpv4Addr_eq_none_of_notMem h_free
    have h_group : readSeparator ':' groups.length (readNumber 16 (some 4) true 65536)
        (coloned (g :: gs) ++ rest) = some (g, coloned gs ++ rest) := by
      rw [h_text, readSeparator, if_neg h_index, readGivenChar, if_pos rfl, Option.bind_some]
      exact readNumber_lowerHex (h_bound g List.mem_cons_self) (ends_coloned gs h_rest)
    rw [List.length_cons, Nat.add_right_comm, readGroups_of_group h_quad h_group,
      ih (by simp) fun g' hg' => h_bound g' (List.mem_cons_of_mem _ hg')]
    simp

/-- Groups are read up to where they end. -/
theorem readGroups_displayGroups {limit fuel : ℕ} {gs : List ℕ} (h_bound : ∀ g ∈ gs, g < 65536)
    {rest : Str} (h_dot : '.' ∉ rest) (h_ends : Ends 16 rest) (h_rest : NoGroup gs.length rest) :
    readGroups limit (gs.length + fuel) [] (displayGroups gs ++ rest) = (gs, false, rest) := by
  cases gs with
  | nil => exact readGroups_of_noGroup h_rest
  | cons g gs =>
    have h_text : displayGroups (g :: gs) ++ rest = lowerHex g ++ (coloned gs ++ rest) := by
      rw [displayGroups_cons, List.append_assoc]
    have h_quad : readSeparator ':' 0 readIpv4Addr (displayGroups (g :: gs) ++ rest) = none := by
      refine readIpv4Addr_eq_none_of_notMem ?_
      rw [List.mem_append, not_or]
      exact ⟨dot_notMem_displayGroups _, h_dot⟩
    have h_group : readSeparator ':' 0 (readNumber 16 (some 4) true 65536)
        (displayGroups (g :: gs) ++ rest) = some (g, coloned gs ++ rest) := by
      rw [h_text]
      exact readNumber_lowerHex (h_bound g List.mem_cons_self) (ends_coloned gs h_ends)
    calc readGroups limit ((g :: gs).length + fuel) [] (displayGroups (g :: gs) ++ rest)
        = readGroups limit (gs.length + fuel + 1) [] (displayGroups (g :: gs) ++ rest) := by
          rw [List.length_cons, Nat.add_right_comm]
      _ = readGroups limit (gs.length + fuel) [g] (coloned gs ++ rest) :=
          readGroups_of_group h_quad h_group
      _ = readGroups limit fuel (g :: gs) rest :=
          readGroups_coloned (by simp) (fun g' hg' => h_bound g' (List.mem_cons_of_mem _ hg'))
            h_dot h_ends
      _ = (g :: gs, false, rest) := readGroups_of_noGroup h_rest

/-! ### Runs of zeros -/

namespace Span

/-- The span is inside the segments, and zero. -/
def Zeros (s : Span) (segments : List ℕ) : Prop :=
  ∀ i, s.start ≤ i → i < s.start + s.len → segments[i]? = some 0

theorem Zeros.append {s : Span} {segments : List ℕ} (h : s.Zeros segments) (more : List ℕ) :
    s.Zeros (segments ++ more) := by
  intro i h_start h_end
  have h_zero := h i h_start h_end
  rwa [List.getElem?_append_left (List.getElem?_eq_some_iff.mp h_zero).1]

theorem Zeros.le_length {s : Span} {segments : List ℕ} (h : s.Zeros segments) (h_len : 0 < s.len) :
    s.start + s.len ≤ segments.length := by
  have h_last := h (s.start + s.len - 1) (by omega) (by omega)
  have h_lt := (List.getElem?_eq_some_iff.mp h_last).1
  omega

/-- The segments around the span, and the span itself filled with zeros. -/
theorem Zeros.split {s : Span} {segments : List ℕ} (h : s.Zeros segments) :
    segments.take s.start ++ List.replicate s.len 0 ++ segments.drop (s.start + s.len)
      = segments := by
  have h_middle : (segments.drop s.start).take s.len = List.replicate s.len 0 := by
    ext1 i
    rw [List.getElem?_take, List.getElem?_drop, List.getElem?_replicate]
    split_ifs with h_lt
    · exact h (s.start + i) (by omega) (by omega)
    · rfl
  rw [← h_middle, ← List.drop_drop, List.append_assoc, List.take_append_drop,
    List.take_append_drop]

end Span

/-- What the scan for the longest run keeps: both runs are zeros, and the current one reaches to
where the scan is. -/
structure Scanned (acc : Span × Span) (segments : List ℕ) : Prop where
  longest : acc.1.Zeros segments
  current : acc.2.Zeros segments
  reaches : acc.2.len ≠ 0 → acc.2.start + acc.2.len = segments.length

/-- The current run, longer by one zero. -/
theorem Scanned.grown {acc : Span × Span} {segments : List ℕ} (h : Scanned acc segments)
    (run : Span) (h_len : run.len = acc.2.len + 1)
    (h_start : run.start = if acc.2.len = 0 then segments.length else acc.2.start) :
    run.Zeros (segments ++ [0]) ∧ run.start + run.len = (segments ++ [0]).length := by
  have h_reach : run.start + run.len = segments.length + 1 := by
    have h_reaches := h.reaches
    split_ifs at h_start with h_first
    · omega
    · have := h_reaches h_first
      omega
  refine ⟨fun i hi hi' => ?_, by rw [h_reach, List.length_append, List.length_singleton]⟩
  rcases Nat.lt_succ_iff_lt_or_eq.mp (h_reach ▸ hi') with h_lt | rfl
  · have h_old : acc.2.len ≠ 0 := by
      intro h_first
      rw [if_pos h_first] at h_start
      omega
    rw [if_neg h_old] at h_start
    have h_zero := h.current i (by omega) (by have := h.reaches h_old; omega)
    rwa [List.getElem?_append_left h_lt]
  · exact List.getElem?_concat_length

/-- **The scan keeps its invariant**: at a zero the current run grows, and may now be the longest;
at anything else it is over. -/
theorem Scanned.step {acc : Span × Span} {segments : List ℕ} (h : Scanned acc segments)
    (segment : ℕ) : Scanned (scanZeros acc (segment, segments.length)) (segments ++ [segment]) := by
  unfold scanZeros
  dsimp only
  by_cases h_zero : segment = 0
  · subst h_zero
    rw [if_pos rfl]
    obtain ⟨h_run, h_reaches⟩ := h.grown
      ⟨if acc.2.len = 0 then segments.length else acc.2.start, acc.2.len + 1⟩ rfl rfl
    refine ⟨?_, h_run, fun _ => h_reaches⟩
    by_cases h_longer : acc.1.len < acc.2.len + 1
    · rw [if_pos h_longer]
      exact h_run
    · rw [if_neg h_longer]
      exact h.longest.append _
  · rw [if_neg h_zero]
    exact ⟨h.longest.append _, fun i _ hi => absurd hi (Nat.not_lt_zero i), fun h => absurd rfl h⟩

/-- What the scan ends with is a run of zeros. That no run is longer does not matter for reading it
back. -/
theorem zeros_longestZeros (segments : List ℕ) : (longestZeros segments).Zeros segments := by
  -- the scan is at the end of `done`, and has `todo` before it
  have h_scan : ∀ done todo : List ℕ, ∀ acc, Scanned acc done →
      Scanned ((todo.zipIdx done.length).foldl scanZeros acc) (done ++ todo) := by
    intro done todo
    induction todo generalizing done with
    | nil => simp
    | cons g todo ih =>
      intro acc h
      have h_next := ih (done ++ [g]) _ (h.step g)
      rw [List.length_append, List.length_singleton, List.append_assoc, List.singleton_append]
        at h_next
      rw [List.zipIdx_cons, List.foldl_cons]
      exact h_next
  have h_empty : Scanned (⟨0, 0⟩, ⟨0, 0⟩) [] :=
    ⟨fun i _ hi => absurd hi (by simp), fun i _ hi => absurd hi (by simp), fun h => absurd rfl h⟩
  exact (h_scan [] segments _ h_empty).longest

/-! ### IPv6 addresses -/

/-- What may come behind an address in brackets. -/
structure Behind (rest : Str) : Prop where
  dot : '.' ∉ rest
  head : ∀ c, rest.head? = some c → c = ']' ∨ c = '%'

theorem Behind.ends {rest : Str} (h : Behind rest) : Ends 16 rest := by
  intro c hc
  rcases h.head c hc with rfl | rfl <;> decide

/-- A bracket and a scope are no colon, and no digit. -/
theorem Behind.noGroup {rest : Str} (h : Behind rest) (index : ℕ) : NoGroup index rest := by
  unfold NoGroup
  split_ifs
  · exact h.ends
  · rintro t rfl
    exact absurd (h.head ':' rfl) (by decide)

/-- Two colons are no group. -/
theorem noGroup_colons (index : ℕ) (s : Str) : NoGroup index (':' :: ':' :: s) := by
  unfold NoGroup
  split_ifs
  · exact ends_cons (by decide) _
  · intro t ht
    obtain rfl := (List.cons.inj ht).2
    exact ends_cons (by decide) _

/-- A dotted quad ends the groups. -/
theorem readGroups_of_quad {limit fuel : ℕ} {groups : List ℕ} {s rest : Str} {ip : Ipv4Addr}
    (h_room : groups.length + 1 < limit)
    (h : readSeparator ':' groups.length readIpv4Addr s = some (ip, rest)) :
    readGroups limit (fuel + 1) groups s =
      (groups ++ [ip.toNat / 65536, ip.toNat % 65536], true, rest) := by
  simp [readGroups, h_room, h]

/-- Eight groups are an address. -/
theorem readIpv6Addr_of_groups {segments : List ℕ} {s rest : Str} {quad : Bool}
    (h : readGroups 8 8 [] s = (segments, quad, rest)) (h_len : segments.length = 8) :
    readIpv6Addr s = some (segments, rest) := by
  simp [readIpv6Addr, h, h_len]

/-- The groups around two colons, with zeros between them. -/
theorem readIpv6Addr_of_colons {hd tl : List ℕ} {s t rest : Str} {quad : Bool}
    (h_hd : readGroups 8 8 [] s = (hd, false, ':' :: ':' :: t)) (h_len : hd.length ≠ 8)
    (h_tl : readGroups (8 - (hd.length + 1)) (8 - (hd.length + 1)) [] t = (tl, quad, rest)) :
    readIpv6Addr s =
      some (hd ++ List.replicate (8 - hd.length - tl.length) 0 ++ tl, rest) := by
  rw [readIpv6Addr, h_hd]
  dsimp only
  rw [if_neg h_len, if_neg Bool.false_ne_true]
  simp only [readGivenChar, if_true, Option.bind_eq_bind, Option.bind_some, h_tl]
  rfl

/-- An IPv4 address in an IPv6 one. -/
theorem readIpv6Addr_embedded {hi lo : ℕ} (h_hi : hi < 65536) (h_lo : lo < 65536) {rest : Str}
    (h_rest : Behind rest) :
    readIpv6Addr ("::ffff:".toList ++ Ipv4Addr.display (UInt32.ofNat (hi * 65536 + lo)) ++ rest) =
      some ([0, 0, 0, 0, 0, 0xFFFF, hi, lo], rest) := by
  set ip : Ipv4Addr := UInt32.ofNat (hi * 65536 + lo) with h_ip
  have h_value : ip.toNat = hi * 65536 + lo := by
    rw [h_ip, UInt32.toNat_ofNat_of_lt' (by simp only [UInt32.size]; omega)]
  have h_hd : readGroups 8 8 [] ("::ffff:".toList ++ ip.display ++ rest) =
      ([], false, ':' :: ':' :: (lowerHex 0xFFFF ++ (':' :: (ip.display ++ rest)))) := by
    exact readGroups_of_noGroup (noGroup_colons _ _)
  have h_tl : readGroups 7 7 [] (lowerHex 0xFFFF ++ (':' :: (ip.display ++ rest))) =
      ([0xFFFF, ip.toNat / 65536, ip.toNat % 65536], true, rest) := by
    have h_quad : readSeparator ':' 0 readIpv4Addr
        (lowerHex 0xFFFF ++ (':' :: (ip.display ++ rest))) = none :=
      readIpv4Addr_eq_none (ends_cons (by decide) _)
    have h_group : readSeparator ':' 0 (readNumber 16 (some 4) true 65536)
        (lowerHex 0xFFFF ++ (':' :: (ip.display ++ rest))) =
          some (0xFFFF, ':' :: (ip.display ++ rest)) := by
      rw [readSeparator, if_pos rfl]
      exact readNumber_lowerHex (by decide) (ends_cons (by decide) _)
    have h_addr : readSeparator ':' 1 readIpv4Addr (':' :: (ip.display ++ rest)) =
        some (ip, rest) := readIpv4Addr_display ip h_rest.ends.decimal.noDigit
    calc readGroups 7 7 [] (lowerHex 0xFFFF ++ (':' :: (ip.display ++ rest)))
        = readGroups 7 6 [0xFFFF] (':' :: (ip.display ++ rest)) :=
          readGroups_of_group h_quad h_group
      _ = ([0xFFFF, ip.toNat / 65536, ip.toNat % 65536], true, rest) :=
          readGroups_of_quad (by decide) h_addr
  rw [readIpv6Addr_of_colons h_hd (by decide) h_tl, h_value]
  have h_div : (hi * 65536 + lo) / 65536 = hi := by omega
  have h_mod : (hi * 65536 + lo) % 65536 = lo := by omega
  rw [h_div, h_mod]
  rfl

/-- **Round trip of an IPv6 address**, up to where it ends. -/
theorem readIpv6Addr_display {segments : List ℕ} (h_len : segments.length = 8)
    (h_bound : ∀ g ∈ segments, g < 65536) {rest : Str} (h_rest : Behind rest) :
    readIpv6Addr (displayIpv6 segments ++ rest) = some (segments, rest) := by
  unfold displayIpv6
  split
  · next hi lo => exact readIpv6Addr_embedded (h_bound hi (by simp)) (h_bound lo (by simp)) h_rest
  · dsimp only
    split_ifs with h_two
    · -- the segments before the zeros, and those after them
      have h_zeros := zeros_longestZeros segments
      have h_end := h_zeros.le_length (by omega)
      have h_split := h_zeros.split
      generalize longestZeros segments = zeros at h_two h_end h_split ⊢
      set hd := segments.take zeros.start with h_hd
      set tl := segments.drop (zeros.start + zeros.len) with h_tl
      have h_hd_len : hd.length = zeros.start := by rw [h_hd, List.length_take]; omega
      have h_tl_len : tl.length = 8 - (zeros.start + zeros.len) := by
        rw [h_tl, List.length_drop, h_len]
      have h_read_hd : readGroups 8 8 [] (displayGroups hd ++ "::".toList ++ displayGroups tl
          ++ rest) = (hd, false, ':' :: ':' :: (displayGroups tl ++ rest)) := by
        -- the groups before the zeros end at the colons, whatever room is left
        have h_fuel : hd.length + (8 - hd.length) = 8 := by omega
        have h_dot : '.' ∉ ':' :: ':' :: (displayGroups tl ++ rest) := by
          simp only [List.mem_cons, List.mem_append, not_or]
          exact ⟨by decide, by decide, dot_notMem_displayGroups tl, h_rest.dot⟩
        have h_read : readGroups 8 (hd.length + (8 - hd.length)) [] (displayGroups hd ++ _) =
            (hd, false, ':' :: ':' :: (displayGroups tl ++ rest)) :=
          readGroups_displayGroups (fun g hg => h_bound g (List.mem_of_mem_take hg)) h_dot
            (ends_cons (by decide) _) (noGroup_colons hd.length _)
        rw [h_fuel] at h_read
        rw [List.append_assoc, List.append_assoc]
        exact h_read
      have h_read_tl : readGroups (8 - (hd.length + 1)) (8 - (hd.length + 1)) []
          (displayGroups tl ++ rest) = (tl, false, rest) := by
        have h_fuel : 8 - (hd.length + 1) = tl.length + (zeros.len - 1) := by omega
        rw [h_fuel]
        exact readGroups_displayGroups (fun g hg => h_bound g (List.mem_of_mem_drop hg)) h_rest.dot
          h_rest.ends (h_rest.noGroup tl.length)
      -- what the two parts leave of the eight segments are the zeros
      have h_gap : 8 - hd.length - tl.length = zeros.len := by omega
      rw [readIpv6Addr_of_colons h_read_hd (by omega) h_read_tl, h_gap, h_split]
    · -- no run of two zeros or more: all eight groups are printed
      have h_read : readGroups 8 (segments.length + 0) [] (displayGroups segments ++ rest) =
          (segments, false, rest) :=
        readGroups_displayGroups h_bound h_rest.dot h_rest.ends (h_rest.noGroup segments.length)
      rw [h_len] at h_read
      exact readIpv6Addr_of_groups h_read h_len

/-! ### Socket addresses -/

/-- The port is last, with nothing behind it. -/
theorem readPort_decimal {port : ℕ} (h : port < 65536) :
    readPort (':' :: decimal port) = some (port, []) := by
  have h_read : readNumber 10 none true 65536 (decimal port ++ []) = some (port, []) :=
    readNumber_decimal_of_lt h nofun
  rw [List.append_nil] at h_read
  rw [readPort, readGivenChar, if_pos rfl]
  exact h_read

/-- The scope, if there is one, is read up to the bracket. -/
theorem readScopeId_display {scopeId : ℕ} (h : scopeId < 4294967296) (rest : Str) :
    (readScopeId ((if scopeId = 0 then [] else '%' :: decimal scopeId) ++ ']' :: rest)).getD
      (0, (if scopeId = 0 then [] else '%' :: decimal scopeId) ++ ']' :: rest) =
        (scopeId, ']' :: rest) := by
  split_ifs with h_zero
  · rw [h_zero]
    rfl
  · have h_read : readNumber 10 none true 4294967296 (decimal scopeId ++ ']' :: rest) =
        some (scopeId, ']' :: rest) := readNumber_decimal_of_lt h (ends_cons (by decide) rest)
    rw [List.cons_append, readScopeId, readGivenChar, if_pos rfl]
    exact congrArg (Option.getD · _) h_read

theorem dot_notMem_decimal (n : ℕ) : '.' ∉ decimal n := by
  intro h
  have h_digit := (digits_toDigits (show 2 ≤ 10 by decide) (by decide) n).1 '.' h
  exact absurd h_digit (by decide)

/-- Behind the address stands the scope, or the bracket if there is none. -/
theorem behind_scope (scopeId port : ℕ) : Behind
    ((if scopeId = 0 then [] else '%' :: decimal scopeId) ++ ']' :: ':' :: decimal port) where
  dot := by
    have h_port := dot_notMem_decimal port
    have h_scope := dot_notMem_decimal scopeId
    split_ifs <;> simp [h_port, h_scope]
  head c hc := by
    split_ifs at hc
    · exact Or.inl (Option.some.inj hc).symm
    · exact Or.inr (Option.some.inj hc).symm

end Text

/-- A socket address in the ranges of its type. The flow information is not part of the text. -/
def SocketAddr.Valid : SocketAddr → Prop
  | .v4 _ port => port < 65536
  | .v6 segments port flowinfo scopeId =>
    segments.length = 8 ∧ (∀ g ∈ segments, g < 65536) ∧ port < 65536 ∧ flowinfo = 0 ∧
      scopeId < 4294967296

/-- **Round trip of a socket address.** -/
theorem parseSocketAddr_display {a : SocketAddr} (h : a.Valid) :
    parseSocketAddr a.display = some a := by
  cases a with
  | v4 ip port =>
    have h_ip : readIpv4Addr (ip.display ++ ':' :: decimal port) = some (ip, ':' :: decimal port) :=
      readIpv4Addr_display ip (ends_cons (by decide) _).noDigit
    have h_read : readSocketAddrV4 (ip.display ++ ':' :: decimal port) =
        some (.v4 ip port, []) := by
      simp [readSocketAddrV4, h_ip, readPort_decimal h]
    rw [parseSocketAddr, SocketAddr.display, parseWith, h_read]
    rfl
  | v6 segments port flowinfo scopeId =>
    obtain ⟨h_len, h_bound, h_port, rfl, h_scope⟩ := h
    rw [parseSocketAddr, SocketAddr.display, List.append_assoc]
    set scope := (if scopeId = 0 then [] else '%' :: decimal scopeId) with h_text
    -- an IPv4 address does not begin with a bracket
    have h_v4 : readSocketAddrV4 ('[' :: (displayIpv6 segments ++
        (scope ++ ']' :: ':' :: decimal port))) = none := by
      have h_ends : Ends 10 ('[' :: (displayIpv6 segments ++ (scope ++ ']' :: ':' :: decimal port)))
        := ends_cons (by decide) _
      rw [readSocketAddrV4, readIpv4Addr_eq_none h_ends]
      rfl
    have h_ip := readIpv6Addr_display h_len h_bound (behind_scope scopeId port)
    have h_id := readScopeId_display h_scope (':' :: decimal port)
    rw [← h_text] at h_ip h_id
    have h_read : readSocketAddrV6 ('[' :: (displayIpv6 segments ++
        (scope ++ ']' :: ':' :: decimal port))) = some (.v6 segments port 0 scopeId, []) := by
      rw [readSocketAddrV6, readGivenChar, if_pos rfl]
      simp only [Option.bind_eq_bind, Option.bind_some, h_ip, h_id]
      rw [readGivenChar, if_pos rfl]
      simp only [Option.bind_some, readPort_decimal h_port]
      rfl
    rw [parseWith, h_v4, Option.orElse_none, h_read]

/-! ### What is accepted -/

namespace Text

/-- A number that is read is below its bound. -/
theorem lt_of_readNumber {radix bound v : ℕ} {maxDigits : Option ℕ} {zero : Bool} {s rest : Str}
    (h : readNumber radix maxDigits zero bound s = some (v, rest)) : v < bound := by
  unfold readNumber at h
  dsimp only at h
  split_ifs at h with _ _ _ h_lt
  obtain ⟨rfl, -⟩ := Prod.mk.inj (Option.some.inj h)
  exact h_lt

theorem of_readSeparator {α : Type} {sep : Char} {index : ℕ} {inner : Str → Option (α × Str)}
    {s rest : Str} {a : α} (h : readSeparator sep index inner s = some (a, rest)) :
    ∃ t, inner t = some (a, rest) := by
  unfold readSeparator at h
  split_ifs at h
  · exact ⟨s, h⟩
  · obtain ⟨t, -, h⟩ := Option.bind_eq_some_iff.mp h
    exact ⟨t, h⟩

/-- The groups that are read are in range, and not too many. -/
theorem readGroups_bounds {limit fuel : ℕ} {groups : List ℕ} {s : Str}
    (h_bound : ∀ g ∈ groups, g < 65536) (h_room : groups.length + fuel ≤ limit) :
    (∀ g ∈ (readGroups limit fuel groups s).1, g < 65536) ∧
      (readGroups limit fuel groups s).1.length ≤ limit := by
  induction fuel generalizing groups s with
  | zero => exact ⟨h_bound, h_room⟩
  | succ fuel ih =>
    unfold readGroups
    dsimp only
    split
    · next ip rest h_quad =>
      -- a dotted quad is two groups
      split_ifs at h_quad with h_two
      have h_ip := ip.toNat_lt
      refine ⟨fun g hg => ?_, ?_⟩
      · simp only [List.mem_append, List.mem_cons, List.not_mem_nil, or_false] at hg
        rcases hg with hg | rfl | rfl
        · exact h_bound g hg
        · omega
        · omega
      · simp only [List.length_append, List.length_cons, List.length_nil]
        omega
    · split
      · next group rest h_group =>
        obtain ⟨t, ht⟩ := of_readSeparator h_group
        refine ih (fun g hg => ?_) (by rw [List.length_append, List.length_singleton]; omega)
        rcases List.mem_append.mp hg with hg | hg
        · exact h_bound g hg
        · obtain rfl := List.mem_singleton.mp hg
          exact lt_of_readNumber ht
      · exact ⟨h_bound, Nat.le_trans (Nat.le_add_right _ _) h_room⟩

/-- An address is eight groups, with the zeros that the two colons stand for. -/
theorem readIpv6Addr_bounds {s rest : Str} {segments : List ℕ}
    (h : readIpv6Addr s = some (segments, rest)) :
    segments.length = 8 ∧ ∀ g ∈ segments, g < 65536 := by
  have h_hd : (∀ g ∈ (readGroups 8 8 [] s).1, g < 65536) ∧ (readGroups 8 8 [] s).1.length ≤ 8 :=
    readGroups_bounds nofun le_rfl
  unfold readIpv6Addr at h
  dsimp only at h
  generalize readGroups 8 8 [] s = first at h h_hd
  obtain ⟨hd, quad, s₁⟩ := first
  split_ifs at h with h_len h_quad
  · obtain ⟨rfl, -⟩ := Prod.mk.inj (Option.some.inj h)
    exact ⟨h_len, h_hd.1⟩
  · simp only [Option.bind_eq_bind, Option.bind_eq_some_iff] at h
    obtain ⟨t, -, u, -, h⟩ := h
    set limit := 8 - (hd.length + 1) with h_limit
    have h_tl : (∀ g ∈ (readGroups limit limit [] u).1, g < 65536) ∧
        (readGroups limit limit [] u).1.length ≤ limit := readGroups_bounds nofun (by simp)
    generalize readGroups limit limit [] u = last at h h_tl
    obtain ⟨tl, quad', s₂⟩ := last
    obtain ⟨rfl, -⟩ := Prod.mk.inj (Option.some.inj h)
    dsimp only at h_hd h_tl h_len
    refine ⟨by simp only [List.length_append, List.length_replicate]; omega, fun g hg => ?_⟩
    simp only [List.mem_append, List.mem_replicate] at hg
    rcases hg with (hg | ⟨-, rfl⟩) | hg
    · exact h_hd.1 g hg
    · decide
    · exact h_tl.1 g hg

theorem readPort_lt {s rest : Str} {port : ℕ} (h : readPort s = some (port, rest)) :
    port < 65536 := by
  unfold readPort at h
  simp only [Option.bind_eq_bind, Option.bind_eq_some_iff] at h
  obtain ⟨t, -, h⟩ := h
  exact lt_of_readNumber h

theorem readScopeId_lt {s : Str} : ((readScopeId s).getD (0, s)).1 < 4294967296 := by
  cases h : readScopeId s with
  | none => exact Nat.zero_lt_succ _
  | some read =>
    obtain ⟨scopeId, rest⟩ := read
    unfold readScopeId at h
    simp only [Option.bind_eq_bind, Option.bind_eq_some_iff] at h
    obtain ⟨t, -, h⟩ := h
    exact lt_of_readNumber h

end Text

/-- What is accepted as a socket address is one. -/
theorem valid_of_parseSocketAddr {s : Str} {a : SocketAddr} (h : parseSocketAddr s = some a) :
    a.Valid := by
  unfold parseSocketAddr parseWith at h
  split at h
  · next b h_read =>
    obtain rfl := Option.some.inj h
    dsimp only at h_read
    cases h_v4 : readSocketAddrV4 s with
    | some read =>
      rw [h_v4] at h_read
      obtain rfl := Option.some.inj h_read
      unfold readSocketAddrV4 at h_v4
      simp only [Option.bind_eq_bind, Option.bind_eq_some_iff] at h_v4
      obtain ⟨⟨ip, t⟩, -, ⟨port, u⟩, h_port, h_v4⟩ := h_v4
      obtain ⟨rfl, -⟩ := Prod.mk.inj (Option.some.inj h_v4)
      exact readPort_lt h_port
    | none =>
      rw [h_v4] at h_read
      have h_v6 : readSocketAddrV6 s = some (b, []) := h_read
      unfold readSocketAddrV6 at h_v6
      simp only [Option.bind_eq_bind, Option.bind_eq_some_iff] at h_v6
      obtain ⟨s₁, -, ⟨segments, s₂⟩, h_ip, s₃, -, ⟨port, s₄⟩, h_port, h_v6⟩ := h_v6
      obtain ⟨rfl, -⟩ := Prod.mk.inj (Option.some.inj h_v6)
      obtain ⟨h_len, h_bound⟩ := readIpv6Addr_bounds h_ip
      exact ⟨h_len, h_bound, readPort_lt h_port, rfl, readScopeId_lt⟩
  · cases h

/-! ### Subnets -/

theorem parseU8_decimal (n : UInt8) : parseU8 (decimal n.toNat) = some n := by
  obtain ⟨h_ne, h_all, -, -, h_value⟩ := decimal_octet ⟨n.toNat, n.toNat_lt⟩
  dsimp only at h_ne h_all h_value
  have h_lt : n.toNat < 256 := n.toNat_lt
  generalize decimal n.toNat = text at h_ne h_all h_value ⊢
  unfold parseU8
  dsimp only
  split
  · -- a number has no sign
    rw [List.all_cons, Bool.and_eq_true] at h_all
    exact absurd h_all.1 (by decide)
  · rw [h_value, if_pos ⟨h_ne, h_all, h_lt⟩, UInt8.ofNat_toNat]

namespace Ipv4Subnet

/-- **Round trip of a subnet.** Its text reads back to it exactly if its prefix is one. -/
theorem fromStr_display_iff (s : Ipv4Subnet) : fromStr s.display = some s ↔ s.prefixLen ≤ 32 := by
  refine ⟨fun h => (written_of_fromStr h).prefixLen_le, fun h => ?_⟩
  exact fromStr_of_written
    (.cidr _ _ s.addr s.prefixLen (parseIpv4_display s.addr) (parseU8_decimal s.prefixLen) h)

/-- A character of the text of a subnet. -/
theorem mem_display {s : Ipv4Subnet} {c : Char} (h : c ∈ s.display) : AddrChar c ∨ c = '/' := by
  rcases List.mem_append.mp h with h | h
  · exact Or.inl (addrChar_of_parseIpv4 (parseIpv4_display s.addr) c h)
  · rcases List.mem_cons.mp h with rfl | h
    · exact Or.inr rfl
    · have h_digit := (digits_toDigits (show 2 ≤ 10 by decide) (by decide) s.prefixLen.toNat).1 c h
      exact Or.inl (addrChar_of_digit (Or.inl rfl) h_digit)

theorem trim_display (s : Ipv4Subnet) : trim s.display = s.display := by
  refine trim_eq_self fun c hc => ?_
  rcases mem_display hc with h | rfl
  · exact isWhitespace_of_addrChar h
  · decide

end Ipv4Subnet

/-! ### Peer specifications -/

/-- The text of a list of subnets. -/
def displaySubnets (subnets : List Ipv4Subnet) : Str :=
  List.intercalate [','] (subnets.map Ipv4Subnet.display)

theorem parseAllowedIps_displaySubnets {subnets : List Ipv4Subnet} (h_ne : subnets ≠ [])
    (h_len : ∀ s ∈ subnets, s.prefixLen ≤ 32) :
    parseAllowedIps (displaySubnets subnets) = some subnets := by
  have h_split : (displaySubnets subnets).splitOn ',' = subnets.map Ipv4Subnet.display := by
    refine List.splitOn_intercalate ',' (fun text h_text hc => ?_) (by simpa using h_ne)
    obtain ⟨s, -, rfl⟩ := List.mem_map.mp h_text
    rcases s.mem_display hc with h | h
    · exact absurd h (by decide)
    · exact absurd h (by decide)
  rw [parseAllowedIps_eq_some_iff, h_split, List.forall₂_map_left_iff, List.forall₂_same]
  intro s hs
  rw [s.trim_display]
  exact Ipv4Subnet.written_of_fromStr (s.fromStr_display_iff.mpr (h_len s hs))

namespace ParsedPeer

/-- A peer that a specification can say. -/
structure WellFormed (w : ParsedPeer) : Prop where
  pubkey : w.pubkey.length = 32
  endpoint : ∀ a, w.endpoint = some a → a.Valid
  allowedIps : w.allowedIps ≠ []
  prefixLen : ∀ s ∈ w.allowedIps, s.prefixLen ≤ 32

/-- The descriptor that says it in the texts the program prints. -/
def canonical (w : ParsedPeer) : PeerDescriptor where
  publicKey := hexEncode w.pubkey
  endpoint := w.endpoint.map SocketAddr.display
  allowedIp := displaySubnets w.allowedIps

theorem WellFormed.says {w : ParsedPeer} (h : w.WellFormed) : w.canonical.Says w where
  pubkey := hexDecode_hexEncode w.pubkey
  length := h.pubkey
  endpoint := by
    have h_endpoint := h.endpoint
    rw [canonical]
    cases h_some : w.endpoint with
    | none => exact .absent
    | some a => exact .given _ a (parseSocketAddr_display (h_endpoint a h_some))
  allowedIps := parseAllowedIps_eq_some_iff.mp
    (parseAllowedIps_displaySubnets h.allowedIps h.prefixLen)

end ParsedPeer

theorem PeerDescriptor.Says.wellFormed {d : PeerDescriptor} {w : ParsedPeer} (h : d.Says w) :
    w.WellFormed where
  pubkey := h.length
  endpoint a ha := by
    have h_endpoint := h.endpoint
    rw [ha] at h_endpoint
    generalize d.endpoint = e at h_endpoint
    cases h_endpoint with
    | given s _ h_addr => exact valid_of_parseSocketAddr h_addr
  allowedIps := h.allowedIps_ne_nil
  prefixLen s hs := by
    obtain ⟨piece, -, h_piece⟩ := forall₂_mem_right h.allowedIps hs
    exact h_piece.prefixLen_le

/-- A specification that is accepted is that of a descriptor. -/
theorem exists_toSpec_of_parsePeerArg {s : Str} {w : ParsedPeer} (h : parsePeerArg s = some w) :
    ∃ d : PeerDescriptor, d.toSpec = s := by
  have h_pieces : List.intercalate [';'] (s.splitOn ';') = s := List.intercalate_splitOn ';'
  unfold parsePeerArg at h
  split at h
  · next key endpoint ips h_split =>
    rw [h_split] at h_pieces
    exact ⟨⟨key, ips, some endpoint⟩, by simpa [PeerDescriptor.toSpec] using h_pieces⟩
  · cases h

/-- **Peer specifications there and back.** What any accepted specification says is well-formed:
a key of 32 bytes, an endpoint in the ranges of its type (and with flow information zero, which no
text says) or none, at least one subnet, and no prefix longer than an address. And each well-formed
peer has a specification in the texts the program prints, which is accepted and says just that
peer. -/
theorem parsePeerArg_canonical (w : ParsedPeer) :
    ((∃ s, parsePeerArg s = some w) ↔ w.WellFormed) ∧
      (w.WellFormed → parsePeerArg w.canonical.toSpec = some w) := by
  have h_back : w.WellFormed → parsePeerArg w.canonical.toSpec = some w := fun h =>
    parsePeerArg_eq_some_iff.mpr h.says
  refine ⟨⟨?_, fun h => ⟨_, h_back h⟩⟩, h_back⟩
  rintro ⟨s, hs⟩
  obtain ⟨d, rfl⟩ := exists_toSpec_of_parsePeerArg hs
  exact (parsePeerArg_eq_some_iff.mp hs).wellFormed

end AraxMesh
