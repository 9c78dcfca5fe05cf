import AraxMesh.Lib.Checked
import AraxMesh.Replay

/-!
# Runs of the replay window

What the filter answers to any sequence of nonces, from `ReplayWindow::new` on
(`replay_filter_exact`): it accepts a nonce exactly if it is not among those accepted before it and
less than a window below the greatest of them.

`checkAndUpdate?` is the filter once more, with every difference, sum and shift checked for
overflow. `checkAndUpdate?_eq` says that none of them ever overflows.

From a window that nothing is known of, a nonce is `Spent` once it was accepted, and stays so.
-/

namespace AraxMesh.ReplayWindow

/-! ### The filter with checked arithmetic -/

def getBit? (w : ReplayWindow) (nonce : UInt64) : Option Bool := do
  let shifted ← Checked.shr w.bitmap[(slot nonce).1] (slot nonce).2
  return shifted &&& 1 == 1

def setBit? (w : ReplayWindow) (nonce : UInt64) : Option ReplayWindow := do
  let mask ← Checked.shl 1 (slot nonce).2
  return { w with bitmap := w.bitmap.set (slot nonce).1 (w.bitmap[(slot nonce).1] ||| mask) }

def clearBit? (w : ReplayWindow) (nonce : UInt64) : Option ReplayWindow := do
  let mask ← Checked.shl 1 (slot nonce).2
  return { w with bitmap := w.bitmap.set (slot nonce).1 (w.bitmap[(slot nonce).1] &&& ~~~mask) }

/-- The range `first..=last`. -/
def inclusive (first last : UInt64) : List UInt64 :=
  (List.range' first.toNat (last.toNat + 1 - first.toNat)).map UInt64.ofNat

/-- `check_and_update`, undefined where an operation overflows. -/
def checkAndUpdate? (w : ReplayWindow) (nonce : UInt64) : Option (Bool × ReplayWindow) :=
  if ¬ w.initialized then do
    let w ← { w with initialized := true, last := nonce }.setBit? nonce
    return (true, w)
  else if w.last < nonce then do
    let shift ← Checked.sub nonce w.last
    let w ←
      if windowBits ≤ shift then some { w with bitmap := Vector.replicate bitmapWords 0 }
      else do
        let first ← Checked.add w.last 1
        (inclusive first nonce).foldlM clearBit? w
    let w ← { w with last := nonce }.setBit? nonce
    return (true, w)
  else do
    let age ← Checked.sub w.last nonce
    if windowBits ≤ age then return (false, w)
    else if ← w.getBit? nonce then return (false, w)
    else do
      let w ← w.setBit? nonce
      return (true, w)

/-! ### No operation overflows -/

variable (w : ReplayWindow) (nonce : UInt64)

/-- The bit of a nonce is inside its word. -/
theorem slot_snd_lt : Checked.Word.toNat (slot nonce).2 < Checked.Word.width UInt64 :=
  Nat.mod_lt _ (by decide)

theorem getBit?_eq : w.getBit? nonce = some (w.getBit nonce) := by
  unfold getBit?
  rw [Checked.shr_of_lt (slot_snd_lt nonce)]
  rfl

theorem setBit?_eq : w.setBit? nonce = some (w.setBit nonce) := by
  unfold setBit?
  rw [Checked.shl_of_lt (slot_snd_lt nonce)]
  rfl

theorem clearBit?_eq : w.clearBit? nonce = some (w.clearBit nonce) := by
  unfold clearBit?
  rw [Checked.shl_of_lt (slot_snd_lt nonce)]
  rfl

/-- After a nonce below another there is a next one, and the range from there is what the window
exposes. -/
theorem inclusive_eq_exposed {last nonce : UInt64} (h : last.toNat < nonce.toNat) :
    Checked.add last 1 = some (last + 1) ∧ inclusive (last + 1) nonce = exposed last nonce := by
  have h_lt := nonce.toNat_lt
  have h_one : (1 : UInt64).toNat = 1 := rfl
  have h_succ : (last + 1).toNat = last.toNat + 1 := by
    rw [UInt64.toNat_add, h_one]
    exact Nat.mod_eq_of_lt (by omega)
  refine ⟨Checked.add_of_lt (show last.toNat + 1 < 2 ^ 64 by omega), ?_⟩
  rw [inclusive, exposed, h_succ, Nat.add_sub_add_right]

/-- **No overflow.** The checked filter is always defined, and is the filter. -/
theorem checkAndUpdate?_eq : w.checkAndUpdate? nonce = some (w.checkAndUpdate nonce) := by
  unfold checkAndUpdate? checkAndUpdate
  by_cases h_init : ¬ w.initialized = true
  · rw [if_pos h_init, if_pos h_init, setBit?_eq]
    rfl
  rw [if_neg h_init, if_neg h_init]
  by_cases h_new : w.last < nonce
  · -- a new greatest nonce
    have h_lt : w.last.toNat < nonce.toNat := UInt64.lt_iff_toNat_lt.mp h_new
    obtain ⟨h_add, h_range⟩ := inclusive_eq_exposed h_lt
    have h_loop := Checked.foldlM_eq_some (l := exposed w.last nonce)
      (fun n _ w => clearBit?_eq w n) w
    rw [if_pos h_new, if_pos h_new,
      Checked.sub_of_le (show w.last.toNat ≤ nonce.toNat from h_lt.le)]
    simp only [h_add, h_range, h_loop, Option.bind_eq_bind, Option.bind_some, setBit?_eq]
    split_ifs <;> rfl
  · have h_le : nonce.toNat ≤ w.last.toNat :=
      Nat.le_of_not_lt fun h => h_new (UInt64.lt_iff_toNat_lt.mpr h)
    rw [if_neg h_new, if_neg h_new, Checked.sub_of_le h_le]
    simp only [Option.bind_eq_bind, Option.bind_some, getBit?_eq, setBit?_eq]
    split_ifs <;> rfl

/-! ### Sequences of nonces -/

/-- The window after a sequence of nonces, and those of them that were accepted. -/
def feed (nonces : List UInt64) : ReplayWindow × List UInt64 :=
  nonces.foldl (fun (w, accepted) nonce =>
    let (ok, w') := w.checkAndUpdate nonce
    (w', if ok then accepted ++ [nonce] else accepted)) (new, [])

theorem feed_append_singleton (nonces : List UInt64) (nonce : UInt64) :
    feed (nonces ++ [nonce]) = (((feed nonces).1.checkAndUpdate nonce).2,
      if ((feed nonces).1.checkAndUpdate nonce).1 then (feed nonces).2 ++ [nonce]
      else (feed nonces).2) := by
  rw [feed, List.foldl_append]
  rfl

/-- The window always represents the accepted nonces. -/
theorem represents_feed (nonces : List UInt64) :
    (feed nonces).1.Represents ((feed nonces).2.map UInt64.toNat).toFinset := by
  induction nonces using List.reverseRecOn with
  | nil => exact Represents.new
  | append_singleton nonces nonce ih =>
    rw [feed_append_singleton]
    rcases ih.checkAndUpdate nonce with ⟨-, h_ok, h_repr⟩ | ⟨-, h_no, h_same⟩
    · rw [if_pos h_ok, List.map_append, List.toFinset_append, Finset.union_comm]
      exact h_repr
    · rw [if_neg (by simp [h_no]), h_same]
      exact ih

/-- A nonce is among the accepted ones as a number. -/
theorem mem_toFinset_map {l : List UInt64} {n : UInt64} :
    n.toNat ∈ (l.map UInt64.toNat).toFinset ↔ n ∈ l := by
  rw [List.mem_toFinset, List.mem_map]
  constructor
  · rintro ⟨m, hm, h_eq⟩
    exact UInt64.toNat_inj.mp h_eq ▸ hm
  · exact fun h => ⟨n, h, rfl⟩

/-- Once something was accepted, the window has the greatest accepted nonce. -/
theorem Represents.isGreatest_last {w : ReplayWindow} {l : List UInt64}
    (h : w.Represents (l.map UInt64.toNat).toFinset) (h_some : l ≠ []) :
    IsGreatest {n | n ∈ l} w.last := by
  obtain ⟨n, hn⟩ := List.exists_mem_of_ne_nil l h_some
  have h_init : w.initialized = true := h.initialized.mpr ⟨_, mem_toFinset_map.mpr hn⟩
  refine ⟨mem_toFinset_map.mp (h.last_mem h_init), ?_⟩
  intro m hm
  exact UInt64.le_iff_toNat_le.mpr (h.le_last _ (mem_toFinset_map.mpr hm))

/-- **The filter is exact.** After any sequence of nonces the filter accepts a nonce if and only if
it has not accepted it yet, and it has accepted nothing, or the nonce is greater than the greatest
one it has accepted, or less than 1024 below it. A rejected nonce leaves the window unchanged, and
no operation overflows. -/
theorem replay_filter_exact (nonces : List UInt64) (nonce : UInt64) :
    (((feed nonces).1.checkAndUpdate nonce).1 = true ↔
      nonce ∉ (feed nonces).2 ∧ ((feed nonces).2 = [] ∨
        ∃ g, IsGreatest {n | n ∈ (feed nonces).2} g ∧
          (g < nonce ∨ g.toNat - nonce.toNat < 1024))) ∧
    (((feed nonces).1.checkAndUpdate nonce).1 = false →
      ((feed nonces).1.checkAndUpdate nonce).2 = (feed nonces).1) ∧
    (feed nonces).1.checkAndUpdate? nonce = some ((feed nonces).1.checkAndUpdate nonce) := by
  refine ⟨?_, checkAndUpdate_of_rejected, checkAndUpdate?_eq _ _⟩
  have h_repr := represents_feed nonces
  generalize feed nonces = fed at h_repr ⊢
  -- the filter answers as its specification says
  have h_answer : (fed.1.checkAndUpdate nonce).1 = true ↔
      ReplayFilter.Admits 1024 (fed.2.map UInt64.toNat).toFinset nonce.toNat := by
    refine ⟨fun h => ?_, h_repr.accepts⟩
    by_contra h_not
    rcases h_repr.checkAndUpdate nonce with ⟨h_admits, -⟩ | ⟨-, h_no, -⟩
    · exact h_not h_admits
    · rw [h_no] at h
      cases h
  rw [h_answer]
  by_cases h_nil : fed.2 = []
  · -- nothing was accepted yet
    rw [h_nil]
    exact iff_of_true (ReplayFilter.admits_empty _ _) ⟨List.not_mem_nil, Or.inl rfl⟩
  · have h_last := h_repr.isGreatest_last h_nil
    have h_max : ∀ m ∈ (fed.2.map UInt64.toNat).toFinset, m ≤ fed.1.last.toNat := h_repr.le_last
    rw [ReplayFilter.admits_iff_of_greatest (mem_toFinset_map.mpr h_last.1) h_max,
      mem_toFinset_map]
    refine and_congr_right fun h_new => ?_
    constructor
    · intro h_window
      refine Or.inr ⟨fed.1.last, h_last, ?_⟩
      rw [UInt64.lt_iff_toNat_lt]
      omega
    · rintro (h_empty | ⟨g, hg, h_window⟩)
      · exact absurd h_empty h_nil
      · -- there is one greatest nonce
        obtain rfl := UInt64.le_antisymm (h_last.2 hg.1) (hg.2 h_last.1)
        rw [UInt64.lt_iff_toNat_lt] at h_window
        omega

/-! ### One nonce -/

/-- The window will not accept the nonce. -/
structure Spent (w : ReplayWindow) (n : UInt64) : Prop where
  initialized : w.initialized = true
  le_last : n.toNat ≤ w.last.toNat
  bit : w.last.toNat < n.toNat + 1024 → w.getBit n = true

variable {w : ReplayWindow} {n : UInt64}

theorem Spent.rejected (h : w.Spent n) : (w.checkAndUpdate n).1 = false := by
  have h_checked := w.checked n
  generalize (w.checkAndUpdate n).1 = ok, (w.checkAndUpdate n).2 = w' at h_checked ⊢
  cases h_checked with
  | first h_init => cases h.initialized.symm.trans h_init
  | jump _ h_lt => exact absurd h.le_last (by omega)
  | advance _ h_lt => exact absurd h.le_last (by omega)
  | old => rfl
  | replay => rfl
  | fill _ _ h_win h_get => cases (h.bit h_win).symm.trans h_get

/-- An accepted nonce is spent. -/
theorem spent_of_accepted (h : (w.checkAndUpdate n).1 = true) :
    (w.checkAndUpdate n).2.Spent n := by
  have h_checked := w.checked n
  rw [h] at h_checked
  generalize (w.checkAndUpdate n).2 = w' at h_checked ⊢
  have h_bit : ∀ v : ReplayWindow, (v.setBit n).getBit n = true := fun v => by simp
  -- whatever the window was, it has the nonce's bit now
  cases h_checked with
  | first => exact ⟨rfl, le_rfl, fun _ => h_bit _⟩
  | jump => exact ⟨rfl, le_rfl, fun _ => h_bit _⟩
  | advance h_init =>
    exact ⟨(foldl_clearBit_initialized _ w).trans h_init, le_rfl, fun _ => h_bit _⟩
  | fill h_init h_le => exact ⟨h_init, h_le, fun _ => h_bit _⟩

/-- No other nonce makes it acceptable again. -/
theorem Spent.checkAndUpdate (h : w.Spent n) (m : UInt64) : (w.checkAndUpdate m).2.Spent n := by
  have h_checked := w.checked m
  have h_le := h.le_last
  generalize (w.checkAndUpdate m).1 = ok, (w.checkAndUpdate m).2 = w' at h_checked ⊢
  cases h_checked with
  | first h_init => cases h.initialized.symm.trans h_init
  | jump h_init h_lt =>
    -- the nonce is below the window now
    refine ⟨rfl, show n.toNat ≤ m.toNat by omega, fun h_win => ?_⟩
    exact absurd (show m.toNat < n.toNat + 1024 from h_win) (by omega)
  | advance h_init h_lt h_shift =>
    refine ⟨(foldl_clearBit_initialized _ w).trans h_init, show n.toNat ≤ m.toNat by omega, ?_⟩
    intro h_win
    -- the slots that were cleared are not its own
    have h_win' : m.toNat < n.toNat + 1024 := h_win
    have h_kept : ((exposed w.last m).foldl clearBit w).getBit n = true := by
      rw [getBit_foldl_exposed w h_lt (by omega) h_win' h_shift, h.bit (by omega),
        decide_eq_true h_le]
      rfl
    rw [getBit_setBit, Bool.or_eq_true]
    exact Or.inl h_kept
  | old => exact h
  | replay => exact h
  | fill h_init =>
    refine ⟨h_init, h_le, fun h_win => ?_⟩
    rw [getBit_setBit, h.bit h_win, Bool.true_or]

end AraxMesh.ReplayWindow
