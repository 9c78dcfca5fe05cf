import AraxMesh.Lib.Bits
import AraxMesh.Lib.ReplayFilter

/-!
# The replay window

`ReplayWindow` of `session.rs`: a circular bitmap of 1024 bits indexed by the nonce modulo 1024,
with the greatest accepted nonce.

The window is related to the set of nonces accepted so far by `ReplayWindow.Represents`: `last` is
the greatest accepted nonce, and inside the window a bit is set exactly when its nonce was
accepted. `Represents.checkAndUpdate` is the step lemma: the filter answers as
`ReplayFilter.Admits` says, records the nonce when it does, and represents the resulting set.

A run of sessions uses it in one direction each: what was accepted is rejected ever after
(`Represents.rejects`), what is new and inside the window is accepted (`Represents.accepts`).
-/

namespace AraxMesh

open WordBits

/-- `ReplayWindow::WINDOW_BITS`. -/
def windowBits : UInt64 := 1024

/-- `ReplayWindow::BITMAP_WORDS`. -/
def bitmapWords : ℕ := 16

/-- The anti-replay filter of one session. -/
structure ReplayWindow where
  /-- One bit per nonce of the window, at index `nonce % windowBits`. -/
  bitmap : Vector UInt64 bitmapWords
  /-- Greatest nonce accepted so far. -/
  last : UInt64
  /-- Whether a nonce has been accepted. -/
  initialized : Bool
deriving DecidableEq, Repr

namespace ReplayWindow

/-- `ReplayWindow::new`. -/
def new : ReplayWindow where
  bitmap := Vector.replicate bitmapWords 0
  last := 0
  initialized := false

theorem slot_lt (nonce : UInt64) : (nonce % windowBits / 64).toNat < bitmapWords := by
  have h : (nonce % windowBits).toNat < 1024 := Nat.mod_lt _ (by decide)
  have h64 : (64 : UInt64).toNat = 64 := rfl
  rw [UInt64.toNat_div, h64]
  change _ < 16
  omega

/-- The word and the bit of a nonce. -/
def slot (nonce : UInt64) : Fin bitmapWords × UInt64 :=
  let bit := nonce % windowBits
  (⟨(bit / 64).toNat, slot_lt nonce⟩, bit % 64)

def getBit (w : ReplayWindow) (nonce : UInt64) : Bool :=
  let (word, bit) := slot nonce
  (w.bitmap[word] >>> bit) &&& 1 == 1

def setBit (w : ReplayWindow) (nonce : UInt64) : ReplayWindow :=
  let (word, bit) := slot nonce
  { w with bitmap := w.bitmap.set word (w.bitmap[word] ||| (1 <<< bit)) }

def clearBit (w : ReplayWindow) (nonce : UInt64) : ReplayWindow :=
  let (word, bit) := slot nonce
  { w with bitmap := w.bitmap.set word (w.bitmap[word] &&& ~~~(1 <<< bit)) }

/-- The nonces of the inclusive range `(last + 1)..=nonce`, in order. -/
def exposed (last nonce : UInt64) : List UInt64 :=
  (List.range' (last.toNat + 1) (nonce.toNat - last.toNat)).map UInt64.ofNat

/-- Whether `nonce` is new and inside the window, with the window that has recorded it. -/
def checkAndUpdate (w : ReplayWindow) (nonce : UInt64) : Bool × ReplayWindow :=
  if ¬ w.initialized then
    (true, { w with initialized := true, last := nonce }.setBit nonce)
  else if w.last < nonce then
    let shift := nonce - w.last
    let w := if windowBits ≤ shift then { w with bitmap := Vector.replicate bitmapWords 0 }
      else (exposed w.last nonce).foldl clearBit w
    (true, { w with last := nonce }.setBit nonce)
  else if windowBits ≤ w.last - nonce then (false, w)
  else if w.getBit nonce then (false, w)
  else (true, w.setBit nonce)

/-! ### The bitmap as a set of residues -/

/-- Two nonces share a slot exactly when they agree modulo the window. -/
theorem slot_eq_iff (m n : UInt64) : slot m = slot n ↔ m.toNat % 1024 = n.toNat % 1024 := by
  have hm : (m % windowBits).toNat = m.toNat % 1024 := rfl
  have hn : (n % windowBits).toNat = n.toNat % 1024 := rfl
  simp only [slot, Prod.mk.injEq, Fin.mk.injEq, ← UInt64.toNat_inj, UInt64.toNat_div,
    UInt64.toNat_mod, hm, hn]
  change (m.toNat % 1024 / 64 = n.toNat % 1024 / 64 ∧
    m.toNat % 1024 % 64 = n.toNat % 1024 % 64) ↔ _
  omega

theorem slot_snd_mod (n : UInt64) : (slot n).2.toNat % 64 = (slot n).2.toNat :=
  Nat.mod_eq_of_lt (Nat.mod_lt _ (by decide))

/-- Setting one nonce's bit, read at another nonce. -/
@[simp] theorem getBit_setBit (w : ReplayWindow) (m n : UInt64) :
    (w.setBit n).getBit m = (w.getBit m || decide (n.toNat % 1024 = m.toNat % 1024)) := by
  have hslot := slot_eq_iff n m
  by_cases hw : (slot n).1 = (slot m).1
  · -- in one word: the bits decide
    have hbit : slot n = slot m ↔ (slot n).2.toNat % 64 = (slot m).2.toNat % 64 := by
      rw [slot_snd_mod, slot_snd_mod, UInt64.toNat_inj, Prod.ext_iff]
      exact and_iff_right hw
    have h := getLsbD_or_shift w.bitmap[(slot m).1] (slot n).2 (slot m).2
    simp only [getBit, setBit, shiftRight_and_one, hw, Fin.getElem_fin, Vector.getElem_set_self]
    rw [← decide_eq_decide.mpr (hbit.symm.trans hslot)]
    exact h
  · -- in different words
    have hne : ¬ n.toNat % 1024 = m.toNat % 1024 := fun h => hw (by rw [hslot.mpr h])
    have hval : (slot n).1.val ≠ (slot m).1.val := fun h => hw (Fin.ext h)
    simp only [getBit, setBit, Fin.getElem_fin, Vector.getElem_set_ne _ _ hval, hne,
      decide_false, Bool.or_false]

/-- Clearing one nonce's bit, read at another nonce. -/
@[simp] theorem getBit_clearBit (w : ReplayWindow) (m n : UInt64) :
    (w.clearBit n).getBit m = (w.getBit m && !decide (n.toNat % 1024 = m.toNat % 1024)) := by
  have hslot := slot_eq_iff n m
  by_cases hw : (slot n).1 = (slot m).1
  · have hbit : slot n = slot m ↔ (slot n).2.toNat % 64 = (slot m).2.toNat % 64 := by
      rw [slot_snd_mod, slot_snd_mod, UInt64.toNat_inj, Prod.ext_iff]
      exact and_iff_right hw
    have h := getLsbD_and_not_shift w.bitmap[(slot m).1] (slot n).2 (slot m).2
    simp only [getBit, clearBit, shiftRight_and_one, hw, Fin.getElem_fin, Vector.getElem_set_self]
    rw [← decide_eq_decide.mpr (hbit.symm.trans hslot)]
    exact h
  · have hne : ¬ n.toNat % 1024 = m.toNat % 1024 := fun h => hw (by rw [hslot.mpr h])
    have hval : (slot n).1.val ≠ (slot m).1.val := fun h => hw (Fin.ext h)
    simp only [getBit, clearBit, Fin.getElem_fin, Vector.getElem_set_ne _ _ hval, hne,
      decide_false, Bool.not_false, Bool.and_true]

/-- Clearing a list of nonces' bits. -/
theorem getBit_foldl_clearBit (l : List UInt64) (w : ReplayWindow) (m : UInt64) :
    (l.foldl clearBit w).getBit m
      = (w.getBit m && !decide (∃ n ∈ l, n.toNat % 1024 = m.toNat % 1024)) := by
  induction l generalizing w with
  | nil => simp
  | cons n l ih =>
    rw [List.foldl_cons, ih, getBit_clearBit, Bool.and_assoc, ← Bool.not_or,
      ← Bool.decide_or]
    simp

theorem getBit_zero (last : UInt64) (i : Bool) (m : UInt64) :
    getBit ⟨Vector.replicate bitmapWords 0, last, i⟩ m = false := by
  simp [getBit]

theorem getBit_foldl_exposed (w : ReplayWindow) {nonce m : UInt64}
    (hlt : w.last.toNat < nonce.toNat) (hm : m.toNat ≤ nonce.toNat)
    (hwin : nonce.toNat < m.toNat + 1024) (hshift : nonce.toNat < w.last.toNat + 1024) :
    ((exposed w.last nonce).foldl clearBit w).getBit m
      = (w.getBit m && decide (m.toNat ≤ w.last.toNat)) := by
  have hsize := nonce.toNat_lt
  -- a nonce of the window shares its slot with an exposed one only if it is that one
  have hex : (∃ n ∈ exposed w.last nonce, n.toNat % 1024 = m.toNat % 1024)
      ↔ ¬ m.toNat ≤ w.last.toNat := by
    -- nonces of one residue are a window apart
    constructor
    · rintro ⟨n, hn, hmod⟩ hle
      obtain ⟨k, hk, rfl⟩ := List.mem_map.mp hn
      obtain ⟨h₁, h₂⟩ := List.mem_range'_1.mp hk
      rw [UInt64.toNat_ofNat_of_lt' (by simp [UInt64.size]; omega)] at hmod
      omega
    · intro hle
      refine ⟨m, List.mem_map.mpr ⟨m.toNat, List.mem_range'_1.mpr (by omega), ?_⟩, rfl⟩
      exact UInt64.ofNat_toNat
  rw [getBit_foldl_clearBit, decide_eq_decide.mpr hex, decide_not, Bool.not_not]

/-! ### The window and the set of accepted nonces -/

/-- `w` is the window of the accepted nonces `seen`. -/
structure Represents (w : ReplayWindow) (seen : Finset ℕ) : Prop where
  initialized : w.initialized = true ↔ seen.Nonempty
  clear : w.initialized = false → ∀ n, w.getBit n = false
  last_mem : w.initialized = true → w.last.toNat ∈ seen
  le_last : ∀ m ∈ seen, m ≤ w.last.toNat
  /-- Inside the window a bit is set exactly for an accepted nonce. -/
  bit : w.initialized = true → ∀ n : UInt64, n.toNat ≤ w.last.toNat →
    w.last.toNat < n.toNat + 1024 → (w.getBit n = true ↔ n.toNat ∈ seen)

theorem Represents.new : new.Represents ∅ where
  initialized := by simp [ReplayWindow.new]
  clear := by simp [ReplayWindow.new, getBit]
  last_mem := by simp [ReplayWindow.new]
  le_last := by simp
  bit := by simp [ReplayWindow.new]

@[simp] theorem setBit_last (w : ReplayWindow) (n : UInt64) : (w.setBit n).last = w.last := rfl

@[simp] theorem setBit_initialized (w : ReplayWindow) (n : UInt64) :
    (w.setBit n).initialized = w.initialized := rfl

theorem foldl_clearBit_initialized (l : List UInt64) (w : ReplayWindow) :
    (l.foldl clearBit w).initialized = w.initialized := by
  induction l generalizing w with
  | nil => rfl
  -- clearing touches the bitmap only
  | cons n l ih => rw [List.foldl_cons, ih]; rfl

/-- Recording a nonce of the window: what the three accepting branches have in common. -/
theorem Represents.setBit {w : ReplayWindow} {seen : Finset ℕ} {n : UInt64}
    (h_init : w.initialized = true) (h_win : n.toNat ≤ w.last.toNat)
    (h_new : w.last.toNat < n.toNat + 1024) (h_max : ∀ m ∈ seen, m ≤ w.last.toNat)
    (h_last : w.last = n ∨ w.last.toNat ∈ seen)
    (h_bit : ∀ m : UInt64, m ≠ n → m.toNat ≤ w.last.toNat → w.last.toNat < m.toNat + 1024 →
      (w.getBit m = true ↔ m.toNat ∈ seen)) :
    (w.setBit n).Represents (insert n.toNat seen) where
  initialized := by simp [h_init]
  clear := fun h => absurd (h_init.symm.trans h) (by simp)
  last_mem := by
    intro _
    -- the greatest nonce is the new one, or was there
    rcases h_last with rfl | hl
    · exact Finset.mem_insert_self _ _
    · exact Finset.mem_insert_of_mem hl
  le_last := by
    intro m hm
    rcases Finset.mem_insert.mp hm with rfl | hm
    · exact h_win
    · exact h_max m hm
  bit := by
    intro _ m hm hwin
    rw [setBit_last] at hm hwin
    rw [getBit_setBit, Finset.mem_insert]
    by_cases hmn : m = n
    · subst hmn; simp
    · -- two different nonces of one window never share a slot
      have hne : n.toNat ≠ m.toNat := fun he => hmn (UInt64.toNat_inj.mp he).symm
      have hslot : ¬ n.toNat % 1024 = m.toNat % 1024 := by omega
      simp only [hslot, decide_false, Bool.or_false, h_bit m hmn hm hwin, hne.symm, false_or]

/-- What one call of the filter does, with the comparisons on numbers. -/
inductive Checked (w : ReplayWindow) (n : UInt64) : Bool → ReplayWindow → Prop
  /-- The first nonce of the session. -/
  | first (h : w.initialized = false) :
      Checked w n true ({ w with initialized := true, last := n }.setBit n)
  /-- A new greatest nonce, a whole window or more above the last one. -/
  | jump (h : w.initialized = true) (hlt : w.last.toNat + 1024 ≤ n.toNat) :
      Checked w n true (setBit ⟨Vector.replicate bitmapWords 0, n, true⟩ n)
  /-- A new greatest nonce less than a window above the last one. -/
  | advance (h : w.initialized = true) (hlt : w.last.toNat < n.toNat)
      (hwin : n.toNat < w.last.toNat + 1024) :
      Checked w n true ({ (exposed w.last n).foldl clearBit w with last := n }.setBit n)
  | old (h : w.initialized = true) (hold : n.toNat + 1024 ≤ w.last.toNat) : Checked w n false w
  | replay (h : w.initialized = true) (hle : n.toNat ≤ w.last.toNat)
      (hwin : w.last.toNat < n.toNat + 1024) (hget : w.getBit n = true) : Checked w n false w
  /-- A nonce of the window that was skipped so far. -/
  | fill (h : w.initialized = true) (hle : n.toNat ≤ w.last.toNat)
      (hwin : w.last.toNat < n.toNat + 1024) (hget : w.getBit n = false) :
      Checked w n true (w.setBit n)

theorem checked (w : ReplayWindow) (n : UInt64) :
    w.Checked n (w.checkAndUpdate n).1 (w.checkAndUpdate n).2 := by
  by_cases hi : w.initialized = true
  swap
  · have hi' : w.initialized = false := by simpa using hi
    simpa [checkAndUpdate, hi'] using Checked.first hi'
  -- a difference of nonces is read without wrapping around
  have hsub : ∀ {a b : UInt64}, a.toNat ≤ b.toNat →
      (windowBits ≤ b - a ↔ a.toNat + 1024 ≤ b.toNat) := by
    intro a b hab
    rw [UInt64.le_iff_toNat_le, UInt64.toNat_sub_of_le _ _ (UInt64.le_iff_toNat_le.mpr hab)]
    change 1024 ≤ _ ↔ _
    omega
  by_cases hlt : w.last < n
  · have hlt' : w.last.toNat < n.toNat := UInt64.lt_iff_toNat_lt.mp hlt
    by_cases hshift : windowBits ≤ n - w.last
    · simpa [checkAndUpdate, hi, hlt, hshift] using Checked.jump hi ((hsub hlt'.le).mp hshift)
    · have hwin : n.toNat < w.last.toNat + 1024 := not_le.mp fun h => hshift ((hsub hlt'.le).mpr h)
      simpa [checkAndUpdate, hi, hlt, hshift] using Checked.advance hi hlt' hwin
  · have hle : n.toNat ≤ w.last.toNat := not_lt.mp fun h => hlt (UInt64.lt_iff_toNat_lt.mpr h)
    by_cases hold : windowBits ≤ w.last - n
    · simpa [checkAndUpdate, hi, hlt, hold] using Checked.old hi ((hsub hle).mp hold)
    · have hwin : w.last.toNat < n.toNat + 1024 := not_le.mp fun h => hold ((hsub hle).mpr h)
      by_cases hget : w.getBit n = true
      · simpa [checkAndUpdate, hi, hlt, hold, hget] using Checked.replay hi hle hwin hget
      · simpa [checkAndUpdate, hi, hlt, hold, hget] using
          Checked.fill hi hle hwin (by simpa using hget)

/-- A rejected nonce changes nothing. -/
theorem checkAndUpdate_of_rejected {w : ReplayWindow} {n : UInt64}
    (h : (w.checkAndUpdate n).1 = false) : (w.checkAndUpdate n).2 = w := by
  have hc := w.checked n
  rw [h] at hc
  generalize (w.checkAndUpdate n).2 = w' at hc ⊢
  cases hc <;> rfl

/-- **The filter computes its specification.** From the window of `seen` a call answers whether
`seen` admits the nonce, and leaves the window of the set with the nonce added when it does and
the same window when it does not. -/
theorem Represents.checkAndUpdate {w : ReplayWindow} {seen : Finset ℕ} (h : w.Represents seen)
    (nonce : UInt64) :
    (ReplayFilter.Admits 1024 seen nonce.toNat ∧ (w.checkAndUpdate nonce).1 = true ∧
      (w.checkAndUpdate nonce).2.Represents (insert nonce.toNat seen)) ∨
    (¬ ReplayFilter.Admits 1024 seen nonce.toNat ∧ (w.checkAndUpdate nonce).1 = false ∧
      (w.checkAndUpdate nonce).2 = w) := by
  have hadm : w.initialized = true → (ReplayFilter.Admits 1024 seen nonce.toNat ↔
      nonce.toNat ∉ seen ∧ w.last.toNat < nonce.toNat + 1024) := fun hi =>
    ReplayFilter.admits_iff_of_greatest (h.last_mem hi) h.le_last
  generalize hb : (w.checkAndUpdate nonce).1 = b, hw : (w.checkAndUpdate nonce).2 = w'
  have hc : w.Checked nonce b w' := by rw [← hb, ← hw]; exact w.checked nonce
  clear hb hw
  cases hc with
  | first hi =>
    -- nothing was accepted, and the bitmap is empty
    obtain rfl : seen = ∅ := Finset.not_nonempty_iff_eq_empty.mp fun hne =>
      absurd (h.initialized.mpr hne) (by simp [hi])
    refine Or.inl ⟨ReplayFilter.admits_empty _ _, rfl, ?_⟩
    refine Represents.setBit rfl le_rfl (by simp) (by simp) (Or.inl rfl) ?_
    intro m _ _ _
    change w.getBit m = true ↔ _
    simp [h.clear hi m]
  | jump hi hlt =>
    have hnew : nonce.toNat ∉ seen := fun hm => absurd (h.le_last _ hm) (by omega)
    refine Or.inl ⟨(hadm hi).mpr ⟨hnew, by omega⟩, rfl, ?_⟩
    refine Represents.setBit rfl le_rfl (by simp)
      (fun m hm => (h.le_last m hm).trans (show w.last.toNat ≤ nonce.toNat by omega))
      (Or.inl rfl) ?_
    -- every bit was cleared, and no accepted nonce is inside the new window
    intro m _ hm hwin
    rw [getBit_zero, Bool.false_eq_true, false_iff]
    intro hmem
    have := h.le_last _ hmem
    simp only at hwin
    omega
  | advance hi hlt hwin =>
    have hnew : nonce.toNat ∉ seen := fun hm => absurd (h.le_last _ hm) (by omega)
    refine Or.inl ⟨(hadm hi).mpr ⟨hnew, by omega⟩, rfl, ?_⟩
    refine Represents.setBit (by simpa [foldl_clearBit_initialized] using hi) le_rfl (by simp)
      (fun m hm => (h.le_last m hm).trans hlt.le) (Or.inl rfl) ?_
    -- only the slots of the nonces in between were cleared
    intro m _ hm hm'
    simp only at hm hm'
    change ((exposed w.last nonce).foldl clearBit w).getBit m = true ↔ _
    rw [getBit_foldl_exposed w hlt hm hm' hwin, Bool.and_eq_true, decide_eq_true_eq]
    constructor
    · rintro ⟨hb, hle⟩
      exact (h.bit hi m hle (by omega)).mp hb
    · intro hmem
      have hle := h.le_last _ hmem
      exact ⟨(h.bit hi m hle (by omega)).mpr hmem, hle⟩
  | old hi hold =>
    refine Or.inr ⟨fun hn => ?_, rfl, rfl⟩
    have := ((hadm hi).mp hn).2
    omega
  | replay hi hle hwin hget =>
    have hmem := (h.bit hi nonce hle hwin).mp hget
    exact Or.inr ⟨ReplayFilter.not_admits_of_mem hmem, rfl, rfl⟩
  | fill hi hle hwin hget =>
    have hnew : nonce.toNat ∉ seen := fun hm =>
      absurd ((h.bit hi nonce hle hwin).mpr hm) (by simp [hget])
    exact Or.inl ⟨(hadm hi).mpr ⟨hnew, hwin⟩, rfl,
      Represents.setBit hi hle hwin h.le_last (Or.inr (h.last_mem hi))
        fun m _ hm hwin => h.bit hi m hm hwin⟩

/-- An accepted nonce is rejected ever after. -/
theorem Represents.rejects {w : ReplayWindow} {seen : Finset ℕ} (h : w.Represents seen)
    {nonce : UInt64} (hn : nonce.toNat ∈ seen) : (w.checkAndUpdate nonce).1 = false := by
  rcases h.checkAndUpdate nonce with ⟨hadm, -⟩ | ⟨-, hrej, -⟩
  · exact absurd hadm (ReplayFilter.not_admits_of_mem hn)
  · exact hrej

/-- A nonce that is new and inside the window is accepted. -/
theorem Represents.accepts {w : ReplayWindow} {seen : Finset ℕ} (h : w.Represents seen)
    {nonce : UInt64} (hn : ReplayFilter.Admits 1024 seen nonce.toNat) :
    (w.checkAndUpdate nonce).1 = true := by
  rcases h.checkAndUpdate nonce with ⟨-, hacc, -⟩ | ⟨hadm, -⟩
  · exact hacc
  · exact absurd hn hadm

end ReplayWindow
end AraxMesh
