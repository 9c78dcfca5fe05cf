import Mathlib.Data.Nat.Bitwise
import Mathlib.Tactic.Common

/-!
# Bits of machine words

The three idioms of a bitmap kept in 64-bit words: testing, setting and clearing one bit by
shifting a `1` (or the word) by the bit's index. Shift counts are taken modulo 64, as the
operations themselves do.

The mask of a 32-bit word that leaves out its low bits: `toNat_and_ones_shift`.
-/

namespace WordBits

/-- Testing a bit: shift it down and mask the rest. -/
theorem shiftRight_and_one (x b : UInt64) :
    ((x >>> b) &&& 1 == 1) = x.toBitVec.getLsbD (b.toNat % 64) := by
  rw [Bool.eq_iff_iff, beq_iff_eq, ← UInt64.toNat_inj]
  simp [Nat.and_one_is_mod, BitVec.getLsbD, Nat.testBit_eq_decide_div_mod_eq,
    Nat.shiftRight_eq_div_pow]

/-- Setting a bit sets that bit and no other. -/
theorem getLsbD_or_shift (x b c : UInt64) :
    (x ||| (1 <<< b)).toBitVec.getLsbD (c.toNat % 64)
      = (x.toBitVec.getLsbD (c.toNat % 64) || decide (b.toNat % 64 = c.toNat % 64)) := by
  have hc : c.toNat % 64 < 64 := Nat.mod_lt _ (by omega)
  simp [hc]
  congr 1
  grind

/-- Clearing a bit clears that bit and no other. -/
theorem getLsbD_and_not_shift (x b c : UInt64) :
    (x &&& ~~~(1 <<< b)).toBitVec.getLsbD (c.toNat % 64)
      = (x.toBitVec.getLsbD (c.toNat % 64) && !decide (b.toNat % 64 = c.toNat % 64)) := by
  have hc : c.toNat % 64 < 64 := Nat.mod_lt _ (by omega)
  simp [hc]
  congr 1
  grind

/-- Masking out the low bits. -/
theorem toNat_and_ones_shift (x : UInt32) {n : UInt32} (h : n.toNat < 32) :
    (x &&& (~~~0 <<< n)).toNat = x.toNat >>> n.toNat <<< n.toNat := by
  have h_mask : (~~~0 <<< n : UInt32).toNat = (2 ^ 32 - 1) <<< n.toNat % 2 ^ 32 := by
    rw [UInt32.toNat_shiftLeft, Nat.mod_eq_of_lt h]
    rfl
  rw [UInt32.toNat_and, h_mask]
  refine Nat.eq_of_testBit_eq fun i => ?_
  rw [Nat.testBit_and, Nat.testBit_mod_two_pow, Nat.testBit_shiftLeft, Nat.testBit_two_pow_sub_one,
    Nat.testBit_shiftLeft, Nat.testBit_shiftRight]
  by_cases hi : n.toNat ≤ i
  · rw [Nat.add_sub_cancel' hi]
    by_cases h_top : i < 32
    · have h_sub : i - n.toNat < 32 := by omega
      simp [hi, h_top, h_sub]
    · -- the word has no such bit
      have h_size : x.toNat < 2 ^ i :=
        lt_of_lt_of_le x.toNat_lt (Nat.pow_le_pow_right (by decide) (by omega))
      rw [Nat.testBit_lt_two_pow h_size]
      simp
  · simp [hi]

end WordBits
