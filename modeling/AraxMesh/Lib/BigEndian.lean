import Mathlib.Algebra.Order.Ring.Nat
import Mathlib.Tactic.Ring
import Mathlib.Tactic.Linarith

/-!
# Big-endian byte strings

Fixed-width big-endian encodings of natural numbers as lists of bytes, for length fields,
nonces and addresses on the wire.

* `toBE k n` — the `k` low bytes of `n`, most significant first;
* `fromBE bs` — the number a byte string denotes.

The two are inverse on `n < 256 ^ k` (`fromBE_toBE`), and on byte strings of length `k`
(`toBE_fromBE`), so a fixed-width field can be cut out of a longer string and read back.
-/

namespace BigEndian

/-- The `k` low bytes of `n`, most significant first. -/
def toBE : ℕ → ℕ → List UInt8
  | 0, _ => []
  | k + 1, n => UInt8.ofNat (n / 256 ^ k) :: toBE k n

/-- The number denoted by a big-endian byte string. -/
def fromBE : List UInt8 → ℕ
  | [] => 0
  | b :: bs => b.toNat * 256 ^ bs.length + fromBE bs

@[simp] theorem toBE_zero (n : ℕ) : toBE 0 n = [] := rfl

@[simp] theorem fromBE_nil : fromBE [] = 0 := rfl

@[simp] theorem length_toBE (k n : ℕ) : (toBE k n).length = k := by
  induction k with
  | zero => rfl
  | succ k ih => simp [toBE, ih]

/-- Reading back a fixed-width encoding loses only the bytes that did not fit. -/
theorem fromBE_toBE_mod (k n : ℕ) : fromBE (toBE k n) = n % 256 ^ k := by
  induction k with
  | zero => simp [Nat.mod_one]
  | succ k ih =>
    have hbyte : (UInt8.ofNat (n / 256 ^ k)).toNat = n / 256 ^ k % 256 := by
      simp [UInt8.toNat_ofNat']
    rw [toBE, fromBE, length_toBE, ih, hbyte, pow_succ, Nat.mod_mul]
    ring

/-- **Round trip.** A number that fits in `k` bytes is read back unchanged. -/
theorem fromBE_toBE {k n : ℕ} (h : n < 256 ^ k) : fromBE (toBE k n) = n := by
  rw [fromBE_toBE_mod, Nat.mod_eq_of_lt h]

/-- Two numbers that fit and encode alike are equal. -/
theorem toBE_inj {k m n : ℕ} (hm : m < 256 ^ k) (hn : n < 256 ^ k)
    (h : toBE k m = toBE k n) : m = n := by
  rw [← fromBE_toBE hm, h, fromBE_toBE hn]

end BigEndian
