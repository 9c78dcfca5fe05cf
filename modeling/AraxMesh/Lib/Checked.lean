import Mathlib.Algebra.Group.Nat.Defs
import Mathlib.Data.Nat.Notation
import Mathlib.Tactic.Common

/-!
# Arithmetic with overflow checks

The wrapping operations of a fixed-width type as partial operations: a sum that does not fit, a
difference below zero and a shift by the width or more are undefined. A computation written with
them is defined exactly if none of its steps overflows, and then it returns what the wrapping
computation does.
-/

namespace Checked

/-- A type of unsigned words. -/
class Word (α : Type) where
  /-- The number of bits. -/
  width : ℕ
  toNat : α → ℕ

instance : Word UInt8 := ⟨8, UInt8.toNat⟩

instance : Word UInt32 := ⟨32, UInt32.toNat⟩

instance : Word UInt64 := ⟨64, UInt64.toNat⟩

variable {α : Type} [Word α]

def add [Add α] (a b : α) : Option α :=
  if Word.toNat a + Word.toNat b < 2 ^ Word.width α then some (a + b) else none

def sub [Sub α] (a b : α) : Option α :=
  if Word.toNat b ≤ Word.toNat a then some (a - b) else none

def shl [ShiftLeft α] (a n : α) : Option α :=
  if Word.toNat n < Word.width α then some (a <<< n) else none

def shr [ShiftRight α] (a n : α) : Option α :=
  if Word.toNat n < Word.width α then some (a >>> n) else none

theorem add_of_lt [Add α] {a b : α} (h : Word.toNat a + Word.toNat b < 2 ^ Word.width α) :
    add a b = some (a + b) := if_pos h

theorem sub_of_le [Sub α] {a b : α} (h : Word.toNat b ≤ Word.toNat a) :
    sub a b = some (a - b) := if_pos h

theorem shl_of_lt [ShiftLeft α] {a n : α} (h : Word.toNat n < Word.width α) :
    shl a n = some (a <<< n) := if_pos h

theorem shr_of_lt [ShiftRight α] {a n : α} (h : Word.toNat n < Word.width α) :
    shr a n = some (a >>> n) := if_pos h

/-- A shift by the width overflows. -/
theorem shl_of_le [ShiftLeft α] {a n : α} (h : Word.width α ≤ Word.toNat n) :
    shl a n = none := if_neg (Nat.not_lt.mpr h)

/-- A loop none of whose rounds overflows. -/
theorem foldlM_eq_some {β γ : Type*} {f : β → γ → Option β} {g : β → γ → β} {l : List γ}
    (h : ∀ c ∈ l, ∀ b, f b c = some (g b c)) (b : β) : l.foldlM f b = some (l.foldl g b) := by
  induction l generalizing b with
  | nil => rfl
  | cons c l ih =>
    rw [List.foldlM_cons, h c List.mem_cons_self, List.foldl_cons]
    exact ih (fun c' hc => h c' (List.mem_cons_of_mem _ hc)) (g b c)

end Checked
