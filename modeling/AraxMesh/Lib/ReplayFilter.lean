import Mathlib.Data.Finset.Max
import Mathlib.Order.Lattice
import Mathlib.Tactic.Common

/-!
# Sliding-window replay filters

What an anti-replay filter is for, as a set-level specification. `seen` is the set of sequence
numbers accepted so far; a filter of width `W` admits `n` when it is not in `seen` and not `W` or
more below a member of it. Whatever bitmap an implementation keeps, the admitted numbers are
determined by `seen` alone, and no number is admitted twice.
-/

namespace ReplayFilter

/-- `n` is new and above the window's lower end. -/
def Admits (W : ℕ) (seen : Finset ℕ) (n : ℕ) : Prop :=
  n ∉ seen ∧ ∀ m ∈ seen, m < n + W

/-- A filter that has accepted nothing admits everything. -/
theorem admits_empty (W n : ℕ) : Admits W ∅ n :=
  ⟨Finset.notMem_empty n, fun _ h => absurd h (Finset.notMem_empty _)⟩

/-- Only the greatest accepted number bounds the window. -/
theorem admits_iff_of_greatest {W : ℕ} {seen : Finset ℕ} {g n : ℕ} (hg : g ∈ seen)
    (hmax : ∀ m ∈ seen, m ≤ g) : Admits W seen n ↔ n ∉ seen ∧ g < n + W :=
  and_congr_right fun _ => ⟨fun h => h g hg, fun h m hm => lt_of_le_of_lt (hmax m hm) h⟩

/-- **At most once.** An accepted number is never admitted again, however the set grows. -/
theorem not_admits_of_mem {W : ℕ} {seen : Finset ℕ} {n : ℕ} (h : n ∈ seen) :
    ¬ Admits W seen n := fun hn => hn.1 h

end ReplayFilter
