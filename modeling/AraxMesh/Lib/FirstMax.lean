import Mathlib.Data.List.Induction
import Mathlib.Data.Int.Notation
import Mathlib.Order.Nat
import Mathlib.Tactic.Common

/-!
# The first element with the greatest value

Every element of a list has some values, possibly none. `firstMax vals l` scans the list for the
greatest value and returns the index of the element that has it, the first one where several have.
`firstMax_eq_some_iff` and `firstMax_eq_none_iff` say so.
-/

namespace FirstMax

variable {α : Type*}

/-- Replace the best index and value so far where `n` is greater. -/
def keep (idx : ℕ) (best : Option ℕ × ℤ) (n : ℕ) : Option ℕ × ℤ :=
  if best.2 < n then (some idx, n) else best

/-- The index of the first element with the greatest value. -/
def firstMax (vals : α → List ℕ) (l : List α) : Option ℕ :=
  (l.zipIdx.foldl (fun best (a, idx) => (vals a).foldl (keep idx) best) (none, -1)).1

/-- All values with the indices of their elements. -/
def indexed (vals : α → List ℕ) (l : List α) : List (ℕ × ℕ) :=
  l.zipIdx.flatMap fun (a, idx) => (vals a).map fun n => (idx, n)

variable {vals : α → List ℕ} {l : List α}

theorem mem_indexed {i n : ℕ} :
    (i, n) ∈ indexed vals l ↔ ∃ a, l[i]? = some a ∧ n ∈ vals a := by
  simp only [indexed, List.mem_flatMap, List.mem_map, Prod.exists, Prod.mk.injEq,
    List.mk_mem_zipIdx_iff_getElem?]
  constructor
  · rintro ⟨a, idx, ha, m, hm, rfl, rfl⟩
    exact ⟨a, ha, hm⟩
  · rintro ⟨a, ha, hn⟩
    exact ⟨a, i, ha, n, hn, rfl, rfl⟩

/-- The indices ascend. -/
theorem pairwise_indexed (vals : α → List ℕ) (l : List α) :
    (indexed vals l).Pairwise fun c d => c.1 ≤ d.1 := by
  -- the indices of the elements ascend strictly, and all values of one element have its index
  have h_idx : l.zipIdx.Pairwise fun p q => p.2 < q.2 := by
    rw [← List.pairwise_map (f := Prod.snd), List.zipIdx_map_snd]
    exact List.pairwise_lt_range'
  rw [indexed, List.pairwise_flatMap]
  constructor
  · intro p _
    rw [List.pairwise_map]
    exact List.pairwise_of_forall fun _ _ => le_rfl
  · refine h_idx.imp ?_
    intro p q hpq c hc d hd
    obtain ⟨n, -, rfl⟩ := List.mem_map.mp hc
    obtain ⟨m, -, rfl⟩ := List.mem_map.mp hd
    exact hpq.le

/-- What a scan of indexed values leaves: nothing, or a value that no value exceeds and no earlier
one equals. -/
theorem foldl_keep {cs : List (ℕ × ℕ)} (h : cs.Pairwise fun c d => c.1 ≤ d.1) :
    (cs = [] ∧ cs.foldl (fun best c => keep c.1 best c.2) (none, -1) = (none, -1)) ∨
    ∃ c ∈ cs, cs.foldl (fun best c => keep c.1 best c.2) (none, -1) = (some c.1, (c.2 : ℤ)) ∧
      ∀ d ∈ cs, d.2 ≤ c.2 ∧ (d.1 < c.1 → d.2 < c.2) := by
  induction cs using List.reverseRecOn with
  | nil => exact Or.inl ⟨rfl, rfl⟩
  | append_singleton cs d ih =>
    rw [List.pairwise_append] at h
    obtain ⟨h_cs, -, h_last⟩ := h
    have h_le : ∀ c ∈ cs, c.1 ≤ d.1 := fun c hc => h_last c hc d (List.mem_singleton_self d)
    refine Or.inr ?_
    rw [List.foldl_append, List.foldl_cons, List.foldl_nil]
    rcases ih h_cs with ⟨rfl, h_eq⟩ | ⟨c, hc, h_eq, h_max⟩
    · -- the first value is kept, whatever it is
      refine ⟨d, by simp, ?_, by simp⟩
      rw [h_eq, keep, if_pos (show (-1 : ℤ) < d.2 by omega)]
    · -- what is kept so far is compared with the last value
      rw [h_eq, keep]
      by_cases hcd : (c.2 : ℤ) < d.2
      · -- the last value exceeds all others
        rw [if_pos hcd]
        refine ⟨d, by simp, rfl, fun e he => ?_⟩
        rcases List.mem_append.mp he with he | he
        · have h_e := (h_max e he).1
          exact ⟨by omega, fun _ => by omega⟩
        · obtain rfl := List.mem_singleton.mp he
          exact ⟨le_rfl, fun h => absurd h (lt_irrefl _)⟩
      · -- the last value does not, and it does not come earlier either
        rw [if_neg hcd]
        refine ⟨c, List.mem_append_left _ hc, rfl, fun e he => ?_⟩
        rcases List.mem_append.mp he with he | he
        · exact h_max e he
        · obtain rfl := List.mem_singleton.mp he
          have h_ce := h_le c hc
          exact ⟨by omega, fun h => absurd h (by omega)⟩

theorem firstMax_eq (vals : α → List ℕ) (l : List α) : firstMax vals l =
    ((indexed vals l).foldl (fun best c => keep c.1 best c.2) (none, -1)).1 := by
  rw [firstMax, indexed, List.foldl_flatMap]
  simp only [List.foldl_map]

theorem firstMax_eq_none_iff : firstMax vals l = none ↔ ∀ a ∈ l, vals a = [] := by
  -- there are no values at all
  have h_empty : indexed vals l = [] ↔ ∀ a ∈ l, vals a = [] := by
    rw [List.eq_nil_iff_forall_not_mem]
    constructor
    · intro h a ha
      obtain ⟨i, hi⟩ := List.mem_iff_getElem?.mp ha
      exact List.eq_nil_iff_forall_not_mem.mpr fun n hn => h (i, n) (mem_indexed.mpr ⟨a, hi, hn⟩)
    · rintro h ⟨i, n⟩ hc
      obtain ⟨a, ha, hn⟩ := mem_indexed.mp hc
      rw [h a (List.mem_of_getElem? ha)] at hn
      cases hn
  rw [firstMax_eq, ← h_empty]
  rcases foldl_keep (pairwise_indexed vals l) with ⟨h_nil, h_eq⟩ | ⟨c, hc, h_eq, -⟩
  · exact iff_of_true (by rw [h_eq]) h_nil
  · exact iff_of_false (by rw [h_eq]; exact Option.some_ne_none _) (List.ne_nil_of_mem hc)

/-- **The first greatest value.** The scan returns an index exactly if its element has a value that
no value exceeds and no earlier element has. -/
theorem firstMax_eq_some_iff {i : ℕ} : firstMax vals l = some i ↔
    ∃ a n, l[i]? = some a ∧ n ∈ vals a ∧
      ∀ j b m, l[j]? = some b → m ∈ vals b → m ≤ n ∧ (j < i → m < n) := by
  rw [firstMax_eq]
  rcases foldl_keep (pairwise_indexed vals l) with ⟨h_nil, h_eq⟩ | ⟨⟨k, n⟩, hc, h_eq, h_max⟩
  · -- there is no value
    rw [h_eq]
    refine iff_of_false (fun h => nomatch h) ?_
    rintro ⟨a, n, ha, hn, -⟩
    have h_mem := mem_indexed.mpr ⟨a, ha, hn⟩
    rw [h_nil] at h_mem
    cases h_mem
  · have h_all : ∀ j b m, l[j]? = some b → m ∈ vals b → m ≤ n ∧ (j < k → m < n) :=
      fun j b m hb hm => h_max (j, m) (mem_indexed.mpr ⟨b, hb, hm⟩)
    obtain ⟨a, ha, hn⟩ := mem_indexed.mp hc
    rw [h_eq]
    constructor
    · intro h
      obtain rfl : k = i := Option.some.inj h
      exact ⟨a, n, ha, hn, h_all⟩
    · rintro ⟨b, m, hb, hm, h_best⟩
      -- both are greatest, so neither comes before the other
      have h₁ := h_all i b m hb hm
      have h₂ := h_best k a n ha hn
      exact congrArg some (by omega)

end FirstMax
