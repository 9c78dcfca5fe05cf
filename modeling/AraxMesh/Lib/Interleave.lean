import AraxMesh.Lib.Trans
import Mathlib.Logic.Function.Basic

/-!
# Systems side by side

`System.family sys` is the interleaving of a family of systems: a step is a step of one of them, and
leaves the others where they are. A run of the family is a run of each member, on the labels that
are its own (`Exec.at`); the converse is not needed.

`Exec.cut` cuts a run of any system at the label of an index.
-/

namespace LTS

variable {ι State Label : Type*}

/-- The interleaving of a family of systems. -/
def System.family (sys : ι → System State Label) : System (ι → State) (ι × Label) where
  init s := ∀ i, (sys i).init (s i)
  step s l t := (sys l.1).step (s l.1) l.2 (t l.1) ∧ ∀ i, i ≠ l.1 → t i = s i

/-! ### The labels of a member -/

section Labels

variable [DecidableEq ι]

/-- The labels of one member, in order. -/
def labelsAt (i : ι) (ls : List (ι × Label)) : List Label :=
  ls.filterMap fun l => if l.1 = i then some l.2 else none

@[simp] theorem labelsAt_append (i : ι) (ls ms : List (ι × Label)) :
    labelsAt i (ls ++ ms) = labelsAt i ls ++ labelsAt i ms := List.filterMap_append

@[simp] theorem labelsAt_self (i : ι) (l : Label) (ls : List (ι × Label)) :
    labelsAt i ((i, l) :: ls) = l :: labelsAt i ls := by
  simp [labelsAt]

theorem labelsAt_ne {i j : ι} (h : j ≠ i) (l : Label) (ls : List (ι × Label)) :
    labelsAt i ((j, l) :: ls) = labelsAt i ls := by
  simp [labelsAt, h]

theorem mem_labelsAt {i : ι} {l : Label} {ls : List (ι × Label)} :
    l ∈ labelsAt i ls ↔ (i, l) ∈ ls := by
  simp only [labelsAt, List.mem_filterMap]
  constructor
  · rintro ⟨⟨j, l'⟩, h_mem, h⟩
    split_ifs at h with h_eq
    obtain rfl : j = i := h_eq
    obtain rfl := Option.some.inj h
    exact h_mem
  · intro h_mem
    exact ⟨(i, l), h_mem, if_pos rfl⟩

end Labels

/-! ### Runs -/

variable {sys : ι → System State Label}

/-- **A run of the family is a run of each member.** -/
theorem Exec.at [DecidableEq ι] {s t : ι → State} {ls : List (ι × Label)}
    (h : Exec (System.family sys) s ls t) (i : ι) : Exec (sys i) (s i) (labelsAt i ls) (t i) := by
  induction h with
  | refl => exact Exec.refl
  | @tail ls t l u h hl ih =>
    obtain ⟨j, l⟩ := l
    obtain ⟨h_step, h_frame⟩ := hl
    rw [labelsAt_append]
    by_cases h_eq : j = i
    · subst h_eq
      rw [labelsAt_self]
      exact ih.tail h_step
    · -- the step is another member's
      rw [labelsAt_ne h_eq, h_frame i (Ne.symm h_eq)]
      simpa [labelsAt] using ih

/-- A run cut at the label of an index. -/
theorem Exec.cut {sys : System State Label} {s t : State} {ls : List Label} {i : ℕ} {l : Label}
    (h : Exec sys s ls t) (hi : ls[i]? = some l) :
    ∃ u v, Exec sys s (ls.take i) u ∧ sys.step u l v := by
  obtain ⟨h_lt, rfl⟩ := List.getElem?_eq_some_iff.mp hi
  rw [← List.take_append_drop i ls, List.drop_eq_getElem_cons h_lt] at h
  obtain ⟨u, h_pre, h_rest⟩ := h.split
  obtain ⟨v, hl, -⟩ := h_rest.cut_first
  exact ⟨u, v, h_pre, hl⟩

end LTS
