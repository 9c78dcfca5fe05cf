import Mathlib.Algebra.BigOperators.Group.Finset.Basic
import Mathlib.Data.Nat.ModEq

/-!
# Counters that wrap

Counters that several tasks add to, one atomic addition at a time, with other steps in between. A
task that has begun to count an event owes the counters the additions it has not made yet. What a
counter stands at, together with what it is owed, changes only when something new is to be counted
(`standing_owe`, `standing_run`), and not when a debt is paid (`standing_pay`).

All of this is modulo `M`, where the counters wrap.
-/

namespace Counters

variable {ι κ : Type*} [DecidableEq κ] {M : ℕ}

/-- What a list of additions adds to a counter. -/
def amount (c : κ) (adds : List (κ × ℕ)) : ℕ := (adds.map fun a => if a.1 = c then a.2 else 0).sum

@[simp] theorem amount_nil (c : κ) : amount c [] = 0 := rfl

@[simp] theorem amount_cons (c : κ) (a : κ × ℕ) (adds : List (κ × ℕ)) :
    amount c (a :: adds) = (if a.1 = c then a.2 else 0) + amount c adds := rfl

@[simp] theorem amount_append (c : κ) (adds adds' : List (κ × ℕ)) :
    amount c (adds ++ adds') = amount c adds + amount c adds' := by
  rw [amount, List.map_append, List.sum_append]
  rfl

/-- What is added event by event. -/
theorem amount_flatMap {α : Type*} (c : κ) (f : α → List (κ × ℕ)) (l : List α) :
    amount c (l.flatMap f) = (l.map fun a => amount c (f a)).sum := by
  induction l with
  | nil => rfl
  | cons a l ih => rw [List.flatMap_cons, amount_append, ih, List.map_cons, List.sum_cons]

/-- Additions to other counters. -/
theorem amount_eq_zero {c : κ} {adds : List (κ × ℕ)} (h : ∀ a ∈ adds, a.1 ≠ c) :
    amount c adds = 0 := by
  induction adds with
  | nil => rfl
  | cons a adds ih =>
    rw [List.forall_mem_cons] at h
    rw [amount_cons, if_neg h.1, ih h.2]

/-- The counters, and what each task has still to add to them. -/
structure Ledger (ι κ : Type*) where
  value : κ → ℕ
  owed : ι → List (κ × ℕ)

namespace Ledger

/-- An atomic addition. -/
def fetchAdd (M : ℕ) (s : Ledger ι κ) (a : κ × ℕ) : Ledger ι κ :=
  { s with value := Function.update s.value a.1 ((s.value a.1 + a.2) % M) }

/-- Additions made one after the other. -/
def run (M : ℕ) (s : Ledger ι κ) (adds : List (κ × ℕ)) : Ledger ι κ := adds.foldl (fetchAdd M) s

/-- All counters at zero, and nothing owed. -/
def zero : Ledger ι κ := ⟨fun _ => 0, fun _ => []⟩

@[simp] theorem owed_fetchAdd (s : Ledger ι κ) (a : κ × ℕ) : (s.fetchAdd M a).owed = s.owed := rfl

@[simp] theorem owed_run (s : Ledger ι κ) (adds : List (κ × ℕ)) :
    (s.run M adds).owed = s.owed := by
  induction adds generalizing s with
  | nil => rfl
  | cons a adds ih => exact ih (s.fetchAdd M a)

/-- A counter has the range of its width. -/
def Bounded (M : ℕ) (s : Ledger ι κ) : Prop := ∀ c, s.value c < M

/-- The sum is taken modulo `M`, so it fits. -/
theorem Bounded.fetchAdd {s : Ledger ι κ} (h : s.Bounded M) (a : κ × ℕ) :
    (s.fetchAdd M a).Bounded M := by
  intro c
  by_cases h_eq : c = a.1
  · subst h_eq
    show Function.update s.value a.1 _ a.1 < M
    rw [Function.update_self]
    exact Nat.mod_lt _ (Nat.zero_lt_of_lt (h a.1))
  · show Function.update s.value a.1 _ c < M
    rw [Function.update_of_ne h_eq]
    exact h c

/-- Additions one after the other keep the range, by induction on them. -/
theorem Bounded.run {s : Ledger ι κ} (h : s.Bounded M) (adds : List (κ × ℕ)) :
    (s.run M adds).Bounded M := by
  induction adds generalizing s with
  | nil => exact h
  | cons a adds ih => exact ih (h.fetchAdd a)

/-- An addition goes to its own counter, -/
theorem value_fetchAdd (s : Ledger ι κ) (a : κ × ℕ) (c : κ) :
    (s.fetchAdd M a).value c ≡ s.value c + (if a.1 = c then a.2 else 0) [MOD M] := by
  by_cases h_eq : a.1 = c
  · subst h_eq
    show Function.update s.value a.1 _ a.1 ≡ _ [MOD M]
    rw [Function.update_self, if_pos rfl]
    exact Nat.mod_modEq _ _
  · show Function.update s.value a.1 _ c ≡ _ [MOD M]
    rw [Function.update_of_ne (Ne.symm h_eq), if_neg h_eq, Nat.add_zero]

/-- and a run of them adds up what is for the counter. -/
theorem value_run (s : Ledger ι κ) (adds : List (κ × ℕ)) (c : κ) :
    (s.run M adds).value c ≡ s.value c + amount c adds [MOD M] := by
  induction adds generalizing s with
  | nil => exact Nat.ModEq.refl _
  | cons a adds ih =>
    calc (s.run M (a :: adds)).value c
        ≡ (s.fetchAdd M a).value c + amount c adds [MOD M] := ih (s.fetchAdd M a)
      _ ≡ s.value c + (if a.1 = c then a.2 else 0) + amount c adds [MOD M] :=
          (s.value_fetchAdd a c).add_right _
      _ = s.value c + amount c (a :: adds) := by rw [amount_cons, Nat.add_assoc]

section Debts

variable [Fintype ι]

/-- What the tasks have still to add to a counter. -/
def debt (s : Ledger ι κ) (c : κ) : ℕ := ∑ i, amount c (s.owed i)

/-- A counter, with what has still to be added to it. -/
def standing (s : Ledger ι κ) (c : κ) : ℕ := s.value c + s.debt c

@[simp] theorem standing_zero (c : κ) : (zero : Ledger ι κ).standing c = 0 := by
  simp [standing, debt, zero]

/-- Additions made now count, and the debts are what they were. -/
theorem standing_run (s : Ledger ι κ) (adds : List (κ × ℕ)) (c : κ) :
    (s.run M adds).standing c ≡ s.standing c + amount c adds [MOD M] := by
  have h_debt : (s.run M adds).debt c = s.debt c := by rw [debt, owed_run, debt]
  rw [standing, h_debt, standing, Nat.add_right_comm]
  exact (s.value_run adds c).add_right _

/-- A counter that nobody owes anything is what has been counted. -/
theorem value_of_standing {s : Ledger ι κ} {c : κ} {n : ℕ} (h : s.standing c ≡ n [MOD M])
    (h_bounded : s.Bounded M) (h_paid : s.debt c = 0) : s.value c = n % M := by
  rw [standing, h_paid, Nat.add_zero] at h
  exact (Nat.mod_eq_of_lt (h_bounded c)).symm.trans h

end Debts

section Tasks

variable [DecidableEq ι]

/-- The task begins to count something: it will make these additions. -/
def owe (s : Ledger ι κ) (i : ι) (adds : List (κ × ℕ)) : Ledger ι κ :=
  { s with owed := Function.update s.owed i (s.owed i ++ adds) }

/-- The task makes the next of its additions. -/
def pay (M : ℕ) (s : Ledger ι κ) (i : ι) : Ledger ι κ :=
  match s.owed i with
  | [] => s
  | a :: adds => { s.fetchAdd M a with owed := Function.update s.owed i adds }

/-- Paying is an addition like others. -/
theorem Bounded.pay {s : Ledger ι κ} (h : s.Bounded M) (i : ι) : (s.pay M i).Bounded M := by
  unfold Ledger.pay
  split
  · exact h
  · next a adds _ => exact h.fetchAdd a

omit [DecidableEq κ] in
/-- A task owes what it owed before and what it begins to count. -/
theorem mem_owed_owe {s : Ledger ι κ} {i j : ι} {adds : List (κ × ℕ)} {a : κ × ℕ}
    (h : a ∈ (s.owe i adds).owed j) : a ∈ s.owed j ∨ a ∈ adds := by
  change a ∈ Function.update s.owed i (s.owed i ++ adds) j at h
  by_cases h_task : j = i
  · subst h_task
    rw [Function.update_self] at h
    exact List.mem_append.mp h
  · rw [Function.update_of_ne h_task] at h
    exact Or.inl h

/-- Paying makes no debt. -/
theorem mem_owed_of_pay {s : Ledger ι κ} {i j : ι} {a : κ × ℕ} (h : a ∈ (s.pay M i).owed j) :
    a ∈ s.owed j := by
  unfold Ledger.pay at h
  split at h
  · exact h
  · next b adds h_owed =>
    change a ∈ Function.update s.owed i adds j at h
    by_cases h_task : j = i
    · subst h_task
      rw [Function.update_self] at h
      rw [h_owed]
      exact List.mem_cons_of_mem b h
    · rwa [Function.update_of_ne h_task] at h

variable [Fintype ι]

/-- The debts of one task are replaced. -/
theorem debt_update (s : Ledger ι κ) (i : ι) (adds : List (κ × ℕ)) (c : κ) :
    ∑ j, amount c (Function.update s.owed i adds j) + amount c (s.owed i) =
      s.debt c + amount c adds := by
  -- the sums agree away from the task
  have h_other : ∀ j ∈ Finset.univ.erase i,
      amount c (Function.update s.owed i adds j) = amount c (s.owed j) := by
    intro j hj
    rw [Function.update_of_ne (Finset.ne_of_mem_erase hj)]
  rw [debt, ← Finset.add_sum_erase _ _ (Finset.mem_univ i), Function.update_self,
    Finset.sum_congr rfl h_other, ← Finset.add_sum_erase _ (fun j => amount c (s.owed j))
      (Finset.mem_univ i)]
  omega

/-- **Beginning to count** something changes the standing by what is to be added. -/
theorem standing_owe (s : Ledger ι κ) (i : ι) (adds : List (κ × ℕ)) (c : κ) :
    (s.owe i adds).standing c = s.standing c + amount c adds := by
  have h := s.debt_update i (s.owed i ++ adds) c
  rw [amount_append] at h
  show s.value c + ∑ j, amount c (Function.update s.owed i (s.owed i ++ adds) j) = _
  rw [standing]
  omega

/-- **Paying a debt** changes the standing of no counter. -/
theorem standing_pay (s : Ledger ι κ) (i : ι) (c : κ) :
    (s.pay M i).standing c ≡ s.standing c [MOD M] := by
  unfold pay
  split
  · exact Nat.ModEq.refl _
  · next a adds h_owed =>
    have h := s.debt_update i adds c
    rw [h_owed, amount_cons] at h
    calc (s.fetchAdd M a).value c + ∑ j, amount c (Function.update s.owed i adds j)
        ≡ s.value c + (if a.1 = c then a.2 else 0) +
            ∑ j, amount c (Function.update s.owed i adds j) [MOD M] :=
          (s.value_fetchAdd a c).add_right _
      _ = s.standing c := by
          rw [standing]
          omega

end Tasks

end Ledger
end Counters
