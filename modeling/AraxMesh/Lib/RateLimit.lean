import Mathlib.Data.List.Induction
import Mathlib.Data.Nat.Notation
import Mathlib.Logic.Function.Basic
import Mathlib.Tactic.Common

/-!
# A rate limiter with one slot for each key

A key is let through if it was not let through less than `gap` ago, and its slot then holds the
time. A request that is turned away leaves the slots alone.

A history is the list of what was let through, oldest first. `Follows` ties the slots to it, and is
kept by whatever is let through (`Follows.take`).

* `Follows.ready_iff` — a request is turned away exactly if its key was let through less than `gap`
  before;
* `Spaced.length_window` — of one key, fewer than `T / gap + 1` requests are let through in a window
  of length `T`.

The clock need not be monotone: a time in the future counts as just now.
-/

namespace RateLimit

variable {κ : Type*}

/-- When each key was last let through. -/
abbrev Slots (κ : Type*) := κ → Option ℕ

/-- A key that was let through, and when. -/
abbrev Pass (κ : Type*) := κ × ℕ

/-- The key was not let through less than `gap` ago. -/
def Ready (gap : ℕ) (slots : Slots κ) (k : κ) (now : ℕ) : Prop :=
  ∀ last, slots k = some last → gap ≤ now - last

instance (gap : ℕ) (slots : Slots κ) (k : κ) (now : ℕ) : Decidable (Ready gap slots k now) :=
  match h : slots k with
  | none => isTrue fun _ hl => by rw [h] at hl; cases hl
  | some last => decidable_of_iff (gap ≤ now - last)
      ⟨fun hg _ hl => by rw [h] at hl; exact Option.some.inj hl ▸ hg, fun hr => hr last h⟩

variable [DecidableEq κ]

/-- Note that the key was let through. -/
def take (slots : Slots κ) (k : κ) (now : ℕ) : Slots κ := Function.update slots k (some now)

/-- A request of a key: whether it is let through. -/
def offer (gap : ℕ) (slots : Slots κ) (k : κ) (now : ℕ) : Bool × Slots κ :=
  if Ready gap slots k now then (true, take slots k now) else (false, slots)

theorem offer_of_ready {gap : ℕ} {slots : Slots κ} {k : κ} {now : ℕ}
    (h : Ready gap slots k now) : offer gap slots k now = (true, take slots k now) := if_pos h

theorem offer_of_not_ready {gap : ℕ} {slots : Slots κ} {k : κ} {now : ℕ}
    (h : ¬ Ready gap slots k now) : offer gap slots k now = (false, slots) := if_neg h

/-! ### Histories -/

/-- A key is let through at most once in `gap`. -/
def Spaced (gap : ℕ) (passes : List (Pass κ)) : Prop :=
  passes.Pairwise fun p q => p.1 = q.1 → p.2 + gap ≤ q.2

/-- Each slot holds the last time its key was let through, and the times of a key are spaced. -/
structure Follows (gap : ℕ) (slots : Slots κ) (passes : List (Pass κ)) : Prop where
  mem : ∀ k last, slots k = some last → (k, last) ∈ passes
  last : ∀ p ∈ passes, ∃ last, slots p.1 = some last ∧ p.2 ≤ last
  spaced : Spaced gap passes

variable {gap : ℕ} {slots : Slots κ} {passes : List (Pass κ)} {k : κ} {now : ℕ}

omit [DecidableEq κ] in
theorem Follows.empty : Follows gap (fun _ : κ => none) [] where
  mem _ _ h := by cases h
  last _ h := absurd h List.not_mem_nil
  spaced := List.Pairwise.nil

omit [DecidableEq κ] in
/-- **Who is turned away.** A request is let through exactly if its key was not let through less
than `gap` before. -/
theorem Follows.ready_iff (h_gap : 0 < gap) (h : Follows gap slots passes) :
    Ready gap slots k now ↔ ∀ p ∈ passes, p.1 = k → p.2 + gap ≤ now := by
  constructor
  · rintro h_ready p hp rfl
    obtain ⟨last, h_last, h_le⟩ := h.last p hp
    have h_gone := h_ready last h_last
    omega
  · intro h_all last h_last
    have h_gone : last + gap ≤ now := h_all _ (h.mem k last h_last) rfl
    omega

/-- A pass extends the history. -/
theorem Follows.take (h_gap : 0 < gap) (h : Follows gap slots passes)
    (h_ready : Ready gap slots k now) :
    Follows gap (take slots k now) (passes ++ [(k, now)]) where
  mem j last h_last := by
    by_cases hj : j = k
    · subst hj
      rw [RateLimit.take, Function.update_self] at h_last
      obtain rfl := Option.some.inj h_last
      simp
    · rw [RateLimit.take, Function.update_of_ne hj] at h_last
      exact List.mem_append_left _ (h.mem j last h_last)
  last p hp := by
    rcases List.mem_append.mp hp with hp | hp
    · by_cases hk : p.1 = k
      · -- the new time is later than every one before
        have h_le := (h.ready_iff h_gap).mp h_ready p hp hk
        rw [RateLimit.take, hk, Function.update_self]
        exact ⟨now, rfl, by omega⟩
      · rw [RateLimit.take, Function.update_of_ne hk]
        exact h.last p hp
    · obtain rfl := List.mem_singleton.mp hp
      exact ⟨now, Function.update_self .., Nat.le_refl _⟩
  spaced := by
    refine List.pairwise_append.mpr ⟨h.spaced, List.pairwise_singleton _ _, ?_⟩
    intro p hp q hq h_key
    obtain rfl := List.mem_singleton.mp hq
    exact (h.ready_iff h_gap).mp h_ready p hp h_key

/-! ### Windows -/

/-- Spaced numbers take room. -/
theorem add_length_mul_le {times : List ℕ} (h : times.Pairwise fun t u => t + gap ≤ u) {a b : ℕ}
    (h_ge : ∀ t ∈ times, a ≤ t) (h_le : ∀ t ∈ times, t + gap ≤ b) (hab : a ≤ b) :
    a + times.length * gap ≤ b := by
  induction times using List.reverseRecOn generalizing b with
  | nil => simpa using hab
  | append_singleton times t ih =>
    rw [List.pairwise_append] at h
    obtain ⟨h_times, -, h_last⟩ := h
    -- the others are `gap` before the last one
    have h_room : a + times.length * gap ≤ t :=
      ih h_times (fun u hu => h_ge u (by simp [hu])) (fun u hu => h_last u hu t (by simp))
        (h_ge t (by simp))
    have h_end : t + gap ≤ b := h_le t (by simp)
    rw [List.length_append, List.length_singleton, Nat.add_mul, Nat.one_mul]
    omega

/-- The times of one key in a window. -/
def window (passes : List (Pass κ)) (k : κ) (a T : ℕ) : List (Pass κ) :=
  passes.filter fun p => p.1 = k ∧ a ≤ p.2 ∧ p.2 < a + T

/-- **The rate.** In no window of length `T` is a key let through more often than every `gap`. -/
theorem Spaced.length_window (h : Spaced gap passes) (h_gap : 0 < gap) (k : κ) (a T : ℕ) :
    (window passes k a T).length * gap < T + gap := by
  have h_mem : ∀ p ∈ window passes k a T, p.1 = k ∧ a ≤ p.2 ∧ p.2 < a + T := by
    intro p hp
    simpa using (List.mem_filter.mp hp).2
  have h_times : ((window passes k a T).map Prod.snd).Pairwise fun t u => t + gap ≤ u := by
    rw [List.pairwise_map]
    refine List.Pairwise.imp_of_mem ?_ (h.filter _)
    intro p q hp hq h_pq
    exact h_pq ((h_mem p hp).1.trans (h_mem q hq).1.symm)
  have h_in : ∀ t ∈ (window passes k a T).map Prod.snd, a ≤ t ∧ t < a + T := by
    intro t ht
    obtain ⟨p, hp, rfl⟩ := List.mem_map.mp ht
    exact (h_mem p hp).2
  have h_room := add_length_mul_le (b := a + T + gap - 1) h_times (fun t ht => (h_in t ht).1)
    (fun t ht => by have := (h_in t ht).2; omega) (by omega)
  rw [List.length_map] at h_room
  omega

end RateLimit
