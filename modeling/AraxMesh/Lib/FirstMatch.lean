import Mathlib.Data.List.Forall2
import Mathlib.Tactic.Common

/-!
# Updating the first match in a list

`updateFirst c f l` runs `f` on the first element of `l` that satisfies `c` and puts the element `f`
returns in its place. `updateFirst_cases` says what it does to the list as a whole,
`updateFirst_forall₂` what it does to each element; relations between the elements of two lists
compose (`forall₂_comp`).

`select tests a` is a chain of tests against keys, each with a branch of its own. Every key selects
its own branch exactly if the keys are distinct (`select_all_iff`).
-/

namespace FirstMatch

variable {α β γ : Type*}

/-- Run `f` on the first element that satisfies `c`: the result of `f`, if there is such an element,
and the list with that element replaced. -/
def updateFirst (c : α → Bool) (f : α → β × α) : List α → Option β × List α
  | [] => (none, [])
  | a :: l =>
    if c a then (some (f a).1, (f a).2 :: l)
    else
      let (r, l') := updateFirst c f l
      (r, a :: l')

theorem updateFirst_cases (c : α → Bool) (f : α → β × α) (l : List α) :
    ((∀ a ∈ l, c a = false) ∧ updateFirst c f l = (none, l)) ∨
    ∃ l₁ a l₂, l = l₁ ++ a :: l₂ ∧ c a = true ∧ (∀ b ∈ l₁, c b = false) ∧
      updateFirst c f l = (some (f a).1, l₁ ++ (f a).2 :: l₂) := by
  induction l with
  | nil => exact Or.inl ⟨by simp, rfl⟩
  | cons a l ih =>
    cases ha : c a with
    | true => exact Or.inr ⟨[], a, l, rfl, ha, by simp, by simp [updateFirst, ha]⟩
    | false =>
      rcases ih with ⟨hnone, heq⟩ | ⟨l₁, b, l₂, rfl, hb, hpre, heq⟩
      · -- no match in the rest
        refine Or.inl ⟨?_, by simp [updateFirst, ha, heq]⟩
        intro b hb
        rcases List.mem_cons.mp hb with rfl | hb
        · exact ha
        · exact hnone b hb
      · -- the first match of the rest is the first of all
        refine Or.inr ⟨a :: l₁, b, l₂, rfl, hb, ?_, by simp [updateFirst, ha, heq]⟩
        intro d hd
        rcases List.mem_cons.mp hd with rfl | hd
        · exact ha
        · exact hpre d hd

/-- Elements that do not satisfy `c` are passed over. -/
theorem updateFirst_append {c : α → Bool} (f : α → β × α) {l₁ : List α}
    (h : ∀ a ∈ l₁, c a = false) (l : List α) :
    updateFirst c f (l₁ ++ l) = ((updateFirst c f l).1, l₁ ++ (updateFirst c f l).2) := by
  induction l₁ with
  | nil => rfl
  | cons a l₁ ih =>
    have ha : ¬ c a = true := by simp [h a List.mem_cons_self]
    rw [List.cons_append, updateFirst, if_neg ha, ih fun b hb => h b (List.mem_cons_of_mem _ hb)]
    rfl

/-- The first element that satisfies `c` is the one that is updated. -/
theorem updateFirst_of_first {c : α → Bool} (f : α → β × α) {l₁ : List α} {a : α}
    (h : ∀ b ∈ l₁, c b = false) (ha : c a = true) (l₂ : List α) :
    updateFirst c f (l₁ ++ a :: l₂) = (some (f a).1, l₁ ++ (f a).2 :: l₂) := by
  rw [updateFirst_append f h, updateFirst, if_pos ha]

/-- The first match is looked for no further, and here changes nothing. -/
theorem updateFirst_of_idle {c : α → Bool} {f : α → β × α} {r : β} {l₁ : List α}
    (h_idle : ∀ a ∈ l₁, f a = (r, a)) (h : ∃ a ∈ l₁, c a = true) (l : List α) :
    updateFirst c f (l₁ ++ l) = (some r, l₁ ++ l) := by
  induction l₁ with
  | nil => simp at h
  | cons a l₁ ih =>
    rw [List.cons_append, updateFirst]
    by_cases ha : c a = true
    · rw [if_pos ha, h_idle a List.mem_cons_self]
    · have h_rest : ∃ b ∈ l₁, c b = true := by simpa [ha] using h
      rw [if_neg ha, ih (fun b hb => h_idle b (List.mem_cons_of_mem _ hb)) h_rest]

/-- An element is left alone, or it satisfies `c` and was updated. -/
theorem updateFirst_forall₂ (c : α → Bool) (f : α → β × α) (l : List α) :
    List.Forall₂ (fun a a' => a' = a ∨ c a = true ∧ a' = (f a).2) l (updateFirst c f l).2 := by
  induction l with
  | nil => exact .nil
  | cons a l ih =>
    unfold updateFirst
    split_ifs with ha
    · exact .cons (Or.inr ⟨ha, rfl⟩) (List.forall₂_same.mpr fun _ _ => Or.inl rfl)
    · exact .cons (Or.inl rfl) ih

/-- Two lists that differ in one element. -/
theorem forall₂_middle {R : α → α → Prop} (h_refl : ∀ a, R a a) {a b : α} (h : R a b)
    (l₁ l₂ : List α) : List.Forall₂ R (l₁ ++ a :: l₂) (l₁ ++ b :: l₂) := by
  induction l₁ with
  | nil => exact .cons h (List.forall₂_same.mpr fun c _ => h_refl c)
  | cons c l₁ ih => exact .cons (h_refl c) ih

/-- A list and the list with one element set. -/
theorem forall₂_set {R : α → α → Prop} (h_refl : ∀ a, R a a) {l : List α} {i : ℕ} {a b : α}
    (hi : l[i]? = some a) (h : R a b) : List.Forall₂ R l (l.set i b) := by
  obtain ⟨h_lt, rfl⟩ := List.getElem?_eq_some_iff.mp hi
  have h_mid := forall₂_middle h_refl h (l.take i) (l.drop (i + 1))
  rw [← List.drop_eq_getElem_cons h_lt, List.take_append_drop] at h_mid
  rwa [List.set_eq_take_append_cons_drop, if_pos h_lt]

theorem forall₂_comp {R : α → β → Prop} {Q : β → γ → Prop} {T : α → γ → Prop}
    (h : ∀ a b c, R a b → Q b c → T a c) {l : List α} {l₁ : List β} {l₂ : List γ}
    (h₁ : List.Forall₂ R l l₁) (h₂ : List.Forall₂ Q l₁ l₂) : List.Forall₂ T l l₂ := by
  induction h₁ generalizing l₂ with
  | nil =>
    cases h₂
    exact .nil
  | cons hab _ ih =>
    cases h₂ with
    | cons hbc h₂ => exact .cons (h _ _ _ hab hbc) (ih h₂)

/-- Every element of the second list is related to one of the first. -/
theorem forall₂_mem_right {R : α → β → Prop} {l : List α} {l' : List β}
    (h : List.Forall₂ R l l') {b : β} (hb : b ∈ l') : ∃ a ∈ l, R a b := by
  induction h with
  | nil => cases hb
  | cons hab _ ih =>
    rcases List.mem_cons.mp hb with rfl | hb
    · exact ⟨_, List.mem_cons_self, hab⟩
    · obtain ⟨a, ha, hR⟩ := ih hb
      exact ⟨a, List.mem_cons_of_mem _ ha, hR⟩

/-- The elements at one index are related. -/
theorem forall₂_getElem? {R : α → β → Prop} {l : List α} {l' : List β} (h : List.Forall₂ R l l')
    {i : ℕ} {a : α} (ha : l[i]? = some a) : ∃ b, l'[i]? = some b ∧ R a b := by
  induction h generalizing i with
  | nil => simp at ha
  | @cons x y _ _ hxy _ ih =>
    cases i with
    | zero =>
      obtain rfl : x = a := by simpa using ha
      exact ⟨y, by simp, hxy⟩
    | succ i =>
      obtain ⟨b, hb, hR⟩ := ih (by simpa using ha)
      exact ⟨b, by simpa using hb, hR⟩

/-- A list around an element that alone satisfies `P`. -/
theorem exists_split {P : α → Prop} {l : List α} {i : ℕ} {a : α} (hi : l[i]? = some a)
    (h : ∀ j b, l[j]? = some b → P b → j = i) :
    ∃ l₁ l₂, l = l₁ ++ a :: l₂ ∧ l₁.length = i ∧ (∀ b ∈ l₁, ¬ P b) ∧ ∀ b ∈ l₂, ¬ P b := by
  obtain ⟨h_lt, rfl⟩ := List.getElem?_eq_some_iff.mp hi
  refine ⟨l.take i, l.drop (i + 1), ?_, by rw [List.length_take]; omega, ?_, ?_⟩
  · -- the element is where the list is cut
    rw [← List.drop_eq_getElem_cons h_lt, List.take_append_drop]
  · -- before it
    intro b hb hP
    obtain ⟨j, hj⟩ := List.mem_iff_getElem?.mp hb
    rw [List.getElem?_take] at hj
    split_ifs at hj with h_before
    have := h j b hj hP
    omega
  · -- and after it, every index is another one
    intro b hb hP
    obtain ⟨j, hj⟩ := List.mem_iff_getElem?.mp hb
    rw [List.getElem?_drop] at hj
    have := h _ b hj hP
    omega

/-- The first matches are related. -/
theorem forall₂_find? {R : α → β → Prop} {c : α → Bool} {c' : β → Bool}
    (hc : ∀ a b, R a b → c' b = c a) {l : List α} {l' : List β} (h : List.Forall₂ R l l') {a : α}
    (ha : l.find? c = some a) : ∃ b, l'.find? c' = some b ∧ R a b := by
  induction h with
  | nil => simp at ha
  | @cons x y _ _ hxy _ ih =>
    rw [List.find?_cons] at ha ⊢
    rw [hc x y hxy]
    cases hx : c x with
    | true =>
      rw [hx] at ha
      obtain rfl := Option.some.inj ha
      exact ⟨y, rfl, hxy⟩
    | false =>
      rw [hx] at ha
      exact ih ha

/-! ### Chains of tests -/

section Select

variable [DecidableEq α]

/-- The branch of the first test whose key is `a`. -/
def select (tests : List (α × β)) (a : α) : Option β :=
  match tests with
  | [] => none
  | t :: tests => if a = t.1 then some t.2 else select tests a

theorem select_self (a : α) (b : β) (tests : List (α × β)) :
    select ((a, b) :: tests) a = some b := if_pos rfl

/-- Another branch is selected only where the first test fails. -/
theorem select_cons_iff {a' : α} {b b' : β} (h : b' ≠ b) (a : α) (tests : List (α × β)) :
    select ((a', b') :: tests) a = some b ↔ a ≠ a' ∧ select tests a = some b := by
  rw [select]
  split_ifs with ha
  · rw [Option.some.injEq]
    exact iff_of_false h fun h_ne => h_ne.1 ha
  · exact (and_iff_right ha).symm

/-- **Every key selects its own branch** exactly if the keys are distinct. -/
theorem select_all_iff {tests : List (α × β)} (h_branches : (tests.map Prod.snd).Nodup) :
    (∀ t ∈ tests, select tests t.1 = some t.2) ↔ (tests.map Prod.fst).Nodup := by
  induction tests with
  | nil => simp
  | cons t tests ih =>
    rw [List.map_cons, List.nodup_cons] at h_branches ⊢
    rw [← ih h_branches.2, List.forall_mem_cons]
    -- a later key that is the first one selects the first branch
    have h_later : ∀ u ∈ tests, select (t :: tests) u.1 = some u.2 ↔
        u.1 ≠ t.1 ∧ select tests u.1 = some u.2 := by
      intro u hu
      have h_branch : t.2 ≠ u.2 := fun h => h_branches.1 (h ▸ List.mem_map_of_mem hu)
      exact select_cons_iff h_branch u.1 tests
    constructor
    · rintro ⟨-, h⟩
      refine ⟨fun h_mem => ?_, fun u hu => ((h_later u hu).mp (h u hu)).2⟩
      obtain ⟨u, hu, h_eq⟩ := List.mem_map.mp h_mem
      exact ((h_later u hu).mp (h u hu)).1 h_eq
    · rintro ⟨h_new, h⟩
      refine ⟨select_self t.1 t.2 tests, fun u hu => (h_later u hu).mpr ⟨fun h_eq => ?_, h u hu⟩⟩
      exact h_new (h_eq ▸ List.mem_map_of_mem hu)

end Select

end FirstMatch
