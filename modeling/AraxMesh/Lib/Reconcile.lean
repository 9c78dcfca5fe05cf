import AraxMesh.Lib.FirstMatch
import Mathlib.Data.List.Induction
import Mathlib.Data.List.Nodup

/-!
# Reconciling a keyed list

A table is a list of items with a key; an order for a key says what the item with that key should
be. `upsert` changes the first item with the key of an order, or adds one at the end; `reconcile`
drops the items nothing was ordered for and upserts all orders in turn.

* `lookup_upsert`, `keys_upsert` — what one order does to the item of each key and to the keys;
* `lookup_reconcile` — the last order for a key decides what its item is;
* `keys_reconcile`, `mem_added` — items keep their order, and new ones follow in order of first
  appearance;
* `nodup_reconcile` — distinct keys stay distinct;
* `foldl_upsert_split` — what all orders preserve, of the items that were there and the new ones;
* `reconcile_eq` — with distinct keys, the reconciled list as a whole.
-/

namespace Reconcile

open FirstMatch

/-- Items of type `α` with keys in `κ`, and orders of type `ω` for them. -/
structure Table (α ω κ : Type*) where
  key : α → κ
  wanted : ω → κ
  /-- Change an item as ordered. -/
  set : ω → α → α
  /-- A new item as ordered. -/
  item : ω → α
  key_set : ∀ w a, key (set w a) = key a
  key_item : ∀ w, key (item w) = wanted w
  set_set : ∀ w w' a, set w' (set w a) = set w' a
  set_item : ∀ w w', wanted w = wanted w' → set w' (item w) = item w'

/-- The elements of a list, each where it appears first. -/
def firsts {κ : Type*} [DecidableEq κ] (l : List κ) : List κ := l.eraseDups

namespace Table

variable {α ω κ : Type*} [DecidableEq κ] (T : Table α ω κ)

/-- The first item with a key. -/
def lookup (l : List α) (k : κ) : Option α := l.find? fun a => T.key a = k

def keys (l : List α) : List κ := l.map T.key

/-- Change the first item with the key of an order, or add one. -/
def upsert (l : List α) (w : ω) : List α :=
  match updateFirst (fun a => T.key a = T.wanted w) (fun a => ((), T.set w a)) l with
  | (some (), l') => l'
  | (none, l') => l' ++ [T.item w]

/-- The last order for a key. -/
def last (ws : List ω) (k : κ) : Option ω := (ws.filter fun w => T.wanted w = k).getLast?

/-- The orders that add an item to a list with the given keys. -/
def added : List κ → List ω → List ω
  | _, [] => []
  | ks, w :: ws => if T.wanted w ∈ ks then added ks ws else w :: added (ks ++ [T.wanted w]) ws

/-- The items of a list whose key has come before, in the list or in `seen`. -/
def later : List κ → List α → List α
  | _, [] => []
  | seen, a :: l => if T.key a ∈ seen then a :: later seen l else later (T.key a :: seen) l

/-- The items something was ordered for. -/
def kept (l : List α) (ws : List ω) : List α :=
  l.filter fun a => ws.any fun w => T.wanted w = T.key a

def reconcile (l : List α) (ws : List ω) : List α := ws.foldl T.upsert (T.kept l ws)

/-- An item changed by the last order for its key. -/
def renew (ws : List ω) (a : α) : α := (T.last ws (T.key a)).elim a fun w => T.set w a

/-- A new item by the last order for the key of `w`. -/
def settle (ws : List ω) (w : ω) : α := T.item ((T.last ws (T.wanted w)).getD w)

variable {T} {l : List α} {w : ω} {ws : List ω} {k : κ}

/-! ### Keys and items -/

omit [DecidableEq κ] in
@[simp] theorem keys_cons (a : α) (l : List α) : T.keys (a :: l) = T.key a :: T.keys l := rfl

omit [DecidableEq κ] in
@[simp] theorem keys_append (l l' : List α) : T.keys (l ++ l') = T.keys l ++ T.keys l' :=
  List.map_append

omit [DecidableEq κ] in
theorem mem_keys : k ∈ T.keys l ↔ ∃ a ∈ l, T.key a = k := List.mem_map

theorem key_of_lookup {a : α} (h : T.lookup l k = some a) : a ∈ l ∧ T.key a = k := by
  rw [lookup] at h
  exact ⟨List.mem_of_find?_eq_some h, by simpa using List.find?_some h⟩

theorem lookup_eq_none : T.lookup l k = none ↔ k ∉ T.keys l := by
  rw [lookup, List.find?_eq_none, mem_keys]
  simp

theorem lookup_cons (b : α) (l : List α) (k : κ) :
    T.lookup (b :: l) k = if T.key b = k then some b else T.lookup l k := by
  by_cases hb : T.key b = k
  · rw [if_pos hb, lookup, List.find?_cons_of_pos (by simpa using hb)]
  · rw [if_neg hb, lookup, List.find?_cons_of_neg (by simpa using hb), lookup]

/-- In a list with distinct keys, every item is the first one with its key. -/
theorem lookup_of_mem (h : (T.keys l).Nodup) {a : α} (ha : a ∈ l) :
    T.lookup l (T.key a) = some a := by
  induction l with
  | nil => cases ha
  | cons b l ih =>
    rw [keys_cons, List.nodup_cons] at h
    rw [lookup_cons]
    rcases List.mem_cons.mp ha with rfl | ha
    · exact if_pos rfl
    · have hne : T.key b ≠ T.key a := fun h_eq => h.1 (h_eq ▸ mem_keys.mpr ⟨a, ha, rfl⟩)
      rw [if_neg hne, ih h.2 ha]

/-- An item with the key of another is in its place. -/
theorem lookup_middle {l₁ l₂ : List α} {a b : α} (h_pre : ∀ c ∈ l₁, T.key c ≠ T.key a)
    (h_key : T.key b = T.key a) : T.lookup (l₁ ++ b :: l₂) k =
      if T.key a = k then some b else T.lookup (l₁ ++ a :: l₂) k := by
  by_cases hk : T.key a = k
  · have h_none : l₁.find? (fun c => T.key c = k) = none := by
      rw [List.find?_eq_none]
      intro c hc
      simpa [← hk] using h_pre c hc
    rw [if_pos hk, lookup, List.find?_append, h_none, Option.none_or,
      List.find?_cons_of_pos (by simpa [h_key] using hk)]
  · rw [if_neg hk, lookup, lookup, List.find?_append, List.find?_append,
      List.find?_cons_of_neg (by simpa [h_key] using hk),
      List.find?_cons_of_neg (by simpa using hk)]

theorem upsert_cases (l : List α) (w : ω) :
    (T.wanted w ∉ T.keys l ∧ T.upsert l w = l ++ [T.item w]) ∨
    ∃ l₁ a l₂, l = l₁ ++ a :: l₂ ∧ T.key a = T.wanted w ∧ (∀ b ∈ l₁, T.key b ≠ T.wanted w) ∧
      T.upsert l w = l₁ ++ T.set w a :: l₂ := by
  unfold upsert
  rcases updateFirst_cases (fun a => decide (T.key a = T.wanted w)) (fun a => ((), T.set w a))
      l with
    ⟨h_none, h_eq⟩ | ⟨l₁, a, l₂, rfl, ha, h_pre, h_eq⟩
  · -- no item has the key
    refine Or.inl ⟨?_, by rw [h_eq]⟩
    rw [mem_keys]
    rintro ⟨a, ha, hk⟩
    simpa [hk] using h_none a ha
  · exact Or.inr ⟨l₁, a, l₂, rfl, by simpa using ha, fun b hb => by simpa using h_pre b hb,
      by rw [h_eq]⟩

/-- One order, key by key. -/
theorem lookup_upsert (l : List α) (w : ω) (k : κ) : T.lookup (T.upsert l w) k =
    if T.wanted w = k then some ((T.lookup l k).elim (T.item w) (T.set w)) else T.lookup l k := by
  rcases T.upsert_cases l w with ⟨h_new, h_eq⟩ | ⟨l₁, a, l₂, rfl, ha, h_pre, h_eq⟩
  · -- a new item, at the end
    rw [h_eq, lookup, List.find?_append]
    by_cases hk : T.wanted w = k
    · have h_none : T.lookup l k = none := lookup_eq_none.mpr (hk ▸ h_new)
      rw [lookup] at h_none
      rw [if_pos hk, lookup, h_none, Option.none_or,
        List.find?_cons_of_pos (by simpa [T.key_item] using hk)]
      rfl
    · rw [if_neg hk, List.find?_cons_of_neg (by simpa [T.key_item] using hk), List.find?_nil,
        Option.or_none, lookup]
  · -- an item is changed in its place
    rw [← ha] at h_pre
    rw [h_eq, lookup_middle h_pre (T.key_set w a), ha]
    by_cases hk : T.wanted w = k
    · rw [if_pos hk, if_pos hk, lookup_middle h_pre rfl, if_pos (ha.trans hk)]
      rfl
    · rw [if_neg hk, if_neg hk]

theorem keys_upsert (l : List α) (w : ω) : T.keys (T.upsert l w) =
    if T.wanted w ∈ T.keys l then T.keys l else T.keys l ++ [T.wanted w] := by
  rcases T.upsert_cases l w with ⟨h_new, h_eq⟩ | ⟨l₁, a, l₂, rfl, ha, -, h_eq⟩
  · rw [if_neg h_new, h_eq, keys_append, keys_cons, T.key_item]
    rfl
  · rw [if_pos (mem_keys.mpr ⟨a, by simp, ha⟩), h_eq, keys_append, keys_append, keys_cons,
      keys_cons, T.key_set]

/-! ### All orders in turn -/

theorem last_append_singleton (ws : List ω) (w : ω) (k : κ) :
    T.last (ws ++ [w]) k = if T.wanted w = k then some w else T.last ws k := by
  rw [last, List.filter_append]
  by_cases hk : T.wanted w = k
  · rw [if_pos hk, List.filter_cons_of_pos (by simpa using hk), List.filter_nil,
      List.getLast?_append, List.getLast?_singleton]
    rfl
  · rw [if_neg hk, List.filter_cons_of_neg (by simpa using hk), List.filter_nil, List.append_nil,
      last]

theorem last_eq_some (h : T.last ws k = some w) : w ∈ ws ∧ T.wanted w = k := by
  have h_mem := List.mem_of_getLast? h
  rw [List.mem_filter] at h_mem
  simpa using h_mem

theorem last_eq_none : T.last ws k = none ↔ ∀ w ∈ ws, T.wanted w ≠ k := by
  rw [last, List.getLast?_eq_none_iff, List.filter_eq_nil_iff]
  simp

/-- The last order for a key decides. -/
theorem lookup_foldl (l : List α) (ws : List ω) (k : κ) : T.lookup (ws.foldl T.upsert l) k =
    match T.last ws k with
    | none => T.lookup l k
    | some w => some ((T.lookup l k).elim (T.item w) (T.set w)) := by
  induction ws using List.reverseRecOn with
  | nil => rfl
  | append_singleton ws w ih =>
    rw [List.foldl_append, List.foldl_cons, List.foldl_nil, lookup_upsert, last_append_singleton]
    by_cases hk : T.wanted w = k
    · rw [if_pos hk, if_pos hk, ih]
      cases h_last : T.last ws k with
      | none => rfl
      | some w' =>
        -- a later order undoes an earlier one
        have h_same : T.wanted w' = T.wanted w := (last_eq_some h_last).2.trans hk.symm
        cases T.lookup l k with
        | none => exact congrArg some (T.set_item w' w h_same)
        | some a => exact congrArg some (T.set_set w' w a)
    · -- the last order is for another key
      rw [if_neg hk, if_neg hk, ih]

theorem keys_foldl (l : List α) (ws : List ω) : T.keys (ws.foldl T.upsert l) =
    T.keys l ++ (T.added (T.keys l) ws).map T.wanted := by
  induction ws generalizing l with
  | nil => exact (List.append_nil _).symm
  | cons w ws ih =>
    rw [List.foldl_cons, ih, keys_upsert, added]
    by_cases hw : T.wanted w ∈ T.keys l
    · -- the keys stay as they are
      rw [if_pos hw, if_pos hw]
    · rw [if_neg hw, if_neg hw, List.map_cons, List.append_assoc]
      rfl

/-- What is added is the first order for its key. -/
theorem mem_added {ks : List κ} : w ∈ T.added ks ws ↔
    T.wanted w ∉ ks ∧ ∃ pre post, ws = pre ++ w :: post ∧ ∀ w' ∈ pre, T.wanted w' ≠ T.wanted w := by
  induction ws generalizing ks with
  | nil => simp [added]
  | cons v ws ih =>
    rw [added]
    by_cases hv : T.wanted v ∈ ks
    · -- the order is for a key the list has
      rw [if_pos hv, ih]
      refine and_congr_right fun hw => ⟨?_, ?_⟩
      · rintro ⟨pre, post, rfl, h_pre⟩
        refine ⟨v :: pre, post, rfl, ?_⟩
        intro w' hw'
        rcases List.mem_cons.mp hw' with rfl | hw'
        · exact fun h_eq => hw (h_eq ▸ hv)
        · exact h_pre w' hw'
      · rintro ⟨pre, post, h_eq, h_pre⟩
        cases pre with
        | nil =>
          obtain ⟨rfl, -⟩ := List.cons.inj h_eq
          exact absurd hv hw
        | cons v' pre =>
          obtain ⟨rfl, rfl⟩ := List.cons.inj h_eq
          exact ⟨pre, post, rfl, fun w' hw' => h_pre w' (List.mem_cons_of_mem _ hw')⟩
    · -- the order is for a new key, which the list has from here on
      rw [if_neg hv, List.mem_cons, ih]
      constructor
      · rintro (rfl | ⟨hw, pre, post, rfl, h_pre⟩)
        · exact ⟨hv, [], ws, rfl, by simp⟩
        · rw [List.mem_append, not_or, List.mem_singleton] at hw
          refine ⟨hw.1, v :: pre, post, rfl, ?_⟩
          intro w' hw'
          rcases List.mem_cons.mp hw' with rfl | hw'
          · exact fun h_eq => hw.2 h_eq.symm
          · exact h_pre w' hw'
      · rintro ⟨hw, pre, post, h_eq, h_pre⟩
        cases pre with
        | nil =>
          obtain ⟨rfl, -⟩ := List.cons.inj h_eq
          exact Or.inl rfl
        | cons v' pre =>
          obtain ⟨rfl, rfl⟩ := List.cons.inj h_eq
          have hne : T.wanted w ≠ T.wanted v := (h_pre v List.mem_cons_self).symm
          refine Or.inr ⟨?_, pre, post, rfl, fun w' hw' => h_pre w' (List.mem_cons_of_mem _ hw')⟩
          rw [List.mem_append, not_or, List.mem_singleton]
          exact ⟨hw, hne⟩

theorem nodup_foldl (h : (T.keys l).Nodup) : (T.keys (ws.foldl T.upsert l)).Nodup := by
  induction ws generalizing l with
  | nil => exact h
  | cons w ws ih =>
    rw [List.foldl_cons]
    refine ih ?_
    rw [keys_upsert]
    split_ifs with hw
    · exact h
    · -- a new key is put at the end
      exact List.Nodup.append h (List.nodup_singleton _) (by simpa using hw)

/-! ### Later items of a key -/

theorem later_sublist (seen : List κ) (l : List α) : (T.later seen l).Sublist l := by
  induction l generalizing seen with
  | nil => exact .slnil
  | cons a l ih =>
    rw [later]
    split_ifs
    · exact (ih seen).cons_cons a
    · exact (ih _).cons a

/-- An item is a later one of its key, or the first. -/
theorem mem_later_or_lookup {seen : List κ} {a : α} (ha : a ∈ l) :
    a ∈ T.later seen l ∨ T.key a ∉ seen ∧ T.lookup l (T.key a) = some a := by
  induction l generalizing seen with
  | nil => cases ha
  | cons b l ih =>
    rw [later]
    by_cases hb : T.key b ∈ seen
    · -- the head is a later item itself
      rw [if_pos hb]
      rcases List.mem_cons.mp ha with rfl | ha
      · exact Or.inl List.mem_cons_self
      · refine (ih ha).imp (List.mem_cons_of_mem _) fun ⟨h_not, h_first⟩ => ⟨h_not, ?_⟩
        have h_ne : T.key b ≠ T.key a := fun h_eq => h_not (h_eq ▸ hb)
        rw [lookup_cons, if_neg h_ne, h_first]
    · -- the head is the first of its key
      rw [if_neg hb]
      rcases List.mem_cons.mp ha with rfl | ha
      · exact Or.inr ⟨hb, by rw [lookup_cons, if_pos rfl]⟩
      · refine (ih ha).imp_right fun ⟨h_not, h_first⟩ => ?_
        rw [List.mem_cons, not_or] at h_not
        exact ⟨h_not.2, by rw [lookup_cons, if_neg (Ne.symm h_not.1), h_first]⟩

theorem upsert_cons (b : α) (l : List α) (w : ω) : T.upsert (b :: l) w =
    if T.key b = T.wanted w then T.set w b :: l else b :: T.upsert l w := by
  unfold upsert
  rw [updateFirst]
  by_cases hb : T.key b = T.wanted w
  · simp [hb]
  · rw [if_neg hb, if_neg (by simpa using hb)]
    rcases updateFirst (fun a => decide (T.key a = T.wanted w)) (fun a => ((), T.set w a)) l with
      ⟨_ | _, l'⟩ <;> rfl

/-- An order is carried out in the first of two lists that has its key, or else in the second. -/
theorem upsert_append (l m : List α) (w : ω) : T.upsert (l ++ m) w =
    if T.wanted w ∈ T.keys l then T.upsert l w ++ m else l ++ T.upsert m w := by
  induction l with
  | nil => rfl
  | cons b l ih =>
    rw [List.cons_append, upsert_cons, upsert_cons, ih, keys_cons]
    by_cases hb : T.key b = T.wanted w
    · simp [hb]
    · have h_ne : T.wanted w ≠ T.key b := fun h => hb h.symm
      simp only [if_neg hb, List.mem_cons, h_ne, false_or]
      split_ifs <;> rfl

/-- **Old items and new ones.** After any orders the items come first that were there before, each
changed by orders only, and then the items that were added, each changed by orders only. -/
theorem foldl_upsert_split {R : α → α → Prop} {N : α → Prop} (h_refl : ∀ a, R a a)
    (h_trans : ∀ a b c, R a b → R b c → R a c) (h_new : ∀ a b, N a → R a b → N b)
    (h_set : ∀ w ∈ ws, ∀ a, R a (T.set w a)) (h_item : ∀ w ∈ ws, N (T.item w)) (l : List α) :
    ∃ old new, ws.foldl T.upsert l = old ++ new ∧ List.Forall₂ R l old ∧ ∀ a ∈ new, N a := by
  induction ws using List.reverseRecOn with
  | nil =>
    exact ⟨l, [], (List.append_nil l).symm, List.forall₂_same.mpr fun a _ => h_refl a, by simp⟩
  | append_singleton ws w ih =>
    obtain ⟨old, new, h_eq, h_old, h_added⟩ := ih
      (fun w hw => h_set w (List.mem_append_left _ hw))
      (fun w hw => h_item w (List.mem_append_left _ hw))
    have hw : w ∈ ws ++ [w] := by simp
    -- an order for a key that is there changes one item
    have h_change : ∀ m : List α, T.wanted w ∈ T.keys m → List.Forall₂ R m (T.upsert m w) := by
      intro m h_key
      rcases T.upsert_cases m w with ⟨h_not, -⟩ | ⟨l₁, a, l₂, rfl, -, -, h_upsert⟩
      · exact absurd h_key h_not
      · rw [h_upsert]
        exact forall₂_middle h_refl (h_set w hw a) l₁ l₂
    rw [List.foldl_append, h_eq, List.foldl_cons, List.foldl_nil, upsert_append]
    split_ifs with h_key
    · -- an old item is changed
      exact ⟨_, new, rfl, forall₂_comp h_trans h_old (h_change old h_key), h_added⟩
    · refine ⟨old, _, rfl, h_old, fun b hb => ?_⟩
      by_cases h_key' : T.wanted w ∈ T.keys new
      · -- one of those that were added
        obtain ⟨a, ha, hR⟩ := forall₂_mem_right (h_change new h_key') hb
        exact h_new a b (h_added a ha) hR
      · rcases T.upsert_cases new w with ⟨-, h_upsert⟩ | ⟨l₁, a, l₂, rfl, ha, -, -⟩
        · -- or one is added now
          rw [h_upsert, List.mem_append, List.mem_singleton] at hb
          rcases hb with hb | rfl
          · exact h_added b hb
          · exact h_item w hw
        · exact absurd (mem_keys.mpr ⟨a, by simp, ha⟩) h_key'

/-- An order is for the first item of its key. -/
theorem later_upsert {seen : List κ} (h : T.wanted w ∉ seen) :
    T.later seen (T.upsert l w) = T.later seen l := by
  induction l generalizing seen with
  | nil =>
    change T.later seen [T.item w] = []
    rw [later, T.key_item, if_neg h]
    rfl
  | cons b l ih =>
    rw [upsert_cons]
    split_ifs with hb
    · -- the head is the item that is changed, and the first of its key
      rw [later, later, T.key_set]
      have hb' : T.key b ∉ seen := hb ▸ h
      rw [if_neg hb', if_neg hb']
    · -- the change comes later, and the head's key is not the order's
      rw [later, later, ih h]
      refine if_congr Iff.rfl rfl (ih ?_)
      rw [List.mem_cons, not_or]
      exact ⟨Ne.symm hb, h⟩

theorem later_foldl : T.later [] (ws.foldl T.upsert l) = T.later [] l := by
  induction ws generalizing l with
  | nil => rfl
  | cons w ws ih => rw [List.foldl_cons, ih, later_upsert List.not_mem_nil]

/-! ### Reconciling -/

theorem lookup_kept (l : List α) (ws : List ω) (k : κ) :
    T.lookup (T.kept l ws) k = if T.last ws k = none then none else T.lookup l k := by
  by_cases hk : T.last ws k = none
  · -- without an order the items of the key are dropped
    rw [if_pos hk, lookup_eq_none, mem_keys]
    rintro ⟨a, ha, rfl⟩
    obtain ⟨w, hw, h_key⟩ := List.any_eq_true.mp (List.mem_filter.mp ha).2
    exact last_eq_none.mp hk w hw (by simpa using h_key)
  · rw [if_neg hk, lookup, kept, List.find?_filter, lookup]
    obtain ⟨w, hw⟩ := Option.ne_none_iff_exists'.mp hk
    obtain ⟨h_mem, h_wanted⟩ := last_eq_some hw
    -- the filter lets every item with this key pass
    refine congrArg (fun p => l.find? p) (funext fun a => ?_)
    by_cases ha : T.key a = k
    · simpa [ha] using ⟨w, h_mem, h_wanted⟩
    · simp [ha]

/-- **The last order for a key decides**: without one the item is dropped, with one the item is
changed as ordered, or is new. -/
theorem lookup_reconcile (l : List α) (ws : List ω) (k : κ) : T.lookup (T.reconcile l ws) k =
    (T.last ws k).map fun w => (T.lookup l k).elim (T.item w) (T.set w) := by
  rw [reconcile, lookup_foldl, lookup_kept]
  cases T.last ws k with
  | none => rfl
  | some w => rfl

theorem keys_reconcile (l : List α) (ws : List ω) : T.keys (T.reconcile l ws) =
    T.keys (T.kept l ws) ++ (T.added (T.keys (T.kept l ws)) ws).map T.wanted :=
  keys_foldl _ _

theorem nodup_reconcile (h : (T.keys l).Nodup) : (T.keys (T.reconcile l ws)).Nodup :=
  nodup_foldl (h.sublist (List.filter_sublist.map _))

/-- An item of the reconciled list was there before, or is what was ordered for its key. -/
theorem mem_reconcile {a : α} (ha : a ∈ T.reconcile l ws) :
    a ∈ l ∨ T.lookup (T.reconcile l ws) (T.key a) = some a := by
  refine (mem_later_or_lookup ha : a ∈ T.later [] _ ∨ _).imp (fun h => ?_) And.right
  -- orders leave the later items alone, so they are the old ones
  rw [reconcile, later_foldl] at h
  exact List.filter_sublist.subset ((later_sublist _ _).subset h)

theorem mem_keys_kept : k ∈ T.keys (T.kept l ws) ↔ k ∈ T.keys l ∧ T.last ws k ≠ none := by
  rw [← not_iff_not, ← lookup_eq_none, lookup_kept, not_and_or, ← lookup_eq_none, not_not]
  split_ifs with h <;> simp [h]

/-! ### The reconciled list as a whole -/

/-- The keys that are added are the ordered ones that the list does not have, each where it appears
first. -/
theorem map_wanted_added (ks : List κ) (ws : List ω) : (T.added ks ws).map T.wanted =
    firsts ((ws.map T.wanted).filter fun k => decide (k ∉ ks)) := by
  induction ws generalizing ks with
  | nil => rfl
  | cons w ws ih =>
    rw [added, List.map_cons]
    by_cases hw : T.wanted w ∈ ks
    · rw [if_pos hw, ih, List.filter_cons_of_neg (by simpa using hw)]
    · -- from here on the list has the key
      rw [if_neg hw, List.map_cons, ih, List.filter_cons_of_pos (by simpa using hw), firsts, firsts,
        List.eraseDups_cons, List.filter_filter]
      congr 3
      funext k
      rw [Bool.eq_iff_iff]
      simp [and_comm]

/-- A list with distinct keys is what its keys look up. -/
theorem filterMap_lookup_keys (h : (T.keys l).Nodup) :
    (T.keys l).filterMap (T.lookup l) = l := by
  rw [keys, List.filterMap_map]
  calc l.filterMap (T.lookup l ∘ T.key) = l.filterMap some :=
        List.filterMap_congr fun a ha => lookup_of_mem h ha
    _ = l := List.filterMap_some

theorem key_settle (ws : List ω) (w : ω) : T.key (T.settle ws w) = T.wanted w := by
  rw [settle, T.key_item]
  cases h_last : T.last ws (T.wanted w) with
  | none => rfl
  | some w' => exact (last_eq_some h_last).2

/-- **The reconciled list.** The items something was ordered for stay in their places, each changed
by the last order for its key, and the items of new keys follow. -/
theorem reconcile_eq (h : (T.keys l).Nodup) (ws : List ω) : T.reconcile l ws =
    (T.kept l ws).map (T.renew ws) ++
      (T.added (T.keys (T.kept l ws)) ws).map (T.settle ws) := by
  have h_nodup : (T.keys (T.reconcile l ws)).Nodup := nodup_reconcile h
  have h_kept : ∀ a ∈ T.kept l ws,
      T.lookup (T.reconcile l ws) (T.key a) = some (T.renew ws a) := by
    intro a ha
    have h_last := (mem_keys_kept.mp (mem_keys.mpr ⟨a, ha, rfl⟩)).2
    obtain ⟨w, hw⟩ := Option.ne_none_iff_exists'.mp h_last
    rw [lookup_reconcile, lookup_of_mem h (List.filter_sublist.subset ha), renew, hw]
    rfl
  have h_added : ∀ w ∈ T.added (T.keys (T.kept l ws)) ws,
      T.lookup (T.reconcile l ws) (T.wanted w) = some (T.settle ws w) := by
    intro w hw
    obtain ⟨h_new, pre, post, h_ws, -⟩ := mem_added.mp hw
    have h_last : T.last ws (T.wanted w) ≠ none := fun h_none =>
      last_eq_none.mp h_none w (by simp [h_ws]) rfl
    obtain ⟨w', hw'⟩ := Option.ne_none_iff_exists'.mp h_last
    -- the list does not have the key
    have h_none : T.lookup l (T.wanted w) = none := by
      rw [lookup_eq_none]
      exact fun h_mem => h_new (mem_keys_kept.mpr ⟨h_mem, h_last⟩)
    rw [lookup_reconcile, h_none, hw', settle, hw']
    rfl
  calc T.reconcile l ws = (T.keys (T.reconcile l ws)).filterMap (T.lookup (T.reconcile l ws)) :=
        (filterMap_lookup_keys h_nodup).symm
    _ = _ := by
        rw [keys_reconcile, List.filterMap_append, keys, List.filterMap_map, List.filterMap_map]
        congr 1
        · exact List.filterMap_eq_map_iff_forall_eq_some.mpr h_kept
        · exact List.filterMap_eq_map_iff_forall_eq_some.mpr h_added

/-! ### Orders with distinct keys -/

theorem last_of_nodup (h : (ws.map T.wanted).Nodup) (hw : w ∈ ws) :
    T.last ws (T.wanted w) = some w := by
  have h_some : T.last ws (T.wanted w) ≠ none := fun h_none => last_eq_none.mp h_none w hw rfl
  obtain ⟨w', h_last⟩ := Option.ne_none_iff_exists'.mp h_some
  obtain ⟨hw', h_key⟩ := last_eq_some h_last
  -- there is one order for the key
  rw [h_last, List.inj_on_of_nodup_map h hw' hw h_key]

/-- All of them are added to a list that has none of their keys. -/
theorem added_of_nodup {ks : List κ} (h : (ws.map T.wanted).Nodup)
    (h_new : ∀ w ∈ ws, T.wanted w ∉ ks) : T.added ks ws = ws := by
  induction ws generalizing ks with
  | nil => rfl
  | cons w ws ih =>
    rw [List.map_cons, List.nodup_cons] at h
    rw [added, if_neg (h_new w List.mem_cons_self), ih h.2]
    intro w' hw'
    rw [List.mem_append, List.mem_singleton, not_or]
    refine ⟨h_new w' (List.mem_cons_of_mem _ hw'), fun h_eq => h.1 ?_⟩
    exact h_eq ▸ List.mem_map_of_mem hw'

/-- None is added to a list that has all their keys. -/
theorem added_of_mem {ks : List κ} (h : ∀ w ∈ ws, T.wanted w ∈ ks) : T.added ks ws = [] := by
  induction ws with
  | nil => rfl
  | cons w ws ih =>
    rw [added, if_pos (h w List.mem_cons_self)]
    exact ih fun w' hw' => h w' (List.mem_cons_of_mem _ hw')

/-- Reconciling the empty list makes an item of every order. -/
theorem reconcile_nil (h : (ws.map T.wanted).Nodup) : T.reconcile [] ws = ws.map T.item := by
  rw [reconcile_eq (show (T.keys []).Nodup from List.nodup_nil)]
  change (T.added [] ws).map (T.settle ws) = _
  rw [added_of_nodup h fun _ _ => List.not_mem_nil]
  refine List.map_congr_left fun w hw => ?_
  rw [settle, last_of_nodup h hw]
  rfl

/-- Items that are as ordered, one for each order, are left alone by the same orders. -/
theorem reconcile_of_ordered {f : ω → α} (h_key : ∀ w, T.key (f w) = T.wanted w)
    (h_set : ∀ w, T.set w (f w) = f w) (h : (ws.map T.wanted).Nodup) :
    T.reconcile (ws.map f) ws = ws.map f ∧ T.added (T.keys (T.kept (ws.map f) ws)) ws = [] := by
  have h_keys : T.keys (ws.map f) = ws.map T.wanted := by
    rw [keys, List.map_map]
    exact List.map_congr_left fun w _ => h_key w
  have h_kept : T.kept (ws.map f) ws = ws.map f := by
    refine List.filter_eq_self.mpr fun a ha => ?_
    obtain ⟨w, hw, rfl⟩ := List.mem_map.mp ha
    exact List.any_eq_true.mpr ⟨w, hw, decide_eq_true (h_key w).symm⟩
  have h_added : T.added (T.keys (T.kept (ws.map f) ws)) ws = [] := by
    rw [h_kept, h_keys]
    exact added_of_mem fun w hw => List.mem_map_of_mem hw
  refine ⟨?_, h_added⟩
  rw [reconcile_eq (by rwa [h_keys]), h_added, h_kept, List.map_nil, List.append_nil, List.map_map]
  refine List.map_congr_left fun w hw => ?_
  rw [Function.comp_apply, renew, h_key, last_of_nodup h hw]
  exact h_set w

end Table
end Reconcile
