import AraxMesh.Lib.Trans
import Mathlib.Data.Finset.Card
import Mathlib.Order.Basic

/-!
# Allocating addresses from a finite pool

An `Allocation K A hosts` gives finitely many keys pairwise different addresses from the pool
`hosts`; that the addresses are in the pool and different is part of the structure. A key is
`assign`ed the least free address.

* `Allocation.free_nonempty_iff` — an address is free exactly as long as there are fewer keys than
  addresses;
* `Allocation.extends_of_exec` — no run of assignments ever changes the address of a key.
-/

open LTS

/-- An allocation of addresses in `hosts` to finitely many keys. -/
structure Allocation (K A : Type*) (hosts : Finset A) where
  keys : Finset K
  /-- The address of a key; of no meaning outside `keys`. -/
  addr : K → A
  mem_hosts : ∀ k ∈ keys, addr k ∈ hosts
  injOn : Set.InjOn addr keys

namespace Allocation

variable {K A : Type*} [LinearOrder A] {hosts : Finset A}

/-- The addresses that are taken. -/
def used (a : Allocation K A hosts) : Finset A := a.keys.image a.addr

/-- The addresses that are not. -/
def free (a : Allocation K A hosts) : Finset A := hosts \ a.used

theorem used_subset (a : Allocation K A hosts) : a.used ⊆ hosts := by
  intro x hx
  obtain ⟨k, hk, rfl⟩ := Finset.mem_image.mp hx
  exact a.mem_hosts k hk

theorem mem_free {a : Allocation K A hosts} {x : A} :
    x ∈ a.free ↔ x ∈ hosts ∧ ∀ k ∈ a.keys, a.addr k ≠ x := by
  simp [free, used]

/-- **Capacity.** There is a free address exactly as long as there are fewer keys than
addresses. -/
theorem free_nonempty_iff (a : Allocation K A hosts) :
    a.free.Nonempty ↔ a.keys.card < hosts.card := by
  have h_used : a.used.card = a.keys.card := Finset.card_image_of_injOn a.injOn
  have h_free : a.free.card = hosts.card - a.keys.card := by
    rw [free, Finset.card_sdiff_of_subset a.used_subset, h_used]
  rw [← Finset.card_pos, h_free, Nat.sub_pos_iff_lt]

variable [DecidableEq K]

/-- Give the key `k` the address `x`. -/
def assign (a : Allocation K A hosts) (k : K) (x : A) (hk : k ∉ a.keys) (hx : x ∈ a.free) :
    Allocation K A hosts where
  keys := insert k a.keys
  addr := Function.update a.addr k x
  mem_hosts := by
    intro j hj
    rcases Finset.mem_insert.mp hj with rfl | hj
    · rw [Function.update_self]
      exact (mem_free.mp hx).1
    · rw [Function.update_of_ne (ne_of_mem_of_not_mem hj hk)]
      exact a.mem_hosts j hj
  injOn := by
    have h_old : ∀ j ∈ a.keys, Function.update a.addr k x j = a.addr j := fun j hj =>
      Function.update_of_ne (ne_of_mem_of_not_mem hj hk) x a.addr
    rw [Finset.coe_insert, Set.injOn_insert (by simpa using hk)]
    refine ⟨?_, ?_⟩
    · intro i hi j hj h
      rw [h_old i hi, h_old j hj] at h
      exact a.injOn hi hj h
    · rw [Function.update_self]
      rintro ⟨j, hj, h⟩
      rw [h_old j hj] at h
      exact (mem_free.mp hx).2 j hj h

@[simp] theorem assign_keys (a : Allocation K A hosts) (k : K) (x : A) (hk : k ∉ a.keys)
    (hx : x ∈ a.free) : (a.assign k x hk hx).keys = insert k a.keys := rfl

@[simp] theorem assign_addr_self (a : Allocation K A hosts) (k : K) (x : A) (hk : k ∉ a.keys)
    (hx : x ∈ a.free) : (a.assign k x hk hx).addr k = x := Function.update_self ..

theorem assign_addr_of_mem (a : Allocation K A hosts) {k : K} {x : A} (hk : k ∉ a.keys)
    (hx : x ∈ a.free) {j : K} (hj : j ∈ a.keys) : (a.assign k x hk hx).addr j = a.addr j := by
  change Function.update a.addr k x j = _
  exact Function.update_of_ne (ne_of_mem_of_not_mem hj hk) x a.addr

/-- The allocation of nothing. -/
def empty [Inhabited A] : Allocation K A hosts where
  keys := ∅
  addr _ := default
  mem_hosts := by simp
  injOn := by simp

/-- Allocating the least free address to one key after another. -/
def system (K : Type*) [DecidableEq K] (hosts : Finset A) :
    System (Allocation K A hosts) K where
  init a := a.keys = ∅
  step a k b := ∃ (x : A) (hk : k ∉ a.keys) (hx : x ∈ a.free), (∀ y ∈ a.free, x ≤ y) ∧
    b = a.assign k x hk hx

/-- `b` has the keys of `a` at the same addresses, and possibly others. -/
def Extends (a b : Allocation K A hosts) : Prop :=
  ∀ k ∈ a.keys, k ∈ b.keys ∧ b.addr k = a.addr k

/-- **Assignments are for ever.** -/
theorem extends_of_exec {a b : Allocation K A hosts} {ks : List K}
    (h : Exec (system K hosts) a ks b) : a.Extends b := by
  refine h.invariant a.Extends (fun k hk => ⟨hk, rfl⟩) ?_
  rintro c j _ ih ⟨x, hj, hx, -, rfl⟩ k hk
  obtain ⟨h_mem, h_addr⟩ := ih k hk
  refine ⟨Finset.mem_insert_of_mem h_mem, ?_⟩
  rw [assign_addr_of_mem c hj hx h_mem, h_addr]

end Allocation
