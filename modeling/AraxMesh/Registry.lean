import AraxMesh.Coordinator

/-!
# Runs of the registry

`Registry.Represents` ties a registry to an `Allocation` of host addresses to public keys, and
`registry_simulates` says that every call is a step of the abstract allocator or leaves it alone.
From there `registry_invariant` has what holds in every state a run of the registry reaches.

## Proof sketch

The allocation assigns numbers to keys, injectively and from the host numbers, and only grows; that
is `Allocation`, which knows of no text. The registry keeps addresses as text in its records and
parses them again to see which are used, so `Represents` says that the text of a record is the
display of the number its key is assigned.

1. A call answers and changes the registry in one of four ways (`Registered`), of which only `added`
   touches an address. `poll` changes a record in its other fields (`poll_assigned`).
2. The addresses in use are the assigned numbers, since parsing undoes displaying
   (`Represents.mem_usedIps`). So what `next_free` finds is the least free number
   (`Represents.add`), and it fails when no number is free.
3. Each clause of the invariant is read off the allocation that is represented.
-/

namespace AraxMesh

open LTS Text

/-! ### What the calls do -/

/-- Writing the state file never fails. -/
def Storage.Succeeds (storage : Storage) : Prop := ∀ path nodes, storage path nodes = .ok ()

namespace Registry

/-- Without a state file, or with one that is written, `persist` succeeds. -/
theorem persist_ok {storage : Storage} (h : storage.Succeeds) (r : Registry) :
    (r.persist storage).1 = .ok () := by
  unfold persist
  split
  · exact h _ _
  · rfl

/-- A record after an insertion is the one inserted, or was there. -/
theorem lookup_insert_cases {nodes : Nodes} {k x : Str} {n m : NodeRecord}
    (h : (nodes.insert k n).lookup x = some m) :
    x = k ∧ m = n ∨ x ≠ k ∧ nodes.lookup x = some m := by
  by_cases hx : x = k
  · subst hx
    rw [Finmap.lookup_insert] at h
    exact Or.inl ⟨rfl, (Option.some.inj h).symm⟩
  · rw [Finmap.lookup_insert_of_ne _ hx] at h
    exact Or.inr ⟨hx, h⟩

/-- The key and the address in the record of a key. -/
def assigned (r : Registry) (k : Str) : Option (Str × Str) :=
  (r.nodes.lookup k).map fun n => (n.publicKey, n.allowedIp)

/-- A change of a record that keeps its key and its address. -/
theorem assigned_insert {r : Registry} {k : Str} {n n' : NodeRecord}
    (h : r.nodes.lookup k = some n) (h_key : n'.publicKey = n.publicKey)
    (h_ip : n'.allowedIp = n.allowedIp) :
    ({ r with nodes := r.nodes.insert k n' } : Registry).assigned = r.assigned := by
  funext j
  unfold assigned
  by_cases hj : j = k
  · subst hj
    rw [Finmap.lookup_insert, h, Option.map_some, Option.map_some, h_key, h_ip]
  · rw [Finmap.lookup_insert_of_ne _ hj]

/-- What `register` can answer, and leave the registry as, when the state file is always written. -/
inductive Registered (r : Registry) (k : Str) (observed : Option Str) :
    Except Str (Str × Option Str) → Registry → Prop
  | forbidden (h : ¬ r.Permits k) (err : Str) : Registered r k observed (.error err) r
  | known (h : r.Permits k) (n n' : NodeRecord) (hk : r.nodes.lookup k = some n)
      (h_key : n'.publicKey = n.publicKey) (h_ip : n'.allowedIp = n.allowedIp) :
      Registered r k observed (.ok (n.allowedIp, observed))
        { r with nodes := r.nodes.insert k n' }
  | exhausted (h : r.Permits k) (hk : k ∉ r.nodes)
      (h_none : r.allocator.nextFree (· ∈ r.usedIps) = none) (err : Str) :
      Registered r k observed (.error err) r
  | added (h : r.Permits k) (hk : k ∉ r.nodes) (ip : Ipv4Addr)
      (h_ip : r.allocator.nextFree (· ∈ r.usedIps) = some ip) (n : NodeRecord)
      (hn : n.publicKey = k ∧ n.allowedIp = ip.display) :
      Registered r k observed (.ok (ip.display, observed)) { r with nodes := r.nodes.insert k n }

/-- **What `register` does** is one of the four. -/
theorem registered {storage : Storage} (h_storage : storage.Succeeds) (r : Registry)
    (k endpoint : Str) (hostname observed : Option Str) :
    r.Registered k observed (r.register storage k endpoint hostname observed).1
      (r.register storage k endpoint hostname observed).2.1 := by
  unfold register
  by_cases h : r.Permits k
  · rw [if_neg (not_not_intro h)]
    -- a key that is known keeps its address, a new one gets the next free one
    cases hk : r.nodes.lookup k with
    | some n =>
      dsimp only
      rw [persist_ok h_storage]
      exact .known h n _ hk rfl rfl
    | none =>
      have hk : k ∉ r.nodes := Finmap.lookup_eq_none.mp hk
      dsimp only
      cases h_ip : r.allocator.nextFree (· ∈ r.usedIps) with
      | none => exact .exhausted h hk h_ip _
      | some ip =>
        dsimp only
        rw [persist_ok h_storage]
        exact .added h hk ip h_ip _ ⟨rfl, rfl⟩
  · rw [if_pos h]
    exact .forbidden h _

/-- `poll` leaves keys and addresses alone, and everything but the nodes. -/
theorem poll_assigned (r : Registry) (storage : Storage) (k endpoint : Str)
    (observed : Option Str) :
    ∃ nodes, (r.poll storage k endpoint observed).2.1 = { r with nodes := nodes } ∧
      ({ r with nodes := nodes } : Registry).assigned = r.assigned := by
  unfold poll
  cases hk : r.nodes.lookup k with
  | none => exact ⟨r.nodes, rfl, rfl⟩
  | some n => exact ⟨_, rfl, assigned_insert hk rfl rfl⟩

end Registry

/-! ### The registry as a system -/

/-- A call of the registry. -/
inductive RegistryCall
  | register (publicKey endpoint : Str) (hostname observedEndpoint : Option Str)
  | poll (publicKey endpoint : Str) (observedEndpoint : Option Str)

/-- The registry after a call. -/
def Registry.call (r : Registry) (storage : Storage) : RegistryCall → Registry
  | .register k endpoint hostname observed => (r.register storage k endpoint hostname observed).2.1
  | .poll k endpoint observed => (r.poll storage k endpoint observed).2.1

/-- An empty registry, with or without a state file and a whitelist. -/
def Registry.Initial (r : Registry) : Prop :=
  ∃ cidr reg, (Registry.new cidr = .ok reg ∨ ∃ path, Registry.loadOrNew cidr path none = .ok reg) ∧
    (r = reg ∨ ∃ keys, r = reg.setWhitelist keys)

/-- All runs of calls over the pool of `alloc`. -/
def registry (storage : Storage) (alloc : IpAllocator) : System Registry RegistryCall where
  init r := r.Initial ∧ r.allocator = alloc
  step r c r' := r.call storage c = r'

/-- A registry begins without nodes: there is no state file to load them from. -/
theorem Registry.Initial.nodes {r : Registry} (h : r.Initial) : r.nodes = ∅ := by
  obtain ⟨cidr, reg, h_reg, h⟩ := h
  have h_new : ∀ reg, Registry.new cidr = .ok reg → reg.nodes = ∅ := by
    intro reg h_reg
    unfold Registry.new at h_reg
    cases h_alloc : IpAllocator.new cidr with
    | error err =>
      rw [h_alloc] at h_reg
      cases h_reg
    | ok alloc =>
      rw [h_alloc] at h_reg
      obtain rfl := Except.ok.inj h_reg
      rfl
  have h_nodes : reg.nodes = ∅ := by
    obtain h_reg | ⟨path, h_reg⟩ := h_reg
    · exact h_new reg h_reg
    · -- there is no file to load yet
      unfold Registry.loadOrNew at h_reg
      cases h_base : Registry.new cidr with
      | error err =>
        rw [h_base] at h_reg
        cases h_reg
      | ok base =>
        rw [h_base] at h_reg
        obtain rfl := Except.ok.inj h_reg
        exact h_new base h_base
  obtain rfl | ⟨keys, rfl⟩ := h
  · exact h_nodes
  · exact h_nodes

namespace Registry

/-- The registry gives the permitted keys of `a` their addresses, as text. -/
structure Represents (alloc : IpAllocator) (r : Registry) (a : Allocation Str ℕ alloc.hosts) :
    Prop where
  allocator : r.allocator = alloc
  keys : ∀ k, k ∈ a.keys ↔ (r.assigned k).isSome
  address : ∀ k pk ip, r.assigned k = some (pk, ip) →
    pk = k ∧ ∃ addr : Ipv4Addr, ip = addr.display ∧ addr.toNat = a.addr k
  permitted : ∀ k ∈ a.keys, r.Permits k

variable {alloc : IpAllocator} {r : Registry} {a : Allocation Str ℕ alloc.hosts}

/-! `keys` is in terms of `assigned`, which changes of a record leave alone; the calls look at
`nodes`. -/

theorem mem_iff_assigned (r : Registry) (k : Str) : k ∈ r.nodes ↔ (r.assigned k).isSome := by
  rw [assigned, Option.isSome_map, Finmap.lookup_isSome]

theorem Represents.mem_keys (h : r.Represents alloc a) {k : Str} : k ∈ a.keys ↔ k ∈ r.nodes := by
  rw [h.keys, mem_iff_assigned]

theorem Represents.keys_eq (h : r.Represents alloc a) : a.keys = r.nodes.keys := by
  ext k
  rw [h.mem_keys, Finmap.mem_keys]

/-- The record of a key. -/
theorem Represents.lookup (h : r.Represents alloc a) {k : Str} {n : NodeRecord}
    (hn : r.nodes.lookup k = some n) : k ∈ a.keys ∧ n.publicKey = k ∧
      ∃ addr : Ipv4Addr, n.allowedIp = addr.display ∧ addr.toNat = a.addr k := by
  have h_assigned : r.assigned k = some (n.publicKey, n.allowedIp) := by rw [assigned, hn]; rfl
  exact ⟨h.mem_keys.mpr (Finmap.mem_of_lookup_eq_some hn), h.address k _ _ h_assigned⟩

/-- A registry with the same addresses represents the same allocation. -/
theorem Represents.congr (h : r.Represents alloc a) {nodes : Nodes}
    (h_same : ({ r with nodes := nodes } : Registry).assigned = r.assigned) :
    ({ r with nodes := nodes } : Registry).Represents alloc a where
  allocator := h.allocator
  keys := by rw [h_same]; exact h.keys
  address := by rw [h_same]; exact h.address
  permitted := h.permitted

/-- The used addresses are those of the allocation. -/
theorem Represents.mem_usedIps (h : r.Represents alloc a) {ip : Ipv4Addr} :
    ip ∈ r.usedIps ↔ ip.toNat ∈ a.used := by
  simp only [usedIps, Multiset.mem_filterMap, Multiset.mem_map, Allocation.used, Finset.mem_image]
  constructor
  · -- the text of an address parses to the address
    rintro ⟨n, ⟨⟨k, n⟩, h_mem, rfl⟩, h_parse⟩
    obtain ⟨hk, -, addr, h_ip, h_addr⟩ := h.lookup (Finmap.mem_lookup_iff.mpr h_mem)
    rw [h_ip, parseIpv4_display] at h_parse
    obtain rfl := Option.some.inj h_parse
    exact ⟨k, hk, h_addr.symm⟩
  · rintro ⟨k, hk, h_addr⟩
    obtain ⟨n, hn⟩ := Finmap.mem_iff.mp (h.mem_keys.mp hk)
    obtain ⟨-, -, addr, h_ip, h_addr'⟩ := h.lookup hn
    -- an address is its number
    have h_eq : addr = ip := UInt32.toNat_inj.mp (h_addr'.trans h_addr)
    refine ⟨n, ⟨⟨k, n⟩, Finmap.mem_lookup_iff.mp hn, rfl⟩, ?_⟩
    rw [h_ip, parseIpv4_display, h_eq]

/-- The addresses the allocator may still give out. -/
theorem Represents.mem_free (h : r.Represents alloc a) {ip : Ipv4Addr} :
    ip.toNat ∈ a.free ↔ ip.toNat ∈ alloc.hosts ∧ decide (ip ∈ r.usedIps) = false := by
  rw [Allocation.free, Finset.mem_sdiff, decide_eq_false_iff_not, h.mem_usedIps]

/-- At first nothing is assigned. -/
theorem Represents.of_initial {storage : Storage} {alloc : IpAllocator} {r : Registry}
    (h : (registry storage alloc).init r) : r.Represents alloc Allocation.empty where
  allocator := h.2
  keys k := by
    rw [← mem_iff_assigned, h.1.nodes]
    simp [Allocation.empty, Finmap.notMem_empty]
  address k pk ip h_assigned := by
    rw [assigned, h.1.nodes, Finmap.lookup_empty] at h_assigned
    cases h_assigned
  permitted k hk := by simp [Allocation.empty] at hk

/-- Adding a node is an assignment of the least free address. -/
theorem Represents.add (h_len : 1 ≤ alloc.prefixLen.toNat) (h : r.Represents alloc a) {k : Str}
    (hp : r.Permits k) (hk : k ∉ r.nodes) {ip : Ipv4Addr}
    (h_ip : r.allocator.nextFree (· ∈ r.usedIps) = some ip) {n : NodeRecord}
    (hn : n.publicKey = k ∧ n.allowedIp = ip.display) :
    ∃ b, (Allocation.system Str alloc.hosts).step a k b ∧
      ({ r with nodes := r.nodes.insert k n } : Registry).Represents alloc b := by
  -- the address that is given is the least free one
  rw [h.allocator] at h_ip
  obtain ⟨h_host, h_unused, h_least⟩ := IpAllocator.nextFree_eq_some h_len h_ip
  have hk' : k ∉ a.keys := fun hc => hk (h.mem_keys.mp hc)
  have h_free : ip.toNat ∈ a.free := h.mem_free.mpr ⟨h_host, h_unused⟩
  refine ⟨a.assign k ip.toNat hk' h_free, ⟨_, hk', h_free, ?_, rfl⟩, ?_⟩
  · -- every free number is the number of a free address
    intro y hy
    have h_end := IpAllocator.broadcast_lt h_len
    have h_four := alloc.four_le_size
    have hy_host := (Allocation.mem_free.mp hy).1
    have hy_lt : y < alloc.broadcast := (Finset.mem_Ioo.mp hy_host).2
    have hy_nat : (UInt32.ofNat y).toNat = y := IpAllocator.toNat_ofNat_of_mem h_len hy_lt
    rw [← hy_nat] at hy ⊢
    obtain ⟨hy_host, hy_unused⟩ := h.mem_free.mp hy
    exact h_least _ hy_host hy_unused
  · -- the registry after the call and the allocation after the assignment
    have h_other : ∀ j, j ≠ k →
        ({ r with nodes := r.nodes.insert k n } : Registry).assigned j = r.assigned j := by
      intro j hj
      rw [assigned, Finmap.lookup_insert_of_ne _ hj, assigned]
    have h_self : ({ r with nodes := r.nodes.insert k n } : Registry).assigned k
        = some (k, ip.display) := by
      rw [assigned, Finmap.lookup_insert, Option.map_some, hn.1, hn.2]
    -- the keys, their addresses, and that all of them are permitted
    refine ⟨h.allocator, ?_, ?_, ?_⟩
    · intro j
      by_cases hj : j = k
      · subst hj
        simp [h_self]
      · rw [h_other j hj, Allocation.assign_keys, Finset.mem_insert, ← h.keys]
        exact or_iff_right hj
    · intro j pk addr h_assigned
      by_cases hj : j = k
      · subst hj
        rw [h_self] at h_assigned
        obtain ⟨rfl, rfl⟩ := Prod.mk.inj (Option.some.inj h_assigned)
        exact ⟨rfl, ip, rfl, (Allocation.assign_addr_self ..).symm⟩
      · rw [h_other j hj] at h_assigned
        have hj_mem : j ∈ a.keys := (h.keys j).mpr (by rw [h_assigned]; rfl)
        rw [Allocation.assign_addr_of_mem a hk' h_free hj_mem]
        exact h.address j pk addr h_assigned
    · intro j hj
      rcases Finset.mem_insert.mp hj with rfl | hj
      · exact hp
      · exact h.permitted j hj

end Registry

/-- **The registry refines the allocator.** A call is the assignment of the least free address to a
new key, or it leaves the allocation alone. -/
theorem registry_simulates {storage : Storage} (h_storage : storage.Succeeds) {alloc : IpAllocator}
    (h_len : 1 ≤ alloc.prefixLen.toNat) :
    Simulation (registry storage alloc) (Allocation.system Str alloc.hosts)
      (Registry.Represents alloc) where
  init r h := ⟨Allocation.empty, rfl, Registry.Represents.of_initial h⟩
  step := by
    rintro r a c r' h rfl
    have h_stay : ∀ {nodes : Nodes}, ({ r with nodes := nodes } : Registry).assigned = r.assigned →
        ∃ ks b, Exec (Allocation.system Str alloc.hosts) a ks b ∧
          ({ r with nodes := nodes } : Registry).Represents alloc b := fun h_same =>
      ⟨[], a, Exec.refl, h.congr h_same⟩
    cases c with
    | register k endpoint hostname observed =>
      have h_reg := r.registered h_storage k endpoint hostname observed
      simp only [Registry.call]
      generalize r.register storage k endpoint hostname observed = out at h_reg ⊢
      obtain ⟨answer, r', file⟩ := out
      cases h_reg with
      -- a call that assigns nothing is answered by no step
      | forbidden => exact h_stay rfl
      | exhausted => exact h_stay rfl
      | known _ n n' hk h_key h_ip => exact h_stay (Registry.assigned_insert hk h_key h_ip)
      | added hp hk ip h_ip n hn =>
        obtain ⟨b, hb, h_repr⟩ := h.add h_len hp hk h_ip hn
        exact ⟨[k], b, Exec.single hb, h_repr⟩
    | poll k endpoint observed =>
      obtain ⟨nodes, h_poll, h_same⟩ := r.poll_assigned storage k endpoint observed
      simp only [Registry.call]
      rw [h_poll]
      exact h_stay h_same

/-! ### What a run guarantees -/

namespace Registry

/-- A host address that no record has. -/
def Free (r : Registry) (ip : Ipv4Addr) : Prop :=
  ip.toNat ∈ r.allocator.hosts ∧ ∀ k n, r.nodes.lookup k = some n → parseIpv4 n.allowedIp ≠ some ip

variable {alloc : IpAllocator} {r : Registry} {a : Allocation Str ℕ alloc.hosts}

/-- The free addresses are the numbers that are free. -/
theorem Represents.free_iff (h : r.Represents alloc a) {ip : Ipv4Addr} :
    r.Free ip ↔ ip.toNat ∈ a.free := by
  have h_used : (∀ k n, r.nodes.lookup k = some n → parseIpv4 n.allowedIp ≠ some ip) ↔
      ip ∉ r.usedIps := by
    simp only [usedIps, Multiset.mem_filterMap, Multiset.mem_map, not_exists, not_and]
    constructor
    · rintro h_not n ⟨⟨k, n⟩, h_mem, rfl⟩ h_parse
      exact h_not k n (Finmap.mem_lookup_iff.mpr h_mem) h_parse
    · intro h_not k n hn h_parse
      exact h_not n ⟨⟨k, n⟩, Finmap.mem_lookup_iff.mp hn, rfl⟩ h_parse
  rw [Free, h_used, h.mem_free, h.allocator, decide_eq_false_iff_not]

/-- A record has its own key and a host address. -/
theorem Represents.record (h : r.Represents alloc a) {k : Str} {n : NodeRecord}
    (hn : r.nodes.lookup k = some n) : n.publicKey = k ∧
      ∃ ip, parseIpv4 n.allowedIp = some ip ∧ ip.toNat ∈ alloc.hosts := by
  obtain ⟨hk, h_key, ip, h_ip, h_addr⟩ := h.lookup hn
  refine ⟨h_key, ip, ?_, ?_⟩
  · rw [h_ip, parseIpv4_display]
  · rw [h_addr]
    exact a.mem_hosts k hk

/-- No two records have one address. -/
theorem Represents.distinct (h : r.Represents alloc a) {k k' : Str} {n n' : NodeRecord}
    (hn : r.nodes.lookup k = some n) (hn' : r.nodes.lookup k' = some n') (hne : k ≠ k') :
    n.allowedIp ≠ n'.allowedIp := by
  obtain ⟨hk, -, ip, h_ip, h_addr⟩ := h.lookup hn
  obtain ⟨hk', -, ip', h_ip', h_addr'⟩ := h.lookup hn'
  intro h_same
  -- the same text would be the same number, of two keys
  have h_parse := congrArg parseIpv4 h_same
  rw [h_ip, h_ip', parseIpv4_display, parseIpv4_display] at h_parse
  obtain rfl := Option.some.inj h_parse
  exact hne (a.injOn hk hk' (h_addr.symm.trans h_addr'))

/-- Registering a known key returns its address. -/
theorem Represents.register_known {storage : Storage} (h_storage : storage.Succeeds)
    (h : r.Represents alloc a) {k : Str} {n : NodeRecord} (hn : r.nodes.lookup k = some n)
    (endpoint : Str) (hostname observed : Option Str) :
    (r.register storage k endpoint hostname observed).1 = .ok (n.allowedIp, observed) := by
  have h_mem : k ∈ r.nodes := Finmap.mem_of_lookup_eq_some hn
  have h_reg := r.registered h_storage k endpoint hostname observed
  generalize r.register storage k endpoint hostname observed = out at h_reg ⊢
  obtain ⟨answer, r', file⟩ := out
  cases h_reg with
  | forbidden hp => exact absurd (h.permitted k (h.mem_keys.mpr h_mem)) hp
  | known _ n₀ _ hk =>
    obtain rfl : n = n₀ := Option.some.inj (hn.symm.trans hk)
    rfl
  | exhausted _ hk => exact absurd h_mem hk
  | added _ hk => exact absurd h_mem hk

/-- **Capacity.** Registering a new permitted key succeeds exactly while a host address is free. -/
theorem Represents.register_new {storage : Storage} (h_storage : storage.Succeeds)
    (h_len : 1 ≤ alloc.prefixLen.toNat) (h : r.Represents alloc a) {k : Str}
    (hp : r.Permits k) (hk : k ∉ r.nodes) (endpoint : Str) (hostname observed : Option Str) :
    ((∃ v, (r.register storage k endpoint hostname observed).1 = .ok v) ↔
      r.nodes.keys.card < alloc.size - 2) ∧
    ∀ v r' file, r.register storage k endpoint hostname observed = (.ok v, r', file) →
      ∃ ip, v = (ip.display, observed) ∧
        (∃ n, r'.nodes.lookup k = some n ∧ n.allowedIp = ip.display) ∧
        r.Free ip ∧ ∀ ip', r.Free ip' → ip.toNat ≤ ip'.toNat := by
  have h_room : r.nodes.keys.card < alloc.size - 2 ↔ a.free.Nonempty := by
    rw [a.free_nonempty_iff, IpAllocator.card_hosts, h.keys_eq]
  have h_reg := r.registered h_storage k endpoint hostname observed
  generalize r.register storage k endpoint hostname observed = out at h_reg ⊢
  obtain ⟨answer, r', file⟩ := out
  cases h_reg with
  | forbidden h_not => exact absurd hp h_not
  | known _ n _ hn => exact absurd (Finmap.mem_of_lookup_eq_some hn) hk
  | exhausted _ _ h_none err =>
    refine ⟨iff_of_false (by simp) ?_, by simp⟩
    -- a free number would be a free address, which `nextFree` would have found
    rw [h_room]
    rintro ⟨y, hy⟩
    have hy_host := (Allocation.mem_free.mp hy).1
    have hy_nat : (UInt32.ofNat y).toNat = y :=
      IpAllocator.toNat_ofNat_of_mem h_len (Finset.mem_Ioo.mp hy_host).2
    rw [← hy_nat] at hy
    obtain ⟨hy_host, hy_unused⟩ := h.mem_free.mp hy
    rw [h.allocator] at h_none
    have h_used := IpAllocator.nextFree_eq_none h_len h_none _ hy_host
    rw [hy_unused] at h_used
    cases h_used
  | added _ _ ip h_ip n hn =>
    rw [h.allocator] at h_ip
    obtain ⟨h_host, h_unused, h_least⟩ := IpAllocator.nextFree_eq_some h_len h_ip
    have h_free := h.mem_free.mpr ⟨h_host, h_unused⟩
    refine ⟨iff_of_true ⟨_, rfl⟩ (h_room.mpr ⟨_, h_free⟩), ?_⟩
    rintro v r' file ⟨⟩
    -- the address is least among the free ones, as the allocator tries them in order
    refine ⟨ip, rfl, ⟨n, Finmap.lookup_insert _, hn.2⟩, h.free_iff.mpr h_free, ?_⟩
    intro ip' h_free'
    obtain ⟨h_host', h_unused'⟩ := h.mem_free.mp (h.free_iff.mp h_free')
    exact h_least ip' h_host' h_unused'

end Registry

/-- **The registry invariant.** In every state a run of calls reaches from an empty registry over a
pool of prefix length 1 to 30, with every write of the state file succeeding:

* every record is stored under its own key and has a host address;
* no two records have one address;
* a key keeps its address for ever, and registering it again returns that address;
* registering a new permitted key succeeds exactly while there are fewer nodes than host addresses,
  and gives the least free one;
* polling adds, removes and renumbers nobody. -/
theorem registry_invariant {storage : Storage} {alloc : IpAllocator} {r₀ r : Registry}
    {calls : List RegistryCall} (h_storage : storage.Succeeds)
    (h_len : 1 ≤ alloc.prefixLen.toNat) (h_init : (registry storage alloc).init r₀)
    (h_run : Exec (registry storage alloc) r₀ calls r) :
    r.allocator = alloc ∧
    (∀ k n, r.nodes.lookup k = some n → n.publicKey = k ∧
      ∃ ip, parseIpv4 n.allowedIp = some ip ∧ alloc.network.toNat < ip.toNat ∧
        ip.toNat < alloc.network.toNat + 2 ^ (32 - alloc.prefixLen.toNat) - 1) ∧
    (∀ k k' n n', r.nodes.lookup k = some n → r.nodes.lookup k' = some n' → k ≠ k' →
      n.allowedIp ≠ n'.allowedIp) ∧
    (∀ calls' r', Exec (registry storage alloc) r calls' r' →
      ∀ k n, r.nodes.lookup k = some n →
        (∃ n', r'.nodes.lookup k = some n' ∧ n'.allowedIp = n.allowedIp) ∧
        ∀ endpoint hostname observed,
          (r'.register storage k endpoint hostname observed).1 = .ok (n.allowedIp, observed)) ∧
    (∀ k endpoint hostname observed, r.Permits k → k ∉ r.nodes →
      ((∃ v, (r.register storage k endpoint hostname observed).1 = .ok v) ↔
        r.nodes.keys.card < 2 ^ (32 - alloc.prefixLen.toNat) - 2) ∧
      ∀ v r' file, r.register storage k endpoint hostname observed = (.ok v, r', file) →
        ∃ ip, v = (ip.display, observed) ∧
          (∃ n, r'.nodes.lookup k = some n ∧ n.allowedIp = ip.display) ∧
          r.Free ip ∧ ∀ ip', r.Free ip' → ip.toNat ≤ ip'.toNat) ∧
    (∀ k endpoint observed, (r.poll storage k endpoint observed).2.1.assigned = r.assigned) := by
  have h_sim := registry_simulates h_storage h_len
  obtain ⟨-, a, -, h⟩ := h_sim.exec (Registry.Represents.of_initial h_init) h_run
  refine ⟨h.allocator, ?_, fun k k' n n' hn hn' hne => h.distinct hn hn' hne, ?_, ?_, ?_⟩
  · intro k n hn
    obtain ⟨h_key, ip, h_parse, h_host⟩ := h.record hn
    exact ⟨h_key, ip, h_parse, Finset.mem_Ioo.mp h_host⟩
  · intro calls' r' h_run' k n hn
    obtain ⟨ks, b, h_exec, h'⟩ := h_sim.exec h h_run'
    obtain ⟨hk, -, ip, h_ip, h_addr⟩ := h.lookup hn
    obtain ⟨hk', h_same⟩ := Allocation.extends_of_exec h_exec k hk
    obtain ⟨n', hn'⟩ := Finmap.mem_iff.mp (h'.mem_keys.mp hk')
    obtain ⟨-, -, ip', h_ip', h_addr'⟩ := h'.lookup hn'
    -- the address is the text of the same number
    have h_eq : ip' = ip := UInt32.toNat_inj.mp (h_addr'.trans (h_same.trans h_addr.symm))
    have h_text : n'.allowedIp = n.allowedIp := by rw [h_ip', h_ip, h_eq]
    refine ⟨⟨n', hn', h_text⟩, fun endpoint hostname observed => ?_⟩
    rw [h'.register_known h_storage hn', h_text]
  · intro k endpoint hostname observed hp hk
    exact h.register_new h_storage h_len hp hk endpoint hostname observed
  · intro k endpoint observed
    obtain ⟨nodes, h_poll, h_same⟩ := r.poll_assigned storage k endpoint observed
    rw [h_poll, h_same]

/-- An empty registry over `10.0.99.0/30`, a block with two host addresses. -/
def smallRegistry : Registry where
  allocator := ⟨0x0A006300, 30, by decide, by decide⟩
  nodes := ∅
  path := none
  whitelist := none

theorem smallRegistry_new : Registry.new "10.0.99.0/30".toList = .ok smallRegistry := by
  rfl

/-- After one registration, a second key gets an address, as one of two is taken. -/
theorem registry_invariant_second :
    let storage : Storage := fun _ _ => .ok ()
    let r := smallRegistry.call storage (.register ['a'] ['e'] none none)
    (∃ v, (r.register storage ['b'] ['f'] none none).1 = .ok v) ↔ r.nodes.keys.card < 2 :=
  ((registry_invariant (fun _ _ => rfl) (by decide)
    ⟨⟨_, smallRegistry, Or.inl smallRegistry_new, Or.inl rfl⟩, rfl⟩ (Exec.single rfl)).2.2.2.2.1
    ['b'] ['f'] none none (by decide +kernel) (by decide +kernel)).1

end AraxMesh
