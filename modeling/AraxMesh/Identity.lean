import AraxMesh.Coordinatord

/-!
# Identities in the registry

The registry tells nodes apart by the text of their public keys, the daemons by the 32 bytes the
text decodes to. `Registry.OneAddress` says that the two agree, and `one_address_iff` in which runs
they do: decoding hexadecimal digits takes both cases, so that two texts may name one key.
-/

namespace AraxMesh

open LTS Text

/-! ### The identity a text names -/

/-- The Noise key a text decodes to, if it is one. -/
def identity (publicKey : Str) : Option Bytes :=
  (hexDecode publicKey).filter fun key => key.length = 32

/-- Two texts name one key. -/
def SameIdentity (publicKey publicKey' : Str) : Prop :=
  ∃ key, identity publicKey = some key ∧ identity publicKey' = some key

theorem SameIdentity.symm {k k' : Str} (h : SameIdentity k k') : SameIdentity k' k := by
  obtain ⟨key, hk, hk'⟩ := h
  exact ⟨key, hk', hk⟩

/-- The key a specification is parsed to is the identity its first field names. -/
theorem identity_eq_some {k : Str} {key : Bytes} :
    identity k = some key ↔ hexDecode k = some key ∧ key.length = 32 := by
  rw [identity, Option.filter_eq_some_iff]
  simp

namespace Registry

/-! ### One record for each identity -/

/-- Every record is stored under its own key. -/
def Keyed (r : Registry) : Prop := ∀ k n, r.nodes.lookup k = some n → n.publicKey = k

theorem Called.keyed {r r' : Registry} {c : RegistryCall} {file : Option FileWrite}
    (h_call : r.Called c r' file) (h : r.Keyed) : r'.Keyed := by
  intro j m hm
  rcases h_call.record hm with ⟨m', hm', h_key, -⟩ | h_added
  · rw [h_key]
    exact h j m' hm'
  · rw [h_added.stored, h_added.key]

/-- No two records name one key. -/
def Distinct (r : Registry) : Prop :=
  ∀ k k' n n', r.nodes.lookup k = some n → r.nodes.lookup k' = some n' →
    SameIdentity n.publicKey n'.publicKey → k = k'

/-- No two records name one key, so that a key has one overlay address and no list of peers names
it twice. -/
structure OneAddress (r : Registry) : Prop where
  records : r.Distinct
  address : ∀ n ∈ r.values, ∀ n' ∈ r.values, SameIdentity n.publicKey n'.publicKey →
    n.allowedIp = n'.allowedIp
  peers : ∀ k (ds : List PeerDescriptor), (ds : Multiset PeerDescriptor) = r.peersFor k →
    ds.Pairwise fun d d' => ¬ SameIdentity d.publicKey d'.publicKey

/-- The records of distinct registries, in any order. -/
theorem Distinct.pairwise {r : Registry} (h : r.Distinct) {ns : List NodeRecord}
    (h_ns : (ns : Multiset NodeRecord) = r.values) :
    ns.Pairwise fun n n' => ¬ SameIdentity n.publicKey n'.publicKey := by
  obtain ⟨entries, h_entries⟩ := Quot.exists_rep r.nodes.entries
  have h_keys : entries.NodupKeys := by
    have h_nodup := r.nodes.nodupKeys
    rw [← h_entries] at h_nodup
    exact h_nodup
  -- along the entries, the keys differ
  have h_pairwise : (entries.map Sigma.snd).Pairwise
      fun n n' => ¬ SameIdentity n.publicKey n'.publicKey := by
    rw [List.pairwise_map]
    refine List.Pairwise.imp_of_mem ?_ (List.nodupKeys_iff_pairwise.mp h_keys)
    intro e e' he he' h_ne h_same
    have h_lookup : ∀ e ∈ entries, r.nodes.lookup e.1 = some e.2 := by
      intro e he
      refine Finmap.mem_lookup_iff.mpr ?_
      rw [← h_entries]
      exact he
    exact h_ne (h _ _ _ _ (h_lookup e he) (h_lookup e' he') h_same)
  have h_perm : (entries.map Sigma.snd).Perm ns := by
    rw [← Multiset.coe_eq_coe, h_ns, values, ← h_entries]
    rfl
  exact h_perm.pairwise h_pairwise fun h h' => h h'.symm

theorem Distinct.oneAddress {r : Registry} (h : r.Distinct) : r.OneAddress where
  records := h
  address n hn n' hn' h_same := by
    obtain ⟨k, hk⟩ := mem_values.mp hn
    obtain ⟨k', hk'⟩ := mem_values.mp hn'
    obtain rfl := h k k' n n' hk hk' h_same
    rw [Option.some.inj (hk.symm.trans hk')]
  peers k ds h_ds := by
    obtain ⟨ns, h_ns⟩ := Quot.exists_rep r.values
    have h_perm : ((ns.filter fun n => n.publicKey ≠ k).map NodeRecord.descriptor).Perm ds := by
      rw [← Multiset.coe_eq_coe, h_ds, peersFor, ← h_ns]
      rfl
    refine h_perm.pairwise ?_ fun h h' => h h'.symm
    rw [List.pairwise_map]
    exact (h.pairwise h_ns).filter _

theorem oneAddress_iff {r : Registry} : r.OneAddress ↔ r.Distinct :=
  ⟨fun h => h.records, Distinct.oneAddress⟩

/-- A node that the call adds names a key that no record names. -/
def NewIdentity (r : Registry) (c : RegistryCall) : Prop :=
  r.Adds c → ∀ k n, r.nodes.lookup k = some n → ¬ SameIdentity n.publicKey c.publicKey

/-- A call keeps the identities apart exactly if the node it adds has a new one. -/
theorem Called.distinct_iff {r r' : Registry} {c : RegistryCall} {file : Option FileWrite}
    (h_call : r.Called c r' file) (h : r.Distinct) : r.NewIdentity c ↔ r'.Distinct := by
  constructor
  · intro h_identity j j' m m' hm hm' h_same
    rcases h_call.record hm with ⟨m₀, hm₀, h_key, -⟩ | h_added <;>
      rcases h_call.record hm' with ⟨m₀', hm₀', h_key', -⟩ | h_added'
    · rw [h_key, h_key'] at h_same
      exact h j j' m₀ m₀' hm₀ hm₀' h_same
    · -- an old record against the new one
      rw [h_key, h_added'.key] at h_same
      exact absurd h_same (h_identity h_added'.adds j m₀ hm₀)
    · rw [h_key', h_added.key] at h_same
      exact absurd h_same.symm (h_identity h_added.adds j' m₀' hm₀')
    · rw [h_added.stored, h_added'.stored]
  · intro h' h_adds k m hm h_same
    cases h_call with
    | refused h_not => exact h_not h_adds
    | changed n _ hk => exact h_adds.new (Finmap.mem_of_lookup_eq_some hk)
    | added _ _ _ _ n h_key =>
      -- the old record is still there, next to the new one of the same identity
      have hk : k ≠ c.publicKey := by
        rintro rfl
        exact h_adds.new (Finmap.mem_of_lookup_eq_some hm)
      have h_old : (r.nodes.insert c.publicKey n).lookup k = some m :=
        (Finmap.lookup_insert_of_ne _ hk).trans hm
      rw [← h_key] at h_same
      exact hk (h' k c.publicKey m n h_old (Finmap.lookup_insert _) h_same)

end Registry

/-- **One identity, one address.** In every run of calls from an empty registry, whatever comes of
the writes, no two records ever name one key, no key has two overlay addresses and no list of peers
names a key twice, exactly if every call that adds a node presents a key that no record names in
another spelling. -/
theorem one_address_iff {storage : Storage} {alloc : IpAllocator} {r₀ r : Registry}
    {cs : List RegistryCall} (h_init : (registry storage alloc).init r₀) :
    Exec ((registry storage alloc).restrict Registry.NewIdentity) r₀ cs r ↔
      Exec ((registry storage alloc).within Registry.OneAddress) r₀ cs r := by
  have h_empty : r₀.Distinct := by
    intro k k' n n' hn
    rw [h_init.1.nodes, Finmap.lookup_empty] at hn
    cases hn
  refine Exec.restrict_iff_within (I := fun _ => True) (fun _ _ _ _ _ => trivial) ?_ trivial
    h_empty.oneAddress
  rintro r c r' - h rfl
  rw [Registry.oneAddress_iff] at h ⊢
  exact (r.called storage c).distinct_iff h

/-! ### Two spellings of one key -/

/-- 32 bytes in lower case. -/
def lowerKey : Str := (List.replicate 32 "ab".toList).flatten

/-- The same in upper case. -/
def upperKey : Str := (List.replicate 32 "AB".toList).flatten

/-- Both register and get an address. -/
def spelledTwice : Registry :=
  (smallRegistry.call (fun _ _ => .ok ())
    (.register lowerKey "192.0.2.1:50001".toList none none)).call (fun _ _ => .ok ())
    (.register upperKey "192.0.2.1:50001".toList none none)

theorem one_address_broken :
    Exec (registry (fun _ _ => .ok ()) smallRegistry.allocator) smallRegistry
      [.register lowerKey "192.0.2.1:50001".toList none none,
        .register upperKey "192.0.2.1:50001".toList none none] spelledTwice ∧
    (registry (fun _ _ => .ok ()) smallRegistry.allocator).init smallRegistry ∧
    SameIdentity lowerKey upperKey ∧
    (spelledTwice.nodes.lookup lowerKey).map NodeRecord.allowedIp = some "10.0.99.1".toList ∧
    (spelledTwice.nodes.lookup upperKey).map NodeRecord.allowedIp = some "10.0.99.2".toList := by
  refine ⟨(Exec.single rfl).tail rfl,
    ⟨⟨_, smallRegistry, Or.inl smallRegistry_new, Or.inl rfl⟩, rfl⟩,
    ⟨List.replicate 32 0xab, by decide +kernel, by decide +kernel⟩, by decide +kernel,
    by decide +kernel⟩

/-- The key of another node. -/
def otherKey : Str := (List.replicate 32 "cd".toList).flatten

/-- The registry with the first node. -/
def spelledOnce : Registry :=
  smallRegistry.call (fun _ _ => .ok ()) (.register lowerKey "192.0.2.1:50001".toList none none)

/-- Two nodes with different keys: the second names a key that the record of the first does not. -/
theorem one_address_iff_two :
    Exec ((registry (fun _ _ => .ok ()) smallRegistry.allocator).within Registry.OneAddress)
      smallRegistry [.register lowerKey "192.0.2.1:50001".toList none none,
        .register otherKey "192.0.2.2:50001".toList none none]
      (spelledOnce.call (fun _ _ => .ok ())
        (.register otherKey "192.0.2.2:50001".toList none none)) := by
  refine (one_address_iff ⟨⟨_, smallRegistry, Or.inl smallRegistry_new, Or.inl rfl⟩, rfl⟩).mp
    (Exec.head (s := smallRegistry) ⟨rfl, ?_⟩ (Exec.single ⟨rfl, ?_⟩))
  · rintro - k n hn
    rw [show smallRegistry.nodes = ∅ from rfl, Finmap.lookup_empty] at hn
    cases hn
  · rintro - k n hn ⟨key, h_lower, h_other⟩
    -- the only record is that of the first node
    have h_key : n.publicKey = lowerKey := by
      rcases Registry.lookup_insert_cases hn with ⟨-, rfl⟩ | ⟨-, hn⟩
      · rfl
      · rw [show smallRegistry.nodes = ∅ from rfl, Finmap.lookup_empty] at hn
        cases hn
    rw [h_key] at h_lower
    have h_diff : identity lowerKey ≠ identity otherKey := by decide +kernel
    exact h_diff (h_lower.trans h_other.symm)

end AraxMesh
