import AraxMesh.Coordinatord

/-!
# Registry calls that fail

`register` and `poll` change the map of nodes first and write the state file then. An error found
before the change leaves the map alone; one from the write finds the change made, and nothing takes
it back. `registry_atomic_iff` says for which calls a failure leaves the map as it was.

The record that a call would store is worked out on its own (`stored`), from the registry and the
call, so that the condition can name it. `CallResult` relates it to what the two functions do:
without a record they fail before the change, and with one they fail exactly if the write does.
-/

namespace AraxMesh

/-- The call returned an error. -/
def RegistryAnswer.Failed : RegistryAnswer → Prop
  | .register result => ∃ err, result = .error err
  | .poll result => ∃ err, result = .error err

namespace Registry

/-! ### The record a call stores -/

/-- The record that `register` puts into the map, if it gets that far. -/
def storedByRegister (r : Registry) (k endpoint : Str) (hostname observed : Option Str) :
    Option NodeRecord :=
  if ¬ r.Permits k then none
  else
    match r.nodes.lookup k with
    | some n =>
      some { n with
        endpoint := some endpoint
        hostname := if hostname.isSome then hostname else n.hostname
        observedEndpoint := observed }
    | none => (r.allocator.nextFree (· ∈ r.usedIps)).map fun ip =>
      { publicKey := k
        allowedIp := ip.display
        endpoint := some endpoint
        hostname := hostname
        observedEndpoint := observed }

/-- The record that `poll` puts into the map, if it gets that far. -/
def storedByPoll (r : Registry) (k endpoint : Str) (observed : Option Str) : Option NodeRecord :=
  (r.nodes.lookup k).map fun n => { n with endpoint := some endpoint, observedEndpoint := observed }

/-- The record of a call. -/
def stored (r : Registry) : RegistryCall → Option NodeRecord
  | .register k endpoint hostname observed => r.storedByRegister k endpoint hostname observed
  | .poll k endpoint observed => r.storedByPoll k endpoint observed

/-- The registry with a record put in. -/
def store (r : Registry) (k : Str) (n : NodeRecord) : Registry :=
  { r with nodes := r.nodes.insert k n }

/-- Putting in the record that is there changes nothing. -/
theorem store_nodes_eq_iff {r : Registry} {k : Str} {n : NodeRecord} :
    (r.store k n).nodes = r.nodes ↔ r.nodes.lookup k = some n := by
  change r.nodes.insert k n = r.nodes ↔ _
  constructor
  · intro h
    rw [← h, Finmap.lookup_insert]
  · intro h
    apply Finmap.ext_lookup
    intro j
    by_cases hj : j = k
    · rw [hj, Finmap.lookup_insert, h]
    · rw [Finmap.lookup_insert_of_ne _ hj]

/-- What is made of a result does not make an error of it. -/
theorem exists_map_eq_error {α β : Type} {x : Except Str α} {f : α → β} :
    (∃ err, x.map f = .error err) ↔ ∃ err, x = .error err := by
  cases x with
  | error err => exact iff_of_true ⟨err, rfl⟩ ⟨err, rfl⟩
  | ok a => exact iff_of_false (by rintro ⟨_, h⟩; cases h) (by rintro ⟨_, h⟩; cases h)

/-- What comes of a call with this result: an error that leaves the registry alone, or the record is
put in and the call fails exactly if the write does. -/
def CallResult (r : Registry) (storage : Storage) (k : Str) (record : Option NodeRecord)
    (failed : Prop) (r' : Registry) : Prop :=
  (record = none ∧ r' = r) ∨ ∃ n, record = some n ∧ r' = r.store k n ∧
    (failed ↔ ∃ err, ((r.store k n).persist storage).1 = .error err)

/-- `register`: the whitelist, the look-up and the allocator stand before the change. -/
theorem callResult_register (r : Registry) (storage : Storage) (k endpoint : Str)
    (hostname observed : Option Str) :
    r.CallResult storage k (r.storedByRegister k endpoint hostname observed)
      (∃ err, (r.register storage k endpoint hostname observed).1 = .error err)
      (r.register storage k endpoint hostname observed).2.1 := by
  unfold storedByRegister register
  by_cases hp : r.Permits k
  · rw [if_neg (not_not_intro hp), if_neg (not_not_intro hp)]
    cases r.nodes.lookup k with
    | some n => exact Or.inr ⟨_, rfl, rfl, exists_map_eq_error⟩
    | none =>
      dsimp only
      cases r.allocator.nextFree (· ∈ r.usedIps) with
      | none => exact Or.inl ⟨rfl, rfl⟩
      | some ip => exact Or.inr ⟨_, rfl, rfl, exists_map_eq_error⟩
  · -- the key is not on the whitelist
    rw [if_pos hp, if_pos hp]
    exact Or.inl ⟨rfl, rfl⟩

/-- `poll`: only the look-up does. -/
theorem callResult_poll (r : Registry) (storage : Storage) (k endpoint : Str)
    (observed : Option Str) :
    r.CallResult storage k (r.storedByPoll k endpoint observed)
      (∃ err, (r.poll storage k endpoint observed).1 = .error err)
      (r.poll storage k endpoint observed).2.1 := by
  unfold storedByPoll poll
  cases r.nodes.lookup k with
  | none => exact Or.inl ⟨rfl, rfl⟩
  | some n => exact Or.inr ⟨_, rfl, rfl, Iff.rfl⟩

/-- **What comes of a call**, by cases on which it is. -/
theorem callResult (r : Registry) (storage : Storage) (c : RegistryCall) :
    r.CallResult storage c.publicKey (r.stored c) (r.answer storage c).Failed
      (r.call storage c) := by
  cases c with
  | register k endpoint hostname observed =>
    exact r.callResult_register storage k endpoint hostname observed
  | poll k endpoint observed => exact r.callResult_poll storage k endpoint observed

/-- Writing fails exactly if there is a state file and it is not written. -/
theorem persist_fails_iff {r : Registry} {storage : Storage} :
    (∃ err, (r.persist storage).1 = .error err) ↔
      ¬ ∀ path, r.path = some path → storage path r.nodes = .ok () := by
  unfold persist
  cases r.path with
  | none => exact iff_of_false (by rintro ⟨_, h⟩; cases h) (not_not_intro fun _ h => by cases h)
  | some path =>
    dsimp only
    cases h : storage path r.nodes with
    | error err =>
      refine iff_of_true ⟨err, rfl⟩ fun h_ok => ?_
      cases h.symm.trans (h_ok path rfl)
    | ok u =>
      refine iff_of_false (by rintro ⟨_, h⟩; cases h) (not_not_intro ?_)
      intro path' h_path
      obtain rfl := Option.some.inj h_path
      exact h

end Registry

/-- **Exactly when a call is atomic.** A call of `register` or `poll` that returns an error leaves
the map of nodes as it was, if and only if it stores no record, or the record it stores can be
written to the state file, if there is one, or is in the map already. -/
theorem registry_atomic_iff (r : Registry) (storage : Storage) (c : RegistryCall) :
    ((r.answer storage c).Failed → (r.call storage c).nodes = r.nodes) ↔
      ∀ n, r.stored c = some n → (∀ path, r.path = some path →
        storage path (r.nodes.insert c.publicKey n) = .ok ()) ∨
          r.nodes.lookup c.publicKey = some n := by
  rcases r.callResult storage c with ⟨h_none, h_call⟩ | ⟨n, h_some, h_call, h_failed⟩
  · refine iff_of_true (fun _ => congrArg Registry.nodes h_call) fun n hn => ?_
    cases h_none.symm.trans hn
  · calc ((r.answer storage c).Failed → (r.call storage c).nodes = r.nodes)
        ↔ (¬ (∀ path, r.path = some path →
              storage path (r.nodes.insert c.publicKey n) = .ok ()) →
            r.nodes.lookup c.publicKey = some n) := by
          rw [h_failed, h_call, Registry.store_nodes_eq_iff, Registry.persist_fails_iff]
          rfl
      _ ↔ _ := by
          rw [h_some, ← or_iff_not_imp_left]
          exact ⟨fun h n' hn' => Option.some.inj hn' ▸ h, fun h => h n rfl⟩

/-- An empty registry over `10.0.99.0/30`, with a state file. -/
def filedRegistry : Registry := { smallRegistry with path := some "nodes.json".toList }

/-- No file can be written. -/
def fullDisk : Storage := fun _ _ => .error "No space left on device".toList

/-- A new node is told that it was not registered, and is. -/
theorem registered_despite_error :
    (filedRegistry.answer fullDisk (.register ['a'] ['e'] none none)).Failed ∧
      (filedRegistry.call fullDisk (.register ['a'] ['e'] none none)).nodes ≠
        filedRegistry.nodes := by
  have h_error : (filedRegistry.register fullDisk ['a'] ['e'] none none).1 =
      .error "No space left on device".toList := by decide +kernel
  have h_stored : ((filedRegistry.call fullDisk (.register ['a'] ['e'] none none)).nodes.lookup
      ['a']).isSome := by decide +kernel
  refine ⟨⟨_, h_error⟩, fun h => ?_⟩
  rw [h] at h_stored
  exact absurd h_stored (by decide)

end AraxMesh
