import AraxMesh.PeerManager
import AraxMesh.Registry
import Mathlib.Data.Char
import Mathlib.Data.List.Lex

/-!
# The coordinator and its state file

`coordinatord.rs` over any number of lifetimes: the process is started with some arguments, answers
calls, and writes every change of its registry to the state file, which the next lifetime may load.
The disk belongs to the state and outlives the process.

That a change is written is not part of the step relation. `register` and `poll` return the file
they hand to `std::fs::write` (`Registry.file`), and the step puts that on the disk and nothing else
(`Wrote`). `Registry.called` goes through the two once: a call that changes the nodes has come to
`persist` with the nodes it leaves, and `Called.flushed` is what the histories rest on.

`enforced_iff` makes of the whitelist a condition on the nodes, which a history keeps as long as
lifetimes only load nodes that are on it (`whitelist_enforced_iff`).

What a write that fails leaves in the file is left open, and so is the order in which a hash map is
iterated: `peersFor` is a multiset, and serializing may produce any text that `Serde.Renders` the
nodes.
-/

namespace AraxMesh

open LTS Text

/-! ### What the registry hands out -/

/-- A node as the coordinator describes it to the others. -/
def NodeRecord.descriptor (n : NodeRecord) : PeerDescriptor where
  publicKey := n.publicKey
  allowedIp := n.allowedIp
  endpoint := n.endpoint

namespace Registry

/-- The records, in no particular order. -/
def values (r : Registry) : Multiset NodeRecord := r.nodes.entries.map Sigma.snd

/-- `Registry::peers_for`: every other node. -/
def peersFor (r : Registry) (publicKey : Str) : Multiset PeerDescriptor :=
  (r.values.filter fun n => n.publicKey ≠ publicKey).map NodeRecord.descriptor

/-- `Registry::network_view`: all records, sorted by the text of the address. -/
def NetworkView (r : Registry) (view : List NodeRecord) : Prop :=
  (view : Multiset NodeRecord) = r.values ∧ view.Pairwise fun n n' => n.allowedIp ≤ n'.allowedIp

/-- The records are what the table has under its keys. -/
theorem mem_values {r : Registry} {n : NodeRecord} :
    n ∈ r.values ↔ ∃ k, r.nodes.lookup k = some n := by
  rw [values, Multiset.mem_map]
  constructor
  · rintro ⟨⟨k, n⟩, h_mem, rfl⟩
    exact ⟨k, Finmap.mem_lookup_iff.mpr h_mem⟩
  · rintro ⟨k, hk⟩
    exact ⟨⟨k, n⟩, Finmap.mem_lookup_iff.mp hk, rfl⟩

/-- Whom a node is told of: those that are stored with another public key than it gives. -/
theorem mem_peersFor {r : Registry} {k : Str} {d : PeerDescriptor} :
    d ∈ r.peersFor k ↔ ∃ j n, r.nodes.lookup j = some n ∧ n.publicKey ≠ k ∧ n.descriptor = d := by
  simp only [peersFor, Multiset.mem_map, Multiset.mem_filter, mem_values]
  constructor
  · rintro ⟨n, ⟨⟨j, hj⟩, hne⟩, rfl⟩
    exact ⟨j, n, hj, hne, rfl⟩
  · rintro ⟨j, n, hj, hne, rfl⟩
    exact ⟨n, ⟨⟨j, hj⟩, hne⟩, rfl⟩

end Registry

/-! ### Calls -/

/-- What a call returns. -/
inductive RegistryAnswer
  | register (result : Except Str (Str × Option Str))
  | poll (result : Except Str Unit)

namespace RegistryCall

def publicKey : RegistryCall → Str
  | .register k _ _ _ => k
  | .poll k _ _ => k

def endpoint : RegistryCall → Str
  | .register _ endpoint _ _ => endpoint
  | .poll _ endpoint _ => endpoint

end RegistryCall

namespace Registry

/-- What a call returns, if the storage does this with the file it writes. -/
def answer (r : Registry) (storage : Storage) : RegistryCall → RegistryAnswer
  | .register k endpoint hostname observed =>
    .register (r.register storage k endpoint hostname observed).1
  | .poll k endpoint observed => .poll (r.poll storage k endpoint observed).1

/-- The file a call writes, if it writes one. -/
def file (r : Registry) (storage : Storage) : RegistryCall → Option FileWrite
  | .register k endpoint hostname observed => (r.register storage k endpoint hostname observed).2.2
  | .poll k endpoint observed => (r.poll storage k endpoint observed).2.2

/-- The call is a registration that puts a new node in. -/
def Adds (r : Registry) : RegistryCall → Prop
  | .register k _ _ _ =>
    r.Permits k ∧ k ∉ r.nodes ∧ (r.allocator.nextFree (· ∈ r.usedIps)).isSome
  | .poll _ _ _ => False

/-- A node that is known is not put in again. -/
theorem Adds.new {r : Registry} {c : RegistryCall} (h : r.Adds c) : c.publicKey ∉ r.nodes := by
  cases c with
  | register => exact h.2.1
  | poll => exact h.elim

/-- The state file with the nodes as they are, if there is a state file. -/
def image (r : Registry) : Option FileWrite := r.path.map fun path => ⟨path, r.nodes⟩

/-- `persist` writes the nodes as they are when it is called. -/
theorem persist_file (r : Registry) (storage : Storage) : (r.persist storage).2 = r.image := by
  unfold persist image
  cases r.path <;> rfl

/-- What a call can do to the registry and to the state file, whatever comes of the write: nothing
at all, or the nodes are changed and written as they then are. -/
inductive Called (r : Registry) (c : RegistryCall) : Registry → Option FileWrite → Prop
  /-- The key is not permitted, the range is full, or the node that polls is not known. -/
  | refused (h : ¬ r.Adds c) : Called r c r none
  /-- A node that is known has its record renewed, and keeps its key and its address. -/
  | changed (n n' : NodeRecord) (hk : r.nodes.lookup c.publicKey = some n)
      (h_key : n'.publicKey = n.publicKey) (h_ip : n'.allowedIp = n.allowedIp)
      (h_endpoint : n'.endpoint = some c.endpoint) :
      Called r c { r with nodes := r.nodes.insert c.publicKey n' }
        (image { r with nodes := r.nodes.insert c.publicKey n' })
  /-- A new node gets the next address. -/
  | added (h : r.Adds c) (hp : r.Permits c.publicKey) (ip : Ipv4Addr)
      (h_ip : r.allocator.nextFree (· ∈ r.usedIps) = some ip) (n : NodeRecord)
      (h_key : n.publicKey = c.publicKey) (h_display : n.allowedIp = ip.display)
      (h_endpoint : n.endpoint = some c.endpoint) :
      Called r c { r with nodes := r.nodes.insert c.publicKey n }
        (image { r with nodes := r.nodes.insert c.publicKey n })

/-- **What a call can do.** Both functions are gone through here, and nowhere else. -/
theorem called (r : Registry) (storage : Storage) (c : RegistryCall) :
    r.Called c (r.call storage c) (r.file storage c) := by
  cases c with
  | register k endpoint hostname observed =>
    simp only [call, file]
    unfold register
    by_cases hp : r.Permits k
    · rw [if_neg (not_not_intro hp)]
      cases hk : r.nodes.lookup k with
      | some n =>
        dsimp only
        rw [persist_file]
        exact .changed n _ hk rfl rfl rfl
      | none =>
        have hk : k ∉ r.nodes := Finmap.lookup_eq_none.mp hk
        dsimp only
        cases h_ip : r.allocator.nextFree (· ∈ r.usedIps) with
        | none =>
          -- the range is full
          refine .refused ?_
          rintro ⟨-, -, h⟩
          rw [h_ip] at h
          cases h
        | some ip =>
          have h_adds : r.Adds (.register k endpoint hostname observed) :=
            ⟨hp, hk, by rw [h_ip]; rfl⟩
          dsimp only
          rw [persist_file]
          exact .added h_adds hp ip h_ip _ rfl rfl rfl
    · -- the key is not permitted
      rw [if_pos hp]
      exact .refused fun h => hp h.1
  | poll k endpoint observed =>
    simp only [call, file]
    unfold poll
    cases hk : r.nodes.lookup k with
    | none => exact .refused fun h => h
    | some n =>
      dsimp only
      rw [persist_file]
      exact .changed n _ hk rfl rfl rfl

/-- The call put this record in, under this key. -/
structure Added (r : Registry) (c : RegistryCall) (j : Str) (m : NodeRecord) : Prop where
  adds : r.Adds c
  permits : r.Permits c.publicKey
  stored : j = c.publicKey
  key : m.publicKey = c.publicKey
  address : ∃ ip, r.allocator.nextFree (· ∈ r.usedIps) = some ip ∧ m.allowedIp = ip.display
  endpoint : m.endpoint = some c.endpoint

variable {r r' : Registry} {c : RegistryCall} {file : Option FileWrite}

/-- A record after a call was there before with the same key and address, or the call put it in. -/
theorem Called.record (h_call : r.Called c r' file) {j : Str} {m : NodeRecord}
    (hm : r'.nodes.lookup j = some m) :
    (∃ m', r.nodes.lookup j = some m' ∧ m.publicKey = m'.publicKey ∧ m.allowedIp = m'.allowedIp ∧
      (m.endpoint = m'.endpoint ∨ m.endpoint = some c.endpoint)) ∨ r.Added c j m := by
  cases h_call with
  | refused => exact Or.inl ⟨m, hm, rfl, rfl, Or.inl rfl⟩
  | changed n n' hk h_key h_ip h_endpoint =>
    refine Or.inl ?_
    rcases lookup_insert_cases hm with ⟨rfl, rfl⟩ | ⟨-, hm⟩
    · -- the record the call was about
      exact ⟨n, hk, h_key, h_ip, Or.inr h_endpoint⟩
    · exact ⟨m, hm, rfl, rfl, Or.inl rfl⟩
  | added h_adds hp ip h_ip n h_key h_display h_endpoint =>
    rcases lookup_insert_cases hm with ⟨rfl, rfl⟩ | ⟨-, hm⟩
    · exact Or.inr ⟨h_adds, hp, rfl, h_key, ⟨ip, h_ip, h_display⟩, h_endpoint⟩
    · exact Or.inl ⟨m, hm, rfl, rfl, Or.inl rfl⟩

/-- **No change is kept from the file.** A call that writes nothing while there is a state file has
changed nothing, and one that writes puts in the nodes it leaves. -/
theorem Called.flushed (h : r.Called c r' file) : r' = r ∧ file = none ∨ file = r'.image := by
  cases h with
  | refused => exact Or.inl ⟨rfl, rfl⟩
  | changed => exact Or.inr rfl
  | added => exact Or.inr rfl

/-- A call changes the nodes only. -/
theorem Called.eq (h : r.Called c r' file) : r' = { r with nodes := r'.nodes } := by
  cases h <;> rfl

end Registry

/-! ### The process and the disk -/

/-- Writing nodes as text and reading them back. -/
structure Serde where
  Renders : Nodes → Str → Prop
  fromStr : Str → Except Str Nodes

/-- What was serialized is read back. -/
def Serde.RoundTrip (serde : Serde) : Prop :=
  ∀ nodes text, serde.Renders nodes text → serde.fromStr text = .ok nodes

/-- The arguments that matter to the registry. -/
structure Args where
  cidr : Str
  stateFile : Option Str
  whitelist : Option Str
deriving DecidableEq

/-- The whitelist is separated by commas. -/
def Args.keys (args : Args) : Option (List Str) :=
  args.whitelist.map fun keys => (keys.splitOn ',').map trim

/-- The files, by path. -/
abbrev Disk := Str → Option Str

/-- The registry `main` sets up: the state file is loaded before the whitelist is put in force. -/
def Registry.start (serde : Serde) (args : Args) (disk : Disk) : Except Str Registry := do
  let registry ← match args.stateFile with
    | some path => Registry.loadOrNew args.cidr path ((disk path).map serde.fromStr)
    | none => Registry.new args.cidr
  match args.keys with
  | some keys => return registry.setWhitelist keys
  | none => return registry

/-- What a call that writes this file does to the disk. -/
def Wrote (serde : Serde) (file : Option FileWrite) (written : Except Str Unit)
    (disk disk' : Disk) : Prop :=
  match file with
  | none => disk' = disk
  | some file => (∀ p, p ≠ file.path → disk' p = disk p) ∧
      (written = .ok () → ∃ text, disk' file.path = some text ∧ serde.Renders file.nodes text)

/-- The running process, if there is one, and the disk. -/
structure Coordinatord where
  registry : Option Registry
  disk : Disk

inductive CoordinatordLabel
  /-- The process is started, or stopped and started again. -/
  | start (args : Args)
  /-- A call, what came of the write it may have made, and what it returned. -/
  | call (c : RegistryCall) (written : Except Str Unit) (answer : RegistryAnswer)
  | peersFor (publicKey : Str) (descriptors : List PeerDescriptor)
  | networkView (view : List NodeRecord)

namespace Coordinatord

def Step (serde : Serde) (s : Coordinatord) : CoordinatordLabel → Coordinatord → Prop
  | .start args, s' => ∃ r, Registry.start serde args s.disk = .ok r ∧ s' = ⟨some r, s.disk⟩
  | .call c written answer, s' => ∃ r disk, s.registry = some r ∧
      r.answer (fun _ _ => written) c = answer ∧
      Wrote serde (r.file (fun _ _ => written) c) written s.disk disk ∧
      s' = ⟨some (r.call (fun _ _ => written) c), disk⟩
  | .peersFor k descriptors, s' =>
      ∃ r, s.registry = some r ∧ (descriptors : Multiset PeerDescriptor) = r.peersFor k ∧ s' = s
  | .networkView view, s' => ∃ r, s.registry = some r ∧ r.NetworkView view ∧ s' = s

end Coordinatord

/-- All histories of the coordinator, from any disk. -/
def coordinatord (serde : Serde) : System Coordinatord CoordinatordLabel where
  init s := s.registry = none
  step s l s' := s.Step serde l s'

/-! ### Starting -/

/-- The nodes a lifetime begins with. -/
def Loads (serde : Serde) (args : Args) (disk : Disk) (nodes : Nodes) : Prop :=
  match args.stateFile.bind disk with
  | none => nodes = ∅
  | some text => serde.fromStr text = .ok nodes

/-- One disk gives one set of nodes. -/
theorem Loads.unique {serde : Serde} {args : Args} {disk : Disk} {nodes nodes' : Nodes}
    (h : Loads serde args disk nodes) (h' : Loads serde args disk nodes') : nodes = nodes' := by
  unfold Loads at h h'
  cases h_file : args.stateFile.bind disk with
  | none =>
    rw [h_file] at h h'
    exact h.trans h'.symm
  | some text =>
    rw [h_file] at h h'
    exact Except.ok.inj (h.symm.trans h')

namespace Registry

/-- A new registry has no nodes, -/
theorem new_eq (cidr : Str) :
    Registry.new cidr = (IpAllocator.new cidr).map fun alloc => ⟨alloc, ∅, none, none⟩ := by
  unfold Registry.new
  cases IpAllocator.new cidr <;> rfl

/-- and a loaded one those of the file, if there is one that can be read. -/
theorem loadOrNew_eq (cidr path : Str) (file : Option (Except Str Nodes)) :
    Registry.loadOrNew cidr path file = (do
      let alloc ← IpAllocator.new cidr
      let nodes ← file.getD (.ok ∅)
      return ⟨alloc, nodes, some path, none⟩) := by
  unfold Registry.loadOrNew
  rw [new_eq]
  cases IpAllocator.new cidr with
  | error err => rfl
  | ok alloc =>
    cases file with
    | none => rfl
    | some loaded => cases loaded <;> rfl

/-- What a lifetime begins with. -/
theorem start_eq_ok {serde : Serde} {args : Args} {disk : Disk} {r : Registry} :
    Registry.start serde args disk = .ok r ↔
      IpAllocator.new args.cidr = .ok r.allocator ∧ Loads serde args disk r.nodes ∧
        r.path = args.stateFile ∧ r.whitelist = args.keys := by
  -- all that is read, in one place
  have h_start : Registry.start serde args disk = (do
      let alloc ← IpAllocator.new args.cidr
      let nodes ← ((args.stateFile.bind disk).map serde.fromStr).getD (.ok ∅)
      return ⟨alloc, nodes, args.stateFile, args.keys⟩) := by
    unfold Registry.start
    cases args.stateFile with
    | none =>
      dsimp only
      rw [new_eq]
      cases IpAllocator.new args.cidr <;> cases args.keys <;> rfl
    | some path =>
      dsimp only
      rw [loadOrNew_eq]
      cases IpAllocator.new args.cidr with
      | error err => rfl
      | ok alloc =>
        rw [Option.bind_some]
        cases ((disk path).map serde.fromStr).getD (.ok ∅) <;> cases args.keys <;> rfl
  obtain ⟨allocator, nodes, path, whitelist⟩ := r
  rw [h_start, Loads]
  cases IpAllocator.new args.cidr with
  | error err => simp [bind, Except.bind]
  | ok alloc =>
    cases args.stateFile.bind disk with
    | none => simp [bind, Except.bind, pure, Except.pure, eq_comm]
    | some text =>
      cases h_text : serde.fromStr text with
      | error err => simp [bind, Except.bind, h_text]
      | ok loaded => simp [bind, Except.bind, pure, Except.pure, h_text, eq_comm]

end Registry

/-! ### The whitelist over all lifetimes -/

/-- Every node is on the list. -/
def Nodes.Within (nodes : Nodes) (whitelist : List Str) : Prop :=
  ∀ k n, nodes.lookup k = some n → k ∈ whitelist ∧ n.publicKey ∈ whitelist

namespace Registry

/-- The whitelist in force keeps all other keys from registering, from polling, and from being
handed out as peers. -/
def Enforced (r : Registry) : Prop :=
  ∀ whitelist, r.whitelist = some whitelist →
    (∀ storage k endpoint hostname observed v,
      (r.register storage k endpoint hostname observed).1 = .ok v → k ∈ whitelist) ∧
    (∀ storage k endpoint observed,
      (r.poll storage k endpoint observed).1 = .ok () → k ∈ whitelist) ∧
    ∀ k d, d ∈ r.peersFor k → d.publicKey ∈ whitelist

/-- Only permitted keys register. -/
theorem permits_of_register {r : Registry} {storage : Storage} {k endpoint : Str}
    {hostname observed : Option Str} {v : Str × Option Str}
    (h : (r.register storage k endpoint hostname observed).1 = .ok v) : r.Permits k := by
  by_contra hp
  rw [register, if_pos hp] at h
  cases h

/-- Only registered keys poll, whatever the whitelist: `poll` does not look at it. -/
theorem mem_of_poll {r : Registry} {storage : Storage} {k endpoint : Str} {observed : Option Str}
    (h : (r.poll storage k endpoint observed).1 = .ok ()) : k ∈ r.nodes := by
  unfold poll at h
  cases hk : r.nodes.lookup k with
  | none =>
    rw [hk] at h
    cases h
  | some n => exact Finmap.mem_of_lookup_eq_some hk

/-- And a registered key can always poll. -/
theorem poll_of_mem {r : Registry} {k : Str} (hk : k ∈ r.nodes) :
    (r.poll (fun _ _ => .ok ()) k [] none).1 = .ok () := by
  obtain ⟨n, hn⟩ := Finmap.mem_iff.mp hk
  unfold poll
  rw [hn]
  exact persist_ok (fun _ _ => rfl) _

/-- A whitelist is enforced exactly while it has all the nodes. -/
theorem enforced_iff {r : Registry} :
    r.Enforced ↔ ∀ whitelist, r.whitelist = some whitelist → r.nodes.Within whitelist := by
  constructor
  · intro h whitelist hw k n hn
    obtain ⟨-, h_poll, h_peers⟩ := h whitelist hw
    refine ⟨h_poll _ k [] none (poll_of_mem (Finmap.mem_of_lookup_eq_some hn)), ?_⟩
    -- some other node is told of this one
    have h_ne : n.publicKey ≠ 'x' :: n.publicKey := fun h => by simpa using congrArg List.length h
    exact h_peers ('x' :: n.publicKey) _ (mem_peersFor.mpr ⟨k, n, hn, h_ne, rfl⟩)
  · intro h whitelist hw
    have h_nodes := h whitelist hw
    refine ⟨?_, ?_, ?_⟩
    · intro storage k endpoint hostname observed v h_ok
      exact permits_of_register h_ok whitelist hw
    · intro storage k endpoint observed h_ok
      obtain ⟨n, hn⟩ := Finmap.mem_iff.mp (mem_of_poll h_ok)
      exact (h_nodes k n hn).1
    · intro k d hd
      obtain ⟨j, n, hn, -, rfl⟩ := mem_peersFor.mp hd
      exact (h_nodes j n hn).2

/-- No call lets anybody in who is not on the list. -/
theorem Called.enforced {r r' : Registry} {c : RegistryCall} {file : Option FileWrite}
    (h_call : r.Called c r' file) (h : r.Enforced) : r'.Enforced := by
  rw [enforced_iff] at h ⊢
  intro whitelist hw j m hm
  -- the whitelist in force is the one from before the call
  have hw' : r.whitelist = some whitelist := by
    rw [h_call.eq] at hw
    exact hw
  rcases h_call.record hm with ⟨m', hm', h_key, -⟩ | h_added
  · rw [h_key]
    exact h whitelist hw' j m' hm'
  · rw [h_added.stored, h_added.key]
    exact ⟨h_added.permits whitelist hw', h_added.permits whitelist hw'⟩

end Registry

namespace Coordinatord

def Enforced (s : Coordinatord) : Prop := ∀ r, s.registry = some r → r.Enforced

/-- Only nodes on the whitelist are loaded under it. -/
def LoadsPermitted (serde : Serde) (s : Coordinatord) : CoordinatordLabel → Prop
  | .start args => ∀ keys nodes, args.keys = some keys → Loads serde args s.disk nodes →
      nodes.Within keys
  | _ => True

/-- Starting is the only step that can break a whitelist. -/
theorem Step.enforced_iff {serde : Serde} {s s' : Coordinatord} {l : CoordinatordLabel}
    (h_step : s.Step serde l s') (h : s.Enforced) : s.LoadsPermitted serde l ↔ s'.Enforced := by
  cases l with
  | start args =>
    obtain ⟨r, h_start, rfl⟩ := h_step
    obtain ⟨-, h_nodes, -, h_keys⟩ := Registry.start_eq_ok.mp h_start
    constructor
    · rintro h_loads _ ⟨⟩
      exact Registry.enforced_iff.mpr fun keys hw => h_loads keys _ (h_keys.symm.trans hw) h_nodes
    · intro h' keys nodes hw h_loads
      rw [h_loads.unique h_nodes]
      exact Registry.enforced_iff.mp (h' r rfl) keys (h_keys.trans hw)
  | call c written answer =>
    obtain ⟨r, disk, hr, -, -, rfl⟩ := h_step
    refine iff_of_true trivial ?_
    rintro _ ⟨⟩
    exact (r.called _ c).enforced (h r hr)
  | peersFor k descriptors =>
    obtain ⟨r, -, -, rfl⟩ := h_step
    exact iff_of_true trivial h
  | networkView view =>
    obtain ⟨r, -, -, rfl⟩ := h_step
    exact iff_of_true trivial h

end Coordinatord

/-- **When the whitelist is enforced.** In every history of the coordinator, the whitelist in force
keeps all other keys from registering, from polling and from being handed out as peers in every
state reached, exactly if every start under a whitelist loads nodes that are on it. -/
theorem whitelist_enforced_iff {serde : Serde} {s₀ s : Coordinatord} {ls : List CoordinatordLabel}
    (h_init : (coordinatord serde).init s₀) :
    Exec ((coordinatord serde).restrict (Coordinatord.LoadsPermitted serde)) s₀ ls s ↔
      Exec ((coordinatord serde).within Coordinatord.Enforced) s₀ ls s := by
  have h_stopped : s₀.Enforced := by
    intro r hr
    rw [show s₀.registry = none from h_init] at hr
    cases hr
  exact Exec.restrict_iff_within (I := fun _ => True) (fun _ _ _ _ _ => trivial)
    (fun _ _ _ _ h (h_step : Coordinatord.Step ..) => h_step.enforced_iff h) trivial h_stopped

/-! ### A state file from before the whitelist -/

/-- Serializing and parsing, as far as one file goes. -/
def Serde.ofFile (nodes : Nodes) (text : Str) : Serde where
  Renders nodes' text' := nodes' = nodes ∧ text' = text
  fromStr text' := if text' = text then .ok nodes else .error "expected value".toList

theorem Serde.ofFile_roundTrip (nodes : Nodes) (text : Str) :
    (Serde.ofFile nodes text).RoundTrip := by
  rintro _ _ ⟨rfl, rfl⟩
  exact if_pos rfl

theorem loads_ofFile {nodes : Nodes} {text : Str} {args : Args} {disk : Disk}
    (h : args.stateFile.bind disk = some text) :
    Loads (Serde.ofFile nodes text) args disk nodes := by
  rw [Loads, h]
  exact if_pos rfl

/-- The record of a node that registered without a whitelist. -/
def earlyNode : NodeRecord where
  publicKey := "aa".toList
  allowedIp := "10.0.99.1".toList
  endpoint := some "192.0.2.1:50001".toList
  hostname := none
  observedEndpoint := some "192.0.2.1:40000".toList

def earlyNodes : Nodes := Finmap.singleton "aa".toList earlyNode

/-- The state file with that node. -/
def earlyText : Str := "\x7b
  \"aa\": \x7b
    \"public_key\": \"aa\",
    \"allowed_ip\": \"10.0.99.1\",
    \"endpoint\": \"192.0.2.1:50001\",
    \"hostname\": null,
    \"observed_endpoint\": \"192.0.2.1:40000\"
  \x7d
\x7d".toList

def earlyDisk : Disk := fun path => if path = "state.json".toList then some earlyText else none

def earlyArgs : Args where
  cidr := "10.0.99.0/30".toList
  stateFile := some "state.json".toList
  whitelist := none

/-- The same with a whitelist that does not have the node. -/
def lateArgs : Args := { earlyArgs with whitelist := some "bb".toList }

/-- The same with a whitelist that does. -/
def listedArgs : Args := { earlyArgs with whitelist := some "bb, aa".toList }

def earlyRegistry (args : Args) (nodes : Nodes) : Registry where
  allocator := smallRegistry.allocator
  nodes := nodes
  path := args.stateFile
  whitelist := args.keys

theorem earlyRegistry_start (args : Args) (disk : Disk) (nodes : Nodes)
    (h_cidr : args.cidr = earlyArgs.cidr)
    (h_loads : Loads (Serde.ofFile earlyNodes earlyText) args disk nodes) :
    Registry.start (Serde.ofFile earlyNodes earlyText) args disk
      = .ok (earlyRegistry args nodes) := by
  refine Registry.start_eq_ok.mpr ⟨?_, h_loads, rfl, rfl⟩
  rw [h_cidr]
  rfl

theorem earlyDisk_eq : earlyDisk "state.json".toList = some earlyText := if_pos rfl

/-- The node registers. -/
def earlyCall : CoordinatordLabel :=
  .call (.register "aa".toList "192.0.2.1:50001".toList none earlyNode.observedEndpoint) (.ok ())
    (.register (.ok (earlyNode.allowedIp, earlyNode.observedEndpoint)))

theorem early_register : (coordinatord (Serde.ofFile earlyNodes earlyText)).step
    ⟨some (earlyRegistry earlyArgs ∅), fun _ => none⟩ earlyCall
    ⟨some (earlyRegistry earlyArgs earlyNodes), earlyDisk⟩ := by
  refine ⟨_, earlyDisk, rfl, rfl, ?_, rfl⟩
  exact ⟨fun p hp => if_neg hp, fun _ => ⟨earlyText, if_pos rfl, rfl, rfl⟩⟩

/-- The coordinator starts without a whitelist and the node registers. -/
theorem early_exec : Exec (coordinatord (Serde.ofFile earlyNodes earlyText)) ⟨none, fun _ => none⟩
    [.start earlyArgs, earlyCall] ⟨some (earlyRegistry earlyArgs earlyNodes), earlyDisk⟩ :=
  Exec.head ⟨_, earlyRegistry_start earlyArgs _ ∅ rfl rfl, rfl⟩
    (Exec.single early_register)

/-- Started again with a whitelist, the coordinator lets the node poll and hands it out to the
others. -/
theorem whitelist_bypassed : ∃ s r, Exec (coordinatord (Serde.ofFile earlyNodes earlyText))
      ⟨none, fun _ => none⟩ [.start earlyArgs, earlyCall, .start lateArgs] s ∧
    s.registry = some r ∧ r.whitelist = some ["bb".toList] ∧
    (r.poll (fun _ _ => .ok ()) "aa".toList "192.0.2.1:50001".toList none).1 = .ok () ∧
    earlyNode.descriptor ∈ r.peersFor "bb".toList := by
  have h_start := earlyRegistry_start lateArgs earlyDisk earlyNodes rfl
    (loads_ofFile earlyDisk_eq)
  refine ⟨_, earlyRegistry lateArgs earlyNodes, early_exec.append (Exec.single ⟨_, h_start, rfl⟩),
    rfl, by decide +kernel, rfl, by decide +kernel⟩

/-- Started again with a whitelist that has the node, the coordinator keeps to it. -/
theorem whitelist_enforced_iff_listed :
    Exec ((coordinatord (Serde.ofFile earlyNodes earlyText)).within Coordinatord.Enforced)
      ⟨none, fun _ => none⟩ [.start earlyArgs, earlyCall, .start listedArgs]
      ⟨some (earlyRegistry listedArgs earlyNodes), earlyDisk⟩ := by
  have h_init : (coordinatord (Serde.ofFile earlyNodes earlyText)).init ⟨none, fun _ => none⟩ := rfl
  have h_file : Loads (Serde.ofFile earlyNodes earlyText) listedArgs earlyDisk earlyNodes :=
    loads_ofFile earlyDisk_eq
  refine (whitelist_enforced_iff h_init).mp (Exec.head ⟨⟨_, ?_, rfl⟩, ?_⟩
    (Exec.head ⟨early_register, trivial⟩ (Exec.single ⟨⟨_, ?_, rfl⟩, ?_⟩)))
  · exact earlyRegistry_start earlyArgs _ ∅ rfl rfl
  · -- the first start has no whitelist
    rintro keys nodes ⟨⟩
  · exact earlyRegistry_start listedArgs earlyDisk earlyNodes rfl h_file
  · -- the file that the second start loads has the one node, which is on the list
    intro keys nodes h_keys h_loads k n hn
    obtain rfl : nodes = earlyNodes := h_loads.unique h_file
    have h_listed : "aa".toList ∈ keys := by
      rw [← Option.some.inj h_keys]
      decide +kernel
    obtain rfl : k = "aa".toList :=
      (Finmap.mem_singleton ..).mp (Finmap.mem_of_lookup_eq_some hn)
    obtain rfl := Option.some.inj (Finmap.lookup_singleton_eq.symm.trans hn)
    exact ⟨h_listed, h_listed⟩

end AraxMesh
