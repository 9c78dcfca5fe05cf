import AraxMesh.Coordinatord

/-!
# Restarting the coordinator

A coordinator whose state file holds its registry can be stopped and started again with the same
arguments without anybody noticing: `Coordinatord.Saved` is the invariant, under which starting is a
step that goes nowhere.

A call keeps it since what it writes are the nodes it leaves (`Registry.Called.flushed`), and the
rest of a registry comes from the arguments. Restarts are then left out of a run, or put into it,
one at a time from the end.
-/

namespace AraxMesh

open LTS Text

namespace Coordinatord

/-- Starting again would give the registry that is running. -/
def Saved (serde : Serde) (args : Args) (s : Coordinatord) : Prop :=
  ∃ r, s.registry = some r ∧ Registry.start serde args s.disk = .ok r

/-- A restart with the same arguments. -/
def IsRestart (args : Args) (l : CoordinatordLabel) : Prop := l = .start args

instance (args : Args) (l : CoordinatordLabel) : Decidable (IsRestart args l) :=
  match l with
  | .start args' =>
    decidable_of_iff (args' = args) (by rw [IsRestart, CoordinatordLabel.start.injEq])
  | .call .. => isFalse nofun
  | .peersFor .. => isFalse nofun
  | .networkView .. => isFalse nofun

/-- What a run with successful writes may do, restarts included. -/
inductive Undisturbed (args : Args) : CoordinatordLabel → Prop
  | restart : Undisturbed args (.start args)
  | call (c : RegistryCall) (answer : RegistryAnswer) : Undisturbed args (.call c (.ok ()) answer)
  | peersFor (k : Str) (descriptors : List PeerDescriptor) :
      Undisturbed args (.peersFor k descriptors)
  | networkView (view : List NodeRecord) : Undisturbed args (.networkView view)

variable {serde : Serde} {args : Args} {s s' : Coordinatord} {l : CoordinatordLabel}

/-- **A restart goes nowhere.** -/
theorem Saved.restart (h : s.Saved serde args) : s.Step serde (.start args) s' ↔ s' = s := by
  obtain ⟨r, hr, h_start⟩ := h
  have hs : s = ⟨some r, s.disk⟩ := by rw [← hr]
  constructor
  · rintro ⟨r', h_start', rfl⟩
    obtain rfl : r' = r := Except.ok.inj (h_start'.symm.trans h_start)
    exact hs.symm
  · rintro rfl
    exact ⟨r, h_start, hs⟩

/-- Every change is in the file before the call returns. -/
theorem Saved.step (h_serde : serde.RoundTrip) {path : Str} (h_file : args.stateFile = some path)
    (h : s.Saved serde args) (hl : Undisturbed args l) (h_step : s.Step serde l s') :
    s'.Saved serde args := by
  cases hl with
  -- a restart loads what is there already
  | restart => exact (h.restart.mp h_step).symm ▸ h
  | peersFor =>
    obtain ⟨-, -, -, rfl⟩ := h_step
    exact h
  | networkView =>
    obtain ⟨-, -, -, rfl⟩ := h_step
    exact h
  -- a call that was answered was written before, or had nothing to write
  | call c answer =>
    obtain ⟨r, hr, h_start⟩ := h
    obtain ⟨r₀, disk, hr', -, h_wrote, rfl⟩ := h_step
    obtain rfl : r = r₀ := Option.some.inj (hr.symm.trans hr')
    refine ⟨_, rfl, ?_⟩
    obtain ⟨h_alloc, h_loads, h_path, h_keys⟩ := Registry.start_eq_ok.mp h_start
    have h_called := r.called (fun _ _ => .ok ()) c
    generalize r.call (fun _ _ => .ok ()) c = r', r.file (fun _ _ => .ok ()) c = file
      at h_called h_wrote ⊢
    rcases h_called.flushed with ⟨rfl, rfl⟩ | rfl
    · -- nothing was written, and nothing had to be
      obtain rfl : disk = s.disk := h_wrote
      exact h_start
    · -- the file has the nodes the call leaves, and nothing else of the registry has changed
      have h_eq := h_called.eq
      have h_image : r'.image = some ⟨path, r'.nodes⟩ := by
        rw [Registry.image, h_eq, h_path, h_file, Option.map_some]
      rw [h_image] at h_wrote
      obtain ⟨-, h_text⟩ := h_wrote
      obtain ⟨text, h_disk, h_renders⟩ := h_text rfl
      have h_loads' : Loads serde args disk r'.nodes := by
        rw [Loads, h_file, Option.bind_some]
        simp only [h_disk]
        exact h_serde _ _ h_renders
      refine Registry.start_eq_ok.mpr ⟨?_, h_loads', ?_, ?_⟩
      · rw [h_eq]
        exact h_alloc
      · rw [h_eq]
        exact h_path
      · rw [h_eq]
        exact h_keys

/-- Between any two steps of a run with successful writes the file has the registry. -/
theorem Saved.run (h_serde : serde.RoundTrip) {path : Str} (h_file : args.stateFile = some path)
    (h : s.Saved serde args) {ls : List CoordinatordLabel}
    (h_ls : ∀ l ∈ ls, Undisturbed args l) (h_run : Exec (coordinatord serde) s ls s') :
    s'.Saved serde args := by
  induction h_run with
  | refl => exact h
  | @tail ls t l u _ hl ih =>
    have h_t := ih fun m hm => h_ls m (List.mem_append_left _ hm)
    have h_last := h_ls l (List.mem_append_right _ (List.mem_singleton_self l))
    exact h_t.step h_serde h_file h_last hl

end Coordinatord

/-- **Restarts are transparent.** Take a coordinator that started with a state file, and a run in
which it may be restarted with the same arguments at any point and every write succeeds. Without
the restarts the same calls with the same answers, and the same peer lists and network views, are a
run from and to the same states; and restarts can be put into such a run anywhere. -/
theorem restart_transparent {serde : Serde} (h_serde : serde.RoundTrip) {args : Args} {path : Str}
    (h_file : args.stateFile = some path) {s₀ s : Coordinatord} {r : Registry}
    (h_start : Registry.start serde args s₀.disk = .ok r) (h_running : s₀.registry = some r)
    {ls : List CoordinatordLabel} (h_ls : ∀ l ∈ ls, Coordinatord.Undisturbed args l) :
    Exec (coordinatord serde) s₀ ls s ↔
      Exec (coordinatord serde) s₀ (ls.filter fun l => ¬ Coordinatord.IsRestart args l) s := by
  have h_saved : s₀.Saved serde args := ⟨r, h_running, h_start⟩
  -- the runs agree up to the last label
  induction ls using List.reverseRecOn generalizing s with
  | nil => exact Iff.rfl
  | append_singleton ls l ih =>
    have h_pre : ∀ m ∈ ls, Coordinatord.Undisturbed args m :=
      fun m hm => h_ls m (List.mem_append_left _ hm)
    rw [List.filter_append]
    by_cases hl : Coordinatord.IsRestart args l
    · -- a restart is left out, and goes nowhere
      have h_out : [l].filter (fun l => ¬ Coordinatord.IsRestart args l) = [] := by simp [hl]
      rw [h_out, List.append_nil]
      refine Iff.trans ?_ (ih h_pre)
      obtain rfl : l = .start args := hl
      constructor
      · intro h
        obtain ⟨t, ht, h_step⟩ := h.cut_last
        obtain rfl : s = t := (h_saved.run h_serde h_file h_pre ht).restart.mp h_step
        exact ht
      · intro h
        exact h.tail ((h_saved.run h_serde h_file h_pre h).restart.mpr rfl)
    · -- any other label is kept
      have h_kept : [l].filter (fun l => ¬ Coordinatord.IsRestart args l) = [l] := by simp [hl]
      rw [h_kept]
      constructor
      · intro h
        obtain ⟨t, ht, h_step⟩ := h.cut_last
        exact ((ih h_pre).mp ht).tail h_step
      · intro h
        obtain ⟨t, ht, h_step⟩ := h.cut_last
        exact ((ih h_pre).mpr ht).tail h_step

/-- A restart after the first registration. -/
theorem restart_transparent_early : Exec (coordinatord (Serde.ofFile earlyNodes earlyText))
    ⟨some (earlyRegistry earlyArgs ∅), fun _ => none⟩ [earlyCall, .start earlyArgs]
    ⟨some (earlyRegistry earlyArgs earlyNodes), earlyDisk⟩ := by
  have h_start := earlyRegistry_start earlyArgs (fun _ => none) ∅ rfl rfl
  have h_file : earlyArgs.stateFile = some "state.json".toList := rfl
  refine (restart_transparent (Serde.ofFile_roundTrip _ _) h_file h_start rfl ?_).mpr
    (Exec.single early_register)
  intro l hl
  rcases List.mem_pair.mp hl with rfl | rfl
  · exact .call _ _
  · exact .restart

end AraxMesh
