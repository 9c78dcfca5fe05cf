import Mathlib.Data.List.Induction
import Mathlib.Tactic.Common

/-!
# Labelled transition systems and their finite runs

A system is an initial predicate and a labelled step relation. `Exec sys s ls t` is a finite run
from `s` to `t` that reads the labels `ls`; runs grow at the end, so an induction along a run has
the labels read so far as its history.

* `Exec.induct` — the invariant rule: a predicate on histories and states that holds at the start
  and is preserved by every step holds along the run;
* `Exec.append`, `Exec.split` — runs compose and can be cut at any label;
* `System.restrict`, `System.within` — the runs all of whose steps meet a condition, those that stay
  in a set of states, and when they are the same (`Exec.restrict_iff_within`);
* `Simulation` — every step of one system is answered by a run of another;
* `System.ofFun` — the system of a guarded step function, whose runs can be evaluated;
* `Emits` — the runs of a system whose labels are lists of events, with the events in order.
-/

namespace LTS

/-- A labelled transition system. -/
structure System (State Label : Type*) where
  /-- The states a run may start in. -/
  init : State → Prop
  step : State → Label → State → Prop

/-- A finite run, with the labels it reads in order. -/
inductive Exec {State Label : Type*} (sys : System State Label) (s : State) :
    List Label → State → Prop
  | refl : Exec sys s [] s
  | tail {ls : List Label} {t : State} {l : Label} {u : State} :
      Exec sys s ls t → sys.step t l u → Exec sys s (ls ++ [l]) u

variable {State Label : Type*} {sys : System State Label}

/-- A state some run reaches from an initial state. -/
def Reachable (sys : System State Label) (s : State) : Prop :=
  ∃ s₀ ls, sys.init s₀ ∧ Exec sys s₀ ls s

/-- **The invariant rule.** -/
theorem Exec.induct {s₀ s : State} {ls : List Label} (h : Exec sys s₀ ls s)
    (I : List Label → State → Prop) (h_init : I [] s₀)
    (h_step : ∀ pre t l u, Exec sys s₀ pre t → I pre t → sys.step t l u → I (pre ++ [l]) u) :
    I ls s := by
  induction h with
  | refl => exact h_init
  | tail h hl ih => exact h_step _ _ _ _ h ih hl

/-- The invariant rule for a predicate that does not look at the history. -/
theorem Exec.invariant {s₀ s : State} {ls : List Label} (h : Exec sys s₀ ls s)
    (I : State → Prop) (h_init : I s₀) (h_step : ∀ t l u, I t → sys.step t l u → I u) : I s :=
  h.induct (fun _ t => I t) h_init fun _ t l u _ hI hl => h_step t l u hI hl

theorem Reachable.invariant {s : State} (h : Reachable sys s) (I : State → Prop)
    (h_init : ∀ t, sys.init t → I t) (h_step : ∀ t l u, I t → sys.step t l u → I u) : I s := by
  obtain ⟨s₀, ls, h₀, hrun⟩ := h
  exact hrun.invariant I (h_init s₀ h₀) h_step

theorem Exec.single {s t : State} {l : Label} (h : sys.step s l t) : Exec sys s [l] t :=
  Exec.refl.tail h

/-- Runs compose. -/
theorem Exec.append {s t u : State} {ls ms : List Label} (h₁ : Exec sys s ls t)
    (h₂ : Exec sys t ms u) : Exec sys s (ls ++ ms) u := by
  induction h₂ with
  | refl => rwa [List.append_nil]
  | tail _ hl ih =>
    rw [← List.append_assoc]
    exact ih.tail hl

/-- A run can be extended at the front. -/
theorem Exec.head {s t u : State} {l : Label} {ls : List Label} (h : sys.step s l t)
    (hrun : Exec sys t ls u) : Exec sys s (l :: ls) u :=
  (Exec.single h).append hrun

/-- A run that reads nothing stays where it is. -/
theorem Exec.eq_of_nil {s t : State} (h : Exec sys s [] t) : s = t := by
  generalize hls : ([] : List Label) = ls at h
  cases h with
  | refl => rfl
  | tail => simp at hls

/-- The last step of a run. -/
theorem Exec.cut_last {s u : State} {ls : List Label} {l : Label}
    (h : Exec sys s (ls ++ [l]) u) : ∃ t, Exec sys s ls t ∧ sys.step t l u := by
  generalize hms : ls ++ [l] = ms at h
  cases h with
  | refl => simp at hms
  | @tail ls' t l' _ h hl =>
    obtain ⟨rfl, hl'⟩ := List.append_inj' hms rfl
    obtain rfl : l = l' := by simpa using hl'
    exact ⟨t, h, hl⟩

/-- A run can be cut after any of its labels. -/
theorem Exec.split {s u : State} {ls ms : List Label} (h : Exec sys s (ls ++ ms) u) :
    ∃ t, Exec sys s ls t ∧ Exec sys t ms u := by
  induction ms using List.reverseRecOn generalizing u with
  | nil => exact ⟨u, by simpa using h, Exec.refl⟩
  | append_singleton ms l ih =>
    rw [← List.append_assoc] at h
    obtain ⟨v, hv, hl⟩ := h.cut_last
    obtain ⟨t, h₁, h₂⟩ := ih hv
    exact ⟨t, h₁, h₂.tail hl⟩

/-- The first step of a run. -/
theorem Exec.cut_first {s u : State} {ls : List Label} {l : Label}
    (h : Exec sys s (l :: ls) u) : ∃ t, sys.step s l t ∧ Exec sys t ls u := by
  obtain ⟨t, h₁, h₂⟩ := Exec.split (show Exec sys s ([l] ++ ls) u from h)
  obtain ⟨s', h₀, hl⟩ := Exec.cut_last (show Exec sys s ([] ++ [l]) t from h₁)
  rw [← h₀.eq_of_nil] at hl
  exact ⟨t, hl, h₂⟩

theorem Reachable.step {s t : State} {l : Label} (h : Reachable sys s) (hl : sys.step s l t) :
    Reachable sys t := by
  obtain ⟨s₀, ls, h₀, hrun⟩ := h
  exact ⟨s₀, ls ++ [l], h₀, hrun.tail hl⟩

theorem Reachable.exec {s t : State} {ls : List Label} (h : Reachable sys s)
    (hrun : Exec sys s ls t) : Reachable sys t := by
  obtain ⟨s₀, ms, h₀, hms⟩ := h
  exact ⟨s₀, ms ++ ls, h₀, hms.append hrun⟩

/-! ### Restricting the steps -/

/-- The same system with only the steps that meet `C`, a condition on the state before the step
and its label. -/
def System.restrict (sys : System State Label) (C : State → Label → Prop) :
    System State Label where
  init := sys.init
  step s l t := sys.step s l t ∧ C s l

/-- A run of the restricted system is a run of the system. -/
theorem Exec.of_restrict {C : State → Label → Prop} {s t : State} {ls : List Label}
    (h : Exec (sys.restrict C) s ls t) : Exec sys s ls t := by
  induction h with
  | refl => exact Exec.refl
  | tail _ hl ih => exact ih.tail hl.1

/-- A run whose labels meet the condition in every state is a run of the restricted system. -/
theorem Exec.restrict {C : State → Label → Prop} {s t : State} {ls : List Label}
    (h : Exec sys s ls t) (hC : ∀ l ∈ ls, ∀ s, C s l) : Exec (sys.restrict C) s ls t := by
  induction h with
  | refl => exact Exec.refl
  | tail _ hl ih =>
    exact (ih fun l hm => hC l (by simp [hm])).tail ⟨hl, hC _ (by simp) _⟩

/-- The same system with only the steps that end in a state that meets `P`. -/
def System.within (sys : System State Label) (P : State → Prop) : System State Label where
  init := sys.init
  step s l t := sys.step s l t ∧ P t

/-- A run within `P` is a run of the system, and ends in `P` if it starts there. -/
theorem Exec.of_within {P : State → Prop} {s t : State} {ls : List Label}
    (h : Exec (sys.within P) s ls t) (hs : P s) : Exec sys s ls t ∧ P t := by
  induction h with
  | refl => exact ⟨Exec.refl, hs⟩
  | tail _ hl ih => exact ⟨ih.1.tail hl.1, hl.2⟩

/-- **Exact conditions.** If a step from a state in `P` ends in `P` exactly when it meets `C`, the
runs that stay in `P` are those whose steps all meet `C`. The invariant `I` is what may be assumed
of the states of a run. -/
theorem Exec.restrict_iff_within {C : State → Label → Prop} {P I : State → Prop}
    (h_inv : ∀ s l t, I s → sys.step s l t → I t)
    (h_step : ∀ s l t, I s → P s → sys.step s l t → (C s l ↔ P t)) {s t : State}
    {ls : List Label} (hI : I s) (hP : P s) :
    Exec (sys.restrict C) s ls t ↔ Exec (sys.within P) s ls t := by
  have h_reached : ∀ {u ms}, Exec sys s ms u → I u := fun h => h.invariant I hI h_inv
  constructor
  · intro h
    refine h.induct (fun ms u => Exec (sys.within P) s ms u) Exec.refl ?_
    intro pre u l v _ h_pre hl
    obtain ⟨h_run, hu⟩ := h_pre.of_within hP
    exact h_pre.tail ⟨hl.1, (h_step u l v (h_reached h_run) hu hl.1).mp hl.2⟩
  · intro h
    refine h.induct (fun ms u => Exec (sys.restrict C) s ms u) Exec.refl ?_
    intro pre u l v h_pre h_done hl
    obtain ⟨h_run, hu⟩ := h_pre.of_within hP
    exact h_done.tail ⟨hl.1, (h_step u l v (h_reached h_run) hu hl.1).mpr hl.2⟩

/-! ### Systems that compute -/

/-- The system of a guarded step function: `f s l` is `none` where the label is not enabled. -/
def System.ofFun (init : State → Prop) (f : State → Label → Option State) :
    System State Label where
  init := init
  step s l t := f s l = some t

/-- Replaying labels through the step function gives a run. -/
theorem Exec.of_foldlM {init : State → Prop} {f : State → Label → Option State} {s t : State}
    {ls : List Label} (h : ls.foldlM f s = some t) : Exec (System.ofFun init f) s ls t := by
  induction ls generalizing s with
  | nil =>
    obtain rfl : s = t := by simpa using h
    exact Exec.refl
  | cons l ls ih =>
    rw [List.foldlM_cons] at h
    obtain ⟨u, hu, hrest⟩ := Option.bind_eq_some_iff.mp h
    exact Exec.head (show (System.ofFun init f).step s l u from hu) (ih hrest)

/-! ### Systems that emit events -/

/-- A run from `s` to `t` that emits the events `es`. -/
def Emits {E : Type*} (sys : System State (List E)) (s : State) (es : List E) (t : State) : Prop :=
  ∃ ls, Exec sys s ls t ∧ ls.flatten = es

section Emits

variable {E : Type*} {sys : System State (List E)}

theorem Emits.refl (s : State) : Emits sys s [] s := ⟨[], Exec.refl, rfl⟩

theorem Emits.single {s t : State} {es : List E} (h : sys.step s es t) : Emits sys s es t :=
  ⟨[es], Exec.single h, by simp⟩

theorem Emits.trans {s t u : State} {es es' : List E} (h₁ : Emits sys s es t)
    (h₂ : Emits sys t es' u) : Emits sys s (es ++ es') u := by
  obtain ⟨ls, hls, rfl⟩ := h₁
  obtain ⟨ms, hms, rfl⟩ := h₂
  exact ⟨ls ++ ms, hls.append hms, List.flatten_append⟩

/-- Followed by a run that emits nothing. -/
theorem Emits.silent {s t u : State} {es : List E} (h₁ : Emits sys s es t)
    (h₂ : Emits sys t [] u) : Emits sys s es u := by
  simpa using h₁.trans h₂

/-- The invariant rule, with the events before the run as part of the history. -/
theorem Emits.induct {s t : State} {es : List E} (h : Emits sys s es t)
    (I : List E → State → Prop) {past : List E} (h_init : I past s)
    (h_step : ∀ past s es t, I past s → sys.step s es t → I (past ++ es) t) : I (past ++ es) t := by
  obtain ⟨ls, hls, rfl⟩ := h
  refine hls.induct (fun ls t => I (past ++ ls.flatten) t) (by simpa using h_init) ?_
  intro ls s es t _ hI hs
  simpa [List.flatten_append] using h_step _ s es t hI hs

/-- The invariant rule for a predicate that does not look at the events. -/
theorem Emits.invariant {s t : State} {es : List E} (h : Emits sys s es t) (I : State → Prop)
    (h_init : I s) (h_step : ∀ s es t, I s → sys.step s es t → I t) : I t := by
  obtain ⟨ls, hls, -⟩ := h
  exact hls.invariant I h_init h_step

/-- A map of states that takes steps to steps takes runs to runs. -/
theorem Emits.map {State' : Type*} {sys' : System State' (List E)} (f : State → State')
    (hf : ∀ s es t, sys.step s es t → sys'.step (f s) es (f t)) {s t : State} {es : List E}
    (h : Emits sys s es t) : Emits sys' (f s) es (f t) := by
  have h_init : Emits sys' (f s) [] (f s) := Emits.refl _
  refine h.induct (fun es t => Emits sys' (f s) es (f t)) h_init ?_
  intro past u es' v hu hs
  exact hu.trans (Emits.single (hf _ _ _ hs))

end Emits

/-! ### Simulation -/

/-- `R` is a simulation of `sys` by `abs`: initial states are related to initial states, and every
step is answered by a run that ends in a related state. -/
structure Simulation {State' Label' : Type*} (sys : System State Label)
    (abs : System State' Label') (R : State → State' → Prop) : Prop where
  init : ∀ s, sys.init s → ∃ a, abs.init a ∧ R s a
  step : ∀ s a l t, R s a → sys.step s l t → ∃ ls b, Exec abs a ls b ∧ R t b

/-- **Simulations carry runs.** A run from a state is answered by a run from any related state. -/
theorem Simulation.exec {State' Label' : Type*} {abs : System State' Label'}
    {R : State → State' → Prop} (h : Simulation sys abs R) {s t : State} {a : State'}
    {ls : List Label} (hR : R s a) (hrun : Exec sys s ls t) :
    ∃ ls' b, Exec abs a ls' b ∧ R t b := by
  refine hrun.invariant (fun t => ∃ ls' b, Exec abs a ls' b ∧ R t b) ⟨[], a, Exec.refl, hR⟩ ?_
  rintro t l u ⟨ls', b, hb, hRb⟩ hl
  obtain ⟨ms, c, hc, hRc⟩ := h.step t b l u hRb hl
  exact ⟨ls' ++ ms, c, hb.append hc, hRc⟩

end LTS
