import AraxMesh.Lib.Trans
import Mathlib.Data.Multiset.AddSub
import Mathlib.Data.Set.Insert
import Mathlib.Logic.Function.Basic

/-!
# A two-message key exchange without confirmation

Two parties, `false` and `true`, make sessions by exchanging an initiation and a response. The
responder installs its end when it answers, the initiator when it accepts the answer, and a new
session replaces the one before. Initiations may be sent any number of times, both parties may
initiate at once, and messages may be delayed without bound or lost.

Such an exchange does not always leave the two parties with the two ends of one session. It does in
the runs that never *overlap* exchanges: an initiation is answered only while no response that
would be accepted is on its way and some exchange is open (`orderly`).

* `Orderly.of_reachable` — the invariant of these runs;
* `agree_of_quiet` — once nothing is open and nothing on its way, the two parties agree.
-/

open LTS

namespace KeyExchange

/-- One end of the session made from the initiation `e` and the response `f`. -/
structure End (E F : Type*) where
  initiator : Bool
  e : E
  f : F

/-- A message on its way to the party `dst`. -/
inductive Message (E F : Type*)
  | init (dst : Bool) (e : E)
  | resp (dst : Bool) (e : E) (f : F)

/-- The initiation a message is or answers. -/
def Message.initiation {E F : Type*} : Message E F → E
  | .init _ e => e
  | .resp _ e _ => e

/-- The two parties and what is between them. -/
structure State (E F : Type*) where
  /-- The initiation a party waits for an answer to. -/
  pending : Bool → Option E
  active : Bool → Option (End E F)
  flight : Multiset (Message E F)
  /-- The initiations begun so far. -/
  begun : Set E

variable {E F : Type*}

/-- What can happen. -/
inductive Step : State E F → Message E F ⊕ Unit → State E F → Prop
  /-- The party `x` begins an exchange. -/
  | initiate (s : State E F) (x : Bool) (e : E) (h : s.pending x = none) (hf : e ∉ s.begun) :
      Step s (.inr ()) { s with
        pending := Function.update s.pending x (some e)
        begun := insert e s.begun }
  /-- An initiation goes out, for the first time or again. -/
  | send (s : State E F) (x : Bool) (e : E) (h : e ∈ s.begun) :
      Step s (.inr ()) { s with flight := .init x e ::ₘ s.flight }
  | lose (s : State E F) (m : Message E F) (rest : Multiset (Message E F))
      (h : s.flight = m ::ₘ rest) : Step s (.inr ()) { s with flight := rest }
  /-- The party `x` answers an initiation of the other one, and installs its end. -/
  | answer (s : State E F) (x : Bool) (e : E) (f : F) (rest : Multiset (Message E F))
      (h : s.flight = .init x e ::ₘ rest) :
      Step s (.inl (.init x e)) { s with
        active := Function.update s.active x (some ⟨false, e, f⟩)
        flight := .resp (!x) e f ::ₘ rest }
  /-- The party `x` accepts the answer it waits for, and installs its end. -/
  | accept (s : State E F) (x : Bool) (e : E) (f : F) (rest : Multiset (Message E F))
      (h : s.flight = .resp x e f ::ₘ rest) (hp : s.pending x = some e) :
      Step s (.inl (.resp x e f)) { s with
        pending := Function.update s.pending x none
        active := Function.update s.active x (some ⟨true, e, f⟩)
        flight := rest }
  /-- The party `x` gives its session up. -/
  | clear (s : State E F) (x : Bool) :
      Step s (.inr ()) { s with active := Function.update s.active x none }

/-- The exchange as a system; a label says which message is taken in. -/
def exchange (E F : Type*) : System (State E F) (Message E F ⊕ Unit) where
  init s := s.pending = (fun _ => none) ∧ s.active = (fun _ => none) ∧ s.flight = 0 ∧ s.begun = ∅
  step := Step

/-- The message would be accepted as an answer. -/
def State.Live (s : State E F) (m : Message E F) : Prop :=
  ∃ x e f, m = .resp x e f ∧ s.pending x = some e

/-- An initiation may be answered: no answer is awaited on its way, and some exchange is open. -/
def State.Open (s : State E F) : Prop :=
  (∀ m ∈ s.flight, ¬ s.Live m) ∧ ∃ x, (s.pending x).isSome

/-- The runs in which exchanges do not overlap. -/
def orderly (E F : Type*) : System (State E F) (Message E F ⊕ Unit) :=
  (exchange E F).restrict fun s l => ∀ x e, l = .inl (.init x e) → s.Open

/-- The two sessions are the two ends of one exchange, as far as there are two. -/
def State.Agree (s : State E F) : Prop :=
  ∀ a b, s.active false = some a → s.active true = some b →
    a.e = b.e ∧ a.f = b.f ∧ a.initiator = !b.initiator

/-- The invariant of the runs in which exchanges do not overlap. -/
structure Orderly (s : State E F) : Prop where
  begun : ∀ m ∈ s.flight, m.initiation ∈ s.begun
  /-- At most one response would be accepted. -/
  unique : ∀ m rest, s.flight = m ::ₘ rest → s.Live m → ∀ m' ∈ rest, ¬ s.Live m'
  /-- Whoever made the response that would be accepted still has its end. -/
  responder : ∀ x e f, .resp x e f ∈ s.flight → s.pending x = some e →
    ∀ a, s.active (!x) = some a → a = ⟨false, e, f⟩
  settled : (∀ m ∈ s.flight, ¬ s.Live m) → (∃ x, (s.pending x).isSome) ∨ s.Agree

theorem Orderly.init {s : State E F} (h : (orderly E F).init s) : Orderly s := by
  obtain ⟨h_pending, h_active, h_flight, -⟩ := h
  refine ⟨by simp [h_flight], by simp [h_flight], by simp [h_flight], ?_⟩
  intro _
  refine Or.inr fun a b ha => ?_
  rw [h_active] at ha
  cases ha

/-- A live message has its addressee pending. -/
theorem State.Live.pending {s : State E F} {m : Message E F} (h : s.Live m) :
    ∃ x, (s.pending x).isSome := by
  obtain ⟨x, e, f, -, hp⟩ := h
  exact ⟨x, by rw [hp]; rfl⟩

/-- Losing messages keeps the invariant. -/
theorem Orderly.lose {s : State E F} (h : Orderly s) {m : Message E F}
    {rest : Multiset (Message E F)} (hm : s.flight = m ::ₘ rest) :
    Orderly { s with flight := rest } := by
  have h_sub : ∀ m' ∈ rest, m' ∈ s.flight := fun m' hm' => hm ▸ Multiset.mem_cons_of_mem hm'
  refine ⟨fun m' hm' => h.begun m' (h_sub m' hm'), ?_, fun x e f hr => h.responder x e f
    (h_sub _ hr), ?_⟩
  · rintro m₁ rest₁ h₁ h_live m₂ hm₂ h_live₂
    refine h.unique m₁ (m ::ₘ rest₁) ?_ h_live m₂ (Multiset.mem_cons_of_mem hm₂) h_live₂
    rw [hm, show rest = m₁ ::ₘ rest₁ from h₁, Multiset.cons_swap]
  · intro h_none
    by_cases h_live : s.Live m
    · exact Or.inl h_live.pending
    · refine h.settled fun m' hm' => ?_
      rw [hm] at hm'
      rcases Multiset.mem_cons.mp hm' with rfl | hm'
      · exact h_live
      · exact h_none m' hm'

/-- Beginning an exchange makes no message live: no response to a fresh initiation is on its way. -/
theorem Orderly.initiate {s : State E F} (h : Orderly s) {x : Bool} {e : E} (hf : e ∉ s.begun) :
    Orderly { s with
      pending := Function.update s.pending x (some e), begun := insert e s.begun } := by
  have h_live : ∀ m ∈ s.flight, State.Live { s with
      pending := Function.update s.pending x (some e), begun := insert e s.begun } m →
      s.Live m := by
    rintro m hm ⟨y, e', f, rfl, hy⟩
    by_cases hyx : y = x
    · subst hyx
      obtain rfl : e = e' := by simpa using hy
      exact absurd (h.begun _ hm) hf
    · exact ⟨y, e', f, rfl, by simpa [hyx] using hy⟩
  refine ⟨fun m hm => Set.mem_insert_of_mem _ (h.begun m hm), ?_, ?_, ?_⟩
  · rintro m rest hm h_m m' hm' h_m'
    have hm : s.flight = m ::ₘ rest := hm
    refine h.unique m rest hm (h_live m (by simp [hm]) h_m) m' hm' (h_live m' ?_ h_m')
    simp [hm, hm']
  · intro y e' f hr hy
    obtain ⟨_, _, _, heq, hy'⟩ := h_live _ hr ⟨y, e', f, rfl, hy⟩
    cases heq
    exact h.responder y e' f hr hy'
  · exact fun _ => Or.inl ⟨x, by simp⟩

/-- An initiation that goes out is not live. -/
theorem Orderly.send {s : State E F} (h : Orderly s) (x : Bool) {e : E} (he : e ∈ s.begun) :
    Orderly { s with flight := .init x e ::ₘ s.flight } := by
  have h_live : ¬ s.Live (.init x e) := by
    rintro ⟨_, _, _, heq, -⟩
    cases heq
  refine ⟨?_, ?_, ?_, ?_⟩
  · intro m hm
    rcases Multiset.mem_cons.mp hm with rfl | hm
    · exact he
    · exact h.begun m hm
  · intro m rest hm h_m m' hm' h_m'
    have hm : Message.init x e ::ₘ s.flight = m ::ₘ rest := hm
    rcases Multiset.cons_eq_cons.mp hm with ⟨rfl, -⟩ | ⟨-, cs, h_flight, h_rest⟩
    · exact h_live h_m
    · subst h_rest
      rcases Multiset.mem_cons.mp hm' with rfl | hm'
      · exact h_live h_m'
      · exact h.unique m cs h_flight h_m m' hm' h_m'
  · intro y e' f hr hy
    exact h.responder y e' f (by simpa using hr) hy
  · intro h_none
    exact h.settled fun m hm => h_none m (Multiset.mem_cons_of_mem hm)

/-- An answer is the only message that may be live, where none was before it. -/
theorem Orderly.answer {s : State E F} (h : Orderly s) (h_open : s.Open) {x : Bool} {e : E} (f : F)
    {rest : Multiset (Message E F)} (hm : s.flight = .init x e ::ₘ rest) :
    Orderly { s with
      active := Function.update s.active x (some ⟨false, e, f⟩)
      flight := .resp (!x) e f ::ₘ rest } := by
  obtain ⟨h_none, h_some⟩ := h_open
  have h_sub : ∀ m ∈ rest, ¬ s.Live m := fun m hr => h_none m (by simp [hm, hr])
  refine ⟨?_, ?_, ?_, fun _ => Or.inl h_some⟩
  · intro m hr
    rcases Multiset.mem_cons.mp hr with rfl | hr
    · exact h.begun (.init x e) (by simp [hm])
    · exact h.begun m (by simp [hm, hr])
  · intro m rest' hm' h_m m' hr h_m'
    have hm' : Message.resp (!x) e f ::ₘ rest = m ::ₘ rest' := hm'
    rcases Multiset.cons_eq_cons.mp hm' with ⟨-, rfl⟩ | ⟨-, cs, rfl, -⟩
    · exact h_sub m' hr h_m'
    · exact h_sub m (Multiset.mem_cons_self _ _) h_m
  · intro y e' f' hr hy a ha
    rcases Multiset.mem_cons.mp hr with heq | hr
    · -- the responder of the answer has just installed its end
      cases heq
      simpa using ha.symm
    · exact absurd ⟨y, e', f', rfl, hy⟩ (h_sub _ hr)

/-- The two ends of one exchange agree, whichever party is the initiator. -/
theorem State.Agree.of_ends {s : State E F} {x : Bool} {e : E} {f : F}
    (h_init : s.active x = some ⟨true, e, f⟩)
    (h_resp : ∀ a, s.active (!x) = some a → a = ⟨false, e, f⟩) : s.Agree := by
  intro a b ha hb
  cases x with
  | false =>
    obtain rfl := Option.some.inj (ha.symm.trans h_init)
    obtain rfl := h_resp b hb
    exact ⟨rfl, rfl, rfl⟩
  | true =>
    obtain rfl := Option.some.inj (hb.symm.trans h_init)
    obtain rfl := h_resp a ha
    exact ⟨rfl, rfl, rfl⟩

/-- Accepting the answer that is live leaves none, and the two ends of one exchange. -/
theorem Orderly.accept {s : State E F} (h : Orderly s) {x : Bool} {e : E} {f : F}
    {rest : Multiset (Message E F)} (hm : s.flight = .resp x e f ::ₘ rest)
    (hp : s.pending x = some e) :
    Orderly { s with
      pending := Function.update s.pending x none
      active := Function.update s.active x (some ⟨true, e, f⟩)
      flight := rest } := by
  have h_live : s.Live (.resp x e f) := ⟨x, e, f, rfl, hp⟩
  have h_none : ∀ m ∈ rest, ¬ State.Live { s with
      pending := Function.update s.pending x none
      active := Function.update s.active x (some ⟨true, e, f⟩), flight := rest } m := by
    rintro m hr ⟨y, e', f', rfl, hy⟩
    by_cases hyx : y = x
    · subst hyx
      simp at hy
    · exact h.unique _ rest hm h_live _ hr ⟨y, e', f', rfl, by simpa [hyx] using hy⟩
  refine ⟨?_, ?_, ?_, ?_⟩
  · exact fun m hr => h.begun m (by rw [hm]; exact Multiset.mem_cons_of_mem hr)
  · intro m rest' hm' h_m
    have hm' : rest = m ::ₘ rest' := hm'
    exact absurd h_m (h_none m (by simp [hm']))
  · intro y e' f' hr hy
    exact absurd ⟨y, e', f', rfl, hy⟩ (h_none _ hr)
  · -- the responder still has its end, if it has any
    intro _
    have h_resp := h.responder x e f (by simp [hm]) hp
    refine Or.inr (.of_ends (Function.update_self ..) fun a ha => h_resp a ?_)
    have h_other : (!x) ≠ x := by cases x <;> decide
    change Function.update s.active x _ (!x) = some a at ha
    rwa [Function.update_of_ne h_other] at ha

theorem Orderly.clear {s : State E F} (h : Orderly s) (x : Bool) :
    Orderly { s with active := Function.update s.active x none } := by
  refine ⟨h.begun, h.unique, ?_, ?_⟩
  · intro y e f hr hy a ha
    by_cases hyx : (!y) = x
    · subst hyx
      simp at ha
    · exact h.responder y e f hr hy a (by simpa [hyx] using ha)
  · intro h_none
    refine (h.settled h_none).imp id fun h_agree a b ha hb => ?_
    cases x with
    | false => simp at ha
    | true => simp at hb

/-- **The step lemma.** -/
theorem Orderly.step {s t : State E F} {l : Message E F ⊕ Unit} (h : Orderly s)
    (hs : (orderly E F).step s l t) : Orderly t := by
  obtain ⟨hs, h_open⟩ := hs
  cases hs with
  | initiate x e hp hf => exact h.initiate hf
  | send x e he => exact h.send x he
  | lose m rest hm => exact h.lose hm
  | answer x e f rest hm => exact h.answer (h_open x e rfl) f hm
  | accept x e f rest hm hp => exact h.accept hm hp
  | clear x => exact h.clear x

/-- **The invariant of the runs in which exchanges do not overlap.** -/
theorem Orderly.of_reachable {s : State E F} (h : Reachable (orderly E F) s) : Orderly s :=
  h.invariant Orderly (fun _ => Orderly.init) fun _ _ _ hI hs => hI.step hs

/-- **Agreement.** Once no exchange is open and nothing is on its way, the two parties have the two
ends of one session. -/
theorem agree_of_quiet {s : State E F} (h : Reachable (orderly E F) s)
    (h_pending : ∀ x, s.pending x = none) (h_flight : s.flight = 0) : s.Agree := by
  rcases (Orderly.of_reachable h).settled (by simp [h_flight]) with ⟨x, hx⟩ | h_agree
  · rw [h_pending x] at hx
    cases hx
  · exact h_agree

end KeyExchange
