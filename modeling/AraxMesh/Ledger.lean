import AraxMesh.DaemonSteps
import Mathlib.Algebra.Order.Group.Multiset
import Mathlib.Tactic.Abel

/-!
# What a step does to a session

Sessions are told apart by their transport states. `Peer.live` and `live` are the transport states
a peer and a table hold, with multiplicity; a step adds to them only what it installs
(`TableStep.live_le`), so that as long as no transport state is installed twice, no two sessions of
a table ever share one.

On a table whose transport states are distinct, `TableStep.origin` says where every session after a
step comes from: it is freshly installed, or it was there before and was left alone, used for one
encryption, or used to open one packet.

Both are proved for the step of one peer first. The others come in with the multiset: what they hold
is disjoint from what this peer holds, so what the step uses is none of theirs. `Owned` carries it
along a run: what the table holds, and what the history used, was installed in the history.
-/

namespace AraxMesh

open LTS

variable {S : Snow}

/-! ### Reading a history -/

/-- The transport states installed in a history. -/
def installedIn (es : List (Event S)) : List S.Transport :=
  es.filterMap fun
    | .installed t => some t
    | _ => none

/-- The data packets sent in a history. -/
def sentIn (es : List (Event S)) : List (Sealed S) :=
  es.filterMap fun
    | .sentData c _ => some c
    | _ => none

/-- The transport states of the encryptions attempted in a history. -/
def encryptedIn (es : List (Event S)) : List S.Transport :=
  es.filterMap fun
    | .encrypted t => some t
    | _ => none

/-- The plaintexts opened in a history. -/
def openedIn (es : List (Event S)) : List (Opened S) :=
  es.filterMap fun
    | .opened o => some o
    | _ => none

/-- What a history wrote to the TUN device. -/
def writtenIn (es : List (Event S)) : List Bytes :=
  es.filterMap fun
    | .written plaintext => some plaintext
    | _ => none

@[simp] theorem installedIn_append (es es' : List (Event S)) :
    installedIn (es ++ es') = installedIn es ++ installedIn es' := List.filterMap_append

@[simp] theorem sentIn_append (es es' : List (Event S)) :
    sentIn (es ++ es') = sentIn es ++ sentIn es' := List.filterMap_append

@[simp] theorem encryptedIn_append (es es' : List (Event S)) :
    encryptedIn (es ++ es') = encryptedIn es ++ encryptedIn es' := List.filterMap_append

@[simp] theorem openedIn_append (es es' : List (Event S)) :
    openedIn (es ++ es') = openedIn es ++ openedIn es' := List.filterMap_append

/-- A reading that goes by the shape of the event finds what stands in the history. -/
theorem mem_reading {α : Type} {f : Event S → Option α} {make : α → Event S}
    (h : ∀ e a, f e = some a ↔ e = make a) {es : List (Event S)} {a : α} :
    a ∈ es.filterMap f ↔ make a ∈ es := by
  rw [List.mem_filterMap]
  constructor
  · rintro ⟨e, he, ha⟩
    rwa [(h e a).mp ha] at he
  · intro ha
    exact ⟨make a, ha, (h _ a).mpr rfl⟩

/-- The readings, one by one. -/
theorem mem_installedIn {es : List (Event S)} {t : S.Transport} :
    t ∈ installedIn es ↔ .installed t ∈ es :=
  mem_reading fun e t => by cases e <;> simp

theorem mem_openedIn {es : List (Event S)} {o : Opened S} :
    o ∈ openedIn es ↔ .opened o ∈ es :=
  mem_reading fun e o => by cases e <;> simp

theorem mem_writtenIn {es : List (Event S)} {plaintext : Bytes} :
    plaintext ∈ writtenIn es ↔ .written plaintext ∈ es :=
  mem_reading fun e plaintext => by cases e <;> simp

theorem mem_encryptedIn {es : List (Event S)} {t : S.Transport} :
    t ∈ encryptedIn es ↔ .encrypted t ∈ es :=
  mem_reading fun e t => by cases e <;> simp

/-- Where a packet went is not part of what was sent. -/
theorem mem_sentIn {es : List (Event S)} {c : Sealed S} :
    c ∈ sentIn es ↔ ∃ dest, .sentData c dest ∈ es := by
  simp only [sentIn, List.mem_filterMap]
  constructor
  · rintro ⟨e, he, h⟩
    cases e <;> simp_all
    exact ⟨_, he⟩
  · rintro ⟨dest, h⟩
    exact ⟨_, h, rfl⟩

/-- The event uses a session with this transport state. -/
def Event.Uses (t : S.Transport) : Event S → Prop
  | .encrypted t' => t' = t
  | .sentData c _ => c.state = t
  | .opened o => o.state = t
  | _ => False

/-- A quiet event uses no session. -/
theorem Event.Quiet.not_uses {e : Event S} (h : e.Quiet) (t : S.Transport) : ¬ e.Uses t := by
  cases e <;> simp_all [Event.Quiet, Event.Uses]

/-- Quiet events install nothing. -/
theorem installedIn_of_quiet {es : List (Event S)} (h : ∀ e ∈ es, e.Quiet) :
    installedIn es = [] := by
  refine List.eq_nil_iff_forall_not_mem.mpr fun t ht => ?_
  exact h _ (mem_installedIn.mp ht)

/-! ### Live transport states -/

/-- The transport state of the session in a slot, if there is one. -/
def stateOf (o : Option (ActiveSession S)) : Multiset S.Transport := ↑(o.toList.map (·.state))

@[simp] theorem stateOf_none : stateOf (none : Option (ActiveSession S)) = 0 := rfl

@[simp] theorem stateOf_some (s : ActiveSession S) : stateOf (some s) = {s.state} := rfl

/-- A slot has one session at most. -/
theorem mem_stateOf {o : Option (ActiveSession S)} {t : S.Transport} :
    t ∈ stateOf o ↔ ∃ s, o = some s ∧ s.state = t := by
  cases o <;> simp [eq_comm]

/-- The transport states of a peer's sessions. -/
def Peer.live (p : Peer S) : Multiset S.Transport := stateOf p.active + stateOf p.previous

/-- The transport states of the sessions of a table. -/
def live (l : List (Peer S)) : Multiset S.Transport := (l.map Peer.live).sum

@[simp] theorem live_append (l l' : List (Peer S)) : live (l ++ l') = live l + live l' := by
  simp [live]

@[simp] theorem live_cons (p : Peer S) (l : List (Peer S)) : live (p :: l) = p.live + live l := by
  simp [live]

@[simp] theorem live_nil : live ([] : List (Peer S)) = 0 := rfl

/-- The transport states of a peer are those of its two slots, -/
theorem Peer.mem_live {p : Peer S} {t : S.Transport} :
    t ∈ p.live ↔ ∃ k s, p.slot k = some s ∧ s.state = t := by
  rw [live, Multiset.mem_add, mem_stateOf, mem_stateOf]
  constructor
  · rintro (⟨s, h⟩ | ⟨s, h⟩)
    · exact ⟨.active, s, h⟩
    · exact ⟨.previous, s, h⟩
  · rintro ⟨_ | _, s, h⟩
    · exact Or.inl ⟨s, h⟩
    · exact Or.inr ⟨s, h⟩

/-- and those of a table are those of its peers. -/
theorem mem_live {l : List (Peer S)} {t : S.Transport} :
    t ∈ live l ↔ ∃ p ∈ l, ∃ k s, p.slot k = some s ∧ s.state = t := by
  induction l with
  | nil => simp
  | cons p l ih => simp [ih, Peer.mem_live]

/-- Putting back a session with the same transport state. -/
theorem Peer.live_setSlot {p : Peer S} {k : Slot} {s s' : ActiveSession S} (h : p.slot k = some s)
    (hs : s'.state = s.state) : (p.setSlot k s').live = p.live := by
  cases k with
  | active => simp [live, setSlot, show p.active = some s from h, hs]
  | previous => simp [live, setSlot, show p.previous = some s from h, hs]

/-- A session switch keeps at most the old active and previous sessions. -/
theorem Peer.live_install_le (p : Peer S) (t : S.Transport) (now : Instant) :
    (p.install t now).live ≤ {t} + p.live := by
  unfold live
  cases h : p.active with
  | none => simp [install, h, ActiveSession.fresh]
  | some s =>
    simp only [install, h, ActiveSession.fresh, stateOf_some]
    exact add_le_add le_rfl (Multiset.le_add_right _ _)

/-- **A step of a peer adds to its transport states only what it installs.** -/
theorem SessionStep.live_le {p p' : Peer S} {es : List (Event S)} (h : SessionStep p es p') :
    p'.live ≤ ↑(installedIn es) + p.live := by
  cases h with
  | touch h hes =>
    rw [installedIn_of_quiet hes, Peer.live, Peer.live, h.active, h.previous]
    exact Multiset.le_add_left _ _
  | initiate => exact Multiset.le_add_left _ _
  | reject => exact Multiset.le_add_left _ _
  | abandon => exact Multiset.le_add_left _ _
  | respond t now => exact p.live_install_le t now
  | answer hs m t now => exact p.live_install_le t now
  -- what is forgotten is gone
  | forget =>
    refine le_trans ?_ (Multiset.le_add_left _ _)
    exact add_le_add le_rfl (Multiset.zero_le _)
  | clear =>
    refine le_trans ?_ (Multiset.le_add_left _ _)
    exact add_le_add (Multiset.zero_le _) (Multiset.zero_le _)
  -- the counters are not part of a transport state
  | encrypt s len h =>
    rw [p.live_setSlot (show p.slot .active = some s from h) (Peer.advance_state s len)]
    exact Multiset.le_add_left _ _
  | send s len packet dest h _ =>
    rw [p.live_setSlot (show p.slot .active = some s from h) (Peer.advance_state s len)]
    exact Multiset.le_add_left _ _
  | opened k s w n pt len h =>
    rw [p.live_setSlot h (s.accept_state w len)]
    exact Multiset.le_add_left _ _

/-- Removing peers removes what they hold. -/
theorem live_le_of_sublist {l l' : List (Peer S)} (h : l'.Sublist l) : live l' ≤ live l := by
  induction h with
  | slnil => rfl
  | cons p _ ih =>
    rw [live_cons]
    exact ih.trans (Multiset.le_add_left _ _)
  | cons_cons p _ ih =>
    rw [live_cons, live_cons]
    exact add_le_add le_rfl ih

/-- **A step adds to the live transport states only what it installs.** -/
theorem TableStep.live_le {magic : MagicConfig} {l l' : List (Peer S)} {es : List (Event S)}
    (h : TableStep magic l es l') : live l' ≤ ↑(installedIn es) + live l := by
  cases h with
  | peer l₁ l₂ h =>
    simp only [live_append, live_cons]
    calc live l₁ + (_ + live l₂)
        ≤ live l₁ + ((↑(installedIn es) + _) + live l₂) :=
          add_le_add le_rfl (add_le_add h.live_le le_rfl)
      _ = ↑(installedIn es) + (live l₁ + (_ + live l₂)) := by abel
  | quiet hes => exact Multiset.le_add_left _ _
  | remove h => simpa [installedIn] using live_le_of_sublist h
  | add _ p ha hp => simp [installedIn, Peer.live, ha, hp]

/-! ### Where a session comes from -/

/-- Where the session in slot `k'` of some peer after a step comes from. -/
inductive SessionOrigin (l : List (Peer S)) (es : List (Event S)) : Slot → ActiveSession S → Prop
  /-- It is installed by the step, which uses no session. -/
  | fresh (t : S.Transport) (now : Instant) (ht : .installed t ∈ es)
      (hes : ∀ e ∈ es, ∀ t', ¬ e.Uses t') : SessionOrigin l es .active (ActiveSession.fresh t now)
  /-- It was there before; a previous session stays one. -/
  | kept {p : Peer S} (hp : p ∈ l) (k k' : Slot) (s : ActiveSession S) (hs : p.slot k = some s)
      (hk : k = .previous → k' = .previous) (hes : ∀ e ∈ es, ¬ e.Uses s.state) :
      SessionOrigin l es k' s
  /-- It was the active one, and has one nonce less. -/
  | encrypted {p : Peer S} (hp : p ∈ l) (s : ActiveSession S) (len : ℕ)
      (hs : p.slot .active = some s)
      (hes : es = [.encrypted s.state] ∨ ∃ packet dest,
        es = [.encrypted s.state, .sentData ⟨packet, s.state, s.txNonce⟩ dest]) :
      SessionOrigin l es .active (Peer.advance s len)
  /-- Its window has moved on. -/
  | opened {p : Peer S} (hp : p ∈ l) (k : Slot) (s : ActiveSession S) (w : ReplayWindow)
      (n : UInt64) (plaintext : Bytes) (len : ℕ) (hs : p.slot k = some s)
      (hw : s.replay.checkAndUpdate n = (true, w))
      (hes : es = [.opened ⟨plaintext, s.state, n⟩]) : SessionOrigin l es k (s.accept w len)

/-- An origin in a part of the table is one in the table. -/
theorem SessionOrigin.mono {l l' : List (Peer S)} (hl : l ⊆ l') {es : List (Event S)} {k : Slot}
    {s : ActiveSession S} (h : SessionOrigin l es k s) : SessionOrigin l' es k s := by
  cases h with
  | fresh t now ht hes => exact .fresh t now ht hes
  | kept hp k _ _ hs hk hes => exact .kept (hl hp) k _ _ hs hk hes
  | encrypted hp s len hs hes => exact .encrypted (hl hp) s len hs hes
  | opened hp k s w n plaintext len hs hw hes =>
    exact .opened (hl hp) k s w n plaintext len hs hw hes

/-- The session of a slot is among the live ones. -/
theorem Peer.state_mem_live {p : Peer S} {k : Slot} {s : ActiveSession S} (h : p.slot k = some s) :
    s.state ∈ p.live := Peer.mem_live.mpr ⟨k, s, h, rfl⟩

/-- The two sessions of a peer have different transport states. -/
theorem Peer.slot_ne {p : Peer S} (hnd : p.live.Nodup) {k k' : Slot} {s s' : ActiveSession S}
    (h : p.slot k = some s) (h' : p.slot k' = some s') (hk : k' ≠ k) : s'.state ≠ s.state := by
  have h_both : ∀ {a b : ActiveSession S}, p.active = some a → p.previous = some b →
      a.state ≠ b.state := by
    intro a b ha hb
    rw [live, ha, hb] at hnd
    have hdis := (Multiset.nodup_add.mp hnd).2.2
    simpa [eq_comm] using hdis
  -- two different slots are the two slots
  cases k <;> cases k' <;> try exact absurd rfl hk
  · exact (h_both h h').symm
  · exact h_both h' h

/-- A transport state is found in one place of the table only. -/
theorem place_unique {l : List (Peer S)} (hnd : (live l).Nodup) {i j : ℕ} {p q : Peer S}
    (hp : l[i]? = some p) (hq : l[j]? = some q) {k k' : Slot} {s s' : ActiveSession S}
    (hs : p.slot k = some s) (hs' : q.slot k' = some s') (h : s'.state = s.state) :
    j = i ∧ k' = k := by
  induction l generalizing i j with
  | nil => simp at hp
  | cons r l ih =>
    rw [live_cons, Multiset.nodup_add] at hnd
    obtain ⟨hnd_r, hnd_l, hdis⟩ := hnd
    have h_mem : ∀ {n : ℕ} {a : Peer S} {k₀ : Slot} {s₀ : ActiveSession S}, l[n]? = some a →
        a.slot k₀ = some s₀ → s₀.state ∈ live l := fun ha hs₀ =>
      mem_live.mpr ⟨_, List.mem_of_getElem? ha, _, _, hs₀, rfl⟩
    -- the head against itself, the head against the tail, and the tail by induction
    cases i with
    | zero =>
      obtain rfl : r = p := by simpa using hp
      cases j with
      | zero =>
        obtain rfl : r = q := by simpa using hq
        exact ⟨rfl, by_contra fun hk => Peer.slot_ne hnd_r hs hs' hk h⟩
      | succ j =>
        have hq : l[j]? = some q := by simpa using hq
        exact absurd (h_mem hq hs') (h ▸ Multiset.disjoint_left.mp hdis (Peer.state_mem_live hs))
    | succ i =>
      have hp : l[i]? = some p := by simpa using hp
      cases j with
      | zero =>
        obtain rfl : r = q := by simpa using hq
        exact absurd (h_mem hp hs) (h ▸ Multiset.disjoint_left.mp hdis (Peer.state_mem_live hs'))
      | succ j =>
        obtain ⟨rfl, hk⟩ := ih hnd_l hp (by simpa using hq)
        exact ⟨rfl, hk⟩

/-- What a step uses was live. -/
theorem SessionStep.uses {p p' : Peer S} {es : List (Event S)} (h : SessionStep p es p')
    {e : Event S} (he : e ∈ es) {t : S.Transport} (ht : e.Uses t) :
    ∃ k s, p.slot k = some s ∧ s.state = t := by
  cases h with
  | touch h hes => exact absurd ht ((hes e he).not_uses t)
  -- a handshake uses no session
  | initiate | respond =>
    obtain rfl : e = _ := by simpa using he
    exact ht.elim
  | answer =>
    obtain rfl | rfl : e = _ ∨ e = _ := by simpa using he
    · exact ht.elim
    · exact ht.elim
  | reject | abandon | forget | clear => cases he
  -- an encryption uses the active one, and an opening the one it reads under
  | encrypt s len h =>
    obtain rfl : e = _ := by simpa using he
    exact ⟨.active, s, h, ht⟩
  | send s len packet dest h _ =>
    obtain rfl | rfl : e = _ ∨ e = _ := by simpa using he
    · exact ⟨.active, s, h, ht⟩
    · exact ⟨.active, s, h, ht⟩
  | opened k s w n plaintext len h hw =>
    obtain rfl : e = _ := by simpa using he
    exact ⟨k, s, h, ht⟩

/-- The sessions of a peer after a switch: the active one is fresh, and the previous one is the old
active one, if there was one. -/
theorem Peer.origin_of_install {p : Peer S} {es : List (Event S)} {t : S.Transport} {now : Instant}
    {k : Slot} {s : ActiveSession S} (hs : (p.install t now).slot k = some s)
    (ht : .installed t ∈ es) (hes : ∀ e ∈ es, ∀ t', ¬ e.Uses t') : SessionOrigin [p] es k s := by
  have hp : p ∈ [p] := List.mem_singleton_self p
  cases k with
  | active =>
    obtain rfl : ActiveSession.fresh t now = s := Option.some.inj hs
    exact .fresh t now ht hes
  | previous =>
    cases ha : p.active with
    | none =>
      have hprev : p.slot .previous = some s := by simpa [Peer.slot, Peer.install, ha] using hs
      exact .kept hp _ _ s hprev (fun _ => rfl) fun e he => hes e he _
    | some a =>
      have hact : p.slot .active = some s := by simpa [Peer.slot, Peer.install, ha] using hs
      exact .kept hp _ _ s hact (fun _ => rfl) fun e he => hes e he _

/-- The sessions of a peer after one of its steps. -/
theorem SessionStep.origin {p p' : Peer S} {es : List (Event S)} (h : SessionStep p es p')
    (hnd : p.live.Nodup) {k : Slot} {s : ActiveSession S} (hs : p'.slot k = some s) :
    SessionOrigin [p] es k s := by
  have hp : p ∈ [p] := List.mem_singleton_self p
  -- the sessions a step does not touch
  have h_kept : ∀ {k₀ : Slot}, p.slot k₀ = some s → (k₀ = .previous → k = .previous) →
      (∀ e ∈ es, ¬ e.Uses s.state) → SessionOrigin [p] es k s := fun hs hk hes =>
    .kept hp _ k s hs hk hes
  -- a step that uses one session leaves the other alone
  have h_used : ∀ {k₀ : Slot} {s₀ s₁ : ActiveSession S}, p.slot k₀ = some s₀ →
      (p.setSlot k₀ s₁).slot k = some s → (∀ e ∈ es, ∀ t, e.Uses t → s₀.state = t) →
      k = k₀ ∧ s₁ = s ∨ SessionOrigin [p] es k s := by
    intro k₀ s₀ s₁ h hs hes
    rw [Peer.slot_setSlot] at hs
    split_ifs at hs with hk
    · exact Or.inl ⟨hk, Option.some.inj hs⟩
    · have hne := Peer.slot_ne hnd h hs hk
      exact Or.inr (h_kept hs id fun e he hu => hne (hes e he _ hu).symm)
  cases h with
  | touch h hes =>
    have hsame : p.slot k = some s := by
      cases k with
      | active => exact h.active.symm.trans hs
      | previous => exact h.previous.symm.trans hs
    exact h_kept hsame id fun e he => (hes e he).not_uses _
  | initiate =>
    have hsame : p.slot k = some s := by cases k <;> exact hs
    exact h_kept hsame id (by simp [Event.Uses])
  | reject | abandon =>
    have hsame : p.slot k = some s := by cases k <;> exact hs
    exact h_kept hsame id (by simp)
  | respond t now => exact Peer.origin_of_install hs (by simp) (by simp [Event.Uses])
  | answer hs' m t now =>
    have hinst : (p.install t now).slot k = some s := by cases k <;> exact hs
    exact Peer.origin_of_install hinst (by simp) (by simp [Event.Uses])
  | forget =>
    cases k with
    | active => exact h_kept (show p.slot .active = some s from hs) id (by simp)
    | previous => cases hs
  | clear => cases k <;> cases hs
  | encrypt s₀ len h =>
    rcases h_used (show p.slot .active = some s₀ from h) hs (by simp [Event.Uses])
      with ⟨rfl, rfl⟩ | h_origin
    · exact .encrypted hp s₀ len h (Or.inl rfl)
    · exact h_origin
  | send s₀ len packet dest h _ =>
    rcases h_used (show p.slot .active = some s₀ from h) hs (by simp [Event.Uses])
      with ⟨rfl, rfl⟩ | h_origin
    · exact .encrypted hp s₀ len h (Or.inr ⟨packet, dest, rfl⟩)
    · exact h_origin
  | opened k₀ s₀ w n plaintext len h hw =>
    rcases h_used h hs (by simp [Event.Uses]) with ⟨rfl, rfl⟩ | h_origin
    · exact .opened hp k s₀ w n plaintext len h hw rfl
    · exact h_origin

/-- What a step of the table uses was live. -/
theorem TableStep.uses {magic : MagicConfig} {l l' : List (Peer S)} {es : List (Event S)}
    (h : TableStep magic l es l') {e : Event S} (he : e ∈ es) {t : S.Transport} (ht : e.Uses t) :
    t ∈ live l := by
  cases h with
  | peer l₁ l₂ h =>
    obtain ⟨k, s, hs, rfl⟩ := h.uses he ht
    exact mem_live.mpr ⟨_, by simp, k, s, hs, rfl⟩
  | quiet _ hes => exact absurd ht ((hes e he).not_uses t)
  | remove => cases he
  | add => cases he

/-- **Where every session after a step comes from**, on a table whose transport states are
distinct. -/
theorem TableStep.origin {magic : MagicConfig} {l l' : List (Peer S)} {es : List (Event S)}
    (h : TableStep magic l es l') (hnd : (live l).Nodup) {p' : Peer S} (hp' : p' ∈ l') {k : Slot}
    {s : ActiveSession S} (hs : p'.slot k = some s) : SessionOrigin l es k s := by
  cases h with
  | @peer l₁ l₂ p q _ h =>
    rw [live_append, live_cons, Multiset.nodup_add, Multiset.nodup_add] at hnd
    obtain ⟨-, ⟨hnd_p, -, hdis₂⟩, hdis₁⟩ := hnd
    -- the sessions of the other peers are not used
    have h_other : p' ∈ l₁ ++ l₂ → ∀ e ∈ es, ¬ e.Uses s.state := by
      intro hp' e he hu
      obtain ⟨k₀, s₀, hs₀, heq⟩ := h.uses he hu
      have hlive : s.state ∈ p.live := heq ▸ Peer.state_mem_live hs₀
      have hmem : ∀ l₀ : List (Peer S), p' ∈ l₀ → s.state ∈ live l₀ := fun l₀ hl =>
        mem_live.mpr ⟨p', hl, k, s, hs, rfl⟩
      rcases List.mem_append.mp hp' with hp' | hp'
      · exact Multiset.disjoint_left.mp hdis₁ (hmem l₁ hp') (Multiset.mem_add.mpr (Or.inl hlive))
      · exact Multiset.disjoint_left.mp hdis₂ hlive (hmem l₂ hp')
    rcases List.mem_append.mp hp' with hp' | hp'
    · exact .kept (by simp [hp']) k k s hs id (h_other (by simp [hp']))
    rcases List.mem_cons.mp hp' with rfl | hp'
    · exact (h.origin hnd_p hs).mono (by simp)
    · exact .kept (by simp [hp']) k k s hs id (h_other (by simp [hp']))
  | quiet _ hes => exact .kept hp' k k s hs id fun e he => (hes e he).not_uses _
  | remove h => exact .kept (h.subset hp') k k s hs id (by simp)
  | add _ p ha hprev =>
    rcases List.mem_append.mp hp' with hp' | hp'
    · exact .kept hp' k k s hs id (by simp)
    · obtain rfl := List.mem_singleton.mp hp'
      cases k with
      | active => exact absurd (ha.symm.trans hs) (by simp)
      | previous => exact absurd (hprev.symm.trans hs) (by simp)

/-! ### The history owns the table -/

/-- Everything the table holds or the history used was installed in the history. -/
structure Owned (past : List (Event S)) (l : List (Peer S)) : Prop where
  live : live l ≤ ↑(installedIn past)
  uses : ∀ e ∈ past, ∀ t, e.Uses t → t ∈ installedIn past

/-- As long as no transport state is installed twice, no two sessions of the table share one. -/
theorem Owned.nodup {past : List (Event S)} {l : List (Peer S)} (h : Owned past l)
    (hf : (installedIn past).Nodup) : (AraxMesh.live l).Nodup :=
  Multiset.nodup_of_le h.live (Multiset.coe_nodup.mpr hf)

/-- What was installed before some moment was not installed twice either. -/
theorem nodup_of_append {past es : List (Event S)} (h : (installedIn (past ++ es)).Nodup) :
    (installedIn past).Nodup := by
  rw [installedIn_append] at h
  exact (List.nodup_append.mp h).1

/-- What is installed now was never installed before. -/
theorem not_installedIn_of_fresh {past es : List (Event S)}
    (hf : (installedIn (past ++ es)).Nodup) {t : S.Transport} (ht : .installed t ∈ es) :
    t ∉ installedIn past := by
  rw [installedIn_append, List.nodup_append] at hf
  exact fun h => hf.2.2 _ h _ (mem_installedIn.mpr ht) rfl

/-- What is installed now was never used before. -/
theorem Owned.not_uses_of_fresh {past es : List (Event S)} {l : List (Peer S)}
    (h : Owned past l) (hf : (installedIn (past ++ es)).Nodup) {t : S.Transport}
    (ht : .installed t ∈ es) : ∀ e ∈ past, ¬ e.Uses t :=
  fun e he hu => not_installedIn_of_fresh hf ht (h.uses e he t hu)

/-- **The history owns the table**, after every step. -/
theorem Owned.step {magic : MagicConfig} {past es : List (Event S)} {l l' : List (Peer S)}
    (h : Owned past l) (hs : TableStep magic l es l') : Owned (past ++ es) l' where
  live := by
    rw [installedIn_append, ← Multiset.coe_add, add_comm]
    exact hs.live_le.trans (add_le_add le_rfl h.live)
  uses := by
    intro e he t hu
    rw [installedIn_append, List.mem_append]
    rcases List.mem_append.mp he with he | he
    · -- an old event, or one that uses a live session, whose state was installed before
      exact Or.inl (h.uses e he t hu)
    · exact Or.inl (Multiset.mem_coe.mp (Multiset.mem_of_le h.live (hs.uses he hu)))

/-- A table the machine starts with holds no session. -/
theorem slot_of_init {magic : MagicConfig} {l : List (Peer S)} (h : (table S magic).init l)
    {p : Peer S} (hp : p ∈ l) (k : Slot) : p.slot k = none := by
  obtain ⟨ha, hprev, -⟩ := h p hp
  cases k with
  | active => exact ha
  | previous => exact hprev

/-- A table without sessions. -/
theorem Owned.of_idle {l : List (Peer S)} (h : ∀ p ∈ l, ∀ k, p.slot k = none) : Owned [] l where
  live := by
    refine le_of_eq (Multiset.eq_zero_of_forall_notMem fun t ht => ?_)
    obtain ⟨p, hp, k, s, hs, -⟩ := mem_live.mp ht
    exact absurd ((h p hp k).symm.trans hs) (by simp)
  uses := by simp

end AraxMesh
