import AraxMesh.RelayStreams

/-!
# Routes

Which connection the relay's table has for an identity. A handler that registers replaces the entry
of its identity, which drops the sender of the older connection; the older handler's TX loop then
ends, and its cleanup removes whatever entry there is under the identity.

`routes_follow` holds of the runs in which every cleanup finds its own entry or none: the table has
the connection that identified last, as long as its client has it open. Without that condition a
replacement loses the new route (`route_lost_by_replacement`).
-/

namespace AraxMesh

open Framing LTS

/-- `c` is the last connection that identified with this key. -/
def Latest (ls : List RelayLabel) (key : RelayKey) (c : ConnId) : Prop :=
  ∃ pre post, ls = pre ++ .register c key :: post ∧ ∀ c', .register c' key ∉ post

theorem Latest.cases {ls : List RelayLabel} {l : RelayLabel} {key : RelayKey} {c : ConnId}
    (h : Latest (ls ++ [l]) key c) :
    l = .register c key ∨ Latest ls key c ∧ ∀ c', l ≠ .register c' key := by
  obtain ⟨pre, post, h_eq, h_last⟩ := h
  rcases List.eq_nil_or_concat post with rfl | ⟨post', l', rfl⟩
  · -- nothing after the registration: it is the last label
    obtain ⟨-, h_l⟩ := List.append_inj' h_eq rfl
    exact Or.inl (List.cons.inj h_l).1
  · -- the last label is one of those after it
    rw [List.concat_eq_append] at h_eq h_last
    rw [← List.cons_append, ← List.append_assoc] at h_eq
    obtain ⟨rfl, h_l⟩ := List.append_inj' h_eq rfl
    obtain rfl := (List.cons.inj h_l).1
    refine Or.inr ⟨⟨pre, post', rfl, fun c' hc => h_last c' (by simp [hc])⟩, fun c' hc => ?_⟩
    exact h_last c' (by simp [hc])

/-- A handler cleans up only when the entry under its identity is its own or absent, and clients
send only packets that fit a frame. -/
def Relay.Guarded (s : Relay) (l : RelayLabel) : Prop :=
  (∀ c d, l = .cleanup c → s.routes (s.conn c).identity = some d → d = c) ∧
    ∀ c p, l = .conn c (.send p) → p.Fits

/-- The connection has identified with this key, and if its client has it open its handler runs and
has its route. -/
structure Routed (s : Relay) (key : RelayKey) (c : ConnId) : Prop where
  registered : (s.conn c).Registered
  identity : (s.conn c).identity = key
  open_route : (s.conn c).isOpen → s.routes key = some c ∧ (s.conn c).phase = .running

/-- What `Routed` says of a connection by itself. -/
def RelayConn.status (k : RelayConn) : Phase × RelayKey × Bool := (k.phase, k.identity, k.isOpen)

theorem Routed.congr {s t : Relay} {key : RelayKey} {c : ConnId} (h : Routed s key c)
    (h_status : (t.conn c).status = (s.conn c).status) (h_routes : t.routes key = s.routes key) :
    Routed t key c := by
  obtain ⟨h_phase, h_rest⟩ := Prod.mk.inj h_status
  obtain ⟨h_identity, h_open⟩ := Prod.mk.inj h_rest
  refine ⟨?_, h_identity.trans h.identity, ?_⟩
  · rw [RelayConn.Registered, h_phase]
    exact h.registered
  · rw [h_open, h_phase, h_routes]
    exact h.open_route

/-- An action of the connection itself. -/
theorem Routed.action {s : Relay} {key : RelayKey} {c : ConnId} (h : Routed s key c)
    {a : ConnAction} (ha : (s.conn c).Enabled a) (h_fine : (s.conn c).rx ≠ .reading .failed) :
    Routed (s.after (.conn c a)) key c := by
  have h_reg := h.registered
  have h_conn : (s.after (.conn c a)).conn c = (s.conn c).after a := by
    rw [Relay.after, Relay.modify_conn_self]
  cases a with
  | connect =>
    -- a connection that has registered was made before
    rw [RelayConn.Registered, show (s.conn c).phase = _ from ha] at h_reg
    exact h_reg.elim
  | abandon =>
    rw [RelayConn.Registered, ha.1] at h_reg
    exact h_reg.elim
  | close =>
    refine ⟨?_, ?_, ?_⟩
    all_goals rw [h_conn]
    exacts [h_reg, h.identity, fun h' => by cases h']
  | rxEnd =>
    -- the RX loop ends only once the client has closed
    refine ⟨?_, ?_, ?_⟩
    all_goals rw [h_conn]
    · trivial
    · exact h.identity
    · intro h_open
      obtain ⟨-, r, h_rx, h_closed | rfl⟩ := ha
      · cases h_open.symm.trans h_closed
      · exact absurd h_rx h_fine
  | finish =>
    refine ⟨?_, ?_, ?_⟩
    all_goals rw [h_conn]
    · trivial
    · exact h.identity
    · intro h_open
      cases (h.open_route h_open).2.symm.trans ha
  | read n out =>
    obtain ⟨-, r, h_rx, -⟩ := ha
    refine h.congr ?_ rfl
    rw [h_conn]
    simp only [RelayConn.after, h_rx]
    rfl
  | clientRead n =>
    obtain ⟨-, r, h_rx, -⟩ := ha
    refine h.congr ?_ rfl
    rw [h_conn]
    simp only [RelayConn.after, h_rx]
    rfl
  | send p | flush n | recv p | write n | emit p =>
    refine h.congr ?_ rfl
    rw [h_conn]
    rfl

/-- **A step keeps the routes.** -/
theorem Routed.step {s : Relay} {key : RelayKey} {c : ConnId} (h : Routed s key c) {l : RelayLabel}
    (hl : s.Enabled l) (h_guard : s.Guarded l) (h_fine : (s.conn c).rx ≠ .reading .failed)
    (h_other : ∀ c', l ≠ .register c' key) : Routed (s.after l) key c := by
  have h_reg := h.registered
  have h_elsewhere : ¬ l.About c → ((s.after l).conn c).status = (s.conn c).status := by
    intro hc
    rw [Relay.frame hc]
  cases l with
  | conn c' a =>
    by_cases hc : c = c'
    · subst hc
      exact h.action hl h_fine
    · -- the action of another connection
      exact h.congr (h_elsewhere hc) rfl
  | register c' key' =>
    -- another connection identifies, with another key
    have hc : c ≠ c' := by
      rintro rfl
      rw [RelayConn.Registered, hl.1] at h_reg
      exact h_reg
    have h_key : key ≠ key' := by
      rintro rfl
      exact h_other c' rfl
    exact h.congr (h_elsewhere hc) (Function.update_of_ne h_key ..)
  | lookup c' | discard c' =>
    refine h.congr ?_ rfl
    rw [Relay.after]
    exact Relay.modify_apply RelayConn.status s c' c fun _ => rfl
  | enqueue c' d p =>
    refine h.congr ?_ rfl
    rw [Relay.after]
    refine (Relay.modify_apply RelayConn.status _ d c ?_).trans
      (Relay.modify_apply RelayConn.status s c' c ?_)
    all_goals exact fun _ => rfl
  | txEnd c' =>
    by_cases hc : c = c'
    · -- the table holds a sender of its channel
      subst hc
      have h_conn : (s.after (.txEnd c)).conn c = { s.conn c with phase := .ended } := by
        rw [Relay.after, Relay.modify_conn_self]
      refine ⟨?_, ?_, ?_⟩
      all_goals rw [h_conn]
      · trivial
      · exact h.identity
      · intro h_open
        obtain ⟨-, ⟨-, -, h_none⟩ | ⟨-, h_closed⟩⟩ := hl
        · exact absurd (Or.inl ⟨key, (h.open_route h_open).1⟩) h_none
        · cases h_open.symm.trans h_closed
    · exact h.congr (h_elsewhere hc) rfl
  | cleanup c' =>
    by_cases hc : c = c'
    · -- a handler that runs does not clean up
      subst hc
      have h_conn : (s.after (.cleanup c)).conn c = { s.conn c with phase := .cleaned } :=
        Function.update_self ..
      refine ⟨?_, ?_, ?_⟩
      all_goals rw [h_conn]
      · trivial
      · exact h.identity
      · intro h_open
        cases (h.open_route h_open).2.symm.trans hl
    · have h_conn : (s.after (.cleanup c')).conn c = s.conn c := Function.update_of_ne hc ..
      have h_routes : (s.after (.cleanup c')).routes
          = Function.update s.routes (s.conn c').identity none := rfl
      refine ⟨?_, ?_, ?_⟩
      all_goals rw [h_conn]
      · exact h_reg
      · exact h.identity
      · -- another handler finds its own entry or none, so not this one
        intro h_open
        obtain ⟨h_route, h_running⟩ := h.open_route h_open
        refine ⟨?_, h_running⟩
        rw [h_routes, Function.update_of_ne, h_route]
        rintro rfl
        exact hc (h_guard.1 c' c rfl h_route)

/-- A packet is sent by its own label. -/
theorem send_of_mem {c : ConnId} {l : RelayLabel} {p : RelayPacket} (hp : p ∈ sentBy c [l]) :
    ∃ p', l = .conn c (.send p') ∧ p = p' := by
  cases l with
  | conn c' a =>
    by_cases hc : c' = c
    · subst hc
      rw [sentBy, logOf_conn_self] at hp
      cases a with
      | send p' => exact ⟨p', rfl, List.mem_singleton.mp hp⟩
      | _ => cases hp
    · rw [sentBy, logOf_conn_of_ne _ _ hc] at hp
      cases hp
  | _ => cases hp

/-- Where a condition on the steps lets clients send only packets that fit a frame, all they have
sent fits. -/
theorem fits_of_restrict {P : Relay → RelayLabel → Prop}
    (h_sends : ∀ s l, P s l → ∀ c p, l = .conn c (.send p) → p.Fits) {s₀ s : Relay}
    {ls : List RelayLabel} (h_run : Exec (relay.restrict P) s₀ ls s) : SendsFit ls := by
  refine h_run.induct (fun ls _ => SendsFit ls) (fun c p hp => by simp [logOf] at hp) ?_
  rintro ls s l t _ ih ⟨-, hl⟩ c p hp
  simp only [logOf_append, List.mem_append] at hp
  rcases hp with hp | hp
  · exact ih c p hp
  · obtain ⟨_, rfl, rfl⟩ := send_of_mem hp
    exact h_sends s _ hl c p rfl

theorem fits_of_guarded {s₀ s : Relay} {ls : List RelayLabel}
    (h_run : Exec (relay.restrict Relay.Guarded) s₀ ls s) : SendsFit ls :=
  fits_of_restrict (fun _ _ h_guard => h_guard.2) h_run

/-- **Routes follow the live connection.** In every run in which handlers clean up only their own
entries, the connection that identified last with a key has its route, as long as its client has
it open; and any packet for that key goes to its channel. -/
theorem routes_follow {s₀ s : Relay} {ls : List RelayLabel} {key : RelayKey} {c : ConnId}
    (h_init : s₀.Initial) (h_run : Exec (relay.restrict Relay.Guarded) s₀ ls s)
    (h_latest : Latest ls key c) (h_open : (s.conn c).isOpen) :
    s.routes key = some c ∧ (s.conn c).phase = .running ∧
      ∀ p, p.key = key → s.route (.routing p) = .sending c p.payload := by
  have h_new : ∀ c, (s₀.conn c).Upstream [] [] := by
    intro c
    obtain ⟨key, h_eq⟩ := h_init.2 c
    rw [h_eq]
    exact .new key
  have h_routed : Routed s key c := by
    -- along the run, from the registration on
    refine h_run.induct (fun ls s => SendsFit ls → Latest ls key c → Routed s key c) ?_ ?_
      (fits_of_guarded h_run) h_latest
    · rintro - ⟨pre, post, h_eq, -⟩
      simp at h_eq
    · rintro ls s l t h_pre ih ⟨⟨hl, rfl⟩, h_guard⟩ h_fits h_latest
      rcases h_latest.cases with rfl | ⟨h_latest, h_other⟩
      · -- it has just identified
        have h_conn : (s.after (.register c key)).conn c
            = { s.conn c with phase := .running, identity := key, up := (s.conn c).up.drop 32 } :=
          Function.update_self ..
        refine ⟨?_, ?_, fun _ => ⟨Function.update_self .., ?_⟩⟩
        all_goals rw [h_conn]
        trivial
      · -- the RX loop has not failed, since the stream is intact
        have h_up := upstream_of_exec h_new h_pre.of_restrict h_fits.split.1 c
        exact (ih h_fits.split.1 h_latest).step hl h_guard h_up.ne_failed h_other
  obtain ⟨h_route, h_running⟩ := h_routed.open_route h_open
  refine ⟨h_route, h_running, ?_⟩
  rintro p rfl
  rw [Relay.route, h_route]

/-! ### Two runs of the relay -/

/-- No connections yet, and all clients of one identity. -/
def idleRelay : Relay where
  routes _ := none
  conn _ := .new .zero

theorem idleRelay_initial : idleRelay.Initial := ⟨rfl, fun _ => ⟨.zero, rfl⟩⟩

/-- The connection `c` is made and identifies. -/
def identify (c : ConnId) : List RelayLabel :=
  [.conn c .connect, .conn c (.flush 32), .register c .zero]

/-- Identifying leaves all RX loops alone. -/
theorem rx_identify (s : Relay) (c a : ConnId) :
    (((identify c).foldl Relay.after s).conn a).rx = (s.conn a).rx := by
  simp only [identify, List.foldl_cons, List.foldl_nil, Relay.after]
  refine (Relay.modify_apply RelayConn.rx _ c a ?_).trans
    ((Relay.modify_apply RelayConn.rx _ c a ?_).trans (Relay.modify_apply RelayConn.rx s c a ?_))
  all_goals exact fun _ => rfl

/-- A connection that has identified has its route. -/
theorem routes_follow_identified :
    ((identify 0).foldl Relay.after idleRelay).routes .zero = some 0 := by
  have h_run : Exec (relay.restrict Relay.Guarded) idleRelay (identify 0)
      ((identify 0).foldl Relay.after idleRelay) := by
    refine .head ⟨⟨rfl, rfl⟩, nofun, nofun⟩ (.head ⟨⟨?_, rfl⟩, nofun, nofun⟩
      (.single ⟨⟨?_, rfl⟩, nofun, nofun⟩))
    · exact ⟨rfl, by decide, by decide⟩
    · exact ⟨rfl, by decide, by decide⟩
  exact (routes_follow idleRelay_initial h_run ⟨[_, _], [], rfl, by simp⟩ rfl).1

/-- A client identifies again while its older connection is open, and the older handler ends. -/
def replacement : List RelayLabel := identify 0 ++ identify 1 ++ [.txEnd 0, .cleanup 0]

/-- Without the condition on the run a replacement loses the route of the new connection. -/
theorem route_lost_by_replacement :
    let s := replacement.foldl Relay.after idleRelay
    idleRelay.Initial ∧ Exec relay idleRelay replacement s ∧ SendsFit replacement ∧
      Latest replacement .zero 1 ∧ (s.conn 1).isOpen ∧ s.routes .zero = none := by
  refine ⟨idleRelay_initial, Relay.exec_of_plays ?_, ?_, ?_, rfl, ?_⟩
  · refine ⟨rfl, ⟨rfl, by decide, by decide⟩, ⟨rfl, by decide, by decide⟩, rfl,
      ⟨rfl, by decide, by decide⟩, ⟨rfl, by decide, by decide⟩, ⟨rfl, ?_⟩, rfl, trivial⟩
    -- no sender of the older channel is left
    refine Or.inl ⟨rfl, rfl, ?_⟩
    rintro (⟨key, h_route⟩ | ⟨a, payload, -, h_rx⟩)
    · by_cases h_key : key = .zero
      · subst h_key
        cases h_route
      · have h_routes : ((identify 0 ++ identify 1).foldl Relay.after idleRelay).routes
            = Function.update (Function.update (fun _ => none) .zero (some 0)) .zero (some 1) := rfl
        have h_route : ((identify 0 ++ identify 1).foldl Relay.after idleRelay).routes key
            = some 0 := h_route
        rw [h_routes, Function.update_of_ne h_key, Function.update_of_ne h_key] at h_route
        cases h_route
    · have h_idle := (rx_identify ((identify 0).foldl Relay.after idleRelay) 1 a).trans
        (rx_identify idleRelay 0 a)
      cases h_idle.symm.trans h_rx
  · -- nothing is sent
    have h_none : ∀ c, sentBy c replacement = [] := by
      intro c
      simp [replacement, identify, logOf, ConnAction.sent]
    intro c p hp
    rw [h_none] at hp
    cases hp
  · refine ⟨identify 0 ++ [.conn 1 .connect, .conn 1 (.flush 32)], [.txEnd 0, .cleanup 0], rfl, ?_⟩
    simp
  · decide +kernel

end AraxMesh
