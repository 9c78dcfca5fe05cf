import AraxMesh.Coordinatord
import AraxMesh.Display
import AraxMesh.Lib.RateLimit

/-!
# The coordinator's HTTP service

The handlers of `coordinatord.rs` over the registry: `register`, `poll` and `network`, with the
pre-auth key and the rate limiter. A `register` handler takes two locks, first that of the limiter
and later that of the registry, and any other handler may run in between; one that is between its
locks is in `waiting`. The clock is part of the label and not assumed to be monotone.

* `Service.core_of_exec` — what the handlers do under the lock of the registry is a history of
  `coordinatord`;
* `Service.Guarded` — the limiter and the handlers in flight agree with what was admitted in this
  lifetime, in every state of a run (`guarded_of_exec`).

Requests arrive parsed: a body that is not the JSON of a request never reaches a handler.
-/

namespace AraxMesh

open LTS RateLimit

/-- `RegisterRequest`. -/
structure RegisterRequest where
  publicKey : Str
  authKey : Str
  endpoint : Str
  hostname : Option Str
deriving DecidableEq

/-- `RegisterResponse`. -/
structure RegisterResponse where
  assignedIp : Str
  peers : List PeerDescriptor
  observedEndpoint : Option Str
deriving DecidableEq

/-- `PollRequest`. -/
structure PollRequest where
  publicKey : Str
  authKey : Str
  endpoint : Str
deriving DecidableEq

/-- `PollResponse`. -/
structure PollResponse where
  peers : List PeerDescriptor
deriving DecidableEq

/-- The status codes the handlers refuse a request with. -/
inductive StatusCode
  | unauthorized
  | tooManyRequests
  | conflict
  | notFound
deriving DecidableEq

/-- The status and the text of a refused request. -/
abbrev Refusal := StatusCode × Str

/-- A client may register once in five seconds. -/
def registerGap : ℕ := 5000000000

def checkAuth (authKey presented : Str) : Except Refusal Unit :=
  if presented = authKey then .ok () else .error (.unauthorized, "invalid auth key".toList)

/-- `register` up to the lock of the registry. The slot of the client's address is taken before the
key is looked at. -/
def RegisterRequest.vet (req : RegisterRequest) (authKey : Str) (limits : Slots IpAddr)
    (client : SocketAddr) (now : Instant) : Except Refusal Unit × Slots IpAddr :=
  let (ready, limits) := offer registerGap limits client.ip now
  if ready then (checkAuth authKey req.authKey, limits)
  else (.error (.tooManyRequests, "Rate limit exceeded. Wait 5 seconds.".toList), limits)

/-- What `register` asks of the registry. -/
def RegisterRequest.call (req : RegisterRequest) (client : SocketAddr) : RegistryCall :=
  .register req.publicKey req.endpoint req.hostname (some client.display)

/-- What `poll` asks of the registry. -/
def PollRequest.call (req : PollRequest) (client : SocketAddr) : RegistryCall :=
  .poll req.publicKey req.endpoint (some client.display)

/-- What `register` replies. -/
def registerReply (result : Except Str (Str × Option Str)) (peers : List PeerDescriptor) :
    Except Refusal RegisterResponse :=
  match result with
  | .error err => .error (.conflict, err)
  | .ok (assignedIp, observedEndpoint) => .ok { assignedIp, peers, observedEndpoint }

/-- What `poll` replies. -/
def pollReply (result : Except Str Unit) (peers : List PeerDescriptor) :
    Except Refusal PollResponse :=
  match result with
  | .error err => .error (.notFound, err)
  | .ok () => .ok { peers }

/-! ### The service as a system -/

/-- `AppState` over the running coordinator, and the `register` handlers between their locks. -/
structure Service where
  core : Coordinatord
  authKey : Str
  rateLimits : Slots IpAddr
  waiting : List (SocketAddr × RegisterRequest)

inductive ServiceLabel
  | start (args : Args) (authKey : Str)
  /-- The first half of a `register` handler; the reply is the final one if it is a refusal. -/
  | vet (client : SocketAddr) (req : RegisterRequest) (now : Instant)
      (reply : Except Refusal Unit)
  /-- The second half, with what came of the write it may have made. -/
  | register (client : SocketAddr) (req : RegisterRequest) (written : Except Str Unit)
      (reply : Except Refusal RegisterResponse)
  | poll (client : SocketAddr) (req : PollRequest) (written : Except Str Unit)
      (reply : Except Refusal PollResponse)
  /-- A poll with the wrong key. -/
  | pollRefused (client : SocketAddr) (req : PollRequest) (refusal : Refusal)
  | network (view : List NodeRecord)

namespace ServiceLabel

/-- What the label does under the lock of the registry: the peers are looked up after the call
succeeded. -/
def calls : ServiceLabel → List CoordinatordLabel
  | .start args _ => [.start args]
  | .vet .. => []
  | .register client req written (.error refusal) =>
    [.call (req.call client) written (.register (.error refusal.2))]
  | .register client req written (.ok resp) =>
    [.call (req.call client) written (.register (.ok (resp.assignedIp, resp.observedEndpoint))),
      .peersFor req.publicKey resp.peers]
  | .poll client req written (.error refusal) =>
    [.call (req.call client) written (.poll (.error refusal.2))]
  | .poll client req written (.ok resp) =>
    [.call (req.call client) written (.poll (.ok ())), .peersFor req.publicKey resp.peers]
  | .pollRefused .. => []
  | .network view => [.networkView view]

/-- The status of a refusal. -/
def status {α : Type} : Except Refusal α → Option StatusCode
  | .error refusal => some refusal.1
  | .ok _ => none

/-- The status the request is refused with. -/
def refusedWith : ServiceLabel → Option StatusCode
  | .start .. => none
  | .vet _ _ _ reply => status reply
  | .register _ _ _ reply => status reply
  | .poll _ _ _ reply => status reply
  | .pollRefused _ _ refusal => some refusal.1
  | .network _ => none

/-- The pre-auth key in the request. -/
def presented : ServiceLabel → Option Str
  | .vet _ req _ _ => some req.authKey
  | .register _ req _ _ => some req.authKey
  | .poll _ req _ _ => some req.authKey
  | .pollRefused _ req _ => some req.authKey
  | .start .. => none
  | .network _ => none

end ServiceLabel

namespace Service

inductive Step (serde : Serde) (s : Service) : ServiceLabel → Service → Prop
  /-- `main` sets up new tables; handlers of an earlier process are gone. -/
  | start {args : Args} {authKey : Str} {core : Coordinatord}
      (h : s.core.Step serde (.start args) core) :
      Step serde s (.start args authKey) ⟨core, authKey, fun _ => none, []⟩
  | refused {client : SocketAddr} {req : RegisterRequest} {now : Instant} {refusal : Refusal}
      (h_running : s.core.registry.isSome)
      (h : (req.vet s.authKey s.rateLimits client now).1 = .error refusal) :
      Step serde s (.vet client req now (.error refusal))
        { s with rateLimits := (req.vet s.authKey s.rateLimits client now).2 }
  | admitted {client : SocketAddr} {req : RegisterRequest} {now : Instant}
      (h_running : s.core.registry.isSome)
      (h : (req.vet s.authKey s.rateLimits client now).1 = .ok ()) :
      Step serde s (.vet client req now (.ok ()))
        { s with
          rateLimits := (req.vet s.authKey s.rateLimits client now).2
          waiting := s.waiting ++ [(client, req)] }
  | register {client : SocketAddr} {req : RegisterRequest} {before after} {written result peers}
      {core : Coordinatord} (h_waiting : s.waiting = before ++ (client, req) :: after)
      (h : s.core.Step serde (.call (req.call client) written (.register result)) core)
      (h_peers : ∀ v, result = .ok v → core.Step serde (.peersFor req.publicKey peers) core) :
      Step serde s (.register client req written (registerReply result peers))
        { s with core := core, waiting := before ++ after }
  | poll {client : SocketAddr} {req : PollRequest} {written result peers} {core : Coordinatord}
      (h_key : checkAuth s.authKey req.authKey = .ok ())
      (h : s.core.Step serde (.call (req.call client) written (.poll result)) core)
      (h_peers : result = .ok () → core.Step serde (.peersFor req.publicKey peers) core) :
      Step serde s (.poll client req written (pollReply result peers)) { s with core := core }
  | pollRefused {client : SocketAddr} {req : PollRequest} {refusal : Refusal}
      (h_running : s.core.registry.isSome)
      (h_key : checkAuth s.authKey req.authKey = .error refusal) :
      Step serde s (.pollRefused client req refusal) s
  | network {view : List NodeRecord} (h : s.core.Step serde (.networkView view) s.core) :
      Step serde s (.network view) s

end Service

/-- All interleavings of the handlers, over any number of lifetimes of the process. -/
def service (serde : Serde) : System Service ServiceLabel where
  init s := s.core.registry = none ∧ s.waiting = [] ∧ s.rateLimits = fun _ => none
  step s l s' := s.Step serde l s'

/-! ### The history of the registry -/

namespace Service

variable {serde : Serde} {s s' : Service} {l : ServiceLabel} {ls : List ServiceLabel}

/-- What a step does to the coordinator. -/
theorem Step.core (h : s.Step serde l s') : Exec (coordinatord serde) s.core l.calls s'.core := by
  cases h with
  | start h => exact Exec.single h
  | refused => exact Exec.refl
  | admitted => exact Exec.refl
  | @register _ _ _ _ _ result _ _ _ h h_peers =>
    cases result with
    | error err => exact Exec.single h
    | ok v => exact Exec.head h (Exec.single (h_peers v rfl))
  | @poll _ _ _ result _ _ _ h h_peers =>
    cases result with
    | error err => exact Exec.single h
    | ok v => exact Exec.head h (Exec.single (h_peers rfl))
  | pollRefused => exact Exec.refl
  | network h => exact Exec.single h

/-- **The service refines the coordinator.** -/
theorem core_of_exec {s₀ : Service} (h : Exec (service serde) s₀ ls s) :
    Exec (coordinatord serde) s₀.core (ls.flatMap ServiceLabel.calls) s.core := by
  refine h.induct (fun ls s => Exec (coordinatord serde) s₀.core (ls.flatMap _) s.core)
    Exec.refl ?_
  intro pre t l u _ ih hl
  rw [List.flatMap_append, List.flatMap_singleton]
  exact ih.append (Step.core hl)

end Service

/-! ### What was admitted -/

/-- What became of the `register` requests of one lifetime. -/
structure Lifetime where
  /-- The requests the limiter let through. -/
  passes : List (Pass IpAddr)
  /-- Those of them with the right key. -/
  admitted : List (SocketAddr × RegisterRequest)
  registered : List (SocketAddr × RegisterRequest)

namespace Lifetime

def empty : Lifetime := ⟨[], [], []⟩

def note (h : Lifetime) : ServiceLabel → Lifetime
  | .start .. => empty
  | .vet client req now reply =>
    { h with
      passes := h.passes ++
        if ServiceLabel.status reply = some .tooManyRequests then [] else [(client.ip, now)]
      admitted := h.admitted ++
        if ServiceLabel.status reply = none then [(client, req)] else [] }
  | .register client req _ _ => { h with registered := h.registered ++ [(client, req)] }
  | .poll .. => h
  | .pollRefused .. => h
  | .network _ => h

/-- The lifetime a history ends in. -/
def of (ls : List ServiceLabel) : Lifetime := ls.foldl note empty

theorem of_append (ls : List ServiceLabel) (l : ServiceLabel) : of (ls ++ [l]) = (of ls).note l := by
  rw [of, List.foldl_append, List.foldl_cons, List.foldl_nil, of]

end Lifetime

theorem checkAuth_eq_ok {authKey presented : Str} :
    checkAuth authKey presented = .ok () ↔ presented = authKey := by
  unfold checkAuth
  split_ifs with h
  · exact iff_of_true rfl h
  · exact iff_of_false nofun h

/-- What the first half of `register` can come to. -/
theorem RegisterRequest.admit_cases (req : RegisterRequest) (authKey : Str)
    (limits : Slots IpAddr) (client : SocketAddr) (now : Instant) :
    (¬ Ready registerGap limits client.ip now ∧ (req.vet authKey limits client now).2 = limits ∧
      ServiceLabel.status (req.vet authKey limits client now).1 = some .tooManyRequests) ∨
    (Ready registerGap limits client.ip now ∧
      (req.vet authKey limits client now).2 = take limits client.ip now ∧
      (req.authKey = authKey ∧ (req.vet authKey limits client now).1 = .ok () ∨
        req.authKey ≠ authKey ∧
          ServiceLabel.status (req.vet authKey limits client now).1 = some .unauthorized)) := by
  unfold vet
  by_cases h_ready : Ready registerGap limits client.ip now
  · refine Or.inr ⟨h_ready, ?_, ?_⟩
    · rw [offer_of_ready h_ready]
      rfl
    · rw [offer_of_ready h_ready]
      by_cases h_key : req.authKey = authKey
      · exact Or.inl ⟨h_key, if_pos h_key⟩
      · refine Or.inr ⟨h_key, ?_⟩
        simp only [if_true, checkAuth, if_neg h_key]
        rfl
  · rw [offer_of_not_ready h_ready]
    exact Or.inl ⟨h_ready, rfl, rfl⟩

namespace Service

/-- The state agrees with what became of the requests of this lifetime. -/
structure Guarded (s : Service) (h : Lifetime) : Prop where
  follows : Follows registerGap s.rateLimits h.passes
  /-- Only requests with the key wait. -/
  keyed : ∀ w ∈ s.waiting, w.2.authKey = s.authKey
  /-- No admitted request is lost, or handed to the registry twice. -/
  conserved : (h.registered ++ s.waiting).Perm h.admitted
  /-- The requests that were admitted were let through by the limiter, one for one. -/
  admitted : (h.admitted.map fun w => w.1.ip).Sublist (h.passes.map Prod.fst)

variable {serde : Serde} {s s' : Service} {l : ServiceLabel} {ls : List ServiceLabel}

theorem Guarded.empty (core : Coordinatord) (authKey : Str) :
    Guarded ⟨core, authKey, fun _ => none, []⟩ Lifetime.empty where
  follows := Follows.empty
  keyed _ hw := absurd hw List.not_mem_nil
  conserved := List.Perm.refl _
  admitted := List.Sublist.refl _

theorem Guarded.step {h : Lifetime} (hg : s.Guarded h) (h_step : s.Step serde l s') :
    s'.Guarded (h.note l) := by
  cases h_step with
  | start => exact Guarded.empty _ _
  | @refused client req now refusal h_running h_reply =>
    have h_cases := req.admit_cases s.authKey s.rateLimits client now
    rw [h_reply] at h_cases
    obtain ⟨-, h_limits, h_status⟩ | ⟨h_ready, h_limits, h_key⟩ := h_cases
    · -- turned away by the limiter: nothing changes
      simp only [Lifetime.note, h_status, if_true, reduceCtorEq, if_false, List.append_nil,
        h_limits]
      exact hg
    · -- the slot is taken, although the key is wrong
      obtain ⟨-, h_ok⟩ | ⟨-, h_status⟩ := h_key
      · cases h_ok
      · simp only [Lifetime.note, h_status, Option.some.injEq, reduceCtorEq, if_false,
          List.append_nil, h_limits]
        refine ⟨hg.follows.take (by decide) h_ready, hg.keyed, hg.conserved, ?_⟩
        rw [List.map_append]
        exact hg.admitted.trans (List.sublist_append_left _ _)
  | @admitted client req now h_running h_reply =>
    have h_cases := req.admit_cases s.authKey s.rateLimits client now
    rw [h_reply] at h_cases
    obtain ⟨-, -, h_status⟩ | ⟨h_ready, h_limits, h_key⟩ := h_cases
    · cases h_status
    · obtain ⟨h_key, -⟩ | ⟨-, h_status⟩ := h_key
      · simp only [Lifetime.note, ServiceLabel.status, reduceCtorEq, if_false, if_true, h_limits]
        -- the request joins the waiting ones, and the pass is noted
        refine ⟨hg.follows.take (by decide) h_ready, ?_, ?_, ?_⟩
        · intro w hw
          rcases List.mem_append.mp hw with hw | hw
          · exact hg.keyed w hw
          · obtain rfl := List.mem_singleton.mp hw
            exact h_key
        · rw [← List.append_assoc]
          exact hg.conserved.append_right _
        · rw [List.map_append, List.map_append]
          exact hg.admitted.append (List.Sublist.refl _)
      · cases h_status
  | @register client req before after written result peers core h_waiting h h_peers =>
    refine ⟨hg.follows, ?_, ?_, hg.admitted⟩
    · intro w hw
      refine hg.keyed w ?_
      rw [h_waiting]
      rcases List.mem_append.mp hw with hw | hw
      · exact List.mem_append_left _ hw
      · exact List.mem_append_right _ (List.mem_cons_of_mem _ hw)
    · -- the request moves from the waiting ones to those the registry has had
      have h_conserved := hg.conserved
      rw [h_waiting] at h_conserved
      refine List.Perm.trans ?_ h_conserved
      change (_ ++ [(client, req)] ++ (before ++ after)).Perm _
      rw [List.append_assoc]
      exact List.Perm.append_left _
        (show ((client, req) :: (before ++ after)).Perm _ from List.perm_middle.symm)
  | poll => exact ⟨hg.follows, hg.keyed, hg.conserved, hg.admitted⟩
  | pollRefused => exact hg
  | network => exact hg

theorem guarded_of_exec {s₀ : Service} (h_init : (service serde).init s₀)
    (h : Exec (service serde) s₀ ls s) : s.Guarded (Lifetime.of ls) := by
  obtain ⟨-, h_waiting, h_limits⟩ := h_init
  refine h.induct (fun ls s => s.Guarded (Lifetime.of ls)) ?_ ?_
  · have h_empty := Guarded.empty s₀.core s₀.authKey
    rwa [← h_waiting, ← h_limits] at h_empty
  · intro pre t l u _ ih hl
    rw [Lifetime.of_append]
    exact ih.step hl

/-! ### The rate of registrations -/

/-- **The rate limiter.** In every run of the service, whatever the handlers interleave with:

* a registration is turned away by the limiter exactly if one from the same address was let through
  less than five seconds before in this lifetime, with the right key or not;
* in no window of time does the limiter let more registrations of one address through than one in
  five seconds;
* every request it lets through with the right key is handed to the registry once, which may still
  refuse it, or waits for the registry. -/
theorem register_rate_limited {s₀ : Service} (h_init : (service serde).init s₀)
    (h_run : Exec (service serde) s₀ ls s) :
    (∀ client req now reply s', (service serde).step s (.vet client req now reply) s' →
      (ServiceLabel.status reply = some .tooManyRequests ↔
        ∃ p ∈ (Lifetime.of ls).passes, p.1 = client.ip ∧ now < p.2 + registerGap)) ∧
    (∀ ip a T, (window (Lifetime.of ls).passes ip a T).length * registerGap < T + registerGap) ∧
    ((Lifetime.of ls).registered ++ s.waiting).Perm (Lifetime.of ls).admitted ∧
    ((Lifetime.of ls).admitted.map fun w => w.1.ip).Sublist
      ((Lifetime.of ls).passes.map Prod.fst) := by
  have hg := guarded_of_exec h_init h_run
  refine ⟨?_, fun ip a T => hg.follows.spaced.length_window (by decide) ip a T, hg.conserved,
    hg.admitted⟩
  intro client req now reply s' h_step
  have h_reply : reply = (req.vet s.authKey s.rateLimits client now).1 := by
    cases h_step with
    | refused _ h => exact h.symm
    | admitted _ h => exact h.symm
  -- the limiter has the last time each address was let through
  have h_limited : ServiceLabel.status reply = some .tooManyRequests ↔
      ¬ Ready registerGap s.rateLimits client.ip now := by
    rw [h_reply]
    rcases req.admit_cases s.authKey s.rateLimits client now with
      ⟨h_not, -, h_status⟩ | ⟨h_ready, -, ⟨-, h_ok⟩ | ⟨-, h_status⟩⟩
    · exact iff_of_true h_status h_not
    · rw [h_ok]
      exact iff_of_false nofun (not_not_intro h_ready)
    · rw [h_status]
      exact iff_of_false (by simp) (not_not_intro h_ready)
  rw [h_limited, hg.follows.ready_iff (by decide)]
  push Not
  rfl

/-! ### The key -/

/-- **Only the key gets to the registry.** In every run of the service the registry and the
state file go through a history of the coordinator, and a request to register or to poll that
presents another key than the one in force leaves the registry, the state file and the handlers
in flight as they were and is refused. `GET /network` presents no key: it is open to everybody,
and only reads. -/
theorem key_guards_registry {s₀ : Service} (h_init : (service serde).init s₀)
    (h_run : Exec (service serde) s₀ ls s) :
    Exec (coordinatord serde) s₀.core (ls.flatMap ServiceLabel.calls) s.core ∧
    ∀ l s' k, (service serde).step s l s' → l.presented = some k → k ≠ s.authKey →
      s'.core = s.core ∧ s'.waiting = s.waiting ∧ l.calls = [] ∧
      (l.refusedWith = some .unauthorized ∨ l.refusedWith = some .tooManyRequests) := by
  refine ⟨core_of_exec h_run, ?_⟩
  intro l s' k h_step h_key h_ne
  have hg := guarded_of_exec h_init h_run
  cases h_step with
  | start => cases h_key
  | @refused client req now refusal _ h_reply =>
    refine ⟨rfl, rfl, rfl, ?_⟩
    have h_cases := req.admit_cases s.authKey s.rateLimits client now
    rw [h_reply] at h_cases
    obtain ⟨-, -, h_status⟩ | ⟨-, -, ⟨-, h_ok⟩ | ⟨-, h_status⟩⟩ := h_cases
    · exact Or.inr h_status
    · cases h_ok
    · exact Or.inl h_status
  | @admitted client req now _ h_reply =>
    -- a request that goes on has the key
    obtain rfl : req.authKey = k := Option.some.inj h_key
    have h_cases := req.admit_cases s.authKey s.rateLimits client now
    rw [h_reply] at h_cases
    obtain ⟨-, -, h_status⟩ | ⟨-, -, ⟨h_eq, -⟩ | ⟨-, h_status⟩⟩ := h_cases
    · cases h_status
    · exact absurd h_eq h_ne
    · cases h_status
  | @register client req _ _ _ _ _ _ h_waiting =>
    obtain rfl : req.authKey = k := Option.some.inj h_key
    refine absurd (hg.keyed (client, req) ?_) h_ne
    rw [h_waiting]
    exact List.mem_append_right _ List.mem_cons_self
  | poll h_auth =>
    exact absurd ((checkAuth_eq_ok.mp h_auth).symm.trans (Option.some.inj h_key)).symm h_ne
  | @pollRefused client req refusal _ h_auth =>
    refine ⟨rfl, rfl, rfl, Or.inl ?_⟩
    unfold checkAuth at h_auth
    split_ifs at h_auth with h
    obtain rfl := Except.error.inj h_auth
    rfl
  | network => cases h_key

end Service

/-! ### A client that shares its address -/

def earlySerde : Serde := Serde.ofFile earlyNodes earlyText

/-- The service before the coordinator is started. -/
def stoppedService : Service := ⟨⟨none, fun _ => none⟩, [], fun _ => none, []⟩

/-- Two nodes behind one address, the first of them without the key. -/
def strangerRequest : RegisterRequest := ⟨['b'], "guess".toList, ['e'], none⟩

def nodeRequest : RegisterRequest := ⟨['a'], "secret".toList, ['e'], none⟩

def sharedAddr : SocketAddr := .v4 0xC0000201 40000

def strangerLabels : List ServiceLabel :=
  [.start earlyArgs "secret".toList,
    .vet sharedAddr strangerRequest 0 (.error (.unauthorized, "invalid auth key".toList))]

/-- The service after the first of them. -/
def strangerService : Service where
  core := ⟨some (earlyRegistry earlyArgs ∅), fun _ => none⟩
  authKey := "secret".toList
  rateLimits := take (fun _ => none) sharedAddr.ip 0
  waiting := []

theorem stranger_exec : Exec (service earlySerde) stoppedService strangerLabels strangerService := by
  have h_start := earlyRegistry_start earlyArgs (fun _ => none) ∅ rfl rfl
  refine Exec.head (Service.Step.start ⟨_, h_start, rfl⟩) (Exec.single ?_)
  exact Service.Step.refused rfl rfl

theorem node_step : (service earlySerde).step strangerService
    (.vet sharedAddr nodeRequest 1000000000
      (.error (.tooManyRequests, "Rate limit exceeded. Wait 5 seconds.".toList)))
    strangerService :=
  Service.Step.refused rfl (by decide +kernel)

/-- The second node is turned away because of the first one, whose key was wrong. -/
theorem register_rate_limited_shared :
    ∃ p ∈ (Lifetime.of strangerLabels).passes, p.1 = sharedAddr.ip ∧
      1000000000 < p.2 + registerGap :=
  ((Service.register_rate_limited ⟨rfl, rfl, rfl⟩ stranger_exec).1 _ _ _ _ _ node_step).mp rfl

/-- The node without the key left no trace in the registry. -/
theorem key_guards_registry_stranger :
    Exec (coordinatord earlySerde) stoppedService.core [.start earlyArgs] strangerService.core :=
  (Service.key_guards_registry ⟨rfl, rfl, rfl⟩ stranger_exec).1

end AraxMesh
