import AraxMesh.Daemon

/-!
# A symbolic Noise library

`symbolic : Snow` is a library whose messages spell out what the real ones only commit to: an
initiation names both static keys and the initiator's ephemeral, a response both static keys and
both ephemerals, a ciphertext ends in a tag that names the session, the direction and the nonce.
There is no secrecy in it, but the laws assumed of the library hold of it, so the assumptions are
consistent; and it computes, so that runs of the daemon can be evaluated.

A static key is 32 copies of one byte, the same for the private and the public key.
-/

namespace AraxMesh

open BigEndian LTS

namespace Symbolic

/-- A handshake, by how far it has come. -/
inductive Handshake
  /-- An initiator of `a` towards `b`, before its message. -/
  | initiator (a b : UInt8)
  /-- It has sent the ephemeral `e`. -/
  | pending (a b : UInt8) (e : UInt16)
  | responder (b : UInt8)
  /-- A responder that has read an initiation of `a` with the ephemeral `e`. -/
  | asked (a b : UInt8) (e : UInt16)
  | finished (initiator : Bool) (a b : UInt8) (e f : UInt16)
deriving DecidableEq, Repr

/-- One end of a session. -/
@[ext]
structure Transport where
  initiator : Bool
  a : UInt8
  b : UInt8
  e : UInt16
  f : UInt16
deriving DecidableEq, Repr

/-- The other end. -/
def Transport.flip (t : Transport) : Transport := { t with initiator := !t.initiator }

/-- The key of a node. -/
def key (a : UInt8) : Bytes := List.replicate 32 a

/-- The node a key belongs to. -/
def owner (k : Bytes) : Option UInt8 :=
  match k with
  | a :: _ => if k = key a then some a else none
  | [] => none

def initiation (a b : UInt8) (e : UInt16) : Bytes :=
  [a, b] ++ toBE 2 e.toNat ++ List.replicate 92 0

def response (a b : UInt8) (e f : UInt16) : Bytes :=
  [a, b] ++ toBE 2 e.toNat ++ toBE 2 f.toNat ++ List.replicate 42 0

/-- The tag of what the end `t` sends under nonce `n`. -/
def tag (t : Transport) (n : UInt64) : Bytes :=
  [if t.initiator then 1 else 0, t.a, t.b] ++ toBE 2 t.e.toNat ++ toBE 2 t.f.toNat ++
    toBE 8 n.toNat ++ [0]

/-- Read a message: a pending initiator its response, a responder an initiation. -/
def readHandshake (h : Handshake) (m : Bytes) : Bool × Handshake :=
  match h with
  | .pending a b e =>
    let f := UInt16.ofNat (fromBE ((m.drop 4).take 2))
    if m = response a b e f then (true, .finished true a b e f) else (false, h)
  | .responder b =>
    let a := m.getD 0 0
    let e := UInt16.ofNat (fromBE ((m.drop 2).take 2))
    if m = initiation a b e then (true, .asked a b e) else (false, h)
  | _ => (false, h)

end Symbolic

open Symbolic in
/-- The symbolic library. -/
def symbolic : Snow where
  Eph := UInt16
  HandshakeState := Handshake
  Transport := Transport
  buildInitiator localPriv remotePub := do
    let a ← owner localPriv
    let b ← owner remotePub
    return .initiator a b
  buildResponder localPriv := (owner localPriv).map .responder
  writeHandshake
    | .initiator a b, e => some (initiation a b e, .pending a b e)
    | .asked a b e, f => some (response a b e f, .finished false a b e f)
    | _, _ => none
  readHandshake := readHandshake
  getRemoteStatic
    | .asked a _ _ => some (key a)
    | .initiator _ b => some (key b)
    | .pending _ b _ => some (key b)
    | .finished true _ b _ _ => some (key b)
    | .finished false a _ _ _ => some (key a)
    | .responder _ => none
  intoTransport
    | .finished i a b e f => some ⟨i, a, b, e, f⟩
    | _ => none
  writeMessage t n plaintext := some (plaintext ++ tag t n)
  readMessage t n ciphertext :=
    if 16 ≤ ciphertext.length ∧ ciphertext.drop (ciphertext.length - 16) = tag t.flip n then
      some (ciphertext.take (ciphertext.length - 16))
    else none

instance : DecidableEq symbolic.Transport := inferInstanceAs (DecidableEq Symbolic.Transport)

instance : DecidableEq symbolic.HandshakeState := inferInstanceAs (DecidableEq Symbolic.Handshake)

instance : DecidableEq (Sealed symbolic) := fun c c' =>
  decidable_of_iff (c.packet = c'.packet ∧ c.state = c'.state ∧ c.nonce = c'.nonce)
    (by cases c; cases c'; simp)

instance : DecidableEq (Opened symbolic) := fun o o' =>
  decidable_of_iff (o.plaintext = o'.plaintext ∧ o.state = o'.state ∧ o.nonce = o'.nonce)
    (by cases o; cases o'; simp)

namespace Symbolic

theorem toBE_uInt16_inj {e e' : UInt16} (h : toBE 2 e.toNat = toBE 2 e'.toNat) : e = e' :=
  UInt16.toNat_inj.mp (toBE_inj e.toNat_lt e'.toNat_lt h)

/-- What a handshake reads. -/
theorem readHandshake_cases (h : Handshake) (m : Bytes) :
    readHandshake h m = (false, h) ∨
    (∃ a b e f, h = .pending a b e ∧ m = response a b e f ∧
      readHandshake h m = (true, .finished true a b e f)) ∨
    ∃ a b e, h = .responder b ∧ m = initiation a b e ∧
      readHandshake h m = (true, .asked a b e) := by
  cases h with
  | pending a b e =>
    by_cases hm : m = response a b e (UInt16.ofNat (fromBE ((m.drop 4).take 2)))
    · exact Or.inr (Or.inl ⟨a, b, e, _, rfl, hm, if_pos hm⟩)
    · exact Or.inl (if_neg hm)
  | responder b =>
    by_cases hm : m = initiation (m.getD 0 0) b (UInt16.ofNat (fromBE ((m.drop 2).take 2)))
    · exact Or.inr (Or.inr ⟨_, b, _, rfl, hm, if_pos hm⟩)
    · exact Or.inl (if_neg hm)
  | initiator | asked | finished => exact Or.inl rfl

/-- A failed read leaves the handshake as it was. -/
theorem restores : symbolic.Restores := by
  intro h m hr
  change (readHandshake h m).1 = false at hr
  change (readHandshake h m).2 = h
  rcases readHandshake_cases h m with heq | ⟨_, _, _, _, -, -, heq⟩ | ⟨_, _, _, -, -, heq⟩
  · rw [heq]
  · rw [heq] at hr
    cases hr
  · rw [heq] at hr
    cases hr

theorem response_inj {a b a' b' : UInt8} {e f e' f' : UInt16}
    (h : response a b e f = response a' b' e' f') : a = a' ∧ b = b' ∧ e = e' := by
  simp only [response, List.cons_append, List.nil_append, List.append_assoc, List.cons.injEq] at h
  obtain ⟨ha, hb, h⟩ := h
  exact ⟨ha, hb, toBE_uInt16_inj (List.append_inj h (by simp)).1⟩

theorem initiation_inj {a b a' b' : UInt8} {e e' : UInt16}
    (h : initiation a b e = initiation a' b' e') : a = a' ∧ b = b' ∧ e = e' := by
  simp only [initiation, List.cons_append, List.nil_append, List.cons.injEq] at h
  obtain ⟨ha, hb, h⟩ := h
  exact ⟨ha, hb, toBE_uInt16_inj (List.append_inj h (by simp)).1⟩

theorem length_response (a b : UInt8) (e f : UInt16) : (response a b e f).length = 48 := by
  simp [response]

theorem length_initiation (a b : UInt8) (e : UInt16) : (initiation a b e).length = 96 := by
  simp [initiation]

/-- A response names its exchange, and an initiation its addressee. -/
theorem responseBinds : symbolic.ResponseBinds := by
  have h_ne : ∀ {a b a' b' : UInt8} {e f e' : UInt16}, response a b e f ≠ initiation a' b' e' := by
    intro a b a' b' e f e' h
    have := congrArg List.length h
    rw [length_response, length_initiation] at this
    omega
  have h_read : ∀ {h : Handshake} {m : Bytes}, (readHandshake h m).1 = true →
      (∃ a b e f, h = .pending a b e ∧ m = response a b e f) ∨
      ∃ a b e, h = .responder b ∧ m = initiation a b e := by
    intro h m hr
    rcases readHandshake_cases h m with heq | ⟨a, b, e, f, hh, hm, -⟩ | ⟨a, b, e, hh, hm, -⟩
    · rw [heq] at hr
      cases hr
    · exact Or.inl ⟨a, b, e, f, hh, hm⟩
    · exact Or.inr ⟨a, b, e, hh, hm⟩
  intro h h' m hr hr'
  -- a response is no initiation, and either names all that its reader knows
  rcases h_read hr with ⟨a, b, e, f, rfl, rfl⟩ | ⟨a, b, e, rfl, rfl⟩ <;>
    rcases h_read hr' with ⟨a', b', e', f', rfl, hm⟩ | ⟨a', b', e', rfl, hm⟩
  · obtain ⟨rfl, rfl, rfl⟩ := response_inj hm
    rfl
  · exact absurd hm h_ne
  · exact absurd hm.symm h_ne
  · obtain ⟨-, rfl, -⟩ := initiation_inj hm
    rfl

theorem length_tag (t : Transport) (n : UInt64) : (tag t n).length = 16 := by
  simp [tag]

/-- The other end reads what an end writes. -/
theorem readMessage_of_flip {t t' : Transport} (h : t'.flip = t) (n : UInt64) (plaintext : Bytes) :
    symbolic.readMessage t' n (plaintext ++ tag t n) = some plaintext := by
  simp [symbolic, h, length_tag]

theorem tag_inj {t t' : Transport} {n : UInt64} (h : tag t n = tag t' n) : t = t' := by
  obtain ⟨i, a, b, e, f⟩ := t
  obtain ⟨i', a', b', e', f'⟩ := t'
  simp only [tag, List.cons_append, List.nil_append, List.append_assoc, List.cons.injEq] at h
  obtain ⟨hi, rfl, rfl, h⟩ := h
  obtain ⟨he, h⟩ := List.append_inj h (by simp)
  obtain ⟨hf, -⟩ := List.append_inj h (by simp)
  obtain rfl := toBE_uInt16_inj he
  obtain rfl := toBE_uInt16_inj hf
  cases i <;> cases i' <;> simp_all

/-- The tag names the end it was made by. -/
theorem keyCommitting : symbolic.KeyCommitting := by
  have h_tag : ∀ {t : Transport} {n : UInt64} {c : Bytes},
      (symbolic.readMessage t n c).isSome → c.drop (c.length - 16) = tag t.flip n := by
    intro t n c h
    simp only [symbolic] at h
    split_ifs at h with hc
    · exact hc.2
    · cases h
  intro t t' n c hr hr'
  have h := tag_inj ((h_tag hr).symm.trans (h_tag hr'))
  simp only [Transport.flip, Transport.mk.injEq, Bool.not_inj_iff] at h
  exact Transport.ext h.1 h.2.1 h.2.2.1 h.2.2.2.1 h.2.2.2.2

end Symbolic

/-! ### Evaluating runs -/

section Evaluation

variable {S : Snow}

/-- The labels of a run through the given turns, and the table it ends with. -/
def PeerManager.runTasks (pm : PeerManager S) (hasRelay : Bool) :
    List (Instant × DaemonTask S) → List (DaemonLabel S) × PeerManager S
  | [] => ([], pm)
  | (now, task) :: rest =>
    let (es, pm) := pm.step hasRelay now task
    let (ls, pm) := pm.runTasks hasRelay rest
    (⟨now, task, es⟩ :: ls, pm)

theorem PeerManager.exec_runTasks (pm : PeerManager S) (hasRelay : Bool)
    (tasks : List (Instant × DaemonTask S)) :
    Exec (daemon S hasRelay) pm (pm.runTasks hasRelay tasks).1 (pm.runTasks hasRelay tasks).2 := by
  induction tasks generalizing pm with
  | nil => exact Exec.refl
  | cons t rest ih => exact Exec.head rfl (ih _)

end Evaluation
/-! ### A node to evaluate -/

namespace Symbolic

/-- The address of the one peer of `node`. -/
def peerAddr : SocketAddr := .v4 (Ipv4Addr.ofOctets 10 0 0 2) 500

/-- What the peer of `node` is configured as. -/
def peerSpec : ParsedPeer where
  pubkey := key 9
  endpoint := some peerAddr
  allowedIps := [⟨Ipv4Addr.ofOctets 10 0 99 0, 24⟩]

/-- Node `7`, with node `9` as its only peer. -/
def node : PeerManager symbolic :=
  PeerManager.new (key 7)
    [Peer.new peerSpec.pubkey peerSpec.endpoint peerSpec.allowedIps 0] MagicConfig.default

/-- The specification of the peer of `node`. -/
def peerText : Str := (List.replicate 32 ['0', '9']).flatten ++ ";10.0.0.2:500;10.0.99.0/24".toList

theorem parsePeerArg_peerText : parsePeerArg peerText = some peerSpec := by decide +kernel

/-- A table of the one peer, whatever the library and the packet types, is one to start with. -/
theorem initial_of_peerSpec {S : Snow} (localPriv : Bytes) (magic : MagicConfig) :
    (PeerManager.new localPriv [Peer.new peerSpec.pubkey peerSpec.endpoint peerSpec.allowedIps 0]
      magic : PeerManager S).Initial := by
  refine ⟨localPriv, [peerSpec], magic, 0, ?_, rfl⟩
  intro w hw
  obtain rfl := List.mem_singleton.mp hw
  exact ⟨peerText, parsePeerArg_peerText⟩

theorem node_initial : node.Initial := initial_of_peerSpec (key 7) MagicConfig.default

/-- Draw an ephemeral, and no padding. -/
def draw (e : UInt16) : Draw symbolic := ⟨e, ⟨[], by decide⟩, ⟨[], by decide⟩⟩

/-- The peer's initiation with the ephemeral `e`, as a datagram. -/
def initiationPacket (e : UInt16) : Bytes :=
  MagicConfig.default.handshakeInit :: initiation 9 7 e

/-- An IPv4 packet within the peer's subnet, of nothing but its header. -/
def ipv4Packet : Bytes :=
  [0x45, 0, 0, 20] ++ List.replicate 8 0 ++ [10, 0, 99, 3] ++ [10, 0, 99, 3]

/-- What the other end of the session sends. -/
def dataPacket (t : Transport) (n : UInt64) (plaintext : Bytes) : Bytes :=
  MagicConfig.default.data :: (toBE 8 n.toNat ++ (plaintext ++ tag t.flip n))

/-- The session of `node` after it answered `initiationPacket e` with the ephemeral `f`. -/
def nodeEnd (e f : UInt16) : symbolic.Transport := Transport.mk false 9 7 e f

end Symbolic
end AraxMesh
