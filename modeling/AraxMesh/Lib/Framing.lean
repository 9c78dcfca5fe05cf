import AraxMesh.Lib.BigEndian

/-!
# Length-prefixed frames over a byte stream

A frame is the length of its body, big-endian in a fixed number of bytes, and the body. A `Format`
says how many bytes the length takes and which lengths a reader accepts.

A reader takes the bytes of a stream in chunks, as they arrive: any chunk that is no longer than
what it still needs for the field it is reading. `Reads` says that what a reader has taken and what
is still to come are exactly the frames of given bodies. `Reads.read` is the main lemma: however
the bytes are split, the reader gives out those bodies, in order and unchanged.
-/

namespace Framing

open BigEndian

/-- A frame format. -/
structure Format where
  width : ℕ
  /-- The lengths a reader accepts. -/
  ok : ℕ → Bool
  width_pos : 0 < width
  pos_of_ok : ∀ n, ok n → 0 < n
  lt_of_ok : ∀ n, ok n → n < 256 ^ width

variable {F : Format}

/-- The frame of a body. -/
def Format.encode (F : Format) (body : List UInt8) : List UInt8 :=
  toBE F.width body.length ++ body

/-- The frames of some bodies, one after the other. -/
def Format.encodeAll (F : Format) (bodies : List (List UInt8)) : List UInt8 :=
  bodies.flatMap F.encode

@[simp] theorem encodeAll_nil : F.encodeAll [] = [] := rfl

@[simp] theorem encodeAll_cons (body : List UInt8) (bodies : List (List UInt8)) :
    F.encodeAll (body :: bodies) = toBE F.width body.length ++ (body ++ F.encodeAll bodies) := by
  simp [Format.encodeAll, Format.encode]

@[simp] theorem encodeAll_append (bodies bodies' : List (List UInt8)) :
    F.encodeAll (bodies ++ bodies') = F.encodeAll bodies ++ F.encodeAll bodies' :=
  List.flatMap_append

/-- How far a reader has come: what it has of a length field, what it has of a body of a known
length, or that it has met a length it does not accept. -/
inductive Reader
  | len (buf : List UInt8)
  | body (n : ℕ) (buf : List UInt8)
  | failed
deriving DecidableEq

namespace Reader

/-- Between two frames. -/
def start : Reader := .len []

/-- How many bytes the field being read still needs. -/
def need (F : Format) : Reader → ℕ
  | .len buf => F.width - buf.length
  | .body n buf => n - buf.length
  | .failed => 0

/-- Take a chunk, and give out the body it completes. -/
def read (F : Format) (r : Reader) (chunk : List UInt8) : Reader × Option (List UInt8) :=
  match r with
  | .len buf =>
    let buf := buf ++ chunk
    if buf.length < F.width then (.len buf, none)
    else if F.ok (fromBE buf) then (.body (fromBE buf) [], none)
    else (.failed, none)
  | .body n buf =>
    let buf := buf ++ chunk
    if buf.length < n then (.body n buf, none) else (.start, some buf)
  | .failed => (.failed, none)

/-- The bytes of the frame being read that the reader has taken. -/
def taken (F : Format) : Reader → List UInt8
  | .len buf => buf
  | .body n buf => toBE F.width n ++ buf
  | .failed => []

/-- Nothing of a field is missing but what is still to come, and the length is acceptable. -/
def Valid (F : Format) : Reader → Prop
  | .len buf => buf.length < F.width
  | .body n buf => F.ok n ∧ buf.length < n
  | .failed => False

theorem valid_start : Valid F .start := F.width_pos

@[simp] theorem taken_start : taken F .start = [] := rfl

end Reader

/-- The reader has come so far, and the bytes are still to come, in reading the frames of these
bodies. -/
structure Reads (F : Format) (r : Reader) (bytes : List UInt8) (bodies : List (List UInt8)) :
    Prop where
  valid : r.Valid F
  ok : ∀ body ∈ bodies, F.ok body.length
  eq : r.taken F ++ bytes = F.encodeAll bodies

namespace Reads

theorem start : Reads F .start [] [] := ⟨Reader.valid_start, by simp, rfl⟩

theorem ne_failed {r : Reader} {bytes : List UInt8} {bodies : List (List UInt8)}
    (h : Reads F r bytes bodies) : r ≠ .failed := by
  rintro rfl
  exact h.valid

/-- A frame is added at the far end of the stream. -/
theorem write {r : Reader} {bytes : List UInt8} {bodies : List (List UInt8)}
    (h : Reads F r bytes bodies) {body : List UInt8} (hb : F.ok body.length) :
    Reads F r (bytes ++ F.encode body) (bodies ++ [body]) where
  valid := h.valid
  ok := by
    intro b h_mem
    rcases List.mem_append.mp h_mem with h_mem | h_mem
    · exact h.ok b h_mem
    · rwa [List.mem_singleton.mp h_mem]
  eq := by
    rw [← List.append_assoc, h.eq, encodeAll_append]
    simp [Format.encode]

/-- Nothing taken and nothing to come: no frames. -/
theorem eq_nil {bodies : List (List UInt8)} (h : Reads F .start [] bodies) : bodies = [] := by
  cases bodies with
  | nil => rfl
  | cons body bodies =>
    have h_len := congrArg List.length h.eq
    simp only [Reader.taken_start, List.append_nil, List.length_nil, encodeAll_cons,
      List.length_append, length_toBE] at h_len
    have := F.width_pos
    omega

/-- A reader that has begun a frame has a frame to read, of the length it has read. -/
theorem of_body {n : ℕ} {buf bytes : List UInt8} {bodies : List (List UInt8)}
    (h : Reads F (.body n buf) bytes bodies) :
    ∃ body bodies', bodies = body :: bodies' ∧ body.length = n ∧
      buf ++ bytes = body ++ F.encodeAll bodies' := by
  have h_eq := h.eq
  cases bodies with
  | nil =>
    have h_len := congrArg List.length h_eq
    simp only [Reader.taken, encodeAll_nil, List.length_append, length_toBE, List.length_nil]
      at h_len
    have := F.width_pos
    omega
  | cons body bodies =>
    rw [encodeAll_cons, Reader.taken, List.append_assoc] at h_eq
    obtain ⟨h_len, h_eq⟩ := List.append_inj h_eq (by simp)
    have h_ok := h.ok body List.mem_cons_self
    exact ⟨body, bodies, rfl, (toBE_inj (F.lt_of_ok n h.valid.1) (F.lt_of_ok _ h_ok) h_len).symm,
      h_eq⟩

/-- **However the bytes are split**, a reader gives out the bodies in order: a chunk completes the
first body or none. -/
theorem read {r : Reader} {chunk rest : List UInt8} {bodies : List (List UInt8)}
    (h : Reads F r (chunk ++ rest) bodies) (h_need : chunk.length ≤ r.need F) :
    ∃ bodies', bodies = (r.read F chunk).2.toList ++ bodies' ∧
      Reads F (r.read F chunk).1 rest bodies' := by
  cases r with
  | len buf =>
    have h_valid : buf.length < F.width := h.valid
    have h_chunk : chunk.length ≤ F.width - buf.length := h_need
    have h_eq := h.eq
    rw [Reader.taken, ← List.append_assoc] at h_eq
    by_cases h_short : (buf ++ chunk).length < F.width
    · simp only [Reader.read, if_pos h_short]
      exact ⟨bodies, rfl, h_short, h.ok, h_eq⟩
    · -- the length field is complete, and is that of the first body
      have h_width : (buf ++ chunk).length = F.width := by
        rw [List.length_append] at h_short ⊢
        omega
      cases bodies with
      | nil =>
        have h_nil : buf ++ chunk = [] := (List.append_eq_nil_iff.mp h_eq).1
        rw [h_nil] at h_width
        exact absurd F.width_pos (by simp [← h_width])
      | cons body bodies =>
        rw [encodeAll_cons] at h_eq
        obtain ⟨h_field, h_rest⟩ := List.append_inj h_eq (by simp [h_width])
        have h_ok := h.ok body List.mem_cons_self
        have h_len : fromBE (buf ++ chunk) = body.length := by
          rw [h_field, fromBE_toBE (F.lt_of_ok _ h_ok)]
        simp only [Reader.read, if_neg h_short, h_len, if_pos h_ok]
        refine ⟨body :: bodies, rfl, ⟨h_ok, F.pos_of_ok _ h_ok⟩, h.ok, ?_⟩
        rw [Reader.taken, List.append_nil, h_rest, encodeAll_cons]
  | body n buf =>
    obtain ⟨h_ok, h_valid⟩ := h.valid
    have h_chunk : chunk.length ≤ n - buf.length := h_need
    by_cases h_short : (buf ++ chunk).length < n
    · simp only [Reader.read, if_pos h_short]
      refine ⟨bodies, rfl, ⟨h_ok, h_short⟩, h.ok, ?_⟩
      rw [← h.eq]
      simp [Reader.taken]
    · -- the body is complete, and the next frame begins where it ends
      obtain ⟨body, bodies', rfl, rfl, h_eq⟩ := h.of_body
      have h_len : (buf ++ chunk).length = body.length := by
        rw [List.length_append] at h_short ⊢
        omega
      rw [← List.append_assoc] at h_eq
      obtain ⟨rfl, h_rest⟩ := List.append_inj h_eq h_len
      simp only [Reader.read, if_neg h_short]
      refine ⟨bodies', rfl, Reader.valid_start, ?_, ?_⟩
      · exact fun b hb => h.ok b (List.mem_cons_of_mem _ hb)
      · rw [Reader.taken_start, List.nil_append, h_rest]
  | failed => exact h.valid.elim

end Reads

/-! ### Any stream -/

/-- A reader stays valid unless it fails, whatever the bytes are. -/
theorem Reader.valid_read {r : Reader} {chunk : List UInt8} (h : r = .failed ∨ r.Valid F) :
    (r.read F chunk).1 = .failed ∨ (r.read F chunk).1.Valid F := by
  obtain rfl | h := h
  · exact Or.inl rfl
  cases r with
  | len buf =>
    simp only [Reader.read]
    split_ifs with h_short h_ok
    · exact Or.inr h_short
    · exact Or.inr ⟨h_ok, F.pos_of_ok _ h_ok⟩
    · exact Or.inl rfl
  | body n buf =>
    simp only [Reader.read]
    split_ifs with h_short
    · exact Or.inr ⟨h.1, h_short⟩
    · exact Or.inr Reader.valid_start
  | failed => exact Or.inl rfl

/-- A reader that gives a body out is between two frames. -/
theorem Reader.start_of_read {r : Reader} {chunk body : List UInt8}
    (hr : (r.read F chunk).2 = some body) : (r.read F chunk).1 = .start := by
  cases r with
  | len buf =>
    simp only [Reader.read] at hr
    split_ifs at hr
  | body n buf =>
    simp only [Reader.read] at hr ⊢
    split_ifs at hr ⊢
    rfl
  | failed => cases hr

/-- Every body a reader gives out has a length it accepts, whatever the bytes are. -/
theorem Reader.ok_of_read {r : Reader} {chunk body : List UInt8} (h : r.Valid F)
    (h_need : chunk.length ≤ r.need F) (hr : (r.read F chunk).2 = some body) :
    F.ok body.length := by
  cases r with
  | len buf =>
    simp only [Reader.read] at hr
    split_ifs at hr
  | body n buf =>
    obtain ⟨h_ok, h_valid⟩ := h
    have h_chunk : chunk.length ≤ n - buf.length := h_need
    simp only [Reader.read] at hr
    split_ifs at hr with h_short
    obtain rfl := Option.some.inj hr
    have h_len : (buf ++ chunk).length = n := by
      rw [List.length_append] at h_short ⊢
      omega
    rwa [h_len]
  | failed => exact h.elim

end Framing
