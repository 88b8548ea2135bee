import Mathlib.Algebra.Group.Int.Defs
import Mathlib.Algebra.GroupWithZero.Nat
import Mathlib.Data.List.Basic

/-! # Chunked messages on a byte stream

    A message goes out as its total length and then in chunks, each behind a length of
    its own; every length is four bytes, most significant first. The reader takes what
    a stream holds so far and refuses a length over the limits, an empty chunk, and a
    chunk that runs past the total. -/

namespace Frames

/-- The low 32 bits of a number, most significant byte first. -/
def u32Be (n : Nat) : List UInt8 :=
  [UInt8.ofNat (n / 2 ^ 24), UInt8.ofNat (n / 2 ^ 16), UInt8.ofNat (n / 2 ^ 8), UInt8.ofNat n]

def u32OfBe (a b c d : UInt8) : Nat :=
  ((a.toNat * 256 + b.toNat) * 256 + c.toNat) * 256 + d.toNat

theorem u32OfBe_u32Be {n : Nat} (h : n < 2 ^ 32) :
    u32OfBe (UInt8.ofNat (n / 2 ^ 24)) (UInt8.ofNat (n / 2 ^ 16)) (UInt8.ofNat (n / 2 ^ 8))
      (UInt8.ofNat n) = n := by
  simp only [u32OfBe, UInt8.toNat_ofNat']
  omega

/-- How large a message and a chunk may be. -/
structure Limits where
  message : Nat
  chunk : Nat
  chunk_pos : 0 < chunk
  message_lt : message < 2 ^ 32

inductive FrameError
  | unexpectedEof
  | tooLarge (size : Nat)
  | chunkOverflow (total chunk read : Nat)
  | emptyChunk (total : Nat)
deriving DecidableEq, Repr

variable (limits : Limits)

/-! ## Writing -/

/-- A body cut into chunks, each behind its length. -/
def writeChunks (body : List UInt8) : List UInt8 :=
  if body.length = 0 then []
  else
    let chunk := body.take limits.chunk
    u32Be chunk.length ++ chunk ++ writeChunks (body.drop limits.chunk)
termination_by body.length
decreasing_by
  have hpos := limits.chunk_pos
  rw [List.length_drop]
  omega

def write (body : List UInt8) : Except FrameError (List UInt8) :=
  if limits.message < body.length then .error (.tooLarge body.length)
  else .ok (u32Be body.length ++ writeChunks limits body)

/-! ## Reading -/

/-- Fill `body` up to `total` bytes, one chunk at a time. -/
def readChunks (total : Nat) (body stream : List UInt8) :
    Except FrameError (List UInt8 × List UInt8) :=
  if body.length < total then
    match stream with
    | a :: b :: c :: d :: rest =>
        let chunk := u32OfBe a b c d
        if limits.chunk < chunk then .error (.tooLarge chunk)
        else if chunk = 0 then .error (.emptyChunk total)
        else if total < body.length + chunk then
          .error (.chunkOverflow total chunk body.length)
        else if rest.length < chunk then .error .unexpectedEof
        else readChunks total (body ++ rest.take chunk) (rest.drop chunk)
    | _ => .error .unexpectedEof
  else .ok (body, stream)
termination_by stream.length
decreasing_by
  simp only [List.length_drop, List.length_cons]
  omega

/-- One message, and what the stream holds after it. -/
def read : List UInt8 → Except FrameError (List UInt8 × List UInt8)
  | a :: b :: c :: d :: rest =>
      let total := u32OfBe a b c d
      if limits.message < total then .error (.tooLarge total)
      else readChunks limits total [] rest
  | _ => .error .unexpectedEof

/-- One turn of the loop: the body and the stream after the next chunk. -/
def readTurn (total : Nat) (body stream : List UInt8) :
    Except FrameError (List UInt8 × List UInt8) :=
  match stream with
  | a :: b :: c :: d :: rest =>
      let chunk := u32OfBe a b c d
      if limits.chunk < chunk then .error (.tooLarge chunk)
      else if chunk = 0 then .error (.emptyChunk total)
      else if total < body.length + chunk then .error (.chunkOverflow total chunk body.length)
      else if rest.length < chunk then .error .unexpectedEof
      else .ok (body ++ rest.take chunk, rest.drop chunk)
  | _ => .error .unexpectedEof

/-- The loop, stopped after so many turns; `none` where it was still going. -/
def readTurns (total : Nat) : Nat → List UInt8 → List UInt8 →
    Option (Except FrameError (List UInt8 × List UInt8))
  | 0, body, stream => if body.length < total then none else some (.ok (body, stream))
  | turns + 1, body, stream =>
      if body.length < total then
        match readTurn limits total body stream with
        | .error e => some (.error e)
        | .ok (body, stream) => readTurns total turns body stream
      else some (.ok (body, stream))

/-! ## What is written is read back -/

variable {limits}

theorem readChunks_done {total : Nat} {body stream : List UInt8} (h : body.length = total) :
    readChunks limits total body stream = .ok (body, stream) := by
  rw [readChunks.eq_def, if_neg (by omega)]

/-- One chunk of the writer is one turn of the reader's loop. -/
theorem readChunks_chunk {total : Nat} {body chunk rest : List UInt8} (hpos : 0 < chunk.length)
    (hchunk : chunk.length ≤ limits.chunk) (htotal : body.length + chunk.length ≤ total)
    (hlt : total < 2 ^ 32) :
    readChunks limits total body (u32Be chunk.length ++ chunk ++ rest) =
      readChunks limits total (body ++ chunk) rest := by
  have hread := u32OfBe_u32Be (show chunk.length < 2 ^ 32 by omega)
  have hlen : (chunk ++ rest).length = chunk.length + rest.length := List.length_append
  rw [readChunks.eq_def, if_pos (by omega)]
  simp only [u32Be, List.cons_append, List.nil_append, hread]
  rw [if_neg (by omega), if_neg (by omega), if_neg (by omega), if_neg (by omega),
    List.take_left, List.drop_left]

/-- Induction on what is left to write: the reader's body grows by each chunk. -/
theorem readChunks_writeChunks {total : Nat} (hlt : total < 2 ^ 32) (rest : List UInt8) :
    ∀ (left body : List UInt8), body.length + left.length = total →
      readChunks limits total body (writeChunks limits left ++ rest) =
        .ok (body ++ left, rest) := by
  intro left
  induction left using writeChunks.induct limits with
  | case1 left hnil =>
      intro body htotal
      rw [writeChunks, if_pos hnil, List.nil_append, readChunks_done (by omega),
        List.length_eq_zero_iff.1 hnil, List.append_nil]
  | case2 left hne ih =>
      intro body htotal
      have hpos := limits.chunk_pos
      have htake : (left.take limits.chunk).length = min limits.chunk left.length :=
        List.length_take
      have hsplit := List.take_append_drop limits.chunk left
      have hdrop := List.length_drop (l := left) (i := limits.chunk)
      rw [writeChunks, if_neg hne]
      simp only [List.append_assoc]
      rw [← List.append_assoc (u32Be _), readChunks_chunk (by omega) (by omega) (by omega) hlt,
        ih (body ++ left.take limits.chunk) (by rw [List.length_append]; omega),
        List.append_assoc, hsplit]

theorem read_write {body bytes : List UInt8} (h : write limits body = .ok bytes)
    (rest : List UInt8) : read limits (bytes ++ rest) = .ok (body, rest) := by
  rw [write] at h
  split at h
  · cases h
  next hle =>
    cases Except.ok.inj h
    have hlt := limits.message_lt
    have hread := u32OfBe_u32Be (show body.length < 2 ^ 32 by omega)
    simp only [u32Be, List.cons_append, List.nil_append, read, hread, if_neg hle]
    exact readChunks_writeChunks (by omega) rest body [] (Nat.zero_add _)

/-! ## What is accepted -/

theorem u32Be_u32OfBe (a b c d : UInt8) : u32Be (u32OfBe a b c d) = [a, b, c, d] := by
  have ha := a.toNat_lt
  have hb := b.toNat_lt
  have hc := c.toNat_lt
  have hd := d.toNat_lt
  simp only [u32Be, u32OfBe, List.cons.injEq, and_true, ← UInt8.toNat_inj, UInt8.toNat_ofNat']
  omega

/-- Chunks as they stand on the stream, each behind its length. -/
def encode (chunks : List (List UInt8)) : List UInt8 :=
  chunks.flatMap fun chunk => u32Be chunk.length ++ chunk

theorem encode_cons (chunk : List UInt8) (chunks : List (List UInt8)) :
    encode (chunk :: chunks) = u32Be chunk.length ++ chunk ++ encode chunks := List.flatMap_cons

variable (limits) in
/-- No chunk is empty or over the limit. -/
def Sized (chunks : List (List UInt8)) : Prop :=
  ∀ chunk ∈ chunks, 1 ≤ chunk.length ∧ chunk.length ≤ limits.chunk

/-- A turn that goes through takes one chunk off the stream. -/
theorem readTurn_ok {total : Nat} {body stream body' rest : List UInt8}
    (h : readTurn limits total body stream = .ok (body', rest)) :
    ∃ chunk, 1 ≤ chunk.length ∧ chunk.length ≤ limits.chunk ∧
      body.length + chunk.length ≤ total ∧
      stream = u32Be chunk.length ++ chunk ++ rest ∧ body' = body ++ chunk := by
  unfold readTurn at h
  split at h
  next a b c d tail =>
    dsimp only at h
    split_ifs at h with hlarge hempty hover hshort
    cases h
    have hlen : (tail.take (u32OfBe a b c d)).length = u32OfBe a b c d :=
      List.length_take_of_le (by omega)
    refine ⟨tail.take (u32OfBe a b c d), by omega, by omega, by omega, ?_, rfl⟩
    rw [hlen, u32Be_u32OfBe]
    rw [List.append_assoc, List.take_append_drop]
    rfl
  · cases h

theorem readChunks_eq {total : Nat} {body stream : List UInt8} (h : body.length < total) :
    readChunks limits total body stream =
      readTurn limits total body stream >>= fun p => readChunks limits total p.1 p.2 := by
  rw [readChunks.eq_def, if_pos h]
  unfold readTurn
  split
  · dsimp only
    split_ifs <;> rfl
  · rfl

/-- Every turn adds a byte: the loop is over after as many turns as bytes are missing. -/
theorem readTurns_eq {total : Nat} : ∀ (turns : Nat) (body stream : List UInt8),
    total ≤ body.length + turns →
      readTurns limits total turns body stream = some (readChunks limits total body stream) := by
  intro turns
  induction turns with
  | zero =>
      intro body stream hle
      rw [readTurns, if_neg (by omega), readChunks.eq_def, if_neg (by omega)]
  | succ turns ih =>
      intro body stream hle
      rw [readTurns]
      by_cases hlt : body.length < total
      · rw [if_pos hlt, readChunks_eq hlt]
        cases hturn : readTurn limits total body stream with
        | error e => rfl
        | ok next =>
            obtain ⟨chunk, hpos, _, _, _, hbody⟩ := readTurn_ok hturn
            refine ih next.1 next.2 ?_
            rw [hbody, List.length_append]
            omega
      · rw [if_neg hlt, readChunks.eq_def, if_neg hlt]

/-- Sized chunks that fill the body up to the total are read, to the last byte. -/
theorem readChunks_encode {total : Nat} (hlt : total < 2 ^ 32) (rest : List UInt8)
    (chunks : List (List UInt8)) (hsized : Sized limits chunks) :
    ∀ body : List UInt8, body.length + (chunks.map List.length).sum = total →
      readChunks limits total body (encode chunks ++ rest) = .ok (body ++ chunks.flatten, rest) := by
  induction chunks with
  | nil =>
      intro body htotal
      rw [List.flatten_nil, List.append_nil]
      exact readChunks_done htotal
  | cons chunk chunks ih =>
      intro body htotal
      obtain ⟨hchunk, htail⟩ := List.forall_mem_cons.1 hsized
      rw [List.map_cons, List.sum_cons] at htotal
      rw [encode_cons, List.append_assoc,
        readChunks_chunk hchunk.1 hchunk.2 (by omega) hlt,
        ih htail _ (by rw [List.length_append]; omega), List.flatten_cons, List.append_assoc]

/-- Only such chunks are read. The induction is on the turns the loop may take. -/
theorem exists_chunks {total : Nat} : ∀ (turns : Nat) {body stream out rest : List UInt8},
    body.length ≤ total → readTurns limits total turns body stream = some (.ok (out, rest)) →
      ∃ chunks, Sized limits chunks ∧ body.length + (chunks.map List.length).sum = total ∧
        stream = encode chunks ++ rest ∧ out = body ++ chunks.flatten := by
  intro turns
  induction turns with
  | zero =>
      intro body stream out rest hle h
      rw [readTurns] at h
      split at h
      · cases h
      · cases h
        exact ⟨[], by simp [Sized], by simp; omega, rfl, by simp⟩
  | succ turns ih =>
      intro body stream out rest hle h
      rw [readTurns] at h
      split at h
      · split at h
        · cases h
        next body' stream' hturn =>
          obtain ⟨chunk, hpos, hchunk, hover, rfl, rfl⟩ := readTurn_ok hturn
          have hle' : (body ++ chunk).length ≤ total := by rw [List.length_append]; omega
          obtain ⟨chunks, hsized, htotal, rfl, rfl⟩ := ih hle' h
          refine ⟨chunk :: chunks, List.forall_mem_cons.2 ⟨⟨hpos, hchunk⟩, hsized⟩, ?_, ?_, ?_⟩
          · rw [List.map_cons, List.sum_cons, ← htotal, List.length_append]
            omega
          · rw [encode_cons, List.append_assoc _ (encode chunks)]
          · rw [List.flatten_cons, List.append_assoc]
      · cases h
        exact ⟨[], by simp [Sized], by simp; omega, rfl, by simp⟩

/-- The reader takes a total within the limit and sized chunks that add up to it, and
    nothing else; what follows stays on the stream. -/
theorem read_ok_iff {stream body rest : List UInt8} :
    read limits stream = .ok (body, rest) ↔
      ∃ total chunks, total ≤ limits.message ∧ Sized limits chunks ∧
        (chunks.map List.length).sum = total ∧ body = chunks.flatten ∧
        stream = u32Be total ++ encode chunks ++ rest := by
  constructor
  · intro h
    unfold read at h
    split at h
    next a b c d tail =>
      dsimp only at h
      split_ifs at h with hlarge
      have hmissing : u32OfBe a b c d ≤ ([] : List UInt8).length + u32OfBe a b c d := by simp
      have hturns : readTurns limits (u32OfBe a b c d) (u32OfBe a b c d) [] tail = _ :=
        readTurns_eq _ [] tail hmissing
      rw [h] at hturns
      obtain ⟨chunks, hsized, htotal, rfl, rfl⟩ := exists_chunks _ (Nat.zero_le _) hturns
      refine ⟨u32OfBe a b c d, chunks, Nat.not_lt.1 hlarge, hsized, ?_, List.nil_append _, ?_⟩
      · rw [← htotal, List.length_nil, Nat.zero_add]
      · rw [u32Be_u32OfBe]
        rfl
    · cases h
  · rintro ⟨total, chunks, hle, hsized, htotal, rfl, rfl⟩
    have hlt : total < 2 ^ 32 := Nat.lt_of_le_of_lt hle limits.message_lt
    have hread := u32OfBe_u32Be hlt
    simp only [u32Be, List.cons_append, List.nil_append, read, hread, if_neg (Nat.not_lt.2 hle)]
    exact readChunks_encode hlt rest chunks hsized [] ((Nat.zero_add _).trans htotal)

end Frames
