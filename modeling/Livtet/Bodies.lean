import Livtet.Messages

/-! # Bodies — the bytes behind a file header

    After a header the peer sends the file on the same stream. Three callers take it
    off: the cover reads it whole, the daemon copies it to disk, and a phone reads it
    chunk by chunk. They agree on a stream that carries as many bytes as the header
    says, and on one that breaks off; they do not on one the peer finishes early, as it
    does when the file shrank since the header was written. -/

namespace SyncBodies

open SyncMessages

/-- How a stream ends: the peer finished it, or it was reset or lost. -/
inductive Ending
  | finished
  | broken
deriving DecidableEq

/-- A receiving stream: the bytes that still arrive on it, and how it ends. -/
structure RecvStream where
  bytes : List UInt8
  ending : Ending
deriving DecidableEq

inductive ClientError
  | unexpectedEof
  | stream
deriving DecidableEq

/-- All of the next `n` bytes, or none. -/
def RecvStream.readExact (n : Nat) (stream : RecvStream) :
    Except ClientError (List UInt8 × RecvStream) :=
  if stream.bytes.length < n then .error .unexpectedEof
  else .ok (stream.bytes.take n, { stream with bytes := stream.bytes.drop n })

/-- `tokio::io::copy` of a window of `n` bytes: what was copied, and how the copy ended.
    The end of the stream is the end of the copy. -/
def RecvStream.copyWindow (n : Nat) (stream : RecvStream) : List UInt8 × Except ClientError Unit :=
  (stream.bytes.take n,
    if stream.bytes.length < n ∧ stream.ending = .broken then .error .stream else .ok ())

structure ByteBody where
  stream : RecvStream
  remaining : Nat

namespace ByteBody

def readAll (body : ByteBody) : Except ClientError (List UInt8) :=
  (body.stream.readExact body.remaining).map Prod.fst

/-- The bytes that reached the writer, and the count that is returned. -/
def copyTo (body : ByteBody) : List UInt8 × Except ClientError Nat :=
  let (copied, result) := body.stream.copyWindow body.remaining
  (copied, result.map fun _ => copied.length)

/-- Up to `room` more bytes; none when the body is spent. -/
def readChunk (room : Nat) (body : ByteBody) : Except ClientError (List UInt8 × ByteBody) :=
  if body.remaining = 0 ∨ room = 0 then .ok ([], body)
  else
    let take := min room body.remaining
    match body.stream.readExact take with
    | .error e => .error e
    | .ok (chunk, stream) => .ok (chunk, { stream, remaining := body.remaining - take })

/-- A chunk that is not empty leaves less to read. -/
theorem remaining_readChunk {room : Nat} {body body' : ByteBody} {chunk : List UInt8}
    (h : readChunk room body = .ok (chunk, body')) (hne : chunk ≠ []) :
    body'.remaining < body.remaining := by
  unfold readChunk at h
  split at h
  · cases h
    exact absurd rfl hne
  · dsimp only at h
    split at h
    · cases h
    · cases h
      dsimp only
      omega

/-- The loop of `sync_offer_accept`, with a buffer of `sizes turn` bytes at each turn; it
    ends at an empty chunk. -/
def readLoop (sizes : Nat → Nat) (turn : Nat) (body : ByteBody) (written : List UInt8) :
    Except ClientError (List UInt8) :=
  match _ : readChunk (sizes turn) body with
  | .error e => .error e
  | .ok (chunk, body') =>
      if chunk = [] then .ok written
      else readLoop sizes (turn + 1) body' (written ++ chunk)
termination_by body.remaining
decreasing_by exact remaining_readChunk ‹_› ‹_›

end ByteBody

/-- The body of an answered file request. -/
def bodyOf (header : FileHeader) (stream : RecvStream) : ByteBody :=
  { stream, remaining := header.length.toNat }

/-- `Peer::download_file` past the request: what the destination holds, and the result. -/
def downloadFile (header : FileHeader) (stream : RecvStream) :
    List UInt8 × Except ClientError Unit :=
  let (copied, result) := (bodyOf header stream).copyTo
  (copied, result.map fun _ => ())

/-- The byte phase of `exchange`: a window of the file as it is now, then the end. -/
def serveBody (file : List UInt8) (header : FileHeader) : RecvStream where
  bytes := (file.drop header.offset.toNat).take header.length.toNat
  ending := .finished

/-! ## The three readers -/

section Readers

variable {body : ByteBody}

theorem readAll_eq : body.readAll =
    if body.stream.bytes.length < body.remaining then .error .unexpectedEof
    else .ok (body.stream.bytes.take body.remaining) := by
  unfold ByteBody.readAll RecvStream.readExact
  split <;> rfl

theorem copyTo_eq : body.copyTo = (body.stream.bytes.take body.remaining,
    if body.stream.bytes.length < body.remaining ∧ body.stream.ending = .broken then .error .stream
    else .ok (min body.remaining body.stream.bytes.length)) := by
  simp only [ByteBody.copyTo, RecvStream.copyWindow, List.length_take]
  split <;> rfl

/-- The buffers from a turn on take `n` bytes before an empty one comes. -/
inductive Holds (sizes : Nat → Nat) : Nat → Nat → Prop
  | zero (turn : Nat) : Holds sizes turn 0
  | next {turn n : Nat} (hpos : 0 < sizes turn) (hrest : Holds sizes (turn + 1) (n - sizes turn)) :
      Holds sizes turn n

theorem holds_iff {sizes : Nat → Nat} {turn n : Nat} (hn : n ≠ 0) :
    Holds sizes turn n ↔ 0 < sizes turn ∧ Holds sizes (turn + 1) (n - sizes turn) := by
  constructor
  · intro h
    cases h with
    | zero => exact absurd rfl hn
    | next hpos hrest => exact ⟨hpos, hrest⟩
  · rintro ⟨hpos, hrest⟩
    exact .next hpos hrest

/-- Buffers of which none is empty take any number of bytes. -/
theorem holds_of_pos {sizes : Nat → Nat} (h : ∀ turn, 0 < sizes turn) :
    ∀ n turn, Holds sizes turn n := by
  intro n
  induction n using Nat.strongRecOn with
  | ind n ih =>
      intro turn
      by_cases hn : n = 0
      · exact hn ▸ .zero turn
      · exact .next (h turn) (ih _ (by have := h turn; omega) _)

theorem readLoop_of_ok {sizes : Nat → Nat} {turn : Nat} {written chunk : List UInt8}
    {body' : ByteBody} (h : body.readChunk (sizes turn) = .ok (chunk, body')) :
    body.readLoop sizes turn written =
      if chunk = [] then .ok written else body'.readLoop sizes (turn + 1) (written ++ chunk) := by
  rw [ByteBody.readLoop.eq_def]
  split
  next e he => cases h.symm.trans he
  next chunk' next' he =>
    cases h.symm.trans he
    rfl

/-- A spent body and an empty buffer both end the loop. -/
theorem readLoop_stop {sizes : Nat → Nat} {turn : Nat} {written : List UInt8}
    (h : body.remaining = 0 ∨ sizes turn = 0) : body.readLoop sizes turn written = .ok written := by
  have hchunk : body.readChunk (sizes turn) = .ok ([], body) := if_pos h
  rw [readLoop_of_ok hchunk, if_pos rfl]

theorem readLoop_short {sizes : Nat → Nat} {turn : Nat} {written : List UInt8}
    (h : ¬ (body.remaining = 0 ∨ sizes turn = 0))
    (hshort : body.stream.bytes.length < min (sizes turn) body.remaining) :
    body.readLoop sizes turn written = .error .unexpectedEof := by
  have hchunk : body.readChunk (sizes turn) = .error .unexpectedEof := by
    simp only [ByteBody.readChunk, RecvStream.readExact, if_neg h, if_pos hshort]
  rw [ByteBody.readLoop.eq_def]
  split
  next e he =>
    cases he.symm.trans hchunk
    rfl
  next he => cases hchunk.symm.trans he

/-- The body after the next `n` bytes were taken off it. -/
def ByteBody.skip (n : Nat) (body : ByteBody) : ByteBody where
  stream := { body.stream with bytes := body.stream.bytes.drop n }
  remaining := body.remaining - n

theorem readLoop_next {sizes : Nat → Nat} {turn : Nat} {written : List UInt8}
    (h : ¬ (body.remaining = 0 ∨ sizes turn = 0))
    (hlong : min (sizes turn) body.remaining ≤ body.stream.bytes.length) :
    body.readLoop sizes turn written =
      (body.skip (min (sizes turn) body.remaining)).readLoop sizes (turn + 1)
        (written ++ body.stream.bytes.take (min (sizes turn) body.remaining)) := by
  have hchunk : body.readChunk (sizes turn) =
      .ok (body.stream.bytes.take (min (sizes turn) body.remaining),
        body.skip (min (sizes turn) body.remaining)) := by
    simp only [ByteBody.readChunk, RecvStream.readExact, if_neg h, if_neg (Nat.not_lt.2 hlong)]
    rfl
  have hne : body.stream.bytes.take (min (sizes turn) body.remaining) ≠ [] := by
    rw [← List.length_pos_iff, List.length_take]
    omega
  rw [readLoop_of_ok hchunk, if_neg hne]

/-- The loop fails exactly when it asks for more than arrives. -/
theorem readLoop_ok_iff {sizes : Nat → Nat} : ∀ (n : Nat) {body : ByteBody}, body.remaining = n →
    ∀ (turn : Nat) (written : List UInt8),
      (∃ out, body.readLoop sizes turn written = .ok out) ↔
        body.remaining ≤ body.stream.bytes.length ∨
          ¬ Holds sizes turn (body.stream.bytes.length + 1) := by
  intro n
  induction n using Nat.strongRecOn with
  | ind n ih =>
      rintro body rfl turn written
      rw [holds_iff (Nat.succ_ne_zero _)]
      by_cases hstop : body.remaining = 0 ∨ sizes turn = 0
      · rw [readLoop_stop hstop]
        exact iff_of_true ⟨written, rfl⟩ (by omega)
      · by_cases hshort : body.stream.bytes.length < min (sizes turn) body.remaining
        · rw [readLoop_short hstop hshort]
          refine iff_of_false (fun h => by cases h.choose_spec) ?_
          rintro (hle | hnot)
          · omega
          · refine hnot ⟨by omega, ?_⟩
            rw [show body.stream.bytes.length + 1 - sizes turn = 0 by omega]
            exact .zero _
        · rw [readLoop_next hstop (Nat.not_lt.1 hshort),
            ih (body.remaining - min (sizes turn) body.remaining) (by omega) rfl]
          have hlen : (body.skip (min (sizes turn) body.remaining)).stream.bytes.length =
              body.stream.bytes.length - min (sizes turn) body.remaining := List.length_drop
          rw [hlen]
          show body.remaining - _ ≤ _ ∨ _ ↔ _
          by_cases hlast : body.remaining ≤ sizes turn
          · exact iff_of_true (by omega) (by omega)
          · rw [show body.stream.bytes.length - min (sizes turn) body.remaining + 1 =
              body.stream.bytes.length + 1 - sizes turn by omega]
            refine or_congr (by omega) (not_congr (and_iff_right (by omega)).symm)

/-- What the loop writes is a prefix of the body, and all of it when no empty buffer
    comes first. -/
theorem readLoop_written {sizes : Nat → Nat} : ∀ (n : Nat) {body : ByteBody}, body.remaining = n →
    ∀ (turn : Nat) (written out : List UInt8), body.readLoop sizes turn written = .ok out →
      ∃ k, out = written ++ body.stream.bytes.take k ∧ k ≤ body.stream.bytes.length ∧
        k ≤ body.remaining ∧ (k = body.remaining ↔ Holds sizes turn body.remaining) := by
  intro n
  induction n using Nat.strongRecOn with
  | ind n ih =>
      rintro body rfl turn written out hout
      by_cases hstop : body.remaining = 0 ∨ sizes turn = 0
      · rw [readLoop_stop hstop] at hout
        cases hout
        refine ⟨0, by simp, Nat.zero_le _, Nat.zero_le _, ?_⟩
        by_cases hspent : body.remaining = 0
        · rw [hspent]
          exact iff_of_true rfl (.zero _)
        · rw [holds_iff hspent]
          omega
      · by_cases hshort : body.stream.bytes.length < min (sizes turn) body.remaining
        · rw [readLoop_short hstop hshort] at hout
          cases hout
        · rw [readLoop_next hstop (Nat.not_lt.1 hshort)] at hout
          obtain ⟨k, rfl, hle, hrem, hiff⟩ := ih (body.remaining - min (sizes turn) body.remaining)
            (by omega) rfl _ _ _ hout
          simp only [ByteBody.skip, List.length_drop] at hle hrem hiff ⊢
          refine ⟨min (sizes turn) body.remaining + k, ?_, by omega, by omega, ?_⟩
          · rw [List.append_assoc, List.take_add]
          · rw [holds_iff (by omega), and_iff_right (by omega),
              show body.remaining - sizes turn =
                body.remaining - min (sizes turn) body.remaining by omega, ← hiff]
            omega

end Readers

/-! ## A received file -/

/-- The first `length` bytes of the stream, and there are so many. -/
def IsBody (header : FileHeader) (stream : RecvStream) (bytes : List UInt8) : Prop :=
  bytes.length = header.length.toNat ∧ bytes = stream.bytes.take header.length.toNat

/-- The three readers go through or fail together, and what they yield is the body; a
    download that goes through leaves all of it at the destination. -/
structure Whole (header : FileHeader) (stream : RecvStream) (sizes : Nat → Nat) : Prop where
  copy_iff : (∃ n, (bodyOf header stream).copyTo.2 = .ok n) ↔
    ∃ bytes, (bodyOf header stream).readAll = .ok bytes
  loop_iff : (∃ bytes, (bodyOf header stream).readLoop sizes 0 [] = .ok bytes) ↔
    ∃ bytes, (bodyOf header stream).readAll = .ok bytes
  all_body : ∀ bytes, (bodyOf header stream).readAll = .ok bytes → IsBody header stream bytes
  copy_body : ∀ n, (bodyOf header stream).copyTo.2 = .ok n →
    IsBody header stream (bodyOf header stream).copyTo.1
  loop_body : ∀ bytes, (bodyOf header stream).readLoop sizes 0 [] = .ok bytes →
    IsBody header stream bytes
  download_body : (downloadFile header stream).2 = .ok () →
    (downloadFile header stream).1.length = header.length.toNat

section Whole

variable {header : FileHeader} {stream : RecvStream} {sizes : Nat → Nat}

theorem exists_readAll_iff : (∃ bytes, (bodyOf header stream).readAll = .ok bytes) ↔
    header.length.toNat ≤ stream.bytes.length := by
  rw [readAll_eq]
  show (∃ bytes, ite (stream.bytes.length < header.length.toNat) _ _ = _) ↔ _
  split
  next h => exact iff_of_false (fun h => by cases h.choose_spec) (by omega)
  next h => exact iff_of_true ⟨_, rfl⟩ (by omega)

theorem exists_copyTo_iff : (∃ n, (bodyOf header stream).copyTo.2 = .ok n) ↔
    header.length.toNat ≤ stream.bytes.length ∨ stream.ending = .finished := by
  rw [copyTo_eq]
  show (∃ n, ite (stream.bytes.length < header.length.toNat ∧ stream.ending = .broken) _ _ = _) ↔ _
  split
  next h =>
    refine iff_of_false (fun h => by cases h.choose_spec) ?_
    rw [h.2]
    exact fun hor => hor.elim (fun hle => by omega) (by rintro ⟨⟩)
  next h =>
    refine iff_of_true ⟨_, rfl⟩ ?_
    by_cases hle : header.length.toNat ≤ stream.bytes.length
    · exact Or.inl hle
    · cases hend : stream.ending with
      | finished => exact Or.inr rfl
      | broken => exact absurd ⟨by omega, hend⟩ h

theorem isBody_take (h : header.length.toNat ≤ stream.bytes.length) :
    IsBody header stream (stream.bytes.take header.length.toNat) :=
  ⟨List.length_take_of_le h, rfl⟩

/-- A stream that carries the body, into buffers that take it. -/
theorem whole_of_le (hle : header.length.toNat ≤ stream.bytes.length)
    (hholds : Holds sizes 0 header.length.toNat) : Whole header stream sizes where
  copy_iff := iff_of_true (exists_copyTo_iff.2 (Or.inl hle)) (exists_readAll_iff.2 hle)
  loop_iff := iff_of_true ((readLoop_ok_iff _ rfl 0 []).2 (Or.inl hle)) (exists_readAll_iff.2 hle)
  all_body := by
    intro bytes h
    rw [readAll_eq] at h
    cases (if_neg (Nat.not_lt.2 hle)).symm.trans h
    exact isBody_take hle
  copy_body := by
    intro n _
    rw [copyTo_eq]
    exact isBody_take hle
  loop_body := by
    intro bytes h
    obtain ⟨k, rfl, _, _, hk⟩ := readLoop_written _ rfl 0 [] bytes h
    cases hk.2 hholds
    exact isBody_take hle
  download_body := by
    intro _
    show (bodyOf header stream).copyTo.1.length = _
    rw [copyTo_eq]
    exact List.length_take_of_le hle

/-- A stream that breaks off before the body is through, read past its break. -/
theorem whole_of_broken (hlt : stream.bytes.length < header.length.toNat)
    (hend : stream.ending = .broken) (hholds : Holds sizes 0 (stream.bytes.length + 1)) :
    Whole header stream sizes := by
  have hall : ¬ ∃ bytes, (bodyOf header stream).readAll = .ok bytes := by
    rw [exists_readAll_iff]
    omega
  have hcopy : ¬ ∃ n, (bodyOf header stream).copyTo.2 = .ok n := by
    rw [exists_copyTo_iff, hend]
    exact fun hor => hor.elim (fun hle => by omega) (by rintro ⟨⟩)
  have hloop : ¬ ∃ bytes, (bodyOf header stream).readLoop sizes 0 [] = .ok bytes := by
    rw [readLoop_ok_iff _ rfl]
    exact fun hor => hor.elim (fun hle => absurd hlt (Nat.not_lt.2 hle)) fun hnot => hnot hholds
  refine ⟨iff_of_false hcopy hall, iff_of_false hloop hall, fun bytes h => absurd ⟨bytes, h⟩ hall,
    fun n h => absurd ⟨n, h⟩ hcopy, fun bytes h => absurd ⟨bytes, h⟩ hloop, fun h => ?_⟩
  cases hresult : (bodyOf header stream).copyTo.2 with
  | error e =>
      simp only [downloadFile, hresult] at h
      cases h
  | ok n => exact absurd ⟨n, hresult⟩ hcopy

/-- What the stream has to be for the readers to agree on it. -/
theorem delivered_of_whole (h : Whole header stream sizes) :
    (header.length.toNat ≤ stream.bytes.length ∧ Holds sizes 0 header.length.toNat) ∨
      (stream.bytes.length < header.length.toNat ∧ stream.ending = .broken ∧
        Holds sizes 0 (stream.bytes.length + 1)) := by
  by_cases hle : header.length.toNat ≤ stream.bytes.length
  · obtain ⟨bytes, hbytes⟩ := h.loop_iff.2 (exists_readAll_iff.2 hle)
    have hlen := (h.loop_body bytes hbytes).1
    obtain ⟨k, rfl, hk, _, hiff⟩ := readLoop_written _ rfl 0 [] bytes hbytes
    rw [List.nil_append, List.length_take_of_le hk] at hlen
    exact Or.inl ⟨hle, hiff.1 hlen⟩
  · have hall := mt exists_readAll_iff.1 hle
    have hcopy := mt h.copy_iff.1 hall
    have hloop := mt h.loop_iff.1 hall
    rw [exists_copyTo_iff, not_or] at hcopy
    rw [readLoop_ok_iff _ rfl, not_or, not_not] at hloop
    refine Or.inr ⟨Nat.not_le.1 hle, ?_, hloop.2⟩
    cases hend : stream.ending with
    | finished => exact absurd hend hcopy.2
    | broken => rfl

/-- A file is received whole or not at all exactly where the stream carries it, or breaks
    off before it does; an empty buffer before that point stops the chunked reader short.
    With no empty buffer it is the peer's early end of the stream alone that goes wrong. -/
theorem received_whole_iff (header : FileHeader) (stream : RecvStream) :
    (∀ sizes, Whole header stream sizes ↔
      (header.length.toNat ≤ stream.bytes.length ∧ Holds sizes 0 header.length.toNat) ∨
        (stream.bytes.length < header.length.toNat ∧ stream.ending = .broken ∧
          Holds sizes 0 (stream.bytes.length + 1))) ∧
      ((∀ sizes, (∀ turn, 0 < sizes turn) → Whole header stream sizes) ↔
        header.length.toNat ≤ stream.bytes.length ∨ stream.ending = .broken) := by
  refine ⟨fun sizes => ⟨delivered_of_whole, ?_⟩, ?_, ?_⟩
  · rintro (⟨hle, hholds⟩ | ⟨hlt, hend, hholds⟩)
    · exact whole_of_le hle hholds
    · exact whole_of_broken hlt hend hholds
  · intro h
    rcases delivered_of_whole (h (fun _ => 1) fun _ => Nat.one_pos) with ⟨hle, _⟩ | ⟨_, hend, _⟩
    · exact Or.inl hle
    · exact Or.inr hend
  · intro h sizes hpos
    by_cases hle : header.length.toNat ≤ stream.bytes.length
    · exact whole_of_le hle (holds_of_pos hpos _ _)
    · exact whole_of_broken (Nat.not_le.1 hle) (h.resolve_left hle) (holds_of_pos hpos _ _)

end Whole

/-- Three bytes are announced. -/
def threeBytes : FileHeader where
  contentType := "application/epub+zip"
  offset := 0
  length := 3
  total := 3
  etag := "3"

theorem received_whole_three : Whole threeBytes (serveBody [1, 2, 3] threeBytes) fun _ => 2 :=
  (received_whole_iff threeBytes _).2.2 (Or.inl (by decide)) _ fun _ => Nat.two_pos

/-- The file lost its last byte after the header was written: the download goes through
    with two bytes, where reading the body whole fails. -/
theorem not_whole_shrunk :
    ¬ Whole threeBytes (serveBody [1, 2] threeBytes) (fun _ => 256 * 1024) ∧
      downloadFile threeBytes (serveBody [1, 2] threeBytes) = ([1, 2], .ok ()) ∧
      (bodyOf threeBytes (serveBody [1, 2] threeBytes)).readAll = .error .unexpectedEof :=
  ⟨fun h => absurd (h.download_body rfl) (by decide), rfl, rfl⟩

end SyncBodies
