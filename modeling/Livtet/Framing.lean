import Livtet.Envelopes
import Livtet.Lib.Frames
import Livtet.Lib.JsonDocs

/-! # Framing — a message on the stream and off it again

    `write_frame` serialises a value and cuts the text into chunks, `read_frame` puts
    the chunks together and parses them. Every request comes off the stream as it went
    on. A response does too, unless it is a list of conflicts or the flag of a resolved
    one, which the tagged union has no document for, or a dump whose rows hold a
    fraction the reader changes or are nested deeper than the reader goes. -/

namespace SyncFraming

open JsonText JsonText.Json TaggedJson SyncMessages SyncEnvelopes

/-- Largest message this transport will accept, across all chunks. -/
def maxMessageBytes : Nat := 256 * 1024 * 1024

/-- Largest single chunk. -/
def maxChunkBytes : Nat := 8 * 1024 * 1024

def limits : Frames.Limits where
  message := maxMessageBytes
  chunk := maxChunkBytes
  chunk_pos := by decide
  message_lt := by decide

inductive WireError
  | json (message : String)
  | frame (error : Frames.FrameError)
deriving DecidableEq

/-- The framing loop takes exactly a total within the limit and, behind it, chunks that
    add up to it; it stops after at most a turn for every byte of the total; and what
    `write_frame` puts out for a body is such a stream, whatever follows it. -/
theorem read_frame_format :
    (∀ stream body rest : List UInt8,
      Frames.read limits stream = .ok (body, rest) ↔
        ∃ (total : Nat) (chunks : List (List UInt8)), total ≤ maxMessageBytes ∧
          (∀ chunk ∈ chunks, 1 ≤ chunk.length ∧ chunk.length ≤ maxChunkBytes) ∧
          (chunks.map List.length).sum = total ∧ body = chunks.flatten ∧
          stream = Frames.u32Be total ++
            chunks.flatMap (fun chunk => Frames.u32Be chunk.length ++ chunk) ++ rest) ∧
      (∀ (total : Nat) (stream : List UInt8),
        Frames.readTurns limits total total [] stream =
          some (Frames.readChunks limits total [] stream)) ∧
      ∀ body : List UInt8, body.length ≤ maxMessageBytes →
        ∃ bytes, Frames.write limits body = .ok bytes ∧
          ∀ rest, Frames.read limits (bytes ++ rest) = .ok (body, rest) := by
  refine ⟨fun stream body rest => Frames.read_ok_iff, ?_, ?_⟩
  · intro total stream
    exact Frames.readTurns_eq total [] stream (Nat.le_add_left _ _)
  · intro body hle
    have hwrite : Frames.write limits body = .ok _ := if_neg (Nat.not_lt.2 hle)
    exact ⟨_, hwrite, Frames.read_write hwrite⟩

theorem read_frame_format_one_byte :
    ∃ bytes, Frames.write limits [7] = .ok bytes ∧
      ∀ rest, Frames.read limits (bytes ++ rest) = .ok ([7], rest) :=
  read_frame_format.2.2 [7] (by decide)

section Frames

variable (lib : SerdeJson) {α : Type} [Wire α]

/-- The text of a value. -/
def toVec (value : α) : Except String (List UInt8) := lib.toVec <$> serialize value

/-- The bytes `write_frame` puts on the stream. -/
def writeFrame (value : α) : Except WireError (List UInt8) :=
  match toVec lib value with
  | .error e => .error (.json e)
  | .ok body => (Frames.write limits body).mapError .frame

/-- The value `read_frame` takes off the stream, and what is left on it. -/
def readFrame (stream : List UInt8) : Except WireError (α × List UInt8) :=
  match Frames.read limits stream with
  | .error e => .error (.frame e)
  | .ok (body, rest) =>
      match lib.fromSlice body >>= deserialize with
      | .error e => .error (.json e)
      | .ok value => .ok (value, rest)

/-- The text of a value, where it has one, is no larger than a message may be. -/
def Fits (value : α) : Prop := ∀ body, toVec lib value = .ok body → body.length ≤ maxMessageBytes

/-- A value is written, and read back from what was written as it was. -/
def Survives (value : α) : Prop :=
  ∃ bytes, writeFrame lib value = .ok bytes ∧ readFrame lib bytes = .ok (value, [])

variable {lib} {value : α} {members : Members}

/-- A value that has no document is not written. -/
theorem not_survives_of_error {e : String} (h : serialize value = .error e) :
    ¬ Survives lib value := by
  rintro ⟨bytes, hwrite, _⟩
  rw [writeFrame, toVec, h] at hwrite
  cases hwrite

/-- What is read off the frame of a value's own text is what that text parses to. -/
theorem survives_iff_fromSlice (h : serialize value = .ok (.obj members)) (hfits : Fits lib value) :
    Survives lib value ↔
      lib.fromSlice (lib.toVec (.obj members)) >>= deserialize = .ok value := by
  have hvec : toVec lib value = .ok (lib.toVec (.obj members)) := by rw [toVec, h, map_ok]
  have hwrite : Frames.write limits (lib.toVec (.obj members)) = .ok _ :=
    if_neg (Nat.not_lt.2 (hfits _ hvec))
  have hread := Frames.read_write hwrite []
  rw [List.append_nil] at hread
  constructor
  · rintro ⟨bytes, hbytes, hvalue⟩
    rw [writeFrame, hvec] at hbytes
    simp only [hwrite] at hbytes
    cases hbytes
    simp only [readFrame, hread] at hvalue
    split at hvalue
    · cases hvalue
    next v hv => rw [hv, (Prod.mk.inj (Except.ok.inj hvalue)).1]
  · intro hvalue
    refine ⟨_, by rw [writeFrame, hvec]; simp only [hwrite]; rfl, ?_⟩
    simp only [readFrame, hread, hvalue]

/-- A document is read back unless it is nested too deeply, its fractions reread. -/
theorem survives_iff (h : serialize value = .ok (.obj members)) (hfits : Fits lib value)
    (hrange : ∀ i, .int i ∈ (Json.obj members).scalars → InRange i) :
    Survives lib value ↔ (Json.obj members).depth ≤ recursionLimit ∧
      deserialize ((Json.obj members).mapReal lib.reread) = .ok value := by
  rw [survives_iff_fromSlice h hfits]
  by_cases hdepth : (Json.obj members).depth ≤ recursionLimit
  · rw [lib.fromSlice_toVec members hrange hdepth, ok_bind, and_iff_right hdepth]
  · obtain ⟨e, he⟩ := lib.fromSlice_deep members hrange (Nat.not_le.1 hdepth)
    rw [he]
    exact iff_of_false (fun h => by cases h) fun h => hdepth h.1

theorem survives_of_written (h : Written value members) (hfits : Fits lib value) :
    Survives lib value :=
  (survives_iff h.serialize_eq hfits h.light.inRange).2
    ⟨h.light.depth_le.trans (by decide), h.light.mapReal_eq.symm ▸ h.deserialize_eq⟩

end Frames

/-! ## Which messages survive -/

/-- The levels of a dump around its rows leave this many for a row. -/
def rowLevels : Nat := 124

/-- A row is not nested too deeply and holds only fractions that are reread as they are. -/
def RowTravels (lib : SerdeJson) (row : Node) : Prop :=
  row.val.depth ≤ rowLevels ∧ ∀ d, .real d ∈ row.val.scalars → lib.reread d = d

/-- A response the tagged union has a document for, and that reads back unchanged. -/
def Travels (lib : SerdeJson) : Response → Prop
  | .full dump => ∀ row ∈ dump.entities.rows, RowTravels lib row
  | .conflicts _ => False
  | .resolved _ => False
  | _ => True

theorem survives_full_iff {lib : SerdeJson} {dump : FullDump}
    (hfits : Fits lib (Response.full dump)) :
    Survives lib (Response.full dump) ↔ ∀ row ∈ dump.entities.rows, RowTravels lib row := by
  have hrange : ∀ i, .int i ∈ (Json.obj (("result", .str "full") :: dump.members)).scalars →
      InRange i := by
    intro i hi
    rw [scalars_obj] at hi
    obtain ⟨p, hp, hi⟩ := List.mem_flatMap.1 hi
    rcases List.mem_cons.1 hp with rfl | hp
    · exact absurd hi (by simp [scalars])
    · exact dump.inRange_members p hp i hi
  have hdepth : (Json.obj (("result", .str "full") :: dump.members)).depth ≤ recursionLimit ↔
      ∀ row ∈ dump.entities.rows, row.val.depth ≤ rowLevels := by
    rw [recursionLimit, depth_obj_le_iff, List.forall_mem_cons]
    exact (and_iff_right (Nat.zero_le 126)).trans dump.depth_members_le_iff
  have htag : ∀ p ∈ (dump.mapReal lib.reread).members, p.1 ≠ "result" := by
    simp [FullDump.members]
  have hread : (deserialize ((Json.obj (("result", .str "full") :: dump.members)).mapReal
      lib.reread) : Except String Response) = .ok (.full (dump.mapReal lib.reread)) := by
    rw [mapReal_obj, List.map_cons, dump.members_mapReal]
    refine (Response.deserialize_tagged htag).trans ?_
    simp [Response.read, FullDump.read_members]
  rw [survives_iff rfl hfits hrange, hdepth, hread, Except.ok.injEq, Response.full.injEq,
    FullDump.mapReal_eq_self_iff, EntityDump.mapReal_eq_self_iff, ← forall₂_and]
  rfl

theorem survives_of_fits {lib : SerdeJson} {r : Response} (hfits : Fits lib r)
    (hfull : ∀ dump, r ≠ .full dump) (hconflicts : ∀ found, r ≠ .conflicts found)
    (hresolved : ∀ done, r ≠ .resolved done) : Survives lib r := by
  obtain ⟨members, h⟩ := r.exists_written hfull hconflicts hresolved
  exact survives_of_written h hfits

/-- Every request comes off the stream as it was sent, and of the responses exactly those
    that travel. -/
theorem messages_survive (lib : SerdeJson) :
    (∀ r : Request, Fits lib r → Survives lib r) ∧
      ∀ r : Response, Fits lib r → (Survives lib r ↔ Travels lib r) := by
  constructor
  · intro r hfits
    exact survives_of_written r.written hfits
  · intro r hfits
    cases r with
    | full dump => exact survives_full_iff hfits
    | conflicts found => exact iff_of_false (not_survives_of_error rfl) id
    | resolved done => exact iff_of_false (not_survives_of_error rfl) id
    | _ => exact iff_of_true (survives_of_fits hfits (fun _ h => by cases h) (fun _ h => by cases h)
        (fun _ h => by cases h)) trivial

/-- A dump of one row: a reader at page 3.5. -/
def oneRow : FullDump where
  version := 7
  deviceId := "D"
  entities :=
    { works := [], editions := [], editionGroups := [], seriesEntries := []
      digitalInventory := [], ownedEditions := [], editionsLoans := [], annotations := []
      readingLists := [], readingListBook := []
      readingProgress := [⟨.obj [("page", .real ⟨35, 0⟩)],
        .obj (List.pairwise_singleton _ _) (by simp [Valid.real])⟩] }

theorem fits_of_toVec {α : Type} [Wire α] {lib : SerdeJson} {value : α} {body : List UInt8}
    (h : toVec lib value = .ok body) (hle : body.length ≤ maxMessageBytes) : Fits lib value := by
  intro other hother
  cases Except.ok.inj (h.symm.trans hother)
  exact hle

set_option maxRecDepth 4000 in
theorem messages_survive_one_row :
    Survives .exact (Request.changes "t" 3 none) ∧ Survives .exact (Response.full oneRow) :=
  ⟨(messages_survive .exact).1 _ (fits_of_toVec rfl (by decide)),
    ((messages_survive .exact).2 _ (fits_of_toVec rfl (by decide))).2
      fun row hrow => by
        cases List.mem_singleton.1 hrow
        exact ⟨by decide, fun _ _ => rfl⟩⟩

/-- The flag that answers a resolved conflict is not written at all. -/
theorem not_survives_resolved :
    Fits .exact (Response.resolved true) ∧ ¬ Survives .exact (Response.resolved true) ∧
      writeFrame .exact (Response.resolved true) = .error (.json
        "cannot serialize tagged newtype variant Response::Resolved containing a boolean") :=
  ⟨fun _ h => (by cases h), not_survives_of_error rfl, by decide⟩

end SyncFraming
