import Livtet.Bodies
import Livtet.Lib.Runs
import Livtet.Tokens

/-! # Downloads that go on where they stopped

    A file request names a range and the tag of the file that the caller has begun. While
    the tag is the one of the file that is there, the range is served; otherwise the whole
    file is, and the caller starts over.

    The range is compared with the size first. A caller that holds more bytes of the old
    file than the new one has is refused, though its tag is stale
    (`lawful_iff`). Whatever it is served, it never holds bytes of two files, and it is
    refused exactly where the file has shrunk below what it holds (`intact_iff`). -/

namespace RangedFiles

open SyncStore (Env)
open SyncTokens (sampleId)
open SyncPairing (DbId WireState authorize)
open SyncMessages SyncBodies

/-! ## Serving a file -/

/-- A file on disk, and its modification time in nanoseconds since the epoch. -/
structure DiskFile where
  bytes : List UInt8
  modified : Option Int
  fits : bytes.length < 2 ^ 64

def DiskFile.size (f : DiskFile) : UInt64 := UInt64.ofNat f.bytes.length

/-- `{:x}` of a number. -/
def lowerHex (n : Nat) : String := String.ofList (Nat.toDigits 16 n)

/-- The etag of `file_metadata`. A time before the epoch counts as the epoch. -/
def DiskFile.etag (f : DiskFile) : String :=
  match f.modified with
  | some nanos => lowerHex f.size.toNat ++ "-" ++ lowerHex nanos.toNat
  | none => lowerHex f.size.toNat

def contentTypeFor (path : String) : String :=
  let lower := path.map Char.toLower
  if lower.endsWith ".pdf" then "application/pdf"
  else if lower.endsWith ".png" then "image/png"
  else if lower.endsWith ".jpg" || lower.endsWith ".jpeg" then "image/jpeg"
  else if lower.endsWith ".webp" then "image/webp"
  else "application/epub+zip"

/-- An answer, and the device that was authorized before it. -/
structure Answered where
  answer : Except (ErrorCode × String) (FileHeader × String)
  device : Option String

def Answered.error (code : ErrorCode) (message : String) : Answered := ⟨.error (code, message), none⟩

/-- The codes of an authorization. -/
def wireCode : SyncPairing.ErrorCode → ErrorCode
  | .badRequest => .badRequest
  | .unauthorized => .unauthorized
  | .notFound => .notFound
  | .tooManyRequests => .tooManyRequests
  | .internal => .internal

/-- Rows of `digital_inventory`: the file and the cover. -/
abbrev Inventory := DbId → Option (Option String × Option String)

def parseInventoryId (raw : String) : Option DbId := (HexText.decode raw).bind DbId.ofBytes?

def inventoryPaths (inventory : Inventory) (inventoryId : String) :
    Except (ErrorCode × String) (Option String × Option String) :=
  match parseInventoryId inventoryId with
  | none => .error (.badRequest, "invalid inventory id")
  | some id =>
      match inventory id with
      | none => .error (.notFound, "no such inventory")
      | some paths => .ok paths

/-- The header of a range of a file, and the precondition of the range. -/
def fileHeader (path : String) (f : DiskFile) (offset : UInt64) (length : Option UInt64)
    (ifRange : Option String) : Except (ErrorCode × String) FileHeader :=
  let total := f.size
  if offset > total then
    .error (.rangeNotSatisfiable total, "offset " ++ toString offset ++ " is past the " ++
      toString total ++ "-byte file")
  else
    let (start, size) :=
      if ifRange = some f.etag then
        let available := total - offset
        (offset, min (length.getD available) available)
      else (0, total)
    .ok { contentType := contentTypeFor path, offset := start, length := size, total, etag := f.etag }

section Requests

variable (env : Env) (wire : WireState) (inventory : Inventory) (disk : String → Option DiskFile)

def file (token remote inventoryId : String) (offset : UInt64) (length : Option UInt64)
    (ifRange : Option String) : Answered :=
  match authorize env wire token remote with
  | .error (code, message) => .error (wireCode code) message
  | .ok device =>
      match inventoryPaths inventory inventoryId with
      | .error (code, message) => .error code message
      | .ok (none, _) => .error .notFound "this inventory has no file"
      | .ok (some path, _) =>
          match disk path with
          | none => .error .notFound "the file is not on disk"
          | some f =>
              ⟨(fileHeader path f offset length ifRange).map fun header => (header, path),
                some device⟩

end Requests

/-! ## What an answer promises -/

/-- What is promised of the answer to a range of a file that is there. -/
structure Lawful (f : DiskFile) (offset : UInt64) (length : Option UInt64) (ifRange : Option String)
    (answer : Except (ErrorCode × String) FileHeader) : Prop where
  inside : ∀ header, answer = .ok header →
    header.total = f.size ∧ header.offset.toNat + header.length.toNat ≤ f.bytes.length
  current : ifRange = some f.etag →
    (offset ≤ f.size → ∃ header, answer = .ok header ∧ header.offset = offset ∧
      header.length = min (length.getD (f.size - offset)) (f.size - offset)) ∧
    ((∃ message, answer = .error (.rangeNotSatisfiable f.size, message)) ↔ f.size < offset)
  stale : ifRange ≠ some f.etag →
    ∃ header, answer = .ok header ∧ header.offset = 0 ∧ header.length = f.size

section Headers

variable {path : String} {f : DiskFile} {offset : UInt64} {length : Option UInt64}
  {ifRange : Option String}

theorem size_toNat (f : DiskFile) : f.size.toNat = f.bytes.length :=
  UInt64.toNat_ofNat_of_lt' f.fits

theorem fileHeader_past (h : f.size < offset) :
    ∃ message, fileHeader path f offset length ifRange =
      .error (.rangeNotSatisfiable f.size, message) := by
  rw [fileHeader]
  exact ⟨_, if_pos h⟩

/-- The file that the caller has begun goes on. -/
theorem fileHeader_current (h : ¬ f.size < offset) :
    fileHeader path f offset length (some f.etag) = .ok
      { contentType := contentTypeFor path, offset
        length := min (length.getD (f.size - offset)) (f.size - offset)
        total := f.size, etag := f.etag } := by
  rw [fileHeader]
  dsimp only
  rw [if_neg h, if_pos rfl]

/-- Another file is served whole. -/
theorem fileHeader_stale (h : ¬ f.size < offset) (hstale : ifRange ≠ some f.etag) :
    fileHeader path f offset length ifRange = .ok
      { contentType := contentTypeFor path, offset := 0, length := f.size
        total := f.size, etag := f.etag } := by
  rw [fileHeader]
  dsimp only
  rw [if_neg h, if_neg hstale]

theorem min_toNat_le (a b : UInt64) : (min a b).toNat ≤ b.toNat := by
  show (if a ≤ b then a else b).toNat ≤ _
  split
  next h => exact UInt64.le_iff_toNat_le.1 h
  next => exact Nat.le_refl _

theorem toNat_range (h : ¬ f.size < offset) :
    offset.toNat + (min (length.getD (f.size - offset)) (f.size - offset)).toNat ≤
      f.bytes.length := by
  have hle : offset ≤ f.size := UInt64.not_lt.1 h
  have hmin : (min (length.getD (f.size - offset)) (f.size - offset)).toNat ≤
      (f.size - offset).toNat := min_toNat_le _ _
  rw [UInt64.toNat_sub_of_le _ _ hle] at hmin
  rw [UInt64.le_iff_toNat_le, size_toNat] at hle
  rw [size_toNat] at hmin
  omega

/-- A header is as promised exactly if it was not refused for a stale range. -/
theorem lawful_iff : Lawful f offset length ifRange (fileHeader path f offset length ifRange) ↔
    (f.size < offset → ifRange = some f.etag) := by
  constructor
  · intro h hpast
    by_contra hstale
    obtain ⟨header, hok, _⟩ := h.stale hstale
    obtain ⟨message, herror⟩ := @fileHeader_past path f offset length ifRange hpast
    rw [herror] at hok
    cases hok
  · intro hcurrent
    by_cases hpast : f.size < offset
    · obtain ⟨message, herror⟩ := @fileHeader_past path f offset length ifRange hpast
      rw [herror]
      refine ⟨fun header h => ?_, fun _ => ⟨fun hle => ?_, ?_⟩, fun hstale => ?_⟩
      · cases h
      · exact absurd hpast (UInt64.not_lt.2 hle)
      · exact iff_of_true ⟨message, rfl⟩ hpast
      · exact absurd (hcurrent hpast) hstale
    · -- the tag decides whether the range is served or the whole file
      by_cases hsame : ifRange = some f.etag
      · rw [hsame, fileHeader_current hpast]
        refine ⟨fun header h => ?_, fun _ => ⟨fun _ => ⟨_, rfl, rfl, rfl⟩, ?_⟩, fun hstale => ?_⟩
        · cases h
          exact ⟨rfl, toNat_range hpast⟩
        · refine iff_of_false ?_ hpast
          rintro ⟨message, h⟩
          cases h
        · exact absurd rfl hstale
      · rw [fileHeader_stale hpast hsame]
        refine ⟨fun header h => ?_, fun h => absurd h hsame, fun _ => ⟨_, rfl, rfl, rfl⟩⟩
        cases h
        refine ⟨rfl, ?_⟩
        show 0 + f.size.toNat ≤ _
        rw [size_toNat, Nat.zero_add]

end Headers

/-! ## A caller that goes on -/

/-- What a caller holds of a file, and the tag that came with it. -/
structure Download where
  held : List UInt8
  tag : Option String

/-- The caller appends a body that starts where it stopped, and starts over with one that
    starts at the beginning. -/
def Download.receive (d : Download) (header : FileHeader) (bytes : List UInt8) : Download :=
  if header.offset.toNat = d.held.length then ⟨d.held ++ bytes, some header.etag⟩
  else if header.offset = 0 then ⟨bytes, some header.etag⟩
  else d

/-- The file that is there, all that were, and a caller. -/
structure State where
  current : DiskFile
  versions : List DiskFile
  download : Download
  refused : Bool

inductive Action
  | replace (f : DiskFile)
  | fetch (length : Option UInt64) (arriving : Nat)

section Downloads

variable (env : Env) (wire : WireState) (inventory : Inventory) (path token remote inventoryId : String)

/-- The caller asks for the bytes after those it holds. Of the body, the first `arriving`
    bytes arrive. Files that replace one another have different tags. -/
def step (s : State) : Action → State
  | .replace f =>
      if f.etag ∈ s.versions.map DiskFile.etag then s
      else { s with current := f, versions := f :: s.versions }
  | .fetch length arriving =>
      match (file env wire inventory (fun p => if p = path then some s.current else none) token
          remote inventoryId (UInt64.ofNat s.download.held.length) length s.download.tag).answer with
      | .error _ => { s with refused := true }
      | .ok (header, _) =>
          { s with
            download := s.download.receive header
              ((serveBody s.current.bytes header).bytes.take arriving) }

/-- A caller that holds nothing yet. -/
def startState (f : DiskFile) : State := ⟨f, [f], ⟨[], none⟩, false⟩

/-- The caller holds bytes of one file only, and was never refused. -/
structure Intact (s : State) : Prop where
  oneVersion : ∃ f ∈ s.versions, s.download.held <+: f.bytes
  served : s.refused = false

/-- The file that is there is the caller's, or has as many bytes as the caller holds. -/
def Roomy (s : State) : Action → Prop
  | .replace _ => True
  | .fetch _ _ => s.download.held.length ≤ s.current.bytes.length ∨
      s.download.tag = some s.current.etag

/-- What the caller holds is of the file with its tag. -/
structure Tagged (s : State) : Prop where
  current : s.current ∈ s.versions
  tags : (s.versions.map DiskFile.etag).Nodup
  held : s.download.held = [] ∧ s.download.tag = none ∨
    ∃ f ∈ s.versions, s.download.tag = some f.etag ∧ s.download.held <+: f.bytes
  served : s.refused = false

end Downloads

section Steps

variable {env : Env} {wire : WireState} {inventory : Inventory}
  {path token remote inventoryId device : String} {cover : Option String} {s : State}

/-- An authorized request for a file that is there is answered with its header. -/
theorem answer_file {disk : String → Option DiskFile} {f : DiskFile} {offset : UInt64}
    {length : Option UInt64} {ifRange : Option String}
    (hauth : authorize env wire token remote = .ok device)
    (hpath : inventoryPaths inventory inventoryId = .ok (some path, cover))
    (hdisk : disk path = some f) :
    file env wire inventory disk token remote inventoryId offset length ifRange =
      ⟨(fileHeader path f offset length ifRange).map fun header => (header, path), some device⟩ := by
  rw [file, hauth]
  dsimp only
  rw [hpath]
  dsimp only
  rw [hdisk]

theorem Tagged.held_le (h : Tagged s) : s.download.held.length < 2 ^ 64 := by
  rcases h.held with ⟨hempty, _⟩ | ⟨f, _, _, hprefix⟩
  · rw [hempty]
    exact Nat.two_pow_pos 64
  · exact Nat.lt_of_le_of_lt hprefix.length_le f.fits

theorem Tagged.intact (h : Tagged s) : Intact s := by
  refine ⟨?_, h.served⟩
  rcases h.held with ⟨hempty, _⟩ | ⟨f, hf, _, hprefix⟩
  · exact ⟨s.current, h.current, hempty ▸ List.nil_prefix⟩
  · exact ⟨f, hf, hprefix⟩

/-- The tag tells the file that the caller holds bytes of. -/
theorem Tagged.prefix_of_tag (h : Tagged s) (htag : s.download.tag = some s.current.etag) :
    s.download.held <+: s.current.bytes := by
  rcases h.held with ⟨_, hnone⟩ | ⟨f, hf, hsome, hprefix⟩
  · rw [hnone] at htag
    cases htag
  · have hsame : f = s.current := List.inj_on_of_nodup_map h.tags hf h.current
      (Option.some.inj (hsome.symm.trans htag))
    exact hsame ▸ hprefix

theorem offset_le_iff (h : s.download.held.length < 2 ^ 64) :
    ¬ s.current.size < UInt64.ofNat s.download.held.length ↔
      s.download.held.length ≤ s.current.bytes.length := by
  rw [UInt64.lt_iff_toNat_lt, size_toNat, UInt64.toNat_ofNat_of_lt' h, Nat.not_lt]

/-- A request is refused exactly if the file has shrunk below what the caller holds. -/
theorem refused_fetch (hauth : authorize env wire token remote = .ok device)
    (hpath : inventoryPaths inventory inventoryId = .ok (some path, cover)) (h : Tagged s)
    {length : Option UInt64} {arriving : Nat} :
    (step env wire inventory path token remote inventoryId s (.fetch length arriving)).refused =
        false ↔ s.download.held.length ≤ s.current.bytes.length := by
  have hserved := h.served
  rw [← offset_le_iff h.held_le, step, answer_file hauth hpath (if_pos rfl)]
  dsimp only
  by_cases hpast : s.current.size < UInt64.ofNat s.download.held.length
  · obtain ⟨message, herror⟩ := @fileHeader_past path s.current _ length s.download.tag hpast
    rw [herror]
    exact iff_of_false Bool.false_ne_true.symm (not_not_intro hpast)
  · by_cases hsame : s.download.tag = some s.current.etag
    · rw [hsame, fileHeader_current hpast]
      exact iff_of_true hserved hpast
    · rw [fileHeader_stale hpast hsame]
      exact iff_of_true hserved hpast

theorem tagged_replace (h : Tagged s) {f : DiskFile} :
    Tagged (step env wire inventory path token remote inventoryId s (.replace f)) := by
  rw [step]
  split
  · exact h
  next hnew =>
    refine ⟨List.mem_cons_self, List.nodup_cons.2 ⟨hnew, h.tags⟩, ?_, h.served⟩
    refine h.held.imp id ?_
    rintro ⟨g, hg, hrest⟩
    exact ⟨g, List.mem_cons_of_mem _ hg, hrest⟩

theorem take_take_prefix {bytes : List UInt8} {a b : Nat} : (bytes.take a).take b <+: bytes :=
  (List.take_prefix _ _).trans (List.take_prefix _ _)

/-- What arrives of the rest of the file, after a prefix of it, is a longer prefix. -/
theorem prefix_append {held bytes : List UInt8} (h : held <+: bytes) {a b : Nat} :
    held ++ ((bytes.drop held.length).take a).take b <+: bytes := by
  obtain ⟨rest, rfl⟩ := h
  rw [List.drop_left]
  exact (List.prefix_append_right_inj held).2 take_take_prefix

theorem tagged_fetch (hauth : authorize env wire token remote = .ok device)
    (hpath : inventoryPaths inventory inventoryId = .ok (some path, cover)) (h : Tagged s)
    {length : Option UInt64} {arriving : Nat}
    (hroomy : s.download.held.length ≤ s.current.bytes.length) :
    Tagged (step env wire inventory path token remote inventoryId s (.fetch length arriving)) := by
  have hpast := (offset_le_iff h.held_le).2 hroomy
  have hoffset : (UInt64.ofNat s.download.held.length).toNat = s.download.held.length :=
    UInt64.toNat_ofNat_of_lt' h.held_le
  rw [step, answer_file hauth hpath (if_pos rfl)]
  dsimp only
  by_cases hsame : s.download.tag = some s.current.etag
  · rw [hsame, fileHeader_current hpast]
    refine ⟨h.current, h.tags, Or.inr ⟨s.current, h.current, ?_⟩, h.served⟩
    show (Download.receive _ _ _).tag = _ ∧ (Download.receive _ _ _).held <+: _
    rw [Download.receive, if_pos hoffset]
    refine ⟨rfl, ?_⟩
    show s.download.held ++ (List.take _ (List.take _ (List.drop _ _))) <+: _
    rw [hoffset]
    exact prefix_append (h.prefix_of_tag hsame)
  · rw [fileHeader_stale hpast hsame]
    refine ⟨h.current, h.tags, Or.inr ⟨s.current, h.current, ?_⟩, h.served⟩
    show (Download.receive _ _ _).tag = _ ∧ (Download.receive _ _ _).held <+: _
    rw [Download.receive]
    dsimp only
    split
    next hzero =>
      -- the caller holds nothing, and appends the whole file
      refine ⟨rfl, ?_⟩
      have hempty : s.download.held = [] := List.length_eq_zero_iff.1 hzero.symm
      rw [hempty]
      exact take_take_prefix
    next =>
      rw [if_pos rfl]
      exact ⟨rfl, take_take_prefix⟩

end Steps

/-- **A DOWNLOAD RESUMES OR STARTS OVER**: a header is as promised exactly if it is not past the
    end of a file that is not the caller's; and through any replacements, a caller holds bytes
    of one file and is never refused exactly if no file that replaces its own is shorter than
    what it holds. -/
theorem resumes_iff (env : Env) (wire : WireState) (inventory : Inventory)
    (path token remote inventoryId device : String) (cover : Option String)
    (hauth : authorize env wire token remote = .ok device)
    (hpath : inventoryPaths inventory inventoryId = .ok (some path, cover)) :
    (∀ disk f offset length ifRange, disk path = some f →
      (Lawful f offset length ifRange
          ((file env wire inventory disk token remote inventoryId offset length
            ifRange).answer.map Prod.fst) ↔
        (f.size < offset → ifRange = some f.etag))) ∧
    ∀ f run, (∀ pre, pre <+: run → Intact
        (Runs.exec (step env wire inventory path token remote inventoryId) (startState f) pre)) ↔
      Runs.Admitted (step env wire inventory path token remote inventoryId) Roomy
        (startState f) run := by
  constructor
  · intro disk f offset length ifRange hdisk
    rw [answer_file hauth hpath hdisk]
    have hmap : ((fileHeader path f offset length ifRange).map fun header => (header, path)).map
        Prod.fst = fileHeader path f offset length ifRange := by
      cases fileHeader path f offset length ifRange <;> rfl
    rw [hmap]
    exact lawful_iff
  · intro f run
    -- a run starts from a file with nothing fetched; each step keeps what was fetched a prefix
    have hstart : Tagged (startState f) :=
      ⟨List.mem_singleton_self _, List.nodup_singleton _, Or.inl ⟨rfl, rfl⟩, rfl⟩
    refine @Runs.observed_iff_admitted _ _ (step env wire inventory path token remote inventoryId)
      Roomy Tagged Intact (fun s hs => hs.intact) (fun s a hs hseen => ?_)
      (fun s a hs hguard => ?_) _ run hstart
    · cases a with
      | replace g => trivial
      | fetch length arriving => exact Or.inl ((refused_fetch hauth hpath hs).1 hseen.served)
    · cases a with
      | replace g => exact tagged_replace hs
      | fetch length arriving =>
          refine tagged_fetch hauth hpath hs (hguard.elim id fun htag => ?_)
          exact (hs.prefix_of_tag htag).length_le

/-! ## A paired caller and one file -/

/-- A daemon that has paired one device. -/
def startWire : WireState :=
  let paired := (SyncPairing.PairedDevices.empty.upsert (sampleId 2) none).setToken (sampleId 2)
    "token" "node"
  { SyncTokens.startState.wire with
    paired := paired.toOption.getD SyncPairing.PairedDevices.empty }

/-- One row of the inventory, for an EPUB. -/
def startInventory : Inventory :=
  fun id => if id = sampleId 2 then some (some "dune.epub", none) else none

def longFile : DiskFile := ⟨[1, 1, 1, 1], some 1, by decide⟩

def shortFile : DiskFile := ⟨[2, 2, 2], some 2, by decide⟩

theorem authorize_start :
    authorize Env.reference startWire "token" "node" = .ok ((sampleId 2).text Env.reference) := by
  decide

theorem inventoryPaths_start :
    inventoryPaths startInventory "02020202020202020202020202020202" =
      .ok (some "dune.epub", none) := by
  decide

/-- A caller that holds four bytes is refused by the three bytes that replaced its file. -/
theorem not_resumes_shorter_file :
    ¬ Lawful shortFile 4 none (some longFile.etag)
        ((file Env.reference startWire startInventory (fun _ => some shortFile) "token" "node"
          "02020202020202020202020202020202" 4 none (some longFile.etag)).answer.map Prod.fst) ∧
      ¬ ∀ pre, pre <+: [Action.fetch none 4, .replace shortFile, .fetch none 4] →
        Intact (Runs.exec (step Env.reference startWire startInventory "dune.epub" "token" "node"
          "02020202020202020202020202020202") (startState longFile) pre) := by
  constructor
  · intro h
    obtain ⟨header, hok, _⟩ := h.stale (by decide)
    have hrefused : ((file Env.reference startWire startInventory (fun _ => some shortFile) "token"
        "node" "02020202020202020202020202020202" 4 none (some longFile.etag)).answer.map
          Prod.fst).toOption = none := by decide
    rw [hok] at hrefused
    cases hrefused
  · intro h
    have hserved := (h _ (List.prefix_refl _)).served
    have hrefused : (Runs.exec (step Env.reference startWire startInventory "dune.epub" "token"
        "node" "02020202020202020202020202020202") (startState longFile)
        [Action.fetch none 4, .replace shortFile, .fetch none 4]).refused = true := by decide
    rw [hserved] at hrefused
    cases hrefused

/-- A caller that holds two bytes starts over with the four that replaced its file. -/
theorem resumes_iff_longer_file :
    Intact (Runs.exec (step Env.reference startWire startInventory "dune.epub" "token" "node"
      "02020202020202020202020202020202") (startState shortFile)
      [.fetch none 2, .replace longFile, .fetch none 4]) := by
  have hruns := (resumes_iff Env.reference startWire startInventory "dune.epub" "token" "node"
    "02020202020202020202020202020202" _ none authorize_start inventoryPaths_start).2 shortFile
      [.fetch none 2, .replace longFile, .fetch none 4]
  refine hruns.2 ⟨Or.inl ?_, trivial, Or.inl ?_, trivial⟩ _ (List.prefix_refl _)
  · decide
  · decide

end RangedFiles
