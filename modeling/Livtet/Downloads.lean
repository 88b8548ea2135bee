import Livtet.Calls

/-! # Downloads — a book that is fetched from a peer

    The daemon fetches the file of an offered book, and its cover if there is one, from
    the peer that offers it. The header says how many bytes the file had when the peer
    looked; the bytes are sent afterwards, of the file as it is then. So a fetched file
    is the peer's as far as the header reaches, and all of it where the file was left
    alone; a cover that is cut short is an error, and a file is one only where its stream
    breaks. -/

namespace SyncCalls

open JsonText JsonText.Json TaggedJson SyncMessages SyncEnvelopes SyncFraming SyncBodies
open SyncEndpoint (Answered Endpoint FileBody Moment Outcome)
open SyncPeers (NodeIds)
open RangedFiles (DiskFile)

/-! ## The daemon's side -/

/-- Why a fetch failed: the peer's error under the name of what was done, or the disk's. -/
inductive FetchError
  | remote (operation : String) (e : ClientError)
  | write (message : String)

section Fetching

variable {σ : Type} (lib : SerdeJson) (link : Link σ) (debug : Response → String) (client : Client)

/-- `Peer::download_file`: what the destination holds. -/
def fetchFile (create : Except String Unit) (inventoryId : String) (s : σ) :
    Except FetchError (List UInt8) × σ :=
  let asked := file lib link debug client inventoryId 0 none none s
  (match asked.1 with
    | .error e => .error (.remote "download file" e)
    | .ok (_, body) =>
        match create with
        | .error message => .error (.write ("write received file: " ++ message))
        | .ok () =>
            match body.copyTo with
            | (_, .error e) => .error (.remote "receive file" (.body e))
            | (copied, .ok _) => .ok copied,
    asked.2)

/-- `Peer::cover`. -/
def fetchCover (inventoryId : String) (s : σ) :
    Except FetchError (Option (String × List UInt8)) × σ :=
  let asked := cover lib link debug client inventoryId s
  (match asked.1 with
    | .error e => .error (.remote "download cover" e)
    | .ok none => .ok none
    | .ok (some (header, bytes)) => .ok (some (header.contentType, bytes)),
    asked.2)

end Fetching

/-! ## What a peer has -/

section Statement

variable (env : SyncStore.Env) (q : SyncPrivacy.LogQueries env) (lib : SerdeJson)
variable (sqlText : SqlRows.SqlError → String) (m : Moment) (remote : String) (ids : NodeIds)
variable (reach : String → Except String Unit) (files : String → Option (List UInt8))
variable (dropped : Ending)

/-- The header of a whole file. -/
def wholeHeader (path : String) (f : DiskFile) : FileHeader where
  contentType := RangedFiles.contentTypeFor path
  offset := 0
  length := f.size
  total := f.size
  etag := f.etag

/-- The file that a peer finds for a caller in a column of its inventory, or what it says
    where it finds none. -/
def found (column : Option String × Option String → Option String) (missing token inventoryId : String)
    (s : Endpoint) : Except SyncEndpoint.Failure (String × DiskFile) :=
  if remote = s.wire.selfNode then .error (.badRequest, "a device cannot sync with itself")
  else match SyncEndpoint.authorize env m s.wire token remote with
    | .error e => .error e
    | .ok _ =>
        match SyncEndpoint.inventoryPaths m inventoryId s.db with
        | .error e => .error e
        | .ok paths =>
            match column paths with
            | none => .error (.notFound, missing)
            | some path =>
                match m.disk path with
                | none => .error (.notFound, "the file is not on disk")
                | some f => .ok (path, f)

def foundFile : String → String → Endpoint → Except SyncEndpoint.Failure (String × DiskFile) :=
  found env m remote Prod.fst "this inventory has no file"

def foundCover : String → String → Endpoint → Except SyncEndpoint.Failure (String × DiskFile) :=
  found env m remote Prod.snd "this inventory has no cover"

/-- What arrives behind the header of a whole file: the file as it is when it is sent, or
    nothing if it is gone by then. -/
def sentWhole (path : String) (f : DiskFile) : RecvStream :=
  match files path with
  | none => { bytes := [], ending := dropped }
  | some file => { bytes := file.take f.bytes.length, ending := .finished }

variable (debug : Response → String) (client : Client) (create : Except String Unit)
variable (inventoryId : String) (s : Endpoint)

/-- What a fetch is held to. -/
structure Fetched : Prop where
  /-- The peer's library and its pairings are as they were. -/
  untouched :
    let link := endpointLink env q lib sqlText m remote ids reach files dropped
    ((fetchFile lib link debug client create inventoryId s).2.db = s.db ∧
      (fetchFile lib link debug client create inventoryId s).2.wire = s.wire) ∧
    (fetchCover lib link debug client inventoryId s).2.db = s.db ∧
      (fetchCover lib link debug client inventoryId s).2.wire = s.wire
  /-- A file is fetched exactly where the peer has it for the caller and its stream does
      not break, and then it is what was sent. -/
  file : ∀ contents,
    let link := endpointLink env q lib sqlText m remote ids reach files dropped
    (fetchFile lib link debug client create inventoryId s).1 = .ok contents ↔
      create = .ok () ∧ ∃ token path f, client.token = some token ∧
        Asks lib link client (.file token inventoryId 0 none none) ∧
        foundFile env m remote token inventoryId s = .ok (path, f) ∧
        Fits lib (Response.file (wholeHeader path f)) ∧
        (sentWhole files dropped path f).bytes = contents ∧
        ¬ (contents.length < f.bytes.length ∧ (sentWhole files dropped path f).ending = .broken)
  /-- A cover is fetched exactly where the peer has it and all of it was sent. -/
  cover : ∀ contentType bytes,
    let link := endpointLink env q lib sqlText m remote ids reach files dropped
    (fetchCover lib link debug client inventoryId s).1 = .ok (some (contentType, bytes)) ↔
      ∃ token path f, client.token = some token ∧
        Asks lib link client (.cover token inventoryId) ∧
        foundCover env m remote token inventoryId s = .ok (path, f) ∧
        Fits lib (Response.cover (wholeHeader path f)) ∧
        RangedFiles.contentTypeFor path = contentType ∧
        (sentWhole files dropped path f).bytes = bytes ∧ bytes.length = f.bytes.length
  /-- There is no cover exactly where the peer finds none. -/
  noCover :
    let link := endpointLink env q lib sqlText m remote ids reach files dropped
    (fetchCover lib link debug client inventoryId s).1 = .ok none ↔
      ∃ token message, client.token = some token ∧
        Asks lib link client (.cover token inventoryId) ∧
        foundCover env m remote token inventoryId s = .error (.notFound, message) ∧
        Fits lib (Response.error .notFound message)
  /-- A file that is sent as it was when the peer looked is sent whole. -/
  intact : ∀ path f, files path = some f.bytes → (sentWhole files dropped path f).bytes = f.bytes

end Statement

/-! ## On the wire -/

section Wire

variable {σ : Type} {lib : SerdeJson} {link : Link σ} {client : Client} {request : Request} {s : σ}
variable {response : Response} {body : FileBody} {members : Members}

/-- The bytes behind a header. -/
def window (link : Link σ) (body : FileBody) : RecvStream :=
  match link.files body.path with
  | none => { bytes := [], ending := link.dropped }
  | some file =>
      { bytes := (file.drop body.offset.toNat).take body.length.toNat, ending := .finished }

theorem respond_body {frame : List UInt8} (h : writeFrame lib response = .ok frame) :
    respond lib link ⟨response, some body⟩ =
      { window link body with bytes := frame ++ (window link body).bytes } := by
  rw [respond, h, window]
  dsimp only
  cases link.files body.path with
  | none => rw [List.append_nil]
  | some file => rfl

/-- A header that fits a message arrives with the bytes behind it. -/
theorem receive_body (hwritten : Written response members) (hwants : wantsBytes response = true)
    (hfits : Fits lib response) :
    receive lib (respond lib link ⟨response, some body⟩) =
      .ok { response, bytes := some (window link body) } := by
  obtain ⟨frame, hframe⟩ := (exists_writeFrame_iff hwritten.serialize_eq).2 hfits
  rw [respond_body hframe, receive_of_readFrame (readFrame_written hwritten hframe _), if_pos hwants]

/-- An answer without a body arrives alone. -/
theorem receive_plain (hwritten : Written response members) (hwants : wantsBytes response = false)
    (hfits : Fits lib response) :
    receive lib (respond lib link ⟨response, none⟩) = .ok { response, bytes := none } := by
  obtain ⟨frame, hframe⟩ := (exists_writeFrame_iff hwritten.serialize_eq).2 hfits
  have hread := readFrame_written hwritten hframe []
  rw [List.append_nil] at hread
  rw [respond, hframe]
  dsimp only
  rw [receive_of_readFrame hread, if_neg (by rw [hwants]; decide)]

theorem receive_unwritten {outcome : Outcome} (hwritten : Written outcome.response members)
    (hfits : ¬ Fits lib outcome.response) :
    receive lib (respond lib link outcome) = .error (.frame .unexpectedEof) := by
  cases hframe : writeFrame lib outcome.response with
  | error e => exact receive_of_error hframe
  | ok frame =>
      exact absurd ((exists_writeFrame_iff hwritten.serialize_eq).1 ⟨frame, hframe⟩) hfits

theorem send_of_asks (h : Asks lib link client request) : send lib link client request s =
    (heard (receive lib (respond lib link (link.answer request s).1)), (link.answer request s).2) := by
  rw [send, h.1]
  simp only [call_of_fits h.2]

/-- Where the peer is not asked, it says nothing. -/
theorem send_of_not_asks (h : ¬ Asks lib link client request) :
    ∃ e, send lib link client request s = (.error e, s) ∧ ∀ code message, e ≠ .remote code message := by
  rw [send]
  cases hdial : dial link client.nodeId with
  | error e => exact ⟨_, rfl, fun _ _ h => by cases h⟩
  | ok _ =>
      obtain ⟨e, he⟩ := call_of_not_fits link s fun hfits => h ⟨hdial, hfits⟩
      rw [he]
      exact ⟨_, rfl, fun _ _ h => by cases h⟩

end Wire

/-! ## What the peer answers -/

/-- The answer to a request for a whole file. -/
def wholeAnswer (header : FileHeader → Response) :
    Except SyncEndpoint.Failure (String × DiskFile) → Outcome
  | .error e => ⟨.error e.1 e.2, none⟩
  | .ok (path, f) => ⟨header (wholeHeader path f), some ⟨path, 0, f.size⟩⟩

section Peer

variable {env : SyncStore.Env} {q : SyncPrivacy.LogQueries env} {lib : SerdeJson}
variable {sqlText : SqlRows.SqlError → String} {m : Moment} {remote : String} {ids : NodeIds}
variable {reach : String → Except String Unit} {files : String → Option (List UInt8)}
variable {dropped : Ending} {token inventoryId : String} {s : Endpoint}

theorem fileHeader_whole (path : String) (f : DiskFile) :
    RangedFiles.fileHeader path f 0 none none = .ok (wholeHeader path f) := by
  rw [RangedFiles.fileHeader_stale (UInt64.not_lt.2 (UInt64.le_iff_toNat_le.2 (Nat.zero_le _)))
    (Option.some_ne_none _).symm]
  rfl

theorem dispatch_file : ∃ device,
    SyncEndpoint.dispatch env q lib sqlText m remote (.file token inventoryId 0 none none) s =
      (⟨wholeAnswer .file (foundFile env m remote token inventoryId s), device⟩, s) := by
  rw [SyncEndpoint.dispatch, foundFile, found]
  by_cases hself : remote = s.wire.selfNode
  · rw [if_pos hself, if_pos hself]
    exact ⟨_, rfl⟩
  rw [if_neg hself, if_neg hself, SyncEndpoint.withDevice]
  cases SyncEndpoint.authorize env m s.wire token remote with
  | error e => exact ⟨_, rfl⟩
  | ok device =>
      dsimp only
      rw [SyncEndpoint.file]
      cases SyncEndpoint.inventoryPaths m inventoryId s.db with
      | error e => exact ⟨_, rfl⟩
      | ok paths =>
          obtain ⟨path, cover⟩ := paths
          cases path with
          | none => exact ⟨_, rfl⟩
          | some path =>
              dsimp only
              cases m.disk path with
              | none => exact ⟨_, rfl⟩
              | some f =>
                  dsimp only
                  rw [fileHeader_whole]
                  exact ⟨_, rfl⟩

theorem dispatch_cover : ∃ device,
    SyncEndpoint.dispatch env q lib sqlText m remote (.cover token inventoryId) s =
      (⟨wholeAnswer .cover (foundCover env m remote token inventoryId s), device⟩, s) := by
  rw [SyncEndpoint.dispatch, foundCover, found]
  by_cases hself : remote = s.wire.selfNode
  · rw [if_pos hself, if_pos hself]
    exact ⟨_, rfl⟩
  rw [if_neg hself, if_neg hself, SyncEndpoint.withDevice]
  cases SyncEndpoint.authorize env m s.wire token remote with
  | error e => exact ⟨_, rfl⟩
  | ok device =>
      dsimp only
      rw [SyncEndpoint.cover]
      cases SyncEndpoint.inventoryPaths m inventoryId s.db with
      | error e => exact ⟨_, rfl⟩
      | ok paths =>
          obtain ⟨file, path⟩ := paths
          cases path with
          | none => exact ⟨_, rfl⟩
          | some path =>
              dsimp only
              cases m.disk path with
              | none => exact ⟨_, rfl⟩
              | some f => exact ⟨_, rfl⟩

variable (ids reach files dropped) in
/-- A request that only reads changes the peer's record of its requests, and no more. -/
theorem answer_of_dispatch {request : Request} {outcome : Outcome}
    (h : ∃ device, SyncEndpoint.dispatch env q lib sqlText m remote request s =
      (⟨outcome, device⟩, s)) :
    let answered := (endpointLink env q lib sqlText m remote ids reach files dropped).answer request s
    answered.1 = outcome ∧ answered.2.db = s.db ∧ answered.2.wire = s.wire := by
  obtain ⟨device, h⟩ := h
  show (SyncEndpoint.answer env q lib sqlText m remote request s).1.outcome = outcome ∧ _
  simp only [endpointLink, SyncEndpoint.answer, h, true_and]
  exact ⟨rfl, rfl⟩

theorem window_whole (path : String) (f : DiskFile) :
    window (endpointLink env q lib sqlText m remote ids reach files dropped) ⟨path, 0, f.size⟩ =
      sentWhole files dropped path f := by
  rw [window, sentWhole]
  show (match files path with
    | none => _
    | some file => RecvStream.mk ((file.drop 0).take f.size.toNat) .finished) = _
  rw [RangedFiles.size_toNat]
  rfl

/-- What the caller hears: the header with what was sent, the peer's refusal, or nothing
    that it can read. -/
def HearsWhole (lib : SerdeJson) (files : String → Option (List UInt8)) (dropped : Ending)
    (header : FileHeader → Response) (r : Except SyncEndpoint.Failure (String × DiskFile))
    (answered : Except ClientError Exchange) : Prop :=
  (¬ Fits lib (wholeAnswer header r).response → ∃ e, answered = .error (.wire e)) ∧
  (Fits lib (wholeAnswer header r).response → answered =
    match r with
    | .error e => .error (.remote e.1 e.2)
    | .ok (path, f) => .ok ⟨header (wholeHeader path f), some (sentWhole files dropped path f)⟩)

theorem send_whole {header : FileHeader → Response} (hheader : header = .file ∨ header = .cover)
    {r : Except SyncEndpoint.Failure (String × DiskFile)} {request : Request} {client : Client}
    (hasks : Asks lib (endpointLink env q lib sqlText m remote ids reach files dropped) client request)
    (hdispatch : ∃ device, SyncEndpoint.dispatch env q lib sqlText m remote request s =
      (⟨wholeAnswer header r, device⟩, s)) :
    HearsWhole lib files dropped header r
      (send lib (endpointLink env q lib sqlText m remote ids reach files dropped) client request s).1 := by
  rw [send_of_asks hasks, (answer_of_dispatch ids reach files dropped hdispatch).1]
  have hwritten : ∃ members, Written (wholeAnswer header r).response members := by
    refine Response.exists_written _ ?_ ?_ ?_ <;>
      cases r <;> rcases hheader with rfl | rfl <;> exact fun _ h => by cases h
  obtain ⟨members, hwritten⟩ := hwritten
  refine ⟨fun hfits => ⟨_, congrArg heard (receive_unwritten hwritten hfits)⟩, fun hfits => ?_⟩
  cases r with
  | error e => exact congrArg heard (receive_plain hwritten rfl hfits)
  | ok found =>
      obtain ⟨path, f⟩ := found
      have hwants : wantsBytes (header (wholeHeader path f)) = true := by
        rcases hheader with rfl | rfl <;> rfl
      refine (congrArg heard (receive_body hwritten hwants hfits)).trans ?_
      rw [window_whole]
      rcases hheader with rfl | rfl <;> rfl

theorem send_untouched {outcome : Outcome} {request : Request} {client : Client}
    (hdispatch : ∃ device, SyncEndpoint.dispatch env q lib sqlText m remote request s =
      (⟨outcome, device⟩, s)) :
    let link := endpointLink env q lib sqlText m remote ids reach files dropped
    (send lib link client request s).2.db = s.db ∧ (send lib link client request s).2.wire = s.wire := by
  intro link
  by_cases hasks : Asks lib link client request
  · rw [send_of_asks hasks]
    exact (answer_of_dispatch ids reach files dropped hdispatch).2
  · obtain ⟨e, he, _⟩ := send_of_not_asks (s := s) hasks
    rw [he]
    exact ⟨rfl, rfl⟩

variable {debug : Response → String} {client : Client}

/-- What the caller of `file` makes of what it heard. -/
def fileHeard (debug : Response → String) :
    Except ClientError Exchange → Except ClientError (FileHeader × ByteBody)
  | .error e => .error e
  | .ok ⟨.file header, some stream⟩ => .ok (header, bodyOf header stream)
  | .ok exchange => .error (unexpected debug "file" exchange.response)

/-- The caller of `file` gets the header of the whole file and what was sent of it. -/
theorem file_ok_iff {header : FileHeader} {body : ByteBody} :
    let link := endpointLink env q lib sqlText m remote ids reach files dropped
    (file lib link debug client inventoryId 0 none none s).1 = .ok (header, body) ↔
      ∃ token path f, client.token = some token ∧
        Asks lib link client (.file token inventoryId 0 none none) ∧
        foundFile env m remote token inventoryId s = .ok (path, f) ∧
        Fits lib (Response.file (wholeHeader path f)) ∧
        header = wholeHeader path f ∧
        body = bodyOf (wholeHeader path f) (sentWhole files dropped path f) := by
  intro link
  rw [file]
  cases htoken : client.token with
  | none =>
      refine iff_of_false (fun h => by cases h) ?_
      rintro ⟨_, _, _, h, _⟩
      cases h
  | some token =>
      show fileHeard debug (send lib link client (.file token inventoryId 0 none none) s).1 = _ ↔ _
      by_cases hasks : Asks lib link client (.file token inventoryId 0 none none)
      · obtain ⟨hlost, harrived⟩ := send_whole (Or.inl rfl) hasks dispatch_file
        by_cases hfits : Fits lib
            (wholeAnswer .file (foundFile env m remote token inventoryId s)).response
        · rw [harrived hfits]
          cases hfound : foundFile env m remote token inventoryId s with
          | error e =>
              refine iff_of_false (fun h => by cases h) ?_
              rintro ⟨token', _, _, h, _, hfound', _⟩
              cases h
              cases hfound.symm.trans hfound'
          | ok there =>
              obtain ⟨path, f⟩ := there
              rw [hfound] at hfits
              constructor
              · intro h
                cases Except.ok.inj h
                exact ⟨token, path, f, rfl, hasks, hfound, hfits, rfl, rfl⟩
              · rintro ⟨token', path', f', h, _, hfound', _, rfl, rfl⟩
                cases h
                cases hfound.symm.trans hfound'
                rfl
        · obtain ⟨e, he⟩ := hlost hfits
          rw [he]
          refine iff_of_false (fun h => by cases h) ?_
          rintro ⟨token', path, f, h, _, hfound, hfits', _⟩
          cases h
          rw [hfound] at hfits
          exact hfits hfits'
      · obtain ⟨e, he, _⟩ := send_of_not_asks (s := s) hasks
        rw [he]
        refine iff_of_false (fun h => by cases h) ?_
        rintro ⟨token', _, _, h, hasks', _⟩
        cases h
        exact hasks hasks'

variable (env q lib sqlText m remote ids reach files dropped inventoryId s debug client) in
/-- The caller of `cover` asks and hears of it, or there is an error of its own. -/
theorem cover_cases :
    let link := endpointLink env q lib sqlText m remote ids reach files dropped
    let answered := (cover lib link debug client inventoryId s).1
    (∃ token, client.token = some token ∧ Asks lib link client (.cover token inventoryId) ∧
      HearsWhole lib files dropped .cover (foundCover env m remote token inventoryId s)
        (send lib link client (.cover token inventoryId) s).1 ∧
      answered = match (send lib link client (.cover token inventoryId) s).1 with
        | .error (.remote .notFound _) => .ok none
        | .error e => .error e
        | .ok ⟨.cover header, some stream⟩ =>
            match (bodyOf header stream).readAll with
            | .error e => .error (.body e)
            | .ok bytes => .ok (some (header, bytes))
        | .ok exchange => .error (unexpected debug "cover" exchange.response)) ∨
    ((∀ token, client.token = some token → ¬ Asks lib link client (.cover token inventoryId)) ∧
      ∃ e, answered = .error e) := by
  intro link
  show _ ∨ (_ ∧ ∃ e, (cover lib link debug client inventoryId s).1 = .error e)
  rw [cover]
  cases htoken : client.token with
  | none => exact Or.inr ⟨fun _ h => (by cases h), _, rfl⟩
  | some token =>
      by_cases hasks : Asks lib link client (.cover token inventoryId)
      · exact Or.inl ⟨token, rfl, hasks, send_whole (Or.inr rfl) hasks dispatch_cover, rfl⟩
      · obtain ⟨e, he, hremote⟩ := send_of_not_asks (s := s) hasks
        refine Or.inr ⟨fun token' h => (by cases h; exact hasks), e, ?_⟩
        show (match (send lib link client (.cover token inventoryId) s).1 with
          | .error (.remote .notFound _) => Except.ok none
          | .error e => .error e
          | .ok ⟨.cover header, some stream⟩ =>
              match (bodyOf header stream).readAll with
              | .error e => .error (.body e)
              | .ok bytes => .ok (some (header, bytes))
          | .ok exchange => .error (unexpected debug "cover" exchange.response)) = _
        rw [he]
        cases e with
        | remote code message => exact absurd rfl (hremote code message)
        | _ => rfl

end Peer

/-! ## What is fetched -/

section Sent

variable {files : String → Option (List UInt8)} {dropped : Ending} {path : String} {f : DiskFile}

theorem length_sentWhole_le : (sentWhole files dropped path f).bytes.length ≤ f.bytes.length := by
  rw [sentWhole]
  cases files path with
  | none => exact Nat.zero_le _
  | some file =>
      rw [List.length_take]
      exact Nat.min_le_left _ _

theorem take_sentWhole : (sentWhole files dropped path f).bytes.take f.bytes.length =
    (sentWhole files dropped path f).bytes := List.take_of_length_le length_sentWhole_le

theorem remaining_whole (stream : RecvStream) :
    (bodyOf (wholeHeader path f) stream).remaining = f.bytes.length := RangedFiles.size_toNat f

/-- A reader that needs every byte has them, or an error. -/
theorem readAll_sentWhole_iff {bytes : List UInt8} :
    (bodyOf (wholeHeader path f) (sentWhole files dropped path f)).readAll = .ok bytes ↔
      (sentWhole files dropped path f).bytes = bytes ∧ bytes.length = f.bytes.length := by
  have hle : (sentWhole files dropped path f).bytes.length ≤ f.bytes.length := length_sentWhole_le
  rw [readAll_eq, remaining_whole]
  show (if (sentWhole files dropped path f).bytes.length < f.bytes.length then _
    else Except.ok ((sentWhole files dropped path f).bytes.take f.bytes.length)) = _ ↔ _
  rw [take_sentWhole]
  split
  next hlt =>
    refine iff_of_false (fun h => by cases h) ?_
    rintro ⟨rfl, hlength⟩
    exact Nat.lt_irrefl _ (hlength ▸ hlt)
  next hge =>
    refine ⟨fun h => ?_, fun h => congrArg Except.ok h.1⟩
    cases Except.ok.inj h
    exact ⟨rfl, Nat.le_antisymm hle (Nat.not_lt.1 hge)⟩

/-- A copy ends with what was sent, unless the stream breaks before its end. -/
theorem copyTo_sentWhole : (bodyOf (wholeHeader path f) (sentWhole files dropped path f)).copyTo =
    ((sentWhole files dropped path f).bytes,
      if (sentWhole files dropped path f).bytes.length < f.bytes.length ∧
        (sentWhole files dropped path f).ending = .broken then .error .stream
      else .ok (min f.bytes.length (sentWhole files dropped path f).bytes.length)) := by
  rw [copyTo_eq, remaining_whole]
  show ((sentWhole files dropped path f).bytes.take f.bytes.length, _) = _
  rw [take_sentWhole]
  rfl

end Sent

section Fetches

variable {env : SyncStore.Env} {q : SyncPrivacy.LogQueries env} {lib : SerdeJson}
variable {sqlText : SqlRows.SqlError → String} {m : Moment} {remote : String} {ids : NodeIds}
variable {reach : String → Except String Unit} {files : String → Option (List UInt8)}
variable {dropped : Ending} {inventoryId : String} {s : Endpoint}
variable {debug : Response → String} {client : Client}

theorem cover_some_iff {header : FileHeader} {bytes : List UInt8} :
    let link := endpointLink env q lib sqlText m remote ids reach files dropped
    (cover lib link debug client inventoryId s).1 = .ok (some (header, bytes)) ↔
      ∃ token path f, client.token = some token ∧ Asks lib link client (.cover token inventoryId) ∧
        foundCover env m remote token inventoryId s = .ok (path, f) ∧
        Fits lib (Response.cover (wholeHeader path f)) ∧ wholeHeader path f = header ∧
        (sentWhole files dropped path f).bytes = bytes ∧ bytes.length = f.bytes.length := by
  intro link
  obtain ⟨token, htoken, hasks, ⟨hlost, harrived⟩, hcover⟩ | ⟨hnot, e, he⟩ :=
    cover_cases env q lib sqlText m remote ids reach files dropped inventoryId s debug client
  · rw [hcover]
    by_cases hfits : Fits lib
        (wholeAnswer .cover (foundCover env m remote token inventoryId s)).response
    · rw [harrived hfits]
      cases hfound : foundCover env m remote token inventoryId s with
      | error e =>
          refine iff_of_false (fun h => ?_) ?_
          · obtain ⟨code, message⟩ := e
            cases code <;> cases h
          · rintro ⟨token', _, _, h, _, hfound', _⟩
            cases htoken.symm.trans h
            cases hfound.symm.trans hfound'
      | ok there =>
          obtain ⟨path, f⟩ := there
          rw [hfound] at hfits
          have hbody := @readAll_sentWhole_iff files dropped path f bytes
          show (match (bodyOf (wholeHeader path f) (sentWhole files dropped path f)).readAll with
            | .error e => Except.error (ClientError.body e)
            | .ok bytes => .ok (some (wholeHeader path f, bytes))) = _ ↔ _
          constructor
          · intro h
            cases hread : (bodyOf (wholeHeader path f) (sentWhole files dropped path f)).readAll with
            | error e =>
                rw [hread] at h
                cases h
            | ok read =>
                rw [hread] at h hbody
                cases Option.some.inj (Except.ok.inj h)
                exact ⟨token, path, f, htoken, hasks, hfound, hfits, rfl, hbody.1 rfl⟩
          · rintro ⟨token', path', f', h, _, hfound', _, rfl, hsent⟩
            cases htoken.symm.trans h
            cases hfound.symm.trans hfound'
            rw [hbody.2 hsent]
    · obtain ⟨e, he⟩ := hlost hfits
      rw [he]
      refine iff_of_false (fun h => by cases h) ?_
      rintro ⟨token', path, f, h, _, hfound, hfits', _⟩
      cases htoken.symm.trans h
      rw [hfound] at hfits
      exact hfits hfits'
  · rw [he]
    refine iff_of_false (fun h => by cases h) ?_
    rintro ⟨token, _, _, htoken, hasks, _⟩
    exact hnot token htoken hasks

theorem cover_none_iff :
    let link := endpointLink env q lib sqlText m remote ids reach files dropped
    (cover lib link debug client inventoryId s).1 = .ok none ↔
      ∃ token message, client.token = some token ∧ Asks lib link client (.cover token inventoryId) ∧
        foundCover env m remote token inventoryId s = .error (.notFound, message) ∧
        Fits lib (Response.error .notFound message) := by
  intro link
  obtain ⟨token, htoken, hasks, ⟨hlost, harrived⟩, hcover⟩ | ⟨hnot, e, he⟩ :=
    cover_cases env q lib sqlText m remote ids reach files dropped inventoryId s debug client
  · rw [hcover]
    by_cases hfits : Fits lib
        (wholeAnswer .cover (foundCover env m remote token inventoryId s)).response
    · rw [harrived hfits]
      cases hfound : foundCover env m remote token inventoryId s with
      | error e =>
          obtain ⟨code, message⟩ := e
          rw [hfound] at hfits
          constructor
          · intro h
            cases code <;> first | exact ⟨token, message, htoken, hasks, hfound, hfits⟩ | cases h
          · rintro ⟨token', message', h, _, hfound', _⟩
            cases htoken.symm.trans h
            cases hfound.symm.trans hfound'
            rfl
      | ok there =>
          obtain ⟨path, f⟩ := there
          refine iff_of_false ?_ ?_
          · show ¬ (match (bodyOf (wholeHeader path f) (sentWhole files dropped path f)).readAll with
              | .error e => Except.error (ClientError.body e)
              | .ok bytes => .ok (some (wholeHeader path f, bytes))) = Except.ok none
            cases (bodyOf (wholeHeader path f) (sentWhole files dropped path f)).readAll <;>
              exact fun h => by cases h
          · rintro ⟨token', message, h, _, hfound', _⟩
            cases htoken.symm.trans h
            cases hfound.symm.trans hfound'
    · obtain ⟨e, he⟩ := hlost hfits
      rw [he]
      refine iff_of_false (fun h => by cases h) ?_
      rintro ⟨token', message, h, _, hfound, hfits'⟩
      cases htoken.symm.trans h
      rw [hfound] at hfits
      exact hfits hfits'
  · rw [he]
    refine iff_of_false (fun h => by cases h) ?_
    rintro ⟨token, _, htoken, hasks, _⟩
    exact hnot token htoken hasks

theorem file_untouched :
    let link := endpointLink env q lib sqlText m remote ids reach files dropped
    (file lib link debug client inventoryId 0 none none s).2.db = s.db ∧
      (file lib link debug client inventoryId 0 none none s).2.wire = s.wire := by
  intro link
  rw [file]
  cases client.token with
  | none => exact ⟨rfl, rfl⟩
  | some token => exact send_untouched dispatch_file

theorem cover_untouched :
    let link := endpointLink env q lib sqlText m remote ids reach files dropped
    (cover lib link debug client inventoryId s).2.db = s.db ∧
      (cover lib link debug client inventoryId s).2.wire = s.wire := by
  intro link
  rw [cover]
  cases client.token with
  | none => exact ⟨rfl, rfl⟩
  | some token => exact send_untouched dispatch_cover

/-- A fetch ends well where the header comes, the destination can be made, and the copy
    ends well. -/
theorem fetchFile_ok_iff {σ : Type} {link : Link σ} {create : Except String Unit}
    {contents : List UInt8} {t : σ} :
    (fetchFile lib link debug client create inventoryId t).1 = .ok contents ↔
      create = .ok () ∧ ∃ header body,
        (file lib link debug client inventoryId 0 none none t).1 = .ok (header, body) ∧
        ∃ n, body.copyTo = (contents, .ok n) := by
  rw [fetchFile]
  cases (file lib link debug client inventoryId 0 none none t).1 with
  | error e =>
      refine iff_of_false (fun h => by cases h) ?_
      rintro ⟨_, _, _, h, _⟩
      cases h
  | ok asked =>
      obtain ⟨header, body⟩ := asked
      cases create with
      | error message =>
          refine iff_of_false (fun h => by cases h) ?_
          rintro ⟨h, _⟩
          cases h
      | ok made =>
          dsimp only
          cases hcopy : body.copyTo with
          | mk copied result =>
              cases result with
              | error e =>
                  refine iff_of_false (fun h => by cases h) ?_
                  rintro ⟨_, header', body', hsame, n, hcopy'⟩
                  cases hsame
                  cases hcopy.symm.trans hcopy'
              | ok n =>
                  constructor
                  · intro h
                    cases Except.ok.inj h
                    exact ⟨rfl, header, body, rfl, n, hcopy⟩
                  · rintro ⟨_, header', body', hsame, n', hcopy'⟩
                    cases hsame
                    cases hcopy.symm.trans hcopy'
                    rfl

theorem fetchCover_some_iff {σ : Type} {link : Link σ} {contentType : String}
    {bytes : List UInt8} {t : σ} :
    (fetchCover lib link debug client inventoryId t).1 = .ok (some (contentType, bytes)) ↔
      ∃ header, (cover lib link debug client inventoryId t).1 = .ok (some (header, bytes)) ∧
        header.contentType = contentType := by
  rw [fetchCover]
  cases (cover lib link debug client inventoryId t).1 with
  | error e =>
      refine iff_of_false (fun h => by cases h) ?_
      rintro ⟨_, h, _⟩
      cases h
  | ok got =>
      cases got with
      | none =>
          refine iff_of_false (fun h => by cases h) ?_
          rintro ⟨_, h, _⟩
          cases h
      | some got =>
          obtain ⟨header, read⟩ := got
          constructor
          · intro h
            cases Option.some.inj (Except.ok.inj h)
            exact ⟨header, rfl, rfl⟩
          · rintro ⟨header', hsame, rfl⟩
            cases hsame
            rfl

theorem fetchCover_none_iff {σ : Type} {link : Link σ} {t : σ} :
    (fetchCover lib link debug client inventoryId t).1 = .ok none ↔
      (cover lib link debug client inventoryId t).1 = .ok none := by
  rw [fetchCover]
  cases (cover lib link debug client inventoryId t).1 with
  | error e => exact iff_of_false (fun h => by cases h) fun h => by cases h
  | ok got =>
      cases got with
      | none => exact iff_of_true rfl rfl
      | some got => exact iff_of_false (fun h => by cases h) fun h => by cases h

end Fetches

/-- **BOOKS ARRIVE AS THE PEER HAS THEM.** -/
theorem books_arrive (env : SyncStore.Env) (q : SyncPrivacy.LogQueries env) (lib : SerdeJson)
    (sqlText : SqlRows.SqlError → String) (m : Moment) (remote : String) (ids : NodeIds)
    (reach : String → Except String Unit) (files : String → Option (List UInt8))
    (dropped : Ending) (debug : Response → String) (client : Client)
    (create : Except String Unit) (inventoryId : String) (s : Endpoint) :
    Fetched env q lib sqlText m remote ids reach files dropped debug client create inventoryId s where
  untouched := ⟨file_untouched, cover_untouched⟩
  file contents := by
    intro link
    rw [fetchFile_ok_iff]
    refine and_congr_right fun _ => ⟨?_, ?_⟩
    · rintro ⟨header, body, hfile, n, hcopy⟩
      obtain ⟨token, path, f, htoken, hasks, hfound, hfits, rfl, rfl⟩ := file_ok_iff.1 hfile
      rw [copyTo_sentWhole] at hcopy
      obtain ⟨rfl, hended⟩ := Prod.mk.inj hcopy
      refine ⟨token, path, f, htoken, hasks, hfound, hfits, rfl, fun hbroken => ?_⟩
      rw [if_pos hbroken] at hended
      cases hended
    · rintro ⟨token, path, f, htoken, hasks, hfound, hfits, rfl, hended⟩
      refine ⟨_, _, file_ok_iff.2 ⟨token, path, f, htoken, hasks, hfound, hfits, rfl, rfl⟩,
        min f.bytes.length (sentWhole files dropped path f).bytes.length, ?_⟩
      rw [copyTo_sentWhole, if_neg hended]
  cover contentType bytes := by
    intro link
    rw [fetchCover_some_iff]
    constructor
    · rintro ⟨header, hcover, rfl⟩
      obtain ⟨token, path, f, htoken, hasks, hfound, hfits, rfl, hsent⟩ := cover_some_iff.1 hcover
      exact ⟨token, path, f, htoken, hasks, hfound, hfits, rfl, hsent⟩
    · rintro ⟨token, path, f, htoken, hasks, hfound, hfits, rfl, hsent⟩
      exact ⟨_, cover_some_iff.2 ⟨token, path, f, htoken, hasks, hfound, hfits, rfl, hsent⟩, rfl⟩
  noCover := by
    intro link
    exact fetchCover_none_iff.trans cover_none_iff
  intact path f h := by
    rw [sentWhole, h]
    exact List.take_length

end SyncCalls
